import Orgrim.MemoryPool.Pool
import Orgrim.Theory.Chain

/-!
# No block is lost

`Conserves pool live free`: the pointers `live` are those that `New` returned and that have not
been deleted, and the blocks `free i` are in the list of free blocks of chunk `i`.  A block
carries in its header what `Delete` decides by, `Block.FromChunk` and `Block.FromHeap`.
Together, free and outstanding blocks of a chunk are as many as it counts.  The constructor
makes such a pool, and `New`, `Delete` and the stores of the program keep it so.
-/

namespace MemoryPool

open Links

variable {β : Type}

/-! ### Headers -/

/-- The block `CreateBlock` of chunk `i` makes. -/
structure Block.FromChunk (i : ℕ) (nSize : SizeT) (block : Block β) : Prop where
  caller : block.caller = .createBlock i
  size : block.size = blockHeaderSize + nSize
  pChunk : block.word 0 = .chunk i
  nSize : block.word 1 = .size nSize

/-- The block `LargeMalloc` makes for a request of `nSize` bytes. -/
structure Block.FromHeap (nSize : SizeT) (block : Block β) : Prop where
  caller : block.caller = .largeMalloc
  size : block.size = memoryHeapSize + nSize
  nSize : block.word 0 = .size nSize

/-- The blocks do not differ before the word `words`. -/
structure Block.SameHeader (words : ℕ) (block block' : Block β) : Prop where
  size : block'.size = block.size
  caller : block'.caller = block.caller
  word : ∀ k < words, block'.word k = block.word k

theorem Block.SameHeader.refl (words : ℕ) (block : Block β) :
  Block.SameHeader words block block
  := by
  constructor
  · rfl
  · rfl
  · intro k _
    rfl

theorem Block.word_setWord_self (k : ℕ) (w : Word β) (block : Block β) :
  (block.setWord k w).word k = w
  := Function.update_self ..

theorem Block.sameHeader_setWord {words k : ℕ} (hk : words ≤ k) (w : Word β)
    (block : Block β) :
  Block.SameHeader words block (block.setWord k w)
  := by
  constructor
  · rfl
  · rfl
  · intro j hj
    apply Function.update_of_ne (Nat.ne_of_lt (Nat.lt_of_lt_of_le hj hk))

theorem Block.FromChunk.of_sameHeader {i : ℕ} {nSize : SizeT} {block block' : Block β}
    (h : block.FromChunk i nSize) (hsame : Block.SameHeader 2 block block') :
  block'.FromChunk i nSize
  := by
  constructor
  · rw [hsame.caller, h.caller]
  · rw [hsame.size, h.size]
  · rw [hsame.word 0 Nat.two_pos, h.pChunk]
  · rw [hsame.word 1 Nat.one_lt_two, h.nSize]

theorem Block.FromHeap.of_sameHeader {nSize : SizeT} {block block' : Block β}
    (h : block.FromHeap nSize) (hsame : Block.SameHeader 1 block block') :
  block'.FromHeap nSize
  := by
  constructor
  · rw [hsame.caller, h.caller]
  · rw [hsame.size, h.size]
  · rw [hsame.word 0 Nat.one_pos, h.nSize]

/-- A block for `nSize` bytes of a chunk has room for the header and the word behind it. -/
theorem Block.contains_of_size {k : ℕ} {nSize : SizeT} {block : Block β}
    (hsize : block.size = blockHeaderSize + nSize) (hmin : minSize ≤ nSize)
    (hmax : nSize ≤ maxSize) (hk : k ≤ 2) :
  block.Contains k
  := by
  rw [Block.Contains, hsize]
  simp only [minSize, maxSize, blockHeaderSize, BitVec.le_def, BitVec.toNat_add,
    BitVec.toNat_ofNat] at hmin hmax ⊢
  omega

/-- A large block has room for the header. -/
theorem Block.contains_zero {nSize : SizeT} {block : Block β}
    (hblock : block.size = memoryHeapSize + nSize) (hsize : nSize.toNat < 2 ^ 64 - 8) :
  block.Contains 0
  := by
  rw [Block.Contains, hblock]
  simp only [memoryHeapSize, BitVec.toNat_add, BitVec.toNat_ofNat]
  omega

/-! ### Lists of free blocks -/

/-- The `pNext` that is stored in a block. -/
def nextBlock (heap : Heap β (Block β)) (b : β) : Option β :=
  ((heap.cell b).word 2).toNext.getD none

/-- The list of free blocks that starts with `pFreeBlock`. -/
structure FreeList (heap : Heap β (Block β)) (pFreeBlock : Option β) (bs : List β) : Prop where
  chain : Chain (nextBlock heap) pFreeBlock bs
  stored : ∀ b ∈ bs, ((heap.cell b).word 2).toNext = some (nextBlock heap b)

variable {heap heap' : Heap β (Block β)} {b : β} {pFreeBlock : Option β} {bs : List β}

theorem FreeList.congr (h : FreeList heap pFreeBlock bs)
    (hcell : ∀ b ∈ bs, heap'.cell b = heap.cell b) :
  FreeList heap' pFreeBlock bs
  := by
  have hnext : ∀ b ∈ bs, nextBlock heap' b = nextBlock heap b := by
    intro b hb
    rw [nextBlock, hcell b hb, nextBlock]
  constructor
  · apply h.chain.congr hnext
  · intro b hb
    rw [hcell b hb, hnext b hb]
    apply h.stored b hb

theorem freeList_nil (heap : Heap β (Block β)) :
  FreeList heap none []
  := by
  constructor
  · exact rfl
  · intro b hb
    exact absurd hb List.not_mem_nil

/-- A block that points to the list is put before it. -/
theorem FreeList.cons (h : FreeList heap pFreeBlock bs)
    (hb : (heap.cell b).word 2 = .next pFreeBlock) :
  FreeList heap (some b) (b :: bs)
  := by
  have hnext : nextBlock heap b = pFreeBlock := by
    rw [nextBlock, hb]
    rfl
  constructor
  · use rfl
    rw [hnext]
    apply h.chain
  · intro b' hb'
    cases List.mem_cons.mp hb' with
    | inl heq =>
        rw [heq, hnext, hb]
        rfl
    | inr hmem => apply h.stored b' hmem

/-- The first block of the list points to the rest of it. -/
theorem FreeList.cases_some (h : FreeList heap (some b) bs) :
  ∃ rest, bs = b :: rest ∧ ((heap.cell b).word 2).toNext = some (nextBlock heap b) ∧
    FreeList heap (nextBlock heap b) rest
  := by
  cases bs with
  | nil => cases h.chain
  | cons b' rest =>
      obtain ⟨hb, hchain⟩ := h.chain
      obtain rfl := Option.some.inj hb
      use rest, rfl, h.stored b List.mem_cons_self
      constructor
      · exact hchain
      · intro b' hb'
        apply h.stored b' (List.mem_cons_of_mem b hb')

/-! ### Conservation -/

/-- `m_nSize` of the chunks. -/
def CMemoryPool.sizes (pool : CMemoryPool β) : List SizeT :=
  pool.pChunkList.map CMemoryChunk.nSize

/-- What `New` returns: a pointer behind the header of a block. -/
inductive Handed (pool : CMemoryPool β) : Ptr β → Prop
  | chunk {b : β} {i : ℕ} {nSize : SizeT} :
      b ∈ pool.heap.live → pool.sizes[i]? = some nSize →
      (pool.heap.cell b).FromChunk i nSize → Handed pool ⟨b, 2⟩
  | large {b : β} {nSize : SizeT} :
      b ∈ pool.heap.live → nSize > pool.nMaxSize → nSize.toNat < 2 ^ 64 - 8 →
      (pool.heap.cell b).FromHeap nSize → Handed pool ⟨b, 1⟩

/-- How many of the pointers point to blocks that chunk `i` created. -/
def outstanding (heap : Heap β (Block β)) (live : Finset (Ptr β)) (i : ℕ) : ℕ :=
  (live.filter (fun pMem => (heap.cell pMem.block).caller = .createBlock i)).card

/-- Every block of the pool is either free or handed out. -/
structure Conserves (pool : CMemoryPool β) (live : Finset (Ptr β)) (free : ℕ → List β) :
    Prop where
  max : pool.nMaxSize ≤ maxSize
  sizes : ∀ nSize ∈ pool.sizes, minSize ≤ nSize ∧ nSize ≤ pool.nMaxSize
  handed : ∀ pMem ∈ live, Handed pool pMem
  idle : ∀ i, ∀ b ∈ free i, b ∈ pool.heap.live ∧
    ∃ nSize, pool.sizes[i]? = some nSize ∧ (pool.heap.cell b).FromChunk i nSize
  lists : ∀ i chunk, pool.pChunkList[i]? = some chunk →
    FreeList pool.heap chunk.pFreeBlock (free i)
  apart : ∀ i, ∀ b ∈ free i, ⟨b, 2⟩ ∉ live
  count : ∀ i chunk, pool.pChunkList[i]? = some chunk →
    (free i).length + outstanding pool.heap live i = chunk.iBlockCount

variable {pool pool' : CMemoryPool β} {live : Finset (Ptr β)} {free : ℕ → List β}
  {chunk chunk' : CMemoryChunk β} {pMem q : Ptr β} {i j : ℕ}

/-! ### Chunks that change -/

theorem sizes_setChunk (hchunk : pool.pChunkList[i]? = some chunk)
    (hsize : chunk'.nSize = chunk.nSize) :
  (pool.setChunk i chunk').sizes = pool.sizes
  := by
  obtain ⟨hi, rfl⟩ := List.getElem?_eq_some_iff.mp hchunk
  rw [CMemoryPool.sizes, CMemoryPool.setChunk, List.map_set, hsize,
    ← List.getElem_map CMemoryChunk.nSize]
  · apply List.set_getElem_self
  · rw [List.length_map]
    exact hi

theorem nSize_eq {nSize : SizeT} (hchunk : pool.pChunkList[i]? = some chunk)
    (hsize : pool.sizes[i]? = some nSize) :
  chunk.nSize = nSize
  := by
  rw [CMemoryPool.sizes, List.getElem?_map, hchunk] at hsize
  apply Option.some.inj hsize

@[simp]
theorem heap_setChunk (pool : CMemoryPool β) (i : ℕ) (chunk : CMemoryChunk β) :
  (pool.setChunk i chunk).heap = pool.heap
  := rfl

theorem setChunk_cases {c : CMemoryChunk β}
    (h : (pool.setChunk i chunk).pChunkList[j]? = some c) :
  (j = i ∧ c = chunk) ∨ (j ≠ i ∧ pool.pChunkList[j]? = some c)
  := by
  rw [CMemoryPool.setChunk] at h
  by_cases hji : j = i
  · left
    use hji
    rw [List.getElem?_set, if_pos hji.symm, Option.ite_none_right_eq_some] at h
    exact (Option.some.inj h.2).symm
  · right
    use hji
    rw [List.getElem?_set_ne (Ne.symm hji)] at h
    exact h

/-! ### Pointers that are handed out -/

theorem Handed.block_mem (h : Handed pool pMem) :
  pMem.block ∈ pool.heap.live
  := by
  cases h with
  | chunk hb _ _ => exact hb
  | large hb _ _ _ => exact hb

/-- It stays a pointer that is handed out as long as the header stays. -/
theorem Handed.frame (h : Handed pool pMem) (hsizes : pool'.sizes = pool.sizes)
    (hmax : pool'.nMaxSize = pool.nMaxSize) (hlive : pMem.block ∈ pool'.heap.live)
    (hsame : Block.SameHeader pMem.offset (pool.heap.cell pMem.block)
      (pool'.heap.cell pMem.block)) :
  Handed pool' pMem
  := by
  cases h with
  | chunk _ hsize hfrom =>
      apply Handed.chunk hlive _ (hfrom.of_sameHeader hsame)
      rw [hsizes, hsize]
  | large _ hlarge hsize hfrom =>
      apply Handed.large hlive _ hsize (hfrom.of_sameHeader hsame)
      rw [hmax]
      exact hlarge

/-- Only one pointer to a block is handed out. -/
theorem Handed.eq_of_block_eq (h : Handed pool pMem) (hq : Handed pool q)
    (hblock : pMem.block = q.block) :
  pMem = q
  := by
  cases h with
  | chunk _ _ hfrom =>
      cases hq with
      | chunk _ _ _ =>
          obtain rfl := hblock
          rfl
      | large _ _ _ hfrom' =>
          obtain rfl := hblock
          cases hfrom.caller.symm.trans hfrom'.caller
  | large _ _ _ hfrom =>
      cases hq with
      | chunk _ _ hfrom' =>
          obtain rfl := hblock
          cases hfrom.caller.symm.trans hfrom'.caller
      | large _ _ _ _ =>
          obtain rfl := hblock
          rfl

/-- It is in the block of a chunk if the chunk called `malloc`. -/
theorem Handed.fromChunk (h : Handed pool pMem)
    (hcaller : (pool.heap.cell pMem.block).caller = .createBlock i) :
  pMem.offset = 2 ∧
    ∃ nSize, pool.sizes[i]? = some nSize ∧ (pool.heap.cell pMem.block).FromChunk i nSize
  := by
  cases h with
  | @chunk b j nSize hb hsize hfrom =>
      obtain ⟨⟩ := hcaller.symm.trans hfrom.caller
      use rfl, nSize
  | large _ _ _ hfrom => cases hcaller.symm.trans hfrom.caller

/-! ### Counting -/

theorem outstanding_congr (hcaller : ∀ pMem ∈ live,
    (heap'.cell pMem.block).caller = (heap.cell pMem.block).caller) :
  outstanding heap' live i = outstanding heap live i
  := by
  rw [outstanding, outstanding]
  congr 1
  apply Finset.filter_congr
  intro pMem hp
  rw [hcaller pMem hp]

variable [DecidableEq β]

theorem outstanding_insert_self (hp : pMem ∉ live)
    (hcaller : (heap.cell pMem.block).caller = .createBlock i) :
  outstanding heap (insert pMem live) i = outstanding heap live i + 1
  := by
  rw [outstanding, outstanding, Finset.filter_insert, if_pos hcaller]
  apply Finset.card_insert_of_notMem
  intro hmem
  apply hp (Finset.mem_filter.mp hmem).1

theorem outstanding_insert_of_ne (hcaller : (heap.cell pMem.block).caller ≠ .createBlock i) :
  outstanding heap (insert pMem live) i = outstanding heap live i
  := by
  rw [outstanding, outstanding, Finset.filter_insert, if_neg hcaller]

theorem outstanding_erase_self (hp : pMem ∈ live)
    (hcaller : (heap.cell pMem.block).caller = .createBlock i) :
  outstanding heap (live.erase pMem) i + 1 = outstanding heap live i
  := by
  rw [← outstanding_insert_self (Finset.notMem_erase pMem live) hcaller,
    Finset.insert_erase hp]

theorem outstanding_erase_of_ne (hp : pMem ∈ live)
    (hcaller : (heap.cell pMem.block).caller ≠ .createBlock i) :
  outstanding heap (live.erase pMem) i = outstanding heap live i
  := by
  have hinsert : outstanding heap (insert pMem (live.erase pMem)) i
      = outstanding heap (live.erase pMem) i := outstanding_insert_of_ne hcaller
  rw [← hinsert, Finset.insert_erase hp]

/-! ### What keeps a pool so -/

omit [DecidableEq β] in
/-- The memory may change behind the headers of blocks that are handed out, and where no
block of the pool is. -/
theorem Conserves.frame (h : Conserves pool live free)
    (hlive : ∀ pMem ∈ live, pMem.block ∈ heap'.live ∧
      Block.SameHeader pMem.offset (pool.heap.cell pMem.block) (heap'.cell pMem.block))
    (hfree : ∀ i, ∀ b ∈ free i, b ∈ heap'.live ∧ heap'.cell b = pool.heap.cell b) :
  Conserves { pool with heap := heap' } live free
  := by
  constructor
  · apply h.max
  · apply h.sizes
  · intro pMem hp
    obtain ⟨hmem, hsame⟩ := hlive pMem hp
    exact (h.handed pMem hp).frame rfl rfl hmem hsame
  · intro i b hb
    obtain ⟨-, nSize, hsize, hfrom⟩ := h.idle i b hb
    obtain ⟨hmem, hcell⟩ := hfree i b hb
    use hmem, nSize, hsize
    rw [hcell]
    exact hfrom
  · intro i chunk hchunk
    apply (h.lists i chunk hchunk).congr
    intro b hb
    exact (hfree i b hb).2
  · apply h.apart
  · intro i chunk hchunk
    rw [← h.count i chunk hchunk, outstanding_congr]
    intro pMem hp
    exact (hlive pMem hp).2.caller

omit [DecidableEq β] in
/-- One chunk changes, with its free blocks and with what is handed out. -/
theorem Conserves.setChunk {live' : Finset (Ptr β)} {bs : List β} (h : Conserves pool live free)
    (hchunk : pool.pChunkList[i]? = some chunk) (hsize : chunk'.nSize = chunk.nSize)
    (hhanded : ∀ pMem ∈ live', Handed pool pMem)
    (hidle : ∀ b ∈ bs, b ∈ pool.heap.live ∧
      ∃ nSize, pool.sizes[i]? = some nSize ∧ (pool.heap.cell b).FromChunk i nSize)
    (hlist : FreeList pool.heap chunk'.pFreeBlock bs)
    (hapart : ∀ j, ∀ b ∈ Function.update free i bs j, ⟨b, 2⟩ ∉ live')
    (hcount : bs.length + outstanding pool.heap live' i = chunk'.iBlockCount)
    (hothers : ∀ j, j ≠ i → outstanding pool.heap live' j = outstanding pool.heap live j) :
  Conserves (pool.setChunk i chunk') live' (Function.update free i bs)
  := by
  have hsizes : (pool.setChunk i chunk').sizes = pool.sizes := sizes_setChunk hchunk hsize
  constructor
  · apply h.max
  · rw [hsizes]
    apply h.sizes
  · intro pMem hp
    have hpMem := hhanded pMem hp
    apply hpMem.frame hsizes rfl hpMem.block_mem (Block.SameHeader.refl _ _)
  · intro j b hb
    rw [hsizes]
    by_cases hji : j = i
    · obtain rfl := hji
      rw [Function.update_self] at hb
      apply hidle b hb
    · rw [Function.update_of_ne hji] at hb
      apply h.idle j b hb
  · intro j c hc
    cases setChunk_cases hc with
    | inl heq =>
        obtain ⟨rfl, rfl⟩ := heq
        rw [Function.update_self]
        exact hlist
    | inr hne =>
        rw [Function.update_of_ne hne.1]
        apply h.lists j c hne.2
  · exact hapart
  · intro j c hc
    rw [heap_setChunk]
    cases setChunk_cases hc with
    | inl heq =>
        obtain ⟨rfl, rfl⟩ := heq
        rw [Function.update_self]
        exact hcount
    | inr hne =>
        rw [Function.update_of_ne hne.1, hothers j hne.1]
        apply h.count j c hne.2

/-- The pointers that are handed out, with one more into a block of a chunk. -/
theorem Conserves.handed_insert {nSize : SizeT} (h : Conserves pool live free)
    (hb : b ∈ pool.heap.live) (hsize : pool.sizes[i]? = some nSize)
    (hfrom : (pool.heap.cell b).FromChunk i nSize) :
  ∀ pMem ∈ insert (⟨b, 2⟩ : Ptr β) live, Handed pool pMem
  := by
  intro pMem hp
  cases Finset.mem_insert.mp hp with
  | inl heq =>
      rw [heq]
      apply Handed.chunk hb hsize hfrom
  | inr hmem => apply h.handed pMem hmem

omit [DecidableEq β] in
/-- To the other chunks a block of one chunk does not count. -/
theorem caller_ne (hcaller : (heap.cell b).caller = .createBlock i) (hji : j ≠ i) :
  (heap.cell (⟨b, 2⟩ : Ptr β).block).caller ≠ .createBlock j
  := by
  rw [hcaller]
  rintro ⟨⟩
  exact hji rfl

/-- A block is taken out of the list of free blocks. -/
theorem Conserves.take (h : Conserves pool live free)
    (hchunk : pool.pChunkList[i]? = some chunk) (hfree : chunk.pFreeBlock = some b) :
  ∃ rest, free i = b :: rest ∧
    Conserves (pool.setChunk i { chunk with pFreeBlock := nextBlock pool.heap b })
      (insert ⟨b, 2⟩ live) (Function.update free i rest)
  := by
  have hlist := h.lists i chunk hchunk
  rw [hfree] at hlist
  obtain ⟨rest, hbs, -, hrest⟩ := hlist.cases_some
  have hbi : b ∈ free i := by
    rw [hbs]
    apply List.mem_cons_self
  have hsub : ∀ j, Function.update free i rest j ⊆ free j := by
    intro j b' hb'
    by_cases hji : j = i
    · obtain rfl := hji
      rw [Function.update_self] at hb'
      rw [hbs]
      apply List.mem_cons_of_mem b hb'
    · rw [Function.update_of_ne hji] at hb'
      exact hb'
  have hnodup := hlist.chain.nodup
  rw [hbs, List.nodup_cons] at hnodup
  obtain ⟨hb, nSize, hsize, hfrom⟩ := h.idle i b hbi
  use rest, hbs
  apply h.setChunk hchunk
  · rfl
  · apply h.handed_insert hb hsize hfrom
  · intro b' hb'
    apply h.idle i b'
    rw [hbs]
    apply List.mem_cons_of_mem b hb'
  · exact hrest
  · intro j b' hb' hmem
    cases Finset.mem_insert.mp hmem with
    | inl heq =>
        cases heq
        obtain ⟨-, nSize', -, hfrom'⟩ := h.idle j b (hsub j hb')
        cases hfrom.caller.symm.trans hfrom'.caller
        rw [Function.update_self] at hb'
        exact hnodup.1 hb'
    | inr hmem => apply h.apart j b' (hsub j hb') hmem
  · have hcount := h.count i chunk hchunk
    rw [hbs, List.length_cons] at hcount
    rw [outstanding_insert_self (h.apart i b hbi) hfrom.caller, ← hcount]
    omega
  · intro j hji
    apply outstanding_insert_of_ne (caller_ne hfrom.caller hji)

/-- A block is put into the list of free blocks. -/
theorem Conserves.put (h : Conserves pool live free)
    (hchunk : pool.pChunkList[i]? = some chunk) (hp : ⟨b, 2⟩ ∈ live)
    (hcaller : (pool.heap.cell b).caller = .createBlock i)
    (hword : (pool.heap.cell b).word 2 = .next chunk.pFreeBlock) :
  Conserves (pool.setChunk i { chunk with pFreeBlock := some b })
    (live.erase ⟨b, 2⟩) (Function.update free i (b :: free i))
  := by
  apply h.setChunk hchunk
  · rfl
  · intro pMem hmem
    apply h.handed pMem (Finset.mem_of_mem_erase hmem)
  · intro b' hb'
    cases List.mem_cons.mp hb' with
    | inl heq =>
        rw [heq]
        use (h.handed _ hp).block_mem
        exact ((h.handed _ hp).fromChunk hcaller).2
    | inr hmem => apply h.idle i b' hmem
  · exact (h.lists i chunk hchunk).cons hword
  · intro j b' hb' hmem
    by_cases hji : j = i
    · obtain rfl := hji
      rw [Function.update_self, List.mem_cons] at hb'
      cases hb' with
      | inl heq =>
          rw [heq] at hmem
          apply Finset.notMem_erase _ live hmem
      | inr hb' => apply h.apart j b' hb' (Finset.mem_of_mem_erase hmem)
    · rw [Function.update_of_ne hji] at hb'
      apply h.apart j b' hb' (Finset.mem_of_mem_erase hmem)
  · rw [List.length_cons, ← h.count i chunk hchunk, ← outstanding_erase_self hp hcaller]
    omega
  · intro j hji
    apply outstanding_erase_of_ne hp (caller_ne hcaller hji)

/-- A block that is no block of the pool yet is handed out by the chunk that created it. -/
theorem Conserves.hand (h : Conserves pool live free)
    (hchunk : pool.pChunkList[i]? = some chunk) (hb : b ∈ pool.heap.live)
    (hnew : ∀ q ∈ live, q.block ≠ b) (hidle : ∀ j, b ∉ free j)
    (hfrom : (pool.heap.cell b).FromChunk i chunk.nSize) :
  Conserves (pool.setChunk i { chunk with iBlockCount := chunk.iBlockCount + 1 })
    (insert ⟨b, 2⟩ live) free
  := by
  have hsize : pool.sizes[i]? = some chunk.nSize := by
    rw [CMemoryPool.sizes, List.getElem?_map, hchunk]
    rfl
  have hnotMem : ⟨b, 2⟩ ∉ live := by
    intro hmem
    apply hnew _ hmem rfl
  rw [← Function.update_eq_self i free]
  apply h.setChunk hchunk
  · rfl
  · apply h.handed_insert hb hsize hfrom
  · apply h.idle i
  · apply h.lists i chunk hchunk
  · rw [Function.update_eq_self]
    intro j b' hb' hmem
    cases Finset.mem_insert.mp hmem with
    | inl heq =>
        cases heq
        apply hidle j hb'
    | inr hmem => apply h.apart j b' hb' hmem
  · rw [outstanding_insert_self hnotMem hfrom.caller, ← h.count i chunk hchunk]
    rfl
  · intro j hji
    apply outstanding_insert_of_ne (caller_ne hfrom.caller hji)

/-- A large block is handed out. -/
theorem Conserves.handLarge {nSize : SizeT} (h : Conserves pool live free)
    (hb : b ∈ pool.heap.live) (hlarge : nSize > pool.nMaxSize)
    (hsize : nSize.toNat < 2 ^ 64 - 8) (hfrom : (pool.heap.cell b).FromHeap nSize) :
  Conserves pool (insert ⟨b, 1⟩ live) free
  := by
  constructor
  · apply h.max
  · apply h.sizes
  · intro pMem hp
    cases Finset.mem_insert.mp hp with
    | inl heq =>
        rw [heq]
        apply Handed.large hb hlarge hsize hfrom
    | inr hmem => apply h.handed pMem hmem
  · apply h.idle
  · apply h.lists
  · intro j b' hb' hmem
    cases Finset.mem_insert.mp hmem with
    | inl heq => cases heq
    | inr hmem => apply h.apart j b' hb' hmem
  · intro j chunk' hchunk'
    rw [outstanding_insert_of_ne]
    · apply h.count j chunk' hchunk'
    · rw [hfrom.caller]
      rintro ⟨⟩

/-- A large block is no longer handed out. -/
theorem Conserves.eraseLarge (h : Conserves pool live free) (hp : pMem ∈ live)
    (hcaller : (pool.heap.cell pMem.block).caller = .largeMalloc) :
  Conserves pool (live.erase pMem) free
  := by
  constructor
  · apply h.max
  · apply h.sizes
  · intro q hq
    apply h.handed q (Finset.mem_of_mem_erase hq)
  · apply h.idle
  · apply h.lists
  · intro j b' hb' hmem
    apply h.apart j b' hb' (Finset.mem_of_mem_erase hmem)
  · intro j chunk' hchunk'
    rw [outstanding_erase_of_ne hp]
    · apply h.count j chunk' hchunk'
    · rw [hcaller]
      rintro ⟨⟩

end MemoryPool
