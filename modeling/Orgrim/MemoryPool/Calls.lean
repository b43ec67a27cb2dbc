import Orgrim.MemoryPool.Conservation

/-!
# What the calls do to a pool

Where a pool conserves its blocks, `New` and `Delete` have a result, except for the overflow of
`m_iBlockCount` and for a size that no chunk has; it is computed here, with the pool it leaves.
-/

namespace MemoryPool

open Links CMemoryPool

variable {β : Type} [DecidableEq β] {pool pool' : CMemoryPool β} {live : Finset (Ptr β)}
  {free : ℕ → List β} {heap heap' : Heap β (Block β)} {chunk : CMemoryChunk β} {pMem : Ptr β}
  {b : β} {i k : ℕ} {w : Word β} {nSize : SizeT}

/-! ### Words -/

theorem loadWord_eq_some :
  loadWord heap b k = some w ↔
    b ∈ heap.live ∧ (heap.cell b).Contains k ∧ (heap.cell b).word k = w
  := by
  rw [loadWord, Option.bind_eq_some_iff]
  constructor
  · rintro ⟨block, hload, hw⟩
    obtain ⟨hb, rfl⟩ := Heap.load_eq_some.mp hload
    rw [Option.ite_none_right_eq_some, Option.some_inj] at hw
    use hb, hw.1, hw.2
  · rintro ⟨hb, hk, hw⟩
    use heap.cell b, Heap.load_of_mem hb
    rw [if_pos hk, hw]

theorem storeWord_eq_some :
  storeWord heap b k w = some heap' ↔
    b ∈ heap.live ∧ (heap.cell b).Contains k ∧
      heap' = heap.put b ((heap.cell b).setWord k w)
  := by
  rw [storeWord, Option.ite_none_right_eq_some, Heap.modify_eq_some, and_left_comm]

theorem loadWord_of_mem (hb : b ∈ heap.live) (hk : (heap.cell b).Contains k) :
  loadWord heap b k = some ((heap.cell b).word k)
  := loadWord_eq_some.mpr ⟨hb, hk, rfl⟩

theorem storeWord_of_mem (hb : b ∈ heap.live) (hk : (heap.cell b).Contains k) (w : Word β) :
  storeWord heap b k w = some (heap.put b ((heap.cell b).setWord k w))
  := storeWord_eq_some.mpr ⟨hb, hk, rfl⟩

/-! ### Allocation -/

/-- The memory where also `b` is allocated. -/
structure Allocates (heap : Heap β (Block β)) (b : β) (heap' : Heap β (Block β)) : Prop where
  fresh : b ∉ heap.live
  live : heap'.live = insert b heap.live
  cell : ∀ b' ≠ b, heap'.cell b' = heap.cell b'

theorem allocates_add (hb : b ∉ heap.live) (f : Block β → Block β) :
  Allocates heap b (heap.add b f)
  := by
  constructor
  · exact hb
  · rfl
  · intro b' hne
    apply Heap.cell_add_of_ne heap f hne

/-- Words of the block may be stored. -/
theorem Allocates.put (h : Allocates heap b heap') (block : Block β) :
  Allocates heap b (heap'.put b block)
  := by
  constructor
  · apply h.fresh
  · apply h.live
  · intro b' hne
    rw [Heap.cell_put_of_ne _ _ hne, h.cell b' hne]

theorem Allocates.mem (h : Allocates heap b heap') :
  b ∈ heap'.live
  := by
  rw [h.live]
  apply Finset.mem_insert_self

omit [DecidableEq β] in
/-- No pointer that is handed out points to the new block. -/
theorem Conserves.ne_of_fresh (h : Conserves pool live free) (hb : b ∉ pool.heap.live) :
  (∀ q ∈ live, q.block ≠ b) ∧ ∀ j, b ∉ free j
  := by
  constructor
  · intro q hq
    apply Heap.ne_of_not_mem hb (h.handed q hq).block_mem
  · intro j hmem
    apply hb (h.idle j b hmem).1

theorem Conserves.allocates (h : Conserves pool live free) (hb : Allocates pool.heap b heap') :
  Conserves { pool with heap := heap' } live free
  := by
  obtain ⟨hnew, hidle⟩ := h.ne_of_fresh hb.fresh
  apply h.frame
  · intro q hq
    rw [hb.live, hb.cell _ (hnew q hq)]
    use Finset.mem_insert_of_mem (h.handed q hq).block_mem
    apply Block.SameHeader.refl
  · intro j b' hb'
    have hne : b' ≠ b := by
      rintro rfl
      apply hidle j hb'
    rw [hb.live, hb.cell _ hne]
    use Finset.mem_insert_of_mem (h.idle j b' hb').1

omit [DecidableEq β] in
/-- The size of a chunk is between those of a word and of the largest block. -/
theorem Conserves.nSize_bounds (h : Conserves pool live free)
    (hchunk : pool.pChunkList[i]? = some chunk) :
  minSize ≤ chunk.nSize ∧ chunk.nSize ≤ maxSize
  := by
  have hmem : chunk.nSize ∈ pool.sizes :=
    List.mem_map_of_mem (List.mem_of_getElem? hchunk)
  obtain ⟨hmin, hmax⟩ := h.sizes _ hmem
  use hmin, BitVec.le_trans hmax h.max

/-- A call leaves the pool `pool'` and `pMem`, which points to a block that no pointer that
is handed out points to. -/
structure Hands (pool : CMemoryPool β) (live : Finset (Ptr β)) (pMem : Ptr β)
    (pool' : CMemoryPool β) : Prop where
  fresh : ∀ q ∈ live, q.block ≠ pMem.block
  conserves : ∃ free', Conserves pool' (insert pMem live) free'
  sizes : pool'.sizes = pool.sizes
  max : pool'.nMaxSize = pool.nMaxSize

/-- `CreateBlock` returns a null pointer or hands out a new block, if `m_iBlockCount` does not
overflow. -/
theorem Conserves.createBlock_cases (h : Conserves pool live free)
    (hchunk : pool.pChunkList[i]? = some chunk) (answer : Option β) :
  pool.createBlock i answer = some (none, pool) ∨
    intMax ≤ chunk.iBlockCount ∧ pool.createBlock i answer = none ∨
    ∃ b pool', pool.createBlock i answer = some (some b, pool') ∧
      Hands pool live ⟨b, 2⟩ pool' ∧ (pool'.heap.cell b).FromChunk i chunk.nSize
  := by
  rw [createBlock, hchunk]
  rcases pool.heap.malloc_cases answer
    (Block.requested (blockHeaderSize + chunk.nSize) (.createBlock i))
    with hmalloc | ⟨b, -, hb, hmalloc⟩
  · left
    simp only [hmalloc, Option.bind_eq_bind, Option.bind_some]
  · right
    obtain ⟨hmin, hmax⟩ := h.nSize_bounds hchunk
    let made := pool.heap.add b
      (Block.requested (blockHeaderSize + chunk.nSize) (.createBlock i))
    let marked := made.put b ((made.cell b).setWord 0 (.chunk i))
    let heap' := marked.put b ((marked.cell b).setWord 1 (.size chunk.nSize))
    have hmade : (made.cell b).size = blockHeaderSize + chunk.nSize := by
      rw [Heap.cell_add_self]
      rfl
    have hmarked : (marked.cell b).size = blockHeaderSize + chunk.nSize := by
      rw [Heap.cell_put_self]
      exact hmade
    have hfrom : (heap'.cell b).FromChunk i chunk.nSize := by
      rw [Heap.cell_put_self, Heap.cell_put_self, Heap.cell_add_self]
      constructor
      · rfl
      · rfl
      · rfl
      · rfl
    have hmem : b ∈ made.live := Finset.mem_insert_self b _
    have hstore₀ := storeWord_of_mem hmem
      (Block.contains_of_size (k := 0) hmade hmin hmax (Nat.zero_le 2)) (.chunk i)
    have hmemMarked : b ∈ marked.live := hmem
    have hstore₁ := storeWord_of_mem hmemMarked
      (Block.contains_of_size (k := 1) hmarked hmin hmax (Nat.le_succ 1)) (.size chunk.nSize)
    simp only [hmalloc, Option.bind_eq_bind, Option.bind_some]
    rw [hstore₀, Option.bind_some, hstore₁, Option.bind_some]
    by_cases hcount : chunk.iBlockCount < intMax
    · right
      use b, CMemoryPool.setChunk { pool with heap := heap' } i
        { chunk with iBlockCount := chunk.iBlockCount + 1 }, if_pos hcount
      constructor
      · have hallocates : Allocates pool.heap b heap' := ((allocates_add hb _).put _).put _
        obtain ⟨hnew, hidle⟩ := h.ne_of_fresh hb
        constructor
        · exact hnew
        · exact ⟨free, (h.allocates hallocates).hand hchunk hmem hnew hidle hfrom⟩
        · have hchunk' : ({ pool with heap := heap' } : CMemoryPool β).pChunkList[i]? = some chunk :=
            hchunk
          exact sizes_setChunk hchunk' rfl
        · rfl
      · exact hfrom
    · left
      use Nat.le_of_not_lt hcount, if_neg hcount

/-- `LargeMalloc` fails, or makes a block that was not allocated. -/
theorem largeMalloc_cases (pool : CMemoryPool β) (hsize : nSize.toNat < 2 ^ 64 - 8)
    (answer : Option β) :
  pool.largeMalloc nSize answer = some (none, pool) ∨
    ∃ b heap', Allocates pool.heap b heap' ∧ (heap'.cell b).FromHeap nSize ∧
      pool.largeMalloc nSize answer = some (some ⟨b, 1⟩, { pool with heap := heap' })
  := by
  rw [largeMalloc]
  rcases pool.heap.malloc_cases answer
    (Block.requested (memoryHeapSize + nSize) .largeMalloc) with hmalloc | ⟨b, -, hb, hmalloc⟩
  · left
    simp only [hmalloc]
  · right
    let made := (pool.heap.add b (Block.requested (memoryHeapSize + nSize) .largeMalloc))
    use b, made.put b ((made.cell b).setWord 0 (.size nSize))
    use (allocates_add hb _).put _
    have hmade : (made.cell b).size = memoryHeapSize + nSize := by
      rw [Heap.cell_add_self]
      rfl
    constructor
    · rw [Heap.cell_put_self, Heap.cell_add_self]
      constructor
      · rfl
      · rfl
      · rfl
    · have hmem : b ∈ made.live := Finset.mem_insert_self b _
      have hstore := storeWord_of_mem hmem
        (Block.contains_zero hmade hsize) (.size nSize)
      simp only [hmalloc, Option.bind_eq_bind]
      rw [hstore, Option.bind_some]

/-! ### `Malloc` and `Free` of a chunk -/

omit [DecidableEq β] in
/-- A block that is handed out is not free. -/
theorem Conserves.ne_of_idle (h : Conserves pool live free) (hp : pMem ∈ live) {j : ℕ}
    (hb : b ∈ free j) :
  b ≠ pMem.block
  := by
  rintro rfl
  obtain ⟨hmem, nSize, hsize, hfrom⟩ := h.idle j _ hb
  have heq : ⟨pMem.block, 2⟩ = pMem :=
    (Handed.chunk hmem hsize hfrom).eq_of_block_eq (h.handed pMem hp) rfl
  apply h.apart j _ hb
  rw [heq]
  exact hp

/-- A word is stored behind a pointer that is handed out. -/
theorem Conserves.store (h : Conserves pool live free) (hp : pMem ∈ live)
    (hk : pMem.offset ≤ k) (w : Word β) :
  Conserves
    { pool with
      heap := pool.heap.put pMem.block ((pool.heap.cell pMem.block).setWord k w) }
    live free
  := by
  apply h.frame
  · intro q hq
    use (h.handed q hq).block_mem
    by_cases hblock : q.block = pMem.block
    · rw [(h.handed q hq).eq_of_block_eq (h.handed pMem hp) hblock, Heap.cell_put_self]
      apply Block.sameHeader_setWord hk
    · rw [Heap.cell_put_of_ne _ _ hblock]
      apply Block.SameHeader.refl
  · intro j b hb
    use (h.idle j b hb).1
    apply Heap.cell_put_of_ne _ _ (h.ne_of_idle hp hb)

/-- A block that is handed out is put back. -/
theorem Conserves.freeBlock (h : Conserves pool live free) (hp : ⟨b, 2⟩ ∈ live)
    (hcaller : (pool.heap.cell b).caller = .createBlock i)
    (hchunk : pool.pChunkList[i]? = some chunk) :
  ∃ pool', pool.freeBlock i b = some pool' ∧
    Conserves pool' (live.erase ⟨b, 2⟩) (Function.update free i (b :: free i)) ∧
    pool'.heap.live = pool.heap.live ∧
    pool'.pChunkList = pool.pChunkList.set i { chunk with pFreeBlock := some b } ∧
    pool'.nMaxSize = pool.nMaxSize
  := by
  obtain ⟨-, nSize, hsize, hfrom⟩ := (h.handed _ hp).fromChunk hcaller
  have hb : b ∈ pool.heap.live := (h.handed _ hp).block_mem
  obtain rfl := nSize_eq hchunk hsize
  obtain ⟨hmin, hmax⟩ := h.nSize_bounds hchunk
  have hstore := storeWord_of_mem hb
    (Block.contains_of_size hfrom.size hmin hmax (Nat.le_refl 2)) (.next chunk.pFreeBlock)
  let stored := pool.heap.put b ((pool.heap.cell b).setWord 2 (.next chunk.pFreeBlock))
  have hstored : Conserves { pool with heap := stored } live free :=
    h.store hp (Nat.le_refl 2) (.next chunk.pFreeBlock)
  use CMemoryPool.setChunk { pool with heap := stored } i { chunk with pFreeBlock := some b }
  constructor
  · rw [CMemoryPool.freeBlock, hchunk]
    simp only [Option.bind_eq_bind, Option.bind_some]
    rw [hstore, Option.bind_some]
  · constructor
    · apply hstored.put hchunk hp
      · rw [Heap.cell_put_self]
        exact hcaller
      · rw [Heap.cell_put_self]
        apply Block.word_setWord_self
    · exact ⟨rfl, rfl, rfl⟩

/-- `Malloc` of a chunk returns a null pointer or hands out a block of the chunk, if
`m_iBlockCount` does not overflow. -/
theorem Conserves.chunkMalloc_cases (h : Conserves pool live free)
    (hchunk : pool.pChunkList[i]? = some chunk) (answer : Option β) :
  pool.chunkMalloc i answer = some (none, pool) ∨
    intMax ≤ chunk.iBlockCount ∧ pool.chunkMalloc i answer = none ∨
    ∃ b pool', pool.chunkMalloc i answer = some (some ⟨b, 2⟩, pool') ∧
      Hands pool live ⟨b, 2⟩ pool' ∧ (pool'.heap.cell b).FromChunk i chunk.nSize
  := by
  cases hfree : chunk.pFreeBlock with
  | none =>
      have hmalloc : pool.chunkMalloc i answer
          = (pool.createBlock i answer).bind
            (fun x => some (x.1.map (fun b => ⟨b, 2⟩), x.2)) := by
        rw [chunkMalloc, hchunk]
        simp only [Option.bind_eq_bind, Option.bind_some, hfree]
      rw [hmalloc]
      rcases h.createBlock_cases hchunk answer
        with hcreate | ⟨hcount, hcreate⟩ | ⟨b, pool', hcreate, hhands, hfrom⟩
      · left
        rw [hcreate]
        rfl
      · right
        left
        rw [hcreate]
        use hcount
        rfl
      · right
        right
        rw [hcreate]
        use b, pool', rfl, hhands
  | some b =>
      right
      right
      obtain ⟨rest, hbs, htake⟩ := h.take hchunk hfree
      have hbi : b ∈ free i := by
        rw [hbs]
        apply List.mem_cons_self
      obtain ⟨hb, nSize, hsize, hfrom⟩ := h.idle i b hbi
      obtain rfl := nSize_eq hchunk hsize
      obtain ⟨hmin, hmax⟩ := h.nSize_bounds hchunk
      have hlist := h.lists i chunk hchunk
      rw [hfree] at hlist
      obtain ⟨-, -, hnext, -⟩ := hlist.cases_some
      use b, pool.setChunk i { chunk with pFreeBlock := nextBlock pool.heap b }
      constructor
      · have hload := loadWord_of_mem hb
          (Block.contains_of_size hfrom.size hmin hmax (Nat.le_refl 2))
        rw [chunkMalloc, hchunk]
        simp only [Option.bind_eq_bind, Option.bind_some, hfree]
        rw [hload, Option.bind_some, hnext, Option.bind_some]
      · constructor
        · constructor
          · intro q hq hqb
            have hhanded : Handed pool ⟨b, 2⟩ := Handed.chunk hb hsize hfrom
            have heq : q = ⟨b, 2⟩ := (h.handed q hq).eq_of_block_eq hhanded hqb
            rw [heq] at hq
            apply h.apart i b hbi hq
          · exact ⟨Function.update free i rest, htake⟩
          · exact sizes_setChunk hchunk rfl
          · rfl
        · exact hfrom

/-! ### `New` and `Delete` -/

/-- `New` returns a null pointer or hands out a large block, for a size that is not too
large to be had. -/
theorem Conserves.new_large_cases (h : Conserves pool live free) (hlarge : nSize > pool.nMaxSize)
    (hsize : nSize.toNat < 2 ^ 64 - 8) (answer : Option β) :
  pool.new nSize answer = some (none, pool) ∨
    ∃ b pool', pool.new nSize answer = some (some ⟨b, 1⟩, pool') ∧
      Hands pool live ⟨b, 1⟩ pool' ∧ (pool'.heap.cell b).FromHeap nSize
  := by
  rw [new, if_pos hlarge]
  rcases largeMalloc_cases pool hsize answer with hmalloc | ⟨b, heap', hb, hfrom, hmalloc⟩
  · left
    exact hmalloc
  · right
    use b, { pool with heap := heap' }, hmalloc
    constructor
    · constructor
      · exact (h.ne_of_fresh hb.fresh).1
      · exact ⟨free, (h.allocates hb).handLarge hb.mem hlarge hsize hfrom⟩
      · rfl
      · rfl
    · exact hfrom

/-- `Delete` frees a large block. -/
theorem Conserves.delete_large (h : Conserves pool live free) (hp : pMem ∈ live)
    (hcaller : (pool.heap.cell pMem.block).caller = .largeMalloc) :
  pool.delete pMem = some { pool with heap := pool.heap.remove pMem.block } ∧
    Conserves { pool with heap := pool.heap.remove pMem.block } (live.erase pMem) free
  := by
  have hhanded := h.handed pMem hp
  constructor
  · cases hhanded with
    | chunk _ _ hfrom => cases hcaller.symm.trans hfrom.caller
    | large hb hlarge hsize hfrom =>
        have hload := loadWord_of_mem hb (Block.contains_zero hfrom.size hsize)
        rw [delete, largeFree, Ptr.sub]
        simp only [Option.bind_eq_bind, Nat.le_refl, if_true, Option.bind_some, Nat.sub_self]
        rw [hload, Option.bind_some, hfrom.nSize, Word.toSize]
        simp only [Option.bind_some, if_pos hlarge, Ptr.base, if_true, Heap.free_of_mem hb]
  · apply (h.eraseLarge hp hcaller).frame
    · intro q hq
      have hne : q.block ≠ pMem.block := by
        intro hblock
        apply Finset.ne_of_mem_erase hq
        exact (h.handed q (Finset.mem_of_mem_erase hq)).eq_of_block_eq hhanded hblock
      use Finset.mem_erase_of_ne_of_mem hne
        (h.handed q (Finset.mem_of_mem_erase hq)).block_mem
      apply Block.SameHeader.refl
    · intro j b hb
      use Finset.mem_erase_of_ne_of_mem (h.ne_of_idle hp hb) (h.idle j b hb).1
      rfl

/-- `Delete` puts a block of a chunk before the free blocks of that chunk. -/
theorem Conserves.delete_chunk (h : Conserves pool live free) (hp : pMem ∈ live)
    (hcaller : (pool.heap.cell pMem.block).caller = .createBlock i) :
  ∃ chunk pool', pool.pChunkList[i]? = some chunk ∧ pool.delete pMem = some pool' ∧
    Conserves pool' (live.erase pMem) (Function.update free i (pMem.block :: free i)) ∧
    pool'.heap.live = pool.heap.live ∧
    pool'.pChunkList = pool.pChunkList.set i { chunk with pFreeBlock := some pMem.block } ∧
    pool'.nMaxSize = pool.nMaxSize
  := by
  have hhanded := h.handed pMem hp
  cases hhanded with
  | large _ _ _ hfrom => cases hcaller.symm.trans hfrom.caller
  | @chunk b j nSize hb hsize hfrom =>
      obtain ⟨⟩ := hcaller.symm.trans hfrom.caller
      have hsize' := hsize
      rw [CMemoryPool.sizes, List.getElem?_map, Option.map_eq_some_iff] at hsize'
      obtain ⟨chunk, hchunk, rfl⟩ := hsize'
      obtain ⟨hmin, hmax⟩ := h.nSize_bounds hchunk
      obtain ⟨pool', hfree, hconserves, hlive, hlist, hmaxSize⟩ :=
        h.freeBlock hp hcaller hchunk
      use chunk, pool', hchunk
      constructor
      · have hsmall : ¬ chunk.nSize > pool.nMaxSize := by
          have hle := (h.sizes chunk.nSize (List.mem_of_getElem? hsize)).2
          rw [BitVec.not_lt]
          exact hle
        have hload₁ := loadWord_of_mem hb
          (Block.contains_of_size (k := 1) hfrom.size hmin hmax (Nat.le_succ 1))
        have hload₀ := loadWord_of_mem hb
          (Block.contains_of_size (k := 0) hfrom.size hmin hmax (Nat.zero_le 2))
        rw [delete, largeFree, Ptr.sub]
        simp only [Option.bind_eq_bind, Nat.le_succ, if_true, Option.bind_some]
        rw [hload₁, Option.bind_some, hfrom.nSize, Word.toSize]
        simp only [Option.bind_some, if_neg hsmall, chunkFree, Ptr.sub, Nat.le_refl, if_true,
          Option.bind_eq_bind, Nat.sub_self, Ptr.base]
        rw [hload₀, Option.bind_some, hfrom.pChunk]
        exact hfree
      · exact ⟨hconserves, hlive, hlist, hmaxSize⟩

end MemoryPool
