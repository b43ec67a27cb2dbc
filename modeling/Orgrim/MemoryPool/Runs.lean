import Orgrim.MemoryPool.Calls

/-!
# Every run of a pool

The pool that the constructor makes conserves its blocks, and so does every pool that a program
reaches which keeps to its memory.
-/

namespace MemoryPool

open Links CMemoryPool

variable {β : Type} [DecidableEq β] {pool pool' : CMemoryPool β} {live : Finset (Ptr β)}
  {free : ℕ → List β} {heap heap' : Heap β (Block β)} {chunk : CMemoryChunk β} {pMem : Ptr β}
  {i : ℕ} {nSize nMaxSize : SizeT}

/-! ### The sizes of the chunks -/

theorem clamp_le (nMaxSize : SizeT) :
  clamp nMaxSize ≤ maxSize
  := by
  rw [clamp]
  split
  · apply BitVec.le_refl _
  · rw [← BitVec.not_lt]
    assumption

/-- As long as the sizes stay below `MAX_SIZE`, doubling does not overflow. -/
theorem toNat_double {size : SizeT} (hsize : size ≤ maxSize) :
  (size * 2).toNat = size.toNat * 2
  := by
  simp only [maxSize, BitVec.le_def, BitVec.toNat_ofNat] at hsize
  rw [BitVec.toNat_mul]
  apply Nat.mod_eq_of_lt
  change size.toNat * 2 < 2 ^ 64
  omega

theorem mem_sizesFrom (hmax : nMaxSize ≤ maxSize) {fuel : ℕ} {size : SizeT}
    (h : nSize ∈ sizesFrom nMaxSize fuel size) :
  size ≤ nSize ∧ nSize ≤ nMaxSize
  := by
  induction fuel generalizing size with
  | zero => exact absurd h List.not_mem_nil
  | succ fuel ih =>
      rw [sizesFrom] at h
      split at h
      · rename_i hsize
        cases List.mem_cons.mp h with
        | inl heq =>
            rw [heq]
            use BitVec.le_refl size, hsize
        | inr hmem =>
            obtain ⟨hle, hmaxSize⟩ := ih hmem
            have hdouble := toNat_double (BitVec.le_trans hsize hmax)
            rw [BitVec.le_def, hdouble] at hle
            use by
              rw [BitVec.le_def]
              omega
      · exact absurd h List.not_mem_nil

theorem mem_chunkSizes (hmax : nMaxSize ≤ maxSize) (h : nSize ∈ chunkSizes nMaxSize) :
  minSize ≤ nSize ∧ nSize ≤ nMaxSize
  := mem_sizesFrom hmax h

/-! ### The constructor -/

/-- The pool conserves its blocks while nothing is handed out. -/
def Built (pool : CMemoryPool β) : Prop := ∃ free, Conserves pool ∅ free

omit [DecidableEq β] in
theorem exists_chunk (hi : i < pool.sizes.length) :
  ∃ chunk, pool.pChunkList[i]? = some chunk
  := by
  rw [CMemoryPool.sizes, List.length_map] at hi
  exact ⟨_, List.getElem?_eq_getElem hi⟩

omit [DecidableEq β] in
theorem sizes_of_set {chunk' : CMemoryChunk β} (hchunk : pool.pChunkList[i]? = some chunk)
    (hlist : pool'.pChunkList = pool.pChunkList.set i chunk')
    (hsize : chunk'.nSize = chunk.nSize) :
  pool'.sizes = pool.sizes
  := by
  rw [CMemoryPool.sizes, hlist]
  apply sizes_setChunk hchunk hsize

theorem Built.createBlocks {answer : ℕ → Option β} {iBlockNum : ℕ} (h : Built pool)
    (hi : i < pool.sizes.length)
    (hcreate : CMemoryPool.createBlocks i answer iBlockNum pool = some pool') :
  Built pool' ∧ pool'.sizes = pool.sizes ∧ pool'.nMaxSize = pool.nMaxSize
  := by
  induction iBlockNum generalizing pool with
  | zero =>
      obtain rfl := Option.some.inj hcreate
      use h
  | succ iBlockNum ih =>
      obtain ⟨free, hconserves⟩ := h
      obtain ⟨chunk, hchunk⟩ := exists_chunk hi
      rw [CMemoryPool.createBlocks] at hcreate
      rcases hconserves.createBlock_cases hchunk (answer iBlockNum)
        with hnone | ⟨-, hnone⟩ | ⟨b, pool₁, hsome, hhands, hfrom⟩
      · rw [hnone] at hcreate
        obtain rfl := Option.some.inj hcreate
        use ⟨free, hconserves⟩
      · rw [hnone] at hcreate
        cases hcreate
      · rw [hsome] at hcreate
        obtain ⟨free₁, hconserves₁⟩ := hhands.conserves
        have hi₁ : i < pool₁.sizes.length := by
          rw [hhands.sizes]
          exact hi
        obtain ⟨chunk₁, hchunk₁⟩ := exists_chunk hi₁
        have hmem : (⟨b, 2⟩ : Ptr β) ∈ insert (⟨b, 2⟩ : Ptr β) ∅ :=
          Finset.mem_insert_self _ _
        obtain ⟨pool₂, hfree, hconserves₂, -, hlist, hmax⟩ :=
          hconserves₁.freeBlock hmem hfrom.caller hchunk₁
        simp only [Option.bind_eq_bind, Option.bind_some, hfree] at hcreate
        have hsizes : pool₂.sizes = pool₁.sizes := sizes_of_set hchunk₁ hlist rfl
        rw [Finset.erase_insert (Finset.notMem_empty _)] at hconserves₂
        have hbuilt₂ : Built pool₂ := ⟨_, hconserves₂⟩
        rw [← hsizes] at hi₁
        obtain ⟨hbuilt, hsizes', hmax'⟩ := ih hbuilt₂ hi₁ hcreate
        use hbuilt
        rw [hsizes', hsizes, hhands.sizes, hmax', hmax, hhands.max]
        exact ⟨rfl, rfl⟩

omit [DecidableEq β] in
/-- A chunk without blocks is added. -/
theorem Built.addChunk (h : Built pool) (hmin : minSize ≤ nSize)
    (hmax : nSize ≤ pool.nMaxSize) :
  Built { pool with pChunkList := pool.pChunkList ++ [⟨none, nSize, 0⟩] }
  := by
  obtain ⟨free, hconserves⟩ := h
  have hsizes : CMemoryPool.sizes
      { pool with pChunkList := pool.pChunkList ++ [⟨none, nSize, 0⟩] }
        = pool.sizes ++ [nSize] := by
    rw [CMemoryPool.sizes, List.map_append]
    rfl
  have hfree : free pool.pChunkList.length = [] := by
    rw [List.eq_nil_iff_forall_not_mem]
    intro b hb
    obtain ⟨-, _, hsize, -⟩ := hconserves.idle _ b hb
    rw [CMemoryPool.sizes, List.getElem?_map, List.getElem?_eq_none (Nat.le_refl _)] at hsize
    cases hsize
  have hcases : ∀ {j chunk}, (pool.pChunkList ++ [⟨none, nSize, 0⟩])[j]? = some chunk →
      pool.pChunkList[j]? = some chunk ∨
        j = pool.pChunkList.length ∧ chunk = ⟨none, nSize, 0⟩ := by
    intro j chunk hchunk
    rw [List.getElem?_append] at hchunk
    split at hchunk
    · left
      exact hchunk
    · right
      obtain ⟨hj, rfl⟩ := List.getElem?_eq_some_iff.mp hchunk
      rw [List.length_singleton] at hj
      use by omega
      apply List.getElem_singleton
  use free
  constructor
  · apply hconserves.max
  · intro n hn
    rw [hsizes, List.mem_append, List.mem_singleton] at hn
    cases hn with
    | inl hmem => apply hconserves.sizes n hmem
    | inr heq =>
        rw [heq]
        use hmin
  · intro q hq
    exact absurd hq (Finset.notMem_empty q)
  · intro j b hb
    obtain ⟨hlive, n, hsize, hfrom⟩ := hconserves.idle j b hb
    use hlive, n
    rw [hsizes, List.getElem?_append_left (List.getElem?_eq_some_iff.mp hsize).1]
    exact ⟨hsize, hfrom⟩
  · intro j chunk hchunk
    cases hcases hchunk with
    | inl hchunk => apply hconserves.lists j chunk hchunk
    | inr hnew =>
        obtain ⟨rfl, rfl⟩ := hnew
        rw [hfree]
        apply freeList_nil
  · intro j b _
    apply Finset.notMem_empty
  · intro j chunk hchunk
    cases hcases hchunk with
    | inl hchunk => apply hconserves.count j chunk hchunk
    | inr hnew =>
        obtain ⟨rfl, rfl⟩ := hnew
        rw [hfree]
        rfl

/-- The constructors of the chunks, one after the other. -/
theorem Built.createChunks {iBlockNum : ℕ} {answers : ℕ → ℕ → Option β} {sizes : List SizeT}
    (h : Built pool) (hsizes : ∀ nSize ∈ sizes, minSize ≤ nSize ∧ nSize ≤ pool.nMaxSize)
    (hcreate : sizes.foldlM (createChunk iBlockNum answers) pool = some pool') :
  Built pool' ∧ pool'.sizes = pool.sizes ++ sizes ∧ pool'.nMaxSize = pool.nMaxSize
  := by
  induction sizes generalizing pool with
  | nil =>
      obtain rfl := Option.some.inj hcreate
      use h
      rw [List.append_nil]
      exact ⟨rfl, rfl⟩
  | cons nSize sizes ih =>
      rw [List.foldlM_cons, Option.bind_eq_bind, Option.bind_eq_some_iff] at hcreate
      obtain ⟨pool₁, hchunk, hrest⟩ := hcreate
      obtain ⟨hmin, hmax⟩ := hsizes nSize List.mem_cons_self
      have hi : pool.pChunkList.length < (CMemoryPool.sizes
          { pool with pChunkList := pool.pChunkList ++ [⟨none, nSize, 0⟩] }).length := by
        rw [CMemoryPool.sizes, List.length_map, List.length_append]
        apply Nat.lt_succ_self _
      obtain ⟨hbuilt, hsizes₁, hmax₁⟩ := (h.addChunk hmin hmax).createBlocks hi hchunk
      obtain ⟨hbuilt', hsizes', hmax'⟩ := ih hbuilt
        (by
          intro n hn
          rw [hmax₁]
          apply hsizes n (List.mem_cons_of_mem nSize hn))
        hrest
      use hbuilt'
      rw [hsizes', hsizes₁, hmax', hmax₁, CMemoryPool.sizes, List.map_append,
        List.append_assoc]
      exact ⟨rfl, rfl⟩

/-- The constructor makes a pool that conserves its blocks, with a chunk for every size. -/
theorem built_create {iChunkBlockNum : ℕ} {answers : ℕ → ℕ → Option β}
    (hcreate : create heap nMaxSize iChunkBlockNum answers = some pool) :
  Built pool ∧ pool.sizes = chunkSizes (clamp nMaxSize) ∧ pool.nMaxSize = clamp nMaxSize
  := by
  have hempty : Built (⟨heap, [], clamp nMaxSize⟩ : CMemoryPool β) := by
    use fun _ => []
    constructor
    · apply clamp_le nMaxSize
    · intro n hn
      exact absurd hn List.not_mem_nil
    · intro q hq
      exact absurd hq (Finset.notMem_empty q)
    · intro j b hb
      exact absurd hb List.not_mem_nil
    · intro j chunk hchunk
      cases hchunk
    · intro j b hb
      exact absurd hb List.not_mem_nil
    · intro j chunk hchunk
      cases hchunk
  have hsizes : ∀ nSize ∈ chunkSizes (clamp nMaxSize),
      minSize ≤ nSize ∧ nSize ≤ clamp nMaxSize := by
    intro n hn
    apply mem_chunkSizes (clamp_le nMaxSize) hn
  apply hempty.createChunks hsizes hcreate

/-! ### Runs -/

/-- A pool in use conserves its blocks, and has the chunks of a pool for `nMaxSize`. -/
structure Sound (nMaxSize : SizeT) (x : Use β) : Prop where
  conserves : ∃ free, Conserves x.pool x.live free
  sizes : x.pool.sizes = chunkSizes (clamp nMaxSize)
  max : x.pool.nMaxSize = clamp nMaxSize

/-- What has been handed out. -/
theorem Hands.sound {x : Use β} (h : Sound nMaxSize x) (hhands : Hands x.pool x.live pMem pool') :
  Sound nMaxSize ⟨pool', (some pMem).toFinset ∪ x.live⟩
  := by
  constructor
  · rw [Option.toFinset_some, ← Finset.insert_eq]
    apply hhands.conserves
  · rw [hhands.sizes, h.sizes]
  · rw [hhands.max, h.max]

/-- `New` returns a null pointer and changes nothing, or hands out a block. -/
theorem Sound.new {x : Use β} (h : Sound nMaxSize x) (hsize : nSize.toNat < 2 ^ 64 - 8)
    {answer : Option β} {r : Option (Ptr β)} (hnew : x.pool.new nSize answer = some (r, pool')) :
  (r = none ∧ pool' = x.pool) ∨ ∃ pMem, r = some pMem ∧ Hands x.pool x.live pMem pool'
  := by
  obtain ⟨free, hconserves⟩ := h.conserves
  by_cases hlarge : nSize > x.pool.nMaxSize
  · rcases hconserves.new_large_cases hlarge hsize answer
      with hnone | ⟨b, pool₁, hsome, hhands, -⟩
    · left
      obtain ⟨⟩ := hnone.symm.trans hnew
      exact ⟨rfl, rfl⟩
    · right
      obtain ⟨⟩ := hsome.symm.trans hnew
      exact ⟨_, rfl, hhands⟩
  · rw [CMemoryPool.new, if_neg hlarge] at hnew
    cases hchunk : x.pool.pChunkList[x.pool.chunkIndex nSize]? with
    | none =>
        rw [chunkMalloc, hchunk] at hnew
        cases hnew
    | some chunk =>
        rcases hconserves.chunkMalloc_cases hchunk answer
          with hnone | ⟨-, hnone⟩ | ⟨b, pool₁, hsome, hhands, -⟩
        · left
          obtain ⟨⟩ := hnone.symm.trans hnew
          exact ⟨rfl, rfl⟩
        · cases hnone.symm.trans hnew
        · right
          obtain ⟨⟩ := hsome.symm.trans hnew
          exact ⟨_, rfl, hhands⟩

/-- What `Delete` does with a pointer: its block is put before the free blocks of the chunk
that created it, or is freed if none did, and the other chunks keep their free blocks. -/
structure Deletes (pool : CMemoryPool β) (pMem : Ptr β) (pool' : CMemoryPool β) : Prop where
  lists : ∀ j chunk bs, pool.pChunkList[j]? = some chunk →
    FreeList pool.heap chunk.pFreeBlock bs →
    ∃ chunk', pool'.pChunkList[j]? = some chunk' ∧ FreeList pool'.heap chunk'.pFreeBlock
      (if (pool.heap.cell pMem.block).caller = .createBlock j then pMem.block :: bs else bs)
  live : pool'.heap.live =
    if (pool.heap.cell pMem.block).caller = .largeMalloc then pool.heap.live.erase pMem.block
    else pool.heap.live

theorem Sound.delete {x : Use β} (h : Sound nMaxSize x) (hp : pMem ∈ x.live) :
  ∃ pool', x.pool.delete pMem = some pool' ∧ Deletes x.pool pMem pool' ∧
    Sound nMaxSize ⟨pool', x.live.erase pMem⟩
  := by
  obtain ⟨free, hconserves⟩ := h.conserves
  cases hcaller : (x.pool.heap.cell pMem.block).caller with
  | largeMalloc =>
      obtain ⟨hdelete, hconserves'⟩ := hconserves.delete_large hp hcaller
      use { x.pool with heap := x.pool.heap.remove pMem.block }, hdelete
      constructor
      · constructor
        · intro j chunk bs hchunk hlist
          use chunk, hchunk
          rw [hcaller, if_neg Caller.noConfusion]
          apply hlist.congr
          intro b _
          rfl
        · rw [if_pos hcaller]
          rfl
      · constructor
        · use free
        · apply h.sizes
        · apply h.max
  | createBlock i =>
      obtain ⟨chunk, pool', hchunk, hdelete, hconserves', hlive, hlist, hmax⟩ :=
        hconserves.delete_chunk hp hcaller
      use pool', hdelete
      constructor
      · constructor
        · intro j chunk' bs hchunk' hlist'
          have hbs : bs = free j :=
            hlist'.chain.unique (hconserves.lists j chunk' hchunk').chain
          by_cases hji : j = i
          · obtain rfl := hji
            obtain rfl := Option.some.inj (hchunk.symm.trans hchunk')
            have hset : pool'.pChunkList[j]?
                = some { chunk with pFreeBlock := some pMem.block } := by
              rw [hlist, List.getElem?_set_self (List.getElem?_eq_some_iff.mp hchunk).1]
            use { chunk with pFreeBlock := some pMem.block }, hset
            have hlist₁ := hconserves'.lists j _ hset
            rw [Function.update_self] at hlist₁
            rw [if_pos hcaller, hbs]
            exact hlist₁
          · have hset : pool'.pChunkList[j]? = some chunk' := by
              rw [hlist, List.getElem?_set_ne (Ne.symm hji), hchunk']
            use chunk', hset
            have hlist₁ := hconserves'.lists j _ hset
            rw [Function.update_of_ne hji] at hlist₁
            rw [hcaller, if_neg, hbs]
            · exact hlist₁
            · rintro ⟨⟩
              apply hji rfl
        · rw [hcaller, if_neg Caller.noConfusion]
          exact hlive
      · constructor
        · exact ⟨_, hconserves'⟩
        · rw [sizes_of_set hchunk hlist rfl, h.sizes]
        · rw [hmax, h.max]

/-- The program keeps the pool sound. -/
theorem Sound.call {x x' : Use β} {c : Call β} (h : Sound nMaxSize x) (hc : x.Permits c)
    (hcall : x.call c = some x') :
  Sound nMaxSize x'
  := by
  cases c with
  | new nSize answer =>
      rw [Use.call, Option.map_eq_some_iff] at hcall
      obtain ⟨⟨r, pool'⟩, hnew, rfl⟩ := hcall
      rcases h.new hc hnew with ⟨rfl, rfl⟩ | ⟨pMem, rfl, hhands⟩
      · rw [Option.toFinset_none, Finset.empty_union]
        exact h
      · apply hhands.sound h
  | delete pMem =>
      rw [Use.call, Option.map_eq_some_iff] at hcall
      obtain ⟨pool', hdelete, rfl⟩ := hcall
      obtain ⟨pool₁, hdelete₁, -, hsound⟩ := h.delete hc
      obtain ⟨⟩ := hdelete₁.symm.trans hdelete
      exact hsound
  | store pMem k w =>
      rw [Use.call, Option.map_eq_some_iff] at hcall
      obtain ⟨heap', hstore, rfl⟩ := hcall
      obtain ⟨hb, -, rfl⟩ := storeWord_eq_some.mp hstore
      obtain ⟨free, hconserves⟩ := h.conserves
      constructor
      · exact ⟨free, hconserves.store hc (Nat.le_add_right _ k) w⟩
      · apply h.sizes
      · apply h.max

end MemoryPool
