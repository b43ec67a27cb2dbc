import Orgrim.MemoryPool.Runs

/-!
# The destructor

The destructor frees the blocks in the lists of free blocks.  Its assertions hold exactly when
no block of a chunk is handed out, so that they tell whether everything has been returned.
-/

namespace MemoryPool

open Links CMemoryPool

variable {β : Type} [DecidableEq β] {pool pool' : CMemoryPool β} {live : Finset (Ptr β)}
  {free : ℕ → List β} {heap heap' : Heap β (Block β)} {pMem : Ptr β} {nMaxSize : SizeT}

/-- The blocks are allocated, and have room for a `pNext`. -/
def Deletable (heap : Heap β (Block β)) (bs : List β) : Prop :=
  ∀ b ∈ bs, b ∈ heap.live ∧ (heap.cell b).Contains 2

/-- The loop frees the blocks of the list, and counts them. -/
theorem deleteBlocks_eq {pFreeBlock : Option β} {bs : List β} {fuel : ℕ}
    (hlist : FreeList heap pFreeBlock bs) (hbs : Deletable heap bs) (hfuel : bs.length ≤ fuel)
    (iFreedCount : ℕ) :
  ∃ heap', deleteBlocks fuel heap pFreeBlock iFreedCount
      = some (iFreedCount + bs.length, heap') ∧
    heap'.cell = heap.cell ∧ ∀ b, b ∈ heap'.live ↔ b ∈ heap.live ∧ b ∉ bs
  := by
  induction bs generalizing heap pFreeBlock fuel iFreedCount with
  | nil =>
      obtain rfl := hlist.chain
      use heap
      constructor
      · cases fuel with
        | zero => rfl
        | succ fuel => rfl
      · use rfl
        intro b
        exact (and_iff_left List.not_mem_nil).symm
  | cons b rest ih =>
      obtain rfl := hlist.chain.1
      obtain ⟨fuel, rfl⟩ := Nat.exists_eq_succ_of_ne_zero (Nat.ne_zero_of_lt hfuel)
      obtain ⟨_, heq, hnext, hrest⟩ := hlist.cases_some
      obtain rfl := (List.cons.inj heq).2
      have hnodup := List.nodup_cons.mp hlist.chain.nodup
      obtain ⟨hb, hcontains⟩ := hbs b List.mem_cons_self
      have hrest' : FreeList (heap.remove b) (nextBlock heap b) rest := by
        apply hrest.congr
        intro _ _
        rfl
      have hdeletable : Deletable (heap.remove b) rest := by
        intro b' hb'
        obtain ⟨hmem, hcontains'⟩ := hbs b' (List.mem_cons_of_mem b hb')
        have hne : b' ≠ b := by
          rintro rfl
          exact hnodup.1 hb'
        use Finset.mem_erase_of_ne_of_mem hne hmem
        exact hcontains'
      obtain ⟨heap', hdelete, hcell, hlive⟩ := ih hrest' hdeletable
        (Nat.le_of_succ_le_succ hfuel) (iFreedCount + 1)
      use heap'
      constructor
      · rw [deleteBlocks, loadWord_of_mem hb hcontains]
        simp only [Option.bind_eq_bind, Option.bind_some, hnext, Heap.free_of_mem hb]
        rw [hdelete, List.length_cons, Nat.add_right_comm, Nat.add_assoc]
      · use hcell
        intro b'
        rw [hlive, Heap.live_remove, Finset.mem_erase, List.mem_cons, not_or]
        constructor
        · rintro ⟨⟨hne, hmem⟩, hnot⟩
          exact ⟨hmem, hne, hnot⟩
        · rintro ⟨hmem, hne, hnot⟩
          exact ⟨⟨hne, hmem⟩, hnot⟩

/-- The assertions of the chunks hold exactly if all blocks that were created are free. -/
theorem deleteChunks_eq {chunks : List (CMemoryChunk β)}
    (hlists : ∀ i chunk, chunks[i]? = some chunk →
      FreeList heap chunk.pFreeBlock (free i) ∧ Deletable heap (free i))
    (hdisjoint : ∀ i j b, b ∈ free i → b ∈ free j → i = j) :
  ∃ r, deleteChunks chunks heap = some r ∧
    (r.isSome ↔ ∀ i chunk, chunks[i]? = some chunk → (free i).length = chunk.iBlockCount)
  := by
  induction chunks generalizing heap free with
  | nil =>
      use some heap, rfl
      apply iff_of_true rfl
      intro i chunk hchunk
      cases hchunk
  | cons chunk chunks ih =>
      obtain ⟨hlist, hdeletable⟩ := hlists 0 chunk rfl
      have hfuel : (free 0).length ≤ heap.live.card :=
        hlist.chain.length_le_card (fun b hb => (hdeletable b hb).1)
      obtain ⟨heap', hdelete, hcell, hlive⟩ :=
        deleteBlocks_eq hlist hdeletable hfuel 0
      rw [deleteChunks, hdelete]
      simp only [Option.bind_eq_bind, Option.bind_some, Nat.zero_add]
      by_cases hcount : (free 0).length = chunk.iBlockCount
      · rw [if_pos hcount]
        have hlists' : ∀ i chunk, chunks[i]? = some chunk →
            FreeList heap' chunk.pFreeBlock (free (i + 1)) ∧
              Deletable heap' (free (i + 1)) := by
          intro i chunk' hchunk'
          obtain ⟨hlist', hdeletable'⟩ := hlists (i + 1) chunk' hchunk'
          constructor
          · apply hlist'.congr
            intro b _
            rw [hcell]
          · intro b hb
            obtain ⟨hmem, hcontains⟩ := hdeletable' b hb
            rw [hlive, hcell]
            use ⟨hmem, fun hzero => absurd (hdisjoint _ _ b hb hzero) (Nat.succ_ne_zero i)⟩
        obtain ⟨r, hr, hiff⟩ := ih hlists'
          (fun i j b hi hj => Nat.succ.inj (hdisjoint _ _ b hi hj))
        use r, hr
        rw [hiff]
        constructor
        · intro h i chunk' hchunk'
          cases i with
          | zero =>
              obtain rfl := Option.some.inj hchunk'
              exact hcount
          | succ i => exact h i chunk' hchunk'
        · intro h i chunk' hchunk'
          exact h (i + 1) chunk' hchunk'
      · rw [if_neg hcount]
        use none, rfl
        apply iff_of_false
        · rintro ⟨⟩
        · intro h
          exact hcount (h 0 chunk rfl)

omit [DecidableEq β] in
/-- What the destructor needs to delete the free blocks. -/
theorem Conserves.deletable (h : Conserves pool live free) (i : ℕ) :
  Deletable pool.heap (free i)
  := by
  intro b hb
  obtain ⟨hmem, nSize, hsize, hfrom⟩ := h.idle i b hb
  obtain ⟨hmin, hmax⟩ := h.sizes nSize (List.mem_of_getElem? hsize)
  use hmem
  apply Block.contains_of_size hfrom.size hmin (BitVec.le_trans hmax h.max) (Nat.le_refl 2)

omit [DecidableEq β] in
/-- All blocks that were created are free exactly if only large blocks are handed out. -/
theorem Conserves.all_free_iff (h : Conserves pool live free) :
  (∀ i chunk, pool.pChunkList[i]? = some chunk → (free i).length = chunk.iBlockCount) ↔
    ∀ pMem ∈ live, (pool.heap.cell pMem.block).caller = .largeMalloc
  := by
  constructor
  · intro hall pMem hp
    cases hcaller : (pool.heap.cell pMem.block).caller with
    | largeMalloc => rfl
    | createBlock i =>
        obtain ⟨-, nSize, hsize, -⟩ := (h.handed pMem hp).fromChunk hcaller
        obtain ⟨chunk, hchunk⟩ := exists_chunk (List.getElem?_eq_some_iff.mp hsize).1
        have hcount := h.count i chunk hchunk
        rw [hall i chunk hchunk] at hcount
        have hzero : outstanding pool.heap live i = 0 := by omega
        rw [outstanding, Finset.card_eq_zero, Finset.filter_eq_empty_iff] at hzero
        exact absurd hcaller (hzero hp)
  · intro hlarge i chunk hchunk
    have hzero : outstanding pool.heap live i = 0 := by
      rw [outstanding, Finset.card_eq_zero, Finset.filter_eq_empty_iff]
      intro pMem hp
      rw [hlarge pMem hp]
      rintro ⟨⟩
    rw [← h.count i chunk hchunk, hzero, Nat.add_zero]

/-- The pool a program has reached that keeps to its memory. -/
def Reachable (nMaxSize : SizeT) (x : Use β) : Prop :=
  ∃ heap iChunkBlockNum answers pool calls,
    create heap nMaxSize iChunkBlockNum answers = some pool ∧
    memoryPool.Along Use.Permits ⟨pool, ∅⟩ calls ∧
    memoryPool.final ⟨pool, ∅⟩ calls = some x

theorem Reachable.sound {x : Use β} (h : Reachable nMaxSize x) :
  Sound nMaxSize x
  := by
  obtain ⟨heap, iChunkBlockNum, answers, pool, calls, hcreate, hcalls, hrun⟩ := h
  obtain ⟨hbuilt, hsizes, hmax⟩ := built_create hcreate
  have hstart : Sound nMaxSize (⟨pool, ∅⟩ : Use β) := ⟨hbuilt, hsizes, hmax⟩
  apply Machine.final_of_invariant (Sound nMaxSize) _ hstart hcalls hrun
  intro x c hsound hc x' hcall
  apply hsound.call hc hcall

/-- Whatever a program does that keeps to its memory, `New` does not return a pointer into a
block that is handed out, `Delete` returns a block to the chunk that created it or frees it, the
free blocks and the blocks handed out of a chunk are as many as `m_iBlockCount`, and the
assertions of the destructor hold if and only if no block of a chunk is handed out. -/
theorem conserves_blocks {x : Use β} (h : Reachable nMaxSize x) :
  (∀ nSize answer pMem pool', nSize.toNat < 2 ^ 64 - 8 →
      x.pool.new nSize answer = some (some pMem, pool') →
      pMem ∉ x.live ∧ ∀ q ∈ x.live, q.block ≠ pMem.block) ∧
    (∀ pMem ∈ x.live, ∃ pool', x.pool.delete pMem = some pool' ∧ Deletes x.pool pMem pool') ∧
    (∀ i chunk, x.pool.pChunkList[i]? = some chunk →
      ∃ bs, FreeList x.pool.heap chunk.pFreeBlock bs ∧
        bs.length + outstanding x.pool.heap x.live i = chunk.iBlockCount) ∧
    ∃ r, x.pool.destroy = some r ∧
      (r.isSome ↔ ∀ pMem ∈ x.live, (x.pool.heap.cell pMem.block).caller = .largeMalloc)
  := by
  have hsound := h.sound
  obtain ⟨free, hconserves⟩ := hsound.conserves
  constructor
  · intro nSize answer pMem pool' hsize hnew
    rcases hsound.new hsize hnew with ⟨hnone, -⟩ | ⟨_, hsome, hhands⟩
    · cases hnone
    · obtain rfl := Option.some.inj hsome
      constructor
      · intro hp
        exact hhands.fresh pMem hp rfl
      · exact hhands.fresh
  · constructor
    · intro pMem hp
      obtain ⟨pool', hdelete, hdeletes, -⟩ := hsound.delete hp
      use pool', hdelete
    · constructor
      · intro i chunk hchunk
        exact ⟨free i, hconserves.lists i chunk hchunk, hconserves.count i chunk hchunk⟩
      · rw [← hconserves.all_free_iff]
        apply deleteChunks_eq
        · intro i chunk hchunk
          exact ⟨hconserves.lists i chunk hchunk, hconserves.deletable i⟩
        · intro i j b hi hj
          obtain ⟨-, _, -, hfrom⟩ := hconserves.idle i b hi
          obtain ⟨-, _, -, hfrom'⟩ := hconserves.idle j b hj
          cases hfrom.caller.symm.trans hfrom'.caller
          rfl

/-- A memory in which nothing is allocated. -/
def noBlocks : Heap ℕ (Block ℕ) where
  live := ∅
  cell _ := ⟨0#64, .largeMalloc, fun _ => .data 0#64⟩

/-- A block of the pool is written to and deleted; another one and a large one are not. -/
def partialRun : List (Call ℕ) :=
  [.new 5#64 none, .new 5#64 (some 7), .store ⟨0, 2⟩ 0 (.data 1#64), .new 5000#64 (some 9),
    .delete ⟨0, 2⟩]

theorem conserves_blocks_partial :
  ∃ x : Use ℕ, x.live = {⟨7, 2⟩, ⟨9, 1⟩} ∧
    (∃ pool', x.pool.delete ⟨7, 2⟩ = some pool' ∧ Deletes x.pool ⟨7, 2⟩ pool') ∧
    ∃ r, x.pool.destroy = some r ∧
      (r.isSome ↔ ∀ pMem ∈ x.live, (x.pool.heap.cell pMem.block).caller = .largeMalloc)
  := by
  have hcreate : (create noBlocks 16#64 1 (fun i _ => some i)).isSome := by decide +kernel
  obtain ⟨pool, hcreate⟩ := Option.isSome_iff_exists.mp hcreate
  have hcalls : ∀ pool ∈ create noBlocks 16#64 1 (fun i _ => some i),
      memoryPool.Along Use.Permits ⟨pool, ∅⟩ partialRun := by decide +kernel
  have hfinal : ∀ pool ∈ create noBlocks 16#64 1 (fun i _ => some i),
      (memoryPool.final ⟨pool, ∅⟩ partialRun).isSome := by decide +kernel
  have hlive : ∀ pool ∈ create noBlocks 16#64 1 (fun i _ => some i),
      ∀ x ∈ memoryPool.final ⟨pool, ∅⟩ partialRun, x.live = {⟨7, 2⟩, ⟨9, 1⟩} := by
    decide +kernel
  obtain ⟨x, hrun⟩ := Option.isSome_iff_exists.mp (hfinal pool hcreate)
  have hx : Reachable 16#64 x :=
    ⟨noBlocks, 1, _, pool, partialRun, hcreate, hcalls pool hcreate, hrun⟩
  have hxlive := hlive pool hcreate x hrun
  obtain ⟨-, hdelete, -, hdestroy⟩ := conserves_blocks hx
  use x, hxlive
  constructor
  · apply hdelete
    rw [hxlive]
    apply Finset.mem_insert_self
  · exact hdestroy

end MemoryPool
