import Mathlib.Data.Nat.Log
import Orgrim.MemoryPool.Destructor

/-!
# How much `New` returns

`New` is to return a null pointer or a block with room for the request.  The sizes of the chunks
are the powers of two up to `m_nMaxSize`.  A request that is neither above `m_nMaxSize` nor below
the largest of them finds no chunk, and the loop of `New` ends with the index `m_iChunkCount`; a
request that is so large that the header does not fit before it makes the sum in `LargeMalloc`
overflow.  For every other request `New` returns what it should, and only for those.
-/

namespace MemoryPool

open CMemoryPool

variable {β : Type} [DecidableEq β] {pool : CMemoryPool β} {nMaxSize nSize : SizeT}

/-! ### The two loops -/

/-- The sizes that the constructor goes through are those obtained by doubling. -/
theorem mem_sizesFrom_iff (hmax : nMaxSize ≤ maxSize) {fuel : ℕ} {size : SizeT} :
  nSize ∈ sizesFrom nMaxSize fuel size ↔
    nSize ≤ nMaxSize ∧ ∃ k < fuel, nSize.toNat = size.toNat * 2 ^ k
  := by
  induction fuel generalizing size with
  | zero =>
      apply iff_of_false List.not_mem_nil
      rintro ⟨-, k, hk, -⟩
      exact absurd hk (Nat.not_lt_zero k)
  | succ fuel ih =>
      rw [sizesFrom]
      split
      · rename_i hsize
        rw [List.mem_cons, ih, toNat_double (BitVec.le_trans hsize hmax)]
        constructor
        · rintro (rfl | ⟨hle, k, hk, heq⟩)
          · use hsize, 0, Nat.succ_pos fuel
            rw [Nat.pow_zero, Nat.mul_one]
          · use hle, k + 1, Nat.succ_lt_succ hk
            rw [heq, Nat.pow_succ, Nat.mul_assoc, Nat.mul_comm 2]
        · rintro ⟨hle, k, hk, heq⟩
          cases k with
          | zero =>
              left
              rw [Nat.pow_zero, Nat.mul_one] at heq
              apply BitVec.eq_of_toNat_eq heq
          | succ k =>
              right
              use hle, k, Nat.lt_of_succ_lt_succ hk
              rw [heq, Nat.pow_succ, Nat.mul_assoc, Nat.mul_comm 2]
      · rename_i hsize
        apply iff_of_false List.not_mem_nil
        rintro ⟨hle, k, -, heq⟩
        apply hsize
        rw [BitVec.le_def] at hle ⊢
        have hpow : size.toNat * 1 ≤ size.toNat * 2 ^ k :=
          Nat.mul_le_mul_left _ (Nat.one_le_two_pow)
        omega

/-- Where a size is large enough, the loop of `New` finds one. -/
theorem indexFrom_spec {fuel i : ℕ} {size : SizeT}
    (h : ∃ s ∈ sizesFrom nMaxSize fuel size, nSize ≤ s) :
  ∃ j s, indexFrom nMaxSize nSize fuel size i = i + j ∧
    (sizesFrom nMaxSize fuel size)[j]? = some s ∧ nSize ≤ s
  := by
  induction fuel generalizing size i with
  | zero =>
      obtain ⟨s, hs, -⟩ := h
      exact absurd hs List.not_mem_nil
  | succ fuel ih =>
      rw [sizesFrom] at h
      rw [indexFrom, sizesFrom]
      split at h
      · rename_i hsize
        rw [if_pos hsize, if_pos hsize]
        by_cases hfits : size ≥ nSize
        · use 0, size
          rw [if_pos hfits]
          use rfl, rfl
        · rw [if_neg hfits]
          obtain ⟨s, hs, hle⟩ := h
          cases List.mem_cons.mp hs with
          | inl heq =>
              rw [heq] at hle
              exact absurd hle hfits
          | inr hmem =>
              obtain ⟨j, s, hindex, hget, hle⟩ := ih (i := i + 1) ⟨s, hmem, hle⟩
              use j + 1, s
              rw [hindex]
              use by omega, hget
      · obtain ⟨s, hs, -⟩ := h
        exact absurd hs List.not_mem_nil

/-- Some chunk has room for a request exactly if the largest power of two has. -/
theorem exists_size_iff (hmax : nMaxSize ≤ maxSize) :
  (∃ s ∈ chunkSizes nMaxSize, nSize ≤ s) ↔
    8 ≤ nMaxSize.toNat ∧ nSize.toNat ≤ 2 ^ Nat.log 2 nMaxSize.toNat
  := by
  have hbound : nMaxSize.toNat ≤ 1024 := hmax
  constructor
  · rintro ⟨s, hs, hle⟩
    obtain ⟨hsmax, k, -, heq⟩ := (mem_sizesFrom_iff hmax).mp hs
    have hpow : s.toNat = 2 ^ (k + 3) := by
      rw [heq, Nat.pow_add, Nat.mul_comm]
      rfl
    rw [BitVec.le_def] at hsmax hle
    rw [hpow] at hsmax hle
    have hpos : nMaxSize.toNat ≠ 0 := by
      have hpower := Nat.two_pow_pos (k + 3)
      omega
    constructor
    · have height : 2 ^ 3 ≤ 2 ^ (k + 3) := Nat.pow_le_pow_right Nat.two_pos (by omega)
      omega
    · apply Nat.le_trans hle
      apply Nat.pow_le_pow_right Nat.two_pos
      apply Nat.le_log_of_pow_le Nat.one_lt_two hsmax
  · rintro ⟨hmin, hle⟩
    have hlog : 3 ≤ Nat.log 2 nMaxSize.toNat := Nat.le_log_of_pow_le Nat.one_lt_two hmin
    have hpow : 2 ^ Nat.log 2 nMaxSize.toNat ≤ nMaxSize.toNat := by
      apply Nat.pow_log_le_self
      omega
    have hlog' : Nat.log 2 nMaxSize.toNat < 11 := by
      apply Nat.log_lt_of_lt_pow
      · omega
      · omega
    have htoNat : (BitVec.ofNat 64 (2 ^ Nat.log 2 nMaxSize.toNat)).toNat
        = 2 ^ Nat.log 2 nMaxSize.toNat := by
      apply Nat.mod_eq_of_lt
      omega
    use BitVec.ofNat 64 (2 ^ Nat.log 2 nMaxSize.toNat)
    constructor
    · apply (mem_sizesFrom_iff hmax).mpr
      rw [BitVec.le_def, htoNat]
      use hpow, Nat.log 2 nMaxSize.toNat - 3
      constructor
      · omega
      · change _ = 2 ^ 3 * 2 ^ _
        rw [← Nat.pow_add, Nat.add_sub_cancel' hlog]
    · rw [BitVec.le_def, htoNat]
      exact hle

/-! ### What `New` returns -/

/-- The bytes from a pointer to the end of its block. -/
def CMemoryPool.usable (pool : CMemoryPool β) (pMem : Ptr β) : ℕ :=
  (pool.heap.cell pMem.block).size.toNat - 8 * pMem.offset

/-- `New` selects a chunk with room for the request, or computes the size of the large block
without overflow, and returns a null pointer or enough bytes, unless an `m_iBlockCount` is
exhausted. -/
structure Serves (pool : CMemoryPool β) (nSize : SizeT) : Prop where
  selects : nSize ≤ pool.nMaxSize → ∃ chunk,
    pool.pChunkList[pool.chunkIndex nSize]? = some chunk ∧ nSize ≤ chunk.nSize
  computes : pool.nMaxSize < nSize →
    (memoryHeapSize + nSize).toNat = memoryHeapSize.toNat + nSize.toNat
  returns : (∀ chunk ∈ pool.pChunkList, chunk.iBlockCount < intMax) → ∀ answer,
    ∃ r pool', pool.new nSize answer = some (r, pool') ∧
      ∀ pMem ∈ r, nSize.toNat ≤ pool'.usable pMem

/-- The request is not above the largest power of two up to `m_nMaxSize`, if it is not above
`m_nMaxSize`, and leaves room for the header otherwise. -/
def Fits (nMaxSize nSize : SizeT) : Prop :=
  (nSize ≤ clamp nMaxSize →
    8 ≤ (clamp nMaxSize).toNat ∧ nSize.toNat ≤ 2 ^ Nat.log 2 (clamp nMaxSize).toNat) ∧
  (clamp nMaxSize < nSize → nSize.toNat < 2 ^ 64 - 8)

theorem Sound.serves {x : Use β} (h : Sound nMaxSize x) (hfits : Fits nMaxSize nSize) :
  Serves x.pool nSize
  := by
  obtain ⟨free, hconserves⟩ := h.conserves
  have hselects : nSize ≤ x.pool.nMaxSize → ∃ chunk,
      x.pool.pChunkList[x.pool.chunkIndex nSize]? = some chunk ∧ nSize ≤ chunk.nSize := by
    intro hle
    rw [h.max] at hle
    obtain ⟨j, s, hindex, hget, hs⟩ := indexFrom_spec (i := 0)
      ((exists_size_iff (clamp_le nMaxSize)).mpr (hfits.1 hle))
    rw [Nat.zero_add] at hindex
    have hsize : x.pool.sizes[x.pool.chunkIndex nSize]? = some s := by
      rw [h.sizes, chunkIndex, h.max, hindex]
      exact hget
    obtain ⟨chunk, hchunk⟩ := exists_chunk (List.getElem?_eq_some_iff.mp hsize).1
    use chunk, hchunk
    rw [nSize_eq hchunk hsize]
    exact hs
  have hlarge : x.pool.nMaxSize < nSize → nSize.toNat < 2 ^ 64 - 8 := by
    rw [h.max]
    exact hfits.2
  have hcomputes : x.pool.nMaxSize < nSize →
      (memoryHeapSize + nSize).toNat = memoryHeapSize.toNat + nSize.toNat := by
    intro hlt
    rw [BitVec.toNat_add]
    apply Nat.mod_eq_of_lt
    have hsize := hlarge hlt
    have hheader : memoryHeapSize.toNat = 8 := rfl
    omega
  constructor
  · exact hselects
  · exact hcomputes
  · intro hcounts answer
    by_cases hlt : nSize > x.pool.nMaxSize
    · rcases hconserves.new_large_cases hlt (hlarge hlt) answer
        with hnone | ⟨b, pool', hsome, -, hfrom⟩
      · exact ⟨none, x.pool, hnone, fun _ h => absurd h (Option.not_mem_none _)⟩
      · use some ⟨b, 1⟩, pool', hsome
        rintro _ ⟨⟩
        rw [usable, hfrom.size, hcomputes hlt]
        apply Nat.le_of_eq (Nat.add_sub_cancel_left ..).symm
    · rw [gt_iff_lt, BitVec.not_lt] at hlt
      obtain ⟨chunk, hchunk, hle⟩ := hselects hlt
      have hnew : x.pool.new nSize answer
          = x.pool.chunkMalloc (x.pool.chunkIndex nSize) answer := by
        rw [CMemoryPool.new, if_neg]
        rw [gt_iff_lt, BitVec.not_lt]
        exact hlt
      rw [hnew]
      rcases hconserves.chunkMalloc_cases hchunk answer
        with hnone | ⟨hcount, -⟩ | ⟨b, pool', hsome, -, hfrom⟩
      · exact ⟨none, x.pool, hnone, fun _ h => absurd h (Option.not_mem_none _)⟩
      · exact absurd (hcounts chunk (List.mem_of_getElem? hchunk)) (Nat.not_lt.mpr hcount)
      · use some ⟨b, 2⟩, pool', hsome
        rintro _ ⟨⟩
        obtain ⟨-, hmax⟩ := hconserves.nSize_bounds hchunk
        have hsum : (blockHeaderSize + chunk.nSize).toNat = 16 + chunk.nSize.toNat := by
          have hmax' : chunk.nSize.toNat ≤ 1024 := hmax
          rw [BitVec.toNat_add]
          apply Nat.mod_eq_of_lt
          have hheader : blockHeaderSize.toNat = 16 := rfl
          omega
        rw [usable, hfrom.size, hsum]
        apply Nat.le_trans hle
        apply Nat.le_of_eq (Nat.add_sub_cancel_left ..).symm

/-- The constructors of the chunks have a result if they make no block. -/
theorem exists_createChunks (answers : ℕ → ℕ → Option β) (sizes : List SizeT)
    (pool : CMemoryPool β) :
  ∃ pool', sizes.foldlM (createChunk 0 answers) pool = some pool'
  := by
  induction sizes generalizing pool with
  | nil => exact ⟨pool, rfl⟩
  | cons nSize sizes ih => apply ih _

/-- A pool can be made without any block. -/
theorem exists_reachable (β : Type) [DecidableEq β] (nMaxSize : SizeT) :
  ∃ x : Use β, Reachable nMaxSize x
  := by
  obtain ⟨pool, hcreate⟩ := exists_createChunks (fun _ _ => (none : Option β))
    (chunkSizes (clamp nMaxSize))
    ⟨⟨∅, fun _ => ⟨0, .largeMalloc, fun _ => .data 0⟩⟩, [], clamp nMaxSize⟩
  exact ⟨⟨pool, ∅⟩, _, 0, _, pool, [], hcreate, trivial, rfl⟩

/-- `New` returns a null pointer or enough bytes, from every pool, exactly if the request is not
one of those between the largest chunk and `m_nMaxSize`, and not one of the eight largest. -/
theorem new_capacity_iff (β : Type) [DecidableEq β] (nMaxSize nSize : SizeT) :
  (∀ x : Use β, Reachable nMaxSize x → Serves x.pool nSize) ↔ Fits nMaxSize nSize
  := by
  constructor
  · intro h
    obtain ⟨x, hx⟩ := exists_reachable β nMaxSize
    have hserves := h x hx
    have hsound := hx.sound
    constructor
    · intro hle
      rw [← exists_size_iff (clamp_le nMaxSize)]
      rw [← hsound.max] at hle
      obtain ⟨chunk, hchunk, hfits⟩ := hserves.selects hle
      use chunk.nSize
      rw [← hsound.sizes]
      exact ⟨List.mem_map_of_mem (List.mem_of_getElem? hchunk), hfits⟩
    · intro hlt
      rw [← hsound.max] at hlt
      have hsum := hserves.computes hlt
      have hheader : memoryHeapSize.toNat = 8 := rfl
      have hbound := (memoryHeapSize + nSize).isLt
      omega
  · intro hfits x hx
    apply hx.sound.serves hfits

/-- A pool for at most 100 bytes has chunks up to 64 bytes, and none for a request of 100. -/
theorem new_misses : ∃ x : Use ℕ, Reachable 100#64 x ∧
    x.pool.chunkIndex 100#64 = x.pool.pChunkList.length ∧ ¬ Serves x.pool 100#64
  := by
  have hcreate : (create noBlocks 100#64 1 (fun i _ => some i)).isSome := by decide +kernel
  obtain ⟨pool, hcreate⟩ := Option.isSome_iff_exists.mp hcreate
  have hpool : ∀ pool ∈ create noBlocks 100#64 1 (fun i _ => some i),
      pool.chunkIndex 100#64 = pool.pChunkList.length ∧ 100#64 ≤ pool.nMaxSize := by
    decide +kernel
  obtain ⟨hindex, hle⟩ := hpool pool hcreate
  use ⟨pool, ∅⟩, ⟨noBlocks, 1, _, pool, [], hcreate, trivial, rfl⟩, hindex
  intro h
  obtain ⟨chunk, hchunk, -⟩ := h.selects hle
  rw [hindex, List.getElem?_eq_none (Nat.le_refl _)] at hchunk
  cases hchunk

end MemoryPool
