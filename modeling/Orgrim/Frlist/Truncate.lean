import Orgrim.Frlist.Forward
import Orgrim.Theory.Signed

/-!
# Truncating lists

`frlist_remove_from_idx` should leave the nodes in front of `i_idx`, and none if that is negative.
It compares the unsigned `size` with `i_idx + 1`, so for an index of -2 or less it takes almost
every list for too short, and returns.  Where it does leave the right nodes is
`truncates_iff`.
-/

namespace Frlist

open Frlist.Lists

variable {ι α : Type} [DecidableEq ι] [DecidableEq α] {s : Lists ι α} {ns : ι → List α} {l : ι}
  {idx : BitVec 32}

/-- The comparison of `size` with `i_idx + 1`, where it is reached, does not overflow. -/
def Lists.Compares (s : Lists ι α) (l : ι) (idx : BitVec 32) : Prop :=
  s.size l = 0 ∨ Signed.Fits 32 (idx.toInt + 1)

/-- `frlist_remove_from_idx` leaves the first `max i_idx 0` nodes of the list, and frees each of
the others. -/
def Lists.Truncates (s : Lists ι α) (ns : ι → List α) (l : ι) (idx : BitVec 32) : Prop :=
  s.Compares l idx ∧
    ∃ s', s.removeFromIdx idx (some l) = some s' ∧
      Linked s' (Function.update ns l ((ns l).take (max idx.toInt 0).toNat)) ∧
      s'.live = s.live \ ((ns l).drop (max idx.toInt 0).toNat).toFinset

omit [DecidableEq ι] [DecidableEq α] in
/-- The nodes of lists are determined. -/
theorem Linked.unique {ns' : ι → List α} (h : Linked s ns) (h' : Linked s ns') :
  ns = ns'
  := by
  rw [← h.members_eq, h'.members_eq]

theorem freeIdx_eq (idx : BitVec 32) :
  freeIdx idx = (max idx.toInt 0).toNat
  := by
  rw [freeIdx]
  split
  · omega
  · rename_i hneg
    rw [BitVec.toInt_eq_toNat_cond] at hneg ⊢
    omega

omit [DecidableEq ι] [DecidableEq α] in
/-- An index that is not negative is compared as the code intends. -/
theorem takeFromIdx_of_nonneg (hidx : 0 ≤ idx.toInt) (hbound : (ns l).length < 2 ^ 32) :
  takeFromIdx idx (ns l) = (ns l).take (max idx.toInt 0).toNat
  := by
  rw [takeFromIdx, freeIdx_eq]
  split
  · rename_i hlt
    symm
    apply List.take_of_length_le
    rw [BitVec.toInt_eq_toNat_cond] at hidx ⊢
    bv_omega
  · rfl

omit [DecidableEq ι] [DecidableEq α] in
/-- An index of -2 or less leaves a list of fewer than `2 ^ 32 + i_idx + 1` nodes as it is. -/
theorem takeFromIdx_of_neg (hidx : idx.toInt < 0) (hbound : (ns l).length < 2 ^ 32) :
  takeFromIdx idx (ns l)
    = if idx.toInt = -1 ∨ 2 ^ 32 + idx.toInt + 1 ≤ (ns l).length then [] else ns l
  := by
  have hzero : (max idx.toInt 0).toNat = 0 := by omega
  rw [takeFromIdx, freeIdx_eq, hzero, List.take_zero]
  have hiff : BitVec.ofNat 32 (ns l).length < idx + 1 ↔
      ¬ (idx.toInt = -1 ∨ 2 ^ 32 + idx.toInt + 1 ≤ (ns l).length) := by
    rw [BitVec.toInt_eq_toNat_cond] at hidx ⊢
    bv_omega
  simp only [hiff, ite_not]

omit [DecidableEq α] in
theorem drop_length_take (xs : List α) (k : ℕ) :
  xs.drop (xs.take k).length = xs.drop k
  := by
  rw [List.length_take]
  rcases Nat.le_total k xs.length with hle | hle
  · rw [Nat.min_eq_left hle]
  · rw [Nat.min_eq_right hle, List.drop_length, List.drop_eq_nil_of_le hle]

/-- The function truncates the list exactly if it leaves the right nodes. -/
theorem truncates_iff_takeFromIdx (h : Linked s ns) :
  s.Truncates ns l idx ↔
    s.Compares l idx ∧ takeFromIdx idx (ns l) = (ns l).take (max idx.toInt 0).toNat
  := by
  obtain ⟨s₁, hstep, hlinked, hlive⟩ := h.removeFromIdx l idx
  constructor
  · rintro ⟨hcompares, s', hstep', hlinked', -⟩
    use hcompares
    rw [hstep] at hstep'
    cases hstep'
    have hnodes := congrFun (hlinked.unique hlinked') l
    rwa [Function.update_self, Function.update_self] at hnodes
  · rintro ⟨hcompares, htake⟩
    rw [htake] at hlinked hlive
    rw [drop_length_take] at hlive
    exact ⟨hcompares, s₁, hstep, hlinked, hlive⟩

omit [DecidableEq ι] [DecidableEq α] in
theorem compares_iff (h : Linked s ns) :
  s.Compares l idx ↔ ns l = [] ∨ idx.toInt < 2 ^ 31 - 1
  := by
  have hnil := eq_nil_iff_size (h.size l)
  have hlt : idx.toInt < 2 ^ 31 := idx.toInt_lt
  have hle : -2 ^ 31 ≤ idx.toInt := idx.le_toInt
  rw [Lists.Compares, ← hnil, Signed.fits_int]
  apply or_congr_right
  omega

/-- `frlist_remove_from_idx` truncates a list as it should exactly if the list is empty, or the
index is at least -1 and not `INT_MAX`, or the list has so many nodes that the unsigned comparison
with a smaller index does not matter. -/
theorem truncates_iff (h : Linked s ns) (l : ι) (idx : BitVec 32) :
  s.Truncates ns l idx ↔
    ns l = [] ∨ (-1 ≤ idx.toInt ∧ idx.toInt < 2 ^ 31 - 1) ∨
      (idx.toInt ≤ -2 ∧ 2 ^ 32 + idx.toInt + 1 ≤ (ns l).length)
  := by
  have hbound : (ns l).length < 2 ^ 32 := by
    rw [← h.size l]
    apply BitVec.isLt
  rw [truncates_iff_takeFromIdx h, compares_iff h]
  by_cases hneg : idx.toInt < 0
  · have hzero : (max idx.toInt 0).toNat = 0 := by omega
    rw [takeFromIdx_of_neg hneg hbound, hzero, List.take_zero]
    split
    · rename_i hlong
      simp only [and_true]
      constructor
      · intro _
        right
        omega
      · intro _
        right
        omega
    · rename_i hshort
      constructor
      · rintro ⟨-, hnil⟩
        left
        apply hnil
      · rintro (hnil | hidx)
        · use Or.inl hnil, hnil
        · omega
  · have hge : -1 ≤ idx.toInt := by omega
    have hnot : ¬ idx.toInt ≤ -2 := by omega
    rw [takeFromIdx_of_nonneg (by omega) hbound]
    simp only [and_true, hge, true_and, hnot, false_and, or_false]

/-- A list with the node 0 only, next to an empty one. -/
def oneNode : Lists Bool ℕ where
  live := {0}
  pre _ := none
  next _ := none
  data _ := none
  size l := if l then 1 else 0
  head l := if l then some 0 else none
  tail l := if l then some 0 else none

/-- The nodes of `oneNode`. -/
def oneNodes (l : Bool) : List ℕ := if l then [0] else []

theorem oneNode_linked :
  Linked oneNode oneNodes
  := by
  constructor
  · rintro (_ | _)
    · rfl
    · exact ⟨rfl, rfl⟩
  · rintro (_ | _)
    · rfl
    · rfl
  · rintro (_ | _)
    · rfl
    · rfl
  · rintro (_ | _) x hx
    · simp [oneNodes] at hx
    · simpa [oneNodes, oneNode] using hx
  · rintro (_ | _) (_ | _) x hx hx'
    · rfl
    · simp [oneNodes] at hx
    · simp [oneNodes] at hx'
    · rfl

/-- With the index -1 the only node is removed. -/
theorem truncates_oneNode :
  oneNode.Truncates oneNodes true (-1)
  := (truncates_iff oneNode_linked true (-1)).mpr (by decide)

/-- With the index -2 the only node stays. -/
theorem not_truncates_oneNode :
  oneNode.removeFromIdx (-2) (some true) = some oneNode ∧ ¬ oneNode.Truncates oneNodes true (-2)
  := by
  constructor
  · rw [removeFromIdx, if_pos (by decide)]
  · rw [truncates_iff_takeFromIdx oneNode_linked]
    rintro ⟨-, htake⟩
    apply absurd htake
    decide

end Frlist
