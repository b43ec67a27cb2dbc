import Mathlib.Data.List.Nodup
import Mathlib.Order.Lattice
import Orgrim.Theory.Memory

/-!
# The order of a binary heap

The first `n` cells of a memory are a binary heap: the parent of the cell `i` is the cell
`(i - 1) / 2`, and no cell has a smaller key than its parent (`OrderedFrom`, for the parents from
some cell on).

A cell that may be too large for its place sinks (`SinkingAt`): it changes places with the smallest
of its children, until it is in order with them.  A cell that may be too small rises (`RisingAt`): it
changes places with its parent.
-/

namespace HeapOrder

variable {α κ : Type*}

/-- The parent of a cell. -/
def parent (i : ℕ) : ℕ := (i - 1) / 2

/-- The memory where two cells have changed places. -/
def swap (a : Memory α) (i j : ℕ) : Memory α :=
  fun k => if k = i then a j else if k = j then a i else a k

/-! ### Places -/

theorem parent_lt {i : ℕ} (h : 0 < i) :
  parent i < i
  := by
  unfold parent
  omega

/-- The children of a cell. -/
theorem parent_eq_iff {i k : ℕ} (h : 0 < i) :
  parent i = k ↔ i = k * 2 + 1 ∨ i = k * 2 + 2
  := by
  unfold parent
  omega

theorem swap_left (a : Memory α) (i j : ℕ) :
  swap a i j i = a j
  := if_pos rfl

theorem swap_right (a : Memory α) (i j : ℕ) :
  swap a i j j = a i
  := by
  unfold swap
  by_cases h : j = i
  · rw [if_pos h, h]
  · rw [if_neg h, if_pos rfl]

theorem swap_of_ne (a : Memory α) {i j k : ℕ} (hi : k ≠ i) (hj : k ≠ j) :
  swap a i j k = a k
  := by
  rw [swap, if_neg hi, if_neg hj]

/-- A cell that changes places with another one, where the other one is written first. -/
theorem swap_update (a : Memory α) {i j : ℕ} (x : α) (h : j ≠ i) :
  swap (Function.update a i x) i j = Function.update (Function.update a i (a j)) j x
  := by
  funext k
  by_cases hj : k = j
  · rw [hj, swap_right, Function.update_self, Function.update_self]
  · by_cases hi : k = i
    · rw [hi, swap_left, Function.update_of_ne h, Function.update_of_ne h.symm,
        Function.update_self]
    · rw [swap_of_ne _ hi hj, Function.update_of_ne hi, Function.update_of_ne hj,
        Function.update_of_ne hi]

/-- Two cells change places: the cells are the same ones, in another order. -/
theorem slice_swap_perm (a : Memory α) {i j n : ℕ} (hi : i < n) (hj : j < n) :
  ((swap a i j).slice 0 n).Perm (a.slice 0 n)
  := by
  have hmap : (swap a i j).slice 0 n =
      ((List.range n).map (fun k => if k = i then j else if k = j then i else k)).map a := by
    rw [List.map_map]
    apply List.map_congr_left
    intro k _
    rw [Nat.zero_add, Function.comp_apply, swap]
    split_ifs <;> rfl
  have hslice : a.slice 0 n = (List.range n).map a := by
    apply List.map_congr_left
    intro k _
    rw [Nat.zero_add]
  rw [hmap, hslice]
  apply List.Perm.map
  apply (List.perm_ext_iff_of_nodup _ List.nodup_range).mpr
  · intro k
    rw [List.mem_map]
    simp only [List.mem_range]
    constructor
    · rintro ⟨m, hm, rfl⟩
      split_ifs <;> assumption
    · intro hk
      use if k = i then j else if k = j then i else k
      constructor
      · split_ifs <;> assumption
      · grind
  · apply (List.nodup_map_iff_inj_on List.nodup_range).mpr
    intro k _ m _ heq
    grind

/-! ### Order -/

section

variable [LinearOrder κ] (key : α → κ)

/-- Among the first `n` cells no cell has a smaller key than its parent, if that is not before
`k`. -/
def OrderedFrom (a : Memory α) (n k : ℕ) : Prop :=
  ∀ i, 0 < i → i < n → k ≤ parent i → key (a (parent i)) ≤ key (a i)

/-- The order holds but for the children of `hole`, which are in order with its parent. -/
structure SinkingAt (a : Memory α) (n k hole : ℕ) : Prop where
  others : ∀ i, 0 < i → i < n → k ≤ parent i → parent i ≠ hole → key (a (parent i)) ≤ key (a i)
  grand : ∀ i, 0 < i → i < n → parent i = hole → 0 < hole → k ≤ parent hole →
    key (a (parent hole)) ≤ key (a i)

/-- The order holds but for `hole` itself, and its children are in order with its parent. -/
structure RisingAt (a : Memory α) (n hole : ℕ) : Prop where
  others : ∀ i, 0 < i → i < n → i ≠ hole → key (a (parent i)) ≤ key (a i)
  grand : ∀ i, 0 < i → i < n → parent i = hole → 0 < hole → key (a (parent hole)) ≤ key (a i)

end

variable [LinearOrder κ] {key : α → κ} {a : Memory α} {n k hole : ℕ}

/-- The first cell has the smallest key. -/
theorem OrderedFrom.root_le (h : OrderedFrom key a n 0) {i : ℕ} (hi : i < n) :
  key (a 0) ≤ key (a i)
  := by
  induction i using Nat.strongRecOn with
  | ind i ih =>
      cases Nat.eq_zero_or_pos i with
      | inl hzero => rw [hzero]
      | inr hpos =>
          have hparent := parent_lt hpos
          apply le_trans (ih (parent i) hparent (Nat.lt_trans hparent hi))
          apply h i hpos hi (Nat.zero_le _)

/-- There are no children so far behind. -/
theorem OrderedFrom.of_le (h : n ≤ k * 2 + 1) :
  OrderedFrom key a n k
  := by
  intro i hpos hi hk
  unfold parent at hk
  omega

/-! ### Sinking -/

theorem OrderedFrom.sinkingAt (h : OrderedFrom key a n (k + 1)) :
  SinkingAt key a n k k
  := by
  constructor
  · intro i hpos hi hk hne
    apply h i hpos hi
    apply Nat.lt_of_le_of_ne hk hne.symm
  · intro i _ _ _ hpos hk
    exact absurd (parent_lt hpos) (Nat.not_lt_of_le hk)

/-- The first cell is replaced. -/
theorem OrderedFrom.sinkingAt_root (h : OrderedFrom key a (n + 1) 0) (x : α) :
  SinkingAt key (Function.update a 0 x) n 0 0
  := by
  constructor
  · intro i hpos hi hk hne
    rw [Function.update_of_ne hne, Function.update_of_ne (Nat.ne_of_gt hpos)]
    apply h i hpos (Nat.lt_succ_of_lt hi) hk
  · intro i _ _ _ hpos
    exact absurd hpos (Nat.lt_irrefl 0)

theorem SinkingAt.finish (h : SinkingAt key a n k hole)
    (hchildren : ∀ i, 0 < i → i < n → parent i = hole → key (a hole) ≤ key (a i)) :
  OrderedFrom key a n k
  := by
  intro i hpos hi hk
  by_cases hhole : parent i = hole
  · rw [hhole]
    apply hchildren i hpos hi hhole
  · apply h.others i hpos hi hk hhole

/-- The cell changes places with the smallest of its children. -/
theorem SinkingAt.move (h : SinkingAt key a n k hole) (hk : k ≤ hole) {c : ℕ} (hpos : 0 < c)
    (hc : c < n) (hparent : parent c = hole)
    (hmin : ∀ i, 0 < i → i < n → parent i = hole → key (a c) ≤ key (a i))
    (hle : key (a c) ≤ key (a hole)) :
  SinkingAt key (swap a hole c) n k c
  := by
  have hlt : hole < c := hparent ▸ parent_lt hpos
  constructor
  · intro i hipos hi hki hne
    by_cases hic : i = c
    · subst hic
      rw [hparent, swap_left, swap_right]
      exact hle
    · by_cases hih : i = hole
      · subst hih
        have hup := parent_lt hipos
        rw [swap_left, swap_of_ne _ (Nat.ne_of_lt hup) hne]
        apply h.grand c hpos hc hparent hipos hki
      · rw [swap_of_ne _ hih hic]
        by_cases hph : parent i = hole
        · rw [hph, swap_left]
          apply hmin i hipos hi hph
        · rw [swap_of_ne _ hph hne]
          apply h.others i hipos hi hki hph
  · intro i hipos hi hpi _ _
    have hci : c < i := hpi ▸ parent_lt hipos
    rw [hparent, swap_left, swap_of_ne _ (by omega) (by omega)]
    have hothers := h.others i hipos hi (by omega) (by omega)
    rw [hpi] at hothers
    exact hothers

/-! ### Rising -/

/-- A cell is added behind the others. -/
theorem OrderedFrom.risingAt (h : OrderedFrom key a n 0) (x : α) :
  RisingAt key (Function.update a n x) (n + 1) n
  := by
  constructor
  · intro i hpos hi hne
    have hlt : i < n := Nat.lt_of_le_of_ne (Nat.le_of_lt_succ hi) hne
    have hup := parent_lt hpos
    rw [Function.update_of_ne hne, Function.update_of_ne (by omega)]
    apply h i hpos hlt (Nat.zero_le _)
  · intro i hpos hi hparent
    have hup := parent_lt hpos
    omega

theorem RisingAt.finish (h : RisingAt key a n hole)
    (hstop : 0 < hole → key (a (parent hole)) ≤ key (a hole)) :
  OrderedFrom key a n 0
  := by
  intro i hpos hi _
  by_cases hhole : i = hole
  · subst hhole
    apply hstop hpos
  · apply h.others i hpos hi hhole

/-- The cell changes places with its parent. -/
theorem RisingAt.move (h : RisingAt key a n hole) (hpos : 0 < hole) (hhole : hole < n)
    (hle : key (a hole) ≤ key (a (parent hole))) :
  RisingAt key (swap a hole (parent hole)) n (parent hole)
  := by
  have hup := parent_lt hpos
  constructor
  · intro i hipos hi hne
    by_cases hih : i = hole
    · subst hih
      rw [swap_right, swap_left]
      exact hle
    · rw [swap_of_ne _ hih hne]
      by_cases hph : parent i = hole
      · rw [hph, swap_left]
        apply h.grand i hipos hi hph hpos
      · by_cases hpp : parent i = parent hole
        · rw [hpp, swap_right]
          have hothers := h.others i hipos hi hih
          rw [hpp] at hothers
          apply le_trans hle hothers
        · rw [swap_of_ne _ hph hpp]
          apply h.others i hipos hi hih
  · intro i hipos hi hparent hppos
    have hupp := parent_lt hppos
    have hip := parent_lt hipos
    have habove := h.others (parent hole) hppos (Nat.lt_trans hup hhole) (Nat.ne_of_lt hup)
    rw [swap_of_ne _ (by omega) (by omega)]
    by_cases hih : i = hole
    · rw [hih, swap_left]
      exact habove
    · rw [swap_of_ne _ hih (by omega)]
      have hothers := h.others i hipos hi hih
      rw [hparent] at hothers
      apply le_trans habove hothers

end HeapOrder
