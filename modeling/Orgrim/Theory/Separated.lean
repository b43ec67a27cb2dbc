import Mathlib.Data.List.Basic

/-!
# Separators

A list with a separator `a` is a part without `a`, or such a part, the separator, and a list with
separators (`Separated.induction`).  `List.splitOn` gives the parts; the lists without the separator
that stand somewhere in the list are those that stand in a part.
-/

namespace Separated

variable {α : Type*} [DecidableEq α] {a : α} {xs : List α}

/-- The part in front of the first separator, and the list behind it. -/
theorem eq_append_of_idxOf? {n : ℕ} (h : xs.idxOf? a = some n) :
  xs = xs.take n ++ a :: xs.drop (n + 1) ∧ a ∉ xs.take n ∧ n < xs.length
  := by
  obtain ⟨hn, ha, hbefore⟩ := List.idxOf?_eq_some_iff.mp h
  constructor
  · rw [← ha, ← List.drop_eq_getElem_cons hn, List.take_append_drop]
  · use ?_, hn
    intro hmem
    obtain ⟨j, hj, hget⟩ := List.mem_take_iff_getElem.mp hmem
    apply hbefore j (by omega) hget

theorem idxOf?_append_cons {ys : List α} (h : a ∉ xs) :
  (xs ++ a :: ys).idxOf? a = some xs.length
  := by
  rw [List.idxOf?_eq_some_iff]
  use by simp
  constructor
  · simp
  · intro j hj
    rw [List.getElem_append_left hj]
    apply ne_of_mem_of_not_mem (List.getElem_mem hj) h

omit [DecidableEq α] in
/-- What follows on the separator. -/
theorem drop_append_cons (xs ys : List α) (a : α) :
  (xs ++ a :: ys).drop (xs.length + 1) = ys
  := by
  rw [← List.drop_drop, List.drop_left, List.drop_one, List.tail_cons]

/-- Induction over the parts. -/
theorem induction {motive : List α → Prop} (a : α)
    (single : ∀ xs, a ∉ xs → motive xs)
    (more : ∀ xs ys, a ∉ xs → motive ys → motive (xs ++ a :: ys)) (xs : List α) :
  motive xs
  := by
  induction hn : xs.length using Nat.strongRecOn generalizing xs with
  | _ n ih =>
      cases hidx : xs.idxOf? a with
      | none => apply single xs (List.idxOf?_eq_none_iff.mp hidx)
      | some k =>
          obtain ⟨hxs, htake, hlt⟩ := eq_append_of_idxOf? hidx
          rw [hxs]
          apply more _ _ htake
          apply ih (xs.drop (k + 1)).length _ _ rfl
          rw [List.length_drop]
          omega

/-- There is one part more than there are separators. -/
theorem length_splitOn (xs : List α) :
  (xs.splitOn a).length = xs.count a + 1
  := by
  induction xs using Separated.induction a with
  | single xs h => rw [List.splitOn_eq_singleton h, List.count_eq_zero_of_not_mem h]; rfl
  | more xs ys h ih =>
      rw [List.splitOn_append_cons_self_of_not_mem h, List.length_cons, ih, List.count_append,
        List.count_eq_zero_of_not_mem h, List.count_cons_self, Nat.zero_add]

theorem not_mem_of_mem_splitOn (xs : List α) :
  ∀ part ∈ xs.splitOn a, a ∉ part
  := by
  induction xs using Separated.induction a with
  | single xs h =>
      rw [List.splitOn_eq_singleton h, List.forall_mem_singleton]
      apply h
  | more xs ys h ih =>
      rw [List.splitOn_append_cons_self_of_not_mem h, List.forall_mem_cons]
      use h

omit [DecidableEq α] in
/-- What stands in the list without a separator stands in front of the first one or behind it. -/
theorem infix_append_cons_iff {run xs ys : List α} (hrun : a ∉ run) :
  run <:+: xs ++ a :: ys ↔ run <:+: xs ∨ run <:+: ys
  := by
  rw [List.infix_append_iff]
  constructor
  · rintro (hxs | hcons | ⟨front, back, rfl, hfront, hback⟩)
    · left
      apply hxs
    · rcases List.infix_cons_iff.mp hcons with hprefix | hys
      · rcases List.prefix_cons_iff.mp hprefix with rfl | ⟨t, rfl, -⟩
        · left
          apply List.nil_infix
        · apply absurd List.mem_cons_self hrun
      · right
        apply hys
    · rcases List.prefix_cons_iff.mp hback with rfl | ⟨t, rfl, -⟩
      · left
        rw [List.append_nil]
        apply hfront.isInfix
      · apply absurd (List.mem_append_right front List.mem_cons_self) hrun
  · rintro (hxs | hys)
    · left
      apply hxs
    · right
      left
      apply hys.trans (List.suffix_cons a ys).isInfix

/-- The parts are short if whatever stands in the list without a separator is. -/
theorem length_splitOn_lt_iff (n : ℕ) (xs : List α) :
  (∀ part ∈ xs.splitOn a, part.length < n) ↔
    ∀ run, run <:+: xs → a ∉ run → run.length < n
  := by
  induction xs using Separated.induction a with
  | single xs h =>
      rw [List.splitOn_eq_singleton h, List.forall_mem_singleton]
      constructor
      · intro hlength run hinfix hrun
        apply Nat.lt_of_le_of_lt hinfix.length_le hlength
      · intro hruns
        apply hruns xs List.infix_rfl h
  | more xs ys h ih =>
      rw [List.splitOn_append_cons_self_of_not_mem h, List.forall_mem_cons, ih]
      constructor
      · rintro ⟨hlength, hruns⟩ run hinfix hrun
        rcases (infix_append_cons_iff hrun).mp hinfix with hxs | hys
        · apply Nat.lt_of_le_of_lt hxs.length_le hlength
        · apply hruns run hys hrun
      · intro hruns
        constructor
        · apply hruns xs _ h
          apply (infix_append_cons_iff h).mpr
          left
          apply List.infix_rfl
        · intro run hys hrun
          apply hruns run _ hrun
          apply (infix_append_cons_iff hrun).mpr
          right
          apply hys

/-- The parts, with a separator behind each of them. -/
def terminated (a : α) (parts : List (List α)) : List α :=
  parts.flatMap (fun part => part ++ [a])

omit [DecidableEq α] in
theorem terminated_cons (a : α) (part : List α) (parts : List (List α)) :
  terminated a (part :: parts) = part ++ a :: terminated a parts
  := by
  rw [terminated, List.flatMap_cons, List.append_assoc, List.singleton_append]
  rfl

/-- The separators count the parts. -/
theorem count_terminated {parts : List (List α)} (h : ∀ part ∈ parts, a ∉ part) :
  (terminated a parts).count a = parts.length
  := by
  induction parts with
  | nil => rfl
  | cons part parts ih =>
      rw [List.forall_mem_cons] at h
      rw [terminated_cons, List.count_append, List.count_eq_zero_of_not_mem h.1,
        List.count_cons_self, ih h.2, Nat.zero_add, List.length_cons]

end Separated
