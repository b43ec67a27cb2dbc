import Mathlib.Algebra.BigOperators.Group.List.Basic
import Mathlib.Algebra.GroupWithZero.Nat

/-!
# Consecutive spans

Spans of given lengths follow on each other, the first one from 0 on.  `locate` tells which of
them a number lies in, and where.  One finds the same place if one counts from the start of the
spans (`locate_eq_some_iff`) or back from the end of them (`locate_of_take_succ`).
-/

namespace Spans

variable {ls : List ℕ} {l n k d : ℕ}

/-- The span that the number lies in, and how far behind the start of it. -/
def locate : List ℕ → ℕ → Option (ℕ × ℕ)
  | [], _ => none
  | l :: ls, n => if n < l then some (0, n) else (locate ls (n - l)).map (fun p => (p.1 + 1, p.2))

theorem locate_eq_some_iff :
  locate ls n = some (k, d) ↔ ∃ l, ls[k]? = some l ∧ d < l ∧ (ls.take k).sum + d = n
  := by
  induction ls generalizing n k with
  | nil =>
      apply iff_of_false (Option.some_ne_none _ ∘ Eq.symm)
      rintro ⟨l, hl, -⟩
      cases hl
  | cons a ls ih =>
      unfold locate
      by_cases hlt : n < a
      · rw [if_pos hlt]
        cases k with
        | zero =>
            simp only [Option.some.injEq, Prod.mk.injEq, true_and, List.getElem?_cons_zero,
              exists_eq_left', List.take_zero, List.sum_nil, Nat.zero_add]
            constructor
            · rintro rfl
              exact ⟨hlt, rfl⟩
            · rintro ⟨-, rfl⟩
              rfl
        | succ k =>
            apply iff_of_false
            · rintro ⟨⟩
            · rintro ⟨l, -, -, hsum⟩
              rw [List.take_succ_cons, List.sum_cons] at hsum
              omega
      · rw [if_neg hlt]
        cases k with
        | zero =>
            apply iff_of_false
            · rw [Option.map_eq_some_iff]
              rintro ⟨p, -, hp⟩
              cases hp
            · rintro ⟨_, ⟨⟩, hd, hsum⟩
              rw [List.take_zero, List.sum_nil] at hsum
              omega
        | succ k =>
            simp only [Option.map_eq_some_iff, Prod.mk.injEq, Nat.add_right_cancel_iff,
              Prod.exists, List.getElem?_cons_succ, List.take_succ_cons, List.sum_cons]
            constructor
            · rintro ⟨k', d', hlocate, rfl, rfl⟩
              obtain ⟨l, hl, hd, hsum⟩ := ih.mp hlocate
              exact ⟨l, hl, hd, by omega⟩
            · rintro ⟨l, hl, hd, hsum⟩
              exact ⟨k, d, ih.mpr ⟨l, hl, hd, by omega⟩, rfl, rfl⟩

/-- The spans before, and the span itself. -/
theorem sum_take_succ (hl : ls[k]? = some l) :
  (ls.take (k + 1)).sum = (ls.take k).sum + l
  := by
  rw [List.take_add_one, hl, List.sum_append]
  rfl

/-- The place of a number that is `m` before the end of the first `k + 1` spans. -/
theorem locate_of_take_succ {m : ℕ} (hl : ls[k]? = some l) (hpos : 0 < m) (hle : m ≤ l)
    (hn : n + m = (ls.take (k + 1)).sum) :
  locate ls n = some (k, l - m)
  := by
  rw [sum_take_succ hl] at hn
  apply locate_eq_some_iff.mpr
  exact ⟨l, hl, by omega, by omega⟩

end Spans
