import Mathlib.Algebra.Order.Group.Nat

/-!
# Staircases

A staircase goes up to the height `m` in `n` steps, as evenly as natural numbers allow.  No step is
higher than one as long as there are no fewer steps than heights (`height_succ_le`).
-/

namespace Staircase

variable {m n : ℕ}

/-- The height of the staircase after `j` steps. -/
def height (m n j : ℕ) : ℕ := j * m / n

theorem height_self (hn : 0 < n) :
  height m n n = m
  := Nat.mul_div_cancel_left m hn

theorem height_mono (m n : ℕ) {j k : ℕ} (hjk : j ≤ k) :
  height m n j ≤ height m n k
  := by
  apply Nat.div_le_div_right
  apply Nat.mul_le_mul_right m hjk

theorem height_succ_le (hle : m ≤ n) (hn : 0 < n) (j : ℕ) :
  height m n (j + 1) ≤ height m n j + 1
  := by
  rw [height, height, ← Nat.add_div_right _ hn, Nat.succ_mul]
  apply Nat.div_le_div_right
  apply Nat.add_le_add_left hle

/-- There is no first step if there are more steps than heights. -/
theorem height_one (hlt : m < n) :
  height m n 1 = 0
  := by
  rw [height, Nat.one_mul, Nat.div_eq_of_lt hlt]

/-- Behind the last step the height stays the same for one more. -/
theorem height_succ_self (hlt : m < n) :
  height m n (n + 1) = m
  := by
  rw [height, Nat.succ_mul, Nat.mul_add_div (Nat.zero_lt_of_lt hlt), Nat.div_eq_of_lt hlt,
    Nat.add_zero]

end Staircase
