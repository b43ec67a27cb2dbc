import Mathlib.Algebra.Group.Int.Defs
import Mathlib.Data.Int.Order.Basic
import Mathlib.Tactic.Common

/-!
# Signed arithmetic

The values of a signed type with `w` bits are the integers that fit into `w` bits.  An operation
whose exact result does not fit overflows, and has no result (`Signed.eval`).
-/

namespace Signed

variable {w : ℕ} {x y : ℤ}

/-- The integer is a value of the signed type with `w` bits. -/
def Fits (w : ℕ) (x : ℤ) : Prop := -2 ^ (w - 1) ≤ x ∧ x < 2 ^ (w - 1)

instance (w : ℕ) (x : ℤ) : Decidable (Fits w x) :=
  inferInstanceAs (Decidable (_ ∧ _))

/-- The result of an operation whose exact result is `x`. -/
def eval (w : ℕ) (x : ℤ) : Option ℤ := if Fits w x then some x else none

theorem eval_of_fits (h : Fits w x) :
  eval w x = some x
  := if_pos h

@[simp]
theorem eval_eq_some :
  eval w x = some y ↔ Fits w x ∧ x = y
  := by
  simp only [eval, Option.ite_none_right_eq_some, Option.some.injEq]

/-- The values of `short` -/
theorem fits_short :
  Fits 16 x ↔ -32768 ≤ x ∧ x < 32768
  := Iff.rfl

/-- The values of `int` -/
theorem fits_int :
  Fits 32 x ↔ -2147483648 ≤ x ∧ x < 2147483648
  := Iff.rfl

/-- The values of `long` and `long long` -/
theorem fits_long :
  Fits 64 x ↔ -9223372036854775808 ≤ x ∧ x < 9223372036854775808
  := Iff.rfl

end Signed
