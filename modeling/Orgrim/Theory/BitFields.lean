import Mathlib.Algebra.Group.Nat.Defs

/-!
# Bit fields

`field w v x` is the number in the `v` bits of `x` from the bit `w` on.  What is written with `|||`
joins what has been there before; it is there alone exactly if it covers that (`or_or_eq_iff`).
-/

namespace BitFields

variable {w v x y : ℕ}

/-- The `v` bits from the bit `w` on. -/
def field (w v x : ℕ) : ℕ := x >>> w &&& 2 ^ v - 1

theorem field_or (w v x y : ℕ) :
  field w v (x ||| y) = field w v x ||| field w v y
  := by
  rw [field, Nat.shiftRight_or_distrib, Nat.and_or_distrib_right]
  rfl

/-- The field with the lowest bits. -/
theorem field_low (hx : x < 2 ^ v) :
  field 0 v x = x
  := Nat.and_two_pow_sub_one_of_lt_two_pow hx

/-- What lies below a field does not reach into it. -/
theorem field_of_lt (v : ℕ) (hx : x < 2 ^ w) :
  field w v x = 0
  := by
  rw [field, Nat.shiftRight_eq_zero x w hx, Nat.zero_and]

/-- What has been shifted to a field. -/
theorem field_shiftLeft (w : ℕ) (hx : x < 2 ^ v) :
  field w v (x <<< w) = x
  := by
  rw [field, Nat.shiftLeft_shiftRight, Nat.and_two_pow_sub_one_of_lt_two_pow hx]

/-- What has been shifted beyond the field with the lowest bits. -/
theorem field_low_shiftLeft (hle : v ≤ w) (x : ℕ) :
  field 0 v (x <<< w) = 0
  := by
  obtain ⟨u, rfl⟩ := Nat.exists_eq_add_of_le hle
  rw [field, Nat.shiftRight_zero, Nat.and_two_pow_sub_one_eq_mod, Nat.shiftLeft_eq, Nat.pow_add,
    ← Nat.mul_assoc, Nat.mul_right_comm, Nat.mul_mod_left]

theorem or_or_eq_iff (x y z : ℕ) :
  x ||| y ||| z = z ↔ x ||| z = z ∧ y ||| z = z
  := by
  constructor
  · intro h
    constructor
    · rw [← h, ← Nat.or_assoc, ← Nat.or_assoc, Nat.or_self]
    · rw [← h, Nat.or_comm x y, Nat.or_assoc y x z, ← Nat.or_assoc y y, Nat.or_self]
  · rintro ⟨hx, hy⟩
    rw [Nat.or_assoc, hy, hx]

end BitFields
