import Mathlib.Algebra.Group.Nat.Defs
import Mathlib.Data.Int.Notation
import Mathlib.Data.List.Basic
import Mathlib.Tactic.Common

/-!
# Shift registers

A register of `w` bits takes in a message bit by bit, its most significant bit first:
`feed poly crc bit` shifts it by one and, if the bit that leaves it differs from the one that
comes in, adds the generator polynomial.  `remainder poly seed bits` is the cyclic redundancy
check of `bits`.

The remainder is linear (`remainder_xor`), so it can be taken several bits at a time from a
table (`remainder_eq_shift_xor`).  Where the polynomial has its lowest coefficient, no message
of at most `w` bits other than zeros has the remainder zero (`eq_false_of_remainder_eq_zero`).
-/

namespace ShiftRegister

variable {w : ℕ}

/-- The register after one bit. -/
def feed (poly crc : BitVec w) (bit : Bool) : BitVec w :=
  if crc.msb ^^ bit then (crc <<< 1) ^^^ poly else crc <<< 1

/-- The register after a list of bits: the bit-at-a-time cyclic redundancy check. -/
def remainder (poly seed : BitVec w) (bits : List Bool) : BitVec w :=
  bits.foldl (feed poly) seed

/-- The `n` most significant bits of a word, most significant first. -/
def topBits : ℕ → BitVec w → List Bool
  | 0, _ => []
  | n + 1, x => x.msb :: topBits n (x <<< 1)

/-- Where two messages differ. -/
def difference (xs ys : List Bool) : List Bool := List.zipWith xor xs ys

/-! ### Bits of a word -/

@[simp]
theorem length_topBits (n : ℕ) (x : BitVec w) :
  (topBits n x).length = n
  := by
  induction n generalizing x with
  | zero => rfl
  | succ n ih => rw [topBits, List.length_cons, ih]

theorem topBits_xor (n : ℕ) (x y : BitVec w) :
  topBits n (x ^^^ y) = difference (topBits n x) (topBits n y)
  := by
  induction n generalizing x y with
  | zero => rfl
  | succ n ih =>
      simp only [topBits, difference, List.zipWith_cons_cons, BitVec.msb_xor,
        BitVec.shiftLeft_xor_distrib, ih]

theorem getElem?_topBits (n : ℕ) (x : BitVec w) {i : ℕ} (h : i < n) :
  (topBits n x)[i]? = some (x.getMsbD i)
  := by
  induction n generalizing x i with
  | zero => omega
  | succ n ih =>
      cases i with
      | zero => rw [topBits, List.getElem?_cons_zero, BitVec.msb_eq_getMsbD_zero]
      | succ i =>
          rw [topBits, List.getElem?_cons_succ, ih (x <<< 1) (by omega),
            BitVec.getMsbD_shiftLeft]

/-- Words that agree on their first bits have the same first bits. -/
theorem topBits_congr {w' n : ℕ} {x : BitVec w} {y : BitVec w'}
    (h : ∀ i < n, x.getMsbD i = y.getMsbD i) :
  topBits n x = topBits n y
  := by
  apply List.ext_getElem?
  intro i
  by_cases hi : i < n
  · rw [getElem?_topBits n x hi, getElem?_topBits n y hi, h i hi]
  · rw [List.getElem?_eq_none (by simp; omega), List.getElem?_eq_none (by simp; omega)]

/-- Bits below the first ones do not matter. -/
theorem topBits_extractLsb' {n : ℕ} (h : n ≤ w) (x : BitVec w) :
  topBits n (x.extractLsb' (w - n) n) = topBits n x
  := by
  apply topBits_congr
  intro i hi
  have hin : w - n + n - i ≤ w := by omega
  have hat : w - (w - n + n - i) = i := by omega
  rw [BitVec.getMsbD_extractLsb', decide_eq_true hi, decide_eq_true hin, hat, Bool.true_and,
    Bool.true_and]

theorem topBits_injective {x y : BitVec w} (h : topBits w x = topBits w y) :
  x = y
  := by
  apply BitVec.eq_of_getMsbD_eq
  intro i hi
  apply Option.some.inj
  rw [← getElem?_topBits w x hi, ← getElem?_topBits w y hi, h]

theorem topBits_append (n k : ℕ) (x : BitVec w) :
  topBits n x ++ topBits k (x <<< n) = topBits (n + k) x
  := by
  induction n generalizing x with
  | zero => simp [topBits]
  | succ n ih =>
      have hrest := ih (x <<< 1)
      rw [← BitVec.shiftLeft_add] at hrest
      rw [Nat.add_right_comm, topBits, topBits, List.cons_append, ← hrest,
        Nat.add_comm 1 n]

/-- Every message of the width of the register is the bits of a word. -/
theorem exists_topBits_eq (bits : List Bool) (h : bits.length = w) :
  ∃ x : BitVec w, topBits w x = bits
  := by
  subst h
  use BitVec.ofBoolListBE bits
  apply List.ext_getElem?
  intro i
  by_cases hi : i < bits.length
  · rw [getElem?_topBits _ _ hi, BitVec.getMsbD_ofBoolListBE, List.getElem?_eq_getElem hi,
      List.getD_eq_getElem?_getD, List.getElem?_eq_getElem hi, Option.getD_some]
  · rw [List.getElem?_eq_none (by simp; omega), List.getElem?_eq_none (by omega)]

theorem topBits_zero (n : ℕ) :
  topBits n 0#w = List.replicate n false
  := by
  induction n with
  | zero => rfl
  | succ n ih =>
      rw [topBits, List.replicate_succ, BitVec.msb_zero, BitVec.zero_shiftLeft, ih]

/-! ### Differences -/

theorem difference_self (xs : List Bool) :
  difference xs xs = List.replicate xs.length false
  := by
  induction xs with
  | nil => rfl
  | cons x xs ih =>
      rw [difference, List.zipWith_cons_cons, Bool.xor_self, List.length_cons,
        List.replicate_succ, ← ih]
      rfl

theorem length_difference {xs ys : List Bool} (h : xs.length = ys.length) :
  (difference xs ys).length = xs.length
  := by
  rw [difference, List.length_zipWith, h, Nat.min_self]

theorem difference_difference {xs ys : List Bool} (h : xs.length = ys.length) :
  difference xs (difference xs ys) = ys
  := by
  induction xs generalizing ys with
  | nil => exact (List.eq_nil_of_length_eq_zero h.symm).symm
  | cons x xs ih =>
      obtain ⟨y, ys, rfl⟩ := List.exists_cons_of_length_eq_add_one h.symm
      have hrest := ih (Nat.succ.inj h)
      simp only [difference, List.zipWith_cons_cons, ← Bool.xor_assoc, Bool.xor_self,
        Bool.false_xor] at hrest ⊢
      rw [hrest]

/-! ### Linearity -/

variable {poly : BitVec w}

theorem feed_xor (a b : BitVec w) (x y : Bool) :
  feed poly (a ^^^ b) (x ^^ y) = feed poly a x ^^^ feed poly b y
  := by
  have hmsb : ((a ^^^ b).msb ^^ (x ^^ y)) = ((a.msb ^^ x) ^^ (b.msb ^^ y)) := by
    rw [BitVec.msb_xor]
    cases a.msb <;> cases b.msb <;> cases x <;> cases y <;> rfl
  unfold feed
  rw [hmsb, BitVec.shiftLeft_xor_distrib]
  cases a.msb ^^ x with
  | false =>
      cases b.msb ^^ y with
      | false => simp
      | true => simp [BitVec.xor_assoc]
  | true =>
      cases b.msb ^^ y with
      | false => simp [BitVec.xor_assoc, BitVec.xor_comm poly]
      | true =>
          have hcancel : (a <<< 1 ^^^ poly) ^^^ (b <<< 1 ^^^ poly) = a <<< 1 ^^^ b <<< 1 := by
            rw [BitVec.xor_comm (b <<< 1), BitVec.xor_assoc, ← BitVec.xor_assoc poly,
              BitVec.xor_self, BitVec.zero_xor]
          simp [hcancel]

theorem remainder_cons (seed : BitVec w) (bit : Bool) (bits : List Bool) :
  remainder poly seed (bit :: bits) = remainder poly (feed poly seed bit) bits
  := rfl

theorem remainder_append (seed : BitVec w) (xs ys : List Bool) :
  remainder poly seed (xs ++ ys) = remainder poly (remainder poly seed xs) ys
  := List.foldl_append

/-- The remainder is linear in register and message. -/
theorem remainder_xor (poly a b : BitVec w) {xs ys : List Bool} (h : xs.length = ys.length) :
  remainder poly (a ^^^ b) (difference xs ys) = remainder poly a xs ^^^ remainder poly b ys
  := by
  induction xs generalizing a b ys with
  | nil =>
      obtain rfl := List.eq_nil_of_length_eq_zero h.symm
      rfl
  | cons x xs ih =>
      obtain ⟨y, ys, rfl⟩ := List.exists_cons_of_length_eq_add_one h.symm
      have hrest := ih (feed poly a x) (feed poly b y) (Nat.succ.inj h)
      rw [← feed_xor] at hrest
      apply hrest

/-- A register that is fed its own bits is only shifted. -/
theorem remainder_topBits (n : ℕ) (x : BitVec w) :
  remainder poly x (topBits n x) = x <<< n
  := by
  induction n generalizing x with
  | zero => simp [topBits, remainder]
  | succ n ih =>
      have hfeed : feed poly x x.msb = x <<< 1 := by
        simp [feed]
      rw [topBits, remainder_cons, hfeed, ih, ← BitVec.shiftLeft_add, Nat.add_comm]

/-- Several bits at a time: the register is shifted, and what its bits and those of the
message make together is added. -/
theorem remainder_eq_shift_xor (poly x : BitVec w) (bits : List Bool) :
  remainder poly x bits
    = x <<< bits.length
      ^^^ remainder poly 0#w (difference (topBits bits.length x) bits)
  := by
  have hlen : (topBits bits.length x).length = bits.length := length_topBits _ _
  have hxor := remainder_xor poly x 0#w (length_difference hlen).symm
  rw [difference_difference hlen, remainder_topBits] at hxor
  rw [← hxor, BitVec.xor_zero]

theorem remainder_zeros (n : ℕ) :
  remainder poly 0#w (List.replicate n false) = 0#w
  := by
  rw [← topBits_zero (w := w), remainder_topBits, BitVec.zero_shiftLeft]

/-! ### Remainders that vanish -/

/-- Where the polynomial has its lowest coefficient, a step without a message bit can be
undone. -/
theorem eq_zero_of_feed_eq_zero (hpoly : poly.getLsbD 0 = true) {crc : BitVec w}
    (h : feed poly crc false = 0#w) :
  crc = 0#w
  := by
  rw [feed, Bool.xor_false] at h
  cases hmsb : crc.msb with
  | true =>
      simp only [hmsb, if_true] at h
      obtain rfl := BitVec.xor_eq_zero_iff.mp h
      simp at hpoly
  | false =>
      simp only [hmsb, Bool.false_eq_true, if_false] at h
      apply BitVec.eq_of_getMsbD_eq
      intro i hi
      cases i with
      | zero => rw [← BitVec.msb_eq_getMsbD_zero, hmsb]; simp
      | succ i =>
          have hbit := congrArg (fun x => x.getMsbD i) h
          simp only [BitVec.getMsbD_shiftLeft] at hbit
          rw [hbit]
          simp

theorem eq_zero_of_remainder_zeros (hpoly : poly.getLsbD 0 = true) {crc : BitVec w} {n : ℕ}
    (h : remainder poly crc (List.replicate n false) = 0#w) :
  crc = 0#w
  := by
  induction n generalizing crc with
  | zero => exact h
  | succ n ih =>
      rw [List.replicate_succ, remainder_cons] at h
      apply eq_zero_of_feed_eq_zero hpoly (ih h)

theorem difference_zeros (xs : List Bool) :
  difference xs (List.replicate xs.length false) = xs
  := by
  rw [← difference_self, difference_difference rfl]

/-- No message of the width of the register has the remainder zero, except zeros. -/
theorem eq_zeros_of_remainder_eq_zero (hpoly : poly.getLsbD 0 = true) {bits : List Bool}
    (hlen : bits.length = w) (h : remainder poly 0#w bits = 0#w) :
  bits = List.replicate w false
  := by
  obtain ⟨x, rfl⟩ := exists_topBits_eq bits hlen
  have hshift := remainder_eq_shift_xor poly x (List.replicate w false)
  rw [List.length_replicate] at hshift
  have hzeros := difference_zeros (topBits w x)
  rw [length_topBits] at hzeros
  rw [hzeros, h, BitVec.shiftLeft_eq_zero (Nat.le_refl w), BitVec.xor_self] at hshift
  rw [eq_zero_of_remainder_zeros hpoly hshift, topBits_zero]

theorem eq_false_of_remainder_eq_zero (hpoly : poly.getLsbD 0 = true) {bits : List Bool}
    (hlen : bits.length ≤ w) (h : remainder poly 0#w bits = 0#w) :
  ∀ bit ∈ bits, bit = false
  := by
  have hpadded : bits ++ List.replicate (w - bits.length) false = List.replicate w false := by
    apply eq_zeros_of_remainder_eq_zero hpoly
    · rw [List.length_append, List.length_replicate]
      omega
    · rw [remainder_append, h, remainder_zeros]
  intro bit hbit
  have hmem := List.mem_append_left (List.replicate (w - bits.length) false) hbit
  rw [hpadded] at hmem
  apply List.eq_of_mem_replicate hmem

/-- A message that is zero outside of `w` consecutive bits has the remainder zero only if it
is zero there too. -/
theorem eq_false_of_remainder_burst (hpoly : poly.getLsbD 0 = true)
    {before burst after : List Bool} (hbefore : ∀ bit ∈ before, bit = false)
    (hlen : burst.length ≤ w)
    (hafter : ∀ bit ∈ after, bit = false)
    (h : remainder poly 0#w (before ++ burst ++ after) = 0#w) :
  ∀ bit ∈ before ++ burst ++ after, bit = false
  := by
  rw [remainder_append, remainder_append, List.eq_replicate_of_mem hbefore, remainder_zeros,
    List.eq_replicate_of_mem hafter] at h
  have hburst := eq_false_of_remainder_eq_zero hpoly hlen (eq_zero_of_remainder_zeros hpoly h)
  intro bit hbit
  rcases List.mem_append.mp hbit with hbit | hbit
  · rcases List.mem_append.mp hbit with hbit | hbit
    · apply hbefore bit hbit
    · apply hburst bit hbit
  · apply hafter bit hbit

theorem getElem_difference {xs ys : List Bool} {j : ℕ} (h : xs[j]? = ys[j]?) :
  ∀ bit ∈ (difference xs ys)[j]?, bit = false
  := by
  intro bit hbit
  obtain ⟨x, y, hx, hy, rfl⟩ := List.getElem?_zipWith_eq_some.mp hbit
  rw [hx, hy] at h
  obtain rfl := Option.some.inj h
  apply Bool.xor_self

/-- Two messages of one length that differ somewhere, and nowhere outside of `w` consecutive
bits, have different remainders. -/
theorem remainder_ne_of_burst (hpoly : poly.getLsbD 0 = true) (seed : BitVec w)
    {xs ys : List Bool} (hlen : xs.length = ys.length) (hne : xs ≠ ys) (i : ℕ)
    (hburst : ∀ j, j < i ∨ i + w ≤ j → xs[j]? = ys[j]?) :
  remainder poly seed xs ≠ remainder poly seed ys
  := by
  intro heq
  have hzero := remainder_xor poly seed seed hlen
  rw [heq, BitVec.xor_self, BitVec.xor_self] at hzero
  have hsplit : difference xs ys
      = (difference xs ys).take i ++ ((difference xs ys).drop i).take w
        ++ ((difference xs ys).drop i).drop w := by
    rw [List.append_assoc, List.take_append_drop, List.take_append_drop]
  have hbefore : ∀ bit ∈ (difference xs ys).take i, bit = false := by
    intro bit hbit
    obtain ⟨j, hj⟩ := List.mem_iff_getElem?.mp hbit
    rw [List.getElem?_take] at hj
    split at hj
    · rename_i hji
      apply getElem_difference (hburst j (.inl hji)) bit hj
    · cases hj
  have hafter : ∀ bit ∈ ((difference xs ys).drop i).drop w, bit = false := by
    intro bit hbit
    obtain ⟨j, hj⟩ := List.mem_iff_getElem?.mp hbit
    rw [List.drop_drop, List.getElem?_drop] at hj
    apply getElem_difference (hburst (i + w + j) (.inr (by omega))) bit hj
  rw [hsplit] at hzero
  have hfalse := eq_false_of_remainder_burst hpoly hbefore (List.length_take_le w _) hafter
    hzero
  rw [← hsplit] at hfalse
  have hdiff := List.eq_replicate_of_mem hfalse
  rw [length_difference hlen] at hdiff
  apply hne
  rw [← difference_difference hlen, hdiff, difference_zeros]

end ShiftRegister
