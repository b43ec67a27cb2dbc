import Mathlib.Algebra.Group.Nat.Defs
import Mathlib.Data.Nat.ModEq
import Mathlib.Logic.Function.Iterate

/-!
# Sums with end-around carry

A word is a number below a base `B`.  `add` adds words and adds the carry, if there is one, at
the low end (for `B = 2 ^ 16` this is ones'-complement addition); `sum` adds up a list of words.
A sum can also be taken exactly and folded afterwards: `fold` adds what is above the word to the
word.  Both compute `residue`, the word that is congruent to the exact sum modulo `B - 1` and is
0 only if the sum is (`sum_eq_residue`, `fold_fold_eq_residue`, `exists_fold_iterate`).

If words consist of two digits of base `C`, exchanging the digits of all words exchanges the
digits of their sum (`residue_swap`).  `bigEndianWords` are the 16-bit words of a buffer of
bytes; how its sum depends on a byte is `sum_bigEndianWords`.
-/

namespace EndAround

/-- Addition with end-around carry. -/
def add (B x y : ℕ) : ℕ := if x + y < B then x + y else x + y - (B - 1)

/-- The sum of words, with end-around carry. -/
def sum (B : ℕ) (ws : List ℕ) : ℕ := ws.foldl (add B) 0

/-- What is above the word is added to the word. -/
def fold (B n : ℕ) : ℕ := n / B + n % B

/-- The word congruent to `n` modulo `B - 1`; it is 0 only for 0. -/
def residue (B n : ℕ) : ℕ := if n = 0 then 0 else (n - 1) % (B - 1) + 1

/-- The word whose digits of base `C` are those of `w` in the other order. -/
def swap (C w : ℕ) : ℕ := C * (w % C) + w / C

variable {B C m n x y : ℕ}

/-! ### Residues -/

theorem residue_zero (B : ℕ) :
  residue B 0 = 0
  := rfl

theorem residue_eq_zero :
  residue B n = 0 ↔ n = 0
  := by
  unfold residue
  split_ifs with h
  · apply iff_of_true rfl h
  · simp [h]

theorem residue_modEq (B n : ℕ) :
  residue B n ≡ n [MOD B - 1]
  := by
  unfold residue
  split_ifs with h
  · rw [h]
  · have hmod := (Nat.mod_modEq (n - 1) (B - 1)).add_right 1
    rwa [Nat.sub_add_cancel (Nat.one_le_iff_ne_zero.mpr h)] at hmod

/-- Congruent numbers of which none or both are 0 have the same residue. -/
theorem residue_congr (hmod : m ≡ n [MOD B - 1]) (hzero : m = 0 ↔ n = 0) :
  residue B m = residue B n
  := by
  unfold residue
  by_cases hm : m = 0
  · rw [if_pos hm, if_pos (hzero.mp hm)]
  · have hn : n ≠ 0 := fun hn => hm (hzero.mpr hn)
    rw [if_neg hm, if_neg hn]
    congr 1
    apply Nat.ModEq.add_right_cancel' 1
    rwa [Nat.sub_add_cancel (Nat.one_le_iff_ne_zero.mpr hm),
      Nat.sub_add_cancel (Nat.one_le_iff_ne_zero.mpr hn)]

/-- The residue tells a number up to congruence. -/
theorem modEq_of_residue_eq (h : residue B m = residue B n) :
  m ≡ n [MOD B - 1]
  := (residue_modEq B m).symm.trans (h ▸ residue_modEq B n)

variable (hB : 1 < B)

include hB

theorem residue_lt (n : ℕ) :
  residue B n < B
  := by
  unfold residue
  split_ifs
  · omega
  · have hlt := Nat.mod_lt (n - 1) (y := B - 1) (by omega)
    omega

/-- A word is its own residue. -/
theorem residue_of_lt (h : x < B) :
  residue B x = x
  := by
  unfold residue
  split_ifs with hx
  · rw [hx]
  · rw [Nat.mod_eq_of_lt (by omega)]
    omega

/-- A word is known by its congruence class and by whether it is 0. -/
theorem eq_residue (h : x < B) (hmod : x ≡ n [MOD B - 1]) (hzero : x = 0 ↔ n = 0) :
  x = residue B n
  := by
  rw [← residue_of_lt hB h]
  apply residue_congr hmod hzero

/-- What is missing from a residue to the largest word completes the number to one whose residue
is the largest word. -/
theorem residue_add_complement (n : ℕ) :
  residue B (n + (B - 1 - residue B n)) = B - 1
  := by
  have hlt := residue_lt hB n
  have hsum : residue B n + (B - 1 - residue B n) = B - 1 := by
    omega
  have hmod : n + (B - 1 - residue B n) ≡ B - 1 [MOD B - 1] := by
    have hadd := (residue_modEq B n).add_right (B - 1 - residue B n)
    rw [hsum] at hadd
    apply hadd.symm
  have hzero : n + (B - 1 - residue B n) = 0 ↔ B - 1 = 0 := by
    have hn := residue_eq_zero (B := B) (n := n)
    omega
  rw [residue_congr hmod hzero]
  apply residue_of_lt hB
  omega

/-! ### Adding -/

theorem add_eq_residue (hx : x < B) (hy : y < B) :
  add B x y = residue B (x + y)
  := by
  unfold add
  split_ifs with h
  · exact (residue_of_lt hB h).symm
  · apply eq_residue hB
    · omega
    · rw [Nat.sub_modulus_modEq_iff (by omega)]
    · omega

omit hB in
/-- Residues may be taken before or after a number is added. -/
theorem residue_add_residue (n y : ℕ) :
  residue B (residue B n + y) = residue B (n + y)
  := by
  apply residue_congr
  · exact (residue_modEq B n).add_right y
  · rw [Nat.add_eq_zero_iff, residue_eq_zero, Nat.add_eq_zero_iff]

/-- The sum with end-around carry is the residue of the exact sum. -/
theorem sum_eq_residue {ws : List ℕ} (h : ∀ w ∈ ws, w < B) :
  sum B ws = residue B ws.sum
  := by
  suffices hfoldl : ∀ n, ws.foldl (add B) (residue B n) = residue B (n + ws.sum) by
    rw [sum, ← residue_zero B, hfoldl, Nat.zero_add]
  induction ws with
  | nil => exact fun n => rfl
  | cons w ws ih =>
      intro n
      have hw := h w List.mem_cons_self
      rw [List.foldl_cons, add_eq_residue hB (residue_lt hB n) hw, residue_add_residue,
        ih (fun v hv => h v (List.mem_cons_of_mem w hv)), List.sum_cons, Nat.add_assoc]

/-! ### Folding -/

theorem fold_modEq (n : ℕ) :
  fold B n ≡ n [MOD B - 1]
  := by
  have hn : n = fold B n + (B - 1) * (n / B) := by
    have hdiv := Nat.div_add_mod n B
    have hmul : B * (n / B) = (B - 1) * (n / B) + n / B := by
      rw [← Nat.succ_mul, Nat.succ_eq_add_one, Nat.sub_add_cancel hB.le]
    rw [fold]
    omega
  conv_rhs => rw [hn]
  exact (Nat.add_modulus_mul_modEq_iff.mpr rfl).symm

omit hB in
theorem fold_eq_zero :
  fold B n = 0 ↔ n = 0
  := by
  constructor
  · intro h
    obtain ⟨hdiv, hmod⟩ := Nat.add_eq_zero_iff.mp h
    rw [← Nat.div_add_mod n B, hdiv, hmod, Nat.mul_zero]
  · rintro rfl
    rw [fold, Nat.zero_div, Nat.zero_mod]

/-- Folding does not change the residue. -/
theorem residue_fold (n : ℕ) :
  residue B (fold B n) = residue B n
  := residue_congr (fold_modEq hB n) fold_eq_zero

omit hB in
/-- Folding does not change a word. -/
theorem fold_of_lt (h : n < B) :
  fold B n = n
  := by
  rw [fold, Nat.div_eq_of_lt h, Nat.mod_eq_of_lt h, Nat.zero_add]

/-- Folding makes a number smaller that is not a word. -/
theorem fold_lt (h : B ≤ n) :
  fold B n < n
  := by
  have hdiv := Nat.div_add_mod n B
  have hpos : 0 < n / B := Nat.div_pos h (by omega)
  have hmul : 2 * (n / B) ≤ B * (n / B) := Nat.mul_le_mul_right _ hB
  rw [fold]
  omega

/-- Two foldings make a number of two words a word. -/
theorem fold_fold_lt (h : n < B * B) :
  fold B (fold B n) < B
  := by
  have hdiv : n / B < B := Nat.div_lt_of_lt_mul h
  have hmod : n % B < B := Nat.mod_lt n (by omega)
  by_cases hword : fold B n < B
  · rwa [fold_of_lt hword]
  · have hcarry : fold B n = B * 1 + (fold B n - B) := by
      omega
    have hrest : fold B n - B < B - 1 := by
      rw [fold]
      omega
    rw [fold, hcarry, Nat.mul_add_div (by omega), Nat.mul_add_mod, Nat.div_eq_of_lt (by omega),
      Nat.mod_eq_of_lt (by omega)]
    omega

theorem fold_fold_eq_residue (h : n < B * B) :
  fold B (fold B n) = residue B n
  := by
  rw [← residue_fold hB n, ← residue_fold hB (fold B n)]
  exact (residue_of_lt hB (fold_fold_lt hB h)).symm

/-- Folding as long as there is something to fold comes to an end, and ends with the residue. -/
theorem exists_fold_iterate (n : ℕ) :
  ∃ k, (fold B)^[k] n = residue B n ∧ ∀ j < k, B ≤ (fold B)^[j] n
  := by
  induction n using Nat.strong_induction_on with
  | h n ih =>
      by_cases hword : n < B
      · use 0
        constructor
        · exact (residue_of_lt hB hword).symm
        · intro j hj
          exact absurd hj (Nat.not_lt_zero j)
      · obtain ⟨k, hk, hbefore⟩ := ih (fold B n) (fold_lt hB (by omega))
        use k + 1
        constructor
        · rw [Function.iterate_succ_apply, hk, residue_fold hB]
        · intro j hj
          cases j with
          | zero => apply Nat.le_of_not_lt hword
          | succ j =>
              rw [Function.iterate_succ_apply]
              apply hbefore
              omega

/-! ### Exchanged digits -/

omit hB

variable (hC : 1 < C)

include hC

theorem swap_lt (h : x < C * C) :
  swap C x < C * C
  := by
  have hdiv : x / C < C := Nat.div_lt_of_lt_mul h
  have hmod : x % C < C := Nat.mod_lt x (by omega)
  have hmul : C * (x % C) + C ≤ C * C := by
    rw [← Nat.mul_succ]
    apply Nat.mul_le_mul_left C hmod
  rw [swap]
  omega

theorem swap_modEq (x : ℕ) :
  swap C x ≡ C * x [MOD C * C - 1]
  := by
  have hx : C * x = swap C x + (C * C - 1) * (x / C) := by
    have hdiv := congrArg (C * ·) (Nat.div_add_mod x C)
    have hpos : 1 ≤ C * C := Nat.mul_pos (by omega) (by omega)
    have hmul : C * C * (x / C) = (C * C - 1) * (x / C) + x / C := by
      rw [← Nat.succ_mul, Nat.succ_eq_add_one, Nat.sub_add_cancel hpos]
    simp only [Nat.mul_add, ← Nat.mul_assoc] at hdiv
    rw [swap]
    omega
  rw [hx]
  exact (Nat.add_modulus_mul_modEq_iff.mpr rfl).symm

theorem swap_eq_zero :
  swap C x = 0 ↔ x = 0
  := by
  constructor
  · intro h
    obtain ⟨hmod, hdiv⟩ := Nat.add_eq_zero_iff.mp h
    have hmod' : x % C = 0 := by
      rcases Nat.mul_eq_zero.mp hmod with hC' | hmod
      · omega
      · exact hmod
    rw [← Nat.div_add_mod x C, hdiv, hmod', Nat.mul_zero]
  · rintro rfl
    rw [swap, Nat.zero_mod, Nat.zero_div, Nat.mul_zero]

/-- If the digits of all words are exchanged, so are those of their sum. -/
theorem residue_swap (ws : List ℕ) :
  residue (C * C) (ws.map (swap C)).sum = swap C (residue (C * C) ws.sum)
  := by
  have hbase : 1 < C * C := lt_of_lt_of_le hC (Nat.le_mul_self C)
  have hmod : (ws.map (swap C)).sum ≡ C * ws.sum [MOD C * C - 1] := by
    induction ws with
    | nil => rfl
    | cons w ws ih =>
        rw [List.map_cons, List.sum_cons, List.sum_cons, Nat.mul_add]
        exact (swap_modEq hC w).add ih
  have hzero : (ws.map (swap C)).sum = 0 ↔ ws.sum = 0 := by
    rw [List.sum_eq_zero_iff_forall_eq_nat, List.sum_eq_zero_iff_forall_eq_nat]
    simp only [List.forall_mem_map, swap_eq_zero hC]
  symm
  apply eq_residue hbase
  · apply swap_lt hC (residue_lt hbase _)
  · calc swap C (residue (C * C) ws.sum)
        ≡ C * residue (C * C) ws.sum [MOD C * C - 1] := swap_modEq hC _
      _ ≡ C * ws.sum [MOD C * C - 1] := (residue_modEq (C * C) ws.sum).mul_left C
      _ ≡ (ws.map (swap C)).sum [MOD C * C - 1] := hmod.symm
  · rw [swap_eq_zero hC, residue_eq_zero, hzero]

omit hC

/-! ### Words of bytes -/

/-- The 16-bit words of a buffer, high byte first; a last odd byte is the high byte of a word. -/
def bigEndianWords : List UInt8 → List ℕ
  | hi :: lo :: octets => (2 ^ 8 * hi.toNat + lo.toNat) :: bigEndianWords octets
  | [hi] => [2 ^ 8 * hi.toNat]
  | [] => []

/-- What a byte at the offset `i` counts in the sum of the words. -/
def weight (i : ℕ) : ℕ := if i % 2 = 0 then 2 ^ 8 else 1

theorem weight_add_two (i : ℕ) :
  weight (i + 2) = weight i
  := by
  rw [weight, Nat.add_mod_right, weight]

theorem bigEndianWords_lt {octets : List UInt8} :
  ∀ w ∈ bigEndianWords octets, w < 2 ^ 16
  := by
  induction octets using bigEndianWords.induct with
  | case1 hi lo octets ih =>
      have hhi := hi.toNat_lt
      have hlo := lo.toNat_lt
      simp only [bigEndianWords, List.forall_mem_cons]
      constructor
      · omega
      · exact ih
  | case2 hi =>
      have hhi := hi.toNat_lt
      simp only [bigEndianWords, List.forall_mem_singleton]
      omega
  | case3 => exact List.forall_mem_nil _

/-- A buffer of `n` bytes has half as many words, rounded up. -/
theorem sum_bigEndianWords_le (octets : List UInt8) :
  (bigEndianWords octets).sum ≤ (2 ^ 16 - 1) * ((octets.length + 1) / 2)
  := by
  induction octets using bigEndianWords.induct with
  | case1 hi lo octets ih =>
      have hhi := hi.toNat_lt
      have hlo := lo.toNat_lt
      simp only [bigEndianWords, List.sum_cons, List.length_cons]
      omega
  | case2 hi =>
      have hhi := hi.toNat_lt
      simp only [bigEndianWords, List.sum_cons, List.sum_nil, List.length_cons, List.length_nil]
      omega
  | case3 => apply Nat.zero_le _

/-- A byte counts in the sum with its weight. -/
theorem sum_bigEndianWords (pre post : List UInt8) (b : UInt8) :
  (bigEndianWords (pre ++ b :: post)).sum
    = (bigEndianWords (pre ++ 0 :: post)).sum + weight pre.length * b.toNat
  := by
  induction pre using bigEndianWords.induct with
  | case1 hi lo pre ih =>
      simp only [List.cons_append, bigEndianWords, List.sum_cons, ih, List.length_cons,
        weight_add_two]
      omega
  | case2 hi =>
      simp [bigEndianWords, weight]
      omega
  | case3 =>
      cases post with
      | nil => simp [bigEndianWords, weight]
      | cons lo post =>
          simp [bigEndianWords, weight]
          omega

end EndAround
