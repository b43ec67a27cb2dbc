import Mathlib.Algebra.Group.Nat.Defs
import Mathlib.Data.List.Basic

/-!
# Binary strings

`BinStringToU64` of `test_binstring.c` sets a bit for each digit 1, which it makes by a shift of
an `int`.  A shift by 31 gives a negative number, and the conversion to 64 bits then sets the bits
above it, too; a shift by 32 or more is not defined and has no result.

The function returns what it should unless it reads a digit 1 with 31 or more characters behind it
(`returnsValue_iff`).
-/

namespace Bitset

/-! ### The source -/

/-- `tolower` -/
def toLower (c : UInt8) : UInt8 := if 65 ≤ c ∧ c ≤ 90 then c + 32 else c

/-- `strncasecmp(s1, s2, n) == 0` -/
def EqIgnoringCase (s1 s2 : List UInt8) (n : ℕ) : Prop :=
  (s1.take n).map toLower = (s2.take n).map toLower

instance (s1 s2 : List UInt8) (n : ℕ) : Decidable (EqIgnoringCase s1 s2 n) :=
  inferInstanceAs (Decidable (_ = _))

/-- `1 << offset`, an `int`. -/
def shiftOne (offset : ℕ) : Option (BitVec 32) :=
  if offset < 32 then some (1#32 <<< offset) else none

/-- The loop; `offset` is the number of characters behind `c`. -/
def readDigits : List UInt8 → BitVec 64 → Option (BitVec 64)
  | [], value => some value
  | c :: str, value =>
      if c = 49 then do
        let bit ← shiftOne str.length
        readDigits str (value ||| bit.signExtend 64)
      else if c = 48 then readDigits str value
      else some 0

/-- `BinStringToU64` -/
def binStringToU64 : Option (List UInt8) → Option (BitVec 64)
  | none => some 0
  | some str =>
      if ¬ EqIgnoringCase str [48, 66] 2 then some 0
      else if str.length ≤ 2 ∨ 66 < str.length then some 0
      else readDigits (str.drop 2) 0

/-! ### Binary digits -/

/-- `0` or `1` -/
def IsBinDigit (c : UInt8) : Prop := c = 48 ∨ c = 49

/-- The number that digits denote. -/
def binaryValue : List UInt8 → ℕ
  | [] => 0
  | c :: ds => (c.toNat - 48) * 2 ^ ds.length + binaryValue ds

/-- A string of `0b` or `0B` and one to 64 characters `ds`. -/
structure HasHeader (str ds : List UInt8) : Prop where
  header : str = 48 :: 66 :: ds ∨ str = 48 :: 98 :: ds
  nonempty : ds ≠ []
  length : ds.length ≤ 64

/-- A string of `0b` or `0B` and one to 64 binary digits. -/
structure IsBinString (str ds : List UInt8) : Prop extends HasHeader str ds where
  digits : ∀ c ∈ ds, IsBinDigit c

/-- The value of a binary string is returned, and zero for any other string. -/
def ReturnsValue (str : List UInt8) : Prop :=
  (∀ ds, IsBinString str ds →
      binStringToU64 (some str) = some (BitVec.ofNat 64 (binaryValue ds))) ∧
    ((∀ ds, ¬ IsBinString str ds) → binStringToU64 (some str) = some 0)

/-- The loop reads a digit 1 with `n` characters behind it. -/
inductive Reads : List UInt8 → ℕ → Prop
  | here (str : List UInt8) : Reads (49 :: str) str.length
  | there {c : UInt8} {str : List UInt8} {n : ℕ} : IsBinDigit c → Reads str n →
      Reads (c :: str) n

variable {str ds : List UInt8} {v r : BitVec 64} {n : ℕ}

theorem not_reads_nil :
  ¬ Reads [] n
  := by
  rintro ⟨⟩

theorem binaryValue_zero (ds : List UInt8) :
  binaryValue (48 :: ds) = binaryValue ds
  := by
  have hzero : (48 : UInt8).toNat - 48 = 0 := rfl
  rw [binaryValue, hzero, Nat.zero_mul, Nat.zero_add]

theorem binaryValue_one (ds : List UInt8) :
  binaryValue (49 :: ds) = 2 ^ ds.length + binaryValue ds
  := by
  have hone : (49 : UInt8).toNat - 48 = 1 := rfl
  rw [binaryValue, hone, Nat.one_mul]

theorem binaryValue_lt (h : ∀ c ∈ ds, IsBinDigit c) :
  binaryValue ds < 2 ^ ds.length
  := by
  induction ds with
  | nil => apply Nat.one_pos
  | cons c ds ih =>
      rw [List.forall_mem_cons] at h
      have hlt := ih h.2
      rw [List.length_cons, Nat.pow_succ]
      rcases h.1 with rfl | rfl
      · rw [binaryValue_zero]
        omega
      · rw [binaryValue_one]
        omega

/-- The value is small if all digits 1 are near the end. -/
theorem binaryValue_lt_of_reads (h : ∀ c ∈ ds, IsBinDigit c) {k : ℕ}
    (hreads : ∀ n, Reads ds n → n < k) :
  binaryValue ds < 2 ^ k
  := by
  induction ds with
  | nil => apply Nat.two_pow_pos
  | cons c ds ih =>
      rw [List.forall_mem_cons] at h
      rcases h.1 with rfl | rfl
      · rw [binaryValue_zero]
        apply ih h.2
        intro n hn
        apply hreads n (Reads.there h.1 hn)
      · have hlast := hreads ds.length (Reads.here ds)
        have hvalue := binaryValue_lt h.2
        have hpow : 2 ^ (ds.length + 1) ≤ 2 ^ k := Nat.pow_le_pow_right (by decide) hlast
        rw [Nat.pow_succ] at hpow
        rw [binaryValue_one]
        omega

/-! ### The loop -/

theorem shiftOne_of_lt (h : n < 32) :
  shiftOne n = some (1#32 <<< n)
  := if_pos h

theorem shiftOne_of_ge (h : 32 ≤ n) :
  shiftOne n = none
  := if_neg (Nat.not_lt.mpr h)

/-- A shift by less than 31 sets one bit. -/
theorem signExtend_shift :
  ∀ n < 31, (1#32 <<< n).signExtend 64 = BitVec.ofNat 64 (2 ^ n)
  := by
  decide

/-- A shift by 31 sets all bits from there on. -/
theorem getLsbD_signExtend_shift :
  ((1#32 <<< 31).signExtend 64).getLsbD 63 = true
  := by
  decide

theorem readDigits_zero (str : List UInt8) (v : BitVec 64) :
  readDigits (48 :: str) v = readDigits str v
  := by
  rw [readDigits, if_neg (by decide), if_pos rfl]

theorem readDigits_one (hlength : str.length < 32) (v : BitVec 64) :
  readDigits (49 :: str) v
    = readDigits str (v ||| (1#32 <<< str.length).signExtend 64)
  := by
  rw [readDigits, if_pos rfl, shiftOne_of_lt hlength, Option.bind_eq_bind, Option.bind_some]

/-- The loop gets stuck at a digit 1 that needs too large a shift. -/
theorem readDigits_eq_none_iff :
  readDigits str v = none ↔ ∃ n, 32 ≤ n ∧ Reads str n
  := by
  induction str generalizing v with
  | nil =>
      constructor
      · rintro ⟨⟩
      · rintro ⟨n, -, ⟨⟩⟩
  | cons c str ih =>
      by_cases hone : c = 49
      · subst hone
        rcases Nat.lt_or_ge str.length 32 with hlt | hge
        · rw [readDigits_one hlt, ih]
          constructor
          · rintro ⟨n, hn, hreads⟩
            use n, hn, Reads.there (Or.inr rfl) hreads
          · rintro ⟨n, hn, hreads⟩
            cases hreads with
            | here => omega
            | there _ hreads => use n, hn
        · rw [readDigits, if_pos rfl, shiftOne_of_ge hge]
          simp only [Option.bind_eq_bind, Option.bind_none, true_iff]
          use str.length, hge, Reads.here str
      · by_cases hzero : c = 48
        · subst hzero
          rw [readDigits_zero, ih]
          constructor
          · rintro ⟨n, hn, hreads⟩
            use n, hn, Reads.there (Or.inl rfl) hreads
          · rintro ⟨n, hn, hreads⟩
            cases hreads with
            | there _ hreads => use n, hn
        · rw [readDigits, if_neg hone, if_neg hzero]
          constructor
          · rintro ⟨⟩
          · rintro ⟨n, -, hreads⟩
            cases hreads with
            | here => apply absurd rfl hone
            | there hdigit _ =>
                rcases hdigit with hdigit | hdigit
                · apply absurd hdigit hzero
                · apply absurd hdigit hone

/-- A character that is no digit gives zero, if it is reached. -/
theorem readDigits_of_not_digit (h : ∃ c ∈ str, ¬ IsBinDigit c) :
  readDigits str v = some 0 ∨ readDigits str v = none
  := by
  induction str generalizing v with
  | nil =>
      obtain ⟨c, hc, -⟩ := h
      cases hc
  | cons c str ih =>
      simp only [List.mem_cons, exists_eq_or_imp] at h
      by_cases hone : c = 49
      · subst hone
        have hrest : ∃ c ∈ str, ¬ IsBinDigit c := by
          apply h.resolve_left
          rw [not_not]
          right
          rfl
        rcases Nat.lt_or_ge str.length 32 with hlt | hge
        · rw [readDigits_one hlt]
          apply ih hrest
        · right
          rw [readDigits_eq_none_iff]
          use str.length, hge, Reads.here str
      · by_cases hzero : c = 48
        · subst hzero
          have hrest : ∃ c ∈ str, ¬ IsBinDigit c := by
            apply h.resolve_left
            rw [not_not]
            left
            rfl
          rw [readDigits_zero]
          apply ih hrest
        · left
          rw [readDigits, if_neg hone, if_neg hzero]

/-- Digits 1 near the end set their bits. -/
theorem readDigits_of_lt (h : ∀ c ∈ ds, IsBinDigit c) (hreads : ∀ n, Reads ds n → n < 31) :
  readDigits ds v = some (v ||| BitVec.ofNat 64 (binaryValue ds))
  := by
  induction ds generalizing v with
  | nil =>
      rw [binaryValue, BitVec.or_zero]
      rfl
  | cons c ds ih =>
      rw [List.forall_mem_cons] at h
      have hrest : ∀ n, Reads ds n → n < 31 := by
        intro n hn
        apply hreads n (Reads.there h.1 hn)
      rcases h.1 with rfl | rfl
      · rw [readDigits_zero, ih h.2 hrest, binaryValue_zero]
      · have hlt := hreads ds.length (Reads.here ds)
        have hor : 2 ^ ds.length + binaryValue ds = 2 ^ ds.length ||| binaryValue ds := by
          have hadd := Nat.two_pow_add_eq_or_of_lt (binaryValue_lt h.2) 1
          rwa [Nat.mul_one] at hadd
        rw [readDigits_one (by omega), ih h.2 hrest, signExtend_shift _ hlt, binaryValue_one, hor,
          BitVec.ofNat_or, BitVec.or_assoc]

/-- A bit that is set stays set. -/
theorem getLsbD_readDigits (h : ∀ c ∈ ds, IsBinDigit c) (hv : v.getLsbD n = true)
    (hread : readDigits ds v = some r) :
  r.getLsbD n = true
  := by
  induction ds generalizing v with
  | nil =>
      obtain rfl := Option.some_inj.mp hread
      apply hv
  | cons c ds ih =>
      rw [List.forall_mem_cons] at h
      rcases h.1 with rfl | rfl
      · rw [readDigits_zero] at hread
        apply ih h.2 hv hread
      · rcases Nat.lt_or_ge ds.length 32 with hlt | hge
        · rw [readDigits_one hlt] at hread
          apply ih h.2 _ hread
          rw [BitVec.getLsbD_or, hv, Bool.true_or]
        · rw [readDigits_eq_none_iff.mpr ⟨ds.length, hge, Reads.here ds⟩] at hread
          cases hread

/-- A digit 1 with 31 digits behind it sets the highest bit. -/
theorem getLsbD_of_reads (h : ∀ c ∈ ds, IsBinDigit c) (hreads : Reads ds 31)
    (hread : readDigits ds v = some r) :
  r.getLsbD 63 = true
  := by
  induction ds generalizing v with
  | nil => apply absurd hreads not_reads_nil
  | cons c ds ih =>
      rw [List.forall_mem_cons] at h
      rcases h.1 with rfl | rfl
      · rw [readDigits_zero] at hread
        cases hreads with
        | there _ hreads => apply ih h.2 hreads hread
      · rcases Nat.lt_or_ge ds.length 32 with hlt | hge
        · rw [readDigits_one hlt] at hread
          generalize hn : 31 = n at hreads
          cases hreads with
          | here =>
              apply getLsbD_readDigits h.2 _ hread
              rw [← hn, BitVec.getLsbD_or, getLsbD_signExtend_shift, Bool.or_true]
          | there _ hreads =>
              rw [← hn] at hreads
              apply ih h.2 hreads hread
        · rw [readDigits_eq_none_iff.mpr ⟨ds.length, hge, Reads.here ds⟩] at hread
          cases hread

/-- Digits give their value exactly if all digits 1 have fewer than 31 digits behind them. -/
theorem readDigits_eq_value_iff (h : ∀ c ∈ ds, IsBinDigit c) :
  readDigits ds 0 = some (BitVec.ofNat 64 (binaryValue ds)) ↔ ∀ n, Reads ds n → n < 31
  := by
  constructor
  · intro hread n hn
    have hall : ∀ n, Reads ds n → n < 32 := by
      intro n hn
      by_contra hge
      rw [readDigits_eq_none_iff.mpr ⟨n, Nat.not_lt.mp hge, hn⟩] at hread
      cases hread
    apply Nat.lt_of_le_of_ne (Nat.le_of_lt_succ (hall n hn))
    rintro rfl
    -- all digits 1 are in the lower half, so the highest bit of the value is not set
    have hbit := getLsbD_of_reads h hn hread
    have hlt := binaryValue_lt_of_reads h hall
    have hhigh : (binaryValue ds).testBit 63 = false := by
      apply Nat.testBit_lt_two_pow
      apply Nat.lt_of_lt_of_le hlt
      decide
    rw [BitVec.getLsbD_ofNat, hhigh, Bool.and_false] at hbit
    cases hbit
  · intro hreads
    have hor : 0 ||| BitVec.ofNat 64 (binaryValue ds) = BitVec.ofNat 64 (binaryValue ds) :=
      BitVec.zero_or
    rw [readDigits_of_lt h hreads, hor]

/-- Other characters give zero exactly if all digits 1 in front of the first of them have fewer than
32 characters behind them. -/
theorem readDigits_eq_zero_iff (h : ∃ c ∈ str, ¬ IsBinDigit c) :
  readDigits str 0 = some 0 ↔ ∀ n, Reads str n → n < 32
  := by
  constructor
  · intro hread n hn
    by_contra hge
    rw [readDigits_eq_none_iff.mpr ⟨n, Nat.not_lt.mp hge, hn⟩] at hread
    cases hread
  · intro hreads
    apply (readDigits_of_not_digit h).resolve_right
    rw [readDigits_eq_none_iff]
    rintro ⟨n, hge, hn⟩
    apply absurd (hreads n hn) (Nat.not_lt.mpr hge)

/-! ### Strings -/

theorem toLower_eq_zero (c : UInt8) :
  toLower c = 48 ↔ c = 48
  := by
  grind [toLower]

theorem toLower_eq_b (c : UInt8) :
  toLower c = 98 ↔ c = 66 ∨ c = 98
  := by
  grind [toLower]

theorem eqIgnoringCase_iff :
  EqIgnoringCase str [48, 66] 2 ↔ ∃ ds, str = 48 :: 66 :: ds ∨ str = 48 :: 98 :: ds
  := by
  have hpattern : (([48, 66] : List UInt8).take 2).map toLower = [48, 98] := by decide
  rw [EqIgnoringCase, hpattern]
  constructor
  · intro h
    match str with
    | [] => cases h
    | [_] =>
        rw [List.take_succ_cons, List.take_nil, List.map_cons, List.map_nil, List.cons_eq_cons] at h
        cases h.2
    | a :: b :: ds =>
        rw [List.take_succ_cons, List.take_succ_cons, List.take_zero, List.map_cons, List.map_cons,
          List.map_nil, List.cons_eq_cons, List.cons_eq_cons, toLower_eq_zero, toLower_eq_b] at h
        obtain ⟨rfl, rfl | rfl, -⟩ := h
        · use ds
          left
          rfl
        · use ds
          right
          rfl
  · rintro ⟨ds, rfl | rfl⟩
    · rfl
    · rfl

theorem binStringToU64_of_header (h : HasHeader str ds) :
  binStringToU64 (some str) = readDigits ds 0
  := by
  have hequal : EqIgnoringCase str [48, 66] 2 := eqIgnoringCase_iff.mpr ⟨ds, h.header⟩
  have hpos := List.length_pos_of_ne_nil h.nonempty
  have hlength := h.length
  have hstr : str.length = ds.length + 2 ∧ str.drop 2 = ds := by
    rcases h.header with rfl | rfl
    · use rfl
      rfl
    · use rfl
      rfl
  rw [binStringToU64, if_neg (not_not.mpr hequal), if_neg (by omega), hstr.2]

theorem binStringToU64_of_no_header (h : ∀ ds, ¬ HasHeader str ds) :
  binStringToU64 (some str) = some 0
  := by
  rw [binStringToU64]
  split
  · rfl
  · rename_i hequal
    rw [not_not, eqIgnoringCase_iff] at hequal
    obtain ⟨ds, hstr⟩ := hequal
    have hlength : str.length = ds.length + 2 := by
      rcases hstr with rfl | rfl
      · rfl
      · rfl
    rw [if_pos]
    by_contra hfits
    apply h ds
    constructor
    · apply hstr
    · apply List.ne_nil_of_length_pos
      omega
    · omega

theorem HasHeader.unique {ds' : List UInt8} (h : HasHeader str ds) (h' : HasHeader str ds') :
  ds = ds'
  := by
  have hdrop : ∀ {ds}, HasHeader str ds → str.drop 2 = ds := by
    intro ds h
    rcases h.header with rfl | rfl
    · rfl
    · rfl
  rw [← hdrop h, hdrop h']

/-- Behind the header there are digits. -/
theorem returnsValue_of_digits (h : IsBinString str ds) :
  ReturnsValue str ↔ ∀ n, Reads ds n → n < 31
  := by
  rw [← readDigits_eq_value_iff h.digits, ← binStringToU64_of_header h.toHasHeader]
  constructor
  · intro hreturns
    apply hreturns.1 ds h
  · intro hvalue
    constructor
    · intro ds' h'
      rw [h'.unique h.toHasHeader, hvalue]
    · intro hnone
      apply absurd h (hnone ds)

/-- Behind the header there is something else, too. -/
theorem returnsValue_of_not_digits (h : HasHeader str ds) (hnot : ∃ c ∈ ds, ¬ IsBinDigit c) :
  ReturnsValue str ↔ ∀ n, Reads ds n → n < 32
  := by
  have hnone : ∀ ds', ¬ IsBinString str ds' := by
    intro ds' h'
    obtain ⟨c, hc, hdigit⟩ := hnot
    rw [h.unique h'.toHasHeader] at hc
    apply hdigit (h'.digits c hc)
  rw [← readDigits_eq_zero_iff hnot, ← binStringToU64_of_header h]
  constructor
  · intro hreturns
    apply hreturns.2 hnone
  · intro hzero
    constructor
    · intro ds' h'
      apply absurd h' (hnone ds')
    · intro _
      apply hzero

/-- `BinStringToU64` returns what it should exactly if every digit 1 it reads has fewer than 31
characters behind it, or 31 among which there is one that is no digit. -/
theorem returnsValue_iff (str : List UInt8) :
  ReturnsValue str ↔
    ∀ ds, HasHeader str ds → ∀ n, Reads ds n →
      n < 31 ∨ (n = 31 ∧ ∃ c ∈ ds, ¬ IsBinDigit c)
  := by
  by_cases h : ∃ ds, HasHeader str ds
  · obtain ⟨ds, h⟩ := h
    have hunique : (∀ ds, HasHeader str ds → ∀ n, Reads ds n →
          n < 31 ∨ (n = 31 ∧ ∃ c ∈ ds, ¬ IsBinDigit c)) ↔
        ∀ n, Reads ds n → n < 31 ∨ (n = 31 ∧ ∃ c ∈ ds, ¬ IsBinDigit c) := by
      constructor
      · intro hreads
        apply hreads ds h
      · intro hreads ds' h'
        obtain rfl := h.unique h'
        apply hreads
    rw [hunique]
    by_cases hnot : ∃ c ∈ ds, ¬ IsBinDigit c
    · rw [returnsValue_of_not_digits h hnot]
      simp only [hnot, and_true, ← Nat.lt_succ_iff_lt_or_eq]
    · have hdigits : ∀ c ∈ ds, IsBinDigit c := by
        intro c hc
        by_contra hdigit
        apply hnot ⟨c, hc, hdigit⟩
      rw [returnsValue_of_digits ⟨h, hdigits⟩]
      simp only [hnot, and_false, or_false]
  · rw [not_exists] at h
    constructor
    · intro _ ds h'
      apply absurd h' (h ds)
    · intro _
      constructor
      · intro ds h'
        apply absurd h'.toHasHeader (h ds)
      · intro _
        apply binStringToU64_of_no_header h

/-- For 1 and 31 zeros all bits from 31 on are set. -/
theorem not_returnsValue_long :
  binStringToU64 (some (48 :: 98 :: 49 :: List.replicate 31 48)) = some 0xFFFFFFFF80000000 ∧
    ¬ ReturnsValue (48 :: 98 :: 49 :: List.replicate 31 48)
  := by
  have hlong : binStringToU64 (some (48 :: 98 :: 49 :: List.replicate 31 48))
      = some 0xFFFFFFFF80000000 := by
    decide
  use hlong
  rintro ⟨hvalue, -⟩
  have hstring : IsBinString (48 :: 98 :: 49 :: List.replicate 31 48)
      (49 :: List.replicate 31 48) := by
    constructor
    · constructor
      · right
        rfl
      · apply List.cons_ne_nil
      · decide
    · intro c hc
      rcases List.mem_cons.mp hc with rfl | hc
      · right
        rfl
      · left
        apply List.eq_of_mem_replicate hc
  have hreturned := hvalue _ hstring
  rw [hlong] at hreturned
  apply absurd hreturned
  decide

end Bitset
