import Mathlib.Algebra.Group.Int.Defs
import Mathlib.Data.Int.Notation
import Mathlib.Data.List.TakeDrop
import Orgrim.Theory.Hex

/-!
# Hexadecimal strings

`BinToHexString` and `ConvertHexStringToBuffer` of `DebugUtil.h`.  A string is the list of its
characters without the null character at its end, and `fresh` is what the memory holds that `new`
provides; lengths are `int`.  A call that lets an `int` overflow, or asks `new` for a negative
size, has no result.

The codec makes the round trip exactly with the lengths for which the `int`s of both functions do
not overflow (`roundTrip_iff`).  `BinToHexString` stores the null character behind its last digits
one byte past the memory it asks for (`pOutData_terminated`).
-/

namespace DebugUtil

/-- A length as an `int`. -/
def toInt (n : ℕ) : ℤ := (BitVec.ofNat 32 n).toInt

/-- The longest text of which `BinToHexString` can compute the length has this many bytes. -/
def maxDataLen : ℕ := 715827882

/-! ### The source -/

/-- `*ppOutData` and `*pOutDataLen` -/
structure HexText where
  pOutData : Memory UInt8
  pOutDataLen : ℕ

/-- The characters of a text. -/
def HexText.text (out : HexText) : List UInt8 := out.pOutData.slice 0 out.pOutDataLen

/-- `snprintf(pOutData + iOffset, size, chars)`, where there is room for all of them -/
def snprintf (pOutData : Memory UInt8) (iOffset : ℕ) (chars : List UInt8) : Memory UInt8 :=
  pOutData.write iOffset (chars ++ [0])

/-- One iteration of the loop of `BinToHexString`, on `iOffset` and `pOutData` -/
def printByte (pData : List UInt8) (state : ℕ × Memory UInt8) (i : ℕ) : ℕ × Memory UInt8 :=
  let (iOffset, pOutData) :=
    if 0 < state.1 then (state.1 + 1, snprintf state.2 state.1 [32]) else state
  (iOffset + 2, snprintf pOutData iOffset (Hex.digits (pData.getD i 0)))

/-- `BinToHexString`; the text is null where there is nothing to print -/
def binToHexString (fresh : Memory UInt8) (pData : List UInt8) : Option (Option HexText) :=
  let iDataLen := toInt pData.length
  if iDataLen ≤ 0 then some none
  else if 2 ^ 31 ≤ iDataLen * 3 then none
  else
    let out := (List.range iDataLen.toNat).foldl (printByte pData) (0, fresh)
    some (some ⟨out.2, (iDataLen * 3 - 1).toNat⟩)

/-- `ConvertHexStringToBuffer` after it has computed `iOutLen` -/
def convertGroups (fresh : Memory UInt8) (pHexstring : List UInt8) (iStrLen iOutLen : ℤ) :
    Option (Option (List UInt8)) :=
  if iOutLen < 0 then none
  else
    (Hex.scan (fun b => [b]) pHexstring iStrLen.toNat (iStrLen.toNat + 1) 0 0 fresh).map
      (fun pOut => pOut.map (fun pOut => pOut.slice 0 iOutLen.toNat))

/-- `ConvertHexStringToBuffer`; `none` is where it returns -1 -/
def convertHexStringToBuffer (fresh : Memory UInt8) (pHexstring : List UInt8) :
    Option (Option (List UInt8)) :=
  let iStrLen := toInt (Hex.strlen pHexstring)
  if iStrLen = 2 then convertGroups fresh pHexstring iStrLen 1
  else if iStrLen - 2 < -2 ^ 31 then none
  else if (iStrLen - 2).tmod 3 = 0 then
    convertGroups fresh pHexstring iStrLen ((iStrLen - 2).tdiv 3 + 1)
  else some none

/-! ### Lengths -/

theorem toInt_of_lt {n : ℕ} (h : n < 2 ^ 31) :
  toInt n = n
  := by
  rw [toInt, BitVec.toInt_eq_toNat_cond, BitVec.toNat_ofNat]
  split <;> omega

theorem toInt_bounds (n : ℕ) :
  toInt n ≤ n ∧ toInt n < 2 ^ 31 ∧ -2 ^ 31 ≤ toInt n
  := by
  rw [toInt, BitVec.toInt_eq_toNat_cond, BitVec.toNat_ofNat]
  split <;> omega

/-! ### `BinToHexString` -/

variable {fresh fresh' : Memory UInt8} {pData string : List UInt8}

/-- Printing characters behind what has been printed. -/
theorem slice_snprintf (pOutData : Memory UInt8) (iOffset : ℕ) (chars : List UInt8) :
  (snprintf pOutData iOffset chars).slice 0 (iOffset + chars.length) =
    pOutData.slice 0 iOffset ++ chars
  := by
  have hchars : (pOutData.write iOffset (chars ++ [0])).slice (iOffset + 0) chars.length =
      ((chars ++ [0]).drop 0).take chars.length :=
    Memory.slice_write_of_mem pOutData (chars ++ [0]) (by rw [List.length_append]; omega)
  rw [List.drop_zero, List.take_left', Nat.add_zero] at hchars
  · rw [snprintf, Memory.slice_add, Memory.slice_write_of_le _ _ (by omega), Nat.zero_add, hchars]
  · rfl

theorem snprintf_null (pOutData : Memory UInt8) (iOffset : ℕ) (chars : List UInt8) :
  snprintf pOutData iOffset chars (iOffset + chars.length) = 0
  := by
  rw [snprintf, Memory.write_apply_add _ _ _ (by rw [List.length_append]; exact Nat.lt_succ_self _),
    List.getElem_concat_length rfl]

/-- What the loop of `BinToHexString` has printed. -/
theorem printByte_range {n : ℕ} (hn : n ≤ pData.length) :
  let out := (List.range n).foldl (printByte pData) (0, fresh)
  out.1 = (Hex.text (pData.take n)).length ∧ out.2.slice 0 out.1 = Hex.text (pData.take n) ∧
    (n ≠ 0 → out.2 out.1 = 0)
  := by
  induction n with
  | zero => exact ⟨rfl, rfl, fun h => absurd rfl h⟩
  | succ n ih =>
      have hlt : n < pData.length := hn
      have hbyte : pData.getD n 0 = pData[n] := by
        rw [List.getD_eq_getElem?_getD, List.getElem?_eq_getElem hlt, Option.getD_some]
      obtain ⟨hoff, hslice, -⟩ := ih (Nat.le_of_succ_le hn)
      rw [List.range_succ, List.foldl_append, List.take_succ_eq_append_getElem hlt]
      generalize (List.range n).foldl (printByte pData) (0, fresh) = out at hoff hslice
      obtain ⟨off, m⟩ := out
      simp only [List.foldl_cons, List.foldl_nil, printByte, hbyte]
      change off = _ at hoff
      change m.slice 0 off = _ at hslice
      have hdigits : (Hex.digits pData[n]).length = 2 := rfl
      cases n with
      | zero =>
          obtain rfl : off = 0 := hoff
          exact ⟨rfl, slice_snprintf m 0 _, fun _ => snprintf_null m 0 _⟩
      | succ n =>
          have hne : pData.take (n + 1) ≠ [] := by
            intro hnil
            have hlength := congrArg List.length hnil
            rw [List.length_take, List.length_nil] at hlength
            omega
          have hlength := Hex.length_text hne
          have hpos : 0 < off := by
            rw [List.length_take] at hlength
            omega
          have hblank : (snprintf m off [32]).slice 0 (off + 1) = m.slice 0 off ++ [32] :=
            slice_snprintf m off [32]
          have hpair := slice_snprintf (snprintf m off [32]) (off + 1) (Hex.digits pData[n + 1])
          rw [hdigits] at hpair
          rw [Hex.text_concat _ hne]
          simp only [if_pos hpos]
          constructor
          · rw [List.length_append, List.length_cons, hdigits, hoff]
          constructor
          · rw [hpair, hblank, hslice, List.append_assoc]
            rfl
          · exact fun _ => snprintf_null (snprintf m off [32]) (off + 1) _

/-- What `BinToHexString` prints: the text of as many bytes as its `int` argument says. -/
theorem binToHexString_eq (fresh : Memory UInt8) {n : ℕ} (hn : toInt pData.length = n) (hpos : 0 < n)
    (hmax : n ≤ maxDataLen) :
  ∃ out, binToHexString fresh pData = some (some out) ∧
    out.text = Hex.text (pData.take n) ∧ out.pOutDataLen = 3 * n - 1 ∧
    out.pOutData out.pOutDataLen = 0
  := by
  rw [maxDataLen] at hmax
  have hle : n ≤ pData.length := by
    have hbound := (toInt_bounds pData.length).1
    omega
  have hne : pData.take n ≠ [] := by
    intro hnil
    have hlength := congrArg List.length hnil
    rw [List.length_take, List.length_nil] at hlength
    omega
  have hlength := Hex.length_text hne
  rw [List.length_take, min_eq_left hle] at hlength
  obtain ⟨hoff, hslice, hnull⟩ : _ ∧ _ := printByte_range hle
  rw [hoff] at hslice hnull
  have hcount : (toInt pData.length * 3 - 1).toNat = (Hex.text (pData.take n)).length := by
    rw [hn]
    omega
  have hsmall : ¬ toInt pData.length ≤ 0 := by omega
  have hfits : ¬ 2 ^ 31 ≤ toInt pData.length * 3 := by omega
  have hnat : (toInt pData.length).toNat = n := by omega
  use ⟨((List.range n).foldl (printByte pData) (0, fresh)).2, (Hex.text (pData.take n)).length⟩
  constructor
  · simp only [binToHexString, if_neg hsmall, if_neg hfits, hcount, hnat]
  · exact ⟨hslice, Nat.eq_sub_of_add_eq hlength, hnull hpos.ne'⟩

/-- When `BinToHexString` prints anything. -/
theorem binToHexString_some {out : HexText} (h : binToHexString fresh pData = some (some out)) :
  ∃ n : ℕ, toInt pData.length = n ∧ 0 < n ∧ n ≤ maxDataLen
  := by
  simp only [binToHexString] at h
  split_ifs at h with hpos hfits
  · cases h
  · rw [maxDataLen]
    exact ⟨(toInt pData.length).toNat, by omega, by omega, by omega⟩

/-- The null character behind the text is stored one byte past the memory that `BinToHexString`
asks for, which has `*pOutDataLen` bytes. -/
theorem pOutData_terminated {out : HexText} (h : binToHexString fresh pData = some (some out)) :
  out.pOutData out.pOutDataLen = 0
  := by
  obtain ⟨n, hn, hpos, hmax⟩ := binToHexString_some h
  obtain ⟨out', hout, -, -, hnull⟩ := binToHexString_eq fresh hn hpos hmax
  rw [h] at hout
  obtain rfl := Option.some.inj (Option.some.inj hout)
  exact hnull

/-! ### `ConvertHexStringToBuffer` -/

/-- A string whose length makes up groups is read as `parse` reads it. -/
theorem convert_eq {n : ℕ} (hn : toInt (Hex.strlen string) = n) (hmod : n % 3 = 2) :
  convertHexStringToBuffer fresh string = some (Hex.parse (string.take n))
  := by
  have hle : n ≤ string.length := by
    have hbound := (toInt_bounds (Hex.strlen string)).1
    have hstrlen := Hex.strlen_le string
    omega
  have hscan : Hex.scan (fun b => [b]) string n (n + 1) 0 0 fresh = some
      ((Hex.parse ((string.take n).drop 0)).map
        (fun bs => Hex.stores (fun b => [b]) 0 bs fresh)) :=
    Hex.scan_eq hle (by omega) (by omega)
  rw [List.drop_zero] at hscan
  have hgroups (k : ℤ) (hk : 3 * k = n + 1) :
      convertGroups fresh string n k = some (Hex.parse (string.take n)) := by
    rw [convertGroups, if_neg (by omega), Int.toNat_natCast, hscan, Option.map_some]
    cases hparse : Hex.parse (string.take n) with
    | none => rfl
    | some bs =>
        have hlength := Hex.length_of_parse hparse
        rw [List.length_take, min_eq_left hle] at hlength
        have hcount : k.toNat = bs.length := by omega
        rw [Option.map_some, Option.map_some, hcount,
          Hex.slice_stores (fun _ => rfl)]
  rcases eq_or_ne n 2 with rfl | hne
  · rw [convertHexStringToBuffer, hn]
    apply hgroups 1 rfl
  · have hover : ¬ (n : ℤ) - 2 < -2 ^ 31 := by omega
    have htwo : (n : ℤ) ≠ 2 := by omega
    obtain ⟨k, rfl⟩ : ∃ k, n = 3 * k + 2 := ⟨n / 3, by omega⟩
    have hexact : ((3 * k + 2 : ℕ) : ℤ) - 2 = k * 3 := by omega
    simp only [convertHexStringToBuffer, hn, if_neg htwo, if_neg hover]
    rw [hexact, Int.mul_tmod_left, if_pos rfl, Int.mul_tdiv_cancel _ (by decide)]
    apply hgroups
    omega

/-- A string that is accepted is read as `parse` reads it, or its length is -1 as an `int`, and
nothing is read. -/
theorem convert_cases {d : List UInt8}
    (h : convertHexStringToBuffer fresh string = some (some d)) :
  (∃ n : ℕ, toInt (Hex.strlen string) = n ∧ Hex.parse (string.take n) = some d) ∨
    toInt (Hex.strlen string) = -1 ∧ d = []
  := by
  by_cases hnat : ∃ n : ℕ, toInt (Hex.strlen string) = n
  · left
    obtain ⟨n, hn⟩ := hnat
    by_cases hmod : n % 3 = 2
    · rw [convert_eq hn hmod] at h
      exact ⟨n, hn, Option.some.inj h⟩
    · have htwo : (n : ℤ) ≠ 2 := by omega
      have hover : ¬ (n : ℤ) - 2 < -2 ^ 31 := by omega
      have hrest : ((n : ℤ) - 2).tmod 3 ≠ 0 := by
        intro hzero
        obtain ⟨k, hk⟩ := Int.dvd_of_tmod_eq_zero hzero
        omega
      simp only [convertHexStringToBuffer, hn, if_neg htwo, if_neg hover, if_neg hrest] at h
      cases h
  · right
    rw [convertHexStringToBuffer] at h
    generalize toInt (Hex.strlen string) = t at h hnat
    have hneg : t < 0 := by
      by_contra hpos
      apply hnat ⟨t.toNat, by omega⟩
    have htwo : t ≠ 2 := by omega
    simp only [if_neg htwo] at h
    split_ifs at h with hover hrest
    swap
    · cases h
    obtain ⟨k, hk⟩ := Int.dvd_of_tmod_eq_zero hrest
    have hdiv : (t - 2).tdiv 3 = k := by
      rw [hk]
      apply Int.mul_tdiv_cancel_left _ (by decide)
    rw [convertGroups, hdiv] at h
    split_ifs at h with hsize
    obtain rfl : t = -1 := by omega
    obtain rfl : k = -1 := by omega
    use rfl
    obtain ⟨pOut, -, h⟩ := Option.map_eq_some_iff.mp h
    obtain ⟨m, -, rfl⟩ := Option.map_eq_some_iff.mp h
    rfl

/-! ### The round trip -/

/-- The text of `pData` is converted back. -/
def RoundTrip (fresh fresh' : Memory UInt8) (pData : List UInt8) : Prop :=
  ∃ out, binToHexString fresh pData = some (some out) ∧
    convertHexStringToBuffer fresh' out.text = some (some pData)

/-- The text of `d` is `string` in upper case. -/
def PrintsUpper (fresh : Memory UInt8) (d string : List UInt8) : Prop :=
  ∃ out, binToHexString fresh d = some (some out) ∧ out.text = string.map Hex.upper

/-- The text of some bytes is converted to these bytes. -/
theorem convert_text {bs : List UInt8} (hne : bs ≠ []) (hmax : bs.length ≤ maxDataLen) :
  convertHexStringToBuffer fresh (Hex.text bs) = some (some bs)
  := by
  rw [maxDataLen] at hmax
  have hlength := Hex.length_text hne
  have hstrlen : Hex.strlen (Hex.text bs) = (Hex.text bs).length := by
    apply Hex.strlen_eq
    intro hmem
    apply Hex.ne_zero_of_mem_text 0 hmem rfl
  have hint : toInt (Hex.strlen (Hex.text bs)) = (Hex.text bs).length := by
    rw [hstrlen, toInt_of_lt]
    omega
  rw [convert_eq hint (by omega), List.take_length, Hex.parse_text hne]

theorem roundTrip_length_iff (hne : pData ≠ []) :
  RoundTrip fresh fresh' pData ↔ pData.length ≤ maxDataLen
  := by
  have hpos := List.length_pos_of_ne_nil hne
  constructor
  · rintro ⟨out, hout, hback⟩
    obtain ⟨n, hn, hnpos, hmax⟩ := binToHexString_some hout
    obtain ⟨out', hout', htext, -, -⟩ := binToHexString_eq fresh hn hnpos hmax
    rw [hout] at hout'
    obtain rfl := Option.some.inj (Option.some.inj hout')
    have hle : n ≤ pData.length := by
      have hbound := (toInt_bounds pData.length).1
      omega
    have hlength : (pData.take n).length = n := by
      rw [List.length_take, min_eq_left hle]
    have htake : pData.take n ≠ [] := by
      apply List.ne_nil_of_length_pos
      omega
    rw [htext, convert_text htake (by omega)] at hback
    have hsame : pData.take n = pData := Option.some.inj (Option.some.inj hback)
    rw [← hsame, hlength]
    exact hmax
  · intro hle
    have hint : toInt pData.length = pData.length := by
      apply toInt_of_lt
      rw [maxDataLen] at hle
      omega
    obtain ⟨out, hout, htext, -, -⟩ := binToHexString_eq fresh hint hpos hle
    use out, hout
    rw [htext, List.take_length]
    apply convert_text hne hle

theorem printsUpper_iff {d : List UInt8} (hzero : 0 ∉ string)
    (h : convertHexStringToBuffer fresh' string = some (some d)) :
  PrintsUpper fresh d string ↔ string.length < 2 ^ 31
  := by
  have hlen := Hex.strlen_eq hzero
  have hbounds := toInt_bounds string.length
  rcases convert_cases h with ⟨n, hn, hparse⟩ | ⟨hn, rfl⟩
  · rw [hlen] at hn
    have hle : n ≤ string.length := by omega
    have hlength := Hex.length_of_parse hparse
    rw [List.length_take, min_eq_left hle] at hlength
    have hint : toInt d.length = d.length := by
      apply toInt_of_lt
      omega
    have hmax : d.length ≤ maxDataLen := by
      rw [maxDataLen]
      omega
    obtain ⟨out, hout, htext, -, -⟩ := binToHexString_eq fresh hint (by omega) hmax
    rw [List.take_length, Hex.text_of_parse hparse] at htext
    constructor
    · rintro ⟨out', hout', hupper⟩
      rw [hout] at hout'
      obtain rfl := Option.some.inj (Option.some.inj hout')
      have hsame := congrArg List.length (htext.symm.trans hupper)
      rw [List.length_map, List.length_map, List.length_take, min_eq_left hle] at hsame
      omega
    · intro hshort
      rw [toInt_of_lt hshort] at hn
      obtain rfl := Int.ofNat.inj hn
      use out, hout
      rw [htext, List.take_length]
  · rw [hlen] at hn
    apply iff_of_false
    · rintro ⟨out, hout, -⟩
      obtain ⟨n, hn', hpos, -⟩ := binToHexString_some hout
      have hzero : (0 : ℤ) = n := hn'
      omega
    · intro hshort
      rw [toInt_of_lt hshort] at hn
      omega

/-- The bytes whose text is converted back to them are those whose text has a length that fits
into an `int`, and the strings that are accepted and printed again, in upper case, are those whose
length does. -/
theorem roundTrip_iff (fresh fresh' : Memory UInt8) :
  (∀ d : List UInt8, d ≠ [] → (RoundTrip fresh fresh' d ↔ d.length ≤ maxDataLen)) ∧
    ∀ string d : List UInt8, 0 ∉ string →
      convertHexStringToBuffer fresh' string = some (some d) →
      (PrintsUpper fresh d string ↔ string.length < 2 ^ 31)
  := by
  constructor
  · exact fun d hne => roundTrip_length_iff hne
  · exact fun string d hzero h => printsUpper_iff hzero h

/-- Two bytes, and a string with digits of both cases. -/
theorem roundTrip_two :
  ([31, 160] ≠ ([] : List UInt8) ∧ RoundTrip (fun _ => 0) (fun _ => 0) [31, 160]) ∧
    (0 : UInt8) ∉ [49, 102, 32, 65, 48] ∧
    convertHexStringToBuffer (fun _ => 0) [49, 102, 32, 65, 48] = some (some [31, 160]) ∧
    PrintsUpper (fun _ => 0) [31, 160] [49, 102, 32, 65, 48]
  := by
  have hne : [31, 160] ≠ ([] : List UInt8) := by decide
  have hzero : (0 : UInt8) ∉ [49, 102, 32, 65, 48] := by decide
  have hconvert : convertHexStringToBuffer (fun _ => 0) [49, 102, 32, 65, 48] =
      some (some [31, 160]) := by decide +kernel
  use ⟨hne, ((roundTrip_iff _ _).1 _ hne).mpr (by decide)⟩, hzero, hconvert
  exact ((roundTrip_iff _ _).2 _ _ hzero hconvert).mpr (by decide)

/-- So many bytes that the length of their text overflows. -/
theorem roundTrip_fails :
  List.replicate 715827883 (0 : UInt8) ≠ [] ∧
    binToHexString (fun _ => 0) (List.replicate 715827883 0) = none ∧
    ¬ RoundTrip (fun _ => 0) (fun _ => 0) (List.replicate 715827883 0)
  := by
  have hnone : binToHexString (fun _ => 0) (List.replicate 715827883 0) = none := by
    rw [binToHexString, List.length_replicate]
    rfl
  use List.cons_ne_nil 0 _, hnone
  rintro ⟨out, hout, -⟩
  rw [hnone] at hout
  cases hout

end DebugUtil
