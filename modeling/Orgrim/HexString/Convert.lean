import Mathlib.Data.Int.Notation
import Orgrim.Theory.HexBuffer

/-!
# Converting hexadecimal strings

`hexstring_to_bytearray` stands in several programs.  The copies differ in how they store a byte
(`put`); the body is `convert`.  A string is the list of its characters without the null character
behind them, and `fresh` is what `malloc` provides.  With fewer than `2 ^ 31` characters `i` and
`i_offset`, which stay below the length, do not overflow.  `isxdigit` is false for characters that
are not ASCII.

The copy of `convert_hexstring_to_buffer.c` accepts groups of two digits, separated by single
blanks, and nothing else (`hexstringToBytearray_spec`).
-/

namespace HexString

open Hex

/-! ### The source -/

/-- `*pp_out` and `*p_i_out_len` -/
structure Outputs where
  out : Option (Buffer UInt8)
  outLen : ℤ

/-- `hexstring_to_bytearray` after it has computed `i_out_len` -/
def convertGroups (put : UInt8 → List UInt8) (fresh : Option (Memory UInt8)) (outputs : Outputs)
    (pHexstring : List UInt8) (iStrLen : ℕ) (iOutLen : ℤ) : Option (ℤ × Outputs) :=
  match Buffer.malloc fresh iOutLen with
  | none => some (-1, outputs)
  | some pOut => do
      match ← scanBuffer put (pHexstring ++ [0]) iStrLen (iStrLen + 1) 0 0 pOut with
      | none => some (-1, outputs)
      | some pOut => some (0, ⟨some pOut, iOutLen⟩)

/-- `hexstring_to_bytearray`: what it returns, and the outputs; no result where an access is out of
bounds -/
def convert (put : UInt8 → List UInt8) (fresh : Option (Memory UInt8)) (outputs : Outputs) :
    Option (List UInt8) → Option (ℤ × Outputs)
  | none => some (-1, outputs)
  | some pHexstring =>
      let iStrLen := strlen pHexstring
      let rest := (BitVec.ofNat 64 iStrLen - 2).toNat
      if iStrLen = 2 then convertGroups put fresh outputs pHexstring iStrLen 1
      else if rest % 3 = 0 then
        convertGroups put fresh outputs pHexstring iStrLen (Int.bmod (rest / 3 + 1) (2 ^ 32))
      else some (-1, outputs)

/-- `p_out[i_offset++] = (char) ui_tmp` -/
def storeByte (b : UInt8) : List UInt8 := [b]

/-- `hexstring_to_bytearray` of `convert_hexstring_to_buffer.c`: `sscanf` stores into `ui_tmp`. -/
def hexstringToBytearray (fresh : Option (Memory UInt8)) (outputs : Outputs)
    (pHexstring : Option (List UInt8)) : Option (ℤ × Outputs) :=
  convert storeByte fresh outputs pHexstring

section

variable {put : UInt8 → List UInt8} {cs : List UInt8} {w m : ℕ}

/-! ### Lengths -/

/-- From two characters on, the subtraction is exact. -/
theorem rest_of_le {n : ℕ} (htwo : 2 ≤ n) (hbound : n < 2 ^ 31) :
  (BitVec.ofNat 64 n - 2).toNat = n - 2
  := by
  have hle : (2 : BitVec 64) ≤ BitVec.ofNat 64 n := by
    rw [BitVec.le_def, BitVec.toNat_ofNat, Nat.mod_eq_of_lt (by omega)]
    apply htwo
  rw [BitVec.toNat_sub_of_le hle, BitVec.toNat_ofNat, Nat.mod_eq_of_lt (by omega)]
  rfl

/-- Two characters are subtracted from the length without a check, but the length is not taken for
one of groups, except for a single character. -/
theorem rest_mod_three {n : ℕ} (hbound : n < 2 ^ 31) (hone : n ≠ 1) :
  (BitVec.ofNat 64 n - 2).toNat % 3 = 0 ↔ n % 3 = 2
  := by
  rcases Nat.eq_zero_or_pos n with rfl | hpos
  · decide
  · rw [rest_of_le (by omega) hbound]
    omega

/-- There is room for a byte for each leading group. -/
theorem length_leading_le :
  ∀ cs : List UInt8, 3 * (leading cs).length ≤ cs.length + 1
  | [] => by simp [leading]
  | [_] => by simp [leading]
  | [c, c'] => by
      rw [leading]
      cases byte c c' with
      | none => simp
      | some b => simp
  | c :: c' :: blank :: cs => by
      have ih := length_leading_le cs
      rw [leading]
      cases byte c c' with
      | none => simp
      | some b =>
          by_cases hspace : blank = 32
          · simp only [if_pos hspace, List.length_cons]
            omega
          · simp only [if_neg hspace, List.length_cons, List.length_nil]
            omega

/-! ### What is returned -/

/-- Strings with the length of `m` groups. -/
theorem convert_of_length (hput : ∀ b, (put b).length = w) (hzero : 0 ∉ cs)
    (hlength : cs.length + 1 = 3 * m) (hbound : cs.length < 2 ^ 31) (fresh : Memory UInt8)
    (outputs : Outputs) :
  convert put (some fresh) outputs (some cs) =
    if Room w m 0 (leading cs).length then
      some (match parse cs with
        | none => (-1, outputs)
        | some bs => (0, ⟨some ⟨stores put 0 bs fresh, m⟩, m⟩))
    else none
  := by
  have hgroups : convert put (some fresh) outputs (some cs)
      = convertGroups put (some fresh) outputs cs cs.length m := by
    rw [convert, strlen_eq hzero]
    by_cases htwo : cs.length = 2
    · have hone : m = 1 := by omega
      rw [if_pos htwo, hone]
      rfl
    · have hcount : ((cs.length - 2 : ℕ) : ℤ) / 3 + 1 = m := by omega
      have hint : Int.bmod m (2 ^ 32) = m := by
        apply Int.bmod_eq_of_le
        · omega
        · omega
      rw [if_neg htwo, if_pos ((rest_mod_three hbound (by omega)).mpr (by omega)),
        rest_of_le (by omega) hbound, hcount, hint]
  have hsize : ((m : ℤ) % 2 ^ 64).toNat = m := by omega
  rw [hgroups, convertGroups, Buffer.malloc, Option.map_some, hsize]
  simp only
  rw [scanBuffer_eq hput (by omega) (by omega), List.drop_zero]
  split
  · cases parse cs with
    | none => rfl
    | some bs => rfl
  · rfl

/-- Strings of other lengths are rejected. -/
theorem convert_of_other (hzero : 0 ∉ cs) (hlength : ∀ m, cs.length + 1 ≠ 3 * m)
    (hbound : cs.length < 2 ^ 31) (fresh : Memory UInt8) (outputs : Outputs) :
  convert put (some fresh) outputs (some cs) = some (-1, outputs)
  := by
  have hmod : ¬ cs.length % 3 = 2 := by
    intro h
    apply hlength (cs.length / 3 + 1)
    omega
  rw [convert, strlen_eq hzero]
  by_cases hone : cs.length = 1
  · obtain ⟨c, rfl⟩ := List.length_eq_one_iff.mp hone
    have hrest : (BitVec.ofNat 64 1 - 2).toNat % 3 = 0 := by decide
    simp only [List.length_singleton, if_neg (show ¬ 1 = 2 by decide), if_pos hrest,
      convertGroups, Buffer.malloc, Option.map_some, List.singleton_append, scanBuffer_singleton,
      Option.bind_eq_bind, Option.bind_some]
  · rw [if_neg (by omega), if_neg (mt (rest_mod_three hbound hone).mp hmod)]

/-- `hexstring_to_bytearray` accepts the groups and gives their values, and rejects everything
else; no access is out of bounds. -/
theorem hexstringToBytearray_spec (hzero : 0 ∉ cs) (hbound : cs.length < 2 ^ 31)
    (fresh : Memory UInt8) (outputs : Outputs) :
  ∃ ret outputs', hexstringToBytearray (some fresh) outputs (some cs) = some (ret, outputs') ∧
    (ret = 0 ↔ ∃ bs, Groups cs bs) ∧
    (∀ bs, Groups cs bs → outputs'.outLen = bs.length ∧
      ∃ out, outputs'.out = some out ∧ out.size = bs.length ∧ out.cells.slice 0 bs.length = bs) ∧
    ((¬ ∃ bs, Groups cs bs) → ret = -1 ∧ outputs' = outputs)
  := by
  simp only [groups_iff_parse]
  cases hparse : parse cs with
  | none =>
      use -1, outputs
      constructor
      · by_cases hlength : ∃ m, cs.length + 1 = 3 * m
        · obtain ⟨m, hlength⟩ := hlength
          have hleading := length_leading_le cs
          have hroom : Room 1 m 0 (leading cs).length := by
            intro j hj
            omega
          rw [hexstringToBytearray, convert_of_length (w := 1) (fun _ => rfl) hzero hlength hbound,
            if_pos hroom, hparse]
        · simp only [not_exists] at hlength
          apply convert_of_other hzero hlength hbound
      · simp
  | some bs =>
      have hlength := length_of_parse hparse
      have hroom : Room 1 bs.length 0 (leading cs).length := by
        rw [leading_of_parse hparse]
        intro j hj
        omega
      use 0, ⟨some ⟨stores storeByte 0 bs fresh, bs.length⟩, bs.length⟩
      constructor
      · rw [hexstringToBytearray, convert_of_length (w := 1) (fun _ => rfl) hzero hlength hbound,
          if_pos hroom, hparse]
      · have hslice : (stores storeByte 0 bs fresh).slice 0 bs.length = bs :=
          slice_stores (fun _ => rfl)
        simp [hslice]

end

/-- `41 42` is converted. -/
theorem hexstringToBytearray_two :
  ∃ ret outputs', hexstringToBytearray (some (fun _ => 255)) ⟨none, 7⟩ (some [52, 49, 32, 52, 50])
      = some (ret, outputs') ∧
    (ret = 0 ↔ ∃ bs, Groups [52, 49, 32, 52, 50] bs) ∧
    (∀ bs, Groups [52, 49, 32, 52, 50] bs → outputs'.outLen = bs.length ∧
      ∃ out, outputs'.out = some out ∧ out.size = bs.length ∧ out.cells.slice 0 bs.length = bs) ∧
    ((¬ ∃ bs, Groups [52, 49, 32, 52, 50] bs) → ret = -1 ∧ outputs' = ⟨none, 7⟩)
  := hexstringToBytearray_spec (by decide) (by decide) _ _

end HexString
