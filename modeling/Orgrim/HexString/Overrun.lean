import Orgrim.HexString.Convert
import Orgrim.SerialServer.Gateway

/-!
# Hexadecimal strings that are stored as integers

Most copies of `hexstring_to_bytearray` let `sscanf` store an `unsigned int` where a byte belongs.
A later byte overwrites the three cells behind an earlier one, so the result is right, but the
last three bytes of an accepted string are stored past the end of `p_out`
(`not_staysInside_of_groups`).  Which strings do not lead to such a store is
`staysInside_iff`.

`SerialServer.hexstringToBytearray` does not check the stores; where they stay inside, it is the
function here (`hexstringToBytearraySerial_eq`).
-/

namespace HexString

open Hex SerialServer

/-! ### The source -/

/-- `hexstring_to_bytearray` of `serial_server.c` -/
def hexstringToBytearraySerial (fresh : Option (Memory UInt8)) (outputs : Outputs)
    (pHexstring : Option (List UInt8)) : Option (ℤ × Outputs) :=
  convert storeInt fresh outputs pHexstring

/-- `hexstring_to_bytearray` of `convert_hexstring_to_buffer2.c`: the test for digits is the other
way round. -/
def hexstringToBytearray2 (fresh : Option (Memory UInt8)) (outputs : Outputs)
    (pHexstring : Option (List UInt8)) : Option (ℤ × Outputs) :=
  convert storeInt fresh outputs pHexstring

/-- No store into `p_out` leaves the `i_out_len` bytes, in either copy. -/
def StaysInside (fresh : Memory UInt8) (outputs : Outputs) (cs : List UInt8) : Prop :=
  (hexstringToBytearraySerial (some fresh) outputs (some cs)).isSome ∧
    (hexstringToBytearray2 (some fresh) outputs (some cs)).isSome

instance (fresh : Memory UInt8) (outputs : Outputs) (cs : List UInt8) :
    Decidable (StaysInside fresh outputs cs) :=
  inferInstanceAs (Decidable (_ ∧ _))

section

variable {cs : List UInt8} {fresh : Memory UInt8} {outputs : Outputs}

/-- With the length of `m` groups, there must be no leading group, or three fewer than `m`. -/
theorem staysInside_of_length {m : ℕ} (hzero : 0 ∉ cs) (hbound : cs.length < 2 ^ 31)
    (hlength : cs.length + 1 = 3 * m) :
  StaysInside fresh outputs cs ↔ Room 4 m 0 (leading cs).length
  := by
  rw [StaysInside, hexstringToBytearraySerial, hexstringToBytearray2, and_self,
    convert_of_length (w := 4) (fun _ => rfl) hzero hlength hbound]
  split
  · rename_i hroom
    simp only [Option.isSome_some, hroom]
  · rename_i hroom
    simp only [Option.isSome_none, hroom, Bool.false_eq_true]

theorem room_four_iff {m k : ℕ} (hm : 0 < m) :
  Room 4 m 0 k ↔ ¬ max (m - 2) 1 ≤ k
  := by
  rcases Nat.eq_zero_or_pos k with rfl | hk
  · simp only [room_zero, true_iff]
    omega
  · rw [room_iff hk]
    omega

/-- The stores stay inside exactly if the string has not the length of groups, or does not start
with as many groups as it takes to come within three bytes of the end. -/
theorem staysInside_iff (hzero : 0 ∉ cs) (hbound : cs.length < 2 ^ 31) :
  StaysInside fresh outputs cs ↔
    ∀ m, cs.length + 1 = 3 * m → parse (cs.take (3 * max (m - 2) 1 - 1)) = none
  := by
  by_cases hlength : ∃ m, cs.length + 1 = 3 * m
  · obtain ⟨m, hlength⟩ := hlength
    have hleading : max (m - 2) 1 ≤ (leading cs).length ↔
        (parse (cs.take (3 * max (m - 2) 1 - 1))).isSome :=
      le_length_leading_iff (by omega) (by omega)
    rw [staysInside_of_length hzero hbound hlength, room_four_iff (by omega), hleading,
      Option.not_isSome_iff_eq_none]
    constructor
    · intro h m' hlength'
      have hm : m' = m := by omega
      rw [hm]
      apply h
    · intro h
      apply h m hlength
  · simp only [not_exists] at hlength
    rw [StaysInside, hexstringToBytearraySerial, hexstringToBytearray2,
      convert_of_other hzero hlength hbound]
    simp [hlength]

/-- No string that is accepted is stored inside. -/
theorem not_staysInside_of_groups {bs : List UInt8} (hzero : 0 ∉ cs) (hbound : cs.length < 2 ^ 31)
    (h : Groups cs bs) :
  ¬ StaysInside fresh outputs cs
  := by
  rw [groups_iff_parse] at h
  have hlength := length_of_parse h
  rw [staysInside_of_length hzero hbound hlength, leading_of_parse h, room_four_iff (by omega)]
  omega

/-- Where the stores stay inside, the unchecked model of the gateway does the same. -/
theorem hexstringToBytearraySerial_eq (hzero : 0 ∉ cs) (hbound : cs.length < 2 ^ 31)
    (hinside : StaysInside fresh outputs cs) :
  hexstringToBytearraySerial (some fresh) outputs (some cs) = some (-1, outputs) ∧
    SerialServer.hexstringToBytearray (some fresh) cs = none
  := by
  have hparse : parse cs = none := by
    rw [Option.eq_none_iff_forall_ne_some]
    intro bs hbs
    apply not_staysInside_of_groups hzero hbound (groups_iff_parse.mpr hbs) hinside
  constructor
  · by_cases hlength : ∃ m, cs.length + 1 = 3 * m
    · obtain ⟨m, hlength⟩ := hlength
      rw [staysInside_of_length hzero hbound hlength] at hinside
      rw [hexstringToBytearraySerial, convert_of_length (w := 4) (fun _ => rfl) hzero hlength hbound,
        if_pos hinside, hparse]
    · simp only [not_exists] at hlength
      apply convert_of_other hzero hlength hbound
  · rw [SerialServer.hexstringToBytearray_eq (by omega), strlen_eq hzero, List.take_length, hparse]

end

/-- `4x` is rejected before anything is stored. -/
theorem staysInside_rejected :
  StaysInside (fun _ => 255) ⟨none, 7⟩ [52, 120]
  := by
  apply (staysInside_iff (by decide) (by decide)).mpr
  intro m hm
  obtain rfl : m = 1 := by
    simp only [List.length_cons, List.length_nil] at hm
    omega
  decide

/-- `41` is stored into one byte of memory as four bytes. -/
theorem not_staysInside_one :
  ¬ StaysInside (fun _ => 255) ⟨none, 7⟩ [52, 49]
  := by
  decide

end HexString
