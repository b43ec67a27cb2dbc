import Mathlib.Algebra.Group.Nat.Defs
import Mathlib.Data.Int.Notation
import Mathlib.Logic.Function.Iterate
import Mathlib.Tactic.Common

/-!
# The CRC of the serial tools

The table-driven CRC that `am_bigbuffer_sender.c`, `serial_test2.c` and `map_send_test.c`
share, and their additive checksum.  No intermediate value comes near the width of its type.
-/

namespace Uart

/-- `CRC_TABLE_SIZE` -/
def crcTableSize : ℕ := 256

/-- `CRC_GEN_POLY` -/
def crcGenPoly : ℕ := 0x8005

/-- One turn of the inner loop of `BuildCRC16TableFor8813`, on `nData` and `crc`. -/
def crcTurn (genPoly : ℕ) (x : ℕ × ℕ) : ℕ × ℕ :=
  (x.1 <<< 1,
    if (x.1 ^^^ x.2) &&& 0x8000 ≠ 0 then (x.2 <<< 1) ^^^ genPoly else x.2 <<< 1)

/-- The entry `i` of the table: eight turns of the inner loop. -/
def crcEntry (genPoly i : ℕ) : ℕ :=
  ((crcTurn genPoly)^[8] (i <<< 8, 0)).2 &&& 0xFFFF

/-- `BuildCRC16TableFor8813` -/
def buildCRC16TableFor8813 (genPoly : ℕ) : List ℕ :=
  (List.range crcTableSize).map (crcEntry genPoly)

/-- `m_CRCTable`, as every program builds it. -/
def crcTable : List ℕ := buildCRC16TableFor8813 crcGenPoly

/-- The next value of `CRC` in `BlockCRC16TableFor8813`. -/
def crcStep (dataCmpl : Bool) (crc : ℕ) (data : UInt8) : ℕ :=
  let data := if dataCmpl then ~~~data else data
  ((crc <<< 8) &&& 0xFFFF) ^^^ crcTable[(crc >>> 8) ^^^ data.toNat]?.getD 0

/-- `BlockCRC16TableFor8813` -/
def blockCRC16TableFor8813 (block : List UInt8) (seed : ℕ) (dataCmpl : Bool) : ℕ :=
  block.foldl (crcStep dataCmpl) seed

/-- `GenCRC` -/
def genCRC (block : List UInt8) : ℕ := blockCRC16TableFor8813 block 0 false

/-- `CalcChecksum` -/
def calcChecksum (pBuff : List UInt8) : UInt8 := pBuff.foldl (· + ·) 0

/-! ### The values of the CRC -/

theorem and_mask_lt (n : ℕ) :
  n &&& 0xFFFF < 2 ^ 16
  := Nat.and_lt_two_pow n (by decide)

/-- The entries of the table have 16 bits. -/
theorem crcTable_lt (i : ℕ) :
  crcTable[i]?.getD 0 < 2 ^ 16
  := by
  cases h : crcTable[i]? with
  | none => simp
  | some entry =>
      have hmem := List.mem_of_getElem? h
      rw [crcTable, buildCRC16TableFor8813] at hmem
      obtain ⟨j, -, rfl⟩ := List.mem_map.mp hmem
      apply and_mask_lt

/-- The CRC has 16 bits all along, so the table is never read past its end. -/
theorem crcStep_lt (dataCmpl : Bool) (crc : ℕ) (data : UInt8) :
  crcStep dataCmpl crc data < 2 ^ 16
  := Nat.xor_lt_two_pow (and_mask_lt _) (crcTable_lt _)

theorem blockCRC_lt {seed : ℕ} (hseed : seed < 2 ^ 16) (dataCmpl : Bool) :
  ∀ block : List UInt8, blockCRC16TableFor8813 block seed dataCmpl < 2 ^ 16
  | [] => hseed
  | data :: block => blockCRC_lt (crcStep_lt dataCmpl seed data) dataCmpl block

theorem genCRC_lt (block : List UInt8) :
  genCRC block < 2 ^ 16
  := blockCRC_lt (by decide) false block

/-! ### Two bytes of a number -/

/-- The two low bytes of a number, high byte first. -/
def bigEndian16 (n : ℕ) : List UInt8 := [UInt8.ofNat (n >>> 8), UInt8.ofNat n]

theorem toNat_bigEndian16 {n : ℕ} (h : n < 2 ^ 16) :
  2 ^ 8 * (UInt8.ofNat (n >>> 8)).toNat + (UInt8.ofNat n).toNat = n
  := by
  simp only [UInt8.toNat_ofNat', Nat.shiftRight_eq_div_pow]
  omega

end Uart
