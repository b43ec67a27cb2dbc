import Orgrim.Checksum.Chksum

/-!
# Corrupted frames

A frame that `CheckRecvData` accepts is refused with any other value of one of its bytes, the
length and the id excepted: the length decides which bytes are looked at, and the id is not
covered by the checksum.
-/

namespace SerialPort

/-- A frame with another byte at the offset `i`. -/
def UartFrame.corrupt (pFrame : UartFrame) (i : ℕ) (b : UInt8) : UartFrame :=
  Function.update pFrame i b

section

variable {pFrame : UartFrame} {i : ℕ} {b : UInt8}

theorem corrupt_self (pFrame : UartFrame) (i : ℕ) (b : UInt8) :
  pFrame.corrupt i b i = b
  := Function.update_self ..

theorem corrupt_of_ne {j : ℕ} (h : j ≠ i) :
  pFrame.corrupt i b j = pFrame j
  := Function.update_of_ne h ..

/-- A field keeps its value if its bytes do. -/
theorem field16_corrupt {off : ℕ} (h : i < off ∨ off + 1 < i) :
  (pFrame.corrupt i b).field16 off = pFrame.field16 off
  := by
  rw [UartFrame.field16, corrupt_of_ne (by omega), corrupt_of_ne (by omega), UartFrame.field16]

/-- A field has another value if one of its bytes does. -/
theorem field16_corrupt_ne {off : ℕ} (h : i = off ∨ i = off + 1) (hb : b ≠ pFrame i) :
  (pFrame.corrupt i b).field16 off ≠ pFrame.field16 off
  := by
  have hne : b.toNat ≠ (pFrame i).toNat := fun heq => hb (UInt8.toNat_inj.mp heq)
  have hlt := b.toNat_lt
  have hlt' := (pFrame off).toNat_lt
  rcases h with rfl | rfl
  · rw [UartFrame.field16, corrupt_self, corrupt_of_ne (by omega), UartFrame.field16]
    omega
  · rw [UartFrame.field16, corrupt_self, corrupt_of_ne (by omega), UartFrame.field16]
    omega

/-- The bytes that are summed up, as a slice. -/
theorem unsummedZeroed_slice (m : Memory UInt8) (n : ℕ) :
  unsummedZeroed (m.slice 0 n) = Memory.slice (fun i => if Unsummed i then 0 else m i) 0 n
  := by
  apply List.ext_getElem
  · simp [unsummedZeroed]
  · intro j hj hj'
    simp [unsummedZeroed, Memory.slice]

/-- A byte that is not summed up does not change the sum. -/
theorem unsummedZeroed_corrupt (hi : Unsummed i) (n : ℕ) :
  unsummedZeroed ((pFrame.corrupt i b).slice 0 n) = unsummedZeroed (pFrame.slice 0 n)
  := by
  rw [unsummedZeroed_slice, unsummedZeroed_slice]
  apply Memory.slice_congr
  intro j _ _
  by_cases hji : j = i
  · rw [hji, if_pos hi, if_pos hi]
  · rw [corrupt_of_ne hji]

/-- Another byte that is summed up gives another checksum. -/
theorem calcChecksum_corrupt (hi : ¬ Unsummed i) {n : ℕ} (hin : i < n) (hn : n ≤ 65535)
    (hb : b ≠ pFrame i) :
  calcChecksum (unsummedZeroed ((pFrame.corrupt i b).slice 0 n))
    ≠ calcChecksum (unsummedZeroed (pFrame.slice 0 n))
  := by
  have hpre : Memory.slice (fun j => if Unsummed j then 0 else pFrame.corrupt i b j) 0 i
      = Memory.slice (fun j => if Unsummed j then 0 else pFrame j) 0 i := by
    apply Memory.slice_congr
    intro j _ hj
    rw [corrupt_of_ne (by omega)]
  have hpost : Memory.slice (fun j => if Unsummed j then 0 else pFrame.corrupt i b j) (i + 1)
        (n - (i + 1))
      = Memory.slice (fun j => if Unsummed j then 0 else pFrame j) (i + 1) (n - (i + 1)) := by
    apply Memory.slice_congr
    intro j hj _
    rw [corrupt_of_ne (by omega)]
  rw [unsummedZeroed_slice, unsummedZeroed_slice, Memory.slice_split _ hin,
    Memory.slice_split (fun j => if Unsummed j then 0 else pFrame j) hin, hpre, hpost]
  simp only [if_neg hi, corrupt_self]
  apply Checksum.calcChecksum_ne _ hb
  simp only [List.length_append, List.length_cons, Memory.length_slice]
  omega

/-- A frame is accepted if it has the magic number and its own checksum. -/
theorem accepted_iff (pFrame : UartFrame) :
  (checkRecvData pFrame).1 = 0 ↔
    pFrame.magic = uartFrameMagicNumber ∧
      calcChecksum (unsummedZeroed (pFrame.slice 0
        ((pFrame.length + uartFrameSizeBeforeWithLength) % 2 ^ 16))) = pFrame.checksum
  := by
  rw [checkRecvData_eq]
  split_ifs with h
  · apply iff_of_true rfl h
  · apply iff_of_false _ h
    simp

/-- A frame is accepted or refused. -/
theorem refused_iff (pFrame : UartFrame) :
  (checkRecvData pFrame).1 = -1 ↔ (checkRecvData pFrame).1 ≠ 0
  := by
  rw [checkRecvData_eq]
  split_ifs
  · apply iff_of_false (by decide) (not_not.mpr rfl)
  · simp

/-- For every frame with a length from 16 to 344 that `CheckRecvData` accepts: with another value
of one byte, outside the length and the id, it is refused; the bytes are in both cases left as
they were. -/
theorem checkRecvData_corrupt (hmin : 16 ≤ pFrame.length) (hmax : pFrame.length ≤ 344)
    (hok : (checkRecvData pFrame).1 = 0) (hi : i < pFrame.length + 4)
    (hlength : ¬ (2 ≤ i ∧ i ≤ 3)) (hid : ¬ (4 ≤ i ∧ i ≤ 7)) (hb : b ≠ pFrame i) :
  (checkRecvData (pFrame.corrupt i b)).1 = -1 ∧
    (checkRecvData (pFrame.corrupt i b)).2 = pFrame.corrupt i b ∧
    (checkRecvData pFrame).2 = pFrame
  := by
  refine ⟨?_, by rw [checkRecvData_eq], by rw [checkRecvData_eq]⟩
  obtain ⟨hmagic, hsum⟩ := (accepted_iff pFrame).mp hok
  rw [refused_iff, ne_eq, accepted_iff]
  rintro ⟨hmagic', hsum'⟩
  have hsame : (pFrame.corrupt i b).length = pFrame.length := field16_corrupt (by omega)
  rw [hsame] at hsum'
  by_cases hi2 : i < 2
  · have hne : (pFrame.corrupt i b).magic ≠ pFrame.magic :=
      field16_corrupt_ne (by omega) hb
    rw [hmagic', hmagic] at hne
    apply hne rfl
  · by_cases hfield : i = 18 ∨ i = 18 + 1
    · have hne : (pFrame.corrupt i b).checksum ≠ pFrame.checksum :=
        field16_corrupt_ne hfield hb
      rw [unsummedZeroed_corrupt (Or.inr (by omega)), hsum] at hsum'
      apply hne hsum'.symm
    · have hkept : (pFrame.corrupt i b).checksum = pFrame.checksum :=
        field16_corrupt (by omega)
      rw [hkept, ← hsum] at hsum'
      have hbytes : (pFrame.length + uartFrameSizeBeforeWithLength) % 2 ^ 16
          = pFrame.length + 4 := by
        rw [uartFrameSizeBeforeWithLength, Nat.mod_eq_of_lt (by omega)]
      rw [hbytes] at hsum'
      apply calcChecksum_corrupt _ hi (by omega) hb hsum'
      rintro (hunsummed | hunsummed)
      · omega
      · omega

end

/-- The memory of the frame without data. -/
def emptyMemory : UartFrame := Memory.write (fun _ => 0) 0 emptyFrame.toFrame.bytes

/-- The last byte of the frame without data, which is also the last of its checksum. -/
theorem checkRecvData_corrupt_last :
  (checkRecvData (emptyMemory.corrupt 19 0)).1 = -1
  := (@checkRecvData_corrupt emptyMemory 19 0 (by decide) (by decide) (by decide +kernel)
    (by decide) (by decide) (by decide) (by decide)).1

end SerialPort
