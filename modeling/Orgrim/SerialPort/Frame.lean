import Mathlib.Tactic.Common
import Orgrim.Theory.Framing
import Orgrim.Theory.Memory

/-!
# The frames of the serial port

The frames exchanged with the controller, after `McuProtocol.h`, and the check
`CheckRecvData` makes on a received one, with `SysUtil::CalcChecksum`.

A `UartFrame` is the memory a `UartFrame *` points to; its fields are little-endian and
packed.  `uartFraming` says how frames stand on the wire, and a `WireFrame` is a frame as a
correct sender produces it: long enough to have all header fields, and with the checksum of
its bytes, `id` and `checksum` zeroed.  `checkRecvData` leaves the frame as it was
(`checkRecvData_eq`) and accepts every `WireFrame` (`checkRecvData_wireFrame`).
-/

namespace SerialPort

/-- `UART_FRAME_MAGIC_NUMBER` -/
def uartFrameMagicNumber : ℕ := 0xAAAA

/-- `UART_FRAME_SIZE_BEFORE_WITH_LENGTH` -/
def uartFrameSizeBeforeWithLength : ℕ := 4

/-- `UART_FRAME_SIZE_AFTER_LENGTH` -/
def uartFrameSizeAfterLength : ℕ := 16

/-- `UART_FRAME_HEADER_SIZE` -/
def uartFrameHeaderSize : ℕ := uartFrameSizeBeforeWithLength + uartFrameSizeAfterLength

/-- `UART_FRAME_DATA_MAX_SIZE` -/
def uartFrameDataMaxSize : ℕ := 324

/-- `UART_FRAME_MAX_SIZE` -/
def uartFrameMaxSize : ℕ := uartFrameDataMaxSize + uartFrameHeaderSize

/-- `COMM_BUFFER_MAX_LEN` -/
def commBufferMaxLen : ℕ := 2 * 1024

/-! ### The checksum -/

/-- The loop of `CalcChecksum`: the accumulator after the remaining bytes, added up as
big-endian words; a last odd byte is the high byte of a word. -/
def sumWords : List UInt8 → ℕ → ℕ
  | hi :: lo :: octets, acc =>
      sumWords octets ((acc + ((hi.toNat <<< 8) ||| lo.toNat)) % 2 ^ 32)
  | [hi], acc => (acc + (hi.toNat <<< 8)) % 2 ^ 32
  | [], acc => acc

/-- One folding of the accumulator. -/
def foldWord (acc : ℕ) : ℕ := (acc >>> 16) + (acc &&& 0x0000FFFF)

/-- `SysUtil::CalcChecksum` of the bytes `octets`. -/
def calcChecksum (octets : List UInt8) : ℕ :=
  let acc := foldWord (sumWords octets 0)
  let acc := if acc &&& 0xFFFF0000 ≠ 0 then foldWord acc else acc
  (acc % 2 ^ 16) ^^^ 0xFFFF

/-! ### Fields -/

/-- The memory at a `UartFrame *`. -/
abbrev UartFrame : Type := Memory UInt8

namespace UartFrame

/-- The little-endian 16-bit field at offset `off`. -/
def field16 (pFrame : UartFrame) (off : ℕ) : ℕ :=
  (pFrame off).toNat + 2 ^ 8 * (pFrame (off + 1)).toNat

/-- The field `magic`. -/
def magic (pFrame : UartFrame) : ℕ := pFrame.field16 0

/-- The field `length`: the number of bytes after it. -/
def length (pFrame : UartFrame) : ℕ := pFrame.field16 2

/-- The field `id`. -/
def id (pFrame : UartFrame) : ℕ :=
  pFrame.field16 4 + 2 ^ 16 * pFrame.field16 6

/-- The field `checksum`. -/
def checksum (pFrame : UartFrame) : ℕ := pFrame.field16 18

/-- Assignment to the field `id`. -/
def setId (pFrame : UartFrame) (v : ℕ) : UartFrame :=
  Memory.write pFrame 4
    [UInt8.ofNat v, UInt8.ofNat (v >>> 8), UInt8.ofNat (v >>> 16), UInt8.ofNat (v >>> 24)]

/-- Assignment to the field `checksum`. -/
def setChecksum (pFrame : UartFrame) (v : ℕ) : UartFrame :=
  Memory.write pFrame 18 [UInt8.ofNat v, UInt8.ofNat (v >>> 8)]

/-- The bytes of the frame, by its own `length`. -/
def bytes (pFrame : UartFrame) : List UInt8 :=
  Memory.slice pFrame 0 (pFrame.length + uartFrameSizeBeforeWithLength)

end UartFrame

/-- `CheckRecvData`: what it returns, and the frame after it.  It zeroes `id` and
`checksum` for the computation and puts them back. -/
def checkRecvData (pFrame : UartFrame) : ℤ × UartFrame :=
  if pFrame.magic ≠ uartFrameMagicNumber then (-1, pFrame)
  else
    let checksumInData := pFrame.checksum
    let id := pFrame.id
    let zeroed := (pFrame.setId 0).setChecksum 0
    let checksum := calcChecksum
      (zeroed.slice 0 ((zeroed.length + uartFrameSizeBeforeWithLength) % 2 ^ 16))
    let restored := (zeroed.setChecksum checksumInData).setId id
    if checksum ≠ restored.checksum then (-1, restored) else (0, restored)

/-! ### The check leaves the frame as it was -/

/-- The offsets of the bytes of the fields `id` and `checksum`. -/
def Unsummed (i : ℕ) : Prop := (4 ≤ i ∧ i < 8) ∨ (18 ≤ i ∧ i < 20)

instance : DecidablePred Unsummed :=
  fun _ => inferInstanceAs (Decidable (_ ∨ _))

/-- The bytes `bs` of a frame with `id` and `checksum` zeroed. -/
def unsummedZeroed (bs : List UInt8) : List UInt8 :=
  bs.mapIdx (fun i b => if Unsummed i then 0 else b)

/-- The bytes of a 16-bit field, as `setChecksum` stores them. -/
theorem field16_bytes (pFrame : UartFrame) (off : ℕ) :
  [UInt8.ofNat (pFrame.field16 off), UInt8.ofNat (pFrame.field16 off >>> 8)]
    = Memory.slice pFrame off 2
  := by
  have hlo := (pFrame off).toNat_lt
  have hhi := (pFrame (off + 1)).toNat_lt
  simp only [Memory.slice, List.range, List.range.loop, List.map, Nat.add_zero]
  congr 1
  · apply UInt8.toNat_inj.mp
    rw [UInt8.toNat_ofNat', UartFrame.field16]
    omega
  · congr 1
    apply UInt8.toNat_inj.mp
    rw [UInt8.toNat_ofNat', UartFrame.field16, Nat.shiftRight_eq_div_pow]
    omega

theorem setChecksum_checksum (m pFrame : UartFrame) :
  m.setChecksum pFrame.checksum = m.write 18 (pFrame.slice 18 2)
  := by
  rw [UartFrame.setChecksum, UartFrame.checksum, field16_bytes]

theorem setId_id (m pFrame : UartFrame) :
  m.setId pFrame.id = m.write 4 (pFrame.slice 4 4)
  := by
  have hsplit : pFrame.slice 4 4 = pFrame.slice 4 2 ++ pFrame.slice 6 2 :=
    Memory.slice_add pFrame 4 2 2
  have hfield : pFrame.field16 4 < 2 ^ 16 := by
    have hlo := (pFrame 4).toNat_lt
    have hhi := (pFrame (4 + 1)).toNat_lt
    simp only [UartFrame.field16]
    omega
  have hbytes : ∀ k, UInt8.ofNat (pFrame.field16 4 + 2 ^ 16 * k) = UInt8.ofNat (pFrame.field16 4)
      ∧ UInt8.ofNat ((pFrame.field16 4 + 2 ^ 16 * k) >>> 8)
        = UInt8.ofNat (pFrame.field16 4 >>> 8)
      ∧ (pFrame.field16 4 + 2 ^ 16 * k) >>> 16 = k
      ∧ (pFrame.field16 4 + 2 ^ 16 * k) >>> 24 = k >>> 8 := by
    intro k
    simp only [Nat.shiftRight_eq_div_pow]
    and_intros
    · apply UInt8.toNat_inj.mp
      simp only [UInt8.toNat_ofNat']
      omega
    · apply UInt8.toNat_inj.mp
      simp only [UInt8.toNat_ofNat']
      omega
    · omega
    · omega
  obtain ⟨h₀, h₁, h₂, h₃⟩ := hbytes (pFrame.field16 6)
  rw [UartFrame.setId, UartFrame.id, h₀, h₁, h₂, h₃, hsplit, ← field16_bytes, ← field16_bytes]
  rfl

/-- Zeroing `id` and `checksum` zeroes exactly their bytes. -/
theorem setId_zero_setChecksum_zero (pFrame : UartFrame) :
  (pFrame.setId 0).setChecksum 0 = fun i => if Unsummed i then 0 else pFrame i
  := by
  have hid : pFrame.setId 0 = pFrame.write 4 (List.replicate 4 0) := rfl
  have hchecksum : ∀ m : UartFrame, m.setChecksum 0 = m.write 18 (List.replicate 2 0) :=
    fun _ => rfl
  funext i
  rw [hid, hchecksum, Memory.write_replicate_apply, Memory.write_replicate_apply]
  by_cases h : Unsummed i
  · rw [if_pos h]
    rcases h with h | h
    · rw [if_neg (by omega), if_pos (by omega)]
    · rw [if_pos (by omega)]
  · rw [if_neg h]
    simp only [Unsummed] at h
    rw [if_neg (by omega), if_neg (by omega)]

/-- Putting `checksum` and `id` back restores the frame. -/
theorem restored_eq (pFrame : UartFrame) :
  (((pFrame.setId 0).setChecksum 0).setChecksum pFrame.checksum).setId pFrame.id = pFrame
  := by
  have hid : pFrame.setId 0 = pFrame.write 4 (List.replicate 4 0) := rfl
  have hchecksum : ∀ m : UartFrame, m.setChecksum 0 = m.write 18 (List.replicate 2 0) :=
    fun _ => rfl
  have hslice : pFrame.slice 18 2 = (pFrame.write 4 (List.replicate 4 0)).slice 18 2 := by
    symm
    apply Memory.slice_write_of_ge
    simp
  rw [setChecksum_checksum, setId_id, hid, hchecksum, hslice]
  have hinner := Memory.write_write_slice (pFrame.write 4 (List.replicate 4 0)) 18
    (List.replicate 2 0)
  rw [List.length_replicate] at hinner
  rw [hinner]
  apply Memory.write_write_slice

/-- The verdict of `checkRecvData`, in terms of the frame it is given. -/
theorem checkRecvData_eq (pFrame : UartFrame) :
  checkRecvData pFrame
    = (if pFrame.magic = uartFrameMagicNumber
        ∧ calcChecksum (unsummedZeroed (pFrame.slice 0
            ((pFrame.length + uartFrameSizeBeforeWithLength) % 2 ^ 16))) = pFrame.checksum
      then 0 else -1, pFrame)
  := by
  have hlength : ((pFrame.setId 0).setChecksum 0).length = pFrame.length := by
    rw [setId_zero_setChecksum_zero]
    rfl
  have hslice : ∀ n, Memory.slice ((pFrame.setId 0).setChecksum 0) 0 n
      = unsummedZeroed (pFrame.slice 0 n) := by
    intro n
    rw [setId_zero_setChecksum_zero]
    apply List.ext_getElem
    · simp [unsummedZeroed]
    · intro i hi hi'
      simp [unsummedZeroed, Memory.slice]
  simp only [checkRecvData, restored_eq, hlength, hslice]
  split_ifs
  all_goals simp_all

/-! ### Frames on the wire -/

/-- The frames on the wire: two magic bytes, the 16-bit length, low byte first, and as many
bytes; a length above `UART_FRAME_MAX_SIZE` is refused. -/
def uartFraming : Framing UInt8 where
  magic := 0xAA
  marks := 2
  payloadLen lo hi :=
    if lo.toNat + 2 ^ 8 * hi.toNat ≤ uartFrameMaxSize then some (lo.toNat + 2 ^ 8 * hi.toNat)
    else none

theorem payloadLen_eq_some {lo hi : UInt8} {n : ℕ} :
  uartFraming.payloadLen lo hi = some n
    ↔ lo.toNat + 2 ^ 8 * hi.toNat = n ∧ n ≤ uartFrameMaxSize
  := by
  simp only [uartFraming]
  split
  · rename_i h
    constructor
    · intro hn
      obtain rfl := Option.some.inj hn
      exact ⟨rfl, h⟩
    · rintro ⟨rfl, -⟩
      rfl
  · rename_i h
    constructor
    · intro hn
      cases hn
    · rintro ⟨rfl, hn⟩
      exact absurd hn h

/-- The field `checksum` of a frame with the bytes `bs`. -/
def checksumField (bs : List UInt8) : ℕ :=
  (bs[18]?.getD 0).toNat + 2 ^ 8 * (bs[19]?.getD 0).toNat

/-- A frame as a correct sender makes it: it has all header fields, and its checksum is the
one of its bytes, `id` and `checksum` zeroed. -/
structure WireFrame extends Framing.Frame uartFraming where
  header : uartFrameSizeAfterLength ≤ payload.length
  checked : calcChecksum (unsummedZeroed toFrame.bytes) = checksumField toFrame.bytes

/-- A frame without data. -/
def emptyFrame : WireFrame where
  len₁ := 0x10
  len₂ := 0x00
  payload := [0, 0, 0, 0, 0, 0, 0, 0, 0, 0, 0, 0, 0, 0, 0x55, 0x45]
  sized := by decide
  header := by decide
  checked := by decide

theorem frame_bytes (f : uartFraming.Frame) :
  f.bytes = 0xAA :: 0xAA :: f.len₁ :: f.len₂ :: f.payload
  := rfl

theorem frame_length_bytes (f : uartFraming.Frame) :
  f.bytes.length = f.payload.length + uartFrameSizeBeforeWithLength
  := by
  simp [frame_bytes, uartFrameSizeBeforeWithLength]

theorem frame_payload_le (f : uartFraming.Frame) :
  f.payload.length ≤ uartFrameMaxSize
  := (payloadLen_eq_some.mp f.sized).2

section

variable {pFrame : UartFrame} {f : uartFraming.Frame}
  (h : pFrame.slice 0 f.bytes.length = f.bytes)

include h

/-- A memory that starts with a frame has its magic number. -/
theorem magic_of_slice :
  pFrame.magic = uartFrameMagicNumber
  := by
  have hlen := frame_length_bytes f
  simp only [uartFrameSizeBeforeWithLength] at hlen
  have h₀ := Memory.apply_of_slice_eq h (i := 0) (by omega)
  have h₁ := Memory.apply_of_slice_eq h (i := 1) (by omega)
  simp only [frame_bytes, List.getElem?_cons_zero, List.getElem?_cons_succ,
    Option.some.injEq] at h₀ h₁
  simp only [UartFrame.magic, UartFrame.field16, Nat.zero_add, ← h₀, ← h₁]
  rfl

/-- A memory that starts with a frame has the length of its payload. -/
theorem length_of_slice :
  pFrame.length = f.payload.length
  := by
  have hlen := frame_length_bytes f
  simp only [uartFrameSizeBeforeWithLength] at hlen
  have h₂ := Memory.apply_of_slice_eq h (i := 2) (by omega)
  have h₃ := Memory.apply_of_slice_eq h (i := 3) (by omega)
  simp only [frame_bytes, List.getElem?_cons_zero, List.getElem?_cons_succ,
    Option.some.injEq] at h₂ h₃
  rw [← (payloadLen_eq_some.mp f.sized).1, h₂, h₃]
  rfl

theorem bytes_of_slice :
  pFrame.bytes = f.bytes
  := by
  rw [UartFrame.bytes, length_of_slice h, ← frame_length_bytes, h]

/-- The verdict on a frame that has all header fields depends on its bytes alone. -/
theorem checkRecvData_of_slice (hheader : uartFrameSizeAfterLength ≤ f.payload.length) :
  (checkRecvData pFrame).1
    = if calcChecksum (unsummedZeroed f.bytes) = checksumField f.bytes then 0 else -1
  := by
  have hlen := frame_length_bytes f
  have hmax := frame_payload_le f
  simp only [uartFrameSizeBeforeWithLength, uartFrameSizeAfterLength, uartFrameMaxSize,
    uartFrameDataMaxSize, uartFrameHeaderSize] at hlen hmax hheader
  have h₁₈ := Memory.apply_of_slice_eq h (i := 18) (by omega)
  have h₁₉ := Memory.apply_of_slice_eq h (i := 19) (by omega)
  have hchecksum : pFrame.checksum = checksumField f.bytes := by
    simp only [UartFrame.checksum, UartFrame.field16, checksumField, h₁₈, h₁₉,
      Option.getD_some]
  have hmod : (pFrame.length + uartFrameSizeBeforeWithLength) % 2 ^ 16 = f.bytes.length := by
    rw [length_of_slice h, frame_length_bytes]
    apply Nat.mod_eq_of_lt
    simp only [uartFrameSizeBeforeWithLength]
    omega
  rw [checkRecvData_eq, hmod, h, hchecksum]
  simp only [magic_of_slice h, true_and]

end

theorem checkRecvData_wireFrame (f : WireFrame) {pFrame : UartFrame}
    (h : pFrame.slice 0 f.toFrame.bytes.length = f.toFrame.bytes) :
  (checkRecvData pFrame).1 = 0
  := by
  rw [checkRecvData_of_slice h f.header, if_pos f.checked]

end SerialPort
