import Orgrim.Theory.Memory
import Orgrim.Uart.Crc

/-!
# The big buffers of the firmware sender

`EncodeBigBuffer` of `am_bigbuffer_sender.c`: a frame with the command `0x85` whose payload is
a numbered packet with a CRC.
-/

namespace Uart

/-- `EncodeBigBuffer`: the buffer, from what `malloc` returned; `iBuffLen` is at least 15. -/
def encodeBigBuffer (pBuff : Memory UInt8) (iBuffLen : ℕ) : Memory UInt8 :=
  let usUartLen := (iBuffLen - 4) % 2 ^ 16
  let pBuff := pBuff.write 0 [0xAA, UInt8.ofNat (usUartLen >>> 8), UInt8.ofNat usUartLen, 0x85]
  -- the number of the frame, the start address and the size of the packet
  let pBuff := pBuff.write 4 [0x00, 0x01]
  let pBuff := pBuff.write 6 [0x00, 0x00, 0x00, 0x00]
  let pBuff := pBuff.write 10 (bigEndian16 (iBuffLen - 5))
  let pBuff := pBuff.write 12 ((List.range (iBuffLen - 15)).map UInt8.ofNat)
  let uiCRC := genCRC (pBuff.slice 6 (iBuffLen - 9))
  let pBuff := pBuff.write (iBuffLen - 3) (bigEndian16 uiCRC)
  pBuff.write (iBuffLen - 1) [calcChecksum (pBuff.slice 3 usUartLen)]

/-- The packet of a big buffer: what the CRC covers. -/
def bigPacket (iBuffLen : ℕ) : List UInt8 :=
  [0x00, 0x00, 0x00, 0x00] ++ bigEndian16 (iBuffLen - 5)
    ++ (List.range (iBuffLen - 15)).map UInt8.ofNat

/-- The bytes of a big buffer before its CRC. -/
def bigHead (iBuffLen : ℕ) : List UInt8 :=
  [0xAA, UInt8.ofNat ((iBuffLen - 4) >>> 8), UInt8.ofNat (iBuffLen - 4), 0x85, 0x00, 0x01]
    ++ bigPacket iBuffLen

/-- The bytes of a big buffer before its checksum. -/
def bigSummed (iBuffLen : ℕ) : List UInt8 :=
  bigHead iBuffLen ++ bigEndian16 (genCRC (bigPacket iBuffLen))

/-- The bytes of a big buffer. -/
def bigFrame (iBuffLen : ℕ) : List UInt8 :=
  bigSummed iBuffLen ++ [calcChecksum ((bigSummed iBuffLen).drop 3)]

section

variable {n : ℕ}

theorem length_bigPacket (hn : 15 ≤ n) :
  (bigPacket n).length = n - 9
  := by
  simp [bigPacket, bigEndian16]
  omega

theorem length_bigHead (hn : 15 ≤ n) :
  (bigHead n).length = n - 3
  := by
  simp [bigHead, length_bigPacket hn]
  omega

theorem length_bigSummed (hn : 15 ≤ n) :
  (bigSummed n).length = n - 1
  := by
  simp [bigSummed, length_bigHead hn, bigEndian16]
  omega

theorem length_bigFrame (hn : 15 ≤ n) :
  (bigFrame n).length = n
  := by
  simp [bigFrame, length_bigSummed hn]
  omega

/-- The fields before the CRC stand one behind the other. -/
theorem write_bigHead (m : Memory UInt8) :
  ((((m.write 0 [0xAA, UInt8.ofNat ((n - 4) >>> 8), UInt8.ofNat (n - 4), 0x85]).write 4
      [0x00, 0x01]).write 6 [0x00, 0x00, 0x00, 0x00]).write 10 (bigEndian16 (n - 5))).write 12
      ((List.range (n - 15)).map UInt8.ofNat)
    = m.write 0 (bigHead n)
  := by
  rw [Memory.write_write_append_of_eq _ _ (by rfl), Memory.write_write_append_of_eq _ _ (by rfl),
    Memory.write_write_append_of_eq _ _ (by rfl), Memory.write_write_append_of_eq _ _ (by rfl),
    bigHead, bigPacket]
  simp only [List.cons_append, List.nil_append]

/-- The fields of a big buffer stand one behind the other, whatever `malloc` returned. -/
theorem encodeBigBuffer_eq (pBuff : Memory UInt8) (hn : 15 ≤ n) (hmax : n < 2 ^ 16) :
  encodeBigBuffer pBuff n = pBuff.write 0 (bigFrame n)
  := by
  have hlen : (n - 4) % 2 ^ 16 = n - 4 := Nat.mod_eq_of_lt (by omega)
  have hpacket : (pBuff.write 0 (bigHead n)).slice 6 (n - 9) = bigPacket n := by
    have hdrop : (bigHead n).drop 6 = bigPacket n := rfl
    rw [← Nat.zero_add 6, Memory.slice_write_of_mem _ _ (by rw [length_bigHead hn]; omega),
      hdrop, ← length_bigPacket hn, List.take_length]
  have hsummed : (pBuff.write 0 (bigSummed n)).slice 3 (n - 4) = (bigSummed n).drop 3 := by
    rw [← Nat.zero_add 3, Memory.slice_write_of_mem _ _ (by rw [length_bigSummed hn]; omega)]
    apply List.take_of_length_le
    rw [List.length_drop, length_bigSummed hn]
    omega
  have hcrc : (pBuff.write 0 (bigHead n)).write (n - 3) (bigEndian16 (genCRC (bigPacket n)))
      = pBuff.write 0 (bigSummed n) := by
    apply Memory.write_write_append_of_eq
    rw [length_bigHead hn, Nat.zero_add]
  have hchecksum : (pBuff.write 0 (bigSummed n)).write (n - 1)
      [calcChecksum ((bigSummed n).drop 3)] = pBuff.write 0 (bigFrame n) := by
    apply Memory.write_write_append_of_eq
    rw [length_bigSummed hn, Nat.zero_add]
  simp only [encodeBigBuffer, hlen]
  rw [write_bigHead, hpacket, hcrc, hsummed, hchecksum]

theorem slice_encodeBigBuffer (pBuff : Memory UInt8) (hn : 15 ≤ n) (hmax : n < 2 ^ 16) :
  (encodeBigBuffer pBuff n).slice 0 n = bigFrame n
  := by
  have hslice := Memory.slice_write_self pBuff 0 (bigFrame n)
  rw [length_bigFrame hn] at hslice
  rw [encodeBigBuffer_eq pBuff hn hmax, hslice]

end

end Uart
