import Orgrim.Theory.Memory
import Orgrim.Uart.Crc

/-!
# The frames of the map

What `SendThread` of `map_send_test.c` writes for a frame: the fields stand one behind the
other, whatever was in the buffer before (`encode_eq`), and its checksum and CRC are right.
-/

namespace Uart

/-- `MAP_PIXELS * MAP_PIXELS / 2`, the size of `g_Mapdata` -/
def mapBytes : ℕ := 128 * 128 / 2

/-- `MAPDATA_FRAME_MAX_BYTES` -/
def mapFrameMaxBytes : ℕ := 200

/-- `ucFrameTotal`: the number of frames, rounded up. -/
def ucFrameTotal : UInt8 :=
  UInt8.ofNat ((mapBytes + mapFrameMaxBytes - 1) / mapFrameMaxBytes)

/-- `g_ucFrameNo`, `g_uiTotalMapDataLeft` and `g_uiMapDataSendOffset` -/
structure MapSend where
  frameNo : UInt8
  left : ℕ
  offset : ℕ
deriving DecidableEq

/-- The variables when the loop is entered. -/
def MapSend.start : MapSend where
  frameNo := 1
  left := mapBytes
  offset := 0

namespace MapSend

/-- `iFrameDataBytesLen` -/
def dataLen (s : MapSend) : ℕ :=
  if s.left ≥ mapFrameMaxBytes then mapFrameMaxBytes else s.left

/-- `iBuffLen` -/
def buffLen (s : MapSend) : ℕ := 1 + 2 + 1 + 1 + 1 + 1 + 1 + s.dataLen + 2 + 1

/-- The frame built in the buffer that `malloc` returned. -/
def encode (map : Memory UInt8) (s : MapSend) (pBuff : Memory UInt8) : List UInt8 :=
  let pBuff := pBuff.write 0 (List.replicate s.buffLen 0)
  let pBuff := pBuff.write 0
    [0xAA, UInt8.ofNat ((s.buffLen - 1 - 2 - 1) >>> 8), UInt8.ofNat (s.buffLen - 1 - 2 - 1),
      0x03, 0x05, ucFrameTotal, s.frameNo, UInt8.ofNat s.dataLen]
  let pBuff := pBuff.write 8 (map.slice s.offset s.dataLen)
  let uiCRC := genCRC (pBuff.slice 5 (1 + 1 + 1 + s.dataLen))
  let pBuff := pBuff.write (s.buffLen - 3) (bigEndian16 uiCRC)
  let pBuff := pBuff.write (s.buffLen - 1) [calcChecksum (pBuff.slice 3 (s.buffLen - 1 - 1 - 1))]
  pBuff.slice 0 s.buffLen

/-- The variables after a frame that was acknowledged. -/
def advance (s : MapSend) : MapSend where
  frameNo := s.frameNo + 1
  left := s.left - s.dataLen
  offset := s.offset + s.dataLen

end MapSend

/-- The variables at a transmission, and the bytes written. -/
structure Transmission where
  vars : MapSend
  bytes : List UInt8

/-- `isChecksumError` -/
def isChecksumError (pData : List UInt8) : ℕ :=
  if calcChecksum ((pData.drop 3).take (pData.length - 4))
      = pData[pData.length - 1]?.getD 0 then 0
  else 1

namespace Transmission

/-- The number of the frame, as sent. -/
def number (x : Transmission) : ℕ := (x.bytes[6]?.getD 0).toNat

/-- The map data of the frame, as sent: what stands between the byte count and the CRC. -/
def payload (x : Transmission) : List UInt8 := (x.bytes.drop 8).take (x.bytes.length - 11)

/-- What the CRC covers: total, number, byte count and map data. -/
def crcCovered (x : Transmission) : List UInt8 :=
  (x.bytes.drop 5).take (x.bytes.length - 8)

/-- The CRC of the frame, as sent. -/
def crcField (x : Transmission) : ℕ :=
  2 ^ 8 * (x.bytes[x.bytes.length - 3]?.getD 0).toNat
    + (x.bytes[x.bytes.length - 2]?.getD 0).toNat

end Transmission

/-! ### The frames -/

/-- The bytes from the number of frames to the map data. -/
def mapCovered (s : MapSend) (data : List UInt8) : List UInt8 :=
  [ucFrameTotal, s.frameNo, UInt8.ofNat s.dataLen] ++ data

/-- The bytes before the CRC. -/
def mapHead (s : MapSend) (data : List UInt8) : List UInt8 :=
  [0xAA, UInt8.ofNat ((s.buffLen - 1 - 2 - 1) >>> 8), UInt8.ofNat (s.buffLen - 1 - 2 - 1),
    0x03, 0x05] ++ mapCovered s data

/-- The bytes before the checksum. -/
def mapSummed (s : MapSend) (data : List UInt8) : List UInt8 :=
  mapHead s data ++ bigEndian16 (genCRC (mapCovered s data))

/-- The bytes of a frame with the map data `data`. -/
def mapFrame (s : MapSend) (data : List UInt8) : List UInt8 :=
  mapSummed s data ++ [calcChecksum ((mapSummed s data).drop 3)]

theorem buffLen_eq (s : MapSend) :
  s.buffLen = s.dataLen + 11
  := by
  simp only [MapSend.buffLen]
  omega

section

variable {s : MapSend} {data : List UInt8} (hdata : data.length = s.dataLen)

include hdata

theorem length_mapHead :
  (mapHead s data).length = s.buffLen - 3
  := by
  simp [mapHead, mapCovered, buffLen_eq, hdata]

theorem length_mapSummed :
  (mapSummed s data).length = s.buffLen - 1
  := by
  have hlen := buffLen_eq s
  rw [mapSummed, List.length_append, length_mapHead hdata, bigEndian16, List.length_cons,
    List.length_singleton]
  omega

theorem length_mapFrame :
  (mapFrame s data).length = s.buffLen
  := by
  have hlen := buffLen_eq s
  rw [mapFrame, List.length_append, length_mapSummed hdata, List.length_singleton]
  omega

/-- The byte of the checksum is zero when the checksum is computed. -/
theorem calcChecksum_mapSummed (pBuff : Memory UInt8) :
  calcChecksum (((pBuff.write 0 (List.replicate s.buffLen 0)).write 0 (mapSummed s data)).slice
      3 (s.buffLen - 1 - 1 - 1))
    = calcChecksum ((mapSummed s data).drop 3)
  := by
  have hlen := buffLen_eq s
  have hsummed := length_mapSummed hdata
  have hsplit : s.buffLen - 1 - 1 - 1 = (s.buffLen - 4) + 1 := by
    omega
  have hbytes : ∀ m : Memory UInt8, (m.write 0 (mapSummed s data)).slice (0 + 3) (s.buffLen - 4)
      = (mapSummed s data).drop 3 := by
    intro m
    rw [Memory.slice_write_of_mem _ _ (by omega)]
    apply List.take_of_length_le
    rw [List.length_drop]
    omega
  have hzero : ∀ m : Memory UInt8, ((m.write 0 (List.replicate s.buffLen 0)).write 0
      (mapSummed s data)).slice (0 + (s.buffLen - 1)) 1 = [0] := by
    intro m
    have hone : s.buffLen - (s.buffLen - 1) = 1 := by
      omega
    rw [Memory.slice_write_of_ge _ _ (by omega), Memory.slice_write_of_mem _ _ (by
      rw [List.length_replicate]
      omega), List.drop_replicate, hone]
    rfl
  have hlast : 3 + (s.buffLen - 4) = 0 + (s.buffLen - 1) := by
    omega
  rw [hsplit, Memory.slice_add, hlast, hzero, ← Nat.zero_add 3, hbytes, calcChecksum,
    calcChecksum, List.foldl_append]
  apply UInt8.add_zero

end

/-- The fields of a frame stand one behind the other, whatever `malloc` returned. -/
theorem encode_eq (map pBuff : Memory UInt8) (s : MapSend) :
  s.encode map pBuff = mapFrame s (map.slice s.offset s.dataLen)
  := by
  have hlen := buffLen_eq s
  have hdata := Memory.length_slice map s.offset s.dataLen
  simp only [MapSend.encode]
  generalize map.slice s.offset s.dataLen = data at hdata
  have hhead : ∀ m : Memory UInt8, (m.write 0 [0xAA,
      UInt8.ofNat ((s.buffLen - 1 - 2 - 1) >>> 8), UInt8.ofNat (s.buffLen - 1 - 2 - 1), 0x03,
      0x05, ucFrameTotal, s.frameNo, UInt8.ofNat s.dataLen]).write 8 data
        = m.write 0 (mapHead s data) := by
    intro m
    apply Memory.write_write_append_of_eq
    rfl
  have hcovered : ∀ m : Memory UInt8,
      (m.write 0 (mapHead s data)).slice (0 + 5) (1 + 1 + 1 + s.dataLen)
        = mapCovered s data := by
    intro m
    have hdrop : (mapHead s data).drop 5 = mapCovered s data := rfl
    rw [Memory.slice_write_of_mem _ _ (by rw [length_mapHead hdata]; omega), hdrop]
    apply List.take_of_length_le
    simp only [mapCovered, List.length_append, List.length_cons, List.length_nil]
    omega
  have hcrc : ∀ (m : Memory UInt8) crc, (m.write 0 (mapHead s data)).write (s.buffLen - 3) crc
      = m.write 0 (mapHead s data ++ crc) := by
    intro m crc
    apply Memory.write_write_append_of_eq
    rw [length_mapHead hdata, Nat.zero_add]
  have hchecksum : ∀ (m : Memory UInt8) c,
      (m.write 0 (mapSummed s data)).write (s.buffLen - 1) c
        = m.write 0 (mapSummed s data ++ c) := by
    intro m c
    apply Memory.write_write_append_of_eq
    rw [length_mapSummed hdata, Nat.zero_add]
  have hslice := Memory.slice_write_self (pBuff.write 0 (List.replicate s.buffLen 0)) 0
    (mapFrame s data)
  rw [length_mapFrame hdata] at hslice
  rw [hhead, ← Nat.zero_add 5, hcovered, hcrc, ← mapSummed, hchecksum,
    calcChecksum_mapSummed hdata, ← mapFrame, hslice]

section

variable {s : MapSend} {data : List UInt8} (hdata : data.length = s.dataLen)

theorem number_mapFrame :
  Transmission.number ⟨s, mapFrame s data⟩ = s.frameNo.toNat
  := rfl

include hdata

theorem payload_mapFrame :
  Transmission.payload ⟨s, mapFrame s data⟩ = data
  := by
  have hlen := buffLen_eq s
  have hdrop : (mapFrame s data).drop 8 = data ++ (bigEndian16 (genCRC (mapCovered s data))
      ++ [calcChecksum ((mapSummed s data).drop 3)]) := by
    simp only [mapFrame, mapSummed, List.append_assoc]
    rfl
  rw [Transmission.payload, length_mapFrame hdata, hdrop, List.take_left' (by omega)]

theorem crcCovered_mapFrame :
  Transmission.crcCovered ⟨s, mapFrame s data⟩ = mapCovered s data
  := by
  have hlen := buffLen_eq s
  have hdrop : (mapFrame s data).drop 5 = mapCovered s data
      ++ (bigEndian16 (genCRC (mapCovered s data))
        ++ [calcChecksum ((mapSummed s data).drop 3)]) := by
    simp only [mapFrame, mapSummed, List.append_assoc]
    rfl
  rw [Transmission.crcCovered, length_mapFrame hdata, hdrop, List.take_left' (by
    simp only [mapCovered, List.length_append, List.length_cons, List.length_nil]
    omega)]

theorem crcField_mapFrame :
  Transmission.crcField ⟨s, mapFrame s data⟩ = genCRC (mapCovered s data)
  := by
  have hlen := buffLen_eq s
  have hhead := length_mapHead hdata
  have hbyte : ∀ k, s.buffLen - 3 ≤ k → (mapFrame s data)[k]?
      = (bigEndian16 (genCRC (mapCovered s data))
        ++ [calcChecksum ((mapSummed s data).drop 3)])[k - (s.buffLen - 3)]? := by
    intro k hk
    rw [mapFrame, mapSummed, List.append_assoc, List.getElem?_append_right (by omega), hhead]
  have hhigh : s.buffLen - 3 - (s.buffLen - 3) = 0 := by
    omega
  have hlow : s.buffLen - 2 - (s.buffLen - 3) = 1 := by
    omega
  rw [Transmission.crcField, length_mapFrame hdata, hbyte _ (by omega), hbyte _ (by omega),
    hhigh, hlow]
  apply toNat_bigEndian16 (genCRC_lt _)

theorem isChecksumError_mapFrame :
  isChecksumError (mapFrame s data) = 0
  := by
  have hlen := buffLen_eq s
  have hsummed := length_mapSummed hdata
  have hbytes : ((mapFrame s data).drop 3).take (s.buffLen - 4)
      = (mapSummed s data).drop 3 := by
    rw [mapFrame, List.drop_append_of_le_length (by omega), List.take_left' (by
      rw [List.length_drop]
      omega)]
  have hlast : (mapFrame s data)[s.buffLen - 1]?
      = some (calcChecksum ((mapSummed s data).drop 3)) := by
    rw [mapFrame, List.getElem?_append_right (by omega), hsummed, Nat.sub_self]
    rfl
  rw [isChecksumError, length_mapFrame hdata, hbytes, hlast, Option.getD_some, if_pos rfl]

end

end Uart
