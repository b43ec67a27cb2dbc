import Orgrim.Uart.Reassembly

/-!
# The receiver of the IMU

`imu_test.c`: its `RecvThread`, what it does with a frame it has received, and the reply it
decodes.
-/

namespace Uart

/-- `MAX_LEN` -/
def maxLen : ℕ := 1680

/-- `RecvThread` of `imu_test.c` -/
def imuTest : Variant where
  bufLen := maxLen
  clears := false
  lenFirst := highMasked
  lenBoth hi lo := highMasked hi + lowMasked lo
  lenSecond := lowMasked

namespace ImuTest

/-- The fields of `EvIMUReplyData` that `DecodeIMUData` prints; the two `float`s are given by
their bits. -/
structure Reading where
  originalX : ℕ
  originalY : ℕ
  degrees : ℕ
  leftToFDistance : ℕ
  rightToFDistance : ℕ
deriving DecidableEq

/-- `sizeof(EvIMUReplyData)` -/
def replySize : ℕ := 33

/-- The number stored high byte first in the `n` bytes of `pData` from `off` on: the field
there after `ntohs` or `FloatSwap`. -/
def field (pData : List UInt8) (off n : ℕ) : ℕ :=
  ((pData.drop off).take n).foldl (fun acc b => 2 ^ 8 * acc + b.toNat) 0

/-- `DecodeIMUData`: what it prints. -/
def decodeIMUData (pData : List UInt8) : Option Reading :=
  if pData.length = replySize then
    some {
      degrees := field pData 6 2
      originalX := field pData 18 4
      originalY := field pData 22 4
      rightToFDistance := field pData 26 2
      leftToFDistance := field pData 28 2 }
  else none

/-- The bytes `DecodeIMUData` is called with for a frame that has been received, if it is. -/
def decoded (x : Reception) : Option (List UInt8) :=
  if x.recvLen ≥ 5 then
    if x.buf 3 = 0x81 then some (x.buf.slice 4 (x.recvLen - 5).toNat) else none
  else none

/-- What is printed for a frame that has been received. -/
def printed (x : Reception) : Option Reading := (decoded x).bind decodeIMUData

end ImuTest

/-! ### Frames with a command -/

/-- The command byte of a frame, if it has one; the last byte of a frame is its checksum. -/
def command (f : uartFraming.Frame) : Option UInt8 := f.payload.dropLast.head?

/-- The bytes of a frame between command and checksum. -/
def commandData (f : uartFraming.Frame) : List UInt8 := f.payload.dropLast.tail

namespace ImuTest

theorem masked : imuTest.Masked
  := by
  constructor
  · intro hi lo
    simp only [imuTest, highMasked_eq, lowMasked_eq]
    omega
  · intro hi lo
    simp only [imuTest, highMasked_eq, lowMasked_eq]
    omega

theorem decoded_of_payload {x : Reception} {len₁ len₂ : UInt8} : ∀ {payload : List UInt8},
    x.bytes = magicNumber :: len₁ :: len₂ :: payload →
    decoded x
      = if payload.dropLast.head? = some 0x81 then some payload.dropLast.tail else none
  | [], h => by
      have hlen := congrArg List.length h
      simp only [Reception.bytes, Memory.length_slice, List.length_cons, List.length_nil]
        at hlen
      have hshort : ¬ x.recvLen ≥ 5 := by
        omega
      rw [decoded, if_neg hshort]
      rfl
  | [_], h => by
      have hlen := congrArg List.length h
      simp only [Reception.bytes, Memory.length_slice, List.length_cons, List.length_nil]
        at hlen
      have hshort : ¬ x.recvLen ≥ 5 := by
        omega
      rw [decoded, if_neg hshort]
      rfl
  | cmd :: b :: rest, h => by
      have hlen := congrArg List.length h
      simp only [Reception.bytes, Memory.length_slice, List.length_cons] at hlen h
      have hlong : x.recvLen ≥ 5 := by
        omega
      have hcmd := Memory.apply_of_slice_eq h (i := 3) (by omega)
      simp only [List.getElem?_cons_succ, List.getElem?_cons_zero, Option.some.injEq] at hcmd
      have hbody : x.buf.slice 4 ((x.recvLen - 5).toNat + 1) = b :: rest := by
        have hsplit : x.recvLen.toNat = 4 + ((x.recvLen - 5).toNat + 1) := by
          omega
        have hdrop := Memory.slice_drop x.buf 0 ((x.recvLen - 5).toNat + 1) 4
        rw [← hsplit, h] at hdrop
        apply hdrop.symm
      rw [decoded, if_pos hlong, ← Memory.slice_dropLast, hbody, ← hcmd]
      simp only [List.dropLast_cons_cons, List.head?_cons, Option.some.injEq, List.tail_cons]

/-- `DecodeIMUData` is called for the frames with the command `0x81`, with what stands between
command and checksum. -/
theorem decoded_of_frame {x : Reception} {f : uartFraming.Frame} (h : x.bytes = f.bytes) :
  decoded x = if command f = some 0x81 then some (commandData f) else none
  := decoded_of_payload h

/-- The frames with the command `0x81` among the frames received. -/
theorem filterMap_decoded {frames : List uartFraming.Frame} :
  ∀ {receptions : List Reception},
    receptions.map Reception.bytes = frames.map Framing.Frame.bytes →
    receptions.filterMap decoded
      = (frames.filter (fun f => command f = some 0x81)).map commandData
  := by
  induction frames with
  | nil =>
      intro receptions h
      obtain rfl := List.map_eq_nil_iff.mp h
      rfl
  | cons f frames ih =>
      intro receptions h
      obtain ⟨x, receptions, rfl, hx, hrest⟩ := List.map_eq_cons_iff.mp h
      by_cases hcommand : command f = some 0x81
      · simp [decoded_of_frame hx, hcommand, ih hrest]
      · simp [decoded_of_frame hx, hcommand, ih hrest]

/-- However a stream of frames with noise between them is cut into reads, exactly the frames
are received, in order, inside the buffer; and `DecodeIMUData` is called exactly for those
with the command `0x81`, with the bytes between command and checksum. -/
theorem receives_frames {buf : Memory UInt8} {pieces : List (List UInt8)}
    {segments : List (List UInt8 × uartFraming.Frame)}
    (hnoise : ∀ x ∈ segments, 0xAA ∉ x.1)
    (hfits : ∀ x ∈ segments, x.2.bytes.length ≤ maxLen)
    (hstream : pieces.flatten = uartFraming.stream segments)
    (hcuts : imuTest.recvThread.Cuts (.start buf) pieces) :
  (imuTest.recvThread.output (.start buf) (pieces.map .data)).map Reception.bytes
      = segments.map (·.2.bytes) ∧
    (imuTest.recvThread.output (.start buf) (pieces.map .data)).filterMap decoded
      = ((segments.map (·.2)).filter (fun f => command f = some 0x81)).map commandData ∧
    imuTest.recvThread.Along (fun s _ => imuTest.ReadInBounds s) (.start buf)
      (pieces.map .data)
  := by
  have hreceived := receptions_eq (V := imuTest) rfl masked hnoise hstream hcuts
  and_intros
  · apply hreceived
  · apply filterMap_decoded
    rw [hreceived, List.map_map]
    rfl
  · apply along_readInBounds rfl masked hnoise hfits (by decide) hstream hcuts

/-- A frame with the command `0x81` after a byte of noise, and one with another command. -/
def twoSegments : List (List UInt8 × uartFraming.Frame) :=
  [([0x01], ⟨0x00, 0x03, [0x81, 0x05, 0x06, 0x8C], rfl⟩), ([], ⟨0x00, 0x01, [0x82, 0x82], rfl⟩)]

theorem receives_frames_two :
  (imuTest.recvThread.output (.start fun _ => 0)
      ([[0x01], [0xAA], [0x00], [0x03], [0x81, 0x05], [0x06, 0x8C],
        [0xAA], [0x00, 0x01], [0x82, 0x82]].map .data)).filterMap decoded = [[0x05, 0x06]]
  := (receives_frames (show ∀ x ∈ twoSegments, 0xAA ∉ x.1 by decide) (by decide) (by decide)
    (by decide)).2.1

end ImuTest

end Uart
