import Orgrim.SerialPort.Deframing
import Orgrim.SerialPort.Gathering

/-!
# Recovery of the frames on a stream

Two consequences of `simulates`: what is delivered does not depend on how a stream is cut
into reads, and on a stream of frames with noise between them the frames are called back,
all of them and nothing else.
-/

namespace SerialPort

/-! ### Any stream -/

/-- Two threads at the same place of a stream owe the same deliveries. -/
theorem owed_eq {s s' : ThreadState} {x : (uartFraming.Phase × ℕ) × Memory UInt8}
    (h : Related s x) (h' : Related s' x) (hiff : s.request = 0 ↔ s'.request = 0) :
  owed s = owed s'
  := by
  have hbuf : ∀ {s : ThreadState}, Related s x → s.request = 0 → s.buf = x.2 := by
    rintro s ⟨aligned, -, -⟩ hrequest
    obtain ⟨⟨t, n⟩, m⟩ := x
    cases aligned with
    | empty state recvLen last lenTemp buf => exact buf
    | filling lo hi got left sized state recvLen last lenTemp stored =>
        simp only [ThreadState.request, state, lenTemp, last] at hrequest
        omega
    | hunting state => exact absurd hrequest (request_pos (by simp [state]))
    | secondByte state => exact absurd hrequest (request_pos (by simp [state]))
    | sizing state => exact absurd hrequest (request_pos (by simp [state]))
    | halfSized _ state => exact absurd hrequest (request_pos (by simp [state]))
  by_cases hrequest : s.request = 0
  · have hrequest' := hiff.mp hrequest
    simp only [owed, if_pos hrequest, if_pos hrequest', hbuf h hrequest, hbuf h' hrequest']
  · rw [owed_of_pos hrequest, owed_of_pos (fun h => hrequest (hiff.mpr h))]

/-- However a stream is cut into reads, the same frames are handed over and called back.
At the end of the stream both threads have been given the answer to a read of size zero,
or neither has. -/
theorem deliveries_unique {errorBuff : Memory UInt8} {pieces pieces' : List (List UInt8)}
    (hsame : pieces.flatten = pieces'.flatten)
    (hcuts : recvingThread.Cuts (.start errorBuff) pieces)
    (hcuts' : recvingThread.Cuts (.start errorBuff) pieces')
    (hend : (recvingThread.final (.start errorBuff) (pieces.map .data)).request = 0
      ↔ (recvingThread.final (.start errorBuff) (pieces'.map .data)).request = 0) :
  (recvingThread.output (.start errorBuff) (pieces.map .data)).filterMap delivery
    = (recvingThread.output (.start errorBuff) (pieces'.map .data)).filterMap delivery
  := by
  have hstart := related_start errorBuff
  rw [← Reader.cuts_observe delivery] at hcuts hcuts'
  have hrel := simulates.rel_final hstart hcuts
  have hrel' := simulates.rel_final hstart hcuts'
  rw [← hsame] at hrel'
  have hout := simulates.output_unique hstart hsame hcuts hcuts' (by
    apply owed_eq hrel hrel'
    simpa only [Reader.final_observe] using hend)
  simpa only [Reader.output_observe] using hout

/-- A frame that is cut in two ways. -/
theorem deliveries_unique_split :
  (recvingThread.output (.start fun _ => 0)
      ([[0x01, 0xAA], [0xAA], [0x02, 0x00], [0x07, 0x08], [0x09, 0xAA]].map .data)).filterMap
        delivery
    = (recvingThread.output (.start fun _ => 0)
      ([[0x01], [0xAA, 0xAA], [0x02], [0x00], [0x07], [0x08], [0x09], [0xAA]].map
        .data)).filterMap delivery
  := by
  apply deliveries_unique
  · decide
  · decide
  · decide
  · decide

/-! ### Streams of frames -/

/-- The bytes of a list of frames, each preceded by some noise. -/
def wireStream (segments : List (List UInt8 × WireFrame)) : List UInt8 :=
  uartFraming.stream (segments.map (fun x => (x.1, x.2.toFrame)))

/-- A frame as a correct sender makes it is called back with its bytes. -/
theorem calledBack_deliveries (f : WireFrame) {pFrame : UartFrame}
    (h : pFrame.slice 0 f.toFrame.bytes.length = f.toFrame.bytes) :
  (deliveries pFrame).filterMap calledBack = [pFrame] ∧ pFrame.bytes = f.toFrame.bytes
  := by
  constructor
  · simp only [deliveries, handleRecvData_events, checkRecvData_wireFrame f h]
    rfl
  · apply bytes_of_slice h

/-- Frames as a correct sender makes them are called back one by one. -/
theorem calledBack_deliverer : ∀ (m : Memory UInt8) (frames : List WireFrame),
    ((deliverer.output m (frames.map (·.toFrame))).filterMap calledBack).map UartFrame.bytes
      = frames.map (·.toFrame.bytes)
  | _, [] => rfl
  | m, f :: frames => by
      have hslice : (m.write 0 f.toFrame.bytes).slice 0 f.toFrame.bytes.length
          = f.toFrame.bytes := Memory.slice_write_self m 0 _
      obtain ⟨hcalled, hbytes⟩ := calledBack_deliveries f hslice
      have hrest := calledBack_deliverer (m.write 0 f.toFrame.bytes) frames
      simp only [List.map_cons, Scanner.output, List.filterMap_append, deliverer, hcalled,
        List.map_append, List.map_nil, hbytes]
      simp only [deliverer] at hrest
      rw [hrest]
      rfl

theorem calledBack_of_delivery (events : List Event) :
  (events.filterMap delivery).filterMap calledBack = events.filterMap calledBack
  := by
  rw [List.filterMap_filterMap]
  apply List.filterMap_congr
  intro e _
  cases e with
  | _ => rfl

/-- The last frame delivered had a payload. -/
def LastNotEmpty (m : Memory UInt8) : Prop :=
  UartFrame.magic m = uartFrameMagicNumber → UartFrame.length m ≠ 0

/-- Unless the last frame was empty, the thread does not await a read of size zero. -/
theorem Related.request_ne_zero {s : ThreadState}
    {x : (uartFraming.Phase × ℕ) × Memory UInt8} (h : Related s x) (hlast : LastNotEmpty x.2) :
  s.request ≠ 0
  := by
  obtain ⟨⟨t, n⟩, m⟩ := x
  obtain ⟨aligned, -, -⟩ := h
  cases aligned with
  | empty state recvLen last lenTemp buf magic length => exact absurd length (hlast magic)
  | filling lo hi got left sized state recvLen last lenTemp stored =>
      simp only [ThreadState.request, state, lenTemp, last]
      omega
  | hunting state => exact request_pos (by simp [state])
  | secondByte state => exact request_pos (by simp [state])
  | sizing state => exact request_pos (by simp [state])
  | halfSized _ state => exact request_pos (by simp [state])

section

variable {segments : List (List UInt8 × WireFrame)}
  (hnoise : ∀ x ∈ segments, 0xAA ∉ x.1 ∧ x.1.length ≤ commBufferMaxLen)

include hnoise

theorem magic_notMem_noise :
  ∀ x ∈ segments.map (fun x => (x.1, x.2.toFrame)), uartFraming.magic ∉ x.1
  := by
  rintro _ hx
  obtain ⟨x, hmem, rfl⟩ := List.mem_map.mp hx
  apply (hnoise x hmem).1

theorem output_wireStream :
  uartFraming.scanner.output (.hunting 0) (wireStream segments) = segments.map (·.2.toFrame)
  := by
  rw [wireStream, (Framing.output_stream (by decide) (magic_notMem_noise hnoise)).2,
    List.map_map]
  rfl

/-- On the stream the scanner never counts more bytes than the noise and the frame make,
and never delivers an empty frame. -/
theorem throughout_wireStream :
  uartScanner.Throughout
    (fun x => x.1.2 ≤ recvErrMax ∧ LastNotEmpty x.2)
    ((.hunting 0, 0), fun _ => 0) (wireStream segments)
  := by
  apply Scanner.Throughout.and
  · apply (Scanner.throughout_andThen (S := uartFraming.scanner.counting) deliverer
      (P := fun x => x.2 ≤ recvErrMax)).mpr
    apply Framing.throughout_count (by decide) (magic_notMem_noise hnoise)
    intro _ hx
    obtain ⟨x, hmem, rfl⟩ := List.mem_map.mp hx
    have hlen := (hnoise x hmem).2
    have hpayload := frame_payload_le x.2.toFrame
    have hmax : uartFrameMaxSize = 344 := rfl
    have hbuf : commBufferMaxLen = 2048 := rfl
    have hbefore : uartFrameSizeBeforeWithLength = 4 := rfl
    have hprint : recvErrMax = 2713 := rfl
    simp only [frame_length_bytes]
    omega
  · apply Scanner.throughout_andThen_right (S := uartFraming.scanner.counting) deliverer
      (E := fun f => f.payload.length ≠ 0)
    · intro m f _ hf _
      have hslice : (m.write 0 f.bytes).slice 0 f.bytes.length = f.bytes :=
        Memory.slice_write_self m 0 _
      simp only [deliverer, length_of_slice hslice]
      exact hf
    · intro hmagic
      simp [UartFrame.magic, UartFrame.field16, uartFrameMagicNumber] at hmagic
    · intro f hf
      rw [Scanner.output_counting, output_wireStream hnoise] at hf
      obtain ⟨x, -, rfl⟩ := List.mem_map.mp hf
      have hheader := x.2.header
      simp only [uartFrameSizeAfterLength] at hheader
      omega

section

variable {errorBuff : Memory UInt8} {pieces : List (List UInt8)}
  (hstream : pieces.flatten = wireStream segments)
  (hcuts : recvingThread.Cuts (.start errorBuff) pieces)

include hstream hcuts

theorem output_frames :
  (recvingThread.output (.start errorBuff) (pieces.map .data)).filterMap delivery
    = deliverer.output (fun _ => 0) (segments.map (·.2.toFrame))
  := by
  have hstart := related_start errorBuff
  have hthroughout := (throughout_wireStream hnoise).final
  rw [← Reader.cuts_observe delivery] at hcuts
  have hrel := simulates.rel_final hstart hcuts
  rw [hstream] at hrel
  have hend := hrel.request_ne_zero hthroughout.2
  have hout := simulates.output_eq hstart (owed_of_pos (request_pos (by
    simp [ThreadState.start]))) hcuts hend
  rw [Reader.output_observe] at hout
  rw [hout, hstream, uartScanner, Scanner.output_andThen, Scanner.output_counting,
    output_wireStream hnoise]

theorem along_noise_le :
  recvingThread.Along
    (fun s r => (0 ≤ r.len ∧ 0 ≤ s.errorBuffOffset) ∧ s.errorBuffOffset ≤ recvErrMax)
    (.start errorBuff) (pieces.map .data)
  := by
  have hthroughout := throughout_wireStream hnoise
  rw [← Reader.cuts_observe delivery] at hcuts
  rw [← hstream] at hthroughout
  rw [← Reader.along_observe delivery]
  apply simulates.along _ (related_start errorBuff) hcuts hthroughout
  rintro s x p hrel ⟨hcount, hlast⟩ _
  have hle := hrel.noise_le (hrel.request_ne_zero hlast)
  and_intros
  · apply Int.natCast_nonneg
  · apply hrel.noise_nonneg
  · omega

theorem along_inBounds :
  recvingThread.Along (fun s r => s.ReadInBounds ∧ ∀ e ∈ (s.iterate r).2, e.InBounds)
    (.start errorBuff) (pieces.map .data)
  := by
  have hpossible := Reader.possible_of_cuts hcuts
  have hnoise' := along_noise_le hnoise hstream hcuts
  rw [← Reader.along_recording ThreadState.since _ _ []] at hnoise' ⊢
  apply Reader.along_mono _ (Reader.along_and hnoise' (along_gathered _ hpossible
    (P := fun x r => Gathered x.1 x.2 ∧ r.bytes.length ≤ x.1.request)))
  · rintro x r ⟨⟨⟨hlen, hnonneg⟩, hmax⟩, hgathered, hr⟩
    constructor
    · apply hgathered.readInBounds
    · apply hgathered.inBounds hr hlen hnonneg hmax
  · intro s w r hgathered hr
    exact ⟨hgathered, hr⟩

/-- However a stream of frames with noise between them is cut into reads, every frame is
called back once, in order, with its bytes, and nothing else is; and the thread stays inside
its arrays. -/
theorem calledBack_frames :
  ((recvingThread.output (.start errorBuff) (pieces.map .data)).filterMap calledBack).map
      UartFrame.bytes = segments.map (·.2.toFrame.bytes) ∧
    recvingThread.Along (fun s r => s.ReadInBounds ∧ ∀ e ∈ (s.iterate r).2, e.InBounds)
      (.start errorBuff) (pieces.map .data)
  := by
  constructor
  · have hframes := calledBack_deliverer (fun _ => 0) (segments.map (·.2))
    rw [List.map_map, List.map_map] at hframes
    rw [← calledBack_of_delivery, output_frames hnoise hstream hcuts]
    apply hframes
  · apply along_inBounds hnoise hstream hcuts

end

end

/-- The frame after an odd number of bytes of noise, its rest cut in two. -/
theorem calledBack_emptyFrame :
  ((recvingThread.output (.start fun _ => 0)
      ([[0x01, 0xAA], [0xAA], [0x10], [0x00], [0, 0, 0],
        [0, 0, 0, 0, 0, 0, 0, 0, 0, 0, 0, 0x55, 0x45]].map .data)).filterMap calledBack).map
      UartFrame.bytes = [emptyFrame.toFrame.bytes]
  := (calledBack_frames (show ∀ x ∈ [([0x01], emptyFrame)],
    (0xAA : UInt8) ∉ x.1 ∧ x.1.length ≤ commBufferMaxLen by decide) (by decide) (by decide)).1

end SerialPort
