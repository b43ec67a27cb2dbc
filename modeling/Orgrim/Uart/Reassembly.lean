import Orgrim.Uart.Receiver

/-!
# The receiving threads reassemble the frames

A copy of `RecvThread` that does not clear its buffer and computes the length in the same
way however it is read simulates the scanner of the frames (`simulates`): on a stream of
frames with noise between them it receives exactly the frames, however the stream is cut
into reads (`receptions_eq`).
-/

namespace Uart

/-- The frames on the wire: one magic byte, the 16-bit length, high byte first, and one byte
more than it says. -/
def uartFraming : Framing UInt8 where
  magic := magicNumber
  marks := 1
  payloadLen hi lo := some (2 ^ 8 * hi.toNat + lo.toNat + 1)

theorem frame_bytes (f : uartFraming.Frame) :
  f.bytes = magicNumber :: f.len₁ :: f.len₂ :: f.payload
  := rfl

/-- The scanner of a stream of bytes that outputs the bytes of each frame. -/
def frameScanner : Scanner (uartFraming.Phase × Unit) UInt8 (List UInt8) :=
  uartFraming.scanner.andThen (.mapping Framing.Frame.bytes)

/-- The variables of the thread agree with the phase of the scanner. -/
inductive Aligned (V : Variant) : RecvThread → uartFraming.Phase → Prop where
  | hunting {s : RecvThread} (state : s.state = .magic) (recvLen : s.recvLen = 0)
      (last : s.last = 0) : Aligned V s (.hunting 0)
  | sizing {s : RecvThread} (state : s.state = .length) (recvLen : s.recvLen = 1)
      (last : s.last = 0) (stored : s.buf.slice 0 1 = [magicNumber]) : Aligned V s .sizing
  | halfSized {s : RecvThread} (hi : UInt8) (state : s.state = .lengthSecondByte)
      (recvLen : s.recvLen = 2) (last : s.last = 0) (lenTemp : s.lenTemp = V.lenFirst hi)
      (stored : s.buf.slice 0 2 = [magicNumber, hi]) : Aligned V s (.halfSized hi)
  | filling {s : RecvThread} (hi lo : UInt8) (got : List UInt8) (left : ℕ)
      (sized : uartFraming.payloadLen hi lo = some (got.length + (left + 1)))
      (state : s.state = .rest) (recvLen : s.recvLen = 3) (last : s.last = got.length)
      (lenTemp : s.lenTemp = got.length + (left + 1))
      (stored : s.buf.slice 0 (3 + got.length) = magicNumber :: hi :: lo :: got) :
      Aligned V s (.filling hi lo got left sized)

/-- The payloads announced have at most `2 ^ 16` bytes. -/
theorem payloadLen_le {hi lo : UInt8} {n : ℕ} (h : uartFraming.payloadLen hi lo = some n) :
  n ≤ 2 ^ 16
  := by
  have hhi := hi.toNat_lt
  have hlo := lo.toNat_lt
  obtain rfl := Option.some.inj h
  omega

theorem request_filling {s : RecvThread} {got : List UInt8} {hi lo : UInt8} {left : ℕ}
    (sized : uartFraming.payloadLen hi lo = some (got.length + (left + 1)))
    (state : s.state = .rest) (last : s.last = got.length)
    (lenTemp : s.lenTemp = got.length + (left + 1)) :
  Variant.request s = left + 1
  := by
  have hle := payloadLen_le sized
  simp only [Variant.request, state, last, lenTemp]
  omega

/-- Every `read` stays inside the buffer if the frame announced does. -/
theorem Aligned.readInBounds {V : Variant} {s : RecvThread} {t : uartFraming.Phase}
    (h : Aligned V s t) (hbuf : 3 ≤ V.bufLen) (ht : t.announced + 3 ≤ V.bufLen) :
  V.ReadInBounds s
  := by
  rw [Variant.ReadInBounds]
  cases h with
  | hunting state recvLen last =>
      simp only [Variant.target, Variant.request, state]
      omega
  | sizing state recvLen last stored =>
      simp only [Variant.target, Variant.request, state, recvLen]
      omega
  | halfSized hi state recvLen last lenTemp stored =>
      simp only [Variant.target, Variant.request, state, recvLen]
      omega
  | filling hi lo got left sized state recvLen last lenTemp stored =>
      rw [request_filling sized state last lenTemp]
      simp only [Framing.Phase.announced] at ht
      simp only [Variant.target, state, recvLen, last]
      omega

section

variable {V : Variant} (hkeeps : V.clears = false) (hmasked : V.Masked)

/-- What the thread shows of a frame it has received. -/
def shown (x : Reception) : Option (List UInt8) := some x.bytes

/-- The iteration with the piece `p` keeps thread and scanner aligned, and receives what the
scanner outputs. -/
def Follows (V : Variant) (s : RecvThread) (t : uartFraming.Phase) (p : List UInt8) : Prop :=
  Aligned V (V.iterate s (.data p)).1 (uartFraming.scanner.final t p) ∧
    (V.iterate s (.data p)).2.filterMap shown
      = (uartFraming.scanner.output t p).map Framing.Frame.bytes

variable {s : RecvThread}

include hkeeps

theorem received_eq (p : List UInt8) :
  V.received s (.data p) = { s with buf := s.buf.write (Variant.target s) p }
  := by
  rw [Variant.received, Variant.top_of_keeps hkeeps, ReadResult.bytes_data]

theorem follows_magic {p : List UInt8} (state : s.state = .magic) (recvLen : s.recvLen = 0)
    (last : s.last = 0) (hp : p.length = 1) :
  Follows V s (.hunting 0) p
  := by
  obtain ⟨a, rfl⟩ := List.length_eq_one_iff.mp hp
  have htarget : Variant.target s = 0 := by
    simp only [Variant.target, state]
  rw [Follows, Variant.iterate_magic state, received_eq hkeeps, htarget]
  by_cases ha : a = magicNumber
  · subst ha
    rw [if_pos rfl]
    constructor
    · exact .sizing rfl (congrArg (· + 1) recvLen) last (Memory.slice_write_self _ 0 _)
    · rfl
  · have hmagic : a ≠ uartFraming.magic := ha
    rw [if_neg ha]
    simp only [Scanner.final, Scanner.output, Framing.scanner, if_neg hmagic]
    constructor
    · exact .hunting state recvLen last
    · rfl

include hmasked

theorem follows_length {p : List UInt8} (state : s.state = .length) (recvLen : s.recvLen = 1)
    (last : s.last = 0) (stored : s.buf.slice 0 1 = [magicNumber])
    (hp : p ≠ []) (hlen : p.length ≤ 2) :
  Follows V s .sizing p
  := by
  have htarget : Variant.target s = 1 := by
    simp only [Variant.target, state, recvLen]
  rw [Follows]
  rcases eq_one_or_two hp hlen with ⟨hi, rfl⟩ | ⟨hi, lo, rfl⟩
  · have hstored := Memory.slice_write_append s.buf 0 1 [hi]
    rw [stored] at hstored
    rw [Variant.iterate_length_one state, received_eq hkeeps, htarget]
    constructor
    · exact .halfSized hi rfl (congrArg (· + 1) recvLen) last rfl hstored
    · rfl
  · have hstored := Memory.slice_write_append s.buf 0 1 [hi, lo]
    rw [stored] at hstored
    rw [Variant.iterate_length_two state, received_eq hkeeps, htarget]
    simp only [Scanner.final, Scanner.output, Framing.scanner,
      Framing.sized_succ (F := uartFraming) hi lo _ rfl]
    constructor
    · apply Aligned.filling hi lo [] _ _ rfl
      · exact congrArg (· + 2) recvLen
      · exact last
      · rw [hmasked.both]
        simp
      · exact hstored
    · rfl

theorem follows_lengthSecondByte {p : List UInt8} {hi : UInt8}
    (state : s.state = .lengthSecondByte) (recvLen : s.recvLen = 2) (last : s.last = 0)
    (lenTemp : s.lenTemp = V.lenFirst hi) (stored : s.buf.slice 0 2 = [magicNumber, hi])
    (hp : p.length = 1) :
  Follows V s (.halfSized hi) p
  := by
  obtain ⟨lo, rfl⟩ := List.length_eq_one_iff.mp hp
  have htarget : Variant.target s = 2 := by
    simp only [Variant.target, state, recvLen]
  have hstored := Memory.slice_write_append s.buf 0 2 [lo]
  rw [stored] at hstored
  rw [Follows, Variant.iterate_lengthSecondByte state, received_eq hkeeps, htarget]
  simp only [Scanner.final, Scanner.output, Framing.scanner,
    Framing.sized_succ (F := uartFraming) hi lo _ rfl]
  constructor
  · apply Aligned.filling hi lo [] _ _ rfl
    · exact congrArg (· + 1) recvLen
    · exact last
    · rw [lenTemp, hmasked.split]
      simp
    · exact hstored
  · rfl

omit hmasked

theorem follows_rest {p : List UInt8} {hi lo : UInt8} {got : List UInt8} {left : ℕ}
    (sized : uartFraming.payloadLen hi lo = some (got.length + (left + 1)))
    (state : s.state = .rest) (recvLen : s.recvLen = 3) (last : s.last = got.length)
    (lenTemp : s.lenTemp = got.length + (left + 1))
    (stored : s.buf.slice 0 (3 + got.length) = magicNumber :: hi :: lo :: got)
    (hp : p ≠ []) (hlen : p.length ≤ left + 1) :
  Follows V s (.filling hi lo got left sized) p
  := by
  have htarget : Variant.target s = 3 + got.length := by
    simp only [Variant.target, state, recvLen, last]
  have hstored := Memory.slice_write_append s.buf 0 (3 + got.length) p
  rw [stored, Nat.zero_add] at hstored
  rw [Follows]
  by_cases hshort : p.length ≤ left
  · obtain ⟨hphase, hnone⟩ := Framing.final_filling_of_le p sized hshort
    rw [hphase, hnone, Variant.iterate_rest_short state hp (by omega), received_eq hkeeps,
      htarget]
    constructor
    · apply Aligned.filling hi lo (got ++ p) (left - p.length)
      · exact state
      · exact recvLen
      · simp only [last, List.length_append]
      · simp only [lenTemp, List.length_append]
        omega
      · rw [List.length_append, ← Nat.add_assoc]
        exact hstored
    · rfl
  · have hwhole : p.length = left + 1 := by
      omega
    obtain ⟨hphase, hframe⟩ := Framing.counting_filling 0 p sized hwhole
    rw [← Scanner.final_counting _ 0, hphase, hframe, Variant.iterate_rest_over state (by
      simp only [ReadResult.len_data]
      omega), received_eq hkeeps, htarget]
    constructor
    · exact .hunting rfl rfl rfl
    · have hlength : ((s.recvLen : ℤ) + s.lenTemp).toNat = 3 + got.length + p.length := by
        omega
      simp only [List.filterMap_cons, List.filterMap_nil, shown, Reception.bytes, hlength,
        hstored, List.map_cons, List.map_nil, frame_bytes, List.cons_append]

include hmasked

/-- A piece that a read may return is followed. -/
theorem Aligned.follows {t : uartFraming.Phase} (haligned : Aligned V s t) {p : List UInt8}
    (hlen : p.length ≤ Variant.request s) (hnil : p = [] → Variant.request s = 0) :
  Follows V s t p
  := by
  have hpos : Variant.request s ≠ 0 → 0 < p.length := by
    intro h
    apply List.length_pos_iff.mpr
    intro hp
    apply h (hnil hp)
  cases haligned with
  | hunting state recvLen last =>
      have hrequest : Variant.request s = 1 := by
        simp only [Variant.request, state]
      have hp := hpos (by omega)
      apply follows_magic hkeeps state recvLen last
      omega
  | sizing state recvLen last stored =>
      have hrequest : Variant.request s = 2 := by
        simp only [Variant.request, state]
      have hp := hpos (by omega)
      apply follows_length hkeeps hmasked state recvLen last stored
      · apply List.length_pos_iff.mp hp
      · omega
  | halfSized hi state recvLen last lenTemp stored =>
      have hrequest : Variant.request s = 1 := by
        simp only [Variant.request, state]
      have hp := hpos (by omega)
      apply follows_lengthSecondByte hkeeps hmasked state recvLen last lenTemp stored
      omega
  | filling hi lo got left sized state recvLen last lenTemp stored =>
      have hrequest := request_filling sized state last lenTemp
      have hp := hpos (by omega)
      apply follows_rest hkeeps sized state recvLen last lenTemp stored
      · apply List.length_pos_iff.mp hp
      · omega

/-- Along any cutting of any stream, the thread receives what `frameScanner` outputs. -/
theorem simulates :
  Simulates (V.recvThread.observe shown) frameScanner (fun s x => Aligned V s x.1)
    (fun _ => [])
  := by
  constructor
  · rintro s ⟨t, _⟩ p haligned hlen hnil
    have hfollows := haligned.follows hkeeps hmasked hlen hnil
    rw [frameScanner, Scanner.final_andThen, Scanner.output_andThen, Scanner.output_mapping,
      List.append_nil, List.nil_append]
    exact hfollows
  · intro s _
    rfl

/-- However a stream of frames with noise between them is cut into reads, exactly the frames
are received, in order. -/
theorem receptions_eq {buf : Memory UInt8} {pieces : List (List UInt8)}
    {segments : List (List UInt8 × uartFraming.Frame)}
    (hnoise : ∀ x ∈ segments, magicNumber ∉ x.1)
    (hstream : pieces.flatten = uartFraming.stream segments)
    (hcuts : V.recvThread.Cuts (.start buf) pieces) :
  (V.recvThread.output (.start buf) (pieces.map .data)).map Reception.bytes
    = segments.map (·.2.bytes)
  := by
  have hstart : Aligned V (.start buf) (.hunting 0) := .hunting rfl rfl rfl
  rw [← Reader.cuts_observe shown] at hcuts
  have hout := (simulates hkeeps hmasked).output_owed (t := (.hunting 0, ())) hstart hcuts
  rw [Reader.output_observe, hstream, frameScanner, Scanner.output_andThen,
    Scanner.output_mapping, (Framing.output_stream (by decide) hnoise).2, List.append_nil,
    List.nil_append, List.map_map] at hout
  rw [← List.filterMap_eq_map]
  apply hout

/-- Every `read` on such a stream stays inside the buffer if the frames fit into it. -/
theorem along_readInBounds {buf : Memory UInt8} {pieces : List (List UInt8)}
    {segments : List (List UInt8 × uartFraming.Frame)}
    (hnoise : ∀ x ∈ segments, magicNumber ∉ x.1)
    (hfits : ∀ x ∈ segments, x.2.bytes.length ≤ V.bufLen) (hbuf : 3 ≤ V.bufLen)
    (hstream : pieces.flatten = uartFraming.stream segments)
    (hcuts : V.recvThread.Cuts (.start buf) pieces) :
  V.recvThread.Along (fun s _ => V.ReadInBounds s) (.start buf) (pieces.map .data)
  := by
  have hstart : Aligned V (.start buf) (.hunting 0) := .hunting rfl rfl rfl
  have hannounced : uartFraming.scanner.Throughout
      (fun t => t.announced ≤ V.bufLen - 3) (.hunting 0) pieces.flatten := by
    rw [hstream]
    apply Framing.throughout_announced (by decide) hnoise
    intro x hx
    have hlen := hfits x hx
    simp only [frame_bytes, List.length_cons] at hlen
    omega
  rw [← Reader.cuts_observe shown] at hcuts
  rw [← Reader.along_observe shown]
  apply (simulates hkeeps hmasked).along (t := (.hunting 0, ())) _ hstart hcuts
    ((Scanner.throughout_andThen _).mpr hannounced)
  intro s x p haligned hle _
  apply haligned.readInBounds hbuf
  omega

end

end Uart
