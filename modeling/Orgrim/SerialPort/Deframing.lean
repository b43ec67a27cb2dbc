import Orgrim.SerialPort.Iteration

/-!
# The receiving thread finds the frames

What `recvingThread` delivers, seen as a function of the stream of bytes alone: the frames
found by `uartFraming.scanner`, each written over the memory the frames before it have left
(`deliverer`).  `simulates` says that the thread simulates this scanner, so that the cutting
of the stream into reads does not matter.
-/

namespace SerialPort

/-! ### What is delivered -/

/-- The handing over of a frame and the callback it leads to, if any. -/
def deliveries (pFrame : UartFrame) : List Event :=
  .handed pFrame :: (handleRecvData pFrame).2.2.filterMap delivery

/-- The scanner of frames that delivers each one in the memory the frames before it have
left. -/
def deliverer : Scanner (Memory UInt8) uartFraming.Frame Event where
  feed m f := (m.write 0 f.bytes, deliveries (m.write 0 f.bytes))

/-- The scanner of a stream of bytes: the frames, counting the bytes since the last one,
and their deliveries. -/
def uartScanner : Scanner ((uartFraming.Phase × ℕ) × Memory UInt8) UInt8 Event :=
  uartFraming.scanner.counting.andThen deliverer

theorem filterMap_delivery_handOver (s : ThreadState) :
  s.handOver.2.filterMap delivery = deliveries s.buf
  := by
  simp only [ThreadState.handOver, deliveries]
  split
  · rfl
  · rfl

/-! ### The relation of thread and scanner -/

/-- `buf` holds the bytes `bs` of a frame that is being received, and behind them, header
apart, what `m` holds. -/
structure Stored (buf : Memory UInt8) (bs : List UInt8) (m : Memory UInt8) : Prop where
  head : buf.slice 0 bs.length = bs
  tail : ∀ i, uartFrameSizeBeforeWithLength ≤ i → bs.length ≤ i → buf i = m i

namespace Stored

variable {buf m : Memory UInt8} {bs : List UInt8}

theorem append (h : Stored buf bs m) (p : List UInt8) :
  Stored (buf.write bs.length p) (bs ++ p) m
  := by
  constructor
  · have hslice := Memory.slice_write_append buf 0 bs.length p
    rw [h.head, Nat.zero_add] at hslice
    rw [List.length_append, hslice]
  · intro i hi hle
    rw [List.length_append] at hle
    rw [Memory.write_apply_of_le _ _ hle]
    apply h.tail i hi (by omega)

/-- A header that is given up is forgotten. -/
theorem forget (h : Stored buf bs m) (hbs : bs.length ≤ uartFrameSizeBeforeWithLength) :
  Stored buf [] m
  := by
  constructor
  · rfl
  · intro i hi _
    apply h.tail i hi (by omega)

/-- A whole frame is the memory `m` with the frame written over it. -/
theorem eq_write (h : Stored buf bs m) (hbs : uartFrameSizeBeforeWithLength ≤ bs.length) :
  buf = m.write 0 bs
  := by
  funext i
  by_cases hi : i < bs.length
  · have hcell := Memory.apply_of_slice_eq h.head hi
    rw [Memory.write_apply_of_mem _ _ (Nat.zero_le i) (by omega)]
    rw [List.getElem?_eq_getElem hi] at hcell
    exact (Option.some.inj hcell).symm
  · rw [Memory.write_apply_of_le _ _ (by omega)]
    apply h.tail i (by omega) (by omega)

theorem self (m : Memory UInt8) : Stored m [] m := ⟨rfl, fun _ _ _ => rfl⟩

end Stored

/-- The variables of the thread agree with the phase of the scanner and with the memory
left by the last frame delivered. -/
inductive Aligned : ThreadState → uartFraming.Phase → Memory UInt8 → Prop where
  | hunting {s m} (state : s.state = .waitMagicNumber) (recvLen : s.recvLen = 0)
      (last : s.last = 0) (stored : Stored s.buf [] m) : Aligned s (.hunting 0) m
  | secondByte {s m} (state : s.state = .waitMagicNumberSecondByte) (recvLen : s.recvLen = 1)
      (last : s.last = 0) (stored : Stored s.buf [0xAA] m) : Aligned s (.hunting 1) m
  | sizing {s m} (state : s.state = .waitLength) (recvLen : s.recvLen = 2)
      (last : s.last = 0) (stored : Stored s.buf [0xAA, 0xAA] m) : Aligned s .sizing m
  | halfSized {s m} (lo : UInt8) (state : s.state = .waitLengthSecondByte)
      (recvLen : s.recvLen = 3) (last : s.last = 0) (lenTemp : s.lenTemp = lo.toNat)
      (stored : Stored s.buf [0xAA, 0xAA, lo] m) : Aligned s (.halfSized lo) m
  | filling {s m} (lo hi : UInt8) (got : List UInt8) (left : ℕ)
      (sized : uartFraming.payloadLen lo hi = some (got.length + (left + 1)))
      (state : s.state = .waitRestFrameAndData) (recvLen : s.recvLen = 4)
      (last : s.last = got.length) (lenTemp : s.lenTemp = got.length + (left + 1))
      (stored : Stored s.buf (0xAA :: 0xAA :: lo :: hi :: got) m) :
      Aligned s (.filling lo hi got left sized) m
  /-- a frame without payload is delivered when its length is known, but handed over only
  by the next iteration -/
  | empty {s m} (state : s.state = .waitRestFrameAndData) (recvLen : s.recvLen = 4)
      (last : s.last = 0) (lenTemp : s.lenTemp = 0) (buf : s.buf = m)
      (magic : UartFrame.magic m = uartFrameMagicNumber) (length : UartFrame.length m = 0) :
      Aligned s (.hunting 0) m

/-- The relation of thread and scanner; the noise kept is never more than what was received
since the last frame. -/
structure Related (s : ThreadState) (x : (uartFraming.Phase × ℕ) × Memory UInt8) : Prop where
  aligned : Aligned s x.1.1 x.2
  noise_nonneg : 0 ≤ s.errorBuffOffset
  noise_le : s.request ≠ 0 → s.errorBuffOffset ≤ x.1.2

/-- What the thread delivers as soon as its read of size zero returns. -/
def owed (s : ThreadState) : List Event :=
  if s.request = 0 then deliveries s.buf else []

theorem related_start (errorBuff : Memory UInt8) :
  Related (.start errorBuff) ((.hunting 0, 0), fun _ => 0)
  := by
  constructor
  · exact .hunting rfl rfl rfl (.self _)
  · apply Int.le_refl
  · intro _
    apply Int.le_refl

/-- More bytes since the last frame leave room for the noise. -/
theorem Related.of_le {s : ThreadState} {t : uartFraming.Phase} {n n' : ℕ}
    {m : Memory UInt8} (aligned : Aligned s t m) (hnonneg : 0 ≤ s.errorBuffOffset)
    (hle : s.errorBuffOffset ≤ n) (hn : n ≤ n') :
  Related s ((t, n'), m)
  := by
  constructor
  · exact aligned
  · exact hnonneg
  · intro _
    apply Int.le_trans hle (Int.ofNat_le.mpr hn)

/-! ### The scanner, one byte at a time -/

section

variable (n : ℕ) (m : Memory UInt8)

@[simp]
theorem feed_hunting_zero (b : UInt8) :
  uartScanner.feed ((.hunting 0, n), m) b
    = (((if b = 0xAA then .hunting 1 else .hunting 0, n + 1), m), [])
  := by
  by_cases hb : b = 0xAA
  · subst hb
    rfl
  · have hb' : b ≠ uartFraming.magic := hb
    simp only [uartScanner, Scanner.andThen, Scanner.counting, Framing.scanner, if_neg hb,
      if_neg hb']
    rfl

@[simp]
theorem feed_hunting_one (b : UInt8) :
  uartScanner.feed ((.hunting 1, n), m) b
    = (((if b = 0xAA then .sizing else .hunting 0, n + 1), m), [])
  := by
  by_cases hb : b = 0xAA
  · subst hb
    rfl
  · have hb' : b ≠ uartFraming.magic := hb
    simp only [uartScanner, Scanner.andThen, Scanner.counting, Framing.scanner, if_neg hb,
      if_neg hb']
    rfl

@[simp]
theorem feed_sizing (b : UInt8) :
  uartScanner.feed ((.sizing, n), m) b = (((.halfSized b, n + 1), m), [])
  := rfl

theorem feed_halfSized_none {lo hi : UInt8} (h : uartFraming.payloadLen lo hi = none) :
  uartScanner.feed ((.halfSized lo, n), m) hi = (((.hunting 0, n + 1), m), [])
  := by
  simp only [uartScanner, Scanner.andThen, Scanner.counting, Framing.scanner,
    Framing.sized_none h]
  rfl

theorem feed_halfSized_zero {lo hi : UInt8} (h : uartFraming.payloadLen lo hi = some 0) :
  uartScanner.feed ((.halfSized lo, n), m) hi
    = (((.hunting 0, 0), m.write 0 [0xAA, 0xAA, lo, hi]),
        deliveries (m.write 0 [0xAA, 0xAA, lo, hi]))
  := by
  simp only [uartScanner, Scanner.andThen, Scanner.counting, Framing.scanner,
    Framing.sized_zero h, Scanner.final, Scanner.output, deliverer, frame_bytes,
    List.append_nil, List.isEmpty_cons, Bool.false_eq_true, if_false]

theorem feed_halfSized_succ {lo hi : UInt8} {left : ℕ}
    (h : uartFraming.payloadLen lo hi = some (left + 1)) :
  uartScanner.feed ((.halfSized lo, n), m) hi
    = (((.filling lo hi [] left (by simpa using h), n + 1), m), [])
  := by
  simp only [uartScanner, Scanner.andThen, Scanner.counting, Framing.scanner,
    Framing.sized_succ _ _ _ h]
  rfl

end

/-! ### One iteration -/

theorem owed_of_pos {s : ThreadState} (h : s.request ≠ 0) :
  owed s = []
  := if_neg h

theorem request_pos {s : ThreadState} (state : s.state ≠ .waitRestFrameAndData) :
  s.request ≠ 0
  := by
  cases h : s.state with
  | waitRestFrameAndData => exact absurd h state
  | _ => simp [ThreadState.request, h]

/-- The iteration with the piece `p` keeps thread and scanner related, and delivers what
the scanner outputs. -/
def Follows (s : ThreadState) (x : (uartFraming.Phase × ℕ) × Memory UInt8) (p : List UInt8) :
    Prop :=
  Related (s.iterate (.data p)).1 (uartScanner.final x p) ∧
    (s.iterate (.data p)).2.filterMap delivery ++ owed (s.iterate (.data p)).1
      = owed s ++ uartScanner.output x p

section

variable {s : ThreadState} {n : ℕ} {m : Memory UInt8}
  (hnonneg : 0 ≤ s.errorBuffOffset)

include hnonneg

/-- Bytes that are discarded while the thread hunts keep it related. -/
theorem related_discard {k : ℕ} (state : s.state = .waitMagicNumber) (recvLen : s.recvLen = 0)
    (last : s.last = 0) (stored : Stored s.buf [] m) (hle : s.errorBuffOffset + k ≤ n) :
  Related (s.discard k).1 ((.hunting 0, n), m)
  := by
  constructor
  · exact .hunting state recvLen last stored
  · simp only [ThreadState.discard]
    omega
  · intro _
    exact hle

/-- A frame that is handed over leaves no noise. -/
theorem related_handOver :
  Related s.handOver.1 ((.hunting 0, n), s.buf)
  := by
  rw [ThreadState.handOver_fst hnonneg]
  apply Related.of_le (n := 0)
  · exact .hunting rfl rfl rfl (.self _)
  · apply Int.le_refl 0
  · apply Int.le_refl 0
  · apply Nat.zero_le n

/-- With both bytes of the length the thread does what the scanner does. -/
theorem follows_lengthKnown {lo hi : UInt8} {p : List UInt8}
    (state : s.state = .waitRestFrameAndData) (recvLen : s.recvLen = 4) (last : s.last = 0)
    (lenTemp : s.lenTemp = lo.toNat + 2 ^ 8 * hi.toNat)
    (stored : Stored s.buf [0xAA, 0xAA, lo, hi] m)
    (hle : s.errorBuffOffset + p.length ≤ n + 1) :
  Related (s.onLengthKnown (.data p)).1 (uartScanner.feed ((.halfSized lo, n), m) hi).1 ∧
    (s.onLengthKnown (.data p)).2.filterMap delivery ++ owed (s.onLengthKnown (.data p)).1
      = (uartScanner.feed ((.halfSized lo, n), m) hi).2
  := by
  by_cases hmax : s.lenTemp > uartFrameMaxSize
  · have hnone : uartFraming.payloadLen lo hi = none := by
      simp only [uartFraming, ← lenTemp]
      apply if_neg
      omega
    rw [ThreadState.onLengthKnown, if_pos hmax, feed_halfSized_none n m hnone]
    constructor
    · apply related_discard (s := s.restart) hnonneg rfl rfl last
        (stored.forget (Nat.le_refl 4)) hle
    · rfl
  · have hsome : uartFraming.payloadLen lo hi = some s.lenTemp :=
      payloadLen_eq_some.mpr ⟨lenTemp.symm, by omega⟩
    rw [ThreadState.onLengthKnown, if_neg hmax]
    cases hlen : s.lenTemp with
    | zero =>
        rw [hlen] at hsome
        have hbuf := stored.eq_write (Nat.le_refl 4)
        have hslice := stored.head
        have hrequest : s.request = 0 := by
          simp only [ThreadState.request, state, hlen, Nat.zero_sub]
        rw [feed_halfSized_zero n m hsome, ← hbuf]
        constructor
        · constructor
          · apply Aligned.empty state recvLen last hlen rfl
            · apply magic_of_slice (f := ⟨lo, hi, [], hsome⟩) hslice
            · apply length_of_slice (f := ⟨lo, hi, [], hsome⟩) hslice
          · exact hnonneg
          · exact fun h => absurd hrequest h
        · simp only [owed, if_pos hrequest, List.filterMap_nil, List.nil_append]
    | succ left =>
        rw [hlen] at hsome
        have hrequest : s.request ≠ 0 := by
          simp only [ThreadState.request, state, hlen, last]
          omega
        rw [feed_halfSized_succ n m hsome]
        constructor
        · constructor
          · apply Aligned.filling lo hi [] left _ state recvLen last (by simpa using hlen) stored
          · exact hnonneg
          · intro _
            have hcount : s.errorBuffOffset ≤ (n + 1 : ℕ) := by
              omega
            exact hcount
        · simp only [owed_of_pos hrequest, List.filterMap_nil, List.nil_append]

theorem follows_magicNumber {p : List UInt8} (state : s.state = .waitMagicNumber)
    (recvLen : s.recvLen = 0) (last : s.last = 0) (stored : Stored s.buf [] m)
    (hp : p ≠ []) (hlen : p.length ≤ 2) (hle : s.errorBuffOffset ≤ n) :
  Follows s ((.hunting 0, n), m) p
  := by
  have hrequest : s.request ≠ 0 := request_pos (by simp [state])
  rw [Follows, owed_of_pos hrequest]
  rcases eq_one_or_two hp hlen with ⟨a, rfl⟩ | ⟨a, b, rfl⟩
  · have hstored := stored.append [a]
    rw [ThreadState.iterate_magicNumber_one state]
    simp only [Scanner.final, Scanner.output, feed_hunting_zero, List.append_nil]
    by_cases ha : a = 0xAA
    · subst ha
      simp only [if_pos]
      constructor
      · apply Related.of_le (n := n)
        · exact .secondByte rfl (congrArg (· + 1) recvLen) last hstored
        · exact hnonneg
        · exact hle
        · apply Nat.le_succ n
      · rfl
    · simp only [if_neg ha]
      constructor
      · apply related_discard (s := { s with buf := s.buf.write 0 [a] }) (k := 1) hnonneg
          state recvLen last (hstored.forget (by simp [uartFrameSizeBeforeWithLength]))
        simp only
        omega
      · rw [owed_of_pos (request_pos (by simp [ThreadState.discard, state]))]
        rfl
  · have hstored := stored.append [a, b]
    rw [ThreadState.iterate_magicNumber_two state]
    simp only [Scanner.final, Scanner.output, feed_hunting_zero, List.append_nil]
    by_cases hb : b = 0xAA
    · subst hb
      by_cases ha : a = 0xAA
      · subst ha
        simp only [if_pos, feed_hunting_one]
        constructor
        · apply Related.of_le (n := n)
          · exact .sizing rfl (congrArg (· + 2) recvLen) last hstored
          · exact hnonneg
          · exact hle
          · apply Nat.le_add_right n 2
        · rfl
      · simp only [if_pos, if_neg ha, feed_hunting_zero]
        constructor
        · apply Related.of_le (n := n)
          · exact .secondByte rfl (congrArg (· + 1) recvLen) last
              ((hstored.forget (by simp [uartFrameSizeBeforeWithLength])).append [0xAA])
          · exact hnonneg
          · exact hle
          · apply Nat.le_add_right n 2
        · rfl
    · simp only [if_neg hb]
      have hscan : uartScanner.feed ((if a = 0xAA then .hunting 1 else .hunting 0, n + 1), m) b
          = (((.hunting 0, n + 2), m), []) := by
        split
        · rw [feed_hunting_one, if_neg hb]
        · rw [feed_hunting_zero, if_neg hb]
      rw [hscan]
      constructor
      · apply related_discard (s := { s with buf := s.buf.write 0 [a, b] }) (k := 2) hnonneg
          state recvLen last (hstored.forget (by simp [uartFrameSizeBeforeWithLength]))
        simp only
        omega
      · rw [owed_of_pos (request_pos (by simp [ThreadState.discard, state]))]
        rfl

theorem follows_secondByte {p : List UInt8} (state : s.state = .waitMagicNumberSecondByte)
    (recvLen : s.recvLen = 1) (last : s.last = 0) (stored : Stored s.buf [0xAA] m)
    (hp : p.length = 1) (hle : s.errorBuffOffset ≤ n) :
  Follows s ((.hunting 1, n), m) p
  := by
  have hrequest : s.request ≠ 0 := request_pos (by simp [state])
  rw [Follows, owed_of_pos hrequest]
  obtain ⟨a, rfl⟩ := List.length_eq_one_iff.mp hp
  have hstored := stored.append [a]
  rw [ThreadState.iterate_secondByte_one state]
  simp only [Scanner.final, Scanner.output, feed_hunting_one, List.append_nil, recvLen]
  by_cases ha : a = 0xAA
  · subst ha
    simp only [if_pos]
    constructor
    · apply Related.of_le (n := n)
      · exact .sizing rfl rfl last hstored
      · exact hnonneg
      · exact hle
      · apply Nat.le_succ n
    · rfl
  · simp only [if_neg ha]
    constructor
    · apply related_discard (s := ThreadState.restart { s with buf := s.buf.write 1 [a] })
        (k := 1) hnonneg rfl rfl last (hstored.forget (by simp [uartFrameSizeBeforeWithLength]))
      simp only [ThreadState.restart]
      omega
    · rw [owed_of_pos (request_pos (by simp [ThreadState.discard, ThreadState.restart]))]
      rfl

theorem follows_length {p : List UInt8} (state : s.state = .waitLength)
    (recvLen : s.recvLen = 2) (last : s.last = 0) (stored : Stored s.buf [0xAA, 0xAA] m)
    (hp : p ≠ []) (hlen : p.length ≤ 2) (hle : s.errorBuffOffset ≤ n) :
  Follows s ((.sizing, n), m) p
  := by
  have hrequest : s.request ≠ 0 := request_pos (by simp [state])
  rw [Follows, owed_of_pos hrequest]
  rcases eq_one_or_two hp hlen with ⟨lo, rfl⟩ | ⟨lo, hi, rfl⟩
  · have hstored := stored.append [lo]
    rw [ThreadState.iterate_length_one state]
    simp only [Scanner.final, Scanner.output, feed_sizing, List.append_nil, recvLen]
    constructor
    · apply Related.of_le (n := n)
      · exact .halfSized lo rfl rfl last rfl hstored
      · exact hnonneg
      · exact hle
      · apply Nat.le_succ n
    · rfl
  · have hstored := stored.append [lo, hi]
    rw [ThreadState.iterate_length_two state]
    simp only [Scanner.final, Scanner.output, feed_sizing, List.append_nil,
      List.nil_append, recvLen]
    apply follows_lengthKnown
    · exact hnonneg
    · rfl
    · rfl
    · exact last
    · rfl
    · exact hstored
    · simp only [List.length_cons, List.length_nil]
      omega

theorem follows_halfSized {lo : UInt8} {p : List UInt8}
    (state : s.state = .waitLengthSecondByte) (recvLen : s.recvLen = 3) (last : s.last = 0)
    (lenTemp : s.lenTemp = lo.toNat) (stored : Stored s.buf [0xAA, 0xAA, lo] m)
    (hp : p.length = 1) (hle : s.errorBuffOffset ≤ n) :
  Follows s ((.halfSized lo, n), m) p
  := by
  have hrequest : s.request ≠ 0 := request_pos (by simp [state])
  rw [Follows, owed_of_pos hrequest]
  obtain ⟨hi, rfl⟩ := List.length_eq_one_iff.mp hp
  have hstored := stored.append [hi]
  rw [ThreadState.iterate_lengthSecondByte_one state]
  simp only [Scanner.final, Scanner.output, List.append_nil, List.nil_append, recvLen, lenTemp]
  apply follows_lengthKnown
  · exact hnonneg
  · rfl
  · rfl
  · exact last
  · rfl
  · exact hstored
  · simp only [List.length_cons, List.length_nil]
    omega

/-- The rest of a frame, or a part of it. -/
theorem follows_filling {lo hi : UInt8} {got : List UInt8} {left : ℕ}
    (sized : uartFraming.payloadLen lo hi = some (got.length + (left + 1))) {p : List UInt8}
    (state : s.state = .waitRestFrameAndData) (recvLen : s.recvLen = 4)
    (last : s.last = got.length) (lenTemp : s.lenTemp = got.length + (left + 1))
    (stored : Stored s.buf (0xAA :: 0xAA :: lo :: hi :: got) m)
    (hp : p ≠ []) (hlen : p.length ≤ left + 1) (hle : s.errorBuffOffset ≤ n) :
  Follows s ((.filling lo hi got left sized, n), m) p
  := by
  have hrequest : s.request ≠ 0 := by
    simp only [ThreadState.request, state, lenTemp, last]
    omega
  have hpos := List.length_pos_iff.mpr hp
  have htarget : s.recvLen + s.last = (0xAA :: 0xAA :: lo :: hi :: got).length := by
    simp only [recvLen, last, List.length_cons]
    omega
  have hstored := stored.append p
  rw [← htarget] at hstored
  rw [Follows, owed_of_pos hrequest]
  have hfinal : uartScanner.final ((.filling lo hi got left sized, n), m) p
      = (uartFraming.scanner.counting.final (.filling lo hi got left sized, n) p,
        deliverer.final m (uartFraming.scanner.output (.filling lo hi got left sized) p)) := by
    rw [uartScanner, Scanner.final_andThen, Scanner.output_counting]
  have houtput : uartScanner.output ((.filling lo hi got left sized, n), m) p
      = deliverer.output m (uartFraming.scanner.output (.filling lo hi got left sized) p) := by
    rw [uartScanner, Scanner.output_andThen, Scanner.output_counting]
  rw [hfinal, houtput]
  by_cases hshort : p.length ≤ left
  · obtain ⟨hphase, hnone⟩ := Framing.final_filling_of_le p sized hshort
    rw [Scanner.final_counting_of_output_nil hnone, hphase, hnone,
      ThreadState.iterate_rest_short state hp (by omega)]
    constructor
    · apply Related.of_le (n := n)
      · apply Aligned.filling lo hi (got ++ p) (left - p.length)
        · exact state
        · exact recvLen
        · simp only [last, List.length_append]
        · simp only [lenTemp, List.length_append]
          omega
        · exact hstored
      · exact hnonneg
      · exact hle
      · apply Nat.le_add_right n _
    · rw [owed_of_pos]
      · rfl
      · simp only [ThreadState.request, state, lenTemp, last]
        omega
  · have hwhole : p.length = left + 1 := by
      omega
    obtain ⟨hphase, hframe⟩ := Framing.counting_filling n p sized hwhole
    have hover : ¬ ((ReadResult.data p).len < (s.lenTemp : ℤ) - s.last
        ∧ (ReadResult.data p).len > 0) := by
      simp only [ReadResult.len_data]
      omega
    have hbuf := hstored.eq_write (by simp [uartFrameSizeBeforeWithLength])
    rw [hphase, hframe, ThreadState.iterate_rest_over state hover,
      filterMap_delivery_handOver, owed_of_pos (request_pos (by simp [ThreadState.handOver]))]
    simp only [ReadResult.bytes_data, Scanner.final, Scanner.output, deliverer, frame_bytes,
      List.append_nil, List.nil_append]
    constructor
    · have hrel := related_handOver
        (s := { s with buf := s.buf.write (s.recvLen + s.last) p }) (n := 0) hnonneg
      simpa only [hbuf, List.cons_append] using hrel
    · simp only [hbuf, List.cons_append]

end

/-- The zero read that hands a frame without payload over. -/
theorem follows_empty {s : ThreadState} {n : ℕ} {m : Memory UInt8}
    (hnonneg : 0 ≤ s.errorBuffOffset) (state : s.state = .waitRestFrameAndData)
    (lenTemp : s.lenTemp = 0) (buf : s.buf = m) :
  Follows s ((.hunting 0, n), m) []
  := by
  have hrequest : s.request = 0 := by
    simp only [ThreadState.request, state, lenTemp, Nat.zero_sub]
  have hover : ¬ ((ReadResult.data ([] : List UInt8)).len < (s.lenTemp : ℤ) - s.last
      ∧ (ReadResult.data ([] : List UInt8)).len > 0) := by
    simp
  rw [Follows, ThreadState.iterate_rest_over state hover, filterMap_delivery_handOver,
    owed_of_pos (request_pos (by simp [ThreadState.handOver])), owed, if_pos hrequest]
  simp only [ReadResult.bytes_data, Memory.write_nil]
  constructor
  · rw [← buf]
    apply related_handOver hnonneg
  · rfl

/-! ### The thread simulates the scanner -/

/-- A piece is followed in every state. -/
theorem Related.follows {s : ThreadState} {x : (uartFraming.Phase × ℕ) × Memory UInt8}
    (h : Related s x) {p : List UInt8} (hlen : p.length ≤ s.request)
    (hnil : p = [] → s.request = 0) :
  Follows s x p
  := by
  obtain ⟨⟨t, n⟩, m⟩ := x
  obtain ⟨aligned, hnonneg, hnoise⟩ := h
  have hpos : s.request ≠ 0 → 0 < p.length := by
    intro h
    apply List.length_pos_iff.mpr
    intro hp
    apply h (hnil hp)
  cases aligned with
  | hunting state recvLen last stored =>
      have hrequest : s.request = 2 := by
        simp only [ThreadState.request, state]
      have hp := hpos (by omega)
      apply follows_magicNumber hnonneg state recvLen last stored
      · apply List.length_pos_iff.mp hp
      · omega
      · apply hnoise (by omega)
  | secondByte state recvLen last stored =>
      have hrequest : s.request = 1 := by
        simp only [ThreadState.request, state]
      have hp := hpos (by omega)
      apply follows_secondByte hnonneg state recvLen last stored
      · omega
      · apply hnoise (by omega)
  | sizing state recvLen last stored =>
      have hrequest : s.request = 2 := by
        simp only [ThreadState.request, state]
      have hp := hpos (by omega)
      apply follows_length hnonneg state recvLen last stored
      · apply List.length_pos_iff.mp hp
      · omega
      · apply hnoise (by omega)
  | halfSized lo state recvLen last lenTemp stored =>
      have hrequest : s.request = 1 := by
        simp only [ThreadState.request, state]
      have hp := hpos (by omega)
      apply follows_halfSized hnonneg state recvLen last lenTemp stored
      · omega
      · apply hnoise (by omega)
  | filling lo hi got left sized state recvLen last lenTemp stored =>
      have hrequest : s.request = left + 1 := by
        simp only [ThreadState.request, state, lenTemp, last]
        omega
      have hp := hpos (by omega)
      apply follows_filling hnonneg sized state recvLen last lenTemp stored
      · apply List.length_pos_iff.mp hp
      · omega
      · apply hnoise (by omega)
  | empty state recvLen last lenTemp buf =>
      have hrequest : s.request = 0 := by
        simp only [ThreadState.request, state, lenTemp, Nat.zero_sub]
      obtain rfl : p = [] := by
        apply List.eq_nil_of_length_eq_zero
        omega
      apply follows_empty hnonneg state lenTemp buf

/-- Along any cutting of any stream, `recvingThread` delivers what `uartScanner` outputs. -/
theorem simulates :
  Simulates (recvingThread.observe delivery) uartScanner Related owed
  := by
  constructor
  · intro s x p hrel hlen hnil
    apply hrel.follows hlen hnil
  · intro s h
    apply owed_of_pos h

end SerialPort
