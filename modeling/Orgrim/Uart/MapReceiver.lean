import Orgrim.Uart.Reassembly

/-!
# The receiver of the map transfer

`map_send_test.c`: its `RecvThread` masks the first length byte where it reads both at once, but
multiplies by the mask where it reads the first one alone.  For a first length byte 0 this makes
no difference; for any other the thread goes on to wait for more than 16 million bytes.

`joined` is the copy with the mask in both places.  A cutting of a stream of frames that fit into
the buffer is published as `joined` does exactly if no complete frame longer than 255 has its
length bytes read apart (`published_iff_of_aligned`); and all cuttings of a stream are published
alike exactly if there is no such frame in it (`published_alike_iff`).
-/

namespace Uart

namespace MapSendTest

/-- `UART_BUFF_MEX_LEN` -/
def uartBuffMexLen : ℕ := 512

/-- `(c << 8) * 0xFF00` -/
def highMultiplied (c : UInt8) : ℤ := ((charToInt c <<< 8) * 0xFF00#32).toInt

end MapSendTest

open MapSendTest in
/-- `RecvThread` of `map_send_test.c` -/
def mapSendTest : Variant where
  bufLen := uartBuffMexLen
  clears := false
  lenFirst := highMultiplied
  lenBoth hi lo := highMasked hi + lowMasked lo
  lenSecond := lowMasked

namespace MapSendTest

/-- The copy with the mask in both places. -/
def joined : Variant := { mapSendTest with lenFirst := highMasked }

/-- What is published of a reception: the contents of `g_ReadBuff`, up to `g_ReadBuffLen`, and
`g_ReadBuffLen`. -/
def published (x : Reception) : List UInt8 × ℤ := (x.bytes, x.recvLen)

/-- What is published of a frame. -/
def publishedFrame (f : uartFraming.Frame) : List UInt8 × ℤ := (f.bytes, f.bytes.length)

/-- The frames of a stream fit into the buffer, the last one included if it is not complete. -/
def FramesFit (t : uartFraming.Phase) (stream : List UInt8) : Prop :=
  uartFraming.scanner.Throughout (fun t => t.announced + 3 ≤ uartBuffMexLen) t stream

/-- What is left of a stream after a first length byte `hi` starts with the second one and the
whole payload. -/
def Completes (hi : UInt8) (stream : List UInt8) : Prop :=
  ∃ lo payload more, stream = lo :: (payload ++ more) ∧
    uartFraming.payloadLen hi lo = some payload.length

/-- Somewhere in a cutting the first length byte of a complete frame longer than 255 is read
alone. -/
def SplitsLong (s : RecvThread) : List (List UInt8) → Prop
  | [] => False
  | p :: ps =>
      (s.state = .length ∧ ∃ hi, p = [hi] ∧ hi ≠ 0 ∧ Completes hi ps.flatten) ∨
        SplitsLong (mapSendTest.iterate s (.data p)).1 ps

theorem highMultiplied_eq (c : UInt8) :
  highMultiplied c
    = if c.toNat < 2 ^ 7 then 0xFF0000 * (c.toNat : ℤ) else 0xFF0000 * ((c.toNat : ℤ) - 2 ^ 8)
  := by
  have hall : ∀ i : Fin (2 ^ 8), highMultiplied (UInt8.ofFin i)
      = if i.val < 2 ^ 7 then 0xFF0000 * (i.val : ℤ) else 0xFF0000 * ((i.val : ℤ) - 2 ^ 8) := by
    decide +kernel
  apply hall c.toFin

theorem lenFirst_eq :
  mapSendTest.lenFirst = highMultiplied
  := by
  simp only [mapSendTest]

theorem masked : joined.Masked
  := by
  constructor
  · intro hi lo
    simp only [joined, mapSendTest, highMasked_eq, lowMasked_eq]
    omega
  · intro hi lo
    simp only [joined, mapSendTest, highMasked_eq, lowMasked_eq]
    omega

theorem toNat_pos {c : UInt8} (h : c ≠ 0) :
  0 < c.toNat
  := by
  apply Nat.pos_of_ne_zero
  intro hzero
  apply h (UInt8.toNat_inj.mp hzero)

/-! ### Where the copies agree -/

/-- The read `r` is of a first length byte alone, and it is not 0. -/
def Apart (s : RecvThread) (r : ReadResult UInt8) : Prop :=
  s.state = .length ∧ ∃ hi, r = .data [hi] ∧ hi ≠ 0

theorem received_joined (s : RecvThread) (r : ReadResult UInt8) :
  joined.received s r = mapSendTest.received s r
  := by
  rw [Variant.received, Variant.top_of_keeps rfl, Variant.received, Variant.top_of_keeps rfl]

theorem lenFirst_joined :
  joined.lenFirst 0 = mapSendTest.lenFirst 0
  := by
  simp only [joined, mapSendTest, highMasked_eq, highMultiplied_eq]
  rfl

theorem lenBoth_joined :
  joined.lenBoth = mapSendTest.lenBoth
  := rfl

theorem lenSecond_joined :
  joined.lenSecond = mapSendTest.lenSecond
  := rfl

/-- Only then do the two copies differ. -/
theorem iterate_joined {s : RecvThread} {r : ReadResult UInt8} (h : ¬ Apart s r) :
  mapSendTest.iterate s r = joined.iterate s r
  := by
  cases state : s.state with
  | length =>
      by_cases hone : r.len = 1
      · have hhi : ∃ hi, r = .data [hi] := by
          cases r with
          | error => cases hone
          | data p =>
              obtain ⟨hi, rfl⟩ := List.length_eq_one_iff.mp (Int.ofNat_inj.mp hone)
              use hi
        obtain ⟨hi, rfl⟩ := hhi
        have hzero : hi = 0 := by
          by_contra hne
          apply h ⟨state, hi, rfl, hne⟩
        subst hzero
        rw [Variant.iterate_length_one state, Variant.iterate_length_one state, received_joined,
          lenFirst_joined]
      · simp only [Variant.iterate, Variant.onLength, state, if_neg hone, received_joined,
          lenBoth_joined]
  | magic => simp only [Variant.iterate, state, received_joined]
  | lengthSecondByte =>
      simp only [Variant.iterate, Variant.onLengthSecondByte, state, received_joined,
        lenSecond_joined]
  | rest => simp only [Variant.iterate, state, received_joined]

/-- With the bytes of a frame its length is published. -/
theorem published_eq {x : Reception} {f : uartFraming.Frame} (h : x.bytes = f.bytes) :
  published x = publishedFrame f
  := by
  have hlen := congrArg List.length h
  rw [Reception.bytes, Memory.length_slice] at hlen
  have hpos : 0 < f.bytes.length := by
    rw [frame_bytes, List.length_cons]
    apply Nat.succ_pos _
  rw [published, publishedFrame, h, ← hlen]
  congr 1
  omega

theorem map_published_eq {xs : List Reception} {fs : List uartFraming.Frame}
    (h : xs.map Reception.bytes = fs.map Framing.Frame.bytes) :
  xs.map published = fs.map publishedFrame
  := by
  induction xs generalizing fs with
  | nil =>
      obtain rfl := List.map_eq_nil_iff.mp h.symm
      rfl
  | cons x xs ih =>
      cases fs with
      | nil => cases h
      | cons f fs =>
          obtain ⟨hx, hxs⟩ := List.cons.inj h
          rw [List.map_cons, List.map_cons, published_eq hx, ih hxs]

/-- What an iteration does with a piece that does not show the difference. -/
theorem follows_of_not_apart {s : RecvThread} {t : uartFraming.Phase} {p : List UInt8}
    (haligned : Aligned joined s t) (hapart : ¬ Apart s (.data p))
    (hlen : p.length ≤ Variant.request s) (hnil : p = [] → Variant.request s = 0) :
  Aligned joined (mapSendTest.iterate s (.data p)).1 (uartFraming.scanner.final t p) ∧
    (mapSendTest.iterate s (.data p)).2.map published
      = (uartFraming.scanner.output t p).map publishedFrame
  := by
  rw [iterate_joined hapart]
  obtain ⟨haligned', hout⟩ := haligned.follows rfl masked hlen hnil
  use haligned'
  apply map_published_eq
  have hshown : shown = some ∘ Reception.bytes := rfl
  rw [← hout, hshown, List.filterMap_eq_map]

/-! ### What follows a first length byte -/

/-- A frame that is complete is found. -/
theorem output_of_completes {hi : UInt8} {stream : List UInt8} (h : Completes hi stream) :
  ∃ f fs rest, uartFraming.scanner.output (.halfSized hi) stream = f :: fs ∧ f.len₁ = hi ∧
    stream = f.len₂ :: rest
  := by
  obtain ⟨lo, payload, more, rfl, hsized⟩ := h
  obtain ⟨left, hleft⟩ : ∃ left, payload.length = left + 1 := by
    have hlen := Option.some.inj hsized
    exact ⟨_, hlen.symm⟩
  have hsized' : uartFraming.payloadLen hi lo = some (left + 1) := by
    rw [hsized, hleft]
  have hnothing : uartFraming.payloadLen hi lo = some (([] : List UInt8).length + (left + 1)) := by
    rw [hsized', List.length_nil, Nat.zero_add]
  obtain ⟨-, hframe⟩ := Framing.counting_filling (F := uartFraming) 0 payload hnothing hleft
  simp only [Scanner.output, Framing.scanner, Framing.sized_succ hi lo left hsized',
    List.nil_append]
  have hout := Scanner.output_append (S := uartFraming.scanner)
    (.filling hi lo [] left (by rw [hsized', List.length_nil, Nat.zero_add])) payload more
  rw [hframe] at hout
  exact ⟨_, _, _, hout, rfl, rfl⟩

/-- A frame that is not complete is longer than the stream. -/
theorem length_le_of_not_completes {hi lo : UInt8} {stream : List UInt8}
    (h : ¬ Completes hi (lo :: stream)) :
  stream.length ≤ 2 ^ 8 * hi.toNat + lo.toNat
  := by
  by_contra hlong
  apply h
  use lo, stream.take (2 ^ 8 * hi.toNat + lo.toNat + 1),
    stream.drop (2 ^ 8 * hi.toNat + lo.toNat + 1)
  rw [List.take_append_drop, List.length_take, Nat.min_eq_left (by omega)]
  exact ⟨rfl, rfl⟩

/-- A frame that is not complete is not found, nor is any other. -/
theorem output_of_not_completes {hi : UInt8} {stream : List UInt8}
    (h : ¬ Completes hi stream) :
  uartFraming.scanner.output (.halfSized hi) stream = []
  := by
  cases stream with
  | nil => rfl
  | cons lo stream =>
      have hshort := length_le_of_not_completes h
      simp only [Scanner.output, Framing.scanner,
        Framing.sized_succ (F := uartFraming) hi lo _ rfl, List.nil_append]
      exact (Framing.final_filling_of_le stream _ hshort).2

/-- The length of a frame that fits, once it is known. -/
theorem length_le_of_framesFit {hi lo : UInt8} {stream : List UInt8}
    (h : FramesFit (.halfSized hi) (lo :: stream)) :
  2 ^ 8 * hi.toNat + lo.toNat + 4 ≤ uartBuffMexLen
  := by
  have hhead := h.2.head
  simp only [Framing.scanner, Framing.sized_succ (F := uartFraming) hi lo _ rfl,
    Framing.Phase.announced, List.length_nil] at hhead
  omega

/-! ### A length that is too large -/

section

variable {s : RecvThread} {pieces : List (List UInt8)}

/-- What is read while more is expected is not nothing. -/
theorem ne_nil_of_request {p : List UInt8} {ps : List (List UInt8)} (state : s.state = .rest)
    (hlen : s.last < s.lenTemp) (hmax : s.lenTemp < 2 ^ 64)
    (hcuts : mapSendTest.recvThread.Cuts s (p :: ps)) :
  p ≠ []
  := by
  obtain ⟨⟨-, hnil⟩, -⟩ := hcuts
  intro hp
  have hrequest := hnil hp
  simp only [Variant.recvThread_request, Variant.request, state] at hrequest
  omega

/-- Where the length is larger than what is left of the stream, nothing more is published. -/
theorem output_of_missing (state : s.state = .rest)
    (hlen : s.last + pieces.flatten.length < s.lenTemp) (hmax : s.lenTemp < 2 ^ 64)
    (hcuts : mapSendTest.recvThread.Cuts s pieces) :
  mapSendTest.recvThread.output s (pieces.map .data) = [] ∧ ¬ SplitsLong s pieces
  := by
  induction pieces generalizing s with
  | nil => exact ⟨rfl, id⟩
  | cons p ps ih =>
      rw [List.flatten_cons, List.length_append] at hlen
      have hp := ne_nil_of_request state (by omega) hmax hcuts
      have hiter := Variant.iterate_rest_short (V := mapSendTest) state hp (by omega)
      have hps := hcuts.2
      simp only [Variant.recvThread_step, hiter] at hps
      have hrest := ih (s := { mapSendTest.received s (.data p) with last := s.last + p.length })
        (by simp only [Variant.received, Variant.top_state, state])
        (by simp only [Variant.received, Variant.top_lenTemp]; omega)
        (by simp only [Variant.received, Variant.top_lenTemp]; omega) hps
      constructor
      · simp only [List.map_cons, Reader.output, Variant.recvThread_step, hiter, hrest.1,
          List.append_nil]
      · rintro (⟨hstate, -⟩ | hsplit)
        · cases state.symm.trans hstate
        · rw [hiter] at hsplit
          exact hrest.2 hsplit

/-- What is published next has the length that has been computed. -/
theorem recvLen_head (state : s.state = .rest) (hlen : s.last < s.lenTemp)
    (hmax : s.lenTemp < 2 ^ 64) (hcuts : mapSendTest.recvThread.Cuts s pieces) :
  ∀ x ∈ (mapSendTest.recvThread.output s (pieces.map .data)).head?,
    x.recvLen = s.recvLen + s.lenTemp
  := by
  induction pieces generalizing s with
  | nil =>
      intro x hx
      cases hx
  | cons p ps ih =>
      have hp := ne_nil_of_request state hlen hmax hcuts
      by_cases hshort : (p.length : ℤ) < s.lenTemp - s.last
      · have hiter := Variant.iterate_rest_short (V := mapSendTest) state hp hshort
        have hps := hcuts.2
        simp only [Variant.recvThread_step, hiter] at hps
        have hrest := ih
          (s := { mapSendTest.received s (.data p) with last := s.last + p.length })
          (by simp only [Variant.received, Variant.top_state, state])
          (by simp only [Variant.received, Variant.top_lenTemp]; omega)
          (by simp only [Variant.received, Variant.top_lenTemp]; omega) hps
        simpa only [List.map_cons, Reader.output, Variant.recvThread_step, hiter,
          List.nil_append, Variant.received, Variant.top_lenTemp, Variant.top_recvLen] using hrest
      · have hiter := Variant.iterate_rest_over (V := mapSendTest) (r := .data p) state (by
          simp only [ReadResult.len_data]
          omega)
        intro x hx
        simp only [List.map_cons, Reader.output, Variant.recvThread_step, hiter,
          List.cons_append, List.head?_cons, Option.mem_some_iff] at hx
        rw [← hx]

/-- The first length byte `hi` has been read alone. -/
structure Misled (s : RecvThread) (hi : UInt8) : Prop where
  state : s.state = .lengthSecondByte
  recvLen : s.recvLen = 2
  last : s.last = 0
  lenTemp : s.lenTemp = highMultiplied hi

variable {hi : UInt8}

/-- The next read is of the second length byte, and the length is taken to be larger than the
buffer. -/
theorem Misled.second {p : List UInt8} {ps : List (List UInt8)} (hs : Misled s hi) (hhi : hi ≠ 0)
    (hcuts : mapSendTest.recvThread.Cuts s (p :: ps))
    (hfits : FramesFit (.halfSized hi) (p :: ps).flatten) :
  ∃ lo s', p = [lo] ∧ mapSendTest.iterate s (.data p) = (s', []) ∧ s'.state = .rest ∧
    s'.recvLen = 3 ∧ s'.last = 0 ∧ 2 ^ 20 < s'.lenTemp ∧ s'.lenTemp < 2 ^ 64 ∧
    mapSendTest.recvThread.Cuts s' ps
  := by
  obtain ⟨⟨hle, hnil⟩, hps⟩ := hcuts
  have hrequest : mapSendTest.recvThread.request s = 1 := by
    simp only [Variant.recvThread_request, Variant.request, hs.state]
  rw [hrequest] at hle hnil
  have hp : p ≠ [] := by
    intro hp
    cases hnil hp
  obtain ⟨lo, rfl⟩ := eq_singleton hp hle
  have hlen := length_le_of_framesFit hfits
  have hpos := toNat_pos hhi
  rw [uartBuffMexLen] at hlen
  have hlenTemp : s.lenTemp + mapSendTest.lenSecond lo
      = 0xFF0000 * (hi.toNat : ℤ) + lo.toNat + 1 := by
    rw [hs.lenTemp, highMultiplied_eq, if_pos (by omega)]
    simp only [mapSendTest, lowMasked_eq]
    omega
  have hiter := Variant.iterate_lengthSecondByte (V := mapSendTest) hs.state lo
  simp only [Variant.recvThread_step, hiter] at hps
  refine ⟨lo, _, rfl, hiter, rfl, ?_, ?_, ?_, ?_, hps⟩
  · simp only [hs.recvLen]
  · simp only [Variant.received, Variant.top_last, hs.last]
  · simp only [hlenTemp]
    omega
  · simp only [hlenTemp]
    omega

/-- If the frame is not complete, nothing more is published. -/
theorem Misled.output_eq_nil (hs : Misled s hi) (hhi : hi ≠ 0)
    (hcuts : mapSendTest.recvThread.Cuts s pieces)
    (hfits : FramesFit (.halfSized hi) pieces.flatten) (hno : ¬ Completes hi pieces.flatten) :
  mapSendTest.recvThread.output s (pieces.map .data) = [] ∧ ¬ SplitsLong s pieces
  := by
  cases pieces with
  | nil => exact ⟨rfl, id⟩
  | cons p ps =>
      obtain ⟨lo, s', rfl, hiter, state, -, last, hlarge, hmax, hps⟩ :=
        hs.second hhi hcuts hfits
      have hlen := length_le_of_framesFit hfits
      rw [uartBuffMexLen] at hlen
      have hshort : ps.flatten.length ≤ 2 ^ 8 * hi.toNat + lo.toNat :=
        length_le_of_not_completes hno
      have hrest := output_of_missing state (by rw [last]; omega) hmax hps
      constructor
      · simp only [List.map_cons, Reader.output, Variant.recvThread_step, hiter, hrest.1,
          List.append_nil]
      · rintro (⟨hstate, -⟩ | hsplit)
        · cases hs.state.symm.trans hstate
        · rw [hiter] at hsplit
          exact hrest.2 hsplit

/-- What is published next does not fit into the buffer. -/
theorem Misled.recvLen_head (hs : Misled s hi) (hhi : hi ≠ 0)
    (hcuts : mapSendTest.recvThread.Cuts s pieces)
    (hfits : FramesFit (.halfSized hi) pieces.flatten) :
  ∀ x ∈ (mapSendTest.recvThread.output s (pieces.map .data)).head?,
    (uartBuffMexLen : ℤ) < x.recvLen
  := by
  cases pieces with
  | nil =>
      intro x hx
      cases hx
  | cons p ps =>
      obtain ⟨lo, s', rfl, hiter, state, recvLen, last, hlarge, hmax, hps⟩ :=
        hs.second hhi hcuts hfits
      intro x hx
      simp only [List.map_cons, Reader.output, Variant.recvThread_step, hiter,
        List.nil_append] at hx
      rw [MapSendTest.recvLen_head state (by omega) hmax hps x hx, uartBuffMexLen]
      omega

/-- If the frame is complete, it is not what is published next. -/
theorem Misled.published_ne (hs : Misled s hi) (hhi : hi ≠ 0)
    (hcuts : mapSendTest.recvThread.Cuts s pieces)
    (hfits : FramesFit (.halfSized hi) pieces.flatten) (hcomplete : Completes hi pieces.flatten) :
  (mapSendTest.recvThread.output s (pieces.map .data)).map published
    ≠ (uartFraming.scanner.output (.halfSized hi) pieces.flatten).map publishedFrame
  := by
  obtain ⟨f, fs, rest, hout, rfl, hstream⟩ := output_of_completes hcomplete
  intro heq
  rw [hout, List.map_cons] at heq
  obtain ⟨x, xs, hxs, hx, -⟩ := List.map_eq_cons_iff.mp heq
  have hlarge := hs.recvLen_head hhi hcuts hfits x (by rw [hxs]; rfl)
  rw [hstream] at hfits
  have hlen := length_le_of_framesFit hfits
  have hsized := Option.some.inj f.sized
  have hrecvLen : x.recvLen = f.bytes.length := congrArg Prod.snd hx
  rw [frame_bytes] at hrecvLen
  simp only [List.length_cons] at hrecvLen
  omega

end

/-! ### One cutting -/

theorem final_sizing (hi : UInt8) :
  uartFraming.scanner.final .sizing [hi] = .halfSized hi
  := rfl

theorem output_sizing (hi : UInt8) :
  uartFraming.scanner.output .sizing [hi] = []
  := rfl

/-- Where the first length byte is read alone, the thread is misled. -/
theorem misled_of_apart {s : RecvThread} {t : uartFraming.Phase} (hi : UInt8)
    (haligned : Aligned joined s t) (state : s.state = .length) :
  t = .sizing ∧ Misled (mapSendTest.iterate s (.data [hi])).1 hi ∧
    (mapSendTest.iterate s (.data [hi])).2 = []
  := by
  cases haligned with
  | sizing _ recvLen last stored =>
      rw [Variant.iterate_length_one state]
      refine ⟨rfl, ⟨rfl, ?_, ?_, ?_⟩, rfl⟩
      · simp only [recvLen]
      · simp only [Variant.received, Variant.top_last, last]
      · simp only [lenFirst_eq]
  | hunting hstate => cases state.symm.trans hstate
  | halfSized hi hstate => cases state.symm.trans hstate
  | filling hi lo got left sized hstate => cases state.symm.trans hstate

/-- From aligned states, a cutting is published as `joined` publishes the stream exactly if no
complete frame longer than 255 has its length bytes read apart. -/
theorem published_iff_of_aligned {s : RecvThread} {t : uartFraming.Phase}
    {pieces : List (List UInt8)} (haligned : Aligned joined s t)
    (hcuts : mapSendTest.recvThread.Cuts s pieces) (hfits : FramesFit t pieces.flatten) :
  (mapSendTest.recvThread.output s (pieces.map .data)).map published
      = (uartFraming.scanner.output t pieces.flatten).map publishedFrame
    ↔ ¬ SplitsLong s pieces
  := by
  induction pieces generalizing s t with
  | nil => apply iff_of_true rfl id
  | cons p ps ih =>
      have hps := hcuts.2
      rw [List.flatten_cons] at hfits ⊢
      obtain ⟨-, hfits'⟩ := Scanner.throughout_append.mp hfits
      simp only [List.map_cons, Reader.output, Variant.recvThread_step, List.map_append,
        Scanner.output_append] at hps ⊢
      by_cases hapart : Apart s (.data p)
      · obtain ⟨state, hi, hp, hhi⟩ := hapart
        obtain rfl := ReadResult.data.inj hp
        obtain ⟨rfl, hmisled, hnone⟩ := misled_of_apart hi haligned state
        rw [hnone, List.map_nil, List.nil_append]
        by_cases hcomplete : Completes hi ps.flatten
        · have hsplit : SplitsLong s ([hi] :: ps) := Or.inl ⟨state, hi, rfl, hhi, hcomplete⟩
          apply iff_of_false _ (not_not.mpr hsplit)
          rw [final_sizing, output_sizing, List.map_nil, List.nil_append]
          apply hmisled.published_ne hhi hps hfits' hcomplete
        · obtain ⟨hout, hsplit⟩ := hmisled.output_eq_nil hhi hps hfits' hcomplete
          apply iff_of_true
          · rw [final_sizing, output_sizing, hout, output_of_not_completes hcomplete]
            rfl
          · rintro (⟨-, hi', hp', -, hcomplete'⟩ | hsplit')
            · obtain rfl := List.head_eq_of_cons_eq hp'
              apply hcomplete hcomplete'
            · apply hsplit hsplit'
      · obtain ⟨haligned', hout⟩ :=
          follows_of_not_apart haligned hapart hcuts.1.1 hcuts.1.2
        have hsplit : SplitsLong s (p :: ps)
            ↔ SplitsLong (mapSendTest.iterate s (.data p)).1 ps := by
          apply or_iff_right
          rintro ⟨state, hi, rfl, hhi, -⟩
          apply hapart ⟨state, hi, rfl, hhi⟩
        rw [hout, hsplit, ← ih haligned' hps hfits', List.append_cancel_left_eq]

/-- A complete frame whose length bytes are read apart is one of the stream. -/
theorem exists_long_of_splitsLong {s : RecvThread} {t : uartFraming.Phase}
    {pieces : List (List UInt8)} (haligned : Aligned joined s t)
    (hcuts : mapSendTest.recvThread.Cuts s pieces) (hfits : FramesFit t pieces.flatten)
    (hsplit : SplitsLong s pieces) :
  ∃ f ∈ uartFraming.scanner.output t pieces.flatten, f.len₁ ≠ 0
  := by
  induction pieces generalizing s t with
  | nil => apply hsplit.elim
  | cons p ps ih =>
      have hps := hcuts.2
      rw [List.flatten_cons] at hfits ⊢
      obtain ⟨-, hfits'⟩ := Scanner.throughout_append.mp hfits
      simp only [Variant.recvThread_step] at hps
      rw [Scanner.output_append]
      by_cases hapart : Apart s (.data p)
      · obtain ⟨state, hi, hp, hhi⟩ := hapart
        obtain rfl := ReadResult.data.inj hp
        obtain ⟨rfl, hmisled, -⟩ := misled_of_apart hi haligned state
        by_cases hcomplete : Completes hi ps.flatten
        · obtain ⟨f, fs, -, hout, rfl, -⟩ := output_of_completes hcomplete
          use f
          rw [final_sizing, hout]
          constructor
          · apply List.mem_append_right
            apply List.mem_cons_self
          · exact hhi
        · rcases hsplit with ⟨-, hi', hp', -, hcomplete'⟩ | hsplit
          · obtain rfl := List.head_eq_of_cons_eq hp'
            exact absurd hcomplete' hcomplete
          · exact absurd hsplit (hmisled.output_eq_nil hhi hps hfits' hcomplete).2
      · obtain ⟨haligned', -⟩ := follows_of_not_apart haligned hapart hcuts.1.1 hcuts.1.2
        have hlater : SplitsLong (mapSendTest.iterate s (.data p)).1 ps := by
          rcases hsplit with ⟨state, hi, rfl, hhi, -⟩ | hsplit
          · exact absurd ⟨state, hi, rfl, hhi⟩ hapart
          · exact hsplit
        obtain ⟨f, hf, hlen⟩ := ih haligned' hps hfits' hlater
        use f
        constructor
        · apply List.mem_append_right _ hf
        · exact hlen

/-! ### Two cuttings of any stream -/

/-- The thread never asks for nothing. -/
def Ready (s : RecvThread) : Prop :=
  match s.state with
  | .magic => s.last = 0
  | .length => s.last = 0
  | .lengthSecondByte => s.last = 0 ∧ ∃ hi, s.lenTemp = highMultiplied hi
  | .rest =>
      (s.last < s.lenTemp ∨ s.lenTemp < 0 ∧ s.last = 0) ∧ -2 ^ 32 < s.lenTemp ∧
        s.lenTemp < 2 ^ 32

theorem Ready.request_pos {s : RecvThread} (h : Ready s) :
  0 < Variant.request s
  := by
  unfold Ready at h
  cases state : s.state with
  | rest =>
      simp only [state] at h
      simp only [Variant.request, state]
      omega
  | magic => simp only [Variant.request, state, Nat.one_pos]
  | length => simp only [Variant.request, state, Nat.two_pos]
  | lengthSecondByte => simp only [Variant.request, state, Nat.one_pos]

theorem Ready.iterate {s : RecvThread} {p : List UInt8} (h : Ready s) (hp : p ≠ [])
    (hlen : p.length ≤ Variant.request s) :
  Ready (mapSendTest.iterate s (.data p)).1
  := by
  unfold Ready at h
  cases state : s.state with
  | magic =>
      simp only [Variant.request, state] at h hlen
      obtain ⟨a, rfl⟩ := eq_singleton hp hlen
      rw [Variant.iterate_magic state]
      split_ifs
      · simpa only [Ready, Variant.received, Variant.top_last] using h
      · simpa only [Ready, Variant.received, Variant.top_state, state, Variant.top_last] using h
  | length =>
      simp only [Variant.request, state] at h hlen
      rcases eq_one_or_two hp hlen with ⟨hi, rfl⟩ | ⟨hi, lo, rfl⟩
      · rw [Variant.iterate_length_one state]
        simp only [Ready, Variant.received, Variant.top_last]
        exact ⟨h, hi, congrFun lenFirst_eq hi⟩
      · have hhi := hi.toNat_lt
        have hlo := lo.toNat_lt
        rw [Variant.iterate_length_two state]
        simp only [Ready, Variant.received, Variant.top_last, mapSendTest, highMasked_eq,
          lowMasked_eq]
        omega
  | lengthSecondByte =>
      simp only [Variant.request, state] at h hlen
      obtain ⟨hlast, hi, hlenTemp⟩ := h
      obtain ⟨lo, rfl⟩ := eq_singleton hp hlen
      have hhi := hi.toNat_lt
      have hlo := lo.toNat_lt
      rw [highMultiplied_eq] at hlenTemp
      rw [Variant.iterate_lengthSecondByte state]
      simp only [Ready, Variant.received, Variant.top_last, mapSendTest, lowMasked_eq]
      split_ifs at hlenTemp
      · omega
      · omega
  | rest =>
      simp only [state] at h
      by_cases hshort : (p.length : ℤ) < s.lenTemp - s.last
      · rw [Variant.iterate_rest_short state hp hshort]
        simp only [Ready, Variant.received, Variant.top_state, state, Variant.top_lenTemp]
        omega
      · rw [Variant.iterate_rest_over state (r := .data p) (by
          simp only [ReadResult.len_data]
          omega)]
        exact rfl

/-- The cutting of a stream into reads that return all they ask for. -/
def wholeReads (s : RecvThread) (stream : List UInt8) : List (List UInt8) :=
  mapSendTest.recvThread.cutBy Variant.request stream.length s stream

/-- The cutting of a stream into single bytes. -/
def singleBytes (s : RecvThread) (stream : List UInt8) : List (List UInt8) :=
  mapSendTest.recvThread.cutBy (fun _ => 1) stream.length s stream

theorem wholeReads_cuts {s : RecvThread} (hs : Ready s) (stream : List UInt8) :
  (wholeReads s stream).flatten = stream ∧
    mapSendTest.recvThread.Cuts s (wholeReads s stream)
  := by
  apply Reader.cutBy_cuts Ready _ _ hs (Nat.le_refl _)
  · intro s hs
    exact ⟨hs.request_pos, Nat.le_refl _⟩
  · intro s p hs hp hlen
    apply hs.iterate hp hlen

theorem singleBytes_cuts {s : RecvThread} (hs : Ready s) (stream : List UInt8) :
  (singleBytes s stream).flatten = stream ∧
    mapSendTest.recvThread.Cuts s (singleBytes s stream)
  := by
  apply Reader.cutBy_cuts Ready _ _ hs (Nat.le_refl _)
  · intro s hs
    exact ⟨Nat.one_pos, hs.request_pos⟩
  · intro s p hs hp hlen
    apply hs.iterate hp hlen

/-- Reads that return all they ask for read the length bytes of a complete frame together. -/
theorem not_splitsLong_wholeReads {n : ℕ} {s : RecvThread} {stream : List UInt8} :
  ¬ SplitsLong s (mapSendTest.recvThread.cutBy Variant.request n s stream)
  := by
  induction n generalizing s stream with
  | zero => exact id
  | succ n ih =>
      cases stream with
      | nil => exact id
      | cons b bs =>
          rintro (⟨state, hi, hp, -, lo, payload, more, hrest, -⟩ | hsplit)
          · have hrequest : Variant.request s = 2 := by
              simp only [Variant.request, state]
            have hbs : bs = [] := by
              have hlen := congrArg List.length hp
              rw [hrequest, List.length_take, List.length_cons, List.length_singleton] at hlen
              apply List.eq_nil_of_length_eq_zero
              omega
            rw [hbs, hrequest, List.drop_of_length_le (Nat.le_succ 1), Reader.cutBy_nil] at hrest
            cases hrest
          · apply ih hsplit

/-- The frame that is being received is not longer than 256 bytes. -/
def Short : uartFraming.Phase → Prop
  | .halfSized hi => hi = 0
  | .filling hi _ _ _ _ => hi = 0
  | _ => True

/-- A byte that does not start a longer frame leaves the frame short, and a frame that it completes
is short. -/
theorem short_feed {t : uartFraming.Phase} (ht : Short t) {b : UInt8} (hb : t = .sizing → b = 0) :
  Short (uartFraming.scanner.feed t b).1 ∧
    ∀ f ∈ (uartFraming.scanner.feed t b).2, f.len₁ = 0
  := by
  cases t with
  | hunting seen =>
      simp only [Framing.scanner]
      split_ifs
      · exact ⟨trivial, List.forall_mem_nil _⟩
      · exact ⟨trivial, List.forall_mem_nil _⟩
      · exact ⟨trivial, List.forall_mem_nil _⟩
  | sizing => exact ⟨hb rfl, List.forall_mem_nil _⟩
  | halfSized hi =>
      simp only [Framing.scanner, Framing.sized_succ (F := uartFraming) hi b _ rfl]
      exact ⟨ht, List.forall_mem_nil _⟩
  | filling hi lo got left sized =>
      cases left with
      | zero => exact ⟨trivial, List.forall_mem_singleton.mpr ht⟩
      | succ left => exact ⟨ht, List.forall_mem_nil _⟩

/-- If single bytes do not split the length of a complete frame longer than 255, there is none. -/
theorem short_of_singleBytes {n : ℕ} {s : RecvThread} {t : uartFraming.Phase}
    {stream : List UInt8} (hn : stream.length ≤ n) (haligned : Aligned joined s t) (ht : Short t)
    (hcuts : mapSendTest.recvThread.Cuts s
      (mapSendTest.recvThread.cutBy (fun _ => 1) n s stream))
    (hflat : (mapSendTest.recvThread.cutBy (fun _ => 1) n s stream).flatten = stream)
    (hsplit : ¬ SplitsLong s (mapSendTest.recvThread.cutBy (fun _ => 1) n s stream)) :
  ∀ f ∈ uartFraming.scanner.output t stream, f.len₁ = 0
  := by
  induction n generalizing s t stream with
  | zero =>
      obtain rfl := List.eq_nil_of_length_eq_zero (Nat.le_zero.mp hn)
      exact List.forall_mem_nil _
  | succ n ih =>
      cases stream with
      | nil => exact List.forall_mem_nil _
      | cons b bs =>
          obtain ⟨hhead, hrest⟩ := hcuts
          have hflat' : (mapSendTest.recvThread.cutBy (fun _ => 1) n
              (mapSendTest.iterate s (.data [b])).1 bs).flatten = bs :=
            List.tail_eq_of_cons_eq hflat
          obtain ⟨hfirst, hsplit⟩ := not_or.mp hsplit
          by_cases hapart : Apart s (.data [b])
          · obtain ⟨state, hi, hp, hhi⟩ := hapart
            obtain rfl := List.head_eq_of_cons_eq (ReadResult.data.inj hp)
            obtain ⟨rfl, -⟩ := misled_of_apart b haligned state
            have hno : ¬ Completes b bs := by
              intro hcomplete
              apply hfirst
              use state, b, rfl, hhi
              apply hflat'.symm ▸ hcomplete
            have hnone : uartFraming.scanner.output .sizing (b :: bs) = [] :=
              output_of_not_completes hno
            rw [hnone]
            exact List.forall_mem_nil _
          · obtain ⟨haligned', -⟩ := follows_of_not_apart haligned hapart hhead.1 hhead.2
            have hb : t = .sizing → b = 0 := by
              rintro rfl
              by_contra hne
              cases haligned with
              | sizing state => apply hapart ⟨state, b, rfl, hne⟩
            obtain ⟨ht', hframe⟩ := short_feed ht hb
            rw [List.length_cons] at hn
            have hlater := ih (Nat.le_of_succ_le_succ hn) haligned' ht' hrest hflat' hsplit
            intro f hf
            rcases List.mem_append.mp hf with hf | hf
            · apply hframe f hf
            · apply hlater f hf

/-! ### All cuttings -/

/-- For every stream whose frames fit into the buffer: a cutting of it is published as `joined`
publishes the stream exactly if no complete frame longer than 255 has its length bytes read apart;
and any two cuttings of it are published alike exactly if no complete frame of it is longer than
255. -/
theorem published_alike_iff (buf : Memory UInt8) {stream : List UInt8}
    (hfits : FramesFit (.hunting 0) stream) :
  (∀ pieces, pieces.flatten = stream → mapSendTest.recvThread.Cuts (.start buf) pieces →
      ((mapSendTest.recvThread.output (.start buf) (pieces.map .data)).map published
          = (uartFraming.scanner.output (.hunting 0) stream).map publishedFrame
        ↔ ¬ SplitsLong (.start buf) pieces)) ∧
    ((∀ pieces pieces', pieces.flatten = stream → pieces'.flatten = stream →
        mapSendTest.recvThread.Cuts (.start buf) pieces →
        mapSendTest.recvThread.Cuts (.start buf) pieces' →
        (mapSendTest.recvThread.output (.start buf) (pieces.map .data)).map published
          = (mapSendTest.recvThread.output (.start buf) (pieces'.map .data)).map published)
      ↔ ∀ f ∈ uartFraming.scanner.output (.hunting 0) stream, f.len₁ = 0)
  := by
  have hstart : Aligned joined (.start buf) (.hunting 0) := .hunting rfl rfl rfl
  have hready : Ready (.start buf) := rfl
  have hone : ∀ pieces, pieces.flatten = stream →
      mapSendTest.recvThread.Cuts (.start buf) pieces →
      ((mapSendTest.recvThread.output (.start buf) (pieces.map .data)).map published
          = (uartFraming.scanner.output (.hunting 0) stream).map publishedFrame
        ↔ ¬ SplitsLong (.start buf) pieces) := by
    rintro pieces rfl hcuts
    apply published_iff_of_aligned hstart hcuts hfits
  use hone
  constructor
  · intro halike
    obtain ⟨hwhole, hwholeCuts⟩ := wholeReads_cuts hready stream
    obtain ⟨hsingle, hsingleCuts⟩ := singleBytes_cuts hready stream
    have hsame := halike _ _ hwhole hsingle hwholeCuts hsingleCuts
    have hcanon := (hone _ hwhole hwholeCuts).mpr not_splitsLong_wholeReads
    rw [hcanon] at hsame
    have hsplit := (hone _ hsingle hsingleCuts).mp hsame.symm
    apply short_of_singleBytes (Nat.le_refl _) hstart trivial hsingleCuts hsingle hsplit
  · intro hshort pieces pieces' hflat hflat' hcuts hcuts'
    have hno : ∀ pieces, pieces.flatten = stream →
        mapSendTest.recvThread.Cuts (.start buf) pieces → ¬ SplitsLong (.start buf) pieces := by
      rintro pieces rfl hcuts hsplit
      obtain ⟨f, hf, hlen⟩ := exists_long_of_splitsLong hstart hcuts hfits hsplit
      apply hlen (hshort f hf)
    rw [(hone pieces hflat hcuts).mpr (hno pieces hflat hcuts),
      (hone pieces' hflat' hcuts').mpr (hno pieces' hflat' hcuts')]

/-- A frame with a payload of one byte. -/
def shortFrame : uartFraming.Frame where
  len₁ := 0
  len₂ := 0
  payload := [0x03]
  sized := rfl

theorem framesFit_frame (f : uartFraming.Frame) (hf : f.bytes.length ≤ uartBuffMexLen) :
  FramesFit (.hunting 0) f.bytes
  := by
  rw [frame_bytes] at hf
  simp only [List.length_cons] at hf
  apply (Framing.throughout_frame (by decide) f).mono
  intro t ht
  omega

/-- A short frame read byte by byte. -/
theorem published_alike_short :
  (mapSendTest.recvThread.output (.start (fun _ => 0))
      ([[0xAA], [0x00], [0x00], [0x03]].map .data)).map published
    = (uartFraming.scanner.output (.hunting 0) shortFrame.bytes).map publishedFrame
  := by
  apply ((published_alike_iff (fun _ => 0) (framesFit_frame shortFrame (by decide))).1
    [[0xAA], [0x00], [0x00], [0x03]] rfl (by decide +kernel)).mpr
  rintro (⟨h, -⟩ | ⟨-, hi, hp, hne, -⟩ | ⟨h, -⟩ | ⟨h, -⟩ | h)
  · cases h
  · obtain rfl := List.head_eq_of_cons_eq hp
    apply hne rfl
  · cases h
  · cases h
  · exact h

/-- A frame with the length 256. -/
def longFrame : uartFraming.Frame where
  len₁ := 1
  len₂ := 0
  payload := List.replicate 257 0
  sized := by decide +kernel

/-- It is published if its length bytes are read together, and not if they are read apart. -/
theorem not_published_alike :
  ¬ ∀ (buf : Memory UInt8) (stream : List UInt8) (pieces pieces' : List (List UInt8)),
      FramesFit (.hunting 0) stream → pieces.flatten = stream → pieces'.flatten = stream →
      mapSendTest.recvThread.Cuts (.start buf) pieces →
      mapSendTest.recvThread.Cuts (.start buf) pieces' →
      (mapSendTest.recvThread.output (.start buf) (pieces.map .data)).map published
        = (mapSendTest.recvThread.output (.start buf) (pieces'.map .data)).map published
  := by
  intro h
  have halike := h (fun _ => 0) longFrame.bytes [[0xAA], [1, 0], List.replicate 257 0]
    [[0xAA], [1], [0], List.replicate 257 0] (framesFit_frame longFrame (by decide +kernel))
    (by decide +kernel) (by decide +kernel) (by decide +kernel) (by decide +kernel)
  have hlen := congrArg List.length halike
  revert hlen
  decide +kernel

end MapSendTest

end Uart
