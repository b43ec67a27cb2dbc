import Mathlib.Algebra.Group.Int.Defs
import Mathlib.Data.Int.Notation
import Orgrim.Theory.Framing
import Orgrim.Theory.Memory

/-!
# The receiving threads of the serial tools

The tools under `serial/c` share one `RecvThread`, copied and varied: a byte `0xAA`, two
bytes of length, and as many bytes as they announce.  `Variant` holds what differs: how the
length bytes enter `len_temp`, the size of the buffer, and whether the buffer is cleared at
the top of the loop.  `Variant.recvThread` is the loop as a `Reader`, one iteration for each
`read`; it outputs what has been received when a frame is complete.

The buffers are arrays of `char`, which is signed: `charToInt` is the promotion to `int`.
-/

namespace Uart

/-- `G_MAGIC_NUMBER`, `PacketHeader` -/
def magicNumber : UInt8 := 0xAA

/-- The variable `state`: 0, 1, 2 and 3. -/
inductive RecvState where
  | magic
  | length
  | lengthSecondByte
  | rest
deriving DecidableEq

/-- The variables of `RecvThread`, the static `last` included. -/
structure RecvThread where
  state : RecvState
  recvLen : ℕ
  lenTemp : ℤ
  last : ℕ
  buf : Memory UInt8

/-- The variables when the loop is entered; the buffer is not initialised. -/
def RecvThread.start (buf : Memory UInt8) : RecvThread where
  state := .magic
  recvLen := 0
  lenTemp := 0
  last := 0
  buf := buf

/-- What is at hand when a frame is complete: the buffer and `recv_len`. -/
structure Reception where
  buf : Memory UInt8
  recvLen : ℤ

/-- The first `recv_len` bytes of the buffer. -/
def Reception.bytes (x : Reception) : List UInt8 := x.buf.slice 0 x.recvLen.toNat

/-- What differs between the copies of `RecvThread`. -/
structure Variant where
  /-- the size of the buffer -/
  bufLen : ℕ
  /-- whether the buffer is cleared at the top of the loop -/
  clears : Bool
  /-- `len_temp` after the first length byte, if it is read alone -/
  lenFirst : UInt8 → ℤ
  /-- `len_temp` after both length bytes -/
  lenBoth : UInt8 → UInt8 → ℤ
  /-- what the second length byte adds to `len_temp`, if it is read alone -/
  lenSecond : UInt8 → ℤ

/-- The promotion of a `char` to `int`. -/
def charToInt (c : UInt8) : BitVec 32 := c.toBitVec.signExtend 32

namespace Variant

variable (V : Variant)

/-- `memset(buf, 0, sizeof(buf))`, where the copy has it. -/
def top (s : RecvThread) : RecvThread :=
  if V.clears then { s with buf := s.buf.write 0 (List.replicate V.bufLen 0) } else s

/-- The number of bytes the iteration asks `read` for; in the last state it is converted to
`size_t`. -/
def request (s : RecvThread) : ℕ :=
  match s.state with
  | .magic => 1
  | .length => 2
  | .lengthSecondByte => 1
  | .rest => ((s.lenTemp - s.last) % 2 ^ 64).toNat

/-- The offset in the buffer where `read` stores them. -/
def target (s : RecvThread) : ℕ :=
  match s.state with
  | .magic => 0
  | .rest => s.recvLen + s.last
  | _ => s.recvLen

/-- The `read` stays inside the buffer. -/
def ReadInBounds (s : RecvThread) : Prop := target s + request s ≤ V.bufLen

instance (s : RecvThread) : Decidable (V.ReadInBounds s) :=
  inferInstanceAs (Decidable (_ ≤ _))

/-- The variables after the `read`. -/
def received (s : RecvThread) (r : ReadResult UInt8) : RecvThread :=
  { V.top s with buf := (V.top s).buf.write (target s) r.bytes }

/-- The iteration in state 0, after its `read`. -/
def onMagic (s : RecvThread) (r : ReadResult UInt8) : RecvThread × List Reception :=
  if r.len = 1 ∧ s.buf 0 = magicNumber then
    ({ s with state := .length, recvLen := s.recvLen + r.bytes.length }, [])
  else (s, [])

/-- The iteration in state 1, after its `read`. -/
def onLength (s : RecvThread) (r : ReadResult UInt8) : RecvThread × List Reception :=
  if r.len = 1 then
    ({ s with
        state := .lengthSecondByte
        lenTemp := V.lenFirst (s.buf s.recvLen)
        recvLen := s.recvLen + r.bytes.length }, [])
  else if r.len = 2 then
    ({ s with
        state := .rest
        lenTemp := V.lenBoth (s.buf s.recvLen) (s.buf (s.recvLen + 1))
        recvLen := s.recvLen + r.bytes.length }, [])
  else (s, [])

/-- The iteration in state 2, after its `read`. -/
def onLengthSecondByte (s : RecvThread) (r : ReadResult UInt8) :
    RecvThread × List Reception :=
  if r.len = 1 then
    ({ s with
        state := .rest
        lenTemp := s.lenTemp + V.lenSecond (s.buf s.recvLen)
        recvLen := s.recvLen + r.bytes.length }, [])
  else (s, [])

/-- The iteration in state 3, after its `read`. -/
def onRest (s : RecvThread) (r : ReadResult UInt8) : RecvThread × List Reception :=
  if r.len < s.lenTemp - s.last ∧ r.len > 0 then
    ({ s with last := s.last + r.bytes.length }, [])
  else
    ({ s with last := 0, state := .magic, recvLen := 0 },
      [⟨s.buf, s.recvLen + s.lenTemp⟩])

/-- One iteration, with the result of its `read`. -/
def iterate (s : RecvThread) (r : ReadResult UInt8) : RecvThread × List Reception :=
  match s.state with
  | .magic => onMagic (V.received s r) r
  | .length => V.onLength (V.received s r) r
  | .lengthSecondByte => V.onLengthSecondByte (V.received s r) r
  | .rest => onRest (V.received s r) r

/-- `RecvThread` -/
def recvThread : Reader RecvThread UInt8 Reception where
  request := request
  step := V.iterate

@[simp]
theorem recvThread_request (s : RecvThread) :
  V.recvThread.request s = request s
  := rfl

@[simp]
theorem recvThread_step (s : RecvThread) (r : ReadResult UInt8) :
  V.recvThread.step s r = V.iterate s r
  := rfl

end Variant

/-! ### The length bytes -/

/-- `((c << 8) & 0xFF00)` -/
def highMasked (c : UInt8) : ℤ := ((charToInt c <<< 8) &&& 0xFF00#32).toInt

/-- `(c & 0xFF) + 1` -/
def lowMasked (c : UInt8) : ℤ := ((charToInt c &&& 0xFF#32) + 1#32).toInt

theorem highMasked_eq (c : UInt8) :
  highMasked c = 2 ^ 8 * c.toNat
  := by
  have hall : ∀ i : Fin (2 ^ 8), highMasked (UInt8.ofFin i) = 2 ^ 8 * (i.val : ℤ) := by
    decide +kernel
  apply hall c.toFin

theorem lowMasked_eq (c : UInt8) :
  lowMasked c = c.toNat + 1
  := by
  have hall : ∀ i : Fin (2 ^ 8), lowMasked (UInt8.ofFin i) = (i.val : ℤ) + 1 := by
    decide +kernel
  apply hall c.toFin

/-- The copy computes, however the length bytes are read, the number of bytes that follow
them: one more than they say. -/
structure Variant.Masked (V : Variant) : Prop where
  both : ∀ hi lo, V.lenBoth hi lo = 2 ^ 8 * hi.toNat + lo.toNat + 1
  split : ∀ hi lo, V.lenFirst hi + V.lenSecond lo = 2 ^ 8 * hi.toNat + lo.toNat + 1

/-! ### The iterations on bytes received -/

namespace Variant

section

variable {V : Variant} {s : RecvThread}

@[simp]
theorem top_state :
  (V.top s).state = s.state
  := by
  unfold top
  split
  · rfl
  · rfl

@[simp]
theorem top_recvLen :
  (V.top s).recvLen = s.recvLen
  := by
  unfold top
  split
  · rfl
  · rfl

@[simp]
theorem top_lenTemp :
  (V.top s).lenTemp = s.lenTemp
  := by
  unfold top
  split
  · rfl
  · rfl

@[simp]
theorem top_last :
  (V.top s).last = s.last
  := by
  unfold top
  split
  · rfl
  · rfl

/-- Without the `memset` nothing happens at the top of the loop. -/
theorem top_of_keeps (h : V.clears = false) :
  V.top s = s
  := by
  rw [top, h]
  rfl

theorem received_eq_of_len_le {r : ReadResult UInt8} (h : r.len ≤ 0) :
  V.received s r = V.top s
  := by
  rw [received, ReadResult.bytes_of_len_le h, Memory.write_nil]

/-- Where less than a frame is expected, a read that stores nothing is tried again. -/
theorem iterate_of_len_le (h : s.state ≠ .rest) {r : ReadResult UInt8} (hr : r.len ≤ 0) :
  V.iterate s r = (V.top s, [])
  := by
  have hone : ¬ r.len = 1 := by omega
  have htwo : ¬ r.len = 2 := by omega
  cases hstate : s.state with
  | magic =>
      simp [iterate, onMagic, hstate, received_eq_of_len_le hr, hone]
  | length =>
      simp [iterate, onLength, hstate, received_eq_of_len_le hr, hone, htwo]
  | lengthSecondByte =>
      simp [iterate, onLengthSecondByte, hstate, received_eq_of_len_le hr, hone]
  | rest => exact absurd hstate h

theorem iterate_magic (h : s.state = .magic) (a : UInt8) :
  V.iterate s (.data [a])
    = if a = magicNumber then
        ({ V.received s (.data [a]) with state := .length, recvLen := s.recvLen + 1 }, [])
      else (V.received s (.data [a]), [])
  := by
  simp [iterate, onMagic, received, target, h]

theorem iterate_length_one (h : s.state = .length) (hi : UInt8) :
  V.iterate s (.data [hi])
    = ({ V.received s (.data [hi]) with
          state := .lengthSecondByte
          lenTemp := V.lenFirst hi
          recvLen := s.recvLen + 1 }, [])
  := by
  simp [iterate, onLength, received, target, h]

theorem iterate_length_two (h : s.state = .length) (hi lo : UInt8) :
  V.iterate s (.data [hi, lo])
    = ({ V.received s (.data [hi, lo]) with
          state := .rest
          lenTemp := V.lenBoth hi lo
          recvLen := s.recvLen + 2 }, [])
  := by
  have hlo : ∀ m : Memory UInt8, m.write s.recvLen [hi, lo] (s.recvLen + 1) = lo := by
    intro m
    rw [Memory.write_apply_add _ _ _ (by simp)]
    rfl
  simp [iterate, onLength, received, target, h, hlo]

theorem iterate_lengthSecondByte (h : s.state = .lengthSecondByte) (lo : UInt8) :
  V.iterate s (.data [lo])
    = ({ V.received s (.data [lo]) with
          state := .rest
          lenTemp := s.lenTemp + V.lenSecond lo
          recvLen := s.recvLen + 1 }, [])
  := by
  simp [iterate, onLengthSecondByte, received, target, h]

/-- A short read of the rest of a frame is waited on. -/
theorem iterate_rest_short (h : s.state = .rest) {p : List UInt8} (hp : p ≠ [])
    (hlt : p.length < s.lenTemp - s.last) :
  V.iterate s (.data p)
    = ({ V.received s (.data p) with last := s.last + p.length }, [])
  := by
  have hpos := List.length_pos_iff.mpr hp
  have hshort : (p.length : ℤ) < s.lenTemp - s.last ∧ (p.length : ℤ) > 0 := by
    omega
  simp only [iterate, onRest, received, h, top_lenTemp, top_last, ReadResult.len_data,
    ReadResult.bytes_data, if_pos hshort]

/-- Any other read completes the frame. -/
theorem iterate_rest_over (h : s.state = .rest) {r : ReadResult UInt8}
    (hover : ¬ (r.len < s.lenTemp - s.last ∧ r.len > 0)) :
  V.iterate s r
    = ({ V.received s r with last := 0, state := .magic, recvLen := 0 },
        [⟨(V.received s r).buf, s.recvLen + s.lenTemp⟩])
  := by
  simp only [iterate, onRest, received, h, top_lenTemp, top_last, top_recvLen, if_neg hover]

end

end Variant

end Uart
