import Orgrim.Uart.ImuTest

/-!
# The receiver of the serial test

`serial_test.c`: its `RecvThread` stores a frame in a buffer of `MAX_LEN` bytes, but takes the
length of the frame as it comes from the wire.  The reads stay inside the buffer exactly as
long as no announced length exceeds what the buffer has room for (`reads_in_bounds_iff`).
-/

namespace Uart

/-- `RecvThread` of `serial_test.c` -/
def serialTest : Variant where
  bufLen := maxLen
  clears := true
  lenFirst := highMasked
  lenBoth hi lo := highMasked hi + lowMasked lo
  lenSecond := lowMasked

namespace SerialTest

/-- The largest length a frame can announce and still fit into the buffer, with the magic
number, the two length bytes and the byte that the length does not count. -/
def lengthLimit : ℕ := maxLen - 4

/-- The length that a frame announces, at the read that completes it.  A first length byte
read alone is in `len_temp`. -/
def announced (s : RecvThread) (r : ReadResult UInt8) : Option ℤ :=
  match s.state, r with
  | .length, .data [hi, lo] => some (2 ^ 8 * hi.toNat + lo.toNat)
  | .lengthSecondByte, .data [lo] => some (s.lenTemp + lo.toNat)
  | _, _ => none

/-- A length announced is at most `lengthLimit`. -/
def LengthFits (s : RecvThread) (r : ReadResult UInt8) : Prop :=
  ∀ n ∈ announced s r, n ≤ lengthLimit

instance (s : RecvThread) (r : ReadResult UInt8) : Decidable (LengthFits s r) :=
  inferInstanceAs (Decidable (∀ n ∈ announced s r, n ≤ lengthLimit))

/-- Where the loop stands: how much of the header has been received in each state, and that
the rest of a frame is never complete before its last read. -/
def Positioned (s : RecvThread) : Prop :=
  match s.state with
  | .magic => s.recvLen = 0 ∧ s.last = 0
  | .length => s.recvLen = 1 ∧ s.last = 0
  | .lengthSecondByte => s.recvLen = 2 ∧ s.last = 0 ∧ 0 ≤ s.lenTemp ∧ s.lenTemp < 2 ^ 16
  | .rest => s.recvLen = 3 ∧ s.last < s.lenTemp ∧ s.lenTemp < 2 ^ 17

/-- What the state says about the next read: the frame that is being received fits. -/
def Fits (s : RecvThread) : Prop := s.state = .rest → s.lenTemp ≤ lengthLimit + 1

section

variable {s : RecvThread}

theorem Positioned.readInBounds_iff (h : Positioned s) :
  serialTest.ReadInBounds s ↔ Fits s
  := by
  unfold Positioned at h
  rw [Variant.ReadInBounds, Fits]
  cases state : s.state with
  | magic => simp [Variant.target, Variant.request, state, serialTest, maxLen]
  | length =>
      simp only [state] at h
      simp [Variant.target, Variant.request, state, h.1, serialTest, maxLen]
  | lengthSecondByte =>
      simp only [state] at h
      simp [Variant.target, Variant.request, state, h.1, serialTest, maxLen]
  | rest =>
      simp only [state] at h
      simp only [Variant.target, Variant.request, state, h.1, serialTest, maxLen, lengthLimit,
        true_imp_iff]
      omega

/-- What one iteration does: the loop stays positioned, and the next read fits exactly if
the length does that this read has completed. -/
def Follows (s : RecvThread) (r : ReadResult UInt8) : Prop :=
  Positioned (serialTest.iterate s r).1 ∧
    (Fits s → (Fits (serialTest.iterate s r).1 ↔ LengthFits s r))

theorem lengthFits_of_none {r : ReadResult UInt8} (h : announced s r = none) :
  LengthFits s r
  := by
  intro n hn
  rw [h] at hn
  cases hn

theorem lengthFits_of_some {r : ReadResult UInt8} {n : ℤ} (h : announced s r = some n) :
  LengthFits s r ↔ n ≤ lengthLimit
  := by
  rw [LengthFits, h]
  constructor
  · intro hfits
    apply hfits n rfl
  · rintro hle _ ⟨⟩
    exact hle

theorem positioned_top :
  Positioned (serialTest.top s) ↔ Positioned s
  := by
  simp only [Positioned, Variant.top_state, Variant.top_recvLen, Variant.top_lenTemp,
    Variant.top_last]

theorem Positioned.follows_of_len_le (h : Positioned s) (state : s.state ≠ .rest)
    {r : ReadResult UInt8} (hr : r.len ≤ 0) :
  Follows s r
  := by
  rw [Follows, Variant.iterate_of_len_le state hr]
  constructor
  · exact positioned_top.mpr h
  · intro _
    have hfits : LengthFits s r := by
      apply lengthFits_of_none
      unfold announced
      split
      · simp at hr
      · simp at hr
      · rfl
    apply iff_of_true _ hfits
    intro hrest
    exact absurd (Variant.top_state.symm.trans hrest) state

theorem Positioned.follows_magic (h : Positioned s) (state : s.state = .magic)
    {r : ReadResult UInt8} (hr : r.bytes.length ≤ 1) :
  Follows s r
  := by
  rcases ReadResult.eq_of_length_le_one hr with hr | ⟨a, rfl⟩
  · apply h.follows_of_len_le _ hr
    simp [state]
  · simp only [Positioned, state] at h
    have hfits : LengthFits s (.data [a]) := by
      apply lengthFits_of_none
      simp [announced, state]
    rw [Follows, Variant.iterate_magic state]
    split
    · constructor
      · simp [Positioned, Variant.received, h]
      · intro _
        apply iff_of_true _ hfits
        simp [Fits]
    · constructor
      · simp [Positioned, Variant.received, state, h]
      · intro _
        apply iff_of_true _ hfits
        simp [Fits, Variant.received, state]

theorem Positioned.follows_length (h : Positioned s) (state : s.state = .length)
    {r : ReadResult UInt8} (hr : r.bytes.length ≤ 2) :
  Follows s r
  := by
  rcases ReadResult.eq_of_length_le_two hr with hr | ⟨hi, rfl⟩ | ⟨hi, lo, rfl⟩
  · apply h.follows_of_len_le _ hr
    simp [state]
  · simp only [Positioned, state] at h
    rw [Follows, Variant.iterate_length_one state]
    have hhi := hi.toNat_lt
    constructor
    · simp only [Positioned, Variant.received, Variant.top_last, serialTest, highMasked_eq]
      omega
    · intro _
      apply iff_of_true
      · simp [Fits]
      · apply lengthFits_of_none
        simp [announced, state]
  · simp only [Positioned, state] at h
    rw [Follows, Variant.iterate_length_two state]
    have hhi := hi.toNat_lt
    have hlo := lo.toNat_lt
    constructor
    · simp only [Positioned, Variant.received, Variant.top_last, serialTest, highMasked_eq,
        lowMasked_eq]
      omega
    · intro _
      rw [lengthFits_of_some (n := 2 ^ 8 * hi.toNat + lo.toNat) (by simp [announced, state])]
      simp only [Fits, serialTest, highMasked_eq, lowMasked_eq, true_imp_iff]
      omega

theorem Positioned.follows_lengthSecondByte (h : Positioned s)
    (state : s.state = .lengthSecondByte) {r : ReadResult UInt8} (hr : r.bytes.length ≤ 1) :
  Follows s r
  := by
  rcases ReadResult.eq_of_length_le_one hr with hr | ⟨lo, rfl⟩
  · apply h.follows_of_len_le _ hr
    simp [state]
  · simp only [Positioned, state] at h
    rw [Follows, Variant.iterate_lengthSecondByte state]
    have hlo := lo.toNat_lt
    constructor
    · simp only [Positioned, Variant.received, Variant.top_last, serialTest, lowMasked_eq]
      omega
    · intro _
      rw [lengthFits_of_some (n := s.lenTemp + lo.toNat) (by simp [announced, state])]
      simp only [Fits, serialTest, lowMasked_eq, true_imp_iff]
      omega

/-- The rest of a frame is waited for or complete; its length stays what it is. -/
theorem Positioned.follows_rest (h : Positioned s) (state : s.state = .rest)
    (r : ReadResult UInt8) :
  Follows s r
  := by
  simp only [Positioned, state] at h
  have hfits : LengthFits s r := by
    apply lengthFits_of_none
    simp [announced, state]
  rw [Follows]
  by_cases hshort : r.len < s.lenTemp - s.last ∧ r.len > 0
  · have hlen := ReadResult.len_eq_length (r := r) (by omega)
    simp only [Variant.iterate, Variant.onRest, Variant.received, state, Variant.top_lenTemp,
      Variant.top_last, if_pos hshort]
    constructor
    · simp only [Positioned, Variant.top_state, state, Variant.top_recvLen]
      omega
    · intro hfit
      apply iff_of_true _ hfits
      intro _
      apply hfit state
  · rw [Variant.iterate_rest_over state hshort]
    constructor
    · simp [Positioned]
    · intro _
      apply iff_of_true _ hfits
      simp [Fits]

theorem Positioned.follows (h : Positioned s) {r : ReadResult UInt8}
    (hr : r.bytes.length ≤ Variant.request s) :
  Follows s r
  := by
  cases state : s.state with
  | magic =>
      simp only [Variant.request, state] at hr
      apply h.follows_magic state hr
  | length =>
      simp only [Variant.request, state] at hr
      apply h.follows_length state hr
  | lengthSecondByte =>
      simp only [Variant.request, state] at hr
      apply h.follows_lengthSecondByte state hr
  | rest => apply h.follows_rest state

end

/-! ### The bound -/

/-- Whatever `read` returns, every read issued stays inside the buffer exactly when every
length that is announced fits. -/
theorem reads_in_bounds_iff (buf : Memory UInt8) (rs : List (ReadResult UInt8))
    (hrs : serialTest.recvThread.Possible (.start buf) rs) :
  serialTest.recvThread.Throughout serialTest.ReadInBounds (.start buf) rs
    ↔ serialTest.recvThread.Along LengthFits (.start buf) rs
  := by
  have hstart : Positioned (.start buf) := ⟨rfl, rfl⟩
  have hiff := Reader.throughout_iff_along (M := serialTest.recvThread)
    (P := serialTest.ReadInBounds) (R := LengthFits) Positioned
    (by
      intro s r hs hr hin
      obtain ⟨hs', hfits⟩ := hs.follows hr
      rw [Variant.recvThread_step, hs'.readInBounds_iff]
      apply hfits
      exact hs.readInBounds_iff.mp hin)
    (by
      intro s r hs hr
      exact (hs.follows hr).1)
    hstart hrs
  rw [hiff, hstart.readInBounds_iff]
  apply and_iff_right
  intro hrest
  cases hrest

/-- The longest frame that fits is read inside the buffer. -/
theorem reads_in_bounds_longest :
  serialTest.recvThread.Throughout serialTest.ReadInBounds (.start (fun _ => 0))
    [.data [magicNumber], .data [0x06, 0x8C]]
  := (reads_in_bounds_iff (fun _ => 0) [.data [magicNumber], .data [0x06, 0x8C]]
    (by decide +kernel)).mpr (by decide +kernel)

/-- A header that announces more than the buffer has room for. -/
def oversized : List (ReadResult UInt8) := [.data [magicNumber], .data [0xFF, 0xFF]]

theorem possible_oversized :
  serialTest.recvThread.Possible (.start (fun _ => 0)) oversized
  := by decide +kernel

/-- The read that follows such a header runs past the end of the buffer. -/
theorem reads_out_of_bounds :
  ¬ ∀ (buf : Memory UInt8) (rs : List (ReadResult UInt8)),
      serialTest.recvThread.Possible (.start buf) rs →
      serialTest.recvThread.Throughout serialTest.ReadInBounds (.start buf) rs
  := by
  intro h
  have hall := h (fun _ => 0) oversized possible_oversized
  revert hall
  decide +kernel

end SerialTest

end Uart
