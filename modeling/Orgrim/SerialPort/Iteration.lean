import Orgrim.SerialPort.RecvingThread

/-!
# The iterations of the receiving thread

One iteration of `recvingThread`, state by state: what it does to the variables for each
result of its `read`, and what it does outside them.  The later modules use these lemmas in
place of the definitions.
-/

namespace SerialPort

/-! ### The tests of the iterations -/

theorem eq_magic_high (b : UInt8) :
  b.toNat = uartFrameMagicNumber >>> 8 ↔ b = 0xAA
  := by
  rw [← UInt8.toNat_inj]
  exact Iff.rfl

theorem eq_magic_low (b : UInt8) :
  b.toNat = uartFrameMagicNumber &&& 0xFF ↔ b = 0xAA
  := by
  rw [← UInt8.toNat_inj]
  exact Iff.rfl

theorem high_byte (b : UInt8) :
  (b.toNat <<< 8) &&& 0xFF00 = 2 ^ 8 * b.toNat
  := by
  have hb := b.toNat_lt
  have hmask : (0xFF00 : ℕ) = (2 ^ 8 - 1) <<< 8 := rfl
  rw [hmask, ← Nat.shiftLeft_and_distrib, Nat.and_two_pow_sub_one_eq_mod, Nat.mod_eq_of_lt hb,
    Nat.shiftLeft_eq, Nat.mul_comm]

theorem low_byte (b : UInt8) :
  b.toNat &&& 0xFF = b.toNat
  := by
  have hb := b.toNat_lt
  have hmask : (0xFF : ℕ) = 2 ^ 8 - 1 := rfl
  rw [hmask, Nat.and_two_pow_sub_one_eq_mod, Nat.mod_eq_of_lt hb]

/-- `handleRecvData` leaves the frame as it was. -/
theorem handleRecvData_frame (pFrame : UartFrame) :
  (handleRecvData pFrame).2.1 = pFrame
  := by
  simp only [handleRecvData, checkRecvData_eq]
  split
  · rfl
  · rfl

theorem handleRecvData_events (pFrame : UartFrame) :
  (handleRecvData pFrame).2.2
    = if (checkRecvData pFrame).1 < 0 then
        (if pFrame.magic = uartFrameMagicNumber then
          [.printFrame pFrame (pFrame.length + uartFrameSizeBeforeWithLength)]
        else [])
      else [.callBack pFrame]
  := by
  simp only [handleRecvData, checkRecvData_eq]
  split
  · rfl
  · rfl

theorem callBack_mem_handleRecvData {pFrame pFrame' : UartFrame} :
  .callBack pFrame' ∈ (handleRecvData pFrame).2.2
    ↔ pFrame' = pFrame ∧ 0 ≤ (checkRecvData pFrame).1
  := by
  rw [handleRecvData_events]
  by_cases hverdict : (checkRecvData pFrame).1 < 0
  · have hnever : ¬ 0 ≤ (checkRecvData pFrame).1 := by
      omega
    rw [if_pos hverdict]
    split
    · simp [hnever]
    · simp [hnever]
  · have halways : 0 ≤ (checkRecvData pFrame).1 := by
      omega
    simp [hverdict, halways]

/-- `HandleRecvData` prints the frame or calls it back. -/
theorem mem_handleRecvData {pFrame : UartFrame} {e : Event}
    (h : e ∈ (handleRecvData pFrame).2.2) :
  e = .printFrame pFrame (pFrame.length + uartFrameSizeBeforeWithLength) ∨
    e = .callBack pFrame
  := by
  rw [handleRecvData_events] at h
  split at h
  · split at h
    · left
      apply List.mem_singleton.mp h
    · cases h
  · right
    apply List.mem_singleton.mp h

namespace ThreadState

/-! ### The iterations, by what was read -/

variable {s : ThreadState}

theorem received_of_len_le {r : ReadResult UInt8} (hr : r.len ≤ 0) :
  s.received r = s
  := by
  rw [received, ReadResult.bytes_of_len_le hr, Memory.write_nil]

theorem iterate_magicNumber_none (h : s.state = .waitMagicNumber) {r : ReadResult UInt8}
    (hr : r.len ≤ 0) :
  s.iterate r = s.discard r.len
  := by
  have h₁ : r.len ≠ 1 := by omega
  have h₂ : r.len ≠ 2 := by omega
  simp only [iterate, h, received_of_len_le hr, onMagicNumber, h₁, h₂, false_and, if_false]

theorem iterate_magicNumber_one (h : s.state = .waitMagicNumber) (a : UInt8) :
  s.iterate (.data [a])
    = if a = 0xAA then
        ({ s with
            state := .waitMagicNumberSecondByte
            buf := s.buf.write 0 [a]
            recvLen := s.recvLen + 1 }, [])
      else discard { s with buf := s.buf.write 0 [a] } 1
  := by
  simp [iterate, received, target, onMagicNumber, h, eq_magic_high]

theorem iterate_magicNumber_two (h : s.state = .waitMagicNumber) (a b : UInt8) :
  s.iterate (.data [a, b])
    = if b = 0xAA then
        if a = 0xAA then
          ({ s with
              state := .waitLength
              buf := s.buf.write 0 [a, b]
              recvLen := s.recvLen + 2 }, [])
        else
          ({ s with
              state := .waitMagicNumberSecondByte
              buf := (s.buf.write 0 [a, b]).write 0 [b]
              recvLen := s.recvLen + 1 }, [])
      else discard { s with buf := s.buf.write 0 [a, b] } 2
  := by
  have hb : s.buf.write 0 [a, b] 1 = b := rfl
  simp [iterate, received, target, onMagicNumber, h, eq_magic_high, eq_magic_low, hb]

theorem iterate_secondByte_none (h : s.state = .waitMagicNumberSecondByte)
    {r : ReadResult UInt8} (hr : r.len ≤ 0) :
  s.iterate r = s.restart.discard r.len
  := by
  have h₁ : r.len ≠ 1 := by omega
  simp only [iterate, h, received_of_len_le hr, onMagicNumberSecondByte, h₁, false_and, if_false]

theorem iterate_secondByte_one (h : s.state = .waitMagicNumberSecondByte) (a : UInt8) :
  s.iterate (.data [a])
    = if a = 0xAA then
        ({ s with
            state := .waitLength
            buf := s.buf.write s.recvLen [a]
            recvLen := s.recvLen + 1 }, [])
      else discard (restart { s with buf := s.buf.write s.recvLen [a] }) 1
  := by
  simp [iterate, received, target, onMagicNumberSecondByte, h, eq_magic_low]

/-- A read of the length that fails or returns nothing is made again. -/
theorem iterate_length_none (h : s.state = .waitLength) {r : ReadResult UInt8}
    (hr : r.len ≤ 0) :
  s.iterate r = (s, [])
  := by
  have h₁ : r.len ≠ 1 := by omega
  have h₂ : r.len ≠ 2 := by omega
  simp only [iterate, h, received_of_len_le hr, onLength, h₁, h₂, if_false]

theorem iterate_length_one (h : s.state = .waitLength) (lo : UInt8) :
  s.iterate (.data [lo])
    = ({ s with
          state := .waitLengthSecondByte
          lenTemp := lo.toNat
          buf := s.buf.write s.recvLen [lo]
          recvLen := s.recvLen + 1 }, [])
  := by
  simp [iterate, received, target, onLength, h]

theorem iterate_length_two (h : s.state = .waitLength) (lo hi : UInt8) :
  s.iterate (.data [lo, hi])
    = onLengthKnown
        { s with
          state := .waitRestFrameAndData
          lenTemp := lo.toNat + 2 ^ 8 * hi.toNat
          buf := s.buf.write s.recvLen [lo, hi]
          recvLen := s.recvLen + 2 } (.data [lo, hi])
  := by
  have hhi : s.buf.write s.recvLen [lo, hi] (s.recvLen + 1) = hi := by
    rw [Memory.write_apply_add _ _ _ (by simp)]
    rfl
  simp [iterate, received, target, onLength, h, high_byte, low_byte, hhi, Nat.add_comm]

theorem iterate_lengthSecondByte_none (h : s.state = .waitLengthSecondByte)
    {r : ReadResult UInt8} (hr : r.len ≤ 0) :
  s.iterate r = (s, [])
  := by
  have h₁ : r.len ≠ 1 := by omega
  simp only [iterate, h, received_of_len_le hr, onLengthSecondByte, h₁, if_false]

theorem iterate_lengthSecondByte_one (h : s.state = .waitLengthSecondByte) (hi : UInt8) :
  s.iterate (.data [hi])
    = onLengthKnown
        { s with
          state := .waitRestFrameAndData
          lenTemp := s.lenTemp + 2 ^ 8 * hi.toNat
          buf := s.buf.write s.recvLen [hi]
          recvLen := s.recvLen + 1 } (.data [hi])
  := by
  simp [iterate, received, target, onLengthSecondByte, h, high_byte]

/-- A short read of the rest of a frame is waited on. -/
theorem iterate_rest_short (h : s.state = .waitRestFrameAndData) {p : List UInt8}
    (hp : p ≠ []) (hlt : p.length + s.last < s.lenTemp) :
  s.iterate (.data p)
    = ({ s with
          buf := s.buf.write (s.recvLen + s.last) p
          last := s.last + p.length }, [])
  := by
  have hpos := List.length_pos_iff.mpr hp
  have hshort : (p.length : ℤ) < (s.lenTemp : ℤ) - s.last ∧ (p.length : ℤ) > 0 := by
    omega
  simp only [iterate, received, target, onRestFrameAndData, h, ReadResult.len_data,
    ReadResult.bytes_data, if_pos hshort]

/-- Any other read of the rest of a frame hands it over. -/
theorem iterate_rest_over (h : s.state = .waitRestFrameAndData) {r : ReadResult UInt8}
    (hover : ¬ (r.len < (s.lenTemp : ℤ) - s.last ∧ r.len > 0)) :
  s.iterate r
    = handOver { s with buf := s.buf.write (s.recvLen + s.last) r.bytes }
  := by
  simp only [iterate, received, target, onRestFrameAndData, h, if_neg hover]

/-! ### What an iteration does outside its variables -/

/-- The read is one whose bytes are discarded into `errorBuff`: a magic number or a length
was awaited and something else was read. -/
def rejects (s : ThreadState) (r : ReadResult UInt8) : Bool :=
  match s.state, r with
  | .waitMagicNumber, .data [a] => a ≠ 0xAA
  | .waitMagicNumber, .data [_, b] => b ≠ 0xAA
  | .waitMagicNumber, _ => true
  | .waitMagicNumberSecondByte, .data [a] => a ≠ 0xAA
  | .waitMagicNumberSecondByte, _ => true
  | .waitLength, .data [lo, hi] => uartFrameMaxSize < lo.toNat + 2 ^ 8 * hi.toNat
  | .waitLengthSecondByte, .data [hi] => uartFrameMaxSize < s.lenTemp + 2 ^ 8 * hi.toNat
  | _, _ => false

/-- The read is one that ends a frame: the rest of it was awaited, and the read was not a
short one. -/
def ends (s : ThreadState) (r : ReadResult UInt8) : Bool :=
  s.state = .waitRestFrameAndData ∧ ¬ (r.len < (s.lenTemp : ℤ) - s.last ∧ r.len > 0)

theorem rejects_rest (h : s.state = .waitRestFrameAndData) (r : ReadResult UInt8) :
  s.rejects r = false
  := by
  simp [rejects, h]

theorem onLengthKnown_events (r : ReadResult UInt8) :
  (s.onLengthKnown r).2
      = (if uartFrameMaxSize < s.lenTemp then [.errorCopy s.errorBuffOffset r.len] else [])
    ∧ (s.onLengthKnown r).1.errorBuffOffset
      = s.errorBuffOffset + (if uartFrameMaxSize < s.lenTemp then r.len else 0)
  := by
  by_cases h : s.lenTemp > uartFrameMaxSize
  · simp [onLengthKnown, discard, restart, h]
  · simp [onLengthKnown, h]

/-- Outside the rest of a frame an iteration discards what it rejects, and does nothing
else. -/
theorem iterate_events (h : s.state ≠ .waitRestFrameAndData) (r : ReadResult UInt8) :
  (s.iterate r).2 = (if s.rejects r then [.errorCopy s.errorBuffOffset r.len] else [])
    ∧ (s.iterate r).1.errorBuffOffset
      = s.errorBuffOffset + (if s.rejects r then r.len else 0)
  := by
  cases hs : s.state with
  | waitMagicNumber =>
      match r with
      | .error => simp [iterate, received, onMagicNumber, hs, rejects, discard]
      | .data [] => simp [iterate, received, onMagicNumber, hs, rejects, discard]
      | .data [a] =>
          rw [iterate_magicNumber_one hs]
          by_cases ha : a = 0xAA
          · simp [rejects, hs, ha]
          · simp [rejects, hs, ha, discard]
      | .data [a, b] =>
          rw [iterate_magicNumber_two hs]
          by_cases hb : b = 0xAA
          · by_cases ha : a = 0xAA
            · simp [rejects, hs, ha, hb]
            · simp [rejects, hs, ha, hb]
          · simp [rejects, hs, hb, discard]
      | .data (a :: b :: c :: p) =>
          have h₁ : (p.length : ℤ) + 1 + 1 + 1 ≠ 1 := by omega
          have h₂ : (p.length : ℤ) + 1 + 1 + 1 ≠ 2 := by omega
          simp [iterate, received, onMagicNumber, hs, rejects, discard, h₁, h₂]
  | waitMagicNumberSecondByte =>
      match r with
      | .error => simp [iterate, received, onMagicNumberSecondByte, hs, rejects, discard, restart]
      | .data [] => simp [iterate, received, onMagicNumberSecondByte, hs, rejects, discard, restart]
      | .data [a] =>
          rw [iterate_secondByte_one hs]
          by_cases ha : a = 0xAA
          · simp [rejects, hs, ha]
          · simp [rejects, hs, ha, discard, restart]
      | .data (a :: b :: p) =>
          have h₁ : (p.length : ℤ) + 1 + 1 ≠ 1 := by omega
          simp [iterate, received, onMagicNumberSecondByte, hs, rejects, discard, restart, h₁]
  | waitLength =>
      match r with
      | .error => simp [iterate, received, onLength, hs, rejects]
      | .data [] => simp [iterate, received, onLength, hs, rejects]
      | .data [lo] => simp [iterate_length_one hs, hs, rejects]
      | .data [lo, hi] =>
          rw [iterate_length_two hs]
          simpa [rejects, hs] using onLengthKnown_events (.data [lo, hi])
      | .data (a :: b :: c :: p) =>
          have h₁ : (p.length : ℤ) + 1 + 1 + 1 ≠ 1 := by omega
          have h₂ : (p.length : ℤ) + 1 + 1 + 1 ≠ 2 := by omega
          simp [iterate, received, onLength, hs, rejects, h₁, h₂]
  | waitLengthSecondByte =>
      match r with
      | .error => simp [iterate, received, onLengthSecondByte, hs, rejects]
      | .data [] => simp [iterate, received, onLengthSecondByte, hs, rejects]
      | .data [hi] =>
          rw [iterate_lengthSecondByte_one hs]
          simpa [rejects, hs] using onLengthKnown_events (.data [hi])
      | .data (a :: b :: p) =>
          have h₁ : (p.length : ℤ) + 1 + 1 ≠ 1 := by omega
          simp [iterate, received, onLengthSecondByte, hs, rejects, h₁]
  | waitRestFrameAndData => exact absurd hs h

theorem ends_iff {r : ReadResult UInt8} :
  s.ends r ↔ s.state = .waitRestFrameAndData ∧ ¬ (r.len < (s.lenTemp : ℤ) - s.last ∧ r.len > 0)
  := decide_eq_true_iff

/-- A read that ends a frame hands over what `buf` holds. -/
theorem iterate_of_ends {r : ReadResult UInt8} (h : s.ends r) :
  s.iterate r = (s.received r).handOver
  := by
  obtain ⟨hs, hover⟩ := ends_iff.mp h
  simp only [iterate, hs, onRestFrameAndData]
  apply if_neg hover

/-- A short read of the rest of a frame does nothing else. -/
theorem iterate_of_not_ends (hs : s.state = .waitRestFrameAndData) {r : ReadResult UInt8}
    (h : ¬ s.ends r) :
  (s.iterate r).2 = [] ∧ (s.iterate r).1.errorBuffOffset = s.errorBuffOffset
  := by
  have hshort : r.len < (s.lenTemp : ℤ) - s.last ∧ r.len > 0 := by
    by_contra hover
    apply h
    rw [ends_iff]
    exact ⟨hs, hover⟩
  have hiter : s.iterate r
      = ({ s.received r with last := (s.received r).last + r.bytes.length }, []) := by
    simp only [iterate, hs, onRestFrameAndData]
    apply if_pos hshort
  rw [hiter]
  exact ⟨rfl, rfl⟩

/-- The variables after the end of a frame. -/
theorem handOver_fst (hnonneg : 0 ≤ s.errorBuffOffset) :
  s.handOver.1
    = { s with errorBuffOffset := 0, last := 0, state := .waitMagicNumber, recvLen := 0 }
  := by
  have hzero : (if s.errorBuffOffset > 0 then 0 else s.errorBuffOffset) = 0 := by
    split
    · rfl
    · omega
  simp only [handOver, handleRecvData_frame, hzero]

theorem mem_handOver {e : Event} :
  e ∈ s.handOver.2
    ↔ (s.errorBuffOffset > 0 ∧ e = .printNoise s.errorBuff s.errorBuffOffset) ∨
      e = .handed s.buf ∨ e ∈ (handleRecvData s.buf).2.2
  := by
  simp only [handOver, List.mem_append, List.mem_cons]
  split
  · rename_i h
    simp [h]
  · rename_i h
    simp [h]

/-- A frame is called back when its reception ends and it passes the check. -/
theorem callBack_mem_iterate {r : ReadResult UInt8} {pFrame : UartFrame} :
  .callBack pFrame ∈ (s.iterate r).2
    ↔ s.ends r ∧ pFrame = (s.received r).buf ∧ 0 ≤ (checkRecvData pFrame).1
  := by
  by_cases hends : s.ends r
  · rw [iterate_of_ends hends, mem_handOver, callBack_mem_handleRecvData]
    constructor
    · rintro (⟨-, h⟩ | h | ⟨rfl, hverdict⟩)
      · cases h
      · cases h
      · exact ⟨hends, rfl, hverdict⟩
    · rintro ⟨-, rfl, hverdict⟩
      right
      right
      exact ⟨rfl, hverdict⟩
  · simp only [hends, Bool.false_eq_true, false_and, iff_false]
    by_cases hs : s.state = .waitRestFrameAndData
    · rw [(iterate_of_not_ends hs hends).1]
      apply List.not_mem_nil
    · rw [(iterate_events hs r).1]
      split
      · simp
      · simp

end ThreadState

end SerialPort
