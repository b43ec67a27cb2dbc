import Orgrim.SerialPort.Iteration

/-!
# The error buffer

The bytes that belong to no frame are gathered in `errorBuff` until a frame ends, which
prints them.  Nothing limits how many they are, a failed read is taken for one of size `-1`,
and the printer has less room than `errorBuff`.  `errorPath_iff` says for which runs all of
this stays in bounds.
-/

namespace SerialPort

/-- The error path of an iteration stays in bounds: no copy into `errorBuff` has a negative
size, `errorBuffOffset` ends inside `errorBuff`, and the noise printed fits into `arrBuff`. -/
def ErrorPathInBounds (s : ThreadState) (r : ReadResult UInt8) : Prop :=
  (∀ offset size, .errorCopy offset size ∈ (s.iterate r).2 → 0 ≤ size) ∧
    (0 ≤ (s.iterate r).1.errorBuffOffset ∧
      (s.iterate r).1.errorBuffOffset ≤ 2 * commBufferMaxLen) ∧
    ∀ errorBuff len, .printNoise errorBuff len ∈ (s.iterate r).2 →
      PrintSafe .recvErr errorBuff len.toNat

namespace ThreadState

/-- The number of bytes rejected since a frame has ended, after an iteration. -/
def noise (s : ThreadState) (r : ReadResult UInt8) (n : ℕ) : ℕ :=
  if s.rejects r then n + r.bytes.length else if s.ends r then 0 else n

end ThreadState

/-- The reads that are rejected do not fail, the bytes rejected since a frame has ended fit
into `errorBuff`, and when a frame ends they can be printed. -/
def NoiseWithinLimits (x : ThreadState × ℕ) (r : ReadResult UInt8) : Prop :=
  (x.1.rejects r → r ≠ .error ∧ x.2 + r.bytes.length ≤ 2 * commBufferMaxLen) ∧
    (x.1.ends r → x.2 ≤ recvErrMax)

/-- The noise gathered is what has been rejected, and it has stayed inside `errorBuff`. -/
def Metered (x : ThreadState × ℕ) : Prop :=
  x.1.errorBuffOffset = x.2 ∧ x.2 ≤ 2 * commBufferMaxLen

section

variable {s : ThreadState} {n : ℕ} {r : ReadResult UInt8}

/-- While no frame is being filled, the error path stays in bounds exactly within the
limits. -/
theorem errorPath_iff_of_hunting (h : Metered (s, n)) (hs : s.state ≠ .waitRestFrameAndData) :
  ErrorPathInBounds s r ↔ NoiseWithinLimits (s, n) r
  := by
  obtain ⟨hoffset, hle⟩ := h
  obtain ⟨hevents, hoffset'⟩ := ThreadState.iterate_events hs r
  have hends : ¬ s.ends r := by
    rw [ThreadState.ends_iff]
    exact fun h => hs h.1
  simp only at hoffset hle
  by_cases hrejects : s.rejects r
  · rw [if_pos hrejects] at hevents hoffset'
    constructor
    · rintro ⟨hsize, ⟨-, hmax⟩, -⟩
      have hlen : 0 ≤ r.len := by
        apply hsize s.errorBuffOffset
        rw [hevents]
        apply List.mem_singleton.mpr rfl
      have heq := ReadResult.len_eq_length hlen
      constructor
      · intro _
        constructor
        · rintro rfl
          simp at hlen
        · simp only
          omega
      · exact fun h => absurd h hends
    · rintro ⟨hwithin, -⟩
      obtain ⟨herror, hmax⟩ := hwithin hrejects
      have heq : r.len = r.bytes.length := by
        cases r with
        | error => exact absurd rfl herror
        | data p => rfl
      simp only at hmax
      and_intros
      · intro offset size hmem
        rw [hevents] at hmem
        cases List.mem_singleton.mp hmem
        omega
      · omega
      · omega
      · intro errorBuff len hmem
        rw [hevents] at hmem
        cases List.mem_singleton.mp hmem
  · rw [if_neg hrejects] at hevents hoffset'
    constructor
    · intro _
      exact ⟨fun h => absurd h hrejects, fun h => absurd h hends⟩
    · intro _
      and_intros
      · intro offset size hmem
        rw [hevents] at hmem
        cases hmem
      · omega
      · omega
      · intro errorBuff len hmem
        rw [hevents] at hmem
        cases hmem

/-- The end of a frame stays in bounds exactly when the noise before it can be printed. -/
theorem errorPath_iff_of_ends (h : Metered (s, n)) (hends : s.ends r) :
  ErrorPathInBounds s r ↔ NoiseWithinLimits (s, n) r
  := by
  obtain ⟨hoffset, hle⟩ := h
  simp only at hoffset hle
  have hstate := (ThreadState.ends_iff.mp hends).1
  have hrejects : ¬ s.rejects r := by
    rw [ThreadState.rejects_rest hstate]
    exact Bool.false_ne_true
  have hiter := ThreadState.iterate_of_ends hends
  have hreceived : (s.received r).errorBuffOffset = n := hoffset
  constructor
  · rintro ⟨-, -, hprint⟩
    constructor
    · exact fun h => absurd h hrejects
    · intro _
      by_cases hn : n = 0
      · simp only
        omega
      · apply (printSafe_iff (Nat.pos_of_ne_zero hn)).mp
        apply hprint (s.received r).errorBuff n
        rw [hiter, ThreadState.mem_handOver, hreceived]
        left
        constructor
        · omega
        · rfl
  · rintro ⟨-, hmax⟩
    have hfst := ThreadState.handOver_fst (s := s.received r) (by omega)
    and_intros
    · intro offset size hmem
      rw [hiter, ThreadState.mem_handOver] at hmem
      rcases hmem with ⟨-, h⟩ | h | h
      · cases h
      · cases h
      · rcases mem_handleRecvData h with h | h
        · cases h
        · cases h
    · apply Int.le_of_eq
      rw [hiter, hfst]
    · have hpos : (0 : ℤ) ≤ 2 * commBufferMaxLen := by
        omega
      rw [hiter, hfst]
      exact hpos
    · intro errorBuff len hmem
      rw [hiter, ThreadState.mem_handOver, hreceived] at hmem
      rcases hmem with ⟨hpos, h⟩ | h | h
      · cases h
        apply (printSafe_iff (by omega)).mpr
        apply hmax hends
      · cases h
      · rcases mem_handleRecvData h with h | h
        · cases h
        · cases h

/-- An iteration stays in bounds on its error path exactly within the limits. -/
theorem errorPathInBounds_iff (h : Metered (s, n)) :
  ErrorPathInBounds s r ↔ NoiseWithinLimits (s, n) r
  := by
  by_cases hs : s.state = .waitRestFrameAndData
  · by_cases hends : s.ends r
    · apply errorPath_iff_of_ends h hends
    · obtain ⟨hoffset, hle⟩ := h
      simp only at hoffset hle
      obtain ⟨hevents, hoffset'⟩ := ThreadState.iterate_of_not_ends hs hends
      constructor
      · intro _
        rw [NoiseWithinLimits, ThreadState.rejects_rest hs]
        exact ⟨fun h => absurd h Bool.false_ne_true, fun h => absurd h hends⟩
      · intro _
        rw [ErrorPathInBounds, hevents, hoffset', hoffset]
        and_intros
        · exact fun _ _ h => absurd h List.not_mem_nil
        · omega
        · omega
        · exact fun _ _ h => absurd h List.not_mem_nil
  · apply errorPath_iff_of_hunting h hs

/-- Within the limits, `errorBuffOffset` is the number of bytes rejected. -/
theorem metered_iterate (h : Metered (s, n)) (hbounds : ErrorPathInBounds s r) :
  Metered ((s.iterate r).1, s.noise r n)
  := by
  obtain ⟨hrejected, -⟩ := (errorPathInBounds_iff h).mp hbounds
  obtain ⟨-, ⟨hnonneg, hmax⟩, -⟩ := hbounds
  obtain ⟨hoffset, hle⟩ := h
  simp only at hoffset hle hrejected
  suffices heq : (s.iterate r).1.errorBuffOffset = s.noise r n by
    constructor
    · exact heq
    · simp only
      omega
  by_cases hs : s.state = .waitRestFrameAndData
  · have hrejects := ThreadState.rejects_rest hs r
    by_cases hends : s.ends r
    · have hfst := ThreadState.handOver_fst (s := s.received r) (by
        simp only [ThreadState.received]
        omega)
      simp [ThreadState.iterate_of_ends hends, hfst, ThreadState.noise, hrejects, hends]
    · simp [(ThreadState.iterate_of_not_ends hs hends).2, ThreadState.noise, hrejects, hends,
        hoffset]
  · have hends : ¬ s.ends r := by
      rw [ThreadState.ends_iff]
      exact fun h => hs h.1
    rw [(ThreadState.iterate_events hs r).2, hoffset, ThreadState.noise]
    by_cases hrejects : s.rejects r
    · have hlen : r.len = r.bytes.length := by
        cases r with
        | error => exact absurd rfl (hrejected hrejects).1
        | data p => rfl
      rw [if_pos hrejects, if_pos hrejects, hlen]
      rfl
    · rw [if_neg hrejects, if_neg hrejects, if_neg hends]
      apply Int.add_zero

end

/-- For every list of results of `read`, the error path stays in bounds if and only if no
failed read is rejected, never more bytes are rejected between two ends of frames than
`errorBuff` holds, and never more than can be printed before an end of a frame. -/
theorem errorPath_iff (errorBuff : Memory UInt8) (rs : List (ReadResult UInt8)) :
  recvingThread.Along ErrorPathInBounds (.start errorBuff) rs
    ↔ (recvingThread.recording ThreadState.noise).Along NoiseWithinLimits
        (.start errorBuff, 0) rs
  := by
  rw [← Reader.along_recording ThreadState.noise _ _ 0]
  apply Reader.along_congr (Q := fun _ _ => True) Metered
  · intro x r hmetered _
    apply errorPathInBounds_iff hmetered
  · intro x r hmetered _ hbounds
    apply metered_iterate hmetered hbounds
  · constructor
    · rfl
    · apply Nat.zero_le
  · apply Reader.along_of_forall
    exact fun _ _ => trivial

/-- A failed read while the magic number is awaited is copied with the size `-1`. -/
theorem failed_read_copied :
  recvingThread.Possible (.start fun _ => 0) [.error] ∧
    ¬ recvingThread.Along ErrorPathInBounds (.start fun _ => 0) [.error]
  := by
  constructor
  · decide
  · rintro ⟨⟨hsize, -, -⟩, -⟩
    have hcopy := hsize 0 (-1) (List.mem_singleton.mpr rfl)
    revert hcopy
    decide

end SerialPort
