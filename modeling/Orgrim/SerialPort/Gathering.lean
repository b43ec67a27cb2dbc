import Orgrim.SerialPort.Iteration

/-!
# What the receiving thread has gathered of a frame

`ThreadState.since` follows, next to the thread, the bytes received since the first byte of
the magic number.  `Gathered` says what the variables and the beginning of `buf` are in each
state, in terms of these bytes; it holds along every list of read results, failed reads
included (`gathered_iterate`).
-/

namespace SerialPort

namespace ThreadState

/-- The bytes received since the first byte of the magic number, after an iteration: none
while the magic number is awaited, and those of the iteration's `read` from the first byte
of the magic number on if it was awaited before. -/
def since (s : ThreadState) (r : ReadResult UInt8) (w : List UInt8) : List UInt8 :=
  if (s.iterate r).1.state = .waitMagicNumber then []
  else if s.state = .waitMagicNumber then r.bytes.drop (r.bytes.length - (s.iterate r).1.recvLen)
  else w ++ r.bytes

end ThreadState

/-- The variables of the thread when it has received the bytes `w` since the first byte of
the magic number. -/
inductive Gathered : ThreadState → List UInt8 → Prop where
  | magicNumber {s} (state : s.state = .waitMagicNumber) (recvLen : s.recvLen = 0)
      (last : s.last = 0) : Gathered s []
  | secondByte {s} (state : s.state = .waitMagicNumberSecondByte) (recvLen : s.recvLen = 1)
      (last : s.last = 0) (stored : s.buf.slice 0 1 = [0xAA]) : Gathered s [0xAA]
  | length {s} (state : s.state = .waitLength) (recvLen : s.recvLen = 2)
      (last : s.last = 0) (stored : s.buf.slice 0 2 = [0xAA, 0xAA]) :
      Gathered s [0xAA, 0xAA]
  | lengthSecondByte {s} (lo : UInt8) (state : s.state = .waitLengthSecondByte)
      (recvLen : s.recvLen = 3) (last : s.last = 0) (lenTemp : s.lenTemp = lo.toNat)
      (stored : s.buf.slice 0 3 = [0xAA, 0xAA, lo]) : Gathered s [0xAA, 0xAA, lo]
  | rest {s} (lo hi : UInt8) (got : List UInt8) (state : s.state = .waitRestFrameAndData)
      (recvLen : s.recvLen = 4) (last : s.last = got.length)
      (lenTemp : s.lenTemp = lo.toNat + 2 ^ 8 * hi.toNat) (max : s.lenTemp ≤ uartFrameMaxSize)
      (missing : s.last < s.lenTemp ∨ s.lenTemp = 0 ∧ s.last = 0)
      (stored : s.buf.slice 0 (4 + got.length) = 0xAA :: 0xAA :: lo :: hi :: got) :
      Gathered s (0xAA :: 0xAA :: lo :: hi :: got)

theorem gathered_start (errorBuff : Memory UInt8) :
  Gathered (.start errorBuff) []
  := .magicNumber rfl rfl rfl

/-- Every `read` stays inside `buf`. -/
theorem Gathered.readInBounds {s : ThreadState} {w : List UInt8} (h : Gathered s w) :
  s.ReadInBounds
  := by
  have hmax : uartFrameMaxSize = 344 := rfl
  have hbuf : commBufferMaxLen = 2048 := rfl
  rw [ThreadState.ReadInBounds, hbuf]
  cases h with
  | magicNumber state recvLen last =>
      simp [ThreadState.target, ThreadState.request, state]
  | secondByte state recvLen last stored =>
      simp [ThreadState.target, ThreadState.request, state, recvLen]
  | length state recvLen last stored =>
      simp [ThreadState.target, ThreadState.request, state, recvLen]
  | lengthSecondByte lo state recvLen last lenTemp stored =>
      simp [ThreadState.target, ThreadState.request, state, recvLen]
  | rest lo hi got state recvLen last lenTemp max missing stored =>
      simp only [ThreadState.target, ThreadState.request, state, recvLen]
      omega

/-! ### One iteration -/

section

variable {s : ThreadState} {r : ReadResult UInt8} {w : List UInt8}

theorem since_of_magicNumber (h : (s.iterate r).1.state = .waitMagicNumber) :
  s.since r w = []
  := if_pos h

theorem since_of_opened (h : (s.iterate r).1.state ≠ .waitMagicNumber)
    (state : s.state = .waitMagicNumber) :
  s.since r w = r.bytes.drop (r.bytes.length - (s.iterate r).1.recvLen)
  := by
  rw [ThreadState.since, if_neg h, if_pos state]

theorem since_of_continued (h : (s.iterate r).1.state ≠ .waitMagicNumber)
    (state : s.state ≠ .waitMagicNumber) :
  s.since r w = w ++ r.bytes
  := by
  rw [ThreadState.since, if_neg h, if_neg state]

/-- With both bytes of the length the rest of the frame is awaited, or the magic number. -/
theorem gathered_lengthKnown {lo hi : UInt8} (state : s.state = .waitRestFrameAndData)
    (recvLen : s.recvLen = 4) (last : s.last = 0)
    (lenTemp : s.lenTemp = lo.toNat + 2 ^ 8 * hi.toNat)
    (stored : s.buf.slice 0 4 = [0xAA, 0xAA, lo, hi]) :
  Gathered (s.onLengthKnown r).1
    (if (s.onLengthKnown r).1.state = .waitMagicNumber then [] else [0xAA, 0xAA, lo, hi])
  := by
  by_cases hmax : s.lenTemp > uartFrameMaxSize
  · rw [ThreadState.onLengthKnown, if_pos hmax]
    exact .magicNumber rfl rfl last
  · have hmissing : s.last < s.lenTemp ∨ s.lenTemp = 0 ∧ s.last = 0 := by
      omega
    rw [ThreadState.onLengthKnown, if_neg hmax, if_neg (by simp [state])]
    exact .rest lo hi [] state recvLen last lenTemp (Nat.le_of_not_lt hmax) hmissing stored

theorem gathered_magicNumber (hr : r.bytes.length ≤ 2) (state : s.state = .waitMagicNumber)
    (recvLen : s.recvLen = 0) (last : s.last = 0) :
  Gathered (s.iterate r).1 (s.since r w)
  := by
  rcases ReadResult.eq_of_length_le_two hr with hnone | ⟨a, rfl⟩ | ⟨a, b, rfl⟩
  · have hiter := ThreadState.iterate_magicNumber_none state hnone
    rw [since_of_magicNumber (by simp [hiter, ThreadState.discard, state]), hiter]
    exact .magicNumber state recvLen last
  · have hiter := ThreadState.iterate_magicNumber_one state a
    by_cases ha : a = 0xAA
    · subst ha
      rw [if_pos rfl] at hiter
      rw [since_of_opened (by simp [hiter]) state, hiter]
      simp only [ReadResult.bytes_data, recvLen]
      exact .secondByte rfl rfl last rfl
    · rw [if_neg ha] at hiter
      rw [since_of_magicNumber (by simp [hiter, ThreadState.discard, state]), hiter]
      exact .magicNumber state recvLen last
  · have hiter := ThreadState.iterate_magicNumber_two state a b
    by_cases hb : b = 0xAA
    · subst hb
      by_cases ha : a = 0xAA
      · subst ha
        rw [if_pos rfl, if_pos rfl] at hiter
        rw [since_of_opened (by simp [hiter]) state, hiter]
        simp only [ReadResult.bytes_data, recvLen]
        exact .length rfl rfl last rfl
      · rw [if_pos rfl, if_neg ha] at hiter
        rw [since_of_opened (by simp [hiter]) state, hiter]
        simp only [ReadResult.bytes_data, recvLen]
        exact .secondByte rfl rfl last rfl
    · rw [if_neg hb] at hiter
      rw [since_of_magicNumber (by simp [hiter, ThreadState.discard, state]), hiter]
      exact .magicNumber state recvLen last

theorem gathered_secondByte (hr : r.bytes.length ≤ 1)
    (state : s.state = .waitMagicNumberSecondByte) (recvLen : s.recvLen = 1)
    (last : s.last = 0) (stored : s.buf.slice 0 1 = [0xAA]) :
  Gathered (s.iterate r).1 (s.since r [0xAA])
  := by
  rcases ReadResult.eq_of_length_le_one hr with hnone | ⟨a, rfl⟩
  · have hiter := ThreadState.iterate_secondByte_none state hnone
    rw [since_of_magicNumber (by simp [hiter, ThreadState.discard, ThreadState.restart]),
      hiter]
    exact .magicNumber rfl rfl last
  · have hiter := ThreadState.iterate_secondByte_one state a
    by_cases ha : a = 0xAA
    · subst ha
      rw [if_pos rfl] at hiter
      rw [since_of_continued (by simp [hiter]) (by simp [state]), hiter]
      have hstored := Memory.slice_write_append s.buf 0 1 [0xAA]
      rw [stored] at hstored
      simp only [recvLen]
      exact .length rfl rfl last hstored
    · rw [if_neg ha] at hiter
      rw [since_of_magicNumber (by simp [hiter, ThreadState.discard, ThreadState.restart]),
        hiter]
      exact .magicNumber rfl rfl last

theorem gathered_length (hr : r.bytes.length ≤ 2) (state : s.state = .waitLength)
    (recvLen : s.recvLen = 2) (last : s.last = 0) (stored : s.buf.slice 0 2 = [0xAA, 0xAA]) :
  Gathered (s.iterate r).1 (s.since r [0xAA, 0xAA])
  := by
  rcases ReadResult.eq_of_length_le_two hr with hnone | ⟨lo, rfl⟩ | ⟨lo, hi, rfl⟩
  · have hiter := ThreadState.iterate_length_none state hnone
    rw [since_of_continued (by simp [hiter, state]) (by simp [state]), hiter,
      ReadResult.bytes_of_len_le hnone]
    exact .length state recvLen last stored
  · have hiter := ThreadState.iterate_length_one state lo
    have hstored := Memory.slice_write_append s.buf 0 2 [lo]
    rw [since_of_continued (by simp [hiter]) (by simp [state]), hiter]
    rw [stored] at hstored
    simp only [recvLen]
    exact .lengthSecondByte lo rfl rfl last rfl hstored
  · have hiter := ThreadState.iterate_length_two state lo hi
    have hstored := Memory.slice_write_append s.buf 0 2 [lo, hi]
    rw [stored] at hstored
    simp only [recvLen] at hiter
    simp only [ThreadState.since, hiter, state]
    exact gathered_lengthKnown rfl rfl last rfl hstored

theorem gathered_lengthSecondByte {lo : UInt8} (hr : r.bytes.length ≤ 1)
    (state : s.state = .waitLengthSecondByte) (recvLen : s.recvLen = 3) (last : s.last = 0)
    (lenTemp : s.lenTemp = lo.toNat) (stored : s.buf.slice 0 3 = [0xAA, 0xAA, lo]) :
  Gathered (s.iterate r).1 (s.since r [0xAA, 0xAA, lo])
  := by
  rcases ReadResult.eq_of_length_le_one hr with hnone | ⟨hi, rfl⟩
  · have hiter := ThreadState.iterate_lengthSecondByte_none state hnone
    rw [since_of_continued (by simp [hiter, state]) (by simp [state]), hiter,
      ReadResult.bytes_of_len_le hnone]
    exact .lengthSecondByte lo state recvLen last lenTemp stored
  · have hiter := ThreadState.iterate_lengthSecondByte_one state hi
    have hstored := Memory.slice_write_append s.buf 0 3 [hi]
    rw [stored] at hstored
    simp only [recvLen, lenTemp] at hiter
    simp only [ThreadState.since, hiter, state]
    exact gathered_lengthKnown rfl rfl last rfl hstored

theorem gathered_rest {lo hi : UInt8} {got : List UInt8} (hr : r.bytes.length ≤ s.request)
    (state : s.state = .waitRestFrameAndData) (recvLen : s.recvLen = 4)
    (last : s.last = got.length) (lenTemp : s.lenTemp = lo.toNat + 2 ^ 8 * hi.toNat)
    (max : s.lenTemp ≤ uartFrameMaxSize)
    (stored : s.buf.slice 0 (4 + got.length) = 0xAA :: 0xAA :: lo :: hi :: got) :
  Gathered (s.iterate r).1 (s.since r (0xAA :: 0xAA :: lo :: hi :: got))
  := by
  by_cases hover : r.len < (s.lenTemp : ℤ) - s.last ∧ r.len > 0
  · obtain ⟨p, rfl⟩ : ∃ p, r = .data p := by
      cases r with
      | error => simp at hover
      | data p => use p
    simp only [ReadResult.len_data] at hover
    have hp : p ≠ [] := by
      rintro rfl
      simp at hover
    have hiter := ThreadState.iterate_rest_short state hp (by omega)
    have hstored := Memory.slice_write_append s.buf 0 (4 + got.length) p
    rw [stored, Nat.zero_add, Nat.add_assoc, ← List.length_append] at hstored
    rw [since_of_continued (by simp [hiter, state]) (by simp [state]), hiter]
    simp only [recvLen, last]
    apply Gathered.rest lo hi (got ++ p)
    · exact state
    · rfl
    · apply List.length_append.symm
    · exact lenTemp
    · exact max
    · simp only
      omega
    · exact hstored
  · have hiter := ThreadState.iterate_rest_over state hover
    rw [since_of_magicNumber (by rw [hiter]; rfl), hiter]
    exact .magicNumber rfl rfl rfl

/-- What the thread has gathered is what it has received since the magic number, whatever
`read` returns. -/
theorem gathered_iterate (h : Gathered s w) (hr : r.bytes.length ≤ s.request) :
  Gathered (s.iterate r).1 (s.since r w)
  := by
  cases h with
  | magicNumber state recvLen last =>
      rw [ThreadState.request, state] at hr
      apply gathered_magicNumber hr state recvLen last
  | secondByte state recvLen last stored =>
      rw [ThreadState.request, state] at hr
      apply gathered_secondByte hr state recvLen last stored
  | length state recvLen last stored =>
      rw [ThreadState.request, state] at hr
      apply gathered_length hr state recvLen last stored
  | lengthSecondByte lo state recvLen last lenTemp stored =>
      rw [ThreadState.request, state] at hr
      apply gathered_lengthSecondByte hr state recvLen last lenTemp stored
  | rest lo hi got state recvLen last lenTemp max missing stored =>
      apply gathered_rest hr state recvLen last lenTemp max stored

end

/-- Along every list of read results, what the thread has gathered is what it has received
since the magic number; and every `read` stays inside `buf`. -/
theorem along_gathered {P : ThreadState × List UInt8 → ReadResult UInt8 → Prop}
    (hP : ∀ s w r, Gathered s w → r.bytes.length ≤ s.request → P (s, w) r)
    {errorBuff : Memory UInt8} {rs : List (ReadResult UInt8)}
    (hpossible : recvingThread.Possible (.start errorBuff) rs) :
  (recvingThread.recording ThreadState.since).Along P (.start errorBuff, []) rs
  := by
  apply Reader.along_of_invariant (fun x => Gathered x.1 x.2)
    (Q := fun x r => r.bytes.length ≤ recvingThread.request x.1)
  · intro x r hgathered hr
    exact ⟨hP x.1 x.2 r hgathered hr, gathered_iterate hgathered hr⟩
  · apply gathered_start
  · apply (Reader.along_recording ThreadState.since _ _ _ _).mpr hpossible

theorem along_readInBounds {errorBuff : Memory UInt8} {rs : List (ReadResult UInt8)}
    (hpossible : recvingThread.Possible (.start errorBuff) rs) :
  recvingThread.Along (fun s _ => s.ReadInBounds) (.start errorBuff) rs
  := by
  apply (Reader.along_recording ThreadState.since (fun s _ => s.ReadInBounds) _ [] _).mp
  apply along_gathered _ hpossible
  intro s w r hgathered _
  apply hgathered.readInBounds

section

variable {s : ThreadState} {w : List UInt8} {r : ReadResult UInt8}

theorem Gathered.lenTemp_le (h : Gathered s w) (state : s.state = .waitRestFrameAndData) :
  s.lenTemp ≤ uartFrameMaxSize
  := by
  cases h with
  | rest lo hi got _ recvLen last lenTemp max missing stored => exact max
  | magicNumber state' => rw [state'] at state; cases state
  | secondByte state' => rw [state'] at state; cases state
  | length state' => rw [state'] at state; cases state
  | lengthSecondByte _ state' => rw [state'] at state; cases state

/-- What `buf` holds after a read of the rest of a frame. -/
theorem Gathered.received (h : Gathered s w) (state : s.state = .waitRestFrameAndData) :
  (s.received r).buf.slice 0 (w.length + r.bytes.length) = w ++ r.bytes ∧
    UartFrame.length (s.received r).buf = s.lenTemp ∧
    w.length = s.last + uartFrameSizeBeforeWithLength ∧
    (s.last < s.lenTemp ∨ s.lenTemp = 0)
  := by
  cases h with
  | rest lo hi got _ recvLen last lenTemp max missing stored =>
      have hslice : (s.received r).buf.slice 0
          ((0xAA :: 0xAA :: lo :: hi :: got).length + r.bytes.length)
            = (0xAA :: 0xAA :: lo :: hi :: got) ++ r.bytes := by
        have happend := Memory.slice_write_append s.buf 0 (4 + got.length) r.bytes
        rw [stored, Nat.zero_add] at happend
        simp only [ThreadState.received, ThreadState.target, state, recvLen, last]
        rw [← happend]
        congr 1
        simp only [List.length_cons]
        omega
      have h₂ := Memory.apply_of_slice_eq hslice (i := 2) (by
        simp only [List.length_cons]
        omega)
      have h₃ := Memory.apply_of_slice_eq hslice (i := 3) (by
        simp only [List.length_cons]
        omega)
      simp only [List.cons_append, List.getElem?_cons_zero, List.getElem?_cons_succ,
        Option.some.injEq] at h₂ h₃
      and_intros
      · apply hslice
      · rw [lenTemp, h₂, h₃]
        rfl
      · simp [last, uartFrameSizeBeforeWithLength]
      · omega
  | magicNumber state' => rw [state'] at state; cases state
  | secondByte state' => rw [state'] at state; cases state
  | length state' => rw [state'] at state; cases state
  | lengthSecondByte _ state' => rw [state'] at state; cases state

/-- With little noise in `errorBuff`, what an iteration does with the bytes it has read
stays in bounds. -/
theorem Gathered.inBounds (h : Gathered s w) (hr : r.bytes.length ≤ s.request)
    (hlen : 0 ≤ r.len) (hnonneg : 0 ≤ s.errorBuffOffset)
    (hmax : s.errorBuffOffset ≤ recvErrMax) :
  ∀ e ∈ (s.iterate r).2, e.InBounds
  := by
  have heq := ReadResult.len_eq_length hlen
  have hbuf : commBufferMaxLen = 2048 := rfl
  have hprint : recvErrMax = 2713 := rfl
  intro e he
  by_cases state : s.state = .waitRestFrameAndData
  · by_cases hends : s.ends r
    · obtain ⟨-, hlength, -, -⟩ := h.received (r := r) state
      have hframe := h.lenTemp_le state
      have hbefore : uartFrameSizeBeforeWithLength = 4 := rfl
      have hframeMax : uartFrameMaxSize = 344 := rfl
      rw [ThreadState.iterate_of_ends hends, ThreadState.mem_handOver] at he
      rcases he with ⟨hpos, rfl⟩ | rfl | he
      · apply (printSafe_iff _).mpr
        · simp only [ThreadState.received]
          omega
        · simp only [ThreadState.received] at hpos ⊢
          omega
      · trivial
      · rcases mem_handleRecvData he with rfl | rfl
        · apply (printSafe_iff _).mpr
          · omega
          · omega
        · trivial
    · rw [(ThreadState.iterate_of_not_ends state hends).1] at he
      cases he
  · have hrequest : s.request ≤ 2 := by
      cases hs : s.state with
      | waitRestFrameAndData => exact absurd hs state
      | _ => simp [ThreadState.request, hs]
    rw [(ThreadState.iterate_events state r).1] at he
    split at he
    · obtain rfl := List.mem_singleton.mp he
      simp only [Event.InBounds]
      omega
    · cases he

end

end SerialPort
