import Orgrim.SerialPort.Gathering

/-!
# The frames delivered to the application

A read of the rest of a frame that fails, or returns nothing, ends the frame as a complete
read does: the frame is then checked as it stands in `buf`, with bytes of earlier frames
behind the ones received.  Nothing looks for the header fields of a short frame either.
`delivers_iff` says that these are the only ways in which a frame that was not received can
be delivered, and `stale_delivered` is a run in which that happens.
-/

namespace SerialPort

/-- The frames the iteration delivers have all header fields, and consist of the bytes
received since their magic number. -/
def DeliversReceived (x : ThreadState × List UInt8) (r : ReadResult UInt8) : Prop :=
  ∀ pFrame, .callBack pFrame ∈ (x.1.iterate r).2 →
    uartFrameSizeAfterLength ≤ pFrame.length ∧ pFrame.bytes = x.2 ++ r.bytes

namespace ThreadState

/-- The read ends a frame that is shorter than its header or failed itself, and what `buf`
holds passes the check. -/
def AcceptsUnreceived (s : ThreadState) (r : ReadResult UInt8) : Prop :=
  s.ends r ∧ (r.len ≤ 0 ∨ s.lenTemp < uartFrameSizeAfterLength) ∧
    0 ≤ (checkRecvData (s.received r).buf).1

instance (s : ThreadState) (r : ReadResult UInt8) : Decidable (s.AcceptsUnreceived r) :=
  inferInstanceAs (Decidable (_ ∧ _ ∧ _))

end ThreadState

section

variable {s : ThreadState} {w : List UInt8} {r : ReadResult UInt8}

/-- An iteration delivers what was received exactly when it does not accept a frame that
was not. -/
theorem deliversReceived_iff (h : Gathered s w) (hr : r.bytes.length ≤ s.request) :
  DeliversReceived (s, w) r ↔ ¬ s.AcceptsUnreceived r
  := by
  constructor
  · rintro hdelivers ⟨hends, hunfinished, hverdict⟩
    obtain ⟨state, -⟩ := ThreadState.ends_iff.mp hends
    obtain ⟨-, hlength, hw, hmissing⟩ := h.received (r := r) state
    obtain ⟨hheader, hbytes⟩ := hdelivers _
      (ThreadState.callBack_mem_iterate.mpr ⟨hends, rfl, hverdict⟩)
    rw [hlength] at hheader
    rcases hunfinished with hnone | hshort
    · have hlen := congrArg List.length hbytes
      simp only [UartFrame.bytes, Memory.length_slice, hlength, List.length_append, hw,
        ReadResult.bytes_of_len_le hnone, List.length_nil] at hlen
      simp only [uartFrameSizeAfterLength] at hheader
      omega
    · omega
  · intro hnever pFrame hcall
    obtain ⟨hends, rfl, hverdict⟩ := ThreadState.callBack_mem_iterate.mp hcall
    obtain ⟨state, hover⟩ := (ThreadState.ends_iff (s := s)).mp hends
    obtain ⟨hslice, hlength, hw, hmissing⟩ := h.received (r := r) state
    have hfinished : 0 < r.len ∧ uartFrameSizeAfterLength ≤ s.lenTemp := by
      by_contra hcon
      apply hnever
      use hends
      constructor
      · omega
      · apply hverdict
    have hlen := ReadResult.len_eq_length (Int.le_of_lt hfinished.1)
    have hrequest : s.request = s.lenTemp - s.last := by
      simp only [ThreadState.request, state]
    constructor
    · rw [hlength]
      apply hfinished.2
    · rw [UartFrame.bytes, hlength, ← hslice, hw]
      congr 1
      omega

end

/-- For every list of results of `read`, the frames called back are the ones received if
and only if no failed read, and no end of a frame shorter than the header, finds a frame in
`buf` that passes the check. -/
theorem delivers_iff {errorBuff : Memory UInt8} {rs : List (ReadResult UInt8)}
    (hpossible : recvingThread.Possible (.start errorBuff) rs) :
  (recvingThread.recording ThreadState.since).Along DeliversReceived (.start errorBuff, []) rs
    ↔ recvingThread.Along (fun s r => ¬ s.AcceptsUnreceived r) (.start errorBuff) rs
  := by
  rw [← Reader.along_recording ThreadState.since _ _ []]
  apply Reader.along_congr (fun x => Gathered x.1 x.2)
    (Q := fun x r => r.bytes.length ≤ recvingThread.request x.1)
  · intro x r hgathered hr
    apply deliversReceived_iff hgathered hr
  · intro x r hgathered hr _
    apply gathered_iterate hgathered hr
  · apply gathered_start
  · apply (Reader.along_recording ThreadState.since _ _ _ _).mpr hpossible

/-- A frame is received, then the magic number and the length of a second one, whose rest
is never read. -/
def truncatedRun : List (ReadResult UInt8) :=
  [.data [0xAA, 0xAA], .data [0x10, 0x00], .data emptyFrame.payload,
    .data [0xAA, 0xAA], .data [0x10, 0x00], .data []]

theorem delivers_iff_complete :
  (recvingThread.recording ThreadState.since).Along DeliversReceived (.start fun _ => 0, [])
      (truncatedRun.take 3)
  := (delivers_iff (by decide)).mpr (by decide)

/-- The second frame is delivered with the bytes of the first. -/
theorem stale_delivered :
  recvingThread.Possible (.start fun _ => 0) truncatedRun ∧
    ¬ (recvingThread.recording ThreadState.since).Along DeliversReceived
      (.start fun _ => 0, []) truncatedRun
  := by
  constructor
  · decide
  · rintro ⟨-, -, -, -, -, hlast, -⟩
    have hcall := hlast _ (ThreadState.callBack_mem_iterate.mpr ⟨by decide, rfl, by decide⟩)
    revert hcall
    decide

end SerialPort
