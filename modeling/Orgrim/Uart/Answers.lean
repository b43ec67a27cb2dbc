import Orgrim.Uart.Replies

/-!
# Answering every command

`ProcessRecvBuffer` does not wait until the buffer is empty, neither for its stores nor for
`g_SendBufferCount`, and `SendThread` does not look at `g_SendBufferCount` again when it has been
woken.  Every command is answered exactly in the runs in which none of this does any harm
(`answered_iff`).
-/

namespace Uart

namespace SerialTest2

/-! ### What should hold, and when it does -/

/-- The replies have been written in their order, and all of them when nothing is left to be
done. -/
structure Answered (s : Threads) : Prop where
  order : s.written <+: s.replies
  returns : s.recv ≠ .outOfBounds
  all : AtRest s → s.written = s.replies

/-- The next store leaves the bytes as they are that have yet to be copied. -/
def Harmless (s : Threads) : RecvPoint → Prop
  | .storing ((i, b) :: _) _ =>
      s.send.copied.length ≤ i → i < s.buffer.count → s.buffer.bytes i = b
  | _ => True

instance (s : Threads) : (p : RecvPoint) → Decidable (Harmless s p)
  | .storing (_ :: _) _ => inferInstanceAs (Decidable (_ → _))
  | .storing [] _ => .isTrue trivial
  | .reading => .isTrue trivial
  | .outOfBounds => .isTrue trivial

/-- A store does no harm to a reply that has yet to be written, `g_SendBufferCount` is set when it
is zero, `SendThread` does not leave `pthread_cond_wait` while it is zero, and a frame with a CRC is
long enough for it. -/
def Proper (s : Threads) : Action → Prop
  | .receive pBuff => 5 ≤ pBuff.length → ¬ Short pBuff
  | .store => Harmless s s.recv
  | .finish => 0 < s.recv.sendBuffLen → s.buffer.count = 0
  | .resume => 0 < s.buffer.count
  | _ => True

instance (s : Threads) : (a : Action) → Decidable (Proper s a)
  | .receive _ => inferInstanceAs (Decidable (_ → _))
  | .store => inferInstanceAs (Decidable (Harmless s s.recv))
  | .finish => inferInstanceAs (Decidable (_ → _))
  | .resume => inferInstanceAs (Decidable (_ < _))
  | .lock => .isTrue trivial
  | .wake => .isTrue trivial
  | .copy => .isTrue trivial
  | .unlock => .isTrue trivial

variable {s s' : Threads} {a : Action} {pBuff : List UInt8}

/-! ### Counting replies -/

/-- The replies that have been written, or may be. -/
def accounts (s : Threads) : ℕ :=
  s.written.countP (· ≠ []) + min s.buffer.count 1 + min s.recv.sendBuffLen 1

/-- What holds in every state. -/
structure Basic (s : Threads) : Prop where
  nonempty : [] ∉ s.replies
  waiting : s.send = .waiting → s.buffer.count = 0
  copied : s.send.copied.length ≤ s.buffer.count
  counted : accounts s ≤ s.replies.length

theorem basic_start :
  Basic .start
  := by
  constructor
  case nonempty => apply List.not_mem_nil
  case waiting => exact fun _ => rfl
  case copied => exact le_rfl
  case counted => exact le_rfl

theorem ne_nil_of_reply {r : List UInt8} (h : reply pBuff = some r) :
  r ≠ []
  := by
  obtain ⟨-, -, -, rfl⟩ := cases_of_reply h
  apply List.cons_ne_nil _ _

/-- A command that is received is going to be answered if there is a reply to it. -/
theorem sendBuffLen_receive (pBuff : List UInt8) :
  min (RecvPoint.sendBuffLen (if pBuff.length < 5 then .reading
      else .storing (stores pBuff) (iSendBuffLen pBuff))) 1 = (reply pBuff).toList.length
  := by
  by_cases hlen : pBuff.length < 5
  · rw [if_pos hlen, reply, if_pos (Or.inl hlen)]
    rfl
  rw [if_neg hlen]
  cases hreply : reply pBuff with
  | some r =>
      obtain ⟨-, hcount⟩ := prepares_stores hreply (fun _ => 0)
      rw [hcount]
      apply min_eq_right (List.length_pos_of_ne_nil (ne_nil_of_reply hreply))
  | none =>
      by_cases hshort : Short pBuff
      · rw [iSendBuffLen_of_short hshort]
        rfl
      · rw [(stores_of_none hreply (not_lt.mp hlen) hshort).2.1]
        rfl

/-- No action but the receipt of a command adds to the replies that may be written. -/
theorem accounts_step (h : Basic s) (hs' : threads.step s a = some s') :
  accounts s' + s.replies.length ≤ accounts s + s'.replies.length
  := by
  cases a with
  | receive pBuff =>
      obtain ⟨hrecv, rfl⟩ := receive_cases hs'
      have hlength := sendBuffLen_receive pBuff
      simp only [accounts, List.length_append, hlength]
      omega
  | store =>
      obtain ⟨i, b, rest, len, hrecv, rfl⟩ := store_cases hs'
      have hlength : (RecvPoint.storing rest len).sendBuffLen = s.recv.sendBuffLen := by
        rw [hrecv]
        cases len <;> rfl
      simp only [accounts, hlength, le_refl]
  | finish =>
      rcases finish_cases hs' with ⟨hrecv, rfl⟩ | ⟨hrecv, rfl⟩ | ⟨n, hrecv, hn, -, rfl⟩
      · simp only [accounts, RecvPoint.sendBuffLen]
        omega
      · simp only [accounts, RecvPoint.sendBuffLen]
        omega
      · simp only [accounts, hrecv, RecvPoint.sendBuffLen]
        omega
  | lock =>
      obtain ⟨-, rfl⟩ := lock_cases hs'
      exact le_rfl
  | wake =>
      obtain ⟨-, rfl⟩ := wake_cases hs'
      exact le_rfl
  | resume =>
      obtain ⟨-, rfl⟩ := resume_cases hs'
      exact le_rfl
  | copy =>
      obtain ⟨copied, -, -, rfl⟩ := copy_cases hs'
      exact le_rfl
  | unlock =>
      obtain ⟨copied, hsend, hle, rfl⟩ := unlock_cases hs'
      have hcopied := h.copied
      rw [hsend] at hcopied
      change copied.length ≤ s.buffer.count at hcopied
      have hcount : [copied].countP (· ≠ []) ≤ copied.length := by
        cases copied with
        | nil => rfl
        | cons b bs => apply List.countP_le_length.trans (Nat.le_add_left 1 _)
      have hone : [copied].countP (· ≠ []) ≤ 1 := List.countP_le_length
      simp only [accounts, List.countP_append]
      omega

/-- Nothing that has been written, and no reply, is taken back. -/
theorem grows_step (hs' : threads.step s a = some s') :
  s.written <+: s'.written ∧ ∃ new, s'.replies = s.replies ++ new ∧ [] ∉ new
  := by
  have hsame : s.written = s'.written → s'.replies = s.replies →
      s.written <+: s'.written ∧ ∃ new, s'.replies = s.replies ++ new ∧ [] ∉ new := by
    intro hwritten hreplies
    rw [hwritten, hreplies]
    exact ⟨List.prefix_rfl, [], (List.append_nil _).symm, List.not_mem_nil⟩
  cases a with
  | receive pBuff =>
      obtain ⟨-, rfl⟩ := receive_cases hs'
      use List.prefix_rfl, (reply pBuff).toList, rfl
      exact fun hmem => ne_nil_of_reply (Option.mem_toList.mp hmem) rfl
  | store =>
      obtain ⟨i, b, rest, len, -, rfl⟩ := store_cases hs'
      apply hsame rfl rfl
  | finish =>
      rcases finish_cases hs' with ⟨-, rfl⟩ | ⟨-, rfl⟩ | ⟨n, -, -, -, rfl⟩
      · apply hsame rfl rfl
      · apply hsame rfl rfl
      · apply hsame rfl rfl
  | lock =>
      obtain ⟨-, rfl⟩ := lock_cases hs'
      apply hsame rfl rfl
  | wake =>
      obtain ⟨-, rfl⟩ := wake_cases hs'
      apply hsame rfl rfl
  | resume =>
      obtain ⟨-, rfl⟩ := resume_cases hs'
      apply hsame rfl rfl
  | copy =>
      obtain ⟨copied, -, -, rfl⟩ := copy_cases hs'
      apply hsame rfl rfl
  | unlock =>
      obtain ⟨copied, -, -, rfl⟩ := unlock_cases hs'
      exact ⟨List.prefix_append _ _, [], (List.append_nil _).symm, List.not_mem_nil⟩

/-- `SendThread` waits only while there is nothing to be written. -/
theorem waiting_step (h : Basic s) (hs' : threads.step s a = some s')
    (hwaiting : s'.send = .waiting) :
  s'.buffer.count = 0
  := by
  cases a with
  | receive pBuff =>
      obtain ⟨-, rfl⟩ := receive_cases hs'
      apply h.waiting hwaiting
  | store =>
      obtain ⟨i, b, rest, len, -, rfl⟩ := store_cases hs'
      apply h.waiting hwaiting
  | finish =>
      rcases finish_cases hs' with ⟨-, rfl⟩ | ⟨-, rfl⟩ | ⟨n, -, -, -, rfl⟩
      · apply h.waiting hwaiting
      · apply h.waiting hwaiting
      · exact absurd hwaiting (signal_ne_waiting s.send)
  | lock =>
      obtain ⟨-, rfl⟩ := lock_cases hs'
      by_contra hcount
      have hwriting : (if s.buffer.count = 0 then SendPoint.waiting else .writing []) = .waiting :=
        hwaiting
      rw [if_neg hcount] at hwriting
      cases hwriting
  | wake =>
      obtain ⟨-, rfl⟩ := wake_cases hs'
      cases hwaiting
  | resume =>
      obtain ⟨-, rfl⟩ := resume_cases hs'
      cases hwaiting
  | copy =>
      obtain ⟨copied, -, -, rfl⟩ := copy_cases hs'
      cases hwaiting
  | unlock =>
      obtain ⟨copied, -, -, rfl⟩ := unlock_cases hs'
      rfl

/-- `write` copies no more bytes than there are. -/
theorem copied_step (h : Basic s) (hs' : threads.step s a = some s') :
  s'.send.copied.length ≤ s'.buffer.count
  := by
  cases a with
  | receive pBuff =>
      obtain ⟨-, rfl⟩ := receive_cases hs'
      apply h.copied
  | store =>
      obtain ⟨i, b, rest, len, -, rfl⟩ := store_cases hs'
      apply h.copied
  | finish =>
      rcases finish_cases hs' with ⟨-, rfl⟩ | ⟨-, rfl⟩ | ⟨n, -, -, hsend, rfl⟩
      · apply h.copied
      · apply h.copied
      · change (Threads.signal s.send).copied.length ≤ n
        rw [copied_signal hsend]
        apply Nat.zero_le n
  | lock =>
      obtain ⟨-, rfl⟩ := lock_cases hs'
      change (if s.buffer.count = 0 then SendPoint.waiting else .writing []).copied.length ≤ _
      split_ifs <;> exact Nat.zero_le _
  | wake =>
      obtain ⟨-, rfl⟩ := wake_cases hs'
      apply Nat.zero_le _
  | resume =>
      obtain ⟨-, rfl⟩ := resume_cases hs'
      apply Nat.zero_le _
  | copy =>
      obtain ⟨copied, -, hlt, rfl⟩ := copy_cases hs'
      change (copied ++ [s.buffer.bytes copied.length]).length ≤ s.buffer.count
      rw [List.length_append, List.length_singleton]
      exact hlt
  | unlock =>
      obtain ⟨copied, -, -, rfl⟩ := unlock_cases hs'
      exact le_rfl

theorem Basic.step (h : Basic s) (hs' : threads.step s a = some s') :
  Basic s'
  := by
  have haccounts := accounts_step h hs'
  have hcounted := h.counted
  constructor
  case counted => omega
  case nonempty =>
    obtain ⟨-, new, hreplies, hnew⟩ := grows_step hs'
    rw [hreplies, List.mem_append]
    rintro (hmem | hmem)
    · apply h.nonempty hmem
    · apply hnew hmem
  case waiting => apply waiting_step h hs'
  case copied => apply copied_step h hs'

/-! ### Runs in which nothing goes wrong -/

/-- The reply that has been published and has yet to be written. -/
inductive Published (buffer : SendBuffer) (send : SendPoint) : List (List UInt8) → Prop
  | nothing (hcount : buffer.count = 0) (hsend : ∀ copied, send ≠ .writing copied) :
      Published buffer send []
  | reply (pBuff r : List UInt8) (hreply : reply pBuff = some r) (hcount : buffer.count = r.length)
      (hsend : send ≠ .waiting) (hcopied : send.copied <+: r)
      (hbytes : ∀ i b, send.copied.length ≤ i → r[i]? = some b → buffer.bytes i = b) :
      Published buffer send [r]

/-- The reply that is being prepared. -/
inductive Prepared (bytes : Memory UInt8) : RecvPoint → List (List UInt8) → Prop
  | reading : Prepared bytes .reading []
  | nothing {stores : List (ℕ × UInt8)} (h : ∀ x ∈ stores, x ∈ [(0, 0xAA), (1, 0x00)]) :
      Prepared bytes (.storing stores (some 0)) []
  | reply (pBuff r : List UInt8) {stores : List (ℕ × UInt8)} (hreply : reply pBuff = some r)
      (h : Prepares stores bytes r) : Prepared bytes (.storing stores (some r.length)) [r]

/-- All replies have been written, or have yet to be written, in their order. -/
def Good (s : Threads) : Prop :=
  ∃ published prepared, s.replies = s.written ++ (published ++ prepared) ∧
    Published s.buffer s.send published ∧ Prepared s.buffer.bytes s.recv prepared

theorem good_start :
  Good .start
  := ⟨[], [], rfl, .nothing rfl nofun, .reading⟩

/-- A command is received. -/
theorem Good.receive (h : Good s) (hproper : Proper s (.receive pBuff))
    (hs' : s.receive pBuff = some s') :
  Good s'
  := by
  obtain ⟨published, prepared, hreplies, hpublished, hprepared⟩ := h
  obtain ⟨hrecv, rfl⟩ := receive_cases hs'
  rw [hrecv] at hprepared
  cases hprepared
  use published, (reply pBuff).toList
  constructor
  · change s.replies ++ _ = _
    rw [hreplies, List.append_nil, List.append_assoc]
  use hpublished
  change Prepared s.buffer.bytes (if pBuff.length < 5 then _ else _) _
  by_cases hlen : pBuff.length < 5
  · rw [if_pos hlen, reply, if_pos (Or.inl hlen)]
    exact .reading
  · rw [if_neg hlen]
    cases hreply : reply pBuff with
    | some r =>
        obtain ⟨hprepares, hcount⟩ := prepares_stores hreply s.buffer.bytes
        rw [hcount]
        exact .reply _ _ hreply hprepares
    | none =>
        have hle := not_lt.mp hlen
        obtain ⟨hstores, hcount, -⟩ := stores_of_none hreply hle (hproper hle)
        rw [hstores, hcount]
        exact .nothing (fun _ hx => hx)

/-- A byte is stored. -/
theorem Good.store (h : Good s) (hproper : Proper s .store) (hs' : s.store = some s') :
  Good s'
  := by
  obtain ⟨published, prepared, hreplies, hpublished, hprepared⟩ := h
  obtain ⟨i, b, rest, len, hrecv, rfl⟩ := store_cases hs'
  rw [Proper, hrecv] at hproper
  rw [hrecv] at hprepared
  use published, prepared, hreplies
  constructor
  · cases hpublished with
    | nothing hcount hsend => exact .nothing hcount hsend
    | reply _ r hreply hcount hsend hcopied hbytes =>
        have hstored : ∀ j c, s.send.copied.length ≤ j → r[j]? = some c →
            Function.update s.buffer.bytes i b j = c := by
          intro j c hle hc
          have hj := hbytes j c hle hc
          rcases eq_or_ne j i with rfl | hne
          · obtain ⟨hlt, -⟩ := List.getElem?_eq_some_iff.mp hc
            rw [Function.update_self, ← hproper hle (by omega), hj]
          · rw [Function.update_of_ne hne, hj]
        exact .reply _ _ hreply hcount hsend hcopied hstored
  · cases hprepared with
    | nothing hstores => exact .nothing (fun x hx => hstores x (List.mem_cons_of_mem _ hx))
    | reply _ _ hreply hprepares => exact .reply _ _ hreply hprepares.store

/-- A reply is published. -/
theorem Good.finish (h : Good s) (hproper : Proper s .finish) (hs' : s.finish = some s') :
  Good s'
  := by
  obtain ⟨published, prepared, hreplies, hpublished, hprepared⟩ := h
  rcases finish_cases hs' with ⟨hrecv, rfl⟩ | ⟨hrecv, rfl⟩ | ⟨n, hrecv, hn, hwriting, rfl⟩
  · rw [hrecv] at hprepared
    cases hprepared
  · rw [hrecv] at hprepared
    obtain rfl : prepared = [] := by
      generalize hlen : (some 0 : Option ℕ) = len at hprepared
      cases hprepared with
      | nothing => rfl
      | reply _ _ hreply _ =>
          have hpos := List.length_pos_of_ne_nil (ne_nil_of_reply hreply)
          have hzero := Option.some.inj hlen
          omega
    exact ⟨published, [], hreplies, hpublished, .reading⟩
  · have hzero : s.buffer.count = 0 := by
      apply hproper
      rw [hrecv]
      exact hn
    rw [hrecv] at hprepared
    cases hpublished with
    | reply _ _ hreply hcount =>
        have hpos := List.length_pos_of_ne_nil (ne_nil_of_reply hreply)
        omega
    | nothing _ hsend =>
        cases hprepared with
        | nothing => exact absurd hn (lt_irrefl 0)
        | reply _ r hreply hprepares =>
            have hcopied : (Threads.signal s.send).copied <+: r := by
              rw [copied_signal hsend]
              apply List.nil_prefix
            have hbytes : ∀ i b, (Threads.signal s.send).copied.length ≤ i → r[i]? = some b →
                s.buffer.bytes i = b := by
              intro i b _ hb
              rcases hprepares.made i b hb with hmem | hbytes
              · exact absurd hmem List.not_mem_nil
              · exact hbytes
            exact ⟨[r], [], hreplies,
              .reply _ _ hreply rfl (signal_ne_waiting s.send) hcopied hbytes, .reading⟩

/-- `SendThread` moves on. -/
theorem Good.lock (h : Good s) (hs' : s.lock = some s') :
  Good s'
  := by
  obtain ⟨published, prepared, hreplies, hpublished, hprepared⟩ := h
  obtain ⟨hsend, rfl⟩ := lock_cases hs'
  use published, prepared, hreplies
  refine ⟨?_, hprepared⟩
  change Published s.buffer (if s.buffer.count = 0 then _ else _) published
  cases hpublished with
  | nothing hcount =>
      rw [if_pos hcount]
      exact .nothing hcount nofun
  | reply _ _ hreply hcount _ _ hbytes =>
      have hpos := List.length_pos_of_ne_nil (ne_nil_of_reply hreply)
      rw [hsend] at hbytes
      rw [if_neg (by omega)]
      exact .reply _ _ hreply hcount nofun List.nil_prefix hbytes

theorem Good.wake (h : Good s) (hs' : s.wake = some s') :
  Good s'
  := by
  obtain ⟨published, prepared, hreplies, hpublished, hprepared⟩ := h
  obtain ⟨hsend, rfl⟩ := wake_cases hs'
  use published, prepared, hreplies
  refine ⟨?_, hprepared⟩
  cases hpublished with
  | nothing hcount => exact .nothing hcount nofun
  | reply _ _ _ _ hwaiting => exact absurd hsend hwaiting

theorem Good.resume (h : Good s) (hproper : Proper s .resume) (hs' : s.resume = some s') :
  Good s'
  := by
  obtain ⟨published, prepared, hreplies, hpublished, hprepared⟩ := h
  obtain ⟨hsend, rfl⟩ := resume_cases hs'
  use published, prepared, hreplies
  refine ⟨?_, hprepared⟩
  cases hpublished with
  | nothing hcount => exact absurd hproper (by rw [Proper, hcount]; exact lt_irrefl 0)
  | reply _ _ hreply hcount _ _ hbytes =>
      rw [hsend] at hbytes
      exact .reply _ _ hreply hcount nofun List.nil_prefix hbytes

/-- `write` copies a byte of the reply. -/
theorem Good.copy (h : Good s) (hs' : s.copy = some s') :
  Good s'
  := by
  obtain ⟨published, prepared, hreplies, hpublished, hprepared⟩ := h
  obtain ⟨copied, hsend, hlt, rfl⟩ := copy_cases hs'
  use published, prepared, hreplies
  refine ⟨?_, hprepared⟩
  cases hpublished with
  | nothing hcount => omega
  | reply _ r hreply hcount _ hcopied hbytes =>
      rw [hsend] at hcopied hbytes
      have hlt' : copied.length < r.length := by omega
      have hb : s.buffer.bytes copied.length = r[copied.length] :=
        hbytes _ _ le_rfl (List.getElem?_eq_getElem hlt')
      have hprefix : copied ++ [s.buffer.bytes copied.length] <+: r := by
        have htake : copied = r.take copied.length := List.prefix_iff_eq_take.mp hcopied
        have hnext : copied ++ [r[copied.length]] = r.take (copied.length + 1) :=
          (congrArg (· ++ [r[copied.length]]) htake).trans (List.take_append_getElem hlt')
        rw [hb, hnext]
        apply List.take_prefix _ _
      have hrest : ∀ i b, (copied ++ [s.buffer.bytes copied.length]).length ≤ i →
          r[i]? = some b → s.buffer.bytes i = b := by
        intro i b hle
        rw [List.length_append, List.length_singleton] at hle
        apply hbytes i b (Nat.le_of_succ_le hle)
      exact .reply _ _ hreply hcount nofun hprefix hrest

/-- The reply has been written. -/
theorem Good.unlock (h : Good s) (hs' : s.unlock = some s') :
  Good s'
  := by
  obtain ⟨published, prepared, hreplies, hpublished, hprepared⟩ := h
  obtain ⟨copied, hsend, hle, rfl⟩ := unlock_cases hs'
  cases hpublished with
  | nothing _ hwriting => exact absurd hsend (hwriting copied)
  | reply _ r hreply hcount _ hcopied _ =>
      rw [hsend] at hcopied
      obtain rfl : copied = r := List.IsPrefix.eq_of_length_le hcopied (by rw [← hcount]; exact hle)
      use [], prepared
      constructor
      · change s.replies = s.written ++ [copied] ++ ([] ++ prepared)
        rw [hreplies, List.nil_append, List.append_assoc]
      · exact ⟨.nothing rfl nofun, hprepared⟩

theorem Good.step (h : Good s) (hproper : Proper s a) (hs' : threads.step s a = some s') :
  Good s'
  := by
  cases a with
  | receive pBuff => apply h.receive hproper hs'
  | store => apply h.store hproper hs'
  | finish => apply h.finish hproper hs'
  | lock => apply h.lock hs'
  | wake => apply h.wake hs'
  | resume => apply h.resume hproper hs'
  | copy => apply h.copy hs'
  | unlock => apply h.unlock hs'

theorem Good.answered (h : Good s) :
  Answered s
  := by
  obtain ⟨published, prepared, hreplies, hpublished, hprepared⟩ := h
  constructor
  case order => exact ⟨published ++ prepared, hreplies.symm⟩
  case returns =>
    intro hrecv
    rw [hrecv] at hprepared
    cases hprepared
  case all =>
    rintro ⟨hwaiting, hrecv⟩
    cases hpublished with
    | reply _ _ _ _ hsend => exact absurd hwaiting hsend
    | nothing =>
        rcases hrecv with hrecv | hrecv
        · rw [hrecv] at hprepared
          cases hprepared
          rw [hreplies, List.append_nil, List.append_nil]
        · rw [hrecv] at hprepared
          cases hprepared

/-! ### Runs in which something goes wrong -/

/-- Nothing has been written as if it were a reply, or is going to be. -/
def Emptied (s : Threads) : Prop :=
  [] ∈ s.written ∨ ∃ copied, s.send = .writing copied ∧ s.buffer.count = 0

/-- A reply has been overwritten. -/
def Lost (s : Threads) : Prop := accounts s < s.replies.length

/-- Something else than a reply has been written in its place. -/
def Mixed (s : Threads) : Prop :=
  ∃ (k : ℕ) (x y : List UInt8), s.written[k]? = some x ∧ s.replies[k]? = some y ∧ x ≠ y

/-- The reply that is being written has got a wrong byte, and no store to come puts it right. -/
structure Mixing (s : Threads) (r : List UInt8) (i : ℕ) (b : UInt8) : Prop where
  current : s.replies[s.written.length]? = some r
  count : s.buffer.count = r.length
  byte : r[i]? = some b
  wrong : if i < s.send.copied.length then s.send.copied[i]? ≠ some b else s.buffer.bytes i ≠ b
  prepared : ∃ stores n, s.recv = .storing stores (some n) ∧ 0 < n ∧
    ∀ x ∈ stores, x.1 = i → x.2 ≠ b

/-- `GenCRC` reads what is behind a frame, or is going to. -/
def Stuck (s : Threads) : Prop :=
  s.recv = .outOfBounds ∨ ∃ stores, s.recv = .storing stores none

def Bad (s : Threads) : Prop :=
  Emptied s ∨ Lost s ∨ Mixed s ∨ Stuck s ∨ ∃ r i b, Mixing s r i b

theorem Emptied.step (hbasic : Basic s) (h : Emptied s) (hs' : threads.step s a = some s') :
  Emptied s'
  := by
  obtain ⟨hgrows, -⟩ := grows_step hs'
  rcases h with hmem | ⟨copied, hsend, hcount⟩
  · apply Or.inl (hgrows.subset hmem)
  cases a with
  | receive pBuff =>
      obtain ⟨-, rfl⟩ := receive_cases hs'
      apply Or.inr ⟨copied, hsend, hcount⟩
  | store =>
      obtain ⟨i, b, rest, len, -, rfl⟩ := store_cases hs'
      apply Or.inr ⟨copied, hsend, hcount⟩
  | finish =>
      rcases finish_cases hs' with ⟨-, rfl⟩ | ⟨-, rfl⟩ | ⟨n, -, -, hwriting, -⟩
      · apply Or.inr ⟨copied, hsend, hcount⟩
      · apply Or.inr ⟨copied, hsend, hcount⟩
      · exact absurd hsend (hwriting copied)
  | lock => exact absurd (hsend.symm.trans (lock_cases hs').1) nofun
  | wake => exact absurd (hsend.symm.trans (wake_cases hs').1) nofun
  | resume => exact absurd (hsend.symm.trans (resume_cases hs').1) nofun
  | copy =>
      obtain ⟨_, -, hlt, -⟩ := copy_cases hs'
      omega
  | unlock =>
      obtain ⟨copied', hsend', -, rfl⟩ := unlock_cases hs'
      left
      have hcopied := hbasic.copied
      rw [hsend', hcount] at hcopied
      obtain rfl : copied' = [] := List.eq_nil_of_length_eq_zero (Nat.le_zero.mp hcopied)
      apply List.mem_append_right _ List.mem_cons_self

theorem Mixed.step (h : Mixed s) (hs' : threads.step s a = some s') :
  Mixed s'
  := by
  obtain ⟨hgrows, new, hreplies, -⟩ := grows_step hs'
  obtain ⟨k, x, y, hx, hy, hne⟩ := h
  obtain ⟨rest, hwritten⟩ := hgrows
  obtain ⟨hkx, -⟩ := List.getElem?_eq_some_iff.mp hx
  obtain ⟨hky, -⟩ := List.getElem?_eq_some_iff.mp hy
  use k, x, y
  rw [← hwritten, hreplies, List.getElem?_append_left hkx, List.getElem?_append_left hky]
  exact ⟨hx, hy, hne⟩

theorem Stuck.step (h : Stuck s) (hs' : threads.step s a = some s') :
  Stuck s'
  := by
  cases a with
  | receive pBuff =>
      obtain ⟨hrecv, -⟩ := receive_cases hs'
      rcases h with h | ⟨stores, h⟩
      · exact absurd (hrecv.symm.trans h) nofun
      · exact absurd (hrecv.symm.trans h) nofun
  | store =>
      obtain ⟨i, b, rest, len, hrecv, rfl⟩ := store_cases hs'
      rcases h with h | ⟨stores, h⟩
      · exact absurd (hrecv.symm.trans h) nofun
      · rw [hrecv] at h
        obtain ⟨-, rfl⟩ := RecvPoint.storing.inj h
        apply Or.inr ⟨rest, rfl⟩
  | finish =>
      rcases finish_cases hs' with ⟨-, rfl⟩ | ⟨hrecv, -⟩ | ⟨n, hrecv, -⟩
      · apply Or.inl rfl
      all_goals
        rcases h with h | ⟨stores, h⟩
        · exact absurd (hrecv.symm.trans h) nofun
        · exact absurd (hrecv.symm.trans h) (by rintro ⟨⟩)
  | lock =>
      obtain ⟨-, rfl⟩ := lock_cases hs'
      exact h
  | wake =>
      obtain ⟨-, rfl⟩ := wake_cases hs'
      exact h
  | resume =>
      obtain ⟨-, rfl⟩ := resume_cases hs'
      exact h
  | copy =>
      obtain ⟨copied, -, -, rfl⟩ := copy_cases hs'
      exact h
  | unlock =>
      obtain ⟨copied, -, -, rfl⟩ := unlock_cases hs'
      exact h

theorem Lost.step (hbasic : Basic s) (h : Lost s) (hs' : threads.step s a = some s') :
  Lost s'
  := by
  have haccounts := accounts_step hbasic hs'
  rw [Lost] at h ⊢
  omega

/-- A store leaves the wrong byte wrong. -/
theorem Mixing.store {r : List UInt8} {i : ℕ} {b : UInt8} (h : Mixing s r i b)
    (hs' : s.store = some s') :
  Mixing s' r i b
  := by
  obtain ⟨hcurrent, hcount, hbyte, hwrong, stores, n, hrecv, hn, hstores⟩ := h
  obtain ⟨j, c, rest, len, hrecv', rfl⟩ := store_cases hs'
  obtain ⟨rfl, rfl⟩ := RecvPoint.storing.inj (hrecv.symm.trans hrecv')
  constructor
  case current => exact hcurrent
  case count => exact hcount
  case byte => exact hbyte
  case prepared => exact ⟨rest, n, rfl, hn, fun x hx => hstores x (List.mem_cons_of_mem _ hx)⟩
  case wrong =>
    change if i < s.send.copied.length then _ else Function.update s.buffer.bytes j c i ≠ b
    split_ifs at hwrong ⊢ with hlt
    · exact hwrong
    · rcases eq_or_ne i j with rfl | hne
      · rw [Function.update_self]
        apply hstores _ List.mem_cons_self rfl
      · rw [Function.update_of_ne hne]
        exact hwrong

/-- It is copied as it is. -/
theorem Mixing.copy {r : List UInt8} {i : ℕ} {b : UInt8} (h : Mixing s r i b)
    (hs' : s.copy = some s') :
  Mixing s' r i b
  := by
  obtain ⟨hcurrent, hcount, hbyte, hwrong, hprepared⟩ := h
  obtain ⟨copied, hsend, hlt, rfl⟩ := copy_cases hs'
  rw [hsend] at hwrong
  constructor
  case current => exact hcurrent
  case count => exact hcount
  case byte => exact hbyte
  case prepared => exact hprepared
  case wrong =>
    change if i < (copied ++ [s.buffer.bytes copied.length]).length then
      (copied ++ [s.buffer.bytes copied.length])[i]? ≠ some b else s.buffer.bytes i ≠ b
    change if i < copied.length then copied[i]? ≠ some b else s.buffer.bytes i ≠ b at hwrong
    rw [List.length_append, List.length_singleton]
    rcases lt_trichotomy i copied.length with hbefore | rfl | hafter
    · rw [if_pos hbefore] at hwrong
      rw [if_pos (by omega), List.getElem?_append_left hbefore]
      exact hwrong
    · rw [if_neg (lt_irrefl _)] at hwrong
      rw [if_pos (by omega), List.getElem?_concat_length]
      exact fun heq => hwrong (Option.some.inj heq)
    · rw [if_neg (by omega)] at hwrong
      rw [if_neg (by omega)]
      exact hwrong

/-- `SendThread` begins to write the reply. -/
theorem Mixing.write {r : List UInt8} {i : ℕ} {b : UInt8} (h : Mixing s r i b)
    (hcopied : s.send.copied = []) :
  Mixing { s with send := .writing [] } r i b
  := by
  obtain ⟨hcurrent, hcount, hbyte, hwrong, hprepared⟩ := h
  rw [hcopied] at hwrong
  exact ⟨hcurrent, hcount, hbyte, hwrong, hprepared⟩

/-- The reply with the wrong byte is written. -/
theorem Mixing.unlock {r : List UInt8} {i : ℕ} {b : UInt8} (h : Mixing s r i b)
    (hs' : s.unlock = some s') :
  Mixed s'
  := by
  obtain ⟨hi, -⟩ := List.getElem?_eq_some_iff.mp h.byte
  have hcount := h.count
  have hwrong := h.wrong
  obtain ⟨copied, hsend, hle, rfl⟩ := unlock_cases hs'
  rw [hsend] at hwrong
  change if i < copied.length then copied[i]? ≠ some b else s.buffer.bytes i ≠ b at hwrong
  rw [if_pos (by omega)] at hwrong
  use s.written.length, copied, r
  use List.getElem?_concat_length, h.current
  rintro rfl
  apply hwrong h.byte

/-- A wrong byte is written, unless the next reply is published before. -/
theorem Mixing.step {r : List UInt8} {i : ℕ} {b : UInt8} (hbasic : Basic s) (h : Mixing s r i b)
    (hs' : threads.step s a = some s') :
  Bad s'
  := by
  obtain ⟨stores, n, hrecv, hn, -⟩ := h.prepared
  obtain ⟨hi, -⟩ := List.getElem?_eq_some_iff.mp h.byte
  have hcount := h.count
  have hmixing : Mixing s' r i b → Bad s' :=
    fun h => Or.inr (Or.inr (Or.inr (Or.inr ⟨r, i, b, h⟩)))
  cases a with
  | receive pBuff => exact absurd (hrecv.symm.trans (receive_cases hs').1) nofun
  | store => apply hmixing (h.store hs')
  | copy => apply hmixing (h.copy hs')
  | unlock => apply Or.inr (Or.inr (Or.inl (h.unlock hs')))
  | finish =>
      rcases finish_cases hs' with ⟨hrecv', -⟩ | ⟨hrecv', -⟩ | ⟨m, hrecv', hm, -, rfl⟩
      · exact absurd (hrecv.symm.trans hrecv') (by rintro ⟨⟩)
      · obtain ⟨-, hzero⟩ := RecvPoint.storing.inj (hrecv.symm.trans hrecv')
        have hzero := Option.some.inj hzero
        omega
      · right
        left
        have hcounted := hbasic.counted
        simp only [Lost, accounts, hrecv, RecvPoint.sendBuffLen] at hcounted ⊢
        omega
  | lock =>
      obtain ⟨hsend, rfl⟩ := lock_cases hs'
      rw [if_neg (by omega)] at hmixing ⊢
      apply hmixing (h.write (by rw [hsend]; rfl))
  | wake =>
      obtain ⟨hsend, -⟩ := wake_cases hs'
      have hzero := hbasic.waiting hsend
      omega
  | resume =>
      obtain ⟨hsend, rfl⟩ := resume_cases hs'
      apply hmixing (h.write (by rw [hsend]; rfl))

theorem Bad.step (hbasic : Basic s) (h : Bad s) (hs' : threads.step s a = some s') :
  Bad s'
  := by
  rcases h with h | h | h | h | ⟨r, i, b, h⟩
  · apply Or.inl (h.step hbasic hs')
  · apply Or.inr (Or.inl (h.step hbasic hs'))
  · apply Or.inr (Or.inr (Or.inl (h.step hs')))
  · apply Or.inr (Or.inr (Or.inr (Or.inl (h.step hs'))))
  · apply h.step hbasic hs'

/-- A store that does harm leaves a wrong byte in the reply that is being written. -/
theorem Good.mixing (h : Good s) (hharm : ¬ Harmless s s.recv) (hs' : s.store = some s') :
  ∃ r i b, Mixing s' r i b
  := by
  obtain ⟨published, prepared, hreplies, hpublished, hprepared⟩ := h
  obtain ⟨i, c, rest, len, hrecv, rfl⟩ := store_cases hs'
  rw [hrecv] at hharm
  obtain ⟨hle, hnot⟩ := Classical.not_imp.mp hharm
  obtain ⟨hlt, hne⟩ := Classical.not_imp.mp hnot
  rw [hrecv] at hprepared
  cases hpublished with
  | nothing hcount => omega
  | reply _ r hreply hcount _ _ hbytes =>
      have hi : i < r.length := by omega
      have hbyte := hbytes i r[i] hle (List.getElem?_eq_getElem hi)
      cases hprepared with
      | nothing hstores =>
          -- A command that is not known has only the bytes stored that every reply begins with.
          exfalso
          obtain ⟨-, -, -, rfl⟩ := cases_of_reply hreply
          rcases List.mem_cons.mp (hstores _ List.mem_cons_self) with hfirst | hsecond
          · obtain ⟨rfl, rfl⟩ := Prod.mk.inj hfirst
            apply hne hbyte
          · obtain ⟨rfl, rfl⟩ := Prod.mk.inj (List.mem_singleton.mp hsecond)
            apply hne hbyte
      | reply _ r' hreply' hprepares =>
          use r, i, r[i]
          have hpos := List.length_pos_of_ne_nil (ne_nil_of_reply hreply')
          have hc : r'[i]? = some c := hprepares.remaining _ List.mem_cons_self
          constructor
          case current =>
            change s.replies[s.written.length]? = some r
            rw [hreplies, List.getElem?_append_right le_rfl, Nat.sub_self]
            rfl
          case count => exact hcount
          case byte => apply List.getElem?_eq_getElem hi
          case wrong =>
            rw [if_neg (not_lt.mpr hle)]
            change Function.update s.buffer.bytes i c i ≠ r[i]
            rw [Function.update_self, ← hbyte]
            apply Ne.symm hne
          case prepared =>
            use rest, r'.length, rfl, hpos
            rintro ⟨j, d⟩ hmem rfl
            have hd := hprepares.remaining _ (List.mem_cons_of_mem _ hmem)
            obtain rfl : c = d := Option.some.inj (hc.symm.trans hd)
            rw [← hbyte]
            apply Ne.symm hne

/-- An action that is not proper does harm. -/
theorem Good.bad (hbasic : Basic s) (h : Good s) (hproper : ¬ Proper s a)
    (hs' : threads.step s a = some s') :
  Bad s'
  := by
  cases a with
  | lock => exact absurd trivial hproper
  | wake => exact absurd trivial hproper
  | copy => exact absurd trivial hproper
  | unlock => exact absurd trivial hproper
  | receive pBuff =>
      obtain ⟨hlen, hshort⟩ := Classical.not_imp.mp hproper
      obtain ⟨-, rfl⟩ := receive_cases hs'
      right
      right
      right
      left
      right
      use stores pBuff
      change (if pBuff.length < 5 then RecvPoint.reading else _) = _
      rw [if_neg (by omega), iSendBuffLen_of_short (not_not.mp hshort)]
  | resume =>
      obtain ⟨-, rfl⟩ := resume_cases hs'
      left
      right
      use [], rfl
      apply Nat.eq_zero_of_not_pos hproper
  | finish =>
      obtain ⟨hpos, hcount⟩ := Classical.not_imp.mp hproper
      right
      left
      have hcounted := hbasic.counted
      rcases finish_cases hs' with ⟨hrecv, -⟩ | ⟨hrecv, -⟩ | ⟨n, hrecv, hn, -, rfl⟩
      · rw [hrecv] at hpos
        exact absurd hpos (lt_irrefl 0)
      · rw [hrecv] at hpos
        exact absurd hpos (lt_irrefl 0)
      · simp only [Lost, accounts, hrecv, RecvPoint.sendBuffLen] at hcounted ⊢
        omega
  | store => apply Or.inr (Or.inr (Or.inr (Or.inr (h.mixing hproper hs'))))

/-- What is left when all that went wrong has come to rest. -/
theorem Bad.not_answered (hbasic : Basic s) (h : Bad s) (hrest : AtRest s) :
  ¬ Answered s
  := by
  intro hanswered
  have hwritten := hanswered.all hrest
  obtain ⟨hsend, hrecv⟩ := hrest
  have hreading := hrecv.resolve_right hanswered.returns
  have hcount := hbasic.waiting hsend
  rcases h with h | h | h | h | ⟨r, i, b, h⟩
  · rcases h with hmem | ⟨copied, hwriting, -⟩
    · rw [hwritten] at hmem
      apply hbasic.nonempty hmem
    · exact absurd (hsend.symm.trans hwriting) nofun
  · have hall : s.replies.countP (· ≠ []) = s.replies.length := by
      apply List.countP_eq_length.mpr
      intro r hr
      apply decide_eq_true
      rintro rfl
      apply hbasic.nonempty hr
    simp only [Lost, accounts, hwritten, hall, hcount, hreading, RecvPoint.sendBuffLen] at h
    omega
  · obtain ⟨k, x, y, hx, hy, hne⟩ := h
    rw [hwritten] at hx
    apply hne (Option.some.inj (hx.symm.trans hy))
  · rcases h with h | ⟨stores, h⟩
    · apply hanswered.returns h
    · exact absurd (hreading.symm.trans h) nofun
  · obtain ⟨stores, n, hstoring, -⟩ := h.prepared
    exact absurd (hreading.symm.trans hstoring) nofun

/-! ### Runs -/

/-- In runs in which nothing goes wrong the replies are written in their order, and all of them.
The runs that come to rest and in which this is so are exactly those. -/
theorem answered_iff (moves : List Action) :
  (threads.Along Proper .start moves → threads.Throughout Answered .start moves) ∧
    ∀ s ∈ threads.final .start moves, AtRest s →
      (threads.Throughout Answered .start moves ↔ threads.Along Proper .start moves)
  := by
  have hall : threads.Along Proper .start moves → threads.Throughout Answered .start moves :=
    Machine.throughout_of_invariant Good (fun _ h => h.answered)
      (fun _ _ h hproper _ hs' => h.step hproper hs') good_start
  use hall
  intro s hs hrest
  apply Iff.intro _ hall
  intro hanswered
  have hfate := Machine.final_good_or_bad (Q := Proper) (fun s => Basic s ∧ Good s)
    (fun s => Basic s ∧ Bad s)
    (fun _ _ h hproper _ hs' => ⟨h.1.step hs', h.2.step hproper hs'⟩)
    (fun _ _ h hproper _ hs' => ⟨h.1.step hs', h.2.bad h.1 hproper hs'⟩)
    (fun _ _ h _ hs' => ⟨h.1.step hs', h.2.step h.1 hs'⟩)
    ⟨basic_start, good_start⟩ hs
  rcases hfate with ⟨halong, -⟩ | ⟨-, hbasic, hbad⟩
  · exact halong
  · exact absurd (Machine.final_of_throughout hanswered hs) (hbad.not_answered hbasic hrest)

/-- `SendThread` waits, a command is received, and the reply to it is written. -/
theorem answered_iff_one :
  threads.Throughout Answered .start [.lock, .receive [0xAA, 0x00, 0x01, 0x84, 0x84], .store,
    .store, .store, .store, .store, .finish, .resume, .copy, .copy, .copy, .copy, .copy, .unlock,
    .lock]
  := (answered_iff _).1 (by decide +kernel)

theorem exists_not_answered {moves : List Action} {replies written : List (List UInt8)}
    (hsome : (threads.final .start moves).isSome)
    (hfinal : ∀ s ∈ threads.final .start moves,
      AtRest s ∧ s.replies = replies ∧ s.written = written)
    (hne : written ≠ replies) :
  ∃ s, threads.final .start moves = some s ∧ AtRest s ∧ s.replies = replies ∧
    s.written = written ∧ ¬ Answered s
  := by
  obtain ⟨s, hs, hrest, hreplies, hwritten⟩ := Machine.exists_final hsome hfinal
  use s, hs, hrest, hreplies, hwritten
  intro hanswered
  apply hne
  rw [← hwritten, ← hreplies]
  apply hanswered.all hrest

/-- The second of two commands has its reply stored over the first one; another one is lost; and
`SendThread` writes nothing when it is woken without a signal. -/
theorem answered_fails :
  (∃ s, threads.final .start [.receive [0xAA, 0x00, 0x01, 0x83, 0x83], .store, .store, .store,
      .store, .store, .store, .finish, .receive [0xAA, 0x00, 0x01, 0x84, 0x84], .store, .store,
      .store, .store, .store, .lock, .copy, .copy, .copy, .copy, .copy, .copy, .unlock, .finish,
      .lock, .copy, .copy, .copy, .copy, .copy, .unlock, .lock] = some s ∧ AtRest s ∧
      s.replies = [[0xAA, 0x00, 0x02, 0x83, 0x00, 0x83], [0xAA, 0x00, 0x01, 0x84, 0x84]] ∧
      s.written = [[0xAA, 0x00, 0x01, 0x84, 0x84, 0x83], [0xAA, 0x00, 0x01, 0x84, 0x84]] ∧
      ¬ Answered s) ∧
    (∃ s, threads.final .start [.receive [0xAA, 0x00, 0x01, 0x84, 0x84], .store, .store, .store,
      .store, .store, .finish, .receive [0xAA, 0x00, 0x01, 0x84, 0x84], .store, .store, .store,
      .store, .store, .finish, .lock, .copy, .copy, .copy, .copy, .copy, .unlock, .lock] =
        some s ∧ AtRest s ∧
      s.replies = [[0xAA, 0x00, 0x01, 0x84, 0x84], [0xAA, 0x00, 0x01, 0x84, 0x84]] ∧
      s.written = [[0xAA, 0x00, 0x01, 0x84, 0x84]] ∧ ¬ Answered s) ∧
    ∃ s, threads.final .start [.lock, .wake, .resume, .unlock, .lock] = some s ∧ AtRest s ∧
      s.replies = [] ∧ s.written = [[]] ∧ ¬ Answered s
  := ⟨exists_not_answered (by decide +kernel) (by decide +kernel) (by decide),
    exists_not_answered (by decide +kernel) (by decide +kernel) (by decide),
    exists_not_answered (by decide +kernel) (by decide +kernel) (by decide)⟩

end SerialTest2

end Uart
