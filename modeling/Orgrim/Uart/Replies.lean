import Orgrim.Theory.Machine
import Orgrim.Uart.SerialTest2

/-!
# Replying

`ProcessRecvBuffer` and `SendThread` of `serial_test2.c`, which run in two threads.
`ProcessRecvBuffer` stores a reply into `g_SendBuffer` byte by byte without the mutex, and takes it
only to set `g_SendBufferCount`.  `SendThread` holds the mutex while `write` copies the bytes out
of the buffer; `write` takes all of them.
-/

namespace Uart

namespace SerialTest2

/-! ### What is stored -/

/-- The command of a frame. -/
def cCmd (pBuff : List UInt8) : UInt8 := pBuff[3]?.getD 0

/-- `uiBuffLen - 9` is negative as a length of the packet: `GenCRC` gets it as a number of more
than four milliards. -/
def Short (pBuff : List UInt8) : Prop := cCmd pBuff = 0x85 ∧ pBuff.length < 9

instance (pBuff : List UInt8) : Decidable (Short pBuff) :=
  inferInstanceAs (Decidable (_ ∧ _))

/-- The stores into `g_SendBuffer`, in their order, as far as `GenCRC` returns. -/
def stores (pBuff : List UInt8) : List (ℕ × UInt8) :=
  [(0, 0xAA), (1, 0x00)] ++
    if cCmd pBuff = 0x83 then [(2, 0x02), (3, 0x83), (4, 0x00), (5, 0x83)]
    else if cCmd pBuff = 0x84 then [(2, 0x01), (3, 0x84), (4, 0x84)]
    else if cCmd pBuff = 0x85 then
      [(2, 0x02), (3, 0x85), (5, 0x85)] ++
        if pBuff.length < 9 then []
        else [(4, if crcCalc pBuff ≠ crcRecv pBuff then 0x01 else 0x00)]
    else if cCmd pBuff = 0x86 then [(2, 0x02), (3, 0x86), (4, 0x00), (5, 0x86)]
    else []

/-- `iSendBuffLen`, if `GenCRC` returns. -/
def iSendBuffLen (pBuff : List UInt8) : Option ℕ :=
  if cCmd pBuff = 0x83 then some 6
  else if cCmd pBuff = 0x84 then some 5
  else if cCmd pBuff = 0x85 then if pBuff.length < 9 then none else some 6
  else if cCmd pBuff = 0x86 then some 6
  else some 0

/-- The reply to a command, if there is one. -/
def reply (pBuff : List UInt8) : Option (List UInt8) :=
  if pBuff.length < 5 ∨ Short pBuff then none
  else
    match replyTail (cCmd pBuff) pBuff with
    | [] => none
    | a :: tail => some (0xAA :: 0x00 :: a :: tail)

/-! ### The threads -/

/-- Where `RecvThread` is: it reads, or `ProcessRecvBuffer` has some stores before it, or `GenCRC`
reads what is behind the frame. -/
inductive RecvPoint where
  | reading
  | storing (stores : List (ℕ × UInt8)) (iSendBuffLen : Option ℕ)
  | outOfBounds
  deriving DecidableEq

/-- Where `SendThread` is: it is going to lock the mutex, waits in `pthread_cond_wait`, has been
woken there, or is writing with the mutex held. -/
inductive SendPoint where
  | locking
  | waiting
  | woken
  | writing (copied : List UInt8)
  deriving DecidableEq

/-- The number of bytes of the reply that `ProcessRecvBuffer` prepares. -/
def RecvPoint.sendBuffLen : RecvPoint → ℕ
  | .storing _ (some n) => n
  | _ => 0

/-- The bytes that `write` has copied. -/
def SendPoint.copied : SendPoint → List UInt8
  | .writing copied => copied
  | _ => []

/-- The two threads, the replies to the commands received and those written to the UART. -/
structure Threads where
  buffer : SendBuffer
  recv : RecvPoint
  send : SendPoint
  replies : List (List UInt8)
  written : List (List UInt8)

/-- What happens: `RecvThread` receives a frame, and `ProcessRecvBuffer` makes its next store or
comes to its end; `SendThread` locks the mutex, is woken without a signal, leaves
`pthread_cond_wait`, copies a byte, or comes to the end of its loop. -/
inductive Action where
  | receive (pBuff : List UInt8)
  | store
  | finish
  | lock
  | wake
  | resume
  | copy
  | unlock

namespace Threads

/-- Both threads have begun. -/
def start : Threads where
  buffer := .start
  recv := .reading
  send := .locking
  replies := []
  written := []

/-- `RecvThread` calls `ProcessRecvBuffer`. -/
def receive (s : Threads) (pBuff : List UInt8) : Option Threads :=
  match s.recv with
  | .reading => some { s with
      recv := if pBuff.length < 5 then .reading else .storing (stores pBuff) (iSendBuffLen pBuff)
      replies := s.replies ++ (reply pBuff).toList }
  | _ => none

/-- `g_SendBuffer[i] = b` -/
def store (s : Threads) : Option Threads :=
  match s.recv with
  | .storing ((i, b) :: rest) len => some { s with
      buffer := { s.buffer with bytes := Function.update s.buffer.bytes i b }
      recv := .storing rest len }
  | _ => none

/-- `pthread_cond_signal` -/
def signal : SendPoint → SendPoint
  | .waiting => .woken
  | send => send

/-- The end of `ProcessRecvBuffer`: it sets `g_SendBufferCount` while nobody else holds the
mutex. -/
def finish (s : Threads) : Option Threads :=
  match s.recv, s.send with
  | .storing [] none, _ => some { s with recv := .outOfBounds }
  | .storing [] (some 0), _ => some { s with recv := .reading }
  | .storing [] (some (_ + 1)), .writing _ => none
  | .storing [] (some (n + 1)), send => some { s with
      buffer := { s.buffer with count := n + 1 }
      recv := .reading
      send := signal send }
  | _, _ => none

/-- `SendThread` locks the mutex and looks at `g_SendBufferCount`. -/
def lock (s : Threads) : Option Threads :=
  match s.send with
  | .locking => some { s with send := if s.buffer.count = 0 then .waiting else .writing [] }
  | _ => none

/-- A spurious wake-up -/
def wake (s : Threads) : Option Threads :=
  match s.send with
  | .waiting => some { s with send := .woken }
  | _ => none

/-- `pthread_cond_wait` returns. -/
def resume (s : Threads) : Option Threads :=
  match s.send with
  | .woken => some { s with send := .writing [] }
  | _ => none

/-- `write` copies a byte. -/
def copy (s : Threads) : Option Threads :=
  match s.send with
  | .writing copied =>
      if copied.length < s.buffer.count then
        some { s with send := .writing (copied ++ [s.buffer.bytes copied.length]) }
      else none
  | _ => none

/-- `write` is done, and `SendThread` empties the buffer and unlocks the mutex. -/
def unlock (s : Threads) : Option Threads :=
  match s.send with
  | .writing copied =>
      if copied.length < s.buffer.count then none
      else some { s with
        buffer := { s.buffer with count := 0 }
        send := .locking
        written := s.written ++ [copied] }
  | _ => none

end Threads

/-- The two threads -/
def threads : Machine Threads Action where
  step s
    | .receive pBuff => s.receive pBuff
    | .store => s.store
    | .finish => s.finish
    | .lock => s.lock
    | .wake => s.wake
    | .resume => s.resume
    | .copy => s.copy
    | .unlock => s.unlock

/-! ### The stores make the reply -/

/-- Some of the stores of a reply remain to be made, and all others have been made. -/
structure Prepares (stores : List (ℕ × UInt8)) (bytes : Memory UInt8) (reply : List UInt8) :
    Prop where
  remaining : ∀ x ∈ stores, reply[x.1]? = some x.2
  made : ∀ i b, reply[i]? = some b → (i, b) ∈ stores ∨ bytes i = b

theorem prepares_of_forall {stores : List (ℕ × UInt8)} {r : List UInt8} (bytes : Memory UInt8)
    (hremaining : ∀ x ∈ stores, r[x.1]? = some x.2)
    (hall : ∀ x ∈ r.zipIdx, (x.2, x.1) ∈ stores) :
  Prepares stores bytes r
  := by
  constructor
  case remaining => exact hremaining
  case made =>
    intro i b hb
    left
    apply hall (b, i) (List.mk_mem_zipIdx_iff_getElem?.mpr hb)

/-- What a reply consists of. -/
theorem cases_of_reply {pBuff r : List UInt8} (hreply : reply pBuff = some r) :
  5 ≤ pBuff.length ∧ ¬ Short pBuff ∧ replyTail (cCmd pBuff) pBuff ≠ [] ∧
    r = 0xAA :: 0x00 :: replyTail (cCmd pBuff) pBuff
  := by
  rw [reply] at hreply
  split at hreply
  case isTrue => cases hreply
  case isFalse hlong =>
    obtain ⟨hlen, hshort⟩ := not_or.mp hlong
    use not_lt.mp hlen, hshort
    cases htail : replyTail (cCmd pBuff) pBuff with
    | nil =>
        rw [htail] at hreply
        cases hreply
    | cons a tail =>
        rw [htail] at hreply
        exact ⟨List.cons_ne_nil _ _, (Option.some.inj hreply).symm⟩

/-- At first all stores of a reply remain to be made. -/
theorem prepares_stores {pBuff r : List UInt8} (hreply : reply pBuff = some r)
    (bytes : Memory UInt8) :
  Prepares (stores pBuff) bytes r ∧ iSendBuffLen pBuff = some r.length
  := by
  obtain ⟨-, hshort, hne, rfl⟩ := cases_of_reply hreply
  by_cases h83 : cCmd pBuff = 0x83
  · simp only [stores, iSendBuffLen, replyTail, if_pos h83]
    exact ⟨prepares_of_forall bytes (by decide) (by decide), rfl⟩
  by_cases h84 : cCmd pBuff = 0x84
  · simp only [stores, iSendBuffLen, replyTail, if_neg h83, if_pos h84]
    exact ⟨prepares_of_forall bytes (by decide) (by decide), rfl⟩
  by_cases h85 : cCmd pBuff = 0x85
  · have hlong : ¬ pBuff.length < 9 := fun hlt => hshort ⟨h85, hlt⟩
    simp only [stores, iSendBuffLen, replyTail, if_neg h83, if_neg h84, if_pos h85, if_neg hlong]
    generalize (if crcCalc pBuff ≠ crcRecv pBuff then (0x01 : UInt8) else 0x00) = c
    constructor
    · apply prepares_of_forall bytes
      · simp
      · simp
    · rfl
  by_cases h86 : cCmd pBuff = 0x86
  · simp only [stores, iSendBuffLen, replyTail, if_neg h83, if_neg h84, if_neg h85, if_pos h86]
    exact ⟨prepares_of_forall bytes (by decide) (by decide), rfl⟩
  · exact absurd (by simp only [replyTail, if_neg h83, if_neg h84, if_neg h85, if_neg h86]) hne

theorem iSendBuffLen_of_short {pBuff : List UInt8} (h : Short pBuff) :
  iSendBuffLen pBuff = none
  := by
  rw [iSendBuffLen, h.1, if_neg (by decide), if_neg (by decide), if_pos rfl, if_pos h.2]

/-- A command that is not known is not answered. -/
theorem stores_of_none {pBuff : List UInt8} (hreply : reply pBuff = none)
    (hlen : 5 ≤ pBuff.length) (hshort : ¬ Short pBuff) :
  stores pBuff = [(0, 0xAA), (1, 0x00)] ∧ iSendBuffLen pBuff = some 0 ∧
    replyTail (cCmd pBuff) pBuff = []
  := by
  have htail : replyTail (cCmd pBuff) pBuff = [] := by
    rw [reply, if_neg (not_or.mpr ⟨not_lt.mpr hlen, hshort⟩)] at hreply
    cases htail : replyTail (cCmd pBuff) pBuff with
    | nil => rfl
    | cons a tail =>
        rw [htail] at hreply
        cases hreply
  have h := htail
  simp only [replyTail] at h
  split_ifs at h with h83 h84 h85 h86
  use by simp only [stores, if_neg h83, if_neg h84, if_neg h85, if_neg h86, List.append_nil]
  use by simp only [iSendBuffLen, if_neg h83, if_neg h84, if_neg h85, if_neg h86]

/-- The next store is made. -/
theorem Prepares.store {i : ℕ} {b : UInt8} {rest : List (ℕ × UInt8)} {bytes : Memory UInt8}
    {r : List UInt8} (h : Prepares ((i, b) :: rest) bytes r) :
  Prepares rest (Function.update bytes i b) r
  := by
  have hb := h.remaining _ List.mem_cons_self
  constructor
  case remaining => exact fun x hx => h.remaining x (List.mem_cons_of_mem _ hx)
  case made =>
    intro j c hc
    rcases eq_or_ne j i with rfl | hne
    · right
      rw [Function.update_self]
      apply Option.some.inj (hb.symm.trans hc)
    · rw [Function.update_of_ne hne]
      rcases h.made j c hc with hmem | hbytes
      · rcases List.mem_cons.mp hmem with heq | hmem
        · exact absurd (congrArg Prod.fst heq) hne
        · apply Or.inl hmem
      · apply Or.inr hbytes

/-- When all stores have been made, the reply is in the buffer. -/
theorem Prepares.foldl {stores : List (ℕ × UInt8)} {bytes : Memory UInt8} {r : List UInt8}
    (h : Prepares stores bytes r) :
  stores.foldl (fun bytes x => Function.update bytes x.1 x.2) bytes = bytes.write 0 r
  := by
  induction stores generalizing bytes with
  | nil =>
      funext i
      rcases lt_or_ge i r.length with hlt | hge
      · rw [Memory.write_apply_of_mem _ _ (Nat.zero_le i) (by omega)]
        rcases h.made i r[i] (List.getElem?_eq_getElem hlt) with hmem | hbytes
        · exact absurd hmem List.not_mem_nil
        · exact hbytes
      · rw [Memory.write_apply_of_le _ _ (by omega)]
        rfl
  | cons x rest ih =>
      rw [List.foldl_cons, ih h.store]
      obtain ⟨hlt, -⟩ := List.getElem?_eq_some_iff.mp (h.remaining x List.mem_cons_self)
      funext i
      rcases lt_or_ge i r.length with hi | hi
      · rw [Memory.write_apply_of_mem _ _ (Nat.zero_le i) (by omega),
          Memory.write_apply_of_mem _ _ (Nat.zero_le i) (by omega)]
      · rw [Memory.write_apply_of_le _ _ (by omega), Memory.write_apply_of_le _ _ (by omega),
          Function.update_of_ne (by omega)]

/-- What the stores come to when `ProcessRecvBuffer` runs alone. -/
theorem processRecvBuffer_bytes (s : SendBuffer) {pBuff : List UInt8} (hlen : 5 ≤ pBuff.length)
    (hshort : ¬ Short pBuff) :
  (processRecvBuffer s pBuff).bytes =
    (stores pBuff).foldl (fun bytes x => Function.update bytes x.1 x.2) s.bytes
  := by
  have hbytes : (processRecvBuffer s pBuff).bytes =
      (s.bytes.write 0 [0xAA, 0x00]).write 2 (replyTail (cCmd pBuff) pBuff) := by
    rw [processRecvBuffer, if_neg (not_lt.mpr hlen)]
    exact (apply_ite SendBuffer.bytes ..).trans (ite_self _)
  rw [hbytes]
  cases hreply : reply pBuff with
  | some r =>
      obtain ⟨-, -, -, hr⟩ := cases_of_reply hreply
      rw [(prepares_stores hreply s.bytes).1.foldl, hr]
      apply Memory.write_write_append s.bytes 0 [0xAA, 0x00] _
  | none =>
      obtain ⟨hstores, -, htail⟩ := stores_of_none hreply hlen hshort
      rw [hstores, htail, Memory.write_nil]
      have hprepares : Prepares [(0, 0xAA), (1, 0x00)] s.bytes [0xAA, 0x00] :=
        prepares_of_forall s.bytes (by decide) (by decide)
      apply hprepares.foldl.symm

variable {s s' : Threads} {a : Action} {pBuff : List UInt8}

/-! ### The actions -/

theorem receive_cases (h : s.receive pBuff = some s') :
  s.recv = .reading ∧ s' = { s with
    recv := if pBuff.length < 5 then .reading else .storing (stores pBuff) (iSendBuffLen pBuff)
    replies := s.replies ++ (reply pBuff).toList }
  := by
  simp only [Threads.receive] at h
  split at h
  case h_1 hrecv => exact ⟨hrecv, (Option.some.inj h).symm⟩
  case h_2 => cases h

theorem store_cases (h : s.store = some s') :
  ∃ i b rest len, s.recv = .storing ((i, b) :: rest) len ∧ s' = { s with
    buffer := { s.buffer with bytes := Function.update s.buffer.bytes i b }
    recv := .storing rest len }
  := by
  simp only [Threads.store] at h
  split at h
  case h_1 i b rest len hrecv => exact ⟨i, b, rest, len, hrecv, (Option.some.inj h).symm⟩
  case h_2 => cases h

theorem finish_cases (h : s.finish = some s') :
  (s.recv = .storing [] none ∧ s' = { s with recv := .outOfBounds }) ∨
    (s.recv = .storing [] (some 0) ∧ s' = { s with recv := .reading }) ∨
    ∃ n, s.recv = .storing [] (some n) ∧ 0 < n ∧ (∀ copied, s.send ≠ .writing copied) ∧
      s' = { s with
        buffer := { s.buffer with count := n }
        recv := .reading
        send := Threads.signal s.send }
  := by
  simp only [Threads.finish] at h
  split at h
  case h_1 hrecv => apply Or.inl ⟨hrecv, (Option.some.inj h).symm⟩
  case h_2 hrecv => apply Or.inr (Or.inl ⟨hrecv, (Option.some.inj h).symm⟩)
  case h_3 => cases h
  case h_4 n hrecv hsend =>
    right
    right
    use n + 1, hrecv, Nat.succ_pos n
    constructor
    · exact fun copied heq => hsend copied heq
    · exact (Option.some.inj h).symm
  case h_5 => cases h

theorem lock_cases (h : s.lock = some s') :
  s.send = .locking ∧
    s' = { s with send := if s.buffer.count = 0 then .waiting else .writing [] }
  := by
  simp only [Threads.lock] at h
  split at h
  case h_1 hsend => exact ⟨hsend, (Option.some.inj h).symm⟩
  case h_2 => cases h

theorem wake_cases (h : s.wake = some s') :
  s.send = .waiting ∧ s' = { s with send := .woken }
  := by
  simp only [Threads.wake] at h
  split at h
  case h_1 hsend => exact ⟨hsend, (Option.some.inj h).symm⟩
  case h_2 => cases h

theorem resume_cases (h : s.resume = some s') :
  s.send = .woken ∧ s' = { s with send := .writing [] }
  := by
  simp only [Threads.resume] at h
  split at h
  case h_1 hsend => exact ⟨hsend, (Option.some.inj h).symm⟩
  case h_2 => cases h

theorem copy_cases (h : s.copy = some s') :
  ∃ copied, s.send = .writing copied ∧ copied.length < s.buffer.count ∧
    s' = { s with send := .writing (copied ++ [s.buffer.bytes copied.length]) }
  := by
  simp only [Threads.copy] at h
  split at h
  case h_1 copied hsend =>
    obtain ⟨hlt, h⟩ := Option.ite_none_right_eq_some.mp h
    exact ⟨copied, hsend, hlt, (Option.some.inj h).symm⟩
  case h_2 => cases h

theorem unlock_cases (h : s.unlock = some s') :
  ∃ copied, s.send = .writing copied ∧ s.buffer.count ≤ copied.length ∧ s' = { s with
    buffer := { s.buffer with count := 0 }
    send := .locking
    written := s.written ++ [copied] }
  := by
  simp only [Threads.unlock] at h
  split at h
  case h_1 copied hsend =>
    obtain ⟨hle, h⟩ := Option.ite_none_left_eq_some.mp h
    exact ⟨copied, hsend, not_lt.mp hle, (Option.some.inj h).symm⟩
  case h_2 => cases h

theorem signal_ne_waiting (send : SendPoint) :
  Threads.signal send ≠ .waiting
  := by
  cases send <;> nofun

/-- A signal reaches a thread that is not writing. -/
theorem copied_signal {send : SendPoint} (h : ∀ copied, send ≠ .writing copied) :
  (Threads.signal send).copied = []
  := by
  cases send with
  | locking => rfl
  | waiting => rfl
  | woken => rfl
  | writing copied => exact absurd rfl (h copied)

/-! ### Coming to rest -/

/-- Nothing is left to be done until another command is received. -/
def AtRest (s : Threads) : Prop :=
  s.send = .waiting ∧ (s.recv = .reading ∨ s.recv = .outOfBounds)

instance (s : Threads) : Decidable (AtRest s) :=
  inferInstanceAs (Decidable (_ ∧ _))

/-- What the threads do by themselves. -/
def Action.Internal : Action → Prop
  | .receive _ => False
  | .wake => False
  | _ => True

/-- What `ProcessRecvBuffer` has before it. -/
def RecvPoint.rank : RecvPoint → ℕ
  | .storing stores len => stores.length + len.getD 0 + 6
  | _ => 0

/-- What `SendThread` has before it. -/
def SendPoint.rank (count : ℕ) : SendPoint → ℕ
  | .locking => if count = 0 then 1 else count + 4
  | .waiting => 0
  | .woken => count + 4
  | .writing copied => count - copied.length + 3

def rank (s : Threads) : ℕ := s.recv.rank + s.send.rank s.buffer.count

/-- By themselves the threads do only finitely many things. -/
theorem rank_lt (hinternal : a.Internal) (hs' : threads.step s a = some s') :
  rank s' < rank s
  := by
  cases a with
  | receive pBuff => apply hinternal.elim
  | wake => apply hinternal.elim
  | store =>
      obtain ⟨i, b, rest, len, hrecv, rfl⟩ := store_cases hs'
      simp only [rank, hrecv, RecvPoint.rank, List.length_cons]
      omega
  | finish =>
      rcases finish_cases hs' with ⟨hrecv, rfl⟩ | ⟨hrecv, rfl⟩ | ⟨n, hrecv, hn, hsend, rfl⟩
      · simp only [rank, hrecv, RecvPoint.rank]
        omega
      · simp only [rank, hrecv, RecvPoint.rank]
        omega
      · have hsignal : (Threads.signal s.send).rank n ≤ n + 4 := by
          cases hpoint : s.send with
          | locking =>
              simp only [Threads.signal, SendPoint.rank, if_neg (Nat.ne_of_gt hn), le_refl]
          | waiting => exact le_rfl
          | woken => exact le_rfl
          | writing copied => exact absurd hpoint (hsend copied)
        simp only [rank, hrecv, RecvPoint.rank, Option.getD_some]
        omega
  | lock =>
      obtain ⟨hsend, rfl⟩ := lock_cases hs'
      simp only [rank, hsend]
      split_ifs with hcount
      · simp only [SendPoint.rank, if_pos hcount]
        omega
      · simp only [SendPoint.rank, if_neg hcount, List.length_nil]
        omega
  | resume =>
      obtain ⟨hsend, rfl⟩ := resume_cases hs'
      simp only [rank, hsend, SendPoint.rank, List.length_nil]
      omega
  | copy =>
      obtain ⟨copied, hsend, hlt, rfl⟩ := copy_cases hs'
      simp only [rank, hsend, SendPoint.rank, List.length_append, List.length_singleton]
      omega
  | unlock =>
      obtain ⟨copied, hsend, -, rfl⟩ := unlock_cases hs'
      simp only [rank, hsend, SendPoint.rank, if_true]
      omega

/-- Unless they are at rest, there is something that they can do. -/
theorem exists_internal (h : ¬ AtRest s) :
  ∃ a : Action, a.Internal ∧ (threads.step s a).isSome
  := by
  cases hsend : s.send with
  | locking =>
      use .lock, trivial
      simp only [threads, Threads.lock, hsend, Option.isSome_some]
  | woken =>
      use .resume, trivial
      simp only [threads, Threads.resume, hsend, Option.isSome_some]
  | writing copied =>
      by_cases hlt : copied.length < s.buffer.count
      · use .copy, trivial
        simp only [threads, Threads.copy, hsend, if_pos hlt, Option.isSome_some]
      · use .unlock, trivial
        simp only [threads, Threads.unlock, hsend, if_neg hlt, Option.isSome_some]
  | waiting =>
      cases hrecv : s.recv with
      | reading => exact absurd ⟨hsend, Or.inl hrecv⟩ h
      | outOfBounds => exact absurd ⟨hsend, Or.inr hrecv⟩ h
      | storing stores len =>
          cases stores with
          | cons x rest =>
              use .store, trivial
              simp only [threads, Threads.store, hrecv, Option.isSome_some]
          | nil =>
              use .finish, trivial
              rcases len with _ | _ | n
              all_goals simp only [threads, Threads.finish, hrecv, hsend, Option.isSome_some]

/-- From every state the threads come to rest by themselves. -/
theorem comes_to_rest (s : Threads) :
  ∃ moves s', (∀ a ∈ moves, a.Internal) ∧ threads.final s moves = some s' ∧ AtRest s'
  := by
  induction hn : rank s using Nat.strong_induction_on generalizing s with
  | _ n ih =>
      by_cases hrest : AtRest s
      · exact ⟨[], s, nofun, rfl, hrest⟩
      obtain ⟨a, ha, hsome⟩ := exists_internal hrest
      obtain ⟨s₁, hs₁⟩ := Option.isSome_iff_exists.mp hsome
      obtain ⟨moves, s', hmoves, hfinal, hrest'⟩ := ih _ (hn ▸ rank_lt ha hs₁) s₁ rfl
      use a :: moves, s'
      constructor
      · rintro b (_ | ⟨_, hb⟩)
        · exact ha
        · apply hmoves b hb
      · rw [Machine.final_of_step hs₁]
        exact ⟨hfinal, hrest'⟩

end SerialTest2

end Uart
