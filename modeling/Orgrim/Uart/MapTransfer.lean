import Orgrim.Theory.Machine
import Orgrim.Uart.MapSender

/-!
# The transfer of the map

`SendThread`, `RecvThread` and the reply they share in `map_send_test.c`, as a `Machine`: the
sender transmits a frame and reads the reply, the receiver publishes replies at any time, and
the sender's wait of five seconds may time out.  The sections that hold `g_ReadMutex` are
single actions.

Everything `ReadDataFromUart` does not recognise counts as a success, and a reply that is
still there from before is taken for the one awaited.  `advances_acknowledged` says what has
to hold of the replies for every frame to be acknowledged, and `unrelated_advances` is a run
in which one is not.
-/

namespace Uart

/-- `g_ullTotalRecvCount`, `g_ullTotalErrRecvCount` and `g_iReplyErrorCount` -/
structure ReplyCounts where
  totalRecv : ℕ
  totalErrRecv : ℕ
  replyError : ℕ
deriving DecidableEq

/-- The counters when the program starts. -/
def ReplyCounts.start : ReplyCounts where
  totalRecv := 1
  totalErrRecv := 0
  replyError := 0

/-- The part of `ReadDataFromUart` that evaluates the reply. -/
def evaluateReply (c : ReplyCounts) (reply : List UInt8) : RecvErr × ReplyCounts :=
  if reply.length ≥ 6 ∧ reply[3]?.getD 0 = 0x03 then
    if reply[4]?.getD 0 = 0x05 then
      let c := { c with totalRecv := c.totalRecv + 1 }
      if isChecksumError reply ≠ 0 then
        (.eok, { c with totalErrRecv := c.totalErrRecv + 1 })
      else if reply[5]?.getD 0 ≠ 0x00 then
        let c := { c with
          totalErrRecv := c.totalErrRecv + 1
          replyError := c.replyError + 1 }
        if c.replyError > 3 then (.egeneric, c) else (.eok, c)
      else (.eok, c)
    else (.eok, c)
  else (.eok, c)

/-- Where `SendThread` is: before a frame, in `ReadDataFromUart` before it holds the mutex,
waiting there, or exited. -/
inductive SendPhase where
  | sending
  | entering
  | waiting
  | exited (code : ℕ)
deriving DecidableEq

/-- The state of the program; `reply` is `g_ReadBuff` up to `g_ReadBuffLen`. -/
structure Transfer where
  phase : SendPhase
  vars : MapSend
  reply : List UInt8
  counts : ReplyCounts
deriving DecidableEq

/-- The state when `SendThread` enters its loop. -/
def Transfer.start : Transfer where
  phase := .sending
  vars := .start
  reply := []
  counts := .start

/-- What can happen. -/
inductive TransferAction where
  /-- `SendThread` fails to allocate a frame -/
  | mallocFailed
  /-- `SendThread` writes the frame and calls `ReadDataFromUart` -/
  | transmit
  /-- `RecvThread` stores a reply and its length -/
  | publish (reply : List UInt8)
  /-- `ReadDataFromUart` gets the mutex, at first or after `pthread_cond_timedwait` -/
  | read
  /-- `pthread_cond_timedwait` times out -/
  | timeout
deriving DecidableEq

namespace Transfer

/-- The condition of the loop. -/
def again (l : Transfer) : Transfer :=
  { l with phase := if l.vars.left > 0 then .sending else .exited 0 }

/-- What `SendThread` does when `ReadDataFromUart` has returned. -/
def answered (l : Transfer) : RecvErr → Transfer
  | .eok => { l with vars := l.vars.advance }.again
  | .egeneric => { l with phase := .exited 2 }
  | .etimedout => l.again

/-- `ReadDataFromUart` takes the reply that is there. -/
def take (l : Transfer) : Transfer :=
  let (err, counts) := evaluateReply l.counts l.reply
  { l with reply := [], counts := counts }.answered err

/-- The actions of `map_send_test.c`. -/
def act (l : Transfer) : TransferAction → Option Transfer
  | .mallocFailed =>
      if l.phase = .sending then some { l with phase := .exited 1 } else none
  | .transmit => if l.phase = .sending then some { l with phase := .entering } else none
  | .publish reply => some { l with reply := reply }
  | .read =>
      if l.phase = .entering ∨ l.phase = .waiting then
        some (if l.reply.length ≤ 0 then { l with phase := .waiting } else l.take)
      else none
  | .timeout =>
      if l.phase = .waiting then some ({ l with reply := [] }.answered .etimedout) else none

end Transfer

/-- The threads of `map_send_test.c`. -/
def mapTransfer : Machine Transfer TransferAction where
  step := Transfer.act

/-! ### Acknowledgements -/

/-- The reply acknowledges a frame: command, subcommand, checksum and status are right. -/
def Acknowledges (reply : List UInt8) : Prop :=
  reply.length ≥ 6 ∧ reply[3]?.getD 0 = 0x03 ∧ reply[4]?.getD 0 = 0x05 ∧
    isChecksumError reply = 0 ∧ reply[5]?.getD 0 = 0x00

instance : DecidablePred Acknowledges :=
  fun _ => inferInstanceAs (Decidable (_ ∧ _ ∧ _ ∧ _ ∧ _))

/-- What has been received since the last transmission: any acknowledgement, and the reply
that is there. -/
structure Heard where
  acknowledged : Bool
  fresh : Bool

/-- What has been received after an action. -/
def Heard.after (_ : Transfer) (a : TransferAction) (g : Heard) : Heard :=
  match a with
  | .transmit => ⟨false, false⟩
  | .publish reply => ⟨g.acknowledged || decide (Acknowledges reply), true⟩
  | _ => g

/-- The sender goes on to the next frame only if an acknowledgement has been received since it
transmitted the present one. -/
def AdvancesAcknowledged (x : Transfer × Heard) (a : TransferAction) : Prop :=
  ∀ l ∈ x.1.act a, l.vars.frameNo ≠ x.1.vars.frameNo → x.2.acknowledged = true

/-- A reply that is read acknowledges the frame and has been received since the transmission. -/
def ReadsAnswer (x : Transfer × Heard) (a : TransferAction) : Prop :=
  a = .read → x.1.reply ≠ [] → x.2.fresh = true ∧ Acknowledges x.1.reply

instance (x : Transfer × Heard) (a : TransferAction) : Decidable (AdvancesAcknowledged x a) :=
  inferInstanceAs (Decidable (∀ l ∈ x.1.act a, _ → _))

instance (x : Transfer × Heard) (a : TransferAction) : Decidable (ReadsAnswer x a) :=
  inferInstanceAs (Decidable (_ → _ → _ ∧ _))

/-- A reply received since the transmission that acknowledges the frame has been noticed. -/
def Noticed (x : Transfer × Heard) : Prop :=
  x.2.fresh = true → Acknowledges x.1.reply → x.2.acknowledged = true

/-! ### One action -/

@[simp]
theorem vars_again (l : Transfer) :
  l.again.vars = l.vars
  := rfl

@[simp]
theorem reply_again (l : Transfer) :
  l.again.reply = l.reply
  := rfl

/-- Only a success moves on to the next frame. -/
theorem vars_answered {l : Transfer} {err : RecvErr} (h : err ≠ .eok) :
  (l.answered err).vars = l.vars
  := by
  cases err with
  | eok => exact absurd rfl h
  | egeneric => rfl
  | etimedout => rfl

theorem reply_answered (l : Transfer) (err : RecvErr) :
  (l.answered err).reply = l.reply
  := by
  cases err with
  | _ => rfl

/-- What an action can do. -/
theorem act_cases {l l' : Transfer} {a : TransferAction} (hact : l' ∈ l.act a) :
  (a = .mallocFailed ∧ l.phase = .sending ∧ l' = { l with phase := .exited 1 }) ∨
    (a = .transmit ∧ l.phase = .sending ∧ l' = { l with phase := .entering }) ∨
    (a = .publish l'.reply ∧ l' = { l with reply := l'.reply }) ∨
    (a = .read ∧ (l.phase = .entering ∨ l.phase = .waiting) ∧ l.reply = [] ∧
      l' = { l with phase := .waiting }) ∨
    (a = .read ∧ (l.phase = .entering ∨ l.phase = .waiting) ∧ l.reply ≠ [] ∧ l' = l.take) ∨
    (a = .timeout ∧ l.phase = .waiting ∧ l' = { l with reply := [] }.answered .etimedout)
  := by
  cases a with
  | mallocFailed =>
      obtain ⟨hphase, h⟩ := Option.ite_none_right_eq_some.mp hact
      obtain rfl := Option.some.inj h
      left
      exact ⟨rfl, hphase, rfl⟩
  | transmit =>
      obtain ⟨hphase, h⟩ := Option.ite_none_right_eq_some.mp hact
      obtain rfl := Option.some.inj h
      right; left
      exact ⟨rfl, hphase, rfl⟩
  | publish reply =>
      obtain rfl := Option.some.inj hact
      right; right; left
      exact ⟨rfl, rfl⟩
  | read =>
      obtain ⟨hphase, h⟩ := Option.ite_none_right_eq_some.mp hact
      obtain rfl := Option.some.inj h
      right; right; right
      by_cases hnil : l.reply = []
      · left
        rw [if_pos (by simp [hnil])]
        exact ⟨rfl, hphase, hnil, rfl⟩
      · right; left
        rw [if_neg (by simp [hnil])]
        exact ⟨rfl, hphase, hnil, rfl⟩
  | timeout =>
      obtain ⟨hphase, h⟩ := Option.ite_none_right_eq_some.mp hact
      obtain rfl := Option.some.inj h
      right; right; right; right; right
      exact ⟨rfl, hphase, rfl⟩

/-- The action that goes on to the next frame is the evaluation of a reply as a success. -/
theorem act_advances {l l' : Transfer} {a : TransferAction} (hact : l' ∈ l.act a)
    (hadvance : l'.vars.frameNo ≠ l.vars.frameNo) :
  a = .read ∧ l.reply ≠ [] ∧ (evaluateReply l.counts l.reply).1 = .eok
  := by
  rcases act_cases hact with ⟨-, -, rfl⟩ | ⟨-, -, rfl⟩ | ⟨-, hl⟩ | ⟨-, -, -, rfl⟩
    | ⟨rfl, -, hreply, rfl⟩ | ⟨-, -, rfl⟩
  · exact absurd rfl hadvance
  · exact absurd rfl hadvance
  · rw [hl] at hadvance
    exact absurd rfl hadvance
  · exact absurd rfl hadvance
  · use rfl, hreply
    by_contra herr
    apply hadvance
    rw [Transfer.take, vars_answered herr]
  · exact absurd rfl hadvance

/-- The reply that is there is the one published, the one that was there, or none. -/
theorem act_reply {l l' : Transfer} {a : TransferAction} (hact : l' ∈ l.act a) :
  a = .publish l'.reply ∨ l'.reply = l.reply ∨ l'.reply = []
  := by
  rcases act_cases hact with ⟨-, -, rfl⟩ | ⟨-, -, rfl⟩ | ⟨rfl, -⟩ | ⟨-, -, -, rfl⟩
    | ⟨-, -, -, rfl⟩ | ⟨-, -, rfl⟩
  · right; left; rfl
  · right; left; rfl
  · left; rfl
  · right; left; rfl
  · right; right
    rw [Transfer.take, reply_answered]
  · right; right; rfl

/-! ### The loop of the sender -/

/-- `SendThread`, as `mapSender` has it. -/
def Transfer.sender (l : Transfer) : Sender :=
  match l.phase with
  | .exited code => .exited code
  | _ => .sending l.vars

/-- The turns of the loop completed so far; `malloc` returns `pBuff`. -/
def turnsAfter (pBuff : Memory UInt8) (l : Transfer) (a : TransferAction) (turns : List Turn) :
    List Turn :=
  match a with
  | .mallocFailed => turns ++ [.mallocFailed]
  | .read =>
      if l.reply = [] then turns
      else turns ++ [.transmitted pBuff (evaluateReply l.counts l.reply).1]
  | .timeout => turns ++ [.transmitted pBuff .etimedout]
  | _ => turns

theorem sender_again (l : Transfer) :
  l.again.sender = l.vars.again
  := by
  rw [MapSend.again, Transfer.again, Transfer.sender]
  by_cases hleft : l.vars.left > 0
  · simp only [if_pos hleft]
  · simp only [if_neg hleft]

theorem sender_answered (l : Transfer) (err : RecvErr) :
  (l.answered err).sender = l.vars.answered err
  := by
  cases err with
  | eok => apply sender_again
  | egeneric => rfl
  | etimedout => apply sender_again

theorem sender_of_sending {l : Transfer} (h : l.phase = .sending) :
  l.sender = .sending l.vars
  := by
  rw [Transfer.sender, h]

theorem sender_of_busy {l : Transfer} (h : l.phase = .entering ∨ l.phase = .waiting) :
  l.sender = .sending l.vars
  := by
  rcases h with h | h
  · rw [Transfer.sender, h]
  · rw [Transfer.sender, h]

/-- An action takes the sender through the turn it completes. -/
theorem sender_act (map pBuff : Memory UInt8) {l l' : Transfer} {a : TransferAction}
    {turns : List Turn} (hturns : (mapSender map).final (.sending .start) turns = l.sender)
    (hact : l' ∈ l.act a) :
  (mapSender map).final (.sending .start) (turnsAfter pBuff l a turns) = l'.sender
  := by
  rcases act_cases hact with ⟨rfl, hphase, rfl⟩ | ⟨rfl, hphase, rfl⟩ | ⟨ha, hl⟩
    | ⟨rfl, hphase, hreply, rfl⟩ | ⟨rfl, hphase, hreply, rfl⟩ | ⟨rfl, hphase, rfl⟩
  · rw [turnsAfter, Scanner.final_append, hturns, sender_of_sending hphase]
    rfl
  · rw [sender_of_sending hphase] at hturns
    apply hturns
  · have hsender : l'.sender = l.sender := by
      rw [hl]
      rfl
    rw [hsender, ha]
    apply hturns
  · rw [turnsAfter, if_pos hreply, hturns, sender_of_busy hphase]
    rfl
  · rw [turnsAfter, if_neg hreply, Scanner.final_append, hturns, sender_of_busy hphase,
      Transfer.take, sender_answered]
    rfl
  · rw [turnsAfter, Scanner.final_append, hturns, sender_of_busy (.inr hphase),
      sender_answered]
    rfl

/-- In every run the sender goes through the turns of `mapSender`. -/
theorem sender_final (map pBuff : Memory UInt8) {actions : List TransferAction} {l : Transfer}
    {turns : List Turn}
    (hfinal : (mapTransfer.recording (turnsAfter pBuff)).final (.start, []) actions
      = some (l, turns)) :
  (mapSender map).final (.sending .start) turns = l.sender
  := by
  apply Machine.final_of_invariant (Q := fun _ _ => True)
    (fun x => (mapSender map).final (.sending .start) x.2 = x.1.sender) _ rfl _ hfinal
  · rintro ⟨l, turns⟩ a hturns - x' hx'
    obtain ⟨l', hact, rfl⟩ := Option.map_eq_some_iff.mp hx'
    apply sender_act map pBuff hturns hact
  · apply Machine.along_of_forall
    intro _ _
    trivial

/-- A transfer that reports success has transmitted the whole map, whatever the replies. -/
theorem transmits_map (map pBuff : Memory UInt8) {actions : List TransferAction}
    {l : Transfer} {turns : List Turn}
    (hfinal : (mapTransfer.recording (turnsAfter pBuff)).final (.start, []) actions
      = some (l, turns))
    (hexit : l.phase = .exited 0) :
  ((mapSender map).output (.sending .start) turns).destutter Differ
    = (List.range' 0 frameCount).map (mapTransmission map)
  := by
  apply destutter_output (k := 0) (by decide)
  have hsender := sender_final map pBuff hfinal
  rw [Transfer.sender, hexit] at hsender
  apply hsender

/-! ### Acknowledged frames -/

theorem noticed_act {l l' : Transfer} {g : Heard} {a : TransferAction} (h : Noticed (l, g))
    (hact : l' ∈ l.act a) :
  Noticed (l', Heard.after l a g)
  := by
  have hkept : (∀ reply, a ≠ .publish reply) → Noticed (l', g) := by
    intro hpublish hfresh hacknowledges
    rcases act_reply hact with hreply | hreply | hreply
    · exact absurd hreply (hpublish _)
    · simp only [hreply] at hacknowledges
      apply h hfresh hacknowledges
    · simp only [hreply] at hacknowledges
      exact absurd hacknowledges (by decide)
  cases a with
  | transmit =>
      intro hfresh
      cases hfresh
  | publish reply =>
      obtain rfl := Option.some.inj hact
      intro _ hacknowledges
      simp only at hacknowledges
      simp [Heard.after, hacknowledges]
  | mallocFailed => apply hkept (by simp)
  | read => apply hkept (by simp)
  | timeout => apply hkept (by simp)

/-- In every run in which every reply that is read acknowledges the frame and has been
received since its transmission, the sender goes on to the next frame only after an
acknowledgement of the present one. -/
theorem advances_acknowledged {actions : List TransferAction}
    (hanswers : (mapTransfer.recording Heard.after).Along ReadsAnswer
      (.start, ⟨false, false⟩) actions) :
  (mapTransfer.recording Heard.after).Along AdvancesAcknowledged
    (.start, ⟨false, false⟩) actions
  := by
  apply Machine.along_of_invariant Noticed _ _ hanswers
  · rintro ⟨l, g⟩ a hnoticed hreads
    constructor
    · intro l' hact hadvance
      obtain ⟨rfl, hreply, -⟩ := act_advances hact hadvance
      obtain ⟨hfresh, hacknowledges⟩ := hreads rfl hreply
      apply hnoticed hfresh hacknowledges
    · rintro x' hx'
      obtain ⟨l', hact, rfl⟩ := Option.map_eq_some_iff.mp hx'
      apply noticed_act hnoticed hact
  · intro hfresh
    cases hfresh

/-- An acknowledgement. -/
def acknowledgement : List UInt8 := [0xAA, 0x00, 0x03, 0x03, 0x05, 0x00, 0x08]

/-- The run in which the first frame is acknowledged. -/
theorem advances_acknowledged_once :
  (mapTransfer.recording Heard.after).Along AdvancesAcknowledged (.start, ⟨false, false⟩)
    [.transmit, .publish acknowledgement, .read]
  := advances_acknowledged (by decide)

/-- The reply to another command. -/
def unrelatedReply : List UInt8 := [0xAA, 0x00, 0x02, 0x81, 0x00, 0x81]

/-- The run in which the reply to another command is received in place of the
acknowledgement: the sender goes on to the second frame. -/
theorem unrelated_advances :
  (mapTransfer.final .start [.transmit, .publish unrelatedReply, .read]).map
      (fun l => l.vars.frameNo) = some 2 ∧
    ¬ (mapTransfer.recording Heard.after).Along AdvancesAcknowledged (.start, ⟨false, false⟩)
      [.transmit, .publish unrelatedReply, .read]
  := by
  constructor
  · decide
  · decide

end Uart
