import Orgrim.NetServer.Server

/-!
# Delivering what has been accepted

A message is written to the client of which `SendMessage` has found the connection, whole and in
its turn, as long as no client is accepted between `SendMessage` and `write`, no other `SendThread`
still has an earlier message, and `write` takes whole messages until it takes nothing more
(`written_as_accepted`).
-/

namespace NetServer

variable {U : Type*}

abbrev State (U : Type*) : Type _ := Monitor.State (Thread U) Point Server Unit Unit

abbrev Move (U : Type*) : Type _ := Monitor.Move (Thread U) Unit Input

/-- The message that a `SendThread` has. -/
def Point.message : Point → Option Message
  | .holding m => some m
  | .writing _ m => some m
  | _ => none

/-- What has been written to a connection are the first of the messages accepted during it. -/
def Delivers (s : State U) : Prop :=
  ∀ c, ∃ messages, messages <+: s.shared.acceptedDuring c ∧ s.shared.written c = messages.flatten

/-- `write` takes nothing, or it takes the whole message for the client that the message is for,
when nobody still has an earlier message for the client and none has been lost. -/
def Proper (s : State U) (a : Move U) : Prop :=
  ∀ t i pick fd m, a = .enter t i pick → s.point t = .writing fd m →
    i.taken = 0 ∨ (i.taken = m.bytes.length ∧ fd = m.conn ∧ m.conn ∉ s.shared.lost ∧
      ∀ t' m', (s.point t').message = some m' → m'.conn = m.conn → m.stamp ≤ m'.stamp)

/-! ### What the threads do with messages -/

/-- What a section does with messages: nothing, or `SendThread` takes one or writes it, or
`SendMessage` accepts one. -/
inductive MessageStep (s : Server) (i : Input) (p : Point) (o : Result) : Prop
  | quiet (hpoint : o.point.message = p.message) (hbuffer : o.shared.sendBuffer = s.sendBuffer)
      (haccepted : o.shared.accepted = s.accepted) (hwritten : o.shared.written = s.written)
      (hlost : o.shared.lost = s.lost)
  | take (m : Message) (hp : p.message = none) (hbuffer : s.sendBuffer = some m)
      (ho : o = { point := .holding m, shared := { s with sendBuffer := none } })
  | write (fd : ℕ) (m : Message) (hp : p = .writing fd m) (ho : s.write fd m i.taken = some o)
  | accept (pData : List UInt8) (hp : p = .checked pData) (hbuffer : s.sendBuffer = none)
      (ho : o = s.sendMessage pData)

variable {s : Server} {i : Input} {p : Point} {o : Result}

theorem take_step (hp : p.message = none) :
  MessageStep s i p s.take
  := by
  rw [Server.take]
  cases hbuffer : s.sendBuffer with
  | none => exact .quiet hp.symm rfl rfl rfl rfl
  | some m => exact .take m hp hbuffer rfl

theorem enter_step (h : s.enter i p = some o) :
  MessageStep s i p o
  := by
  cases p with
  | accepting =>
      obtain rfl := Option.some.inj h
      rw [Server.accept]
      split_ifs <;> exact .quiet rfl rfl rfl rfl rfl
  | accepted =>
      obtain rfl := Option.some.inj h
      exact .quiet rfl rfl rfl rfl rfl
  | cleared =>
      obtain rfl := Option.some.inj h
      exact .quiet rfl rfl rfl rfl rfl
  | serving =>
      obtain rfl := Option.some.inj h
      cases i.ending <;> exact .quiet rfl rfl rfl rfl rfl
  | serverDone => cases h
  | unstarted k =>
      obtain ⟨-, h⟩ := Option.ite_none_right_eq_some.mp h
      obtain rfl := Option.some.inj h
      exact .quiet rfl rfl rfl rfl rfl
  | check =>
      obtain rfl := Option.some.inj h
      rw [Server.sendCheck]
      split_ifs <;> exact .quiet rfl rfl rfl rfl rfl
  | lock =>
      obtain rfl := Option.some.inj h
      apply take_step rfl
  | waiting =>
      obtain rfl := Option.some.inj h
      apply take_step rfl
  | holding m =>
      obtain rfl := Option.some.inj h
      exact .quiet rfl rfl rfl rfl rfl
  | writing fd m => exact .write fd m rfl h
  | senderDone => cases h
  | idle =>
      obtain ⟨-, h⟩ := Option.ite_none_right_eq_some.mp h
      obtain rfl := Option.some.inj h
      have hpoint : (if s.iClientFD = 0 ∨ s.bStopClient then Point.idle
          else .checked i.pData).message = Point.idle.message := by
        split_ifs <;> rfl
      exact .quiet hpoint rfl rfl rfl rfl
  | checked pData =>
      obtain rfl := Option.some.inj h
      cases hbuffer : s.sendBuffer with
      | none => exact .accept pData rfl hbuffer rfl
      | some m =>
          rw [Server.sendMessage, hbuffer]
          exact .quiet rfl rfl rfl rfl rfl

/-! ### The invariant -/

/-- The bytes of the messages for a connection. -/
def bytesFor (c : ℕ) (accepted : List (ℕ × List UInt8)) : List UInt8 :=
  ((accepted.filter (fun x => x.1 = c)).map Prod.snd).flatten

/-- A message is what `SendMessage` has accepted. -/
structure Recorded (s : Server) (m : Message) : Prop where
  accepted : s.accepted[m.stamp]? = some (m.conn, m.bytes)
  nonempty : m.bytes ≠ []

/-- A message has yet to be written. -/
def Pending (s : Server) (point : Thread U → Point) (m : Message) : Prop :=
  (∃ t, (point t).message = some m) ∨ s.sendBuffer = some m

/-- What has been written to a connection are its messages among the first `k`, and unless one has
been lost, all the others have yet to be written. -/
structure Written (s : Server) (point : Thread U → Point) (c k : ℕ) : Prop where
  bytes : s.written c = bytesFor c (s.accepted.take k)
  later : c ∉ s.lost → ∀ m, Pending s point m → m.conn = c → k ≤ m.stamp
  all : c ∉ s.lost → ∀ j b, k ≤ j → s.accepted[j]? = some (c, b) → b ≠ [] →
    ∃ m, Pending s point m ∧ m.stamp = j

/-- What holds of the messages that have yet to be written, and of what has been written. -/
structure Inv (s : Server) (point : Thread U → Point) : Prop where
  recorded : ∀ m, Pending s point m → Recorded s m
  distinct : ∀ t t' m m', (point t).message = some m → (point t').message = some m' →
    m.stamp = m'.stamp → t = t'
  last : ∀ m, s.sendBuffer = some m → m.stamp + 1 = s.accepted.length
  before : ∀ t m m', (point t).message = some m → s.sendBuffer = some m' → m.stamp < m'.stamp
  written : ∀ c, ∃ k ≤ s.accepted.length, Written s point c k

variable {point point' : Thread U → Point} {s' : Server} {t : Thread U} {m : Message} {c k : ℕ}

theorem Recorded.congr (h : Recorded s m) (haccepted : s'.accepted = s.accepted) :
  Recorded s' m
  := ⟨haccepted ▸ h.accepted, h.nonempty⟩

theorem Written.congr (h : Written s point c k)
    (hpending : ∀ m, Pending s' point' m ↔ Pending s point m)
    (haccepted : s'.accepted = s.accepted) (hwritten : s'.written = s.written)
    (hlost : s'.lost = s.lost) :
  Written s' point' c k
  := by
  constructor
  case bytes =>
    rw [hwritten, haccepted]
    apply h.bytes
  case later =>
    intro hc m hm
    rw [hlost] at hc
    apply h.later hc m ((hpending m).mp hm)
  case all =>
    intro hc j b hj hb hne
    rw [hlost] at hc
    rw [haccepted] at hb
    obtain ⟨m, hm, hstamp⟩ := h.all hc j b hj hb hne
    exact ⟨m, (hpending m).mpr hm, hstamp⟩

/-- Only messages and what has been written matter. -/
theorem Inv.congr (h : Inv s point) (hpoint : ∀ t, (point' t).message = (point t).message)
    (hbuffer : s'.sendBuffer = s.sendBuffer) (haccepted : s'.accepted = s.accepted)
    (hwritten : s'.written = s.written) (hlost : s'.lost = s.lost) :
  Inv s' point'
  := by
  have hpending : ∀ m, Pending s' point' m ↔ Pending s point m := by
    intro m
    simp only [Pending, hpoint, hbuffer]
  constructor
  case recorded => exact fun m hm => (h.recorded m ((hpending m).mp hm)).congr haccepted
  case distinct =>
    intro t t' m m' hm hm'
    rw [hpoint] at hm hm'
    apply h.distinct t t' m m' hm hm'
  case last =>
    rw [hbuffer, haccepted]
    apply h.last
  case before =>
    intro t m m' hm
    rw [hpoint] at hm
    rw [hbuffer]
    apply h.before t m m' hm
  case written =>
    intro c
    obtain ⟨k, hk, hwritten'⟩ := h.written c
    exact ⟨k, haccepted ▸ hk, hwritten'.congr hpending haccepted hwritten hlost⟩

/-! ### Bytes for a connection -/

theorem bytesFor_append (c : ℕ) (l l' : List (ℕ × List UInt8)) :
  bytesFor c (l ++ l') = bytesFor c l ++ bytesFor c l'
  := by
  simp only [bytesFor, List.filter_append, List.map_append, List.flatten_append]

theorem bytesFor_take_succ {l : List (ℕ × List UInt8)} {j : ℕ} {b : List UInt8}
    (h : l[j]? = some (c, b)) :
  bytesFor c (l.take (j + 1)) = bytesFor c (l.take j) ++ b
  := by
  rw [List.take_add_one, h, bytesFor_append]
  simp [bytesFor]

/-- Messages for other connections, and empty ones, make no difference. -/
theorem bytesFor_take_eq {l : List (ℕ × List UInt8)} {j : ℕ} (hle : k ≤ j)
    (h : ∀ i b, k ≤ i → i < j → l[i]? = some (c, b) → b = []) :
  bytesFor c (l.take j) = bytesFor c (l.take k)
  := by
  induction j, hle using Nat.le_induction with
  | base => rfl
  | succ j hkj ih =>
      have hbefore := ih (fun i b hki hij => h i b hki (Nat.lt_succ_of_lt hij))
      cases hj : l[j]? with
      | none => rw [List.take_add_one, hj, Option.toList_none, List.append_nil, hbefore]
      | some x =>
          obtain ⟨d, b⟩ := x
          by_cases hd : d = c
          · subst hd
            rw [bytesFor_take_succ hj, h j b hkj (Nat.lt_succ_self j) hj, List.append_nil, hbefore]
          · rw [List.take_add_one, hj, bytesFor_append, hbefore]
            simp [bytesFor, hd]

/-! ### The sections -/

section

variable [DecidableEq U]

/-- The message of a thread after it has moved. -/
theorem message_update (point : Thread U → Point) (t t' : Thread U) (q : Point) :
  (Function.update point t q t').message = if t' = t then q.message else (point t').message
  := by
  rw [Function.update_apply]
  split_ifs <;> rfl

/-- `SendThread` takes a message. -/
theorem Inv.take (h : Inv s point) (hp : (point t).message = none)
    (hbuffer : s.sendBuffer = some m) :
  Inv { s with sendBuffer := none } (Function.update point t (.holding m))
  := by
  have hmessage : ∀ t' m', (Function.update point t (.holding m) t').message = some m' →
      (t' = t ∧ m' = m) ∨ (t' ≠ t ∧ (point t').message = some m') := by
    intro t' m' hm'
    rw [message_update] at hm'
    split_ifs at hm' with heq
    · apply Or.inl ⟨heq, (Option.some.inj hm').symm⟩
    · apply Or.inr ⟨heq, hm'⟩
  have hpending : ∀ m', Pending { s with sendBuffer := none }
      (Function.update point t (.holding m)) m' ↔ Pending s point m' := by
    intro m'
    constructor
    · rintro (⟨t', ht'⟩ | hnone)
      · rcases hmessage t' m' ht' with ⟨-, rfl⟩ | ⟨-, ht'⟩
        · apply Or.inr hbuffer
        · apply Or.inl ⟨t', ht'⟩
      · cases hnone
    · rintro (⟨t', ht'⟩ | hsome)
      · left
        use t'
        rw [message_update, if_neg _]
        · exact ht'
        · rintro rfl
          rw [hp] at ht'
          cases ht'
      · left
        use t
        rw [message_update, if_pos rfl]
        apply hbuffer.symm.trans hsome
  constructor
  case recorded => exact fun m' hm' => (h.recorded m' ((hpending m').mp hm')).congr rfl
  case last => nofun
  case before => nofun
  case distinct =>
    intro t₁ t₂ m₁ m₂ h₁ h₂ hstamp
    rcases hmessage t₁ m₁ h₁ with ⟨rfl, rfl⟩ | ⟨-, hheld₁⟩
    · rcases hmessage t₂ m₂ h₂ with ⟨rfl, -⟩ | ⟨-, hheld₂⟩
      · rfl
      · have hlt := h.before t₂ m₂ m₁ hheld₂ hbuffer
        omega
    · rcases hmessage t₂ m₂ h₂ with ⟨rfl, rfl⟩ | ⟨-, hheld₂⟩
      · have hlt := h.before t₁ m₁ m₂ hheld₁ hbuffer
        omega
      · apply h.distinct t₁ t₂ m₁ m₂ hheld₁ hheld₂ hstamp
  case written =>
    intro c
    obtain ⟨k, hk, hwritten⟩ := h.written c
    exact ⟨k, hk, hwritten.congr hpending rfl rfl rfl⟩

omit [DecidableEq U] in
/-- For the other messages nothing changes when `SendMessage` accepts one, which has yet to be
written. -/
theorem Written.accept {new : Message} (hk : Written s point c k) (hle : k ≤ s.accepted.length)
    (hpending : ∀ m, Pending s' point' m ↔ Pending s point m ∨ (new.bytes ≠ [] ∧ m = new))
    (hnew : new.stamp = s.accepted.length)
    (haccepted : s'.accepted = s.accepted ++ [(new.conn, new.bytes)])
    (hwritten : s'.written = s.written) (hlost : s'.lost = s.lost) :
  Written s' point' c k
  := by
  constructor
  case bytes => rw [hwritten, haccepted, List.take_append_of_le_length hle, hk.bytes]
  case later =>
    intro hc m hm hconn
    rw [hlost] at hc
    rcases (hpending m).mp hm with hm | ⟨-, rfl⟩
    · apply hk.later hc m hm hconn
    · rw [hnew]
      exact hle
  case all =>
    intro hc j b hj hb hne
    rw [hlost] at hc
    rcases lt_or_ge j s.accepted.length with hlt | hge
    · rw [haccepted, List.getElem?_append_left hlt] at hb
      obtain ⟨m, hm, hstamp⟩ := hk.all hc j b hj hb hne
      exact ⟨m, (hpending m).mpr (Or.inl hm), hstamp⟩
    · rw [haccepted, List.getElem?_append_right hge] at hb
      obtain ⟨hzero, hx⟩ := List.getElem?_eq_some_iff.mp hb
      rw [List.length_singleton] at hzero
      have hdata : new.bytes = b := (by simpa using hx : new.conn = c ∧ new.bytes = b).2
      use new
      rw [hpending, hdata]
      exact ⟨Or.inr ⟨hne, rfl⟩, by omega⟩

/-- `SendMessage` accepts a message. -/
theorem Inv.accept {pData : List UInt8} (h : Inv s point) (hp : (point t).message = none)
    (hbuffer : s.sendBuffer = none) :
  Inv (s.sendMessage pData).shared (Function.update point t .idle)
  := by
  obtain ⟨new, hnew⟩ : ∃ new : Message, new = ⟨pData, s.iClientFD, s.accepted.length⟩ := ⟨_, rfl⟩
  have haccepted : (s.sendMessage pData).shared.accepted =
      s.accepted ++ [(new.conn, new.bytes)] := by
    rw [Server.sendMessage, hbuffer, hnew]
  have hbuffer' : (s.sendMessage pData).shared.sendBuffer =
      if new.bytes = [] then none else some new := by
    rw [Server.sendMessage, hbuffer, hnew]
  have hwritten : (s.sendMessage pData).shared.written = s.written := by
    rw [Server.sendMessage, hbuffer]
  have hlost : (s.sendMessage pData).shared.lost = s.lost := by
    rw [Server.sendMessage, hbuffer]
  have hstamp : new.stamp = s.accepted.length := by rw [hnew]
  generalize (s.sendMessage pData).shared = s' at haccepted hbuffer' hwritten hlost
  have hmessage : ∀ t', (Function.update point t .idle t').message = (point t').message := by
    intro t'
    rw [message_update]
    split_ifs with heq
    · rw [heq, hp]
      rfl
    · rfl
  have hstored : ∀ m, s'.sendBuffer = some m ↔ new.bytes ≠ [] ∧ m = new := by
    intro m
    rw [hbuffer', Option.ite_none_left_eq_some, Option.some.injEq, eq_comm (a := new)]
  have hpending : ∀ m, Pending s' (Function.update point t .idle) m ↔
      Pending s point m ∨ (new.bytes ≠ [] ∧ m = new) := by
    intro m
    simp only [Pending, hmessage, hstored, hbuffer, reduceCtorEq, or_false]
  constructor
  case recorded =>
    intro m hm
    rcases (hpending m).mp hm with hm | ⟨hne, rfl⟩
    · obtain ⟨hrecorded, hnonempty⟩ := h.recorded m hm
      obtain ⟨hlt, -⟩ := List.getElem?_eq_some_iff.mp hrecorded
      constructor
      · rw [haccepted, List.getElem?_append_left hlt, hrecorded]
      · exact hnonempty
    · constructor
      · rw [haccepted, hstamp]
        apply List.getElem?_concat_length
      · exact hne
  case distinct =>
    intro t₁ t₂ m₁ m₂ h₁ h₂
    rw [hmessage] at h₁ h₂
    apply h.distinct t₁ t₂ m₁ m₂ h₁ h₂
  case last =>
    intro m hm
    obtain ⟨-, rfl⟩ := (hstored m).mp hm
    rw [haccepted, List.length_append, hstamp]
    rfl
  case before =>
    intro t' m m' hm hm'
    rw [hmessage] at hm
    obtain ⟨-, rfl⟩ := (hstored m').mp hm'
    obtain ⟨hrecorded, -⟩ := h.recorded m (Or.inl ⟨t', hm⟩)
    obtain ⟨hlt, -⟩ := List.getElem?_eq_some_iff.mp hrecorded
    rw [hstamp]
    exact hlt
  case written =>
    intro c
    obtain ⟨k, hk, hwritten'⟩ := h.written c
    use k
    constructor
    · rw [haccepted, List.length_append]
      apply Nat.le_add_right_of_le hk
    · apply hwritten'.accept hk hpending hstamp haccepted hwritten hlost

/-- A message that has been written, or given up, is the only one that is not pending any more. -/
theorem pending_write {fd : ℕ} (h : Inv s point) (hp : point t = .writing fd m)
    (hbuffer : s'.sendBuffer = s.sendBuffer) (m' : Message) :
  Pending s' (Function.update point t .check) m' ↔ Pending s point m' ∧ m'.stamp ≠ m.stamp
  := by
  have hm : (point t).message = some m := by
    rw [hp]
    rfl
  constructor
  · rintro (⟨t', ht'⟩ | hbuffer')
    · rw [message_update] at ht'
      split_ifs at ht' with heq
      · cases ht'
      · use Or.inl ⟨t', ht'⟩
        exact fun hstamp => heq (h.distinct t' t m' m ht' hm hstamp)
    · rw [hbuffer] at hbuffer'
      use Or.inr hbuffer'
      apply Nat.ne_of_gt (h.before t m m' hm hbuffer')
  · rintro ⟨⟨t', ht'⟩ | hbuffer', hne⟩
    · left
      use t'
      rw [message_update, if_neg _]
      · exact ht'
      · rintro rfl
        obtain rfl := Option.some.inj (hm.symm.trans ht')
        apply hne rfl
    · right
      rw [hbuffer]
      exact hbuffer'

/-- For the other connections nothing changes, nor for one that has lost a message. -/
theorem Written.other {fd : ℕ} (hk : Written s point c k) (h : Inv s point)
    (hp : point t = .writing fd m) (hbuffer : s'.sendBuffer = s.sendBuffer)
    (haccepted : s'.accepted = s.accepted) (hwritten : s'.written c = s.written c)
    (hlost : c ∉ s'.lost → c ∉ s.lost ∧ m.conn ≠ c) :
  Written s' (Function.update point t .check) c k
  := by
  have hpending := pending_write h hp hbuffer
  constructor
  case bytes => rw [hwritten, haccepted, hk.bytes]
  case later =>
    intro hc m' hm' hconn
    apply hk.later (hlost hc).1 m' ((hpending m').mp hm').1 hconn
  case all =>
    intro hc j b hj hb hne
    obtain ⟨hc, hconn⟩ := hlost hc
    rw [haccepted] at hb
    obtain ⟨m', hm', rfl⟩ := hk.all hc j b hj hb hne
    refine ⟨m', (hpending m').mpr ⟨hm', ?_⟩, rfl⟩
    intro hstamp
    have hrecorded := (h.recorded m (Or.inl ⟨t, by rw [hp]; rfl⟩)).accepted
    rw [hstamp, hrecorded] at hb
    apply hconn (Prod.mk.inj (Option.some.inj hb)).1

/-- A message that is written in its turn. -/
theorem Written.next {fd : ℕ} (hk : Written s point c k) (h : Inv s point)
    (hp : point t = .writing fd m) (hbuffer : s'.sendBuffer = s.sendBuffer)
    (haccepted : s'.accepted = s.accepted) (hwritten : s'.written c = s.written c ++ m.bytes)
    (hconn : m.conn = c) (hc : c ∉ s.lost)
    (hturn : ∀ t' m', (point t').message = some m' → m'.conn = c → m.stamp ≤ m'.stamp) :
  Written s' (Function.update point t .check) c (m.stamp + 1)
  := by
  have hpending := pending_write h hp hbuffer
  have hm : (point t).message = some m := by
    rw [hp]
    rfl
  have hrecorded := (h.recorded m (Or.inl ⟨t, hm⟩)).accepted
  rw [hconn] at hrecorded
  have hfirst := hk.later hc m (Or.inl ⟨t, hm⟩) hconn
  constructor
  case bytes =>
    have hskip : bytesFor c (s.accepted.take m.stamp) = bytesFor c (s.accepted.take k) := by
      apply bytesFor_take_eq hfirst
      intro i b hki hi hb
      by_contra hne
      obtain ⟨m', hm', rfl⟩ := hk.all hc i b hki hb hne
      rcases hm' with ⟨t', ht'⟩ | hbuffer'
      · have hb' := (h.recorded m' (Or.inl ⟨t', ht'⟩)).accepted
        have hconn' : m'.conn = c := (Prod.mk.inj (Option.some.inj (hb'.symm.trans hb))).1
        have hle := hturn t' m' ht' hconn'
        omega
      · have hlt := h.before t m m' hm hbuffer'
        omega
    rw [hwritten, haccepted, hk.bytes, bytesFor_take_succ hrecorded, hskip]
  case later =>
    intro _ m' hm' hconn'
    obtain ⟨hm', hne⟩ := (hpending m').mp hm'
    rcases hm' with ⟨t', ht'⟩ | hbuffer'
    · have hle := hturn t' m' ht' hconn'
      omega
    · apply h.before t m m' hm hbuffer'
  case all =>
    intro _ j b hj hb hne
    rw [haccepted] at hb
    obtain ⟨m', hm', rfl⟩ := hk.all hc j b (by omega) hb hne
    exact ⟨m', (hpending m').mpr ⟨hm', Nat.ne_of_gt hj⟩, rfl⟩

/-- A message is written, or given up. -/
theorem Inv.write {fd taken : ℕ} (h : Inv s point) (hp : point t = .writing fd m)
    (hproper : taken = 0 ∨ (taken = m.bytes.length ∧ fd = m.conn ∧ m.conn ∉ s.lost ∧
      ∀ t' m', (point t').message = some m' → m'.conn = m.conn → m.stamp ≤ m'.stamp))
    (ho : s.write fd m taken = some o) :
  Inv o.shared (Function.update point t o.point)
  := by
  obtain ⟨-, ho⟩ := Option.ite_none_right_eq_some.mp ho
  obtain ⟨s', hs', hpoint⟩ : ∃ s', o.shared = s' ∧ o.point = .check :=
    ⟨o.shared, rfl, by rw [← Option.some.inj ho]⟩
  have hbuffer : s'.sendBuffer = s.sendBuffer := by rw [← hs', ← Option.some.inj ho]
  have haccepted : s'.accepted = s.accepted := by rw [← hs', ← Option.some.inj ho]
  have hbytes : s'.written =
      Function.update s.written fd (s.written fd ++ m.bytes.take taken) := by
    rw [← hs', ← Option.some.inj ho]
  have hlost' : s'.lost = if taken < m.bytes.length then insert m.conn s.lost else s.lost := by
    rw [← hs', ← Option.some.inj ho]
  rw [hs', hpoint]
  have hm : (point t).message = some m := by
    rw [hp]
    rfl
  have hrecorded := h.recorded m (Or.inl ⟨t, hm⟩)
  have hpos := List.length_pos_of_ne_nil hrecorded.nonempty
  obtain ⟨hlt, -⟩ := List.getElem?_eq_some_iff.mp hrecorded.accepted
  have hmessage : ∀ t' m', (Function.update point t .check t').message = some m' →
      (point t').message = some m' := by
    intro t' m' hm'
    rw [message_update] at hm'
    split_ifs at hm'
    · cases hm'
    · exact hm'
  constructor
  case recorded =>
    intro m' hm'
    exact (h.recorded m' ((pending_write h hp hbuffer m').mp hm').1).congr haccepted
  case distinct =>
    exact fun t₁ t₂ m₁ m₂ h₁ h₂ => h.distinct t₁ t₂ m₁ m₂ (hmessage _ _ h₁) (hmessage _ _ h₂)
  case last =>
    rw [hbuffer, haccepted]
    apply h.last
  case before =>
    rw [hbuffer]
    exact fun t' m₁ m₂ h₁ => h.before t' m₁ m₂ (hmessage _ _ h₁)
  case written =>
    intro c
    obtain ⟨k, hk, hwritten⟩ := h.written c
    rw [haccepted]
    rcases hproper with rfl | ⟨rfl, rfl, hlost, hturn⟩
    · use k, hk
      apply hwritten.other h hp hbuffer haccepted
      · rw [hbytes, List.take_zero, List.append_nil, Function.update_eq_self]
      · rw [hlost', if_pos hpos, Finset.mem_insert, not_or]
        exact fun hc => ⟨hc.2, Ne.symm hc.1⟩
    rcases eq_or_ne c m.conn with rfl | hne
    · use m.stamp + 1, hlt
      apply hwritten.next h hp hbuffer haccepted _ rfl hlost hturn
      rw [hbytes, Function.update_self, List.take_length]
    · use k, hk
      apply hwritten.other h hp hbuffer haccepted
      · rw [hbytes, Function.update_of_ne hne]
      · rw [hlost', if_neg (lt_irrefl _)]
        exact fun hc => ⟨hc, Ne.symm hne⟩

/-! ### Runs -/

omit [DecidableEq U] in
theorem inv_start (iSendBufferSize : ℕ) :
  Inv (start U iSendBufferSize).shared (start U iSendBufferSize).point
  := by
  have hmessage : ∀ t, ((start U iSendBufferSize).point t).message = none := by
    intro t
    cases t <;> rfl
  have hpending : ∀ m, ¬ Pending (start U iSendBufferSize).shared
      (start U iSendBufferSize).point m := by
    rintro m (⟨t, ht⟩ | hbuffer)
    · rw [hmessage t] at ht
      cases ht
    · cases hbuffer
  constructor
  case recorded => exact fun m hm => absurd hm (hpending m)
  case distinct => exact fun t _ m _ hm => absurd (Or.inl ⟨t, hm⟩) (hpending m)
  case last => exact fun m hm => absurd (Or.inr hm) (hpending m)
  case before => exact fun t m _ hm => absurd (Or.inl ⟨t, hm⟩) (hpending m)
  case written =>
    intro c
    use 0, le_rfl
    constructor
    case bytes => rfl
    case later => exact fun _ m hm => absurd hm (hpending m)
    case all => exact fun _ j b _ hb => absurd hb (by simp [start, Monitor.start])

variable {x x' : State U} {a : Move U}

theorem Inv.step (h : Inv x.shared x.point) (hproper : Proper x a)
    (hs' : (monitor.threads (Thread U)).step x a = some x') :
  Inv x'.shared x'.point
  := by
  rcases Monitor.step_cases hs' with
    ⟨_, t, -, rfl⟩ | ⟨t, i, pick, o, waiting, rfl, -, ho, -, rfl⟩
  · exact h
  change Inv o.shared (Function.update x.point t o.point)
  cases enter_step ho with
  | quiet hpoint hbuffer haccepted hwritten hlost =>
      apply h.congr _ hbuffer haccepted hwritten hlost
      intro t'
      rw [message_update]
      split_ifs with heq
      · rw [heq, hpoint]
      · rfl
  | take m hp hbuffer ho =>
      rw [ho]
      apply h.take hp hbuffer
  | write fd m hp ho => apply h.write hp (hproper t i pick fd m rfl hp) ho
  | accept pData hp hbuffer ho =>
      have hpoint : o.point = .idle := by rw [ho, Server.sendMessage, hbuffer]
      rw [hpoint, ho]
      apply h.accept (by rw [hp]; rfl) hbuffer

omit [DecidableEq U] in
theorem Inv.delivers (h : Inv x.shared x.point) :
  Delivers x
  := by
  intro c
  obtain ⟨k, -, hwritten⟩ := h.written c
  use ((x.shared.accepted.take k).filter (fun y => y.1 = c)).map Prod.snd
  constructor
  · exact ((List.take_prefix k _).filter _).map _
  · apply hwritten.bytes

/-- In every state of a run in which messages are written as described, what has been written to
each connection are the first of the messages that `SendMessage` has accepted during it. -/
theorem written_as_accepted {iSendBufferSize : ℕ} {moves : List (Move U)}
    (hproper : (monitor.threads (Thread U)).Along Proper (start U iSendBufferSize) moves) :
  (monitor.threads (Thread U)).Throughout Delivers (start U iSendBufferSize) moves
  := Machine.throughout_of_invariant (fun x => Inv x.shared x.point) (fun _ h => h.delivers)
    (fun _ _ h hproper _ hs' => h.step hproper hs') (inv_start iSendBufferSize) hproper

end

/-- A thread moves. -/
def go (t : Thread Unit) (i : Input) : Move Unit := .enter t i (fun _ => none)

/-- A client is accepted. -/
def accepts : List (Move Unit) := [go .server {}, go .server {}, go .server {}]

/-- `SendMessage` -/
def sends (pData : List UInt8) : List (Move Unit) :=
  [go (.caller ()) { pData := pData }, go (.caller ()) {}]

/-- A `SendThread` that begins, takes a message and writes some bytes of it. -/
def writes (k taken : ℕ) : List (Move Unit) :=
  [go (.sender k) {}, go (.sender k) {}, go (.sender k) {}, go (.sender k) {},
    go (.sender k) { taken := taken }]

/-- Only `write` can go wrong. -/
theorem proper_of_ne {x : State U} {t : Thread U} {i : Input} {pick : Unit → Option (Thread U)}
    (h : ∀ fd m, x.point t ≠ .writing fd m) :
  Proper x (.enter t i pick)
  := by
  rintro _ _ _ fd m ⟨⟩ hpoint
  exact absurd hpoint (h fd m)

/-- A message is written while the next one is accepted. -/
theorem written_as_accepted_two :
  (monitor.threads (Thread Unit)).Throughout Delivers (start Unit 1024)
    (accepts ++ sends [65, 66] ++ writes 0 2 ++ sends [67])
  := by
  apply written_as_accepted
  simp only [accepts, sends, writes, List.cons_append, List.nil_append]
  iterate 9
    use proper_of_ne (by intro fd m; nofun)
    rintro _ ⟨⟩
  constructor
  · rintro _ _ _ _ _ ⟨⟩ ⟨⟩
    right
    use rfl, rfl, Finset.notMem_empty _
    rintro (_ | (_ | k) | u) m ⟨⟩ _
    exact le_rfl
  · rintro _ ⟨⟩
    iterate 2
      use proper_of_ne (by intro fd m; nofun)
      rintro _ ⟨⟩
    trivial

/-- The second client gets the message for the first one, when the first one has disconnected
before its `SendThread` has begun; and of a message of two bytes one is written. -/
theorem written_as_accepted_fails :
  (∃ x, (monitor.threads (Thread Unit)).final (start Unit 1024)
      (accepts ++ sends [65] ++ [go .server { ending := .disconnected }, go (.sender 0) {},
        go (.sender 0) {}] ++ accepts ++ writes 1 1) = some x ∧
      x.shared.written 2 = [65] ∧ x.shared.acceptedDuring 2 = [] ∧ ¬ Delivers x) ∧
    ∃ x, (monitor.threads (Thread Unit)).final (start Unit 1024)
      (accepts ++ sends [65, 66] ++ writes 0 1) = some x ∧
      x.shared.written 1 = [65] ∧ x.shared.acceptedDuring 1 = [[65, 66]] ∧ ¬ Delivers x
  := by
  constructor
  · obtain ⟨x, hx, hwritten, haccepted⟩ : ∃ x, (monitor.threads (Thread Unit)).final
        (start Unit 1024) (accepts ++ sends [65] ++ [go .server { ending := .disconnected },
          go (.sender 0) {}, go (.sender 0) {}] ++ accepts ++ writes 1 1) = some x ∧
        (x.shared.written 2 = [65] ∧ x.shared.acceptedDuring 2 = []) :=
      Machine.exists_final (by decide) (by decide)
    use x, hx, hwritten, haccepted
    intro hdelivers
    obtain ⟨messages, hprefix, hbytes⟩ := hdelivers 2
    rw [haccepted] at hprefix
    rw [hwritten, List.prefix_nil.mp hprefix] at hbytes
    cases hbytes
  · obtain ⟨x, hx, hwritten, haccepted⟩ : ∃ x, (monitor.threads (Thread Unit)).final
        (start Unit 1024) (accepts ++ sends [65, 66] ++ writes 0 1) = some x ∧
        (x.shared.written 1 = [65] ∧ x.shared.acceptedDuring 1 = [[65, 66]]) :=
      Machine.exists_final (by decide) (by decide)
    use x, hx, hwritten, haccepted
    intro hdelivers
    obtain ⟨messages, hprefix, hbytes⟩ := hdelivers 1
    rw [haccepted] at hprefix
    rw [hwritten] at hbytes
    rcases List.prefix_cons_iff.mp hprefix with rfl | ⟨rest, rfl, hrest⟩
    · cases hbytes
    · cases hbytes

end NetServer
