import Orgrim.EpollServer.Handling

/-!
# Connections left behind

`et` accepts one connection for a notification of the listening socket, and calls `close` again
after it has closed a connection that the peer ended in order.  So whenever no notification is
left, everybody has been served exactly if all notifications of the listening socket were for one
connection, and no peer ended its connection in order (`served_iff`).
-/

namespace EpollServer

variable {C : Type*} [DecidableEq C]

namespace Server

/-- All notifications have been delivered. -/
def Quiet (s : Server C) : Prop := s.listenReady = false ∧ s.ready = ∅

/-- No connection waits, no registered one has unread bytes, and no descriptor has been closed
twice. -/
structure Served (s : Server C) : Prop where
  accepted : s.backlog = []
  read : ∀ c, s.status c = .registered → s.unread c = 0
  closed : ∀ c, s.closes c ≤ 1

end Server

/-- A notification of the listening socket is for one connection, and one of a connection does not
say that the peer has ended it in order. -/
def Event.Proper (s : Server C) : Event C → Prop
  | .listenfd => s.backlog.length = 1
  | .connfd c => s.ended c ≠ some .shutdown

instance (s : Server C) (e : Event C) : Decidable (e.Proper s) :=
  match e with
  | .listenfd => inferInstanceAs (Decidable (_ = _))
  | .connfd _ => inferInstanceAs (Decidable (_ ≠ _))

/-- `et` handles such notifications only. -/
def Proper (s : Server C) : Action C → Prop
  | .et events => ∀ e ∈ events, e.Proper s
  | _ => True

instance (s : Server C) (a : Action C) : Decidable (Proper s a) :=
  match a with
  | .et _ => inferInstanceAs (Decidable (∀ _ ∈ _, _))
  | .connect _ => .isTrue trivial
  | .data _ _ => .isTrue trivial
  | .peerClose _ _ => .isTrue trivial

/-- A connection has been forgotten, or a descriptor has been closed twice. -/
def Damage (s : Server C) : Prop :=
  (∃ c, 2 ≤ s.closes c) ∨
    ((s.listenReady = false → s.backlog ≠ []) ∧ (s.listenReady = true → 2 ≤ s.backlog.length))

/-- There is a notification for every connection that waits, and no descriptor has been closed
twice. -/
def Kept (s : Server C) : Prop :=
  (s.listenReady = false → s.backlog = []) ∧ ∀ c, s.closes c ≤ 1

variable {s s' : Server C} {a : Action C} {events : List (Event C)}

/-! ### One action -/

/-- The notification of the listening socket is gone when it has been delivered. -/
theorem deliver_listen (hlisten : .listenfd ∈ events) :
  (s.deliver events).listenReady = false
  := by
  rw [Server.deliver, decide_eq_false (not_not.mpr hlisten), Bool.and_false]

theorem deliver_others (hlisten : .listenfd ∉ events) :
  (s.deliver events).listenReady = s.listenReady
  := by
  rw [Server.deliver, decide_eq_true hlisten, Bool.and_true]

/-- What an action is: `et`, or one of a client, which may put a connection into the queue. -/
theorem step_cases (hs' : (machine C).step s a = some s') :
  (∃ events, a = .et events ∧ s.wait events = some s') ∨
    (s'.closes = s.closes ∧
      ((s'.backlog = s.backlog ∧ s'.listenReady = s.listenReady) ∨
        ∃ c, s'.backlog = s.backlog ++ [c] ∧ s'.listenReady = true))
  := by
  cases a with
  | et events => exact Or.inl ⟨events, rfl, hs'⟩
  | connect c =>
      obtain ⟨-, hs'⟩ := Option.ite_none_right_eq_some.mp hs'
      obtain rfl := Option.some.inj hs'
      exact Or.inr ⟨rfl, Or.inr ⟨c, rfl, rfl⟩⟩
  | data c n =>
      obtain ⟨-, hs'⟩ := Option.ite_none_right_eq_some.mp hs'
      obtain rfl := Option.some.inj hs'
      exact Or.inr ⟨rfl, Or.inl ⟨rfl, rfl⟩⟩
  | peerClose c how =>
      obtain ⟨-, hs'⟩ := Option.ite_none_right_eq_some.mp hs'
      obtain rfl := Option.some.inj hs'
      exact Or.inr ⟨rfl, Or.inl ⟨rfl, rfl⟩⟩

/-- Proper handling leaves nobody behind. -/
theorem Kept.wait (hkept : Kept s) (h : Inv s []) (hs' : s.wait events = some s')
    (hproper : Proper s (.et events)) :
  Kept s'
  := by
  obtain ⟨hpending, -, hall⟩ := h.wait hs'
  constructor
  · intro hready
    rw [hall.backlog]
    split_ifs with hmem
    · apply List.length_eq_zero_iff.mp
      change s.backlog.tail.length = 0
      rw [List.length_tail, show s.backlog.length = 1 from hproper _ hmem]
    · rw [hall.listenReady, deliver_others hmem] at hready
      exact hkept.1 hready
  · intro c
    rw [hall.closes]
    split_ifs with hmem
    · have hregistered := h.ready c (hpending _ hmem)
      have hzero : s.closes c = 0 := h.unclosed c (by rw [hregistered]; nofun)
      have hcalls : closeCalls (s.ended c) ≤ 1 := by
        have hnot : s.ended c ≠ some .shutdown := hproper _ hmem
        cases hhow : s.ended c with
        | none => apply Nat.zero_le 1
        | some how =>
            cases how with
            | reset => exact le_rfl
            | shutdown => exact absurd hhow hnot
      change s.closes c + closeCalls (s.ended c) ≤ 1
      omega
    · exact hkept.2 c

theorem Kept.step (hkept : Kept s) (h : Inv s []) (hproper : Proper s a)
    (hs' : (machine C).step s a = some s') :
  Kept s'
  := by
  rcases step_cases hs' with
    ⟨events, rfl, hs'⟩ | ⟨hcloses, ⟨hbacklog, hready⟩ | ⟨c, -, hready⟩⟩
  · apply hkept.wait h hs' hproper
  · rw [Kept, hcloses, hbacklog, hready]
    exact hkept
  · rw [Kept, hcloses, hready]
    exact ⟨nofun, hkept.2⟩

/-- Of several connections one is accepted, and a connection that was ended in order is closed
twice. -/
theorem damage_of_not_proper (h : Inv s []) (hproper : ¬ Proper s a)
    (hs' : (machine C).step s a = some s') :
  Damage s'
  := by
  cases a with
  | connect c => exact absurd trivial hproper
  | data c n => exact absurd trivial hproper
  | peerClose c how => exact absurd trivial hproper
  | et events =>
      obtain ⟨hpending, -, hall⟩ := h.wait hs'
      obtain ⟨e, he⟩ := not_forall.mp hproper
      obtain ⟨hmem, hnot⟩ := Classical.not_imp.mp he
      cases e with
      | listenfd =>
          right
          have hlength : s.backlog.length ≠ 1 := hnot
          have hpos := List.length_pos_of_ne_nil (h.listen (hpending _ hmem))
          rw [hall.backlog, if_pos hmem, hall.listenReady, deliver_listen hmem]
          apply And.intro _ nofun
          intro _
          apply List.ne_nil_of_length_pos
          change 0 < s.backlog.tail.length
          rw [List.length_tail]
          omega
      | connfd c =>
          left
          use c
          have hcalls : closeCalls (s.ended c) = 2 := by
            rw [show s.ended c = some .shutdown from not_not.mp hnot]
            rfl
          rw [hall.closes, if_pos hmem]
          change 2 ≤ s.closes c + closeCalls (s.ended c)
          omega

/-- No action mends it. -/
theorem Damage.step (hdamage : Damage s) (h : Inv s []) (hs' : (machine C).step s a = some s') :
  Damage s'
  := by
  rcases step_cases hs' with
    ⟨events, rfl, hs'⟩ | ⟨hcloses, ⟨hbacklog, hready⟩ | ⟨c, hbacklog, hready⟩⟩
  · obtain ⟨hpending, -, hall⟩ := h.wait hs'
    rcases hdamage with ⟨c, hcloses⟩ | ⟨hleft, hready⟩
    · left
      use c
      rw [hall.closes]
      apply hcloses.trans (Nat.le_add_right _ _)
    · right
      rw [hall.backlog, hall.listenReady]
      split_ifs with hmem
      · have htwo := hready (hpending _ hmem)
        rw [deliver_listen hmem]
        apply And.intro _ nofun
        intro _
        apply List.ne_nil_of_length_pos
        change 0 < s.backlog.tail.length
        rw [List.length_tail]
        omega
      · rw [deliver_others hmem]
        exact ⟨hleft, hready⟩
  · rw [Damage, hcloses, hbacklog, hready]
    exact hdamage
  · rw [Damage, hcloses, hbacklog, hready, List.length_append, List.length_singleton]
    rcases hdamage with hcloses | ⟨hleft, hready⟩
    · exact Or.inl hcloses
    · right
      use nofun
      intro _
      cases hlisten : s.listenReady with
      | false =>
          have hpos := List.length_pos_of_ne_nil (hleft hlisten)
          omega
      | true =>
          have htwo := hready hlisten
          omega

/-! ### Runs -/

/-- Whenever all notifications have been delivered, everybody has been served exactly if every
notification of the listening socket was for one connection, and no peer had ended its connection
in order. -/
theorem served_iff {moves : List (Action C)}
    (hfinal : (machine C).final Server.start moves = some s) (hquiet : s.Quiet) :
  s.Served ↔ (machine C).Along Proper Server.start moves
  := by
  have hfate := Machine.final_good_or_bad (Q := Proper) (fun s => Inv s [] ∧ Kept s)
    (fun s => Inv s [] ∧ Damage s)
    (fun _ _ hs hproper _ hs' => ⟨hs.1.step hs', hs.2.step hs.1 hproper hs'⟩)
    (fun _ _ hs hproper _ hs' => ⟨hs.1.step hs', damage_of_not_proper hs.1 hproper hs'⟩)
    (fun _ _ hs _ hs' => ⟨hs.1.step hs', hs.2.step hs.1 hs'⟩)
    ⟨inv_start, fun _ => rfl, fun _ => Nat.zero_le 1⟩ hfinal
  rcases hfate with ⟨halong, hinv, hkept⟩ | ⟨halong, -, hdamage⟩
  · apply iff_of_true _ halong
    constructor
    case accepted => exact hkept.1 hquiet.1
    case closed => exact hkept.2
    case read =>
      intro c hregistered
      have hnot : ¬ s.Readable c := by
        apply hinv.drained c hregistered _ List.not_mem_nil
        rw [hquiet.2]
        apply Finset.notMem_empty c
      apply Nat.eq_zero_of_not_pos (fun hpos => hnot (Or.inl hpos))
  · apply iff_of_false _ halong
    intro hserved
    rcases hdamage with ⟨c, hcloses⟩ | ⟨hleft, -⟩
    · exact absurd (hserved.closed c) (by omega)
    · apply hleft hquiet.1 hserved.accepted

/-- A client that sends something is served, and then ends its connection by a reset. -/
theorem served_iff_one :
  ∃ s, (machine ℕ).final Server.start [.connect 0, .data 0 25, .et [.listenfd], .et [.connfd 0],
      .peerClose 0 .reset, .et [.connfd 0]] = some s ∧ s.Quiet ∧ s.Served
  := by
  obtain ⟨s, hs, hquiet⟩ : ∃ s, (machine ℕ).final Server.start [.connect 0, .data 0 25,
      .et [.listenfd], .et [.connfd 0], .peerClose 0 .reset, .et [.connfd 0]] = some s ∧
      (s.listenReady = false ∧ s.ready = ∅) :=
    Machine.exists_final (by decide) (by decide)
  use s, hs, hquiet
  apply (served_iff hs hquiet).mpr
  decide

/-- One of two clients that connect at once waits for ever, and the descriptor of a client that
ends its connection in order is closed twice. -/
theorem served_fails :
  (∃ s, (machine ℕ).final Server.start [.connect 0, .connect 1, .et [.listenfd]] = some s ∧
      s.Quiet ∧ s.backlog = [1] ∧ ¬ s.Served) ∧
    ∃ s, (machine ℕ).final Server.start [.connect 0, .et [.listenfd], .peerClose 0 .shutdown,
      .et [.connfd 0]] = some s ∧ s.Quiet ∧ s.closes 0 = 2 ∧ ¬ s.Served
  := by
  constructor
  · obtain ⟨s, hs, hready, hset, hbacklog⟩ : ∃ s, (machine ℕ).final Server.start [.connect 0,
        .connect 1, .et [.listenfd]] = some s ∧
        (s.listenReady = false ∧ s.ready = ∅ ∧ s.backlog = [1]) :=
      Machine.exists_final (by decide) (by decide)
    use s, hs, ⟨hready, hset⟩, hbacklog
    intro hserved
    rw [hserved.accepted] at hbacklog
    cases hbacklog
  · obtain ⟨s, hs, hready, hset, hcloses⟩ : ∃ s, (machine ℕ).final Server.start [.connect 0,
        .et [.listenfd], .peerClose 0 .shutdown, .et [.connfd 0]] = some s ∧
        (s.listenReady = false ∧ s.ready = ∅ ∧ s.closes 0 = 2) :=
      Machine.exists_final (by decide) (by decide)
    use s, hs, ⟨hready, hset⟩, hcloses
    intro hserved
    have hle := hserved.closed 0
    omega

end EpollServer
