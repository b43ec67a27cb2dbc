import Orgrim.EpollServer.Et

/-!
# Handling notifications

Each connection that is delivered is read until nothing is left, and closed if its peer has ended
it.  So a registered connection has something to be read only if there is a notification for it
(`Inv`), at each step of `et` and after it (`Inv.wait`).
-/

namespace EpollServer

variable {C : Type*} [DecidableEq C]

/-- How often `close` is called for a connection when `et` handles it. -/
def closeCalls : Option End → ℕ
  | none => 0
  | some .reset => 1
  | some .shutdown => 2

/-- What holds of the server while `et` has the notifications `todo` before it. -/
structure Inv (s : Server C) (todo : List (Event C)) : Prop where
  queue : ∀ c, c ∈ s.backlog ↔ s.status c = .queued
  nodup : s.backlog.Nodup
  ready : ∀ c ∈ s.ready, s.status c = .registered
  drained : ∀ c, s.status c = .registered → c ∉ s.ready → .connfd c ∉ todo → ¬ s.Readable c
  unclosed : ∀ c, s.status c ≠ .closed → s.closes c = 0
  listen : s.listenReady = true → s.backlog ≠ []
  registered : ∀ c, .connfd c ∈ todo → s.status c = .registered
  delivered : .listenfd ∈ todo → s.listenReady = false

variable {s s' : Server C} {c : C} {e : Event C} {events todo : List (Event C)}

/-- A notification is done with, when nothing is left to be read. -/
theorem Inv.tail (h : Inv s (e :: todo)) (hdone : ∀ c, e = .connfd c → ¬ s.Readable c) :
  Inv s todo
  := by
  constructor
  case queue => apply h.queue
  case nodup => apply h.nodup
  case ready => apply h.ready
  case unclosed => apply h.unclosed
  case listen => apply h.listen
  case registered => exact fun c hmem => h.registered c (List.mem_cons_of_mem _ hmem)
  case delivered => exact fun hmem => h.delivered (List.mem_cons_of_mem _ hmem)
  case drained =>
    intro c hregistered hready hmem
    by_cases heq : e = .connfd c
    · apply hdone c heq
    · apply h.drained c hregistered hready
      intro hmem'
      rcases List.mem_cons.mp hmem' with rfl | hmem'
      · apply heq rfl
      · apply hmem hmem'

/-! ### Reading -/

/-- A connection from which everything has been read. -/
def drain (s : Server C) (c : C) : Server C :=
  { s with unread := Function.update s.unread c 0 }

/-- What the loop of `recv` comes to. -/
def finish (s : Server C) (c : C) : Server C :=
  match s.ended c with
  | none => drain s c
  | some .reset => (drain s c).close c
  | some .shutdown => ((drain s c).close c).close c

/-- The loop of `recv` ends, when everything has been read. -/
theorem recvLoop_eq {fuel : ℕ} (hstatus : s.status c = .registered)
    (hfuel : s.unread c + 2 ≤ fuel) :
  Server.recvLoop c fuel s = some (finish s c)
  := by
  induction fuel generalizing s with
  | zero => omega
  | succ fuel ih =>
      rw [Server.recvLoop, if_neg (not_not.mpr hstatus)]
      rcases Nat.eq_zero_or_pos (s.unread c) with hzero | hpos
      · have hsame : drain s c = s := by
          rw [drain, ← hzero, Function.update_eq_self]
        rw [if_neg (by omega), finish, hsame]
        cases s.ended c with
        | none => rfl
        | some how =>
            cases how with
            | reset => rfl
            | shutdown =>
                obtain ⟨fuel, rfl⟩ : ∃ k, fuel = k + 1 := ⟨fuel - 1, by omega⟩
                have hclosed : (s.close c).status c ≠ .registered := by
                  simp [Server.close]
                exact if_pos hclosed
      · rw [if_pos hpos]
        obtain ⟨s₁, hs₁⟩ : ∃ s₁ : Server C, s₁ =
          { s with unread := Function.update s.unread c (s.unread c - (bufferSize - 1)) } :=
            ⟨_, rfl⟩
        have hless : s₁.unread c + 2 ≤ fuel := by
          rw [hs₁]
          simp only [Function.update_self, bufferSize]
          omega
        have hstatus₁ : s₁.status c = .registered := by rw [hs₁]; exact hstatus
        have hsame : finish s₁ c = finish s c := by
          rw [hs₁]
          simp only [finish, drain, Function.update_idem]
        rw [← hs₁, ih hstatus₁ hless, hsame]

/-! ### Handling a notification -/

/-- What handling a notification does to the sockets. -/
structure Handles (s s' : Server C) (e : Event C) : Prop where
  listenReady : s'.listenReady = s.listenReady
  ended : s'.ended = s.ended
  backlog : s'.backlog = if e = .listenfd then s.backlog.tail else s.backlog
  closes : ∀ c, s'.closes c = s.closes c + if e = .connfd c then closeCalls (s.ended c) else 0

/-- A connection is read. -/
theorem Inv.drain (h : Inv s todo) :
  Inv (drain s c) todo
  := by
  constructor
  case queue => apply h.queue
  case nodup => apply h.nodup
  case ready => apply h.ready
  case unclosed => apply h.unclosed
  case listen => apply h.listen
  case registered => apply h.registered
  case delivered => apply h.delivered
  case drained =>
    intro c' hstatus hready htodo
    have hnot := h.drained c' hstatus hready htodo
    rintro (hunread | hended)
    · apply hnot
      left
      change 0 < Function.update s.unread c 0 c' at hunread
      rcases eq_or_ne c' c with rfl | hne
      · rw [Function.update_self] at hunread
        omega
      · rw [Function.update_of_ne hne] at hunread
        exact hunread
    · apply hnot (Or.inr hended)

/-- A connection that has been accepted is closed. -/
theorem Inv.close (h : Inv s todo) (hqueued : s.status c ≠ .queued) {todo' : List (Event C)}
    (htodo : ∀ e, e ≠ .connfd c → (e ∈ todo' ↔ e ∈ todo)) (hc : .connfd c ∉ todo') :
  Inv (s.close c) todo'
  := by
  have hstatus : ∀ c' ≠ c, (s.close c).status c' = s.status c' :=
    fun c' hne => Function.update_of_ne hne ..
  have hself : (s.close c).status c = .closed := Function.update_self ..
  have hother : ∀ c' ≠ c, (Event.connfd c' ∈ todo' ↔ .connfd c' ∈ todo) :=
    fun c' hne => htodo _ (fun heq => hne (Event.connfd.inj heq))
  constructor
  case queue =>
    intro c'
    rw [← show s.backlog = (s.close c).backlog from rfl, h.queue c']
    rcases eq_or_ne c' c with rfl | hc'
    · rw [hself]
      apply iff_of_false hqueued nofun
    · rw [hstatus c' hc']
  case nodup => apply h.nodup
  case ready =>
    intro c' hc'
    obtain ⟨hc', hready⟩ := Finset.mem_erase.mp hc'
    rw [hstatus c' hc']
    apply h.ready c' hready
  case drained =>
    intro c' hregistered hready hmem
    have hc' : c' ≠ c := by
      rintro rfl
      rw [hself] at hregistered
      cases hregistered
    rw [hstatus c' hc'] at hregistered
    apply h.drained c' hregistered
    · exact fun hmem => hready (Finset.mem_erase.mpr ⟨hc', hmem⟩)
    · exact fun htodo => hmem ((hother c' hc').mpr htodo)
  case unclosed =>
    intro c' hclosed
    have hc' : c' ≠ c := by
      rintro rfl
      apply hclosed hself
    rw [hstatus c' hc'] at hclosed
    exact (Function.update_of_ne hc' ..).trans (h.unclosed c' hclosed)
  case listen => apply h.listen
  case registered =>
    intro c' hmem
    have hc' : c' ≠ c := by
      rintro rfl
      apply hc hmem
    rw [hstatus c' hc']
    apply h.registered c' ((hother c' hc').mp hmem)
  case delivered => exact fun hmem => h.delivered ((htodo .listenfd (by rintro ⟨⟩)).mp hmem)

theorem finish_closes (s : Server C) (c c' : C) :
  (finish s c).closes c' =
    s.closes c' + if Event.connfd c = .connfd c' then closeCalls (s.ended c') else 0
  := by
  rcases eq_or_ne c' c with rfl | hne
  · rw [if_pos rfl, finish]
    cases s.ended c' with
    | none => rfl
    | some how =>
        cases how with
        | reset => simp [Server.close, drain, closeCalls]
        | shutdown => simp [Server.close, drain, closeCalls]
  · rw [if_neg (fun heq => hne (Event.connfd.inj heq).symm), finish]
    cases s.ended c with
    | none => rfl
    | some how =>
        cases how with
        | reset => simp [Server.close, drain, hne]
        | shutdown => simp [Server.close, drain, hne]

theorem finish_handles (s : Server C) (c : C) :
  Handles s (finish s c) (.connfd c)
  := by
  constructor
  case closes => apply finish_closes s c
  all_goals
    rw [finish]
    cases s.ended c with
    | none => rfl
    | some how => cases how <;> rfl

/-- A connection that has been delivered is read, and closed if the peer has ended it. -/
theorem Inv.finish (h : Inv s (.connfd c :: todo)) (hc : .connfd c ∉ todo) :
  Inv (finish s c) todo
  := by
  have hstatus : s.status c = .registered := h.registered c List.mem_cons_self
  have hqueued : s.status c ≠ .queued := by
    rw [hstatus]
    nofun
  have htodo : ∀ e, e ≠ .connfd c → (e ∈ todo ↔ e ∈ .connfd c :: todo) :=
    fun e hne => (List.mem_cons.trans (or_iff_right hne)).symm
  have hdrain := h.drain (c := c)
  rw [EpollServer.finish]
  cases hended : s.ended c with
  | none =>
      apply hdrain.tail
      rintro _ ⟨⟩ (hunread | hend)
      · exact absurd hunread (by simp [EpollServer.drain])
      · apply hend hended
  | some how =>
      have hclose := hdrain.close hqueued htodo hc
      cases how with
      | reset => exact hclose
      | shutdown =>
          apply hclose.close _ (fun _ _ => Iff.rfl) hc
          simp [Server.close]

/-! ### Accepting -/

/-- What is there before the connection is registered is notified. -/
theorem addfd_ready (s : Server C) (c : C) :
  (s.addfd c).ready = if s.Readable c then insert c s.ready else s.ready
  := by
  by_cases hreadable : s.Readable c
  · have hself : Function.update s.status c Status.registered c = .registered :=
      Function.update_self ..
    rw [if_pos hreadable, Server.addfd, if_pos hreadable]
    exact if_pos hself
  · rw [if_neg hreadable, Server.addfd, if_neg hreadable]

theorem addfd_rest (s : Server C) (c : C) :
  (s.addfd c).backlog = s.backlog ∧ (s.addfd c).listenReady = s.listenReady ∧
    (s.addfd c).unread = s.unread ∧ (s.addfd c).ended = s.ended ∧
    (s.addfd c).closes = s.closes ∧ (s.addfd c).status = Function.update s.status c .registered
  := by
  rw [Server.addfd]
  split_ifs <;> exact ⟨rfl, rfl, rfl, rfl, rfl, rfl⟩

theorem status_addfd_self (s : Server C) (c : C) :
  (s.addfd c).status c = .registered
  := by
  rw [(addfd_rest s c).2.2.2.2.2, Function.update_self]

theorem status_addfd_of_ne (s : Server C) {c c' : C} (hne : c' ≠ c) :
  (s.addfd c).status c' = s.status c'
  := by
  rw [(addfd_rest s c).2.2.2.2.2, Function.update_of_ne hne]

theorem readable_addfd (s : Server C) (c c' : C) :
  (s.addfd c).Readable c' ↔ s.Readable c'
  := by
  obtain ⟨-, -, hunread, hended, -⟩ := addfd_rest s c
  rw [Server.Readable, hunread, hended]
  rfl

/-- A connection that is registered has nothing to be read, or is notified. -/
theorem drained_addfd (c : C) {P : C → Prop}
    (h : ∀ c', s.status c' = .registered → c' ∉ s.ready → P c' → ¬ s.Readable c') (c' : C)
    (hregistered : (s.addfd c).status c' = .registered) (hready : c' ∉ (s.addfd c).ready)
    (hP : P c') :
  ¬ (s.addfd c).Readable c'
  := by
  rw [readable_addfd]
  rw [addfd_ready] at hready
  rcases eq_or_ne c' c with rfl | hne
  · intro hmust
    rw [if_pos hmust] at hready
    apply hready (Finset.mem_insert_self _ _)
  · rw [status_addfd_of_ne s hne] at hregistered
    apply h c' hregistered _ hP
    intro hmem
    apply hready
    split_ifs
    · apply Finset.mem_insert_of_mem hmem
    · exact hmem

/-- The first connection that waits is accepted. -/
theorem Inv.addfd {rest : List C} (h : Inv s (.listenfd :: todo)) (hbacklog : s.backlog = c :: rest)
    (hlisten : .listenfd ∉ todo) :
  Inv (Server.addfd { s with backlog := rest } c) todo
  := by
  obtain ⟨s₀, hs₀⟩ : ∃ s₀ : Server C, s₀ = { s with backlog := rest } := ⟨_, rfl⟩
  have hsame : s₀.status = s.status := by rw [hs₀]
  obtain ⟨hrest, hlistenReady, -, -, hcloses, -⟩ := addfd_rest s₀ c
  have hqueued : s.status c = .queued := by
    apply (h.queue c).mp
    rw [hbacklog]
    apply List.mem_cons_self
  have hnodup := h.nodup
  rw [hbacklog] at hnodup
  obtain ⟨hnot, hnodup⟩ := List.nodup_cons.mp hnodup
  rw [← hs₀]
  constructor
  case queue =>
    intro c'
    rw [hrest, hs₀]
    rcases eq_or_ne c' c with rfl | hne
    · rw [status_addfd_self]
      apply iff_of_false hnot nofun
    · rw [status_addfd_of_ne _ hne]
      change c' ∈ rest ↔ s.status c' = .queued
      rw [← h.queue c', hbacklog, List.mem_cons, or_iff_right hne]
  case nodup =>
    rw [hrest, hs₀]
    exact hnodup
  case ready =>
    intro c' hmem
    rcases eq_or_ne c' c with rfl | hne
    · apply status_addfd_self s₀ c'
    · rw [status_addfd_of_ne s₀ hne, hsame]
      apply h.ready c'
      rw [addfd_ready, hs₀] at hmem
      split_ifs at hmem
      · exact (Finset.mem_insert.mp hmem).resolve_left hne
      · exact hmem
  case drained =>
    apply drained_addfd c
    intro c' hregistered hready hmem
    rw [hs₀] at hregistered hready ⊢
    apply h.drained c' hregistered hready
    intro hmem'
    rcases List.mem_cons.mp hmem' with heq | hmem'
    · cases heq
    · apply hmem hmem'
  case unclosed =>
    intro c' hclosed
    rw [hcloses, hs₀]
    apply h.unclosed c'
    rcases eq_or_ne c' c with rfl | hne
    · rw [hqueued]
      nofun
    · rw [status_addfd_of_ne s₀ hne, hsame] at hclosed
      exact hclosed
  case listen =>
    intro hlisten'
    have hdelivered : s.listenReady = false := h.delivered List.mem_cons_self
    rw [hlistenReady, hs₀] at hlisten'
    exact absurd (hdelivered.symm.trans hlisten') nofun
  case registered =>
    intro c' hmem
    have hregistered := h.registered c' (List.mem_cons_of_mem _ hmem)
    rcases eq_or_ne c' c with rfl | hne
    · apply status_addfd_self s₀ c'
    · rw [status_addfd_of_ne s₀ hne, hsame]
      exact hregistered
  case delivered => exact fun hmem => absurd hmem hlisten

theorem Inv.handleListen (h : Inv s (.listenfd :: todo)) (hlisten : .listenfd ∉ todo) :
  Inv s.handleListen todo ∧ Handles s s.handleListen .listenfd
  := by
  cases hbacklog : s.backlog with
  | nil =>
      rw [Server.handleListen, hbacklog]
      use h.tail nofun
      constructor
      case listenReady => rfl
      case ended => rfl
      case backlog => rw [if_pos rfl, hbacklog, List.tail_nil]
      case closes =>
        intro c'
        rw [if_neg nofun]
        rfl
  | cons c rest =>
      rw [Server.handleListen, hbacklog]
      use h.addfd hbacklog hlisten
      obtain ⟨hrest, hlistenReady, -, hended, hcloses, -⟩ :=
        addfd_rest { s with backlog := rest } c
      constructor
      case listenReady => exact hlistenReady
      case ended => exact hended
      case backlog =>
        rw [if_pos rfl, hbacklog]
        exact hrest
      case closes =>
        intro c'
        rw [if_neg nofun]
        apply congrFun hcloses c'

/-! ### All notifications -/

/-- The next notification is handled. -/
theorem Inv.handle (h : Inv s (e :: todo)) (he : e ∉ todo) :
  ∃ s', s.handle e = some s' ∧ Inv s' todo ∧ Handles s s' e
  := by
  cases e with
  | listenfd => exact ⟨s.handleListen, rfl, h.handleListen he⟩
  | connfd c =>
      use EpollServer.finish s c
      constructor
      · apply recvLoop_eq (h.registered c List.mem_cons_self) le_rfl
      · exact ⟨h.finish he, finish_handles s c⟩

/-- What `et` does to the sockets. -/
structure HandlesAll (s s' : Server C) (events : List (Event C)) : Prop where
  listenReady : s'.listenReady = s.listenReady
  ended : s'.ended = s.ended
  backlog : s'.backlog = if .listenfd ∈ events then s.backlog.tail else s.backlog
  closes : ∀ c, s'.closes c =
    s.closes c + if .connfd c ∈ events then closeCalls (s.ended c) else 0

/-- `et` comes to its end, whatever was delivered. -/
theorem Inv.et (h : Inv s events) (hnodup : events.Nodup) :
  ∃ s', Server.et events s = some s' ∧ Inv s' [] ∧ HandlesAll s s' events
  := by
  induction events generalizing s with
  | nil => exact ⟨s, rfl, h, rfl, rfl, rfl, fun _ => rfl⟩
  | cons e events ih =>
      obtain ⟨hmem, hnodup⟩ := List.nodup_cons.mp hnodup
      obtain ⟨s₁, hs₁, h₁, hhandles⟩ := h.handle hmem
      obtain ⟨s', hs', h', hall⟩ := ih h₁ hnodup
      use s'
      constructor
      · rw [Server.et, hs₁, Option.bind_some, hs']
      use h'
      constructor
      case listenReady => rw [hall.listenReady, hhandles.listenReady]
      case ended => rw [hall.ended, hhandles.ended]
      case backlog =>
        rw [hall.backlog, hhandles.backlog]
        by_cases heq : e = .listenfd
        · subst heq
          rw [if_neg hmem, if_pos rfl, if_pos List.mem_cons_self]
        · have hiff : .listenfd ∈ e :: events ↔ .listenfd ∈ events :=
            List.mem_cons.trans (or_iff_right (Ne.symm heq))
          simp only [if_neg heq, hiff]
      case closes =>
        intro c
        rw [hall.closes, hhandles.closes, hhandles.ended, add_assoc]
        by_cases heq : e = .connfd c
        · subst heq
          rw [if_neg hmem, if_pos rfl, if_pos List.mem_cons_self, add_zero]
        · have hiff : .connfd c ∈ e :: events ↔ .connfd c ∈ events :=
            List.mem_cons.trans (or_iff_right (Ne.symm heq))
          simp only [if_neg heq, hiff, zero_add]

/-- Notifications are delivered. -/
theorem Inv.deliver (h : Inv s []) (hpending : ∀ e ∈ events, s.Pending e) :
  Inv (s.deliver events) events
  := by
  constructor
  case queue => apply h.queue
  case nodup => apply h.nodup
  case ready => exact fun c hmem => h.ready c (Finset.mem_of_mem_filter c hmem)
  case unclosed => apply h.unclosed
  case listen => exact fun hlisten => h.listen (Bool.and_eq_true_iff.mp hlisten).1
  case registered => exact fun c hmem => h.ready c (hpending _ hmem)
  case drained =>
    intro c hregistered hready hmem
    apply h.drained c hregistered _ List.not_mem_nil
    exact fun hmem' => hready (Finset.mem_filter.mpr ⟨hmem', hmem⟩)
  case delivered =>
    intro hmem
    apply Bool.and_eq_false_imp.mpr
    exact fun _ => decide_eq_false (not_not.mpr hmem)

/-- `epoll_wait` and `et` -/
theorem Inv.wait (h : Inv s []) (hs' : s.wait events = some s') :
  (∀ e ∈ events, s.Pending e) ∧ Inv s' [] ∧ HandlesAll (s.deliver events) s' events
  := by
  obtain ⟨⟨hnodup, -, hpending⟩, het⟩ := Option.ite_none_right_eq_some.mp hs'
  obtain ⟨s₁, hs₁, h₁, hall⟩ := (h.deliver hpending).et hnodup
  obtain rfl := Option.some.inj (hs₁.symm.trans het)
  exact ⟨hpending, h₁, hall⟩

/-- Whatever `epoll_wait` delivers, `et` comes to its end. -/
theorem Inv.wait_isSome (h : Inv s []) (hnodup : events.Nodup)
    (hlength : events.length ≤ maxEventNumber) (hpending : ∀ e ∈ events, s.Pending e) :
  (s.wait events).isSome
  := by
  obtain ⟨s', hs', -, -⟩ := (h.deliver hpending).et hnodup
  rw [Server.wait, if_pos ⟨hnodup, hlength, hpending⟩, hs']
  rfl

/-! ### The clients -/

omit [DecidableEq C] in
theorem inv_start :
  Inv (Server.start : Server C) []
  := by
  constructor
  case queue => exact fun c => iff_of_false List.not_mem_nil nofun
  case nodup => apply List.nodup_nil
  case ready => exact fun c hmem => absurd hmem (Finset.notMem_empty c)
  case drained => exact nofun
  case unclosed => exact fun _ _ => rfl
  case listen => exact nofun
  case registered => exact nofun
  case delivered => exact nofun

/-- A client connects. -/
theorem Inv.connect (h : Inv s []) (hs' : s.connect c = some s') :
  Inv s' []
  := by
  obtain ⟨hunknown, hs'⟩ := Option.ite_none_right_eq_some.mp hs'
  obtain rfl := Option.some.inj hs'
  have hother : ∀ c' ≠ c, Function.update s.status c Status.queued c' = s.status c' :=
    fun c' hne => Function.update_of_ne hne ..
  have hself : Function.update s.status c Status.queued c = .queued := Function.update_self ..
  have hnot : c ∉ s.backlog := by
    rw [h.queue c, hunknown]
    nofun
  constructor
  case queue =>
    intro c'
    rw [List.mem_append, List.mem_singleton]
    rcases eq_or_ne c' c with rfl | hne
    · apply iff_of_true (Or.inr rfl) hself
    · change _ ↔ Function.update s.status c .queued c' = .queued
      rw [or_iff_left hne, h.queue c', hother c' hne]
  case nodup => exact List.nodup_append.mpr ⟨h.nodup, List.nodup_singleton c, by
      rintro a ha b hb rfl
      obtain rfl := List.mem_singleton.mp hb
      apply hnot ha⟩
  case ready =>
    intro c' hmem
    have hregistered := h.ready c' hmem
    rcases eq_or_ne c' c with rfl | hne
    · rw [hunknown] at hregistered
      cases hregistered
    · exact (hother c' hne).trans hregistered
  case drained =>
    intro c' hregistered hready hmem
    rcases eq_or_ne c' c with rfl | hne
    · exact absurd (hself.symm.trans hregistered) nofun
    · apply h.drained c' ((hother c' hne).symm.trans hregistered) hready hmem
  case unclosed =>
    intro c' hclosed
    apply h.unclosed c'
    rcases eq_or_ne c' c with rfl | hne
    · rw [hunknown]
      nofun
    · exact fun heq => hclosed ((hother c' hne).trans heq)
  case listen => exact fun _ => List.append_ne_nil_of_right_ne_nil _ (List.cons_ne_nil c [])
  case registered => exact nofun
  case delivered => exact nofun

/-- Something arrives on a connection. -/
theorem Inv.arrive (h : Inv s []) {unread : C → ℕ} {ended : C → Option End}
    (hunread : ∀ c' ≠ c, unread c' = s.unread c') (hended : ∀ c' ≠ c, ended c' = s.ended c') :
  Inv (Server.notify { s with unread := unread, ended := ended } c) []
  := by
  constructor
  case queue => apply h.queue
  case nodup => apply h.nodup
  case unclosed => apply h.unclosed
  case listen => apply h.listen
  case registered => exact nofun
  case delivered => exact nofun
  case ready =>
    intro c' hmem
    change c' ∈ if s.status c = .registered then insert c s.ready else s.ready at hmem
    split_ifs at hmem with hregistered
    · rcases Finset.mem_insert.mp hmem with rfl | hmem
      · exact hregistered
      · apply h.ready c' hmem
    · apply h.ready c' hmem
  case drained =>
    intro c' hregistered hready hmem
    change c' ∉ if s.status c = .registered then insert c s.ready else s.ready at hready
    have hstatus : s.status c' = .registered := hregistered
    have hne : c' ≠ c := by
      rintro rfl
      rw [if_pos hstatus] at hready
      apply hready (Finset.mem_insert_self _ _)
    have hnot : c' ∉ s.ready := by
      intro hmem'
      apply hready
      split_ifs
      · apply Finset.mem_insert_of_mem hmem'
      · exact hmem'
    rintro (hpos | hend)
    · apply h.drained c' hregistered hnot hmem
      left
      rw [← hunread c' hne]
      exact hpos
    · apply h.drained c' hregistered hnot hmem
      right
      rw [← hended c' hne]
      exact hend

/-- Every action keeps the invariant. -/
theorem Inv.step {a : Action C} (h : Inv s []) (hs' : (machine C).step s a = some s') :
  Inv s' []
  := by
  cases a with
  | connect c => apply h.connect hs'
  | et events => exact (h.wait hs').2.1
  | data c n =>
      obtain ⟨-, hs'⟩ := Option.ite_none_right_eq_some.mp hs'
      obtain rfl := Option.some.inj hs'
      apply h.arrive (fun c' hne => Function.update_of_ne hne ..) (fun _ _ => rfl)
  | peerClose c how =>
      obtain ⟨-, hs'⟩ := Option.ite_none_right_eq_some.mp hs'
      obtain rfl := Option.some.inj hs'
      apply h.arrive (fun _ _ => rfl) (fun c' hne => Function.update_of_ne hne ..)

end EpollServer
