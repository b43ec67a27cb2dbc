import Orgrim.LstTimer.Frame
import Orgrim.NonactiveConn.Server

/-!
# The server does what it is for

Every connection that is open has one timer, which is set to three time slots after it was last
heard from, and every timer has its connection (`Matches`).  Every event keeps this, so the server
closes what the reaper gives up, and nothing else (`closes_silent`).
-/

namespace NonactiveConn

open LstTimer (Holds expireOf)

variable {X : Type*}

/-- The timer of a connection that was last heard from at a time. -/
structure TimerOf (s : Server X) (conn : ℕ) (t : ℤ) (timer : X) : Prop where
  sockfd : (s.users conn).sockfd = conn
  points : (s.users conn).timer = some timer
  live : timer ∈ s.timerLst.heap.live
  userData : s.userData timer = conn
  expire : expireOf s.timerLst.heap timer = t + 3 * timeslot

/-- The server and the reaper agree on the connections, and these have timers. -/
structure Matches (s : Server X) (r : Reaper) : Prop where
  holds : ∃ xs, Holds s.timerLst xs
  conns : ∀ conn, conn ∈ s.conns ↔ (r.last conn).isSome
  limit : ∀ conn ∈ s.conns, conn < fdLimit
  timers : ∀ conn t, r.last conn = some t → ∃ timer, TimerOf s conn t timer
  owners : ∀ timer ∈ s.timerLst.heap.live,
    s.userData timer ∈ s.conns ∧ (s.users (s.userData timer)).timer = some timer
  past : ∀ conn t, r.last conn = some t → t ≤ r.now
  timeout : s.timeout = r.alarm
  stopServer : s.stopServer = r.stop
  running : s.running = r.running

variable [DecidableEq X] {s : Server X} {r : Reaper} {conn c : ℕ} {timer x : X} {cur : ℤ}
  {l : LstTimer.SortTimerLst X}

/-! ### What the handlers do -/

theorem users_enroll_self :
  (s.enroll conn timer l).users conn = ⟨conn, some timer⟩
  := Function.update_self ..

theorem users_enroll_of_ne (hne : c ≠ conn) :
  (s.enroll conn timer l).users c = s.users c
  := Function.update_of_ne hne ..

theorem userData_enroll_self :
  (s.enroll conn timer l).userData timer = conn
  := Function.update_self ..

theorem userData_enroll_of_ne (hne : x ≠ timer) :
  (s.enroll conn timer l).userData x = s.userData x
  := Function.update_of_ne hne ..

theorem last_note_self {v : Option ℤ} :
  (r.note conn v cur).last conn = v
  := Function.update_self ..

theorem last_note_of_ne {v : Option ℤ} (hne : c ≠ conn) :
  (r.note conn v cur).last c = r.last c
  := Function.update_of_ne hne ..

omit [DecidableEq X] in
/-- Two connections do not share a timer. -/
theorem Matches.timer_unique (h : Matches s r) {t : ℤ} (hx : TimerOf s conn t x) {y : X}
    (hy : y ∈ s.timerLst.heap.live) (hconn : s.userData y = conn) :
  y = x
  := by
  have hpoints := (h.owners y hy).2
  rw [hconn, hx.points] at hpoints
  exact (Option.some.inj hpoints).symm

/-- The owner of a timer is open. -/
def Owned (s : Server X) (timer : X) : Prop :=
  s.userData timer ∈ s.conns ∧ (s.users (s.userData timer)).timer = some timer

omit [DecidableEq X] in
/-- Something happens to one connection, and the others stay as they are. -/
theorem Matches.change (h : Matches s r) {s' : Server X} {v : Option ℤ} (hcur : r.now ≤ cur)
    (hflags : s'.timeout = s.timeout ∧ s'.stopServer = s.stopServer ∧ s'.running = s.running)
    (hholds : ∃ xs, Holds s'.timerLst xs) (hconn : conn ∈ s'.conns ↔ v.isSome)
    (hlimit : conn ∈ s'.conns → conn < fdLimit)
    (hself : ∀ t, v = some t → t ≤ cur ∧ ∃ x, TimerOf s' conn t x)
    (hconns : ∀ c ≠ conn, (c ∈ s'.conns ↔ c ∈ s.conns))
    (hothers : ∀ c ≠ conn, ∀ t x, TimerOf s c t x → TimerOf s' c t x)
    (howners : ∀ x ∈ s'.timerLst.heap.live, Owned s' x) :
  Matches s' (r.note conn v cur)
  := by
  constructor
  case holds => exact hholds
  case conns =>
    intro c
    rcases eq_or_ne c conn with rfl | hc
    · rw [last_note_self, hconn]
    · rw [last_note_of_ne hc, hconns c hc, h.conns]
  case limit =>
    intro c hc
    rcases eq_or_ne c conn with rfl | hne
    · apply hlimit hc
    · apply h.limit c ((hconns c hne).mp hc)
  case timers =>
    intro c t ht
    rcases eq_or_ne c conn with rfl | hc
    · rw [last_note_self] at ht
      exact (hself t ht).2
    · rw [last_note_of_ne hc] at ht
      obtain ⟨x, hx⟩ := h.timers c t ht
      exact ⟨x, hothers c hc t x hx⟩
  case owners => exact howners
  case past =>
    intro c t ht
    rcases eq_or_ne c conn with rfl | hc
    · rw [last_note_self] at ht
      exact (hself t ht).1
    · rw [last_note_of_ne hc] at ht
      exact (h.past c t ht).trans hcur
  case timeout => exact hflags.1.trans h.timeout
  case stopServer => exact hflags.2.1.trans h.stopServer
  case running => exact hflags.2.2.trans h.running

/-- A new connection. -/
theorem Matches.opened (h : Matches s r) (hlimit : conn < fdLimit) (hnew : r.last conn = none)
    (hcur : r.now ≤ cur) (hfresh : timer ∉ s.timerLst.heap.live) :
  ∃ s', s.accept conn timer cur = some s' ∧ Matches s' (r.react (.opened conn cur))
  := by
  obtain ⟨xs, hxs⟩ := h.holds
  obtain ⟨l, zs, hstep, hzs⟩ := LstTimer.exists_add hxs hfresh (cur + 3 * timeslot)
  obtain ⟨hlive, hexpire⟩ := LstTimer.step_addTimer hstep
  have hnot : conn ∉ s.conns := by
    rw [h.conns, hnew]
    exact Bool.false_ne_true
  have hne : ∀ x ∈ s.timerLst.heap.live, x ≠ timer := by
    rintro x hx rfl
    exact hfresh hx
  rw [Server.accept, if_pos hlimit, hstep]
  refine ⟨_, rfl, h.change hcur ⟨rfl, rfl, rfl⟩ ⟨zs, hzs⟩ ?_ (fun _ => hlimit) ?_ ?_ ?_ ?_⟩
  · exact iff_of_true (Finset.mem_insert_self conn s.conns) rfl
  · intro t ht
    obtain rfl := Option.some.inj ht
    use le_rfl, timer
    constructor
    case sockfd => rw [users_enroll_self]
    case points => rw [users_enroll_self]
    case live => apply hlive ▸ Finset.mem_insert_self ..
    case userData => rw [userData_enroll_self]
    case expire => exact (congrFun hexpire timer).trans (Function.update_self ..)
  · intro c hc
    exact Finset.mem_insert.trans (or_iff_right hc)
  · intro c hc t x hx
    have hxne := hne x hx.live
    constructor
    case sockfd => rw [users_enroll_of_ne hc, hx.sockfd]
    case points => rw [users_enroll_of_ne hc, hx.points]
    case live => apply hlive ▸ Finset.mem_insert_of_mem hx.live
    case userData => rw [userData_enroll_of_ne hxne, hx.userData]
    case expire =>
      rw [← hx.expire]
      exact (congrFun hexpire x).trans (Function.update_of_ne hxne ..)
  · intro x hx
    rcases Finset.mem_insert.mp (hlive ▸ hx) with rfl | hx
    · rw [Owned, userData_enroll_self, users_enroll_self]
      exact ⟨Finset.mem_insert_self conn s.conns, rfl⟩
    · obtain ⟨hmem, hpoints⟩ := h.owners x hx
      have hc : s.userData x ≠ conn := by
        rintro heq
        apply hnot (heq ▸ hmem)
      rw [Owned, userData_enroll_of_ne (hne x hx), users_enroll_of_ne hc]
      exact ⟨Finset.mem_insert_of_mem hmem, hpoints⟩

omit [DecidableEq X] in
/-- Nothing has come. -/
theorem Matches.nothing (h : Matches s r) (conn : ℕ) (hcur : r.now ≤ cur) :
  Matches s (r.react (.nothing conn cur))
  := by
  constructor
  case holds => exact h.holds
  case conns => exact h.conns
  case limit => exact h.limit
  case timers => exact h.timers
  case owners => exact h.owners
  case past => exact fun c t ht => (h.past c t ht).trans hcur
  case timeout => exact h.timeout
  case stopServer => exact h.stopServer
  case running => exact h.running

/-- Data has come: the timer of the connection is put off. -/
theorem Matches.heard (h : Matches s r) (hconn : (r.last conn).isSome) (hcur : r.now ≤ cur) :
  ∃ s', s.recv conn .data cur = some s' ∧ Matches s' (r.react (.heard conn cur))
  := by
  obtain ⟨t, ht⟩ := Option.isSome_iff_exists.mp hconn
  obtain ⟨x, hx⟩ := h.timers conn t ht
  obtain ⟨xs, hxs⟩ := h.holds
  have hlater : expireOf s.timerLst.heap x ≤ cur + 3 * timeslot := by
    have hpast := h.past conn t ht
    rw [hx.expire]
    omega
  obtain ⟨l, zs, hstep, hzs⟩ := LstTimer.exists_adjust hxs hx.live hlater
  obtain ⟨hlive, hexpire⟩ := LstTimer.step_adjustTimer hstep
  have hmem := (h.conns conn).mpr hconn
  have hlimit := h.limit conn hmem
  simp only [Server.recv, if_pos hlimit, hx.points, hstep]
  refine ⟨_, rfl, h.change hcur ⟨rfl, rfl, rfl⟩ ⟨zs, hzs⟩ (iff_of_true hmem rfl) (fun _ => hlimit)
    ?_ (fun c _ => Iff.rfl) ?_ ?_⟩
  · intro t' ht'
    obtain rfl := Option.some.inj ht'
    use le_rfl, x
    constructor
    case sockfd => exact hx.sockfd
    case points => exact hx.points
    case live => apply hlive ▸ hx.live
    case userData => exact hx.userData
    case expire => exact (congrFun hexpire x).trans (Function.update_self ..)
  · intro c hc t' y hy
    have hne : y ≠ x := by
      rintro rfl
      apply hc (hy.userData.symm.trans hx.userData)
    constructor
    case sockfd => exact hy.sockfd
    case points => exact hy.points
    case live => apply hlive ▸ hy.live
    case userData => exact hy.userData
    case expire =>
      rw [← hy.expire]
      exact (congrFun hexpire y).trans (Function.update_of_ne hne ..)
  · intro y hy
    apply h.owners y (hlive ▸ hy)

/-- The connection is closed, and its timer deleted. -/
theorem Matches.lost (h : Matches s r) (hconn : (r.last conn).isSome) (hcur : r.now ≤ cur) :
  ∃ s', s.drop conn = some s' ∧ Matches s' (r.react (.lost conn cur))
  := by
  obtain ⟨t, ht⟩ := Option.isSome_iff_exists.mp hconn
  obtain ⟨x, hx⟩ := h.timers conn t ht
  obtain ⟨xs, hxs⟩ := h.holds
  obtain ⟨l, zs, hstep, hzs⟩ := LstTimer.exists_del hxs hx.live
  obtain ⟨hlive, hexpire⟩ := LstTimer.delTimer_frees hstep
  have hpoints : ((s.cbFunc conn).users conn).timer = some x := hx.points
  have hdel : LstTimer.calls.step (s.cbFunc conn).timerLst (.delTimer x) = some l := hstep
  have hconns : (s.cbFunc conn).conns = s.conns.erase conn := by
    rw [Server.cbFunc, hx.sockfd]
  have hnot : conn ∉ (s.cbFunc conn).conns := by
    rw [hconns]
    apply Finset.notMem_erase
  simp only [Server.drop, hpoints, hdel]
  refine ⟨_, rfl, h.change hcur ⟨rfl, rfl, rfl⟩ ⟨zs, hzs⟩ (iff_of_false hnot Bool.false_ne_true)
    (fun hmem => absurd hmem hnot) nofun ?_ ?_ ?_⟩
  · intro c hc
    change c ∈ (s.cbFunc conn).conns ↔ _
    rw [hconns]
    exact Finset.mem_erase.trans (and_iff_right hc)
  · intro c hc t' y hy
    have hne : y ≠ x := by
      rintro rfl
      apply hc (hy.userData.symm.trans hx.userData)
    constructor
    case sockfd => exact hy.sockfd
    case points => exact hy.points
    case live => apply hlive ▸ Finset.mem_erase.mpr ⟨hne, hy.live⟩
    case userData => exact hy.userData
    case expire => exact (congrFun hexpire y).trans hy.expire
  · intro y hy
    obtain ⟨hne, hy⟩ := Finset.mem_erase.mp (hlive ▸ hy)
    obtain ⟨hmem, hown⟩ := h.owners y hy
    refine ⟨?_, hown⟩
    change s.userData y ∈ (s.cbFunc conn).conns
    rw [hconns]
    apply Finset.mem_erase.mpr ⟨?_, hmem⟩
    intro heq
    apply hne (h.timer_unique hx hy heq)

/-! ### The ticks -/

/-- The callbacks of some timers. -/
def callbacks (s : Server X) (fired : List X) : Server X :=
  fired.foldl (fun s timer => s.cbFunc (s.userData timer)) s

omit [DecidableEq X] in
/-- They close the connections of their timers, and change nothing else. -/
theorem callbacks_eq (s : Server X) (fired : List X) :
  ∃ conns, callbacks s fired = { s with conns := conns } ∧
    ∀ c, c ∈ conns ↔ c ∈ s.conns ∧ ∀ x ∈ fired, (s.users (s.userData x)).sockfd ≠ c
  := by
  induction fired generalizing s with
  | nil =>
      refine ⟨s.conns, rfl, fun c => (and_iff_left ?_).symm⟩
      exact fun x hx => absurd hx List.not_mem_nil
  | cons x fired ih =>
      obtain ⟨conns, hcallbacks, hconns⟩ := ih (s.cbFunc (s.userData x))
      refine ⟨conns, hcallbacks, ?_⟩
      intro c
      rw [hconns, List.forall_mem_cons]
      change c ∈ s.conns.erase _ ∧ _ ↔ _
      rw [Finset.mem_erase, ne_comm]
      exact ⟨fun h => ⟨h.1.2, h.1.1, h.2⟩, fun h => ⟨⟨h.2.1, h.1⟩, h.2.2⟩⟩

theorem reap_eq_some {last : ℕ → Option ℤ} {t : ℤ} :
  Reaper.reap last cur c = some t ↔ last c = some t ∧ cur < t + 3 * timeslot
  := by
  rw [Reaper.reap, Option.filter_eq_some_iff, decide_eq_true_iff]

/-- A tick closes the connections that have been silent for three time slots, and no others. -/
theorem Matches.tick (h : Matches s r) (hcur : r.now ≤ cur) :
  ∃ s', s.timerHandler cur = some s' ∧
    Matches s' { r with last := Reaper.reap r.last cur, now := cur }
  := by
  obtain ⟨xs, hxs⟩ := h.holds
  obtain ⟨l, htick, hl⟩ := LstTimer.tick_spec hxs cur
  have hexpire := LstTimer.tick_expire htick
  obtain ⟨conns, hcallbacks, hconns⟩ :=
    callbacks_eq s (xs.filter (fun x => expireOf s.timerLst.heap x ≤ cur))
  have hfired : ∀ x, x ∈ xs.filter (fun x => expireOf s.timerLst.heap x ≤ cur) ↔
      x ∈ s.timerLst.heap.live ∧ expireOf s.timerLst.heap x ≤ cur := by
    intro x
    rw [List.mem_filter, hxs.mem_iff, decide_eq_true_iff]
  have hlive : ∀ x, x ∈ l.heap.live ↔
      x ∈ s.timerLst.heap.live ∧ cur < expireOf s.timerLst.heap x := by
    intro x
    rw [← hl.mem_iff, List.mem_filter, hxs.mem_iff, decide_eq_true_iff]
  -- the timer of a connection decides whether it stays
  have hstays : ∀ c t x, TimerOf s c t x → (c ∈ conns ↔ c ∈ s.conns ∧ cur < t + 3 * timeslot) := by
    intro c t x hx
    rw [hconns]
    apply and_congr_right
    intro hc
    constructor
    · intro hall
      by_contra hdue
      apply hall x ((hfired x).mpr ⟨hx.live, hx.expire ▸ Int.not_lt.mp hdue⟩)
      rw [hx.userData, hx.sockfd]
    · intro hlt y hy heq
      obtain ⟨hylive, hydue⟩ := (hfired y).mp hy
      obtain ⟨hmem, -⟩ := h.owners y hylive
      obtain ⟨t', ht'⟩ := Option.isSome_iff_exists.mp ((h.conns _).mp hmem)
      obtain ⟨z, hz⟩ := h.timers _ t' ht'
      rw [hz.sockfd] at heq
      rw [h.timer_unique hx hylive heq, hx.expire] at hydue
      omega
  have hhandler : s.timerHandler cur = some { s with conns := conns, timerLst := l } := by
    rw [Server.timerHandler, htick]
    change some { callbacks s _ with timerLst := l } = _
    rw [hcallbacks]
  refine ⟨_, hhandler, ?_⟩
  constructor
  case holds => exact ⟨_, hl⟩
  case conns =>
    intro c
    change c ∈ conns ↔ (Reaper.reap r.last cur c).isSome
    rw [Option.isSome_iff_exists]
    constructor
    · intro hc
      have hbefore := (h.conns c).mp ((hconns c).mp hc).1
      obtain ⟨t, ht⟩ := Option.isSome_iff_exists.mp hbefore
      obtain ⟨x, hx⟩ := h.timers c t ht
      exact ⟨t, reap_eq_some.mpr ⟨ht, ((hstays c t x hx).mp hc).2⟩⟩
    · rintro ⟨t, ht⟩
      obtain ⟨hlast, hlt⟩ := reap_eq_some.mp ht
      obtain ⟨x, hx⟩ := h.timers c t hlast
      exact (hstays c t x hx).mpr ⟨(h.conns c).mpr (by rw [hlast]; rfl), hlt⟩
  case limit =>
    intro c hc
    apply h.limit c ((hconns c).mp hc).1
  case timers =>
    intro c t ht
    obtain ⟨hlast, hlt⟩ := reap_eq_some.mp ht
    obtain ⟨x, hx⟩ := h.timers c t hlast
    use x
    constructor
    case sockfd => exact hx.sockfd
    case points => exact hx.points
    case live => exact (hlive x).mpr ⟨hx.live, hx.expire ▸ hlt⟩
    case userData => exact hx.userData
    case expire => exact (congrFun hexpire x).trans hx.expire
  case owners =>
    intro x hx
    obtain ⟨hbefore, hlt⟩ := (hlive x).mp hx
    obtain ⟨hmem, hpoints⟩ := h.owners x hbefore
    refine ⟨?_, hpoints⟩
    obtain ⟨t, ht⟩ := Option.isSome_iff_exists.mp ((h.conns _).mp hmem)
    obtain ⟨y, hy⟩ := h.timers _ t ht
    obtain rfl := h.timer_unique hy hbefore rfl
    exact (hstays _ t x hy).mpr ⟨hmem, hy.expire ▸ hlt⟩
  case past =>
    intro c t ht
    exact (h.past c t (reap_eq_some.mp ht).1).trans hcur
  case timeout => exact h.timeout
  case stopServer => exact h.stopServer
  case running => exact h.running

/-- The end of a round: there is a tick if `SIGALRM` has come. -/
theorem Matches.endOfRound (h : Matches s r) (hcur : r.now ≤ cur) :
  ∃ s', s.endOfEvents cur = some s' ∧ Matches s' (r.react (.endOfRound cur))
  := by
  have hround : ∃ s₁, (if s.timeout then s.timerHandler cur else some s) = some s₁ ∧
      Matches s₁ { r with
        last := if r.alarm then Reaper.reap r.last cur else r.last
        now := cur } := by
    rw [h.timeout]
    by_cases halarm : r.alarm
    · simp only [if_pos halarm]
      apply h.tick hcur
    · simp only [if_neg halarm]
      exact ⟨s, rfl, h.nothing 0 hcur⟩
  obtain ⟨s₁, hs₁, h₁⟩ := hround
  rw [Server.endOfEvents, hs₁]
  refine ⟨_, rfl, ?_⟩
  constructor
  case holds => exact h₁.holds
  case conns => exact h₁.conns
  case limit => exact h₁.limit
  case timers =>
    intro c t ht
    obtain ⟨x, hx⟩ := h₁.timers c t ht
    exact ⟨x, hx.sockfd, hx.points, hx.live, hx.userData, hx.expire⟩
  case owners => exact h₁.owners
  case past => exact h₁.past
  case timeout => rfl
  case stopServer => exact h₁.stopServer
  case running => exact congrArg not h₁.stopServer

omit [DecidableEq X] in
/-- Signals. -/
theorem Matches.signals (h : Matches s r) (bytes : List Signal) :
  Matches (s.handleSignals bytes)
    (r.react (.signals (bytes.contains .alrm) (bytes.contains .term)))
  := by
  constructor
  case holds => exact h.holds
  case conns => exact h.conns
  case limit => exact h.limit
  case timers =>
    intro c t ht
    obtain ⟨x, hx⟩ := h.timers c t ht
    exact ⟨x, hx.sockfd, hx.points, hx.live, hx.userData, hx.expire⟩
  case owners => exact h.owners
  case past => exact h.past
  case timeout => exact congrArg (· || _) h.timeout
  case stopServer => exact congrArg (· || _) h.stopServer
  case running => exact h.running

/-! ### Every run -/

/-- The server takes every step that the reaper takes, and they agree afterwards. -/
theorem Matches.step {a : Action X} (h : Matches s r) (hallows : r.Allows a.event)
    (hfresh : Fresh s a) :
  ∃ s', Server.machine.step s a = some s' ∧
    Reaper.machine.step r a.event = some (r.react a.event) ∧ Matches s' (r.react a.event)
  := by
  have hreaper : Reaper.machine.step r a.event = some (r.react a.event) := if_pos hallows
  have hstep : ∃ s', Server.machine.step s a = some s' ∧ Matches s' (r.react a.event) := by
    cases a with
    | accept connfd timer cur =>
        obtain ⟨hrunning, hlimit, hnew, hcur⟩ := hallows
        simp only [Server.machine, if_pos (h.running.trans hrunning)]
        apply h.opened hlimit hnew hcur hfresh
    | signals bytes =>
        simp only [Server.machine, if_pos (h.running.trans hallows)]
        exact ⟨_, rfl, h.signals bytes⟩
    | endOfEvents cur =>
        obtain ⟨hrunning, hcur⟩ := hallows
        simp only [Server.machine, if_pos (h.running.trans hrunning)]
        apply h.endOfRound hcur
    | recv sockfd ret cur =>
        cases ret with
        | data =>
            obtain ⟨hrunning, hconn, hcur⟩ := hallows
            simp only [Server.machine, if_pos (h.running.trans hrunning)]
            apply h.heard hconn hcur
        | again =>
            obtain ⟨hrunning, hconn, hcur⟩ := hallows
            have hlimit := h.limit sockfd ((h.conns sockfd).mpr hconn)
            simp only [Server.machine, if_pos (h.running.trans hrunning), Server.recv,
              if_pos hlimit]
            exact ⟨s, rfl, h.nothing sockfd hcur⟩
        | error =>
            obtain ⟨hrunning, hconn, hcur⟩ := hallows
            have hlimit := h.limit sockfd ((h.conns sockfd).mpr hconn)
            simp only [Server.machine, if_pos (h.running.trans hrunning), Server.recv,
              if_pos hlimit]
            apply h.lost hconn hcur
        | closed =>
            obtain ⟨hrunning, hconn, hcur⟩ := hallows
            have hlimit := h.limit sockfd ((h.conns sockfd).mpr hconn)
            simp only [Server.machine, if_pos (h.running.trans hrunning), Server.recv,
              if_pos hlimit]
            apply h.lost hconn hcur
  obtain ⟨s', hs', hmatches⟩ := hstep
  exact ⟨s', hs', hreaper, hmatches⟩

omit [DecidableEq X] in
theorem matches_init (now : ℤ) :
  Matches (Server.init : Server X) (Reaper.init now)
  := by
  constructor
  case holds => exact ⟨[], Holds.init⟩
  case conns => exact fun c => iff_of_false (Finset.notMem_empty c) Bool.false_ne_true
  case limit => exact fun c hc => absurd hc (Finset.notMem_empty c)
  case timers => exact fun c t ht => by cases ht
  case owners => exact fun x hx => absurd hx (Finset.notMem_empty x)
  case past => exact fun c t ht => by cases ht
  case timeout => rfl
  case stopServer => rfl
  case running => rfl

/-- What a run leads to. -/
theorem Matches.final {as : List (Action X)} (h : Matches s r)
    (hallows : Reaper.machine.Along Reaper.Allows r (as.map Action.event))
    (hfresh : Server.machine.Along Fresh s as) :
  ∃ s' r', Server.machine.final s as = some s' ∧
    Reaper.machine.final r (as.map Action.event) = some r' ∧ Matches s' r'
  := by
  induction as generalizing s r with
  | nil => exact ⟨s, r, rfl, rfl, h⟩
  | cons a as ih =>
      obtain ⟨hallow, hallows⟩ := hallows
      obtain ⟨s₁, hs₁, hr₁, h₁⟩ := h.step hallow hfresh.1
      obtain ⟨s', r', hs', hr', h'⟩ := ih h₁ (hallows _ hr₁) (hfresh.2 _ hs₁)
      refine ⟨s', r', ?_, ?_, h'⟩
      · rw [Machine.final_of_step hs₁, hs']
      · rw [List.map_cons, Machine.final_of_step hr₁, hr']

omit [DecidableEq X] in
/-- The timers are those of the open connections, one for each. -/
theorem Matches.timers_eq (h : Matches s r) :
  s.timerLst.heap.live.image s.userData = s.conns ∧ s.timerLst.heap.live.card = s.conns.card
  := by
  have himage : s.timerLst.heap.live.image s.userData = s.conns := by
    ext c
    rw [Finset.mem_image]
    constructor
    · rintro ⟨x, hx, rfl⟩
      exact (h.owners x hx).1
    · intro hc
      obtain ⟨t, ht⟩ := Option.isSome_iff_exists.mp ((h.conns c).mp hc)
      obtain ⟨x, hx⟩ := h.timers c t ht
      exact ⟨x, hx.live, hx.userData⟩
  use himage
  rw [← himage]
  symm
  apply Finset.card_image_of_injOn
  intro x hx y hy heq
  have hpoints := (h.owners x hx).2
  rw [heq, (h.owners y hy).2] at hpoints
  exact (Option.some.inj hpoints).symm

/-- In every run whose events are as the kernel and the clock make them, no undefined access is
made, and at every moment the connections that are open are those that the reaper has not given
up: a connection that has been silent for three time slots is closed at the next tick, and no
other one is closed before its peer has closed it or reading from it has failed.  The timers are
those of the open connections. -/
theorem closes_silent (now : ℤ) {as : List (Action X)}
    (hallows : Reaper.machine.Along Reaper.Allows (Reaper.init now) (as.map Action.event))
    (hfresh : Server.machine.Along Fresh (Server.init : Server X) as) :
  ∃ s r, Server.machine.final Server.init as = some s ∧
    Reaper.machine.final (Reaper.init now) (as.map Action.event) = some r ∧
    (∀ conn, conn ∈ s.conns ↔ (r.last conn).isSome) ∧
    s.timerLst.heap.live.image s.userData = s.conns ∧ s.timerLst.heap.live.card = s.conns.card
  := by
  obtain ⟨s, r, hs, hr, h⟩ := (matches_init now).final hallows hfresh
  exact ⟨s, r, hs, hr, h.conns, h.timers_eq⟩

/-- Two connections.  The one that has sent something is kept at the tick, the other one closed. -/
theorem closes_silent_two :
  ∃ s r, Server.machine.final (Server.init : Server ℕ)
      [.accept 5 1 0, .accept 6 2 3, .recv 5 .data 10, .signals [.alrm], .endOfEvents 20] =
        some s ∧
    s.conns = {5} ∧
    Reaper.machine.final (Reaper.init 0)
      [.opened 5 0, .opened 6 3, .heard 5 10, .signals true false, .endOfRound 20] = some r ∧
    (∀ conn, conn ∈ s.conns ↔ (r.last conn).isSome) ∧
    s.timerLst.heap.live.image s.userData = s.conns ∧ s.timerLst.heap.live.card = s.conns.card
  := by
  obtain ⟨s, r, hs, hr, h⟩ := @closes_silent ℕ _ 0
    [.accept 5 1 0, .accept 6 2 3, .recv 5 .data 10, .signals [.alrm], .endOfEvents 20]
    (by decide) (by decide)
  refine ⟨s, r, hs, ?_, hr, h⟩
  clear h
  revert s
  decide

end NonactiveConn
