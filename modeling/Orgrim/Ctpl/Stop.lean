import Orgrim.Ctpl.Functions

/-!
# Waiting for the functions

`stop(true)` tells the threads of the pool to return when they have found the queue empty, under
`mutex`.  A `push` that has returned before has had the mutex since, so that its function is no
longer in the queue then: it is run, and not deleted (`executed_of_stopped`).  This takes one thread
at least.
-/

namespace Ctpl

/-! ### What the controller has told -/

section

variable {F : Type*}

/-- In `stop(false)`, before the notification. -/
def Point.Clears : Point F → Prop
  | .setFlags _ => True
  | .clear => True
  | _ => False

/-- In `stop`, from the notification on. -/
def Point.Ends : Point F → Prop
  | .notifyAll => True
  | .join _ => True
  | .clearRest => True
  | _ => False

/-- What is known of the commands, where the controller is at `p`. -/
structure Commanded (pool : ThreadPool F) (p : Point F) : Prop where
  flagged : ∀ i, pool.flags i = true → pool.isStop = true
  clears : p.Clears → pool.isStop = true
  ends : p.Ends → pool.isStop = true ∨ pool.isDone = true
  quiet : pool.isDone = true → ∀ i, pool.flags i = false
  size : pool.isDone = true → pool.size = 0 ∨ p.Ends

variable {pool : ThreadPool F} {p : Point F} {o : Result F}

theorem Commanded.step (h : Commanded pool p) (ho : Enters pool p o)
    (hrole : p.role = .controller) :
  Commanded o.shared o.point
  := by
  cases ho
  case stopAgain => exact h
  case stopWait hdone hstop =>
    have hflags : ∀ i, pool.flags i = false := by
      intro i
      apply Bool.eq_false_of_not_eq_true
      intro hflag
      rw [h.flagged i hflag] at hstop
      cases hstop
    exact ⟨h.flagged, False.elim, fun _ => Or.inr rfl, fun _ => hflags, fun _ => Or.inr trivial⟩
  case stop =>
    exact ⟨fun _ _ => rfl, fun _ => rfl, fun _ => Or.inl rfl, h.quiet, h.size⟩
  case setFlag i hi =>
    have hnot : pool.isDone ≠ true := by
      intro hdone
      rcases h.size hdone with hzero | hends
      · rw [hzero] at hi
        apply Nat.not_lt_zero i hi
      · exact hends
    exact ⟨fun _ _ => h.clears trivial, fun _ => h.clears trivial, False.elim,
      fun hdone => absurd hdone hnot, fun hdone => absurd hdone hnot⟩
  case flagsSet => exact ⟨h.flagged, h.clears, h.ends, h.quiet, h.size⟩
  case delete => exact ⟨h.flagged, h.clears, h.ends, h.quiet, h.size⟩
  case cleared =>
    exact ⟨h.flagged, False.elim, fun _ => Or.inl (h.clears trivial), h.quiet,
      fun _ => Or.inr trivial⟩
  case notifyAll => exact ⟨h.flagged, h.clears, h.ends, h.quiet, h.size⟩
  case join => exact ⟨h.flagged, h.clears, h.ends, h.quiet, h.size⟩
  case joined => exact ⟨h.flagged, h.clears, h.ends, h.quiet, h.size⟩
  case deleteRest => exact ⟨h.flagged, h.clears, h.ends, h.quiet, h.size⟩
  case stopped =>
    exact ⟨h.flagged, False.elim, False.elim, h.quiet, fun _ => Or.inl rfl⟩
  all_goals cases hrole

/-- Only the controller gives commands. -/
theorem Enters.commands (h : Enters pool p o) (hrole : p.role ≠ .controller) :
  o.shared.flags = pool.flags ∧ o.shared.isDone = pool.isDone ∧
    o.shared.isStop = pool.isStop ∧ o.shared.size = pool.size
  := by
  cases h
  case stopAgain => exact absurd rfl hrole
  case stopWait => exact absurd rfl hrole
  case stop => exact absurd rfl hrole
  case setFlag => exact absurd rfl hrole
  case flagsSet => exact absurd rfl hrole
  case delete => exact absurd rfl hrole
  case cleared => exact absurd rfl hrole
  case notifyAll => exact absurd rfl hrole
  case join => exact absurd rfl hrole
  case joined => exact absurd rfl hrole
  case deleteRest => exact absurd rfl hrole
  case stopped => exact absurd rfl hrole
  all_goals exact ⟨rfl, rfl, rfl, rfl⟩

theorem Commanded.same {pool' : ThreadPool F} (h : Commanded pool p)
    (hsame : pool'.flags = pool.flags ∧ pool'.isDone = pool.isDone ∧
      pool'.isStop = pool.isStop ∧ pool'.size = pool.size) :
  Commanded pool' p
  := by
  obtain ⟨hflags, hdone, hstop, hsize⟩ := hsame
  constructor
  · rw [hflags, hstop]
    exact h.flagged
  · rw [hstop]
    exact h.clears
  · rw [hstop, hdone]
    exact h.ends
  · rw [hdone, hflags]
    exact h.quiet
  · rw [hdone, hsize]
    exact h.size

/-! ### What a section leaves in the log -/

/-- `push` returns when it has had the mutex. -/
theorem Enters.returned_mem {k : ℕ} (h : Enters pool p o) (hk : .returned k ∈ o.events) :
  p = .notify k ∧ pool.locked = false
  := by
  cases h
  case notify hlocked =>
    obtain rfl := Event.returned.inj (List.mem_singleton.mp hk)
    exact ⟨rfl, hlocked⟩
  all_goals first
    | exact absurd hk List.not_mem_nil
    | cases List.mem_singleton.mp hk

theorem Enters.done_mem (h : Enters pool p o) (hmem : .done ∈ o.events) :
  pool.isDone = false ∧ pool.isStop = false ∧ o.shared.isDone = true
  := by
  cases h
  case stopWait hdone hstop => exact ⟨hdone, hstop, rfl⟩
  all_goals first
    | exact absurd hmem List.not_mem_nil
    | cases List.mem_singleton.mp hmem

theorem Enters.deleted_mem {k : ℕ} (h : Enters pool p o) (hk : .deleted k ∈ o.events) :
  k = pool.popped ∧ (p = .clear ∨ p = .clearRest)
  := by
  cases h
  case delete =>
    exact ⟨Event.deleted.inj (List.mem_singleton.mp hk), Or.inl rfl⟩
  case deleteRest =>
    exact ⟨Event.deleted.inj (List.mem_singleton.mp hk), Or.inr rfl⟩
  all_goals first
    | exact absurd hk List.not_mem_nil
    | cases List.mem_singleton.mp hk

/-- The number of a function that is pushed is below the length of the queue. -/
theorem Enters.notify_lt {k : ℕ} (h : Enters pool p o) (hk : o.point = .notify k) :
  k < o.shared.pushed.length
  := by
  cases h
  case push f =>
    obtain rfl := Point.notify.inj hk
    rw [List.length_append]
    apply Nat.lt_succ_self
  all_goals cases hk

/-- A thread has found the queue empty, and still has the mutex. -/
def Point.Failed : Point F → Prop
  | .readDone _ => True
  | .readFlag _ => True
  | .leave _ none => True
  | _ => False

theorem Point.Failed.locks (h : p.Failed) :
  p.Locks
  := by
  cases p
  case readDone => trivial
  case readFlag => trivial
  case leave => trivial
  all_goals cases h

theorem Enters.failed (h : Enters pool p o) (hfailed : o.point.Failed) :
  o.events = [] ∧ (p.Failed ∨ pool.pushed.length ≤ pool.popped)
  := by
  cases h
  case predicateNone hnone => exact ⟨rfl, Or.inr hnone⟩
  case isDone => exact ⟨rfl, Or.inl trivial⟩
  case isNotDone => exact ⟨rfl, Or.inl trivial⟩
  case flagged => exact ⟨rfl, Or.inl trivial⟩
  all_goals cases hfailed

/-- A thread leaves when it has read a command. -/
theorem Enters.leave_none {i : ℕ} (h : Enters pool p o) (hleave : o.point = .leave i none) :
  o.shared.isDone = true ∨ o.shared.flags i = true
  := by
  cases h
  case isDone hdone => exact Or.inl hdone
  case flagged hflag =>
    obtain ⟨rfl, -⟩ := Point.leave.inj hleave
    exact Or.inr hflag
  all_goals cases hleave

/-- A thread that exits has run a function and found its flag set, or leaves. -/
theorem Enters.exited_mem {i : ℕ} (h : Enters pool p o) (hi : i ∈ o.shared.exited) :
  i ∈ pool.exited ∨ (o.events = [] ∧ (o.shared.flags i = true ∨ p = .leave i none))
  := by
  cases h
  case ranLast hflag =>
    rcases Finset.mem_insert.mp hi with rfl | hi
    · exact Or.inr ⟨rfl, Or.inl hflag⟩
    · exact Or.inl hi
  case leaveNone =>
    rcases Finset.mem_insert.mp hi with rfl | hi
    · exact Or.inr ⟨rfl, Or.inr rfl⟩
    · exact Or.inl hi
  all_goals exact Or.inl hi

end

/-! ### Functions that have been promised -/

section

variable {T : Type*} {log new : List (T × Event)} {k : ℕ} {t : T}

/-- `push` has returned before `stop(true)` was called. -/
def Promised (log : List (T × Event)) (k : ℕ) : Prop :=
  ∃ before t after t', log = before ++ (t, .done) :: after ∧ (t', .returned k) ∈ before

theorem Promised.returned (h : Promised log k) :
  (∃ t, (t, .done) ∈ log) ∧ ∃ t, (t, .returned k) ∈ log
  := by
  obtain ⟨before, t, after, t', rfl, hk⟩ := h
  exact ⟨⟨t, List.mem_append_right _ List.mem_cons_self⟩, t', List.mem_append_left _ hk⟩

/-- What has been promised when something has happened. -/
theorem Promised.of_concat {e : T × Event} (h : Promised (log ++ [e]) k) :
  Promised log k ∨ (e.2 = .done ∧ ∃ t, (t, .returned k) ∈ log)
  := by
  obtain ⟨before, t, after, t', hlog, hk⟩ := h
  rcases List.eq_nil_or_concat after with rfl | ⟨after, last, rfl⟩
  · obtain ⟨rfl, hlast⟩ := List.append_inj' hlog rfl
    obtain ⟨rfl, -⟩ := List.cons.inj hlast
    exact Or.inr ⟨rfl, t', hk⟩
  · rw [List.concat_eq_append, ← List.cons_append, ← List.append_assoc] at hlog
    obtain ⟨rfl, -⟩ := List.append_inj' hlog rfl
    exact Or.inl ⟨before, t, after, t', rfl, hk⟩

variable {F : Type*} {pool : ThreadPool F} {p : Point F} {o : Result F}

theorem Enters.promised (ho : Enters pool p o)
    (h : Promised (log ++ o.events.map (fun e => (t, e))) k) :
  Promised log k ∨ (.done ∈ o.events ∧ ∃ t, (t, .returned k) ∈ log)
  := by
  rcases ho.events_cases with hevents | ⟨e, hevents, -⟩
  · rw [hevents, List.map_nil, List.append_nil] at h
    exact Or.inl h
  · rw [hevents] at h
    rcases h.of_concat with hbefore | ⟨rfl, hreturned⟩
    · exact Or.inl hbefore
    · right
      rw [hevents]
      exact ⟨List.mem_singleton_self _, hreturned⟩

/-- What has happened when a thread has entered. -/
theorem mem_section {e : T × Event} (h : e ∈ log ++ o.events.map (fun e => (t, e))) :
  e ∈ log ∨ e.2 ∈ o.events
  := by
  rcases List.mem_append.mp h with h | h
  · exact Or.inl h
  · obtain ⟨e, he, rfl⟩ := List.mem_map.mp h
    exact Or.inr he

end

/-! ### The invariant -/

section

variable {nThreads : ℕ} {U F : Type*} {pool : ThreadPool F}
  {point : Thread nThreads U → Point F} {t : Thread nThreads U} {o : Result F}
  {log : List (Thread nThreads U × Event)}

/-- A function whose `push` has returned is in the queue, and who has found the queue empty has
found it popped. -/
structure Returned (pool : ThreadPool F) (point : Thread nThreads U → Point F)
    (log : List (Thread nThreads U × Event)) : Prop where
  notify : ∀ t k, point t = .notify k → k < pool.pushed.length
  returned : ∀ t k, (t, .returned k) ∈ log → k < pool.pushed.length
  failed : ∀ t, (point t).Failed → ∀ t' k, (t', .returned k) ∈ log → k < pool.popped

/-- When `stop` returns, what has been promised has been run. -/
def KeepsPromise {T : Type*} (before : List (T × Event)) (e : T × Event) : Prop :=
  e.2 = .stopped → ∀ k, Promised before k → ∃ t, (t, .executed k) ∈ before

/-- What is known of the promised functions. -/
structure Kept (pool : ThreadPool F) (point : Thread nThreads U → Point F)
    (log : List (Thread nThreads U × Event)) : Prop where
  leaves : ∀ t i, point t = .leave i none → pool.isDone = true ∨ pool.flags i = true
  exited : ∀ i ∈ pool.exited,
    pool.flags i = true ∨ (pool.isDone = true ∧ ∀ k, Promised log k → k < pool.popped)
  done : ∀ t, (t, .done) ∈ log → pool.isDone = true
  deleted : ∀ t k, (t, .deleted k) ∈ log → pool.isStop = true ∨ pool.isDone = true
  kept : ∀ k, Promised log k → ∀ t, (t, .deleted k) ∉ log
  each : History.Each KeepsPromise log

/-- What is known altogether. -/
structure Reached (pool : ThreadPool F) (point : Thread nThreads U → Point F)
    (log : List (Thread nThreads U × Event)) : Prop where
  functions : Functions pool point log
  exclusive : Exclusive pool point
  commanded : Commanded pool (point .controller)
  returned : Returned pool point log
  kept : Kept pool point log

/-- When all threads of the pool have returned, what has been promised is no longer queued. -/
theorem Reached.popped (h : Reached pool point log) (hn : 0 < nThreads)
    (hall : pool.AllExited nThreads) {k : ℕ} (hk : Promised log k) :
  k < pool.popped
  := by
  obtain ⟨⟨t, hdone⟩, -⟩ := hk.returned
  rcases h.kept.exited 0 (hall 0 hn) with hflag | ⟨-, hpopped⟩
  · rw [h.commanded.quiet (h.kept.done t hdone) 0] at hflag
    cases hflag
  · apply hpopped k hk

/-- A thread at a point of the controller is the controller. -/
theorem Reached.controller (h : Reached pool point log) (hrole : (point t).role = .controller) :
  t = .controller
  := Thread.eq_controller ((h.functions.joined.role t).symm.trans hrole)

/-- What is deleted has not been promised. -/
theorem Reached.not_promised (h : Reached pool point log) (hn : 0 < nThreads)
    (hpoint : point t = .clear ∨ point t = .clearRest) :
  ¬ Promised log pool.popped
  := by
  intro hk
  have ht : t = .controller := by
    apply h.controller
    rcases hpoint with hpoint | hpoint <;> rw [hpoint] <;> rfl
  subst ht
  obtain ⟨⟨t, hdone⟩, -⟩ := hk.returned
  have hall : pool.AllExited nThreads := by
    rcases hpoint with hpoint | hpoint
    · rcases h.commanded.size (h.kept.done t hdone) with hzero | hends
      · rcases h.functions.joined.size with hsize | ⟨-, hall⟩
        · omega
        · exact hall
      · rw [hpoint] at hends
        cases hends
    · apply h.functions.joined.rest hpoint
  apply lt_irrefl _ (h.popped hn hall hk)

theorem Reached.exited (h : Reached pool point log) (ho : Enters pool (point t) o) {i : ℕ}
    (hi : i ∈ o.shared.exited) :
  o.shared.flags i = true ∨ (o.shared.isDone = true ∧
    ∀ k, Promised (log ++ o.events.map (fun e => (t, e))) k → k < o.shared.popped)
  := by
  rcases ho.exited_mem hi with hi | ⟨hevents, hflag | hleave⟩
  · rcases h.kept.exited i hi with hflag | ⟨hdone, hpopped⟩
    · exact Or.inl (ho.grows.flags i hflag)
    · right
      use ho.grows.isDone hdone
      intro k hk
      rcases ho.promised hk with hk | ⟨hmem, -⟩
      · apply (hpopped k hk).trans_le ho.grows.popped
      · rw [(ho.done_mem hmem).1] at hdone
        cases hdone
  · exact Or.inl hflag
  · rcases h.kept.leaves t i hleave with hdone | hflag
    · right
      use ho.grows.isDone hdone
      intro k hk
      rw [hevents, List.map_nil, List.append_nil] at hk
      obtain ⟨-, t', hreturned⟩ := hk.returned
      apply (h.returned.failed t _ t' k hreturned).trans_le ho.grows.popped
      rw [hleave]
      trivial
    · exact Or.inl (ho.grows.flags i hflag)

theorem Reached.deleted (h : Reached pool point log) (ho : Enters pool (point t) o)
    {t' : Thread nThreads U} {k : ℕ}
    (hk : (t', .deleted k) ∈ log ++ o.events.map (fun e => (t, e))) :
  o.shared.isStop = true ∨ o.shared.isDone = true
  := by
  have hbefore : pool.isStop = true ∨ pool.isDone = true := by
    rcases mem_section hk with hk | hk
    · apply h.kept.deleted t' k hk
    · obtain ⟨-, hpoint⟩ := ho.deleted_mem hk
      have ht : t = .controller := by
        apply h.controller
        rcases hpoint with hpoint | hpoint <;> rw [hpoint] <;> rfl
      subst ht
      rcases hpoint with hpoint | hpoint
      · left
        apply h.commanded.clears
        rw [hpoint]
        trivial
      · apply h.commanded.ends
        rw [hpoint]
        trivial
  rcases hbefore with hstop | hdone
  · exact Or.inl (ho.grows.isStop hstop)
  · exact Or.inr (ho.grows.isDone hdone)

theorem Reached.keeps (h : Reached pool point log) (hn : 0 < nThreads)
    (ho : Enters pool (point t) o) {k : ℕ}
    (hk : Promised (log ++ o.events.map (fun e => (t, e))) k) (t' : Thread nThreads U) :
  (t', .deleted k) ∉ log ++ o.events.map (fun e => (t, e))
  := by
  intro hdeleted
  rcases ho.promised hk with hk | ⟨hmem, -⟩
  · rcases mem_section hdeleted with hdeleted | hdeleted
    · apply h.kept.kept k hk t' hdeleted
    · obtain ⟨rfl, hpoint⟩ := ho.deleted_mem hdeleted
      apply h.not_promised hn hpoint hk
  · obtain ⟨hdone, hstop, -⟩ := ho.done_mem hmem
    rcases mem_section hdeleted with hdeleted | hdeleted
    · rcases h.kept.deleted t' k hdeleted with htrue | htrue
      · rw [htrue] at hstop
        cases hstop
      · rw [htrue] at hdone
        cases hdone
    · rcases ho.events_cases with hevents | ⟨e, hevents, -⟩
      · rw [hevents] at hmem
        cases hmem
      · rw [hevents, List.mem_singleton] at hmem hdeleted
        rw [← hmem] at hdeleted
        cases hdeleted

/-- What has been taken has been run or deleted. -/
theorem mem_taken {T : Type*} {log : List (T × Event)} {k : ℕ} (h : k ∈ taken log) :
  ∃ t, (t, .executed k) ∈ log ∨ (t, .deleted k) ∈ log
  := by
  obtain ⟨⟨t, e⟩, hmem, he⟩ := List.mem_filterMap.mp h
  use t
  cases e <;> cases he
  · exact Or.inl hmem
  · exact Or.inr hmem

/-- When all threads of the pool have returned, what has been promised has been run. -/
theorem Reached.executed (h : Reached pool point log) (hn : 0 < nThreads)
    (hall : pool.AllExited nThreads) {k : ℕ} (hk : Promised log k) :
  ∃ t, (t, .executed k) ∈ log
  := by
  have hperm := h.functions.settled.dealt.perm_range (h.functions.joined.idle hall)
  have htaken : k ∈ taken log := by
    apply hperm.mem_iff.mpr
    apply List.mem_range.mpr (h.popped hn hall hk)
  obtain ⟨t, hexecuted | hdeleted⟩ := mem_taken htaken
  · exact ⟨t, hexecuted⟩
  · exact absurd hdeleted (h.kept.kept k hk t)

theorem Reached.each (h : Reached pool point log) (hn : 0 < nThreads)
    (ho : Enters pool (point t) o) :
  History.Each KeepsPromise (log ++ o.events.map (fun e => (t, e)))
  := by
  rcases ho.events_cases with hevents | ⟨e, hevents, hstopped⟩
  · rw [hevents, List.map_nil, List.append_nil]
    exact h.kept.each
  · rw [hevents]
    apply h.kept.each.concat
    intro he k hk
    obtain ⟨hrest, -⟩ := hstopped he
    have ht : t = .controller := by
      apply h.controller
      rw [hrest]
      rfl
    subst ht
    apply h.executed hn (h.functions.joined.rest hrest) hk

theorem start_reached :
  Reached (ThreadPool.init nThreads) (Thread.point : Thread nThreads U → Point F) []
  := by
  constructor
  case functions => exact start_functions
  case exclusive =>
    intro t ht
    cases t <;> cases ht
  case commanded => exact ⟨nofun, nofun, nofun, nofun, nofun⟩
  case returned =>
    refine ⟨?_, nofun, nofun⟩
    intro t k ht
    cases t <;> cases ht
  case kept =>
    constructor
    case leaves =>
      intro t i ht
      cases t <;> cases ht
    case exited => exact fun i hi => absurd hi (Finset.notMem_empty i)
    case done => exact nofun
    case deleted => exact nofun
    case kept =>
      intro k hk
      obtain ⟨⟨t, ht⟩, -⟩ := hk.returned
      cases ht
    case each => exact History.each_nil

variable [DecidableEq U]

theorem Returned.section (h : Returned pool point log) (hexclusive : Exclusive pool point)
    (ho : Enters pool (point t) o) :
  Returned o.shared (Function.update point t o.point)
    (log ++ o.events.map (fun e => (t, e)))
  := by
  have hlength := ho.grows.length_le
  constructor
  case notify =>
    intro t' k hk
    rcases eq_or_ne t' t with rfl | hne
    · rw [Function.update_self] at hk
      apply ho.notify_lt hk
    · rw [Function.update_of_ne hne] at hk
      apply (h.notify t' k hk).trans_le hlength
  case returned =>
    intro t' k hk
    rcases mem_section hk with hk | hk
    · apply (h.returned t' k hk).trans_le hlength
    · obtain ⟨hpoint, -⟩ := ho.returned_mem hk
      apply (h.notify t k hpoint).trans_le hlength
  case failed =>
    intro t' hfailed t₁ k hk
    apply lt_of_lt_of_le _ ho.grows.popped
    rcases eq_or_ne t' t with rfl | hne
    · rw [Function.update_self] at hfailed
      obtain ⟨hevents, hbefore⟩ := ho.failed hfailed
      rw [hevents, List.map_nil, List.append_nil] at hk
      rcases hbefore with hbefore | hempty
      · apply h.failed t' hbefore t₁ k hk
      · apply (h.returned t₁ k hk).trans_le hempty
    · rw [Function.update_of_ne hne] at hfailed
      rcases mem_section hk with hk | hk
      · apply h.failed t' hfailed t₁ k hk
      · obtain ⟨-, hfree⟩ := ho.returned_mem hk
        rw [(hexclusive t' hfailed.locks).1] at hfree
        cases hfree

theorem Reached.leaves (h : Reached pool point log) (ho : Enters pool (point t) o)
    {t' : Thread nThreads U} {i : ℕ}
    (hleave : Function.update point t o.point t' = .leave i none) :
  o.shared.isDone = true ∨ o.shared.flags i = true
  := by
  rcases eq_or_ne t' t with rfl | hne
  · rw [Function.update_self] at hleave
    apply ho.leave_none hleave
  · rw [Function.update_of_ne hne] at hleave
    rcases h.kept.leaves t' i hleave with hdone | hflag
    · exact Or.inl (ho.grows.isDone hdone)
    · exact Or.inr (ho.grows.flags i hflag)

theorem Reached.section (h : Reached pool point log) (hn : 0 < nThreads)
    (ho : Enters pool (point t) o) :
  Reached o.shared (Function.update point t o.point)
    (log ++ o.events.map (fun e => (t, e)))
  := by
  constructor
  case functions => exact h.functions.section ho
  case exclusive => exact h.exclusive.section ho
  case commanded =>
    rcases eq_or_ne t .controller with rfl | hne
    · rw [Function.update_self]
      apply h.commanded.step ho (h.functions.joined.role .controller)
    · rw [Function.update_of_ne hne.symm]
      apply h.commanded.same (ho.commands (fun hrole => hne (h.controller hrole)))
  case returned => exact h.returned.section h.exclusive ho
  case kept =>
    constructor
    case leaves => exact fun t' i => h.leaves ho
    case exited => exact fun i => h.exited ho
    case done =>
      intro t' ht'
      rcases mem_section ht' with ht' | ht'
      · apply ho.grows.isDone (h.kept.done t' ht')
      · exact (ho.done_mem ht').2.2
    case deleted => exact fun t' k => h.deleted ho
    case kept => exact fun k => h.keeps hn ho
    case each => exact h.each hn ho

/-! ### Every run -/

variable {moves : List (Monitor.Move (Thread nThreads U) Cond (Call F))}
  {s : State nThreads U F}

theorem reached_of_final (hn : 0 < nThreads)
    (hfinal : ((monitor F).threads (Thread nThreads U)).final start moves = some s) :
  Reached s.shared s.point s.log
  := by
  apply Monitor.final_invariant (fun pool point log => Reached pool point log) _
    start_reached hfinal
  intro pool point log t call o h ho
  exact h.section hn (enters_of_enter ho)

/-- In every run of a pool with at least one thread, when a `stop(true)` that has set `isDone`
returns, every function whose `push` had returned before that has been run. -/
theorem executed_of_stopped (hn : 0 < nThreads)
    (hfinal : ((monitor F).threads (Thread nThreads U)).final start moves = some s)
    {before between after : List (Thread nThreads U × Event)} {t t' t₁ : Thread nThreads U}
    {k : ℕ} (hlog : s.log = before ++ (t, .done) :: between ++ (t', .stopped) :: after)
    (hk : (t₁, .returned k) ∈ before) :
  ∃ t₂, (t₂, .executed k) ∈ before ++ (t, .done) :: between
  := by
  have hkeeps := (reached_of_final hn hfinal).kept.each _ _ _ hlog rfl
  apply hkeeps k ⟨before, t, between, t₁, rfl, hk⟩

/-- A function that is queued when `stop(true)` is called. -/
theorem executed_of_stopped_one :
  ∃ s, ((monitor ℕ).threads (Thread 1 Unit)).final start
      [.enter (.client ()) (.push 5) (fun _ => none),
        .enter (.client ()) (.push 5) (fun _ => none),
        .enter .controller (.stop true) (fun _ => none),
        .enter .controller (.stop true) (fun _ => none),
        .enter (.worker 0) (.push 0) (fun _ => none), .enter (.worker 0) (.push 0) (fun _ => none),
        .enter (.worker 0) (.push 0) (fun _ => none), .enter (.worker 0) (.push 0) (fun _ => none),
        .enter (.worker 0) (.push 0) (fun _ => none), .enter (.worker 0) (.push 0) (fun _ => none),
        .enter (.worker 0) (.push 0) (fun _ => none), .enter (.worker 0) (.push 0) (fun _ => none),
        .enter .controller (.stop true) (fun _ => none),
        .enter .controller (.stop true) (fun _ => none),
        .enter .controller (.stop true) (fun _ => none)] = some s ∧
    ∃ before between, s.log =
      before ++ (.controller, .done) :: between ++ (.controller, .stopped) :: [] ∧
    (.client (), .returned 0) ∈ before ∧
    ∃ t, (t, .executed 0) ∈ before ++ (.controller, .done) :: between
  := by
  apply Machine.exists_final (by decide)
  intro s hs
  have hlog : s.log =
      [(.client (), .pushed 0), (.client (), .returned 0)] ++
        (.controller, .done) :: [(.worker 0, .executed 0)] ++ (.controller, .stopped) :: [] := by
    revert s
    decide
  have hreturned : (.client (), .returned 0) ∈
      [((.client (), .pushed 0) : Thread 1 Unit × Event), (.client (), .returned 0)] := by decide
  exact ⟨_, _, hlog, hreturned, executed_of_stopped (by decide) hs hlog hreturned⟩

end

end Ctpl
