import Orgrim.Ctpl.Steps
import Orgrim.Theory.Dealing

/-!
# What becomes of the functions

A function that has been popped is in the hands of one thread of the pool, or has been run or
deleted, once (`Settled`).  A `stop` that joins the threads ends when all of them have returned
(`Joined`) and the queue is empty, so that each function pushed until then has been run or deleted
exactly once (`settled_of_stopped`).
-/

namespace Ctpl

section

variable {T F : Type*}

/-- The function that is pushed. -/
def Event.pushedNumber : Event → Option ℕ
  | .pushed k => some k
  | _ => none

/-- The function that is run or deleted. -/
def Event.takenNumber : Event → Option ℕ
  | .executed k => some k
  | .deleted k => some k
  | _ => none

/-- The functions that have been pushed. -/
def pushed (log : List (T × Event)) : List ℕ := History.select Event.pushedNumber log

/-- The functions that have been run or deleted. -/
def taken (log : List (T × Event)) : List ℕ := History.select Event.takenNumber log

/-- The function that a thread has popped and not yet run. -/
def Point.hand : Point F → Option ℕ
  | .run _ k _ => some k
  | .leave _ (some (k, _)) => some k
  | _ => none

/-- What is known of the functions. -/
structure Settled (pool : ThreadPool F) (point : T → Point F) (log : List (T × Event)) :
    Prop where
  pushed : Ctpl.pushed log = List.range pool.pushed.length
  le : pool.popped ≤ pool.pushed.length
  dealt : Dealt pool.popped (fun t => (point t).hand) (taken log)

/-- What a thread does with the functions. -/
inductive Moves (pool : ThreadPool F) (p : Point F) (o : Result F) : Prop
  | same : o.shared.pushed = pool.pushed → o.shared.popped = pool.popped →
      o.point.hand = p.hand → o.events.filterMap Event.pushedNumber = [] →
      o.events.filterMap Event.takenNumber = [] → Moves pool p o
  | push : o.shared.pushed.length = pool.pushed.length + 1 → o.shared.popped = pool.popped →
      o.point.hand = p.hand → o.events = [.pushed pool.pushed.length] → Moves pool p o
  | pop : pool.popped < pool.pushed.length → o.shared.pushed = pool.pushed →
      o.shared.popped = pool.popped + 1 → p.hand = none → o.point.hand = some pool.popped →
      o.events = [] → Moves pool p o
  | execute {k : ℕ} : o.shared.pushed = pool.pushed → o.shared.popped = pool.popped →
      p.hand = some k → o.point.hand = none → o.events = [.executed k] → Moves pool p o
  | delete : pool.popped < pool.pushed.length → o.shared.pushed = pool.pushed →
      o.shared.popped = pool.popped + 1 → o.point.hand = p.hand →
      o.events = [.deleted pool.popped] → Moves pool p o

theorem Enters.moves {pool : ThreadPool F} {p : Point F} {o : Result F} (h : Enters pool p o) :
  Moves pool p o
  := by
  cases h
  case push f => exact .push List.length_append rfl rfl rfl
  case popTask hf => exact .pop (popped_lt hf) rfl rfl rfl rfl rfl
  case predicateTask hf => exact .pop (popped_lt hf) rfl rfl rfl rfl rfl
  case run => exact .execute rfl rfl rfl rfl rfl
  case delete hf => exact .delete (popped_lt hf) rfl rfl rfl rfl
  case deleteRest hf => exact .delete (popped_lt hf) rfl rfl rfl rfl
  all_goals exact .same rfl rfl rfl rfl rfl

end

section

variable {T F : Type*} [DecidableEq T] {pool : ThreadPool F} {point : T → Point F}
  {log : List (T × Event)} {t : T} {o : Result F} {p : Point F}

/-- The hands of the threads, when one of them has moved. -/
theorem hand_update :
  (fun t' => (Function.update point t p t').hand) =
    Function.update (fun t' => (point t').hand) t p.hand
  := by
  ext1 t'
  rcases eq_or_ne t' t with rfl | hne
  · rw [Function.update_self, Function.update_self]
  · rw [Function.update_of_ne hne, Function.update_of_ne hne]

/-- A thread that keeps what it has in hand. -/
theorem hand_update_of_eq (hp : p.hand = (point t).hand) :
  (fun t' => (Function.update point t p t').hand) = fun t' => (point t').hand
  := by
  rw [hand_update, hp]
  apply Function.update_eq_self

/-- What a thread that enters preserves. -/
theorem Settled.section (h : Settled pool point log) (ho : Enters pool (point t) o) :
  Settled o.shared (Function.update point t o.point) (log ++ o.events.map (fun e => (t, e)))
  := by
  have htaken : taken (log ++ o.events.map (fun e => (t, e))) =
      taken log ++ o.events.filterMap Event.takenNumber := by
    simp only [taken, History.select_append, History.select_events]
  have hpushed : Ctpl.pushed (log ++ o.events.map (fun e => (t, e))) =
      List.range pool.pushed.length ++ o.events.filterMap Event.pushedNumber := by
    rw [← h.pushed]
    simp only [Ctpl.pushed, History.select_append, History.select_events]
  have hdealt := h.dealt
  cases ho.moves with
  | same hp hq hhand hnone hkeep =>
      constructor
      case pushed => rw [hpushed, hnone, List.append_nil, hp]
      case le => rw [hp, hq]; exact h.le
      case dealt =>
        rw [htaken, hkeep, List.append_nil, hq, hand_update_of_eq hhand]
        exact hdealt
  | push hp hq hhand hevents =>
      constructor
      case pushed =>
        rw [hpushed, hevents, hp, List.range_succ]
        rfl
      case le => rw [hp, hq]; exact h.le.trans (Nat.le_succ _)
      case dealt =>
        rw [htaken, hevents, hq, hand_update_of_eq hhand]
        exact (List.append_nil (taken log)).symm ▸ hdealt
  | pop hlt hp hq hidle hhand hevents =>
      constructor
      case pushed => rw [hpushed, hevents, List.filterMap_nil, List.append_nil, hp]
      case le => rw [hp, hq]; exact hlt
      case dealt =>
        rw [htaken, hevents, List.filterMap_nil, List.append_nil, hq, hand_update, hhand]
        apply hdealt.deal hidle
  | execute hp hq hbusy hhand hevents =>
      constructor
      case pushed =>
        rw [hpushed, hevents, hp]
        apply List.append_nil
      case le => rw [hp, hq]; exact h.le
      case dealt =>
        rw [htaken, hevents, hq, hand_update, hhand]
        apply hdealt.putAway hbusy
  | delete hlt hp hq hhand hevents =>
      constructor
      case pushed =>
        rw [hpushed, hevents, hp]
        apply List.append_nil
      case le => rw [hp, hq]; exact hlt
      case dealt =>
        rw [htaken, hevents, hq, hand_update_of_eq hhand]
        apply hdealt.discard

end

/-! ### The threads of the pool -/

section

variable {nThreads : ℕ} {U F : Type*}

/-- The side of a thread. -/
def Thread.role : Thread nThreads U → Role
  | .worker i => .worker i
  | .client _ => .client
  | .controller => .controller

theorem Thread.eq_worker {t : Thread nThreads U} {i : Fin nThreads} (h : t.role = .worker i) :
  t = .worker i
  := by
  cases t with
  | worker j =>
      obtain rfl := Fin.ext (Role.worker.inj h)
      rfl
  | client u => cases h
  | controller => cases h

theorem Thread.eq_controller {t : Thread nThreads U} (h : t.role = .controller) :
  t = .controller
  := by
  cases t with
  | worker i => cases h
  | client u => cases h
  | controller => rfl

/-- All threads of the pool have returned. -/
def ThreadPool.AllExited (pool : ThreadPool F) (nThreads : ℕ) : Prop :=
  ∀ i < nThreads, i ∈ pool.exited

/-- What is known of the threads: each is on its side, those that have exited have returned, and
who joins them has come as far as they have. -/
structure Joined (pool : ThreadPool F) (point : Thread nThreads U → Point F) : Prop where
  role : ∀ t, (point t).role = t.role
  returned : ∀ i : Fin nThreads, ↑i ∈ pool.exited → point (.worker i) = .returned i
  size : pool.size = nThreads ∨ (pool.size = 0 ∧ pool.AllExited nThreads)
  join : ∀ i, point .controller = .join i → ∀ j < i, j < nThreads → j ∈ pool.exited
  rest : point .controller = .clearRest → pool.AllExited nThreads

end

section

variable {F : Type*} {pool : ThreadPool F} {p : Point F} {o : Result F}

/-- A thread exits when it returns, and has nothing to do any more. -/
theorem Enters.exits (h : Enters pool p o) :
  (∀ i, p ≠ .returned i) ∧
    (o.shared.exited = pool.exited ∨
      ∃ i, p.role = .worker i ∧ o.point = .returned i ∧
        o.shared.exited = insert i pool.exited)
  := by
  constructor
  · rintro i rfl
    cases h
  · cases h
    case ranLast i hflag => exact Or.inr ⟨i, rfl, rfl, rfl⟩
    case leaveNone i => exact Or.inr ⟨i, rfl, rfl, rfl⟩
    all_goals exact Or.inl rfl

theorem Enters.size (h : Enters pool p o) :
  o.shared.size = pool.size ∨ (p = .clearRest ∧ o.shared.size = 0)
  := by
  cases h
  case stopped => exact Or.inr ⟨rfl, rfl⟩
  all_goals exact Or.inl rfl

/-- Who joins the next thread has joined the one before. -/
theorem Enters.join_cases {i : ℕ} (h : Enters pool p o) (hi : o.point = .join i) :
  i = 0 ∨ ∃ j, i = j + 1 ∧ p = .join j ∧ j ∈ pool.exited
  := by
  cases h
  case notifyAll => exact Or.inl (Point.join.inj hi).symm
  case join j hj hexited => exact Or.inr ⟨j, (Point.join.inj hi).symm, rfl, hexited⟩
  all_goals cases hi

theorem Enters.rest_cases (h : Enters pool p o) (hrest : o.point = .clearRest) :
  p = .clearRest ∨ ∃ i, p = .join i ∧ pool.size ≤ i
  := by
  cases h
  case deleteRest => exact Or.inl rfl
  case joined i hi => exact Or.inr ⟨i, rfl, hi⟩
  all_goals cases hrest

/-- A section leaves one event at most; `stop` returns when the queue is empty. -/
theorem Enters.events_cases (h : Enters pool p o) :
  o.events = [] ∨ ∃ e, o.events = [e] ∧
    (e = .stopped → p = .clearRest ∧ pool.pushed.length ≤ pool.popped)
  := by
  cases h
  case run => exact Or.inr ⟨_, rfl, nofun⟩
  case push => exact Or.inr ⟨_, rfl, nofun⟩
  case notify => exact Or.inr ⟨_, rfl, nofun⟩
  case stopWait => exact Or.inr ⟨_, rfl, nofun⟩
  case delete => exact Or.inr ⟨_, rfl, nofun⟩
  case deleteRest => exact Or.inr ⟨_, rfl, nofun⟩
  case stopped hnone => exact Or.inr ⟨_, rfl, fun _ => ⟨rfl, hnone⟩⟩
  all_goals exact Or.inl rfl

end

section

variable {nThreads : ℕ} {U F : Type*} [DecidableEq U] {pool : ThreadPool F}
  {point : Thread nThreads U → Point F} {t : Thread nThreads U} {o : Result F}
  {log : List (Thread nThreads U × Event)}

/-- The controller is where it was, or it is the one that moves. -/
theorem controller_update {p q : Point F} (h : Function.update point t p .controller = q) :
  (t = .controller ∧ p = q) ∨ point .controller = q
  := by
  rcases eq_or_ne t .controller with rfl | hne
  · exact Or.inl ⟨rfl, by rw [← h, Function.update_self]⟩
  · exact Or.inr (by rw [← h, Function.update_of_ne hne.symm])

/-- What a thread that enters preserves. -/
theorem Joined.section (h : Joined pool point) (ho : Enters pool (point t) o) :
  Joined o.shared (Function.update point t o.point)
  := by
  have hexited := ho.grows.exited
  obtain ⟨hnot, hexits⟩ := ho.exits
  constructor
  case role =>
    intro t'
    rcases eq_or_ne t' t with rfl | hne
    · rw [Function.update_self, ho.role, h.role]
    · rw [Function.update_of_ne hne, h.role]
  case returned =>
    intro i hi
    have hbefore : ↑i ∈ pool.exited →
        Function.update point t o.point (.worker i) = .returned i := by
      intro hi
      have hpoint := h.returned i hi
      rw [Function.update_of_ne]
      · exact hpoint
      · rintro rfl
        apply hnot i hpoint
    rcases hexits with hsame | ⟨j, hrole, hpoint, hinsert⟩
    · apply hbefore (hsame ▸ hi)
    · rw [hinsert] at hi
      rcases Finset.mem_insert.mp hi with heq | hi
      · rw [h.role, ← heq] at hrole
        rw [Thread.eq_worker hrole, Function.update_self, hpoint, heq]
      · apply hbefore hi
  case size =>
    rcases ho.size with hsame | ⟨hrest, hzero⟩
    · rw [hsame]
      rcases h.size with hsize | ⟨hzero, hall⟩
      · exact Or.inl hsize
      · exact Or.inr ⟨hzero, fun i hi => hexited (hall i hi)⟩
    · right
      use hzero
      have hrole := h.role t
      rw [hrest] at hrole
      rw [Thread.eq_controller hrole.symm] at hrest
      exact fun i hi => hexited (h.rest hrest i hi)
  case join =>
    intro i hi j hj hlt
    apply hexited
    rcases controller_update hi with ⟨rfl, hi⟩ | hi
    · rcases ho.join_cases hi with rfl | ⟨i, rfl, hbefore, hmem⟩
      · exact absurd hj (Nat.not_lt_zero j)
      · rcases Nat.lt_succ_iff_lt_or_eq.mp hj with hj | rfl
        · apply h.join i hbefore j hj hlt
        · exact hmem
    · apply h.join i hi j hj hlt
  case rest =>
    intro hrest i hi
    apply hexited
    rcases controller_update hrest with ⟨rfl, hrest⟩ | hrest
    · rcases ho.rest_cases hrest with hbefore | ⟨j, hbefore, hle⟩
      · apply h.rest hbefore i hi
      · rcases h.size with hsize | ⟨-, hall⟩
        · apply h.join j hbefore i (hi.trans_le (hsize ▸ hle)) hi
        · apply hall i hi
    · apply h.rest hrest i hi

omit [DecidableEq U] in
/-- When all threads of the pool have returned, nobody has a function in hand. -/
theorem Joined.idle (h : Joined pool point) (hall : pool.AllExited nThreads)
    (t : Thread nThreads U) :
  (point t).hand = none
  := by
  cases t with
  | worker i =>
      rw [h.returned i (hall i i.isLt)]
      rfl
  | client u =>
      have hrole := h.role (.client u)
      cases hp : point (.client u) <;> rw [hp] at hrole
      case client => rfl
      case notify k => rfl
      all_goals cases hrole
  | controller =>
      have hrole := h.role .controller
      cases hp : point .controller <;> rw [hp] at hrole
      all_goals first | rfl | cases hrole

/-- When `stop` returns, every function has been taken. -/
def AllTaken {T : Type*} (before : List (T × Event)) (e : T × Event) : Prop :=
  e.2 = .stopped → (taken before).Perm (pushed before)

/-- What is known of the pool, its threads and the functions. -/
structure Functions (pool : ThreadPool F) (point : Thread nThreads U → Point F)
    (log : List (Thread nThreads U × Event)) : Prop where
  settled : Settled pool point log
  joined : Joined pool point
  each : History.Each AllTaken log

theorem Functions.section (h : Functions pool point log) (ho : Enters pool (point t) o) :
  Functions o.shared (Function.update point t o.point)
    (log ++ o.events.map (fun e => (t, e)))
  := by
  refine ⟨h.settled.section ho, h.joined.section ho, ?_⟩
  rcases ho.events_cases with hevents | ⟨e, hevents, hstopped⟩
  · rw [hevents, List.map_nil, List.append_nil]
    exact h.each
  · rw [hevents]
    apply h.each.concat
    intro he
    obtain ⟨hrest, hnone⟩ := hstopped he
    have hrole := h.joined.role t
    rw [hrest] at hrole
    rw [Thread.eq_controller hrole.symm] at hrest
    rw [h.settled.pushed, le_antisymm hnone h.settled.le]
    exact h.settled.dealt.perm_range (h.joined.idle (h.joined.rest hrest))

omit [DecidableEq U] in
theorem start_functions :
  Functions (ThreadPool.init nThreads) (Thread.point : Thread nThreads U → Point F) []
  := by
  constructor
  case settled =>
    refine ⟨rfl, le_refl 0, ?_⟩
    have hhand : (fun t => (Thread.point t : Point F).hand) =
        fun _ : Thread nThreads U => none := by
      ext1 t
      cases t <;> rfl
    rw [hhand]
    exact Dealt.empty
  case joined =>
    constructor
    case role =>
      intro t
      cases t <;> rfl
    case returned => exact fun i hi => absurd hi (Finset.notMem_empty _)
    case size => exact Or.inl rfl
    case join => exact fun i hi => nomatch hi
    case rest => exact nofun
  case each => exact History.each_nil

/-! ### Every run -/

variable {moves : List (Monitor.Move (Thread nThreads U) Cond (Call F))}
  {s : State nThreads U F}

theorem functions_of_final
    (hfinal : ((monitor F).threads (Thread nThreads U)).final start moves = some s) :
  Functions s.shared s.point s.log
  := by
  apply Monitor.final_invariant (fun pool point log => Functions pool point log) _
    start_functions hfinal
  intro pool point log t call o h ho
  exact h.section (enters_of_enter ho)

/-- In every run, a function is run or deleted once at most, after it has been pushed; and when a
`stop` that joins the threads, whether it waits for the functions or not, finds the queue empty, each
function that has been pushed until then has been run or deleted. -/
theorem settled_of_stopped
    (hfinal : ((monitor F).threads (Thread nThreads U)).final start moves = some s) :
  (taken s.log).Nodup ∧ taken s.log ⊆ pushed s.log ∧
    ∀ before t after, s.log = before ++ (t, .stopped) :: after →
      (taken before).Perm (pushed before)
  := by
  have h := functions_of_final hfinal
  refine ⟨h.settled.dealt.nodup, ?_, ?_⟩
  · intro k hk
    rw [h.settled.pushed]
    apply List.mem_range.mpr ((h.settled.dealt.lt_of_mem k hk).trans_le h.settled.le)
  · intro before t after hlog
    exact h.each before _ after hlog rfl

/-- One function is run, the other one deleted by `stop(false)`. -/
theorem settled_of_stopped_two :
  ∃ s, ((monitor ℕ).threads (Thread 1 Unit)).final start
      [.enter (.client ()) (.push 5) (fun _ => none),
        .enter (.client ()) (.push 5) (fun _ => none),
        .enter (.worker 0) (.push 0) (fun _ => none), .enter (.worker 0) (.push 0) (fun _ => none),
        .enter (.client ()) (.push 6) (fun _ => none),
        .enter (.client ()) (.push 6) (fun _ => none),
        .enter .controller (.stop false) (fun _ => none),
        .enter .controller (.stop false) (fun _ => none),
        .enter .controller (.stop false) (fun _ => none),
        .enter .controller (.stop false) (fun _ => none),
        .enter .controller (.stop false) (fun _ => none),
        .enter .controller (.stop false) (fun _ => none),
        .enter (.worker 0) (.push 0) (fun _ => none),
        .enter .controller (.stop false) (fun _ => none),
        .enter .controller (.stop false) (fun _ => none),
        .enter .controller (.stop false) (fun _ => none)] = some s ∧
    s.log = [(.client (), .pushed 0), (.client (), .returned 0), (.worker 0, .executed 0),
      (.client (), .pushed 1), (.client (), .returned 1), (.controller, .deleted 1),
      (.controller, .stopped)] ∧
    (taken s.log).Nodup ∧ taken s.log ⊆ pushed s.log ∧
    ∀ before t after, s.log = before ++ (t, .stopped) :: after →
      (taken before).Perm (pushed before)
  := by
  apply Machine.exists_final (by decide)
  intro s hs
  refine ⟨?_, settled_of_stopped hs⟩
  revert s
  decide

end

end Ctpl
