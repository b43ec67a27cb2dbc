import Mathlib.Data.Finset.Card
import Mathlib.Data.List.Nodup
import Orgrim.TaskPool.Pool

/-!
# The order of the tasks

The queue is circular and nothing checks that it is not full.  The task that a thread picks is
therefore the newest one of those that share a place with the one whose turn it is (`newest`);
tasks are picked in the order in which they were added as long as at most `TASK_QUEUE_MAX` of them
are pending, and, if they are all different, no longer (`picked_in_order_iff`).  `pool_wait`
returns when all tasks that were picked have been executed, whatever is in the queue
(`executed_of_waited`).
-/

namespace TaskPool

/-! ### What the log tells -/

section

variable {T F A : Type*}

/-- The task that an event puts into the queue. -/
def Event.addedTask : Event F A → Option (TaskData F A)
  | .added task => some task
  | _ => none

/-- The task that an event takes out of the queue. -/
def Event.pickedTask : Event F A → Option (TaskData F A)
  | .picked task => some task
  | _ => none

/-- The task that has been run. -/
def Event.executedTask : Event F A → Option (TaskData F A)
  | .executed task => some task
  | _ => none

/-- The tasks that have been put into the queue. -/
def added (log : List (T × Event F A)) : List (TaskData F A) :=
  History.select Event.addedTask log

/-- The tasks that threads have picked. -/
def picked (log : List (T × Event F A)) : List (TaskData F A) :=
  History.select Event.pickedTask log

/-- The tasks that threads have run. -/
def executed (log : List (T × Event F A)) : List (TaskData F A) :=
  History.select Event.executedTask log

/-- Of `n` tasks, the newest one that shares a place with task `m`. -/
def newest (m n : ℕ) : ℕ := m + taskQueueMax * ((n - 1 - m) / taskQueueMax)

/-- The task that is picked is the newest one in its place; when `pool_wait` returns, every thread
has executed what it has picked. -/
def Right [DecidableEq T] (before : List (T × Event F A)) (e : T × Event F A) : Prop :=
  match e.2 with
  | .picked task =>
      (picked before).length < (added before).length ∧
        (added before)[newest (picked before).length (added before).length]? = some task
  | .waited =>
      ∀ t, picked (History.doneBy t before) = executed (History.doneBy t before)
  | _ => True

/-- No more tasks are pending than there is room for, when one is picked. -/
def Fits (before : List (T × Event F A)) (e : T × Event F A) : Prop :=
  match e.2 with
  | .picked _ => (added before).length ≤ (picked before).length + taskQueueMax
  | _ => True

end

/-! ### Places of the queue -/

section

variable {m n j : ℕ}

theorem slot_natCast :
  ThreadPool.slot n = n % taskQueueMax
  := by
  rw [ThreadPool.slot, ← Int.natCast_emod, Int.toNat_natCast]

theorem newest_mod :
  newest m n % taskQueueMax = m % taskQueueMax
  := Nat.add_mul_mod_self_left ..

theorem newest_lt (h : m < n) :
  newest m n < n
  := by
  have hmul := Nat.mul_div_le (n - 1 - m) taskQueueMax
  rw [newest]
  omega

theorem le_newest (h : m < n) :
  n ≤ newest m n + taskQueueMax
  := by
  have hdiv := Nat.div_add_mod (n - 1 - m) taskQueueMax
  have hmod : (n - 1 - m) % taskQueueMax < taskQueueMax := Nat.mod_lt _ (by decide)
  rw [newest]
  omega

/-- The task whose turn it is is still in its place exactly when the queue has had room for those
that came after it. -/
theorem newest_eq_iff (h : m < n) :
  newest m n = m ↔ n ≤ m + taskQueueMax
  := by
  constructor
  · intro heq
    rw [← heq]
    exact (le_newest h).trans (by rw [heq])
  · intro hle
    have hzero : (n - 1 - m) / taskQueueMax = 0 := Nat.div_eq_of_lt (by omega)
    rw [newest, hzero, Nat.mul_zero, Nat.add_zero]

/-- Another of the newest tasks has another place. -/
theorem mod_ne (hj : j < n) (hle : n + 1 ≤ j + taskQueueMax) :
  j % taskQueueMax ≠ n % taskQueueMax
  := by
  rw [taskQueueMax] at hle ⊢
  omega

end

/-! ### The invariant -/

section

variable {T F A : Type*}

/-- A thread is between picking a task and counting it as done. -/
def Point.Busy : Point F A → Prop
  | .run _ => True
  | .ran => True
  | _ => False

/-- The task that a thread is about to run. -/
def Point.pending : Point F A → List (TaskData F A)
  | .run task => [task]
  | _ => []

/-- What holds of the queue. -/
structure ThreadPool.Queued (pool : ThreadPool F A) (tasks : List (TaskData F A)) (m : ℕ) :
    Prop where
  head : pool.queueHead = m
  tail : pool.queueTail = tasks.length
  le : m ≤ tasks.length
  slots : ∀ j < tasks.length, tasks.length ≤ j + taskQueueMax →
    tasks[j]? = some (pool.taskQueue (j % taskQueueMax))

/-- `scheduled` counts the threads that are busy. -/
def Counted (pool : ThreadPool F A) (point : T → Point F A) : Prop :=
  ∃ busy : Finset T, (∀ t, t ∈ busy ↔ (point t).Busy) ∧ pool.scheduled = busy.card

/-- Every thread has executed what it has picked, but for the task it is about to run. -/
def Called [DecidableEq T] (point : T → Point F A) (log : List (T × Event F A)) : Prop :=
  ∀ t, picked (History.doneBy t log) = executed (History.doneBy t log) ++ (point t).pending

/-- What holds of a pool and its threads. -/
structure Holds [DecidableEq T] (pool : ThreadPool F A) (point : T → Point F A)
    (log : List (T × Event F A)) : Prop extends
    pool.Queued (added log) (picked log).length where
  counted : Counted pool point
  called : Called point log
  right : History.Each Right log

end

section

variable {T F A : Type*} {pool pool' : ThreadPool F A} {point : T → Point F A}
  {log : List (T × Event F A)} {t : T} {p : Point F A} {tasks : List (TaskData F A)} {m : ℕ}
  {task : TaskData F A} {n n' : ℤ}

theorem increment_eq_some (h : increment n = some n') :
  n' = n + 1
  := by
  obtain ⟨-, h⟩ := Option.ite_none_right_eq_some.mp h
  exact (Option.some.inj h).symm

/-! ### The queue -/

/-- A task is added: it takes the place of the one that was there. -/
theorem ThreadPool.Queued.add (h : pool.Queued tasks m) (hhead : pool'.queueHead = pool.queueHead)
    (hqueue : pool'.taskQueue =
      Function.update pool.taskQueue (ThreadPool.slot pool.queueTail) task)
    (htail : pool'.queueTail = pool.queueTail + 1) :
  pool'.Queued (tasks ++ [task]) m
  := by
  have hlength : (tasks ++ [task]).length = tasks.length + 1 := List.length_append
  constructor
  case head => rw [hhead, h.head]
  case tail => rw [htail, h.tail, hlength, Int.natCast_succ]
  case le => exact h.le.trans (by rw [hlength]; apply Nat.le_succ)
  case slots =>
    intro j hj hle
    rw [hlength] at hj hle
    rw [hqueue, h.tail, slot_natCast]
    rcases Nat.lt_succ_iff_lt_or_eq.mp hj with hj | rfl
    · rw [Function.update_of_ne (mod_ne hj hle), List.getElem?_append_left hj]
      apply h.slots j hj (by omega)
    · rw [Function.update_self, List.getElem?_concat_length]

/-- The task in the place whose turn it is. -/
theorem ThreadPool.Queued.newest (h : pool.Queued tasks m)
    (hne : pool.queueHead ≠ pool.queueTail) :
  m < tasks.length ∧
    tasks[TaskPool.newest m tasks.length]? = some (pool.taskQueue (slot pool.queueHead))
  := by
  have hlt : m < tasks.length := by
    apply lt_of_le_of_ne h.le
    rintro rfl
    apply hne
    rw [h.head, h.tail]
  use hlt
  rw [h.slots _ (newest_lt hlt) (le_newest hlt), newest_mod, h.head, slot_natCast]

/-- The head of the queue moves on. -/
theorem ThreadPool.Queued.advance (h : pool.Queued tasks m) (hlt : m < tasks.length)
    (hhead : pool'.queueHead = pool.queueHead + 1) (htail : pool'.queueTail = pool.queueTail)
    (hqueue : pool'.taskQueue = pool.taskQueue) :
  pool'.Queued tasks (m + 1)
  := by
  constructor
  case head => rw [hhead, h.head, Int.natCast_succ]
  case tail => rw [htail, h.tail]
  case le => exact hlt
  case slots =>
    rw [hqueue]
    exact h.slots

/-! ### The threads -/

variable [DecidableEq T]

/-- A thread moves to a point where it is as busy as before. -/
theorem Counted.same (h : Counted pool point) (hscheduled : pool'.scheduled = pool.scheduled)
    (hp : p.Busy ↔ (point t).Busy) :
  Counted pool' (Function.update point t p)
  := by
  obtain ⟨busy, hbusy, hcard⟩ := h
  use busy
  constructor
  · intro t'
    rw [hbusy]
    rcases eq_or_ne t' t with rfl | hne
    · rw [Function.update_self, hp]
    · rw [Function.update_of_ne hne]
  · rw [hscheduled, hcard]

/-- A thread becomes busy. -/
theorem Counted.insert (h : Counted pool point)
    (hscheduled : pool'.scheduled = pool.scheduled + 1) (hidle : ¬ (point t).Busy)
    (hp : p.Busy) :
  Counted pool' (Function.update point t p)
  := by
  obtain ⟨busy, hbusy, hcard⟩ := h
  use Insert.insert t busy
  constructor
  · intro t'
    rw [Finset.mem_insert, hbusy]
    rcases eq_or_ne t' t with rfl | hne
    · rw [Function.update_self]
      apply iff_of_true (Or.inl rfl) hp
    · rw [Function.update_of_ne hne, or_iff_right hne]
  · rw [Finset.card_insert_of_notMem (mt (hbusy t).mp hidle), hscheduled, hcard, Int.natCast_succ]

/-- A thread is no longer busy. -/
theorem Counted.erase (h : Counted pool point)
    (hscheduled : pool'.scheduled = pool.scheduled - 1) (hbusy : (point t).Busy)
    (hp : ¬ p.Busy) :
  Counted pool' (Function.update point t p)
  := by
  obtain ⟨busy, hmem, hcard⟩ := h
  have ht := (hmem t).mpr hbusy
  use busy.erase t
  constructor
  · intro t'
    rw [Finset.mem_erase, hmem]
    rcases eq_or_ne t' t with rfl | hne
    · rw [Function.update_self]
      apply iff_of_false (fun h => h.1 rfl) hp
    · rw [Function.update_of_ne hne, and_iff_right hne]
  · rw [hscheduled, hcard, ← Finset.card_erase_add_one ht, Int.natCast_succ, Int.add_sub_cancel]

/-- A section whose events fit to where the thread was and where it is then. -/
theorem Called.section {events : List (Event F A)} (h : Called point log)
    (hown : (point t).pending ++ events.filterMap Event.pickedTask =
      events.filterMap Event.executedTask ++ p.pending) :
  Called (Function.update point t p) (log ++ events.map (fun e => (t, e)))
  := by
  intro t'
  simp only [picked, executed, History.doneBy_append, History.select_append]
  rcases eq_or_ne t' t with rfl | hne
  · have hbefore := h t'
    rw [picked, executed] at hbefore
    rw [Function.update_self, History.doneBy_self, hbefore, History.select_events,
      History.select_events, List.append_assoc, hown, List.append_assoc]
  · rw [Function.update_of_ne hne, History.doneBy_of_ne hne]
    simp only [History.select_nil, List.append_nil]
    apply h t'

omit [DecidableEq T] in
/-- Nothing is scheduled: nobody is busy. -/
theorem Counted.idle (h : Counted pool point) (hzero : ¬ 0 < pool.scheduled) (t : T) :
  ¬ (point t).Busy
  := by
  obtain ⟨busy, hbusy, hcard⟩ := h
  have hempty : busy = ∅ := by
    apply Finset.card_eq_zero.mp
    omega
  rw [← hbusy, hempty]
  apply Finset.notMem_empty

omit [DecidableEq T] in
/-- Somebody is busy: something is scheduled. -/
theorem Counted.pos (h : Counted pool point) (hbusy : (point t).Busy) :
  0 < pool.scheduled
  := by
  by_contra hzero
  apply h.idle hzero t hbusy

theorem pending_of_idle (h : ¬ p.Busy) :
  p.pending = []
  := by
  cases p with
  | run => exact absurd trivial h
  | _ => rfl

/-! ### Steps -/

/-- A section that leaves no event. -/
theorem Holds.quiet (h : Holds pool point log)
    (hqueued : pool'.Queued (added log) (picked log).length)
    (hcounted : Counted pool' (Function.update point t p))
    (hpending : p.pending = (point t).pending) :
  Holds pool' (Function.update point t p)
    (log ++ ([] : List (Event F A)).map (fun e => (t, e)))
  := by
  have hcalled : Called (Function.update point t p)
      (log ++ ([] : List (Event F A)).map (fun e => (t, e))) := by
    apply h.called.section
    rw [hpending, List.filterMap_nil, List.append_nil]
    rfl
  rw [List.map_nil, List.append_nil] at hcalled ⊢
  exact ⟨hqueued, hcounted, hcalled, h.right⟩

/-- What `worker_thread_func` preserves when it looks for a task. -/
theorem Holds.pick {o : Result F A} (h : Holds pool point log) (hidle : ¬ (point t).Busy)
    (ho : pool.pick = some o) :
  Holds o.shared (Function.update point t o.point) (log ++ o.events.map (fun e => (t, e)))
  := by
  have hpending := pending_of_idle hidle
  by_cases hempty : pool.queueHead = pool.queueTail
  · rw [ThreadPool.pick, if_pos hempty] at ho
    obtain rfl := Option.some.inj ho
    exact h.quiet h.toQueued (h.counted.same rfl (iff_of_false id hidle)) hpending.symm
  · rw [ThreadPool.pick, if_neg hempty] at ho
    obtain ⟨queueHead, hhead, ho⟩ := Option.bind_eq_some_iff.mp ho
    obtain ⟨scheduled, hscheduled, rfl⟩ := Option.map_eq_some_iff.mp ho
    obtain rfl := increment_eq_some hhead
    obtain rfl := increment_eq_some hscheduled
    obtain ⟨hlt, hnewest⟩ := h.toQueued.newest hempty
    constructor
    case toQueued =>
      simp only [added, picked, History.select_append, History.select_events]
      rw [List.length_append]
      simp only [List.filterMap_cons, List.filterMap_nil, Event.addedTask, Event.pickedTask,
        List.append_nil, List.length_singleton]
      exact h.toQueued.advance hlt rfl rfl rfl
    case counted => exact h.counted.insert rfl hidle trivial
    case called =>
      apply h.called.section
      rw [hpending]
      rfl
    case right => exact h.right.concat ⟨hlt, hnewest⟩

/-- What `pool_add_task` preserves. -/
theorem Holds.addTask {o : Result F A} (h : Holds pool point log) (hidle : ¬ (point t).Busy)
    (ho : pool.addTask task = some o) :
  Holds o.shared (Function.update point t o.point) (log ++ o.events.map (fun e => (t, e)))
  := by
  obtain ⟨queueTail, htail, rfl⟩ := Option.map_eq_some_iff.mp ho
  obtain rfl := increment_eq_some htail
  constructor
  case toQueued =>
    simp only [added, picked, History.select_append, History.select_events]
    simp only [List.filterMap_cons, List.filterMap_nil, Event.addedTask, Event.pickedTask,
      List.append_nil]
    exact h.toQueued.add rfl rfl rfl
  case counted => exact h.counted.same rfl (iff_of_false id hidle)
  case called =>
    apply h.called.section
    rw [pending_of_idle hidle]
    rfl
  case right => exact h.right.concat trivial

/-- What `pool_wait` preserves. -/
theorem Holds.wait {destroy : Bool} (h : Holds pool point log) (hidle : ¬ (point t).Busy) :
  Holds (pool.wait destroy).shared (Function.update point t (pool.wait destroy).point)
    (log ++ (pool.wait destroy).events.map (fun e => (t, e)))
  := by
  have hpending := pending_of_idle hidle
  by_cases hscheduled : 0 < pool.scheduled
  · rw [ThreadPool.wait, if_pos hscheduled]
    exact h.quiet h.toQueued (h.counted.same rfl (iff_of_false id hidle)) hpending.symm
  rw [ThreadPool.wait, if_neg hscheduled]
  have hp : ¬ (if destroy then Point.free else .client : Point F A).Busy := by
    cases destroy <;> exact id
  constructor
  case toQueued =>
    simp only [added, picked, History.select_append, History.select_events]
    simp only [List.filterMap_cons, List.filterMap_nil, Event.addedTask, Event.pickedTask,
      List.append_nil]
    exact h.toQueued
  case counted => exact h.counted.same rfl (iff_of_false hp hidle)
  case called =>
    apply h.called.section
    rw [hpending, pending_of_idle hp]
    rfl
  case right =>
    apply h.right.concat
    intro t'
    rw [h.called t', pending_of_idle (h.counted.idle hscheduled t'), List.append_nil]

/-- What a thread does preserves what holds of the pool. -/
theorem Holds.enter {call : Call F A} {o : Result F A} (h : Holds pool point log)
    (ho : pool.enter call (point t) = some o) :
  Holds o.shared (Function.update point t o.point) (log ++ o.events.map (fun e => (t, e)))
  := by
  cases hpoint : point t <;> rw [hpoint] at ho
  case worker => apply h.pick (by rw [hpoint]; exact id) ho
  case workerWaits => apply h.pick (by rw [hpoint]; exact id) ho
  case run pickedTask =>
    obtain rfl := Option.some.inj ho
    have hbusy : (point t).Busy := by rw [hpoint]; trivial
    constructor
    case toQueued =>
      simp only [added, picked, History.select_append, History.select_events]
      simp only [List.filterMap_cons, List.filterMap_nil, Event.addedTask, Event.pickedTask,
        List.append_nil]
      exact h.toQueued
    case counted => exact h.counted.same rfl (iff_of_true trivial hbusy)
    case called =>
      apply h.called.section
      rw [hpoint]
      rfl
    case right => exact h.right.concat trivial
  case ran =>
    obtain rfl := Option.some.inj ho
    have hbusy : (point t).Busy := by rw [hpoint]; trivial
    have hpending : (point t).pending = [] := by rw [hpoint]; rfl
    exact h.quiet ⟨h.head, h.tail, h.le, h.slots⟩ (h.counted.erase rfl hbusy id) hpending.symm
  case client =>
    have hidle : ¬ (point t).Busy := by rw [hpoint]; exact id
    cases call with
    | addTask workRoutine arg => apply h.addTask hidle ho
    | wait =>
        obtain rfl := Option.some.inj ho
        apply h.wait hidle
    | destroy =>
        obtain rfl := Option.some.inj ho
        apply h.wait hidle
  case waits destroy =>
    obtain rfl := Option.some.inj ho
    apply h.wait (by rw [hpoint]; exact id)
  case free =>
    obtain rfl := Option.some.inj ho
    have hidle : ¬ (point t).Busy := by rw [hpoint]; exact id
    have hpending := (pending_of_idle hidle).symm
    exact h.quiet ⟨h.head, h.tail, h.le, h.slots⟩ (h.counted.same rfl (iff_of_false id hidle))
      hpending

/-- Before any thread has entered. -/
theorem start_holds (roles : T → Role) (taskQueue : Memory (TaskData F A)) :
  Holds (ThreadPool.init taskQueue) (fun t => (roles t).point) ([] : List (T × Event F A))
  := by
  have hidle : ∀ t, ¬ ((roles t).point : Point F A).Busy := by
    intro t
    cases roles t <;> exact id
  constructor
  case toQueued => exact ⟨rfl, rfl, le_rfl, fun j hj => absurd hj (Nat.not_lt_zero j)⟩
  case counted => exact ⟨∅, fun t => iff_of_false (Finset.notMem_empty t) (hidle t), rfl⟩
  case called =>
    intro t
    rw [pending_of_idle (hidle t)]
    rfl
  case right => apply History.each_nil

end

/-! ### Every run -/

section

variable {T F A : Type*} [DecidableEq T] {roles : T → Role} {taskQueue : Memory (TaskData F A)}
  {moves : List (Monitor.Move T Cond (Call F A))}
  {s : Monitor.State T (Point F A) (ThreadPool F A) Cond (Event F A)}

/-- What holds in every state reached. -/
theorem holds_of_final
    (hfinal : ((monitor F A).threads T).final (start roles taskQueue) moves = some s) :
  Holds s.shared s.point s.log
  := by
  apply Monitor.final_invariant Holds _ (start_holds roles taskQueue) hfinal
  intro pool point log t call o h ho
  obtain ⟨-, ho⟩ := Option.ite_none_left_eq_some.mp ho
  apply h.enter ho

theorem prefix_concat {B : Type*} {xs ys : List B} {x : B} (h : xs <+: ys)
    (hx : ys[xs.length]? = some x) :
  xs ++ [x] <+: ys
  := by
  obtain ⟨rest, rfl⟩ := h
  rw [List.getElem?_append_right le_rfl, Nat.sub_self, ← List.head?_eq_getElem?] at hx
  obtain ⟨rest, rfl⟩ := List.head?_eq_some_iff.mp hx
  rw [List.append_cons xs x rest]
  apply List.prefix_append

/-- The tasks picked are the first ones added as long as the queue has had room for all that were
pending. -/
theorem picked_isPrefix {log : List (T × Event F A)} (hright : History.Each Right log)
    (hfits : History.Each Fits log) :
  picked log <+: added log
  := by
  induction log using List.reverseRecOn with
  | nil => apply List.prefix_refl
  | append_singleton log e ih =>
      obtain ⟨hright, he⟩ := History.each_concat.mp hright
      obtain ⟨hfits, hfit⟩ := History.each_concat.mp hfits
      have hfirst := ih hright hfits
      obtain ⟨t, e⟩ := e
      simp only [picked, added, History.select_append, History.select_singleton]
      cases e with
      | added task =>
          simp only [Event.pickedTask, Option.toList_none, List.append_nil]
          exact hfirst.trans (List.prefix_append ..)
      | picked task =>
          obtain ⟨hlt, hnewest⟩ := he
          rw [(newest_eq_iff hlt).mpr hfit] at hnewest
          simp only [Event.addedTask, Option.toList_none, List.append_nil]
          exact prefix_concat hfirst hnewest
      | executed task =>
          simp only [Event.pickedTask, Event.addedTask, Option.toList_none, List.append_nil]
          exact hfirst
      | waited =>
          simp only [Event.pickedTask, Event.addedTask, Option.toList_none, List.append_nil]
          exact hfirst

/-- If they are all different, they are the first ones no longer. -/
theorem fits_of_prefix {log : List (T × Event F A)} (hright : History.Each Right log)
    (hnodup : (added log).Nodup) (hfirst : picked log <+: added log) :
  History.Each Fits log
  := by
  rintro before ⟨t, e⟩ after hlog
  cases e with
  | picked task =>
      obtain ⟨hlt, hnewest⟩ := hright before _ after hlog
      obtain ⟨rest, hadded⟩ : added before <+: added log := by
        simp only [hlog, added, History.select_append]
        apply List.prefix_append
      obtain ⟨rest', hpicked⟩ : picked before ++ [task] <+: added log := by
        apply List.IsPrefix.trans _ hfirst
        rw [hlog, List.append_cons before]
        simp only [picked, History.select_append, History.select_singleton]
        apply List.prefix_append
      have hturn : (added log)[(picked before).length]? = some task := by
        rw [← hpicked, List.append_assoc, List.getElem?_append_right le_rfl, Nat.sub_self]
        rfl
      have hplace : (added log)[newest (picked before).length (added before).length]? =
          some task := by
        rw [← hadded, List.getElem?_append_left (newest_lt hlt), hnewest]
      apply (newest_eq_iff hlt).mp
      have hlength : newest (picked before).length (added before).length < (added log).length := by
        rw [← hadded, List.length_append]
        exact (newest_lt hlt).trans_le (Nat.le_add_right ..)
      apply (List.getElem?_inj hlength hnodup).mp (hplace.trans hturn.symm)
  | _ => trivial

/-- In every run, a thread picks the newest of the tasks that share a place with the one whose turn
it is.  If the tasks are all different, they are picked in the order in which they were added, each
once, exactly as long as no more than `TASK_QUEUE_MAX` of them are pending when one is picked. -/
theorem picked_in_order_iff
    (hfinal : ((monitor F A).threads T).final (start roles taskQueue) moves = some s) :
  (∀ before t task after, s.log = before ++ (t, .picked task) :: after →
    (added before)[newest (picked before).length (added before).length]? = some task) ∧
  (History.Each Fits s.log → picked s.log <+: added s.log) ∧
  ((added s.log).Nodup → picked s.log <+: added s.log → History.Each Fits s.log)
  := by
  have hright := (holds_of_final hfinal).right
  constructor
  · intro before t task after hlog
    exact (hright before _ after hlog).2
  constructor
  · apply picked_isPrefix hright
  · apply fits_of_prefix hright

/-- A client adds two tasks, and a thread of the pool picks and runs them. -/
theorem picked_in_order_two :
  ∃ s, ((monitor ℕ ℕ).threads Bool).final
      (start (fun t => if t then .worker else .client) (fun _ => ⟨0, 0⟩))
      [.enter false (.addTask 5 0) (fun _ => none), .enter false (.addTask 6 0) (fun _ => none),
        .enter true .wait (fun _ => none), .enter true .wait (fun _ => none),
        .enter true .wait (fun _ => none), .enter true .wait (fun _ => none)] = some s ∧
    picked s.log = [⟨5, 0⟩, ⟨6, 0⟩] ∧
    ((∀ before t task after, s.log = before ++ (t, .picked task) :: after →
        (added before)[newest (picked before).length (added before).length]? = some task) ∧
      (History.Each Fits s.log → picked s.log <+: added s.log) ∧
      ((added s.log).Nodup → picked s.log <+: added s.log → History.Each Fits s.log))
  := by
  apply Machine.exists_final (by decide)
  intro s hs
  refine ⟨?_, picked_in_order_iff hs⟩
  revert s
  decide

/-- In every run, when `pool_wait` finds nothing scheduled, what has been executed is what has been
picked, each task once: the tasks that were added first, if there was room for them.  Those that are still in
the queue it has not waited for. -/
theorem executed_of_waited
    (hfinal : ((monitor F A).threads T).final (start roles taskQueue) moves = some s)
    {before after : List (T × Event F A)} {t : T} (hlog : s.log = before ++ (t, .waited) :: after) :
  (executed before).Perm (picked before) ∧
    (History.Each Fits s.log →
      (executed before).Perm ((added before).take (picked before).length))
  := by
  have hright := (holds_of_final hfinal).right
  have hperm : (executed before).Perm (picked before) := by
    apply History.select_perm
    intro t'
    have heach := hright before _ after hlog t'
    rw [picked, executed] at heach
    rw [heach]
  use hperm
  intro hfits
  rw [hlog] at hright hfits
  rw [← List.prefix_iff_eq_take.mp (picked_isPrefix hright.of_append hfits.of_append)]
  exact hperm

/-- A client adds two tasks, waits when one of them has been picked and run, and goes on. -/
theorem executed_of_waited_one :
  ∃ s, ((monitor ℕ ℕ).threads Bool).final
      (start (fun t => if t then .worker else .client) (fun _ => ⟨0, 0⟩))
      [.enter false (.addTask 5 0) (fun _ => none), .enter false (.addTask 6 0) (fun _ => none),
        .enter true .wait (fun _ => none), .enter true .wait (fun _ => none),
        .enter true .wait (fun _ => none), .enter false .wait (fun _ => none)] = some s ∧
    ∃ before, s.log = before ++ [(false, .waited)] ∧ added before = [⟨5, 0⟩, ⟨6, 0⟩] ∧
      executed before = [⟨5, 0⟩] ∧
      (executed before).Perm (picked before) ∧
      (History.Each Fits s.log →
        (executed before).Perm ((added before).take (picked before).length))
  := by
  apply Machine.exists_final (by decide)
  intro s hs
  have hlog : s.log = s.log.dropLast ++ [(false, .waited)] := by
    revert s
    decide
  refine ⟨s.log.dropLast, hlog, ?_, ?_, executed_of_waited hs hlog⟩
  · revert s
    decide
  · revert s
    decide

end

end TaskPool
