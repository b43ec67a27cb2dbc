import Mathlib.Data.Fintype.Basic
import Orgrim.TaskPool.Order

/-!
# The wake-ups of the pool of tasks

A thread of the pool that waits does so because the queue is empty: `pool_add_task` broadcasts
when it puts the first task into it.  `pool_wait` is woken by one signal, when nothing is scheduled
any more, so of several clients that wait only one goes on.  As long as no two wait at a time,
nothing gets stuck: where all threads of the pool wait, everything is done (`all_done`).
-/

namespace TaskPool

variable {T F A : Type*} [DecidableEq T]

/-- The state of the pool and its threads. -/
abbrev State (T F A : Type*) : Type _ :=
  Monitor.State T (Point F A) (ThreadPool F A) Cond (Event F A)

/-- A thread is in the loop of `pool_wait`. -/
def Point.InWait : Point F A → Prop
  | .waits _ => True
  | _ => False

instance : DecidablePred (Point.InWait (F := F) (A := A))
  | .waits _ => .isTrue trivial
  | .worker => .isFalse id
  | .workerWaits => .isFalse id
  | .run _ => .isFalse id
  | .ran => .isFalse id
  | .client => .isFalse id
  | .free => .isFalse id

/-- No two threads are in the loop of `pool_wait`. -/
def OneWaits (s : State T F A) : Prop :=
  ∀ t t', (s.point t).InWait → (s.point t').InWait → t = t'

instance [Fintype T] (s : State T F A) : Decidable (OneWaits s) :=
  inferInstanceAs (Decidable (∀ t t', (s.point t).InWait → (s.point t').InWait → t = t'))

/-- A point of `worker_thread_func`. -/
def Point.OfWorker : Point F A → Prop
  | .worker => True
  | .workerWaits => True
  | .run _ => True
  | .ran => True
  | _ => False

/-- A busy thread belongs to the pool, and does not wait. -/
theorem Point.Busy.ofWorker {p : Point F A} (h : p.Busy) :
  p.OfWorker ∧ p.waitsFor = none
  := by
  cases p with
  | run => exact ⟨trivial, rfl⟩
  | ran => exact ⟨trivial, rfl⟩
  | _ => exact absurd h id

theorem Point.OfWorker.not_inWait {p : Point F A} (h : p.OfWorker) :
  ¬ p.InWait
  := by
  cases p with
  | waits destroy => exact absurd h id
  | _ => exact id

/-- The reason to wait for a condition. -/
def Reason (pool : ThreadPool F A) (p : Point F A) : Cond → Prop
  | .workAvailable => p = .workerWaits ∧ pool.queueHead = pool.queueTail
  | .done => p.InWait ∧ 0 < pool.scheduled

/-- Those who wait have a reason to. -/
def Awake (s : State T F A) : Prop :=
  ∀ c, ∀ t ∈ s.waiting c, Reason s.shared (s.point t) c

/-- What a section does to the queue and to what is scheduled, whom it notifies, and where it
waits. -/
inductive WakeStep (pool : ThreadPool F A) (p : Point F A) (o : Result F A) : Prop
  | same : o.shared.queueHead = pool.queueHead → o.shared.queueTail = pool.queueTail →
      o.shared.scheduled = pool.scheduled → o.point.waitsFor = none → WakeStep pool p o
  | add : (pool.queueHead = pool.queueTail → .broadcast .workAvailable ∈ o.notes) →
      o.shared.scheduled = pool.scheduled → o.point.waitsFor = none → WakeStep pool p o
  | pick : pool.queueHead ≠ pool.queueTail → o.shared.scheduled = pool.scheduled + 1 →
      o.point.waitsFor = none → WakeStep pool p o
  | finish : p.Busy → o.shared.queueHead = pool.queueHead → o.shared.queueTail = pool.queueTail →
      o.shared.scheduled = pool.scheduled - 1 →
      o.notes = (if o.shared.scheduled = 0 then [.signal .done] else []) →
      o.point.waitsFor = none → WakeStep pool p o
  | empty : o.shared = pool → pool.queueHead = pool.queueTail → o.point = .workerWaits →
      WakeStep pool p o
  | wait : o.shared = pool → 0 < pool.scheduled → o.point.InWait → WakeStep pool p o

section

variable {pool : ThreadPool F A} {call : Call F A} {p : Point F A} {o : Result F A}

theorem pick_step (ho : pool.pick = some o) :
  o.point.OfWorker ∧ WakeStep pool p o
  := by
  by_cases hempty : pool.queueHead = pool.queueTail
  · rw [ThreadPool.pick, if_pos hempty] at ho
    obtain rfl := Option.some.inj ho
    exact ⟨trivial, .empty rfl hempty rfl⟩
  · rw [ThreadPool.pick, if_neg hempty] at ho
    obtain ⟨queueHead, -, ho⟩ := Option.bind_eq_some_iff.mp ho
    obtain ⟨scheduled, hscheduled, rfl⟩ := Option.map_eq_some_iff.mp ho
    exact ⟨trivial, .pick hempty (increment_eq_some hscheduled) rfl⟩

theorem wait_step {destroy : Bool} :
  ¬ (pool.wait destroy).point.OfWorker ∧ WakeStep pool p (pool.wait destroy)
  := by
  rw [ThreadPool.wait]
  split
  · rename_i hscheduled
    exact ⟨id, .wait rfl hscheduled trivial⟩
  · cases destroy
    · exact ⟨id, .same rfl rfl rfl rfl⟩
    · exact ⟨id, .same rfl rfl rfl rfl⟩

/-- What a thread does: it stays on its side, and does one of the steps. -/
theorem enter_step (ho : pool.enter call p = some o) :
  (o.point.OfWorker ↔ p.OfWorker) ∧ WakeStep pool p o
  := by
  cases p
  case worker =>
    obtain ⟨hworker, hstep⟩ := pick_step ho
    exact ⟨iff_of_true hworker trivial, hstep⟩
  case workerWaits =>
    obtain ⟨hworker, hstep⟩ := pick_step ho
    exact ⟨iff_of_true hworker trivial, hstep⟩
  case run pickedTask =>
    obtain rfl := Option.some.inj ho
    exact ⟨Iff.rfl, .same rfl rfl rfl rfl⟩
  case ran =>
    obtain rfl := Option.some.inj ho
    exact ⟨Iff.rfl, .finish trivial rfl rfl rfl rfl rfl⟩
  case client =>
    cases call with
    | addTask workRoutine arg =>
        obtain ⟨queueTail, -, rfl⟩ := Option.map_eq_some_iff.mp ho
        refine ⟨Iff.rfl, .add ?_ rfl rfl⟩
        intro hempty
        rw [if_pos hempty]
        apply List.mem_singleton.mpr rfl
    | wait =>
        obtain rfl := Option.some.inj ho
        obtain ⟨hworker, hstep⟩ := wait_step
        exact ⟨iff_of_false hworker id, hstep⟩
    | destroy =>
        obtain rfl := Option.some.inj ho
        obtain ⟨hworker, hstep⟩ := wait_step
        exact ⟨iff_of_false hworker id, hstep⟩
  case waits destroy =>
    obtain rfl := Option.some.inj ho
    obtain ⟨hworker, hstep⟩ := wait_step
    exact ⟨iff_of_false hworker id, hstep⟩
  case free =>
    obtain rfl := Option.some.inj ho
    exact ⟨Iff.rfl, .same rfl rfl rfl rfl⟩

end

section

variable {s s' : State T F A} {t t' : T} {c : Cond} {call : Call F A} {pick : Cond → Option T}
  {o : Result F A} {waiting : Cond → Finset T} {a : Monitor.Move T Cond (Call F A)}

omit [DecidableEq T] in
/-- A thread that has a reason to wait for a condition is where it does. -/
theorem Reason.waitsFor {pool : ThreadPool F A} {p : Point F A} (h : Reason pool p c) :
  p.waitsFor = some c
  := by
  cases c with
  | workAvailable =>
      rw [h.1]
      rfl
  | done =>
      obtain ⟨hwait, -⟩ := h
      cases p with
      | waits destroy => rfl
      | _ => cases hwait

omit [DecidableEq T] in
/-- A thread that begins to wait has a reason to. -/
theorem WakeStep.reason {pool : ThreadPool F A} {p : Point F A} (h : WakeStep pool p o)
    (hwaits : o.point.waitsFor = some c) :
  Reason o.shared o.point c
  := by
  cases h with
  | empty hshared hempty hp =>
      rw [hp] at hwaits ⊢
      obtain rfl := Option.some.inj hwaits
      exact ⟨rfl, by rw [hshared, hempty]⟩
  | wait hshared hscheduled hp =>
      cases hpoint : o.point <;> rw [hpoint] at hp hwaits
      case waits destroy =>
        obtain rfl := Option.some.inj hwaits
        exact ⟨trivial, by rw [hshared]; exact hscheduled⟩
      all_goals cases hp
  | same _ _ _ hnone =>
      rw [hnone] at hwaits
      cases hwaits
  | add _ _ hnone =>
      rw [hnone] at hwaits
      cases hwaits
  | pick _ _ hnone =>
      rw [hnone] at hwaits
      cases hwaits
  | finish _ _ _ _ _ hnone =>
      rw [hnone] at hwaits
      cases hwaits

/-- A thread that goes on waiting for work has a reason to. -/
theorem Awake.keepsWorkAvailable (h : Awake s) (hstep : WakeStep s.shared (s.point t) o)
    (hwaiting : Monitor.notifyAll pick o.notes s.waiting = some waiting)
    (ht' : t' ∈ waiting .workAvailable) :
  Reason o.shared (s.point t') .workAvailable
  := by
  obtain ⟨hwaits, hempty⟩ := h .workAvailable t' (Monitor.notifyAll_subset hwaiting ht')
  use hwaits
  cases hstep with
  | same hhead htail => rw [hhead, htail, hempty]
  | add hnotes =>
      rw [Monitor.notifyAll_broadcast hwaiting (hnotes hempty)] at ht'
      exact absurd ht' (Finset.notMem_empty t')
  | pick hne => exact absurd hempty hne
  | finish _ hhead htail => rw [hhead, htail, hempty]
  | empty hshared => rw [hshared, hempty]
  | wait hshared => rw [hshared, hempty]

/-- A thread that goes on waiting for `done` has a reason to, if it is the only one. -/
theorem Awake.keepsDone (h : Awake s) (hone : OneWaits s) (hcounted : Counted s.shared s.point)
    (hstep : WakeStep s.shared (s.point t) o)
    (hwaiting : Monitor.notifyAll pick o.notes s.waiting = some waiting)
    (ht' : t' ∈ waiting .done) :
  Reason o.shared (s.point t') .done
  := by
  obtain ⟨hwaits, hscheduled⟩ := h .done t' (Monitor.notifyAll_subset hwaiting ht')
  use hwaits
  cases hstep with
  | same _ _ hsame => rw [hsame]; exact hscheduled
  | add _ hsame => rw [hsame]; exact hscheduled
  | pick _ hmore => rw [hmore]; exact hscheduled.trans (Int.lt_succ _)
  | finish hbusy _ _ hless hnotes =>
      by_cases hzero : o.shared.scheduled = 0
      · rw [hnotes, if_pos hzero] at hwaiting
        obtain ⟨between, hnote, hnil⟩ := Option.bind_eq_some_iff.mp hwaiting
        obtain rfl := Option.some.inj hnil
        rw [Monitor.notify_signal_single hnote] at ht'
        · exact absurd ht' (Finset.notMem_empty t')
        · intro t₁ ht₁ t₂ ht₂
          apply hone _ _ (h .done t₁ ht₁).1 (h .done t₂ ht₂).1
      · have hpos := hcounted.pos hbusy
        omega
  | empty hshared => rw [hshared]; exact hscheduled
  | wait hshared => rw [hshared]; exact hscheduled

/-- What a section of a thread preserves. -/
theorem Awake.enter (h : Awake s) (hone : OneWaits s) (hcounted : Counted s.shared s.point)
    (hfree : (monitor F A).Free s t) (hstep : WakeStep s.shared (s.point t) o)
    (hwaiting : Monitor.notifyAll pick o.notes s.waiting = some waiting) :
  Awake ((monitor F A).after s t o waiting)
  := by
  intro c t' ht'
  rcases Monitor.mem_suspend.mp ht' with ht' | ⟨rfl, hwaits⟩
  · have hbefore := Monitor.notifyAll_subset hwaiting ht'
    have hne : t' ≠ t := by
      rintro rfl
      apply hfree c (h c t' hbefore).waitsFor hbefore
    have hpoint : ((monitor F A).after s t o waiting).point t' = s.point t' :=
      Function.update_of_ne hne ..
    rw [hpoint]
    cases c with
    | workAvailable => exact h.keepsWorkAvailable hstep hwaiting ht'
    | done => exact h.keepsDone hone hcounted hstep hwaiting ht'
  · rw [Monitor.point_after]
    exact hstep.reason hwaits

end

/-! ### Every run -/

section

variable {roles : T → Role} {taskQueue : Memory (TaskData F A)}
  {moves : List (Monitor.Move T Cond (Call F A))} {s s' : State T F A}
  {a : Monitor.Move T Cond (Call F A)}

/-- What is known of a state that a run leads to. -/
structure Reached (roles : T → Role) (s : State T F A) : Prop where
  holds : Holds s.shared s.point s.log
  awake : Awake s
  worker : ∀ t, (s.point t).OfWorker ↔ roles t = .worker

theorem Reached.step (h : Reached roles s) (hone : OneWaits s)
    (hs' : ((monitor F A).threads T).step s a = some s') :
  Reached roles s'
  := by
  rcases Monitor.step_cases hs' with
    ⟨c, t, -, rfl⟩ | ⟨t, call, pick, o, waiting, -, hfree, ho, hwaiting, rfl⟩
  · refine ⟨h.holds, ?_, h.worker⟩
    intro c' t' ht'
    apply h.awake c' t' (Monitor.wake_subset ht')
  · obtain ⟨-, ho⟩ := Option.ite_none_left_eq_some.mp ho
    obtain ⟨hside, hstep⟩ := enter_step ho
    constructor
    case holds => exact h.holds.enter ho
    case awake => exact h.awake.enter hone h.holds.counted hfree hstep hwaiting
    case worker =>
      intro t'
      rcases eq_or_ne t' t with rfl | hne
      · rw [Monitor.point_after, hside, h.worker]
      · rw [← h.worker]
        change (Function.update s.point t o.point t').OfWorker ↔ _
        rw [Function.update_of_ne hne]

theorem start_reached (roles : T → Role) (taskQueue : Memory (TaskData F A)) :
  Reached roles (start roles taskQueue)
  := by
  constructor
  case holds => apply start_holds
  case awake => exact fun c t ht => absurd ht (Finset.notMem_empty t)
  case worker =>
    intro t
    change (roles t).point.OfWorker ↔ _
    cases roles t
    · exact iff_of_true trivial rfl
    · exact iff_of_false id nofun

/-- Where all threads of the pool wait, none of them woken, nothing is left to do: the queue is
empty, nothing is scheduled, and nobody waits in `pool_wait`. -/
theorem Reached.quiet (h : Reached roles s) {w : T} (hw : roles w = .worker)
    (hquiet : ∀ t, roles t = .worker → ¬ (monitor F A).Free s t) :
  s.shared.queueHead = s.shared.queueTail ∧ s.shared.scheduled = 0 ∧ s.waiting .done = ∅
  := by
  have hwaits : ∀ t, roles t = .worker → ∃ c ∈ (s.point t).waitsFor, t ∈ s.waiting c := by
    intro t ht
    by_contra hnone
    apply hquiet t ht
    intro c hc hmem
    exact hnone ⟨c, hc, hmem⟩
  have hidle : ∀ t, ¬ (s.point t).Busy := by
    intro t hbusy
    obtain ⟨hworker, hnone⟩ := hbusy.ofWorker
    obtain ⟨c, hc, -⟩ := hwaits t ((h.worker t).mp hworker)
    rw [hnone] at hc
    cases hc
  have hzero : s.shared.scheduled = 0 := by
    obtain ⟨busy, hbusy, hcard⟩ := h.holds.counted
    have hempty : busy = ∅ := by
      apply Finset.eq_empty_of_forall_notMem
      intro t ht
      apply hidle t ((hbusy t).mp ht)
    rw [hcard, hempty]
    rfl
  refine ⟨?_, hzero, ?_⟩
  · obtain ⟨c, hc, hmem⟩ := hwaits w hw
    have hreason := h.awake c w hmem
    cases c with
    | workAvailable => exact hreason.2
    | done =>
        exact absurd hreason.1 ((h.worker w).mpr hw).not_inWait
  · apply Finset.eq_empty_of_forall_notMem
    intro t ht
    have hpos := (h.awake .done t ht).2
    omega

/-- In every run of a pool with a thread, in which no two clients are in `pool_wait` at a time, nothing
gets stuck: where all threads of the pool wait, and none of them has been woken, all tasks that were added have been
picked and executed, in the order in which they were added if there was room for them, and nobody
waits in `pool_wait` any more. -/
theorem all_done
    (hfinal : ((monitor F A).threads T).final (start roles taskQueue) moves = some s)
    (hone : ((monitor F A).threads T).Throughout OneWaits (start roles taskQueue) moves)
    {w : T} (hw : roles w = .worker)
    (hquiet : ∀ t, roles t = .worker → ¬ (monitor F A).Free s t) :
  s.waiting .done = ∅ ∧ (executed s.log).Perm (picked s.log) ∧
    (picked s.log).length = (added s.log).length ∧
    (History.Each Fits s.log → picked s.log = added s.log)
  := by
  have hreached : Reached roles s := by
    apply Machine.final_of_invariant (Q := fun s _ => OneWaits s) (Reached roles) _
      (start_reached roles taskQueue) (Machine.along_of_throughout hone) hfinal
    intro s a h hone s' hs'
    apply h.step hone hs'
  obtain ⟨hempty, hzero, hdone⟩ := hreached.quiet hw hquiet
  have hlength : (picked s.log).length = (added s.log).length := by
    have hhead := hreached.holds.head
    have htail := hreached.holds.tail
    omega
  refine ⟨hdone, ?_, hlength, ?_⟩
  · apply History.select_perm
    intro t
    have hcalled := hreached.holds.called t
    rw [pending_of_idle (hreached.holds.counted.idle (by omega) t), List.append_nil] at hcalled
    rw [picked, executed] at hcalled
    rw [hcalled]
  · intro hfits
    exact (picked_isPrefix hreached.holds.right hfits).eq_of_length hlength

/-- Two tasks, and one client that waits for them. -/
theorem all_done_two :
  ∃ s, ((monitor ℕ ℕ).threads Bool).final
      (start (fun t => if t then .worker else .client) (fun _ => ⟨0, 0⟩))
      [.enter true .wait (fun _ => none), .enter false (.addTask 5 0) (fun _ => none),
        .enter true .wait (fun _ => none), .enter false .wait (fun _ => none),
        .enter true .wait (fun _ => none), .enter true .wait (fun _ => some false),
        .enter true .wait (fun _ => none), .enter false .wait (fun _ => none)] = some s ∧
    executed s.log = [⟨5, 0⟩] ∧
    s.waiting .done = ∅ ∧ (executed s.log).Perm (picked s.log) ∧
    (picked s.log).length = (added s.log).length ∧
    (History.Each Fits s.log → picked s.log = added s.log)
  := by
  apply Machine.exists_final (by decide)
  intro s hs
  refine ⟨?_, all_done hs (by decide) (w := true) rfl ?_⟩
  · revert s
    decide
  · revert s
    decide

end

end TaskPool
