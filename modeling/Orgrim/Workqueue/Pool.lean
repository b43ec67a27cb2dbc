import Mathlib.Data.Finset.Insert
import Orgrim.Theory.Machine

/-!
# The thread pool with a bounded work queue

`ThreadPool.h`, with the classes of `locker.h`.  Any number of calls of `append`, the worker
threads that run `run`, and one call of `stop` go on in any order, one operation on a lock, a
semaphore or the condition variable at a time.  What happens to the queue while `m_queuelocker` is
held is one step of its own; `stop` looks at the queue without that lock.

A request is an `Option R`: `append` may be given a null pointer.
-/

namespace Workqueue

/-- Where a call of `append` is.  From `testing` on it holds `m_queuelocker`, up to the step after
`unlocking`. -/
inductive AppendPoint where
  | locking
  | testing
  | unlocking (queued : Bool)
  | posting
  | returned (queued : Bool)
  deriving DecidableEq

/-- The call has put its request into the queue. -/
def AppendPoint.hasQueued : AppendPoint → Bool
  | .unlocking queued => queued
  | .posting => true
  | .returned queued => queued
  | _ => false

/-- Where a worker thread is in `run`. -/
inductive RunPoint (R : Type*) where
  | loop
  | waiting
  | locking
  | taking
  | unlockingEmpty
  | unlockingTaken (request : Option R)
  | processing (request : R)
  | relocking
  | testingEmpty
  | signalling
  | unlocking
  | exited
  deriving DecidableEq

/-- Where the call of `stop` is; `lockingCond` to `unlockingCond` are the steps of `cond::wait`. -/
inductive StopPoint where
  | notCalled
  | testing
  | lockingCond
  | enteringCond
  | blocked
  | woken
  | unlockingCond
  | stopping
  | posting (i : ℕ)
  | joining (i : ℕ)
  | returned
  deriving DecidableEq

/-- The pool with `n` worker threads, and where its threads are.  `C` names the calls of `append`,
and `queued` are those whose request has been put into the queue. -/
structure Pool (C R : Type*) (n : ℕ) where
  maxRequests : ℕ
  stop : Bool
  workqueue : List (Option R)
  queuelocker : Bool
  queuestat : ℕ
  condMutex : Bool
  appender : C → AppendPoint
  worker : Fin n → RunPoint R
  stopper : StopPoint
  queued : Finset C

/-- What happens next: a thread makes its next step, or `pthread_cond_wait` returns without a
signal. -/
inductive Step (C : Type*) (n : ℕ) where
  | append (c : C)
  | run (w : Fin n)
  | stop
  | spuriousWakeup

namespace Pool

variable {C R : Type*} {n : ℕ}

/-- The pool before its threads have made a step. -/
def init (maxRequests : ℕ) : Pool C R n where
  maxRequests := maxRequests
  stop := false
  workqueue := []
  queuelocker := false
  queuestat := 0
  condMutex := false
  appender _ := .locking
  worker _ := .loop
  stopper := .notCalled
  queued := ∅

section

variable [DecidableEq C]

/-- The call `c` goes on at the point `p`. -/
def appenderAt (s : Pool C R n) (c : C) (p : AppendPoint) : Pool C R n :=
  { s with appender := Function.update s.appender c p }

/-- The worker `w` goes on at the point `p`. -/
def workerAt (s : Pool C R n) (w : Fin n) (p : RunPoint R) : Pool C R n :=
  { s with worker := Function.update s.worker w p }

/-- A step of `append`, called with the request `request c`. -/
def appendStep (request : C → Option R) (s : Pool C R n) (c : C) : Option (Pool C R n) :=
  match s.appender c with
  | .locking =>
      if s.queuelocker then none else some ({ s with queuelocker := true }.appenderAt c .testing)
  | .testing =>
      if s.workqueue.length > s.maxRequests then some (s.appenderAt c (.unlocking false))
      else
        some ({ s with
          workqueue := s.workqueue ++ [request c]
          queued := insert c s.queued }.appenderAt c (.unlocking true))
  | .unlocking queued =>
      some ({ s with queuelocker := false }.appenderAt c
        (if queued then .posting else .returned false))
  | .posting => some ({ s with queuestat := s.queuestat + 1 }.appenderAt c (.returned true))
  | .returned _ => none

omit [DecidableEq C] in
/-- `pthread_cond_signal`: it wakes `stop`, if that waits. -/
def signal (s : Pool C R n) : Pool C R n :=
  { s with stopper := if s.stopper = .blocked then .woken else s.stopper }

omit [DecidableEq C] in
/-- A step of `run`. -/
def runStep (s : Pool C R n) (w : Fin n) : Option (Pool C R n) :=
  match s.worker w with
  | .loop => some (s.workerAt w (if s.stop then .exited else .waiting))
  | .waiting =>
      if s.queuestat = 0 then none
      else some ({ s with queuestat := s.queuestat - 1 }.workerAt w .locking)
  | .locking =>
      if s.queuelocker then none else some ({ s with queuelocker := true }.workerAt w .taking)
  | .taking =>
      match s.workqueue with
      | [] => some (s.workerAt w .unlockingEmpty)
      | request :: workqueue =>
          some ({ s with workqueue := workqueue }.workerAt w (.unlockingTaken request))
  | .unlockingEmpty => some ({ s with queuelocker := false }.workerAt w .loop)
  | .unlockingTaken none => some ({ s with queuelocker := false }.workerAt w .loop)
  | .unlockingTaken (some request) =>
      some ({ s with queuelocker := false }.workerAt w (.processing request))
  | .processing _ => some (s.workerAt w .relocking)
  | .relocking =>
      if s.queuelocker then none
      else some ({ s with queuelocker := true }.workerAt w .testingEmpty)
  | .testingEmpty => some (s.workerAt w (if s.workqueue = [] then .signalling else .unlocking))
  | .signalling => some (s.signal.workerAt w .unlocking)
  | .unlocking => some ({ s with queuelocker := false }.workerAt w .loop)
  | .exited => none

omit [DecidableEq C] in
/-- A step of `stop`. -/
def stopStep (s : Pool C R n) : Option (Pool C R n) :=
  match s.stopper with
  | .notCalled => some { s with stopper := .testing }
  | .testing =>
      some { s with stopper := if s.workqueue = [] then .stopping else .lockingCond }
  | .lockingCond =>
      if s.condMutex then none else some { s with condMutex := true, stopper := .enteringCond }
  | .enteringCond => some { s with condMutex := false, stopper := .blocked }
  | .blocked => none
  | .woken =>
      if s.condMutex then none else some { s with condMutex := true, stopper := .unlockingCond }
  | .unlockingCond => some { s with condMutex := false, stopper := .testing }
  | .stopping => some { s with stop := true, stopper := .posting 0 }
  | .posting i =>
      if i < n then some { s with queuestat := s.queuestat + 1, stopper := .posting (i + 1) }
      else some { s with stopper := .joining 0 }
  | .joining i =>
      if h : i < n then
        match s.worker ⟨i, h⟩ with
        | .exited => some { s with stopper := .joining (i + 1) }
        | _ => none
      else some { s with stopper := .returned }
  | .returned => none

omit [DecidableEq C] in
/-- `pthread_cond_wait` returns without a signal. -/
def wakeStep (s : Pool C R n) : Option (Pool C R n) :=
  if s.stopper = .blocked then some { s with stopper := .woken } else none

end

end Pool

variable {C R : Type*} {n : ℕ} [DecidableEq C]

/-- The pool, with the requests given to the calls of `append`. -/
def threads (request : C → Option R) : Machine (Pool C R n) (Step C n) where
  step s
    | .append c => s.appendStep request c
    | .run w => s.runStep w
    | .stop => s.stopStep
    | .spuriousWakeup => s.wakeStep

/-! ### What the steps do -/

/-- The worker has still to look whether the queue is empty, and to signal if it is. -/
def RunPoint.Promises : RunPoint R → Prop
  | .unlockingTaken (some _) => True
  | .processing _ => True
  | .relocking => True
  | .testingEmpty => True
  | .signalling => True
  | _ => False

instance decidablePromises : DecidablePred (RunPoint.Promises (R := R))
  | .unlockingTaken (some _) => .isTrue trivial
  | .processing _ => .isTrue trivial
  | .relocking => .isTrue trivial
  | .testingEmpty => .isTrue trivial
  | .signalling => .isTrue trivial
  | .loop => .isFalse id
  | .waiting => .isFalse id
  | .locking => .isFalse id
  | .taking => .isFalse id
  | .unlockingEmpty => .isFalse id
  | .unlockingTaken none => .isFalse id
  | .unlocking => .isFalse id
  | .exited => .isFalse id

/-- What a step of a worker does to the queue and to `stop`, if the worker goes on at `p`: nothing;
or it takes the first request; or it signals. -/
inductive Ran (s s' : Pool C R n) (w : Fin n) (p : RunPoint R) : Prop where
  | quiet (workqueue : s'.workqueue = s.workqueue) (stopper : s'.stopper = s.stopper)
      (promises : (s.worker w).Promises → p.Promises ∨ s.workqueue ≠ []) : Ran s s' w p
  | taken (request : Option R) (point : s.worker w = .taking)
      (workqueue : s.workqueue = request :: s'.workqueue) (stopper : s'.stopper = s.stopper)
      (next : p = .unlockingTaken request) : Ran s s' w p
  | signalled (workqueue : s'.workqueue = s.workqueue) (stopper : s'.stopper ≠ .blocked) :
      Ran s s' w p

/-- What a step of one thread leaves of the others. -/
structure Frame (s s' : Pool C R n) : Prop where
  maxRequests : s'.maxRequests = s.maxRequests
  appender : s'.appender = s.appender
  queued : s'.queued = s.queued

section

variable {s s' : Pool C R n} {c : C} {w : Fin n}

omit [DecidableEq C]

theorem stopper_signal (s : Pool C R n) :
  s.signal.stopper ≠ .blocked
  := by
  simp only [Pool.signal]
  split_ifs with h
  · simp
  · exact h

/-- A step of a worker. -/
theorem runStep_cases (h : s.runStep w = some s') :
  ∃ p, s'.worker = Function.update s.worker w p ∧ Frame s s' ∧ Ran s s' w p
  := by
  unfold Pool.runStep at h
  split at h
  case h_1 hp =>
    obtain rfl := Option.some.inj h
    exact ⟨_, rfl, ⟨rfl, rfl, rfl⟩, .quiet rfl rfl (by rw [hp]; exact False.elim)⟩
  case h_2 hp =>
    obtain ⟨-, h⟩ := Option.ite_none_left_eq_some.mp h
    obtain rfl := Option.some.inj h
    exact ⟨_, rfl, ⟨rfl, rfl, rfl⟩, .quiet rfl rfl (by rw [hp]; exact False.elim)⟩
  case h_3 hp =>
    obtain ⟨-, h⟩ := Option.ite_none_left_eq_some.mp h
    obtain rfl := Option.some.inj h
    exact ⟨_, rfl, ⟨rfl, rfl, rfl⟩, .quiet rfl rfl (by rw [hp]; exact False.elim)⟩
  case h_4 hp =>
    split at h
    case h_1 =>
      obtain rfl := Option.some.inj h
      exact ⟨_, rfl, ⟨rfl, rfl, rfl⟩, .quiet rfl rfl (by rw [hp]; exact False.elim)⟩
    case h_2 request workqueue hqueue =>
      obtain rfl := Option.some.inj h
      exact ⟨_, rfl, ⟨rfl, rfl, rfl⟩, .taken request hp hqueue rfl rfl⟩
  case h_5 hp =>
    obtain rfl := Option.some.inj h
    exact ⟨_, rfl, ⟨rfl, rfl, rfl⟩, .quiet rfl rfl (by rw [hp]; exact False.elim)⟩
  case h_6 hp =>
    obtain rfl := Option.some.inj h
    exact ⟨_, rfl, ⟨rfl, rfl, rfl⟩, .quiet rfl rfl (by rw [hp]; exact False.elim)⟩
  case h_7 request hp =>
    obtain rfl := Option.some.inj h
    exact ⟨_, rfl, ⟨rfl, rfl, rfl⟩, .quiet rfl rfl (fun _ => Or.inl trivial)⟩
  case h_8 hp =>
    obtain rfl := Option.some.inj h
    exact ⟨_, rfl, ⟨rfl, rfl, rfl⟩, .quiet rfl rfl (fun _ => Or.inl trivial)⟩
  case h_9 hp =>
    obtain ⟨-, h⟩ := Option.ite_none_left_eq_some.mp h
    obtain rfl := Option.some.inj h
    exact ⟨_, rfl, ⟨rfl, rfl, rfl⟩, .quiet rfl rfl (fun _ => Or.inl trivial)⟩
  case h_10 hp =>
    obtain rfl := Option.some.inj h
    refine ⟨_, rfl, ⟨rfl, rfl, rfl⟩, .quiet rfl rfl (fun _ => ?_)⟩
    split_ifs with hempty
    · apply Or.inl trivial
    · apply Or.inr hempty
  case h_11 hp =>
    obtain rfl := Option.some.inj h
    exact ⟨_, rfl, ⟨rfl, rfl, rfl⟩, .signalled rfl (stopper_signal s)⟩
  case h_12 hp =>
    obtain rfl := Option.some.inj h
    exact ⟨_, rfl, ⟨rfl, rfl, rfl⟩, .quiet rfl rfl (by rw [hp]; exact False.elim)⟩
  case h_13 => cases h

/-- A step of `stop` leaves the queue and the workers; only from `pthread_cond_wait` on it is
blocked. -/
theorem stopStep_cases (h : s.stopStep = some s') :
  s'.workqueue = s.workqueue ∧ s'.worker = s.worker ∧ Frame s s' ∧
    (s'.stopper = .blocked → s.stopper = .enteringCond)
  := by
  unfold Pool.stopStep at h
  split at h
  case h_2 =>
    obtain rfl := Option.some.inj h
    refine ⟨rfl, rfl, ⟨rfl, rfl, rfl⟩, ?_⟩
    dsimp only
    split_ifs
    · rintro ⟨⟩
    · rintro ⟨⟩
  case h_3 =>
    obtain ⟨-, h⟩ := Option.ite_none_left_eq_some.mp h
    obtain rfl := Option.some.inj h
    exact ⟨rfl, rfl, ⟨rfl, rfl, rfl⟩, by rintro ⟨⟩⟩
  case h_4 hp =>
    obtain rfl := Option.some.inj h
    exact ⟨rfl, rfl, ⟨rfl, rfl, rfl⟩, fun _ => hp⟩
  case h_5 => cases h
  case h_6 =>
    obtain ⟨-, h⟩ := Option.ite_none_left_eq_some.mp h
    obtain rfl := Option.some.inj h
    exact ⟨rfl, rfl, ⟨rfl, rfl, rfl⟩, by rintro ⟨⟩⟩
  case h_9 =>
    split_ifs at h
    · obtain rfl := Option.some.inj h
      exact ⟨rfl, rfl, ⟨rfl, rfl, rfl⟩, by rintro ⟨⟩⟩
    · obtain rfl := Option.some.inj h
      exact ⟨rfl, rfl, ⟨rfl, rfl, rfl⟩, by rintro ⟨⟩⟩
  case h_10 =>
    split_ifs at h
    · split at h
      · obtain rfl := Option.some.inj h
        exact ⟨rfl, rfl, ⟨rfl, rfl, rfl⟩, by rintro ⟨⟩⟩
      · cases h
    · obtain rfl := Option.some.inj h
      exact ⟨rfl, rfl, ⟨rfl, rfl, rfl⟩, by rintro ⟨⟩⟩
  case h_11 => cases h
  all_goals
    obtain rfl := Option.some.inj h
    exact ⟨rfl, rfl, ⟨rfl, rfl, rfl⟩, by rintro ⟨⟩⟩

theorem wakeStep_cases (h : s.wakeStep = some s') :
  s' = { s with stopper := .woken }
  := by
  obtain ⟨-, h⟩ := Option.ite_none_right_eq_some.mp h
  exact (Option.some.inj h).symm

end

/-- A step of `append`: it is refused, or its request is put into the queue, or the queue is left
alone and the call goes on as it has been decided. -/
inductive Appended (request : C → Option R) (s s' : Pool C R n) (c : C) (p : AppendPoint) :
    Prop where
  | refused (point : s.appender c = .testing) (full : s.maxRequests < s.workqueue.length)
      (workqueue : s'.workqueue = s.workqueue) (queued : s'.queued = s.queued)
      (next : p = .unlocking false) : Appended request s s' c p
  | accepted (point : s.appender c = .testing) (room : s.workqueue.length ≤ s.maxRequests)
      (workqueue : s'.workqueue = s.workqueue ++ [request c])
      (queued : s'.queued = insert c s.queued) (next : p = .unlocking true) :
      Appended request s s' c p
  | decided (point : s.appender c ≠ .testing) (workqueue : s'.workqueue = s.workqueue)
      (queued : s'.queued = s.queued) (next : p.hasQueued = (s.appender c).hasQueued) :
      Appended request s s' c p

theorem appendStep_cases {request : C → Option R} {s s' : Pool C R n} {c : C}
    (h : s.appendStep request c = some s') :
  ∃ p, s'.appender = Function.update s.appender c p ∧ s'.maxRequests = s.maxRequests ∧
    s'.worker = s.worker ∧ s'.stopper = s.stopper ∧ Appended request s s' c p
  := by
  unfold Pool.appendStep at h
  split at h
  case h_1 hp =>
    obtain ⟨-, h⟩ := Option.ite_none_left_eq_some.mp h
    obtain rfl := Option.some.inj h
    refine ⟨_, rfl, rfl, rfl, rfl, .decided ?_ rfl rfl ?_⟩
    · simp [hp]
    · rw [hp]
      rfl
  case h_2 hp =>
    split_ifs at h with hfull
    · obtain rfl := Option.some.inj h
      exact ⟨_, rfl, rfl, rfl, rfl, .refused hp hfull rfl rfl rfl⟩
    · obtain rfl := Option.some.inj h
      exact ⟨_, rfl, rfl, rfl, rfl, .accepted hp (Nat.le_of_not_lt hfull) rfl rfl rfl⟩
  case h_3 queued hp =>
    obtain rfl := Option.some.inj h
    refine ⟨_, rfl, rfl, rfl, rfl, .decided ?_ rfl rfl ?_⟩
    · simp [hp]
    · rw [hp]
      cases queued with
      | false => rfl
      | true => rfl
  case h_4 hp =>
    obtain rfl := Option.some.inj h
    refine ⟨_, rfl, rfl, rfl, rfl, .decided ?_ rfl rfl ?_⟩
    · simp [hp]
    · rw [hp]
      rfl
  case h_5 => cases h

end Workqueue
