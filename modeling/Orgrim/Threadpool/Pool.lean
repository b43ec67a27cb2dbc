import Mathlib.Data.Finset.Card
import Mathlib.Data.Int.Notation
import Orgrim.Theory.Heap
import Orgrim.Theory.Monitor

/-!
# The thread pool

`simple_threadpool.c`.  Producers call `threadpool_add_job`, again and again, the threads of the
pool run `threadpool_routine`, and `threadpool_destory` ends it.  The queue is a list of nodes
that `malloc` provides; a callback is a value of `F`, and its argument one of `A`.

A section is what a thread does while it has `mutex`, or one step without it: the call of a
callback, `free` after it, and what `threadpool_destory` does at its end.  An access to a node
that is not allocated, or to the pool after it has been freed, has no result.
-/

namespace Threadpool

/-- `job_t` -/
structure Job (X F A : Type*) where
  callbackFunc : F
  arg : A
  next : Option X

/-- `threadpool_t`, and the memory of the nodes.  `exited` counts the threads of the pool that
have ended, and `freed` tells that the pool has been freed. -/
structure Pool (X F A : Type*) where
  threadNum : ℕ
  queueMaxNum : ℤ
  queueCurNum : ℤ
  head : Option X
  tail : Option X
  queueClose : Bool
  poolClose : Bool
  exited : ℕ
  freed : Bool
  heap : Heap X (Job X F A)

/-- The condition variables of the pool. -/
inductive Cond where
  | queueEmpty
  | queueNotEmpty
  | queueNotFull
  deriving DecidableEq

/-- Where a thread is. -/
inductive Point (X F A : Type*) where
  | addJob
  | addJobWaits (callbackFunc : F) (arg : A)
  | routine
  | routineWaits
  | callback (pjob : X)
  | freeJob (pjob : X)
  | exited
  | destory
  | destoryWaits
  | wakeRoutines
  | wakeAddJobs
  | join
  | destroyed

/-- What happens to jobs: `threadpool_add_job` returns 0 or -1, a thread takes a job out of the
queue, and calls its callback. -/
inductive Event (F A : Type*) where
  | accepted (callbackFunc : F) (arg : A)
  | refused
  | dequeued (callbackFunc : F) (arg : A)
  | executed (callbackFunc : F) (arg : A)
  deriving DecidableEq

/-- The arguments of `threadpool_add_job`, and what `malloc` answers. -/
structure Input (X F A : Type*) where
  callbackFunc : Option F
  arg : A
  answer : Option X

/-- What a thread is there for. -/
inductive Role where
  | producer
  | worker
  | destroyer

abbrev Result (X F A : Type*) : Type _ :=
  Outcome (Point X F A) (Pool X F A) Cond (Event F A)

namespace Pool

/-- The pool that `threadpool_init` makes. -/
def init {X F A : Type*} (threadNum : ℕ) (queueMaxNum : ℤ) (heap : Heap X (Job X F A)) :
    Pool X F A where
  threadNum := threadNum
  queueMaxNum := queueMaxNum
  queueCurNum := 0
  head := none
  tail := none
  queueClose := false
  poolClose := false
  exited := 0
  freed := false
  heap := heap

variable {X F A : Type*} [DecidableEq X]

/-! ### `threadpool_add_job` -/

/-- Put a new node at the end of the queue. -/
def append (pool : Pool X F A) (pjob : X) : Option (Pool X F A) :=
  match pool.head with
  | none =>
      some { pool with
        head := some pjob
        tail := some pjob
        queueCurNum := pool.queueCurNum + 1 }
  | some _ =>
      pool.tail.bind (fun tail =>
        (pool.heap.modify tail (fun job => { job with next := some pjob })).map (fun heap =>
          { pool with
            heap := heap
            tail := some pjob
            queueCurNum := pool.queueCurNum + 1 }))

/-- The loop of `threadpool_add_job`, and what comes after it -/
def addJobLoop (pool : Pool X F A) (callbackFunc : F) (arg : A) (answer : Option X) :
    Option (Result X F A) :=
  if pool.queueCurNum = pool.queueMaxNum ∧ ¬ (pool.poolClose ∨ pool.queueClose) then
    some { point := .addJobWaits callbackFunc arg, shared := pool }
  else if pool.queueClose ∨ pool.poolClose then
    some { point := .addJob, shared := pool, events := [.refused] }
  else
    match pool.heap.malloc answer (fun _ => ⟨callbackFunc, arg, none⟩) with
    | (none, _) => some { point := .addJob, shared := pool, events := [.refused] }
    | (some pjob, heap) =>
        (append { pool with heap := heap } pjob).map (fun pool' =>
          { point := .addJob
            shared := pool'
            notes := if pool.head = none then [.broadcast .queueNotEmpty] else []
            events := [.accepted callbackFunc arg] })

/-- `threadpool_add_job` -/
def addJob (pool : Pool X F A) (callbackFunc : Option F) (arg : A) (answer : Option X) :
    Option (Result X F A) :=
  match callbackFunc with
  | none => some { point := .addJob, shared := pool, events := [.refused] }
  | some callbackFunc => pool.addJobLoop callbackFunc arg answer

/-! ### `threadpool_routine` -/

/-- Take the node at the head out of the queue. -/
def takeHead (pool : Pool X F A) (pjob : X) : Option (Pool X F A) :=
  let queueCurNum := pool.queueCurNum - 1
  if queueCurNum = 0 then
    some { pool with queueCurNum := queueCurNum, head := none, tail := none }
  else
    (pool.heap.load pjob).map (fun job =>
      { pool with queueCurNum := queueCurNum, head := job.next })

/-- Whom `threadpool_routine` notifies when it has taken a job. -/
def notes (pool : Pool X F A) : List (Note Cond) :=
  if pool.queueCurNum = 0 then [.signal .queueEmpty]
  else if pool.queueCurNum ≤ pool.queueMaxNum - 1 then [.broadcast .queueNotFull]
  else []

/-- `threadpool_routine`, from where it has `mutex` to where it gives it up -/
def routine (pool : Pool X F A) : Option (Result X F A) :=
  if pool.queueCurNum = 0 ∧ ¬ pool.poolClose then
    some { point := .routineWaits, shared := pool }
  else if pool.poolClose then
    some { point := .exited, shared := { pool with exited := pool.exited + 1 } }
  else
    pool.head.bind (fun pjob =>
      (pool.takeHead pjob).map (fun pool' =>
        { point := .callback pjob
          shared := pool'
          notes := pool'.notes
          events :=
            [.dequeued (pool.heap.cell pjob).callbackFunc (pool.heap.cell pjob).arg] }))

/-- The call of a callback -/
def callback (pool : Pool X F A) (pjob : X) : Option (Result X F A) :=
  (pool.heap.load pjob).map (fun job =>
    { point := .freeJob pjob, shared := pool, events := [.executed job.callbackFunc job.arg] })

/-- `free(pjob)` -/
def freeJob (pool : Pool X F A) (pjob : X) : Option (Result X F A) :=
  (pool.heap.free pjob).map (fun heap =>
    { point := .routine, shared := { pool with heap := heap } })

/-! ### `threadpool_destory` -/

/-- The loop of `threadpool_destory` -/
def destoryLoop (pool : Pool X F A) : Result X F A :=
  if pool.queueCurNum ≠ 0 then { point := .destoryWaits, shared := pool }
  else { point := .wakeRoutines, shared := { pool with poolClose := true } }

/-- `threadpool_destory`, as long as it has `mutex` -/
def destory (pool : Pool X F A) : Result X F A :=
  if pool.queueClose ∧ pool.poolClose then { point := .destroyed, shared := pool }
  else destoryLoop { pool with queueClose := true }

/-- Free the nodes that are left in the queue; they are not more than `fuel`. -/
def freeJobs : ℕ → Option X → Heap X (Job X F A) → Option (Heap X (Job X F A))
  | _, none, heap => some heap
  | 0, some _, _ => none
  | fuel + 1, some pjob, heap =>
      (heap.load pjob).bind (fun job => (heap.free pjob).bind (freeJobs fuel job.next))

/-- The end of `threadpool_destory`, when all threads of the pool have exited -/
def join (pool : Pool X F A) : Option (Result X F A) :=
  if pool.threadNum ≤ pool.exited then
    (freeJobs pool.heap.live.card pool.head pool.heap).map (fun heap =>
      { point := .destroyed, shared := { pool with head := none, heap := heap, freed := true } })
  else none

/-! ### The threads -/

/-- What a thread does, while the pool has not been freed. -/
def enter (pool : Pool X F A) (i : Input X F A) : Point X F A → Option (Result X F A)
  | .addJob => pool.addJob i.callbackFunc i.arg i.answer
  | .addJobWaits callbackFunc arg => pool.addJobLoop callbackFunc arg i.answer
  | .routine => pool.routine
  | .routineWaits => pool.routine
  | .callback pjob => pool.callback pjob
  | .freeJob pjob => pool.freeJob pjob
  | .exited => none
  | .destory => some pool.destory
  | .destoryWaits => some pool.destoryLoop
  | .wakeRoutines =>
      some { point := .wakeAddJobs, shared := pool, notes := [.broadcast .queueNotEmpty] }
  | .wakeAddJobs =>
      some { point := .join, shared := pool, notes := [.broadcast .queueNotFull] }
  | .join => pool.join
  | .destroyed => none

end Pool

/-- On which condition a thread waits. -/
def Point.waits {X F A : Type*} : Point X F A → Option Cond
  | .addJobWaits _ _ => some .queueNotFull
  | .routineWaits => some .queueNotEmpty
  | .destoryWaits => some .queueEmpty
  | _ => none

/-- The thread pool. -/
def monitor (X F A : Type*) [DecidableEq X] :
    Monitor (Point X F A) (Pool X F A) Cond (Input X F A) (Event F A) where
  waits := Point.waits
  enter p i pool := if pool.freed then none else pool.enter i p

/-- Where a thread begins. -/
def Role.point {X F A : Type*} : Role → Point X F A
  | .producer => .addJob
  | .worker => .routine
  | .destroyer => .destory

/-- The pool and its threads when `threadpool_init` returns. -/
def start {T X F A : Type*} [DecidableEq T] (roles : T → Role) (threadNum : ℕ)
    (queueMaxNum : ℤ) (heap : Heap X (Job X F A)) :
    Monitor.State T (Point X F A) (Pool X F A) Cond (Event F A) :=
  Monitor.start (Pool.init threadNum queueMaxNum heap) (fun t => (roles t).point)

end Threadpool
