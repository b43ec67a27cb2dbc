import Mathlib.Algebra.Group.Int.Defs
import Orgrim.Theory.History
import Orgrim.Theory.Memory
import Orgrim.Theory.Monitor

/-!
# The pool of tasks

`threadpool.c`, the pool with a circular queue.  Clients call `pool_add_task`, `pool_wait` and
`pool_destroy`, again and again, and the threads of the pool run `worker_thread_func`.  What a task
calls is a value of `F`, and its argument one of `A`.

A section is what a thread does while it has `mutex`, or one step without it: the call of
`work_routine`, and what `pool_destroy` does after `pool_wait`.  An access to the pool after it has
been freed has no result, and neither has an addition that does not fit into an `int`.
-/

namespace TaskPool

/-- `struct task_data` -/
structure TaskData (F A : Type*) where
  workRoutine : F
  arg : A
  deriving DecidableEq

/-- `TASK_QUEUE_MAX` -/
def taskQueueMax : ℕ := 1000

/-- `struct thread_pool`.  `freed` tells that the pool has been freed. -/
structure ThreadPool (F A : Type*) where
  taskQueue : Memory (TaskData F A)
  queueHead : ℤ
  queueTail : ℤ
  scheduled : ℤ
  freed : Bool

/-- The condition variables of the pool. -/
inductive Cond where
  | workAvailable
  | done
  deriving DecidableEq

/-- Where a thread is.  A thread that waits for `done` is in `pool_wait`, on behalf of
`pool_destroy` or not. -/
inductive Point (F A : Type*) where
  | worker
  | workerWaits
  | run (pickedTask : TaskData F A)
  | ran
  | client
  | waits (destroy : Bool)
  | free

/-- What happens: a task is put into the queue, a thread picks it and runs it; `pool_wait`
returns. -/
inductive Event (F A : Type*) where
  | added (task : TaskData F A)
  | picked (task : TaskData F A)
  | executed (task : TaskData F A)
  | waited
  deriving DecidableEq

/-- What a client calls. -/
inductive Call (F A : Type*) where
  | addTask (workRoutine : F) (arg : A)
  | wait
  | destroy

/-- What a thread is there for. -/
inductive Role where
  | worker
  | client
  deriving DecidableEq

abbrev Result (F A : Type*) : Type _ :=
  Outcome (Point F A) (ThreadPool F A) Cond (Event F A)

/-- `n++`, for an `int` -/
def increment (n : ℤ) : Option ℤ := if n < 2 ^ 31 - 1 then some (n + 1) else none

namespace ThreadPool

variable {F A : Type*}

/-- The pool that `pool_init` makes. -/
def init (taskQueue : Memory (TaskData F A)) : ThreadPool F A where
  taskQueue := taskQueue
  queueHead := 0
  queueTail := 0
  scheduled := 0
  freed := false

/-- The place of the queue that `queue_head` or `queue_tail` means -/
def slot (n : ℤ) : ℕ := (n % taskQueueMax).toNat

/-- `worker_thread_func`, from where it has `mutex` to where it gives it up to run a task -/
def pick (pool : ThreadPool F A) : Option (Result F A) :=
  if pool.queueHead = pool.queueTail then some { point := .workerWaits, shared := pool }
  else
    let pickedTask := pool.taskQueue (slot pool.queueHead)
    (increment pool.queueHead).bind (fun queueHead =>
      (increment pool.scheduled).map (fun scheduled =>
        { point := .run pickedTask
          shared := { pool with queueHead := queueHead, scheduled := scheduled }
          events := [.picked pickedTask] }))

/-- `worker_thread_func`, when it has run a task -/
def finish (pool : ThreadPool F A) : Result F A where
  point := .worker
  shared := { pool with scheduled := pool.scheduled - 1 }
  notes := if pool.scheduled - 1 = 0 then [.signal .done] else []

/-- `pool_add_task` -/
def addTask (pool : ThreadPool F A) (task : TaskData F A) : Option (Result F A) :=
  (increment pool.queueTail).map (fun queueTail =>
    { point := .client
      shared := { pool with
        taskQueue := Function.update pool.taskQueue (slot pool.queueTail) task
        queueTail := queueTail }
      notes := if pool.queueHead = pool.queueTail then [.broadcast .workAvailable] else []
      events := [.added task] })

/-- `pool_wait`, and `pool_destroy` up to where this returns -/
def wait (pool : ThreadPool F A) (destroy : Bool) : Result F A :=
  if 0 < pool.scheduled then { point := .waits destroy, shared := pool }
  else
    { point := if destroy then .free else .client
      shared := pool
      events := [.waited] }

/-- What a thread does, while the pool has not been freed. -/
def enter (pool : ThreadPool F A) (call : Call F A) : Point F A → Option (Result F A)
  | .worker => pool.pick
  | .workerWaits => pool.pick
  | .run pickedTask =>
      some { point := .ran, shared := pool, events := [.executed pickedTask] }
  | .ran => some pool.finish
  | .client =>
      match call with
      | .addTask workRoutine arg => pool.addTask ⟨workRoutine, arg⟩
      | .wait => some (pool.wait false)
      | .destroy => some (pool.wait true)
  | .waits destroy => some (pool.wait destroy)
  | .free => some { point := .client, shared := { pool with freed := true } }

end ThreadPool

/-- On which condition a thread waits. -/
def Point.waitsFor {F A : Type*} : Point F A → Option Cond
  | .workerWaits => some .workAvailable
  | .waits _ => some .done
  | _ => none

/-- The pool. -/
def monitor (F A : Type*) :
    Monitor (Point F A) (ThreadPool F A) Cond (Call F A) (Event F A) where
  waits := Point.waitsFor
  enter p call pool := if pool.freed then none else pool.enter call p

/-- Where a thread begins. -/
def Role.point {F A : Type*} : Role → Point F A
  | .worker => .worker
  | .client => .client

/-- The pool and its threads when `pool_init` returns. -/
def start {T F A : Type*} [DecidableEq T] (roles : T → Role) (taskQueue : Memory (TaskData F A)) :
    Monitor.State T (Point F A) (ThreadPool F A) Cond (Event F A) :=
  Monitor.start (ThreadPool.init taskQueue) (fun t => (roles t).point)

end TaskPool
