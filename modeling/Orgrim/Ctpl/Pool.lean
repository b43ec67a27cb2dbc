import Orgrim.Theory.History
import Orgrim.Theory.Monitor

/-!
# The thread pool of functions

`ctpl_stl.h`.  A `thread_pool` of a fixed number of threads, other threads that `push` functions,
and one that calls `stop`.  The queue has a mutex of its own and the flags are atomic, so every
access to one of them is a step; `mutex` belongs to the condition variable, and who has it keeps it
over several steps.

The queue is what has ever been pushed, with the number of those that have been popped, so that a
function is known by its number.
-/

namespace Ctpl

/-- `thread_pool`, of the threads below `size`.  `flags`, `isDone`, `isStop` and `nWaiting` are the
atomics, `locked` tells that somebody has `mutex`, and `exited` which threads have returned. -/
structure ThreadPool (F : Type*) where
  pushed : List F
  popped : ℕ
  size : ℕ
  flags : ℕ → Bool
  isDone : Bool
  isStop : Bool
  nWaiting : ℤ
  locked : Bool
  exited : Finset ℕ

/-- `cv` -/
inductive Cond where
  | cv
  deriving DecidableEq

/-- Where a thread is.  The points of a thread of the pool have its number, and a function in its
hands has the number under which it was pushed. -/
inductive Point (F : Type*) where
  | pop (i : ℕ)
  | run (i k : ℕ) (f : F)
  | ran (i : ℕ)
  | lock (i : ℕ)
  | predicate (i : ℕ)
  | readDone (i : ℕ)
  | readFlag (i : ℕ)
  | waits (i : ℕ)
  | leave (i : ℕ) (next : Option (ℕ × F))
  | returned (i : ℕ)
  | client
  | notify (k : ℕ)
  | control
  | setFlags (i : ℕ)
  | clear
  | notifyAll
  | join (i : ℕ)
  | clearRest

/-- What happens to a function, by its number: it is pushed, `push` returns, it is run or deleted.
`stop(true)` sets `isDone`, and a `stop` that has joined the threads finds the queue empty.  One that
returns at its first test leaves no event. -/
inductive Event where
  | pushed (k : ℕ)
  | returned (k : ℕ)
  | executed (k : ℕ)
  | deleted (k : ℕ)
  | done
  | stopped
  deriving DecidableEq

/-- What is called from outside: `push` by a client, `stop` by the one who controls the pool. -/
inductive Call (F : Type*) where
  | push (f : F)
  | stop (isWait : Bool)

abbrev Result (F : Type*) : Type _ :=
  Outcome (Point F) (ThreadPool F) Cond Event

namespace ThreadPool

variable {F : Type*}

/-- The pool after its constructor has started its threads. -/
def init (nThreads : ℕ) : ThreadPool F where
  pushed := []
  popped := 0
  size := nThreads
  flags _ := false
  isDone := false
  isStop := false
  nWaiting := 0
  locked := false
  exited := ∅

/-- `q.pop`: the number and the function at the front of the queue, and the pool without it. -/
def pop (pool : ThreadPool F) : Option ((ℕ × F) × ThreadPool F) :=
  (pool.pushed[pool.popped]?).map (fun f =>
    ((pool.popped, f), { pool with popped := pool.popped + 1 }))

/-- A thread of the pool pops a function and goes on to run it, or to wait. -/
def popOrWait (pool : ThreadPool F) (i : ℕ) : Result F :=
  match pool.pop with
  | some ((k, f), pool) => { point := .run i k f, shared := pool }
  | none => { point := .lock i, shared := pool }

/-- The predicate of `cv.wait`, up to its first `||` -/
def popOrRead (pool : ThreadPool F) (i : ℕ) : Result F :=
  match pool.pop with
  | some (next, pool) => { point := .leave i (some next), shared := pool }
  | none => { point := .readDone i, shared := pool }

/-- The thread has what it waited for. -/
def leave (pool : ThreadPool F) (i : ℕ) (next : Option (ℕ × F)) : Result F :=
  let pool := { pool with nWaiting := pool.nWaiting - 1, locked := false }
  match next with
  | some (k, f) => { point := .run i k f, shared := pool }
  | none => { point := .returned i, shared := { pool with exited := insert i pool.exited } }

/-- `clear_queue`, one function, and where it goes when there is none -/
def clearQueue (pool : ThreadPool F) (again : Point F) (otherwise : Result F) : Result F :=
  match pool.pop with
  | some ((k, _), pool) => { point := again, shared := pool, events := [.deleted k] }
  | none => otherwise

/-- `stop`, up to its first loop -/
def stop (pool : ThreadPool F) (isWait : Bool) : Result F :=
  if isWait then
    if pool.isDone ∨ pool.isStop then { point := .control, shared := pool }
    else
      { point := .notifyAll, shared := { pool with isDone := true }, events := [.done] }
  else
    if pool.isStop then { point := .control, shared := pool }
    else { point := .setFlags 0, shared := { pool with isStop := true } }

/-- What a thread does. -/
def enter (pool : ThreadPool F) (call : Call F) : Point F → Option (Result F)
  | .pop i => some (pool.popOrWait i)
  | .run i k _ => some { point := .ran i, shared := pool, events := [.executed k] }
  | .ran i =>
      some (if pool.flags i then
          { point := .returned i, shared := { pool with exited := insert i pool.exited } }
        else { point := .pop i, shared := pool })
  | .lock i =>
      if pool.locked then none
      else
        some
          { point := .predicate i
            shared := { pool with nWaiting := pool.nWaiting + 1, locked := true } }
  | .predicate i => some (pool.popOrRead i)
  | .readDone i =>
      some { point := if pool.isDone then .leave i none else .readFlag i, shared := pool }
  | .readFlag i =>
      some (if pool.flags i then { point := .leave i none, shared := pool }
        else { point := .waits i, shared := { pool with locked := false } })
  | .waits i =>
      if pool.locked then none
      else some { point := .predicate i, shared := { pool with locked := true } }
  | .leave i next => some (pool.leave i next)
  | .returned _ => none
  | .client =>
      match call with
      | .push f =>
          some
            { point := .notify pool.pushed.length
              shared := { pool with pushed := pool.pushed ++ [f] }
              events := [.pushed pool.pushed.length] }
      | .stop _ => none
  | .notify k =>
      if pool.locked then none
      else
        some { point := .client, shared := pool, notes := [.signal .cv], events := [.returned k] }
  | .control =>
      match call with
      | .push _ => none
      | .stop isWait => some (pool.stop isWait)
  | .setFlags i =>
      some (if i < pool.size then
          { point := .setFlags (i + 1)
            shared := { pool with flags := Function.update pool.flags i true } }
        else { point := .clear, shared := pool })
  | .clear => some (pool.clearQueue .clear { point := .notifyAll, shared := pool })
  | .notifyAll =>
      if pool.locked then none
      else some { point := .join 0, shared := pool, notes := [.broadcast .cv] }
  | .join i =>
      if i < pool.size then
        if i ∈ pool.exited then some { point := .join (i + 1), shared := pool } else none
      else some { point := .clearRest, shared := pool }
  | .clearRest =>
      some (pool.clearQueue .clearRest
        { point := .control, shared := { pool with size := 0 }, events := [.stopped] })

end ThreadPool

/-- On which condition a thread waits. -/
def Point.waitsFor {F : Type*} : Point F → Option Cond
  | .waits _ => some .cv
  | _ => none

/-- The pool. -/
def monitor (F : Type*) : Monitor (Point F) (ThreadPool F) Cond (Call F) Event where
  waits := Point.waitsFor
  enter p call pool := pool.enter call p

/-- The threads: those of the pool, those that push, and the one that controls it. -/
inductive Thread (nThreads : ℕ) (U : Type*) where
  | worker (i : Fin nThreads)
  | client (u : U)
  | controller
  deriving DecidableEq

/-- Where a thread begins. -/
def Thread.point {nThreads : ℕ} {U F : Type*} : Thread nThreads U → Point F
  | .worker i => .pop i
  | .client _ => .client
  | .controller => .control

abbrev State (nThreads : ℕ) (U F : Type*) : Type _ :=
  Monitor.State (Thread nThreads U) (Point F) (ThreadPool F) Cond Event

/-- The pool and the threads at the start. -/
def start {nThreads : ℕ} {U F : Type*} [DecidableEq U] : State nThreads U F :=
  Monitor.start (ThreadPool.init nThreads) Thread.point

end Ctpl
