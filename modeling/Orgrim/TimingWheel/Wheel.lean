import Mathlib.Algebra.Group.Nat.Defs
import Mathlib.Data.Finset.Card
import Mathlib.Data.Int.Notation
import Mathlib.Logic.Function.Basic
import Orgrim.Theory.Heap
import Orgrim.Theory.Machine

/-!
# The timing wheel

`timing_wheel.h`.  The timers are cells of a heap with addresses in `X`: `new` answers with an
address, and `delete` makes a cell unallocated.  Whatever reads or writes a cell that is not
allocated, or uses a null pointer, has no result.  The callback of a timer is run with the data of
the user that its creator has put there; what counts here is whose callback is run.
-/

namespace TimingWheel

variable {X : Type*}

/-- `tw_timer` -/
structure TwTimer (X : Type*) where
  rotation : ℕ
  timeSlot : ℕ
  next : Option X
  prev : Option X

/-- `time_wheel`, and the memory of the timers. -/
structure TimeWheel (X : Type*) where
  heap : Heap X (TwTimer X)
  slots : ℕ → Option X
  curSlot : ℕ

/-- The number of slots. -/
def N : ℕ := 60

/-- The time between two ticks. -/
def TI : ℤ := 1

/-- The ticks after which a timer with this timeout expires. -/
def ticks (timeout : ℤ) : ℕ :=
  if timeout < TI then 1 else (timeout / TI).toNat

namespace TimeWheel

/-- The wheel before any timer has been added. -/
def init : TimeWheel X where
  heap := { live := ∅, cell := fun _ => ⟨0, 0, none, none⟩ }
  slots _ := none
  curSlot := 0

variable [DecidableEq X]

/-- `p->prev = v`, if `p` is not null. -/
def setPrev (heap : Heap X (TwTimer X)) (p v : Option X) : Option (Heap X (TwTimer X)) :=
  match p with
  | none => some heap
  | some x => heap.modify x (fun timer => { timer with prev := v })

/-- `p->next = v` -/
def setNext (heap : Heap X (TwTimer X)) (p v : Option X) : Option (Heap X (TwTimer X)) :=
  match p with
  | none => none
  | some x => heap.modify x (fun timer => { timer with next := v })

/-- `add_timer`; `answer` is the address with which `new` answers. -/
def addTimer (w : TimeWheel X) (timeout : ℤ) (answer : Option X) :
    Option (Option X × TimeWheel X) :=
  if timeout < 0 then some (none, w)
  else
    let rotation := ticks timeout / N
    let ts := (w.curSlot + ticks timeout % N) % N
    match w.heap.malloc answer (fun _ => ⟨rotation, ts, none, none⟩) with
    | (none, _) => some (none, w)
    | (some timer, heap) =>
        match w.slots ts with
        | none =>
            some (some timer,
              { w with heap := heap, slots := Function.update w.slots ts (some timer) })
        | some head => do
            let heap ← setNext heap (some timer) (some head)
            let heap ← setPrev heap (some head) (some timer)
            some (some timer,
              { w with heap := heap, slots := Function.update w.slots ts (some timer) })

/-- `del_timer` -/
def delTimer (w : TimeWheel X) : Option X → Option (TimeWheel X)
  | none => some w
  | some timer => do
      let node ← w.heap.load timer
      if some timer = w.slots node.timeSlot then
        let heap ← setPrev w.heap node.next none
        let heap ← heap.free timer
        some { w with
          heap := heap
          slots := Function.update w.slots node.timeSlot node.next }
      else
        let heap ← setNext w.heap node.prev node.next
        let node ← heap.load timer
        let heap ← setPrev heap node.next node.prev
        let heap ← heap.free timer
        some { w with heap := heap }

/-- What `tick` does to a timer whose callback it has run, and the timer with which it goes on. -/
def expire (w : TimeWheel X) (tmp : X) : Option (Option X × TimeWheel X) := do
  let node ← w.heap.load tmp
  if some tmp = w.slots w.curSlot then
    let heap ← w.heap.free tmp
    let heap ← setPrev heap node.next none
    some (node.next,
      { w with heap := heap, slots := Function.update w.slots w.curSlot node.next })
  else
    let heap ← setNext w.heap node.prev node.next
    let node ← heap.load tmp
    let heap ← setPrev heap node.next node.prev
    let node ← heap.load tmp
    let heap ← heap.free tmp
    some (node.next, { w with heap := heap })

/-- The loop of `tick`, for a number of rounds that suffices: the timers whose callbacks it runs,
and what it leaves. -/
def tickLoop : ℕ → TimeWheel X → Option X → Option (List X × TimeWheel X)
  | _, w, none => some ([], w)
  | 0, _, some _ => none
  | fuel + 1, w, some tmp => do
      let node ← w.heap.load tmp
      if 0 < node.rotation then
        let heap ← w.heap.modify tmp (fun timer => { timer with rotation := timer.rotation - 1 })
        let node ← heap.load tmp
        tickLoop fuel { w with heap := heap } node.next
      else
        let (next, w) ← w.expire tmp
        let (fired, w) ← tickLoop fuel w next
        some (tmp :: fired, w)

/-- `tick` -/
def tick (w : TimeWheel X) : Option (List X × TimeWheel X) := do
  let (fired, w) ← tickLoop w.heap.live.card w (w.slots w.curSlot)
  some (fired, { w with curSlot := (w.curSlot + 1) % N })

end TimeWheel

/-- A call of a function of the wheel. -/
inductive Call (X : Type*) where
  | addTimer (timeout : ℤ) (answer : Option X)
  | delTimer (timer : Option X)
  | tick
  deriving DecidableEq

/-- The wheel, and the calls of its functions. -/
def calls [DecidableEq X] : Machine (TimeWheel X) (Call X) where
  step w
    | .addTimer timeout answer => (w.addTimer timeout answer).map Prod.snd
    | .delTimer timer => w.delTimer timer
    | .tick => w.tick.map Prod.snd

end TimingWheel
