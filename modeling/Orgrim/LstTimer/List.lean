import Mathlib.Data.Finset.Card
import Mathlib.Data.Int.Notation
import Orgrim.Theory.Heap
import Orgrim.Theory.Machine

/-!
# The sorted list of timers

`lst_timer.h`.  The timers are cells of a heap with addresses in `X`, which their creator allocates
and the functions here free.  Whatever reads or writes a cell that is not allocated, or uses a null
pointer, has no result.  What a callback is given does not matter here, only whose it is.
-/

namespace LstTimer

variable {X : Type*}

/-- `util_timer` -/
structure UtilTimer (X : Type*) where
  expire : ℤ
  prev : Option X
  next : Option X

/-- `sort_timer_lst`, and the memory of the timers. -/
structure SortTimerLst (X : Type*) where
  heap : Heap X (UtilTimer X)
  head : Option X
  tail : Option X

namespace SortTimerLst

/-- The list before any timer has been added. -/
def init : SortTimerLst X where
  heap := { live := ∅, cell := fun _ => ⟨0, none, none⟩ }
  head := none
  tail := none

variable [DecidableEq X]

/-- `p->prev = v` -/
def setPrev (heap : Heap X (UtilTimer X)) (p v : Option X) : Option (Heap X (UtilTimer X)) :=
  match p with
  | none => none
  | some x => heap.modify x (fun timer => { timer with prev := v })

/-- `p->next = v` -/
def setNext (heap : Heap X (UtilTimer X)) (p v : Option X) : Option (Heap X (UtilTimer X)) :=
  match p with
  | none => none
  | some x => heap.modify x (fun timer => { timer with next := v })

/-- `add_timer(timer, lst_head)`, where the loop has come to `prev`, for a number of rounds that
suffices. -/
def addTimerFrom : ℕ → SortTimerLst X → X → X → Option (SortTimerLst X)
  | 0, _, _, _ => none
  | fuel + 1, l, timer, prev => do
      let prevNode ← l.heap.load prev
      match prevNode.next with
      | none =>
          let heap ← setNext l.heap (some prev) (some timer)
          let heap ← setPrev heap (some timer) (some prev)
          let heap ← setNext heap (some timer) none
          some { l with heap := heap, tail := some timer }
      | some tmp =>
          let timerNode ← l.heap.load timer
          let tmpNode ← l.heap.load tmp
          if timerNode.expire < tmpNode.expire then
            let heap ← setNext l.heap (some prev) (some timer)
            let heap ← setNext heap (some timer) (some tmp)
            let heap ← setPrev heap (some tmp) (some timer)
            let heap ← setPrev heap (some timer) (some prev)
            some { l with heap := heap }
          else addTimerFrom fuel l timer tmp

/-- `add_timer` -/
def addTimer (l : SortTimerLst X) : Option X → Option (SortTimerLst X)
  | none => some l
  | some timer =>
      match l.head with
      | none => some { l with head := some timer, tail := some timer }
      | some head => do
          let timerNode ← l.heap.load timer
          let headNode ← l.heap.load head
          if timerNode.expire < headNode.expire then
            let heap ← setNext l.heap (some timer) (some head)
            let heap ← setPrev heap (some head) (some timer)
            some { l with heap := heap, head := some timer }
          else addTimerFrom l.heap.live.card l timer head

/-- `adjust_timer` -/
def adjustTimer (l : SortTimerLst X) : Option X → Option (SortTimerLst X)
  | none => some l
  | some timer => do
      let node ← l.heap.load timer
      match node.next with
      | none => some l
      | some tmp =>
          let tmpNode ← l.heap.load tmp
          if node.expire < tmpNode.expire then some l
          else if l.head = some timer then
            let heap ← setPrev l.heap (some tmp) none
            let heap ← setNext heap (some timer) none
            addTimerFrom heap.live.card { l with heap := heap, head := some tmp } timer tmp
          else
            let heap ← setNext l.heap node.prev node.next
            let node ← heap.load timer
            let heap ← setPrev heap node.next node.prev
            let node ← heap.load timer
            let next ← node.next
            addTimerFrom heap.live.card { l with heap := heap } timer next

/-- `del_timer` -/
def delTimer (l : SortTimerLst X) : Option X → Option (SortTimerLst X)
  | none => some l
  | some timer =>
      if l.head = some timer ∧ l.tail = some timer then do
        let heap ← l.heap.free timer
        some { heap := heap, head := none, tail := none }
      else if l.head = some timer then do
        let node ← l.heap.load timer
        let heap ← setPrev l.heap node.next none
        let heap ← heap.free timer
        some { l with heap := heap, head := node.next }
      else if l.tail = some timer then do
        let node ← l.heap.load timer
        let heap ← setNext l.heap node.prev none
        let heap ← heap.free timer
        some { l with heap := heap, tail := node.prev }
      else do
        let node ← l.heap.load timer
        let heap ← setNext l.heap node.prev node.next
        let node ← heap.load timer
        let heap ← setPrev heap node.next node.prev
        let heap ← heap.free timer
        some { l with heap := heap }

/-- `if (head) head->prev = nullptr` -/
def clearPrev (heap : Heap X (UtilTimer X)) (head : Option X) : Option (Heap X (UtilTimer X)) :=
  match head with
  | none => some heap
  | some head => setPrev heap (some head) none

/-- The loop of `tick` at the time `cur`, for a number of rounds that suffices: the timers whose
callbacks it runs, and what it leaves. -/
def tickLoop (cur : ℤ) : ℕ → SortTimerLst X → Option X → Option (List X × SortTimerLst X)
  | _, l, none => some ([], l)
  | 0, _, some _ => none
  | fuel + 1, l, some tmp => do
      let node ← l.heap.load tmp
      if cur < node.expire then some ([], l)
      else
        let heap ← clearPrev l.heap node.next
        let heap ← heap.free tmp
        let (fired, l) ← tickLoop cur fuel { l with heap := heap, head := node.next } node.next
        some (tmp :: fired, l)

/-- `tick`, at the time `cur` -/
def tick (l : SortTimerLst X) (cur : ℤ) : Option (List X × SortTimerLst X) :=
  tickLoop cur l.heap.live.card l l.head

end SortTimerLst

/-- What is done with the list: a new timer is added, the timeout of a timer is changed and the
timer is adjusted, a timer is deleted, or `tick` is called at the time `cur`. -/
inductive Call (X : Type*) where
  | addTimer (timer : X) (expire : ℤ)
  | adjustTimer (timer : X) (expire : ℤ)
  | delTimer (timer : X)
  | tick (cur : ℤ)
  deriving DecidableEq

/-- The list, and the calls of its functions. -/
def calls [DecidableEq X] : Machine (SortTimerLst X) (Call X) where
  step l
    | .addTimer timer expire =>
        { l with heap := l.heap.add timer (fun _ => ⟨expire, none, none⟩) }.addTimer (some timer)
    | .adjustTimer timer expire => do
        let heap ← l.heap.modify timer (fun node => { node with expire := expire })
        { l with heap := heap }.adjustTimer (some timer)
    | .delTimer timer => l.delTimer (some timer)
    | .tick cur => (l.tick cur).map Prod.snd

end LstTimer
