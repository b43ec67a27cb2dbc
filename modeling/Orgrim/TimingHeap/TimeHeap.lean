import Mathlib.Algebra.Group.Nat.Defs
import Mathlib.Data.Int.Notation
import Mathlib.Logic.Function.Basic
import Orgrim.Theory.Machine
import Orgrim.Theory.Memory

/-!
# The heap of timers

`timing_heap.h`.  `X` names the timers, and `array` is the array of pointers to them.  Whatever reads
or writes the array behind `capacity`, or uses a null pointer, has no result.  The timers that
`pop_timer` deletes are part of what it returns; what they held stays readable, but the heap does not
come to it any more (`notMem_deleted`).
-/

namespace TimingHeap

variable {X : Type}

/-- `heap_timer`; `cbFunc` tells whether there is a callback. -/
structure HeapTimer where
  expire : ℤ
  cbFunc : Bool

/-- `time_heap`, and the timers. -/
structure TimeHeap (X : Type) where
  timers : X → HeapTimer
  array : Memory (Option X)
  capacity : ℕ
  curSize : ℕ

namespace TimeHeap

/-- `array[i]` -/
def get (h : TimeHeap X) (i : ℕ) : Option (Option X) :=
  if i < h.capacity then some (h.array i) else none

/-- `array[i] = p` -/
def set (h : TimeHeap X) (i : ℕ) (p : Option X) : Option (TimeHeap X) :=
  if i < h.capacity then some { h with array := Function.update h.array i p } else none

/-- `array[i]->expire` -/
def expireAt (h : TimeHeap X) (i : ℕ) : Option ℤ := do
  let p ← h.get i
  let timer ← p
  some (h.timers timer).expire

/-- The child of `hole` to which `percolate_down` goes: the left one, unless the right one expires
earlier. -/
def child (h : TimeHeap X) (hole : ℕ) : Option ℕ :=
  if hole * 2 + 1 < h.curSize - 1 then do
    let right ← h.expireAt (hole * 2 + 2)
    let left ← h.expireAt (hole * 2 + 1)
    some (if right < left then hole * 2 + 2 else hole * 2 + 1)
  else some (hole * 2 + 1)

/-- The loop of `percolate_down`, for a number of rounds that suffices. -/
def percolateDownLoop : ℕ → TimeHeap X → Option X → ℕ → Option (TimeHeap X)
  | 0, _, _, _ => none
  | fuel + 1, h, temp, hole =>
      if hole * 2 + 1 ≤ h.curSize - 1 then do
        let child ← h.child hole
        let expire ← h.expireAt child
        let timer ← temp
        if expire < (h.timers timer).expire then
          let p ← h.get child
          let h ← h.set hole p
          percolateDownLoop fuel h temp child
        else h.set hole temp
      else h.set hole temp

/-- `percolate_down` -/
def percolateDown (h : TimeHeap X) (hole : ℕ) : Option (TimeHeap X) := do
  let temp ← h.get hole
  percolateDownLoop (h.curSize + 1) h temp hole

/-- The first constructor: an empty heap. -/
def ofCapacity (timers : X → HeapTimer) (cap : ℕ) : TimeHeap X where
  timers := timers
  array _ := none
  capacity := cap
  curSize := 0

/-- The loop of the second constructor: `percolate_down(i)`, `percolate_down(i - 1)`, and so on. -/
def percolateAll (h : TimeHeap X) : ℕ → Option (TimeHeap X)
  | 0 => h.percolateDown 0
  | i + 1 => do
      let h ← h.percolateDown (i + 1)
      percolateAll h i

/-- The second constructor: a heap of the timers of an array.  It throws an exception if there are
too many. -/
def ofArray (timers : X → HeapTimer) (initArray : List X) (capacity : ℕ) : Option (TimeHeap X) :=
  if capacity < initArray.length then none
  else
    let h : TimeHeap X :=
      { timers := timers
        array := fun i => initArray[i]?
        capacity := capacity
        curSize := initArray.length }
    if initArray.length ≠ 0 then h.percolateAll ((initArray.length - 1) / 2) else some h

/-- `resize` -/
def resize (h : TimeHeap X) : Option (TimeHeap X) :=
  if h.curSize ≤ h.capacity then
    some { h with
      array := fun i => if i < h.curSize then h.array i else none
      capacity := 2 * h.capacity }
  else none

/-- `if (cur_size >= capacity) resize();` -/
def resizeIfFull (h : TimeHeap X) : Option (TimeHeap X) :=
  if h.capacity ≤ h.curSize then h.resize else some h

/-- The loop of `add_timer`, for a number of rounds that suffices. -/
def addTimerLoop : ℕ → TimeHeap X → X → ℕ → Option (TimeHeap X)
  | 0, _, _, _ => none
  | fuel + 1, h, timer, hole =>
      if 0 < hole then do
        let parent := (hole - 1) / 2
        let expire ← h.expireAt parent
        if expire ≤ (h.timers timer).expire then h.set hole (some timer)
        else
          let p ← h.get parent
          let h ← h.set hole p
          addTimerLoop fuel h timer parent
      else h.set hole (some timer)

/-- `add_timer` -/
def addTimer (h : TimeHeap X) : Option X → Option (TimeHeap X)
  | none => some h
  | some timer => do
      let h ← h.resizeIfFull
      addTimerLoop (h.curSize + 1) { h with curSize := h.curSize + 1 } timer h.curSize

/-- `del_timer` -/
def delTimer [DecidableEq X] (h : TimeHeap X) : Option X → TimeHeap X
  | none => h
  | some timer =>
      { h with timers := Function.update h.timers timer { h.timers timer with cbFunc := false } }

/-- `pop_timer`, and the timer it deletes. -/
def popTimer (h : TimeHeap X) : Option (Option X × TimeHeap X) :=
  if h.curSize = 0 then some (none, h)
  else do
    let p ← h.get 0
    match p with
    | none => some (none, h)
    | some timer =>
        let h := { h with curSize := h.curSize - 1 }
        let last ← h.get h.curSize
        let h ← h.set 0 last
        let h ← h.percolateDown 0
        some (some timer, h)

/-- The loop of `tick` at the time `cur`, for a number of rounds that suffices: the timers it
deletes, those of them whose callbacks it runs, and what it leaves. -/
def tickLoop (cur : ℤ) : ℕ → TimeHeap X → Option X → Option (List X × List X × TimeHeap X)
  | 0, _, _ => none
  | fuel + 1, h, tmp =>
      if h.curSize = 0 then some ([], [], h)
      else
        match tmp with
        | none => some ([], [], h)
        | some timer =>
            if cur < (h.timers timer).expire then some ([], [], h)
            else do
              let p ← h.get 0
              let first ← p
              let called := if (h.timers first).cbFunc then [first] else []
              let (deleted, h) ← h.popTimer
              let tmp ← h.get 0
              let (alsoDeleted, alsoCalled, h) ← tickLoop cur fuel h tmp
              some (deleted.toList ++ alsoDeleted, called ++ alsoCalled, h)

/-- `tick`, at the time `cur` -/
def tick (h : TimeHeap X) (cur : ℤ) : Option (List X × List X × TimeHeap X) := do
  let tmp ← h.get 0
  tickLoop cur (h.curSize + 1) h tmp

end TimeHeap

/-- How the heap is created. -/
inductive Start (X : Type) where
  | ofCapacity (cap : ℕ)
  | ofArray (initArray : List X) (capacity : ℕ)

/-- A call of a function of the heap. -/
inductive Call (X : Type) where
  | addTimer (timer : Option X)
  | delTimer (timer : Option X)
  | popTimer
  | tick (cur : ℤ)

/-- The heap, and the timers that have been added to it and deleted by it so far. -/
structure Session (X : Type) where
  heap : TimeHeap X
  added : List X
  deleted : List X

/-- What follows on a constructor. -/
def Start.session (timers : X → HeapTimer) : Start X → Option (Session X)
  | .ofCapacity cap =>
      some { heap := TimeHeap.ofCapacity timers cap, added := [], deleted := [] }
  | .ofArray initArray capacity =>
      (TimeHeap.ofArray timers initArray capacity).map
        (fun h => { heap := h, added := initArray, deleted := [] })

/-- The heap, and the calls of its functions. -/
def calls [DecidableEq X] : Machine (Session X) (Call X) where
  step s
    | .addTimer timer =>
        (s.heap.addTimer timer).map
          (fun h => { s with heap := h, added := s.added ++ timer.toList })
    | .delTimer timer => some { s with heap := s.heap.delTimer timer }
    | .popTimer =>
        s.heap.popTimer.map
          (fun r => { s with heap := r.2, deleted := s.deleted ++ r.1.toList })
    | .tick cur =>
        (s.heap.tick cur).map
          (fun r => { s with heap := r.2.2, deleted := s.deleted ++ r.1 })

end TimingHeap
