import Mathlib.Data.Fintype.Basic
import Orgrim.Theory.Machine
import Orgrim.Theory.Memory

/-!
# The circle buffer

`CircleBuffer.cpp`: a pool of eight messages that up to eight subscribers read.  Every message
carries the set of subscribers that still have to read it.  `Sub`, `UnSub`, `Write` and `Read`
are single actions of the `Machine` `circleBuffer`; `Read` is enabled when it does not wait.
The destructor, which alone sets `bRelease`, is left out.  Positions and counts are
`unsigned int`.  Where `arrMsgData.at` throws depends on the position it gets; single actions only
come to positions in range (`along_positions`).
-/

namespace CircleBuffer

/-- `MSG_POOL_SIZE` -/
abbrev msgPoolSize : ℕ := 8

/-- `MSG_SUB_SIZE` -/
abbrev msgSubSize : ℕ := 8

/-- A position in a `bitset<MSG_SUB_SIZE>`. -/
abbrev BitsetPos : Type := Fin msgSubSize

/-- A `bitset<MSG_SUB_SIZE>`: the positions that are set. -/
abbrev Bitset : Type := Finset BitsetPos

/-- A message: `pData` are the `nSize` bytes at `pData`, if it is not `nullptr`. -/
structure MsgData where
  pData : Option (List UInt8)
  bs : Bitset
  release : Bool

/-- `nSize` -/
def MsgData.nSize (msg : MsgData) : ℕ := (msg.pData.map List.length).getD 0

/-- The pool; the messages are the first `msgPoolSize` cells of `arrMsgData`. -/
structure MsgDataPool where
  bsSubscribers : Bitset
  arrMsgData : Memory MsgData
  arrSubPos : BitsetPos → ℕ
  currWritePos : ℕ
  currMsgDataNum : ℕ
  release : Bool

/-- `SetFirstEmptyField`: the first position that is not set, and the set with it. -/
def setFirstEmptyField (bs : Bitset) : Option (BitsetPos × Bitset) :=
  ((List.finRange msgSubSize).find? (fun i => decide (i ∉ bs))).map (fun i => (i, insert i bs))

/-- How positions in the pool are wrapped. -/
def wrap (pos : ℕ) : ℕ := if pos ≥ msgPoolSize then pos - msgPoolSize else pos

/-- The increment of an `unsigned int`. -/
def increment (n : ℕ) : ℕ := (n + 1) % 2 ^ 32

/-- The decrement of an `unsigned int`. -/
def decrement (n : ℕ) : ℕ := (n + (2 ^ 32 - 1)) % 2 ^ 32

/-- `bs.set` on the message at a position. -/
def setPending (b : BitsetPos) (arr : Memory MsgData) (pos : ℕ) : Memory MsgData :=
  Function.update arr pos { arr pos with bs := insert b (arr pos).bs }

/-- `bs.reset` on the message at a position. -/
def resetPending (b : BitsetPos) (arr : Memory MsgData) (pos : ℕ) : Memory MsgData :=
  Function.update arr pos { arr pos with bs := (arr pos).bs.erase b }

namespace MsgDataPool

/-- The pool the constructor makes. -/
def start : MsgDataPool where
  bsSubscribers := ∅
  arrMsgData _ := ⟨none, ∅, false⟩
  arrSubPos _ := 0
  currWritePos := 0
  currMsgDataNum := 0
  release := false

/-- The positions `Sub` goes through. -/
def backlog (pool : MsgDataPool) : List ℕ :=
  (List.range' pool.currWritePos (pool.currMsgDataNum - pool.currWritePos)).map wrap

/-- `Sub`; it returns `-1` when there is no room. -/
def sub (pool : MsgDataPool) : Option BitsetPos × MsgDataPool :=
  match setFirstEmptyField pool.bsSubscribers with
  | none => (none, pool)
  | some (b, bs) =>
      (some b, { pool with
        bsSubscribers := bs
        arrMsgData := pool.backlog.foldl (setPending b) pool.arrMsgData
        arrSubPos := Function.update pool.arrSubPos b pool.currWritePos })

/-- `UnSub` -/
def unSub (pool : MsgDataPool) (b : BitsetPos) : MsgDataPool :=
  { pool with
    bsSubscribers := pool.bsSubscribers.erase b
    arrMsgData := (List.range msgPoolSize).foldl (resetPending b) pool.arrMsgData }

/-- `uiEndPosition` in `Write` -/
def endPosition (pool : MsgDataPool) : ℕ :=
  wrap ((pool.currMsgDataNum + pool.currWritePos) % 2 ^ 32)

/-- `Write` returns without having stored anything. -/
def refuses (pool : MsgDataPool) (pData : Option (List UInt8)) : Prop :=
  pData = none ∨ (pData.getD []).length ≤ 0 ∨ pool.bsSubscribers = ∅

instance (pool : MsgDataPool) (pData : Option (List UInt8)) : Decidable (pool.refuses pData) :=
  inferInstanceAs (Decidable (_ ∨ _ ∨ _))

/-- `Write` -/
def write (pool : MsgDataPool) (pData : Option (List UInt8)) : ℕ × MsgDataPool :=
  if pool.refuses pData then (1, pool)
  else
    let msg := pool.arrMsgData pool.endPosition
    (0, { pool with
      arrMsgData := Function.update pool.arrMsgData pool.endPosition
        { msg with pData := pData, bs := pool.bsSubscribers }
      currMsgDataNum :=
        if pool.currMsgDataNum = msgPoolSize then pool.currMsgDataNum
        else increment pool.currMsgDataNum })

/-- `Read` waits on `PoolCond` or on `DataLocker`. -/
def waits (pool : MsgDataPool) (b : BitsetPos) : Prop :=
  let msg := pool.arrMsgData (pool.arrSubPos b)
  (pool.currMsgDataNum ≤ 0 ∧ pool.release = false) ∨
    ((b ∉ msg.bs ∨ msg.pData = none ∨ msg.nSize ≤ 0) ∧ msg.release = false)

instance (pool : MsgDataPool) (b : BitsetPos) : Decidable (pool.waits b) :=
  inferInstanceAs (Decidable ((_ ∧ _) ∨ ((_ ∨ _ ∨ _) ∧ _)))

/-- What `Read` does with the message it has copied. -/
def readMsg (pool : MsgDataPool) (b : BitsetPos) : MsgDataPool :=
  let pos := pool.arrSubPos b
  let msg := pool.arrMsgData pos
  let bs := msg.bs.erase b
  -- `uiCurrMsgDataNum < 0` never holds of an `unsigned int`
  { pool with
    arrMsgData := Function.update pool.arrMsgData pos { msg with bs := bs }
    currMsgDataNum := if bs = ∅ then decrement pool.currMsgDataNum else pool.currMsgDataNum
    currWritePos := if bs = ∅ then wrap (pool.currWritePos + 1) else pool.currWritePos
    arrSubPos := Function.update pool.arrSubPos b (wrap (pos + 1)) }

/-- `Read`, when it does not wait: the bytes stored, and the pool. -/
def read (pool : MsgDataPool) (b : BitsetPos) : Option (List UInt8 × MsgDataPool) :=
  if pool.waits b then none
  else some ((pool.arrMsgData (pool.arrSubPos b)).pData.getD [], pool.readMsg b)

end MsgDataPool

/-- The calls. -/
inductive Call where
  | sub
  | unSub (b : BitsetPos)
  | write (pData : Option (List UInt8))
  | read (b : BitsetPos)
deriving DecidableEq

/-- The pool after a call. -/
def MsgDataPool.call (pool : MsgDataPool) : Call → Option MsgDataPool
  | .sub => some pool.sub.2
  | .unSub b => some (pool.unSub b)
  | .write pData => some (pool.write pData).2
  | .read b => (pool.read b).map Prod.snd

/-- The threads that use a `CircleBuffer`. -/
def circleBuffer : Machine MsgDataPool Call where
  step := MsgDataPool.call

/-- The messages written, and those returned to each subscriber. -/
structure History where
  written : List (List UInt8)
  received : BitsetPos → List (List UInt8)

namespace History

/-- Nothing has been written. -/
def start : History where
  written := []
  received _ := []

/-- The history after a call. -/
def after (pool : MsgDataPool) (c : Call) (g : History) : History :=
  match c with
  | .write pData =>
      if (pool.write pData).1 = 0 then { g with written := g.written ++ pData.toList } else g
  | .read b =>
      match pool.read b with
      | none => g
      | some (data, _) =>
          { g with received := Function.update g.received b (g.received b ++ [data]) }
  | _ => g

end History

/-- The buffer with its history. -/
def recorded : Machine (MsgDataPool × History) Call := circleBuffer.recording History.after

/-! ### Arithmetic -/

theorem wrap_lt {pos : ℕ} (h : pos < msgPoolSize + msgPoolSize) :
  wrap pos < msgPoolSize
  := by
  simp only [msgPoolSize] at h
  rw [wrap]
  split
  · simp only [msgPoolSize]
    omega
  · omega

/-- A position that is not too large is wrapped by a subtraction. -/
theorem wrap_mod_add {a k : ℕ} (hk : k ≤ msgPoolSize) :
  wrap (a % msgPoolSize + k) = (a + k) % msgPoolSize
  := by
  simp only [msgPoolSize] at hk
  rw [wrap]
  split
  · simp only [msgPoolSize] at *
    omega
  · simp only [msgPoolSize] at *
    omega

theorem increment_eq {n : ℕ} (h : n ≤ msgPoolSize) :
  increment n = n + 1
  := by
  simp only [msgPoolSize] at h
  rw [increment]
  omega

theorem decrement_eq {n : ℕ} (hpos : 0 < n) (hle : n ≤ msgPoolSize) :
  decrement n = n - 1
  := by
  simp only [msgPoolSize] at hle
  rw [decrement]
  omega

/-! ### The calls -/

/-- The position found is free. -/
theorem setFirstEmptyField_eq_some {bs bs' : Bitset} {b : BitsetPos}
    (h : setFirstEmptyField bs = some (b, bs')) :
  b ∉ bs ∧ bs' = insert b bs
  := by
  obtain ⟨i, hfind, h⟩ := Option.map_eq_some_iff.mp h
  obtain ⟨rfl, rfl⟩ := Prod.mk.inj h
  have hfree := List.find?_some hfind
  exact ⟨of_decide_eq_true hfree, rfl⟩

theorem setFirstEmptyField_eq_none {bs : Bitset} :
  setFirstEmptyField bs = none ↔ bs = Finset.univ
  := by
  simp [setFirstEmptyField, Finset.eq_univ_iff_forall]

/-- The loop of `Sub` sets the bit on the messages at the positions it goes through. -/
theorem foldl_setPending (b : BitsetPos) (pos : ℕ) : ∀ (l : List ℕ) (arr : Memory MsgData),
    l.foldl (setPending b) arr pos
      = if pos ∈ l then { arr pos with bs := insert b (arr pos).bs } else arr pos
  | [], _ => rfl
  | p :: l, arr => by
      rw [List.foldl_cons, foldl_setPending b pos l]
      by_cases hp : pos = p
      · subst hp
        simp [setPending]
      · simp [setPending, hp]

/-- The loop of `UnSub` resets the bit on the messages at the positions it goes through. -/
theorem foldl_resetPending (b : BitsetPos) (pos : ℕ) : ∀ (l : List ℕ) (arr : Memory MsgData),
    l.foldl (resetPending b) arr pos
      = if pos ∈ l then { arr pos with bs := (arr pos).bs.erase b } else arr pos
  | [], _ => rfl
  | p :: l, arr => by
      rw [List.foldl_cons, foldl_resetPending b pos l]
      by_cases hp : pos = p
      · subst hp
        simp [resetPending]
      · simp [resetPending, hp]

/-- What `Sub` does. -/
theorem sub_cases (pool : MsgDataPool) :
  (pool.bsSubscribers = Finset.univ ∧ pool.sub = (none, pool)) ∨
    ∃ b ∉ pool.bsSubscribers, pool.sub = (some b, { pool with
      bsSubscribers := insert b pool.bsSubscribers
      arrMsgData := pool.backlog.foldl (setPending b) pool.arrMsgData
      arrSubPos := Function.update pool.arrSubPos b pool.currWritePos })
  := by
  cases hfield : setFirstEmptyField pool.bsSubscribers with
  | none =>
      left
      use setFirstEmptyField_eq_none.mp hfield
      rw [MsgDataPool.sub, hfield]
  | some found =>
      obtain ⟨b, bs⟩ := found
      obtain ⟨hb, rfl⟩ := setFirstEmptyField_eq_some hfield
      right
      use b, hb
      rw [MsgDataPool.sub, hfield]

theorem read_eq_none {pool : MsgDataPool} {b : BitsetPos} :
  pool.read b = none ↔ pool.waits b
  := by
  simp [MsgDataPool.read]

/-- What `Read` does when it does not wait. -/
theorem read_eq_some {pool pool' : MsgDataPool} {b : BitsetPos} {data : List UInt8}
    (h : pool.read b = some (data, pool')) :
  ¬ pool.waits b ∧ data = (pool.arrMsgData (pool.arrSubPos b)).pData.getD [] ∧
    pool' = pool.readMsg b
  := by
  obtain ⟨hwaits, h⟩ := Option.ite_none_left_eq_some.mp h
  obtain ⟨rfl, rfl⟩ := Prod.mk.inj (Option.some.inj h)
  exact ⟨hwaits, rfl, rfl⟩

/-! ### Positions -/

/-- The positions in `arrMsgData` that a call uses. -/
def MsgDataPool.positions (pool : MsgDataPool) : Call → List ℕ
  | .sub => pool.backlog
  | .unSub _ => List.range msgPoolSize
  | .write _ => [pool.endPosition]
  | .read b => [pool.arrSubPos b]

/-- The positions and the number of messages are in range. -/
structure InRange (pool : MsgDataPool) : Prop where
  subPos : ∀ b, pool.arrSubPos b < msgPoolSize
  writePos : pool.currWritePos < msgPoolSize
  dataNum : pool.currMsgDataNum ≤ msgPoolSize
  release : pool.release = false

theorem InRange.start : InRange .start where
  subPos _ := Nat.succ_pos 7
  writePos := Nat.succ_pos 7
  dataNum := Nat.zero_le _
  release := rfl

theorem InRange.update {pool : MsgDataPool} (h : InRange pool) {b : BitsetPos} {pos : ℕ}
    (hpos : pos < msgPoolSize) (b' : BitsetPos) :
  Function.update pool.arrSubPos b pos b' < msgPoolSize
  := by
  by_cases hb : b' = b
  · subst hb
    rw [Function.update_self]
    exact hpos
  · rw [Function.update_of_ne hb]
    apply h.subPos

theorem InRange.endPosition {pool : MsgDataPool} (h : InRange pool) :
  pool.endPosition = wrap (pool.currMsgDataNum + pool.currWritePos)
  := by
  have hwrite := h.writePos
  have hnum := h.dataNum
  simp only [msgPoolSize] at hwrite hnum
  rw [MsgDataPool.endPosition, Nat.mod_eq_of_lt (by omega)]

theorem InRange.positions {pool : MsgDataPool} (h : InRange pool) (c : Call) :
  ∀ pos ∈ pool.positions c, pos < msgPoolSize
  := by
  have hwrite := h.writePos
  have hnum := h.dataNum
  intro pos hpos
  cases c with
  | sub =>
      obtain ⟨i, hi, rfl⟩ := List.mem_map.mp hpos
      have hlt := (List.mem_range'_1.mp hi).2
      apply wrap_lt
      omega
  | unSub b => apply List.mem_range.mp hpos
  | write pData =>
      obtain rfl := List.mem_singleton.mp hpos
      rw [h.endPosition]
      apply wrap_lt
      omega
  | read b =>
      obtain rfl := List.mem_singleton.mp hpos
      apply h.subPos

theorem InRange.sub {pool : MsgDataPool} (h : InRange pool) :
  InRange pool.sub.2
  := by
  rcases sub_cases pool with ⟨-, hsub⟩ | ⟨b, -, hsub⟩
  · rw [hsub]
    exact h
  · rw [hsub]
    exact ⟨h.update h.writePos, h.writePos, h.dataNum, h.release⟩

theorem InRange.write {pool : MsgDataPool} (h : InRange pool) (pData : Option (List UInt8)) :
  InRange (pool.write pData).2
  := by
  rw [MsgDataPool.write]
  split
  · exact h
  · refine ⟨h.subPos, h.writePos, ?_, h.release⟩
    have hnum := h.dataNum
    simp only
    split
    · exact hnum
    · rw [increment_eq hnum]
      omega

theorem InRange.read {pool : MsgDataPool} (h : InRange pool) {b : BitsetPos}
    (hwaits : ¬ pool.waits b) :
  InRange (pool.readMsg b)
  := by
  have hsub := h.subPos b
  have hwrite := h.writePos
  have hnum := h.dataNum
  have hpos : 0 < pool.currMsgDataNum := by
    by_contra hzero
    apply hwaits
    left
    exact ⟨by omega, h.release⟩
  refine ⟨h.update (wrap_lt (by omega)), ?_, ?_, h.release⟩
  · rw [MsgDataPool.readMsg]
    simp only
    split
    · apply wrap_lt
      omega
    · exact hwrite
  · rw [MsgDataPool.readMsg]
    simp only
    split
    · rw [decrement_eq hpos hnum]
      omega
    · exact hnum

theorem InRange.call {pool pool' : MsgDataPool} (h : InRange pool) {c : Call}
    (hcall : pool' ∈ pool.call c) :
  InRange pool'
  := by
  cases c with
  | sub =>
      obtain rfl := Option.some.inj hcall
      apply h.sub
  | unSub b =>
      obtain rfl := Option.some.inj hcall
      exact ⟨h.subPos, h.writePos, h.dataNum, h.release⟩
  | write pData =>
      obtain rfl := Option.some.inj hcall
      apply h.write
  | read b =>
      obtain ⟨⟨data, pool''⟩, hread, rfl⟩ := Option.map_eq_some_iff.mp hcall
      obtain ⟨hwaits, -, rfl⟩ := read_eq_some hread
      apply h.read hwaits

/-! ### Subscribers -/

/-- Only subscribers still have to read a message. -/
def Subscribed (pool : MsgDataPool) : Prop :=
  ∀ pos < msgPoolSize, (pool.arrMsgData pos).bs ⊆ pool.bsSubscribers

theorem Subscribed.start : Subscribed .start := fun _ _ => Finset.empty_subset _

theorem Subscribed.call {pool pool' : MsgDataPool} (h : Subscribed pool) {c : Call}
    (hcall : pool' ∈ pool.call c) :
  Subscribed pool'
  := by
  cases c with
  | sub =>
      obtain rfl := Option.some.inj hcall
      rcases sub_cases pool with ⟨-, hsub⟩ | ⟨b, -, hsub⟩
      · rw [hsub]
        exact h
      · rw [hsub]
        intro pos hpos
        simp only [foldl_setPending]
        split
        · apply Finset.insert_subset_insert b (h pos hpos)
        · exact (h pos hpos).trans (Finset.subset_insert b _)
  | unSub b =>
      obtain rfl := Option.some.inj hcall
      intro pos hpos
      simp only [MsgDataPool.unSub, foldl_resetPending, List.mem_range, if_pos hpos]
      apply Finset.erase_subset_erase b (h pos hpos)
  | write pData =>
      obtain rfl := Option.some.inj hcall
      rw [MsgDataPool.write]
      split
      · exact h
      · intro pos hpos
        by_cases hend : pos = pool.endPosition
        · subst hend
          simp only [Function.update_self]
          exact subset_rfl
        · simp only [Function.update_of_ne hend]
          apply h pos hpos
  | read b =>
      obtain ⟨⟨data, pool''⟩, hread, rfl⟩ := Option.map_eq_some_iff.mp hcall
      obtain ⟨-, -, rfl⟩ := read_eq_some hread
      intro pos hpos
      by_cases hread : pos = pool.arrSubPos b
      · subst hread
        simp only [MsgDataPool.readMsg, Function.update_self]
        exact (Finset.erase_subset b _).trans (h _ hpos)
      · simp only [MsgDataPool.readMsg, Function.update_of_ne hread]
        apply h pos hpos

/-- Without the destructor no message is released. -/
def Unreleased (pool : MsgDataPool) : Prop := ∀ pos, (pool.arrMsgData pos).release = false

theorem Unreleased.start : Unreleased .start := fun _ => rfl

theorem Unreleased.call {pool pool' : MsgDataPool} (h : Unreleased pool) {c : Call}
    (hcall : pool' ∈ pool.call c) :
  Unreleased pool'
  := by
  cases c with
  | sub =>
      obtain rfl := Option.some.inj hcall
      rcases sub_cases pool with ⟨-, hsub⟩ | ⟨b, -, hsub⟩
      · rw [hsub]
        exact h
      · rw [hsub]
        intro pos
        simp only [foldl_setPending]
        split
        · apply h pos
        · apply h pos
  | unSub b =>
      obtain rfl := Option.some.inj hcall
      intro pos
      simp only [MsgDataPool.unSub, foldl_resetPending]
      split
      · apply h pos
      · apply h pos
  | write pData =>
      obtain rfl := Option.some.inj hcall
      rw [MsgDataPool.write]
      split
      · exact h
      · intro pos
        by_cases hend : pos = pool.endPosition
        · subst hend
          simp only [Function.update_self]
          apply h
        · simp only [Function.update_of_ne hend]
          apply h pos
  | read b =>
      obtain ⟨⟨data, pool''⟩, hread, rfl⟩ := Option.map_eq_some_iff.mp hcall
      obtain ⟨-, -, rfl⟩ := read_eq_some hread
      intro pos
      by_cases hread : pos = pool.arrSubPos b
      · subst hread
        simp only [MsgDataPool.readMsg, Function.update_self]
        apply h
      · simp only [MsgDataPool.readMsg, Function.update_of_ne hread]
        apply h pos

/-- Whatever is called in whatever order, no position outside of `arrMsgData` is used. -/
theorem along_positions (calls : List Call) :
  circleBuffer.Along (fun pool c => ∀ pos ∈ pool.positions c, pos < msgPoolSize) .start calls
  := by
  apply Machine.along_of_invariant (Q := fun _ _ => True) InRange _ .start
  · apply Machine.along_of_forall
    intro _ _
    trivial
  · intro pool c h _
    exact ⟨h.positions c, fun _ hcall => h.call hcall⟩

end CircleBuffer
