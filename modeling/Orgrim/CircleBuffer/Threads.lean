import Orgrim.CircleBuffer.Pool
import Orgrim.Theory.Locks

/-!
# The threads of the circle buffer

The same calls with their locks: `PoolCond`, and the `DataLocker` of every message.  A point of
the program is the lock operation that comes next; what is computed under the locks after it
belongs to it.  Waiting on a condition releases its lock and acquires it again; a thread that
waits may be woken at any time.

`arrMsgData.at` throws when it gets a position that is out of range: the threads can come to such
positions, since `uiCurrMsgDataNum` can go below zero.  Nobody catches what it throws, and nobody
unlocks `PoolCond` then.

A call that runs alone does what `MsgDataPool.call` says, if it stays in range (`alone_call`).
-/

namespace CircleBuffer

/-- `PoolCond`, and the `DataLocker` of the message at a position. -/
inductive Lock where
  | pool
  | data (pos : ℕ)
deriving DecidableEq

/-- Where a thread is: the lock operation it does next. -/
inductive Point where
  | idle
  | entry (c : Call)
  | subLock (b : BitsetPos) (i : ℕ)
  | subUnlock (b : BitsetPos) (i : ℕ)
  | unSubLock (b : BitsetPos) (i : ℕ)
  | unSubUnlock (b : BitsetPos) (i : ℕ)
  | writeLock (pData : Option (List UInt8)) (pos : ℕ)
  | writeUnlock (pos : ℕ)
  | readPoolWait (b : BitsetPos)
  | readPoolWake (b : BitsetPos)
  | readPoolUnlock (b : BitsetPos) (pos : ℕ)
  | readDataLock (b : BitsetPos) (pos : ℕ)
  | readDataWait (b : BitsetPos) (pos : ℕ)
  | readDataWake (b : BitsetPos) (pos : ℕ)
  | readReturn (pos : ℕ)
  | readLast (b : BitsetPos) (pos : ℕ)
  | readLastUnlock (b : BitsetPos) (pos : ℕ)
  | readDataUnlock (b : BitsetPos) (pos : ℕ)
  | readAdvance (b : BitsetPos)
  | poolUnlock
  | thrown
deriving DecidableEq

namespace Point

/-- Where a call starts; `Write` looks at its arguments before it locks anything. -/
def ofCall : Call → Point
  | .write pData =>
      if pData = none ∨ (pData.getD []).length ≤ 0 then .idle else .entry (.write pData)
  | c => .entry c

/-- The lock operation at a point. -/
def op : Point → Option (LockOp Lock)
  | .idle => none
  | .entry _ => some (.acquire .pool)
  | .subLock _ i => some (.acquire (.data (wrap i)))
  | .subUnlock _ i => some (.release (.data (wrap i)))
  | .unSubLock _ i => some (.acquire (.data i))
  | .unSubUnlock _ i => some (.release (.data i))
  | .writeLock _ pos => some (.acquire (.data pos))
  | .writeUnlock pos => some (.release (.data pos))
  | .readPoolWait _ => some (.release .pool)
  | .readPoolWake _ => some (.acquire .pool)
  | .readPoolUnlock _ _ => some (.release .pool)
  | .readDataLock _ pos => some (.acquire (.data pos))
  | .readDataWait _ pos => some (.release (.data pos))
  | .readDataWake _ pos => some (.acquire (.data pos))
  | .readReturn pos => some (.release (.data pos))
  | .readLast _ _ => some (.acquire .pool)
  | .readLastUnlock _ _ => some (.release .pool)
  | .readDataUnlock _ pos => some (.release (.data pos))
  | .readAdvance _ => some (.acquire .pool)
  | .poolUnlock => some (.release .pool)
  | .thrown => none

/-- The locks held before the operation at a point. -/
def held : Point → List Lock
  | .idle => []
  | .entry _ => []
  | .subLock _ _ => [.pool]
  | .subUnlock _ i => [.data (wrap i), .pool]
  | .unSubLock _ _ => [.pool]
  | .unSubUnlock _ i => [.data i, .pool]
  | .writeLock _ _ => [.pool]
  | .writeUnlock pos => [.data pos, .pool]
  | .readPoolWait _ => [.pool]
  | .readPoolWake _ => []
  | .readPoolUnlock _ _ => [.pool]
  | .readDataLock _ _ => []
  | .readDataWait _ pos => [.data pos]
  | .readDataWake _ _ => []
  | .readReturn pos => [.data pos]
  | .readLast _ pos => [.data pos]
  | .readLastUnlock _ pos => [.pool, .data pos]
  | .readDataUnlock _ pos => [.data pos]
  | .readAdvance _ => []
  | .poolUnlock => [.pool]
  | .thrown => [.pool]

end Point

namespace MsgDataPool

/-- `arrMsgData.at`, and the point that comes next if it does not throw. -/
def atMsg (pool : MsgDataPool) (pos : ℕ) (p : Point) : Point × MsgDataPool :=
  if pos < msgPoolSize then (p, pool) else (.thrown, pool)

/-- The loop of `Sub`, at its test. -/
def subLoop (pool : MsgDataPool) (b : BitsetPos) (i : ℕ) : Point × MsgDataPool :=
  if i < pool.currMsgDataNum then pool.atMsg (wrap i) (.subLock b i)
  else
    (.poolUnlock, { pool with
      arrSubPos := Function.update pool.arrSubPos b pool.currWritePos })

/-- The loop of `UnSub`, at its test. -/
def unSubLoop (pool : MsgDataPool) (b : BitsetPos) (i : ℕ) : Point × MsgDataPool :=
  if i < msgPoolSize then (.unSubLock b i, pool) else (.poolUnlock, pool)

/-- The first loop of `Read`, at its test. -/
def readPool (pool : MsgDataPool) (b : BitsetPos) : Point × MsgDataPool :=
  if pool.currMsgDataNum ≤ 0 ∧ pool.release = false then (.readPoolWait b, pool)
  else pool.atMsg (pool.arrSubPos b) (.readPoolUnlock b (pool.arrSubPos b))

/-- The test of the second loop of `Read`. -/
def waitsForData (pool : MsgDataPool) (b : BitsetPos) (pos : ℕ) : Prop :=
  let msg := pool.arrMsgData pos
  (b ∉ msg.bs ∨ msg.pData = none ∨ msg.nSize ≤ 0) ∧ msg.release = false

instance (pool : MsgDataPool) (b : BitsetPos) (pos : ℕ) : Decidable (pool.waitsForData b pos) :=
  inferInstanceAs (Decidable ((_ ∨ _ ∨ _) ∧ _))

/-- The second loop of `Read`, at its test. -/
def readData (pool : MsgDataPool) (b : BitsetPos) (pos : ℕ) : Point × MsgDataPool :=
  if pool.waitsForData b pos then (.readDataWait b pos, pool)
  else
    let msg := pool.arrMsgData pos
    let bs := msg.bs.erase b
    let pool := { pool with arrMsgData := Function.update pool.arrMsgData pos { msg with bs := bs } }
    if bs = ∅ then (.readLast b pos, pool) else (.readDataUnlock b pos, pool)

/-- What a call does when it has locked `PoolCond`. -/
def entered (pool : MsgDataPool) : Call → Point × MsgDataPool
  | .sub =>
      match setFirstEmptyField pool.bsSubscribers with
      | none => (.poolUnlock, pool)
      | some (b, bs) => { pool with bsSubscribers := bs }.subLoop b pool.currWritePos
  | .unSub b => { pool with bsSubscribers := pool.bsSubscribers.erase b }.unSubLoop b 0
  | .write pData =>
      if pool.bsSubscribers = ∅ then (.poolUnlock, pool)
      else pool.atMsg pool.endPosition (.writeLock pData pool.endPosition)
  | .read b => pool.readPool b

/-- What is computed after the lock operation at a point. -/
def next (pool : MsgDataPool) : Point → Point × MsgDataPool
  | .idle => (.idle, pool)
  | .entry c => pool.entered c
  | .subLock b i =>
      (.subUnlock b i, { pool with arrMsgData := setPending b pool.arrMsgData (wrap i) })
  | .subUnlock b i => pool.subLoop b (i + 1)
  | .unSubLock b i =>
      (.unSubUnlock b i, { pool with arrMsgData := resetPending b pool.arrMsgData i })
  | .unSubUnlock b i => pool.unSubLoop b (i + 1)
  | .writeLock pData pos =>
      (.writeUnlock pos, { pool with
        arrMsgData := Function.update pool.arrMsgData pos
          { pool.arrMsgData pos with pData := pData, bs := pool.bsSubscribers } })
  | .writeUnlock _ =>
      (.poolUnlock, { pool with
        currMsgDataNum :=
          if pool.currMsgDataNum = msgPoolSize then pool.currMsgDataNum
          else increment pool.currMsgDataNum })
  | .readPoolWait b => (.readPoolWake b, pool)
  | .readPoolWake b => if pool.release then (.poolUnlock, pool) else pool.readPool b
  | .readPoolUnlock b pos => (.readDataLock b pos, pool)
  | .readDataLock b pos => pool.readData b pos
  | .readDataWait b pos => (.readDataWake b pos, pool)
  | .readDataWake b pos =>
      if (pool.arrMsgData pos).release then (.readReturn pos, pool) else pool.readData b pos
  | .readReturn _ => (.idle, pool)
  | .readLast b pos =>
      (.readLastUnlock b pos, { pool with
        currMsgDataNum := decrement pool.currMsgDataNum
        currWritePos := wrap (pool.currWritePos + 1) })
  | .readLastUnlock b pos => (.readDataUnlock b pos, pool)
  | .readDataUnlock b _ => (.readAdvance b, pool)
  | .readAdvance b =>
      (.poolUnlock, { pool with
        arrSubPos := Function.update pool.arrSubPos b (wrap (pool.arrSubPos b + 1)) })
  | .poolUnlock => (.idle, pool)
  | .thrown => (.thrown, pool)

end MsgDataPool

/-- The program of the threads. -/
def program : LockProgram Lock MsgDataPool Call Point where
  entry := Point.ofCall
  idle p := decide (p = .idle)
  op := Point.op
  next p pool := pool.next p
  op_of_idle p h := by
    rw [of_decide_eq_true h]
    rfl

/-- The threads before their first calls. -/
def startThreads (T : Type*) : Threads T Lock MsgDataPool Point where
  shared := .start
  point _ := .idle
  owner _ := none

/-! ### The locks held -/

section

variable (pool : MsgDataPool) (b : BitsetPos)

theorem held_atMsg (pos : ℕ) {p : Point} (h : p.held = [.pool]) :
  (pool.atMsg pos p).1.held = [.pool]
  := by
  rw [MsgDataPool.atMsg]
  split
  · exact h
  · rfl

theorem held_subLoop (i : ℕ) :
  (pool.subLoop b i).1.held = [.pool]
  := by
  rw [MsgDataPool.subLoop]
  split
  · apply held_atMsg
    rfl
  · rfl

theorem held_unSubLoop (i : ℕ) :
  (pool.unSubLoop b i).1.held = [.pool]
  := by
  rw [MsgDataPool.unSubLoop]
  split
  · rfl
  · rfl

theorem held_readPool :
  (pool.readPool b).1.held = [.pool]
  := by
  rw [MsgDataPool.readPool]
  split
  · rfl
  · apply held_atMsg
    rfl

theorem held_readData (pos : ℕ) :
  (pool.readData b pos).1.held = [.data pos]
  := by
  rw [MsgDataPool.readData]
  split
  · rfl
  · dsimp only
    split
    · rfl
    · rfl

theorem held_entered (c : Call) :
  (pool.entered c).1.held = [.pool]
  := by
  cases c with
  | sub =>
      rw [MsgDataPool.entered]
      split
      · rfl
      · apply held_subLoop
  | unSub b => apply held_unSubLoop
  | write pData =>
      rw [MsgDataPool.entered]
      split
      · rfl
      · apply held_atMsg
        rfl
  | read b => apply held_readPool

end

theorem held_next_acquire (pool : MsgDataPool) {p : Point} {l : Lock}
    (hop : p.op = some (.acquire l)) :
  (pool.next p).1.held = l :: p.held
  := by
  cases p with
  | entry c =>
      cases hop
      apply held_entered
  | subLock b i =>
      cases hop
      rfl
  | unSubLock b i =>
      cases hop
      rfl
  | writeLock pData pos =>
      cases hop
      rfl
  | readPoolWake b =>
      cases hop
      rw [MsgDataPool.next]
      split
      · rfl
      · apply held_readPool
  | readDataLock b pos =>
      cases hop
      apply held_readData
  | readDataWake b pos =>
      cases hop
      rw [MsgDataPool.next]
      split
      · rfl
      · apply held_readData
  | readLast b pos =>
      cases hop
      rfl
  | readAdvance b =>
      cases hop
      rfl
  | _ => cases hop

theorem held_next_release (pool : MsgDataPool) {p : Point} {l : Lock}
    (hop : p.op = some (.release l)) :
  p.held = l :: (pool.next p).1.held
  := by
  cases p with
  | subUnlock b i =>
      cases hop
      rw [MsgDataPool.next, held_subLoop]
      rfl
  | unSubUnlock b i =>
      cases hop
      rw [MsgDataPool.next, held_unSubLoop]
      rfl
  | idle => cases hop
  | entry c => cases hop
  | subLock b i => cases hop
  | unSubLock b i => cases hop
  | writeLock pData pos => cases hop
  | readPoolWake b => cases hop
  | readDataLock b pos => cases hop
  | readDataWake b pos => cases hop
  | readLast b pos => cases hop
  | readAdvance b => cases hop
  | thrown => cases hop
  | _ =>
      cases hop
      rfl

theorem nodup_held (p : Point) :
  p.held.Nodup
  := by
  cases p <;> simp [Point.held]

/-- The locks held at the points agree with the operations. -/
theorem balanced : program.Balanced (fun p l => l ∈ p.held)
  := by
  constructor
  · intro p l hidle
    obtain rfl : p = .idle := of_decide_eq_true hidle
    apply List.not_mem_nil
  · intro c l
    cases c with
    | write pData =>
        simp only [program, Point.ofCall]
        split
        · apply List.not_mem_nil
        · apply List.not_mem_nil
    | _ => apply List.not_mem_nil
  · intro p pool l l' hop
    have hheld : (program.next p pool).1.held = l :: p.held := held_next_acquire pool hop
    rw [hheld, List.mem_cons]
  · intro p pool l l' hop
    have hheld : p.held = l :: (program.next p pool).1.held := held_next_release pool hop
    have hnodup := nodup_held p
    rw [hheld] at hnodup ⊢
    have hnot := (List.nodup_cons.mp hnodup).1
    constructor
    · intro hmem
      use fun heq => hnot (heq ▸ hmem)
      apply List.mem_cons_of_mem l hmem
    · rintro ⟨hne, hmem⟩
      apply List.mem_of_ne_of_mem hne hmem
  · intro p l hop
    have hheld : p.held = l :: (program.next p .start).1.held := held_next_release .start hop
    rw [hheld]
    apply List.mem_cons_self

/-! ### A call alone -/

/-- What a thread of the circle buffer can do alone. -/
abbrev Alone : Point → MsgDataPool → Point → MsgDataPool → Prop :=
  program.Alone (fun p l => l ∈ p.held)

theorem Alone.step {p p' : Point} {pool pool' : MsgDataPool} {op : LockOp Lock}
    (hop : p.op = some op) (hfree : ∀ l, op = .acquire l → l ∉ p.held)
    (rest : Alone (pool.next p).1 (pool.next p).2 p' pool') :
  Alone p pool p' pool'
  := LockProgram.Alone.step ⟨op, hop, hfree⟩ rest

theorem alone_release {p p' : Point} {pool pool' : MsgDataPool} {l : Lock}
    (hop : p.op = some (.release l))
    (rest : Alone (pool.next p).1 (pool.next p).2 p' pool') :
  Alone p pool p' pool'
  := by
  apply Alone.step hop _ rest
  intro l' h
  cases h

theorem alone_acquire {p p' : Point} {pool pool' : MsgDataPool} {l : Lock}
    (hop : p.op = some (.acquire l)) (hfree : l ∉ p.held)
    (rest : Alone (pool.next p).1 (pool.next p).2 p' pool') :
  Alone p pool p' pool'
  := by
  apply Alone.step hop _ rest
  rintro l' ⟨⟩
  exact hfree

theorem atMsg_of_lt (pool : MsgDataPool) {pos : ℕ} (h : pos < msgPoolSize) (p : Point) :
  pool.atMsg pos p = (p, pool)
  := if_pos h

theorem alone_subLoop (b : BitsetPos) (pool : MsgDataPool) (i : ℕ)
    (hpos : ∀ pos ∈ (List.range' i (pool.currMsgDataNum - i)).map wrap, pos < msgPoolSize) :
  Alone (pool.subLoop b i).1 (pool.subLoop b i).2 .poolUnlock { pool with
    arrMsgData := ((List.range' i (pool.currMsgDataNum - i)).map wrap).foldl (setPending b)
      pool.arrMsgData
    arrSubPos := Function.update pool.arrSubPos b pool.currWritePos }
  := by
  generalize hn : pool.currMsgDataNum - i = n
  induction n generalizing pool i with
  | zero =>
      rw [MsgDataPool.subLoop, if_neg (by omega)]
      apply LockProgram.Alone.refl
  | succ n ih =>
      rw [hn, List.range'_succ, List.map_cons, List.forall_mem_cons] at hpos
      rw [MsgDataPool.subLoop, if_pos (by omega), atMsg_of_lt pool hpos.1, List.range'_succ]
      have hrest : pool.currMsgDataNum - (i + 1) = n := by
        omega
      apply alone_acquire rfl (by simp [Point.held])
      apply alone_release rfl
      apply ih { pool with arrMsgData := setPending b pool.arrMsgData (wrap i) } (i + 1)
      · dsimp only
        rw [hrest]
        exact hpos.2
      · exact hrest

theorem alone_unSubLoop (b : BitsetPos) (pool : MsgDataPool) (i : ℕ) :
  Alone (pool.unSubLoop b i).1 (pool.unSubLoop b i).2 .poolUnlock { pool with
    arrMsgData := (List.range' i (msgPoolSize - i)).foldl (resetPending b) pool.arrMsgData }
  := by
  generalize hn : msgPoolSize - i = n
  induction n generalizing pool i with
  | zero =>
      rw [MsgDataPool.unSubLoop, if_neg (by omega)]
      apply LockProgram.Alone.refl
  | succ n ih =>
      rw [MsgDataPool.unSubLoop, if_pos (by omega), List.range'_succ]
      apply alone_acquire rfl (by simp [Point.held])
      apply alone_release rfl
      apply ih { pool with arrMsgData := resetPending b pool.arrMsgData i } (i + 1)
      omega

theorem alone_poolUnlock (pool : MsgDataPool) :
  Alone .poolUnlock pool .idle pool
  := alone_release rfl (.refl _ _)

theorem alone_sub {pool : MsgDataPool} (hpos : ∀ pos ∈ pool.backlog, pos < msgPoolSize) :
  Alone (.entry .sub) pool .idle pool.sub.2
  := by
  apply alone_acquire rfl List.not_mem_nil
  rw [MsgDataPool.next, MsgDataPool.entered, MsgDataPool.sub]
  cases hfield : setFirstEmptyField pool.bsSubscribers with
  | none => apply alone_poolUnlock
  | some found =>
      obtain ⟨b, bs⟩ := found
      apply LockProgram.Alone.trans _ (alone_poolUnlock _)
      apply alone_subLoop b { pool with bsSubscribers := bs } pool.currWritePos hpos

theorem alone_unSub (pool : MsgDataPool) (b : BitsetPos) :
  Alone (.entry (.unSub b)) pool .idle (pool.unSub b)
  := by
  apply alone_acquire rfl List.not_mem_nil
  apply LockProgram.Alone.trans _ (alone_poolUnlock _)
  rw [MsgDataPool.unSub, List.range_eq_range']
  apply alone_unSubLoop b { pool with bsSubscribers := pool.bsSubscribers.erase b } 0

theorem alone_write {pool : MsgDataPool} (hpos : pool.endPosition < msgPoolSize)
    (pData : Option (List UInt8)) :
  Alone (.ofCall (.write pData)) pool .idle (pool.write pData).2
  := by
  rw [Point.ofCall, MsgDataPool.write]
  by_cases hnull : pData = none ∨ (pData.getD []).length ≤ 0
  · have hrefuses : pool.refuses pData := or_assoc.mp (.inl hnull)
    rw [if_pos hnull, if_pos hrefuses]
    apply LockProgram.Alone.refl
  · rw [if_neg hnull]
    apply alone_acquire rfl List.not_mem_nil
    rw [MsgDataPool.next, MsgDataPool.entered]
    by_cases hnone : pool.bsSubscribers = ∅
    · have hrefuses : pool.refuses pData := or_assoc.mp (.inr hnone)
      rw [if_pos hnone, if_pos hrefuses]
      apply alone_poolUnlock
    · have haccepts : ¬ pool.refuses pData := by
        intro hrefuses
        rcases or_assoc.mpr hrefuses with hnull' | hnone'
        · exact hnull hnull'
        · exact hnone hnone'
      rw [if_neg hnone, if_neg haccepts, atMsg_of_lt pool hpos]
      apply alone_acquire rfl (by simp [Point.held])
      apply alone_release rfl
      apply alone_poolUnlock

/-- After `Read` has copied the message. -/
theorem alone_readDataUnlock (pool : MsgDataPool) (b : BitsetPos) (pos : ℕ) :
  Alone (.readDataUnlock b pos) pool .idle { pool with
    arrSubPos := Function.update pool.arrSubPos b (wrap (pool.arrSubPos b + 1)) }
  := by
  apply alone_release rfl
  apply alone_acquire rfl List.not_mem_nil
  apply alone_poolUnlock

theorem alone_read {pool : MsgDataPool} {b : BitsetPos} (hpos : pool.arrSubPos b < msgPoolSize)
    (hwaits : ¬ pool.waits b) :
  Alone (.entry (.read b)) pool .idle (pool.readMsg b)
  := by
  obtain ⟨hpool, hdata⟩ := not_or.mp hwaits
  apply alone_acquire rfl List.not_mem_nil
  rw [MsgDataPool.next, MsgDataPool.entered, MsgDataPool.readPool, if_neg hpool,
    atMsg_of_lt pool hpos]
  apply alone_release rfl
  apply alone_acquire rfl List.not_mem_nil
  have hwaits' : ¬ pool.waitsForData b (pool.arrSubPos b) := hdata
  rw [MsgDataPool.next, MsgDataPool.next, MsgDataPool.readData, if_neg hwaits',
    MsgDataPool.readMsg]
  dsimp only
  split
  · apply alone_acquire rfl (by simp [Point.held])
    apply alone_release rfl
    apply alone_readDataUnlock
  · apply alone_readDataUnlock

/-- A call alone does what `MsgDataPool.call` says, if the positions it uses are in range. -/
theorem alone_call {pool pool' : MsgDataPool} {c : Call}
    (hpos : ∀ pos ∈ pool.positions c, pos < msgPoolSize) (hcall : pool.call c = some pool') :
  Alone (.ofCall c) pool .idle pool'
  := by
  cases c with
  | sub =>
      obtain rfl := Option.some.inj hcall
      apply alone_sub hpos
  | unSub b =>
      obtain rfl := Option.some.inj hcall
      apply alone_unSub
  | write pData =>
      obtain rfl := Option.some.inj hcall
      apply alone_write (hpos _ (List.mem_singleton_self _))
  | read b =>
      obtain ⟨⟨data, pool''⟩, hread, rfl⟩ := Option.map_eq_some_iff.mp hcall
      obtain ⟨hwaits, -, rfl⟩ := read_eq_some hread
      apply alone_read (hpos _ (List.mem_singleton_self _)) hwaits

/-- Where no other thread is in a call, a thread can make its call, and that does what
`MsgDataPool.call` says, as long as positions are in range. -/
theorem final_call {T : Type*} [DecidableEq T] (t : T) {pool pool' : MsgDataPool} {c : Call}
    (hrange : InRange pool) (hcall : pool.call c = some pool') :
  ∃ turns s, (∀ a ∈ turns, a = Turn.run t) ∧
    (program.threads T).final ⟨pool, fun _ => .idle, fun _ => none⟩ (.call t c :: turns)
      = some s ∧
    s.shared = pool' ∧ ∀ r, s.point r = .idle
  := by
  have howned : LockProgram.Owned (T := T) (fun p l => l ∈ p.held)
      ⟨pool, fun _ => Point.idle, fun _ => none⟩ := .start balanced rfl pool
  obtain ⟨called, hcalled⟩ : ∃ called : Threads T Lock MsgDataPool Point,
      called = ⟨pool, Function.update (fun _ => .idle) t (.ofCall c), fun _ => none⟩ := ⟨_, rfl⟩
  have hturn : program.turn ⟨pool, fun _ => .idle, fun _ => none⟩ (.call t c)
      = some called := by
    rw [hcalled]
    rfl
  have hothers : ∀ r ≠ t, ∀ l, l ∉ (called.point r).held := by
    intro r hr l
    simp only [hcalled, Function.update_of_ne hr]
    apply List.not_mem_nil
  have hpoint : called.point t = .ofCall c := by
    simp only [hcalled, Function.update_self]
  have hshared : called.shared = pool := by
    rw [hcalled]
  obtain ⟨turns, s, hturns, hfinal, hshared, hpoint, -⟩ :=
    (alone_call (hrange.positions c) hcall).final balanced hpoint hshared (howned.turn balanced hturn) hothers
  use turns, s, hturns
  and_intros
  · rw [Machine.final_of_step hturn, hfinal]
  · exact hshared
  · intro r
    rw [hpoint, hcalled, Function.update_idem, Function.update_apply]
    split
    · rfl
    · rfl

end CircleBuffer
