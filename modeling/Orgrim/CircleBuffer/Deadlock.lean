import Orgrim.CircleBuffer.Threads

/-!
# Deadlocks of the circle buffer

`Sub`, `UnSub` and `Write` lock `PoolCond` first and a `DataLocker` under it.  So does `Read`
with one lock at a time, except when it has read a message for the last of its subscribers:
then it locks `PoolCond` while it holds the `DataLocker` of the message.

Two threads come to own what the other one wants if this happens while a call that holds
`PoolCond` still has to lock that message, or such a call begins then.  Without such a turn no
two threads are crossed, and after one two threads can be (`crossed_only_unordered`), for ever
(`crossed_throughout`).
-/

namespace CircleBuffer

variable {T : Type*} [DecidableEq T]

/-- The threads that use a `CircleBuffer`, with their locks. -/
abbrev PoolThreads (T : Type*) : Type _ := Threads T Lock MsgDataPool Point

/-- Where the loop of `Sub` ends.  It may end before its bound, since `at` throws from
`msgPoolSize + msgPoolSize` on. -/
def subEnd (pool : MsgDataPool) : ℕ := min pool.currMsgDataNum (msgPoolSize + msgPoolSize)

/-- The messages that a thread still has to lock before it unlocks `PoolCond`, or throws. -/
def ahead (pool : MsgDataPool) : Point → List ℕ
  | .subLock _ i => wrap i :: (List.range' (i + 1) (subEnd pool - (i + 1))).map wrap
  | .subUnlock _ i => (List.range' (i + 1) (subEnd pool - (i + 1))).map wrap
  | .unSubLock _ i => i :: List.range' (i + 1) (msgPoolSize - (i + 1))
  | .unSubUnlock _ i => List.range' (i + 1) (msgPoolSize - (i + 1))
  | .writeLock _ pos => [pos]
  | _ => []

/-- The messages that a call locks while it holds `PoolCond`, if it locks `PoolCond` now. -/
def lockedBy (pool : MsgDataPool) : Call → List ℕ
  | .sub =>
      if pool.bsSubscribers = Finset.univ then []
      else (List.range' pool.currWritePos (subEnd pool - pool.currWritePos)).map wrap
  | .unSub _ => List.range msgPoolSize
  | .write _ =>
      if pool.bsSubscribers = ∅ then []
      else if pool.endPosition < msgPoolSize then [pool.endPosition] else []
  | .read _ => []

/-- `Read` does not wait for the message, and nobody else has to read it. -/
def ReadsLast (pool : MsgDataPool) (b : BitsetPos) (pos : ℕ) : Prop :=
  ¬ pool.waitsForData b pos ∧ (pool.arrMsgData pos).bs.erase b = ∅

instance (pool : MsgDataPool) (b : BitsetPos) (pos : ℕ) : Decidable (ReadsLast pool b pos) :=
  inferInstanceAs (Decidable (_ ∧ _))

/-- The message under which a thread wants `PoolCond`. -/
def lastRead : Point → Option ℕ
  | .readLast _ pos => some pos
  | _ => none

/-- `Read` does not come to lock `PoolCond` under the `DataLocker` of a message that another
thread still has to lock under `PoolCond`, and no call that locks it begins while `Read`
wants `PoolCond` there. -/
def Ordered (s : PoolThreads T) : Turn T Call → Prop
  | .call _ _ => True
  | .run t =>
      match s.point t with
      | .entry c => ∀ r, ∀ pos ∈ lastRead (s.point r), pos ∉ lockedBy s.shared c
      | .readDataLock b pos =>
          ReadsLast s.shared b pos → ∀ r, pos ∉ ahead s.shared (s.point r)
      | .readDataWake b pos =>
          (s.shared.arrMsgData pos).release = false → ReadsLast s.shared b pos →
            ∀ r, pos ∉ ahead s.shared (s.point r)
      | _ => True

/-- `t` still has to lock a message under `PoolCond`, and `r` wants `PoolCond` under that
message. -/
def Crossing (s : PoolThreads T) (t r : T) (pos : ℕ) : Prop :=
  pos ∈ ahead s.shared (s.point t) ∧ ∃ b, s.point r = .readLast b pos

theorem mem_lastRead {p : Point} {pos : ℕ} :
  pos ∈ lastRead p ↔ ∃ b, p = .readLast b pos
  := by
  cases p with
  | readLast b pos' =>
      constructor
      · rintro ⟨⟩
        use b
      · rintro ⟨b', ⟨⟩⟩
        rfl
  | _ =>
      apply iff_of_false
      · intro h
        cases h
      · rintro ⟨b, h⟩
        cases h

/-- The owners of the locks are at points where they hold them. -/
abbrev Owned (s : PoolThreads T) : Prop := LockProgram.Owned (fun p l => l ∈ p.held) s

/-! ### Messages to lock -/

section

variable {pool pool' : MsgDataPool} {p : Point} {pos : ℕ}

theorem pool_mem_held_of_ahead (h : pos ∈ ahead pool p) :
  Lock.pool ∈ p.held
  := by
  cases p with
  | subLock b i => simp [Point.held]
  | subUnlock b i => simp [Point.held]
  | unSubLock b i => simp [Point.held]
  | unSubUnlock b i => simp [Point.held]
  | writeLock pData pos => simp [Point.held]
  | _ => cases h

theorem ahead_congr (h : pool'.currMsgDataNum = pool.currMsgDataNum) (p : Point) :
  ahead pool' p = ahead pool p
  := by
  cases p with
  | subLock b i => simp only [ahead, subEnd, h]
  | subUnlock b i => simp only [ahead, subEnd, h]
  | _ => rfl

theorem dataNum_readData (pool : MsgDataPool) (b : BitsetPos) (pos : ℕ) :
  (pool.readData b pos).2.currMsgDataNum = pool.currMsgDataNum
  := by
  rw [MsgDataPool.readData]
  split
  · rfl
  · dsimp only
    split
    · rfl
    · rfl

/-- Who does not hold `PoolCond` does not change the number of messages. -/
theorem dataNum_next (hheld : Lock.pool ∉ p.held) (hop : p.op ≠ some (.acquire .pool)) :
  (pool.next p).2.currMsgDataNum = pool.currMsgDataNum
  := by
  cases p with
  | idle => rfl
  | readDataLock b pos => apply dataNum_readData
  | readDataWait b pos => rfl
  | readDataWake b pos =>
      rw [MsgDataPool.next]
      split
      · rfl
      · apply dataNum_readData
  | readReturn pos => rfl
  | readDataUnlock b pos => rfl
  | entry c => exact absurd rfl hop
  | readPoolWake b => exact absurd rfl hop
  | readLast b pos => exact absurd rfl hop
  | readAdvance b => exact absurd rfl hop
  | _ => simp [Point.held] at hheld

theorem ahead_subLoop (pool : MsgDataPool) (b : BitsetPos) (i : ℕ) :
  ahead (pool.subLoop b i).2 (pool.subLoop b i).1
    = (List.range' i (subEnd pool - i)).map wrap
  := by
  by_cases hi : i < subEnd pool
  · obtain ⟨hnum, hpos⟩ := lt_min_iff.mp hi
    have hsucc : subEnd pool - i = subEnd pool - (i + 1) + 1 := by
      omega
    rw [MsgDataPool.subLoop, if_pos hnum, atMsg_of_lt pool (wrap_lt hpos), hsucc,
      List.range'_succ]
    rfl
  · rw [Nat.sub_eq_zero_of_le (Nat.not_lt.mp hi), MsgDataPool.subLoop]
    split
    · rename_i hnum
      -- `at` throws
      have hpos : ¬ wrap i < msgPoolSize := by
        intro hlt
        apply hi (lt_min hnum _)
        rw [wrap] at hlt
        split at hlt
        · omega
        · omega
      rw [MsgDataPool.atMsg, if_neg hpos]
      rfl
    · rfl

theorem ahead_unSubLoop (pool : MsgDataPool) (b : BitsetPos) (i : ℕ) :
  ahead (pool.unSubLoop b i).2 (pool.unSubLoop b i).1 = List.range' i (msgPoolSize - i)
  := by
  rw [MsgDataPool.unSubLoop]
  split
  · have hsucc : msgPoolSize - i = msgPoolSize - (i + 1) + 1 := by
      omega
    rw [hsucc, List.range'_succ]
    rfl
  · rename_i hge
    rw [Nat.sub_eq_zero_of_le (Nat.not_lt.mp hge)]
    rfl

/-- `Read` has no message to lock under `PoolCond`, whether `at` throws or not. -/
theorem ahead_readPool (pool : MsgDataPool) (b : BitsetPos) :
  ahead (pool.readPool b).2 (pool.readPool b).1 = []
  := by
  rw [MsgDataPool.readPool]
  split
  · rfl
  · rw [MsgDataPool.atMsg]
    split
    · rfl
    · rfl

theorem ahead_readData (pool : MsgDataPool) (b : BitsetPos) (pos : ℕ) :
  ahead (pool.readData b pos).2 (pool.readData b pos).1 = []
  := by
  rw [MsgDataPool.readData]
  split
  · rfl
  · dsimp only
    split
    · rfl
    · rfl

/-- What a call has to lock when it has locked `PoolCond`. -/
theorem ahead_entered (pool : MsgDataPool) (c : Call) :
  ahead (pool.entered c).2 (pool.entered c).1 = lockedBy pool c
  := by
  cases c with
  | sub =>
      rw [MsgDataPool.entered, lockedBy]
      cases hfield : setFirstEmptyField pool.bsSubscribers with
      | none =>
          rw [if_pos (setFirstEmptyField_eq_none.mp hfield)]
          rfl
      | some found =>
          obtain ⟨b, bs⟩ := found
          have hroom : pool.bsSubscribers ≠ Finset.univ := by
            intro hfull
            rw [← setFirstEmptyField_eq_none] at hfull
            cases hfull.symm.trans hfield
          rw [if_neg hroom]
          apply ahead_subLoop
  | unSub b =>
      rw [lockedBy, List.range_eq_range']
      apply ahead_unSubLoop
  | write pData =>
      rw [MsgDataPool.entered, lockedBy]
      split
      · rfl
      · rw [MsgDataPool.atMsg]
        split
        · rfl
        · rfl
  | read b => apply ahead_readPool

/-- Once it has locked `PoolCond`, a call locks the messages ahead one after the other. -/
theorem ahead_next (pool : MsgDataPool) (hentry : ∀ c, p ≠ .entry c) :
  (∃ q, p.op = some (.acquire (.data q)) ∧
      ahead pool p = q :: ahead (pool.next p).2 (pool.next p).1) ∨
    ahead pool p = ahead (pool.next p).2 (pool.next p).1
  := by
  cases p with
  | entry c => exact absurd rfl (hentry c)
  | subLock b i =>
      left
      use wrap i, rfl
      rfl
  | subUnlock b i =>
      right
      rw [MsgDataPool.next, ahead_subLoop]
      rfl
  | unSubLock b i =>
      left
      use i, rfl
      rfl
  | unSubUnlock b i =>
      right
      rw [MsgDataPool.next, ahead_unSubLoop]
      rfl
  | writeLock pData pos =>
      left
      use pos, rfl
      rfl
  | readPoolWake b =>
      right
      rw [MsgDataPool.next]
      split
      · rfl
      · rw [ahead_readPool]
        rfl
  | readDataLock b pos =>
      right
      rw [MsgDataPool.next, ahead_readData]
      rfl
  | readDataWake b pos =>
      right
      rw [MsgDataPool.next]
      split
      · rfl
      · rw [ahead_readData]
        rfl
  | _ =>
      right
      rfl

/-- Under `PoolCond` only the next message ahead is acquired. -/
theorem ahead_acquire (pool : MsgDataPool) {l : Lock} (hheld : Lock.pool ∈ p.held)
    (hop : p.op = some (.acquire l)) :
  ∃ q, l = .data q ∧ ahead pool p = q :: ahead (pool.next p).2 (pool.next p).1
  := by
  cases p with
  | subLock b i =>
      cases hop
      exact ⟨_, rfl, rfl⟩
  | unSubLock b i =>
      cases hop
      exact ⟨_, rfl, rfl⟩
  | writeLock pData pos =>
      cases hop
      exact ⟨_, rfl, rfl⟩
  | entry c => simp [Point.held] at hheld
  | readPoolWake b => simp [Point.held] at hheld
  | readDataLock b pos => simp [Point.held] at hheld
  | readDataWake b pos => simp [Point.held] at hheld
  | readLast b pos => simp [Point.held] at hheld
  | readAdvance b => simp [Point.held] at hheld
  | _ => cases hop

theorem ahead_release (pool : MsgDataPool) {l : Lock} (hop : p.op = some (.release l)) :
  ahead pool p = ahead (pool.next p).2 (pool.next p).1
  := by
  have hentry : ∀ c, p ≠ .entry c := by
    rintro c rfl
    cases hop
  rcases ahead_next pool hentry with ⟨q, hacquire, -⟩ | hsame
  · cases hop.symm.trans hacquire
  · exact hsame

/-! ### Locks that are held -/

theorem not_mem_held_of_acquire {l : Lock} (hop : p.op = some (.acquire l)) :
  l ∉ p.held
  := by
  have hnodup := nodup_held (MsgDataPool.start.next p).1
  rw [held_next_acquire .start hop] at hnodup
  exact (List.nodup_cons.mp hnodup).1

/-- Who holds a message without `PoolCond` releases it, or wants `PoolCond`. -/
theorem data_mem_held_cases (hdata : Lock.data pos ∈ p.held) (hpool : Lock.pool ∉ p.held) :
  p.op = some (.release (.data pos)) ∨ p.op = some (.acquire .pool)
  := by
  cases p with
  | readDataWait b pos' =>
      cases List.mem_singleton.mp hdata
      left
      rfl
  | readReturn pos' =>
      cases List.mem_singleton.mp hdata
      left
      rfl
  | readDataUnlock b pos' =>
      cases List.mem_singleton.mp hdata
      left
      rfl
  | readLast b pos' =>
      right
      rfl
  | idle => cases hdata
  | entry c => cases hdata
  | readPoolWake b => cases hdata
  | readDataLock b pos' => cases hdata
  | readDataWake b pos' => cases hdata
  | readAdvance b => cases hdata
  | _ => simp [Point.held] at hpool

/-- Who wants `PoolCond` under a message has read it for the last subscriber. -/
theorem eq_readLast_of_held (hdata : Lock.data pos ∈ p.held)
    (hop : p.op = some (.acquire .pool)) :
  ∃ b, p = .readLast b pos
  := by
  cases p with
  | readLast b pos' =>
      cases List.mem_singleton.mp hdata
      use b
  | entry c => cases hdata
  | readPoolWake b => cases hdata
  | readAdvance b => cases hdata
  | _ => cases hop

/-! ### Reading a message for the last subscriber -/

theorem readData_eq_readLast {b b' : BitsetPos} {pos' : ℕ} :
  (pool.readData b pos).1 = .readLast b' pos'
    ↔ b = b' ∧ pos = pos' ∧ ReadsLast pool b pos
  := by
  rw [MsgDataPool.readData, ReadsLast]
  by_cases hwaits : pool.waitsForData b pos
  · simp [hwaits]
  · by_cases hlast : (pool.arrMsgData pos).bs.erase b = ∅
    · simp [hwaits, hlast]
    · simp [hwaits, hlast]

/-- How a thread comes to want `PoolCond` under a message. -/
theorem next_eq_readLast {b : BitsetPos} (h : (pool.next p).1 = .readLast b pos) :
  ReadsLast pool b pos ∧ (p = .readDataLock b pos ∨
    (p = .readDataWake b pos ∧ (pool.arrMsgData pos).release = false))
  := by
  cases p with
  | entry c =>
      have hheld := held_entered pool c
      rw [MsgDataPool.next] at h
      rw [h] at hheld
      cases hheld
  | subUnlock b' i =>
      have hheld := held_subLoop pool b' (i + 1)
      rw [MsgDataPool.next] at h
      rw [h] at hheld
      cases hheld
  | unSubUnlock b' i =>
      have hheld := held_unSubLoop pool b' (i + 1)
      rw [MsgDataPool.next] at h
      rw [h] at hheld
      cases hheld
  | readPoolWake b' =>
      have hheld := held_readPool pool b'
      rw [MsgDataPool.next] at h
      split at h
      · cases h
      · rw [h] at hheld
        cases hheld
  | readDataLock b' pos' =>
      obtain ⟨rfl, rfl, hlast⟩ := readData_eq_readLast.mp h
      exact ⟨hlast, .inl rfl⟩
  | readDataWake b' pos' =>
      rw [MsgDataPool.next] at h
      split at h
      · cases h
      · rename_i hrelease
        obtain ⟨rfl, rfl, hlast⟩ := readData_eq_readLast.mp h
        exact ⟨hlast, .inr ⟨rfl, Bool.not_eq_true _ ▸ hrelease⟩⟩
  | _ => cases h

end

/-! ### Turns -/

section

variable {s s' : PoolThreads T}

/-- A turn of a thread. -/
theorem run_cases {x : T} (hturn : s' ∈ program.turn s (.run x)) :
  ∃ owner, s' = program.proceed s x owner ∧
    ∀ l, (s.point x).op = some (.acquire l) → s.owner l = none
  := by
  rcases LockProgram.turn_cases hturn with ⟨t, c, ha, -⟩ | ⟨t, l, ha, hop, hfree, rfl⟩
    | ⟨t, l, ha, hop, rfl⟩
  · cases ha
  · obtain rfl : x = t := by
      cases ha
      rfl
    refine ⟨_, rfl, ?_⟩
    intro l' hop'
    cases hop.symm.trans hop'
    exact hfree
  · obtain rfl : x = t := by
      cases ha
      rfl
    refine ⟨_, rfl, ?_⟩
    intro l' hop'
    cases hop.symm.trans hop'

/-- What a thread has ahead is not changed by the turns of others. -/
theorem Owned.ahead_turn (howned : Owned s) {x t : T}
    (hturn : s' ∈ program.turn s (.run x)) (ht : t ≠ x) :
  ahead s'.shared (s'.point t) = ahead s.shared (s.point t)
  := by
  obtain ⟨owner, rfl, hfree⟩ := run_cases hturn
  rw [LockProgram.point_proceed_of_ne s ht]
  by_cases hheld : Lock.pool ∈ (s.point t).held
  · have howner := (howned t .pool).mpr hheld
    apply ahead_congr
    apply dataNum_next
    · intro hheld'
      have howner' := (howned x .pool).mpr hheld'
      apply ht (Option.some.inj (howner.symm.trans howner'))
    · intro hop
      rw [hfree .pool hop] at howner
      cases howner
  · have hnone : ∀ pool : MsgDataPool, ahead pool (s.point t) = [] := by
      intro pool
      apply List.eq_nil_iff_forall_not_mem.mpr
      intro pos hpos
      apply hheld (pool_mem_held_of_ahead hpos)
    rw [hnone, hnone]

theorem ofCall_cases (c : Call) :
  Point.ofCall c = .idle ∨ Point.ofCall c = .entry c
  := by
  cases c with
  | write pData =>
      rw [Point.ofCall]
      split
      · left
        rfl
      · right
        rfl
  | _ =>
      right
      rfl

theorem ahead_of_op {pool : MsgDataPool} {p : Point} (h : p.op = none) :
  ahead pool p = []
  := by
  cases p with
  | idle => rfl
  | thrown => rfl
  | _ => cases h

/-- A thread that is given a call has nothing ahead, before and after, and holds nothing. -/
theorem crossing_call {x : T} {c : Call} (hturn : s' ∈ program.turn s (.call x c)) (t r : T)
    (pos : ℕ) :
  Crossing s' t r pos ↔ Crossing s t r pos
  := by
  rcases LockProgram.turn_cases hturn with ⟨x', c', ha, hidle, rfl⟩ | ⟨x', l, ha, -⟩
    | ⟨x', l, ha, -⟩
  · cases ha
    have hidle : s.point x = .idle := of_decide_eq_true hidle
    have hahead : ∀ u, ahead s.shared (Function.update s.point x (.ofCall c) u)
        = ahead s.shared (s.point u) := by
      intro u
      by_cases hu : u = x
      · subst hu
        rw [Function.update_self, hidle]
        rcases ofCall_cases c with hc | hc
        · rw [hc]
        · rw [hc]
          rfl
      · rw [Function.update_of_ne hu]
    have hlast : ∀ u b, Function.update s.point x (.ofCall c) u = .readLast b pos
        ↔ s.point u = .readLast b pos := by
      intro u b
      by_cases hu : u = x
      · subst hu
        rw [Function.update_self, hidle]
        rcases ofCall_cases c with hc | hc
        · rw [hc]
        · rw [hc]
          simp
      · rw [Function.update_of_ne hu]
    simp only [Crossing, program, hahead, hlast]
  · cases ha
  · cases ha

/-- What a thread has ahead after its turn, it had ahead before, unless it enters its call. -/
theorem mem_ahead_next {pool : MsgDataPool} {p : Point} {pos : ℕ}
    (h : pos ∈ ahead (pool.next p).2 (pool.next p).1) :
  pos ∈ ahead pool p ∨ ∃ c, p = .entry c ∧ pos ∈ lockedBy pool c
  := by
  by_cases hentry : ∃ c, p = .entry c
  · obtain ⟨c, rfl⟩ := hentry
    right
    use c, rfl
    rw [← ahead_entered]
    exact h
  · left
    rcases ahead_next pool (not_exists.mp hentry) with ⟨q, -, hcons⟩ | hsame
    · rw [hcons]
      apply List.mem_cons_of_mem q h
    · rw [hsame]
      exact h

/-- A thread that wants `PoolCond` under a message has nothing ahead. -/
theorem ahead_ne_readLast {pool : MsgDataPool} {p : Point} {b : BitsetPos} {pos : ℕ}
    (h : p = .readLast b pos) :
  ahead pool p = []
  := by
  rw [h]
  rfl

/-- Where no two threads cross, none do after a turn that is in order. -/
theorem not_crossing_turn (howned : Owned s) {a : Turn T Call}
    (h : ∀ t r pos, ¬ Crossing s t r pos) (hordered : Ordered s a)
    (hturn : s' ∈ program.turn s a) (t r : T) (pos : ℕ) :
  ¬ Crossing s' t r pos
  := by
  cases a with
  | call x c =>
      rw [crossing_call hturn]
      apply h
  | run x =>
      rintro ⟨hmem, b, hlast⟩
      by_cases ht : t = x
      · subst ht
        have hr : r ≠ t := by
          rintro rfl
          rw [ahead_ne_readLast hlast] at hmem
          apply List.not_mem_nil hmem
        obtain ⟨owner, rfl, -⟩ := run_cases hturn
        rw [LockProgram.point_proceed_of_ne s hr] at hlast
        rw [LockProgram.point_proceed_self] at hmem
        rcases mem_ahead_next hmem with hmem | ⟨c, hentry, hmem⟩
        · apply h t r pos ⟨hmem, b, hlast⟩
        · rw [Ordered, hentry] at hordered
          apply hordered r pos (mem_lastRead.mpr ⟨b, hlast⟩) hmem
      · rw [howned.ahead_turn hturn ht] at hmem
        obtain ⟨owner, rfl, -⟩ := run_cases hturn
        by_cases hr : r = x
        · subst hr
          rw [LockProgram.point_proceed_self] at hlast
          obtain ⟨hreads, hpoint | ⟨hpoint, hrelease⟩⟩ := next_eq_readLast hlast
          · rw [Ordered, hpoint] at hordered
            apply hordered hreads t hmem
          · rw [Ordered, hpoint] at hordered
            apply hordered hrelease hreads t hmem
        · rw [LockProgram.point_proceed_of_ne s hr] at hlast
          apply h t r pos ⟨hmem, b, hlast⟩

theorem shared_proceed {x : T} {owner : Lock → Option T} {p : Point}
    (hpoint : s.point x = p) :
  (program.proceed s x owner).shared = (s.shared.next p).2
  := by
  subst hpoint
  rfl

/-- A turn that is not in order makes two threads cross. -/
theorem crossing_of_unordered (howned : Owned s) {a : Turn T Call} (hordered : ¬ Ordered s a)
    (hturn : s' ∈ program.turn s a) :
  ∃ t r pos, Crossing s' t r pos
  := by
  cases a with
  | call x c => exact absurd trivial hordered
  | run x =>
      have hahead : ∀ r ≠ x, ahead s'.shared (s'.point r) = ahead s.shared (s.point r) :=
        fun r hr => howned.ahead_turn hturn hr
      obtain ⟨owner, rfl, -⟩ := run_cases hturn
      -- who has the message ahead is not at the point where `Read` locks it
      have hreader : ∀ r b pos, (s.shared.next (s.point x)).1 = .readLast b pos →
          ahead s.shared (s.point x) = [] → pos ∈ ahead s.shared (s.point r) →
          Crossing (program.proceed s x owner) r x pos := by
        intro r b pos hlast hnone hmem
        have hr : r ≠ x := by
          rintro rfl
          rw [hnone] at hmem
          apply List.not_mem_nil hmem
        constructor
        · rw [hahead r hr]
          exact hmem
        · use b
          rw [LockProgram.point_proceed_self]
          exact hlast
      cases hpoint : s.point x with
      | entry c =>
          rw [Ordered, hpoint] at hordered
          simp only [not_forall, not_not] at hordered
          obtain ⟨r, pos, hlast, hmem⟩ := hordered
          obtain ⟨b, hlast⟩ := mem_lastRead.mp hlast
          have hr : r ≠ x := by
            rintro rfl
            cases hpoint.symm.trans hlast
          use x, r, pos
          constructor
          · rw [LockProgram.point_proceed_self, shared_proceed hpoint, hpoint]
            rw [← ahead_entered] at hmem
            exact hmem
          · use b
            rw [LockProgram.point_proceed_of_ne s hr, hlast]
      | readDataLock b pos =>
          rw [Ordered, hpoint] at hordered
          simp only [not_forall, not_not] at hordered
          obtain ⟨hreads, r, hmem⟩ := hordered
          use r, x, pos
          apply hreader r b pos _ _ hmem
          · rw [hpoint]
            apply readData_eq_readLast.mpr ⟨rfl, rfl, hreads⟩
          · rw [hpoint]
            rfl
      | readDataWake b pos =>
          rw [Ordered, hpoint] at hordered
          simp only [not_forall, not_not] at hordered
          obtain ⟨hrelease, hreads, r, hmem⟩ := hordered
          use r, x, pos
          apply hreader r b pos _ _ hmem
          · rw [hpoint, MsgDataPool.next, hrelease]
            apply readData_eq_readLast.mpr ⟨rfl, rfl, hreads⟩
          · rw [hpoint]
            rfl
      | _ =>
          rw [Ordered, hpoint] at hordered
          exact absurd trivial hordered

omit [DecidableEq T] in
/-- Crossed threads cross. -/
theorem crossing_of_crossed (howned : Owned s) {t r : T} {pos : ℕ}
    (h : program.Crossed s t r .pool (.data pos)) :
  Crossing s t r pos
  := by
  have hheld := (howned t .pool).mp h.owns
  have hheld' := (howned r (.data pos)).mp h.owned
  obtain ⟨q, hq, hahead⟩ := ahead_acquire s.shared hheld h.wants
  cases hq
  constructor
  · rw [hahead]
    apply List.mem_cons_self
  · apply eq_readLast_of_held hheld' h.wanted

/-- Threads that cross go on to do so. -/
theorem crossing_turn (howned : Owned s) {t r : T} {pos : ℕ} (h : Crossing s t r pos)
    {a : Turn T Call} (hturn : s' ∈ program.turn s a) :
  Crossing s' t r pos
  := by
  cases a with
  | call x c =>
      rw [crossing_call hturn]
      exact h
  | run x =>
      obtain ⟨hmem, b, hlast⟩ := h
      have hpool := (howned t .pool).mpr (pool_mem_held_of_ahead hmem)
      have hdata : s.owner (.data pos) = some r := by
        apply (howned r _).mpr
        rw [hlast]
        apply List.mem_singleton_self
      have hahead : t ≠ x → ahead s'.shared (s'.point t) = ahead s.shared (s.point t) :=
        howned.ahead_turn hturn
      obtain ⟨owner, rfl, hfree⟩ := run_cases hturn
      have hr : r ≠ x := by
        rintro rfl
        rw [hfree .pool (by rw [hlast]; rfl)] at hpool
        cases hpool
      constructor
      · by_cases ht : t = x
        · subst ht
          have hentry : ∀ c, s.point t ≠ .entry c := by
            intro c hc
            rw [hc] at hmem
            cases hmem
          rw [LockProgram.point_proceed_self]
          rcases ahead_next s.shared hentry with ⟨q, hop, hcons⟩ | hsame
          · rw [hcons] at hmem
            apply List.mem_of_ne_of_mem _ hmem
            rintro rfl
            rw [hfree _ hop] at hdata
            cases hdata
          · rw [hsame] at hmem
            exact hmem
        · rw [hahead ht]
          exact hmem
      · use b
        rw [LockProgram.point_proceed_of_ne s hr, hlast]

/-! ### From crossing to crossed threads -/

/-- How far a thread is from having locked the messages ahead. -/
def distance (s : PoolThreads T) (t : T) : ℕ :=
  2 * (ahead s.shared (s.point t)).length + (s.point t).held.length

/-- A thread that is not kept from its lock comes nearer. -/
theorem exists_nearer {t r : T} {pos : ℕ} (h : Crossing s t r pos)
    (hfree : ∀ l, (s.point t).op = some (.acquire l) → s.owner l = none) :
  ∃ s', program.turn s (.run t) = some s' ∧ distance s' t < distance s t
  := by
  have hheld := pool_mem_held_of_ahead h.1
  cases hop : (s.point t).op with
  | none =>
      have hmem := h.1
      rw [ahead_of_op hop] at hmem
      cases hmem
  | some op =>
      cases op with
      | acquire l =>
          obtain ⟨q, -, hahead⟩ := ahead_acquire s.shared hheld hop
          have hheld' := held_next_acquire s.shared hop
          use program.proceed s t (Function.update s.owner l (some t))
          constructor
          · have hop' : program.op (s.point t) = some (.acquire l) := hop
            rw [LockProgram.turn, hop']
            simp only [if_pos (hfree l hop)]
          · rw [distance, distance, LockProgram.point_proceed_self, hahead]
            simp only [program, LockProgram.proceed, hheld', List.length_cons]
            omega
      | release l =>
          have hahead := ahead_release s.shared hop
          have hheld' := held_next_release s.shared hop
          use program.proceed s t (Function.update s.owner l none)
          constructor
          · have hop' : program.op (s.point t) = some (.release l) := hop
            rw [LockProgram.turn, hop']
          · rw [distance, distance, LockProgram.point_proceed_self, hahead, hheld']
            simp only [program, LockProgram.proceed, List.length_cons]
            omega

omit [DecidableEq T] in
/-- Who keeps a thread that holds `PoolCond` from a message is crossed with it, or releases
the message. -/
theorem crossed_or_releases (howned : Owned s) {t u : T} {q : ℕ}
    (hpool : s.owner .pool = some t) (hop : (s.point t).op = some (.acquire (.data q)))
    (howner : s.owner (.data q) = some u) :
  program.Crossed s t u .pool (.data q) ∨
    u ≠ t ∧ (s.point u).op = some (.release (.data q))
  := by
  have hheld := (howned u (.data q)).mp howner
  have hu : u ≠ t := by
    rintro rfl
    apply not_mem_held_of_acquire hop hheld
  have hnot : Lock.pool ∉ (s.point u).held := by
    intro hmem
    have hpool' := (howned u .pool).mpr hmem
    apply hu (Option.some.inj (hpool'.symm.trans hpool))
  rcases data_mem_held_cases hheld hnot with hrelease | hacquire
  · right
    exact ⟨hu, hrelease⟩
  · left
    exact ⟨hpool, hop, howner, hacquire⟩

/-- Threads that cross can come to be crossed, or one of them nearer to it. -/
theorem crossed_or_nearer (howned : Owned s) {t r : T} {pos : ℕ} (h : Crossing s t r pos) :
  (∃ u q, program.Crossed s t u .pool (.data q)) ∨
    ∃ turns s', (program.threads T).final s turns = some s' ∧ Owned s' ∧ Crossing s' t r pos ∧
      distance s' t < distance s t
  := by
  have hheld := pool_mem_held_of_ahead h.1
  have hpool := (howned t .pool).mpr hheld
  by_cases hfree : ∀ l, (s.point t).op = some (.acquire l) → s.owner l = none
  · right
    obtain ⟨s', hturn, hnearer⟩ := exists_nearer h hfree
    use [.run t], s'
    refine ⟨?_, ?_, ?_, ?_⟩
    · rw [Machine.final_of_step hturn]
      rfl
    · apply howned.turn balanced hturn
    · apply crossing_turn howned h hturn
    · exact hnearer
  · simp only [not_forall] at hfree
    obtain ⟨l, hop, hkept⟩ := hfree
    obtain ⟨q, rfl, -⟩ := ahead_acquire s.shared hheld hop
    obtain ⟨u, howner⟩ := Option.ne_none_iff_exists'.mp hkept
    rcases crossed_or_releases howned hpool hop howner with hcrossed | ⟨hu, hrelease⟩
    · left
      use u, q
    · right
      have hturn : program.turn s (.run u)
          = some (program.proceed s u (Function.update s.owner (.data q) none)) := by
        have hrelease' : program.op (s.point u) = some (.release (.data q)) := hrelease
        rw [LockProgram.turn, hrelease']
      have howned' := howned.turn balanced hturn
      have hcrossing := crossing_turn howned h hturn
      have hahead := howned.ahead_turn hturn hu.symm
      have hpoint : (program.proceed s u (Function.update s.owner (.data q) none)).point t
          = s.point t := LockProgram.point_proceed_of_ne s hu.symm _
      have hfree' : ∀ l, ((program.proceed s u
          (Function.update s.owner (.data q) none)).point t).op = some (.acquire l) →
          (program.proceed s u (Function.update s.owner (.data q) none)).owner l = none := by
        intro l hop'
        rw [hpoint, hop] at hop'
        cases hop'
        apply Function.update_self
      obtain ⟨s', hturn', hnearer⟩ := exists_nearer hcrossing hfree'
      use [.run u, .run t], s'
      refine ⟨?_, ?_, ?_, ?_⟩
      · rw [Machine.final_of_step hturn, Machine.final_of_step hturn']
        rfl
      · apply howned'.turn balanced hturn'
      · apply crossing_turn howned' hcrossing hturn'
      · have hsame : distance (program.proceed s u (Function.update s.owner (.data q) none)) t
            = distance s t := by
          rw [distance, distance, hahead, hpoint]
        rw [hsame] at hnearer
        exact hnearer

/-- Threads that cross can come to be crossed. -/
theorem exists_crossed (n : ℕ) (s : PoolThreads T) (howned : Owned s) {t r : T} {pos : ℕ}
    (h : Crossing s t r pos) (hn : distance s t ≤ n) :
  ∃ turns s' u q, (program.threads T).final s turns = some s' ∧
    program.Crossed s' t u .pool (.data q)
  := by
  induction n generalizing s with
  | zero =>
      have hheld := List.length_pos_of_mem (pool_mem_held_of_ahead h.1)
      rw [distance] at hn
      omega
  | succ n ih =>
      rcases crossed_or_nearer howned h with ⟨u, q, hcrossed⟩
        | ⟨turns, s₁, hfinal, howned₁, h₁, hlt⟩
      · use [], s, u, q
        exact ⟨rfl, hcrossed⟩
      · obtain ⟨turns', s', u, q, hfinal', hcrossed⟩ := ih s₁ howned₁ h₁ (by omega)
        use turns ++ turns', s', u, q
        rw [Machine.final_append hfinal]
        exact ⟨hfinal', hcrossed⟩

end

/-! ### Runs -/

/-- No thread owns `PoolCond` and wants a message whose owner wants `PoolCond`. -/
def Uncrossed (s : PoolThreads T) : Prop :=
  ∀ t r pos, ¬ program.Crossed s t r .pool (.data pos)

omit [DecidableEq T] in
theorem Owned.startThreads : Owned (startThreads T) := .start balanced rfl .start

/-- In every state reached the owners are at points where they hold their locks. -/
theorem owned_final {turns : List (Turn T Call)} {s : PoolThreads T}
    (hrun : (program.threads T).final (startThreads T) turns = some s) :
  Owned s
  := by
  apply Machine.final_of_invariant (Q := fun _ _ => True) Owned _ Owned.startThreads
    (Machine.along_of_forall (fun _ _ => trivial)) hrun
  intro s a howned _ s' hturn
  apply howned.turn balanced hturn

/-- Two threads that are crossed stay so, whatever happens. -/
theorem crossed_throughout {s : PoolThreads T} {t r : T} {pos : ℕ} (howned : Owned s)
    (h : program.Crossed s t r .pool (.data pos)) (turns : List (Turn T Call)) :
  (program.threads T).Throughout (fun s => program.Crossed s t r .pool (.data pos)) s turns
  := by
  apply Machine.throughout_of_invariant (Q := fun _ _ => True)
    (fun s => Owned s ∧ program.Crossed s t r .pool (.data pos)) _ _ ⟨howned, h⟩
    (Machine.along_of_forall (fun _ _ => trivial))
  · exact fun _ h => h.2
  · rintro s a ⟨howned, h⟩ - s' hturn
    exact ⟨howned.turn balanced hturn, program.crossed_turn balanced howned h hturn⟩

/-- In a run of turns that are in order no two threads are ever crossed. -/
theorem uncrossed_of_ordered {turns : List (Turn T Call)}
    (hturns : (program.threads T).Along Ordered (startThreads T) turns) :
  (program.threads T).Throughout Uncrossed (startThreads T) turns
  := by
  apply Machine.throughout_of_invariant
    (fun s => Owned s ∧ ∀ t r pos, ¬ Crossing s t r pos) _ _ _ hturns
  · rintro s ⟨howned, h⟩ t r pos hcrossed
    apply h t r pos (crossing_of_crossed howned hcrossed)
  · rintro s a ⟨howned, h⟩ hordered s' hturn
    use howned.turn balanced hturn
    apply not_crossing_turn howned h hordered hturn
  · use Owned.startThreads
    rintro t r pos ⟨hmem, -⟩
    cases hmem

/-- Whatever the threads, a run in which every turn is in order never has two threads that are
crossed; and after a turn that is not, the run can be continued so that two are. -/
theorem crossed_only_unordered (turns : List (Turn T Call)) :
  ((program.threads T).Along Ordered (startThreads T) turns →
      (program.threads T).Throughout Uncrossed (startThreads T) turns) ∧
    ∀ s a s', (program.threads T).final (startThreads T) turns = some s →
      (program.threads T).step s a = some s' → ¬ Ordered s a →
      ∃ rest, ¬ (program.threads T).Throughout Uncrossed s' rest
  := by
  constructor
  · apply uncrossed_of_ordered
  · intro s a s' hrun hturn hordered
    have howned := owned_final hrun
    obtain ⟨t, r, pos, hcrossing⟩ := crossing_of_unordered howned hordered hturn
    obtain ⟨rest, s'', u, q, hfinal, hcrossed⟩ :=
      exists_crossed _ s' (howned.turn balanced hturn) hcrossing le_rfl
    use rest
    intro hall
    apply Machine.final_of_throughout hall hfinal t u q hcrossed

theorem crossed_only_unordered_sub :
  (program.threads Bool).Throughout Uncrossed (startThreads Bool)
    [.call false .sub, .call true .sub, .run false]
  := by
  apply (crossed_only_unordered _).1
  use trivial
  rintro s ⟨⟩
  use trivial
  rintro s ⟨⟩
  constructor
  · intro r pos h
    cases r with
    | false => cases h
    | true => cases h
  · intro s _
    trivial

/-- One thread subscribes, writes and leaves, another one reads. -/
def deadlockRun (b b' : BitsetPos) : List (Turn Bool Call) :=
  [.call false .sub, .run false, .run false] ++
  [.call false (.write (some [0])), .run false, .run false, .run false, .run false] ++
  [.call true (.read b), .run true, .run true] ++
  [.call false (.unSub b'), .run false] ++
  [.run true]

/-- In the end `UnSub` wants the message that `Read` has read, and `Read` wants `PoolCond`. -/
theorem deadlock :
  ¬ ∀ (T : Type) [DecidableEq T] (turns : List (Turn T Call)),
      (program.threads T).Throughout Uncrossed (startThreads T) turns
  := by
  intro hall
  have hrun : ((program.threads Bool).final (startThreads Bool) (deadlockRun 0 1)).isSome := by
    decide +kernel
  have hcrossed : ∀ s ∈ (program.threads Bool).final (startThreads Bool) (deadlockRun 0 1),
      s.owner .pool = some false ∧ program.op (s.point false) = some (.acquire (.data 0)) ∧
        s.owner (.data 0) = some true ∧ program.op (s.point true) = some (.acquire .pool) := by
    decide +kernel
  obtain ⟨s, hrun⟩ := Option.isSome_iff_exists.mp hrun
  obtain ⟨howns, hwants, howned, hwanted⟩ := hcrossed s hrun
  have hthroughout := hall Bool (deadlockRun 0 1)
  exact Machine.final_of_throughout hthroughout hrun false true 0
    ⟨howns, hwants, howned, hwanted⟩

end CircleBuffer
