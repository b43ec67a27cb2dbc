import Orgrim.Ctpl.Pool

/-!
# What a thread of the pool of functions does

`Enters` says once what can happen when a thread enters (`enters_of_enter`); everything else
follows by going through it.  What is not given up: the pool only grows (`Enters.grows`), every
thread stays on its own side (`Enters.role`), and at most one thread has the mutex
(`Exclusive.section`).
-/

namespace Ctpl

variable {F : Type*}

/-- What a thread does, by where it is. -/
inductive Enters (pool : ThreadPool F) : Point F → Result F → Prop
  | popTask {i : ℕ} {f : F} (hf : pool.pushed[pool.popped]? = some f) :
      Enters pool (.pop i)
        { point := .run i pool.popped f, shared := { pool with popped := pool.popped + 1 } }
  | popNone {i : ℕ} (hnone : pool.pushed.length ≤ pool.popped) :
      Enters pool (.pop i) { point := .lock i, shared := pool }
  | run {i k : ℕ} {f : F} :
      Enters pool (.run i k f) { point := .ran i, shared := pool, events := [.executed k] }
  | ranLast {i : ℕ} (hflag : pool.flags i = true) :
      Enters pool (.ran i)
        { point := .returned i, shared := { pool with exited := insert i pool.exited } }
  | ran {i : ℕ} (hflag : pool.flags i = false) :
      Enters pool (.ran i) { point := .pop i, shared := pool }
  | lock {i : ℕ} (hlocked : pool.locked = false) :
      Enters pool (.lock i)
        { point := .predicate i
          shared := { pool with nWaiting := pool.nWaiting + 1, locked := true } }
  | wakeUp {i : ℕ} (hlocked : pool.locked = false) :
      Enters pool (.waits i) { point := .predicate i, shared := { pool with locked := true } }
  | predicateTask {i : ℕ} {f : F} (hf : pool.pushed[pool.popped]? = some f) :
      Enters pool (.predicate i)
        { point := .leave i (some (pool.popped, f))
          shared := { pool with popped := pool.popped + 1 } }
  | predicateNone {i : ℕ} (hnone : pool.pushed.length ≤ pool.popped) :
      Enters pool (.predicate i) { point := .readDone i, shared := pool }
  | isDone {i : ℕ} (hdone : pool.isDone = true) :
      Enters pool (.readDone i) { point := .leave i none, shared := pool }
  | isNotDone {i : ℕ} (hdone : pool.isDone = false) :
      Enters pool (.readDone i) { point := .readFlag i, shared := pool }
  | flagged {i : ℕ} (hflag : pool.flags i = true) :
      Enters pool (.readFlag i) { point := .leave i none, shared := pool }
  | wait {i : ℕ} (hflag : pool.flags i = false) :
      Enters pool (.readFlag i) { point := .waits i, shared := { pool with locked := false } }
  | leaveTask {i k : ℕ} {f : F} :
      Enters pool (.leave i (some (k, f)))
        { point := .run i k f
          shared := { pool with nWaiting := pool.nWaiting - 1, locked := false } }
  | leaveNone {i : ℕ} :
      Enters pool (.leave i none)
        { point := .returned i
          shared :=
            { pool with
              nWaiting := pool.nWaiting - 1
              locked := false
              exited := insert i pool.exited } }
  | push {f : F} :
      Enters pool .client
        { point := .notify pool.pushed.length
          shared := { pool with pushed := pool.pushed ++ [f] }
          events := [.pushed pool.pushed.length] }
  | notify {k : ℕ} (hlocked : pool.locked = false) :
      Enters pool (.notify k)
        { point := .client, shared := pool, notes := [.signal .cv], events := [.returned k] }
  | stopAgain :
      Enters pool .control { point := .control, shared := pool }
  | stopWait (hdone : pool.isDone = false) (hstop : pool.isStop = false) :
      Enters pool .control
        { point := .notifyAll, shared := { pool with isDone := true }, events := [.done] }
  | stop (hstop : pool.isStop = false) :
      Enters pool .control { point := .setFlags 0, shared := { pool with isStop := true } }
  | setFlag {i : ℕ} (hi : i < pool.size) :
      Enters pool (.setFlags i)
        { point := .setFlags (i + 1)
          shared := { pool with flags := Function.update pool.flags i true } }
  | flagsSet {i : ℕ} (hi : pool.size ≤ i) :
      Enters pool (.setFlags i) { point := .clear, shared := pool }
  | delete {f : F} (hf : pool.pushed[pool.popped]? = some f) :
      Enters pool .clear
        { point := .clear
          shared := { pool with popped := pool.popped + 1 }
          events := [.deleted pool.popped] }
  | cleared (hnone : pool.pushed.length ≤ pool.popped) :
      Enters pool .clear { point := .notifyAll, shared := pool }
  | notifyAll (hlocked : pool.locked = false) :
      Enters pool .notifyAll { point := .join 0, shared := pool, notes := [.broadcast .cv] }
  | join {i : ℕ} (hi : i < pool.size) (hexited : i ∈ pool.exited) :
      Enters pool (.join i) { point := .join (i + 1), shared := pool }
  | joined {i : ℕ} (hi : pool.size ≤ i) :
      Enters pool (.join i) { point := .clearRest, shared := pool }
  | deleteRest {f : F} (hf : pool.pushed[pool.popped]? = some f) :
      Enters pool .clearRest
        { point := .clearRest
          shared := { pool with popped := pool.popped + 1 }
          events := [.deleted pool.popped] }
  | stopped (hnone : pool.pushed.length ≤ pool.popped) :
      Enters pool .clearRest
        { point := .control, shared := { pool with size := 0 }, events := [.stopped] }

section

variable {pool : ThreadPool F} {call : Call F} {p : Point F} {o : Result F}

/-- What is at the front of the queue. -/
theorem pop_cases (pool : ThreadPool F) :
  (∃ f, pool.pushed[pool.popped]? = some f ∧
      pool.pop = some ((pool.popped, f), { pool with popped := pool.popped + 1 })) ∨
    (pool.pushed.length ≤ pool.popped ∧ pool.pop = none)
  := by
  rw [ThreadPool.pop]
  cases hf : pool.pushed[pool.popped]? with
  | none => exact Or.inr ⟨List.getElem?_eq_none_iff.mp hf, rfl⟩
  | some f => exact Or.inl ⟨f, rfl, rfl⟩

theorem popped_lt {f : F} (hf : pool.pushed[pool.popped]? = some f) :
  pool.popped < pool.pushed.length
  := (List.getElem?_eq_some_iff.mp hf).1

theorem enters_of_stop {isWait : Bool} :
  Enters pool .control (pool.stop isWait)
  := by
  cases isWait with
  | true =>
      simp only [ThreadPool.stop, if_true]
      split
      · apply Enters.stopAgain
      · rename_i hneither
        obtain ⟨hdone, hstop⟩ := not_or.mp hneither
        apply Enters.stopWait (Bool.eq_false_of_not_eq_true hdone)
          (Bool.eq_false_of_not_eq_true hstop)
  | false =>
      simp only [ThreadPool.stop, Bool.false_eq_true, if_false]
      split
      · apply Enters.stopAgain
      · rename_i hstop
        apply Enters.stop (Bool.eq_false_of_not_eq_true hstop)

theorem enters_of_enter (ho : pool.enter call p = some o) :
  Enters pool p o
  := by
  cases p
  case pop i =>
    obtain rfl := Option.some.inj ho
    rcases pop_cases pool with ⟨f, hf, hpop⟩ | ⟨hnone, hpop⟩
    · rw [ThreadPool.popOrWait, hpop]
      apply Enters.popTask hf
    · rw [ThreadPool.popOrWait, hpop]
      apply Enters.popNone hnone
  case run i k f =>
    obtain rfl := Option.some.inj ho
    apply Enters.run
  case ran i =>
    obtain rfl := Option.some.inj ho
    split
    · rename_i hflag
      apply Enters.ranLast hflag
    · rename_i hflag
      apply Enters.ran (Bool.eq_false_of_not_eq_true hflag)
  case lock i =>
    obtain ⟨hlocked, ho⟩ := Option.ite_none_left_eq_some.mp ho
    obtain rfl := Option.some.inj ho
    apply Enters.lock (Bool.eq_false_of_not_eq_true hlocked)
  case predicate i =>
    obtain rfl := Option.some.inj ho
    rcases pop_cases pool with ⟨f, hf, hpop⟩ | ⟨hnone, hpop⟩
    · rw [ThreadPool.popOrRead, hpop]
      apply Enters.predicateTask hf
    · rw [ThreadPool.popOrRead, hpop]
      apply Enters.predicateNone hnone
  case readDone i =>
    obtain rfl := Option.some.inj ho
    cases hdone : pool.isDone
    · apply Enters.isNotDone hdone
    · apply Enters.isDone hdone
  case readFlag i =>
    obtain rfl := Option.some.inj ho
    split
    · rename_i hflag
      apply Enters.flagged hflag
    · rename_i hflag
      apply Enters.wait (Bool.eq_false_of_not_eq_true hflag)
  case waits i =>
    obtain ⟨hlocked, ho⟩ := Option.ite_none_left_eq_some.mp ho
    obtain rfl := Option.some.inj ho
    apply Enters.wakeUp (Bool.eq_false_of_not_eq_true hlocked)
  case leave i next =>
    obtain rfl := Option.some.inj ho
    rcases next with - | ⟨k, f⟩
    · apply Enters.leaveNone
    · apply Enters.leaveTask
  case returned i => cases ho
  case client =>
    cases call with
    | push f =>
        obtain rfl := Option.some.inj ho
        apply Enters.push
    | stop isWait => cases ho
  case notify k =>
    obtain ⟨hlocked, ho⟩ := Option.ite_none_left_eq_some.mp ho
    obtain rfl := Option.some.inj ho
    apply Enters.notify (Bool.eq_false_of_not_eq_true hlocked)
  case control =>
    cases call with
    | push f => cases ho
    | stop isWait =>
        obtain rfl := Option.some.inj ho
        apply enters_of_stop
  case setFlags i =>
    obtain rfl := Option.some.inj ho
    split
    · rename_i hi
      apply Enters.setFlag hi
    · rename_i hi
      apply Enters.flagsSet (Nat.le_of_not_lt hi)
  case clear =>
    obtain rfl := Option.some.inj ho
    rcases pop_cases pool with ⟨f, hf, hpop⟩ | ⟨hnone, hpop⟩
    · rw [ThreadPool.clearQueue, hpop]
      apply Enters.delete hf
    · rw [ThreadPool.clearQueue, hpop]
      apply Enters.cleared hnone
  case notifyAll =>
    obtain ⟨hlocked, ho⟩ := Option.ite_none_left_eq_some.mp ho
    obtain rfl := Option.some.inj ho
    apply Enters.notifyAll (Bool.eq_false_of_not_eq_true hlocked)
  case join i =>
    simp only [ThreadPool.enter] at ho
    split at ho
    · rename_i hi
      obtain ⟨hexited, ho⟩ := Option.ite_none_right_eq_some.mp ho
      obtain rfl := Option.some.inj ho
      apply Enters.join hi hexited
    · rename_i hi
      obtain rfl := Option.some.inj ho
      apply Enters.joined (Nat.le_of_not_lt hi)
  case clearRest =>
    obtain rfl := Option.some.inj ho
    rcases pop_cases pool with ⟨f, hf, hpop⟩ | ⟨hnone, hpop⟩
    · rw [ThreadPool.clearQueue, hpop]
      apply Enters.deleteRest hf
    · rw [ThreadPool.clearQueue, hpop]
      apply Enters.stopped hnone

/-! ### What only grows -/

/-- What no thread takes back. -/
structure ThreadPool.Grows (pool pool' : ThreadPool F) : Prop where
  pushed : pool.pushed <+: pool'.pushed
  popped : pool.popped ≤ pool'.popped
  flags : ∀ i, pool.flags i = true → pool'.flags i = true
  isDone : pool.isDone = true → pool'.isDone = true
  isStop : pool.isStop = true → pool'.isStop = true
  exited : pool.exited ⊆ pool'.exited

theorem ThreadPool.Grows.length_le {pool pool' : ThreadPool F} (h : pool.Grows pool') :
  pool.pushed.length ≤ pool'.pushed.length
  := h.pushed.length_le

theorem Enters.grows (h : Enters pool p o) :
  pool.Grows o.shared
  := by
  have hself : pool.Grows pool :=
    ⟨List.prefix_refl _, le_refl _, fun _ => id, id, id, Finset.Subset.refl _⟩
  cases h
  case push f => exact { hself with pushed := List.prefix_append _ _ }
  case popTask => exact { hself with popped := Nat.le_succ _ }
  case predicateTask => exact { hself with popped := Nat.le_succ _ }
  case delete => exact { hself with popped := Nat.le_succ _ }
  case deleteRest => exact { hself with popped := Nat.le_succ _ }
  case ranLast => exact { hself with exited := Finset.subset_insert _ _ }
  case leaveNone => exact { hself with exited := Finset.subset_insert _ _ }
  case stopWait => exact { hself with isDone := fun _ => rfl }
  case stop => exact { hself with isStop := fun _ => rfl }
  case setFlag i hi =>
    refine { hself with flags := ?_ }
    intro j hj
    rcases eq_or_ne j i with rfl | hne
    · apply Function.update_self
    · exact (Function.update_of_ne hne ..).trans hj
  all_goals exact { hself with }

/-! ### Sides -/

/-- Whose point it is. -/
inductive Role where
  | worker (i : ℕ)
  | client
  | controller
  deriving DecidableEq

def Point.role : Point F → Role
  | .pop i => .worker i
  | .run i _ _ => .worker i
  | .ran i => .worker i
  | .lock i => .worker i
  | .predicate i => .worker i
  | .readDone i => .worker i
  | .readFlag i => .worker i
  | .waits i => .worker i
  | .leave i _ => .worker i
  | .returned i => .worker i
  | .client => .client
  | .notify _ => .client
  | .control => .controller
  | .setFlags _ => .controller
  | .clear => .controller
  | .notifyAll => .controller
  | .join _ => .controller
  | .clearRest => .controller

/-- A thread stays on its side. -/
theorem Enters.role (h : Enters pool p o) :
  o.point.role = p.role
  := by
  cases h <;> rfl

/-! ### The mutex -/

/-- A thread has `mutex` between two sections. -/
def Point.Locks : Point F → Prop
  | .predicate _ => True
  | .readDone _ => True
  | .readFlag _ => True
  | .leave _ _ => True
  | _ => False

/-- What a thread does with the mutex: it takes it, gives it back, or leaves it. -/
theorem Enters.locks (h : Enters pool p o) :
  (pool.locked = false ∧ o.shared.locked = true ∧ o.point.Locks) ∨
    (p.Locks ∧ ¬ o.point.Locks) ∨
    (o.shared.locked = pool.locked ∧ (o.point.Locks ↔ p.Locks))
  := by
  cases h
  case lock hlocked => exact Or.inl ⟨hlocked, rfl, trivial⟩
  case wakeUp hlocked => exact Or.inl ⟨hlocked, rfl, trivial⟩
  case wait => exact Or.inr (Or.inl ⟨trivial, id⟩)
  case leaveTask => exact Or.inr (Or.inl ⟨trivial, id⟩)
  case leaveNone => exact Or.inr (Or.inl ⟨trivial, id⟩)
  all_goals exact Or.inr (Or.inr ⟨rfl, Iff.rfl⟩)

end

section

variable {T : Type*} [DecidableEq T] {pool : ThreadPool F} {point : T → Point F} {t t' : T}
  {o : Result F}

/-- Who has the mutex has locked it, and nobody else has it. -/
def Exclusive (pool : ThreadPool F) (point : T → Point F) : Prop :=
  ∀ t, (point t).Locks → pool.locked = true ∧ ∀ t', (point t').Locks → t' = t

theorem Exclusive.section (h : Exclusive pool point) (ho : Enters pool (point t) o) :
  Exclusive o.shared (Function.update point t o.point)
  := by
  have hother : ∀ t', t' ≠ t → Function.update point t o.point t' = point t' :=
    fun t' hne => Function.update_of_ne hne ..
  intro t₁ ht₁
  rcases ho.locks with ⟨hfree, hlocked, -⟩ | ⟨hbefore, hafter⟩ | ⟨hsame, hiff⟩
  · have hnobody : ∀ t', ¬ (point t').Locks := by
      intro t' ht'
      rw [(h t' ht').1] at hfree
      cases hfree
    have hself : ∀ t', (Function.update point t o.point t').Locks → t' = t := by
      intro t' ht'
      by_contra hne
      rw [hother t' hne] at ht'
      apply hnobody t' ht'
    use hlocked
    intro t' ht'
    rw [hself t' ht', hself t₁ ht₁]
  · exfalso
    rcases eq_or_ne t₁ t with rfl | hne
    · rw [Function.update_self] at ht₁
      apply hafter ht₁
    · rw [hother t₁ hne] at ht₁
      apply hne ((h t hbefore).2 t₁ ht₁)
  · have hlocks : ∀ t', (Function.update point t o.point t').Locks ↔ (point t').Locks := by
      intro t'
      rcases eq_or_ne t' t with rfl | hne
      · rw [Function.update_self, hiff]
      · rw [hother t' hne]
    obtain ⟨hlocked, hone⟩ := h t₁ ((hlocks t₁).mp ht₁)
    use hsame.trans hlocked
    intro t' ht'
    apply hone t' ((hlocks t').mp ht')

end

end Ctpl
