import Orgrim.Threadpool.Queue

/-!
# The wake-ups of producers

A producer that waits on `queue_not_full` is woken when a thread has taken a job, unless the
queue is empty then: `threadpool_routine` signals `queue_empty` instead.  With room for one job
only, the queue is empty after every job that is taken, and the producer keeps waiting while there
is room (`wakeUps_kept_fails`).  With room for more nobody is left waiting, and with room for one
job nobody is as long as no producer waits when a job is taken (`wakeUps_kept_iff`).
-/

namespace Threadpool

variable {T X F A : Type*} [DecidableEq T] [DecidableEq X]

/-- The state of the pool and its threads. -/
abbrev State (T X F A : Type*) : Type _ :=
  Monitor.State T (Point X F A) (Pool X F A) Cond (Event F A)

/-- While the pool is open, the producers that wait have a reason to. -/
def WakeUpsKept (s : State T X F A) : Prop :=
  ¬ s.shared.queueClose → ¬ s.shared.poolClose →
    ∀ _t ∈ s.waiting .queueNotFull, s.shared.queueCurNum = s.shared.queueMaxNum

/-- A point where a thread of the pool looks for a job. -/
def Point.Looks (p : Point X F A) : Prop := p = .routine ∨ p = .routineWaits

/-- A thread takes the only job there is, of the only one for which there is room. -/
def TakesOnly (s : State T X F A) : Monitor.Move T Cond (Input X F A) → Prop
  | .enter t _ _ =>
      (s.point t).Looks ∧ s.shared.queueCurNum = 1 ∧ s.shared.queueMaxNum = 1
  | .wake _ _ => False

/-- While the pool is open, no producer waits when a thread takes such a job. -/
def NobodyWaits (s : State T X F A) (a : Monitor.Move T Cond (Input X F A)) : Prop :=
  (((monitor X F A).threads T).step s a).isSome → TakesOnly s a →
    ¬ s.shared.queueClose → ¬ s.shared.poolClose → s.waiting .queueNotFull = ∅

/-! ### What the sections do to the count -/

/-- What a section does to the count of the jobs: nothing, and then it waits only when there is no
room; or there is room and it adds one; or it takes one, and notifies somebody. -/
inductive CountStep (pool : Pool X F A) (p : Point X F A) (o : Result X F A) : Prop
  | same : o.shared.queueCurNum = pool.queueCurNum →
      (o.point.waits = some .queueNotFull → pool.queueCurNum = pool.queueMaxNum) →
      (p.Looks → pool.queueCurNum = 0 ∨ pool.poolClose) → CountStep pool p o
  | more : pool.queueCurNum ≠ pool.queueMaxNum → o.point.waits ≠ some .queueNotFull →
      ¬ p.Looks → CountStep pool p o
  | less : p.Looks → pool.queueCurNum ≠ 0 → o.shared.queueCurNum = pool.queueCurNum - 1 →
      o.notes = o.shared.notes → o.point.waits ≠ some .queueNotFull →
      SameFlags pool o.shared → CountStep pool p o

section

variable {pool : Pool X F A} {i : Input X F A} {o : Result X F A} {callbackFunc : F} {arg : A}
  {answer : Option X} {p : Point X F A}

omit [DecidableEq X] in
/-- A section of a thread that does not look for a job, and does not wait for room. -/
theorem countStep_same (hcount : o.shared.queueCurNum = pool.queueCurNum)
    (hpoint : o.point.waits ≠ some .queueNotFull) (hp : ¬ p.Looks) :
  CountStep pool p o
  := .same hcount (fun h => absurd h hpoint) (fun h => absurd h hp)

theorem addJobLoop_count (hp : ¬ p.Looks)
    (ho : pool.addJobLoop callbackFunc arg answer = some o) :
  KeepsFlags pool o.shared ∧ CountStep pool p o
  := by
  rcases addJobLoop_cases ho with
    ⟨hfull, rfl⟩ | rfl | ⟨pjob, pool', hspace, -, -, happend, rfl⟩
  · exact ⟨⟨id, id⟩, .same rfl (fun _ => hfull) (fun h => absurd h hp)⟩
  · exact ⟨⟨id, id⟩, countStep_same rfl (by rintro ⟨⟩) hp⟩
  · have hflags := (append_flags happend).keeps
    exact ⟨⟨hflags.queueClose, hflags.poolClose⟩, .more hspace nofun hp⟩

theorem routine_count (hp : p.Looks) (ho : pool.routine = some o) :
  KeepsFlags pool o.shared ∧ CountStep pool p o
  := by
  rcases routine_cases ho with
    ⟨hzero, rfl⟩ | ⟨hclose, rfl⟩ | ⟨pjob, pool', hsome, -, -, htake, rfl⟩
  · exact ⟨⟨id, id⟩, .same rfl nofun (fun _ => Or.inl hzero)⟩
  · exact ⟨⟨id, id⟩, .same rfl nofun (fun _ => Or.inr hclose)⟩
  · obtain ⟨-, hcount, hflags⟩ := takeHead_flags htake
    exact ⟨hflags.keeps, .less hp hsome hcount rfl nofun hflags⟩

omit [DecidableEq X] in
theorem destoryLoop_count (hp : ¬ p.Looks) :
  KeepsFlags pool pool.destoryLoop.shared ∧ CountStep pool p pool.destoryLoop
  := by
  rw [Pool.destoryLoop]
  split_ifs
  · exact ⟨⟨id, id⟩, countStep_same rfl (by rintro ⟨⟩) hp⟩
  · exact ⟨⟨id, fun _ => rfl⟩, countStep_same rfl (by rintro ⟨⟩) hp⟩

theorem enter_count (ho : pool.enter i p = some o) :
  KeepsFlags pool o.shared ∧ CountStep pool p o
  := by
  by_cases hp : p.Looks
  · rcases hp with rfl | rfl
    · apply routine_count (Or.inl rfl) ho
    · apply routine_count (Or.inr rfl) ho
  cases p
  case addJob =>
    cases hcallback : i.callbackFunc with
    | none =>
        simp only [Pool.enter, Pool.addJob, hcallback] at ho
        obtain rfl := Option.some.inj ho
        exact ⟨⟨id, id⟩, countStep_same rfl (by rintro ⟨⟩) hp⟩
    | some callbackFunc =>
        simp only [Pool.enter, Pool.addJob, hcallback] at ho
        apply addJobLoop_count hp ho
  case addJobWaits callbackFunc arg => apply addJobLoop_count hp ho
  case routine => exact absurd (Or.inl rfl) hp
  case routineWaits => exact absurd (Or.inr rfl) hp
  case callback pjob =>
    obtain ⟨job, -, rfl⟩ := Option.map_eq_some_iff.mp ho
    exact ⟨⟨id, id⟩, countStep_same rfl (by rintro ⟨⟩) hp⟩
  case freeJob pjob =>
    obtain ⟨heap, -, rfl⟩ := Option.map_eq_some_iff.mp ho
    exact ⟨⟨id, id⟩, countStep_same rfl (by rintro ⟨⟩) hp⟩
  case exited => cases ho
  case destroyed => cases ho
  case destory =>
    obtain rfl := Option.some.inj ho
    rw [Pool.destory]
    split_ifs
    · exact ⟨⟨id, id⟩, countStep_same rfl (by rintro ⟨⟩) hp⟩
    · rw [Pool.destoryLoop]
      split_ifs
      · exact ⟨⟨fun _ => rfl, id⟩, countStep_same rfl (by rintro ⟨⟩) hp⟩
      · exact ⟨⟨fun _ => rfl, fun _ => rfl⟩, countStep_same rfl (by rintro ⟨⟩) hp⟩
  case destoryWaits =>
    obtain rfl := Option.some.inj ho
    apply destoryLoop_count hp
  case wakeRoutines =>
    obtain rfl := Option.some.inj ho
    exact ⟨⟨id, id⟩, countStep_same rfl (by rintro ⟨⟩) hp⟩
  case wakeAddJobs =>
    obtain rfl := Option.some.inj ho
    exact ⟨⟨id, id⟩, countStep_same rfl (by rintro ⟨⟩) hp⟩
  case join =>
    obtain ⟨-, ho⟩ := Option.ite_none_right_eq_some.mp ho
    obtain ⟨heap, -, rfl⟩ := Option.map_eq_some_iff.mp ho
    exact ⟨⟨id, id⟩, countStep_same rfl (by rintro ⟨⟩) hp⟩

end

/-! ### Steps -/

section

variable {queueMaxNum : ℤ} {s s' : State T X F A} {t : T} {i : Input X F A}
  {pick : Cond → Option T} {a : Monitor.Move T Cond (Input X F A)} {o : Result X F A}
  {waiting : Cond → Finset T}

/-- What is known of a state: it comes from a run. -/
def Reached (queueMaxNum : ℤ) (s : State T X F A) : Prop :=
  1 ≤ queueMaxNum ∧ ∃ nodes, Holds queueMaxNum s.shared s.point s.log nodes

theorem Reached.step (h : Reached queueMaxNum s)
    (hs' : ((monitor X F A).threads T).step s a = some s') :
  Reached queueMaxNum s'
  := by
  obtain ⟨hmax, nodes, h⟩ := h
  use hmax
  rcases Monitor.step_cases hs' with ⟨c, t, -, rfl⟩ | ⟨t, i, pick, o, waiting, -, -, ho, -, rfl⟩
  · exact ⟨nodes, h⟩
  · obtain ⟨-, ho⟩ := Option.ite_none_left_eq_some.mp ho
    apply h.enter ho

/-- A thread that takes a job, when it is the only one for which there is room. -/
theorem kept_takesOnly (hsome : s.shared.queueCurNum = 1) (hone : s.shared.queueMaxNum = 1)
    (hcount : o.shared.queueCurNum = s.shared.queueCurNum - 1)
    (hnotes : o.notes = o.shared.notes) (hpoint : o.point.waits ≠ some .queueNotFull)
    (hflags : SameFlags s.shared o.shared)
    (hwaiting : Monitor.notifyAll pick o.notes s.waiting = some waiting) :
  WakeUpsKept ((monitor X F A).after s t o waiting) ↔
    (¬ s.shared.queueClose → ¬ s.shared.poolClose → s.waiting .queueNotFull = ∅)
  := by
  have hzero : o.shared.queueCurNum = 0 := by rw [hcount, hsome]; rfl
  have hsame : waiting .queueNotFull = s.waiting .queueNotFull := by
    rw [hnotes, Pool.notes, if_pos hzero] at hwaiting
    obtain ⟨between, hnote, hnil⟩ := Option.bind_eq_some_iff.mp hwaiting
    obtain rfl := Option.some.inj hnil
    exact Monitor.notify_signal_of_ne hnote nofun
  have hafter : ((monitor X F A).after s t o waiting).waiting .queueNotFull =
      s.waiting .queueNotFull := (Monitor.suspend_of_ne hpoint).trans hsame
  rw [WakeUpsKept, hafter]
  change (¬ o.shared.queueClose → ¬ o.shared.poolClose → ∀ _t ∈ s.waiting .queueNotFull,
    o.shared.queueCurNum = o.shared.queueMaxNum) ↔ _
  rw [hflags.queueClose, hflags.poolClose, hflags.max, hone, hzero]
  constructor
  · intro h hqueue hpool
    apply Finset.eq_empty_of_forall_notMem
    intro t' ht'
    exact absurd (h hqueue hpool t' ht') (by decide)
  · intro h hqueue hpool t' ht'
    rw [h hqueue hpool] at ht'
    exact absurd ht' (Finset.notMem_empty t')

/-- Nobody is left waiting by a section, but by a thread that takes the only job for which there
is room. -/
theorem kept_enter (h : Reached queueMaxNum s) (hkept : WakeUpsKept s)
    (ho : s.shared.enter i (s.point t) = some o)
    (hwaiting : Monitor.notifyAll pick o.notes s.waiting = some waiting) :
  WakeUpsKept ((monitor X F A).after s t o waiting) ↔
    ((s.point t).Looks ∧ s.shared.queueCurNum = 1 ∧ s.shared.queueMaxNum = 1 →
      ¬ s.shared.queueClose → ¬ s.shared.poolClose → s.waiting .queueNotFull = ∅)
  := by
  obtain ⟨hmax, nodes, h⟩ := h
  obtain ⟨nodes', h'⟩ := h.enter ho
  have hmax' : o.shared.queueMaxNum = s.shared.queueMaxNum := h'.max.trans h.max.symm
  obtain ⟨hkeep, hcount⟩ := enter_count ho
  have hfewer : waiting .queueNotFull ⊆ s.waiting .queueNotFull :=
    Monitor.notifyAll_subset hwaiting
  -- who waits afterwards has waited before, unless the thread itself begins to
  have hbefore (hpoint : o.point.waits ≠ some .queueNotFull) {t' : T}
      (ht' : t' ∈ ((monitor X F A).after s t o waiting).waiting .queueNotFull) :
      t' ∈ waiting .queueNotFull := by
    have hsame : Monitor.suspend t waiting o.point.waits .queueNotFull = waiting .queueNotFull :=
      Monitor.suspend_of_ne hpoint
    rw [← hsame]
    exact ht'
  have hopen (hqueue : ¬ o.shared.queueClose) (hpool : ¬ o.shared.poolClose) {t' : T}
      (ht' : t' ∈ waiting .queueNotFull) : s.shared.queueCurNum = s.shared.queueMaxNum :=
    hkept (fun hclose => hqueue (hkeep.queueClose hclose))
      (fun hclose => hpool (hkeep.poolClose hclose)) t' (hfewer ht')
  cases hcount with
  | same hcount hwaits hlooks =>
      apply iff_of_true
      · intro hqueue hpool t' ht'
        change o.shared.queueCurNum = o.shared.queueMaxNum
        rw [hcount, hmax']
        by_cases hpoint : o.point.waits = some .queueNotFull
        · apply hwaits hpoint
        · apply hopen hqueue hpool (hbefore hpoint ht')
      · rintro ⟨hp, hone, -⟩ _ hpool
        rcases hlooks hp with hzero | hclose
        · omega
        · exact absurd hclose hpool
  | more hspace hpoint hlooks =>
      apply iff_of_true
      · intro hqueue hpool t' ht'
        exact absurd (hopen hqueue hpool (hbefore hpoint ht')) hspace
      · rintro ⟨hp, -⟩
        exact absurd hp hlooks
  | less hlooks hsome hcount hnotes hpoint hflags =>
      by_cases honly : s.shared.queueCurNum = 1 ∧ s.shared.queueMaxNum = 1
      · rw [kept_takesOnly honly.1 honly.2 hcount hnotes hpoint hflags hwaiting]
        exact (imp_iff_right ⟨hlooks, honly⟩).symm
      apply iff_of_true
      · intro hqueue hpool t' ht'
        have hwaits := hbefore hpoint ht'
        have hfull := hopen hqueue hpool hwaits
        have hzero : o.shared.queueCurNum ≠ 0 := by omega
        have hroom : o.shared.queueCurNum ≤ o.shared.queueMaxNum - 1 := by omega
        rw [hnotes, Pool.notes, if_neg hzero, if_pos hroom] at hwaiting
        rw [Monitor.notifyAll_broadcast hwaiting List.mem_cons_self] at hwaits
        exact absurd hwaits (Finset.notMem_empty t')
      · rintro ⟨-, hone⟩
        exact absurd hone honly

/-- What a move does to the producers that wait. -/
theorem kept_step (h : Reached queueMaxNum s) (hkept : WakeUpsKept s)
    (hs' : ((monitor X F A).threads T).step s a = some s') :
  WakeUpsKept s' ↔ NobodyWaits s a
  := by
  have hsome : (((monitor X F A).threads T).step s a).isSome := Option.isSome_of_eq_some hs'
  rw [NobodyWaits, imp_iff_right hsome]
  rcases Monitor.step_cases hs' with
    ⟨c, t, rfl, rfl⟩ | ⟨t, i, pick, o, waiting, rfl, -, ho, hwaiting, rfl⟩
  · apply iff_of_true
    · intro hqueue hpool t' ht'
      apply hkept hqueue hpool t'
      change t' ∈ Function.update s.waiting c ((s.waiting c).erase t) .queueNotFull at ht'
      rcases eq_or_ne .queueNotFull c with rfl | hne
      · rw [Function.update_self] at ht'
        apply Finset.mem_of_mem_erase ht'
      · rw [Function.update_of_ne hne] at ht'
        exact ht'
    · apply False.elim
  · obtain ⟨-, ho⟩ := Option.ite_none_left_eq_some.mp ho
    apply kept_enter h hkept ho hwaiting

end

/-! ### Every run -/

/-- The producers that wait while the pool is open have a reason to, throughout a run, exactly when
nobody waits whenever a thread takes the only job for which there is room.  With room for more
jobs this is every run. -/
theorem wakeUps_kept_iff {roles : T → Role} {threadNum : ℕ} {queueMaxNum : ℤ}
    (hmax : 1 ≤ queueMaxNum) {heap : Heap X (Job X F A)}
    {moves : List (Monitor.Move T Cond (Input X F A))} :
  (((monitor X F A).threads T).Throughout WakeUpsKept (start roles threadNum queueMaxNum heap) moves
      ↔ ((monitor X F A).threads T).Along NobodyWaits (start roles threadNum queueMaxNum heap)
        moves) ∧
    (2 ≤ queueMaxNum → ((monitor X F A).threads T).Throughout WakeUpsKept
      (start roles threadNum queueMaxNum heap) moves)
  := by
  have hstart : Reached queueMaxNum (start roles threadNum queueMaxNum heap) :=
    ⟨hmax, [], start_holds roles threadNum (by omega) heap⟩
  have hkept : WakeUpsKept (start roles threadNum queueMaxNum heap) := by
    intro _ _ t ht
    exact absurd ht (Finset.notMem_empty t)
  have hiff : ((monitor X F A).threads T).Throughout WakeUpsKept
      (start roles threadNum queueMaxNum heap) moves ↔
        WakeUpsKept (start roles threadNum queueMaxNum heap) ∧
          ((monitor X F A).threads T).Along NobodyWaits (start roles threadNum queueMaxNum heap)
            moves := by
    apply Machine.throughout_iff_along (Reached queueMaxNum) _ _ _ hstart
    · exact fun s a h hkept s' hs' => kept_step h hkept hs'
    · intro s a _ _ hnone hsome
      rw [hnone] at hsome
      cases hsome
    · exact fun s a h s' hs' => h.step hs'
  use hiff.trans (and_iff_right hkept)
  intro htwo
  apply Machine.throughout_of_invariant (Q := fun _ _ => True)
    (fun s => Reached queueMaxNum s ∧ WakeUpsKept s) (fun s h => h.2) _ ⟨hstart, hkept⟩
    (Machine.along_of_forall (fun _ _ => trivial))
  rintro s a ⟨h, hkept⟩ - s' hs'
  use h.step hs'
  apply (kept_step h hkept hs').mpr
  intro _ htakes
  obtain ⟨nodes, hholds⟩ := h.2
  cases a with
  | enter t i pick =>
      have hone := htakes.2.2
      rw [hholds.max] at hone
      omega
  | wake c t => apply htakes.elim

/-- A producer and a thread, and room for one job: the producer waits for room, and goes on
waiting when its first job has been taken. -/
theorem wakeUps_kept_fails :
  ∃ s, ((monitor ℕ ℕ Unit).threads (Fin 2)).final
      (start (fun t => [.producer, .worker].get t) 1 1 ⟨∅, fun _ => ⟨0, (), none⟩⟩)
      [.enter 0 ⟨some 5, (), some 0⟩ (fun _ => none),
        .enter 0 ⟨some 6, (), some 1⟩ (fun _ => none),
        .enter 1 ⟨none, (), none⟩ (fun _ => none)] = some s ∧
    ¬ s.shared.queueClose ∧ ¬ s.shared.poolClose ∧ 0 ∈ s.waiting .queueNotFull ∧
    s.shared.queueCurNum = 0 ∧ s.shared.queueMaxNum = 1
  := Machine.exists_final (by decide) (by decide)

/-- With room for two jobs, nobody is left waiting. -/
theorem wakeUps_kept_two :
  ((monitor ℕ ℕ Unit).threads (Fin 2)).Throughout WakeUpsKept
      (start (fun t => [.producer, .worker].get t) 1 2 ⟨∅, fun _ => ⟨0, (), none⟩⟩)
      [.enter 0 ⟨some 5, (), some 0⟩ (fun _ => none),
        .enter 0 ⟨some 6, (), some 1⟩ (fun _ => none),
        .enter 0 ⟨some 7, (), some 2⟩ (fun _ => none),
        .enter 1 ⟨none, (), none⟩ (fun _ => none)]
  := (wakeUps_kept_iff (by decide)).2 (by decide)

end Threadpool
