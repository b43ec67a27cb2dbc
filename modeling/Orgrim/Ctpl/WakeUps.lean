import Mathlib.Data.Finset.Card
import Orgrim.Ctpl.Functions

/-!
# The wake-ups of the pool of functions

`push` puts its function into the queue before it takes `mutex`, and a thread looks into the queue
again when it has it.  While some thread of the pool sleeps, there is for each function in the queue
a thread of its own that is on its way: a client that is about to notify, or a thread of the pool
that is about to look into the queue (`never_stranded`).  A thread that sleeps although it has been
told to return will be woken by the controller.
-/

namespace Ctpl

/-! ### What a section does to the queue -/

section

variable {F : Type*}

/-- On the way to the queue, or to who sleeps. -/
def Point.Due : Point F → Prop
  | .pop _ => True
  | .lock _ => True
  | .predicate _ => True
  | .waits _ => True
  | .notify _ => True
  | _ => False

/-- In the predicate of `cv.wait`, after the queue was empty. -/
def Point.Reads : Point F → Prop
  | .readDone _ => True
  | .readFlag _ => True
  | _ => False

/-- In `stop`, up to the notification. -/
def Point.Notifying : Point F → Prop
  | .setFlags _ => True
  | .clear => True
  | .notifyAll => True
  | _ => False

/-- What a thread does to the queue and to those who sleep. -/
inductive WakeStep (pool : ThreadPool F) (p : Point F) (o : Result F) : Prop
  | quiet : o.shared.pushed = pool.pushed → pool.popped ≤ o.shared.popped → o.notes = [] →
      o.point.waitsFor = none → (p.Due → o.point.Due) → (o.point.Reads → p.Reads) →
      (∀ k, p ≠ .notify k) → WakeStep pool p o
  | pop : o.shared.pushed = pool.pushed → o.shared.popped = pool.popped + 1 → o.notes = [] →
      o.point.waitsFor = none → ¬ o.point.Reads → (∀ k, p ≠ .notify k) → WakeStep pool p o
  | empty : o.shared = pool → pool.pushed.length ≤ pool.popped → o.notes = [] →
      o.point.waitsFor = none → WakeStep pool p o
  | sleep {i : ℕ} : o.shared.pushed = pool.pushed → o.shared.popped = pool.popped →
      o.notes = [] → p = .readFlag i → o.point = .waits i → WakeStep pool p o
  | push {k : ℕ} : o.shared.pushed.length = pool.pushed.length + 1 →
      o.shared.popped = pool.popped → o.notes = [] → p = .client → o.point = .notify k →
      WakeStep pool p o
  | signal {k : ℕ} : o.shared = pool → pool.locked = false → o.notes = [.signal .cv] →
      p = .notify k → o.point = .client → WakeStep pool p o
  | broadcast : o.shared = pool → pool.locked = false → o.notes = [.broadcast .cv] →
      p = .notifyAll → o.point = .join 0 → WakeStep pool p o

variable {pool : ThreadPool F} {p : Point F} {o : Result F}

theorem Enters.wakeStep (h : Enters pool p o) :
  WakeStep pool p o
  := by
  cases h
  case popTask => exact .pop rfl rfl rfl rfl id nofun
  case popNone hnone => exact .empty rfl hnone rfl rfl
  case predicateTask => exact .pop rfl rfl rfl rfl id nofun
  case predicateNone hnone => exact .empty rfl hnone rfl rfl
  case wait => exact .sleep rfl rfl rfl rfl rfl
  case push => exact .push List.length_append rfl rfl rfl rfl
  case notify hlocked => exact .signal rfl hlocked rfl rfl rfl
  case notifyAll hlocked => exact .broadcast rfl hlocked rfl rfl rfl
  case lock => exact .quiet rfl (le_refl _) rfl rfl id False.elim nofun
  case wakeUp => exact .quiet rfl (le_refl _) rfl rfl id False.elim nofun
  case isDone => exact .quiet rfl (le_refl _) rfl rfl id False.elim nofun
  case isNotDone => exact .quiet rfl (le_refl _) rfl rfl id id nofun
  case flagged => exact .quiet rfl (le_refl _) rfl rfl id False.elim nofun
  case delete => exact .quiet rfl (Nat.le_succ _) rfl rfl id id nofun
  case deleteRest => exact .quiet rfl (Nat.le_succ _) rfl rfl id id nofun
  all_goals exact .quiet rfl (le_refl _) rfl rfl False.elim False.elim nofun

/-- A thread goes to sleep when it has found its flag not set. -/
theorem Enters.waits_cases {i : ℕ} (h : Enters pool p o) (hp : o.point = .waits i) :
  p = .readFlag i ∧ o.shared.flags i = false ∧ o.shared.isDone = pool.isDone
  := by
  cases h
  case wait hflag =>
    obtain rfl := Point.waits.inj hp
    exact ⟨rfl, hflag, rfl⟩
  all_goals cases hp

theorem Enters.readFlag_cases {i : ℕ} (h : Enters pool p o) (hp : o.point = .readFlag i) :
  o.shared.isDone = false
  := by
  cases h
  case isNotDone hdone => exact hdone
  all_goals cases hp

/-- Who gives a command is about to notify, and does so. -/
theorem Enters.notifying (h : Enters pool p o) :
  ((o.shared.flags = pool.flags ∧ o.shared.isDone = pool.isDone) ∨ o.point.Notifying) ∧
    (o.shared.isDone = pool.isDone ∨ o.point = .notifyAll) ∧
    (p.Notifying → o.point.Notifying ∨ p = .notifyAll)
  := by
  cases h
  case stopWait => exact ⟨Or.inr trivial, Or.inr rfl, False.elim⟩
  case setFlag => exact ⟨Or.inr trivial, Or.inl rfl, fun _ => Or.inl trivial⟩
  case flagsSet => exact ⟨Or.inr trivial, Or.inl rfl, fun _ => Or.inl trivial⟩
  case delete => exact ⟨Or.inr trivial, Or.inl rfl, fun _ => Or.inl trivial⟩
  case cleared => exact ⟨Or.inr trivial, Or.inl rfl, fun _ => Or.inl trivial⟩
  case notifyAll => exact ⟨Or.inl ⟨rfl, rfl⟩, Or.inl rfl, fun _ => Or.inr rfl⟩
  all_goals exact ⟨Or.inl ⟨rfl, rfl⟩, Or.inl rfl, False.elim⟩

theorem Point.waitsFor_eq_some {c : Cond} (h : p.waitsFor = some c) :
  ∃ i, p = .waits i
  := by
  cases p
  case waits i => exact ⟨i, rfl⟩
  all_goals cases h

end

/-! ### The invariant -/

section

variable {nThreads : ℕ} {U F : Type*} [DecidableEq U]

/-- A thread is on its way to the queue, or to who sleeps, and does not sleep. -/
def Due (s : State nThreads U F) (t : Thread nThreads U) : Prop :=
  (s.point t).Due ∧ t ∉ s.waiting .cv

/-- Each function in the queue has a thread of its own among those in `A`. -/
def Served (pool : ThreadPool F) (A : Finset (Thread nThreads U)) : Prop :=
  pool.pushed.length ≤ pool.popped + A.card

/-- What holds of those who sleep. -/
structure Awake (s : State nThreads U F) : Prop where
  role : ∀ t, (s.point t).role = t.role
  exclusive : Exclusive s.shared s.point
  waits : ∀ t ∈ s.waiting .cv, ∃ i, s.point t = .waits i
  sleeps : (s.waiting .cv).Nonempty → ∃ A, (∀ t ∈ A, Due s t) ∧ Served s.shared A
  reads : ∀ t, (s.point t).Reads →
    ∃ A, (∀ t ∈ A, ∃ k, s.point t = .notify k) ∧ Served s.shared A
  done : s.shared.isDone = true →
    s.point .controller = .notifyAll ∨ (s.waiting .cv = ∅ ∧ ∀ t i, s.point t ≠ .readFlag i)
  flag : ∀ i : Fin nThreads, s.shared.flags i = true →
    (s.point .controller).Notifying ∨ .worker i ∉ s.waiting .cv

variable {s s' : State nThreads U F} {t t' : Thread nThreads U} {o : Result F}
  {pick : Cond → Option (Thread nThreads U)} {waiting : Cond → Finset (Thread nThreads U)}
  {A : Finset (Thread nThreads U)}

/-- Where the others are when a thread has entered. -/
theorem point_after_of_ne (hne : t' ≠ t) :
  ((monitor F).after s t o waiting).point t' = s.point t'
  := Function.update_of_ne hne ..

/-- Who does not sleep when a thread has entered that does not go to sleep. -/
theorem waiting_after (hwaits : o.point.waitsFor = none) :
  ((monitor F).after s t o waiting).waiting = waiting
  := by
  change Monitor.suspend t waiting o.point.waitsFor = waiting
  rw [hwaits]
  rfl

/-- The others stay on their way. -/
theorem Due.of_ne (h : Due s t')
    (hwaiting : Monitor.notifyAll pick o.notes s.waiting = some waiting) (hne : t' ≠ t) :
  Due ((monitor F).after s t o waiting) t'
  := by
  obtain ⟨hdue, hawake⟩ := h
  constructor
  · rw [point_after_of_ne hne]
    exact hdue
  · intro hmem
    rcases Monitor.mem_suspend.mp hmem with hmem | ⟨rfl, -⟩
    · apply hawake (Monitor.notifyAll_subset hwaiting hmem)
    · apply hne rfl

/-- A thread that has entered is on its way. -/
theorem due_after (hdue : o.point.Due) (hwaits : o.point.waitsFor = none)
    (hnot : t ∉ waiting .cv) :
  Due ((monitor F).after s t o waiting) t
  := by
  constructor
  · rw [Monitor.point_after]
    exact hdue
  · rw [waiting_after hwaits]
    exact hnot

omit [DecidableEq U] in
theorem Served.mono {pool pool' : ThreadPool F} {A B : Finset (Thread nThreads U)}
    (h : Served pool A) (hpushed : pool'.pushed = pool.pushed)
    (hle : pool.popped + A.card ≤ pool'.popped + B.card) :
  Served pool' B
  := by
  rw [Served, hpushed]
  exact h.trans hle

/-- One of the threads has popped a function. -/
theorem Served.pop {pool pool' : ThreadPool F} (h : Served pool A)
    (hpushed : pool'.pushed = pool.pushed) (hpopped : pool'.popped = pool.popped + 1) :
  Served pool' (A.erase t)
  := by
  have hcard := Finset.pred_card_le_card_erase (s := A) (a := t)
  apply h.mono hpushed
  omega

/-- A client has pushed a function. -/
theorem Served.push {pool pool' : ThreadPool F} (h : Served pool A)
    (hpushed : pool'.pushed.length = pool.pushed.length + 1)
    (hpopped : pool'.popped = pool.popped) (ht : t ∉ A) :
  Served pool' (insert t A)
  := by
  rw [Served, hpushed, hpopped, Finset.card_insert_of_notMem ht, ← Nat.add_assoc]
  apply Nat.succ_le_succ h

/-- A thread is woken, and who has woken it goes on. -/
theorem Served.exchange {pool : ThreadPool F} (h : Served pool A) (ht' : t' ∉ A) :
  Served pool (insert t' (A.erase t))
  := by
  have hcard := Finset.pred_card_le_card_erase (s := A) (a := t)
  rw [Served, Finset.card_insert_of_notMem (mt Finset.mem_of_mem_erase ht')]
  exact h.trans (by omega)

omit [DecidableEq U] in
theorem served_empty {pool : ThreadPool F} (h : pool.pushed.length ≤ pool.popped) :
  Served pool (∅ : Finset (Thread nThreads U))
  := h

/-! ### Steps -/

/-- While a thread of the pool sleeps, each function has somebody. -/
theorem Awake.keepsSleeps (h : Awake s)
    (hstep : WakeStep s.shared (s.point t) o)
    (hwaiting : Monitor.notifyAll pick o.notes s.waiting = some waiting)
    (hsleeps : (((monitor F).after s t o waiting).waiting .cv).Nonempty) :
  ∃ A, (∀ t' ∈ A, Due ((monitor F).after s t o waiting) t') ∧ Served o.shared A
  := by
  have hmono := Monitor.notifyAll_subset hwaiting (c := .cv)
  have hbefore : o.point.waitsFor = none → (s.waiting .cv).Nonempty := by
    intro hwaits
    rw [waiting_after hwaits] at hsleeps
    exact hsleeps.mono hmono
  cases hstep with
  | quiet hpushed hpopped hnotes hwaits hdue =>
      obtain ⟨A, hA, hserved⟩ := h.sleeps (hbefore hwaits)
      use A
      constructor
      · intro t' ht'
        rcases eq_or_ne t' t with rfl | hne
        · obtain ⟨hp, hnot⟩ := hA t' ht'
          apply due_after (hdue hp) hwaits (mt (@hmono t') hnot)
        · apply (hA t' ht').of_ne hwaiting hne
      · apply hserved.mono hpushed (Nat.add_le_add_right hpopped _)
  | pop hpushed hpopped hnotes hwaits =>
      obtain ⟨A, hA, hserved⟩ := h.sleeps (hbefore hwaits)
      use A.erase t
      constructor
      · intro t' ht'
        obtain ⟨hne, ht'⟩ := Finset.mem_erase.mp ht'
        apply (hA t' ht').of_ne hwaiting hne
      · apply hserved.pop hpushed hpopped
  | empty hshared hempty =>
      use ∅, fun t' ht' => absurd ht' (Finset.notMem_empty t')
      rw [hshared]
      apply served_empty hempty
  | sleep hpushed hpopped hnotes hp hpoint =>
      obtain ⟨A, hA, hserved⟩ := h.reads t (by rw [hp]; trivial)
      use A
      constructor
      · intro t' ht'
        obtain ⟨k, hk⟩ := hA t' ht'
        have hne : t' ≠ t := by
          rintro rfl
          rw [hp] at hk
          cases hk
        have hdue : Due s t' := by
          constructor
          · rw [hk]
            trivial
          · intro hmem
            obtain ⟨i, hi⟩ := h.waits t' hmem
            rw [hk] at hi
            cases hi
        apply hdue.of_ne hwaiting hne
      · apply hserved.mono hpushed (by rw [hpopped])
  | push hpushed hpopped hnotes hp hpoint =>
      have hwaits : o.point.waitsFor = none := by
        rw [hpoint]
        rfl
      obtain ⟨A, hA, hserved⟩ := h.sleeps (hbefore hwaits)
      have ht : t ∉ A := by
        intro ht
        obtain ⟨hdue, -⟩ := hA t ht
        rw [hp] at hdue
        exact hdue
      use insert t A
      constructor
      · intro t' ht'
        rcases Finset.mem_insert.mp ht' with rfl | hmem
        · apply due_after _ hwaits
          · intro hmem
            obtain ⟨i, hi⟩ := h.waits t' (hmono hmem)
            rw [hp] at hi
            cases hi
          · rw [hpoint]
            trivial
        · apply (hA t' hmem).of_ne hwaiting
          rintro rfl
          apply ht hmem
      · apply hserved.push hpushed hpopped ht
  | signal hshared hlocked hnotes hp hpoint =>
      have hwaits : o.point.waitsFor = none := by
        rw [hpoint]
        rfl
      have hnonempty := hbefore hwaits
      obtain ⟨A, hA, hserved⟩ := h.sleeps hnonempty
      have hnotify := hwaiting
      rw [hnotes] at hnotify
      obtain ⟨between, hnote, hnil⟩ := Option.bind_eq_some_iff.mp hnotify
      obtain rfl := Option.some.inj hnil
      rcases Monitor.notify_signal_cases hnote with ⟨hempty, -⟩ | ⟨t₁, ht₁, heq⟩
      · rw [hempty] at hnonempty
        exact absurd hnonempty Finset.not_nonempty_empty
      · obtain ⟨i, hi⟩ := h.waits t₁ ht₁
        have hne : t₁ ≠ t := by
          rintro rfl
          rw [hp] at hi
          cases hi
        have hnot : t₁ ∉ A := fun hmem => (hA t₁ hmem).2 ht₁
        use insert t₁ (A.erase t)
        constructor
        · intro t' ht'
          rcases Finset.mem_insert.mp ht' with rfl | ht'
          · constructor
            · rw [point_after_of_ne hne, hi]
              trivial
            · rw [waiting_after hwaits, heq, Function.update_self]
              apply Finset.notMem_erase
          · obtain ⟨hne', ht'⟩ := Finset.mem_erase.mp ht'
            apply (hA t' ht').of_ne hwaiting hne'
        · rw [hshared]
          apply hserved.exchange hnot
  | broadcast hshared hlocked hnotes hp hpoint =>
      have hempty : waiting .cv = ∅ := by
        apply Monitor.notifyAll_broadcast hwaiting
        rw [hnotes]
        apply List.mem_singleton_self
      rw [waiting_after (by rw [hpoint]; rfl), hempty] at hsleeps
      exact absurd hsleeps Finset.not_nonempty_empty

/-- Who has found the queue empty keeps the others from notifying. -/
theorem Awake.keepsReads (h : Awake s) (hstep : WakeStep s.shared (s.point t) o)
    (hreads : (((monitor F).after s t o waiting).point t').Reads) :
  ∃ A, (∀ t' ∈ A, ∃ k, ((monitor F).after s t o waiting).point t' = .notify k) ∧
    Served o.shared A
  := by
  have hbefore : (o.point.Reads → (s.point t).Reads) → ∃ t', (s.point t').Reads := by
    intro hself
    rcases eq_or_ne t' t with rfl | hne
    · rw [Monitor.point_after] at hreads
      exact ⟨t', hself hreads⟩
    · rw [point_after_of_ne hne] at hreads
      exact ⟨t', hreads⟩
  have hother : ∀ {A : Finset (Thread nThreads U)}, (∀ t' ∈ A, ∃ k, s.point t' = .notify k) →
      (∀ k, s.point t ≠ .notify k) →
      ∀ t' ∈ A, ∃ k, ((monitor F).after s t o waiting).point t' = .notify k := by
    intro A hA hp t' ht'
    obtain ⟨k, hk⟩ := hA t' ht'
    use k
    rw [point_after_of_ne]
    · exact hk
    · rintro rfl
      apply hp k hk
  cases hstep with
  | quiet hpushed hpopped _ _ _ hself hp =>
      obtain ⟨t₁, ht₁⟩ := hbefore hself
      obtain ⟨A, hA, hserved⟩ := h.reads t₁ ht₁
      use A, hother hA hp
      apply hserved.mono hpushed (Nat.add_le_add_right hpopped _)
  | pop hpushed hpopped _ _ hnot hp =>
      obtain ⟨t₁, ht₁⟩ := hbefore (fun hself => absurd hself hnot)
      obtain ⟨A, hA, hserved⟩ := h.reads t₁ ht₁
      use A, hother hA hp
      apply hserved.mono hpushed
      rw [hpopped]
      apply Nat.add_le_add_right (Nat.le_succ _)
  | empty hshared hempty =>
      use ∅, fun t' ht' => absurd ht' (Finset.notMem_empty t')
      rw [hshared]
      apply served_empty hempty
  | sleep hpushed hpopped _ hp hpoint =>
      obtain ⟨A, hA, hserved⟩ := h.reads t (by rw [hp]; trivial)
      use A, hother hA (by rw [hp]; exact nofun)
      apply hserved.mono hpushed (by rw [hpopped])
  | @push k hpushed hpopped _ hp hpoint =>
      obtain ⟨t₁, ht₁⟩ := hbefore (by rw [hpoint]; exact False.elim)
      obtain ⟨A, hA, hserved⟩ := h.reads t₁ ht₁
      have ht : t ∉ A := by
        intro ht
        obtain ⟨k, hk⟩ := hA t ht
        rw [hp] at hk
        cases hk
      use insert t A
      constructor
      · intro t' ht'
        rcases Finset.mem_insert.mp ht' with rfl | ht'
        · use k
          rw [Monitor.point_after, hpoint]
        · apply hother hA (by rw [hp]; exact nofun) t' ht'
      · apply hserved.push hpushed hpopped ht
  | signal hshared hlocked _ hp hpoint =>
      obtain ⟨t₁, ht₁⟩ := hbefore (by rw [hpoint]; exact False.elim)
      have hlocks : (s.point t₁).Locks := by
        cases hp₁ : s.point t₁ <;> rw [hp₁] at ht₁
        case readDone => trivial
        case readFlag => trivial
        all_goals cases ht₁
      rw [(h.exclusive t₁ hlocks).1] at hlocked
      cases hlocked
  | broadcast hshared _ _ hp hpoint =>
      obtain ⟨t₁, ht₁⟩ := hbefore (by rw [hpoint]; exact False.elim)
      obtain ⟨A, hA, hserved⟩ := h.reads t₁ ht₁
      use A, hother hA (by rw [hp]; exact nofun)
      rw [hshared]
      exact hserved

/-- A thread that goes to sleep is the only one that is added to those who do. -/
theorem mem_waiting_after (hwaiting : Monitor.notifyAll pick o.notes s.waiting = some waiting)
    (hmem : t' ∈ ((monitor F).after s t o waiting).waiting .cv) :
  t' ∈ s.waiting .cv ∨ (t' = t ∧ ∃ i, o.point = .waits i)
  := by
  rcases Monitor.mem_suspend.mp hmem with hmem | ⟨rfl, hwaits⟩
  · exact Or.inl (Monitor.notifyAll_subset hwaiting hmem)
  · exact Or.inr ⟨rfl, Point.waitsFor_eq_some hwaits⟩

/-- The notification wakes all who sleep, and nobody is about to sleep then. -/
theorem Awake.broadcast (h : Awake s) (ho : Enters s.shared (s.point t) o)
    (hp : s.point t = .notifyAll)
    (hwaiting : Monitor.notifyAll pick o.notes s.waiting = some waiting) :
  ((monitor F).after s t o waiting).waiting .cv = ∅ ∧
    ∀ t' i, ((monitor F).after s t o waiting).point t' ≠ .readFlag i
  := by
  rw [hp] at ho
  cases ho with
  | notifyAll hlocked =>
      constructor
      · rw [waiting_after rfl]
        apply Monitor.notifyAll_broadcast hwaiting (List.mem_singleton_self _)
      · intro t' i hi
        rcases eq_or_ne t' t with rfl | hne
        · rw [Monitor.point_after] at hi
          cases hi
        · rw [point_after_of_ne hne] at hi
          have hlocks : (s.point t').Locks := by
            rw [hi]
            trivial
          rw [(h.exclusive t' hlocks).1] at hlocked
          cases hlocked

/-- The controller is where it was, or it is the one that moves. -/
theorem controller_after (s : State nThreads U F) (t : Thread nThreads U) (o : Result F)
    (waiting : Cond → Finset (Thread nThreads U)) :
  (t = .controller ∧ ((monitor F).after s t o waiting).point .controller = o.point) ∨
    (t ≠ .controller ∧
      ((monitor F).after s t o waiting).point .controller = s.point .controller)
  := by
  rcases eq_or_ne t .controller with rfl | hne
  · exact Or.inl ⟨rfl, Monitor.point_after ..⟩
  · exact Or.inr ⟨hne, point_after_of_ne hne.symm⟩

omit [DecidableEq U] in
theorem Awake.controller (h : Awake s) (hrole : (s.point t).role = .controller) :
  t = .controller
  := Thread.eq_controller ((h.role t).symm.trans hrole)

theorem Awake.keepsDone (h : Awake s) (ho : Enters s.shared (s.point t) o)
    (hwaiting : Monitor.notifyAll pick o.notes s.waiting = some waiting)
    (hdone : o.shared.isDone = true) :
  ((monitor F).after s t o waiting).point .controller = .notifyAll ∨
    (((monitor F).after s t o waiting).waiting .cv = ∅ ∧
      ∀ t' i, ((monitor F).after s t o waiting).point t' ≠ .readFlag i)
  := by
  obtain ⟨-, hisDone, -⟩ := ho.notifying
  by_cases hp : s.point t = .notifyAll
  · exact Or.inr (h.broadcast ho hp hwaiting)
  rcases hisDone with hsame | hpoint
  · rcases h.done (hsame ▸ hdone) with hbefore | ⟨hempty, hnot⟩
    · left
      rcases controller_after s t o waiting with ⟨rfl, -⟩ | ⟨-, hafter⟩
      · exact absurd hbefore hp
      · rw [hafter, hbefore]
    · right
      constructor
      · apply Finset.eq_empty_of_forall_notMem
        intro t' hmem
        rcases mem_waiting_after hwaiting hmem with hmem | ⟨rfl, i, hi⟩
        · rw [hempty] at hmem
          exact absurd hmem (Finset.notMem_empty t')
        · apply hnot t' i (ho.waits_cases hi).1
      · intro t' i hi
        rcases eq_or_ne t' t with rfl | hne
        · rw [Monitor.point_after] at hi
          rw [ho.readFlag_cases hi] at hdone
          cases hdone
        · rw [point_after_of_ne hne] at hi
          apply hnot t' i hi
  · left
    have hrole := ho.role
    rw [hpoint] at hrole
    obtain rfl := h.controller hrole.symm
    exact (Monitor.point_after s _ o waiting).trans hpoint

theorem Awake.keepsFlag (h : Awake s) (ho : Enters s.shared (s.point t) o)
    (hwaiting : Monitor.notifyAll pick o.notes s.waiting = some waiting) {i : Fin nThreads}
    (hflag : o.shared.flags i = true) :
  (((monitor F).after s t o waiting).point .controller).Notifying ∨
    .worker i ∉ ((monitor F).after s t o waiting).waiting .cv
  := by
  obtain ⟨hgives, -, hnotifies⟩ := ho.notifying
  by_cases hp : s.point t = .notifyAll
  · right
    rw [(h.broadcast ho hp hwaiting).1]
    apply Finset.notMem_empty
  have hcontroller : (s.point .controller).Notifying →
      (((monitor F).after s t o waiting).point .controller).Notifying := by
    intro hnotifying
    rcases controller_after s t o waiting with ⟨rfl, hafter⟩ | ⟨-, hafter⟩
    · rw [hafter]
      rcases hnotifies hnotifying with hpoint | hpoint
      · exact hpoint
      · exact absurd hpoint hp
    · rw [hafter]
      exact hnotifying
  rcases hgives with ⟨hsame, -⟩ | hpoint
  · rcases h.flag i (hsame ▸ hflag) with hnotifying | hnot
    · exact Or.inl (hcontroller hnotifying)
    · right
      intro hmem
      rcases mem_waiting_after hwaiting hmem with hmem | ⟨rfl, j, hj⟩
      · apply hnot hmem
      · have hrole := ho.role
        rw [hj, h.role] at hrole
        obtain rfl := Role.worker.inj hrole
        obtain ⟨-, hfalse, -⟩ := ho.waits_cases hj
        rw [hflag] at hfalse
        cases hfalse
  · left
    have hrole := ho.role
    have hcontrols : o.point.role = .controller := by
      cases hq : o.point <;> rw [hq] at hpoint
      case setFlags => rfl
      case clear => rfl
      case notifyAll => rfl
      all_goals cases hpoint
    obtain rfl := h.controller (hrole.symm.trans hcontrols)
    rw [Monitor.point_after s]
    exact hpoint

/-- What a thread that enters preserves. -/
theorem Awake.section (h : Awake s) (hfree : (monitor F).Free s t)
    (ho : Enters s.shared (s.point t) o)
    (hwaiting : Monitor.notifyAll pick o.notes s.waiting = some waiting) :
  Awake ((monitor F).after s t o waiting)
  := by
  constructor
  case role =>
    intro t'
    rcases eq_or_ne t' t with rfl | hne
    · rw [Monitor.point_after, ho.role, h.role]
    · rw [point_after_of_ne hne, h.role]
  case exclusive => exact h.exclusive.section ho
  case waits =>
    intro t' ht'
    rcases eq_or_ne t' t with rfl | hne
    · rw [Monitor.point_after]
      rcases Monitor.mem_suspend.mp ht' with hmem | ⟨-, hwaits⟩
      · have hbefore := Monitor.notifyAll_subset hwaiting hmem
        obtain ⟨i, hi⟩ := h.waits t' hbefore
        have hcv : .cv ∈ (s.point t').waitsFor := by
          rw [hi]
          rfl
        exact absurd hbefore (hfree .cv hcv)
      · apply Point.waitsFor_eq_some hwaits
    · rw [point_after_of_ne hne]
      rcases mem_waiting_after hwaiting ht' with hmem | ⟨heq, -⟩
      · apply h.waits t' hmem
      · exact absurd heq hne
  case sleeps => exact h.keepsSleeps ho.wakeStep hwaiting
  case reads => exact fun t' => h.keepsReads ho.wakeStep
  case done => exact h.keepsDone ho hwaiting
  case flag => exact fun i => h.keepsFlag ho hwaiting

/-- A thread that is woken without a signal. -/
theorem Awake.wake (h : Awake s) (c : Cond) (t : Thread nThreads U) :
  Awake { s with waiting := Function.update s.waiting c ((s.waiting c).erase t) }
  := by
  have hsubset : Function.update s.waiting c ((s.waiting c).erase t) .cv ⊆ s.waiting .cv :=
    Monitor.wake_subset
  refine ⟨h.role, h.exclusive, fun t' ht' => h.waits t' (hsubset ht'), ?_, h.reads, ?_, ?_⟩
  · intro hsleeps
    obtain ⟨A, hA, hserved⟩ := h.sleeps (hsleeps.mono hsubset)
    exact ⟨A, fun t' ht' => ⟨(hA t' ht').1, mt (@hsubset t') (hA t' ht').2⟩, hserved⟩
  · intro hdone
    rcases h.done hdone with hcontroller | ⟨hempty, hnot⟩
    · exact Or.inl hcontroller
    · exact Or.inr ⟨Finset.subset_empty.mp (hempty ▸ hsubset), hnot⟩
  · intro i hflag
    rcases h.flag i hflag with hcontroller | hnot
    · exact Or.inl hcontroller
    · exact Or.inr (mt (@hsubset _) hnot)

theorem Awake.step {a : Monitor.Move (Thread nThreads U) Cond (Call F)} (h : Awake s)
    (hs' : ((monitor F).threads (Thread nThreads U)).step s a = some s') :
  Awake s'
  := by
  rcases Monitor.step_cases hs' with
    ⟨c, t, -, rfl⟩ | ⟨t, call, pick, o, waiting, -, hfree, ho, hwaiting, rfl⟩
  · apply h.wake
  · apply h.section hfree (enters_of_enter ho) hwaiting

theorem start_awake :
  Awake (start : State nThreads U F)
  := by
  constructor
  case role => exact start_functions.joined.role
  case exclusive =>
    intro t ht
    cases t <;> cases ht
  case waits => exact fun t ht => absurd ht (Finset.notMem_empty t)
  case sleeps => exact fun h => absurd h Finset.not_nonempty_empty
  case reads =>
    intro t ht
    cases t <;> cases ht
  case done => exact nofun
  case flag => exact nofun

/-! ### Every run -/

variable {moves : List (Monitor.Move (Thread nThreads U) Cond (Call F))}

theorem awake_of_final
    (hfinal : ((monitor F).threads (Thread nThreads U)).final start moves = some s) :
  Awake s
  := by
  apply Machine.final_of_invariant (Q := fun _ _ => True) Awake _ start_awake
    (Machine.along_of_forall (fun _ _ => trivial)) hfinal
  intro s a h _ s' hs'
  apply h.step hs'

/-- In every run, while a thread of the pool sleeps, each function in the queue has a thread of its
own on its way: a client that is about to notify, or a thread of the pool that is awake and about to
look into the queue.  If `isDone` or the flag of the thread that sleeps is set, the controller is
about to notify. -/
theorem never_stranded
    (hfinal : ((monitor F).threads (Thread nThreads U)).final start moves = some s)
    {i : Fin nThreads} (hsleeps : .worker i ∈ s.waiting .cv) :
  (∃ A : Finset (Thread nThreads U), (∀ t ∈ A, Due s t) ∧
      s.shared.pushed.length ≤ s.shared.popped + A.card) ∧
    (s.shared.isDone = true ∨ s.shared.flags i = true → (s.point .controller).Notifying)
  := by
  have h := awake_of_final hfinal
  use h.sleeps ⟨_, hsleeps⟩
  rintro (hdone | hflag)
  · rcases h.done hdone with hcontroller | ⟨hempty, -⟩
    · rw [hcontroller]
      trivial
    · rw [hempty] at hsleeps
      exact absurd hsleeps (Finset.notMem_empty _)
  · rcases h.flag i hflag with hcontroller | hnot
    · exact hcontroller
    · exact absurd hsleeps hnot

/-- A thread sleeps, a function is pushed, and `stop` is called before the client has notified. -/
theorem never_stranded_one :
  ∃ s, ((monitor ℕ).threads (Thread 1 Unit)).final start
      [.enter (.worker 0) (.push 0) (fun _ => none), .enter (.worker 0) (.push 0) (fun _ => none),
        .enter (.worker 0) (.push 0) (fun _ => none), .enter (.worker 0) (.push 0) (fun _ => none),
        .enter (.worker 0) (.push 0) (fun _ => none),
        .enter (.client ()) (.push 5) (fun _ => none),
        .enter .controller (.stop true) (fun _ => none)] = some s ∧
    .worker 0 ∈ s.waiting .cv ∧ s.shared.popped < s.shared.pushed.length ∧
    s.shared.isDone = true ∧
    (∃ A : Finset (Thread 1 Unit), (∀ t ∈ A, Due s t) ∧
      s.shared.pushed.length ≤ s.shared.popped + A.card) ∧
    (s.shared.isDone = true ∨ s.shared.flags 0 = true → (s.point .controller).Notifying)
  := by
  apply Machine.exists_final (by decide)
  intro s hs
  have hsleeps : .worker 0 ∈ s.waiting .cv := by
    revert s
    decide
  refine ⟨hsleeps, ?_, ?_, never_stranded hs hsleeps⟩
  · clear hsleeps
    revert s
    decide
  · clear hsleeps
    revert s
    decide

end

end Ctpl
