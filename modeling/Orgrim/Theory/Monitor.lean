import Mathlib.Data.Finset.Basic
import Orgrim.Theory.Machine

/-!
# Monitors

Threads that share a state under one mutex, with condition variables.  A `Monitor` says what a
thread does at each point of its program, from where it has got the mutex to where it gives it
up: a *section*.  A section may end with waiting on a condition, it may signal on conditions, and
it leaves events in a log.

Any number of threads enter in any order.  A thread that waits enters again when it has been
woken, by a signal or without one; whom a signal wakes is up to the run.  What every section
preserves holds in every state reached (`final_invariant`).
-/

/-- A signal wakes one of the threads that wait on a condition, a broadcast wakes them all. -/
inductive Note (C : Type*) where
  | signal (c : C)
  | broadcast (c : C)

/-- What a section does: where the thread is afterwards, the state, the signals and the events. -/
structure Outcome (P S C E : Type*) where
  point : P
  shared : S
  notes : List (Note C) := []
  events : List E := []

/-- At which points a thread waits, and what it does when it enters; `I` is what the thread gets
from outside. -/
structure Monitor (P S C I E : Type*) where
  waits : P → Option C
  enter : P → I → S → Option (Outcome P S C E)

namespace Monitor

/-- The state, where the threads are, those that wait and have not been woken, and what has
happened. -/
structure State (T P S C E : Type*) where
  shared : S
  point : T → P
  waiting : C → Finset T
  log : List (T × E)

/-- What happens next: a thread enters, or one is woken without a signal.  `pick` is whom a signal
wakes. -/
inductive Move (T C I : Type*) where
  | enter (t : T) (i : I) (pick : C → Option T)
  | wake (c : C) (t : T)

section

variable {T P S C I E : Type*} [DecidableEq T] [DecidableEq C]

/-- Before any thread has entered. -/
def start (s : S) (point : T → P) : State T P S C E where
  shared := s
  point := point
  waiting _ := ∅
  log := []

/-- The threads that still wait after a signal, which wakes one if there is one. -/
def notify (pick : C → Option T) (waiting : C → Finset T) : Note C → Option (C → Finset T)
  | .broadcast c => some (Function.update waiting c ∅)
  | .signal c =>
      match pick c with
      | some t =>
          if t ∈ waiting c then some (Function.update waiting c ((waiting c).erase t)) else none
      | none => if waiting c = ∅ then some waiting else none

/-- The threads that still wait after some signals. -/
def notifyAll (pick : C → Option T) : List (Note C) → (C → Finset T) → Option (C → Finset T)
  | [], waiting => some waiting
  | note :: notes, waiting => (notify pick waiting note).bind (notifyAll pick notes)

/-- A thread begins to wait. -/
def suspend (t : T) (waiting : C → Finset T) : Option C → C → Finset T
  | none => waiting
  | some c => Function.update waiting c (insert t (waiting c))

variable (M : Monitor P S C I E)

/-- A thread does not wait, or has been woken. -/
def Free (s : State T P S C E) (t : T) : Prop := ∀ c ∈ M.waits (s.point t), t ∉ s.waiting c

instance (s : State T P S C E) (t : T) : Decidable (M.Free s t) :=
  inferInstanceAs (Decidable (∀ c ∈ M.waits (s.point t), t ∉ s.waiting c))

/-- The state after a section of the thread `t`. -/
def after (s : State T P S C E) (t : T) (o : Outcome P S C E) (waiting : C → Finset T) :
    State T P S C E where
  shared := o.shared
  point := Function.update s.point t o.point
  waiting := suspend t waiting (M.waits o.point)
  log := s.log ++ o.events.map (fun e => (t, e))

/-- The threads that share a monitor. -/
def threads (T : Type*) [DecidableEq T] : Machine (State T P S C E) (Move T C I) where
  step s
    | .enter t i pick =>
        if M.Free s t then
          (M.enter (s.point t) i s.shared).bind (fun o =>
            (notifyAll pick o.notes s.waiting).map (M.after s t o))
        else none
    | .wake c t => some { s with waiting := Function.update s.waiting c ((s.waiting c).erase t) }

variable {M}

/-! ### Waiting -/

section

variable {pick : C → Option T} {waiting waiting' : C → Finset T} {note : Note C}
  {notes : List (Note C)} {c c' : C} {t : T}

/-- A signal adds nobody to those who wait. -/
theorem notify_subset (h : notify pick waiting note = some waiting') :
  waiting' c ⊆ waiting c
  := by
  cases note with
  | broadcast d =>
      obtain rfl := Option.some.inj h
      rcases eq_or_ne c d with rfl | hne
      · rw [Function.update_self]
        apply Finset.empty_subset _
      · rw [Function.update_of_ne hne]
  | signal d =>
      cases hpick : pick d with
      | none =>
          simp only [notify, hpick, Option.ite_none_right_eq_some] at h
          obtain ⟨-, ⟨⟩⟩ := h
          apply Finset.Subset.refl _
      | some t =>
          simp only [notify, hpick, Option.ite_none_right_eq_some] at h
          obtain ⟨-, ⟨⟩⟩ := h
          rcases eq_or_ne c d with rfl | hne
          · rw [Function.update_self]
            apply Finset.erase_subset _ _
          · rw [Function.update_of_ne hne]

/-- A signal on one condition wakes nobody who waits on another one. -/
theorem notify_signal_of_ne (h : notify pick waiting (.signal c') = some waiting')
    (hne : c ≠ c') :
  waiting' c = waiting c
  := by
  cases hpick : pick c' with
  | none =>
      simp only [notify, hpick, Option.ite_none_right_eq_some] at h
      obtain ⟨-, ⟨⟩⟩ := h
      rfl
  | some t =>
      simp only [notify, hpick, Option.ite_none_right_eq_some] at h
      obtain ⟨-, ⟨⟩⟩ := h
      apply Function.update_of_ne hne ..

/-- A signal wakes one of those who wait, if there is one. -/
theorem notify_signal_cases (h : notify pick waiting (.signal c) = some waiting') :
  (waiting c = ∅ ∧ waiting' = waiting) ∨
    ∃ t ∈ waiting c, waiting' = Function.update waiting c ((waiting c).erase t)
  := by
  cases hpick : pick c with
  | none =>
      simp only [notify, hpick, Option.ite_none_right_eq_some] at h
      obtain ⟨hempty, ⟨⟩⟩ := h
      exact Or.inl ⟨hempty, rfl⟩
  | some t =>
      simp only [notify, hpick, Option.ite_none_right_eq_some] at h
      obtain ⟨ht, ⟨⟩⟩ := h
      exact Or.inr ⟨t, ht, rfl⟩

/-- A signal wakes the only one who waits. -/
theorem notify_signal_single (h : notify pick waiting (.signal c) = some waiting')
    (hsingle : ∀ t ∈ waiting c, ∀ t' ∈ waiting c, t = t') :
  waiting' c = ∅
  := by
  rcases notify_signal_cases h with ⟨hempty, rfl⟩ | ⟨t, ht, rfl⟩
  · exact hempty
  · rw [Function.update_self]
    apply Finset.eq_empty_of_forall_notMem
    intro t' ht'
    obtain ⟨hne, ht'⟩ := Finset.mem_erase.mp ht'
    apply hne (hsingle t' ht' t ht)

theorem notifyAll_subset (h : notifyAll pick notes waiting = some waiting') :
  waiting' c ⊆ waiting c
  := by
  induction notes generalizing waiting with
  | nil =>
      obtain rfl := Option.some.inj h
      apply Finset.Subset.refl _
  | cons note notes ih =>
      obtain ⟨between, hnote, h⟩ := Option.bind_eq_some_iff.mp h
      exact (ih h).trans (notify_subset hnote)

/-- A broadcast wakes all who wait. -/
theorem notifyAll_broadcast (h : notifyAll pick notes waiting = some waiting')
    (hc : .broadcast c ∈ notes) :
  waiting' c = ∅
  := by
  induction notes generalizing waiting with
  | nil => exact absurd hc List.not_mem_nil
  | cons note notes ih =>
      obtain ⟨between, hnote, h⟩ := Option.bind_eq_some_iff.mp h
      rcases List.mem_cons.mp hc with rfl | hc
      · obtain rfl := Option.some.inj hnote
        apply Finset.subset_empty.mp
        have hsubset := notifyAll_subset h (c := c)
        rw [Function.update_self] at hsubset
        exact hsubset
      · apply ih h hc

/-- A thread that is woken without a signal leaves the others waiting. -/
theorem wake_subset :
  Function.update waiting c ((waiting c).erase t) c' ⊆ waiting c'
  := by
  rcases eq_or_ne c' c with rfl | hne
  · rw [Function.update_self]
    apply Finset.erase_subset _ _
  · rw [Function.update_of_ne hne]

/-- Who waits when a thread has begun to. -/
theorem mem_suspend {w : Option C} :
  t ∈ suspend t' waiting w c ↔ t ∈ waiting c ∨ (t = t' ∧ w = some c)
  := by
  cases w with
  | none => simp only [suspend, reduceCtorEq, and_false, or_false]
  | some d =>
      rcases eq_or_ne c d with rfl | hne
      · simp only [suspend, Function.update_self, Finset.mem_insert, and_true]
        apply or_comm
      · simp only [suspend, Function.update_of_ne hne, Option.some.injEq, hne.symm, and_false,
          or_false]

theorem suspend_of_ne {w : Option C} (hne : w ≠ some c) :
  suspend t waiting w c = waiting c
  := by
  cases w with
  | none => rfl
  | some d =>
      apply Function.update_of_ne
      rintro rfl
      apply hne rfl

end

/-! ### Moves -/

/-- What a move does. -/
theorem step_cases {s s' : State T P S C E} {a : Move T C I}
    (h : (M.threads T).step s a = some s') :
  (∃ c t, a = .wake c t ∧
      s' = { s with waiting := Function.update s.waiting c ((s.waiting c).erase t) }) ∨
    ∃ t i pick o waiting, a = .enter t i pick ∧ M.Free s t ∧
      M.enter (s.point t) i s.shared = some o ∧
      notifyAll pick o.notes s.waiting = some waiting ∧ s' = M.after s t o waiting
  := by
  cases a with
  | wake c t =>
      left
      exact ⟨c, t, rfl, (Option.some.inj h).symm⟩
  | enter t i pick =>
      right
      obtain ⟨hfree, h⟩ := Option.ite_none_right_eq_some.mp h
      obtain ⟨o, ho, h⟩ := Option.bind_eq_some_iff.mp h
      obtain ⟨waiting, hwaiting, rfl⟩ := Option.map_eq_some_iff.mp h
      exact ⟨t, i, pick, o, waiting, rfl, hfree, ho, hwaiting, rfl⟩

/-- Where a thread is after a section of its own. -/
@[simp]
theorem point_after (s : State T P S C E) (t : T) (o : Outcome P S C E)
    (waiting : C → Finset T) :
  (M.after s t o waiting).point t = o.point
  := by
  simp only [after, Function.update_self]

/-- A thread that is free enters. -/
theorem step_enter {s : State T P S C E} {t : T} {i : I} {pick : C → Option T}
    {o : Outcome P S C E} {waiting : C → Finset T} (hfree : M.Free s t)
    (ho : M.enter (s.point t) i s.shared = some o)
    (hwaiting : notifyAll pick o.notes s.waiting = some waiting) :
  (M.threads T).step s (.enter t i pick) = some (M.after s t o waiting)
  := by
  simp only [threads, if_pos hfree, ho, Option.bind_some, hwaiting, Option.map_some]

/-- What holds of the state, the points and the log at the start, and is preserved by every
section, holds in every state reached. -/
theorem final_invariant (I : S → (T → P) → List (T × E) → Prop) {s s' : State T P S C E}
    {moves : List (Move T C _)}
    (hstep : ∀ σ point log t i o, I σ point log → M.enter (point t) i σ = some o →
      I o.shared (Function.update point t o.point) (log ++ o.events.map (fun e => (t, e))))
    (hs : I s.shared s.point s.log) (hfinal : (M.threads T).final s moves = some s') :
  I s'.shared s'.point s'.log
  := by
  apply Machine.final_of_invariant (Q := fun _ _ => True) (fun s => I s.shared s.point s.log) _ hs
    (Machine.along_of_forall (fun _ _ => trivial)) hfinal
  intro s a hI _ s' hs'
  rcases step_cases hs' with ⟨c, t, -, rfl⟩ | ⟨t, i, pick, o, waiting, -, -, ho, -, rfl⟩
  · exact hI
  · apply hstep s.shared s.point s.log t i o hI ho

end

end Monitor
