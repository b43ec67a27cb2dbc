import Mathlib.Logic.Function.Basic
import Orgrim.Theory.Machine

/-!
# Threads and locks

A `LockProgram` says what a thread does at each point of a program: it acquires or releases a
lock, then computes on the shared state up to its next lock operation.  At an idle point the
thread waits to be given a call; at another point without a lock operation it has ended, with the
locks that it has.  The `threads` of such a program run in any order, any number of them.

Where the points say which locks are held (`Balanced`), they agree with the owners of the
locks in every state reached (`Owned`).  Two threads that each own a lock the other one wants
(`Crossed`) stay where they are for ever (`crossed_turn`).
-/

/-- What a thread does with a lock. -/
inductive LockOp (L : Type*) where
  | acquire (l : L)
  | release (l : L)
deriving DecidableEq

/-- A program of threads: where a call starts, where a thread can be given one, the lock operation
at each point, and what is computed after it. -/
structure LockProgram (L S C P : Type*) where
  entry : C → P
  idle : P → Bool
  op : P → Option (LockOp L)
  next : P → S → P × S
  op_of_idle : ∀ p, idle p = true → op p = none

/-- The threads: the shared state, where each of them is, and who owns each lock. -/
structure Threads (T L S P : Type*) where
  shared : S
  point : T → P
  owner : L → Option T

/-- What happens next: a thread is given a call, or does its lock operation. -/
inductive Turn (T C : Type*) where
  | call (t : T) (c : C)
  | run (t : T)

namespace LockProgram

variable {T L S C P : Type*} [DecidableEq T] [DecidableEq L] (prog : LockProgram L S C P)

/-- A thread goes on after its lock operation. -/
def proceed (s : Threads T L S P) (t : T) (owner : L → Option T) : Threads T L S P where
  shared := (prog.next (s.point t) s.shared).2
  point := Function.update s.point t (prog.next (s.point t) s.shared).1
  owner := owner

/-- A turn; a lock that is owned cannot be acquired. -/
def turn (s : Threads T L S P) : Turn T C → Option (Threads T L S P)
  | .call t c =>
      if prog.idle (s.point t) = true then
        some { s with point := Function.update s.point t (prog.entry c) }
      else none
  | .run t =>
      match prog.op (s.point t) with
      | none => none
      | some (.acquire l) =>
          if s.owner l = none then
            some (prog.proceed s t (Function.update s.owner l (some t)))
          else none
      | some (.release l) => some (prog.proceed s t (Function.update s.owner l none))

/-- The threads of a program. -/
def threads (T : Type*) [DecidableEq T] : Machine (Threads T L S P) (Turn T C) where
  step := prog.turn

/-- `t` owns `l` and wants `l'`, which `r` owns, who wants `l`. -/
structure Crossed (s : Threads T L S P) (t r : T) (l l' : L) : Prop where
  owns : s.owner l = some t
  wants : prog.op (s.point t) = some (.acquire l')
  owned : s.owner l' = some r
  wanted : prog.op (s.point r) = some (.acquire l)

/-- Which locks are held at each point agrees with the operations. -/
structure Balanced (holds : P → L → Prop) : Prop where
  idle : ∀ p l, prog.idle p = true → ¬ holds p l
  entry : ∀ c l, ¬ holds (prog.entry c) l
  acquire : ∀ p s l l', prog.op p = some (.acquire l) →
    (holds (prog.next p s).1 l' ↔ l' = l ∨ holds p l')
  release : ∀ p s l l', prog.op p = some (.release l) →
    (holds (prog.next p s).1 l' ↔ l' ≠ l ∧ holds p l')
  releases : ∀ p l, prog.op p = some (.release l) → holds p l

/-- The owner of a lock is who is at a point where it is held. -/
def Owned (holds : P → L → Prop) (s : Threads T L S P) : Prop :=
  ∀ t l, s.owner l = some t ↔ holds (s.point t) l

/-- A thread has a lock operation, and does not want a lock it holds. -/
def Runs (holds : P → L → Prop) (p : P) : Prop :=
  ∃ op, prog.op p = some op ∧ ∀ l, op = .acquire l → ¬ holds p l

/-- What a thread can do while the others hold no lock. -/
inductive Alone (holds : P → L → Prop) : P → S → P → S → Prop where
  | refl (p : P) (s : S) : Alone holds p s p s
  | step {p p' : P} {s s' : S} (runs : prog.Runs holds p)
      (rest : Alone holds (prog.next p s).1 (prog.next p s).2 p' s') : Alone holds p s p' s'

variable {prog}

/-! ### Turns -/

/-- What a turn does. -/
theorem turn_cases {s s' : Threads T L S P} {a : Turn T C} (h : s' ∈ prog.turn s a) :
  (∃ t c, a = .call t c ∧ prog.idle (s.point t) = true ∧
      s' = { s with point := Function.update s.point t (prog.entry c) }) ∨
    (∃ t l, a = .run t ∧ prog.op (s.point t) = some (.acquire l) ∧ s.owner l = none ∧
      s' = prog.proceed s t (Function.update s.owner l (some t))) ∨
    ∃ t l, a = .run t ∧ prog.op (s.point t) = some (.release l) ∧
      s' = prog.proceed s t (Function.update s.owner l none)
  := by
  cases a with
  | call t c =>
      left
      obtain ⟨hidle, h⟩ := Option.ite_none_right_eq_some.mp h
      obtain rfl := Option.some.inj h
      use t, c
  | run t =>
      right
      rw [turn] at h
      cases hop : prog.op (s.point t) with
      | none =>
          rw [hop] at h
          cases h
      | some op =>
          rw [hop] at h
          cases op with
          | acquire l =>
              left
              obtain ⟨hfree, h⟩ := Option.ite_none_right_eq_some.mp h
              obtain rfl := Option.some.inj h
              use t, l
          | release l =>
              right
              obtain rfl := Option.some.inj h
              use t, l

omit [DecidableEq L] in
@[simp]
theorem point_proceed_self (s : Threads T L S P) (t : T) (owner : L → Option T) :
  (prog.proceed s t owner).point t = (prog.next (s.point t) s.shared).1
  := Function.update_self ..

omit [DecidableEq L] in
theorem point_proceed_of_ne (s : Threads T L S P) {t r : T} (h : r ≠ t)
    (owner : L → Option T) :
  (prog.proceed s t owner).point r = s.point r
  := Function.update_of_ne h ..

/-! ### Owners -/

section

variable {holds : P → L → Prop} (hbalanced : prog.Balanced holds)

include hbalanced

omit [DecidableEq T] [DecidableEq L] in
theorem Owned.start {p : P} (hp : prog.idle p = true) (shared : S) :
  Owned (T := T) holds ⟨shared, fun _ => p, fun _ => none⟩
  := by
  intro t l
  apply iff_of_false
  · intro h
    cases h
  · apply hbalanced.idle p l hp

/-- The points agree with the owners in every state reached. -/
theorem Owned.turn {s s' : Threads T L S P} {a : Turn T C} (h : Owned holds s)
    (hturn : s' ∈ prog.turn s a) :
  Owned holds s'
  := by
  intro r l'
  rcases turn_cases hturn with ⟨t, c, rfl, hidle, rfl⟩ | ⟨t, l, rfl, hop, hfree, rfl⟩
    | ⟨t, l, rfl, hop, rfl⟩
  · by_cases hr : r = t
    · subst hr
      rw [h r l']
      simp only [Function.update_self]
      apply iff_of_false (hbalanced.idle _ l' hidle) (hbalanced.entry c l')
    · rw [h r l']
      simp only [Function.update_of_ne hr]
  · by_cases hr : r = t
    · subst hr
      rw [point_proceed_self, hbalanced.acquire _ s.shared l l' hop, ← h r l']
      simp only [proceed, Function.update_apply]
      split
      · rename_i heq
        simp [heq]
      · rename_i hne
        simp [hne]
    · rw [point_proceed_of_ne s hr, ← h r l']
      simp only [proceed, Function.update_apply]
      split
      · rename_i heq
        subst heq
        rw [hfree]
        apply iff_of_false
        · intro hself
          apply hr (Option.some.inj hself).symm
        · intro hnone
          cases hnone
      · rfl
  · have howner := (h t l).mpr (hbalanced.releases _ l hop)
    by_cases hr : r = t
    · subst hr
      rw [point_proceed_self, hbalanced.release _ s.shared l l' hop, ← h r l']
      simp only [proceed, Function.update_apply]
      split
      · rename_i heq
        simp [heq]
      · rename_i hne
        simp [hne]
    · rw [point_proceed_of_ne s hr, ← h r l']
      simp only [proceed, Function.update_apply]
      split
      · rename_i heq
        subst heq
        rw [howner]
        apply iff_of_false
        · intro hnone
          cases hnone
        · intro hself
          apply hr (Option.some.inj hself).symm
      · rfl

/-- A lock stays with its owner until the owner releases it. -/
theorem Owned.owner_turn {s s' : Threads T L S P} {a : Turn T C} {t : T} {l : L}
    (h : Owned holds s) (howner : s.owner l = some t)
    (hkeeps : prog.op (s.point t) ≠ some (.release l)) (hturn : s' ∈ prog.turn s a) :
  s'.owner l = some t
  := by
  rcases turn_cases hturn with ⟨r, c, rfl, -, rfl⟩ | ⟨r, l', rfl, hop, hfree, rfl⟩
    | ⟨r, l', rfl, hop, rfl⟩
  · exact howner
  · have hne : l ≠ l' := by
      rintro rfl
      rw [howner] at hfree
      cases hfree
    simp only [proceed, Function.update_of_ne hne, howner]
  · have hne : l ≠ l' := by
      rintro rfl
      have howner' := (h r l).mpr (hbalanced.releases _ l hop)
      obtain rfl := Option.some.inj (howner.symm.trans howner')
      exact hkeeps hop
    simp only [proceed, Function.update_of_ne hne, howner]

end

/-- A thread that wants a lock somebody owns stays where it is. -/
theorem point_turn {s s' : Threads T L S P} {a : Turn T C} {t : T} {l : L}
    (hwants : prog.op (s.point t) = some (.acquire l)) (howned : s.owner l ≠ none)
    (hturn : s' ∈ prog.turn s a) :
  s'.point t = s.point t
  := by
  rcases turn_cases hturn with ⟨r, c, rfl, hidle, rfl⟩ | ⟨r, l', rfl, hop, hfree, rfl⟩
    | ⟨r, l', rfl, hop, rfl⟩
  · have hne : t ≠ r := by
      rintro rfl
      rw [prog.op_of_idle _ hidle] at hwants
      cases hwants
    simp only [Function.update_of_ne hne]
  · have hne : t ≠ r := by
      rintro rfl
      rw [hwants] at hop
      cases hop
      exact howned hfree
    rw [point_proceed_of_ne s hne]
  · have hne : t ≠ r := by
      rintro rfl
      rw [hwants] at hop
      cases hop
    rw [point_proceed_of_ne s hne]

/-! ### Threads alone -/

section

variable {holds : P → L → Prop}

omit [DecidableEq L] in
theorem Alone.trans {p₁ p₂ p₃ : P} {s₁ s₂ s₃ : S}
    (h : prog.Alone holds p₁ s₁ p₂ s₂) (h' : prog.Alone holds p₂ s₂ p₃ s₃) :
  prog.Alone holds p₁ s₁ p₃ s₃
  := by
  induction h with
  | refl p s => exact h'
  | step runs rest ih => exact .step runs (ih h')

/-- While the others hold no lock, a thread can run. -/
theorem Owned.exists_turn {s : Threads T L S P} {t : T} (howned : Owned holds s)
    (hothers : ∀ r ≠ t, ∀ l, ¬ holds (s.point r) l) (hruns : prog.Runs holds (s.point t)) :
  ∃ owner, prog.turn s (.run t) = some (prog.proceed s t owner)
  := by
  obtain ⟨op, hop, hfree⟩ := hruns
  cases op with
  | acquire l =>
      have hnone : s.owner l = none := by
        cases howner : s.owner l with
        | none => rfl
        | some r =>
            have hholds := (howned r l).mp howner
            by_cases hr : r = t
            · subst hr
              exact absurd hholds (hfree l rfl)
            · exact absurd hholds (hothers r hr l)
      use Function.update s.owner l (some t)
      rw [LockProgram.turn, hop]
      simp only [if_pos hnone]
  | release l =>
      use Function.update s.owner l none
      rw [LockProgram.turn, hop]

/-- While the others hold no lock, a thread can do what it does alone. -/
theorem Alone.final (hbalanced : prog.Balanced holds) {t : T} {p p' : P} {sh sh' : S}
    (h : prog.Alone holds p sh p' sh') {s : Threads T L S P} (hpoint : s.point t = p)
    (hshared : s.shared = sh) (howned : Owned holds s)
    (hothers : ∀ r ≠ t, ∀ l, ¬ holds (s.point r) l) :
  ∃ turns s', (∀ a ∈ turns, a = Turn.run t) ∧
    (prog.threads T).final s turns = some s' ∧ s'.shared = sh' ∧
    s'.point = Function.update s.point t p' ∧ Owned holds s'
  := by
  induction h generalizing s with
  | refl p sh =>
      use [], s
      simp [Machine.final, ← hpoint, hshared, howned]
  | step runs rest ih =>
      subst hpoint hshared
      obtain ⟨owner, hturn⟩ := howned.exists_turn hothers runs
      have hstep : (prog.threads T).step s (.run t) = some (prog.proceed s t owner) := hturn
      have hothers' : ∀ r ≠ t, ∀ l, ¬ holds ((prog.proceed s t owner).point r) l := by
        intro r hr l
        rw [point_proceed_of_ne s hr]
        apply hothers r hr l
      obtain ⟨turns, s', hturns, hfinal, hshared, hpoint, howned'⟩ :=
        ih (point_proceed_self ..) rfl (howned.turn hbalanced hturn) hothers'
      use .run t :: turns, s'
      and_intros
      · intro a ha
        rcases List.mem_cons.mp ha with rfl | ha
        · rfl
        · apply hturns a ha
      · rw [Machine.final_of_step hstep, hfinal]
      · exact hshared
      · rw [hpoint, proceed, Function.update_idem]
      · exact howned'

end

/-! ### Deadlocks -/

/-- Two crossed threads stay so, whatever the others do. -/
theorem crossed_turn {holds : P → L → Prop} (hbalanced : prog.Balanced holds)
    {s s' : Threads T L S P} {a : Turn T C} {t r : T} {l l' : L} (howned : Owned holds s)
    (h : prog.Crossed s t r l l') (hturn : s' ∈ prog.turn s a) :
  prog.Crossed s' t r l l'
  := by
  have hpoint := point_turn h.wants (by rw [h.owned]; simp) hturn
  have hpoint' := point_turn h.wanted (by rw [h.owns]; simp) hturn
  constructor
  · apply howned.owner_turn hbalanced h.owns _ hturn
    rw [h.wants]
    simp
  · rw [hpoint, h.wants]
  · apply howned.owner_turn hbalanced h.owned _ hturn
    rw [h.wanted]
    simp
  · rw [hpoint', h.wanted]

end LockProgram
