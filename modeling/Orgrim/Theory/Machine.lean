import Mathlib.Data.Int.Notation
import Mathlib.Data.List.Basic

/-!
# Machines

A `Machine` moves by actions, some of which are not enabled in some states.  A run is a list
of actions; `Along P` says that `P` holds at every action of a run, and `final` is the state
it leads to if all its actions were enabled.  Properties of runs follow from invariants
(`along_of_invariant`, `final_of_invariant`).
-/

/-- A machine: where an action leads, if it is enabled. -/
structure Machine (σ α : Type*) where
  step : σ → α → Option σ

namespace Machine

variable {σ α ρ : Type*} (M : Machine σ α)

/-- The state after a list of actions, if all of them were enabled. -/
def final : σ → List α → Option σ
  | s, [] => some s
  | s, a :: as => (M.step s a).bind (fun s' => final s' as)

/-- `P` holds at every action of a run, as far as its actions are enabled. -/
def Along (P : σ → α → Prop) : σ → List α → Prop
  | _, [] => True
  | s, a :: as => P s a ∧ ∀ s' ∈ M.step s a, Along P s' as

instance decidableAlong (P : σ → α → Prop) [∀ s a, Decidable (P s a)] :
    ∀ (s : σ) (as : List α), Decidable (M.Along P s as)
  | _, [] => .isTrue trivial
  | s, a :: as => @instDecidableAnd _ _ _
      (@Option.decidableForallMem _ _ (fun s' => decidableAlong P s' as) (M.step s a))

/-- `P` holds in every state of a run, the first one included, as far as its actions are
enabled. -/
def Throughout (P : σ → Prop) : σ → List α → Prop
  | s, [] => P s
  | s, a :: as => P s ∧ ∀ s' ∈ M.step s a, Throughout P s' as

instance decidableThroughout (P : σ → Prop) [DecidablePred P] :
    ∀ (s : σ) (as : List α), Decidable (M.Throughout P s as)
  | s, [] => inferInstanceAs (Decidable (P s))
  | s, a :: as => @instDecidableAnd _ _ _
      (@Option.decidableForallMem _ _ (fun s' => decidableThroughout P s' as) (M.step s a))

variable {M}

theorem final_cons {s s' : σ} {a : α} {as : List α} (h : M.final s (a :: as) = some s') :
  ∃ s₁, M.step s a = some s₁ ∧ M.final s₁ as = some s'
  := Option.bind_eq_some_iff.mp h

/-- An invariant that every action preserves where `Q` holds, and that gives `P` there,
gives `P` along every run along which `Q` holds. -/
theorem along_of_invariant {P Q : σ → α → Prop} (I : σ → Prop)
    (hstep : ∀ s a, I s → Q s a → P s a ∧ ∀ s' ∈ M.step s a, I s') :
  ∀ {s : σ} {as : List α}, I s → M.Along Q s as → M.Along P s as
  | _, [], _, _ => trivial
  | _, a :: _, hI, hQ => by
      obtain ⟨hP, hI'⟩ := hstep _ a hI hQ.1
      constructor
      · exact hP
      · intro s' hs'
        apply along_of_invariant I hstep (hI' s' hs') (hQ.2 s' hs')

theorem along_of_forall {P : σ → α → Prop} (h : ∀ s a, P s a) :
    ∀ {s : σ} {as : List α}, M.Along P s as
  | _, [] => trivial
  | _, _ :: _ => ⟨h _ _, fun _ _ => along_of_forall h⟩

/-- Such an invariant holds in the state a run leads to. -/
theorem final_of_invariant {Q : σ → α → Prop} (I : σ → Prop)
    (hstep : ∀ s a, I s → Q s a → ∀ s' ∈ M.step s a, I s') :
  ∀ {s s' : σ} {as : List α}, I s → M.Along Q s as → M.final s as = some s' → I s'
  | _, _, [], hI, _, hfinal => by
      obtain rfl := Option.some.inj hfinal
      exact hI
  | _, _, a :: _, hI, hQ, hfinal => by
      obtain ⟨s₁, hs₁, hfinal⟩ := final_cons hfinal
      apply final_of_invariant I hstep (hstep _ a hI hQ.1 s₁ hs₁) (hQ.2 s₁ hs₁) hfinal

/-- Where good states stay good under the actions for which `Q` holds and turn bad under the
others, and bad states stay bad, the state a run leads to tells whether `Q` holds along it. -/
theorem final_good_or_bad {Q : σ → α → Prop} (G D : σ → Prop)
    (hgood : ∀ s a, G s → Q s a → ∀ s' ∈ M.step s a, G s')
    (hcause : ∀ s a, G s → ¬ Q s a → ∀ s' ∈ M.step s a, D s')
    (hlast : ∀ s a, D s → ∀ s' ∈ M.step s a, D s') {s s' : σ} {as : List α} (hs : G s)
    (hfinal : M.final s as = some s') :
  (M.Along Q s as ∧ G s') ∨ (¬ M.Along Q s as ∧ D s')
  := by
  induction as generalizing s with
  | nil =>
      obtain rfl := Option.some.inj hfinal
      apply Or.inl ⟨trivial, hs⟩
  | cons a as ih =>
      obtain ⟨s₁, hs₁, hrest⟩ := final_cons hfinal
      by_cases ha : Q s a
      · have hiff : M.Along Q s (a :: as) ↔ M.Along Q s₁ as := by
          simp only [Along, hs₁, Option.mem_some_iff, forall_eq', ha, true_and]
        rw [hiff]
        apply ih (hgood s a hs ha s₁ hs₁) hrest
      · right
        use fun hall => ha hall.1
        apply final_of_invariant (Q := fun _ _ => True) D (fun s a hD _ => hlast s a hD)
          (hcause s a hs ha s₁ hs₁) (along_of_forall (fun _ _ => trivial)) hrest

/-- Where an invariant enables every action for which `Q` holds, and is preserved by it, a run
along which `Q` holds comes to its end. -/
theorem exists_final_of_invariant {Q : σ → α → Prop} (I : σ → Prop)
    (hstep : ∀ s a, I s → Q s a → ∃ s', M.step s a = some s' ∧ I s')
    {s : σ} {as : List α} (hI : I s) (hQ : M.Along Q s as) :
  ∃ s', M.final s as = some s' ∧ I s'
  := by
  induction as generalizing s with
  | nil => exact ⟨s, rfl, hI⟩
  | cons a as ih =>
      obtain ⟨s₁, hs₁, hI₁⟩ := hstep s a hI hQ.1
      obtain ⟨s', hfinal, hI'⟩ := ih hI₁ (hQ.2 s₁ hs₁)
      use s'
      rw [final, hs₁]
      exact ⟨hfinal, hI'⟩

/-- A property of states that, under an invariant, an action keeps exactly where `Q` holds,
holds throughout a run exactly when it holds at its start and `Q` holds along it. -/
theorem throughout_iff_along {P : σ → Prop} {Q : σ → α → Prop} (I : σ → Prop)
    (hiff : ∀ s a, I s → P s → ∀ s' ∈ M.step s a, (P s' ↔ Q s a))
    (hdisabled : ∀ s a, I s → P s → M.step s a = none → Q s a)
    (hstep : ∀ s a, I s → ∀ s' ∈ M.step s a, I s')
    {s : σ} {as : List α} (hI : I s) :
  M.Throughout P s as ↔ P s ∧ M.Along Q s as
  := by
  induction as generalizing s with
  | nil => exact (and_iff_left trivial).symm
  | cons a as ih =>
      simp only [Throughout, Along]
      constructor
      · rintro ⟨hP, hall⟩
        use hP
        cases hs : M.step s a with
        | none => exact ⟨hdisabled s a hI hP hs, fun _ h => absurd h (Option.not_mem_none _)⟩
        | some s' =>
            obtain ⟨hP', hrest⟩ := (ih (hstep s a hI s' hs)).mp (hall s' hs)
            use (hiff s a hI hP s' hs).mp hP'
            rintro _ ⟨⟩
            exact hrest
      · rintro ⟨hP, hQ, hall⟩
        use hP
        intro s' hs
        apply (ih (hstep s a hI s' hs)).mpr
        exact ⟨(hiff s a hI hP s' hs).mpr hQ, hall s' hs⟩

/-- A property that follows from an invariant which every action preserves where `Q` holds,
holds throughout every run along which `Q` holds. -/
theorem throughout_of_invariant {P : σ → Prop} {Q : σ → α → Prop} (I : σ → Prop)
    (hP : ∀ s, I s → P s) (hstep : ∀ s a, I s → Q s a → ∀ s' ∈ M.step s a, I s')
    {s : σ} {as : List α} (hI : I s) (hQ : M.Along Q s as) :
  M.Throughout P s as
  := by
  induction as generalizing s with
  | nil => apply hP s hI
  | cons a as ih =>
      use hP s hI
      intro s' hs'
      apply ih (hstep s a hI hQ.1 s' hs') (hQ.2 s' hs')

/-- Such a property holds throughout exactly the runs along which `Q` holds, if it fails after
every action for which `Q` does not hold. -/
theorem throughout_iff_of_invariant {P : σ → Prop} {Q R : σ → α → Prop} (I : σ → Prop)
    (hP : ∀ s, I s → P s) (hstep : ∀ s a, I s → R s a → Q s a → ∀ s' ∈ M.step s a, I s')
    (hfails : ∀ s a, I s → R s a → ¬ Q s a → ∃ s', M.step s a = some s' ∧ ¬ P s')
    {s : σ} {as : List α} (hI : I s) (hR : M.Along R s as) :
  M.Throughout P s as ↔ M.Along Q s as
  := by
  induction as generalizing s with
  | nil => apply iff_of_true (hP s hI) trivial
  | cons a as ih =>
      constructor
      · rintro ⟨-, hall⟩
        have hQ : Q s a := by
          by_contra hnot
          obtain ⟨s', hs', hP'⟩ := hfails s a hI hR.1 hnot
          apply hP'
          cases as with
          | nil => apply hall s' hs'
          | cons b as => exact (hall s' hs').1
        use hQ
        intro s' hs'
        exact (ih (hstep s a hI hR.1 hQ s' hs') (hR.2 s' hs')).mp (hall s' hs')
      · rintro ⟨hQ, hall⟩
        use hP s hI
        intro s' hs'
        exact (ih (hstep s a hI hR.1 hQ s' hs') (hR.2 s' hs')).mpr (hall s' hs')

/-- What holds in every state of a run holds where its actions begin. -/
theorem along_of_throughout {P : σ → Prop} {s : σ} {as : List α} (h : M.Throughout P s as) :
  M.Along (fun s _ => P s) s as
  := by
  induction as generalizing s with
  | nil => trivial
  | cons a as ih =>
      use h.1
      intro s' hs'
      apply ih (h.2 s' hs')

/-- What holds throughout a run holds in the state it leads to. -/
theorem final_of_throughout {P : σ → Prop} {s s' : σ} {as : List α} (h : M.Throughout P s as)
    (hfinal : M.final s as = some s') :
  P s'
  := by
  induction as generalizing s with
  | nil =>
      obtain rfl := Option.some.inj hfinal
      exact h
  | cons a as ih =>
      obtain ⟨s₁, hs₁, hfinal⟩ := final_cons hfinal
      apply ih (h.2 s₁ hs₁) hfinal

/-- A run that comes to its end, in a state where `P` holds. -/
theorem exists_final {P : σ → Prop} {s : σ} {as : List α} (hsome : (M.final s as).isSome)
    (hP : ∀ s' ∈ M.final s as, P s') :
  ∃ s', M.final s as = some s' ∧ P s'
  := by
  obtain ⟨s', hs'⟩ := Option.isSome_iff_exists.mp hsome
  exact ⟨s', hs', hP s' hs'⟩

theorem final_of_step {s s' : σ} {a : α} (h : M.step s a = some s') (as : List α) :
  M.final s (a :: as) = M.final s' as
  := by
  rw [final, h, Option.bind_some]

/-- A run that goes on where another one ended. -/
theorem final_append {s s' : σ} {as : List α} (h : M.final s as = some s') (bs : List α) :
  M.final s (as ++ bs) = M.final s' bs
  := by
  induction as generalizing s with
  | nil =>
      obtain rfl := Option.some.inj h
      rfl
  | cons a as ih =>
      obtain ⟨s₁, hs₁, hrest⟩ := final_cons h
      rw [List.cons_append, final_of_step hs₁, ih hrest]

/-- What holds along a run that goes on holds along its parts. -/
theorem along_append {P : σ → α → Prop} {s s' : σ} {as : List α} (h : M.final s as = some s')
    (bs : List α) :
  M.Along P s (as ++ bs) ↔ M.Along P s as ∧ M.Along P s' bs
  := by
  induction as generalizing s with
  | nil =>
      obtain rfl := Option.some.inj h
      exact (and_iff_right trivial).symm
  | cons a as ih =>
      obtain ⟨s₁, hs₁, hrest⟩ := final_cons h
      simp only [List.cons_append, Along, hs₁, Option.mem_some_iff, forall_eq', ih hrest, and_assoc]

variable (M) in
/-- The machine that keeps, next to its state, a record of what has happened. -/
def recording (record : σ → α → ρ → ρ) : Machine (σ × ρ) α where
  step x a := (M.step x.1 a).map (fun s' => (s', record x.1 a x.2))

end Machine
