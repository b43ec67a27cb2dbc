import Mathlib.Logic.Basic

/-!
# Checked computations

A `Checked` computation makes an access that is undefined, fails with an error, or is done.
`Meets P E` says that it makes no undefined access, that `P` holds of what it is done with, and `E`
of the error it fails with; there is a rule for each way to build a computation.
-/

/-- A computation that may make an undefined access, or fail. -/
inductive Checked (ε α : Type*) where
  | undefined
  | failed (e : ε)
  | done (a : α)

namespace Checked

universe u v w

variable {ε : Type v} {ε' : Type w} {α β : Type u}

/-- One computation after the other. -/
def bind : Checked ε α → (α → Checked ε β) → Checked ε β
  | .undefined, _ => .undefined
  | .failed e, _ => .failed e
  | .done a, f => f a

instance : Monad (Checked ε) where
  pure := done
  bind := bind

/-- An access, which is undefined where there is nothing. -/
def access : Option α → Checked ε α
  | none => .undefined
  | some a => .done a

/-- What is done where a computation fails. -/
def onFail : Checked ε α → (ε → Checked ε' α) → Checked ε' α
  | .undefined, _ => .undefined
  | .failed e, g => g e
  | .done a, _ => .done a

/-- No undefined access, `P` of the result, `E` of the error. -/
inductive Meets (P : α → Prop) (E : ε → Prop) : Checked ε α → Prop
  | failed {e : ε} (h : E e) : Meets P E (.failed e)
  | done {a : α} (h : P a) : Meets P E (.done a)

section

variable {x : Checked ε α} {f : α → Checked ε β} {a : α} {b : β} {e : ε}
  {P P' : α → Prop} {Q : β → Prop} {E : ε → Prop} {E' : ε' → Prop}

/-! ### Equations -/

@[simp]
theorem done_bind :
  (done a : Checked ε α) >>= f = f a
  := rfl

@[simp]
theorem access_some :
  (access (some a) : Checked ε α) = done a
  := rfl

@[simp]
theorem done_onFail {g : ε → Checked ε' α} :
  (done a : Checked ε α).onFail g = done a
  := rfl

theorem bind_assoc {γ : Type u} {g : β → Checked ε γ} :
  x >>= f >>= g = x >>= fun a => f a >>= g
  := by
  cases x <;> rfl

theorem access_eq_done {o : Option α} :
  (access o : Checked ε α) = done a ↔ o = some a
  := by
  cases o with
  | none => exact iff_of_false nofun nofun
  | some a' =>
      constructor
      · rintro ⟨⟩
        rfl
      · rintro ⟨⟩
        rfl

/-! ### Rules -/

theorem meets_done (h : P a) :
  (done a : Checked ε α).Meets P E
  := .done h

theorem meets_failed (h : E e) :
  (failed e : Checked ε α).Meets P E
  := .failed h

theorem Meets.mono {E' : ε → Prop} (h : x.Meets P E) (hP : ∀ a, P a → P' a)
    (hE : ∀ e, E e → E' e) :
  x.Meets P' E'
  := by
  cases h with
  | failed h => exact .failed (hE _ h)
  | done h => exact .done (hP _ h)

theorem Meets.bind (h : x.Meets P E) (hf : ∀ a, P a → (f a).Meets Q E) :
  (x >>= f).Meets Q E
  := by
  cases h with
  | failed h => exact .failed h
  | done h => exact hf _ h

theorem Meets.onFail {g : ε → Checked ε' α} (h : x.Meets P E)
    (hg : ∀ e, E e → (g e).Meets P E') :
  (x.onFail g).Meets P E'
  := by
  cases h with
  | failed h => exact hg _ h
  | done h => exact .done h

theorem Meets.access {o : Option α} (h : ∃ a, o = some a ∧ P a) :
  (Checked.access o : Checked ε α).Meets P E
  := by
  obtain ⟨a, rfl, hP⟩ := h
  exact .done hP

theorem Meets.ite {c : Prop} [Decidable c] {y : Checked ε α} (hx : c → x.Meets P E)
    (hy : ¬ c → y.Meets P E) :
  (if c then x else y).Meets P E
  := by
  split
  · rename_i h
    exact hx h
  · rename_i h
    exact hy h

end

end Checked
