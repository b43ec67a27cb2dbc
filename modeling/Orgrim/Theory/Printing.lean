import Mathlib.Algebra.BigOperators.Group.List.Basic
import Mathlib.Algebra.GroupWithZero.Nat

/-!
# Printing into limited space

A step of a program appends cells to those that its state holds.  `Prints Held size f n`: the step
`f` appends `n` cells if there are fewer than `size` cells afterwards, and has no result otherwise.
`Held s cells` says that the state `s` holds the cells.

Steps that follow each other append what they append together (`Prints.bind`, `Prints.foldlM`).
-/

variable {σ α β : Type*}

/-- The step appends `n` cells, and needs space for them. -/
structure Prints (Held : σ → List α → Prop) (size : ℕ) (f : σ → Option σ) (n : ℕ) : Prop where
  fits : ∀ {s cells}, Held s cells → cells.length + n < size →
    ∃ s' more, f s = some s' ∧ more.length = n ∧ Held s' (cells ++ more)
  overflows : ∀ {s cells}, Held s cells → size ≤ cells.length + n → f s = none

namespace Prints

variable {Held : σ → List α → Prop} {size n m : ℕ} {f g : σ → Option σ}

/-- A step in front that changes nothing that is held. -/
theorem comp (hf : Prints Held size f n) {h : σ → σ} (hh : ∀ s cells, Held s cells →
    Held (h s) cells) :
  Prints Held size (fun s => f (h s)) n
  := by
  constructor
  · intro s cells hheld
    apply hf.fits (hh s cells hheld)
  · intro s cells hheld
    apply hf.overflows (hh s cells hheld)

/-- A choice between steps that append equally many cells. -/
theorem ite {c : σ → Prop} [DecidablePred c] (hf : Prints Held size f n)
    (hg : Prints Held size g n) :
  Prints Held size (fun s => if c s then f s else g s) n
  := by
  constructor
  · intro s cells hheld hfits
    split
    · apply hf.fits hheld hfits
    · apply hg.fits hheld hfits
  · intro s cells hheld hover
    split
    · apply hf.overflows hheld hover
    · apply hg.overflows hheld hover

/-- One step after the other. -/
theorem bind (hf : Prints Held size f n) (hg : Prints Held size g m) :
  Prints Held size (fun s => (f s).bind g) (n + m)
  := by
  constructor
  · intro s cells hheld hfits
    obtain ⟨s₁, more, hs₁, hmore, hheld₁⟩ := hf.fits hheld (by omega)
    have hless : (cells ++ more).length + m < size := by
      rw [List.length_append]
      omega
    obtain ⟨s₂, more', hs₂, hmore', hheld₂⟩ := hg.fits hheld₁ hless
    refine ⟨s₂, more ++ more', ?_, ?_, ?_⟩
    · rw [hs₁, Option.bind_some, hs₂]
    · rw [List.length_append, hmore, hmore']
    · rwa [← List.append_assoc]
  · intro s cells hheld hover
    rcases Nat.lt_or_ge (cells.length + n) size with hfits | hfirst
    · obtain ⟨s₁, more, hs₁, hmore, hheld₁⟩ := hf.fits hheld hfits
      rw [hs₁, Option.bind_some]
      apply hg.overflows hheld₁
      rw [List.length_append]
      omega
    · rw [hf.overflows hheld hfirst, Option.bind_none]

/-- A loop appends what its iterations append. -/
theorem foldlM {f : σ → β → Option σ} {w : β → ℕ} (hsize : ∀ s cells, Held s cells →
    cells.length < size) {bs : List β} (hf : ∀ b ∈ bs, Prints Held size (fun s => f s b) (w b)) :
  Prints Held size (fun s => bs.foldlM f s) (bs.map w).sum
  := by
  induction bs with
  | nil =>
      constructor
      · intro s cells hheld _
        refine ⟨s, [], rfl, rfl, ?_⟩
        rwa [List.append_nil]
      · intro s cells hheld hover
        apply absurd (hsize s cells hheld) (Nat.not_lt.mpr hover)
  | cons b bs ih =>
      rw [List.map_cons, List.sum_cons]
      apply (hf b List.mem_cons_self).bind
      apply ih
      intro b' hb'
      apply hf b' (List.mem_cons_of_mem b hb')

end Prints
