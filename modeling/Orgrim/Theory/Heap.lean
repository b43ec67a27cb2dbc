import Mathlib.Data.Finset.Erase
import Mathlib.Data.Finset.Insert

/-!
# Heaps

A `Heap α γ` has cells with addresses in `α` and contents in `γ`, finitely many of which are
allocated.  The contents of a cell can be accessed while it is allocated.  `malloc` answers
with the address of a cell that is not allocated, or with none; `free` makes a cell
unallocated, and leaves its contents as they are.
-/

/-- A heap: the cells that are allocated, and the contents of all. -/
structure Heap (α γ : Type*) where
  live : Finset α
  cell : α → γ

namespace Heap

variable {α γ : Type*} [DecidableEq α]

/-- The contents of an allocated cell. -/
def load (h : Heap α γ) (a : α) : Option γ :=
  if a ∈ h.live then some (h.cell a) else none

/-- The heap `h` where the contents of the cell at `a` are `c`. -/
def put (h : Heap α γ) (a : α) (c : γ) : Heap α γ where
  live := h.live
  cell := Function.update h.cell a c

/-- Change the contents of an allocated cell. -/
def modify (h : Heap α γ) (a : α) (f : γ → γ) : Option (Heap α γ) :=
  if a ∈ h.live then some (h.put a (f (h.cell a))) else none

/-- The heap `h` where also `a` is allocated, and `f` has been applied to its contents. -/
def add (h : Heap α γ) (a : α) (f : γ → γ) : Heap α γ where
  live := insert a h.live
  cell := Function.update h.cell a (f (h.cell a))

/-- Allocate the cell that `answer` proposes, if it is not allocated, and apply `f` to its
contents. -/
def malloc (h : Heap α γ) (answer : Option α) (f : γ → γ) : Option α × Heap α γ :=
  match answer with
  | none => (none, h)
  | some a => if a ∈ h.live then (none, h) else (some a, h.add a f)

/-- The heap `h` where `a` is not allocated. -/
def remove (h : Heap α γ) (a : α) : Heap α γ where
  live := h.live.erase a
  cell := h.cell

/-- Make an allocated cell unallocated. -/
def free (h : Heap α γ) (a : α) : Option (Heap α γ) :=
  if a ∈ h.live then some (h.remove a) else none

variable {h h' : Heap α γ} {a b : α} {c : γ} {f : γ → γ}

/-! ### When the operations are defined -/

theorem load_eq_some :
  h.load a = some c ↔ a ∈ h.live ∧ h.cell a = c
  := by
  rw [load, Option.ite_none_right_eq_some, Option.some_inj]

theorem load_of_mem (ha : a ∈ h.live) :
  h.load a = some (h.cell a)
  := if_pos ha

theorem modify_eq_some :
  h.modify a f = some h' ↔ a ∈ h.live ∧ h' = h.put a (f (h.cell a))
  := by
  rw [modify, Option.ite_none_right_eq_some, Option.some_inj, eq_comm (b := h')]

theorem free_eq_some :
  h.free a = some h' ↔ a ∈ h.live ∧ h' = h.remove a
  := by
  rw [free, Option.ite_none_right_eq_some, Option.some_inj, eq_comm (b := h')]

theorem free_of_mem (ha : a ∈ h.live) :
  h.free a = some (h.remove a)
  := if_pos ha

/-- `malloc` fails and changes nothing, or allocates what was not allocated. -/
theorem malloc_cases (h : Heap α γ) (answer : Option α) (f : γ → γ) :
  h.malloc answer f = (none, h) ∨
    ∃ a, answer = some a ∧ a ∉ h.live ∧ h.malloc answer f = (some a, h.add a f)
  := by
  cases answer with
  | none => exact Or.inl rfl
  | some a =>
      by_cases ha : a ∈ h.live
      · left
        apply if_pos ha
      · right
        use a, rfl, ha
        apply if_neg ha

/-! ### What they leave behind -/

@[simp]
theorem live_put (h : Heap α γ) (a : α) (c : γ) :
  (h.put a c).live = h.live
  := rfl

@[simp]
theorem live_add (h : Heap α γ) (a : α) (f : γ → γ) :
  (h.add a f).live = insert a h.live
  := rfl

@[simp]
theorem live_remove (h : Heap α γ) (a : α) :
  (h.remove a).live = h.live.erase a
  := rfl

@[simp]
theorem cell_put_self (h : Heap α γ) (a : α) (c : γ) :
  (h.put a c).cell a = c
  := Function.update_self ..

theorem cell_put_of_ne (h : Heap α γ) (c : γ) (hne : b ≠ a) :
  (h.put a c).cell b = h.cell b
  := Function.update_of_ne hne ..

@[simp]
theorem cell_add_self (h : Heap α γ) (a : α) (f : γ → γ) :
  (h.add a f).cell a = f (h.cell a)
  := Function.update_self ..

theorem cell_add_of_ne (h : Heap α γ) (f : γ → γ) (hne : b ≠ a) :
  (h.add a f).cell b = h.cell b
  := Function.update_of_ne hne ..

omit [DecidableEq α] in
theorem ne_of_not_mem (ha : a ∉ h.live) (hb : b ∈ h.live) :
  b ≠ a
  := by
  rintro rfl
  exact ha hb

@[simp]
theorem cell_remove (h : Heap α γ) (a : α) :
  (h.remove a).cell = h.cell
  := rfl

/-- What a change of an allocated cell leaves. -/
theorem exists_modify (ha : a ∈ h.live) (f : γ → γ) :
  ∃ h', h.modify a f = some h' ∧ h'.live = h.live ∧
    ∀ b, h'.cell b = if some a = some b then f (h.cell b) else h.cell b
  := by
  refine ⟨_, modify_eq_some.mpr ⟨ha, rfl⟩, rfl, ?_⟩
  intro b
  by_cases hb : b = a
  · rw [hb, if_pos rfl, cell_put_self]
  · rw [if_neg (fun heq => hb (Option.some.inj heq).symm), cell_put_of_ne _ _ hb]

end Heap
