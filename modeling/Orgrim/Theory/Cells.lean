import Mathlib.Algebra.Group.Nat.Defs
import Mathlib.Data.List.Basic
import Mathlib.Data.List.TakeWhile

/-!
# Cells that may be unwritten

`Cells α` is a block of memory, each cell of which has a value or has not been written.  A program
that fills it from the start knows the values at the start (`Holds`).  What it writes behind them is
held as well (`Holds.write`), the length of what is in front of a stop can be found
(`Holds.lengthUntil`), and a block of another size holds what fits into it (`Holds.resize`).
-/

/-- A block of memory. -/
abbrev Cells (α : Type*) : Type _ := List (Option α)

namespace Cells

variable {α : Type*}

/-- A block of which nothing has been written. -/
def new (n : ℕ) : Cells α := List.replicate n none

/-- Store values from a cell on; nothing if they do not fit. -/
def write (cells : Cells α) (i : ℕ) (values : List α) : Option (Cells α) :=
  if i + values.length ≤ cells.length then
    some (cells.take i ++ values.map some ++ cells.drop (i + values.length))
  else none

/-- How many values there are in front of a stop; nothing if a cell in front of it has none. -/
def lengthUntil [DecidableEq α] (stop : α) : Cells α → Option ℕ
  | [] => none
  | none :: _ => none
  | some a :: cells => if a = stop then some 0 else (lengthUntil stop cells).map (· + 1)

/-- A block of another size, with the same values. -/
def resize (cells : Cells α) (n : ℕ) : Cells α := (cells ++ new n).take n

/-- The block starts with the values. -/
def Holds (cells : Cells α) (values : List α) : Prop := values.map some <+: cells

variable {cells : Cells α} {values before after : List α} {stop : α} {n : ℕ}

theorem length_new :
  (new n : Cells α).length = n
  := List.length_replicate

theorem holds_nil :
  cells.Holds []
  := List.nil_prefix

theorem Holds.length_le (h : cells.Holds values) :
  values.length ≤ cells.length
  := by
  have hle := List.IsPrefix.length_le h
  rw [List.length_map] at hle
  exact hle

theorem Holds.of_append (h : cells.Holds (values ++ after)) :
  cells.Holds values
  := by
  apply List.IsPrefix.trans _ h
  rw [List.map_append]
  apply List.prefix_append

theorem Holds.take (h : cells.Holds values) :
  cells.take values.length = values.map some
  := by
  have heq := List.prefix_iff_eq_take.mp h
  rw [List.length_map] at heq
  exact heq.symm

/-- What is written behind the values -/
theorem Holds.write (h : cells.Holds before) (hfits : before.length + values.length ≤ cells.length) :
  ∃ cells', cells.write before.length values = some cells' ∧ cells'.Holds (before ++ values) ∧
    cells'.length = cells.length
  := by
  refine ⟨_, if_pos hfits, ?_, ?_⟩
  · rw [h.take, Holds, List.map_append]
    apply List.prefix_append
  · rw [List.length_append, List.length_append, List.length_take, List.length_drop, List.length_map]
    omega

theorem lengthUntil_append [DecidableEq α] (hstop : stop ∉ values) :
  lengthUntil stop (values.map some ++ some stop :: cells) = some values.length
  := by
  induction values with
  | nil => exact if_pos rfl
  | cons a values ih =>
      rw [List.mem_cons, not_or] at hstop
      obtain ⟨hne, hstop⟩ := hstop
      rw [List.map_cons, List.cons_append, lengthUntil, if_neg (Ne.symm hne), ih hstop]
      rfl

/-- The length of the values behind others -/
theorem Holds.lengthUntil [DecidableEq α] (h : cells.Holds (before ++ values ++ [stop]))
    (hstop : stop ∉ values) :
  Cells.lengthUntil stop (cells.drop before.length) = some values.length
  := by
  obtain ⟨rest, rfl⟩ := h
  have hdrop : (List.map some (before ++ values ++ [stop]) ++ rest).drop before.length =
      values.map some ++ some stop :: rest := by
    rw [List.map_append, List.map_append, List.append_assoc, List.append_assoc,
      List.drop_append_of_le_length (by rw [List.length_map]), List.drop_of_length_le
      (by rw [List.length_map])]
    rfl
  rw [hdrop]
  apply lengthUntil_append hstop

theorem length_resize :
  (cells.resize n).length = n
  := by
  rw [resize, List.length_take, List.length_append, length_new]
  omega

theorem Holds.resize (h : cells.Holds values) (hle : values.length ≤ n) :
  (cells.resize n).Holds values
  := by
  apply List.prefix_take_iff.mpr
  constructor
  · apply h.trans
    apply List.prefix_append
  · rw [List.length_map]
    exact hle

theorem Holds.of_take (h : cells.Holds values) (hle : values.length ≤ n) :
  Holds (cells.take n) values
  := by
  apply List.prefix_take_iff.mpr
  rw [List.length_map]
  exact ⟨h, hle⟩

/-- A block that holds as many values as it has cells. -/
theorem Holds.eq_map (h : cells.Holds values) (hlength : cells.length = values.length) :
  cells = values.map some
  := by
  rw [← h.take, ← hlength, List.take_length]

end Cells
