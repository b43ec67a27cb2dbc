import Mathlib.Algebra.Order.Group.Nat
import Mathlib.Data.List.Basic
import Mathlib.Logic.Function.Basic

/-!
# Buckets

Items are put into buckets by their keys, one after another.  A bucket takes `capacity` items, and a
full one takes no more.  So a list of items fits exactly if no key occurs too often, and then each
bucket holds the items with its key in their order (`Buckets.foldlM_put_eq_some`).
-/

namespace Buckets

variable {α κ : Type*} [DecidableEq κ] {key : α → κ} {capacity : ℕ} {b b' : κ → List α}

/-- Put an item into the bucket of its key. -/
def put (key : α → κ) (capacity : ℕ) (b : κ → List α) (x : α) : Option (κ → List α) :=
  if (b (key x)).length < capacity then
    some (Function.update b (key x) (b (key x) ++ [x]))
  else none

/-- The items with a key -/
def items (key : α → κ) (xs : List α) (k : κ) : List α := xs.filter (fun x => key x = k)

@[simp]
theorem items_nil (k : κ) :
  items key [] k = []
  := rfl

theorem append_items_cons (b : κ → List α) (x : α) (xs : List α) (k : κ) :
  b k ++ items key (x :: xs) k
    = Function.update b (key x) (b (key x) ++ [x]) k ++ items key xs k
  := by
  by_cases hk : key x = k
  · subst hk
    rw [Function.update_self, items, List.filter_cons_of_pos (by simp), List.append_assoc]
    rfl
  · rw [Function.update_of_ne (Ne.symm hk), items, List.filter_cons_of_neg (by simpa using hk)]
    rfl

theorem put_eq_some {x : α} :
  put key capacity b x = some b' ↔
    (b (key x)).length < capacity ∧ b' = Function.update b (key x) (b (key x) ++ [x])
  := by
  rw [put, Option.ite_none_right_eq_some, Option.some_inj, eq_comm (b := b')]

/-- All items are put into the buckets, if none gets too many. -/
theorem foldlM_put_eq_some {xs : List α} (hb : ∀ k, (b k).length ≤ capacity) :
  xs.foldlM (put key capacity) b = some b' ↔
    (∀ k, (b k ++ items key xs k).length ≤ capacity) ∧ b' = fun k => b k ++ items key xs k
  := by
  induction xs generalizing b with
  | nil =>
      simp only [List.foldlM_nil, items_nil, List.append_nil]
      constructor
      · rintro ⟨⟩
        use hb
      · rintro ⟨-, rfl⟩
        rfl
  | cons x xs ih =>
      simp only [List.foldlM_cons, append_items_cons, Option.bind_eq_bind,
        Option.bind_eq_some_iff, put_eq_some]
      constructor
      · rintro ⟨_, ⟨hlt, rfl⟩, hrest⟩
        apply (ih _).mp hrest
        intro k
        by_cases hk : key x = k
        · subst hk
          rw [Function.update_self, List.length_append]
          apply hlt
        · rw [Function.update_of_ne (Ne.symm hk)]
          apply hb
      · rintro ⟨hlength, rfl⟩
        have hput : ∀ k, (Function.update b (key x) (b (key x) ++ [x]) k).length ≤ capacity := by
          intro k
          apply Nat.le_trans _ (hlength k)
          rw [List.length_append]
          apply Nat.le_add_right
        use Function.update b (key x) (b (key x) ++ [x])
        constructor
        · constructor
          · have hself := hput (key x)
            rw [Function.update_self, List.length_append] at hself
            apply hself
          · rfl
        · apply (ih hput).mpr
          use hlength

end Buckets
