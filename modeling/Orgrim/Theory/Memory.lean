import Mathlib.Algebra.Group.Nat.Defs
import Mathlib.Data.List.Basic
import Mathlib.Data.List.Range
import Mathlib.Logic.Function.Basic

/-!
# Memory

`Memory α` is a buffer of cells of type `α` as the code addresses it: the cell `i` of
the buffer is `m i`.  `write m off bs` stores the cells `bs` from `off` on, `slice m off n`
is the list of the `n` cells from `off` on.  Whether an access stays inside the buffer is
a statement about offsets and lengths, made where the buffer is declared.
-/

/-- The cells of a buffer, by their offset from its start. -/
abbrev Memory (α : Type*) : Type _ := ℕ → α

namespace Memory

variable {α : Type*}

/-- The memory `m` with the cells `bs` stored from offset `off` on. -/
def write (m : Memory α) (off : ℕ) (bs : List α) : Memory α :=
  fun i => if off ≤ i then (bs[i - off]?).getD (m i) else m i

/-- The `n` cells of `m` from offset `off` on. -/
def slice (m : Memory α) (off n : ℕ) : List α :=
  (List.range n).map (fun i => m (off + i))

/-! ### Single cells -/

theorem write_apply_of_lt (m : Memory α) (bs : List α) {off i : ℕ} (h : i < off) :
  m.write off bs i = m i
  := by
  simp [write, Nat.not_le.mpr h]

theorem write_apply_of_le (m : Memory α) (bs : List α) {off i : ℕ}
    (h : off + bs.length ≤ i) :
  m.write off bs i = m i
  := by
  have hnone : bs[i - off]? = none := by
    apply List.getElem?_eq_none
    omega
  simp [write, hnone]

theorem write_apply_add (m : Memory α) (bs : List α) (off : ℕ) {i : ℕ}
    (h : i < bs.length) :
  m.write off bs (off + i) = bs[i]
  := by
  simp [write, List.getElem?_eq_getElem h]

/-- A written cell holds what was written there. -/
theorem write_apply_of_mem (m : Memory α) (bs : List α) {off i : ℕ}
    (hle : off ≤ i) (hlt : i < off + bs.length) :
  m.write off bs i = bs[i - off]
  := by
  obtain ⟨k, rfl⟩ := Nat.exists_eq_add_of_le hle
  simp only [Nat.add_sub_cancel_left]
  apply write_apply_add

@[simp]
theorem write_nil (m : Memory α) (off : ℕ) :
  m.write off [] = m
  := by
  funext i
  simp [write]

/-- The first cell of a write. -/
@[simp]
theorem write_cons_self (m : Memory α) (off : ℕ) (b : α) (bs : List α) :
  m.write off (b :: bs) off = b
  := by
  simp [write]

/-- Storing `as` and then `bs` right behind them is storing `as ++ bs`. -/
theorem write_write_append (m : Memory α) (off : ℕ) (as bs : List α) :
  (m.write off as).write (off + as.length) bs = m.write off (as ++ bs)
  := by
  funext i
  by_cases hlow : i < off + as.length
  · rw [write_apply_of_lt _ _ hlow]
    simp only [write]
    split
    · rw [List.getElem?_append_left (by omega)]
    · rfl
  · simp only [write]
    rw [if_pos (by omega), if_pos (by omega), if_pos (by omega),
      List.getElem?_append_right (by omega), List.getElem?_eq_none (l := as) (by omega)]
    simp only [Option.getD_none]
    congr 2
    omega

theorem write_write_append_of_eq (m : Memory α) {off k : ℕ} {as : List α} (bs : List α)
    (h : k = off + as.length) :
  (m.write off as).write k bs = m.write off (as ++ bs)
  := by
  rw [h, write_write_append]

/-- Two writes to the same cells leave the second. -/
theorem write_write_of_le (m : Memory α) (off : ℕ) (as bs : List α)
    (h : as.length ≤ bs.length) :
  (m.write off as).write off bs = m.write off bs
  := by
  funext i
  by_cases hhigh : off + bs.length ≤ i
  · rw [write_apply_of_le _ _ hhigh, write_apply_of_le _ _ hhigh,
      write_apply_of_le _ _ (by omega)]
  · by_cases hlow : i < off
    · rw [write_apply_of_lt _ _ hlow, write_apply_of_lt _ _ hlow, write_apply_of_lt _ _ hlow]
    · rw [write_apply_of_mem _ _ (by omega) (by omega),
        write_apply_of_mem _ _ (by omega) (by omega)]

/-- A write of `n` copies of one cell. -/
theorem write_replicate_apply (m : Memory α) (off n i : ℕ) (b : α) :
  m.write off (List.replicate n b) i = if off ≤ i ∧ i < off + n then b else m i
  := by
  split
  · rename_i h
    rw [write_apply_of_mem _ _ h.1 (by simpa using h.2), List.getElem_replicate]
  · by_cases hlow : i < off
    · apply write_apply_of_lt _ _ hlow
    · apply write_apply_of_le
      rw [List.length_replicate]
      omega

/-! ### Slices -/

@[simp]
theorem length_slice (m : Memory α) (off n : ℕ) :
  (m.slice off n).length = n
  := by
  simp [slice]

@[simp]
theorem slice_zero (m : Memory α) (off : ℕ) :
  m.slice off 0 = []
  := rfl

@[simp]
theorem getElem_slice (m : Memory α) (off n i : ℕ) (h : i < (m.slice off n).length) :
  (m.slice off n)[i] = m (off + i)
  := by
  simp [slice]

/-- The cells of a memory, read off a slice. -/
theorem apply_of_slice_eq {m : Memory α} {n i : ℕ} {bs : List α} (h : m.slice 0 n = bs)
    (hi : i < n) :
  bs[i]? = some (m i)
  := by
  rw [← h, List.getElem?_eq_getElem (by simpa using hi), getElem_slice, Nat.zero_add]

/-- A slice of `n + k` cells is the slice of the first `n` and the slice of the last `k`. -/
theorem slice_add (m : Memory α) (off n k : ℕ) :
  m.slice off (n + k) = m.slice off n ++ m.slice (off + n) k
  := by
  simp only [slice, List.range_add, List.map_append, List.map_map]
  congr 1
  apply List.map_congr_left
  intro i _
  simp only [Function.comp_apply, Nat.add_assoc]

theorem slice_succ (m : Memory α) (off n : ℕ) :
  m.slice off (n + 1) = m off :: m.slice (off + 1) n
  := by
  rw [Nat.add_comm, slice_add]
  rfl

/-- The cell `i` of a slice, between those in front of it and those behind it. -/
theorem slice_split (m : Memory α) {i n : ℕ} (h : i < n) :
  m.slice 0 n = m.slice 0 i ++ m i :: m.slice (i + 1) (n - (i + 1))
  := by
  obtain ⟨k, rfl⟩ := Nat.exists_eq_add_of_lt h
  rw [Nat.add_assoc, slice_add, slice_succ, Nat.zero_add]
  congr 3
  omega

theorem slice_dropLast (m : Memory α) (off n : ℕ) :
  (m.slice off (n + 1)).dropLast = m.slice off n
  := by
  rw [slice_add]
  apply List.dropLast_concat

theorem slice_drop (m : Memory α) (off n k : ℕ) :
  (m.slice off (k + n)).drop k = m.slice (off + k) n
  := by
  rw [slice_add, List.drop_append_of_le_length (by simp)]
  simp

/-- Two memories with the same cells in a range have the same slice there. -/
theorem slice_congr {m m' : Memory α} {off n : ℕ}
    (h : ∀ i, off ≤ i → i < off + n → m i = m' i) :
  m.slice off n = m'.slice off n
  := by
  apply List.map_congr_left
  intro i hi
  have hi' := List.mem_range.mp hi
  apply h
  · omega
  · omega

@[simp]
theorem slice_write_self (m : Memory α) (off : ℕ) (bs : List α) :
  (m.write off bs).slice off bs.length = bs
  := by
  apply List.ext_getElem
  · simp
  · intro i hi hi'
    rw [getElem_slice]
    apply write_apply_add m bs off hi'

/-- A write behind a slice does not change it. -/
theorem slice_write_of_le (m : Memory α) {off n w : ℕ} (bs : List α) (h : off + n ≤ w) :
  (m.write w bs).slice off n = m.slice off n
  := by
  apply slice_congr
  intro i _ hi
  apply write_apply_of_lt
  omega

/-- Putting back the cells overwritten by `as` restores the memory. -/
theorem write_write_slice (m : Memory α) (off : ℕ) (as : List α) :
  (m.write off as).write off (m.slice off as.length) = m
  := by
  rw [write_write_of_le _ _ _ _ (by simp)]
  funext i
  by_cases hlow : i < off
  · apply write_apply_of_lt _ _ hlow
  · by_cases hhigh : off + as.length ≤ i
    · apply write_apply_of_le
      simpa using hhigh
    · rw [write_apply_of_mem _ _ (by omega) (by simp; omega), getElem_slice]
      congr 1
      omega

/-- A write in front of a slice does not change it. -/
theorem slice_write_of_ge (m : Memory α) {off n w : ℕ} (bs : List α)
    (h : w + bs.length ≤ off) :
  (m.write w bs).slice off n = m.slice off n
  := by
  apply slice_congr
  intro i hi _
  apply write_apply_of_le
  omega

/-- A write right behind a slice extends it. -/
theorem slice_write_append (m : Memory α) (off n : ℕ) (bs : List α) :
  (m.write (off + n) bs).slice off (n + bs.length) = m.slice off n ++ bs
  := by
  rw [slice_add, slice_write_of_le _ _ (Nat.le_refl _), slice_write_self]

/-- A slice inside a written range is the part of the written cells there. -/
theorem slice_write_of_mem (m : Memory α) (bs : List α) {off n k : ℕ}
    (h : k + n ≤ bs.length) :
  (m.write off bs).slice (off + k) n = (bs.drop k).take n
  := by
  apply List.ext_getElem
  · simp
    omega
  · intro i hi hi'
    rw [length_slice] at hi
    rw [getElem_slice, write_apply_of_mem _ _ (by omega) (by omega)]
    simp only [List.getElem_take, List.getElem_drop]
    congr 1
    omega

/-- Storing the cell behind the first ones extends them. -/
theorem slice_update_last (m : Memory α) (n : ℕ) (x : α) :
  slice (Function.update m n x) 0 (n + 1) = m.slice 0 n ++ [x]
  := by
  have hlast : slice (Function.update m n x) n 1 = [x] := by
    rw [slice_succ, Function.update_self]
    rfl
  rw [slice_add, Nat.zero_add, hlast]
  congr 1
  apply slice_congr
  intro i _ hi
  apply Function.update_of_ne
  omega

end Memory
