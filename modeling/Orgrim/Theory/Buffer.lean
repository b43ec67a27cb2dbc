import Mathlib.Algebra.Group.Int.Defs
import Mathlib.Data.List.TakeWhile
import Orgrim.Theory.Memory

/-!
# Buffers

A `Buffer` is a memory of which the first `size` cells may be accessed.  An access outside of them
has no result.

A buffer holds a C string if the characters of the string stand at its start and a null character
behind them (`HoldsString`).  `strlen`, `strcat` and `snprintf` access as many cells as the
functions of these names; `snprintf` gets the characters of the whole output.
-/

/-- A memory with a size. -/
structure Buffer (α : Type*) where
  cells : Memory α
  size : ℕ

namespace Buffer

section

variable {α : Type*} {b b' : Buffer α} {off : ℕ} {bs : List α}

/-- What `malloc` provides, for a size of type `int`; it is converted to a `size_t`. -/
def malloc (fresh : Option (Memory α)) (n : ℤ) : Option (Buffer α) :=
  fresh.map (fun cells => ⟨cells, (n % 2 ^ 64).toNat⟩)

/-- Store cells from an offset on. -/
def store (b : Buffer α) (off : ℕ) (bs : List α) : Option (Buffer α) :=
  if off + bs.length ≤ b.size then some { b with cells := b.cells.write off bs } else none

theorem store_of_le (h : off + bs.length ≤ b.size) :
  b.store off bs = some { b with cells := b.cells.write off bs }
  := if_pos h

theorem store_of_lt (h : b.size < off + bs.length) :
  b.store off bs = none
  := if_neg (Nat.not_le.mpr h)

end

/-! ### Strings -/

/-- The length of the string at the start of the buffer. -/
def strlen (b : Buffer UInt8) : Option ℕ :=
  (List.range b.size).find? (fun i => b.cells i = 0)

/-- The string at the start of the buffer. -/
def string (b : Buffer UInt8) : Option (List UInt8) :=
  b.strlen.map (b.cells.slice 0)

/-- Append characters to the string at the start of the buffer. -/
def strcat (b : Buffer UInt8) (chars : List UInt8) : Option (Buffer UInt8) :=
  b.strlen.bind (fun n => b.store n (chars ++ [0]))

/-- Print at most `n` characters to the buffer from an offset on, the null character included. -/
def snprintf (b : Buffer UInt8) (off n : ℕ) (chars : List UInt8) : Option (Buffer UInt8) :=
  if n = 0 then some b else b.store off (chars.take (n - 1) ++ [0])

/-- The buffer starts with a string. -/
structure HoldsString (b : Buffer UInt8) (chars : List UInt8) : Prop where
  fits : chars.length < b.size
  slice : b.cells.slice 0 chars.length = chars
  terminated : b.cells chars.length = 0
  nonzero : 0 ∉ chars

variable {b b' : Buffer UInt8} {chars more : List UInt8} {n off : ℕ}

theorem HoldsString.apply_ne_zero (h : b.HoldsString chars) {i : ℕ} (hi : i < chars.length) :
  b.cells i ≠ 0
  := by
  intro hzero
  apply h.nonzero
  have hcell := Memory.apply_of_slice_eq h.slice hi
  rw [hzero] at hcell
  apply List.mem_of_getElem? hcell

theorem HoldsString.strlen_eq (h : b.HoldsString chars) :
  b.strlen = some chars.length
  := by
  rw [strlen, List.find?_range_eq_some]
  use decide_eq_true h.terminated, List.mem_range.mpr h.fits
  intro i hi
  simpa using h.apply_ne_zero hi

theorem HoldsString.string_eq (h : b.HoldsString chars) :
  b.string = some chars
  := by
  rw [string, h.strlen_eq, Option.map_some, h.slice]

/-- Characters and a null character behind the first `n` characters make a string of both. -/
theorem holdsString_write (hslice : b.cells.slice 0 n = chars) (hn : chars.length = n)
    (hfits : n + more.length < b.size) (hchars : 0 ∉ chars) (hmore : 0 ∉ more) :
  HoldsString { b with cells := b.cells.write n (more ++ [0]) } (chars ++ more)
  := by
  have hmid : (b.cells.write n (more ++ [0])).slice (n + 0) more.length
      = ((more ++ [0]).drop 0).take more.length := Memory.slice_write_of_mem _ _ (by simp)
  rw [Nat.add_zero, List.drop_zero, List.take_left] at hmid
  have hlast := Memory.write_apply_add b.cells (more ++ [0]) n (i := more.length) (by simp)
  rw [List.getElem_concat_length rfl] at hlast
  constructor
  · rw [List.length_append, hn]
    apply hfits
  · rw [List.length_append, hn, Memory.slice_add, Memory.slice_write_of_le _ _ (by omega), hslice,
      Nat.zero_add, hmid]
  · rw [List.length_append, hn]
    apply hlast
  · simp [hchars, hmore]

theorem HoldsString.strcat (h : b.HoldsString chars)
    (hfits : chars.length + more.length < b.size) (hmore : 0 ∉ more) :
  ∃ b', b.strcat more = some b' ∧ b'.HoldsString (chars ++ more) ∧ b'.size = b.size
  := by
  have hstore : chars.length + (more ++ [0]).length ≤ b.size := by
    rw [List.length_append, List.length_singleton]
    omega
  refine ⟨_, ?_, holdsString_write h.slice rfl hfits h.nonzero hmore, rfl⟩
  rw [Buffer.strcat, h.strlen_eq, Option.bind_some, store_of_le hstore]

/-- What is not longer than it may be is printed in full. -/
theorem snprintf_eq_store (hfits : chars.length < n) :
  b.snprintf off n chars = b.store off (chars ++ [0])
  := by
  have htake : chars.take (n - 1) = chars := List.take_of_length_le (Nat.le_pred_of_lt hfits)
  rw [snprintf, if_neg (Nat.ne_zero_of_lt hfits), htake]

theorem holdsString_snprintf (hfits : chars.length < n) (hn : n ≤ b.size) (hchars : 0 ∉ chars) :
  ∃ b', b.snprintf 0 n chars = some b' ∧ b'.HoldsString chars ∧ b'.size = b.size
  := by
  have hstore : 0 + (chars ++ [0]).length ≤ b.size := by
    rw [List.length_append, List.length_singleton]
    omega
  have hfits' : 0 + chars.length < b.size := by omega
  have hslice : b.cells.slice 0 0 = [] := rfl
  refine ⟨_, ?_, holdsString_write hslice rfl hfits' List.not_mem_nil hchars, rfl⟩
  rw [snprintf_eq_store hfits, store_of_le hstore]

end Buffer
