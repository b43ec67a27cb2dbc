import Orgrim.Theory.Buffer
import Orgrim.Theory.Separated

/-!
# Splitting lines at commas

`CSV::ParseLine` of `csv.cpp` copies each field of a line to a buffer of 128 bytes and makes a
string of it.  A copy that does not fit into the buffer has no result, and neither has a string
whose null character is not in the buffer.  So lines are split exactly if their fields have at
most 127 characters (`parseLine_isSplit_iff`).
-/

namespace Csv

/-! ### The source -/

/-- `memset`, `memcpy` of the characters of a field, and the string that the buffer then holds. -/
def copyField (chars : List UInt8) : Option (List UInt8) := do
  let buffer ← (⟨fun _ => 0, 128⟩ : Buffer UInt8).store 0 chars
  buffer.string

/-- The loop of `ParseLine`, which appends the fields to `oneline`. -/
def parseFields (pDup : List UInt8) (oneline : List (List UInt8)) :
    Option (List (List UInt8)) :=
  match _h : pDup.idxOf? 44 with
  | none => do
      let s ← copyField pDup
      some (oneline ++ [s])
  | some strlength => do
      let s ← copyField (pDup.take strlength)
      parseFields (pDup.drop (strlength + 1)) (oneline ++ [s])
termination_by pDup.length
decreasing_by
  obtain ⟨hn, -⟩ := List.idxOf?_eq_some_iff.mp _h
  rw [List.length_drop]
  omega

/-- `CSV::ParseLine`: what it puts into `oneline`. -/
def parseLine (pStr : List UInt8) : Option (List (List UInt8)) := parseFields pStr []

/-! ### Fields -/

/-- What a line should be split into. -/
structure IsSplit (line : List UInt8) (oneline : List (List UInt8)) : Prop where
  length : oneline.length = line.count 44 + 1
  noComma : ∀ field ∈ oneline, 44 ∉ field
  join : List.intercalate [44] oneline = line

variable {pStr pDup chars : List UInt8} {oneline : List (List UInt8)}

/-- A copy needs room for the characters and a null character. -/
theorem copyField_eq (hzero : 0 ∉ chars) :
  copyField chars = if chars.length < 128 then some chars else none
  := by
  rcases Nat.lt_trichotomy chars.length 128 with hlt | heq | hgt
  · have hfits : 0 + chars.length ≤ 128 := by omega
    have hslice := Memory.slice_write_self (fun _ => 0) 0 chars
    have hholds : (⟨Memory.write (fun _ => 0) 0 chars, 128⟩ : Buffer UInt8).HoldsString chars := by
      constructor
      · apply hlt
      · apply hslice
      · have hend : 0 + chars.length ≤ chars.length := Nat.le_of_eq (Nat.zero_add _)
        apply Memory.write_apply_of_le (fun _ => 0) _ hend
      · apply hzero
    rw [copyField, Buffer.store_of_le hfits, if_pos hlt]
    apply hholds.string_eq
  · have hfits : 0 + chars.length ≤ 128 := by omega
    have hfull : (⟨Memory.write (fun _ => 0) 0 chars, 128⟩ : Buffer UInt8).strlen = none := by
      rw [Buffer.strlen, List.find?_eq_none]
      intro i hi
      have hmem : i < 0 + chars.length := by
        rw [heq, Nat.zero_add]
        apply List.mem_range.mp hi
      have hne : Memory.write (fun _ => 0) 0 chars i ≠ 0 := by
        rw [Memory.write_apply_of_mem _ _ (Nat.zero_le i) hmem]
        apply ne_of_mem_of_not_mem (List.getElem_mem _) hzero
      simpa using hne
    rw [copyField, Buffer.store_of_le hfits, if_neg (by omega), Option.bind_eq_bind,
      Option.bind_some, Buffer.string, hfull, Option.map_none]
  · have hover : 128 < 0 + chars.length := by omega
    rw [copyField, Buffer.store_of_lt hover, if_neg (by omega), Option.bind_eq_bind,
      Option.bind_none]

/-- The last field -/
theorem parseFields_last (h : 44 ∉ pDup) :
  parseFields pDup oneline = (copyField pDup).bind (fun s => some (oneline ++ [s]))
  := by
  have hidx : pDup.idxOf? 44 = none := List.idxOf?_eq_none_iff.mpr h
  rw [parseFields]
  split
  · rfl
  · rename_i hsome
    rw [hidx] at hsome
    cases hsome

/-- A field in front of a comma -/
theorem parseFields_comma (h : 44 ∉ chars) :
  parseFields (chars ++ 44 :: pDup) oneline
    = (copyField chars).bind (fun s => parseFields pDup (oneline ++ [s]))
  := by
  have hidx : (chars ++ 44 :: pDup).idxOf? 44 = some chars.length :=
    Separated.idxOf?_append_cons h
  rw [parseFields]
  split
  · rename_i hnone
    rw [hidx] at hnone
    cases hnone
  · rename_i strlength hsome
    rw [hidx, Option.some_inj] at hsome
    subst hsome
    rw [List.take_left, Separated.drop_append_cons]
    rfl

theorem parseFields_eq (hzero : 0 ∉ pDup) :
  parseFields pDup oneline =
    if ∀ field ∈ pDup.splitOn 44, field.length < 128 then some (oneline ++ pDup.splitOn 44)
    else none
  := by
  induction pDup using Separated.induction (44 : UInt8) generalizing oneline with
  | single xs h =>
      rw [parseFields_last h, copyField_eq hzero, List.splitOn_eq_singleton h]
      simp only [List.forall_mem_singleton]
      split
      · rfl
      · rfl
  | more xs ys h ih =>
      rw [List.mem_append, List.mem_cons, not_or, not_or] at hzero
      rw [parseFields_comma h, copyField_eq hzero.1,
        List.splitOn_append_cons_self_of_not_mem h]
      simp only [List.forall_mem_cons]
      by_cases hlength : xs.length < 128
      · rw [if_pos hlength, Option.bind_some, ih hzero.2.2]
        simp only [hlength, true_and, List.append_assoc, List.singleton_append]
      · rw [if_neg hlength, Option.bind_none]
        simp only [hlength, false_and, if_false]

theorem isSplit_splitOn (line : List UInt8) :
  IsSplit line (line.splitOn 44)
  := by
  constructor
  · apply Separated.length_splitOn
  · apply Separated.not_mem_of_mem_splitOn
  · apply List.intercalate_splitOn

/-- `ParseLine` splits a line exactly if the line has no 128 characters in a row without a comma. -/
theorem parseLine_isSplit_iff (hzero : 0 ∉ pStr) :
  (∃ oneline, parseLine pStr = some oneline ∧ IsSplit pStr oneline) ↔
    ∀ run, run <:+: pStr → 44 ∉ run → run.length < 128
  := by
  rw [parseLine, parseFields_eq hzero, ← Separated.length_splitOn_lt_iff]
  constructor
  · rintro ⟨oneline, hparse, -⟩
    rw [Option.ite_none_right_eq_some] at hparse
    apply hparse.1
  · intro hlength
    rw [if_pos hlength, List.nil_append]
    use pStr.splitOn 44, rfl
    apply isSplit_splitOn

/-- A field, an empty one, and another. -/
theorem parseLine_isSplit_three :
  ∃ oneline, parseLine [49, 44, 44, 50] = some oneline ∧ IsSplit [49, 44, 44, 50] oneline
  := by
  apply (parseLine_isSplit_iff _).mpr
  · intro run hinfix _
    apply Nat.lt_of_le_of_lt hinfix.length_le
    decide
  · decide

/-- 128 characters leave no room for the null character. -/
theorem parseLine_long :
  parseLine (List.replicate 128 49) = none ∧
    ¬ ∃ oneline, parseLine (List.replicate 128 49) = some oneline ∧
      IsSplit (List.replicate 128 49) oneline
  := by
  have hcomma : 44 ∉ List.replicate 128 (49 : UInt8) := by simp
  have hzero : 0 ∉ List.replicate 128 (49 : UInt8) := by simp
  have hlength : ¬ (List.replicate 128 (49 : UInt8)).length < 128 := by
    rw [List.length_replicate]
    decide
  have hnone : parseLine (List.replicate 128 49) = none := by
    rw [parseLine, parseFields_last hcomma, copyField_eq hzero, if_neg hlength, Option.bind_none]
  use hnone
  rintro ⟨oneline, hsome, -⟩
  cases hnone.symm.trans hsome

end Csv
