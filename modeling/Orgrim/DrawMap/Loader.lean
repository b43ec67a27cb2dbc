import Orgrim.Theory.Memory
import Orgrim.Theory.Separated

/-!
# Loading a map

`draw_map.c` reads a file into `map_data`, character by character.  It stores a character, also
that of the end of the file, before it looks whether there is room, and so does the loop that
fills a line up.  A store outside of `map_data` has no result.

The error exit is never reached without such a store (`load_ne_error`), and a full map ends with
one, so the files that are loaded as they should are those with fewer than 128 lines
(`loadsRight_iff`).
-/

namespace DrawMap

/-! ### The source -/

/-- `map_data`: rows of characters. -/
abbrev MapData := Memory (Memory UInt8)

/-- The map with characters stored in a row. -/
def MapData.putRow (mapData : MapData) (row col : ℕ) (cs : List UInt8) : MapData :=
  Function.update mapData row ((mapData row).write col cs)

/-- `map_data[row][col] = c` -/
def put (mapData : MapData) (row col : ℕ) (c : UInt8) : Option MapData :=
  if row < 128 ∧ col < 128 then some (mapData.putRow row col [c]) else none

/-- `map_data`, `row_count` and `col_count` -/
structure Loader where
  mapData : MapData
  rowCount : ℕ
  colCount : ℕ

/-- The loop that fills a line up. -/
def fillRow (s : Loader) : Option MapData :=
  (List.range' s.colCount (128 - s.colCount)).foldlM
    (fun mapData k => put mapData s.rowCount k 32) s.mapData

/-- The end of a line; `some none` is the error exit. -/
def endLine (s : Loader) : Option (Option Loader) := do
  let mapData ← fillRow s
  if 128 ≤ s.rowCount then some none else some (some ⟨mapData, s.rowCount + 1, 0⟩)

/-- Any other character. -/
def storeChar (s : Loader) (c : UInt8) : Option (Option Loader) := do
  let mapData ← put s.mapData s.rowCount s.colCount c
  if 128 ≤ s.colCount then some none else some (some ⟨mapData, s.rowCount, s.colCount + 1⟩)

/-- The loop.  At the end of the file `c` is `EOF`, and `(char) c` is stored. -/
def readChars : List UInt8 → Loader → Option (Option Loader)
  | [], s => storeChar s 255
  | c :: file, s =>
      match if c = 10 then endLine s else storeChar s c with
      | none => none
      | some none => some none
      | some (some s) => readChars file s

/-- Loading a file. -/
def load (file : List UInt8) : Option (Option Loader) := readChars file ⟨fun _ _ => 0, 0, 0⟩

/-! ### Charts -/

/-- A file with at most 128 lines of at most 128 characters each. -/
structure IsChart (lines : List (List UInt8)) (file : List UInt8) : Prop where
  height : lines.length ≤ 128
  width : ∀ line ∈ lines, line.length ≤ 128
  noNewline : ∀ line ∈ lines, 10 ∉ line
  text : file = Separated.terminated 10 lines

/-- The map has the characters of the lines, filled up with blanks. -/
def Shows (mapData : MapData) (lines : List (List UInt8)) : Prop :=
  ∀ r, ∀ line ∈ lines[r]?, ∀ c < 128, mapData r c = line.getD c 32

/-- What the loader should do with a file. -/
def LoadsRight (file : List UInt8) : Prop :=
  (∀ lines, IsChart lines file → ∃ s, load file = some (some s) ∧ Shows s.mapData lines) ∧
    ((∀ lines, ¬ IsChart lines file) → load file = some none)

variable {s : Loader} {file line cs : List UInt8} {lines : List (List UInt8)} {mapData : MapData}
  {row col n : ℕ}

/-! ### The error exit -/

/-- No line is too long, and there is nothing in a row behind the last one. -/
structure Fits (s : Loader) : Prop where
  row : s.rowCount ≤ 128
  col : s.colCount ≤ 128
  last : s.rowCount = 128 → s.colCount = 0

theorem storeChar_cases (h : Fits s) (c : UInt8) :
  storeChar s c = none ∨ ∃ s', storeChar s c = some (some s') ∧ Fits s'
  := by
  by_cases hroom : s.rowCount < 128 ∧ s.colCount < 128
  · right
    rw [storeChar, put, if_pos hroom, Option.bind_eq_bind, Option.bind_some, if_neg (by omega)]
    refine ⟨_, rfl, ?_⟩
    constructor
    · apply h.row
    · apply hroom.2
    · intro hrow
      dsimp only at hrow
      omega
  · left
    rw [storeChar, put, if_neg hroom]
    rfl

theorem endLine_cases (h : Fits s) :
  endLine s = none ∨ ∃ s', endLine s = some (some s') ∧ Fits s'
  := by
  rcases Nat.lt_or_ge s.rowCount 128 with hrow | hrow
  · rw [endLine]
    cases fillRow s with
    | none =>
        left
        rfl
    | some mapData =>
        right
        rw [Option.bind_eq_bind, Option.bind_some, if_neg (by omega)]
        refine ⟨_, rfl, ?_⟩
        constructor
        · apply hrow
        · apply Nat.zero_le
        · intro _
          rfl
  · -- the first blank is stored behind the last row
    left
    have hcol := h.last (Nat.le_antisymm h.row hrow)
    have hput : put s.mapData s.rowCount 0 32 = none := if_neg (by omega)
    rw [endLine, fillRow, hcol, Nat.sub_zero, List.range'_succ, List.foldlM_cons, hput]
    rfl

/-- The error exit is never reached. -/
theorem readChars_ne_error (h : Fits s) (file : List UInt8) :
  readChars file s ≠ some none
  := by
  induction file generalizing s with
  | nil =>
      rw [readChars]
      rcases storeChar_cases h 255 with hnone | ⟨s', hsome, -⟩
      · rw [hnone]
        rintro ⟨⟩
      · rw [hsome]
        rintro ⟨⟩
  | cons c file ih =>
      have hcases : (if c = 10 then endLine s else storeChar s c) = none ∨
          ∃ s', (if c = 10 then endLine s else storeChar s c) = some (some s') ∧ Fits s' := by
        split
        · apply endLine_cases h
        · apply storeChar_cases h
      rw [readChars]
      rcases hcases with hnone | ⟨s', hsome, hfits⟩
      · rw [hnone]
        rintro ⟨⟩
      · rw [hsome]
        apply ih hfits

theorem load_ne_error (file : List UInt8) :
  load file ≠ some none
  := by
  apply readChars_ne_error
  constructor
  · apply Nat.zero_le
  · apply Nat.zero_le
  · intro _
    rfl

/-! ### Lines -/

theorem putRow_putRow (mapData : MapData) (row col : ℕ) (as bs : List UInt8) :
  (mapData.putRow row col as).putRow row (col + as.length) bs
    = mapData.putRow row col (as ++ bs)
  := by
  rw [MapData.putRow, MapData.putRow, MapData.putRow, Function.update_self,
    Function.update_idem, Memory.write_write_append]

theorem putRow_of_ne {r : ℕ} (hr : r ≠ row) (mapData : MapData) (col : ℕ) (cs : List UInt8) :
  mapData.putRow row col cs r = mapData r
  := Function.update_of_ne hr _ _

/-- A cell of a row that has been filled up. -/
theorem putRow_filled (mapData : MapData) (row : ℕ) {c : ℕ} (hc : c < 128) (line : List UInt8) :
  mapData.putRow row 0 (line ++ List.replicate (128 - line.length) 32) row c = line.getD c 32
  := by
  have hlength : c < 0 + (line ++ List.replicate (128 - line.length) (32 : UInt8)).length := by
    rw [List.length_append, List.length_replicate]
    omega
  rw [MapData.putRow, Function.update_self, Memory.write_apply_of_mem _ _ (Nat.zero_le c) hlength,
    List.getElem_append, List.getD_eq_getElem?_getD]
  simp only [Nat.sub_zero]
  split
  · rename_i hlt
    rw [List.getElem?_eq_getElem hlt, Option.getD_some]
  · rename_i hge
    rw [List.getElem_replicate, List.getElem?_eq_none (Nat.not_lt.mp hge), Option.getD_none]

theorem storeChar_of_lt (hrow : row < 128) (hcol : col < 128) (c : UInt8) :
  storeChar ⟨mapData, row, col⟩ c
    = some (some ⟨mapData.putRow row col [c], row, col + 1⟩)
  := by
  rw [storeChar, put, if_pos ⟨hrow, hcol⟩, Option.bind_eq_bind, Option.bind_some,
    if_neg (Nat.not_le.mpr hcol)]

theorem fillRow_eq (hrow : row < 128) (hcol : col + n ≤ 128) :
  (List.range' col n).foldlM (fun mapData k => put mapData row k 32) mapData
    = some (mapData.putRow row col (List.replicate n 32))
  := by
  induction n generalizing mapData col with
  | zero =>
      rw [MapData.putRow, List.replicate_zero, Memory.write_nil, Function.update_eq_self]
      rfl
  | succ n ih =>
      have hput : put mapData row col 32 = some (mapData.putRow row col [32]) :=
        if_pos ⟨hrow, by omega⟩
      rw [List.range'_succ, List.foldlM_cons, hput, Option.bind_eq_bind, Option.bind_some,
        ih (by omega), ← List.length_singleton (a := (32 : UInt8)), putRow_putRow]
      rfl

theorem endLine_of_lt (hrow : row < 128) (hcol : col ≤ 128) :
  endLine ⟨mapData, row, col⟩
    = some (some ⟨mapData.putRow row col (List.replicate (128 - col) 32), row + 1, 0⟩)
  := by
  have hroom : col + (128 - col) ≤ 128 := by omega
  rw [endLine, fillRow, fillRow_eq hrow hroom, Option.bind_eq_bind, Option.bind_some,
    if_neg (Nat.not_le.mpr hrow)]

/-- The characters of a line are stored one behind the other. -/
theorem readChars_append (hrow : row < 128) (hcs : 10 ∉ cs) (hcol : col + cs.length ≤ 128)
    (file : List UInt8) :
  readChars (cs ++ file) ⟨mapData, row, col⟩
    = readChars file ⟨mapData.putRow row col cs, row, col + cs.length⟩
  := by
  induction cs generalizing mapData col with
  | nil =>
      rw [MapData.putRow, Memory.write_nil, Function.update_eq_self]
      rfl
  | cons c cs ih =>
      rw [List.mem_cons, not_or] at hcs
      rw [List.length_cons] at hcol
      rw [List.cons_append, readChars, if_neg (Ne.symm hcs.1), storeChar_of_lt hrow (by omega)]
      dsimp only
      have hcol' : col + 1 + cs.length ≤ 128 := by omega
      have hjoin : (mapData.putRow row col [c]).putRow row (col + 1) cs
          = mapData.putRow row col (c :: cs) := putRow_putRow mapData row col [c] cs
      rw [ih hcs.2 hcol', hjoin, List.length_cons, Nat.add_assoc, Nat.add_comm 1]

/-- A line is stored with blanks behind it. -/
theorem readChars_line (hrow : row < 128) (hline : 10 ∉ line) (hwidth : line.length ≤ 128)
    (file : List UInt8) :
  readChars (line ++ 10 :: file) ⟨mapData, row, 0⟩
    = readChars file
        ⟨mapData.putRow row 0 (line ++ List.replicate (128 - line.length) 32), row + 1, 0⟩
  := by
  rw [readChars_append hrow hline (by omega), readChars, if_pos rfl,
    endLine_of_lt hrow (by omega), Nat.zero_add]
  dsimp only
  have hjoin := putRow_putRow mapData row 0 line (List.replicate (128 - line.length) 32)
  rw [Nat.zero_add] at hjoin
  rw [hjoin]

/-- The lines of a chart are stored one below the other. -/
theorem readChars_terminated (mapData : MapData) (row : ℕ)
    (hheight : row + lines.length ≤ 128)
    (hwidth : ∀ line ∈ lines, line.length ≤ 128) (hnoNewline : ∀ line ∈ lines, 10 ∉ line) :
  ∃ mapData', readChars (Separated.terminated 10 lines) ⟨mapData, row, 0⟩
      = readChars [] ⟨mapData', row + lines.length, 0⟩ ∧
    (∀ r < row, mapData' r = mapData r) ∧
    ∀ r, ∀ line ∈ lines[r]?, ∀ c < 128, mapData' (row + r) c = line.getD c 32
  := by
  induction lines generalizing row mapData with
  | nil =>
      use mapData, rfl
      constructor
      · intro r _
        rfl
      · intro r line hline
        cases hline
  | cons line lines ih =>
      rw [List.forall_mem_cons] at hwidth hnoNewline
      rw [List.length_cons] at hheight
      obtain ⟨mapData', hread, hbefore, hlines⟩ := ih
        (mapData.putRow row 0 (line ++ List.replicate (128 - line.length) 32)) (row + 1) (by omega)
        hwidth.2 hnoNewline.2
      use mapData'
      constructor
      · rw [Separated.terminated_cons, readChars_line (by omega) hnoNewline.1 hwidth.1, hread,
          List.length_cons]
        congr 2
        omega
      constructor
      · intro r hr
        rw [hbefore r (Nat.lt_succ_of_lt hr), putRow_of_ne (Nat.ne_of_lt hr)]
      · intro r l hl c hc
        cases r with
        | zero =>
            obtain rfl : line = l := by simpa using hl
            rw [Nat.add_zero, hbefore row (Nat.lt_succ_self row), putRow_filled _ _ hc]
        | succ r =>
            have hrow : row + (r + 1) = row + 1 + r := by omega
            rw [hrow]
            apply hlines r l hl c hc

/-- Behind the lines the end of the file is stored. -/
theorem load_chart (h : IsChart lines file) :
  ∃ mapData, Shows mapData lines ∧
    load file = storeChar ⟨mapData, lines.length, 0⟩ 255
  := by
  obtain ⟨mapData, hread, -, hlines⟩ := readChars_terminated (fun _ _ => 0) 0
    (by rw [Nat.zero_add]; apply h.height) h.width h.noNewline
  use mapData
  constructor
  · intro r line hline c hc
    have hcell := hlines r line hline c hc
    rwa [Nat.zero_add] at hcell
  · rw [load, h.text, hread, Nat.zero_add, readChars]

/-- The loader does what it should exactly for the charts with fewer than 128 lines. -/
theorem loadsRight_iff :
  LoadsRight file ↔ ∃ lines, IsChart lines file ∧ lines.length < 128
  := by
  constructor
  · rintro ⟨hchart, hother⟩
    by_contra hshort
    have hnone : ∀ lines, ¬ IsChart lines file := by
      intro lines h
      obtain ⟨s, hload, -⟩ := hchart lines h
      obtain ⟨mapData, -, hstore⟩ := load_chart h
      have hfull : ¬ (lines.length < 128 ∧ 0 < 128) := by
        rintro ⟨hlt, -⟩
        apply hshort
        use lines
      rw [hload, storeChar, put, if_neg hfull] at hstore
      cases hstore
    apply load_ne_error file (hother hnone)
  · rintro ⟨lines, h, hlt⟩
    constructor
    · intro lines' h'
      have hcount := Separated.count_terminated h.noNewline
      rw [← h.text, h'.text, Separated.count_terminated h'.noNewline] at hcount
      obtain ⟨mapData, hshows, hload⟩ := load_chart h'
      rw [hcount, storeChar_of_lt hlt (by decide)] at hload
      use ⟨mapData.putRow lines.length 0 [255], lines.length, 1⟩, hload
      intro r line hline c hc
      have hr := (List.getElem?_eq_some_iff.mp hline).1
      rw [hcount] at hr
      dsimp only
      rw [putRow_of_ne (Nat.ne_of_lt hr)]
      apply hshows r line hline c hc
    · intro hnone
      apply absurd h (hnone lines)

/-- Behind 128 empty lines the end of the file is stored in a row that does not exist. -/
theorem not_loadsRight_full :
  ¬ LoadsRight (Separated.terminated 10 (List.replicate 128 []))
  := by
  rintro ⟨hchart, -⟩
  have h : IsChart (List.replicate 128 []) (Separated.terminated 10 (List.replicate 128 [])) := by
    constructor
    · rw [List.length_replicate]
    · intro line hline
      rw [List.eq_of_mem_replicate hline]
      apply Nat.zero_le
    · intro line hline
      rw [List.eq_of_mem_replicate hline]
      apply List.not_mem_nil
    · rfl
  obtain ⟨s, hload, -⟩ := hchart _ h
  obtain ⟨mapData, -, hstore⟩ := load_chart h
  have hfull : ¬ ((List.replicate 128 ([] : List UInt8)).length < 128 ∧ 0 < 128) := by
    rw [List.length_replicate]
    decide
  rw [hload, storeChar, put, if_neg hfull] at hstore
  cases hstore

end DrawMap
