import Orgrim.Csv.ParseLine
import Orgrim.Theory.Buckets

/-!
# The standard barometer table

`ReadStandardFile` of `calculate_barometer_with_standard.cpp` puts the rows of a file into the
bucket of their second of the day.  A bucket has room for ten rows, which nothing checks.  An
access out of bounds has no result, and neither has an exception.

The files are loaded exactly if no second has more than ten rows, and the rows have the fields that
the function reads (`loads_iff`).
-/

namespace Csv

/-! ### The source -/

/-- The lines that `getline` reads. -/
def getlines (text : List UInt8) : List (List UInt8) :=
  if text = [] then []
  else
    match _h : text.idxOf? 10 with
    | none => [text]
    | some n => text.take n :: getlines (text.drop (n + 1))
termination_by text.length
decreasing_by
  obtain ⟨hn, -⟩ := List.idxOf?_eq_some_iff.mp _h
  rw [List.length_drop]
  omega

/-- `c_str()`, up to the first null character. -/
def cStr (line : List UInt8) : List UInt8 := line.takeWhile (· ≠ 0)

/-- `isspace` -/
def isSpace (c : UInt8) : Bool := c = 32 ∨ (9 ≤ c ∧ c ≤ 13)

/-- `isdigit` -/
def isDigit (c : UInt8) : Bool := 48 ≤ c ∧ c ≤ 57

/-- The number that the digits at the start of a string denote. -/
def digitsValue (chars : List UInt8) : ℤ :=
  (chars.takeWhile isDigit).foldl (fun n c => 10 * n + (c.toNat - 48)) 0

/-- `strtol`, with the base 10. -/
def strtol (chars : List UInt8) : ℤ :=
  let n :=
    match chars.dropWhile isSpace with
    | 45 :: rest => -digitsValue rest
    | 43 :: rest => digitsValue rest
    | rest => digitsValue rest
  max (-2 ^ 63) (min n (2 ^ 63 - 1))

/-- `atoi`: the result of `strtol`, converted to `int`. -/
def atoi (chars : List UInt8) : ℤ := (strtol chars).bmod (2 ^ 32)

/-- `StandardBarometerElement` -/
structure StandardBarometerElement where
  arrDateTime : List UInt8
  seconds : ℤ
  barometer : ℤ
deriving DecidableEq

/-- `StandardBarometerInfo` -/
structure StandardBarometerInfo where
  count : ℕ
  arrElement : Memory StandardBarometerElement

/-- The vector `a`, of 86400 buckets. -/
abbrev Standard := Memory StandardBarometerInfo

/-- `memcpy` of 20 bytes of a string. -/
def copyDateTime (chars : List UInt8) : Option (List UInt8) :=
  if 20 ≤ chars.length + 1 then some ((chars ++ [0]).take 20) else none

/-- What `ReadStandardFile` does with the fields of a line. -/
def readFields (a : Standard) (oneline : List (List UInt8)) : Option Standard := do
  let i := atoi (← oneline[2]?)
  if 0 ≤ i ∧ i < 86400 then
    let info := a i.toNat
    if info.count < 10 then
      let arrDateTime ← copyDateTime (← oneline[1]?)
      let barometer := atoi (← oneline[4]?)
      let arrElement :=
        Function.update info.arrElement info.count ⟨arrDateTime, i, barometer⟩
      some (Function.update a i.toNat ⟨info.count + 1, arrElement⟩)
    else none
  else none

/-- A line behind the first one. -/
def readLine (a : Standard) (line : List UInt8) : Option Standard :=
  (parseLine (cStr line)).bind (readFields a)

/-- `ReadStandardFile`; a file that cannot be opened changes nothing. -/
def readStandardFile (a : Standard) : Option (List UInt8) → Option Standard
  | none => some a
  | some text => (getlines text).tail.foldlM readLine a

/-- The vector before any file has been read. -/
def emptyStandard : Standard := fun _ => ⟨0, fun _ => ⟨List.replicate 20 0, 0, 0⟩⟩

/-- `ReadStandardFile` for one file after another. -/
def readStandardFiles (files : List (Option (List UInt8))) : Option Standard :=
  files.foldlM readStandardFile emptyStandard

/-! ### Rows -/

/-- The rows of the files. -/
def rows (files : List (Option (List UInt8))) : List (List UInt8) :=
  files.flatMap (fun file => (file.elim [] getlines).tail)

/-- The fields of a row. -/
def fields (row : List UInt8) : List (List UInt8) := (cStr row).splitOn 44

/-- The row has a seconds column with a second of the day. -/
def HasSecond (row : List UInt8) : Prop :=
  ∃ seconds, (fields row)[2]? = some seconds ∧ 0 ≤ atoi seconds ∧ atoi seconds < 86400

/-- The row has the fields that are read, and they are neither too long nor too short. -/
structure IsComplete (row : List UInt8) : Prop where
  short : ∀ field ∈ fields row, field.length < 128
  barometer : 5 ≤ (fields row).length
  dateTime : 19 ≤ ((fields row).getD 1 []).length

/-- What is stored for a row. -/
def element (row : List UInt8) : StandardBarometerElement where
  arrDateTime := (((fields row).getD 1 []) ++ [0]).take 20
  seconds := atoi ((fields row).getD 2 [])
  barometer := atoi ((fields row).getD 4 [])

/-- The second of a row. -/
def second (row : List UInt8) : ℕ := (element row).seconds.toNat

/-- Each bucket holds the rows given for it. -/
def Holds (a : Standard) (b : ℕ → List (List UInt8)) : Prop :=
  ∀ s, (a s).count = (b s).length ∧
    (a s).arrElement.slice 0 (a s).count = (b s).map element

/-- The vector with a row put behind the others of its second. -/
def Standard.push (a : Standard) (row : List UInt8) : Standard :=
  Function.update a (second row)
    ⟨(a (second row)).count + 1,
      Function.update (a (second row)).arrElement (a (second row)).count (element row)⟩

/-! ### Reading rows -/

variable {a a' : Standard} {b b' : ℕ → List (List UInt8)} {row line : List UInt8}
  {rs : List (List UInt8)} {files : List (Option (List UInt8))}

theorem parseLine_cStr (line : List UInt8) :
  parseLine (cStr line) = if ∀ field ∈ fields line, field.length < 128 then some (fields line)
    else none
  := by
  have hzero : 0 ∉ cStr line := by
    intro hmem
    simpa using List.mem_takeWhile_imp hmem
  rw [parseLine, parseFields_eq hzero, List.nil_append]
  rfl

theorem copyDateTime_eq_some {chars bytes : List UInt8} :
  copyDateTime chars = some bytes ↔ 19 ≤ chars.length ∧ bytes = (chars ++ [0]).take 20
  := by
  rw [copyDateTime, Option.ite_none_right_eq_some, Option.some_inj, eq_comm (b := bytes)]
  apply and_congr_left'
  omega

theorem readFields_eq_some (a a' : Standard) {oneline : List (List UInt8)}
    {seconds : List UInt8} (hseconds : oneline[2]? = some seconds)
    (hday : 0 ≤ atoi seconds ∧ atoi seconds < 86400) :
  readFields a oneline = some a' ↔
    (a (atoi seconds).toNat).count < 10 ∧ 19 ≤ (oneline.getD 1 []).length ∧ 5 ≤ oneline.length ∧
      a' = Function.update a (atoi seconds).toNat ⟨(a (atoi seconds).toNat).count + 1,
        Function.update (a (atoi seconds).toNat).arrElement (a (atoi seconds).toNat).count
          ⟨((oneline.getD 1 []) ++ [0]).take 20, atoi seconds, atoi (oneline.getD 4 [])⟩⟩
  := by
  have hlength := (List.getElem?_eq_some_iff.mp hseconds).1
  have hone : oneline[1]? = some (oneline.getD 1 []) := by
    rw [List.getD_eq_getElem?_getD, List.getElem?_eq_getElem (by omega), Option.getD_some]
  simp only [readFields, hseconds, hone, Option.bind_eq_bind, Option.bind_some, if_pos hday,
    Option.ite_none_right_eq_some, Option.bind_eq_some_iff, copyDateTime_eq_some,
    Option.some_inj]
  constructor
  · rintro ⟨hcount, bytes, ⟨hdate, rfl⟩, barometer, hbarometer, rfl⟩
    use hcount, hdate, (List.getElem?_eq_some_iff.mp hbarometer).1
    rw [List.getD_eq_getElem?_getD (i := 4), hbarometer, Option.getD_some]
  · rintro ⟨hcount, hdate, hfive, rfl⟩
    refine ⟨hcount, _, ⟨hdate, rfl⟩, oneline.getD 4 [], ?_, rfl⟩
    rw [List.getD_eq_getElem?_getD, List.getElem?_eq_getElem (by omega), Option.getD_some]

/-- What the function does with a row. -/
theorem readLine_eq_some (h : HasSecond row) :
  readLine a row = some a' ↔
    IsComplete row ∧ (a (second row)).count < 10 ∧ a' = a.push row
  := by
  obtain ⟨seconds, hseconds, hday⟩ := h
  have hgetD : (fields row).getD 2 [] = seconds := by
    rw [List.getD_eq_getElem?_getD, hseconds, Option.getD_some]
  have hread := readFields_eq_some a a' hseconds hday
  rw [← hgetD] at hread
  rw [readLine, parseLine_cStr]
  split
  · rename_i hshort
    rw [Option.bind_some, hread]
    constructor
    · rintro ⟨hcount, hdate, hfive, rfl⟩
      use ⟨hshort, hfive, hdate⟩, hcount
      rfl
    · rintro ⟨hcomplete, hcount, rfl⟩
      use hcount, hcomplete.dateTime, hcomplete.barometer
      rfl
  · rename_i hlong
    rw [Option.bind_none]
    constructor
    · rintro ⟨⟩
    · rintro ⟨hcomplete, -⟩
      apply absurd hcomplete.short hlong

/-- A row is put into its bucket. -/
theorem Holds.push (h : Holds a b) (row : List UInt8) :
  Holds (a.push row) (Function.update b (second row) (b (second row) ++ [row]))
  := by
  intro s
  obtain ⟨hcount, hslice⟩ := h s
  by_cases hs : s = second row
  · subst hs
    simp only [Standard.push, Function.update_self]
    constructor
    · rw [hcount, List.length_append, List.length_singleton]
    · rw [Memory.slice_update_last, hslice, List.map_append]
      rfl
  · simp only [Standard.push, Function.update_of_ne hs]
    use hcount, hslice

theorem holds_emptyStandard :
  Holds emptyStandard (fun _ => [])
  := by
  intro s
  use rfl
  rfl

/-- Rows that are read are put into their buckets. -/
theorem exists_put (h : Holds a b) (hseconds : ∀ row ∈ rs, HasSecond row)
    (hread : rs.foldlM readLine a = some a') :
  (∀ row ∈ rs, IsComplete row) ∧
    ∃ b', rs.foldlM (Buckets.put second 10) b = some b' ∧ Holds a' b'
  := by
  induction rs generalizing a b with
  | nil =>
      obtain rfl := Option.some_inj.mp hread
      use List.forall_mem_nil _, b, rfl
  | cons row rs ih =>
      rw [List.forall_mem_cons] at hseconds
      obtain ⟨a₁, hrow, hrest⟩ := Option.bind_eq_some_iff.mp hread
      obtain ⟨hcomplete, hcount, rfl⟩ := (readLine_eq_some hseconds.1).mp hrow
      obtain ⟨hall, b', hput, hholds⟩ := ih (h.push row) hseconds.2 hrest
      rw [(h (second row)).1] at hcount
      use List.forall_mem_cons.mpr ⟨hcomplete, hall⟩, b'
      constructor
      · rw [List.foldlM_cons, Buckets.put_eq_some.mpr ⟨hcount, rfl⟩]
        apply hput
      · apply hholds

/-- Rows that fit into their buckets are read. -/
theorem exists_read (h : Holds a b) (hseconds : ∀ row ∈ rs, HasSecond row)
    (hcomplete : ∀ row ∈ rs, IsComplete row)
    (hput : rs.foldlM (Buckets.put second 10) b = some b') :
  ∃ a', rs.foldlM readLine a = some a' ∧ Holds a' b'
  := by
  induction rs generalizing a b with
  | nil =>
      obtain rfl := Option.some_inj.mp hput
      use a, rfl
  | cons row rs ih =>
      rw [List.forall_mem_cons] at hseconds hcomplete
      obtain ⟨b₁, hrow, hrest⟩ := Option.bind_eq_some_iff.mp hput
      obtain ⟨hcount, rfl⟩ := Buckets.put_eq_some.mp hrow
      rw [← (h (second row)).1] at hcount
      obtain ⟨a', hread, hholds⟩ := ih (h.push row) hseconds.2 hcomplete.2 hrest
      use a'
      constructor
      · rw [List.foldlM_cons, (readLine_eq_some hseconds.1).mpr ⟨hcomplete.1, hcount, rfl⟩]
        apply hread
      · apply hholds

/-! ### Reading files -/

/-- The files are read row by row. -/
theorem foldlM_readStandardFile :
  files.foldlM readStandardFile a = (rows files).foldlM readLine a
  := by
  induction files generalizing a with
  | nil => rfl
  | cons file files ih =>
      rw [rows, List.flatMap_cons, List.foldlM_append, List.foldlM_cons]
      cases file with
      | none => apply ih
      | some text =>
          apply bind_congr
          intro a₁
          apply ih

/-- Each bucket holds the rows of its second, in the order in which they are loaded. -/
def Loaded (a : Standard) (rs : List (List UInt8)) : Prop := Holds a (Buckets.items second rs)

/-- The rows are loaded exactly if each of them is complete, and no second has more than ten. -/
theorem foldlM_readLine_iff (hseconds : ∀ row ∈ rs, HasSecond row) :
  (∃ a, rs.foldlM readLine emptyStandard = some a ∧ (∀ s, (a s).count ≤ 10) ∧ Loaded a rs) ↔
    (∀ row ∈ rs, IsComplete row) ∧ ∀ s, (Buckets.items second rs s).length ≤ 10
  := by
  constructor
  · rintro ⟨a, hread, -⟩
    obtain ⟨hcomplete, b, hput, -⟩ := exists_put holds_emptyStandard hseconds hread
    use hcomplete
    apply ((Buckets.foldlM_put_eq_some _).mp hput).1
    intro s
    apply Nat.zero_le
  · rintro ⟨hcomplete, hlength⟩
    have hput : rs.foldlM (Buckets.put second 10) (fun _ => [])
        = some (Buckets.items second rs) := by
      apply (Buckets.foldlM_put_eq_some _).mpr
      · use hlength
        rfl
      · intro s
        apply Nat.zero_le
    obtain ⟨a, hread, hholds⟩ := exists_read holds_emptyStandard hseconds hcomplete hput
    use a, hread
    constructor
    · intro s
      rw [(hholds s).1]
      apply hlength
    · apply hholds

/-- `ReadStandardFile` loads files as it should exactly if all their rows are complete, and no
second has more than ten of them. -/
theorem loads_iff (hseconds : ∀ row ∈ rows files, HasSecond row) :
  (∃ a, readStandardFiles files = some a ∧ (∀ s, (a s).count ≤ 10) ∧ Loaded a (rows files)) ↔
    (∀ row ∈ rows files, IsComplete row) ∧
      ∀ s, (Buckets.items second (rows files) s).length ≤ 10
  := by
  rw [readStandardFiles, foldlM_readStandardFile, foldlM_readLine_iff hseconds]

/-! ### Files -/

theorem getlines_line {text : List UInt8} (h : 10 ∉ line) :
  getlines (line ++ 10 :: text) = line :: getlines text
  := by
  have hidx : (line ++ 10 :: text).idxOf? 10 = some line.length :=
    Separated.idxOf?_append_cons h
  rw [getlines, if_neg (by simp)]
  split
  · rename_i hnone
    rw [hidx] at hnone
    cases hnone
  · rename_i n hsome
    rw [hidx, Option.some_inj] at hsome
    subst hsome
    rw [List.take_left, Separated.drop_append_cons]

/-- The lines of a text are read back. -/
theorem getlines_terminated {lines : List (List UInt8)} (h : ∀ line ∈ lines, 10 ∉ line) :
  getlines (Separated.terminated 10 lines) = lines
  := by
  induction lines with
  | nil => rw [Separated.terminated, List.flatMap_nil, getlines, if_pos rfl]
  | cons line lines ih =>
      rw [List.forall_mem_cons] at h
      rw [Separated.terminated_cons, getlines_line h.1, ih h.2]

/-- `1,2018-02-20 10:00:00,36000,12,1000` -/
def tenOClock : List UInt8 :=
  [49, 44, 50, 48, 49, 56, 45, 48, 50, 45, 50, 48, 32, 49, 48, 58, 48, 48, 58, 48, 48, 44,
    51, 54, 48, 48, 48, 44, 49, 50, 44, 49, 48, 48, 48]

/-- A file with `n` rows for the same second, behind a line that is skipped. -/
def sameSecond (n : ℕ) : Option (List UInt8) :=
  some (Separated.terminated 10 ([] :: List.replicate n tenOClock))

theorem rows_sameSecond (n : ℕ) :
  rows [sameSecond n] = List.replicate n tenOClock
  := by
  have hlines : ∀ line ∈ [] :: List.replicate n tenOClock, 10 ∉ line := by
    intro line hline
    rcases List.mem_cons.mp hline with rfl | hline
    · apply List.not_mem_nil
    · rw [List.eq_of_mem_replicate hline]
      decide
  rw [rows, List.flatMap_singleton, sameSecond, Option.elim_some, getlines_terminated hlines,
    List.tail_cons]

theorem hasSecond_sameSecond (n : ℕ) :
  ∀ row ∈ rows [sameSecond n], HasSecond row
  := by
  rw [rows_sameSecond]
  intro row hrow
  rw [List.eq_of_mem_replicate hrow]
  use [51, 54, 48, 48, 48]
  decide

theorem isComplete_tenOClock :
  IsComplete tenOClock
  := by
  constructor
  · decide
  · decide
  · decide

theorem items_sameSecond (n s : ℕ) :
  Buckets.items second (rows [sameSecond n]) s
    = if second tenOClock = s then List.replicate n tenOClock else []
  := by
  rw [rows_sameSecond, Buckets.items, List.filter_replicate]
  simp only [decide_eq_true_eq]

/-- Ten rows for one second. -/
theorem loads_ten :
  ∃ a, readStandardFiles [sameSecond 10] = some a ∧ (∀ s, (a s).count ≤ 10) ∧
    Loaded a (rows [sameSecond 10])
  := by
  apply (loads_iff (hasSecond_sameSecond 10)).mpr
  constructor
  · intro row hrow
    rw [rows_sameSecond] at hrow
    rw [List.eq_of_mem_replicate hrow]
    apply isComplete_tenOClock
  · intro s
    rw [items_sameSecond]
    split
    · rw [List.length_replicate]
    · apply Nat.zero_le

/-- There is no room for an eleventh row. -/
theorem not_loads_eleven :
  (∀ row ∈ rows [sameSecond 11], HasSecond row) ∧
    ¬ ∃ a, readStandardFiles [sameSecond 11] = some a ∧ (∀ s, (a s).count ≤ 10) ∧
      Loaded a (rows [sameSecond 11])
  := by
  use hasSecond_sameSecond 11
  rw [readStandardFiles, foldlM_readStandardFile, foldlM_readLine_iff (hasSecond_sameSecond 11)]
  rintro ⟨-, hlength⟩
  have heleven := hlength (second tenOClock)
  rw [items_sameSecond, if_pos rfl, List.length_replicate] at heleven
  omega

end Csv
