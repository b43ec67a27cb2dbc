import Orgrim.ChineseCalendar.LunarCalendar

/-!
# Counting the days

The lunar date of a day is found by counting the days from the Spring Festival on, through the
months of the lunar year (`lunarDate`).
-/

namespace ChineseCalendar

open Gregorian

/-! ### The lunar calendar -/

structure LunarMonth where
  number : ℕ
  leap : Bool
  deriving DecidableEq

structure LunarDate where
  year : ℕ
  month : LunarMonth
  day : ℕ
  deriving DecidableEq

/-- The months of a lunar year: a leap month follows the ordinary month with its number. -/
def lunarMonths (leap : ℕ) : List LunarMonth :=
  (List.range' 1 12).flatMap
    (fun m => if m = leap then [⟨m, false⟩, ⟨m, true⟩] else [⟨m, false⟩])

/-- Their lengths. -/
def lunarLengths (e : ℕ) : List ℕ :=
  (List.range (lunarMonths (leapMonth e)).length).map (fun i => staticDayCount e (i + 1))

/-- The day of the Spring Festival. -/
def festival (year e : ℕ) : ℕ := dayNumber year ((e &&& 0x60) >>> 5) (e &&& 0x1F)

/-- The lunar date of the day `n`, counted from the Spring Festival of a year. -/
def countFrom (year e n : ℕ) : Option LunarDate := do
  let (k, d) ← Spans.locate (lunarLengths e) (n - festival year e)
  let month ← (lunarMonths (leapMonth e))[k]?
  some { year := year, month := month, day := d + 1 }

/-- The lunar date of a day: the lunar year begins at the last Spring Festival. -/
def lunarDate (year month day : ℕ) : Option LunarDate := do
  let e ← entry year
  if festival year e ≤ dayNumber year month day then countFrom year e (dayNumber year month day)
  else do
    let e ← entry (year - 1)
    countFrom (year - 1) e (dayNumber year month day)

/-! ### The table -/

/-- What is true of each entry of the table. -/
structure WellFormed (e : ℕ) : Prop where
  leapMonth_le : leapMonth e ≤ 11
  festivalDay_pos : 0 < e &&& 0x1F
  festivalMonth : (e &&& 0x60) >>> 5 = 1 ∨ (e &&& 0x60) >>> 5 = 2
  springNY_le : springNY e ≤ 60
  long : 366 ≤ springNY e + (lunarLengths e).sum

theorem wellFormed_iff (e : ℕ) :
  WellFormed e ↔ leapMonth e ≤ 11 ∧ 0 < e &&& 0x1F ∧
    ((e &&& 0x60) >>> 5 = 1 ∨ (e &&& 0x60) >>> 5 = 2) ∧ springNY e ≤ 60 ∧
    366 ≤ springNY e + (lunarLengths e).sum
  := ⟨fun h => ⟨h.1, h.2, h.3, h.4, h.5⟩, fun h => ⟨h.1, h.2.1, h.2.2.1, h.2.2.2.1, h.2.2.2.2⟩⟩

instance (e : ℕ) : Decidable (WellFormed e) := decidable_of_iff' _ (wellFormed_iff e)

theorem wellFormed_of_mem {e : ℕ} :
  e ∈ lunarCalendarTable → WellFormed e
  := by
  have hall : ∀ e ∈ lunarCalendarTable, WellFormed e := by decide +kernel
  apply hall

/-- The months of a lunar year fill the time to the next Spring Festival. -/
theorem table_consistent :
  ∀ i < 198, ∀ e ∈ lunarCalendarTable[i]?, ∀ e' ∈ lunarCalendarTable[i + 1]?,
    springNY e + (lunarLengths e).sum = yearLength (1901 + i) + springNY e'
  := by decide +kernel

/-! ### The loops -/

/-- The number of the month at the place `k`. -/
def numberAt (leap k : ℕ) : ℕ := if leap = 0 ∨ k < leap then k + 1 else k

/-- `flag` at the place `k`. -/
def flagAt (leap k : ℕ) : ℤ := if leap ≠ 0 ∧ k = leap then -1 else 0

theorem length_lunarMonths :
  ∀ leap < 12, (lunarMonths leap).length = if leap = 0 then 12 else 13
  := by decide +kernel

theorem getElem?_lunarMonths :
  ∀ leap < 12, ∀ k < (lunarMonths leap).length,
    (lunarMonths leap)[k]? = some ⟨numberAt leap k, decide (leap ≠ 0 ∧ k = leap)⟩
  := by decide +kernel

variable {e k n m fuel : ℕ}

theorem length_lunarLengths (e : ℕ) :
  (lunarLengths e).length = (lunarMonths (leapMonth e)).length
  := by
  rw [lunarLengths, List.length_map, List.length_range]

theorem getElem?_lunarLengths (hk : k < (lunarLengths e).length) :
  (lunarLengths e)[k]? = some (staticDayCount e (k + 1))
  := by
  rw [length_lunarLengths] at hk
  rw [lunarLengths, List.getElem?_map, List.getElem?_range hk, Option.map_some]

theorem staticDayCount_pos (e index : ℕ) :
  0 < staticDayCount e index
  := by
  unfold staticDayCount
  split_ifs <;> decide

/-- From one month to the next: both are ordinary, or one of them is the leap month. -/
theorem place_cases (leap k : ℕ) :
  (numberAt leap k ≠ leap ∧ numberAt leap (k + 1) = numberAt leap k + 1 ∧ flagAt leap k = 0 ∧
      flagAt leap (k + 1) = 0) ∨
    (numberAt leap k = leap ∧ numberAt leap (k + 1) = leap ∧ flagAt leap k = 0 ∧
      flagAt leap (k + 1) = -1) ∨
    (numberAt leap k = leap ∧ numberAt leap (k + 1) = leap + 1 ∧ flagAt leap k = -1 ∧
      flagAt leap (k + 1) = 0)
  := by
  unfold numberAt flagAt
  split_ifs <;> omega

/-- A round of the loop for a day after the Spring Festival goes to the next month. -/
theorem forwardLoop_step (hle : staticDayCount e (k + 1) ≤ n) :
  forwardLoop e (fuel + 1) n (k + 1) (numberAt (leapMonth e) k) (flagAt (leapMonth e) k) =
    forwardLoop e fuel (n - staticDayCount e (k + 1)) (k + 2) (numberAt (leapMonth e) (k + 1))
      (flagAt (leapMonth e) (k + 1))
  := by
  rw [forwardLoop, if_pos hle]
  rcases place_cases (leapMonth e) k with ⟨hne, hnext, hflag, hflag'⟩ | ⟨heq, hnext, hflag, hflag'⟩
    | ⟨heq, hnext, hflag, hflag'⟩
  · rw [if_neg hne, hnext, hflag, hflag']
  · rw [if_pos heq, hnext, hflag, hflag', heq]
    rfl
  · rw [if_pos heq, hnext, hflag, hflag', heq]
    rfl

/-- A round of the loop for a day before the Spring Festival goes to the previous month. -/
theorem backwardLoop_step (hlt : staticDayCount e (k + 1 + 1) < n) :
  backwardLoop e (fuel + 1) n (k + 1 + 1) (numberAt (leapMonth e) (k + 1))
      (flagAt (leapMonth e) (k + 1)) =
    backwardLoop e fuel (n - staticDayCount e (k + 1 + 1)) (k + 1) (numberAt (leapMonth e) k)
      (flagAt (leapMonth e) k)
  := by
  rw [backwardLoop, if_pos hlt]
  simp only [Nat.add_sub_cancel]
  rcases place_cases (leapMonth e) k with ⟨hne, hnext, hflag, hflag'⟩ | ⟨heq, hnext, hflag, hflag'⟩
    | ⟨heq, hnext, hflag, hflag'⟩
  · rw [hnext, hflag, hflag', if_pos rfl, Nat.add_sub_cancel, if_neg hne]
  · rw [hnext, hflag, hflag', heq, if_neg (by decide), if_pos rfl]
    rfl
  · rw [hnext, hflag, hflag', heq, if_pos rfl, Nat.add_sub_cancel, if_pos rfl]
    rfl

/-- The loop counts on from the start of the month at the place `k`. -/
theorem forwardLoop_spec (hlt : n < ((lunarLengths e).drop k).sum) (hfuel : n < fuel) :
  ∃ k' d, Spans.locate (lunarLengths e) (((lunarLengths e).take k).sum + n) = some (k', d) ∧
    forwardLoop e fuel n (k + 1) (numberAt (leapMonth e) k) (flagAt (leapMonth e) k) =
      some (numberAt (leapMonth e) k', d + 1)
  := by
  induction fuel generalizing k n with
  | zero => exact absurd hfuel (Nat.not_lt_zero n)
  | succ fuel ih =>
      have hk : k < (lunarLengths e).length := by
        by_contra hk
        rw [List.drop_eq_nil_of_le (Nat.not_lt.mp hk)] at hlt
        exact absurd hlt (Nat.not_lt_zero n)
      have hget := getElem?_lunarLengths hk
      by_cases hle : staticDayCount e (k + 1) ≤ n
      · have hpos := staticDayCount_pos e (k + 1)
        have htake := Spans.sum_take_succ hget
        have hdrop : ((lunarLengths e).drop k).sum =
            staticDayCount e (k + 1) + ((lunarLengths e).drop (k + 1)).sum := by
          rw [List.drop_eq_getElem?_toList_append, hget, List.sum_append]
          rfl
        rw [forwardLoop_step hle]
        obtain ⟨k', d, hlocate, hloop⟩ := @ih (k + 1) (n - staticDayCount e (k + 1)) (by omega)
          (by omega)
        refine ⟨k', d, ?_, hloop⟩
        rw [← hlocate, htake]
        congr 1
        omega
      · refine ⟨k, n, ?_, ?_⟩
        · apply Spans.locate_eq_some_iff.mpr
          exact ⟨_, hget, Nat.not_le.mp hle, rfl⟩
        · rw [forwardLoop, if_neg hle]

/-- The loop counts back from the end of the month at the place `k`. -/
theorem backwardLoop_spec (hk : k < (lunarLengths e).length) (hpos : 0 < m)
    (hn : n + m = ((lunarLengths e).take (k + 1)).sum) (hfuel : m < fuel) :
  ∃ k' d, Spans.locate (lunarLengths e) n = some (k', d) ∧
    backwardLoop e fuel m (k + 1) (numberAt (leapMonth e) k) (flagAt (leapMonth e) k) =
      some (numberAt (leapMonth e) k', d + 1)
  := by
  induction fuel generalizing k m with
  | zero => exact absurd hfuel (Nat.not_lt_zero m)
  | succ fuel ih =>
      have hget := getElem?_lunarLengths hk
      have hlength := staticDayCount_pos e (k + 1)
      by_cases hlt : staticDayCount e (k + 1) < m
      · rw [Spans.sum_take_succ hget] at hn
        cases k with
        | zero =>
            rw [List.take_zero, List.sum_nil] at hn
            omega
        | succ k =>
            rw [backwardLoop_step hlt]
            apply ih (Nat.lt_of_succ_lt hk)
            · apply Nat.sub_pos_of_lt hlt
            · omega
            · omega
      · have hle := Nat.not_lt.mp hlt
        refine ⟨k, _, Spans.locate_of_take_succ hget hpos hle hn, ?_⟩
        rw [backwardLoop, if_neg hlt]

end ChineseCalendar
