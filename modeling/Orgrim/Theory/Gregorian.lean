import Mathlib.Order.Monotone.Basic
import Mathlib.Tactic.Common

/-!
# The Gregorian calendar

Months and days are counted from 1, the days of a year (`yearDay`) and of all years (`dayNumber`)
from 0.
-/

namespace Gregorian

variable {year month day : ℕ}

/-- The year has a 29 February. -/
def IsLeap (year : ℕ) : Prop := year % 4 = 0 ∧ (year % 100 ≠ 0 ∨ year % 400 = 0)

instance (year : ℕ) : Decidable (IsLeap year) :=
  inferInstanceAs (Decidable (_ ∧ _))

def monthLength (year month : ℕ) : ℕ :=
  if month = 2 then if IsLeap year then 29 else 28
  else if month = 4 ∨ month = 6 ∨ month = 9 ∨ month = 11 then 30
  else 31

/-- The number of days in the first `n` months of a year. -/
def daysOfMonths (year : ℕ) : ℕ → ℕ
  | 0 => 0
  | n + 1 => daysOfMonths year n + monthLength year (n + 1)

def yearLength (year : ℕ) : ℕ := if IsLeap year then 366 else 365

/-- The number of days before a year. -/
def daysOfYears : ℕ → ℕ
  | 0 => 0
  | year + 1 => daysOfYears year + yearLength year

/-- How many days of the year are over on a day. -/
def yearDay (year month day : ℕ) : ℕ := daysOfMonths year (month - 1) + day - 1

/-- How many days are over. -/
def dayNumber (year month day : ℕ) : ℕ := daysOfYears year + yearDay year month day

/-- A date. -/
structure Date where
  year : ℕ
  month : ℕ
  day : ℕ
  month_pos : 0 < month
  month_le : month ≤ 12
  day_pos : 0 < day
  day_le : day ≤ monthLength year month

theorem daysOfMonths_mono (year : ℕ) :
  Monotone (daysOfMonths year)
  := monotone_nat_of_le_succ (fun _ => Nat.le_add_right _ _)

theorem daysOfYears_mono :
  Monotone daysOfYears
  := monotone_nat_of_le_succ (fun _ => Nat.le_add_right _ _)

theorem daysOfMonths_twelve (year : ℕ) :
  daysOfMonths year 12 = yearLength year
  := by
  by_cases hleap : IsLeap year
  · simp [yearLength, daysOfMonths, monthLength, hleap]
  · simp [yearLength, daysOfMonths, monthLength, hleap]

theorem yearDay_lt (date : Date) :
  yearDay date.year date.month date.day < yearLength date.year
  := by
  obtain ⟨n, hn⟩ := Nat.exists_eq_succ_of_ne_zero (Nat.ne_of_gt date.month_pos)
  have hmono := daysOfMonths_mono date.year date.month_le
  have hday := date.day_le
  have hpos := date.day_pos
  rw [hn] at hmono hday
  have hnext : daysOfMonths date.year (n + 1) =
      daysOfMonths date.year n + monthLength date.year (n + 1) := rfl
  rw [yearDay, ← daysOfMonths_twelve, hn, Nat.succ_sub_one]
  dsimp only [Nat.succ_eq_add_one] at hmono hday
  omega

theorem yearLength_bounds (year : ℕ) :
  365 ≤ yearLength year ∧ yearLength year ≤ 366
  := by
  unfold yearLength
  split_ifs <;> decide

end Gregorian
