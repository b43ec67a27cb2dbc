import Mathlib.Tactic.IntervalCases
import Orgrim.ChineseCalendar.Counting
import Orgrim.Theory.BitFields

/-!
# Calls of `LunarCalendar`

Both loops of the function come to the lunar date of a day (`Day.call_spec`).  But it tells the leap
month by its number alone, and what it writes to `LunarCalendarDay` joins what has been there
before.  So after any number of calls a call is correct exactly if neither does harm
(`correct_iff`).
-/

namespace ChineseCalendar

open Gregorian BitFields

/-- A day for which the table has an entry. -/
structure Day where
  date : Date
  first : dayNumber 1901 2 19 ≤ dayNumber date.year date.month date.day
  last : date.year ≤ 2099

/-- The lunar date of the day. -/
def Day.lunarDate (d : Day) : Option LunarDate :=
  ChineseCalendar.lunarDate d.date.year d.date.month d.date.day

/-- A call of the function for a day. -/
def Day.call (d : Day) (lunarCalendarDay : ℕ) : Option (ℕ × ℕ) :=
  lunarCalendar lunarCalendarDay d.date.year d.date.month d.date.day

/-- Calls for one day after the other: `LunarCalendarDay` is what they change. -/
def calls : Machine ℕ Day where
  step lunarCalendarDay d := (d.call lunarCalendarDay).map Prod.snd

/-- The day in `LunarCalendarDay` -/
def dayField (lunarCalendarDay : ℕ) : ℕ := lunarCalendarDay &&& 0x3F

/-- The month in `LunarCalendarDay` -/
def monthField (lunarCalendarDay : ℕ) : ℕ := (lunarCalendarDay &&& 0x3C0) >>> 6

/-- After calls for the days `ds`, the call for `d` gives the lunar date. -/
def Correct (ds : List Day) (d : Day) : Prop :=
  ∃ g r g' l, calls.final 0 ds = some g ∧ d.call g = some (r, g') ∧ d.lunarDate = some l ∧
    dayField g' = l.day ∧ monthField g' = l.month.number ∧
    r = if l.month.leap then 1 else 0

/-- The day and the month of a date have no bits that those of another one do not have. -/
def LunarDate.Within (l l' : LunarDate) : Prop :=
  l.day ||| l'.day = l'.day ∧ l.month.number ||| l'.month.number = l'.month.number

/-- The month is an ordinary one, and the leap month follows. -/
def LunarDate.BeforeLeap (l : LunarDate) : Prop :=
  l.month.leap = false ∧ ∃ e ∈ entry l.year, l.month.number = leapMonth e

/-! ### The days of the year -/

theorem getElem?_monthAdd (year : ℕ) {n : ℕ} (hn : n < 12) :
  ∃ add, monthAdd[n]? = some add ∧
    daysOfMonths year n = add + if IsLeap year ∧ 2 ≤ n then 1 else 0
  := by
  by_cases hleap : IsLeap year
  · interval_cases n <;> exact ⟨_, rfl, by simp [daysOfMonths, monthLength, hleap]⟩
  · interval_cases n <;> exact ⟨_, rfl, by simp [daysOfMonths, monthLength, hleap]⟩

theorem isLeap_iff {year : ℕ} (hfirst : 1901 ≤ year) (hlast : year ≤ 2099) :
  IsLeap year ↔ year % 4 = 0
  := by
  unfold IsLeap
  omega

theorem sunNY_eq (date : Date) (hfirst : 1901 ≤ date.year) (hlast : date.year ≤ 2099) :
  sunNY date.year date.month date.day = some (yearDay date.year date.month date.day)
  := by
  obtain ⟨n, hn⟩ := Nat.exists_eq_succ_of_ne_zero (Nat.ne_of_gt date.month_pos)
  have hlt : n < 12 := Nat.lt_of_succ_le (hn ▸ date.month_le)
  obtain ⟨add, hadd, hdays⟩ := getElem?_monthAdd date.year hlt
  have hpos := date.day_pos
  have hiff : 2 < n + 1 ↔ 2 ≤ n := Nat.lt_succ_iff
  rw [sunNY, yearDay, hn, Nat.succ_sub_one, hadd, hdays]
  simp only [Option.bind_eq_bind, Option.bind_some, Nat.succ_eq_add_one, hiff,
    isLeap_iff hfirst hlast]
  split_ifs
  · congr 1
    omega
  · rfl

theorem festival_eq {e : ℕ} (hwell : WellFormed e) (year : ℕ) :
  festival year e = daysOfYears year + springNY e
  := by
  have hpos := hwell.festivalDay_pos
  rw [festival, dayNumber, springNY, yearDay]
  congr 1
  rcases hwell.festivalMonth with hmonth | hmonth
  · rw [hmonth, if_pos rfl]
    apply congrArg (· - 1) (Nat.zero_add _)
  · rw [hmonth, if_neg (by decide)]
    have hdays : daysOfMonths year (2 - 1) = 31 := rfl
    omega

/-- The days are not before 1901, and those in 1901 not before its Spring Festival. -/
theorem Day.first_cases (d : Day) :
  1902 ≤ d.date.year ∨
    (d.date.year = 1901 ∧ 49 ≤ yearDay d.date.year d.date.month d.date.day)
  := by
  have hfirst := d.first
  have hlt := yearDay_lt d.date
  have hday : yearDay 1901 2 19 = 49 := rfl
  rw [dayNumber, dayNumber, hday] at hfirst
  rcases Nat.lt_trichotomy d.date.year 1901 with hbefore | heq | hafter
  · have hmono := daysOfYears_mono (Nat.succ_le_of_lt hbefore)
    rw [Nat.succ_eq_add_one, daysOfYears] at hmono
    omega
  · rw [heq] at hfirst ⊢
    apply Or.inr ⟨rfl, by omega⟩
  · apply Or.inl hafter

/-! ### The entries of the table -/

theorem exists_entry {year : ℕ} (hfirst : 1901 ≤ year) (hlast : year ≤ 2099) :
  ∃ e, entry year = some e ∧ WellFormed e
  := by
  have hlength : lunarCalendarTable.length = 199 := rfl
  have hlt : year - 1901 < lunarCalendarTable.length := by omega
  refine ⟨lunarCalendarTable[year - 1901], ?_, wellFormed_of_mem (List.getElem_mem hlt)⟩
  rw [entry, if_pos hfirst, List.getElem?_eq_getElem hlt]

theorem springNY_add_sum {year e e' : ℕ} (hentry : entry year = some e)
    (hentry' : entry (year + 1) = some e') :
  springNY e + (lunarLengths e).sum = yearLength year + springNY e'
  := by
  unfold entry at hentry hentry'
  split_ifs at hentry hentry' with hfirst
  · obtain ⟨i, rfl⟩ := Nat.exists_eq_add_of_le hfirst
    have hi : 1901 + i + 1 - 1901 = i + 1 := by omega
    rw [Nat.add_sub_cancel_left] at hentry
    rw [hi] at hentry'
    obtain ⟨hlt, -⟩ := List.getElem?_eq_some_iff.mp hentry'
    have hlength : lunarCalendarTable.length = 199 := rfl
    apply table_consistent i (by omega) e hentry e' hentry'

/-- What is true of a lunar date that has been counted. -/
structure LunarDate.CountedFrom (l : LunarDate) (year e : ℕ) : Prop where
  year : l.year = year
  leap : l.month.leap → l.month.number = leapMonth e
  number_le : l.month.number ≤ 13
  day_le : l.day ≤ 30

theorem countFrom_eq {year e n k d : ℕ} (hwell : WellFormed e)
    (hlocate : Spans.locate (lunarLengths e) (n - festival year e) = some (k, d)) :
  ∃ leap, countFrom year e n = some ⟨year, ⟨numberAt (leapMonth e) k, leap⟩, d + 1⟩ ∧
    LunarDate.CountedFrom ⟨year, ⟨numberAt (leapMonth e) k, leap⟩, d + 1⟩ year e
  := by
  obtain ⟨l, hl, hd, -⟩ := Spans.locate_eq_some_iff.mp hlocate
  obtain ⟨hk, hget⟩ := List.getElem?_eq_some_iff.mp hl
  rw [getElem?_lunarLengths hk, Option.some.injEq] at hl
  rw [length_lunarLengths] at hk
  have hleap := Nat.lt_succ_of_le hwell.leapMonth_le
  have hmonth := getElem?_lunarMonths _ hleap k hk
  have hlength := length_lunarMonths _ hleap
  refine ⟨decide (leapMonth e ≠ 0 ∧ k = leapMonth e), ?_, rfl, ?_, ?_, ?_⟩
  · simp only [countFrom, hlocate, hmonth, Option.bind_eq_bind, Option.bind_some]
  · intro htrue
    obtain ⟨hne, rfl⟩ := of_decide_eq_true htrue
    apply if_neg
    omega
  · dsimp only [numberAt]
    split_ifs at hlength ⊢ <;> omega
  · rw [← hl] at hd
    unfold staticDayCount at hd
    split_ifs at hd <;> dsimp only <;> omega

/-! ### One call -/

/-- The call gives the lunar date, but for the leap month: it only compares the number. -/
def Finds (date : Option LunarDate) (call : Option (ℕ × ℕ)) (g : ℕ) : Prop :=
  ∃ l e, date = some l ∧ entry l.year = some e ∧ l.CountedFrom l.year e ∧
    call = some (result g e (l.month.number, l.day))

variable {year e n : ℕ}

/-- The day is `n` days after the Spring Festival of the year. -/
theorem finds_of_forward (g : ℕ) {day : ℕ} (hentry : entry year = some e) (hwell : WellFormed e)
    (hday : day - festival year e = n) (hlt : n < (lunarLengths e).sum) :
  Finds (countFrom year e day)
    ((forwardLoop e (n + 1) n 1 1 0).bind (fun date => some (result g e date))) g
  := by
  obtain ⟨k, d, hlocate, hloop⟩ := @forwardLoop_spec e 0 n (n + 1) hlt (Nat.lt_succ_self n)
  have hnumber : numberAt (leapMonth e) 0 = 1 := if_pos (Nat.eq_zero_or_pos _)
  have hflag : flagAt (leapMonth e) 0 = 0 := if_neg (fun h => h.1 h.2.symm)
  rw [List.take_zero, List.sum_nil, Nat.zero_add, ← hday] at hlocate
  rw [hnumber, hflag] at hloop
  obtain ⟨leap, hcount, hcounted⟩ := countFrom_eq hwell hlocate
  refine ⟨_, e, hcount, hentry, hcounted, ?_⟩
  rw [hloop]
  rfl

/-- The day is `m` days before the end of the lunar year. -/
theorem finds_of_backward (g : ℕ) {day m : ℕ} (hentry : entry year = some e)
    (hwell : WellFormed e) (hpos : 0 < m)
    (hday : day - festival year e + m = (lunarLengths e).sum) :
  Finds (countFrom year e day)
    ((backwardLoop e (m + 1) m (if leapMonth e = 0 then 12 else 13) 12 0).bind
      (fun date => some (result g e date))) g
  := by
  have hleap := hwell.leapMonth_le
  have hlength := length_lunarMonths _ (Nat.lt_succ_of_le hleap)
  rw [← length_lunarLengths] at hlength
  obtain ⟨k, hk⟩ : ∃ k, (lunarLengths e).length = k + 1 := by
    apply Nat.exists_eq_succ_of_ne_zero
    split_ifs at hlength <;> omega
  rw [← List.take_length (l := lunarLengths e), hk] at hday
  obtain ⟨k', d, hlocate, hloop⟩ := backwardLoop_spec (hk ▸ Nat.lt_succ_self k) hpos hday
    (Nat.lt_succ_self m)
  have hnumber : numberAt (leapMonth e) k = 12 := by
    unfold numberAt
    split_ifs at hlength ⊢ <;> omega
  have hflag : flagAt (leapMonth e) k = 0 := by
    apply if_neg
    split_ifs at hlength <;> omega
  rw [hnumber, hflag, ← hk, hlength] at hloop
  obtain ⟨leap, hcount, hcounted⟩ := countFrom_eq hwell hlocate
  refine ⟨_, e, hcount, hentry, hcounted, ?_⟩
  rw [hloop]
  rfl

/-- A day before the Spring Festival of its year is not in 1901. -/
theorem Day.later (d : Day) (hentry : entry d.date.year = some e)
    (hspring : ¬ springNY e ≤ yearDay d.date.year d.date.month d.date.day) :
  1902 ≤ d.date.year
  := by
  rcases d.first_cases with hlater | ⟨hyear, hday⟩
  · exact hlater
  · rw [hyear] at hentry
    obtain rfl := Option.some.inj hentry
    exact absurd hday hspring

/-- Both loops come to the lunar date of the day. -/
theorem Day.call_spec (d : Day) (g : ℕ) :
  Finds d.lunarDate (d.call g) g
  := by
  have hfirst : 1901 ≤ d.date.year := by
    rcases d.first_cases with hlater | ⟨hyear, -⟩ <;> omega
  obtain ⟨e, hentry, hwell⟩ := exists_entry hfirst d.last
  have hsun := sunNY_eq d.date hfirst d.last
  have hlt := yearDay_lt d.date
  obtain ⟨-, hlength⟩ := yearLength_bounds d.date.year
  have hlong := hwell.long
  rw [Day.lunarDate, ChineseCalendar.lunarDate, Day.call, lunarCalendar, hentry, hsun, dayNumber]
  simp only [Option.bind_eq_bind, Option.bind_some, festival_eq hwell]
  obtain ⟨n, hn⟩ : ∃ n, yearDay d.date.year d.date.month d.date.day = n := ⟨_, rfl⟩
  rw [hn] at hlt ⊢
  by_cases hspring : springNY e ≤ n
  · rw [if_pos hspring, if_pos (Nat.add_le_add_left hspring _)]
    have hday : daysOfYears d.date.year + n - festival d.date.year e = n - springNY e := by
      rw [festival_eq hwell, Nat.add_sub_add_left]
    apply finds_of_forward g hentry hwell hday
    omega
  · have hlater := d.later hentry (hn ▸ hspring)
    obtain ⟨year, hyear⟩ : ∃ year, d.date.year = year + 1 :=
      Nat.exists_eq_succ_of_ne_zero (by omega)
    have hlast := d.last
    obtain ⟨e', hentry', hwell'⟩ := exists_entry (show 1901 ≤ year by omega) (by omega)
    have hsum := springNY_add_sum hentry' (hyear ▸ hentry)
    have hspring' := hwell'.springNY_le
    obtain ⟨hlength', -⟩ := yearLength_bounds year
    rw [if_neg hspring, if_neg (by omega), hyear, Nat.add_sub_cancel, hentry', Option.bind_some,
      Option.bind_some]
    apply finds_of_backward g hentry' hwell' (by omega)
    rw [festival_eq hwell', daysOfYears]
    omega

/-! ### All the calls -/

variable {l : LunarDate} {g : ℕ} {ds : List Day} {d : Day}

theorem dayField_result (g e : ℕ) (hcounted : l.CountedFrom year e) :
  dayField (result g e (l.month.number, l.day)).2 = dayField g ||| l.day
  := by
  have hday : l.day < 2 ^ 6 := Nat.lt_of_le_of_lt hcounted.day_le (by decide)
  have hfield : ∀ g, dayField g = field 0 6 g := fun _ => rfl
  have hresult : (result g e (l.month.number, l.day)).2 = g ||| l.day ||| l.month.number <<< 6 :=
    rfl
  rw [hfield, hfield, hresult, field_or, field_or, field_low_shiftLeft (Nat.le_refl 6),
    field_low hday, Nat.or_zero]

theorem monthField_result (g e : ℕ) (hcounted : l.CountedFrom year e) :
  monthField (result g e (l.month.number, l.day)).2 = monthField g ||| l.month.number
  := by
  have hday : l.day < 2 ^ 6 := Nat.lt_of_le_of_lt hcounted.day_le (by decide)
  have hmonth : l.month.number < 2 ^ 4 := Nat.lt_of_le_of_lt hcounted.number_le (by decide)
  have hfield : ∀ g, monthField g = field 6 4 g := fun _ => Nat.shiftRight_and_distrib
  have hresult : (result g e (l.month.number, l.day)).2 = g ||| l.day ||| l.month.number <<< 6 :=
    rfl
  rw [hfield, hfield, hresult, field_or, field_or, field_of_lt 4 hday, field_shiftLeft 6 hmonth,
    Nat.or_zero]

theorem step_eq {e : ℕ} (hcall : d.call g = some (result g e (l.month.number, l.day))) :
  calls.step g d = some (result g e (l.month.number, l.day)).2
  := congrArg (Option.map Prod.snd) hcall

/-- What the calls for the days `ds` leave in `LunarCalendarDay` is covered by a day, or by a month,
if each of them is. -/
theorem final_spec (g : ℕ) (ds : List Day) :
  ∃ g', calls.final g ds = some g' ∧
    (∀ x, dayField g' ||| x = x ↔
      dayField g ||| x = x ∧ ∀ d ∈ ds, ∀ l ∈ d.lunarDate, l.day ||| x = x) ∧
    ∀ x, monthField g' ||| x = x ↔
      monthField g ||| x = x ∧ ∀ d ∈ ds, ∀ l ∈ d.lunarDate, l.month.number ||| x = x
  := by
  induction ds generalizing g with
  | nil =>
      refine ⟨g, rfl, ?_, ?_⟩
      · intro x
        exact (and_iff_left (fun _ h => absurd h List.not_mem_nil)).symm
      · intro x
        exact (and_iff_left (fun _ h => absurd h List.not_mem_nil)).symm
  | cons d ds ih =>
      obtain ⟨l, e, hdate, -, hcounted, hcall⟩ := d.call_spec g
      obtain ⟨g', hfinal, hday, hmonth⟩ := ih (result g e (l.month.number, l.day)).2
      refine ⟨g', ?_, ?_, ?_⟩
      · rw [Machine.final_of_step (step_eq hcall), hfinal]
      · intro x
        rw [hday, dayField_result g e hcounted, or_or_eq_iff, List.forall_mem_cons, hdate,
          and_assoc]
        simp only [Option.mem_some_iff, forall_eq']
      · intro x
        rw [hmonth, monthField_result g e hcounted, or_or_eq_iff, List.forall_mem_cons, hdate,
          and_assoc]
        simp only [Option.mem_some_iff, forall_eq']

/-- The flag tells whether the month is a leap month, unless it is the ordinary month before one. -/
theorem flag_eq_iff {e : ℕ} (hcounted : l.CountedFrom l.year e)
    (hentry : entry l.year = some e) :
  (if l.month.number = leapMonth e then 1 else 0) = (if l.month.leap then 1 else 0) ↔
    ¬ l.BeforeLeap
  := by
  unfold LunarDate.BeforeLeap
  rw [hentry]
  simp only [Option.mem_some_iff, exists_eq_left']
  cases hleap : l.month.leap with
  | true =>
      rw [if_pos (hcounted.leap hleap)]
      simp only [if_true, Bool.true_eq_false, false_and, not_false_eq_true]
  | false =>
      by_cases heq : l.month.number = leapMonth e
      · simp only [heq, if_true, Bool.false_eq_true, if_false, one_ne_zero, and_self, not_true]
      · simp only [heq, if_false, Bool.false_eq_true, and_false, not_false_eq_true]

/-- What makes a call correct, given what the calls before have left. -/
theorem correct_iff_fields {e : ℕ} (hfinal : calls.final 0 ds = some g)
    (hdate : d.lunarDate = some l)
    (hcall : d.call g = some (result g e (l.month.number, l.day))) :
  Correct ds d ↔
    dayField (result g e (l.month.number, l.day)).2 = l.day ∧
      monthField (result g e (l.month.number, l.day)).2 = l.month.number ∧
      (if l.month.number = leapMonth e then 1 else 0) = (if l.month.leap then 1 else 0)
  := by
  constructor
  · rintro ⟨g₁, r, g', l', hfinal', hcall', hdate', hcorrect⟩
    obtain rfl := Option.some.inj (hfinal.symm.trans hfinal')
    obtain rfl := Option.some.inj (hdate.symm.trans hdate')
    obtain ⟨rfl, rfl⟩ := Prod.ext_iff.mp (Option.some.inj (hcall.symm.trans hcall'))
    exact hcorrect
  · intro hcorrect
    exact ⟨g, _, _, l, hfinal, hcall, hdate, hcorrect⟩

/-- After any calls: a call gives the lunar date of the day, and whether it is in a leap month, if
the calls before have left no other bits and it is not in the ordinary month before one. -/
theorem correct_iff (ds : List Day) (d : Day) :
  Correct ds d ↔
    ∀ l ∈ d.lunarDate, (∀ d' ∈ ds, ∀ l' ∈ d'.lunarDate, l'.Within l) ∧ ¬ l.BeforeLeap
  := by
  obtain ⟨g, hfinal, hday, hmonth⟩ := final_spec 0 ds
  obtain ⟨l, e, hdate, hentry, hcounted, hcall⟩ := d.call_spec g
  have hzero : ∀ x, 0 ||| x = x := Nat.zero_or
  rw [correct_iff_fields hfinal hdate hcall, dayField_result g e hcounted,
    monthField_result g e hcounted, hday, hmonth, flag_eq_iff hcounted hentry, hdate]
  simp only [Option.mem_some_iff, forall_eq', LunarDate.Within]
  constructor
  · rintro ⟨⟨-, hdays⟩, ⟨-, hmonths⟩, hleap⟩
    refine ⟨?_, hleap⟩
    intro d' hd' l' hl'
    exact ⟨hdays d' hd' l' hl', hmonths d' hd' l' hl'⟩
  · rintro ⟨hwithin, hleap⟩
    refine ⟨⟨hzero _, ?_⟩, ⟨hzero _, ?_⟩, hleap⟩
    · intro d' hd' l' hl'
      exact (hwithin d' hd' l' hl').1
    · intro d' hd' l' hl'
      exact (hwithin d' hd' l' hl').2

/-- A day in the ordinary fourth month of 2020, which a leap month follows. -/
def firstOfMay : Day where
  date := ⟨2020, 5, 1, by decide, by decide, by decide, by decide⟩
  first := by decide +kernel
  last := by decide

/-- The last day of a lunar year. -/
def newYearsEve : Day where
  date := ⟨2021, 2, 11, by decide, by decide, by decide, by decide⟩
  first := by decide +kernel
  last := by decide

/-- The Spring Festival on the next day. -/
def springFestival : Day where
  date := ⟨2021, 2, 12, by decide, by decide, by decide, by decide⟩
  first := by decide +kernel
  last := by decide

/-- The ordinary month is taken for the leap month, and the second of two calls gives what is left
of the date of the first one. -/
theorem not_correct :
  ¬ Correct [] firstOfMay ∧ ¬ Correct [newYearsEve] springFestival
  := by
  constructor
  · rintro ⟨g, r, g', l, hfinal, hcall, hdate, -, -, hflag⟩
    have hcall' : firstOfMay.call 0 = some (1, 265) := by decide +kernel
    have hdate' : firstOfMay.lunarDate = some ⟨2020, ⟨4, false⟩, 9⟩ := by decide +kernel
    obtain rfl := Option.some.inj hfinal
    obtain rfl := Option.some.inj (hdate'.symm.trans hdate)
    obtain ⟨rfl, -⟩ := Prod.ext_iff.mp (Option.some.inj (hcall'.symm.trans hcall))
    cases hflag
  · rintro ⟨g, r, g', l, hfinal, hcall, hdate, hday, -, -⟩
    have hfinal' : calls.final 0 [newYearsEve] = some 798 := by decide +kernel
    have hcall' : springFestival.call 798 = some (0, 863) := by decide +kernel
    have hdate' : springFestival.lunarDate = some ⟨2021, ⟨1, false⟩, 1⟩ := by decide +kernel
    obtain rfl := Option.some.inj (hfinal'.symm.trans hfinal)
    obtain rfl := Option.some.inj (hdate'.symm.trans hdate)
    obtain ⟨-, rfl⟩ := Prod.ext_iff.mp (Option.some.inj (hcall'.symm.trans hcall))
    cases hday

end ChineseCalendar
