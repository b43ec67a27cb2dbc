import Mathlib.Algebra.Group.Nat.Defs
import Mathlib.Data.Int.Notation
import Orgrim.Theory.Gregorian
import Orgrim.Theory.Machine
import Orgrim.Theory.Spans

/-!
# The Chinese calendar

`LunarCalendar` of `chinese_calendar.c`.  What reads the tables outside has no result.  The global
`LunarCalendarDay` is an argument of the function, and what it is afterwards is part of the result.
-/

namespace ChineseCalendar

/-! ### The program -/

/-- `LunarCalendarTable`, from 1901 to 2099 -/
def lunarCalendarTable : List ℕ := [
  0x04AE53, 0x0A5748, 0x5526BD, 0x0D2650, 0x0D9544, 0x46AAB9, 0x056A4D, 0x09AD42, 0x24AEB6, 0x04AE4A,
  0x6A4DBE, 0x0A4D52, 0x0D2546, 0x5D52BA, 0x0B544E, 0x0D6A43, 0x296D37, 0x095B4B, 0x749BC1, 0x049754,
  0x0A4B48, 0x5B25BC, 0x06A550, 0x06D445, 0x4ADAB8, 0x02B64D, 0x095742, 0x2497B7, 0x04974A, 0x664B3E,
  0x0D4A51, 0x0EA546, 0x56D4BA, 0x05AD4E, 0x02B644, 0x393738, 0x092E4B, 0x7C96BF, 0x0C9553, 0x0D4A48,
  0x6DA53B, 0x0B554F, 0x056A45, 0x4AADB9, 0x025D4D, 0x092D42, 0x2C95B6, 0x0A954A, 0x7B4ABD, 0x06CA51,
  0x0B5546, 0x555ABB, 0x04DA4E, 0x0A5B43, 0x352BB8, 0x052B4C, 0x8A953F, 0x0E9552, 0x06AA48, 0x6AD53C,
  0x0AB54F, 0x04B645, 0x4A5739, 0x0A574D, 0x052642, 0x3E9335, 0x0D9549, 0x75AABE, 0x056A51, 0x096D46,
  0x54AEBB, 0x04AD4F, 0x0A4D43, 0x4D26B7, 0x0D254B, 0x8D52BF, 0x0B5452, 0x0B6A47, 0x696D3C, 0x095B50,
  0x049B45, 0x4A4BB9, 0x0A4B4D, 0xAB25C2, 0x06A554, 0x06D449, 0x6ADA3D, 0x0AB651, 0x093746, 0x5497BB,
  0x04974F, 0x064B44, 0x36A537, 0x0EA54A, 0x86B2BF, 0x05AC53, 0x0AB647, 0x5936BC, 0x092E50, 0x0C9645,
  0x4D4AB8, 0x0D4A4C, 0x0DA541, 0x25AAB6, 0x056A49, 0x7AADBD, 0x025D52, 0x092D47, 0x5C95BA, 0x0A954E,
  0x0B4A43, 0x4B5537, 0x0AD54A, 0x955ABF, 0x04BA53, 0x0A5B48, 0x652BBC, 0x052B50, 0x0A9345, 0x474AB9,
  0x06AA4C, 0x0AD541, 0x24DAB6, 0x04B64A, 0x69573D, 0x0A4E51, 0x0D2646, 0x5E933A, 0x0D534D, 0x05AA43,
  0x36B537, 0x096D4B, 0xB4AEBF, 0x04AD53, 0x0A4D48, 0x6D25BC, 0x0D254F, 0x0D5244, 0x5DAA38, 0x0B5A4C,
  0x056D41, 0x24ADB6, 0x049B4A, 0x7A4BBE, 0x0A4B51, 0x0AA546, 0x5B52BA, 0x06D24E, 0x0ADA42, 0x355B37,
  0x09374B, 0x8497C1, 0x049753, 0x064B48, 0x66A53C, 0x0EA54F, 0x06B244, 0x4AB638, 0x0AAE4C, 0x092E42,
  0x3C9735, 0x0C9649, 0x7D4ABD, 0x0D4A51, 0x0DA545, 0x55AABA, 0x056A4E, 0x0A6D43, 0x452EB7, 0x052D4B,
  0x8A95BF, 0x0A9553, 0x0B4A47, 0x6B553B, 0x0AD54F, 0x055A45, 0x4A5D38, 0x0A5B4C, 0x052B42, 0x3A93B6,
  0x069349, 0x7729BD, 0x06AA51, 0x0AD546, 0x54DABA, 0x04B64E, 0x0A5743, 0x452738, 0x0D264A, 0x8E933E,
  0x0D5252, 0x0DAA47, 0x66B53B, 0x056D4F, 0x04AE45, 0x4A4EB9, 0x0A4D4C, 0x0D1541, 0x2D92B5]

/-- `MonthAdd` -/
def monthAdd : List ℕ := [0, 31, 59, 90, 120, 151, 181, 212, 243, 273, 304, 334]

/-- `LunarCalendarTable[year - 1901]` -/
def entry (year : ℕ) : Option ℕ :=
  if 1901 ≤ year then lunarCalendarTable[year - 1901]? else none

/-- `(LunarCalendarTable[year - 1901] & 0xF00000) >> 20` -/
def leapMonth (e : ℕ) : ℕ := (e &&& 0xF00000) >>> 20

/-- `StaticDayCount` for the month at `index` -/
def staticDayCount (e index : ℕ) : ℕ :=
  if e &&& (0x80000 >>> (index - 1)) = 0 then 29 else 30

/-- `Spring_NY` -/
def springNY (e : ℕ) : ℕ :=
  if (e &&& 0x0060) >>> 5 = 1 then (e &&& 0x001F) - 1 else (e &&& 0x001F) - 1 + 31

/-- `Sun_NY` -/
def sunNY (year month day : ℕ) : Option ℕ := do
  let add ← monthAdd[month - 1]?
  some (if year % 4 = 0 ∧ 2 < month then add + day - 1 + 1 else add + day - 1)

/-- The loop for a day after the Spring Festival, for a number of rounds that suffices: the month
and the day. -/
def forwardLoop (e : ℕ) : ℕ → ℕ → ℕ → ℕ → ℤ → Option (ℕ × ℕ)
  | 0, _, _, _, _ => none
  | fuel + 1, sunNY, index, month, flag =>
      if staticDayCount e index ≤ sunNY then
        let sunNY := sunNY - staticDayCount e index
        let index := index + 1
        if month = leapMonth e then
          let flag := ~~~flag
          let month := if flag = 0 then month + 1 else month
          forwardLoop e fuel sunNY index month flag
        else forwardLoop e fuel sunNY index (month + 1) flag
      else some (month, sunNY + 1)

/-- The loop for a day before the Spring Festival, for a number of rounds that suffices. -/
def backwardLoop (e : ℕ) : ℕ → ℕ → ℕ → ℕ → ℤ → Option (ℕ × ℕ)
  | 0, _, _, _, _ => none
  | fuel + 1, springNY, index, month, flag =>
      if staticDayCount e index < springNY then
        let springNY := springNY - staticDayCount e index
        let index := index - 1
        let month := if flag = 0 then month - 1 else month
        let flag := if month = leapMonth e then ~~~flag else flag
        backwardLoop e fuel springNY index month flag
      else some (month, staticDayCount e index - springNY + 1)

/-- What the function returns, and `LunarCalendarDay`, once the month and the day are known. -/
def result (lunarCalendarDay e : ℕ) (date : ℕ × ℕ) : ℕ × ℕ :=
  (if date.1 = leapMonth e then 1 else 0, lunarCalendarDay ||| date.2 ||| date.1 <<< 6)

/-- `LunarCalendar` -/
def lunarCalendar (lunarCalendarDay year month day : ℕ) : Option (ℕ × ℕ) := do
  let e ← entry year
  let sunNY ← sunNY year month day
  if springNY e ≤ sunNY then do
    let sunNY := sunNY - springNY e
    let date ← forwardLoop e (sunNY + 1) sunNY 1 1 0
    some (result lunarCalendarDay e date)
  else do
    let springNY := springNY e - sunNY
    let e ← entry (year - 1)
    let date ← backwardLoop e (springNY + 1) springNY (if leapMonth e = 0 then 12 else 13) 12 0
    some (result lunarCalendarDay e date)

end ChineseCalendar
