import Netlib.Lib.CInt
import Netlib.Lib.Gregorian

/-!
# `netlib::Date`

The two conversions between a Gregorian date and its Julian day number (`base/Date.cc`), with every
`int` operation checked for overflow, and the class that holds a day number (`base/Date.h`).
-/

namespace Netlib

open CInt Gregorian

structure YearMonthDay where
  year : Int
  month : Int
  day : Int
deriving DecidableEq

/-- Year, then month, then day. -/
def YearMonthDay.key (a : YearMonthDay) : Int ×ₗ Int ×ₗ Int := toLex (a.year, toLex (a.month, a.day))

/-- A valid date in the fields that the source has for it. -/
def YearMonthDay.ofCivil (a : CivilDate) : YearMonthDay := ⟨a.year, a.month, a.day⟩

def getJulianDayNumber (year month day : Int) : Option Int := do
  let a := (← int (14 - month)).tdiv 12
  let y ← int ((← int (year + 4800)) - a)
  let m ← int ((← int (month + (← int (12 * a)))) - 3)
  -- the summands of the returned expression, added from the left
  let days ← int (day + (← int ((← int (153 * m)) + 2)).tdiv 5)
  let days ← int (days + (← int (y * 365)))
  let days ← int (days + y.tdiv 4)
  let days ← int (days - y.tdiv 100)
  let days ← int (days + y.tdiv 400)
  int (days - 32045)

def getYearMonthDay (julianNumber : Int) : Option YearMonthDay := do
  let a ← int (julianNumber + 32044)
  let b := (← int ((← int (4 * a)) + 3)).tdiv 146097
  let c ← int (a - (← int (b * 146097)).tdiv 4)
  let d := (← int ((← int (4 * c)) + 3)).tdiv 1461
  let e ← int (c - (← int (d * 1461)).tdiv 4)
  let m := (← int ((← int (5 * e)) + 2)).tdiv 153
  let day ← int ((← int (e - (← int ((← int (153 * m)) + 2)).tdiv 5)) + 1)
  let month ← int ((← int (m + 3)) - (← int (12 * m.tdiv 10)))
  let year ← int ((← int ((← int ((← int (b * 100)) + d)) - 4800)) + m.tdiv 10)
  return ⟨year, month, day⟩

structure Date where
  julianDayNumber : Int
deriving DecidableEq

namespace Date

def cDaysPerWeek : Int := 7

/-- A static constant, computed when the program starts. -/
def cJulianDayOf1970_01_01 : Int := (getJulianDayNumber 1970 1 1).getD 0

def ofYearMonthDay (y m d : Int) : Option Date := (getJulianDayNumber y m d).map Date.mk

def yearMonthDay (d : Date) : Option YearMonthDay := getYearMonthDay d.julianDayNumber

def weekDay (d : Date) : Option Int := (int (d.julianDayNumber + 1)).map (·.tmod cDaysPerWeek)

/-- `operator<`. -/
def lt (x y : Date) : Bool := x.julianDayNumber < y.julianDayNumber

theorem cJulianDayOf1970_01_01_eq : cJulianDayOf1970_01_01 = 2440588 := by decide

end Date

/-! ## 1. The March-based calendar of the formulas

Both formulas count years from March on, so that the leap day is the last of its year. -/

/-- The Julian day number of a date: 0001-01-01 has the number 1721426. -/
def julian (a : CivilDate) : Int := a.dayNumber + 1721426

def marchYear (a : CivilDate) : Int := if a.month ≤ 2 then a.year + 4799 else a.year + 4800

def marchMonth (a : CivilDate) : Int := if a.month ≤ 2 then a.month + 9 else a.month - 3

/-- The day of the March-based year, counted from 0. -/
def marchDay (a : CivilDate) : Int := (153 * marchMonth a + 2) / 5 + a.day - 1

theorem daysBeforeMonth_march {y : Int} {m : Nat} (hlo : 3 ≤ m) (hhi : m ≤ 12) :
    (daysBeforeMonth y m : Int) = (153 * (m - 3) + 2) / 5 + daysInYear y - 306 := by
  have hyear : daysInYear y = 337 + daysInMonth y 2 := by
    simp only [daysInYear, daysInMonth]
    split <;> rfl
  rw [hyear]
  interval_cases m <;> simp only [daysBeforeMonth, daysInMonth] <;> omega

theorem julian_eq (a : CivilDate) :
    julian a + 32044 =
      marchDay a + 365 * marchYear a + marchYear a / 4 - marchYear a / 100 + marchYear a / 400 := by
  have hpos := a.month_pos
  have hle := a.month_le
  unfold julian CivilDate.dayNumber marchDay marchMonth marchYear
  by_cases hm : a.month ≤ 2
  · -- January and February belong to the year that began in March before them
    have hbefore : daysBeforeMonth a.year a.month = 31 * (a.month - 1) := by
      interval_cases a.month <;> rfl
    rw [if_pos hm, if_pos hm, hbefore, daysBeforeYear]
    omega
  · have hnext := daysBeforeYear_succ a.year
    rw [if_neg hm, if_neg hm, daysBeforeMonth_march (by omega) hle]
    rw [daysBeforeYear] at hnext
    omega

theorem marchMonth_bounds (a : CivilDate) : 0 ≤ marchMonth a ∧ marchMonth a ≤ 11 := by
  have hpos := a.month_pos
  have hle := a.month_le
  unfold marchMonth
  split <;> omega

/-- A day of the March-based year lies inside its month, with the leap day as a 30th of February to
spare. -/
theorem marchDay_bounds (a : CivilDate) :
    (153 * marchMonth a + 2) / 5 ≤ marchDay a ∧
      marchDay a < (153 * (marchMonth a + 1) + 2) / 5 := by
  have hpos := a.day_pos
  constructor
  · unfold marchDay
    omega
  · obtain ⟨y, m, d, hmpos, hmle, _, hday⟩ := a
    unfold marchDay marchMonth
    have hfeb : daysInMonth y 2 ≤ 29 := by
      rw [daysInMonth_two]
      split <;> omega
    interval_cases m <;> simp only [daysInMonth] at hday <;> simp only <;> omega

theorem marchDay_month (a : CivilDate) : (5 * marchDay a + 2) / 153 = marchMonth a := by
  have h := marchDay_bounds a
  omega

/-- The 366th day of the March-based year is a leap day. -/
theorem marchDay_leap (a : CivilDate) (h : 365 ≤ marchDay a) :
    marchDay a = 365 ∧ marchYear a % 4 = 3 ∧ (marchYear a % 100 ≠ 99 ∨ marchYear a % 400 = 399) := by
  have hb := marchDay_bounds a
  have hm := marchMonth_bounds a
  have hlast : marchMonth a = 11 := by omega
  have hfeb : a.month = 2 := by
    unfold marchMonth at hlast
    have := a.month_le
    split at hlast <;> omega
  have hday := a.day_le
  have hd : marchDay a = 337 + a.day - 1 := by
    unfold marchDay
    rw [hlast]
    norm_num
  rw [hfeb] at hday
  rw [daysInMonth_two] at hday
  unfold marchYear
  rw [if_pos (by omega)]
  by_cases hl : isLeap a.year = true
  · rw [if_pos hl] at hday
    have hrule := isLeap_iff.mp hl
    omega
  · rw [if_neg hl] at hday
    omega

theorem marchDay_le (a : CivilDate) : marchDay a ≤ 365 := by
  by_contra hgt
  have h := marchDay_leap a (by omega)
  omega

/-! ## 2. The conversions -/

/-- The first date whose March-based year is not negative. -/
def firstDate : CivilDate := CivilDate.first (-4800) 3 (by omega) (by omega)

theorem julian_firstDate : julian firstDate = -32044 := by decide

theorem marchYear_nonneg {a : CivilDate} (h : firstDate.key ≤ a.key) : 0 ≤ marchYear a := by
  have hnum := CivilDate.dayNumber_le_iff.mpr h
  have hfirst := julian_firstDate
  have heq := julian_eq a
  have hle := marchDay_le a
  unfold julian at hfirst heq
  omega

/-- The day numbers that both conversions are exact on. -/
def InRange (j : Int) : Prop := -32044 ≤ j ∧ 4 * (j + 32044) + 3 ≤ 2147483647

instance (j : Int) : Decidable (InRange j) := inferInstanceAs (Decidable (_ ∧ _))

/-- The formula without its checks, where no operation overflows. -/
theorem getJulianDayNumber_of {year month day a y m : Int} (hd : 1 ≤ day ∧ day ≤ 31)
    (ha : (14 - month).tdiv 12 = a) (ha0 : 0 ≤ a ∧ a ≤ 1)
    (hyear : year + 4800 - a = y) (hy : 0 ≤ y ∧ y ≤ 1500000)
    (hmonth : month + 12 * a - 3 = m) (hm : 0 ≤ m ∧ m ≤ 11) :
    getJulianDayNumber year month day =
      some (day + (153 * m + 2) / 5 + y * 365 + y / 4 - y / 100 + y / 400 - 32045) := by
  have hdays : (153 * m + 2).tdiv 5 = (153 * m + 2) / 5 := Int.tdiv_eq_ediv_of_nonneg (by omega)
  have h4 : y.tdiv 4 = y / 4 := Int.tdiv_eq_ediv_of_nonneg hy.1
  have h100 : y.tdiv 100 = y / 100 := Int.tdiv_eq_ediv_of_nonneg hy.1
  have h400 : y.tdiv 400 = y / 400 := Int.tdiv_eq_ediv_of_nonneg hy.1
  -- one `bind_int` for each operation of the source, in the order of the source
  unfold getJulianDayNumber
  apply bind_int (by omega)
  rw [ha]
  apply bind_int (by omega)
  apply bind_int (by omega)
  rw [hyear]
  apply bind_int (by omega)
  apply bind_int (by omega)
  apply bind_int (by omega)
  rw [hmonth]
  apply bind_int (by omega)
  apply bind_int (by omega)
  rw [hdays]
  apply bind_int (by omega)
  apply bind_int (by omega)
  apply bind_int (by omega)
  rw [h4]
  apply bind_int (by omega)
  rw [h100]
  apply bind_int (by omega)
  rw [h400]
  apply bind_int (by omega)
  apply int_eq (by omega)

theorem getYearMonthDay_of {j a b c d e m : Int}
    (ha : j + 32044 = a) (ha0 : 0 ≤ a ∧ 4 * a + 3 ≤ 2147483647)
    (hb : (4 * a + 3) / 146097 = b) (hc : a - b * 146097 / 4 = c)
    (hd : (4 * c + 3) / 1461 = d) (he : c - d * 1461 / 4 = e) (hm : (5 * e + 2) / 153 = m) :
    getYearMonthDay j =
      some ⟨b * 100 + d - 4800 + m / 10, m + 3 - 12 * (m / 10), e - (153 * m + 2) / 5 + 1⟩ := by
  -- no dividend is negative, so `/` truncates as the floor does
  have htb : (4 * a + 3).tdiv 146097 = b := by
    rw [Int.tdiv_eq_ediv_of_nonneg (by omega), hb]
  have htc : (b * 146097).tdiv 4 = b * 146097 / 4 := Int.tdiv_eq_ediv_of_nonneg (by omega)
  have htd : (4 * c + 3).tdiv 1461 = d := by
    rw [Int.tdiv_eq_ediv_of_nonneg (by omega), hd]
  have hte : (d * 1461).tdiv 4 = d * 1461 / 4 := Int.tdiv_eq_ediv_of_nonneg (by omega)
  have htm : (5 * e + 2).tdiv 153 = m := by
    rw [Int.tdiv_eq_ediv_of_nonneg (by omega), hm]
  have htday : (153 * m + 2).tdiv 5 = (153 * m + 2) / 5 := Int.tdiv_eq_ediv_of_nonneg (by omega)
  have ht10 : m.tdiv 10 = m / 10 := Int.tdiv_eq_ediv_of_nonneg (by omega)
  unfold getYearMonthDay
  apply bind_int (by omega)
  rw [ha]
  apply bind_int (by omega)
  apply bind_int (by omega)
  rw [htb]
  apply bind_int (by omega)
  rw [htc]
  apply bind_int (by omega)
  rw [hc]
  apply bind_int (by omega)
  apply bind_int (by omega)
  rw [htd]
  apply bind_int (by omega)
  rw [hte]
  apply bind_int (by omega)
  rw [he]
  apply bind_int (by omega)
  apply bind_int (by omega)
  rw [htm]
  apply bind_int (by omega)
  apply bind_int (by omega)
  rw [htday]
  apply bind_int (by omega)
  apply bind_int (by omega)
  apply bind_int (by omega)
  rw [ht10]
  apply bind_int (by omega)
  apply bind_int (by omega)
  apply bind_int (by omega)
  apply bind_int (by omega)
  apply bind_int (by omega)
  apply bind_int (by omega)
  rfl

theorem getJulianDayNumber_eq {a : CivilDate} (hfirst : firstDate.key ≤ a.key)
    (hrange : 4 * (julian a + 32044) + 3 ≤ 2147483647) :
    getJulianDayNumber a.year a.month a.day = some (julian a) := by
  have hy := marchYear_nonneg hfirst
  have heq := julian_eq a
  have hb := marchDay_bounds a
  have hle := a.month_le
  have hdpos := a.day_pos
  have hday : (a.day : Int) = marchDay a + 1 - (153 * marchMonth a + 2) / 5 := by
    unfold marchDay
    omega
  have ha : (14 - (a.month : Int)).tdiv 12 = if a.month ≤ 2 then 1 else 0 := by
    rw [Int.tdiv_eq_ediv_of_nonneg (by omega)]
    have := a.month_pos
    split <;> omega
  have hyear : a.year + 4800 - (if a.month ≤ 2 then 1 else 0) = marchYear a := by
    unfold marchYear
    split <;> omega
  have hmonth : (a.month : Int) + 12 * (if a.month ≤ 2 then 1 else 0) - 3 = marchMonth a := by
    unfold marchMonth
    split <;> omega
  rw [getJulianDayNumber_of (by omega) ha (by split <;> omega) hyear (by omega) hmonth
    (marchMonth_bounds a)]
  congr 1
  omega

/-- A year in its century: `b` centuries, `d` years. -/
theorem century_split (y : Int) :
    365 * y + y / 4 - y / 100 + y / 400 = y / 100 * 146097 / 4 + y % 100 * 1461 / 4 := by
  have h4 : y / 4 = 25 * (y / 100) + y % 100 / 4 := by omega
  have h400 : y / 400 = y / 100 / 4 := by omega
  have hb : y / 100 * 146097 / 4 = 36524 * (y / 100) + y / 100 / 4 := by omega
  have hd : y % 100 * 1461 / 4 = 365 * (y % 100) + y % 100 / 4 := by omega
  omega

/-- The day of the century: its 36525th exists only in a leap century. -/
theorem century_day (a : CivilDate) :
    marchYear a % 100 * 1461 / 4 + marchDay a ≤ 36523 ∨
      marchYear a % 100 * 1461 / 4 + marchDay a = 36524 ∧ marchYear a / 100 % 4 = 3 := by
  have hle := marchDay_le a
  by_cases hday : marchDay a ≤ 364
  · left
    omega
  · have hleap := marchDay_leap a (by omega)
    omega

theorem getYearMonthDay_eq {a : CivilDate} (hfirst : firstDate.key ≤ a.key)
    (hrange : 4 * (julian a + 32044) + 3 ≤ 2147483647) :
    getYearMonthDay (julian a) = some (.ofCivil a) := by
  have hy := marchYear_nonneg hfirst
  have hm := marchMonth_bounds a
  have hlo := marchDay_bounds a
  -- the day splits into centuries, the year of the century and the day of the year
  have hcent : julian a + 32044 = marchYear a / 100 * 146097 / 4 +
      (marchYear a % 100 * 1461 / 4 + marchDay a) := by
    have heq := julian_eq a
    have hsplit := century_split (marchYear a)
    omega
  have hb : (4 * (julian a + 32044) + 3) / 146097 = marchYear a / 100 := by
    have hday := century_day a
    rw [hcent]
    omega
  have hd : (4 * (marchYear a % 100 * 1461 / 4 + marchDay a) + 3) / 1461 = marchYear a % 100 := by
    have hle := marchDay_le a
    by_cases hday : marchDay a ≤ 364
    · omega
    -- the leap day, day 365 of a year before a leap year
    · have hleap := marchDay_leap a (by omega)
      omega
  rw [getYearMonthDay_of rfl (by omega) hb (by rw [hcent]; ring) hd (by ring) (marchDay_month a)]
  have hmonth : marchMonth a + 3 - 12 * (marchMonth a / 10) = a.month := by
    have hpos := a.month_pos
    have hle := a.month_le
    unfold marchMonth
    split <;> omega
  have hyear : marchYear a / 100 * 100 + marchYear a % 100 - 4800 + marchMonth a / 10 = a.year := by
    have hpos := a.month_pos
    have hle := a.month_le
    unfold marchMonth marchYear
    split <;> omega
  have hday : marchDay a - (153 * marchMonth a + 2) / 5 + 1 = a.day := by
    unfold marchDay
    omega
  rw [hmonth, hyear, hday, YearMonthDay.ofCivil]

/-- Every number of the range is the number of a date. -/
theorem exists_julian {j : Int} (h : InRange j) :
    ∃ a : CivilDate, firstDate.key ≤ a.key ∧ julian a = j := by
  have hfirst := julian_firstDate
  have hnum := CivilDate.dayNumber_ofDayNumber (j - 1721426)
  unfold julian at hfirst
  refine ⟨CivilDate.ofDayNumber (j - 1721426), ?_, ?_⟩
  · rw [← CivilDate.dayNumber_le_iff, hnum]
    unfold InRange at h
    omega
  · unfold julian
    omega

theorem julian_succ (a : CivilDate) : julian a.succ = julian a + 1 := by
  unfold julian
  rw [CivilDate.dayNumber_succ]
  ring

theorem julian_lt_iff {a b : CivilDate} : julian a < julian b ↔ a.key < b.key := by
  rw [← CivilDate.dayNumber_lt_iff]
  unfold julian
  omega

theorem YearMonthDay.key_lt_iff {a b : CivilDate} :
    (ofCivil a).key < (ofCivil b).key ↔ a.key < b.key := by
  simp only [key, ofCivil, CivilDate.key, Prod.Lex.toLex_lt_toLex, Nat.cast_lt, Nat.cast_inj]

/-- The dates that the conversions are exact on. -/
def Represented (a : CivilDate) : Prop := firstDate.key ≤ a.key ∧ InRange (julian a)

/-- **Julian day numbers are a bijection with the Gregorian dates.**  The number of a date is the one
the calendar gives it, so that successors have successive numbers and dates compare as their
fields do. -/
theorem julianDayNumber_bijection :
    (∀ j, InRange j → ∃ a : CivilDate, Represented a ∧ getYearMonthDay j = some (.ofCivil a) ∧
      getJulianDayNumber a.year a.month a.day = some j) ∧
    (∀ a : CivilDate, Represented a → ∃ j, InRange j ∧
      getJulianDayNumber a.year a.month a.day = some j ∧
      getYearMonthDay j = some (.ofCivil a)) ∧
    (∀ a : CivilDate, Represented a → Represented a.succ → ∃ j,
      getJulianDayNumber a.year a.month a.day = some j ∧
      getJulianDayNumber a.succ.year a.succ.month a.succ.day = some (j + 1)) ∧
    (∀ x y : Date, InRange x.julianDayNumber → InRange y.julianDayNumber → ∃ p q,
      x.yearMonthDay = some p ∧ y.yearMonthDay = some q ∧ (x.lt y = true ↔ p.key < q.key)) := by
  refine ⟨?_, ?_, ?_, ?_⟩
  · intro j hj
    obtain ⟨a, hfirst, rfl⟩ := exists_julian hj
    exact ⟨a, ⟨hfirst, hj⟩, getYearMonthDay_eq hfirst hj.2, getJulianDayNumber_eq hfirst hj.2⟩
  · intro a ha
    exact ⟨julian a, ha.2, getJulianDayNumber_eq ha.1 ha.2.2, getYearMonthDay_eq ha.1 ha.2.2⟩
  · intro a ha hsucc
    refine ⟨julian a, getJulianDayNumber_eq ha.1 ha.2.2, ?_⟩
    rw [getJulianDayNumber_eq hsucc.1 hsucc.2.2, julian_succ]
  · intro x y hx hy
    obtain ⟨a, hafirst, ha⟩ := exists_julian hx
    obtain ⟨b, hbfirst, hb⟩ := exists_julian hy
    refine ⟨.ofCivil a, .ofCivil b, ?_, ?_, ?_⟩
    · unfold Date.yearMonthDay
      rw [← ha]
      exact getYearMonthDay_eq hafirst (ha ▸ hx).2
    · unfold Date.yearMonthDay
      rw [← hb]
      exact getYearMonthDay_eq hbfirst (hb ▸ hy).2
    · rw [YearMonthDay.key_lt_iff, ← julian_lt_iff, ha, hb]
      unfold Date.lt
      exact decide_eq_true_iff

example : getYearMonthDay 2451604 = some ⟨2000, 2, 29⟩ := by decide

end Netlib
