import Netlib.Base.Date

/-!
# UTC times

`TimeZone::toUtcTime` and `TimeZone::fromUtcTime` (`base/TimeZone.cc`): broken-down UTC times by way
of `netlib::Date`.  `time_t` has 64 bits, and no value that these functions compute in it leaves its
range; the `int` operations are checked.
-/

namespace Netlib

open CInt Gregorian

/-- `struct tm`; `zone` is the text that `tm_zone` points to, if it points anywhere. -/
structure Tm where
  sec : Int
  min : Int
  hour : Int
  mday : Int
  mon : Int
  year : Int
  wday : Int
  yday : Int
  isdst : Int
  gmtoff : Int
  zone : Option (List UInt8)
deriving DecidableEq

/-- After `bzero`. -/
def Tm.zero : Tm := ⟨0, 0, 0, 0, 0, 0, 0, 0, 0, 0, none⟩

def cSecondsPerDay : Int := 24 * 60 * 60

/-- The minutes are an `unsigned`. -/
def fillHMS (seconds : Int) (t : Tm) : Tm :=
  let minutes := seconds.tdiv 60 % 4294967296
  { t with
    sec := seconds.tmod 60
    min := toInt32 (minutes % 60)
    hour := toInt32 (minutes / 60) }

/-- The seconds of the day and the days: quotient and remainder are truncated towards 0, so those of a
negative time are corrected. -/
def splitDay (secondsSinceEpoch : Int) : Option (Int × Int) := do
  let seconds := toInt32 (secondsSinceEpoch.tmod cSecondsPerDay)
  let days := toInt32 (secondsSinceEpoch.tdiv cSecondsPerDay)
  if seconds < 0 then
    return (← int (seconds + cSecondsPerDay), ← int (days - 1))
  return (seconds, days)

def fillDate (date : Date) (yday : Bool) (utc : Tm) : Option Tm := do
  let ymd ← date.yearMonthDay
  let year ← int (ymd.year - 1900)
  let mon ← int (ymd.month - 1)
  let wday ← date.weekDay
  let utc := { utc with year := year, mon := mon, mday := ymd.day, wday := wday }
  if yday then
    let startOfYear ← Date.ofYearMonthDay ymd.year 1 1
    let days ← int (date.julianDayNumber - startOfYear.julianDayNumber)
    return { utc with yday := days }
  return utc

def toUtcTime (secondsSinceEpoch : Int) (yday : Bool) : Option Tm := do
  let utc : Tm := { Tm.zero with zone := some [71, 77, 84] }
  let (seconds, days) ← splitDay secondsSinceEpoch
  let utc := fillHMS seconds utc
  let date : Date := ⟨← int (days + Date.cJulianDayOf1970_01_01)⟩
  fillDate date yday utc

def fromUtcFields (year month days hour minutes seconds : Int) : Option Int := do
  let date ← Date.ofYearMonthDay year month days
  let secondsInDay ← int ((← int ((← int (hour * 3600)) + (← int (minutes * 60)))) + seconds)
  let day ← int (date.julianDayNumber - Date.cJulianDayOf1970_01_01)
  return day * cSecondsPerDay + secondsInDay

def fromUtcTime (utc : Tm) : Option Int := do
  fromUtcFields (← int (utc.year + 1900)) (← int (utc.mon + 1)) utc.mday utc.hour utc.min utc.sec

/-! ## 1. The calendar's answer -/

def epoch : CivilDate := CivilDate.first 1970 1 january_pos january_le

def january1 (y : Int) : CivilDate := CivilDate.first y 1 january_pos january_le

/-- The seconds from the epoch to the first second of the year. -/
def startOfYear (y : Int) : Int := ((january1 y).dayNumber - epoch.dayNumber) * 86400

/-- What a broken-down UTC time says about the second `t`.  The epoch was a Thursday. -/
structure IsUtcTime (t : Int) (utc : Tm) : Prop where
  sec : 0 ≤ utc.sec ∧ utc.sec ≤ 59
  min : 0 ≤ utc.min ∧ utc.min ≤ 59
  hour : 0 ≤ utc.hour ∧ utc.hour ≤ 23
  date : ∃ a : CivilDate, a.IsAfter (t / 86400) epoch ∧
    utc.year + 1900 = a.year ∧ utc.mon + 1 = a.month ∧ utc.mday = a.day ∧
    a.IsAfter utc.yday (january1 a.year)
  wday : utc.wday = (t / 86400 + 4) % 7

/-! ## 2. What the code computes -/

/-- The times of the calendar's year -4799 and later whose day number the conversions are exact
on. -/
def InUtcRange (t : Int) : Prop :=
  startOfYear (-4799) ≤ t ∧ 4 * (t / 86400 + 2440588 + 32044) + 3 ≤ 2147483647

instance (t : Int) : Decidable (InUtcRange t) := inferInstanceAs (Decidable (_ ∧ _))

theorem startOfYear_eq : startOfYear (-4799) = -213608966400 := by decide

/-- The day of a time, found in the calendar. -/
theorem exists_civil {t : Int} (h : InUtcRange t) :
    ∃ a : CivilDate, Represented a ∧ julian a = t / 86400 + 2440588 := by
  unfold InUtcRange at h
  rw [startOfYear_eq] at h
  have hrange : InRange (t / 86400 + 2440588) := by
    unfold InRange
    omega
  obtain ⟨a, hfirst, hj⟩ := exists_julian hrange
  exact ⟨a, ⟨hfirst, hj ▸ hrange⟩, hj⟩

theorem isAfter_epoch {a : CivilDate} {n : Int} (h : julian a = n + 2440588) :
    a.IsAfter n epoch := by
  have hepoch : epoch.dayNumber = 719162 := by decide
  rw [CivilDate.isAfter_iff]
  unfold julian at h
  omega

theorem isAfter_january1 (a : CivilDate) :
    a.IsAfter (julian a - julian (january1 a.year)) (january1 a.year) := by
  rw [CivilDate.isAfter_iff]
  unfold julian
  omega

theorem january1_le (a : CivilDate) : julian (january1 a.year) ≤ julian a := by
  have hyear := a.dayNumber_year
  have hjan : (january1 a.year).dayNumber = daysBeforeYear a.year := by
    simp [january1, CivilDate.first, CivilDate.dayNumber, daysBeforeMonth, daysInMonth]
  unfold julian
  omega

/-- From the year -4799 on, January 1st of the year has a number too. -/
theorem represented_january1 {a : CivilDate} (ha : Represented a)
    (hyear : -4799 ≤ a.year) : Represented (january1 a.year) := by
  have hfirst : firstDate.key ≤ (january1 a.year).key := by
    unfold CivilDate.key firstDate january1 CivilDate.first
    rw [Prod.Lex.toLex_le_toLex]
    left
    show (-4800 : Int) < a.year
    omega
  have hle := january1_le a
  -- it lies between the first date and `a`, both of which have numbers
  have hlo := CivilDate.dayNumber_le_iff.mpr hfirst
  have h0 := julian_firstDate
  refine ⟨hfirst, ?_⟩
  have hrange := ha.2
  unfold InRange julian at *
  omega

theorem year_lower {t : Int} {a : CivilDate} (h : InUtcRange t)
    (hj : julian a = t / 86400 + 2440588) : -4799 ≤ a.year := by
  by_contra hlt
  have hsep := daysBeforeYear_lt (y := a.year) (z := -4799) (by omega)
  have hyear := a.dayNumber_year
  have hstart : daysBeforeYear (-4799) = -1753164 := by decide
  unfold InUtcRange at h
  rw [startOfYear_eq] at h
  unfold julian at hj
  omega

theorem year_upper {a : CivilDate} (ha : Represented a) : a.year ≤ 1500000 := by
  have heq := julian_eq a
  have hlo := marchDay_bounds a
  have hm := marchMonth_bounds a
  have hy : a.year ≤ marchYear a := by
    unfold marchYear
    split <;> omega
  have hrange := ha.2
  unfold InRange at hrange
  omega

/-- The correction of truncated quotient and remainder. -/
theorem floor_split (t : Int) :
    (t.tmod 86400 < 0 → t.tmod 86400 + 86400 = t % 86400 ∧ t.tdiv 86400 - 1 = t / 86400) ∧
      (¬ t.tmod 86400 < 0 → t.tmod 86400 = t % 86400 ∧ t.tdiv 86400 = t / 86400) := by
  have hsign : Int.sign 86400 = 1 := by decide
  rw [Int.tmod_eq_emod, Int.tdiv_eq_ediv]
  split <;> simp <;> omega

theorem fillHMS_eq {s : Int} (hlo : 0 ≤ s) (hhi : s < 86400) (t : Tm) :
    fillHMS s t = { t with sec := s % 60, min := s / 60 % 60, hour := s / 3600 } := by
  have hminutes : s.tdiv 60 % 4294967296 = s / 60 := by
    rw [Int.tdiv_eq_ediv_of_nonneg hlo]
    omega
  have hhour : s / 60 / 60 = s / 3600 := by omega
  unfold fillHMS
  simp only [hminutes]
  rw [Int.tmod_eq_emod_of_nonneg hlo, toInt32_eq (by omega), toInt32_eq (by omega), hhour]

/-- The broken-down time as the code computes it, from the date `a` of the day. -/
def utcTime (t : Int) (a : CivilDate) (yday : Bool) : Tm where
  sec := t % 86400 % 60
  min := t % 86400 / 60 % 60
  hour := t % 86400 / 3600
  mday := a.day
  mon := a.month - 1
  year := a.year - 1900
  wday := (julian a + 1).tmod 7
  yday := if yday then julian a - julian (january1 a.year) else 0
  isdst := 0
  gmtoff := 0
  zone := some [71, 77, 84]

theorem splitDay_eq {t : Int} (h : InUtcRange t) : splitDay t = some (t % 86400, t / 86400) := by
  have hsplit := floor_split t
  unfold InUtcRange at h
  rw [startOfYear_eq] at h
  unfold splitDay cSecondsPerDay
  norm_num only
  -- the branch of the source that borrows a day
  by_cases hneg : t.tmod 86400 < 0
  · obtain ⟨hs, hd⟩ := hsplit.1 hneg
    rw [toInt32_eq (by omega), toInt32_eq (by omega), if_pos hneg]
    apply bind_int (by omega)
    apply bind_int (by omega)
    rw [hs, hd]
    rfl
  · obtain ⟨hs, hd⟩ := hsplit.2 hneg
    rw [toInt32_eq (by omega), toInt32_eq (by omega), if_neg hneg, hs, hd]
    rfl

theorem fillDate_eq {a : CivilDate} (ha : Represented a) (hyear : -4799 ≤ a.year) (yday : Bool)
    (utc : Tm) (hzero : utc.yday = 0) :
    fillDate ⟨julian a⟩ yday utc = some { utc with
      year := a.year - 1900
      mon := a.month - 1
      mday := a.day
      wday := (julian a + 1).tmod 7
      yday := if yday then julian a - julian (january1 a.year) else 0 } := by
  have hupper := year_upper ha
  have hmle := a.month_le
  have hmpos := a.month_pos
  have hjle := january1_le a
  have hjan := represented_january1 ha hyear
  have hrange := ha.2
  have hjrange := hjan.2
  unfold InRange at hrange hjrange
  have hymd : Date.yearMonthDay ⟨julian a⟩ = some (.ofCivil a) := getYearMonthDay_eq ha.1 ha.2.2
  have hwday : Date.weekDay ⟨julian a⟩ = some ((julian a + 1).tmod 7) := by
    show (int (julian a + 1)).map _ = _
    rw [int_eq (by omega)]
    rfl
  have hstart : Date.ofYearMonthDay (YearMonthDay.ofCivil a).year 1 1 =
      some ⟨julian (january1 a.year)⟩ := by
    have hnum : getJulianDayNumber a.year 1 1 = some (julian (january1 a.year)) :=
      getJulianDayNumber_eq hjan.1 hjan.2.2
    unfold Date.ofYearMonthDay YearMonthDay.ofCivil
    rw [hnum]
    rfl
  unfold fillDate
  apply bind_of_eq_some hymd
  apply bind_int
  · show -2147483648 ≤ a.year - 1900 ∧ a.year - 1900 ≤ 2147483647
    omega
  apply bind_int
  · show -2147483648 ≤ (a.month : Int) - 1 ∧ (a.month : Int) - 1 ≤ 2147483647
    omega
  apply bind_of_eq_some hwday
  cases yday with
  | true =>
    rw [if_pos rfl, if_pos rfl]
    apply bind_of_eq_some hstart
    apply bind_int
    · show -2147483648 ≤ julian a - julian (january1 a.year) ∧
        julian a - julian (january1 a.year) ≤ 2147483647
      omega
    rfl
  | false =>
    rw [if_neg Bool.false_ne_true, if_neg Bool.false_ne_true, ← hzero]
    rfl

theorem toUtcTime_eq {t : Int} {a : CivilDate} (h : InUtcRange t) (ha : Represented a)
    (hj : julian a = t / 86400 + 2440588) (yday : Bool) :
    toUtcTime t yday = some (utcTime t a yday) := by
  have hrange := ha.2
  unfold InRange at hrange
  unfold toUtcTime
  rw [splitDay_eq h, Option.bind_eq_bind, Option.bind_some]
  simp only [Date.cJulianDayOf1970_01_01_eq]
  apply bind_int (by omega)
  rw [← hj, fillDate_eq ha (year_lower h hj), fillHMS_eq (by omega) (by omega)]
  · rfl
  · rfl

theorem fromUtcTime_eq {t : Int} {a : CivilDate} (ha : Represented a)
    (hj : julian a = t / 86400 + 2440588) (hyear : -4799 ≤ a.year) (yday : Bool) :
    fromUtcTime (utcTime t a yday) = some t := by
  have hupper := year_upper ha
  have hmle := a.month_le
  have hmpos := a.month_pos
  have hrange := ha.2
  unfold InRange at hrange
  have hnum := getJulianDayNumber_eq ha.1 ha.2.2
  unfold fromUtcTime utcTime
  apply bind_int (by simp only; omega)
  apply bind_int (by simp only; omega)
  unfold fromUtcFields Date.ofYearMonthDay
  simp only [sub_add_cancel, hnum, Option.map_some, Option.bind_eq_bind, Option.bind_some,
    Date.cJulianDayOf1970_01_01_eq]
  apply bind_int (by omega)
  apply bind_int (by omega)
  apply bind_int (by omega)
  apply bind_int (by omega)
  apply bind_int (by omega)
  unfold cSecondsPerDay
  show some _ = some t
  congr 1
  omega

/-! ## 3. The round trip -/

/-- A UTC time is converted to what the calendar says and back. -/
def UtcConverts (t : Int) : Prop :=
  (∃ utc, toUtcTime t true = some utc ∧ IsUtcTime t utc) ∧
    ∀ yday, ∃ utc, toUtcTime t yday = some utc ∧ fromUtcTime utc = some t

/-- Truncating the remainder by 7 is harmless from Julian day -1 on, and on Sundays. -/
theorem tmod_seven_iff (n : Int) :
    (n + 2440588 + 1).tmod 7 = (n + 4) % 7 ↔ -2440589 ≤ n ∨ (n + 4) % 7 = 0 := by
  rw [Int.tmod_eq_emod]
  split <;> simp <;> omega

theorem isUtcTime_iff {t : Int} {a : CivilDate} (hj : julian a = t / 86400 + 2440588) :
    IsUtcTime t (utcTime t a true) ↔ -2440589 ≤ t / 86400 ∨ (t / 86400 + 4) % 7 = 0 := by
  rw [← tmod_seven_iff, ← hj]
  constructor
  · intro h
    exact h.wday
  · intro h
    refine ⟨?_, ?_, ?_, ⟨a, isAfter_epoch hj, ?_, ?_, rfl, isAfter_january1 a⟩, h⟩
    · show 0 ≤ t % 86400 % 60 ∧ t % 86400 % 60 ≤ 59
      omega
    · show 0 ≤ t % 86400 / 60 % 60 ∧ t % 86400 / 60 % 60 ≤ 59
      omega
    · show 0 ≤ t % 86400 / 3600 ∧ t % 86400 / 3600 ≤ 23
      omega
    · exact sub_add_cancel a.year 1900
    · exact sub_add_cancel (a.month : Int) 1

/-- **UTC times are converted to the proleptic Gregorian calendar and back exactly when the weekday's
remainder is not truncated the wrong way.**  Before Julian day -1 the weekday is negative on every day
but Sunday. -/
theorem utcConverts_iff {t : Int} (h : InUtcRange t) :
    UtcConverts t ↔ -2440589 ≤ t / 86400 ∨ (t / 86400 + 4) % 7 = 0 := by
  -- the conversions agree with the calendar in all fields but the weekday
  obtain ⟨a, ha, hj⟩ := exists_civil h
  rw [← isUtcTime_iff hj]
  constructor
  · rintro ⟨⟨utc, hutc, his⟩, -⟩
    rw [toUtcTime_eq h ha hj, Option.some.injEq] at hutc
    rw [hutc]
    exact his
  · intro his
    refine ⟨⟨_, toUtcTime_eq h ha hj true, his⟩, fun yday ↦ ?_⟩
    exact ⟨_, toUtcTime_eq h ha hj yday, fromUtcTime_eq ha hj (year_lower h hj) yday⟩

/-- The first second of 2000, of the day before the epoch, and of a Sunday before Julian day -1. -/
theorem utcConverts_examples :
    UtcConverts 946684800 ∧ UtcConverts (-86400) ∧ UtcConverts (-2440596 * 86400) := by
  refine ⟨?_, ?_, ?_⟩ <;> rw [utcConverts_iff (by decide)] <;> decide

/-- The first second of November 22nd, -4713: a Saturday, reported as weekday -1. -/
theorem weekday_negative : ¬ ∀ t, InUtcRange t → UtcConverts t := by
  intro hall
  obtain ⟨⟨utc, hutc, his⟩, -⟩ := hall (-2440590 * 86400) (by decide)
  have hwday : (toUtcTime (-2440590 * 86400) true).map Tm.wday = some (-1) := by decide
  rw [hutc, Option.map_some, Option.some.injEq] at hwday
  have := his.wday
  omega

end Netlib
