import Mathlib

/-!
# The proleptic Gregorian calendar

Dates as the calendar defines them: months of fixed lengths, a leap day by the 4/100/400 rule, and
the day that follows a date.  `dayNumber` counts the days from 0001-01-01 to a date; it is a
bijection that takes the successor to the next number and the order of the dates to the order of the
numbers.  Nothing here is a conversion algorithm: an algorithm is right when it agrees with
`dayNumber`.
-/

namespace Gregorian

def isLeap (y : Int) : Bool := y % 4 = 0 ∧ (y % 100 ≠ 0 ∨ y % 400 = 0)

def daysInMonth (y : Int) : Nat → Nat
  | 2 => if isLeap y then 29 else 28
  | 4 | 6 | 9 | 11 => 30
  | 1 | 3 | 5 | 7 | 8 | 10 | 12 => 31
  | _ => 0

structure CivilDate where
  year : Int
  month : Nat
  day : Nat
  month_pos : 1 ≤ month
  month_le : month ≤ 12
  day_pos : 1 ≤ day
  day_le : day ≤ daysInMonth year month
deriving DecidableEq

namespace CivilDate

/-- The key that the dates are compared by: year, then month, then day. -/
def key (a : CivilDate) : Int ×ₗ Nat ×ₗ Nat := toLex (a.year, toLex (a.month, a.day))

end CivilDate

theorem isLeap_iff {y : Int} : isLeap y = true ↔ y % 4 = 0 ∧ (y % 100 ≠ 0 ∨ y % 400 = 0) := by
  simp [isLeap]

theorem daysInMonth_two (y : Int) : daysInMonth y 2 = if isLeap y then 29 else 28 := rfl

theorem one_le_daysInMonth {y : Int} {m : Nat} (hpos : 1 ≤ m) (hle : m ≤ 12) :
    1 ≤ daysInMonth y m := by
  interval_cases m <;> simp only [daysInMonth] <;> (try split) <;> omega

theorem daysInMonth_le (y : Int) (m : Nat) : daysInMonth y m ≤ 31 := by
  unfold daysInMonth
  split <;> (try split) <;> omega

theorem january_pos : 1 ≤ 1 := le_rfl

theorem january_le : 1 ≤ 12 := by decide

/-- The first day of a month. -/
def CivilDate.first (y : Int) (m : Nat) (hpos : 1 ≤ m) (hle : m ≤ 12) : CivilDate :=
  ⟨y, m, 1, hpos, hle, le_rfl, one_le_daysInMonth hpos hle⟩

/-- The calendar successor. -/
def CivilDate.succ (a : CivilDate) : CivilDate :=
  if hd : a.day + 1 ≤ daysInMonth a.year a.month then
    ⟨a.year, a.month, a.day + 1, a.month_pos, a.month_le, by omega, hd⟩
  else if hm : a.month + 1 ≤ 12 then CivilDate.first a.year (a.month + 1) (by omega) hm
  else CivilDate.first (a.year + 1) 1 le_rfl (by omega)

/-! ## 1. The number of a date -/

/-- The days from 0001-01-01 to January 1st of the year. -/
def daysBeforeYear (y : Int) : Int :=
  365 * (y - 1) + (y - 1) / 4 - (y - 1) / 100 + (y - 1) / 400

def daysInYear (y : Int) : Nat := if isLeap y then 366 else 365

/-- The days from January 1st to the first of the month. -/
def daysBeforeMonth (y : Int) : Nat → Nat
  | 0 => 0
  | m + 1 => daysBeforeMonth y m + daysInMonth y m

def CivilDate.dayNumber (a : CivilDate) : Int :=
  daysBeforeYear a.year + daysBeforeMonth a.year a.month + (a.day - 1)

theorem daysBeforeYear_succ (y : Int) :
    daysBeforeYear (y + 1) = daysBeforeYear y + daysInYear y := by
  unfold daysBeforeYear daysInYear
  by_cases hl : isLeap y = true
  · rw [if_pos hl]
    have h := isLeap_iff.mp hl
    omega
  · rw [if_neg hl]
    have h : ¬ (y % 4 = 0 ∧ (y % 100 ≠ 0 ∨ y % 400 = 0)) := fun hc ↦ hl (isLeap_iff.mpr hc)
    omega

theorem daysBeforeMonth_thirteen (y : Int) : daysBeforeMonth y 13 = daysInYear y := by
  simp only [daysBeforeMonth, daysInMonth, daysInYear]
  split <;> rfl

theorem daysBeforeMonth_le {y : Int} {m n : Nat} (h : m ≤ n) :
    daysBeforeMonth y m ≤ daysBeforeMonth y n := by
  induction n, h using Nat.le_induction with
  | base => exact le_rfl
  | succ n _ ih =>
    rw [daysBeforeMonth]
    omega

theorem daysBeforeYear_lt {y z : Int} (h : y < z) :
    daysBeforeYear y + daysInYear y ≤ daysBeforeYear z := by
  rw [← daysBeforeYear_succ]
  unfold daysBeforeYear
  omega

/-- A date lies inside its month. -/
theorem CivilDate.dayNumber_bounds (a : CivilDate) :
    daysBeforeYear a.year + daysBeforeMonth a.year a.month ≤ a.dayNumber ∧
      a.dayNumber < daysBeforeYear a.year + daysBeforeMonth a.year (a.month + 1) := by
  have hpos := a.day_pos
  have hle := a.day_le
  unfold dayNumber
  rw [daysBeforeMonth]
  omega

/-- A date lies inside its year. -/
theorem CivilDate.dayNumber_year (a : CivilDate) :
    daysBeforeYear a.year ≤ a.dayNumber ∧
      a.dayNumber < daysBeforeYear a.year + daysInYear a.year := by
  have h := a.dayNumber_bounds
  have hle : daysBeforeMonth a.year (a.month + 1) ≤ daysBeforeMonth a.year 13 := by
    apply daysBeforeMonth_le
    have := a.month_le
    omega
  rw [daysBeforeMonth_thirteen] at hle
  omega

/-! ## 2. The successor and the order -/

/-- **The successor of a date has the next number.** -/
theorem CivilDate.dayNumber_succ (a : CivilDate) : a.succ.dayNumber = a.dayNumber + 1 := by
  have hpos := a.day_pos
  have hle := a.day_le
  unfold succ
  split
  · simp only [dayNumber]
    omega
  · split
    · -- the last day of a month other than December
      simp only [dayNumber, first, daysBeforeMonth]
      omega
    · -- December 31st
      have hm : a.month = 12 := by
        have := a.month_le
        omega
      have hyear : daysBeforeMonth a.year 12 + daysInMonth a.year 12 = daysInYear a.year :=
        daysBeforeMonth_thirteen a.year
      have hfirst : daysBeforeMonth (a.year + 1) 1 = 0 := rfl
      rw [hm] at hle
      simp only [dayNumber, first, daysBeforeYear_succ, hfirst, hm] at *
      omega

theorem CivilDate.dayNumber_iterate_succ (a : CivilDate) (n : Nat) :
    (succ^[n] a).dayNumber = a.dayNumber + n := by
  induction n with
  | zero => simp
  | succ n ih =>
    rw [Function.iterate_succ_apply', dayNumber_succ, ih]
    push_cast
    ring

theorem CivilDate.dayNumber_lt {a b : CivilDate} (h : a.key < b.key) :
    a.dayNumber < b.dayNumber := by
  unfold key at h
  rw [Prod.Lex.toLex_lt_toLex] at h
  -- by the first field in which they differ
  rcases h with hy | ⟨hy, h⟩
  · have hsep : daysBeforeYear a.year + daysInYear a.year ≤ daysBeforeYear b.year :=
      daysBeforeYear_lt hy
    have ha := a.dayNumber_year
    have hb := b.dayNumber_year
    omega
  · simp only at hy h
    rw [Prod.Lex.toLex_lt_toLex] at h
    rcases h with hm | ⟨hm, hd⟩
    · have hsep : daysBeforeMonth b.year (a.month + 1) ≤ daysBeforeMonth b.year b.month :=
        daysBeforeMonth_le (Nat.succ_le_of_lt hm)
      have ha := a.dayNumber_bounds
      have hb := b.dayNumber_bounds
      rw [hy] at ha
      omega
    · simp only at hm hd
      simp only [dayNumber, hy, hm]
      omega

theorem CivilDate.ext_key {a b : CivilDate} (h : a.key = b.key) : a = b := by
  cases a
  cases b
  simpa [key] using h

/-- **The numbers are in the order of the dates.** -/
theorem CivilDate.dayNumber_lt_iff {a b : CivilDate} :
    a.dayNumber < b.dayNumber ↔ a.key < b.key := by
  constructor
  · intro h
    rcases lt_trichotomy a.key b.key with hlt | heq | hgt
    · exact hlt
    · rw [ext_key heq] at h
      omega
    · have := dayNumber_lt hgt
      omega
  · exact dayNumber_lt

theorem CivilDate.dayNumber_le_iff {a b : CivilDate} :
    a.dayNumber ≤ b.dayNumber ↔ a.key ≤ b.key := by
  rw [← not_lt, ← not_lt, dayNumber_lt_iff]

theorem CivilDate.dayNumber_inj {a b : CivilDate} (h : a.dayNumber = b.dayNumber) : a = b := by
  rcases lt_trichotomy a.key b.key with hlt | heq | hgt
  · have := dayNumber_lt hlt
    omega
  · exact ext_key heq
  · have := dayNumber_lt hgt
    omega

/-! ## 3. Days apart -/

/-- The date `b` is `n` days after `a`: stepping through the calendar from the earlier of the two
reaches the other. -/
def CivilDate.IsAfter (b : CivilDate) (n : Int) (a : CivilDate) : Prop :=
  succ^[n.toNat] a = succ^[(-n).toNat] b

theorem CivilDate.isAfter_iff {a b : CivilDate} {n : Int} :
    b.IsAfter n a ↔ b.dayNumber = a.dayNumber + n := by
  unfold IsAfter
  constructor
  · intro h
    have hnum := congrArg dayNumber h
    rw [dayNumber_iterate_succ, dayNumber_iterate_succ] at hnum
    omega
  · intro h
    apply dayNumber_inj
    rw [dayNumber_iterate_succ, dayNumber_iterate_succ]
    omega

/-! ## 4. The date of a number

The calendar repeats after 400 years, which have 146097 days. -/

theorem isLeap_add (y k : Int) : isLeap (y + 400 * k) = isLeap y := by
  rw [Bool.eq_iff_iff, isLeap_iff, isLeap_iff]
  omega

theorem daysInMonth_add (y k : Int) (m : Nat) :
    daysInMonth (y + 400 * k) m = daysInMonth y m := by
  unfold daysInMonth
  rw [isLeap_add]

theorem daysBeforeMonth_add (y k : Int) (m : Nat) :
    daysBeforeMonth (y + 400 * k) m = daysBeforeMonth y m := by
  induction m with
  | zero => rfl
  | succ m ih => rw [daysBeforeMonth, daysBeforeMonth, ih, daysInMonth_add]

/-- The same day of the calendar, `k` cycles later. -/
def CivilDate.addCycles (a : CivilDate) (k : Int) : CivilDate where
  year := a.year + 400 * k
  month := a.month
  day := a.day
  month_pos := a.month_pos
  month_le := a.month_le
  day_pos := a.day_pos
  day_le := by
    rw [daysInMonth_add]
    exact a.day_le

theorem CivilDate.dayNumber_addCycles (a : CivilDate) (k : Int) :
    (a.addCycles k).dayNumber = a.dayNumber + 146097 * k := by
  simp only [addCycles, dayNumber, daysBeforeMonth_add, daysBeforeYear]
  omega

/-- Step from the first day of the cycle. -/
def CivilDate.ofDayNumber (n : Int) : CivilDate :=
  (succ^[(n % 146097).toNat] (first 1 1 le_rfl (by omega))).addCycles (n / 146097)

/-- **Every number is the number of a date.** -/
theorem CivilDate.dayNumber_ofDayNumber (n : Int) : (ofDayNumber n).dayNumber = n := by
  have hfirst : (first 1 1 le_rfl (by omega)).dayNumber = 0 := by decide
  unfold ofDayNumber
  rw [dayNumber_addCycles, dayNumber_iterate_succ, hfirst]
  omega

end Gregorian
