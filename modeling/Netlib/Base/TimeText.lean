import Netlib.Lib.FixedWidth
import Netlib.Base.LogTime

/-!
# Dates and times as text

`Date::toIsoString` (`base/Date.cc`), `Time::toString` and `Time::toFormattedString` (`base/Time.cc`).
The fields of a text have fixed widths, so texts are ordered letter by letter as the dates and times
are that they show.
-/

namespace Netlib

open Gregorian FixedWidth

/-- What `snprintf` leaves in front of the NUL in an array of `size` bytes. -/
def printInto (size : Nat) (text : List UInt8) : List UInt8 := text.take (size - 1)

/-- `"%04d-%02d-%02d"`. -/
def Date.toIsoString (d : Date) : Option (List UInt8) :=
  d.yearMonthDay.map fun ymd ↦
    printInto 32
      (padZero 4 ymd.year ++ ascii "-" ++ padZero 2 ymd.month ++ ascii "-" ++ padZero 2 ymd.day)

namespace Time

variable (c : Calendar)

/-- `"%ld.%06ld"`. -/
def toString (microSecondsSinceEpoch : Int) : List UInt8 :=
  let seconds := microSecondsSinceEpoch.tdiv cMicroSecondsPerSecond
  let microseconds := microSecondsSinceEpoch.tmod cMicroSecondsPerSecond
  printInto 32 (decimal seconds ++ ascii "." ++ padZero 6 microseconds)

/-- `"%4d%2d%2d %2d:%2d:%2d"`, with `".%6d"` behind it when the microseconds are shown. -/
def toFormattedString (showMicroSeconds : Bool) (microSecondsSinceEpoch : Int) : List UInt8 :=
  let seconds := microSecondsSinceEpoch.tdiv cMicroSecondsPerSecond
  let t := c.gmtime_r seconds
  let text := padBlank 4 (t.year + 1900) ++ padBlank 2 (t.mon + 1) ++ padBlank 2 t.mday ++
    ascii " " ++ padBlank 2 t.hour ++ ascii ":" ++ padBlank 2 t.min ++ ascii ":" ++ padBlank 2 t.sec
  if showMicroSeconds then
    let microSeconds := microSecondsSinceEpoch.tmod cMicroSecondsPerSecond
    printInto 64 (text ++ ascii "." ++ padBlank 6 microSeconds)
  else printInto 64 text

end Time

/-! ## 1. The fields -/

theorem decimal_natCast (n : Nat) : decimal n = Numeral.write decimalDigits n := by
  rw [decimal, if_neg (by omega), List.nil_append, Int.natAbs_natCast]

theorem decimalDigits_sorted : decimalDigits.Pairwise (· < ·) := by decide

theorem decimalDigits_tail : decimalDigits.tail = [49, 50, 51, 52, 53, 54, 55, 56, 57] := by decide

/-- `%0wd` and `%wd`, for the numbers that fit the width. -/
theorem leftpad_field {pad : UInt8} (hpad : ∀ c ∈ decimalDigits.tail, pad < c) {width : Nat}
    (hwidth : 0 < width) :
    Field {v : Int | 0 ≤ v ∧ v < 10 ^ width} width fun v ↦ (decimal v).leftpad width pad := by
  have hfield := (padded_field (by decide) decimalDigits_sorted decimalDigits_nodup hpad width
    hwidth).comp Int.toNat (fun v (hv : v ∈ {v : Int | 0 ≤ v ∧ v < 10 ^ width}) ↦ ?_)
    fun v hv w _ hvw ↦ ?_
  · refine hfield.congr fun v hv ↦ ?_
    rw [← Int.toNat_of_nonneg hv.1, decimal_natCast, Int.toNat_natCast, padded]
  · rw [decimalDigits_length]
    show v.toNat < 10 ^ width
    zify
    rw [Int.toNat_of_nonneg hv.1]
    exact hv.2
  · have hv0 := hv.1
    omega

theorem padZero_field (width : Nat) (hwidth : 0 < width) :
    Field {v : Int | 0 ≤ v ∧ v < 10 ^ width} width (padZero width) := by
  have hpad : ∀ c ∈ decimalDigits.tail, (48 : UInt8) < c := by simp [decimalDigits_tail]
  refine (leftpad_field hpad hwidth).congr fun v hv ↦ ?_
  rw [padZero, if_neg (by have := hv.1; omega)]

theorem padBlank_field (width : Nat) (hwidth : 0 < width) :
    Field {v : Int | 0 ≤ v ∧ v < 10 ^ width} width (padBlank width) := by
  have hpad : ∀ c ∈ decimalDigits.tail, (32 : UInt8) < c := by simp [decimalDigits_tail]
  exact leftpad_field hpad hwidth

section

variable {domain : Set Int} {width : Nat} {text two : Int → List UInt8}

/-- Year, month and day of a day number. -/
theorem date_field (hyear : Field domain width text)
    (htwo : Field {v : Int | 0 ≤ v ∧ v < 10 ^ 2} 2 two) (dash : List UInt8) :
    Field {n : Int | (CivilDate.ofDayNumber n).year ∈ domain}
      (width + dash.length + (2 + dash.length + 2)) fun n ↦
      text (CivilDate.ofDayNumber n).year ++ dash ++
        (two (CivilDate.ofDayNumber n).month ++ dash ++ two (CivilDate.ofDayNumber n).day) := by
  -- month and day, by their order in a year
  have hmonthDay : Field {p : Nat ×ₗ Nat | (ofLex p).1 < 100 ∧ (ofLex p).2 < 100}
      (2 + dash.length + 2) fun p ↦ two (ofLex p).1 ++ dash ++ two (ofLex p).2 := by
    refine (htwo.append dash).lex htwo (fun p : Nat ×ₗ Nat ↦ ((ofLex p).1 : Int))
      (fun p ↦ ((ofLex p).2 : Int))
      (fun p hp ↦ ⟨by omega, by exact_mod_cast hp.1⟩)
      (fun p hp ↦ ⟨by omega, by exact_mod_cast hp.2⟩) fun p _ q _ hlt ↦ ?_
    rcases Prod.Lex.lt_iff.mp hlt with h | ⟨h, h'⟩
    · exact Or.inl (by exact_mod_cast h)
    · exact Or.inr ⟨by exact_mod_cast h, by exact_mod_cast h'⟩
  refine (hyear.append dash).lex hmonthDay (fun n ↦ (CivilDate.ofDayNumber n).year)
    (fun n ↦ toLex ((CivilDate.ofDayNumber n).month, (CivilDate.ofDayNumber n).day))
    (fun n hn ↦ hn) (fun n _ ↦ ?_) fun m _ n _ hlt ↦ ?_
  · have hmonth := (CivilDate.ofDayNumber n).month_le
    have hday := (CivilDate.ofDayNumber n).day_le
    have hdays := daysInMonth_le (CivilDate.ofDayNumber n).year (CivilDate.ofDayNumber n).month
    exact ⟨by simpa using by omega, by simpa using by omega⟩
  · have hkey : (CivilDate.ofDayNumber m).key < (CivilDate.ofDayNumber n).key := by
      rw [← CivilDate.dayNumber_lt_iff, CivilDate.dayNumber_ofDayNumber,
        CivilDate.dayNumber_ofDayNumber]
      exact hlt
    exact Prod.Lex.toLex_lt_toLex.mp hkey

/-- A date with the time of the day behind it. -/
theorem clock_field (hdate : Field domain width text)
    (htwo : Field {v : Int | 0 ≤ v ∧ v < 10 ^ 2} 2 two) (gap colon : List UInt8) :
    Field {t : Int | t / 60 / 60 / 24 ∈ domain}
      (width + gap.length + 2 + colon.length + 2 + colon.length + 2) fun t ↦
      text (t / 60 / 60 / 24) ++ gap ++ two (t / 60 / 60 % 24) ++ colon ++ two (t / 60 % 60) ++
        colon ++ two (t % 60) := by
  have hbelow {m : Int} (hm : m ≤ 100) : Field {r : Int | 0 ≤ r ∧ r < m} 2 two :=
    htwo.mono fun r hr ↦ ⟨hr.1, lt_of_lt_of_le hr.2 hm⟩
  have hhour := (hdate.append gap).divMod (m := 24) (by decide) (hbelow (by decide))
  have hmin := (hhour.append colon).divMod (m := 60) (by decide) (hbelow (by decide))
  exact (hmin.append colon).divMod (m := 60) (by decide) (hbelow (by decide))

end

/-! ## 2. Years -/

theorem january1_dayNumber (y : Int) : (january1 y).dayNumber = daysBeforeYear y := by
  simp [january1, CivilDate.first, CivilDate.dayNumber, daysBeforeMonth, daysInMonth]

theorem daysBeforeYear_mono {y z : Int} (h : y ≤ z) : daysBeforeYear y ≤ daysBeforeYear z := by
  rcases h.lt_or_eq with hlt | rfl
  · have hle := daysBeforeYear_lt hlt
    omega
  · exact le_rfl

/-- A date is of the year `y` or later when it is not in front of its first of January. -/
theorem le_year_iff {a : CivilDate} {y : Int} :
    y ≤ a.year ↔ (january1 y).dayNumber ≤ a.dayNumber := by
  have hyear := a.dayNumber_year
  rw [january1_dayNumber]
  refine ⟨fun h ↦ (daysBeforeYear_mono h).trans hyear.1, fun h ↦ ?_⟩
  by_contra hlt
  have hle := daysBeforeYear_lt (y := a.year) (z := y) (by omega)
  omega

/-- The year that `gmtime_r` finds. -/
theorem le_gmtime_year_iff {t y : Int} :
    y ≤ (gregorian.gmtime_r t).year + 1900 ↔ startOfYear y ≤ t := by
  have hdate : (gregorian.gmtime_r t).year + 1900 =
      (CivilDate.ofDayNumber (t / 86400 + epoch.dayNumber)).year := by
    simp only [gregorian]
    omega
  rw [hdate, le_year_iff, CivilDate.dayNumber_ofDayNumber]
  unfold startOfYear
  omega

/-- The second is in one of the years from `y` up to `z`. -/
theorem gmtime_year_mem {t y z : Int} (hlo : startOfYear y ≤ t) (hhi : t < startOfYear z) :
    y ≤ (gregorian.gmtime_r t).year + 1900 ∧ (gregorian.gmtime_r t).year + 1900 < z := by
  refine ⟨le_gmtime_year_iff.mpr hlo, ?_⟩
  by_contra hge
  have hle := (le_gmtime_year_iff (t := t) (y := z)).mp (by omega)
  omega

/-- The fields that `gmtime_r` finds, one behind the other. -/
theorem gmtime_field {domain : Set Int} {width : Nat} {text two : Int → List UInt8}
    (hyear : Field domain width text) (htwo : Field {v : Int | 0 ≤ v ∧ v < 10 ^ 2} 2 two)
    (dash gap colon : List UInt8) :
    Field {t : Int | (gregorian.gmtime_r t).year + 1900 ∈ domain}
      (width + dash.length + (2 + dash.length + 2) + gap.length + 2 + colon.length + 2 +
        colon.length + 2) fun t ↦
      text ((gregorian.gmtime_r t).year + 1900) ++ dash ++
        (two ((gregorian.gmtime_r t).mon + 1) ++ dash ++ two (gregorian.gmtime_r t).mday) ++ gap ++
        two (gregorian.gmtime_r t).hour ++ colon ++ two (gregorian.gmtime_r t).min ++ colon ++
        two (gregorian.gmtime_r t).sec := by
  have hdate := (date_field hyear htwo dash).comp (· + epoch.dayNumber)
    (fun d (hd : d ∈ {d : Int | (CivilDate.ofDayNumber (d + epoch.dayNumber)).year ∈ domain}) ↦ hd)
    fun d _ e _ hlt ↦ by omega
  have hclock := clock_field hdate htwo gap colon
  have hhour (t : Int) : t / 60 / 60 = t / 3600 := by omega
  have hday (t : Int) : t / 3600 / 24 = t / 86400 := by omega
  simp only [hhour, hday, Set.mem_ofPred_eq] at hclock
  simp only [gregorian, Int.sub_add_cancel]
  exact hclock

/-! ## 3. Dates -/

/-- The dates of the years from 0 to 9999. -/
def Date.FourDigits (d : Date) : Prop :=
  julian (january1 0) ≤ d.julianDayNumber ∧ d.julianDayNumber < julian (january1 10000)

namespace Date

variable {x y : Date}

/-- The text of a date in the calendar. -/
def isoText (n : Int) : List UInt8 :=
  padZero 4 (CivilDate.ofDayNumber n).year ++ ascii "-" ++
    (padZero 2 (CivilDate.ofDayNumber n).month ++ ascii "-" ++
      padZero 2 (CivilDate.ofDayNumber n).day)

theorem isoText_field : Field {n : Int | (january1 0).dayNumber ≤ n ∧
    n < (january1 10000).dayNumber} 10 isoText := by
  refine (date_field (padZero_field 4 (by decide)) (padZero_field 2 (by decide))
    (ascii "-")).mono fun n hn ↦ ?_
  have hnum := CivilDate.dayNumber_ofDayNumber n
  show 0 ≤ (CivilDate.ofDayNumber n).year ∧ (CivilDate.ofDayNumber n).year < 10000
  refine ⟨le_year_iff.mpr (by rw [hnum]; exact hn.1), ?_⟩
  by_contra hge
  have hle := (le_year_iff (a := CivilDate.ofDayNumber n) (y := 10000)).mp (by omega)
  have hlt := hn.2
  omega

theorem mem_isoText (hx : x.FourDigits) : x.julianDayNumber - 1721426 ∈
    {n : Int | (january1 0).dayNumber ≤ n ∧ n < (january1 10000).dayNumber} := by
  obtain ⟨hlo, hhi⟩ := hx
  unfold julian at hlo hhi
  exact ⟨by omega, by omega⟩

theorem toIsoString_eq (hx : x.FourDigits) :
    x.toIsoString = some (isoText (x.julianDayNumber - 1721426)) := by
  have hfour := hx
  have hlo : julian (january1 0) = 1721060 := by decide
  have hhi : julian (january1 10000) = 5373485 := by decide
  rw [FourDigits, hlo, hhi] at hfour
  have hrange : InRange x.julianDayNumber := by
    unfold InRange
    omega
  obtain ⟨a, hfirst, ha⟩ := exists_julian hrange
  have hymd : x.yearMonthDay = some (.ofCivil a) := by
    unfold yearMonthDay
    rw [← ha]
    exact getYearMonthDay_eq hfirst (ha ▸ hrange).2
  have hcivil : CivilDate.ofDayNumber (x.julianDayNumber - 1721426) = a := by
    apply CivilDate.dayNumber_inj
    rw [CivilDate.dayNumber_ofDayNumber, ← ha, julian]
    omega
  have hlen := isoText_field.length _ (mem_isoText hx)
  rw [toIsoString, hymd, Option.map_some, printInto, List.take_of_length_le]
  · rw [isoText, hcivil, ← List.append_assoc, ← List.append_assoc, YearMonthDay.ofCivil]
  · rw [isoText, hcivil, ← List.append_assoc, ← List.append_assoc] at hlen
    exact hlen.le.trans (by decide)

/-- **Dates in text.**  The texts of the dates of four-digit years have ten characters, are ordered as
`operator<` orders the dates, and are equal only for equal dates. -/
theorem toIsoString_order (hx : x.FourDigits) (hy : y.FourDigits) :
    ∃ s t, x.toIsoString = some s ∧ y.toIsoString = some t ∧ s.length = 10 ∧
      (s < t ↔ x.lt y = true) ∧ (s = t ↔ x = y) := by
  refine ⟨_, _, toIsoString_eq hx, toIsoString_eq hy,
    isoText_field.length _ (mem_isoText hx), ?_, ?_⟩
  · rw [isoText_field.lt_iff (mem_isoText hx) (mem_isoText hy), lt, decide_eq_true_iff]
    omega
  · rw [isoText_field.eq_iff (mem_isoText hx) (mem_isoText hy), Date.mk.injEq]
    omega

/-- A leap day and the day behind it. -/
theorem toIsoString_order_leapDay :
    ∃ s t, toIsoString ⟨2451604⟩ = some s ∧ toIsoString ⟨2451605⟩ = some t ∧ s.length = 10 ∧
      (s < t ↔ lt ⟨2451604⟩ ⟨2451605⟩ = true) ∧ (s = t ↔ Date.mk 2451604 = Date.mk 2451605) :=
  toIsoString_order ⟨by decide, by decide⟩ ⟨by decide, by decide⟩

end Date

/-! ## 4. Times -/

namespace Time

/-- The times since the epoch in years of four digits. -/
def Shown (us : Int) : Prop := 0 ≤ us ∧ us < startOfYear 10000 * cMicroSecondsPerSecond

/-- The date and time of a second. -/
def secondText (t : Int) : List UInt8 :=
  padBlank 4 ((gregorian.gmtime_r t).year + 1900) ++ padBlank 2 ((gregorian.gmtime_r t).mon + 1) ++
    padBlank 2 (gregorian.gmtime_r t).mday ++ ascii " " ++ padBlank 2 (gregorian.gmtime_r t).hour ++
    ascii ":" ++ padBlank 2 (gregorian.gmtime_r t).min ++ ascii ":" ++
    padBlank 2 (gregorian.gmtime_r t).sec

theorem secondText_field :
    Field {t : Int | 0 ≤ (gregorian.gmtime_r t).year + 1900 ∧
      (gregorian.gmtime_r t).year + 1900 < 10 ^ 4} 17 secondText := by
  have hfield := gmtime_field (padBlank_field 4 (by decide)) (padBlank_field 2 (by decide)) []
    (ascii " ") (ascii ":")
  refine hfield.congr fun t _ ↦ ?_
  simp only [secondText, List.append_nil, List.append_assoc]

/-- With the microseconds. -/
def fullText (us : Int) : List UInt8 :=
  secondText (us / 1000000) ++ ascii "." ++ padBlank 6 (us % 1000000)

theorem fullText_field :
    Field {us : Int | us / 1000000 ∈ {t : Int | 0 ≤ (gregorian.gmtime_r t).year + 1900 ∧
      (gregorian.gmtime_r t).year + 1900 < 10 ^ 4}} 24 fullText :=
  (secondText_field.append (ascii ".")).divMod (by decide) (padBlank_field 6 (by decide))

variable {x y : Int}

theorem mem_secondText (hx : Shown x) : x / 1000000 ∈
    {t : Int | 0 ≤ (gregorian.gmtime_r t).year + 1900 ∧
      (gregorian.gmtime_r t).year + 1900 < 10 ^ 4} := by
  obtain ⟨hlo, hhi⟩ := hx
  have hepoch : startOfYear 1970 = 0 := by decide
  have hlast : startOfYear 10000 = 253402300800 := by decide
  rw [hlast, cMicroSecondsPerSecond] at hhi
  have hyear := gmtime_year_mem (t := x / 1000000) (y := 1970) (z := 10000) (by omega) (by omega)
  exact ⟨by omega, by omega⟩

theorem toFormattedString_eq (hx : Shown x) (showMicroSeconds : Bool) :
    toFormattedString gregorian showMicroSeconds x =
      if showMicroSeconds then fullText x else secondText (x / 1000000) := by
  have hfull := fullText_field.length x (mem_secondText hx)
  have hsecond := secondText_field.length _ (mem_secondText hx)
  rw [toFormattedString, tdiv_cMicroSecondsPerSecond hx.1, tmod_cMicroSecondsPerSecond hx.1]
  cases showMicroSeconds with
  | true =>
    simp only [if_true, printInto]
    exact List.take_of_length_le (le_trans (le_of_eq hfull) (by norm_num))
  | false =>
    simp only [Bool.false_eq_true, if_false, printInto]
    exact List.take_of_length_le (le_trans (le_of_eq hsecond) (by norm_num))

/-- **Times in text.**  From the epoch up to the year 10000 the texts have 24 characters and are
ordered as `operator<` orders the times; without microseconds they have 17 and are ordered as the
seconds are. -/
theorem toFormattedString_order (hx : Shown x) (hy : Shown y) :
    ((toFormattedString gregorian true x).length = 24 ∧
      (toFormattedString gregorian true x < toFormattedString gregorian true y ↔ x < y) ∧
      (toFormattedString gregorian true x = toFormattedString gregorian true y ↔ x = y)) ∧
    ((toFormattedString gregorian false x).length = 17 ∧
      (toFormattedString gregorian false x < toFormattedString gregorian false y ↔
        x.tdiv cMicroSecondsPerSecond < y.tdiv cMicroSecondsPerSecond) ∧
      (toFormattedString gregorian false x = toFormattedString gregorian false y ↔
        x.tdiv cMicroSecondsPerSecond = y.tdiv cMicroSecondsPerSecond)) := by
  have hx' := mem_secondText hx
  have hy' := mem_secondText hy
  rw [tdiv_cMicroSecondsPerSecond hx.1, tdiv_cMicroSecondsPerSecond hy.1]
  simp only [toFormattedString_eq hx, toFormattedString_eq hy, if_true, Bool.false_eq_true,
    if_false]
  exact ⟨⟨fullText_field.length x hx', fullText_field.lt_iff hx' hy', fullText_field.eq_iff hx' hy'⟩,
    secondText_field.length _ hx', secondText_field.lt_iff hx' hy',
    secondText_field.eq_iff hx' hy'⟩

/-- Two times in the second behind the epoch. -/
theorem toFormattedString_order_firstSecond :
    ((toFormattedString gregorian true 1000000).length = 24 ∧
      (toFormattedString gregorian true 1000000 < toFormattedString gregorian true 1500000 ↔
        (1000000 : Int) < 1500000) ∧
      (toFormattedString gregorian true 1000000 = toFormattedString gregorian true 1500000 ↔
        (1000000 : Int) = 1500000)) ∧
    ((toFormattedString gregorian false 1000000).length = 17 ∧
      (toFormattedString gregorian false 1000000 < toFormattedString gregorian false 1500000 ↔
        Int.tdiv 1000000 cMicroSecondsPerSecond < Int.tdiv 1500000 cMicroSecondsPerSecond) ∧
      (toFormattedString gregorian false 1000000 = toFormattedString gregorian false 1500000 ↔
        Int.tdiv 1000000 cMicroSecondsPerSecond = Int.tdiv 1500000 cMicroSecondsPerSecond)) :=
  toFormattedString_order ⟨by decide, by decide⟩ ⟨by decide, by decide⟩

end Time

theorem decimal_injective {v w : Int} (h : decimal v = decimal w) : v = w := by
  have hv := (decimal_isDecimal v).read_eq
  rw [h, (decimal_isDecimal w).read_eq] at hv
  exact (Option.some.inj hv).symm

theorem mem_of_mem_decimal {v : Int} {c : UInt8} (h : c ∈ decimal v) :
    c = 45 ∨ c ∈ decimalDigits := by
  unfold decimal at h
  rcases List.mem_append.mp h with hsign | hdigit
  · split at hsign
    · exact Or.inl (List.mem_singleton.mp hsign)
    · exact absurd hsign List.not_mem_nil
  · exact Or.inr (Numeral.mem_of_mem_write hdigit)

theorem mem_of_mem_leftpad {v : Int} {width : Nat} {c : UInt8}
    (h : c ∈ (decimal v).leftpad width 48) : c = 45 ∨ c ∈ decimalDigits := by
  rw [List.leftpad, List.mem_append] at h
  rcases h with hzero | hdecimal
  · rw [List.eq_of_mem_replicate hzero]
    exact Or.inr (by decide)
  · exact mem_of_mem_decimal hdecimal

theorem mem_of_mem_padZero {v : Int} {width : Nat} {c : UInt8} (h : c ∈ padZero width v) :
    c = 45 ∨ c ∈ decimalDigits := by
  unfold padZero at h
  split at h
  · rcases List.mem_append.mp h with hsign | hrest
    · exact Or.inl (List.mem_singleton.mp hsign)
    · exact mem_of_mem_leftpad hrest
  · exact mem_of_mem_leftpad h

/-- The digits of a number that is not negative, with zeros in front. -/
theorem leftpad_decimal {v : Int} (hv : 0 ≤ v) (width : Nat) :
    (decimal v).leftpad width 48 = padded decimalDigits 48 width v.toNat := by
  rw [← Int.toNat_of_nonneg hv, decimal_natCast, Int.toNat_natCast, padded]

theorem leftpad_decimal_injective {v w : Int} (hv : 0 ≤ v) (hw : 0 ≤ w) {width : Nat}
    (h : (decimal v).leftpad width 48 = (decimal w).leftpad width 48) : v = w := by
  rw [leftpad_decimal hv, leftpad_decimal hw] at h
  have hread (n : Nat) : Numeral.read decimalDigits (padded decimalDigits 48 width n) = some n :=
    read_padded (by decide) decimalDigits_nodup (by decide) width n
  have heq := hread v.toNat
  rw [h, hread, Option.some.injEq] at heq
  omega

theorem minus_not_mem_leftpad {v : Int} (hv : 0 ≤ v) (width : Nat) :
    (45 : UInt8) ∉ (decimal v).leftpad width 48 := by
  rw [leftpad_decimal hv, padded, List.leftpad, List.mem_append, not_or]
  refine ⟨fun hmem ↦ ?_, fun hmem ↦ minus_not_mem (Numeral.mem_of_mem_write hmem)⟩
  exact absurd (List.eq_of_mem_replicate hmem) (by decide)

theorem padZero_injective {v w : Int} {width : Nat} (h : padZero width v = padZero width w) :
    v = w := by
  have hminus (u : Int) (hu : u < 0) :
      padZero width u = 45 :: (decimal (-u)).leftpad (width - 1) 48 := by
    rw [padZero, if_pos hu]
    rfl
  have hplus (u : Int) (hu : 0 ≤ u) : padZero width u = (decimal u).leftpad width 48 := by
    rw [padZero, if_neg (by omega)]
  rcases lt_or_ge v 0 with hv | hv <;> rcases lt_or_ge w 0 with hw | hw
  · rw [hminus v hv, hminus w hw, List.cons.injEq] at h
    have hneg := leftpad_decimal_injective (by omega) (by omega) h.2
    omega
  -- only a negative number has a sign
  · rw [hminus v hv, hplus w hw] at h
    exact absurd (h ▸ List.mem_cons_self) (minus_not_mem_leftpad hw width)
  · rw [hplus v hv, hminus w hw] at h
    exact absurd (h ▸ List.mem_cons_self) (minus_not_mem_leftpad hv width)
  · rw [hplus v hv, hplus w hw] at h
    exact leftpad_decimal_injective hv hw h

namespace Time

theorem padZero_micros_length (us : Int) :
    (padZero 6 (us.tmod cMicroSecondsPerSecond)).length ≤ 7 := by
  have hlo := Int.lt_tmod_of_pos us (show 0 < cMicroSecondsPerSecond by decide)
  have hhi := Int.tmod_lt_of_pos us (show 0 < cMicroSecondsPerSecond by decide)
  have hlen {v : Int} (hv : 0 ≤ v) (hlt : v < 10 ^ 6) : (decimal v).length ≤ 6 :=
    decimal_length_le_of_lt (by decide) hv hlt
  unfold cMicroSecondsPerSecond at *
  unfold padZero List.leftpad
  split
  · have hle := hlen (v := -us.tmod (1000 * 1000)) (by omega) (by omega)
    simp only [List.length_append, List.length_replicate, show (ascii "-").length = 1 from rfl]
    omega
  · have hle := hlen (v := us.tmod (1000 * 1000)) (by omega) (by omega)
    simp only [List.length_append, List.length_replicate]
    omega

/-- The text of a 64-bit time fits its array. -/
theorem toString_fits (us : Int64) : (toString us.toInt).length < 32 ∧ toString us.toInt =
    decimal (us.toInt.tdiv cMicroSecondsPerSecond) ++
      46 :: padZero 6 (us.toInt.tmod cMicroSecondsPerSecond) := by
  have hlo := us.le_toInt
  have hhi := us.toInt_lt
  have hmicros := padZero_micros_length us.toInt
  have hdiv : -2 ^ 63 ≤ us.toInt.tdiv cMicroSecondsPerSecond ∧
      us.toInt.tdiv cMicroSecondsPerSecond < 2 ^ 64 := by
    have hmul := Int.mul_tdiv_add_tmod us.toInt cMicroSecondsPerSecond
    have hlower := Int.lt_tmod_of_pos us.toInt (show 0 < cMicroSecondsPerSecond by decide)
    have hupper := Int.tmod_lt_of_pos us.toInt (show 0 < cMicroSecondsPerSecond by decide)
    unfold cMicroSecondsPerSecond at *
    omega
  have hseconds := decimal_length_le hdiv.1 hdiv.2
  have hlen : (decimal (us.toInt.tdiv cMicroSecondsPerSecond) ++ ascii "." ++
      padZero 6 (us.toInt.tmod cMicroSecondsPerSecond)).length ≤ 31 := by
    simp only [List.length_append, show (ascii ".").length = 1 from rfl]
    omega
  have htext : toString us.toInt = decimal (us.toInt.tdiv cMicroSecondsPerSecond) ++
      46 :: padZero 6 (us.toInt.tmod cMicroSecondsPerSecond) := by
    rw [toString, printInto, List.take_of_length_le hlen, List.append_assoc]
    rfl
  refine ⟨?_, htext⟩
  rw [toString, printInto, List.take_of_length_le hlen]
  omega

/-- **A time is read back from its text.**  Nothing of the text is cut off, and no two times have the
same `toString`. -/
theorem toString_injective :
    (∀ us : Int64, (toString us.toInt).length < 32 ∧ toString us.toInt =
      decimal (us.toInt.tdiv cMicroSecondsPerSecond) ++
        46 :: padZero 6 (us.toInt.tmod cMicroSecondsPerSecond)) ∧
    Function.Injective fun us : Int64 ↦ toString us.toInt := by
  refine ⟨toString_fits, fun x y h ↦ ?_⟩
  simp only [(toString_fits _).2] at h
  have hdot {c : UInt8} (hc : c = 45 ∨ c ∈ decimalDigits) : (46 : UInt8) ≠ c := by
    rintro rfl
    exact absurd hc (by decide)
  obtain ⟨hseconds, -, hmicros⟩ := (List.append_cons_inj_of_notMem
    (fun hmem ↦ hdot (mem_of_mem_decimal hmem) rfl)
    (fun hmem ↦ hdot (mem_of_mem_padZero hmem) rfl)).mp h
  have hdiv := decimal_injective hseconds
  have hmod := padZero_injective hmicros
  have hx := Int.mul_tdiv_add_tmod x.toInt cMicroSecondsPerSecond
  have hy := Int.mul_tdiv_add_tmod y.toInt cMicroSecondsPerSecond
  rw [hdiv, hmod, hy] at hx
  exact (Int64.toInt_inj.mp hx).symm

end Time

end Netlib
