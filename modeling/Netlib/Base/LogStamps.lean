import Netlib.Base.TimeText

/-!
# Log records in the order of their time stamps

Every record of a log begins with the date and time that `formatTime` writes (`base/Logging.cc`), in a
fixed width.  In a zone of one offset, `TimeZone(eastOfUtc, tzname)` (`base/TimeZone.cc`), records sort
as the clock readings that they were written at.
-/

namespace Netlib

open Gregorian FixedWidth

/-- `TimeZone(eastOfUtc, tzname)`. -/
def Data.eastOfUtc (eastOfUtc : Int) (tzname : List UInt8) : Data :=
  ⟨[], [⟨eastOfUtc, false, 0⟩], tzname⟩

namespace LogTime

/-- A record: the zone in force, the reading of the clock, and the text in front of the record. -/
structure Stamped where
  zone : Option Data
  mincroSecondsSinceEpoch : Int
  text : List UInt8

/-- What a log statement writes. -/
def stamped (c : Calendar) (s : LogTime) : Label → Option Stamped
  | .log us => (formatTime c s.zone s.cache us).map fun (_, time, us') ↦ ⟨s.zone, us, time ++ us'⟩
  | .setTimeZone _ => none

/-- A zone of one offset, UTC when none is set. -/
inductive Steady : Option Data → Int → Prop where
  | utc : Steady none 0
  | fixed (eastOfUtc : Int) (tzname : List UInt8) :
    Steady (some (.eastOfUtc eastOfUtc tzname)) eastOfUtc

/-! ## 1. What a stamp is -/

/-- The seconds in years of four digits. -/
def fourDigitSeconds : Set Int :=
  {t | 0 ≤ (gregorian.gmtime_r t).year + 1900 ∧ (gregorian.gmtime_r t).year + 1900 < 10 ^ 4}

theorem formatTm_field : Field fourDigitSeconds 17 fun t ↦ formatTm (gregorian.gmtime_r t) := by
  have hfield := gmtime_field (padBlank_field 4 (by decide)) (padZero_field 2 (by decide)) []
    (ascii " ") (ascii ":")
  refine hfield.congr fun t _ ↦ ?_
  simp only [formatTm, List.append_nil, List.append_assoc]

/-- The stamp of a reading in a zone of one offset. -/
def stampText (zone : Option Data) (offset us : Int) : List UInt8 :=
  formatTm (gregorian.gmtime_r (us / 1000000 + offset)) ++ ascii "." ++ padZero 6 (us % 1000000) ++
    ascii (if zone.isSome then " " else "Z ")

theorem stampText_field (zone : Option Data) (offset : Int) :
    Field {us : Int | us / 1000000 + offset ∈ fourDigitSeconds}
      (17 + 1 + 6 + (ascii (if zone.isSome then " " else "Z ")).length) (stampText zone offset) := by
  have hshift := formatTm_field.comp (· + offset)
    (fun t (ht : t ∈ {t : Int | t + offset ∈ fourDigitSeconds}) ↦ ht) fun _ _ _ _ hlt ↦ by omega
  exact ((hshift.append (ascii ".")).divMod (by decide) (padZero_field 6 (by decide))).append _

variable {zone : Option Data} {offset us : Int}

theorem tmIn_steady (h : Steady zone offset) (t : Int) :
    ∃ tm, tmIn gregorian zone t = some tm ∧
      formatTm tm = formatTm (gregorian.gmtime_r (t + offset)) ∧
      tm.year = (gregorian.gmtime_r (t + offset)).year := by
  cases h with
  | utc => exact ⟨_, rfl, by rw [Int.add_zero], by rw [Int.add_zero]⟩
  | fixed eastOfUtc tzname => exact ⟨_, rfl, rfl, rfl⟩

theorem stamp_steady (h : Steady zone offset) (hus : 0 ≤ us) :
    (stamp gregorian zone us).map (fun p ↦ p.1 ++ p.2) = some (stampText zone offset us) := by
  obtain ⟨tm, htm, htext, -⟩ := tmIn_steady h (us / 1000000)
  rw [stamp, tdiv_cMicroSecondsPerSecond hus, tmod_cMicroSecondsPerSecond hus, htm, Option.map_some,
    Option.map_some, htext, stampText, formatMicros]
  simp only [List.append_assoc]

/-! ## 2. The stamps of a run -/

/-- The record has the stamp of its reading, which shows a year of four digits. -/
structure Stamped.Exact (r : Stamped) : Prop where
  nonneg : 0 ≤ r.mincroSecondsSinceEpoch
  text : (stamp gregorian r.zone r.mincroSecondsSinceEpoch).map (fun p ↦ p.1 ++ p.2) = some r.text
  year : ∃ tm, tmIn gregorian r.zone (r.mincroSecondsSinceEpoch / 1000000) = some tm ∧
    1000 ≤ tm.year + 1900 ∧ tm.year + 1900 ≤ 9999

theorem stamped_exact {s : LogTime} {l : Label} {r : Stamped} (hs : s.Cached gregorian)
    (hd : s.Dated gregorian l) (hsame : s.SameText gregorian l)
    (h : stamped gregorian s l = some r) : r.Exact := by
  cases l with
  | setTimeZone tz => exact absurd h (by simp [stamped])
  | log us =>
    have hfresh : (formatTime gregorian s.zone s.cache us).map Prod.snd =
        stamp gregorian s.zone us := (fresh_iff gregorian_ranged hs hd).mpr hsame
    obtain ⟨⟨cache, time, us'⟩, hformat, rfl⟩ := Option.map_eq_some_iff.mp h
    rw [hformat, Option.map_some] at hfresh
    obtain ⟨hus, tm, htm, hyear⟩ := hd
    have hnonneg : 0 ≤ us := le_trans (by decide) hus
    rw [tdiv_cMicroSecondsPerSecond hnonneg] at htm
    refine ⟨hnonneg, ?_, tm, htm, hyear⟩
    rw [← hfresh, Option.map_some]

theorem Stamped.Exact.mem {r : Stamped} (h : r.Exact) (hzone : Steady r.zone offset) :
    r.mincroSecondsSinceEpoch / 1000000 + offset ∈ fourDigitSeconds := by
  obtain ⟨tm, htm, hyear⟩ := h.year
  obtain ⟨tm', htm', -, hgmt⟩ := tmIn_steady hzone (r.mincroSecondsSinceEpoch / 1000000)
  rw [htm, Option.some.injEq] at htm'
  subst htm'
  show 0 ≤ _ ∧ _ < (10000 : Int)
  rw [← hgmt]
  omega

theorem Stamped.Exact.text_eq {r : Stamped} (h : r.Exact) (hzone : Steady r.zone offset) :
    r.text = stampText r.zone offset r.mincroSecondsSinceEpoch := by
  have htext := h.text
  rw [stamp_steady hzone h.nonneg, Option.some.injEq] at htext
  exact htext.symm

theorem collect_exact {ls : List Label}
    (hdated : Trace.Along (step gregorian) (Dated gregorian) init ls)
    (hsame : Trace.Along (step gregorian) (SameText gregorian) init ls) :
    ∀ r ∈ Trace.collect (step gregorian) (stamped gregorian) init ls, r.Exact :=
  Trace.forall_mem_collect (fun _ _ _ hs hp ↦ step_cached gregorian_ranged hs hp.1)
    (fun _ _ _ hs hp ↦ stamped_exact hs hp.1 hp.2) init_cached (hdated.and hsame)

/-- **Sorting records sorts them by time.**  On a clock past its first second that shows years of four
digits, with no second read in two zones, any two records that two threads, or one, write in the
same zone of one offset compare, whatever is behind their stamps, as their readings of the clock
do. -/
theorem records_in_order {ls ls' : List Label}
    (hdated : Trace.Along (step gregorian) (Dated gregorian) init ls)
    (hsame : Trace.Along (step gregorian) (SameText gregorian) init ls)
    (hdated' : Trace.Along (step gregorian) (Dated gregorian) init ls')
    (hsame' : Trace.Along (step gregorian) (SameText gregorian) init ls') {r r' : Stamped}
    (hr : r ∈ Trace.collect (step gregorian) (stamped gregorian) init ls)
    (hr' : r' ∈ Trace.collect (step gregorian) (stamped gregorian) init ls')
    (hzone : r.zone = r'.zone) (hsteady : Steady r.zone offset) :
    (r.mincroSecondsSinceEpoch < r'.mincroSecondsSinceEpoch →
      ∀ rest rest', r.text ++ rest < r'.text ++ rest') ∧
    (r.text = r'.text ↔ r.mincroSecondsSinceEpoch = r'.mincroSecondsSinceEpoch) := by
  have hexact := collect_exact hdated hsame r hr
  have hexact' := collect_exact hdated' hsame' r' hr'
  have hsteady' : Steady r'.zone offset := hzone ▸ hsteady
  have hmem := hexact.mem hsteady
  have hmem' := hexact'.mem hsteady'
  have hfield := stampText_field r.zone offset
  rw [hexact.text_eq hsteady, hexact'.text_eq hsteady', ← hzone]
  refine ⟨fun hlt rest rest' ↦ ?_, hfield.eq_iff hmem hmem'⟩
  exact append_lt_append ((hfield.length _ hmem).trans (hfield.length _ hmem').symm)
    (hfield.lt _ hmem _ hmem' hlt) rest rest'

/-- A thread that logs in the second behind the epoch, and half a second later. -/
def twoStatements : List Label := [.log 1000000, .log 1500000]

theorem twoStatements_dated :
    Trace.Along (step gregorian) (Dated gregorian) init twoStatements := by
  rw [twoStatements, Trace.along_cons_of_step step_loggedOnce]
  exact ⟨⟨by decide, _, tmIn_utc, by decide, by decide⟩,
    ⟨by decide, _, tmIn_utc, by decide, by decide⟩, fun _ _ ↦ trivial⟩

theorem twoStatements_sameText :
    Trace.Along (step gregorian) (SameText gregorian) init twoStatements := by
  rw [twoStatements, Trace.along_cons_of_step step_loggedOnce]
  exact ⟨fun _ ↦ rfl, fun _ ↦ rfl, fun _ _ ↦ trivial⟩

theorem collect_twoStatements :
    Trace.collect (step gregorian) (stamped gregorian) init twoStatements =
      [⟨none, 1000000, ascii "19700101 00:00:01.000000Z "⟩,
        ⟨none, 1500000, ascii "19700101 00:00:01.500000Z "⟩] := by
  have hfirst : stamped gregorian init (.log 1000000) =
      some ⟨none, 1000000, ascii "19700101 00:00:01.000000Z "⟩ := by
    simp only [stamped, init, formatTime_firstSecond]
    rfl
  rw [twoStatements, Trace.collect, hfirst, step_loggedOnce]
  rfl

/-- The two records of `twoStatements`. -/
theorem records_in_order_twoStatements :
    ((1000000 : Int) < 1500000 → ∀ rest rest' : List UInt8,
      ascii "19700101 00:00:01.000000Z " ++ rest < ascii "19700101 00:00:01.500000Z " ++ rest') ∧
    (ascii "19700101 00:00:01.000000Z " = ascii "19700101 00:00:01.500000Z " ↔
      (1000000 : Int) = 1500000) := by
  have hfirst : ⟨none, 1000000, ascii "19700101 00:00:01.000000Z "⟩ ∈
      Trace.collect (step gregorian) (stamped gregorian) init twoStatements := by
    rw [collect_twoStatements]
    exact List.mem_cons_self
  have hsecond : ⟨none, 1500000, ascii "19700101 00:00:01.500000Z "⟩ ∈
      Trace.collect (step gregorian) (stamped gregorian) init twoStatements := by
    rw [collect_twoStatements]
    exact List.mem_cons_of_mem _ List.mem_cons_self
  exact records_in_order twoStatements_dated twoStatements_sameText twoStatements_dated
    twoStatements_sameText hfirst hsecond rfl .utc

end LogTime

end Netlib
