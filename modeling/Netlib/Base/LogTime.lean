import Netlib.Lib.Run
import Netlib.Base.Convert
import Netlib.Base.Time
import Netlib.Base.TimeZone

/-!
# The time stamp of a log record

`Logger::Impl::formatTime` (`base/Logging.cc`) on one thread, with `Logger::setTimeZone`.  The date and
time of a second are kept in the thread's `t_time`, and written again as long as the second is the
same.  A failed assertion has no result.
-/

namespace Netlib

open Gregorian

/-- `%4d`, with the width 4. -/
def padBlank (width : Nat) (v : Int) : List UInt8 := (decimal v).leftpad width 32

/-- `%02d`, with the width 2. -/
def padZero (width : Nat) (v : Int) : List UInt8 :=
  if v < 0 then ascii "-" ++ (decimal (-v)).leftpad (width - 1) 48
  else (decimal v).leftpad width 48

/-- `"%4d%02d%02d %02d:%02d:%02d"`.  A year that overflows an `int` is too long for the assertion
behind it all the more. -/
def formatTm (tm : Tm) : List UInt8 :=
  padBlank 4 (tm.year + 1900) ++ padZero 2 (tm.mon + 1) ++ padZero 2 tm.mday ++ ascii " " ++
    padZero 2 tm.hour ++ ascii ":" ++ padZero 2 tm.min ++ ascii ":" ++ padZero 2 tm.sec

/-- The thread-local variables. -/
structure TimeCache where
  t_lastSecond : Int
  /-- In front of the NUL. -/
  t_time : List UInt8
deriving DecidableEq

namespace LogTime

variable (c : Calendar)

/-- The broken-down time in a zone, or in UTC when the zone is not `vaild()`. -/
def tmIn (zone : Option Data) (seconds : Int) : Option Tm :=
  match zone with
  | some data => toLocalTime c data seconds
  | none => some (c.gmtime_r seconds)

/-- `".%06d "` or `".%06dZ "`. -/
def formatMicros (zone : Option Data) (mincroSeconds : Int) : List UInt8 :=
  ascii "." ++ padZero 6 mincroSeconds ++ ascii (if zone.isSome then " " else "Z ")

/-- `t_lastSecond` and `t_time` before the record is written. -/
def refresh (zone : Option Data) (cache : TimeCache) (seconds : Int) : Option TimeCache :=
  if seconds ≠ cache.t_lastSecond then
    (tmIn c zone seconds).bind fun tm ↦
      if (formatTm tm).length = 17 then some ⟨seconds, formatTm tm⟩ else none
  else some cache

/-- The two texts that are streamed. -/
def formatTime (zone : Option Data) (cache : TimeCache) (mincroSecondsSinceEpoch : Int) :
    Option (TimeCache × List UInt8 × List UInt8) := do
  let seconds := mincroSecondsSinceEpoch.tdiv cMicroSecondsPerSecond
  let mincroSeconds := mincroSecondsSinceEpoch.tmod cMicroSecondsPerSecond
  let cache ← refresh c zone cache seconds
  let us := formatMicros zone mincroSeconds
  -- `us.length()`, and the lengths that `T` is given
  if us.length = (if zone.isSome then 8 else 9) ∧ cache.t_time.length = 17 then
    return (cache, cache.t_time, us)
  else none

end LogTime

/-- One thread, and the zone in force. -/
structure LogTime where
  /-- `g_logTimeZone`. -/
  zone : Option Data
  cache : TimeCache
  /-- The zone that was in force when `t_time` was written. -/
  written : Option Data

namespace LogTime

inductive Label where
  | setTimeZone (tz : Option Data)
  /-- A log statement, with the reading of the clock. -/
  | log (mincroSecondsSinceEpoch : Int)

def init : LogTime := ⟨none, ⟨0, []⟩, none⟩

def step (c : Calendar) (s : LogTime) : Label → Option LogTime
  | .setTimeZone tz => some { s with zone := tz }
  | .log us => (formatTime c s.zone s.cache us).map fun (cache, _) ↦
    { s with
      cache := cache
      written := if us.tdiv cMicroSecondsPerSecond ≠ s.cache.t_lastSecond then s.zone else s.written }

/-! ## 1. What the cache is for -/

/-- The texts for a reading, in a zone, with no cache. -/
def stamp (c : Calendar) (zone : Option Data) (us : Int) : Option (List UInt8 × List UInt8) :=
  (tmIn c zone (us.tdiv cMicroSecondsPerSecond)).map fun tm ↦
    (formatTm tm, formatMicros zone (us.tmod cMicroSecondsPerSecond))

/-- Each log statement writes what it would write without the cache. -/
def Fresh (c : Calendar) (s : LogTime) : Label → Prop
  | .log us => (formatTime c s.zone s.cache us).map Prod.snd = stamp c s.zone us
  | .setTimeZone _ => True

/-- A log statement in the second of `t_time` has that second read the same in the zone in force as in
the one `t_time` was written in. -/
def SameText (c : Calendar) (s : LogTime) : Label → Prop
  | .log us =>
    us.tdiv cMicroSecondsPerSecond = s.cache.t_lastSecond →
      (tmIn c s.zone s.cache.t_lastSecond).map formatTm =
        (tmIn c s.written s.cache.t_lastSecond).map formatTm
  | .setTimeZone _ => True

/-- The clock is past the first second, and shows a year of four digits. -/
def Dated (c : Calendar) (s : LogTime) : Label → Prop
  | .log us => cMicroSecondsPerSecond ≤ us ∧
    ∃ tm, tmIn c s.zone (us.tdiv cMicroSecondsPerSecond) = some tm ∧
      1000 ≤ tm.year + 1900 ∧ tm.year + 1900 ≤ 9999
  | .setTimeZone _ => True

end LogTime

/-- The fields that `gmtime_r` fills in are in their ranges. -/
structure Calendar.Ranged (c : Calendar) : Prop where
  mon : ∀ t, 0 ≤ (c.gmtime_r t).mon ∧ (c.gmtime_r t).mon ≤ 11
  mday : ∀ t, 1 ≤ (c.gmtime_r t).mday ∧ (c.gmtime_r t).mday ≤ 31
  hour : ∀ t, 0 ≤ (c.gmtime_r t).hour ∧ (c.gmtime_r t).hour ≤ 23
  min : ∀ t, 0 ≤ (c.gmtime_r t).min ∧ (c.gmtime_r t).min ≤ 59
  sec : ∀ t, 0 ≤ (c.gmtime_r t).sec ∧ (c.gmtime_r t).sec ≤ 60

/-! ## 2. Lengths -/

theorem decimal_length_le_of_lt {v : Int} {k : Nat} (hk : 0 < k) (hlo : 0 ≤ v) (hhi : v < 10 ^ k) :
    (decimal v).length ≤ k := by
  have hnat : v.natAbs < decimalDigits.length ^ k := by
    rw [decimalDigits_length]
    zify
    rw [abs_of_nonneg hlo]
    exact hhi
  unfold decimal
  rw [if_neg (by omega), List.nil_append]
  exact Numeral.write_length_le (by decide) hk hnat

theorem leftpad_length {text : List UInt8} {width : Nat} (b : UInt8) (h : text.length ≤ width) :
    (text.leftpad width b).length = width := by
  unfold List.leftpad
  rw [List.length_append, List.length_replicate]
  omega

theorem padZero_length {v : Int} {width : Nat} (hwidth : 0 < width) (hlo : 0 ≤ v)
    (hhi : v < 10 ^ width) : (padZero width v).length = width := by
  unfold padZero
  rw [if_neg (by omega)]
  exact leftpad_length 48 (decimal_length_le_of_lt hwidth hlo hhi)

theorem padBlank_length {v : Int} {width : Nat} (hwidth : 0 < width) (hlo : 0 ≤ v)
    (hhi : v < 10 ^ width) : (padBlank width v).length = width :=
  leftpad_length 32 (decimal_length_le_of_lt hwidth hlo hhi)

/-- What is asserted of `t_time`. -/
theorem formatTm_length {tm : Tm} (hyear : 0 ≤ tm.year + 1900 ∧ tm.year + 1900 ≤ 9999)
    (hmon : 0 ≤ tm.mon ∧ tm.mon ≤ 11) (hmday : 1 ≤ tm.mday ∧ tm.mday ≤ 31)
    (hhour : 0 ≤ tm.hour ∧ tm.hour ≤ 23) (hmin : 0 ≤ tm.min ∧ tm.min ≤ 59)
    (hsec : 0 ≤ tm.sec ∧ tm.sec ≤ 60) : (formatTm tm).length = 17 := by
  have htwo {v : Int} (hlo : 0 ≤ v) (hhi : v < 100) : (padZero 2 v).length = 2 :=
    padZero_length (by decide) hlo hhi
  have hfour : (padBlank 4 (tm.year + 1900)).length = 4 :=
    padBlank_length (by decide) hyear.1 (by omega)
  unfold formatTm
  simp only [List.length_append, hfour, htwo (show 0 ≤ tm.mon + 1 by omega) (by omega),
    htwo (show 0 ≤ tm.mday by omega) (by omega), htwo hhour.1 (by omega), htwo hmin.1 (by omega),
    htwo hsec.1 (by omega)]
  rfl

namespace LogTime

variable {c : Calendar} {s t : LogTime} {us : Int}

theorem tmIn_length (hc : c.Ranged) {zone : Option Data} {seconds : Int} {tm : Tm}
    (h : tmIn c zone seconds = some tm)
    (hyear : 1000 ≤ tm.year + 1900 ∧ tm.year + 1900 ≤ 9999) : (formatTm tm).length = 17 := by
  -- a zone changes none of the fields that are written
  have hfields : ∃ x, tm.mon = (c.gmtime_r x).mon ∧ tm.mday = (c.gmtime_r x).mday ∧
      tm.hour = (c.gmtime_r x).hour ∧ tm.min = (c.gmtime_r x).min ∧
      tm.sec = (c.gmtime_r x).sec := by
    cases zone with
    | none =>
      simp only [tmIn, Option.some.injEq] at h
      rw [← h]
      exact ⟨seconds, rfl, rfl, rfl, rfl, rfl⟩
    | some data =>
      simp only [tmIn, toLocalTime, Option.map_eq_some_iff] at h
      obtain ⟨lt, -, rfl⟩ := h
      exact ⟨seconds + lt.gmtOffset, rfl, rfl, rfl, rfl, rfl⟩
  obtain ⟨x, hmon, hmday, hhour, hmin, hsec⟩ := hfields
  apply formatTm_length
  · omega
  · rw [hmon]
    exact hc.mon x
  · rw [hmday]
    exact hc.mday x
  · rw [hhour]
    exact hc.hour x
  · rw [hmin]
    exact hc.min x
  · rw [hsec]
    exact hc.sec x

theorem formatMicros_length (zone : Option Data) (hus : 0 ≤ us) :
    (formatMicros zone (us.tmod cMicroSecondsPerSecond)).length =
      if zone.isSome then 8 else 9 := by
  have hlen : (padZero 6 (us % 1000000)).length = 6 :=
    padZero_length (by decide) (Int.emod_nonneg us (by decide)) (Int.emod_lt_of_pos us (by decide))
  unfold formatMicros
  rw [tmod_cMicroSecondsPerSecond hus, List.length_append, List.length_append, hlen]
  cases zone with
  | none => rfl
  | some data =>
    simp only [Option.isSome_some, if_true]
    rfl

/-! ## 3. The cache over a run -/

/-- The text in the cache is that of its second in the zone it was written in. -/
structure Cached (c : Calendar) (s : LogTime) : Prop where
  second : 0 ≤ s.cache.t_lastSecond
  text : s.cache.t_lastSecond ≠ 0 →
    s.cache.t_time.length = 17 ∧
      (tmIn c s.written s.cache.t_lastSecond).map formatTm = some s.cache.t_time

theorem init_cached : init.Cached c := ⟨le_rfl, fun h ↦ (h rfl).elim⟩

theorem seconds_pos (h : cMicroSecondsPerSecond ≤ us) : 0 < us.tdiv cMicroSecondsPerSecond := by
  unfold cMicroSecondsPerSecond at h
  rw [tdiv_cMicroSecondsPerSecond (by omega)]
  omega

/-- What a log statement does on a clock in range. -/
theorem formatTime_eq (hc : c.Ranged) (hs : s.Cached c) (hd : s.Dated c (.log us)) :
    ∃ cache, formatTime c s.zone s.cache us =
        some (cache, cache.t_time, formatMicros s.zone (us.tmod cMicroSecondsPerSecond)) ∧
      if us.tdiv cMicroSecondsPerSecond ≠ s.cache.t_lastSecond then
        cache.t_lastSecond = us.tdiv cMicroSecondsPerSecond ∧ cache.t_time.length = 17 ∧
          (tmIn c s.zone (us.tdiv cMicroSecondsPerSecond)).map formatTm = some cache.t_time
      else cache = s.cache := by
  obtain ⟨hus, tm, htm, hyear⟩ := hd
  have hpos := seconds_pos hus
  have hnonneg : 0 ≤ us := le_trans (by decide) hus
  have hmicros := formatMicros_length s.zone hnonneg
  have htext := tmIn_length hc htm hyear
  by_cases hsec : us.tdiv cMicroSecondsPerSecond ≠ s.cache.t_lastSecond
  · refine ⟨⟨us.tdiv cMicroSecondsPerSecond, formatTm tm⟩, ?_, ?_⟩
    · simp only [formatTime, refresh, if_pos hsec, htm, Option.bind_eq_bind, Option.bind_some,
        htext, hmicros, and_self, if_true]
      rfl
    · rw [if_pos hsec, htm]
      exact ⟨rfl, htext, rfl⟩
  · refine ⟨s.cache, ?_, ?_⟩
    -- no statement comes in second 0, so `t_time` has been written
    · have hlen := (hs.text (by omega)).1
      simp only [formatTime, refresh, if_neg hsec, Option.bind_eq_bind, Option.bind_some, hlen,
        hmicros, and_self, if_true]
      rfl
    · rw [if_neg hsec]

theorem step_cached (hc : c.Ranged) {l : Label} (hs : s.Cached c) (hd : s.Dated c l)
    (h : s.step c l = some t) : t.Cached c := by
  cases l with
  | setTimeZone tz =>
    cases h
    exact ⟨hs.second, hs.text⟩
  | log us =>
    obtain ⟨cache, hformat, hcache⟩ := formatTime_eq hc hs hd
    simp only [step, hformat, Option.map_some, Option.some.injEq] at h
    subst h
    by_cases hsec : us.tdiv cMicroSecondsPerSecond ≠ s.cache.t_lastSecond
    · rw [if_pos hsec] at hcache
      obtain ⟨hlast, hlen, htext⟩ := hcache
      refine ⟨?_, fun _ ↦ ?_⟩
      · rw [hlast]
        exact (seconds_pos hd.1).le
      · simp only [if_pos hsec, hlast]
        exact ⟨hlen, htext⟩
    · rw [if_neg hsec] at hcache
      subst hcache
      simp only [if_neg hsec]
      exact ⟨hs.second, hs.text⟩

theorem step_isSome (hc : c.Ranged) {l : Label} (hs : s.Cached c) (hd : s.Dated c l) :
    ∃ t, s.step c l = some t := by
  cases l with
  | setTimeZone tz => exact ⟨_, rfl⟩
  | log us =>
    obtain ⟨cache, hformat, -⟩ := formatTime_eq hc hs hd
    exact ⟨_, by rw [step, hformat, Option.map_some]⟩

/-- A log statement writes the stamp of its reading exactly when the second of the cache reads the
same in both zones. -/
theorem fresh_iff (hc : c.Ranged) {l : Label} (hs : s.Cached c) (hd : s.Dated c l) :
    s.Fresh c l ↔ s.SameText c l := by
  cases l with
  | setTimeZone tz => exact Iff.rfl
  | log us =>
    obtain ⟨cache, hformat, hcache⟩ := formatTime_eq hc hs hd
    obtain ⟨hus, tm, htm, -⟩ := hd
    have hpos := seconds_pos hus
    show (formatTime c s.zone s.cache us).map Prod.snd = stamp c s.zone us ↔
      (us.tdiv cMicroSecondsPerSecond = s.cache.t_lastSecond →
        (tmIn c s.zone s.cache.t_lastSecond).map formatTm =
          (tmIn c s.written s.cache.t_lastSecond).map formatTm)
    unfold stamp
    rw [hformat, htm, Option.map_some, Option.map_some, Option.some.injEq, Prod.mk.injEq]
    by_cases hsec : us.tdiv cMicroSecondsPerSecond ≠ s.cache.t_lastSecond
    -- written in the zone in force
    · rw [if_pos hsec, htm, Option.map_some, Option.some.injEq] at hcache
      exact ⟨fun _ heq ↦ (hsec heq).elim, fun _ ↦ ⟨hcache.2.2.symm, rfl⟩⟩
    -- written in the zone of then
    · rw [if_neg hsec] at hcache
      have heq : us.tdiv cMicroSecondsPerSecond = s.cache.t_lastSecond := not_not.mp hsec
      have htext := (hs.text (by omega)).2
      rw [hcache, ← heq, htm, Option.map_some]
      rw [← heq] at htext
      rw [htext, Option.some.injEq]
      exact ⟨fun h _ ↦ h.1.symm, fun h ↦ ⟨(h rfl).symm, rfl⟩⟩

/-- **The cached time stamp.**  On a clock past its first second that shows years of four digits no
assertion fails, and every log statement of a thread writes the date and time of its reading in the
zone in force exactly when every one in the second of `t_time` finds that second to read the same
in the zone in force and in the one that `t_time` was written in. -/
theorem formatTime_fresh_iff (hc : c.Ranged) {ls : List Label}
    (hdated : Trace.Along (step c) (Dated c) init ls) :
    (∃ s, Trace.run (step c) init ls = some s) ∧
      (Trace.Along (step c) (Fresh c) init ls ↔ Trace.Along (step c) (SameText c) init ls) := by
  constructor
  · exact hdated.exists_run (fun s l t hs hd ↦ step_cached hc hs hd)
      (fun s l hs hd ↦ step_isSome hc hs hd) init_cached
  · exact Trace.along_congr (fun s l t hs hd ↦ step_cached hc hs hd)
      (fun s l hs hd ↦ fresh_iff hc hs hd) init_cached hdated

/-! ## 4. A change of zone within a second -/

theorem gregorian_ranged : gregorian.Ranged where
  mon t := by
    have hpos := (CivilDate.ofDayNumber (t / 86400 + epoch.dayNumber)).month_pos
    have hle := (CivilDate.ofDayNumber (t / 86400 + epoch.dayNumber)).month_le
    simp only [gregorian]
    omega
  mday t := by
    have hpos := (CivilDate.ofDayNumber (t / 86400 + epoch.dayNumber)).day_pos
    have hle := (CivilDate.ofDayNumber (t / 86400 + epoch.dayNumber)).day_le
    have hmonth := daysInMonth_le (CivilDate.ofDayNumber (t / 86400 + epoch.dayNumber)).year
      (CivilDate.ofDayNumber (t / 86400 + epoch.dayNumber)).month
    simp only [gregorian]
    omega
  hour t := by
    simp only [gregorian]
    omega
  min t := by
    simp only [gregorian]
    omega
  sec t := by
    simp only [gregorian]
    omega

theorem gmtime_r_firstDay {t : Int} (hlo : 0 ≤ t) (hhi : t < 86400) :
    gregorian.gmtime_r t =
      ⟨t % 60, t / 60 % 60, t / 3600 % 24, 1, 0, 70, 4, 0, 0, 0, some [71, 77, 84]⟩ := by
  have hday : t / 86400 = 0 := by omega
  have hepoch : CivilDate.ofDayNumber epoch.dayNumber = epoch :=
    CivilDate.dayNumber_inj (CivilDate.dayNumber_ofDayNumber _)
  simp only [gregorian, hday, Int.zero_add, hepoch]
  rfl

/-- `TimeZone(3600, "CET")`. -/
def cet : Data := ⟨[], [⟨3600, false, 0⟩], ascii "CET"⟩

theorem tmIn_utc :
    tmIn gregorian none 1 = some ⟨1, 0, 0, 1, 0, 70, 4, 0, 0, 0, some [71, 77, 84]⟩ := by
  rw [tmIn, gmtime_r_firstDay (by decide) (by decide)]
  rfl

theorem tmIn_cet :
    tmIn gregorian (some cet) 1 = some ⟨1, 0, 1, 1, 0, 70, 4, 0, 0, 3600, some (ascii "CET")⟩ := by
  have hfind : findLocalTime cet ⟨1, 0, 0⟩ ⟨true⟩ = some ⟨3600, false, 0⟩ := rfl
  rw [tmIn, toLocalTime, hfind, Option.map_some, fillLocalTime,
    gmtime_r_firstDay (by decide) (by decide)]
  rfl

/-- A log statement in UTC in the second behind the epoch, and one in another zone half a second
later. -/
def zoneChange : List Label := [.log 1000000, .setTimeZone (some cet), .log 1500000]

/-- Behind the first of them. -/
def loggedOnce : LogTime := ⟨none, ⟨1, ascii "19700101 00:00:01"⟩, none⟩

theorem formatTime_firstSecond :
    formatTime gregorian none ⟨0, []⟩ 1000000 =
      some (loggedOnce.cache, ascii "19700101 00:00:01", ascii ".000000Z ") := by
  have hsec : (1000000 : Int).tdiv cMicroSecondsPerSecond = 1 := rfl
  simp only [formatTime, refresh, hsec, tmIn_utc]
  rfl

theorem step_loggedOnce : step gregorian init (.log 1000000) = some loggedOnce := by
  simp only [step, init, formatTime_firstSecond]
  rfl

theorem zoneChange_dated : Trace.Along (step gregorian) (Dated gregorian) init zoneChange := by
  rw [zoneChange, Trace.along_cons_of_step step_loggedOnce]
  refine ⟨⟨by decide, _, tmIn_utc, by decide, by decide⟩, trivial, ?_⟩
  intro t ht
  cases ht
  exact ⟨⟨by decide, _, tmIn_cet, by decide, by decide⟩, fun _ _ ↦ trivial⟩

/-- The second one does not have the text of its zone. -/
theorem formatTime_stale :
    ¬ ∀ c : Calendar, c.Ranged → ∀ ls, Trace.Along (step c) (Dated c) init ls →
      Trace.Along (step c) (Fresh c) init ls := by
  intro h
  have hfresh := h gregorian gregorian_ranged zoneChange zoneChange_dated
  rw [zoneChange, Trace.along_cons_of_step step_loggedOnce] at hfresh
  have hlast : Fresh gregorian { loggedOnce with zone := some cet } (.log 1500000) :=
    (hfresh.2.2 _ rfl).1
  -- it is an hour behind
  have hstamp : stamp gregorian (some cet) 1500000 =
      some (ascii "19700101 01:00:01", ascii ".500000 ") := by
    have hsec : (1500000 : Int).tdiv cMicroSecondsPerSecond = 1 := rfl
    simp only [stamp, hsec, tmIn_cet]
    rfl
  have htext : formatTime gregorian (some cet) loggedOnce.cache 1500000 =
      some (loggedOnce.cache, ascii "19700101 00:00:01", ascii ".500000 ") := rfl
  have heq : some (ascii "19700101 00:00:01", ascii ".500000 ") =
      some (ascii "19700101 01:00:01", ascii ".500000 ") := by
    rw [← hstamp, ← show _ = stamp gregorian (some cet) 1500000 from hlast]
    simp only [htext, Option.map_some]
  exact absurd heq (by decide)

/-- The run of `zoneChange`. -/
theorem formatTime_fresh_iff_zoneChange :
    (∃ s, Trace.run (step gregorian) init zoneChange = some s) ∧
      (Trace.Along (step gregorian) (Fresh gregorian) init zoneChange ↔
        Trace.Along (step gregorian) (SameText gregorian) init zoneChange) :=
  formatTime_fresh_iff gregorian_ranged zoneChange_dated

end LogTime

end Netlib
