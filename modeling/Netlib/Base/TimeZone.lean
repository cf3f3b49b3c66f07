import Netlib.Lib.Bisect
import Netlib.Base.UtcTime

/-!
# `netlib::TimeZone`

A zone's transitions and local time types, and the conversions between UTC and local time that search
them (`base/TimeZone.cc`).  Indexing outside a vector and a failed assertion have no result.  `time_t`
is an `Int` here: the conversions only add an offset to a time that `gmtime_r` and `timegm` convert
exactly, far inside 64 bits.
-/

namespace Netlib

open Gregorian

structure Transition where
  gmttime : Int
  localtime : Int
  localtimeIdx : Nat
deriving DecidableEq

/-- Which of its two times a transition is compared by. -/
structure Comp where
  compareGmt : Bool

namespace Comp

def less (comp : Comp) (lhs rhs : Transition) : Bool :=
  if comp.compareGmt then lhs.gmttime < rhs.gmttime else lhs.localtime < rhs.localtime

def equal (comp : Comp) (lhs rhs : Transition) : Bool :=
  if comp.compareGmt then lhs.gmttime = rhs.gmttime else lhs.localtime = rhs.localtime

/-- The time that is compared. -/
def time (comp : Comp) (t : Transition) : Int :=
  if comp.compareGmt then t.gmttime else t.localtime

theorem less_iff {comp : Comp} {s t : Transition} :
    comp.less s t = true ↔ comp.time s < comp.time t := by
  unfold less time
  split <;> simp

theorem equal_iff {comp : Comp} {s t : Transition} :
    comp.equal s t = true ↔ comp.time s = comp.time t := by
  unfold equal time
  split <;> simp

end Comp

structure LocalTime where
  gmtOffset : Int
  isDst : Bool
  arrbIdx : Nat
deriving DecidableEq

/-- `TimeZone::Data`. -/
structure Data where
  transitions : List Transition
  localtimes : List LocalTime
  abbrviation : List UInt8
deriving DecidableEq

/-- `new TimeZone::Data`. -/
def Data.empty : Data := ⟨[], [], []⟩

/-- `std::lower_bound` over the transitions: a position, or their number. -/
def lowerBound (ts : List Transition) (sentry : Transition) (comp : Comp) : Nat :=
  bisect (fun i ↦ ts[i]?.any (comp.less · sentry)) 0 ts.length

def findLocalTime (data : Data) (sentry : Transition) (comp : Comp) : Option LocalTime :=
  match data.transitions with
  | [] => data.localtimes.head?
  | front :: _ =>
    if comp.less sentry front then data.localtimes.head?
    else
      let transI := lowerBound data.transitions sentry comp
      match data.transitions[transI]? with
      | some t =>
        if comp.equal sentry t then data.localtimes[t.localtimeIdx]?
        -- the assertion in front of `--transI`
        else if transI = 0 then none
        else data.transitions[transI - 1]?.bind fun t ↦ data.localtimes[t.localtimeIdx]?
      | none => data.transitions.getLast?.bind fun t ↦ data.localtimes[t.localtimeIdx]?

/-- The C string that starts at a position of a string, if the position is not behind its end. -/
def cstrAt (s : List UInt8) (i : Nat) : Option (List UInt8) :=
  if i ≤ s.length then some ((s.drop i).takeWhile (· ≠ 0)) else none

/-- The two conversions of libc. -/
structure Calendar where
  gmtime_r : Int → Tm
  timegm : Tm → Int

section

variable (c : Calendar)

/-- The local time of a type, with `tm_zone` pointing into the abbreviations. -/
def fillLocalTime (data : Data) (seconds : Int) (localTime : LocalTime) : Tm :=
  { c.gmtime_r (seconds + localTime.gmtOffset) with
    isdst := if localTime.isDst then 1 else 0
    gmtoff := localTime.gmtOffset
    zone := cstrAt data.abbrviation localTime.arrbIdx }

def toLocalTime (data : Data) (seconds : Int) : Option Tm :=
  (findLocalTime data ⟨seconds, 0, 0⟩ ⟨true⟩).map (fillLocalTime c data seconds)

def fromLocalTime (data : Data) (localtime : Tm) : Option Int := do
  let seconds := c.timegm localtime
  let localTime ← findLocalTime data ⟨0, seconds, 0⟩ ⟨false⟩
  if localtime.isdst ≠ 0 then
    let tryTm ← toLocalTime c data (seconds - localTime.gmtOffset)
    if tryTm.isdst = 0 ∧ tryTm.hour = localtime.hour ∧ tryTm.min = localtime.min then
      return seconds - 3600 - localTime.gmtOffset
  return seconds - localTime.gmtOffset

end

/-! ## 1. The search -/

theorem findLocalTime_before {data : Data} {sentry : Transition} {comp : Comp}
    (h : ∀ t, data.transitions[0]? = some t → comp.time sentry < comp.time t) :
    findLocalTime data sentry comp = data.localtimes.head? := by
  unfold findLocalTime
  split
  · rfl
  · rename_i front rest hts
    rw [hts] at h
    rw [if_pos (Comp.less_iff.mpr (h front rfl))]

theorem before_iff {ts : List Transition} {i : Nat} {sentry : Transition} {comp : Comp} :
    ts[i]?.any (comp.less · sentry) = true ↔
      ∃ t, ts[i]? = some t ∧ comp.time t < comp.time sentry := by
  cases ts[i]? with
  | none => simp
  | some t => simp [Comp.less_iff]

/-- The boundary that `lower_bound` returns. -/
theorem lowerBound_spec (ts : List Transition) (sentry : Transition) (comp : Comp) :
    lowerBound ts sentry comp ≤ ts.length ∧
      (lowerBound ts sentry comp = 0 ∨
        ∃ t, ts[lowerBound ts sentry comp - 1]? = some t ∧ comp.time t < comp.time sentry) ∧
      ∀ t, ts[lowerBound ts sentry comp]? = some t → comp.time sentry ≤ comp.time t := by
  have h := bisect_spec (fun i ↦ ts[i]?.any (comp.less · sentry)) 0 ts.length
  rw [Nat.zero_add, before_iff] at h
  obtain ⟨-, hle, hbefore, hafter⟩ := h
  refine ⟨hle, hbefore, ?_⟩
  intro t ht
  rcases hafter with hend | hp
  · unfold lowerBound at ht
    rw [hend, List.getElem?_eq_none le_rfl] at ht
    cases ht
  · by_contra hlt
    have hbad := before_iff.mpr ⟨t, ht, lt_of_not_ge hlt⟩
    unfold lowerBound at hbad
    rw [hp] at hbad
    cases hbad

/-- Every index that the search follows leads somewhere. -/
structure WellIndexed (data : Data) : Prop where
  types : data.localtimes ≠ []
  indices : ∀ t ∈ data.transitions, t.localtimeIdx < data.localtimes.length
  abbrs : ∀ lt ∈ data.localtimes, lt.arrbIdx < data.abbrviation.length

/-- Whatever the order of the transitions, the search stays inside the vectors, and the assertion in
it holds. -/
theorem WellIndexed.find {data : Data} (h : WellIndexed data) (sentry : Transition) (comp : Comp) :
    ∃ lt ∈ data.localtimes, findLocalTime data sentry comp = some lt := by
  have hfront : ∃ lt ∈ data.localtimes, data.localtimes.head? = some lt :=
    ⟨_, List.head_mem h.types, List.head?_eq_some_head h.types⟩
  have hindex : ∀ t ∈ data.transitions,
      ∃ lt ∈ data.localtimes, data.localtimes[t.localtimeIdx]? = some lt := by
    intro t ht
    have hlt := h.indices t ht
    exact ⟨_, List.getElem_mem hlt, List.getElem?_eq_getElem hlt⟩
  obtain ⟨hlen, hbefore, hafter⟩ := lowerBound_spec data.transitions sentry comp
  unfold findLocalTime
  split
  · exact hfront
  · rename_i front rest hts
    by_cases hless : comp.less sentry front = true
    · rw [if_pos hless]
      exact hfront
    · rw [if_neg hless]
      simp only
      generalize lowerBound data.transitions sentry comp = r at hlen hbefore hafter ⊢
      cases hr : data.transitions[r]? with
      | some t =>
        simp only
        by_cases heq : comp.equal sentry t = true
        · rw [if_pos heq]
          exact hindex t (List.mem_of_getElem? hr)
        · rw [if_neg heq]
          have hpos : r ≠ 0 := by
            -- the first transition would be at the sentry's own time
            intro hzero
            have hle := hafter t hr
            rw [hzero, hts, List.getElem?_cons_zero, Option.some.injEq] at hr
            rw [Comp.less_iff, hr] at hless
            rw [Comp.equal_iff] at heq
            omega
          obtain ⟨u, hu, -⟩ := hbefore.resolve_left hpos
          rw [if_neg hpos, hu, Option.bind_some]
          exact hindex u (List.mem_of_getElem? hu)
      | none =>
        have hne : data.transitions ≠ [] := by
          rw [hts]
          exact List.cons_ne_nil _ _
        simp only
        rw [List.getLast?_eq_some_getLast hne, Option.bind_some]
        exact hindex _ (List.getLast_mem hne)

theorem WellIndexed.toLocalTime {data : Data} (h : WellIndexed data) (c : Calendar) (t : Int) :
    ∃ tm, toLocalTime c data t = some tm ∧ tm.zone.isSome = true := by
  obtain ⟨lt, hmem, hfind⟩ := h.find ⟨t, 0, 0⟩ ⟨true⟩
  have habbr := h.abbrs lt hmem
  refine ⟨fillLocalTime c data t lt, ?_, ?_⟩
  · unfold Netlib.toLocalTime
    rw [hfind, Option.map_some]
  · unfold fillLocalTime cstrAt
    simp only
    rw [if_pos habbr.le]
    rfl

theorem WellIndexed.fromLocalTime {data : Data} (h : WellIndexed data) (c : Calendar) (tm : Tm) :
    ∃ t, fromLocalTime c data tm = some t := by
  obtain ⟨lt, -, hfind⟩ := h.find ⟨0, c.timegm tm, 0⟩ ⟨false⟩
  obtain ⟨try', htry, -⟩ := h.toLocalTime c (c.timegm tm - lt.gmtOffset)
  unfold Netlib.fromLocalTime
  simp only [hfind, htry, Option.bind_eq_bind, Option.bind_some]
  split
  · split
    · exact ⟨_, rfl⟩
    · exact ⟨_, rfl⟩
  · exact ⟨_, rfl⟩

/-- The transitions are in the order of the times that are compared. -/
def Sorted (ts : List Transition) (comp : Comp) : Prop :=
  ∀ (i j : Nat) (s t : Transition), i < j → ts[i]? = some s → ts[j]? = some t → comp.time s < comp.time t

/-- Between a transition and the next, the search stops at the one or the other. -/
theorem lowerBound_at {ts : List Transition} {sentry t : Transition} {comp : Comp} {i : Nat}
    (hsorted : Sorted ts comp) (ht : ts[i]? = some t) (hle : comp.time t ≤ comp.time sentry)
    (hnext : ∀ u, ts[i + 1]? = some u → comp.time sentry < comp.time u) :
    i ≤ lowerBound ts sentry comp ∧ lowerBound ts sentry comp ≤ i + 1 := by
  obtain ⟨hlen, hbefore, hafter⟩ := lowerBound_spec ts sentry comp
  have hi : i < ts.length := (List.getElem?_eq_some_iff.mp ht).1
  generalize lowerBound ts sentry comp = r at hlen hbefore hafter ⊢
  constructor
  · by_contra hlt
    obtain ⟨u, hu⟩ : ∃ u, ts[r]? = some u := ⟨_, List.getElem?_eq_getElem (by omega)⟩
    have h1 := hafter u hu
    have h2 := hsorted r i u t (by omega) hu ht
    omega
  · by_contra hgt
    rcases hbefore with hzero | ⟨u, hu, hlt⟩
    · omega
    · obtain ⟨v, hv⟩ : ∃ v, ts[i + 1]? = some v := ⟨_, List.getElem?_eq_getElem (by omega)⟩
      have h1 := hnext v hv
      rcases Nat.eq_or_lt_of_le (show i + 1 ≤ r - 1 by omega) with heq | hlt'
      · rw [← heq, hv, Option.some.injEq] at hu
        rw [hu] at h1
        omega
      · have h2 := hsorted (i + 1) (r - 1) v u hlt' hv hu
        omega

/-- Over sorted transitions the search finds the last one that is not after the sentry. -/
theorem findLocalTime_at {data : Data} {sentry t : Transition} {comp : Comp} {i : Nat}
    (hsorted : Sorted data.transitions comp) (ht : data.transitions[i]? = some t)
    (hle : comp.time t ≤ comp.time sentry)
    (hnext : ∀ u, data.transitions[i + 1]? = some u → comp.time sentry < comp.time u) :
    findLocalTime data sentry comp = data.localtimes[t.localtimeIdx]? := by
  obtain ⟨hlen, -, hafter⟩ := lowerBound_spec data.transitions sentry comp
  obtain ⟨hir, hri⟩ := lowerBound_at hsorted ht hle hnext
  have hi : i < data.transitions.length := (List.getElem?_eq_some_iff.mp ht).1
  unfold findLocalTime
  split
  · rename_i hts
    rw [hts] at hi
    exact absurd hi (Nat.not_lt_zero i)
  · rename_i front rest hts
    have hfront : data.transitions[0]? = some front := by rw [hts]; rfl
    have hfirst : comp.time front ≤ comp.time t := by
      rcases Nat.eq_zero_or_pos i with rfl | hpos
      · rw [hfront, Option.some.injEq] at ht
        rw [ht]
      · exact (hsorted 0 i front t hpos hfront ht).le
    have hnot : ¬ comp.less sentry front = true := by
      rw [Comp.less_iff]
      omega
    rw [if_neg hnot]
    simp only
    generalize lowerBound data.transitions sentry comp = r at hlen hafter hir hri ⊢
    rcases Nat.eq_or_lt_of_le hir with rfl | hlt
    · -- found exactly
      have heq : comp.equal sentry t = true := by
        rw [Comp.equal_iff]
        have := hafter t ht
        omega
      rw [ht]
      simp only [heq, if_true]
    · obtain rfl : r = i + 1 := by omega
      cases hr : data.transitions[i + 1]? with
      | some u =>
        have hne : ¬ comp.equal sentry u = true := by
          rw [Comp.equal_iff]
          have := hnext u hr
          omega
        simp only [hne, if_false, Nat.add_sub_cancel, ht, Nat.add_one_ne_zero, Option.bind_some]
        rfl
      | none =>
        have hlast : i + 1 = data.transitions.length := by
          have := List.getElem?_eq_none_iff.mp hr
          omega
        rw [List.getLast?_eq_getElem?, ← hlast, Nat.add_sub_cancel, ht, Option.bind_some]

/-- A time lies before every transition or at the last one that is not after it. -/
theorem exists_last (ts : List Transition) (comp : Comp) (x : Int) :
    (∀ t, ts[0]? = some t → x < comp.time t) ∨
      ∃ i t, ts[i]? = some t ∧ comp.time t ≤ x ∧
        ∀ u, ts[i + 1]? = some u → x < comp.time u := by
  induction ts with
  | nil =>
    left
    intro t ht
    cases ht
  | cons a ts ih =>
    by_cases ha : x < comp.time a
    · left
      intro t ht
      rw [List.getElem?_cons_zero, Option.some.injEq] at ht
      rw [← ht]
      exact ha
    · right
      rcases ih with hbefore | ⟨i, t, ht, hle, hnext⟩
      · exact ⟨0, a, rfl, by omega, hbefore⟩
      · exact ⟨i + 1, t, ht, hle, hnext⟩

/-- What a scan over all transitions finds: the type of the last one that is not after the sentry, or
the first type of all. -/
def scanLocalTime (data : Data) (sentry : Transition) (comp : Comp) : Option LocalTime :=
  match (data.transitions.filter fun t ↦ comp.time t ≤ comp.time sentry).getLast? with
  | some t => data.localtimes[t.localtimeIdx]?
  | none => data.localtimes.head?

/-- The last of the elements that are kept. -/
theorem getLast?_filter {p : Transition → Bool} {ts : List Transition} {t : Transition} {i : Nat}
    (ht : ts[i]? = some t) (hp : p t = true)
    (hafter : ∀ j u, i < j → ts[j]? = some u → p u = false) :
    (ts.filter p).getLast? = some t := by
  obtain ⟨hi, hti⟩ := List.getElem?_eq_some_iff.mp ht
  have hdrop : (ts.drop (i + 1)).filter p = [] := by
    refine List.filter_eq_nil_iff.mpr fun u hu ↦ ?_
    obtain ⟨j, hj⟩ := List.getElem?_of_mem hu
    rw [List.getElem?_drop] at hj
    rw [hafter (i + 1 + j) u (by omega) hj]
    exact Bool.false_ne_true
  rw [← List.take_append_drop (i + 1) ts, List.filter_append, hdrop, List.append_nil,
    List.take_succ_eq_append_getElem hi, hti, List.filter_append, List.filter_singleton, hp]
  exact List.getLast?_concat

/-- **The search is a scan.**  Over ascending transitions the search finds what a scan finds; it stays
inside the vectors, and the assertion in it holds. -/
theorem findLocalTime_eq_scan {data : Data} {comp : Comp} (hsorted : Sorted data.transitions comp)
    (htypes : data.localtimes ≠ [])
    (hindices : ∀ t ∈ data.transitions, t.localtimeIdx < data.localtimes.length)
    (sentry : Transition) :
    findLocalTime data sentry comp = scanLocalTime data sentry comp ∧
      ∃ lt, findLocalTime data sentry comp = some lt := by
  rcases exists_last data.transitions comp (comp.time sentry) with hbefore | ⟨i, t, ht, hle, hnext⟩
  · have hnone : (data.transitions.filter fun t ↦ comp.time t ≤ comp.time sentry) = [] := by
      refine List.filter_eq_nil_iff.mpr fun u hu ↦ ?_
      obtain ⟨j, hj⟩ := List.getElem?_of_mem hu
      -- no transition is before the first one
      obtain ⟨first, hfirst⟩ : ∃ first, data.transitions[0]? = some first :=
        ⟨_, List.getElem?_eq_getElem (List.length_pos_of_mem hu)⟩
      have hlt := hbefore first hfirst
      have hge : comp.time first ≤ comp.time u := by
        rcases Nat.eq_zero_or_pos j with rfl | hpos
        · rw [Option.some.inj (hfirst.symm.trans hj)]
        · exact (hsorted 0 j first u hpos hfirst hj).le
      simp only [decide_eq_true_eq]
      omega
    have hfind := findLocalTime_before hbefore
    refine ⟨?_, _, hfind.trans (List.head?_eq_some_head htypes)⟩
    rw [hfind, scanLocalTime, hnone]
    rfl
  -- the transitions behind the one found are later than the sentry
  · have hlast : (data.transitions.filter fun t ↦ comp.time t ≤ comp.time sentry).getLast? =
        some t := by
      refine getLast?_filter ht (decide_eq_true hle) fun j u hij hu ↦ ?_
      obtain ⟨next, hi⟩ : ∃ next, data.transitions[i + 1]? = some next :=
        ⟨_, List.getElem?_eq_getElem
          (lt_of_le_of_lt hij (List.getElem?_eq_some_iff.mp hu).1)⟩
      have hlt := hnext next hi
      have hge : comp.time next ≤ comp.time u := by
        rcases Nat.eq_or_lt_of_le (show i + 1 ≤ j from hij) with rfl | hlt'
        · rw [Option.some.inj (hi.symm.trans hu)]
        · exact (hsorted (i + 1) j next u hlt' hi hu).le
      simp only [decide_eq_false_iff_not]
      omega
    have hfind := findLocalTime_at hsorted ht hle hnext
    refine ⟨?_, _, hfind.trans (List.getElem?_eq_getElem
      (hindices t (List.mem_of_getElem? ht)))⟩
    rw [hfind, scanLocalTime, hlast]

/-- Between two transitions, by UTC time. -/
theorem findLocalTime_eq_scan_between :
    findLocalTime ⟨[⟨10, 11, 1⟩, ⟨20, 20, 0⟩], [⟨0, false, 0⟩, ⟨1, true, 0⟩], []⟩ ⟨15, 0, 0⟩ ⟨true⟩ =
        scanLocalTime ⟨[⟨10, 11, 1⟩, ⟨20, 20, 0⟩], [⟨0, false, 0⟩, ⟨1, true, 0⟩], []⟩ ⟨15, 0, 0⟩
          ⟨true⟩ ∧
      ∃ lt, findLocalTime ⟨[⟨10, 11, 1⟩, ⟨20, 20, 0⟩], [⟨0, false, 0⟩, ⟨1, true, 0⟩], []⟩ ⟨15, 0, 0⟩
        ⟨true⟩ = some lt := by
  apply findLocalTime_eq_scan _ (List.cons_ne_nil _ _) (by decide)
  intro i j s t hij hs ht
  obtain ⟨hi, -⟩ := List.getElem?_eq_some_iff.mp hs
  obtain ⟨hj, -⟩ := List.getElem?_eq_some_iff.mp ht
  obtain rfl : i = 0 := by
    simp only [List.length_cons, List.length_nil] at hi hj
    omega
  obtain rfl : j = 1 := by
    simp only [List.length_cons, List.length_nil] at hi hj
    omega
  cases hs
  cases ht
  decide

section

variable {data : Data} {x : Int} {s : Transition} {i : Nat}

/-- By UTC time. -/
theorem findGmt_at (hsorted : Sorted data.transitions ⟨true⟩) (hs : data.transitions[i]? = some s)
    (hle : s.gmttime ≤ x) (hnext : ∀ u, data.transitions[i + 1]? = some u → x < u.gmttime) :
    findLocalTime data ⟨x, 0, 0⟩ ⟨true⟩ = data.localtimes[s.localtimeIdx]? :=
  findLocalTime_at hsorted hs hle hnext

/-- By local time. -/
theorem findLocal_at (hsorted : Sorted data.transitions ⟨false⟩) (hs : data.transitions[i]? = some s)
    (hle : s.localtime ≤ x) (hnext : ∀ u, data.transitions[i + 1]? = some u → x < u.localtime) :
    findLocalTime data ⟨0, x, 0⟩ ⟨false⟩ = data.localtimes[s.localtimeIdx]? :=
  findLocalTime_at hsorted hs hle hnext

end

/-! ## 2. Zones with daylight time -/

/-- `gmtime_r` and `timegm` are inverse conversions, and `timegm` reads the calendar fields only. -/
structure Calendar.Exact (c : Calendar) : Prop where
  inverse : ∀ x, c.timegm (c.gmtime_r x) = x
  fields : ∀ s t : Tm, s.sec = t.sec → s.min = t.min → s.hour = t.hour → s.mday = t.mday →
    s.mon = t.mon → s.year = t.year → c.timegm s = c.timegm t

/-- Standard time `std` seconds east, and daylight time an hour ahead of it.  The transitions switch to
daylight time and back, more than two hours apart; each has the local time that the loader gives
it. -/
structure IsDaylight (data : Data) (std : Int) : Prop where
  types : ∃ a b, data.localtimes = [⟨std, false, a⟩, ⟨std + 3600, true, b⟩]
  alternate : ∀ (i : Nat) (t : Transition), data.transitions[i]? = some t →
    t.localtimeIdx = if i % 2 = 0 then 1 else 0
  localtimes : ∀ t ∈ data.transitions, ∃ lt, data.localtimes[t.localtimeIdx]? = some lt ∧
    t.localtime = t.gmttime + lt.gmtOffset
  apart : ∀ (i : Nat) (s t : Transition), data.transitions[i]? = some s →
    data.transitions[i + 1]? = some t → s.gmttime + 7200 < t.gmttime

namespace IsDaylight

variable {data : Data} {std : Int}

theorem far_apart (h : IsDaylight data std) {i j : Nat} {s t : Transition} (hij : i < j)
    (hs : data.transitions[i]? = some s) (ht : data.transitions[j]? = some t) :
    s.gmttime + 7200 < t.gmttime := by
  induction j, hij using Nat.le_induction generalizing t with
  | base => exact h.apart i s t hs ht
  | succ j hj ih =>
    have hlen : j + 1 < data.transitions.length := (List.getElem?_eq_some_iff.mp ht).1
    obtain ⟨u, hu⟩ : ∃ u, data.transitions[j]? = some u :=
      ⟨_, List.getElem?_eq_getElem (by omega)⟩
    have h1 := ih hu
    have h2 := h.apart j u t hu ht
    omega

/-- The local time of a transition is that of the type it switches to. -/
theorem localtime_eq (h : IsDaylight data std) {i : Nat} {t : Transition} {lt : LocalTime}
    (ht : data.transitions[i]? = some t) (hlt : data.localtimes[t.localtimeIdx]? = some lt) :
    t.localtime = t.gmttime + lt.gmtOffset := by
  obtain ⟨lt', hlt', hloc⟩ := h.localtimes t (List.mem_of_getElem? ht)
  rw [hlt, Option.some.injEq] at hlt'
  rw [hloc, hlt']

/-- A transition at an even position starts daylight time. -/
theorem starts (h : IsDaylight data std) {i : Nat} {t : Transition}
    (ht : data.transitions[i]? = some t) (hi : i % 2 = 0) :
    t.localtime = t.gmttime + (std + 3600) ∧
      ∃ lt, data.localtimes[t.localtimeIdx]? = some lt ∧ lt.gmtOffset = std + 3600 ∧
        lt.isDst = true := by
  obtain ⟨a, b, htypes⟩ := h.types
  have hidx := h.alternate i t ht
  rw [if_pos hi] at hidx
  have hlt : data.localtimes[t.localtimeIdx]? = some ⟨std + 3600, true, b⟩ := by
    rw [htypes, hidx]
    rfl
  exact ⟨h.localtime_eq ht hlt, _, hlt, rfl, rfl⟩

/-- A transition at an odd position ends it. -/
theorem ends (h : IsDaylight data std) {i : Nat} {t : Transition}
    (ht : data.transitions[i]? = some t) (hi : ¬ i % 2 = 0) :
    t.localtime = t.gmttime + std ∧
      ∃ lt, data.localtimes[t.localtimeIdx]? = some lt ∧ lt.gmtOffset = std ∧
        lt.isDst = false := by
  obtain ⟨a, b, htypes⟩ := h.types
  have hidx := h.alternate i t ht
  rw [if_neg hi] at hidx
  have hlt : data.localtimes[t.localtimeIdx]? = some ⟨std, false, a⟩ := by
    rw [htypes, hidx]
    rfl
  exact ⟨h.localtime_eq ht hlt, _, hlt, rfl, rfl⟩

theorem localtime_bounds (h : IsDaylight data std) {i : Nat} {t : Transition}
    (ht : data.transitions[i]? = some t) :
    t.gmttime + std ≤ t.localtime ∧ t.localtime ≤ t.gmttime + std + 3600 := by
  by_cases hi : i % 2 = 0
  · have := (h.starts ht hi).1
    omega
  · have := (h.ends ht hi).1
    omega

theorem sorted (h : IsDaylight data std) (comp : Comp) : Sorted data.transitions comp := by
  intro i j s t hij hs ht
  have hfar := h.far_apart hij hs ht
  have hlo := h.localtime_bounds hs
  have hhi := h.localtime_bounds ht
  unfold Comp.time
  split <;> omega

end IsDaylight

theorem timegm_fillLocalTime {c : Calendar} (hc : c.Exact) (data : Data) (t : Int) (lt : LocalTime) :
    c.timegm (fillLocalTime c data t lt) = t + lt.gmtOffset := by
  have hfields : c.timegm (fillLocalTime c data t lt) = c.timegm (c.gmtime_r (t + lt.gmtOffset)) := by
    apply hc.fields <;> rfl
  rw [hfields, hc.inverse]

theorem toLocalTime_eq {c : Calendar} {data : Data} {t : Int} {lt : LocalTime}
    (h : findLocalTime data ⟨t, 0, 0⟩ ⟨true⟩ = some lt) :
    toLocalTime c data t = some (fillLocalTime c data t lt) := by
  unfold toLocalTime
  rw [h, Option.map_some]

section

variable {c : Calendar} {data : Data} {t : Int} {lt lt' lt'' : LocalTime}

theorem fromLocalTime_standard (hc : c.Exact) (hdst : lt.isDst = false)
    (hfind : findLocalTime data ⟨0, t + lt.gmtOffset, 0⟩ ⟨false⟩ = some lt') :
    fromLocalTime c data (fillLocalTime c data t lt) =
      some (t + lt.gmtOffset - lt'.gmtOffset) := by
  have hzero : (fillLocalTime c data t lt).isdst = 0 := by
    simp [fillLocalTime, hdst]
  unfold fromLocalTime
  simp only [timegm_fillLocalTime hc, hfind, hzero, Option.bind_eq_bind, Option.bind_some, ne_eq,
    not_true_eq_false, if_false]
  rfl

/-- Daylight time whose second lookup is daylight time again. -/
theorem fromLocalTime_daylight (hc : c.Exact)
    (hfind : findLocalTime data ⟨0, t + lt.gmtOffset, 0⟩ ⟨false⟩ = some lt')
    (htry : findLocalTime data ⟨t + lt.gmtOffset - lt'.gmtOffset, 0, 0⟩ ⟨true⟩ = some lt'')
    (hdst : lt''.isDst = true) :
    fromLocalTime c data (fillLocalTime c data t lt) =
      some (t + lt.gmtOffset - lt'.gmtOffset) := by
  have hone : (fillLocalTime c data (t + lt.gmtOffset - lt'.gmtOffset) lt'').isdst = 1 := by
    simp [fillLocalTime, hdst]
  unfold fromLocalTime
  simp only [timegm_fillLocalTime hc, hfind, Option.bind_eq_bind, Option.bind_some]
  split
  · simp only [toLocalTime_eq htry, hone, Option.bind_some]
    rfl
  · rfl

/-- Daylight time whose second lookup is standard time at the same reading of the clock: the hour is
repeated, and this is its first pass. -/
theorem fromLocalTime_repeated (hc : c.Exact) (hdst : lt.isDst = true)
    (hfind : findLocalTime data ⟨0, t + lt.gmtOffset, 0⟩ ⟨false⟩ = some lt')
    (htry : findLocalTime data ⟨t + lt.gmtOffset - lt'.gmtOffset, 0, 0⟩ ⟨true⟩ = some lt'')
    (hstd : lt''.isDst = false) (hoff : lt''.gmtOffset = lt'.gmtOffset) :
    fromLocalTime c data (fillLocalTime c data t lt) =
      some (t + lt.gmtOffset - 3600 - lt'.gmtOffset) := by
  have hone : (fillLocalTime c data t lt).isdst = 1 := by
    simp [fillLocalTime, hdst]
  have hclock : t + lt.gmtOffset - lt'.gmtOffset + lt''.gmtOffset = t + lt.gmtOffset := by
    rw [hoff]
    ring
  have hsame : (fillLocalTime c data (t + lt.gmtOffset - lt'.gmtOffset) lt'').isdst = 0 ∧
      (fillLocalTime c data (t + lt.gmtOffset - lt'.gmtOffset) lt'').hour =
        (fillLocalTime c data t lt).hour ∧
      (fillLocalTime c data (t + lt.gmtOffset - lt'.gmtOffset) lt'').min =
        (fillLocalTime c data t lt).min := by
    simp [fillLocalTime, hstd, hclock]
  unfold fromLocalTime
  simp only [timegm_fillLocalTime hc, hfind, Option.bind_eq_bind, Option.bind_some]
  rw [if_pos (by rw [hone]; decide)]
  simp only [toLocalTime_eq htry, Option.bind_some]
  rw [if_pos hsame]
  rfl

end

namespace IsDaylight

variable {data : Data} {std t : Int}

/-- Before the first transition both searches give the first type. -/
theorem find_before (h : IsDaylight data std)
    (hbefore : ∀ u, data.transitions[0]? = some u → t < u.gmttime) :
    ∃ lt, findLocalTime data ⟨t, 0, 0⟩ ⟨true⟩ = some lt ∧ lt.isDst = false ∧
      findLocalTime data ⟨0, t + lt.gmtOffset, 0⟩ ⟨false⟩ = some lt := by
  obtain ⟨a, b, htypes⟩ := h.types
  refine ⟨⟨std, false, a⟩, ?_, rfl, ?_⟩
  · rw [findLocalTime_before hbefore, htypes]
    rfl
  · rw [findLocalTime_before, htypes]
    · rfl
    · intro u hu
      have hgmt := hbefore u hu
      have hloc := h.localtime_bounds hu
      show t + std < u.localtime
      omega

/-- After a transition that ends daylight time both searches give standard time. -/
theorem find_ended (h : IsDaylight data std) {i : Nat} {s : Transition}
    (hs : data.transitions[i]? = some s) (hi : ¬ i % 2 = 0) (hle : s.gmttime ≤ t)
    (hnext : ∀ u, data.transitions[i + 1]? = some u → t < u.gmttime) :
    ∃ lt, findLocalTime data ⟨t, 0, 0⟩ ⟨true⟩ = some lt ∧ lt.isDst = false ∧
      findLocalTime data ⟨0, t + lt.gmtOffset, 0⟩ ⟨false⟩ = some lt := by
  obtain ⟨hloc, lt, hlt, hoff, hdst⟩ := h.ends hs hi
  refine ⟨lt, ?_, hdst, ?_⟩
  · rw [findGmt_at (h.sorted _) hs hle hnext, hlt]
  · rw [findLocal_at (h.sorted _) hs, hlt]
    · omega
    · intro u hu
      have hgmt := hnext u hu
      have hulocal := h.localtime_bounds hu
      omega

/-- In the last hour of daylight time the search by local time already gives standard time, and so
does the second lookup. -/
theorem find_repeated (h : IsDaylight data std) {i : Nat} {u : Transition}
    (hu : data.transitions[i]? = some u) (hi : ¬ i % 2 = 0) (hlo : u.gmttime ≤ t + 3600)
    (hhi : t < u.gmttime) :
    ∃ lt, findLocalTime data ⟨0, t + (std + 3600), 0⟩ ⟨false⟩ = some lt ∧
      findLocalTime data ⟨t + 3600, 0, 0⟩ ⟨true⟩ = some lt ∧
      lt.gmtOffset = std ∧ lt.isDst = false := by
  obtain ⟨hloc, lt, hlt, hoff, hdst⟩ := h.ends hu hi
  refine ⟨lt, ?_, ?_, hoff, hdst⟩
  · rw [findLocal_at (h.sorted _) hu, hlt]
    · omega
    · intro v hv
      have hfar := h.far_apart (Nat.lt_succ_self i) hu hv
      have hvlocal := h.localtime_bounds hv
      omega
  · rw [findGmt_at (h.sorted _) hu hlo, hlt]
    intro v hv
    have hfar := h.far_apart (Nat.lt_succ_self i) hu hv
    omega

end IsDaylight

/-- A time of daylight time, `s` being the transition that started it. -/
theorem roundTrip_daylight {c : Calendar} (hc : c.Exact) {data : Data} {std t : Int}
    (h : IsDaylight data std) {i : Nat} {s : Transition} (hs : data.transitions[i]? = some s)
    (hi : i % 2 = 0) (hle : s.gmttime ≤ t)
    (hnext : ∀ u, data.transitions[i + 1]? = some u → t < u.gmttime) :
    ∃ tm, toLocalTime c data t = some tm ∧ fromLocalTime c data tm = some t := by
  obtain ⟨hloc, lt, hlt, hoff, hdst⟩ := h.starts hs hi
  have hfind : findLocalTime data ⟨t, 0, 0⟩ ⟨true⟩ = some lt := by
    rw [findGmt_at (h.sorted _) hs hle hnext, hlt]
  refine ⟨_, toLocalTime_eq hfind, ?_⟩
  by_cases hrep : ∃ u, data.transitions[i + 1]? = some u ∧ u.gmttime ≤ t + 3600
  · -- the hour before the end of daylight time
    obtain ⟨u, hu, hlo⟩ := hrep
    obtain ⟨lt', hfind', htry, hoff', hdst'⟩ :=
      h.find_repeated hu (by omega) hlo (hnext u hu)
    have hshift : t + lt.gmtOffset - lt'.gmtOffset = t + 3600 := by omega
    rw [← hoff] at hfind'
    rw [← hshift] at htry
    rw [fromLocalTime_repeated hc hdst hfind' htry hdst' rfl]
    congr 1
    omega
  · -- both searches find the transition that started daylight time
    have hfind' : findLocalTime data ⟨0, t + lt.gmtOffset, 0⟩ ⟨false⟩ = some lt := by
      rw [findLocal_at (h.sorted _) hs, hlt]
      · omega
      · intro u hu
        have hulocal := h.ends hu (by omega)
        have hfar : ¬ u.gmttime ≤ t + 3600 := fun hcontra ↦ hrep ⟨u, hu, hcontra⟩
        omega
    have hback : t + lt.gmtOffset - lt.gmtOffset = t := Int.add_sub_cancel t lt.gmtOffset
    rw [← hback] at hfind
    rw [fromLocalTime_daylight hc hfind' hfind hdst, hback]

/-- **Local time round trip.**  A time is converted to local time and back, in the repeated hour at
the end of daylight time and around the skipped one at its start too. -/
theorem fromLocalTime_toLocalTime {c : Calendar} (hc : c.Exact) {data : Data} {std : Int}
    (h : IsDaylight data std) (t : Int) :
    ∃ tm, toLocalTime c data t = some tm ∧ fromLocalTime c data tm = some t := by
  -- in standard time both searches give one type, and its offset cancels
  have hstandard : (∃ lt, findLocalTime data ⟨t, 0, 0⟩ ⟨true⟩ = some lt ∧ lt.isDst = false ∧
      findLocalTime data ⟨0, t + lt.gmtOffset, 0⟩ ⟨false⟩ = some lt) →
      ∃ tm, toLocalTime c data t = some tm ∧ fromLocalTime c data tm = some t := by
    rintro ⟨lt, hfind, hdst, hlocal⟩
    refine ⟨_, toLocalTime_eq hfind, ?_⟩
    rw [fromLocalTime_standard hc hdst hlocal, Int.add_sub_cancel]
  rcases exists_last data.transitions ⟨true⟩ t with hbefore | ⟨i, s, hs, hle, hnext⟩
  · exact hstandard (h.find_before hbefore)
  · by_cases hi : i % 2 = 0
    · exact roundTrip_daylight hc h hs hi hle hnext
    · exact hstandard (h.find_ended hs hi hle hnext)

/-! ## 3. An exact calendar -/

/-- The proleptic Gregorian calendar without a bound on the year. -/
def gregorian : Calendar where
  gmtime_r x :=
    let a := CivilDate.ofDayNumber (x / 86400 + epoch.dayNumber)
    { sec := x % 60
      min := x / 60 % 60
      hour := x / 3600 % 24
      mday := a.day
      mon := a.month - 1
      year := a.year - 1900
      wday := (x / 86400 + 4) % 7
      yday := a.dayNumber - (january1 a.year).dayNumber
      isdst := 0
      gmtoff := 0
      zone := some [71, 77, 84] }
  timegm tm :=
    (daysBeforeYear (tm.year + 1900) + daysBeforeMonth (tm.year + 1900) (tm.mon + 1).toNat +
      (tm.mday - 1) - epoch.dayNumber) * 86400 + tm.hour * 3600 + tm.min * 60 + tm.sec

theorem gregorian_exact : gregorian.Exact where
  inverse x := by
    have hday (a : CivilDate) :
        daysBeforeYear a.year + daysBeforeMonth a.year a.month + (a.day - 1) = a.dayNumber := rfl
    simp only [gregorian, Int.sub_add_cancel, Int.toNat_natCast, hday,
      CivilDate.dayNumber_ofDayNumber]
    omega
  fields s t hsec hmin hhour hmday hmon hyear := by
    simp only [gregorian, hsec, hmin, hhour, hmday, hmon, hyear]

/-- Central European time in 2020. -/
def cet2020 : Data where
  transitions := [⟨1585443600, 1585450800, 1⟩, ⟨1603587600, 1603591200, 0⟩]
  localtimes := [⟨3600, false, 0⟩, ⟨7200, true, 4⟩]
  abbrviation := [67, 69, 84, 0, 67, 69, 83, 84, 0]

/-- Half an hour before daylight time ends. -/
theorem roundTrip_cet2020 :
    ∃ tm, toLocalTime gregorian cet2020 1603585800 = some tm ∧
      fromLocalTime gregorian cet2020 tm = some 1603585800 := by
  have h : IsDaylight cet2020 3600 := by
    refine ⟨⟨0, 4, rfl⟩, ?_, by decide, ?_⟩
    · intro i t ht
      rcases i with _ | _ | i
      · cases ht
        rfl
      · cases ht
        rfl
      · cases ht
    · intro i s t hs ht
      rcases i with _ | i
      · cases hs
        cases ht
        decide
      · cases ht
  exact fromLocalTime_toLocalTime gregorian_exact h 1603585800

end Netlib
