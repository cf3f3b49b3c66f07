import Netlib.Lib.Periodic
import Netlib.Net.TimerFiring

/-!
# When timers fire

The firings of one timer over a whole run, with the readings of the clock in `handleRead` that they
were made at (`net/TimerQueue.cc`, `Timer::restart` of `net/Timer.cc`).  A timer fires at the
readings that its own plan names: the first one not before its expiration, and each other a period
behind the one in front of it, for as long as it is not cancelled.
-/

namespace Netlib

open Periodic

/-- The period that `restart` adds. -/
def Timer.period (timer : Timer) : Option Int :=
  if timer.repeats then some timer.interval else none

namespace TimerQueue

/-- What a step tells of timers and the clock. -/
inductive Mark where
  /-- `addTimerInLoop`, with the timer as it was then. -/
  | added (timer : Timer)
  /-- `handleRead` has read the clock. -/
  | took (now : Time)
  /-- A callback of the batch taken at `now`. -/
  | fired (sequence : Nat) (now : Time)
deriving DecidableEq

def markOf (s : TimerQueue) : Label → Option Mark
  | .addTimerInLoop p _ => (s.heap p).map .added
  | .handleRead now _ => some (.took now)
  | .run =>
    match s.batch with
    | some ⟨now, _, e :: _⟩ => (s.heap e.timer).map fun timer ↦ .fired timer.sequence now
    | _ => none
  | _ => none

def mark : Except TimerFault TimerQueue → Label → Option Mark
  | .ok s, l => s.markOf l
  | .error _, _ => none

/-- The readings that a timer fired at. -/
def firings (q : Nat) (h : List Mark) : List Time :=
  h.filterMap fun
    | .fired q' now => if q' = q then some now else none
    | _ => none

/-- The readings of `handleRead`. -/
def readings (h : List Mark) : List Time :=
  h.filterMap fun
    | .took now => some now
    | _ => none

/-- What a timer that was added is to do at the readings behind that. -/
def plan (timer : Timer) (after : List Mark) : Plan Time :=
  .of timer.period timer.expiration (readings after)

/-- The addresses of the batch that are still to run. -/
def remaining (s : TimerQueue) : List Address :=
  s.batch.elim [] fun b ↦ b.rest.map Entry.timer

/-- The reading that the batch was taken at. -/
def batchNow (s : TimerQueue) : List Time := s.batch.toList.map (·.now)

/-- Where a live timer stands against its plan: a timer of the batch has one more firing in the plan
until it has run, and is due again a period behind the reading of the batch. -/
structure Placed (s : TimerQueue) (p : Address) (timer : Timer) (ts : List Time) (pl : Plan Time) :
    Prop where
  fired : pl.fired = ts ++ if p ∈ s.remaining then s.batchNow else []
  waiting : p ∉ s.expiring → pl.due = some timer.expiration
  expiring : p ∈ s.expiring → ∀ now ∈ s.batchNow, pl.due = timer.period.map (now + ·)

/-- Nothing has been told of a timer yet. -/
structure Untold (q : Nat) (h : List Mark) : Prop where
  added : ∀ m, .added m ∈ h → m.sequence ≠ q
  fired : firings q h = []

/-- A timer that was added when the history was `before`, with `after` behind that: it has fired
only since then, and as its plan says. -/
structure Followed (s : TimerQueue) (before : List Mark) (m : Timer) (after : List Mark) :
    Prop where
  silent : firings m.sequence before = []
  behind : firings m.sequence after <+: (plan m after).fired
  placed : ∀ p timer, s.heap p = some timer → timer.sequence = m.sequence →
    timer.period = m.period ∧ s.Placed p timer (firings m.sequence after) (plan m after)

/-- Every timer of the history is followed, and those to come have not been told of. -/
structure OnPlan (s : TimerQueue) (h : List Mark) : Prop where
  fresh : ∀ q, s.index < q → Untold q h
  adding : ∀ p ∈ s.adding, ∀ timer, s.heap p = some timer → Untold timer.sequence h
  followed : ∀ before m after, h = before ++ .added m :: after → s.Followed before m after

/-- `addTimerInLoop` has run for the timer. -/
def Added (q : Nat) (h : List Mark) : Prop := ∃ m, .added m ∈ h ∧ m.sequence = q

/-- It has for every timer that is not on its way there, and for every one that has fired. -/
structure Told (s : TimerQueue) (h : List Mark) : Prop where
  live : ∀ p timer, s.heap p = some timer → p ∉ s.adding → Added timer.sequence h
  fired : ∀ q now, .fired q now ∈ h → Added q h

/-! ## 1. Histories -/

section

variable {q : Nat} {h after : List Mark} {m timer : Timer} {now : Time}

@[simp] theorem firings_append (h h' : List Mark) :
    firings q (h ++ h') = firings q h ++ firings q h' := List.filterMap_append ..

@[simp] theorem readings_append (h h' : List Mark) :
    readings (h ++ h') = readings h ++ readings h' := List.filterMap_append ..

@[simp] theorem firings_added : firings q [.added m] = [] := rfl

@[simp] theorem firings_took : firings q [.took now] = [] := rfl

theorem firings_fired (q' : Nat) :
    firings q [.fired q' now] = if q' = q then [now] else [] := by
  unfold firings
  by_cases h : q' = q <;> simp [h]

theorem plan_added : plan m (after ++ [.added timer]) = plan m after := by
  rw [plan, readings_append, show readings [.added timer] = [] from rfl, List.append_nil, plan]

theorem plan_fired (q' : Nat) : plan m (after ++ [.fired q' now]) = plan m after := by
  rw [plan, readings_append, show readings [.fired q' now] = [] from rfl, List.append_nil, plan]

theorem plan_took :
    plan m (after ++ [.took now]) = (plan m after).take m.period now := by
  rw [plan, readings_append]
  exact Plan.of_concat

theorem Untold.concat (hq : Untold q h) {x : Mark} (hadded : ∀ m, x = .added m → m.sequence ≠ q)
    (hfired : firings q [x] = []) : Untold q (h ++ [x]) where
  added m hm := by
    rcases List.mem_append.mp hm with hold | hnew
    · exact hq.added m hold
    · exact hadded m (List.mem_singleton.mp hnew).symm
  fired := by rw [firings_append, hq.fired, hfired, List.nil_append]

theorem Added.append {h' : List Mark} (hq : Added q h) : Added q (h ++ h') := by
  obtain ⟨m, hm, hseq⟩ := hq
  exact ⟨m, List.mem_append_left _ hm, hseq⟩

theorem firings_eq_nil (hq : ∀ now, .fired q now ∉ h) : firings q h = [] := by
  refine List.filterMap_eq_nil_iff.mpr fun x hx ↦ ?_
  cases x with
  | fired q' now =>
    refine if_neg fun heq ↦ ?_
    subst heq
    exact hq now hx
  | added | took => rfl

end

/-! ## 2. One step -/

section

variable {s t : TimerQueue} {l : Label} {before after : List Mark} {m timer : Timer} {p : Address}

/-- The fields that say where a timer stands. -/
theorem Placed.congr {ts : List Time} {pl : Plan Time} (h : s.Placed p timer ts pl)
    (hbatch : t.batch = s.batch) : t.Placed p timer ts pl := by
  have hremaining : t.remaining = s.remaining := by rw [remaining, remaining, hbatch]
  have hnow : t.batchNow = s.batchNow := by rw [batchNow, batchNow, hbatch]
  have hexpiring : t.expiring = s.expiring := by
    rw [TimerQueue.expiring, TimerQueue.expiring, hbatch]
  refine ⟨?_, ?_, ?_⟩
  · rw [hremaining, hnow]
    exact h.fired
  · rw [hexpiring]
    exact h.waiting
  · rw [hexpiring, hnow]
    exact h.expiring

/-- Steps that neither fire nor read the clock nor move the timer. -/
theorem Followed.congr (h : s.Followed before m after)
    (hheap : ∀ p timer, t.heap p = some timer → timer.sequence = m.sequence →
      s.heap p = some timer) (hbatch : t.batch = s.batch) : t.Followed before m after where
  silent := h.silent
  behind := h.behind
  placed p timer hp hseq := by
    obtain ⟨hperiod, hplaced⟩ := h.placed p timer (hheap p timer hp hseq) hseq
    exact ⟨hperiod, hplaced.congr hbatch⟩

theorem Followed.added (h : s.Followed before m after) (timer : Timer) :
    s.Followed before m (after ++ [.added timer]) where
  silent := h.silent
  behind := by
    rw [firings_append, firings_added, List.append_nil, plan_added]
    exact h.behind
  placed p timer' hp hseq := by
    rw [firings_append, firings_added, List.append_nil, plan_added]
    exact h.placed p timer' hp hseq

/-- A timer neither in a batch nor on its way is in `_timers`. -/
theorem Invariant.mem_timers (hinv : s.Invariant) (hexpiring : s.expiring = [])
    (hadding : ∀ p ∈ s.adding, ∀ timer, s.heap p = some timer → timer.sequence ≠ m.sequence)
    (hheap : s.heap p = some timer) (hseq : timer.sequence = m.sequence) :
    ⟨timer.expiration, p⟩ ∈ s.timers := by
  refine (hinv.1.held.held p timer hheap).resolve_right fun hloose ↦ ?_
  rw [hexpiring, List.nil_append] at hloose
  exact hadding p hloose timer hheap hseq

/-- `handleRead` takes the timers whose plans have a firing at the reading. -/
theorem Followed.takeBatch (h : s.Followed before m after) (hinv : s.Invariant)
    (hnone : s.batch = none)
    (hadding : ∀ p ∈ s.adding, ∀ timer, s.heap p = some timer → timer.sequence ≠ m.sequence)
    (now : Time) (fired : Bool) (active : OrdSet ActiveTimer) :
    (s.takeBatch now fired active).Followed before m (after ++ [.took now]) := by
  refine ⟨h.silent, ?_, fun p timer hp hseq ↦ ?_⟩
  · rw [firings_append, firings_took, List.append_nil, plan_took]
    exact h.behind.trans Plan.fired_prefix_take
  obtain ⟨hperiod, hplaced⟩ := h.placed p timer hp hseq
  have hexpiring : s.expiring = [] := by rw [expiring, hnone]; rfl
  have hremaining : s.remaining = [] := by rw [remaining, hnone]; rfl
  have hfired : (plan m after).fired = firings m.sequence after := by
    rw [hplaced.fired, hremaining, if_neg List.not_mem_nil, List.append_nil]
  have hdue : (plan m after).due = some timer.expiration :=
    hplaced.waiting (hexpiring ▸ List.not_mem_nil)
  have hmem := hinv.mem_timers hexpiring hadding hp hseq
  have hiff : p ∈ (s.timers.below ⟨now, uintptrMax⟩).toList.map Entry.timer ↔
      timer.expiration ≤ now := by
    rw [hinv.1.oneToOne.timer_mem_below hp hmem, Entry.lt_iff, le_iff_lt_or_eq]
    refine or_congr_right ⟨And.left, fun heq ↦ ⟨heq, hinv.1.address p timer hp⟩⟩
  refine ⟨hperiod, ?_⟩
  rw [firings_append, firings_took, List.append_nil, plan_took]
  by_cases hle : timer.expiration ≤ now
  · have hin := hiff.mpr hle
    rw [Plan.take_of_due ⟨_, hdue, hle⟩]
    refine ⟨?_, fun hout ↦ (hout hin).elim, fun _ now' hnow' ↦ ?_⟩
    · rw [if_pos (show p ∈ (s.takeBatch now fired active).remaining from hin), hfired]
      rfl
    · rw [show now' = now from List.mem_singleton.mp hnow', ← hperiod]
  · have hout : p ∉ (s.timers.below ⟨now, uintptrMax⟩).toList.map Entry.timer :=
      fun hin ↦ hle (hiff.mp hin)
    have hnot : ¬ (plan m after).IsDue now := by
      rintro ⟨t, ht, hlt⟩
      rw [hdue, Option.some.injEq] at ht
      exact hle (ht ▸ hlt)
    rw [Plan.take_of_not_due hnot]
    refine ⟨?_, fun _ ↦ hdue, fun hin ↦ (hout hin).elim⟩
    rw [if_neg (show p ∉ (s.takeBatch now fired active).remaining from hout), hfired,
      List.append_nil]

/-- A callback is the firing that the plan already has. -/
theorem Followed.ran (h : s.Followed before m after) (hinv : s.Invariant)
    (hsuffix : s.RestIsSuffix) {now : Time} {expired rest : List Entry} {e : Entry}
    {timer : Timer} (hbatch : s.batch = some ⟨now, expired, e :: rest⟩)
    (hheap : s.heap e.timer = some timer) :
    { s.record (.ran timer.sequence) with batch := some ⟨now, expired, rest⟩ }.Followed before m
      (after ++ [Mark.fired timer.sequence now]) := by
  have hremaining : s.remaining = e.timer :: rest.map Entry.timer := by rw [remaining, hbatch]; rfl
  have hnow : s.batchNow = [now] := by rw [batchNow, hbatch]; rfl
  have hexpiring : s.expiring = expired.map Entry.timer := by rw [expiring, hbatch]; rfl
  refine ⟨h.silent, ?_, fun p timer' hp hseq ↦ ?_⟩
  · rw [firings_append, firings_fired, plan_fired]
    by_cases hm : timer.sequence = m.sequence
    · rw [if_pos hm, (h.placed _ _ hheap hm).2.fired, hremaining, if_pos List.mem_cons_self, hnow]
    · rw [if_neg hm, List.append_nil]
      exact h.behind
  replace hp : s.heap p = some timer' := hp
  obtain ⟨hperiod, hplaced⟩ := h.placed p timer' hp hseq
  have hfired := hplaced.fired
  rw [hremaining, hnow] at hfired
  rw [firings_append, firings_fired, plan_fired]
  refine ⟨hperiod, ?_, fun hout ↦ hplaced.waiting (hexpiring ▸ hout),
    fun hin now' hnow' ↦ hplaced.expiring (hexpiring ▸ hin) now' (hnow ▸ hnow')⟩
  rw [hfired]
  show _ = _ ++ if p ∈ rest.map Entry.timer then [now] else []
  by_cases hpe : p = e.timer
  · subst hpe
    rw [hheap, Option.some.injEq] at hp
    subst hp
    rw [if_pos List.mem_cons_self, if_pos hseq, if_neg (hsuffix.not_mem_tail hinv hbatch),
      List.append_nil]
  · have hne : timer.sequence ≠ m.sequence := fun heq ↦
      hpe (hinv.1.named.injective _ _ _ _ hp hheap (hseq.trans heq.symm))
    rw [if_neg hne, List.append_nil]
    simp only [List.mem_cons, hpe, false_or]

/-- `reset` starts a timer again a period behind the reading of its batch. -/
theorem Followed.reset (h : s.Followed before m after) (hinv : s.Invariant) {now clock : Time}
    {expired : List Entry} (hbatch : s.batch = some ⟨now, expired, []⟩)
    (hsettled : { s with callingExpiredTimer := false }.Settled now expired t) :
    { t with timerFd := t.rearm clock, batch := none }.Followed before m after := by
  have hremaining : s.remaining = [] := by rw [remaining, hbatch]; rfl
  have hnow : s.batchNow = [now] := by rw [batchNow, hbatch]; rfl
  have hexpiring : s.expiring = expired.map Entry.timer := by rw [expiring, hbatch]; rfl
  refine ⟨h.silent, h.behind, fun p timer hp hseq ↦ ?_⟩
  by_cases hin : p ∈ expired.map Entry.timer
  -- back from the batch
  · obtain ⟨e, he, rfl⟩ := List.mem_map.mp hin
    obtain ⟨timer', hheap⟩ := hinv.live_of_batch hbatch e he
    replace hp := (hsettled.heap_of_mem e he timer' hheap).symm.trans hp
    rw [Option.ite_none_right_eq_some, Option.some.injEq] at hp
    obtain ⟨hagain, rfl⟩ := hp
    obtain ⟨hperiod, hplaced⟩ := h.placed e.timer timer' hheap hseq
    have hfired := hplaced.fired
    rw [hremaining, if_neg List.not_mem_nil] at hfired
    refine ⟨hperiod, hfired, fun _ ↦ ?_, fun hin ↦ (List.not_mem_nil hin).elim⟩
    rw [hplaced.expiring (hexpiring ▸ hin) now (hnow ▸ List.mem_cons_self), Timer.period,
      if_pos hagain.1, Timer.restart, if_pos hagain.1]
    rfl
  · have hheap : s.heap p = some timer := (hsettled.heap_of_not_mem p hin).symm.trans hp
    obtain ⟨hperiod, hplaced⟩ := h.placed p timer hheap hseq
    have hfired := hplaced.fired
    rw [hremaining, if_neg List.not_mem_nil] at hfired
    exact ⟨hperiod, hfired, fun _ ↦ hplaced.waiting (hexpiring ▸ hin),
      fun hin ↦ (List.not_mem_nil hin).elim⟩

theorem OnPlan.ne_of_adding {hist : List Mark} (h : s.OnPlan hist)
    (hsplit : hist = before ++ .added m :: after) :
    ∀ p ∈ s.adding, ∀ timer, s.heap p = some timer → timer.sequence ≠ m.sequence :=
  fun p hp timer hheap ↦
    ((h.adding p hp timer hheap).added m (hsplit ▸ by simp)).symm

/-- Steps without a mark that start no timer and move none of the batch. -/
theorem OnPlan.congr {hist : List Mark} (h : s.OnPlan hist) (hindex : t.index = s.index)
    (hadding : t.adding = s.adding)
    (hheap : ∀ p timer, t.heap p = some timer → s.heap p = some timer)
    (hbatch : t.batch = s.batch) : t.OnPlan hist where
  fresh q hq := h.fresh q (hindex ▸ hq)
  adding p hp timer hp' := h.adding p (hadding ▸ hp) timer (hheap p timer hp')
  followed before m after hsplit :=
    (h.followed before m after hsplit).congr (fun p timer hp _ ↦ hheap p timer hp) hbatch

theorem OnPlan.newTimer {hist : List Mark} (h : s.OnPlan hist) (hfree : s.heap p = none)
    (when : Time) (interval : Int) (repeats : Bool) :
    (s.newTimer p when interval repeats).OnPlan hist where
  fresh q hq := h.fresh q (Nat.lt_of_succ_lt hq)
  adding p' hp' timer hheap := by
    rcases newTimer_heap_cases hheap with rfl | hold
    · exact h.fresh _ (Nat.lt_succ_self _)
    · refine h.adding p' ?_ timer hold
      rcases List.mem_append.mp hp' with hp' | hp'
      · exact hp'
      · rw [List.mem_singleton.mp hp', hfree] at hold
        cases hold
  followed before m after hsplit := by
    refine (h.followed before m after hsplit).congr (fun p' timer hheap hseq ↦ ?_) rfl
    rcases newTimer_heap_cases hheap with rfl | hold
    · exact ((h.fresh _ (Nat.lt_succ_self _)).added m (hsplit ▸ by simp) hseq.symm).elim
    · exact hold

theorem OnPlan.add {hist : List Mark} (h : s.OnPlan hist) (hinv : s.Invariant) {timer : Timer}
    (hp : p ∈ s.adding) (hheap : s.heap p = some timer) (fd : Option Arming) :
    { s.put p timer with adding := s.adding.erase p, timerFd := fd }.OnPlan
      (hist ++ [Mark.added timer]) := by
  have hnodup : s.adding.Nodup := (List.nodup_append.mp hinv.1.held.nodup).2.1
  have hexpiring : p ∉ s.expiring := fun hin ↦ (hinv.of_mem_expiring hin).2.1 hp
  have hremaining : p ∉ s.remaining := by
    intro hin
    refine hexpiring ?_
    unfold remaining at hin
    unfold expiring
    cases hbatch : s.batch with
    | none =>
      rw [hbatch] at hin
      exact hin
    | some b =>
      rw [hbatch] at hin
      obtain ⟨e, he, heq⟩ := List.mem_map.mp hin
      exact List.mem_map.mpr ⟨e, hinv.2 b hbatch he, heq⟩
  refine ⟨fun q hq ↦ ?_, fun p' hp' timer' hheap' ↦ ?_, fun before m after hsplit ↦ ?_⟩
  · refine (h.fresh q hq).concat (fun m hm heq ↦ ?_) firings_added
    cases hm
    have hissued := hinv.1.named.issued p timer hheap
    have hq' : s.index < q := hq
    omega
  · obtain ⟨hne, hin⟩ := (hnodup.mem_erase_iff).mp hp'
    refine (h.adding p' hin timer' hheap').concat (fun m hm heq ↦ ?_) firings_added
    cases hm
    exact hne (hinv.1.named.injective _ _ _ _ hheap' hheap heq.symm)
  · rcases Trace.eq_append_cons_of_concat hsplit with ⟨rfl, hm, rfl⟩ | ⟨after', rfl, hold⟩
    · cases hm
      refine ⟨(h.adding p hp timer hheap).fired, List.prefix_refl _, fun p' timer' hp' hseq ↦ ?_⟩
      obtain rfl : p' = p := hinv.1.named.injective _ _ _ _ hp' hheap hseq
      obtain rfl : timer' = timer := Option.some.inj (hp'.symm.trans hheap)
      refine ⟨rfl, ?_, fun _ ↦ rfl, fun hin ↦ (hexpiring hin).elim⟩
      exact (if_neg hremaining).symm
    · refine Followed.added ?_ timer
      exact (h.followed before m after' hold).congr (fun _ _ hp' _ ↦ hp') rfl

theorem OnPlan.takeBatch {hist : List Mark} (h : s.OnPlan hist) (hinv : s.Invariant)
    (hnone : s.batch = none) (now : Time) (fired : Bool) (active : OrdSet ActiveTimer) :
    (s.takeBatch now fired active).OnPlan (hist ++ [Mark.took now]) := by
  have hadded (q : Nat) (m : Timer) (hm : Mark.took now = .added m) : m.sequence ≠ q := by cases hm
  refine ⟨fun q hq ↦ (h.fresh q hq).concat (hadded q) firings_took,
    fun p hp timer hheap ↦ (h.adding p hp timer hheap).concat (hadded _) firings_took,
    fun before m after hsplit ↦ ?_⟩
  rcases Trace.eq_append_cons_of_concat hsplit with ⟨-, hm, -⟩ | ⟨after', rfl, hold⟩
  · cases hm
  · exact (h.followed before m after' hold).takeBatch hinv hnone (h.ne_of_adding hold) now fired
      active

theorem OnPlan.ran {hist : List Mark} (h : s.OnPlan hist) (hinv : s.Invariant)
    (hsuffix : s.RestIsSuffix) {now : Time} {expired rest : List Entry} {e : Entry} {timer : Timer}
    (hbatch : s.batch = some ⟨now, expired, e :: rest⟩) (hheap : s.heap e.timer = some timer) :
    { s.record (.ran timer.sequence) with batch := some ⟨now, expired, rest⟩ }.OnPlan
      (hist ++ [Mark.fired timer.sequence now]) := by
  have hadded (q : Nat) (m : Timer) (hm : Mark.fired timer.sequence now = .added m) :
      m.sequence ≠ q := by cases hm
  have hfired {q : Nat} (hq : timer.sequence ≠ q) : firings q [.fired timer.sequence now] = [] := by
    rw [firings_fired, if_neg hq]
  refine ⟨fun q hq ↦ (h.fresh q hq).concat (hadded q) (hfired ?_),
    fun p hp timer' hheap' ↦ (h.adding p hp timer' hheap').concat (hadded _) (hfired ?_),
    fun before m after hsplit ↦ ?_⟩
  · have hissued := hinv.1.named.issued e.timer timer hheap
    have hq' : s.index < q := hq
    omega
  -- the timer of a batch is not on its way into the sets
  · intro heq
    have hmem : e.timer ∈ s.expiring := mem_expiring hbatch (hinv.2 _ hbatch List.mem_cons_self)
    refine (hinv.of_mem_expiring hmem).2.1 ?_
    rw [← hinv.1.named.injective _ _ _ _ hheap' hheap heq.symm]
    exact hp
  · rcases Trace.eq_append_cons_of_concat hsplit with ⟨-, hm, -⟩ | ⟨after', rfl, hold⟩
    · cases hm
    · exact (h.followed before m after' hold).ran hinv hsuffix hbatch hheap

theorem OnPlan.reset {hist : List Mark} (h : s.OnPlan hist) (hinv : s.Invariant) {now clock : Time}
    {expired : List Entry} (hbatch : s.batch = some ⟨now, expired, []⟩)
    (hsettled : { s with callingExpiredTimer := false }.Settled now expired t) :
    { t with timerFd := t.rearm clock, batch := none }.OnPlan hist := by
  have hexpiring : s.expiring = expired.map Entry.timer := by rw [expiring, hbatch]; rfl
  refine ⟨fun q hq ↦ h.fresh q ?_, fun p hp timer hheap ↦ ?_, fun before m after hsplit ↦
    (h.followed before m after hsplit).reset hinv hbatch hsettled⟩
  · rw [← hsettled.index]
    exact hq
  · have hadding : p ∈ s.adding := by
      rw [← hsettled.adding]
      exact hp
    have hout : p ∉ expired.map Entry.timer := fun hin ↦
      (hinv.of_mem_expiring (hexpiring ▸ hin)).2.1 hadding
    exact h.adding p hadding timer ((hsettled.heap_of_not_mem p hout).symm.trans hheap)

/-- What one step adds to the history, and what it keeps. -/
theorem StepTo.onPlan {hist : List Mark} (hstep : StepTo s l t) (hinv : s.Invariant)
    (hsuffix : s.RestIsSuffix) (h : s.OnPlan hist) :
    t.OnPlan (hist ++ (s.markOf l).toList) := by
  cases hstep with
  | newTimer hfree =>
    simp only [markOf, Option.toList_none, List.append_nil]
    exact h.newTimer hfree _ _ _
  | add hp hheap =>
    rw [markOf, hheap, Option.map_some, Option.toList_some]
    exact h.add hinv hp hheap _
  | discard =>
    simp only [markOf, Option.toList_none, List.append_nil]
    exact h.congr rfl rfl (fun _ _ ↦ heap_of_discard_heap) rfl
  | remember =>
    simp only [markOf, Option.toList_none, List.append_nil]
    exact h.congr rfl rfl (fun _ _ hheap ↦ hheap) rfl
  | handleRead hnone =>
    rw [markOf, Option.toList_some]
    exact h.takeBatch hinv hnone _ _ _
  | @run now expired rest e timer hbatch hheap =>
    have hmark : s.markOf .run = some (.fired timer.sequence now) := by
      simp only [markOf, hbatch, hheap, Option.map_some]
    rw [hmark, Option.toList_some]
    exact h.ran hinv hsuffix hbatch hheap
  | reset hbatch hsettled =>
    simp only [markOf, Option.toList_none, List.append_nil]
    exact h.reset hinv hbatch hsettled

/-- Steps without a mark of their own. -/
theorem Told.congr {hist : List Mark} (h : s.Told hist)
    (hheap : ∀ p timer, t.heap p = some timer → p ∉ t.adding →
      ∃ timer', s.heap p = some timer' ∧ timer'.sequence = timer.sequence ∧ p ∉ s.adding) :
    t.Told hist where
  live p timer hp hout := by
    obtain ⟨timer', hp', hseq, hout'⟩ := hheap p timer hp hout
    rw [← hseq]
    exact h.live p timer' hp' hout'
  fired := h.fired

theorem Told.append {hist hist' : List Mark} (h : s.Told hist)
    (hfired : ∀ q now, .fired q now ∈ hist' → Added q hist) : s.Told (hist ++ hist') where
  live p timer hp hout := (h.live p timer hp hout).append
  fired q now hmem := by
    rcases List.mem_append.mp hmem with hold | hnew
    · exact (h.fired q now hold).append
    · exact (hfired q now hnew).append

theorem StepTo.told {hist : List Mark} (hstep : StepTo s l t) (hinv : s.Invariant)
    (h : s.Told hist) : t.Told (hist ++ (s.markOf l).toList) := by
  cases hstep with
  | @newTimer p =>
    simp only [markOf, Option.toList_none, List.append_nil]
    refine h.congr fun p' timer hp hout ↦ ?_
    have hne : p' ≠ p := by
      rintro rfl
      exact hout (List.mem_append_right _ List.mem_cons_self)
    exact ⟨timer, (Function.update_of_ne hne ..).symm.trans hp, rfl,
      fun hin ↦ hout (List.mem_append_left _ hin)⟩
  | @add p clock timer hp hheap =>
    rw [markOf, hheap, Option.map_some, Option.toList_some]
    refine ⟨fun p' timer' hp' hout ↦ ?_, fun q now hmem ↦ ?_⟩
    · by_cases heq : p' = p
      · subst heq
        obtain rfl : timer' = timer := Option.some.inj (hp'.symm.trans hheap)
        exact ⟨timer', by simp, rfl⟩
      · refine (h.live p' timer' hp' fun hin ↦ hout ?_).append
        exact (List.mem_erase_of_ne heq).mpr hin
    · rcases List.mem_append.mp hmem with hold | hnew
      · exact (h.fired q now hold).append
      · cases List.mem_singleton.mp hnew
  | discard =>
    simp only [markOf, Option.toList_none, List.append_nil]
    exact h.congr fun p timer hp hout ↦ ⟨timer, heap_of_discard_heap hp, rfl, hout⟩
  | remember =>
    simp only [markOf, Option.toList_none, List.append_nil]
    exact h.congr fun p timer hp hout ↦ ⟨timer, hp, rfl, hout⟩
  | handleRead =>
    refine Told.append (h.congr fun p timer hp hout ↦ ⟨timer, hp, rfl, hout⟩) fun q now hmem ↦ ?_
    simp [markOf] at hmem
  | @run now expired rest e timer hbatch hheap =>
    have hmark : s.markOf .run = some (.fired timer.sequence now) := by
      simp only [markOf, hbatch, hheap, Option.map_some]
    rw [hmark, Option.toList_some]
    refine Told.append (h.congr fun p timer hp hout ↦ ⟨timer, hp, rfl, hout⟩) fun q now hmem ↦ ?_
    cases List.mem_singleton.mp hmem
    have hin : e.timer ∈ s.expiring := mem_expiring hbatch (hinv.2 _ hbatch List.mem_cons_self)
    exact h.live e.timer timer hheap (hinv.of_mem_expiring hin).2.1
  | reset hbatch hsettled =>
    simp only [markOf, Option.toList_none, List.append_nil]
    refine h.congr fun p timer hp hout ↦ ?_
    have hout' : p ∉ s.adding := fun hin ↦ hout (hsettled.adding ▸ hin)
    rcases hsettled.heap_cases (hinv.live_of_batch hbatch) hp with
      ⟨-, hp'⟩ | ⟨timer', hp', -, rfl⟩
    · exact ⟨timer, hp', rfl, hout'⟩
    · exact ⟨timer', hp', rfl, hout'⟩

end

/-! ## 3. Whole runs -/

theorem init_onPlan : init.OnPlan [] where
  fresh _ _ := ⟨fun _ hm ↦ absurd hm List.not_mem_nil, rfl⟩
  adding _ hp := absurd hp List.not_mem_nil
  followed before m after hsplit := absurd hsplit (by simp)

theorem init_told : init.Told [] where
  live _ _ hp := by cases hp
  fired _ _ hmem := absurd hmem List.not_mem_nil

theorem run_onPlan {ls : List Label} {s : TimerQueue}
    (hrun : Trace.run next (.ok init) ls = some (.ok s)) :
    s.Invariant ∧ s.OnPlan (Trace.collect next mark (.ok init) ls) ∧
      s.Told (Trace.collect next mark (.ok init) ls) := by
  have hlast := Trace.run_history (f := mark) (h := [])
    (H := fun r h ↦ ∃ s, r = .ok s ∧ s.Invariant ∧ s.RestIsSuffix ∧ s.OnPlan h ∧ s.Told h)
    (fun r h l r' hr hstep ↦ ?_)
    ⟨init, rfl, init_invariant, fun b hb ↦ by simp [init] at hb, init_onPlan, init_told⟩ hrun
  · obtain ⟨t, ht, hinv, -, hplan⟩ := hlast
    cases ht
    exact ⟨hinv, hplan⟩
  · obtain ⟨u, rfl, hinv, hsuffix, hplan, htold⟩ := hr
    obtain ⟨v, rfl, hinv'⟩ := step_invariant hinv hstep
    have hto := step_cases hinv hstep
    exact ⟨v, rfl, hinv', hto.restIsSuffix hsuffix, hto.onPlan hinv hsuffix hplan,
      hto.told hinv htold⟩

/-- **When timers fire.**  Whatever is added and cancelled, and whatever the clock reads: a timer for
which `addTimerInLoop` has not run does not fire; and from then on a timer fires only at readings its
plan names, and in their order, so the first not before its expiration, and each other not before a
period behind the reading in front of it.  As long as it lives, with no batch being run it has fired at
every one of them, and stands in `_timers` for the time that it is due at next. -/
theorem firings_on_plan {ls : List Label} {s : TimerQueue}
    (hrun : Trace.run next (.ok init) ls = some (.ok s)) :
    (∀ q, ¬ Added q (Trace.collect next mark (.ok init) ls) →
      firings q (Trace.collect next mark (.ok init) ls) = []) ∧
    ∀ before m after, Trace.collect next mark (.ok init) ls = before ++ .added m :: after →
      firings m.sequence before = [] ∧
      firings m.sequence after <+: (plan m after).fired ∧
      Plan.Spaced m.period m.expiration (firings m.sequence after) ∧
      (s.batch = none → ∀ p timer, s.heap p = some timer → timer.sequence = m.sequence →
        firings m.sequence after = (plan m after).fired ∧
          (plan m after).due = some timer.expiration ∧ ⟨timer.expiration, p⟩ ∈ s.timers) := by
  obtain ⟨hinv, hplan, htold⟩ := run_onPlan hrun
  refine ⟨fun q hq ↦ firings_eq_nil fun now hmem ↦ hq (htold.fired q now hmem), ?_⟩
  intro before m after hsplit
  have hfollowed := hplan.followed before m after hsplit
  refine ⟨hfollowed.silent, hfollowed.behind, ?_, fun hnone p timer hheap hseq ↦ ?_⟩
  · exact (Plan.of_stands _ _ _).spaced.initial hfollowed.behind
  · obtain ⟨-, hplaced⟩ := hfollowed.placed p timer hheap hseq
    have hremaining : s.remaining = [] := by rw [remaining, hnone]; rfl
    have hexpiring : s.expiring = [] := by rw [expiring, hnone]; rfl
    refine ⟨?_, hplaced.waiting (hexpiring ▸ List.not_mem_nil), ?_⟩
    · rw [hplaced.fired, hremaining, if_neg List.not_mem_nil, List.append_nil]
    · exact hinv.mem_timers hexpiring (hplan.ne_of_adding hsplit) hheap hseq

/-- A timer for 100 with a period of 50, read late at 130, too early at 170 and late again at 200,
while another one is cancelled by its own callback. -/
def lateReadings : List Label :=
  [.newTimer 16 100 50 true, .addTimerInLoop 16 10, .newTimer 32 120 10 true,
    .addTimerInLoop 32 11, .handleRead 130 true, .run, .run, .cancleInLoop ⟨32, 2⟩, .reset 131,
    .handleRead 170 true, .reset 171, .handleRead 200 true, .run, .reset 201]

theorem firings_on_plan_lateReadings :
    ∃ s, Trace.run next (.ok init) lateReadings = some (.ok s) ∧
      Plan.Spaced (some (50 : Time)) 100 [130, 200] ∧ s.timers.toList = [⟨250, 16⟩] := by
  have hsplit : Trace.collect next mark (.ok init) lateReadings =
      [] ++ Mark.added ⟨100, 50, true, 1⟩ :: [.added ⟨120, 10, true, 2⟩, .took 130, .fired 1 130,
        .fired 2 130, .took 170, .took 200, .fired 1 200] := rfl
  obtain ⟨-, -, hspaced, -⟩ := (firings_on_plan
    (show Trace.run next (.ok init) lateReadings = some (.ok _) from rfl)).2 _ _ _ hsplit
  exact ⟨_, rfl, hspaced, rfl⟩

end TimerQueue

end Netlib
