import Netlib.Base.Time
import Netlib.Net.TimerSteps

/-!
# When the timer descriptor is armed

`addTimerInLoop` arms `_timerFd` for a new earliest timer, `reset` for the first timer behind a
batch, and nothing else does.  Outside `handleRead` the arming in force, or fired and not read yet,
has to be for a time no later than that of the first timer; in a batch only the timers at time zero
need one, since `reset` takes care of all others.
-/

namespace Netlib

/-! ## 1. The time passed to the kernel -/

structure Timespec where
  tv_sec : Int
  tv_nsec : Int
deriving DecidableEq, Repr

/-- `howMuchTimeFromNow`, at the clock reading `clock`. -/
def howMuchTimeFromNow (when clock : Int) : Timespec :=
  let microSeconds := when - clock
  let microSeconds := if microSeconds < 100 then 100 else microSeconds
  ⟨microSeconds.tdiv cMicroSecondsPerSecond, microSeconds.tmod cMicroSecondsPerSecond * 1000⟩

/-- A value that arms the descriptor, for `when` or for 100 microseconds from now. -/
structure Timespec.Arms (ts : Timespec) (when clock : Int) : Prop where
  notZero : ts ≠ ⟨0, 0⟩
  sec : 0 ≤ ts.tv_sec
  nsec : 0 ≤ ts.tv_nsec ∧ ts.tv_nsec < 1000000000
  deadline : clock * 1000 + ts.tv_sec * 1000000000 + ts.tv_nsec = max when (clock + 100) * 1000

theorem howMuchTimeFromNow_arms (when clock : Int) :
    (howMuchTimeFromNow when clock).Arms when clock := by
  have harms (us : Int) (hus : 100 ≤ us) (hmax : max when (clock + 100) = clock + us) :
      Timespec.Arms ⟨us / 1000000, us % 1000000 * 1000⟩ when clock := by
    refine ⟨fun h ↦ ?_, ?_, ⟨?_, ?_⟩, ?_⟩
    · simp only [Timespec.mk.injEq] at h
      omega
    · exact Int.ediv_nonneg (by omega) (by decide)
    · exact Int.mul_nonneg (Int.emod_nonneg us (by decide)) (by decide)
    · simp only
      omega
    · simp only [hmax]
      omega
  by_cases hshort : when - clock < 100
  · rw [howMuchTimeFromNow]
    simp only [if_pos hshort]
    exact harms 100 (le_refl _) (by omega)
  · rw [howMuchTimeFromNow]
    simp only [if_neg hshort]
    rw [tdiv_cMicroSecondsPerSecond (by omega), tmod_cMicroSecondsPerSecond (by omega)]
    exact harms (when - clock) (by omega) (by omega)

namespace TimerQueue

/-! ## 2. Armed early enough -/

/-- The arming in force is for no later than the entry. -/
def Covers (s : TimerQueue) (e : Entry) : Prop := ∃ a, s.timerFd = some a ∧ a.target ≤ e.when

/-- Outside `handleRead` the arming in force is early enough for every timer. -/
def Armed (s : TimerQueue) : Prop := s.batch = none → ∀ e ∈ s.timers, s.Covers e

/-- What the callers pass: no times before the epoch, and an interval that is not negative for a
timer that repeats. -/
def Sane : Label → Prop
  | .newTimer _ when interval repeats => 0 ≤ when ∧ (repeats = true → 0 ≤ interval)
  | .addTimerInLoop _ clock => 0 ≤ clock
  | .handleRead now _ => 0 ≤ now
  | .reset clock => 0 ≤ clock
  | .cancleInLoop _ | .run => True

instance : (l : Label) → Decidable (Sane l)
  | .newTimer _ when interval repeats =>
    inferInstanceAs (Decidable (0 ≤ when ∧ (repeats = true → 0 ≤ interval)))
  | .addTimerInLoop _ clock => inferInstanceAs (Decidable (0 ≤ clock))
  | .handleRead now _ => inferInstanceAs (Decidable (0 ≤ now))
  | .reset clock => inferInstanceAs (Decidable (0 ≤ clock))
  | .cancleInLoop _ | .run => .isTrue trivial

/-- `reset` puts no timer back at time zero, which it takes for no time at all, or a callback has
armed for that time. -/
def Rearms (s : TimerQueue) : Label → Prop
  | .reset _ => (∀ b ∈ s.batch, ∀ e ∈ b.expired, ∀ timer, s.heap e.timer = some timer →
      s.Again e.timer timer → 0 < b.now + timer.interval) ∨ ∃ a, s.timerFd = some a ∧ a.target ≤ 0
  | _ => True

structure NonNeg (s : TimerQueue) : Prop where
  expiration : ∀ p timer, s.heap p = some timer → 0 ≤ timer.expiration
  interval : ∀ p timer, s.heap p = some timer → timer.repeats = true → 0 ≤ timer.interval
  now : ∀ b ∈ s.batch, 0 ≤ b.now

/-- In a batch the timers at time zero are covered, outside of it all timers are. -/
def Guarded (s : TimerQueue) : Prop :=
  ∀ e ∈ s.timers, s.batch = none ∨ e.when ≤ 0 → s.Covers e

theorem Guarded.armed {s : TimerQueue} (h : s.Guarded) : s.Armed :=
  fun hnone e he ↦ h e he (Or.inl hnone)

theorem NonNeg.when_nonneg {s : TimerQueue} {e : Entry} (h : s.NonNeg) (hone : s.OneToOne)
    (he : e ∈ s.timers) : 0 ≤ e.when := by
  obtain ⟨timer, hheap, hwhen, -⟩ := hone.active e he
  exact hwhen ▸ h.expiration _ timer hheap

theorem StepTo.nonNeg {s t : TimerQueue} {l : Label} (hstep : StepTo s l t) (hinv : s.Invariant)
    (hl : Sane l) (h : s.NonNeg) : t.NonNeg := by
  cases hstep with
  | newTimer =>
    refine ⟨fun p timer hheap ↦ ?_, fun p timer hheap hrep ↦ ?_, h.now⟩
    · rcases newTimer_heap_cases hheap with rfl | hheap
      · exact hl.1
      · exact h.expiration p timer hheap
    · rcases newTimer_heap_cases hheap with rfl | hheap
      · exact hl.2 hrep
      · exact h.interval p timer hheap hrep
  | add | remember => exact ⟨h.expiration, h.interval, h.now⟩
  | discard =>
    exact ⟨fun p timer hheap ↦ h.expiration p timer (heap_of_discard_heap hheap),
      fun p timer hheap ↦ h.interval p timer (heap_of_discard_heap hheap), h.now⟩
  | handleRead =>
    refine ⟨h.expiration, h.interval, ?_⟩
    rintro b ⟨⟩
    exact hl
  | run hbatch =>
    have hnow := h.now _ hbatch
    refine ⟨h.expiration, h.interval, ?_⟩
    rintro b ⟨⟩
    exact hnow
  | @reset now clock expired t hbatch hsettled =>
    have hlive := hinv.live_of_batch hbatch
    refine ⟨fun p timer hheap ↦ ?_, fun p timer hheap hrep ↦ ?_, fun b hb ↦ by simp at hb⟩
    · rcases hsettled.heap_cases hlive hheap with ⟨-, hheap'⟩ | ⟨timer', hheap', hagain, rfl⟩
      · exact h.expiration p timer hheap'
      · -- put back at `now` plus an interval that is not negative
        have hnow : 0 ≤ now := h.now _ hbatch
        have hint := h.interval p timer' hheap' hagain.1
        rw [Timer.restart, if_pos hagain.1]
        exact add_nonneg hnow hint
    · rcases hsettled.heap_cases hlive hheap with ⟨-, hheap'⟩ | ⟨timer', hheap', -, rfl⟩
      · exact h.interval p timer hheap' hrep
      · exact h.interval p timer' hheap' hrep

/-! ## 3. A step -/

theorem head_le {s : TimerQueue} {e f : Entry} (hhead : s.timers.toList.head? = some f)
    (he : e ∈ s.timers) : f.when ≤ e.when := by
  have hsorted := s.timers.sorted
  have hmem := OrdSet.mem_toList.mpr he
  cases hlist : s.timers.toList with
  | nil => simp [hlist] at hhead
  | cons g rest =>
    rw [hlist, List.head?_cons, Option.some.injEq] at hhead
    subst hhead
    rw [hlist] at hsorted hmem
    rcases List.mem_cons.mp hmem with rfl | hrest
    · exact le_refl _
    · have hlt := (List.pairwise_cons.mp hsorted).1 e hrest
      rw [Entry.lt_iff] at hlt
      rcases hlt with hlt | ⟨heq, -⟩
      · exact hlt.le
      · exact heq.le

/-- The first timer behind `reset` decides: armed for it, or for no later by what is in force. -/
theorem covers_of_rearm {s : TimerQueue} {clock : Time} {e : Entry} (he : e ∈ s.timers)
    (hfirst : ∀ f, s.timers.toList.head? = some f → f.when ≤ 0 → s.Covers f) :
    { s with timerFd := s.rearm clock, batch := none }.Covers e := by
  cases hhead : s.timers.toList.head? with
  | none =>
    rw [List.head?_eq_none_iff] at hhead
    rw [← OrdSet.mem_toList, hhead] at he
    cases he
  | some f =>
    have hle := head_le hhead he
    by_cases hpos : 0 < f.when
    · exact ⟨⟨f.when, clock⟩, by simp [rearm, hhead, hpos], hle⟩
    · obtain ⟨a, ha, htarget⟩ := hfirst f hhead (not_lt.mp hpos)
      exact ⟨a, by simp [rearm, hhead, hpos, ha], htarget.trans hle⟩

theorem StepTo.guarded {s t : TimerQueue} {l : Label} (hstep : StepTo s l t) (hinv : s.Invariant)
    (ht : t.Invariant) (hnn : t.NonNeg) (h : s.Guarded) (hl : Sane l) (hre : s.Rearms l) :
    t.Guarded := by
  cases hstep with
  | newTimer | remember => exact h
  | @add p clock timer =>
    intro e he hcond
    rcases OrdSet.mem_insert.mp he with rfl | he
    · cases hearly : s.isEarliest timer with
      | true => exact ⟨⟨timer.expiration, clock⟩, by simp, le_refl _⟩
      | false =>
        -- the first timer is no later, and covered
        obtain ⟨f, hhead, hle⟩ : ∃ f, s.timers.toList.head? = some f ∧
            f.when ≤ timer.expiration := by
          rw [isEarliest] at hearly
          cases hhead : s.timers.toList.head? with
          | none => simp [hhead] at hearly
          | some f => exact ⟨f, rfl, by simpa [hhead] using hearly⟩
        obtain ⟨a, ha, htarget⟩ := h f (List.mem_of_mem_head? hhead)
          (hcond.imp_right fun hzero ↦ hle.trans hzero)
        exact ⟨a, by simp [ha], htarget.trans hle⟩
    · cases hearly : s.isEarliest timer with
      | true =>
        refine ⟨⟨timer.expiration, clock⟩, by simp, ?_⟩
        rw [isEarliest] at hearly
        cases hhead : s.timers.toList.head? with
        | none =>
          rw [List.head?_eq_none_iff] at hhead
          rw [← OrdSet.mem_toList, hhead] at he
          cases he
        | some f =>
          have hlt : timer.expiration < f.when := by simpa [hhead] using hearly
          exact hlt.le.trans (head_le hhead he)
      | false =>
        obtain ⟨a, ha, htarget⟩ := h e he hcond
        exact ⟨a, by simp [ha], htarget⟩
  | discard => exact fun e he hcond ↦ h e (OrdSet.mem_erase.mp he).2 hcond
  | @handleRead now =>
    -- what stays behind is later than `now`
    intro e he hcond
    have hlt := hinv.1.now_lt_of_mem_atLeast he
    rcases hcond with hnone | hzero
    · simp [takeBatch] at hnone
    · exact absurd (lt_of_le_of_lt hl hlt) (not_lt.mpr hzero)
  | run hbatch =>
    intro e he hcond
    refine h e he (hcond.imp_left fun hnone ↦ ?_)
    simp at hnone
  | @reset now clock expired t hbatch hsettled =>
    intro e he _
    refine covers_of_rearm he fun f hhead hzero ↦ ?_
    rw [Covers, hsettled.timerFd]
    have hf := (hsettled.mem_timers f).mp (List.mem_of_mem_head? hhead)
    rcases hre with hpos | ⟨a, ha, htarget⟩
    · rcases hf with hf | ⟨e', he', timer, hheap, hagain, rfl⟩
      · exact h f hf (Or.inr hzero)
      · exact absurd (hpos _ hbatch e' he' timer hheap hagain) (not_lt.mpr hzero)
    · exact ⟨a, ha, htarget.trans (hnn.when_nonneg ht.1.oneToOne (List.mem_of_mem_head? hhead))⟩

/-- A timer put back at time zero is not armed for, whatever else is in the queue. -/
theorem StepTo.not_armed {s t : TimerQueue} {l : Label} (hstep : StepTo s l t)
    (hre : ¬ s.Rearms l) : ¬ t.Armed := by
  cases hstep with
  | newTimer | add | discard | remember | handleRead | run => exact (hre trivial).elim
  | @reset now clock expired t hbatch hsettled =>
    simp only [Rearms, not_or, not_forall, not_lt] at hre
    obtain ⟨⟨b, hb, e, he, timer, hheap, hagain, hzero⟩, hnone⟩ := hre
    rw [hbatch] at hb
    cases hb
    intro harmed
    have hmem : ⟨now + timer.interval, e.timer⟩ ∈ t.timers :=
      (hsettled.mem_timers _).mpr (Or.inr ⟨e, he, timer, hheap, hagain, rfl⟩)
    obtain ⟨a, ha, htarget⟩ := harmed rfl _ hmem
    -- the first timer is at time zero as well, so `reset` has armed nothing
    have hfd : t.rearm clock = s.timerFd := by
      cases hhead : t.timers.toList.head? with
      | none => simp [rearm, hhead, hsettled.timerFd]
      | some f =>
        have hle : f.when ≤ now + timer.interval := head_le hhead hmem
        have hpos : ¬ 0 < f.when := not_lt.mpr (hle.trans hzero)
        simp [rearm, hhead, hpos, hsettled.timerFd]
    exact hnone ⟨a, hfd.symm.trans ha, htarget.trans hzero⟩

/-! ## 4. Every run -/

/-- **When the descriptor is armed early enough.**  Over runs with times that are not before the
epoch, the arming in force outside `handleRead` is always for no later than the first timer exactly
if no `reset` puts a timer back at time zero without an arming for that time; and what is passed to
the kernel always arms. -/
theorem always_armed_iff {ls : List Label} {r : Except TimerFault TimerQueue}
    (hsane : ∀ l ∈ ls, Sane l) (hrun : Trace.run next (.ok init) ls = some r) :
    (Trace.Always next (fun r ↦ ∀ s, r = .ok s → s.Armed) (.ok init) ls ↔
      Trace.Along next (fun r l ↦ ∀ s, r = .ok s → s.Rearms l) (.ok init) ls) ∧
      ∀ when clock, (howMuchTimeFromNow when clock).Arms when clock := by
  refine ⟨Trace.always_iff_along_of
    (I := fun r ↦ ∃ s, r = .ok s ∧ s.Invariant ∧ s.NonNeg ∧ s.Guarded) (C := fun _ l ↦ Sane l)
    ?_ ?_ ?_ ?_ (Trace.along_of_forall_mem fun l hl _ ↦ hsane l hl) hrun, howMuchTimeFromNow_arms⟩
  · rintro - l r ⟨s, rfl, hinv, hnn, hguard⟩ hl hre hstep
    obtain ⟨t, rfl, ht⟩ := step_invariant hinv hstep
    have hto := step_cases hinv hstep
    have hnn' := hto.nonNeg hinv hl hnn
    exact ⟨t, rfl, ht, hnn', hto.guarded hinv ht hnn' hguard hl (hre s rfl)⟩
  · rintro - ⟨s, rfl, -, -, hguard⟩ s' ⟨⟩
    exact hguard.armed
  · rintro - l r ⟨s, rfl, hinv, -, -⟩ - hre hstep harmed
    obtain ⟨t, rfl, -⟩ := step_invariant hinv hstep
    refine (step_cases hinv hstep).not_armed (fun hre' ↦ hre ?_) (harmed t rfl)
    rintro s' ⟨⟩
    exact hre'
  · refine ⟨init, rfl, init_invariant, ⟨?_, ?_, ?_⟩, ?_⟩
    · exact fun p timer hheap ↦ by simp [init] at hheap
    · exact fun p timer hheap ↦ by simp [init] at hheap
    · exact fun b hb ↦ by simp [init] at hb
    · exact fun e he ↦ by simp [init] at he

/-- A timer of 50 microseconds, put back once. -/
theorem always_armed_iff_one_period :
    Trace.Always next (fun r ↦ ∀ s, r = .ok s → s.Armed) (.ok init)
      [.newTimer 16 90 50 true, .addTimerInLoop 16 10, .handleRead 100 true, .run, .reset 101] := by
  obtain ⟨r, hr⟩ : ∃ r, Trace.run next (.ok init) [.newTimer 16 90 50 true, .addTimerInLoop 16 10,
      .handleRead 100 true, .run, .reset 101] = some r := ⟨_, rfl⟩
  obtain ⟨m, hm, hbatch, hheap⟩ : ∃ m, Trace.run next (.ok init) [.newTimer 16 90 50 true,
      .addTimerInLoop 16 10, .handleRead 100 true, .run] = some (.ok m) ∧
      m.batch = some ⟨100, [⟨90, 16⟩], []⟩ ∧ m.heap 16 = some ⟨90, 50, true, 1⟩ :=
    ⟨_, rfl, rfl, rfl⟩
  refine (always_armed_iff (by decide) hr).1.mpr ?_
  show Trace.Along next _ (.ok init) ([.newTimer 16 90 50 true, .addTimerInLoop 16 10,
    .handleRead 100 true, .run] ++ [.reset 101])
  refine Trace.along_append.mpr ⟨?_, fun r' hr' ↦ ⟨fun s hs ↦ ?_, fun _ _ ↦ trivial⟩⟩
  · exact ⟨fun _ _ ↦ trivial, fun _ _ ↦ ⟨fun _ _ ↦ trivial, fun _ _ ↦ ⟨fun _ _ ↦ trivial,
      fun _ _ ↦ ⟨fun _ _ ↦ trivial, fun _ _ ↦ trivial⟩⟩⟩⟩
  · rw [hm, Option.some.injEq, hs, Except.ok.injEq] at hr'
    subst hr'
    refine Or.inl fun b hb e he timer htimer _ ↦ ?_
    rw [hbatch] at hb
    cases hb
    rw [List.mem_singleton.mp he, hheap, Option.some.injEq] at htimer
    subst htimer
    decide

/-- An interval below a microsecond at the clock reading zero: the timer is put back at time zero,
and the descriptor stays disarmed. -/
theorem not_armed_at_time_zero :
    ¬ ∀ ls s, (∀ l ∈ ls, Sane l) → Trace.run next (.ok init) ls = some (.ok s) → s.Armed := by
  intro h
  obtain ⟨s, hs, hbatch, htimers, hfd⟩ : ∃ s, Trace.run next (.ok init) [.newTimer 16 0 0 true,
      .addTimerInLoop 16 0, .handleRead 0 true, .run, .reset 0] = some (.ok s) ∧
      s.batch = none ∧ s.timers.toList = [⟨0, 16⟩] ∧ s.timerFd = none :=
    ⟨_, rfl, rfl, rfl, rfl⟩
  have hmem : (⟨0, 16⟩ : Entry) ∈ s.timers := by
    rw [← OrdSet.mem_toList, htimers]
    exact List.mem_singleton_self _
  obtain ⟨a, ha, -⟩ := h _ s (by decide) hs hbatch _ hmem
  rw [hfd] at ha
  cases ha

end TimerQueue

end Netlib
