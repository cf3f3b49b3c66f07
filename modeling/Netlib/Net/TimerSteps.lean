import Netlib.Net.TimerQueue

/-!
# What a step of the timer queue can do

From a state that keeps the invariant no step faults, so each has one outcome, written out here.
What `reset` makes of a whole batch is said for all its timers at once.
-/

namespace Netlib

namespace TimerQueue

/-! ## 1. A batch put back -/

/-- `t` is `s` behind the `for` of `reset` over the entries `l`. -/
structure Settled (s : TimerQueue) (now : Time) (l : List Entry) (t : TimerQueue) : Prop where
  heap_of_mem : ∀ e ∈ l, ∀ timer, s.heap e.timer = some timer →
    t.heap e.timer = if s.Again e.timer timer then some (timer.restart now) else none
  heap_of_not_mem : ∀ p, p ∉ l.map Entry.timer → t.heap p = s.heap p
  mem_timers : ∀ x, x ∈ t.timers ↔ x ∈ s.timers ∨ ∃ e ∈ l, ∃ timer,
    s.heap e.timer = some timer ∧ s.Again e.timer timer ∧ x = ⟨now + timer.interval, e.timer⟩
  log : ∃ l', t.log = s.log ++ l' ∧ (∀ q, .ran q ∉ l') ∧ ∀ e ∈ l, ∀ timer,
    s.heap e.timer = some timer → ¬ s.Again e.timer timer → .deleted timer.sequence ∈ l'
  canlling : t.canllingTimers = s.canllingTimers
  calling : t.callingExpiredTimer = s.callingExpiredTimer
  adding : t.adding = s.adding
  timerFd : t.timerFd = s.timerFd
  index : t.index = s.index
  batch : t.batch = s.batch

theorem Settled.nil (s : TimerQueue) (now : Time) : s.Settled now [] s := by
  constructor <;> simp

section

variable {s t : TimerQueue} {p : Address} {timer : Timer} {now : Time}

theorem settle_heap_self : (s.settle now p timer).heap p =
    if s.Again p timer then some (timer.restart now) else none := by
  unfold settle
  split <;> exact Function.update_self ..

theorem settle_heap_of_ne {q : Address} (h : q ≠ p) : (s.settle now p timer).heap q = s.heap q := by
  unfold settle
  split <;> exact Function.update_of_ne h ..

theorem mem_settle_timers {x : Entry} : x ∈ (s.settle now p timer).timers ↔
    x ∈ s.timers ∨ s.Again p timer ∧ x = ⟨now + timer.interval, p⟩ := by
  unfold settle
  split
  · rename_i hagain
    have hrestart : (timer.restart now).expiration = now + timer.interval := if_pos hagain.1
    simp only [put, record, setTimer, OrdSet.mem_insert, hrestart, hagain, true_and]
    exact or_comm
  · rename_i hagain
    simp [record, setTimer, hagain]

theorem settle_log (s : TimerQueue) (now : Time) (p : Address) (timer : Timer) :
    ∃ l', (s.settle now p timer).log = s.log ++ l' ∧ (∀ q, .ran q ∉ l') ∧
      (¬ s.Again p timer → .deleted timer.sequence ∈ l') := by
  unfold settle
  split
  · rename_i hagain
    exact ⟨[.restarted timer.sequence, .inserted timer.sequence],
      by simp [put, record, setTimer, Timer.restart], by simp, fun h ↦ (h hagain).elim⟩
  · exact ⟨[.deleted timer.sequence], rfl, by simp, fun _ ↦ List.mem_singleton_self _⟩

@[simp] theorem settle_canlling :
    (s.settle now p timer).canllingTimers = s.canllingTimers := by
  unfold settle
  split <;> rfl

@[simp] theorem settle_calling :
    (s.settle now p timer).callingExpiredTimer = s.callingExpiredTimer := by
  unfold settle
  split <;> rfl

@[simp] theorem settle_adding : (s.settle now p timer).adding = s.adding := by
  unfold settle
  split <;> rfl

@[simp] theorem settle_timerFd : (s.settle now p timer).timerFd = s.timerFd := by
  unfold settle
  split <;> rfl

@[simp] theorem settle_index : (s.settle now p timer).index = s.index := by
  unfold settle
  split <;> rfl

@[simp] theorem settle_batch : (s.settle now p timer).batch = s.batch := by
  unfold settle
  split <;> rfl

theorem settle_again {q : Address} {timer' : Timer} :
    (s.settle now p timer).Again q timer' ↔ s.Again q timer' := by
  simp only [Again, settle_canlling]

/-- One more timer in front. -/
theorem Settled.cons {e : Entry} {l : List Entry} (hheap : s.heap e.timer = some timer)
    (hout : e.timer ∉ l.map Entry.timer) (h : (s.settle now e.timer timer).Settled now l t) :
    s.Settled now (e :: l) t := by
  -- the other timers of the batch are as they were
  have hsame {e' : Entry} (he' : e' ∈ l) :
      (s.settle now e.timer timer).heap e'.timer = s.heap e'.timer :=
    settle_heap_of_ne fun heq ↦ hout (heq ▸ List.mem_map_of_mem he')
  refine ⟨?_, ?_, ?_, ?_, ?_, ?_, ?_, ?_, ?_, ?_⟩
  · intro e' he' timer' hheap'
    rcases List.mem_cons.mp he' with rfl | he'
    · rw [hheap, Option.some.injEq] at hheap'
      rw [h.heap_of_not_mem _ hout, settle_heap_self, hheap']
    · rw [h.heap_of_mem e' he' timer' ((hsame he').trans hheap')]
      simp only [settle_again]
  · intro q hq
    rw [List.map_cons, List.mem_cons, not_or] at hq
    rw [h.heap_of_not_mem q hq.2, settle_heap_of_ne hq.1]
  · intro x
    rw [h.mem_timers, mem_settle_timers]
    constructor
    · rintro ((hx | ⟨hagain, rfl⟩) | ⟨e', he', timer', hheap', hagain, rfl⟩)
      · exact Or.inl hx
      · exact Or.inr ⟨e, List.mem_cons_self, timer, hheap, hagain, rfl⟩
      · exact Or.inr ⟨e', List.mem_cons_of_mem e he', timer', (hsame he').symm.trans hheap',
          settle_again.mp hagain, rfl⟩
    · rintro (hx | ⟨e', he', timer', hheap', hagain, rfl⟩)
      · exact Or.inl (Or.inl hx)
      · rcases List.mem_cons.mp he' with rfl | he'
        · rw [hheap, Option.some.injEq] at hheap'
          subst hheap'
          exact Or.inl (Or.inr ⟨hagain, rfl⟩)
        · exact Or.inr ⟨e', he', timer', (hsame he').trans hheap', settle_again.mpr hagain, rfl⟩
  · obtain ⟨l₁, hlog₁, hran₁, hdel₁⟩ := settle_log s now e.timer timer
    obtain ⟨l₂, hlog₂, hran₂, hdel₂⟩ := h.log
    refine ⟨l₁ ++ l₂, by rw [hlog₂, hlog₁, List.append_assoc], ?_, ?_⟩
    · intro q hq
      rcases List.mem_append.mp hq with hq | hq
      · exact hran₁ q hq
      · exact hran₂ q hq
    · intro e' he' timer' hheap' hagain
      rcases List.mem_cons.mp he' with rfl | he'
      · rw [hheap, Option.some.injEq] at hheap'
        subst hheap'
        exact List.mem_append_left _ (hdel₁ hagain)
      · exact List.mem_append_right _
          (hdel₂ e' he' timer' ((hsame he').trans hheap') fun ha ↦ hagain (settle_again.mp ha))
  · rw [h.canlling, settle_canlling]
  · rw [h.calling, settle_calling]
  · rw [h.adding, settle_adding]
  · rw [h.timerFd, settle_timerFd]
  · rw [h.index, settle_index]
  · rw [h.batch, settle_batch]

theorem foldlM_resetOne_settled {l : List Entry} {loose : List Address}
    (h : s.Good (l.map Entry.timer ++ loose)) (hfold : l.foldlM (resetOne now) s = .ok t) :
    s.Settled now l t := by
  induction l generalizing s with
  | nil =>
    cases hfold
    exact .nil _ now
  | cons e l ih =>
    obtain ⟨timer, hheap⟩ := Option.isSome_iff_exists.mp (h.held.live e.timer List.mem_cons_self)
    rw [List.foldlM_cons, resetOne_eq h hheap, Trace.ok_bind] at hfold
    have hnodup : ((e :: l).map Entry.timer).Nodup := (List.nodup_append.mp h.held.nodup).1
    exact .cons hheap (List.nodup_cons.mp hnodup).1 (ih (settle_good h hheap now) hfold)

/-- A timer behind the `for` is one that was there before, or one of the batch that goes on. -/
theorem Settled.heap_cases {l : List Entry} (h : s.Settled now l t)
    (hlive : ∀ e ∈ l, ∃ timer, s.heap e.timer = some timer) (hheap : t.heap p = some timer) :
    p ∉ l.map Entry.timer ∧ s.heap p = some timer ∨
      ∃ timer', s.heap p = some timer' ∧ s.Again p timer' ∧ timer = timer'.restart now := by
  by_cases hp : p ∈ l.map Entry.timer
  · obtain ⟨e, he, rfl⟩ := List.mem_map.mp hp
    obtain ⟨timer', hheap'⟩ := hlive e he
    have hnew := h.heap_of_mem e he timer' hheap'
    rw [hheap] at hnew
    split at hnew
    · rename_i hagain
      exact Or.inr ⟨timer', hheap', hagain, Option.some.inj hnew⟩
    · cases hnew
  · exact Or.inl ⟨hp, (h.heap_of_not_mem p hp).symm.trans hheap⟩

theorem newTimer_heap_cases {when : Time} {interval : Int} {repeats : Bool} {q : Address}
    (hheap : (s.newTimer p when interval repeats).heap q = some timer) :
    timer = ⟨when, interval, repeats, s.index + 1⟩ ∨ s.heap q = some timer := by
  by_cases hq : q = p
  · subst hq
    exact Or.inl (Option.some.inj (hheap.symm.trans (Function.update_self ..)))
  · apply Or.inr
    rw [← hheap]
    exact (Function.update_of_ne hq ..).symm

theorem heap_of_discard_heap {timerId : ActiveTimer} {timer' : Timer}
    (hheap : (s.discard timerId timer').heap p = some timer) : s.heap p = some timer := by
  have hp : p ≠ timerId.timer := by
    rintro rfl
    simp [TimerQueue.discard] at hheap
  rw [← hheap]
  exact (Function.update_of_ne hp ..).symm

end

/-- A timer of the batch is in neither set and not on its way into them. -/
theorem Invariant.of_mem_expiring {s : TimerQueue} {p : Address} (h : s.Invariant)
    (hp : p ∈ s.expiring) :
    (∃ timer, s.heap p = some timer) ∧ p ∉ s.adding ∧ (∀ e ∈ s.timers, e.timer ≠ p) ∧
      ∀ a ∈ s.activeTimers, a.timer ≠ p := by
  obtain ⟨hgood, -⟩ := h
  have hloose : p ∈ s.expiring ++ s.adding := List.mem_append_left _ hp
  refine ⟨Option.isSome_iff_exists.mp (hgood.held.live p hloose), fun hadd ↦ ?_,
    hgood.held.apart p hloose, fun a ha heq ↦ ?_⟩
  · exact (List.nodup_append.mp hgood.held.nodup).2.2 p hp p hadd rfl
  · obtain ⟨timer, -, -, hmem⟩ := hgood.oneToOne.timed a ha
    exact hgood.held.apart p hloose _ hmem heq

theorem Invariant.live_of_batch {s : TimerQueue} {b : ExpiredBatch} (h : s.Invariant)
    (hbatch : s.batch = some b) : ∀ e ∈ b.expired, ∃ timer, s.heap e.timer = some timer :=
  fun _ he ↦ (h.of_mem_expiring (mem_expiring hbatch he)).1

/-! ## 2. The outcomes -/

/-- The end of `reset`: armed for the first timer, if it has one that is `vaild`. -/
def rearm (s : TimerQueue) (clock : Time) : Option Arming :=
  match s.timers.toList.head? with
  | some e => if 0 < e.when then some ⟨e.when, clock⟩ else s.timerFd
  | none => s.timerFd

/-- One case for each way a step can end. -/
inductive StepTo (s : TimerQueue) : Label → TimerQueue → Prop
  | newTimer {p : Address} {when : Time} {interval : Int} {repeats : Bool} : s.heap p = none →
      p < uintptrMax →
      StepTo s (.newTimer p when interval repeats) (s.newTimer p when interval repeats)
  | add {p : Address} {clock : Time} {timer : Timer} : p ∈ s.adding → s.heap p = some timer →
      StepTo s (.addTimerInLoop p clock)
        { s.put p timer with
          adding := s.adding.erase p
          timerFd := if s.isEarliest timer then some ⟨timer.expiration, clock⟩ else s.timerFd }
  | discard {timerId : ActiveTimer} {timer : Timer} : timerId ∈ s.activeTimers →
      s.heap timerId.timer = some timer → timer.sequence = timerId.sequence →
      StepTo s (.cancleInLoop timerId) (s.discard timerId timer)
  | remember {timerId : ActiveTimer} : timerId ∉ s.activeTimers →
      StepTo s (.cancleInLoop timerId)
        { s with
          canllingTimers := if s.callingExpiredTimer then s.canllingTimers.insert timerId
            else s.canllingTimers }
  | handleRead {now : Time} {fired : Bool} {active : OrdSet ActiveTimer} : s.batch = none →
      (∀ a, a ∈ active ↔ a ∈ s.activeTimers ∧
        a.timer ∉ (s.timers.below ⟨now, uintptrMax⟩).toList.map Entry.timer) →
      StepTo s (.handleRead now fired) (s.takeBatch now fired active)
  | run {now : Time} {expired rest : List Entry} {e : Entry} {timer : Timer} :
      s.batch = some ⟨now, expired, e :: rest⟩ → s.heap e.timer = some timer →
      StepTo s .run { s.record (.ran timer.sequence) with batch := some ⟨now, expired, rest⟩ }
  | reset {now clock : Time} {expired : List Entry} {t : TimerQueue} :
      s.batch = some ⟨now, expired, []⟩ →
      { s with callingExpiredTimer := false }.Settled now expired t →
      StepTo s (.reset clock) { t with timerFd := t.rearm clock, batch := none }

theorem reset_eq {s : TimerQueue} {l : List Entry} {loose : List Address}
    (h : s.Good (l.map Entry.timer ++ loose)) (now clock : Time) :
    ∃ t, s.Settled now l t ∧ s.reset l now clock = .ok { t with timerFd := t.rearm clock } := by
  obtain ⟨t, hfold, hgood, -⟩ := foldlM_resetOne_good h now
  refine ⟨t, foldlM_resetOne_settled h hfold, ?_⟩
  simp only [reset, hfold, Trace.ok_bind, rearm]
  cases hlist : t.timers.toList with
  | nil => rfl
  | cons e rest =>
    have hmem : e ∈ t.timers := by rw [← OrdSet.mem_toList, hlist]; exact List.mem_cons_self
    obtain ⟨timer, hheap, hwhen, -⟩ := hgood.oneToOne.active e hmem
    simp only [deref_eq hheap, Trace.ok_bind, hwhen, List.head?_cons]
    split <;> rfl

theorem step_cases {s t : TimerQueue} {l : Label} (h : s.Invariant)
    (hstep : s.step l = some (.ok t)) : StepTo s l t := by
  obtain ⟨hgood, hrest⟩ := h
  cases l with
  | newTimer p when interval repeats =>
    simp only [step, Option.ite_none_right_eq_some, Option.some.injEq, Except.ok.injEq] at hstep
    obtain ⟨⟨hfree, hp⟩, rfl⟩ := hstep
    exact .newTimer hfree hp
  | addTimerInLoop p clock =>
    simp only [step, Option.ite_none_right_eq_some, Option.some.injEq] at hstep
    obtain ⟨hmem, hadd⟩ := hstep
    obtain ⟨timer, hheap⟩ := Option.isSome_iff_exists.mp
      (hgood.held.live p (List.mem_append_right _ hmem))
    have hone : { s with adding := s.adding.erase p }.OneToOne :=
      ⟨hgood.oneToOne.active, hgood.oneToOne.timed⟩
    rw [addTimerInLoop_eq hone hheap, Except.ok.injEq] at hadd
    subst hadd
    exact .add hmem hheap
  | cancleInLoop timerId =>
    simp only [step, Option.some.injEq] at hstep
    by_cases hact : timerId ∈ s.activeTimers
    · obtain ⟨timer, hheap, hseq, -⟩ := hgood.oneToOne.timed timerId hact
      rw [cancleInLoop_eq_discard hgood hact hheap, Except.ok.injEq] at hstep
      subst hstep
      exact .discard hact hheap hseq
    · rw [cancleInLoop_eq_remember hgood.oneToOne hact, Except.ok.injEq] at hstep
      subst hstep
      exact .remember hact
  | handleRead now fired =>
    simp only [step] at hstep
    split at hstep
    · rename_i hnone
      obtain ⟨active, hiff, heq⟩ := handleRead_eq hgood now fired
      rw [heq, Option.some.injEq, Except.ok.injEq] at hstep
      subst hstep
      exact .handleRead hnone hiff
    · cases hstep
  | run =>
    simp only [step] at hstep
    split at hstep
    · rename_i now expired e rest hbatch
      have hmem : e.timer ∈ s.expiring ++ s.adding := by
        apply List.mem_append_left _
        exact mem_expiring hbatch (hrest _ hbatch List.mem_cons_self)
      obtain ⟨timer, hheap⟩ := Option.isSome_iff_exists.mp (hgood.held.live _ hmem)
      rw [deref_eq hheap, Trace.ok_bind, Option.some.injEq, Except.ok.injEq] at hstep
      subst hstep
      exact .run hbatch hheap
    · cases hstep
  | reset clock =>
    simp only [step] at hstep
    split at hstep
    · rename_i now expired hbatch
      rw [expiring, hbatch] at hgood
      obtain ⟨t', hsettled, heq⟩ := reset_eq (s := { s with callingExpiredTimer := false })
        (l := expired) (hgood.of_eq rfl rfl rfl rfl rfl) now clock
      rw [heq, Trace.ok_bind, Option.some.injEq, Except.ok.injEq] at hstep
      subst hstep
      exact .reset hbatch hsettled
    · cases hstep

/-- From a reachable state a run never ends in a fault. -/
theorem run_ok {s : TimerQueue} {ls : List Label} {r : Except TimerFault TimerQueue}
    (h : s.Invariant) (hrun : Trace.run next (.ok s) ls = some r) : ∃ t, r = .ok t ∧ t.Invariant := by
  refine Trace.run_inv (I := fun r ↦ ∃ s, r = .ok s ∧ s.Invariant) ?_ ⟨s, rfl, h⟩ hrun
  rintro - l r ⟨s, rfl, hs⟩ hstep
  exact step_invariant hs hstep

/-- **Invariants of the runs.**  What every step from a state with the invariant keeps holds at the
end of every run. -/
theorem run_keeps {I : TimerQueue → Prop} {s t : TimerQueue} {ls : List Label} (h : s.Invariant)
    (hs : I s) (hstep : ∀ s l t, s.Invariant → I s → l ∈ ls → StepTo s l t → I t)
    (hrun : Trace.run next (.ok s) ls = some (.ok t)) : I t := by
  induction ls generalizing s with
  | nil =>
    cases hrun
    exact hs
  | cons l ls ih =>
    obtain ⟨r, hr, hrest⟩ := Trace.run_cons_eq_some.mp hrun
    obtain ⟨u, rfl, hu⟩ := step_invariant h hr
    exact ih hu (hstep s l u h hs List.mem_cons_self (step_cases h hr))
      (fun a l' b ha hb hl' ↦ hstep a l' b ha hb (List.mem_cons_of_mem l hl')) hrest

end TimerQueue

end Netlib
