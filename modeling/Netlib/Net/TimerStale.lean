import Netlib.Net.TimerSteps

/-!
# Stale timer ids

A `TimerId` outlives its timer, and the allocator may give the address in it to another one.  The
queue tells the two apart by the sequence number: a cancel that comes too late at most leaves an
entry in `_canllingTimers` that no live timer answers to.
-/

namespace Netlib

namespace TimerQueue

/-- The queue with other entries in `_canllingTimers`. -/
def withCancelled (s : TimerQueue) (c : OrdSet ActiveTimer) : TimerQueue :=
  { s with canllingTimers := c }

/-- Of the timers that have not been deleted, `c` has the ones that `_canllingTimers` has. -/
def AgreeOnLive (s : TimerQueue) (c : OrdSet ActiveTimer) : Prop :=
  ∀ a : ActiveTimer, .deleted a.sequence ∉ s.log → (a ∈ c ↔ a ∈ s.canllingTimers)

section

variable {s t : TimerQueue} {c : OrdSet ActiveTimer} {p : Address} {timer : Timer}
  {loose : List Address}

theorem AgreeOnLive.of_log (h : s.AgreeOnLive c) (hc : t.canllingTimers = s.canllingTimers)
    (hlog : ∃ l, t.log = s.log ++ l) : t.AgreeOnLive c := by
  obtain ⟨l, hlog⟩ := hlog
  intro a ha
  rw [hlog] at ha
  rw [hc]
  exact h a fun hdel ↦ ha (List.mem_append_left l hdel)

theorem Good.withCancelled (h : s.Good loose) (c : OrdSet ActiveTimer) :
    (s.withCancelled c).Good loose := h.of_eq rfl rfl rfl rfl rfl

/-! ## 1. What reads the set, and what does not -/

theorem Good.again_withCancelled (h : s.Good loose) (hc : s.AgreeOnLive c)
    (hheap : s.heap p = some timer) : (s.withCancelled c).Again p timer ↔ s.Again p timer := by
  -- a live timer is not deleted, so the two sets agree on its id
  have hmem := hc ⟨p, timer.sequence⟩ (h.named.undeleted p timer hheap)
  show timer.repeats = true ∧ ⟨p, timer.sequence⟩ ∉ c ↔
    timer.repeats = true ∧ ⟨p, timer.sequence⟩ ∉ s.canllingTimers
  rw [hmem]

theorem Good.settle_withCancelled (h : s.Good loose) (hc : s.AgreeOnLive c)
    (hheap : s.heap p = some timer) (now : Time) :
    (s.withCancelled c).settle now p timer = (s.settle now p timer).withCancelled c := by
  have hagain := h.again_withCancelled hc hheap
  unfold settle
  by_cases ha : s.Again p timer
  · rw [if_pos (hagain.mpr ha), if_pos ha]
    rfl
  · rw [if_neg fun ha' ↦ ha (hagain.mp ha'), if_neg ha]
    rfl

/-- `reset` puts back and deletes the same timers. -/
theorem foldlM_resetOne_withCancelled {l : List Entry} (h : s.Good (l.map Entry.timer ++ loose))
    (hc : s.AgreeOnLive c) (now : Time) :
    ∃ t, l.foldlM (resetOne now) s = .ok t ∧
      l.foldlM (resetOne now) (s.withCancelled c) = .ok (t.withCancelled c) ∧
      t.Good loose ∧ t.AgreeOnLive c := by
  induction l generalizing s with
  | nil => exact ⟨s, rfl, rfl, h, hc⟩
  | cons e l ih =>
    obtain ⟨timer, hheap⟩ := Option.isSome_iff_exists.mp (h.held.live e.timer List.mem_cons_self)
    have hheap' : (s.withCancelled c).heap e.timer = some timer := hheap
    have hlog : ∃ l', (s.settle now e.timer timer).log = s.log ++ l' := by
      obtain ⟨l', hl', -⟩ := settle_log s now e.timer timer
      exact ⟨l', hl'⟩
    obtain ⟨t, ht, ht', hgood, hagree⟩ :=
      ih (settle_good h hheap now) (hc.of_log settle_canlling hlog)
    refine ⟨t, ?_, ?_, hgood, hagree⟩
    · rw [List.foldlM_cons, resetOne_eq h hheap, Trace.ok_bind, ht]
    · rw [List.foldlM_cons, resetOne_eq (h.withCancelled c) hheap', Trace.ok_bind,
        h.settle_withCancelled hc hheap, ht']

theorem addTimerInLoop_withCancelled (h : s.Good loose) (hc : s.AgreeOnLive c)
    (hheap : s.heap p = some timer) (clock : Time) :
    ∃ t, s.addTimerInLoop p clock = .ok t ∧
      (s.withCancelled c).addTimerInLoop p clock = .ok (t.withCancelled c) ∧ t.AgreeOnLive c :=
  ⟨_, addTimerInLoop_eq h.oneToOne hheap clock,
    addTimerInLoop_eq (h.withCancelled c).oneToOne hheap clock, hc.of_log rfl ⟨_, rfl⟩⟩

/-- A cancel finds the same timer in both queues, or both remember its id, or neither does. -/
theorem cancleInLoop_withCancelled (h : s.Good loose) (hc : s.AgreeOnLive c)
    (timerId : ActiveTimer) :
    ∃ t c', s.cancleInLoop timerId = .ok t ∧
      (s.withCancelled c).cancleInLoop timerId = .ok (t.withCancelled c') ∧ t.AgreeOnLive c' := by
  by_cases hact : timerId ∈ s.activeTimers
  · obtain ⟨timer, hheap, -⟩ := h.oneToOne.timed timerId hact
    exact ⟨_, c, cancleInLoop_eq_discard h hact hheap,
      cancleInLoop_eq_discard (h.withCancelled c) hact hheap, hc.of_log rfl ⟨_, rfl⟩⟩
  · refine ⟨_, if s.callingExpiredTimer then c.insert timerId else c,
      cancleInLoop_eq_remember h.oneToOne hact,
      cancleInLoop_eq_remember (h.withCancelled c).oneToOne hact, fun a ha ↦ ?_⟩
    dsimp only
    split
    · rw [OrdSet.mem_insert, OrdSet.mem_insert, hc a ha]
    · exact hc a ha

/-- `handleRead` clears the set before anything reads it. -/
theorem Good.handleRead_withCancelled (h : s.Good loose) (c : OrdSet ActiveTimer) (now : Time)
    (fired : Bool) : (s.withCancelled c).handleRead now fired = s.handleRead now fired := by
  obtain ⟨active, hiff, heq⟩ := handleRead_eq h now fired
  obtain ⟨active', hiff', heq'⟩ := handleRead_eq (h.withCancelled c) now fired
  have hsame : active' = active :=
    OrdSet.eq_of_mem_iff fun a ↦ (hiff' a).trans (hiff a).symm
  rw [heq, heq', hsame]
  rfl

theorem reset_withCancelled {l : List Entry} (h : s.Good (l.map Entry.timer ++ loose))
    (hc : s.AgreeOnLive c) (now clock : Time) :
    ∃ t, s.reset l now clock = .ok t ∧
      (s.withCancelled c).reset l now clock = .ok (t.withCancelled c) ∧ t.AgreeOnLive c := by
  obtain ⟨t, ht, ht', hgood, hagree⟩ := foldlM_resetOne_withCancelled h hc now
  have htimers : (t.withCancelled c).timers = t.timers := rfl
  simp only [reset, ht, ht', Trace.ok_bind, htimers]
  cases hlist : t.timers.toList with
  | nil => exact ⟨t, rfl, rfl, hagree⟩
  | cons e rest =>
    have hmem : e ∈ t.timers := by
      rw [← OrdSet.mem_toList, hlist]
      exact List.mem_cons_self
    obtain ⟨timer, hheap, -⟩ := hgood.oneToOne.active e hmem
    have hderef : t.deref e.timer = .ok timer := deref_eq hheap
    have hderef' : (t.withCancelled c).deref e.timer = .ok timer := deref_eq hheap
    simp only [hderef, hderef', Trace.ok_bind]
    split
    · exact ⟨_, rfl, rfl, hagree⟩
    · exact ⟨t, rfl, rfl, hagree⟩

end

/-! ## 2. Two runs side by side -/

/-- Two reachable queues that differ in cancellations of deleted timers only. -/
def Alike (r r' : Except TimerFault TimerQueue) : Prop :=
  ∃ s c, r = .ok s ∧ r' = .ok (s.withCancelled c) ∧ s.Invariant ∧ s.AgreeOnLive c

theorem Invariant.step_withCancelled {s : TimerQueue} {c : OrdSet ActiveTimer} (h : s.Invariant)
    (hc : s.AgreeOnLive c) (l : Label) :
    s.step l = none ∧ (s.withCancelled c).step l = none ∨
      ∃ t c', s.step l = some (.ok t) ∧ (s.withCancelled c).step l = some (.ok (t.withCancelled c')) ∧
        t.AgreeOnLive c' := by
  obtain ⟨hgood, hrest⟩ := h
  cases l with
  | newTimer p when interval repeats =>
    by_cases hp : s.heap p = none ∧ p < uintptrMax
    · exact .inr ⟨_, c, if_pos hp, if_pos hp, hc.of_log rfl ⟨[], (List.append_nil _).symm⟩⟩
    · exact .inl ⟨if_neg hp, if_neg hp⟩
  | addTimerInLoop p clock =>
    by_cases hp : p ∈ s.adding
    · obtain ⟨timer, hheap⟩ := Option.isSome_iff_exists.mp
        (hgood.held.live p (List.mem_append_right _ hp))
      have hgood' : { s with adding := s.adding.erase p }.Good (s.expiring ++ s.adding) :=
        hgood.of_eq rfl rfl rfl rfl rfl
      obtain ⟨t, ht, ht', hagree⟩ := addTimerInLoop_withCancelled hgood' hc hheap clock
      exact .inr ⟨t, c, (if_pos hp).trans (congrArg some ht), (if_pos hp).trans (congrArg some ht'),
        hagree⟩
    · exact .inl ⟨if_neg hp, if_neg hp⟩
  | cancleInLoop timerId =>
    obtain ⟨t, c', ht, ht', hagree⟩ := cancleInLoop_withCancelled hgood hc timerId
    exact .inr ⟨t, c', congrArg some ht, congrArg some ht', hagree⟩
  | handleRead now fired =>
    have hsame := hgood.handleRead_withCancelled c now fired
    cases hbatch : s.batch with
    | none =>
      obtain ⟨active, -, heq⟩ := handleRead_eq hgood now fired
      right
      refine ⟨s.takeBatch now fired active, .empty, ?_, ?_, fun a _ ↦ Iff.rfl⟩
      · simp only [step, hbatch, heq]
      · have hbatch' : (s.withCancelled c).batch = none := hbatch
        simp only [step, hbatch', hsame, heq]
        rfl
    | some b =>
      have hbatch' : (s.withCancelled c).batch = some b := hbatch
      left
      simp only [step, hbatch, hbatch', and_self]
  | run =>
    have hbatch' : (s.withCancelled c).batch = s.batch := rfl
    simp only [step, hbatch']
    split
    · rename_i now expired e rest hbatch
      obtain ⟨timer, hheap⟩ := Option.isSome_iff_exists.mp (hgood.held.live _
        (List.mem_append_left _ (mem_expiring hbatch (hrest _ hbatch List.mem_cons_self))))
      have hderef : s.deref e.timer = .ok timer := deref_eq hheap
      have hderef' : (s.withCancelled c).deref e.timer = .ok timer := deref_eq hheap
      simp only [hderef, hderef', Trace.ok_bind]
      exact .inr ⟨_, c, rfl, rfl, hc.of_log rfl ⟨_, rfl⟩⟩
    · exact .inl ⟨rfl, rfl⟩
  | reset clock =>
    have hbatch' : (s.withCancelled c).batch = s.batch := rfl
    simp only [step, hbatch']
    split
    · rename_i now expired hbatch
      rw [expiring, hbatch] at hgood
      have hgood' : { s with callingExpiredTimer := false }.Good
          (expired.map Entry.timer ++ s.adding) := hgood.of_eq rfl rfl rfl rfl rfl
      obtain ⟨t, ht, ht', hagree⟩ := reset_withCancelled hgood' hc now clock
      right
      refine ⟨{ t with batch := none }, c, ?_, ?_, hagree⟩
      · rw [ht]
        rfl
      · show some (({ s with callingExpiredTimer := false }.withCancelled c).reset _ _ _ >>= _) = _
        rw [ht']
        rfl
    · exact .inl ⟨rfl, rfl⟩

theorem next_alike (r r' : Except TimerFault TimerQueue) (l : Label) (h : Alike r r') :
    Option.Rel Alike (next r l) (next r' l) := by
  obtain ⟨s, c, rfl, rfl, hinv, hc⟩ := h
  show Option.Rel Alike (s.step l) ((s.withCancelled c).step l)
  rcases hinv.step_withCancelled hc l with ⟨hs, ht⟩ | ⟨t, c', hs, ht, hagree⟩
  · rw [hs, ht]
    exact .none
  · obtain ⟨t', ht', hinv'⟩ := step_invariant hinv hs
    cases ht'
    rw [hs, ht]
    exact .some ⟨t, c', rfl, rfl, hinv', hagree⟩

/-- The same queue but for `_canllingTimers`. -/
def SameButCancelled (r r' : Except TimerFault TimerQueue) : Prop :=
  ∃ s c, r = .ok s ∧ r' = .ok (s.withCancelled c)

theorem Invariant.sameButCancelled {s : TimerQueue} {c : OrdSet ActiveTimer} (h : s.Invariant)
    (hc : s.AgreeOnLive c) (ls : List Label) :
    Option.Rel SameButCancelled (Trace.run next (.ok s) ls)
      (Trace.run next (.ok (s.withCancelled c)) ls) := by
  have halike : Alike (.ok s) (.ok (s.withCancelled c)) := ⟨s, c, rfl, rfl, h, hc⟩
  refine Trace.run_lockstep next_alike ?_ halike
  rintro _ _ ⟨s, c, rfl, rfl, -, -⟩
  exact ⟨s, c, rfl, rfl⟩

/-- **A stale cancel changes nothing.**  Cancelling by the id of a deleted timer, whatever lives at
its address now, leaves everything but `_canllingTimers`; and every run behind it does, step by step,
what it would have done without, so every timer fires and is restarted all the same. -/
theorem stale_cancle_harmless {ls : List Label} {s : TimerQueue} {timerId : ActiveTimer}
    (hrun : Trace.run next (.ok init) ls = some (.ok s))
    (hdel : .deleted timerId.sequence ∈ s.log) :
    ∃ t, s.step (.cancleInLoop timerId) = some (.ok t) ∧ t.timers = s.timers ∧
      t.activeTimers = s.activeTimers ∧ t.heap = s.heap ∧ t.log = s.log ∧
      ∀ ls', Option.Rel SameButCancelled (Trace.run next (.ok s) ls')
        (Trace.run next (.ok t) ls') := by
  obtain ⟨s', hs', hinv⟩ := run_invariant hrun
  cases hs'
  -- an active timer is alive, and the number of a live one has not been deleted
  have hact : timerId ∉ s.activeTimers := by
    intro hmem
    obtain ⟨timer, hheap, hseq, -⟩ := hinv.1.oneToOne.timed timerId hmem
    exact hinv.1.named.undeleted _ timer hheap (hseq ▸ hdel)
  have hstep := cancleInLoop_eq_remember hinv.1.oneToOne hact
  have hagree : s.AgreeOnLive
      (if s.callingExpiredTimer then s.canllingTimers.insert timerId else s.canllingTimers) := by
    intro a ha
    split
    · rw [OrdSet.mem_insert, or_iff_right]
      rintro rfl
      exact ha hdel
    · exact Iff.rfl
  exact ⟨_, congrArg some hstep, rfl, rfl, rfl, rfl, hinv.sameButCancelled hagree⟩

/-- The repeating timer 2 lives where timer 1 was, and its batch is being run: a cancel of timer 1
does not keep it from being restarted. -/
theorem stale_cancle_harmless_address_reused :
    ∃ s t t', Trace.run next (.ok init) [.newTimer 16 90 0 false, .addTimerInLoop 16 10,
        .handleRead 100 true, .run, .reset 101, .newTimer 16 200 30 true, .addTimerInLoop 16 102,
        .handleRead 200 true, .run] = some (.ok s) ∧
      s.step (.cancleInLoop ⟨16, 1⟩) = some (.ok t) ∧
      Trace.run next (.ok t) [.reset 201] = some (.ok t') ∧ .restarted 2 ∈ t'.log := by
  obtain ⟨s, u, hs, hdel, hu, hlog⟩ : ∃ s u, Trace.run next (.ok init)
        [.newTimer 16 90 0 false, .addTimerInLoop 16 10, .handleRead 100 true, .run, .reset 101,
          .newTimer 16 200 30 true, .addTimerInLoop 16 102, .handleRead 200 true, .run] =
        some (.ok s) ∧ .deleted 1 ∈ s.log ∧
      Trace.run next (.ok s) [.reset 201] = some (.ok u) ∧ .restarted 2 ∈ u.log :=
    ⟨_, _, rfl, by decide, rfl, by decide⟩
  have hgone : .deleted (⟨16, 1⟩ : ActiveTimer).sequence ∈ s.log := hdel
  obtain ⟨t, ht, -, -, -, -, hafter⟩ := stale_cancle_harmless hs hgone
  have hrel := hafter [.reset 201]
  rw [hu] at hrel
  generalize hr : Trace.run next (.ok t) [.reset 201] = r at hrel
  cases hrel with
  | some hsame =>
    obtain ⟨v, c, hv, rfl⟩ := hsame
    cases hv
    exact ⟨s, t, _, hs, ht, hr, hlog⟩

end TimerQueue

end Netlib
