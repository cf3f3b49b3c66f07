import Netlib.Net.TimerSteps

/-!
# Which timers run

One `handleRead` is the step that takes the expired timers, the callbacks in between with whatever
they add and cancel, and `reset`.  The timers of the batch are out of both sets while their
callbacks run, so a cancellation of one of them is only remembered, and read by `reset` alone.
-/

namespace Netlib

namespace TimerQueue

/-- The callbacks a log tells of, in order. -/
def ranSequences (log : List TimerEvent) : List Nat :=
  log.filterMap fun
    | .ran q => some q
    | _ => none

/-- The sequence number of the timer an entry points to. -/
def sequenceOf (s : TimerQueue) (e : Entry) : Nat := (s.heap e.timer).elim 0 Timer.sequence

/-- The `TimerId` of the timer an entry points to. -/
def idOf (s : TimerQueue) (e : Entry) : ActiveTimer := ⟨e.timer, s.sequenceOf e⟩

/-- The entries due at `now`, in the order of the set. -/
def due (s : TimerQueue) (now : Time) : List Entry := s.timers.toList.filter (·.when ≤ now)

/-- No timer with this number is alive or started in any later state. -/
def GoneForGood (s : TimerQueue) (q : Nat) : Prop :=
  ∀ ls t, Trace.run next (.ok s) ls = some (.ok t) →
    (∀ p timer, t.heap p = some timer → timer.sequence ≠ q) ∧
      t.log.count (.ran q) = s.log.count (.ran q)

/-! ## 1. Logs -/

@[simp] theorem ranSequences_append (log log' : List TimerEvent) :
    ranSequences (log ++ log') = ranSequences log ++ ranSequences log' :=
  List.filterMap_append ..

@[simp] theorem ranSequences_ran (q : Nat) : ranSequences [.ran q] = [q] := rfl

theorem ranSequences_eq_nil {log : List TimerEvent} (h : ∀ q, .ran q ∉ log) :
    ranSequences log = [] := by
  refine List.filterMap_eq_nil_iff.mpr fun e he ↦ ?_
  cases e with
  | ran q => exact (h q he).elim
  | _ => rfl

theorem StepTo.log_append {s t : TimerQueue} {l : Label} (h : StepTo s l t) :
    ∃ log', t.log = s.log ++ log' := by
  cases h with
  | newTimer | remember | handleRead => exact ⟨[], (List.append_nil _).symm⟩
  | add | discard | run => exact ⟨[_], rfl⟩
  | reset _ hsettled =>
    obtain ⟨log', hlog, -⟩ := hsettled.log
    exact ⟨log', hlog⟩

theorem run_log_append {s t : TimerQueue} {ls : List Label} (h : s.Invariant)
    (hrun : Trace.run next (.ok s) ls = some (.ok t)) : ∃ log', t.log = s.log ++ log' := by
  refine run_keeps (I := fun t ↦ ∃ log', t.log = s.log ++ log') h ⟨[], (List.append_nil _).symm⟩
    ?_ hrun
  rintro u l v - ⟨log₁, hlog₁⟩ - hstep
  obtain ⟨log₂, hlog₂⟩ := hstep.log_append
  exact ⟨log₁ ++ log₂, by rw [hlog₂, hlog₁, List.append_assoc]⟩

/-- A deletion is final. -/
theorem goneForGood_of_deleted {s : TimerQueue} {q : Nat} (h : s.Invariant)
    (hdel : .deleted q ∈ s.log) : s.GoneForGood q := by
  intro ls t hrun
  obtain ⟨t', ht', hgood, -⟩ := run_ok h hrun
  cases ht'
  obtain ⟨log', hlog⟩ := run_log_append h hrun
  refine ⟨fun p timer hheap heq ↦ ?_, ?_⟩
  · apply hgood.named.undeleted p timer hheap
    rw [hlog, heq]
    exact List.mem_append_left _ hdel
  · -- the log is clean: behind the deletion nothing happens to the number
    have hclean := hgood.named.clean
    rw [hlog, CleanLog, List.pairwise_append] at hclean
    have hnone : .ran q ∉ log' := fun hran ↦ hclean.2.2 _ hdel _ hran rfl
    rw [hlog, List.count_append, List.count_eq_zero_of_not_mem hnone, Nat.add_zero]

/-! ## 2. The batch -/

/-- `getExpired` takes what is due. -/
theorem Good.below_eq_due {s : TimerQueue} {loose : List Address} (h : s.Good loose)
    (now : Time) : (s.timers.below ⟨now, uintptrMax⟩).toList = s.due now := by
  rw [due, ← OrdSet.below_append_atLeast s.timers ⟨now, uintptrMax⟩, List.filter_append,
    List.filter_eq_self.mpr, List.filter_eq_nil_iff.mpr, List.append_nil]
  · intro e he
    simpa using h.now_lt_of_mem_atLeast he
  · intro e he
    have hlt := (OrdSet.mem_below.mp he).2
    rw [Entry.lt_iff] at hlt
    simp only [decide_eq_true_eq]
    rcases hlt with hlt | ⟨heq, -⟩
    · exact hlt.le
    · exact heq.le

theorem sorted_due (s : TimerQueue) (now : Time) : (s.due now).Pairwise (·.when ≤ ·.when) := by
  refine (s.timers.sorted.filter _).imp fun {a b} hlt ↦ ?_
  rw [Entry.lt_iff] at hlt
  rcases hlt with hlt | ⟨heq, -⟩
  · exact hlt.le
  · exact heq.le

theorem OneToOne.nodup_sequences {s : TimerQueue} (h : s.OneToOne) (hnamed : s.Named)
    (now : Time) : ((s.due now).map s.sequenceOf).Nodup := by
  refine (s.timers.nodup.filter _).map_on fun e he e' he' heq ↦ ?_
  obtain ⟨timer, hheap, hwhen, -⟩ := h.active e (List.mem_of_mem_filter he)
  obtain ⟨timer', hheap', hwhen', -⟩ := h.active e' (List.mem_of_mem_filter he')
  rw [sequenceOf, sequenceOf, hheap, hheap'] at heq
  have htimer : e.timer = e'.timer := hnamed.injective _ _ _ _ hheap hheap' heq
  rw [htimer, hheap', Option.some.injEq] at hheap
  cases e
  cases e'
  simp_all

/-- The callbacks of the batch taken from `s₀` at `now` are running, the labels `done` taken so far:
the timers of the batch are as they were, those run so far are the first ones, and those cancelled
are remembered. -/
structure InBatch (s₀ : TimerQueue) (now : Time) (done : List Label) (m : TimerQueue) : Prop where
  calling : m.callingExpiredTimer = true
  batch : ∃ rest log', m.batch = some ⟨now, s₀.due now, rest⟩ ∧ m.log = s₀.log ++ log' ∧
    ranSequences log' ++ rest.map s₀.sequenceOf = (s₀.due now).map s₀.sequenceOf
  rest : ∀ b ∈ m.batch, b.rest ⊆ s₀.due now
  heap : ∀ e ∈ s₀.due now, m.heap e.timer = s₀.heap e.timer
  cancelled : ∀ e ∈ s₀.due now, ∀ q,
    ⟨e.timer, q⟩ ∈ m.canllingTimers ↔ .cancleInLoop ⟨e.timer, q⟩ ∈ done

theorem InBatch.mem_expiring {s₀ m : TimerQueue} {now : Time} {done : List Label}
    (h : InBatch s₀ now done m) {e : Entry} (he : e ∈ s₀.due now) : e.timer ∈ m.expiring := by
  obtain ⟨rest, log', hbatch, -⟩ := h.batch
  exact TimerQueue.mem_expiring hbatch he

theorem takeBatch_inBatch {s₀ : TimerQueue} {now : Time} {fired : Bool} {active : OrdSet ActiveTimer}
    {loose : List Address} (h : s₀.Good loose) : InBatch s₀ now [] (s₀.takeBatch now fired active) where
  calling := rfl
  batch := ⟨s₀.due now, [], by rw [takeBatch, h.below_eq_due], (List.append_nil _).symm, rfl⟩
  rest := by
    rintro b ⟨⟩
    rw [h.below_eq_due]
    exact List.Subset.refl _
  heap := fun _ _ ↦ rfl
  cancelled := fun e _ q ↦ by simp [takeBatch]

theorem InBatch.step {s₀ m m' : TimerQueue} {now : Time} {done : List Label} {l : Label}
    (h : InBatch s₀ now done m) (hinv : m.Invariant) (hstep : StepTo m l m')
    (hl : ∀ clock, l ≠ .reset clock) : InBatch s₀ now (done ++ [l]) m' := by
  obtain ⟨rest, log', hbatch, hlog, hran⟩ := h.batch
  -- only a cancellation adds to the timers cancelled
  have hother (hne : ∀ a, l ≠ .cancleInLoop a) (e : Entry) (he : e ∈ s₀.due now) (q : Nat) :
      ⟨e.timer, q⟩ ∈ m.canllingTimers ↔ .cancleInLoop ⟨e.timer, q⟩ ∈ done ++ [l] := by
    rw [h.cancelled e he, List.mem_append, List.mem_singleton, or_iff_left (Ne.symm (hne _))]
  cases hstep with
  | newTimer hfree =>
    refine ⟨h.calling, ⟨rest, log', hbatch, hlog, hran⟩, h.rest, fun e he ↦ ?_, hother (by simp)⟩
    have hne : e.timer ≠ _ := fun heq ↦ by
      obtain ⟨⟨timer, hheap⟩, -⟩ := hinv.of_mem_expiring (h.mem_expiring he)
      rw [heq, hfree] at hheap
      cases hheap
    rw [← h.heap e he]
    exact Function.update_of_ne hne ..
  | @add p clock timer =>
    refine ⟨h.calling, ⟨rest, log' ++ [.inserted timer.sequence], hbatch, ?_, ?_⟩, h.rest, h.heap,
      hother (by simp)⟩
    · rw [← List.append_assoc, ← hlog]
      rfl
    · rw [← hran, ranSequences_append, show ranSequences [.inserted timer.sequence] = [] from rfl,
        List.append_nil]
  | @discard timerId timer hact =>
    have hne (e : Entry) (he : e ∈ s₀.due now) : timerId.timer ≠ e.timer :=
      (hinv.of_mem_expiring (h.mem_expiring he)).2.2.2 timerId hact
    refine ⟨h.calling, ⟨rest, log' ++ [.deleted timer.sequence], hbatch, ?_, ?_⟩, h.rest,
      fun e he ↦ ?_, fun e he q ↦ ?_⟩
    · rw [← List.append_assoc, ← hlog]
      rfl
    · rw [← hran, ranSequences_append, show ranSequences [.deleted timer.sequence] = [] from rfl,
        List.append_nil]
    · rw [← h.heap e he]
      exact Function.update_of_ne (hne e he).symm ..
    · have hid : timerId ≠ ⟨e.timer, q⟩ := fun heq ↦ hne e he (congrArg ActiveTimer.timer heq)
      rw [List.mem_append, List.mem_singleton, Label.cancleInLoop.injEq, or_iff_left hid.symm]
      exact h.cancelled e he q
  | @remember timerId =>
    refine ⟨h.calling, ⟨rest, log', hbatch, hlog, hran⟩, h.rest, h.heap, fun e he q ↦ ?_⟩
    simp only [h.calling, if_true, OrdSet.mem_insert, h.cancelled e he q, List.mem_append,
      List.mem_singleton, Label.cancleInLoop.injEq]
    exact or_comm
  | handleRead hnone => simp [hbatch] at hnone
  | @run now' expired rest' e timer hbatch' hheap =>
    rw [hbatch, Option.some.injEq, ExpiredBatch.mk.injEq] at hbatch'
    obtain ⟨rfl, rfl, rfl⟩ := hbatch'
    have hsub := h.rest _ hbatch
    have hseq : s₀.sequenceOf e = timer.sequence := by
      rw [sequenceOf, ← h.heap e (hsub List.mem_cons_self), hheap]
      rfl
    refine ⟨h.calling, ⟨rest', log' ++ [.ran timer.sequence], rfl, ?_, ?_⟩, ?_, h.heap,
      hother (by simp)⟩
    · rw [← List.append_assoc, ← hlog]
      rfl
    · rw [← hran, ranSequences_append, ranSequences_ran, List.map_cons, hseq, List.append_assoc]
      rfl
    · rintro b ⟨⟩
      exact fun x hx ↦ hsub (List.mem_cons_of_mem e hx)
  | reset => exact (hl _ rfl).elim

theorem InBatch.run {s₀ m m' : TimerQueue} {now : Time} {done ls : List Label}
    (h : InBatch s₀ now done m) (hinv : m.Invariant) (hls : ∀ clock, .reset clock ∉ ls)
    (hrun : Trace.run next (.ok m) ls = some (.ok m')) : InBatch s₀ now (done ++ ls) m' := by
  induction ls generalizing m done with
  | nil =>
    cases hrun
    rwa [List.append_nil]
  | cons l ls ih =>
    obtain ⟨r, hr, hrest⟩ := Trace.run_cons_eq_some.mp hrun
    obtain ⟨u, rfl, hu⟩ := step_invariant hinv hr
    have hl (clock : Time) : l ≠ .reset clock := fun heq ↦ hls clock (heq ▸ List.mem_cons_self)
    have hu' := h.step hinv (step_cases hinv hr) hl
    have hmid := ih hu' hu (fun clock hmem ↦ hls clock (List.mem_cons_of_mem l hmem)) hrest
    rwa [List.append_assoc] at hmid

/-! ## 3. Timers outside the batch -/

/-- A timer in the sets stays as it is, unless it is cancelled or taken by `handleRead`. -/
theorem StepTo.kept {m m' : TimerQueue} {l : Label} {e : Entry} {timer : Timer}
    (hstep : StepTo m l m') (hinv : m.Invariant) (he : e ∈ m.timers)
    (hheap : m.heap e.timer = some timer) (hbatch : m.batch ≠ none)
    (hl : l ≠ .cancleInLoop ⟨e.timer, timer.sequence⟩) :
    e ∈ m'.timers ∧ m'.heap e.timer = some timer := by
  cases hstep with
  | newTimer hfree =>
    refine ⟨he, ?_⟩
    rw [← hheap]
    refine Function.update_of_ne (fun heq ↦ ?_) ..
    rw [heq, hfree] at hheap
    cases hheap
  | add => exact ⟨OrdSet.mem_insert.mpr (Or.inr he), hheap⟩
  | @discard timerId timer' hact hheap' hseq =>
    -- another address: at the same one there would be the same timer
    have hne : e.timer ≠ timerId.timer := by
      intro heq
      rw [← heq, hheap, Option.some.injEq] at hheap'
      apply hl
      rw [heq, hheap', hseq]
    refine ⟨OrdSet.mem_erase.mpr ⟨fun heq ↦ hne (congrArg Entry.timer heq), he⟩, ?_⟩
    rw [← hheap]
    exact Function.update_of_ne hne ..
  | remember => exact ⟨he, hheap⟩
  | handleRead hnone => exact (hbatch hnone).elim
  | run => exact ⟨he, hheap⟩
  | @reset now clock expired t hbatch' hsettled =>
    refine ⟨(hsettled.mem_timers e).mpr (Or.inl he), ?_⟩
    rw [← hheap]
    refine hsettled.heap_of_not_mem e.timer fun hmem ↦ ?_
    have hexp : e.timer ∈ m.expiring := by
      rw [expiring, hbatch']
      exact hmem
    exact (hinv.of_mem_expiring hexp).2.2.1 e he rfl

theorem InBatch.kept {s₀ m t : TimerQueue} {now clock : Time} {done ls : List Label} {e : Entry}
    {timer : Timer} (h : InBatch s₀ now done m) (hinv : m.Invariant)
    (hls : ∀ clock, .reset clock ∉ ls) (he : e ∈ m.timers) (hheap : m.heap e.timer = some timer)
    (hcancel : .cancleInLoop ⟨e.timer, timer.sequence⟩ ∉ ls)
    (hrun : Trace.run next (.ok m) (ls ++ [.reset clock]) = some (.ok t)) :
    e ∈ t.timers ∧ t.heap e.timer = some timer := by
  induction ls generalizing m done with
  | nil =>
    obtain ⟨r, hr, hrest⟩ := Trace.run_cons_eq_some.mp hrun
    cases hrest
    obtain ⟨rest, log', hbatch, -⟩ := h.batch
    have hstep : StepTo m (.reset clock) t := step_cases hinv hr
    exact hstep.kept hinv he hheap (by simp [hbatch]) (by simp)
  | cons l ls ih =>
    obtain ⟨r, hr, hrest⟩ := Trace.run_cons_eq_some.mp hrun
    obtain ⟨u, rfl, hu⟩ := step_invariant hinv hr
    obtain ⟨rest, log', hbatch, -⟩ := h.batch
    have hstep := step_cases hinv hr
    obtain ⟨he', hheap'⟩ := hstep.kept hinv he hheap (by simp [hbatch])
      fun heq ↦ hcancel (heq ▸ List.mem_cons_self)
    exact ih (h.step hinv hstep fun clock heq ↦ hls clock (heq ▸ List.mem_cons_self)) hu
      (fun clock hmem ↦ hls clock (List.mem_cons_of_mem l hmem)) he' hheap'
      (fun hmem ↦ hcancel (List.mem_cons_of_mem l hmem)) hrest

/-! ## 4. One-shot timers -/

/-- What is left of a batch is its end. -/
def RestIsSuffix (s : TimerQueue) : Prop := ∀ b ∈ s.batch, b.rest <:+ b.expired

/-- A live timer that does not repeat has not run, or has run once in the batch being processed. -/
def RunOnce (s : TimerQueue) : Prop :=
  ∀ p timer, s.heap p = some timer → timer.repeats = false →
    s.log.count (.ran timer.sequence) = 0 ∨ s.log.count (.ran timer.sequence) = 1 ∧
      ∃ b, s.batch = some b ∧ p ∈ b.expired.map Entry.timer ∧ p ∉ b.rest.map Entry.timer

theorem StepTo.restIsSuffix {s t : TimerQueue} {l : Label} (hstep : StepTo s l t)
    (h : s.RestIsSuffix) : t.RestIsSuffix := by
  cases hstep with
  | newTimer | add | discard | remember => exact h
  | handleRead =>
    rintro b ⟨⟩
    exact List.suffix_refl _
  | @run now expired rest e timer hbatch =>
    rintro b ⟨⟩
    exact (List.suffix_cons e rest).trans (h _ hbatch)
  | reset => exact fun b hb ↦ by simp at hb

/-- In the batch every timer comes once, so behind its callback it is not among the rest. -/
theorem RestIsSuffix.not_mem_tail {s : TimerQueue} {now : Time} {expired rest : List Entry}
    {e : Entry} (h : s.RestIsSuffix) (hinv : s.Invariant)
    (hbatch : s.batch = some ⟨now, expired, e :: rest⟩) : e.timer ∉ rest.map Entry.timer := by
  have hnodup : (expired.map Entry.timer).Nodup := by
    have hall := hinv.1.held.nodup
    rw [expiring, hbatch] at hall
    exact (List.nodup_append.mp hall).1
  have htail : ((e :: rest).map Entry.timer).Nodup :=
    hnodup.sublist ((h _ hbatch).map Entry.timer).sublist
  exact (List.nodup_cons.mp htail).1

theorem RunOnce.of_eq {s t : TimerQueue} (h : s.RunOnce)
    (hheap : ∀ p timer, t.heap p = some timer → s.heap p = some timer)
    (hcount : ∀ q, t.log.count (.ran q) = s.log.count (.ran q)) (hbatch : t.batch = s.batch) :
    t.RunOnce := by
  intro p timer hp hrep
  rw [hcount, hbatch]
  exact h p timer (hheap p timer hp) hrep

theorem StepTo.runOnce {s t : TimerQueue} {l : Label} (hstep : StepTo s l t) (hinv : s.Invariant)
    (hsuffix : s.RestIsSuffix) (h : s.RunOnce) : t.RunOnce := by
  cases hstep with
  | newTimer =>
    intro p' timer hheap hrep
    rcases newTimer_heap_cases hheap with rfl | hheap
    · -- a number that has never been logged
      refine Or.inl (List.count_eq_zero_of_not_mem fun hmem ↦ ?_)
      have hle := hinv.1.named.logged _ hmem
      simp [TimerEvent.sequence] at hle
    · exact h p' timer hheap hrep
  | add => exact h.of_eq (fun _ _ hheap ↦ hheap) (fun _ ↦ by simp [put, record]) rfl
  | discard =>
    exact h.of_eq (fun _ _ ↦ heap_of_discard_heap) (fun _ ↦ by simp [TimerQueue.discard]) rfl
  | remember => exact h
  | handleRead hnone =>
    intro p' timer hheap hrep
    rcases h p' timer hheap hrep with h0 | ⟨-, b, hb, -⟩
    · exact Or.inl h0
    · simp [hnone] at hb
  | @run now expired rest e timer' hbatch hheap' =>
    intro p' timer hheap hrep
    have hout := hsuffix.not_mem_tail hinv hbatch
    have hmem : e.timer ∈ expired.map Entry.timer :=
      List.mem_map_of_mem ((hsuffix _ hbatch).subset List.mem_cons_self)
    simp only [record, List.count_append] at hheap ⊢
    by_cases hp : p' = e.timer
    · -- the timer that runs now has not run before: it was still among the rest
      subst hp
      rw [hheap', Option.some.injEq] at hheap
      subst hheap
      rcases h _ _ hheap' hrep with h0 | ⟨-, b, hb, -, hnot⟩
      · exact Or.inr ⟨by simp [h0], _, rfl, hmem, hout⟩
      · rw [hbatch, Option.some.injEq] at hb
        subst hb
        simp at hnot
    · have hne : timer'.sequence ≠ timer.sequence := fun heq ↦
        hp (hinv.1.named.injective _ _ _ _ hheap hheap' heq.symm)
      have hzero : [TimerEvent.ran timer'.sequence].count (.ran timer.sequence) = 0 := by
        simp [hne]
      rw [hzero, Nat.add_zero]
      rcases h p' timer hheap hrep with h0 | ⟨h1, b, hb, hin, hnot⟩
      · exact Or.inl h0
      · rw [hbatch, Option.some.injEq] at hb
        subst hb
        exact Or.inr ⟨h1, _, rfl, hin, fun hm ↦ hnot (List.mem_cons_of_mem _ hm)⟩
  | @reset now clock expired t hbatch hsettled =>
    intro p' timer hheap hrep
    obtain ⟨log', hlog, hran, -⟩ := hsettled.log
    have hcount : t.log.count (.ran timer.sequence) = s.log.count (.ran timer.sequence) := by
      rw [hlog, List.count_append, List.count_eq_zero_of_not_mem (hran _), Nat.add_zero]
    simp only [hcount] at hheap ⊢
    rcases hsettled.heap_cases (hinv.live_of_batch hbatch) hheap with
      ⟨hp, hheap'⟩ | ⟨timer', -, hagain, rfl⟩
    · rcases h p' timer hheap' hrep with h0 | ⟨-, b, hb, hin, -⟩
      · exact Or.inl h0
      · rw [hbatch, Option.some.injEq] at hb
        subst hb
        exact (hp hin).elim
    · -- one of the batch that is still there repeats
      rw [show (timer'.restart now).repeats = timer'.repeats from rfl, hagain.1] at hrep
      cases hrep

/-- The number `q` was given to a timer that does not repeat. -/
structure OneShot (q : Nat) (s : TimerQueue) : Prop where
  issued : q ≤ s.index
  repeats : ∀ p timer, s.heap p = some timer → timer.sequence = q → timer.repeats = false
  atMostOnce : s.log.count (.ran q) ≤ 1

theorem OneShot.of_eq {q : Nat} {s t : TimerQueue} (h : OneShot q s) (hindex : t.index = s.index)
    (hheap : ∀ p timer, t.heap p = some timer → s.heap p = some timer)
    (hcount : t.log.count (.ran q) = s.log.count (.ran q)) : OneShot q t where
  issued := hindex ▸ h.issued
  repeats := fun p timer hp ↦ h.repeats p timer (hheap p timer hp)
  atMostOnce := hcount ▸ h.atMostOnce

theorem StepTo.oneShot {q : Nat} {s t : TimerQueue} {l : Label} (hstep : StepTo s l t)
    (hinv : s.Invariant) (honce : s.RunOnce) (h : OneShot q s) : OneShot q t := by
  cases hstep with
  | newTimer =>
    refine ⟨Nat.le_succ_of_le h.issued, fun p' timer hheap hseq ↦ ?_, h.atMostOnce⟩
    rcases newTimer_heap_cases hheap with rfl | hheap
    · have hissued := h.issued
      simp only at hseq
      omega
    · exact h.repeats p' timer hheap hseq
  | add => exact h.of_eq rfl (fun _ _ hheap ↦ hheap) (by simp [put, record])
  | discard =>
    exact h.of_eq rfl (fun _ _ ↦ heap_of_discard_heap) (by simp [TimerQueue.discard])
  | remember => exact h.of_eq rfl (fun _ _ hheap ↦ hheap) rfl
  | handleRead => exact h.of_eq rfl (fun _ _ hheap ↦ hheap) rfl
  | @run now expired rest e timer' hbatch hheap' =>
    refine ⟨h.issued, h.repeats, ?_⟩
    simp only [record, List.count_append]
    by_cases hq : timer'.sequence = q
    · -- still among the rest, so not run before
      rcases honce _ _ hheap' (h.repeats _ _ hheap' hq) with h0 | ⟨-, b, hb, -, hnot⟩
      · rw [← hq, h0]
        simp
      · rw [hbatch, Option.some.injEq] at hb
        subst hb
        simp at hnot
    · have hzero : [TimerEvent.ran timer'.sequence].count (.ran q) = 0 := by simp [hq]
      rw [hzero, Nat.add_zero]
      exact h.atMostOnce
  | @reset now clock expired t hbatch hsettled =>
    obtain ⟨log', hlog, hran, -⟩ := hsettled.log
    refine ⟨hsettled.index ▸ h.issued, fun p' timer hheap hseq ↦ ?_, ?_⟩
    · rcases hsettled.heap_cases (hinv.live_of_batch hbatch) hheap with
        ⟨-, hheap'⟩ | ⟨timer', hheap', -, rfl⟩
      · exact h.repeats p' timer hheap' hseq
      · exact h.repeats p' timer' hheap' hseq
    · simp only [hlog, List.count_append, List.count_eq_zero_of_not_mem (hran _), Nat.add_zero]
      exact h.atMostOnce

theorem run_once {s : TimerQueue} {ls : List Label}
    (hrun : Trace.run next (.ok init) ls = some (.ok s)) : s.RestIsSuffix ∧ s.RunOnce := by
  refine run_keeps (I := fun s ↦ s.RestIsSuffix ∧ s.RunOnce) init_invariant ⟨?_, ?_⟩ ?_ hrun
  · exact fun b hb ↦ by simp [init] at hb
  · exact fun p timer hheap ↦ by simp [init] at hheap
  · exact fun s l t hinv h _ hstep ↦ ⟨hstep.restIsSuffix h.1, hstep.runOnce hinv h.1 h.2⟩

theorem count_ran_le_one {s t : TimerQueue} {ls ls' : List Label} {p : Address} {timer : Timer}
    (hreach : Trace.run next (.ok init) ls = some (.ok s)) (hheap : s.heap p = some timer)
    (hrep : timer.repeats = false) (hrun : Trace.run next (.ok s) ls' = some (.ok t)) :
    t.log.count (.ran timer.sequence) ≤ 1 := by
  obtain ⟨s', hs', hinv⟩ := run_invariant hreach
  cases hs'
  obtain ⟨hsuffix, honce⟩ := run_once hreach
  have hone : OneShot timer.sequence s := by
    refine ⟨hinv.1.named.issued p timer hheap, fun p' timer' hheap' hseq ↦ ?_, ?_⟩
    · have hp := hinv.1.named.injective _ _ _ _ hheap' hheap hseq
      rw [hp, hheap, Option.some.injEq] at hheap'
      rw [← hheap', hrep]
    · rcases honce p timer hheap hrep with h0 | ⟨h1, -⟩ <;> omega
  refine (run_keeps (I := fun t ↦ t.RestIsSuffix ∧ t.RunOnce ∧ OneShot timer.sequence t) hinv
    ⟨hsuffix, honce, hone⟩ (fun u l v hu h _ hstep ↦ ?_) hrun).2.2.atMostOnce
  exact ⟨hstep.restIsSuffix h.1, hstep.runOnce hu h.1 h.2.1, hstep.oneShot hu h.2.1 h.2.2⟩

/-! ## 5. One `handleRead` -/

/-- The state in which the callbacks start. -/
theorem handleRead_inBatch {s : TimerQueue} {now : Time} {fired : Bool}
    {r : Except TimerFault TimerQueue} (hinv : s.Invariant)
    (hstep : s.step (.handleRead now fired) = some r) :
    ∃ m, r = .ok m ∧ m.Invariant ∧ InBatch s now [] m ∧ m.heap = s.heap ∧
      ∀ e, e ∈ m.timers ↔ e ∈ s.timers ∧ now < e.when := by
  obtain ⟨m, rfl, hm⟩ := step_invariant hinv hstep
  cases step_cases hinv hstep with
  | handleRead hnone hiff =>
    refine ⟨_, rfl, hm, takeBatch_inBatch hinv.1, rfl, fun e ↦ ?_⟩
    constructor
    · exact fun he ↦ ⟨(OrdSet.mem_atLeast.mp he).1, hinv.1.now_lt_of_mem_atLeast he⟩
    · rintro ⟨he, hlt⟩
      refine OrdSet.mem_atLeast.mpr ⟨he, not_lt.mp fun hbelow ↦ ?_⟩
      rw [Entry.lt_iff] at hbelow
      rcases hbelow with hbelow | ⟨heq, -⟩
      · exact hlt.not_gt hbelow
      · exact hlt.ne heq.symm

/-- What becomes of a timer of the batch. -/
theorem InBatch.reset {s₀ m t : TimerQueue} {now clock : Time} {done : List Label} {e : Entry}
    {timer : Timer} (h : InBatch s₀ now done m) (ht : t.Invariant)
    (hstep : StepTo m (.reset clock) t) (he : e ∈ s₀.due now)
    (hheap : s₀.heap e.timer = some timer) :
    if timer.repeats = true ∧ .cancleInLoop ⟨e.timer, timer.sequence⟩ ∉ done then
      t.heap e.timer = some { timer with expiration := now + timer.interval } ∧
        ⟨now + timer.interval, e.timer⟩ ∈ t.timers
    else t.GoneForGood timer.sequence := by
  obtain ⟨rest, log', hbatch, -⟩ := h.batch
  cases hstep with
  | @reset now' clock expired t hbatch' hsettled =>
    rw [hbatch, Option.some.injEq, ExpiredBatch.mk.injEq] at hbatch'
    obtain ⟨rfl, rfl, rfl⟩ := hbatch'
    have hheap' : m.heap e.timer = some timer := (h.heap e he).trans hheap
    have hagain : m.Again e.timer timer ↔
        timer.repeats = true ∧ .cancleInLoop ⟨e.timer, timer.sequence⟩ ∉ done := by
      rw [Again, h.cancelled e he]
    split
    · rename_i hgoes
      have ha := hagain.mpr hgoes
      refine ⟨?_, (hsettled.mem_timers _).mpr (Or.inr ⟨e, he, timer, hheap', ha, rfl⟩)⟩
      have hnew : t.heap e.timer = some (timer.restart now) :=
        (hsettled.heap_of_mem e he timer hheap').trans (if_pos ha)
      rw [Timer.restart, if_pos hgoes.1] at hnew
      exact hnew
    · rename_i hends
      obtain ⟨log'', hlog, -, hdel⟩ := hsettled.log
      apply goneForGood_of_deleted ht
      simp only [hlog]
      exact List.mem_append_right _ (hdel e he timer hheap' fun ha ↦ hends (hagain.mp ha))

/-- The callbacks of a whole batch are those of the timers that were due. -/
theorem InBatch.log_reset {s m t : TimerQueue} {now clock : Time} {done : List Label}
    (h : InBatch s now done m) (hstep : StepTo m (.reset clock) t) :
    ∃ log', t.log = s.log ++ log' ∧ ranSequences log' = (s.due now).map s.sequenceOf := by
  obtain ⟨rest, log', hbatch, hlog, hran⟩ := h.batch
  cases hstep with
  | reset hbatch' hsettled =>
    rw [hbatch, Option.some.injEq, ExpiredBatch.mk.injEq] at hbatch'
    obtain ⟨-, -, rfl⟩ := hbatch'
    obtain ⟨log'', hlog', hquiet, -⟩ := hsettled.log
    refine ⟨log' ++ log'', ?_, ?_⟩
    · simp only [hlog', hlog, List.append_assoc]
    · rw [ranSequences_append, ranSequences_eq_nil hquiet, List.append_nil, ← hran, List.map_nil,
        List.append_nil]

/-- A timer in the sets at some moment of the batch, up to the end of the batch. -/
theorem InBatch.kept_of_idOf {s m t : TimerQueue} {now clock : Time} {done cbs : List Label}
    {e : Entry} (h : InBatch s now done m) (hinv : m.Invariant) (hcbs : ∀ clock, .reset clock ∉ cbs)
    (he : e ∈ m.timers) (hcancel : .cancleInLoop (m.idOf e) ∉ cbs)
    (hrun : Trace.run next (.ok m) (cbs ++ [.reset clock]) = some (.ok t)) :
    e ∈ t.timers ∧ t.heap e.timer = m.heap e.timer := by
  obtain ⟨timer, hheap, -⟩ := hinv.1.oneToOne.active e he
  rw [idOf, sequenceOf, hheap] at hcancel
  obtain ⟨hin, hheap'⟩ := h.kept hinv hcbs he hheap hcancel hrun
  exact ⟨hin, hheap'.trans hheap.symm⟩

/-- **Firing is exact.**  Between the step that takes the batch at `now` and `reset`, whatever the
callbacks add and cancel, the timers started are those due at `now`, each once and in the order of
their expirations.  Behind `reset` a timer of the batch goes on from `now` if it repeats and was not
cancelled meanwhile, and is gone for good otherwise; a timer that was in the sets at any moment of
the batch is as it was, unless it was cancelled.  A timer that does not repeat is started at most
once in any run. -/
theorem firing_is_exact {ls cbs : List Label} {s t : TimerQueue} {now clock : Time} {fired : Bool}
    (hreach : Trace.run next (.ok init) ls = some (.ok s)) (hcbs : ∀ clock, .reset clock ∉ cbs)
    (hread : Trace.run next (.ok s) (.handleRead now fired :: cbs ++ [.reset clock]) =
      some (.ok t)) :
    (∃ log', t.log = s.log ++ log' ∧ ranSequences log' = (s.due now).map s.sequenceOf) ∧
      ((s.due now).map s.sequenceOf).Nodup ∧ (s.due now).Pairwise (·.when ≤ ·.when) ∧
      (∀ e ∈ s.due now, ∃ timer, s.heap e.timer = some timer ∧
        if timer.repeats = true ∧ .cancleInLoop ⟨e.timer, timer.sequence⟩ ∉ cbs then
          t.heap e.timer = some { timer with expiration := now + timer.interval } ∧
            ⟨now + timer.interval, e.timer⟩ ∈ t.timers
        else t.GoneForGood timer.sequence) ∧
      (∀ e ∈ s.timers, now < e.when → .cancleInLoop (s.idOf e) ∉ cbs →
        e ∈ t.timers ∧ t.heap e.timer = s.heap e.timer) ∧
      (∀ cbs₁ cbs₂ m, cbs = cbs₁ ++ cbs₂ →
        Trace.run next (.ok s) (.handleRead now fired :: cbs₁) = some (.ok m) →
        ∀ e ∈ m.timers, .cancleInLoop (m.idOf e) ∉ cbs₂ →
          e ∈ t.timers ∧ t.heap e.timer = m.heap e.timer) ∧
      ∀ ls₁ ls₂ u v p timer, Trace.run next (.ok init) ls₁ = some (.ok u) →
        u.heap p = some timer → timer.repeats = false →
        Trace.run next (.ok u) ls₂ = some (.ok v) → v.log.count (.ran timer.sequence) ≤ 1 := by
  obtain ⟨s', hs', hinv⟩ := run_invariant hreach
  cases hs'
  obtain ⟨r₀, hr₀, hrest⟩ := Trace.run_cons_eq_some.mp hread
  obtain ⟨m₀, rfl, hinv₀, hin₀, hheap₀, htimers₀⟩ := handleRead_inBatch hinv hr₀
  have hrest : Trace.run next (.ok m₀) (cbs ++ [.reset clock]) = some (.ok t) := hrest
  obtain ⟨r₁, hr₁, hreset⟩ := Trace.run_append_eq_some.mp hrest
  obtain ⟨m, rfl, hinvm⟩ := run_ok hinv₀ hr₁
  obtain ⟨r₂, hr₂, hlast⟩ := Trace.run_cons_eq_some.mp hreset
  cases hlast
  have hin : InBatch s now cbs m := hin₀.run hinv₀ hcbs hr₁
  have hstep : StepTo m (.reset clock) t := step_cases hinvm hr₂
  obtain ⟨t', ht', hinvt⟩ := step_invariant (l := .reset clock) hinvm hr₂
  cases ht'
  refine ⟨?_, hinv.1.oneToOne.nodup_sequences hinv.1.named now, sorted_due s now, fun e he ↦ ?_,
    fun e he hlt hcancel ↦ ?_, fun cbs₁ cbs₂ m' hsplit hm' e he hcancel ↦ ?_,
    fun ls₁ ls₂ u v p timer hu hp hrep hv ↦ count_ran_le_one hu hp hrep hv⟩
  · exact hin.log_reset hstep
  · obtain ⟨timer, hheap, -⟩ := hinv.1.oneToOne.active e (List.mem_of_mem_filter he)
    exact ⟨timer, hheap, hin.reset hinvt hstep he hheap⟩
  · have hid : m₀.idOf e = s.idOf e := by rw [idOf, idOf, sequenceOf, sequenceOf, hheap₀]
    rw [← hheap₀]
    exact hin₀.kept_of_idOf hinv₀ hcbs ((htimers₀ e).mpr ⟨he, hlt⟩) (hid ▸ hcancel) hrest
  · -- the callbacks up to any moment, and from there on
    subst hsplit
    obtain ⟨r₃, hr₃, hm''⟩ := Trace.run_cons_eq_some.mp hm'
    rw [hr₀, Option.some.injEq] at hr₃
    subst hr₃
    have hcbs₁ (clock : Time) : .reset clock ∉ cbs₁ := fun hmem ↦
      hcbs clock (List.mem_append_left _ hmem)
    have hcbs₂ (clock : Time) : .reset clock ∉ cbs₂ := fun hmem ↦
      hcbs clock (List.mem_append_right _ hmem)
    obtain ⟨u, hu, hinvu⟩ := run_ok hinv₀ hm''
    cases hu
    have hrest' : Trace.run next (.ok m') (cbs₂ ++ [.reset clock]) = some (.ok t) := by
      rw [List.append_assoc] at hrest
      obtain ⟨r₄, hr₄, hend⟩ := Trace.run_append_eq_some.mp hrest
      rw [hm'', Option.some.injEq] at hr₄
      subst hr₄
      exact hend
    exact (hin₀.run hinv₀ hcbs₁ hm'').kept_of_idOf hinvu hcbs₂ he hcancel hrest'

/-- Of two timers due at 100 the second stops the first, and goes on itself. -/
theorem firing_is_exact_batch_of_two :
    ∃ s t, Trace.run next (.ok init) [.newTimer 16 90 50 true, .addTimerInLoop 16 10,
        .newTimer 32 100 30 true, .addTimerInLoop 32 11] = some (.ok s) ∧
      Trace.run next (.ok s) (.handleRead 100 true :: [.run, .run, .cancleInLoop ⟨16, 1⟩] ++
        [.reset 101]) = some (.ok t) ∧
      ranSequences t.log = [1, 2] ∧ ⟨130, 32⟩ ∈ t.timers ∧ t.GoneForGood 1 := by
  obtain ⟨s, t, hs, ht, hdue, hseq, hlog, h16, h32⟩ : ∃ s t, Trace.run next (.ok init)
        [.newTimer 16 90 50 true, .addTimerInLoop 16 10, .newTimer 32 100 30 true,
          .addTimerInLoop 32 11] = some (.ok s) ∧
      Trace.run next (.ok s) (.handleRead 100 true :: [.run, .run, .cancleInLoop ⟨16, 1⟩] ++
        [.reset 101]) = some (.ok t) ∧
      s.due 100 = [⟨90, 16⟩, ⟨100, 32⟩] ∧ (s.due 100).map s.sequenceOf = [1, 2] ∧
      ranSequences s.log = [] ∧ s.heap 16 = some ⟨90, 50, true, 1⟩ ∧
      s.heap 32 = some ⟨100, 30, true, 2⟩ :=
    ⟨_, _, rfl, rfl, rfl, rfl, rfl, rfl, rfl⟩
  obtain ⟨⟨log', hlog', hran⟩, -, -, hbatch, -⟩ := firing_is_exact hs (by simp) ht
  refine ⟨s, t, hs, ht, ?_, ?_, ?_⟩
  · rw [hlog', ranSequences_append, hran, hseq, hlog]
    rfl
  · obtain ⟨timer, hheap, h⟩ := hbatch ⟨100, 32⟩ (by simp [hdue])
    rw [h32, Option.some.injEq] at hheap
    subst hheap
    rw [if_pos (by simp)] at h
    exact h.2
  · obtain ⟨timer, hheap, h⟩ := hbatch ⟨90, 16⟩ (by simp [hdue])
    rw [h16, Option.some.injEq] at hheap
    subst hheap
    rw [if_neg (by simp)] at h
    exact h

/-! ## 6. Cancelling while a batch runs -/

/-- No later state of any run has started the timer with this number once more. -/
def NotStartedAgain (s : TimerQueue) (q : Nat) : Prop :=
  ∀ ls t, Trace.run next (.ok s) ls = some (.ok t) → t.log.count (.ran q) = s.log.count (.ran q)

/-- The id of a timer that `addTimerInLoop` has seen, alive or not. -/
def Known (s : TimerQueue) (timerId : ActiveTimer) : Prop :=
  (∃ timer, s.heap timerId.timer = some timer ∧ timer.sequence = timerId.sequence ∧
    timerId.timer ∉ s.adding) ∨ .deleted timerId.sequence ∈ s.log

/-- A timer of the batch that is not to be run any more and has been cancelled. -/
structure Remembered (timerId : ActiveTimer) (s : TimerQueue) : Prop where
  batch : ∃ b, s.batch = some b ∧ timerId.timer ∈ b.expired.map Entry.timer ∧
    timerId.timer ∉ b.rest.map Entry.timer
  alive : ∃ timer, s.heap timerId.timer = some timer ∧ timer.sequence = timerId.sequence
  cancelled : timerId ∈ s.canllingTimers

theorem StepTo.remembered {timerId : ActiveTimer} {s t : TimerQueue} {l : Label}
    (hstep : StepTo s l t) (hinv : s.Invariant) (h : Remembered timerId s) :
    (Remembered timerId t ∨ .deleted timerId.sequence ∈ t.log) ∧
      t.log.count (.ran timerId.sequence) = s.log.count (.ran timerId.sequence) := by
  obtain ⟨⟨b, hb, hin, hout⟩, ⟨timer, hheap, hseq⟩, hcan⟩ := h
  have hexp : timerId.timer ∈ s.expiring := by
    rw [expiring, hb]
    exact hin
  cases hstep with
  | newTimer hfree =>
    refine ⟨Or.inl ⟨⟨b, hb, hin, hout⟩, ⟨timer, ?_, hseq⟩, hcan⟩, rfl⟩
    rw [← hheap]
    refine Function.update_of_ne (fun heq ↦ ?_) ..
    rw [heq, hfree] at hheap
    cases hheap
  | add => exact ⟨Or.inl ⟨⟨b, hb, hin, hout⟩, ⟨timer, hheap, hseq⟩, hcan⟩, by simp [put, record]⟩
  | @discard timerId' timer' hact =>
    have hne := (hinv.of_mem_expiring hexp).2.2.2 timerId' hact
    refine ⟨Or.inl ⟨⟨b, hb, hin, hout⟩, ⟨timer, ?_, hseq⟩, hcan⟩, by simp [TimerQueue.discard]⟩
    rw [← hheap]
    exact Function.update_of_ne hne.symm ..
  | remember =>
    refine ⟨Or.inl ⟨⟨b, hb, hin, hout⟩, ⟨timer, hheap, hseq⟩, ?_⟩, rfl⟩
    simp only
    split
    · exact OrdSet.mem_insert.mpr (Or.inr hcan)
    · exact hcan
  | handleRead hnone => simp [hb] at hnone
  | @run now expired rest e timer' hbatch hheap' =>
    rw [hb, Option.some.injEq] at hbatch
    subst hbatch
    rw [List.map_cons, List.mem_cons, not_or] at hout
    -- the timer that runs has another address, hence another number
    have hne : timer'.sequence ≠ timerId.sequence := fun heq ↦
      hout.1 (hinv.1.named.injective _ _ _ _ hheap hheap' (hseq.trans heq.symm))
    exact ⟨Or.inl ⟨⟨_, rfl, hin, hout.2⟩, ⟨timer, hheap, hseq⟩, hcan⟩, by simp [record, hne]⟩
  | @reset now clock expired t hbatch hsettled =>
    rw [hb, Option.some.injEq] at hbatch
    subst hbatch
    obtain ⟨log', hlog, hran, hdel⟩ := hsettled.log
    obtain ⟨e, he, heq⟩ := List.mem_map.mp hin
    refine ⟨Or.inr ?_, ?_⟩
    · have hmem := hdel e he timer (heq ▸ hheap) fun hagain ↦ hagain.2 (by rwa [heq, hseq])
      simp only [hlog, ← hseq]
      exact List.mem_append_right _ hmem
    · simp only [hlog, List.count_append, List.count_eq_zero_of_not_mem (hran _), Nat.add_zero]

theorem Remembered.notStartedAgain {timerId : ActiveTimer} {s : TimerQueue}
    (h : Remembered timerId s) (hinv : s.Invariant) : s.NotStartedAgain timerId.sequence := by
  intro ls t hrun
  -- on the labels, until `reset` deletes the timer
  induction ls generalizing s with
  | nil =>
    cases hrun
    rfl
  | cons l ls ih =>
    obtain ⟨r, hr, hrest⟩ := Trace.run_cons_eq_some.mp hrun
    obtain ⟨u, rfl, hu⟩ := step_invariant hinv hr
    obtain ⟨hnext, hcount⟩ := (step_cases hinv hr).remembered hinv h
    rw [← hcount]
    rcases hnext with hnext | hdel
    · exact ih hnext hu hrest
    · exact (goneForGood_of_deleted hu hdel ls t hrest).2

/-- The next timer of a batch can be run. -/
theorem Invariant.run_enabled {s : TimerQueue} {now : Time} {expired rest : List Entry} {e : Entry}
    (hinv : s.Invariant) (hbatch : s.batch = some ⟨now, expired, e :: rest⟩) :
    ∃ timer, s.heap e.timer = some timer ∧ s.step .run = some (.ok
      { s.record (.ran timer.sequence) with batch := some ⟨now, expired, rest⟩ }) := by
  have hexp : e.timer ∈ s.expiring :=
    mem_expiring hbatch (hinv.2 _ hbatch List.mem_cons_self)
  obtain ⟨⟨timer, hheap⟩, -⟩ := hinv.of_mem_expiring hexp
  refine ⟨timer, hheap, ?_⟩
  simp only [step, hbatch, deref_eq hheap, Trace.ok_bind]

/-- What is left of a batch can be run. -/
theorem run_rest {s : TimerQueue} {now : Time} {expired rest rest' : List Entry} {e : Entry}
    (hinv : s.Invariant) (hbatch : s.batch = some ⟨now, expired, rest ++ e :: rest'⟩) :
    ∃ ls t, Trace.run next (.ok s) ls = some (.ok t) ∧
      s.log.count (.ran (s.sequenceOf e)) < t.log.count (.ran (s.sequenceOf e)) := by
  -- on the timers in front of `e`; each `run` leaves the heap alone
  induction rest generalizing s with
  | nil =>
    obtain ⟨timer, hheap, hstep⟩ := hinv.run_enabled hbatch
    refine ⟨[.run], _, Trace.run_cons_eq_some.mpr ⟨_, hstep, rfl⟩, ?_⟩
    simp [record, sequenceOf, hheap]
  | cons d rest ih =>
    obtain ⟨timer, -, hstep⟩ := hinv.run_enabled hbatch
    obtain ⟨u, hu, hinvu⟩ := step_invariant hinv hstep
    cases hu
    obtain ⟨ls, t, hrun, hlt⟩ := ih hinvu rfl
    refine ⟨.run :: ls, t, Trace.run_cons_eq_some.mpr ⟨_, hstep, hrun⟩, lt_of_le_of_lt ?_ hlt⟩
    simp [record, sequenceOf, List.count_append]

/-- `_callingExpiredTimer` is set as long as a batch is being run. -/
theorem calling_of_batch {ls : List Label} {s : TimerQueue} {b : ExpiredBatch}
    (hreach : Trace.run next (.ok init) ls = some (.ok s)) (hbatch : s.batch = some b) :
    s.callingExpiredTimer = true := by
  have hcalling : s.batch ≠ none → s.callingExpiredTimer = true := by
    refine run_keeps (I := fun s ↦ s.batch ≠ none → s.callingExpiredTimer = true) init_invariant
      (fun h ↦ (h rfl).elim) (fun u l v _ hu _ hstep ↦ ?_) hreach
    cases hstep with
    | newTimer | add | discard | remember => exact hu
    | handleRead => exact fun _ ↦ rfl
    | run hbatch => exact fun _ ↦ hu (by simp [hbatch])
    | reset => exact fun h ↦ (h rfl).elim
  exact hcalling (by simp [hbatch])

/-- A live timer that is neither in the batch nor on its way into the sets is active. -/
theorem Invariant.mem_active {s : TimerQueue} {p : Address} {timer : Timer} (hinv : s.Invariant)
    (hheap : s.heap p = some timer) (hexp : p ∉ s.expiring) (hadd : p ∉ s.adding) :
    ⟨p, timer.sequence⟩ ∈ s.activeTimers := by
  have hin : ⟨timer.expiration, p⟩ ∈ s.timers :=
    (hinv.1.held.held p timer hheap).resolve_right (by simp [hexp, hadd])
  obtain ⟨timer', hheap', -, hact⟩ := hinv.1.oneToOne.active _ hin
  rw [hheap, Option.some.injEq] at hheap'
  exact hheap' ▸ hact

/-- A timer of the rest is only remembered, and the loop over the rest starts it. -/
theorem StepTo.started_of_mem_rest {s t : TimerQueue} {b : ExpiredBatch} {e : Entry}
    (hstep : StepTo s (.cancleInLoop (s.idOf e)) t) (hinv : s.Invariant) (hinvt : t.Invariant)
    (hbatch : s.batch = some b) (he : e ∈ b.rest) : ¬ t.NotStartedAgain (s.idOf e).sequence := by
  intro hnot
  have hexp : e.timer ∈ s.expiring := mem_expiring hbatch (hinv.2 b hbatch he)
  obtain ⟨rest, rest', hsplit⟩ := List.append_of_mem he
  cases hstep with
  | discard hact => exact (hinv.of_mem_expiring hexp).2.2.2 _ hact rfl
  | remember =>
    obtain ⟨ls', v, hrun, hlt⟩ := run_rest (e := e) hinvt
      (show s.batch = some ⟨b.now, b.expired, rest ++ e :: rest'⟩ by rw [hbatch, ← hsplit])
    exact hlt.ne (hnot ls' v hrun).symm

/-- **When a cancellation inside a batch is effective.**  Cancelled by a callback, a timer is not
started again exactly if it is not among those of the batch that are still to run: the loop over the
batch does not look at `_canllingTimers`. -/
theorem cancle_in_batch_iff {ls : List Label} {s t : TimerQueue} {b : ExpiredBatch}
    {timerId : ActiveTimer} (hreach : Trace.run next (.ok init) ls = some (.ok s))
    (hbatch : s.batch = some b) (hknown : s.Known timerId)
    (hcancel : s.step (.cancleInLoop timerId) = some (.ok t)) :
    t.NotStartedAgain timerId.sequence ↔ timerId ∉ b.rest.map s.idOf := by
  obtain ⟨s', hs', hinv⟩ := run_invariant hreach
  cases hs'
  obtain ⟨t', ht', hinvt⟩ := step_invariant hinv hcancel
  cases ht'
  have hstep := step_cases hinv hcancel
  have hcalling := calling_of_batch hreach hbatch
  constructor
  · intro hnot hmem
    obtain ⟨e, he, rfl⟩ := List.mem_map.mp hmem
    exact hstep.started_of_mem_rest hinv hinvt hbatch he hnot
  · intro hout
    rcases hknown with ⟨timer, hheap, hseq, hadd⟩ | hdel
    · have hid : timerId = ⟨timerId.timer, timer.sequence⟩ := by rw [hseq]
      by_cases hexp : timerId.timer ∈ s.expiring
      · cases hstep with
        | discard hact => exact ((hinv.of_mem_expiring hexp).2.2.2 _ hact rfl).elim
        | remember =>
          refine Remembered.notStartedAgain ⟨⟨b, hbatch, ?_, fun hmem ↦ hout ?_⟩,
            ⟨timer, hheap, hseq⟩, ?_⟩ hinvt
          · rw [expiring, hbatch] at hexp
            exact hexp
          · obtain ⟨e, he, heq⟩ := List.mem_map.mp hmem
            refine List.mem_map.mpr ⟨e, he, ?_⟩
            rw [idOf, sequenceOf, heq, hheap, Option.elim_some, ← hid]
          · simp only [hcalling, if_true]
            exact OrdSet.mem_insert.mpr (Or.inl rfl)
      · have hact : timerId ∈ s.activeTimers := hid ▸ hinv.mem_active hheap hexp hadd
        cases hstep with
        | discard _ hheap' hseq' =>
          refine fun ls' v hrun ↦ (goneForGood_of_deleted hinvt ?_ ls' v hrun).2
          rw [← hseq']
          exact List.mem_append_right _ (List.mem_singleton_self _)
        | remember hnot => exact (hnot hact).elim
    · refine fun ls' v hrun ↦ (goneForGood_of_deleted hinvt ?_ ls' v hrun).2
      obtain ⟨log', hlog⟩ := hstep.log_append
      rw [hlog]
      exact List.mem_append_left _ hdel

/-- The first of two timers stops itself: it is not started again. -/
theorem cancle_in_batch_iff_running_timer :
    ∃ s t, Trace.run next (.ok init) [.newTimer 16 90 50 true, .addTimerInLoop 16 10,
        .newTimer 32 100 30 true, .addTimerInLoop 32 11, .handleRead 100 true, .run] =
        some (.ok s) ∧ s.step (.cancleInLoop ⟨16, 1⟩) = some (.ok t) ∧ t.NotStartedAgain 1 := by
  obtain ⟨s, t, hs, ht, hbatch, h16, hadd, hid⟩ : ∃ s t, Trace.run next (.ok init)
        [.newTimer 16 90 50 true, .addTimerInLoop 16 10, .newTimer 32 100 30 true,
          .addTimerInLoop 32 11, .handleRead 100 true, .run] = some (.ok s) ∧
      s.step (.cancleInLoop ⟨16, 1⟩) = some (.ok t) ∧
      s.batch = some ⟨100, [⟨90, 16⟩, ⟨100, 32⟩], [⟨100, 32⟩]⟩ ∧
      s.heap 16 = some ⟨90, 50, true, 1⟩ ∧ s.adding = [] ∧ s.idOf ⟨100, 32⟩ = ⟨32, 2⟩ :=
    ⟨_, _, rfl, rfl, rfl, rfl, rfl, rfl⟩
  refine ⟨s, t, hs, ht, ?_⟩
  have hknown : s.Known ⟨16, 1⟩ := Or.inl ⟨_, h16, rfl, by simp [hadd]⟩
  exact (cancle_in_batch_iff hs hbatch hknown ht).mpr (by simp [hid])

/-- The first of two timers stops the second, which is started all the same. -/
theorem cancled_timer_of_batch_runs :
    ¬ ∀ ls s b timerId t, Trace.run next (.ok init) ls = some (.ok s) → s.batch = some b →
      s.Known timerId → s.step (.cancleInLoop timerId) = some (.ok t) →
      t.NotStartedAgain timerId.sequence := by
  intro h
  obtain ⟨s, b, t, u, hs, hb, hknown, ht, hu, hcount⟩ : ∃ s b t u, Trace.run next (.ok init)
        [.newTimer 16 90 0 false, .addTimerInLoop 16 10, .newTimer 32 100 0 false,
          .addTimerInLoop 32 11, .handleRead 100 true, .run] = some (.ok s) ∧
      s.batch = some b ∧ s.Known ⟨32, 2⟩ ∧ s.step (.cancleInLoop ⟨32, 2⟩) = some (.ok t) ∧
      Trace.run next (.ok t) [.run] = some (.ok u) ∧
      t.log.count (.ran 2) < u.log.count (.ran 2) :=
    ⟨_, _, _, _, rfl, rfl, Or.inl ⟨_, rfl, rfl, by decide⟩, rfl, rfl, by decide⟩
  exact hcount.ne (h _ s b ⟨32, 2⟩ t hs hb hknown ht [.run] u hu).symm

end TimerQueue

end Netlib
