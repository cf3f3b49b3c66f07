import Netlib.Net.Connector

/-!
# Runs of a Connector

`start` enters `startInLoop` at once on the loop thread and through a functor on any other, and each
retry timer enters it again.  What the entries may meet is said in `Connector.EntersIdle` and, where
one retry timer at a time is to be left, in `Connector.MayEnter`; here it is derived from who calls
`start`, and when.
-/

namespace Netlib.Connector

def Label.isStart : Label → Bool
  | .startHere _ | .start => true
  | _ => false

/-- The functor at the front of the batch is a `startInLoop`. -/
def RunsStart (s : Connector) : Label → Prop
  | .functor _ => s.functors.batch.head? = some .startInLoop
  | _ => False

instance (s : Connector) : (l : Label) → Decidable (s.RunsStart l)
  | .functor _ => inferInstanceAs (Decidable (_ = _))
  | .startHere _ | .stopHere | .restart _ | .start | .stop | .queueInLoop _ | .poll _
  | .event _ _ _ _ | .timer _ _ | .swap | .done => .isFalse id

/-- The calls of `start` on other threads whose `startInLoop` has not run. -/
def pendingStarts (s : Connector) : Nat := (s.calling ++ s.waiting).count .startInLoop

/-! ## 1. Calls on their way -/

/-- A handler calls no `start` and queues no `startInLoop`. -/
structure Keeps (s t : Connector) : Prop where
  starts : t.starts = s.starts
  pendingStarts : t.pendingStarts = s.pendingStarts
  calls : s.CallsOnly → t.CallsOnly

theorem Keeps.refl (s : Connector) : Keeps s s := ⟨rfl, rfl, id⟩

theorem Keeps.trans {s t u : Connector} (h : Keeps s t) (h' : Keeps t u) : Keeps s u :=
  ⟨h'.starts.trans h.starts, h'.pendingStarts.trans h.pendingStarts, fun hs ↦ h'.calls (h.calls hs)⟩

theorem keeps_retry (s : Connector) (fd : Nat) : Keeps s (s.retry fd) := by
  unfold retry
  dsimp only
  split
  all_goals exact ⟨rfl, rfl, id⟩

theorem keeps_stopElsewhere (s : Connector) : Keeps s s.stopElsewhere := by
  refine ⟨rfl, ?_, fun h f hf ↦ ?_⟩
  · simp [pendingStarts, stopElsewhere, waiting, List.count_append]
  · rcases List.mem_append.mp hf with hf | hf
    · exact h f hf
    · rw [List.mem_singleton.mp hf]
      rfl

theorem keeps_connect (s : Connector) (a : Attempt) : Keeps s (s.connect a) := by
  have hopened : Keeps s (s.opened a) := by
    unfold opened
    dsimp only
    split
    · exact Keeps.trans (t := { s with created := s.created + 1 }) ⟨rfl, rfl, id⟩
        (keeps_stopElsewhere _)
    · exact ⟨rfl, rfl, id⟩
  obtain ⟨-, hconnect⟩ | ⟨-, hconnect⟩ | ⟨-, hconnect⟩ := s.connect_cases a
  · rw [hconnect]
    exact hopened.trans ⟨rfl, rfl, id⟩
  · rw [hconnect]
    exact hopened.trans (keeps_retry _ _)
  · rw [hconnect]
    exact hopened.trans ⟨rfl, rfl, id⟩

theorem keeps_startInLoop (s : Connector) (a : Attempt) : Keeps s (s.startInLoop a) := by
  unfold startInLoop
  split
  · exact Keeps.trans (t := { s with started := s.started ++ [s.state] }) ⟨rfl, rfl, id⟩
      (keeps_connect _ a)
  · exact Keeps.refl s

theorem keeps_removeAndResetChnnel {s t : Connector} {fd : Nat}
    (h : s.removeAndResetChnnel = some (fd, t)) : Keeps s t := by
  obtain ⟨c, -, hc⟩ := Option.map_eq_some_iff.mp h
  cases hc
  refine ⟨rfl, ?_, id⟩
  simp [pendingStarts, waiting, List.count_append]

theorem handled_keeps : Handled Keeps where
  refl := Keeps.refl
  trans := fun _ _ _ ↦ Keeps.trans
  retry := keeps_retry
  removeAndResetChnnel := fun _ _ _ ↦ keeps_removeAndResetChnnel
  disconnected := fun _ ↦ ⟨rfl, rfl, id⟩
  connected := fun s fd ↦ by
    split
    all_goals exact ⟨rfl, rfl, id⟩

/-- What a step does to the calls of `start`. -/
structure Counts (s : Connector) (l : Label) (t : Connector) : Prop where
  starts : t.starts = s.starts + if l.isStart then 1 else 0
  pendingStarts : t.pendingStarts + (if s.RunsStart l then 1 else 0) =
    s.pendingStarts + if l = .start then 1 else 0
  calls : s.CallsOnly → t.CallsOnly

theorem Keeps.counts {s t : Connector} {l : Label} (h : Keeps s t) (hnot : l.isStart = false)
    (hruns : ¬ s.RunsStart l) : Counts s l t := by
  have hne : l ≠ .start := fun heq ↦ by simp [heq, Label.isStart] at hnot
  exact ⟨by simp [hnot, h.starts], by simp [hruns, hne, h.pendingStarts], h.calls⟩

/-- A functor: of the three only `startInLoop` is counted. -/
theorem perform_counts {s t : Connector} {a : Attempt} {f : ConnectorFunctor}
    {rest : List ConnectorFunctor} (hbatch : s.functors.batch = f :: rest)
    (h : ({ s with functors :=
      { s.functors with batch := rest, executed := s.functors.executed ++ [f] } } :
        Connector).perform a f = some t) : Counts s (.functor a) t := by
  cases f with
  | startInLoop =>
    cases h
    have hkeeps := keeps_startInLoop { s with functors :=
      { s.functors with batch := rest, executed := s.functors.executed ++ [.startInLoop] } } a
    refine ⟨hkeeps.starts, ?_, hkeeps.calls⟩
    rw [hkeeps.pendingStarts]
    simp only [pendingStarts, waiting, hbatch, RunsStart, List.head?_cons, if_true,
      List.count_append, List.count_cons_self, reduceCtorEq, if_false]
    omega
  | stopInLoop =>
    have hkeeps : Keeps s { s with functors :=
        { s.functors with batch := rest, executed := s.functors.executed ++ [.stopInLoop] } } := by
      refine ⟨rfl, ?_, id⟩
      simp [pendingStarts, waiting, hbatch, List.count_append]
    apply (hkeeps.trans (handled_keeps.stopInLoop h)).counts rfl
    simp [RunsStart, hbatch]
  | resetChnnel k =>
    cases h
    refine Keeps.counts ⟨rfl, ?_, id⟩ rfl ?_
    · simp [pendingStarts, waiting, hbatch, resetChnnel, List.count_append]
    · simp [RunsStart, hbatch]

theorem step_counts {s t : Connector} {l : Label} (h : s.SocketInvariant) (ht : s.step l = some t) :
    Counts s l t := by
  cases step_cases ht with
  | @startHere a =>
    have hkeeps := keeps_startInLoop { s with connectFlag := true, starts := s.starts + 1 } a
    refine ⟨hkeeps.starts, ?_, hkeeps.calls⟩
    rw [if_neg (show ¬ s.RunsStart _ from id), if_neg (by simp)]
    exact hkeeps.pendingStarts
  | stopHere =>
    refine Keeps.counts ⟨rfl, ?_, id⟩ rfl id
    simp [pendingStarts, waiting, List.count_append]
  | @restart a =>
    refine Keeps.counts ?_ rfl id
    exact Keeps.trans
      (t := { s with state := .cDisconnected, retryDelayMs := cInitRetryDelayMs,
                     connectFlag := true })
      ⟨rfl, rfl, id⟩ (keeps_startInLoop _ a)
  | start =>
    refine ⟨rfl, ?_, fun hcalls f hf ↦ ?_⟩
    · simp only [pendingStarts, waiting, RunsStart, List.count_append, List.count_singleton]
      simp
      omega
    · rcases List.mem_append.mp hf with hf | hf
      · exact hcalls f hf
      · rw [List.mem_singleton.mp hf]
        rfl
  | stop => exact (keeps_stopElsewhere s).counts rfl id
  | @queueInLoop f hmem =>
    refine Keeps.counts ⟨rfl, ?_, fun hcalls g hg ↦ hcalls g (List.mem_of_mem_erase hg)⟩ rfl id
    have hcount := List.count_pos_iff.mpr hmem
    simp only [pendingStarts, waiting, List.count_append, Batch.Queue.push_batch,
      Batch.Queue.push_pending, List.count_erase, List.count_singleton, beq_iff_eq]
    split
    · rename_i heq
      subst heq
      omega
    · omega
  | pollReady | pollOther | done => exact Keeps.counts ⟨rfl, rfl, id⟩ rfl id
  | event _ _ hevent =>
    refine Keeps.counts ?_ rfl id
    exact Keeps.trans (t := { s with phase := .events none }) ⟨rfl, rfl, id⟩
      (handled_keeps.handleEvent hevent)
  | @timer delay a =>
    refine Keeps.counts ?_ rfl id
    exact Keeps.trans (t := { s with timers := s.timers.erase delay }) ⟨rfl, rfl, id⟩
      (keeps_startInLoop _ a)
  | swap hphase =>
    refine Keeps.counts ⟨rfl, ?_, id⟩ rfl id
    simp [pendingStarts, waiting, h.drained (by simp [hphase])]
  | functor _ hbatch hperform => exact perform_counts hbatch hperform

/-- `start` here, `start` elsewhere, the functor it has left, and all other steps. -/
theorem Counts.cases {s t : Connector} {l : Label} (h : Counts s l t) :
    (∃ a, l = .startHere a ∧ t.starts = s.starts + 1 ∧ t.pendingStarts = s.pendingStarts) ∨
    (l = .start ∧ t.starts = s.starts + 1 ∧ t.pendingStarts = s.pendingStarts + 1) ∨
    (s.RunsStart l ∧ t.starts = s.starts ∧ t.pendingStarts + 1 = s.pendingStarts) ∨
    (l.isStart = false ∧ ¬ s.RunsStart l ∧ t.starts = s.starts ∧
      t.pendingStarts = s.pendingStarts) := by
  have hstarts := h.starts
  have hpending := h.pendingStarts
  cases l with
  | startHere a =>
    rw [if_neg (show ¬ s.RunsStart _ from id), if_neg (by simp)] at hpending
    exact Or.inl ⟨a, rfl, hstarts, hpending⟩
  | start =>
    rw [if_neg (show ¬ s.RunsStart _ from id), if_pos rfl] at hpending
    exact Or.inr (Or.inl ⟨rfl, hstarts, hpending⟩)
  | _ =>
    rw [if_neg (show ¬ (_ : Label) = .start by simp), Nat.add_zero] at hpending
    refine Or.inr (Or.inr ?_)
    split at hpending
    · rename_i hruns
      exact Or.inl ⟨hruns, hstarts, hpending⟩
    · rename_i hruns
      exact Or.inr ⟨rfl, hruns, hstarts, hpending⟩

/-! ## 2. One attempt at a time -/

/-- `start` and `stop` on the loop thread only, `start` only while `_connect` is not set: first, or
after a `stop`. -/
def LoopThread (s : Connector) : Label → Prop
  | .startHere a => s.connectFlag = false ∧ a.stopped = false
  | .timer _ a | .functor a => a.stopped = false
  | .restart _ | .start | .stop | .queueInLoop _ => False
  | _ => True

instance (s : Connector) : (l : Label) → Decidable (s.LoopThread l)
  | .startHere _ => inferInstanceAs (Decidable (_ ∧ _))
  | .timer _ _ | .functor _ => inferInstanceAs (Decidable (_ = _))
  | .restart _ | .start | .stop | .queueInLoop _ => .isFalse id
  | .stopHere | .poll _ | .event _ _ _ _ | .swap | .done => .isTrue trivial

/-- `start` finds the last attempt wound up, and no retry timer left that could begin another attempt
beside this one. -/
def StartsIdle (s : Connector) : Label → Prop
  | .startHere a => s.Ready a
  | _ => True

instance (s : Connector) : (l : Label) → Decidable (s.StartsIdle l)
  | .startHere _ => inferInstanceAs (Decidable (_ ∧ _))
  | .stopHere | .restart _ | .start | .stop | .queueInLoop _ | .poll _ | .event _ _ _ _
  | .timer _ _ | .swap | .functor _ | .done => .isTrue trivial

/-- A retry timer that begins a pending attempt fires behind the `resetChnnel` of the last one. -/
def ResetsFirst (s : Connector) : Label → Prop
  | .timer _ a => s.connectFlag = true → a.errno.branch = .connecting → s.resets = []
  | _ => True

instance (s : Connector) : (l : Label) → Decidable (s.ResetsFirst l)
  | .timer _ _ => inferInstanceAs (Decidable (_ → _))
  | .startHere _ | .stopHere | .restart _ | .start | .stop | .queueInLoop _ | .poll _
  | .event _ _ _ _ | .swap | .functor _ | .done => .isTrue trivial

/-- `startInLoop` was entered in `cDisconnected` only, `connecting` with a null `_chnnel` only, and at
most one socket has its attempt outstanding. -/
def OneAttempt (s : Connector) : Prop :=
  (∀ state ∈ s.started, state = .cDisconnected) ∧ (∀ c ∈ s.found, c = none) ∧
    s.outstanding.length ≤ 1

theorem SocketInvariant.outstanding_length {s : Connector} (h : s.SocketInvariant) :
    s.outstanding.length ≤ 1 := by
  have hreg : ∀ k ∈ s.outstanding, s.registered = some k := by
    intro k hk
    simp only [outstanding, List.mem_filter, List.mem_range, decide_eq_true_eq] at hk
    obtain ⟨hlt, hclosed, hhanded⟩ := hk
    have hledger := h.ledger k
    rw [List.count_eq_zero_of_not_mem hclosed, List.count_eq_zero_of_not_mem hhanded] at hledger
    by_contra hne
    rw [if_pos ⟨hlt, hne⟩] at hledger
    cases hledger
  have hnodup : s.outstanding.Nodup := List.nodup_range.filter _
  -- two of them would both be the socket of the registered channel
  cases hout : s.outstanding with
  | nil => exact Nat.zero_le 1
  | cons k rest =>
    cases rest with
    | nil => exact Nat.le_refl 1
    | cons k' rest =>
      rw [hout] at hreg hnodup
      have heq : some k = some k' := by
        rw [← hreg k (by simp), ← hreg k' (by simp)]
      simp [Option.some.inj heq] at hnodup

/-- No `startInLoop` is on its way through the queue. -/
structure LoopThreadInv (s : Connector) : Prop where
  inv : s.SocketInvariant
  calls : s.CallsOnly
  pendingStarts : s.pendingStarts = 0

theorem RunsStart.pendingStarts_ne {s : Connector} {l : Label} (h : s.RunsStart l) :
    s.pendingStarts ≠ 0 := by
  cases l with
  | functor a =>
    have hmem : ConnectorFunctor.startInLoop ∈ s.functors.batch := List.mem_of_mem_head? h
    have hcount := List.count_pos_iff.mpr hmem
    simp only [pendingStarts, waiting, List.count_append]
    omega
  | _ => exact h.elim

theorem LoopThreadInv.not_runsStart {s : Connector} {l : Label} (h : s.LoopThreadInv) :
    ¬ s.RunsStart l :=
  fun hruns ↦ hruns.pendingStarts_ne h.pendingStarts

theorem LoopThreadInv.step {s t : Connector} {l : Label} (h : s.LoopThreadInv)
    (hthread : s.LoopThread l) (hidle : s.EntersIdle l) (ht : s.step l = some t) :
    t.LoopThreadInv := by
  have hcounts := step_counts h.inv ht
  refine ⟨step_socketInvariant h.inv h.calls hidle ht, hcounts.calls h.calls, ?_⟩
  have hne : l ≠ .start := fun heq ↦ by
    rw [heq] at hthread
    exact hthread
  have hpending := hcounts.pendingStarts
  rw [if_neg h.not_runsStart, if_neg hne, h.pendingStarts] at hpending
  exact hpending

theorem LoopThreadInv.oneAttempt {s : Connector} (h : s.LoopThreadInv) : s.OneAttempt :=
  ⟨h.inv.history.1, h.inv.history.2.1, h.inv.outstanding_length⟩

theorem LoopThreadInv.mayEnter {s : Connector} {l : Label} (h : s.LoopThreadInv)
    (hthread : s.LoopThread l) (hidle : s.StartsIdle l) (hfirst : s.ResetsFirst l) :
    s.MayEnter l := by
  cases l with
  | startHere a => exact hidle
  | timer delay a => exact hfirst
  | functor a => exact fun hhead ↦ (h.not_runsStart (l := .functor a) hhead).elim
  | restart a => exact hthread
  | _ => trivial

theorem init_loopThreadInv : init.LoopThreadInv :=
  ⟨init_socketInvariant, by simp [CallsOnly, init], rfl⟩

theorem retry_started (s : Connector) (fd : Nat) : (s.retry fd).started = s.started := by
  unfold retry
  dsimp only
  split
  all_goals rfl

theorem connect_started (s : Connector) (a : Attempt) : (s.connect a).started = s.started := by
  obtain ⟨flag, calling, hopened⟩ := s.opened_eq a
  obtain ⟨-, hconnect⟩ | ⟨-, hconnect⟩ | ⟨-, hconnect⟩ := s.connect_cases a
  · rw [hconnect, hopened]
    rfl
  · rw [hconnect, retry_started, hopened]
  · rw [hconnect, hopened]
    rfl

theorem connect_found {s : Connector} {a : Attempt} (hbranch : a.errno.branch = .connecting) :
    (s.connect a).found = s.found ++ [s.chnnel] := by
  obtain ⟨flag, calling, hopened⟩ := s.opened_eq a
  rw [connect_connecting hbranch, hopened]
  rfl

/-- An attempt that begins beside another, or ahead of a `resetChnnel`, is seen by an assert. -/
theorem not_oneAttempt_of_startInLoop {s : Connector} {a : Attempt} (h : s.SocketInvariant)
    (hflag : s.connectFlag = true) (hidle : ¬ s.FindsIdle a) : ¬ (s.startInLoop a).OneAttempt := by
  unfold startInLoop
  rw [if_pos hflag]
  rintro ⟨hstarted, hfound, -⟩
  rw [connect_started] at hstarted
  refine hidle ⟨hstarted _ (List.mem_append_right _ (List.mem_singleton_self _)), fun hbranch ↦ ?_⟩
  rw [connect_found hbranch] at hfound
  have hnone := hfound _ (List.mem_append_right _ (List.mem_singleton_self _))
  rw [h.resets, removed, hnone]

theorem LoopThreadInv.not_oneAttempt {s t : Connector} {l : Label} (h : s.LoopThreadInv)
    (hthread : s.LoopThread l) (hidle : ¬ s.EntersIdle l) (ht : s.step l = some t) :
    ¬ t.OneAttempt := by
  cases step_cases ht with
  | startHere =>
    exact not_oneAttempt_of_startInLoop (h.inv.call true (s.starts + 1) s.calling) rfl hidle
  | restart => exact hthread.elim
  | @timer delay a =>
    obtain ⟨hflag, hidle⟩ := Classical.not_imp.mp hidle
    exact not_oneAttempt_of_startInLoop (s := { s with timers := s.timers.erase delay })
      ⟨h.inv.connecting, h.inv.resets, h.inv.drained, h.inv.created, h.inv.ledger, h.inv.history⟩
      hflag hidle
  | @functor a => exact (hidle fun hhead ↦ (h.not_runsStart (l := .functor a) hhead).elim).elim
  | _ => exact (hidle trivial).elim

/-- **One attempt at a time** on the loop thread, exactly when every `start`, and every retry timer
that finds `_connect` set, comes behind the end of the last attempt.  The timers do so where no `start`
finds one left over, and none overtakes the `resetChnnel` of the attempt it repeats. -/
theorem one_attempt_at_a_time {ls : List Label} {s : Connector}
    (hthread : Trace.Along step LoopThread init ls) (h : Trace.run step init ls = some s) :
    (Trace.Always step OneAttempt init ls ↔ Trace.Along step EntersIdle init ls) ∧
    (Trace.Along step StartsIdle init ls → Trace.Along step ResetsFirst init ls →
      Trace.Always step OneAttempt init ls) := by
  constructor
  · refine Trace.always_iff_along_of (I := LoopThreadInv) ?_ ?_ ?_ init_loopThreadInv hthread h
    · intro s l t hs hthread hidle ht
      exact hs.step hthread hidle ht
    · intro s hs
      exact hs.oneAttempt
    · intro s l t hs hthread hidle ht
      exact hs.not_oneAttempt hthread hidle ht
  · intro hidle hfirst
    refine Trace.Along.always (I := fun s ↦ s.LoopThreadInv ∧ s.TimerInvariant) ?_ ?_
      ⟨init_loopThreadInv, init_invariant.toTimerInvariant⟩ (hthread.and (hidle.and hfirst))
    · rintro s l t ⟨hs, htimers⟩ ⟨hthread, hidle, hfirst⟩ ht
      have hmay := hs.mayEnter hthread hidle hfirst
      exact ⟨hs.step hthread (htimers.entersIdle hmay ht) ht, step_timerInvariant htimers hmay ht⟩
    · intro s hs
      exact hs.1.oneAttempt

/-- A pending attempt is stopped; the next `start` comes behind both functors. -/
theorem one_attempt_at_a_time_stopped :
    ∃ ls s, Trace.run step init ls = some s ∧ s.state = .cConnecting ∧ s.closed = [0] ∧
      s.outstanding = [1] ∧ Trace.Always step OneAttempt init ls := by
  refine ⟨[.startHere ⟨.EINPROGRESS, false⟩, .stopHere, .poll false, .swap,
    .functor ⟨.ok, false⟩, .done, .poll false, .swap, .functor ⟨.ok, false⟩, .done,
    .startHere ⟨.EINPROGRESS, false⟩], _, rfl, rfl, rfl, by decide, ?_⟩
  exact (one_attempt_at_a_time (by decide) rfl).1.mpr (by decide)

/-- `start` straight after `stop`: `stopInLoop` has not run, and a second attempt begins beside the
first. -/
theorem two_attempts_after_stop :
    ¬ ∀ ls, Trace.Along step LoopThread init ls → Trace.Always step OneAttempt init ls := by
  intro h
  have halways := h [.startHere ⟨.EINPROGRESS, false⟩, .stopHere,
    .startHere ⟨.EINPROGRESS, false⟩] (by decide)
  obtain ⟨-, -, hone⟩ := ((halways.2 _ rfl).2 _ rfl).2 _ rfl
  exact absurd hone (by decide)

/-! ## 3. Every socket once -/

/-- `start` is called once, on any thread. -/
def SingleStart (s : Connector) : Label → Prop
  | .startHere _ | .start => s.starts = 0
  | .restart _ => False
  | _ => True

instance (s : Connector) : (l : Label) → Decidable (s.SingleStart l)
  | .startHere _ | .start => inferInstanceAs (Decidable (_ = _))
  | .restart _ => .isFalse id
  | .stopHere | .stop | .queueInLoop _ | .poll _ | .event _ _ _ _ | .timer _ _ | .swap | .functor _
  | .done => .isTrue trivial

/-- Every socket created is closed or handed over, once and not both, unless the registered channel
still has it; every `resetChnnel` has destroyed the channel it was queued for, and those that wait
are going to. -/
def Conserved (s : Connector) : Prop :=
  (∀ k < s.created, s.closed.count k + s.handed.count k =
    if s.chnnel = some ⟨k, true⟩ then 0 else 1) ∧
  (∀ r ∈ s.destroyed, r.2 = some ⟨r.1, false⟩) ∧
    ∀ removed ∈ s.resets, s.chnnel = some ⟨removed, false⟩

/-- Nothing has been attempted. -/
structure Fresh (s : Connector) : Prop where
  state : s.state = .cDisconnected
  chnnel : s.chnnel = none
  timers : s.timers = []

/-- As long as the one `start` is on its way, nothing has been attempted. -/
structure SingleStartInv (s : Connector) : Prop where
  inv : s.Invariant
  calls : s.CallsOnly
  once : s.starts ≤ 1
  pendingStarts : s.pendingStarts ≤ s.starts
  fresh : s.pendingStarts = s.starts → s.Fresh

theorem SocketInvariant.conserved {s : Connector} (h : s.SocketInvariant) : s.Conserved := by
  refine ⟨fun k hk ↦ ?_, h.history.2.2, fun r hr ↦ ?_⟩
  · rw [h.ledger k]
    by_cases hreg : s.registered = some k
    · rw [if_neg (by simp [hreg]), if_pos (registered_eq_some.mp hreg)]
    · rw [if_pos ⟨hk, hreg⟩, if_neg (fun hc ↦ hreg (registered_eq_some.mpr hc))]
  · rw [h.resets] at hr
    exact mem_removed.mp hr

theorem Fresh.step {s t : Connector} {l : Label} (h : s.Fresh) (hruns : ¬ s.RunsStart l)
    (hhere : ∀ a, l ≠ .startHere a) (hrestart : ∀ a, l ≠ .restart a)
    (ht : s.step l = some t) : t.Fresh := by
  cases step_cases ht with
  | @startHere a => exact (hhere a rfl).elim
  | @restart a => exact (hrestart a rfl).elim
  | stopHere | start | stop | queueInLoop | pollOther | swap | done =>
    exact ⟨h.state, h.chnnel, h.timers⟩
  | pollReady _ hchnnel | event _ hchnnel =>
    rw [h.chnnel] at hchnnel
    cases hchnnel
  | timer _ hdue =>
    rw [h.timers] at hdue
    cases hdue
  | @functor a f _ _ _ hbatch hperform =>
    cases f with
    | startInLoop => exact (hruns (by simp [RunsStart, hbatch])).elim
    | stopInLoop =>
      rw [perform, stopInLoop, if_neg (by simp [h.state])] at hperform
      cases hperform
      exact ⟨h.state, h.chnnel, h.timers⟩
    | resetChnnel k =>
      cases hperform
      exact ⟨h.state, rfl, h.timers⟩

theorem Fresh.ready {s : Connector} (h : s.Fresh) (hinv : s.SocketInvariant) (a : Attempt) :
    s.Ready a := by
  refine ⟨h.state, Or.inr h.timers, fun _ ↦ ?_⟩
  rw [hinv.resets, removed, h.chnnel]

theorem SingleStartInv.step {s t : Connector} {l : Label} (h : s.SingleStartInv)
    (hsingle : s.SingleStart l) (hfirst : s.ResetsFirst l) (ht : s.step l = some t) :
    t.SingleStartInv := by
  have hcounts := step_counts h.inv.toSocketInvariant ht
  have hbefore := h.pendingStarts
  have honce := h.once
  have hmay : s.MayEnter l := by
    cases l with
    | startHere a =>
      have hzero : s.starts = 0 := hsingle
      exact (h.fresh (by omega)).ready h.inv.toSocketInvariant a
    | timer delay a => exact hfirst
    | functor a =>
      intro hhead _
      have hne := RunsStart.pendingStarts_ne (l := .functor a) hhead
      exact (h.fresh (by omega)).ready h.inv.toSocketInvariant a
    | restart a => exact hsingle
    | _ => trivial
  have hinv := step_invariant h.inv h.calls hmay ht
  have hcalls := hcounts.calls h.calls
  obtain ⟨a, rfl, hstarts, hpending⟩ | ⟨rfl, hstarts, hpending⟩ | ⟨hruns, hstarts, hpending⟩ |
    ⟨hnot, hruns, hstarts, hpending⟩ := hcounts.cases
  · have hzero : s.starts = 0 := hsingle
    exact ⟨hinv, hcalls, by omega, by omega, by omega⟩
  · have hzero : s.starts = 0 := hsingle
    refine ⟨hinv, hcalls, by omega, by omega, fun _ ↦ ?_⟩
    exact (h.fresh (by omega)).step id (by simp) (by simp) ht
  · exact ⟨hinv, hcalls, by omega, by omega, by omega⟩
  · refine ⟨hinv, hcalls, by omega, by omega, fun heq ↦ ?_⟩
    refine (h.fresh (by omega)).step hruns ?_ ?_ ht
    · rintro a rfl
      cases hnot
    · rintro a rfl
      exact hsingle

theorem init_singleStartInv : init.SingleStartInv :=
  ⟨init_invariant, by simp [CallsOnly, init], Nat.zero_le 1, Nat.le_refl 0, fun _ ↦ ⟨rfl, rfl, rfl⟩⟩

/-- A pending attempt replaces `_chnnel`, whatever it was, and leaves the functors alone. -/
theorem startInLoop_connecting {s : Connector} {a : Attempt} (hflag : s.connectFlag = true)
    (hbranch : a.errno.branch = .connecting) :
    (s.startInLoop a).chnnel = some ⟨s.created, true⟩ ∧ (s.startInLoop a).resets = s.resets := by
  unfold startInLoop
  obtain ⟨flag, calling, hopened⟩ := opened_eq { s with started := s.started ++ [s.state] } a
  rw [if_pos hflag, connect_connecting hbranch, hopened]
  exact ⟨rfl, rfl⟩

/-- A retry ahead of a `resetChnnel`: the functor is going to destroy the new channel. -/
theorem not_conserved_of_not_resetsFirst {s t : Connector} {l : Label} (hfirst : ¬ s.ResetsFirst l)
    (ht : s.step l = some t) : ¬ t.Conserved := by
  cases l with
  | timer delay a =>
    simp only [ResetsFirst, Classical.not_imp] at hfirst
    obtain ⟨hflag, hbranch, hresets⟩ := hfirst
    cases step_cases ht with
    | timer =>
      obtain ⟨hchnnel, hsame⟩ := startInLoop_connecting
        (s := { s with timers := s.timers.erase delay }) hflag hbranch
      obtain ⟨r, hr⟩ := List.exists_mem_of_ne_nil _ hresets
      rintro ⟨-, -, hwait⟩
      have hgone := hwait r (hsame ▸ hr)
      rw [hchnnel] at hgone
      simp at hgone
  | _ => exact (hfirst trivial).elim

/-- **No socket is lost and none disposed of twice**, and every `resetChnnel` destroys its own
channel, exactly when no retry timer overtakes the `resetChnnel` of the attempt it repeats. -/
theorem conserved_iff_resetsFirst {ls : List Label} {s : Connector}
    (hsingle : Trace.Along step SingleStart init ls) (h : Trace.run step init ls = some s) :
    Trace.Always step Conserved init ls ↔ Trace.Along step ResetsFirst init ls := by
  refine Trace.always_iff_along_of (I := SingleStartInv) ?_ ?_ ?_ init_singleStartInv hsingle h
  · intro s l t hs hsingle hfirst ht
    exact hs.step hsingle hfirst ht
  · intro s hs
    exact hs.inv.conserved
  · intro s l t _ _ hfirst ht
    exact not_conserved_of_not_resetsFirst hfirst ht

/-- The first attempt is refused by the peer, the retry waits for its turn and succeeds. -/
theorem conserved_iff_resetsFirst_second_attempt :
    ∃ ls s, Trace.run step init ls = some s ∧ s.closed = [0] ∧ s.handed = [1] ∧
      s.destroyed = [(0, some ⟨0, false⟩)] ∧ Trace.Always step Conserved init ls := by
  obtain ⟨ls, s, hls, hs, hclosed, hhanded, hdestroyed⟩ : ∃ ls s, ls = [.start,
      .queueInLoop .startInLoop, .poll false, .swap, .functor ⟨.EINPROGRESS, false⟩, .done,
      .poll true, .event false true true false, .swap, .functor ⟨.ok, false⟩, .done, .poll false,
      .timer 500 ⟨.EINPROGRESS, false⟩, .swap, .done, .poll true,
      .event false true false false] ∧ Trace.run step init ls = some s ∧
      s.closed = [0] ∧ s.handed = [1] ∧ s.destroyed = [(0, some ⟨0, false⟩)] :=
    ⟨_, _, rfl, rfl, rfl, rfl, rfl⟩
  refine ⟨ls, s, hs, hclosed, hhanded, hdestroyed, ?_⟩
  refine (conserved_iff_resetsFirst ?_ hs).mpr ?_
  · rw [hls]
    decide
  · rw [hls]
    decide

/-- The handlers of one iteration take longer than the retry delay: the timer begins the second
attempt, and the `resetChnnel` of the first destroys its channel.  Nothing closes socket 1. -/
theorem socket_lost_to_resetChnnel :
    ¬ ∀ ls s, Trace.Along step SingleStart init ls → Trace.run step init ls = some s →
      Trace.Always step Conserved init ls := by
  intro h
  obtain ⟨s, hs⟩ : ∃ s, Trace.run step init [.startHere ⟨.EINPROGRESS, false⟩, .poll true,
      .event false true true false, .timer 500 ⟨.EINPROGRESS, false⟩, .swap,
      .functor ⟨.ok, false⟩] = some s := ⟨_, rfl⟩
  have halways := h _ s (by decide) hs
  obtain ⟨hsockets, -, -⟩ :=
    (((((halways.2 _ rfl).2 _ rfl).2 _ rfl).2 _ rfl).2 _ rfl).2 _ rfl
  exact absurd (hsockets 1 (by decide)) (by decide)

end Netlib.Connector
