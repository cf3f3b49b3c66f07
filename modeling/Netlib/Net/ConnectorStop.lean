import Netlib.Net.ConnectorRuns

/-!
# Stopping a Connector

`stop` clears `_connect` and queues `stopInLoop`.  From then on no handler begins an attempt or hands a
socket over, whatever is still on its way: the attempt in flight, its success or its error, and the
retry timers already armed.
-/

namespace Netlib.Connector

/-- `stop`, on the loop thread or on another. -/
def Label.isStop : Label → Bool
  | .stopHere | .stop => true
  | _ => false

/-! ## 1. Handlers with `_connect` cleared -/

/-- What a handler leaves alone while `_connect` is cleared: no socket is created, none is handed over,
and no attempt becomes pending. -/
structure Inert (s t : Connector) : Prop where
  flag : t.connectFlag = s.connectFlag
  created : t.created = s.created
  handed : t.handed = s.handed
  connecting : s.state ≠ .cConnecting → t.state ≠ .cConnecting

theorem Inert.refl (s : Connector) : Inert s s := ⟨rfl, rfl, rfl, id⟩

theorem Inert.trans {s t u : Connector} (h : Inert s t) (h' : Inert t u) : Inert s u :=
  ⟨h'.flag.trans h.flag, h'.created.trans h.created, h'.handed.trans h.handed,
    fun hs ↦ h'.connecting (h.connecting hs)⟩

theorem inert_retry (s : Connector) (fd : Nat) : Inert s (s.retry fd) := by
  unfold retry
  dsimp only
  split
  · exact ⟨rfl, rfl, rfl, fun _ ↦ by simp⟩
  · exact ⟨rfl, rfl, rfl, fun _ ↦ by simp⟩

theorem inert_removeAndResetChnnel {s t : Connector} {fd : Nat}
    (h : s.removeAndResetChnnel = some (fd, t)) : Inert s t := by
  obtain ⟨c, -, hc⟩ := Option.map_eq_some_iff.mp h
  cases hc
  exact ⟨rfl, rfl, rfl, id⟩

theorem startInLoop_of_stopped {s : Connector} (hflag : s.connectFlag = false) (a : Attempt) :
    s.startInLoop a = s := by
  unfold startInLoop
  rw [if_neg (by rw [hflag]; exact Bool.false_ne_true)]

theorem inert_startInLoop {s : Connector} (hflag : s.connectFlag = false) (a : Attempt) :
    Inert s (s.startInLoop a) := by
  rw [startInLoop_of_stopped hflag]
  exact Inert.refl s

/-- A success that arrives after `stop` closes its socket. -/
theorem handled_inert : Handled fun s t ↦ s.connectFlag = false → Inert s t where
  refl := fun s _ ↦ Inert.refl s
  trans := fun _ _ _ h h' hflag ↦ (h hflag).trans (h' ((h hflag).flag.trans hflag))
  retry := fun s fd _ ↦ inert_retry s fd
  removeAndResetChnnel := fun _ _ _ h _ ↦ inert_removeAndResetChnnel h
  disconnected := fun _ _ ↦ ⟨rfl, rfl, rfl, fun _ ↦ by simp⟩
  connected := fun s fd hflag ↦ by
    rw [if_neg (by rw [hflag]; exact Bool.false_ne_true)]
    exact ⟨rfl, rfl, rfl, fun _ ↦ by simp [close]⟩

/-- The state is never `cConnecting` after `stopInLoop`. -/
theorem stopInLoop_state {s t : Connector} (h : s.stopInLoop = some t) :
    t.state ≠ .cConnecting := by
  unfold stopInLoop at h
  split at h
  · obtain ⟨⟨fd, u⟩, -, rfl⟩ := Option.map_eq_some_iff.mp h
    simp only [retry]
    split
    all_goals simp
  · rename_i hstate
    cases h
    exact hstate

/-- No step but a call of `start` or `restart` undoes a `stop`. -/
theorem step_inert {s t : Connector} {l : Label} (hflag : s.connectFlag = false)
    (hstart : l.isStart = false) (hrestart : ∀ a, l ≠ .restart a) (ht : s.step l = some t) :
    Inert s t := by
  cases step_cases ht with
  | startHere | start => cases hstart
  | @restart a => exact absurd rfl (hrestart a)
  | stopHere | stop => exact ⟨hflag.symm, rfl, rfl, id⟩
  | queueInLoop | pollReady | pollOther | swap | done => exact ⟨rfl, rfl, rfl, id⟩
  | event _ _ hevent =>
    have hphase : Inert s { s with phase := .events none } := ⟨rfl, rfl, rfl, id⟩
    exact hphase.trans (handled_inert.handleEvent hevent hflag)
  -- the retry timer enters `startInLoop`, which tests `_connect`
  | @timer delay a =>
    have hdue : Inert s { s with timers := s.timers.erase delay } := ⟨rfl, rfl, rfl, id⟩
    apply hdue.trans
    apply inert_startInLoop
    exact hflag
  | @functor a f rest t _ hbatch hperform =>
    have htaken : Inert s { s with functors :=
        { s.functors with batch := rest, executed := s.functors.executed ++ [f] } } :=
      ⟨rfl, rfl, rfl, id⟩
    apply htaken.trans
    cases f with
    | startInLoop =>
      cases hperform
      apply inert_startInLoop
      exact hflag
    | stopInLoop => exact handled_inert.stopInLoop hperform hflag
    | resetChnnel k =>
      cases hperform
      exact ⟨rfl, rfl, rfl, id⟩

/-! ## 2. After `stop` -/

/-- The one `start` has been called, and `stop` after it. -/
structure Stopped (created : Nat) (handed : List Nat) (s : Connector) : Prop where
  inv : s.SingleStartInv
  starts : s.starts = 1
  flag : s.connectFlag = false
  created : s.created = created
  handed : s.handed = handed

theorem SingleStart.not_start {s : Connector} {l : Label} (h : s.SingleStart l)
    (hstarts : s.starts = 1) : l.isStart = false ∧ ∀ a, l ≠ .restart a := by
  cases l with
  | startHere a =>
    have hzero : s.starts = 0 := h
    omega
  | start =>
    have hzero : s.starts = 0 := h
    omega
  | restart a => exact h.elim
  | _ => exact ⟨rfl, fun _ ↦ by simp⟩

theorem Stopped.step {created : Nat} {handed : List Nat} {s t : Connector} {l : Label}
    (h : Stopped created handed s) (hsingle : s.SingleStart l) (hfirst : s.ResetsFirst l)
    (ht : s.step l = some t) :
    Stopped created handed t ∧ (s.state ≠ .cConnecting → t.state ≠ .cConnecting) := by
  obtain ⟨hstart, hrestart⟩ := hsingle.not_start h.starts
  have hinert := step_inert h.flag hstart hrestart ht
  have hcounts := step_counts h.inv.inv.toSocketInvariant ht
  refine ⟨⟨h.inv.step hsingle hfirst ht, ?_, ?_, ?_, ?_⟩, hinert.connecting⟩
  · rw [hcounts.starts, hstart, h.starts]
    rfl
  · rw [hinert.flag, h.flag]
  · rw [hinert.created, h.created]
  · rw [hinert.handed, h.handed]

/-- The call of `stop` itself. -/
theorem stopped_of_stop {s t : Connector} {l : Label} (h : s.SingleStartInv) (hstarts : s.starts = 1)
    (hsingle : s.SingleStart l) (hfirst : s.ResetsFirst l) (hstop : l.isStop = true)
    (ht : s.step l = some t) : Stopped s.created s.handed t := by
  have hinv := h.step hsingle hfirst ht
  cases step_cases ht with
  | stopHere => exact ⟨hinv, hstarts, rfl, rfl, rfl⟩
  | stop => exact ⟨hinv, hstarts, rfl, rfl, rfl⟩
  | startHere | restart | start | queueInLoop | pollReady | pollOther | event | timer | swap
  | functor | done => cases hstop

/-- No attempt is pending, no channel is registered, every socket created is closed or handed over, and
a retry timer that fires is used up and nothing else. -/
def WoundUp (s : Connector) : Prop :=
  s.state ≠ .cConnecting ∧ s.registered = none ∧
    (∀ k < s.created, k ∉ s.handed → k ∈ s.closed) ∧
    ∀ delay a t, s.step (.timer delay a) = some t → t = { s with timers := s.timers.erase delay }

theorem Stopped.woundUp {created : Nat} {handed : List Nat} {s : Connector}
    (h : Stopped created handed s) (hstate : s.state ≠ .cConnecting) : s.WoundUp := by
  have hreg : s.registered = none := by
    by_contra hne
    exact hstate (h.inv.inv.connecting.mpr hne)
  refine ⟨hstate, hreg, ?_, ?_⟩
  · intro k hk hhanded
    have hledger := h.inv.inv.ledger k
    rw [hreg, if_pos ⟨hk, by simp⟩, List.count_eq_zero_of_not_mem hhanded] at hledger
    apply List.count_pos_iff.mp
    omega
  · intro delay a t ht
    cases step_cases ht with
    | timer => exact startInLoop_of_stopped (s := { s with timers := s.timers.erase delay }) h.flag a

/-- **`stop` is final.**  Once it is called after the one `start`, no socket is created and none is
handed over; and once a `stopInLoop` queued has run, the Connector stays wound up. -/
theorem stop_is_final {before after : List Label} {l : Label} {s t : Connector}
    (hsingle : Trace.Along step SingleStart init (before ++ l :: after))
    (hfirst : Trace.Along step ResetsFirst init (before ++ l :: after))
    (hs : Trace.run step init before = some s) (hstarted : s.starts = 1)
    (hstop : l.isStop = true) (ht : s.step l = some t) :
    Trace.Always step (fun u ↦ u.created = s.created ∧ u.handed = s.handed) t after ∧
      ∀ early late a m u, after = early ++ .functor a :: late →
        Trace.run step t early = some m → m.functors.batch.head? = some .stopInLoop →
        m.step (.functor a) = some u → Trace.Always step WoundUp u late := by
  obtain ⟨hbefore, hfrom⟩ := Trace.along_append.mp (hsingle.and hfirst)
  have hinv : s.SingleStartInv :=
    Trace.run_inv_along (fun _ _ _ h hp hm ↦ h.step hp.1 hp.2 hm) init_singleStartInv hbefore hs
  obtain ⟨⟨hl, hlfirst⟩, hafter⟩ := (Trace.along_cons_of_step ht).mp (hfrom s hs)
  have hstopped := stopped_of_stop hinv hstarted hl hlfirst hstop ht
  constructor
  · refine hafter.always (I := Stopped s.created s.handed) ?_ ?_ hstopped
    · intro u m v hu hp hv
      exact (hu.step hp.1 hp.2 hv).1
    · intro u hu
      exact ⟨hu.created, hu.handed⟩
  · rintro early late a m u rfl hm hhead hu
    obtain ⟨hearly, hlate⟩ := Trace.along_append.mp hafter
    have hmstopped : Stopped s.created s.handed m :=
      Trace.run_inv_along (fun _ _ _ h hp hv ↦ (h.step hp.1 hp.2 hv).1) hstopped hearly hm
    obtain ⟨hp, hrest⟩ := (Trace.along_cons_of_step hu).mp (hlate m hm)
    have hustopped := (hmstopped.step hp.1 hp.2 hu).1
    -- the functor that runs is the `stopInLoop`
    have hstate : u.state ≠ .cConnecting := by
      cases step_cases hu with
      | functor _ hbatch hperform =>
        rw [hbatch, List.head?_cons, Option.some.injEq] at hhead
        subst hhead
        exact stopInLoop_state hperform
    -- from here on nothing leads back to `cConnecting`
    refine hrest.always (I := fun v ↦ Stopped s.created s.handed v ∧ v.state ≠ .cConnecting) ?_ ?_
      ⟨hustopped, hstate⟩
    · intro v k w hv hp hw
      obtain ⟨hwstopped, hkeeps⟩ := hv.1.step hp.1 hp.2 hw
      exact ⟨hwstopped, hkeeps hv.2⟩
    · intro v hv
      exact hv.1.woundUp hv.2

/-- A pending attempt is stopped, and `stopInLoop` closes its socket. -/
theorem stop_is_final_pending_attempt :
    ∃ s t u, Trace.run step init [.startHere ⟨.EINPROGRESS, false⟩] = some s ∧
      s.state = .cConnecting ∧ s.step .stopHere = some t ∧
      Trace.run step t [.poll false, .swap, .functor ⟨.ok, false⟩] = some u ∧ u.closed = [0] ∧
      Trace.Always step WoundUp u [.done, .poll false, .swap, .functor ⟨.ok, false⟩] := by
  obtain ⟨s, t, m, u, hs, hstarts, hstate, ht, hm, hhead, hu, hrun, hclosed⟩ :
      ∃ s t m u, Trace.run step init [.startHere ⟨.EINPROGRESS, false⟩] = some s ∧ s.starts = 1 ∧
        s.state = .cConnecting ∧ s.step .stopHere = some t ∧
        Trace.run step t [.poll false, .swap] = some m ∧
        m.functors.batch.head? = some .stopInLoop ∧ m.step (.functor ⟨.ok, false⟩) = some u ∧
        Trace.run step t [.poll false, .swap, .functor ⟨.ok, false⟩] = some u ∧ u.closed = [0] :=
    ⟨_, _, _, _, rfl, rfl, rfl, rfl, rfl, rfl, rfl, rfl, rfl⟩
  have hsingle : Trace.Along step SingleStart init ([.startHere ⟨.EINPROGRESS, false⟩] ++ .stopHere ::
      [.poll false, .swap, .functor ⟨.ok, false⟩, .done, .poll false, .swap,
        .functor ⟨.ok, false⟩]) := by decide
  have hfinal := stop_is_final hsingle (by decide) hs hstarts rfl ht
  exact ⟨s, t, u, hs, hstate, ht, hrun, hclosed,
    hfinal.2 [.poll false, .swap] _ _ m u rfl hm hhead hu⟩

/-- `stop` ahead of the one `start` does not keep it from connecting. -/
theorem start_after_stop_connects :
    ¬ ∀ (before after : List Label) (l : Label) (s t u : Connector),
      Trace.Along step SingleStart init (before ++ l :: after) →
      Trace.Along step ResetsFirst init (before ++ l :: after) →
      Trace.run step init before = some s → l.isStop = true → s.step l = some t →
      Trace.run step t after = some u → u.created = s.created := by
  intro h
  have hcreated := h [] [.startHere ⟨.EINPROGRESS, false⟩] .stopHere _ _ _ (by decide) (by decide)
    rfl rfl rfl rfl
  exact absurd hcreated (by decide)

end Netlib.Connector
