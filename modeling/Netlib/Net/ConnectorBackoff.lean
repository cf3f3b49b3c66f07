import Netlib.Lib.Backoff
import Netlib.Net.Connector

/-!
# How long a Connector waits

The delays of the retry timers over whole runs of a Connector, whatever the sockets answer, and
whoever starts, stops and restarts it (`retry` and `restart` of `net/Connector.cc`).  Only `restart`
sets the delay back: a `stop` and a `start` go on where the last attempt has left it.
-/

namespace Netlib

open Backoff

namespace Connector

/-- The delay behind the one that `retry` has used. -/
abbrev nextDelay : Nat → Nat := doubled cMaxRetryDelayMs

/-- The timers that are not touched by `retry` in a step. -/
def keptTimers (s : Connector) : Label → List Nat
  | .timer delay _ => s.timers.erase delay
  | _ => s.timers

def Label.resets : Label → List (Mark Nat)
  | .restart _ => [.reset]
  | _ => []

/-- What a step does to the delay: `restart` sets it, and each timer it starts uses it. -/
def delays (s : Connector) (l : Label) : List (Mark Nat) :=
  l.resets ++ ((s.step l).elim [] fun t ↦ t.timers.drop (s.keptTimers l).length).map .used

/-- The delays of a run. -/
def delaysOf (s : Connector) (ls : List Label) : List (Mark Nat) :=
  (Trace.collect step (fun s l ↦ some (s.delays l)) s ls).flatten

/-- From one state to another, the timers `ds` are started and nothing else happens to timers and
delay. -/
structure Waits (s t : Connector) (ds : List Nat) : Prop where
  timers : t.timers = s.timers ++ ds
  delay : Uses nextDelay s.retryDelayMs ds t.retryDelayMs

/-! ## 1. One step -/

section

variable {s t u : Connector} {ds ds' : List Nat}

/-- The fields that say how long to wait. -/
theorem Waits.of_eq (htimers : t.timers = s.timers) (hdelay : t.retryDelayMs = s.retryDelayMs) :
    s.Waits t [] where
  timers := by rw [htimers, List.append_nil]
  delay := hdelay ▸ .nil

theorem Waits.trans (h : s.Waits t ds) (h' : t.Waits u ds') : s.Waits u (ds ++ ds') where
  timers := by rw [h'.timers, h.timers, List.append_assoc]
  delay := h.delay.append h'.delay

/-- In front of a handler that only changes other fields. -/
theorem Waits.behind (h : t.Waits u ds) (htimers : t.timers = s.timers)
    (hdelay : t.retryDelayMs = s.retryDelayMs) : s.Waits u ds :=
  (Waits.of_eq htimers hdelay).trans h

theorem retry_waits (s : Connector) (fd : Nat) : ∃ ds, s.Waits (s.retry fd) ds := by
  unfold retry
  dsimp only
  split
  · exact ⟨[s.retryDelayMs], rfl, .cons .nil⟩
  · exact ⟨[], .of_eq rfl rfl⟩

theorem connect_waits (s : Connector) (a : Attempt) : ∃ ds, s.Waits (s.connect a) ds := by
  -- a `stop` of another thread leaves the timers and the delay alone
  obtain ⟨flag, calling, hopened⟩ := s.opened_eq a
  obtain ⟨-, hconnect⟩ | ⟨-, hconnect⟩ | ⟨-, hconnect⟩ := s.connect_cases a
  · rw [hconnect, hopened]
    exact ⟨[], .of_eq rfl rfl⟩
  · rw [hconnect, hopened]
    obtain ⟨ds, hds⟩ := retry_waits
      { s with created := s.created + 1, connectFlag := flag, calling := calling } s.created
    exact ⟨ds, hds.behind rfl rfl⟩
  · rw [hconnect, hopened]
    exact ⟨[], .of_eq rfl rfl⟩

theorem startInLoop_waits (s : Connector) (a : Attempt) : ∃ ds, s.Waits (s.startInLoop a) ds := by
  unfold startInLoop
  split
  · obtain ⟨ds, hds⟩ := connect_waits { s with started := s.started ++ [s.state] } a
    exact ⟨ds, hds.behind rfl rfl⟩
  · exact ⟨[], .of_eq rfl rfl⟩

/-- Every handler that gives up on an attempt. -/
theorem giveUp_waits {state : ConnectorState}
    (h : (removeAndResetChnnel { s with state := state }).map (fun (fd, s) ↦ s.retry fd) = some t) :
    ∃ ds, s.Waits t ds := by
  obtain ⟨⟨fd, u⟩, hrem, rfl⟩ := Option.map_eq_some_iff.mp h
  obtain ⟨htimers, hdelay⟩ := removeAndResetChnnel_eq hrem
  obtain ⟨ds, hds⟩ := u.retry_waits fd
  exact ⟨ds, hds.behind htimers hdelay⟩

theorem stopInLoop_waits (h : s.stopInLoop = some t) : ∃ ds, s.Waits t ds := by
  unfold stopInLoop at h
  split at h
  · exact giveUp_waits h
  · cases h
    exact ⟨[], .of_eq rfl rfl⟩

theorem handleError_waits (h : s.handleError = some t) : ∃ ds, s.Waits t ds := by
  unfold handleError at h
  split at h
  · exact giveUp_waits h
  · cases h
    exact ⟨[], .of_eq rfl rfl⟩

theorem handleWrite_waits {soError selfConnect : Bool}
    (h : s.handleWrite soError selfConnect = some t) : ∃ ds, s.Waits t ds := by
  unfold handleWrite at h
  split at h
  · obtain ⟨⟨fd, u⟩, hrem, rfl⟩ := Option.map_eq_some_iff.mp h
    obtain ⟨htimers, hdelay⟩ := removeAndResetChnnel_eq hrem
    obtain ⟨ds, hds⟩ := u.retry_waits fd
    have hretry : ∃ ds, s.Waits (u.retry fd) ds := ⟨ds, hds.behind htimers hdelay⟩
    dsimp only
    split
    · exact hretry
    · split
      · exact hretry
      · split
        · exact ⟨[], .of_eq htimers hdelay⟩
        · exact ⟨[], .of_eq htimers hdelay⟩
  · cases h
    exact ⟨[], .of_eq rfl rfl⟩

theorem handleEvent_waits {error write soError selfConnect : Bool}
    (h : s.handleEvent error write soError selfConnect = some t) : ∃ ds, s.Waits t ds := by
  obtain ⟨u, hu, ht⟩ := Option.bind_eq_some_iff.mp h
  have hfirst : ∃ ds, s.Waits u ds := by
    split at hu
    · exact handleError_waits hu
    · cases hu
      exact ⟨[], .of_eq rfl rfl⟩
  have hsecond : ∃ ds, u.Waits t ds := by
    split at ht
    · exact handleWrite_waits ht
    · cases ht
      exact ⟨[], .of_eq rfl rfl⟩
  obtain ⟨ds, hds⟩ := hfirst
  obtain ⟨ds', hds'⟩ := hsecond
  exact ⟨ds ++ ds', hds.trans hds'⟩

theorem perform_waits {a : Attempt} {f : ConnectorFunctor} (h : s.perform a f = some t) :
    ∃ ds, s.Waits t ds := by
  cases f with
  | startInLoop =>
    cases h
    exact s.startInLoop_waits a
  | stopInLoop => exact stopInLoop_waits h
  | resetChnnel removed =>
    cases h
    exact ⟨[], .of_eq rfl rfl⟩

/-- What a step starts from. -/
def prepared (s : Connector) (l : Label) : Connector :=
  { s with
    timers := s.keptTimers l
    retryDelayMs := if l.resets = [] then s.retryDelayMs else cInitRetryDelayMs }

theorem StepTo.waits {l : Label} (h : StepTo s l t) : ∃ ds, (s.prepared l).Waits t ds := by
  cases h with
  | startHere =>
    obtain ⟨ds, hds⟩ := startInLoop_waits { s with connectFlag := true, starts := s.starts + 1 } _
    exact ⟨ds, hds.behind rfl rfl⟩
  | restart =>
    obtain ⟨ds, hds⟩ := startInLoop_waits { s with
      state := .cDisconnected, retryDelayMs := cInitRetryDelayMs, connectFlag := true } _
    exact ⟨ds, hds.behind rfl rfl⟩
  | stopHere | start | stop | queueInLoop | pollReady | pollOther | swap | done =>
    exact ⟨[], .of_eq rfl rfl⟩
  | event _ _ hevent =>
    obtain ⟨ds, hds⟩ := handleEvent_waits hevent
    exact ⟨ds, hds.behind rfl rfl⟩
  | @timer delay =>
    obtain ⟨ds, hds⟩ := startInLoop_waits { s with timers := s.timers.erase delay } _
    exact ⟨ds, hds.behind rfl rfl⟩
  | functor _ _ hperform =>
    obtain ⟨ds, hds⟩ := perform_waits hperform
    exact ⟨ds, hds.behind rfl rfl⟩

/-- The timers that a step starts, and what they add to the history. -/
theorem step_delays {l : Label} (hstep : s.step l = some t) :
    ∃ ds, t.timers = s.keptTimers l ++ ds ∧ s.delays l = l.resets ++ ds.map .used ∧
      Uses nextDelay (s.prepared l).retryDelayMs ds t.retryDelayMs := by
  obtain ⟨ds, htimers, hdelay⟩ := (step_cases hstep).waits
  have hdrop : t.timers.drop (s.keptTimers l).length = ds := by
    rw [htimers]
    exact List.drop_left
  exact ⟨ds, htimers, by rw [delays, hstep, Option.elim_some, hdrop], hdelay⟩

theorem keeps_step {l : Label} {h : List (Mark Nat)} (hstep : s.step l = some t)
    (hk : Keeps nextDelay cInitRetryDelayMs h s.retryDelayMs) :
    Keeps nextDelay cInitRetryDelayMs (h ++ s.delays l) t.retryDelayMs := by
  obtain ⟨ds, -, hdelays, huses⟩ := step_delays hstep
  rw [hdelays, ← List.append_assoc]
  refine Keeps.uses ?_ huses
  cases l with
  | restart a => exact hk.reset
  | _ =>
    show Keeps _ _ (h ++ []) _
    rw [List.append_nil]
    exact hk

/-- A timer that waits behind a step waited in front of it, or the step has started it. -/
theorem mem_timers_step {l : Label} (hstep : s.step l = some t) {d : Nat} (hd : d ∈ t.timers) :
    d ∈ s.timers ∨ .used d ∈ s.delays l := by
  obtain ⟨ds, htimers, hdelays, -⟩ := step_delays hstep
  have hkept : s.keptTimers l ⊆ s.timers := by
    cases l with
    | timer delay a => exact List.erase_subset
    | _ => exact List.Subset.refl _
  rw [htimers] at hd
  rw [hdelays]
  rcases List.mem_append.mp hd with hold | hnew
  · exact Or.inl (hkept hold)
  · exact Or.inr (List.mem_append_right _ (List.mem_map_of_mem hnew))

end

/-! ## 2. Whole runs -/

theorem run_keeps_delays {ls : List Label} {s : Connector}
    (hrun : Trace.run step init ls = some s) :
    Keeps nextDelay cInitRetryDelayMs (init.delaysOf ls) s.retryDelayMs ∧
      ∀ d ∈ s.timers, .used d ∈ init.delaysOf ls := by
  have hlast := Trace.run_history (f := fun s l ↦ some (s.delays l)) (h := [])
    (H := fun s h ↦ Keeps nextDelay cInitRetryDelayMs h.flatten s.retryDelayMs ∧
      ∀ d ∈ s.timers, .used d ∈ h.flatten)
    (fun s h l t hs hstep ↦ ?_) ⟨keeps_nil, fun d hd ↦ absurd hd List.not_mem_nil⟩ hrun
  · exact hlast
  · rw [Option.toList_some, List.flatten_append, List.flatten_singleton]
    refine ⟨keeps_step hstep hs.1, fun d hd ↦ ?_⟩
    rcases mem_timers_step hstep hd with hold | hnew
    · exact List.mem_append_left _ (hs.2 d hold)
    · exact List.mem_append_right _ hnew

/-- **Backoff.**  Whatever the sockets answer, and whoever starts, stops and restarts: the timer
that `retry` starts is for `500 * 2 ^ k` milliseconds, or for 30 seconds if that is less, when it
has started `k` timers since the last `restart`.  Neither a `start` nor a `stop` nor a connection
that came about counts.  The delay kept for the next attempt is of this form too, and every timer
that has not fired was started so. -/
theorem retry_delays {ls : List Label} {s : Connector} (hrun : Trace.run step init ls = some s) :
    (∀ before d after, init.delaysOf ls = before ++ .used d :: after →
        d = min (500 * 2 ^ sinceReset before) 30000) ∧
      s.retryDelayMs = min (500 * 2 ^ sinceReset (init.delaysOf ls)) 30000 ∧
      ∀ d ∈ s.timers, .used d ∈ init.delaysOf ls ∧ 500 ≤ d ∧ d ≤ 30000 := by
  obtain ⟨hkeeps, htimers⟩ := run_keeps_delays hrun
  have hlaw (k : Nat) : nextDelay^[k] cInitRetryDelayMs = min (500 * 2 ^ k) 30000 :=
    iterate_doubled (by decide) k
  have hused (before : List (Mark Nat)) (d : Nat) (after : List (Mark Nat))
      (hsplit : init.delaysOf ls = before ++ .used d :: after) :
      d = min (500 * 2 ^ sinceReset before) 30000 := by
    rw [hkeeps.used before d after hsplit, hlaw]
  refine ⟨hused, by rw [hkeeps.now, hlaw], fun d hd ↦ ⟨htimers d hd, ?_⟩⟩
  obtain ⟨before, after, hsplit⟩ := List.append_of_mem (htimers d hd)
  have hpos : 1 ≤ 2 ^ sinceReset before := Nat.one_le_two_pow
  have hd' := hused before d after hsplit
  omega

/-- Refused twice, stopped and started again, which goes on with the third delay; then restarted. -/
def refusedTwice : List Label :=
  [.startHere ⟨.ECONNREFUSED, false⟩, .poll false, .timer 500 ⟨.ECONNREFUSED, false⟩, .stopHere,
    .timer 1000 ⟨.ok, false⟩, .swap, .functor ⟨.ok, false⟩, .done,
    .startHere ⟨.ECONNREFUSED, false⟩, .poll false, .timer 2000 ⟨.ok, false⟩, .swap, .done,
    .poll true, .event false true false false, .restart ⟨.EAGAIN, false⟩]

theorem retry_delays_refusedTwice :
    ∃ s, Trace.run step init refusedTwice = some s ∧
      init.delaysOf refusedTwice = [.used 500, .used 1000, .used 2000, .reset, .used 500] ∧
      s.retryDelayMs = 1000 := by
  obtain ⟨-, hnow, -⟩ :=
    retry_delays (show Trace.run step init refusedTwice = some _ from rfl)
  exact ⟨_, rfl, rfl, hnow⟩

end Connector

end Netlib
