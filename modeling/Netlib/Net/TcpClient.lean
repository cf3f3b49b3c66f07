import Netlib.Net.ConnectorRuns

/-!
# TcpClient

`net/TcpClient.cc` over its Connector: `connect`, `disconnect` and `stop` from any thread, the
connection made and removed, and the destructor.  The TcpClient and the functor of each retry timer
own the Connector; the functors `startInLoop`, `stopInLoop` and `resetChnnel` only point at it.

The Connector's part of the state outlives the Connector, for its queue is the loop's: what has been
queued runs all the same, on an object that is gone, and is noted instead of performed.  Nobody calls a
TcpClient that is destroyed.
-/

namespace Netlib

structure TcpClient where
  connector : Connector
  connectFlag : Bool
  retryFlag : Bool
  /-- The socket of `_connection`. -/
  connection : Option Nat
  nextConnId : Nat
  alive : Bool
  /-- `~Connector` has run, and what `_chnnel` was in it. -/
  destroyed : Option (Option ConnectorChnnel)
  /-- The functors executed on the destroyed Connector. -/
  late : List ConnectorFunctor
deriving DecidableEq, Repr

namespace TcpClient

def init : TcpClient where
  connector := Connector.init
  connectFlag := true
  retryFlag := false
  connection := none
  nextConnId := 1
  alive := true
  destroyed := none
  late := []

/-- The shared pointers of the TcpClient and of the retry timers. -/
def owned (s : TcpClient) : Bool := s.alive || !s.connector.timers.isEmpty

/-- The last shared pointer is gone. -/
def release (s : TcpClient) : TcpClient :=
  if s.owned then s else { s with destroyed := some s.connector.chnnel }

/-- `TcpClient::NewConnection`, bound to the TcpClient. -/
def NewConnection (s : TcpClient) (fd : Nat) : Option TcpClient :=
  if s.alive then some { s with connection := some fd, nextConnId := s.nextConnId + 1 } else none

/-- `TcpClient::removeConnection`, which the connection calls when it closes. -/
def removeConnection (s : TcpClient) (a : Attempt) : TcpClient :=
  let s := { s with connection := none }
  if s.retryFlag ∧ s.connectFlag then { s with connector := s.connector.restart a } else s

/-- `~TcpClient` with the connection it finds. -/
def destroy (s : TcpClient) : Option TcpClient :=
  let s' := { s with alive := false }
  match s.connection with
  | some _ => some s'.release
  | none => (s.connector.step .stopHere).map fun c ↦ { s' with connector := c }.release

inductive Label where
  /-- `connect` and `stop` on the loop thread. -/
  | connectHere (a : Attempt)
  | stopHere
  /-- `connect` and `stop` on another thread, up to the queueing of the functor. -/
  | connect
  | stop
  | disconnect
  | enableRetry
  /-- The connection closes. -/
  | removeConnection (a : Attempt)
  | destroy
  /-- The loop moves, or a thread that has called queues its functor. -/
  | loop (l : Connector.Label)
deriving DecidableEq, Repr

/-- A step of the Connector that is not a call.  A `stop` of another thread may cut into an attempt
only while there is a TcpClient to call. -/
def isLoop (s : TcpClient) : Connector.Label → Bool
  | .queueInLoop _ | .poll _ | .event _ _ _ _ | .swap | .done => true
  | .timer _ a | .functor a => s.alive || !a.stopped
  | .startHere _ | .stopHere | .restart _ | .start | .stop => false

/-- The loop with a Connector: it may hand a socket over, and a retry timer may be its last owner. -/
def moves (s : TcpClient) (l : Connector.Label) : Option TcpClient :=
  (s.connector.step l).bind fun c ↦
    let s' := { s with connector := c }
    match c.handed.drop s.connector.handed.length with
    | [] => some s'.release
    | fd :: _ => (s'.NewConnection fd).map release

/-- The loop without it: the functors that are left run on freed memory. -/
def movesOn (s : TcpClient) (l : Connector.Label) : Option TcpClient :=
  match l with
  | .functor _ =>
    match s.connector.phase, s.connector.functors.next with
    | .functors, some (f, fs) => some { s with
        connector := { s.connector with functors := fs }
        late := s.late ++ [f] }
    | _, _ => none
  | .queueInLoop _ | .poll false | .swap | .done =>
    (s.connector.step l).map fun c ↦ { s with connector := c }
  | _ => none

/-- A call of the TcpClient, which calls the Connector. -/
def calls (s : TcpClient) (flag : Bool) (l : Connector.Label) : Option TcpClient :=
  if s.alive then
    (s.connector.step l).map fun c ↦ { s with connectFlag := flag, connector := c }
  else none

def step (s : TcpClient) : Label → Option TcpClient
  | .connectHere a => s.calls true (.startHere a)
  | .stopHere => s.calls false .stopHere
  | .connect => s.calls true .start
  | .stop => s.calls false .stop
  | .disconnect => if s.alive then some { s with connectFlag := false } else none
  | .enableRetry => if s.alive then some { s with retryFlag := true } else none
  | .removeConnection a =>
    if s.alive ∧ s.connection ≠ none then some (s.removeConnection a) else none
  | .destroy => if s.alive then s.destroy else none
  | .loop l =>
    if s.isLoop l then
      match s.destroyed with
      | none => s.moves l
      | some _ => s.movesOn l
    else none

/-! ## 1. Owners -/

/-- `_chnnel` is null, and no functor that points at the Connector is queued or about to be. -/
def Quiet (c : Connector) : Prop := c.chnnel = none ∧ c.waiting = [] ∧ c.calling = []

instance (c : Connector) : Decidable (Quiet c) := inferInstanceAs (Decidable (_ ∧ _))

/-- The assertion in `~Connector` has held, and no functor was or will be executed on the destroyed
Connector. -/
def Safe (s : TcpClient) : Prop :=
  ∀ c, s.destroyed = some c → c = none ∧ s.late = [] ∧ s.connector.waiting = [] ∧
    s.connector.calling = []

/-- The Connector exists as long as something owns it. -/
structure Inv (s : TcpClient) : Prop where
  owned : s.destroyed = none ↔ s.owned = true
  late : s.destroyed = none → s.late = []
  safe : s.Safe

theorem owned_eq_false {s : TcpClient} :
    s.owned = false ↔ s.alive = false ∧ s.connector.timers = [] := by
  unfold owned
  simp

theorem Inv.destroyed_eq_none {s : TcpClient} (h : s.Inv) (halive : s.alive = true) :
    s.destroyed = none := by
  apply h.owned.mpr
  rw [TcpClient.owned, halive, Bool.true_or]

theorem safe_of_none {s : TcpClient} (h : s.destroyed = none) : s.Safe := by
  intro c hc
  rw [h] at hc
  cases hc

/-- A TcpClient that is alive owns its Connector. -/
theorem inv_of_alive {s : TcpClient} (halive : s.alive = true) (hnone : s.destroyed = none)
    (hlate : s.late = []) : s.Inv := by
  refine ⟨?_, fun _ ↦ hlate, safe_of_none hnone⟩
  rw [hnone, owned, halive, Bool.true_or]
  exact ⟨fun _ ↦ rfl, fun _ ↦ rfl⟩

/-- Letting go of the last pointer is safe when nothing points at the Connector any more. -/
theorem release_safe_iff {s : TcpClient} (howned : s.owned = false) (hlate : s.late = []) :
    s.release.Safe ↔ Quiet s.connector := by
  unfold release
  rw [if_neg (by rw [howned]; exact Bool.false_ne_true)]
  constructor
  · intro h
    obtain ⟨hchnnel, -, hwaiting, hcalling⟩ := h _ rfl
    exact ⟨hchnnel, hwaiting, hcalling⟩
  · rintro ⟨hchnnel, hwaiting, hcalling⟩ c hc
    cases hc
    exact ⟨hchnnel, hlate, hwaiting, hcalling⟩

theorem release_inv {s : TcpClient} (hnone : s.destroyed = none) (hlate : s.late = [])
    (hquiet : s.owned = false → Quiet s.connector) : s.release.Inv := by
  cases howned : s.owned with
  | true =>
    unfold release
    rw [if_pos howned]
    refine ⟨?_, fun _ ↦ hlate, safe_of_none hnone⟩
    rw [hnone, howned]
    exact ⟨fun _ ↦ rfl, fun _ ↦ rfl⟩
  | false =>
    refine ⟨?_, ?_, (release_safe_iff howned hlate).mpr (hquiet howned)⟩
    · unfold release
      rw [if_neg (by rw [howned]; exact Bool.false_ne_true)]
      show some s.connector.chnnel = none ↔ s.owned = true
      rw [howned]
      simp
    · unfold release
      rw [if_neg (by rw [howned]; exact Bool.false_ne_true)]
      intro hcontra
      cases hcontra

/-! ## 2. Retry timers -/

/-- A handler leaves the retry timers that are armed. -/
def Grows (c d : Connector) : Prop := c.timers <+: d.timers

theorem Grows.refl (c : Connector) : Grows c c := List.prefix_rfl

theorem Grows.trans {c d e : Connector} (h : Grows c d) (h' : Grows d e) : Grows c e :=
  List.IsPrefix.trans h h'

theorem grows_retry (c : Connector) (fd : Nat) : Grows c (c.retry fd) := by
  unfold Grows Connector.retry
  dsimp only
  split
  · exact List.prefix_append _ _
  · exact List.prefix_rfl

theorem grows_removeAndResetChnnel {c d : Connector} {fd : Nat}
    (h : c.removeAndResetChnnel = some (fd, d)) : Grows c d := by
  obtain ⟨k, -, hk⟩ := Option.map_eq_some_iff.mp h
  cases hk
  exact List.prefix_rfl

theorem grows_connect (c : Connector) (a : Attempt) : Grows c (c.connect a) := by
  have hopened : Grows c (c.opened a) := by
    obtain ⟨flag, calling, heq⟩ := c.opened_eq a
    rw [heq]
    exact List.prefix_rfl
  obtain ⟨-, hconnect⟩ | ⟨-, hconnect⟩ | ⟨-, hconnect⟩ := c.connect_cases a
  · rw [hconnect]
    exact hopened
  · rw [hconnect]
    exact hopened.trans (grows_retry _ _)
  · rw [hconnect]
    exact hopened

theorem grows_startInLoop (c : Connector) (a : Attempt) : Grows c (c.startInLoop a) := by
  unfold Connector.startInLoop
  split
  · exact grows_connect { c with started := c.started ++ [c.state] } a
  · exact List.prefix_rfl

theorem handled_grows : Connector.Handled Grows where
  refl := Grows.refl
  trans := fun _ _ _ ↦ Grows.trans
  retry := grows_retry
  removeAndResetChnnel := fun _ _ _ ↦ grows_removeAndResetChnnel
  disconnected := fun _ ↦ List.prefix_rfl
  connected := fun c fd ↦ by
    split
    · exact List.prefix_rfl
    · exact List.prefix_rfl

/-- Only its firing ends a retry timer. -/
theorem grows_of_step {c d : Connector} {l : Connector.Label} (h : c.step l = some d)
    (htimer : ∀ delay a, l ≠ .timer delay a) : Grows c d := by
  cases Connector.step_cases h with
  | @startHere a => exact grows_startInLoop { c with connectFlag := true, starts := c.starts + 1 } a
  | @restart a => exact grows_startInLoop { c with
      state := .cDisconnected, retryDelayMs := Connector.cInitRetryDelayMs, connectFlag := true } a
  | stopHere | start | stop | queueInLoop | pollReady | pollOther | swap | done =>
    exact List.prefix_rfl
  | event _ _ hevent =>
    have hphase : Grows c { c with phase := .events none } := Grows.refl c
    exact hphase.trans (handled_grows.handleEvent hevent)
  | @timer delay a => exact absurd rfl (htimer delay a)
  | @functor a f rest t _ _ hperform =>
    have htaken : Grows c { c with functors :=
        { c.functors with batch := rest, executed := c.functors.executed ++ [f] } } := Grows.refl c
    apply htaken.trans
    cases f with
    | startInLoop =>
      cases hperform
      exact grows_startInLoop _ a
    | stopInLoop => exact handled_grows.stopInLoop hperform
    | resetChnnel k =>
      cases hperform
      exact List.prefix_rfl

/-- The firing of the last retry timer leaves the Connector an owner, in the next timer, or leaves
nothing that points at it. -/
def Rests (c : Connector) (a : Attempt) : Prop :=
  c.connectFlag = true ∧ a.errno.branch = .retry ∨
    Quiet c ∧ ¬ (c.connectFlag = true ∧ a.errno.branch = .connecting)

instance (c : Connector) (a : Attempt) : Decidable (Rests c a) :=
  inferInstanceAs (Decidable (_ ∨ _))

theorem rests_iff {c : Connector} {a : Attempt} (hstopped : a.stopped = false)
    (hnone : c.timers = []) :
    ((c.startInLoop a).timers = [] → Quiet (c.startInLoop a)) ↔ Rests c a := by
  unfold Connector.startInLoop Rests
  cases hflag : c.connectFlag with
  | false =>
    rw [if_neg Bool.false_ne_true]
    simp [hnone]
  | true =>
    rw [if_pos rfl]
    unfold Connector.connect
    dsimp only
    rw [hstopped]
    simp only [Bool.false_eq_true, if_false]
    cases hbranch : a.errno.branch with
    | connecting => simp [Connector.connecting, Quiet, hnone]
    | retry => simp [Connector.retry, Connector.close]
    | close => simp [Connector.close, Quiet, Connector.waiting, hnone]

/-! ## 3. Teardown -/

/-- `~TcpClient` finds a retry timer armed, or a connection and nothing that points at the Connector;
and a retry timer that fires as the last owner rests. -/
def TearsDown (s : TcpClient) : Label → Prop
  | .destroy => s.connector.timers = [] → s.connection ≠ none ∧ Quiet s.connector
  | .loop (.timer delay a) => s.alive = false → s.connector.timers.erase delay = [] →
    Rests s.connector a
  | _ => True

instance (s : TcpClient) : (l : Label) → Decidable (s.TearsDown l)
  | .destroy => inferInstanceAs (Decidable (_ → _))
  | .loop (.timer _ _) => inferInstanceAs (Decidable (_ → _ → _))
  | .connectHere _ | .stopHere | .connect | .stop | .disconnect | .enableRetry | .removeConnection _
  | .loop (.startHere _) | .loop .stopHere | .loop (.restart _) | .loop .start | .loop .stop
  | .loop (.queueInLoop _) | .loop (.poll _) | .loop (.event _ _ _ _) | .loop .swap
  | .loop (.functor _) | .loop .done => .isTrue trivial

theorem init_inv : init.Inv := inv_of_alive rfl rfl rfl

theorem calls_inv {s t : TcpClient} {flag : Bool} {l : Connector.Label} (h : s.Inv)
    (ht : s.calls flag l = some t) : t.Inv := by
  unfold calls at ht
  split at ht
  · rename_i halive
    obtain ⟨c, -, rfl⟩ := Option.map_eq_some_iff.mp ht
    have hnone := h.destroyed_eq_none halive
    exact inv_of_alive halive hnone (h.late hnone)
  · cases ht

/-- What `~TcpClient` leaves before it lets go of its pointer. -/
theorem destroy_eq {s t : TcpClient} (ht : s.destroy = some t) :
    ∃ s' : TcpClient, t = s'.release ∧ s'.alive = false ∧ s'.destroyed = s.destroyed ∧
      s'.late = s.late ∧ s'.connector.timers = s.connector.timers ∧
      (Quiet s'.connector ↔ s.connection ≠ none ∧ Quiet s.connector) := by
  unfold destroy at ht
  split at ht
  · rename_i fd hconn
    cases ht
    refine ⟨_, rfl, rfl, rfl, rfl, rfl, ?_⟩
    rw [hconn]
    simp
  · rename_i hconn
    obtain ⟨c, hc, rfl⟩ := Option.map_eq_some_iff.mp ht
    cases hc
    refine ⟨_, rfl, rfl, rfl, rfl, rfl, ?_⟩
    -- `stop` has queued a functor
    rw [hconn]
    simp [Quiet, Connector.waiting]

/-- What a step of the loop leaves before a retry timer lets go of its pointer. -/
theorem moves_eq {s t : TcpClient} {l : Connector.Label} (ht : s.moves l = some t) :
    ∃ (c : Connector) (s' : TcpClient), s.connector.step l = some c ∧ t = s'.release ∧
      s'.connector = c ∧ s'.alive = s.alive ∧ s'.destroyed = s.destroyed ∧ s'.late = s.late := by
  unfold moves at ht
  obtain ⟨c, hc, ht⟩ := Option.bind_eq_some_iff.mp ht
  dsimp only at ht
  split at ht
  · cases ht
    exact ⟨c, _, hc, rfl, rfl, rfl, rfl, rfl⟩
  · obtain ⟨s', hs', rfl⟩ := Option.map_eq_some_iff.mp ht
    unfold NewConnection at hs'
    split at hs'
    · cases hs'
      exact ⟨c, _, hc, rfl, rfl, rfl, rfl, rfl⟩
    · cases hs'

/-- A loop that goes on with an empty queue. -/
theorem inv_of_idle {s : TcpClient} {c : Connector} (h : s.Inv)
    (htimers : c.timers = s.connector.timers) (hcalling : c.calling = s.connector.calling)
    (hwaiting : c.waiting = s.connector.waiting) : Inv { s with connector := c } := by
  refine ⟨?_, h.late, ?_⟩
  · have howned : ({ s with connector := c } : TcpClient).owned = s.owned := by
      unfold TcpClient.owned
      rw [htimers]
    rw [howned]
    exact h.owned
  · intro k' hk'
    obtain ⟨hchnnel, hlate, hw, hc⟩ := h.safe k' hk'
    exact ⟨hchnnel, hlate, hwaiting.trans hw, hcalling.trans hc⟩

/-- Without a Connector only the loop goes on, and with nothing queued no functor runs. -/
theorem movesOn_inv {s t : TcpClient} {l : Connector.Label} {k : Option ConnectorChnnel} (h : s.Inv)
    (hk : s.destroyed = some k) (ht : s.movesOn l = some t) : t.Inv := by
  obtain ⟨-, -, hwaiting, hcalling⟩ := h.safe k hk
  obtain ⟨hbatch, hpending⟩ := List.append_eq_nil_iff.mp hwaiting
  cases l with
  | functor a =>
    unfold movesOn at ht
    dsimp only at ht
    split at ht
    · -- the batch is empty
      rename_i hnext
      obtain ⟨rest, hfront, -⟩ := Batch.Queue.next_eq_some.mp hnext
      rw [hbatch] at hfront
      cases hfront
    · cases ht
  | queueInLoop f =>
    obtain ⟨c, hc, rfl⟩ := Option.map_eq_some_iff.mp ht
    cases Connector.step_cases hc with
    | queueInLoop hmem =>
      rw [hcalling] at hmem
      cases hmem
  | poll ready =>
    cases ready with
    | true => cases ht
    | false =>
      obtain ⟨c, hc, rfl⟩ := Option.map_eq_some_iff.mp ht
      cases Connector.step_cases hc with
      | pollOther => exact inv_of_idle h rfl rfl rfl
  | swap =>
    obtain ⟨c, hc, rfl⟩ := Option.map_eq_some_iff.mp ht
    cases Connector.step_cases hc with
    | swap =>
      have htaken : s.connector.functors.take.batch ++ s.connector.functors.take.pending =
          s.connector.waiting := by
        rw [hwaiting, Batch.Queue.take_batch, Batch.Queue.take_pending, hpending]
        rfl
      exact inv_of_idle h rfl rfl htaken
  | done =>
    obtain ⟨c, hc, rfl⟩ := Option.map_eq_some_iff.mp ht
    cases Connector.step_cases hc with
    | done => exact inv_of_idle h rfl rfl rfl
  | startHere | stopHere | restart | start | stop | event | timer => cases ht

/-- A step of the loop takes the last owner only by firing the last retry timer. -/
theorem lastOwner_of_step {s : TcpClient} {c : Connector} {l : Connector.Label}
    (howned : s.owned = true) (halive : s.alive = false) (hnone : c.timers = [])
    (hc : s.connector.step l = some c) :
    ∃ delay a, l = .timer delay a ∧ s.connector.timers.erase delay = [] ∧
      c = { s.connector with timers := s.connector.timers.erase delay }.startInLoop a := by
  by_cases htimer : ∀ delay a, l ≠ .timer delay a
  · -- all other steps keep the timers that are armed
    have hprefix : s.connector.timers <+: c.timers := grows_of_step hc htimer
    rw [hnone, List.prefix_nil] at hprefix
    simp [TcpClient.owned, halive, hprefix] at howned
  · simp only [not_forall, not_not] at htimer
    obtain ⟨delay, a, rfl⟩ := htimer
    cases Connector.step_cases hc with
    | timer =>
      refine ⟨delay, a, rfl, ?_, rfl⟩
      have hprefix := grows_startInLoop
        { s.connector with timers := s.connector.timers.erase delay } a
      unfold Grows at hprefix
      rw [hnone, List.prefix_nil] at hprefix
      exact hprefix

theorem step_inv {s t : TcpClient} {l : Label} (h : s.Inv) (htears : s.TearsDown l)
    (ht : s.step l = some t) : t.Inv := by
  cases l with
  | connectHere | stopHere | connect | stop => exact calls_inv h ht
  | disconnect | enableRetry =>
    simp only [step, Option.ite_none_right_eq_some, Option.some.injEq] at ht
    obtain ⟨halive, rfl⟩ := ht
    have hnone := h.destroyed_eq_none halive
    exact inv_of_alive halive hnone (h.late hnone)
  | removeConnection a =>
    simp only [step, Option.ite_none_right_eq_some, Option.some.injEq] at ht
    obtain ⟨⟨halive, -⟩, rfl⟩ := ht
    have hnone := h.destroyed_eq_none halive
    unfold removeConnection
    dsimp only
    split
    · exact inv_of_alive halive hnone (h.late hnone)
    · exact inv_of_alive halive hnone (h.late hnone)
  | destroy =>
    simp only [step, Option.ite_none_right_eq_some] at ht
    obtain ⟨halive, ht⟩ := ht
    have hnone := h.destroyed_eq_none halive
    obtain ⟨s', rfl, hdead, hdestroyed, hlate, htimers, hquiet⟩ := destroy_eq ht
    apply release_inv
    · rw [hdestroyed, hnone]
    · rw [hlate, h.late hnone]
    · intro howned
      apply hquiet.mpr
      apply htears
      rw [← htimers]
      exact (owned_eq_false.mp howned).2
  | loop l =>
    simp only [step, Option.ite_none_right_eq_some] at ht
    obtain ⟨hloop, ht⟩ := ht
    split at ht
    · rename_i hnone
      obtain ⟨c, s', hc, rfl, rfl, halive, hdestroyed, hlate⟩ := moves_eq ht
      apply release_inv
      · rw [hdestroyed, hnone]
      · rw [hlate, h.late hnone]
      · -- the Connector goes with the functor of its last retry timer
        intro howned
        obtain ⟨hdead, hgone⟩ := owned_eq_false.mp howned
        rw [halive] at hdead
        obtain ⟨delay, a, rfl, herase, heq⟩ := lastOwner_of_step (h.owned.mp hnone) hdead hgone hc
        have hstopped : a.stopped = false := by
          simpa [isLoop, hdead] using hloop
        rw [heq] at hgone ⊢
        exact (rests_iff hstopped herase).mpr (htears hdead herase) hgone
    · rename_i k hk
      exact movesOn_inv h hk ht

/-- A step that does not meet the condition destroys the Connector too early. -/
theorem step_not_safe {s t : TcpClient} {l : Label} (h : s.Inv) (htears : ¬ s.TearsDown l)
    (ht : s.step l = some t) : ¬ t.Safe := by
  cases l with
  | destroy =>
    simp only [step, Option.ite_none_right_eq_some] at ht
    obtain ⟨halive, ht⟩ := ht
    have hnone := h.destroyed_eq_none halive
    simp only [TearsDown, Classical.not_imp] at htears
    obtain ⟨s', rfl, hdead, -, hlate, htimers, hquiet⟩ := destroy_eq ht
    rw [release_safe_iff, hquiet]
    · exact htears.2
    · rw [owned_eq_false, htimers]
      exact ⟨hdead, htears.1⟩
    · rw [hlate, h.late hnone]
  | loop l =>
    simp only [step, Option.ite_none_right_eq_some] at ht
    obtain ⟨hloop, ht⟩ := ht
    cases l with
    | timer delay a =>
      simp only [TearsDown, Classical.not_imp] at htears
      obtain ⟨hdead, herase, hrests⟩ := htears
      have hstopped : a.stopped = false := by
        simpa [isLoop, hdead] using hloop
      have hiff := rests_iff (c := { s.connector with timers := s.connector.timers.erase delay })
        hstopped herase
      have hleft := Classical.not_imp.mp fun hall ↦ hrests (hiff.mp hall)
      split at ht
      · rename_i hnone
        obtain ⟨c, s', hc, rfl, hs', halive, -, hlate⟩ := moves_eq ht
        cases Connector.step_cases hc with
        | timer =>
          rw [release_safe_iff, hs']
          · exact hleft.2
          · rw [owned_eq_false, halive, hs']
            exact ⟨hdead, hleft.1⟩
          · rw [hlate, h.late hnone]
      · cases ht
    | _ => exact absurd trivial htears
  | _ => exact absurd trivial htears

/-- **The Connector outlives what points at it exactly when the TcpClient is torn down at rest**: with a
connection and nothing queued, or with a retry timer that outlasts the functors. -/
theorem teardown_safe_iff {ls : List Label} {s : TcpClient} (h : Trace.run step init ls = some s) :
    Trace.Always step Safe init ls ↔ Trace.Along step TearsDown init ls :=
  Trace.always_iff_along (fun _ _ _ ↦ step_inv) (fun _ hs ↦ hs.safe) (fun _ _ _ ↦ step_not_safe)
    init_inv h

/-- Torn down with its connection, an iteration after it was made. -/
theorem teardown_safe_iff_connected :
    ∃ ls s, Trace.run step init ls = some s ∧ s.destroyed = some none ∧ s.connection = some 0 ∧
      Trace.Always step Safe init ls := by
  obtain ⟨ls, s, hls, hs, hdestroyed, hconn⟩ : ∃ ls s, ls = [.connectHere ⟨.EINPROGRESS, false⟩,
      .loop (.poll true), .loop (.event false true false false), .loop .swap,
      .loop (.functor ⟨.ok, false⟩), .destroy, .loop .done, .loop (.poll false)] ∧
      Trace.run step init ls = some s ∧ s.destroyed = some none ∧ s.connection = some 0 :=
    ⟨_, _, rfl, rfl, rfl, rfl⟩
  refine ⟨ls, s, hs, hdestroyed, hconn, ?_⟩
  rw [teardown_safe_iff hs, hls]
  decide

/-- A TcpClient that was never connected: its destructor queues `stopInLoop`, which runs on the
destroyed Connector. -/
theorem functor_on_destroyed_connector :
    ¬ ∀ ls s, Trace.run step init ls = some s → s.destroyed ≠ none →
      s.destroyed = some none ∧ s.late = [] := by
  intro h
  have hlate := (h [.destroy, .loop (.poll false), .loop .swap, .loop (.functor ⟨.ok, false⟩)] _ rfl
    (by decide)).2
  exact absurd hlate (by decide)

/-- While an attempt is pending the assertion in `~Connector` fails. -/
example : (Trace.run step init [.connectHere ⟨.EINPROGRESS, false⟩, .destroy]).map
    TcpClient.destroyed = some (some (some ⟨0, true⟩)) := by decide

end TcpClient

end Netlib
