import Netlib.Lib.Run
import Netlib.Lib.BatchQueue

/-!
# Connector

`net/Connector.cc` on its loop: `start` and `stop` from any thread, the channel of a pending attempt,
the functors that end it and the retry timers.  A channel is disabled at once by
`removeAndResetChnnel`, but destroyed by a functor of a later phase of the loop, and `resetChnnel`
destroys whatever `_chnnel` holds by then.

Sockets are numbered in the order in which `connect` creates them.  Where an `assert` of the source
would stop the process the model goes on as the code does without it, and records what the assert has
looked at; a null `_chnnel` that the code would follow has no next state.
-/

namespace Netlib

/-- The results of `connect(2)` that `Connector::connect` tells apart. -/
inductive ConnectErrno where
  | ok | EINPROGRESS | EINTR | EISCONN
  | EAGAIN | EADDRINUSE | EADDRNOTAVAIL | ECONNREFUSED | ENETUNREACH
  | EACCES | EPERM | EAFNOSUPPORT | EALREADY | EBADF | EFAULT | ENOTSOCK
  | other
deriving DecidableEq, Repr

inductive ConnectBranch where
  | connecting
  | retry
  | close
deriving DecidableEq, Repr

def ConnectErrno.branch : ConnectErrno → ConnectBranch
  | .ok | .EINPROGRESS | .EINTR | .EISCONN => .connecting
  | .EAGAIN | .EADDRINUSE | .EADDRNOTAVAIL | .ECONNREFUSED | .ENETUNREACH => .retry
  | .EACCES | .EPERM | .EAFNOSUPPORT | .EALREADY | .EBADF | .EFAULT | .ENOTSOCK => .close
  | .other => .close

/-- What one call of `connect` meets: the result of the system call, and whether a `stop` of another
thread clears `_connect` between the test in `startInLoop` and the one in `retry`. -/
structure Attempt where
  errno : ConnectErrno
  stopped : Bool := false
deriving DecidableEq, Repr

inductive ConnectorState where
  | cDisconnected
  | cConnecting
  | cConnected
deriving DecidableEq, Repr

/-- `_chnnel`: its socket, and whether it is still registered with epoll. -/
structure ConnectorChnnel where
  fd : Nat
  registered : Bool
deriving DecidableEq, Repr

/-- `resetChnnel` carries the socket of the channel whose removal has queued it; the code does not
read it. -/
inductive ConnectorFunctor where
  | startInLoop
  | stopInLoop
  | resetChnnel (removed : Nat)
deriving DecidableEq, Repr

def ConnectorFunctor.resets : ConnectorFunctor → Option Nat
  | .resetChnnel removed => some removed
  | .startInLoop | .stopInLoop => none

/-- Where the loop stands; `ready` is the socket of the Connector's channel while `_activeChnnels`
still has it ahead. -/
inductive ConnectorPhase where
  | polling
  | events (ready : Option Nat)
  | functors
deriving DecidableEq, Repr

structure Connector where
  connectFlag : Bool
  state : ConnectorState
  chnnel : Option ConnectorChnnel
  retryDelayMs : Nat
  functors : Batch.Queue ConnectorFunctor
  /-- Functors that another thread in `start` or `stop` is about to queue. -/
  calling : List ConnectorFunctor
  phase : ConnectorPhase
  /-- The delays of the retry timers that have not fired. -/
  timers : List Nat
  /-- The calls of `start` so far. -/
  starts : Nat
  /-- The sockets created, closed by the Connector and handed to `_newConnectionCallBack`. -/
  created : Nat
  closed : List Nat
  handed : List Nat
  /-- `_state` at each entry of `startInLoop` with `_connect` set, `_chnnel` at each entry of
  `connecting`. -/
  started : List ConnectorState
  found : List (Option ConnectorChnnel)
  /-- For each `resetChnnel` that has run: the channel it was queued for, and what it destroyed. -/
  destroyed : List (Nat × Option ConnectorChnnel)
deriving DecidableEq, Repr

namespace Connector

def cInitRetryDelayMs : Nat := 500

def cMaxRetryDelayMs : Nat := 30 * 1000

def init : Connector where
  connectFlag := false
  state := .cDisconnected
  chnnel := none
  retryDelayMs := cInitRetryDelayMs
  functors := .empty
  calling := []
  phase := .polling
  timers := []
  starts := 0
  created := 0
  closed := []
  handed := []
  started := []
  found := []
  destroyed := []

/-- `netlib::close` -/
def close (s : Connector) (fd : Nat) : Connector := { s with closed := s.closed ++ [fd] }

/-- `_newConnectionCallBack` takes the socket over. -/
def newConnectionCallBack (s : Connector) (sockFd : Nat) : Connector :=
  { s with handed := s.handed ++ [sockFd] }

def retry (s : Connector) (fd : Nat) : Connector :=
  let s := { s.close fd with state := .cDisconnected }
  if s.connectFlag then
    { s with
      timers := s.timers ++ [s.retryDelayMs]
      retryDelayMs := min (s.retryDelayMs * 2) cMaxRetryDelayMs }
  else s

def connecting (s : Connector) (sockFd : Nat) : Connector :=
  { s with
    state := .cConnecting
    found := s.found ++ [s.chnnel]
    chnnel := some ⟨sockFd, true⟩ }

/-- `_connect = false` on another thread, with the functor still to be queued. -/
def stopElsewhere (s : Connector) : Connector :=
  { s with connectFlag := false, calling := s.calling ++ [.stopInLoop] }

def connect (s : Connector) (a : Attempt) : Connector :=
  let sockFd := s.created
  let s := { s with created := s.created + 1 }
  let s := if a.stopped then s.stopElsewhere else s
  match a.errno.branch with
  | .connecting => s.connecting sockFd
  | .retry => s.retry sockFd
  | .close => s.close sockFd

def startInLoop (s : Connector) (a : Attempt) : Connector :=
  if s.connectFlag then { s with started := s.started ++ [s.state] }.connect a else s

/-- The socket of the channel, which leaves epoll here. -/
def removeAndResetChnnel (s : Connector) : Option (Nat × Connector) :=
  s.chnnel.map fun c ↦
    (c.fd, { s with
      chnnel := some ⟨c.fd, false⟩
      functors := s.functors.push (.resetChnnel c.fd) })

def resetChnnel (s : Connector) (removed : Nat) : Connector :=
  { s with destroyed := s.destroyed ++ [(removed, s.chnnel)], chnnel := none }

def stopInLoop (s : Connector) : Option Connector :=
  if s.state = .cConnecting then
    ({ s with state := .cDisconnected } : Connector).removeAndResetChnnel.map fun (fd, s) ↦
      s.retry fd
  else some s

def handleWrite (s : Connector) (soError selfConnect : Bool) : Option Connector :=
  if s.state = .cConnecting then
    s.removeAndResetChnnel.map fun (sockFd, s) ↦
      if soError then s.retry sockFd
      else if selfConnect then s.retry sockFd
      else
        let s := { s with state := .cConnected }
        if s.connectFlag then s.newConnectionCallBack sockFd else s.close sockFd
  else some { s with state := .cDisconnected }

def handleError (s : Connector) : Option Connector :=
  if s.state = .cConnecting then
    s.removeAndResetChnnel.map fun (sockFd, s) ↦ s.retry sockFd
  else some s

/-- `Chnnel::handleEvent` with the two callbacks that the Connector sets. -/
def handleEvent (s : Connector) (error write soError selfConnect : Bool) : Option Connector :=
  (if error then s.handleError else some s).bind fun s ↦
    if write then s.handleWrite soError selfConnect else some s

def restart (s : Connector) (a : Attempt) : Connector :=
  { s with
    state := .cDisconnected
    retryDelayMs := cInitRetryDelayMs
    connectFlag := true }.startInLoop a

/-- A functor of the loop. -/
def perform (s : Connector) (a : Attempt) : ConnectorFunctor → Option Connector
  | .startInLoop => some (s.startInLoop a)
  | .stopInLoop => s.stopInLoop
  | .resetChnnel removed => some (s.resetChnnel removed)

inductive Label where
  /-- `start` and `stop` on the loop thread, between two handlers or at the end of one. -/
  | startHere (a : Attempt)
  | stopHere
  | restart (a : Attempt)
  /-- `start` and `stop` on another thread: `_connect` is set, then the functor is queued. -/
  | start
  | stop
  | queueInLoop (f : ConnectorFunctor)
  /-- `epoll_wait` returns, with the Connector's channel among the active ones or not. -/
  | poll (ready : Bool)
  | event (error write soError selfConnect : Bool)
  /-- A retry timer is due when `TimerQueue::handleRead` runs. -/
  | timer (delay : Nat) (a : Attempt)
  /-- `dpPendingFunctors`: the swap, the next functor, the end of the batch. -/
  | swap
  | functor (a : Attempt)
  | done
deriving DecidableEq, Repr

def step (s : Connector) : Label → Option Connector
  | .startHere a => some ({ s with connectFlag := true, starts := s.starts + 1 }.startInLoop a)
  | .stopHere => some { s with connectFlag := false, functors := s.functors.push .stopInLoop }
  | .restart a => some (s.restart a)
  | .start =>
    some { s with
      connectFlag := true
      starts := s.starts + 1
      calling := s.calling ++ [.startInLoop] }
  | .stop => some s.stopElsewhere
  | .queueInLoop f =>
    if f ∈ s.calling then
      some { s with calling := s.calling.erase f, functors := s.functors.push f }
    else none
  | .poll ready =>
    match s.phase, ready, s.chnnel with
    | .polling, true, some ⟨fd, true⟩ => some { s with phase := .events (some fd) }
    | .polling, false, _ => some { s with phase := .events none }
    | _, _, _ => none
  | .event error write soError selfConnect =>
    match s.phase, s.chnnel with
    | .events (some fd), some c =>
      if c.fd = fd then
        { s with phase := .events none }.handleEvent error write soError selfConnect
      else none
    | _, _ => none
  | .timer delay a =>
    match s.phase with
    | .events _ =>
      if delay ∈ s.timers then some ({ s with timers := s.timers.erase delay }.startInLoop a)
      else none
    | _ => none
  | .swap =>
    if s.phase = .events none then
      some { s with phase := .functors, functors := s.functors.take }
    else none
  | .functor a =>
    match s.phase, s.functors.next with
    | .functors, some (f, fs) => { s with functors := fs }.perform a f
    | _, _ => none
  | .done =>
    if s.phase = .functors ∧ s.functors.batch = [] then some { s with phase := .polling } else none

/-- The functors still to run, in order. -/
def waiting (s : Connector) : List ConnectorFunctor := s.functors.batch ++ s.functors.pending

/-- The channels whose `resetChnnel` is still to run. -/
def resets (s : Connector) : List Nat := s.waiting.filterMap ConnectorFunctor.resets

/-- Sockets neither closed nor handed over. -/
def outstanding (s : Connector) : List Nat :=
  (List.range s.created).filter fun k ↦ k ∉ s.closed ∧ k ∉ s.handed

/-- The socket of a registered channel, and the channel that waits for its `resetChnnel`. -/
def registered (s : Connector) : Option Nat :=
  match s.chnnel with
  | some ⟨fd, true⟩ => some fd
  | _ => none

def removed (s : Connector) : List Nat :=
  match s.chnnel with
  | some ⟨fd, false⟩ => [fd]
  | _ => []

/-! ## 1. A socket in the hands of a handler -/

/-- Every socket is closed or handed over exactly once, but for the one that is held. -/
def Ledger (s : Connector) (held : Option Nat) : Prop :=
  ∀ k, s.closed.count k + s.handed.count k = if k < s.created ∧ held ≠ some k then 1 else 0

/-- What the asserts of the source have looked at so far. -/
def History (s : Connector) : Prop :=
  (∀ state ∈ s.started, state = .cDisconnected) ∧ (∀ c ∈ s.found, c = none) ∧
    ∀ r ∈ s.destroyed, r.2 = some ⟨r.1, false⟩

/-- The sockets and the channel, however many retry timers are left. -/
structure SocketInvariant (s : Connector) : Prop where
  connecting : s.state = .cConnecting ↔ s.registered ≠ none
  resets : s.resets = s.removed
  drained : s.phase ≠ .functors → s.functors.batch = []
  created : ∀ fd, s.registered = some fd → fd < s.created
  ledger : s.Ledger s.registered
  history : s.History

/-- There is at most one retry timer, and none beside an attempt or a connection. -/
structure TimerInvariant (s : Connector) : Prop where
  oneTimer : s.timers.length ≤ 1
  waits : s.timers ≠ [] → s.state = .cDisconnected

structure Invariant (s : Connector) : Prop extends SocketInvariant s, TimerInvariant s

/-- The middle of a handler: no channel is registered and `fd` is still to be disposed of. -/
structure Holds (s : Connector) (fd : Nat) : Prop where
  registered : s.registered = none
  resets : s.resets = s.removed
  drained : s.phase ≠ .functors → s.functors.batch = []
  created : fd < s.created
  ledger : s.Ledger (some fd)
  history : s.History

theorem Ledger.close {s : Connector} {fd : Nat} (h : s.Ledger (some fd)) (hfd : fd < s.created) :
    (s.close fd).Ledger none := by
  intro k
  have hk := h k
  simp only [Connector.close, List.count_append, List.count_singleton]
  by_cases heq : fd = k
  · subst heq
    simp_all
  · simp_all

theorem Ledger.newConnectionCallBack {s : Connector} {fd : Nat} (h : s.Ledger (some fd))
    (hfd : fd < s.created) : (s.newConnectionCallBack fd).Ledger none := by
  intro k
  have hk := h k
  simp only [Connector.newConnectionCallBack, List.count_append, List.count_singleton]
  by_cases heq : fd = k
  · subst heq
    simp_all
  · simp_all

/-- A new socket is the only one held. -/
theorem Ledger.socket {s : Connector} (h : s.Ledger none) :
    Ledger { s with created := s.created + 1 } (some s.created) := by
  intro k
  have hk := h k
  simp only [reduceCtorEq, ne_eq, not_false_eq_true, and_true, Option.some.injEq] at hk ⊢
  by_cases hlt : k < s.created
  · rw [hk, if_pos hlt, if_pos (by omega)]
  · rw [hk, if_neg hlt, if_neg (by omega)]

theorem Holds.retry {s : Connector} {fd : Nat} (h : s.Holds fd) :
    (s.retry fd).SocketInvariant := by
  have hledger := h.ledger.close h.created
  have hreg : s.registered = none := h.registered
  unfold Connector.retry
  dsimp only
  split
  all_goals
    refine ⟨?_, h.resets, h.drained, ?_, ?_, h.history⟩
    · show ConnectorState.cDisconnected = .cConnecting ↔ s.registered ≠ none
      simp [hreg]
    · show ∀ k, s.registered = some k → _
      simp [hreg]
    · show Ledger _ s.registered
      rw [hreg]
      exact hledger

theorem Holds.connecting {s : Connector} {fd : Nat} (h : s.Holds fd) (hnone : s.chnnel = none) :
    (s.connecting fd).SocketInvariant where
  connecting := by simp [Connector.connecting, Connector.registered]
  resets := by
    have hresets := h.resets
    rw [Connector.removed, hnone] at hresets
    exact hresets
  drained := h.drained
  created := by
    intro k hk
    simp only [Connector.connecting, Connector.registered, Option.some.injEq] at hk
    exact hk ▸ h.created
  ledger := h.ledger
  history := by
    refine ⟨h.history.1, fun c hc ↦ ?_, h.history.2.2⟩
    rcases List.mem_append.mp hc with hc | hc
    · exact h.history.2.1 c hc
    · rw [List.mem_singleton.mp hc, hnone]

/-- The socket is closed, and nothing else happens. -/
theorem Holds.close {s : Connector} {fd : Nat} (h : s.Holds fd)
    (hstate : s.state ≠ .cConnecting) : (s.close fd).SocketInvariant := by
  have hreg : (s.close fd).registered = none := h.registered
  refine ⟨?_, h.resets, h.drained, ?_, ?_, h.history⟩
  · rw [hreg]
    simpa [Connector.close] using hstate
  · simp [hreg]
  · rw [hreg]
    exact h.ledger.close h.created

theorem Holds.newConnectionCallBack {s : Connector} {fd : Nat} (h : s.Holds fd)
    (hstate : s.state = .cConnected) : (s.newConnectionCallBack fd).SocketInvariant := by
  have hreg : (s.newConnectionCallBack fd).registered = none := h.registered
  refine ⟨?_, h.resets, h.drained, ?_, ?_, h.history⟩
  · rw [hreg]
    simp [Connector.newConnectionCallBack, hstate]
  · simp [hreg]
  · rw [hreg]
    exact h.ledger.newConnectionCallBack h.created

/-! ## 2. The handlers -/

theorem registered_eq_some {s : Connector} {fd : Nat} :
    s.registered = some fd ↔ s.chnnel = some ⟨fd, true⟩ := by
  unfold registered
  split
  · simp_all
  · rename_i hno
    simp only [reduceCtorEq, false_iff]
    exact hno fd

theorem mem_removed {s : Connector} {fd : Nat} :
    fd ∈ s.removed ↔ s.chnnel = some ⟨fd, false⟩ := by
  unfold removed
  split
  · rename_i k hk
    rw [hk, List.mem_singleton]
    simp [eq_comm]
  · rename_i hno
    simp only [List.not_mem_nil, false_iff]
    exact hno fd

/-- A handler takes the channel out of epoll and leaves timers and delay alone. -/
theorem removeAndResetChnnel_eq {s t : Connector} {fd : Nat}
    (h : s.removeAndResetChnnel = some (fd, t)) :
    t.timers = s.timers ∧ t.retryDelayMs = s.retryDelayMs := by
  obtain ⟨c, -, hc⟩ := Option.map_eq_some_iff.mp h
  cases hc
  exact ⟨rfl, rfl⟩

/-- Behind `connect(2)`: the socket is there, and a `stop` of another thread may have come between. -/
def opened (s : Connector) (a : Attempt) : Connector :=
  let s := { s with created := s.created + 1 }
  if a.stopped then s.stopElsewhere else s

theorem opened_eq (s : Connector) (a : Attempt) : ∃ flag calling, s.opened a =
    { s with created := s.created + 1, connectFlag := flag, calling := calling } := by
  unfold opened
  dsimp only
  split
  · exact ⟨_, _, rfl⟩
  · exact ⟨_, _, rfl⟩

theorem connect_connecting {s : Connector} {a : Attempt} (hbranch : a.errno.branch = .connecting) :
    s.connect a = (s.opened a).connecting s.created := by
  rw [connect, hbranch]
  rfl

/-- The three ways in which `connect` goes on. -/
theorem connect_cases (s : Connector) (a : Attempt) :
    a.errno.branch = .connecting ∧ s.connect a = (s.opened a).connecting s.created ∨
    a.errno.branch = .retry ∧ s.connect a = (s.opened a).retry s.created ∨
    a.errno.branch = .close ∧ s.connect a = (s.opened a).close s.created := by
  cases hbranch : a.errno.branch with
  | connecting => exact Or.inl ⟨rfl, connect_connecting hbranch⟩
  | retry =>
    refine Or.inr (Or.inl ⟨rfl, ?_⟩)
    rw [connect, hbranch]
    rfl
  | close =>
    refine Or.inr (Or.inr ⟨rfl, ?_⟩)
    rw [connect, hbranch]
    rfl

theorem resets_push (s : Connector) (f : ConnectorFunctor) :
    resets { s with functors := s.functors.push f } = s.resets ++ f.resets.toList := by
  cases f with
  | startInLoop | stopInLoop =>
    simp [resets, waiting, ConnectorFunctor.resets, List.filterMap_append]
  | resetChnnel k =>
    simp [resets, waiting, ConnectorFunctor.resets, List.filterMap_append]

/-- Outside a pending attempt, nothing to reset means no channel. -/
theorem SocketInvariant.chnnel_eq_none {s : Connector} (h : s.SocketInvariant) (hstate : s.state ≠ .cConnecting)
    (hresets : s.resets = []) : s.chnnel = none := by
  cases hc : s.chnnel with
  | none => rfl
  | some c =>
    obtain ⟨fd, registered⟩ := c
    cases registered with
    | true =>
      refine (hstate (h.connecting.mpr ?_)).elim
      simp [registered_eq_some.mpr hc]
    | false =>
      have hmem : fd ∈ s.removed := mem_removed.mpr hc
      rw [← h.resets, hresets] at hmem
      cases hmem

theorem SocketInvariant.removeAndResetChnnel {s u : Connector} {state : ConnectorState} {fd : Nat}
    (h : s.SocketInvariant) (hstate : s.state = .cConnecting)
    (hrem : Connector.removeAndResetChnnel { s with state := state } = some (fd, u)) :
    u.Holds fd := by
  obtain ⟨k, hreg⟩ := Option.ne_none_iff_exists'.mp (h.connecting.mp hstate)
  have hchnnel := registered_eq_some.mp hreg
  simp only [Connector.removeAndResetChnnel, hchnnel, Option.map_some, Option.some.injEq,
    Prod.mk.injEq] at hrem
  obtain ⟨rfl, rfl⟩ := hrem
  have hnone : s.resets = [] := by
    rw [h.resets, removed, hchnnel]
  refine ⟨rfl, ?_, h.drained, h.created k hreg, ?_, h.history⟩
  · apply (resets_push s _).trans
    rw [hnone]
    rfl
  · have hledger := h.ledger
    rw [hreg] at hledger
    exact hledger

/-- Every handler of a pending attempt that gives up on it. -/
theorem SocketInvariant.giveUp {s t : Connector} {state : ConnectorState} (h : s.SocketInvariant)
    (hstate : s.state = .cConnecting)
    (ht : (Connector.removeAndResetChnnel { s with state := state }).map
      (fun (fd, s) ↦ s.retry fd) = some t) : t.SocketInvariant := by
  obtain ⟨⟨fd, u⟩, hrem, rfl⟩ := Option.map_eq_some_iff.mp ht
  exact (h.removeAndResetChnnel hstate hrem).retry

theorem SocketInvariant.stopInLoop {s t : Connector} (h : s.SocketInvariant)
    (ht : s.stopInLoop = some t) : t.SocketInvariant := by
  unfold Connector.stopInLoop at ht
  split at ht
  · rename_i hstate
    exact h.giveUp hstate ht
  · cases ht
    exact h

theorem SocketInvariant.handleError {s t : Connector} (h : s.SocketInvariant)
    (ht : s.handleError = some t) : t.SocketInvariant := by
  unfold Connector.handleError at ht
  split at ht
  · rename_i hstate
    exact h.giveUp hstate ht
  · cases ht
    exact h

theorem SocketInvariant.handleWrite {s t : Connector} {soError selfConnect : Bool}
    (h : s.SocketInvariant) (ht : s.handleWrite soError selfConnect = some t) :
    t.SocketInvariant := by
  unfold Connector.handleWrite at ht
  split at ht
  · rename_i hstate
    obtain ⟨⟨fd, u⟩, hrem, rfl⟩ := Option.map_eq_some_iff.mp ht
    have hholds := h.removeAndResetChnnel hstate hrem
    have hconn : Holds { u with state := .cConnected } fd :=
      ⟨hholds.registered, hholds.resets, hholds.drained, hholds.created, hholds.ledger,
        hholds.history⟩
    dsimp only
    split
    · exact hholds.retry
    · split
      · exact hholds.retry
      · split
        · exact hconn.newConnectionCallBack rfl
        · exact hconn.close (by simp)
  · rename_i hstate
    cases ht
    refine ⟨?_, h.resets, h.drained, h.created, h.ledger, h.history⟩
    have hreg : s.registered = none := by
      by_contra hne
      exact hstate (h.connecting.mpr hne)
    show ConnectorState.cDisconnected = .cConnecting ↔ s.registered ≠ none
    simp [hreg]

theorem SocketInvariant.handleEvent {s t : Connector} {error write soError selfConnect : Bool}
    (h : s.SocketInvariant) (ht : s.handleEvent error write soError selfConnect = some t) :
    t.SocketInvariant := by
  obtain ⟨u, hu, ht⟩ := Option.bind_eq_some_iff.mp ht
  have hinv : u.SocketInvariant := by
    split at hu
    · exact h.handleError hu
    · cases hu
      exact h
  split at ht
  · exact hinv.handleWrite ht
  · cases ht
    exact hinv

theorem SocketInvariant.resetChnnel {s : Connector} {removed : Nat}
    {rest : List ConnectorFunctor} (h : s.SocketInvariant) (hbatch : s.functors.batch = .resetChnnel removed :: rest)
    (hphase : s.phase = .functors) {executed : List ConnectorFunctor} :
    (Connector.resetChnnel
      { s with functors := { s.functors with batch := rest, executed := executed } }
      removed).SocketInvariant := by
  have hresets : s.resets = removed :: (rest ++ s.functors.pending).filterMap
      ConnectorFunctor.resets := by
    simp [Connector.resets, waiting, hbatch, ConnectorFunctor.resets]
  have hmem : removed ∈ s.removed := by
    rw [← h.resets, hresets]
    exact List.mem_cons_self
  have hchnnel := mem_removed.mp hmem
  have hreg : s.registered = none := by
    rw [Connector.registered, hchnnel]
  have hrest : (rest ++ s.functors.pending).filterMap ConnectorFunctor.resets = [] := by
    have heq := h.resets
    rw [hresets, Connector.removed, hchnnel] at heq
    exact (List.cons.inj heq).2
  have hledger := h.ledger
  rw [hreg] at hledger
  refine ⟨?_, hrest, fun hne ↦ (hne hphase).elim, ?_, hledger, h.history.1, h.history.2.1,
    fun r hr ↦ ?_⟩
  · show s.state = .cConnecting ↔ none ≠ none
    rw [h.connecting, hreg]
  · intro fd hfd
    cases hfd
  · rcases List.mem_append.mp hr with hr | hr
    · exact h.history.2.2 r hr
    · rw [List.mem_singleton.mp hr]
      exact hchnnel

/-- `startInLoop` finds the last attempt wound up: no other is pending or has come about, and
`connecting` is going to find `_chnnel` null. -/
def FindsIdle (s : Connector) (a : Attempt) : Prop :=
  s.state = .cDisconnected ∧ (a.errno.branch = .connecting → s.resets = [])

instance (s : Connector) (a : Attempt) : Decidable (s.FindsIdle a) :=
  inferInstanceAs (Decidable (_ ∧ _))

theorem SocketInvariant.connect {s : Connector} {a : Attempt} (h : s.SocketInvariant)
    (hidle : s.FindsIdle a) : (s.connect a).SocketInvariant := by
  obtain ⟨hstate, hresets⟩ := hidle
  have hreg : s.registered = none := by
    by_contra hne
    rw [h.connecting.mpr hne] at hstate
    cases hstate
  have hledger := h.ledger
  rw [hreg] at hledger
  have hnot : s.state ≠ .cConnecting := by simp [hstate]
  -- a `stop` of another thread changes nothing that the invariant speaks about
  obtain ⟨flag, calling, hopened⟩ := s.opened_eq a
  have hholds : (s.opened a).Holds s.created := by
    rw [hopened]
    exact ⟨hreg, h.resets, h.drained, Nat.lt_succ_self _, hledger.socket, h.history⟩
  obtain ⟨hbranch, hconnect⟩ | ⟨-, hconnect⟩ | ⟨-, hconnect⟩ := s.connect_cases a
  · rw [hconnect]
    refine hholds.connecting ?_
    rw [hopened]
    exact h.chnnel_eq_none hnot (hresets hbranch)
  · rw [hconnect]
    exact hholds.retry
  · rw [hconnect]
    refine hholds.close ?_
    rw [hopened]
    exact hnot

theorem SocketInvariant.startInLoop {s : Connector} {a : Attempt} (h : s.SocketInvariant)
    (hidle : s.connectFlag = true → s.FindsIdle a) : (s.startInLoop a).SocketInvariant := by
  unfold Connector.startInLoop
  split
  · rename_i hflag
    have hfinds := hidle hflag
    refine SocketInvariant.connect (s := { s with started := s.started ++ [s.state] }) ?_ hfinds
    refine ⟨h.connecting, h.resets, h.drained, h.created, h.ledger, fun state hmem ↦ ?_,
      h.history.2⟩
    rcases List.mem_append.mp hmem with hmem | hmem
    · exact h.history.1 state hmem
    · rw [List.mem_singleton.mp hmem]
      exact hfinds.1
  · exact h

/-! ## 3. The loop -/

/-- Calls on either side of the loop: `_connect`, the count of the calls and the functors on their
way into the queue. -/
theorem SocketInvariant.call {s : Connector} (h : s.SocketInvariant) (flag : Bool) (starts : Nat)
    (calling : List ConnectorFunctor) :
    SocketInvariant { s with connectFlag := flag, starts := starts, calling := calling } :=
  ⟨h.connecting, h.resets, h.drained, h.created, h.ledger, h.history⟩

/-- A functor other than `resetChnnel` is queued. -/
theorem SocketInvariant.queueInLoop {s : Connector} {f : ConnectorFunctor} (h : s.SocketInvariant)
    (hf : f.resets = none) : SocketInvariant { s with functors := s.functors.push f } := by
  refine ⟨h.connecting, ?_, h.drained, h.created, h.ledger, h.history⟩
  rw [resets_push, hf, h.resets]
  exact List.append_nil _

/-- A functor other than `resetChnnel` is taken from the batch. -/
theorem SocketInvariant.next {s : Connector} {f : ConnectorFunctor}
    {rest executed : List ConnectorFunctor} (h : s.SocketInvariant) (hf : f.resets = none)
    (hbatch : s.functors.batch = f :: rest) (hphase : s.phase = .functors) :
    SocketInvariant
      { s with functors := { s.functors with batch := rest, executed := executed } } := by
  refine ⟨h.connecting, ?_, fun hne ↦ (hne hphase).elim, h.created, h.ledger, h.history⟩
  show (rest ++ s.functors.pending).filterMap ConnectorFunctor.resets = s.removed
  rw [← h.resets, Connector.resets, waiting, hbatch, List.cons_append, List.filterMap_cons, hf]

/-- The next iteration of the loop, or the next phase of this one. -/
theorem SocketInvariant.phase {s : Connector} (h : s.SocketInvariant) (phase : ConnectorPhase)
    (hbatch : s.functors.batch = []) : SocketInvariant { s with phase := phase } :=
  ⟨h.connecting, h.resets, fun _ ↦ hbatch, h.created, h.ledger, h.history⟩

theorem SocketInvariant.swap {s : Connector} (h : s.SocketInvariant)
    (hbatch : s.functors.batch = []) :
    SocketInvariant { s with phase := .functors, functors := s.functors.take } := by
  refine ⟨h.connecting, ?_, fun hne ↦ (hne rfl).elim, h.created, h.ledger, h.history⟩
  show (s.functors.pending ++ []).filterMap ConnectorFunctor.resets = s.removed
  rw [← h.resets, Connector.resets, waiting, hbatch, List.nil_append, List.append_nil]

/-- Where a step enters `startInLoop` with `_connect` set, the last attempt is wound up.  `restart` does
not ask for the state. -/
def EntersIdle (s : Connector) : Label → Prop
  | .startHere a => s.FindsIdle a
  | .restart _ => False
  | .timer _ a => s.connectFlag = true → s.FindsIdle a
  | .functor a =>
    s.functors.batch.head? = some .startInLoop → s.connectFlag = true → s.FindsIdle a
  | _ => True

instance (s : Connector) : (l : Label) → Decidable (s.EntersIdle l)
  | .startHere _ => inferInstanceAs (Decidable (FindsIdle _ _))
  | .timer _ _ => inferInstanceAs (Decidable (_ → _))
  | .functor _ => inferInstanceAs (Decidable (_ → _ → _))
  | .restart _ => .isFalse id
  | .stopHere | .start | .stop | .queueInLoop _ | .poll _ | .event _ _ _ _ | .swap | .done =>
    .isTrue trivial

/-- Another thread queues no `resetChnnel`. -/
def CallsOnly (s : Connector) : Prop := ∀ f ∈ s.calling, f.resets = none

/-- One case for each way a step can end. -/
inductive StepTo (s : Connector) : Label → Connector → Prop
  | startHere {a : Attempt} : StepTo s (.startHere a)
      ({ s with connectFlag := true, starts := s.starts + 1 }.startInLoop a)
  | stopHere :
      StepTo s .stopHere { s with connectFlag := false, functors := s.functors.push .stopInLoop }
  | restart {a : Attempt} : StepTo s (.restart a) (s.restart a)
  | start : StepTo s .start { s with
      connectFlag := true, starts := s.starts + 1, calling := s.calling ++ [.startInLoop] }
  | stop : StepTo s .stop s.stopElsewhere
  | queueInLoop {f : ConnectorFunctor} : f ∈ s.calling → StepTo s (.queueInLoop f)
      { s with calling := s.calling.erase f, functors := s.functors.push f }
  | pollReady {fd : Nat} : s.phase = .polling → s.chnnel = some ⟨fd, true⟩ →
      StepTo s (.poll true) { s with phase := .events (some fd) }
  | pollOther : s.phase = .polling → StepTo s (.poll false) { s with phase := .events none }
  | event {error write soError selfConnect : Bool} {c : ConnectorChnnel} {t : Connector} :
      s.phase = .events (some c.fd) → s.chnnel = some c →
      { s with phase := .events none }.handleEvent error write soError selfConnect = some t →
      StepTo s (.event error write soError selfConnect) t
  | timer {delay : Nat} {a : Attempt} {ready : Option Nat} : s.phase = .events ready →
      delay ∈ s.timers →
      StepTo s (.timer delay a) ({ s with timers := s.timers.erase delay }.startInLoop a)
  | swap : s.phase = .events none →
      StepTo s .swap { s with phase := .functors, functors := s.functors.take }
  | functor {a : Attempt} {f : ConnectorFunctor} {rest : List ConnectorFunctor} {t : Connector} :
      s.phase = .functors → s.functors.batch = f :: rest →
      ({ s with functors :=
        { s.functors with batch := rest, executed := s.functors.executed ++ [f] } } :
          Connector).perform a f = some t →
      StepTo s (.functor a) t
  | done : s.phase = .functors → s.functors.batch = [] →
      StepTo s .done { s with phase := .polling }

theorem step_cases {s t : Connector} {l : Label} (h : s.step l = some t) : StepTo s l t := by
  cases l with
  | startHere a =>
    cases h
    exact .startHere
  | stopHere =>
    cases h
    exact .stopHere
  | restart a =>
    cases h
    exact .restart
  | start =>
    cases h
    exact .start
  | stop =>
    cases h
    exact .stop
  | queueInLoop f =>
    simp only [step, Option.ite_none_right_eq_some, Option.some.injEq] at h
    obtain ⟨hmem, rfl⟩ := h
    exact .queueInLoop hmem
  | poll ready =>
    simp only [step] at h
    split at h
    · cases h
      exact .pollReady ‹_› ‹_›
    · cases h
      exact .pollOther ‹_›
    · cases h
  | event error write soError selfConnect =>
    simp only [step] at h
    split at h
    · rename_i fd c hphase hchnnel
      split at h
      · rename_i hfd
        subst hfd
        exact .event hphase hchnnel h
      · cases h
    · cases h
  | timer delay a =>
    simp only [step] at h
    split at h
    · rename_i ready hphase
      simp only [Option.ite_none_right_eq_some, Option.some.injEq] at h
      obtain ⟨hdue, rfl⟩ := h
      exact .timer hphase hdue
    · cases h
  | swap =>
    simp only [step, Option.ite_none_right_eq_some, Option.some.injEq] at h
    obtain ⟨hphase, rfl⟩ := h
    exact .swap hphase
  | functor a =>
    simp only [step] at h
    split at h
    · rename_i f fs hphase hnext
      obtain ⟨rest, hbatch, rfl⟩ := Batch.Queue.next_eq_some.mp hnext
      exact .functor hphase hbatch h
    · cases h
  | done =>
    simp only [step, Option.ite_none_right_eq_some, Option.some.injEq] at h
    obtain ⟨⟨hphase, hbatch⟩, rfl⟩ := h
    exact .done hphase hbatch

theorem step_socketInvariant {s t : Connector} {l : Label} (h : s.SocketInvariant)
    (hcalls : s.CallsOnly) (hidle : s.EntersIdle l) (ht : s.step l = some t) :
    t.SocketInvariant := by
  cases step_cases ht with
  | startHere => exact (h.call true (s.starts + 1) s.calling).startInLoop fun _ ↦ hidle
  | stopHere => exact (h.call false s.starts s.calling).queueInLoop (f := .stopInLoop) rfl
  | restart => exact hidle.elim
  | start => exact h.call true (s.starts + 1) (s.calling ++ [.startInLoop])
  | stop => exact h.call false s.starts (s.calling ++ [.stopInLoop])
  | @queueInLoop f hmem =>
    exact (h.call s.connectFlag s.starts (s.calling.erase f)).queueInLoop (hcalls f hmem)
  | pollReady hphase => exact h.phase _ (h.drained (by simp [hphase]))
  | pollOther hphase => exact h.phase _ (h.drained (by simp [hphase]))
  | event hphase _ hevent => exact (h.phase _ (h.drained (by simp [hphase]))).handleEvent hevent
  | @timer delay a =>
    have hinv : SocketInvariant { s with timers := s.timers.erase delay } :=
      ⟨h.connecting, h.resets, h.drained, h.created, h.ledger, h.history⟩
    exact hinv.startInLoop hidle
  | swap hphase => exact h.swap (h.drained (by simp [hphase]))
  | @functor a f rest _ hphase hbatch hperform =>
    cases f with
    | startInLoop =>
      cases hperform
      refine (h.next rfl hbatch hphase).startInLoop fun hflag ↦ ?_
      obtain ⟨hstate, hresets⟩ := hidle (by simp [hbatch]) hflag
      refine ⟨hstate, fun hbranch ↦ ?_⟩
      have hnone := hresets hbranch
      rw [Connector.resets, waiting, hbatch, List.cons_append, List.filterMap_cons] at hnone
      exact hnone
    | stopInLoop => exact (h.next rfl hbatch hphase).stopInLoop hperform
    | resetChnnel k =>
      cases hperform
      exact h.resetChnnel hbatch hphase
  | done _ hbatch => exact h.phase _ hbatch

theorem init_socketInvariant : init.SocketInvariant where
  connecting := by simp [init, registered]
  resets := rfl
  drained := fun _ ↦ rfl
  created := by simp [init, registered]
  ledger := by
    intro k
    simp [init]
  history := by simp [History, init]

/-! ## 4. One retry timer -/

variable {s t : Connector}

theorem timerInvariant_of_nil (h : s.timers = []) : s.TimerInvariant :=
  ⟨by simp [h], fun hne ↦ (hne h).elim⟩

theorem retry_timerInvariant {fd : Nat} (h : s.timers = []) : (s.retry fd).TimerInvariant := by
  unfold retry
  dsimp only
  split
  all_goals
    refine ⟨?_, fun _ ↦ rfl⟩
    simp [close, h]

namespace TimerInvariant

theorem timers_eq_nil (h : s.TimerInvariant) (hstate : s.state = .cConnecting) :
    s.timers = [] := by
  by_contra hne
  rw [h.waits hne] at hstate
  cases hstate

/-- A pending attempt has no timer beside it, so the one of `retry` is the first. -/
theorem giveUp {state : ConnectorState} (h : s.TimerInvariant) (hstate : s.state = .cConnecting)
    (ht : (Connector.removeAndResetChnnel { s with state := state }).map
      (fun (fd, s) ↦ s.retry fd) = some t) : t.TimerInvariant := by
  obtain ⟨⟨fd, u⟩, hrem, rfl⟩ := Option.map_eq_some_iff.mp ht
  refine retry_timerInvariant ?_
  rw [(removeAndResetChnnel_eq hrem).1]
  exact h.timers_eq_nil hstate

theorem stopInLoop (h : s.TimerInvariant) (ht : s.stopInLoop = some t) : t.TimerInvariant := by
  unfold Connector.stopInLoop at ht
  split at ht
  · rename_i hstate
    exact h.giveUp hstate ht
  · cases ht
    exact h

theorem handleError (h : s.TimerInvariant) (ht : s.handleError = some t) : t.TimerInvariant := by
  unfold Connector.handleError at ht
  split at ht
  · rename_i hstate
    exact h.giveUp hstate ht
  · cases ht
    exact h

theorem handleWrite {soError selfConnect : Bool} (h : s.TimerInvariant)
    (ht : s.handleWrite soError selfConnect = some t) : t.TimerInvariant := by
  unfold Connector.handleWrite at ht
  split at ht
  · rename_i hstate
    obtain ⟨⟨fd, u⟩, hrem, rfl⟩ := Option.map_eq_some_iff.mp ht
    have hnone : u.timers = [] :=
      (removeAndResetChnnel_eq hrem).1.trans (h.timers_eq_nil hstate)
    dsimp only
    split
    · exact retry_timerInvariant hnone
    · split
      · exact retry_timerInvariant hnone
      · split
        all_goals exact timerInvariant_of_nil hnone
  · cases ht
    exact ⟨h.oneTimer, fun _ ↦ rfl⟩

theorem handleEvent {error write soError selfConnect : Bool} (h : s.TimerInvariant)
    (ht : s.handleEvent error write soError selfConnect = some t) : t.TimerInvariant := by
  obtain ⟨u, hu, ht⟩ := Option.bind_eq_some_iff.mp ht
  have hinv : u.TimerInvariant := by
    split at hu
    · exact h.handleError hu
    · cases hu
      exact h
  split at ht
  · exact hinv.handleWrite ht
  · cases ht
    exact hinv

/-- Only an attempt that fails for good may begin beside a retry timer. -/
theorem connect {a : Attempt} (h : s.TimerInvariant)
    (hready : a.errno.branch = .close ∨ s.timers = []) : (s.connect a).TimerInvariant := by
  obtain ⟨flag, calling, hopened⟩ := s.opened_eq a
  obtain ⟨hbranch, hconnect⟩ | ⟨hbranch, hconnect⟩ | ⟨-, hconnect⟩ := s.connect_cases a
  · rw [hconnect, hopened]
    have hnone : s.timers = [] := by simpa [hbranch] using hready
    exact timerInvariant_of_nil hnone
  · rw [hconnect, hopened]
    have hnone : s.timers = [] := by simpa [hbranch] using hready
    exact retry_timerInvariant hnone
  · rw [hconnect, hopened]
    exact ⟨h.oneTimer, h.waits⟩

theorem startInLoop {a : Attempt} (h : s.TimerInvariant)
    (hready : s.connectFlag = true → a.errno.branch = .close ∨ s.timers = []) :
    (s.startInLoop a).TimerInvariant := by
  unfold Connector.startInLoop
  split
  · rename_i hflag
    exact connect (s := { s with started := s.started ++ [s.state] }) ⟨h.oneTimer, h.waits⟩
      (hready hflag)
  · exact h

end TimerInvariant

/-- `startInLoop` may run: the last attempt is wound up, and a second retry timer cannot arise. -/
def Ready (s : Connector) (a : Attempt) : Prop :=
  s.state = .cDisconnected ∧ (a.errno.branch = .close ∨ s.timers = []) ∧
    (a.errno.branch = .connecting → s.resets = [])

/-- What a step that enters `startInLoop` has to meet where at most one retry timer may be left. -/
def MayEnter (s : Connector) : Label → Prop
  | .startHere a => s.Ready a
  | .restart _ => False
  | .timer _ a => s.connectFlag = true → a.errno.branch = .connecting → s.resets = []
  | .functor a => s.functors.batch.head? = some .startInLoop → s.connectFlag = true → s.Ready a
  | _ => True

theorem TimerInvariant.entersIdle {l : Label} (h : s.TimerInvariant) (hmay : s.MayEnter l)
    (ht : s.step l = some t) : s.EntersIdle l := by
  cases step_cases ht with
  | startHere => exact ⟨hmay.1, hmay.2.2⟩
  | restart => exact hmay
  | timer _ hdue => exact fun hflag ↦ ⟨h.waits (List.ne_nil_of_mem hdue), hmay hflag⟩
  | functor => exact fun hhead hflag ↦ ⟨(hmay hhead hflag).1, (hmay hhead hflag).2.2⟩
  | _ => trivial

theorem step_timerInvariant {l : Label} (h : s.TimerInvariant) (hmay : s.MayEnter l)
    (ht : s.step l = some t) : t.TimerInvariant := by
  cases step_cases ht with
  | startHere =>
    refine TimerInvariant.startInLoop ?_ fun _ ↦ hmay.2.1
    exact ⟨h.oneTimer, h.waits⟩
  | restart => exact hmay.elim
  | event _ _ hevent =>
    refine TimerInvariant.handleEvent ?_ hevent
    exact ⟨h.oneTimer, h.waits⟩
  | @timer delay a _ _ hdue =>
    -- it was the only one
    have hlast : s.timers.erase delay = [] := by
      rw [← List.length_eq_zero_iff, List.length_erase_of_mem hdue]
      have := h.oneTimer
      omega
    exact (timerInvariant_of_nil hlast).startInLoop fun _ ↦ Or.inr hlast
  | @functor a f _ _ _ hbatch hperform =>
    cases f with
    | startInLoop =>
      cases hperform
      refine TimerInvariant.startInLoop ?_ fun hflag ↦ (hmay (by simp [hbatch]) hflag).2.1
      exact ⟨h.oneTimer, h.waits⟩
    | stopInLoop =>
      refine TimerInvariant.stopInLoop ?_ hperform
      exact ⟨h.oneTimer, h.waits⟩
    | resetChnnel k =>
      cases hperform
      exact ⟨h.oneTimer, h.waits⟩
  | _ => exact ⟨h.oneTimer, h.waits⟩

theorem step_invariant {l : Label} (h : s.Invariant) (hcalls : s.CallsOnly) (hmay : s.MayEnter l)
    (ht : s.step l = some t) : t.Invariant where
  toSocketInvariant :=
    step_socketInvariant h.toSocketInvariant hcalls (h.toTimerInvariant.entersIdle hmay ht) ht
  toTimerInvariant := step_timerInvariant h.toTimerInvariant hmay ht

theorem init_invariant : init.Invariant :=
  ⟨init_socketInvariant, timerInvariant_of_nil rfl⟩

/-! ## 5. What every handler keeps -/

/-- A relation that the parts of the handlers keep. -/
structure Handled (R : Connector → Connector → Prop) : Prop where
  refl : ∀ s, R s s
  trans : ∀ s t u, R s t → R t u → R s u
  retry : ∀ s fd, R s (s.retry fd)
  removeAndResetChnnel : ∀ s t fd, s.removeAndResetChnnel = some (fd, t) → R s t
  disconnected : ∀ s, R s { s with state := .cDisconnected }
  /-- The end of a connect that has succeeded. -/
  connected : ∀ s fd, R s (if s.connectFlag then
      ({ s with state := .cConnected } : Connector).newConnectionCallBack fd
    else ({ s with state := .cConnected } : Connector).close fd)

variable {R : Connector → Connector → Prop}

theorem Handled.stopInLoop (hR : Handled R) (h : s.stopInLoop = some t) : R s t := by
  unfold Connector.stopInLoop at h
  split at h
  · obtain ⟨⟨fd, u⟩, hrem, rfl⟩ := Option.map_eq_some_iff.mp h
    have hrest : R { s with state := .cDisconnected } (u.retry fd) :=
      hR.trans _ _ _ (hR.removeAndResetChnnel _ _ _ hrem) (hR.retry u fd)
    exact hR.trans _ _ _ (hR.disconnected s) hrest
  · cases h
    exact hR.refl s

theorem Handled.handleError (hR : Handled R) (h : s.handleError = some t) : R s t := by
  unfold Connector.handleError at h
  split at h
  · obtain ⟨⟨fd, u⟩, hrem, rfl⟩ := Option.map_eq_some_iff.mp h
    exact hR.trans _ _ _ (hR.removeAndResetChnnel _ _ _ hrem) (hR.retry u fd)
  · cases h
    exact hR.refl s

theorem Handled.handleWrite (hR : Handled R) {soError selfConnect : Bool}
    (h : s.handleWrite soError selfConnect = some t) : R s t := by
  unfold Connector.handleWrite at h
  split at h
  · obtain ⟨⟨fd, u⟩, hrem, rfl⟩ := Option.map_eq_some_iff.mp h
    apply hR.trans _ _ _ (hR.removeAndResetChnnel _ _ _ hrem)
    dsimp only
    split
    · exact hR.retry u fd
    · split
      · exact hR.retry u fd
      · exact hR.connected u fd
  · cases h
    exact hR.disconnected s

theorem Handled.handleEvent (hR : Handled R) {error write soError selfConnect : Bool}
    (h : s.handleEvent error write soError selfConnect = some t) : R s t := by
  obtain ⟨u, hu, ht⟩ := Option.bind_eq_some_iff.mp h
  have hfirst : R s u := by
    split at hu
    · exact hR.handleError hu
    · cases hu
      exact hR.refl s
  split at ht
  · exact hR.trans _ _ _ hfirst (hR.handleWrite ht)
  · cases ht
    exact hfirst

end Connector

end Netlib
