import Netlib.Lib.Run
import Netlib.Lib.BatchQueue
import Netlib.Lib.CInt
import Netlib.Net.SockAddr

/-!
# `netlib::TcpServer` and its loops

The server's own loop with the acceptor, the pool of I/O loops, and the table of the connections
(`net/TcpServer.cc`, `EventLoopThreadPool::getNextLoop`, `EventLoop::runInLoop`).  Each loop is one
thread with a functor queue; a step is one handler, one functor or one push, and the steps of the
loops come in any order.  Of a connection the model keeps the object, its name and its loop: when
`handleClose` runs is up to the environment.
-/

namespace Netlib

/-- The loop of the server, and those of the pool, by their place in `_loops`. -/
inductive LoopId where
  | base
  | io (i : Nat)
deriving DecidableEq, Repr

/-- A `TcpConnectionPtr`: which object it is, its `name()` and its `getLoop()`. -/
structure ConnPtr where
  id : Nat
  name : List Char
  loop : LoopId
deriving DecidableEq, Repr

inductive ServerFunctor where
  | connectEstablished (conn : ConnPtr)
  | conncetDestoryed (conn : ConnPtr)
  | removeConnectionInLoop (conn : ConnPtr)
  /-- Any other functor. -/
  | other
deriving DecidableEq, Repr

/-- The two calls that a connection gets from the server. -/
def ServerFunctor.isCallOf (conn : ConnPtr) : ServerFunctor → Bool
  | .connectEstablished c | .conncetDestoryed c => c = conn
  | .removeConnectionInLoop _ | .other => false

/-- Where a loop thread is. -/
inductive ServerPhase where
  /-- In `epoll_wait` or in a handler. -/
  | handling
  /-- In the `for` of `dpPendingFunctors`. -/
  | next
  /-- In a functor with user code. -/
  | user
deriving DecidableEq, Repr

structure ServerLoop where
  functors : Batch.Queue ServerFunctor
  phase : ServerPhase
  /-- What has been run on this loop, out of the queue or by `runInLoop` at once. -/
  called : List ServerFunctor
deriving DecidableEq, Repr

def ServerLoop.init : ServerLoop := ⟨.empty, .handling, []⟩

structure TcpServer where
  name : List Char
  listenAddr : SockAddr
  /-- `_loops.size()` of the pool. -/
  numThreads : Nat
  /-- `_next` of the pool. -/
  nextLoop : Nat
  nextConnId : Int
  connections : AList fun _ : List Char ↦ ConnPtr
  loops : LoopId → ServerLoop
  /-- Every connection that `newConnection` has made. -/
  accepted : List ConnPtr
  /-- Every connection whose `handleClose` has run. -/
  closed : List ConnPtr
  /-- For each `newConnection`, whether its name was new to `_connections`. -/
  inserted : List Bool
  /-- For each `removeConnectionInLoop`, the `n` that `erase` returned. -/
  erased : List Nat

namespace TcpServer

/-- A server that has been started with `numThreads` I/O loops. -/
def init (name : List Char) (listenAddr : SockAddr) (numThreads : Nat) : TcpServer where
  name := name
  listenAddr := listenAddr
  numThreads := numThreads
  nextLoop := 0
  nextConnId := 1
  connections := ∅
  loops := fun _ ↦ .init
  accepted := []
  closed := []
  inserted := []
  erased := []

/-- `_ipPort`, which the constructor computes. -/
def ipPort (s : TcpServer) : List Char := s.listenAddr.toIpPort

/-- The name of the connection with the number `connId`. -/
def conName (s : TcpServer) (connId : Int) : List Char :=
  s.name ++ snprintf 64 ('-' :: s.ipPort ++ '#' :: formatInt connId)

def setLoop (s : TcpServer) (i : LoopId) (l : ServerLoop) : TcpServer :=
  { s with loops := Function.update s.loops i l }

def queueInLoop (s : TcpServer) (i : LoopId) (f : ServerFunctor) : TcpServer :=
  s.setLoop i { s.loops i with functors := (s.loops i).functors.push f }

/-- `removeConnectionInLoop`. -/
def removeConnectionInLoop (s : TcpServer) (conn : ConnPtr) : TcpServer :=
  let n := if conn.name ∈ s.connections then 1 else 0
  { s with connections := s.connections.erase conn.name, erased := s.erased ++ [n] }.queueInLoop
    conn.loop (.conncetDestoryed conn)

def setPhase (s : TcpServer) (i : LoopId) (phase : ServerPhase) : TcpServer :=
  s.setLoop i { s.loops i with phase := phase }

/-- Record that a functor runs on its loop. -/
def ran (s : TcpServer) (i : LoopId) (f : ServerFunctor) : TcpServer :=
  s.setLoop i { s.loops i with called := (s.loops i).called ++ [f] }

/-- Run a functor on its loop. -/
def call (s : TcpServer) (i : LoopId) (f : ServerFunctor) : TcpServer :=
  match f with
  | .connectEstablished _ | .conncetDestoryed _ => s.ran i f
  | .removeConnectionInLoop conn => (s.ran i f).removeConnectionInLoop conn
  | .other => (s.ran i f).setPhase i .user

/-- `runInLoop` of the loop `i`, called on the thread of the loop `caller`. -/
def runInLoop (s : TcpServer) (caller i : LoopId) (f : ServerFunctor) : TcpServer :=
  if caller = i then s.call i f else s.queueInLoop i f

/-- `getNextLoop`, with the new `_next`. -/
def getNextLoop (s : TcpServer) : LoopId × Nat :=
  if s.numThreads = 0 then (.base, s.nextLoop)
  else (.io s.nextLoop, if s.numThreads ≤ s.nextLoop + 1 then 0 else s.nextLoop + 1)

/-- The connection that `newConnection` makes. -/
def newConn (s : TcpServer) : ConnPtr :=
  ⟨s.accepted.length, s.conName s.nextConnId, s.getNextLoop.1⟩

/-- `newConnection` up to its `runInLoop`. -/
def accept (s : TcpServer) : TcpServer :=
  { s with
    nextLoop := s.getNextLoop.2
    -- `int` wraps in the compiled code
    nextConnId := CInt.toInt32 (s.nextConnId + 1)
    inserted := s.inserted ++ [decide (s.newConn.name ∉ s.connections)]
    connections := s.connections.insert s.newConn.name s.newConn
    accepted := s.accepted ++ [s.newConn] }

def newConnection (s : TcpServer) : TcpServer :=
  s.accept.runInLoop .base s.newConn.loop (.connectEstablished s.newConn)

/-- `removeConnection`, on the loop of the connection. -/
def removeConnection (s : TcpServer) (conn : ConnPtr) : TcpServer :=
  s.runInLoop conn.loop .base (.removeConnectionInLoop conn)

inductive Label where
  /-- The acceptor has a new descriptor. -/
  | newConnection
  /-- `handleClose` of a connection calls `_closeCallBack`. -/
  | handleClose (conn : ConnPtr)
  /-- Any thread queues another functor. -/
  | queueInLoop (i : LoopId)
  | dpPendingFunctors (i : LoopId)
  | functor (i : LoopId)
  | functorReturn (i : LoopId)
deriving DecidableEq, Repr

def step (s : TcpServer) : Label → Option TcpServer
  | .newConnection => if (s.loops .base).phase = .handling then some s.newConnection else none
  | .handleClose conn =>
    -- in a handler, or in `forceCloseInLoop`, which is a functor
    if conn ∈ s.accepted ∧ (s.loops conn.loop).phase ≠ .next then
      some ({ s with closed := s.closed ++ [conn] }.removeConnection conn)
    else none
  | .queueInLoop i => some (s.queueInLoop i .other)
  | .dpPendingFunctors i =>
    if (s.loops i).phase = .handling then
      some (s.setLoop i { s.loops i with phase := .next, functors := (s.loops i).functors.take })
    else none
  | .functor i =>
    if (s.loops i).phase = .next then
      match (s.loops i).functors.next with
      | some (f, q) => some ((s.setLoop i { s.loops i with functors := q }).call i f)
      | none => some (s.setPhase i .handling)
    else none
  | .functorReturn i => if (s.loops i).phase = .user then some (s.setPhase i .next) else none

/-! ## 1. What a step can do -/

inductive StepTo (s : TcpServer) : Label → TcpServer → Prop
  | newConnection : (s.loops .base).phase = .handling → StepTo s .newConnection s.newConnection
  | handleClose {conn : ConnPtr} : conn ∈ s.accepted → (s.loops conn.loop).phase ≠ .next →
      StepTo s (.handleClose conn)
        ({ s with closed := s.closed ++ [conn] }.removeConnection conn)
  | queueInLoop {i : LoopId} : StepTo s (.queueInLoop i) (s.queueInLoop i .other)
  | dpPendingFunctors {i : LoopId} : (s.loops i).phase = .handling →
      StepTo s (.dpPendingFunctors i)
        (s.setLoop i { s.loops i with phase := .next, functors := (s.loops i).functors.take })
  | functor {i : LoopId} {f : ServerFunctor} {q : Batch.Queue ServerFunctor} :
      (s.loops i).phase = .next → (s.loops i).functors.next = some (f, q) →
      StepTo s (.functor i) ((s.setLoop i { s.loops i with functors := q }).call i f)
  | batchEnd {i : LoopId} : (s.loops i).phase = .next → (s.loops i).functors.next = none →
      StepTo s (.functor i) (s.setPhase i .handling)
  | functorReturn {i : LoopId} : (s.loops i).phase = .user →
      StepTo s (.functorReturn i) (s.setPhase i .next)

theorem step_cases {s u : TcpServer} {l : Label} (h : s.step l = some u) : StepTo s l u := by
  cases l with
  | newConnection =>
    simp only [step, Option.ite_none_right_eq_some, Option.some.injEq] at h
    obtain ⟨hphase, rfl⟩ := h
    exact .newConnection hphase
  | handleClose conn =>
    simp only [step, Option.ite_none_right_eq_some, Option.some.injEq] at h
    obtain ⟨⟨hmem, hphase⟩, rfl⟩ := h
    exact .handleClose hmem hphase
  | queueInLoop i =>
    cases h
    exact .queueInLoop
  | dpPendingFunctors i =>
    simp only [step, Option.ite_none_right_eq_some, Option.some.injEq] at h
    obtain ⟨hphase, rfl⟩ := h
    exact .dpPendingFunctors hphase
  | functor i =>
    simp only [step, Option.ite_none_right_eq_some] at h
    obtain ⟨hphase, h⟩ := h
    split at h
    · cases h
      exact .functor hphase ‹_›
    · cases h
      exact .batchEnd hphase ‹_›
  | functorReturn i =>
    simp only [step, Option.ite_none_right_eq_some, Option.some.injEq] at h
    obtain ⟨hphase, rfl⟩ := h
    exact .functorReturn hphase

/-! ## 2. What the loops have run and will run -/

/-- Everything that has been run on a loop and everything that its queue holds, in order. -/
def trace (s : TcpServer) (i : LoopId) : List ServerFunctor :=
  (s.loops i).called ++ (s.loops i).functors.waiting

/-- The calls of a connection on a loop, those made and those to come, in order. -/
def callsOf (s : TcpServer) (i : LoopId) (conn : ConnPtr) : List ServerFunctor :=
  (s.trace i).filter (·.isCallOf conn)

/-- `removeConnectionInLoop` has run for the connection. -/
def Removed (s : TcpServer) (conn : ConnPtr) : Prop :=
  .removeConnectionInLoop conn ∈ (s.loops .base).called

instance (s : TcpServer) (conn : ConnPtr) : Decidable (s.Removed conn) :=
  inferInstanceAs (Decidable (_ ∈ _))

section Loops

variable {s u : TcpServer} {i j : LoopId} {f : ServerFunctor} {conn : ConnPtr}

theorem setLoop_setLoop (s : TcpServer) (i : LoopId) (l l' : ServerLoop) :
    (s.setLoop i l).setLoop i l' = s.setLoop i l' := by
  simp [setLoop]

theorem setLoop_loops (s : TcpServer) (i j : LoopId) (l : ServerLoop) :
    (s.setLoop i l).loops j = if j = i then l else s.loops j := by
  unfold setLoop
  by_cases hj : j = i
  · subst hj
    simp
  · simp [hj]

/-- What a change of one loop keeps of it, it keeps of every loop. -/
theorem setLoop_keeps {α : Type} {l : ServerLoop} (g : ServerLoop → α) (hl : g l = g (s.loops i))
    (j : LoopId) : g ((s.setLoop i l).loops j) = g (s.loops j) := by
  rw [setLoop_loops]
  split
  · rename_i hj
    rw [hj, hl]
  · rfl

/-- A loop whose functors move on as they are. -/
theorem trace_setLoop {l : ServerLoop}
    (hl : l.called ++ l.functors.waiting = s.trace i) (j : LoopId) :
    (s.setLoop i l).trace j = s.trace j := by
  unfold trace
  rw [setLoop_loops]
  split
  · rename_i hj
    subst hj
    exact hl
  · rfl

/-- One functor more in the trace of one loop, made there at once or queued, and nothing else of the
loops changed. -/
structure Inserts (s u : TcpServer) (i : LoopId) (f : ServerFunctor) : Prop where
  here : ∃ front back, s.trace i = front ++ back ∧ u.trace i = front ++ f :: back
  others : ∀ j, j ≠ i → u.trace j = s.trace j
  phase : ∀ j, (u.loops j).phase = (s.loops j).phase
  batch : ∀ j, (u.loops j).functors.batch = (s.loops j).functors.batch
  called : ∀ j g, g ≠ f → (g ∈ (u.loops j).called ↔ g ∈ (s.loops j).called)

/-- Only the loops count. -/
theorem Inserts.of_loops {v : TcpServer} (h : s.Inserts u i f) (hloops : v.loops = s.loops) :
    v.Inserts u i f := by
  obtain ⟨here, others, phase, batch, called⟩ := h
  unfold trace at *
  rw [← hloops] at *
  exact ⟨here, others, phase, batch, called⟩

theorem queueInLoop_called (s : TcpServer) (i j : LoopId) (f : ServerFunctor) :
    ((s.queueInLoop i f).loops j).called = (s.loops j).called := by
  rw [queueInLoop, setLoop_loops]
  split
  · rename_i hj
    rw [hj]
  · rfl

theorem queueInLoop_inserts (s : TcpServer) (i : LoopId) (f : ServerFunctor) :
    s.Inserts (s.queueInLoop i f) i f where
  here := by
    refine ⟨s.trace i, [], (List.append_nil _).symm, ?_⟩
    simp [trace, queueInLoop, setLoop_loops]
  others := fun j hj ↦ by simp [trace, queueInLoop, setLoop_loops, hj]
  phase := setLoop_keeps ServerLoop.phase rfl
  batch := setLoop_keeps (fun l ↦ l.functors.batch) rfl
  called := fun j g _ ↦ by rw [queueInLoop_called]

/-- A functor that `runInLoop` runs at once. -/
theorem ran_inserts (s : TcpServer) (i : LoopId) (f : ServerFunctor) :
    s.Inserts (s.ran i f) i f where
  here := by
    refine ⟨(s.loops i).called, (s.loops i).functors.waiting, rfl, ?_⟩
    simp [trace, ran, setLoop_loops]
  others := fun j hj ↦ by simp [trace, ran, setLoop_loops, hj]
  phase := setLoop_keeps ServerLoop.phase rfl
  batch := setLoop_keeps (fun l ↦ l.functors.batch) rfl
  called := fun j g hg ↦ by
    rw [ran, setLoop_loops]
    split
    · rename_i hj
      simp [hj, hg]
    · rfl

/-- `runInLoop` of a functor that leaves the server alone, whatever thread it is called on. -/
theorem runInLoop_inserts (s : TcpServer) (caller i : LoopId) (conn : ConnPtr) :
    ∃ loops, s.runInLoop caller i (.connectEstablished conn) = { s with loops := loops } ∧
      s.Inserts { s with loops := loops } i (.connectEstablished conn) := by
  unfold runInLoop
  split
  · exact ⟨_, rfl, ran_inserts s i _⟩
  · exact ⟨_, rfl, queueInLoop_inserts s i _⟩

theorem Inserts.callsOf_of_not (h : s.Inserts u i f) (hf : f.isCallOf conn = false)
    (j : LoopId) : u.callsOf j conn = s.callsOf j conn := by
  unfold callsOf
  by_cases hj : j = i
  · subst hj
    obtain ⟨front, back, hs, hu⟩ := h.here
    rw [hs, hu, List.filter_append, List.filter_append, List.filter_cons_of_neg (by simp [hf])]
  · rw [h.others j hj]

theorem Inserts.callsOf_of_nil (h : s.Inserts u i f) (hf : f.isCallOf conn = true)
    (hnil : s.callsOf i conn = []) : u.callsOf i conn = [f] := by
  obtain ⟨front, back, hs, hu⟩ := h.here
  rw [callsOf, hs, List.filter_append, List.append_eq_nil_iff] at hnil
  rw [callsOf, hu, List.filter_append, List.filter_cons_of_pos hf, hnil.1, hnil.2]
  rfl

theorem Inserts.callsOf_of_ne (h : s.Inserts u i f) (hj : j ≠ i) :
    u.callsOf j conn = s.callsOf j conn := by
  rw [callsOf, callsOf, h.others j hj]

theorem Inserts.count (h : s.Inserts u i f) (g : ServerFunctor) (j : LoopId) :
    (u.trace j).count g = (s.trace j).count g + if j = i ∧ f = g then 1 else 0 := by
  by_cases hj : j = i
  · subst hj
    obtain ⟨front, back, hs, hu⟩ := h.here
    rw [hs, hu, List.count_append, List.count_append, List.count_cons]
    simp only [beq_iff_eq, true_and]
    omega
  · rw [h.others j hj]
    simp [hj]

theorem callsOf_queueInLoop (hf : f.isCallOf conn = true) :
    (s.queueInLoop i f).callsOf i conn = s.callsOf i conn ++ [f] := by
  unfold callsOf trace
  rw [queueInLoop, setLoop_loops, if_pos rfl]
  simp [hf]

theorem removeConnectionInLoop_inserts (s : TcpServer) (conn : ConnPtr) :
    s.Inserts (s.removeConnectionInLoop conn) conn.loop (.conncetDestoryed conn) :=
  Inserts.of_loops (queueInLoop_inserts _ conn.loop _) rfl

theorem removeConnectionInLoop_callsOf (s : TcpServer) (conn : ConnPtr) :
    (s.removeConnectionInLoop conn).callsOf conn.loop conn =
      s.callsOf conn.loop conn ++ [.conncetDestoryed conn] :=
  callsOf_queueInLoop (by simp [ServerFunctor.isCallOf])

/-- What a change of a loop leaves of the removals. -/
theorem removed_setLoop {l : ServerLoop} (hl : l.called = (s.loops i).called) :
    (s.setLoop i l).Removed conn ↔ s.Removed conn := by
  unfold Removed
  rw [setLoop_keeps ServerLoop.called hl]

theorem removed_ran : (s.ran i f).Removed conn ↔
    s.Removed conn ∨ i = .base ∧ f = .removeConnectionInLoop conn := by
  unfold Removed
  rw [ran, setLoop_loops]
  split
  · rename_i hi
    simp [← hi, eq_comm]
  · rename_i hi
    simp [Ne.symm hi]

theorem removed_removeConnectionInLoop {c : ConnPtr} :
    (s.removeConnectionInLoop conn).Removed c ↔ s.Removed c := by
  unfold Removed
  rw [removeConnectionInLoop, queueInLoop_called]

/-- A functor that comes out of the queue and is run. -/
theorem ran_popped (s : TcpServer) (i : LoopId) (f : ServerFunctor)
    (q : Batch.Queue ServerFunctor) :
    (s.setLoop i { s.loops i with functors := q }).ran i f =
      s.setLoop i { s.loops i with functors := q, called := (s.loops i).called ++ [f] } := by
  rw [ran, setLoop_setLoop, setLoop_loops, if_pos rfl]

end Loops

end TcpServer

end Netlib
