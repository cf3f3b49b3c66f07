import Netlib.Net.ServerTable

/-!
# The end of a `TcpServer`

The destructor goes through `_connections` on the thread of the server's loop, and then joins the
I/O threads as the pool is destroyed (`net/TcpServer.cc`, `~EventLoopThread`, `EventLoop::quit`).
The I/O loops go on meanwhile: a connection may close that the destructor has passed, and a loop
leaves when it finds `_quit` set behind its functors.
-/

namespace Netlib

inductive ServerStage where
  | alive
  /-- In the `for` of the destructor; `rest` are the entries still to come. -/
  | closing (rest : List ConnPtr)
  /-- In the destructor of the pool, at the thread `k`; `told` when its `quit` has been called. -/
  | joining (k : Nat) (told : Bool)
  | gone
deriving DecidableEq, Repr

/-- A server with the threads of its loops, from its start to behind its destructor. -/
structure ServerLife where
  server : TcpServer
  stage : ServerStage
  /-- The I/O threads that have left their loops. -/
  exited : Nat → Bool
  /-- The connections whose entries the destructor has reset, in order. -/
  destroyed : List ConnPtr
  /-- Those of them whose loop was in its functors then. -/
  late : List ConnPtr
  /-- The step that has used the server behind its destructor. -/
  dangling : Option TcpServer.Label

/-- One round of the `for` of the destructor. -/
def TcpServer.destruct (s : TcpServer) (conn : ConnPtr) : TcpServer :=
  { s with connections := s.connections.erase conn.name }.runInLoop .base conn.loop
    (.conncetDestoryed conn)

namespace ServerLife

def init (name : List Char) (listenAddr : SockAddr) (numThreads : Nat) : ServerLife where
  server := .init name listenAddr numThreads
  stage := .alive
  exited := fun _ ↦ false
  destroyed := []
  late := []
  dangling := none

/-- `_quit` of the loop `i` of the pool. -/
def quits (s : ServerLife) (i : Nat) : Bool :=
  match s.stage with
  | .joining k told => decide (i < k) || told && decide (i = k)
  | .gone => true
  | _ => false

/-- The thread of the loop is in `loop`. -/
def looping (s : ServerLife) : LoopId → Bool
  -- the destructor runs on the thread of the server's own loop
  | .base => s.stage = .alive || s.stage = .gone
  | .io i => !s.exited i

/-- The step can be taken, as far as the destructor goes. -/
def mayRun (s : ServerLife) : TcpServer.Label → Bool
  | .newConnection => s.stage = .alive
  | .handleClose conn => s.looping conn.loop
  | .queueInLoop .base => true
  | .queueInLoop (.io i) => !s.exited i
  | .dpPendingFunctors i | .functor i | .functorReturn i => s.looping i

/-- The step uses the `TcpServer`. -/
def usesServer (s : ServerLife) : TcpServer.Label → Bool
  | .newConnection | .handleClose _ => true
  | .functor .base =>
    match (s.server.loops .base).functors.next with
    | some (.removeConnectionInLoop _, _) => true
    | _ => false
  | _ => false

/-- The loops behind the step: one that is told to quit leaves at the end of its functors. -/
def leaves (s : ServerLife) (l : TcpServer.Label) (i : Nat) : Bool :=
  l = .functor (.io i) && (s.server.loops (.io i)).functors.batch.isEmpty && s.quits i

inductive Label where
  | server (l : TcpServer.Label)
  /-- The destructor begins, with the entries of `_connections` in some order. -/
  | destroy (entries : List ConnPtr)
  /-- The destructor goes on. -/
  | next
deriving DecidableEq, Repr

/-- What the destructor does next. -/
def proceed (s : ServerLife) : Option ServerLife :=
  match s.stage with
  | .closing (conn :: rest) =>
    some { s with
      server := s.server.destruct conn
      stage := .closing rest
      destroyed := s.destroyed ++ [conn]
      late := if conn.loop ≠ .base ∧ (s.server.loops conn.loop).phase ≠ .handling then
          s.late ++ [conn]
        else s.late }
  | .closing [] => some { s with stage := .joining 0 false }
  | .joining k false =>
    some { s with stage := if k < s.server.numThreads then .joining k true else .gone }
  | .joining k true => if s.exited k then some { s with stage := .joining (k + 1) false } else none
  | _ => none

def step (s : ServerLife) (l : Label) : Option ServerLife :=
  if s.dangling.isSome then none
  else
    match l with
    | .server l =>
      if s.mayRun l then
        (s.server.step l).map fun server ↦
          if s.stage = .gone ∧ s.usesServer l then { s with dangling := some l }
          else { s with server := server, exited := fun i ↦ s.exited i || s.leaves l i }
      else none
    | .destroy entries =>
      if s.stage = .alive ∧ (s.server.loops .base).phase ≠ .next ∧
          entries.Perm (s.server.connections.entries.map Sigma.snd) then
        some { s with stage := .closing entries }
      else none
    | .next => s.proceed

end ServerLife

namespace TcpServer

/-! ## 1. Steps apart from the server object -/

section

variable {s u : TcpServer} {gone : ConnPtr → Prop} {conn : ConnPtr} {l : Label} {i : LoopId}

/-- The step neither accepts a connection nor closes one on the server's own loop, nor does it take
one out of `_connections`. -/
def Apart (s : TcpServer) : Label → Prop
  | .newConnection => False
  | .handleClose conn => conn.loop ≠ .base
  | .functor .base =>
    ∀ conn q, (s.loops .base).functors.next ≠ some (.removeConnectionInLoop conn, q)
  | _ => True

theorem Sound.call_apart (h : s.Sound gone) {f : ServerFunctor} {q : Batch.Queue ServerFunctor}
    (hphase : (s.loops i).phase = .next) (hnext : (s.loops i).functors.next = some (f, q))
    (hf : ∀ c, f ≠ .removeConnectionInLoop c) :
    ((s.setLoop i { s.loops i with functors := q }).call i f).Sound gone ∧
      ∀ c, ((s.setLoop i { s.loops i with functors := q }).call i f).Removed c ↔ s.Removed c := by
  have hwait := Batch.Queue.next_waiting hnext
  have hran : ((s.setLoop i { s.loops i with functors := q }).ran i f).Sound gone := by
    rw [ran_popped]
    refine h.setLoop ?_ fun hhandling ↦ ?_
    · rw [trace, hwait, List.append_assoc]
      rfl
    · rw [hphase] at hhandling
      cases hhandling
  have hremoved (c : ConnPtr) :
      ((s.setLoop i { s.loops i with functors := q }).ran i f).Removed c ↔ s.Removed c := by
    refine removed_ran.trans ((or_iff_left fun hboth ↦ hf c hboth.2).trans ?_)
    exact removed_setLoop rfl
  cases f with
  | connectEstablished c => exact ⟨hran, hremoved⟩
  | conncetDestoryed c => exact ⟨hran, hremoved⟩
  | removeConnectionInLoop c => exact (hf c rfl).elim
  | other =>
    refine ⟨hran.setLoop rfl fun hhandling ↦ ?_, fun c ↦ Iff.trans ?_ (hremoved c)⟩
    · cases hhandling
    · exact removed_setLoop rfl

/-- Such a step keeps the account, whichever connections are gone. -/
theorem Sound.apart (h : s.Sound gone) (hapart : s.Apart l) (hstep : s.step l = some u) :
    u.Sound gone ∧ ∀ c, u.Removed c ↔ s.Removed c := by
  cases step_cases hstep with
  | newConnection => exact hapart.elim
  | @handleClose conn hmem =>
    have hne : conn.loop ≠ .base := hapart
    unfold removeConnection runInLoop
    rw [if_neg hne]
    have hins := queueInLoop_inserts { s with closed := s.closed ++ [conn] } .base
      (.removeConnectionInLoop conn)
    refine ⟨h.close hmem (hins.of_loops rfl), fun c ↦ ?_⟩
    unfold Removed
    rw [queueInLoop_called]
  | @queueInLoop i =>
    refine ⟨?_, fun c ↦ ?_⟩
    · refine h.insert (fun _ ↦ rfl) (queueInLoop_inserts s i .other) h.closed ?_ fun c ↦ ?_
      · intro c hother
        cases hother
      · simp
    · unfold Removed
      rw [queueInLoop_called]
  | @dpPendingFunctors i hphase =>
    refine ⟨h.setLoop ?_ fun hhandling ↦ ?_, fun c ↦ removed_setLoop rfl⟩
    · show (s.loops i).called ++ (s.loops i).functors.take.waiting = s.trace i
      rw [Batch.Queue.take_waiting (h.batch i hphase)]
      rfl
    · cases hhandling
  | @functor i f q hphase hnext =>
    refine h.call_apart hphase hnext fun c hf ↦ ?_
    subst hf
    -- it would be on the loop of the server
    cases i with
    | base => exact hapart c q hnext
    | io i =>
      have hzero := h.away (.io i) c (by simp)
      rw [trace, Batch.Queue.next_waiting hnext] at hzero
      simp at hzero
  | batchEnd _ hnone =>
    exact ⟨h.setLoop rfl fun _ ↦ Batch.Queue.next_eq_none.mp hnone, fun c ↦ removed_setLoop rfl⟩
  | functorReturn =>
    refine ⟨h.setLoop rfl fun hhandling ↦ ?_, fun c ↦ removed_setLoop rfl⟩
    cases hhandling

/-- A connection on the server's own loop has been established at once. -/
def Prompt (s : TcpServer) : Prop :=
  ∀ conn ∈ s.accepted, conn.loop = .base → .connectEstablished conn ∈ (s.loops .base).called

/-- A loop that moves on, and runs nothing. -/
theorem moved_called {l : ServerLoop} {f : ServerFunctor} (hl : l.called = (s.loops i).called)
    (j : LoopId) (h : f ∈ (s.loops j).called) : f ∈ ((s.setLoop i l).loops j).called := by
  have hkeeps : ((s.setLoop i l).loops j).called = (s.loops j).called :=
    setLoop_keeps ServerLoop.called hl j
  rw [hkeeps]
  exact h

theorem ran_called (f g : ServerFunctor) (j : LoopId) (h : g ∈ (s.loops j).called) :
    g ∈ ((s.ran i f).loops j).called := by
  rw [ran, setLoop_loops]
  split
  · rename_i hj
    subst hj
    exact List.mem_append_left _ h
  · exact h

theorem call_called (f g : ServerFunctor) (j : LoopId) (h : g ∈ (s.loops j).called) :
    g ∈ ((s.call i f).loops j).called := by
  cases f with
  | connectEstablished c => exact ran_called _ g j h
  | conncetDestoryed c => exact ran_called _ g j h
  | removeConnectionInLoop c =>
    rw [call, TcpServer.removeConnectionInLoop, queueInLoop_called]
    exact ran_called _ g j h
  | other =>
    refine moved_called ?_ j (ran_called .other g j h)
    rfl

theorem runInLoop_called (caller : LoopId) (f g : ServerFunctor) (j : LoopId)
    (h : g ∈ (s.loops j).called) : g ∈ ((s.runInLoop caller i f).loops j).called := by
  unfold runInLoop
  split
  · exact call_called f g j h
  · rw [queueInLoop_called]
    exact h

/-- What has been run stays in the record. -/
theorem step_called (hstep : s.step l = some u) (f : ServerFunctor) (j : LoopId)
    (h : f ∈ (s.loops j).called) : f ∈ (u.loops j).called := by
  cases step_cases hstep with
  | newConnection => exact runInLoop_called (s := s.accept) .base _ f j h
  | @handleClose conn =>
    exact runInLoop_called (s := { s with closed := s.closed ++ [conn] }) conn.loop _ f j h
  | queueInLoop =>
    rw [queueInLoop_called]
    exact h
  | dpPendingFunctors =>
    refine moved_called ?_ j h
    rfl
  | functor =>
    refine call_called _ f j (moved_called ?_ j h)
    rfl
  | batchEnd =>
    refine moved_called ?_ j h
    rfl
  | functorReturn =>
    refine moved_called ?_ j h
    rfl

theorem step_accepted (hstep : s.step l = some u) (hl : l ≠ .newConnection) :
    u.accepted = s.accepted := by
  cases step_cases hstep with
  | newConnection => exact (hl rfl).elim
  | handleClose => exact (runInLoop_records ..).2
  | functor => exact (call_records ..).2
  | queueInLoop => rfl
  | dpPendingFunctors => rfl
  | batchEnd => rfl
  | functorReturn => rfl

theorem step_prompt (h : s.Prompt) (hstep : s.step l = some u) : u.Prompt := by
  intro conn hmem hbase
  by_cases hl : l = .newConnection
  · subst hl
    cases step_cases hstep with
    | newConnection =>
      rw [newConnection, (runInLoop_records ..).2] at hmem
      rcases List.mem_append.mp hmem with hold | hnew
      · exact runInLoop_called (s := s.accept) .base _ _ .base (h conn hold hbase)
      · have heq : conn = s.newConn := List.mem_singleton.mp hnew
        subst heq
        unfold newConnection runInLoop
        rw [if_pos hbase.symm, hbase]
        simp [call, ran, setLoop_loops]
  · rw [step_accepted hstep hl] at hmem
    exact step_called hstep _ .base (h conn hmem hbase)

/-! ## 2. A round of the destructor -/

/-- `runInLoop` brings `conncetDestoryed` behind the `connectEstablished` of the connection. -/
theorem ran_callsOf {c : ConnPtr} (hprompt : .connectEstablished c ∈ (s.loops i).called)
    (hup : s.callsOf i c = [.connectEstablished c]) :
    (s.ran i (.conncetDestoryed c)).callsOf i c =
      [.connectEstablished c, .conncetDestoryed c] := by
  have hself : ServerFunctor.isCallOf c (.connectEstablished c) = true := by
    simp [ServerFunctor.isCallOf]
  have hdown : ServerFunctor.isCallOf c (.conncetDestoryed c) = true := by
    simp [ServerFunctor.isCallOf]
  unfold callsOf trace at hup ⊢
  rw [List.filter_append] at hup
  have hmem : .connectEstablished c ∈ (s.loops i).called.filter (·.isCallOf c) :=
    List.mem_filter.mpr ⟨hprompt, hself⟩
  have hwaiting : (s.loops i).functors.waiting.filter (·.isCallOf c) = [] := by
    have hlen := congrArg List.length hup
    rw [List.length_append, List.length_singleton] at hlen
    have hpos := List.length_pos_of_mem hmem
    exact List.length_eq_zero_iff.mp (by omega)
  rw [hwaiting, List.append_nil] at hup
  rw [ran, setLoop_loops, if_pos rfl, List.filter_append, List.filter_append, hup, hwaiting,
    List.filter_cons_of_pos hdown]
  rfl

theorem destruct_eq (s : TcpServer) (conn : ConnPtr) : ∃ loops, s.destruct conn =
    { s with connections := s.connections.erase conn.name, loops := loops } := by
  unfold destruct runInLoop
  split
  · exact ⟨_, rfl⟩
  · exact ⟨_, rfl⟩

theorem destruct_inserts (s : TcpServer) (conn : ConnPtr) :
    s.Inserts (s.destruct conn) conn.loop (.conncetDestoryed conn) := by
  unfold destruct runInLoop
  split
  · rename_i hbase
    rw [← hbase]
    exact (ran_inserts { s with connections := s.connections.erase conn.name } .base _).of_loops rfl
  · exact (queueInLoop_inserts { s with connections := s.connections.erase conn.name } conn.loop
      _).of_loops rfl

theorem destruct_callsOf (hprompt : s.Prompt) (hmem : conn ∈ s.accepted)
    (hup : s.callsOf conn.loop conn = [.connectEstablished conn]) :
    (s.destruct conn).callsOf conn.loop conn =
      [.connectEstablished conn, .conncetDestoryed conn] := by
  unfold destruct runInLoop
  split
  · rename_i hbase
    rw [← hbase] at hup ⊢
    exact ran_callsOf (s := { s with connections := s.connections.erase conn.name })
      (hprompt conn hmem hbase.symm) hup
  · have hlast : (TcpServer.queueInLoop { s with connections := s.connections.erase conn.name }
        conn.loop (.conncetDestoryed conn)).callsOf conn.loop conn =
        s.callsOf conn.loop conn ++ [.conncetDestoryed conn] :=
      callsOf_queueInLoop (by simp [ServerFunctor.isCallOf])
    rw [hlast, hup]
    rfl

/-- A round of the destructor keeps the account: one connection more is gone. -/
theorem Sound.destruct (h : s.Sound gone) (hprompt : s.Prompt) (hmem : conn ∈ s.accepted)
    (hup : ¬ gone conn) (hfew : s.accepted.length < 2 ^ 31) :
    (s.destruct conn).Sound fun c ↦ gone c ∨ c = conn := by
  have hins := destruct_inserts s conn
  have hself := destruct_callsOf hprompt hmem (h.up conn hmem hup)
  obtain ⟨loops, heq⟩ := destruct_eq s conn
  rw [heq] at hins hself ⊢
  have hother {c : ConnPtr} (hne : c ≠ conn) (j : LoopId) :
      TcpServer.callsOf { s with connections := s.connections.erase conn.name, loops := loops } j
        c = s.callsOf j c :=
    hins.callsOf_of_not (by simpa [ServerFunctor.isCallOf] using hne.symm) j
  refine ⟨h.nextConnId, h.nextLoop, h.ids, h.inserted, h.erased, h.erase_table hmem hfew, h.closed,
    ?_, ?_, ?_, ?_, ?_, hins.batch_nil h⟩
  · intro c
    show _ = s.closed.count c
    rw [hins.count]
    simpa using h.removals c
  · intro j c hj
    rw [hins.count]
    simpa using h.away j c hj
  · intro c hc hgone
    rw [not_or] at hgone
    rw [hother hgone.2]
    exact h.up c hc hgone.1
  · intro c hc hgone
    by_cases hne : c = conn
    · rw [hne]
      exact hself
    · rw [hother hne]
      exact h.down c hc (hgone.resolve_right hne)
  · intro j c hj
    by_cases hne : c = conn
    · subst hne
      rw [hins.callsOf_of_ne (hj hmem)]
      exact h.elsewhere j c fun _ ↦ hj hmem
    · rw [hother hne]
      exact h.elsewhere j c hj

/-! ## 3. The other loops -/

/-- The loop is where it was, with functors more at most. -/
structure Grows (s u : TcpServer) (i : LoopId) : Prop where
  batch : (u.loops i).functors.batch = (s.loops i).functors.batch
  phase : (u.loops i).phase = (s.loops i).phase
  pending : ∀ f ∈ (s.loops i).functors.pending, f ∈ (u.loops i).functors.pending

theorem Grows.trans {v : TcpServer} (h : s.Grows u i) (h' : u.Grows v i) : s.Grows v i :=
  ⟨h'.batch.trans h.batch, h'.phase.trans h.phase, fun f hf ↦ h'.pending f (h.pending f hf)⟩

theorem setLoop_grows {l : ServerLoop} {j : LoopId} (h : j ≠ i) : s.Grows (s.setLoop j l) i := by
  have hsame : (s.setLoop j l).loops i = s.loops i := by
    rw [setLoop_loops, if_neg h.symm]
  refine ⟨?_, ?_, fun f hf ↦ ?_⟩
  · rw [hsame]
  · rw [hsame]
  · rw [hsame]
    exact hf

theorem ran_grows (j : LoopId) (f : ServerFunctor) : s.Grows (s.ran j f) i := by
  by_cases hj : j = i
  · subst hj
    have hself : (s.ran j f).loops j = { s.loops j with called := (s.loops j).called ++ [f] } := by
      rw [ran, setLoop_loops, if_pos rfl]
    refine ⟨?_, ?_, fun g hg ↦ ?_⟩
    · rw [hself]
    · rw [hself]
    · rw [hself]
      exact hg
  · exact setLoop_grows hj

theorem queueInLoop_grows (j : LoopId) (f : ServerFunctor) : s.Grows (s.queueInLoop j f) i := by
  by_cases hj : j = i
  · subst hj
    have hself : (s.queueInLoop j f).loops j =
        { s.loops j with functors := (s.loops j).functors.push f } := by
      rw [queueInLoop, setLoop_loops, if_pos rfl]
    refine ⟨?_, ?_, fun g hg ↦ ?_⟩
    · rw [hself]
      rfl
    · rw [hself]
    · rw [hself]
      exact List.mem_append_left _ hg
  · exact setLoop_grows hj

theorem call_grows (j : LoopId) (f : ServerFunctor) (h : f = .other → j ≠ i) :
    s.Grows (s.call j f) i := by
  cases f with
  | connectEstablished c => exact ran_grows j _
  | conncetDestoryed c => exact ran_grows j _
  | removeConnectionInLoop c =>
    have hfirst : s.Grows (s.ran j (.removeConnectionInLoop c)) i := ran_grows j _
    refine hfirst.trans ?_
    exact ⟨(queueInLoop_grows c.loop _).batch, (queueInLoop_grows c.loop _).phase,
      (queueInLoop_grows c.loop _).pending⟩
  | other =>
    have hfirst : s.Grows (s.ran j .other) i := ran_grows j _
    exact hfirst.trans (setLoop_grows (h rfl))

theorem runInLoop_grows (caller j : LoopId) {f : ServerFunctor} (h : f ≠ .other) :
    s.Grows (s.runInLoop caller j f) i := by
  unfold runInLoop
  split
  · exact call_grows j f fun hf ↦ (h hf).elim
  · exact queueInLoop_grows j f

/-- What a loop has to do grows, unless it is its own step. -/
theorem step_grows (hstep : s.step l = some u) (hd : l ≠ .dpPendingFunctors i)
    (hf : l ≠ .functor i) (hr : l ≠ .functorReturn i) : s.Grows u i := by
  cases step_cases hstep with
  | newConnection =>
    have hgrows : s.accept.Grows s.newConnection i := runInLoop_grows .base _ (by simp)
    exact ⟨hgrows.batch, hgrows.phase, hgrows.pending⟩
  | @handleClose conn =>
    have hgrows := runInLoop_grows (s := { s with closed := s.closed ++ [conn] }) (i := i) conn.loop
      .base (f := .removeConnectionInLoop conn) (by simp)
    exact ⟨hgrows.batch, hgrows.phase, hgrows.pending⟩
  | queueInLoop => exact queueInLoop_grows _ _
  | @dpPendingFunctors j =>
    refine setLoop_grows fun hj ↦ hd ?_
    rw [hj]
  | @functor j f q =>
    have hj : j ≠ i := fun hj ↦ hf (by rw [hj])
    exact (setLoop_grows hj).trans (call_grows j f fun _ ↦ hj)
  | @batchEnd j =>
    refine setLoop_grows fun hj ↦ hf ?_
    rw [hj]
  | @functorReturn j =>
    refine setLoop_grows fun hj ↦ hr ?_
    rw [hj]

theorem destruct_grows : s.Grows (s.destruct conn) i := by
  have hgrows := runInLoop_grows (s := { s with connections := s.connections.erase conn.name })
    (i := i) .base conn.loop (f := .conncetDestoryed conn) (by simp)
  exact ⟨hgrows.batch, hgrows.phase, hgrows.pending⟩

theorem setPhase_batch (j : LoopId) (phase : ServerPhase) :
    ((s.setPhase j phase).loops i).functors.batch = (s.loops i).functors.batch := by
  refine setLoop_keeps (fun l ↦ l.functors.batch) ?_ i
  rfl

theorem call_batch (j : LoopId) (f : ServerFunctor) :
    ((s.call j f).loops i).functors.batch = (s.loops i).functors.batch := by
  cases f with
  | other =>
    rw [call, setPhase_batch]
    exact (ran_grows j .other).batch
  | connectEstablished c => exact (call_grows j (.connectEstablished c) (by simp)).batch
  | conncetDestoryed c => exact (call_grows j (.conncetDestoryed c) (by simp)).batch
  | removeConnectionInLoop c => exact (call_grows j (.removeConnectionInLoop c) (by simp)).batch

theorem call_self {c : ConnPtr} :
    .conncetDestoryed c ∈ ((s.call i (.conncetDestoryed c)).loops i).called := by
  rw [call, ran, setLoop_loops, if_pos rfl]
  exact List.mem_append_right _ List.mem_cons_self

/-- The `conncetDestoryed` of a connection has run, or its loop, which has not `left`, will come to
it before it looks at `_quit`. -/
def Promised (s : TcpServer) (left : Bool) (i : LoopId) (conn : ConnPtr) : Prop :=
  .conncetDestoryed conn ∈ (s.loops i).called ∨
    .conncetDestoryed conn ∈ (s.loops i).functors.batch ∨
    .conncetDestoryed conn ∈ (s.loops i).functors.pending ∧ (s.loops i).phase = .handling ∧
      left = false

theorem Promised.grows {left left' : Bool} (h : s.Promised left i conn) (hgrows : s.Grows u i)
    (hcalled : ∀ f ∈ (s.loops i).called, f ∈ (u.loops i).called)
    (hleft : left = false → left' = false) : u.Promised left' i conn := by
  rcases h with hrun | hbatch | ⟨hpending, hphase, hnot⟩
  · exact .inl (hcalled _ hrun)
  · rw [← hgrows.batch] at hbatch
    exact .inr (.inl hbatch)
  · exact .inr (.inr ⟨hgrows.pending _ hpending, hgrows.phase.trans hphase, hleft hnot⟩)

/-- The loops of the connections are those of the pool. -/
theorem Sound.io_lt (h : s.Sound gone) {k j : Nat} (hk : s.accepted[k]? = some conn)
    (hloop : conn.loop = .io j) : j < s.numThreads := by
  have hids := (h.ids k conn hk).2.1
  rw [hloop, loopOf] at hids
  split at hids
  · cases hids
  · rename_i hthreads
    rw [LoopId.io.inj hids]
    exact Nat.mod_lt k (Nat.pos_of_ne_zero hthreads)

/-- A step of any loop keeps the promise. -/
theorem step_promised {left left' : Bool} (h : s.Promised left i conn)
    (hbatch : (s.loops i).phase = .handling → (s.loops i).functors.batch = [])
    (hstep : s.step l = some u) (hleft : l ≠ .functor i → left = false → left' = false) :
    u.Promised left' i conn := by
  have hcalled (f : ServerFunctor) (hf : f ∈ (s.loops i).called) : f ∈ (u.loops i).called :=
    step_called hstep f i hf
  by_cases hd : l = .dpPendingFunctors i
  · subst hd
    cases step_cases hstep with
    | dpPendingFunctors hphase =>
      rcases h with hrun | hmem | ⟨hpending, -, -⟩
      · exact .inl (hcalled _ hrun)
      · rw [hbatch hphase] at hmem
        cases hmem
      · refine .inr (.inl ?_)
        rw [setLoop_loops, if_pos rfl]
        exact hpending
  by_cases hf : l = .functor i
  · subst hf
    cases step_cases hstep with
    | functor hphase hnext =>
      rcases h with hrun | hmem | ⟨-, hhandling, -⟩
      · exact .inl (hcalled _ hrun)
      · obtain ⟨rest, hfront, rfl⟩ := Batch.Queue.next_eq_some.mp hnext
        rw [hfront] at hmem
        rcases List.mem_cons.mp hmem with hhead | hrest
        · rw [← hhead]
          exact .inl call_self
        · refine .inr (.inl ?_)
          rw [call_batch, setLoop_loops, if_pos rfl]
          exact hrest
      · rw [hphase] at hhandling
        cases hhandling
    | batchEnd hphase hnone =>
      rcases h with hrun | hmem | ⟨-, hhandling, -⟩
      · exact .inl (hcalled _ hrun)
      · rw [Batch.Queue.next_eq_none.mp hnone] at hmem
        cases hmem
      · rw [hphase] at hhandling
        cases hhandling
  by_cases hr : l = .functorReturn i
  · subst hr
    cases step_cases hstep with
    | functorReturn hphase =>
      rcases h with hrun | hmem | ⟨-, hhandling, -⟩
      · exact .inl (hcalled _ hrun)
      · refine .inr (.inl ?_)
        rw [setPhase_batch]
        exact hmem
      · rw [hphase] at hhandling
        cases hhandling
  exact h.grows (step_grows hstep hd hf hr) hcalled (hleft hf)

/-- A round of the destructor keeps the promises, and makes one. -/
theorem destruct_promised {left : Bool} {c : ConnPtr} (h : s.Promised left i c) :
    (s.destruct conn).Promised left i c := by
  refine h.grows destruct_grows (fun f hf ↦ ?_) id
  exact runInLoop_called (s := { s with connections := s.connections.erase conn.name }) .base _ f i
    hf

theorem destruct_promises {left : Bool}
    (h : conn.loop = .base ∨ (s.loops conn.loop).phase = .handling ∧ left = false) :
    (s.destruct conn).Promised left conn.loop conn := by
  unfold destruct runInLoop
  split
  · rename_i hbase
    rw [← hbase]
    exact .inl call_self
  · rename_i hne
    obtain ⟨hphase, hleft⟩ := h.resolve_left fun hbase ↦ hne hbase.symm
    refine .inr (.inr ⟨?_, ?_, hleft⟩)
    · rw [queueInLoop, setLoop_loops, if_pos rfl]
      exact List.mem_append_right _ List.mem_cons_self
    · rw [queueInLoop, setLoop_loops, if_pos rfl]
      exact hphase

end

end TcpServer

namespace ServerLife

/-! ## 4. What holds in every state -/

/-- The connection has left `_connections`. -/
def Gone (s : ServerLife) (conn : ConnPtr) : Prop := s.server.Removed conn ∨ conn ∈ s.destroyed

/-- The thread of the loop has left it. -/
def left (s : ServerLife) : LoopId → Bool
  | .base => false
  | .io i => s.exited i

/-- What the destructor has come to. -/
def Progress (s : ServerLife) : ServerStage → Prop
  | .alive => s.destroyed = []
  | .closing rest =>
    rest.Nodup ∧ ∀ conn, conn ∈ rest ↔ conn ∈ s.server.accepted ∧ ¬ s.Gone conn
  | .joining k _ =>
    (∀ conn ∈ s.server.accepted, s.Gone conn) ∧ ∀ i < k, s.exited i = true
  | .gone =>
    (∀ conn ∈ s.server.accepted, s.Gone conn) ∧ ∀ i < s.server.numThreads, s.exited i = true

structure Torn (s : ServerLife) : Prop where
  sound : s.server.Sound s.Gone
  prompt : s.server.Prompt
  members : ∀ conn ∈ s.destroyed, conn ∈ s.server.accepted
  progress : s.Progress s.stage
  exited : ∀ i, s.exited i = true →
    s.quits i = true ∧ (s.server.loops (.io i)).functors.batch = []
  atOnce : ∀ conn ∈ s.destroyed, conn.loop = .base →
    .conncetDestoryed conn ∈ (s.server.loops .base).called
  onTime : ∀ conn ∈ s.destroyed, conn ∉ s.late →
    s.server.Promised (s.left conn.loop) conn.loop conn
  /-- The server is used behind its destructor only for a connection that closed. -/
  dangling : ∀ l, s.dangling = some l → s.stage = .gone ∧
    (l = .functor .base ∧ (∃ conn ∈ s.server.closed, ¬ s.server.Removed conn) ∨
      ∃ conn ∈ s.server.accepted, l = .handleClose conn ∧ conn.loop = .base)

section

variable {s t : ServerLife} {u : TcpServer} {l : TcpServer.Label}

theorem init_torn (name : List Char) (listenAddr : SockAddr) (numThreads : Nat) :
    (init name listenAddr numThreads).Torn where
  sound := by
    refine (TcpServer.init_sound name listenAddr numThreads).congr fun c ↦ ?_
    exact or_iff_left List.not_mem_nil
  prompt := fun c hc ↦ (List.not_mem_nil hc).elim
  members := fun c hc ↦ (List.not_mem_nil hc).elim
  progress := rfl
  exited := by
    intro i hi
    cases hi
  atOnce := fun c hc ↦ (List.not_mem_nil hc).elim
  onTime := fun c hc ↦ (List.not_mem_nil hc).elim
  dangling := by
    intro l hl
    cases hl

/-- Behind the beginning of the destructor the other loops go on apart from the server. -/
theorem apart_of_mayRun (hmay : s.mayRun l = true) (hstage : s.stage ≠ .alive)
    (huse : ¬ (s.stage = .gone ∧ s.usesServer l = true)) : s.server.Apart l := by
  have hbase (h : s.looping .base = true) : s.stage = .gone := by
    simpa [looping, hstage] using h
  cases l with
  | newConnection => exact hstage (by simpa [mayRun] using hmay)
  | handleClose conn =>
    intro hloop
    have hlooping : s.looping .base = true := by
      rw [← hloop]
      exact hmay
    exact huse ⟨hbase hlooping, rfl⟩
  | functor i =>
    cases i with
    | io i => trivial
    | base =>
      intro conn q hnext
      refine huse ⟨hbase hmay, ?_⟩
      simp [usesServer, hnext]
  | queueInLoop i => trivial
  | dpPendingFunctors i => trivial
  | functorReturn i => trivial

theorem Torn.sound_step (h : s.Torn) (hbounded : u.Bounded) (hmay : s.mayRun l = true)
    (huse : ¬ (s.stage = .gone ∧ s.usesServer l = true)) (hstep : s.server.step l = some u) :
    u.Sound (fun c ↦ u.Removed c ∨ c ∈ s.destroyed) ∧
      (s.stage ≠ .alive → u.accepted = s.server.accepted ∧
        ∀ c, u.Removed c ↔ s.server.Removed c) := by
  by_cases hstage : s.stage = .alive
  · have hnone : s.destroyed = [] := by
      have hprogress := h.progress
      rw [hstage] at hprogress
      exact hprogress
    have hgone (v : TcpServer) (c : ConnPtr) :
        v.Removed c ∨ c ∈ s.destroyed ↔ v.Removed c := by
      rw [hnone]
      exact or_iff_left List.not_mem_nil
    have hsound := h.sound.congr fun c ↦ (hgone s.server c).symm
    refine ⟨(TcpServer.step_sound hsound hbounded hstep).congr (hgone u), ?_⟩
    exact fun hnot ↦ (hnot hstage).elim
  · obtain ⟨hsound, hremoved⟩ := h.sound.apart (apart_of_mayRun hmay hstage huse) hstep
    refine ⟨hsound.congr fun c ↦ or_congr_left (hremoved c), fun _ ↦ ⟨?_, hremoved⟩⟩
    refine TcpServer.step_accepted hstep fun hl ↦ hstage ?_
    subst hl
    simpa [mayRun] using hmay

theorem step_numThreads {s u : TcpServer} {l : TcpServer.Label} (hstep : s.step l = some u) :
    u.numThreads = s.numThreads := by
  cases TcpServer.step_cases hstep with
  | newConnection =>
    unfold TcpServer.newConnection TcpServer.runInLoop
    split
    · rfl
    · rfl
  | handleClose =>
    unfold TcpServer.removeConnection TcpServer.runInLoop
    split
    · rfl
    · rfl
  | @functor i f q => cases f <;> rfl
  | queueInLoop => rfl
  | dpPendingFunctors => rfl
  | batchEnd => rfl
  | functorReturn => rfl

/-- A loop that has left takes no step. -/
theorem batch_of_exited {i : Nat} (hmay : s.mayRun l = true) (hstep : s.server.step l = some u)
    (hi : s.exited i = true) :
    (u.loops (.io i)).functors.batch = (s.server.loops (.io i)).functors.batch := by
  have hnot : ¬ s.looping (.io i) = true := by simp [looping, hi]
  refine (TcpServer.step_grows hstep ?_ ?_ ?_).batch
  · rintro rfl
    exact hnot hmay
  · rintro rfl
    exact hnot hmay
  · rintro rfl
    exact hnot hmay

theorem leaves_eq {i : Nat} (h : s.leaves l i = true) :
    l = .functor (.io i) ∧ (s.server.loops (.io i)).functors.batch = [] ∧ s.quits i = true := by
  simpa [leaves, and_assoc] using h

/-- Any step of the threads but the destructor's. -/
theorem Torn.server (h : s.Torn) (hbounded : u.Bounded) (hmay : s.mayRun l = true)
    (huse : ¬ (s.stage = .gone ∧ s.usesServer l = true)) (hstep : s.server.step l = some u)
    (hquiet : s.dangling = none) :
    Torn { s with server := u, exited := fun i ↦ s.exited i || s.leaves l i } := by
  obtain ⟨hsound, hrest⟩ := h.sound_step hbounded hmay huse hstep
  have haccepted (c : ConnPtr) (hc : c ∈ s.server.accepted) : c ∈ u.accepted := by
    by_cases hstage : s.stage = .alive
    · cases TcpServer.step_cases hstep with
      | newConnection =>
        rw [TcpServer.newConnection, (TcpServer.runInLoop_records ..).2]
        exact List.mem_append_left _ hc
      | _ =>
        rw [TcpServer.step_accepted hstep (by simp)]
        exact hc
    · rw [(hrest hstage).1]
      exact hc
  refine ⟨hsound, TcpServer.step_prompt h.prompt hstep, fun c hc ↦ haccepted c (h.members c hc),
    ?_, ?_, fun c hc hbase ↦ TcpServer.step_called hstep _ .base (h.atOnce c hc hbase), ?_, ?_⟩
  · have hprogress := h.progress
    show Progress _ s.stage
    cases hstage : s.stage with
    | alive =>
      rw [hstage] at hprogress
      exact hprogress
    | closing rest =>
      rw [hstage] at hprogress
      obtain ⟨hacc, hremoved⟩ := hrest (by simp [hstage])
      refine ⟨hprogress.1, fun c ↦ ?_⟩
      simp only [Gone, hacc, hremoved]
      exact hprogress.2 c
    | joining k told =>
      rw [hstage] at hprogress
      obtain ⟨hacc, hremoved⟩ := hrest (by simp [hstage])
      refine ⟨fun c hc ↦ ?_, fun i hi ↦ ?_⟩
      · rw [hacc] at hc
        simp only [Gone, hremoved]
        exact hprogress.1 c hc
      · show (s.exited i || s.leaves l i) = true
        rw [hprogress.2 i hi]
        rfl
    | gone =>
      rw [hstage] at hprogress
      obtain ⟨hacc, hremoved⟩ := hrest (by simp [hstage])
      refine ⟨fun c hc ↦ ?_, fun i hi ↦ ?_⟩
      · rw [hacc] at hc
        simp only [Gone, hremoved]
        exact hprogress.1 c hc
      · show (s.exited i || s.leaves l i) = true
        rw [step_numThreads hstep] at hi
        rw [hprogress.2 i hi]
        rfl
  · intro i hi
    rcases Bool.or_eq_true_iff.mp hi with hi | hleaves
    · obtain ⟨hquits, hempty⟩ := h.exited i hi
      exact ⟨hquits, (batch_of_exited hmay hstep hi).trans hempty⟩
    · obtain ⟨rfl, hempty, hquits⟩ := leaves_eq hleaves
      refine ⟨hquits, ?_⟩
      cases TcpServer.step_cases hstep with
      | functor _ hnext =>
        obtain ⟨rest, hfront, -⟩ := Batch.Queue.next_eq_some.mp hnext
        rw [hempty] at hfront
        cases hfront
      | batchEnd =>
        show ((s.server.setPhase (.io i) .handling).loops (.io i)).functors.batch = []
        rw [TcpServer.setPhase_batch]
        exact hempty
  · intro c hc hlate
    refine TcpServer.step_promised (h.onTime c hc hlate) (h.sound.batch c.loop) hstep ?_
    intro hl hleft
    cases hloop : c.loop with
    | base => rfl
    | io i =>
      rw [hloop] at hl hleft
      have hnot : s.exited i = false := hleft
      have hstays : s.leaves l i = false := by
        rw [Bool.eq_false_iff]
        intro hleaves
        exact hl (leaves_eq hleaves).1
      show (s.exited i || s.leaves l i) = false
      rw [hnot, hstays]
      rfl
  · intro l' hl'
    rw [hquiet] at hl'
    cases hl'

/-- The entries of `_connections`, in any order. -/
theorem Torn.entries (h : s.Torn) {entries : List ConnPtr}
    (hperm : entries.Perm (s.server.connections.entries.map Sigma.snd)) :
    entries.Nodup ∧ ∀ conn, conn ∈ entries ↔ conn ∈ s.server.accepted ∧ ¬ s.Gone conn := by
  have hentry (e : Sigma fun _ : List Char ↦ ConnPtr) : e ∈ s.server.connections.entries ↔
      e.2 ∈ s.server.accepted ∧ ¬ s.Gone e.2 ∧ e.2.name = e.1 := by
    rw [← h.sound.table e.1 e.2]
    exact AList.mem_lookup_iff.symm
  refine ⟨?_, fun conn ↦ ?_⟩
  · rw [hperm.nodup_iff]
    refine List.Nodup.map_on ?_ s.server.connections.nodupKeys.nodup
    intro e he e' he' heq
    have hname := ((hentry e).mp he).2.2
    have hname' := ((hentry e').mp he').2.2
    rw [heq] at hname
    exact Sigma.ext (hname.symm.trans hname') (heq_of_eq heq)
  · rw [hperm.mem_iff, List.mem_map]
    constructor
    · rintro ⟨e, he, rfl⟩
      obtain ⟨hmem, hgone, -⟩ := (hentry e).mp he
      exact ⟨hmem, hgone⟩
    · rintro ⟨hmem, hgone⟩
      exact ⟨⟨conn.name, conn⟩, (hentry ⟨conn.name, conn⟩).mpr ⟨hmem, hgone, rfl⟩, rfl⟩

/-- The destructor is at another place, and nothing else has changed. -/
theorem Torn.stage (h : s.Torn) {stage : ServerStage}
    (hprogress : Progress { s with stage := stage } stage)
    (hquits : ∀ i, s.quits i = true → quits { s with stage := stage } i = true)
    (hquiet : s.dangling = none) : Torn { s with stage := stage } where
  sound := h.sound
  prompt := h.prompt
  members := h.members
  progress := hprogress
  exited := fun i hi ↦ ⟨hquits i (h.exited i hi).1, (h.exited i hi).2⟩
  atOnce := h.atOnce
  onTime := h.onTime
  dangling := by
    intro l hl
    rw [hquiet] at hl
    cases hl

theorem removed_destruct {s : TcpServer} {conn c : ConnPtr} :
    (s.destruct conn).Removed c ↔ s.Removed c :=
  (TcpServer.destruct_inserts s conn).called .base _ (by simp)

theorem destruct_accepted (s : TcpServer) (conn : ConnPtr) :
    (s.destruct conn).accepted = s.accepted := by
  obtain ⟨loops, heq⟩ := TcpServer.destruct_eq s conn
  rw [heq]

theorem destruct_prompt {s : TcpServer} {conn : ConnPtr} (h : s.Prompt) :
    (s.destruct conn).Prompt := by
  intro c hc hbase
  rw [destruct_accepted] at hc
  exact TcpServer.runInLoop_called
    (s := { s with connections := s.connections.erase conn.name }) .base _ _ .base (h c hc hbase)

/-- A round of the destructor. -/
theorem Torn.round (h : s.Torn) {conn : ConnPtr} {rest : List ConnPtr} {late : List ConnPtr}
    (hfew : s.server.accepted.length < 2 ^ 31) (hstage : s.stage = .closing (conn :: rest))
    (hlate : late = if conn.loop ≠ .base ∧ (s.server.loops conn.loop).phase ≠ .handling then
      s.late ++ [conn] else s.late)
    (hquiet : s.dangling = none) :
    Torn { s with
      server := s.server.destruct conn
      stage := .closing rest
      destroyed := s.destroyed ++ [conn]
      late := late } := by
  have hprogress := h.progress
  rw [hstage] at hprogress
  obtain ⟨hnodup, hrest⟩ := hprogress
  obtain ⟨hmem, hup⟩ := (hrest conn).mp List.mem_cons_self
  have hstays (i : Nat) : s.exited i = false := by
    rw [Bool.eq_false_iff]
    intro hi
    have hquits := (h.exited i hi).1
    simp [quits, hstage] at hquits
  have hgone (c : ConnPtr) : (s.server.destruct conn).Removed c ∨ c ∈ s.destroyed ++ [conn] ↔
      s.Gone c ∨ c = conn := by
    rw [removed_destruct, List.mem_append, List.mem_singleton, ← or_assoc]
    rfl
  have hsound := h.sound.destruct h.prompt hmem hup hfew
  refine ⟨hsound.congr hgone, destruct_prompt h.prompt, fun c hc ↦ ?_, ?_, fun i hi ↦ ?_,
    fun c hc hbase ↦ ?_, fun c hc hon ↦ ?_, fun l hl ↦ ?_⟩
  · show c ∈ (s.server.destruct conn).accepted
    rw [destruct_accepted]
    rcases List.mem_append.mp hc with hc | hc
    · exact h.members c hc
    · rw [List.mem_singleton.mp hc]
      exact hmem
  · refine ⟨(List.nodup_cons.mp hnodup).2, fun c ↦ ?_⟩
    show c ∈ rest ↔ c ∈ (s.server.destruct conn).accepted ∧
      ¬ ((s.server.destruct conn).Removed c ∨ c ∈ s.destroyed ++ [conn])
    rw [destruct_accepted, hgone]
    have hbefore := hrest c
    rw [List.mem_cons] at hbefore
    have hnot : conn ∉ rest := (List.nodup_cons.mp hnodup).1
    constructor
    · intro hc
      obtain ⟨hacc, hin⟩ := hbefore.mp (.inr hc)
      refine ⟨hacc, ?_⟩
      rintro (hout | rfl)
      · exact hin hout
      · exact hnot hc
    · rintro ⟨hacc, hout⟩
      rw [not_or] at hout
      exact (hbefore.mpr ⟨hacc, hout.1⟩).resolve_left hout.2
  · have hexited : s.exited i = true := hi
    rw [hstays i] at hexited
    cases hexited
  · rcases List.mem_append.mp hc with hc | hc
    · exact TcpServer.runInLoop_called
        (s := { s.server with connections := s.server.connections.erase conn.name }) .base _ _ .base
        (h.atOnce c hc hbase)
    · have hself : c = conn := List.mem_singleton.mp hc
      subst hself
      show _ ∈ ((s.server.destruct c).loops .base).called
      unfold TcpServer.destruct TcpServer.runInLoop
      rw [if_pos hbase.symm, hbase]
      exact TcpServer.call_self
  · have hsub : c ∉ s.late := by
      intro hc'
      refine hon ?_
      show c ∈ late
      rw [hlate]
      split
      · exact List.mem_append_left _ hc'
      · exact hc'
    rcases List.mem_append.mp hc with hc | hc
    · exact TcpServer.destruct_promised (h.onTime c hc hsub)
    · have hself : c = conn := List.mem_singleton.mp hc
      subst hself
      refine TcpServer.destruct_promises ?_
      by_cases hbase : c.loop = .base
      · exact .inl hbase
      · refine .inr ⟨?_, ?_⟩
        · by_contra hphase
          refine hon ?_
          show c ∈ late
          rw [hlate, if_pos ⟨hbase, hphase⟩]
          exact List.mem_append_right _ List.mem_cons_self
        · cases hloop : c.loop with
          | base => rfl
          | io i => exact hstays i
  · have hnone : s.dangling = some l := hl
    rw [hquiet] at hnone
    cases hnone

theorem Torn.proceed (h : s.Torn) (hfew : s.server.accepted.length < 2 ^ 31)
    (hquiet : s.dangling = none) (hnext : s.proceed = some t) : t.Torn := by
  have hprogress := h.progress
  unfold ServerLife.proceed at hnext
  split at hnext <;> rename_i hstage
  · cases hnext
    exact h.round hfew hstage rfl hquiet
  · cases hnext
    rw [hstage] at hprogress
    refine h.stage ⟨fun c hc ↦ ?_, fun i hi ↦ absurd hi (Nat.not_lt_zero i)⟩ ?_ hquiet
    · by_contra hup
      exact List.not_mem_nil ((hprogress.2 c).mpr ⟨hc, hup⟩)
    · intro i hi
      simp [quits, hstage] at hi
  · cases hnext
    rename_i k
    rw [hstage] at hprogress
    by_cases hk : k < s.server.numThreads
    · rw [if_pos hk]
      refine h.stage hprogress (fun i hi ↦ ?_) hquiet
      simp only [quits, hstage, Bool.false_and, Bool.or_false, decide_eq_true_eq] at hi
      simp [quits, hi]
    · rw [if_neg hk]
      refine h.stage ⟨hprogress.1, fun i hi ↦ ?_⟩ (fun i _ ↦ rfl) hquiet
      have hi' : i < s.server.numThreads := hi
      exact hprogress.2 i (by omega)
  · rename_i k
    split at hnext
    · rename_i hexited
      cases hnext
      rw [hstage] at hprogress
      refine h.stage ⟨hprogress.1, fun i hi ↦ ?_⟩ (fun i hi ↦ ?_) hquiet
      · rcases Nat.lt_succ_iff_lt_or_eq.mp hi with hlt | rfl
        · exact hprogress.2 i hlt
        · exact hexited
      · simp only [quits, hstage, Bool.true_and, Bool.or_eq_true, decide_eq_true_eq] at hi
        have hlt : i < k + 1 := by omega
        simp [quits, hlt]
    · cases hnext
  · cases hnext

/-- A use of the server behind its destructor. -/
theorem Torn.uses (h : s.Torn) (hnodup : s.server.closed.Nodup) (hmay : s.mayRun l = true)
    (hstage : s.stage = .gone) (huse : s.usesServer l = true) (hstep : s.server.step l = some u) :
    Torn { s with dangling := some l } := by
  refine ⟨h.sound, h.prompt, h.members, h.progress, h.exited, h.atOnce, h.onTime,
    fun l' hl' ↦ ?_⟩
  have hl : l = l' := Option.some.inj hl'
  subst hl
  refine ⟨hstage, ?_⟩
  have hprogress := h.progress
  rw [hstage] at hprogress
  cases l with
  | newConnection => simp [mayRun, hstage] at hmay
  | handleClose conn =>
    cases TcpServer.step_cases hstep with
    | handleClose hmem =>
      refine .inr ⟨conn, hmem, rfl, ?_⟩
      obtain ⟨k, hk⟩ := List.mem_iff_getElem?.mp hmem
      show conn.loop = .base
      cases hloop : conn.loop with
      | base => rfl
      | io i =>
        -- the loops of the pool have been left
        have hexited := hprogress.2 i (h.sound.io_lt hk hloop)
        simp [mayRun, hloop, looping, hexited] at hmay
  | functor i =>
    cases i with
    | io i => simp [usesServer] at huse
    | base =>
      refine .inl ⟨rfl, ?_⟩
      simp only [usesServer] at huse
      split at huse
      · rename_i conn q hnext
        have hwaiting : .removeConnectionInLoop conn ∈
            (s.server.loops .base).functors.waiting := by
          rw [Batch.Queue.next_waiting hnext]
          exact List.mem_cons_self
        have hnot := h.sound.not_removed hnodup hwaiting
        refine ⟨conn, ?_, hnot.1⟩
        have hcount := h.sound.removals conn
        rw [TcpServer.trace, List.count_append] at hcount
        have hpos := List.count_pos_iff.mpr hwaiting
        show conn ∈ s.server.closed
        exact List.count_pos_iff.mp (by omega)
      · cases huse
  | queueInLoop i => simp [usesServer] at huse
  | dpPendingFunctors i => simp [usesServer] at huse
  | functorReturn i => simp [usesServer] at huse

/-- The records of the server only grow. -/
theorem bounded_of_step {l : Label} (hbounded : t.server.Bounded) (hstep : s.step l = some t) :
    s.server.Bounded := by
  unfold step at hstep
  split at hstep
  · cases hstep
  · cases l with
    | server l =>
      simp only at hstep
      split at hstep
      · obtain ⟨u, hu, rfl⟩ := Option.map_eq_some_iff.mp hstep
        split at hbounded
        · exact hbounded
        · exact TcpServer.bounded_of_step hbounded hu
      · cases hstep
    | destroy entries =>
      simp only [Option.ite_none_right_eq_some, Option.some.injEq] at hstep
      obtain ⟨-, rfl⟩ := hstep
      exact hbounded
    | next =>
      have hnext : s.proceed = some t := hstep
      unfold proceed at hnext
      split at hnext
      · cases hnext
        obtain ⟨loops, heq⟩ := TcpServer.destruct_eq s.server ‹_›
        rw [heq] at hbounded
        exact hbounded
      · cases hnext
        exact hbounded
      · cases hnext
        exact hbounded
      · split at hnext
        · cases hnext
          exact hbounded
        · cases hnext
      · cases hnext

theorem step_torn {l : Label} (h : s.Torn) (hbounded : t.server.Bounded)
    (hstep : s.step l = some t) : t.Torn := by
  have hbefore := bounded_of_step hbounded hstep
  unfold step at hstep
  split at hstep
  · cases hstep
  · rename_i hquiet
    rw [Option.not_isSome_iff_eq_none] at hquiet
    cases l with
    | server l =>
      simp only at hstep
      split at hstep
      · rename_i hmay
        obtain ⟨u, hu, rfl⟩ := Option.map_eq_some_iff.mp hstep
        split at hbounded
        · rename_i huse
          rw [if_pos huse]
          exact h.uses hbefore.1 hmay huse.1 huse.2 hu
        · rename_i huse
          rw [if_neg huse]
          exact h.server hbounded hmay huse hu hquiet
      · cases hstep
    | destroy entries =>
      simp only [Option.ite_none_right_eq_some, Option.some.injEq] at hstep
      obtain ⟨⟨hstage, -, hperm⟩, rfl⟩ := hstep
      refine h.stage (h.entries hperm) (fun i hi ↦ ?_) hquiet
      simp [quits, hstage] at hi
    | next => exact h.proceed hbefore.2 hquiet hstep

end

/-- **Teardown.**  In every run of a server and its destructor in which no connection runs
`handleClose` twice and fewer than 2^31 are accepted: behind the destructor each connection has got
on its own loop one `connectEstablished` and behind it one `conncetDestoryed`, made or queued; it has
been made if the destructor came to the connection while its loop was not in its functors; and a
connection that closed and was not taken out of `_connections` has left a functor that will use the
destroyed server.  The destroyed server is used in no other way, but by a connection on the server's
own loop that closes behind the destructor. -/
theorem teardown {name : List Char} {listenAddr : SockAddr} {numThreads : Nat} {ls : List Label}
    {s : ServerLife} (h : Trace.run step (init name listenAddr numThreads) ls = some s)
    (honce : s.server.closed.Nodup) (hfew : s.server.accepted.length < 2 ^ 31) :
    (s.stage = .gone →
      (∀ conn ∈ s.server.accepted,
        s.server.callsOf conn.loop conn = [.connectEstablished conn, .conncetDestoryed conn] ∧
          ∀ i, i ≠ conn.loop → s.server.callsOf i conn = []) ∧
      (∀ conn ∈ s.destroyed, conn ∉ s.late →
        .conncetDestoryed conn ∈ (s.server.loops conn.loop).called) ∧
      ∀ conn ∈ s.server.closed, ¬ s.server.Removed conn →
        .removeConnectionInLoop conn ∈ (s.server.loops .base).functors.waiting) ∧
    ∀ l, s.dangling = some l → s.stage = .gone ∧
      (l = .functor .base ∧ (∃ conn ∈ s.server.closed, ¬ s.server.Removed conn) ∨
        ∃ conn ∈ s.server.accepted, l = .handleClose conn ∧ conn.loop = .base) := by
  have htorn : s.Torn := by
    have hrun := Trace.run_inv (I := fun s : ServerLife ↦ s.server.Bounded → s.Torn)
      (fun _ _ _ hs hstep hbounded ↦
        step_torn (hs (bounded_of_step hbounded hstep)) hbounded hstep)
      (fun _ ↦ init_torn name listenAddr numThreads) h
    exact hrun ⟨honce, hfew⟩
  refine ⟨fun hstage ↦ ⟨fun conn hmem ↦ ⟨?_, fun i hi ↦ ?_⟩, fun conn hmem hlate ↦ ?_,
    fun conn hmem hup ↦ ?_⟩, htorn.dangling⟩
  all_goals
    have hprogress := htorn.progress
    rw [hstage] at hprogress
  · exact htorn.sound.down conn hmem (hprogress.1 conn hmem)
  · exact htorn.sound.elsewhere i conn fun _ ↦ hi
  · cases hloop : conn.loop with
    | base => exact htorn.atOnce conn hmem hloop
    | io i =>
      have hexited : s.exited i = true := by
        obtain ⟨k, hk⟩ := List.mem_iff_getElem?.mp (htorn.members conn hmem)
        exact hprogress.2 i (htorn.sound.io_lt hk hloop)
      have hpromised := htorn.onTime conn hmem hlate
      rw [hloop] at hpromised
      rcases hpromised with hrun | hbatch | ⟨-, -, hleft⟩
      · exact hrun
      · rw [(htorn.exited i hexited).2] at hbatch
        cases hbatch
      · have hstays : s.exited i = false := hleft
        rw [hexited] at hstays
        cases hstays
  · have hcount := htorn.sound.removals conn
    rw [TcpServer.trace, List.count_append] at hcount
    have hpos := List.count_pos_iff.mpr hmem
    have hnone : (s.server.loops .base).called.count (.removeConnectionInLoop conn) = 0 :=
      List.count_eq_zero.mpr hup
    exact List.count_pos_iff.mp (by omega)

/-- The connection closes while the destructor runs: its loop comes to `conncetDestoryed` before it
leaves, and the server's loop to a functor that uses the destroyed server. -/
theorem teardown_close_meanwhile :
    ∃ s conn, Trace.run step (init "echo".toList ⟨true, (0, 0, 0, 0), 2007⟩ 1)
        [.server .newConnection, .server (.dpPendingFunctors (.io 0)), .server (.functor (.io 0)),
          .server (.functor (.io 0)), .destroy [conn], .server (.handleClose conn), .next, .next,
          .next, .server (.dpPendingFunctors (.io 0)), .server (.functor (.io 0)),
          .server (.functor (.io 0)), .next, .next, .server (.dpPendingFunctors .base),
          .server (.functor .base)] = some s ∧
      s.stage = .gone ∧ conn.loop = .io 0 ∧ s.dangling = some (.functor .base) ∧
      .conncetDestoryed conn ∈ (s.server.loops conn.loop).called ∧
      .removeConnectionInLoop conn ∈ (s.server.loops .base).functors.waiting := by
  obtain ⟨s, hs, hstage, hdangling, hhonce, hfew, hmem, hlate, hclosed, hup⟩ :
      ∃ s : ServerLife, Trace.run step (init "echo".toList ⟨true, (0, 0, 0, 0), 2007⟩ 1)
          [.server .newConnection, .server (.dpPendingFunctors (.io 0)), .server (.functor (.io 0)),
            .server (.functor (.io 0)), .destroy [⟨0, "echo-0.0.0.0:2007#1".toList, .io 0⟩],
            .server (.handleClose ⟨0, "echo-0.0.0.0:2007#1".toList, .io 0⟩), .next, .next,
            .next, .server (.dpPendingFunctors (.io 0)), .server (.functor (.io 0)),
            .server (.functor (.io 0)), .next, .next, .server (.dpPendingFunctors .base),
            .server (.functor .base)] = some s ∧
        s.stage = .gone ∧ s.dangling = some (.functor .base) ∧ s.server.closed.Nodup ∧
        s.server.accepted.length = 1 ∧
        (⟨0, "echo-0.0.0.0:2007#1".toList, .io 0⟩ : ConnPtr) ∈ s.destroyed ∧ s.late = [] ∧
        (⟨0, "echo-0.0.0.0:2007#1".toList, .io 0⟩ : ConnPtr) ∈ s.server.closed ∧
        ¬ s.server.Removed ⟨0, "echo-0.0.0.0:2007#1".toList, .io 0⟩ :=
    ⟨_, rfl, rfl, rfl, by decide, rfl, by decide, rfl, by decide, by decide⟩
  obtain ⟨hgone, -⟩ := teardown hs hhonce (by rw [hfew]; decide)
  obtain ⟨-, hmade, hwaits⟩ := hgone hstage
  refine ⟨s, _, hs, hstage, rfl, hdangling, hmade _ hmem ?_, hwaits _ hclosed hup⟩
  rw [hlate]
  exact List.not_mem_nil

-- a loop that is in its functors from before the round of the destructor until it is told to quit
-- leaves without the call
example : (Trace.run step (init "echo".toList ⟨true, (0, 0, 0, 0), 2007⟩ 1)
    [.server .newConnection, .server (.queueInLoop (.io 0)), .server (.dpPendingFunctors (.io 0)),
      .server (.functor (.io 0)), .server (.functor (.io 0)),
      .destroy [⟨0, "echo-0.0.0.0:2007#1".toList, .io 0⟩], .next, .next, .next,
      .server (.functorReturn (.io 0)), .server (.functor (.io 0)), .next, .next]).map
      (fun s ↦ (s.stage, (s.server.loops (.io 0)).functors.pending)) =
    some (.gone, [.conncetDestoryed ⟨0, "echo-0.0.0.0:2007#1".toList, .io 0⟩]) := rfl

end ServerLife

end Netlib
