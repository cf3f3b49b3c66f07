import Netlib.Net.TcpOutput
import Netlib.Net.TcpClose
import Netlib.Net.TcpForward

/-!
# The half-close of a connection that only its loop thread calls

On the loop thread `send` runs `sendInLoop` at once and `shutdown` runs `shutdownInLoop` at once, so
no functor carries a message or a half-close.  What is left to wait for is the output buffer: a
`shutdown` that finds write interest leaves the half-close to `handleWrite`, and nothing but
`cDisconnecting` remembers it.
-/

namespace Netlib

/-- The state in which `sendInLoop` tries to write at once. -/
def TcpConnection.WritesAtOnce (c : TcpConnection) : Prop :=
  c.state ≠ .cDisconnected ∧ c.chnnel.isWriting = false ∧ c.outputBuffer = []

namespace TcpLoop

variable {T : Type}

/-- Only the loop thread sends and closes, and no write of `sendInLoop` finds the connection
broken. -/
def Label.FromLoop : Label T → Prop
  | .callFrom _ (.send _) | .callFrom _ (.close _) => False
  | l => l.Unbroken

instance : (l : Label T) → Decidable l.FromLoop
  | .callFrom _ (.send _) | .callFrom _ (.close _) => .isFalse id
  | .call _ io | .functor io => inferInstanceAs (Decidable (io.write ≠ _ ∧ io.write ≠ _))
  | .callFrom _ .startRead | .callFrom _ .stopRead | .proceed _ | .queueUser | .queueDestoryed
  | .serverDestoryed | .connectEstablished | .conncetDestoryed | .ret | .task _ | .pollReturn _
  | .handleEvent | .handleOther | .handleTimer | .dpPendingFunctors => .isTrue trivial

/-- The message of a `send` on the loop thread that passes its test. -/
def accepts (s : TcpLoop T) : Label T → Option Message
  | .call (.send message) _ => if s.conn.state = .cConnected then some message else none
  | _ => none

/-- The step calls `write`. -/
def Writes (s : TcpLoop T) : Label T → Prop
  | .call (.send _) _ => s.conn.state = .cConnected ∧ s.conn.WritesAtOnce
  | .task _ => s.agenda.head? = some .writeEvent ∧ s.conn.chnnel.isWriting = true
  | .functor _ => (∃ t message q, s.functors.next = some (.sendInLoop t message, q)) ∧
      s.conn.WritesAtOnce
  | _ => False

/-- The step runs `sendInLoop`. -/
inductive Sends (s : TcpLoop T) : Label T → Message → Prop
  | call {message : Message} {io : Io} : s.conn.state = .cConnected →
      Sends s (.call (.send message) io) message
  | functor {l : Label T} {t : T} {message : Message} : s.Runs l (.sendInLoop t message) →
      Sends s l message

/-! ## 1. A step that sends nothing -/

/-- Such a step asks for no write events, and empties the buffer only on the way to the test of
`_state` in `handleWrite`. -/
structure Silent (s u : TcpLoop T) : Prop where
  ran : u.ran = s.ran := by exact rfl
  writing : u.conn.chnnel.isWriting = true → s.conn.chnnel.isWriting = true := by exact id
  buffer : s.conn.outputBuffer ≠ [] →
    u.conn.outputBuffer ≠ [] ∨ u.agenda.head? = some .drained := by exact Or.inl

section Silent

variable {s u : TcpLoop T} {io : Io}

theorem shutdownInLoop_silent (h : s.Silent u) : s.Silent u.shutdownInLoop := by
  obtain ⟨hs, heq, -⟩ := shutdownInLoop_eq u
  rw [heq]
  exact ⟨h.ran, h.writing, h.buffer⟩

/-- `startRead` or `stopRead`. -/
theorem setConn_silent {c : TcpConnection} (q : Batch.Queue (LoopFunctor T))
    (hbuffer : c.outputBuffer = s.conn.outputBuffer)
    (hwriting : c.chnnel.isWriting = s.conn.chnnel.isWriting) :
    s.Silent ({ s with functors := q }.setConn c) where
  writing := fun hw ↦ hwriting ▸ hw
  buffer := fun hne ↦ Or.inl (hbuffer ▸ hne)

theorem handleClose_silent (s : TcpLoop T) (rest : List Task) (q : Batch.Queue (LoopFunctor T)) :
    s.Silent { s with agenda := rest, functors := q }.handleClose where
  writing := fun hw ↦ by
    simp [handleClose, connectionCallBack, todo, setConn, TcpConnection.disconnect,
      Chnnel.diableAll, Chnnel.isWriting] at hw

theorem close_silent (s : TcpLoop T) (c : Closing) : s.Silent (s.close c) := by
  unfold close
  split
  · cases c with
    | shutdown => exact shutdownInLoop_silent {}
    | forceClose | forceCloseWithDelay => exact {}
  · exact {}

theorem call_silent {c : Call} (hno : ∀ message, ¬ s.Sends (.call c io) message)
    (h : s.call io c = some u) : s.Silent u := by
  cases c with
  | send message =>
    rw [call, if_neg fun hs ↦ hno message (.call hs)] at h
    cases h
    exact {}
  | close c =>
    cases h
    exact close_silent s c
  | startRead =>
    cases h
    exact setConn_silent s.functors (TcpConnection.startReadInLoop_outputBuffer _)
      (TcpConnection.startReadInLoop_isWriting _)
  | stopRead =>
    cases h
    exact setConn_silent s.functors (TcpConnection.stopReadInLoop_outputBuffer _)
      (TcpConnection.stopReadInLoop_isWriting _)

/-- `handleWrite`: what it does not write stays, and what it empties it tests behind. -/
theorem handleWrite_silent {rest : List Task}
    (h : { s with agenda := rest }.handleWrite io = some u) : s.Silent u := by
  obtain ⟨o, drained, ho, rfl⟩ := handleWrite_eq_some.mp h
  rcases TcpConnection.handleWrite_cases ho with
    ⟨rfl, rfl⟩ | ⟨n, -, hn, rfl, hw, rfl⟩ | ⟨-, rfl, -, queue, -, rfl⟩
  · exact {}
  · exact {
      writing := fun _ ↦ hw
      buffer := fun _ ↦ Or.inl (by simpa [settle, setConn, pushAll] using hn) }
  · exact {
      writing := fun hw ↦ by simp [settle, setConn, pushAll, Chnnel.isWriting] at hw
      buffer := fun _ ↦ Or.inr rfl }

theorem runTask_silent {a : Task} {rest : List Task}
    (h : { s with agenda := rest }.runTask io a = some u) : s.Silent u := by
  cases a with
  | user => cases h
  | closeEvent =>
    cases h
    exact handleClose_silent s rest s.functors
  | readEvent =>
    simp only [runTask] at h
    split at h <;> cases h
    · exact {}
    · exact handleClose_silent s rest s.functors
    · exact {}
  | writeEvent => exact handleWrite_silent h
  | drained =>
    cases h
    split
    · exact shutdownInLoop_silent {}
    · exact {}
  | closeCallBack | queueForceClose =>
    cases h
    exact {}
  | destroyConnected =>
    cases h
    exact {
      writing := fun hw ↦ by
        simp [connectionCallBack, todo, setConn, TcpConnection.disconnect, Chnnel.diableAll,
          Chnnel.isWriting] at hw }
  | remove =>
    cases h
    exact {}

theorem runFunctor_silent {f : LoopFunctor T} {q : Batch.Queue (LoopFunctor T)}
    (hf : ∀ t message, f ≠ .sendInLoop t message)
    (h : { s with functors := q }.runFunctor io f = some u) : s.Silent u := by
  cases f with
  | sendInLoop sender message => exact (hf sender message rfl).elim
  | shutdownInLoop =>
    cases h
    exact shutdownInLoop_silent {}
  | forceCloseInLoop =>
    cases h
    split
    · exact handleClose_silent s s.agenda q
    · exact {}
  | startReadInLoop =>
    cases h
    exact setConn_silent q (TcpConnection.startReadInLoop_outputBuffer _)
      (TcpConnection.startReadInLoop_isWriting _)
  | stopReadInLoop =>
    cases h
    exact setConn_silent q (TcpConnection.stopReadInLoop_outputBuffer _)
      (TcpConnection.stopReadInLoop_isWriting _)
  | conncetDestoryed | addTimer | writeCompleteCallBack | hightWaterMarkCallBack | user =>
    cases h
    exact {}

theorem silent_of_step [DecidableEq T] {l : Label T} (hno : ∀ message, ¬ s.Sends l message)
    (hstep : s.step l = some u) : s.Silent u := by
  cases step_cases hstep with
  | @callFrom t c _ =>
    cases c with
    | send | close =>
      simp only [callFrom]
      split
      · exact {}
      · exact {}
    | startRead | stopRead => exact {}
  | connectEstablished =>
    exact {
      writing := by
        simp [connectionCallBack, todo, setConn, TcpConnection.connectEstablished,
          Chnnel.isWriting] }
  | call _ hcall => exact call_silent hno hcall
  | task _ htask => exact runTask_silent htask
  | handleTimer =>
    have hclose := close_silent { s with timers := s.timers - 1 } .forceClose
    exact ⟨hclose.ran, hclose.writing, hclose.buffer⟩
  | functor _ _ hnext hrun =>
    refine runFunctor_silent (fun t message hf ↦ ?_) hrun
    exact hno message (.functor ⟨_, _, rfl, hf ▸ hnext⟩)
  | sending | setting | queueing | queueUser | queueDestoryed | serverDestoryed | conncetDestoryed
  | ret | pollReturn | handleEvent | handleOther | dpPendingFunctors | batchEnd => exact {}

end Silent

/-! ## 2. What a run from the loop thread keeps -/

/-- No other thread is inside `send` or one of the three closing calls, nothing of theirs is queued,
and a half-close is behind everything that is written. -/
structure Orderly [DecidableEq T] (s : TcpLoop T) : Prop where
  ordered : s.Ordered
  idle : ∀ t, s.callers t = .idle
  queue : ∀ f ∈ s.functors.queued, f ≠ .shutdownInLoop ∧ ∀ t message, f ≠ .sendInLoop t message
  streamed : s.conn.state ≠ .cDisconnected → s.Streamed
  last : s.halfCloses ≠ [] → s.Left ∧ s.conn.chnnel.isWriting = false

section Steps

variable [DecidableEq T] {s u v : TcpLoop T} {l : Label T}

omit [DecidableEq T] in
theorem Label.FromLoop.unbroken (h : l.FromLoop) : l.Unbroken := by
  cases l with
  | callFrom t c => trivial
  | call | functor => exact h
  | proceed | queueUser | queueDestoryed | serverDestoryed | connectEstablished | conncetDestoryed
  | ret | task | pollReturn | handleEvent | handleOther | handleTimer | dpPendingFunctors => trivial

theorem Orderly.notLate (h : s.Orderly) (l : Label T) : s.NotLate l := by
  cases l with
  | proceed t =>
    intro _ c hpc
    simp [h.idle t] at hpc
  | _ => trivial

/-- What is sent is what `send` accepts. -/
theorem Orderly.accepts_of_sends (h : s.Orderly) {message : Message} (hs : s.Sends l message) :
    s.accepts l = some message ∧ s.conn.state = .cConnected := by
  cases hs with
  | call hs => exact ⟨if_pos hs, hs⟩
  | functor hruns =>
    obtain ⟨io, q, -, hnext⟩ := hruns
    exact ((h.queue _ (h.ordered.inOrder.mem_of_next hnext)).2 _ _ rfl).elim

theorem Orderly.silent_of_left (h : s.Orderly) (hs : s.conn.state ≠ .cConnected)
    (hstep : s.step l = some u) : s.Silent u :=
  silent_of_step (fun _ hsends ↦ hs (h.accepts_of_sends hsends).2) hstep

theorem Orderly.silent_of_accepts (h : s.Orderly) (hnone : s.accepts l = none)
    (hstep : s.step l = some u) : s.Silent u := by
  refine silent_of_step (fun message hsends ↦ ?_) hstep
  rw [(h.accepts_of_sends hsends).1] at hnone
  cases hnone

/-- The records of the messages sent grow by what `send` accepts. -/
theorem Orderly.ran_step (h : s.Orderly) (hstep : s.step l = some u) :
    u.ran.map Prod.snd = s.ran.map Prod.snd ++ (s.accepts l).toList := by
  cases haccepts : s.accepts l with
  | none =>
    simp [(h.silent_of_accepts haccepts hstep).ran]
  | some message =>
    cases l with
    | call c io =>
      cases c with
      | send m =>
        simp only [accepts, Option.ite_none_right_eq_some, Option.some.injEq] at haccepts
        obtain ⟨hs, rfl⟩ := haccepts
        cases step_cases hstep with
        | call _ hcall =>
          rw [call, if_pos hs] at hcall
          obtain ⟨o, -, rfl⟩ := sendInLoop_eq_some.mp hcall
          simp [settle, setConn, pushAll]
      | close | startRead | stopRead => cases haccepts
    | _ => cases haccepts

/-- A half-close of a run from the loop thread: `shutdown` itself, or `handleWrite` behind it. -/
theorem Orderly.halfClose_state (h : s.Orderly) (hclosed : s.HalfClosed l) :
    s.conn.state ≠ .cDisconnected ∧ s.accepts l = none := by
  cases hclosed with
  | call hs => exact ⟨by simp [hs], rfl⟩
  | functor hruns =>
    obtain ⟨io, q, -, hnext⟩ := hruns
    exact ((h.queue _ (h.ordered.inOrder.mem_of_next hnext)).1 rfl).elim
  | drained _ hs => exact ⟨by simp [hs], rfl⟩

omit [DecidableEq T] in
theorem close_shutdown (hs : s.conn.state = .cConnected) :
    s.close .shutdown = s.setDisconnecting.shutdownInLoop := if_pos hs

/-- Behind the step that half-closes, the state has left `cConnected`. -/
theorem Orderly.left_of_halfClosed (h : s.Orderly) (hclosed : s.HalfClosed l)
    (hstep : s.step l = some u) : u.Left := by
  cases hclosed with
  | call hs =>
    cases step_cases hstep with
    | call _ hcall =>
      obtain ⟨hs', heq, -⟩ := shutdownInLoop_eq s.setDisconnecting
      rw [call, close_shutdown hs, heq, Option.some.injEq] at hcall
      subst hcall
      exact Or.inl rfl
  | functor hruns =>
    obtain ⟨io, q, -, hnext⟩ := hruns
    exact ((h.queue _ (h.ordered.inOrder.mem_of_next hnext)).1 rfl).elim
  | drained _ hs => exact left_stays hstep (Or.inl hs)

omit [DecidableEq T] in
theorem Left.ne_cConnected (h : s.Left) : s.conn.state ≠ .cConnected := by
  rcases h with hs | hs
  · simp [hs]
  · simp [hs]

theorem step_orderly (h : s.Orderly) (hl : l.FromLoop) (hstep : s.step l = some u) :
    u.Orderly := by
  obtain ⟨⟨new, hqueued, hnew⟩, -, -, -, -, hcallers, hhalf, -⟩ := step_spec hstep
  constructor
  · exact step_ordered h.ordered hstep
  · -- the calls that would move a caller are not made, and no caller goes on
    intro t
    rcases hcallers t with heq | hmoves
    · exact heq.trans (h.idle t)
    · generalize u.callers t = pc at hmoves
      cases hmoves with
      | send | close => exact hl.elim
      | set hpc => simp [h.idle] at hpc
      | queued => rfl
  · intro f hf
    rw [hqueued, List.mem_append] at hf
    rcases hf with hf | hf
    · exact h.queue f hf
    -- what the loop thread itself puts into the queue
    · cases hnew f hf with
      | callBack hcb => cases f <;> simp [LoopFunctor.IsCallBack] at hcb ⊢
      | user | startRead | stopRead | owner | server | forceClose => simp
      | send hpc | closing hpc => simp [h.idle] at hpc
  · intro hup
    have hup' : s.conn.state ≠ .cDisconnected := fun hdown ↦
      hup (disconnected_stays hdown (h.notLate l) hstep)
    exact step_streamed (h.streamed hup') hup' hl.unbroken hstep hup
  · -- write interest does not come back, for nothing is sent any more
    intro hne
    rcases hhalf with heq | ⟨hclosed, hw, -⟩
    · obtain ⟨hleft, hw⟩ := h.last (heq ▸ hne)
      refine ⟨left_stays hstep hleft, ?_⟩
      by_contra hw'
      have := (h.silent_of_left hleft.ne_cConnected hstep).writing (by simpa using hw')
      simp [hw] at this
    · refine ⟨h.left_of_halfClosed hclosed hstep, ?_⟩
      have hsilent := h.silent_of_accepts (h.halfClose_state hclosed).2 hstep
      by_contra hw'
      have := hsilent.writing (by simpa using hw')
      simp [hw] at this

end Steps

/-! ## 3. Behind a `shutdown` -/

/-- Behind a `shutdown()` that took effect: something still waits, or the half-close has been made, or
`handleWrite` is about to make it. -/
def ShutDown (s : TcpLoop T) : Prop :=
  s.conn.state = .cDisconnected ∨ s.conn.state = .cDisconnecting ∧
    (s.conn.outputBuffer ≠ [] ∨ s.halfCloses ≠ [] ∨ s.agenda.head? = some .drained)

section ShutDown

variable [DecidableEq T] {s u : TcpLoop T} {l : Label T}

/-- No other step of the loop thread comes before the test of `_state`. -/
theorem drained_next (hhead : s.agenda.head? = some .drained) (hstep : s.step l = some u) :
    u.agenda.head? = some .drained ∨
      ∃ rest, u = (if s.conn.state = .cDisconnecting then
        { s with agenda := rest }.shutdownInLoop else { s with agenda := rest }) := by
  cases step_cases hstep with
  | callFrom _ =>
    rw [(callFrom_eq s _ _).1]
    exact Or.inl hhead
  | task hagenda htask =>
    rw [hagenda, List.head?_cons, Option.some.injEq] at hhead
    subst hhead
    exact Or.inr ⟨_, (Option.some.inj htask).symm⟩
  | sending | setting | queueing | queueUser | queueDestoryed | serverDestoryed => exact Or.inl hhead
  | connectEstablished hagenda | conncetDestoryed hagenda | call hagenda | ret hagenda
  | pollReturn _ hagenda | handleEvent _ hagenda | handleOther _ hagenda | handleTimer _ hagenda
  | dpPendingFunctors _ hagenda | functor _ hagenda | batchEnd _ hagenda => simp [hagenda] at hhead

/-- `handleWrite` half-closes when it finds `cDisconnecting` and nothing waits. -/
theorem Orderly.drained_halfCloses (h : s.Orderly) (hs : s.conn.state = .cDisconnecting)
    {rest : List Task} (hbuffer : s.conn.outputBuffer = []) :
    ({ s with agenda := rest }.shutdownInLoop).halfCloses ≠ [] := by
  have hw : s.conn.chnnel.isWriting = false := by
    by_contra hw
    exact (h.streamed (by simp [hs])).writing.mp (by simpa using hw) hbuffer
  simp [shutdownInLoop, hw, shutdownWrite]

/-- A half-close is not taken back. -/
theorem halfCloses_step (hne : s.halfCloses ≠ []) (hstep : s.step l = some u) :
    u.halfCloses ≠ [] := by
  rcases (step_spec hstep).halfCloses with heq | ⟨-, -, heq⟩
  · exact heq ▸ hne
  · simp [heq]

theorem step_shutDown (h : s.Orderly) (hdown : s.ShutDown) (hstep : s.step l = some u) :
    u.ShutDown := by
  rcases hdown with hs | ⟨hs, hwait⟩
  · exact Or.inl (disconnected_stays hs (h.notLate l) hstep)
  rcases left_stays hstep (Or.inl hs) with hu | hu
  · refine Or.inr ⟨hu, ?_⟩
    have hsilent := h.silent_of_left (by simp [hs]) hstep
    -- either the buffer stays, or `handleWrite` has emptied it and goes on to its test
    by_cases hbuffer : s.conn.outputBuffer = []
    · rcases hwait with hne | hne | hhead
      · exact (hne hbuffer).elim
      · exact Or.inr (Or.inl (halfCloses_step hne hstep))
      · rcases drained_next hhead hstep with hhead' | ⟨rest, rfl⟩
        · exact Or.inr (Or.inr hhead')
        · rw [if_pos hs]
          exact Or.inr (Or.inl (h.drained_halfCloses hs hbuffer))
    · rcases hsilent.buffer hbuffer with hne | hhead
      · exact Or.inl hne
      · exact Or.inr (Or.inr hhead)
  · exact Or.inl hu

/-- `shutdown()` in `cConnected`: it half-closes at once, or something waits. -/
theorem Orderly.shutDown_of_call (h : s.Orderly) {io : Io} (hs : s.conn.state = .cConnected)
    (hstep : s.step (.call (.close .shutdown) io) = some u) : u.ShutDown := by
  cases step_cases hstep with
  | call _ hcall =>
    rw [call, close_shutdown hs, Option.some.injEq] at hcall
    subst hcall
    by_cases hw : s.conn.chnnel.isWriting = true
    · rw [shutdownInLoop, if_pos (show s.setDisconnecting.conn.chnnel.isWriting = true from hw)]
      exact Or.inr ⟨rfl, Or.inl ((h.streamed (by simp [hs])).writing.mp hw)⟩
    · rw [shutdownInLoop, if_neg (show s.setDisconnecting.conn.chnnel.isWriting ≠ true from hw)]
      exact Or.inr ⟨rfl, Or.inr (Or.inl (by simp [shutdownWrite]))⟩

end ShutDown

/-! ## 4. The half-closes of a run -/

section Runs

variable [DecidableEq T]

/-- What a run should keep of its half-closes. -/
structure HalfClosesOrderly (conn : TcpConnection) (ls : List (Label T)) : Prop where
  /-- At each `shutdownWrite` nothing waits, and the kernel has every byte of every message that
  `send` accepted. -/
  late : ∀ before l m u, before ++ [l] <+: ls → Trace.run step (init conn) before = some m →
    m.step l = some u → u.halfCloses ≠ m.halfCloses →
    m.conn.outputBuffer = [] ∧
      m.accepted = (Trace.collect step accepts (init conn) before).flatten
  /-- Behind it no `write` is issued. -/
  silent : ∀ before l m, before ++ [l] <+: ls → Trace.run step (init conn) before = some m →
    m.halfCloses ≠ [] → ¬ m.Writes l
  /-- It is not left out: behind a `shutdown()` in `cConnected`, and outside of `handleWrite` between
  its last byte and its test of `_state`, it has been called as soon as nothing waits and unless the
  connection is closed. -/
  made : ∀ before io after m s, before ++ .call (.close .shutdown) io :: after <+: ls →
    Trace.run step (init conn) before = some m → m.conn.state = .cConnected →
    Trace.run step m (.call (.close .shutdown) io :: after) = some s →
    s.agenda.head? ≠ some .drained → s.conn.state ≠ .cDisconnected → s.conn.outputBuffer = [] →
    s.halfCloses ≠ []

variable {s u : TcpLoop T} {l : Label T}

theorem Orderly.not_writes (h : s.Orderly) (hne : s.halfCloses ≠ []) : ¬ s.Writes l := by
  obtain ⟨hleft, hw⟩ := h.last hne
  cases l with
  | call c io =>
    cases c with
    | send message => exact fun hwrites ↦ hleft.ne_cConnected hwrites.1
    | close | startRead | stopRead => exact id
  | task io => exact fun hwrites ↦ by simpa [hw] using hwrites.2
  | functor io =>
    rintro ⟨⟨t, message, q, hnext⟩, -⟩
    exact (h.queue _ (h.ordered.inOrder.mem_of_next hnext)).2 t message rfl
  | _ => exact id

theorem init_orderly (hightWaterMark : Nat) (writeComplete hightWater : Bool) :
    (init (.init hightWaterMark writeComplete hightWater) : TcpLoop T).Orderly where
  ordered := init_ordered _
  idle := fun _ ↦ rfl
  queue := by simp [init, Batch.Queue.empty]
  streamed := fun _ ↦ init_streamed ..
  last := fun hne ↦ (hne rfl).elim

/-- **Orderly half-close.**  In every run in which only the loop thread sends, shuts down and forces
the close, with writes that take any part, or nothing, of what they are given, and no write that finds
the connection broken: `shutdownWrite` is called only when nothing waits and the kernel has all bytes
of all messages that `send` accepted; no `write` follows it; and behind a `shutdown()` that took
effect it has been called whenever nothing waits and the connection is not closed. -/
theorem half_closes_orderly {hightWaterMark : Nat} {writeComplete hightWater : Bool}
    {ls : List (Label T)} (h : ∀ l ∈ ls, l.FromLoop) :
    HalfClosesOrderly (.init hightWaterMark writeComplete hightWater) ls := by
  have hlocal : Trace.Along step (fun _ l ↦ l.FromLoop)
      (init (.init hightWaterMark writeComplete hightWater)) ls :=
    Trace.along_of_forall_mem fun l hl _ ↦ h l hl
  have hinv {before : List (Label T)} {m : TcpLoop T} (hpre : before <+: ls)
      (hm : Trace.run step (init (.init hightWaterMark writeComplete hightWater)) before = some m) :
      m.Orderly :=
    Trace.run_inv_along (fun _ _ _ hs hl hstep ↦ step_orderly hs hl hstep)
      (init_orderly hightWaterMark writeComplete hightWater) (hlocal.initial hpre) hm
  constructor
  · intro before l m u hpre hm hstep hgrow
    have hpre' : before <+: ls := (List.prefix_append ..).trans hpre
    have horderly := hinv hpre' hm
    rcases (step_spec hstep).halfCloses with heq | ⟨hclosed, hw, -⟩
    · exact (hgrow heq).elim
    obtain ⟨hempty, hbytes⟩ :=
      (horderly.streamed (horderly.halfClose_state hclosed).1).drained hw
    -- the messages recorded are those that the labels of the run sent
    have hsent := Trace.run_collect (I := Orderly) (f := accepts)
      (g := fun s : TcpLoop T ↦ s.ran.map Prod.snd)
      (fun _ _ _ hs hl hstep ↦ step_orderly hs hl hstep)
      (fun _ _ _ hs _ hstep ↦ hs.ran_step hstep)
      (init_orderly hightWaterMark writeComplete hightWater) (hlocal.initial hpre') hm
    rw [hsent] at hbytes
    exact ⟨hempty, hbytes⟩
  · intro before l m hpre hm hne
    exact (hinv ((List.prefix_append ..).trans hpre) hm).not_writes hne
  · intro before io after m s hpre hm hs hrun hhead hup hempty
    have hfrom : ∀ l ∈ after, l.FromLoop := fun l hl ↦ h l (hpre.subset (by simp [hl]))
    obtain ⟨v, hcall, hafter⟩ := Trace.run_cons_eq_some.mp hrun
    have horderly := hinv ((List.prefix_append ..).trans hpre) hm
    have hv : v.Orderly :=
      step_orderly horderly (h _ (hpre.subset (by simp))) hcall
    -- from the call on, by induction on the rest of the run
    obtain ⟨-, hdown⟩ := Trace.run_inv_along (I := fun s : TcpLoop T ↦ s.Orderly ∧ s.ShutDown)
      (fun _ _ _ hs hl hstep ↦ ⟨step_orderly hs.1 hl hstep, step_shutDown hs.1 hs.2 hstep⟩)
      ⟨hv, horderly.shutDown_of_call hs hcall⟩
      (Trace.along_of_forall_mem fun l hl _ ↦ hfrom l hl) hafter
    rcases hdown with hdown | ⟨-, hne | hne | hhead'⟩
    · exact (hup hdown).elim
    · exact (hne hempty).elim
    · exact hne
    · exact (hhead hhead').elim

/-- Three bytes go out in three writes, and the `shutdown` behind the first of them is made good by the
third. -/
theorem half_closes_orderly_partial_writes :
    ∃ ls : List (Label Unit), ∃ s, Trace.run step (init (.init 100 false false)) ls = some s ∧
      s.accepted = [1, 2, 3] ∧ s.halfCloses.length = 1 ∧
      HalfClosesOrderly (.init 100 false false) ls := by
  refine ⟨[.pollReturn none, .handleOther, .connectEstablished,
    .call (.send [1, 2, 3]) ⟨.wrote 1, .data⟩, .call (.close .shutdown) ⟨.wrote 0, .data⟩,
    .call (.send [4]) ⟨.wrote 1, .data⟩, .ret, .ret, .dpPendingFunctors,
    .functor ⟨.wrote 0, .data⟩, .pollReturn (some ⟨false, false, false, false, true, false⟩),
    .handleEvent, .task ⟨.wrote 1, .data⟩, .callFrom () .stopRead, .dpPendingFunctors,
    .functor ⟨.wrote 0, .data⟩, .functor ⟨.wrote 0, .data⟩,
    .pollReturn (some ⟨false, false, false, false, true, false⟩), .handleEvent,
    .task ⟨.wrote 1, .data⟩, .task ⟨.wrote 0, .data⟩], _, rfl, rfl, rfl, ?_⟩
  exact half_closes_orderly (by decide)

end Runs

end TcpLoop

end Netlib
