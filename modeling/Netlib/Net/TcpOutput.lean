import Netlib.Net.TcpConnection

/-!
# The output of a connection

What `send` hands to the kernel, over every run of the loop with any callers: the functors of
`TcpLoop` leave the queue in the order they came, so each thread's messages are sent in the order of
its calls; and what the kernel took and what waits in `_outputBuffer` are together the messages sent.
-/

namespace Netlib

namespace TcpLoop

variable {T : Type} [DecidableEq T]

/-! ## 1. The order of the messages -/

/-- The message of `t` in a functor. -/
def sendOf (t : T) : LoopFunctor T → Option Message
  | .sendInLoop sender message => if sender = t then some message else none
  | _ => none

/-- The message of `t` in a run of `sendInLoop`. -/
def sentBy (t : T) : Option T × Message → Option Message
  | (some sender, message) => if sender = t then some message else none
  | (none, _) => none

def inFlight : CallerPc → List Message
  | .sending message => [message]
  | _ => []

/-- Functors are run in the order they were pushed, and so are each thread's messages. -/
structure Ordered (s : TcpLoop T) : Prop where
  inOrder : s.functors.InOrder
  drained : s.phase ≠ .functors → s.functors.batch = []
  ran : ∀ t, s.ran.filterMap (sentBy t) = s.functors.executed.filterMap (sendOf t)
  called : ∀ t, s.functors.queued.filterMap (sendOf t) ++ inFlight (s.callers t) = s.called t

theorem sendOf_isCallBack {f : LoopFunctor T} (h : f.IsCallBack) (t : T) : sendOf t f = none := by
  cases f <;> first | rfl | exact h.elim

theorem init_ordered (conn : TcpConnection) : (init conn : TcpLoop T).Ordered where
  inOrder := rfl
  drained := fun _ ↦ rfl
  ran := fun _ ↦ rfl
  called := fun _ ↦ rfl

theorem Ordered.of_eq {s u : TcpLoop T} (h : s.Ordered) (hf : u.functors = s.functors)
    (hphase : u.phase = s.phase) (hran : u.ran = s.ran) (hcalled : u.called = s.called)
    (hcallers : u.callers = s.callers) : u.Ordered where
  inOrder := by rw [hf]; exact h.inOrder
  drained := by rw [hf, hphase]; exact h.drained
  ran := by rw [hf, hran]; exact h.ran
  called := by rw [hf, hcalled, hcallers]; exact h.called

/-- Functors without messages join the queue, and the loop thread may have sent something. -/
theorem Ordered.pushAll {s u : TcpLoop T} (h : s.Ordered) (fs : List (LoopFunctor T))
    (hf : u.functors = s.functors.pushAll fs) (hfs : ∀ f ∈ fs, ∀ t, sendOf t f = none)
    (hphase : u.phase = s.phase)
    (hran : ∀ t, u.ran.filterMap (sentBy t) = s.ran.filterMap (sentBy t))
    (hcalled : u.called = s.called) (hcallers : u.callers = s.callers) : u.Ordered where
  inOrder := by rw [hf]; exact h.inOrder.pushAll fs
  drained := by rw [hf, hphase]; exact h.drained
  ran := fun t ↦ by rw [hf, hran t]; exact h.ran t
  called := fun t ↦ by
    have hnone : fs.filterMap (sendOf t) = [] := List.filterMap_eq_nil_iff.mpr fun f hm ↦ hfs f hm t
    rw [hf, hcalled, hcallers, ← h.called t]
    simp only [Batch.Queue.pushAll, List.filterMap_append, hnone, List.append_nil]

theorem Ordered.push {s : TcpLoop T} (h : s.Ordered) {f : LoopFunctor T}
    (hf : ∀ t, sendOf t f = none) : (s.push f).Ordered :=
  h.pushAll [f] rfl (by simpa using hf) rfl (fun _ ↦ rfl) rfl rfl

theorem shutdownInLoop_ordered {s : TcpLoop T} (h : s.Ordered) : s.shutdownInLoop.Ordered := by
  unfold shutdownInLoop
  split
  · exact h
  · exact h.of_eq rfl rfl rfl rfl rfl

theorem close_ordered {s : TcpLoop T} (h : s.Ordered) (c : Closing) : (s.close c).Ordered := by
  unfold close
  split
  · cases c with
    | shutdown => exact shutdownInLoop_ordered (h.of_eq rfl rfl rfl rfl rfl)
    | forceClose | forceCloseWithDelay => exact h.of_eq rfl rfl rfl rfl rfl
  · exact h

theorem call_ordered {s u : TcpLoop T} {io : Io} {c : Call} (h : s.Ordered)
    (hstep : s.call io c = some u) : u.Ordered := by
  cases c with
  | send message =>
    simp only [call] at hstep
    split at hstep
    · obtain ⟨o, ho, rfl⟩ := sendInLoop_eq_some.mp hstep
      have hqueue := fun f hf ↦ sendOf_isCallBack (TcpConnection.sendInLoop_queue ho f hf)
      refine h.pushAll _ rfl hqueue rfl (fun t ↦ ?_) rfl rfl
      simp [settle, setConn, TcpLoop.pushAll, sentBy]
    · cases hstep
      exact h
  | close c =>
    cases hstep
    exact close_ordered h c
  | startRead | stopRead =>
    cases hstep
    exact h.of_eq rfl rfl rfl rfl rfl

theorem runTask_ordered {s u : TcpLoop T} {io : Io} {task : Task} (h : s.Ordered)
    (hstep : s.runTask io task = some u) : u.Ordered := by
  cases task with
  | user => cases hstep
  | writeEvent =>
    obtain ⟨o, drained, ho, rfl⟩ := handleWrite_eq_some.mp hstep
    have hqueue := fun f hf ↦ sendOf_isCallBack (TcpConnection.handleWrite_queue ho f hf)
    cases drained <;> exact h.pushAll _ rfl hqueue rfl (fun _ ↦ rfl) rfl rfl
  | drained =>
    cases hstep
    split
    · exact shutdownInLoop_ordered h
    · exact h
  | readEvent =>
    simp only [runTask] at hstep
    split at hstep <;> cases hstep <;> exact h.of_eq rfl rfl rfl rfl rfl
  | queueForceClose =>
    cases hstep
    exact h.push fun _ ↦ rfl
  | closeEvent | closeCallBack | destroyConnected | remove =>
    cases hstep
    exact h.of_eq rfl rfl rfl rfl rfl

theorem runFunctor_ordered {s u : TcpLoop T} {io : Io} {f : LoopFunctor T} (h : s.Ordered)
    (hf : ∀ t, sendOf t f = none) (hstep : s.runFunctor io f = some u) : u.Ordered := by
  cases f with
  | sendInLoop sender message => simpa [sendOf] using hf sender
  | shutdownInLoop =>
    cases hstep
    exact shutdownInLoop_ordered h
  | forceCloseInLoop =>
    cases hstep
    split
    · exact h.of_eq rfl rfl rfl rfl rfl
    · exact h
  | startReadInLoop | stopReadInLoop | conncetDestoryed | addTimer | writeCompleteCallBack
  | hightWaterMarkCallBack | user =>
    cases hstep
    exact h.of_eq rfl rfl rfl rfl rfl

/-- The step that runs the next functor: a message of `t` is then sent. -/
theorem functor_ordered {s u : TcpLoop T} {io : Io} {f : LoopFunctor T}
    {q : Batch.Queue (LoopFunctor T)} (h : s.Ordered) (hphase : s.phase = .functors)
    (hnext : s.functors.next = some (f, q))
    (hstep : { s with functors := q }.runFunctor io f = some u) : u.Ordered := by
  obtain ⟨rest, hbatch, rfl⟩ := Batch.Queue.next_eq_some.mp hnext
  by_cases hsend : ∃ sender message, f = .sendInLoop sender message
  · obtain ⟨sender, message, rfl⟩ := hsend
    obtain ⟨o, ho, rfl⟩ := sendInLoop_eq_some.mp hstep
    have hqueue := fun f hf ↦ sendOf_isCallBack (TcpConnection.sendInLoop_queue ho f hf)
    -- the functor is executed and its message sent in the same step
    refine Ordered.pushAll (s := { s with
        functors := { s.functors with
          batch := rest, executed := s.functors.executed ++ [.sendInLoop sender message] }
        ran := s.ran ++ [(some sender, message)] }) ⟨h.inOrder.next hnext, ?_, fun t ↦ ?_, h.called⟩
      _ rfl hqueue rfl (fun _ ↦ rfl) rfl rfl
    · exact fun hne ↦ (hne hphase).elim
    · simp only [List.filterMap_append, h.ran t]
      rfl
  · -- any other functor leaves the messages alone
    have hnone : ∀ t, sendOf t f = none := by
      intro t
      cases f <;> first | rfl | exact (hsend ⟨_, _, rfl⟩).elim
    have hrest : { s with functors := { s.functors with
        batch := rest, executed := s.functors.executed ++ [f] } }.Ordered := by
      refine ⟨h.inOrder.next hnext, fun hne ↦ (hne hphase).elim, fun t ↦ ?_, h.called⟩
      simp [h.ran t, hnone t]
    exact runFunctor_ordered hrest hnone hstep

/-- A caller moves between two places where it holds no message. -/
theorem Ordered.setCaller {s : TcpLoop T} {t : T} {pc : CallerPc} (h : s.Ordered)
    (hbefore : inFlight (s.callers t) = []) (hafter : inFlight pc = []) :
    (s.setCaller t pc).Ordered := by
  refine ⟨h.inOrder, h.drained, h.ran, fun v ↦ ?_⟩
  have hv := h.called v
  by_cases hvt : v = t
  · subst hvt
    simpa [TcpLoop.setCaller, hbefore, hafter] using hv
  · simpa [TcpLoop.setCaller, hvt] using hv

theorem callFrom_ordered {s : TcpLoop T} {t : T} (h : s.Ordered) (hidle : s.callers t = .idle)
    (c : Call) : (s.callFrom t c).Ordered := by
  have hnone : inFlight (s.callers t) = [] := by rw [hidle]; rfl
  cases c with
  | send message =>
    simp only [callFrom]
    split
    · refine ⟨h.inOrder, h.drained, h.ran, fun v ↦ ?_⟩
      have hv := h.called v
      by_cases hvt : v = t
      · subst hvt
        rw [hnone, List.append_nil] at hv
        simp [setCaller, inFlight, hv]
      · simp [setCaller, hvt, hv]
    · exact h
  | close c =>
    simp only [callFrom]
    split
    · exact h.setCaller hnone rfl
    · exact h
  | startRead | stopRead => exact h.push fun _ ↦ rfl

theorem proceed_ordered {s : TcpLoop T} {t : T} (h : s.Ordered) {message : Message}
    (hpc : s.callers t = .sending message) :
    ((s.push (.sendInLoop t message)).setCaller t .idle).Ordered := by
  refine ⟨h.inOrder.push _, h.drained, h.ran, fun v ↦ ?_⟩
  have hv := h.called v
  by_cases hvt : v = t
  · subst hvt
    simpa [setCaller, TcpLoop.push, sendOf, inFlight, hpc] using hv
  · simpa [setCaller, TcpLoop.push, sendOf, Ne.symm hvt, hvt] using hv

theorem step_ordered {s u : TcpLoop T} {l : Label T} (h : s.Ordered) (hstep : s.step l = some u) :
    u.Ordered := by
  cases step_cases hstep with
  | @callFrom t c hidle => exact callFrom_ordered h hidle c
  | sending hpc => exact proceed_ordered h hpc
  | @setting t c hpc =>
    have hset : s.setDisconnecting.Ordered := h.of_eq rfl rfl rfl rfl rfl
    exact hset.setCaller (by simp [setDisconnecting, setConn, hpc, inFlight]) rfl
  | @queueing t c hpc =>
    have hpush := h.push (f := c.functor) fun v ↦ by cases c <;> rfl
    exact hpush.setCaller (by simp [TcpLoop.push, hpc, inFlight]) rfl
  | queueUser | serverDestoryed => exact h.push fun _ ↦ rfl
  | queueDestoryed => exact (h.push (f := .conncetDestoryed) fun _ ↦ rfl).of_eq rfl rfl rfl rfl rfl
  | connectEstablished | conncetDestoryed | ret | handleOther => exact h.of_eq rfl rfl rfl rfl rfl
  | call _ hcall => exact call_ordered h hcall
  | @task _ rest _ _ _ htask =>
    have hrest : { s with agenda := rest }.Ordered := h.of_eq rfl rfl rfl rfl rfl
    exact runTask_ordered hrest htask
  | pollReturn hphase | handleEvent hphase =>
    exact ⟨h.inOrder, fun _ ↦ h.drained (by simp [hphase]), h.ran, h.called⟩
  | handleTimer =>
    have hfired : { s with timers := s.timers - 1 }.Ordered := h.of_eq rfl rfl rfl rfl rfl
    exact close_ordered hfired _
  | dpPendingFunctors hphase =>
    exact ⟨h.inOrder.take (h.drained (by simp [hphase])), fun hne ↦ (hne rfl).elim, h.ran, h.called⟩
  | functor hphase _ hnext hrun => exact functor_ordered h hphase hnext hrun
  | batchEnd _ _ hnone =>
    exact ⟨h.inOrder, fun _ ↦ Batch.Queue.next_eq_none.mp hnone, h.ran, h.called⟩

/-! ## 2. The bytes -/

/-- What the kernel took and what waits are the messages sent, and the channel asks for write events
as long as something waits. -/
structure Streamed {T : Type} (s : TcpLoop T) : Prop where
  bytes : s.accepted ++ s.conn.outputBuffer = (s.ran.map Prod.snd).flatten
  writing : s.conn.chnnel.isWriting = true ↔ s.conn.outputBuffer ≠ []

/-- `sendInLoop` does not find the connection broken. -/
def Label.Unbroken : Label T → Prop
  | .call _ io | .functor io => io.write ≠ .failed .pipe ∧ io.write ≠ .failed .connReset
  | _ => True

instance : (l : Label T) → Decidable l.Unbroken
  | .call _ io | .functor io => inferInstanceAs (Decidable (io.write ≠ _ ∧ io.write ≠ _))
  | .callFrom _ _ | .proceed _ | .queueUser | .queueDestoryed | .serverDestoryed
  | .connectEstablished | .conncetDestoryed | .ret | .task _ | .pollReturn _ | .handleEvent
  | .handleOther | .handleTimer | .dpPendingFunctors => .isTrue trivial

section Streamed

omit [DecidableEq T]

variable {s u : TcpLoop T} {io : Io}

theorem init_streamed (hightWaterMark : Nat) (writeComplete hightWater : Bool) :
    (init (.init hightWaterMark writeComplete hightWater) : TcpLoop T).Streamed :=
  ⟨rfl, by simp [init, TcpConnection.init, Chnnel.init, Chnnel.isWriting]⟩

/-- Without write interest nothing waits, and the kernel has taken everything. -/
theorem Streamed.drained (h : s.Streamed) (hw : s.conn.chnnel.isWriting = false) :
    s.conn.outputBuffer = [] ∧ s.accepted = (s.ran.map Prod.snd).flatten := by
  have hempty : s.conn.outputBuffer = [] := by
    by_contra hne
    simp [h.writing.mpr hne] at hw
  have hbytes := h.bytes
  rw [hempty, List.append_nil] at hbytes
  exact ⟨hempty, hbytes⟩

theorem Streamed.of_eq (h : s.Streamed) (hacc : u.accepted = s.accepted) (hran : u.ran = s.ran)
    (hbuf : u.conn.outputBuffer = s.conn.outputBuffer)
    (hw : u.conn.chnnel.isWriting = s.conn.chnnel.isWriting) : u.Streamed where
  bytes := by rw [hacc, hran, hbuf]; exact h.bytes
  writing := by rw [hbuf, hw]; exact h.writing

theorem sendInLoop_streamed {sender : Option T} {message : Message} (h : s.Streamed)
    (hopen : s.conn.state ≠ .cDisconnected)
    (hio : io.write ≠ .failed .pipe ∧ io.write ≠ .failed .connReset)
    (hstep : s.sendInLoop sender message io = some u) : u.Streamed := by
  obtain ⟨o, ho, rfl⟩ := sendInLoop_eq_some.mp hstep
  rcases TcpConnection.sendInLoop_cases ho with
    ⟨hdown, -⟩ | ⟨hbroken, -⟩ | ⟨-, n, front, -, hdirect, -, rfl⟩
  · exact (hopen hdown).elim
  · exact (hbroken.elim hio.1 hio.2).elim
  · have hbytes := h.bytes
    have hwriting := h.writing
    -- a direct write finds nothing waiting, so its bytes follow what the kernel has
    have hfirst : message.take n ++ (s.conn.outputBuffer ++ message.drop n) =
        s.conn.outputBuffer ++ message := by
      rcases hdirect with rfl | hempty
      · simp
      · simp [hempty]
    constructor
    · calc
        (s.accepted ++ message.take n) ++ (s.conn.append (message.drop n)).outputBuffer
          = s.accepted ++ (message.take n ++ (s.conn.outputBuffer ++ message.drop n)) := by simp
        _ = (s.accepted ++ s.conn.outputBuffer) ++ message := by rw [hfirst, List.append_assoc]
        _ = ((s.ran ++ [(sender, message)]).map Prod.snd).flatten := by rw [hbytes]; simp
    · show (s.conn.append (message.drop n)).chnnel.isWriting = true ↔
        (s.conn.append (message.drop n)).outputBuffer ≠ []
      rw [TcpConnection.append_isWriting, TcpConnection.append_outputBuffer, Bool.or_eq_true,
        hwriting]
      simp [List.append_eq_nil_iff, -List.drop_eq_nil_iff]
      tauto

theorem handleWrite_streamed (h : s.Streamed) (hstep : s.handleWrite io = some u) : u.Streamed := by
  obtain ⟨o, drained, ho, rfl⟩ := handleWrite_eq_some.mp hstep
  have hbytes := h.bytes
  rcases TcpConnection.handleWrite_cases ho with
    ⟨rfl, rfl⟩ | ⟨n, -, hn, rfl, hw, rfl⟩ | ⟨-, rfl, -, queue, -, rfl⟩
  · exact h.of_eq (List.append_nil _) rfl rfl rfl
  · -- a part was written, and the rest still waits
    constructor
    · show (s.accepted ++ s.conn.outputBuffer.take n) ++ s.conn.outputBuffer.drop n = _
      rw [List.append_assoc, List.take_append_drop]
      exact hbytes
    · show s.conn.chnnel.isWriting = true ↔ s.conn.outputBuffer.drop n ≠ []
      simp [hw, hn]
  · -- nothing is left, and the channel stops asking
    constructor
    · show (s.accepted ++ s.conn.outputBuffer) ++ [] = _
      rw [List.append_nil]
      exact hbytes
    · show s.conn.chnnel.disableWriting.isWriting = true ↔ ([] : List UInt8) ≠ []
      simp [Chnnel.isWriting]

theorem shutdownInLoop_streamed (h : s.Streamed) : s.shutdownInLoop.Streamed := by
  unfold shutdownInLoop
  split
  · exact h
  · exact h.of_eq rfl rfl rfl rfl

theorem close_streamed (h : s.Streamed) (c : Closing) : (s.close c).Streamed := by
  unfold close
  split
  · cases c with
    | shutdown => exact shutdownInLoop_streamed (h.of_eq rfl rfl rfl rfl)
    | forceClose | forceCloseWithDelay => exact h.of_eq rfl rfl rfl rfl
  · exact h

theorem setReading_streamed (h : s.Streamed) {c : TcpConnection}
    (hc : c = s.conn.startReadInLoop ∨ c = s.conn.stopReadInLoop) : (s.setConn c).Streamed := by
  rcases hc with rfl | rfl
  · exact h.of_eq rfl rfl (by simp [setConn]) (by simp [setConn])
  · exact h.of_eq rfl rfl (by simp [setConn]) (by simp [setConn])

theorem runTask_streamed {task : Task} (h : s.Streamed) (hstep : s.runTask io task = some u)
    (hopen' : u.conn.state ≠ .cDisconnected) : u.Streamed := by
  cases task with
  | user => cases hstep
  | writeEvent => exact handleWrite_streamed h hstep
  | drained =>
    cases hstep
    split
    · exact shutdownInLoop_streamed h
    · exact h
  | readEvent =>
    simp only [runTask] at hstep
    split at hstep <;> cases hstep
    · exact h.of_eq rfl rfl rfl rfl
    · exact (hopen' rfl).elim
    · exact h
  | closeEvent | destroyConnected =>
    cases hstep
    exact (hopen' rfl).elim
  | closeCallBack | remove | queueForceClose =>
    cases hstep
    exact h.of_eq rfl rfl rfl rfl

theorem runFunctor_streamed {f : LoopFunctor T} (h : s.Streamed)
    (hopen : s.conn.state ≠ .cDisconnected)
    (hio : io.write ≠ .failed .pipe ∧ io.write ≠ .failed .connReset)
    (hstep : s.runFunctor io f = some u) (hopen' : u.conn.state ≠ .cDisconnected) : u.Streamed := by
  cases f with
  | sendInLoop sender message => exact sendInLoop_streamed h hopen hio hstep
  | shutdownInLoop =>
    cases hstep
    exact shutdownInLoop_streamed h
  | forceCloseInLoop =>
    by_cases hclose : s.conn.closable
    · simp only [runFunctor, if_pos hclose, Option.some.injEq] at hstep
      subst hstep
      exact (hopen' rfl).elim
    · simp only [runFunctor, if_neg hclose, Option.some.injEq] at hstep
      subst hstep
      exact h
  | startReadInLoop =>
    cases hstep
    exact setReading_streamed h (Or.inl rfl)
  | stopReadInLoop =>
    cases hstep
    exact setReading_streamed h (Or.inr rfl)
  | conncetDestoryed | addTimer | writeCompleteCallBack | hightWaterMarkCallBack | user =>
    cases hstep
    exact h.of_eq rfl rfl rfl rfl

end Streamed

/-- As long as the connection is not disconnected and no message was lost. -/
theorem step_streamed {s u : TcpLoop T} {l : Label T} (h : s.Streamed)
    (hopen : s.conn.state ≠ .cDisconnected) (hio : l.Unbroken) (hstep : s.step l = some u)
    (hopen' : u.conn.state ≠ .cDisconnected) : u.Streamed := by
  cases step_cases hstep with
  | @callFrom t c =>
    cases c <;> simp only [callFrom] <;> first | split | skip
    all_goals first | exact h | exact h.of_eq rfl rfl rfl rfl
  | connectEstablished =>
    refine h.of_eq rfl rfl rfl ?_
    simp [connectionCallBack, setConn, todo, TcpConnection.connectEstablished, Chnnel.isWriting]
  | @call c io _ _ _ hcall =>
    cases c with
    | send message =>
      simp only [call] at hcall
      split at hcall
      · exact sendInLoop_streamed h hopen hio hcall
      · cases hcall
        exact h
    | close c =>
      cases hcall
      exact close_streamed h c
    | startRead =>
      cases hcall
      exact setReading_streamed h (Or.inl rfl)
    | stopRead =>
      cases hcall
      exact setReading_streamed h (Or.inr rfl)
  | @task _ rest _ _ _ htask =>
    have hrest : { s with agenda := rest }.Streamed := h.of_eq rfl rfl rfl rfl
    exact runTask_streamed hrest htask hopen'
  | handleTimer =>
    have hfired : { s with timers := s.timers - 1 }.Streamed := h.of_eq rfl rfl rfl rfl
    exact close_streamed hfired _
  | @functor _ q _ _ _ _ _ hrun =>
    have hrest : { s with functors := q }.Streamed := h.of_eq rfl rfl rfl rfl
    exact runFunctor_streamed hrest hopen hio hrun hopen'
  | sending | setting | queueing | queueUser | serverDestoryed | queueDestoryed | conncetDestoryed
  | ret | pollReturn | handleEvent | handleOther | dpPendingFunctors | batchEnd =>
    exact h.of_eq rfl rfl rfl rfl

/-- The connection is up, and no message is lost to a broken one. -/
def Open (s : TcpLoop T) (l : Label T) : Prop := s.conn.state ≠ .cDisconnected ∧ l.Unbroken

instance (s : TcpLoop T) (l : Label T) : Decidable (s.Open l) := inferInstanceAs (Decidable (_ ∧ _))

/-- **Output stream integrity.**  As long as the connection is not disconnected, in every run with any
senders and any results of `write`: the bytes the kernel took, followed by what waits in
`_outputBuffer`, are the messages whose `sendInLoop` has run, one after the other; every thread's
messages are sent in the order of its calls; and the channel asks for write events exactly as long
as something waits. -/
theorem output_stream {hightWaterMark : Nat} {writeComplete hightWater : Bool} {ls : List (Label T)}
    {s : TcpLoop T}
    (h : Trace.run step (init (.init hightWaterMark writeComplete hightWater)) ls = some s)
    (hopen : Trace.Along step Open (init (.init hightWaterMark writeComplete hightWater)) ls)
    (hstate : s.conn.state ≠ .cDisconnected) :
    s.accepted ++ s.conn.outputBuffer = (s.ran.map Prod.snd).flatten ∧
      (∀ t, s.ran.filterMap (sentBy t) <+: s.called t) ∧
      (s.conn.chnnel.isWriting = true ↔ s.conn.outputBuffer ≠ []) := by
  have hord : s.Ordered :=
    Trace.run_inv (fun _ _ _ hs hstep ↦ step_ordered hs hstep) (init_ordered _) h
  have hstream : s.conn.state ≠ .cDisconnected → s.Streamed := by
    refine Trace.run_inv_along (I := fun s ↦ s.conn.state ≠ .cDisconnected → s.Streamed)
      (fun s l u hs hp hstep hu ↦ ?_) (fun _ ↦ init_streamed ..) hopen h
    exact step_streamed (hs hp.1) hp.1 hp.2 hstep hu
  refine ⟨(hstream hstate).bytes, fun t ↦ ?_, (hstream hstate).writing⟩
  -- what was run is a first part of what was queued, and that of what was called
  rw [hord.ran t, ← hord.called t, ← hord.inOrder, List.filterMap_append, List.filterMap_append,
    List.append_assoc, List.append_assoc]
  exact List.prefix_append ..

/-- Two threads and the loop thread, with writes that take a part, nothing, or all. -/
theorem output_stream_partial_writes :
    ∃ s : TcpLoop Bool, Trace.run step (init (.init 100 true true))
        [.pollReturn none, .handleOther, .connectEstablished, .ret,
          .callFrom true (.send [1, 2, 3]), .callFrom false (.send [4]), .proceed true,
          .callFrom true (.send [5]), .proceed false, .proceed true, .ret, .dpPendingFunctors,
          .functor ⟨.wrote 1, .data⟩, .functor ⟨.wrote 0, .data⟩, .functor ⟨.wrote 0, .data⟩,
          .functor ⟨.wrote 0, .data⟩, .pollReturn (some ⟨false, false, false, false, true, false⟩),
          .handleEvent, .task ⟨.wrote 2, .data⟩, .handleOther, .call (.send [6]) ⟨.wrote 0, .data⟩] =
          some s ∧
      s.accepted ++ s.conn.outputBuffer = [1, 2, 3, 4, 5, 6] ∧
      s.conn.chnnel.isWriting = true := by
  refine ⟨_, rfl, ?_⟩
  have h := output_stream (show Trace.run (step (T := Bool)) (init (.init 100 true true))
    [.pollReturn none, .handleOther, .connectEstablished, .ret,
      .callFrom true (.send [1, 2, 3]), .callFrom false (.send [4]), .proceed true,
      .callFrom true (.send [5]), .proceed false, .proceed true, .ret, .dpPendingFunctors,
      .functor ⟨.wrote 1, .data⟩, .functor ⟨.wrote 0, .data⟩, .functor ⟨.wrote 0, .data⟩,
      .functor ⟨.wrote 0, .data⟩, .pollReturn (some ⟨false, false, false, false, true, false⟩),
      .handleEvent, .task ⟨.wrote 2, .data⟩, .handleOther, .call (.send [6]) ⟨.wrote 0, .data⟩] =
      some _ from rfl) (by decide) (by decide)
  exact ⟨h.1, h.2.2.mpr (by decide)⟩

end TcpLoop

end Netlib
