import Netlib.Net.TcpOutput

/-!
# Closing a connection

The three ways into `handleClose`: `POLLHUP` without `POLLIN`, a read of zero bytes, and
`forceCloseInLoop`.  Section 1 says when the `assert` at its head holds.  Sections 2 and 3 are about a
connection that only its loop thread calls: when it is closed once and then stays out of the
`Epoller`'s interest list.
-/

namespace Netlib

namespace TcpLoop

variable {T : Type}

/-! ## 1. The assertion of `handleClose` -/

/-- The `assert` at the head of `handleClose` has held every time. -/
def AssertHolds (s : TcpLoop T) : Prop :=
  ∀ e ∈ s.closeEntries, e = .cDisconnecting ∨ e = .cDisconnected

/-- The state has left `cConnecting` and `cConnected`. -/
def Left (s : TcpLoop T) : Prop :=
  s.conn.state = .cDisconnecting ∨ s.conn.state = .cDisconnected

/-- The step is not `handleRead` or `handleEventWithGuard` finding that the peer has closed while the
state is still `cConnecting` or `cConnected`. -/
def PeerNotFirst (s : TcpLoop T) : Label T → Prop
  | .task io => s.agenda.head? = some .closeEvent ∨
      s.agenda.head? = some .readEvent ∧ io.read = .eof → s.Left
  | _ => True

instance (s : TcpLoop T) : Decidable s.Left := inferInstanceAs (Decidable (_ ∨ _))

instance (s : TcpLoop T) : (l : Label T) → Decidable (s.PeerNotFirst l)
  | .task io => inferInstanceAs (Decidable (_ ∨ _ ∧ io.read = .eof → s.Left))
  | .callFrom _ _ | .proceed _ | .queueUser | .queueDestoryed | .serverDestoryed
  | .connectEstablished | .conncetDestoryed | .ret | .call _ _ | .pollReturn _ | .handleEvent
  | .handleOther | .handleTimer | .dpPendingFunctors | .functor _ => .isTrue trivial

/-- Whoever forces the close has set the state before. -/
structure ForcedAfter (s : TcpLoop T) : Prop where
  queue : .forceCloseInLoop ∈ s.functors.queued → s.Left
  agenda : .queueForceClose ∈ s.agenda → s.Left
  callers : ∀ t c, s.callers t = .queueing c → s.Left
  holds : s.AssertHolds

variable [DecidableEq T]

theorem left_stays {s u : TcpLoop T} {l : Label T} (hstep : s.step l = some u) (h : s.Left) :
    u.Left := by
  unfold Left at *
  rcases (step_spec hstep).state with heq | hsets
  · rw [heq]
    exact h
  · generalize u.conn.state = e at hsets
    cases hsets with
    | established hc => simp [hc] at h
    | setting | close | timer => exact Or.inl rfl
    | handleClose | destroyConnected => exact Or.inr rfl

theorem step_forcedAfter {s u : TcpLoop T} {l : Label T} (hord : s.functors.InOrder)
    (h : s.ForcedAfter) (hpeer : s.PeerNotFirst l) (hstep : s.step l = some u) : u.ForcedAfter := by
  obtain ⟨⟨new, hqueued, hnew⟩, -, hagenda, -, -, hcallers, -, hentries⟩ := step_spec hstep
  have hstays := left_stays hstep
  constructor
  · -- `forceCloseInLoop` is pushed by a call that has set the state
    intro hmem
    rw [hqueued, List.mem_append] at hmem
    rcases hmem with hmem | hmem
    · exact hstays (h.queue hmem)
    · generalize hf : LoopFunctor.forceCloseInLoop = f at hmem
      cases hnew f hmem with
      | callBack hcb =>
        subst hf
        exact hcb.elim
      | forceClose hhead => exact hstays (h.agenda (List.mem_of_mem_head? hhead))
      | closing hpc => exact hstays (h.callers _ _ hpc)
      | user | startRead | stopRead | owner | server | send => cases hf
  · intro hmem
    rcases hagenda _ hmem with hmem | hadds
    · exact hstays (h.agenda hmem)
    · generalize hf : Task.queueForceClose = a at hadds
      cases hadds with
      | forceClose hdis => exact Or.inl hdis
      | timer _ hdis => exact Or.inl hdis
      | event _ hmem => rcases Revents.mem_tasks hmem with rfl | rfl | rfl <;> cases hf
      | user | drained | closeCallBack | destroyConnected | remove => cases hf
  · intro t c hpc
    rcases hcallers t with heq | hmoves
    · exact hstays (h.callers t c (heq ▸ hpc))
    · rw [hpc] at hmoves
      cases hmoves with
      | set _ hdis => exact Or.inl hdis
  · -- of the three ways into `handleClose` the peer's two are excluded here
    rcases hentries with heq | ⟨hclose, heq⟩
    · rw [AssertHolds, heq]
      exact h.holds
    · have hleft : s.Left := by
        cases hclose with
        | hup hhead => exact hpeer (Or.inl hhead)
        | eof hhead hio => exact hpeer (Or.inr ⟨hhead, hio⟩)
        | forceCloseInLoop hnext => exact h.queue (hord.mem_of_next hnext)
      intro e he
      rw [heq, List.mem_append, List.mem_singleton] at he
      rcases he with he | rfl
      · exact h.holds e he
      · exact hleft

/-- The peer's close is passed on to `handleClose`, whatever the state. -/
theorem peer_handleClose {s u : TcpLoop T} {io : Io} (h : s.step (.task io) = some u)
    (hpeer : s.agenda.head? = some .closeEvent ∨
      s.agenda.head? = some .readEvent ∧ io.read = .eof) :
    u = { s with agenda := s.agenda.tail }.handleClose := by
  cases step_cases h with
  | @task a rest _ _ hagenda htask =>
    rw [hagenda, List.head?_cons, Option.some.injEq, Option.some.injEq] at hpeer
    rw [hagenda, List.tail_cons]
    rcases hpeer with rfl | ⟨rfl, hio⟩
    · simpa [runTask] using htask.symm
    · simpa [runTask, hio] using htask.symm

theorem step_not_assertHolds {s u : TcpLoop T} {l : Label T} (hpeer : ¬ s.PeerNotFirst l)
    (hstep : s.step l = some u) : ¬ u.AssertHolds := by
  cases l with
  | task io =>
    simp only [PeerNotFirst, Classical.not_imp] at hpeer
    obtain ⟨hhead, hleft⟩ := hpeer
    rw [peer_handleClose hstep hhead]
    intro hholds
    exact hleft (hholds s.conn.state (by simp [handleClose, connectionCallBack, todo, setConn]))
  | callFrom | proceed | queueUser | queueDestoryed | serverDestoryed | connectEstablished
  | conncetDestoryed | ret | call | pollReturn | handleEvent | handleOther | handleTimer
  | dpPendingFunctors | functor => exact (hpeer trivial).elim

omit [DecidableEq T] in
theorem init_forcedAfter (conn : TcpConnection) : (init conn : TcpLoop T).ForcedAfter := by
  constructor <;> simp [init, Batch.Queue.empty, AssertHolds]

/-- **When the assertion holds.**  In a run of the connection with any callers, any reads and any poll
events, the `assert` at the head of `handleClose` holds at every entry exactly when no read of zero
bytes and no `POLLHUP` is handled while the state is `cConnecting` or `cConnected`; the third way,
`forceCloseInLoop`, never breaks it. -/
theorem handleClose_assert_iff_peer_not_first {conn : TcpConnection} {ls : List (Label T)}
    {s : TcpLoop T} (h : Trace.run step (init conn) ls = some s) :
    Trace.Always step AssertHolds (init conn) ls ↔ Trace.Along step PeerNotFirst (init conn) ls :=
  Trace.always_iff_along (I := fun s ↦ s.Ordered ∧ s.ForcedAfter)
    (fun _ _ _ hs hp hstep ↦
      ⟨step_ordered hs.1 hstep, step_forcedAfter hs.1.inOrder hs.2 hp hstep⟩)
    (fun _ hs ↦ hs.2.holds) (fun _ _ _ _ hbad hstep ↦ step_not_assertHolds hbad hstep)
    ⟨init_ordered conn, init_forcedAfter conn⟩ h

/-- We shut down, another thread forces the close, and the peer's close comes behind both. -/
theorem handleClose_assert_iff_peer_not_first_shut_down :
    Trace.Always (step (T := Unit)) AssertHolds (init (.init 100 false false))
      [.pollReturn none, .handleOther, .connectEstablished, .call (.close .shutdown) ⟨.wrote 0, .data⟩,
        .ret, .ret, .callFrom () (.close .forceClose), .proceed (), .dpPendingFunctors,
        .functor ⟨.wrote 0, .data⟩, .pollReturn (some ⟨false, true, false, true, false, false⟩),
        .proceed (), .handleEvent, .task ⟨.wrote 0, .eof⟩, .ret, .task ⟨.wrote 0, .data⟩, .ret,
        .dpPendingFunctors, .functor ⟨.wrote 0, .data⟩] :=
  (handleClose_assert_iff_peer_not_first (s := _) rfl).mpr (by decide)

/-- The peer closes an established connection: the read of zero bytes enters `handleClose` in
`cConnected`. -/
theorem handleClose_assert_fails_on_peer_close :
    ∃ s : TcpLoop Unit, Trace.run step (init (.init 100 false false))
        [.pollReturn none, .handleOther, .connectEstablished, .ret, .ret, .dpPendingFunctors,
          .functor ⟨.wrote 0, .data⟩, .pollReturn (some ⟨false, true, false, true, false, false⟩),
          .handleEvent, .task ⟨.wrote 0, .eof⟩] = some s ∧
      s.closeEntries = [.cConnected] ∧ ¬ s.AssertHolds :=
  ⟨_, rfl, rfl, fun h ↦ by simpa using h .cConnected (List.mem_singleton.mpr rfl)⟩

/-! ## 2. A channel behind the close -/

end TcpLoop

/-- What `handleClose` should leave: the descriptor is not in the interest list, the flag says so,
and nothing is asked for. -/
structure Chnnel.Gone (c : Chnnel) : Prop where
  interest : c.interest = none
  flag : c.flag ≠ .cAdded
  none : c.isNoneEvent = true

namespace Chnnel

variable {c : Chnnel}

/-- `diableAll` takes out of the interest list what is flagged as added, -/
theorem diableAll_gone (hflag : c.flag = .cAdded) : c.diableAll.Gone := by
  constructor <;> simp [diableAll, update_interest, update_flag, isNoneEvent, hflag]

/-- and puts everything else in. -/
theorem diableAll_interest (hflag : c.flag ≠ .cAdded) : c.diableAll.interest ≠ .none := by
  simp [diableAll, update_interest, hflag]

theorem Gone.remove (h : c.Gone) : c.remove.Gone := by
  constructor
  · simp [Chnnel.remove, h.interest]
  · simp [Chnnel.remove]
  · exact h.none

theorem Gone.isReading (h : c.Gone) : c.isReading = false := by
  have hnone := h.none
  simp only [isNoneEvent, Bool.and_eq_true, Bool.not_eq_true'] at hnone
  exact hnone.1

theorem Gone.isWriting (h : c.Gone) : c.isWriting = false := by
  have hnone := h.none
  simp only [isNoneEvent, Bool.and_eq_true, Bool.not_eq_true'] at hnone
  exact hnone.2

end Chnnel

namespace TcpConnection

variable {T : Type} {c : TcpConnection}

/-- Behind the close, `startRead` puts the channel into the interest list again. -/
theorem startReadInLoop_interest (h : c.chnnel.Gone) :
    c.startReadInLoop.chnnel.interest ≠ none := by
  unfold startReadInLoop
  rw [if_pos (by simp [h.isReading])]
  simp [Chnnel.enableReading, Chnnel.update_interest, h.flag]

/-- So does `stopRead`, if `_reading` is set. -/
theorem stopReadInLoop_interest (h : c.chnnel.Gone) (hon : c.reading = true) :
    c.stopReadInLoop.chnnel.interest ≠ none := by
  unfold stopReadInLoop
  rw [if_pos (by simp [hon])]
  simp [Chnnel.disableReading, Chnnel.update_interest, h.flag]

theorem stopReadInLoop_gone (h : c.chnnel.Gone) (hoff : c.reading = false) :
    c.stopReadInLoop.chnnel.Gone := by
  unfold stopReadInLoop
  rw [if_neg (by simp [hoff, h.isReading])]
  exact h

theorem sendInLoop_gone {message : Message} {w : WriteResult} {o : Outcome T}
    (h : c.chnnel.Gone) (hs : c.state = .cDisconnected) (ho : c.sendInLoop message w = some o) :
    o.conn.chnnel.Gone := by
  rcases sendInLoop_cases ho with ⟨-, rfl⟩ | ⟨-, rfl⟩ | ⟨hup, -⟩
  · exact h
  · exact h
  · exact (hup hs).elim

theorem handleWrite_gone {w : WriteResult} {o : Outcome T} {drained : Bool}
    (h : c.chnnel.Gone) (ho : c.handleWrite w = some (o, drained)) : o.conn.chnnel.Gone := by
  rcases handleWrite_cases ho with ⟨rfl, -⟩ | ⟨n, -, -, -, -, rfl⟩ | ⟨-, -, hw, -⟩
  · exact h
  · exact h
  · simp [h.isWriting] at hw

end TcpConnection

namespace TcpLoop

variable {T : Type}

/-! ## 3. Closing once -/

/-- No other thread calls the connection. -/
def OnLoopThread (_ : TcpLoop T) : Label T → Prop
  | .callFrom _ _ | .proceed _ => False
  | _ => True

/-- The close callback and the connection callback with `connected()` false have run at most once,
and behind the first `handleClose` the descriptor is not in the interest list. -/
structure ClosedOnce (s : TcpLoop T) : Prop where
  closeCalls : s.closeCalls ≤ 1
  downs : s.downs ≤ 1
  interest : s.closeEntries ≠ [] → s.conn.chnnel.interest = none

/-- Behind `handleClose`, `startRead` is not called, and `stopRead` only with `_reading` cleared;
`handleClose` is entered only with the channel flagged as added, and not in `cDisconnected`. -/
def Tidy (s : TcpLoop T) : Label T → Prop
  | .call .startRead _ => s.closeEntries = []
  | .call .stopRead _ => s.closeEntries = [] ∨ s.conn.reading = false
  | .task io => s.agenda.head? = some .closeEvent ∨
      s.agenda.head? = some .readEvent ∧ io.read = .eof →
      s.conn.state ≠ .cDisconnected ∧ s.conn.chnnel.flag = .cAdded
  | .functor _ => s.functors.next.map Prod.fst = some .forceCloseInLoop → s.conn.closable →
      s.conn.chnnel.flag = .cAdded
  | _ => True

/-- The tallies of a connection that is closed at most once.  `conncetDestoryed` of `~TcpServer` is
the second way to `cDisconnected`; it runs the connection callback, but not the close callback. -/
structure Shut (s : TcpLoop T) : Prop where
  downs : s.downs = if s.conn.state = .cDisconnected then 1 else 0
  entries : s.closeEntries.length ≤ s.downs
  calls : s.closeCalls + s.agenda.count .closeCallBack = s.closeEntries.length
  gone : s.closeEntries ≠ [] → s.conn.chnnel.Gone
  destroying : .destroyConnected ∉ s.agenda.tail
  connected : .destroyConnected ∈ s.agenda → s.conn.state = .cConnected

namespace Shut

variable {s u : TcpLoop T}

theorem state (h : s.Shut) (hentries : s.closeEntries ≠ []) : s.conn.state = .cDisconnected := by
  have hpos := List.length_pos_iff.mpr hentries
  have hle := h.entries
  rw [h.downs] at hle
  by_contra hup
  rw [if_neg hup] at hle
  omega

theorem closedOnce (h : s.Shut) : s.ClosedOnce := by
  have hdowns : s.downs ≤ 1 := by
    rw [h.downs]
    split <;> omega
  have hentries := h.entries
  have hcalls := h.calls
  exact ⟨by omega, hdowns, fun hne ↦ (h.gone hne).interest⟩

/-- While user code runs, `conncetDestoryed` is not at its second half. -/
theorem not_destroying (h : s.Shut) {a : Task} {rest : List Task} (hagenda : s.agenda = a :: rest)
    (ha : a ≠ .destroyConnected) : .destroyConnected ∉ s.agenda := by
  have htail := h.destroying
  rw [hagenda] at htail ⊢
  simp only [List.tail_cons] at htail
  simp [htail, ha.symm]

/-- A step that calls neither callback and leaves a closed connection closed. -/
theorem keep (h : s.Shut) (hdowns : u.downs = s.downs) (hentries : u.closeEntries = s.closeEntries)
    (hcalls : u.closeCalls + u.agenda.count .closeCallBack =
      s.closeCalls + s.agenda.count .closeCallBack)
    (hstate : u.conn.state = .cDisconnected ↔ s.conn.state = .cDisconnected)
    (hgone : s.closeEntries ≠ [] → u.conn.chnnel.Gone)
    (hdestroy : .destroyConnected ∉ u.agenda) : u.Shut where
  downs := by rw [hdowns, h.downs]; simp only [hstate]
  entries := by rw [hdowns, hentries]; exact h.entries
  calls := by rw [hcalls, hentries]; exact h.calls
  gone := by rw [hentries]; exact hgone
  destroying := fun hmem ↦ hdestroy (List.mem_of_mem_tail hmem)
  connected := fun hmem ↦ (hdestroy hmem).elim

/-- A step that touches nothing of this. -/
theorem of_eq (h : s.Shut) (hconn : u.conn = s.conn) (hagenda : u.agenda = s.agenda)
    (hdowns : u.downs = s.downs) (hentries : u.closeEntries = s.closeEntries)
    (hcalls : u.closeCalls = s.closeCalls) : u.Shut where
  downs := by rw [hdowns, hconn]; exact h.downs
  entries := by rw [hdowns, hentries]; exact h.entries
  calls := by rw [hcalls, hagenda, hentries]; exact h.calls
  gone := by rw [hentries, hconn]; exact h.gone
  destroying := by rw [hagenda]; exact h.destroying
  connected := by rw [hagenda, hconn]; exact h.connected

/-- The first `handleClose`. -/
theorem handleClose (h : s.Shut) (hup : s.conn.state ≠ .cDisconnected)
    (hflag : s.conn.chnnel.flag = .cAdded) (hdestroy : .destroyConnected ∉ s.agenda) :
    s.handleClose.Shut := by
  -- the connection was up, so no callback has reported it down
  have hdowns : s.downs = 0 := by rw [h.downs, if_neg hup]
  have hentries := h.entries
  have hcalls := h.calls
  have hagenda : s.handleClose.agenda = .user :: .closeCallBack :: s.agenda := rfl
  refine ⟨?_, ?_, ?_, fun _ ↦ Chnnel.diableAll_gone hflag, ?_, ?_⟩
  · simp [TcpLoop.handleClose, connectionCallBack, todo, setConn, TcpConnection.disconnect, hdowns]
  · simp [TcpLoop.handleClose, connectionCallBack, todo, setConn, TcpConnection.disconnect]
    omega
  · simp [TcpLoop.handleClose, connectionCallBack, todo, setConn]
    omega
  · simp [hagenda, hdestroy]
  · simp [hagenda, hdestroy]

theorem todo (h : s.Shut) (hdestroy : .destroyConnected ∉ s.agenda) (tasks : List Task)
    (htasks : ∀ a ∈ tasks, a ≠ .closeCallBack ∧ a ≠ .destroyConnected) : (s.todo tasks).Shut := by
  refine h.keep rfl rfl ?_ Iff.rfl h.gone ?_
  · have hnone : tasks.count .closeCallBack = 0 :=
      List.count_eq_zero.mpr fun hmem ↦ (htasks _ hmem).1 rfl
    simp [TcpLoop.todo, hnone]
  · simp only [TcpLoop.todo, List.mem_append, not_or]
    exact ⟨fun hmem ↦ (htasks _ hmem).2 rfl, hdestroy⟩

theorem pop (h : s.Shut) {a : Task} {rest : List Task} (hagenda : s.agenda = a :: rest)
    (ha : a ≠ .closeCallBack) : { s with agenda := rest }.Shut := by
  have hrest : .destroyConnected ∉ rest := by simpa [hagenda] using h.destroying
  refine h.keep rfl rfl ?_ Iff.rfl h.gone hrest
  simp [hagenda, List.count_cons_of_ne ha]

theorem setDisconnecting (h : s.Shut) (hdestroy : .destroyConnected ∉ s.agenda)
    (hs : s.conn.closable) : s.setDisconnecting.Shut := by
  refine h.keep rfl rfl rfl ?_ h.gone hdestroy
  rcases hs with hs | hs <;> simp [TcpLoop.setDisconnecting, setConn, hs]

theorem shutdownInLoop (h : s.Shut) : s.shutdownInLoop.Shut := by
  obtain ⟨hs, heq, -⟩ := shutdownInLoop_eq s
  rw [heq]
  exact h.of_eq rfl rfl rfl rfl rfl

theorem close (h : s.Shut) (hdestroy : .destroyConnected ∉ s.agenda) (c : Closing) :
    (s.close c).Shut := by
  unfold TcpLoop.close
  split
  · rename_i hmay
    have hs : s.conn.closable := by
      cases c with
      | shutdown => exact Or.inl hmay
      | forceClose | forceCloseWithDelay => exact hmay
    have hset := h.setDisconnecting hdestroy hs
    cases c with
    | shutdown => exact hset.shutdownInLoop
    | forceClose => exact hset.todo hdestroy [.queueForceClose] (by simp)
    | forceCloseWithDelay => exact hset.of_eq rfl rfl rfl rfl rfl
  · exact h

theorem sendInLoop (h : s.Shut) (hdestroy : .destroyConnected ∉ s.agenda) {sender : Option T}
    {message : Message} {io : Io} (hstep : s.sendInLoop sender message io = some u) : u.Shut := by
  obtain ⟨o, ho, rfl⟩ := sendInLoop_eq_some.mp hstep
  refine h.keep rfl rfl rfl ?_ (fun hne ↦ ?_) hdestroy
  · simp [settle, pushAll, setConn, TcpConnection.sendInLoop_state ho]
  · exact TcpConnection.sendInLoop_gone (h.gone hne) (h.state hne) ho

theorem handleWrite (h : s.Shut) (hdestroy : .destroyConnected ∉ s.agenda) {io : Io}
    (hstep : s.handleWrite io = some u) : u.Shut := by
  obtain ⟨o, drained, ho, rfl⟩ := handleWrite_eq_some.mp hstep
  have hwait : (if drained then s.todo [.drained] else s).Shut := by
    split
    · exact h.todo hdestroy [.drained] (by simp)
    · exact h
  refine hwait.keep rfl rfl rfl ?_ (fun hne ↦ ?_) ?_
  · cases drained <;>
      simp [settle, pushAll, setConn, TcpLoop.todo, TcpConnection.handleWrite_state ho]
  · refine TcpConnection.handleWrite_gone (h.gone ?_) ho
    cases drained <;> exact hne
  · cases drained <;> simp [settle, pushAll, setConn, TcpLoop.todo, hdestroy]

/-- User code on the loop thread. -/
theorem call (h : s.Shut) (hdestroy : .destroyConnected ∉ s.agenda) {c : Call} {io : Io}
    (htidy : s.Tidy (.call c io)) (hstep : s.call io c = some u) : u.Shut := by
  cases c with
  | send message =>
    simp only [TcpLoop.call] at hstep
    split at hstep
    · exact h.sendInLoop hdestroy hstep
    · cases hstep
      exact h
  | close c =>
    cases hstep
    exact h.close hdestroy c
  | startRead =>
    cases hstep
    exact h.keep rfl rfl rfl (by simp [setConn]) (fun hne ↦ (hne htidy).elim) hdestroy
  | stopRead =>
    cases hstep
    refine h.keep rfl rfl rfl (by simp [setConn]) (fun hne ↦ ?_) hdestroy
    exact TcpConnection.stopReadInLoop_gone (h.gone hne) (htidy.resolve_left hne)

/-- `conncetDestoryed` in `cConnected`; it is the first time that the connection goes down. -/
theorem destroyConnected (h : s.Shut) {rest : List Task}
    (hagenda : s.agenda = .destroyConnected :: rest) :
    ({ s with agenda := rest }.setConn s.conn.disconnect).connectionCallBack.Shut := by
  have hs : s.conn.state = .cConnected := h.connected (by simp [hagenda])
  have hdowns : s.downs = 0 := by rw [h.downs, hs]; rfl
  have hnil : s.closeEntries = [] := by
    by_contra hne
    simp [h.state hne] at hs
  have hrest : .destroyConnected ∉ rest := by simpa [hagenda] using h.destroying
  have hcalls := h.calls
  rw [hagenda, List.count_cons_of_ne (by simp)] at hcalls
  refine ⟨?_, ?_, ?_, fun hne ↦ (hne hnil).elim, ?_, ?_⟩
  · simp [connectionCallBack, TcpLoop.todo, setConn, TcpConnection.disconnect, hdowns]
  · simp [connectionCallBack, TcpLoop.todo, setConn, hnil]
  · simpa [connectionCallBack, TcpLoop.todo, setConn] using hcalls
  · simpa [connectionCallBack, TcpLoop.todo, setConn] using hrest
  · simp [connectionCallBack, TcpLoop.todo, setConn, hrest]

theorem conncetDestoryed (h : s.Shut) (hdestroy : .destroyConnected ∉ s.agenda) :
    s.conncetDestoryed.Shut := by
  unfold TcpLoop.conncetDestoryed
  split
  · rename_i hs
    have hcalls := h.calls
    refine ⟨h.downs, h.entries, ?_, h.gone, ?_, fun _ ↦ hs⟩
    · simpa [TcpLoop.todo] using hcalls
    · simpa [TcpLoop.todo] using hdestroy
  · exact h.todo hdestroy [.remove] (by simp)

theorem runTask (h : s.Shut) {task : Task} {rest : List Task} {io : Io}
    (hagenda : s.agenda = task :: rest) (htidy : s.Tidy (.task io))
    (hstep : { s with agenda := rest }.runTask io task = some u) : u.Shut := by
  have hrest : .destroyConnected ∉ rest := by simpa [hagenda] using h.destroying
  simp only [Tidy, hagenda, List.head?_cons, Option.some.injEq] at htidy
  cases task with
  | user => cases hstep
  | closeEvent =>
    cases hstep
    obtain ⟨hup, hflag⟩ := htidy (Or.inl rfl)
    exact (h.pop hagenda (by simp)).handleClose hup hflag hrest
  | readEvent =>
    have hpop := h.pop hagenda (by simp)
    simp only [TcpLoop.runTask] at hstep
    split at hstep <;> cases hstep
    -- bytes for the message callback, the end of the stream, or an error that is only logged
    · exact hpop.todo hrest [.user] (by simp)
    · obtain ⟨hup, hflag⟩ := htidy (Or.inr ⟨rfl, ‹_›⟩)
      exact hpop.handleClose hup hflag hrest
    · exact hpop
  | writeEvent => exact (h.pop hagenda (by simp)).handleWrite hrest hstep
  | drained =>
    have hpop := h.pop hagenda (by simp)
    cases hstep
    split
    · exact hpop.shutdownInLoop
    · exact hpop
  | closeCallBack =>
    -- one call more, one task less
    cases hstep
    refine h.keep rfl rfl ?_ Iff.rfl h.gone (by simpa [TcpLoop.todo] using hrest)
    simp [TcpLoop.todo, hagenda]
    omega
  | destroyConnected =>
    cases hstep
    exact h.destroyConnected hagenda
  | remove =>
    cases hstep
    exact (h.pop hagenda (by simp)).keep rfl rfl rfl Iff.rfl (fun hne ↦ (h.gone hne).remove) hrest
  | queueForceClose =>
    cases hstep
    exact (h.pop hagenda (by simp)).of_eq rfl rfl rfl rfl rfl

/-- A functor; the two that touch the channel are queued by other threads only. -/
theorem runFunctor (h : s.Shut) (hdestroy : .destroyConnected ∉ s.agenda) {f : LoopFunctor T}
    {io : Io} (hf : f ≠ .startReadInLoop ∧ f ≠ .stopReadInLoop)
    (hflag : f = .forceCloseInLoop → s.conn.closable → s.conn.chnnel.flag = .cAdded)
    (hstep : s.runFunctor io f = some u) : u.Shut := by
  cases f with
  | sendInLoop sender message => exact h.sendInLoop hdestroy hstep
  | shutdownInLoop =>
    cases hstep
    exact h.shutdownInLoop
  | forceCloseInLoop =>
    cases hstep
    split
    · rename_i hs
      have hup : s.conn.state ≠ .cDisconnected := by rcases hs with hs | hs <;> simp [hs]
      exact h.handleClose hup (hflag rfl hs) hdestroy
    · exact h
  | startReadInLoop => exact (hf.1 rfl).elim
  | stopReadInLoop => exact (hf.2 rfl).elim
  | conncetDestoryed =>
    cases hstep
    exact h.conncetDestoryed hdestroy
  | addTimer =>
    cases hstep
    exact h.of_eq rfl rfl rfl rfl rfl
  | writeCompleteCallBack | hightWaterMarkCallBack | user =>
    cases hstep
    exact h.todo hdestroy [.user] (by simp)

end Shut

instance (s : TcpLoop T) : Decidable s.ClosedOnce :=
  decidable_of_iff (s.closeCalls ≤ 1 ∧ s.downs ≤ 1 ∧
    (s.closeEntries ≠ [] → s.conn.chnnel.interest = none))
    ⟨fun h ↦ ⟨h.1, h.2.1, h.2.2⟩, fun h ↦ ⟨h.closeCalls, h.downs, h.interest⟩⟩

instance (s : TcpLoop T) : (l : Label T) → Decidable (s.OnLoopThread l)
  | .callFrom _ _ | .proceed _ => .isFalse id
  | .queueUser | .queueDestoryed | .serverDestoryed | .connectEstablished | .conncetDestoryed | .ret
  | .call _ _ | .task _ | .pollReturn _ | .handleEvent | .handleOther | .handleTimer
  | .dpPendingFunctors | .functor _ => .isTrue trivial

variable [DecidableEq T]

instance (s : TcpLoop T) : (l : Label T) → Decidable (s.Tidy l)
  | .call .startRead _ => inferInstanceAs (Decidable (s.closeEntries = []))
  | .call .stopRead _ => inferInstanceAs (Decidable (s.closeEntries = [] ∨ s.conn.reading = false))
  | .task io => inferInstanceAs (Decidable (_ ∨ _ ∧ io.read = .eof → _ ∧ _))
  | .functor _ => inferInstanceAs (Decidable (s.functors.next.map Prod.fst = some _ → _ → _))
  | .callFrom _ _ | .proceed _ | .queueUser | .queueDestoryed | .serverDestoryed
  | .connectEstablished | .conncetDestoryed | .ret | .call (.send _) _ | .call (.close _) _
  | .pollReturn _ | .handleEvent | .handleOther | .handleTimer | .dpPendingFunctors => .isTrue trivial

/-- What a run on the loop thread keeps. -/
structure ShutRun (s : TcpLoop T) : Prop where
  ordered : s.Ordered
  shut : s.Shut
  queue : ∀ f ∈ s.functors.queued, f ≠ .startReadInLoop ∧ f ≠ .stopReadInLoop

theorem step_shut {s u : TcpLoop T} {l : Label T} (h : s.ShutRun) (hloop : s.OnLoopThread l)
    (htidy : s.Tidy l) (hstep : s.step l = some u) : u.Shut := by
  have hshut := h.shut
  have huser {rest : List Task} (hagenda : s.agenda = .user :: rest) :
      .destroyConnected ∉ s.agenda := hshut.not_destroying hagenda (by simp)
  have hempty (hagenda : s.agenda = []) : .destroyConnected ∉ s.agenda := by simp [hagenda]
  cases step_cases hstep with
  | callFrom | sending | setting | queueing => exact hloop.elim
  | connectEstablished hagenda hs =>
    have hset : (s.setConn s.conn.connectEstablished).Shut := by
      refine hshut.keep rfl rfl rfl ?_ (fun hne ↦ ?_) (huser hagenda)
      · simp [setConn, TcpConnection.connectEstablished, hs]
      · simp [hshut.state hne] at hs
    exact hset.todo (huser hagenda) [.user] (by simp)
  | conncetDestoryed hagenda => exact hshut.conncetDestoryed (huser hagenda)
  | call hagenda hcall => exact hshut.call (huser hagenda) htidy hcall
  | ret hagenda => exact hshut.pop hagenda (by simp)
  | task hagenda htask => exact hshut.runTask hagenda htidy htask
  | @handleEvent r _ hagenda =>
    have hevents := hshut.todo (hempty hagenda) r.tasks fun a ha ↦ by
      rcases Revents.mem_tasks ha with rfl | rfl | rfl <;> simp
    exact hevents.of_eq rfl (by simp [todo, hagenda]) rfl rfl rfl
  | handleOther _ hagenda => exact hshut.todo (hempty hagenda) [.user] (by simp)
  | handleTimer _ hagenda =>
    have hfired : { s with timers := s.timers - 1 }.Shut := hshut.of_eq rfl rfl rfl rfl rfl
    exact hfired.close (hempty hagenda) _
  | @functor f q io _ _ hagenda hnext hrun =>
    have hpopped : { s with functors := q }.Shut := hshut.of_eq rfl rfl rfl rfl rfl
    have hf := h.queue f (h.ordered.inOrder.mem_of_next hnext)
    refine hpopped.runFunctor (hempty hagenda) hf (fun hforce ↦ ?_) hrun
    exact htidy (by simp [hnext, hforce])
  | queueUser | serverDestoryed | queueDestoryed | pollReturn | dpPendingFunctors | batchEnd =>
    exact hshut.of_eq rfl rfl rfl rfl rfl

theorem step_queue {s u : TcpLoop T} {l : Label T}
    (h : ∀ f ∈ s.functors.queued, f ≠ .startReadInLoop ∧ f ≠ .stopReadInLoop)
    (hloop : s.OnLoopThread l) (hstep : s.step l = some u) :
    ∀ f ∈ u.functors.queued, f ≠ .startReadInLoop ∧ f ≠ .stopReadInLoop := by
  obtain ⟨new, hqueued, hnew⟩ := (step_spec hstep).queued
  intro f hf
  rw [hqueued, List.mem_append] at hf
  rcases hf with hf | hf
  · exact h f hf
  · cases hnew f hf with
    | callBack hcb => constructor <;> (rintro rfl; exact hcb)
    | startRead | stopRead | send | closing => exact hloop.elim
    | user | owner | server | forceClose => simp

/-- Each step that is not tidy runs a callback once more, or puts the descriptor back. -/
theorem step_not_closedOnce {s u : TcpLoop T} {l : Label T} (h : s.Shut) (htidy : ¬ s.Tidy l)
    (hstep : s.step l = some u) : ¬ u.ClosedOnce := by
  -- with the channel not flagged as added, `diableAll` registers it
  have hadds (v : TcpLoop T) (hflag : v.conn.chnnel.flag ≠ .cAdded) :
      ¬ v.handleClose.ClosedOnce := by
    intro honce
    have hentered : v.handleClose.closeEntries ≠ [] := by
      simp [handleClose, connectionCallBack, todo, setConn]
    exact Chnnel.diableAll_interest hflag (honce.interest hentered)
  cases l with
  | call c io =>
    obtain ⟨-, hstep⟩ : _ ∧ s.call io c = some u := by simpa [step] using hstep
    cases c with
    | startRead =>
      cases hstep
      have hgone := h.gone htidy
      exact fun honce ↦ TcpConnection.startReadInLoop_interest hgone (honce.interest htidy)
    | stopRead =>
      cases hstep
      simp only [Tidy, not_or, Bool.not_eq_false] at htidy
      obtain ⟨hne, hon⟩ := htidy
      exact fun honce ↦ TcpConnection.stopReadInLoop_interest (h.gone hne) hon (honce.interest hne)
    | send | close => exact (htidy trivial).elim
  | task io =>
    simp only [Tidy, Classical.not_imp] at htidy
    obtain ⟨hhead, htidy⟩ := htidy
    rw [peer_handleClose hstep hhead]
    by_cases hs : s.conn.state = .cDisconnected
    · -- the callback has run once on the way to `cDisconnected`
      intro honce
      have hdowns := honce.downs
      simp [handleClose, connectionCallBack, todo, setConn, TcpConnection.disconnect, h.downs, hs]
        at hdowns
    · exact hadds _ fun hflag ↦ htidy ⟨hs, hflag⟩
  | functor io =>
    simp only [Tidy, Classical.not_imp] at htidy
    obtain ⟨hforce, hs, hflag⟩ := htidy
    cases step_cases hstep with
    | functor _ _ hnext hrun =>
      simp only [hnext, Option.map_some, Option.some.injEq] at hforce
      subst hforce
      simp only [runFunctor, if_pos hs, Option.some.injEq] at hrun
      subst hrun
      exact hadds _ hflag
    | batchEnd _ _ hnone => simp [hnone] at hforce
  | callFrom | proceed | queueUser | queueDestoryed | serverDestoryed | connectEstablished
  | conncetDestoryed | ret | pollReturn | handleEvent | handleOther | handleTimer
  | dpPendingFunctors => exact (htidy trivial).elim

theorem init_shutRun (hightWaterMark : Nat) (writeComplete hightWater : Bool) :
    (init (.init hightWaterMark writeComplete hightWater) : TcpLoop T).ShutRun := by
  refine ⟨init_ordered _, ?_, ?_⟩
  · constructor <;> simp [init, TcpConnection.init]
  · simp [init, Batch.Queue.empty]

/-- **When a connection is closed once.**  In a run of a connection that only its loop thread calls,
with any poll events, reads and writes, any callbacks and any delay before `conncetDestoryed`, both
callbacks run at most once and the descriptor stays out of the interest list behind `handleClose`
exactly when the run is tidy. -/
theorem closed_once_iff_tidy {hightWaterMark : Nat} {writeComplete hightWater : Bool}
    {ls : List (Label T)} {s : TcpLoop T}
    (h : Trace.run step (init (.init hightWaterMark writeComplete hightWater)) ls = some s)
    (hloop :
      Trace.Along step OnLoopThread (init (.init hightWaterMark writeComplete hightWater)) ls) :
    Trace.Always step ClosedOnce (init (.init hightWaterMark writeComplete hightWater)) ls ↔
      Trace.Along step Tidy (init (.init hightWaterMark writeComplete hightWater)) ls :=
  Trace.always_iff_along_of (I := ShutRun)
    (fun _ _ _ hs hl hp hstep ↦ ⟨step_ordered hs.ordered hstep, step_shut hs hl hp hstep,
      step_queue hs.queue hl hstep⟩)
    (fun _ hs ↦ hs.shut.closedOnce)
    (fun _ _ _ hs _ hbad hstep ↦ step_not_closedOnce hs.shut hbad hstep)
    (init_shutRun hightWaterMark writeComplete hightWater) hloop h

/-- The user forces the close in the connection callback, and the owner destroys the connection. -/
theorem closed_once_iff_tidy_forceClose :
    Trace.Always (step (T := Unit)) ClosedOnce (init (.init 100 false false))
      [.pollReturn none, .handleOther, .connectEstablished, .call .stopRead ⟨.wrote 0, .data⟩,
        .call .startRead ⟨.wrote 0, .data⟩, .call (.close .forceClose) ⟨.wrote 0, .data⟩,
        .task ⟨.wrote 0, .data⟩, .ret, .ret, .dpPendingFunctors, .functor ⟨.wrote 0, .data⟩,
        .call (.close .forceClose) ⟨.wrote 0, .data⟩, .ret, .task ⟨.wrote 0, .data⟩, .ret,
        .queueDestoryed, .functor ⟨.wrote 0, .data⟩, .pollReturn none, .dpPendingFunctors,
        .functor ⟨.wrote 0, .data⟩, .task ⟨.wrote 0, .data⟩] :=
  (closed_once_iff_tidy (s := _) rfl (by decide)).mpr (by decide)

/-- The connection callback calls `startRead` when the connection goes down.  The descriptor is back
in the interest list, and when the peer closes before the owner's `conncetDestoryed` has run, both
callbacks run a second time. -/
theorem closed_twice_after_startRead :
    ∃ s t : TcpLoop Unit, Trace.run step (init (.init 100 false false))
        [.pollReturn none, .handleOther, .connectEstablished,
          .call (.close .forceClose) ⟨.wrote 0, .data⟩, .task ⟨.wrote 0, .data⟩, .ret, .ret,
          .dpPendingFunctors, .functor ⟨.wrote 0, .data⟩, .call .startRead ⟨.wrote 0, .data⟩, .ret,
          .task ⟨.wrote 0, .data⟩, .ret, .functor ⟨.wrote 0, .data⟩] = some s ∧
      s.closeEntries = [.cDisconnecting] ∧ s.conn.chnnel.interest = some ⟨true, false⟩ ∧
      Trace.run step s [.pollReturn (some ⟨false, true, false, true, false, false⟩), .handleEvent,
        .task ⟨.wrote 0, .eof⟩, .ret, .task ⟨.wrote 0, .data⟩] = some t ∧
      t.closeCalls = 2 ∧ t.downs = 2 ∧ ¬ s.ClosedOnce ∧ ¬ t.ClosedOnce :=
  ⟨_, _, rfl, rfl, rfl, rfl, rfl, rfl, by decide, by decide⟩

end TcpLoop

end Netlib
