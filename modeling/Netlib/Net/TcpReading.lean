import Netlib.Net.TcpDestroy
import Netlib.Net.TcpOutput

/-!
# Reading, and `stopRead`

`stopRead` takes the read events out of the mask of the channel and out of the kernel's interest, so
no later poll records one.  What the current poll has recorded is served all the same:
`handleEventWithGuard` chooses its calls from `_revevts` alone, and `handleRead`, unlike
`handleWrite`, does not look at the mask.
-/

namespace Netlib

/-- The kernel is asked for the mask, where it is asked at all. -/
def Chnnel.Asked (c : Chnnel) : Prop := ∀ e, c.interest = some e → e = c.events

theorem Chnnel.Updated.asked {c d : Chnnel} (h : c.Updated d) : d.Asked := by
  obtain ⟨events, rfl⟩ := h
  intro e he
  rw [update_interest] at he
  split at he
  · cases he
  · rw [update_events]
    exact (Option.some.inj he).symm

theorem Chnnel.Asked.remove {c : Chnnel} (h : c.Asked) : c.remove.Asked := by
  intro e he
  simp only [Chnnel.remove] at he
  split at he
  · cases he
  · exact h e he

/-- What the recorded events of the connection will have the loop do. -/
def LoopPhase.recorded : LoopPhase → List Task
  | .events (some r) => r.tasks
  | _ => []

theorem LoopPhase.mem_recorded {p : LoopPhase} {a : Task} :
    a ∈ p.recorded ↔ ∃ r, p = .events (some r) ∧ a ∈ r.tasks := by
  cases p with
  | poll | functors => simp [recorded]
  | events own => cases own <;> simp [recorded]

namespace TcpConnection

variable {T : Type} {c : TcpConnection} {w : WriteResult} {o : Outcome T}

@[simp] theorem append_isReading (c : TcpConnection) (rest : List UInt8) :
    (c.append rest).chnnel.isReading = c.chnnel.isReading := by
  unfold append
  split
  · rfl
  · dsimp only
    split
    · rfl
    · simp [Chnnel.isReading]

/-- A write does not touch the read side. -/
theorem sendInLoop_isReading {message : Message} (h : c.sendInLoop message w = some o) :
    o.conn.chnnel.isReading = c.chnnel.isReading := by
  rcases sendInLoop_cases h with ⟨-, rfl⟩ | ⟨-, rfl⟩ | ⟨-, n, front, -, -, -, rfl⟩
  · rfl
  · rfl
  · exact append_isReading c _

theorem handleWrite_isReading {drained : Bool} (h : c.handleWrite w = some (o, drained)) :
    o.conn.chnnel.isReading = c.chnnel.isReading := by
  rcases handleWrite_cases h with ⟨rfl, -⟩ | ⟨n, -, -, -, -, rfl⟩ | ⟨-, -, -, queue, -, rfl⟩
  · rfl
  · rfl
  · simp [Chnnel.isReading]

/-- A `write` that fails leaves everything to the next event. -/
theorem handleWrite_failed (c : TcpConnection) (e : WriteErrno) :
    c.handleWrite (.failed e) = some ((⟨c, [], []⟩ : Outcome T), false) := by
  unfold handleWrite
  split <;> rfl

end TcpConnection

namespace TcpLoop

variable {T : Type}

/-- The step calls `_messageCallBack`. -/
inductive Delivers (s : TcpLoop T) : Label T → Prop
  | data {io : Io} : s.agenda.head? = some .readEvent → io.read = .data → Delivers s (.task io)

/-- The step runs `startReadInLoop`, for a `startRead` on the loop thread or for one that another
thread has queued, or it establishes the connection, which reads without being told to. -/
inductive StartsRead (s : TcpLoop T) : Label T → Prop
  | call {io : Io} : StartsRead s (.call .startRead io)
  | queued {l : Label T} : s.Runs l .startReadInLoop → StartsRead s l
  | established : StartsRead s .connectEstablished

/-- The step is a call of `startRead`, on any thread. -/
inductive Label.CallsStartRead : Label T → Prop
  | call {io : Io} : CallsStartRead (.call .startRead io)
  | callFrom {t : T} : CallsStartRead (.callFrom t .startRead)

/-- The kernel reports a read event only to who has asked for it. -/
def Requested (s : TcpLoop T) : Label T → Prop
  | .pollReturn (some r) =>
    .readEvent ∈ r.tasks → ∃ e, s.conn.chnnel.interest = some e ∧ e.read = true
  | _ => True

/-- A read event that the last poll has recorded for the connection is still to be served. -/
def ReadPending (s : TcpLoop T) : Prop := .readEvent ∈ s.agenda ∨ .readEvent ∈ s.phase.recorded

instance (s : TcpLoop T) : Decidable s.ReadPending := inferInstanceAs (Decidable (_ ∨ _))

/-- No run calls `_messageCallBack` before a step that meets `P`. -/
def SilentUntil [DecidableEq T] (P : TcpLoop T → Label T → Prop) (s : TcpLoop T) : Prop :=
  ∀ ls, Trace.Along step (fun s l ↦ s.Requested l ∧ ¬ P s l) s ls →
    Trace.Along step (fun s l ↦ ¬ s.Delivers l) s ls

/-! ## 1. What a step does to the read side -/

/-- By default a step leaves the mask, the phase of the loop and the functors run so far alone. -/
structure ReadSpec (s : TcpLoop T) (l : Label T) (u : TcpLoop T) : Prop where
  reading : u.conn.chnnel.isReading = true → s.conn.chnnel.isReading = true ∨ s.StartsRead l := by
    exact Or.inl
  phase : u.phase = s.phase ∨ (∀ r, u.phase ≠ .events (some r)) ∨
    (∃ own, l = .pollReturn own ∧ u.phase = .events own) := by exact Or.inl rfl
  executed : s.functors.executed <+: u.functors.executed := by exact List.prefix_rfl

section Spec

variable {s u : TcpLoop T} {l : Label T} {io : Io} {q : Batch.Queue (LoopFunctor T)}

theorem shutdownInLoop_readSpec (h : ReadSpec s l u) : ReadSpec s l u.shutdownInLoop := by
  obtain ⟨hs, heq, -⟩ := shutdownInLoop_eq u
  rw [heq]
  exact ⟨h.reading, h.phase, h.executed⟩

theorem handleClose_readSpec (rest : List Task) (hq : s.functors.executed <+: q.executed) :
    ReadSpec s l { s with agenda := rest, functors := q }.handleClose where
  reading := fun hr ↦ by
    simp [handleClose, connectionCallBack, todo, setConn, TcpConnection.disconnect,
      Chnnel.diableAll, Chnnel.isReading] at hr
  executed := hq

theorem sendInLoop_readSpec {sender : Option T} {message : Message}
    (hq : s.functors.executed <+: q.executed)
    (h : { s with functors := q }.sendInLoop sender message io = some u) : ReadSpec s l u := by
  obtain ⟨o, ho, rfl⟩ := sendInLoop_eq_some.mp h
  exact {
    reading := fun hr ↦ Or.inl ((TcpConnection.sendInLoop_isReading ho).symm.trans hr)
    executed := hq }

theorem stopReadInLoop_readSpec (hq : s.functors.executed <+: q.executed) :
    ReadSpec s l ({ s with functors := q }.setConn s.conn.stopReadInLoop) where
  reading := fun hr ↦ by
    have hoff := TcpConnection.stopReadInLoop_isReading s.conn
    exact absurd (hoff.symm.trans hr) (by decide)
  executed := hq

theorem close_readSpec (s : TcpLoop T) (l : Label T) (c : Closing) : ReadSpec s l (s.close c) := by
  unfold close
  split
  · cases c with
    | shutdown => exact shutdownInLoop_readSpec {}
    | forceClose | forceCloseWithDelay => exact {}
  · exact {}

theorem call_readSpec {c : Call} (h : s.call io c = some u) : ReadSpec s (.call c io) u := by
  cases c with
  | send message =>
    simp only [call] at h
    split at h
    · exact sendInLoop_readSpec (q := s.functors) List.prefix_rfl h
    · cases h
      exact {}
  | close c =>
    cases h
    exact close_readSpec s _ c
  | startRead =>
    cases h
    exact { reading := fun _ ↦ Or.inr .call }
  | stopRead =>
    cases h
    exact stopReadInLoop_readSpec (q := s.functors) List.prefix_rfl

theorem task_readSpec {a : Task} {rest : List Task}
    (h : { s with agenda := rest }.runTask io a = some u) : ReadSpec s l u := by
  cases a with
  | user => cases h
  | closeEvent =>
    cases h
    exact handleClose_readSpec (q := s.functors) rest List.prefix_rfl
  | readEvent =>
    simp only [runTask] at h
    split at h
    · cases h
      exact {}
    · cases h
      exact handleClose_readSpec (q := s.functors) rest List.prefix_rfl
    · cases h
      exact {}
  | writeEvent =>
    obtain ⟨o, drained, ho, rfl⟩ := handleWrite_eq_some.mp h
    have hread := TcpConnection.handleWrite_isReading ho
    cases drained with
    | false => exact { reading := fun hr ↦ Or.inl (hread.symm.trans hr) }
    | true => exact { reading := fun hr ↦ Or.inl (hread.symm.trans hr) }
  | drained =>
    cases h
    split
    · exact shutdownInLoop_readSpec {}
    · exact {}
  | destroyConnected =>
    cases h
    exact {
      reading := fun hr ↦ by
        simp [connectionCallBack, todo, setConn, TcpConnection.disconnect, Chnnel.diableAll,
          Chnnel.isReading] at hr }
  | closeCallBack | remove | queueForceClose =>
    cases h
    exact {}

theorem functor_readSpec {f : LoopFunctor T} (hnext : s.functors.next = some (f, q))
    (h : { s with functors := q }.runFunctor io f = some u) : ReadSpec s (.functor io) u := by
  have hq : s.functors.executed <+: q.executed := by
    obtain ⟨rest, -, rfl⟩ := Batch.Queue.next_eq_some.mp hnext
    exact List.prefix_append ..
  cases f with
  | sendInLoop sender message => exact sendInLoop_readSpec hq h
  | shutdownInLoop =>
    cases h
    exact shutdownInLoop_readSpec { executed := hq }
  | forceCloseInLoop =>
    cases h
    split
    · exact handleClose_readSpec s.agenda hq
    · exact { executed := hq }
  | startReadInLoop =>
    cases h
    exact { reading := fun _ ↦ Or.inr (.queued ⟨io, q, rfl, hnext⟩), executed := hq }
  | stopReadInLoop =>
    cases h
    exact stopReadInLoop_readSpec hq
  | conncetDestoryed | addTimer | writeCompleteCallBack | hightWaterMarkCallBack | user =>
    cases h
    exact { executed := hq }

theorem step_readSpec [DecidableEq T] (h : s.step l = some u) : ReadSpec s l u := by
  cases step_cases h with
  | @callFrom t c _ =>
    cases c with
    | send | close =>
      simp only [callFrom]
      split
      · exact {}
      · exact {}
    | startRead | stopRead => exact {}
  | connectEstablished => exact { reading := fun _ ↦ Or.inr .established }
  | call _ hcall => exact call_readSpec hcall
  | task _ htask => exact task_readSpec htask
  | @pollReturn own => exact { phase := Or.inr (Or.inr ⟨own, rfl, rfl⟩) }
  | handleEvent | dpPendingFunctors | batchEnd => exact { phase := Or.inr (Or.inl (by simp)) }
  | handleTimer =>
    have hclose := close_readSpec { s with timers := s.timers - 1 } .handleTimer .forceClose
    refine ⟨fun hr ↦ (hclose.reading hr).imp_right fun hstarts ↦ ?_, hclose.phase, hclose.executed⟩
    cases hstarts with
    | queued hruns => exact .queued hruns
  | functor _ _ hnext hrun => exact functor_readSpec hnext hrun
  | sending | setting | queueing | queueUser | queueDestoryed | serverDestoryed | conncetDestoryed
  | ret | handleOther => exact {}

end Spec

/-! ## 2. Behind a `stopRead` with no read event to come -/

/-- Nothing reads, and nothing will without being told to. -/
structure Quiet (s : TcpLoop T) : Prop where
  asked : s.conn.chnnel.Asked
  reading : s.conn.chnnel.isReading = false
  served : ¬ s.ReadPending

theorem Quiet.not_delivers {s : TcpLoop T} (h : s.Quiet) (l : Label T) : ¬ s.Delivers l := by
  intro hdel
  cases hdel with
  | data hhead _ => exact h.served (Or.inl (List.mem_of_mem_head? hhead))

/-- Only the poll records read events. -/
theorem readEvent_of_adds {s u : TcpLoop T} {l : Label T} (h : s.Adds u l .readEvent) :
    s.ReadPending := by
  generalize ha : Task.readEvent = a at h
  cases h with
  | event hphase hmem => exact Or.inr (LoopPhase.mem_recorded.mpr ⟨_, hphase, ha ▸ hmem⟩)
  | user | drained | closeCallBack | forceClose | timer | destroyConnected | remove => cases ha

section Steps

variable [DecidableEq T] {s u : TcpLoop T} {l : Label T}

theorem remove_of_step {io : Io} (hhead : s.agenda.head? = some .remove)
    (hstep : s.step (.task io) = some u) : u.conn.chnnel = s.conn.chnnel.remove := by
  obtain ⟨rest, hagenda⟩ := List.head?_eq_some_iff.mp hhead
  simp only [step, hagenda, runTask, Option.some.injEq] at hstep
  subst hstep
  rfl

theorem step_asked (h : s.conn.chnnel.Asked) (hstep : s.step l = some u) :
    u.conn.chnnel.Asked := by
  rcases (step_chnnelSpec hstep).chnnel with heq | hupd | ⟨io, rfl, hhead⟩
  · rw [heq]
    exact h
  · exact hupd.asked
  · rw [remove_of_step hhead hstep]
    exact h.remove

/-- A step of a run in which the kernel reports what it was asked for. -/
theorem step_quiet (h : s.Quiet) (hreq : s.Requested l) (hno : ¬ s.StartsRead l)
    (hstep : s.step l = some u) : u.Quiet := by
  have hread := step_readSpec hstep
  constructor
  · exact step_asked h.asked hstep
  · by_contra hon
    rcases hread.reading (Bool.eq_true_of_not_eq_false hon) with hr | hstarts
    · simp [h.reading] at hr
    · exact hno hstarts
  · rintro (hmem | hrecorded)
    · rcases (step_spec hstep).agenda _ hmem with hmem | hadds
      · exact h.served (Or.inl hmem)
      · exact h.served (readEvent_of_adds hadds)
    · obtain ⟨r, hphase, hmem⟩ := LoopPhase.mem_recorded.mp hrecorded
      rcases hread.phase with hsame | hother | ⟨own, rfl, hown⟩
      · exact h.served (Or.inr (hsame ▸ hrecorded))
      · exact hother r hphase
      · -- the poll would have been asked for read events
        obtain rfl : own = some r := LoopPhase.events.inj (hown.symm.trans hphase)
        obtain ⟨e, he, hr⟩ := hreq hmem
        have hoff := h.reading
        rw [h.asked e he] at hr
        simp [Chnnel.isReading, hr] at hoff

theorem Quiet.silent (h : s.Quiet) : s.SilentUntil StartsRead := by
  intro ls hls
  induction ls generalizing s with
  | nil => trivial
  | cons l ls ih =>
    obtain ⟨⟨hreq, hno⟩, hrest⟩ := hls
    exact ⟨h.not_delivers l, fun u hu ↦ ih (step_quiet h hreq hno hu) (hrest u hu)⟩

/-- No `startRead` is on its way. -/
structure NotStarting (s : TcpLoop T) : Prop where
  ordered : s.Ordered
  waiting : .startReadInLoop ∉ s.functors.waiting
  established : s.conn.state ≠ .cConnecting

theorem NotStarting.not_startsRead (h : s.NotStarting) (hcall : ¬ l.CallsStartRead)
    (hstep : s.step l = some u) : ¬ s.StartsRead l := by
  intro hstarts
  cases hstarts with
  | call => exact hcall .call
  | queued hruns =>
    obtain ⟨io, q, -, hnext⟩ := hruns
    apply h.waiting
    rw [Batch.Queue.next_waiting hnext]
    exact List.mem_cons_self
  | established =>
    cases step_cases hstep with
    | connectEstablished _ hstate => exact h.established hstate

theorem step_notStarting (h : s.NotStarting) (hcall : ¬ l.CallsStartRead)
    (hstep : s.step l = some u) : u.NotStarting := by
  have hordered := step_ordered h.ordered hstep
  refine ⟨hordered, fun hmem ↦ ?_, fun hs ↦ h.established (cConnecting_of_step hstep hs)⟩
  obtain ⟨new, hqueued, hnew⟩ := (step_spec hstep).queued
  obtain ⟨ran, hran⟩ := (step_readSpec hstep).executed
  -- what waits now waited before or is new
  have hsplit : ran ++ u.functors.waiting = s.functors.waiting ++ new := by
    have hs : s.functors.executed ++ s.functors.waiting = s.functors.queued := by
      rw [← h.ordered.inOrder, Batch.Queue.waiting, List.append_assoc]
    have hu : u.functors.executed ++ u.functors.waiting = u.functors.queued := by
      rw [← hordered.inOrder, Batch.Queue.waiting, List.append_assoc]
    rw [← hran, hqueued, ← hs, List.append_assoc, List.append_assoc] at hu
    exact List.append_cancel_left hu
  have hmem' : .startReadInLoop ∈ s.functors.waiting ++ new :=
    hsplit ▸ List.mem_append_right ran hmem
  rcases List.mem_append.mp hmem' with hold | hpushed
  · exact h.waiting hold
  · generalize hf : LoopFunctor.startReadInLoop = f at hpushed
    have hpush := hnew f hpushed
    cases hpush with
    | callBack hcb =>
      subst hf
      exact hcb
    | startRead => exact hcall .callFrom
    | closing =>
      rename_i c _
      cases c <;> cases hf
    | user | stopRead | owner | server | forceClose | send => cases hf

theorem Quiet.silent_of_notStarting (h : s.Quiet) (hn : s.NotStarting) :
    s.SilentUntil fun _ l ↦ l.CallsStartRead := by
  intro ls hls
  induction ls generalizing s with
  | nil => trivial
  | cons l ls ih =>
    obtain ⟨⟨hreq, hcall⟩, hrest⟩ := hls
    refine ⟨h.not_delivers l, fun u hu ↦ ?_⟩
    exact ih (step_quiet h hreq (hn.not_startsRead hcall hu) hu) (step_notStarting hn hcall hu)
      (hrest u hu)

end Steps

/-! ## 3. A read event that is still to come comes -/

/-- The loop goes on with what it has begun. -/
def Label.GoesOn : Label T → Prop
  | .ret | .task _ | .handleEvent => True
  | _ => False

theorem runTask_writeEvent_failed (s : TcpLoop T) (e : WriteErrno) (r : ReadResult) :
    s.runTask ⟨.failed e, r⟩ .writeEvent = some (s.settle ⟨s.conn, [], []⟩) := by
  simp only [runTask, handleWrite, TcpConnection.handleWrite_failed]
  rfl

section Drain

variable [DecidableEq T]

/-- Anything on the agenda can be done. -/
theorem exists_done (s : TcpLoop T) (a : Task) {rest : List Task} (h : s.agenda = a :: rest) :
    ∃ ls u, Trace.run step s ls = some u ∧ u.agenda = rest ∧ u.phase = s.phase ∧
      ∀ l ∈ ls, l.GoesOn := by
  let io : Io := ⟨.failed .other, .failed⟩
  cases a with
  | writeEvent =>
    have hstep : s.step (.task io) = some ({ s with agenda := rest }.settle ⟨s.conn, [], []⟩) := by
      simp only [step, h]
      exact runTask_writeEvent_failed _ _ _
    refine ⟨[.task io], _, Trace.run_cons_eq_some.mpr ⟨_, hstep, rfl⟩, rfl, rfl, ?_⟩
    simp [Label.GoesOn]
  | drained =>
    obtain ⟨hs, heq, -⟩ := shutdownInLoop_eq { s with agenda := rest }
    have hstep : s.step (.task io) = some (if s.conn.state = .cDisconnecting then
        { s with agenda := rest, halfCloses := hs } else { s with agenda := rest }) := by
      simp only [step, h, runTask, heq]
    refine ⟨[.task io], _, Trace.run_cons_eq_some.mpr ⟨_, hstep, rfl⟩, ?_, ?_, ?_⟩
    · split <;> rfl
    · split <;> rfl
    · simp [Label.GoesOn]
  | user =>
    cases s
    subst h
    exact ⟨[.ret], _, rfl, rfl, rfl, by simp [Label.GoesOn]⟩
  | readEvent | remove | queueForceClose =>
    cases s
    subst h
    exact ⟨[.task io], _, rfl, rfl, rfl, by simp [Label.GoesOn]⟩
  | closeCallBack | destroyConnected =>
    cases s
    subst h
    exact ⟨[.task io, .ret], _, rfl, rfl, rfl, by simp [Label.GoesOn]⟩
  | closeEvent =>
    -- the connection callback and `_closeCallBack` run user code
    cases s
    subst h
    exact ⟨[.task io, .ret, .task io, .ret], _, rfl, rfl, rfl, by simp [Label.GoesOn]⟩

theorem exists_done_front {s : TcpLoop T} (front : List Task) {rest : List Task}
    (h : s.agenda = front ++ rest) :
    ∃ ls u, Trace.run step s ls = some u ∧ u.agenda = rest ∧ u.phase = s.phase ∧
      ∀ l ∈ ls, l.GoesOn := by
  induction front generalizing s with
  | nil => exact ⟨[], s, rfl, h, rfl, by simp⟩
  | cons a front ih =>
    obtain ⟨ls, m, hm, hagenda, hphase, hls⟩ := exists_done s a h
    obtain ⟨ls', u, hu, hrest, hphase', hls'⟩ := ih hagenda
    refine ⟨ls ++ ls', u, Trace.run_append_eq_some.mpr ⟨m, hm, hu⟩, hrest, hphase'.trans hphase, ?_⟩
    intro l hl
    rcases List.mem_append.mp hl with hl | hl
    · exact hls l hl
    · exact hls' l hl

theorem exists_readEvent_of_mem {s : TcpLoop T} (h : .readEvent ∈ s.agenda) :
    ∃ ls u, Trace.run step s ls = some u ∧ u.agenda.head? = some .readEvent ∧
      ∀ l ∈ ls, l.GoesOn := by
  obtain ⟨front, rest, hagenda⟩ := List.append_of_mem h
  obtain ⟨ls, u, hu, hrest, -, hls⟩ := exists_done_front front hagenda
  exact ⟨ls, u, hu, by rw [hrest]; rfl, hls⟩

theorem ReadPending.exists_readEvent {s : TcpLoop T} (h : s.ReadPending) :
    ∃ ls u, Trace.run step s ls = some u ∧ u.agenda.head? = some .readEvent ∧
      ∀ l ∈ ls, l.GoesOn := by
  rcases h with hmem | hrecorded
  · exact exists_readEvent_of_mem hmem
  · obtain ⟨r, hphase, hmem⟩ := LoopPhase.mem_recorded.mp hrecorded
    -- what was begun first, then the events of the connection
    obtain ⟨ls, m, hm, hagenda, hphase', hls⟩ := exists_done_front s.agenda (List.append_nil _).symm
    have hserve : m.step .handleEvent = some { m with phase := .events none, agenda := r.tasks } := by
      simp only [step, hphase', hphase, hagenda]
    obtain ⟨ls', u, hu, hhead, hls'⟩ :=
      exists_readEvent_of_mem (s := { m with phase := .events none, agenda := r.tasks }) hmem
    refine ⟨ls ++ .handleEvent :: ls', u, ?_, hhead, ?_⟩
    · exact Trace.run_append_eq_some.mpr ⟨m, hm, Trace.run_cons_eq_some.mpr ⟨_, hserve, hu⟩⟩
    · intro l hl
      rcases List.mem_append.mp hl with hl | hl
      · exact hls l hl
      · rcases List.mem_cons.mp hl with rfl | hl
        · trivial
        · exact hls' l hl

omit [DecidableEq T] in
theorem Label.GoesOn.requested {l : Label T} (h : l.GoesOn) (s : TcpLoop T) : s.Requested l := by
  cases l with
  | pollReturn => exact h.elim
  | _ => trivial

omit [DecidableEq T] in
theorem Label.GoesOn.not_startsRead {l : Label T} (h : l.GoesOn) (s : TcpLoop T) :
    ¬ s.StartsRead l := by
  intro hstarts
  cases hstarts with
  | call | established => exact h
  | queued hruns =>
    obtain ⟨io, q, rfl, -⟩ := hruns
    exact h

omit [DecidableEq T] in
theorem Label.GoesOn.not_callsStartRead {l : Label T} (h : l.GoesOn) : ¬ l.CallsStartRead := by
  intro hcall
  cases hcall with
  | call | callFrom => exact h

/-- The message that comes all the same. -/
theorem ReadPending.not_silent {s : TcpLoop T} (h : s.ReadPending)
    {P : TcpLoop T → Label T → Prop} (hP : ∀ s l, l.GoesOn → ¬ P s l) : ¬ s.SilentUntil P := by
  intro hsilent
  obtain ⟨ls, u, hu, hhead, hls⟩ := h.exists_readEvent
  have hgoes : ∀ l ∈ ls ++ [.task ⟨.failed .other, .data⟩], l.GoesOn := by
    intro l hl
    rcases List.mem_append.mp hl with hl | hl
    · exact hls l hl
    · rw [List.mem_singleton.mp hl]
      trivial
  have hquiet := hsilent _ (Trace.along_of_forall_mem fun l hl s ↦
    ⟨(hgoes l hl).requested s, hP s l (hgoes l hl)⟩)
  exact ((Trace.along_append.mp hquiet).2 u hu).1 (.data hhead rfl)

end Drain

/-! ## 4. `stopRead` -/

section StopRead

variable [DecidableEq T] {s u : TcpLoop T} {io : Io}

/-- `stopRead` leaves the agenda, the phase and the functors alone. -/
theorem stopRead_of_step (hstop : s.step (.call .stopRead io) = some u) :
    u = s.setConn s.conn.stopReadInLoop := by
  cases step_cases hstop with
  | call _ hcall => exact (Option.some.inj hcall).symm

theorem stopRead_readPending (hstop : s.step (.call .stopRead io) = some u) :
    u.ReadPending ↔ s.ReadPending := by
  rw [stopRead_of_step hstop]
  rfl

theorem stopRead_quiet (hasked : s.conn.chnnel.Asked) (h : ¬ s.ReadPending)
    (hstop : s.step (.call .stopRead io) = some u) : u.Quiet where
  asked := step_asked hasked hstop
  reading := by
    rw [stopRead_of_step hstop]
    exact TcpConnection.stopReadInLoop_isReading s.conn
  served := fun hpending ↦ h ((stopRead_readPending hstop).mp hpending)

/-- In every run, a `stopRead` on the loop thread stops the messages at once, until the connection
is told to read again, exactly when the current poll has recorded no read event of the connection
that is still to be served.  If no `startRead` is on its way then, that is until the next call of
`startRead`. -/
theorem stopRead_silent_iff {hightWaterMark : Nat} {writeComplete hightWater : Bool}
    {ls : List (Label T)}
    (h : Trace.run step (init (.init hightWaterMark writeComplete hightWater)) ls = some s)
    (hstop : s.step (.call .stopRead io) = some u) :
    (u.SilentUntil StartsRead ↔ ¬ s.ReadPending) ∧
      (s.conn.state ≠ .cConnecting → .startReadInLoop ∉ s.functors.waiting →
        (u.SilentUntil (fun _ l ↦ l.CallsStartRead) ↔ ¬ s.ReadPending)) := by
  have hasked : s.conn.chnnel.Asked :=
    Trace.run_inv (I := fun s : TcpLoop T ↦ s.conn.chnnel.Asked) (fun _ _ _ ↦ step_asked)
      (fun e he ↦ by cases he) h
  have hordered : s.Ordered := Trace.run_inv (fun _ _ _ ↦ step_ordered) (init_ordered _) h
  constructor
  · constructor
    · intro hsilent hpending
      exact ((stopRead_readPending hstop).mpr hpending).not_silent
        (fun s l hl ↦ hl.not_startsRead s) hsilent
    · intro hnone
      exact (stopRead_quiet hasked hnone hstop).silent
  · intro hstate hwaiting
    constructor
    · intro hsilent hpending
      exact ((stopRead_readPending hstop).mpr hpending).not_silent
        (fun _ l hl ↦ hl.not_callsStartRead) hsilent
    · intro hnone
      have hn : u.NotStarting :=
        step_notStarting ⟨hordered, hwaiting, hstate⟩ (by rintro ⟨⟩) hstop
      exact (stopRead_quiet hasked hnone hstop).silent_of_notStarting hn

/-- In the message callback itself, with write events still to be served. -/
theorem stopRead_silent_iff_callBack :
    ∃ s u : TcpLoop Bool,
      Trace.run step (init (.init 100 true true)) [.pollReturn none, .handleOther,
        .connectEstablished, .ret, .ret, .dpPendingFunctors, .functor ⟨.wrote 0, .data⟩,
        .pollReturn (some ⟨false, true, false, false, true, false⟩), .handleEvent,
        .task ⟨.wrote 0, .data⟩] = some s ∧
      s.step (.call .stopRead ⟨.wrote 0, .data⟩) = some u ∧
      u.SilentUntil StartsRead ∧ u.SilentUntil fun _ l ↦ l.CallsStartRead := by
  refine ⟨_, _, rfl, rfl, ?_⟩
  have hrun : Trace.run (step (T := Bool)) (init (.init 100 true true)) [.pollReturn none,
      .handleOther, .connectEstablished, .ret, .ret, .dpPendingFunctors,
      .functor ⟨.wrote 0, .data⟩, .pollReturn (some ⟨false, true, false, false, true, false⟩),
      .handleEvent, .task ⟨.wrote 0, .data⟩] = some _ := rfl
  have h := stopRead_silent_iff hrun
    (show step _ (.call .stopRead ⟨.wrote 0, .data⟩) = some _ from rfl)
  exact ⟨h.1.mpr (by decide), (h.2 (by decide) (by decide)).mpr (by decide)⟩

/-- Another channel comes first in the batch, and its handler calls `stopRead`; the message comes
all the same. -/
theorem stopRead_not_silent :
    ∃ s u : TcpLoop Bool,
      Trace.run step (init (.init 100 true true)) [.pollReturn none, .handleOther,
        .connectEstablished, .ret, .ret, .dpPendingFunctors, .functor ⟨.wrote 0, .data⟩,
        .pollReturn (some ⟨false, true, false, false, false, false⟩), .handleOther] = some s ∧
      s.step (.call .stopRead ⟨.wrote 0, .data⟩) = some u ∧
      ¬ u.SilentUntil fun _ l ↦ l.CallsStartRead := by
  refine ⟨_, _, rfl, rfl, fun hsilent ↦ ?_⟩
  let after : List (Label Bool) := [.ret, .handleEvent, .task ⟨.wrote 0, .data⟩]
  have hgoes : ∀ l ∈ after, l.GoesOn := by simp [after, Label.GoesOn]
  have hquiet := hsilent _ (Trace.along_of_forall_mem fun l hl s ↦
    ⟨(hgoes l hl).requested s, (hgoes l hl).not_callsStartRead⟩)
  exact ((hquiet.2 _ rfl).2 _ rfl).1 (.data rfl rfl)

end StopRead

end TcpLoop

end Netlib
