import Netlib.Net.TcpConnection

/-!
# Destroying a connection

`conncetDestoryed` is the last call of a connection: `removeConnectionInLoop` queues it behind a
close, and `~TcpServer` for every connection that is still in its map.  It closes a connection in
`cConnected` itself; in every other state it relies on what was done before, and only removes the
channel.
-/

namespace Netlib

/-! ## 1. The channel of an established connection -/

/-- The `Epoller` and the kernel know what the flag says. -/
structure Chnnel.Kept (c : Chnnel) : Prop where
  mapped : c.mapped = true ↔ c.flag ≠ .cNew
  interest : c.interest.isSome = true ↔ c.flag = .cAdded

/-- The mask was changed, by one of the calls that end in `update`. -/
def Chnnel.Updated (c d : Chnnel) : Prop := ∃ events, d = { c with events := events }.update

namespace Chnnel

variable {c d : Chnnel}

theorem Kept.update (h : c.Kept) : c.update.Kept := by
  obtain ⟨hmapped, hinterest⟩ := h
  unfold Chnnel.update
  cases hf : c.flag with
  | cNew => constructor <;> simp
  | cDeleted => constructor <;> simp [hmapped, hf]
  | cAdded =>
    by_cases hn : c.isNoneEvent = true
    · constructor <;> simp [hn, hmapped, hf]
    · constructor <;> simp [hn, hmapped, hf]

theorem Updated.kept (h : c.Updated d) (hc : c.Kept) : d.Kept := by
  obtain ⟨events, rfl⟩ := h
  exact Kept.update ⟨hc.mapped, hc.interest⟩

theorem Updated.flag_ne_cNew (h : c.Updated d) : d.flag ≠ .cNew := by
  obtain ⟨events, rfl⟩ := h
  rw [update_flag]
  split <;> simp

end Chnnel

namespace TcpConnection

variable {T : Type} {c : TcpConnection}

theorem append_chnnel (c : TcpConnection) (rest : List UInt8) :
    (c.append rest).chnnel = c.chnnel ∨ c.chnnel.Updated (c.append rest).chnnel := by
  unfold append
  split
  · exact Or.inl rfl
  · dsimp only
    split
    · exact Or.inl rfl
    · exact Or.inr ⟨_, rfl⟩

theorem sendInLoop_chnnel {message : Message} {w : WriteResult} {o : Outcome T}
    (h : c.sendInLoop message w = some o) :
    o.conn.chnnel = c.chnnel ∨ c.chnnel.Updated o.conn.chnnel := by
  rcases sendInLoop_cases h with ⟨-, rfl⟩ | ⟨-, rfl⟩ | ⟨-, n, front, -, -, -, rfl⟩
  · exact Or.inl rfl
  · exact Or.inl rfl
  · exact append_chnnel c _

theorem handleWrite_chnnel {w : WriteResult} {o : Outcome T} {drained : Bool}
    (h : c.handleWrite w = some (o, drained)) :
    o.conn.chnnel = c.chnnel ∨ c.chnnel.Updated o.conn.chnnel := by
  rcases handleWrite_cases h with ⟨rfl, -⟩ | ⟨n, -, -, -, -, rfl⟩ | ⟨-, -, -, queue, -, rfl⟩
  · exact Or.inl rfl
  · exact Or.inl rfl
  · exact Or.inr ⟨_, rfl⟩

theorem startReadInLoop_chnnel (c : TcpConnection) :
    c.startReadInLoop.chnnel = c.chnnel ∨ c.chnnel.Updated c.startReadInLoop.chnnel := by
  unfold startReadInLoop
  split
  · exact Or.inr ⟨_, rfl⟩
  · exact Or.inl rfl

theorem stopReadInLoop_chnnel (c : TcpConnection) :
    c.stopReadInLoop.chnnel = c.chnnel ∨ c.chnnel.Updated c.stopReadInLoop.chnnel := by
  unfold stopReadInLoop
  split
  · exact Or.inr ⟨_, rfl⟩
  · exact Or.inl rfl

theorem startReadInLoop_isReading (c : TcpConnection) :
    c.startReadInLoop.chnnel.isReading = true := by
  unfold startReadInLoop
  split
  · simp [Chnnel.isReading]
  · rename_i hon
    simp only [Bool.or_eq_true, Bool.not_eq_true', not_or, Bool.not_eq_false] at hon
    exact hon.2

theorem stopReadInLoop_isReading (c : TcpConnection) :
    c.stopReadInLoop.chnnel.isReading = false := by
  unfold stopReadInLoop
  split
  · simp [Chnnel.isReading]
  · rename_i hoff
    simp only [Bool.or_eq_true, not_or, Bool.not_eq_true] at hoff
    exact hoff.2

end TcpConnection

namespace TcpLoop

variable {T : Type}

/-- The step begins a `conncetDestoryed`, in user code or as a functor. -/
def BeginsDestroy (s : TcpLoop T) : Label T → Prop
  | .conncetDestoryed => True
  | .functor _ => s.functors.next.map Prod.fst = some .conncetDestoryed
  | _ => False

/-- What a step does to the channel and to the count of the `DOWN` callbacks; by default nothing. -/
structure ChnnelSpec (s : TcpLoop T) (l : Label T) (u : TcpLoop T) : Prop where
  /-- One callback for each `handleClose`. -/
  downs : u.downs + s.closeEntries.length = s.downs + u.closeEntries.length ∨
    (∃ io, l = .task io ∧ s.agenda.head? = some .destroyConnected) := by exact Or.inl rfl
  chnnel : u.conn.chnnel = s.conn.chnnel ∨ s.conn.chnnel.Updated u.conn.chnnel ∨
    (∃ io, l = .task io ∧ s.agenda.head? = some .remove) := by exact Or.inl rfl
  /-- The connection leaves `cConnecting` with its channel registered. -/
  state : u.conn.state = s.conn.state ∨ u.conn.state = .cDisconnecting ∨
    s.conn.chnnel.Updated u.conn.chnnel := by exact Or.inl rfl
  entries : u.closeEntries = s.closeEntries ∨ u.conn.state = .cDisconnected := by exact Or.inl rfl

section Spec

variable {s u : TcpLoop T}

theorem handleClose_chnnelSpec (s : TcpLoop T) (l : Label T) (rest : List Task)
    (q : Batch.Queue (LoopFunctor T)) :
    ChnnelSpec s l { s with agenda := rest, functors := q }.handleClose where
  downs := by
    simp [handleClose, connectionCallBack, todo, setConn, TcpConnection.disconnect]
    omega
  chnnel := Or.inr (Or.inl ⟨_, rfl⟩)
  state := Or.inr (Or.inr ⟨_, rfl⟩)
  entries := Or.inr rfl

theorem shutdownInLoop_chnnelSpec {l : Label T} (h : ChnnelSpec s l u) :
    ChnnelSpec s l u.shutdownInLoop := by
  obtain ⟨hs, heq, -⟩ := shutdownInLoop_eq u
  rw [heq]
  exact ⟨h.downs, h.chnnel, h.state, h.entries⟩

theorem sendInLoop_chnnelSpec {l : Label T} {sender : Option T} {message : Message} {io : Io}
    {q : Batch.Queue (LoopFunctor T)}
    (h : { s with functors := q }.sendInLoop sender message io = some u) : ChnnelSpec s l u := by
  obtain ⟨o, ho, rfl⟩ := sendInLoop_eq_some.mp h
  exact {
    chnnel := (TcpConnection.sendInLoop_chnnel ho).imp_right Or.inl
    state := Or.inl (TcpConnection.sendInLoop_state ho) }

theorem close_chnnelSpec (s : TcpLoop T) (l : Label T) (c : Closing) :
    ChnnelSpec s l (s.close c) := by
  unfold close
  split
  · have hset : ChnnelSpec s l s.setDisconnecting := { state := Or.inr (Or.inl rfl) }
    cases c with
    | shutdown => exact shutdownInLoop_chnnelSpec hset
    | forceClose | forceCloseWithDelay => exact ⟨hset.downs, hset.chnnel, hset.state, hset.entries⟩
  · exact {}

theorem call_chnnelSpec {l : Label T} {c : Call} {io : Io} (h : s.call io c = some u) :
    ChnnelSpec s l u := by
  cases c with
  | send message =>
    simp only [call] at h
    split at h
    · exact sendInLoop_chnnelSpec (q := s.functors) h
    · cases h
      exact {}
  | close c =>
    cases h
    exact close_chnnelSpec s l c
  | startRead =>
    cases h
    exact {
      chnnel := (TcpConnection.startReadInLoop_chnnel _).imp_right Or.inl
      state := Or.inl (TcpConnection.startReadInLoop_state _) }
  | stopRead =>
    cases h
    exact {
      chnnel := (TcpConnection.stopReadInLoop_chnnel _).imp_right Or.inl
      state := Or.inl (TcpConnection.stopReadInLoop_state _) }

theorem task_chnnelSpec {a : Task} {rest : List Task} {io : Io} (hagenda : s.agenda = a :: rest)
    (h : { s with agenda := rest }.runTask io a = some u) : ChnnelSpec s (.task io) u := by
  have hhead : s.agenda.head? = some a := by
    rw [hagenda]
    rfl
  cases a with
  | user => cases h
  | closeEvent =>
    cases h
    exact handleClose_chnnelSpec s _ rest s.functors
  | readEvent =>
    simp only [runTask] at h
    split at h
    · cases h
      exact {}
    · cases h
      exact handleClose_chnnelSpec s _ rest s.functors
    · cases h
      exact {}
  | writeEvent =>
    obtain ⟨o, drained, ho, rfl⟩ := handleWrite_eq_some.mp h
    have hchnnel := TcpConnection.handleWrite_chnnel ho
    have hstate := TcpConnection.handleWrite_state ho
    cases drained with
    | false => exact { chnnel := hchnnel.imp_right Or.inl, state := Or.inl hstate }
    | true => exact { chnnel := hchnnel.imp_right Or.inl, state := Or.inl hstate }
  | drained =>
    cases h
    split
    · exact shutdownInLoop_chnnelSpec {}
    · exact {}
  | closeCallBack | queueForceClose =>
    cases h
    exact {}
  | destroyConnected =>
    cases h
    exact {
      downs := Or.inr ⟨io, rfl, hhead⟩
      chnnel := Or.inr (Or.inl ⟨_, rfl⟩)
      state := Or.inr (Or.inr ⟨_, rfl⟩) }
  | remove =>
    cases h
    exact { chnnel := Or.inr (Or.inr ⟨io, rfl, hhead⟩) }

theorem functor_chnnelSpec {f : LoopFunctor T} {q : Batch.Queue (LoopFunctor T)} {io : Io}
    {l : Label T} (h : { s with functors := q }.runFunctor io f = some u) : ChnnelSpec s l u := by
  cases f with
  | sendInLoop sender message => exact sendInLoop_chnnelSpec h
  | shutdownInLoop =>
    cases h
    exact shutdownInLoop_chnnelSpec {}
  | forceCloseInLoop =>
    cases h
    split
    · exact handleClose_chnnelSpec s _ s.agenda q
    · exact {}
  | startReadInLoop =>
    cases h
    exact {
      chnnel := (TcpConnection.startReadInLoop_chnnel _).imp_right Or.inl
      state := Or.inl (TcpConnection.startReadInLoop_state _) }
  | stopReadInLoop =>
    cases h
    exact {
      chnnel := (TcpConnection.stopReadInLoop_chnnel _).imp_right Or.inl
      state := Or.inl (TcpConnection.stopReadInLoop_state _) }
  | conncetDestoryed | addTimer | writeCompleteCallBack | hightWaterMarkCallBack | user =>
    cases h
    exact {}

theorem step_chnnelSpec [DecidableEq T] {l : Label T} (h : s.step l = some u) :
    ChnnelSpec s l u := by
  cases step_cases h with
  | @callFrom t c _ =>
    cases c with
    | send | close =>
      simp only [callFrom]
      split
      · exact {}
      · exact {}
    | startRead | stopRead => exact {}
  | setting => exact { state := Or.inr (Or.inl rfl) }
  | connectEstablished =>
    exact {
      downs := Or.inl (by simp [connectionCallBack, todo, setConn,
        TcpConnection.connectEstablished])
      chnnel := Or.inr (Or.inl ⟨_, rfl⟩)
      state := Or.inr (Or.inr ⟨_, rfl⟩) }
  | call _ hcall => exact call_chnnelSpec hcall
  | task hagenda htask => exact task_chnnelSpec hagenda htask
  | handleTimer =>
    have hclose := close_chnnelSpec { s with timers := s.timers - 1 } .handleTimer .forceClose
    exact ⟨hclose.downs, hclose.chnnel, hclose.state, hclose.entries⟩
  | functor _ _ _ hrun => exact functor_chnnelSpec hrun
  | sending | queueing | queueUser | queueDestoryed | serverDestoryed | conncetDestoryed | ret
  | pollReturn | handleEvent | handleOther | dpPendingFunctors | batchEnd => exact {}

end Spec

/-! ## 2. Before it is destroyed -/

/-- No `conncetDestoryed` begins here. -/
def NoDestroy (s : TcpLoop T) (l : Label T) : Prop := ¬ s.BeginsDestroy l

theorem not_beginsDestroy {s : TcpLoop T} {l : Label T} (h : s.NoDestroy l) :
    ¬ (l = .conncetDestoryed ∨ s.Runs l .conncetDestoryed) := by
  rintro (rfl | ⟨io, q, rfl, hnext⟩)
  · exact h trivial
  · exact h (by simp [BeginsDestroy, hnext])

section Steps

variable [DecidableEq T]

/-- `cConnecting` is never set again. -/
theorem cConnecting_of_step {s u : TcpLoop T} {l : Label T} (hstep : s.step l = some u)
    (hs : u.conn.state = .cConnecting) : s.conn.state = .cConnecting := by
  rcases (step_spec hstep).state with heq | hsets
  · rw [← heq]
    exact hs
  · rw [hs] at hsets
    cases hsets

/-- Only `conncetDestoryed` removes the channel. -/
theorem remove_not_mem_of_step {s u : TcpLoop T} {l : Label T} (h : .remove ∉ s.agenda)
    (hno : s.NoDestroy l) (hstep : s.step l = some u) : .remove ∉ u.agenda := by
  intro hmem
  rcases (step_spec hstep).agenda _ hmem with hmem | hadds
  · exact h hmem
  · generalize ha : Task.remove = a at hadds
    cases hadds with
    | remove hl => exact not_beginsDestroy hno hl
    | event _ hmem => rcases Revents.mem_tasks hmem with rfl | rfl | rfl <;> cases ha
    | user | drained | closeCallBack | forceClose | timer | destroyConnected => cases ha

end Steps

/-- Another thread that has tested `_state` before does not store `cDisconnecting` over
`cDisconnected`. -/
def NotLate (s : TcpLoop T) : Label T → Prop
  | .proceed t => s.conn.state = .cDisconnected → ∀ c, s.callers t ≠ .setting c
  | _ => True

/-- No event that is still to be served leads into `handleClose`. -/
def NoCloseEvent (s : TcpLoop T) : Label T → Prop
  | .task io => s.agenda.head? ≠ some .closeEvent ∧
      (s.agenda.head? = some .readEvent → io.read ≠ .eof)
  | _ => True

/-- A step behind the call that lets the connection rest. -/
def LetsRest (s : TcpLoop T) (l : Label T) : Prop := s.NotLate l ∧ s.NoCloseEvent l

/-- Whether the channel is reading behind a step, if only user code on the loop thread changes
that. -/
def readsNext (r : Bool) : Label T → Bool
  | .call .startRead _ => true
  | .call .stopRead _ => false
  | _ => r

def readsAfter (r : Bool) (ls : List (Label T)) : Bool := ls.foldl readsNext r

/-- Behind the part of `conncetDestoryed` that depends on the state: user code of the `DOWN`
callback may still run, and `remove` is to come. -/
structure Removing (s : TcpLoop T) (r w : Bool) (n : Nat) : Prop where
  agenda : ∃ front rest, s.agenda = front ++ .remove :: rest ∧
    (.remove ∉ rest ∧ .destroyConnected ∉ rest) ∧ ∀ a ∈ front, a = .user ∨ a = .queueForceClose
  state : s.conn.state = .cDisconnected ∨ s.conn.state = .cDisconnecting
  reading : s.conn.chnnel.isReading = r
  writing : s.conn.chnnel.isWriting = w
  downs : s.downs = n
  kept : s.conn.chnnel.Kept
  flag : s.conn.chnnel.flag ≠ .cNew

/-- A step inside: the state stays `cDisconnected` unless a store comes late, and without user code
the channel is left alone. -/
structure StaysRemoving (s : TcpLoop T) (l : Label T) (u : TcpLoop T) (r w : Bool) (n : Nat) :
    Prop where
  removing : u.Removing (readsNext r l) w n
  state : u.conn.state = .cDisconnected ↔ s.conn.state = .cDisconnected ∧ s.NotLate l
  last : s.agenda.head? = some .remove → readsNext r l = r ∧ u.agenda.head? = some .remove

section Removing

variable {s u v : TcpLoop T} {r w : Bool} {n : Nat}

/-- Another thread, or a part of the loop thread that touches nothing of this. -/
theorem Removing.of_eq {l : Label T} (h : s.Removing r w n) (hagenda : u.agenda = s.agenda)
    (hconn : u.conn = s.conn) (hdowns : u.downs = s.downs) (hr : readsNext r l = r)
    (hlate : s.NotLate l) : StaysRemoving s l u r w n where
  removing := by
    rw [hr]
    exact ⟨hagenda ▸ h.agenda, hconn ▸ h.state, hconn ▸ h.reading, hconn ▸ h.writing,
      hdowns ▸ h.downs, hconn ▸ h.kept, hconn ▸ h.flag⟩
  state := by
    rw [hconn]
    exact ⟨fun hs ↦ ⟨hs, hlate⟩, And.left⟩
  last := fun hhead ↦ ⟨hr, hagenda ▸ hhead⟩

theorem Removing.not_cConnected (h : s.Removing r w n) : s.conn.state ≠ .cConnected := by
  rcases h.state with hs | hs
  · simp [hs]
  · simp [hs]

theorem Removing.agenda_ne_nil (h : s.Removing r w n) : s.agenda ≠ [] := by
  obtain ⟨front, rest, hagenda, -⟩ := h.agenda
  simp [hagenda]

/-- `startRead` or `stopRead`. -/
theorem Removing.setConn {c : TcpConnection} (h : s.Removing r w n)
    (hstate : c.state = s.conn.state) (hwriting : c.chnnel.isWriting = s.conn.chnnel.isWriting)
    (hchnnel : c.chnnel = s.conn.chnnel ∨ s.conn.chnnel.Updated c.chnnel) :
    (s.setConn c).Removing c.chnnel.isReading w n where
  agenda := h.agenda
  state := by
    show c.state = _ ∨ c.state = _
    rw [hstate]
    exact h.state
  reading := rfl
  writing := hwriting.trans h.writing
  downs := h.downs
  kept := by
    rcases hchnnel with heq | hupd
    · exact heq ▸ h.kept
    · exact hupd.kept h.kept
  flag := by
    rcases hchnnel with heq | hupd
    · exact heq ▸ h.flag
    · exact hupd.flag_ne_cNew

/-- User code of the `DOWN` callback.  It cannot send and cannot shut down, and a forced close is
possible only behind a late store. -/
theorem Removing.call {c : Call} {io : Io} {tail : List Task} (h : s.Removing r w n)
    (hagenda : s.agenda = .user :: tail) (hcall : s.call io c = some u) :
    StaysRemoving s (.call c io) u r w n := by
  have hlast {p : Prop} : s.agenda.head? = some .remove → p := by simp [hagenda]
  obtain ⟨front, rest, hsplit, hrest, hfront⟩ := h.agenda
  cases c with
  | send message =>
    rw [TcpLoop.call, if_neg h.not_cConnected] at hcall
    cases hcall
    exact h.of_eq rfl rfl rfl rfl trivial
  | close c =>
    cases hcall
    unfold close
    split
    · rename_i hmay
      cases c with
      | shutdown => exact (h.not_cConnected hmay).elim
      | forceClose =>
        have hs : s.conn.state = .cDisconnecting := hmay.resolve_left h.not_cConnected
        refine ⟨⟨⟨.queueForceClose :: front, rest, ?_, hrest, ?_⟩, Or.inr rfl, h.reading, h.writing,
          h.downs, h.kept, h.flag⟩, ?_, hlast⟩
        · simp [todo, setDisconnecting, TcpLoop.setConn, hsplit]
        · rintro a (_ | ⟨_, ha⟩)
          · exact Or.inr rfl
          · exact hfront a ha
        · simp [todo, setDisconnecting, TcpLoop.setConn, hs]
      | forceCloseWithDelay =>
        have hs : s.conn.state = .cDisconnecting := hmay.resolve_left h.not_cConnected
        refine ⟨⟨h.agenda, Or.inr rfl, h.reading, h.writing, h.downs, h.kept, h.flag⟩, ?_, hlast⟩
        simp [setDisconnecting, TcpLoop.setConn, hs]
    · exact h.of_eq rfl rfl rfl rfl trivial
  | startRead =>
    cases hcall
    have hread := h.setConn (TcpConnection.startReadInLoop_state s.conn)
      (TcpConnection.startReadInLoop_isWriting s.conn) (TcpConnection.startReadInLoop_chnnel s.conn)
    rw [TcpConnection.startReadInLoop_isReading] at hread
    exact ⟨hread, by simp [TcpLoop.setConn, NotLate], hlast⟩
  | stopRead =>
    cases hcall
    have hread := h.setConn (TcpConnection.stopReadInLoop_state s.conn)
      (TcpConnection.stopReadInLoop_isWriting s.conn) (TcpConnection.stopReadInLoop_chnnel s.conn)
    rw [TcpConnection.stopReadInLoop_isReading] at hread
    exact ⟨hread, by simp [TcpLoop.setConn, NotLate], hlast⟩

variable [DecidableEq T]

/-- Another thread up to its test of `_state`. -/
theorem callFrom_eq (s : TcpLoop T) (t : T) (c : Call) : (s.callFrom t c).agenda = s.agenda ∧
    (s.callFrom t c).conn = s.conn ∧ (s.callFrom t c).downs = s.downs := by
  cases c with
  | send | close =>
    simp only [callFrom]
    split
    all_goals exact ⟨rfl, rfl, rfl⟩
  | startRead | stopRead => exact ⟨rfl, rfl, rfl⟩

theorem Removing.next {l : Label T} (h : s.Removing r w n) (hno : s.NoDestroy l)
    (hstep : s.step l = some u) : .remove ∉ u.agenda ∨ StaysRemoving s l u r w n := by
  have hne := h.agenda_ne_nil
  cases step_cases hstep with
  | @callFrom t c _ =>
    obtain ⟨hagenda, hconn, hdowns⟩ := callFrom_eq s t c
    exact Or.inr (h.of_eq hagenda hconn hdowns rfl trivial)
  | sending hpc => exact Or.inr (h.of_eq rfl rfl rfl rfl (by simp [NotLate, hpc]))
  | queueing hpc => exact Or.inr (h.of_eq rfl rfl rfl rfl (by simp [NotLate, hpc]))
  | setting hpc =>
    refine Or.inr ⟨⟨h.agenda, Or.inr rfl, h.reading, h.writing, h.downs, h.kept, h.flag⟩, ?_,
      fun hhead ↦ ⟨rfl, hhead⟩⟩
    simp [setDisconnecting, TcpLoop.setConn, setCaller, NotLate, hpc]
  | queueUser | queueDestoryed | serverDestoryed => exact Or.inr (h.of_eq rfl rfl rfl rfl trivial)
  | connectEstablished _ hs =>
    rcases h.state with hs' | hs'
    · simp [hs'] at hs
    · simp [hs'] at hs
  | conncetDestoryed => exact (hno trivial).elim
  | call hagenda hcall => exact Or.inr (h.call hagenda hcall)
  | @ret tail hagenda =>
    obtain ⟨front, rest, hsplit, hrest, hfront⟩ := h.agenda
    cases front with
    | nil =>
      rw [hagenda] at hsplit
      cases hsplit
    | cons a front =>
      rw [hagenda] at hsplit
      obtain ⟨rfl, rfl⟩ := List.cons.inj hsplit
      refine Or.inr ⟨⟨⟨front, rest, rfl, hrest, fun a ha ↦ hfront a (List.mem_cons_of_mem _ ha)⟩,
        h.state, h.reading, h.writing, h.downs, h.kept, h.flag⟩, ?_, by simp [hagenda]⟩
      simp [NotLate]
  | @task a tail io _ hagenda htask =>
    obtain ⟨front, rest, hsplit, hrest, hfront⟩ := h.agenda
    rw [hagenda] at hsplit
    cases front with
    | nil =>
      obtain ⟨rfl, rfl⟩ := List.cons.inj hsplit
      cases htask
      exact Or.inl hrest.1
    | cons b front =>
      obtain ⟨rfl, rfl⟩ := List.cons.inj hsplit
      rcases hfront a List.mem_cons_self with rfl | rfl
      · cases htask
      · cases htask
        refine Or.inr ⟨⟨⟨front, rest, rfl, hrest, fun a ha ↦ hfront a (List.mem_cons_of_mem _ ha)⟩,
          h.state, h.reading, h.writing, h.downs, h.kept, h.flag⟩, ?_, by simp [hagenda]⟩
        simp [NotLate, push]
  | pollReturn _ hagenda | handleEvent _ hagenda | handleOther _ hagenda
  | handleTimer _ hagenda | dpPendingFunctors _ hagenda | functor _ hagenda
  | batchEnd _ hagenda => exact (hne hagenda).elim

/-- Once `remove` has run, no other is to come. -/
theorem not_removed_of_head {ls : List (Label T)} (h : .remove ∉ s.agenda)
    (hno : Trace.Along step NoDestroy s ls) (hrun : Trace.run step s ls = some v) :
    v.agenda.head? ≠ some .remove := by
  have hgone := Trace.run_inv_along (I := fun s : TcpLoop T ↦ .remove ∉ s.agenda)
    (fun s l t hs hno hstep ↦ remove_not_mem_of_step hs hno hstep) h hno hrun
  exact fun hhead ↦ hgone (List.mem_of_mem_head? hhead)

theorem Removing.run {ls : List (Label T)} (h : s.Removing r w n)
    (hno : Trace.Along step NoDestroy s ls) (hrun : Trace.run step s ls = some v)
    (hhead : v.agenda.head? = some .remove) :
    v.Removing (readsAfter r ls) w n ∧
      (v.conn.state = .cDisconnected ↔
        s.conn.state = .cDisconnected ∧ Trace.Along step NotLate s ls) ∧
      (s.agenda.head? = some .remove → readsAfter r ls = r) := by
  induction ls generalizing s r with
  | nil =>
    cases hrun
    exact ⟨h, by simp [Trace.Along], fun _ ↦ rfl⟩
  | cons l ls ih =>
    obtain ⟨m, hm, hrun⟩ := Trace.run_cons_eq_some.mp hrun
    obtain ⟨hno, hnos⟩ := (Trace.along_cons_of_step hm).mp hno
    rcases h.next hno hm with hgone | hstays
    · exact (not_removed_of_head hgone hnos hrun hhead).elim
    · obtain ⟨hv, hstate, hlast⟩ := ih hstays.removing hnos hrun
      refine ⟨hv, ?_, fun hs ↦ ?_⟩
      · rw [hstate, hstays.state, Trace.along_cons_of_step hm, and_assoc]
      · obtain ⟨hr, hm'⟩ := hstays.last hs
        rw [hr] at hlast
        exact (congrArg (fun r ↦ readsAfter r ls) hr).trans (hlast hm')

/-- In front of the part for `cConnected`. -/
structure Destroying (s : TcpLoop T) : Prop where
  agenda : ∃ rest, s.agenda = .destroyConnected :: .remove :: rest ∧
    .remove ∉ rest ∧ .destroyConnected ∉ rest
  state : s.conn.state ≠ .cDisconnected
  downs : s.downs = 0
  kept : s.conn.chnnel.Kept

/-- Other threads may still come first; then the connection is closed, whatever they have stored. -/
theorem Destroying.next {l : Label T} (h : s.Destroying) (hno : s.NoDestroy l)
    (hstep : s.step l = some u) :
    (u.Destroying ∨ u.Removing false false 1 ∧ u.conn.state = .cDisconnected) ∧
      readsNext false l = false := by
  obtain ⟨rest, hagenda, hrest⟩ := h.agenda
  have hne : s.agenda ≠ [] := by simp [hagenda]
  cases step_cases hstep with
  | @callFrom t c _ =>
    obtain ⟨hagenda', hconn, hdowns⟩ := callFrom_eq s t c
    refine ⟨Or.inl ⟨⟨rest, hagenda'.trans hagenda, hrest⟩, ?_, hdowns.trans h.downs, ?_⟩, rfl⟩
    · rw [hconn]
      exact h.state
    · rw [hconn]
      exact h.kept
  | sending | queueing | queueUser | queueDestoryed | serverDestoryed =>
    exact ⟨Or.inl ⟨⟨rest, hagenda, hrest⟩, h.state, h.downs, h.kept⟩, rfl⟩
  | setting =>
    refine ⟨Or.inl ⟨⟨rest, hagenda, hrest⟩, ?_, h.downs, h.kept⟩, rfl⟩
    simp [setDisconnecting, setConn, setCaller]
  | conncetDestoryed => exact (hno trivial).elim
  | connectEstablished hagenda' | call hagenda' | ret hagenda' =>
    rw [hagenda] at hagenda'
    cases hagenda'
  | task hagenda' htask =>
    rw [hagenda] at hagenda'
    cases hagenda'
    cases htask
    have hupd : s.conn.chnnel.Updated s.conn.chnnel.diableAll := ⟨_, rfl⟩
    refine ⟨Or.inr ⟨⟨⟨[.user], rest, rfl, hrest, by simp⟩, Or.inl rfl, ?_, ?_, ?_, ?_, ?_⟩, rfl⟩,
      rfl⟩
    · simp [connectionCallBack, todo, setConn, TcpConnection.disconnect, Chnnel.diableAll,
        Chnnel.isReading]
    · simp [connectionCallBack, todo, setConn, TcpConnection.disconnect, Chnnel.diableAll,
        Chnnel.isWriting]
    · simp [connectionCallBack, todo, setConn, TcpConnection.disconnect, h.downs]
    · exact hupd.kept h.kept
    · exact hupd.flag_ne_cNew
  | pollReturn _ hagenda | handleEvent _ hagenda | handleOther _ hagenda
  | handleTimer _ hagenda | dpPendingFunctors _ hagenda | functor _ hagenda
  | batchEnd _ hagenda => exact (hne hagenda).elim

theorem Destroying.run {ls : List (Label T)} (h : s.Destroying)
    (hno : Trace.Along step NoDestroy s ls) (hrun : Trace.run step s ls = some v)
    (hhead : v.agenda.head? = some .remove) :
    v.Removing (readsAfter false ls) false 1 ∧
      (v.conn.state = .cDisconnected ↔ Trace.Along step NotLate s ls) := by
  induction ls generalizing s with
  | nil =>
    cases hrun
    obtain ⟨rest, hagenda, -⟩ := h.agenda
    simp [hagenda] at hhead
  | cons l ls ih =>
    obtain ⟨m, hm, hrun⟩ := Trace.run_cons_eq_some.mp hrun
    obtain ⟨hno, hnos⟩ := (Trace.along_cons_of_step hm).mp hno
    obtain ⟨hnext, hreads⟩ := h.next hno hm
    -- the state is not `cDisconnected` yet, so no store is late
    have hlate : s.NotLate l := by
      cases l with
      | proceed t => exact fun hs ↦ (h.state hs).elim
      | _ => trivial
    rw [Trace.along_cons_of_step hm, and_iff_right hlate]
    show v.Removing (readsAfter (readsNext false l) ls) false 1 ∧ _
    rw [hreads]
    rcases hnext with hdestroying | ⟨hremoving, hs⟩
    · exact ih hdestroying hnos hrun
    · obtain ⟨hv, hstate, -⟩ := hremoving.run hnos hrun hhead
      exact ⟨hv, hstate.trans (and_iff_right hs)⟩

end Removing

/-! ## 4. Behind `conncetDestoryed` -/

/-- Down, and reported down once: what `~TcpConnection` asserts and what its user relies on. -/
structure Gone (s : TcpLoop T) : Prop where
  state : s.conn.state = .cDisconnected
  downs : s.downs = 1

section Gone

variable [DecidableEq T] {s u : TcpLoop T} {l : Label T}

/-- Of the stores that a step may make, one does not look at `cDisconnected`. -/
theorem disconnected_stays (h : s.conn.state = .cDisconnected) (hlate : s.NotLate l)
    (hstep : s.step l = some u) : u.conn.state = .cDisconnected := by
  rcases (step_spec hstep).state with heq | hsets
  · exact heq.trans h
  · generalize u.conn.state = e at hsets
    cases hsets with
    | established hs => simp [h] at hs
    | setting hpc => exact (hlate h _ hpc).elim
    | @close c _ hmay => cases c <;> simp [mayClose, TcpConnection.closable, h] at hmay
    | timer _ hmay => simp [TcpConnection.closable, h] at hmay
    | handleClose | destroyConnected => rfl

/-- The store behind an earlier test. -/
theorem late_leaves {t : T} {c : Closing} (hpc : s.callers t = .setting c)
    (hstep : s.step (.proceed t) = some u) : u.conn.state = .cDisconnecting := by
  simp only [step, hpc, Option.some.injEq] at hstep
  subst hstep
  rfl

/-- An event is the only way into `handleClose` in `cDisconnected`. -/
theorem closeEntries_of_noCloseEvent (h : s.conn.state = .cDisconnected) (hno : s.NoCloseEvent l)
    (hstep : s.step l = some u) : u.closeEntries = s.closeEntries := by
  rcases (step_spec hstep).closeEntries with heq | ⟨hclose, -⟩
  · exact heq
  · cases hclose with
    | hup hhead => exact (hno.1 hhead).elim
    | eof hhead heof => exact (hno.2 hhead heof).elim
    | forceCloseInLoop _ hclosable => simp [TcpConnection.closable, h] at hclosable

theorem Gone.step (h : s.Gone) (hno : .destroyConnected ∉ s.agenda) (hrest : s.LetsRest l)
    (hstep : s.step l = some u) : u.Gone := by
  refine ⟨disconnected_stays h.state hrest.1 hstep, ?_⟩
  have hentries := closeEntries_of_noCloseEvent h.state hrest.2 hstep
  rcases (step_chnnelSpec hstep).downs with hdowns | ⟨io, -, hhead⟩
  · rw [hentries] at hdowns
    have hone := h.downs
    omega
  · exact (hno (List.mem_of_mem_head? hhead)).elim

end Gone

/-! ## 5. The whole call -/

variable [DecidableEq T]

section Call

variable {s m v u e : TcpLoop T} {l : Label T} {ls after : List (Label T)} {io : Io}

/-- `remove` leaves the state, the mask and the count of the callbacks as they are. -/
theorem remove_eq (hhead : v.agenda.head? = some .remove) (hstep : v.step (.task io) = some u) :
    v.agenda = .remove :: u.agenda ∧ u.downs = v.downs ∧
      u.conn = { v.conn with chnnel := v.conn.chnnel.remove } := by
  cases step_cases hstep with
  | task hagenda htask =>
    rw [hagenda, List.head?_cons, Option.some.injEq] at hhead
    subst hhead
    cases htask
    exact ⟨hagenda, rfl, rfl⟩

end Call

end TcpLoop

end Netlib
