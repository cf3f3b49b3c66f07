import Netlib.Lib.Run
import Netlib.Lib.BatchQueue
import Netlib.Net.Chnnel

/-!
# `netlib::TcpConnection` on its event loop

One connection, the loop thread that owns it, and any number of other threads that call it
(`net/TcpConnection.cc`, `Chnnel::handleEventWithGuard`, `EventLoop::loop`).  The loop thread is a
phase of the loop and an agenda of what it still has to do there, the next thing first; user code is
an entry of the agenda, and while it is first it may call the connection.  `_outputBuffer` is the
byte queue that `Buffer` implements.  What a step reads of `_state` and of the functor queue it reads
at one moment; where a source function reads or writes shared data at two, it is two steps.
-/

namespace Netlib

inductive StateE where
  | cDisconnected
  | cConnecting
  | cConnected
  | cDisconnecting
deriving DecidableEq, Repr

abbrev Message := List UInt8

inductive WriteErrno where
  /-- `EWOULDBLOCK`. -/
  | again
  | pipe
  | connReset
  | other
deriving DecidableEq, Repr

inductive WriteResult where
  | wrote (n : Nat)
  | failed (errno : WriteErrno)
deriving DecidableEq, Repr

inductive ReadResult where
  | data
  | eof
  | failed
deriving DecidableEq, Repr

/-- What the system calls of a step return. -/
structure Io where
  write : WriteResult
  read : ReadResult
deriving DecidableEq, Repr

/-- The bits of `_revevts` that decide between callbacks with an effect here (`handleError` only
logs). -/
structure Revents where
  hup : Bool
  pollIn : Bool
  pri : Bool
  rdhup : Bool
  out : Bool
  wrband : Bool
deriving DecidableEq, Repr

/-- Functors that concern the connection; `user` is any other one. -/
inductive LoopFunctor (T : Type) where
  | sendInLoop (sender : T) (message : Message)
  | shutdownInLoop
  | forceCloseInLoop
  | startReadInLoop
  | stopReadInLoop
  | conncetDestoryed
  | addTimer
  | writeCompleteCallBack
  | hightWaterMarkCallBack (size : Nat)
  | user
deriving DecidableEq, Repr

/-- The callbacks that a write may queue. -/
def LoopFunctor.IsCallBack {T : Type} : LoopFunctor T → Prop
  | .writeCompleteCallBack | .hightWaterMarkCallBack _ => True
  | _ => False

structure TcpConnection where
  state : StateE
  reading : Bool
  chnnel : Chnnel
  outputBuffer : List UInt8
  hightWaterMark : Nat
  /-- Which of the two optional callbacks are set. -/
  writeCompleteCallBack : Bool
  hightWaterMarkCallBack : Bool
deriving DecidableEq, Repr

namespace TcpConnection

variable {T : Type}

def init (hightWaterMark : Nat) (writeComplete hightWater : Bool) : TcpConnection where
  state := .cConnecting
  reading := true
  chnnel := .init
  outputBuffer := []
  hightWaterMark := hightWaterMark
  writeCompleteCallBack := writeComplete
  hightWaterMarkCallBack := hightWater

/-- What a call leaves behind: the connection, the bytes that `write` took and the functors to
queue. -/
structure Outcome (T : Type) where
  conn : TcpConnection
  accepted : List UInt8
  queue : List (LoopFunctor T)

/-- The second half of `sendInLoop`: what was not written waits in `_outputBuffer`. -/
def append (c : TcpConnection) (rest : List UInt8) : TcpConnection :=
  if rest = [] then c
  else
    let c := { c with outputBuffer := c.outputBuffer ++ rest }
    if c.chnnel.isWriting then c else { c with chnnel := c.chnnel.enableWriting }

/-- The functor that this half queues. -/
def hightWater (c : TcpConnection) (rest : List UInt8) : List (LoopFunctor T) :=
  let oldLen := c.outputBuffer.length
  if rest ≠ [] ∧ c.hightWaterMark ≤ oldLen + rest.length ∧ oldLen < c.hightWaterMark ∧
      c.hightWaterMarkCallBack = true then
    [.hightWaterMarkCallBack (oldLen + rest.length)]
  else []

/-- `sendInLoop`.  A `write` that takes more than it was given has no outcome. -/
def sendInLoop (c : TcpConnection) (message : Message) (w : WriteResult) : Option (Outcome T) :=
  -- LOG_WARN and give up
  if c.state = .cDisconnected then some ⟨c, [], []⟩
  -- nothing waits: try to write at once
  else if !c.chnnel.isWriting && c.outputBuffer.isEmpty then
    match w with
    | .wrote n =>
      if n ≤ message.length then
        let complete := if message.length - n = 0 ∧ c.writeCompleteCallBack = true then
          [.writeCompleteCallBack] else []
        some ⟨c.append (message.drop n), message.take n, complete ++ c.hightWater (message.drop n)⟩
      else none
    -- faulterron: the message is dropped
    | .failed .pipe | .failed .connReset => some ⟨c, [], []⟩
    | .failed .again | .failed .other => some ⟨c.append message, [], c.hightWater message⟩
  else some ⟨c.append message, [], c.hightWater message⟩

/-- `handleWrite` up to its test of `_state`, and whether it comes to that test. -/
def handleWrite (c : TcpConnection) (w : WriteResult) : Option (Outcome T × Bool) :=
  if c.chnnel.isWriting then
    match w with
    | .wrote n =>
      if n ≤ c.outputBuffer.length then
        if 0 < n then
          let accepted := c.outputBuffer.take n
          let c := { c with outputBuffer := c.outputBuffer.drop n }
          -- all written: no more write events, and the test of `_state` is still to come
          if c.outputBuffer.isEmpty then
            let queue := if c.writeCompleteCallBack then [.writeCompleteCallBack] else []
            some (⟨{ c with chnnel := c.chnnel.disableWriting }, accepted, queue⟩, true)
          else some (⟨c, accepted, []⟩, false)
        else some (⟨c, [], []⟩, false)
      else none
    | .failed _ => some (⟨c, [], []⟩, false)
  else some (⟨c, [], []⟩, false)

def startReadInLoop (c : TcpConnection) : TcpConnection :=
  if !c.reading || !c.chnnel.isReading then
    { c with chnnel := c.chnnel.enableReading, reading := true }
  else c

def stopReadInLoop (c : TcpConnection) : TcpConnection :=
  if c.reading || c.chnnel.isReading then
    { c with chnnel := c.chnnel.disableReading, reading := false }
  else c

/-- `connectEstablished` before its callback. -/
def connectEstablished (c : TcpConnection) : TcpConnection :=
  { c with state := .cConnected, chnnel := c.chnnel.enableReading }

/-- `setState(cDisconnected)` and `diableAll`, in `handleClose` and in `conncetDestoryed`. -/
def disconnect (c : TcpConnection) : TcpConnection :=
  { c with state := .cDisconnected, chnnel := c.chnnel.diableAll }

/-- The test of `forceClose`, `forceCloseWithDelay` and `forceCloseInLoop`. -/
def closable (c : TcpConnection) : Prop := c.state = .cConnected ∨ c.state = .cDisconnecting

instance (c : TcpConnection) : Decidable c.closable := inferInstanceAs (Decidable (_ ∨ _))

/-! ## 1. What a write leaves behind -/

section Writes

variable {c : TcpConnection} {message : Message} {w : WriteResult} {o : Outcome T}

@[simp] theorem append_state (c : TcpConnection) (rest : List UInt8) :
    (c.append rest).state = c.state := by
  unfold append
  split
  · rfl
  · dsimp only
    split <;> rfl

@[simp] theorem append_outputBuffer (c : TcpConnection) (rest : List UInt8) :
    (c.append rest).outputBuffer = c.outputBuffer ++ rest := by
  unfold append
  split
  · rename_i hnil
    simp [hnil]
  · dsimp only
    split <;> rfl

/-- Write interest is asked for as soon as something waits. -/
theorem append_isWriting (c : TcpConnection) (rest : List UInt8) :
    (c.append rest).chnnel.isWriting = (c.chnnel.isWriting || !rest.isEmpty) := by
  unfold append
  split
  · rename_i hnil
    simp [hnil]
  · rename_i hne
    dsimp only
    split
    · rename_i hw
      simp [hw]
    · simp [Chnnel.isWriting, hne]

theorem hightWater_isCallBack (c : TcpConnection) (rest : List UInt8) :
    ∀ f ∈ (c.hightWater rest : List (LoopFunctor T)), f.IsCallBack := by
  unfold hightWater
  dsimp only
  split <;> simp [LoopFunctor.IsCallBack]

/-- What `sendInLoop` can do: give up, lose the message to a broken connection, or write a first
part of it, if nothing waits, and keep the rest. -/
theorem sendInLoop_cases (h : c.sendInLoop message w = some o) :
    c.state = .cDisconnected ∧ o = ⟨c, [], []⟩ ∨
      (w = .failed .pipe ∨ w = .failed .connReset) ∧ o = ⟨c, [], []⟩ ∨
      c.state ≠ .cDisconnected ∧ ∃ n front, n ≤ message.length ∧ (n = 0 ∨ c.outputBuffer = []) ∧
        (∀ f ∈ front, f.IsCallBack) ∧
        o = ⟨c.append (message.drop n), message.take n, front ++ c.hightWater (message.drop n)⟩ := by
  unfold sendInLoop at h
  by_cases hstate : c.state = .cDisconnected
  · rw [if_pos hstate] at h
    exact Or.inl ⟨hstate, (Option.some.inj h).symm⟩
  rw [if_neg hstate] at h
  -- nothing written: all of the message is kept
  have hkeep (hw : some ⟨c.append message, [], c.hightWater message⟩ = some o) :
      ∃ n front, n ≤ message.length ∧ (n = 0 ∨ c.outputBuffer = []) ∧
        (∀ f ∈ front, LoopFunctor.IsCallBack f) ∧
        o = ⟨c.append (message.drop n), message.take n, front ++ c.hightWater (message.drop n)⟩ :=
    ⟨0, [], Nat.zero_le _, Or.inl rfl, by simp, (Option.some.inj hw).symm⟩
  by_cases hfast : (!c.chnnel.isWriting && c.outputBuffer.isEmpty) = true
  · rw [if_pos hfast] at h
    have hempty : c.outputBuffer = [] := by simp at hfast; exact hfast.2
    match w with
    | .wrote n =>
      dsimp only at h
      split at h
      · rename_i hn
        refine Or.inr (Or.inr ⟨hstate, n, _, hn, Or.inr hempty, ?_, (Option.some.inj h).symm⟩)
        split <;> simp [LoopFunctor.IsCallBack]
      · cases h
    | .failed .pipe => exact Or.inr (Or.inl ⟨Or.inl rfl, (Option.some.inj h).symm⟩)
    | .failed .connReset => exact Or.inr (Or.inl ⟨Or.inr rfl, (Option.some.inj h).symm⟩)
    | .failed .again => exact Or.inr (Or.inr ⟨hstate, hkeep h⟩)
    | .failed .other => exact Or.inr (Or.inr ⟨hstate, hkeep h⟩)
  · rw [if_neg hfast] at h
    exact Or.inr (Or.inr ⟨hstate, hkeep h⟩)

/-- What `handleWrite` can do: nothing, or write a first part of what waits, and stop asking for
write events when nothing is left. -/
theorem handleWrite_cases {drained : Bool} (h : c.handleWrite w = some (o, drained)) :
    o = ⟨c, [], []⟩ ∧ drained = false ∨
      (∃ n, 0 < n ∧ n < c.outputBuffer.length ∧ drained = false ∧ c.chnnel.isWriting = true ∧
        o = ⟨{ c with outputBuffer := c.outputBuffer.drop n }, c.outputBuffer.take n, []⟩) ∨
      c.outputBuffer ≠ [] ∧ drained = true ∧ c.chnnel.isWriting = true ∧
        ∃ queue, (∀ f ∈ queue, f.IsCallBack) ∧
          o = ⟨{ c with outputBuffer := [], chnnel := c.chnnel.disableWriting }, c.outputBuffer,
            queue⟩ := by
  unfold handleWrite at h
  by_cases hw : c.chnnel.isWriting = true
  · rw [if_pos hw] at h
    match w with
    | .failed e => cases h; exact Or.inl ⟨rfl, rfl⟩
    | .wrote n =>
      dsimp only at h
      split at h
      · rename_i hn
        split at h
        · rename_i hpos
          split at h
          · rename_i hempty
            cases h
            -- the buffer is empty now, so `write` took all of it
            have hlen : n = c.outputBuffer.length := by
              have := List.drop_eq_nil_iff.mp (List.isEmpty_iff.mp hempty)
              omega
            refine Or.inr (Or.inr ⟨?_, rfl, hw,
              if c.writeCompleteCallBack then [.writeCompleteCallBack] else [], ?_, ?_⟩)
            · intro hnil
              simp only [hnil, List.length_nil] at hlen
              omega
            · split <;> simp [LoopFunctor.IsCallBack]
            · simp [hlen]
          · rename_i hrest
            cases h
            refine Or.inr (Or.inl ⟨n, hpos, ?_, rfl, hw, rfl⟩)
            simpa using hrest
        · cases h
          exact Or.inl ⟨rfl, rfl⟩
      · cases h
  · rw [if_neg hw] at h
    cases h
    exact Or.inl ⟨rfl, rfl⟩

theorem sendInLoop_state (h : c.sendInLoop message w = some o) : o.conn.state = c.state := by
  rcases sendInLoop_cases h with ⟨-, rfl⟩ | ⟨-, rfl⟩ | ⟨-, n, front, -, -, -, rfl⟩
  · rfl
  · rfl
  · exact append_state c _

theorem sendInLoop_queue (h : c.sendInLoop message w = some o) : ∀ f ∈ o.queue, f.IsCallBack := by
  rcases sendInLoop_cases h with ⟨-, rfl⟩ | ⟨-, rfl⟩ | ⟨-, n, front, -, -, hfront, rfl⟩
  · simp
  · simp
  · intro f hf
    rcases List.mem_append.mp hf with hf | hf
    · exact hfront f hf
    · exact hightWater_isCallBack c _ f hf

theorem handleWrite_state {drained : Bool} (h : c.handleWrite w = some (o, drained)) :
    o.conn.state = c.state := by
  rcases handleWrite_cases h with ⟨rfl, -⟩ | ⟨n, -, -, -, -, rfl⟩ | ⟨-, -, -, queue, -, rfl⟩ <;> rfl

theorem handleWrite_queue {drained : Bool} (h : c.handleWrite w = some (o, drained)) :
    ∀ f ∈ o.queue, f.IsCallBack := by
  rcases handleWrite_cases h with ⟨rfl, -⟩ | ⟨n, -, -, -, -, rfl⟩ | ⟨-, -, -, queue, hq, rfl⟩
  · simp
  · simp
  · exact hq

end Writes

/-! ## 2. What the other operations keep -/

@[simp] theorem startReadInLoop_outputBuffer (c : TcpConnection) :
    c.startReadInLoop.outputBuffer = c.outputBuffer := by
  unfold startReadInLoop
  split <;> rfl

@[simp] theorem stopReadInLoop_outputBuffer (c : TcpConnection) :
    c.stopReadInLoop.outputBuffer = c.outputBuffer := by
  unfold stopReadInLoop
  split <;> rfl

@[simp] theorem startReadInLoop_state (c : TcpConnection) : c.startReadInLoop.state = c.state := by
  unfold startReadInLoop
  split <;> rfl

@[simp] theorem stopReadInLoop_state (c : TcpConnection) : c.stopReadInLoop.state = c.state := by
  unfold stopReadInLoop
  split <;> rfl

@[simp] theorem startReadInLoop_isWriting (c : TcpConnection) :
    c.startReadInLoop.chnnel.isWriting = c.chnnel.isWriting := by
  unfold startReadInLoop
  split <;> simp [Chnnel.isWriting]

@[simp] theorem stopReadInLoop_isWriting (c : TcpConnection) :
    c.stopReadInLoop.chnnel.isWriting = c.chnnel.isWriting := by
  unfold stopReadInLoop
  split <;> simp [Chnnel.isWriting]

end TcpConnection

/-! ## 3. The threads -/

/-- What the loop thread still has to do. -/
inductive Task where
  /-- User code: a callback, a functor of the user, the handler of another channel. -/
  | user
  /-- The three parts of `handleEventWithGuard` with an effect. -/
  | closeEvent
  | readEvent
  | writeEvent
  /-- `handleWrite` at its test of `_state`, the buffer empty. -/
  | drained
  /-- `handleClose` at its call of `_closeCallBack`. -/
  | closeCallBack
  /-- `conncetDestoryed` behind its test of `_state`. -/
  | destroyConnected
  | remove
  /-- `forceClose` at its `queueInLoop`. -/
  | queueForceClose
deriving DecidableEq, Repr

/-- The calls of `handleEventWithGuard`, in its order. -/
def Revents.tasks (r : Revents) : List Task :=
  (if r.hup && !r.pollIn then [.closeEvent] else []) ++
    (if r.pollIn || r.pri || r.rdhup then [.readEvent] else []) ++
    (if r.out || r.wrband then [.writeEvent] else [])

theorem Revents.mem_tasks {r : Revents} {a : Task} (h : a ∈ r.tasks) :
    a = .closeEvent ∨ a = .readEvent ∨ a = .writeEvent := by
  simp only [tasks, List.mem_append] at h
  rcases h with (h | h) | h
  · exact Or.inl (by split at h <;> simp at h; exact h)
  · exact Or.inr (Or.inl (by split at h <;> simp at h; exact h))
  · exact Or.inr (Or.inr (by split at h <;> simp at h; exact h))

inductive LoopPhase where
  /-- Before `epoll_wait` returns. -/
  | poll
  /-- In the `for` over `_activeChnnels`, with the events of this channel if it is still to come. -/
  | events (own : Option Revents)
  /-- In the `for` of `dpPendingFunctors`. -/
  | functors
deriving DecidableEq, Repr

/-- The three calls that set `cDisconnecting`. -/
inductive Closing where
  | shutdown
  | forceClose
  | forceCloseWithDelay
deriving DecidableEq, Repr

/-- What such a call queues when it is made on another thread. -/
def Closing.functor {T : Type} : Closing → LoopFunctor T
  | .shutdown => .shutdownInLoop
  | .forceClose => .forceCloseInLoop
  | .forceCloseWithDelay => .addTimer

/-- Another thread inside a call of the connection. -/
inductive CallerPc where
  | idle
  /-- In `send`, behind the test of `_state` and before the push. -/
  | sending (message : Message)
  /-- Behind the test of `_state` and before `setState(cDisconnecting)`. -/
  | setting (closing : Closing)
  /-- Behind `setState(cDisconnecting)` and before the push. -/
  | queueing (closing : Closing)
deriving DecidableEq, Repr

inductive Call where
  | send (message : Message)
  | close (closing : Closing)
  | startRead
  | stopRead
deriving DecidableEq, Repr

/-- A `shutdownWrite`, with what was done before it: the messages whose `sendInLoop` had run, the
bytes the kernel had taken, and the messages that `send` had passed on. -/
structure HalfClose (T : Type) where
  ran : List (Option T × Message)
  accepted : List UInt8
  called : T → List Message

structure TcpLoop (T : Type) where
  conn : TcpConnection
  functors : Batch.Queue (LoopFunctor T)
  phase : LoopPhase
  agenda : List Task
  callers : T → CallerPc
  /-- The timers of `forceCloseWithDelay` that have not fired. -/
  timers : Nat
  /-- The close callbacks whose `conncetDestoryed` the owner has not queued yet. -/
  owed : Nat
  /-- Every `sendInLoop` that was run, `none` for the loop thread's own. -/
  ran : List (Option T × Message)
  accepted : List UInt8
  /-- The messages of each thread that passed the test of `send`. -/
  called : T → List Message
  halfCloses : List (HalfClose T)
  /-- The state found at each entry of `handleClose`. -/
  closeEntries : List StateE
  closeCalls : Nat
  /-- The calls of the connection callback with `connected()` false. -/
  downs : Nat

namespace TcpLoop

variable {T : Type}

def init (conn : TcpConnection) : TcpLoop T where
  conn := conn
  functors := .empty
  phase := .poll
  agenda := []
  callers := fun _ ↦ .idle
  timers := 0
  owed := 0
  ran := []
  accepted := []
  called := fun _ ↦ []
  halfCloses := []
  closeEntries := []
  closeCalls := 0
  downs := 0

def push (s : TcpLoop T) (f : LoopFunctor T) : TcpLoop T := { s with functors := s.functors.push f }

def pushAll (s : TcpLoop T) (fs : List (LoopFunctor T)) : TcpLoop T :=
  { s with functors := s.functors.pushAll fs }

def todo (s : TcpLoop T) (tasks : List Task) : TcpLoop T := { s with agenda := tasks ++ s.agenda }

def setConn (s : TcpLoop T) (c : TcpConnection) : TcpLoop T := { s with conn := c }

/-- Run the connection callback. -/
def connectionCallBack (s : TcpLoop T) : TcpLoop T :=
  let downs := if s.conn.state = .cConnected then s.downs else s.downs + 1
  { s with downs := downs }.todo [.user]

def shutdownWrite (s : TcpLoop T) : TcpLoop T :=
  { s with halfCloses := s.halfCloses ++ [⟨s.ran, s.accepted, s.called⟩] }

def shutdownInLoop (s : TcpLoop T) : TcpLoop T :=
  if s.conn.chnnel.isWriting then s else s.shutdownWrite

/-- `handleClose` up to the connection callback. -/
def handleClose (s : TcpLoop T) : TcpLoop T :=
  let s := { s with closeEntries := s.closeEntries ++ [s.conn.state] }
  ((s.setConn s.conn.disconnect).todo [.closeCallBack]).connectionCallBack

/-- The effects of an outcome. -/
def settle (s : TcpLoop T) (o : TcpConnection.Outcome T) : TcpLoop T :=
  { s.setConn o.conn with accepted := s.accepted ++ o.accepted }.pushAll o.queue

def sendInLoop (s : TcpLoop T) (sender : Option T) (message : Message) (io : Io) :
    Option (TcpLoop T) :=
  (s.conn.sendInLoop message io.write).map fun o ↦
    { s with ran := s.ran ++ [(sender, message)] }.settle o

def handleWrite (s : TcpLoop T) (io : Io) : Option (TcpLoop T) :=
  (s.conn.handleWrite io.write).map fun (o, drained) ↦
    (if drained then s.todo [.drained] else s).settle o

def setDisconnecting (s : TcpLoop T) : TcpLoop T :=
  s.setConn { s.conn with state := .cDisconnecting }

/-- The test at the head of `shutdown`, `forceClose` and `forceCloseWithDelay`. -/
def mayClose (s : TcpLoop T) : Closing → Prop
  | .shutdown => s.conn.state = .cConnected
  | .forceClose | .forceCloseWithDelay => s.conn.closable

instance (s : TcpLoop T) : (c : Closing) → Decidable (s.mayClose c)
  | .shutdown => inferInstanceAs (Decidable (_ = _))
  | .forceClose | .forceCloseWithDelay => inferInstanceAs (Decidable s.conn.closable)

/-- The three calls on the loop thread. -/
def close (s : TcpLoop T) (c : Closing) : TcpLoop T :=
  if s.mayClose c then
    match c with
    | .shutdown => s.setDisconnecting.shutdownInLoop
    | .forceClose => s.setDisconnecting.todo [.queueForceClose]
    | .forceCloseWithDelay => { s.setDisconnecting with timers := s.timers + 1 }
  else s

/-- A call made by user code on the loop thread. -/
def call (s : TcpLoop T) (io : Io) : Call → Option (TcpLoop T)
  | .send message => if s.conn.state = .cConnected then s.sendInLoop none message io else some s
  | .close c => some (s.close c)
  | .startRead => some (s.setConn s.conn.startReadInLoop)
  | .stopRead => some (s.setConn s.conn.stopReadInLoop)

/-- `conncetDestoryed` up to its test of `_state`. -/
def conncetDestoryed (s : TcpLoop T) : TcpLoop T :=
  s.todo (if s.conn.state = .cConnected then [.destroyConnected, .remove] else [.remove])

def runFunctor (s : TcpLoop T) (io : Io) : LoopFunctor T → Option (TcpLoop T)
  | .sendInLoop sender message => s.sendInLoop (some sender) message io
  | .shutdownInLoop => some s.shutdownInLoop
  | .forceCloseInLoop => some (if s.conn.closable then s.handleClose else s)
  | .startReadInLoop => some (s.setConn s.conn.startReadInLoop)
  | .stopReadInLoop => some (s.setConn s.conn.stopReadInLoop)
  | .conncetDestoryed => some s.conncetDestoryed
  | .addTimer => some { s with timers := s.timers + 1 }
  | .writeCompleteCallBack | .hightWaterMarkCallBack _ | .user => some (s.todo [.user])

/-- Do the first thing of the agenda, which has been taken off it. -/
def runTask (s : TcpLoop T) (io : Io) : Task → Option (TcpLoop T)
  | .user => none
  | .closeEvent => some s.handleClose
  | .readEvent =>
    match io.read with
    | .data => some (s.todo [.user])
    | .eof => some s.handleClose
    | .failed => some s
  | .writeEvent => s.handleWrite io
  | .drained => some (if s.conn.state = .cDisconnecting then s.shutdownInLoop else s)
  | .closeCallBack =>
    some ({ s with closeCalls := s.closeCalls + 1, owed := s.owed + 1 }.todo [.user])
  | .destroyConnected => some (s.setConn s.conn.disconnect).connectionCallBack
  | .remove => some (s.setConn { s.conn with chnnel := s.conn.chnnel.remove })
  | .queueForceClose => some (s.push .forceCloseInLoop)

theorem sendInLoop_eq_some {s u : TcpLoop T} {sender : Option T} {message : Message} {io : Io} :
    s.sendInLoop sender message io = some u ↔ ∃ o, s.conn.sendInLoop message io.write = some o ∧
      u = { s with ran := s.ran ++ [(sender, message)] }.settle o := by
  simp only [sendInLoop, Option.map_eq_some_iff, eq_comm (b := u)]

theorem handleWrite_eq_some {s u : TcpLoop T} {io : Io} :
    s.handleWrite io = some u ↔ ∃ o drained, s.conn.handleWrite io.write = some (o, drained) ∧
      u = (if drained then s.todo [.drained] else s).settle o := by
  simp only [handleWrite, Option.map_eq_some_iff, Prod.exists, eq_comm (b := u)]

section Step

variable [DecidableEq T]

def setCaller (s : TcpLoop T) (t : T) (pc : CallerPc) : TcpLoop T :=
  { s with callers := Function.update s.callers t pc }

/-- A call made by another thread, up to its test of `_state`. -/
def callFrom (s : TcpLoop T) (t : T) : Call → TcpLoop T
  | .send message =>
    if s.conn.state = .cConnected then
      { s.setCaller t (.sending message) with
        called := Function.update s.called t (s.called t ++ [message]) }
    else s
  | .close c => if s.mayClose c then s.setCaller t (.setting c) else s
  | .startRead => s.push .startReadInLoop
  | .stopRead => s.push .stopReadInLoop

inductive Label (T : Type) where
  /-- Another thread calls the connection, and goes on with its call. -/
  | callFrom (t : T) (c : Call)
  | proceed (t : T)
  /-- Any thread queues a functor of its own. -/
  | queueUser
  /-- The owner queues `conncetDestoryed` behind the close callback. -/
  | queueDestoryed
  /-- `~TcpServer` does so without one. -/
  | serverDestoryed
  /-- User code on the loop thread: `connectEstablished` of the owner, `conncetDestoryed` of
  `~TcpServer`, a call of the connection, the end of the callback. -/
  | connectEstablished
  | conncetDestoryed
  | call (c : Call) (io : Io)
  | ret
  | task (io : Io)
  /-- The loop: `epoll_wait` returns, the channels are served in some order, the functors follow. -/
  | pollReturn (own : Option Revents)
  | handleEvent
  | handleOther
  | handleTimer
  | dpPendingFunctors
  | functor (io : Io)
deriving DecidableEq, Repr

def step (s : TcpLoop T) : Label T → Option (TcpLoop T)
  | .callFrom t c => if s.callers t = .idle then some (s.callFrom t c) else none
  | .proceed t =>
    -- another thread may come between the test of `_state` and the store, and before the push
    match s.callers t with
    | .idle => none
    | .sending message => some ((s.push (.sendInLoop t message)).setCaller t .idle)
    | .setting c => some (s.setDisconnecting.setCaller t (.queueing c))
    | .queueing c => some ((s.push c.functor).setCaller t .idle)
  | .queueUser => some (s.push .user)
  | .queueDestoryed =>
    if 0 < s.owed then some { s.push .conncetDestoryed with owed := s.owed - 1 } else none
  | .serverDestoryed => some (s.push .conncetDestoryed)
  | .connectEstablished =>
    if s.agenda.head? = some .user ∧ s.conn.state = .cConnecting then
      some (s.setConn s.conn.connectEstablished).connectionCallBack
    else none
  | .conncetDestoryed => if s.agenda.head? = some .user then some s.conncetDestoryed else none
  | .call c io => if s.agenda.head? = some .user then s.call io c else none
  | .ret => if s.agenda.head? = some .user then some { s with agenda := s.agenda.tail } else none
  | .task io =>
    match s.agenda with
    | [] => none
    | task :: rest => { s with agenda := rest }.runTask io task
  | .pollReturn own =>
    -- the kernel reports only descriptors in the interest list
    if s.phase = .poll ∧ s.agenda = [] ∧ (own.isSome → s.conn.chnnel.interest.isSome) then
      some { s with phase := .events own }
    else none
  | .handleEvent =>
    -- the calls are chosen from `_revevts` alone, whatever the first of them does
    match s.phase, s.agenda with
    | .events (some r), [] => some { s with phase := .events none, agenda := r.tasks }
    | _, _ => none
  | .handleOther =>
    match s.phase, s.agenda with
    | .events _, [] => some (s.todo [.user])
    | _, _ => none
  | .handleTimer =>
    match s.phase, s.agenda with
    | .events _, [] =>
      if 0 < s.timers then some ({ s with timers := s.timers - 1 }.close .forceClose) else none
    | _, _ => none
  | .dpPendingFunctors =>
    -- every active channel has been served
    if s.phase = .events none ∧ s.agenda = [] then
      some { s with phase := .functors, functors := s.functors.take }
    else none
  | .functor io =>
    if s.phase = .functors ∧ s.agenda = [] then
      match s.functors.next with
      | some (f, q) => { s with functors := q }.runFunctor io f
      | none => some { s with phase := .poll }
    else none

/-! ## 4. What a step can do -/

/-- One case for each way a step can end; calls, tasks and functors are left as they are. -/
inductive StepTo (s : TcpLoop T) : Label T → TcpLoop T → Prop
  | callFrom {t : T} {c : Call} : s.callers t = .idle → StepTo s (.callFrom t c) (s.callFrom t c)
  | sending {t : T} {message : Message} : s.callers t = .sending message →
      StepTo s (.proceed t) ((s.push (.sendInLoop t message)).setCaller t .idle)
  | setting {t : T} {c : Closing} : s.callers t = .setting c →
      StepTo s (.proceed t) (s.setDisconnecting.setCaller t (.queueing c))
  | queueing {t : T} {c : Closing} : s.callers t = .queueing c →
      StepTo s (.proceed t) ((s.push c.functor).setCaller t .idle)
  | queueUser : StepTo s .queueUser (s.push .user)
  | queueDestoryed : 0 < s.owed →
      StepTo s .queueDestoryed { s.push .conncetDestoryed with owed := s.owed - 1 }
  | serverDestoryed : StepTo s .serverDestoryed (s.push .conncetDestoryed)
  | connectEstablished {rest : List Task} : s.agenda = .user :: rest → s.conn.state = .cConnecting →
      StepTo s .connectEstablished (s.setConn s.conn.connectEstablished).connectionCallBack
  | conncetDestoryed {rest : List Task} : s.agenda = .user :: rest →
      StepTo s .conncetDestoryed s.conncetDestoryed
  | call {c : Call} {io : Io} {rest : List Task} {u : TcpLoop T} : s.agenda = .user :: rest →
      s.call io c = some u → StepTo s (.call c io) u
  | ret {rest : List Task} : s.agenda = .user :: rest → StepTo s .ret { s with agenda := rest }
  | task {a : Task} {rest : List Task} {io : Io} {u : TcpLoop T} : s.agenda = a :: rest →
      { s with agenda := rest }.runTask io a = some u → StepTo s (.task io) u
  | pollReturn {own : Option Revents} : s.phase = .poll → s.agenda = [] →
      (own.isSome → s.conn.chnnel.interest.isSome) →
      StepTo s (.pollReturn own) { s with phase := .events own }
  | handleEvent {r : Revents} : s.phase = .events (some r) → s.agenda = [] →
      StepTo s .handleEvent { s with phase := .events none, agenda := r.tasks }
  | handleOther {own : Option Revents} : s.phase = .events own → s.agenda = [] →
      StepTo s .handleOther (s.todo [.user])
  | handleTimer {own : Option Revents} : s.phase = .events own → s.agenda = [] → 0 < s.timers →
      StepTo s .handleTimer ({ s with timers := s.timers - 1 }.close .forceClose)
  | dpPendingFunctors : s.phase = .events none → s.agenda = [] →
      StepTo s .dpPendingFunctors { s with phase := .functors, functors := s.functors.take }
  | functor {f : LoopFunctor T} {q : Batch.Queue (LoopFunctor T)} {io : Io} {u : TcpLoop T} :
      s.phase = .functors → s.agenda = [] → s.functors.next = some (f, q) →
      { s with functors := q }.runFunctor io f = some u → StepTo s (.functor io) u
  | batchEnd {io : Io} : s.phase = .functors → s.agenda = [] → s.functors.next = none →
      StepTo s (.functor io) { s with phase := .poll }

theorem step_cases {s u : TcpLoop T} {l : Label T} (h : s.step l = some u) : StepTo s l u := by
  cases l with
  | callFrom t c =>
    simp only [step, Option.ite_none_right_eq_some, Option.some.injEq] at h
    obtain ⟨hidle, rfl⟩ := h
    exact .callFrom hidle
  | proceed t =>
    simp only [step] at h
    split at h <;> cases h
    · exact .sending ‹_›
    · exact .setting ‹_›
    · exact .queueing ‹_›
  | queueUser =>
    cases h
    exact .queueUser
  | serverDestoryed =>
    cases h
    exact .serverDestoryed
  | queueDestoryed =>
    simp only [step, Option.ite_none_right_eq_some, Option.some.injEq] at h
    obtain ⟨howed, rfl⟩ := h
    exact .queueDestoryed howed
  | connectEstablished =>
    simp only [step, Option.ite_none_right_eq_some, Option.some.injEq] at h
    obtain ⟨⟨hhead, hstate⟩, rfl⟩ := h
    obtain ⟨rest, hagenda⟩ := List.head?_eq_some_iff.mp hhead
    exact .connectEstablished hagenda hstate
  | conncetDestoryed =>
    simp only [step, Option.ite_none_right_eq_some, Option.some.injEq] at h
    obtain ⟨hhead, rfl⟩ := h
    obtain ⟨rest, hagenda⟩ := List.head?_eq_some_iff.mp hhead
    exact .conncetDestoryed hagenda
  | call c io =>
    simp only [step, Option.ite_none_right_eq_some] at h
    obtain ⟨hhead, h⟩ := h
    obtain ⟨rest, hagenda⟩ := List.head?_eq_some_iff.mp hhead
    exact .call hagenda h
  | ret =>
    simp only [step, Option.ite_none_right_eq_some, Option.some.injEq] at h
    obtain ⟨hhead, rfl⟩ := h
    obtain ⟨rest, hagenda⟩ := List.head?_eq_some_iff.mp hhead
    have hret := StepTo.ret hagenda
    rw [hagenda]
    exact hret
  | task io =>
    simp only [step] at h
    split at h
    · cases h
    · exact .task ‹_› h
  | pollReturn own =>
    simp only [step, Option.ite_none_right_eq_some, Option.some.injEq] at h
    obtain ⟨⟨hphase, hagenda, hown⟩, rfl⟩ := h
    exact .pollReturn hphase hagenda hown
  | handleEvent =>
    simp only [step] at h
    split at h <;> cases h
    exact .handleEvent ‹_› ‹_›
  | handleOther =>
    simp only [step] at h
    split at h <;> cases h
    exact .handleOther ‹_› ‹_›
  | handleTimer =>
    simp only [step] at h
    split at h
    · simp only [Option.ite_none_right_eq_some, Option.some.injEq] at h
      obtain ⟨htimers, rfl⟩ := h
      exact .handleTimer ‹_› ‹_› htimers
    · cases h
  | dpPendingFunctors =>
    simp only [step, Option.ite_none_right_eq_some, Option.some.injEq] at h
    obtain ⟨⟨hphase, hagenda⟩, rfl⟩ := h
    exact .dpPendingFunctors hphase hagenda
  | functor io =>
    simp only [step, Option.ite_none_right_eq_some] at h
    obtain ⟨⟨hphase, hagenda⟩, h⟩ := h
    split at h
    · exact .functor hphase hagenda ‹_› h
    · cases h
      exact .batchEnd hphase hagenda ‹_›

end Step

/-! ## 5. What a step does to the shared data -/

/-- The functors that a step may push. -/
inductive Pushes (s : TcpLoop T) : Label T → LoopFunctor T → Prop
  | callBack {l : Label T} {f : LoopFunctor T} : f.IsCallBack → Pushes s l f
  | user : Pushes s .queueUser .user
  | startRead {t : T} : Pushes s (.callFrom t .startRead) .startReadInLoop
  | stopRead {t : T} : Pushes s (.callFrom t .stopRead) .stopReadInLoop
  | owner : 0 < s.owed → Pushes s .queueDestoryed .conncetDestoryed
  | server : Pushes s .serverDestoryed .conncetDestoryed
  | forceClose {io : Io} : s.agenda.head? = some .queueForceClose →
      Pushes s (.task io) .forceCloseInLoop
  | send {t : T} {message : Message} : s.callers t = .sending message →
      Pushes s (.proceed t) (.sendInLoop t message)
  | closing {t : T} {c : Closing} : s.callers t = .queueing c → Pushes s (.proceed t) c.functor

/-- The three ways into `handleClose`. -/
inductive HandlesClose (s : TcpLoop T) : Label T → Prop
  | hup {io : Io} : s.agenda.head? = some .closeEvent → HandlesClose s (.task io)
  | eof {io : Io} : s.agenda.head? = some .readEvent → io.read = .eof → HandlesClose s (.task io)
  | forceCloseInLoop {io : Io} {q : Batch.Queue (LoopFunctor T)} :
      s.functors.next = some (.forceCloseInLoop, q) → s.conn.closable → HandlesClose s (.functor io)

/-- The states that a step may set. -/
inductive Sets (s : TcpLoop T) : Label T → StateE → Prop
  | established : s.conn.state = .cConnecting → Sets s .connectEstablished .cConnected
  | setting {t : T} {c : Closing} : s.callers t = .setting c → Sets s (.proceed t) .cDisconnecting
  | close {c : Closing} {io : Io} : s.mayClose c → Sets s (.call (.close c) io) .cDisconnecting
  | timer : 0 < s.timers → s.conn.closable → Sets s .handleTimer .cDisconnecting
  | handleClose {l : Label T} : s.HandlesClose l → Sets s l .cDisconnected
  | destroyConnected {io : Io} : s.agenda.head? = some .destroyConnected →
      Sets s (.task io) .cDisconnected

/-- The step runs this functor. -/
def Runs (s : TcpLoop T) (l : Label T) (f : LoopFunctor T) : Prop :=
  ∃ io q, l = .functor io ∧ s.functors.next = some (f, q)

/-- The tasks that a step to `u` may put on the agenda. -/
inductive Adds (s u : TcpLoop T) : Label T → Task → Prop
  | user {l : Label T} : Adds s u l .user
  | event {r : Revents} {a : Task} : s.phase = .events (some r) → a ∈ r.tasks →
      Adds s u .handleEvent a
  | drained {io : Io} : s.agenda.head? = some .writeEvent → Adds s u (.task io) .drained
  | closeCallBack {l : Label T} : s.HandlesClose l → Adds s u l .closeCallBack
  | forceClose {io : Io} : u.conn.state = .cDisconnecting →
      Adds s u (.call (.close .forceClose) io) .queueForceClose
  | timer : 0 < s.timers → u.conn.state = .cDisconnecting → Adds s u .handleTimer .queueForceClose
  | destroyConnected {l : Label T} : l = .conncetDestoryed ∨ s.Runs l .conncetDestoryed →
      s.conn.state = .cConnected → Adds s u l .destroyConnected
  | remove {l : Label T} : l = .conncetDestoryed ∨ s.Runs l .conncetDestoryed → Adds s u l .remove

/-- Where a step to `u` may take a caller. -/
inductive Moves (s u : TcpLoop T) : Label T → T → CallerPc → Prop
  | send {t : T} {message : Message} : s.conn.state = .cConnected →
      Moves s u (.callFrom t (.send message)) t (.sending message)
  | close {t : T} {c : Closing} : s.mayClose c → Moves s u (.callFrom t (.close c)) t (.setting c)
  | set {t : T} {c : Closing} : s.callers t = .setting c → u.conn.state = .cDisconnecting →
      Moves s u (.proceed t) t (.queueing c)
  | queued {t : T} : Moves s u (.proceed t) t .idle

/-- When a step calls `shutdownWrite`. -/
inductive HalfClosed (s : TcpLoop T) : Label T → Prop
  | call {io : Io} : s.conn.state = .cConnected → HalfClosed s (.call (.close .shutdown) io)
  | functor {l : Label T} : s.Runs l .shutdownInLoop → HalfClosed s l
  | drained {io : Io} : s.agenda.head? = some .drained → s.conn.state = .cDisconnecting →
      HalfClosed s (.task io)

/-- What a step does to the shared data, the agenda, the counters and the records; by default it
leaves each of them alone. -/
structure StepSpec (s : TcpLoop T) (l : Label T) (u : TcpLoop T) : Prop where
  queued : ∃ new, u.functors.queued = s.functors.queued ++ new ∧ ∀ f ∈ new, s.Pushes l f := by
    exact ⟨[], (List.append_nil _).symm, nofun⟩
  state : u.conn.state = s.conn.state ∨ s.Sets l u.conn.state := by exact Or.inl rfl
  agenda : ∀ a ∈ u.agenda, a ∈ s.agenda ∨ s.Adds u l a := by exact fun _ ha ↦ Or.inl ha
  timers : u.timers ≤ s.timers ∨ s.Runs l .addTimer ∨
    (∃ io, l = .call (.close .forceCloseWithDelay) io) := by exact Or.inl le_rfl
  owed : u.owed ≤ s.owed ∨ (∃ io, l = .task io ∧ s.agenda.head? = some .closeCallBack) := by
    exact Or.inl le_rfl
  callers : ∀ t, u.callers t = s.callers t ∨ s.Moves u l t (u.callers t) := by
    exact fun _ ↦ Or.inl rfl
  halfCloses : u.halfCloses = s.halfCloses ∨ s.HalfClosed l ∧ s.conn.chnnel.isWriting = false ∧
    u.halfCloses = s.halfCloses ++ [⟨s.ran, s.accepted, s.called⟩] := by exact Or.inl rfl
  closeEntries : u.closeEntries = s.closeEntries ∨
    s.HandlesClose l ∧ u.closeEntries = s.closeEntries ++ [s.conn.state] := by exact Or.inl rfl

section Spec

variable {s u : TcpLoop T} {l : Label T}

/-- `shutdownInLoop` leaves nothing but a record. -/
theorem shutdownInLoop_eq (s : TcpLoop T) :
    ∃ hs, s.shutdownInLoop = { s with halfCloses := hs } ∧ (hs = s.halfCloses ∨
      s.conn.chnnel.isWriting = false ∧
        hs = s.halfCloses ++ [⟨s.ran, s.accepted, s.called⟩]) := by
  unfold shutdownInLoop
  split
  · exact ⟨_, rfl, Or.inl rfl⟩
  · rename_i hw
    exact ⟨_, rfl, Or.inr ⟨by simpa using hw, rfl⟩⟩

theorem pushes_singleton {f : LoopFunctor T} (hf : s.Pushes l f) :
    ∃ new, s.functors.queued ++ [f] = s.functors.queued ++ new ∧ ∀ f ∈ new, s.Pushes l f :=
  ⟨[f], rfl, by simpa using hf⟩

/-- A write queues callbacks only. -/
theorem pushes_callBacks {fs : List (LoopFunctor T)} (hfs : ∀ f ∈ fs, f.IsCallBack) :
    ∃ new, s.functors.queued ++ fs = s.functors.queued ++ new ∧ ∀ f ∈ new, s.Pushes l f :=
  ⟨fs, rfl, fun f hf ↦ .callBack (hfs f hf)⟩

theorem adds_todo (tasks : List Task) {rest : List Task} (hrest : rest ⊆ s.agenda)
    (htasks : ∀ a ∈ tasks, s.Adds u l a) : ∀ a ∈ tasks ++ rest, a ∈ s.agenda ∨ s.Adds u l a := by
  intro a ha
  rcases List.mem_append.mp ha with ha | ha
  · exact Or.inr (htasks a ha)
  · exact Or.inl (hrest ha)

theorem adds_user {rest : List Task} (hrest : rest ⊆ s.agenda) :
    ∀ a ∈ .user :: rest, a ∈ s.agenda ∨ s.Adds u l a :=
  adds_todo [.user] hrest (by simpa using .user)

theorem adds_handleClose {rest : List Task} (hrest : rest ⊆ s.agenda) (hclose : s.HandlesClose l) :
    ∀ a ∈ .user :: .closeCallBack :: rest, a ∈ s.agenda ∨ s.Adds u l a := by
  refine adds_todo [.user, .closeCallBack] hrest ?_
  simp only [List.mem_cons, List.not_mem_nil, or_false]
  rintro a (rfl | rfl)
  · exact .user
  · exact .closeCallBack hclose

theorem adds_conncetDestoryed (hl : l = .conncetDestoryed ∨ s.Runs l .conncetDestoryed) :
    ∀ a ∈ s.conncetDestoryed.agenda, a ∈ s.agenda ∨ s.Adds u l a := by
  refine adds_todo _ (fun _ ha ↦ ha) ?_
  split
  · rename_i hstate
    simp only [List.mem_cons, List.not_mem_nil, or_false]
    rintro a (rfl | rfl)
    · exact .destroyConnected hl hstate
    · exact .remove hl
  · simp only [List.mem_singleton, forall_eq]
    exact .remove hl

theorem call_spec {c : Call} {io : Io} (h : s.call io c = some u) :
    StepSpec s (.call c io) u := by
  cases c with
  | send message =>
    simp only [call] at h
    split at h
    · obtain ⟨o, ho, rfl⟩ := sendInLoop_eq_some.mp h
      exact {
        queued := pushes_callBacks (s := s) (TcpConnection.sendInLoop_queue ho)
        state := Or.inl (TcpConnection.sendInLoop_state ho) }
    · cases h
      exact {}
  | close c =>
    simp only [call, Option.some.injEq] at h
    subst h
    by_cases hmay : s.mayClose c
    · unfold close
      rw [if_pos hmay]
      cases c with
      | shutdown =>
        obtain ⟨hs, heq, hcase⟩ := shutdownInLoop_eq s.setDisconnecting
        simp only [heq]
        exact {
          state := Or.inr (.close hmay)
          halfCloses := hcase.imp_right fun hsnap ↦ ⟨.call hmay, hsnap⟩ }
      | forceClose =>
        exact {
          state := Or.inr (.close hmay)
          agenda := adds_todo [.queueForceClose] (fun _ ha ↦ ha)
            (by simpa using .forceClose rfl) }
      | forceCloseWithDelay =>
        exact { state := Or.inr (.close hmay), timers := Or.inr (Or.inr ⟨io, rfl⟩) }
    · unfold close
      rw [if_neg hmay]
      exact {}
  | startRead =>
    cases h
    exact { state := Or.inl (TcpConnection.startReadInLoop_state _) }
  | stopRead =>
    cases h
    exact { state := Or.inl (TcpConnection.stopReadInLoop_state _) }

theorem task_spec {task : Task} {rest : List Task} {io : Io} (hagenda : s.agenda = task :: rest)
    (h : { s with agenda := rest }.runTask io task = some u) : StepSpec s (.task io) u := by
  have hhead : s.agenda.head? = some task := by rw [hagenda]; rfl
  have hrest : rest ⊆ s.agenda := by rw [hagenda]; exact List.subset_cons_self ..
  have hkeep (v : TcpLoop T) : ∀ a ∈ rest, a ∈ s.agenda ∨ s.Adds v (.task io) a :=
    fun _ ha ↦ Or.inl (hrest ha)
  -- the agenda behind each task is `rest`, with what the task puts in front
  cases task with
  | user => cases h
  | closeEvent =>
    cases h
    exact {
      state := Or.inr (.handleClose (.hup hhead))
      agenda := adds_handleClose hrest (.hup hhead)
      closeEntries := Or.inr ⟨.hup hhead, rfl⟩ }
  | readEvent =>
    simp only [runTask] at h
    split at h <;> cases h
    · exact { agenda := adds_user hrest }
    · have hclose : s.HandlesClose (.task io) := .eof hhead ‹_›
      exact {
        state := Or.inr (.handleClose hclose)
        agenda := adds_handleClose hrest hclose
        closeEntries := Or.inr ⟨hclose, rfl⟩ }
    · exact { agenda := hkeep _ }
  | writeEvent =>
    obtain ⟨o, drained, ho, rfl⟩ := handleWrite_eq_some.mp h
    have hqueue := pushes_callBacks (s := s) (l := .task io) (TcpConnection.handleWrite_queue ho)
    have hstate := TcpConnection.handleWrite_state ho
    cases drained with
    | false => exact { queued := hqueue, state := Or.inl hstate, agenda := hkeep _ }
    | true =>
      exact {
        queued := hqueue
        state := Or.inl hstate
        agenda := adds_todo [.drained] hrest (by simpa using .drained hhead) }
  | drained =>
    cases h
    split
    · rename_i hstate
      obtain ⟨hs, heq, hcase⟩ := shutdownInLoop_eq { s with agenda := rest }
      rw [heq]
      exact {
        agenda := hkeep _
        halfCloses := hcase.imp_right fun hsnap ↦ ⟨.drained hhead hstate, hsnap⟩ }
    · exact { agenda := hkeep _ }
  | closeCallBack =>
    cases h
    exact { agenda := adds_user hrest, owed := Or.inr ⟨io, rfl, hhead⟩ }
  | destroyConnected =>
    cases h
    exact { state := Or.inr (.destroyConnected hhead), agenda := adds_user hrest }
  | remove =>
    cases h
    exact { agenda := hkeep _ }
  | queueForceClose =>
    cases h
    exact { queued := pushes_singleton (.forceClose hhead), agenda := hkeep _ }

theorem functor_spec {f : LoopFunctor T} {q : Batch.Queue (LoopFunctor T)} {io : Io}
    (hnext : s.functors.next = some (f, q))
    (h : { s with functors := q }.runFunctor io f = some u) : StepSpec s (.functor io) u := by
  have hruns : s.Runs (.functor io) f := ⟨io, q, rfl, hnext⟩
  obtain ⟨rest, -, rfl⟩ := Batch.Queue.next_eq_some.mp hnext
  cases f with
  | sendInLoop sender message =>
    obtain ⟨o, ho, rfl⟩ := sendInLoop_eq_some.mp h
    exact {
      queued := pushes_callBacks (s := s) (TcpConnection.sendInLoop_queue ho)
      state := Or.inl (TcpConnection.sendInLoop_state ho) }
  | shutdownInLoop =>
    simp only [runFunctor, Option.some.injEq] at h
    subst h
    rw [(shutdownInLoop_eq _).choose_spec.1]
    exact {
      halfCloses :=
        (shutdownInLoop_eq _).choose_spec.2.imp_right fun hsnap ↦ ⟨.functor hruns, hsnap⟩ }
  | forceCloseInLoop =>
    by_cases hclose : s.conn.closable
    · have hclose' : s.HandlesClose (.functor io) := .forceCloseInLoop hnext hclose
      simp only [runFunctor, if_pos hclose, Option.some.injEq] at h
      subst h
      exact {
        state := Or.inr (.handleClose hclose')
        agenda := adds_handleClose (fun _ ha ↦ ha) hclose'
        closeEntries := Or.inr ⟨hclose', rfl⟩ }
    · simp only [runFunctor, if_neg hclose, Option.some.injEq] at h
      subst h
      exact {}
  | startReadInLoop =>
    cases h
    exact { state := Or.inl (TcpConnection.startReadInLoop_state _) }
  | stopReadInLoop =>
    cases h
    exact { state := Or.inl (TcpConnection.stopReadInLoop_state _) }
  | conncetDestoryed =>
    cases h
    exact { agenda := adds_conncetDestoryed (s := s) (Or.inr hruns) }
  | addTimer =>
    cases h
    exact { timers := Or.inr (Or.inl hruns) }
  | writeCompleteCallBack | hightWaterMarkCallBack | user =>
    cases h
    exact { agenda := adds_user fun _ ha ↦ ha }

section

variable [DecidableEq T]

/-- A caller that moves, and the others that do not. -/
theorem moves_update {t : T} {pc : CallerPc} (hpc : s.Moves u l t pc) (t' : T) :
    Function.update s.callers t pc t' = s.callers t' ∨
      s.Moves u l t' (Function.update s.callers t pc t') := by
  by_cases ht : t' = t
  · subst ht
    rw [Function.update_self]
    exact Or.inr hpc
  · exact Or.inl (Function.update_of_ne ht ..)

theorem callFrom_spec (t : T) (c : Call) : StepSpec s (.callFrom t c) (s.callFrom t c) := by
  cases c with
  | send message =>
    simp only [callFrom]
    split
    · exact { callers := moves_update (.send ‹_›) }
    · exact {}
  | close k =>
    simp only [callFrom]
    split
    · exact { callers := moves_update (.close ‹_›) }
    · exact {}
  | startRead => exact { queued := pushes_singleton .startRead }
  | stopRead => exact { queued := pushes_singleton .stopRead }

theorem step_spec (h : s.step l = some u) : StepSpec s l u := by
  have hidle (t : T) (u : TcpLoop T) := moves_update (s := s) (u := u) (t := t) .queued
  cases step_cases h with
  | @callFrom t c => exact callFrom_spec t c
  | sending hpc => exact { queued := pushes_singleton (.send hpc), callers := hidle _ _ }
  | setting hpc => exact { state := Or.inr (.setting hpc), callers := moves_update (.set hpc rfl) }
  | queueing hpc => exact { queued := pushes_singleton (.closing hpc), callers := hidle _ _ }
  | queueUser => exact { queued := pushes_singleton .user }
  | serverDestoryed => exact { queued := pushes_singleton .server }
  | queueDestoryed howed =>
    exact { queued := pushes_singleton (.owner howed), owed := Or.inl (Nat.sub_le ..) }
  | connectEstablished _ hstate =>
    exact { state := Or.inr (.established hstate), agenda := adds_user fun _ ha ↦ ha }
  | conncetDestoryed => exact { agenda := adds_conncetDestoryed (Or.inl rfl) }
  | call _ hcall => exact call_spec hcall
  | ret hagenda =>
    exact { agenda := fun a ha ↦ Or.inl (by rw [hagenda]; exact List.mem_cons_of_mem _ ha) }
  | task hagenda htask => exact task_spec hagenda htask
  | pollReturn | dpPendingFunctors | batchEnd => exact {}
  | handleEvent hphase => exact { agenda := fun _ ha ↦ Or.inr (.event hphase ha) }
  | handleOther => exact { agenda := adds_user fun _ ha ↦ ha }
  | handleTimer _ _ htimers =>
    unfold close
    split
    · rename_i hmay
      exact {
        state := Or.inr (.timer htimers hmay)
        agenda := adds_todo [.queueForceClose] (fun _ ha ↦ ha) (by simpa using .timer htimers rfl)
        timers := Or.inl (Nat.sub_le ..) }
    · exact { timers := Or.inl (Nat.sub_le ..) }
  | functor _ _ hnext hrun => exact functor_spec hnext hrun

end

end Spec

end TcpLoop

end Netlib
