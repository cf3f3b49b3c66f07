import Netlib.Net.BufferRead
import Netlib.Net.TcpConnection

/-!
# `netlib::TcpConnection` and its two buffers

The operations of a connection on its loop thread, over the `Buffer`s that the class really has
(`net/TcpConnection.cc`, `net/Buffer.cc`).  An operation is `none` when an assertion fails or a
buffer is used outside its vector.  Seen through the content of the buffers they are the operations
of `TcpConnection`, whose `_outputBuffer` is a queue of bytes.
-/

open Storage

namespace Netlib

namespace Buffer

section

variable {b : Buffer} {len len' : Nat}

theorem Wf.storageAfter_mono (h : b.Wf) (hle : len ≤ len') :
    b.storageAfter len ≤ b.storageAfter len' := by
  obtain ⟨xs, r, w, rfl, hrw, hw, h8, hs⟩ := h.offsets
  unfold storageAfter
  rw [writeAbleBytes_mk hw hs, prependAbleBytes_mk (by omega)]
  simp only [Int.toNat_natCast]
  split_ifs <;> omega

/-- What there is room for is no longer than the vector. -/
theorem Wf.lt_of_storageAfter (h : b.Wf) (hfit : b.storageAfter len < 2 ^ 31) : len < 2 ^ 31 := by
  obtain ⟨xs, r, w, rfl, hrw, hw, h8, hs⟩ := h.offsets
  unfold storageAfter at hfit
  rw [writeAbleBytes_mk hw hs, prependAbleBytes_mk (by omega)] at hfit
  simp only [Int.toNat_natCast] at hfit
  split_ifs at hfit <;> omega

theorem Wf.readAbleBytes_lt (h : b.Wf) : b.readAbleBytes < 2 ^ 31 := by
  obtain ⟨xs, r, w, rfl, hrw, hw, h8, hs⟩ := h.offsets
  rw [readAbleBytes_mk hrw (by omega)]
  omega

theorem Wf.readAbleBytes_eq_zero (h : b.Wf) : b.readAbleBytes = 0 ↔ b.content = [] := by
  rw [← h.content_length, List.length_eq_zero_iff]

theorem Wf.peek_all (h : b.Wf) : b.peek b.readAbleBytes = some b.content := by
  rw [h.peek_eq le_rfl, ← h.content_length, List.take_length]

theorem Wf.retrieveAll_wf (h : b.Wf) : b.retrieveAll.Wf :=
  wf_mk le_rfl h.cheapPrepend_le_size h.cheapPrepend_le_size h.size_lt

end

end Buffer

structure BufferedConnection where
  state : StateE
  reading : Bool
  chnnel : Chnnel
  inputBuffer : Buffer
  outputBuffer : Buffer
  hightWaterMark : Nat
  writeCompleteCallBack : Bool
  hightWaterMarkCallBack : Bool
deriving DecidableEq, Repr

namespace BufferedConnection

def init (hightWaterMark : Nat) (writeComplete hightWater : Bool) : BufferedConnection where
  state := .cConnecting
  reading := true
  chnnel := .init
  inputBuffer := .fresh
  outputBuffer := .fresh
  hightWaterMark := hightWaterMark
  writeCompleteCallBack := writeComplete
  hightWaterMarkCallBack := hightWater

/-- What a call leaves behind: the connection, the bytes that `write` took and the functors it
queued. -/
structure Outcome (T : Type) where
  conn : BufferedConnection
  accepted : List UInt8
  queue : List (LoopFunctor T)

variable {T : Type}

/-! ## 1. The code -/

/-- The second half of `sendInLoop`, with `rest` the bytes from `message + nwrote` on. -/
def append (c : BufferedConnection) (rest : List UInt8) :
    Option (BufferedConnection × List (LoopFunctor T)) := do
  let remaining := rest.length
  if 0 < remaining then
    let oldLen := c.outputBuffer.readAbleBytes
    let queue := if c.hightWaterMark ≤ sizeAdd oldLen remaining ∧ oldLen < c.hightWaterMark ∧
        c.hightWaterMarkCallBack = true then
      [.hightWaterMarkCallBack (sizeAdd oldLen remaining)] else []
    let outputBuffer ← c.outputBuffer.append rest
    let c := { c with outputBuffer := outputBuffer }
    if c.chnnel.isWriting then return (c, queue)
    else return ({ c with chnnel := c.chnnel.enableWriting }, queue)
  else return (c, [])

def sendInLoop (c : BufferedConnection) (message : Message) (w : WriteResult) :
    Option (Outcome T) := do
  if c.state = .cDisconnected then return ⟨c, [], []⟩
  if !c.chnnel.isWriting ∧ c.outputBuffer.readAbleBytes = 0 then
    match w with
    | .wrote n =>
      -- `assert(remaining <= size)`
      assert (n ≤ message.length)
      let remaining := message.length - n
      let complete := if remaining = 0 ∧ c.writeCompleteCallBack = true then
        [.writeCompleteCallBack] else []
      let (c, queue) ← c.append (message.drop n)
      return ⟨c, message.take n, complete ++ queue⟩
    | .failed .pipe | .failed .connReset => return ⟨c, [], []⟩
    | .failed .again | .failed .other =>
      let (c, queue) ← c.append message
      return ⟨c, [], queue⟩
  else
    let (c, queue) ← c.append message
    return ⟨c, [], queue⟩

/-- `send(const std::string &)` on the loop thread. -/
def send (c : BufferedConnection) (message : Message) (w : WriteResult) : Option (Outcome T) :=
  if c.state = .cConnected then c.sendInLoop message w else some ⟨c, [], []⟩

/-- `send(Buffer *)` on the loop thread, and the argument behind it. -/
def sendBuffer (c : BufferedConnection) (message : Buffer) (w : WriteResult) :
    Option (Outcome T × Buffer) := do
  if c.state = .cConnected then
    let bytes ← message.peek message.readAbleBytes
    let o ← c.sendInLoop bytes w
    return (o, message.retrieveAll)
  else return (⟨c, [], []⟩, message)

/-- `handleWrite` up to its test of `_state`, and whether it comes to that test. -/
def handleWrite (c : BufferedConnection) (w : WriteResult) : Option (Outcome T × Bool) := do
  if c.chnnel.isWriting then
    let bytes ← c.outputBuffer.peek c.outputBuffer.readAbleBytes
    match w with
    | .wrote n =>
      if 0 < n then
        let outputBuffer ← c.outputBuffer.retrieve n
        let c := { c with outputBuffer := outputBuffer }
        if c.outputBuffer.readAbleBytes = 0 then
          let queue := if c.writeCompleteCallBack then [.writeCompleteCallBack] else []
          return (⟨{ c with chnnel := c.chnnel.disableWriting }, bytes.take n, queue⟩, true)
        else return (⟨c, bytes.take n, []⟩, false)
      else return (⟨c, [], []⟩, false)
    | .failed _ => return (⟨c, [], []⟩, false)
  else return (⟨c, [], []⟩, false)

/-- What `handleRead` goes on with. -/
inductive ReadCall where
  | messageCallBack
  | handleClose
  | handleError
deriving DecidableEq, Repr

/-- `handleRead` up to the call it makes. -/
def handleRead (c : BufferedConnection) (r : Readv) : Option (BufferedConnection × ReadCall) := do
  let (n, _, inputBuffer) ← c.inputBuffer.readFd 0 r
  let c := { c with inputBuffer := inputBuffer }
  if 0 < n then return (c, .messageCallBack)
  else if n = 0 then return (c, .handleClose)
  else return (c, .handleError)

def startReadInLoop (c : BufferedConnection) : BufferedConnection :=
  if !c.reading || !c.chnnel.isReading then
    { c with chnnel := c.chnnel.enableReading, reading := true }
  else c

def stopReadInLoop (c : BufferedConnection) : BufferedConnection :=
  if c.reading || c.chnnel.isReading then
    { c with chnnel := c.chnnel.disableReading, reading := false }
  else c

/-- `connectEstablished` before its callback. -/
def connectEstablished (c : BufferedConnection) : Option BufferedConnection := do
  assert (c.state = .cConnecting)
  return { c with state := .cConnected, chnnel := c.chnnel.enableReading }

/-- `handleClose` before its callbacks. -/
def handleClose (c : BufferedConnection) : Option BufferedConnection := do
  assert (c.state = .cDisconnecting ∨ c.state = .cDisconnected)
  return { c with state := .cDisconnected, chnnel := c.chnnel.diableAll }

/-- `shutdown` on the loop thread, and whether it gets to `shutdownWrite`. -/
def shutdown (c : BufferedConnection) : BufferedConnection × Bool :=
  if c.state = .cConnected then ({ c with state := .cDisconnecting }, !c.chnnel.isWriting)
  else (c, false)

/-! ## 2. The connection that it implements -/

/-- The connection with its output as a queue of bytes. -/
def queues (c : BufferedConnection) : TcpConnection where
  state := c.state
  reading := c.reading
  chnnel := c.chnnel
  outputBuffer := c.outputBuffer.content
  hightWaterMark := c.hightWaterMark
  writeCompleteCallBack := c.writeCompleteCallBack
  hightWaterMarkCallBack := c.hightWaterMarkCallBack

structure Wf (c : BufferedConnection) : Prop where
  input : c.inputBuffer.Wf
  output : c.outputBuffer.Wf

theorem init_wf (hightWaterMark : Nat) (writeComplete hightWater : Bool) :
    (init hightWaterMark writeComplete hightWater).Wf := ⟨Buffer.fresh_wf, Buffer.fresh_wf⟩

theorem init_queues (hightWaterMark : Nat) (writeComplete hightWater : Bool) :
    (init hightWaterMark writeComplete hightWater).queues =
      .init hightWaterMark writeComplete hightWater := by
  simp [queues, init, TcpConnection.init, Buffer.fresh_content]

section

variable {c : BufferedConnection} {message rest : Message} {w : WriteResult}

/-- **Appending.**  The assertions of `Buffer::append` hold, and the queue grows by what was not
written. -/
theorem append_refines (h : c.Wf) (hfit : c.outputBuffer.storageAfter rest.length < 2 ^ 31) :
    ∃ d, c.append rest = some (d, (c.queues.hightWater rest : List (LoopFunctor T))) ∧ d.Wf ∧
      d.queues = c.queues.append rest ∧ d.inputBuffer = c.inputBuffer := by
  by_cases hnil : rest = []
  · subst hnil
    exact ⟨c, by simp [append, TcpConnection.hightWater], h, by simp [TcpConnection.append], rfl⟩
  · have hpos : 0 < rest.length := List.length_pos_iff.mpr hnil
    have hrest : rest.length < 2 ^ 31 := h.output.lt_of_storageAfter hfit
    have hold : c.outputBuffer.readAbleBytes < 2 ^ 31 := h.output.readAbleBytes_lt
    obtain ⟨b, hb, hwf, hcontent, -⟩ := h.output.append_spec rest hfit
    have hwater : (c.queues.hightWater rest : List (LoopFunctor T)) =
        if c.hightWaterMark ≤ sizeAdd c.outputBuffer.readAbleBytes rest.length ∧
            c.outputBuffer.readAbleBytes < c.hightWaterMark ∧ c.hightWaterMarkCallBack = true then
          [.hightWaterMarkCallBack (sizeAdd c.outputBuffer.readAbleBytes rest.length)] else [] := by
      rw [sizeAdd_of_lt (by omega), ← h.output.content_length]
      simp [TcpConnection.hightWater, queues, hnil]
    unfold append
    rw [if_pos hpos, hb, Option.bind_eq_bind, Option.bind_some, ← hwater]
    by_cases hw : c.chnnel.isWriting = true
    · refine ⟨{ c with outputBuffer := b }, by simp [hw], ⟨h.input, hwf⟩, ?_, rfl⟩
      simp [queues, TcpConnection.append, hnil, hw, hcontent]
    · refine ⟨{ c with outputBuffer := b, chnnel := c.chnnel.enableWriting }, by simp [hw],
        ⟨h.input, hwf⟩, ?_, rfl⟩
      simp [queues, TcpConnection.append, hnil, hw, hcontent]

/-- A call over the buffers and the same call over the queue have the same effect. -/
structure Outcome.Implements (c : BufferedConnection) (o : Outcome T)
    (a : TcpConnection.Outcome T) : Prop where
  wf : o.conn.Wf
  conn : o.conn.queues = a.conn
  input : o.conn.inputBuffer = c.inputBuffer
  accepted : o.accepted = a.accepted
  queue : o.queue = a.queue

theorem unchanged_implements (h : c.Wf) :
    Outcome.Implements c (⟨c, [], []⟩ : Outcome T) ⟨c.queues, [], []⟩ :=
  ⟨h, rfl, rfl, rfl, rfl⟩

theorem sendInLoop_refines (h : c.Wf) (hfit : c.outputBuffer.storageAfter message.length < 2 ^ 31) :
    Option.Rel (Outcome.Implements c) (c.sendInLoop message w : Option (Outcome T))
      (c.queues.sendInLoop message w) := by
  have hall : ∃ o, (c.append message >>= fun (d, queue) ↦ some (⟨d, [], queue⟩ : Outcome T)) =
      some o ∧ Outcome.Implements c o
        ⟨c.queues.append message, [], c.queues.hightWater message⟩ := by
    obtain ⟨d, hd, hwf, hq, hin⟩ := append_refines (T := T) h hfit
    exact ⟨⟨d, [], c.queues.hightWater message⟩, by rw [hd]; rfl, hwf, hq, hin, rfl, rfl⟩
  obtain ⟨o, ho, himpl⟩ := hall
  unfold sendInLoop TcpConnection.sendInLoop
  by_cases hstate : c.state = .cDisconnected
  · rw [if_pos hstate, if_pos (show c.queues.state = _ from hstate)]
    exact .some (unchanged_implements h)
  rw [if_neg hstate, if_neg (show ¬ c.queues.state = _ from hstate)]
  have htest : (!c.queues.chnnel.isWriting && c.queues.outputBuffer.isEmpty) = true ↔
      (!c.chnnel.isWriting) = true ∧ c.outputBuffer.readAbleBytes = 0 := by
    rw [h.output.readAbleBytes_eq_zero, Bool.and_eq_true, List.isEmpty_iff]
    rfl
  by_cases hfast : (!c.chnnel.isWriting) = true ∧ c.outputBuffer.readAbleBytes = 0
  · rw [if_pos hfast, if_pos (htest.mpr hfast)]
    match w with
    | .wrote n =>
      by_cases hn : n ≤ message.length
      · have hle : (message.drop n).length ≤ message.length := by
          rw [List.length_drop]
          omega
        obtain ⟨d, hd, hwf, hq, hin⟩ := append_refines (T := T) h
          ((h.output.storageAfter_mono hle).trans_lt hfit)
        simp only [assert_of hn, Option.bind_eq_bind, Option.bind_some, hd, if_pos hn]
        exact .some ⟨hwf, hq, hin, rfl, rfl⟩
      · simp only [assert, if_neg hn, Option.bind_eq_bind, Option.bind_none]
        exact .none
    | .failed .pipe => exact .some (unchanged_implements h)
    | .failed .connReset => exact .some (unchanged_implements h)
    | .failed .again =>
      show Option.Rel _ (c.append message >>= fun (d, queue) ↦ some (⟨d, [], queue⟩ : Outcome T)) _
      rw [ho]
      exact .some himpl
    | .failed .other =>
      show Option.Rel _ (c.append message >>= fun (d, queue) ↦ some (⟨d, [], queue⟩ : Outcome T)) _
      rw [ho]
      exact .some himpl
  · rw [if_neg hfast, if_neg fun hf ↦ hfast (htest.mp hf)]
    show Option.Rel _ (c.append message >>= fun (d, queue) ↦ some (⟨d, [], queue⟩ : Outcome T)) _
    rw [ho]
    exact .some himpl

theorem handleWrite_refines (h : c.Wf) :
    Option.Rel (fun (o : Outcome T × Bool) (a : TcpConnection.Outcome T × Bool) ↦
        o.1.Implements c a.1 ∧ o.2 = a.2)
      (c.handleWrite w) (c.queues.handleWrite w) := by
  unfold handleWrite TcpConnection.handleWrite
  by_cases hw : c.chnnel.isWriting = true
  · rw [if_pos hw, if_pos (show c.queues.chnnel.isWriting = true from hw), h.output.peek_all,
      Option.bind_eq_bind, Option.bind_some]
    have hlen := h.output.content_length
    match w with
    | .wrote n =>
      by_cases hn : n ≤ c.queues.outputBuffer.length
      · by_cases hpos : 0 < n
        · obtain ⟨b, hb, hwf, hcontent, -⟩ := h.output.retrieve_spec (hlen ▸ hn)
          have hempty : b.readAbleBytes = 0 ↔
              (c.queues.outputBuffer.drop n).isEmpty = true := by
            rw [hwf.readAbleBytes_eq_zero, hcontent, List.isEmpty_iff]
            rfl
          simp only [hpos, if_true, hb, Option.bind_eq_bind, Option.bind_some, if_pos hn]
          by_cases hz : b.readAbleBytes = 0
          · rw [if_pos hz, if_pos (hempty.mp hz)]
            refine .some ⟨⟨⟨h.input, hwf⟩, ?_, rfl, rfl, rfl⟩, rfl⟩
            simp [queues, hcontent]
          · rw [if_neg hz, if_neg fun he ↦ hz (hempty.mpr he)]
            refine .some ⟨⟨⟨h.input, hwf⟩, ?_, rfl, rfl, rfl⟩, rfl⟩
            simp [queues, hcontent]
        · simp only [hpos, if_false, if_pos hn]
          exact .some ⟨unchanged_implements h, rfl⟩
      · -- more than there was: `retrieve` asserts
        have hpos : 0 < n := by omega
        have hb : c.outputBuffer.retrieve n = none := by
          unfold Buffer.retrieve assert
          rw [if_neg (by rw [← hlen]; exact hn)]
          rfl
        simp only [hpos, if_true, hb, Option.bind_eq_bind, Option.bind_none, if_neg hn]
        exact .none
    | .failed _ => exact .some ⟨unchanged_implements h, rfl⟩
  · rw [if_neg hw, if_neg (show ¬ c.queues.chnnel.isWriting = true from hw)]
    exact .some ⟨unchanged_implements h, rfl⟩

/-- **Reading.**  What `readv` stored is appended to the input, and the next call depends on its
answer alone. -/
theorem handleRead_spec (h : c.Wf) {data : List UInt8} (hd : c.inputBuffer.Delivers data)
    (hfit : c.inputBuffer.storageRead data.length < 2 ^ 31) :
    ∃ b, b.Wf ∧ b.content = c.inputBuffer.content ++ data ∧
      b.buffer.length = c.inputBuffer.storageRead data.length ∧
      c.handleRead (.bytes data) = some ({ c with inputBuffer := b },
        if data = [] then .handleClose else .messageCallBack) := by
  obtain ⟨b, hb, hwf, hcontent, hlen⟩ := h.input.readFd_spec 0 hd hfit
  refine ⟨b, hwf, hcontent, hlen, ?_⟩
  unfold handleRead
  rw [hb, Option.bind_eq_bind, Option.bind_some]
  by_cases hnil : data = []
  · subst hnil
    simp
  · have hpos : 0 < (data.length : Int) := by
      have hlen : 0 < data.length := List.length_pos_iff.mpr hnil
      omega
    simp [hnil]

theorem handleRead_error (c : BufferedConnection) (errno : Int) :
    c.handleRead (.error errno) = some (c, .handleError) := rfl

/-- `send(Buffer *)` is `send` of the content, and empties its argument when the connection is up. -/
theorem sendBuffer_eq {message : Buffer} (hm : message.Wf) :
    (c.sendBuffer message w : Option (Outcome T × Buffer)) =
      (c.send message.content w).map fun o ↦
        (o, if c.state = .cConnected then message.retrieveAll else message) := by
  unfold sendBuffer send
  by_cases hstate : c.state = .cConnected
  · rw [if_pos hstate, if_pos hstate, hm.peek_all, Option.bind_eq_bind, Option.bind_some]
    cases (c.sendInLoop message.content w : Option (Outcome T)) <;> simp [hstate]
  · rw [if_neg hstate, if_neg hstate]
    simp [hstate]

end

end BufferedConnection

/-! ## 3. The machine -/

/-- `sendInLoop` drops the message. -/
def TcpConnection.givesUp (c : TcpConnection) (w : WriteResult) : Bool :=
  decide (c.state = .cDisconnected) ||
    (!c.chnnel.isWriting && c.outputBuffer.isEmpty &&
      (decide (w = .failed .pipe) || decide (w = .failed .connReset)))

/-- A buffer that is drained leaves no interest in writing. -/
theorem TcpConnection.handleWrite_drained {T : Type} {c : TcpConnection} {w : WriteResult}
    {o : TcpConnection.Outcome T} (h : c.handleWrite w = some (o, true)) :
    o.conn.chnnel.isWriting = false := by
  rcases handleWrite_cases h with ⟨-, hd⟩ | ⟨n, -, -, hd, -⟩ | ⟨-, -, -, queue, -, rfl⟩
  · cases hd
  · cases hd
  · simp [Chnnel.isWriting]

/-- A call on the loop thread, with the answers of the kernel; the message callback takes bytes out
of the input buffer. -/
inductive TrafficLabel where
  | connectEstablished
  | send (message : Message) (w : WriteResult)
  /-- `send(Buffer *)` with the input buffer for its argument. -/
  | sendInput (w : WriteResult)
  | handleRead (r : Readv)
  | retrieveAsString (len : Nat)
  | retrieveAllAsString
  | handleWrite (w : WriteResult)
  | shutdown
  | startRead
  | stopRead
deriving DecidableEq, Repr

/-- The bytes that `readv` stored. -/
def Readv.stored : Readv → List UInt8
  | .error _ => []
  | .bytes data => data

/-- A connection and what has passed through it. -/
structure Traffic (C : Type) where
  conn : C
  /-- What `readv` has stored, and what user code has taken of it. -/
  received : List UInt8
  taken : List UInt8
  /-- What was sent and not given up, and what `write` has taken. -/
  sent : List UInt8
  accepted : List UInt8
  /-- The functors that were queued. -/
  queued : List (LoopFunctor Unit)
  shutdownWrites : Nat

namespace Traffic

variable {C : Type}

def start (conn : C) : Traffic C := ⟨conn, [], [], [], [], [], 0⟩

def setConn (s : Traffic C) (conn : C) : Traffic C := { s with conn := conn }

/-- A write has left the connection `conn`. -/
def wrote (s : Traffic C) (conn : C) (sent accepted : List UInt8)
    (queue : List (LoopFunctor Unit)) : Traffic C :=
  { s with conn := conn, sent := s.sent ++ sent, accepted := s.accepted ++ accepted
           queued := s.queued ++ queue }

def took (s : Traffic C) (bytes : List UInt8) : Traffic C := { s with taken := s.taken ++ bytes }

def gotten (s : Traffic C) (bytes : List UInt8) : Traffic C :=
  { s with received := s.received ++ bytes }

def shutIf (s : Traffic C) (p : Prop) [Decidable p] : Traffic C :=
  { s with shutdownWrites := if p then s.shutdownWrites + 1 else s.shutdownWrites }

end Traffic

namespace BufferedConnection

/-- The bytes of a `send` that count as sent. -/
def kept (c : BufferedConnection) (message : Message) (w : WriteResult) : List UInt8 :=
  if c.state = .cConnected ∧ c.queues.givesUp w = false then message else []

def step (s : Traffic BufferedConnection) : TrafficLabel → Option (Traffic BufferedConnection)
  | .connectEstablished => s.conn.connectEstablished.map s.setConn
  | .send message w => do
    let o ← s.conn.send message w
    return s.wrote o.conn (s.conn.kept message w) o.accepted o.queue
  | .sendInput w => do
    let (o, inputBuffer) ← s.conn.sendBuffer s.conn.inputBuffer w
    let bytes := s.conn.inputBuffer.content
    let s' := s.wrote { o.conn with inputBuffer := inputBuffer } (s.conn.kept bytes w)
      o.accepted o.queue
    return s'.took (if s.conn.state = .cConnected then bytes else [])
  | .handleRead r => do
    let (conn, next) ← s.conn.handleRead r
    let s := s.gotten r.stored
    match next with
    | .messageCallBack | .handleError => return s.setConn conn
    | .handleClose => conn.handleClose.map s.setConn
  | .retrieveAsString len => do
    let (bytes, inputBuffer) ← s.conn.inputBuffer.retrieveAsString len
    return (s.took bytes).setConn { s.conn with inputBuffer := inputBuffer }
  | .retrieveAllAsString => do
    let (bytes, inputBuffer) ← s.conn.inputBuffer.retrieveAllAsString
    return (s.took bytes).setConn { s.conn with inputBuffer := inputBuffer }
  | .handleWrite w => do
    let (o, drained) ← s.conn.handleWrite w
    return (s.wrote o.conn [] o.accepted o.queue).shutIf
      (drained = true ∧ o.conn.state = .cDisconnecting ∧ o.conn.chnnel.isWriting = false)
  | .shutdown =>
    let (conn, shut) := s.conn.shutdown
    some ((s.setConn conn).shutIf (shut = true))
  | .startRead => some (s.setConn s.conn.startReadInLoop)
  | .stopRead => some (s.setConn s.conn.stopReadInLoop)

/-- The vectors stay below 2^31 bytes, and `readv` stores no more than it was given room for. -/
def Fits (s : Traffic BufferedConnection) : TrafficLabel → Prop
  | .send message _ => s.conn.outputBuffer.storageAfter message.length < 2 ^ 31
  | .sendInput _ => s.conn.outputBuffer.storageAfter s.conn.inputBuffer.content.length < 2 ^ 31
  | .handleRead r => s.conn.inputBuffer.Delivers r.stored ∧
      s.conn.inputBuffer.storageRead r.stored.length < 2 ^ 31
  | _ => True

instance (s : Traffic BufferedConnection) : (l : TrafficLabel) → Decidable (Fits s l)
  | .send _ _ | .sendInput _ => inferInstanceAs (Decidable (_ < _))
  | .handleRead _ => inferInstanceAs (Decidable (_ ∧ _))
  | .connectEstablished | .retrieveAsString _ | .retrieveAllAsString | .handleWrite _ | .shutdown
  | .startRead | .stopRead => .isTrue trivial

end BufferedConnection

/-- The connection with both buffers as queues of bytes. -/
structure QueuedConnection where
  conn : TcpConnection
  input : List UInt8

namespace QueuedConnection

def send (s : Traffic QueuedConnection) (message : Message) (w : WriteResult) :
    Option (Traffic QueuedConnection) :=
  let c := s.conn.conn
  if c.state = .cConnected then
    (c.sendInLoop message w).map fun (o : TcpConnection.Outcome Unit) ↦
      s.wrote { s.conn with conn := o.conn } (if c.givesUp w then [] else message) o.accepted
        o.queue
  else some s

def step (s : Traffic QueuedConnection) : TrafficLabel → Option (Traffic QueuedConnection)
  | .connectEstablished =>
    if s.conn.conn.state = .cConnecting then
      some (s.setConn { s.conn with conn := s.conn.conn.connectEstablished })
    else none
  | .send message w => send s message w
  | .sendInput w =>
    if s.conn.conn.state = .cConnected then
      (send s s.conn.input w).map fun t ↦
        (t.took s.conn.input).setConn { t.conn with input := [] }
    else some s
  | .handleRead r =>
    let t := (s.gotten r.stored).setConn { s.conn with input := s.conn.input ++ r.stored }
    if r = .bytes [] then
      if s.conn.conn.state = .cDisconnecting ∨ s.conn.conn.state = .cDisconnected then
        some (t.setConn { t.conn with conn := s.conn.conn.disconnect })
      else none
    else some t
  | .retrieveAsString len =>
    if len ≤ s.conn.input.length then
      some ((s.took (s.conn.input.take len)).setConn
        { s.conn with input := s.conn.input.drop len })
    else none
  | .retrieveAllAsString => some ((s.took s.conn.input).setConn { s.conn with input := [] })
  | .handleWrite w =>
    (s.conn.conn.handleWrite w).map fun (o : TcpConnection.Outcome Unit × Bool) ↦
      (s.wrote { s.conn with conn := o.1.conn } [] o.1.accepted o.1.queue).shutIf
        (o.2 = true ∧ o.1.conn.state = .cDisconnecting)
  | .shutdown =>
    if s.conn.conn.state = .cConnected then
      some ((s.setConn { s.conn with conn := { s.conn.conn with state := .cDisconnecting } }).shutIf
        (s.conn.conn.chnnel.isWriting = false))
    else some s
  | .startRead => some (s.setConn { s.conn with conn := s.conn.conn.startReadInLoop })
  | .stopRead => some (s.setConn { s.conn with conn := s.conn.conn.stopReadInLoop })

end QueuedConnection

/-! ## 4. Every run -/

namespace Traffic

/-- The same traffic, the buffers seen as queues. -/
def queues (s : Traffic BufferedConnection) : Traffic QueuedConnection where
  conn := ⟨s.conn.queues, s.conn.inputBuffer.content⟩
  received := s.received
  taken := s.taken
  sent := s.sent
  accepted := s.accepted
  queued := s.queued
  shutdownWrites := s.shutdownWrites

end Traffic

namespace BufferedConnection

/-- The buffers are in order, and seen as queues they are those of the abstract connection. -/
def Simulates (s : Traffic BufferedConnection) (q : Traffic QueuedConnection) : Prop :=
  s.conn.Wf ∧ q = s.queues

section

variable {s : Traffic BufferedConnection} {w : WriteResult} {message : Message}

theorem startReadInLoop_queues (c : BufferedConnection) :
    c.startReadInLoop.queues = c.queues.startReadInLoop := by
  unfold startReadInLoop TcpConnection.startReadInLoop
  by_cases h : (!c.reading || !c.chnnel.isReading) = true
  · rw [if_pos h, if_pos (show (!c.queues.reading || !c.queues.chnnel.isReading) = true from h)]
    rfl
  · rw [if_neg h, if_neg (show ¬ (!c.queues.reading || !c.queues.chnnel.isReading) = true from h)]

theorem stopReadInLoop_queues (c : BufferedConnection) :
    c.stopReadInLoop.queues = c.queues.stopReadInLoop := by
  unfold stopReadInLoop TcpConnection.stopReadInLoop
  by_cases h : (c.reading || c.chnnel.isReading) = true
  · rw [if_pos h, if_pos (show (c.queues.reading || c.queues.chnnel.isReading) = true from h)]
    rfl
  · rw [if_neg h, if_neg (show ¬ (c.queues.reading || c.queues.chnnel.isReading) = true from h)]

theorem startReadInLoop_wf {c : BufferedConnection} (h : c.Wf) : c.startReadInLoop.Wf := by
  unfold startReadInLoop
  split
  · exact ⟨h.input, h.output⟩
  · exact h

theorem stopReadInLoop_wf {c : BufferedConnection} (h : c.Wf) : c.stopReadInLoop.Wf := by
  unfold stopReadInLoop
  split
  · exact ⟨h.input, h.output⟩
  · exact h

/-- A `send` over the buffers is one over the queues. -/
theorem send_refines (h : s.conn.Wf)
    (hfit : s.conn.outputBuffer.storageAfter message.length < 2 ^ 31) :
    Option.Rel (fun (o : Outcome Unit) q ↦ o.conn.Wf ∧
        o.conn.inputBuffer = s.conn.inputBuffer ∧
        q = (s.wrote o.conn (s.conn.kept message w) o.accepted o.queue).queues)
      (s.conn.send message w) (QueuedConnection.send s.queues message w) := by
  unfold send QueuedConnection.send
  have hqstate : s.queues.conn.conn.state = s.conn.state := rfl
  by_cases hstate : s.conn.state = .cConnected
  · rw [if_pos hstate]
    simp only [hqstate, if_pos hstate]
    have hrefine := sendInLoop_refines (T := Unit) (w := w) h hfit
    show Option.Rel _ _ ((s.conn.queues.sendInLoop message w).map _)
    generalize s.conn.sendInLoop message w = x at hrefine
    generalize s.conn.queues.sendInLoop message w = y at hrefine
    cases hrefine with
    | none => exact .none
    | @some o a himpl =>
      refine .some ⟨himpl.wf, himpl.input, ?_⟩
      have hkept : s.conn.kept message w =
          if s.conn.queues.givesUp w then [] else message := by
        unfold kept
        cases s.conn.queues.givesUp w <;> simp [hstate]
      simp only [Traffic.wrote, Traffic.queues, himpl.conn, himpl.input, himpl.accepted,
        himpl.queue, hkept]
      rfl
  · rw [if_neg hstate]
    simp only [hqstate, if_neg hstate]
    refine .some ⟨h, rfl, ?_⟩
    simp [kept, hstate, Traffic.wrote, Traffic.queues]

/-- **One step.**  Within the room for them, the buffers do what the queues do, and stop where the
queues stop. -/
theorem step_refines {q : Traffic QueuedConnection} {l : TrafficLabel} (h : Simulates s q)
    (hfit : Fits s l) : Option.Rel Simulates (step s l) (QueuedConnection.step q l) := by
  obtain ⟨hwf, rfl⟩ := h
  cases l with
  | connectEstablished =>
    show Option.Rel _ (s.conn.connectEstablished.map s.setConn)
      (if s.conn.state = .cConnecting then _ else _)
    unfold connectEstablished
    by_cases hstate : s.conn.state = .cConnecting
    · rw [if_pos hstate, assert_of hstate]
      exact .some ⟨⟨hwf.input, hwf.output⟩, rfl⟩
    · rw [if_neg hstate, assert, if_neg hstate]
      exact .none
  | send message w =>
    have hsend := send_refines (w := w) hwf hfit
    show Option.Rel _ (s.conn.send message w >>= _) (QueuedConnection.send s.queues message w)
    generalize (s.conn.send message w : Option (Outcome Unit)) = x at hsend
    generalize QueuedConnection.send s.queues message w = y at hsend
    cases hsend with
    | none => exact .none
    | some ho => exact .some ⟨ho.1, ho.2.2⟩
  | sendInput w =>
    have hsend := send_refines (w := w) hwf hfit
    simp only [step, sendBuffer_eq hwf.input]
    show Option.Rel _ _ (if s.conn.state = .cConnected then
      (QueuedConnection.send s.queues s.conn.inputBuffer.content w).map _ else some s.queues)
    generalize hx : (s.conn.send s.conn.inputBuffer.content w : Option (Outcome Unit)) = x at hsend
    generalize QueuedConnection.send s.queues s.conn.inputBuffer.content w = y at hsend
    by_cases hstate : s.conn.state = .cConnected
    · simp only [hstate, if_true]
      cases hsend with
      | none => exact .none
      | @some o q ho =>
        obtain ⟨howf, hin, rfl⟩ := ho
        have hempty : s.conn.inputBuffer.retrieveAll.content = [] := window_self _ _
        refine .some ⟨⟨hwf.input.retrieveAll_wf, howf.output⟩, ?_⟩
        simp [Traffic.queues, Traffic.took, Traffic.setConn, Traffic.wrote, queues, hempty]
    · simp only [hstate, if_false]
      unfold send at hx
      rw [if_neg hstate] at hx
      subst hx
      refine .some ⟨hwf, ?_⟩
      simp [Traffic.queues, Traffic.took, Traffic.wrote, kept, hstate]
  | handleRead r =>
    cases r with
    | error errno =>
      refine .some ⟨hwf, ?_⟩
      simp [Traffic.queues, Traffic.gotten, Traffic.setConn, Readv.stored]
    | bytes data =>
      have hroom : s.conn.inputBuffer.Delivers data ∧
          s.conn.inputBuffer.storageRead data.length < 2 ^ 31 := hfit
      obtain ⟨b, hb, hcontent, -, hread⟩ := handleRead_spec hwf hroom.1 hroom.2
      simp only [step, hread, Option.bind_eq_bind, Option.bind_some]
      by_cases hnil : data = []
      · subst hnil
        rw [List.append_nil] at hcontent
        by_cases hstate : s.conn.state = .cDisconnecting ∨ s.conn.state = .cDisconnected
        · simp only [if_true, handleClose, assert_of hstate, QueuedConnection.step]
          rw [if_pos (show s.queues.conn.conn.state = _ ∨ s.queues.conn.conn.state = _ from hstate)]
          refine .some ⟨⟨hb, hwf.output⟩, ?_⟩
          simp [Traffic.queues, Traffic.gotten, Traffic.setConn, Readv.stored, queues, hcontent,
            TcpConnection.disconnect]
        · simp only [if_true, handleClose, assert, if_neg hstate, QueuedConnection.step]
          rw [if_neg
            (show ¬ (s.queues.conn.conn.state = _ ∨ s.queues.conn.conn.state = _) from hstate)]
          exact .none
      · have hne : ¬ Readv.bytes data = .bytes [] := by simpa using hnil
        simp only [hnil, if_false, QueuedConnection.step, hne]
        refine .some ⟨⟨hb, hwf.output⟩, ?_⟩
        simp [Traffic.queues, Traffic.gotten, Traffic.setConn, Readv.stored, queues, hcontent]
  | retrieveAsString len =>
    have hlen := hwf.input.content_length
    by_cases hle : len ≤ s.conn.inputBuffer.readAbleBytes
    · obtain ⟨b, hb, hbwf, hcontent, -⟩ := hwf.input.retrieveAsString_spec hle
      simp only [step, hb, Option.bind_eq_bind, Option.bind_some, QueuedConnection.step]
      rw [if_pos (show len ≤ s.queues.conn.input.length from hlen ▸ hle)]
      refine .some ⟨⟨hbwf, hwf.output⟩, ?_⟩
      simp [Traffic.queues, Traffic.took, Traffic.setConn, queues, hcontent]
    · simp only [step, Buffer.retrieveAsString, assert, if_neg hle, Option.bind_eq_bind,
        Option.bind_none, QueuedConnection.step]
      rw [if_neg (show ¬ len ≤ s.queues.conn.input.length from hlen ▸ hle)]
      exact .none
  | retrieveAllAsString =>
    obtain ⟨b, hb, hbwf, hcontent, -⟩ := hwf.input.retrieveAsString_spec le_rfl
    rw [← hwf.input.content_length, List.take_length] at hb
    rw [← hwf.input.content_length, List.drop_length] at hcontent
    have hall : s.conn.inputBuffer.retrieveAllAsString = some (s.conn.inputBuffer.content, b) := by
      unfold Buffer.retrieveAllAsString
      rw [← hwf.input.content_length]
      exact hb
    simp only [step, hall, Option.bind_eq_bind, Option.bind_some, QueuedConnection.step]
    refine .some ⟨⟨hbwf, hwf.output⟩, ?_⟩
    simp [Traffic.queues, Traffic.took, Traffic.setConn, queues, hcontent]
  | handleWrite w =>
    have hrefine := handleWrite_refines (T := Unit) (w := w) hwf
    have hidle (a : TcpConnection.Outcome Unit)
        (h : s.conn.queues.handleWrite w = some (a, true)) : a.conn.chnnel.isWriting = false :=
      TcpConnection.handleWrite_drained h
    show Option.Rel _ (s.conn.handleWrite w >>= _) ((s.conn.queues.handleWrite w).map _)
    generalize s.conn.handleWrite w = x at hrefine
    generalize s.conn.queues.handleWrite w = y at hrefine hidle
    cases hrefine with
    | none => exact .none
    | @some o a ho =>
      obtain ⟨o, drained⟩ := o
      obtain ⟨a, drained'⟩ := a
      obtain ⟨himpl, rfl⟩ : o.Implements s.conn a ∧ drained = drained' := ho
      have hstate : o.conn.state = a.conn.state := by rw [← himpl.conn]; rfl
      have hwriting : o.conn.chnnel.isWriting = a.conn.chnnel.isWriting := by
        rw [← himpl.conn]; rfl
      have htest : (drained = true ∧ o.conn.state = .cDisconnecting ∧
          o.conn.chnnel.isWriting = false) ↔ drained = true ∧ a.conn.state = .cDisconnecting := by
        rw [hstate, hwriting]
        refine and_congr_right fun hd ↦ and_iff_left (hidle a ?_)
        rw [hd]
      refine .some ⟨himpl.wf, ?_⟩
      simp only [Traffic.shutIf, Traffic.wrote, Traffic.queues, htest, himpl.conn, himpl.input,
        himpl.accepted, himpl.queue]
  | shutdown =>
    unfold step shutdown QueuedConnection.step
    by_cases hstate : s.conn.state = .cConnected
    · rw [if_pos hstate, if_pos (show s.queues.conn.conn.state = _ from hstate)]
      refine .some ⟨⟨hwf.input, hwf.output⟩, ?_⟩
      simp only [Traffic.queues, Traffic.setConn, Traffic.shutIf, queues, Bool.not_eq_true']
      rfl
    · rw [if_neg hstate, if_neg (show ¬ s.queues.conn.conn.state = _ from hstate)]
      refine .some ⟨hwf, ?_⟩
      simp [Traffic.setConn, Traffic.shutIf]
  | startRead =>
    refine .some ⟨startReadInLoop_wf hwf, ?_⟩
    have hin : s.conn.startReadInLoop.inputBuffer = s.conn.inputBuffer := by
      unfold startReadInLoop
      split <;> rfl
    simp only [Traffic.setConn, Traffic.queues, startReadInLoop_queues, hin]
  | stopRead =>
    refine .some ⟨stopReadInLoop_wf hwf, ?_⟩
    have hin : s.conn.stopReadInLoop.inputBuffer = s.conn.inputBuffer := by
      unfold stopReadInLoop
      split <;> rfl
    simp only [Traffic.setConn, Traffic.queues, stopReadInLoop_queues, hin]

end

end BufferedConnection

/-! ## 5. The bytes that pass through -/

section

variable {T : Type} {c : TcpConnection} {message : Message} {w : WriteResult}
  {o : TcpConnection.Outcome T}

theorem TcpConnection.sendInLoop_bytes (h : c.sendInLoop message w = some o) :
    o.accepted ++ o.conn.outputBuffer =
      c.outputBuffer ++ if c.givesUp w then [] else message := by
  unfold sendInLoop at h
  by_cases hstate : c.state = .cDisconnected
  · rw [if_pos hstate, Option.some.injEq] at h
    subst h
    simp [givesUp, hstate]
  rw [if_neg hstate] at h
  by_cases hfast : (!c.chnnel.isWriting && c.outputBuffer.isEmpty) = true
  · rw [if_pos hfast] at h
    have hempty : c.outputBuffer = [] := by
      rw [Bool.and_eq_true, List.isEmpty_iff] at hfast
      exact hfast.2
    cases w with
    | wrote n =>
      simp only [Option.ite_none_right_eq_some, Option.some.injEq] at h
      obtain ⟨-, rfl⟩ := h
      simp [givesUp, hstate, hempty]
    | failed errno =>
      cases errno with
      | pipe | connReset =>
        cases h
        simp [givesUp, hfast]
      | again | other =>
        cases h
        simp [givesUp, hstate]
  · rw [if_neg hfast, Option.some.injEq] at h
    subst h
    simp [givesUp, hstate, hfast]

theorem TcpConnection.handleWrite_bytes {drained : Bool}
    (h : c.handleWrite w = some (o, drained)) :
    o.accepted ++ o.conn.outputBuffer = c.outputBuffer := by
  rcases handleWrite_cases h with ⟨rfl, -⟩ | ⟨n, -, -, -, -, rfl⟩ | ⟨-, -, -, queue, -, rfl⟩
  · rfl
  · exact List.take_append_drop n _
  · exact List.append_nil _

end

namespace QueuedConnection

/-- What was sent has been taken by `write` or waits, and what was stored has been taken by user
code or waits. -/
structure Streamed (s : Traffic QueuedConnection) : Prop where
  output : s.accepted ++ s.conn.conn.outputBuffer = s.sent
  input : s.taken ++ s.conn.input = s.received

section

variable {s t : Traffic QueuedConnection}

theorem send_streamed {message : Message} {w : WriteResult} (h : Streamed s)
    (ht : send s message w = some t) : Streamed t ∧ t.conn.input = s.conn.input := by
  unfold send at ht
  by_cases hstate : s.conn.conn.state = .cConnected
  · simp only [if_pos hstate] at ht
    obtain ⟨o, ho, rfl⟩ := Option.map_eq_some_iff.mp ht
    refine ⟨⟨?_, h.input⟩, rfl⟩
    show (s.accepted ++ o.accepted) ++ o.conn.outputBuffer =
      s.sent ++ if s.conn.conn.givesUp w then [] else message
    rw [List.append_assoc, TcpConnection.sendInLoop_bytes ho, ← List.append_assoc, h.output]
  · simp only [if_neg hstate, Option.some.injEq] at ht
    subst ht
    exact ⟨h, rfl⟩

theorem step_streamed {l : TrafficLabel} (h : Streamed s) (hstep : step s l = some t) :
    Streamed t := by
  cases l with
  | connectEstablished =>
    simp only [step, Option.ite_none_right_eq_some, Option.some.injEq] at hstep
    obtain ⟨-, rfl⟩ := hstep
    exact ⟨h.output, h.input⟩
  | send message w => exact (send_streamed h hstep).1
  | sendInput w =>
    simp only [step] at hstep
    split at hstep
    · obtain ⟨m, hm, rfl⟩ := Option.map_eq_some_iff.mp hstep
      obtain ⟨hs, hin⟩ := send_streamed h hm
      refine ⟨hs.output, ?_⟩
      show (m.taken ++ s.conn.input) ++ [] = m.received
      rw [List.append_nil, ← hin]
      exact hs.input
    · cases hstep
      exact h
  | handleRead r =>
    have hin : s.taken ++ (s.conn.input ++ r.stored) = s.received ++ r.stored := by
      rw [← List.append_assoc, h.input]
    simp only [step] at hstep
    split at hstep
    · simp only [Option.ite_none_right_eq_some, Option.some.injEq] at hstep
      obtain ⟨-, rfl⟩ := hstep
      exact ⟨h.output, hin⟩
    · cases hstep
      exact ⟨h.output, hin⟩
  | retrieveAsString len =>
    simp only [step, Option.ite_none_right_eq_some, Option.some.injEq] at hstep
    obtain ⟨-, rfl⟩ := hstep
    refine ⟨h.output, ?_⟩
    show (s.taken ++ s.conn.input.take len) ++ s.conn.input.drop len = s.received
    rw [List.append_assoc, List.take_append_drop]
    exact h.input
  | retrieveAllAsString =>
    cases hstep
    refine ⟨h.output, ?_⟩
    show (s.taken ++ s.conn.input) ++ [] = s.received
    rw [List.append_nil]
    exact h.input
  | handleWrite w =>
    obtain ⟨⟨o, drained⟩, ho, rfl⟩ := Option.map_eq_some_iff.mp hstep
    refine ⟨?_, h.input⟩
    show (s.accepted ++ o.accepted) ++ o.conn.outputBuffer = s.sent ++ []
    rw [List.append_assoc, TcpConnection.handleWrite_bytes ho, List.append_nil]
    exact h.output
  | shutdown =>
    simp only [step] at hstep
    split at hstep <;> cases hstep
    · exact ⟨h.output, h.input⟩
    · exact h
  | startRead =>
    cases hstep
    refine ⟨?_, h.input⟩
    show s.accepted ++ s.conn.conn.startReadInLoop.outputBuffer = s.sent
    rw [TcpConnection.startReadInLoop_outputBuffer]
    exact h.output
  | stopRead =>
    cases hstep
    refine ⟨?_, h.input⟩
    show s.accepted ++ s.conn.conn.stopReadInLoop.outputBuffer = s.sent
    rw [TcpConnection.stopReadInLoop_outputBuffer]
    exact h.output

end

end QueuedConnection

namespace BufferedConnection

/-- **The two buffers of a connection.**  As long as the vectors stay below 2^31 bytes, a connection
with `Buffer`s goes through any calls exactly as one with queues of bytes, and no assertion of the
buffers fails where the queues go on.  So in every state the bytes that `readv` stored are those the
user has taken and those in `_inputBuffer`, and the bytes sent and not given up are those `write`
has taken and those in `_outputBuffer`. -/
theorem buffers_refine (hightWaterMark : Nat) (writeComplete hightWater : Bool)
    {ls : List TrafficLabel}
    (hls : Trace.Along step Fits (.start (init hightWaterMark writeComplete hightWater)) ls) :
    Option.Rel Simulates
      (Trace.run step (.start (init hightWaterMark writeComplete hightWater)) ls)
      (Trace.run QueuedConnection.step
        (.start ⟨.init hightWaterMark writeComplete hightWater, []⟩) ls) ∧
    ∀ s, Trace.run step (.start (init hightWaterMark writeComplete hightWater)) ls = some s →
      s.accepted ++ s.conn.outputBuffer.content = s.sent ∧
      s.taken ++ s.conn.inputBuffer.content = s.received := by
  have hinit : Simulates (.start (init hightWaterMark writeComplete hightWater))
      (.start ⟨.init hightWaterMark writeComplete hightWater, []⟩) := by
    refine ⟨init_wf _ _ _, ?_⟩
    simp only [Traffic.start, Traffic.queues, init_queues]
    simp [init, Buffer.fresh_content]
  have hrel := Trace.run_rel (fun s q l hs hl ↦ step_refines (s := s) (q := q) (l := l) hs hl)
    hinit hls
  refine ⟨hrel, fun s hs ↦ ?_⟩
  rw [hs] at hrel
  generalize hq : Trace.run QueuedConnection.step
    (.start ⟨.init hightWaterMark writeComplete hightWater, []⟩) ls = q at hrel
  cases hrel with
  | @some _ q hsim =>
    obtain ⟨-, rfl⟩ := hsim
    have hstart : QueuedConnection.Streamed
        (.start ⟨.init hightWaterMark writeComplete hightWater, []⟩) := ⟨rfl, rfl⟩
    have hend := Trace.run_inv
      (fun _ _ _ h hstep ↦ QueuedConnection.step_streamed h hstep) hstart hq
    exact ⟨hend.output, hend.input⟩

/-- A message does not fit in one `write`; a request comes in two parts and is taken in two. -/
theorem buffers_refine_partial_write :
    ∃ s, Trace.run step (.start (init 100 true true)) [.connectEstablished,
        .handleRead (.bytes [1, 2]), .retrieveAsString 1, .handleRead (.bytes [3]),
        .send [7, 8, 9] (.wrote 1), .handleWrite (.wrote 1), .shutdown,
        .handleWrite (.wrote 1)] = some s ∧
      s.shutdownWrites = 1 ∧ s.accepted ++ s.conn.outputBuffer.content = [7, 8, 9] ∧
      s.taken ++ s.conn.inputBuffer.content = [1, 2, 3] := by
  have hls : Trace.Along step Fits (.start (init 100 true true)) [.connectEstablished,
      .handleRead (.bytes [1, 2]), .retrieveAsString 1, .handleRead (.bytes [3]),
      .send [7, 8, 9] (.wrote 1), .handleWrite (.wrote 1), .shutdown,
      .handleWrite (.wrote 1)] := by decide +kernel
  obtain ⟨s, hs⟩ := Option.isSome_iff_exists.mp (show (Trace.run step (.start (init 100 true true))
    [.connectEstablished, .handleRead (.bytes [1, 2]), .retrieveAsString 1,
      .handleRead (.bytes [3]), .send [7, 8, 9] (.wrote 1), .handleWrite (.wrote 1), .shutdown,
      .handleWrite (.wrote 1)]).isSome = true by decide +kernel)
  have hlog : (Trace.run step (.start (init 100 true true)) [.connectEstablished,
      .handleRead (.bytes [1, 2]), .retrieveAsString 1, .handleRead (.bytes [3]),
      .send [7, 8, 9] (.wrote 1), .handleWrite (.wrote 1), .shutdown,
      .handleWrite (.wrote 1)]).map (fun s ↦ (s.shutdownWrites, s.sent, s.received)) =
      some (1, [7, 8, 9], [1, 2, 3]) := by decide +kernel
  rw [hs, Option.map_some, Option.some.injEq, Prod.mk.injEq, Prod.mk.injEq] at hlog
  obtain ⟨hout, hin⟩ := (buffers_refine 100 true true hls).2 s hs
  exact ⟨s, hs, hlog.1, hout.trans hlog.2.1, hin.trans hlog.2.2⟩

end BufferedConnection

end Netlib
