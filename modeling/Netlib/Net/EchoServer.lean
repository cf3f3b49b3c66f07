import Netlib.Base.Convert
import Netlib.Net.TcpBuffers

/-!
# The echo server

`net/tests/EchoServer_test.cc` on one connection: a greeting when the connection is up, then every
chunk that a read brings is sent back; `exit` is answered with `bye` and a half-close, `quit` stops
the loop.  Everything runs on the loop thread of the connection, over the two `Buffer`s.
-/

open Storage

namespace Netlib

structure Echo where
  conn : BufferedConnection
  /-- What `write` has taken. -/
  accepted : List UInt8
  /-- What the calls of `onMessage` took out of the input buffer. -/
  chunks : List Message
  shutdownWrites : Nat
  /-- `_loop->quit()` was called. -/
  quit : Bool
deriving DecidableEq, Repr

namespace Echo

def hello : Message := ascii "Hello\n"
def exit : Message := ascii "exit\n"
def bye : Message := ascii "bye\n"
def quitWord : Message := ascii "quit\n"

/-- The connection as `TcpServer::newConnection` makes it; the echo server sets neither of the two
optional callbacks. -/
def init : Echo where
  conn := .init (64 * 1024 * 1024) false false
  accepted := []
  chunks := []
  shutdownWrites := 0
  quit := false

/-! ## 1. The code -/

def send (s : Echo) (message : Message) (w : WriteResult) : Option Echo := do
  let (o : BufferedConnection.Outcome Unit) ← s.conn.send message w
  return { s with conn := o.conn, accepted := s.accepted ++ o.accepted }

def shutdown (s : Echo) : Echo :=
  let (conn, shut) := s.conn.shutdown
  { s with conn := conn, shutdownWrites := if shut then s.shutdownWrites + 1 else s.shutdownWrites }

def onConnection (s : Echo) (w : WriteResult) : Option Echo := s.send hello w

/-- `w` is the answer to the one `write` that a message can lead to. -/
def onMessage (s : Echo) (w : WriteResult) : Option Echo := do
  let (msg, inputBuffer) ← s.conn.inputBuffer.retrieveAllAsString
  let s : Echo := { s with conn := { s.conn with inputBuffer := inputBuffer }
                           chunks := s.chunks ++ [msg] }
  let s ← if msg = exit then (s.send bye w).map shutdown else some s
  let s : Echo := if msg = quitWord then { s with quit := true } else s
  s.send msg w

def connectEstablished (s : Echo) (w : WriteResult) : Option Echo := do
  let conn ← s.conn.connectEstablished
  onConnection { s with conn := conn } w

def handleClose (s : Echo) (w : WriteResult) : Option Echo := do
  let conn ← s.conn.handleClose
  onConnection { s with conn := conn } w

def handleRead (s : Echo) (r : Readv) (w : WriteResult) : Option Echo := do
  let (conn, next) ← s.conn.handleRead r
  let s := { s with conn := conn }
  match next with
  | .messageCallBack => s.onMessage w
  | .handleClose => s.handleClose w
  | .handleError => return s

def handleWrite (s : Echo) (w : WriteResult) : Option Echo := do
  let ((o : BufferedConnection.Outcome Unit), drained) ← s.conn.handleWrite w
  let s := { s with conn := o.conn, accepted := s.accepted ++ o.accepted }
  if drained = true ∧ s.conn.state = .cDisconnecting ∧ s.conn.chnnel.isWriting = false then
    return { s with shutdownWrites := s.shutdownWrites + 1 }
  else return s

inductive Label where
  | connectEstablished (w : WriteResult)
  | readable (r : Readv) (w : WriteResult)
  | writable (w : WriteResult)
  /-- `POLLHUP` without `POLLIN`. -/
  | hangUp (w : WriteResult)
deriving DecidableEq, Repr

/-- The loop handles an event only where the channel asks for it; an assertion that fails ends the
run. -/
def step (s : Echo) : Label → Option Echo
  | .connectEstablished w => s.connectEstablished w
  | .readable r w => if s.conn.chnnel.isReading then s.handleRead r w else none
  | .writable w => if s.conn.chnnel.isWriting then s.handleWrite w else none
  -- reported for every channel that `epoll` knows, whatever it asks for
  | .hangUp w => if s.conn.chnnel.interest.isSome then s.handleClose w else none

/-! ## 2. What the clients see -/

/-- The answer to a chunk. -/
def reply (msg : Message) : Message := if msg = exit then bye else msg

/-- The answers to all chunks: behind `exit` there are none. -/
def echo : List Message → List UInt8
  | [] => []
  | msg :: msgs => if msg = exit then bye else msg ++ echo msgs

/-- A `write` of a message that is not waiting does not find the connection broken. -/
def Unbroken (w : WriteResult) : Prop := w ≠ .failed .pipe ∧ w ≠ .failed .connReset

/-- The kernel stores no more than it was given room for, the backlog stays below 2^31 bytes, and no
message is lost to a broken connection. -/
def Steady (s : Echo) : Label → Prop
  | .connectEstablished w => Unbroken w
  | .readable r w => s.conn.inputBuffer.Delivers r.stored ∧
      s.conn.outputBuffer.storageAfter (reply r.stored).length < 2 ^ 31 ∧ Unbroken w
  | .writable _ | .hangUp _ => True

instance (w : WriteResult) : Decidable (Unbroken w) := inferInstanceAs (Decidable (_ ∧ _))

instance (s : Echo) : (l : Label) → Decidable (s.Steady l)
  | .connectEstablished _ => inferInstanceAs (Decidable (_ ∧ _))
  | .readable _ _ => inferInstanceAs (Decidable (_ ∧ _ ∧ _))
  | .writable _ | .hangUp _ => .isTrue trivial

theorem echo_append (msgs : List Message) (msg : Message) :
    echo (msgs ++ [msg]) = echo msgs ++ if exit ∈ msgs then [] else reply msg := by
  induction msgs with
  | nil => simp [echo, reply]
  | cons m msgs ih =>
    simp only [List.cons_append, echo, ih, List.mem_cons]
    by_cases hm : m = exit
    · simp [hm]
    · have hm' : ¬ exit = m := fun h ↦ hm h.symm
      simp [hm, hm']

/-! ## 3. One event -/

/-- Whatever waits to be written has write events asked for. -/
def Waits (c : TcpConnection) : Prop := c.outputBuffer ≠ [] → c.chnnel.isWriting = true

/-- Everything but the connection and what it has written. -/
structure SameTalk (s t : Echo) : Prop where
  chunks : t.chunks = s.chunks
  shutdownWrites : t.shutdownWrites = s.shutdownWrites
  quit : t.quit = s.quit
  input : t.conn.inputBuffer = s.conn.inputBuffer
  state : t.conn.state = s.conn.state
  idle : s.conn.state ≠ .cConnected → t.conn.outputBuffer = s.conn.outputBuffer

section

variable {s t : Echo} {message : Message} {w : WriteResult}

theorem Unbroken.givesUp (hw : Unbroken w) {c : TcpConnection} (hstate : c.state = .cConnected) :
    c.givesUp w = false := by
  simp [TcpConnection.givesUp, hstate, hw.1, hw.2]

theorem rel_of_some {α β : Type} {R : α → β → Prop} {a : α} {y : Option β}
    (h : Option.Rel R (some a) y) : ∃ b, y = some b ∧ R a b := by
  cases h with
  | some hab => exact ⟨_, rfl, hab⟩

theorem sendInLoop_waits {T : Type} {c : TcpConnection} {o : TcpConnection.Outcome T}
    (hc : Waits c) (h : c.sendInLoop message w = some o) : Waits o.conn := by
  rcases TcpConnection.sendInLoop_cases h with
    ⟨-, rfl⟩ | ⟨-, rfl⟩ | ⟨-, n, front, -, -, -, rfl⟩
  · exact hc
  · exact hc
  · intro hne
    rw [TcpConnection.append_outputBuffer] at hne
    rw [TcpConnection.append_isWriting]
    by_cases hrest : message.drop n = []
    · rw [hrest, List.append_nil] at hne
      simp [hc hne]
    · simp [hrest]

/-- **One message.**  While the connection is up a message joins the output; else it is dropped. -/
theorem send_spec (hwf : s.conn.Wf) (hwaits : Waits s.conn.queues)
    (hfit : s.conn.state = .cConnected →
      s.conn.outputBuffer.storageAfter message.length < 2 ^ 31)
    (hw : Unbroken w) (h : s.send message w = some t) :
    SameTalk s t ∧ t.conn.Wf ∧ Waits t.conn.queues ∧
      t.accepted ++ t.conn.outputBuffer.content =
        s.accepted ++ s.conn.outputBuffer.content ++
          if s.conn.state = .cConnected then message else [] := by
  obtain ⟨o, ho, heq⟩ := Option.bind_eq_some_iff.mp h
  cases heq
  unfold BufferedConnection.send at ho
  by_cases hstate : s.conn.state = .cConnected
  · rw [if_pos hstate] at ho
    have hrel := BufferedConnection.sendInLoop_refines (T := Unit) (w := w) hwf (hfit hstate)
    rw [ho] at hrel
    obtain ⟨a, ha, himpl⟩ := rel_of_some hrel
    have hbytes := TcpConnection.sendInLoop_bytes ha
    rw [hw.givesUp (c := s.conn.queues) hstate, ← himpl.conn, ← himpl.accepted] at hbytes
    have hst := TcpConnection.sendInLoop_state ha
    rw [← himpl.conn] at hst
    have hwaits' := sendInLoop_waits hwaits ha
    rw [← himpl.conn] at hwaits'
    refine ⟨⟨rfl, rfl, rfl, himpl.input, hst, fun hn ↦ (hn hstate).elim⟩, himpl.wf, hwaits', ?_⟩
    rw [if_pos hstate, List.append_assoc, List.append_assoc]
    exact congrArg (s.accepted ++ ·) hbytes
  · rw [if_neg hstate] at ho
    cases ho
    refine ⟨⟨rfl, rfl, rfl, rfl, rfl, fun _ ↦ rfl⟩, hwf, hwaits, ?_⟩
    simp [hstate]

/-- Taking the whole content leaves the vector alone. -/
theorem retrieveAllAsString_eq {b : Buffer} (h : b.Wf) :
    b.retrieveAllAsString = some (b.content, b.retrieveAll) := by
  have hretrieve : b.retrieve b.readAbleBytes = some b.retrieveAll := by
    unfold Buffer.retrieve
    rw [assert_of le_rfl, Option.bind_eq_bind, Option.bind_some, if_neg (lt_irrefl _)]
    rfl
  unfold Buffer.retrieveAllAsString Buffer.retrieveAsString
  rw [assert_of le_rfl, h.peek_all, hretrieve]
  rfl

theorem shutdown_of_connected (h : s.conn.state = .cConnected) :
    s.shutdown = { s with
      conn := { s.conn with state := .cDisconnecting }
      shutdownWrites :=
        if s.conn.chnnel.isWriting = true then s.shutdownWrites else s.shutdownWrites + 1 } := by
  unfold shutdown BufferedConnection.shutdown
  rw [if_pos h]
  cases s.conn.chnnel.isWriting <;> simp

theorem shutdown_of_not_connected (h : s.conn.state ≠ .cConnected) : s.shutdown = s := by
  unfold shutdown BufferedConnection.shutdown
  rw [if_neg h]
  rfl

/-- What a chunk changes besides the bytes. -/
structure Answered (s t : Echo) (msg : Message) : Prop where
  wf : t.conn.Wf
  waits : Waits t.conn.queues
  input : t.conn.inputBuffer = s.conn.inputBuffer.retrieveAll
  chunks : t.chunks = s.chunks ++ [msg]
  bytes : t.accepted ++ t.conn.outputBuffer.content =
    s.accepted ++ s.conn.outputBuffer.content ++
      if s.conn.state = .cConnected then reply msg else []
  state : t.conn.state =
    if s.conn.state = .cConnected ∧ msg = exit then .cDisconnecting else s.conn.state
  quit : t.quit = (s.quit || decide (msg = quitWord))
  shut : t.shutdownWrites = s.shutdownWrites ∨
    s.conn.state = .cConnected ∧ msg = exit ∧ t.conn.outputBuffer.content = []
  idle : s.conn.state ≠ .cConnected → t.conn.outputBuffer = s.conn.outputBuffer

/-- The state behind `retrieveAllAsString`. -/
def took (s : Echo) : Echo :=
  { s with conn := { s.conn with inputBuffer := s.conn.inputBuffer.retrieveAll }
           chunks := s.chunks ++ [s.conn.inputBuffer.content] }

theorem took_wf (hwf : s.conn.Wf) : s.took.conn.Wf := ⟨hwf.input.retrieveAll_wf, hwf.output⟩

/-- A chunk that is not `exit` is sent back. -/
theorem onMessage_of_ne (hwf : s.conn.Wf) (hne : s.conn.inputBuffer.content ≠ exit) :
    s.onMessage w = { s.took with
      quit := s.quit || decide (s.conn.inputBuffer.content = quitWord) }.send
        s.conn.inputBuffer.content w := by
  unfold onMessage
  rw [retrieveAllAsString_eq hwf.input]
  simp only [Option.bind_eq_bind, Option.bind_some, if_neg hne]
  by_cases hq : s.conn.inputBuffer.content = quitWord
  · simp [hq, took]
  · simp [hq, took]

/-- `exit` is answered with `bye` and the half-close; its own echo is dropped behind it. -/
theorem onMessage_of_eq (hwf : s.conn.Wf) (heq : s.conn.inputBuffer.content = exit) :
    s.onMessage w = (s.took.send bye w).map shutdown := by
  have hnot : exit ≠ quitWord := by decide
  unfold onMessage
  rw [retrieveAllAsString_eq hwf.input]
  simp only [Option.bind_eq_bind, Option.bind_some, heq, if_true, if_neg hnot]
  rw [took, heq]
  generalize send _ bye w = x
  cases x with
  | none => rfl
  | some b =>
    have hdown : (shutdown b).conn.state ≠ .cConnected := by
      by_cases hst : b.conn.state = .cConnected
      · rw [shutdown_of_connected hst]
        simp
      · rw [shutdown_of_not_connected hst]
        exact hst
    show (shutdown b).send exit w = some (shutdown b)
    unfold send BufferedConnection.send
    rw [if_neg hdown, Option.bind_eq_bind, Option.bind_some]
    simp

/-- **One chunk.** -/
theorem onMessage_spec (hwf : s.conn.Wf) (hwaits : Waits s.conn.queues)
    (hfit : s.conn.state = .cConnected →
      s.conn.outputBuffer.storageAfter (reply s.conn.inputBuffer.content).length < 2 ^ 31)
    (hw : Unbroken w) (h : s.onMessage w = some t) :
    Answered s t s.conn.inputBuffer.content := by
  by_cases hexit : s.conn.inputBuffer.content = exit
  · rw [onMessage_of_eq hwf hexit] at h
    obtain ⟨b, hb, rfl⟩ := Option.map_eq_some_iff.mp h
    have hnot : exit ≠ quitWord := by decide
    rw [hexit, reply, if_pos rfl] at hfit
    obtain ⟨hsame, hbwf, hbwaits, hbytes⟩ := send_spec (took_wf hwf) hwaits hfit hw hb
    have hchunks : b.chunks = s.chunks ++ [exit] := by
      rw [hsame.chunks, took, hexit]
    have hquit : b.quit = (s.quit || decide (exit = quitWord)) := by
      rw [hsame.quit]
      simp [took, hnot]
    rw [hexit]
    by_cases hst : s.conn.state = .cConnected
    · rw [shutdown_of_connected (hsame.state.trans hst)]
      refine ⟨⟨hbwf.input, hbwf.output⟩, hbwaits, hsame.input, hchunks, ?_, ?_, hquit, ?_,
        fun hn ↦ (hn hst).elim⟩
      · rw [if_pos hst, reply, if_pos rfl]
        rw [if_pos (show s.took.conn.state = _ from hst)] at hbytes
        exact hbytes
      · rw [if_pos (show s.conn.state = .cConnected ∧ exit = exit from ⟨hst, rfl⟩)]
      · by_cases hwr : b.conn.chnnel.isWriting = true
        · refine .inl ?_
          simp only [hwr, if_true]
          exact hsame.shutdownWrites
        · -- nothing waits, or write events would be asked for
          refine .inr ⟨hst, rfl, ?_⟩
          by_contra hne
          exact hwr (hbwaits hne)
    · rw [shutdown_of_not_connected (by rw [hsame.state]; exact hst)]
      refine ⟨hbwf, hbwaits, hsame.input, hchunks, ?_, ?_, hquit, .inl hsame.shutdownWrites,
        hsame.idle⟩
      · rw [if_neg hst]
        rw [if_neg (show ¬ s.took.conn.state = _ from hst)] at hbytes
        exact hbytes
      · rw [if_neg fun hh ↦ hst hh.1]
        exact hsame.state
  · rw [onMessage_of_ne hwf hexit] at h
    rw [reply, if_neg hexit] at hfit
    set m : Echo := { s.took with
      quit := s.quit || decide (s.conn.inputBuffer.content = quitWord) } with hm
    obtain ⟨hsame, htwf, htwaits, hbytes⟩ :=
      send_spec (s := m) (took_wf hwf) hwaits hfit hw h
    refine ⟨htwf, htwaits, hsame.input, hsame.chunks, ?_, ?_, hsame.quit,
      .inl hsame.shutdownWrites, hsame.idle⟩
    · rw [reply, if_neg hexit]
      exact hbytes
    · rw [if_neg fun hh ↦ hexit hh.2]
      exact hsame.state

/-! ## 4. Every run -/

/-- The vector of the input buffer never grows beyond this. -/
def inputBound : Nat := 2 * Buffer.extrabufSize + cCheapPrepend

/-- Both indices stand at the front, and the vector is within the bound. -/
structure Drained (b : Buffer) : Prop where
  reader : b.readerIndex = cCheapPrepend
  writer : b.writerIndex = cCheapPrepend
  size : b.buffer.length ≤ inputBound

/-- What the replies have come to. -/
structure Serving (s : Echo) : Prop where
  wf : s.conn.Wf
  drained : Drained s.conn.inputBuffer
  unborn : s.conn.state = .cConnecting → s = init
  stream : s.conn.state ≠ .cConnecting →
    s.accepted ++ s.conn.outputBuffer.content = hello ++ echo s.chunks
  waits : s.conn.state ≠ .cDisconnected → Waits s.conn.queues
  up : s.conn.state ≠ .cConnecting → (s.conn.state = .cConnected ↔ exit ∉ s.chunks)
  halfClosed : 0 < s.shutdownWrites → s.conn.outputBuffer.content = [] ∧ exit ∈ s.chunks
  quit : s.quit = true ↔ quitWord ∈ s.chunks
  closed : s.conn.state = .cDisconnected →
    s.conn.chnnel.isReading = false ∧ s.conn.chnnel.isWriting = false

theorem Drained.content {b : Buffer} (h : Drained b) : b.content = [] := by
  unfold Buffer.content
  rw [h.reader, h.writer]
  exact window_self _ _

theorem init_serving : init.Serving := by
  refine ⟨BufferedConnection.init_wf _ _ _, ⟨rfl, rfl, by decide +kernel⟩, fun _ ↦ rfl, ?_, ?_, ?_,
    ?_, ?_, fun hc ↦ (by cases hc)⟩
  · intro h
    exact (h rfl).elim
  · intro _ hne
    exact (hne Buffer.fresh_content).elim
  · intro h
    exact (h rfl).elim
  · intro h
    exact (lt_irrefl 0 h).elim
  · simp [init]

/-- A drained buffer takes what one `readv` can store and stays within the bound. -/
theorem Drained.storageRead_le {b : Buffer} (h : Drained b) (hwf : b.Wf) {data : List UInt8}
    (hd : b.Delivers data) : b.storageRead data.length ≤ inputBound := by
  have hsize := h.size
  obtain ⟨xs, r, w, rfl, hrw, hw, h8, hs⟩ := hwf.offsets
  have hr : r = 8 := Int.ofNat.inj h.reader
  have hw8 : w = 8 := Int.ofNat.inj h.writer
  have hroom := Buffer.writeAbleBytes_mk (r := r) hw hs
  have hfront : Buffer.prependAbleBytes ⟨xs, r, w⟩ = r := Buffer.prependAbleBytes_mk (by omega)
  unfold Buffer.Delivers Buffer.iovecs at hd
  unfold Buffer.storageRead
  rw [hroom] at hd ⊢
  rw [hfront]
  have hextra : Buffer.extrabufSize = 65536 := rfl
  have hbound : inputBound = 2 * 65536 + 8 := rfl
  simp only at hsize ⊢
  split_ifs at hd ⊢ <;> simp only [List.sum_cons, List.sum_nil] at hd <;> omega

theorem connectEstablished_serving (h : s.Serving) (hw : Unbroken w)
    (hstep : s.connectEstablished w = some t) : t.Serving := by
  unfold connectEstablished BufferedConnection.connectEstablished at hstep
  by_cases hstate : s.conn.state = .cConnecting
  · have hinit := h.unborn hstate
    subst hinit
    rw [assert_of hstate] at hstep
    simp only [Option.bind_eq_bind, Option.bind_some] at hstep
    have hroom : init.conn.outputBuffer.storageAfter hello.length < 2 ^ 31 := by decide +kernel
    have hwaits : Waits init.conn.queues := fun hne ↦ (hne Buffer.fresh_content).elim
    obtain ⟨hsame, hwf, hwaits', hbytes⟩ := send_spec (s := { init with
        conn := { init.conn with state := .cConnected, chnnel := init.conn.chnnel.enableReading } })
      ⟨h.wf.input, h.wf.output⟩ (fun hne ↦ (hne Buffer.fresh_content).elim) (fun _ ↦ hroom) hw hstep
    have hstate' : t.conn.state = .cConnected := hsame.state
    have hchunks : t.chunks = [] := hsame.chunks
    refine ⟨hwf, ?_, ?_, fun _ ↦ ?_, fun _ ↦ hwaits', fun _ ↦ ?_, ?_, ?_, ?_⟩
    · rw [hsame.input]
      exact h.drained
    · rw [hstate']
      exact fun hc ↦ (by cases hc)
    · rw [hbytes, hchunks, if_pos rfl]
      show (([] : List UInt8) ++ Buffer.fresh.content) ++ hello = hello ++ echo []
      rw [Buffer.fresh_content]
      simp [echo]
    · simp [hstate', hchunks]
    · rw [hsame.shutdownWrites]
      exact fun hc ↦ (lt_irrefl 0 hc).elim
    · rw [hsame.quit, hchunks]
      simp [init]
    · rw [hstate']
      exact fun hc ↦ (by cases hc)
  · rw [assert, if_neg hstate] at hstep
    cases hstep

/-- A chunk arrives on a connection that is not closed. -/
theorem onMessage_serving {b : Buffer} {data : Message} (h : s.Serving)
    (hborn : s.conn.state ≠ .cConnecting) (hopen : s.conn.state ≠ .cDisconnected) (hb : b.Wf)
    (hcontent : b.content = data) (hsize : b.buffer.length ≤ inputBound)
    (hfit : s.conn.outputBuffer.storageAfter (reply data).length < 2 ^ 31) (hw : Unbroken w)
    (hstep : onMessage { s with conn := { s.conn with inputBuffer := b } } w = some t) :
    t.Serving := by
  subst hcontent
  have hans := onMessage_spec (s := { s with conn := { s.conn with inputBuffer := b } })
    ⟨hb, h.wf.output⟩ (h.waits hopen) (fun _ ↦ hfit) hw hstep
  have hstream := h.stream hborn
  have hup := h.up hborn
  have hstate := hans.state
  have hchunks : t.chunks = s.chunks ++ [b.content] := hans.chunks
  have hdown : exit ∈ s.chunks → s.conn.state ≠ .cConnected := fun hm hc ↦ hup.mp hc hm
  refine ⟨hans.wf, ?_, ?_, fun _ ↦ ?_, fun _ ↦ hans.waits, fun _ ↦ ?_, fun hpos ↦ ?_, ?_,
    fun hc ↦ ?_⟩
  · rw [hans.input]
    exact ⟨rfl, rfl, hsize⟩
  · intro hc
    rw [hstate] at hc
    split at hc
    · cases hc
    · exact (hborn hc).elim
  · rw [hans.bytes, hchunks, echo_append, ← List.append_assoc]
    show s.accepted ++ s.conn.outputBuffer.content ++
      (if s.conn.state = .cConnected then reply b.content else []) = _
    rw [hstream]
    by_cases hm : exit ∈ s.chunks
    · rw [if_pos hm, if_neg (hdown hm)]
    · rw [if_neg hm, if_pos (hup.mpr hm)]
  · rw [hstate, hchunks, List.mem_append, List.mem_singleton]
    show (if s.conn.state = .cConnected ∧ b.content = exit then StateE.cDisconnecting
      else s.conn.state) = .cConnected ↔ _
    by_cases hexit : b.content = exit
    · by_cases hc : s.conn.state = .cConnected
      · simp [hc, hexit]
      · simp [hc, hexit]
    · have hne : ¬ exit = b.content := fun he ↦ hexit he.symm
      simp [hexit, hne, hup]
  · rw [hchunks]
    rcases hans.shut with hsame | ⟨-, hexit, hempty⟩
    · rw [hsame] at hpos
      obtain ⟨hempty, hmem⟩ := h.halfClosed hpos
      refine ⟨?_, List.mem_append_left _ hmem⟩
      -- behind the half-close nothing is sent
      rw [hans.idle (hdown hmem)]
      exact hempty
    · exact ⟨hempty, List.mem_append_right _ (by simpa using hexit.symm)⟩
  · rw [hans.quit, hchunks, List.mem_append, List.mem_singleton, Bool.or_eq_true,
      decide_eq_true_iff, ← h.quit]
    exact or_congr_right eq_comm
  · rw [hstate] at hc
    split at hc
    · cases hc
    · exact (hopen hc).elim

theorem handleClose_serving (h : s.Serving) (hborn : s.conn.state ≠ .cConnecting)
    (hstep : s.handleClose w = some t) : t.Serving := by
  unfold handleClose BufferedConnection.handleClose at hstep
  by_cases hstate : s.conn.state = .cDisconnecting ∨ s.conn.state = .cDisconnected
  · rw [assert_of hstate] at hstep
    simp only [Option.bind_eq_bind, Option.bind_some] at hstep
    -- the greeting of `onConnection` is dropped: the connection is down
    have ht : t = { s with
        conn := { s.conn with state := .cDisconnected, chnnel := s.conn.chnnel.diableAll } } := by
      unfold onConnection send BufferedConnection.send at hstep
      simpa [eq_comm] using hstep
    have hexit : exit ∈ s.chunks := by
      by_contra hno
      have hup := (h.up hborn).mpr hno
      rw [hup] at hstate
      simp at hstate
    subst ht
    refine ⟨⟨h.wf.input, h.wf.output⟩, h.drained, fun hc ↦ (by cases hc),
      fun _ ↦ h.stream hborn, fun hc ↦ (hc rfl).elim, fun _ ↦ ?_, h.halfClosed, h.quit,
      fun _ ↦ ⟨?_, ?_⟩⟩
    · simp [hexit]
    · simp [Chnnel.isReading, Chnnel.diableAll]
    · simp [Chnnel.isWriting, Chnnel.diableAll]
  · rw [assert, if_neg hstate] at hstep
    cases hstep

/-- A read of no bytes leaves the input where it was. -/
theorem handleRead_eof {c : BufferedConnection} (h : c.Wf) :
    ∃ b, b.Wf ∧ b.readerIndex = c.inputBuffer.readerIndex ∧
      b.writerIndex = c.inputBuffer.writerIndex ∧
      b.buffer.length = c.inputBuffer.buffer.length ∧
      c.handleRead (.bytes []) = some ({ c with inputBuffer := b }, .handleClose) := by
  have hroom : ([] : List UInt8).length ≤ c.inputBuffer.writeAbleBytes := Nat.zero_le _
  obtain ⟨xs, hlen, hwf, -, hread⟩ := h.input.readFd_fits 0 hroom
  refine ⟨_, hwf, rfl, by simp, hlen, ?_⟩
  unfold BufferedConnection.handleRead
  rw [hread]
  rfl

theorem handleRead_serving {r : Readv} (h : s.Serving) (hborn : s.conn.state ≠ .cConnecting)
    (hopen : s.conn.state ≠ .cDisconnected) (hsteady : s.Steady (.readable r w))
    (hstep : s.handleRead r w = some t) : t.Serving := by
  obtain ⟨hd, hfit, hw⟩ := hsteady
  unfold handleRead at hstep
  cases r with
  | error errno =>
    rw [BufferedConnection.handleRead_error] at hstep
    cases hstep
    exact h
  | bytes data =>
    simp only [Readv.stored] at hd hfit
    by_cases hnil : data = []
    · subst hnil
      obtain ⟨b, hb, hreader, hwriter, hlen, hr⟩ := handleRead_eof h.wf
      rw [hr, Option.bind_eq_bind, Option.bind_some] at hstep
      refine handleClose_serving (s := { s with conn := { s.conn with inputBuffer := b } })
        ⟨⟨hb, h.wf.output⟩, ⟨?_, ?_, ?_⟩, fun hc ↦ (hborn hc).elim, h.stream, h.waits, h.up,
          h.halfClosed, h.quit, h.closed⟩ hborn hstep
      · rw [hreader]
        exact h.drained.reader
      · rw [hwriter]
        exact h.drained.writer
      · rw [hlen]
        exact h.drained.size
    · have hroom := h.drained.storageRead_le h.wf.input hd
      have hbound : inputBound < 2 ^ 31 := by decide
      obtain ⟨b, hb, hcontent, hlen, hr⟩ := BufferedConnection.handleRead_spec h.wf hd (by omega)
      rw [h.drained.content, List.nil_append] at hcontent
      rw [hr, Option.bind_eq_bind, Option.bind_some] at hstep
      simp only [hnil, if_false] at hstep
      exact onMessage_serving h hborn hopen hb hcontent (hlen ▸ hroom) hfit hw hstep

theorem handleWrite_waits {T : Type} {c : TcpConnection} {o : TcpConnection.Outcome T}
    {drained : Bool} (hc : Waits c) (h : c.handleWrite w = some (o, drained)) : Waits o.conn := by
  rcases TcpConnection.handleWrite_cases h with
    ⟨rfl, -⟩ | ⟨n, -, -, -, hw, rfl⟩ | ⟨-, -, -, queue, -, rfl⟩
  · exact hc
  · exact fun _ ↦ hw
  · exact fun hne ↦ (hne rfl).elim

theorem handleWrite_empty {T : Type} {c : TcpConnection} {o : TcpConnection.Outcome T}
    (h : c.handleWrite w = some (o, true)) : o.conn.outputBuffer = [] := by
  rcases TcpConnection.handleWrite_cases h with
    ⟨-, hd⟩ | ⟨n, -, -, hd, -⟩ | ⟨-, -, -, queue, -, rfl⟩
  · cases hd
  · cases hd
  · rfl

/-- **One write.**  It moves bytes from what waits to what was taken, and changes nothing else. -/
theorem written_spec {o : BufferedConnection.Outcome Unit} {drained : Bool} (hwf : s.conn.Wf)
    (hwaits : Waits s.conn.queues) (ho : s.conn.handleWrite w = some (o, drained)) :
    o.conn.Wf ∧ o.conn.inputBuffer = s.conn.inputBuffer ∧ o.conn.state = s.conn.state ∧
      Waits o.conn.queues ∧
      o.accepted ++ o.conn.outputBuffer.content = s.conn.outputBuffer.content ∧
      (drained = true → o.conn.outputBuffer.content = []) := by
  have hrel := BufferedConnection.handleWrite_refines (T := Unit) (w := w) hwf
  rw [ho] at hrel
  obtain ⟨⟨a, drained'⟩, ha, himpl, hdr⟩ := rel_of_some hrel
  obtain rfl : drained = drained' := hdr
  have hst := TcpConnection.handleWrite_state ha
  have hbytes := TcpConnection.handleWrite_bytes ha
  have hwaits' := handleWrite_waits hwaits ha
  rw [← himpl.conn] at hst hbytes hwaits'
  rw [← himpl.accepted] at hbytes
  refine ⟨himpl.wf, himpl.input, hst, hwaits', hbytes, fun hd ↦ ?_⟩
  rw [hd] at ha
  have hempty := handleWrite_empty ha
  rw [← himpl.conn] at hempty
  exact hempty

theorem handleWrite_serving (h : s.Serving) (hborn : s.conn.state ≠ .cConnecting)
    (hopen : s.conn.state ≠ .cDisconnected) (hstep : s.handleWrite w = some t) : t.Serving := by
  unfold handleWrite at hstep
  obtain ⟨⟨o, drained⟩, ho, hstep⟩ := Option.bind_eq_some_iff.mp hstep
  obtain ⟨hwf, hinput, hstate, hwaits, hbytes, hlastOut⟩ := written_spec h.wf (h.waits hopen) ho
  have hquiet : Serving { s with conn := o.conn, accepted := s.accepted ++ o.accepted } := by
    refine ⟨hwf, ?_, fun hc ↦ (hborn (hstate.symm.trans hc)).elim, fun _ ↦ ?_,
      fun _ ↦ hwaits, fun _ ↦ ?_, fun hpos ↦ ?_, h.quit,
      fun hc ↦ (hopen (hstate.symm.trans hc)).elim⟩
    · rw [hinput]
      exact h.drained
    · show (s.accepted ++ o.accepted) ++ o.conn.outputBuffer.content = _
      rw [List.append_assoc, hbytes]
      exact h.stream hborn
    · rw [hstate]
      exact h.up hborn
    · obtain ⟨hempty, hmem⟩ := h.halfClosed hpos
      rw [hempty] at hbytes
      exact ⟨(List.append_eq_nil_iff.mp hbytes).2, hmem⟩
  dsimp only at hstep
  split at hstep
  · -- the last reply is out, and the connection was shut down
    rename_i hlast
    obtain ⟨hd, hdisc, -⟩ := hlast
    cases hstep
    refine { hquiet with
      unborn := fun hc ↦ (hborn (hstate.symm.trans hc)).elim
      halfClosed := fun _ ↦ ⟨hlastOut hd, ?_⟩ }
    by_contra hno
    have hup := (hquiet.up (by rw [hdisc]; simp)).mpr hno
    rw [hdisc] at hup
    cases hup
  · cases hstep
    exact hquiet

/-- An event is handled on a connection that is up or half closed. -/
theorem Serving.not_idle (h : s.Serving)
    (hasks : s.conn.chnnel.isReading = true ∨ s.conn.chnnel.isWriting = true) :
    s.conn.state ≠ .cConnecting ∧ s.conn.state ≠ .cDisconnected := by
  refine ⟨fun hc ↦ ?_, fun hc ↦ ?_⟩
  · rw [h.unborn hc] at hasks
    exact hasks.elim (fun hr ↦ by cases hr) fun hw ↦ by cases hw
  · obtain ⟨hr, hw⟩ := h.closed hc
    rw [hr, hw] at hasks
    simp at hasks

theorem step_serving {l : Label} (h : s.Serving) (hsteady : s.Steady l) (hstep : s.step l = some t) :
    t.Serving := by
  cases l with
  | connectEstablished w => exact connectEstablished_serving h hsteady hstep
  | readable r w =>
    simp only [step, Option.ite_none_right_eq_some] at hstep
    obtain ⟨hread, hstep⟩ := hstep
    obtain ⟨hborn, hopen⟩ := h.not_idle (.inl hread)
    exact handleRead_serving h hborn hopen hsteady hstep
  | writable w =>
    simp only [step, Option.ite_none_right_eq_some] at hstep
    obtain ⟨hwriting, hstep⟩ := hstep
    obtain ⟨hborn, hopen⟩ := h.not_idle (.inr hwriting)
    exact handleWrite_serving h hborn hopen hstep
  | hangUp w =>
    simp only [step, Option.ite_none_right_eq_some] at hstep
    obtain ⟨hknown, hstep⟩ := hstep
    refine handleClose_serving h (fun hc ↦ ?_) hstep
    rw [h.unborn hc] at hknown
    cases hknown

/-- **The echo.**  In every run on which the backlog stays below 2^31 bytes and no message meets a
broken connection: what `write` has taken and what waits are the greeting and the answers to the
chunks, in order; no input is left over and its vector never outgrows its bound; the half-close
comes behind `exit`, when all of this has been taken; and the loop is stopped by `quit` alone. -/
theorem echo_stream {ls : List Label} (hls : Trace.Along step Steady init ls)
    (hrun : Trace.run step init ls = some s) :
    (s.conn.state ≠ .cConnecting →
      s.accepted ++ s.conn.outputBuffer.content = hello ++ echo s.chunks) ∧
    s.conn.inputBuffer.content = [] ∧ s.conn.inputBuffer.buffer.length ≤ 131080 ∧
    (0 < s.shutdownWrites → exit ∈ s.chunks ∧ s.accepted = hello ++ echo s.chunks) ∧
    (s.quit = true ↔ quitWord ∈ s.chunks) := by
  have h : s.Serving :=
    Trace.run_inv_along (fun _ _ _ h hl hstep ↦ step_serving h hl hstep) init_serving hls hrun
  refine ⟨h.stream, h.drained.content, h.drained.size, fun hpos ↦ ?_, h.quit⟩
  obtain ⟨hempty, hexit⟩ := h.halfClosed hpos
  refine ⟨hexit, ?_⟩
  have hborn : s.conn.state ≠ .cConnecting := by
    intro hc
    rw [h.unborn hc] at hpos
    exact lt_irrefl 0 hpos
  have hstream := h.stream hborn
  rw [hempty, List.append_nil] at hstream
  exact hstream

/-- Two chunks; the kernel is slow to take the first answer, and `exit` waits behind it. -/
def session : List Label :=
  [.connectEstablished (.wrote 6), .readable (.bytes [65, 66]) (.wrote 1),
    .readable (.bytes exit) (.wrote 0), .writable (.wrote 3), .writable (.wrote 2),
    .readable (.bytes [67]) (.wrote 1)]

theorem echo_stream_session :
    ∃ s, Trace.run step init session = some s ∧ s.shutdownWrites = 1 ∧
      s.accepted = hello ++ ([65, 66] ++ bye) := by
  have hls : Trace.Along step Steady init session := by decide +kernel
  obtain ⟨s, hs⟩ := Option.isSome_iff_exists.mp
    (show (Trace.run step init session).isSome = true by decide +kernel)
  have hlog : (Trace.run step init session).map (fun s ↦ (s.shutdownWrites, s.chunks)) =
      some (1, [[65, 66], exit, [67]]) := by decide +kernel
  rw [hs, Option.map_some, Option.some.injEq, Prod.mk.injEq] at hlog
  have hhalf := (echo_stream hls hs).2.2.2.1 (by rw [hlog.1]; exact Nat.one_pos)
  rw [hlog.2] at hhalf
  exact ⟨s, hs, hlog.1, hhalf.2⟩

end

end Echo

end Netlib
