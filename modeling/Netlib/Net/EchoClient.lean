import Netlib.Net.EchoServer

/-!
# The echo client and the echo server

`net/tests/EchoClient_test.cc` on one connection, and the two programs at the two ends of it.  Both
greet when the connection is up and send back whatever they read, so the two greetings go round
for good, in whatever pieces `write` and `readv` cut them.
-/

open Storage

namespace Netlib

namespace EchoClient

def word : Message := ascii "word\n"
def quitWord : Message := ascii "shutsown\n"

/-! ## 1. The client -/

/-- The next client is connected here; this one only greets. -/
def onConnection (s : Echo) (w : WriteResult) : Option Echo := s.send word w

def onMessage (s : Echo) (w : WriteResult) : Option Echo := do
  let (msg, inputBuffer) ← s.conn.inputBuffer.retrieveAllAsString
  let s : Echo := { s with conn := { s.conn with inputBuffer := inputBuffer }
                           chunks := s.chunks ++ [msg] }
  if msg = Echo.exit then (s.send Echo.bye w).map Echo.shutdown
  else if msg = quitWord then return { s with quit := true }
  else s.send msg w

def connectEstablished (s : Echo) (w : WriteResult) : Option Echo := do
  let conn ← s.conn.connectEstablished
  onConnection { s with conn := conn } w

def handleClose (s : Echo) (w : WriteResult) : Option Echo := do
  let conn ← s.conn.handleClose
  onConnection { s with conn := conn } w

def handleRead (s : Echo) (r : Readv) (w : WriteResult) : Option Echo := do
  let (conn, next) ← s.conn.handleRead r
  let s : Echo := { s with conn := conn }
  match next with
  | .messageCallBack => onMessage s w
  | .handleClose => handleClose s w
  | .handleError => return s

/-- The writes are those of any connection. -/
def step (s : Echo) : Echo.Label → Option Echo
  | .connectEstablished w => connectEstablished s w
  | .readable r w => if s.conn.chnnel.isReading then handleRead s r w else none
  | .writable w => if s.conn.chnnel.isWriting then s.handleWrite w else none
  | .hangUp w => if s.conn.chnnel.interest.isSome then handleClose s w else none

end EchoClient

/-- The two ends of a connection. -/
structure EchoPair where
  server : Echo
  client : Echo
deriving DecidableEq, Repr

namespace EchoPair

open Echo (hello Waits Drained Unbroken inputBound rel_of_some)
open EchoClient (word)

def init : EchoPair := ⟨Echo.init, Echo.init⟩

/-- The bytes that have been written and not been read, on the way to each end. -/
def toServer (p : EchoPair) : List UInt8 := p.client.accepted.drop p.server.chunks.flatten.length

def toClient (p : EchoPair) : List UInt8 := p.server.accepted.drop p.client.chunks.flatten.length

/-- A read brings the next bytes that are on the way; neither end closes, so none is empty. -/
def Carries (inFlight : List UInt8) : Echo.Label → Prop
  | .readable (.bytes data) _ => data ≠ [] ∧ data <+: inFlight
  | _ => True

instance (inFlight : List UInt8) : (l : Echo.Label) → Decidable (Carries inFlight l)
  | .readable (.bytes _) _ => inferInstanceAs (Decidable (_ ∧ _))
  | .readable (.error _) _ => .isTrue trivial
  | .connectEstablished _ | .writable _ | .hangUp _ => .isTrue trivial

inductive Label where
  | server (l : Echo.Label)
  | client (l : Echo.Label)
deriving DecidableEq, Repr

def step (p : EchoPair) : Label → Option EchoPair
  | .server l =>
    if Carries p.toServer l then (p.server.step l).map fun server ↦ { p with server := server }
    else none
  | .client l =>
    if Carries p.toClient l then
      (EchoClient.step p.client l).map fun client ↦ { p with client := client }
    else none

/-- No `write` finds the connection broken. -/
def UnbrokenAt : Echo.Label → Prop
  | .connectEstablished w | .readable _ w => Unbroken w
  | .writable _ | .hangUp _ => True

instance : (l : Echo.Label) → Decidable (UnbrokenAt l)
  | .connectEstablished w => inferInstanceAs (Decidable (Unbroken w))
  | .readable _ w => inferInstanceAs (Decidable (Unbroken w))
  | .writable _ | .hangUp _ => .isTrue trivial

def Steady (_ : EchoPair) : Label → Prop
  | .server l | .client l => UnbrokenAt l

instance (p : EchoPair) : (l : Label) → Decidable (p.Steady l)
  | .server l | .client l => inferInstanceAs (Decidable (UnbrokenAt l))

/-- One end, as long as nothing but the greetings comes its way: what it has written and will write
is its greeting and all that it has read; the vector of its output is still the first one. -/
structure Talks (greeting : Message) (s : Echo) : Prop where
  wf : s.conn.Wf
  drained : Drained s.conn.inputBuffer
  room : s.conn.outputBuffer.buffer.length = 1032
  unborn : s.conn.state = .cConnecting → s = Echo.init
  born : s.conn.state = .cConnecting ∨ s.conn.state = .cConnected
  stream : s.conn.state = .cConnected →
    s.accepted ++ s.conn.outputBuffer.content = greeting ++ s.chunks.flatten
  waits : Waits s.conn.queues
  quiet : s.quit = false ∧ s.shutdownWrites = 0

/-! ## 2. The vector of the output -/

section

variable {b : Buffer} {c d : BufferedConnection} {s t : Echo} {message greeting : Message}
  {w : WriteResult} {n : Nat}

theorem storageAfter_of_room (h : b.Wf) (hroom : b.buffer.length = 1032)
    (hfit : b.content.length + n ≤ 1024) : b.storageAfter n = 1032 := by
  have hlen := h.content_length
  obtain ⟨xs, r, k, rfl, hrw, hw, h8, hs⟩ := h.offsets
  have hcap : cCheapPrepend = 8 := rfl
  simp only at hroom
  rw [Buffer.readAbleBytes_mk hrw (by omega)] at hlen
  unfold Buffer.storageAfter
  rw [Buffer.writeAbleBytes_mk hw hs, Buffer.prependAbleBytes_mk (by omega)]
  simp only [Int.toNat_natCast]
  split_ifs <;> omega

theorem append_room {T : Type} {rest : Message} {q : List (LoopFunctor T)}
    (h : c.outputBuffer.Wf) (hroom : c.outputBuffer.buffer.length = 1032)
    (hfit : c.outputBuffer.content.length + rest.length ≤ 1024)
    (ha : c.append rest = some (d, q)) : d.outputBuffer.buffer.length = 1032 := by
  have hsize := storageAfter_of_room h hroom hfit
  obtain ⟨b, hb, -, -, hlen⟩ := h.append_spec rest (by rw [hsize]; decide)
  unfold BufferedConnection.append at ha
  by_cases hpos : 0 < rest.length
  · rw [if_pos hpos, hb, Option.bind_eq_bind, Option.bind_some] at ha
    by_cases hwr : c.chnnel.isWriting = true
    · rw [if_pos hwr] at ha
      cases ha
      exact hlen.trans hsize
    · rw [if_neg hwr] at ha
      cases ha
      exact hlen.trans hsize
  · rw [if_neg hpos] at ha
    cases ha
    exact hroom

theorem sendInLoop_room {T : Type} {o : BufferedConnection.Outcome T}
    (h : c.outputBuffer.Wf) (hroom : c.outputBuffer.buffer.length = 1032)
    (hfit : c.outputBuffer.content.length + message.length ≤ 1024)
    (hs : c.sendInLoop message w = some o) : o.conn.outputBuffer.buffer.length = 1032 := by
  have hall {front : List UInt8}
      (hq : (c.append message >>= fun x ↦
        some (⟨x.1, front, x.2⟩ : BufferedConnection.Outcome T)) = some o) :
      o.conn.outputBuffer.buffer.length = 1032 := by
    obtain ⟨⟨d, q⟩, hd, ho⟩ := Option.bind_eq_some_iff.mp hq
    cases ho
    exact append_room h hroom hfit hd
  unfold BufferedConnection.sendInLoop at hs
  by_cases hstate : c.state = .cDisconnected
  · rw [if_pos hstate] at hs
    cases hs
    exact hroom
  rw [if_neg hstate] at hs
  by_cases hfast : (!c.chnnel.isWriting) = true ∧ c.outputBuffer.readAbleBytes = 0
  · rw [if_pos hfast] at hs
    cases w with
    | wrote n =>
      obtain ⟨-, -, hs⟩ := Option.bind_eq_some_iff.mp hs
      obtain ⟨⟨d, q⟩, hd, ho⟩ := Option.bind_eq_some_iff.mp hs
      cases ho
      have hle : (message.drop n).length ≤ message.length := by
        rw [List.length_drop]
        omega
      exact append_room h hroom (by omega) hd
    | failed errno =>
      cases errno with
      | pipe =>
        cases hs
        exact hroom
      | connReset =>
        cases hs
        exact hroom
      | again => exact hall hs
      | other => exact hall hs
  · rw [if_neg hfast] at hs
    exact hall hs

theorem retrieve_length {b' : Buffer} (h : b.retrieve n = some b') :
    b'.buffer.length = b.buffer.length := by
  unfold Buffer.retrieve at h
  obtain ⟨-, -, h⟩ := Option.bind_eq_some_iff.mp h
  split at h
  · cases h
    rfl
  · cases h
    rfl

theorem handleWrite_room {T : Type} {o : BufferedConnection.Outcome T} {drained : Bool}
    (hs : c.handleWrite w = some (o, drained)) :
    o.conn.outputBuffer.buffer.length = c.outputBuffer.buffer.length := by
  unfold BufferedConnection.handleWrite at hs
  split at hs
  · obtain ⟨bytes, -, hs⟩ := Option.bind_eq_some_iff.mp hs
    split at hs
    · split at hs
      · obtain ⟨b, hb, hs⟩ := Option.bind_eq_some_iff.mp hs
        have hlen := retrieve_length hb
        dsimp only at hs
        split at hs
        · cases hs
          exact hlen
        · cases hs
          exact hlen
      · cases hs
        rfl
    · cases hs
      rfl
  · cases hs
    rfl

end

/-! ## 3. One end -/

section

variable {s t : Echo} {greeting data message inFlight : Message} {w : WriteResult}

/-- What an event does to the two streams of an end: `data` is read and some more is written. -/
structure Moved (s t : Echo) (data : List UInt8) : Prop where
  accepted : s.accepted <+: t.accepted
  chunks : t.chunks.flatten = s.chunks.flatten ++ data

theorem Moved.refl (s : Echo) : Moved s s [] := ⟨List.prefix_rfl, (List.append_nil _).symm⟩

/-- The message that makes up for what was read joins the stream. -/
theorem send_talks (hwf : s.conn.Wf) (hd : Drained s.conn.inputBuffer)
    (hroom : s.conn.outputBuffer.buffer.length = 1032) (hup : s.conn.state = .cConnected)
    (hwaits : Waits s.conn.queues) (hquiet : s.quit = false ∧ s.shutdownWrites = 0)
    (howed : s.accepted ++ s.conn.outputBuffer.content ++ message = greeting ++ s.chunks.flatten)
    (hfit : s.conn.outputBuffer.content.length + message.length ≤ 1024) (hw : Unbroken w)
    (hsend : s.send message w = some t) : Talks greeting t ∧ Moved s t [] := by
  have hstorage : s.conn.outputBuffer.storageAfter message.length < 2 ^ 31 := by
    rw [storageAfter_of_room hwf.output hroom hfit]
    decide
  obtain ⟨hsame, htwf, htwaits, hbytes⟩ :=
    Echo.send_spec hwf hwaits (fun _ ↦ hstorage) hw hsend
  obtain ⟨o, ho, heq⟩ := Option.bind_eq_some_iff.mp hsend
  cases heq
  unfold BufferedConnection.send at ho
  rw [if_pos hup] at ho
  have hstate := hsame.state.trans hup
  refine ⟨⟨htwf, ?_, sendInLoop_room hwf.output hroom hfit ho, fun hc ↦ ?_, .inr hstate,
    fun _ ↦ ?_, htwaits, hquiet⟩, List.prefix_append _ _, (List.append_nil _).symm⟩
  · rw [hsame.input]
    exact hd
  · rw [hstate] at hc
    cases hc
  · rw [hbytes, if_pos hup]
    exact howed

theorem greet_talks (h : Talks greeting s) (hfit : greeting.length ≤ 1024) (hw : Unbroken w)
    (hstep : (s.conn.connectEstablished >>= fun conn ↦
      ({ s with conn := conn } : Echo).send greeting w) = some t) :
    Talks greeting t ∧ Moved s t [] := by
  unfold BufferedConnection.connectEstablished at hstep
  by_cases hstate : s.conn.state = .cConnecting
  · have hinit := h.unborn hstate
    subst hinit
    rw [assert_of hstate] at hstep
    simp only [Option.bind_eq_bind, Option.bind_some] at hstep
    have hempty : Echo.init.conn.outputBuffer.content = [] := Buffer.fresh_content
    have howed : [] ++ Echo.init.conn.outputBuffer.content ++ greeting = greeting ++ [] := by
      rw [hempty]
      simp
    have hroom : Echo.init.conn.outputBuffer.content.length + greeting.length ≤ 1024 := by
      rw [hempty, List.length_nil]
      omega
    obtain ⟨htalks, hmoved⟩ := send_talks (s := { Echo.init with conn := { Echo.init.conn with
        state := .cConnected, chnnel := Echo.init.conn.chnnel.enableReading } })
      ⟨h.wf.input, h.wf.output⟩ h.drained h.room rfl (fun hne ↦ (hne hempty).elim) h.quiet
      howed hroom hw hstep
    exact ⟨htalks, hmoved.accepted, hmoved.chunks⟩
  · rw [assert, if_neg hstate] at hstep
    cases hstep

/-- The buffer behind a read that is not the end of the stream. -/
theorem Talks.handleRead_bytes (h : Talks greeting s) (hne : data ≠ [])
    (hfit : data.length ≤ 65536) :
    ∃ b, b.Wf ∧ b.content = data ∧ b.buffer.length ≤ inputBound ∧
      s.conn.handleRead (.bytes data) =
        some ({ s.conn with inputBuffer := b }, .messageCallBack) := by
  have hd : s.conn.inputBuffer.Delivers data := by
    have hextra : Buffer.extrabufSize = 65536 := rfl
    unfold Buffer.Delivers Buffer.iovecs
    split_ifs <;> simp only [List.sum_cons, List.sum_nil] <;> omega
  have hsize := h.drained.storageRead_le h.wf.input hd
  have hbound : inputBound < 2 ^ 31 := by decide
  obtain ⟨b, hb, hcontent, hlen, hr⟩ := BufferedConnection.handleRead_spec h.wf hd (by omega)
  rw [h.drained.content, List.nil_append] at hcontent
  rw [if_neg hne] at hr
  exact ⟨b, hb, hcontent, hlen ▸ hsize, hr⟩

/-- What was read is sent back. -/
theorem echo_talks {b : Buffer} (h : Talks greeting s) (hup : s.conn.state = .cConnected)
    (hb : b.Wf) (hsize : b.buffer.length ≤ inputBound)
    (hfit : s.conn.outputBuffer.content.length + b.content.length ≤ 1024) (hw : Unbroken w)
    (hsend : (Echo.took { s with conn := { s.conn with inputBuffer := b } }).send b.content w =
      some t) : Talks greeting t ∧ Moved s t b.content := by
  have hflat : (s.chunks ++ [b.content]).flatten = s.chunks.flatten ++ b.content := by simp
  obtain ⟨htalks, hmoved⟩ := send_talks
    (s := Echo.took { s with conn := { s.conn with inputBuffer := b } })
    (Echo.took_wf ⟨hb, h.wf.output⟩) ⟨rfl, rfl, hsize⟩ h.room hup h.waits h.quiet
    (by
      show s.accepted ++ s.conn.outputBuffer.content ++ b.content =
        greeting ++ (s.chunks ++ [b.content]).flatten
      rw [h.stream hup, hflat, List.append_assoc]) hfit hw hsend
  refine ⟨htalks, hmoved.accepted, ?_⟩
  rw [hmoved.chunks, List.append_nil]
  exact hflat

theorem write_talks (h : Talks greeting s) (hup : s.conn.state = .cConnected)
    (hstep : s.handleWrite w = some t) : Talks greeting t ∧ Moved s t [] := by
  unfold Echo.handleWrite at hstep
  obtain ⟨⟨o, drained⟩, ho, hstep⟩ := Option.bind_eq_some_iff.mp hstep
  have hroom := handleWrite_room ho
  obtain ⟨hwf, hinput, hstate, hwaits, hbytes, -⟩ := Echo.written_spec h.wf h.waits ho
  have hconnected := hstate.trans hup
  -- neither end is shut down
  simp only [hconnected, reduceCtorEq, false_and, and_false, if_false] at hstep
  cases hstep
  refine ⟨⟨hwf, ?_, hroom.trans h.room, fun hc ↦ ?_, .inr hconnected, fun _ ↦ ?_, hwaits,
    h.quiet⟩, List.prefix_append _ _, (List.append_nil _).symm⟩
  · rw [hinput]
    exact h.drained
  · rw [hconnected] at hc
    cases hc
  · show s.accepted ++ o.accepted ++ o.conn.outputBuffer.content = _
    rw [List.append_assoc, hbytes]
    exact h.stream hup

/-- An event is handled on a connection that is up. -/
theorem Talks.up (h : Talks greeting s)
    (hasks : s.conn.chnnel.isReading = true ∨ s.conn.chnnel.isWriting = true) :
    s.conn.state = .cConnected := by
  refine h.born.resolve_left fun hc ↦ ?_
  rw [h.unborn hc] at hasks
  exact hasks.elim (fun hr ↦ by cases hr) fun hw ↦ by cases hw

/-- Neither end is shut down, so `handleClose` asserts in vain, and such a run ends there. -/
theorem Talks.handleClose_none (h : Talks greeting s) : s.conn.handleClose = none := by
  unfold BufferedConnection.handleClose
  refine Option.bind_eq_none_iff.mpr fun _ hassert ↦ ?_
  unfold assert at hassert
  split at hassert
  · rename_i hdown
    rcases h.born with hc | hc <;> simp [hc] at hdown
  · cases hassert

/-- A plain message is neither of the words that stop an end. -/
theorem plain_ne {data stop : Message} {c : UInt8} (hplain : ∀ c ∈ data, c ∈ hello ++ word)
    (hc : c ∈ stop) (hout : c ∉ hello ++ word) : data ≠ stop := by
  rintro rfl
  exact hout (hplain c hc)

theorem server_onMessage (h : s.conn.Wf)
    (hplain : ∀ c ∈ s.conn.inputBuffer.content, c ∈ hello ++ word) :
    s.onMessage w = s.took.send s.conn.inputBuffer.content w := by
  have hexit : s.conn.inputBuffer.content ≠ Echo.exit :=
    plain_ne (c := 120) hplain (by decide) (by decide)
  have hquit : s.conn.inputBuffer.content ≠ Echo.quitWord :=
    plain_ne (c := 113) hplain (by decide) (by decide)
  rw [Echo.onMessage_of_ne h hexit, decide_eq_false hquit, Bool.or_false]
  rfl

theorem client_onMessage (h : s.conn.Wf)
    (hplain : ∀ c ∈ s.conn.inputBuffer.content, c ∈ hello ++ word) :
    EchoClient.onMessage s w = s.took.send s.conn.inputBuffer.content w := by
  have hexit : s.conn.inputBuffer.content ≠ Echo.exit :=
    plain_ne (c := 120) hplain (by decide) (by decide)
  have hquit : s.conn.inputBuffer.content ≠ EchoClient.quitWord :=
    plain_ne (c := 115) hplain (by decide) (by decide)
  unfold EchoClient.onMessage
  rw [Echo.retrieveAllAsString_eq h.input]
  simp only [Option.bind_eq_bind, Option.bind_some, if_neg hexit, if_neg hquit]
  rfl

/-- What an end may read: plain letters, and no more of them than fit. -/
structure Calm (s : Echo) (inFlight : List UInt8) : Prop where
  plain : ∀ c ∈ inFlight, c ∈ hello ++ word
  fits : s.conn.outputBuffer.content.length + inFlight.length ≤ 11

/-- A read on an end fails, or it brings the next plain bytes, and it is for `onMessage` to send
them back. -/
theorem read_talks {r : Readv} (h : Talks greeting s) (hup : s.conn.state = .cConnected)
    (hcalm : Calm s inFlight) (hcarries : Carries inFlight (.readable r w)) (hw : Unbroken w) :
    s.conn.handleRead r = some (s.conn, .handleError) ∨
    ∃ b, s.conn.handleRead r = some ({ s.conn with inputBuffer := b }, .messageCallBack) ∧
      BufferedConnection.Wf { s.conn with inputBuffer := b } ∧
      (∀ c ∈ b.content, c ∈ hello ++ word) ∧
      ∀ t, (Echo.took { s with conn := { s.conn with inputBuffer := b } }).send b.content w =
        some t → Talks greeting t ∧ ∃ data, Moved s t data ∧ data <+: inFlight := by
  cases r with
  | error errno => exact .inl (BufferedConnection.handleRead_error s.conn errno)
  | bytes data =>
    obtain ⟨hne, hpre⟩ := hcarries
    have hle := hpre.length_le
    have hfits := hcalm.fits
    obtain ⟨b, hb, hcontent, hsize, hr⟩ := h.handleRead_bytes hne (by omega)
    subst hcontent
    refine .inr ⟨b, hr, ⟨hb, h.wf.output⟩, fun c hc ↦ hcalm.plain c (hpre.subset hc),
      fun t hsend ↦ ?_⟩
    obtain ⟨htalks, hmoved⟩ := echo_talks h hup hb hsize (by omega) hw hsend
    exact ⟨htalks, _, hmoved, hpre⟩

theorem server_read {r : Readv} (h : Talks hello s) (hup : s.conn.state = .cConnected)
    (hcalm : Calm s inFlight) (hcarries : Carries inFlight (.readable r w)) (hw : Unbroken w)
    (hstep : s.handleRead r w = some t) :
    Talks hello t ∧ ∃ data, Moved s t data ∧ data <+: inFlight := by
  unfold Echo.handleRead at hstep
  rcases read_talks h hup hcalm hcarries hw with hr | ⟨b, hr, hwf, hplain, hback⟩
  · rw [hr] at hstep
    cases hstep
    exact ⟨h, [], .refl s, List.nil_prefix⟩
  · rw [hr, Option.bind_eq_bind, Option.bind_some] at hstep
    exact hback t ((server_onMessage hwf hplain).symm.trans hstep)

theorem client_read {r : Readv} (h : Talks word s) (hup : s.conn.state = .cConnected)
    (hcalm : Calm s inFlight) (hcarries : Carries inFlight (.readable r w)) (hw : Unbroken w)
    (hstep : EchoClient.handleRead s r w = some t) :
    Talks word t ∧ ∃ data, Moved s t data ∧ data <+: inFlight := by
  unfold EchoClient.handleRead at hstep
  rcases read_talks h hup hcalm hcarries hw with hr | ⟨b, hr, hwf, hplain, hback⟩
  · rw [hr] at hstep
    cases hstep
    exact ⟨h, [], .refl s, List.nil_prefix⟩
  · rw [hr, Option.bind_eq_bind, Option.bind_some] at hstep
    exact hback t ((client_onMessage hwf hplain).symm.trans hstep)

theorem server_step {l : Echo.Label} (h : Talks hello s) (hcalm : Calm s inFlight)
    (hcarries : Carries inFlight l) (hw : UnbrokenAt l) (hstep : s.step l = some t) :
    Talks hello t ∧ ∃ data, Moved s t data ∧ data <+: inFlight := by
  cases l with
  | connectEstablished w =>
    obtain ⟨htalks, hmoved⟩ := greet_talks h (by decide) hw hstep
    exact ⟨htalks, [], hmoved, List.nil_prefix⟩
  | readable r w =>
    simp only [Echo.step, Option.ite_none_right_eq_some] at hstep
    obtain ⟨hread, hstep⟩ := hstep
    exact server_read h (h.up (.inl hread)) hcalm hcarries hw hstep
  | writable w =>
    simp only [Echo.step, Option.ite_none_right_eq_some] at hstep
    obtain ⟨hwriting, hstep⟩ := hstep
    obtain ⟨htalks, hmoved⟩ := write_talks h (h.up (.inr hwriting)) hstep
    exact ⟨htalks, [], hmoved, List.nil_prefix⟩
  | hangUp w =>
    simp only [Echo.step, Option.ite_none_right_eq_some] at hstep
    have hnone := h.handleClose_none
    unfold Echo.handleClose at hstep
    rw [hnone] at hstep
    cases hstep.2

theorem client_step {l : Echo.Label} (h : Talks word s) (hcalm : Calm s inFlight)
    (hcarries : Carries inFlight l) (hw : UnbrokenAt l) (hstep : EchoClient.step s l = some t) :
    Talks word t ∧ ∃ data, Moved s t data ∧ data <+: inFlight := by
  cases l with
  | connectEstablished w =>
    obtain ⟨htalks, hmoved⟩ := greet_talks h (by decide) hw hstep
    exact ⟨htalks, [], hmoved, List.nil_prefix⟩
  | readable r w =>
    simp only [EchoClient.step, Option.ite_none_right_eq_some] at hstep
    obtain ⟨hread, hstep⟩ := hstep
    exact client_read h (h.up (.inl hread)) hcalm hcarries hw hstep
  | writable w =>
    simp only [EchoClient.step, Option.ite_none_right_eq_some] at hstep
    obtain ⟨hwriting, hstep⟩ := hstep
    obtain ⟨htalks, hmoved⟩ := write_talks h (h.up (.inr hwriting)) hstep
    exact ⟨htalks, [], hmoved, List.nil_prefix⟩
  | hangUp w =>
    simp only [EchoClient.step, Option.ite_none_right_eq_some] at hstep
    have hnone := h.handleClose_none
    unfold EchoClient.handleClose at hstep
    rw [hnone] at hstep
    cases hstep.2

end

/-! ## 4. Both ends -/

section

variable {s t u : Echo} {greeting reply : Message} {p q : EchoPair}

/-- What an end has written never gets ahead of its greeting and what it has read. -/
theorem Talks.accepted_prefix (h : Talks greeting s) :
    s.accepted <+: greeting ++ s.chunks.flatten := by
  rcases h.born with hc | hc
  · rw [h.unborn hc]
    exact List.nil_prefix
  · exact ⟨_, h.stream hc⟩

/-- Each end has read a prefix of what the other has written. -/
structure Facing (greeting reply : Message) (s t : Echo) : Prop where
  near : Talks greeting s
  far : Talks reply t
  heardNear : s.chunks.flatten <+: t.accepted
  heardFar : t.chunks.flatten <+: s.accepted

theorem Facing.symm (h : Facing greeting reply s t) : Facing reply greeting t s :=
  ⟨h.far, h.near, h.heardFar, h.heardNear⟩

/-- What goes out comes back behind the two greetings. -/
theorem Facing.accepted_prefix (h : Facing greeting reply s t) :
    s.accepted <+: (greeting ++ reply) ++ s.accepted := by
  have hfar : s.chunks.flatten <+: reply ++ t.chunks.flatten :=
    h.heardNear.trans h.far.accepted_prefix
  rw [List.append_assoc]
  refine h.near.accepted_prefix.trans ((List.prefix_append_right_inj _).mpr ?_)
  exact hfar.trans ((List.prefix_append_right_inj _).mpr h.heardFar)

/-- The induction is on the length: every round takes one copy off the front. -/
theorem prefix_replicate {α : Type} {cycle : List α} (hne : cycle ≠ []) :
    ∀ {xs : List α}, xs <+: cycle ++ xs → ∃ n, xs <+: (List.replicate n cycle).flatten := by
  intro xs
  induction hlen : xs.length using Nat.strong_induction_on generalizing xs with
  | _ m ih =>
    intro h
    rcases List.prefix_or_prefix_of_prefix h (List.prefix_append cycle xs) with hle | ⟨ys, hys⟩
    · refine ⟨1, ?_⟩
      simpa using hle
    · subst hys
      have hpos : 0 < cycle.length := List.length_pos_iff.mpr hne
      have hshort : ys.length < m := by
        rw [← hlen, List.length_append]
        omega
      obtain ⟨n, hn⟩ := ih ys.length hshort rfl ((List.prefix_append_right_inj _).mp h)
      refine ⟨n + 1, ?_⟩
      rw [List.replicate_succ, List.flatten_cons]
      exact (List.prefix_append_right_inj _).mpr hn

theorem Facing.rounds (h : Facing greeting reply s t) (hne : greeting ++ reply ≠ []) :
    ∃ n, s.accepted <+: (List.replicate n (greeting ++ reply)).flatten :=
  prefix_replicate hne h.accepted_prefix

/-- The bytes on the way, waiting and read add up. -/
theorem Facing.length_le (h : Facing greeting reply s t) :
    s.conn.outputBuffer.content.length + (s.accepted.length - t.chunks.flatten.length) +
      (t.conn.outputBuffer.content.length + (t.accepted.length - s.chunks.flatten.length)) ≤
      greeting.length + reply.length := by
  have hnear := h.heardNear.length_le
  have hfar := h.heardFar.length_le
  have hout {g : Message} {e : Echo} (he : Talks g e) :
      e.accepted.length + e.conn.outputBuffer.content.length ≤
        g.length + e.chunks.flatten.length := by
    rcases he.born with hc | hc
    · rw [he.unborn hc]
      have hempty : Echo.init.conn.outputBuffer.content = [] := Buffer.fresh_content
      rw [hempty]
      exact Nat.zero_le _
    · rw [← List.length_append, he.stream hc, List.length_append]
  have hs := hout h.near
  have ht := hout h.far
  omega

/-- An end may read whatever the other has on the way. -/
theorem Facing.calm (h : Facing greeting reply s t)
    (hletters : ∀ c ∈ reply ++ greeting, c ∈ hello ++ word)
    (hsum : greeting.length + reply.length = 11) :
    Calm s (t.accepted.drop s.chunks.flatten.length) := by
  refine ⟨fun c hc ↦ hletters c ?_, ?_⟩
  · by_cases hne : reply ++ greeting = []
    · obtain ⟨hr, hg⟩ := List.append_eq_nil_iff.mp hne
      rw [hr, hg] at hsum
      cases hsum
    · obtain ⟨n, hn⟩ := h.symm.rounds hne
      obtain ⟨round, hround, hmem⟩ :=
        List.mem_flatten.mp (hn.subset (List.mem_of_mem_drop hc))
      rwa [List.eq_of_mem_replicate hround] at hmem
  · have hle := h.length_le
    rw [List.length_drop]
    omega

theorem Facing.move {data : List UInt8} (h : Facing greeting reply s t) (hu : Talks greeting u)
    (hmoved : Moved s u data) (hpre : data <+: t.accepted.drop s.chunks.flatten.length) :
    Facing greeting reply u t := by
  refine ⟨hu, h.far, ?_, h.heardFar.trans hmoved.accepted⟩
  obtain ⟨rest, hrest⟩ := h.heardNear
  rw [← hrest, List.drop_left] at hpre
  rw [hmoved.chunks, ← hrest]
  exact (List.prefix_append_right_inj _).mpr hpre

theorem step_facing {l : Label} (h : Facing hello word p.server p.client) (hl : p.Steady l)
    (hstep : p.step l = some q) : Facing hello word q.server q.client := by
  cases l with
  | server l =>
    simp only [step, Option.ite_none_right_eq_some] at hstep
    obtain ⟨hcarries, hstep⟩ := hstep
    obtain ⟨server, hserver, rfl⟩ := Option.map_eq_some_iff.mp hstep
    have hcalm := h.calm (fun c hc ↦ List.perm_append_comm.subset hc) (by decide)
    obtain ⟨htalks, data, hmoved, hpre⟩ := server_step h.near hcalm hcarries hl hserver
    exact h.move htalks hmoved hpre
  | client l =>
    simp only [step, Option.ite_none_right_eq_some] at hstep
    obtain ⟨hcarries, hstep⟩ := hstep
    obtain ⟨client, hclient, rfl⟩ := Option.map_eq_some_iff.mp hstep
    have hcalm := h.symm.calm (fun _ hc ↦ hc) (by decide)
    obtain ⟨htalks, data, hmoved, hpre⟩ := client_step h.far hcalm hcarries hl hclient
    exact (h.symm.move htalks hmoved hpre).symm

theorem init_talks : Talks greeting Echo.init := by
  refine ⟨BufferedConnection.init_wf _ _ _, ⟨rfl, rfl, by decide +kernel⟩, by decide +kernel,
    fun _ ↦ rfl, .inl rfl, fun hc ↦ (by cases hc), fun hne ↦ (hne Buffer.fresh_content).elim,
    rfl, rfl⟩

theorem init_facing : Facing hello word init.server init.client :=
  ⟨init_talks, init_talks, List.prefix_rfl, List.prefix_rfl⟩

/-- **Ping-pong.**  However `write` and `readv` cut the bytes, as long as no write finds the
connection broken: what either end has written is a prefix of the two greetings over and over, its
own first; once both are up, exactly the eleven bytes of the greetings wait or are on the way; no
input is left over, no output vector ever grows, and neither end shuts down or quits. -/
theorem greetings_go_round {ls : List Label} (hls : Trace.Along step Steady init ls)
    (hrun : Trace.run step init ls = some p) :
    (∃ n, p.server.accepted <+: (List.replicate n (hello ++ word)).flatten) ∧
    (∃ n, p.client.accepted <+: (List.replicate n (word ++ hello)).flatten) ∧
    (p.server.conn.state = .cConnected → p.client.conn.state = .cConnected →
      p.server.conn.outputBuffer.content.length + p.toClient.length +
        (p.client.conn.outputBuffer.content.length + p.toServer.length) = 11) ∧
    ∀ s ∈ [p.server, p.client], s.conn.inputBuffer.content = [] ∧
      s.conn.outputBuffer.buffer.length = 1032 ∧ s.quit = false ∧ s.shutdownWrites = 0 := by
  have h : Facing hello word p.server p.client := Trace.run_inv_along
    (I := fun p : EchoPair ↦ Facing hello word p.server p.client)
    (fun _ _ _ h hl hstep ↦ step_facing h hl hstep) init_facing hls hrun
  have hend {g : Message} {s : Echo} (hs : Talks g s) : s.conn.inputBuffer.content = [] ∧
      s.conn.outputBuffer.buffer.length = 1032 ∧ s.quit = false ∧ s.shutdownWrites = 0 :=
    ⟨hs.drained.content, hs.room, hs.quiet⟩
  refine ⟨h.rounds (by decide), h.symm.rounds (by decide), fun hserver hclient ↦ ?_, ?_⟩
  · have hnear := h.heardNear.length_le
    have hfar := h.heardFar.length_le
    have hs := congrArg List.length (h.near.stream hserver)
    have ht := congrArg List.length (h.far.stream hclient)
    have hhello : hello.length = 6 := by decide
    have hword : word.length = 5 := by decide
    simp only [List.length_append] at hs ht
    unfold toClient toServer
    rw [List.length_drop, List.length_drop]
    omega
  · simp only [List.mem_cons, List.not_mem_nil, or_false]
    rintro s (rfl | rfl)
    · exact hend h.near
    · exact hend h.far

/-- The client is slow to take its own greeting, and the server reads it in two pieces. -/
def rally : List Label :=
  [.server (.connectEstablished (.wrote 6)), .client (.connectEstablished (.wrote 2)),
    .server (.readable (.bytes (ascii "wo")) (.wrote 2)), .client (.writable (.wrote 3)),
    .client (.readable (.bytes hello) (.wrote 4)),
    .server (.readable (.bytes (ascii "rd\nHe")) (.failed .again)), .server (.writable (.wrote 5))]

theorem greetings_go_round_rally :
    ∃ p, Trace.run step init rally = some p ∧
      p.server.accepted = hello ++ word ++ ascii "He" ∧
      p.server.conn.outputBuffer.content.length + p.toClient.length +
        (p.client.conn.outputBuffer.content.length + p.toServer.length) = 11 := by
  have hls : Trace.Along step Steady init rally := by decide +kernel
  obtain ⟨p, hp⟩ := Option.isSome_iff_exists.mp
    (show (Trace.run step init rally).isSome = true by decide +kernel)
  have hlog : (Trace.run step init rally).map (fun p ↦
      (p.server.accepted, p.server.conn.state, p.client.conn.state)) =
      some (hello ++ word ++ ascii "He", .cConnected, .cConnected) := by decide +kernel
  rw [hp, Option.map_some, Option.some.injEq, Prod.mk.injEq, Prod.mk.injEq] at hlog
  obtain ⟨haccepted, hserver, hclient⟩ := hlog
  exact ⟨p, hp, haccepted, (greetings_go_round hls hp).2.2.1 hserver hclient⟩

end

end EchoPair

end Netlib
