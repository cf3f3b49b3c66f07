import Netlib.Net.TcpOrderly

/-!
# The callbacks of a write

`sendInLoop` and `handleWrite` decide from what they have at hand (the bytes left over, the length of
`_outputBuffer` before, whether it is empty now) when to queue the write-complete and the high-water
callback.  Over a run these mean totals: the bytes of the messages sent, and those the kernel took.
-/

namespace Netlib

namespace WriteResult

def Ok : WriteResult → Prop
  | .wrote _ => True
  | .failed _ => False

instance : (w : WriteResult) → Decidable w.Ok
  | .wrote _ => .isTrue trivial
  | .failed _ => .isFalse id

/-- The bytes that the kernel took. -/
def taken : WriteResult → Nat
  | .wrote n => n
  | .failed _ => 0

end WriteResult

namespace LoopFunctor

variable {T : Type}

/-- The two callbacks, each under its condition. -/
def callBacks (complete high : Prop) [Decidable complete] [Decidable high] (size : Nat) :
    List (LoopFunctor T) :=
  (if complete then [.writeCompleteCallBack] else []) ++
    if high then [.hightWaterMarkCallBack size] else []

section

variable {complete high : Prop} [Decidable complete] [Decidable high] {size n : Nat}

@[simp] theorem writeComplete_mem_callBacks :
    (.writeCompleteCallBack : LoopFunctor T) ∈ callBacks complete high size ↔ complete := by
  unfold callBacks
  split <;> split <;> simp [*]

@[simp] theorem hightWaterMark_mem_callBacks :
    (.hightWaterMarkCallBack n : LoopFunctor T) ∈ callBacks complete high size ↔
      high ∧ n = size := by
  unfold callBacks
  split <;> split <;> simp [*]

theorem nodup_callBacks : (callBacks complete high size : List (LoopFunctor T)).Nodup := by
  unfold callBacks
  split <;> split <;> simp

end

end LoopFunctor

namespace TcpConnection

variable {T : Type} {c : TcpConnection} {w : WriteResult} {o : Outcome T}

instance (c : TcpConnection) : Decidable c.WritesAtOnce := inferInstanceAs (Decidable (_ ∧ _ ∧ _))

/-- The mark, and which of the two callbacks are set. -/
def settings (c : TcpConnection) : Nat × Bool × Bool :=
  (c.hightWaterMark, c.writeCompleteCallBack, c.hightWaterMarkCallBack)

@[simp] theorem append_settings (c : TcpConnection) (rest : List UInt8) :
    (c.append rest).settings = c.settings := by
  unfold append
  split
  · rfl
  · dsimp only
    split <;> rfl

@[simp] theorem startReadInLoop_settings (c : TcpConnection) :
    c.startReadInLoop.settings = c.settings := by
  unfold startReadInLoop
  split <;> rfl

@[simp] theorem stopReadInLoop_settings (c : TcpConnection) :
    c.stopReadInLoop.settings = c.settings := by
  unfold stopReadInLoop
  split <;> rfl

theorem sendInLoop_settings {message : Message} (h : c.sendInLoop message w = some o) :
    o.conn.settings = c.settings := by
  rcases sendInLoop_cases h with ⟨-, rfl⟩ | ⟨-, rfl⟩ | ⟨-, n, front, -, -, -, rfl⟩
  · rfl
  · rfl
  · exact append_settings c _

theorem handleWrite_settings {drained : Bool} (h : c.handleWrite w = some (o, drained)) :
    o.conn.settings = c.settings := by
  rcases handleWrite_cases h with ⟨rfl, -⟩ | ⟨n, -, -, -, -, rfl⟩ | ⟨-, -, -, queue, -, rfl⟩ <;> rfl

/-! ## 1. What one write queues -/

/-- The mark is crossed by what is kept, and then something is kept. -/
theorem hightWater_eq (hset : c.hightWaterMarkCallBack = true) (rest : List UInt8) :
    (c.hightWater rest : List (LoopFunctor T)) =
      if c.outputBuffer.length < c.hightWaterMark ∧
          c.hightWaterMark ≤ (c.append rest).outputBuffer.length then
        [.hightWaterMarkCallBack (c.append rest).outputBuffer.length]
      else [] := by
  unfold hightWater
  rw [append_outputBuffer, List.length_append]
  by_cases hrest : rest = []
  · subst hrest
    rw [if_neg (by simp), if_neg (by simp)]
  · have hiff : (rest ≠ [] ∧ c.hightWaterMark ≤ c.outputBuffer.length + rest.length ∧
        c.outputBuffer.length < c.hightWaterMark ∧ c.hightWaterMarkCallBack = true) ↔
        (c.outputBuffer.length < c.hightWaterMark ∧
          c.hightWaterMark ≤ c.outputBuffer.length + rest.length) := by
      simp only [hset, ne_eq, hrest]
      tauto
    simp only [hiff]

/-- `sendInLoop` queues by the length of the buffer before and behind it. -/
theorem sendInLoop_queue_eq {mark : Nat} (hset : c.settings = (mark, true, true))
    (hstate : c.state ≠ .cDisconnected) (hw : w ≠ .failed .pipe ∧ w ≠ .failed .connReset)
    {message : Message} (h : c.sendInLoop message w = some o) :
    o.queue = LoopFunctor.callBacks (c.WritesAtOnce ∧ w.Ok ∧ o.conn.outputBuffer = [])
      (c.outputBuffer.length < mark ∧ mark ≤ o.conn.outputBuffer.length)
      o.conn.outputBuffer.length := by
  obtain ⟨rfl, hcomplete, hhigh⟩ : c.hightWaterMark = mark ∧ c.writeCompleteCallBack = true ∧
      c.hightWaterMarkCallBack = true := by simpa [settings] using hset
  -- nothing written: all of the message is kept
  have hkeep (hno : ¬ (c.WritesAtOnce ∧ w.Ok)) (ho : o = ⟨c.append message, [],
      c.hightWater message⟩) :
      o.queue = LoopFunctor.callBacks (c.WritesAtOnce ∧ w.Ok ∧ o.conn.outputBuffer = [])
        (c.outputBuffer.length < c.hightWaterMark ∧
          c.hightWaterMark ≤ o.conn.outputBuffer.length) o.conn.outputBuffer.length := by
    subst ho
    rw [LoopFunctor.callBacks, if_neg fun hc ↦ hno ⟨hc.1, hc.2.1⟩, List.nil_append]
    exact hightWater_eq hhigh message
  unfold sendInLoop at h
  rw [if_neg hstate] at h
  by_cases hfast : c.chnnel.isWriting = false ∧ c.outputBuffer = []
  · have hat : c.WritesAtOnce := ⟨hstate, hfast⟩
    rw [if_pos (by simp [hfast])] at h
    cases w with
    | wrote n =>
      simp only [Option.ite_none_right_eq_some, Option.some.injEq] at h
      obtain ⟨hn, rfl⟩ := h
      have hempty : (message.length - n = 0 ∧ c.writeCompleteCallBack = true) ↔
          (c.WritesAtOnce ∧ (WriteResult.wrote n).Ok ∧
            (c.append (message.drop n)).outputBuffer = []) := by
        simp only [hat, hcomplete, WriteResult.Ok, append_outputBuffer, hfast.2, List.nil_append,
          List.drop_eq_nil_iff, Nat.sub_eq_zero_iff_le, and_true, true_and]
      simp only [LoopFunctor.callBacks, hightWater_eq hhigh, hempty]
    | failed e =>
      have hno : ¬ (c.WritesAtOnce ∧ (WriteResult.failed e).Ok) := And.right
      cases e with
      | pipe => exact (hw.1 rfl).elim
      | connReset => exact (hw.2 rfl).elim
      | again => exact hkeep hno (Option.some.inj h).symm
      | other => exact hkeep hno (Option.some.inj h).symm
  · rw [if_neg (by simpa using hfast)] at h
    exact hkeep (fun hc ↦ hfast hc.1.2) (Option.some.inj h).symm

/-- `handleWrite` queues nothing but the write-complete callback. -/
theorem handleWrite_queue_eq {mark : Nat} (hset : c.settings = (mark, true, true)) {drained : Bool}
    (h : c.handleWrite w = some (o, drained)) :
    o.queue = LoopFunctor.callBacks
      (c.chnnel.isWriting = true ∧ 0 < w.taken ∧ o.conn.outputBuffer = []) False 0 := by
  have hcomplete : c.writeCompleteCallBack = true := by
    simp only [settings, Prod.mk.injEq] at hset
    exact hset.2.1
  rw [LoopFunctor.callBacks, if_neg id, List.append_nil]
  unfold handleWrite at h
  by_cases hwriting : c.chnnel.isWriting = true
  · rw [if_pos hwriting] at h
    cases w with
    | failed e =>
      cases h
      rw [if_neg (by simp [WriteResult.taken])]
    | wrote n =>
      simp only [Option.ite_none_right_eq_some] at h
      obtain ⟨hn, h⟩ := h
      by_cases hpos : 0 < n
      · rw [if_pos hpos] at h
        split at h
        · rename_i hempty
          cases h
          rw [if_pos ⟨hwriting, hpos, List.isEmpty_iff.mp hempty⟩]
        · rename_i hrest
          cases h
          rw [if_neg fun hc ↦ hrest (List.isEmpty_iff.mpr hc.2.2)]
      · rw [if_neg hpos] at h
        cases h
        rw [if_neg fun hc ↦ hpos hc.2.1]
  · rw [if_neg hwriting] at h
    cases h
    rw [if_neg fun hc ↦ hwriting hc.1]

end TcpConnection

namespace TcpLoop

variable {T : Type}

/-- The bytes of the messages sent. -/
def sent (s : TcpLoop T) : Nat := (s.ran.map Prod.snd).flatten.length

/-- Those that the kernel has not taken. -/
def pending (s : TcpLoop T) : Nat := s.sent - s.accepted.length

/-- What a step from `s` to `u` has queued. -/
def newly (s u : TcpLoop T) : List (LoopFunctor T) :=
  u.functors.queued.drop s.functors.queued.length

/-- The step calls `write` with success, `handleWrite` for more than nothing. -/
def WritesWell (s : TcpLoop T) : Label T → Prop
  | .call c io => s.Writes (.call c io) ∧ io.write.Ok
  | .functor io => s.Writes (.functor io) ∧ io.write.Ok
  | .task io => s.Writes (.task io) ∧ 0 < io.write.taken
  | _ => False

/-- The step runs `handleWrite`. -/
def HandlesWrite (s : TcpLoop T) (l : Label T) : Prop :=
  ∃ io, l = .task io ∧ s.agenda.head? = some .writeEvent

/-- The callbacks that the step queues are those that the totals call for, each once. -/
structure CallBacksMatch [DecidableEq T] (mark : Nat) (s : TcpLoop T) (l : Label T)
    (u : TcpLoop T) : Prop where
  complete : .writeCompleteCallBack ∈ newly s u ↔ s.WritesWell l ∧ u.accepted.length = u.sent
  hightWater : ∀ size, .hightWaterMarkCallBack size ∈ newly s u ↔
    (∃ message, s.Sends l message) ∧ s.pending < mark ∧ mark ≤ u.pending ∧ size = u.pending
  once : (newly s u).Pairwise fun f g ↦ f.IsCallBack → f ≠ g

/-! ## 2. The totals and the buffer -/

theorem newly_eq {s u : TcpLoop T} {new : List (LoopFunctor T)}
    (h : u.functors.queued = s.functors.queued ++ new) : newly s u = new := by
  rw [newly, h, List.drop_left]

theorem Streamed.sent_eq {s : TcpLoop T} (h : s.Streamed) :
    s.sent = s.accepted.length + s.conn.outputBuffer.length := by
  rw [sent, ← h.bytes, List.length_append]

theorem Streamed.pending_eq {s : TcpLoop T} (h : s.Streamed) :
    s.pending = s.conn.outputBuffer.length := by
  rw [pending, h.sent_eq, Nat.add_sub_cancel_left]

theorem Streamed.accepted_eq_sent_iff {s : TcpLoop T} (h : s.Streamed) :
    s.accepted.length = s.sent ↔ s.conn.outputBuffer = [] := by
  rw [h.sent_eq, ← List.length_eq_zero_iff]
  omega

/-! ## 3. The steps that write nothing -/

/-- Such a step leaves the settings alone and queues none of the two callbacks. -/
structure Plain (s u : TcpLoop T) : Prop where
  settings : u.conn.settings = s.conn.settings := by exact rfl
  queued : ∃ new, u.functors.queued = s.functors.queued ++ new ∧ ∀ f ∈ new, ¬ f.IsCallBack := by
    exact ⟨[], (List.append_nil _).symm, fun _ hf ↦ absurd hf List.not_mem_nil⟩

section Plain

variable {s u : TcpLoop T} {l : Label T} {io : Io}

theorem plain_push {f : LoopFunctor T} (hf : ¬ f.IsCallBack) :
    ∃ new, s.functors.queued ++ [f] = s.functors.queued ++ new ∧ ∀ f ∈ new, ¬ f.IsCallBack :=
  ⟨[f], rfl, by simpa using hf⟩

theorem shutdownInLoop_plain (h : s.Plain u) : s.Plain u.shutdownInLoop := by
  obtain ⟨hs, heq, -⟩ := shutdownInLoop_eq u
  rw [heq]
  exact ⟨h.settings, h.queued⟩

theorem close_plain (s : TcpLoop T) (c : Closing) : s.Plain (s.close c) := by
  unfold close
  split
  · cases c with
    | shutdown => exact shutdownInLoop_plain {}
    | forceClose | forceCloseWithDelay => exact {}
  · exact {}

theorem call_plain {c : Call} (hno : ∀ message, ¬ s.Sends (.call c io) message)
    (h : s.call io c = some u) : s.Plain u := by
  cases c with
  | send message =>
    rw [call, if_neg fun hs ↦ hno message (.call hs)] at h
    cases h
    exact {}
  | close c =>
    cases h
    exact close_plain s c
  | startRead =>
    cases h
    exact { settings := TcpConnection.startReadInLoop_settings _ }
  | stopRead =>
    cases h
    exact { settings := TcpConnection.stopReadInLoop_settings _ }

theorem task_plain {a : Task} {rest : List Task} (hno : a ≠ .writeEvent)
    (h : { s with agenda := rest }.runTask io a = some u) : s.Plain u := by
  cases a with
  | user => cases h
  | writeEvent => exact (hno rfl).elim
  | readEvent =>
    simp only [runTask] at h
    split at h <;> cases h <;> exact {}
  | drained =>
    cases h
    split
    · exact shutdownInLoop_plain {}
    · exact {}
  | queueForceClose =>
    cases h
    exact { queued := plain_push id }
  | closeEvent | closeCallBack | destroyConnected | remove =>
    cases h
    exact {}

theorem functor_plain {f : LoopFunctor T} {q : Batch.Queue (LoopFunctor T)}
    (hq : q.queued = s.functors.queued) (hno : ∀ t message, f ≠ .sendInLoop t message)
    (h : { s with functors := q }.runFunctor io f = some u) : s.Plain u := by
  have hsame : ∃ new, q.queued = s.functors.queued ++ new ∧ ∀ f ∈ new, ¬ f.IsCallBack :=
    ⟨[], by simpa using hq, by simp⟩
  cases f with
  | sendInLoop sender message => exact (hno sender message rfl).elim
  | shutdownInLoop =>
    cases h
    exact shutdownInLoop_plain { queued := hsame }
  | forceCloseInLoop =>
    cases h
    split <;> exact { queued := hsame }
  | startReadInLoop =>
    cases h
    exact { settings := TcpConnection.startReadInLoop_settings _, queued := hsame }
  | stopReadInLoop =>
    cases h
    exact { settings := TcpConnection.stopReadInLoop_settings _, queued := hsame }
  | conncetDestoryed | addTimer | writeCompleteCallBack | hightWaterMarkCallBack | user =>
    cases h
    exact { queued := hsame }

theorem plain_of_step [DecidableEq T] (hno : ∀ message, ¬ s.Sends l message)
    (hno' : ¬ s.HandlesWrite l) (hstep : s.step l = some u) : s.Plain u := by
  cases step_cases hstep with
  | @callFrom t c _ =>
    cases c with
    | send | close =>
      simp only [callFrom]
      split <;> exact {}
    | startRead | stopRead => exact { queued := plain_push id }
  | sending | queueUser | serverDestoryed | queueDestoryed => exact { queued := plain_push id }
  | @queueing t c => exact { queued := plain_push (by cases c <;> exact id) }
  | call _ hcall => exact call_plain hno hcall
  | task hagenda htask =>
    refine task_plain (fun ha ↦ hno' ⟨_, rfl, ?_⟩) htask
    rw [hagenda, ha]
    rfl
  | handleTimer =>
    have hclose := close_plain { s with timers := s.timers - 1 } .forceClose
    exact ⟨hclose.settings, hclose.queued⟩
  | functor _ _ hnext hrun =>
    refine functor_plain (Batch.Queue.next_queued hnext) (fun t message hf ↦ ?_) hrun
    exact hno message (.functor ⟨_, _, rfl, hf ▸ hnext⟩)
  | setting | connectEstablished | conncetDestoryed | ret | pollReturn | handleEvent | handleOther
  | dpPendingFunctors | batchEnd => exact {}

end Plain

/-! ## 4. Every step queues what the totals call for -/

section Steps

variable [DecidableEq T] {s u : TcpLoop T} {l : Label T} {mark : Nat}

/-- A step that sends is `sendInLoop`, with the result that the label carries. -/
theorem sends_step {message : Message} (hs : s.Sends l message) (hstep : s.step l = some u) :
    ∃ sender io q o, q.queued = s.functors.queued ∧
      s.conn.sendInLoop message io.write = some o ∧
      { s with functors := q }.sendInLoop sender message io = some u ∧
      u = ({ s with functors := q, ran := s.ran ++ [(sender, message)] }.settle o) ∧
      (s.WritesWell l ↔ s.conn.WritesAtOnce ∧ io.write.Ok) ∧
      (l.Unbroken → io.write ≠ .failed .pipe ∧ io.write ≠ .failed .connReset) := by
  cases hs with
  | @call _ io hstate =>
    cases step_cases hstep with
    | call _ hcall =>
      simp only [call, if_pos hstate] at hcall
      obtain ⟨o, ho, hu⟩ := sendInLoop_eq_some.mp hcall
      refine ⟨none, io, s.functors, o, rfl, ho, hcall, hu, ?_, id⟩
      simp [WritesWell, Writes, hstate]
  | functor hruns =>
    obtain ⟨io, q, rfl, hnext⟩ := hruns
    cases step_cases hstep with
    | functor _ _ hnext' hrun =>
      rw [hnext] at hnext'
      cases hnext'
      obtain ⟨o, ho, hu⟩ := sendInLoop_eq_some.mp hrun
      refine ⟨_, io, q, o, Batch.Queue.next_queued hnext, ho, hrun, hu, ?_, id⟩
      simp [WritesWell, Writes, hnext]
    | batchEnd _ _ hnone => simp [hnext] at hnone

theorem writes_step (hs : s.HandlesWrite l) (hstep : s.step l = some u) :
    ∃ io rest o drained, s.conn.handleWrite io.write = some (o, drained) ∧
      { s with agenda := rest }.handleWrite io = some u ∧
      u = ((if drained then { s with agenda := rest }.todo [.drained]
        else { s with agenda := rest }).settle o) ∧
      (s.WritesWell l ↔ s.conn.chnnel.isWriting = true ∧ 0 < io.write.taken) := by
  obtain ⟨io, rfl, hhead⟩ := hs
  cases step_cases hstep with
  | task hagenda htask =>
    rw [hagenda, List.head?_cons, Option.some.injEq] at hhead
    subst hhead
    obtain ⟨o, drained, ho, hu⟩ := handleWrite_eq_some.mp htask
    refine ⟨io, _, o, drained, ho, htask, hu, ?_⟩
    simp [WritesWell, Writes, hagenda]

/-- It is enough to know what the step has queued, by the totals. -/
theorem callBacksMatch_of_newly {complete high : Prop} [Decidable complete] [Decidable high]
    {size : Nat} (hnew : newly s u = LoopFunctor.callBacks complete high size)
    (hcomplete : complete ↔ s.WritesWell l ∧ u.accepted.length = u.sent)
    (hhigh : ∀ n, high ∧ n = size ↔
      (∃ message, s.Sends l message) ∧ s.pending < mark ∧ mark ≤ u.pending ∧ n = u.pending) :
    CallBacksMatch mark s l u where
  complete := by rw [hnew, LoopFunctor.writeComplete_mem_callBacks, hcomplete]
  hightWater := fun n ↦ by rw [hnew, LoopFunctor.hightWaterMark_mem_callBacks, hhigh]
  once := by
    rw [hnew]
    have hnodup : (LoopFunctor.callBacks complete high size : List (LoopFunctor T)).Nodup :=
      LoopFunctor.nodup_callBacks
    exact hnodup.imp fun {f g} hne (_ : f.IsCallBack) ↦ hne

theorem sends_callBacksMatch (h : s.Streamed) (hopen : s.Open l)
    (hset : s.conn.settings = (mark, true, true)) {message : Message} (hs : s.Sends l message)
    (hstep : s.step l = some u) : CallBacksMatch mark s l u := by
  obtain ⟨sender, io, q, o, hq, ho, hsend, hu, hwell, hunbroken⟩ := sends_step hs hstep
  have hio := hunbroken hopen.2
  have hq' : { s with functors := q }.Streamed := h.of_eq rfl rfl rfl rfl
  have hu' : u.Streamed := sendInLoop_streamed hq' hopen.1 hio hsend
  have hconn : u.conn = o.conn := by rw [hu]; rfl
  have hnew : newly s u = o.queue := by
    apply newly_eq
    rw [hu, ← hq]
    rfl
  -- the lengths that `sendInLoop` compares are the pending counts
  have hqueue := hnew.trans (TcpConnection.sendInLoop_queue_eq hset hopen.1 hio ho)
  refine callBacksMatch_of_newly hqueue ?_ fun n ↦ ?_
  · rw [hwell, hu'.accepted_eq_sent_iff, hconn]
    tauto
  · rw [h.pending_eq, hu'.pending_eq, hconn]
    constructor
    · rintro ⟨⟨hbelow, hreached⟩, rfl⟩
      exact ⟨⟨message, hs⟩, hbelow, hreached, rfl⟩
    · rintro ⟨-, hbelow, hreached, rfl⟩
      exact ⟨⟨hbelow, hreached⟩, rfl⟩

omit [DecidableEq T] in
theorem HandlesWrite.not_sends (hs : s.HandlesWrite l) (message : Message) :
    ¬ s.Sends l message := by
  obtain ⟨io, rfl, -⟩ := hs
  intro hsends
  cases hsends with
  | functor hruns =>
    obtain ⟨io', q, hl, -⟩ := hruns
    cases hl

theorem writes_callBacksMatch (h : s.Streamed) (hset : s.conn.settings = (mark, true, true))
    (hs : s.HandlesWrite l) (hstep : s.step l = some u) : CallBacksMatch mark s l u := by
  obtain ⟨io, rest, o, drained, ho, hwrite, hu, hwell⟩ := writes_step hs hstep
  have hrest : { s with agenda := rest }.Streamed := h.of_eq rfl rfl rfl rfl
  have hu' : u.Streamed := handleWrite_streamed hrest hwrite
  have hconn : u.conn = o.conn := by rw [hu]; rfl
  have hnew : newly s u = o.queue := by
    apply newly_eq
    rw [hu]
    cases drained <;> rfl
  have hqueue := hnew.trans (TcpConnection.handleWrite_queue_eq hset ho)
  refine callBacksMatch_of_newly hqueue ?_ fun n ↦ ?_
  · rw [hwell, hu'.accepted_eq_sent_iff, hconn]
    tauto
  · constructor
    · exact fun hfalse ↦ hfalse.1.elim
    · exact fun hsends ↦ (hs.not_sends _ hsends.1.choose_spec).elim

omit [DecidableEq T] in
theorem sends_or_handlesWrite_of_writesWell (h : s.WritesWell l) :
    (∃ message, s.Sends l message) ∨ s.HandlesWrite l := by
  cases l with
  | call c io =>
    cases c with
    | send message => exact Or.inl ⟨message, .call h.1.1⟩
    | close | startRead | stopRead => exact h.1.elim
  | functor io =>
    obtain ⟨⟨⟨t, message, q, hnext⟩, -⟩, -⟩ := h
    exact Or.inl ⟨message, .functor ⟨io, q, rfl, hnext⟩⟩
  | task io => exact Or.inr ⟨io, rfl, h.1.1⟩
  | _ => exact h.elim

theorem plain_callBacksMatch (hno : ∀ message, ¬ s.Sends l message) (hno' : ¬ s.HandlesWrite l)
    (hstep : s.step l = some u) : CallBacksMatch mark s l u := by
  obtain ⟨-, new, hqueued, hnone⟩ := plain_of_step hno hno' hstep
  have hnew : newly s u = new := newly_eq hqueued
  constructor
  · rw [hnew]
    constructor
    · exact fun hmem ↦ (hnone _ hmem trivial).elim
    · rintro ⟨hwell, -⟩
      rcases sends_or_handlesWrite_of_writesWell hwell with ⟨message, hs⟩ | hs
      · exact (hno message hs).elim
      · exact (hno' hs).elim
  · intro n
    rw [hnew]
    constructor
    · exact fun hmem ↦ (hnone _ hmem trivial).elim
    · rintro ⟨⟨message, hs⟩, -⟩
      exact (hno message hs).elim
  · rw [hnew]
    exact List.pairwise_of_forall_mem_list fun f hf g _ hcb ↦ (hnone f hf hcb).elim

theorem step_callBacksMatch (h : s.Streamed) (hopen : s.Open l)
    (hset : s.conn.settings = (mark, true, true)) (hstep : s.step l = some u) :
    CallBacksMatch mark s l u := by
  by_cases hs : ∃ message, s.Sends l message
  · obtain ⟨message, hs⟩ := hs
    exact sends_callBacksMatch h hopen hset hs hstep
  · by_cases hw : s.HandlesWrite l
    · exact writes_callBacksMatch h hset hw hstep
    · exact plain_callBacksMatch (fun message hm ↦ hs ⟨message, hm⟩) hw hstep

theorem step_settings (hstep : s.step l = some u) : u.conn.settings = s.conn.settings := by
  by_cases hs : ∃ message, s.Sends l message
  · obtain ⟨message, hs⟩ := hs
    obtain ⟨sender, io, q, o, -, ho, -, hu, -⟩ := sends_step hs hstep
    rw [hu]
    exact TcpConnection.sendInLoop_settings ho
  · by_cases hw : s.HandlesWrite l
    · obtain ⟨io, rest, o, drained, ho, -, hu, -⟩ := writes_step hw hstep
      rw [hu]
      exact TcpConnection.handleWrite_settings ho
    · exact (plain_of_step (fun message hm ↦ hs ⟨message, hm⟩) hw hstep).settings

end Steps

/-! ## 5. Runs -/

section Runs

variable [DecidableEq T] {s u : TcpLoop T} {l : Label T} {mark : Nat}

/-- A state of a run on which both callbacks are set; behind a disconnection nothing is claimed. -/
structure Counted (mark : Nat) (s : TcpLoop T) : Prop where
  settings : s.conn.settings = (mark, true, true)
  streamed : s.conn.state ≠ .cDisconnected → s.Streamed

omit [DecidableEq T] in
theorem init_counted (mark : Nat) : (init (.init mark true true) : TcpLoop T).Counted mark :=
  ⟨rfl, fun _ ↦ init_streamed mark true true⟩

theorem step_counted (h : s.Counted mark) (hopen : s.Open l) (hstep : s.step l = some u) :
    u.Counted mark where
  settings := (step_settings hstep).trans h.settings
  streamed := fun hup ↦ step_streamed (h.streamed hopen.1) hopen.1 hopen.2 hstep hup

theorem Counted.callBacksMatch (h : s.Counted mark) (hopen : s.Open l)
    (hstep : s.step l = some u) : CallBacksMatch mark s l u :=
  step_callBacksMatch (h.streamed hopen.1) hopen h.settings hstep

/-- The step queues the high-water callback. -/
def QueuesHightWater (s u : TcpLoop T) : Prop := ∃ size, .hightWaterMarkCallBack size ∈ newly s u

/-- **Back-pressure.**  As long as the connection is not disconnected, in every run with any results of
`write`: each step queues the write-complete callback exactly when it calls `write` with success and
leaves everything sent with the kernel, and the high-water callback exactly when it sends and takes
what is pending from below the mark to the mark or above it, which is what the callback reports; and
between two high-water callbacks the pending bytes were below the mark again. -/
theorem callBacks_match {ls : List (Label T)}
    (hopen : Trace.Along step Open (init (.init mark true true)) ls) :
    (∀ before l after s u, before ++ l :: after = ls →
      Trace.run step (init (.init mark true true)) before = some s → s.step l = some u →
        CallBacksMatch mark s l u) ∧
      ∀ before l mid l' after s u s' u', before ++ l :: (mid ++ l' :: after) = ls →
        Trace.run step (init (.init mark true true)) before = some s → s.step l = some u →
        Trace.run step u mid = some s' → s'.step l' = some u' →
        QueuesHightWater s u → QueuesHightWater s' u' → mark ≤ u.pending ∧ s'.pending < mark := by
  have hmatch (before l after s u) (hls : before ++ l :: after = ls)
      (hs : Trace.run step (init (.init mark true true)) before = some s)
      (hu : s.step l = some u) : CallBacksMatch mark s l u := by
    subst hls
    obtain ⟨hbefore, hafter⟩ := Trace.along_append.mp hopen
    have hcounted := Trace.run_inv_along (fun _ _ _ ↦ step_counted) (init_counted mark) hbefore hs
    exact hcounted.callBacksMatch (hafter s hs).1 hu
  refine ⟨hmatch, fun before l mid l' after s u s' u' hls hs hu hs' hu' hq hq' ↦ ?_⟩
  obtain ⟨size, hsize⟩ := hq
  obtain ⟨size', hsize'⟩ := hq'
  -- the second callback is queued by a step that finds less than the mark
  have hrun : Trace.run step (init (.init mark true true)) (before ++ l :: mid) = some s' :=
    Trace.run_append_eq_some.mpr ⟨s, hs, Trace.run_cons_eq_some.mpr ⟨u, hu, hs'⟩⟩
  have hfirst := hmatch before l (mid ++ l' :: after) s u hls hs hu
  have hsecond := hmatch (before ++ l :: mid) l' after s' u' (by simpa using hls) hrun hu'
  exact ⟨((hfirst.hightWater size).mp hsize).2.2.1, ((hsecond.hightWater size').mp hsize').2.1⟩

/-- A message that is taken in part, one that crosses the mark, and the event that writes both
out. -/
theorem callBacks_match_partial_writes :
    ∃ s u v w : TcpLoop Bool,
      Trace.run step (init (.init 3 true true)) [.pollReturn none, .handleOther,
        .connectEstablished, .call (.send [1, 2]) ⟨.wrote 1, .data⟩] = some s ∧
      s.step (.call (.send [3, 4]) ⟨.wrote 0, .data⟩) = some u ∧
      newly s u = [.hightWaterMarkCallBack 3] ∧
      CallBacksMatch 3 s (.call (.send [3, 4]) ⟨.wrote 0, .data⟩) u ∧
      Trace.run step u [.ret, .ret, .dpPendingFunctors, .functor ⟨.wrote 0, .data⟩, .ret,
        .functor ⟨.wrote 0, .data⟩, .pollReturn (some ⟨false, false, false, false, true, false⟩),
        .handleEvent] = some v ∧
      v.step (.task ⟨.wrote 3, .data⟩) = some w ∧
      newly v w = [.writeCompleteCallBack] ∧ CallBacksMatch 3 v (.task ⟨.wrote 3, .data⟩) w := by
  have hopen : Trace.Along step Open (init (.init 3 true true) : TcpLoop Bool) [.pollReturn none,
      .handleOther, .connectEstablished, .call (.send [1, 2]) ⟨.wrote 1, .data⟩,
      .call (.send [3, 4]) ⟨.wrote 0, .data⟩, .ret, .ret, .dpPendingFunctors,
      .functor ⟨.wrote 0, .data⟩, .ret, .functor ⟨.wrote 0, .data⟩,
      .pollReturn (some ⟨false, false, false, false, true, false⟩), .handleEvent,
      .task ⟨.wrote 3, .data⟩] := by
    decide
  have h := (callBacks_match hopen).1
  refine ⟨_, _, _, _, rfl, rfl, by decide, ?_, rfl, rfl, by decide, ?_⟩
  · exact h [.pollReturn none, .handleOther, .connectEstablished,
      .call (.send [1, 2]) ⟨.wrote 1, .data⟩] _ [.ret, .ret, .dpPendingFunctors,
      .functor ⟨.wrote 0, .data⟩, .ret, .functor ⟨.wrote 0, .data⟩,
      .pollReturn (some ⟨false, false, false, false, true, false⟩), .handleEvent,
      .task ⟨.wrote 3, .data⟩] _ _ rfl rfl rfl
  · exact h [.pollReturn none, .handleOther, .connectEstablished,
      .call (.send [1, 2]) ⟨.wrote 1, .data⟩, .call (.send [3, 4]) ⟨.wrote 0, .data⟩, .ret, .ret,
      .dpPendingFunctors, .functor ⟨.wrote 0, .data⟩, .ret, .functor ⟨.wrote 0, .data⟩,
      .pollReturn (some ⟨false, false, false, false, true, false⟩), .handleEvent] _ [] _ _
      rfl rfl rfl

end Runs

end TcpLoop

end Netlib
