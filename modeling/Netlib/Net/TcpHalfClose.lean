import Netlib.Net.TcpOutput

/-!
# The half-close

`shutdown()` sets `cDisconnecting` at once and queues `shutdownInLoop` behind the messages of its
thread; but `handleWrite` half-closes as well, as soon as it finds the buffer empty in that state.
This module says when no half-close overtakes a message: exactly when `handleWrite` does not empty
the buffer in that state before the messages have left the functor queue.
-/

namespace Netlib

namespace TcpLoop

variable {T : Type} [DecidableEq T]

/-- At a half-close, every message that `t` passed to `send` had been handed to the socket. -/
def HandedOver (t : T) (c : HalfClose T) : Prop :=
  c.ran.filterMap (sentBy t) = c.called t ∧ c.accepted = (c.ran.map Prod.snd).flatten

def HalfClosesLate (t : T) (s : TcpLoop T) : Prop := ∀ c ∈ s.halfCloses, HandedOver t c

instance (t : T) (c : HalfClose T) : Decidable (HandedOver t c) :=
  inferInstanceAs (Decidable (_ ∧ _))

instance (t : T) (s : TcpLoop T) : Decidable (s.HalfClosesLate t) :=
  inferInstanceAs (Decidable (∀ c ∈ s.halfCloses, HandedOver t c))

/-- Only `t` closes, and only by `shutdown()`; no write finds the connection broken, the peer does
not close, and the server is not destroyed. -/
def Calm (t : T) (s : TcpLoop T) : Label T → Prop
  | .callFrom u (.close c) => u = t ∧ c = .shutdown
  | .call (.close _) _ | .conncetDestoryed | .serverDestoryed => False
  | .call _ io | .functor io => io.write ≠ .failed .pipe ∧ io.write ≠ .failed .connReset
  | .task io => s.agenda.head? ≠ some .closeEvent ∧
      (s.agenda.head? = some .readEvent → io.read ≠ .eof)
  | _ => True

/-- The step is not `handleWrite` half-closing while a message of `t` is in the functor queue. -/
def InTurn (t : T) (s : TcpLoop T) : Label T → Prop
  | .task _ => s.agenda.head? = some .drained → s.conn.state = .cDisconnecting →
      s.conn.chnnel.isWriting = false →
      ∀ f ∈ s.functors.batch ++ s.functors.pending, sendOf t f = none
  | _ => True

instance (t : T) (s : TcpLoop T) : (l : Label T) → Decidable (s.Calm t l)
  | .callFrom u (.close c) => inferInstanceAs (Decidable (u = t ∧ c = .shutdown))
  | .call (.close _) _ | .conncetDestoryed | .serverDestoryed => .isFalse id
  | .call (.send _) io | .call .startRead io | .call .stopRead io | .functor io =>
    inferInstanceAs (Decidable (io.write ≠ _ ∧ io.write ≠ _))
  | .task io => inferInstanceAs (Decidable (_ ∧ (_ → io.read ≠ .eof)))
  | .callFrom _ (.send _) | .callFrom _ .startRead | .callFrom _ .stopRead | .proceed _ | .queueUser
  | .queueDestoryed | .connectEstablished | .ret | .pollReturn _ | .handleEvent | .handleOther
  | .handleTimer | .dpPendingFunctors => .isTrue trivial

instance (t : T) (s : TcpLoop T) : (l : Label T) → Decidable (s.InTurn t l)
  | .task _ => inferInstanceAs (Decidable (_ → _ → _ → ∀ f ∈ _, sendOf t f = none))
  | .callFrom _ _ | .proceed _ | .queueUser | .queueDestoryed | .serverDestoryed
  | .connectEstablished | .conncetDestoryed | .ret | .call _ _ | .pollReturn _ | .handleEvent
  | .handleOther | .handleTimer | .dpPendingFunctors | .functor _ => .isTrue trivial

/-! ## 1. Nobody else closes -/

/-- What a calm run keeps out of the queue and off the agenda. -/
structure Undisturbed (t : T) (s : TcpLoop T) : Prop where
  up : s.conn.state ≠ .cDisconnected
  queue : ∀ f ∈ s.functors.queued, f ≠ .forceCloseInLoop ∧ f ≠ .conncetDestoryed ∧ f ≠ .addTimer
  agenda : ∀ a ∈ s.agenda, a ≠ .destroyConnected ∧ a ≠ .queueForceClose ∧ a ≠ .closeCallBack
  timers : s.timers = 0
  owed : s.owed = 0
  closers : ∀ u c, s.callers u = .setting c ∨ s.callers u = .queueing c → u = t ∧ c = .shutdown

omit [DecidableEq T] in
theorem Undisturbed.not_sets {t : T} {s : TcpLoop T} {l : Label T} (h : s.Undisturbed t)
    (hord : s.functors.InOrder) (hcalm : s.Calm t l) : ¬ s.Sets l .cDisconnected := by
  intro hsets
  cases hsets with
  | handleClose hclose =>
    cases hclose with
    | hup hhead => exact hcalm.1 hhead
    | eof hhead hio => exact hcalm.2 hhead hio
    | forceCloseInLoop hnext => exact (h.queue _ (hord.mem_of_next hnext)).1 rfl
  | destroyConnected hhead => exact (h.agenda _ (List.mem_of_mem_head? hhead)).1 rfl

theorem step_undisturbed {t : T} {s u : TcpLoop T} {l : Label T} (h : s.Undisturbed t)
    (hord : s.functors.InOrder) (hcalm : s.Calm t l) (hstep : s.step l = some u) :
    u.Undisturbed t := by
  obtain ⟨⟨new, hqueued, hnew⟩, hstate, hagenda, htimers, howed, hcallers, -, -⟩ := step_spec hstep
  have hnot := h.not_sets hord hcalm
  constructor
  · rcases hstate with heq | hsets
    · rw [heq]
      exact h.up
    · intro hdown
      exact hnot (hdown ▸ hsets)
  · intro f hf
    rw [hqueued, List.mem_append] at hf
    rcases hf with hf | hf
    · exact h.queue f hf
    · cases hnew f hf with
      | callBack hcb => cases f <;> simp [LoopFunctor.IsCallBack] at hcb ⊢
      | user | startRead | stopRead | send => simp
      | owner howed' => simp [h.owed] at howed'
      | server => exact hcalm.elim
      | forceClose hhead => exact ((h.agenda _ (List.mem_of_mem_head? hhead)).2.1 rfl).elim
      | closing hpc =>
        obtain ⟨-, rfl⟩ := h.closers _ _ (Or.inr hpc)
        simp [Closing.functor]
  · intro a ha
    rcases hagenda a ha with ha | hadds
    · exact h.agenda a ha
    · cases hadds with
      | user | drained | remove => simp
      | event hphase hmem =>
        rcases Revents.mem_tasks hmem with rfl | rfl | rfl <;> simp
      | closeCallBack hclose => exact (hnot (.handleClose hclose)).elim
      | forceClose => exact hcalm.elim
      | timer ht => simp [h.timers] at ht
      | destroyConnected hl =>
        rcases hl with rfl | ⟨io, q, -, hnext⟩
        · exact hcalm.elim
        · exact ((h.queue _ (hord.mem_of_next hnext)).2.1 rfl).elim
  · rcases htimers with hle | ⟨io, q, -, hnext⟩ | ⟨io, rfl⟩
    · have := h.timers
      omega
    · exact ((h.queue _ (hord.mem_of_next hnext)).2.2 rfl).elim
    · exact hcalm.elim
  · rcases howed with hle | ⟨io, -, hhead⟩
    · have := h.owed
      omega
    · exact ((h.agenda _ (List.mem_of_mem_head? hhead)).2.2 rfl).elim
  · intro v c hpc
    rcases hcallers v with heq | hmoves
    · rw [heq] at hpc
      exact h.closers v c hpc
    · generalize u.callers v = pc at hmoves hpc
      cases hmoves with
      | send => simp at hpc
      | close hmay =>
        simp only [CallerPc.setting.injEq, reduceCtorEq, or_false] at hpc
        subst hpc
        exact hcalm
      | set hset =>
        simp only [CallerPc.queueing.injEq, reduceCtorEq, false_or] at hpc
        subst hpc
        exact h.closers v _ (Or.inl hset)
      | queued => simp at hpc

/-! ## 2. The shutdown comes last -/

/-- Behind the `setState` of its `shutdown()`, `t` pushes no message any more; so every one is in
front of `shutdownInLoop`. -/
structure ShutLast (t : T) (s : TcpLoop T) : Prop where
  closing : .shutdownInLoop ∈ s.functors.queued ∨ s.callers t = .queueing .shutdown →
    s.conn.state = .cDisconnecting
  silent : s.conn.state = .cDisconnecting → inFlight (s.callers t) = []
  last : s.functors.queued.Pairwise fun f g ↦ f = .shutdownInLoop → sendOf t g = none

/-- In a calm run `cDisconnecting` is final. -/
theorem disconnecting_stays {t : T} {s u : TcpLoop T} {l : Label T} (h : s.Undisturbed t)
    (hord : s.functors.InOrder) (hcalm : s.Calm t l) (hstep : s.step l = some u)
    (hs : s.conn.state = .cDisconnecting) : u.conn.state = .cDisconnecting := by
  rcases (step_spec hstep).state with heq | hsets
  · exact heq.trans hs
  · have hnot := h.not_sets hord hcalm
    generalize u.conn.state = e at hsets
    cases hsets with
    | established hc => simp [hs] at hc
    | setting | close | timer => rfl
    | handleClose hclose => exact (hnot (.handleClose hclose)).elim
    | destroyConnected hh => exact (hnot (.destroyConnected hh)).elim

omit [DecidableEq T] in
/-- Who pushes `shutdownInLoop`. -/
theorem pushes_shutdownInLoop {s : TcpLoop T} {l : Label T} (h : s.Pushes l .shutdownInLoop) :
    ∃ v, l = .proceed v ∧ s.callers v = .queueing .shutdown := by
  generalize hf : LoopFunctor.shutdownInLoop = f at h
  cases h with
  | callBack hcb =>
    subst hf
    exact hcb.elim
  | @closing v c hpc =>
    cases c <;> simp [Closing.functor] at hf
    exact ⟨v, rfl, hpc⟩
  | user | startRead | stopRead | owner | server | forceClose | send => cases hf

theorem pushes_send {t : T} {s : TcpLoop T} {l : Label T} {f : LoopFunctor T} (h : s.Pushes l f)
    (hf : sendOf t f ≠ none) : ∃ message, l = .proceed t ∧ s.callers t = .sending message := by
  cases h with
  | callBack hcb => exact (hf (sendOf_isCallBack hcb t)).elim
  | @send v message hpc =>
    have hv : v = t := by
      by_contra hne
      exact hf (if_neg hne)
    subst hv
    exact ⟨message, rfl, hpc⟩
  | @closing v c hpc => cases c <;> exact (hf rfl).elim
  | user | startRead | stopRead | owner | server | forceClose => exact (hf rfl).elim

theorem step_shutLast {t : T} {s u : TcpLoop T} {l : Label T} (h : s.ShutLast t)
    (hcl : s.Undisturbed t) (hord : s.functors.InOrder) (hcalm : s.Calm t l)
    (hstep : s.step l = some u) : u.ShutLast t := by
  obtain ⟨⟨new, hqueued, hnew⟩, hstate, -, -, -, hcallers, -, -⟩ := step_spec hstep
  have hstays := disconnecting_stays hcl hord hcalm hstep
  constructor
  · -- whoever queues `shutdownInLoop` has set the state before
    rintro (hmem | hpc)
    · rw [hqueued, List.mem_append] at hmem
      rcases hmem with hmem | hmem
      · exact hstays (h.closing (Or.inl hmem))
      · obtain ⟨v, rfl, hpc⟩ := pushes_shutdownInLoop (hnew _ hmem)
        obtain ⟨rfl, -⟩ := hcl.closers v _ (Or.inr hpc)
        exact hstays (h.closing (Or.inr hpc))
    · rcases hcallers t with heq | hmoves
      · exact hstays (h.closing (Or.inr (heq ▸ hpc)))
      · rw [hpc] at hmoves
        cases hmoves with
        | set _ hdis => exact hdis
  · -- `t` holds no message when it sets the state, and gets none behind it
    intro hdis
    rcases hcallers t with heq | hmoves
    · rw [heq]
      rcases hstate with hsame | hsets
      · exact h.silent (hsame ▸ hdis)
      · rw [hdis] at hsets
        cases hsets with
        | @setting v c hset =>
          obtain ⟨rfl, -⟩ := hcl.closers v c (Or.inl hset)
          rw [hset]
          rfl
        | close => exact hcalm.elim
        | timer ht => simp [hcl.timers] at ht
    · generalize u.callers t = pc at hmoves
      cases hmoves with
      | send hconn =>
        -- a send passes its test only before the state changes
        rcases hstate with hsame | hsets
        · simp [hsame, hconn] at hdis
        · rw [hdis] at hsets
          cases hsets
      | close | set | queued => rfl
  · -- one step does not push both, and a step behind the shutdown pushes no message of `t`
    rw [hqueued]
    refine List.pairwise_append.mpr ⟨h.last, ?_, ?_⟩
    · refine List.pairwise_of_forall_mem_list fun f hf g hg hshut ↦ ?_
      subst hshut
      by_contra hsend
      obtain ⟨v, rfl, hpc⟩ := pushes_shutdownInLoop (hnew _ hf)
      obtain ⟨message, hl, hpc'⟩ := pushes_send (hnew _ hg) hsend
      cases hl
      simp [hpc] at hpc'
    · intro f hf g hg hshut
      subst hshut
      by_contra hsend
      obtain ⟨message, -, hpc⟩ := pushes_send (hnew _ hg) hsend
      have hdis := h.silent (h.closing (Or.inl hf))
      simp [hpc, inFlight] at hdis

/-! ## 3. When the half-close is late enough -/

structure Parting (t : T) (s : TcpLoop T) : Prop where
  ordered : s.Ordered
  streamed : s.Streamed
  undisturbed : s.Undisturbed t
  shutLast : s.ShutLast t
  late : s.HalfClosesLate t

/-- What `t` has called is what was run and what is in the functor queue, once it is closing. -/
theorem Parting.called_eq {t : T} {s : TcpLoop T} (h : s.Parting t)
    (hstate : s.conn.state = .cDisconnecting) :
    s.ran.filterMap (sentBy t) ++
      (s.functors.batch ++ s.functors.pending).filterMap (sendOf t) = s.called t := by
  have hcalled := h.ordered.called t
  rw [h.shutLast.silent hstate, List.append_nil, ← h.ordered.inOrder, List.append_assoc,
    List.filterMap_append, ← h.ordered.ran t] at hcalled
  exact hcalled

theorem Parting.handedOver {t : T} {s : TcpLoop T} (h : s.Parting t)
    (hstate : s.conn.state = .cDisconnecting) (hw : s.conn.chnnel.isWriting = false)
    (hnone : ∀ f ∈ s.functors.batch ++ s.functors.pending, sendOf t f = none) :
    HandedOver t ⟨s.ran, s.accepted, s.called⟩ := by
  have hcalled := h.called_eq hstate
  rw [List.filterMap_eq_nil_iff.mpr hnone, List.append_nil] at hcalled
  exact ⟨hcalled, (h.streamed.drained hw).2⟩

/-- `shutdownInLoop` is at the front of the queue only when no message is behind it. -/
theorem ShutLast.runs_none {t : T} {s : TcpLoop T} {l : Label T} (h : s.ShutLast t)
    (hord : s.functors.InOrder) (hruns : s.Runs l .shutdownInLoop) :
    s.conn.state = .cDisconnecting ∧
      ∀ f ∈ s.functors.batch ++ s.functors.pending, sendOf t f = none := by
  obtain ⟨io, q, -, hnext⟩ := hruns
  obtain ⟨rest, hbatch, -⟩ := Batch.Queue.next_eq_some.mp hnext
  have hlast := h.last
  rw [← hord, hbatch, List.append_assoc, List.cons_append] at hlast
  have hbehind := (List.pairwise_cons.mp (List.pairwise_append.mp hlast).2.1).1
  refine ⟨h.closing (Or.inl (hord.mem_of_next hnext)), fun f hf ↦ ?_⟩
  rw [hbatch, List.cons_append, List.mem_cons] at hf
  rcases hf with rfl | hf
  · rfl
  · exact hbehind f hf rfl

omit [DecidableEq T] in
theorem Calm.unbroken {t : T} {s : TcpLoop T} {l : Label T} (h : s.Calm t l) : l.Unbroken := by
  cases l with
  | call c io =>
    cases c with
    | close c => exact h.elim
    | send | startRead | stopRead => exact h
  | functor io => exact h
  | callFrom | proceed | queueUser | queueDestoryed | serverDestoryed | connectEstablished
  | conncetDestoryed | ret | task | pollReturn | handleEvent | handleOther | handleTimer
  | dpPendingFunctors => trivial

theorem step_parting {t : T} {s u : TcpLoop T} {l : Label T} (h : s.Parting t) (hcalm : s.Calm t l)
    (hturn : s.InTurn t l) (hstep : s.step l = some u) : u.Parting t := by
  have hord := h.ordered.inOrder
  have hund := step_undisturbed h.undisturbed hord hcalm hstep
  refine ⟨step_ordered h.ordered hstep,
    step_streamed h.streamed h.undisturbed.up hcalm.unbroken hstep hund.up, hund,
    step_shutLast h.shutLast h.undisturbed hord hcalm hstep, ?_⟩
  -- what is left is the half-close of this step, if there is one
  rcases (step_spec hstep).halfCloses with heq | ⟨hclosed, hw, heq⟩
  · rw [HalfClosesLate, heq]
    exact h.late
  · have hnew : HandedOver t ⟨s.ran, s.accepted, s.called⟩ := by
      cases hclosed with
      | call => exact hcalm.elim
      | functor hruns =>
        obtain ⟨hstate, hnone⟩ := h.shutLast.runs_none hord hruns
        exact h.handedOver hstate hw hnone
      | drained hhead hstate => exact h.handedOver hstate hw (hturn hhead hstate hw)
    intro c hc
    rw [heq, List.mem_append, List.mem_singleton] at hc
    rcases hc with hc | rfl
    · exact h.late c hc
    · exact hnew

/-- The drain that comes too early does half-close. -/
theorem step_not_late {t : T} {s u : TcpLoop T} {l : Label T} (h : s.Parting t)
    (hturn : ¬ s.InTurn t l) (hstep : s.step l = some u) : ¬ u.HalfClosesLate t := by
  cases l with
  | task io =>
    simp only [InTurn, Classical.not_imp, not_forall] at hturn
    obtain ⟨hhead, hstate, hw, f, hf, hsend⟩ := hturn
    have hnew : ⟨s.ran, s.accepted, s.called⟩ ∈ u.halfCloses := by
      cases step_cases hstep with
      | task hagenda htask =>
        rw [hagenda, List.head?_cons, Option.some.injEq] at hhead
        subst hhead
        simp only [runTask, hstate, if_true, Option.some.injEq, shutdownInLoop, hw] at htask
        subst htask
        simp [shutdownWrite]
    intro hlate
    -- the message that is still queued was called and has not been run
    have hran : s.ran.filterMap (sentBy t) = s.called t := (hlate _ hnew).1
    have hcalled := h.called_eq hstate
    rw [← hran] at hcalled
    have hnil := List.append_right_eq_self.mp hcalled
    exact hsend (List.filterMap_eq_nil_iff.mp hnil f hf)
  | callFrom | proceed | queueUser | queueDestoryed | serverDestoryed | connectEstablished
  | conncetDestoryed | ret | call | pollReturn | handleEvent | handleOther | handleTimer
  | dpPendingFunctors | functor => exact (hturn trivial).elim

theorem init_parting (t : T) (hightWaterMark : Nat) (writeComplete hightWater : Bool) :
    (init (.init hightWaterMark writeComplete hightWater) : TcpLoop T).Parting t where
  ordered := init_ordered _
  streamed := init_streamed ..
  undisturbed := by
    constructor <;> simp [init, TcpConnection.init, Batch.Queue.empty]
  shutLast := by
    constructor <;> simp [init, TcpConnection.init, Batch.Queue.empty]
  late := by simp [HalfClosesLate, init]

/-- **When the half-close waits for the messages.**  Take a run in which `t` sends and then shuts
down, any threads send, no write finds the connection broken and the peer does not close.  At every
`shutdownWrite` all messages of `t` have been handed to the socket, in every state of the run,
exactly when `handleWrite` never half-closes while a message of `t` is in the functor queue. -/
theorem half_close_late_iff_in_turn {t : T} {hightWaterMark : Nat} {writeComplete hightWater : Bool}
    {ls : List (Label T)} {s : TcpLoop T}
    (h : Trace.run step (init (.init hightWaterMark writeComplete hightWater)) ls = some s)
    (hcalm : Trace.Along step (Calm t) (init (.init hightWaterMark writeComplete hightWater)) ls) :
    Trace.Always step (HalfClosesLate t) (init (.init hightWaterMark writeComplete hightWater)) ls ↔
      Trace.Along step (InTurn t) (init (.init hightWaterMark writeComplete hightWater)) ls :=
  Trace.always_iff_along_of (I := Parting t) (C := Calm t)
    (fun _ _ _ hs hc hp hstep ↦ step_parting hs hc hp hstep) (fun _ hs ↦ hs.late)
    (fun _ _ _ hs _ hbad hstep ↦ step_not_late hs hbad hstep) (init_parting ..) hcalm h

/-- With output pending, `t` sends and shuts down; the functors are run before the descriptor is
writable, and `handleWrite` half-closes behind the last byte. -/
theorem half_close_late_iff_in_turn_drained_last :
    Trace.Always (step (T := Bool)) (HalfClosesLate true) (init (.init 100 true true))
      [.pollReturn none, .handleOther, .connectEstablished, .ret,
        .call (.send [1]) ⟨.wrote 0, .data⟩, .ret, .callFrom true (.send [7]), .proceed true,
        .callFrom true (.close .shutdown), .proceed true, .proceed true, .dpPendingFunctors,
        .functor ⟨.wrote 0, .data⟩, .functor ⟨.wrote 0, .data⟩, .functor ⟨.wrote 0, .data⟩,
        .pollReturn (some ⟨false, false, false, false, true, false⟩), .handleEvent,
        .task ⟨.wrote 2, .data⟩, .task ⟨.wrote 0, .data⟩] :=
  (half_close_late_iff_in_turn (s := _) rfl (by decide)).mpr (by decide)

/-- With one byte of output pending, `t` sends a message and shuts down; `handleWrite` then writes the
byte, finds `cDisconnecting` and half-closes with the message still in the functor queue. -/
theorem half_close_overtakes_message :
    ∃ s : TcpLoop Bool, Trace.run step (init (.init 100 true true))
        [.pollReturn none, .handleOther, .connectEstablished, .ret,
          .call (.send [1]) ⟨.wrote 0, .data⟩, .ret, .dpPendingFunctors,
          .functor ⟨.wrote 0, .data⟩, .pollReturn (some ⟨false, false, false, false, true, false⟩),
          .callFrom true (.send [7]), .proceed true, .callFrom true (.close .shutdown),
          .proceed true, .proceed true, .handleEvent, .task ⟨.wrote 1, .data⟩,
          .task ⟨.wrote 0, .data⟩] = some s ∧
      Trace.Along step (Calm true) (init (.init 100 true true))
        [.pollReturn none, .handleOther, .connectEstablished, .ret,
          .call (.send [1]) ⟨.wrote 0, .data⟩, .ret, .dpPendingFunctors,
          .functor ⟨.wrote 0, .data⟩, .pollReturn (some ⟨false, false, false, false, true, false⟩),
          .callFrom true (.send [7]), .proceed true, .callFrom true (.close .shutdown),
          .proceed true, .proceed true, .handleEvent, .task ⟨.wrote 1, .data⟩,
          .task ⟨.wrote 0, .data⟩] ∧
      s.called true = [[7]] ∧ s.accepted = [1] ∧ s.halfCloses.length = 1 ∧
      ¬ s.HalfClosesLate true :=
  ⟨_, rfl, by decide, rfl, rfl, rfl, by decide⟩

end TcpLoop

end Netlib
