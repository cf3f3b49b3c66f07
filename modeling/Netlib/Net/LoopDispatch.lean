import Netlib.Net.LoopChnnels

/-!
# `EventLoop::loop` and the active channels

`Epoller::poll` fills `_activeChnnels` with the channels that `epoll_wait` reports, and `loop`
handles them one behind the other while their handlers change and remove channels
(`net/EventLoop.cc`, `net/Epoller.cc`, `net/Chnnel.cc`).  The machine below is the loop thread over
the channels of one `Epoller`; user code runs in the callbacks of a channel and outside the `for`.
-/

namespace Netlib

/-- The bits of `_revevts` that `handleEventWithGuard` tests. -/
structure PollBits where
  pollIn : Bool
  pri : Bool
  out : Bool
  err : Bool
  hup : Bool
  nval : Bool
  rdhup : Bool
  wrband : Bool
deriving DecidableEq, Repr

/-- What `epoll_wait` may report for a descriptor watched with the mask `e`: events of the mask,
and errors and hang-ups whether asked for or not. -/
def PollBits.Reportable (r : PollBits) (e : Events) : Prop :=
  (r.pollIn = true → e.read = true) ∧ (r.pri = true → e.read = true) ∧
    (r.out = true → e.write = true) ∧ r.nval = false ∧ r.rdhup = false ∧ r.wrband = false

instance (r : PollBits) (e : Events) : Decidable (r.Reportable e) := by
  unfold PollBits.Reportable
  infer_instance

inductive EventCallBack where
  | error
  | close
  | read
  | write
deriving DecidableEq, Repr

/-- The callbacks `handleEventWithGuard` calls, in its order, when all four are set. -/
def PollBits.callBacks (r : PollBits) : List EventCallBack :=
  (if r.nval || r.err then [.error] else []) ++
    (if r.hup && !r.pollIn then [.close] else []) ++
    (if r.pollIn || r.pri || r.rdhup then [.read] else []) ++
    (if r.out || r.wrband then [.write] else [])

theorem PollBits.Reportable.mask {r : PollBits} {e : Events} (h : r.Reportable e)
    {f : EventCallBack} (hf : f ∈ r.callBacks) :
    (f = .read → e.read = true) ∧ (f = .write → e.write = true) := by
  obtain ⟨hin, hpri, hout, -, hrdhup, hwrband⟩ := h
  refine ⟨?_, ?_⟩
  · rintro rfl
    have hbits : r.pollIn = true ∨ r.pri = true := by
      simpa [PollBits.callBacks, hrdhup] using hf
    exact hbits.elim hin hpri
  · rintro rfl
    have hbit : r.out = true := by
      simpa [PollBits.callBacks, hwrband] using hf
    exact hout hbit

/-- An entry of the list of ready descriptors. -/
structure Ready where
  fd : Fd
  revents : PollBits
deriving DecidableEq, Repr

inductive DispatchPc where
  /-- User code outside the `for`: before `loop()`, in a pending functor. -/
  | user
  | poll
  /-- At the head of the `for` over `_activeChnnels`. -/
  | next
  /-- In `handleEvent`, with the callbacks still to be tested; `inCallBack`: in one of them. -/
  | handling (todo : List EventCallBack) (inCallBack : Bool)
deriving DecidableEq, Repr

structure Dispatch where
  tid : Tid
  epoller : Epoller
  /-- `_events.size()`. -/
  eventsSize : Nat
  activeChnnels : List ChnnelPtr
  /-- The part of `_activeChnnels` that the `for` has not reached. -/
  rest : List ChnnelPtr
  currentActiveChnnel : Option ChnnelPtr
  eventHandle : Bool
  revents : ChnnelPtr → PollBits
  eventHanding : ChnnelPtr → Bool
  tied : ChnnelPtr → Bool
  /-- The callbacks that were set in a channel. -/
  callBackSet : ChnnelPtr → EventCallBack → Bool
  pc : DispatchPc
  /-- The `Epoller` at the last `epoll_wait`. -/
  polled : Epoller
  /-- The channels of this batch whose handler was entered, and the callbacks called. -/
  dispatched : List ChnnelPtr
  called : List (ChnnelPtr × EventCallBack)
  /-- How often `_events` was full. -/
  fullPolls : Nat

namespace Dispatch

def cEventsInitSize : Nat := 8

def init (tid : Tid) (fd : ChnnelPtr → Fd) (callBackSet : ChnnelPtr → EventCallBack → Bool) :
    Dispatch where
  tid := tid
  epoller := Epoller.init fd
  eventsSize := cEventsInitSize
  activeChnnels := []
  rest := []
  currentActiveChnnel := none
  eventHandle := false
  revents := fun _ ↦ ⟨false, false, false, false, false, false, false, false⟩
  eventHanding := fun _ ↦ false
  tied := fun _ ↦ false
  callBackSet := callBackSet
  pc := .user
  polled := Epoller.init fd
  dispatched := []
  called := []
  fullPolls := 0

/-! ## 1. The code -/

def liftEpoller {α : Type} : Except EpollFault α → Except LoopFault α
  | .ok a => .ok a
  | .error fault => .error (.epoller fault)

/-- `EventLoop::removeChnnel`. -/
def removeChnnel (s : Dispatch) (c : ChnnelPtr) : Except LoopFault Dispatch := do
  -- the whole of `_activeChnnels`, with the channels that were handled already
  if s.eventHandle then
    LoopChnnels.check (s.currentActiveChnnel = some c ∨ c ∉ s.activeChnnels)
  let epoller ← liftEpoller (s.epoller.removeChnnel c)
  return { s with epoller := epoller }

/-- `_addedToLoop = false`. -/
def leave (s : Dispatch) (c : ChnnelPtr) : Dispatch :=
  { s with epoller := s.epoller.setObject c { s.epoller.objects c with addedToLoop := false } }

/-- `Chnnel::remove`. -/
def remove (s : Dispatch) (c : ChnnelPtr) : Except LoopFault Dispatch := do
  LoopChnnels.check ((s.epoller.objects c).events.isNone = true)
  (s.leave c).removeChnnel c

/-- A call of user code on a channel of the loop. -/
def call (s : Dispatch) : Epoller.Label → Except LoopFault Dispatch
  | .remove c => s.remove c
  | l => do
    let epoller ← liftEpoller (s.epoller.call l)
    return { s with epoller := epoller }

/-- `~Chnnel`, on some thread. -/
def destroyChnnel (s : Dispatch) (thread : Tid) (c : ChnnelPtr) : Except LoopFault Unit :=
  LoopChnnels.destroyChnnel ⟨s.tid, s.epoller⟩ thread c (s.eventHanding c)

/-- What `epoll_wait` writes to `_events` for the ready descriptors. -/
def filled (s : Dispatch) (ready : List Ready) : List (ChnnelPtr × PollBits) :=
  ready.filterMap fun r ↦ (s.epoller.interest r.fd).map fun e ↦ (e.ptr, r.revents)

def fillActiveChnnels (s : Dispatch) (events : List (ChnnelPtr × PollBits)) :
    Except LoopFault Dispatch := do
  LoopChnnels.check (events.length ≤ s.eventsSize)
  return events.foldl (fun s (c, revents) ↦
    { s with revents := Function.update s.revents c revents
             activeChnnels := s.activeChnnels ++ [c] }) s

/-- `Epoller::poll`; an error of `epoll_wait` does what an empty list does. -/
def poll (s : Dispatch) (events : List (ChnnelPtr × PollBits)) : Except LoopFault Dispatch := do
  if events.length = 0 then return s
  let s ← s.fillActiveChnnels events
  if events.length = s.eventsSize then
    return { s with eventsSize := s.eventsSize * 2, fullPolls := s.fullPolls + 1 }
  else return s

/-- The kernel reports watched descriptors, each once, and no more than there is room for. -/
def EpollWait (s : Dispatch) (ready : List Ready) : Prop :=
  ready.length ≤ s.eventsSize ∧ (ready.map (·.fd)).Nodup ∧
    ∀ r ∈ ready, ∃ e ∈ s.epoller.interest r.fd, r.revents.Reportable e.events

instance (s : Dispatch) (ready : List Ready) : Decidable (s.EpollWait ready) := by
  unfold EpollWait
  infer_instance

inductive Label where
  | call (l : Epoller.Label)
  | tie (c : ChnnelPtr)
  /-- `loop()` is entered, or its last functor has returned. -/
  | turn
  | poll (ready : List Ready)
  /-- `handleEvent` of the next channel; `guard`: it is not tied or its owner is alive. -/
  | next (guard : Bool)
  | callBack
  | handled
deriving DecidableEq, Repr

def InUserCode (s : Dispatch) : Prop := s.pc = .user ∨ ∃ todo, s.pc = .handling todo true

instance (s : Dispatch) : Decidable s.InUserCode :=
  match h : s.pc with
  | .user => .isTrue (.inl h)
  | .handling todo true => .isTrue (.inr ⟨todo, h⟩)
  | .handling _ false | .poll | .next => .isFalse (by simp [InUserCode, h])

/-- The callbacks that handling `c` calls. -/
def callBacksOf (s : Dispatch) (c : ChnnelPtr) : List EventCallBack :=
  (s.revents c).callBacks.filter (s.callBackSet c)

/-- A fault ends the run. -/
def step (s : Dispatch) : Label → Option Dispatch
  | .call l => if s.InUserCode then (s.call l).toOption else none
  | .tie c => if s.InUserCode then some { s with tied := Function.update s.tied c true } else none
  | .turn =>
    match s.pc with
    | .user => some { s with activeChnnels := [], pc := .poll, dispatched := [], called := [] }
    | _ => none
  | .poll ready =>
    match s.pc with
    | .poll =>
      if s.EpollWait ready then
        (s.poll (s.filled ready)).toOption.map fun t ↦
          { t with eventHandle := true, rest := t.activeChnnels, pc := .next, polled := s.epoller }
      else none
    | _ => none
  | .next guard =>
    match s.pc, s.rest with
    | .next, c :: rest =>
      if guard then
        some { s with rest := rest, currentActiveChnnel := some c
                      eventHanding := Function.update s.eventHanding c true
                      dispatched := s.dispatched ++ [c]
                      pc := .handling (s.callBacksOf c) false }
      else if s.tied c then some { s with rest := rest, currentActiveChnnel := some c }
      else none
    | .next, [] => some { s with currentActiveChnnel := none, eventHandle := false, pc := .user }
    | _, _ => none
  | .callBack =>
    match s.pc, s.currentActiveChnnel with
    | .handling (f :: todo) _, some c =>
      some { s with called := s.called ++ [(c, f)], pc := .handling todo true }
    | _, _ => none
  | .handled =>
    match s.pc, s.currentActiveChnnel with
    | .handling [] _, some c =>
      some { s with eventHanding := Function.update s.eventHanding c false, pc := .next }
    | _, _ => none

/-- The rules of the `Epoller` for the calls. -/
def Allowed (s : Dispatch) : Label → Prop
  | .call l => s.epoller.Allowed l
  | _ => True

/-! ## 2. What the calls and the poll do -/

/-- What `removeChnnel` asks of the batch. -/
def Releasable (s : Dispatch) (l : Epoller.Label) : Prop :=
  ∀ c, l = .remove c → s.eventHandle = true →
    s.currentActiveChnnel = some c ∨ c ∉ s.activeChnnels

section

variable {s t : Dispatch}

theorem check_eq_ok {p : Prop} [Decidable p] : LoopChnnels.check p = .ok () ↔ p := by
  unfold LoopChnnels.check
  by_cases h : p <;> simp [h]

theorem bind_eq_ok {ε α β : Type} {x : Except ε α} {f : α → Except ε β} {b : β} :
    (x >>= f) = .ok b ↔ ∃ a, x = .ok a ∧ f a = .ok b := by
  cases x with
  | ok a =>
    show f a = .ok b ↔ _
    simp
  | error e =>
    show (Except.error e : Except ε β) = .ok b ↔ _
    simp

theorem check_bind_eq_ok {p : Prop} [Decidable p] {x : Except LoopFault Dispatch} :
    (LoopChnnels.check p >>= fun _ ↦ x) = .ok t ↔ p ∧ x = .ok t := by
  rw [bind_eq_ok]
  exact ⟨fun ⟨_, hp, hx⟩ ↦ ⟨check_eq_ok.mp hp, hx⟩, fun ⟨hp, hx⟩ ↦ ⟨(), check_eq_ok.mpr hp, hx⟩⟩

theorem liftEpoller_bind_eq_ok {x : Except EpollFault Epoller} :
    (liftEpoller x >>= fun e ↦ Except.ok { s with epoller := e }) = .ok t ↔
      ∃ e, x = .ok e ∧ t = { s with epoller := e } := by
  cases x with
  | ok e =>
    show Except.ok { s with epoller := e } = Except.ok t ↔ _
    simp [eq_comm]
  | error fault =>
    show (Except.error (.epoller fault) : Except LoopFault Dispatch) = .ok t ↔ _
    simp

theorem removeChnnel_eq_ok {c : ChnnelPtr} : s.removeChnnel c = .ok t ↔
    (s.eventHandle = true → s.currentActiveChnnel = some c ∨ c ∉ s.activeChnnels) ∧
      ∃ e, s.epoller.removeChnnel c = .ok e ∧ t = { s with epoller := e } := by
  unfold removeChnnel
  by_cases h : s.eventHandle = true
  · rw [if_pos h]
    exact (check_bind_eq_ok.trans (and_congr_right fun _ ↦ liftEpoller_bind_eq_ok)).trans
      (and_congr_left' ⟨fun hp _ ↦ hp, fun hp ↦ hp h⟩)
  · rw [if_neg h]
    refine Iff.trans ?_ (iff_and_self.mpr fun _ hh ↦ (h hh).elim).symm.symm
    exact liftEpoller_bind_eq_ok

/-- **One call.**  A call that is not stopped by the batch is the call on the `Epoller`. -/
theorem call_eq_ok {l : Epoller.Label} : s.call l = .ok t ↔
    s.Releasable l ∧ ∃ e, s.epoller.call l = .ok e ∧ t = { s with epoller := e } := by
  have hother (hl : ∀ c, l ≠ .remove c) :
      (∃ e, s.epoller.call l = .ok e ∧ t = { s with epoller := e }) ↔
        s.Releasable l ∧ ∃ e, s.epoller.call l = .ok e ∧ t = { s with epoller := e } :=
    ⟨fun h ↦ ⟨fun c hc ↦ (hl c hc).elim, h⟩, And.right⟩
  cases l with
  | remove c =>
    have hnone : (Epoller.check ((s.epoller.objects c).events.isNone = true) >>= fun _ ↦
          (s.epoller.setObject c { s.epoller.objects c with addedToLoop := false }).removeChnnel c) =
          s.epoller.call (.remove c) := rfl
    show (LoopChnnels.check ((s.epoller.objects c).events.isNone = true) >>= fun _ ↦
      (s.leave c).removeChnnel c) = .ok t ↔ _
    rw [check_bind_eq_ok, removeChnnel_eq_ok, ← hnone]
    unfold Epoller.check
    by_cases h : (s.epoller.objects c).events.isNone = true
    · simp only [h, true_and, if_true, Trace.ok_bind]
      refine and_congr_left' ⟨fun hb c' hc' ↦ ?_, fun hr ↦ hr c rfl⟩
      cases hc'
      exact hb
    · rw [if_neg h]
      simp [h, bind_eq_ok]
  | enableReading c => exact liftEpoller_bind_eq_ok.trans (hother fun _ ↦ by simp)
  | enableWriting c => exact liftEpoller_bind_eq_ok.trans (hother fun _ ↦ by simp)
  | disableReading c => exact liftEpoller_bind_eq_ok.trans (hother fun _ ↦ by simp)
  | disableWriting c => exact liftEpoller_bind_eq_ok.trans (hother fun _ ↦ by simp)
  | diableAll c => exact liftEpoller_bind_eq_ok.trans (hother fun _ ↦ by simp)

theorem foldl_fill (events : List (ChnnelPtr × PollBits)) (s : Dispatch) :
    ∃ revents, (∀ c, c ∉ events.map (·.1) → revents c = s.revents c) ∧
      ((events.map (·.1)).Nodup → ∀ x ∈ events, revents x.1 = x.2) ∧
      events.foldl (fun s (c, r) ↦
        { s with revents := Function.update s.revents c r
                 activeChnnels := s.activeChnnels ++ [c] }) s =
        { s with revents := revents, activeChnnels := s.activeChnnels ++ events.map (·.1) } := by
  induction events generalizing s with
  | nil => exact ⟨s.revents, fun _ _ ↦ rfl, fun _ x hx ↦ (by cases hx), by simp⟩
  | cons x events ih =>
    obtain ⟨revents, hother, hown, heq⟩ := ih
      { s with revents := Function.update s.revents x.1 x.2
               activeChnnels := s.activeChnnels ++ [x.1] }
    refine ⟨revents, fun c hc ↦ ?_, fun hnodup y hy ↦ ?_, ?_⟩
    · rw [List.map_cons, List.mem_cons, not_or] at hc
      rw [hother c hc.2]
      exact Function.update_of_ne hc.1 _ _
    · rw [List.map_cons, List.nodup_cons] at hnodup
      rcases List.mem_cons.mp hy with rfl | hy
      -- no later entry is about the same channel
      · rw [hother y.1 hnodup.1]
        exact Function.update_self ..
      · exact hown hnodup.2 y hy
    · rw [List.foldl_cons]
      show events.foldl _ _ = _
      rw [heq]
      simp

theorem length_filled (s : Dispatch) (ready : List Ready) :
    (s.filled ready).length ≤ ready.length := List.length_filterMap_le _ _

/-- **One poll.**  The assertion in `fillActiveChnnels` holds, and the vector doubles exactly when
the kernel had filled it. -/
theorem poll_eq {events : List (ChnnelPtr × PollBits)} (hsize : events.length ≤ s.eventsSize)
    (hpos : 0 < s.eventsSize) :
    ∃ revents, (∀ c, c ∉ events.map (·.1) → revents c = s.revents c) ∧
      ((events.map (·.1)).Nodup → ∀ x ∈ events, revents x.1 = x.2) ∧
      s.poll events = .ok { s with
        revents := revents
        activeChnnels := s.activeChnnels ++ events.map (·.1)
        eventsSize := if events.length = s.eventsSize then s.eventsSize * 2 else s.eventsSize
        fullPolls := if events.length = s.eventsSize then s.fullPolls + 1 else s.fullPolls } := by
  obtain ⟨revents, hother, hown, heq⟩ := foldl_fill events s
  refine ⟨revents, hother, hown, ?_⟩
  have hfill : s.fillActiveChnnels events = .ok { s with
      revents := revents, activeChnnels := s.activeChnnels ++ events.map (·.1) } := by
    unfold fillActiveChnnels
    rw [check_eq_ok.mpr hsize, Trace.ok_bind, heq]
    rfl
  unfold poll
  by_cases hzero : events.length = 0
  · have hnil : events = [] := List.length_eq_zero_iff.mp hzero
    subst hnil
    have hrevents : revents = s.revents := funext fun c ↦ hother c (by simp)
    have hne : ¬ 0 = s.eventsSize := by omega
    simp [hrevents, hne, pure, Except.pure]
  · rw [if_neg hzero, hfill, Trace.ok_bind]
    by_cases hfull : events.length = s.eventsSize
    · simp [hfull, pure, Except.pure]
    · simp [hfull, pure, Except.pure]

/-- One case for each way a step can end. -/
inductive StepTo (s : Dispatch) : Label → Dispatch → Prop
  | call {l : Epoller.Label} {e : Epoller} : s.InUserCode → s.Releasable l →
      s.epoller.call l = .ok e → StepTo s (.call l) { s with epoller := e }
  | tie {c : ChnnelPtr} : s.InUserCode →
      StepTo s (.tie c) { s with tied := Function.update s.tied c true }
  | turn : s.pc = .user → StepTo s .turn
      { s with activeChnnels := [], pc := .poll, dispatched := [], called := [] }
  | poll {ready : List Ready} {revents : ChnnelPtr → PollBits} : s.pc = .poll →
      s.EpollWait ready →
      (((s.filled ready).map (·.1)).Nodup → ∀ x ∈ s.filled ready, revents x.1 = x.2) →
      StepTo s (.poll ready) { s with
        revents := revents
        activeChnnels := s.activeChnnels ++ (s.filled ready).map (·.1)
        eventsSize :=
          if (s.filled ready).length = s.eventsSize then s.eventsSize * 2 else s.eventsSize
        fullPolls :=
          if (s.filled ready).length = s.eventsSize then s.fullPolls + 1 else s.fullPolls
        eventHandle := true
        rest := s.activeChnnels ++ (s.filled ready).map (·.1)
        pc := .next
        polled := s.epoller }
  | enter {c : ChnnelPtr} {rest : List ChnnelPtr} : s.pc = .next → s.rest = c :: rest →
      StepTo s (.next true) { s with
        rest := rest
        currentActiveChnnel := some c
        eventHanding := Function.update s.eventHanding c true
        dispatched := s.dispatched ++ [c]
        pc := .handling (s.callBacksOf c) false }
  | skip {c : ChnnelPtr} {rest : List ChnnelPtr} : s.pc = .next → s.rest = c :: rest →
      s.tied c = true →
      StepTo s (.next false) { s with rest := rest, currentActiveChnnel := some c }
  | forEnd {guard : Bool} : s.pc = .next → s.rest = [] →
      StepTo s (.next guard) { s with currentActiveChnnel := none, eventHandle := false
                                      pc := .user }
  | callBack {f : EventCallBack} {todo : List EventCallBack} {b : Bool} {c : ChnnelPtr} :
      s.pc = .handling (f :: todo) b → s.currentActiveChnnel = some c →
      StepTo s .callBack { s with called := s.called ++ [(c, f)], pc := .handling todo true }
  | handled {b : Bool} {c : ChnnelPtr} : s.pc = .handling [] b →
      s.currentActiveChnnel = some c →
      StepTo s .handled { s with eventHanding := Function.update s.eventHanding c false
                                 pc := .next }

theorem step_cases {l : Label} (hpos : 0 < s.eventsSize) (h : s.step l = some t) :
    StepTo s l t := by
  cases l with
  | call l =>
    simp only [step] at h
    split at h
    · rename_i huser
      cases hcall : s.call l with
      | error fault => rw [hcall] at h; cases h
      | ok t' =>
        rw [hcall] at h
        cases h
        obtain ⟨hrel, e, he, rfl⟩ := call_eq_ok.mp hcall
        exact .call huser hrel he
    · cases h
  | tie c =>
    simp only [step, Option.ite_none_right_eq_some, Option.some.injEq] at h
    obtain ⟨huser, rfl⟩ := h
    exact .tie huser
  | turn =>
    simp only [step] at h
    split at h <;> cases h
    exact .turn ‹_›
  | poll ready =>
    simp only [step] at h
    split at h
    · rename_i hpc
      split at h
      · rename_i hwait
        have hsize : (s.filled ready).length ≤ s.eventsSize :=
          (s.length_filled ready).trans hwait.1
        obtain ⟨revents, -, hown, heq⟩ := poll_eq hsize hpos
        rw [heq] at h
        cases h
        exact .poll hpc hwait hown
      · cases h
    · cases h
  | next guard =>
    simp only [step] at h
    split at h
    · rename_i hpc hrest
      cases guard with
      | true =>
        cases h
        exact .enter hpc hrest
      | false =>
        simp only [Bool.false_eq_true, if_false, Option.ite_none_right_eq_some,
          Option.some.injEq] at h
        obtain ⟨htied, rfl⟩ := h
        exact .skip hpc hrest htied
    · cases h
      exact .forEnd ‹_› ‹_›
    · cases h
  | callBack =>
    simp only [step] at h
    split at h <;> cases h
    exact .callBack ‹_› ‹_›
  | handled =>
    simp only [step] at h
    split at h <;> cases h
    exact .handled ‹_› ‹_›

end

/-! ## 3. The batch -/

/-- The loop thread is in the `for` over `_activeChnnels`. -/
def Dispatching (s : Dispatch) : Prop := s.pc = .next ∨ ∃ todo b, s.pc = .handling todo b

/-- What the `for` has left is a suffix of the batch, without the channel it is at, and nothing in
it has been removed. -/
structure Sound (s : Dispatch) : Prop where
  agrees : s.epoller.Agrees
  size : 0 < s.eventsSize
  handle : s.eventHandle = true ↔ s.Dispatching
  nodup : s.activeChnnels.Nodup
  suffix : s.rest <:+ s.activeChnnels
  current : ∀ c, s.currentActiveChnnel = some c → c :: s.rest <:+ s.activeChnnels
  idle : s.eventHandle = false → s.rest = [] ∧ s.currentActiveChnnel = none
  cleared : s.pc = .poll → s.activeChnnels = []
  registered : ∀ c ∈ s.rest, (s.epoller.objects c).addedToLoop = true
  handing : ∀ c, s.eventHanding c = true ↔
    s.currentActiveChnnel = some c ∧ ∃ todo b, s.pc = .handling todo b

section

variable {s t : Dispatch}

theorem init_sound (tid : Tid) (fd : ChnnelPtr → Fd)
    (callBackSet : ChnnelPtr → EventCallBack → Bool) : (init tid fd callBackSet).Sound := by
  constructor <;> simp [init, cEventsInitSize, Dispatching, Epoller.init_agrees]

theorem mem_filled {ready : List Ready} {x : ChnnelPtr × PollBits} (h : x ∈ s.filled ready) :
    ∃ r ∈ ready, ∃ e, s.epoller.interest r.fd = some e ∧ x = (e.ptr, r.revents) := by
  obtain ⟨r, hr, hx⟩ := List.mem_filterMap.mp h
  obtain ⟨e, he, rfl⟩ := Option.map_eq_some_iff.mp hx
  exact ⟨r, hr, e, he, rfl⟩

/-- The entries that `epoll_wait` writes are about channels on the descriptors it reports. -/
theorem map_fd_filled (h : s.epoller.Agrees) {ready : List Ready}
    (hin : ∀ r ∈ ready, ∃ e ∈ s.epoller.interest r.fd, r.revents.Reportable e.events) :
    (s.filled ready).map (fun x ↦ (s.epoller.objects x.1).fd) = ready.map (·.fd) := by
  induction ready with
  | nil => rfl
  | cons r ready ih =>
    obtain ⟨e, he, -⟩ := hin r List.mem_cons_self
    have hfilled : s.filled (r :: ready) = (e.ptr, r.revents) :: s.filled ready := by
      unfold filled
      exact List.filterMap_cons_some (by rw [Option.mem_def.mp he]; rfl)
    rw [hfilled, List.map_cons, List.map_cons, ih fun r' hr' ↦ hin r' (List.mem_cons_of_mem r hr')]
    show (s.epoller.objects e.ptr).fd :: _ = _
    rw [(h.owned r.fd e he).1]

/-- The kernel reports a channel once. -/
theorem nodup_filled (h : s.epoller.Agrees) {ready : List Ready} (hwait : s.EpollWait ready) :
    ((s.filled ready).map (·.1)).Nodup := by
  have hfds : ((s.filled ready).map (·.1)).map (fun c ↦ (s.epoller.objects c).fd) =
      ready.map (·.fd) := by
    rw [List.map_map]
    exact map_fd_filled h hwait.2.2
  have hnodup := hwait.2.1
  rw [← hfds] at hnodup
  exact hnodup.of_map

/-- A channel that is reported is in use. -/
theorem addedToLoop_of_filled (h : s.epoller.Agrees) {ready : List Ready} {c : ChnnelPtr}
    (hc : c ∈ (s.filled ready).map (·.1)) : (s.epoller.objects c).addedToLoop = true := by
  obtain ⟨x, hx, rfl⟩ := List.mem_map.mp hc
  obtain ⟨r, -, e, he, rfl⟩ := mem_filled hx
  have hflag := (h.owned r.fd e he).2
  exact (h.inUse e.ptr).mpr (by simp [hflag])

theorem Sound.eventHandle_of_mem_rest (h : s.Sound) {c : ChnnelPtr} (hc : c ∈ s.rest) :
    s.eventHandle = true := by
  by_contra hnot
  rw [(h.idle (Bool.eq_false_iff.mpr hnot)).1] at hc
  cases hc

/-- The channel at hand is not among those still to come. -/
theorem Sound.current_not_mem (h : s.Sound) {c : ChnnelPtr}
    (hc : s.currentActiveChnnel = some c) : c ∉ s.rest := by
  have hnodup : (c :: s.rest).Nodup := h.nodup.sublist (h.current c hc).sublist
  exact (List.nodup_cons.mp hnodup).1

/-- A call that succeeds does not remove what the `for` has still to reach. -/
theorem Sound.call_registered (h : s.Sound) {l : Epoller.Label} {e : Epoller}
    (hl : s.epoller.Allowed l) (hrel : s.Releasable l) (he : s.epoller.call l = .ok e)
    {c : ChnnelPtr} (hc : c ∈ s.rest) : (e.objects c).addedToLoop = true := by
  have hstep : s.epoller.step l = some e := by
    unfold Epoller.step
    rw [he]
    rfl
  rw [Epoller.step_addedToLoop h.agrees hl hstep c]
  unfold Epoller.note
  by_cases hl' : l.chnnel = c
  · rw [if_pos hl']
    cases l with
    | remove c' =>
      have hcc : c' = c := hl'
      subst hcc
      exfalso
      rcases hrel c' rfl (h.eventHandle_of_mem_rest hc) with hcur | hout
      · exact h.current_not_mem hcur hc
      · exact hout (h.suffix.subset hc)
    | enableReading | enableWriting | disableReading | disableWriting | diableAll => rfl
  · rw [if_neg hl']
    exact h.registered c hc

theorem call_agrees {l : Epoller.Label} {e : Epoller} (h : s.epoller.Agrees)
    (hl : s.epoller.Allowed l) (he : s.epoller.call l = .ok e) : e.Agrees := by
  obtain ⟨e', hstep, hagrees⟩ := Epoller.step_agrees h hl
  unfold Epoller.step at hstep
  rw [he] at hstep
  cases hstep
  exact hagrees

theorem step_sound {l : Label} (h : s.Sound) (hl : s.Allowed l) (hstep : s.step l = some t) :
    t.Sound := by
  cases step_cases h.size hstep with
  | @call l e _ hrel he =>
    exact { h with
      agrees := call_agrees h.agrees hl he
      registered := fun c hc ↦ h.call_registered hl hrel he hc }
  | tie => exact { h with }
  | turn hpc =>
    have hoff : s.eventHandle = false := by
      rw [Bool.eq_false_iff]
      intro hon
      simpa [Dispatching, hpc] using h.handle.mp hon
    obtain ⟨hrest, hcur⟩ := h.idle hoff
    refine { h with handle := ?_, nodup := List.nodup_nil, suffix := ?_, current := ?_,
                    cleared := fun _ ↦ rfl, handing := fun c ↦ ?_ }
    · simp [Dispatching, hoff]
    · simp [hrest]
    · simp [hcur]
    · have hhand := h.handing c
      simpa [hpc] using hhand
  | @poll ready revents hpc hwait hown =>
    have hempty := h.cleared hpc
    have hnodup := nodup_filled h.agrees hwait
    have hcur : s.currentActiveChnnel = none := by
      have hoff : s.eventHandle = false := by
        rw [Bool.eq_false_iff]
        intro hon
        simpa [Dispatching, hpc] using h.handle.mp hon
      exact (h.idle hoff).2
    refine { agrees := h.agrees, size := ?_, handle := ?_, nodup := ?_,
             suffix := List.suffix_rfl, current := ?_, idle := ?_, cleared := ?_,
             registered := fun c hc ↦ ?_, handing := fun c ↦ ?_ }
    · have hsize := h.size
      by_cases hfull : (s.filled ready).length = s.eventsSize
      · simp [hfull, hsize]
      · simp [hfull, hsize]
    · simp [Dispatching]
    · simpa [hempty] using hnodup
    · simp [hcur]
    · simp
    · simp
    · rw [hempty, List.nil_append] at hc
      exact addedToLoop_of_filled h.agrees hc
    · have hhand := h.handing c
      simpa [hpc, hcur] using hhand
  | @enter c rest hpc hrest =>
    have hon : s.eventHandle = true := h.eventHandle_of_mem_rest (hrest ▸ List.mem_cons_self)
    have hsuffix := h.suffix
    have hreg := h.registered
    rw [hrest] at hsuffix hreg
    refine { h with handle := ?_, suffix := (List.suffix_cons c rest).trans hsuffix,
                    current := ?_, idle := ?_, cleared := ?_,
                    registered := fun c' hc' ↦ hreg c' (List.mem_cons_of_mem c hc'),
                    handing := fun c' ↦ ?_ }
    · simp [Dispatching, hon]
    · rintro c' hc'
      cases hc'
      exact hsuffix
    · simp [hon]
    · simp
    · have hhand := h.handing c'
      by_cases hc : c' = c
      · subst hc
        simp
      · simpa [hpc, hc, Ne.symm hc] using hhand
  | @skip c rest hpc hrest htied =>
    have hon : s.eventHandle = true := h.eventHandle_of_mem_rest (hrest ▸ List.mem_cons_self)
    have hsuffix := h.suffix
    have hreg := h.registered
    rw [hrest] at hsuffix hreg
    refine { h with handle := ?_, suffix := (List.suffix_cons c rest).trans hsuffix,
                    current := ?_, idle := ?_, cleared := ?_,
                    registered := fun c' hc' ↦ hreg c' (List.mem_cons_of_mem c hc'),
                    handing := fun c' ↦ ?_ }
    · simp [Dispatching, hon, hpc]
    · rintro c' hc'
      cases hc'
      exact hsuffix
    · simp [hon]
    · simp [hpc]
    · have hhand := h.handing c'
      simpa [hpc] using hhand
  | forEnd hpc hrest =>
    refine { h with handle := ?_, current := ?_, idle := ?_, cleared := ?_,
                    handing := fun c ↦ ?_ }
    · simp [Dispatching]
    · simp
    · simp [hrest]
    · simp
    · have hhand := h.handing c
      simpa [hpc] using hhand
  | @callBack f todo b c hpc hcur =>
    refine { h with handle := ?_, cleared := ?_, handing := fun c' ↦ ?_ }
    · have hhandle := h.handle
      simpa [Dispatching, hpc] using hhandle
    · simp
    · have hhand := h.handing c'
      simpa [hpc] using hhand
  | @handled b c hpc hcur =>
    refine { h with handle := ?_, cleared := ?_, handing := fun c' ↦ ?_ }
    · have hhandle := h.handle
      simpa [Dispatching, hpc] using hhandle
    · simp
    · have hhand := h.handing c'
      by_cases hc : c' = c
      · subst hc
        simp
      · simpa [hpc, hc, hcur, Ne.symm hc] using hhand

theorem run_sound {ls : List Label} (h : s.Sound) (hls : Trace.Along step Allowed s ls)
    (hrun : Trace.run step s ls = some t) : t.Sound :=
  Trace.run_inv_along (fun _ _ _ hs hl hstep ↦ step_sound hs hl hstep) h hls hrun

/-- An allowed call faults exactly when it removes another channel of the batch. -/
theorem Sound.call_error_iff (h : s.Sound) {l : Epoller.Label} (hl : s.epoller.Allowed l) :
    (∃ fault, s.call l = .error fault) ↔
      ∃ c, l = .remove c ∧ s.eventHandle = true ∧ c ∈ s.activeChnnels ∧
        s.currentActiveChnnel ≠ some c := by
  obtain ⟨e, he, -⟩ := Epoller.step_agrees h.agrees hl
  have hcall : s.epoller.call l = .ok e := by
    unfold Epoller.step at he
    cases hx : s.epoller.call l with
    | ok e' =>
      rw [hx] at he
      cases he
      rfl
    | error fault =>
      rw [hx] at he
      cases he
  have hrel : s.Releasable l ↔ ∃ t, s.call l = .ok t :=
    ⟨fun hr ↦ ⟨_, call_eq_ok.mpr ⟨hr, e, hcall, rfl⟩⟩, fun ⟨_, ht⟩ ↦ (call_eq_ok.mp ht).1⟩
  have herror : (∃ fault, s.call l = .error fault) ↔ ¬ ∃ t, s.call l = .ok t := by
    cases s.call l <;> simp
  rw [herror, ← hrel]
  unfold Releasable
  constructor
  · intro hnot
    by_contra hnone
    refine hnot fun c hc hon ↦ ?_
    by_contra hbatch
    rw [not_or, not_not] at hbatch
    exact hnone ⟨c, hc, hon, hbatch.2, hbatch.1⟩
  · rintro ⟨c, hc, hon, hmem, hcur⟩ hrelease
    exact (hrelease c hc hon).elim hcur fun hout ↦ hout hmem

/-- A channel that is being handled or still to come cannot be destroyed, on any thread. -/
theorem Sound.destroyChnnel_error (h : s.Sound) {c : ChnnelPtr}
    (hc : c ∈ s.rest ∨ s.eventHanding c = true) (thread : Tid) :
    s.destroyChnnel thread c = .error .assertion := by
  unfold destroyChnnel LoopChnnels.destroyChnnel
  by_cases hhand : s.eventHanding c = true
  · rw [hhand]
    rfl
  · have huse := h.registered c (hc.resolve_right hhand)
    rw [Bool.eq_false_iff.mpr hhand]
    simp only [huse]
    rfl

/-- **Dispatching is safe.**  In every run in which user code keeps to the rules of the `Epoller`,
the batch has each channel once, what is left of it is in use and in the map, on no thread can it be
destroyed, and the calls that fault are the removals of another channel of the batch. -/
theorem dispatch_safe (tid : Tid) (fd : ChnnelPtr → Fd)
    (callBackSet : ChnnelPtr → EventCallBack → Bool) {ls : List Label}
    (hls : Trace.Along step Allowed (init tid fd callBackSet) ls)
    (hrun : Trace.run step (init tid fd callBackSet) ls = some s) :
    s.activeChnnels.Nodup ∧ s.rest <:+ s.activeChnnels ∧
      (∀ c ∈ s.rest, (s.epoller.objects c).addedToLoop = true ∧
        s.epoller.chnnels (s.epoller.objects c).fd = some c) ∧
      (∀ c, c ∈ s.rest ∨ s.eventHanding c = true →
        ∀ thread, s.destroyChnnel thread c = .error .assertion) ∧
      ∀ l, s.epoller.Allowed l → ((∃ fault, s.call l = .error fault) ↔
        ∃ c, l = .remove c ∧ s.eventHandle = true ∧ c ∈ s.activeChnnels ∧
          s.currentActiveChnnel ≠ some c) := by
  have h : s.Sound := run_sound (init_sound tid fd callBackSet) hls hrun
  refine ⟨h.nodup, h.suffix, fun c hc ↦ ⟨h.registered c hc, ?_⟩,
    fun c hc thread ↦ h.destroyChnnel_error hc thread, fun l hl ↦ h.call_error_iff hl⟩
  exact (h.agrees.mapped c).mpr ((h.agrees.inUse c).mp (h.registered c hc))

/-- The descriptors 0 and 1 are readable; the handler of the first channel runs. -/
def twoReady : List Label :=
  let readable : PollBits := ⟨true, false, false, false, false, false, false, false⟩
  [.call (.enableReading 0), .call (.enableReading 1), .turn,
    .poll [⟨0, readable⟩, ⟨1, readable⟩], .next true, .callBack]

theorem twoReady_allowed :
    Trace.Along step Allowed (init 7 (fun c ↦ c) fun _ _ ↦ true) twoReady := by
  refine ⟨?_, fun s₁ h₁ ↦ ⟨?_, fun _ _ ↦ ⟨trivial, fun _ _ ↦ ⟨trivial, fun _ _ ↦ ⟨trivial,
    fun _ _ ↦ ⟨trivial, fun _ _ ↦ trivial⟩⟩⟩⟩⟩⟩
  · intro c' _ huse
    simp [init, Epoller.init] at huse
  · cases h₁
    intro c' hfd _
    by_cases hc : c' = 0
    · subst hc
      simp [init, Epoller.init, Epoller.setObject, Epoller.setFlag] at hfd
    · simp [init, Epoller.init, Epoller.setObject, Epoller.setFlag, hc] at hfd
      exact_mod_cast hfd

theorem dispatch_safe_two_ready :
    ∃ s, Trace.run step (init 7 (fun c ↦ c) fun _ _ ↦ true) twoReady = some s ∧
      s.called = [(0, .read)] ∧ s.destroyChnnel 7 1 = .error .assertion := by
  obtain ⟨s, hs⟩ : ∃ s, Trace.run step (init 7 (fun c ↦ c) fun _ _ ↦ true) twoReady = some s :=
    ⟨_, rfl⟩
  have hsafe := dispatch_safe 7 (fun c ↦ c) (fun _ _ ↦ true) twoReady_allowed hs
  have hrest : s.rest = [1] ∧ s.called = [(0, .read)] := by
    cases hs
    exact ⟨rfl, rfl⟩
  exact ⟨s, hs, hrest.2, hsafe.2.2.2.1 1 (.inl (by simp [hrest.1])) 7⟩

end

/-! ## 4. What is handled -/

/-- The callbacks of the channel at hand that are still to be called. -/
def openCalls (s : Dispatch) : List (ChnnelPtr × EventCallBack) :=
  match s.pc, s.currentActiveChnnel with
  | .handling todo _, some c => todo.map (c, ·)
  | _, _ => []

/-- What has been called and what is open are the callbacks of the events that were reported. -/
structure Logged (s : Dispatch) : Prop where
  account : s.called ++ s.openCalls = s.dispatched.flatMap fun c ↦ (s.callBacksOf c).map (c, ·)
  order : (s.dispatched ++ s.rest).Sublist s.activeChnnels
  skipped : ∀ c ∈ s.activeChnnels, c ∈ s.dispatched ∨ c ∈ s.rest ∨ s.tied c = true
  reported : ∀ c ∈ s.activeChnnels, ∃ e,
    s.polled.interest (s.polled.objects c).fd = some ⟨e, c⟩ ∧ (s.revents c).Reportable e

section

variable {s t : Dispatch}

theorem init_logged (tid : Tid) (fd : ChnnelPtr → Fd)
    (callBackSet : ChnnelPtr → EventCallBack → Bool) : (init tid fd callBackSet).Logged := by
  constructor <;> simp [init, openCalls]

theorem step_logged {l : Label} (hs : s.Sound) (h : s.Logged) (hstep : s.step l = some t) :
    t.Logged := by
  cases step_cases hs.size hstep with
  | call => exact { h with }
  | @tie c =>
    refine { h with skipped := fun c' hc' ↦ ?_ }
    rcases h.skipped c' hc' with hd | hr | ht
    · exact .inl hd
    · exact .inr (.inl hr)
    · refine .inr (.inr ?_)
      by_cases hc : c' = c
      · simp [hc]
      · simpa [hc] using ht
  | turn hpc =>
    have hoff : s.eventHandle = false := by
      rw [Bool.eq_false_iff]
      intro hon
      simpa [Dispatching, hpc] using hs.handle.mp hon
    constructor <;> simp [openCalls, (hs.idle hoff).1]
  | @poll ready revents hpc hwait hown =>
    have hempty := hs.cleared hpc
    have horder := h.order
    rw [hempty, List.sublist_nil, List.append_eq_nil_iff] at horder
    have haccount := h.account
    simp only [openCalls, hpc, horder.1, List.flatMap_nil, List.append_nil] at haccount
    refine ⟨?_, ?_, fun c hc ↦ .inr (.inl hc), fun c hc ↦ ?_⟩
    · simp [openCalls, horder.1, haccount]
    · simp [horder.1]
    · rw [hempty, List.nil_append] at hc
      obtain ⟨x, hx, rfl⟩ := List.mem_map.mp hc
      have hrevents := hown (nodup_filled hs.agrees hwait) x hx
      obtain ⟨r, hr, e, he, rfl⟩ := mem_filled hx
      obtain ⟨e', he', hreport⟩ := hwait.2.2 r hr
      rw [Option.mem_def, he, Option.some.injEq] at he'
      subst he'
      refine ⟨e.events, ?_, ?_⟩
      · show s.epoller.interest (s.epoller.objects e.ptr).fd = _
        rw [(hs.agrees.owned r.fd e he).1, he]
      · show (revents e.ptr).Reportable e.events
        rw [hrevents]
        exact hreport
  | @enter c rest hpc hrest =>
    have haccount := h.account
    have horder := h.order
    simp only [openCalls, hpc, List.append_nil] at haccount
    rw [hrest] at horder
    refine { h with account := ?_, order := ?_, skipped := fun c' hc' ↦ ?_ }
    · show s.called ++ (s.callBacksOf c).map (c, ·) =
        (s.dispatched ++ [c]).flatMap fun c ↦ (s.callBacksOf c).map (c, ·)
      rw [List.flatMap_append, haccount]
      simp
    · simpa using horder
    · rcases h.skipped c' hc' with hd | hr | ht
      · exact .inl (List.mem_append_left _ hd)
      · rw [hrest] at hr
        rcases List.mem_cons.mp hr with rfl | hr
        · exact .inl (by simp)
        · exact .inr (.inl hr)
      · exact .inr (.inr ht)
  | @skip c rest hpc hrest htied =>
    have haccount := h.account
    have horder := h.order
    simp only [openCalls, hpc, List.append_nil] at haccount
    rw [hrest] at horder
    refine { h with account := ?_, order := ?_, skipped := fun c' hc' ↦ ?_ }
    · show s.called ++ openCalls _ = _
      simp only [openCalls, hpc, List.append_nil]
      exact haccount
    · exact (List.Sublist.append (List.Sublist.refl _) (List.sublist_cons_self c rest)).trans horder
    · rcases h.skipped c' hc' with hd | hr | ht
      · exact .inl hd
      · rw [hrest] at hr
        rcases List.mem_cons.mp hr with rfl | hr
        · exact .inr (.inr htied)
        · exact .inr (.inl hr)
      · exact .inr (.inr ht)
  | forEnd hpc hrest =>
    have haccount := h.account
    simp only [openCalls, hpc] at haccount
    exact { h with account := haccount }
  | @callBack f todo b c hpc hcur =>
    have haccount := h.account
    simp only [openCalls, hpc, hcur] at haccount
    refine { h with account := ?_ }
    show (s.called ++ [(c, f)]) ++ openCalls _ = _
    simp only [openCalls, hcur]
    rw [List.append_assoc]
    exact haccount
  | @handled b c hpc hcur =>
    have haccount := h.account
    simp only [openCalls, hpc, hcur] at haccount
    exact { h with account := haccount }

theorem run_logged {ls : List Label} (hs : s.Sound) (h : s.Logged)
    (hls : Trace.Along step Allowed s ls) (hrun : Trace.run step s ls = some t) :
    t.Sound ∧ t.Logged :=
  Trace.run_inv_along (I := fun s ↦ s.Sound ∧ s.Logged)
    (fun _ _ _ h hl hstep ↦ ⟨step_sound h.1 hl hstep, step_logged h.1 h.2 hstep⟩) ⟨hs, h⟩ hls hrun

/-- **What was reported is what is handled.**  In every run, the callbacks called in a batch and
those still open are, in the order of the batch and each channel at most once, the callbacks of the
events that `epoll_wait` reported; a channel is left out only if it is tied; and a read or write
callback was asked for when `epoll_wait` returned, whatever the handlers before it have changed. -/
theorem dispatch_reported (tid : Tid) (fd : ChnnelPtr → Fd)
    (callBackSet : ChnnelPtr → EventCallBack → Bool) {ls : List Label}
    (hls : Trace.Along step Allowed (init tid fd callBackSet) ls)
    (hrun : Trace.run step (init tid fd callBackSet) ls = some s) :
    s.called ++ s.openCalls = s.dispatched.flatMap (fun c ↦ (s.callBacksOf c).map (c, ·)) ∧
      (s.dispatched ++ s.rest).Sublist s.activeChnnels ∧ s.dispatched.Nodup ∧
      (∀ c ∈ s.activeChnnels, s.tied c = false → c ∈ s.dispatched ∨ c ∈ s.rest) ∧
      ∀ c f, (c, f) ∈ s.called → s.callBackSet c f = true ∧ ∃ e,
        s.polled.interest (s.polled.objects c).fd = some ⟨e, c⟩ ∧
          (f = .read → e.read = true) ∧ (f = .write → e.write = true) := by
  obtain ⟨hs, h⟩ :=
    run_logged (init_sound tid fd callBackSet) (init_logged tid fd callBackSet) hls hrun
  have hactive : s.dispatched.Sublist s.activeChnnels :=
    (List.sublist_append_left _ _).trans h.order
  refine ⟨h.account, h.order, hs.nodup.sublist hactive, fun c hc htied ↦ ?_, fun c f hcall ↦ ?_⟩
  · rcases h.skipped c hc with hd | hr | ht
    · exact .inl hd
    · exact .inr hr
    · rw [htied] at ht
      cases ht
  · have hmem : (c, f) ∈ s.dispatched.flatMap fun c ↦ (s.callBacksOf c).map (c, ·) := by
      rw [← h.account]
      exact List.mem_append_left _ hcall
    obtain ⟨c', hc', hf⟩ := List.mem_flatMap.mp hmem
    obtain ⟨f', hf', heq⟩ := List.mem_map.mp hf
    cases heq
    obtain ⟨hbits, hset⟩ := List.mem_filter.mp hf'
    obtain ⟨e, he, hreport⟩ := h.reported c (hactive.subset hc')
    exact ⟨hset, e, he, PollBits.Reportable.mask hreport hbits⟩

theorem dispatch_reported_two_ready :
    ∃ s, Trace.run step (init 7 (fun c ↦ c) fun _ _ ↦ true) twoReady = some s ∧
      s.called = [(0, .read)] ∧ ∃ e, s.polled.interest (s.polled.objects 0).fd = some ⟨e, 0⟩ ∧
        e.read = true := by
  obtain ⟨s, hs⟩ : ∃ s, Trace.run step (init 7 (fun c ↦ c) fun _ _ ↦ true) twoReady = some s :=
    ⟨_, rfl⟩
  have hcalled : s.called = [(0, .read)] := by
    cases hs
    rfl
  obtain ⟨-, e, he, hread, -⟩ := (dispatch_reported 7 (fun c ↦ c) (fun _ _ ↦ true)
    twoReady_allowed hs).2.2.2.2 0 .read (by simp [hcalled])
  exact ⟨s, hs, hcalled, e, he, hread rfl⟩

end

/-! ## 5. The vector of events -/

/-- No more than `n` descriptors are watched. -/
def Watched (n : Nat) (s : Dispatch) : Prop :=
  ∃ fds : Finset Fd, fds.card ≤ n ∧ ∀ fd e, s.epoller.interest fd = some e → fd ∈ fds

/-- Whenever the loop polls, no more than `n` descriptors are watched. -/
def PollsWatched (n : Nat) (s : Dispatch) : Label → Prop
  | .poll _ => s.Watched n
  | _ => True

structure Sized (n : Nat) (s : Dispatch) : Prop where
  doubled : s.eventsSize = cEventsInitSize * 2 ^ s.fullPolls
  bound : s.eventsSize ≤ max cEventsInitSize (2 * n)

section

variable {s t : Dispatch} {n : Nat}

theorem Sized.pos (h : s.Sized n) : 0 < s.eventsSize := by
  rw [h.doubled]
  unfold cEventsInitSize
  positivity

theorem init_sized (tid : Tid) (fd : ChnnelPtr → Fd)
    (callBackSet : ChnnelPtr → EventCallBack → Bool) : (init tid fd callBackSet).Sized n where
  doubled := rfl
  bound := le_max_left _ _

theorem Watched.length_le (h : s.Watched n) {ready : List Ready} (hwait : s.EpollWait ready) :
    ready.length ≤ n := by
  obtain ⟨fds, hcard, hmem⟩ := h
  have hsub : (ready.map (·.fd)).toFinset ⊆ fds := by
    intro fd hfd
    obtain ⟨r, hr, rfl⟩ := List.mem_map.mp (List.mem_toFinset.mp hfd)
    obtain ⟨e, he, -⟩ := hwait.2.2 r hr
    exact hmem r.fd e he
  have hlen := List.toFinset_card_of_nodup hwait.2.1
  rw [List.length_map] at hlen
  calc ready.length = (ready.map (·.fd)).toFinset.card := hlen.symm
    _ ≤ fds.card := Finset.card_le_card hsub
    _ ≤ n := hcard

theorem step_sized {l : Label} (h : s.Sized n) (hl : s.PollsWatched n l)
    (hstep : s.step l = some t) : t.Sized n := by
  cases step_cases h.pos hstep with
  | @poll ready revents hpc hwait hown =>
    have hlen : (s.filled ready).length ≤ n :=
      (s.length_filled ready).trans (Watched.length_le hl hwait)
    by_cases hfull : (s.filled ready).length = s.eventsSize
    · refine ⟨?_, ?_⟩
      · show (if _ then _ else _) = cEventsInitSize * 2 ^ (if _ then _ else _)
        rw [if_pos hfull, if_pos hfull, h.doubled, pow_succ, mul_assoc]
      · -- a full vector held as many descriptors as there are entries
        show (if _ then _ else _) ≤ _
        rw [if_pos hfull]
        have htwice : s.eventsSize * 2 ≤ 2 * n := by omega
        exact htwice.trans (le_max_right _ _)
    · refine ⟨?_, ?_⟩
      · show (if _ then _ else _) = cEventsInitSize * 2 ^ (if _ then _ else _)
        rw [if_neg hfull, if_neg hfull]
        exact h.doubled
      · show (if _ then _ else _) ≤ _
        rw [if_neg hfull]
        exact h.bound
  | call | tie | turn | enter | skip | forEnd | callBack | handled => exact { h with }

/-- **Room for the events.**  In every run `_events` has eight entries, doubled each time the kernel
filled it; where at most `n` descriptors are watched at the polls it stays within twice that many,
so for less than 2^30 descriptors its size is an `int`; and no report of the kernel fails the
assertion of `fillActiveChnnels`. -/
theorem events_sized (tid : Tid) (fd : ChnnelPtr → Fd)
    (callBackSet : ChnnelPtr → EventCallBack → Bool) {ls : List Label}
    (hls : Trace.Along step (PollsWatched n) (init tid fd callBackSet) ls)
    (hrun : Trace.run step (init tid fd callBackSet) ls = some s) :
    s.eventsSize = 8 * 2 ^ s.fullPolls ∧ s.eventsSize ≤ max 8 (2 * n) ∧
      (n < 2 ^ 30 → s.eventsSize < 2 ^ 31) ∧
      ∀ ready, s.EpollWait ready → ∃ t, s.poll (s.filled ready) = .ok t := by
  have h : s.Sized n := Trace.run_inv_along
    (fun _ _ _ hs hl hstep ↦ step_sized hs hl hstep) (init_sized tid fd callBackSet) hls hrun
  refine ⟨h.doubled, h.bound, fun hn ↦ ?_, fun ready hwait ↦ ?_⟩
  · have hbound : s.eventsSize ≤ max 8 (2 * n) := h.bound
    omega
  · obtain ⟨revents, -, -, heq⟩ := poll_eq ((s.length_filled ready).trans hwait.1) h.pos
    exact ⟨_, heq⟩

/-- Eight channels are readable at once. -/
def eightReady : List Ready :=
  [0, 1, 2, 3, 4, 5, 6, 7].map fun fd ↦
    ⟨fd, true, false, false, false, false, false, false, false⟩

def eightEnabled : List Label :=
  [0, 1, 2, 3, 4, 5, 6, 7].map (fun c ↦ .call (.enableReading c)) ++ [.turn]

theorem events_sized_full :
    ∃ s, Trace.run step (init 7 (fun c ↦ c) fun _ _ ↦ true)
        (eightEnabled ++ [.poll eightReady]) = some s ∧
      s.eventsSize = 16 ∧ s.eventsSize ≤ max 8 (2 * 8) := by
  obtain ⟨s, hs⟩ : ∃ s, Trace.run step (init 7 (fun c ↦ c) fun _ _ ↦ true)
      (eightEnabled ++ [.poll eightReady]) = some s := ⟨_, rfl⟩
  have hls : Trace.Along step (PollsWatched 8) (init 7 (fun c ↦ c) fun _ _ ↦ true)
      (eightEnabled ++ [.poll eightReady]) := by
    refine Trace.along_append.mpr ⟨Trace.along_of_forall_mem fun l hl m ↦ ?_, fun m hm ↦
      ⟨⟨{0, 1, 2, 3, 4, 5, 6, 7}, by decide, fun fd e he ↦ ?_⟩, fun _ _ ↦ trivial⟩⟩
    · simp only [eightEnabled, List.map_cons, List.map_nil, List.cons_append, List.nil_append,
        List.mem_cons, List.not_mem_nil, or_false] at hl
      rcases hl with rfl | rfl | rfl | rfl | rfl | rfl | rfl | rfl | rfl <;> trivial
    · cases hm
      by_contra hfd
      simp only [Finset.mem_insert, Finset.mem_singleton, not_or] at hfd
      simp [Epoller.setObject, Epoller.setFlag, Epoller.init, init, Function.update, hfd] at he
  refine ⟨s, hs, ?_, (events_sized 7 (fun c ↦ c) (fun _ _ ↦ true) hls hs).2.1⟩
  cases hs
  rfl

end

end Dispatch

end Netlib
