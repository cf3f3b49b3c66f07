import Netlib.Net.EventLoop

/-!
# `netlib::EventLoopThread`

A worker thread that owns an `EventLoop` on its stack, and the owner thread that starts it with
`startLoop()` and ends it in the destructor (`net/EventLoopThread.cc`).  The owner is the thread
`none` of the loop, every other thread with a pointer to the loop is some `some t`.
-/

namespace Netlib

/-- The worker in `threadFunc`. -/
inductive WorkerPc where
  | notStarted
  | construct
  | initCallBack
  | publish
  /-- At `loop.loop()`, before its first store. -/
  | callLoop
  | inLoop
  /-- Behind `loop.loop()`. -/
  | returned
  | done
deriving DecidableEq, Repr

/-- The owner in `startLoop` and then in `~EventLoopThread`. -/
inductive OwnerPc where
  | idle
  /-- In the `while(_loop == nullptr)` of `startLoop`. -/
  | waiting
  | started
  /-- In the destructor, at `if(_loop != nullptr)`. -/
  | readLoop
  | quit
  | wakeUp
  | join
  | finished
deriving DecidableEq, Repr

structure EventLoopThread (T F : Type) where
  loop : EventLoop (Option T) F
  worker : WorkerPc
  owner : OwnerPc
  /-- `_loop != nullptr`. -/
  published : Bool
  exiting : Bool
  /-- Some thread has executed the store of `quit()` on this loop. -/
  quitExecuted : Bool

namespace EventLoopThread

variable {T F : Type}

inductive Label (T F : Type) where
  | start
  | construct
  | initReturn
  | publish
  | startLoopReturn
  | destroy
  | readLoop
  | quit
  | wakeUp
  | join
  | clearLoop
  /-- A step of the loop itself: of the worker inside it, or of a thread other than the owner. -/
  | loop (l : EventLoop.Label (Option T) F)

def init : EventLoopThread T F where
  loop := .init
  worker := .notStarted
  owner := .idle
  published := false
  exiting := false
  quitExecuted := false

/-- Between the construction of the loop and its destruction at the end of `threadFunc`. -/
def loopAlive : WorkerPc → Bool
  | .initCallBack | .publish | .callLoop | .inLoop | .returned => true
  | .notStarted | .construct | .done => false

/-- Which steps of the loop are possible by where the worker is, and where it is after them.  The
init callback is user code outside `loop()`; `loop()` returns from its test of `_quit`. -/
def workerNext (quit : Bool) : WorkerPc → EventLoop.Label (Option T) F → Option WorkerPc
  | w, .push (some _) _ | w, .quit (some _) | w, .wakeUp (some _) =>
    if loopAlive w then some w else none
  | _, .push none _ | _, .quit none | _, .wakeUp none => none
  | .initCallBack, .queueInLoop _ | .initCallBack, .wakeTest | .initCallBack, .quitInLoop =>
    some .initCallBack
  | .callLoop, .enter => some .inLoop
  | .inLoop, .enter => none
  | .inLoop, .testQuit => some (if quit then .returned else .inLoop)
  | .inLoop, _ => some .inLoop
  | _, _ => none

def isQuit : EventLoop.Label (Option T) F → Bool
  | .quit _ | .quitInLoop => true
  | _ => false

def step [DecidableEq T] (s : EventLoopThread T F) : Label T F → Option (EventLoopThread T F)
  | .start =>
    -- assert(!_thread.started())
    if s.worker = .notStarted ∧ s.owner = .idle then
      some { s with owner := .waiting, worker := .construct }
    else none
  | .construct =>
    if s.worker = .construct then some { s with worker := .initCallBack } else none
  | .initReturn =>
    if s.worker = .initCallBack ∧ s.loop.pc = .user .outside then some { s with worker := .publish }
    else none
  | .publish =>
    if s.worker = .publish then some { s with published := true, worker := .callLoop } else none
  | .startLoopReturn =>
    if s.owner = .waiting ∧ s.published then some { s with owner := .started } else none
  | .destroy =>
    if s.owner = .started then some { s with exiting := true, owner := .readLoop } else none
  | .readLoop =>
    -- the destructor reads `_loop` without the mutex
    if s.owner = .readLoop then
      some { s with owner := if s.published then .quit else .finished }
    else none
  | .quit =>
    if s.owner = .quit then
      (s.loop.step (.quit none)).map fun loop ↦
        { s with loop := loop, quitExecuted := true, owner := .wakeUp }
    else none
  | .wakeUp =>
    if s.owner = .wakeUp then
      (s.loop.step (.wakeUp none)).map fun loop ↦ { s with loop := loop, owner := .join }
    else none
  | .join => if s.owner = .join ∧ s.worker = .done then some { s with owner := .finished } else none
  | .clearLoop =>
    if s.worker = .returned then some { s with published := false, worker := .done } else none
  | .loop l =>
    (workerNext s.loop.quit s.worker l).bind fun w ↦
      (s.loop.step l).map fun loop ↦
        { s with loop := loop, worker := w, quitExecuted := s.quitExecuted || isQuit l }

/-- Once `quit()` was executed, `_quit` is set until `loop()` has returned. -/
def QuitKept (s : EventLoopThread T F) : Prop :=
  s.quitExecuted = true → s.worker ≠ .returned → s.worker ≠ .done → s.loop.quit = true

/-- The `_quit = false` at the head of `loop()`. -/
def isEntry : Label T F → Bool
  | .loop .enter => true
  | _ => false

/-- The step is not the `_quit = false` of `loop()` made behind a `quit()`. -/
def QuitAfterEntry (s : EventLoopThread T F) (l : Label T F) : Prop :=
  isEntry l = true → s.quitExecuted = false

instance (s : EventLoopThread T F) (l : Label T F) : Decidable (s.QuitAfterEntry l) :=
  inferInstanceAs (Decidable (_ → _))

/-- Nothing but the entry of `loop()` clears the flag, and `quit()` sets it. -/
theorem loop_quit_of_step [DecidableEq T] {s t : EventLoop T F} {l : EventLoop.Label T F}
    (hstep : s.step l = some t) (hne : l ≠ .enter) : s.quit = true → t.quit = true := by
  intro hq
  cases EventLoop.step_cases hstep with
  | enter => exact (hne rfl).elim
  | quit | quitInLoop => rfl
  | push | wakeUp | queueInLoop | wakeTest | testQuit | pollReturn | handleRead | handled | callSet
  | swap | next | batchEnd | functorReturn => exact hq

theorem loop_quit_of_isQuit [DecidableEq T] {s t : EventLoop (Option T) F}
    {l : EventLoop.Label (Option T) F} (hstep : s.step l = some t) (hl : isQuit l = true) :
    t.quit = true := by
  cases EventLoop.step_cases hstep with
  | quit | quitInLoop => rfl
  | enter | push | wakeUp | queueInLoop | wakeTest | testQuit | pollReturn | handleRead | handled
  | callSet | swap | next | batchEnd | functorReturn => simp [isQuit] at hl

theorem enter_spec [DecidableEq T] {s t : EventLoop T F} (hstep : s.step .enter = some t) :
    t.quit = false := by
  cases EventLoop.step_cases hstep with
  | enter => rfl

theorem workerNext_running {quit : Bool} {w w' : WorkerPc} {l : EventLoop.Label (Option T) F}
    (h : workerNext quit w l = some w') (hr : w' ≠ .returned) : w ≠ .returned ∧ w ≠ .done := by
  constructor <;> rintro rfl <;> revert h <;> unfold workerNext <;> split <;>
    simp_all [loopAlive] <;> rintro rfl <;> simp_all

theorem step_quitKept [DecidableEq T] {s t : EventLoopThread T F} {l : Label T F}
    (h : s.QuitKept) (hgood : s.QuitAfterEntry l) (hstep : s.step l = some t) : t.QuitKept := by
  cases l with
  | loop l =>
    simp only [step, Option.bind_eq_some_iff, Option.map_eq_some_iff] at hstep
    obtain ⟨w, hw, loop, hloop, rfl⟩ := hstep
    intro hq hr hd
    simp only [Bool.or_eq_true] at hq
    obtain ⟨hr', hd'⟩ := workerNext_running hw hr
    -- a request from before, or the one made by this step
    rcases hq with hq | hq
    · by_cases hl : l = .enter
      · subst hl
        simp [QuitAfterEntry, isEntry, hq] at hgood
      · exact loop_quit_of_step hloop hl (h hq hr' hd')
    · exact loop_quit_of_isQuit hloop hq
  | quit =>
    simp only [step, Option.ite_none_right_eq_some, Option.map_eq_some_iff] at hstep
    obtain ⟨-, loop, hloop, rfl⟩ := hstep
    exact fun _ _ _ ↦ loop_quit_of_isQuit hloop rfl
  | wakeUp =>
    simp only [step, Option.ite_none_right_eq_some, Option.map_eq_some_iff] at hstep
    obtain ⟨-, loop, hloop, rfl⟩ := hstep
    exact fun hq hr hd ↦ loop_quit_of_step hloop (by simp) (h hq hr hd)
  | clearLoop =>
    simp only [step, Option.ite_none_right_eq_some, Option.some.injEq] at hstep
    obtain ⟨-, rfl⟩ := hstep
    exact fun _ _ hd ↦ (hd rfl).elim
  | start | initReturn =>
    simp only [step, Option.ite_none_right_eq_some, Option.some.injEq] at hstep
    obtain ⟨⟨hpc, -⟩, rfl⟩ := hstep
    exact fun hq _ _ ↦ h hq (by simp [hpc]) (by simp [hpc])
  | construct | publish =>
    simp only [step, Option.ite_none_right_eq_some, Option.some.injEq] at hstep
    obtain ⟨hpc, rfl⟩ := hstep
    exact fun hq _ _ ↦ h hq (by simp [hpc]) (by simp [hpc])
  | startLoopReturn | destroy | readLoop | join =>
    simp only [step, Option.ite_none_right_eq_some, Option.some.injEq] at hstep
    obtain ⟨-, rfl⟩ := hstep
    exact h

theorem step_not_quitKept [DecidableEq T] {s t : EventLoopThread T F} {l : Label T F}
    (hbad : ¬ s.QuitAfterEntry l) (hstep : s.step l = some t) : ¬ t.QuitKept := by
  have hl : l = .loop .enter ∧ s.quitExecuted = true := by
    unfold QuitAfterEntry isEntry at hbad
    split at hbad
    · exact ⟨rfl, by simpa using hbad⟩
    · simp at hbad
  obtain ⟨rfl, hq⟩ := hl
  simp only [step, Option.bind_eq_some_iff, Option.map_eq_some_iff] at hstep
  obtain ⟨w, hw, loop, hloop, rfl⟩ := hstep
  have hin : w = .inLoop := by
    unfold workerNext at hw
    split at hw <;> simp_all
  intro hkept
  have hset := hkept (by simp [hq]) (by simp [hin]) (by simp [hin])
  simp [enter_spec hloop] at hset

/-- **When a quit request survives.**  In a run of worker, owner and any other threads the flag stays
set behind every `quit()` until `loop()` has returned, in every state, exactly when no `quit()` was
executed before the worker's `_quit = false` at the entry of `loop()`. -/
theorem quit_kept_iff_after_entry [DecidableEq T] {ls : List (Label T F)} {s : EventLoopThread T F}
    (h : Trace.run step init ls = some s) :
    Trace.Always step QuitKept init ls ↔ Trace.Along step QuitAfterEntry init ls :=
  Trace.always_iff_along (I := QuitKept) (fun _ _ _ hs hp hstep ↦ step_quitKept hs hp hstep)
    (fun _ hs ↦ hs) (fun _ _ _ _ hbad hstep ↦ step_not_quitKept hbad hstep)
    (fun hq ↦ by simp [init] at hq) h

theorem quit_kept_iff_after_entry_clean_shutdown :
    Trace.Always (step (T := Empty) (F := Empty)) QuitKept init
      [.start, .construct, .initReturn, .publish, .startLoopReturn, .loop .enter, .loop .testQuit,
        .destroy, .readLoop, .quit, .wakeUp, .loop (.pollReturn true), .loop .handleRead,
        .loop .handled, .loop .callSet, .loop .swap, .loop .next, .loop .testQuit, .clearLoop,
        .join] :=
  (quit_kept_iff_after_entry (s := _) rfl).mpr (by decide)

/-- The owner's `quit()` falls between the publication of `_loop` and the entry of `loop()`: the
entry clears the flag, the worker consumes the wake-up and is back in `epoll_wait`, and the owner
waits in `join`. -/
theorem quit_overwritten_at_entry :
    ∃ s : EventLoopThread Empty Empty, Trace.run step init
        [.start, .construct, .initReturn, .publish, .startLoopReturn, .destroy, .readLoop, .quit,
          .wakeUp, .loop .enter, .loop .testQuit, .loop (.pollReturn true), .loop .handleRead,
          .loop .handled, .loop .callSet, .loop .swap, .loop .next, .loop .testQuit] = some s ∧
      s.quitExecuted = true ∧ s.worker = .inLoop ∧ s.loop.pc = .poll ∧ s.loop.wakeFd = 0 ∧
      s.loop.quit = false ∧ s.owner = .join ∧ ¬ s.QuitKept :=
  ⟨_, rfl, rfl, rfl, rfl, rfl, rfl, rfl, fun h ↦ by simpa using h rfl (by decide) (by decide)⟩

end EventLoopThread

end Netlib
