import Netlib.Lib.Run
import Netlib.Lib.BatchQueue

/-!
# `netlib::EventLoop`

One loop thread and any number of other threads (`net/EventLoop.cc`).  The loop thread is a program
counter over `loop()` and `dpPendingFunctors()`; user code runs on it in three places: outside
`loop()`, inside an event handler, and inside a pending functor.  Another thread is a program
counter over `queueInLoop` and `quit`, each a store followed by a separate `wakeUp`.  A step is one
access to what the threads share: the functor vector under its mutex, the eventfd counter, `_quit`.
-/

namespace Netlib

/-- Where the loop thread runs user code. -/
inductive UserPc where
  | outside
  /-- In the `for` over `_activeChnnels`; `wake`: the wake channel is still to be dispatched. -/
  | handle (wake : Bool)
  | functor
deriving DecidableEq, Repr

inductive LoopPc where
  | user (at_ : UserPc)
  /-- In `queueInLoop`, behind the critical section and before the test for `wakeUp`. -/
  | pushed (back : UserPc)
  /-- At `while(!_quit)`. -/
  | test
  /-- In `epoll_wait`. -/
  | poll
  /-- In `dpPendingFunctors`, before `_callPendingFunctors = true`. -/
  | callSet
  /-- Before the critical section with the swap. -/
  | swap
  /-- At the head of the `for` over the swapped vector. -/
  | next
deriving DecidableEq, Repr

inductive ForeignPc where
  | idle
  /-- In `queueInLoop`, the functor pushed and `wakeUp` still to come. -/
  | pushed
  /-- In `quit`, `_quit` set and `wakeUp` still to come. -/
  | quitSet
deriving DecidableEq, Repr

structure EventLoop (T F : Type) where
  pc : LoopPc
  quit : Bool
  /-- `_pendingFunctors` is `functors.pending`, the vector of `dpPendingFunctors` is
  `functors.batch`. -/
  functors : Batch.Queue F
  callPendingFunctors : Bool
  /-- The counter behind `_wakeFd`. -/
  wakeFd : Nat
  foreign : T → ForeignPc
  /-- How many functors had been queued when `loop()` was last entered. -/
  enteredAt : Nat
  /-- How many functors had been queued at the last swap. -/
  swappedAt : Nat

namespace EventLoop

inductive Label (T F : Type) where
  | push (t : T) (f : F)
  | quit (t : T)
  | wakeUp (t : T)
  | queueInLoop (f : F)
  | wakeTest
  | quitInLoop
  | enter
  | testQuit
  | pollReturn (wake : Bool)
  | handleRead
  | handled
  | callSet
  | swap
  | next
  | functorReturn

variable {T F : Type}

/-- A loop whose constructor has run. -/
def init : EventLoop T F where
  pc := .user .outside
  quit := false
  functors := .empty
  callPendingFunctors := false
  wakeFd := 0
  foreign := fun _ ↦ .idle
  enteredAt := 0
  swappedAt := 0

def step [DecidableEq T] (s : EventLoop T F) : Label T F → Option (EventLoop T F)
  | .push t f =>
    if s.foreign t = .idle then
      some { s with functors := s.functors.push f, foreign := Function.update s.foreign t .pushed }
    else none
  | .quit t =>
    if s.foreign t = .idle then
      some { s with quit := true, foreign := Function.update s.foreign t .quitSet }
    else none
  | .wakeUp t =>
    -- behind a push as behind a quit
    if s.foreign t = .idle then none
    else some { s with wakeFd := s.wakeFd + 1, foreign := Function.update s.foreign t .idle }
  | .queueInLoop f =>
    match s.pc with
    | .user u => some { s with functors := s.functors.push f, pc := .pushed u }
    | _ => none
  | .wakeTest =>
    match s.pc with
    | .pushed u =>
      -- !isInLoopThread() || _callPendingFunctors, on the loop thread
      some { s with wakeFd := if s.callPendingFunctors then s.wakeFd + 1 else s.wakeFd
                    pc := .user u }
    | _ => none
  | .quitInLoop =>
    match s.pc with
    | .user _ => some { s with quit := true }
    | _ => none
  | .enter =>
    match s.pc with
    | .user .outside =>
      some { s with quit := false, enteredAt := s.functors.queued.length, pc := .test }
    | _ => none
  | .testQuit =>
    match s.pc with
    | .test => some { s with pc := if s.quit then .user .outside else .poll }
    | _ => none
  | .pollReturn wake =>
    match s.pc with
    -- epoll_wait reports the wake channel only while the counter is positive
    | .poll => if wake → 0 < s.wakeFd then some { s with pc := .user (.handle wake) } else none
    | _ => none
  | .handleRead =>
    match s.pc with
    | .user (.handle true) => some { s with wakeFd := 0, pc := .user (.handle false) }
    | _ => none
  | .handled =>
    match s.pc with
    | .user (.handle false) => some { s with pc := .callSet }
    | _ => none
  | .callSet =>
    match s.pc with
    | .callSet => some { s with callPendingFunctors := true, pc := .swap }
    | _ => none
  | .swap =>
    match s.pc with
    | .swap =>
      some { s with functors := s.functors.take, swappedAt := s.functors.queued.length, pc := .next }
    | _ => none
  | .next =>
    -- the functor is taken now and its calls follow as steps of the user code
    match s.pc with
    | .next =>
      match s.functors.next with
      | some (_, q) => some { s with functors := q, pc := .user .functor }
      | none => some { s with callPendingFunctors := false, pc := .test }
    | _ => none
  | .functorReturn =>
    match s.pc with
    | .user .functor => some { s with pc := .next }
    | _ => none

/-! ## 1. What a step can do -/

section

variable [DecidableEq T]

/-- One case for each way a step can end. -/
inductive StepTo (s : EventLoop T F) : Label T F → EventLoop T F → Prop
  | push {t : T} {f : F} : s.foreign t = .idle → StepTo s (.push t f)
      { s with functors := s.functors.push f, foreign := Function.update s.foreign t .pushed }
  | quit {t : T} : s.foreign t = .idle → StepTo s (.quit t)
      { s with quit := true, foreign := Function.update s.foreign t .quitSet }
  | wakeUp {t : T} : s.foreign t ≠ .idle → StepTo s (.wakeUp t)
      { s with wakeFd := s.wakeFd + 1, foreign := Function.update s.foreign t .idle }
  | queueInLoop {u : UserPc} {f : F} : s.pc = .user u →
      StepTo s (.queueInLoop f) { s with functors := s.functors.push f, pc := .pushed u }
  | wakeTest {u : UserPc} : s.pc = .pushed u → StepTo s .wakeTest
      { s with wakeFd := if s.callPendingFunctors then s.wakeFd + 1 else s.wakeFd, pc := .user u }
  | quitInLoop {u : UserPc} : s.pc = .user u → StepTo s .quitInLoop { s with quit := true }
  | enter : s.pc = .user .outside → StepTo s .enter
      { s with quit := false, enteredAt := s.functors.queued.length, pc := .test }
  | testQuit : s.pc = .test →
      StepTo s .testQuit { s with pc := if s.quit then .user .outside else .poll }
  | pollReturn {wake : Bool} : s.pc = .poll → (wake → 0 < s.wakeFd) →
      StepTo s (.pollReturn wake) { s with pc := .user (.handle wake) }
  | handleRead : s.pc = .user (.handle true) →
      StepTo s .handleRead { s with wakeFd := 0, pc := .user (.handle false) }
  | handled : s.pc = .user (.handle false) → StepTo s .handled { s with pc := .callSet }
  | callSet : s.pc = .callSet → StepTo s .callSet { s with callPendingFunctors := true, pc := .swap }
  | swap : s.pc = .swap → StepTo s .swap
      { s with functors := s.functors.take, swappedAt := s.functors.queued.length, pc := .next }
  | next {f : F} {q : Batch.Queue F} : s.pc = .next → s.functors.next = some (f, q) →
      StepTo s .next { s with functors := q, pc := .user .functor }
  | batchEnd : s.pc = .next → s.functors.next = none →
      StepTo s .next { s with callPendingFunctors := false, pc := .test }
  | functorReturn : s.pc = .user .functor → StepTo s .functorReturn { s with pc := .next }

theorem step_cases {s t : EventLoop T F} {l : Label T F} (h : s.step l = some t) :
    StepTo s l t := by
  cases l with
  | push u f =>
    simp only [step, Option.ite_none_right_eq_some, Option.some.injEq] at h
    obtain ⟨hidle, rfl⟩ := h
    exact .push hidle
  | quit u =>
    simp only [step, Option.ite_none_right_eq_some, Option.some.injEq] at h
    obtain ⟨hidle, rfl⟩ := h
    exact .quit hidle
  | wakeUp u =>
    simp only [step, Option.ite_none_left_eq_some, Option.some.injEq] at h
    obtain ⟨hbusy, rfl⟩ := h
    exact .wakeUp hbusy
  | pollReturn wake =>
    simp only [step] at h
    split at h
    · split at h <;> cases h
      exact .pollReturn ‹_› ‹_›
    · cases h
  | next =>
    simp only [step] at h
    split at h
    · split at h <;> cases h
      · exact .next ‹_› ‹_›
      · exact .batchEnd ‹_› ‹_›
    · cases h
  | queueInLoop | wakeTest | quitInLoop | enter | testQuit | handleRead | handled | callSet | swap
  | functorReturn =>
    simp only [step] at h
    split at h <;> cases h
    constructor
    assumption

end

/-! ## 2. The functor queue -/

/-- The loop thread is between the swap and the end of the `for` over the swapped vector. -/
def InBatch (s : EventLoop T F) : Prop :=
  s.pc = .next ∨ s.pc = .user .functor ∨ s.pc = .pushed .functor

/-- What the functor vectors look like at each program counter.  Outside a batch the swapped vector
is used up, so the next swap loses nothing; inside one, what was run and what is left of the vector
are the functors queued before the swap. -/
structure Ordered (s : EventLoop T F) : Prop where
  inOrder : s.functors.InOrder
  drained : ¬ s.InBatch → s.functors.batch = []
  taken : s.InBatch →
    s.functors.executed ++ s.functors.batch = s.functors.queued.take s.swappedAt
  swappedAt_le : s.swappedAt ≤ s.functors.queued.length

theorem init_ordered : (init : EventLoop T F).Ordered where
  inOrder := rfl
  drained := fun _ ↦ rfl
  taken := fun h ↦ by simp [InBatch, init] at h
  swappedAt_le := Nat.le_refl _

/-- A step that leaves the vectors alone and does not cross the bounds of a batch. -/
theorem Ordered.of_eq {s t : EventLoop T F} (h : s.Ordered) (hf : t.functors = s.functors)
    (hs : t.swappedAt = s.swappedAt) (hb : t.InBatch ↔ s.InBatch) : t.Ordered where
  inOrder := by rw [hf]; exact h.inOrder
  drained := by rw [hf, hb]; exact h.drained
  taken := by rw [hf, hs, hb]; exact h.taken
  swappedAt_le := by rw [hf, hs]; exact h.swappedAt_le

/-- A push, by whichever thread, does not reach the batch being run. -/
theorem Ordered.push {s t : EventLoop T F} (h : s.Ordered) {f : F}
    (hf : t.functors = s.functors.push f) (hs : t.swappedAt = s.swappedAt)
    (hb : t.InBatch ↔ s.InBatch) : t.Ordered where
  inOrder := by rw [hf]; exact h.inOrder.push f
  drained := by rw [hf, hb]; exact h.drained
  taken := by
    rw [hf, hs, hb]
    intro hin
    rw [Batch.Queue.push_executed, Batch.Queue.push_batch, Batch.Queue.push_queued, h.taken hin,
      List.take_append_of_le_length h.swappedAt_le]
  swappedAt_le := by
    rw [hf, hs, Batch.Queue.push_queued, List.length_append]
    exact Nat.le_add_right_of_le h.swappedAt_le

theorem step_ordered [DecidableEq T] {s t : EventLoop T F} {l : Label T F} (h : s.Ordered)
    (hstep : s.step l = some t) : t.Ordered := by
  cases step_cases hstep with
  | push => exact h.push rfl rfl Iff.rfl
  | quit | wakeUp | quitInLoop => exact h.of_eq rfl rfl Iff.rfl
  | swap hpc =>
    -- the last batch was run to its end, so the swap replaces an empty vector
    have hnot : ¬ s.InBatch := by simp [InBatch, hpc]
    have hbatch := h.drained hnot
    have hall := h.inOrder
    refine ⟨h.inOrder.take hbatch, fun hn ↦ (hn (Or.inl rfl)).elim, fun _ ↦ ?_, Nat.le_refl _⟩
    unfold Batch.Queue.InOrder at hall
    rw [hbatch, List.append_nil] at hall
    simp only [Batch.Queue.take_executed, Batch.Queue.take_batch, Batch.Queue.take_queued, hall,
      List.take_length]
  | next hpc hnext =>
    have hin : s.InBatch := Or.inl hpc
    obtain ⟨rest, hbatch, rfl⟩ := Batch.Queue.next_eq_some.mp hnext
    refine ⟨h.inOrder.next hnext, fun hn ↦ (hn (Or.inr (Or.inl rfl))).elim, fun _ ↦ ?_,
      h.swappedAt_le⟩
    have htaken := h.taken hin
    rw [hbatch] at htaken
    simpa using htaken
  | batchEnd _ hnone =>
    have hempty : s.functors.batch = [] := Batch.Queue.next_eq_none.mp hnone
    exact ⟨h.inOrder, fun _ ↦ hempty, fun hb ↦ by simp [InBatch] at hb, h.swappedAt_le⟩
  | queueInLoop hpc => exact h.push rfl rfl (by simp [InBatch, hpc])
  | testQuit hpc =>
    refine h.of_eq rfl rfl ?_
    cases s.quit <;> simp [InBatch, hpc]
  | wakeTest hpc | enter hpc | pollReturn hpc | handleRead hpc | handled hpc | callSet hpc
  | functorReturn hpc => exact h.of_eq rfl rfl (by simp [InBatch, hpc])

theorem run_ordered [DecidableEq T] {ls : List (Label T F)} {s : EventLoop T F}
    (h : Trace.run step init ls = some s) : s.Ordered :=
  Trace.run_inv (fun _ _ _ hs hstep ↦ step_ordered hs hstep) init_ordered h

/-- **Exactly once and in order.**  In every interleaving of any threads' pushes with the loop
thread, functors that push more functors included, what `dpPendingFunctors` has run, what is left of
the vector it runs, and `_pendingFunctors` are together all the functors ever queued, in the order
they were pushed; and while a vector is being run, it and what was run before it are exactly the
functors queued before the swap, so nothing queued since is run in the same call. -/
theorem functors_exactly_once_in_order [DecidableEq T] {ls : List (Label T F)} {s : EventLoop T F}
    (h : Trace.run step init ls = some s) :
    s.functors.executed ++ s.functors.batch ++ s.functors.pending = s.functors.queued ∧
      (s.InBatch →
        s.functors.executed ++ s.functors.batch = s.functors.queued.take s.swappedAt ∧
        s.functors.pending = s.functors.queued.drop s.swappedAt) := by
  have hord := run_ordered h
  refine ⟨hord.inOrder, fun hin ↦ ⟨hord.taken hin, ?_⟩⟩
  have hall := hord.inOrder
  unfold Batch.Queue.InOrder at hall
  rw [hord.taken hin] at hall
  exact List.append_cancel_left (hall.trans (List.take_append_drop _ _).symm)

theorem functors_exactly_once_in_order_pushing_functor :
    ∃ s : EventLoop Bool Nat, Trace.run step init
        [.queueInLoop 1, .wakeTest, .enter, .push true 2, .testQuit, .pollReturn false, .handled,
          .callSet, .swap, .next, .queueInLoop 3, .push false 4, .wakeTest, .functorReturn, .next] =
          some s ∧
      s.functors.executed ++ s.functors.batch = [1, 2] ∧ s.functors.pending = [3, 4] := by
  obtain ⟨-, hbatch⟩ := functors_exactly_once_in_order (show
    Trace.run (step (T := Bool) (F := Nat)) init
      [.queueInLoop 1, .wakeTest, .enter, .push true 2, .testQuit, .pollReturn false, .handled,
        .callSet, .swap, .next, .queueInLoop 3, .push false 4, .wakeTest, .functorReturn, .next] =
      some _ from rfl)
  exact ⟨_, rfl, hbatch (Or.inr (Or.inl rfl))⟩

/-! ## 3. Wake-ups -/

/-- The pending functors that were queued since `loop()` was entered. -/
def lateFunctors (s : EventLoop T F) : List F :=
  s.functors.pending.drop (s.enteredAt - (s.functors.executed.length + s.functors.batch.length))

/-- Something will end the next `epoll_wait`: the eventfd is readable, or a thread that has pushed
is about to make it so. -/
def WakeOwed (s : EventLoop T F) : Prop := 0 < s.wakeFd ∨ ∃ t, s.foreign t = .pushed

/-- From the swap to the next `epoll_wait` no one reads the eventfd, and everything pushed in that
stretch owes a wake-up: by another thread always, by the loop thread because the flag is set. -/
structure Awake (s : EventLoop T F) : Prop where
  calling : s.callPendingFunctors = true ↔ s.pc = .swap ∨ s.InBatch
  owed : s.pc = .test ∨ s.pc = .poll ∨ s.pc = .next ∨ s.pc = .user .functor →
    s.lateFunctors ≠ [] → s.WakeOwed

theorem init_awake : (init : EventLoop T F).Awake := by
  refine ⟨?_, fun h ↦ ?_⟩ <;> simp [init, InBatch] at *

theorem step_awake [DecidableEq T] {s t : EventLoop T F} {l : Label T F} (hord : s.Ordered)
    (h : s.Awake) (hstep : s.step l = some t) : t.Awake := by
  obtain ⟨hcall, howed⟩ := h
  cases step_cases hstep with
  | @push u f => exact ⟨hcall, fun _ _ ↦ Or.inr ⟨u, Function.update_self ..⟩⟩
  | @quit u hidle =>
    refine ⟨hcall, fun hpc hlate ↦ ?_⟩
    rcases howed hpc hlate with hfd | ⟨v, hv⟩
    · exact Or.inl hfd
    · have hne : v ≠ u := by rintro rfl; simp [hidle] at hv
      exact Or.inr ⟨v, (Function.update_of_ne hne ..).trans hv⟩
  | wakeUp => exact ⟨hcall, fun _ _ ↦ Or.inl (Nat.succ_pos _)⟩
  | queueInLoop hpc =>
    refine ⟨?_, fun h ↦ by simp at h⟩
    simpa [InBatch, hpc] using hcall
  | @wakeTest u hpc =>
    refine ⟨by simpa [InBatch, hpc] using hcall, fun h _ ↦ Or.inl ?_⟩
    -- of the three places only a pending functor is before the next epoll_wait
    have hu : u = .functor := by simpa using h
    have hflag : s.callPendingFunctors = true := hcall.mpr (by simp [InBatch, hpc, hu])
    simp [hflag]
  | quitInLoop => exact ⟨hcall, howed⟩
  | enter hpc =>
    -- everything pending now was queued before the entry
    refine ⟨by simpa [InBatch, hpc] using hcall, fun _ hlate ↦ (hlate ?_).elim⟩
    have hlen := hord.inOrder.lengths
    exact List.drop_of_length_le (by simp only; omega)
  | testQuit hpc =>
    refine ⟨?_, fun _ hlate ↦ howed (Or.inl hpc) hlate⟩
    cases s.quit <;> simpa [InBatch, hpc] using hcall
  | pollReturn hpc | handleRead hpc | handled hpc =>
    -- no demand here: the functors are run before the next epoll_wait
    exact ⟨by simpa [InBatch, hpc] using hcall, fun h ↦ by simp at h⟩
  | callSet => exact ⟨by simp, fun h ↦ by simp at h⟩
  | swap hpc =>
    refine ⟨by simpa [InBatch, hpc] using hcall, fun _ hlate ↦ (hlate ?_).elim⟩
    exact List.drop_nil
  | @next f q hpc hnext =>
    obtain ⟨rest, hbatch, rfl⟩ := Batch.Queue.next_eq_some.mp hnext
    refine ⟨by simpa [InBatch, hpc] using hcall, fun _ hlate ↦ ?_⟩
    refine howed (Or.inr (Or.inr (Or.inl hpc))) fun hnil ↦ hlate ?_
    have hsum : (s.functors.executed ++ [f]).length + rest.length =
        s.functors.executed.length + s.functors.batch.length := by
      rw [hbatch, List.length_append, List.length_cons, List.length_cons, List.length_nil]
      omega
    refine Eq.trans ?_ hnil
    simp only [lateFunctors, hsum]
  | batchEnd hpc =>
    exact ⟨by simp [InBatch], fun _ hlate ↦ howed (Or.inr (Or.inr (Or.inl hpc))) hlate⟩
  | functorReturn hpc =>
    exact ⟨by simpa [InBatch, hpc] using hcall,
      fun _ hlate ↦ howed (Or.inr (Or.inr (Or.inr hpc))) hlate⟩

/-- **No lost wake-up.**  Whenever the loop thread is in `epoll_wait` and a functor queued since
`loop()` was entered is pending, the eventfd counter is positive or another thread has pushed and
not yet executed its `wakeUp`. -/
theorem no_lost_wakeUp [DecidableEq T] {ls : List (Label T F)} {s : EventLoop T F}
    (h : Trace.run step init ls = some s) (hpoll : s.pc = .poll) (hlate : s.lateFunctors ≠ []) :
    0 < s.wakeFd ∨ ∃ t, s.foreign t = .pushed := by
  have hinv : s.Ordered ∧ s.Awake :=
    Trace.run_inv (I := fun s ↦ s.Ordered ∧ s.Awake)
      (fun _ _ _ hs hstep ↦ ⟨step_ordered hs.1 hstep, step_awake hs.1 hs.2 hstep⟩)
      ⟨init_ordered, init_awake⟩ h
  exact hinv.2.owed (Or.inr (Or.inl hpoll)) hlate

theorem no_lost_wakeUp_queued_in_batch :
    ∃ s : EventLoop Bool Nat, Trace.run step init
        [.enter, .push true 1, .wakeUp true, .testQuit, .pollReturn true, .handleRead, .handled,
          .callSet, .swap, .next, .queueInLoop 2, .wakeTest, .functorReturn, .next, .testQuit] =
          some s ∧
      s.functors.pending = [2] ∧ (0 < s.wakeFd ∨ ∃ t, s.foreign t = .pushed) :=
  ⟨_, rfl, rfl, no_lost_wakeUp (show Trace.run (step (T := Bool) (F := Nat)) init
      [.enter, .push true 1, .wakeUp true, .testQuit, .pollReturn true, .handleRead, .handled,
        .callSet, .swap, .next, .queueInLoop 2, .wakeTest, .functorReturn, .next, .testQuit] =
      some _ from rfl) rfl
    (by simp [lateFunctors, Batch.Queue.push, Batch.Queue.take, Batch.Queue.empty, init])⟩

end EventLoop

end Netlib
