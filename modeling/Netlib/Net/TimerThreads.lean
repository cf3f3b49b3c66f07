import Netlib.Lib.BatchQueue
import Netlib.Net.TimerFiring

/-!
# Timers of other threads

`addTimer` and `cancle` go through `runInLoop`: on the loop thread they act at once, on any other
thread they leave a functor in `_pendingFunctors`, and the loop runs the functors in order behind
the events (`net/TimerQueue.cc`, `net/EventLoop.cc`).  A caller may pass on the id that `addTimer`
has returned, so a cancellation comes from any thread.
-/

namespace Netlib

inductive TimerFunctor where
  | addTimerInLoop (p : Address)
  | cancleInLoop (timerId : ActiveTimer)
deriving DecidableEq, Repr

/-- The timer that a functor is going to insert. -/
def TimerFunctor.inserts : TimerFunctor → Option Address
  | .addTimerInLoop p => some p
  | .cancleInLoop _ => none

structure TimerLoop where
  queue : TimerQueue
  functors : Batch.Queue TimerFunctor
  /-- Timers that another thread has constructed and not handed to the loop yet. -/
  constructed : List Address
  /-- The ids that `addTimer` has returned. -/
  issued : List ActiveTimer

namespace TimerLoop

inductive Label where
  /-- Another thread in `addTimer`: `new Timer`, then `runInLoop` and the return. -/
  | newTimer (p : Address) (when : Time) (interval : Int) (repeats : Bool)
  | addTimer (p : Address)
  /-- `addTimer` on the loop thread. -/
  | addTimerHere (p : Address) (when : Time) (interval : Int) (repeats : Bool) (clock : Time)
  /-- `cancle` on another thread, and on the loop thread. -/
  | cancle (timerId : ActiveTimer)
  | cancleHere (timerId : ActiveTimer)
  /-- `dpPendingFunctors`: the swap, and the next functor. -/
  | swap
  | functor (clock : Time)
  | handleRead (now : Time) (fired : Bool)
  | run
  | reset (clock : Time)
deriving DecidableEq, Repr

def init : TimerLoop := ⟨.init, .empty, [], []⟩

/-- Steps of the queue.  A fault would end the process. -/
def perform (s : TimerLoop) (ls : List TimerQueue.Label) : Option TimerLoop :=
  match Trace.run TimerQueue.next (.ok s.queue) ls with
  | some (.ok queue) => some { s with queue := queue }
  | _ => none

def step (s : TimerLoop) : Label → Option TimerLoop
  | .newTimer p when interval repeats =>
    { s with constructed := s.constructed ++ [p] }.perform [.newTimer p when interval repeats]
  | .addTimer p =>
    -- the source reads the number behind the push, from a timer that the loop may have run and
    -- deleted by then; runs with this use after free are left out, and in all others it is the same
    if p ∈ s.constructed then
      (s.queue.heap p).map fun timer ↦
        { s with
          constructed := s.constructed.erase p
          functors := s.functors.push (.addTimerInLoop p)
          issued := s.issued ++ [⟨p, timer.sequence⟩] }
    else none
  | .addTimerHere p when interval repeats clock =>
    ({ s with issued := s.issued ++ [⟨p, s.queue.index + 1⟩] } : TimerLoop).perform
      [.newTimer p when interval repeats, .addTimerInLoop p clock]
  | .cancle timerId =>
    if timerId ∈ s.issued then
      some { s with functors := s.functors.push (.cancleInLoop timerId) }
    else none
  | .cancleHere timerId => if timerId ∈ s.issued then s.perform [.cancleInLoop timerId] else none
  | .swap =>
    if s.functors.batch = [] ∧ s.queue.batch = none then
      some { s with functors := s.functors.take }
    else none
  | .functor clock =>
    match s.queue.batch, s.functors.next with
    | none, some (.addTimerInLoop p, fs) =>
      { s with functors := fs }.perform [.addTimerInLoop p clock]
    | none, some (.cancleInLoop timerId, fs) =>
      { s with functors := fs }.perform [.cancleInLoop timerId]
    | _, _ => none
  | .handleRead now fired =>
    if s.functors.batch = [] then s.perform [.handleRead now fired] else none
  | .run => s.perform [.run]
  | .reset clock => s.perform [.reset clock]

/-- The functors still to run, in order. -/
def waiting (s : TimerLoop) : List TimerFunctor := s.functors.batch ++ s.functors.pending

/-- The step executes `cancle` of the id on the loop thread. -/
def Executes (s : TimerLoop) (timerId : ActiveTimer) : Label → Prop
  | .cancleHere id => id = timerId
  | .functor _ => s.functors.batch.head? = some (.cancleInLoop timerId)
  | _ => False

/-- The timer of the id is still to be inserted by a functor. -/
def AddPending (s : TimerLoop) (timerId : ActiveTimer) : Prop :=
  .addTimerInLoop timerId.timer ∈ s.waiting ∧
    ∃ timer, s.queue.heap timerId.timer = some timer ∧ timer.sequence = timerId.sequence

/-- From here on the timer of the id is never started and never in `_timers`. -/
def Never (s : TimerLoop) (timerId : ActiveTimer) : Prop :=
  ∀ ls t, Trace.run step s ls = some t →
    t.queue.log.count (.ran timerId.sequence) = s.queue.log.count (.ran timerId.sequence) ∧
      ∀ e ∈ t.queue.timers, t.queue.idOf e ≠ timerId

/-! ## 1. The queue behind the functors -/

theorem perform_eq_some {s t : TimerLoop} {ls : List TimerQueue.Label} :
    s.perform ls = some t ↔ ∃ queue, Trace.run TimerQueue.next (.ok s.queue) ls = some (.ok queue) ∧
      t = { s with queue := queue } := by
  unfold perform
  split
  · rename_i queue hrun
    simp only [hrun, Option.some.injEq, Except.ok.injEq, exists_eq_left']
    exact eq_comm
  · rename_i hno
    simp only [reduceCtorEq, false_iff, not_exists, not_and]
    exact fun queue hrun ↦ (hno queue hrun).elim

theorem perform_singleton {s t : TimerLoop} {l : TimerQueue.Label} :
    s.perform [l] = some t ↔ ∃ queue, s.queue.step l = some (.ok queue) ∧
      t = { s with queue := queue } := by
  rw [perform_eq_some]
  simp only [Trace.run_cons_eq_some, Trace.run_nil, Option.some.injEq, exists_eq_right]
  rfl

end TimerLoop

namespace TimerQueue

/-- A timer on its way into the sets is left alone. -/
theorem StepTo.heap_of_adding {s t : TimerQueue} {l : Label} {p : Address} (hstep : StepTo s l t)
    (hinv : s.Invariant) (hp : p ∈ s.adding) : t.heap p = s.heap p := by
  have hloose : p ∈ s.expiring ++ s.adding := List.mem_append_right _ hp
  obtain ⟨timer, hheap⟩ := Option.isSome_iff_exists.mp (hinv.1.held.live p hloose)
  cases hstep with
  | newTimer hfree =>
    refine Function.update_of_ne (fun heq ↦ ?_) ..
    rw [heq, hfree] at hheap
    cases hheap
  | add | remember | handleRead | run => rfl
  | @discard timerId _ hact =>
    refine Function.update_of_ne (fun heq ↦ ?_) ..
    obtain ⟨timer', -, -, hmem⟩ := hinv.1.oneToOne.timed timerId hact
    exact hinv.1.held.apart p hloose _ hmem heq.symm
  | reset hbatch hsettled =>
    refine hsettled.heap_of_not_mem p fun hmem ↦ ?_
    obtain ⟨e, he, rfl⟩ := List.mem_map.mp hmem
    exact (hinv.of_mem_expiring (mem_expiring hbatch he)).2.1 hp

theorem StepTo.adding_eq {s t : TimerQueue} {l : Label} (hstep : StepTo s l t)
    (hnew : ∀ p when interval repeats, l ≠ .newTimer p when interval repeats)
    (hadd : ∀ p clock, l ≠ .addTimerInLoop p clock) : t.adding = s.adding := by
  cases hstep with
  | newTimer => exact (hnew _ _ _ _ rfl).elim
  | add => exact (hadd _ _ rfl).elim
  | discard | remember | handleRead | run => rfl
  | reset _ hsettled => exact hsettled.adding

/-- A live timer keeps its number until it is deleted. -/
theorem StepTo.live_or_deleted {s t : TimerQueue} {l : Label} {p : Address} {timer : Timer}
    (hstep : StepTo s l t) (hheap : s.heap p = some timer) :
    (∃ timer', t.heap p = some timer' ∧ timer'.sequence = timer.sequence) ∨
      .deleted timer.sequence ∈ t.log := by
  cases hstep with
  | newTimer hfree =>
    refine Or.inl ⟨timer, ?_, rfl⟩
    rw [← hheap]
    refine Function.update_of_ne (fun heq ↦ ?_) ..
    rw [heq, hfree] at hheap
    cases hheap
  | add | remember | handleRead | run => exact Or.inl ⟨timer, hheap, rfl⟩
  | @discard timerId timer' hact hheap' =>
    by_cases hp : p = timerId.timer
    · rw [← hp, hheap, Option.some.injEq] at hheap'
      rw [hheap']
      exact Or.inr (List.mem_append_right _ (List.mem_singleton_self _))
    · refine Or.inl ⟨timer, ?_, rfl⟩
      rw [← hheap]
      exact Function.update_of_ne hp ..
  | @reset now clock expired t hbatch hsettled =>
    by_cases hp : p ∈ expired.map Entry.timer
    · obtain ⟨e, he, rfl⟩ := List.mem_map.mp hp
      by_cases hagain : s.Again e.timer timer
      · exact Or.inl ⟨timer.restart now,
          (hsettled.heap_of_mem e he timer hheap).trans (if_pos hagain), rfl⟩
      · obtain ⟨log', hlog, -, hdel⟩ := hsettled.log
        apply Or.inr
        simp only [hlog]
        exact List.mem_append_right _ (hdel e he timer hheap hagain)
    · exact Or.inl ⟨timer, (hsettled.heap_of_not_mem p hp).trans hheap, rfl⟩

end TimerQueue

namespace TimerLoop

/-! ## 2. First added, then cancelled -/

/-- The id names a timer that its creator has handed over, alive or not. -/
def HandedOver (s : TimerLoop) (timerId : ActiveTimer) : Prop :=
  (∃ timer, s.queue.heap timerId.timer = some timer ∧ timer.sequence = timerId.sequence ∧
    timerId.timer ∉ s.constructed) ∨ .deleted timerId.sequence ∈ s.queue.log

/-- A cancellation does not stand in front of the insertion of its timer. -/
def InFront (s : TimerLoop) (f g : TimerFunctor) : Prop :=
  ∀ timerId p timer, f = .cancleInLoop timerId → g = .addTimerInLoop p →
    s.queue.heap p = some timer → timer.sequence ≠ timerId.sequence

structure Invariant (s : TimerLoop) : Prop where
  queue : s.queue.Invariant
  adding : s.queue.adding.Perm (s.constructed ++ s.waiting.filterMap TimerFunctor.inserts)
  issued : ∀ timerId ∈ s.issued, s.HandedOver timerId
  cancelled : ∀ timerId, .cancleInLoop timerId ∈ s.waiting → timerId ∈ s.issued
  order : s.waiting.Pairwise s.InFront

theorem Invariant.mem_adding {s : TimerLoop} {p : Address} (h : s.Invariant)
    (hp : .addTimerInLoop p ∈ s.waiting) : p ∈ s.queue.adding := by
  refine h.adding.mem_iff.mpr (List.mem_append_right _ ?_)
  exact List.mem_filterMap.mpr ⟨_, hp, rfl⟩

/-- A step of the queue, with functors gone from the front and timers constructed or handed over. -/
theorem Invariant.next {s t : TimerLoop} {l : TimerQueue.Label} (h : s.Invariant)
    (hstep : s.queue.step l = some (.ok t.queue))
    (hadding : t.queue.adding.Perm (t.constructed ++ t.waiting.filterMap TimerFunctor.inserts))
    (hissued : t.issued = s.issued) (hwaiting : t.waiting.Sublist s.waiting)
    (hout : ∀ p, s.queue.heap p ≠ none → p ∉ s.constructed → p ∉ t.constructed) :
    t.Invariant := by
  obtain ⟨q, hq, hinv⟩ := TimerQueue.step_invariant h.queue hstep
  cases hq
  have hto := TimerQueue.step_cases h.queue hstep
  refine ⟨hinv, hadding, fun timerId hid ↦ ?_, fun timerId hmem ↦ ?_, ?_⟩
  · rcases h.issued timerId (hissued ▸ hid) with ⟨timer, hheap, hseq, hnot⟩ | hdel
    · rcases hto.live_or_deleted hheap with ⟨timer', hheap', hseq'⟩ | hdel
      · exact Or.inl ⟨timer', hheap', hseq'.trans hseq, hout _ (by simp [hheap]) hnot⟩
      · exact Or.inr (hseq ▸ hdel)
    · obtain ⟨log', hlog⟩ := hto.log_append
      apply Or.inr
      rw [hlog]
      exact List.mem_append_left _ hdel
  · rw [hissued]
    exact h.cancelled timerId (hwaiting.subset hmem)
  · -- the timers that functors are going to insert stay as they are
    have hpair : s.waiting.Pairwise t.InFront := by
      refine h.order.imp_of_mem fun {f g} _ hg hfg timerId p timer hf hgp hheap ↦ ?_
      subst hgp
      refine hfg timerId p timer hf rfl ?_
      rw [← hheap]
      exact (hto.heap_of_adding h.queue (h.mem_adding hg)).symm
    exact hpair.sublist hwaiting

/-- A step of the queue alone that inserts nothing. -/
theorem Invariant.queueStep {s : TimerLoop} {l : TimerQueue.Label} {queue : TimerQueue}
    (h : s.Invariant) (hstep : s.queue.step l = some (.ok queue))
    (hadding : queue.adding = s.queue.adding) : { s with queue := queue }.Invariant :=
  h.next (t := { s with queue := queue }) hstep (hadding ▸ h.adding) rfl (.refl _) fun _ _ hp ↦ hp

theorem Invariant.nodup {s : TimerLoop} (h : s.Invariant) :
    (s.constructed ++ s.waiting.filterMap TimerFunctor.inserts).Nodup :=
  h.adding.nodup_iff.mp (List.nodup_append.mp h.queue.1.held.nodup).2.1

theorem Invariant.live {s : TimerLoop} {p : Address} (h : s.Invariant) (hp : p ∈ s.queue.adding) :
    ∃ timer, s.queue.heap p = some timer :=
  Option.isSome_iff_exists.mp (h.queue.1.held.live p (List.mem_append_right _ hp))

theorem Invariant.newTimer {s : TimerLoop} {p : Address} {when : Time} {interval : Int}
    {repeats : Bool} {queue : TimerQueue} (h : s.Invariant)
    (hstep : s.queue.step (.newTimer p when interval repeats) = some (.ok queue)) :
    { s with constructed := s.constructed ++ [p], queue := queue }.Invariant := by
  cases TimerQueue.step_cases h.queue hstep with
  | newTimer hfree hp =>
    refine h.next (t := { s with constructed := s.constructed ++ [p], queue := _ }) hstep ?_ rfl
      (.refl _) fun q hq hnot ↦ ?_
    · show (s.queue.adding ++ [p]).Perm
        (s.constructed ++ [p] ++ s.waiting.filterMap TimerFunctor.inserts)
      rw [List.append_assoc, List.singleton_append]
      exact (h.adding.append_right [p]).trans
        ((List.perm_append_singleton ..).trans List.perm_middle.symm)
    · rw [List.mem_append, List.mem_singleton, not_or]
      exact ⟨hnot, fun heq ↦ hq (heq ▸ hfree)⟩

/-- An id that is handed over may be given out. -/
theorem Invariant.issue {s : TimerLoop} {timerId : ActiveTimer} (h : s.Invariant)
    (hid : s.HandedOver timerId) : { s with issued := s.issued ++ [timerId] }.Invariant := by
  refine ⟨h.queue, h.adding, fun id hmem ↦ ?_, fun id hmem ↦ ?_, h.order⟩
  · rcases List.mem_append.mp hmem with hmem | hmem
    · exact h.issued id hmem
    · rw [List.mem_singleton.mp hmem]
      exact hid
  · exact List.mem_append_left _ (h.cancelled id hmem)

/-- The functors by their list alone. -/
theorem Invariant.of_waiting {s t : TimerLoop} (h : s.Invariant) (hqueue : t.queue = s.queue)
    (hwaiting : t.waiting = s.waiting) (hconstructed : t.constructed = s.constructed)
    (hissued : t.issued = s.issued) : t.Invariant := by
  obtain ⟨hq, hadd, hiss, hcan, hord⟩ := h
  have hfront : t.InFront = s.InFront := by
    unfold InFront
    rw [hqueue]
  have hover : t.HandedOver = s.HandedOver := by
    unfold HandedOver
    rw [hqueue, hconstructed]
  refine ⟨?_, ?_, ?_, ?_, ?_⟩ <;> simp only [hqueue, hwaiting, hconstructed, hissued, hfront, hover] <;>
    assumption

/-- Handing a timer over: no cancellation of it can be waiting, since no id of it is out. -/
theorem Invariant.handOver {s : TimerLoop} {p : Address} {timer : Timer} (h : s.Invariant)
    (hp : p ∈ s.constructed) (hheap : s.queue.heap p = some timer) :
    ({ s with
      constructed := s.constructed.erase p
      functors := s.functors.push (.addTimerInLoop p)
      issued := s.issued ++ [⟨p, timer.sequence⟩] } : TimerLoop).Invariant := by
  have hnodup : s.constructed.Nodup := (List.nodup_append.mp h.nodup).1
  have hwait : (s.functors.batch ++ (s.functors.pending ++ [.addTimerInLoop p])) =
      s.waiting ++ [.addTimerInLoop p] := (List.append_assoc ..).symm
  refine ⟨h.queue, ?_, fun id hmem ↦ ?_, fun id hmem ↦ ?_, ?_⟩
  · show s.queue.adding.Perm (s.constructed.erase p ++ List.filterMap _
      (s.functors.batch ++ (s.functors.pending ++ [.addTimerInLoop p])))
    rw [hwait, List.filterMap_append, ← List.append_assoc]
    refine h.adding.trans (((List.perm_cons_erase hp).append_right _).trans ?_)
    exact (List.perm_append_singleton ..).symm
  · rcases List.mem_append.mp hmem with hmem | hmem
    · exact (h.issued id hmem).imp_left fun ⟨timer, hheap, hseq, hnot⟩ ↦
        ⟨timer, hheap, hseq, fun hin ↦ hnot (List.mem_of_mem_erase hin)⟩
    · rw [List.mem_singleton.mp hmem]
      exact Or.inl ⟨timer, hheap, rfl, hnodup.not_mem_erase⟩
  · have hmem : .cancleInLoop id ∈ s.waiting ++ [.addTimerInLoop p] := hwait ▸ hmem
    rw [List.mem_append, List.mem_singleton, or_iff_left (by simp)] at hmem
    exact List.mem_append_left _ (h.cancelled id hmem)
  · show List.Pairwise _ (s.functors.batch ++ (s.functors.pending ++ [.addTimerInLoop p]))
    rw [hwait, List.pairwise_append]
    refine ⟨h.order, List.pairwise_singleton .., fun f hf g hg timerId p' timer' hcan hadd hheap' ↦ ?_⟩
    rw [List.mem_singleton] at hg
    subst hg hcan
    cases hadd
    -- an id that is out names a timer that is not with its creator any more
    intro hseq
    rcases h.issued timerId (h.cancelled timerId hf) with ⟨timer'', hheap'', hseq'', hnot⟩ | hdel
    · have heq := h.queue.1.named.injective _ _ _ _ hheap'' hheap' (hseq''.trans hseq.symm)
      exact hnot (heq ▸ hp)
    · exact h.queue.1.named.undeleted _ _ hheap' (hseq ▸ hdel)

theorem Invariant.pushCancle {s : TimerLoop} {timerId : ActiveTimer} (h : s.Invariant)
    (hid : timerId ∈ s.issued) :
    { s with functors := s.functors.push (.cancleInLoop timerId) }.Invariant := by
  have hwait : (s.functors.batch ++ (s.functors.pending ++ [.cancleInLoop timerId])) =
      s.waiting ++ [.cancleInLoop timerId] := (List.append_assoc ..).symm
  refine ⟨h.queue, ?_, h.issued, fun id hmem ↦ ?_, ?_⟩
  · show s.queue.adding.Perm (s.constructed ++ List.filterMap _
      (s.functors.batch ++ (s.functors.pending ++ [.cancleInLoop timerId])))
    rw [hwait, List.filterMap_append,
      show List.filterMap TimerFunctor.inserts [.cancleInLoop timerId] = [] from rfl,
      List.append_nil]
    exact h.adding
  · have hmem : .cancleInLoop id ∈ s.waiting ++ [.cancleInLoop timerId] := hwait ▸ hmem
    rw [List.mem_append, List.mem_singleton] at hmem
    rcases hmem with hmem | heq
    · exact h.cancelled id hmem
    · cases heq
      exact hid
  · show List.Pairwise _ (s.functors.batch ++ (s.functors.pending ++ [.cancleInLoop timerId]))
    rw [hwait, List.pairwise_append]
    refine ⟨h.order, List.pairwise_singleton .., fun f _ g hg id p timer _ hadd ↦ ?_⟩
    rw [List.mem_singleton.mp hg] at hadd
    cases hadd

/-- `addTimer` on the loop thread leaves nothing waiting. -/
theorem Invariant.addTimerHere {s t : TimerLoop} {p : Address} {when clock : Time} {interval : Int}
    {repeats : Bool} (h : s.Invariant)
    (hstep : s.step (.addTimerHere p when interval repeats clock) = some t) : t.Invariant := by
  obtain ⟨queue, hrun, rfl⟩ := perform_eq_some.mp hstep
  obtain ⟨r, hr, hrest⟩ := Trace.run_cons_eq_some.mp hrun
  obtain ⟨r', hr', hlast⟩ := Trace.run_cons_eq_some.mp hrest
  cases hlast
  have hr : s.queue.step (.newTimer p when interval repeats) = some r := hr
  obtain ⟨q, rfl, hq⟩ := TimerQueue.step_invariant h.queue hr
  have hmid := h.newTimer hr
  have hto : TimerQueue.StepTo s.queue (.newTimer p when interval repeats) q :=
    TimerQueue.step_cases h.queue hr
  have hto' : TimerQueue.StepTo q (.addTimerInLoop p clock) queue := TimerQueue.step_cases hq hr'
  cases hto with
  | newTimer hfree =>
    have hadd : p ∉ s.queue.adding := fun hmem ↦ by
      obtain ⟨timer, hheap⟩ := h.live hmem
      rw [hfree] at hheap
      cases hheap
    have hout : p ∉ s.constructed := fun hmem ↦
      hadd (h.adding.mem_iff.mpr (List.mem_append_left _ hmem))
    have hheap : (s.queue.newTimer p when interval repeats).heap p =
        some ⟨when, interval, repeats, s.queue.index + 1⟩ := Function.update_self ..
    have hqueue : queue.adding = s.queue.adding ∧ queue.heap p =
        some ⟨when, interval, repeats, s.queue.index + 1⟩ := by
      cases hto' with
      | add =>
        refine ⟨?_, hheap⟩
        show (s.queue.adding ++ [p]).erase p = s.queue.adding
        rw [List.erase_append_right _ hadd]
        simp
    have hboth : { s with queue := queue }.Invariant :=
      hmid.next (l := .addTimerInLoop p clock) (t := { s with queue := queue }) hr'
        (hqueue.1 ▸ h.adding) rfl (.refl _) fun q _ hq hin ↦ hq (List.mem_append_left _ hin)
    exact hboth.issue (Or.inl ⟨_, hqueue.2, rfl, hout⟩)

/-- The functor in front of the waiting ones is run. -/
theorem Invariant.functor {s t : TimerLoop} {clock : Time} (h : s.Invariant)
    (hstep : s.step (.functor clock) = some t) : t.Invariant := by
  simp only [step] at hstep
  split at hstep
  · rename_i p fs hbatch hnext
    obtain ⟨rest, hb, rfl⟩ := Batch.Queue.next_eq_some.mp hnext
    obtain ⟨queue, hq, rfl⟩ := perform_singleton.mp hstep
    have hwait : s.waiting = .addTimerInLoop p :: (rest ++ s.functors.pending) := by
      rw [waiting, hb]
      rfl
    refine h.next hq ?_ rfl (by rw [hwait]; exact List.sublist_cons_self ..) fun _ _ hout ↦ hout
    have hperm := h.adding
    rw [hwait, List.filterMap_cons] at hperm
    cases TimerQueue.step_cases h.queue hq with
    | add hmem =>
      have herase := (hperm.trans List.perm_middle).erase p
      rw [List.erase_cons_head] at herase
      exact herase
  · rename_i timerId fs hbatch hnext
    obtain ⟨rest, hb, rfl⟩ := Batch.Queue.next_eq_some.mp hnext
    obtain ⟨queue, hq, rfl⟩ := perform_singleton.mp hstep
    have hwait : s.waiting = .cancleInLoop timerId :: (rest ++ s.functors.pending) := by
      rw [waiting, hb]
      rfl
    refine h.next hq ?_ rfl (by rw [hwait]; exact List.sublist_cons_self ..) fun _ _ hout ↦ hout
    have hperm := h.adding
    rw [hwait, List.filterMap_cons] at hperm
    rw [show queue.adding = s.queue.adding from
      (TimerQueue.step_cases h.queue hq).adding_eq (by simp) (by simp)]
    exact hperm
  · cases hstep

theorem step_invariant {s t : TimerLoop} {l : Label} (h : s.Invariant)
    (hstep : s.step l = some t) : t.Invariant := by
  -- the steps of the queue that neither construct nor insert
  have hplain {l : TimerQueue.Label}
      (hnew : ∀ p when interval repeats, l ≠ .newTimer p when interval repeats)
      (hadd : ∀ p clock, l ≠ .addTimerInLoop p clock) (hq : s.perform [l] = some t) :
      t.Invariant := by
    obtain ⟨queue, hqueue, rfl⟩ := perform_singleton.mp hq
    exact h.queueStep hqueue ((TimerQueue.step_cases h.queue hqueue).adding_eq hnew hadd)
  cases l with
  | newTimer p when interval repeats =>
    obtain ⟨queue, hq, rfl⟩ := perform_singleton.mp hstep
    exact h.newTimer hq
  | addTimer p =>
    simp only [step, Option.ite_none_right_eq_some, Option.map_eq_some_iff] at hstep
    obtain ⟨hp, timer, hheap, rfl⟩ := hstep
    exact h.handOver hp hheap
  | addTimerHere p when interval repeats clock => exact h.addTimerHere hstep
  | cancle timerId =>
    simp only [step, Option.ite_none_right_eq_some, Option.some.injEq] at hstep
    obtain ⟨hid, rfl⟩ := hstep
    exact h.pushCancle hid
  | cancleHere timerId =>
    simp only [step, Option.ite_none_right_eq_some] at hstep
    exact hplain (by simp) (by simp) hstep.2
  | swap =>
    simp only [step, Option.ite_none_right_eq_some, Option.some.injEq] at hstep
    obtain ⟨⟨hb, -⟩, rfl⟩ := hstep
    refine h.of_waiting rfl ?_ rfl rfl
    simp [waiting, hb]
  | functor clock => exact h.functor hstep
  | handleRead now fired =>
    simp only [step, Option.ite_none_right_eq_some] at hstep
    exact hplain (by simp) (by simp) hstep.2
  | run => exact hplain (by simp) (by simp) hstep
  | reset clock => exact hplain (by simp) (by simp) hstep

theorem init_invariant : init.Invariant :=
  ⟨TimerQueue.init_invariant, .refl _, by simp [init], by simp [init, waiting, Batch.Queue.empty],
    List.Pairwise.nil⟩

theorem run_invariant {s : TimerLoop} {ls : List Label} (hrun : Trace.run step init ls = some s) :
    s.Invariant :=
  Trace.run_inv (I := Invariant) (fun _ _ _ h hstep ↦ step_invariant h hstep) init_invariant hrun

/-! ## 3. What a run does to the queue -/

theorem step_queue {s t : TimerLoop} {l : Label} (hstep : s.step l = some t) :
    ∃ qs, Trace.run TimerQueue.next (.ok s.queue) qs = some (.ok t.queue) := by
  have hperform {s' : TimerLoop} {qs : List TimerQueue.Label} (hq : s'.perform qs = some t)
      (hs : s'.queue = s.queue) :
      ∃ qs, Trace.run TimerQueue.next (.ok s.queue) qs = some (.ok t.queue) := by
    obtain ⟨queue, hrun, rfl⟩ := perform_eq_some.mp hq
    exact ⟨qs, hs ▸ hrun⟩
  cases l with
  | newTimer p when interval repeats =>
    simp only [step] at hstep
    exact hperform hstep rfl
  | addTimer p =>
    simp only [step, Option.ite_none_right_eq_some, Option.map_eq_some_iff] at hstep
    obtain ⟨-, timer, -, rfl⟩ := hstep
    exact ⟨[], rfl⟩
  | addTimerHere p when interval repeats clock =>
    simp only [step] at hstep
    exact hperform hstep rfl
  | cancle timerId =>
    simp only [step, Option.ite_none_right_eq_some, Option.some.injEq] at hstep
    obtain ⟨-, rfl⟩ := hstep
    exact ⟨[], rfl⟩
  | cancleHere timerId =>
    simp only [step, Option.ite_none_right_eq_some] at hstep
    exact hperform hstep.2 rfl
  | swap =>
    simp only [step, Option.ite_none_right_eq_some, Option.some.injEq] at hstep
    obtain ⟨-, rfl⟩ := hstep
    exact ⟨[], rfl⟩
  | functor clock =>
    simp only [step] at hstep
    split at hstep
    · exact hperform hstep rfl
    · exact hperform hstep rfl
    · cases hstep
  | handleRead now fired =>
    simp only [step, Option.ite_none_right_eq_some] at hstep
    exact hperform hstep.2 rfl
  | run => exact hperform hstep rfl
  | reset clock => exact hperform hstep rfl

/-- **The queue of a run.**  Seen from the queue, a run of the loop and the threads is a run of the
queue. -/
theorem run_queue {s t : TimerLoop} {ls : List Label} (hrun : Trace.run step s ls = some t) :
    ∃ qs, Trace.run TimerQueue.next (.ok s.queue) qs = some (.ok t.queue) := by
  induction ls generalizing s with
  | nil =>
    cases hrun
    exact ⟨[], rfl⟩
  | cons l ls ih =>
    obtain ⟨m, hm, hrest⟩ := Trace.run_cons_eq_some.mp hrun
    obtain ⟨qs, hqs⟩ := step_queue hm
    obtain ⟨qs', hqs'⟩ := ih hrest
    exact ⟨qs ++ qs', Trace.run_append_eq_some.mpr ⟨_, hqs, hqs'⟩⟩

theorem never_of_deleted {s : TimerLoop} {timerId : ActiveTimer} (h : s.Invariant)
    (hdel : .deleted timerId.sequence ∈ s.queue.log) : s.Never timerId := by
  intro ls t hrun
  obtain ⟨qs, hqs⟩ := run_queue hrun
  obtain ⟨hdead, hcount⟩ := TimerQueue.goneForGood_of_deleted h.queue hdel qs t.queue hqs
  refine ⟨hcount, fun e he heq ↦ ?_⟩
  have ht : t.Invariant :=
    Trace.run_inv (I := Invariant) (fun _ _ _ h hstep ↦ step_invariant h hstep) h hrun
  obtain ⟨timer, hheap, -⟩ := ht.queue.1.oneToOne.active e he
  apply hdead e.timer timer hheap
  rw [← heq, TimerQueue.idOf, TimerQueue.sequenceOf, hheap]
  rfl

/-! ## 4. A functor that waits is run -/

/-- The next functor can be run, and the timers still to be inserted stay as they are. -/
theorem Invariant.functor_enabled {s : TimerLoop} {f : TimerFunctor} {rest : List TimerFunctor}
    (h : s.Invariant) (hidle : s.queue.batch = none) (hb : s.functors.batch = f :: rest) :
    ∃ t, s.step (.functor 0) = some t ∧ t.functors.batch = rest ∧
      t.functors.pending = s.functors.pending ∧ t.queue.batch = none ∧
      (∀ p ∈ s.queue.adding, t.queue.heap p = s.queue.heap p) ∧
      ∀ p, f = .addTimerInLoop p → ∀ timer, s.queue.heap p = some timer →
        ⟨timer.expiration, p⟩ ∈ t.queue.timers := by
  have hnext := Batch.Queue.next_eq_some.mpr ⟨rest, hb, rfl⟩
  cases f with
  | addTimerInLoop p =>
    have hp : p ∈ s.queue.adding := h.mem_adding (by simp [waiting, hb])
    obtain ⟨r, hr⟩ : ∃ r, s.queue.step (.addTimerInLoop p 0) = some r :=
      ⟨_, if_pos hp⟩
    obtain ⟨queue, rfl, -⟩ := TimerQueue.step_invariant h.queue hr
    refine ⟨{ s with
      functors := { s.functors with
        batch := rest
        executed := s.functors.executed ++ [.addTimerInLoop p] }
      queue := queue }, ?_, rfl, rfl, ?_, fun q hq ↦ ?_, fun q hq timer hheap ↦ ?_⟩
    · simp only [step, hidle, hnext]
      exact perform_singleton.mpr ⟨queue, hr, rfl⟩
    · cases TimerQueue.step_cases h.queue hr with
      | add => exact hidle
    · exact (TimerQueue.step_cases h.queue hr).heap_of_adding h.queue hq
    · cases hq
      cases TimerQueue.step_cases h.queue hr with
      | add _ hheap' =>
        rw [hheap, Option.some.injEq] at hheap'
        subst hheap'
        exact OrdSet.mem_insert.mpr (Or.inl rfl)
  | cancleInLoop timerId =>
    obtain ⟨r, hr⟩ : ∃ r, s.queue.step (.cancleInLoop timerId) = some r := ⟨_, rfl⟩
    obtain ⟨queue, rfl, -⟩ := TimerQueue.step_invariant h.queue hr
    refine ⟨{ s with
      functors := { s.functors with
        batch := rest
        executed := s.functors.executed ++ [.cancleInLoop timerId] }
      queue := queue }, ?_, rfl, rfl, ?_, fun q hq ↦ ?_, fun q hq ↦ by cases hq⟩
    · simp only [step, hidle, hnext]
      exact perform_singleton.mpr ⟨queue, hr, rfl⟩
    · cases TimerQueue.step_cases h.queue hr with
      | discard => exact hidle
      | remember => exact hidle
    · exact (TimerQueue.step_cases h.queue hr).heap_of_adding h.queue hq

/-- The first part of the batch can be run. -/
theorem Invariant.drain {s : TimerLoop} {a b : List TimerFunctor} (h : s.Invariant)
    (hidle : s.queue.batch = none) (hb : s.functors.batch = a ++ b) :
    ∃ ls t, Trace.run step s ls = some t ∧ t.Invariant ∧ t.queue.batch = none ∧
      t.functors.batch = b ∧ t.functors.pending = s.functors.pending ∧
      ∀ p, .addTimerInLoop p ∈ b ++ s.functors.pending → t.queue.heap p = s.queue.heap p := by
  induction a generalizing s with
  | nil => exact ⟨[], s, rfl, h, hidle, hb, rfl, fun _ _ ↦ rfl⟩
  | cons f a ih =>
    obtain ⟨m, hm, hmb, hmp, hmidle, hheap, -⟩ := h.functor_enabled hidle hb
    have hminv := step_invariant h hm
    obtain ⟨ls, t, hrun, ht, htidle, htb, htp, hheap'⟩ := ih hminv hmidle hmb
    refine ⟨.functor 0 :: ls, t, Trace.run_cons_eq_some.mpr ⟨m, hm, hrun⟩, ht, htidle, htb,
      htp.trans hmp, fun p hp ↦ ?_⟩
    rw [hheap' p (hmp ▸ hp)]
    refine hheap p (h.mem_adding ?_)
    rw [waiting, hb, List.append_assoc]
    exact List.mem_append_right _ hp

/-- What a functor is going to insert is in `_timers` in some later state. -/
theorem Invariant.inserted {s : TimerLoop} {p : Address} {timer : Timer} (h : s.Invariant)
    (hidle : s.queue.batch = none) (hp : .addTimerInLoop p ∈ s.waiting)
    (hheap : s.queue.heap p = some timer) :
    ∃ ls t, Trace.run step s ls = some t ∧
      ∃ e ∈ t.queue.timers, t.queue.idOf e = ⟨p, timer.sequence⟩ := by
  -- with the functor in the batch: run those in front of it, then it
  have hbatch {s : TimerLoop} (h : s.Invariant) (hidle : s.queue.batch = none)
      (hp : .addTimerInLoop p ∈ s.functors.batch) (hheap : s.queue.heap p = some timer) :
      ∃ ls t, Trace.run step s ls = some t ∧
        ∃ e ∈ t.queue.timers, t.queue.idOf e = ⟨p, timer.sequence⟩ := by
    obtain ⟨a, b, hsplit⟩ := List.append_of_mem hp
    obtain ⟨ls, m, hrun, hm, hmidle, hmb, -, hmheap⟩ := h.drain hidle hsplit
    have hmp : m.queue.heap p = some timer := (hmheap p (by simp)).trans hheap
    obtain ⟨t, ht, -, -, -, hsame, hin⟩ := hm.functor_enabled hmidle hmb
    have hadd : p ∈ m.queue.adding := hm.mem_adding (by simp [waiting, hmb])
    refine ⟨ls ++ [.functor 0], t, Trace.run_append_eq_some.mpr ⟨m, hrun,
      Trace.run_cons_eq_some.mpr ⟨t, ht, rfl⟩⟩, _, hin p rfl timer hmp, ?_⟩
    rw [TimerQueue.idOf, TimerQueue.sequenceOf, hsame p hadd, hmp]
    rfl
  rcases List.mem_append.mp hp with hp | hp
  · exact hbatch h hidle hp hheap
  · -- still pending: run the batch to its end and swap
    obtain ⟨ls, m, hrun, hm, hmidle, hmb, hmp, hmheap⟩ :=
      h.drain (a := s.functors.batch) (b := []) hidle (List.append_nil _).symm
    have hswap : m.step .swap = some { m with functors := m.functors.take } :=
      if_pos ⟨hmb, hmidle⟩
    obtain ⟨ls', t, hrun', ht⟩ := hbatch (step_invariant hm hswap) hmidle
      (show .addTimerInLoop p ∈ m.functors.pending by rw [hmp]; exact hp)
      ((hmheap p hp).trans hheap)
    exact ⟨ls ++ .swap :: ls', t, Trace.run_append_eq_some.mpr ⟨m, hrun,
      Trace.run_cons_eq_some.mpr ⟨_, hswap, hrun'⟩⟩, ht⟩

/-! ## 5. When a cancellation is effective -/

/-- Executed behind the insertion, `cancle` deletes the timer or finds it deleted. -/
theorem Invariant.deleted_of_cancle {s : TimerLoop} {timerId : ActiveTimer} {queue : TimerQueue}
    (h : s.Invariant) (hidle : s.queue.batch = none) (hid : timerId ∈ s.issued)
    (hpend : ¬ s.AddPending timerId) (hq : s.queue.step (.cancleInLoop timerId) = some (.ok queue)) :
    .deleted timerId.sequence ∈ queue.log := by
  have hto := TimerQueue.step_cases h.queue hq
  rcases h.issued timerId hid with ⟨timer, hheap, hseq, hout⟩ | hdel
  · have hwait : .addTimerInLoop timerId.timer ∉ s.waiting := fun hmem ↦
      hpend ⟨hmem, timer, hheap, hseq⟩
    have hadd : timerId.timer ∉ s.queue.adding := by
      intro hmem
      rcases List.mem_append.mp (h.adding.mem_iff.mp hmem) with hmem | hmem
      · exact hout hmem
      · obtain ⟨f, hf, hins⟩ := List.mem_filterMap.mp hmem
        cases f with
        | addTimerInLoop p =>
          cases hins
          exact hwait hf
        | cancleInLoop id => cases hins
    have hact : timerId ∈ s.queue.activeTimers := by
      have hmem := h.queue.mem_active hheap (by simp [TimerQueue.expiring, hidle]) hadd
      rwa [hseq] at hmem
    cases hto with
    | discard _ hheap' hseq' =>
      rw [← hseq']
      exact List.mem_append_right _ (List.mem_singleton_self _)
    | remember hnot => exact (hnot hact).elim
  · obtain ⟨log', hlog⟩ := hto.log_append
    rw [hlog]
    exact List.mem_append_left _ hdel

/-- A functor that cancels finds no insertion of its timer behind it. -/
theorem Invariant.not_addPending {s : TimerLoop} {timerId : ActiveTimer} {rest : List TimerFunctor}
    (h : s.Invariant) (hb : s.functors.batch = .cancleInLoop timerId :: rest) :
    ¬ s.AddPending timerId := by
  rintro ⟨hmem, timer, hheap, hseq⟩
  have hwait : s.waiting = .cancleInLoop timerId :: (rest ++ s.functors.pending) := by
    rw [waiting, hb]
    rfl
  have horder := h.order
  rw [hwait] at horder hmem
  rcases List.mem_cons.mp hmem with heq | hmem
  · cases heq
  · exact (List.pairwise_cons.mp horder).1 _ hmem timerId _ timer rfl rfl hheap hseq

/-- **When a cancellation across threads is effective.**  Executed on the loop thread outside a
batch, by a call there or by a functor, the cancellation of an id that `addTimer` has returned stops
the timer for good exactly if it is not a call that comes while the functor that inserts the timer
still waits. -/
theorem cancle_across_threads_iff {ls : List Label} {s t : TimerLoop} {l : Label}
    {timerId : ActiveTimer} (hreach : Trace.run step init ls = some s)
    (hid : timerId ∈ s.issued) (hidle : s.queue.batch = none) (hexec : s.Executes timerId l)
    (hstep : s.step l = some t) :
    t.Never timerId ↔ ¬ (l = .cancleHere timerId ∧ s.AddPending timerId) := by
  have h := run_invariant hreach
  have ht := step_invariant h hstep
  cases l with
  | cancleHere id =>
    cases hexec
    simp only [step, Option.ite_none_right_eq_some] at hstep
    obtain ⟨queue, hq, rfl⟩ := perform_singleton.mp hstep.2
    constructor
    · -- nothing is found, and the functor inserts the timer afterwards
      rintro hnever ⟨-, hmem, timer, hheap, hseq⟩
      cases TimerQueue.step_cases h.queue hq with
      | discard hact =>
        obtain ⟨timer', -, -, hin⟩ := h.queue.1.oneToOne.timed _ hact
        exact h.queue.1.held.apart _ (List.mem_append_right _ (h.mem_adding hmem)) _ hin rfl
      | remember =>
        obtain ⟨ls', u, hrun, e, he, heq⟩ := ht.inserted hidle hmem hheap
        apply (hnever ls' u hrun).2 e he
        rw [heq, hseq]
    · intro hnot
      exact never_of_deleted ht
        (h.deleted_of_cancle hidle hid (fun hpend ↦ hnot ⟨rfl, hpend⟩) hq)
  | functor clock =>
    obtain ⟨rest, hb⟩ : ∃ rest, s.functors.batch = .cancleInLoop timerId :: rest :=
      List.head?_eq_some_iff.mp hexec
    have hnext := Batch.Queue.next_eq_some.mpr ⟨rest, hb, rfl⟩
    simp only [step, hidle, hnext] at hstep
    obtain ⟨queue, hq, rfl⟩ := perform_singleton.mp hstep
    simp only [reduceCtorEq, false_and, not_false_eq_true, iff_true]
    exact never_of_deleted ht (h.deleted_of_cancle hidle hid (h.not_addPending hb) hq)
  | newTimer | addTimer | addTimerHere | cancle | swap | handleRead | run | reset => cases hexec

/-- Another thread adds a timer and cancels it: the two functors run in that order. -/
theorem cancle_across_threads_iff_functors :
    ∃ s t, Trace.run step init [.newTimer 16 90 0 false, .addTimer 16, .cancle ⟨16, 1⟩, .swap,
      .functor 10] = some s ∧ s.step (.functor 11) = some t ∧ t.Never ⟨16, 1⟩ := by
  obtain ⟨s, t, hs, ht, hid, hidle, hexec⟩ : ∃ s t, Trace.run step init
        [.newTimer 16 90 0 false, .addTimer 16, .cancle ⟨16, 1⟩, .swap, .functor 10] = some s ∧
      s.step (.functor 11) = some t ∧ ⟨16, 1⟩ ∈ s.issued ∧ s.queue.batch = none ∧
      s.Executes ⟨16, 1⟩ (.functor 11) :=
    ⟨_, _, rfl, rfl, by decide, rfl, rfl⟩
  exact ⟨s, t, hs, ht, (cancle_across_threads_iff hs hid hidle hexec ht).mpr (by simp)⟩

/-- Another thread adds a timer, and the loop thread cancels it before the functor has run: the
functor inserts the timer all the same. -/
theorem cancled_timer_is_inserted :
    ¬ ∀ ls s t l timerId, Trace.run step init ls = some s → timerId ∈ s.issued →
      s.queue.batch = none → s.Executes timerId l → s.step l = some t → t.Never timerId := by
  intro h
  obtain ⟨s, t, u, hs, ht, hid, hidle, hu, htimers, hheap⟩ : ∃ s t u, Trace.run step init
        [.newTimer 16 90 0 false, .addTimer 16] = some s ∧
      s.step (.cancleHere ⟨16, 1⟩) = some t ∧ ⟨16, 1⟩ ∈ s.issued ∧ s.queue.batch = none ∧
      Trace.run step t [.swap, .functor 10] = some u ∧ u.queue.timers.toList = [⟨90, 16⟩] ∧
      u.queue.heap 16 = some ⟨90, 0, false, 1⟩ :=
    ⟨_, _, _, rfl, rfl, by decide, rfl, rfl, rfl, rfl⟩
  have hmem : (⟨90, 16⟩ : Entry) ∈ u.queue.timers := by
    rw [← OrdSet.mem_toList, htimers]
    exact List.mem_singleton_self _
  refine (h _ s t (.cancleHere ⟨16, 1⟩) ⟨16, 1⟩ hs hid hidle rfl ht _ u hu).2 _ hmem ?_
  rw [TimerQueue.idOf, TimerQueue.sequenceOf, hheap]
  rfl

end TimerLoop

end Netlib
