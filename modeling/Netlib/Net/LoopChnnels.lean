import Netlib.Base.Logging
import Netlib.Net.Epoller

/-!
# The channel calls of `netlib::EventLoop`

`updateChnnel`, `removeChnnel` and `hasChnnel` check the calling thread and pass the channel on to
the `Epoller` (`net/EventLoop.cc`); the destructor of a channel asks `hasChnnel`
(`net/Chnnel.cc`).  A message logged with level `FATAL` ends the process (`base/Logging.cc`).
-/

namespace Netlib

/-- A thread id. -/
abbrev Tid := Nat

inductive LoopFault where
  | assertion
  /-- `::abort()`. -/
  | aborted
  | epoller (fault : EpollFault)
deriving DecidableEq, Repr

/-- What `~Logger` does behind the output of the message. -/
def logged (level : LogLevel) : Except LoopFault Unit :=
  if level = .FATAL then .error .aborted else .ok ()

/-- The process ends here when it ends in the destructor of the record. -/
theorem logged_aborted_iff (level : LogLevel) :
    logged level = .error .aborted ↔ .abort ∈ Logger.afterOutput level := by
  unfold logged Logger.afterOutput
  by_cases h : level = .FATAL
  · simp [h]
  · simp [h]

/-- `Epoller::hasChnnel`. -/
def Epoller.hasChnnel (s : Epoller) (c : ChnnelPtr) : Bool :=
  decide (s.chnnels (s.objects c).fd = some c)

/-- A loop and the channels that it owns, so that `assert(chnnel->owerLoop() == this)` holds. -/
structure LoopChnnels where
  tid : Tid
  epoller : Epoller

namespace LoopChnnels

def init (tid : Tid) (fd : ChnnelPtr → Fd) : LoopChnnels := ⟨tid, Epoller.init fd⟩

def isInLoopThread (s : LoopChnnels) (thread : Tid) : Bool := decide (s.tid = thread)

def abortNotInLoopThread : Except LoopFault Unit := logged .FATAL

def assertInLoopThread (s : LoopChnnels) (thread : Tid) : Except LoopFault Unit :=
  if s.isInLoopThread thread = false then abortNotInLoopThread else .ok ()

def check (p : Prop) [Decidable p] : Except LoopFault Unit :=
  if p then .ok () else .error .assertion

/-- `enableReading` to `remove` on a channel: `EventLoop::updateChnnel` and `removeChnnel`. -/
def call (s : LoopChnnels) (thread : Tid) (l : Epoller.Label) : Except LoopFault LoopChnnels := do
  s.assertInLoopThread thread
  match s.epoller.call l with
  | .ok epoller => return { s with epoller := epoller }
  | .error fault => .error (.epoller fault)

/-- It does not test the thread before it aborts, as `assertInLoopThread` does. -/
def hasChnnel (s : LoopChnnels) (thread : Tid) (c : ChnnelPtr) : Except LoopFault Bool := do
  abortNotInLoopThread
  s.assertInLoopThread thread
  return s.epoller.hasChnnel c

/-- `~Chnnel`. -/
def destroyChnnel (s : LoopChnnels) (thread : Tid) (c : ChnnelPtr) (eventHanding : Bool) :
    Except LoopFault Unit := do
  check (eventHanding = false)
  check ((s.epoller.objects c).addedToLoop = false)
  if s.isInLoopThread thread then
    let has ← s.hasChnnel thread c
    check (has = false)
  else .ok ()

/-- A call on the loop's thread; a fault ends the run. -/
def step (s : LoopChnnels) (l : Epoller.Label) : Option LoopChnnels := (s.call s.tid l).toOption

/-! ## 1. Runs on the loop's thread are runs of the `Epoller` -/

theorem step_eq (s : LoopChnnels) (l : Epoller.Label) :
    s.step l = (s.epoller.step l).map fun epoller ↦ ⟨s.tid, epoller⟩ := by
  have hthread : s.assertInLoopThread s.tid = .ok () := by
    simp [assertInLoopThread, isInLoopThread]
  unfold step call Epoller.step
  rw [hthread, Trace.ok_bind]
  cases s.epoller.call l <;> rfl

theorem run_eq (s : LoopChnnels) (ls : List Epoller.Label) :
    Trace.run step s ls =
      (Trace.run Epoller.step s.epoller ls).map fun epoller ↦ ⟨s.tid, epoller⟩ := by
  induction ls generalizing s with
  | nil => rfl
  | cons l ls ih =>
    rw [Trace.run_cons, Trace.run_cons, step_eq]
    cases s.epoller.step l with
    | none => rfl
    | some epoller =>
      rw [Option.map_some, Option.bind_some, Option.bind_some]
      exact ih ⟨s.tid, epoller⟩

end LoopChnnels

/-! ## 2. What the map of the `Epoller` says of a channel -/

namespace Epoller

/-- The channel that a call is about. -/
def Label.chnnel : Label → ChnnelPtr
  | enableReading c | enableWriting c | disableReading c | disableWriting c | diableAll c => c
  | remove c => c

def Label.isRemove : Label → Bool
  | remove _ => true
  | _ => false

/-- Whether the channel counts as updated behind a call. -/
def note (c : ChnnelPtr) (updated : Bool) (l : Label) : Bool :=
  if l.chnnel = c then !l.isRemove else updated

/-- The channel has been updated since it was last removed. -/
def updatedSince (c : ChnnelPtr) (ls : List Label) : Bool := ls.foldl (note c) false

theorem put_addedToLoop (s : Epoller) (c c' : ChnnelPtr) (o : ChnnelObject) :
    ((s.put c o).objects c').addedToLoop =
      if c = c' then o.addedToLoop else (s.objects c').addedToLoop := by
  by_cases hc : c = c'
  · subst hc
    simp [put]
  · simp [put, hc, Ne.symm hc]

/-- A call sets or clears the `_addedToLoop` of its channel and leaves the others. -/
theorem step_addedToLoop {s t : Epoller} {l : Label} (h : s.Agrees) (hl : s.Allowed l)
    (ht : s.step l = some t) (c : ChnnelPtr) :
    (t.objects c).addedToLoop = note c (s.objects c).addedToLoop l := by
  have hchange (c' : ChnnelPtr) (f : Events → Events) (honly : s.OnlyUser c')
      (ht : (s.change c' f).toOption = some t) :
      (t.objects c).addedToLoop = if c' = c then true else (s.objects c).addedToLoop := by
    rw [change_eq h honly f] at ht
    obtain rfl := Option.some.inj ht
    rw [put_addedToLoop]
  cases l with
  | enableReading c' => exact hchange c' (fun e ↦ { e with read := true }) hl ht
  | enableWriting c' => exact hchange c' (fun e ↦ { e with write := true }) hl ht
  | disableReading c' => exact hchange c' (fun e ↦ { e with read := false }) hl ht
  | disableWriting c' => exact hchange c' (fun e ↦ { e with write := false }) hl ht
  | diableAll c' => exact hchange c' (fun _ ↦ ⟨false, false⟩) hl ht
  | remove c' =>
    have hremove : (s.remove c').toOption = some t := ht
    rw [remove_eq h hl.1 hl.2] at hremove
    obtain rfl := Option.some.inj hremove
    rw [put_addedToLoop]
    rfl

theorem run_addedToLoop {s t : Epoller} {ls : List Label} (h : s.Agrees)
    (hls : Trace.Along step Allowed s ls) (ht : Trace.run step s ls = some t) (c : ChnnelPtr) :
    (t.objects c).addedToLoop = ls.foldl (note c) (s.objects c).addedToLoop := by
  induction ls generalizing s with
  | nil =>
    cases ht
    rfl
  | cons l ls ih =>
    obtain ⟨m, hm, ht⟩ := Trace.run_cons_eq_some.mp ht
    obtain ⟨m', hm', hagrees⟩ := step_agrees h hls.1
    obtain rfl := Option.some.inj (hm.symm.trans hm')
    rw [ih hagrees (hls.2 m hm) ht, step_addedToLoop h hls.1 hm c]
    rfl

/-- `Epoller::hasChnnel` tells whether the channel is in use. -/
theorem Agrees.hasChnnel_eq {s : Epoller} (h : s.Agrees) (c : ChnnelPtr) :
    s.hasChnnel c = (s.objects c).addedToLoop := by
  have hiff : s.chnnels (s.objects c).fd = some c ↔ (s.objects c).addedToLoop = true :=
    (h.mapped c).trans (h.inUse c).symm
  unfold hasChnnel
  cases huse : (s.objects c).addedToLoop with
  | true => exact decide_eq_true (hiff.mpr huse)
  | false =>
    refine decide_eq_false fun hmap ↦ ?_
    rw [hiff.mp hmap] at huse
    cases huse

end Epoller

/-! ## 3. `EventLoop::hasChnnel` -/

namespace LoopChnnels

theorem hasChnnel_eq (s : LoopChnnels) (thread : Tid) (c : ChnnelPtr) :
    s.hasChnnel thread c = .error .aborted := rfl

/-- **`hasChnnel` never returns.**  In every run the map of the `Epoller` has the right answer for
every channel, but `EventLoop::hasChnnel` aborts the process before it looks, on the loop's own
thread too; and so does the destructor of a channel that was removed. -/
theorem hasChnnel_aborts (tid : Tid) (fd : ChnnelPtr → Fd) {ls : List Epoller.Label}
    (hls : Trace.Along Epoller.step Epoller.Allowed (Epoller.init fd) ls) :
    ∃ s, Trace.run step (init tid fd) ls = some s ∧ ∀ c,
      s.epoller.hasChnnel c = Epoller.updatedSince c ls ∧
      s.hasChnnel tid c = .error .aborted ∧
      s.hasChnnel tid c ≠ .ok (Epoller.updatedSince c ls) ∧
      (Epoller.updatedSince c ls = false → s.destroyChnnel tid c false = .error .aborted) := by
  obtain ⟨e, hrun, hagrees⟩ := Epoller.run_agrees (Epoller.init_agrees fd) hls
  have hadded (c : ChnnelPtr) : (e.objects c).addedToLoop = Epoller.updatedSince c ls :=
    Epoller.run_addedToLoop (Epoller.init_agrees fd) hls hrun c
  refine ⟨⟨tid, e⟩, by rw [run_eq, init, hrun]; rfl, fun c ↦ ⟨?_, rfl, ?_, fun hnot ↦ ?_⟩⟩
  · rw [hagrees.hasChnnel_eq c, hadded c]
  · rw [hasChnnel_eq]
    exact fun h ↦ by cases h
  · have huse : (e.objects c).addedToLoop = false := (hadded c).trans hnot
    simp [destroyChnnel, check, huse, isInLoopThread, hasChnnel_eq, Trace.ok_bind]
    rfl

theorem hasChnnel_aborts_enabled :
    ∃ s, Trace.run step (init 7 fun _ ↦ 5) [.enableReading 0] = some s ∧
      s.epoller.hasChnnel 0 = true ∧ s.hasChnnel 7 0 = .error .aborted := by
  have hls : Trace.Along Epoller.step Epoller.Allowed (Epoller.init fun _ ↦ 5)
      [.enableReading 0] :=
    ⟨fun c' _ huse ↦ by simp [Epoller.init] at huse, fun _ _ ↦ trivial⟩
  obtain ⟨s, hs, h⟩ := hasChnnel_aborts 7 (fun _ ↦ 5) hls
  exact ⟨s, hs, (h 0).1, (h 0).2.1⟩

/-- A channel is enabled, removed and destroyed, all on the loop's thread. -/
theorem destroyChnnel_aborts_removed :
    ∃ s, Trace.run step (init 7 fun _ ↦ 5) [.enableReading 0, .diableAll 0, .remove 0] = some s ∧
      Epoller.updatedSince 0 [.enableReading 0, .diableAll 0, .remove 0] = false ∧
      s.epoller.hasChnnel 0 = false ∧ s.hasChnnel 7 0 ≠ .ok false ∧
      s.destroyChnnel 7 0 false = .error .aborted := by
  refine ⟨_, rfl, rfl, rfl, ?_, rfl⟩
  rw [hasChnnel_eq]
  exact fun h ↦ by cases h

end LoopChnnels

end Netlib
