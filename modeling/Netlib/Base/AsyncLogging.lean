import Netlib.Lib.Run
import Netlib.Base.LogStream

/-!
# `netlib::AsyncLogging`

Front-end threads append messages to a current buffer under a mutex; one back-end thread collects
the filled buffers and passes them to a `LogFile` (`base/AsyncLogging.cc`).  Each critical section is
one step.  `waitForSeconds` gives the mutex back, so the collection behind it is a step of its own,
taken after a notification, a timeout or a spurious wake-up alike.
-/

namespace Netlib

/-- The buffers of the logger. -/
abbrev LogBuffer := FixedBuffer cLargeBuffer

/-- A call of `LogFile::append`: the content of a buffer, or the notice that `dropped` buffers were
thrown away (its text carries a time stamp as well). -/
inductive LogCall where
  | buffer (data : List UInt8)
  | notice (dropped : Nat)
deriving DecidableEq, Repr

/-- The back-end thread in `threadFunc`. -/
inductive BackPc where
  /-- Before the first test of the `while`. -/
  | starting
  | test
  /-- Behind `while(_running)`, before the critical section. -/
  | locking
  /-- In `_cond.waitForSeconds`. -/
  | waiting
  /-- At `if(buffersToWrite.size() > 25)`. -/
  | collected
  /-- In the `for` over `buffersToWrite`, with what is left of it. -/
  | writing (rest : List LogBuffer)
  /-- Behind that `for`. -/
  | recycle
  | finished
deriving DecidableEq

/-- The thread in `stop()`. -/
inductive StopPc where
  | idle
  | notify
  | join
  | returned
deriving DecidableEq, Repr

structure AsyncLogging where
  running : Bool
  currentBuffer : Option LogBuffer
  nextBuffer : Option LogBuffer
  buffers : List LogBuffer
  back : BackPc
  newBuffer1 : Option LogBuffer
  newBuffer2 : Option LogBuffer
  buffersToWrite : List LogBuffer
  stopper : StopPc
  /-- Every message appended, in the order of the critical sections. -/
  messages : List (List UInt8)
  /-- Every call of `LogFile::append`. -/
  output : List LogCall
deriving DecidableEq

namespace AsyncLogging

inductive Label where
  | append (msg : List UInt8)
  | start
  | test
  | lock
  | wake
  | limit
  | write
  | recycle
  | stop
  | notify
  | join
deriving DecidableEq, Repr

/-- Constructed, with the back-end thread created by `start()`. -/
def init : AsyncLogging where
  running := true
  currentBuffer := some .empty
  nextBuffer := some .empty
  buffers := []
  back := .starting
  newBuffer1 := none
  newBuffer2 := none
  buffersToWrite := []
  stopper := .idle
  messages := []
  output := []

/-- `AsyncLogging::append`.  A null `_currentBuffer` has no next state. -/
def append (s : AsyncLogging) (msg : List UInt8) : Option AsyncLogging :=
  s.currentBuffer.map fun cur ↦
    let s := { s with messages := s.messages ++ [msg] }
    if msg.length < cur.vaild then
      { s with currentBuffer := some (cur.append msg) }
    else
      -- the buffer is full: take the spare one, or allocate
      { s with
        buffers := s.buffers ++ [cur]
        currentBuffer := some ((s.nextBuffer.getD .empty).append msg)
        nextBuffer := none }

/-- The rest of the back end's critical section, from `_buffers.push_back` on. -/
def collect (s : AsyncLogging) : Option AsyncLogging :=
  s.currentBuffer.map fun cur ↦
    -- `_buffers.swap(buffersToWrite)`
    let s := { s with
      currentBuffer := s.newBuffer1
      newBuffer1 := none
      buffers := s.buffersToWrite
      buffersToWrite := s.buffers ++ [cur]
      back := .collected }
    match s.nextBuffer with
    | none => { s with nextBuffer := s.newBuffer2, newBuffer2 := none }
    | some _ => s

/-- Refill one of the two spare buffers from the back of the written ones. -/
def refill : Option LogBuffer → List LogBuffer → Option (Option LogBuffer × List LogBuffer)
  | some b, bs => some (some b, bs)
  | none, bs => bs.getLast?.map fun b ↦ (some b.reset, bs.dropLast)

def step (s : AsyncLogging) : Label → Option AsyncLogging
  | .append msg => s.append msg
  | .start =>
    match s.back with
    | .starting =>
      some { s with newBuffer1 := some .empty, newBuffer2 := some .empty, back := .test }
    | _ => none
  | .test =>
    match s.back with
    | .test => some { s with back := if s.running then .locking else .finished }
    | _ => none
  | .lock =>
    match s.back with
    -- an `if` around the wait, not a `while`: a timeout or a spurious wake-up collects as well
    | .locking => if s.buffers.isEmpty then some { s with back := .waiting } else s.collect
    | _ => none
  | .wake =>
    match s.back with
    | .waiting => s.collect
    | _ => none
  | .limit =>
    match s.back with
    | .collected =>
      if 25 < s.buffersToWrite.length then
        some { s with
          output := s.output ++ [.notice (s.buffersToWrite.length - 2)]
          buffersToWrite := s.buffersToWrite.take 2
          back := .writing (s.buffersToWrite.take 2) }
      else some { s with back := .writing s.buffersToWrite }
    | _ => none
  | .write =>
    match s.back with
    | .writing (b :: rest) =>
      some { s with output := s.output ++ [.buffer b.data], back := .writing rest }
    | .writing [] => some { s with back := .recycle }
    | _ => none
  | .recycle =>
    match s.back with
    | .recycle => do
      let (b1, bs) ← refill s.newBuffer1 (s.buffersToWrite.take 2)
      let (b2, _) ← refill s.newBuffer2 bs
      return { s with newBuffer1 := b1, newBuffer2 := b2, buffersToWrite := [], back := .test }
    | _ => none
  | .stop =>
    match s.stopper with
    | .idle => some { s with running := false, stopper := .notify }
    | _ => none
  | .notify =>
    match s.stopper with
    | .notify => some { s with stopper := .join }
    | _ => none
  | .join =>
    if s.stopper = .join ∧ s.back = .finished then some { s with stopper := .returned } else none

/-! ## 1. What a step can do -/

/-- One case for each way a step can end. -/
inductive StepTo (s : AsyncLogging) : Label → AsyncLogging → Prop
  | append {msg : List UInt8} {t : AsyncLogging} : s.append msg = some t → StepTo s (.append msg) t
  | start : s.back = .starting → StepTo s .start
      { s with newBuffer1 := some .empty, newBuffer2 := some .empty, back := .test }
  | test : s.back = .test →
      StepTo s .test { s with back := if s.running then .locking else .finished }
  | wait : s.back = .locking → StepTo s .lock { s with back := .waiting }
  | collect {l : Label} {t : AsyncLogging} : l = .lock ∨ l = .wake →
      s.back = .locking ∨ s.back = .waiting → s.collect = some t → StepTo s l t
  | cut : s.back = .collected → 25 < s.buffersToWrite.length → StepTo s .limit
      { s with
        output := s.output ++ [.notice (s.buffersToWrite.length - 2)]
        buffersToWrite := s.buffersToWrite.take 2
        back := .writing (s.buffersToWrite.take 2) }
  | limit : s.back = .collected → s.buffersToWrite.length ≤ 25 → StepTo s .limit
      { s with back := .writing s.buffersToWrite }
  | write {b : LogBuffer} {rest : List LogBuffer} : s.back = .writing (b :: rest) →
      StepTo s .write { s with output := s.output ++ [.buffer b.data], back := .writing rest }
  | written : s.back = .writing [] → StepTo s .write { s with back := .recycle }
  | recycle {b1 b2 : Option LogBuffer} {bs bs' : List LogBuffer} : s.back = .recycle →
      refill s.newBuffer1 (s.buffersToWrite.take 2) = some (b1, bs) →
      refill s.newBuffer2 bs = some (b2, bs') → StepTo s .recycle
      { s with newBuffer1 := b1, newBuffer2 := b2, buffersToWrite := [], back := .test }
  | stop : s.stopper = .idle → StepTo s .stop { s with running := false, stopper := .notify }
  | notify : s.stopper = .notify → StepTo s .notify { s with stopper := .join }
  | join : s.stopper = .join → s.back = .finished → StepTo s .join { s with stopper := .returned }

theorem step_cases {s t : AsyncLogging} {l : Label} (h : s.step l = some t) : StepTo s l t := by
  cases l with
  | append msg => exact .append h
  | lock =>
    simp only [step] at h
    split at h
    · split at h
      · cases h
        exact .wait ‹_›
      · exact .collect (Or.inl rfl) (Or.inl ‹_›) h
    · cases h
  | wake =>
    simp only [step] at h
    split at h
    · exact .collect (Or.inr rfl) (Or.inr ‹_›) h
    · cases h
  | limit =>
    simp only [step] at h
    split at h
    · split at h <;> cases h
      · exact .cut ‹_› ‹_›
      · exact .limit ‹_› (Nat.le_of_not_lt ‹_›)
    · cases h
  | write =>
    simp only [step] at h
    split at h <;> cases h
    · exact .write ‹_›
    · exact .written ‹_›
  | recycle =>
    simp only [step] at h
    split at h
    · simp only [Option.bind_eq_bind, Option.bind_eq_some_iff, Option.pure_def,
        Option.some.injEq] at h
      obtain ⟨⟨b1, bs⟩, h1, ⟨b2, bs'⟩, h2, rfl⟩ := h
      exact .recycle ‹_› h1 h2
    · cases h
  | start =>
    simp only [step] at h
    split at h <;> cases h
    exact .start ‹_›
  | test =>
    simp only [step] at h
    split at h <;> cases h
    exact .test ‹_›
  | stop =>
    simp only [step] at h
    split at h <;> cases h
    exact .stop ‹_›
  | notify =>
    simp only [step] at h
    split at h <;> cases h
    exact .notify ‹_›
  | join =>
    simp only [step, Option.ite_none_right_eq_some, Option.some.injEq] at h
    obtain ⟨⟨hs, hb⟩, rfl⟩ := h
    exact .join hs hb

/-! ## 2. Conservation -/

def bytes (bs : List LogBuffer) : List UInt8 := (bs.map (·.data)).flatten

/-- The bytes passed to `LogFile::append` so far, notices left aside. -/
def logged (s : AsyncLogging) : List UInt8 :=
  s.output.flatMap fun
    | .buffer data => data
    | .notice _ => []

/-- What was collected and is still to be written. -/
def unwritten (s : AsyncLogging) : List UInt8 :=
  match s.back with
  | .collected => bytes s.buffersToWrite
  | .writing rest => bytes rest
  | _ => []

/-- What the back end has not collected yet. -/
def uncollected (s : AsyncLogging) : List UInt8 :=
  bytes s.buffers ++ (s.currentBuffer.elim [] (·.data))

@[simp] theorem bytes_nil : bytes [] = [] := rfl

@[simp] theorem bytes_cons (b : LogBuffer) (bs : List LogBuffer) :
    bytes (b :: bs) = b.data ++ bytes bs := rfl

@[simp] theorem bytes_append (bs bs' : List LogBuffer) :
    bytes (bs ++ bs') = bytes bs ++ bytes bs' := by
  simp [bytes]

def Spare (b : Option LogBuffer) : Prop := ∀ x, b = some x → x.data = []

theorem Spare.elim {b : Option LogBuffer} (h : Spare b) : (b.elim [] (·.data)) = [] := by
  cases b with
  | none => rfl
  | some x => exact h x rfl

theorem Spare.getD {b : Option LogBuffer} (h : Spare b) : (b.getD .empty).data = [] := by
  cases b with
  | none => rfl
  | some x => exact h x rfl

theorem spare_empty : Spare (some .empty) := fun x hx ↦ by cases hx; rfl

theorem spare_none : Spare none := fun x hx ↦ by cases hx

theorem spare_refill {b b' : Option LogBuffer} {bs bs' : List LogBuffer} (h : Spare b)
    (hr : refill b bs = some (b', bs')) : Spare b' := by
  cases b with
  | some x =>
    simp only [refill, Option.some.injEq, Prod.mk.injEq] at hr
    obtain ⟨rfl, -⟩ := hr
    exact h
  | none =>
    simp only [refill, Option.map_eq_some_iff, Prod.mk.injEq] at hr
    obtain ⟨y, -, rfl, -⟩ := hr
    intro x hx
    cases hx
    rfl

/-- The spare buffers are empty, `buffersToWrite` is empty until a collection fills it, and every
byte appended is written, about to be written, or still with the front end. -/
structure Conserved (s : AsyncLogging) : Prop where
  next : Spare s.nextBuffer
  new1 : Spare s.newBuffer1
  new2 : Spare s.newBuffer2
  cleared : s.back = .starting ∨ s.back = .test ∨ s.back = .locking ∨ s.back = .waiting →
    s.buffersToWrite = []
  bytes_eq : s.logged ++ s.unwritten ++ s.uncollected = s.messages.flatten

theorem init_conserved : init.Conserved :=
  ⟨spare_empty, spare_none, spare_none, fun _ ↦ rfl, rfl⟩

/-- Messages fit a buffer, and no batch is cut. -/
def Small (s : AsyncLogging) : Label → Prop
  | .append msg => msg.length < cLargeBuffer
  | .limit => s.buffersToWrite.length ≤ 25
  | _ => True

instance (s : AsyncLogging) : (l : Label) → Decidable (s.Small l)
  | .append msg => inferInstanceAs (Decidable (msg.length < cLargeBuffer))
  | .limit => inferInstanceAs (Decidable (s.buffersToWrite.length ≤ 25))
  | .start | .test | .lock | .wake | .write | .recycle | .stop | .notify | .join => .isTrue trivial

theorem append_conserved {s t : AsyncLogging} {msg : List UInt8} (h : s.Conserved)
    (hlen : msg.length < cLargeBuffer) (hstep : s.append msg = some t) : t.Conserved := by
  have hall := h.bytes_eq
  simp only [append, Option.map_eq_some_iff] at hstep
  obtain ⟨cur, hcur, rfl⟩ := hstep
  by_cases hfit : msg.length < cur.vaild
  · rw [if_pos hfit]
    refine ⟨h.next, h.new1, h.new2, h.cleared, ?_⟩
    simp only [logged, unwritten, uncollected, hcur, Option.elim_some, List.flatten_append,
      FixedBuffer.append_data hfit] at hall ⊢
    rw [← hall]
    simp
  · -- the full buffer goes behind the others, the message opens an empty one
    rw [if_neg hfit]
    refine ⟨spare_none, h.new1, h.new2, h.cleared, ?_⟩
    have hroom : msg.length < (s.nextBuffer.getD .empty).vaild := by
      rw [FixedBuffer.vaild_of_data_nil h.next.getD]
      exact hlen
    simp only [logged, unwritten, uncollected, hcur, Option.elim_some, List.flatten_append,
      FixedBuffer.append_data hroom, h.next.getD] at hall ⊢
    rw [← hall]
    simp

theorem collect_conserved {s t : AsyncLogging} (h : s.Conserved)
    (hback : s.back = .locking ∨ s.back = .waiting) (hstep : s.collect = some t) :
    t.Conserved ∧ t.uncollected = [] ∧ t.back = .collected ∧ t.running = s.running := by
  have hall := h.bytes_eq
  -- what is swapped in for `_buffers` is empty, and so is the new current buffer
  have hclear : s.buffersToWrite = [] := h.cleared (Or.inr (Or.inr hback))
  have hun : s.unwritten = [] := by rcases hback with hb | hb <;> simp [unwritten, hb]
  simp only [collect, Option.map_eq_some_iff] at hstep
  obtain ⟨cur, hcur, rfl⟩ := hstep
  rw [hun, List.append_nil, uncollected, hcur, Option.elim_some] at hall
  split
  · rename_i hnext
    refine ⟨⟨h.new2, spare_none, spare_none, fun hb ↦ by simp at hb, ?_⟩, ?_, rfl, rfl⟩
    · simp only [logged, unwritten, uncollected, hclear, h.new1.elim, bytes_append] at hall ⊢
      simpa using hall
    · simp [uncollected, hclear, h.new1.elim]
  · refine ⟨⟨h.next, spare_none, h.new2, fun hb ↦ by simp at hb, ?_⟩, ?_, rfl, rfl⟩
    · simp only [logged, unwritten, uncollected, hclear, h.new1.elim, bytes_append] at hall ⊢
      simpa using hall
    · simp [uncollected, hclear, h.new1.elim]

theorem step_conserved {s t : AsyncLogging} {l : Label} (h : s.Conserved) (hsmall : s.Small l)
    (hstep : s.step l = some t) : t.Conserved := by
  have hall := h.bytes_eq
  cases step_cases hstep with
  | append happend => exact append_conserved h hsmall happend
  | start hb =>
    refine ⟨h.next, spare_empty, spare_empty, fun _ ↦ h.cleared (Or.inl hb), ?_⟩
    simpa [logged, unwritten, uncollected, hb] using hall
  | test hb =>
    refine ⟨h.next, h.new1, h.new2, fun _ ↦ h.cleared (Or.inr (Or.inl hb)), ?_⟩
    cases hr : s.running <;> simpa [logged, unwritten, uncollected, hb, hr] using hall
  | wait hb =>
    refine ⟨h.next, h.new1, h.new2, fun _ ↦ h.cleared (Or.inr (Or.inr (Or.inl hb))), ?_⟩
    simpa [logged, unwritten, uncollected, hb] using hall
  | collect _ hb hcollect => exact (collect_conserved h hb hcollect).1
  | cut _ hcut => exact ((Nat.not_lt.mpr hsmall) hcut).elim
  | limit hb | write hb | written hb =>
    refine ⟨h.next, h.new1, h.new2, fun hb' ↦ by simp at hb', ?_⟩
    simpa [logged, unwritten, uncollected, hb] using hall
  | recycle hb h1 h2 =>
    refine ⟨h.next, spare_refill h.new1 h1, spare_refill h.new2 h2, fun _ ↦ rfl, ?_⟩
    simpa [logged, unwritten, uncollected, hb] using hall
  | stop | notify | join => exact ⟨h.next, h.new1, h.new2, h.cleared, hall⟩

/-! ## 3. What `stop()` leaves behind -/

/-- `stop()` is behind its store and the back end is past its last collection, with `left` not
collected. -/
def Leaving (left : List UInt8) (s : AsyncLogging) : Prop :=
  s.running = false ∧ s.back ≠ .locking ∧ s.back ≠ .waiting ∧ s.uncollected = left

/-- `stop()` is behind its store and the back end is about to collect once more. -/
def Collecting (s : AsyncLogging) : Prop :=
  s.running = false ∧ (s.back = .locking ∨ s.back = .waiting)

/-- `join` returns only when the back end is done. -/
def Joined (s : AsyncLogging) : Prop := s.stopper = .returned → s.back = .finished

theorem append_back {s t : AsyncLogging} {msg : List UInt8} (h : s.append msg = some t) :
    t.back = s.back ∧ t.stopper = s.stopper := by
  simp only [append, Option.map_eq_some_iff] at h
  obtain ⟨cur, -, rfl⟩ := h
  split <;> exact ⟨rfl, rfl⟩

theorem collect_stopper {s t : AsyncLogging} (h : s.collect = some t) : t.stopper = s.stopper := by
  simp only [collect, Option.map_eq_some_iff] at h
  obtain ⟨cur, -, rfl⟩ := h
  split <;> rfl

theorem step_joined {s t : AsyncLogging} {l : Label} (h : s.Joined) (hstep : s.step l = some t) :
    t.Joined := by
  -- a back end that still moves has not been joined
  have hmoves (hb : s.back ≠ .finished) (hstopper : t.stopper = s.stopper) : t.Joined :=
    fun hr ↦ (hb (h (hstopper ▸ hr))).elim
  cases step_cases hstep with
  | append happend =>
    obtain ⟨hback, hstopper⟩ := append_back happend
    intro hr
    rw [hback]
    exact h (hstopper ▸ hr)
  | collect _ hb hcollect =>
    refine hmoves ?_ (collect_stopper hcollect)
    rcases hb with hb | hb <;> simp [hb]
  | start hb | test hb | wait hb | cut hb | limit hb | write hb | written hb | recycle hb =>
    exact hmoves (by simp [hb]) rfl
  | stop | notify => exact fun hr ↦ by simp at hr
  | join _ hb => exact fun _ ↦ hb

/-- Without further appends the back end now only writes out what it has and leaves its loop. -/
theorem step_leaving {left : List UInt8} {s t : AsyncLogging} {l : Label} (h : s.Leaving left)
    (hl : ∀ msg, l ≠ .append msg) (hstep : s.step l = some t) : t.Leaving left := by
  obtain ⟨hrun, hlock, hwait, hleft⟩ := h
  cases step_cases hstep with
  | append => exact (hl _ rfl).elim
  | wait hb => exact (hlock hb).elim
  | collect _ hb => exact (hb.elim hlock hwait).elim
  | test => exact ⟨hrun, by simp [hrun], by simp [hrun], hleft⟩
  | start | cut | limit | write | written | recycle => exact ⟨hrun, by simp, by simp, hleft⟩
  | stop => exact ⟨rfl, hlock, hwait, hleft⟩
  | notify | join => exact ⟨hrun, hlock, hwait, hleft⟩

/-- A last collection takes everything. -/
theorem step_collecting {s t : AsyncLogging} {l : Label} (hc : s.Conserved) (h : s.Collecting)
    (hl : ∀ msg, l ≠ .append msg) (hstep : s.step l = some t) : t.Collecting ∨ t.Leaving [] := by
  obtain ⟨hrun, hback⟩ := h
  cases step_cases hstep with
  | append => exact (hl _ rfl).elim
  | wait => exact Or.inl ⟨hrun, Or.inr rfl⟩
  | collect _ _ hcollect =>
    obtain ⟨-, hun, hb, hr⟩ := collect_conserved hc hback hcollect
    exact Or.inr ⟨hr.trans hrun, by simp [hb], by simp [hb], hun⟩
  | start hb | test hb | cut hb | limit hb | write hb | written hb | recycle hb =>
    simp [hb] at hback
  | stop => exact Or.inl ⟨rfl, hback⟩
  | notify | join => exact Or.inl ⟨hrun, hback⟩

/-- When `stop()` has returned the back end is done, so only what it did not collect is missing. -/
theorem Leaving.logged_iff {s : AsyncLogging} {left : List UInt8} (h : s.Leaving left)
    (hcons : s.Conserved) (hjoined : s.Joined) (hret : s.stopper = .returned) :
    s.logged = s.messages.flatten ↔ left = [] := by
  have hall := hcons.bytes_eq
  have hdone : s.unwritten = [] := by simp [unwritten, hjoined hret]
  rw [hdone, List.append_nil, h.2.2.2] at hall
  rw [← hall]
  simp

/-- **When `stop()` leaves nothing behind.**  Of the messages appended before `stop()`, all have been
passed to `LogFile::append` when it returns exactly if its store to `_running` found the back end
between its test of the loop condition and its collection, or found nothing to collect. -/
theorem stop_writes_everything_iff {pre post : List Label} {s₁ s : AsyncLogging}
    (hpre : Trace.run step init pre = some s₁) (hpost : Trace.run step s₁ (.stop :: post) = some s)
    (hsmall : Trace.Along step Small init (pre ++ .stop :: post))
    (hlast : ∀ msg, .append msg ∉ post) (hret : s.stopper = .returned) :
    s.logged = s.messages.flatten ↔
      s₁.back = .locking ∨ s₁.back = .waiting ∨ s₁.uncollected = [] := by
  obtain ⟨hsmall₁, hsmall₂⟩ := Trace.along_append.mp hsmall
  have hboth₁ : s₁.Conserved ∧ s₁.Joined :=
    Trace.run_inv_along (I := fun s ↦ s.Conserved ∧ s.Joined)
      (fun _ _ _ hs hp hstep ↦ ⟨step_conserved hs.1 hp hstep, step_joined hs.2 hstep⟩)
      ⟨init_conserved, fun hr ↦ by simp [init] at hr⟩ hsmall₁ hpre
  obtain ⟨s₂, hstop, hrest⟩ := Trace.run_cons_eq_some.mp hpost
  have hmem : ∀ l ∈ post, ∀ (_ : AsyncLogging) msg, l ≠ .append msg := by
    rintro l hl - msg rfl
    exact hlast msg hl
  have hquiet : Trace.Along step (fun s l ↦ s.Small l ∧ ∀ msg, l ≠ .append msg) s₂ post :=
    ((hsmall₂ s₁ hpre).2 s₂ hstop).and (Trace.along_of_forall_mem hmem)
  have hcons₂ := step_conserved hboth₁.1 (hsmall₂ s₁ hpre).1 hstop
  have hjoin₂ := step_joined hboth₁.2 hstop
  have hstop' : s₂ = { s₁ with running := false, stopper := .notify } := by
    simp only [step] at hstop
    split at hstop <;> cases hstop
    rfl
  by_cases hback : s₁.back = .locking ∨ s₁.back = .waiting
  · -- one more collection, and then the back end leaves
    obtain ⟨hc, hj, hphase⟩ : s.Conserved ∧ s.Joined ∧ (s.Collecting ∨ s.Leaving []) :=
      Trace.run_inv_along (I := fun s ↦ s.Conserved ∧ s.Joined ∧ (s.Collecting ∨ s.Leaving []))
        (fun u l v hu hp hstep ↦ ⟨step_conserved hu.1 hp.1 hstep, step_joined hu.2.1 hstep,
          hu.2.2.elim (fun hcol ↦ step_collecting hu.1 hcol hp.2 hstep)
            fun hleave ↦ Or.inr (step_leaving hleave hp.2 hstep)⟩)
        ⟨hcons₂, hjoin₂, Or.inl (by rw [hstop']; exact ⟨rfl, hback⟩)⟩ hquiet hrest
    have hleave : s.Leaving [] := by
      rcases hphase with ⟨-, hb⟩ | hleave
      · simp [hj hret] at hb
      · exact hleave
    exact ⟨fun _ ↦ hback.imp_right Or.inl, fun _ ↦ (hleave.logged_iff hc hj hret).mpr rfl⟩
  · -- the next test ends the loop with what is uncollected now
    obtain ⟨hlock, hwait⟩ := not_or.mp hback
    obtain ⟨hc, hj, hleave⟩ : s.Conserved ∧ s.Joined ∧ s.Leaving s₁.uncollected :=
      Trace.run_inv_along (I := fun s ↦ s.Conserved ∧ s.Joined ∧ s.Leaving s₁.uncollected)
        (fun u l v hu hp hstep ↦ ⟨step_conserved hu.1 hp.1 hstep, step_joined hu.2.1 hstep,
          step_leaving hu.2.2 hp.2 hstep⟩)
        ⟨hcons₂, hjoin₂, by rw [hstop']; exact ⟨rfl, hlock, hwait, rfl⟩⟩ hquiet hrest
    rw [hleave.logged_iff hc hj hret]
    simp [hlock, hwait]

theorem stop_writes_everything_iff_while_waiting :
    ∃ s, Trace.run step init [.start, .test, .lock, .append [104, 105], .stop, .notify, .wake,
        .limit, .write, .write, .recycle, .test, .join] = some s ∧ s.logged = [104, 105] := by
  have h := stop_writes_everything_iff
    (show Trace.run step init [.start, .test, .lock, .append [104, 105]] = some _ from rfl)
    (show Trace.run step _ [.stop, .notify, .wake, .limit, .write, .write, .recycle, .test, .join] =
      some _ from rfl)
    (by decide) (by simp) rfl
  exact ⟨_, rfl, h.mpr (Or.inr (Or.inl rfl))⟩

/-- A message appended while the back end writes, before a `stop()` that also falls into the
writing, is never collected: the next test of `_running` ends the loop. -/
theorem stop_loses_message_appended_while_writing :
    ∃ s, Trace.run step init [.start, .test, .lock, .wake, .limit, .append [104, 105], .stop,
        .notify, .write, .write, .recycle, .test, .join] = some s ∧
      s.stopper = .returned ∧ s.messages = [[104, 105]] ∧ s.output = [.buffer []] ∧
      s.logged ≠ s.messages.flatten :=
  ⟨_, rfl, rfl, rfl, rfl, by decide⟩

end AsyncLogging

end Netlib
