import Netlib.Lib.Run
import Netlib.Lib.OrdSet

/-!
# `netlib::TimerQueue`

Two ordered sets over raw `Timer` objects, one by expiration and one by address, and the batch that
`handleRead` takes out of both (`net/TimerQueue.cc`, `net/Timer.cc`).  The heap maps an address to
the `Timer` that lives there; a failed `assert`, an access to a dead `Timer` and a second `delete`
are faults.  Callbacks are steps taken while a batch is being run.
-/

namespace Netlib

/-- Microseconds since the epoch. -/
abbrev Time := Int

abbrev Address := Nat

def uintptrMax : Address := 2 ^ 64 - 1

/-- `interval` is what `addTime` makes of the `double`, a whole number of microseconds; `repeats` is
the test `interval > 0.0` of the `double` itself. -/
structure Timer where
  expiration : Time
  interval : Int
  repeats : Bool
  sequence : Nat
deriving DecidableEq, Repr

/-- `Timer::restart`. -/
def Timer.restart (timer : Timer) (now : Time) : Timer :=
  { timer with expiration := if timer.repeats then now + timer.interval else 0 }

structure Entry where
  when : Time
  timer : Address
deriving DecidableEq, Repr

structure ActiveTimer where
  timer : Address
  sequence : Nat
deriving DecidableEq, Repr

/-- The order of `std::pair<Time, Timer*>`. -/
instance : LinearOrder Entry :=
  LinearOrder.lift' (fun e ↦ toLex (e.when, e.timer)) fun a b h ↦ by
    cases a; cases b; simpa using h

/-- The order of `std::pair<Timer*, int64_t>`. -/
instance : LinearOrder ActiveTimer :=
  LinearOrder.lift' (fun a ↦ toLex (a.timer, a.sequence)) fun a b h ↦ by
    cases a; cases b; simpa using h

theorem Entry.lt_iff {a b : Entry} :
    a < b ↔ a.when < b.when ∨ a.when = b.when ∧ a.timer < b.timer :=
  Prod.Lex.toLex_lt_toLex

inductive TimerFault where
  | assertion
  | deadTimer (p : Address)
deriving DecidableEq, Repr

/-- What happened to a `Timer`, named by its sequence number. -/
inductive TimerEvent where
  | inserted (sequence : Nat)
  | ran (sequence : Nat)
  | restarted (sequence : Nat)
  | deleted (sequence : Nat)
deriving DecidableEq, Repr

def TimerEvent.sequence : TimerEvent → Nat
  | .inserted q | .ran q | .restarted q | .deleted q => q

/-- A `timerfd_settime`: for which time it was meant, and at which clock reading it was made. -/
structure Arming where
  target : Time
  clock : Time
deriving DecidableEq, Repr

/-- `handleRead` behind `getExpired`: what it took, and what it still has to run of that. -/
structure ExpiredBatch where
  now : Time
  expired : List Entry
  rest : List Entry
deriving DecidableEq, Repr

structure TimerQueue where
  heap : Address → Option Timer
  /-- `Timer::INDEX`. -/
  index : Nat
  timers : OrdSet Entry
  activeTimers : OrdSet ActiveTimer
  canllingTimers : OrdSet ActiveTimer
  callingExpiredTimer : Bool
  /-- Allocated by `addTimer`, with `addTimerInLoop` still to come. -/
  adding : List Address
  batch : Option ExpiredBatch
  /-- The arming of `_timerFd` that has not been read yet. -/
  timerFd : Option Arming
  log : List TimerEvent

namespace TimerQueue

def init : TimerQueue where
  heap := fun _ ↦ none
  index := 0
  timers := .empty
  activeTimers := .empty
  canllingTimers := .empty
  callingExpiredTimer := false
  adding := []
  batch := none
  timerFd := none
  log := []

/-! ## 1. The operations -/

def check (p : Prop) [Decidable p] : Except TimerFault Unit :=
  if p then .ok () else .error .assertion

/-- Follow a `Timer*`. -/
def deref (s : TimerQueue) (p : Address) : Except TimerFault Timer :=
  match s.heap p with
  | some timer => .ok timer
  | none => .error (.deadTimer p)

def sizesAgree (s : TimerQueue) : Prop := s.timers.size = s.activeTimers.size

instance (s : TimerQueue) : Decidable s.sizesAgree := inferInstanceAs (Decidable (_ = _))

def setTimer (s : TimerQueue) (p : Address) (timer : Option Timer) : TimerQueue :=
  { s with heap := Function.update s.heap p timer }

def record (s : TimerQueue) (e : TimerEvent) : TimerQueue := { s with log := s.log ++ [e] }

/-- `new Timer`, at an address of the allocator's choice. -/
def newTimer (s : TimerQueue) (p : Address) (when : Time) (interval : Int) (repeats : Bool) :
    TimerQueue :=
  let s := { s with index := s.index + 1, adding := s.adding ++ [p] }
  s.setTimer p (some ⟨when, interval, repeats, s.index⟩)

/-- `delete`. -/
def deleteTimer (s : TimerQueue) (p : Address) : Except TimerFault TimerQueue := do
  let timer ← s.deref p
  .ok ((s.setTimer p none).record (.deleted timer.sequence))

def resetTimerFd (s : TimerQueue) (expiration clock : Time) : TimerQueue :=
  { s with timerFd := some ⟨expiration, clock⟩ }

/-- The sets of `insert`. -/
def put (s : TimerQueue) (p : Address) (timer : Timer) : TimerQueue :=
  { s with
    timers := s.timers.insert ⟨timer.expiration, p⟩
    activeTimers := s.activeTimers.insert ⟨p, timer.sequence⟩ }.record (.inserted timer.sequence)

def insert (s : TimerQueue) (p : Address) : Except TimerFault (Bool × TimerQueue) := do
  check s.sizesAgree
  let timer ← s.deref p
  -- before the insertion: `_timers` empty, or its first entry later than the new one
  let earliestChange := s.timers.toList.head?.all fun e ↦ timer.expiration < e.when
  .ok (earliestChange, s.put p timer)

def addTimerInLoop (s : TimerQueue) (p : Address) (clock : Time) : Except TimerFault TimerQueue := do
  let (earliestChange, s) ← s.insert p
  if earliestChange then
    let timer ← s.deref p
    .ok (s.resetTimerFd timer.expiration clock)
  else .ok s

def cancleInLoop (s : TimerQueue) (timerId : ActiveTimer) : Except TimerFault TimerQueue := do
  check s.sizesAgree
  let t ←
    if timerId ∈ s.activeTimers then do
      let timer ← s.deref timerId.timer
      let entry : Entry := ⟨timer.expiration, timerId.timer⟩
      -- assert(n == 1), then `delete`, then the other set
      check (entry ∈ s.timers)
      let t ← { s with timers := s.timers.erase entry }.deleteTimer timerId.timer
      .ok { t with activeTimers := t.activeTimers.erase timerId }
    -- in the batch being run, or gone: remember it for `reset`
    else if s.callingExpiredTimer then
      .ok { s with canllingTimers := s.canllingTimers.insert timerId }
    else .ok s
  check t.sizesAgree
  .ok t

/-- One turn of the `for` in `getExpired`. -/
def eraseActive (s : TimerQueue) (e : Entry) : Except TimerFault TimerQueue := do
  let timer ← s.deref e.timer
  check (⟨e.timer, timer.sequence⟩ ∈ s.activeTimers)
  .ok { s with activeTimers := s.activeTimers.erase ⟨e.timer, timer.sequence⟩ }

def getExpired (s : TimerQueue) (now : Time) : Except TimerFault (List Entry × TimerQueue) := do
  check s.sizesAgree
  -- the entry behind everything that expires at `now`
  let sentry : Entry := ⟨now, uintptrMax⟩
  let rest := s.timers.atLeast sentry
  check (∀ e ∈ rest.toList.head?, now < e.when)
  let expired := (s.timers.below sentry).toList
  let s ← expired.foldlM eraseActive { s with timers := rest }
  check s.sizesAgree
  .ok (expired, s)

/-- `handleRead` up to the first callback.  The read finds nothing when the descriptor was armed
again after `epoll_wait` had reported it. -/
def handleRead (s : TimerQueue) (now : Time) (fired : Bool) : Except TimerFault TimerQueue := do
  let (expired, s) ← { s with timerFd := if fired then none else s.timerFd }.getExpired now
  .ok { s with
    callingExpiredTimer := true
    canllingTimers := .empty
    batch := some ⟨now, expired, expired⟩ }

/-- One turn of the `for` in `reset`. -/
def resetOne (now : Time) (s : TimerQueue) (e : Entry) : Except TimerFault TimerQueue := do
  let timer ← s.deref e.timer
  if timer.repeats = true ∧ ⟨e.timer, timer.sequence⟩ ∉ s.canllingTimers then
    -- the result of `insert` is not used here, `reset` arms the descriptor itself
    let s := (s.setTimer e.timer (some (timer.restart now))).record (.restarted timer.sequence)
    let (_, s) ← s.insert e.timer
    .ok s
  else s.deleteTimer e.timer

def reset (s : TimerQueue) (expired : List Entry) (now clock : Time) :
    Except TimerFault TimerQueue := do
  let s ← expired.foldlM (resetOne now) s
  match s.timers.toList with
  | [] => .ok s
  | e :: _ => do
    let timer ← s.deref e.timer
    if 0 < timer.expiration then .ok (s.resetTimerFd timer.expiration clock) else .ok s

inductive Label where
  | newTimer (p : Address) (when : Time) (interval : Int) (repeats : Bool)
  | addTimerInLoop (p : Address) (clock : Time)
  | cancleInLoop (timerId : ActiveTimer)
  | handleRead (now : Time) (fired : Bool)
  | run
  | reset (clock : Time)
deriving DecidableEq, Repr

/-- The loop thread, with `new Timer` of any thread.  The steps of a callback are those between the
`run` that starts it and the next `run` or `reset`. -/
def step (s : TimerQueue) : Label → Option (Except TimerFault TimerQueue)
  | .newTimer p when interval repeats =>
    -- the allocator gives out no address that is in use, and never the last one
    if s.heap p = none ∧ p < uintptrMax then some (.ok (s.newTimer p when interval repeats))
    else none
  | .addTimerInLoop p clock =>
    if p ∈ s.adding then some ({ s with adding := s.adding.erase p }.addTimerInLoop p clock)
    else none
  | .cancleInLoop timerId => some (s.cancleInLoop timerId)
  | .handleRead now fired =>
    match s.batch with
    | none => some (s.handleRead now fired)
    | some _ => none
  | .run =>
    match s.batch with
    | some ⟨now, expired, e :: rest⟩ =>
      some do
        let timer ← s.deref e.timer
        .ok { s.record (.ran timer.sequence) with batch := some ⟨now, expired, rest⟩ }
    | _ => none
  | .reset clock =>
    match s.batch with
    | some ⟨now, expired, []⟩ =>
      some do
        let s ← { s with callingExpiredTimer := false }.reset expired now clock
        .ok { s with batch := none }
    | _ => none

/-- A fault ends the process. -/
def next : Except TimerFault TimerQueue → Label → Option (Except TimerFault TimerQueue)
  | .ok s, l => s.step l
  | .error _, _ => none

/-! ## 2. Who holds a `Timer` -/

/-- `_timers` and `_activeTimers` hold the same live timers, `_timers` under their expirations. -/
structure OneToOne (s : TimerQueue) : Prop where
  active : ∀ e ∈ s.timers, ∃ timer, s.heap e.timer = some timer ∧ timer.expiration = e.when ∧
    ⟨e.timer, timer.sequence⟩ ∈ s.activeTimers
  timed : ∀ a ∈ s.activeTimers, ∃ timer, s.heap a.timer = some timer ∧
    timer.sequence = a.sequence ∧ ⟨timer.expiration, a.timer⟩ ∈ s.timers

/-- The live timers are those in the sets and those in `loose`, no timer in two places. -/
structure Held (s : TimerQueue) (loose : List Address) : Prop where
  held : ∀ p timer, s.heap p = some timer → ⟨timer.expiration, p⟩ ∈ s.timers ∨ p ∈ loose
  live : ∀ p ∈ loose, (s.heap p).isSome
  nodup : loose.Nodup
  apart : ∀ p ∈ loose, ∀ e ∈ s.timers, e.timer ≠ p

/-- Nothing happens to a timer behind its deletion, a second deletion included. -/
def CleanLog (log : List TimerEvent) : Prop :=
  log.Pairwise fun earlier later ↦ earlier ≠ .deleted later.sequence

/-- Sequence numbers tell timers apart, also from those that are gone. -/
structure Named (s : TimerQueue) : Prop where
  issued : ∀ p timer, s.heap p = some timer → timer.sequence ≤ s.index
  injective : ∀ p q timer timer', s.heap p = some timer → s.heap q = some timer' →
    timer.sequence = timer'.sequence → p = q
  logged : ∀ e ∈ s.log, e.sequence ≤ s.index
  undeleted : ∀ p timer, s.heap p = some timer → .deleted timer.sequence ∉ s.log
  clean : CleanLog s.log

structure Good (s : TimerQueue) (loose : List Address) : Prop where
  oneToOne : s.OneToOne
  held : s.Held loose
  named : s.Named
  address : ∀ p timer, s.heap p = some timer → p < uintptrMax

theorem OneToOne.sizesAgree {s : TimerQueue} (h : s.OneToOne) : s.sizesAgree := by
  -- an entry goes to the pair of its timer and the sequence number found there
  refine OrdSet.size_eq_of_bijOn
    (fun e ↦ ⟨e.timer, (s.heap e.timer).elim 0 Timer.sequence⟩) ?_ ?_ ?_
  · intro e he
    obtain ⟨timer, hheap, -, hact⟩ := h.active e he
    simpa [hheap] using hact
  · intro e he e' he' heq
    have htimer : e.timer = e'.timer := congrArg ActiveTimer.timer heq
    obtain ⟨timer, hheap, hexp, -⟩ := h.active e he
    obtain ⟨timer', hheap', hexp', -⟩ := h.active e' he'
    rw [htimer, hheap', Option.some.injEq] at hheap
    have hwhen : e.when = e'.when := by rw [← hexp, ← hexp', hheap]
    cases e
    cases e'
    simp_all
  · intro a ha
    obtain ⟨timer, hheap, hseq, hmem⟩ := h.timed a ha
    refine ⟨⟨timer.expiration, a.timer⟩, hmem, ?_⟩
    cases a
    simp_all

theorem Good.perm {s : TimerQueue} {l l' : List Address} (h : s.Good l) (hp : l.Perm l') :
    s.Good l' :=
  ⟨h.oneToOne,
    ⟨fun p timer hheap ↦ (h.held.held p timer hheap).imp_right hp.mem_iff.mp,
      fun p hm ↦ h.held.live p (hp.mem_iff.mpr hm), hp.nodup_iff.mp h.held.nodup,
      fun p hm ↦ h.held.apart p (hp.mem_iff.mpr hm)⟩,
    h.named, h.address⟩

/-- The fields that `Good` does not read. -/
theorem Good.of_eq {s t : TimerQueue} {loose : List Address} (h : s.Good loose)
    (hheap : t.heap = s.heap) (hindex : t.index = s.index) (htimers : t.timers = s.timers)
    (hact : t.activeTimers = s.activeTimers) (hlog : t.log = s.log) : t.Good loose := by
  obtain ⟨⟨h1, h2⟩, ⟨h3, h4, h5, h6⟩, ⟨h7, h8, h9, h10, h11⟩, h12⟩ := h
  refine ⟨⟨?_, ?_⟩, ⟨?_, ?_, h5, ?_⟩, ⟨?_, ?_, ?_, ?_, ?_⟩, ?_⟩ <;>
    simp only [hheap, hindex, htimers, hact, hlog] <;> assumption

theorem CleanLog.append {log : List TimerEvent} (h : CleanLog log) {e : TimerEvent}
    (he : .deleted e.sequence ∉ log) : CleanLog (log ++ [e]) := by
  refine List.pairwise_append.mpr ⟨h, List.pairwise_singleton .., fun d hd e' he' hdel ↦ he ?_⟩
  rw [List.mem_singleton.mp he'] at hdel
  exact hdel ▸ hd

/-! ## 3. Moving a `Timer` about -/

section Moves

variable {s : TimerQueue} {p : Address} {timer : Timer} {loose : List Address}

theorem Good.newTimer (h : s.Good loose) (hfree : s.heap p = none) (hp : p < uintptrMax)
    (when : Time) (interval : Int) (repeats : Bool) :
    (s.newTimer p when interval repeats).Good (p :: loose) := by
  obtain ⟨⟨hactive, htimed⟩, ⟨hheld, hlive, hnodup, hapart⟩,
    ⟨hissued, hinj, hlogged, hundel, hclean⟩, haddr⟩ := h
  -- the address is free, so nothing that is held or in a set is at it
  have hout : p ∉ loose := fun hmem ↦ by simpa [hfree] using hlive p hmem
  have hfresh : .deleted (s.index + 1) ∉ s.log := fun hmem ↦ by
    simpa [TimerEvent.sequence] using hlogged _ hmem
  refine ⟨⟨?_, ?_⟩, ⟨?_, ?_, List.nodup_cons.mpr ⟨hout, hnodup⟩, ?_⟩,
    ⟨?_, ?_, ?_, ?_, hclean⟩, ?_⟩
  all_goals simp only [TimerQueue.newTimer, setTimer, Function.update_apply]
  · grind
  · grind
  · grind
  · grind
  · grind
  · grind
  · grind
  · exact fun e he ↦ Nat.le_succ_of_le (hlogged e he)
  · grind
  · grind

/-- Into both sets. -/
theorem Good.put (h : s.Good (p :: loose)) (hheap : s.heap p = some timer) :
    (s.put p timer).Good loose := by
  obtain ⟨⟨hactive, htimed⟩, ⟨hheld, hlive, hnodup, hapart⟩,
    ⟨hissued, hinj, hlogged, hundel, hclean⟩, haddr⟩ := h
  -- `p` was outside the sets and is held once, so its entries are new
  obtain ⟨hout, hnodup'⟩ := List.nodup_cons.mp hnodup
  refine ⟨⟨?_, ?_⟩, ⟨?_, ?_, hnodup', ?_⟩,
    ⟨hissued, hinj, ?_, ?_, hclean.append (hundel p timer hheap)⟩,
    haddr⟩
  all_goals simp only [TimerQueue.put, record, OrdSet.mem_insert]
  · grind
  · grind
  · grind
  · exact fun q hq ↦ hlive q (List.mem_cons_of_mem p hq)
  · grind
  · grind [TimerEvent.sequence]
  · grind

/-- Out of both sets. -/
theorem Good.take (h : s.Good loose) {a : ActiveTimer} (ha : a ∈ s.activeTimers)
    (hheap : s.heap a.timer = some timer) :
    { s with
      timers := s.timers.erase ⟨timer.expiration, a.timer⟩
      activeTimers := s.activeTimers.erase a }.Good (a.timer :: loose) := by
  obtain ⟨p, n⟩ := a
  obtain ⟨⟨hactive, htimed⟩, ⟨hheld, hlive, hnodup, hapart⟩,
    ⟨hissued, hinj, hlogged, hundel, hclean⟩, haddr⟩ := h
  -- both entries belong to the one timer at `p`; all others have another address
  have hmem : ⟨timer.expiration, p⟩ ∈ s.timers := by grind
  have hout : p ∉ loose := fun hloose ↦ hapart _ hloose _ hmem rfl
  refine ⟨⟨?_, ?_⟩, ⟨?_, ?_, List.nodup_cons.mpr ⟨hout, hnodup⟩, ?_⟩,
    ⟨hissued, hinj, hlogged, hundel, hclean⟩, haddr⟩
  all_goals simp only [OrdSet.mem_erase]
  · rintro ⟨when, q⟩ ⟨hne, he⟩
    grind
  · rintro ⟨q, m⟩ ⟨hne, hq⟩
    grind
  · grind
  · grind
  · rintro q hq ⟨when, q'⟩ ⟨hne, he⟩
    grind

/-- A timer outside the sets may change its expiration. -/
theorem Good.restart (h : s.Good (p :: loose)) (hheap : s.heap p = some timer) (timer' : Timer)
    (hseq : timer'.sequence = timer.sequence) :
    ((s.setTimer p (some timer')).record (.restarted timer.sequence)).Good (p :: loose) := by
  obtain ⟨⟨hactive, htimed⟩, ⟨hheld, hlive, hnodup, hapart⟩,
    ⟨hissued, hinj, hlogged, hundel, hclean⟩, haddr⟩ := h
  refine ⟨⟨?_, ?_⟩, ⟨?_, ?_, hnodup, hapart⟩,
    ⟨?_, ?_, ?_, ?_, hclean.append (hundel p timer hheap)⟩, ?_⟩
  all_goals simp only [setTimer, record, Function.update_apply]
  · grind
  · grind
  · grind
  · grind
  · grind
  · grind
  · grind [TimerEvent.sequence]
  · grind
  · grind

theorem Good.delete (h : s.Good (p :: loose)) (hheap : s.heap p = some timer) :
    ((s.setTimer p none).record (.deleted timer.sequence)).Good loose := by
  obtain ⟨⟨hactive, htimed⟩, ⟨hheld, hlive, hnodup, hapart⟩,
    ⟨hissued, hinj, hlogged, hundel, hclean⟩, haddr⟩ := h
  obtain ⟨hout, hnodup'⟩ := List.nodup_cons.mp hnodup
  refine ⟨⟨?_, ?_⟩, ⟨?_, ?_, hnodup', ?_⟩,
    ⟨?_, ?_, ?_, ?_, hclean.append (hundel p timer hheap)⟩, ?_⟩
  all_goals simp only [setTimer, record, Function.update_apply]
  · grind
  · grind
  · grind
  · grind
  · grind
  · grind
  · grind
  · grind [TimerEvent.sequence]
  · -- another live timer has another sequence number
    grind
  · grind

theorem Good.ran (h : s.Good loose) (hheap : s.heap p = some timer) :
    (s.record (.ran timer.sequence)).Good loose := by
  obtain ⟨hone, hheld, ⟨hissued, hinj, hlogged, hundel, hclean⟩, haddr⟩ := h
  refine ⟨⟨hone.active, hone.timed⟩, ⟨hheld.held, hheld.live, hheld.nodup, hheld.apart⟩,
    ⟨hissued, hinj, ?_, ?_, hclean.append (hundel p timer hheap)⟩,
    haddr⟩
  all_goals simp only [record]
  · grind [TimerEvent.sequence]
  · grind

end Moves

/-! ## 4. The operations do not fault -/

section Operations

variable {s : TimerQueue} {p : Address} {timer : Timer} {loose : List Address}

theorem check_of {p : Prop} [Decidable p] (h : p) : check p = .ok () := if_pos h

theorem deref_eq (h : s.heap p = some timer) : s.deref p = .ok timer := by simp only [deref, h]

theorem deleteTimer_eq (h : s.heap p = some timer) :
    s.deleteTimer p = .ok ((s.setTimer p none).record (.deleted timer.sequence)) := by
  simp only [deleteTimer, deref_eq h]
  rfl

/-- The new timer is before all others: `insert` says so, and `addTimerInLoop` arms for it. -/
def isEarliest (s : TimerQueue) (timer : Timer) : Bool :=
  s.timers.toList.head?.all fun e ↦ timer.expiration < e.when

theorem insert_eq (h : s.OneToOne) (hheap : s.heap p = some timer) :
    s.insert p = .ok (s.isEarliest timer, s.put p timer) := by
  simp only [insert, check_of h.sizesAgree, deref_eq hheap]
  rfl

theorem addTimerInLoop_eq (h : s.OneToOne) (hheap : s.heap p = some timer) (clock : Time) :
    s.addTimerInLoop p clock = .ok { s.put p timer with
      timerFd := if s.isEarliest timer then some ⟨timer.expiration, clock⟩ else s.timerFd } := by
  have hderef : (s.put p timer).deref p = .ok timer := deref_eq hheap
  simp only [addTimerInLoop, insert_eq h hheap, Trace.ok_bind]
  cases s.isEarliest timer with
  | false => rfl
  | true =>
    show (((s.put p timer).deref p).bind fun timer ↦ _) = _
    rw [hderef]
    rfl

theorem addTimerInLoop_good (h : s.Good (p :: loose)) (clock : Time) :
    ∃ t, s.addTimerInLoop p clock = .ok t ∧ t.Good loose ∧ t.adding = s.adding ∧
      t.batch = s.batch := by
  obtain ⟨timer, hheap⟩ := Option.isSome_iff_exists.mp (h.held.live p List.mem_cons_self)
  refine ⟨_, addTimerInLoop_eq h.oneToOne hheap clock, ?_, rfl, rfl⟩
  exact (h.put hheap).of_eq rfl rfl rfl rfl rfl

/-- An active timer leaves both sets and is deleted. -/
def discard (s : TimerQueue) (timerId : ActiveTimer) (timer : Timer) : TimerQueue :=
  { s with
    heap := Function.update s.heap timerId.timer none
    timers := s.timers.erase ⟨timer.expiration, timerId.timer⟩
    activeTimers := s.activeTimers.erase timerId
    log := s.log ++ [.deleted timer.sequence] }

theorem Good.discard {timerId : ActiveTimer} (h : s.Good loose) (hact : timerId ∈ s.activeTimers)
    (hheap : s.heap timerId.timer = some timer) : (s.discard timerId timer).Good loose :=
  (h.take hact hheap).delete hheap

theorem cancleInLoop_eq_discard {timerId : ActiveTimer} (h : s.Good loose)
    (hact : timerId ∈ s.activeTimers) (hheap : s.heap timerId.timer = some timer) :
    s.cancleInLoop timerId = .ok (s.discard timerId timer) := by
  obtain ⟨timer', hheap', -, hmem⟩ := h.oneToOne.timed timerId hact
  obtain rfl : timer' = timer := by rw [hheap] at hheap'; exact (Option.some.inj hheap').symm
  have hdel := deleteTimer_eq
    (s := { s with timers := s.timers.erase ⟨timer'.expiration, timerId.timer⟩ }) hheap
  simp only [cancleInLoop, check_of h.oneToOne.sizesAgree, if_pos hact, deref_eq hheap, Trace.ok_bind,
    check_of hmem, hdel]
  exact congrArg (· >>= _) (check_of (h.discard hact hheap).oneToOne.sizesAgree)

/-- A timer that is not active is remembered while a batch runs, and forgotten otherwise. -/
theorem cancleInLoop_eq_remember {timerId : ActiveTimer} (h : s.OneToOne)
    (hact : timerId ∉ s.activeTimers) :
    s.cancleInLoop timerId = .ok { s with
      canllingTimers := if s.callingExpiredTimer then s.canllingTimers.insert timerId
        else s.canllingTimers } := by
  have hagree := check_of h.sizesAgree
  by_cases hcall : s.callingExpiredTimer = true
  · simp only [cancleInLoop, hagree, if_neg hact, if_pos hcall, Trace.ok_bind]
    exact congrArg (· >>= _) hagree
  · simp only [cancleInLoop, hagree, if_neg hact, if_neg hcall, Trace.ok_bind]

theorem cancleInLoop_good (h : s.Good loose) (timerId : ActiveTimer) :
    ∃ t, s.cancleInLoop timerId = .ok t ∧ t.Good loose ∧ t.adding = s.adding ∧
      t.batch = s.batch := by
  by_cases hact : timerId ∈ s.activeTimers
  · obtain ⟨timer, hheap, -⟩ := h.oneToOne.timed timerId hact
    exact ⟨_, cancleInLoop_eq_discard h hact hheap, h.discard hact hheap, rfl, rfl⟩
  · exact ⟨_, cancleInLoop_eq_remember h.oneToOne hact, h.of_eq rfl rfl rfl rfl rfl, rfl, rfl⟩

/-- The active entries of a list of timers all go. -/
theorem foldlM_eraseActive {l : List Entry} (htimed : ∀ a ∈ s.activeTimers, ∃ timer,
      s.heap a.timer = some timer ∧ timer.sequence = a.sequence)
    (hmem : ∀ e ∈ l, ∃ timer, s.heap e.timer = some timer ∧
      ⟨e.timer, timer.sequence⟩ ∈ s.activeTimers)
    (hnodup : (l.map Entry.timer).Nodup) :
    ∃ active : OrdSet ActiveTimer, l.foldlM eraseActive s = .ok { s with activeTimers := active } ∧
      ∀ a, a ∈ active ↔ a ∈ s.activeTimers ∧ a.timer ∉ l.map Entry.timer := by
  -- on the part of the batch that is left, with the set as the turns before have left it
  induction l generalizing s with
  | nil => exact ⟨s.activeTimers, rfl, by simp⟩
  | cons e l ih =>
    obtain ⟨hout, hnodup'⟩ := List.nodup_cons.mp hnodup
    obtain ⟨timer, hheap, hact⟩ := hmem e List.mem_cons_self
    have herase : s.eraseActive e =
        .ok { s with activeTimers := s.activeTimers.erase ⟨e.timer, timer.sequence⟩ } := by
      simp only [eraseActive, deref_eq hheap, Trace.ok_bind, check_of hact]
    obtain ⟨active, hfold, hiff⟩ := ih (s := { s with
        activeTimers := s.activeTimers.erase ⟨e.timer, timer.sequence⟩ })
      (fun a ha ↦ htimed a (OrdSet.mem_erase.mp ha).2)
      (fun e' he' ↦ by
        obtain ⟨timer', hheap', hact'⟩ := hmem e' (List.mem_cons_of_mem e he')
        refine ⟨timer', hheap', OrdSet.mem_erase.mpr ⟨fun heq ↦ hout ?_, hact'⟩⟩
        have htimer : e'.timer = e.timer := congrArg ActiveTimer.timer heq
        exact htimer ▸ List.mem_map_of_mem he') hnodup'
    refine ⟨active, ?_, fun a ↦ ?_⟩
    · rw [List.foldlM_cons, herase]
      exact hfold
    · -- the sequence number of an entry is that of the timer at its address
      have hsame : a ∈ s.activeTimers → (a ≠ ⟨e.timer, timer.sequence⟩ ↔ a.timer ≠ e.timer) := by
        intro ha
        obtain ⟨timer', hheap', hseq⟩ := htimed a ha
        refine ⟨fun hne heq ↦ hne ?_, fun hne heq ↦ hne (congrArg ActiveTimer.timer heq)⟩
        rw [heq, hheap, Option.some.injEq] at hheap'
        cases a
        simp_all
      rw [hiff, OrdSet.mem_erase, List.map_cons, List.mem_cons, not_or]
      grind

/-- A timer is in the part of `_timers` below a cut exactly if its own entry is. -/
theorem OneToOne.timer_mem_below (h : s.OneToOne) {x : Entry} (hheap : s.heap p = some timer)
    (hmem : ⟨timer.expiration, p⟩ ∈ s.timers) :
    p ∈ (s.timers.below x).toList.map Entry.timer ↔ ⟨timer.expiration, p⟩ < x := by
  rw [List.mem_map]
  constructor
  · rintro ⟨⟨when, q⟩, he, rfl⟩
    obtain ⟨hin, hlt⟩ := OrdSet.mem_below.mp he
    obtain ⟨timer', hheap', hwhen, -⟩ := h.active _ hin
    rw [hheap, Option.some.injEq] at hheap'
    rw [hheap', hwhen]
    exact hlt
  · exact fun hlt ↦ ⟨_, OrdSet.mem_below.mpr ⟨hmem, hlt⟩, rfl⟩

theorem OneToOne.nodup_timers_below (h : s.OneToOne) (x : Entry) :
    ((s.timers.below x).toList.map Entry.timer).Nodup := by
  refine (s.timers.below x).nodup.map_on fun e he e' he' heq ↦ ?_
  obtain ⟨timer, hheap, hwhen, -⟩ := h.active e (OrdSet.mem_below.mp he).1
  obtain ⟨timer', hheap', hwhen', -⟩ := h.active e' (OrdSet.mem_below.mp he').1
  cases e
  cases e'
  grind

/-- The part below a cut leaves both sets. -/
theorem Good.cut (h : s.Good loose) (x : Entry) {active : OrdSet ActiveTimer}
    (hiff : ∀ a, a ∈ active ↔
      a ∈ s.activeTimers ∧ a.timer ∉ (s.timers.below x).toList.map Entry.timer) :
    { s with timers := s.timers.atLeast x, activeTimers := active }.Good
      ((s.timers.below x).toList.map Entry.timer ++ loose) := by
  have hbelow {p : Address} {timer : Timer} (hheap : s.heap p = some timer)
      (hmem : ⟨timer.expiration, p⟩ ∈ s.timers) :
      p ∈ (s.timers.below x).toList.map Entry.timer ↔ ⟨timer.expiration, p⟩ < x :=
    h.oneToOne.timer_mem_below hheap hmem
  have hnodup := h.oneToOne.nodup_timers_below x
  obtain ⟨⟨hactive, htimed⟩, ⟨hheld, hlive, hloose, hapart⟩, hnamed, haddr⟩ := h
  have hexpired : ∀ p ∈ (s.timers.below x).toList.map Entry.timer,
      ∃ timer, s.heap p = some timer ∧ ⟨timer.expiration, p⟩ ∈ s.timers := by
    intro p hp
    obtain ⟨⟨when, q⟩, he, rfl⟩ := List.mem_map.mp hp
    have hin := (OrdSet.mem_below.mp he).1
    obtain ⟨timer, hheap, rfl, -⟩ := hactive _ hin
    exact ⟨timer, hheap, hin⟩
  refine ⟨⟨?_, ?_⟩, ⟨?_, ?_, ?_, ?_⟩,
    ⟨hnamed.issued, hnamed.injective, hnamed.logged, hnamed.undeleted, hnamed.clean⟩, haddr⟩
  · rintro ⟨when, p⟩ he
    obtain ⟨hin, hle⟩ := OrdSet.mem_atLeast.mp he
    obtain ⟨timer, hheap, rfl, hact⟩ := hactive _ hin
    exact ⟨timer, hheap, rfl, (hiff _).mpr ⟨hact, fun hb ↦ hle.not_gt ((hbelow hheap hin).mp hb)⟩⟩
  · rintro ⟨p, n⟩ ha
    obtain ⟨hact, hb⟩ := (hiff _).mp ha
    obtain ⟨timer, hheap, hseq, hin⟩ := htimed _ hact
    refine ⟨timer, hheap, hseq, OrdSet.mem_atLeast.mpr ⟨hin, not_lt.mp fun hlt ↦ hb ?_⟩⟩
    exact (hbelow hheap hin).mpr hlt
  · intro p timer hheap
    rcases hheld p timer hheap with hin | hp
    · rcases lt_or_ge (⟨timer.expiration, p⟩ : Entry) x with hlt | hle
      · exact Or.inr (List.mem_append_left _ ((hbelow hheap hin).mpr hlt))
      · exact Or.inl (OrdSet.mem_atLeast.mpr ⟨hin, hle⟩)
    · exact Or.inr (List.mem_append_right _ hp)
  · intro p hp
    rcases List.mem_append.mp hp with hp | hp
    · obtain ⟨timer, hheap, -⟩ := hexpired p hp
      exact Option.isSome_iff_exists.mpr ⟨timer, hheap⟩
    · exact hlive p hp
  · refine List.nodup_append.mpr ⟨hnodup, hloose, fun p hp q hq heq ↦ ?_⟩
    obtain ⟨timer, -, hin⟩ := hexpired p hp
    exact hapart q hq _ hin heq
  · rintro p hp ⟨when, q⟩ he rfl
    obtain ⟨hin, hle⟩ := OrdSet.mem_atLeast.mp he
    rcases List.mem_append.mp hp with hp | hp
    · obtain ⟨timer, hheap, rfl, -⟩ := hactive _ hin
      exact hle.not_gt ((hbelow hheap hin).mp hp)
    · exact hapart _ hp _ hin rfl

/-- No timer has the address of the sentry, so what `getExpired` leaves expires strictly later. -/
theorem Good.now_lt_of_mem_atLeast (h : s.Good loose) {now : Time} {e : Entry}
    (he : e ∈ s.timers.atLeast ⟨now, uintptrMax⟩) : now < e.when := by
  obtain ⟨hin, hle⟩ := OrdSet.mem_atLeast.mp he
  obtain ⟨timer, hheap, -⟩ := h.oneToOne.active e hin
  have haddr : e.timer < uintptrMax := h.address _ _ hheap
  have hnot := not_lt.mpr hle
  rw [Entry.lt_iff] at hnot
  simp only [not_or, not_and, not_lt] at hnot
  have hne : e.when ≠ now := fun heq ↦ (hnot.2 heq).not_gt haddr
  exact lt_of_le_of_ne hnot.1 (Ne.symm hne)

theorem Good.now_lt_of_head (h : s.Good loose) (now : Time) :
    ∀ e ∈ (s.timers.atLeast ⟨now, uintptrMax⟩).toList.head?, now < e.when :=
  fun _ he ↦ h.now_lt_of_mem_atLeast (List.mem_of_mem_head? he)

/-- The sets cut at `now`: what expires leaves both. -/
theorem getExpired_eq (h : s.Good loose) (now : Time) :
    ∃ active : OrdSet ActiveTimer,
      (∀ a, a ∈ active ↔ a ∈ s.activeTimers ∧
        a.timer ∉ (s.timers.below ⟨now, uintptrMax⟩).toList.map Entry.timer) ∧
      s.getExpired now = .ok ((s.timers.below ⟨now, uintptrMax⟩).toList,
        { s with timers := s.timers.atLeast ⟨now, uintptrMax⟩, activeTimers := active }) := by
  obtain ⟨active, hfold, hiff⟩ := foldlM_eraseActive
    (s := { s with timers := s.timers.atLeast ⟨now, uintptrMax⟩ })
    (l := (s.timers.below ⟨now, uintptrMax⟩).toList)
    (fun a ha ↦ (h.oneToOne.timed a ha).imp fun _ ht ↦ ⟨ht.1, ht.2.1⟩)
    (fun e he ↦ (h.oneToOne.active e (OrdSet.mem_below.mp he).1).imp fun _ ht ↦ ⟨ht.1, ht.2.2⟩)
    (h.oneToOne.nodup_timers_below _)
  refine ⟨active, hiff, ?_⟩
  simp only [getExpired, check_of h.oneToOne.sizesAgree, Trace.ok_bind, check_of (h.now_lt_of_head now),
    hfold]
  exact congrArg (· >>= _) (check_of (h.cut ⟨now, uintptrMax⟩ hiff).oneToOne.sizesAgree)

/-- `handleRead` behind its last assignment before the first callback. -/
def takeBatch (s : TimerQueue) (now : Time) (fired : Bool) (active : OrdSet ActiveTimer) :
    TimerQueue :=
  { s with
    timers := s.timers.atLeast ⟨now, uintptrMax⟩
    activeTimers := active
    timerFd := if fired then none else s.timerFd
    callingExpiredTimer := true
    canllingTimers := .empty
    batch := some ⟨now, (s.timers.below ⟨now, uintptrMax⟩).toList,
      (s.timers.below ⟨now, uintptrMax⟩).toList⟩ }

theorem handleRead_eq (h : s.Good loose) (now : Time) (fired : Bool) :
    ∃ active : OrdSet ActiveTimer,
      (∀ a, a ∈ active ↔ a ∈ s.activeTimers ∧
        a.timer ∉ (s.timers.below ⟨now, uintptrMax⟩).toList.map Entry.timer) ∧
      s.handleRead now fired = .ok (s.takeBatch now fired active) := by
  obtain ⟨active, hiff, hget⟩ := getExpired_eq
    (s := { s with timerFd := if fired then none else s.timerFd }) (h.of_eq rfl rfl rfl rfl rfl) now
  refine ⟨active, hiff, ?_⟩
  simp only [handleRead, hget, Trace.ok_bind]
  rfl

theorem handleRead_good (h : s.Good loose) (now : Time) (fired : Bool) :
    ∃ t expired, s.handleRead now fired = .ok t ∧ t.Good (expired.map Entry.timer ++ loose) ∧
      t.adding = s.adding ∧ t.batch = some ⟨now, expired, expired⟩ := by
  obtain ⟨active, hiff, heq⟩ := handleRead_eq h now fired
  exact ⟨_, _, heq, (h.cut ⟨now, uintptrMax⟩ hiff).of_eq rfl rfl rfl rfl rfl, rfl, rfl⟩

/-- A timer of the batch goes on: it repeats and was not cancelled while the batch ran. -/
def Again (s : TimerQueue) (p : Address) (timer : Timer) : Prop :=
  timer.repeats = true ∧ ⟨p, timer.sequence⟩ ∉ s.canllingTimers

instance (s : TimerQueue) (p : Address) (timer : Timer) : Decidable (s.Again p timer) :=
  inferInstanceAs (Decidable (_ ∧ _))

/-- What `reset` makes of one timer of the batch. -/
def settle (s : TimerQueue) (now : Time) (p : Address) (timer : Timer) : TimerQueue :=
  if s.Again p timer then
    ((s.setTimer p (some (timer.restart now))).record (.restarted timer.sequence)).put p
      (timer.restart now)
  else (s.setTimer p none).record (.deleted timer.sequence)

theorem settle_good (h : s.Good (p :: loose)) (hheap : s.heap p = some timer) (now : Time) :
    (s.settle now p timer).Good loose := by
  unfold settle
  split
  · exact (h.restart hheap (timer.restart now) rfl).put (Function.update_self ..)
  · exact h.delete hheap

theorem resetOne_eq {e : Entry} (h : s.Good (e.timer :: loose)) (hheap : s.heap e.timer = some timer)
    (now : Time) : resetOne now s e = .ok (s.settle now e.timer timer) := by
  unfold settle
  split
  · rename_i hagain
    have hrestart := h.restart hheap (timer.restart now) rfl
    simp only [resetOne, deref_eq hheap, Trace.ok_bind,
      if_pos (show timer.repeats = true ∧ ⟨e.timer, timer.sequence⟩ ∉ s.canllingTimers from hagain),
      insert_eq hrestart.oneToOne (Function.update_self ..)]
  · rename_i hagain
    simp only [resetOne, deref_eq hheap, Trace.ok_bind,
      if_neg (show ¬ (timer.repeats = true ∧ ⟨e.timer, timer.sequence⟩ ∉ s.canllingTimers) from
        hagain), deleteTimer_eq hheap]

theorem resetOne_good {e : Entry} (h : s.Good (e.timer :: loose)) (now : Time) :
    ∃ t, resetOne now s e = .ok t ∧ t.Good loose ∧ t.adding = s.adding := by
  obtain ⟨timer, hheap⟩ := Option.isSome_iff_exists.mp (h.held.live _ List.mem_cons_self)
  refine ⟨_, resetOne_eq h hheap now, settle_good h hheap now, ?_⟩
  unfold settle
  split <;> rfl

theorem foldlM_resetOne_good {l : List Entry} (h : s.Good (l.map Entry.timer ++ loose))
    (now : Time) :
    ∃ t, l.foldlM (resetOne now) s = .ok t ∧ t.Good loose ∧ t.adding = s.adding := by
  induction l generalizing s with
  | nil => exact ⟨s, rfl, h, rfl⟩
  | cons e l ih =>
    obtain ⟨t, hone, hgood, hadd⟩ := resetOne_good h now
    obtain ⟨u, hrest, hgood', hadd'⟩ := ih hgood
    exact ⟨u, by rw [List.foldlM_cons, hone, Trace.ok_bind, hrest], hgood', hadd'.trans hadd⟩

theorem reset_good {l : List Entry} (h : s.Good (l.map Entry.timer ++ loose)) (now clock : Time) :
    ∃ t, s.reset l now clock = .ok t ∧ t.Good loose ∧ t.adding = s.adding := by
  obtain ⟨t, hfold, hgood, hadd⟩ := foldlM_resetOne_good h now
  simp only [reset, hfold, Trace.ok_bind]
  cases hlist : t.timers.toList with
  | nil => exact ⟨t, rfl, hgood, hadd⟩
  | cons e rest =>
    have hmem : e ∈ t.timers := by rw [← OrdSet.mem_toList, hlist]; exact List.mem_cons_self
    obtain ⟨timer, hheap, -⟩ := hgood.oneToOne.active e hmem
    simp only [deref_eq hheap, Trace.ok_bind]
    split
    · exact ⟨_, rfl, hgood.of_eq rfl rfl rfl rfl rfl, hadd⟩
    · exact ⟨t, rfl, hgood, hadd⟩

end Operations

/-! ## 5. Runs -/

/-- The timers of the batch that `handleRead` is working on. -/
def expiring (s : TimerQueue) : List Address :=
  s.batch.elim [] fun b ↦ b.expired.map Entry.timer

/-- What is left to run of a batch is a part of it. -/
def RestOfBatch (s : TimerQueue) : Prop := ∀ b ∈ s.batch, b.rest ⊆ b.expired

def Invariant (s : TimerQueue) : Prop := s.Good (s.expiring ++ s.adding) ∧ s.RestOfBatch

theorem init_invariant : init.Invariant := by
  refine ⟨⟨⟨?_, ?_⟩, ⟨?_, ?_, List.nodup_nil, ?_⟩, ⟨?_, ?_, ?_, ?_, List.Pairwise.nil⟩, ?_⟩, ?_⟩ <;>
    simp [init, expiring, RestOfBatch]

theorem mem_expiring {s : TimerQueue} {b : ExpiredBatch} {e : Entry}
    (hbatch : s.batch = some b) (he : e ∈ b.expired) : e.timer ∈ s.expiring := by
  rw [expiring, hbatch]
  exact List.mem_map_of_mem he

theorem step_invariant {s : TimerQueue} {l : Label} {r : Except TimerFault TimerQueue}
    (h : s.Invariant) (hstep : s.step l = some r) : ∃ t, r = .ok t ∧ t.Invariant := by
  obtain ⟨hgood, hrest⟩ := h
  cases l with
  | newTimer p when interval repeats =>
    simp only [step, Option.ite_none_right_eq_some, Option.some.injEq] at hstep
    obtain ⟨⟨hfree, hp⟩, rfl⟩ := hstep
    refine ⟨_, rfl, (hgood.newTimer hfree hp when interval repeats).perm ?_, hrest⟩
    show (p :: (s.expiring ++ s.adding)).Perm (s.expiring ++ (s.adding ++ [p]))
    rw [← List.append_assoc]
    exact (List.perm_append_singleton ..).symm
  | addTimerInLoop p clock =>
    simp only [step, Option.ite_none_right_eq_some, Option.some.injEq] at hstep
    obtain ⟨hmem, rfl⟩ := hstep
    have hperm : (s.expiring ++ s.adding).Perm (p :: (s.expiring ++ s.adding.erase p)) :=
      ((List.perm_cons_erase hmem).append_left _).trans List.perm_middle
    obtain ⟨t, ht, hgood', hadd, hbatch⟩ := addTimerInLoop_good
      (s := { s with adding := s.adding.erase p }) ((hgood.perm hperm).of_eq rfl rfl rfl rfl rfl) clock
    refine ⟨t, ht, ?_, ?_⟩
    · rw [expiring, hbatch, hadd]
      exact hgood'
    · rw [RestOfBatch, hbatch]
      exact hrest
  | cancleInLoop timerId =>
    simp only [step, Option.some.injEq] at hstep
    obtain ⟨t, ht, hgood', hadd, hbatch⟩ := cancleInLoop_good hgood timerId
    refine ⟨t, hstep.symm.trans ht, ?_, ?_⟩
    · rw [expiring, hbatch, hadd]
      exact hgood'
    · rw [RestOfBatch, hbatch]
      exact hrest
  | handleRead now fired =>
    simp only [step] at hstep
    split at hstep
    · rename_i hnone
      rw [expiring, hnone] at hgood
      obtain ⟨t, expired, ht, hgood', hadd, hbatch⟩ := handleRead_good hgood now fired
      refine ⟨t, (Option.some.inj hstep).symm.trans ht, ?_, ?_⟩
      · rw [expiring, hbatch, hadd]
        exact hgood'
      · rw [RestOfBatch, hbatch]
        rintro b ⟨⟩
        exact List.Subset.refl _
    · cases hstep
  | run =>
    simp only [step] at hstep
    split at hstep
    · rename_i now expired e rest hbatch
      -- a timer of the batch is alive until `reset`, whatever the callbacks cancel
      have hsub : e :: rest ⊆ expired := hrest _ hbatch
      have hmem : e.timer ∈ s.expiring ++ s.adding := by
        apply List.mem_append_left _
        exact mem_expiring hbatch (hsub List.mem_cons_self)
      obtain ⟨timer, hheap⟩ := Option.isSome_iff_exists.mp (hgood.held.live _ hmem)
      rw [deref_eq hheap, Trace.ok_bind, Option.some.injEq] at hstep
      refine ⟨_, hstep.symm, ?_, ?_⟩
      · rw [expiring, hbatch] at hgood
        exact (hgood.ran hheap).of_eq rfl rfl rfl rfl rfl
      · rintro b ⟨⟩
        exact fun x hx ↦ hsub (List.mem_cons_of_mem e hx)
    · cases hstep
  | reset clock =>
    simp only [step] at hstep
    split at hstep
    · rename_i now expired hbatch
      rw [expiring, hbatch] at hgood
      obtain ⟨t, ht, hgood', hadd⟩ := reset_good (s := { s with callingExpiredTimer := false })
        (l := expired) (hgood.of_eq rfl rfl rfl rfl rfl) now clock
      rw [ht, Trace.ok_bind, Option.some.injEq] at hstep
      refine ⟨_, hstep.symm, ?_, fun b hb ↦ by simp at hb⟩
      show Good _ ([] ++ t.adding)
      rw [hadd]
      exact hgood'.of_eq rfl rfl rfl rfl rfl
    · cases hstep

theorem run_invariant {ls : List Label} {r : Except TimerFault TimerQueue}
    (h : Trace.run next (.ok init) ls = some r) : ∃ s, r = .ok s ∧ s.Invariant := by
  refine Trace.run_inv (I := fun r ↦ ∃ s, r = .ok s ∧ s.Invariant) ?_ ⟨init, rfl, init_invariant⟩ h
  rintro - l r ⟨s, rfl, hs⟩ hstep
  exact step_invariant hs hstep

/-- **Representation and ownership.**  No run faults, whatever the callbacks add and cancel and
whatever the clock reads: every `assert` holds, and no dead `Timer` is followed or deleted.  Between
the operations the two sets hold the same live timers, under their own expirations; a live timer
whose `addTimerInLoop` has run is in the sets or in the batch being processed, and not in both; and
nothing happens to a timer once it was deleted. -/
theorem representation_and_ownership {ls : List Label} {r : Except TimerFault TimerQueue}
    (h : Trace.run next (.ok init) ls = some r) :
    ∃ s, r = .ok s ∧ s.OneToOne ∧ s.timers.size = s.activeTimers.size ∧
      (∀ p timer, s.heap p = some timer → p ∉ s.adding →
        Xor (∃ e ∈ s.timers, e.timer = p) (p ∈ s.expiring)) ∧
      (∀ p ∈ s.adding, p ∉ s.expiring ∧ ∀ e ∈ s.timers, e.timer ≠ p) ∧
      (∀ p ∈ s.expiring, (s.heap p).isSome) ∧ CleanLog s.log := by
  obtain ⟨s, rfl, hgood, -⟩ := run_invariant h
  refine ⟨s, rfl, hgood.oneToOne, hgood.oneToOne.sizesAgree, fun p timer hheap hp ↦ ?_,
    fun p hp ↦ ?_, fun p hp ↦ hgood.held.live p (List.mem_append_left _ hp), hgood.named.clean⟩
  · by_cases hexp : p ∈ s.expiring
    · refine Or.inr ⟨hexp, ?_⟩
      rintro ⟨e, he, heq⟩
      exact hgood.held.apart p (List.mem_append_left _ hexp) e he heq
    · have hin : ⟨timer.expiration, p⟩ ∈ s.timers :=
        (hgood.held.held p timer hheap).resolve_right (by simp [hexp, hp])
      exact Or.inl ⟨⟨_, hin, rfl⟩, hexp⟩
  · exact ⟨fun hexp ↦ (List.nodup_append.mp hgood.held.nodup).2.2 p hexp p hp rfl,
      hgood.held.apart p (List.mem_append_right _ hp)⟩

/-- A batch of three, in which the first callback cancels itself and a later one of the batch, and
the second puts a new timer at an address that is free. -/
theorem representation_and_ownership_cancel_in_batch :
    ∃ s, Trace.run next (.ok init) [.newTimer 16 100 50 true, .addTimerInLoop 16 10,
        .newTimer 32 100 0 false, .addTimerInLoop 32 11, .newTimer 48 90 5 true,
        .addTimerInLoop 48 12, .handleRead 100 true, .run, .cancleInLoop ⟨48, 3⟩, .cancleInLoop ⟨16, 1⟩,
        .run, .newTimer 8 120 0 false, .addTimerInLoop 8 101, .run, .reset 102,
        .newTimer 16 130 0 false, .cancleInLoop ⟨16, 1⟩] = some (.ok s) ∧
      s.timers.toList = [⟨120, 8⟩] ∧ CleanLog s.log := by
  obtain ⟨s, hs, -, -, -, -, -, hclean⟩ := representation_and_ownership (show
      Trace.run next (.ok init) [.newTimer 16 100 50 true, .addTimerInLoop 16 10,
        .newTimer 32 100 0 false, .addTimerInLoop 32 11, .newTimer 48 90 5 true,
        .addTimerInLoop 48 12, .handleRead 100 true, .run, .cancleInLoop ⟨48, 3⟩, .cancleInLoop ⟨16, 1⟩,
        .run, .newTimer 8 120 0 false, .addTimerInLoop 8 101, .run, .reset 102,
        .newTimer 16 130 0 false, .cancleInLoop ⟨16, 1⟩] = some _ from rfl)
  cases hs
  exact ⟨_, rfl, rfl, hclean⟩

end TimerQueue

end Netlib
