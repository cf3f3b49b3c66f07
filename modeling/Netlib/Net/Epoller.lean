import Netlib.Lib.Run
import Netlib.Net.Chnnel

/-!
# `netlib::Epoller`

All channels of one loop at once (`net/Epoller.cc`, `net/Chnnel.cc`).  Three records say which
channel watches a descriptor: the flag in the channel, the map `_chnnels`, and the interest list of
the kernel.  A failed `assert` and the abort of `LOG_SYSFATAL` are faults; `EPOLL_CTL_DEL` may fail
without one, and is then only recorded.
-/

namespace Netlib

abbrev Fd := Int

/-- The address of a `Chnnel`. -/
abbrev ChnnelPtr := Nat

structure ChnnelObject where
  fd : Fd
  events : Events
  flag : ChnnelFlag
  addedToLoop : Bool
deriving DecidableEq, Repr

/-- The `epoll_event` the kernel keeps for a descriptor. -/
structure EpollEvent where
  events : Events
  ptr : ChnnelPtr
deriving DecidableEq, Repr

inductive CtlOp where
  | add
  | mod
  | del
deriving DecidableEq, Repr

inductive EpollFault where
  | assertion
  | sysfatal (op : CtlOp) (fd : Fd)
deriving DecidableEq, Repr

structure Epoller where
  objects : ChnnelPtr → ChnnelObject
  chnnels : Fd → Option ChnnelPtr
  /-- The kernel's interest list. -/
  interest : Fd → Option EpollEvent
  /-- The descriptors for which `EPOLL_CTL_DEL` failed. -/
  refused : List Fd

/-- `epoll_ctl`: `none` is `EEXIST` for an `add` and `ENOENT` for the others. -/
def epollCtl (interest : Fd → Option EpollEvent) (op : CtlOp) (fd : Fd) (event : EpollEvent) :
    Option (Fd → Option EpollEvent) :=
  match op, interest fd with
  | .add, none => some (Function.update interest fd (some event))
  | .mod, some _ => some (Function.update interest fd (some event))
  | .del, some _ => some (Function.update interest fd none)
  | _, _ => none

def Events.isNone (e : Events) : Bool := !e.read && !e.write

namespace Epoller

/-- Every channel as its constructor leaves it, watching the descriptor `fd` gives it. -/
def init (fd : ChnnelPtr → Fd) : Epoller where
  objects := fun c ↦ ⟨fd c, ⟨false, false⟩, .cNew, false⟩
  chnnels := fun _ ↦ none
  interest := fun _ ↦ none
  refused := []

def check (p : Prop) [Decidable p] : Except EpollFault Unit :=
  if p then .ok () else .error .assertion

def setObject (s : Epoller) (c : ChnnelPtr) (o : ChnnelObject) : Epoller :=
  { s with objects := Function.update s.objects c o }

def setFlag (s : Epoller) (c : ChnnelPtr) (flag : ChnnelFlag) : Epoller :=
  s.setObject c { s.objects c with flag := flag }

def update (s : Epoller) (op : CtlOp) (c : ChnnelPtr) : Except EpollFault Epoller :=
  let o := s.objects c
  match epollCtl s.interest op o.fd ⟨o.events, c⟩ with
  | some interest => .ok { s with interest := interest }
  | none =>
    if op = .del then .ok { s with refused := s.refused ++ [o.fd] }
    else .error (.sysfatal op o.fd)

def updateChnnel (s : Epoller) (c : ChnnelPtr) : Except EpollFault Epoller :=
  let o := s.objects c
  match o.flag with
  | .cNew => do
    check (s.chnnels o.fd = none)
    let s := { s with chnnels := Function.update s.chnnels o.fd (some c) }
    (s.setFlag c .cAdded).update .add c
  | .cDeleted => do
    check (s.chnnels o.fd = some c)
    (s.setFlag c .cAdded).update .add c
  | .cAdded => do
    check (s.chnnels o.fd = some c)
    if o.events.isNone then
      let s ← s.update .del c
      return s.setFlag c .cDeleted
    else s.update .mod c

def removeChnnel (s : Epoller) (c : ChnnelPtr) : Except EpollFault Epoller := do
  let o := s.objects c
  check (s.chnnels o.fd = some c)
  check (o.events.isNone = true)
  check (o.flag = .cAdded ∨ o.flag = .cDeleted)
  let s := { s with chnnels := Function.update s.chnnels o.fd none }
  let s ← if o.flag = .cAdded then s.update .del c else .ok s
  return s.setFlag c .cNew

/-- The five operations that change a mask and call `Chnnel::update`. -/
def change (s : Epoller) (c : ChnnelPtr) (f : Events → Events) : Except EpollFault Epoller :=
  let o := s.objects c
  (s.setObject c { o with events := f o.events, addedToLoop := true }).updateChnnel c

def enableReading (s : Epoller) (c : ChnnelPtr) : Except EpollFault Epoller :=
  s.change c fun e ↦ { e with read := true }

def enableWriting (s : Epoller) (c : ChnnelPtr) : Except EpollFault Epoller :=
  s.change c fun e ↦ { e with write := true }

def disableReading (s : Epoller) (c : ChnnelPtr) : Except EpollFault Epoller :=
  s.change c fun e ↦ { e with read := false }

def disableWriting (s : Epoller) (c : ChnnelPtr) : Except EpollFault Epoller :=
  s.change c fun e ↦ { e with write := false }

def diableAll (s : Epoller) (c : ChnnelPtr) : Except EpollFault Epoller :=
  s.change c fun _ ↦ ⟨false, false⟩

/-- `Chnnel::remove`. -/
def remove (s : Epoller) (c : ChnnelPtr) : Except EpollFault Epoller := do
  let o := s.objects c
  check (o.events.isNone = true)
  (s.setObject c { o with addedToLoop := false }).removeChnnel c

inductive Label where
  | enableReading (c : ChnnelPtr)
  | enableWriting (c : ChnnelPtr)
  | disableReading (c : ChnnelPtr)
  | disableWriting (c : ChnnelPtr)
  | diableAll (c : ChnnelPtr)
  | remove (c : ChnnelPtr)
deriving DecidableEq, Repr

def call (s : Epoller) : Label → Except EpollFault Epoller
  | .enableReading c => s.enableReading c
  | .enableWriting c => s.enableWriting c
  | .disableReading c => s.disableReading c
  | .disableWriting c => s.disableWriting c
  | .diableAll c => s.diableAll c
  | .remove c => s.remove c

/-- A fault ends the run. -/
def step (s : Epoller) (l : Label) : Option Epoller := (s.call l).toOption

/-- No other channel on `c`'s descriptor has been updated since it was removed. -/
def OnlyUser (s : Epoller) (c : ChnnelPtr) : Prop :=
  ∀ c', (s.objects c').fd = (s.objects c).fd → (s.objects c').addedToLoop = true → c' = c

/-- What the callers keep to: a descriptor goes to another channel only behind a `remove`, and a
channel is removed only in use and with an empty mask. -/
def Allowed (s : Epoller) : Label → Prop
  | .remove c => (s.objects c).addedToLoop = true ∧ (s.objects c).events.isNone = true
  | .enableReading c | .enableWriting c | .disableReading c | .disableWriting c | .diableAll c =>
    s.OnlyUser c

/-- The three records agree. -/
structure Agrees (s : Epoller) : Prop where
  added : ∀ c, (s.objects c).flag = .cAdded ↔
    s.interest (s.objects c).fd = some ⟨(s.objects c).events, c⟩
  owned : ∀ fd e, s.interest fd = some e →
    (s.objects e.ptr).fd = fd ∧ (s.objects e.ptr).flag = .cAdded
  mapped : ∀ c, s.chnnels (s.objects c).fd = some c ↔ (s.objects c).flag ≠ .cNew
  keyed : ∀ fd c, s.chnnels fd = some c → (s.objects c).fd = fd
  inUse : ∀ c, (s.objects c).addedToLoop = true ↔ (s.objects c).flag ≠ .cNew
  refused : s.refused = []

/-! ## 1. One operation writes the three records together -/

/-- The channel `c` becomes `o`, and the map and the interest list follow its flag. -/
def put (s : Epoller) (c : ChnnelPtr) (o : ChnnelObject) : Epoller where
  objects := Function.update s.objects c o
  chnnels := Function.update s.chnnels o.fd (if o.flag = .cNew then none else some c)
  interest := Function.update s.interest o.fd
    (if o.flag = .cAdded then some ⟨o.events, c⟩ else none)
  refused := s.refused

section

variable {s : Epoller} {c : ChnnelPtr}

theorem init_agrees (fd : ChnnelPtr → Fd) : (init fd).Agrees := by
  constructor <;> simp [init]

/-- A descriptor is in the map only for a channel in use. -/
theorem Agrees.chnnels_eq_none (h : s.Agrees) (honly : s.OnlyUser c)
    (hnew : (s.objects c).flag = .cNew) : s.chnnels (s.objects c).fd = none := by
  cases hc : s.chnnels (s.objects c).fd with
  | none => rfl
  | some c' =>
    have hfd := h.keyed _ c' hc
    have hflag : (s.objects c').flag ≠ .cNew := (h.mapped c').mp (hfd.symm ▸ hc)
    rw [honly c' hfd ((h.inUse c').mpr hflag)] at hflag
    exact (hflag hnew).elim

/-- A descriptor is in the interest list only for a channel in use. -/
theorem Agrees.interest_eq_none (h : s.Agrees) (honly : s.OnlyUser c)
    (hflag : (s.objects c).flag ≠ .cAdded) : s.interest (s.objects c).fd = none := by
  cases hi : s.interest (s.objects c).fd with
  | none => rfl
  | some e =>
    obtain ⟨hfd, hadded⟩ := h.owned _ e hi
    have huse : (s.objects e.ptr).addedToLoop = true := (h.inUse e.ptr).mpr (by simp [hadded])
    rw [honly e.ptr hfd huse] at hadded
    exact (hflag hadded).elim

theorem Agrees.onlyUser (h : s.Agrees) (huse : (s.objects c).addedToLoop = true) :
    s.OnlyUser c := by
  intro c' hfd huse'
  have hc := (h.mapped c).mpr ((h.inUse c).mp huse)
  have hc' := (h.mapped c').mpr ((h.inUse c').mp huse')
  rw [hfd, hc] at hc'
  exact (Option.some.inj hc').symm

/-- **One channel at a time.**  Writing the records of the only user of a descriptor keeps them in
agreement for every channel. -/
theorem Agrees.put {o : ChnnelObject} (h : s.Agrees) (honly : s.OnlyUser c)
    (hfd : o.fd = (s.objects c).fd) (huse : o.addedToLoop = true ↔ o.flag ≠ .cNew) :
    (s.put c o).Agrees := by
  -- another channel on the descriptor is not in use, so it is in none of the records
  have hother (c' : ChnnelPtr) (hne : c' ≠ c) (hsame : (s.objects c').fd = o.fd) :
      (s.objects c').flag = .cNew := by
    by_contra hflag
    exact hne (honly c' (hsame.trans hfd) ((h.inUse c').mpr hflag))
  refine ⟨fun c' ↦ ?_, fun fd e he ↦ ?_, fun c' ↦ ?_, fun fd c' hc' ↦ ?_, fun c' ↦ ?_, h.refused⟩
  · by_cases hc : c' = c
    · subst hc
      by_cases ha : o.flag = .cAdded <;> simp [Epoller.put, ha]
    · by_cases hsame : (s.objects c').fd = o.fd
      · have hnew := hother c' hc hsame
        by_cases ha : o.flag = .cAdded <;> simp [Epoller.put, hc, hsame, hnew, ha, Ne.symm hc]
      · simpa [Epoller.put, hc, hsame] using h.added c'
  · by_cases hsame : fd = o.fd
    · subst hsame
      by_cases ha : o.flag = .cAdded
      · simp only [Epoller.put, ha, if_true, Function.update_self, Option.some.injEq] at he
        subst he
        simp [Epoller.put, ha]
      · simp [Epoller.put, ha] at he
    · simp only [Epoller.put, ne_eq, hsame, not_false_eq_true, Function.update_of_ne] at he
      obtain ⟨hfd', hadded⟩ := h.owned fd e he
      have hne : e.ptr ≠ c := by
        rintro rfl
        exact hsame (hfd'.symm.trans hfd.symm)
      simpa [Epoller.put, hne] using ⟨hfd', hadded⟩
  · by_cases hc : c' = c
    · subst hc
      by_cases hn : o.flag = .cNew <;> simp [Epoller.put, hn]
    · by_cases hsame : (s.objects c').fd = o.fd
      · have hnew := hother c' hc hsame
        by_cases hn : o.flag = .cNew <;> simp [Epoller.put, hc, hsame, hnew, hn, Ne.symm hc]
      · simpa [Epoller.put, hc, hsame] using h.mapped c'
  · by_cases hsame : fd = o.fd
    · subst hsame
      by_cases hn : o.flag = .cNew
      · simp [Epoller.put, hn] at hc'
      · simp only [Epoller.put, hn, if_false, Function.update_self, Option.some.injEq] at hc'
        subst hc'
        simp [Epoller.put]
    · simp only [Epoller.put, ne_eq, hsame, not_false_eq_true, Function.update_of_ne] at hc'
      have hfd' := h.keyed fd c' hc'
      have hne : c' ≠ c := by
        rintro rfl
        exact hsame (hfd'.symm.trans hfd.symm)
      simpa [Epoller.put, hne] using hfd'
  · by_cases hc : c' = c
    · subst hc
      simpa [Epoller.put] using huse
    · simpa [Epoller.put, hc] using h.inUse c'

/-! ## 2. What the operations do -/

/-- The flag `updateChnnel` leaves. -/
def nextFlag (flag : ChnnelFlag) (events : Events) : ChnnelFlag :=
  if flag = .cAdded ∧ events.isNone = true then .cDeleted else .cAdded

theorem check_of {p : Prop} [Decidable p] (h : p) : check p = .ok () := if_pos h

theorem change_eq (h : s.Agrees) (honly : s.OnlyUser c) (f : Events → Events) :
    s.change c f = .ok (s.put c
      { s.objects c with
        events := f (s.objects c).events
        flag := nextFlag (s.objects c).flag (f (s.objects c).events)
        addedToLoop := true }) := by
  cases hflag : (s.objects c).flag with
  | cNew =>
    have hmap := h.chnnels_eq_none honly hflag
    have hint := h.interest_eq_none honly (by simp [hflag])
    simp [change, updateChnnel, setObject, setFlag, update, epollCtl, put, nextFlag, hflag, hmap,
      hint, check_of, Trace.ok_bind]
  | cDeleted =>
    have hmap := (h.mapped c).mpr (by simp [hflag])
    have hint := h.interest_eq_none honly (by simp [hflag])
    simp [change, updateChnnel, setObject, setFlag, update, epollCtl, put, nextFlag, hflag, hmap,
      hint, check_of, Trace.ok_bind]
  | cAdded =>
    have hmap := (h.mapped c).mpr (by simp [hflag])
    have hint := (h.added c).mp hflag
    by_cases hnone : (f (s.objects c).events).isNone = true
    · simp [change, updateChnnel, setObject, setFlag, update, epollCtl, put, nextFlag, hflag, hmap,
        hint, check_of, Trace.ok_bind, hnone]
    · simp [change, updateChnnel, setObject, update, epollCtl, put, nextFlag, hflag, hmap, hint,
        check_of, Trace.ok_bind, hnone]

theorem remove_eq (h : s.Agrees) (huse : (s.objects c).addedToLoop = true)
    (hnone : (s.objects c).events.isNone = true) :
    s.remove c = .ok (s.put c { s.objects c with flag := .cNew, addedToLoop := false }) := by
  have hnew := (h.inUse c).mp huse
  have hmap := (h.mapped c).mpr hnew
  cases hflag : (s.objects c).flag with
  | cNew => exact (hnew hflag).elim
  | cDeleted =>
    have hint := h.interest_eq_none (h.onlyUser huse) (by simp [hflag])
    simp [remove, removeChnnel, setObject, setFlag, put, hflag, hmap, hint, hnone, check_of,
      Trace.ok_bind]
  | cAdded =>
    have hint := (h.added c).mp hflag
    simp [remove, removeChnnel, setObject, setFlag, update, epollCtl, put, hflag, hmap, hint,
      hnone, check_of, Trace.ok_bind]

theorem change_agrees (h : s.Agrees) (honly : s.OnlyUser c) (f : Events → Events) :
    ∃ t, s.change c f = .ok t ∧ t.Agrees := by
  refine ⟨_, change_eq h honly f, h.put honly rfl ?_⟩
  simp only [nextFlag]
  split <;> simp

theorem remove_agrees (h : s.Agrees) (huse : (s.objects c).addedToLoop = true)
    (hnone : (s.objects c).events.isNone = true) : ∃ t, s.remove c = .ok t ∧ t.Agrees :=
  ⟨_, remove_eq h huse hnone, h.put (h.onlyUser huse) rfl (by simp)⟩

end

/-! ## 3. Every run -/

theorem step_agrees {s : Epoller} {l : Label} (h : s.Agrees) (hl : s.Allowed l) :
    ∃ t, s.step l = some t ∧ t.Agrees := by
  have hcall : ∃ t, s.call l = .ok t ∧ t.Agrees := by
    cases l with
    | enableReading c =>
      rw [call, enableReading]
      exact change_agrees h hl _
    | enableWriting c =>
      rw [call, enableWriting]
      exact change_agrees h hl _
    | disableReading c =>
      rw [call, disableReading]
      exact change_agrees h hl _
    | disableWriting c =>
      rw [call, disableWriting]
      exact change_agrees h hl _
    | diableAll c =>
      rw [call, diableAll]
      exact change_agrees h hl _
    | remove c => exact remove_agrees h hl.1 hl.2
  obtain ⟨t, ht, hagrees⟩ := hcall
  exact ⟨t, by rw [step, ht]; rfl, hagrees⟩

theorem run_agrees {s : Epoller} {ls : List Label} (h : s.Agrees)
    (hls : Trace.Along step Allowed s ls) : ∃ t, Trace.run step s ls = some t ∧ t.Agrees := by
  -- on the calls; each one succeeds from an agreeing state and leads to another
  induction ls generalizing s with
  | nil => exact ⟨s, rfl, h⟩
  | cons l ls ih =>
    obtain ⟨m, hm, hagrees⟩ := step_agrees h hls.1
    obtain ⟨t, ht, hagrees'⟩ := ih hagrees (hls.2 m hm)
    exact ⟨t, Trace.run_cons_eq_some.mpr ⟨m, hm, ht⟩, hagrees'⟩

/-- **The `Epoller` agrees with the kernel.**  Whatever the channels and their descriptors, calls
that keep to the rules raise no fault, no `epoll_ctl` is refused, and the flag of every channel says
what the map and the interest list hold of it. -/
theorem epoller_agrees (fd : ChnnelPtr → Fd) {ls : List Label}
    (hls : Trace.Along step Allowed (init fd) ls) :
    ∃ s, Trace.run step (init fd) ls = some s ∧ s.refused = [] ∧
      ∀ c,
        ((s.objects c).flag = .cAdded ↔ ∃ e, s.interest (s.objects c).fd = some e ∧ e.ptr = c) ∧
        (∀ e, s.interest (s.objects c).fd = some e → e.ptr = c →
          e.events = (s.objects c).events) ∧
        (s.OnlyUser c →
          ((s.objects c).flag = .cAdded ↔ (s.interest (s.objects c).fd).isSome)) ∧
        (s.chnnels (s.objects c).fd = some c ↔ (s.objects c).flag ≠ .cNew) := by
  obtain ⟨s, hrun, h⟩ := run_agrees (init_agrees fd) hls
  refine ⟨s, hrun, h.refused, fun c ↦ ?_⟩
  have hadded (e : EpollEvent) (he : s.interest (s.objects c).fd = some e) (hptr : e.ptr = c) :
      (s.objects c).flag = .cAdded := hptr ▸ (h.owned _ e he).2
  refine ⟨⟨fun hflag ↦ ⟨_, (h.added c).mp hflag, rfl⟩, fun ⟨e, he, hptr⟩ ↦ hadded e he hptr⟩,
    fun e he hptr ↦ ?_, fun honly ↦ ⟨fun hflag ↦ ?_, fun hsome ↦ ?_⟩, h.mapped c⟩
  · have he' := (h.added c).mp (hadded e he hptr)
    rw [he, Option.some.injEq] at he'
    rw [he']
  · rw [(h.added c).mp hflag]
    rfl
  · by_contra hflag
    rw [h.interest_eq_none honly hflag] at hsome
    simp at hsome

/-- Two channels share a descriptor, one behind the other's `remove`. -/
theorem epoller_agrees_descriptor_reused :
    ∃ s, Trace.run step (init fun _ ↦ 5) [.enableReading 0, .diableAll 0, .remove 0,
      .enableWriting 1] = some s ∧ s.refused = [] ∧ s.interest 5 = some ⟨⟨false, true⟩, 1⟩ := by
  have hallowed : Trace.Along step Allowed (init fun _ ↦ 5) [.enableReading 0, .diableAll 0,
      .remove 0, .enableWriting 1] := by
    refine ⟨?_, fun s₁ h₁ ↦ ⟨?_, fun s₂ h₂ ↦ ⟨?_, fun s₃ h₃ ↦ ⟨?_, fun _ _ ↦ trivial⟩⟩⟩⟩
    · intro c' _ huse
      simp [init] at huse
    · cases h₁
      intro c' _ huse
      by_contra hne
      simp [setObject, setFlag, init, hne] at huse
    · cases h₁
      cases h₂
      exact ⟨rfl, rfl⟩
    · cases h₁
      cases h₂
      cases h₃
      intro c' _ huse
      simp [setObject, setFlag, init] at huse
  obtain ⟨s, hs, hrefused, -⟩ := epoller_agrees _ hallowed
  refine ⟨s, hs, hrefused, ?_⟩
  cases hs
  rfl

/-! ## 4. One channel of many -/

/-- What the records say of the channel `c`. -/
def view (s : Epoller) (c : ChnnelPtr) : Chnnel where
  events := (s.objects c).events
  flag := (s.objects c).flag
  mapped := decide (s.chnnels (s.objects c).fd = some c)
  interest := (s.interest (s.objects c).fd).map (·.events)

theorem isNoneEvent_eq (c : Chnnel) : c.isNoneEvent = c.events.isNone := rfl

/-- **The channel alone.**  Seen from the channel it is about, an operation is the one of the single
channel; channels on other descriptors see nothing of it. -/
theorem change_view {s t : Epoller} {c : ChnnelPtr} {f : Events → Events} (h : s.Agrees)
    (honly : s.OnlyUser c) (ht : s.change c f = .ok t) :
    t.view c = ({ s.view c with events := f (s.view c).events } : Chnnel).update ∧
      ∀ c', (s.objects c').fd ≠ (s.objects c).fd → t.view c' = s.view c' := by
  rw [change_eq h honly f, Except.ok.injEq] at ht
  subst ht
  refine ⟨?_, fun c' hfd ↦ ?_⟩
  · have hmap (hnew : (s.objects c).flag ≠ .cNew) := (h.mapped c).mpr hnew
    cases hflag : (s.objects c).flag with
    | cNew => simp [view, put, nextFlag, Chnnel.update, hflag]
    | cDeleted => simp [view, put, nextFlag, Chnnel.update, hflag, hmap]
    | cAdded =>
      by_cases hnone : (f (s.objects c).events).isNone = true
      · simp [view, put, nextFlag, Chnnel.update, isNoneEvent_eq, hflag, hmap, hnone]
      · simp [view, put, nextFlag, Chnnel.update, isNoneEvent_eq, hflag, hmap, hnone]
  · have hne : c' ≠ c := fun hc ↦ hfd (hc ▸ rfl)
    simp [view, put, hne, hfd]

theorem remove_view {s t : Epoller} {c : ChnnelPtr} (h : s.Agrees)
    (huse : (s.objects c).addedToLoop = true) (hnone : (s.objects c).events.isNone = true)
    (ht : s.remove c = .ok t) :
    t.view c = (s.view c).remove ∧
      ∀ c', (s.objects c').fd ≠ (s.objects c).fd → t.view c' = s.view c' := by
  rw [remove_eq h huse hnone, Except.ok.injEq] at ht
  subst ht
  refine ⟨?_, fun c' hfd ↦ ?_⟩
  · by_cases hflag : (s.objects c).flag = .cAdded
    · simp [view, put, Chnnel.remove, hflag]
    · have hint := h.interest_eq_none (h.onlyUser huse) hflag
      simp [view, put, Chnnel.remove, hflag, hint]
  · have hne : c' ≠ c := fun hc ↦ hfd (hc ▸ rfl)
    simp [view, put, hne, hfd]

end Epoller

/-! ## 5. Idle channels -/

/-- The calls that change the mask of a channel. -/
inductive MaskCall where
  | enableReading
  | enableWriting
  | disableReading
  | disableWriting
  | diableAll
deriving DecidableEq, Repr

namespace Chnnel

def call (c : Chnnel) : MaskCall → Chnnel
  | .enableReading => c.enableReading
  | .enableWriting => c.enableWriting
  | .disableReading => c.disableReading
  | .disableWriting => c.disableWriting
  | .diableAll => c.diableAll

def step (c : Chnnel) (l : MaskCall) : Option Chnnel := some (c.call l)

/-- The descriptor is in the interest list exactly when there is something to watch for. -/
def Listed (c : Chnnel) : Prop := c.interest.isSome = true ↔ c.isNoneEvent = false

/-- A `disable` has something to disable. -/
def Useful (c : Chnnel) : MaskCall → Prop
  | .enableReading | .enableWriting => True
  | .disableReading | .disableWriting | .diableAll => c.isNoneEvent = false

/-- A channel whose flag follows its mask. -/
structure Tidy (c : Chnnel) : Prop where
  flag : c.flag = .cAdded ↔ c.isNoneEvent = false
  interest : c.interest.isSome = true ↔ c.flag = .cAdded

theorem update_tidy {c : Chnnel} (hflag : c.isNoneEvent = true → c.flag = .cAdded) :
    c.update.Tidy := by
  have hsame : c.update.isNoneEvent = c.isNoneEvent := by simp [isNoneEvent]
  refine ⟨?_, ?_⟩
  · rw [hsame, update_flag]
    cases hn : c.isNoneEvent with
    | true => simp [hflag hn]
    | false => simp
  · rw [update_interest, update_flag]
    split <;> simp

/-- An update of an idle channel that is not flagged as added registers it. -/
theorem update_not_listed {c : Chnnel} (hnone : c.isNoneEvent = true) (hflag : c.flag ≠ .cAdded) :
    ¬ c.update.Listed := by
  have hsame : c.update.isNoneEvent = c.isNoneEvent := by simp [isNoneEvent]
  rw [Listed, hsame, hnone, update_interest]
  simp [hflag]

theorem step_tidy {c d : Chnnel} {l : MaskCall} (h : c.Tidy) (hl : c.Useful l)
    (hstep : c.step l = some d) : d.Tidy := by
  cases hstep
  cases l with
  | enableReading => exact update_tidy fun hn ↦ by simp [isNoneEvent] at hn
  | enableWriting => exact update_tidy fun hn ↦ by simp [isNoneEvent] at hn
  | disableReading => exact update_tidy fun _ ↦ h.flag.mpr hl
  | disableWriting => exact update_tidy fun _ ↦ h.flag.mpr hl
  | diableAll => exact update_tidy fun _ ↦ h.flag.mpr hl

theorem step_not_listed {c d : Chnnel} {l : MaskCall} (h : c.Tidy) (hl : ¬ c.Useful l)
    (hstep : c.step l = some d) : ¬ d.Listed := by
  cases hstep
  have hidle (hn : ¬ c.isNoneEvent = false) : c.flag ≠ .cAdded := fun hf ↦ hn (h.flag.mp hf)
  cases l with
  | enableReading => exact (hl trivial).elim
  | enableWriting => exact (hl trivial).elim
  | disableReading =>
    refine update_not_listed ?_ (hidle hl)
    simp only [Useful, isNoneEvent] at hl ⊢
    simp_all
  | disableWriting =>
    refine update_not_listed ?_ (hidle hl)
    simp only [Useful, isNoneEvent] at hl ⊢
    simp_all
  | diableAll => exact update_not_listed rfl (hidle hl)

/-- **When no idle channel is registered.**  Behind every call the descriptor is in the interest
list exactly if the mask is not empty, if and only if no `disable` is called on an empty mask: such
a call finds the flag at `cNew` or `cDeleted` and adds the descriptor. -/
theorem always_listed_iff (ls : List MaskCall) :
    Trace.Always step Listed init ls ↔ Trace.Along step Useful init ls := by
  obtain ⟨c, hc⟩ : ∃ c, Trace.run step init ls = some c := by
    generalize init = c₀
    induction ls generalizing c₀ with
    | nil => exact ⟨c₀, rfl⟩
    | cons l ls ih => exact ih (c₀.call l)
  have hinit : init.Tidy := ⟨by decide, by decide⟩
  exact Trace.always_iff_along (I := Tidy) (fun _ _ _ h hl hstep ↦ step_tidy h hl hstep)
    (fun _ h ↦ h.interest.trans h.flag) (fun _ _ _ h hl hstep ↦ step_not_listed h hl hstep) hinit hc

/-- Reading stopped twice: the second call puts the descriptor back, with an empty mask. -/
theorem not_listed_after_second_disable :
    ¬ Trace.Always step Listed init [.enableReading, .disableReading, .disableReading] := by
  intro h
  have hlast : (((init.call .enableReading).call .disableReading).call .disableReading).Listed :=
    ((h.2 _ rfl).2 _ rfl).2 _ rfl
  exact absurd hlast (by unfold Listed; decide)

end Chnnel

end Netlib
