import Mathlib

/-!
# `netlib::Chnnel` and its side of `netlib::Epoller`

A channel's event mask, the flag the `Epoller` keeps in it, and what the `Epoller` and the kernel
know of its descriptor (`net/Chnnel.h`, `net/Epoller.cc`).  The mask is only ever changed by the two
groups `cReadEvent` and `cWriteEvent`, so a bit for each is the whole of it.
-/

namespace Netlib

inductive ChnnelFlag where
  | cNew
  | cAdded
  | cDeleted
deriving DecidableEq, Repr

/-- The groups of events in a mask. -/
structure Events where
  read : Bool
  write : Bool
deriving DecidableEq, Repr

structure Chnnel where
  events : Events
  flag : ChnnelFlag
  /-- The descriptor is a key of `Epoller::_chnnels`. -/
  mapped : Bool
  /-- The kernel's interest in the descriptor. -/
  interest : Option Events
deriving DecidableEq, Repr

namespace Chnnel

def init : Chnnel := ⟨⟨false, false⟩, .cNew, false, none⟩

def isReading (c : Chnnel) : Bool := c.events.read

def isWriting (c : Chnnel) : Bool := c.events.write

def isNoneEvent (c : Chnnel) : Bool := !c.events.read && !c.events.write

/-- `Chnnel::update`, that is `Epoller::updateChnnel`. -/
def update (c : Chnnel) : Chnnel :=
  match c.flag with
  -- EPOLL_CTL_ADD, without a look at the mask
  | .cNew => { c with mapped := true, flag := .cAdded, interest := some c.events }
  | .cDeleted => { c with flag := .cAdded, interest := some c.events }
  -- EPOLL_CTL_DEL for an empty mask, else EPOLL_CTL_MOD
  | .cAdded =>
    if c.isNoneEvent then { c with interest := none, flag := .cDeleted }
    else { c with interest := some c.events }

def enableReading (c : Chnnel) : Chnnel := { c with events.read := true }.update

def enableWriting (c : Chnnel) : Chnnel := { c with events.write := true }.update

def disableReading (c : Chnnel) : Chnnel := { c with events.read := false }.update

def disableWriting (c : Chnnel) : Chnnel := { c with events.write := false }.update

def diableAll (c : Chnnel) : Chnnel := { c with events := ⟨false, false⟩ }.update

/-- `Chnnel::remove`, that is `Epoller::removeChnnel`. -/
def remove (c : Chnnel) : Chnnel :=
  { c with
    mapped := false
    interest := if c.flag = .cAdded then none else c.interest
    flag := .cNew }

@[simp] theorem update_events (c : Chnnel) : c.update.events = c.events := by
  unfold update
  split
  · rfl
  · rfl
  · split <;> rfl

/-- A channel with an empty mask leaves the interest list only if it is flagged as added; otherwise
it is put there. -/
theorem update_flag (c : Chnnel) :
    c.update.flag = if c.flag = .cAdded ∧ c.isNoneEvent = true then .cDeleted else .cAdded := by
  unfold update
  cases hf : c.flag with
  | cNew => simp
  | cDeleted => simp
  | cAdded => by_cases hn : c.isNoneEvent = true <;> simp [hn]

theorem update_interest (c : Chnnel) :
    c.update.interest = if c.flag = .cAdded ∧ c.isNoneEvent = true then none else some c.events := by
  unfold update
  cases hf : c.flag with
  | cNew => simp
  | cDeleted => simp
  | cAdded => by_cases hn : c.isNoneEvent = true <;> simp [hn]

@[simp] theorem enableReading_events (c : Chnnel) :
    c.enableReading.events = { c.events with read := true } := update_events _

@[simp] theorem enableWriting_events (c : Chnnel) :
    c.enableWriting.events = { c.events with write := true } := update_events _

@[simp] theorem disableReading_events (c : Chnnel) :
    c.disableReading.events = { c.events with read := false } := update_events _

@[simp] theorem disableWriting_events (c : Chnnel) :
    c.disableWriting.events = { c.events with write := false } := update_events _

end Chnnel

end Netlib
