import Mathlib

/-!
# A queue drained in batches

Producers push at the end of `pending`; the consumer takes everything that is pending as one batch
and runs the batch from the front.  `queued` and `executed` are the history of the two ends: every
element ever pushed, and every element run so far, each in order.
-/

namespace Batch

universe u

variable {α : Type u}

structure Queue (α : Type u) where
  pending : List α
  batch : List α
  queued : List α
  executed : List α
deriving DecidableEq, Repr

namespace Queue

def empty : Queue α := ⟨[], [], [], []⟩

def push (q : Queue α) (a : α) : Queue α :=
  { q with pending := q.pending ++ [a], queued := q.queued ++ [a] }

def pushAll (q : Queue α) (as : List α) : Queue α :=
  { q with pending := q.pending ++ as, queued := q.queued ++ as }

/-- Swap the pending elements out into a new batch. -/
def take (q : Queue α) : Queue α := { q with batch := q.pending, pending := [] }

/-- Start the next element of the batch. -/
def next (q : Queue α) : Option (α × Queue α) :=
  match q.batch with
  | [] => none
  | a :: rest => some (a, { q with batch := rest, executed := q.executed ++ [a] })

/-- What is still to be run, the next element first. -/
def waiting (q : Queue α) : List α := q.batch ++ q.pending

/-- Nothing lost, nothing twice, nothing out of order. -/
def InOrder (q : Queue α) : Prop := q.executed ++ q.batch ++ q.pending = q.queued

@[simp] theorem push_pending (q : Queue α) (a : α) : (q.push a).pending = q.pending ++ [a] := rfl
@[simp] theorem push_batch (q : Queue α) (a : α) : (q.push a).batch = q.batch := rfl
@[simp] theorem push_queued (q : Queue α) (a : α) : (q.push a).queued = q.queued ++ [a] := rfl
@[simp] theorem push_executed (q : Queue α) (a : α) : (q.push a).executed = q.executed := rfl

@[simp] theorem take_pending (q : Queue α) : q.take.pending = [] := rfl
@[simp] theorem take_batch (q : Queue α) : q.take.batch = q.pending := rfl
@[simp] theorem take_queued (q : Queue α) : q.take.queued = q.queued := rfl
@[simp] theorem take_executed (q : Queue α) : q.take.executed = q.executed := rfl

theorem next_eq_some {q q' : Queue α} {a : α} : q.next = some (a, q') ↔
    ∃ rest, q.batch = a :: rest ∧ q' = { q with batch := rest, executed := q.executed ++ [a] } := by
  unfold next
  cases q.batch with
  | nil => simp
  | cons b rest =>
    simp only [Option.some.injEq, Prod.mk.injEq, List.cons.injEq]
    constructor
    · rintro ⟨rfl, rfl⟩
      exact ⟨rest, ⟨rfl, rfl⟩, rfl⟩
    · rintro ⟨rest', ⟨rfl, rfl⟩, rfl⟩
      exact ⟨rfl, rfl⟩

theorem next_eq_none {q : Queue α} : q.next = none ↔ q.batch = [] := by
  unfold next
  cases q.batch <;> simp

theorem next_queued {q q' : Queue α} {a : α} (hn : q.next = some (a, q')) :
    q'.queued = q.queued := by
  obtain ⟨rest, -, rfl⟩ := next_eq_some.mp hn
  rfl

@[simp] theorem push_waiting (q : Queue α) (a : α) : (q.push a).waiting = q.waiting ++ [a] :=
  (List.append_assoc ..).symm

theorem take_waiting {q : Queue α} (hb : q.batch = []) : q.take.waiting = q.waiting := by
  simp [waiting, hb]

theorem next_waiting {q q' : Queue α} {a : α} (hn : q.next = some (a, q')) :
    q.waiting = a :: q'.waiting := by
  obtain ⟨rest, hb, rfl⟩ := next_eq_some.mp hn
  simp [waiting, hb]

theorem InOrder.push {q : Queue α} (h : q.InOrder) (a : α) : (q.push a).InOrder := by
  unfold InOrder at *
  rw [push_executed, push_batch, push_pending, push_queued, ← List.append_assoc, h]

theorem InOrder.pushAll {q : Queue α} (h : q.InOrder) (as : List α) : (q.pushAll as).InOrder := by
  unfold InOrder at *
  simp only [Queue.pushAll, ← h, List.append_assoc]

/-- Only a batch that was run to its end may be replaced. -/
theorem InOrder.take {q : Queue α} (h : q.InOrder) (hb : q.batch = []) : q.take.InOrder := by
  unfold InOrder at *
  rw [hb, List.append_nil] at h
  rw [take_executed, take_batch, take_pending, take_queued, List.append_nil, h]

theorem InOrder.next {q q' : Queue α} {a : α} (h : q.InOrder) (hn : q.next = some (a, q')) :
    q'.InOrder := by
  obtain ⟨rest, hb, rfl⟩ := next_eq_some.mp hn
  unfold InOrder at *
  rw [hb] at h
  simpa using h

theorem InOrder.mem_of_next {q q' : Queue α} {a : α} (h : q.InOrder) (hn : q.next = some (a, q')) :
    a ∈ q.queued := by
  obtain ⟨rest, hb, -⟩ := next_eq_some.mp hn
  rw [← h, hb]
  simp

theorem InOrder.lengths {q : Queue α} (h : q.InOrder) :
    q.executed.length + q.batch.length + q.pending.length = q.queued.length := by
  unfold InOrder at h
  rw [← h, List.length_append, List.length_append]

end Queue

end Batch
