import Mathlib

/-!
# The descriptors of a process

A process may have descriptors below a limit open; a call that opens one gets the lowest that is
free.  The bound is a field of the table, so every operation carries the proof that it keeps it.
-/

@[ext]
structure FdTable where
  limit : Nat
  opened : Finset Nat
  below : ∀ fd ∈ opened, fd < limit

namespace FdTable

variable {t u : FdTable} {fd : Nat}

/-- The descriptor that the next call gets. -/
def lowest (t : FdTable) : Option Nat := (List.range t.limit).find? (· ∉ t.opened)

/-- No call gets one. -/
def Full (t : FdTable) : Prop := t.lowest = none

instance (t : FdTable) : Decidable t.Full := inferInstanceAs (Decidable (_ = _))

theorem lowest_eq_some : t.lowest = some fd ↔
    fd < t.limit ∧ fd ∉ t.opened ∧ ∀ n < fd, n ∈ t.opened := by
  unfold lowest
  rw [List.find?_range_eq_some]
  simp
  tauto

theorem full_iff : t.Full ↔ t.opened = Finset.range t.limit := by
  unfold Full lowest
  rw [List.find?_range_eq_none]
  constructor
  · intro h
    ext fd
    simp only [Finset.mem_range]
    exact ⟨t.below fd, fun hlt ↦ by simpa using h fd hlt⟩
  · intro h fd hlt
    simp [h, hlt]

/-- The table with everything below the limit open. -/
def filled (limit : Nat) : FdTable := ⟨limit, Finset.range limit, fun _ ↦ Finset.mem_range.mp⟩

theorem filled_full (limit : Nat) : (filled limit).Full := full_iff.mpr rfl

def alloc (t : FdTable) : Option (Nat × FdTable) :=
  match h : t.lowest with
  | none => none
  | some fd => some (fd, { t with
      opened := insert fd t.opened
      below := by
        intro n hn
        rcases Finset.mem_insert.mp hn with rfl | hn
        · exact (lowest_eq_some.mp h).1
        · exact t.below n hn })

def release (t : FdTable) (fd : Nat) : FdTable where
  limit := t.limit
  opened := t.opened.erase fd
  below := fun n hn ↦ t.below n (Finset.mem_of_mem_erase hn)

theorem alloc_eq_none : t.alloc = none ↔ t.Full := by
  unfold alloc
  split
  · rename_i h
    simp [Full, h]
  · rename_i h
    simp [Full, h]

theorem alloc_eq_some : t.alloc = some (fd, u) ↔
    t.lowest = some fd ∧ u.limit = t.limit ∧ u.opened = insert fd t.opened := by
  unfold alloc
  split
  · rename_i h
    simp [h]
  · rename_i fd' h
    simp only [h, Option.some.injEq, Prod.mk.injEq]
    constructor
    · rintro ⟨rfl, rfl⟩
      exact ⟨rfl, rfl, rfl⟩
    · rintro ⟨rfl, hlimit, hopened⟩
      exact ⟨rfl, FdTable.ext hlimit.symm hopened.symm⟩

/-- A descriptor given back to a full table is the next one handed out. -/
theorem Full.release_alloc (h : t.Full) (hfd : fd ∈ t.opened) :
    (t.release fd).alloc = some (fd, t) := by
  rw [alloc_eq_some, lowest_eq_some]
  refine ⟨⟨t.below fd hfd, by simp [release], fun n hn ↦ ?_⟩, rfl, ?_⟩
  · have hlt : n < t.limit := hn.trans (t.below fd hfd)
    simp [release, full_iff.mp h, hlt, hn.ne]
  · exact (Finset.insert_erase hfd).symm

theorem mem_of_alloc (h : t.alloc = some (fd, u)) : fd ∈ u.opened := by
  rw [(alloc_eq_some.mp h).2.2]
  exact Finset.mem_insert_self ..

end FdTable
