import Mathlib

/-!
# Ordered sets

`std::set` over a linear order: the elements in strictly increasing order, as an iterator meets
them.  `below x` and `atLeast x` are the two halves that `lower_bound(x)` cuts the set into.
-/

universe u v

structure OrdSet (α : Type u) [LinearOrder α] where
  toList : List α
  sorted : toList.Pairwise (· < ·)
deriving DecidableEq

namespace OrdSet

variable {α : Type u} {β : Type v} [LinearOrder α] [LinearOrder β]

instance : Membership α (OrdSet α) := ⟨fun s a ↦ a ∈ s.toList⟩

instance (a : α) (s : OrdSet α) : Decidable (a ∈ s) := inferInstanceAs (Decidable (a ∈ s.toList))

theorem mem_toList {a : α} {s : OrdSet α} : a ∈ s.toList ↔ a ∈ s := Iff.rfl

def empty : OrdSet α := ⟨[], .nil⟩

def size (s : OrdSet α) : Nat := s.toList.length

/-- Put an element in its place, unless it is there. -/
def insertList (a : α) : List α → List α
  | [] => [a]
  | b :: l => if a < b then a :: b :: l else if a = b then b :: l else b :: insertList a l

theorem mem_insertList {a b : α} {l : List α} : b ∈ insertList a l ↔ b = a ∨ b ∈ l := by
  induction l with
  | nil => simp [insertList]
  | cons c l ih =>
    unfold insertList
    split
    · simp
    · split
      · rename_i hac
        simp [hac]
      · simp only [List.mem_cons, ih]
        tauto

theorem pairwise_insertList {a : α} {l : List α} (h : l.Pairwise (· < ·)) :
    (insertList a l).Pairwise (· < ·) := by
  induction l with
  | nil => simp [insertList]
  | cons c l ih =>
    obtain ⟨hc, hl⟩ := List.pairwise_cons.mp h
    unfold insertList
    split
    · rename_i hac
      refine List.pairwise_cons.mpr ⟨fun b hb ↦ ?_, h⟩
      rcases List.mem_cons.mp hb with rfl | hb
      · exact hac
      · exact hac.trans (hc b hb)
    · split
      · exact h
      · rename_i hnot hne
        refine List.pairwise_cons.mpr ⟨fun b hb ↦ ?_, ih hl⟩
        rcases mem_insertList.mp hb with rfl | hb
        · exact lt_of_le_of_ne (not_lt.mp hnot) (Ne.symm hne)
        · exact hc b hb

def insert (s : OrdSet α) (a : α) : OrdSet α := ⟨insertList a s.toList, pairwise_insertList s.sorted⟩

def erase (s : OrdSet α) (a : α) : OrdSet α := ⟨s.toList.erase a, s.sorted.sublist List.erase_sublist⟩

/-- The elements before `lower_bound(x)`. -/
def below (s : OrdSet α) (x : α) : OrdSet α :=
  ⟨s.toList.takeWhile (· < x), s.sorted.sublist (List.takeWhile_sublist _)⟩

/-- The elements from `lower_bound(x)` on. -/
def atLeast (s : OrdSet α) (x : α) : OrdSet α :=
  ⟨s.toList.dropWhile (· < x), s.sorted.sublist (List.dropWhile_sublist _)⟩

/-! ## 1. Membership -/

@[simp] theorem not_mem_empty (a : α) : a ∉ (empty : OrdSet α) := List.not_mem_nil

@[simp] theorem mem_insert {s : OrdSet α} {a b : α} : b ∈ s.insert a ↔ b = a ∨ b ∈ s :=
  mem_insertList

theorem nodup (s : OrdSet α) : s.toList.Nodup := s.sorted.imp ne_of_lt

/-- The order leaves no choice of where the elements stand. -/
theorem eq_of_mem_iff {s t : OrdSet α} (h : ∀ a, a ∈ s ↔ a ∈ t) : s = t := by
  have hperm : s.toList.Perm t.toList := (List.perm_ext_iff_of_nodup s.nodup t.nodup).mpr h
  have hlist : s.toList = t.toList :=
    hperm.eq_of_pairwise (fun _ _ _ _ hab hba ↦ (hab.not_gt hba).elim) s.sorted t.sorted
  cases s
  cases t
  simpa using hlist

@[simp] theorem mem_erase {s : OrdSet α} {a b : α} : b ∈ s.erase a ↔ b ≠ a ∧ b ∈ s :=
  s.nodup.mem_erase_iff

theorem below_append_atLeast (s : OrdSet α) (x : α) :
    (s.below x).toList ++ (s.atLeast x).toList = s.toList :=
  List.takeWhile_append_dropWhile

theorem lt_of_mem_below {s : OrdSet α} {a x : α} (h : a ∈ s.below x) : a < x := by
  simpa using List.mem_takeWhile_imp (mem_toList.mpr h)

/-- In a sorted list nothing behind the cut is below it. -/
theorem le_of_mem_atLeast {s : OrdSet α} {a x : α} (h : a ∈ s.atLeast x) : x ≤ a := by
  have hsorted := (s.atLeast x).sorted
  have hmem := mem_toList.mpr h
  -- the first element is not below `x`, and the others are above it
  have hhead : ∀ b, (s.atLeast x).toList.head? = some b → x ≤ b := by
    intro b hb
    have hnot := List.head?_dropWhile_not (fun c ↦ decide (c < x)) s.toList
    rw [show List.head? (s.toList.dropWhile fun c ↦ decide (c < x)) = some b from hb] at hnot
    simpa using hnot
  cases hl : (s.atLeast x).toList with
  | nil => simp [hl] at hmem
  | cons b l =>
    rw [hl] at hsorted hmem hhead
    have hb : x ≤ b := hhead b rfl
    rcases List.mem_cons.mp hmem with rfl | ha
    · exact hb
    · exact hb.trans (le_of_lt ((List.pairwise_cons.mp hsorted).1 a ha))

theorem mem_iff_below_or_atLeast {s : OrdSet α} {a : α} (x : α) :
    a ∈ s ↔ a ∈ s.below x ∨ a ∈ s.atLeast x := by
  rw [← mem_toList, ← below_append_atLeast s x, List.mem_append]
  rfl

@[simp] theorem mem_below {s : OrdSet α} {a x : α} : a ∈ s.below x ↔ a ∈ s ∧ a < x := by
  constructor
  · exact fun h ↦ ⟨(mem_iff_below_or_atLeast x).mpr (Or.inl h), lt_of_mem_below h⟩
  · rintro ⟨hs, hlt⟩
    rcases (mem_iff_below_or_atLeast x).mp hs with h | h
    · exact h
    · exact ((le_of_mem_atLeast h).not_gt hlt).elim

@[simp] theorem mem_atLeast {s : OrdSet α} {a x : α} : a ∈ s.atLeast x ↔ a ∈ s ∧ x ≤ a := by
  constructor
  · exact fun h ↦ ⟨(mem_iff_below_or_atLeast x).mpr (Or.inr h), le_of_mem_atLeast h⟩
  · rintro ⟨hs, hle⟩
    rcases (mem_iff_below_or_atLeast x).mp hs with h | h
    · exact (hle.not_gt (lt_of_mem_below h)).elim
    · exact h

/-! ## 2. Size -/

/-- Sets that a map carries onto each other one to one have the same size. -/
theorem size_eq_of_bijOn {s : OrdSet α} {t : OrdSet β} (f : α → β) (hmaps : ∀ a ∈ s, f a ∈ t)
    (hinj : ∀ a ∈ s, ∀ b ∈ s, f a = f b → a = b) (hsurj : ∀ b ∈ t, ∃ a ∈ s, f a = b) :
    s.size = t.size := by
  have hnodup : (s.toList.map f).Nodup := s.nodup.map_on hinj
  have hperm : (s.toList.map f).Perm t.toList := by
    refine (List.perm_ext_iff_of_nodup hnodup t.nodup).mpr fun b ↦ ?_
    rw [List.mem_map, mem_toList]
    exact ⟨fun ⟨a, ha, hab⟩ ↦ hab ▸ hmaps a ha, hsurj b⟩
  simpa [size] using hperm.length_eq

end OrdSet
