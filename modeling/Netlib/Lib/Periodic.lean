import Mathlib

/-!
# Firing at readings of a clock

Something that is due at a time fires at the first reading of a clock that is not before that time.
Behind that it is due again a period later than the reading, or never.  A `Plan` is what comes of it
for the readings so far; nothing is assumed about the clock.
-/

namespace Periodic

variable {τ : Type*} [LinearOrder τ] [Add τ]

structure Plan (τ : Type*) where
  /-- The readings it fired at, in order. -/
  fired : List τ
  /-- When it is due next. -/
  due : Option τ

namespace Plan

def start (first : τ) : Plan τ := ⟨[], some first⟩

/-- The reading is not before the time it is due. -/
def IsDue (p : Plan τ) (now : τ) : Prop := ∃ t, p.due = some t ∧ t ≤ now

instance (p : Plan τ) (now : τ) : Decidable (p.IsDue now) :=
  match h : p.due with
  | none => .isFalse fun ⟨t, ht, _⟩ ↦ by rw [h] at ht; cases ht
  | some t => decidable_of_iff (t ≤ now)
    ⟨fun hle ↦ ⟨t, h, hle⟩, fun ⟨u, hu, hle⟩ ↦ by rw [h] at hu; cases hu; exact hle⟩

/-- One more reading. -/
def take (period : Option τ) (p : Plan τ) (now : τ) : Plan τ :=
  if p.IsDue now then ⟨p.fired ++ [now], period.map (now + ·)⟩ else p

/-- The plan behind a list of readings. -/
def of (period : Option τ) (first : τ) (readings : List τ) : Plan τ :=
  readings.foldl (take period) (start first)

variable {period : Option τ} {p : Plan τ} {first now : τ} {readings : List τ}

@[simp] theorem of_nil : of period first [] = start first := rfl

theorem of_concat :
    of period first (readings ++ [now]) = (of period first readings).take period now := by
  rw [of, List.foldl_append]
  rfl

theorem take_of_due (h : p.IsDue now) :
    p.take period now = ⟨p.fired ++ [now], period.map (now + ·)⟩ := if_pos h

theorem take_of_not_due (h : ¬ p.IsDue now) : p.take period now = p := if_neg h

theorem fired_prefix_take : p.fired <+: (p.take period now).fired := by
  by_cases h : p.IsDue now
  · rw [take_of_due h]
    exact List.prefix_append _ _
  · rw [take_of_not_due h]

/-! ## 1. What a plan comes to -/

/-- Firings that are never early: the first not before the first time, each other not before a
period behind the one in front of it; and only one when there is no period. -/
structure Spaced (period : Option τ) (first : τ) (fired : List τ) : Prop where
  first : ∀ t ∈ fired.head?, first ≤ t
  spaced : fired.IsChain fun t u ↦ ∃ d, period = some d ∧ t + d ≤ u

theorem Spaced.initial {ts us : List τ} (h : Spaced period first us) (hpre : ts <+: us) :
    Spaced period first ts := by
  obtain ⟨more, rfl⟩ := hpre
  refine ⟨fun t ht ↦ h.first t ?_, (List.isChain_append.mp h.spaced).1⟩
  rw [List.head?_append, Option.mem_def.mp ht]
  rfl

/-- Without a period it fires once. -/
theorem Spaced.length_le {ts : List τ} (h : Spaced none first ts) : ts.length ≤ 1 := by
  match ts, h.spaced with
  | [], _ => exact Nat.zero_le _
  | [_], _ => exact le_rfl
  | _ :: _ :: _, hchain =>
    obtain ⟨d, hd, -⟩ := (List.isChain_cons_cons.mp hchain).1
    cases hd

/-- Where a plan stands. -/
structure Stands (period : Option τ) (first : τ) (p : Plan τ) : Prop where
  spaced : Spaced period first p.fired
  due : p.due = p.fired.getLast?.elim (some first) fun t ↦ period.map (t + ·)

theorem Stands.take (h : Stands period first p) (now : τ) :
    Stands period first (p.take period now) := by
  by_cases hdue : p.IsDue now
  · rw [take_of_due hdue]
    obtain ⟨t, ht, hle⟩ := hdue
    rw [h.due] at ht
    refine ⟨⟨?_, ?_⟩, ?_⟩
    · intro u hu
      cases hfired : p.fired with
      | nil =>
        rw [hfired] at ht hu
        cases ht
        cases hu
        exact hle
      | cons a rest =>
        rw [hfired, List.cons_append] at hu
        exact h.spaced.first u (by rw [hfired]; exact hu)
    · refine List.isChain_append.mpr ⟨h.spaced.spaced, List.isChain_singleton _, ?_⟩
      intro u hu v hv
      cases hv
      rw [hu, Option.elim_some, Option.map_eq_some_iff] at ht
      obtain ⟨d, hd, rfl⟩ := ht
      exact ⟨d, hd, hle⟩
    · rw [List.getLast?_concat]
      rfl
  · rw [take_of_not_due hdue]
    exact h

theorem of_stands (period : Option τ) (first : τ) (readings : List τ) :
    Stands period first (of period first readings) := by
  induction readings using List.reverseRecOn with
  | nil => exact ⟨⟨fun t ht ↦ absurd ht (by simp [start]), List.isChain_nil⟩, rfl⟩
  | append_singleton readings now ih =>
    rw [of_concat]
    exact ih.take now

end Plan

end Periodic
