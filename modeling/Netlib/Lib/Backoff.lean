import Netlib.Lib.Run

/-!
# Delays that grow

A delay is used, and the next one is made from it; now and then the first one comes back.  A history
tells of both, and says what the delay is behind it.
-/

namespace Backoff

variable {τ : Type*}

/-- The delays of a list, each made from the one in front of it, lead from one delay to another. -/
inductive Uses (next : τ → τ) : τ → List τ → τ → Prop
  | nil {d : τ} : Uses next d [] d
  | cons {d e : τ} {ds : List τ} : Uses next (next d) ds e → Uses next d (d :: ds) e

inductive Mark (τ : Type*) where
  /-- The first delay is set again. -/
  | reset
  | used (delay : τ)
deriving DecidableEq

/-- How many delays have been used since the last reset. -/
def sinceReset (h : List (Mark τ)) : Nat :=
  h.foldl (fun k m ↦ match m with | .reset => 0 | .used _ => k + 1) 0

/-- The history has each delay at its place, and the delay behind it is `d`. -/
structure Keeps (next : τ → τ) (first : τ) (h : List (Mark τ)) (d : τ) : Prop where
  used : ∀ before x after, h = before ++ .used x :: after → x = next^[sinceReset before] first
  now : d = next^[sinceReset h] first

variable {next : τ → τ} {first d e f : τ} {ds ds' : List τ} {h : List (Mark τ)}

theorem Uses.append (h : Uses next d ds e) (h' : Uses next e ds' f) :
    Uses next d (ds ++ ds') f := by
  induction h with
  | nil => exact h'
  | cons _ ih => exact .cons (ih h')

@[simp] theorem sinceReset_nil : sinceReset ([] : List (Mark τ)) = 0 := rfl

@[simp] theorem sinceReset_reset : sinceReset (h ++ [.reset]) = 0 := by
  rw [sinceReset, List.foldl_append]
  rfl

@[simp] theorem sinceReset_used (x : τ) : sinceReset (h ++ [.used x]) = sinceReset h + 1 := by
  rw [sinceReset, List.foldl_append]
  rfl

theorem keeps_nil : Keeps next first [] first where
  used before x after hsplit := absurd hsplit (by simp)
  now := rfl

theorem Keeps.reset (hk : Keeps next first h d) : Keeps next first (h ++ [.reset]) first where
  used before x after hsplit := by
    rcases Trace.eq_append_cons_of_concat hsplit with ⟨-, hm, -⟩ | ⟨after', rfl, hold⟩
    · cases hm
    · exact hk.used before x after' hold
  now := by rw [sinceReset_reset, Function.iterate_zero_apply]

theorem Keeps.use (hk : Keeps next first h d) :
    Keeps next first (h ++ [.used d]) (next d) where
  used before x after hsplit := by
    rcases Trace.eq_append_cons_of_concat hsplit with ⟨rfl, hm, -⟩ | ⟨after', rfl, hold⟩
    · cases hm
      exact hk.now
    · exact hk.used before x after' hold
  now := by rw [sinceReset_used, Function.iterate_succ_apply', ← hk.now]

theorem Keeps.uses (hk : Keeps next first h d) (hu : Uses next d ds e) :
    Keeps next first (h ++ ds.map .used) e := by
  induction hu generalizing h with
  | nil =>
    rw [List.map_nil, List.append_nil]
    exact hk
  | @cons d e ds _ ih =>
    have hrest := ih hk.use
    rwa [List.append_assoc, List.singleton_append, ← List.map_cons] at hrest

/-! ## 1. Doubling up to a cap -/

def doubled (cap d : Nat) : Nat := min (d * 2) cap

theorem iterate_doubled {first cap : Nat} (hle : first ≤ cap) (k : Nat) :
    (doubled cap)^[k] first = min (first * 2 ^ k) cap := by
  induction k with
  | zero => rw [Function.iterate_zero_apply, pow_zero, Nat.mul_one, min_eq_left hle]
  | succ k ih =>
    rw [Function.iterate_succ_apply', ih, doubled, pow_succ, ← Nat.mul_assoc]
    -- twice the cap is not below the cap
    omega

end Backoff
