import Mathlib

/-!
# Lower bounds by bisection

The search of `std::lower_bound` over positions: `p i` says that the element at position `i` lies
before the value searched for.  What the search returns is a boundary between a position where `p`
holds and one where it does not, whether or not the range is sorted; over a sorted range there is only
one.
-/

def bisect (p : Nat → Bool) (first len : Nat) : Nat :=
  if 0 < len then
    if p (first + len / 2) then bisect p (first + len / 2 + 1) (len - len / 2 - 1)
    else bisect p first (len / 2)
  else first
termination_by len

/-- **The search ends at a boundary of the range.** -/
theorem bisect_spec (p : Nat → Bool) (first len : Nat) :
    first ≤ bisect p first len ∧ bisect p first len ≤ first + len ∧
      (bisect p first len = first ∨ p (bisect p first len - 1) = true) ∧
      (bisect p first len = first + len ∨ p (bisect p first len) = false) := by
  fun_induction bisect p first len with
  -- the middle lies before the value: on with what follows it
  | case1 first len hpos hp ih =>
    obtain ⟨hlo, hhi, hbefore, hafter⟩ := ih
    refine ⟨by omega, by omega, ?_, ?_⟩
    · right
      rcases hbefore with heq | hbefore
      · rw [heq, Nat.add_sub_cancel]
        exact hp
      · exact hbefore
    · rcases hafter with heq | hafter
      · left
        omega
      · right
        exact hafter
  -- the middle does not: it is the end of the range now
  | case2 first len hpos hp ih =>
    obtain ⟨hlo, hhi, hbefore, hafter⟩ := ih
    refine ⟨hlo, by omega, hbefore, ?_⟩
    right
    rcases hafter with heq | hafter
    · rw [heq]
      exact Bool.eq_false_of_not_eq_true hp
    · exact hafter
  | case3 first len hpos =>
    refine ⟨le_rfl, by omega, Or.inl rfl, ?_⟩
    left
    omega
