import Mathlib

/-!
# `int` arithmetic that overflows

A signed operation of C whose exact result does not fit the type has no value.  `int x` is the
32-bit result whose exact value is `x`; an expression is written with one `int` around each of its
operations, `/` and `%` by a positive constant being exact (`Int.tdiv`, `Int.tmod`).  A conversion
to `int` wraps instead (`toInt32`).
-/

namespace CInt


/-- The value of a signed 32-bit operation with the exact result `x`, if it has one. -/
def int (x : Int) : Option Int :=
  if -2147483648 ≤ x ∧ x ≤ 2147483647 then some x else none

theorem int_eq {x : Int} (h : -2147483648 ≤ x ∧ x ≤ 2147483647) : int x = some x := by
  unfold int
  rw [if_pos h]

theorem bind_of_eq_some {α β : Type} {o : Option α} {f : α → Option β} {x : α} {r : β}
    (h : o = some x) (hf : f x = some r) : (o >>= f) = some r := by
  rw [h]
  exact hf

/-- One operation of an expression that does not overflow. -/
theorem bind_int {β : Type} {x : Int} {f : Int → Option β} {r : β}
    (h : -2147483648 ≤ x ∧ x ≤ 2147483647) (hf : f x = some r) : (int x >>= f) = some r :=
  bind_of_eq_some (int_eq h) hf

/-- `static_cast<int>` of a wider value. -/
def toInt32 (x : Int) : Int := Int.bmod x 4294967296

theorem toInt32_eq {x : Int} (h : -2147483648 ≤ x ∧ x ≤ 2147483647) : toInt32 x = x := by
  unfold toInt32
  rw [Int.bmod_eq_of_le (by omega) (by omega)]

end CInt
