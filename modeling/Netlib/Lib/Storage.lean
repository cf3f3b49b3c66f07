import Mathlib

/-!
# Contiguous storage and LP64 integers

What a C++ program does with a `std::vector<char>` through raw pointers, on a platform where `int`
has 32 bits and `size_t` 64.  Reads and writes are partial: an access outside the storage is `none`.
Conversions between the two integer types are the ones the compiler inserts; each comes with the
lemma that says in which range it changes nothing.
-/

namespace Storage

universe u

variable {α : Type u}

/-! ## 1. Integer conversions -/

/-- An `int` used where a `size_t` is expected. -/
def sizeOfInt (i : Int) : Nat := (i % 2 ^ 64).toNat

/-- A `size_t` stored into an `int`. -/
def intOfSize (n : Nat) : Int := Int.bmod n (2 ^ 32)

def intSub (a b : Int) : Int := Int.bmod (a - b) (2 ^ 32)

def sizeAdd (a b : Nat) : Nat := (a + b) % 2 ^ 64

def sizeSub (a b : Nat) : Nat := sizeOfInt ((a : Int) - b)

theorem sizeOfInt_natCast {n : Nat} (h : n < 2 ^ 64) : sizeOfInt (n : Int) = n := by
  unfold sizeOfInt
  omega

theorem intOfSize_of_lt {n : Nat} (h : n < 2 ^ 31) : intOfSize n = n := by
  unfold intOfSize
  rw [Int.bmod_eq_of_le] <;> omega

theorem intOfSize_lt (n : Nat) : intOfSize n < 2 ^ 31 :=
  Int.bmod_lt (by decide)

/-- The first lengths past the range of `int` come out negative. -/
theorem intOfSize_of_ge {n : Nat} (h : 2 ^ 31 ≤ n) (h' : n < 2 ^ 32) :
    intOfSize n = (n : Int) - 2 ^ 32 := by
  unfold intOfSize Int.bmod
  have hmod : (n : Int) % ((2 ^ 32 : Nat) : Int) = n := Int.emod_eq_of_lt (by omega) (by omega)
  simp only [hmod]
  rw [if_neg (by omega)]
  norm_num

theorem intSub_natCast {a b : Nat} (hle : b ≤ a) (h : a < 2 ^ 31) :
    intSub (a : Int) (b : Int) = ((a - b : Nat) : Int) := by
  unfold intSub
  rw [Int.bmod_eq_of_le] <;> omega

theorem sizeAdd_of_lt {a b : Nat} (h : a + b < 2 ^ 64) : sizeAdd a b = a + b :=
  Nat.mod_eq_of_lt h

theorem sizeSub_of_le {a b : Nat} (hle : b ≤ a) (h : a < 2 ^ 64) : sizeSub a b = a - b := by
  unfold sizeSub
  rw [← Int.ofNat_sub hle, sizeOfInt_natCast (by omega)]

/-! ## 2. Reads, writes and copies -/

/-- The `n` elements from offset `off` on. -/
def slice (xs : List α) (off : Int) (n : Nat) : Option (List α) :=
  if 0 ≤ off ∧ off.toNat + n ≤ xs.length then some ((xs.drop off.toNat).take n) else none

/-- Write `ys` over the elements from offset `off` on. -/
def overwrite (xs : List α) (off : Int) (ys : List α) : Option (List α) :=
  if 0 ≤ off ∧ off.toNat + ys.length ≤ xs.length then
    some (xs.take off.toNat ++ ys ++ xs.drop (off.toNat + ys.length))
  else none

/-- Copy `n` elements from offset `src` to offset `dst`, lowest first, in place. -/
def copyForward (xs : List α) (src dst : Nat) : Nat → Option (List α)
  | 0 => some xs
  | n + 1 =>
    if dst < xs.length then
      xs[src]?.bind fun x ↦ copyForward (xs.set dst x) (src + 1) (dst + 1) n
    else none

/-- `std::copy` of the elements from `first` up to `last` to the ones from `dst` on. -/
def copyRange (xs : List α) (first last : Int) (dst : Nat) : Option (List α) :=
  if 0 ≤ first ∧ first ≤ last then copyForward xs first.toNat dst (last - first).toNat else none

/-- `std::vector::resize`: cut at `n`, or fill up to it with `fill`. -/
def resize (xs : List α) (n : Nat) (fill : α) : List α :=
  xs.take n ++ List.replicate (n - xs.length) fill

theorem slice_natCast {xs : List α} {off n : Nat} (h : off + n ≤ xs.length) :
    slice xs (off : Int) n = some ((xs.drop off).take n) := by
  unfold slice
  rw [if_pos ⟨Int.natCast_nonneg off, by simpa using h⟩, Int.toNat_natCast]

theorem overwrite_natCast (xs ys : List α) (off : Nat) (h : off + ys.length ≤ xs.length) :
    overwrite xs (off : Int) ys = some (xs.take off ++ ys ++ xs.drop (off + ys.length)) := by
  unfold overwrite
  rw [if_pos ⟨Int.natCast_nonneg off, by simpa using h⟩, Int.toNat_natCast]

theorem overwrite_eq_none {xs ys : List α} {off : Nat} (h : xs.length < off + ys.length) :
    overwrite xs (off : Int) ys = none := by
  unfold overwrite
  rw [if_neg (by omega)]

/-- Two writes, the second right behind the first, are one. -/
theorem overwrite_append (xs ys zs : List α) (off : Nat) :
    ((overwrite xs (off : Int) ys).bind fun xs ↦ overwrite xs ((off + ys.length : Nat) : Int) zs) =
      overwrite xs (off : Int) (ys ++ zs) := by
  by_cases h : off + ys.length ≤ xs.length
  · have hlen : (xs.take off ++ ys).length = off + ys.length := by
      rw [List.length_append, List.length_take]
      omega
    rw [overwrite_natCast xs ys off h, Option.bind_some]
    by_cases h' : off + ys.length + zs.length ≤ xs.length
    · rw [overwrite_natCast _ zs _ (by rw [List.length_append, hlen, List.length_drop]; omega),
        overwrite_natCast xs (ys ++ zs) off (by rw [List.length_append]; omega),
        List.take_left' hlen, ← List.drop_drop, List.drop_left' hlen, List.drop_drop,
        List.length_append]
      simp only [List.append_assoc, Nat.add_assoc]
    · rw [overwrite_eq_none (by rw [List.length_append, hlen, List.length_drop]; omega),
        overwrite_eq_none (by rw [List.length_append]; omega)]
  · rw [overwrite_eq_none (by omega), overwrite_eq_none (by rw [List.length_append]; omega),
      Option.bind_none]

/-- Copying downwards, lowest element first, never reads an element it has already overwritten, so
overlapping ranges come out as if the source had been saved first. -/
theorem copyForward_eq {xs : List α} {src dst n : Nat} (hle : dst ≤ src)
    (hn : src + n ≤ xs.length) :
    copyForward xs src dst n =
      some (xs.take dst ++ (xs.drop src).take n ++ xs.drop (dst + n)) := by
  -- on the number of elements; the storage and both offsets move along
  induction n generalizing xs src dst with
  | zero => simp [copyForward]
  | succ n ih =>
    have hs : src < xs.length := by omega
    rw [copyForward, if_pos (by omega), List.getElem?_eq_getElem hs, Option.bind_some,
      ih (by omega) (by rw [List.length_set]; omega)]
    have htake : (xs.set dst xs[src]).take (dst + 1) = xs.take dst ++ [xs[src]] := by
      rw [List.take_succ_eq_append_getElem (by rw [List.length_set]; omega),
        List.getElem_set_self, List.take_set_of_le (Nat.le_refl _)]
    have hsrc : (xs.set dst xs[src]).drop (src + 1) = xs.drop (src + 1) :=
      List.drop_set_of_lt (by omega)
    have htail : (xs.set dst xs[src]).drop (dst + 1 + n) = xs.drop (dst + (n + 1)) := by
      rw [List.drop_set_of_lt (by omega), show dst + 1 + n = dst + (n + 1) by omega]
    have hmid : (xs.drop src).take (n + 1) = xs[src] :: (xs.drop (src + 1)).take n := by
      rw [List.drop_eq_getElem_cons hs, List.take_succ_cons]
    rw [htake, hsrc, htail, hmid]
    simp only [List.append_assoc, List.cons_append, List.nil_append]

theorem copyRange_natCast {xs : List α} {first last dst : Nat} (hle : dst ≤ first)
    (hfl : first ≤ last) (hlast : last ≤ xs.length) :
    copyRange xs (first : Int) (last : Int) dst =
      some (xs.take dst ++ (xs.drop first).take (last - first) ++
        xs.drop (dst + (last - first))) := by
  unfold copyRange
  rw [if_pos (by omega), Int.toNat_natCast, show ((last : Int) - first).toNat = last - first by omega,
    copyForward_eq hle (by omega)]

theorem resize_of_le {xs : List α} {n : Nat} (h : xs.length ≤ n) (fill : α) :
    resize xs n fill = xs ++ List.replicate (n - xs.length) fill := by
  unfold resize
  rw [List.take_of_length_le h]

/-! ## 3. The window between two offsets -/

/-- The elements between offsets `r` and `w`. -/
def window (xs : List α) (r w : Nat) : List α := (xs.drop r).take (w - r)

theorem window_length {xs : List α} {r w : Nat} (h : w ≤ xs.length) :
    (window xs r w).length = w - r := by
  unfold window
  rw [List.length_take, List.length_drop]
  omega

theorem window_self (xs : List α) (r : Nat) : window xs r r = [] := by simp [window]

theorem window_drop (xs : List α) (r w n : Nat) : window xs (r + n) w = (window xs r w).drop n := by
  unfold window
  rw [List.drop_take, List.drop_drop, Nat.sub_sub]

theorem window_take {xs : List α} {r w n : Nat} (h : n ≤ w - r) :
    window xs r (w - n) = (window xs r w).take (w - r - n) := by
  unfold window
  rw [List.take_take, show w - n - r = min (w - r - n) (w - r) by omega]

theorem window_append_right {xs zs : List α} {r w : Nat} (h : w ≤ xs.length) :
    window (xs ++ zs) r w = window xs r w := by
  unfold window
  by_cases hr : r ≤ xs.length
  · rw [List.drop_append_of_le_length hr, List.take_append_of_le_length]
    rw [List.length_drop]
    omega
  · rw [show w - r = 0 by omega, List.take_zero, List.take_zero]

/-- Writing right behind a window extends it at the end. -/
theorem window_overwrite_end (xs ys : List α) {r w : Nat} (hr : r ≤ w)
    (h : w + ys.length ≤ xs.length) :
    window (xs.take w ++ ys ++ xs.drop (w + ys.length)) r (w + ys.length) =
      window xs r w ++ ys := by
  have hlen : (xs.take w).length = w := by rw [List.length_take]; omega
  unfold window
  rw [List.append_assoc, List.drop_append_of_le_length (by omega),
    List.take_append, List.length_drop, hlen, List.drop_take,
    List.take_of_length_le (by rw [List.length_take]; omega),
    show w + ys.length - r - (w - r) = ys.length by omega, List.take_left']
  rfl

/-- Writing right in front of a window extends it at the front. -/
theorem window_overwrite_front {xs ys : List α} {r w : Nat} (hr : ys.length ≤ r)
    (hw : r ≤ w) (h : w ≤ xs.length) :
    window (xs.take (r - ys.length) ++ ys ++ xs.drop r) (r - ys.length) w =
      ys ++ window xs r w := by
  have hlen : (xs.take (r - ys.length)).length = r - ys.length := by
    rw [List.length_take]; omega
  unfold window
  rw [List.append_assoc, List.drop_left' hlen, List.take_append,
    List.take_of_length_le (by omega), show w - (r - ys.length) - ys.length = w - r by omega]

end Storage
