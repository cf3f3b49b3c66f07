import Mathlib

/-!
# Numerals over an alphabet

The digits of a natural number in a base, most significant first and without leading zeros, written
with the letters of an alphabet whose length is the base, and read back.
-/

namespace Numeral

universe u

variable {α : Type u}

/-! ## 1. Digits -/

/-- Most significant first; those of 0 are a single 0. -/
def digits (b n : Nat) : List Nat := if n = 0 then [0] else (b.digits n).reverse

section

variable {b n : Nat}

theorem digits_of_lt (h : n < b) : digits b n = [n] := by
  unfold digits
  split
  · rw [‹n = 0›]
  · rw [Nat.digits_of_lt b n ‹_› h, List.reverse_singleton]

theorem digits_of_le (hb : 1 < b) (h : b ≤ n) : digits b n = digits b (n / b) ++ [n % b] := by
  have hn : n ≠ 0 := by omega
  have hdiv : n / b ≠ 0 := (Nat.div_pos h (by omega)).ne'
  unfold digits
  rw [if_neg hn, if_neg hdiv, Nat.digits_eq_cons_digits_div hb hn, List.reverse_cons]

theorem digits_lt (hb : 1 < b) {d : Nat} (hd : d ∈ digits b n) : d < b := by
  unfold digits at hd
  split at hd
  · rw [List.mem_singleton.mp hd]
    omega
  · exact Nat.digits_lt_base hb (List.mem_reverse.mp hd)

theorem digits_length_le (hb : 1 < b) {k : Nat} (hk : 0 < k) (h : n < b ^ k) :
    (digits b n).length ≤ k := by
  unfold digits
  split
  · exact hk
  · rw [List.length_reverse]
    exact (Nat.digits_length_le_iff hb n).mpr h

theorem ofDigits_digits : Nat.ofDigits b (digits b n).reverse = n := by
  unfold digits
  split
  · rw [List.reverse_singleton, Nat.ofDigits_singleton, ‹n = 0›]
  · rw [List.reverse_reverse, Nat.ofDigits_digits]

end

/-! ## 2. Texts -/

/-- The text of a number, in the base that is the length of the alphabet. -/
def write (alphabet : List α) (n : Nat) : List α :=
  (digits alphabet.length n).filterMap (alphabet[·]?)

/-- The number that a text stands for, if it has letters of the alphabet only. -/
def read [BEq α] (alphabet text : List α) : Option Nat :=
  (text.mapM alphabet.idxOf?).map fun ds ↦ Nat.ofDigits alphabet.length ds.reverse

/-- The canonical text of a number: letters of the alphabet, no leading zero, and read back as the
number. -/
structure IsNumeral [BEq α] (alphabet : List α) (n : Nat) (text : List α) : Prop where
  ne_nil : text ≠ []
  letters : ∀ c ∈ text, c ∈ alphabet
  lead : 1 < text.length → text.head? ≠ alphabet.head?
  read_eq : read alphabet text = some n

section

variable {alphabet : List α} {n : Nat}

theorem write_of_lt (h : n < alphabet.length) : write alphabet n = [alphabet[n]] := by
  unfold write
  rw [digits_of_lt h, List.filterMap_cons_some (List.getElem?_eq_getElem h), List.filterMap_nil]

theorem write_of_le (hb : 1 < alphabet.length) (h : alphabet.length ≤ n)
    (hlast : n % alphabet.length < alphabet.length) :
    write alphabet n =
      write alphabet (n / alphabet.length) ++ [alphabet[n % alphabet.length]] := by
  unfold write
  rw [digits_of_le hb h, List.filterMap_append,
    List.filterMap_cons_some (List.getElem?_eq_getElem hlast), List.filterMap_nil]

theorem write_length_le (hb : 1 < alphabet.length) {k : Nat} (hk : 0 < k)
    (h : n < alphabet.length ^ k) : (write alphabet n).length ≤ k :=
  le_trans (List.length_filterMap_le _ _) (digits_length_le hb hk h)

theorem write_ne_nil (hb : 1 < alphabet.length) : write alphabet n ≠ [] := by
  rcases Nat.lt_or_ge n alphabet.length with h | h
  · rw [write_of_lt h]
    exact List.cons_ne_nil _ _
  · rw [write_of_le hb h (Nat.mod_lt n (by omega))]
    exact List.append_ne_nil_of_right_ne_nil _ (List.cons_ne_nil _ _)

theorem mem_of_mem_write {c : α} (h : c ∈ write alphabet n) : c ∈ alphabet := by
  obtain ⟨d, -, hd⟩ := List.mem_filterMap.mp h
  exact List.mem_of_getElem? hd

/-- A number other than 0 has no leading zero. -/
theorem head_write_ne (hb : 1 < alphabet.length) (hnodup : alphabet.Nodup) (hn : n ≠ 0) :
    (write alphabet n).head? ≠ alphabet.head? := by
  induction n using Nat.strong_induction_on with
  | _ n ih =>
    rcases Nat.lt_or_ge n alphabet.length with h | h
    · rw [write_of_lt h, List.head?_cons, List.head?_eq_getElem?,
        List.getElem?_eq_getElem (by omega)]
      intro heq
      exact hn ((hnodup.getElem_inj_iff).mp (Option.some.inj heq))
    -- the first letter is that of the quotient, which is not 0 either
    · rw [write_of_le hb h (Nat.mod_lt n (by omega)),
        List.head?_append_of_ne_nil _ (write_ne_nil hb)]
      exact ih _ (Nat.div_lt_self (by omega) hb) (Nat.div_pos h (by omega)).ne'

theorem idxOf?_getElem [BEq α] [LawfulBEq α] (hnodup : alphabet.Nodup) {i : Nat}
    (hi : i < alphabet.length) : alphabet.idxOf? alphabet[i] = some i := by
  refine List.idxOf?_eq_some_iff.mpr ⟨hi, rfl, fun j hj heq ↦ ?_⟩
  have hij : j = i := (hnodup.getElem_inj_iff).mp heq
  omega

theorem mapM_idxOf? [BEq α] [LawfulBEq α] (hnodup : alphabet.Nodup) {ds : List Nat}
    (hds : ∀ d ∈ ds, d < alphabet.length) :
    (ds.filterMap (alphabet[·]?)).mapM alphabet.idxOf? = some ds := by
  induction ds with
  | nil => rfl
  | cons d ds ih =>
    have hd : d < alphabet.length := hds d List.mem_cons_self
    rw [List.filterMap_cons_some (List.getElem?_eq_getElem hd), List.mapM_cons,
      idxOf?_getElem hnodup hd, ih fun e he ↦ hds e (List.mem_cons_of_mem d he)]
    rfl

theorem read_write [BEq α] [LawfulBEq α] (hb : 1 < alphabet.length) (hnodup : alphabet.Nodup) :
    read alphabet (write alphabet n) = some n := by
  unfold read write
  rw [mapM_idxOf? hnodup fun d hd ↦ digits_lt hb hd, Option.map_some, ofDigits_digits]

theorem write_isNumeral [BEq α] [LawfulBEq α] (hb : 1 < alphabet.length)
    (hnodup : alphabet.Nodup) : IsNumeral alphabet n (write alphabet n) where
  ne_nil := write_ne_nil hb
  letters := fun _ hc ↦ mem_of_mem_write hc
  lead := by
    intro hlen
    apply head_write_ne hb hnodup
    -- the text of 0 is one letter long
    intro hzero
    rw [hzero, write_of_lt (by omega)] at hlen
    exact Nat.lt_irrefl 1 hlen
  read_eq := read_write hb hnodup

end

end Numeral
