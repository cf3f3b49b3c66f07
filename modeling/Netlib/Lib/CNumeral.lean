import Mathlib

/-!
# Numerals of C

What `strtoul` reads in base 0: a decimal numeral, an octal one behind a leading zero, or a
hexadecimal one behind `0x`.  A number written in one of the three ways is read back, whatever else
follows that cannot go on with it.
-/

namespace CNumeral

/-- The value of a digit of some base up to 16. -/
def digitOf (c : Char) : Option Nat :=
  if c.isDigit then some (c.toNat - '0'.toNat)
  else if 'a' ≤ c ∧ c ≤ 'f' then some (c.toNat - 'a'.toNat + 10)
  else if 'A' ≤ c ∧ c ≤ 'F' then some (c.toNat - 'A'.toNat + 10)
  else none

def isDigitOf (base : Nat) (c : Char) : Bool := (digitOf c).any (· < base)

/-- `strtoul` in a base: the number, and the text behind it. -/
def strtoulIn (base : Nat) (text : List Char) : Nat × List Char :=
  ((text.takeWhile (isDigitOf base)).foldl (fun n c ↦ base * n + (digitOf c).getD 0) 0,
    text.dropWhile (isDigitOf base))

/-- `strtoul` in base 0 on a text that starts with a digit. -/
def strtoul (text : List Char) : Nat × List Char :=
  if text.head? = some '0' ∧ (text[1]? = some 'x' ∨ text[1]? = some 'X') ∧
      text[2]?.any (isDigitOf 16) then strtoulIn 16 (text.drop 2)
  else if text.head? = some '0' then strtoulIn 8 text
  else strtoulIn 10 text

/-! ## 1. Digits -/

section

variable {b n : Nat} {c : Char} {rest : List Char}

theorem digitOf_digitChar (h : n < 16) : digitOf n.digitChar = some n := by
  interval_cases n <;> rfl

theorem isDigitOf_of_mem_toDigits (hb : 1 < b) (hb' : b ≤ 16) (hc : c ∈ Nat.toDigits b n) :
    isDigitOf b c = true := by
  induction n using Nat.strong_induction_on with
  | h n ih =>
    rw [Nat.toDigits_eq_if hb] at hc
    split at hc
    · rw [List.mem_singleton.mp hc, isDigitOf, digitOf_digitChar (by omega)]
      simpa
    · rcases List.mem_append.mp hc with hfront | hlast
      · exact ih (n / b) (Nat.div_lt_self (by omega) hb) hfront
      · have hlt := Nat.mod_lt n (Nat.zero_lt_of_lt hb)
        rw [List.mem_singleton.mp hlast, isDigitOf, digitOf_digitChar (by omega)]
        simpa

theorem foldl_toDigits (hb : 1 < b) (hb' : b ≤ 16) :
    (Nat.toDigits b n).foldl (fun n c ↦ b * n + (digitOf c).getD 0) 0 = n := by
  induction n using Nat.strong_induction_on with
  | h n ih =>
    rw [Nat.toDigits_eq_if hb]
    split
    · rw [List.foldl_cons, List.foldl_nil, digitOf_digitChar (by omega)]
      simp
    · have hlt := Nat.mod_lt n (Nat.zero_lt_of_lt hb)
      rw [List.foldl_append, ih (n / b) (Nat.div_lt_self (by omega) hb), List.foldl_cons,
        List.foldl_nil, digitOf_digitChar (by omega), Option.getD_some, Nat.div_add_mod]

/-- Digits of a base in front of something else. -/
theorem strtoulIn_digits {digits : List Char} (hdigits : ∀ c ∈ digits, isDigitOf b c = true)
    (hrest : ∀ c ∈ rest.head?, isDigitOf b c = false) :
    strtoulIn b (digits ++ rest) =
      (digits.foldl (fun n c ↦ b * n + (digitOf c).getD 0) 0, rest) := by
  have hstop : rest.takeWhile (isDigitOf b) = [] ∧ rest.dropWhile (isDigitOf b) = rest := by
    cases rest with
    | nil => exact ⟨rfl, rfl⟩
    | cons c rest =>
      have hc : ¬ isDigitOf b c = true := by rw [hrest c rfl]; exact Bool.false_ne_true
      exact ⟨List.takeWhile_cons_of_neg hc, List.dropWhile_cons_of_neg hc⟩
  rw [strtoulIn, List.takeWhile_append_of_pos hdigits, List.dropWhile_append_of_pos hdigits,
    hstop.1, hstop.2, List.append_nil]

/-- Only 0 is written with a leading zero. -/
theorem head_toDigits_ne_zero (hb : 1 < b) (hn : n ≠ 0) :
    (Nat.toDigits b n).head? ≠ some '0' := by
  induction n using Nat.strong_induction_on with
  | h n ih =>
    rw [Nat.toDigits_eq_if hb]
    split
    · rw [List.head?_cons, Ne, Option.some.injEq, Nat.digitChar_eq_zero]
      exact hn
    · have hle : b ≤ n := by omega
      have hdiv : n / b ≠ 0 := (Nat.div_pos hle (by omega)).ne'
      rw [List.head?_append_of_ne_nil _ Nat.toDigits_ne_nil]
      exact ih (n / b) (Nat.div_lt_self (by omega) hb) hdiv

end

/-! ## 2. Written numbers -/

/-- The three ways to write a number; a hexadecimal one has a small or a capital `x`. -/
inductive NumeralBase where
  | decimal
  | octal
  | hexadecimal (capital : Bool)
deriving DecidableEq, Repr

namespace NumeralBase

def radix : NumeralBase → Nat
  | decimal => 10
  | octal => 8
  | hexadecimal _ => 16

/-- What stands in front of the digits. -/
def front : NumeralBase → List Char
  | decimal => []
  | octal => ['0']
  | hexadecimal false => ['0', 'x']
  | hexadecimal true => ['0', 'X']

theorem radix_le (base : NumeralBase) : base.radix ≤ 16 := by
  unfold radix
  split
  all_goals decide

theorem toNat_ne_zero_of_mem_front {base : NumeralBase} {c : Char} (h : c ∈ base.front) :
    c.toNat ≠ 0 := by
  have hall : c = '0' ∨ c = 'x' ∨ c = 'X' := by
    cases base with
    | decimal => cases h
    | octal => exact .inl (List.mem_singleton.mp h)
    | hexadecimal capital => cases capital <;> simp [front] at h <;> tauto
  rcases hall with rfl | rfl | rfl <;> decide

end NumeralBase

/-- A number as it is written.  A decimal one does not start with a zero, which would make it
octal; the number 0 is octal without a digit behind its zero. -/
structure Written where
  base : NumeralBase
  digits : List Char
  allDigits : digits.all (isDigitOf base.radix) = true
  nonempty : base ≠ .octal → digits ≠ []
  noZero : base = .decimal → digits.head? ≠ some '0'

namespace Written

theorem isDigits (p : Written) : ∀ c ∈ p.digits, isDigitOf p.base.radix c = true :=
  List.all_eq_true.mp p.allDigits

def text (p : Written) : List Char := p.base.front ++ p.digits

def value (p : Written) : Nat :=
  p.digits.foldl (fun n c ↦ p.base.radix * n + (digitOf c).getD 0) 0

/-- The usual decimal text of a number. -/
def ofNat (n : Nat) : Written :=
  if hn : n = 0 then ⟨.octal, [], rfl, by simp, by simp⟩
  else ⟨.decimal, Nat.toDigits 10 n,
    List.all_eq_true.mpr fun _ hc ↦ isDigitOf_of_mem_toDigits (by decide) (by decide) hc,
    fun _ ↦ Nat.toDigits_ne_nil, fun _ ↦ head_toDigits_ne_zero (by decide) hn⟩

theorem ofNat_text (n : Nat) : (ofNat n).text = Nat.toDigits 10 n := by
  unfold ofNat
  split
  · rename_i hn
    rw [hn]
    rfl
  · rfl

theorem ofNat_value (n : Nat) : (ofNat n).value = n := by
  unfold ofNat
  split
  · rename_i hn
    rw [hn]
    rfl
  · exact foldl_toDigits (b := 10) (by decide) (by decide)

end Written

/-- What ends a numeral in any base. -/
def EndsNumeral (rest : List Char) : Prop :=
  ∀ c ∈ rest.head?, isDigitOf 16 c = false ∧ c ≠ 'x' ∧ c ≠ 'X'

section

variable {c : Char} {rest : List Char} {p : Written} {b : Nat}

theorem isDigitOf_mono {b' : Nat} (hb : b ≤ b') (h : isDigitOf b c = true) :
    isDigitOf b' c = true := by
  unfold isDigitOf at h ⊢
  cases hd : digitOf c with
  | none =>
    rw [hd] at h
    cases h
  | some d =>
    rw [hd, Option.any_some, decide_eq_true_iff] at h
    rw [Option.any_some, decide_eq_true_iff]
    omega

theorem EndsNumeral.not_digit (h : EndsNumeral rest) (hb : b ≤ 16) :
    ∀ c ∈ rest.head?, isDigitOf b c = false := by
  intro c hc
  refine Bool.eq_false_iff.mpr fun hdigit ↦ ?_
  have h16 := (h c hc).1
  rw [isDigitOf_mono hb hdigit] at h16
  cases h16

theorem ne_x_of_isDigit (hb : b ≤ 16) (h : isDigitOf b c = true) : c ≠ 'x' ∧ c ≠ 'X' := by
  have h16 := isDigitOf_mono hb h
  constructor
  all_goals
    rintro rfl
    cases h16

/-- Neither digits nor what ends a numeral start with an `x`. -/
theorem head_ne_x {digits : List Char} (hb : b ≤ 16)
    (hdigits : ∀ c ∈ digits, isDigitOf b c = true) (hrest : EndsNumeral rest) :
    ¬ ((digits ++ rest).head? = some 'x' ∨ (digits ++ rest).head? = some 'X') := by
  have hhead : ∀ c ∈ (digits ++ rest).head?, c ≠ 'x' ∧ c ≠ 'X' := by
    intro c hc
    cases digits with
    | nil => exact (hrest c hc).2
    | cons d digits =>
      cases hc
      exact ne_x_of_isDigit hb (hdigits c List.mem_cons_self)
  rintro (hx | hX)
  · exact (hhead _ hx).1 rfl
  · exact (hhead _ hX).2 rfl

theorem head_digits (hne : p.base ≠ .octal) (rest : List Char) :
    (p.digits ++ rest).head?.any (isDigitOf p.base.radix) = true := by
  have hdigits := p.isDigits
  cases hd : p.digits with
  | nil => exact (p.nonempty hne hd).elim
  | cons c digits =>
    rw [hd] at hdigits
    exact hdigits c List.mem_cons_self

/-- **A written number is read back**, whatever follows that cannot go on with it. -/
theorem strtoul_text (p : Written) (h : EndsNumeral rest) :
    strtoul (p.text ++ rest) = (p.value, rest) := by
  have hhead (hne : p.base ≠ .octal) := head_digits hne rest
  have hread := strtoulIn_digits p.isDigits (h.not_digit p.base.radix_le)
  have hdigits := p.isDigits
  obtain ⟨base, digits, _, hnonempty, hzero⟩ := p
  cases base with
  | decimal =>
    have hne : digits ≠ [] := hnonempty (by simp)
    have hfirst : (digits ++ rest).head? ≠ some '0' := by
      rw [List.head?_append_of_ne_nil _ hne]
      exact hzero rfl
    show strtoul (digits ++ rest) = _
    rw [strtoul, if_neg (fun hc ↦ hfirst hc.1), if_neg hfirst]
    exact hread
  | octal =>
    have hx := head_ne_x (b := 8) (by decide) hdigits h
    have hboth : ∀ c ∈ '0' :: digits, isDigitOf 8 c = true := by
      rintro c (_ | ⟨_, hc⟩)
      · rfl
      · exact hdigits c hc
    show strtoul ('0' :: (digits ++ rest)) = _
    rw [strtoul, if_neg ?_, if_pos List.head?_cons]
    · rw [← List.cons_append, strtoulIn_digits hboth (h.not_digit (by decide))]
      rfl
    · rintro ⟨-, hc, -⟩
      rw [List.head?_eq_getElem?] at hx
      exact hx hc
  | hexadecimal capital =>
    have hdigit : (digits ++ rest).head?.any (isDigitOf 16) = true := hhead (by simp)
    rw [List.head?_eq_getElem?] at hdigit
    cases capital with
    | false =>
      show strtoul ('0' :: 'x' :: (digits ++ rest)) = _
      rw [strtoul, if_pos ⟨rfl, .inl rfl, hdigit⟩]
      exact hread
    | true =>
      show strtoul ('0' :: 'X' :: (digits ++ rest)) = _
      rw [strtoul, if_pos ⟨rfl, .inr rfl, hdigit⟩]
      exact hread

theorem head_text (p : Written) (rest : List Char) :
    (p.text ++ rest).head?.any (isDigitOf 10) = true := by
  have hhead (hne : p.base ≠ .octal) := head_digits hne rest
  obtain ⟨base, digits, _, _, _⟩ := p
  cases base with
  | decimal => exact hhead (by simp)
  | octal => rfl
  | hexadecimal capital => cases capital <;> rfl

theorem toNat_ne_zero_of_digit (h : isDigitOf b c = true) : c.toNat ≠ 0 := by
  intro hzero
  have hc : c = Char.ofNat 0 := by rw [← hzero, Char.ofNat_toNat]
  rw [hc] at h
  cases h

theorem toNat_ne_zero_of_mem_text (h : c ∈ p.text) : c.toNat ≠ 0 := by
  rcases List.mem_append.mp h with hfront | hdigit
  · exact NumeralBase.toNat_ne_zero_of_mem_front hfront
  · exact toNat_ne_zero_of_digit (p.isDigits c hdigit)

end

end CNumeral
