import Netlib.Lib.Numeral
import Netlib.Lib.Storage

/-!
# `convert` and `convertHex`

Integers and pointers as text (`base/LogStream.cc`).  The digits are stored from the least significant
one on and reversed in place; a store outside the array has no result.  Quotient and remainder
by 10 or 16 are truncated towards 0 and never leave the type `T` of `convert`, so its loop runs on the
value.
-/

namespace Netlib

open Storage

def ascii (s : String) : List UInt8 := s.toList.map Char.toUInt8

def digits : List UInt8 := ascii "9876543210123456789"

def digitsHex : List UInt8 := ascii "0123456789ABCDEF"

/-- `zero[lsd]`, where `zero` points to the middle of `digits`. -/
def zero (lsd : Int) : Option UInt8 := if 0 ≤ 9 + lsd then digits[(9 + lsd).toNat]? else none

/-- `digitsHex[lsd]`. -/
def letterHex (lsd : Int) : Option UInt8 := if 0 ≤ lsd then digitsHex[lsd.toNat]? else none

/-- The `do` loop: digits from `i` are stored from offset `p` on, until nothing is left of `i`.  The
result has the offset behind the last one. -/
def storeDigits (table : Int → Option UInt8) {base : Nat} (hbase : 1 < base) (mem : List UInt8)
    (p : Nat) (i : Int) : Option (List UInt8 × Nat) :=
  (table (i.tmod base)).bind fun c ↦ (overwrite mem p [c]).bind fun mem ↦
    if i.tdiv base = 0 then some (mem, p + 1)
    else storeDigits table hbase mem (p + 1) (i.tdiv base)
termination_by i.natAbs
decreasing_by
  rename_i hrest
  rw [Int.natAbs_tdiv, Int.natAbs_natCast]
  refine Nat.div_lt_self (Nat.pos_of_ne_zero fun hzero ↦ hrest ?_) hbase
  rw [Int.natAbs_eq_zero.mp hzero, Int.zero_tdiv]

/-- `std::reverse(buf, p)`. -/
def reverseRange (mem : List UInt8) (buf p : Nat) : List UInt8 :=
  mem.take buf ++ (window mem buf p).reverse ++ mem.drop p

def convert (mem : List UInt8) (buf : Nat) (v : Int) : Option (List UInt8 × Nat) := do
  let (mem, p) ← storeDigits zero (show 1 < 10 by decide) mem buf v
  let (mem, p) ← if v < 0 then (overwrite mem p (ascii "-")).map (·, p + 1) else some (mem, p)
  let mem ← overwrite mem p [0]
  return (reverseRange mem buf p, p - buf)

def convertHex (mem : List UInt8) (buf : Nat) (value : UInt64) : Option (List UInt8 × Nat) := do
  let (mem, p) ← storeDigits letterHex (show 1 < 16 by decide) mem buf value.toNat
  let mem ← overwrite mem p [0]
  return (reverseRange mem buf p, p - buf)

/-- The integers that can be streamed, by their types. -/
inductive Integer where
  | short (v : Int16)
  | ushort (v : UInt16)
  | int (v : Int32)
  | uint (v : UInt32)
  | long (v : Int64)
  | ulong (v : UInt64)
  | longlong (v : Int64)
  | ulonglong (v : UInt64)
deriving DecidableEq

namespace Integer

def value : Integer → Int
  | short v => v.toInt
  | ushort v => v.toNat
  | int v => v.toInt
  | uint v => v.toNat
  | long v | longlong v => v.toInt
  | ulong v | ulonglong v => v.toNat

/-- The argument of `convert`: the two short types are cast first. -/
def promoted : Integer → Int
  | short v => v.toInt32.toInt
  | ushort v => v.toUInt32.toNat
  | v => v.value

end Integer

/-! ## 1. The texts -/

def decimalDigits : List UInt8 := ascii "0123456789"

def decimal (v : Int) : List UInt8 :=
  (if v < 0 then ascii "-" else []) ++ Numeral.write decimalDigits v.natAbs

def hexadecimal (n : Nat) : List UInt8 := Numeral.write digitsHex n

def readDecimal : List UInt8 → Option Int
  | 45 :: text => (Numeral.read decimalDigits text).map fun n : Nat ↦ -(n : Int)
  | text => (Numeral.read decimalDigits text).map fun n : Nat ↦ (n : Int)

/-- The canonical decimal text of a value: a minus sign exactly for a negative one, a numeral of its
amount, and read back as the value. -/
structure IsDecimal (v : Int) (text : List UInt8) : Prop where
  sign : text.head? = some 45 ↔ v < 0
  numeral : ∃ amount, text = (if v < 0 then ascii "-" else []) ++ amount ∧
    Numeral.IsNumeral decimalDigits v.natAbs amount
  read_eq : readDecimal text = some v

theorem decimalDigits_length : decimalDigits.length = 10 := by decide

theorem digitsHex_length : digitsHex.length = 16 := by decide

theorem decimalDigits_nodup : decimalDigits.Nodup := by decide

theorem digitsHex_nodup : digitsHex.Nodup := by decide

theorem zero_neg : ∀ d < 10, zero (-1 * (d : Nat)) = decimalDigits[d]? := by decide

theorem zero_natCast : ∀ d < 10, zero (1 * (d : Nat)) = decimalDigits[d]? := by decide

theorem letterHex_natCast : ∀ d < 16, letterHex (1 * (d : Nat)) = digitsHex[d]? := by decide

theorem minus_not_mem : (45 : UInt8) ∉ decimalDigits := by decide

theorem hexadecimal_isNumeral (n : Nat) : Numeral.IsNumeral digitsHex n (hexadecimal n) :=
  Numeral.write_isNumeral (by decide) digitsHex_nodup

theorem decimal_isDecimal (v : Int) : IsDecimal v (decimal v) := by
  have hnum : Numeral.IsNumeral decimalDigits v.natAbs (Numeral.write decimalDigits v.natAbs) :=
    Numeral.write_isNumeral (by decide) decimalDigits_nodup
  obtain ⟨c, rest, hcons⟩ := List.exists_cons_of_ne_nil hnum.ne_nil
  -- what starts with a digit does not start with the sign
  have hc : c ≠ 45 := by
    rintro rfl
    exact minus_not_mem (hnum.letters _ (by rw [hcons]; exact List.mem_cons_self))
  have hread := hnum.read_eq
  by_cases hneg : v < 0
  · have hdec : decimal v = 45 :: Numeral.write decimalDigits v.natAbs := by
      unfold decimal
      rw [if_pos hneg]
      rfl
    refine ⟨?_, ⟨_, rfl, hnum⟩, ?_⟩
    · rw [hdec]
      simp [hneg]
    · rw [hdec, readDecimal, hread, Option.map_some]
      congr 1
      omega
  · have hdec : decimal v = c :: rest := by
      unfold decimal
      rw [if_neg hneg, List.nil_append, hcons]
    refine ⟨?_, ⟨_, rfl, hnum⟩, ?_⟩
    · rw [hdec]
      simp [hneg, hc]
    · rw [hdec, readDecimal, ← hcons, hread, Option.map_some]
      · congr 1
        omega
      · intro text heq
        exact hc (List.cons.inj heq).1

/-! ## 2. What is stored -/

/-- The loop stores a numeral from its last letter on, whatever the sign that all remainders have. -/
theorem storeDigits_eq {table : Int → Option UInt8} {alphabet : List UInt8} {base : Nat}
    (hlen : alphabet.length = base) (hbase : 1 < base) {σ : Int} (hsign : σ = 1 ∨ σ = -1)
    (htable : ∀ d < base, table (σ * d) = alphabet[d]?) (mem : List UInt8) (p n : Nat) :
    storeDigits table hbase mem p (σ * n) =
      (overwrite mem p (Numeral.write alphabet n).reverse).map
        (·, p + (Numeral.write alphabet n).length) := by
  subst hlen
  -- the loop goes on with the quotient, one place further
  induction n using Nat.strong_induction_on generalizing mem p with
  | _ n ih =>
    have hmod : (σ * n).tmod alphabet.length = σ * (n % alphabet.length : Nat) := by
      rcases hsign with rfl | rfl
      · simp only [Int.one_mul, Int.ofNat_tmod]
      · simp only [Int.neg_mul, Int.one_mul, Int.neg_tmod, Int.ofNat_tmod]
    have hdiv : (σ * n).tdiv alphabet.length = σ * (n / alphabet.length : Nat) := by
      rcases hsign with rfl | rfl
      · simp only [Int.one_mul, Int.ofNat_tdiv]
      · simp only [Int.neg_mul, Int.one_mul, Int.neg_tdiv, Int.ofNat_tdiv]
    have hlt : n % alphabet.length < alphabet.length := Nat.mod_lt n (by omega)
    rw [storeDigits, hmod, htable _ hlt, List.getElem?_eq_getElem hlt, Option.bind_some, hdiv]
    rcases Nat.lt_or_ge n alphabet.length with h | h
    · simp only [Nat.mod_eq_of_lt h, Nat.div_eq_of_lt h, Int.natCast_zero, Int.mul_zero, if_true,
        Numeral.write_of_lt h, List.reverse_singleton, List.length_singleton]
      cases overwrite mem p [alphabet[n]] <;> rfl
    · have hpos : 0 < n / alphabet.length := Nat.div_pos h (by omega)
      have hne : σ * (n / alphabet.length : Nat) ≠ 0 := by
        rcases hsign with rfl | rfl <;> omega
      simp only [hne, if_false, ih _ (Nat.div_lt_self (by omega) hbase)]
      rw [Numeral.write_of_le hbase h hlt, List.reverse_append, List.reverse_singleton,
        ← overwrite_append, Option.map_bind, List.length_append, List.length_singleton]
      congr 1
      funext mem
      simp only [Function.comp_apply, Nat.add_assoc, Nat.add_comm 1]

theorem reverseRange_append (before text after : List UInt8) :
    reverseRange (before ++ text.reverse ++ after) before.length (before.length + text.length) =
      before ++ text ++ after := by
  have hlen : (before ++ text.reverse).length = before.length + text.length := by
    rw [List.length_append, List.length_reverse]
  unfold reverseRange window
  rw [Nat.add_sub_cancel_left, List.drop_left' hlen, List.append_assoc before text.reverse after,
    List.take_left' rfl, List.drop_left' rfl, List.take_left' List.length_reverse,
    List.reverse_reverse]

/-- A text that was stored from its last letter on, ended with a NUL and reversed. -/
theorem reverse_stored (mem text : List UInt8) (buf : Nat) :
    ((overwrite mem buf text.reverse).bind fun mem ↦
      (overwrite mem (buf + text.length : Nat) [0]).bind fun mem ↦
        some (reverseRange mem buf (buf + text.length), buf + text.length - buf)) =
      (overwrite mem buf (text ++ [0])).map (·, text.length) := by
  have hstored := overwrite_append mem text.reverse [0] buf
  rw [List.length_reverse] at hstored
  rw [← Option.bind_assoc, hstored, Nat.add_sub_cancel_left]
  by_cases h : buf + (text.length + 1) ≤ mem.length
  · have hbuf : (mem.take buf).length = buf := by
      rw [List.length_take]
      omega
    have hrev := reverseRange_append (mem.take buf) text ([0] ++ mem.drop (buf + (text.length + 1)))
    rw [hbuf] at hrev
    rw [overwrite_natCast _ _ _ (by simpa using h), overwrite_natCast _ _ _ (by simpa using h)]
    simp only [List.length_append, List.length_reverse, List.length_singleton, Option.map_some,
      ← List.append_assoc] at hrev ⊢
    rw [Option.bind_some, hrev]
  · rw [overwrite_eq_none (by simp only [List.length_append, List.length_reverse,
        List.length_singleton]; omega),
      overwrite_eq_none (by simp only [List.length_append, List.length_singleton]; omega)]
    rfl

/-- `convert` stores the canonical text and a NUL, and returns the length of the text. -/
theorem convert_eq (mem : List UInt8) (buf : Nat) (v : Int) :
    convert mem buf v =
      (overwrite mem buf (decimal v ++ [0])).map (·, (decimal v).length) := by
  rw [← reverse_stored]
  by_cases hneg : v < 0
  -- all remainders are negative, and index the left half of the table
  · have hv : v = -1 * (v.natAbs : Int) := by omega
    have hdigits := storeDigits_eq decimalDigits_length (by decide) (Or.inr rfl) zero_neg mem buf
      v.natAbs
    have hdec : decimal v = ascii "-" ++ Numeral.write decimalDigits v.natAbs := by
      unfold decimal
      rw [if_pos hneg]
    rw [← hv] at hdigits
    -- the sign goes behind the digits
    rw [hdec, List.reverse_append, ← overwrite_append, List.length_append, List.length_reverse]
    have hlen : buf + ((ascii "-").length + (Numeral.write decimalDigits v.natAbs).length) =
        buf + (Numeral.write decimalDigits v.natAbs).length + 1 := by
      rw [show (ascii "-").length = 1 from rfl]
      omega
    unfold convert
    simp only [hdigits, hneg, hlen, if_true, Option.bind_eq_bind, Option.bind_map,
      Option.bind_assoc, Function.comp_def, Option.pure_def]
    rfl
  · have hv : v = 1 * (v.natAbs : Int) := by omega
    have hdigits := storeDigits_eq decimalDigits_length (by decide) (Or.inl rfl) zero_natCast mem
      buf v.natAbs
    have hdec : decimal v = Numeral.write decimalDigits v.natAbs := by
      unfold decimal
      rw [if_neg hneg, List.nil_append]
    rw [← hv] at hdigits
    rw [hdec]
    unfold convert
    simp only [hdigits, hneg, if_false, Option.bind_eq_bind, Option.bind_some, Option.bind_map,
      Function.comp_def, Option.pure_def]

theorem convertHex_eq (mem : List UInt8) (buf : Nat) (value : UInt64) :
    convertHex mem buf value =
      (overwrite mem buf (hexadecimal value.toNat ++ [0])).map
        (·, (hexadecimal value.toNat).length) := by
  have hdigits := storeDigits_eq digitsHex_length (by decide) (Or.inl rfl) letterHex_natCast mem buf
    value.toNat
  rw [Int.one_mul] at hdigits
  rw [← reverse_stored]
  unfold convertHex hexadecimal
  simp only [hdigits, Option.bind_eq_bind, Option.bind_map, Function.comp_def, Option.pure_def]

/-- Casting the short types keeps the value. -/
theorem Integer.promoted_eq (v : Integer) : v.promoted = v.value := by
  cases v with
  | short v => exact Int16.toInt_toInt32 v
  | ushort v => exact congrArg Nat.cast (UInt16.toNat_toUInt32 v)
  | int | uint | long | ulong | longlong | ulonglong => rfl

/-- **Integers and pointers as text.**  For each value of each integer type `convert` stores the
canonical decimal text of the value with a NUL behind it and returns the length of the text, and for
each pointer `convertHex` does so in hexadecimal. -/
theorem formatted_canonical (mem : List UInt8) (buf : Nat) :
    (∀ v : Integer, IsDecimal v.value (decimal v.value) ∧
      convert mem buf v.promoted =
        (overwrite mem buf (decimal v.value ++ [0])).map (·, (decimal v.value).length)) ∧
    ∀ p : UInt64, Numeral.IsNumeral digitsHex p.toNat (hexadecimal p.toNat) ∧
      convertHex mem buf p =
        (overwrite mem buf (hexadecimal p.toNat ++ [0])).map (·, (hexadecimal p.toNat).length) := by
  constructor
  · intro v
    rw [v.promoted_eq]
    exact ⟨decimal_isDecimal v.value, convert_eq mem buf v.value⟩
  · intro p
    exact ⟨hexadecimal_isNumeral p.toNat, convertHex_eq mem buf p⟩

/-! ## 3. How long the texts are -/

theorem Integer.value_bounds (v : Integer) : -2 ^ 63 ≤ v.value ∧ v.value < 2 ^ 64 := by
  cases v with
  | short v | int v | long v | longlong v =>
    have hlo := v.le_toInt
    have hhi := v.toInt_lt
    simp only [value]
    omega
  | ushort v | uint v | ulong v | ulonglong v =>
    have hhi := v.toNat_lt
    simp only [value]
    omega

/-- A sign and 19 digits, or 20 digits. -/
theorem decimal_length_le {v : Int} (hlo : -2 ^ 63 ≤ v) (hhi : v < 2 ^ 64) :
    (decimal v).length ≤ 20 := by
  unfold decimal
  rw [List.length_append]
  split
  · have hlen : (Numeral.write decimalDigits v.natAbs).length ≤ 19 :=
      Numeral.write_length_le (by decide) (by decide) (by rw [decimalDigits_length]; omega)
    rw [show (ascii "-").length = 1 from rfl]
    omega
  · have hlen : (Numeral.write decimalDigits v.natAbs).length ≤ 20 :=
      Numeral.write_length_le (by decide) (by decide) (by rw [decimalDigits_length]; omega)
    rw [List.length_nil]
    omega

theorem hexadecimal_length_le (p : UInt64) : (hexadecimal p.toNat).length ≤ 16 :=
  Numeral.write_length_le (by decide) (by decide)
    (lt_of_lt_of_eq p.toNat_lt (by rw [digitsHex_length]; rfl))

example : convert (List.replicate 8 35) 2 (-105) = some (ascii "##-105" ++ [0, 35], 4) := by
  rw [convert_eq]
  decide

end Netlib
