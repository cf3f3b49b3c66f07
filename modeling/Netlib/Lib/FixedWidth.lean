import Netlib.Lib.Numeral

/-!
# Texts of a fixed width

Numbers that are written in the same number of letters are ordered as their texts are, letter by
letter.  A `Field` is a text for each value of an ordered type, of one width and in the order of the
values; fields are put together from padded numerals, separators and other fields.
-/

namespace FixedWidth

variable {α ι κ : Type*}

/-- Texts that differ in front of what is appended. -/
theorem append_lt_append [LT α] {x y : List α} (hlen : x.length = y.length) (h : x < y) (s t : List α) :
    x ++ s < y ++ t := by
  induction x generalizing y with
  | nil =>
    rw [List.length_nil, eq_comm, List.length_eq_zero_iff] at hlen
    subst hlen
    exact absurd h (List.not_lt_nil _)
  | cons a x ih =>
    cases y with
    | nil => exact absurd h (List.not_lt_nil _)
    | cons b y =>
      rw [List.cons_append, List.cons_append, List.cons_lt_cons_iff]
      rcases List.cons_lt_cons_iff.mp h with hab | ⟨hab, hxy⟩
      · exact Or.inl hab
      · exact Or.inr ⟨hab, ih (Nat.succ.inj hlen) hxy⟩

/-- Every value of the domain has a text of one width, and a smaller value a smaller text. -/
structure Field [LT α] [LT ι] (domain : Set ι) (width : Nat) (text : ι → List α) : Prop where
  length : ∀ i ∈ domain, (text i).length = width
  lt : ∀ i ∈ domain, ∀ j ∈ domain, i < j → text i < text j

namespace Field

/-! ## 1. Reading the order back -/

section

variable [LT α] [LinearOrder ι] {domain : Set ι} {width : Nat} {text : ι → List α}

theorem lt_iff [Std.Asymm (· < · : α → α → Prop)] (h : Field domain width text) {i j : ι}
    (hi : i ∈ domain) (hj : j ∈ domain) : text i < text j ↔ i < j := by
  refine ⟨fun hlt ↦ ?_, h.lt i hi j hj⟩
  rcases lt_trichotomy i j with hij | rfl | hji
  · exact hij
  · exact (List.lt_irrefl _ hlt).elim
  · exact (List.lt_asymm hlt (h.lt j hj i hi hji)).elim

theorem eq_iff [Std.Irrefl (· < · : α → α → Prop)] (h : Field domain width text) {i j : ι}
    (hi : i ∈ domain) (hj : j ∈ domain) : text i = text j ↔ i = j := by
  refine ⟨fun heq ↦ ?_, congrArg text⟩
  rcases lt_trichotomy i j with hij | hij | hji
  · have hlt := h.lt i hi j hj hij
    rw [heq] at hlt
    exact (List.lt_irrefl _ hlt).elim
  · exact hij
  · have hlt := h.lt j hj i hi hji
    rw [heq] at hlt
    exact (List.lt_irrefl _ hlt).elim

end

/-! ## 2. Putting fields together -/

section

variable [LT α] [LT ι] {domain : Set ι} {width : Nat} {text : ι → List α}

/-- A field with a separator behind it. -/
theorem append (h : Field domain width text) (separator : List α) :
    Field domain (width + separator.length) fun i ↦ text i ++ separator where
  length i hi := by rw [List.length_append, h.length i hi]
  lt i hi j hj hij :=
    append_lt_append ((h.length i hi).trans (h.length j hj).symm) (h.lt i hi j hj hij) _ _

/-- A field with a fixed text in front of it. -/
theorem prepend (h : Field domain width text) (front : List α) :
    Field domain (front.length + width) fun i ↦ front ++ text i where
  length i hi := by rw [List.length_append, h.length i hi]
  lt i hi j hj hij := List.append_left_lt (h.lt i hi j hj hij)

theorem mono (h : Field domain width text) {subdomain : Set ι} (hsub : subdomain ⊆ domain) :
    Field subdomain width text where
  length i hi := h.length i (hsub hi)
  lt i hi j hj := h.lt i (hsub hi) j (hsub hj)

theorem congr (h : Field domain width text) {text' : ι → List α}
    (heq : ∀ i ∈ domain, text' i = text i) : Field domain width text' where
  length i hi := by rw [heq i hi, h.length i hi]
  lt i hi j hj hij := by
    rw [heq i hi, heq j hj]
    exact h.lt i hi j hj hij

/-- The values may be read off others in the same order. -/
theorem comp [LT κ] (h : Field domain width text) (value : κ → ι) {subdomain : Set κ}
    (hmaps : ∀ k ∈ subdomain, value k ∈ domain)
    (hlt : ∀ k ∈ subdomain, ∀ l ∈ subdomain, k < l → value k < value l) :
    Field subdomain width fun k ↦ text (value k) where
  length k hk := h.length _ (hmaps k hk)
  lt k hk l hl hkl := h.lt _ (hmaps k hk) _ (hmaps l hl) (hlt k hk l hl hkl)

/-- A text that the first of two values decides when they differ there, and the second otherwise. -/
theorem lex {η : Type*} [LT κ] [LT η] (h : Field domain width text) {domain' : Set κ} {width' : Nat}
    {text' : κ → List α} (h' : Field domain' width' text') (first : η → ι) (second : η → κ)
    {values : Set η} (hfirst : ∀ x ∈ values, first x ∈ domain)
    (hsecond : ∀ x ∈ values, second x ∈ domain')
    (hlt : ∀ x ∈ values, ∀ y ∈ values, x < y →
      first x < first y ∨ first x = first y ∧ second x < second y) :
    Field values (width + width') fun x ↦ text (first x) ++ text' (second x) where
  length x hx := by
    rw [List.length_append, h.length _ (hfirst x hx), h'.length _ (hsecond x hx)]
  lt x hx y hy hxy := by
    rcases hlt x hx y hy hxy with hltFirst | ⟨heq, hltSecond⟩
    · exact append_lt_append
        ((h.length _ (hfirst x hx)).trans (h.length _ (hfirst y hy)).symm)
        (h.lt _ (hfirst x hx) _ (hfirst y hy) hltFirst) _ _
    · rw [heq]
      exact List.append_left_lt (h'.lt _ (hsecond x hx) _ (hsecond y hy) hltSecond)

end

/-- Quotient and remainder, one behind the other. -/
theorem divMod [LT α] {domain : Set Int} {width width' : Nat} {text text' : Int → List α}
    (h : Field domain width text) {m : Int} (hm : 0 < m)
    (h' : Field {r : Int | 0 ≤ r ∧ r < m} width' text') :
    Field {n : Int | n / m ∈ domain} (width + width') fun n ↦ text (n / m) ++ text' (n % m) := by
  refine h.lex h' (· / m) (· % m) (fun n hn ↦ hn) (fun n _ ↦ ⟨Int.emod_nonneg n hm.ne', Int.emod_lt_of_pos n hm⟩)
    fun n _ k _ hlt ↦ ?_
  have hle : n / m ≤ k / m := Int.ediv_le_ediv hm hlt.le
  rcases hle.lt_or_eq with hdiv | hdiv
  · exact Or.inl hdiv
  · refine Or.inr ⟨hdiv, ?_⟩
    have hn := Int.emod_add_mul_ediv n m
    have hk := Int.emod_add_mul_ediv k m
    rw [hdiv] at hn
    omega

end Field

/-! ## 3. Padded numerals -/

section

variable {alphabet : List α} {pad : α}

/-- The numeral of a number, with padding in front. -/
def padded (alphabet : List α) (pad : α) (width n : Nat) : List α :=
  (Numeral.write alphabet n).leftpad width pad

theorem padded_length (pad : α) (hb : 1 < alphabet.length) {width n : Nat} (hw : 0 < width)
    (hn : n < alphabet.length ^ width) : (padded alphabet pad width n).length = width := by
  have hlen := Numeral.write_length_le hb hw hn
  rw [padded, List.leftpad, List.length_append, List.length_replicate]
  omega

theorem padded_of_lt {width n : Nat} (h : n < alphabet.length) :
    padded alphabet pad (width + 1) n = List.replicate width pad ++ [alphabet[n]] := by
  rw [padded, Numeral.write_of_lt h, List.leftpad, List.length_singleton, Nat.add_sub_cancel]

theorem padded_of_le (hb : 1 < alphabet.length) {width n : Nat} (h : alphabet.length ≤ n)
    (hlast : n % alphabet.length < alphabet.length) :
    padded alphabet pad (width + 1) n =
      padded alphabet pad width (n / alphabet.length) ++ [alphabet[n % alphabet.length]] := by
  rw [padded, padded, Numeral.write_of_le hb h hlast, List.leftpad, List.leftpad,
    List.length_append, List.length_singleton, Nat.add_sub_add_right, List.append_assoc]

/-- Zeros in front of a numeral do not count. -/
theorem read_padded [BEq α] [LawfulBEq α] (hb : 1 < alphabet.length) (hnodup : alphabet.Nodup)
    (hpad : alphabet.head? = some pad) (width n : Nat) :
    Numeral.read alphabet (padded alphabet pad width n) = some n := by
  have hzero : alphabet.idxOf? pad = some 0 := by
    cases alphabet with
    | nil => exact absurd hb (by simp)
    | cons a tail =>
      cases hpad
      simp [List.idxOf?_cons]
  have hzeros (k : Nat) : (List.replicate k pad).mapM alphabet.idxOf? = some (List.replicate k 0) := by
    induction k with
    | zero => rfl
    | succ k ih =>
      rw [List.replicate_succ, List.mapM_cons, hzero, ih]
      rfl
  have hread := Numeral.read_write (n := n) hb hnodup
  unfold Numeral.read at hread ⊢
  obtain ⟨ds, hds, hval⟩ := Option.map_eq_some_iff.mp hread
  rw [padded, List.leftpad, List.mapM_append, hzeros, hds]
  show some (Nat.ofDigits alphabet.length (List.replicate _ 0 ++ ds).reverse) = some n
  rw [List.reverse_append, Nat.ofDigits_append, List.reverse_replicate, Nat.ofDigits_replicate_zero,
    hval, Nat.mul_zero, Nat.add_zero]

/-- A numeral is larger than padding alone. -/
theorem replicate_lt_padded [LT α] (hb : 1 < alphabet.length) (hnodup : alphabet.Nodup)
    (hpad : ∀ c ∈ alphabet.tail, pad < c) {width n : Nat} (hpos : 0 < n)
    (hn : n < alphabet.length ^ width) :
    List.replicate width pad < padded alphabet pad width n := by
  have hw : 0 < width := by
    refine Nat.pos_of_ne_zero fun hzero ↦ ?_
    rw [hzero, Nat.pow_zero] at hn
    omega
  have hlen := Numeral.write_length_le hb hw hn
  obtain ⟨c, rest, hcons⟩ := List.exists_cons_of_ne_nil (Numeral.write_ne_nil (n := n) hb)
  -- the leading letter is not the first of the alphabet
  have hlead := Numeral.head_write_ne hb hnodup (n := n) (by omega)
  have hmem : c ∈ alphabet := Numeral.mem_of_mem_write (n := n) (hcons ▸ List.mem_cons_self)
  have hc : c ∈ alphabet.tail := by
    cases alphabet with
    | nil => exact absurd hb (by simp)
    | cons a tail =>
      rw [hcons, List.head?_cons, List.head?_cons] at hlead
      rcases List.mem_cons.mp hmem with rfl | htail
      · exact (hlead rfl).elim
      · exact htail
  rw [hcons, List.length_cons] at hlen
  have hsplit : List.replicate width pad =
      List.replicate (width - (rest.length + 1)) pad ++ pad :: List.replicate rest.length pad := by
    rw [← List.replicate_succ, List.replicate_append_replicate]
    congr 1
    omega
  rw [padded, List.leftpad, hcons, List.length_cons, hsplit]
  exact List.append_left_lt (List.cons_lt_cons_iff.mpr (Or.inl (hpad c hc)))

/-- Numerals padded with a letter below all digits but the zero are in the order of their numbers. -/
theorem padded_lt [LT α] (hb : 1 < alphabet.length) (hsorted : alphabet.Pairwise (· < ·))
    (hnodup : alphabet.Nodup) (hpad : ∀ c ∈ alphabet.tail, pad < c) {width m n : Nat}
    (hn : n < alphabet.length ^ width) (hmn : m < n) :
    padded alphabet pad width m < padded alphabet pad width n := by
  have hbase : 0 < alphabet.length := by omega
  have hdigit {i j : Nat} (hi : i < alphabet.length) (hj : j < alphabet.length) (hij : i < j) :
      alphabet[i] < alphabet[j] :=
    List.pairwise_iff_getElem.mp hsorted i j hi hj hij
  have hmod (k : Nat) : k % alphabet.length < alphabet.length := Nat.mod_lt k hbase
  -- the last letter decides between numbers with the same letters in front of it
  induction width generalizing m n with
  | zero =>
    rw [Nat.pow_zero] at hn
    omega
  | succ width ih =>
    rcases Nat.lt_or_ge n alphabet.length with hsmall | hlarge
    · rw [padded_of_lt (hmn.trans hsmall), padded_of_lt hsmall]
      exact List.append_left_lt (List.cons_lt_cons_iff.mpr (Or.inl (hdigit _ _ hmn)))
    · have hquot : n / alphabet.length < alphabet.length ^ width := by
        rw [Nat.div_lt_iff_lt_mul hbase, ← Nat.pow_succ]
        exact hn
      have hpos : 0 < n / alphabet.length := Nat.div_pos hlarge hbase
      have hwidth : 0 < width := by
        refine Nat.pos_of_ne_zero fun hzero ↦ ?_
        rw [hzero, Nat.pow_zero] at hquot
        omega
      have hlen := padded_length pad hb hwidth hquot
      rw [padded_of_le hb hlarge (hmod n)]
      rcases Nat.lt_or_ge m alphabet.length with hm | hm
      · rw [padded_of_lt hm]
        exact append_lt_append (List.length_replicate.trans hlen.symm)
          (replicate_lt_padded hb hnodup hpad hpos hquot) _ _
      · rw [padded_of_le hb hm (hmod m)]
        rcases (Nat.div_le_div_right (c := alphabet.length) hmn.le).lt_or_eq with hdiv | hdiv
        · exact append_lt_append
            ((padded_length pad hb hwidth (hdiv.trans hquot)).trans hlen.symm) (ih hquot hdiv) _ _
        · have hrest : m % alphabet.length < n % alphabet.length := by
            have hm' := Nat.mod_add_div m alphabet.length
            have hn' := Nat.mod_add_div n alphabet.length
            rw [hdiv] at hm'
            omega
          rw [hdiv]
          exact List.append_left_lt (List.cons_lt_cons_iff.mpr (Or.inl (hdigit _ _ hrest)))

/-- The numerals below a power of the base. -/
theorem padded_field [LT α] (hb : 1 < alphabet.length) (hsorted : alphabet.Pairwise (· < ·))
    (hnodup : alphabet.Nodup) (hpad : ∀ c ∈ alphabet.tail, pad < c) (width : Nat)
    (hwidth : 0 < width) :
    Field {n : Nat | n < alphabet.length ^ width} width (padded alphabet pad width) where
  length _ hn := padded_length pad hb hwidth hn
  lt _ _ _ hn hmn := padded_lt hb hsorted hnodup hpad hn hmn

end

end FixedWidth
