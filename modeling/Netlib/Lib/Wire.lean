import Mathlib

/-!
# Byte streams

Readers that take values off the front of a byte stream and may fail, keeping what they have done so
far.  A codec pairs a reader with the encoding that it reads: it decodes every encoding, and whatever it
accepts is one.  Repeating a codec gives a codec for lists.
-/

namespace Wire

/-- The bytes left, and what the reader has built from those before. -/
structure Stream (σ : Type) where
  rest : List UInt8
  data : σ

/-- A reader that fails keeps its state. -/
abbrev Read (ε σ : Type) := EStateM ε (Stream σ)

variable {ε σ α β : Type}

theorem bind_ok {f : Read ε σ α} {g : α → Read ε σ β} {s s' : Stream σ} {a : α}
    (h : f s = .ok a s') : (f >>= g) s = g a s' := by
  show EStateM.bind f g s = _
  unfold EStateM.bind
  rw [h]

theorem bind_eq_ok {f : Read ε σ α} {g : α → Read ε σ β} {s s'' : Stream σ} {b : β}
    (h : (f >>= g) s = .ok b s'') : ∃ a s', f s = .ok a s' ∧ g a s' = .ok b s'' := by
  change EStateM.bind f g s = _ at h
  unfold EStateM.bind at h
  cases hf : f s with
  | ok a s' =>
    rw [hf] at h
    exact ⟨a, s', rfl, h⟩
  | error e s' =>
    rw [hf] at h
    cases h

/-- Read a number of times. -/
def times (f : Read ε σ α) : Nat → Read ε σ (List α)
  | 0 => pure []
  | n + 1 => do
    let a ← f
    let as ← times f n
    return a :: as

/-- The reader reads what `enc` writes of the values in `dom`, and nothing else. -/
structure Codec (f : Read ε σ α) (enc : α → List UInt8) (dom : α → Prop) : Prop where
  decode : ∀ a, dom a → ∀ rest data, f ⟨enc a ++ rest, data⟩ = .ok a ⟨rest, data⟩
  encode : ∀ s a s', f s = .ok a s' → dom a ∧ s.rest = enc a ++ s'.rest ∧ s'.data = s.data

theorem Codec.times {f : Read ε σ α} {enc : α → List UInt8} {dom : α → Prop} (h : Codec f enc dom)
    (n : Nat) : Codec (times f n) (·.flatMap enc) fun as ↦ as.length = n ∧ ∀ a ∈ as, dom a := by
  induction n with
  | zero =>
    constructor
    · rintro as ⟨hlen, -⟩ rest data
      rw [List.length_eq_zero_iff.mp hlen]
      rfl
    · intro s as s' hs
      cases hs
      simp
  | succ n ih =>
    constructor
    · rintro as ⟨hlen, hdom⟩ rest data
      cases as with
      | nil => cases hlen
      | cons a as =>
        have ha := h.decode a (hdom a List.mem_cons_self) (as.flatMap enc ++ rest) data
        have has := ih.decode as ⟨Nat.succ.inj hlen, fun b hb ↦ hdom b (List.mem_cons_of_mem a hb)⟩
          rest data
        show (f >>= _) _ = _
        rw [List.flatMap_cons, List.append_assoc, bind_ok ha, bind_ok has]
        rfl
    · intro s as s'' hs
      obtain ⟨a, s₁, ha, hs⟩ := bind_eq_ok hs
      obtain ⟨bs, s₂, hbs, hs⟩ := bind_eq_ok hs
      cases hs
      obtain ⟨hdom, hrest, hdata⟩ := h.encode s a s₁ ha
      obtain ⟨⟨hlen, hdoms⟩, hrest', hdata'⟩ := ih.encode s₁ bs s'' hbs
      refine ⟨⟨?_, ?_⟩, ?_, ?_⟩
      · rw [List.length_cons, hlen]
      · intro b hb
        rcases List.mem_cons.mp hb with rfl | hb
        · exact hdom
        · exact hdoms b hb
      · rw [List.flatMap_cons, List.append_assoc, ← hrest', hrest]
      · rw [hdata', hdata]

/-! ## Big-endian words -/

def be32 (x : Int32) : List UInt8 :=
  let n := x.toUInt32.toNat
  [UInt8.ofNat (n / 16777216), UInt8.ofNat (n / 65536), UInt8.ofNat (n / 256), UInt8.ofNat n]

def ofBe32 (a b c d : UInt8) : Int32 :=
  (UInt32.ofNat (a.toNat * 16777216 + b.toNat * 65536 + c.toNat * 256 + d.toNat)).toInt32

theorem be32_ofBe32 (a b c d : UInt8) : be32 (ofBe32 a b c d) = [a, b, c, d] := by
  have ha := a.toNat_lt
  have hb := b.toNat_lt
  have hc := c.toNat_lt
  have hd := d.toNat_lt
  unfold be32 ofBe32
  simp only [UInt32.toUInt32_toInt32, UInt32.toNat_ofNat', List.cons.injEq, and_true]
  refine ⟨?_, ?_, ?_, ?_⟩ <;> apply UInt8.toNat_inj.mp <;> rw [UInt8.toNat_ofNat'] <;> omega

theorem exists_be32 (x : Int32) : ∃ a b c d, be32 x = [a, b, c, d] ∧ ofBe32 a b c d = x := by
  refine ⟨_, _, _, _, rfl, ?_⟩
  have hx := x.toUInt32.toNat_lt
  have hn : x.toUInt32.toNat / 16777216 % 2 ^ 8 * 16777216 + x.toUInt32.toNat / 65536 % 2 ^ 8 * 65536 +
      x.toUInt32.toNat / 256 % 2 ^ 8 * 256 + x.toUInt32.toNat % 2 ^ 8 = x.toUInt32.toNat := by
    omega
  unfold ofBe32
  simp only [UInt8.toNat_ofNat', hn, UInt32.ofNat_toNat]
  exact Int32.toInt32_toUInt32 x

end Wire
