import Netlib.Lib.CNumeral
import Netlib.Net.SockAddr

/-!
# `netlib::SockAddr` from text

The constructor that takes the text of an address (`net/SockAddr.cc`, `fromIp` of
`net/SockFunc.cc`), with `inet_aton` of the C library: up to four numerals of C with dots between
them, the last one for all the bytes that are left, and nothing but white space behind it.  What
`inet_aton` refuses leaves the address at `0.0.0.0`, as the constructor has cleared it.
-/

namespace Netlib

open CNumeral

/-! ## 1. The code -/

/-- `isspace` of an ASCII character. -/
def isSpace (c : Char) : Bool := c.toNat = 32 ∨ 9 ≤ c.toNat ∧ c.toNat ≤ 13

/-- The loop of `inet_aton`: at most `left` more dots may come, and `word` is what the bytes in
front make. -/
def inetLoop (left word : Nat) (text : List Char) : Option Nat :=
  if text.head?.any (isDigitOf 10) then
    let (val, rest) := strtoul text
    if 2 ^ 32 ≤ val then none
    else if rest.head? = some '.' then
      match left with
      | 0 => none
      | left + 1 =>
        if 255 < val then none else inetLoop left (word + val * 256 ^ (left + 1)) rest.tail
    else if rest.head?.all isSpace ∧ val < 256 ^ (left + 1) then some (word + val)
    else none
  else none

/-- `inet_aton`, with the address as a number. -/
def inetAton (text : List Char) : Option Nat := inetLoop 3 0 text

/-- `sin_addr` of such a number, in network order. -/
def inAddr (word : Nat) : UInt8 × UInt8 × UInt8 × UInt8 :=
  (.ofNat (word / 256 ^ 3 % 256), .ofNat (word / 256 ^ 2 % 256), .ofNat (word / 256 % 256),
    .ofNat (word % 256))

/-- On what `bzero` has left. -/
def fromIp (ip : List Char) : UInt8 × UInt8 × UInt8 × UInt8 :=
  (inetAton ip).elim (0, 0, 0, 0) inAddr

/-- `c_str` ends at the first NUL. -/
def SockAddr.ofIp (ip : List Char) (port : UInt16) : SockAddr where
  inet := true
  addr := fromIp (ip.takeWhile (·.toNat ≠ 0))
  port := port

/-! ## 2. Addresses -/

section

variable {rest : List Char} {p last : Written} {ps : List Written} {left word : Nat}

theorem isSpace_cases {c : Char} (h : isSpace c = true) :
    isDigitOf 16 c = false ∧ c ≠ 'x' ∧ c ≠ 'X' ∧ c ≠ '.' := by
  have hc : c = Char.ofNat c.toNat := (Char.ofNat_toNat c).symm
  have hcode := of_decide_eq_true h
  rw [hc]
  generalize c.toNat = k at hcode
  have hle : k ≤ 32 := by omega
  interval_cases k <;> first | omega | decide

theorem endsNumeral_of_space (h : rest.head?.all isSpace = true) : EndsNumeral rest := by
  intro c hc
  rw [Option.mem_def.mp hc] at h
  obtain ⟨hdigit, hx, hX, -⟩ := isSpace_cases h
  exact ⟨hdigit, hx, hX⟩

/-- The last part of an address. -/
theorem inetLoop_last (word : Nat) (hlast : last.value < 256 ^ (left + 1)) (hleft : left ≤ 3)
    (hrest : rest.head?.all isSpace = true) :
    inetLoop left word (last.text ++ rest) = some (word + last.value) := by
  have hword : last.value < 2 ^ 32 :=
    lt_of_lt_of_le hlast (Nat.pow_le_pow_right (by decide) (by omega : left + 1 ≤ 4))
  have hdot : rest.head? ≠ some '.' := by
    intro hmem
    rw [hmem] at hrest
    exact (isSpace_cases hrest).2.2.2 rfl
  rw [inetLoop.eq_def, if_pos (head_text last rest), strtoul_text last (endsNumeral_of_space hrest)]
  dsimp only
  rw [if_neg (Nat.not_le.mpr hword), if_neg hdot, if_pos ⟨hrest, hlast⟩]

/-- Any other part. -/
theorem inetLoop_dot (word : Nat) (hp : p.value < 256) :
    inetLoop (left + 1) word (p.text ++ '.' :: rest) =
      inetLoop left (word + p.value * 256 ^ (left + 1)) rest := by
  have hends : EndsNumeral ('.' :: rest) := by
    rintro c ⟨⟩
    decide
  rw [inetLoop.eq_def, if_pos (head_text p _), strtoul_text p hends]
  dsimp only
  rw [if_neg (by omega), if_pos List.head?_cons, if_neg (by omega), List.tail_cons]

/-- The text of an address. -/
def dotted : List Written → Written → List Char
  | [], last => last.text
  | p :: ps, last => p.text ++ '.' :: dotted ps last

/-- The address, with room for `k` more parts. -/
def addrWord (k : Nat) : List Written → Written → Nat
  | [], last => last.value
  | p :: ps, last => p.value * 256 ^ (ps.length + k + 1) + addrWord k ps last

theorem inetLoop_dotted {k : Nat} (word : Nat) (hk : ps.length + k ≤ 3)
    (hps : ∀ p ∈ ps, p.value < 256) (hlast : last.value < 256 ^ (k + 1))
    (hrest : rest.head?.all isSpace = true) :
    inetLoop (ps.length + k) word (dotted ps last ++ rest) =
      some (word + addrWord k ps last) := by
  induction ps generalizing word with
  | nil =>
    rw [List.length_nil, Nat.zero_add] at hk ⊢
    exact inetLoop_last word hlast hk hrest
  | cons p ps ih =>
    rw [List.length_cons, Nat.add_right_comm] at hk ⊢
    rw [dotted, List.append_assoc, List.cons_append, inetLoop_dot word (hps p List.mem_cons_self),
      ih _ (by omega) fun q hq ↦ hps q (List.mem_cons_of_mem p hq), addrWord, Nat.add_assoc]

end

namespace SockAddr

/-! ## 3. From text and back -/

/-- What may stand behind an address: white space, or the end of the text. -/
def EndsAddress (rest : List Char) : Prop := rest.head?.all fun c ↦ isSpace c || c.toNat = 0

section

variable {c : Char} {rest : List Char} {last : Written} {ps : List Written} {a b : SockAddr}

theorem toNat_ne_zero_of_mem_dotted (h : c ∈ dotted ps last) : c.toNat ≠ 0 := by
  induction ps with
  | nil => exact toNat_ne_zero_of_mem_text h
  | cons p ps ih =>
    rcases List.mem_append.mp h with hfront | hback
    · exact toNat_ne_zero_of_mem_text hfront
    · rcases List.mem_cons.mp hback with rfl | hback
      · decide
      · exact ih hback

/-- **Reading an address.**  Up to four numerals, each decimal, octal or hexadecimal in any spelling,
with dots between them; all but the last fill one byte, the last one all bytes that are left.  Behind white
space or a NUL the text is not looked at. -/
theorem ofIp_dotted (port : UInt16) (hlen : ps.length ≤ 3) (hps : ∀ p ∈ ps, p.value < 256)
    (hlast : last.value < 256 ^ (4 - ps.length)) (hrest : EndsAddress rest) :
    ofIp (dotted ps last ++ rest) port =
      ⟨true, inAddr (addrWord (3 - ps.length) ps last), port⟩ := by
  have hcut : (dotted ps last ++ rest).takeWhile (·.toNat ≠ 0) =
      dotted ps last ++ rest.takeWhile (·.toNat ≠ 0) :=
    List.takeWhile_append_of_pos fun c hc ↦ decide_eq_true (toNat_ne_zero_of_mem_dotted hc)
  have hspace : (rest.takeWhile (·.toNat ≠ 0)).head?.all isSpace = true := by
    cases rest with
    | nil => rfl
    | cons c rest =>
      by_cases hc : c.toNat = 0
      · rw [List.takeWhile_cons_of_neg (by simp [hc])]
        rfl
      · rw [List.takeWhile_cons_of_pos (by simp [hc])]
        simpa [EndsAddress, hc] using hrest
  have hread := inetLoop_dotted (k := 3 - ps.length) 0 (by omega) hps
    (by rwa [show 3 - ps.length + 1 = 4 - ps.length by omega]) hspace
  rw [show ps.length + (3 - ps.length) = 3 by omega, Nat.zero_add] at hread
  rw [ofIp, hcut, fromIp, inetAton, hread]
  rfl

/-- An octal byte with a further zero, a hexadecimal one in capitals, and a last part of two
bytes. -/
theorem ofIp_dotted_threeParts :
    ofIp "0012.0XA.258 lo".toList 80 = ⟨true, (10, 10, 1, 2), 80⟩ := by
  let ten : Written := ⟨.octal, ['0', '1', '2'], rfl, by simp, by simp⟩
  let capital : Written := ⟨.hexadecimal true, ['A'], rfl, by simp, by simp⟩
  let last : Written := ⟨.decimal, ['2', '5', '8'], rfl, by simp, by simp⟩
  have htext : "0012.0XA.258 lo".toList = dotted [ten, capital] last ++ [' ', 'l', 'o'] := rfl
  have hword : inAddr (addrWord 1 [ten, capital] last) = (10, 10, 1, 2) := by decide
  have hspace : EndsAddress [' ', 'l', 'o'] := rfl
  rw [htext, ofIp_dotted 80 (by decide) (by decide) (by decide) hspace, ← hword]
  rfl

/-- The parts of an address as `toIp` writes them. -/
def quad (addr : UInt8 × UInt8 × UInt8 × UInt8) : List Char :=
  dotted [.ofNat addr.1.toNat, .ofNat addr.2.1.toNat, .ofNat addr.2.2.1.toNat]
    (.ofNat addr.2.2.2.toNat)

theorem toIp_eq_quad (ha : a.inet = true) : a.toIp = quad a.addr := by
  rw [toIp, if_pos ha]
  simp only [quad, dotted, Written.ofNat_text, List.append_assoc, List.cons_append]

theorem inAddr_bytes (a b c d : UInt8) :
    inAddr (a.toNat * 256 ^ 3 + (b.toNat * 256 ^ 2 + (c.toNat * 256 ^ 1 + d.toNat))) =
      (a, b, c, d) := by
  have hb := b.toNat_lt
  have hc := c.toNat_lt
  have hd := d.toNat_lt
  have ha := a.toNat_lt
  unfold inAddr
  refine Prod.ext ?_ (Prod.ext ?_ (Prod.ext ?_ ?_))
  all_goals
    dsimp only
    refine UInt8.toNat_inj.mp ?_
    rw [UInt8.toNat_ofNat']
    omega

theorem ofIp_quad (addr : UInt8 × UInt8 × UInt8 × UInt8) (port : UInt16) :
    ofIp (quad addr) port = ⟨true, addr, port⟩ := by
  have hbyte (x : UInt8) : x.toNat < 256 := x.toNat_lt
  have hread : ofIp (quad addr ++ []) port = _ :=
    ofIp_dotted port le_rfl (by simp [Written.ofNat_value, hbyte])
      (by rw [Written.ofNat_value]; exact hbyte _) rfl
  rw [List.append_nil] at hread
  rw [hread]
  congr 1
  simp only [addrWord, Written.ofNat_value]
  exact inAddr_bytes _ _ _ _

theorem toIpPort_eq (a : SockAddr) :
    a.toIpPort = a.toIp ++ ':' :: Nat.toDigits 10 a.port.toNat := by
  have hip := a.toIp_length_le
  have hport : (Nat.toDigits 10 a.port.toNat).length ≤ 5 :=
    toDigits_length_le (by decide) (lt_trans a.port.toNat_lt (by decide))
  rw [toIpPort, snprintf, List.take_of_length_le]
  rw [List.length_cons]
  omega

theorem colon_not_mem_quad (addr : UInt8 × UInt8 × UInt8 × UInt8) : ':' ∉ quad addr := by
  have hdigits (n : Nat) : ':' ∉ Nat.toDigits 10 n := by
    intro hmem
    cases isDigitOf_of_mem_toDigits (b := 10) (by decide) (by decide) hmem
  simp only [quad, dotted, Written.ofNat_text, List.mem_append, List.mem_cons, not_or]
  exact ⟨hdigits _, by decide, hdigits _, by decide, hdigits _, by decide, hdigits _⟩

/-- **Addresses as text.**  The text that `toIp` writes is read back as the address; a text that is
read and written again comes out as it was exactly when it is four bytes in decimal, without leading
zeros, with dots between them; and `toIpPort` has a text of its own for each address and port. -/
theorem text_round_trip (ha : a.inet = true) (hb : b.inet = true) :
    ofIp a.toIp a.port = a ∧
      (∀ text port, (ofIp text port).toIp = text ↔ ∃ addr, text = quad addr) ∧
      (a.toIpPort = b.toIpPort ↔ a = b) := by
  have hback (a : SockAddr) (ha : a.inet = true) : ofIp a.toIp a.port = a := by
    rw [toIp_eq_quad ha, ofIp_quad]
    cases a
    cases ha
    rfl
  refine ⟨hback a ha, fun text port ↦ ⟨fun h ↦ ?_, ?_⟩, fun h ↦ ?_, fun h ↦ h ▸ rfl⟩
  · exact ⟨_, h.symm.trans (toIp_eq_quad rfl)⟩
  · rintro ⟨addr, rfl⟩
    rw [ofIp_quad, toIp_eq_quad rfl]
  · rw [toIpPort_eq, toIpPort_eq, toIp_eq_quad ha, toIp_eq_quad hb] at h
    -- up to the first colon
    have hcut (addr : UInt8 × UInt8 × UInt8 × UInt8) (back : List Char) :
        (quad addr ++ ':' :: back).takeWhile (· ≠ ':') = quad addr := by
      rw [List.takeWhile_append_of_pos, List.takeWhile_cons_of_neg (by simp), List.append_nil]
      intro c hc
      exact decide_eq_true fun heq ↦ colon_not_mem_quad addr (heq ▸ hc)
    have hquad : quad a.addr = quad b.addr := by rw [← hcut a.addr, h, hcut]
    rw [hquad] at h
    have hport := toDigits_injective (List.cons.inj (List.append_cancel_left h)).2
    rw [← hback a ha, ← hback b hb, toIp_eq_quad ha, toIp_eq_quad hb, hquad,
      UInt16.toNat_inj.mp hport]

theorem text_round_trip_loopback :
    ofIp (toIp ⟨true, (127, 0, 0, 1), 80⟩) 80 = ⟨true, (127, 0, 0, 1), 80⟩ ∧
      toIpPort ⟨true, (127, 0, 0, 1), 80⟩ ≠ toIpPort ⟨true, (127, 0, 0, 1), 81⟩ := by
  obtain ⟨hback, -, htext⟩ := text_round_trip (a := ⟨true, (127, 0, 0, 1), 80⟩)
    (b := ⟨true, (127, 0, 0, 1), 81⟩) rfl rfl
  exact ⟨hback, fun h ↦ absurd (htext.mp h) (by decide)⟩

end

end SockAddr

end Netlib
