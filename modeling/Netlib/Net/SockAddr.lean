import Mathlib

/-!
# `netlib::SockAddr` as text

The IPv4 socket address and its text `a.b.c.d:port` (`net/SockAddr.cc`, `toIp` and `toIpPort` of
`net/SockFunc.cc`).  A text is the list of its characters, and a `char` array that `snprintf` has
written is the text in front of the NUL.
-/

namespace Netlib

/-- What `snprintf` leaves in an array of `size` bytes. -/
def snprintf (size : Nat) (text : List Char) : List Char := text.take (size - 1)

/-- `%d`. -/
def formatInt : Int → List Char
  | .ofNat n => Nat.toDigits 10 n
  | .negSucc n => '-' :: Nat.toDigits 10 (n + 1)

structure SockAddr where
  /-- `sin_family == AF_INET`. -/
  inet : Bool
  addr : UInt8 × UInt8 × UInt8 × UInt8
  /-- `networkToHost16(sin_port)`. -/
  port : UInt16
deriving DecidableEq, Repr

namespace SockAddr

/-- `inet_ntop` in dotted decimal; for another family the array keeps its empty text. -/
def toIp (a : SockAddr) : List Char :=
  if a.inet then
    Nat.toDigits 10 a.addr.1.toNat ++ '.' :: Nat.toDigits 10 a.addr.2.1.toNat ++
      '.' :: Nat.toDigits 10 a.addr.2.2.1.toNat ++ '.' :: Nat.toDigits 10 a.addr.2.2.2.toNat
  else []

def toIpPort (a : SockAddr) : List Char :=
  a.toIp ++ snprintf (64 - a.toIp.length) (':' :: Nat.toDigits 10 a.port.toNat)

/-! ## 1. How long the texts are -/

theorem toDigits_length_le {n k : Nat} (hk : 0 < k) (h : n < 10 ^ k) :
    (Nat.toDigits 10 n).length ≤ k :=
  (Nat.length_toDigits_le_iff (by decide) hk).mpr h

theorem toIp_length_le (a : SockAddr) : a.toIp.length ≤ 15 := by
  have hbyte (b : UInt8) : (Nat.toDigits 10 b.toNat).length ≤ 3 :=
    toDigits_length_le (by decide) (lt_trans b.toNat_lt (by decide))
  have h1 := hbyte a.addr.1
  have h2 := hbyte a.addr.2.1
  have h3 := hbyte a.addr.2.2.1
  have h4 := hbyte a.addr.2.2.2
  unfold toIp
  split
  · simp only [List.length_append, List.length_cons]
    omega
  · simp

theorem toIpPort_length_le (a : SockAddr) : a.toIpPort.length ≤ 21 := by
  have hip := a.toIp_length_le
  have hport : (Nat.toDigits 10 a.port.toNat).length ≤ 5 :=
    toDigits_length_le (by decide) (lt_trans a.port.toNat_lt (by decide))
  unfold toIpPort snprintf
  simp only [List.length_append, List.length_take, List.length_cons]
  omega

end SockAddr

example : (SockAddr.toIpPort ⟨true, (127, 0, 0, 1), 8080⟩) = "127.0.0.1:8080".toList := by decide

theorem formatInt_natCast (n : Nat) : formatInt n = Nat.toDigits 10 n := rfl

/-- Two numbers with one text are equal. -/
theorem toDigits_injective {m n : Nat} (h : Nat.toDigits 10 m = Nat.toDigits 10 n) : m = n := by
  rw [← Nat.ofDigitChars_ten_toDigits (n := m), h, Nat.ofDigitChars_ten_toDigits]

end Netlib
