import Mathlib

/-!
# Two's complement integers, most significant byte first

`encode n v` is what a machine with big-endian byte order keeps of the integer `v` in `n` bytes;
`decode` reads it back as a signed number.
-/

namespace BigEndian

def encode : Nat → Int → List UInt8
  | 0, _ => []
  | n + 1, v => encode n (v / 256) ++ [UInt8.ofNat (v % 256).toNat]

/-- The bytes as an unsigned number. -/
def decodeNat (bytes : List UInt8) : Nat :=
  bytes.foldl (fun acc byte ↦ acc * 256 + byte.toNat) 0

/-- The bytes as a signed number: the residue nearest to zero. -/
def decode (bytes : List UInt8) : Int := Int.bmod (decodeNat bytes) (256 ^ bytes.length)

@[simp] theorem encode_length (n : Nat) (v : Int) : (encode n v).length = n := by
  induction n generalizing v with
  | zero => rfl
  | succ n ih => rw [encode, List.length_append, ih, List.length_singleton]

theorem decodeNat_concat (bytes : List UInt8) (byte : UInt8) :
    decodeNat (bytes ++ [byte]) = decodeNat bytes * 256 + byte.toNat := by
  unfold decodeNat
  rw [List.foldl_append, List.foldl_cons, List.foldl_nil]

/-- The last byte of a residue is the value's own, and the bytes before it are a residue again. -/
theorem emod_pow_succ (n : Nat) (v : Int) :
    v % 256 ^ (n + 1) = v / 256 % 256 ^ n * 256 + v % 256 := by
  have hquot : v / (256 * 256 ^ n) = v / 256 / 256 ^ n :=
    (Int.ediv_ediv_of_nonneg (by decide)).symm
  have hlow : v % 256 = v - 256 * (v / 256) := Int.emod_def v 256
  rw [pow_succ', Int.emod_def v, Int.emod_def (v / 256), hquot, hlow]
  ring

theorem decodeNat_encode (n : Nat) (v : Int) : (decodeNat (encode n v) : Int) = v % 256 ^ n := by
  -- on the width, one byte off the end
  induction n generalizing v with
  | zero =>
    rw [pow_zero, Int.emod_one]
    rfl
  | succ n ih =>
    have hbyte : ((UInt8.ofNat (v % 256).toNat).toNat : Int) = v % 256 := by
      rw [UInt8.toNat_ofNat', Nat.mod_eq_of_lt (by omega)]
      omega
    rw [encode, decodeNat_concat, Nat.cast_add, Nat.cast_mul, ih, hbyte, emod_pow_succ]
    rfl

theorem encode_emod (n : Nat) (v : Int) : encode n (v % 256 ^ n) = encode n v := by
  induction n generalizing v with
  | zero => rfl
  | succ n ih =>
    have hquot : v % 256 ^ (n + 1) / 256 = v / 256 % 256 ^ n := by
      rw [emod_pow_succ]
      omega
    have hlow : v % 256 ^ (n + 1) % 256 = v % 256 := by
      rw [emod_pow_succ]
      omega
    rw [encode, encode, hquot, hlow, ih]

/-- A value in the signed range of the width comes back. -/
theorem decode_encode {n : Nat} {v : Int} (hlo : -(256 ^ n) ≤ v * 2) (hhi : v * 2 < 256 ^ n) :
    decode (encode n v) = v := by
  have hpow : ((256 ^ n : Nat) : Int) = 256 ^ n := by norm_cast
  unfold decode
  rw [encode_length, decodeNat_encode, ← hpow, Int.emod_bmod]
  apply Int.bmod_eq_of_le_mul_two
  · rw [hpow]
    exact hlo
  · rw [hpow]
    exact hhi

end BigEndian
