import Netlib.Lib.BigEndian
import Netlib.Net.BufferRead

/-!
# Integers in a `Buffer`

The integer calls write and read two's complement, most significant byte first, at every width.
-/

open Storage

namespace Netlib

namespace Buffer

/-! ## 1. `htobe` and `betoh` -/

theorem pow_width (n : Nat) : 2 ^ (8 * n) = 256 ^ n := by
  rw [pow_mul]
  rfl

theorem pow_width_int (n : Nat) : (2 : Int) ^ (8 * n) = 256 ^ n := by
  rw [pow_mul]
  rfl

theorem beBytes_natCast (n m : Nat) :
    ((List.range n).map fun i ↦ UInt8.ofNat (m >>> (8 * (n - 1 - i)))) =
      BigEndian.encode n (m : Int) := by
  -- on the width; the last byte is not shifted, the others lose one byte of shift
  induction n generalizing m with
  | zero => rfl
  | succ n ih =>
    have hinit : ((List.range n).map fun i ↦ UInt8.ofNat (m >>> (8 * (n + 1 - 1 - i)))) =
        (List.range n).map fun i ↦ UInt8.ofNat ((m / 256) >>> (8 * (n - 1 - i))) := by
      refine List.map_congr_left fun i hi ↦ ?_
      have hi' : i < n := List.mem_range.mp hi
      rw [show 8 * (n + 1 - 1 - i) = 8 + 8 * (n - 1 - i) by omega, Nat.shiftRight_add,
        Nat.shiftRight_eq_div_pow m 8]
    have hlast : UInt8.ofNat (m >>> (8 * (n + 1 - 1 - n))) =
        UInt8.ofNat ((m : Int) % 256).toNat := by
      have hmod : ((m : Int) % 256).toNat = m % 256 := by omega
      rw [show 8 * (n + 1 - 1 - n) = 0 by omega, Nat.shiftRight_zero, hmod]
      apply UInt8.toNat_inj.mp
      rw [UInt8.toNat_ofNat', UInt8.toNat_ofNat', Nat.mod_mod]
    rw [List.range_succ, List.map_append, hinit, ih, List.map_singleton, hlast, BigEndian.encode]
    rfl

theorem beBytes_eq (n : Nat) (x : BitVec (8 * n)) : beBytes n x = BigEndian.encode n x.toInt := by
  have hres : x.toInt % 256 ^ n = (x.toNat : Int) % 256 ^ n := by
    have hpow : ((2 ^ (8 * n) : Nat) : Int) = 256 ^ n := by rw [pow_width, Nat.cast_pow]; rfl
    rw [BitVec.toInt_eq_toNat_bmod, ← hpow, Int.bmod_emod]
  unfold beBytes
  rw [beBytes_natCast, ← BigEndian.encode_emod n x.toInt, hres, BigEndian.encode_emod]

theorem toInt_ofBeBytes (bytes : List UInt8) :
    (ofBeBytes bytes.length bytes).toInt = BigEndian.decode bytes := by
  unfold ofBeBytes BigEndian.decode
  rw [BitVec.toInt_ofNat', pow_width]
  rfl

theorem decode_encode_toInt {n : Nat} (x : BitVec (8 * n)) :
    BigEndian.decode (BigEndian.encode n x.toInt) = x.toInt := by
  apply BigEndian.decode_encode
  · rw [mul_comm, ← pow_width_int]
    exact BitVec.le_two_mul_toInt
  · rw [mul_comm, ← pow_width_int]
    exact BitVec.two_mul_toInt_lt

/-! ## 2. Reading what was written -/

theorem Wf.readInt_encode {b : Buffer} (h : b.Wf) {n : Nat} {x : BitVec (8 * n)}
    {rest : List UInt8} (hc : b.content = beBytes n x ++ rest) :
    ∃ b', b.readInt n = some (x, b') ∧ b'.Wf ∧ b'.content = rest := by
  have hlen := h.content_length
  rw [hc, List.length_append, beBytes_length] at hlen
  obtain ⟨b', he, hwf, hc', -⟩ := h.readInt_spec (n := n) (by omega)
  have htake : b.content.take n = beBytes n x := by
    rw [hc, List.take_left' (beBytes_length n x)]
  have hx : ofBeBytes n (beBytes n x) = x := by
    apply BitVec.eq_of_toInt_eq
    have hbytes := toInt_ofBeBytes (beBytes n x)
    rw [beBytes_length] at hbytes
    rw [hbytes, beBytes_eq, decode_encode_toInt]
  rw [htake, hx] at he
  refine ⟨b', he, hwf, ?_⟩
  rw [hc', hc, List.drop_left' (beBytes_length n x)]

theorem retrieve_isSome {b : Buffer} {n : Nat} (hn : n ≤ b.readAbleBytes) :
    ∃ b', b.retrieve n = some b' := by
  unfold retrieve
  rw [assert_of hn, Option.bind_eq_bind, Option.bind_some]
  split <;> exact ⟨_, rfl⟩

/-- A read returns what the peek before it would, whatever the buffer. -/
theorem peekInt_eq (b : Buffer) (n : Nat) : b.peekInt n = (b.readInt n).map Prod.fst := by
  unfold readInt
  cases hp : b.peekInt n with
  | none => rfl
  | some x =>
    have hn : n ≤ b.readAbleBytes := by
      by_contra hn
      rw [peekInt, assert, if_neg hn] at hp
      cases hp
    obtain ⟨b', he⟩ := retrieve_isSome hn
    rw [Option.bind_eq_bind, Option.bind_some, he]
    rfl

end Buffer

/-- The widths that have calls of their own. -/
inductive IntType where
  | int8 | int16 | int32 | int64
deriving DecidableEq, Repr

/-- A value of one of these types. -/
inductive TypedInt where
  | int8 (x : BitVec 8)
  | int16 (x : BitVec 16)
  | int32 (x : BitVec 32)
  | int64 (x : BitVec 64)
deriving DecidableEq, Repr

namespace IntType

/-- `sizeof`. -/
def size : IntType → Nat
  | int8 => 1
  | int16 => 2
  | int32 => 4
  | int64 => 8

/-- The value that `peekInt8` to `peekInt64` return. -/
def peek (b : Buffer) : IntType → Option Int
  | int8 => b.peekInt8.map BitVec.toInt
  | int16 => b.peekInt16.map BitVec.toInt
  | int32 => b.peekInt32.map BitVec.toInt
  | int64 => b.peekInt64.map BitVec.toInt

/-- The value that `readInt8` to `readInt64` return, and the buffer after it. -/
def read (b : Buffer) : IntType → Option (Int × Buffer)
  | int8 => b.readInt8.map fun (x, b) ↦ (x.toInt, b)
  | int16 => b.readInt16.map fun (x, b) ↦ (x.toInt, b)
  | int32 => b.readInt32.map fun (x, b) ↦ (x.toInt, b)
  | int64 => b.readInt64.map fun (x, b) ↦ (x.toInt, b)

/-- Reads of these types one after the other. -/
def readAll : List IntType → Buffer → Option (List Int × Buffer)
  | [], b => some ([], b)
  | t :: ts, b => do
    let (x, b) ← t.read b
    let (xs, b) ← readAll ts b
    return (x :: xs, b)

theorem peek_eq (b : Buffer) (t : IntType) : t.peek b = (t.read b).map Prod.fst := by
  cases t with
  | int8 =>
    rw [peek, read, Buffer.peekInt8, b.peekInt_eq 1, Buffer.readInt8]
    cases b.readInt 1 <;> rfl
  | int16 =>
    rw [peek, read, Buffer.peekInt16, b.peekInt_eq 2, Buffer.readInt16]
    cases b.readInt 2 <;> rfl
  | int32 =>
    rw [peek, read, Buffer.peekInt32, b.peekInt_eq 4, Buffer.readInt32]
    cases b.readInt 4 with
    | none => rfl
    | some xb =>
      -- the peek returns 32 bits, the read the same number in 64
      show some (xb.1 : BitVec 32).toInt = some (BitVec.signExtend 64 (xb.1 : BitVec 32)).toInt
      rw [BitVec.toInt_signExtend_of_le (by decide)]
  | int64 =>
    rw [peek, read, Buffer.peekInt64, b.peekInt_eq 8, Buffer.readInt64]
    cases b.readInt 8 <;> rfl

end IntType

namespace TypedInt

def type : TypedInt → IntType
  | int8 _ => .int8
  | int16 _ => .int16
  | int32 _ => .int32
  | int64 _ => .int64

def value : TypedInt → Int
  | int8 x => x.toInt
  | int16 x => x.toInt
  | int32 x => x.toInt
  | int64 x => x.toInt

/-- Two's complement, most significant byte first. -/
def encoding (v : TypedInt) : List UInt8 := BigEndian.encode v.type.size v.value

def append (b : Buffer) : TypedInt → Option Buffer
  | int8 x => b.appendInt8 x
  | int16 x => b.appendInt16 x
  | int32 x => b.appendInt32 x
  | int64 x => b.appendInt64 x

def prepend (b : Buffer) : TypedInt → Option Buffer
  | int8 x => b.prependInt8 x
  | int16 x => b.prependInt16 x
  | int32 x => b.prependInt32 x
  | int64 x => b.prependInt64 x

/-- The vector stays below 2^31 bytes. -/
def Fits (b : Buffer) (v : TypedInt) : Prop := b.storageAfter v.type.size < 2 ^ 31

instance (b : Buffer) (v : TypedInt) : Decidable (Fits b v) := inferInstanceAs (Decidable (_ < _))

theorem append_spec {b : Buffer} (h : b.Wf) (v : TypedInt) (hfit : Fits b v) :
    ∃ b', v.append b = some b' ∧ b'.Wf ∧ b'.content = b.content ++ v.encoding := by
  have key (n : Nat) (x : BitVec (8 * n)) (hfit : b.storageAfter n < 2 ^ 31) :
      ∃ b', b.appendInt n x = some b' ∧ b'.Wf ∧
        b'.content = b.content ++ BigEndian.encode n x.toInt := by
    obtain ⟨b', he, hwf, hc, -⟩ := BufferOp.refines_of_appendInt h x hfit
    exact ⟨b', he, hwf, by rw [hc, Buffer.beBytes_eq]⟩
  cases v with
  | int8 x => exact key 1 x hfit
  | int16 x => exact key 2 x hfit
  | int32 x => exact key 4 x hfit
  | int64 x => exact key 8 x hfit

theorem prepend_spec {b : Buffer} (h : b.Wf) (v : TypedInt)
    (hroom : v.type.size ≤ b.prependAbleBytes) :
    ∃ b', v.prepend b = some b' ∧ b'.Wf ∧ b'.content = v.encoding ++ b.content := by
  have key (n : Nat) (x : BitVec (8 * n)) (hroom : n ≤ b.prependAbleBytes) :
      ∃ b', b.prependInt n x = some b' ∧ b'.Wf ∧
        b'.content = BigEndian.encode n x.toInt ++ b.content := by
    obtain ⟨b', he, hwf, hc, -⟩ := BufferOp.refines_of_prependInt h x hroom
    exact ⟨b', he, hwf, by rw [hc, Buffer.beBytes_eq]⟩
  cases v with
  | int8 x => exact key 1 x hroom
  | int16 x => exact key 2 x hroom
  | int32 x => exact key 4 x hroom
  | int64 x => exact key 8 x hroom

/-- Reading the type of a value off its encoding gives the value; `readInt32` widens it to 64 bits
and keeps the sign. -/
theorem read_spec {b : Buffer} (h : b.Wf) (v : TypedInt) {rest : List UInt8}
    (hc : b.content = v.encoding ++ rest) :
    ∃ b', v.type.read b = some (v.value, b') ∧ b'.Wf ∧ b'.content = rest := by
  cases v with
  | int8 x =>
    obtain ⟨b', he, hwf, hc'⟩ := h.readInt_encode (n := 1) (x := x)
      (hc.trans (by rw [Buffer.beBytes_eq]; rfl))
    exact ⟨b', by rw [type, IntType.read, Buffer.readInt8, he]; rfl, hwf, hc'⟩
  | int16 x =>
    obtain ⟨b', he, hwf, hc'⟩ := h.readInt_encode (n := 2) (x := x)
      (hc.trans (by rw [Buffer.beBytes_eq]; rfl))
    exact ⟨b', by rw [type, IntType.read, Buffer.readInt16, he]; rfl, hwf, hc'⟩
  | int32 x =>
    obtain ⟨b', he, hwf, hc'⟩ := h.readInt_encode (n := 4) (x := x)
      (hc.trans (by rw [Buffer.beBytes_eq]; rfl))
    refine ⟨b', ?_, hwf, hc'⟩
    rw [type, IntType.read, Buffer.readInt32, he]
    show some ((BitVec.signExtend 64 x).toInt, b') = some (x.toInt, b')
    rw [BitVec.toInt_signExtend_of_le (by decide)]
  | int64 x =>
    obtain ⟨b', he, hwf, hc'⟩ := h.readInt_encode (n := 8) (x := x)
      (hc.trans (by rw [Buffer.beBytes_eq]; rfl))
    exact ⟨b', by rw [type, IntType.read, Buffer.readInt64, he]; rfl, hwf, hc'⟩

theorem run_append {vs : List TypedInt} {b : Buffer} (h : b.Wf)
    (hfit : Trace.Along append Fits b vs) :
    ∃ b', Trace.run append b vs = some b' ∧ b'.Wf ∧
      b'.content = b.content ++ vs.flatMap encoding := by
  induction vs generalizing b with
  | nil => exact ⟨b, rfl, h, (List.append_nil _).symm⟩
  | cons v vs ih =>
    obtain ⟨b₁, he, hwf, hc⟩ := append_spec h v hfit.1
    obtain ⟨b', hrun, hwf', hc'⟩ := ih hwf (hfit.2 b₁ he)
    refine ⟨b', Trace.run_cons_eq_some.mpr ⟨b₁, he, hrun⟩, hwf', ?_⟩
    rw [hc', hc, List.append_assoc, List.flatMap_cons]

theorem readAll_spec {vs : List TypedInt} {b : Buffer} (h : b.Wf) {rest : List UInt8}
    (hc : b.content = vs.flatMap encoding ++ rest) :
    ∃ b', IntType.readAll (vs.map type) b = some (vs.map value, b') ∧ b'.Wf ∧
      b'.content = rest := by
  -- on the values, each read leaving the encodings of the ones behind it
  induction vs generalizing b with
  | nil => exact ⟨b, rfl, h, hc⟩
  | cons v vs ih =>
    rw [List.flatMap_cons, List.append_assoc] at hc
    obtain ⟨b₁, he, hwf, hc₁⟩ := read_spec h v hc
    obtain ⟨b', hall, hwf', hc'⟩ := ih hwf hc₁
    refine ⟨b', ?_, hwf', hc'⟩
    simp only [List.map_cons, IntType.readAll, he, hall, Option.bind_eq_bind, Option.bind_some]
    rfl

/-- **Round trip.**  Integers appended to a buffer stand behind its content in two's complement,
most significant byte first, and reads of their types return them and leave nothing.  A peek returns
what the read would.  A prepended integer is read back, and the content is what it was. -/
theorem round_trip {b : Buffer} (h : b.Reachable) :
    (∀ vs, Trace.Along append Fits b vs → ∃ b₁ b₂ b₃,
      Trace.run append b vs = some b₁ ∧ b₁.content = b.content ++ vs.flatMap encoding ∧
      b₁.retrieve b.content.length = some b₂ ∧
      IntType.readAll (vs.map type) b₂ = some (vs.map value, b₃) ∧
      b₃.content = [] ∧ b₃.readAbleBytes = 0) ∧
    (∀ t : IntType, t.peek b = (t.read b).map Prod.fst) ∧
    ∀ v : TypedInt, v.type.size ≤ b.prependAbleBytes → ∃ b₁ b₂,
      v.prepend b = some b₁ ∧ v.type.read b₁ = some (v.value, b₂) ∧ b₂.content = b.content := by
  refine ⟨fun vs hfit ↦ ?_, fun t ↦ t.peek_eq b, fun v hroom ↦ ?_⟩
  · obtain ⟨b₁, hrun, hwf₁, hc₁⟩ := run_append h.wf hfit
    have hle : b.content.length ≤ b₁.readAbleBytes := by
      rw [← hwf₁.content_length, hc₁, List.length_append]
      exact Nat.le_add_right _ _
    obtain ⟨b₂, hret, hwf₂, hc₂, -⟩ := hwf₁.retrieve_spec hle
    rw [hc₁, List.drop_left] at hc₂
    rw [← List.append_nil (vs.flatMap encoding)] at hc₂
    obtain ⟨b₃, hall, hwf₃, hc₃⟩ := readAll_spec hwf₂ hc₂
    refine ⟨b₁, b₂, b₃, hrun, hc₁, hret, hall, hc₃, ?_⟩
    rw [← hwf₃.content_length, hc₃, List.length_nil]
  · obtain ⟨b₁, he, hwf, hc⟩ := prepend_spec h.wf v hroom
    obtain ⟨b₂, hread, -, hc₂⟩ := read_spec hwf v hc
    exact ⟨b₁, b₂, he, hread, hc₂⟩

theorem round_trip_mixed :
    ∃ b₁ b₂ b₃, Trace.run append Buffer.fresh [int16 258, int8 255, int32 (-2)] = some b₁ ∧
      b₁.content = [1, 2, 255, 255, 255, 255, 254] ∧ b₁.retrieve 0 = some b₂ ∧
      IntType.readAll [.int16, .int8, .int32] b₂ = some ([258, -1, -2], b₃) ∧ b₃.content = [] := by
  obtain ⟨b₁, b₂, b₃, hrun, hc, hret, hall, hempty, -⟩ :=
    (round_trip (.ofSize 0 (Buffer.ofSize_eq 0))).1 [int16 258, int8 255, int32 (-2)]
      (by decide +kernel)
  rw [Buffer.fresh_content] at hc hret
  exact ⟨b₁, b₂, b₃, hrun, hc, hret, hall, hempty⟩

end TypedInt

end Netlib
