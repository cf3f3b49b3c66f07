import Netlib.Lib.Storage

/-!
# `netlib::Buffer`

The receive and send buffer of a connection (`net/Buffer.h`, `net/Buffer.cc`): one vector, a reader
index and a writer index.

    +-------------------+------------------+------------------+
    | prependable bytes |  readable bytes  |  writable bytes  |
    +-------------------+------------------+------------------+
    0      <=      readerIndex   <=   writerIndex    <=     size

The indices are `int` and every length is `size_t`, and each conversion between the two stands where
the compiler puts it.  An operation is `none` when one of its asserts fails or when it would touch a
byte outside the vector.
-/

open Storage

namespace Netlib

def cInitialSize : Nat := 1024
def cCheapPrepend : Nat := 8

structure Buffer where
  buffer : List UInt8
  readerIndex : Int
  writerIndex : Int
deriving DecidableEq, Repr

/-- `assert(p)`. -/
def assert (p : Prop) [Decidable p] : Option Unit := if p then some () else none

@[simp] theorem assert_of {p : Prop} [Decidable p] (h : p) : assert p = some () := if_pos h

namespace Buffer

def readAbleBytes (b : Buffer) : Nat := sizeOfInt (intSub b.writerIndex b.readerIndex)

def writeAbleBytes (b : Buffer) : Nat := sizeSub b.buffer.length (sizeOfInt b.writerIndex)

def prependAbleBytes (b : Buffer) : Nat := sizeOfInt b.readerIndex

/-- What the member initialisers of the constructor leave.  They read `cInitialSize` and not the
constructor's argument. -/
def fresh : Buffer where
  buffer := List.replicate (cCheapPrepend + cInitialSize) 0
  readerIndex := cCheapPrepend
  writerIndex := cCheapPrepend

/-- `Buffer::Buffer(size_t initialSize)`. -/
def ofSize (_initialSize : Nat) : Option Buffer := do
  let b := fresh
  assert (b.readAbleBytes = 0)
  assert (b.writeAbleBytes = cInitialSize)
  assert (b.prependAbleBytes = cCheapPrepend)
  return b

def peek (b : Buffer) (n : Nat) : Option (List UInt8) := slice b.buffer b.readerIndex n

/-- `toString` passes the length through `static_cast<int>`. -/
def toString (b : Buffer) : Option (List UInt8) :=
  b.peek (sizeOfInt (intOfSize b.readAbleBytes))

/-! ## 1. Writing -/

def makeSpace (b : Buffer) (len : Nat) : Option Buffer :=
  -- too little even with the space in front: grow
  if sizeAdd b.writeAbleBytes b.prependAbleBytes < sizeAdd len cCheapPrepend then
    some { b with buffer := resize b.buffer (sizeAdd (sizeOfInt b.writerIndex) len) 0 }
  else do
    assert (cCheapPrepend < sizeOfInt b.readerIndex)
    let readAble := b.readAbleBytes
    -- source and destination overlap whenever fewer bytes are free in front than are readable
    let moved ← copyRange b.buffer b.readerIndex b.writerIndex cCheapPrepend
    let b' : Buffer :=
      { buffer := moved
        readerIndex := cCheapPrepend
        writerIndex := intOfSize (sizeAdd cCheapPrepend readAble) }
    assert (readAble = b'.readAbleBytes)
    return b'

def ensureWriteAbleBytes (b : Buffer) (len : Nat) : Option Buffer := do
  let b' ← if b.writeAbleBytes < len then b.makeSpace len else some b
  assert (len ≤ b'.writeAbleBytes)
  return b'

def hasWritten (b : Buffer) (len : Nat) : Option Buffer := do
  assert (len ≤ b.writeAbleBytes)
  return { b with writerIndex := intOfSize (sizeAdd (sizeOfInt b.writerIndex) len) }

/-- Put `data` at `beginWrite()`. -/
def writeTail (b : Buffer) (data : List UInt8) : Option Buffer := do
  let xs ← overwrite b.buffer b.writerIndex data
  return { b with buffer := xs }

def append (b : Buffer) (data : List UInt8) : Option Buffer := do
  let b ← b.ensureWriteAbleBytes data.length
  let b ← b.writeTail data
  b.hasWritten data.length

def unWrite (b : Buffer) (len : Nat) : Option Buffer := do
  assert (len ≤ b.readAbleBytes)
  return { b with writerIndex := intOfSize (sizeSub (sizeOfInt b.writerIndex) len) }

def prepend (b : Buffer) (data : List UInt8) : Option Buffer := do
  assert (data.length ≤ b.prependAbleBytes)
  let r := intOfSize (sizeSub (sizeOfInt b.readerIndex) data.length)
  let xs ← overwrite b.buffer r data
  return { b with buffer := xs, readerIndex := r }

/-! ## 2. Reading -/

def retrieveAll (b : Buffer) : Buffer :=
  { b with readerIndex := cCheapPrepend, writerIndex := cCheapPrepend }

def retrieve (b : Buffer) (n : Nat) : Option Buffer := do
  assert (n ≤ b.readAbleBytes)
  if n < b.readAbleBytes then
    return { b with readerIndex := intOfSize (sizeAdd (sizeOfInt b.readerIndex) n) }
  else
    return b.retrieveAll

/-- `retrieveUntil(end)`, the pointer given by its offset from `begin()`. -/
def retrieveUntil (b : Buffer) (stop : Int) : Option Buffer := do
  assert (b.readerIndex ≤ stop)
  assert (stop ≤ b.writerIndex)
  b.retrieve (sizeOfInt (stop - b.readerIndex))

def retrieveAsString (b : Buffer) (len : Nat) : Option (List UInt8 × Buffer) := do
  assert (len ≤ b.readAbleBytes)
  let ret ← b.peek len
  let b ← b.retrieve len
  return (ret, b)

def retrieveAllAsString (b : Buffer) : Option (List UInt8 × Buffer) :=
  b.retrieveAsString b.readAbleBytes

/-! ## 3. Integers in network byte order -/

/-- The `n` bytes of `x`, most significant first: what `htobe` leaves in memory. -/
def beBytes (n : Nat) (x : BitVec (8 * n)) : List UInt8 :=
  (List.range n).map fun i ↦ UInt8.ofNat (x.toNat >>> (8 * (n - 1 - i)))

/-- The value `betoh` reads from bytes given most significant first. -/
def ofBeBytes (n : Nat) (bytes : List UInt8) : BitVec (8 * n) :=
  BitVec.ofNat (8 * n) (bytes.foldl (fun acc byte ↦ acc * 256 + byte.toNat) 0)

def appendInt (b : Buffer) (n : Nat) (x : BitVec (8 * n)) : Option Buffer := b.append (beBytes n x)

def appendInt64 (b : Buffer) (x : BitVec 64) : Option Buffer := b.appendInt 8 x
def appendInt32 (b : Buffer) (x : BitVec 32) : Option Buffer := b.appendInt 4 x
def appendInt16 (b : Buffer) (x : BitVec 16) : Option Buffer := b.appendInt 2 x
def appendInt8 (b : Buffer) (x : BitVec 8) : Option Buffer := b.appendInt 1 x

def prependInt (b : Buffer) (n : Nat) (x : BitVec (8 * n)) : Option Buffer := b.prepend (beBytes n x)

def prependInt64 (b : Buffer) (x : BitVec 64) : Option Buffer := b.prependInt 8 x
def prependInt32 (b : Buffer) (x : BitVec 32) : Option Buffer := b.prependInt 4 x
def prependInt16 (b : Buffer) (x : BitVec 16) : Option Buffer := b.prependInt 2 x
def prependInt8 (b : Buffer) (x : BitVec 8) : Option Buffer := b.prependInt 1 x

def peekInt (b : Buffer) (n : Nat) : Option (BitVec (8 * n)) := do
  assert (n ≤ b.readAbleBytes)
  let bytes ← b.peek n
  return ofBeBytes n bytes

def peekInt64 (b : Buffer) : Option (BitVec 64) := b.peekInt 8
def peekInt32 (b : Buffer) : Option (BitVec 32) := b.peekInt 4
def peekInt16 (b : Buffer) : Option (BitVec 16) := b.peekInt 2
def peekInt8 (b : Buffer) : Option (BitVec 8) := b.peekInt 1

def readInt (b : Buffer) (n : Nat) : Option (BitVec (8 * n) × Buffer) := do
  let ret ← b.peekInt n
  let b ← b.retrieve n
  return (ret, b)

def readInt64 (b : Buffer) : Option (BitVec 64 × Buffer) := b.readInt 8

/-- `readInt32` is declared to return `int64_t`: the value comes back sign extended. -/
def readInt32 (b : Buffer) : Option (BitVec 64 × Buffer) := do
  let (ret, b) ← b.readInt 4
  return (BitVec.signExtend 64 (ret : BitVec 32), b)

def readInt16 (b : Buffer) : Option (BitVec 16 × Buffer) := b.readInt 2
def readInt8 (b : Buffer) : Option (BitVec 8 × Buffer) := b.readInt 1

/-! ## 4. Whole-buffer operations -/

def swap (a b : Buffer) : Buffer × Buffer := (b, a)

def shrink (b : Buffer) (reserve : Nat) : Option Buffer := do
  -- a new buffer takes the content, and the two change places
  let other ← ofSize cInitialSize
  let other ← other.ensureWriteAbleBytes (sizeAdd b.readAbleBytes reserve)
  let content ← b.toString
  let other ← other.append content
  return (swap b other).1

end Buffer

end Netlib
