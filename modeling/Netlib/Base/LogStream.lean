import Mathlib

/-!
# `netlib::FixedBuffer`

The byte array behind a log record and behind the buffers of the asynchronous logger
(`base/LogStream.h`).  The model keeps the bytes in front of `_cur`; what lies behind it in the array
is never read.
-/

namespace Netlib

def cSmallBuffer : Nat := 4000
def cLargeBuffer : Nat := 4000 * 1000

structure FixedBuffer (size : Nat) where
  data : List UInt8
  /-- `_cur` does not pass the end of the array. -/
  fits : data.length ≤ size
deriving DecidableEq

namespace FixedBuffer

variable {size : Nat}

def empty : FixedBuffer size := ⟨[], Nat.zero_le size⟩

def length (b : FixedBuffer size) : Nat := b.data.length

def vaild (b : FixedBuffer size) : Nat := size - b.data.length

/-- A piece that does not fit with a byte to spare is dropped as a whole. -/
def append (b : FixedBuffer size) (buf : List UInt8) : FixedBuffer size :=
  if h : buf.length < b.vaild then
    ⟨b.data ++ buf, by unfold vaild at h; rw [List.length_append]; omega⟩
  else b

def reset (_b : FixedBuffer size) : FixedBuffer size := empty

theorem append_data {b : FixedBuffer size} {buf : List UInt8} (h : buf.length < b.vaild) :
    (b.append buf).data = b.data ++ buf := by
  unfold append
  rw [dif_pos h]

theorem vaild_of_data_nil {b : FixedBuffer size} (h : b.data = []) : b.vaild = size := by
  unfold vaild
  rw [h, List.length_nil, Nat.sub_zero]

end FixedBuffer

end Netlib
