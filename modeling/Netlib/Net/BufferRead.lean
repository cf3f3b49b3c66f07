import Netlib.Net.BufferQueue

/-!
# `Buffer::readFd`

One `readv` into the writable tail and, when that is short, into a buffer on the stack.  What came
after the tail is appended once the tail is full.  The kernel's answer is an argument.
-/

open Storage

namespace Netlib

/-- What `readv` comes back with: `-1` and `errno`, or the bytes it has stored. -/
inductive Readv where
  | error (errno : Int)
  | bytes (data : List UInt8)
deriving DecidableEq, Repr

namespace Buffer

/-- `sizeof extrabuf`. -/
def extrabufSize : Nat := 65536

/-- The lengths of the iovecs that `readFd` passes. -/
def iovecs (b : Buffer) : List Nat :=
  if b.writeAbleBytes < extrabufSize then [b.writeAbleBytes, extrabufSize] else [b.writeAbleBytes]

/-- How the bytes that came spread over the iovecs, the first one filled first. -/
def scatter : List Nat → List UInt8 → List (List UInt8)
  | [], _ => []
  | len :: lens, data => data.take len :: scatter lens (data.drop len)

/-- The return value, `*savedErrno` and the buffer; `savedErrno` is what the caller had there. -/
def readFd (b : Buffer) (savedErrno : Int) : Readv → Option (Int × Int × Buffer)
  | .error errno => some (-1, errno, b)
  | .bytes data => do
    let n := data.length
    let writeAble := b.writeAbleBytes
    let filled := scatter b.iovecs data
    let b ← b.writeTail (filled.getD 0 [])
    -- what `readv` has put into extrabuf; the rest of it is indeterminate
    let extrabuf := filled.getD 1 []
    if n ≤ writeAble then
      return ((n : Int), savedErrno, { b with writerIndex := Int.bmod (b.writerIndex + n) (2 ^ 32) })
    else do
      let b : Buffer := { b with writerIndex := intOfSize b.buffer.length }
      let rest ← slice extrabuf 0 (n - writeAble)
      let b ← b.append rest
      return ((n : Int), savedErrno, b)

/-- `readv` stores no more than the iovecs hold. -/
def Delivers (b : Buffer) (data : List UInt8) : Prop := data.length ≤ b.iovecs.sum

instance (b : Buffer) (data : List UInt8) : Decidable (Delivers b data) :=
  inferInstanceAs (Decidable (_ ≤ _))

/-- The size of the vector after `n` bytes were read: the tail takes what it can, and for the rest
there is no room but in front. -/
def storageRead (b : Buffer) (n : Nat) : Nat :=
  if b.writeAbleBytes < n ∧ b.prependAbleBytes < n - b.writeAbleBytes + cCheapPrepend then
    b.buffer.length + (n - b.writeAbleBytes)
  else b.buffer.length

/-! ## 1. What a read does to a well-formed buffer -/

theorem scatter_tail (b : Buffer) (data : List UInt8) :
    (scatter b.iovecs data).getD 0 [] = data.take b.writeAbleBytes := by
  unfold iovecs
  split <;> rfl

/-- The stack buffer is passed whenever the tail may run short of what `readv` can store. -/
theorem scatter_extrabuf {b : Buffer} {data : List UInt8} (hd : b.Delivers data)
    (hlong : b.writeAbleBytes < data.length) :
    (scatter b.iovecs data).getD 1 [] = data.drop b.writeAbleBytes := by
  unfold Delivers iovecs at *
  split at hd
  · rw [if_pos ‹_›]
    simp only [List.sum_cons, List.sum_nil] at hd
    show (data.drop _).take extrabufSize = _
    exact List.take_of_length_le (by rw [List.length_drop]; omega)
  · -- one iovec only: `readv` cannot have stored more than the tail
    simp only [List.sum_cons, List.sum_nil] at hd
    omega

/-- All of it went into the tail. -/
theorem Wf.readFd_fits {b : Buffer} (h : b.Wf) (savedErrno : Int) {data : List UInt8}
    (hn : data.length ≤ b.writeAbleBytes) :
    ∃ xs, xs.length = b.buffer.length ∧ Wf ⟨xs, b.readerIndex, b.writerIndex + data.length⟩ ∧
      content ⟨xs, b.readerIndex, b.writerIndex + data.length⟩ = b.content ++ data ∧
      b.readFd savedErrno (.bytes data) =
        some ((data.length : Int), savedErrno,
          ⟨xs, b.readerIndex, b.writerIndex + data.length⟩) := by
  obtain ⟨xs, hwrite, hlen, hwf, hc⟩ := h.tail_filled hn
  have hsize : xs.length < 2 ^ 31 := hwf.size_lt
  have hwriter := h.reader_nonneg.trans h.reader_le_writer
  have hle : b.writerIndex + data.length ≤ xs.length := hwf.writer_le_size
  have hbmod : Int.bmod (b.writerIndex + data.length) (2 ^ 32) = b.writerIndex + data.length :=
    Int.bmod_eq_of_le (by omega) (by omega)
  refine ⟨xs, hlen, hwf, hc, ?_⟩
  simp only [readFd]
  rw [scatter_tail, List.take_of_length_le hn, hwrite, Option.bind_eq_bind, Option.bind_some,
    if_pos hn]
  dsimp only
  rw [hbmod]
  rfl

/-- The tail is full, and the rest is appended behind it. -/
theorem Wf.readFd_overflows {b : Buffer} (h : b.Wf) (savedErrno : Int) {data : List UInt8}
    (hd : b.Delivers data) (hlong : b.writeAbleBytes < data.length) :
    ∃ xs, xs.length = b.buffer.length ∧ Wf ⟨xs, b.readerIndex, xs.length⟩ ∧
      content ⟨xs, b.readerIndex, xs.length⟩ = b.content ++ data.take b.writeAbleBytes ∧
      b.readFd savedErrno (.bytes data) =
        (append ⟨xs, b.readerIndex, xs.length⟩ (data.drop b.writeAbleBytes)).map
          fun b' ↦ ((data.length : Int), savedErrno, b') := by
  have hroom : b.writerIndex + b.writeAbleBytes = b.buffer.length := by
    obtain ⟨xs, r, w, rfl, hrw, hw, h8, hs⟩ := h.offsets
    rw [writeAbleBytes_mk hw hs]
    show (w : Int) + _ = (xs.length : Int)
    omega
  have htake : (data.take b.writeAbleBytes).length = b.writeAbleBytes := by
    rw [List.length_take]
    omega
  have hrest : (data.drop b.writeAbleBytes).length = data.length - b.writeAbleBytes :=
    List.length_drop
  obtain ⟨xs, hwrite, hlen, hwf, hc⟩ := h.tail_filled htake.le
  rw [htake, hroom, ← hlen] at hwf hc
  refine ⟨xs, hlen, hwf, hc, ?_⟩
  have hslice : slice (data.drop b.writeAbleBytes) 0 (data.length - b.writeAbleBytes) =
      some (data.drop b.writeAbleBytes) := by
    have hall : slice (data.drop b.writeAbleBytes) ((0 : Nat) : Int)
        (data.length - b.writeAbleBytes) = _ := slice_natCast (by omega)
    rw [List.drop_zero, List.take_of_length_le (by omega)] at hall
    exact hall
  simp only [readFd]
  rw [scatter_tail, hwrite, Option.bind_eq_bind, Option.bind_some, if_neg (by omega),
    scatter_extrabuf hd hlong]
  dsimp only
  rw [hslice, Option.bind_eq_bind, Option.bind_some, intOfSize_of_lt hwf.size_lt]
  cases append ⟨xs, b.readerIndex, xs.length⟩ (data.drop b.writeAbleBytes) <;> rfl

theorem Wf.writeAbleBytes_full {xs : List UInt8} {r : Int} (h : Wf ⟨xs, r, xs.length⟩) :
    writeAbleBytes ⟨xs, r, xs.length⟩ = 0 := by
  have hs : xs.length < 2 ^ 31 := h.size_lt
  show sizeSub xs.length (sizeOfInt (xs.length : Int)) = 0
  rw [sizeOfInt_natCast (by omega), sizeSub_of_le (by omega) (by omega), Nat.sub_self]

/-- The rest makes as much room behind the full tail as `storageRead` says. -/
theorem Wf.storageAfter_full {b : Buffer} {xs : List UInt8} {n : Nat}
    (h : Wf ⟨xs, b.readerIndex, xs.length⟩) (hlen : xs.length = b.buffer.length)
    (hlong : b.writeAbleBytes < n) :
    storageAfter ⟨xs, b.readerIndex, xs.length⟩ (n - b.writeAbleBytes) = b.storageRead n := by
  have hp : prependAbleBytes ⟨xs, b.readerIndex, xs.length⟩ = b.prependAbleBytes := rfl
  unfold storageAfter storageRead
  rw [h.writeAbleBytes_full, hp, Int.toNat_natCast, Nat.zero_add, ← hlen]
  congr 1
  exact propext ⟨fun ⟨_, hfew⟩ ↦ ⟨hlong, hfew⟩, fun ⟨_, hfew⟩ ↦ ⟨by omega, hfew⟩⟩

/-- A read of bytes appends them, wherever the tail ends. -/
theorem Wf.readFd_spec {b : Buffer} (h : b.Wf) (savedErrno : Int) {data : List UInt8}
    (hd : b.Delivers data) (hfit : b.storageRead data.length < 2 ^ 31) :
    ∃ b', b.readFd savedErrno (.bytes data) = some ((data.length : Int), savedErrno, b') ∧ b'.Wf ∧
      b'.content = b.content ++ data ∧ b'.buffer.length = b.storageRead data.length := by
  by_cases hn : data.length ≤ b.writeAbleBytes
  · obtain ⟨xs, hlen, hwf, hc, he⟩ := h.readFd_fits savedErrno hn
    refine ⟨_, he, hwf, hc, ?_⟩
    unfold storageRead
    rw [if_neg (by omega)]
    exact hlen
  · obtain ⟨xs, hlen, hwf, hc, he⟩ := h.readFd_overflows savedErrno hd (by omega)
    have hstore := hwf.storageAfter_full hlen (Nat.lt_of_not_le hn)
    rw [← List.length_drop] at hstore
    obtain ⟨b', happ, hwf', hc', hlen'⟩ := hwf.append_spec (data.drop b.writeAbleBytes)
      (by rw [hstore]; exact hfit)
    refine ⟨b', by rw [he, happ]; rfl, hwf', ?_, by rw [hlen', hstore]⟩
    rw [hc', hc, List.append_assoc, List.take_append_drop]

/-! ## 2. Reachable buffers -/

/-- The buffers that a run made of the operations in `Ops` and of reads leads to, the storage below
2^31 bytes after each step.  `swap` needs no case: each of the two is then the other one's buffer. -/
inductive ReachableBy (Ops : BufferOp → Prop) : Buffer → Prop
  | ofSize {b : Buffer} (initialSize : Nat) : ofSize initialSize = some b → ReachableBy Ops b
  | exec {b b' : Buffer} (op : BufferOp) : ReachableBy Ops b → Ops op → op.Pre b →
      op.storage b < 2 ^ 31 → op.exec b = some b' → ReachableBy Ops b'
  | readFd {b b' : Buffer} {n savedErrno savedErrno' : Int} (data : List UInt8) :
      ReachableBy Ops b → b.Delivers data → b.storageRead data.length < 2 ^ 31 →
      b.readFd savedErrno (.bytes data) = some (n, savedErrno', b') → ReachableBy Ops b'

/-- Reachable by all operations. -/
abbrev Reachable : Buffer → Prop := ReachableBy fun _ ↦ True

theorem ReachableBy.wf {Ops : BufferOp → Prop} {b : Buffer} (h : ReachableBy Ops b) : b.Wf := by
  induction h with
  | ofSize n hb =>
    rw [ofSize_eq] at hb
    cases hb
    exact fresh_wf
  | exec op _ _ hpre hfit he ih =>
    obtain ⟨b', he', hwf, -⟩ := op.exec_refines ih hpre hfit
    rw [he] at he'
    cases he'
    exact hwf
  | readFd data _ hd hfit he ih =>
    obtain ⟨b', he', hwf, -⟩ := ih.readFd_spec _ hd hfit
    rw [he] at he'
    cases he'
    exact hwf

/-- **Scatter read.**  A failed `readv` leaves the buffer as it was and its error in `*savedErrno`;
one that has stored bytes has them appended, in order. -/
theorem readFd_appends {b : Buffer} (h : b.Reachable) (savedErrno : Int) :
    (∀ errno, b.readFd savedErrno (.error errno) = some (-1, errno, b)) ∧
    ∀ data, b.Delivers data → b.storageRead data.length < 2 ^ 31 →
      ∃ b', b.readFd savedErrno (.bytes data) = some ((data.length : Int), savedErrno, b') ∧
        b'.content = b.content ++ data ∧ b'.toString = some (b.content ++ data) ∧
        0 ≤ b'.readerIndex ∧ b'.readerIndex ≤ b'.writerIndex ∧
        b'.writerIndex ≤ b'.buffer.length := by
  refine ⟨fun errno ↦ rfl, fun data hd hfit ↦ ?_⟩
  obtain ⟨b', he, hwf, hc, -⟩ := h.wf.readFd_spec savedErrno hd hfit
  exact ⟨b', he, hc, by rw [hwf.toString_eq, hc], hwf.reader_nonneg, hwf.reader_le_writer,
    hwf.writer_le_size⟩

/-- Six bytes more than the tail of a new buffer holds: the vector grows under them. -/
theorem readFd_appends_past_tail :
    ∃ b', fresh.readFd 0 (.bytes (List.replicate 1030 7)) = some (1030, 0, b') ∧
      b'.content = List.replicate 1030 7 := by
  obtain ⟨b', he, hc, -⟩ := (readFd_appends (.ofSize 0 (ofSize_eq 0)) 0).2 (List.replicate 1030 7)
    (by decide +kernel) (by decide +kernel)
  rw [fresh_content, List.nil_append] at hc
  rw [List.length_replicate, Nat.cast_ofNat] at he
  exact ⟨b', he, hc⟩

end Buffer

end Netlib
