import Netlib.Lib.Run
import Netlib.Net.BufferSpec

/-!
# `Buffer` refines a byte queue

The abstract model of a buffer is a list of bytes: `append` adds at the end, `prepend` at the front,
`retrieve` drops from the front and `unWrite` from the end; making room and shrinking are invisible.
The runs below are over any family of buffers, so that `swap` is one of the steps.
-/

namespace Netlib

inductive BufferOp where
  | append (data : List UInt8)
  | appendInt64 (x : BitVec 64)
  | appendInt32 (x : BitVec 32)
  | appendInt16 (x : BitVec 16)
  | appendInt8 (x : BitVec 8)
  | prepend (data : List UInt8)
  | prependInt64 (x : BitVec 64)
  | prependInt32 (x : BitVec 32)
  | prependInt16 (x : BitVec 16)
  | prependInt8 (x : BitVec 8)
  | retrieve (n : Nat)
  | retrieveUntil (n : Nat)
  | retrieveAsString (n : Nat)
  | retrieveAllAsString
  | readInt64
  | readInt32
  | readInt16
  | readInt8
  | unWrite (n : Nat)
  | hasWritten (data : List UInt8)
  | ensureWriteAbleBytes (len : Nat)
  | shrink (reserve : Nat)
deriving DecidableEq, Repr

namespace BufferOp

/-- What the code does, the returned value left aside. -/
def exec (b : Buffer) : BufferOp → Option Buffer
  | append data => b.append data
  | appendInt64 x => b.appendInt64 x
  | appendInt32 x => b.appendInt32 x
  | appendInt16 x => b.appendInt16 x
  | appendInt8 x => b.appendInt8 x
  | prepend data => b.prepend data
  | prependInt64 x => b.prependInt64 x
  | prependInt32 x => b.prependInt32 x
  | prependInt16 x => b.prependInt16 x
  | prependInt8 x => b.prependInt8 x
  | retrieve n => b.retrieve n
  | retrieveUntil n => b.retrieveUntil (b.readerIndex + n)
  | retrieveAsString n => (b.retrieveAsString n).map Prod.snd
  | retrieveAllAsString => b.retrieveAllAsString.map Prod.snd
  | readInt64 => b.readInt64.map Prod.snd
  | readInt32 => b.readInt32.map Prod.snd
  | readInt16 => b.readInt16.map Prod.snd
  | readInt8 => b.readInt8.map Prod.snd
  | unWrite n => b.unWrite n
  -- the caller fills `beginWrite()` and then reports how much it wrote
  | hasWritten data => b.writeTail data >>= fun b ↦ b.hasWritten data.length
  | ensureWriteAbleBytes len => b.ensureWriteAbleBytes len
  | shrink reserve => b.shrink reserve

/-- The same operation on the abstract queue. -/
def onQueue (q : List UInt8) : BufferOp → List UInt8
  | append data => q ++ data
  | appendInt64 x => q ++ Buffer.beBytes 8 x
  | appendInt32 x => q ++ Buffer.beBytes 4 x
  | appendInt16 x => q ++ Buffer.beBytes 2 x
  | appendInt8 x => q ++ Buffer.beBytes 1 x
  | prepend data => data ++ q
  | prependInt64 x => Buffer.beBytes 8 x ++ q
  | prependInt32 x => Buffer.beBytes 4 x ++ q
  | prependInt16 x => Buffer.beBytes 2 x ++ q
  | prependInt8 x => Buffer.beBytes 1 x ++ q
  | retrieve n | retrieveUntil n | retrieveAsString n => q.drop n
  | retrieveAllAsString => q.drop q.length
  | readInt64 => q.drop 8
  | readInt32 => q.drop 4
  | readInt16 => q.drop 2
  | readInt8 => q.drop 1
  | unWrite n => q.take (q.length - n)
  | hasWritten data => q ++ data
  | ensureWriteAbleBytes _ => q
  | shrink _ => q

/-- How many of the readable bytes the operation takes away. -/
def takes : BufferOp → Nat
  | retrieve n | retrieveUntil n | retrieveAsString n | unWrite n => n
  | readInt64 => 8
  | readInt32 => 4
  | readInt16 => 2
  | readInt8 => 1
  | _ => 0

/-- How many bytes it puts into the prependable space. -/
def prepends : BufferOp → Nat
  | prepend data => data.length
  | prependInt64 _ => 8
  | prependInt32 _ => 4
  | prependInt16 _ => 2
  | prependInt8 _ => 1
  | _ => 0

/-- How many bytes it puts into the writable space without making room. -/
def fills : BufferOp → Nat
  | hasWritten data => data.length
  | _ => 0

/-- What a caller has to respect: take no more than there is, and put no more than there is room
for where the operation does not make room itself. -/
def Pre (b : Buffer) (op : BufferOp) : Prop :=
  op.takes ≤ b.readAbleBytes ∧ op.prepends ≤ b.prependAbleBytes ∧ op.fills ≤ b.writeAbleBytes

instance (b : Buffer) (op : BufferOp) : Decidable (Pre b op) := inferInstanceAs (Decidable (_ ∧ _))

/-- The size of the vector the operation leaves. -/
def storage (b : Buffer) : BufferOp → Nat
  | append data => b.storageAfter data.length
  | appendInt64 _ => b.storageAfter 8
  | appendInt32 _ => b.storageAfter 4
  | appendInt16 _ => b.storageAfter 2
  | appendInt8 _ => b.storageAfter 1
  | ensureWriteAbleBytes len => b.storageAfter len
  | shrink reserve => Buffer.fresh.storageAfter (b.readAbleBytes + reserve)
  | _ => b.buffer.length

/-- One operation on a well-formed buffer succeeds, leaves a well-formed buffer, does to the content
what it does to the queue, and leaves a vector of the size `storage` names. -/
def Refines (b : Buffer) (op : BufferOp) : Prop :=
  ∃ b', op.exec b = some b' ∧ b'.Wf ∧ b'.content = op.onQueue b.content ∧
    b'.buffer.length = op.storage b

theorem refines_of_appendInt {b : Buffer} (h : b.Wf) {n : Nat} (x : BitVec (8 * n))
    (hfit : b.storageAfter n < 2 ^ 31) :
    ∃ b', b.appendInt n x = some b' ∧ b'.Wf ∧ b'.content = b.content ++ Buffer.beBytes n x ∧
      b'.buffer.length = b.storageAfter n := by
  have hspec := h.append_spec (Buffer.beBytes n x)
  rw [Buffer.beBytes_length] at hspec
  exact hspec hfit

theorem refines_of_prependInt {b : Buffer} (h : b.Wf) {n : Nat} (x : BitVec (8 * n))
    (hroom : n ≤ b.prependAbleBytes) :
    ∃ b', b.prependInt n x = some b' ∧ b'.Wf ∧ b'.content = Buffer.beBytes n x ++ b.content ∧
      b'.buffer.length = b.buffer.length := by
  have hspec := h.prepend_spec (Buffer.beBytes n x)
  rw [Buffer.beBytes_length] at hspec
  exact hspec hroom

theorem refines_of_readInt {b : Buffer} (h : b.Wf) {n : Nat} (hn : n ≤ b.readAbleBytes) :
    ∃ b', (b.readInt n).map Prod.snd = some b' ∧ b'.Wf ∧ b'.content = b.content.drop n ∧
      b'.buffer.length = b.buffer.length := by
  obtain ⟨b', he, hwf, hc, hlen⟩ := h.readInt_spec hn
  exact ⟨b', by rw [he]; rfl, hwf, hc, hlen⟩

theorem exec_refines {b : Buffer} (h : b.Wf) (op : BufferOp) (hpre : op.Pre b)
    (hfit : op.storage b < 2 ^ 31) : op.Refines b := by
  obtain ⟨htake, hprepend, hfill⟩ := hpre
  cases op with
  | append data => exact h.append_spec data hfit
  | appendInt64 x => exact refines_of_appendInt h (n := 8) x hfit
  | appendInt32 x => exact refines_of_appendInt h (n := 4) x hfit
  | appendInt16 x => exact refines_of_appendInt h (n := 2) x hfit
  | appendInt8 x => exact refines_of_appendInt h (n := 1) x hfit
  | prepend data => exact h.prepend_spec data hprepend
  | prependInt64 x => exact refines_of_prependInt h (n := 8) x hprepend
  | prependInt32 x => exact refines_of_prependInt h (n := 4) x hprepend
  | prependInt16 x => exact refines_of_prependInt h (n := 2) x hprepend
  | prependInt8 x => exact refines_of_prependInt h (n := 1) x hprepend
  | retrieve n => exact h.retrieve_spec htake
  | retrieveUntil n =>
    obtain ⟨b', he, hrest⟩ := h.retrieve_spec htake
    exact ⟨b', (h.retrieveUntil_spec htake).trans he, hrest⟩
  | retrieveAsString n =>
    obtain ⟨b', he, hrest⟩ := h.retrieveAsString_spec (n := n) htake
    exact ⟨b', by rw [exec, he]; rfl, hrest⟩
  | retrieveAllAsString =>
    obtain ⟨b', he, hwf, hc, hlen⟩ := h.retrieveAsString_spec (Nat.le_refl b.readAbleBytes)
    refine ⟨b', by rw [exec, Buffer.retrieveAllAsString, he]; rfl, hwf, ?_, hlen⟩
    rw [hc, onQueue, h.content_length]
  | readInt64 => exact refines_of_readInt h (n := 8) htake
  | readInt32 =>
    -- the sign extension touches the returned value only
    obtain ⟨b', he, hrest⟩ := h.readInt_spec (n := 4) htake
    refine ⟨b', ?_, hrest⟩
    rw [exec, Buffer.readInt32, he]
    rfl
  | readInt16 => exact refines_of_readInt h (n := 2) htake
  | readInt8 => exact refines_of_readInt h (n := 1) htake
  | unWrite n => exact h.unWrite_spec htake
  | hasWritten data => exact h.hasWritten_spec hfill
  | ensureWriteAbleBytes len =>
    obtain ⟨b', he, hwf, hc, -, hlen⟩ := h.ensureWriteAbleBytes_spec hfit
    exact ⟨b', he, hwf, hc, hlen⟩
  | shrink reserve => exact h.shrink_spec hfit

end BufferOp

/-! ## Runs over a family of buffers -/

inductive BufferCmd (ι : Type) where
  | on (i : ι) (op : BufferOp)
  | swap (i j : ι)

namespace BufferCmd

variable {ι : Type} [DecidableEq ι]

def exec (s : ι → Buffer) : BufferCmd ι → Option (ι → Buffer)
  | on i op => (op.exec (s i)).map (Function.update s i)
  | swap i j =>
    let (a, b) := Buffer.swap (s i) (s j)
    some (Function.update (Function.update s i a) j b)

def onQueue (q : ι → List UInt8) : BufferCmd ι → (ι → List UInt8)
  | on i op => Function.update q i (op.onQueue (q i))
  | swap i j => Function.update (Function.update q i (q j)) j (q i)

/-- The caller's side of an operation, and the vector below 2^31 bytes after it. -/
def Allowed (s : ι → Buffer) : BufferCmd ι → Prop
  | on i op => op.Pre (s i) ∧ op.storage (s i) < 2 ^ 31
  | swap _ _ => True

instance (s : ι → Buffer) (cmd : BufferCmd ι) : Decidable (Allowed s cmd) :=
  match cmd with
  | on _ _ => inferInstanceAs (Decidable (_ ∧ _))
  | swap _ _ => inferInstanceAs (Decidable True)

/-- Every buffer of the family is well formed and holds the bytes of its queue. -/
def Simulates (s : ι → Buffer) (q : ι → List UInt8) : Prop :=
  ∀ i, (s i).Wf ∧ (s i).content = q i

theorem exec_simulates {s : ι → Buffer} {q : ι → List UInt8} (h : Simulates s q)
    (cmd : BufferCmd ι) (hok : cmd.Allowed s) :
    ∃ t, cmd.exec s = some t ∧ Simulates t (cmd.onQueue q) := by
  cases cmd with
  | on i op =>
    obtain ⟨b', he, hwf, hc, -⟩ := op.exec_refines (h i).1 hok.1 hok.2
    refine ⟨Function.update s i b', by rw [exec, he]; rfl, fun k ↦ ?_⟩
    by_cases hk : k = i
    · subst hk
      simp only [onQueue, Function.update_self]
      exact ⟨hwf, by rw [hc, (h k).2]⟩
    · simp only [onQueue, Function.update_of_ne hk]
      exact h k
  | swap i j =>
    refine ⟨_, rfl, fun k ↦ ?_⟩
    simp only [onQueue]
    -- `j` is written last, so it wins when the two are one
    by_cases hj : k = j
    · subst hj
      simp only [Function.update_self]
      exact h i
    · by_cases hi : k = i
      · subst hi
        simp only [Function.update_of_ne hj, Function.update_self]
        exact h j
      · simp only [Function.update_of_ne hj, Function.update_of_ne hi]
        exact h k

theorem run_simulates (cmds : List (BufferCmd ι)) {s : ι → Buffer} {q : ι → List UInt8}
    (h : Simulates s q) (hok : Trace.Along exec Allowed s cmds) :
    ∃ t, Trace.run exec s cmds = some t ∧ Simulates t (cmds.foldl onQueue q) := by
  -- on the commands, with the buffers and their queues in step
  induction cmds generalizing s q with
  | nil => exact ⟨s, rfl, h⟩
  | cons cmd cmds ih =>
    obtain ⟨m, hm, hsim⟩ := exec_simulates h cmd hok.1
    obtain ⟨t, ht, hsim'⟩ := ih hsim (hok.2 m hm)
    exact ⟨t, Trace.run_cons_eq_some.mpr ⟨m, hm, ht⟩, hsim'⟩

end BufferCmd

/-- **Refinement.**  From `Buffer()`, any sequence of operations that respects the callers' side and
keeps the storage below 2^31 bytes runs through without a failing assert or an access outside the
vector.  After it the indices are in order and `toString` is the content of the abstract queue. -/
theorem Buffer.refines_queue {ι : Type} [DecidableEq ι] (cmds : List (BufferCmd ι))
    (hok : Trace.Along BufferCmd.exec BufferCmd.Allowed (fun _ ↦ Buffer.fresh) cmds) :
    Buffer.ofSize cInitialSize = some Buffer.fresh ∧
      ∃ s, Trace.run BufferCmd.exec (fun _ ↦ Buffer.fresh) cmds = some s ∧
        ∀ i, 0 ≤ (s i).readerIndex ∧ (s i).readerIndex ≤ (s i).writerIndex ∧
          (s i).writerIndex ≤ (s i).buffer.length ∧ 8 ≤ (s i).buffer.length ∧
          (s i).toString = some (cmds.foldl BufferCmd.onQueue (fun _ ↦ []) i) := by
  refine ⟨Buffer.ofSize_eq _, ?_⟩
  have hinit : BufferCmd.Simulates (fun _ : ι ↦ Buffer.fresh) (fun _ ↦ []) :=
    fun _ ↦ ⟨Buffer.fresh_wf, Buffer.fresh_content⟩
  obtain ⟨s, hs, hsim⟩ := BufferCmd.run_simulates cmds hinit hok
  refine ⟨s, hs, fun i ↦ ?_⟩
  obtain ⟨hwf, hc⟩ := hsim i
  exact ⟨hwf.reader_nonneg, hwf.reader_le_writer, hwf.writer_le_size, hwf.cheapPrepend_le_size,
    by rw [hwf.toString_eq, hc]⟩

theorem Buffer.refines_queue_two_buffers :
    ∃ s, Trace.run BufferCmd.exec (fun _ : Bool ↦ Buffer.fresh)
        [.on false (.append [1, 2, 3]), .on false (.prependInt16 258), .on false (.retrieve 1),
          .on true (.ensureWriteAbleBytes 2000), .swap false true, .on true (.unWrite 1),
          .on true (.shrink 10)] = some s ∧
      (s false).toString = some [] ∧ (s true).toString = some [2, 1, 2] := by
  obtain ⟨-, s, hs, h⟩ := Buffer.refines_queue (ι := Bool)
    [.on false (.append [1, 2, 3]), .on false (.prependInt16 258), .on false (.retrieve 1),
      .on true (.ensureWriteAbleBytes 2000), .swap false true, .on true (.unWrite 1),
      .on true (.shrink 10)] (by decide +kernel)
  exact ⟨s, hs, (h false).2.2.2.2.trans (by decide +kernel),
    (h true).2.2.2.2.trans (by decide +kernel)⟩

end Netlib
