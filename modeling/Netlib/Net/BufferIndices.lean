import Netlib.Net.BufferStorage

/-!
# Runs of `append` and `retrieve` with lengths of any size

The two indices are `int`, the lengths `size_t`.  As long as the vector stays below 2^31 bytes the
calls count the bytes they should; the first `append` past that wraps the writer index.
-/

open Storage

namespace Netlib

namespace BufferOp

/-- The queue behind a call, as a machine of its own. -/
def queueStep (q : List UInt8) (op : BufferOp) : Option (List UInt8) := some (op.onQueue q)

/-- The calls of such a run: `size_t` lengths, and no more to retrieve than there is. -/
def Callable (q : List UInt8) : BufferOp → Prop
  | append data => data.length < 2 ^ 64
  | retrieve n => n ≤ q.length
  | _ => False

instance (q : List UInt8) (op : BufferOp) : Decidable (Callable q op) :=
  match op with
  | append data => inferInstanceAs (Decidable (data.length < 2 ^ 64))
  | retrieve n => inferInstanceAs (Decidable (n ≤ q.length))
  | appendInt64 _ | appendInt32 _ | appendInt16 _ | appendInt8 _ => .isFalse id
  | prepend _ | prependInt64 _ | prependInt32 _ | prependInt16 _ | prependInt8 _ => .isFalse id
  | retrieveUntil _ | retrieveAsString _ | retrieveAllAsString => .isFalse id
  | readInt64 | readInt32 | readInt16 | readInt8 => .isFalse id
  | unWrite _ | hasWritten _ | ensureWriteAbleBytes _ | shrink _ => .isFalse id

/-- The bytes that the calls append. -/
def appended (calls : List BufferOp) : Nat :=
  (calls.map fun
    | append data => data.length
    | _ => 0).sum

/-- The bytes that the calls retrieve. -/
def retrieved (calls : List BufferOp) : Nat :=
  (calls.map fun
    | retrieve n => n
    | _ => 0).sum

theorem queue_length {q : List UInt8} {calls : List BufferOp}
    (hcall : Trace.Along queueStep Callable q calls) :
    (calls.foldl onQueue q).length + retrieved calls = q.length + appended calls := by
  induction calls generalizing q with
  | nil => rfl
  | cons op calls ih =>
    obtain ⟨hop, hrest⟩ := hcall
    have hlen := ih (hrest _ rfl)
    rw [List.foldl_cons]
    cases op with
    | append data =>
      simp only [onQueue, List.length_append] at hlen
      simp only [appended, retrieved, List.map_cons, List.sum_cons, onQueue] at hlen ⊢
      omega
    | retrieve n =>
      have hn : n ≤ q.length := hop
      simp only [onQueue, List.length_drop] at hlen
      simp only [appended, retrieved, List.map_cons, List.sum_cons, onQueue] at hlen ⊢
      omega
    | _ => exact absurd hop id

theorem Callable.pre {b : Buffer} {op : BufferOp} (h : b.Wf) (hop : Callable b.content op) :
    op.Pre b := by
  cases op with
  | append data => exact ⟨Nat.zero_le _, Nat.zero_le _, Nat.zero_le _⟩
  | retrieve n =>
    have hn : n ≤ b.content.length := hop
    rw [h.content_length] at hn
    exact ⟨hn, Nat.zero_le _, Nat.zero_le _⟩
  | _ => exact absurd hop id

/-- The vector stays below 2^31 bytes. -/
def Fits (b : Buffer) (op : BufferOp) : Prop := op.storage b < 2 ^ 31

instance (b : Buffer) (op : BufferOp) : Decidable (Fits b op) := inferInstanceAs (Decidable (_ < _))

theorem run_callable {b : Buffer} {calls : List BufferOp} (h : b.Wf)
    (hcall : Trace.Along queueStep Callable b.content calls)
    (hfit : Trace.Along exec Fits b calls) :
    ∃ b', Trace.run exec b calls = some b' ∧ b'.Wf ∧
      b'.content = calls.foldl onQueue b.content := by
  -- on the calls, the buffer and its queue in step
  induction calls generalizing b with
  | nil => exact ⟨b, rfl, h, rfl⟩
  | cons op calls ih =>
    obtain ⟨b₁, he, hwf, hc, -⟩ := op.exec_refines h (hcall.1.pre h) hfit.1
    have hrest := hcall.2 _ rfl
    rw [← hc] at hrest
    obtain ⟨b', hrun, hwf', hc'⟩ := ih hwf hrest (hfit.2 b₁ he)
    exact ⟨b', Trace.run_cons_eq_some.mpr ⟨b₁, he, hrun⟩, hwf', by rw [hc', hc]; rfl⟩

end BufferOp

namespace Buffer

/-- The buffer accounts for the bytes of `q`, and its indices are in order. -/
structure Exact (b : Buffer) (q : List UInt8) : Prop where
  reader_nonneg : 0 ≤ b.readerIndex
  reader_le_writer : b.readerIndex ≤ b.writerIndex
  writer_le_size : b.writerIndex ≤ b.buffer.length
  readAble : b.readAbleBytes = q.length
  writeAble : b.writeAbleBytes ≤ b.buffer.length
  toString : b.toString = some q

theorem Wf.exact {b : Buffer} (h : b.Wf) : b.Exact b.content where
  reader_nonneg := h.reader_nonneg
  reader_le_writer := h.reader_le_writer
  writer_le_size := h.writer_le_size
  readAble := h.content_length.symm
  writeAble := by
    obtain ⟨xs, r, w, rfl, hrw, hw, h8, hs⟩ := h.offsets
    rw [writeAbleBytes_mk hw hs]
    exact Nat.sub_le _ _
  toString := h.toString_eq

/-! ## 1. An append past 2^31 bytes -/

/-- Where the vector grows, `append` writes right behind the content and sets the writer index to
the new size, whatever an `int` makes of it. -/
theorem append_grow {xs data : List UInt8} {r w : Nat} (hw : w ≤ xs.length)
    (hs : xs.length < 2 ^ 31) (hr : r < 2 ^ 31) (hneed : xs.length - w < data.length)
    (hfew : xs.length - w + r < data.length + cCheapPrepend)
    (hlen : w + data.length + cCheapPrepend < 2 ^ 64) :
    ∃ ys, ys.length = w + data.length ∧
      append ⟨xs, r, w⟩ data = some ⟨ys, r, intOfSize (w + data.length)⟩ := by
  have hgrow : (resize xs (w + data.length) (0 : UInt8)).length = w + data.length := by
    rw [resize_of_le (by omega), List.length_append, List.length_replicate]
    omega
  have hwrite := overwrite_natCast (resize xs (w + data.length) 0) data w (by omega)
  generalize hys : List.take w (resize xs (w + data.length) 0) ++ data ++
    List.drop (w + data.length) (resize xs (w + data.length) 0) = ys at hwrite
  have hylen : ys.length = w + data.length := by
    rw [← hys, List.length_append, List.length_append, List.length_take, List.length_drop]
    omega
  -- the new room is counted without the `int`s: the writer index has not moved yet
  have hroom {zs : List UInt8} (hz : zs.length = w + data.length) :
      writeAbleBytes ⟨zs, r, w⟩ = data.length := by
    unfold writeAbleBytes
    dsimp only
    rw [sizeOfInt_natCast (by omega), sizeSub_of_le (by omega) (by omega)]
    omega
  refine ⟨ys, hylen, ?_⟩
  unfold append ensureWriteAbleBytes
  rw [writeAbleBytes_mk hw hs, if_pos hneed, makeSpace_grow hw hs hr hfew hlen]
  simp only [Option.bind_eq_bind, Option.bind_some]
  rw [hroom hgrow, assert_of (Nat.le_refl _), Option.bind_some]
  simp only [writeTail, hwrite, Option.bind_eq_bind, Option.bind_some, pure, hasWritten]
  rw [hroom hylen, assert_of (Nat.le_refl _), Option.bind_some, sizeOfInt_natCast (by omega),
    sizeAdd_of_lt (by omega)]

theorem append_writer {b b' : Buffer} {data : List UInt8} (he : b.append data = some b') :
    ∃ n, b'.writerIndex = intOfSize n := by
  unfold append hasWritten at he
  simp only [Option.bind_eq_bind, Option.bind_eq_some_iff] at he
  obtain ⟨b₁, -, b₂, -, _, -, he⟩ := he
  refine ⟨sizeAdd (sizeOfInt b₂.writerIndex) data.length, ?_⟩
  rw [← Option.some.inj he]

/-- An append that leaves the bytes accounted for has not made the vector reach 2^31 bytes. -/
theorem Wf.storageAfter_lt_of_exact {b b' : Buffer} (h : b.Wf) {data : List UInt8}
    (he : b.append data = some b') (hexact : b'.Exact (b.content ++ data)) :
    b.storageAfter data.length < 2 ^ 31 := by
  -- the writer index is an `int`, so the readable bytes are fewer than 2^31
  have hwriter : b'.writerIndex < 2 ^ 31 := by
    obtain ⟨n, hn⟩ := append_writer he
    rw [hn]
    exact intOfSize_lt n
  have hlen : data.length < 2 ^ 31 := by
    have hread := hexact.readAble
    obtain ⟨r', hr'⟩ := Int.eq_ofNat_of_zero_le hexact.reader_nonneg
    obtain ⟨w', hw'⟩ := Int.eq_ofNat_of_zero_le
      (hexact.reader_nonneg.trans hexact.reader_le_writer)
    have hle := hexact.reader_le_writer
    rw [hr', hw'] at hle
    rw [hw'] at hwriter
    unfold readAbleBytes at hread
    rw [hr', hw', intSub_natCast (by omega) (by omega), sizeOfInt_natCast (by omega),
      List.length_append] at hread
    omega
  by_contra hbig
  obtain ⟨xs, r, w, rfl, hrw, hw, h8, hs⟩ := h.offsets
  have hcheap : cCheapPrepend = 8 := rfl
  unfold storageAfter at hbig
  rw [writeAbleBytes_mk hw hs, prependAbleBytes_mk (by omega), Int.toNat_natCast] at hbig
  by_cases hfew : xs.length - w < data.length ∧
      xs.length - w + r < data.length + cCheapPrepend
  · -- the vector grew to a size that is negative as an `int`
    rw [if_pos hfew] at hbig
    obtain ⟨ys, -, he'⟩ := append_grow hw hs (by omega) hfew.1 hfew.2 (by omega)
    obtain rfl := Option.some.inj (he.symm.trans he')
    have hneg := intOfSize_of_ge (n := w + data.length) (by omega) (by omega)
    have hnonneg := hexact.reader_nonneg.trans hexact.reader_le_writer
    dsimp only at hnonneg
    omega
  · rw [if_neg hfew] at hbig
    exact hbig hs

/-- Past 2^31 bytes every count is wrong and `toString` gives up. -/
theorem append_wraps {data : List UInt8} (hlen : data.length = 2 ^ 31) :
    ∃ b, fresh.append data = some b ∧ b.readAbleBytes = 2 ^ 64 - 2 ^ 31 ∧
      b.buffer.length < b.writeAbleBytes ∧ b.toString = none := by
  have hsize : fresh.buffer.length = cCheapPrepend + cInitialSize := List.length_replicate
  have hw : cCheapPrepend ≤ fresh.buffer.length := by
    rw [hsize]
    exact Nat.le_add_right _ _
  have hcheap : cCheapPrepend = 8 := rfl
  have hinit : cInitialSize = 1024 := rfl
  obtain ⟨ys, hys, he⟩ : ∃ ys, ys.length = cCheapPrepend + data.length ∧
      fresh.append data = some ⟨ys, cCheapPrepend, intOfSize (cCheapPrepend + data.length)⟩ :=
    append_grow hw (by omega) (by omega) (by omega) (by omega) (by omega)
  have hwriter := intOfSize_of_ge (n := cCheapPrepend + data.length) (by omega) (by omega)
  rw [hwriter, hlen] at he
  have hread : readAbleBytes ⟨ys, cCheapPrepend, ((cCheapPrepend + 2 ^ 31 : Nat) : Int) - 2 ^ 32⟩ =
      2 ^ 64 - 2 ^ 31 := by
    unfold readAbleBytes
    dsimp only
    decide
  refine ⟨_, he, hread, ?_, ?_⟩
  · unfold writeAbleBytes
    dsimp only
    rw [hys, hlen]
    decide
  · -- the length wraps to 2^64 - 2^31 again on its way through `int`
    have hcount : sizeOfInt (intOfSize (2 ^ 64 - 2 ^ 31)) = 2 ^ 64 - 2 ^ 31 := by decide
    unfold toString
    rw [hread, hcount]
    unfold peek slice
    dsimp only
    rw [if_neg (by omega)]

/-! ## 2. Whole runs -/

theorem along_fits_of_exact {calls : List BufferOp} {b : Buffer} (h : b.Wf)
    (hcall : Trace.Along BufferOp.queueStep BufferOp.Callable b.content calls)
    (hexact : ∀ before, before <+: calls → ∃ b', Trace.run BufferOp.exec b before = some b' ∧
      b'.Exact (before.foldl BufferOp.onQueue b.content)) :
    Trace.Along BufferOp.exec BufferOp.Fits b calls := by
  -- on the calls; the buffer has been well formed up to here
  induction calls generalizing b with
  | nil => trivial
  | cons op calls ih =>
    obtain ⟨b₁, hrun, hex⟩ := hexact [op] ⟨calls, rfl⟩
    obtain ⟨m, he, hm⟩ := Trace.run_cons_eq_some.mp hrun
    obtain rfl := Option.some.inj hm
    have hfit : BufferOp.Fits b op := by
      cases op with
      | append data => exact h.storageAfter_lt_of_exact he hex
      | retrieve n => exact h.size_lt
      | _ => exact absurd hcall.1 id
    obtain ⟨b₂, he₂, hwf, hc, -⟩ := op.exec_refines h (hcall.1.pre h) hfit
    obtain rfl := Option.some.inj (he.symm.trans he₂)
    have hrest := hcall.2 _ rfl
    rw [← hc] at hrest
    refine (Trace.along_cons_of_step he).mpr ⟨hfit, ih hwf hrest fun before hpre ↦ ?_⟩
    obtain ⟨b', hrun', hex'⟩ := hexact (op :: before) (List.cons_prefix_cons.mpr ⟨rfl, hpre⟩)
    obtain ⟨m', he', hrun'⟩ := Trace.run_cons_eq_some.mp hrun'
    obtain rfl := Option.some.inj (he.symm.trans he')
    rw [List.foldl_cons, ← hc] at hex'
    exact ⟨b', hrun', hex'⟩

/-- What a run of appends and retrieves should leave: indices in order, the bytes appended and not
retrieved counted, and all of them readable. -/
structure Counts (b : Buffer) (calls : List BufferOp) : Prop where
  in_order : 0 ≤ b.readerIndex ∧ b.readerIndex ≤ b.writerIndex ∧ b.writerIndex ≤ b.buffer.length
  readAble : b.readAbleBytes + BufferOp.retrieved calls = BufferOp.appended calls
  writeAble : b.writeAbleBytes ≤ b.buffer.length
  toString : b.toString = some (calls.foldl BufferOp.onQueue [])

theorem counts_iff_exact {b : Buffer} {calls : List BufferOp}
    (hcall : Trace.Along BufferOp.queueStep BufferOp.Callable [] calls) :
    b.Counts calls ↔ b.Exact (calls.foldl BufferOp.onQueue []) := by
  have hlen := BufferOp.queue_length hcall
  rw [List.length_nil, Nat.zero_add] at hlen
  constructor
  · rintro ⟨⟨h0, h1, h2⟩, hread, hwrite, hstr⟩
    exact ⟨h0, h1, h2, by omega, hwrite, hstr⟩
  · rintro ⟨h0, h1, h2, hread, hwrite, hstr⟩
    exact ⟨⟨h0, h1, h2⟩, by omega, hwrite, hstr⟩

/-- **Indices.**  A run of appends and retrieves counts its bytes in every state it comes through,
and runs through, exactly when no append makes the vector reach 2^31 bytes. -/
theorem counts_iff_fits (calls : List BufferOp)
    (hcall : Trace.Along BufferOp.queueStep BufferOp.Callable [] calls) :
    (∀ before, before <+: calls →
      ∃ b, Trace.run BufferOp.exec fresh before = some b ∧ b.Counts before) ↔
    Trace.Along BufferOp.exec BufferOp.Fits fresh calls := by
  have hcall' : Trace.Along BufferOp.queueStep BufferOp.Callable fresh.content calls := by
    rw [fresh_content]
    exact hcall
  constructor
  · intro hcounts
    refine along_fits_of_exact fresh_wf hcall' fun before hpre ↦ ?_
    obtain ⟨b, hrun, hb⟩ := hcounts before hpre
    rw [fresh_content]
    exact ⟨b, hrun, (counts_iff_exact (hcall.initial hpre)).mp hb⟩
  · intro hfit before hpre
    obtain ⟨b, hrun, hwf, hc⟩ := BufferOp.run_callable fresh_wf (hcall'.initial hpre)
      (hfit.initial hpre)
    rw [fresh_content] at hc
    refine ⟨b, hrun, (counts_iff_exact (hcall.initial hpre)).mpr ?_⟩
    rw [← hc]
    exact hwf.exact

theorem counts_iff_fits_retrieve :
    ∃ b, Trace.run BufferOp.exec fresh [.append [1, 2, 3], .retrieve 2] = some b ∧
      b.Counts [.append [1, 2, 3], .retrieve 2] :=
  (counts_iff_fits [.append [1, 2, 3], .retrieve 2] (by decide)).mpr (by decide +kernel) _
    (List.prefix_refl _)

theorem counts_fails_at_two_gib :
    Trace.Along BufferOp.queueStep BufferOp.Callable [] [.append (List.replicate (2 ^ 31) 0)] ∧
      ∃ b, Trace.run BufferOp.exec fresh [.append (List.replicate (2 ^ 31) 0)] = some b ∧
        b.readAbleBytes = 2 ^ 64 - 2 ^ 31 ∧ b.buffer.length < b.writeAbleBytes ∧
        b.toString = none ∧ ¬ b.Counts [.append (List.replicate (2 ^ 31) 0)] := by
  have hlen : (List.replicate (2 ^ 31) (0 : UInt8)).length = 2 ^ 31 := List.length_replicate
  generalize List.replicate (2 ^ 31) (0 : UInt8) = data at hlen
  have hsize : data.length < 2 ^ 64 := by omega
  obtain ⟨b, he, hread, hwrite, hstr⟩ := append_wraps hlen
  refine ⟨⟨hsize, fun _ _ ↦ trivial⟩, b, Trace.run_cons_eq_some.mpr ⟨b, he, rfl⟩, hread, hwrite,
    hstr, fun hcounts ↦ ?_⟩
  exact absurd hcounts.writeAble (Nat.not_le.mpr hwrite)

/-! ## 3. The requested capacity -/

/-- A call after which at most `s` bytes are readable. -/
def Within (s : Nat) (q : List UInt8) (op : BufferOp) : Prop :=
  BufferOp.Callable q op ∧ (op.onQueue q).length ≤ s

/-- `Buffer(s)` has room for `s` bytes, and a run that never holds more readable bytes than that
keeps the storage it started with. -/
def HonoursCapacity (s : Nat) : Prop :=
  ∃ b, ofSize s = some b ∧ b.writeAbleBytes = s ∧
    ∀ calls, Trace.Along BufferOp.queueStep (Within s) [] calls →
      ∃ b', Trace.run BufferOp.exec b calls = some b' ∧ b'.buffer.length = s + cCheapPrepend

/-- A vector of the default size holds `cInitialSize` readable bytes behind the first eight. -/
theorem storage_kept {b : Buffer} (h : b.Wf) (h8 : (cCheapPrepend : Int) ≤ b.readerIndex)
    (hsize : b.buffer.length = cInitialSize + cCheapPrepend) {op : BufferOp}
    (hop : Within cInitialSize b.content op) : op.storage b = b.buffer.length := by
  obtain ⟨hcall, hlen⟩ := hop
  cases op with
  | append data =>
    show b.storageAfter data.length = _
    simp only [BufferOp.onQueue, List.length_append, h.content_length] at hlen
    rw [h.storageAfter_eq h8, if_neg (by omega)]
  | retrieve n => rfl
  | _ => exact absurd hcall id

theorem run_storage_kept {calls : List BufferOp} {b : Buffer} (h : b.Wf)
    (h8 : (cCheapPrepend : Int) ≤ b.readerIndex)
    (hsize : b.buffer.length = cInitialSize + cCheapPrepend)
    (hcall : Trace.Along BufferOp.queueStep (Within cInitialSize) b.content calls) :
    ∃ b', Trace.run BufferOp.exec b calls = some b' ∧
      b'.buffer.length = cInitialSize + cCheapPrepend := by
  -- on the calls; the first eight bytes stay free because nothing is prepended
  induction calls generalizing b with
  | nil => exact ⟨b, rfl, hsize⟩
  | cons op calls ih =>
    have hkept := storage_kept h h8 hsize hcall.1
    have hfit : op.storage b < 2 ^ 31 := by
      rw [hkept]
      exact h.size_lt
    have hpre := hcall.1.1.pre h
    obtain ⟨b₁, he, hwf, hc, hlen⟩ := op.exec_refines h hpre hfit
    have hop : ¬ op.IsPrepend := by
      have hcallable := hcall.1.1
      cases op with
      | append | retrieve => exact id
      | _ => exact absurd hcallable id
    have h8' : (cCheapPrepend : Int) ≤ b₁.readerIndex := by
      rw [BufferOp.exec_reader h hpre hfit he]
      exact BufferOp.headroom_kept hop h8
    have hrest := hcall.2 _ rfl
    rw [← hc] at hrest
    obtain ⟨b', hrun, hsize'⟩ := ih hwf h8' (by rw [hlen, hkept, hsize]) hrest
    exact ⟨b', Trace.run_cons_eq_some.mpr ⟨b₁, he, hrun⟩, hsize'⟩

/-- The constructor sizes the vector for `cInitialSize` bytes whatever it is asked for. -/
theorem honoursCapacity_iff (s : Nat) : HonoursCapacity s ↔ s = cInitialSize := by
  constructor
  · rintro ⟨b, hb, hwrite, -⟩
    rw [ofSize_eq] at hb
    obtain rfl := Option.some.inj hb
    rw [← hwrite, fresh_writeAbleBytes]
  · rintro rfl
    refine ⟨fresh, ofSize_eq _, fresh_writeAbleBytes, fun calls hcall ↦ ?_⟩
    exact run_storage_kept fresh_wf le_rfl List.length_replicate (by rw [fresh_content]; exact hcall)

theorem honoursCapacity_fails_at_2048 :
    (∃ b, ofSize 2048 = some b ∧ b.writeAbleBytes = 1024 ∧ b.buffer.length = 1032) ∧
      ¬ HonoursCapacity 2048 := by
  refine ⟨⟨fresh, ofSize_eq _, fresh_writeAbleBytes, List.length_replicate⟩, ?_⟩
  rintro ⟨b, hb, hwrite, -⟩
  rw [ofSize_eq] at hb
  obtain rfl := Option.some.inj hb
  rw [fresh_writeAbleBytes] at hwrite
  cases hwrite

end Buffer

end Netlib
