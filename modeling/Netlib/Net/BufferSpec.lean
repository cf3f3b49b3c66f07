import Netlib.Net.Buffer

/-!
# What the operations of `Buffer` do below 2^31

`Wf` is the index order every operation keeps; as long as the storage stays below 2^31 bytes no
conversion of an index loses anything, so a well-formed buffer is a vector with two natural
offsets.  Each operation gets one lemma: it succeeds, keeps `Wf`, and moves the content the way a
byte queue moves.
-/

open Storage

namespace Netlib.Buffer

structure Wf (b : Buffer) : Prop where
  reader_nonneg : 0 ≤ b.readerIndex
  reader_le_writer : b.readerIndex ≤ b.writerIndex
  writer_le_size : b.writerIndex ≤ b.buffer.length
  cheapPrepend_le_size : cCheapPrepend ≤ b.buffer.length
  size_lt : b.buffer.length < 2 ^ 31

/-- The readable bytes. -/
def content (b : Buffer) : List UInt8 :=
  window b.buffer b.readerIndex.toNat b.writerIndex.toNat

/-- The size of the vector after room for `len` more bytes was made. -/
def storageAfter (b : Buffer) (len : Nat) : Nat :=
  if b.writeAbleBytes < len ∧ b.writeAbleBytes + b.prependAbleBytes < len + cCheapPrepend then
    b.writerIndex.toNat + len
  else b.buffer.length

/-! ## 1. Well-formed buffers as a vector with two offsets -/

section Offsets

variable {xs : List UInt8} {r w : Nat}

theorem wf_mk (hrw : r ≤ w) (hw : w ≤ xs.length) (h8 : cCheapPrepend ≤ xs.length)
    (hs : xs.length < 2 ^ 31) : Wf ⟨xs, r, w⟩ where
  reader_nonneg := Int.natCast_nonneg r
  reader_le_writer := Int.ofNat_le.mpr hrw
  writer_le_size := Int.ofNat_le.mpr hw
  cheapPrepend_le_size := h8
  size_lt := hs

theorem Wf.offsets {b : Buffer} (h : b.Wf) :
    ∃ xs : List UInt8, ∃ r w : Nat, b = ⟨xs, r, w⟩ ∧ r ≤ w ∧ w ≤ xs.length ∧
      cCheapPrepend ≤ xs.length ∧ xs.length < 2 ^ 31 := by
  obtain ⟨xs, r, w⟩ := b
  obtain ⟨h0, h1, h2, h3, h4⟩ := h
  simp only at h0 h1 h2 h3 h4
  refine ⟨xs, r.toNat, w.toNat, ?_, by omega, by omega, h3, h4⟩
  rw [Int.toNat_of_nonneg h0, Int.toNat_of_nonneg (le_trans h0 h1)]

theorem content_mk : content ⟨xs, r, w⟩ = window xs r w := rfl

theorem readAbleBytes_mk (hrw : r ≤ w) (hs : w < 2 ^ 31) : readAbleBytes ⟨xs, r, w⟩ = w - r := by
  unfold readAbleBytes
  rw [intSub_natCast hrw hs, sizeOfInt_natCast (by omega)]

theorem writeAbleBytes_mk (hw : w ≤ xs.length) (hs : xs.length < 2 ^ 31) :
    writeAbleBytes ⟨xs, r, w⟩ = xs.length - w := by
  unfold writeAbleBytes
  rw [sizeOfInt_natCast (by omega), sizeSub_of_le hw (by omega)]

theorem prependAbleBytes_mk (hs : r < 2 ^ 31) : prependAbleBytes ⟨xs, r, w⟩ = r := by
  unfold prependAbleBytes
  rw [sizeOfInt_natCast (by omega)]

theorem intOfSize_add {n : Nat} (h : w + n < 2 ^ 31) :
    intOfSize (sizeAdd (sizeOfInt (w : Int)) n) = ((w + n : Nat) : Int) := by
  rw [sizeOfInt_natCast (by omega), sizeAdd_of_lt (by omega), intOfSize_of_lt h]

theorem intOfSize_sub {n : Nat} (hn : n ≤ w) (h : w < 2 ^ 31) :
    intOfSize (sizeSub (sizeOfInt (w : Int)) n) = ((w - n : Nat) : Int) := by
  rw [sizeOfInt_natCast (by omega), sizeSub_of_le hn (by omega), intOfSize_of_lt (by omega)]

end Offsets

theorem Wf.content_length {b : Buffer} (h : b.Wf) : b.content.length = b.readAbleBytes := by
  obtain ⟨xs, r, w, rfl, hrw, hw, h8, hs⟩ := h.offsets
  rw [content_mk, window_length hw, readAbleBytes_mk hrw (by omega)]

theorem fresh_wf : fresh.Wf := by
  apply wf_mk (r := cCheapPrepend) (w := cCheapPrepend) (Nat.le_refl _) <;>
    rw [List.length_replicate] <;> decide

theorem fresh_content : fresh.content = [] := window_self _ _

theorem fresh_writeAbleBytes : fresh.writeAbleBytes = cInitialSize := by
  unfold fresh
  rw [writeAbleBytes_mk] <;> rw [List.length_replicate] <;> decide

theorem fresh_prependAbleBytes : fresh.prependAbleBytes = cCheapPrepend :=
  prependAbleBytes_mk (by decide)

/-- The asserts of the constructor hold, whatever size was asked for. -/
theorem ofSize_eq (n : Nat) : ofSize n = some fresh := by
  have hr : fresh.readAbleBytes = 0 := readAbleBytes_mk (Nat.le_refl _) (by decide)
  simp only [ofSize, hr, fresh_writeAbleBytes, fresh_prependAbleBytes, assert_of,
    Option.bind_eq_bind, Option.bind_some]
  rfl

theorem Wf.peek_eq {b : Buffer} (h : b.Wf) {n : Nat} (hn : n ≤ b.readAbleBytes) :
    b.peek n = some (b.content.take n) := by
  obtain ⟨xs, r, w, rfl, hrw, hw, h8, hs⟩ := h.offsets
  rw [readAbleBytes_mk hrw (by omega)] at hn
  change slice xs (r : Int) n = _
  rw [slice_natCast (by omega), content_mk, window, List.take_take, Nat.min_eq_left hn]

theorem Wf.toString_eq {b : Buffer} (h : b.Wf) : b.toString = some b.content := by
  have hlen := h.content_length
  have hle : b.readAbleBytes < 2 ^ 31 := by
    obtain ⟨xs, r, w, rfl, hrw, hw, h8, hs⟩ := h.offsets
    rw [readAbleBytes_mk hrw (by omega)]
    omega
  unfold toString
  rw [intOfSize_of_lt hle, sizeOfInt_natCast (by omega), h.peek_eq (Nat.le_refl _), ← hlen,
    List.take_length]

/-! ## 2. Making room -/

section MakeSpace

variable {xs : List UInt8} {r w len : Nat}

/-- Too little room in front and behind together: the vector grows to end right behind the `len`
bytes, and nothing moves. -/
theorem makeSpace_grow (hw : w ≤ xs.length) (hs : xs.length < 2 ^ 31) (hr : r < 2 ^ 31)
    (hfew : xs.length - w + r < len + cCheapPrepend) (hlen : w + len + cCheapPrepend < 2 ^ 64) :
    makeSpace ⟨xs, r, w⟩ len = some ⟨resize xs (w + len) 0, r, w⟩ := by
  have h8 : cCheapPrepend = 8 := rfl
  unfold makeSpace
  rw [writeAbleBytes_mk hw hs, prependAbleBytes_mk hr, sizeAdd_of_lt (by omega),
    sizeAdd_of_lt (by omega), if_pos hfew, sizeOfInt_natCast (by omega), sizeAdd_of_lt (by omega)]

/-- Enough room together but not behind: the readable bytes slide down to offset
`cCheapPrepend`.  The reader is above that offset, which is what `makeSpace` asserts. -/
theorem makeSpace_slide (hrw : r ≤ w) (hw : w ≤ xs.length) (hs : xs.length < 2 ^ 31)
    (hneed : xs.length - w < len) (hroom : len + cCheapPrepend ≤ xs.length - w + r) :
    makeSpace ⟨xs, r, w⟩ len =
      some ⟨xs.take cCheapPrepend ++ window xs r w ++ xs.drop (cCheapPrepend + (w - r)),
        cCheapPrepend, (cCheapPrepend + (w - r) : Nat)⟩ := by
  have h8 : cCheapPrepend = 8 := rfl
  unfold makeSpace
  rw [writeAbleBytes_mk hw hs, prependAbleBytes_mk (by omega), sizeAdd_of_lt (by omega),
    sizeAdd_of_lt (by omega), if_neg (by omega), readAbleBytes_mk hrw (by omega),
    sizeOfInt_natCast (by omega), copyRange_natCast (by omega) hrw hw, assert_of (by omega)]
  simp only [Option.bind_eq_bind, Option.bind_some]
  rw [sizeAdd_of_lt (by omega), intOfSize_of_lt (by omega),
    readAbleBytes_mk (by omega) (by omega), assert_of (by omega)]
  rfl

end MakeSpace

theorem Wf.ensureWriteAbleBytes_spec {b : Buffer} (h : b.Wf) {len : Nat}
    (hfit : b.storageAfter len < 2 ^ 31) :
    ∃ b', b.ensureWriteAbleBytes len = some b' ∧ b'.Wf ∧ b'.content = b.content ∧
      len ≤ b'.writeAbleBytes ∧ b'.buffer.length = b.storageAfter len := by
  obtain ⟨xs, r, w, rfl, hrw, hw, h8, hs⟩ := h.offsets
  have h8' : cCheapPrepend = 8 := rfl
  have hwa := writeAbleBytes_mk (r := r) hw hs
  have hpa : prependAbleBytes ⟨xs, r, w⟩ = r := prependAbleBytes_mk (by omega)
  have hstore : storageAfter ⟨xs, r, w⟩ len =
      if xs.length - w < len ∧ xs.length - w + r < len + cCheapPrepend then w + len
      else xs.length := by
    unfold storageAfter
    rw [hwa, hpa, Int.toNat_natCast]
  unfold ensureWriteAbleBytes
  rw [hwa]
  by_cases hneed : xs.length - w < len
  · by_cases hfew : xs.length - w + r < len + cCheapPrepend
    · -- the vector grows
      rw [if_pos ⟨hneed, hfew⟩] at hstore
      rw [hstore] at hfit ⊢
      have hgrow : (resize xs (w + len) (0 : UInt8)).length = w + len := by
        rw [resize_of_le (by omega), List.length_append, List.length_replicate]
        omega
      rw [if_pos hneed, makeSpace_grow hw hs (by omega) hfew (by omega)]
      have hwa' : writeAbleBytes ⟨resize xs (w + len) 0, r, w⟩ =
          (resize xs (w + len) (0 : UInt8)).length - w := writeAbleBytes_mk (by omega) (by omega)
      refine ⟨⟨resize xs (w + len) 0, r, w⟩, ?_, wf_mk hrw (by omega) (by omega) (by omega), ?_,
        by omega, hgrow⟩
      · simp only [Option.bind_eq_bind, Option.bind_some]
        rw [assert_of (by omega)]
        rfl
      · rw [content_mk, content_mk, resize_of_le (by omega), window_append_right hw]
    · -- the readable bytes slide down
      rw [if_neg (by tauto)] at hstore
      rw [hstore, if_pos hneed, makeSpace_slide hrw hw hs hneed (by omega)]
      generalize hys : xs.take cCheapPrepend ++ window xs r w ++
        xs.drop (cCheapPrepend + (w - r)) = ys
      have hwin := window_length (r := r) hw
      have hlen : ys.length = xs.length := by
        rw [← hys, List.length_append, List.length_append, hwin, List.length_take,
          List.length_drop]
        omega
      have hwa' : writeAbleBytes ⟨ys, cCheapPrepend, (cCheapPrepend + (w - r) : Nat)⟩ =
          ys.length - (cCheapPrepend + (w - r)) := writeAbleBytes_mk (by omega) (by omega)
      refine ⟨⟨ys, cCheapPrepend, (cCheapPrepend + (w - r) : Nat)⟩, ?_,
        wf_mk (by omega) (by omega) (by omega) (by omega), ?_, by omega, hlen⟩
      · simp only [Option.bind_eq_bind, Option.bind_some]
        rw [assert_of (by omega)]
        rfl
      · have hmoved := window_overwrite_end xs (window xs r w)
          (Nat.le_refl cCheapPrepend) (by omega)
        rw [hwin, hys, window_self, List.nil_append] at hmoved
        rw [content_mk, content_mk, hmoved]
  · -- there is room already
    rw [if_neg (by tauto)] at hstore
    refine ⟨⟨xs, r, w⟩, ?_, h, rfl, by omega, hstore.symm⟩
    rw [if_neg hneed]
    simp only [Option.bind_eq_bind, Option.bind_some]
    rw [hwa, assert_of (by omega)]
    rfl

/-! ## 3. Writing -/

/-- The bytes put at `beginWrite()`, counted in. -/
theorem Wf.tail_filled {b : Buffer} (h : b.Wf) {data : List UInt8}
    (hfit : data.length ≤ b.writeAbleBytes) :
    ∃ xs, b.writeTail data = some { b with buffer := xs } ∧ xs.length = b.buffer.length ∧
      Wf ⟨xs, b.readerIndex, b.writerIndex + data.length⟩ ∧
      content ⟨xs, b.readerIndex, b.writerIndex + data.length⟩ = b.content ++ data := by
  obtain ⟨xs, r, w, rfl, hrw, hw, h8, hs⟩ := h.offsets
  rw [writeAbleBytes_mk hw hs] at hfit
  have hwrite := overwrite_natCast xs data w (by omega)
  generalize hys : xs.take w ++ data ++ xs.drop (w + data.length) = ys at hwrite
  have hlen : ys.length = xs.length := by
    rw [← hys, List.length_append, List.length_append, List.length_take, List.length_drop]
    omega
  have hcast : (w : Int) + data.length = (w + data.length : Nat) := by push_cast; rfl
  simp only [hcast]
  refine ⟨ys, ?_, hlen, wf_mk (by omega) (by omega) (by omega) (by omega), ?_⟩
  · simp only [writeTail, hwrite, Option.bind_eq_bind, Option.bind_some, pure]
  · rw [content_mk, content_mk, ← hys, window_overwrite_end xs data hrw (by omega)]

theorem Wf.hasWritten_spec {b : Buffer} (h : b.Wf) {data : List UInt8}
    (hroom : data.length ≤ b.writeAbleBytes) :
    ∃ b', (b.writeTail data >>= fun b ↦ b.hasWritten data.length) = some b' ∧ b'.Wf ∧
      b'.content = b.content ++ data ∧ b'.buffer.length = b.buffer.length := by
  obtain ⟨ys, hwrite, hlen, hwf, hc⟩ := h.tail_filled hroom
  refine ⟨⟨ys, b.readerIndex, b.writerIndex + data.length⟩, ?_, hwf, hc, hlen⟩
  rw [hwrite]
  obtain ⟨xs, r, w, rfl, hrw, hw, h8, hs⟩ := h.offsets
  rw [writeAbleBytes_mk hw hs] at hroom
  have hlen : ys.length = xs.length := hlen
  simp only [Option.bind_eq_bind, Option.bind_some, hasWritten]
  rw [writeAbleBytes_mk (by omega) (by omega), assert_of (by omega), Option.bind_some,
    intOfSize_add (by omega)]
  rfl

theorem Wf.append_spec {b : Buffer} (h : b.Wf) (data : List UInt8)
    (hfit : b.storageAfter data.length < 2 ^ 31) :
    ∃ b', b.append data = some b' ∧ b'.Wf ∧ b'.content = b.content ++ data ∧
      b'.buffer.length = b.storageAfter data.length := by
  obtain ⟨b₁, he₁, hwf₁, hc₁, hroom, hlen₁⟩ := h.ensureWriteAbleBytes_spec hfit
  obtain ⟨b₂, he₂, hwf₂, hc₂, hlen₂⟩ := hwf₁.hasWritten_spec hroom
  refine ⟨b₂, ?_, hwf₂, by rw [hc₂, hc₁], by rw [hlen₂, hlen₁]⟩
  unfold append
  rw [he₁]
  exact he₂

theorem Wf.unWrite_spec {b : Buffer} (h : b.Wf) {n : Nat} (hn : n ≤ b.readAbleBytes) :
    ∃ b', b.unWrite n = some b' ∧ b'.Wf ∧
      b'.content = b.content.take (b.content.length - n) ∧ b'.buffer.length = b.buffer.length := by
  have hlen := h.content_length
  obtain ⟨xs, r, w, rfl, hrw, hw, h8, hs⟩ := h.offsets
  rw [readAbleBytes_mk hrw (by omega)] at hn hlen
  refine ⟨⟨xs, r, (w - n : Nat)⟩, ?_, wf_mk (by omega) (by omega) h8 hs, ?_, rfl⟩
  · unfold unWrite
    rw [readAbleBytes_mk hrw (by omega), assert_of hn, intOfSize_sub (by omega) (by omega)]
    rfl
  · rw [hlen, content_mk, content_mk, window_take hn]

theorem Wf.prepend_spec {b : Buffer} (h : b.Wf) (data : List UInt8)
    (hroom : data.length ≤ b.prependAbleBytes) :
    ∃ b', b.prepend data = some b' ∧ b'.Wf ∧ b'.content = data ++ b.content ∧
      b'.buffer.length = b.buffer.length := by
  obtain ⟨xs, r, w, rfl, hrw, hw, h8, hs⟩ := h.offsets
  rw [prependAbleBytes_mk (by omega)] at hroom
  have hwrite := overwrite_natCast xs data (r - data.length) (by omega)
  -- the bytes end where the readable ones begin
  rw [Nat.sub_add_cancel hroom] at hwrite
  generalize hys : xs.take (r - data.length) ++ data ++ xs.drop r = ys at hwrite
  have hlen : ys.length = xs.length := by
    rw [← hys, List.length_append, List.length_append, List.length_take, List.length_drop]
    omega
  refine ⟨⟨ys, (r - data.length : Nat), w⟩, ?_,
    wf_mk (by omega) (by omega) (by omega) (by omega), ?_, hlen⟩
  · unfold prepend
    rw [prependAbleBytes_mk (by omega), assert_of hroom, intOfSize_sub hroom (by omega)]
    simp only [hwrite, Option.bind_eq_bind, Option.bind_some]
    rfl
  · rw [content_mk, content_mk, ← hys, window_overwrite_front hroom hrw hw]

/-! ## 4. Reading -/

theorem Wf.retrieve_spec {b : Buffer} (h : b.Wf) {n : Nat} (hn : n ≤ b.readAbleBytes) :
    ∃ b', b.retrieve n = some b' ∧ b'.Wf ∧ b'.content = b.content.drop n ∧
      b'.buffer.length = b.buffer.length := by
  have hlen := h.content_length
  obtain ⟨xs, r, w, rfl, hrw, hw, h8, hs⟩ := h.offsets
  have hra : readAbleBytes ⟨xs, r, w⟩ = w - r := readAbleBytes_mk hrw (by omega)
  unfold retrieve
  rw [hra] at hn hlen ⊢
  rw [assert_of hn, Option.bind_eq_bind, Option.bind_some]
  by_cases hlt : n < w - r
  · refine ⟨⟨xs, (r + n : Nat), w⟩, ?_, wf_mk (by omega) hw h8 hs, ?_, rfl⟩
    · rw [if_pos hlt, intOfSize_add (by omega)]
      rfl
    · rw [content_mk, content_mk, window_drop]
  · -- the whole content is taken: both indices go back to cCheapPrepend
    refine ⟨⟨xs, cCheapPrepend, cCheapPrepend⟩, ?_, wf_mk (Nat.le_refl _) h8 h8 hs, ?_, rfl⟩
    · rw [if_neg hlt]
      rfl
    · rw [List.drop_of_length_le (by omega)]
      exact window_self _ _

theorem Wf.retrieveUntil_spec {b : Buffer} (h : b.Wf) {n : Nat} (hn : n ≤ b.readAbleBytes) :
    b.retrieveUntil (b.readerIndex + n) = b.retrieve n := by
  obtain ⟨xs, r, w, rfl, hrw, hw, h8, hs⟩ := h.offsets
  rw [readAbleBytes_mk hrw (by omega)] at hn
  simp only [retrieveUntil]
  rw [assert_of (by omega), assert_of (by omega), show (r : Int) + n - r = n by omega,
    sizeOfInt_natCast (by omega)]
  rfl

theorem Wf.retrieveAsString_spec {b : Buffer} (h : b.Wf) {n : Nat} (hn : n ≤ b.readAbleBytes) :
    ∃ b', b.retrieveAsString n = some (b.content.take n, b') ∧ b'.Wf ∧
      b'.content = b.content.drop n ∧ b'.buffer.length = b.buffer.length := by
  obtain ⟨b', he, hwf, hc, hlen⟩ := h.retrieve_spec hn
  refine ⟨b', ?_, hwf, hc, hlen⟩
  unfold retrieveAsString
  rw [assert_of hn, h.peek_eq hn, he]
  rfl

theorem Wf.readInt_spec {b : Buffer} (h : b.Wf) {n : Nat} (hn : n ≤ b.readAbleBytes) :
    ∃ b', b.readInt n = some (ofBeBytes n (b.content.take n), b') ∧ b'.Wf ∧
      b'.content = b.content.drop n ∧ b'.buffer.length = b.buffer.length := by
  obtain ⟨b', he, hwf, hc, hlen⟩ := h.retrieve_spec hn
  refine ⟨b', ?_, hwf, hc, hlen⟩
  unfold readInt peekInt
  rw [assert_of hn, h.peek_eq hn, he]
  rfl

@[simp] theorem beBytes_length (n : Nat) (x : BitVec (8 * n)) : (beBytes n x).length = n := by
  simp [beBytes]

/-! ## 5. `shrink` -/

theorem Wf.shrink_spec {b : Buffer} (h : b.Wf) {reserve : Nat}
    (hfit : fresh.storageAfter (b.readAbleBytes + reserve) < 2 ^ 31) :
    ∃ b', b.shrink reserve = some b' ∧ b'.Wf ∧ b'.content = b.content ∧
      b'.buffer.length = fresh.storageAfter (b.readAbleBytes + reserve) := by
  obtain ⟨o₁, he₁, hwf₁, hc₁, hroom, hlen₁⟩ := fresh_wf.ensureWriteAbleBytes_spec hfit
  have hclen := h.content_length
  -- the room just made covers the content, so the append below neither slides nor grows
  obtain ⟨o₂, he₂, hwf₂, hc₂, hlen₂⟩ :=
    hwf₁.append_spec b.content (by
      unfold storageAfter
      rw [if_neg (by omega)]
      exact hwf₁.size_lt)
  have hsame : o₁.storageAfter b.content.length = o₁.buffer.length := by
    unfold storageAfter
    rw [if_neg (by omega)]
  have hsum : b.readAbleBytes + reserve < 2 ^ 64 := by
    have hw := hwf₁.size_lt
    obtain ⟨xs, r, w, rfl, hrw, hw', h8, hs⟩ := hwf₁.offsets
    rw [writeAbleBytes_mk hw' hs] at hroom
    omega
  refine ⟨o₂, ?_, hwf₂, by rw [hc₂, hc₁, fresh_content, List.nil_append],
    by rw [hlen₂, hsame, hlen₁]⟩
  unfold shrink
  rw [ofSize_eq, sizeAdd_of_lt hsum, h.toString_eq]
  simp only [Option.bind_eq_bind, Option.bind_some, he₁, he₂]
  rfl

end Netlib.Buffer
