import Netlib.Net.BufferRead

/-!
# Storage and headroom of a `Buffer`

Where the reader index is after an operation, and from it when the eight bytes in front are free and
when the vector grows.
-/

open Storage

namespace Netlib

namespace Buffer

/-- Room for `len` bytes is made by moving the readable bytes down. -/
def Slides (b : Buffer) (len : Nat) : Prop :=
  b.writeAbleBytes < len ∧ len + cCheapPrepend ≤ b.writeAbleBytes + b.prependAbleBytes

instance (b : Buffer) (len : Nat) : Decidable (b.Slides len) := inferInstanceAs (Decidable (_ ∧ _))

/-- The reader index after room for `len` bytes was made. -/
def readerRoom (b : Buffer) (len : Nat) : Int :=
  if b.Slides len then cCheapPrepend else b.readerIndex

/-- The reader index after `n` bytes were retrieved. -/
def readerTaken (b : Buffer) (n : Nat) : Int :=
  if n < b.readAbleBytes then b.readerIndex + n else cCheapPrepend

/-! ## 1. The reader index after one call -/

theorem makeSpace_reader {b b' : Buffer} {len : Nat} (he : b.makeSpace len = some b') :
    b'.readerIndex =
      if sizeAdd b.writeAbleBytes b.prependAbleBytes < sizeAdd len cCheapPrepend then b.readerIndex
      else cCheapPrepend := by
  unfold makeSpace at he
  split at he
  · rw [if_pos ‹_›]
    cases he
    rfl
  · rw [if_neg ‹_›]
    simp only [Option.bind_eq_bind, Option.bind_eq_some_iff] at he
    obtain ⟨_, -, moved, -, _, -, he⟩ := he
    cases he
    rfl

theorem ensureWriteAbleBytes_cases {b b' : Buffer} {len : Nat}
    (he : b.ensureWriteAbleBytes len = some b') :
    (b.writeAbleBytes < len ∧ b.makeSpace len = some b') ∨ (len ≤ b.writeAbleBytes ∧ b' = b) := by
  unfold ensureWriteAbleBytes at he
  by_cases hneed : b.writeAbleBytes < len
  · rw [if_pos hneed, Option.bind_eq_bind, Option.bind_eq_some_iff] at he
    obtain ⟨b₁, hspace, he⟩ := he
    rw [Option.bind_eq_bind, Option.bind_eq_some_iff] at he
    obtain ⟨_, -, he⟩ := he
    obtain rfl := Option.some.inj he
    exact .inl ⟨hneed, hspace⟩
  · rw [if_neg hneed, Option.bind_eq_bind, Option.bind_some, Option.bind_eq_bind,
      Option.bind_eq_some_iff] at he
    obtain ⟨_, -, he⟩ := he
    exact .inr ⟨Nat.le_of_not_lt hneed, (Option.some.inj he).symm⟩

/-- A length whose room fits below 2^31 bytes is itself far from where `size_t` wraps. -/
theorem Wf.len_lt {b : Buffer} (h : b.Wf) {len : Nat} (hfit : b.storageAfter len < 2 ^ 31) :
    len < 2 ^ 32 := by
  obtain ⟨xs, r, w, rfl, hrw, hw, h8, hs⟩ := h.offsets
  unfold storageAfter at hfit
  rw [writeAbleBytes_mk hw hs, prependAbleBytes_mk (by omega), Int.toNat_natCast] at hfit
  have : cCheapPrepend = 8 := rfl
  split at hfit <;> omega

theorem Wf.ensureWriteAbleBytes_reader {b b' : Buffer} (h : b.Wf) {len : Nat}
    (hfit : b.storageAfter len < 2 ^ 31) (he : b.ensureWriteAbleBytes len = some b') :
    b'.readerIndex = b.readerRoom len := by
  have hlen := h.len_lt hfit
  have h8 : cCheapPrepend = 8 := rfl
  have hsum : b.writeAbleBytes + b.prependAbleBytes < 2 ^ 32 := by
    obtain ⟨xs, r, w, rfl, hrw, hw, -, hs⟩ := h.offsets
    rw [writeAbleBytes_mk hw hs, prependAbleBytes_mk (by omega)]
    omega
  unfold readerRoom
  rcases ensureWriteAbleBytes_cases he with ⟨hneed, hspace⟩ | ⟨hroom, rfl⟩
  · rw [makeSpace_reader hspace, sizeAdd_of_lt (by omega), sizeAdd_of_lt (by omega)]
    by_cases hfew : b.writeAbleBytes + b.prependAbleBytes < len + cCheapPrepend
    · have hs : ¬ b.Slides len := fun hs ↦ absurd hs.2 (Nat.not_le.mpr hfew)
      rw [if_pos hfew, if_neg hs]
    · have hs : b.Slides len := ⟨hneed, Nat.le_of_not_lt hfew⟩
      rw [if_neg hfew, if_pos hs]
  · have hs : ¬ b'.Slides len := fun hs ↦ absurd hs.1 (Nat.not_lt.mpr hroom)
    rw [if_neg hs]

theorem writeTail_reader {b b' : Buffer} {data : List UInt8} (he : b.writeTail data = some b') :
    b'.readerIndex = b.readerIndex := by
  unfold writeTail at he
  simp only [Option.bind_eq_bind, Option.bind_eq_some_iff] at he
  obtain ⟨xs, -, he⟩ := he
  rw [← Option.some.inj he]

theorem hasWritten_reader {b b' : Buffer} {n : Nat} (he : b.hasWritten n = some b') :
    b'.readerIndex = b.readerIndex := by
  unfold hasWritten at he
  simp only [Option.bind_eq_bind, Option.bind_eq_some_iff] at he
  obtain ⟨_, -, he⟩ := he
  rw [← Option.some.inj he]

/-- Writing what there is room for moves the writer index only. -/
theorem fill_reader {b b' : Buffer} {data : List UInt8}
    (he : (b.writeTail data >>= fun b ↦ b.hasWritten data.length) = some b') :
    b'.readerIndex = b.readerIndex := by
  simp only [Option.bind_eq_bind, Option.bind_eq_some_iff] at he
  obtain ⟨b₁, hwrite, he⟩ := he
  rw [hasWritten_reader he, writeTail_reader hwrite]

theorem Wf.append_reader {b b' : Buffer} (h : b.Wf) {data : List UInt8}
    (hfit : b.storageAfter data.length < 2 ^ 31) (he : b.append data = some b') :
    b'.readerIndex = b.readerRoom data.length := by
  unfold append at he
  rw [Option.bind_eq_bind, Option.bind_eq_some_iff] at he
  obtain ⟨b₁, hroom, he⟩ := he
  rw [fill_reader he, h.ensureWriteAbleBytes_reader hfit hroom]

theorem Wf.retrieve_reader {b b' : Buffer} (h : b.Wf) {n : Nat} (he : b.retrieve n = some b') :
    b'.readerIndex = b.readerTaken n := by
  unfold retrieve at he
  rw [Option.bind_eq_bind, Option.bind_eq_some_iff] at he
  obtain ⟨_, -, he⟩ := he
  unfold readerTaken
  by_cases hlt : n < b.readAbleBytes
  · rw [if_pos hlt] at he ⊢
    rw [← Option.some.inj he]
    obtain ⟨xs, r, w, rfl, hrw, hw, -, hs⟩ := h.offsets
    rw [readAbleBytes_mk hrw (by omega)] at hlt
    dsimp only
    rw [intOfSize_add (by omega), Nat.cast_add]
  · rw [if_neg hlt] at he ⊢
    rw [← Option.some.inj he]
    rfl

theorem Wf.prepend_reader {b b' : Buffer} (h : b.Wf) {data : List UInt8}
    (hroom : data.length ≤ b.prependAbleBytes) (he : b.prepend data = some b') :
    b'.readerIndex = b.readerIndex - data.length := by
  unfold prepend at he
  simp only [Option.bind_eq_bind, Option.bind_eq_some_iff] at he
  obtain ⟨_, -, xs, -, he⟩ := he
  rw [← Option.some.inj he]
  obtain ⟨xs, r, w, rfl, hrw, hw, -, hs⟩ := h.offsets
  rw [prependAbleBytes_mk (by omega)] at hroom
  dsimp only
  rw [intOfSize_sub hroom (by omega)]
  omega

theorem unWrite_reader {b b' : Buffer} {n : Nat} (he : b.unWrite n = some b') :
    b'.readerIndex = b.readerIndex := by
  unfold unWrite at he
  simp only [Option.bind_eq_bind, Option.bind_eq_some_iff] at he
  obtain ⟨_, -, he⟩ := he
  rw [← Option.some.inj he]

theorem fresh_storageAfter (len : Nat) :
    fresh.storageAfter len = cCheapPrepend + max cInitialSize len := by
  have hsize : fresh.buffer.length = cCheapPrepend + cInitialSize := List.length_replicate
  have hwriter : fresh.writerIndex.toNat = cCheapPrepend := rfl
  unfold storageAfter
  rw [fresh_writeAbleBytes, fresh_prependAbleBytes, hsize, hwriter]
  split <;> omega

theorem Wf.shrink_reader {b b' : Buffer} (h : b.Wf) {reserve : Nat}
    (hfit : fresh.storageAfter (b.readAbleBytes + reserve) < 2 ^ 31)
    (he : b.shrink reserve = some b') : b'.readerIndex = cCheapPrepend := by
  have hlen := fresh_wf.len_lt hfit
  obtain ⟨o₁, he₁, hwf₁, -, hroom, -⟩ := fresh_wf.ensureWriteAbleBytes_spec hfit
  have hr₁ : o₁.readerIndex = cCheapPrepend := by
    rw [fresh_wf.ensureWriteAbleBytes_reader hfit he₁]
    unfold readerRoom
    split <;> rfl
  unfold shrink at he
  rw [ofSize_eq, sizeAdd_of_lt (by omega), h.toString_eq] at he
  simp only [Option.bind_eq_bind, Option.bind_some, he₁] at he
  rw [Option.bind_eq_some_iff] at he
  obtain ⟨o₂, happ, he⟩ := he
  -- the content fits the room just made
  have hnot : ¬ o₁.writeAbleBytes < b.content.length := by
    rw [h.content_length]
    omega
  have hsame : o₁.storageAfter b.content.length = o₁.buffer.length := if_neg fun hp ↦ hnot hp.1
  have hr₂ := hwf₁.append_reader (by rw [hsame]; exact hwf₁.size_lt) happ
  have hslide : ¬ o₁.Slides b.content.length := fun hs ↦ hnot hs.1
  unfold readerRoom at hr₂
  rw [if_neg hslide, hr₁] at hr₂
  rw [← Option.some.inj he]
  exact hr₂

theorem Wf.prependAble_eq {b : Buffer} (h : b.Wf) : (b.prependAbleBytes : Int) = b.readerIndex := by
  obtain ⟨xs, r, w, rfl, hrw, hw, -, hs⟩ := h.offsets
  rw [prependAbleBytes_mk (by omega)]

theorem Wf.readAble_eq {b : Buffer} (h : b.Wf) :
    (b.readAbleBytes : Int) = b.writerIndex - b.readerIndex := by
  obtain ⟨xs, r, w, rfl, hrw, hw, -, hs⟩ := h.offsets
  rw [readAbleBytes_mk hrw (by omega)]
  dsimp only
  omega

theorem prependAble_of_reader {b : Buffer} (hr : b.readerIndex = cCheapPrepend) :
    b.prependAbleBytes = cCheapPrepend := by
  unfold prependAbleBytes
  rw [hr]
  rfl

theorem Slides.storageAfter_eq {b : Buffer} {len : Nat} (hs : b.Slides len) :
    b.storageAfter len = b.buffer.length :=
  if_neg fun hfew ↦ absurd hs.2 (Nat.not_le.mpr hfew.2)

theorem Slides.readerRoom_eq {b : Buffer} {len : Nat} (hs : b.Slides len) :
    b.readerRoom len = cCheapPrepend := if_pos hs

end Buffer

/-! ## 2. The reader index after any operation -/

namespace BufferOp

/-- The reader index that the operation leaves. -/
def readerAfter (b : Buffer) : BufferOp → Int
  | append data => b.readerRoom data.length
  | appendInt64 _ => b.readerRoom 8
  | appendInt32 _ => b.readerRoom 4
  | appendInt16 _ => b.readerRoom 2
  | appendInt8 _ => b.readerRoom 1
  | ensureWriteAbleBytes len => b.readerRoom len
  | prepend data => b.readerIndex - data.length
  | prependInt64 _ => b.readerIndex - 8
  | prependInt32 _ => b.readerIndex - 4
  | prependInt16 _ => b.readerIndex - 2
  | prependInt8 _ => b.readerIndex - 1
  | retrieve n | retrieveUntil n | retrieveAsString n => b.readerTaken n
  | retrieveAllAsString => b.readerTaken b.readAbleBytes
  | readInt64 => b.readerTaken 8
  | readInt32 => b.readerTaken 4
  | readInt16 => b.readerTaken 2
  | readInt8 => b.readerTaken 1
  | unWrite _ | hasWritten _ => b.readerIndex
  | shrink _ => cCheapPrepend

def IsPrepend : BufferOp → Prop
  | prepend _ | prependInt64 _ | prependInt32 _ | prependInt16 _ | prependInt8 _ => True
  | _ => False

/-- The operations that end in `retrieve`. -/
def IsRetrieve : BufferOp → Prop
  | retrieve _ | retrieveUntil _ | retrieveAsString _ | retrieveAllAsString => True
  | readInt64 | readInt32 | readInt16 | readInt8 => True
  | _ => False

theorem appendInt_reader {b b' : Buffer} (h : b.Wf) {n : Nat} {x : BitVec (8 * n)}
    (hfit : b.storageAfter n < 2 ^ 31) (he : b.appendInt n x = some b') :
    b'.readerIndex = b.readerRoom n := by
  have hlen := Buffer.beBytes_length n x
  have hr := h.append_reader (by rw [hlen]; exact hfit) he
  rw [hr, hlen]

theorem prependInt_reader {b b' : Buffer} (h : b.Wf) {n : Nat} {x : BitVec (8 * n)}
    (hroom : n ≤ b.prependAbleBytes) (he : b.prependInt n x = some b') :
    b'.readerIndex = b.readerIndex - n := by
  have hlen := Buffer.beBytes_length n x
  have hr := h.prepend_reader (by rw [hlen]; exact hroom) he
  rw [hr, hlen]

theorem readInt_reader {b b' : Buffer} (h : b.Wf) {n : Nat}
    (he : (b.readInt n).map Prod.snd = some b') : b'.readerIndex = b.readerTaken n := by
  unfold Buffer.readInt at he
  simp only [Option.bind_eq_bind, Option.map_eq_some_iff, Option.bind_eq_some_iff] at he
  obtain ⟨_, ⟨_, -, b₁, hret, heq⟩, rfl⟩ := he
  obtain rfl := Option.some.inj heq
  exact h.retrieve_reader hret

theorem retrieveAsString_reader {b b' : Buffer} (h : b.Wf) {n : Nat}
    (he : (b.retrieveAsString n).map Prod.snd = some b') : b'.readerIndex = b.readerTaken n := by
  unfold Buffer.retrieveAsString at he
  simp only [Option.bind_eq_bind, Option.map_eq_some_iff, Option.bind_eq_some_iff] at he
  obtain ⟨_, ⟨_, -, _, -, b₁, hret, heq⟩, rfl⟩ := he
  obtain rfl := Option.some.inj heq
  exact h.retrieve_reader hret

theorem exec_reader {b b' : Buffer} (h : b.Wf) {op : BufferOp} (hpre : op.Pre b)
    (hfit : op.storage b < 2 ^ 31) (he : op.exec b = some b') :
    b'.readerIndex = op.readerAfter b := by
  obtain ⟨htake, hprepend, hfill⟩ := hpre
  cases op with
  | append data => exact h.append_reader hfit he
  | appendInt64 x => exact appendInt_reader h (n := 8) hfit he
  | appendInt32 x => exact appendInt_reader h (n := 4) hfit he
  | appendInt16 x => exact appendInt_reader h (n := 2) hfit he
  | appendInt8 x => exact appendInt_reader h (n := 1) hfit he
  | prepend data => exact h.prepend_reader hprepend he
  | prependInt64 x => exact prependInt_reader h (n := 8) hprepend he
  | prependInt32 x => exact prependInt_reader h (n := 4) hprepend he
  | prependInt16 x => exact prependInt_reader h (n := 2) hprepend he
  | prependInt8 x => exact prependInt_reader h (n := 1) hprepend he
  | retrieve n => exact h.retrieve_reader he
  | retrieveUntil n =>
    rw [exec, h.retrieveUntil_spec (n := n) htake] at he
    exact h.retrieve_reader he
  | retrieveAsString n => exact retrieveAsString_reader h he
  | retrieveAllAsString => exact retrieveAsString_reader h he
  | readInt64 => exact readInt_reader h (n := 8) he
  | readInt32 =>
    -- the sign extension touches the returned value only
    refine readInt_reader h (n := 4) ?_
    rw [← he, exec, Buffer.readInt32]
    cases b.readInt 4 <;> rfl
  | readInt16 => exact readInt_reader h (n := 2) he
  | readInt8 => exact readInt_reader h (n := 1) he
  | unWrite n => exact Buffer.unWrite_reader he
  | hasWritten data => exact Buffer.fill_reader he
  | ensureWriteAbleBytes len => exact h.ensureWriteAbleBytes_reader hfit he
  | shrink reserve => exact h.shrink_reader hfit he

/-- Only the prepend operations reach into the first eight bytes. -/
theorem headroom_kept {b : Buffer} {op : BufferOp} (hop : ¬ op.IsPrepend)
    (h8 : (cCheapPrepend : Int) ≤ b.readerIndex) : (cCheapPrepend : Int) ≤ op.readerAfter b := by
  have hroom (len : Nat) : (cCheapPrepend : Int) ≤ b.readerRoom len := by
    unfold Buffer.readerRoom
    split
    · exact le_rfl
    · exact h8
  have htaken (n : Nat) : (cCheapPrepend : Int) ≤ b.readerTaken n := by
    unfold Buffer.readerTaken
    split <;> omega
  cases op with
  | append | appendInt64 | appendInt32 | appendInt16 | appendInt8 | ensureWriteAbleBytes =>
    exact hroom _
  | retrieve | retrieveUntil | retrieveAsString | retrieveAllAsString => exact htaken _
  | readInt64 | readInt32 | readInt16 | readInt8 => exact htaken _
  | unWrite | hasWritten => exact h8
  | shrink => exact le_rfl
  | prepend | prependInt64 | prependInt32 | prependInt16 | prependInt8 => exact absurd trivial hop

theorem IsRetrieve.storage_eq {op : BufferOp} (hop : op.IsRetrieve) (b : Buffer) :
    op.storage b = b.buffer.length := by
  cases op with
  | retrieve | retrieveUntil | retrieveAsString | retrieveAllAsString => rfl
  | readInt64 | readInt32 | readInt16 | readInt8 => rfl
  | _ => exact absurd hop id

/-- A retrieve that leaves nothing puts both indices back. -/
theorem drained_reader {b b' : Buffer} (h : b.Wf) {op : BufferOp} (hop : op.IsRetrieve)
    (hpre : op.Pre b) (he : op.exec b = some b') (hempty : b'.readAbleBytes = 0) :
    b'.readerIndex = cCheapPrepend := by
  have hfit : op.storage b < 2 ^ 31 := by
    rw [hop.storage_eq]
    exact h.size_lt
  obtain ⟨b₂, he₂, hwf₂, hc, -⟩ := op.exec_refines h hpre hfit
  obtain rfl := Option.some.inj (he.symm.trans he₂)
  have hlen := congrArg List.length hc
  rw [hwf₂.content_length, hempty] at hlen
  have hcl := h.content_length
  rw [exec_reader h hpre hfit he]
  have htaken {n : Nat} (hn : 0 = (b.content.drop n).length) :
      b.readerTaken n = cCheapPrepend := by
    unfold Buffer.readerTaken
    rw [List.length_drop] at hn
    exact if_neg (by omega)
  cases op with
  | retrieve | retrieveUntil | retrieveAsString => exact htaken hlen
  | readInt64 | readInt32 | readInt16 | readInt8 => exact htaken hlen
  | retrieveAllAsString => exact htaken (by rw [← hcl]; exact hlen)
  | _ => exact absurd hop id

end BufferOp

namespace Buffer

/-! ## 3. Storage -/

/-- A read that overflows the tail moves the readable bytes down where the rest fits in front. -/
def SlidesRead (b : Buffer) (n : Nat) : Prop :=
  b.writeAbleBytes < n ∧ n - b.writeAbleBytes + cCheapPrepend ≤ b.prependAbleBytes

instance (b : Buffer) (n : Nat) : Decidable (b.SlidesRead n) := inferInstanceAs (Decidable (_ ∧ _))

theorem Wf.readFd_reader {b b' : Buffer} (h : b.Wf) {savedErrno savedErrno' n : Int}
    {data : List UInt8} (hd : b.Delivers data) (hfit : b.storageRead data.length < 2 ^ 31)
    (he : b.readFd savedErrno (.bytes data) = some (n, savedErrno', b')) :
    b'.readerIndex = if b.SlidesRead data.length then (cCheapPrepend : Int) else b.readerIndex := by
  by_cases hn : data.length ≤ b.writeAbleBytes
  · obtain ⟨xs, -, -, -, he'⟩ := h.readFd_fits savedErrno hn
    rw [he'] at he
    cases he
    rw [if_neg fun hs ↦ absurd hs.1 (Nat.not_lt.mpr hn)]
  · obtain ⟨xs, hlen, hwf, -, he'⟩ := h.readFd_overflows savedErrno hd (by omega)
    rw [he', Option.map_eq_some_iff] at he
    obtain ⟨b₁, happ, heq⟩ := he
    cases heq
    have hstore := hwf.storageAfter_full hlen (Nat.lt_of_not_le hn)
    rw [← List.length_drop] at hstore
    have hr := hwf.append_reader (by rw [hstore]; exact hfit) happ
    have hrest : (data.drop b.writeAbleBytes).length = data.length - b.writeAbleBytes :=
      List.length_drop
    have hp : prependAbleBytes ⟨xs, b.readerIndex, xs.length⟩ = b.prependAbleBytes := rfl
    have hiff : Slides ⟨xs, b.readerIndex, xs.length⟩ (data.drop b.writeAbleBytes).length ↔
        b.SlidesRead data.length := by
      unfold Slides SlidesRead
      rw [hwf.writeAbleBytes_full, hrest, hp]
      omega
    rw [hr]
    unfold readerRoom
    by_cases hs : b.SlidesRead data.length
    · rw [if_pos (hiff.mpr hs), if_pos hs]
    · rw [if_neg fun hs' ↦ hs (hiff.mp hs'), if_neg hs]

/-- Every step but a prepend keeps the first eight bytes free. -/
theorem ReachableBy.headroom {b : Buffer} (h : ReachableBy (fun op ↦ ¬ op.IsPrepend) b) :
    (cCheapPrepend : Int) ≤ b.readerIndex := by
  induction h with
  | ofSize n hb =>
    rw [ofSize_eq] at hb
    cases hb
    exact le_rfl
  | exec op hb hop hpre hfit he ih =>
    rw [BufferOp.exec_reader hb.wf hpre hfit he]
    exact BufferOp.headroom_kept hop ih
  | readFd data hb hd hfit he ih =>
    rw [hb.wf.readFd_reader hd hfit he]
    split
    · exact le_rfl
    · exact ih

/-- With the first eight bytes free, a vector grows only when the readable bytes and the new ones
do not fit behind them. -/
theorem Wf.storageAfter_eq {b : Buffer} (h : b.Wf) (h8 : (cCheapPrepend : Int) ≤ b.readerIndex)
    (len : Nat) :
    b.storageAfter len =
      if b.buffer.length - cCheapPrepend < b.readAbleBytes + len then b.writerIndex.toNat + len
      else b.buffer.length := by
  have hcheap : cCheapPrepend = 8 := rfl
  obtain ⟨xs, r, w, rfl, hrw, hw, hsize, hs⟩ := h.offsets
  have h8' : cCheapPrepend ≤ r := Int.ofNat_le.mp h8
  unfold storageAfter
  rw [writeAbleBytes_mk hw hs, prependAbleBytes_mk (by omega), readAbleBytes_mk hrw (by omega)]
  dsimp only
  congr 1
  exact propext ⟨fun ⟨_, hfew⟩ ↦ by omega, fun hfew ↦ ⟨by omega, by omega⟩⟩

/-- What a drain, a slide and `shrink` leave in front. -/
structure Rewinds (b : Buffer) : Prop where
  drain : ∀ (op : BufferOp) b', op.IsRetrieve → op.Pre b → op.exec b = some b' →
    b'.readAbleBytes = 0 → cCheapPrepend ≤ b'.prependAbleBytes
  slide : ∀ len b', b.Slides len → b.ensureWriteAbleBytes len = some b' →
    cCheapPrepend ≤ b'.prependAbleBytes
  slide_append : ∀ data b', b.Slides data.length → b.append data = some b' →
    cCheapPrepend ≤ b'.prependAbleBytes
  slide_readFd : ∀ data b' n savedErrno savedErrno', b.Delivers data → b.SlidesRead data.length →
    b.readFd savedErrno (.bytes data) = some (n, savedErrno', b') →
    cCheapPrepend ≤ b'.prependAbleBytes
  shrink : ∀ reserve b', cCheapPrepend + max cInitialSize (b.readAbleBytes + reserve) < 2 ^ 31 →
    b.shrink reserve = some b' → cCheapPrepend ≤ b'.prependAbleBytes

theorem Wf.rewinds {b : Buffer} (h : b.Wf) : b.Rewinds where
  drain op b' hop hpre he hempty :=
    (prependAble_of_reader (BufferOp.drained_reader h hop hpre he hempty)).ge
  slide len b' hs he := by
    have hr := h.ensureWriteAbleBytes_reader (by rw [hs.storageAfter_eq]; exact h.size_lt) he
    exact (prependAble_of_reader (hr.trans hs.readerRoom_eq)).ge
  slide_append data b' hs he := by
    have hr := h.append_reader (by rw [hs.storageAfter_eq]; exact h.size_lt) he
    exact (prependAble_of_reader (hr.trans hs.readerRoom_eq)).ge
  slide_readFd data b' n savedErrno savedErrno' hd hs he := by
    have hsame : b.storageRead data.length = b.buffer.length :=
      if_neg fun hfew ↦ absurd hs.2 (Nat.not_le.mpr hfew.2)
    have hr := h.readFd_reader hd (by rw [hsame]; exact h.size_lt) he
    rw [if_pos hs] at hr
    exact (prependAble_of_reader hr).ge
  shrink reserve b' hfit he :=
    (prependAble_of_reader (h.shrink_reader (by rw [fresh_storageAfter]; exact hfit) he)).ge

/-- **Storage law.**  Without prepends the first eight bytes stay free, and `append` grows the
vector exactly when the content and the new bytes do not fit behind them, to end right behind the
new bytes.  With prepends the eight bytes are free again after a drain, a slide and `shrink`; and
`shrink` leaves the smallest storage the constructor and the reserve allow. -/
theorem storage_law :
    (∀ b, ReachableBy (fun op ↦ ¬ op.IsPrepend) b →
      cCheapPrepend ≤ b.prependAbleBytes ∧
      ∀ data, b.storageAfter data.length < 2 ^ 31 → ∃ b', b.append data = some b' ∧
        (b'.buffer.length ≠ b.buffer.length ↔
          b.buffer.length - cCheapPrepend < b.readAbleBytes + data.length) ∧
        (b'.buffer.length ≠ b.buffer.length →
          (b'.buffer.length : Int) = b.writerIndex + data.length)) ∧
    (∀ b, Reachable b → b.Rewinds) ∧
    ∀ b, Reachable b → ∀ reserve,
      cCheapPrepend + max cInitialSize (b.readAbleBytes + reserve) < 2 ^ 31 →
      ∃ b', b.shrink reserve = some b' ∧ b'.readerIndex = cCheapPrepend ∧
        b'.buffer.length = cCheapPrepend + max cInitialSize (b.readAbleBytes + reserve) := by
  refine ⟨fun b hb ↦ ⟨?_, fun data hfit ↦ ?_⟩, fun b hb ↦ hb.wf.rewinds, fun b hb reserve hfit ↦ ?_⟩
  · have h8 := hb.headroom
    rw [← hb.wf.prependAble_eq] at h8
    exact Int.ofNat_le.mp h8
  · obtain ⟨b', he, hwf, -, hlen⟩ := hb.wf.append_spec data hfit
    have hw := hb.wf.reader_nonneg.trans hb.wf.reader_le_writer
    have hws := hb.wf.writer_le_size
    have hread := hb.wf.readAble_eq
    have h8 := hb.headroom
    have hcheap : cCheapPrepend = 8 := rfl
    rw [hb.wf.storageAfter_eq h8] at hlen
    refine ⟨b', he, ?_, ?_⟩
    all_goals
      rw [hlen]
      split <;> omega
  · have hfit' : fresh.storageAfter (b.readAbleBytes + reserve) < 2 ^ 31 := by
      rw [fresh_storageAfter]
      exact hfit
    obtain ⟨b', he, -, -, hlen⟩ := hb.wf.shrink_spec hfit'
    exact ⟨b', he, hb.wf.shrink_reader hfit' he, by rw [hlen, fresh_storageAfter]⟩

end Buffer

end Netlib
