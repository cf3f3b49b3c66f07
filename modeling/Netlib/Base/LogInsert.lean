import Netlib.Lib.Run
import Netlib.Base.Convert
import Netlib.Base.LogStream

/-!
# `netlib::LogStream`

What can be streamed into a log record (`base/LogStream.cc`).  Here the buffer is its whole array
and the position of `_cur`, and a store or a read outside an array has no result, so that the digits
not reversed yet and the terminating NUL count too.
-/

namespace Netlib

open Storage

def cMaxNumericSize : Nat := 32

/-- The arguments of `append(const char*, int)`: what is to be copied can be read. -/
structure Span where
  data : List UInt8
  len : Int32
  readable : len.toInt ≤ data.length

namespace Span

/-- The length as the `size_t` that it is converted to: of a negative one, a huge number. -/
def size (span : Span) : Nat := sizeOfInt span.len.toInt

def text (span : Span) : List UInt8 := span.data.take span.size

end Span

/-- The argument of an `operator<<`, or of `append`. -/
inductive Piece where
  | bool (v : Bool)
  | integer (v : Integer)
  | float (v : Float32)
  | double (v : Float)
  | char (v : UInt8)
  | pointer (v : UInt64)
  /-- The characters in front of the NUL, or a null pointer. -/
  | cstr (data : Option (List UInt8))
  | string (data : List UInt8)
  | buffer (data : FixedBuffer cSmallBuffer)
  | append (span : Span)

structure LogStream where
  /-- `_data`. -/
  mem : List UInt8
  /-- `_cur - _data`. -/
  cur : Nat

namespace LogStream

variable (fmtG : Float → List UInt8)

def vaild (s : LogStream) : Int := s.mem.length - s.cur

/-- `FixedBuffer::append`. -/
def append (s : LogStream) (buf : List UInt8) (len : Nat) : Option LogStream :=
  if len < sizeOfInt s.vaild then do
    let bytes ← slice buf 0 len
    let mem ← overwrite s.mem s.cur bytes
    return ⟨mem, s.cur + len⟩
  else some s

def formatInteger (s : LogStream) (v : Int) : Option LogStream :=
  if cMaxNumericSize ≤ s.vaild then do
    let (mem, len) ← convert s.mem s.cur v
    return ⟨mem, s.cur + len⟩
  else some s

/-- `operator<<(double)`: `snprintf` cuts the text, but not the length that it returns. -/
def formatDouble (s : LogStream) (v : Float) : Option LogStream :=
  if cMaxNumericSize ≤ s.vaild then do
    let mem ← overwrite s.mem s.cur ((fmtG v).take (cMaxNumericSize - 1) ++ [0])
    return ⟨mem, s.cur + (fmtG v).length⟩
  else some s

/-- `operator<<(const void*)`. -/
def formatPointer (s : LogStream) (v : UInt64) : Option LogStream :=
  if cMaxNumericSize ≤ s.vaild then do
    let mem ← overwrite s.mem s.cur (ascii "0x")
    let (mem, n) ← convertHex mem (s.cur + 2) v
    return ⟨mem, s.cur + (2 + n)⟩
  else some s

def insert (s : LogStream) : Piece → Option LogStream
  | .bool v => s.append (ascii (if v then "1" else "0")) 1
  | .integer v => s.formatInteger v.promoted
  | .float v => s.formatDouble fmtG v.toFloat
  | .double v => s.formatDouble fmtG v
  | .char v => s.append [v] 1
  | .pointer v => s.formatPointer v
  | .cstr (some data) => s.append data data.length
  | .cstr none => s.append (ascii "(null)") 6
  | .string data => s.append data data.length
  | .buffer data => s.append data.data data.data.length
  | .append span => s.append span.data span.size

/-- What the record holds so far. -/
def content (s : LogStream) : List UInt8 := s.mem.take s.cur

end LogStream

/-! ## 1. What is accepted -/

namespace Piece

variable (fmtG : Float → List UInt8)

def text : Piece → List UInt8
  | bool v => ascii (if v then "1" else "0")
  | integer v => decimal v.value
  | float v => fmtG v.toFloat
  | double v => fmtG v
  | char v => [v]
  | pointer v => ascii "0x" ++ hexadecimal v.toNat
  | cstr data => data.getD (ascii "(null)")
  | string data => data
  | buffer data => data.data
  | append span => span.text

/-- Numbers and pointers need a fixed reserve, a text one byte more than it has. -/
def Fits (x : Piece) (vaild : Nat) : Prop :=
  match x with
  | integer _ | float _ | double _ | pointer _ => cMaxNumericSize ≤ vaild
  | append span => span.size < vaild
  | x => (x.text fmtG).length < vaild

instance : (x : Piece) → (vaild : Nat) → Decidable (x.Fits fmtG vaild)
  | integer _, vaild | float _, vaild | double _, vaild | pointer _, vaild =>
    Nat.decLe cMaxNumericSize vaild
  | append span, vaild => Nat.decLt span.size vaild
  | bool _, _ | char _, _ | cstr _, _ | string _, _ | buffer _, _ => Nat.decLt _ _

end Piece

/-- A length below the size of the buffer was not negative. -/
theorem Span.size_le (span : Span) (h : span.size < cSmallBuffer) : span.size ≤ span.data.length := by
  have hread := span.readable
  have hlo := span.len.le_toInt
  unfold size cSmallBuffer sizeOfInt at *
  omega

theorem Span.text_length (span : Span) (h : span.size < cSmallBuffer) :
    span.text.length = span.size := by
  unfold text
  rw [List.length_take]
  exact Nat.min_eq_left (span.size_le h)

/-- The texts accepted into a buffer with `vaild` bytes left. -/
def kept (fmtG : Float → List UInt8) : Nat → List Piece → List (List UInt8)
  | _, [] => []
  | vaild, x :: xs =>
    if x.Fits fmtG vaild then x.text fmtG :: kept fmtG (vaild - (x.text fmtG).length) xs
    else kept fmtG vaild xs

section

variable {fmtG : Float → List UInt8} {x : Piece} {xs ys : List Piece} {vaild : Nat}

theorem kept_cons_of_fits (h : x.Fits fmtG vaild) :
    kept fmtG vaild (x :: xs) = x.text fmtG :: kept fmtG (vaild - (x.text fmtG).length) xs := by
  rw [kept, if_pos h]

theorem kept_cons_of_not_fits (h : ¬ x.Fits fmtG vaild) :
    kept fmtG vaild (x :: xs) = kept fmtG vaild xs := by
  rw [kept, if_neg h]

theorem kept_append :
    kept fmtG vaild (xs ++ ys) =
      kept fmtG vaild xs ++ kept fmtG (vaild - (kept fmtG vaild xs).flatten.length) ys := by
  induction xs generalizing vaild with
  | nil => rfl
  | cons x xs ih =>
    by_cases h : x.Fits fmtG vaild
    · rw [List.cons_append, kept_cons_of_fits h, kept_cons_of_fits h, ih, List.flatten_cons,
        List.length_append, Nat.sub_sub, List.cons_append]
    · rw [List.cons_append, kept_cons_of_not_fits h, kept_cons_of_not_fits h, ih]

theorem exists_of_mem_kept {t : List UInt8} (h : t ∈ kept fmtG vaild xs) :
    ∃ x ∈ xs, t = x.text fmtG := by
  induction xs generalizing vaild with
  | nil => cases h
  | cons x xs ih =>
    by_cases hfits : x.Fits fmtG vaild
    · rw [kept_cons_of_fits hfits] at h
      rcases List.mem_cons.mp h with rfl | h
      · exact ⟨x, List.mem_cons_self, rfl⟩
      · obtain ⟨y, hy, rfl⟩ := ih h
        exact ⟨y, List.mem_cons_of_mem x hy, rfl⟩
    · rw [kept_cons_of_not_fits hfits] at h
      obtain ⟨y, hy, rfl⟩ := ih h
      exact ⟨y, List.mem_cons_of_mem x hy, rfl⟩

end

namespace LogStream

/-! ## 2. One insertion -/

/-- A byte is free behind the record. -/
structure Sound (s : LogStream) : Prop where
  size : s.mem.length = cSmallBuffer
  spare : s.cur < cSmallBuffer

variable {fmtG : Float → List UInt8} {s : LogStream}

theorem Sound.content_length (h : s.Sound) : s.content.length = s.cur := by
  unfold content
  rw [List.length_take, h.size]
  exact Nat.min_eq_left h.spare.le

theorem Sound.vaild_eq (h : s.Sound) : s.vaild = (cSmallBuffer - s.cur : Nat) := by
  have hspare := h.spare
  unfold vaild
  rw [h.size]
  omega

theorem Sound.toNat_vaild (h : s.Sound) : s.vaild.toNat = cSmallBuffer - s.cur := by
  rw [h.vaild_eq, Int.toNat_natCast]

theorem Sound.sizeOfInt_vaild (h : s.Sound) : sizeOfInt s.vaild = cSmallBuffer - s.cur := by
  rw [h.vaild_eq, sizeOfInt_natCast]
  unfold cSmallBuffer
  omega

/-- A text is stored at `_cur`, and `after` behind it. -/
theorem Sound.store (h : s.Sound) (text after : List UInt8)
    (hroom : s.cur + (text ++ after).length ≤ cSmallBuffer)
    (hspare : s.cur + text.length < cSmallBuffer) :
    ∃ mem, overwrite s.mem s.cur (text ++ after) = some mem ∧
      (LogStream.mk mem (s.cur + text.length)).Sound ∧
      (LogStream.mk mem (s.cur + text.length)).content = s.content ++ text := by
  have hcur := h.content_length
  unfold content at hcur
  refine ⟨_, overwrite_natCast _ _ _ (by rw [h.size]; exact hroom), ⟨?_, hspare⟩, ?_⟩
  · rw [List.length_append, List.length_append, hcur, List.length_drop, h.size]
    omega
  · have hlen : (s.mem.take s.cur ++ text).length = s.cur + text.length := by
      rw [List.length_append, hcur]
    unfold content
    simp only
    rw [← List.append_assoc (s.mem.take s.cur), List.append_assoc, List.take_left' hlen]

/-- The text was taken as a whole when it was accepted, and nothing was done when it was not. -/
def Inserted (s : LogStream) (accepted : Prop) (text : List UInt8) (r : Option LogStream) : Prop :=
  (accepted → ∃ t, r = some t ∧ t.Sound ∧ t.content = s.content ++ text) ∧
    (¬ accepted → r = some s)

theorem append_inserted (h : s.Sound) (buf : List UInt8) {len : Nat}
    (hread : len < cSmallBuffer - s.cur → len ≤ buf.length) :
    s.Inserted (len < cSmallBuffer - s.cur) (buf.take len) (s.append buf len) := by
  unfold append
  rw [h.sizeOfInt_vaild]
  constructor
  · intro hlt
    have hlen : (buf.take len).length = len := by
      rw [List.length_take]
      exact Nat.min_eq_left (hread hlt)
    obtain ⟨mem, hmem, hsound, hcontent⟩ := h.store (buf.take len) []
      (by rw [List.append_nil, hlen]; omega) (by rw [hlen]; omega)
    rw [List.append_nil] at hmem
    rw [hlen] at hsound hcontent
    refine ⟨_, ?_, hsound, hcontent⟩
    have hslice : slice buf 0 len = some (buf.take len) := slice_natCast (by simpa using hread hlt)
    rw [if_pos hlt, hslice, Option.bind_eq_bind, Option.bind_some, hmem]
    rfl
  · intro hnot
    rw [if_neg hnot]

/-- What the array has in front of `_cur`, as the other modules have it. -/
def Sound.buffer (h : s.Sound) : FixedBuffer cSmallBuffer where
  data := s.content
  fits := by
    rw [h.content_length]
    exact h.spare.le

/-- On the array `append` does what it does on the bytes in front of `_cur`. -/
theorem Sound.append_buffer (h : s.Sound) (buf : List UInt8) :
    ∃ t, ∃ ht : t.Sound, s.append buf buf.length = some t ∧ ht.buffer = h.buffer.append buf := by
  obtain ⟨htake, hleave⟩ := append_inserted h buf fun _ ↦ le_rfl
  have hvaild : h.buffer.vaild = cSmallBuffer - s.cur := by
    unfold FixedBuffer.vaild
    rw [show h.buffer.data = s.content from rfl, h.content_length]
  rw [← hvaild] at htake hleave
  unfold FixedBuffer.append
  by_cases hfits : buf.length < h.buffer.vaild
  · obtain ⟨t, ht, hsound, hcontent⟩ := htake hfits
    refine ⟨t, hsound, ht, ?_⟩
    rw [dif_pos hfits]
    simp only [Sound.buffer, hcontent, List.take_length]
  · exact ⟨s, h, hleave hfits, by rw [dif_neg hfits]⟩

/-- Numbers are stored behind one test of the reserve. -/
theorem Sound.inserted_reserve (h : s.Sound) {text : List UInt8} {r : Option LogStream}
    (hstore : 32 ≤ cSmallBuffer - s.cur → ∃ t, r = some t ∧ t.Sound ∧ t.content = s.content ++ text) :
    s.Inserted (cMaxNumericSize ≤ cSmallBuffer - s.cur) text
      (if cMaxNumericSize ≤ s.vaild then r else some s) := by
  have hiff : (cMaxNumericSize : Int) ≤ s.vaild ↔ cMaxNumericSize ≤ cSmallBuffer - s.cur := by
    rw [h.vaild_eq, Int.ofNat_le]
  constructor
  · intro hfits
    rw [if_pos (hiff.mpr hfits)]
    exact hstore hfits
  · intro hnot
    rw [if_neg (mt hiff.mp hnot)]

theorem formatInteger_inserted (h : s.Sound) {v : Int} (hlo : -2 ^ 63 ≤ v) (hhi : v < 2 ^ 64) :
    s.Inserted (cMaxNumericSize ≤ cSmallBuffer - s.cur) (decimal v) (s.formatInteger v) := by
  have hlen := decimal_length_le hlo hhi
  refine h.inserted_reserve fun hroom ↦ ?_
  obtain ⟨mem, hmem, hsound, hcontent⟩ := h.store (decimal v) [0]
    (by rw [List.length_append, List.length_singleton]; omega) (by omega)
  refine ⟨_, ?_, hsound, hcontent⟩
  rw [convert_eq, hmem]
  rfl

theorem formatDouble_inserted (h : s.Sound) {v : Float}
    (hfmt : (fmtG v).length < cMaxNumericSize) :
    s.Inserted (cMaxNumericSize ≤ cSmallBuffer - s.cur) (fmtG v) (s.formatDouble fmtG v) := by
  have hlen : (fmtG v).length < 32 := hfmt
  refine h.inserted_reserve fun hroom ↦ ?_
  obtain ⟨mem, hmem, hsound, hcontent⟩ := h.store (fmtG v) [0]
    (by rw [List.length_append, List.length_singleton]; omega) (by omega)
  refine ⟨_, ?_, hsound, hcontent⟩
  have htake : (fmtG v).take (cMaxNumericSize - 1) = fmtG v :=
    List.take_of_length_le (Nat.le_pred_of_lt hfmt)
  rw [htake, hmem]
  rfl

theorem formatPointer_inserted (h : s.Sound) (v : UInt64) :
    s.Inserted (cMaxNumericSize ≤ cSmallBuffer - s.cur) (ascii "0x" ++ hexadecimal v.toNat)
      (s.formatPointer v) := by
  have hlen := hexadecimal_length_le v
  have htwo : (ascii "0x").length = 2 := rfl
  refine h.inserted_reserve fun hroom ↦ ?_
  obtain ⟨mem, hmem, hsound, hcontent⟩ :=
    h.store (ascii "0x" ++ hexadecimal v.toNat) [0]
      (by simp only [List.length_append, List.length_singleton]; omega)
      (by rw [List.length_append]; omega)
  refine ⟨_, ?_, hsound, hcontent⟩
  -- the prefix and the digits are stored one after the other
  rw [List.append_assoc, ← overwrite_append, htwo] at hmem
  obtain ⟨mem', hmem', hdigits⟩ := Option.bind_eq_some_iff.mp hmem
  rw [hmem', Option.bind_eq_bind, Option.bind_some, convertHex_eq, hdigits, List.length_append, htwo]
  rfl

/-- Every `operator<<` takes its argument as a whole, or leaves the stream as it was. -/
theorem insert_inserted (hfmt : ∀ v, (fmtG v).length < cMaxNumericSize) (h : s.Sound) (x : Piece) :
    s.Inserted (x.Fits fmtG (cSmallBuffer - s.cur)) (x.text fmtG) (s.insert fmtG x) := by
  have hall (data : List UInt8) :
      s.Inserted (data.length < cSmallBuffer - s.cur) data (s.append data data.length) := by
    have hins := append_inserted h data (fun _ ↦ le_rfl)
    rwa [List.take_length] at hins
  cases x with
  | bool v => cases v <;> exact hall _
  | integer v =>
    show s.Inserted _ _ (s.formatInteger v.promoted)
    rw [v.promoted_eq]
    exact formatInteger_inserted h v.value_bounds.1 v.value_bounds.2
  | float v => exact formatDouble_inserted h (hfmt _)
  | double v => exact formatDouble_inserted h (hfmt _)
  | char v => exact hall [v]
  | pointer v => exact formatPointer_inserted h v
  | cstr data =>
    cases data with
    | none => exact hall (ascii "(null)")
    | some data => exact hall data
  | string data => exact hall data
  | buffer data => exact hall data.data
  | append span =>
    exact append_inserted h span.data fun hlt ↦ span.size_le (lt_of_lt_of_le hlt (Nat.sub_le _ _))

/-! ## 3. Every sequence of insertions -/

/-- A record under construction goes on holding what it held, with every text that is accepted. -/
theorem run_insert (hfmt : ∀ v, (fmtG v).length < cMaxNumericSize) (h : s.Sound)
    (xs : List Piece) :
    ∃ t, Trace.run (insert fmtG) s xs = some t ∧ t.Sound ∧
      t.content = s.content ++ (kept fmtG (cSmallBuffer - s.cur) xs).flatten := by
  induction xs generalizing s with
  | nil => exact ⟨s, rfl, h, (List.append_nil _).symm⟩
  | cons x xs ih =>
    obtain ⟨htake, hleave⟩ := insert_inserted hfmt h x
    by_cases hfits : x.Fits fmtG (cSmallBuffer - s.cur)
    · obtain ⟨m, hm, hsound, hcontent⟩ := htake hfits
      obtain ⟨t, ht, htsound, htcontent⟩ := ih hsound
      -- the rest is judged by what this text leaves
      have hcur : cSmallBuffer - m.cur = cSmallBuffer - s.cur - (x.text fmtG).length := by
        rw [← hsound.content_length, hcontent, List.length_append, h.content_length, Nat.sub_sub]
      refine ⟨t, Trace.run_cons_eq_some.mpr ⟨m, hm, ht⟩, htsound, ?_⟩
      rw [htcontent, hcontent, hcur, kept_cons_of_fits hfits, List.flatten_cons, List.append_assoc]
    · obtain ⟨t, ht, htsound, htcontent⟩ := ih h
      refine ⟨t, Trace.run_cons_eq_some.mpr ⟨s, hleave hfits, ht⟩, htsound, ?_⟩
      rw [htcontent, kept_cons_of_not_fits hfits]

/-- A new stream; nothing was written to the array yet. -/
def init (mem : List UInt8) : LogStream := ⟨mem, 0⟩

theorem init_sound {mem : List UInt8} (h : mem.length = cSmallBuffer) : (init mem).Sound :=
  ⟨h, show 0 < cSmallBuffer by decide⟩

/-- **All or nothing.**  Whatever is streamed into a new record, no store leaves the array, the
record is the texts accepted, in order, and one byte of the array stays free; and each further piece
is appended as a whole exactly when it fits, and otherwise changes nothing. -/
theorem insertions_safe (hfmt : ∀ v, (fmtG v).length < cMaxNumericSize) {mem : List UInt8}
    (hmem : mem.length = cSmallBuffer) (xs : List Piece) :
    ∃ s, Trace.run (insert fmtG) (init mem) xs = some s ∧ s.mem.length = cSmallBuffer ∧
      s.content.length = s.cur ∧ s.cur ≤ 3999 ∧
      s.content = (kept fmtG cSmallBuffer xs).flatten ∧
      ∀ x : Piece, ∃ t, s.insert fmtG x = some t ∧
        (x.Fits fmtG s.vaild.toNat → t.content = s.content ++ x.text fmtG) ∧
        (¬ x.Fits fmtG s.vaild.toNat → t = s) := by
  obtain ⟨s, hrun, hsound, hcontent⟩ := run_insert hfmt (init_sound hmem) xs
  refine ⟨s, hrun, hsound.size, hsound.content_length, Nat.le_of_lt_succ hsound.spare, hcontent,
    fun x ↦ ?_⟩
  obtain ⟨htake, hleave⟩ := insert_inserted hfmt hsound x
  rw [hsound.toNat_vaild]
  by_cases hfits : x.Fits fmtG (cSmallBuffer - s.cur)
  · obtain ⟨t, ht, -, htcontent⟩ := htake hfits
    exact ⟨t, ht, fun _ ↦ htcontent, fun hnot ↦ (hnot hfits).elim⟩
  · exact ⟨s, hleave hfits, fun hyes ↦ (hfits hyes).elim, fun _ ↦ rfl⟩

/-- One record, with a number in it. -/
theorem insertions_safe_number :
    ∃ s, Trace.run (insert fun _ ↦ ascii "1.5") (init (List.replicate cSmallBuffer 0))
      [.integer (.int (-7)), .double 1.5] = some s ∧ s.content = ascii "-71.5" := by
  have hfmt : ∀ _ : Float, (ascii "1.5").length < cMaxNumericSize := fun _ ↦ by decide
  have hmem : (List.replicate cSmallBuffer (0 : UInt8)).length = cSmallBuffer :=
    List.length_replicate
  obtain ⟨s, hrun, -, -, -, hcontent, -⟩ :=
    insertions_safe hfmt hmem [.integer (.int (-7)), .double 1.5]
  refine ⟨s, hrun, hcontent.trans ?_⟩
  rfl

end LogStream

end Netlib
