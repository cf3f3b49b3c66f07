import Netlib.Base.LogInsert
import Netlib.Base.LogTime

/-!
# `netlib::Logger`

A log record from the constructor of `Logger` to its destructor (`base/Logging.cc`): the header, what
is streamed, and the end of the line.
-/

namespace Netlib

open Storage

inductive LogLevel where
  | TRACE
  | DEBUG
  | INFO
  | WARN
  | ERROR
  | FATAL
deriving DecidableEq, Repr

def LogLevelName : LogLevel → List UInt8
  | .TRACE => ascii "TRACE "
  | .DEBUG => ascii "DEBUG "
  | .INFO => ascii "INFO  "
  | .WARN => ascii "WARN  "
  | .ERROR => ascii "ERROR "
  | .FATAL => ascii "FATAL "

/-- A text with its own length. -/
def Span.whole (text : List UInt8) : Span where
  data := text
  len := Int32.ofNat text.length
  readable := by
    rw [Int32.toInt_ofNat', show Int32.size = 4294967296 from rfl]
    simp only [Int.bmod]
    split <;> omega

/-- The last position of a character. -/
def strrchr (s : List UInt8) (c : UInt8) : Option Nat :=
  (List.range s.length).reverse.find? fun i ↦ s[i]? = some c

/-- The name behind the last `/`, from either constructor. -/
def SourceFile (filename : List UInt8) : Span :=
  match strrchr filename 47 with
  | some pos => .whole (filename.drop (pos + 1))
  | none => .whole filename

/-- The constructors of `Logger`, by the arguments behind the file name and the line. -/
inductive Ctor where
  | plain
  | level (level : LogLevel)
  | func (level : LogLevel) (func : List UInt8)
  | toAbort (toAbort : Bool)

namespace Ctor

def logLevel : Ctor → LogLevel
  | plain => .INFO
  | level l | func l _ => l
  | toAbort b => if b then .FATAL else .ERROR

/-- What the constructor streams itself. -/
def pieces : Ctor → List Piece
  | func _ f => [.cstr (some f), .char 32]
  | plain | level _ | toAbort _ => []

end Ctor

/-- What the destructor does. -/
inductive LogEvent where
  /-- `g_outPut`. -/
  | output (record : List UInt8)
  /-- `g_Flush`. -/
  | flush
  | abort
deriving DecidableEq, Repr

structure Logger where
  basename : Span
  line : Int32
  level : LogLevel
  stream : LogStream

namespace Logger

variable (fmtG : Float → List UInt8)

/-- `CurrentThread::tidString()`, `"%5d"`. -/
def tidString (tid : Int32) : List UInt8 := padBlank 5 tid.toInt

/-- `Impl::Impl`, and what the constructor of `Logger` does behind it. -/
def construct (c : Calendar) (zone : Option Data) (cache : TimeCache) (now : Int) (tid : Int32)
    (mem filename : List UInt8) (line : Int32) (ctor : Ctor) : Option (TimeCache × Logger) := do
  let (cache, time, us) ← LogTime.formatTime c zone cache now
  let stream ← Trace.run (LogStream.insert fmtG) (.init mem)
    ([.append (.whole time), .append (.whole us), .append (.whole (tidString tid)),
      .append (.whole (LogLevelName ctor.logLevel))] ++ ctor.pieces)
  return (cache, ⟨SourceFile filename, line, ctor.logLevel, stream⟩)

/-- What `finish` streams. -/
def trailer (basename : Span) (line : Int32) : List Piece :=
  [.cstr (some (ascii " - ")), .append basename, .cstr (some (ascii ":")), .integer (.int line),
    .cstr (some (ascii "\n"))]

def finish (l : Logger) : Option Logger :=
  (Trace.run (LogStream.insert fmtG) l.stream (trailer l.basename l.line)).map fun stream ↦
    { l with stream := stream }

/-- What the destructor does behind the output. -/
def afterOutput (level : LogLevel) : List LogEvent :=
  if level = .FATAL then [.flush, .abort] else []

/-- `~Logger`. -/
def destroy (l : Logger) : Option (List LogEvent) :=
  (l.finish fmtG).map fun l ↦ .output l.stream.content :: afterOutput l.level

end Logger

/-! ## 1. The end of the line -/

/-- The record ends with its newline if the name of the file leaves three bytes, or is itself dropped
where three bytes are left; or if the name itself ends with a newline, and leaves a single byte. -/
def LineFits (vaild : Nat) (basename : Span) : Prop :=
  -- what `" - "` leaves
  let room := if 3 < vaild then vaild - 3 else vaild
  3 ≤ room ∧ (basename.size + 3 ≤ room ∨ room ≤ basename.size) ∨
    basename.size + 1 = room ∧ basename.text.getLast? = some 10

section

variable {fmtG : Float → List UInt8} {before : List UInt8} {room : Nat} {basename : Span}
  {line : Int32}

theorem fits_cstr {text : List UInt8} :
    (Piece.cstr (some text)).Fits fmtG room ↔ text.length < room := Iff.rfl

theorem fits_append {span : Span} :
    (Piece.append span).Fits fmtG room ↔ span.size < room := Iff.rfl

theorem fits_integer {v : Integer} :
    (Piece.integer v).Fits fmtG room ↔ cMaxNumericSize ≤ room := Iff.rfl

theorem kept_newline : (kept fmtG room [.cstr (some (ascii "\n"))]).flatten =
    if 1 < room then [10] else [] := by
  by_cases h : 1 < room
  · rw [kept_cons_of_fits (fits_cstr.mpr h), if_pos h]
    rfl
  · rw [kept_cons_of_not_fits (mt fits_cstr.mp h), if_neg h]
    rfl

/-- The line number is dropped, or leaves room for the newline behind it. -/
theorem kept_line (fmtG : Float → List UInt8) (line : Int32) (hroom : 2 ≤ room) :
    ∃ number, (kept fmtG room [.integer (.int line), .cstr (some (ascii "\n"))]).flatten =
      number ++ [10] := by
  by_cases h : cMaxNumericSize ≤ room
  · have hlen := decimal_length_le (Integer.int line).value_bounds.1
      (Integer.int line).value_bounds.2
    have hleft : 1 < room - (decimal (Integer.int line).value).length := by
      unfold cMaxNumericSize at h
      omega
    rw [kept_cons_of_fits (fits_integer.mpr h), List.flatten_cons, kept_newline]
    exact ⟨_, congrArg _ (if_pos hleft)⟩
  · rw [kept_cons_of_not_fits (mt fits_integer.mp h), kept_newline, if_pos (by omega)]
    exact ⟨[], rfl⟩

/-- Behind the name of the file: with three bytes left the newline is the last byte, with two the
colon is, and with one nothing is written. -/
theorem ends_behind_basename (hroom : 1 ≤ room) :
    (before ++ (kept fmtG room
      [.cstr (some (ascii ":")), .integer (.int line), .cstr (some (ascii "\n"))]).flatten).getLast? =
        some 10 ↔ 3 ≤ room ∨ room = 1 ∧ before.getLast? = some 10 := by
  have hcolon : (ascii ":").length = 1 := rfl
  rcases Nat.lt_or_ge 1 room with h | h
  · rw [kept_cons_of_fits (fits_cstr.mpr h), List.flatten_cons]
    show (before ++ (ascii ":" ++ (kept fmtG (room - 1) _).flatten)).getLast? = _ ↔ _
    rcases Nat.lt_or_ge 2 room with h' | h'
    · obtain ⟨number, hnumber⟩ := kept_line fmtG line (show 2 ≤ room - 1 by omega)
      rw [hnumber, ← List.append_assoc, ← List.append_assoc, List.getLast?_concat]
      exact iff_of_true rfl (Or.inl h')
    -- the colon takes one byte, and a newline would need two
    · obtain rfl : room = 2 := by omega
      have hnone : (kept fmtG (2 - 1) [.integer (.int line), .cstr (some (ascii "\n"))]).flatten =
          [] := by
        rw [kept_cons_of_not_fits (mt fits_integer.mp (by decide)), kept_newline,
          if_neg (by decide)]
      rw [hnone, List.append_nil, List.getLast?_append]
      have hlast : (ascii ":").getLast?.or before.getLast? = some 58 := rfl
      rw [hlast]
      exact iff_of_false (by decide) (by omega)
  · obtain rfl : room = 1 := by omega
    rw [kept_cons_of_not_fits (mt fits_cstr.mp (by decide)),
      kept_cons_of_not_fits (mt fits_integer.mp (by decide)), kept_newline, if_neg (by decide),
      List.append_nil]
    simp

theorem ends_behind_dash (hroom : 1 ≤ room) (hcap : room ≤ cSmallBuffer)
    (hbefore : before.getLast? ≠ some 10) :
    (before ++ (kept fmtG room [.append basename, .cstr (some (ascii ":")), .integer (.int line),
      .cstr (some (ascii "\n"))]).flatten).getLast? = some 10 ↔
        3 ≤ room ∧ (basename.size + 3 ≤ room ∨ room ≤ basename.size) ∨
          basename.size + 1 = room ∧ basename.text.getLast? = some 10 := by
  by_cases h : basename.size < room
  · have hlen := basename.text_length (lt_of_lt_of_le h hcap)
    rw [kept_cons_of_fits (fits_append.mpr h), List.flatten_cons, ← List.append_assoc]
    show ((before ++ basename.text) ++ (kept fmtG (room - basename.text.length) _).flatten).getLast? =
      _ ↔ _
    rw [hlen, ends_behind_basename (by omega), List.getLast?_append]
    have hlast : basename.text.getLast?.or before.getLast? = some 10 ↔
        basename.text.getLast? = some 10 := by
      cases hname : basename.text.getLast? with
      | none => simpa using hbefore
      | some b => simp
    rw [hlast]
    by_cases hname : basename.text.getLast? = some 10
    · simp only [hname, and_true]
      omega
    · simp only [hname, and_false, or_false]
      omega
  -- a name that is dropped leaves its room to the rest
  · rw [kept_cons_of_not_fits (mt fits_append.mp h), ends_behind_basename hroom]
    have hsize : basename.size + 1 ≠ room := by omega
    simp only [hbefore, hsize, and_false, false_and, or_false]
    omega

/-- Whether a record ends with its newline. -/
theorem ends_iff_lineFits (fmtG : Float → List UInt8) (basename : Span) (line : Int32) {vaild : Nat}
    (hpos : 1 ≤ vaild) (hcap : vaild ≤ cSmallBuffer)
    (hbefore : before.getLast? ≠ some 10) :
    (before ++ (kept fmtG vaild (Logger.trailer basename line)).flatten).getLast? = some 10 ↔
      LineFits vaild basename := by
  unfold Logger.trailer LineFits
  by_cases h : 3 < vaild
  · rw [kept_cons_of_fits (fits_cstr.mpr h), List.flatten_cons, ← List.append_assoc]
    show ((before ++ ascii " - ") ++ (kept fmtG (vaild - 3) _).flatten).getLast? = _ ↔ _
    simp only [if_pos h]
    apply ends_behind_dash (by omega) (by omega)
    rw [List.getLast?_append]
    have hlast : (ascii " - ").getLast?.or before.getLast? = some 32 := rfl
    rw [hlast]
    decide
  · rw [kept_cons_of_not_fits (mt fits_cstr.mp h)]
    simp only [if_neg h]
    exact ends_behind_dash hpos hcap hbefore

end

/-! ## 2. The header -/

section

variable {fmtG : Float → List UInt8} {c : Calendar} {zone : Option Data} {cache cache' : TimeCache}
  {now : Int} {time us mem : List UInt8}

theorem whole_size {text : List UInt8} (h : text.length < 2 ^ 31) :
    (Span.whole text).size = text.length := by
  unfold Span.size Span.whole
  simp only
  rw [Int32.toInt_ofNat_of_lt h, sizeOfInt_natCast (by omega)]

/-- Texts that have room together are all accepted. -/
theorem kept_whole {texts : List (List UInt8)} {room : Nat} (hroom : texts.flatten.length < room)
    (hcap : room ≤ cSmallBuffer) (xs : List Piece) :
    kept fmtG room (texts.map (fun text ↦ .append (.whole text)) ++ xs) =
      texts ++ kept fmtG (room - texts.flatten.length) xs := by
  induction texts generalizing room with
  | nil => rfl
  | cons text texts ih =>
    rw [List.flatten_cons, List.length_append] at hroom
    unfold cSmallBuffer at hcap
    have hsize := whole_size (show text.length < 2 ^ 31 by omega)
    have htext : (Piece.append (.whole text)).text fmtG = text := by
      show text.take (Span.whole text).size = text
      rw [hsize, List.take_length]
    have hfits : (Piece.append (.whole text)).Fits fmtG room := fits_append.mpr (by omega)
    rw [List.map_cons, List.cons_append, kept_cons_of_fits hfits, htext,
      ih (by omega) (by unfold cSmallBuffer; omega), List.cons_append, List.flatten_cons,
      List.length_append, Nat.sub_sub]

theorem formatTime_lengths (h : LogTime.formatTime c zone cache now = some (cache', time, us)) :
    time.length = 17 ∧ us.length ≤ 9 := by
  simp only [LogTime.formatTime, Option.bind_eq_bind, Option.bind_eq_some_iff,
    Option.ite_none_right_eq_some, Option.pure_def, Option.some.injEq, Prod.mk.injEq] at h
  obtain ⟨m, -, ⟨hus, htime⟩, rfl, rfl, rfl⟩ := h
  refine ⟨htime, ?_⟩
  rw [hus]
  split <;> omega

theorem tidString_length_le (tid : Int32) : (Logger.tidString tid).length ≤ 20 := by
  have hlo := tid.le_toInt
  have hhi := tid.toInt_lt
  have hlen : (decimal tid.toInt).length ≤ 20 := decimal_length_le (by omega) (by omega)
  unfold Logger.tidString padBlank List.leftpad
  rw [List.length_append, List.length_replicate]
  omega

theorem LogLevelName_length (level : LogLevel) : (LogLevelName level).length = 6 := by
  cases level <;> rfl

theorem newline_not_mem_LogLevelName (level : LogLevel) : 10 ∉ LogLevelName level := by
  cases level <;> decide

namespace Logger

/-- Date and time, microseconds, thread and level. -/
def header (time us : List UInt8) (tid : Int32) (level : LogLevel) : List UInt8 :=
  time ++ us ++ tidString tid ++ LogLevelName level

/-- The record starts with the whole header. -/
theorem construct_eq (hfmt : ∀ v, (fmtG v).length < cMaxNumericSize)
    (hmem : mem.length = cSmallBuffer)
    (htime : LogTime.formatTime c zone cache now = some (cache', time, us)) (tid line : Int32)
    (filename : List UInt8) (ctor : Ctor) :
    ∃ stream, construct fmtG c zone cache now tid mem filename line ctor =
        some (cache', ⟨SourceFile filename, line, ctor.logLevel, stream⟩) ∧ stream.Sound ∧
      stream.content = header time us tid ctor.logLevel ++
        (kept fmtG (cSmallBuffer - (header time us tid ctor.logLevel).length)
          ctor.pieces).flatten := by
  obtain ⟨htlen, hulen⟩ := formatTime_lengths htime
  have hidlen := tidString_length_le tid
  have hlevel := LogLevelName_length ctor.logLevel
  have hflat : [time, us, tidString tid, LogLevelName ctor.logLevel].flatten =
      header time us tid ctor.logLevel := by
    simp [header]
  have hroom : (header time us tid ctor.logLevel).length < cSmallBuffer := by
    unfold header cSmallBuffer
    simp only [List.length_append]
    omega
  obtain ⟨stream, hrun, hsound, hcontent⟩ := LogStream.run_insert hfmt (LogStream.init_sound hmem)
    ([time, us, tidString tid, LogLevelName ctor.logLevel].map
      (fun text ↦ Piece.append (.whole text)) ++ ctor.pieces)
  refine ⟨stream, ?_, hsound, ?_⟩
  · simp only [List.map_cons, List.map_nil] at hrun
    simp only [construct, htime, hrun, Option.bind_eq_bind, Option.bind_some]
    rfl
  · rw [hcontent]
    show [] ++ (kept fmtG cSmallBuffer _).flatten = _
    rw [kept_whole (by rw [hflat]; exact hroom) le_rfl, List.flatten_append, hflat,
      List.nil_append]

/-- No newline is the last byte of a record under construction. -/
theorem header_last_ne {tid : Int32} {level : LogLevel} {texts : List UInt8} (h : 10 ∉ texts) :
    (header time us tid level ++ texts).getLast? ≠ some 10 := by
  unfold header
  rw [List.append_assoc, List.getLast?_append_of_ne_nil]
  · intro hlast
    rcases List.mem_append.mp (List.mem_of_getLast? hlast) with hmem | hmem
    · exact newline_not_mem_LogLevelName level hmem
    · exact h hmem
  · intro hnil
    have hlen := LogLevelName_length level
    rw [List.append_eq_nil_iff.mp hnil |>.1] at hlen
    cases hlen

/-! ## 3. The record -/

/-- What the destructor passes on of a record under construction. -/
theorem destroy_eq (hfmt : ∀ v, (fmtG v).length < cMaxNumericSize) {l : Logger}
    (hs : l.stream.Sound) :
    ∃ record, l.destroy fmtG = some (.output record :: afterOutput l.level) ∧
      record = l.stream.content ++ (kept fmtG (cSmallBuffer - l.stream.cur)
        (trailer l.basename l.line)).flatten := by
  obtain ⟨stream, hrun, -, hcontent⟩ := LogStream.run_insert hfmt hs (trailer l.basename l.line)
  refine ⟨stream.content, ?_, hcontent⟩
  rw [destroy, finish, hrun, Option.map_some, Option.map_some]

/-- What has been streamed, and the record from it. -/
theorem record_eq (hfmt : ∀ v, (fmtG v).length < cMaxNumericSize)
    (hmem : mem.length = cSmallBuffer)
    (htime : LogTime.formatTime c zone cache now = some (cache', time, us)) (tid line : Int32)
    (filename : List UInt8) (ctor : Ctor) (xs : List Piece) :
    ∃ l s record, construct fmtG c zone cache now tid mem filename line ctor = some (cache', l) ∧
      Trace.run (LogStream.insert fmtG) l.stream xs = some s ∧
      destroy fmtG { l with stream := s } =
        some (.output record :: afterOutput ctor.logLevel) ∧ s.Sound ∧
      s.content = header time us tid ctor.logLevel ++
        (kept fmtG (cSmallBuffer - (header time us tid ctor.logLevel).length)
          (ctor.pieces ++ xs)).flatten ∧
      record = s.content ++ (kept fmtG (cSmallBuffer - s.cur)
        (trailer (SourceFile filename) line)).flatten := by
  obtain ⟨stream, hctor, hsound, hcontent⟩ :=
    construct_eq hfmt hmem htime tid line filename ctor
  obtain ⟨s, hrun, hs, hscontent⟩ := LogStream.run_insert hfmt hsound xs
  obtain ⟨record, hdestroy, hrecord⟩ :=
    destroy_eq hfmt (l := ⟨SourceFile filename, line, ctor.logLevel, s⟩) hs
  refine ⟨_, s, record, hctor, hrun, hdestroy, hs, ?_, hrecord⟩
  rw [hscontent, hcontent, kept_append, ← hsound.content_length, hcontent, List.length_append,
    List.flatten_append, Nat.sub_sub, List.append_assoc]

/-- **The end of the line.**  Whatever is streamed, a record starts with the whole header, and it
ends with a newline exactly when the name of the file leaves room for it. -/
theorem record_terminated_iff (hfmt : ∀ v, (fmtG v).length < cMaxNumericSize)
    (hmem : mem.length = cSmallBuffer)
    (htime : LogTime.formatTime c zone cache now = some (cache', time, us)) (tid line : Int32)
    (filename : List UInt8) (ctor : Ctor) {xs : List Piece}
    (hxs : ∀ x ∈ ctor.pieces ++ xs, 10 ∉ x.text fmtG) :
    ∃ l s record, construct fmtG c zone cache now tid mem filename line ctor = some (cache', l) ∧
      Trace.run (LogStream.insert fmtG) l.stream xs = some s ∧
      destroy fmtG { l with stream := s } =
        some (.output record :: afterOutput ctor.logLevel) ∧
      ((header time us tid ctor.logLevel <+: record ∧ record.getLast? = some 10) ↔
        LineFits s.vaild.toNat (SourceFile filename)) := by
  obtain ⟨l, s, record, hctor, hrun, hdestroy, hs, hcontent, hrecord⟩ :=
    record_eq hfmt hmem htime tid line filename ctor xs
  refine ⟨l, s, record, hctor, hrun, hdestroy, ?_⟩
  have hspare := hs.spare
  have hlast : s.content.getLast? ≠ some 10 := by
    rw [hcontent]
    apply header_last_ne
    intro hmem
    obtain ⟨text, htext, h10⟩ := List.mem_flatten.mp hmem
    obtain ⟨x, hx, rfl⟩ := exists_of_mem_kept htext
    exact hxs x hx h10
  have hends := ends_iff_lineFits fmtG (SourceFile filename) line
    (show 1 ≤ cSmallBuffer - s.cur by omega) (Nat.sub_le _ _) hlast
  rw [← hrecord, ← hs.toNat_vaild] at hends
  rw [← hends]
  refine and_iff_right ?_
  rw [hrecord, hcontent, List.append_assoc]
  exact List.prefix_append _ _

end Logger

end

namespace Logger

/-- One line of the main thread, in the second behind the epoch. -/
theorem record_terminated_iff_plain :
    ∃ l s record, construct (fun _ ↦ ascii "0") gregorian none ⟨0, []⟩ 1000000 7
        (List.replicate cSmallBuffer 0) (ascii "base/a.cc") 12 .plain =
        some (LogTime.loggedOnce.cache, l) ∧
      Trace.run (LogStream.insert fun _ ↦ ascii "0") l.stream [.string (ascii "started")] =
        some s ∧
      destroy (fun _ ↦ ascii "0") { l with stream := s } =
        some (.output record :: afterOutput .INFO) ∧
      ((header (ascii "19700101 00:00:01") (ascii ".000000Z ") 7 .INFO <+: record ∧
        record.getLast? = some 10) ↔ LineFits s.vaild.toNat (SourceFile (ascii "base/a.cc"))) :=
  record_terminated_iff (fun _ ↦ by decide) List.length_replicate LogTime.formatTime_firstSecond 7 12
    (ascii "base/a.cc") .plain (by decide)

/-- The same line with a message that leaves a single byte: the record ends inside the message. -/
theorem record_unterminated :
    ∃ l s record, construct (fun _ ↦ ascii "0") gregorian none ⟨0, []⟩ 1000000 7
        (List.replicate cSmallBuffer 0) (ascii "base/a.cc") 12 .plain =
        some (LogTime.loggedOnce.cache, l) ∧
      Trace.run (LogStream.insert fun _ ↦ ascii "0") l.stream
        [.string (List.replicate 3962 120)] = some s ∧
      destroy (fun _ ↦ ascii "0") { l with stream := s } = some [.output record] ∧
      record.getLast? ≠ some 10 := by
  have hfmt : ∀ _ : Float, (ascii "0").length < cMaxNumericSize := fun _ ↦ by decide
  obtain ⟨l, s, record, hctor, hrun, hdestroy, hs, hcontent, hrecord⟩ :=
    record_eq hfmt List.length_replicate
      LogTime.formatTime_firstSecond 7 12 (ascii "base/a.cc") .plain
      [.string (List.replicate 3962 120)]
  refine ⟨l, s, record, hctor, hrun, hdestroy, ?_⟩
  have hheader : (header (ascii "19700101 00:00:01") (ascii ".000000Z ") 7
      Ctor.plain.logLevel).length = 37 := by decide
  have hlen : ((Piece.string (List.replicate 3962 120)).text fun _ ↦ ascii "0").length = 3962 :=
    List.length_replicate
  -- the message fills the buffer but for one byte
  rw [hheader, show Ctor.plain.pieces ++ [Piece.string (List.replicate 3962 120)] =
    [Piece.string (List.replicate 3962 120)] from rfl,
    kept_cons_of_fits (lt_of_eq_of_lt hlen (by decide)), kept, List.flatten_cons, List.flatten_nil,
    List.append_nil] at hcontent
  have hcur : s.cur = 3999 := by
    rw [← hs.content_length, hcontent, List.length_append, hheader, hlen]
  have hlast : s.content.getLast? ≠ some 10 := by
    rw [hcontent]
    exact header_last_ne fun hmem ↦ absurd (List.eq_of_mem_replicate hmem) (by decide)
  have hends := ends_iff_lineFits (fun _ ↦ ascii "0") (SourceFile (ascii "base/a.cc")) 12
    (show 1 ≤ cSmallBuffer - s.cur by rw [hcur]; decide) (Nat.sub_le _ _) hlast
  rw [← hrecord, hcur] at hends
  rw [ne_eq, hends]
  have hsize : (SourceFile (ascii "base/a.cc")).size = 4 := by decide
  simp [LineFits, hsize, cSmallBuffer]

end Logger

end Netlib
