import Netlib.Base.LogFile
import Netlib.Base.TimeText

/-!
# The names of the log files

`LogFile::getLogFileName` (`base/LogFile.cc`) and the directory that `AppendFile` opens its files in, with
`fopen(filename, "ae")`: a name that is there already is appended to.  The names of one log are in
the order of the times they are made from, within a century, since `%y` has two digits.
-/

namespace Netlib

open Gregorian FixedWidth

/-- `strftime` with `".%y%m%d-%H%M%S."`. -/
def timebuf (tm : Tm) : List UInt8 :=
  ascii "." ++ padZero 2 (tm.year % 100) ++ padZero 2 (tm.mon + 1) ++ padZero 2 tm.mday ++
    ascii "-" ++ padZero 2 tm.hour ++ padZero 2 tm.min ++ padZero 2 tm.sec ++ ascii "."

/-- `".%d"`. -/
def pidbuf (pid : Int32) : List UInt8 := printInto 32 (ascii "." ++ decimal pid.toInt)

/-- The name for a reading of the clock, on a host with a name at that time. -/
def getLogFileName (c : Calendar) (basename : List UInt8) (hostname : Int → List UInt8)
    (pid : Int32) (t : Int) : List UInt8 :=
  basename ++ timebuf (c.gmtime_r t) ++ hostname t ++ pidbuf pid ++ ascii ".log"

/-- What the files of a directory have, by their names. -/
abbrev Directory := List UInt8 → Option (List UInt8)

namespace Directory

/-- `fopen(filename, "ae")`. -/
def openAppend (d : Directory) (filename : List UInt8) : Directory :=
  Function.update d filename (some ((d filename).getD []))

/-- Bytes that a stream opened so has accepted. -/
def write (d : Directory) (filename bytes : List UInt8) : Directory :=
  Function.update d filename (some ((d filename).getD [] ++ bytes))

end Directory

/-- A log and the directory of its files. -/
structure LogDirectory where
  log : LogFile
  dir : Directory

namespace LogDirectory

/-- The constructor; `name` is `getLogFileName`. -/
def init (name : Int → List UInt8) (dir : Directory) (now : Int) : LogDirectory where
  log := .init now
  dir := if 0 < now then dir.openAppend (name now) else dir

/-- `LogFile::append`, which has opened a new file when it has set `_lastRoll`. -/
def append (cfg : LogConfig) (name : Int → List UInt8) (s : LogDirectory) (call : LogFile.Call) :
    Option LogDirectory := do
  let f ← s.log.file
  let file ← f.file.append call.msg call.writes
  let log ← s.log.append cfg call
  let dir := s.dir.write (name f.openedAt) (file.content.drop f.file.content.length)
  return ⟨log, if s.log.lastRoll < log.lastRoll then dir.openAppend (name log.lastRoll) else dir⟩

end LogDirectory

/-! ## 1. Names -/

/-- The seconds of the century from the year `100 * k` on. -/
def century (k : Int) : Set Int := {t | startOfYear (100 * k) ≤ t ∧ t < startOfYear (100 * k + 100)}

theorem timebuf_field (k : Int) :
    Field (century k) 15 fun t ↦ timebuf (gregorian.gmtime_r t) := by
  -- `%y` within a century
  have hyear : Field {y : Int | 100 * k ≤ y ∧ y < 100 * k + 100} 2
      fun y ↦ padZero 2 ((y - 1900) % 100) := by
    refine (padZero_field 2 (by decide)).comp (fun y ↦ (y - 1900) % 100) (fun y _ ↦ ?_)
      fun y hy z hz hlt ↦ ?_
    · exact ⟨by omega, show _ < (100 : Int) by omega⟩
    · have hy1 := hy.1
      have hz2 := hz.2
      omega
  have hfield := ((gmtime_field hyear (padZero_field 2 (by decide)) [] (ascii "-") []).append
    (ascii ".")).prepend (ascii ".")
  refine (hfield.mono fun t ht ↦ gmtime_year_mem ht.1 ht.2).congr fun t _ ↦ ?_
  simp only [timebuf, Int.add_sub_cancel, List.append_nil, List.append_assoc]

/-- Names of the same log in the order of the times. -/
theorem getLogFileName_lt {k : Int} (basename : List UInt8) (hostname : Int → List UInt8)
    (pid : Int32) {t u : Int} (ht : t ∈ century k) (hu : u ∈ century k) (h : t < u) :
    getLogFileName gregorian basename hostname pid t <
      getLogFileName gregorian basename hostname pid u := by
  have hfield := timebuf_field k
  have hlt := append_lt_append ((hfield.length t ht).trans (hfield.length u hu).symm)
    (hfield.lt t ht u hu h) (hostname t ++ (pidbuf pid ++ ascii ".log"))
    (hostname u ++ (pidbuf pid ++ ascii ".log"))
  simp only [getLogFileName, List.append_assoc]
  exact List.append_left_lt hlt

/-! ## 2. The files of a run -/

namespace LogDirectory

/-- The log on a directory that was `before`: its files are opened at ascending times of one century,
have the messages so far between them, and are in the directory under their names; nothing else
there has changed. -/
structure Ordered (name : Int → List UInt8) (times : Set Int) (before : Directory)
    (s : LogDirectory) (messages : List (List UInt8)) : Prop where
  file : ∃ f, s.log.file = some f ∧ f.openedAt = s.log.lastRoll
  ascending : (s.log.files.map (·.openedAt)).Pairwise (· < ·)
  times : ∀ f ∈ s.log.files, f.openedAt ∈ times
  content : (s.log.files.map (·.file.content)).flatten = messages.flatten
  held : ∀ f ∈ s.log.files, s.dir (name f.openedAt) = some f.file.content
  others : ∀ n, (∀ f ∈ s.log.files, n ≠ name f.openedAt) → s.dir n = before n

section

variable {cfg : LogConfig} {name : Int → List UInt8} {times : Set Int} {before : Directory}
  {s : LogDirectory} {messages : List (List UInt8)} {now : Int}

/-- A call either goes on with the file or closes it and opens one at a later time. -/
theorem afterAppend_cases (cfg : LogConfig) (log : LogFile) (writtenBytes : Nat) (check roll : Int) :
    ((log.afterAppend cfg writtenBytes check roll).file = log.file ∧
      (log.afterAppend cfg writtenBytes check roll).closed = log.closed ∧
      (log.afterAppend cfg writtenBytes check roll).lastRoll = log.lastRoll) ∨
    (log.lastRoll < roll ∧
      (log.afterAppend cfg writtenBytes check roll).file = some ⟨roll, .opened⟩ ∧
      (log.afterAppend cfg writtenBytes check roll).closed = log.closed ++ log.file.toList ∧
      (log.afterAppend cfg writtenBytes check roll).lastRoll = roll) := by
  have hroll (log : LogFile) : ((log.rollFile roll).file = log.file ∧
      (log.rollFile roll).closed = log.closed ∧ (log.rollFile roll).lastRoll = log.lastRoll) ∨
      (log.lastRoll < roll ∧ (log.rollFile roll).file = some ⟨roll, .opened⟩ ∧
        (log.rollFile roll).closed = log.closed ++ log.file.toList ∧
        (log.rollFile roll).lastRoll = roll) := by
    unfold LogFile.rollFile
    by_cases hlt : log.lastRoll < roll
    · simp [hlt]
    · simp [hlt]
  unfold LogFile.afterAppend
  by_cases hsize : cfg.rollSize < writtenBytes
  · rw [if_pos hsize]
    exact hroll log
  · rw [if_neg hsize]
    by_cases hturn : cfg.checkEveryN ≤ log.count + 1
    · simp only [if_pos hturn]
      split
      · exact hroll _
      · split <;> exact Or.inl ⟨rfl, rfl, rfl⟩
    · simp only [if_neg hturn]
      exact Or.inl ⟨trivial, trivial, trivial⟩

theorem files_eq {log : LogFile} {f : OpenFile} (h : log.file = some f) :
    log.files = log.closed ++ [f] := by
  rw [LogFile.files, h]
  rfl

/-- The counters and the clock do not matter. -/
theorem Ordered.congr (h : Ordered name times before s messages) {log : LogFile}
    (hfile : log.file = s.log.file) (hclosed : log.closed = s.log.closed)
    (hroll : log.lastRoll = s.log.lastRoll) :
    Ordered name times before ⟨log, s.dir⟩ messages := by
  have hfiles : log.files = s.log.files := by rw [LogFile.files, LogFile.files, hfile, hclosed]
  refine ⟨?_, ?_, ?_, ?_, ?_, ?_⟩
  · rw [hfile, hroll]
    exact h.file
  · rw [hfiles]
    exact h.ascending
  · rw [hfiles]
    exact h.times
  · rw [hfiles]
    exact h.content
  · rw [hfiles]
    exact h.held
  · rw [hfiles]
    exact h.others

/-- A message goes to the current file. -/
theorem Ordered.write (hname : ∀ t ∈ times, ∀ u ∈ times, t < u → name t ≠ name u)
    (h : Ordered name times before s messages) {f : OpenFile} (hf : s.log.file = some f)
    (msg : List UInt8) (writtenBytes : Nat) :
    Ordered name times before
      ⟨{ s.log with file := some { f with file := ⟨f.file.content ++ msg, writtenBytes⟩ } },
        s.dir.write (name f.openedAt) msg⟩ (messages ++ [msg]) := by
  obtain ⟨f', hf', hlast⟩ := h.file
  obtain rfl : f = f' := Option.some.inj (hf.symm.trans hf')
  have hfiles := files_eq hf
  obtain ⟨-, hasc, htimes, hcontent, hheld, hothers⟩ := h
  rw [hfiles] at hasc htimes hcontent hheld hothers
  rw [List.map_append, List.map_singleton] at hasc hcontent
  -- the files that are closed have other names
  have hne (g : OpenFile) (hg : g ∈ s.log.closed) : name g.openedAt ≠ name f.openedAt :=
    hname _ (htimes g (List.mem_append_left _ hg)) _ (htimes f (by simp))
      ((List.pairwise_append.mp hasc).2.2 _ (List.mem_map_of_mem hg) _ (by simp))
  have hdir : s.dir (name f.openedAt) = some f.file.content := hheld f (by simp)
  refine ⟨⟨_, rfl, hlast⟩, ?_, ?_, ?_, ?_, ?_⟩
  · rw [files_eq rfl, List.map_append, List.map_singleton]
    exact hasc
  · rw [files_eq rfl]
    intro g hg
    rcases List.mem_append.mp hg with hclosed | hcurrent
    · exact htimes g (List.mem_append_left _ hclosed)
    · rw [List.mem_singleton.mp hcurrent]
      exact htimes f (by simp)
  · rw [files_eq rfl, List.map_append, List.map_singleton, List.flatten_append,
      List.flatten_append, ← hcontent, List.flatten_append]
    simp
  · rw [files_eq rfl]
    intro g hg
    rcases List.mem_append.mp hg with hclosed | hcurrent
    · show Function.update _ _ _ _ = _
      rw [Function.update_of_ne (hne g hclosed)]
      exact hheld g (List.mem_append_left _ hclosed)
    · rw [List.mem_singleton.mp hcurrent]
      show Function.update _ _ _ _ = _
      rw [Function.update_self, hdir, Option.getD_some]
  · rw [files_eq rfl]
    intro n hn
    show Function.update _ _ _ _ = _
    have hcurrent : n ≠ name f.openedAt :=
      hn { f with file := ⟨f.file.content ++ msg, writtenBytes⟩ } (by simp)
    rw [Function.update_of_ne hcurrent]
    refine hothers n fun g hg ↦ ?_
    rcases List.mem_append.mp hg with hclosed | hlast
    · exact hn g (List.mem_append_left _ hclosed)
    · rw [List.mem_singleton.mp hlast]
      exact hcurrent

theorem Ordered.le_lastRoll (h : Ordered name times before s messages) {g : OpenFile}
    (hg : g ∈ s.log.files) : g.openedAt ≤ s.log.lastRoll := by
  obtain ⟨f, hf, hlast⟩ := h.file
  have hasc := h.ascending
  rw [files_eq hf] at hg hasc
  rw [List.map_append, List.map_singleton] at hasc
  rcases List.mem_append.mp hg with hclosed | hcurrent
  · have hlt := (List.pairwise_append.mp hasc).2.2 _ (List.mem_map_of_mem hclosed) f.openedAt
      (by simp)
    omega
  · rw [List.mem_singleton.mp hcurrent]
    exact hlast.le

/-- A file is opened at a later time, under a name that the directory did not have. -/
theorem Ordered.openAppend (hname : ∀ t ∈ times, ∀ u ∈ times, t < u → name t ≠ name u)
    (hnew : ∀ t ∈ times, before (name t) = none) (h : Ordered name times before s messages)
    {roll : Int} (hroll : roll ∈ times) (hlt : s.log.lastRoll < roll) {log : LogFile}
    (hfile : log.file = some ⟨roll, .opened⟩) (hclosed : log.closed = s.log.files)
    (hlast : log.lastRoll = roll) :
    Ordered name times before ⟨log, s.dir.openAppend (name roll)⟩ messages := by
  have hfiles : log.files = s.log.files ++ [⟨roll, .opened⟩] := by rw [files_eq hfile, hclosed]
  have hne (g : OpenFile) (hg : g ∈ s.log.files) : name g.openedAt ≠ name roll :=
    hname _ (h.times g hg) _ hroll (lt_of_le_of_lt (h.le_lastRoll hg) hlt)
  -- so the file is empty
  have hempty : s.dir (name roll) = none :=
    (h.others _ fun g hg ↦ (hne g hg).symm).trans (hnew roll hroll)
  refine ⟨⟨_, hfile, hlast.symm⟩, ?_, ?_, ?_, ?_, ?_⟩
  · rw [hfiles, List.map_append, List.pairwise_append]
    refine ⟨h.ascending, List.pairwise_singleton _ _, ?_⟩
    intro t ht u hu
    obtain ⟨g, hg, rfl⟩ := List.mem_map.mp ht
    rw [List.mem_singleton.mp hu]
    exact lt_of_le_of_lt (h.le_lastRoll hg) hlt
  · intro g hg
    rw [hfiles] at hg
    rcases List.mem_append.mp hg with hold | hcurrent
    · exact h.times g hold
    · rw [List.mem_singleton.mp hcurrent]
      exact hroll
  · rw [hfiles, List.map_append, List.flatten_append, h.content]
    simp [AppendFile.opened]
  · intro g hg
    rw [hfiles] at hg
    show Function.update _ _ _ _ = _
    rcases List.mem_append.mp hg with hold | hcurrent
    · rw [Function.update_of_ne (hne g hold)]
      exact h.held g hold
    · rw [List.mem_singleton.mp hcurrent, Function.update_self, hempty]
      rfl
  · intro n hn
    rw [hfiles] at hn
    show Function.update _ _ _ _ = _
    rw [Function.update_of_ne (hn _ (List.mem_append_right _ List.mem_cons_self))]
    exact h.others n fun g hg ↦ hn g (List.mem_append_left _ hg)

theorem init_ordered (hnew : ∀ t ∈ times, before (name t) = none) (hpos : 0 < now)
    (hnow : now ∈ times) : Ordered name times before (init name before now) [] := by
  have hfile : (LogFile.init now).file = some ⟨now, .opened⟩ := by
    simp [LogFile.init, LogFile.rollFile, hpos]
  have hclosed : (LogFile.init now).closed = [] := by
    simp [LogFile.init, LogFile.rollFile, hpos]
  have hlast : (LogFile.init now).lastRoll = now := by
    simp [LogFile.init, LogFile.rollFile, hpos]
  have hfiles : (LogFile.init now).files = [⟨now, .opened⟩] := by
    rw [files_eq hfile, hclosed, List.nil_append]
  have hdir : (init name before now).dir = before.openAppend (name now) := if_pos hpos
  refine ⟨⟨_, hfile, hlast.symm⟩, ?_, ?_, ?_, ?_, ?_⟩
  · show ((LogFile.init now).files.map (·.openedAt)).Pairwise (· < ·)
    rw [hfiles]
    exact List.pairwise_singleton _ _
  · intro f hf
    rw [show f = ⟨now, .opened⟩ from List.mem_singleton.mp (hfiles ▸ hf)]
    exact hnow
  · show ((LogFile.init now).files.map (·.file.content)).flatten = _
    rw [hfiles]
    rfl
  · intro f hf
    rw [show f = ⟨now, .opened⟩ from List.mem_singleton.mp (hfiles ▸ hf), hdir]
    show Function.update _ _ _ _ = _
    rw [Function.update_self, hnew now hnow]
    rfl
  · intro n hn
    have hother : n ≠ name now := hn ⟨now, .opened⟩ (hfiles ▸ List.mem_cons_self)
    rw [hdir]
    show Function.update _ _ _ _ = _
    rw [Function.update_of_ne hother]

theorem append_ordered (cfg : LogConfig)
    (hname : ∀ t ∈ times, ∀ u ∈ times, t < u → name t ≠ name u)
    (hnew : ∀ t ∈ times, before (name t) = none) (h : Ordered name times before s messages)
    {call : LogFile.Call} (hfull : AppendFile.Full call.msg call.writes)
    (hroll : call.roll ∈ times) :
    ∃ t, append cfg name s call = some t ∧
      Ordered name times before t (messages ++ [call.msg]) := by
  obtain ⟨f, hf, hlast⟩ := h.file
  have hwrite := h.write hname hf call.msg (f.file.writtenBytes + call.msg.length)
  have hcases := afterAppend_cases cfg { s.log with
    file := some { f with
      file := ⟨f.file.content ++ call.msg, f.file.writtenBytes + call.msg.length⟩ } }
    (f.file.writtenBytes + call.msg.length) call.check call.roll
  generalize hlog : LogFile.afterAppend cfg { s.log with
    file := some { f with
      file := ⟨f.file.content ++ call.msg, f.file.writtenBytes + call.msg.length⟩ } }
    (f.file.writtenBytes + call.msg.length) call.check call.roll = log at hcases
  have hstep : append cfg name s call = some ⟨log, if s.log.lastRoll < log.lastRoll then
      (s.dir.write (name f.openedAt) call.msg).openAppend (name log.lastRoll)
        else s.dir.write (name f.openedAt) call.msg⟩ := by
    have hnext : s.log.append cfg call = some log := by
      simp only [LogFile.append, hf, AppendFile.append_full hfull, Option.bind_eq_bind,
        Option.bind_some, Option.pure_def, hlog]
    simp only [append, hf, AppendFile.append_full hfull, hnext, Option.bind_eq_bind,
      Option.bind_some, Option.pure_def, List.drop_left]
  refine ⟨_, hstep, ?_⟩
  rcases hcases with ⟨hfile, hclosed, hsame⟩ | ⟨hlt, hfile, hclosed, hnow⟩
  · rw [if_neg (by rw [hsame]; exact lt_irrefl _)]
    exact hwrite.congr hfile hclosed hsame
  · rw [hnow, if_pos hlt]
    exact hwrite.openAppend hname hnew hroll hlt hfile hclosed hnow

/-- Over a run, at any readings of the clock. -/
theorem run_ordered (cfg : LogConfig) (hname : ∀ t ∈ times, ∀ u ∈ times, t < u → name t ≠ name u)
    (hnew : ∀ t ∈ times, before (name t) = none) (h : Ordered name times before s messages)
    {calls : List LogFile.Call}
    (hfull : ∀ call ∈ calls, AppendFile.Full call.msg call.writes)
    (hroll : ∀ call ∈ calls, call.roll ∈ times) :
    ∃ t, Trace.run (append cfg name) s calls = some t ∧
      Ordered name times before t (messages ++ calls.map (·.msg)) := by
  induction calls generalizing s messages with
  | nil => exact ⟨s, rfl, by rwa [List.map_nil, List.append_nil]⟩
  | cons call calls ih =>
    obtain ⟨m, hm, hnext⟩ := append_ordered cfg hname hnew h
      (hfull call List.mem_cons_self) (hroll call List.mem_cons_self)
    obtain ⟨t, ht, hlast⟩ := ih hnext (fun c hc ↦ hfull c (List.mem_cons_of_mem call hc))
      fun c hc ↦ hroll c (List.mem_cons_of_mem call hc)
    refine ⟨t, Trace.run_cons_eq_some.mpr ⟨m, hm, ht⟩, ?_⟩
    rwa [List.append_assoc] at hlast

/-- The log itself is not changed by looking at its directory. -/
theorem run_log {calls : List LogFile.Call} {t : LogDirectory}
    (h : Trace.run (append cfg name) s calls = some t) :
    Trace.run (LogFile.append cfg) s.log calls = some t.log := by
  induction calls generalizing s with
  | nil =>
    cases h
    rfl
  | cons call calls ih =>
    obtain ⟨m, hm, hr⟩ := Trace.run_cons_eq_some.mp h
    simp only [append, Option.bind_eq_bind, Option.bind_eq_some_iff, Option.pure_def,
      Option.some.injEq] at hm
    obtain ⟨f, -, file, -, log, hlog, rfl⟩ := hm
    exact Trace.run_cons_eq_some.mpr ⟨log, hlog, ih hr⟩

/-- No name is used twice: each file has a later one than those before it. -/
theorem Ordered.names_lt (hlt : ∀ t ∈ times, ∀ u ∈ times, t < u → name t < name u)
    (h : Ordered name times before s messages) :
    (s.log.files.map fun f ↦ name f.openedAt).Pairwise (· < ·) := by
  rw [List.pairwise_map]
  refine (List.pairwise_map.mp h.ascending).imp_of_mem fun hf hg hfg ↦ ?_
  exact hlt _ (h.times _ hf) _ (h.times _ hg) hfg

/-- The new names of the directory, in order, are those of the files in the order they were
opened. -/
theorem Ordered.names_eq (hlt : ∀ t ∈ times, ∀ u ∈ times, t < u → name t < name u)
    (hnew : ∀ t ∈ times, before (name t) = none) (h : Ordered name times before s messages)
    {names : List (List UInt8)} (hsorted : names.Pairwise (· < ·))
    (hmem : ∀ n, n ∈ names ↔ s.dir n ≠ before n) :
    names = s.log.files.map fun f ↦ name f.openedAt := by
  have hasc := h.names_lt hlt
  have hiff (n : List UInt8) : n ∈ names ↔ n ∈ s.log.files.map fun f ↦ name f.openedAt := by
    rw [hmem, List.mem_map]
    constructor
    · intro hne
      by_contra hnone
      exact hne (h.others n fun f hf heq ↦ hnone ⟨f, hf, heq.symm⟩)
    · rintro ⟨f, hf, rfl⟩
      rw [h.held f hf, hnew _ (h.times f hf)]
      exact Option.some_ne_none _
  have hnodup {l : List (List UInt8)} (hl : l.Pairwise (· < ·)) : l.Nodup := by
    refine hl.imp fun {a b} hab heq ↦ ?_
    rw [heq] at hab
    exact List.lt_irrefl b hab
  refine List.Perm.eq_of_pairwise (fun a b _ _ hab hba ↦ ?_) hsorted hasc
    ((List.perm_ext_iff_of_nodup (hnodup hsorted) (hnodup hasc)).mpr hiff)
  exact (List.lt_asymm hab hba).elim

theorem Ordered.listing (h : Ordered name times before s messages) :
    ((s.log.files.map fun f ↦ name f.openedAt).map fun n ↦ (s.dir n).getD []).flatten =
      messages.flatten := by
  rw [← h.content, List.map_map]
  congr 1
  refine List.map_congr_left fun f hf ↦ ?_
  rw [Function.comp_apply, h.held f hf, Option.getD_some]

/-- **The directory of a log.**  On a clock that stays in one century, whichever way it moves, and
first read behind the start of 1970, in a directory without a name of that century, and with writes
in full: the names of the files are ascending, so that none is used twice; each file is in the
directory with what was written to it alone, no other file there changes, and the new files read in
the order of their names have all messages in the order they were appended. -/
theorem directory_in_order (cfg : LogConfig) {k : Int} (basename : List UInt8)
    (hostname : Int → List UInt8) (pid : Int32) (before : Directory)
    (hnew : ∀ t ∈ century k, before (getLogFileName gregorian basename hostname pid t) = none)
    (hpos : 0 < now) (hnow : now ∈ century k) {calls : List LogFile.Call}
    (hfull : ∀ call ∈ calls, AppendFile.Full call.msg call.writes)
    (hroll : ∀ call ∈ calls, call.roll ∈ century k) :
    ∃ s, Trace.run (append cfg (getLogFileName gregorian basename hostname pid))
        (init (getLogFileName gregorian basename hostname pid) before now) calls = some s ∧
      Trace.run (LogFile.append cfg) (LogFile.init now) calls = some s.log ∧
      (s.log.files.map fun f ↦
        getLogFileName gregorian basename hostname pid f.openedAt).Pairwise (· < ·) ∧
      (∀ f ∈ s.log.files,
        s.dir (getLogFileName gregorian basename hostname pid f.openedAt) = some f.file.content) ∧
      (∀ n, (∀ f ∈ s.log.files, n ≠ getLogFileName gregorian basename hostname pid f.openedAt) →
        s.dir n = before n) ∧
      ∀ names : List (List UInt8), names.Pairwise (· < ·) →
        (∀ n, n ∈ names ↔ s.dir n ≠ before n) →
        (names.map fun n ↦ (s.dir n).getD []).flatten = (calls.map (·.msg)).flatten := by
  have hlt (t : Int) (ht : t ∈ century k) (u : Int) (hu : u ∈ century k) (htu : t < u) :=
    getLogFileName_lt basename hostname pid ht hu htu
  have hname (t : Int) (ht : t ∈ century k) (u : Int) (hu : u ∈ century k) (htu : t < u) :
      getLogFileName gregorian basename hostname pid t ≠
        getLogFileName gregorian basename hostname pid u := by
    intro heq
    have hself := hlt t ht u hu htu
    rw [heq] at hself
    exact List.lt_irrefl _ hself
  obtain ⟨s, hrun, hs⟩ := run_ordered cfg hname hnew (init_ordered hnew hpos hnow)
    hfull hroll
  rw [List.nil_append] at hs
  refine ⟨s, hrun, run_log hrun, hs.names_lt hlt, hs.held, hs.others,
    fun names hsorted hmem ↦ ?_⟩
  rw [hs.names_eq hlt hnew hsorted hmem, hs.listing]

/-- Two messages on a clock that goes on by a second, the first of which fills its file. -/
def twoFiles : List LogFile.Call :=
  [⟨[97, 98], [⟨2, false⟩], 5, 5, 6⟩, ⟨[99], [⟨1, false⟩], 7, 7, 7⟩]

/-- The directory of `twoFiles`. -/
theorem directory_in_order_twoFiles :
    ∃ s, Trace.run (append ⟨1, 3, 1024⟩
          (getLogFileName gregorian (ascii "log") (fun _ ↦ ascii "host") 1))
        (init (getLogFileName gregorian (ascii "log") (fun _ ↦ ascii "host") 1) (fun _ ↦ none) 5)
        twoFiles = some s ∧
      ∀ names : List (List UInt8), names.Pairwise (· < ·) → (∀ n, n ∈ names ↔ s.dir n ≠ none) →
        (names.map fun n ↦ (s.dir n).getD []).flatten = [97, 98, 99] := by
  have hcentury {t : Int} (hlo : 0 ≤ t) (hhi : t < 10) : t ∈ century 19 := by
    have hfirst : startOfYear (100 * 19) = -2208988800 := by decide
    have hlast : startOfYear (100 * 19 + 100) = 946684800 := by decide
    exact ⟨by omega, by omega⟩
  have hroll : ∀ call ∈ twoFiles, call.roll ∈ century 19 := by
    intro call hcall
    have hbounds : ∀ call ∈ twoFiles, 0 ≤ call.roll ∧ call.roll < 10 := by decide
    exact hcentury (hbounds call hcall).1 (hbounds call hcall).2
  obtain ⟨s, hrun, -, -, -, -, hlisting⟩ := directory_in_order ⟨1, 3, 1024⟩
    (ascii "log") (fun _ ↦ ascii "host") 1 (fun _ ↦ none) (fun _ _ ↦ rfl) (show 0 < 5 by decide)
    (hcentury (by decide) (by decide)) (by decide) hroll
  exact ⟨s, hrun, hlisting⟩

end

end LogDirectory

end Netlib
