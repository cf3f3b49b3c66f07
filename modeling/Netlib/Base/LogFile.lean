import Netlib.Base.AppendFile

/-!
# `netlib::LogFile`

A log over several files: `append` goes on to a new file when the current one is large enough, or when
it finds that a new day has come (`base/LogFile.cc`).  A file is what one `AppendFile` has written;
its name is made from the time it was opened at.
-/

namespace Netlib

def cRollPerSeconds : Int := 60 * 60 * 24

/-- The start of the UTC day. -/
def startOfDay (now : Int) : Int := now.tdiv cRollPerSeconds * cRollPerSeconds

/-- The constants of a `LogFile`. -/
structure LogConfig where
  rollSize : Int
  flushInterval : Int
  checkEveryN : Int

structure OpenFile where
  openedAt : Int
  file : AppendFile
deriving DecidableEq, Repr

structure LogFile where
  count : Int
  lastRoll : Int
  lastFlush : Int
  startOfPeriod : Int
  file : Option OpenFile
  /-- The files that `_file.reset` has closed, in order. -/
  closed : List OpenFile
  /-- What `time` returned last. -/
  clock : Int
deriving DecidableEq, Repr

namespace LogFile

/-- A call of `append` at `arrival`, with the results of its writes.  `check` and `roll` are what `time`
returns in `append` itself and in `rollFile`, where they call it. -/
structure Call where
  msg : List UInt8
  writes : List FwriteResult
  arrival : Int
  check : Int
  roll : Int
deriving DecidableEq, Repr

def rollFile (s : LogFile) (now : Int) : LogFile :=
  let s := { s with clock := now }
  if s.lastRoll < now then
    { s with
      lastRoll := now
      lastFlush := now
      startOfPeriod := startOfDay now
      closed := s.closed ++ s.file.toList
      file := some ⟨now, .opened⟩ }
  else s

/-- The constructor. -/
def init (now : Int) : LogFile := rollFile ⟨0, 0, 0, 0, none, [], 0⟩ now

/-- `append` behind its call of `_file->append`, which leaves `_file->writtenBytes()`. -/
def afterAppend (cfg : LogConfig) (s : LogFile) (writtenBytes : Nat) (check roll : Int) : LogFile :=
  if cfg.rollSize < writtenBytes then s.rollFile roll
  else
    let s := { s with count := s.count + 1 }
    if cfg.checkEveryN ≤ s.count then
      let s := { s with count := 0, clock := check }
      if startOfDay check ≠ s.startOfPeriod then s.rollFile roll
      else if cfg.flushInterval < check - s.lastFlush then { s with lastFlush := check }
      else s
    else s

/-- A null `_file` has no next state. -/
def append (cfg : LogConfig) (s : LogFile) (call : Call) : Option LogFile := do
  let f ← s.file
  let file ← f.file.append call.msg call.writes
  return afterAppend cfg { s with file := some { f with file := file } } file.writtenBytes call.check
    call.roll

/-- All files, in the order they were opened. -/
def files (s : LogFile) : List OpenFile := s.closed ++ s.file.toList

/-- The clock at the constructor and at every call, in order. -/
def times (now : Int) (calls : List Call) : List Int :=
  now :: calls.flatMap fun call ↦ [call.arrival, call.check, call.roll]

/-! ## 1. What a file has -/

/-- The calls that came on a later day than the file was opened on. -/
def lateCalls (f : OpenFile) (group : List Call) : Nat :=
  group.countP fun call ↦ startOfDay f.openedAt < startOfDay call.arrival

/-- The messages of the calls are in the file, one behind the other. -/
structure Holds (f : OpenFile) (group : List Call) : Prop where
  content : f.file.content = (group.map (·.msg)).flatten
  bytes : f.file.writtenBytes = f.file.content.length

/-- What every file is to have: its messages, and few that came on a later day. -/
structure Within (cfg : LogConfig) (f : OpenFile) (group : List Call) : Prop where
  holds : Holds f group
  late : (lateCalls f group : Int) ≤ cfg.checkEveryN

/-- The log between two calls, at a time `now`: the calls so far are split over the files. -/
structure Account (cfg : LogConfig) (s : LogFile) (now : Int) (groups : List (List Call))
    (f : OpenFile) (current : List Call) : Prop where
  file : s.file = some f
  closed : List.Forall₂ (Within cfg) s.closed groups
  holds : Holds f current
  openedAt : f.openedAt = s.lastRoll
  ascending : (s.closed.map (·.openedAt) ++ [f.openedAt]).Pairwise (· < ·)
  start : s.startOfPeriod = startOfDay s.lastRoll
  positive : 0 < s.lastRoll
  past : s.lastRoll ≤ now
  arrivals : ∀ call ∈ current, call.arrival ≤ now
  -- each late call has advanced the counter, which a check sets back only on the day of the file
  late : (lateCalls f current : Int) ≤ s.count
  count : s.count < cfg.checkEveryN
  size : cfg.rollSize < f.file.content.length → s.clock = f.openedAt

/-- There is an account of the calls so far. -/
def HasAccount (cfg : LogConfig) (s : LogFile) (now : Int) (calls : List Call) : Prop :=
  ∃ groups f current, Account cfg s now groups f current ∧ (groups ++ [current]).flatten = calls

theorem startOfDay_le {s t : Int} (h : s ≤ t) : startOfDay s ≤ startOfDay t :=
  Int.mul_le_mul_of_nonneg_right (Int.tdiv_le_tdiv (by decide) h) (by decide)

section

variable {cfg : LogConfig} {s t : LogFile} {now : Int} {groups : List (List Call)} {f f' : OpenFile}
  {current current' : List Call} {call : Call}

theorem init_account (hcheck : 1 ≤ cfg.checkEveryN) (hpos : 0 < now) :
    Account cfg (init now) now [] ⟨now, .opened⟩ [] := by
  unfold init rollFile
  simp only [if_pos hpos]
  refine ⟨rfl, .nil, ⟨rfl, rfl⟩, rfl, List.pairwise_singleton _ _, rfl, hpos, le_rfl, ?_, le_rfl,
    ?_, fun _ ↦ rfl⟩
  · intro call hcall
    cases hcall
  · show (0 : Int) < cfg.checkEveryN
    omega

theorem lateCalls_concat : lateCalls f (current ++ [call]) =
    lateCalls f current + if startOfDay f.openedAt < startOfDay call.arrival then 1 else 0 := by
  simp [lateCalls, List.countP_append, List.countP_singleton]

theorem lateCalls_concat_le : lateCalls f (current ++ [call]) ≤ lateCalls f current + 1 := by
  rw [lateCalls_concat]
  split <;> omega

/-- A call on the day of the file is not late. -/
theorem lateCalls_concat_of_le (h : startOfDay call.arrival ≤ startOfDay f.openedAt) :
    lateCalls f (current ++ [call]) = lateCalls f current := by
  rw [lateCalls_concat, if_neg (not_lt.mpr h), Nat.add_zero]

theorem Holds.concat (h : Holds f current) (call : Call) :
    Holds { f with file := ⟨f.file.content ++ call.msg, f.file.writtenBytes + call.msg.length⟩ }
      (current ++ [call]) where
  content := by simp [h.content]
  bytes := by simp [h.bytes]

/-- The log goes on in the same file. -/
theorem Account.stay (h : Account cfg s now groups f current) {later : Int} (hlater : now ≤ later)
    (hfile : t.file = some f') (hclosed : t.closed = s.closed) (hlast : t.lastRoll = s.lastRoll)
    (hstart : t.startOfPeriod = s.startOfPeriod) (hopened : f'.openedAt = f.openedAt)
    (hholds : Holds f' current') (harrivals : ∀ call ∈ current', call.arrival ≤ later)
    (hlate : (lateCalls f' current' : Int) ≤ t.count) (hcount : t.count < cfg.checkEveryN)
    (hsize : cfg.rollSize < f'.file.content.length → t.clock = f'.openedAt) :
    Account cfg t later groups f' current' where
  file := hfile
  closed := by rw [hclosed]; exact h.closed
  holds := hholds
  openedAt := by rw [hopened, hlast]; exact h.openedAt
  ascending := by rw [hclosed, hopened]; exact h.ascending
  start := by rw [hstart, hlast]; exact h.start
  positive := by rw [hlast]; exact h.positive
  past := by rw [hlast]; exact h.past.trans hlater
  arrivals := harrivals
  late := hlate
  count := hcount
  size := hsize

/-- The log goes on in a new file. -/
theorem Account.roll (h : Account cfg s now groups f current)
    {later : Int} (hlater : s.lastRoll < later) (hfile : t.file = some f')
    (hclosed : t.closed = s.closed) (hlast : t.lastRoll = s.lastRoll)
    (hopened : f'.openedAt = f.openedAt) (hholds : Holds f' current')
    (hlate : (lateCalls f' current' : Int) ≤ cfg.checkEveryN) (hcount : 0 ≤ t.count)
    (hcount' : t.count < cfg.checkEveryN) :
    Account cfg (t.rollFile later) later (groups ++ [current']) ⟨later, .opened⟩ [] := by
  have hpos := h.positive
  have hgo : t.lastRoll < later := by rw [hlast]; exact hlater
  unfold rollFile
  simp only [if_pos hgo, hfile, hclosed, Option.toList_some]
  refine ⟨rfl, List.rel_append h.closed (.cons ⟨hholds, hlate⟩ .nil), ⟨rfl, rfl⟩, rfl, ?_, rfl,
    hpos.trans hlater, le_rfl, ?_, hcount, hcount', fun _ ↦ rfl⟩
  · rw [List.map_append, List.map_singleton, hopened]
    refine List.pairwise_append.mpr ⟨h.ascending, List.pairwise_singleton _ _, ?_⟩
    intro x hx y hy
    have hle : x ≤ f.openedAt := by
      rcases List.mem_append.mp hx with hx | hx
      · exact ((List.pairwise_append.mp h.ascending).2.2 x hx _ (List.mem_singleton_self _)).le
      · exact (List.mem_singleton.mp hx).le
    rw [List.mem_singleton.mp hy]
    rw [h.openedAt] at hle
    exact lt_of_le_of_lt hle hlater
  · intro call hcall
    cases hcall

/-! ## 2. One call, and every run -/

/-- A roll that is refused leaves the clock at the second the file was opened in. -/
theorem rollFile_of_le (h : now ≤ s.lastRoll) : s.rollFile now = { s with clock := now } := by
  unfold rollFile
  simp only [if_neg (not_lt.mpr h)]

/-- Calls that came before the end of the day of the file are not late. -/
theorem lateCalls_eq_zero
    (h : ∀ call ∈ current, startOfDay call.arrival ≤ startOfDay f.openedAt) :
    lateCalls f current = 0 := by
  refine List.countP_eq_zero.mpr fun call hmem ↦ ?_
  have hle := h call hmem
  simpa using hle

/-! The message is in the file, and the account of it is to be made. -/

theorem Account.count_nonneg (h : Account cfg s now groups f current) : 0 ≤ s.count :=
  le_trans (Int.natCast_nonneg _) h.late

theorem Account.arrivals_concat (h : Account cfg s now groups f current) {later : Int}
    (harrival : now ≤ call.arrival) (hlater : call.arrival ≤ later) :
    ∀ c ∈ current ++ [call], c.arrival ≤ later := by
  intro c hc
  rcases List.mem_append.mp hc with hc | hc
  · exact (h.arrivals c hc).trans (harrival.trans hlater)
  · rw [List.mem_singleton.mp hc]
    exact hlater

/-- The counter has room for one late call more. -/
theorem Account.late_concat (h : Account cfg s now groups f current) (call : Call)
    (hopened : f'.openedAt = f.openedAt) :
    (lateCalls f' (current ++ [call]) : Int) ≤ s.count + 1 := by
  have hsame : lateCalls f' (current ++ [call]) = lateCalls f (current ++ [call]) := by
    unfold lateCalls
    rw [hopened]
  have hconcat : lateCalls f (current ++ [call]) ≤ lateCalls f current + 1 := lateCalls_concat_le
  have hlate := h.late
  rw [hsame]
  omega

/-- No call is late in the second that the file was opened in. -/
theorem Account.late_of_refused (h : Account cfg s now groups f current)
    (hopened : f'.openedAt = f.openedAt) (hnow : call.arrival ≤ s.lastRoll) :
    (lateCalls f' (current ++ [call]) : Int) ≤ s.count := by
  have hday : startOfDay call.arrival ≤ startOfDay f'.openedAt := by
    rw [hopened, h.openedAt]
    exact startOfDay_le hnow
  have hsame : lateCalls f' current = lateCalls f current := by
    unfold lateCalls
    rw [hopened]
  rw [lateCalls_concat_of_le hday, hsame]
  exact h.late

/-- The file is too large: a new one is opened, but for the second that it was opened in. -/
theorem Account.sizeRoll (h : Account cfg s now groups f current)
    (hholds : Holds f' (current ++ [call])) (hopened : f'.openedAt = f.openedAt)
    (harrival : now ≤ call.arrival) (hroll : call.arrival ≤ call.roll) :
    HasAccount cfg ({ s with file := some f' }.rollFile call.roll) call.roll
      ((groups ++ [current]).flatten ++ [call]) := by
  have hlate := h.late_concat call hopened
  have hcount := h.count
  by_cases hgo : s.lastRoll < call.roll
  · refine ⟨_, _, _, h.roll hgo rfl rfl rfl hopened hholds ?_ h.count_nonneg hcount, by simp⟩
    omega
  · have hnow : call.roll = s.lastRoll := by
      have hpast := h.past
      omega
    rw [rollFile_of_le (s := { s with file := some f' }) hnow.le]
    refine ⟨_, _, _, h.stay (harrival.trans hroll) rfl rfl rfl rfl hopened hholds
      (h.arrivals_concat harrival hroll) (h.late_of_refused hopened (hroll.trans hnow.le)) hcount ?_,
      by simp⟩
    intro _
    rw [hopened, h.openedAt, ← hnow]

/-- A new day has come: a new file is opened. -/
theorem Account.dayRoll (h : Account cfg s now groups f current)
    (hholds : Holds f' (current ++ [call])) (hopened : f'.openedAt = f.openedAt)
    (harrival : now ≤ call.check) (hroll : call.check ≤ call.roll)
    (hday : startOfDay call.check ≠ s.startOfPeriod) :
    HasAccount cfg
      ({ s with file := some f', count := 0, clock := call.check }.rollFile call.roll) call.roll
      ((groups ++ [current]).flatten ++ [call]) := by
  have hlate := h.late_concat call hopened
  have hcount := h.count
  have hnonneg := h.count_nonneg
  -- it is a new second all the more
  have hgo : s.lastRoll < call.roll := by
    have hpast := h.past
    by_contra hnot
    have hsame : call.check = s.lastRoll := by omega
    exact hday (by rw [hsame, h.start])
  refine ⟨_, _, _, h.roll hgo rfl rfl rfl hopened hholds ?_ le_rfl ?_, by simp⟩
  · omega
  · show 0 < cfg.checkEveryN
    omega

/-- Still the day of the file: none of its calls was late, and the counter starts again. -/
theorem Account.sameDay (h : Account cfg s now groups f current)
    (hholds : Holds f' (current ++ [call])) (hopened : f'.openedAt = f.openedAt)
    (harrival : now ≤ call.arrival) (hcheck : call.arrival ≤ call.check)
    (hroll : call.check ≤ call.roll) (hday : startOfDay call.check = s.startOfPeriod)
    (hsmall : ¬ cfg.rollSize < f'.file.content.length) (lastFlush : Int) :
    HasAccount cfg
      { s with file := some f', count := 0, clock := call.check, lastFlush := lastFlush } call.roll
      ((groups ++ [current]).flatten ++ [call]) := by
  have hzero : lateCalls f' (current ++ [call]) = 0 := by
    refine lateCalls_eq_zero fun c hc ↦ ?_
    rw [hopened, h.openedAt, ← h.start, ← hday]
    exact startOfDay_le (h.arrivals_concat harrival hcheck c hc)
  refine ⟨_, _, _, h.stay (harrival.trans (hcheck.trans hroll)) rfl rfl rfl rfl hopened hholds
    (h.arrivals_concat harrival (hcheck.trans hroll)) ?_ ?_ (fun hbig ↦ (hsmall hbig).elim), by simp⟩
  · rw [hzero]
    rfl
  · have hcount := h.count
    have hnonneg := h.count_nonneg
    show 0 < cfg.checkEveryN
    omega

/-- Behind the write the log goes on in the same file, or in a new one. -/
theorem afterAppend_account (h : Account cfg s now groups f current)
    (hholds : Holds f' (current ++ [call])) (hopened : f'.openedAt = f.openedAt)
    (harrival : now ≤ call.arrival) (hcheck : call.arrival ≤ call.check)
    (hroll : call.check ≤ call.roll) :
    HasAccount cfg
      (afterAppend cfg { s with file := some f' } f'.file.writtenBytes call.check call.roll)
      call.roll ((groups ++ [current]).flatten ++ [call]) := by
  unfold afterAppend
  by_cases hsize : cfg.rollSize < f'.file.writtenBytes
  · rw [if_pos hsize]
    exact h.sizeRoll hholds hopened harrival (hcheck.trans hroll)
  · rw [if_neg hsize]
    have hsmall : ¬ cfg.rollSize < f'.file.content.length := by
      rw [← hholds.bytes]
      exact hsize
    by_cases hturn : cfg.checkEveryN ≤ s.count + 1
    · simp only [if_pos hturn]
      by_cases hday : startOfDay call.check = s.startOfPeriod
      · rw [if_neg (not_not.mpr hday)]
        split
        · exact h.sameDay hholds hopened harrival hcheck hroll hday hsmall call.check
        · exact h.sameDay hholds hopened harrival hcheck hroll hday hsmall s.lastFlush
      · rw [if_pos hday]
        exact h.dayRoll hholds hopened (harrival.trans hcheck) hroll hday
    · simp only [if_neg hturn]
      refine ⟨_, _, _, h.stay (harrival.trans (hcheck.trans hroll)) rfl rfl rfl rfl hopened hholds
        (h.arrivals_concat harrival (hcheck.trans hroll)) (h.late_concat call hopened) ?_
        (fun hbig ↦ (hsmall hbig).elim), by simp⟩
      show s.count + 1 < cfg.checkEveryN
      omega

theorem append_account {calls : List Call} (h : HasAccount cfg s now calls)
    (hfull : AppendFile.Full call.msg call.writes) (harrival : now ≤ call.arrival)
    (hcheck : call.arrival ≤ call.check) (hroll : call.check ≤ call.roll) :
    ∃ t, append cfg s call = some t ∧ HasAccount cfg t call.roll (calls ++ [call]) := by
  obtain ⟨groups, f, current, hacc, rfl⟩ := h
  refine ⟨_, ?_, afterAppend_account hacc (hacc.holds.concat call) rfl harrival hcheck hroll⟩
  simp only [append, hacc.file, AppendFile.append_full hfull, Option.bind_eq_bind,
    Option.bind_some]
  rfl

/-- On a clock that does not go back, the account is kept by every sequence of calls. -/
theorem run_account {before calls : List Call} (h : HasAccount cfg s now before)
    (htimes : (times now calls).Pairwise (· ≤ ·))
    (hfull : ∀ call ∈ calls, AppendFile.Full call.msg call.writes) :
    ∃ t later, Trace.run (append cfg) s calls = some t ∧
      HasAccount cfg t later (before ++ calls) := by
  induction calls generalizing s now before with
  | nil => exact ⟨s, now, rfl, by rwa [List.append_nil]⟩
  | cons call calls ih =>
    -- a call leaves the clock at its last reading
    have hcons : times now (call :: calls) =
        now :: call.arrival :: call.check :: times call.roll calls := rfl
    rw [hcons] at htimes
    simp only [List.pairwise_cons, times, List.mem_cons, forall_eq_or_imp] at htimes
    obtain ⟨⟨harrival, -⟩, ⟨hcheck, -⟩, ⟨hroll, -⟩, hrest⟩ := htimes
    obtain ⟨m, hm, hacc⟩ :=
      append_account h (hfull call List.mem_cons_self) harrival hcheck hroll
    obtain ⟨t, later, ht, hacc'⟩ :=
      ih hacc (List.pairwise_cons.mpr hrest) fun c hc ↦ hfull c (List.mem_cons_of_mem call hc)
    refine ⟨t, later, Trace.run_cons_eq_some.mpr ⟨m, hm, ht⟩, ?_⟩
    rwa [List.append_assoc] at hacc'

theorem contents_eq {files : List OpenFile} (h : List.Forall₂ (Within cfg) files groups) :
    (files.map (·.file.content)).flatten = (groups.flatten.map (·.msg)).flatten := by
  induction h with
  | nil => rfl
  | cons hfile _ ih =>
    rw [List.map_cons, List.flatten_cons, ih, hfile.holds.content, List.flatten_cons,
      List.map_append, List.flatten_append]

/-- **Rolling.**  On a clock that does not go back, with all writes in full: the files have the
messages in order, each inside one file; they are opened at ascending times; at most `checkEveryN`
messages come to a file on a later day than its own; and the current file is larger than
`rollSize` only in the second that it was opened in. -/
theorem rolling (hcheck : 1 ≤ cfg.checkEveryN) (hpos : 0 < now) {calls : List Call}
    (htimes : (times now calls).Pairwise (· ≤ ·))
    (hfull : ∀ call ∈ calls, AppendFile.Full call.msg call.writes) :
    ∃ s groups, Trace.run (append cfg) (init now) calls = some s ∧ groups.flatten = calls ∧
      (s.files.map (·.file.content)).flatten = (calls.map (·.msg)).flatten ∧
      List.Forall₂ (fun f group ↦ f.file.content = (group.map (·.msg)).flatten ∧
        (lateCalls f group : Int) ≤ cfg.checkEveryN) s.files groups ∧
      (s.files.map (·.openedAt)).Pairwise (· < ·) ∧
      ∀ f, s.file = some f → cfg.rollSize < f.file.content.length → s.clock = f.openedAt := by
  have hinit : HasAccount cfg (init now) now [] := ⟨_, _, _, init_account hcheck hpos, rfl⟩
  obtain ⟨s, later, hrun, groups, f, current, hacc, hsplit⟩ := run_account hinit htimes hfull
  have hfiles : s.files = s.closed ++ [f] := by
    rw [files, hacc.file]
    rfl
  have hwithin : List.Forall₂ (Within cfg) s.files (groups ++ [current]) := by
    rw [hfiles]
    exact List.rel_append hacc.closed (.cons ⟨hacc.holds, hacc.late.trans hacc.count.le⟩ .nil)
  rw [List.nil_append] at hsplit
  refine ⟨s, groups ++ [current], hrun, hsplit, ?_, ?_, ?_, ?_⟩
  · rw [contents_eq hwithin, hsplit]
  · exact hwithin.imp fun _ _ h ↦ ⟨h.holds.content, h.late⟩
  · rw [hfiles, List.map_append, List.map_singleton]
    exact hacc.ascending
  · intro f' hf'
    obtain rfl : f = f' := Option.some.inj (hacc.file.symm.trans hf')
    exact hacc.size

/-- Three messages, the first two of which fill a file in its first second. -/
theorem rolling_small :
    ∃ s groups, Trace.run (append ⟨1, 3, 1024⟩) (init 5)
          [⟨[97, 98], [⟨2, false⟩], 5, 5, 5⟩, ⟨[99], [⟨1, false⟩], 6, 6, 6⟩, ⟨[], [], 7, 7, 7⟩] =
        some s ∧
      groups.flatten =
        [⟨[97, 98], [⟨2, false⟩], 5, 5, 5⟩, ⟨[99], [⟨1, false⟩], 6, 6, 6⟩, ⟨[], [], 7, 7, 7⟩] ∧
      (s.files.map (·.file.content)).flatten = [97, 98, 99] ∧
      List.Forall₂ (fun f group ↦ f.file.content = (group.map (·.msg)).flatten ∧
        (lateCalls f group : Int) ≤ 1024) s.files groups ∧
      (s.files.map (·.openedAt)).Pairwise (· < ·) ∧
      ∀ f, s.file = some f → 1 < (f.file.content.length : Int) → s.clock = f.openedAt :=
  have hcheck : 1 ≤ (LogConfig.mk 1 3 1024).checkEveryN := by decide
  rolling hcheck (by decide) (by decide) (by decide)

end

end LogFile

end Netlib
