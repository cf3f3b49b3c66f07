import Netlib.Base.AsyncBatches
import Netlib.Base.LogFile

/-!
# From the messages to the files

The back-end thread of `AsyncLogging` is the only caller of its `LogFile`
(`base/AsyncLogging.cc`, `base/LogFile.cc`): what the front ends appended goes through the buffers
and then through the files.  Below, a record is a message or the notice of a cut batch; the files
hold records, each in one file, in the order in which the messages were appended.
-/

namespace Netlib

/-! ## 1. Lists of lists -/

section

variable {α β : Type}

/-- A correspondence with a list of lists cuts the other list in the same places. -/
theorem exists_flatten_of_forall₂ {R : α → β → Prop} {xs : List α} {yss : List (List β)}
    (h : List.Forall₂ R xs yss.flatten) :
    ∃ xss, xss.flatten = xs ∧ List.Forall₂ (List.Forall₂ R) xss yss := by
  induction yss generalizing xs with
  | nil =>
    cases h
    exact ⟨[], rfl, .nil⟩
  | cons ys yss ih =>
    rw [List.flatten_cons] at h
    have hfirst := List.forall₂_take_append xs ys yss.flatten h
    have hrest := List.forall₂_drop_append xs ys yss.flatten h
    obtain ⟨xss, hflat, hall⟩ := ih hrest
    refine ⟨xs.take ys.length :: xss, ?_, .cons hfirst hall⟩
    rw [List.flatten_cons, hflat, List.take_append_drop]

end

/-! ## 2. The calls and what they carry -/

namespace AsyncLogging

/-- A call of `LogFile::append` with the messages it carries. -/
inductive GroupCall where
  | group (g : Group)
  | notice (dropped : Nat)

def GroupCall.toCall : GroupCall → LogCall
  | group g => .buffer g.flatten
  | notice k => .notice k

def GroupCall.messages : GroupCall → List (List UInt8)
  | group g => g
  | notice _ => []

/-- The calls for one batch. -/
def groupCalls (batch : List Group) : List GroupCall :=
  if 25 < batch.length then .notice (batch.length - 2) :: (batch.take 2).map .group
  else batch.map .group

def messagesOf (gs : List GroupCall) : List (List UInt8) := gs.flatMap GroupCall.messages

theorem map_groupCalls (batch : List Group) :
    (groupCalls batch).map GroupCall.toCall = calls (batch.map List.flatten) := by
  unfold groupCalls calls
  rw [List.length_map]
  split
  · simp [GroupCall.toCall, Function.comp_def, List.map_take]
  · simp [GroupCall.toCall, Function.comp_def]

theorem messagesOf_map_group (batch : List Group) :
    messagesOf (batch.map .group) = batch.flatten := by
  unfold messagesOf
  rw [List.flatMap_map, ← List.flatMap_id']
  rfl

/-- A cut batch loses groups, and no batch changes the order. -/
theorem messagesOf_groupCalls_sublist (batch : List Group) :
    (messagesOf (groupCalls batch)).Sublist batch.flatten := by
  unfold groupCalls
  split
  · show (messagesOf ((batch.take 2).map .group)).Sublist _
    rw [messagesOf_map_group]
    exact (List.take_sublist 2 batch).flatten
  · rw [messagesOf_map_group]

theorem messagesOf_sublist (batches : List (List Group)) :
    (messagesOf (batches.flatMap groupCalls)).Sublist batches.flatten.flatten := by
  induction batches with
  | nil => exact List.Sublist.refl _
  | cons batch batches ih =>
    rw [List.flatMap_cons, messagesOf, List.flatMap_append, List.flatten_cons,
      List.flatten_append]
    exact (messagesOf_groupCalls_sublist batch).append ih

theorem messagesOf_append (gs gs' : List GroupCall) :
    messagesOf (gs ++ gs') = messagesOf gs ++ messagesOf gs' := List.flatMap_append

/-- A batch without a notice was not cut. -/
theorem groupCalls_of_no_notice {batch : List Group} (h : ∀ k, .notice k ∉ groupCalls batch) :
    groupCalls batch = batch.map .group := by
  unfold groupCalls at h ⊢
  split
  · rename_i hcut
    rw [if_pos hcut] at h
    exact (h _ List.mem_cons_self).elim
  · rfl

/-- Up to the first notice every message goes out. -/
theorem messagesOf_prefix (batches : List (List Group)) {gs : List GroupCall}
    (hpre : gs <+: batches.flatMap groupCalls) (hno : ∀ k, .notice k ∉ gs) :
    messagesOf gs <+: batches.flatten.flatten := by
  induction batches generalizing gs with
  | nil =>
    rw [List.flatMap_nil, List.prefix_nil] at hpre
    rw [hpre]
    exact List.nil_prefix
  | cons batch batches ih =>
    rw [List.flatMap_cons] at hpre
    rw [List.flatten_cons, List.flatten_append]
    obtain ⟨after, hafter⟩ := hpre
    rcases List.append_eq_append_iff.mp hafter with ⟨more, hbatch, -⟩ | ⟨rest, rfl, hrest⟩
    · -- the calls end inside this batch
      cases gs with
      | nil => exact List.nil_prefix
      | cons g gs =>
        have huncut : ¬ 25 < batch.length := by
          intro hcut
          unfold groupCalls at hbatch
          rw [if_pos hcut, List.cons_append, List.cons.injEq] at hbatch
          rw [← hbatch.1] at hno
          exact hno _ List.mem_cons_self
        unfold groupCalls at hbatch
        rw [if_neg huncut] at hbatch
        have hall := messagesOf_map_group batch
        rw [hbatch, messagesOf_append] at hall
        rw [← hall, List.append_assoc]
        exact List.prefix_append _ _
    · have huncut := groupCalls_of_no_notice fun k hk ↦ hno k (List.mem_append_left _ hk)
      have hmore := ih ⟨after, hrest.symm⟩ fun k hk ↦ hno k (List.mem_append_right _ hk)
      rw [huncut, messagesOf_append, messagesOf_map_group]
      exact (List.prefix_append_right_inj _).mpr hmore

end AsyncLogging

/-! ## 3. Records -/

/-- What a log file is made of. -/
inductive Record where
  | message (msg : List UInt8)
  /-- The line that reports a cut batch. -/
  | notice (dropped : Nat) (text : List UInt8)
deriving DecidableEq, Repr

def Record.text : Record → List UInt8
  | message msg => msg
  | notice _ text => text

def Record.message? : Record → Option (List UInt8)
  | message msg => some msg
  | notice _ _ => none

/-- The messages among the records. -/
def messagesIn (rs : List Record) : List (List UInt8) := rs.filterMap Record.message?

/-- The bytes that the call passes to `LogFile::append`.  For a notice `snprintf` is given a
`std::string` where it expects the text of the time, so nothing is known of its line. -/
def LogCall.Passes : LogCall → List UInt8 → Prop
  | .buffer data, msg => msg = data
  | .notice _, _ => True

namespace AsyncLogging

/-- The records of a call that passes `text`. -/
def GroupCall.records (text : List UInt8) : GroupCall → List Record
  | group g => g.map .message
  | notice k => [.notice k text]

def recordsOf (gs : List GroupCall) (cs : List LogFile.Call) : List Record :=
  (List.zipWith (fun g (c : LogFile.Call) ↦ g.records c.msg) gs cs).flatten

theorem messagesIn_map_message (g : Group) : messagesIn (g.map .message) = g := by
  unfold messagesIn
  rw [List.filterMap_map]
  exact List.filterMap_some

theorem messagesIn_append (rs rs' : List Record) :
    messagesIn (rs ++ rs') = messagesIn rs ++ messagesIn rs' := List.filterMap_append

@[simp] theorem recordsOf_nil : recordsOf [] [] = [] := rfl

theorem recordsOf_cons (g : GroupCall) (gs : List GroupCall) (c : LogFile.Call)
    (cs : List LogFile.Call) :
    recordsOf (g :: gs) (c :: cs) = g.records c.msg ++ recordsOf gs cs := rfl

theorem recordsOf_append {gs : List GroupCall} {cs : List LogFile.Call} (h : gs.length = cs.length)
    (gs' : List GroupCall) (cs' : List LogFile.Call) :
    recordsOf (gs ++ gs') (cs ++ cs') = recordsOf gs cs ++ recordsOf gs' cs' := by
  unfold recordsOf
  rw [List.zipWith_append h, List.flatten_append]

theorem messagesIn_records (g : GroupCall) (text : List UInt8) :
    messagesIn (g.records text) = g.messages := by
  cases g with
  | group g => exact messagesIn_map_message g
  | notice k => rfl

theorem text_records {g : GroupCall} {text : List UInt8} (h : g.toCall.Passes text) :
    ((g.records text).map Record.text).flatten = text := by
  cases g with
  | group g =>
    have htext : text = g.flatten := h
    simp [GroupCall.records, Function.comp_def, Record.text, htext]
  | notice k => simp [GroupCall.records, Record.text]

/-- The records of the calls are what the calls pass on, and have their messages. -/
theorem recordsOf_spec {gs : List GroupCall} {cs : List LogFile.Call}
    (h : List.Forall₂ (fun g (c : LogFile.Call) ↦ g.toCall.Passes c.msg) gs cs) :
    ((recordsOf gs cs).map Record.text).flatten = (cs.map (·.msg)).flatten ∧
      messagesIn (recordsOf gs cs) = messagesOf gs := by
  induction h with
  | nil => exact ⟨rfl, rfl⟩
  | @cons g c gs cs hpass _ ih =>
    obtain ⟨htext, hmessages⟩ := ih
    rw [recordsOf_cons, List.map_append, List.flatten_append, text_records hpass, htext,
      messagesIn_append, messagesIn_records, hmessages]
    exact ⟨rfl, rfl⟩

/-- The calls split over files make up records split over files. -/
theorem exists_records_split {gss : List (List GroupCall)} {css : List (List LogFile.Call)}
    (h : List.Forall₂ (List.Forall₂ fun g (c : LogFile.Call) ↦ g.toCall.Passes c.msg) gss css) :
    ∃ rss, List.Forall₂ (fun rs (cs : List LogFile.Call) ↦
        (rs.map Record.text).flatten = (cs.map (·.msg)).flatten) rss css ∧
      rss.flatten = recordsOf gss.flatten css.flatten := by
  induction h with
  | nil => exact ⟨[], .nil, rfl⟩
  | @cons gs cs gss css hfile _ ih =>
    obtain ⟨rss, hall, hrest⟩ := ih
    refine ⟨recordsOf gs cs :: rss, .cons (recordsOf_spec hfile).1 hall, ?_⟩
    rw [List.flatten_cons, List.flatten_cons, List.flatten_cons, hrest,
      recordsOf_append hfile.length_eq]

/-! ## 4. Every run -/

theorem run_account {ls : List Label} {s : AsyncLogging} (h : Trace.run step init ls = some s)
    (hlen : ∀ msg, .append msg ∈ ls → msg.length < cLargeBuffer) :
    ∃ batches pending current, s.Account batches pending current := by
  have hfits : Trace.Along step (fun _ l ↦ ∀ msg, l = .append msg → msg.length < cLargeBuffer)
      init ls := Trace.along_of_forall_mem fun l hl _ msg hmsg ↦ hlen msg (hmsg ▸ hl)
  have hinv := Trace.run_inv_along
    (I := fun s ↦ s.Circulating ∧ ∃ batches pending current, s.Account batches pending current)
    (fun u l v hu hp hstep ↦ ⟨step_circulating hu.1 hstep, step_account hu.2 hu.1 hp hstep⟩)
    ⟨init_circulating, [], [], [], init_account⟩ hfits h
  exact hinv.2

/-- The calls made are the first of those that the batches ask for. -/
theorem Account.exists_groupCalls {s : AsyncLogging} {batches : List (List Group)}
    {pending : List Group} {current : Group} (h : s.Account batches pending current) :
    ∃ gs, gs <+: batches.flatMap groupCalls ∧ gs.map GroupCall.toCall = s.output := by
  have hall : (batches.flatMap groupCalls).map GroupCall.toCall = s.output ++ s.toCome := by
    rw [h.output, List.map_flatMap]
    simp only [map_groupCalls]
  refine ⟨(batches.flatMap groupCalls).take s.output.length, List.take_prefix _ _, ?_⟩
  rw [List.map_take, hall, List.take_left]

/-- Without a notice no batch was cut. -/
theorem Account.short {s : AsyncLogging} {batches : List (List Group)} {pending : List Group}
    {current : Group} (h : s.Account batches pending current)
    (hno : ∀ k, .notice k ∉ s.output ++ s.toCome) : ∀ batch ∈ batches, batch.length ≤ 25 := by
  intro batch hbatch
  by_contra hcut
  have hlen : 25 < (batch.map List.flatten).length := by
    rw [List.length_map]
    omega
  refine hno ((batch.map List.flatten).length - 2) ?_
  rw [h.output]
  refine List.mem_flatMap.mpr ⟨batch, hbatch, ?_⟩
  rw [calls, if_pos hlen]
  exact List.mem_cons_self

theorem flatten_messagesOf (gs : List GroupCall) :
    (messagesOf gs).flatten = (gs.map GroupCall.toCall).flatMap LogCall.content := by
  induction gs with
  | nil => rfl
  | cons g gs ih =>
    rw [messagesOf, List.flatMap_cons, List.flatten_append, List.map_cons, List.flatMap_cons, ← ih]
    cases g with
    | group g => rfl
    | notice k => rfl

/-- Where no batch was cut, the messages in the files are the first, and the rest waits. -/
theorem Account.exists_rest {s : AsyncLogging} {batches : List (List Group)} {pending : List Group}
    {current : Group} (h : s.Account batches pending current)
    (hno : ∀ k, .notice k ∉ s.output ++ s.toCome) {gs : List GroupCall}
    (hpre : gs <+: batches.flatMap groupCalls) (hcalls : gs.map GroupCall.toCall = s.output) :
    ∃ rest, s.messages = messagesOf gs ++ rest ∧ rest.flatten = s.unwritten ++ s.uncollected := by
  have hquiet : ∀ k, .notice k ∉ gs := by
    intro k hk
    have hmem : LogCall.notice k ∈ s.output := by
      rw [← hcalls]
      exact List.mem_map_of_mem hk
    exact hno k (List.mem_append_left _ hmem)
  obtain ⟨more, hmore⟩ := messagesOf_prefix batches hpre hquiet
  have hmessages : s.messages = messagesOf gs ++ (more ++ (pending.flatten ++ current)) := by
    rw [h.messages, List.append_assoc, List.flatten_append, ← hmore]
    simp
  have hlogged : s.logged = (messagesOf gs).flatten := by
    rw [logged_eq, ← hcalls, flatten_messagesOf]
  have hbytes := h.bytes_eq (h.short hno)
  refine ⟨_, hmessages, ?_⟩
  rw [hmessages, hlogged, List.flatten_append, List.append_assoc] at hbytes
  exact (List.append_cancel_left hbytes).symm

/-- The calls of a back end are split over the files. -/
theorem exists_file_records {gs : List GroupCall} {cfg : LogConfig} {now : Int}
    {cs : List LogFile.Call} (hcheck : 1 ≤ cfg.checkEveryN) (hpos : 0 < now)
    (htimes : (LogFile.times now cs).Pairwise (· ≤ ·))
    (hfull : ∀ c ∈ cs, AppendFile.Full c.msg c.writes)
    (hpass : List.Forall₂ (fun g (c : LogFile.Call) ↦ g.toCall.Passes c.msg) gs cs) :
    ∃ t rss, Trace.run (LogFile.append cfg) (LogFile.init now) cs = some t ∧
      List.Forall₂ (fun f (rs : List Record) ↦ f.file.content = (rs.map Record.text).flatten)
        t.files rss ∧
      rss.flatten = recordsOf gs cs := by
  have hinit : LogFile.HasAccount cfg (LogFile.init now) now [] :=
    ⟨_, _, _, LogFile.init_account hcheck hpos, rfl⟩
  obtain ⟨t, later, hrun, groups, f, current, hacc, hsplit⟩ :=
    LogFile.run_account hinit htimes hfull
  have hfiles : t.files = t.closed ++ [f] := by
    rw [LogFile.files, hacc.file]
    rfl
  have hholds : List.Forall₂ LogFile.Holds t.files (groups ++ [current]) := by
    rw [hfiles]
    exact List.rel_append (hacc.closed.imp fun _ _ hfile ↦ hfile.holds) (.cons hacc.holds .nil)
  rw [List.nil_append] at hsplit
  rw [← hsplit] at hpass
  obtain ⟨gss, rfl, hgss⟩ := exists_flatten_of_forall₂ hpass
  obtain ⟨rss, hrss, hrecords⟩ := exists_records_split hgss
  refine ⟨t, rss, hrun, ?_, hsplit ▸ hrecords⟩
  -- a file and its records have the same calls between them
  refine List.forall₂_iff_get.mpr ⟨hholds.length_eq.trans hrss.length_eq.symm, ?_⟩
  intro i hi hi'
  have hfile := (List.forall₂_iff_get.mp hholds).2 i hi (hholds.length_eq ▸ hi)
  have htexts := (List.forall₂_iff_get.mp hrss).2 i hi' (hrss.length_eq ▸ hi')
  rw [hfile.content, htexts]

/-- **From the messages to the files.**  After any interleaving of the front ends with the back end,
and on a clock that does not go back and with writes in full: each file is a sequence of whole
records; over all files in the order they were opened, these are the records of the calls that the
back end has made, the messages in each buffer and one line for each notice; the messages among them
were appended in that order; and as long as no batch was cut, all the first ones are there, in every
byte but those that are still in the buffers. -/
theorem files_hold_messages {ls : List Label} {s : AsyncLogging}
    (h : Trace.run step init ls = some s)
    (hlen : ∀ msg, .append msg ∈ ls → msg.length < cLargeBuffer) {cfg : LogConfig} {now : Int}
    {cs : List LogFile.Call} (hcheck : 1 ≤ cfg.checkEveryN) (hpos : 0 < now)
    (htimes : (LogFile.times now cs).Pairwise (· ≤ ·))
    (hfull : ∀ c ∈ cs, AppendFile.Full c.msg c.writes)
    (hpass : List.Forall₂ (fun call (c : LogFile.Call) ↦ LogCall.Passes call c.msg) s.output cs) :
    ∃ t gs rss, Trace.run (LogFile.append cfg) (LogFile.init now) cs = some t ∧
      List.Forall₂ (fun f (rs : List Record) ↦ f.file.content = (rs.map Record.text).flatten)
        t.files rss ∧
      gs.map GroupCall.toCall = s.output ∧ rss.flatten = recordsOf gs cs ∧
      (messagesIn rss.flatten).Sublist s.messages ∧
      ((∀ k, .notice k ∉ s.output ++ s.toCome) → ∃ rest,
        s.messages = messagesIn rss.flatten ++ rest ∧
          rest.flatten = s.unwritten ++ s.uncollected) := by
  obtain ⟨batches, pending, current, hacc⟩ := run_account h hlen
  obtain ⟨gs, hpre, hcalls⟩ := hacc.exists_groupCalls
  rw [← hcalls, List.forall₂_map_left_iff] at hpass
  obtain ⟨t, rss, hrun, hfiles, hrecords⟩ :=
    exists_file_records hcheck hpos htimes hfull hpass
  have hmessages : messagesIn rss.flatten = messagesOf gs := by
    rw [hrecords]
    exact (recordsOf_spec hpass).2
  refine ⟨t, gs, rss, hrun, hfiles, hcalls, hrecords, ?_, ?_⟩
  · obtain ⟨after, hafter⟩ := hpre
    have hfirst : (messagesOf gs).Sublist batches.flatten.flatten := by
      refine List.Sublist.trans ?_ (messagesOf_sublist batches)
      rw [← hafter, messagesOf_append]
      exact List.sublist_append_left _ _
    rw [hmessages, hacc.messages, List.append_assoc, List.flatten_append]
    exact hfirst.trans (List.sublist_append_left _ _)
  · intro hno
    rw [hmessages]
    exact hacc.exists_rest hno hpre hcalls

/-- Two messages go through one buffer into one file, and a third one still waits. -/
theorem files_hold_messages_one_waits :
    ∃ s t rss, Trace.run step init [.start, .test, .lock, .append [104, 105], .append [33], .wake,
        .limit, .write, .append [63]] = some s ∧
      Trace.run (LogFile.append ⟨1000, 3, 1024⟩) (LogFile.init 5)
        [⟨[104, 105, 33], [⟨3, false⟩], 6, 6, 6⟩] = some t ∧
      List.Forall₂ (fun f (rs : List Record) ↦ f.file.content = (rs.map Record.text).flatten)
        t.files rss ∧
      (messagesIn rss.flatten).Sublist [[104, 105], [33], [63]] ∧
      ∃ rest, [[104, 105], [33], [63]] = messagesIn rss.flatten ++ rest ∧ rest.flatten = [63] := by
  obtain ⟨s, hs, hmessages, houtput, htoCome, hrest⟩ : ∃ s, Trace.run step init
      [.start, .test, .lock, .append [104, 105], .append [33], .wake, .limit, .write,
        .append [63]] = some s ∧ s.messages = [[104, 105], [33], [63]] ∧
      s.output = [.buffer [104, 105, 33]] ∧ s.toCome = [] ∧
      s.unwritten ++ s.uncollected = [63] := ⟨_, rfl, rfl, rfl, rfl, rfl⟩
  have hlen (msg : List UInt8) (hmsg : .append msg ∈ [Label.start, .test, .lock,
      .append [104, 105], .append [33], .wake, .limit, .write, .append [63]]) :
      msg.length < cLargeBuffer := by
    have hcases : msg = [104, 105] ∨ msg = [33] ∨ msg = [63] := by simpa using hmsg
    rcases hcases with rfl | rfl | rfl <;> decide
  have hcheck : 1 ≤ (LogConfig.mk 1000 3 1024).checkEveryN := by decide
  have hpass : List.Forall₂ (fun call (c : LogFile.Call) ↦ LogCall.Passes call c.msg) s.output
      [⟨[104, 105, 33], [⟨3, false⟩], 6, 6, 6⟩] := by
    rw [houtput]
    exact .cons rfl .nil
  obtain ⟨t, gs, rss, ht, hfiles, -, -, hsub, hall⟩ :=
    files_hold_messages hs hlen hcheck (by decide : (0 : Int) < 5) (by decide) (by decide) hpass
  have hquiet : ∀ k, .notice k ∉ s.output ++ s.toCome := by
    intro k
    rw [houtput, htoCome]
    simp
  rw [hmessages] at hsub hall
  obtain ⟨rest, hsplit, hflat⟩ := hall hquiet
  exact ⟨s, t, rss, hs, ht, hfiles, hsub, rest, hsplit, hflat.trans hrest⟩

end AsyncLogging

end Netlib
