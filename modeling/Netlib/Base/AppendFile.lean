import Netlib.Lib.Run

/-!
# `netlib::AppendFile`

The file under a log, written through a `FILE` (`base/FileUtil.cc`).  A call of `fwrite_unlocked` may
accept fewer bytes than it was given, with or without the error flag of the stream set behind it.
-/

namespace Netlib

/-- A call of `fwrite_unlocked`: how many bytes were accepted, and `ferror` behind it. -/
structure FwriteResult where
  n : Nat
  err : Bool
deriving DecidableEq, Repr

structure AppendFile where
  /-- What the stream has accepted. -/
  content : List UInt8
  writtenBytes : Nat
deriving DecidableEq, Repr

namespace AppendFile

/-- A new file. -/
def opened : AppendFile := ⟨[], 0⟩

/-- In the loop of `append`. -/
structure Writing where
  file : AppendFile
  written : Nat
  /-- Left by the `break`. -/
  failed : Bool
deriving DecidableEq, Repr

def start (f : AppendFile) : Writing := ⟨f, 0, false⟩

/-- The loop is behind its last call. -/
def Writing.Over (w : Writing) (msg : List UInt8) : Prop := w.failed ∨ w.written = msg.length

instance (w : Writing) (msg : List UInt8) : Decidable (w.Over msg) :=
  inferInstanceAs (Decidable (_ ∨ _))

/-- A short count with the error flag set. -/
def Writing.Fails (w : Writing) (msg : List UInt8) (r : FwriteResult) : Prop :=
  r.n ≠ msg.length - w.written ∧ r.err = true

instance (w : Writing) (msg : List UInt8) (r : FwriteResult) : Decidable (w.Fails msg r) :=
  inferInstanceAs (Decidable (_ ∧ _))

/-- What a call accepted goes to the stream. -/
def Writing.accept (w : Writing) (msg : List UInt8) (n : Nat) : AppendFile :=
  { w.file with content := w.file.content ++ (msg.drop w.written).take n }

/-- One turn of the loop; no call accepts more than it was given. -/
def write (msg : List UInt8) (w : Writing) (r : FwriteResult) : Option Writing :=
  if ¬ w.Over msg ∧ r.n ≤ msg.length - w.written then
    if w.Fails msg r then some { w with file := w.accept msg r.n, failed := true }
    else some { w with file := w.accept msg r.n, written := w.written + r.n }
  else none

/-- Behind the loop. -/
def Writing.finish (w : Writing) : AppendFile :=
  { w.file with writtenBytes := w.file.writtenBytes + w.written }

/-- `append`, with the results of all calls that its loop makes. -/
def append (f : AppendFile) (msg : List UInt8) (rs : List FwriteResult) : Option AppendFile :=
  (Trace.run (write msg) (start f) rs).bind fun w ↦ if w.Over msg then some w.finish else none

def accepted (rs : List FwriteResult) : Nat := (rs.map (·.n)).sum

/-! ## 1. The loop -/

section

variable {f : AppendFile} {msg : List UInt8} {w t : Writing} {r : FwriteResult}
  {rs : List FwriteResult}

theorem accepted_concat (rs : List FwriteResult) (r : FwriteResult) :
    accepted (rs ++ [r]) = accepted rs + r.n := by
  simp [accepted]

/-- One case for each way a turn can end. -/
inductive WriteTo (msg : List UInt8) (w : Writing) (r : FwriteResult) : Writing → Prop
  | fail : ¬ w.Over msg → r.n ≤ msg.length - w.written → w.Fails msg r →
      WriteTo msg w r { w with file := w.accept msg r.n, failed := true }
  | go : ¬ w.Over msg → r.n ≤ msg.length - w.written → ¬ w.Fails msg r →
      WriteTo msg w r { w with file := w.accept msg r.n, written := w.written + r.n }

theorem write_cases (h : write msg w r = some t) : WriteTo msg w r t := by
  unfold write at h
  by_cases hcall : ¬ w.Over msg ∧ r.n ≤ msg.length - w.written
  · rw [if_pos hcall] at h
    by_cases hfails : w.Fails msg r
    · rw [if_pos hfails, Option.some.injEq] at h
      rw [← h]
      exact .fail hcall.1 hcall.2 hfails
    · rw [if_neg hfails, Option.some.injEq] at h
      rw [← h]
      exact .go hcall.1 hcall.2 hfails
  · rw [if_neg hcall] at h
    cases h

/-- The bytes that were accepted before and the ones accepted now. -/
theorem take_accept {before now : Nat} :
    msg.take before ++ (msg.drop before).take now = msg.take (before + now) :=
  List.take_add.symm

/-- The last call came back short with the error flag set. -/
def FlagSeen (msg : List UInt8) (rs : List FwriteResult) : Prop :=
  ∃ before r, rs = before ++ [r] ∧ r.err = true ∧ r.n ≠ msg.length - accepted before

/-- As long as no call failed, what was accepted is the beginning of the message, and it is what
`written` counts. -/
structure Going (f : AppendFile) (msg : List UInt8) (rs : List FwriteResult) (w : Writing) :
    Prop where
  content : w.file.content = f.content ++ msg.take (accepted rs)
  bytes : w.file.writtenBytes = f.writtenBytes
  written : w.written = accepted rs
  le : accepted rs ≤ msg.length
  failed : w.failed = false
  clear : ¬ FlagSeen msg rs
  whole : Trace.Along (write msg) (fun w r ↦ w.Fails msg r → r.n = 0) (start f) rs

/-- The last call failed: what it accepted is not counted. -/
structure Failed (f : AppendFile) (msg : List UInt8) (rs : List FwriteResult) (w : Writing) :
    Prop where
  content : w.file.content = f.content ++ msg.take (accepted rs)
  bytes : w.file.writtenBytes = f.writtenBytes
  le : accepted rs ≤ msg.length
  failed : w.failed = true
  last : ∃ before r, rs = before ++ [r] ∧ r.err = true ∧ r.n ≠ msg.length - accepted before ∧
    w.written = accepted before ∧
    (Trace.Along (write msg) (fun w r ↦ w.Fails msg r → r.n = 0) (start f) rs ↔ r.n = 0)

theorem start_going : Going f msg [] (start f) where
  content := by simp [start, accepted]
  bytes := rfl
  written := rfl
  le := Nat.zero_le _
  failed := rfl
  clear := by
    rintro ⟨before, r, hnil, -⟩
    exact List.append_ne_nil_of_right_ne_nil before (List.cons_ne_nil r []) hnil.symm
  whole := trivial

/-- Behind a failed call no call is made. -/
theorem Failed.write_eq_none (h : Failed f msg rs w) : write msg w r = none := by
  unfold write
  rw [if_neg fun hcall ↦ hcall.1 (Or.inl h.failed)]

/-- The call behind calls that did not fail. -/
theorem Going.write (h : Going f msg rs w) (hrun : Trace.run (write msg) (start f) rs = some w)
    (hwrite : AppendFile.write msg w r = some t) :
    Going f msg (rs ++ [r]) t ∨ Failed f msg (rs ++ [r]) t := by
  have halong : Trace.Along (AppendFile.write msg) (fun w r ↦ w.Fails msg r → r.n = 0) (start f)
      (rs ++ [r]) ↔ (w.Fails msg r → r.n = 0) := by
    rw [Trace.along_append, and_iff_right h.whole]
    constructor
    · intro hall
      exact (hall w hrun).1
    · intro hr w' hw'
      obtain rfl : w = w' := Option.some.inj (hrun.symm.trans hw')
      exact ⟨hr, fun _ _ ↦ trivial⟩
  have hcontent : (w.accept msg r.n).content = f.content ++ msg.take (accepted (rs ++ [r])) := by
    rw [Writing.accept, h.content, h.written, List.append_assoc, take_accept, accepted_concat]
  have hle (hn : r.n ≤ msg.length - w.written) : accepted (rs ++ [r]) ≤ msg.length := by
    have hbefore := h.le
    rw [h.written] at hn
    rw [accepted_concat]
    omega
  cases write_cases hwrite with
  | fail hover hn hfails =>
    refine Or.inr ⟨hcontent, h.bytes, hle hn, rfl, rs, r, rfl, hfails.2, ?_, h.written, ?_⟩
    · rw [← h.written]
      exact hfails.1
    · rw [halong]
      exact ⟨fun hr ↦ hr hfails, fun hr _ ↦ hr⟩
  | go hover hn hfails =>
    refine Or.inl ⟨hcontent, h.bytes, ?_, hle hn, h.failed, ?_, ?_⟩
    · rw [accepted_concat, ← h.written]
    · -- a flag that was seen would have ended the loop
      rintro ⟨before, r', hsplit, herr, hshort⟩
      obtain ⟨rfl, hr⟩ := List.append_inj' hsplit rfl
      cases hr
      rw [← h.written] at hshort
      exact hfails ⟨hshort, herr⟩
    · rw [halong]
      exact fun hr ↦ (hfails hr).elim

/-- Every run of the loop goes on, or has just failed. -/
theorem run_cases (h : Trace.run (write msg) (start f) rs = some w) :
    Going f msg rs w ∨ Failed f msg rs w := by
  induction rs using List.reverseRecOn generalizing w with
  | nil =>
    cases h
    exact Or.inl start_going
  | append_singleton rs r ih =>
    obtain ⟨m, hm, hlast⟩ := Trace.run_append_eq_some.mp h
    obtain ⟨t, ht, hw⟩ := Trace.run_cons_eq_some.mp hlast
    cases hw
    rcases ih hm with hgo | hfail
    · exact hgo.write hm ht
    · rw [hfail.write_eq_none] at ht
      cases ht

/-! ## 2. The account of the bytes -/

/-- What is expected of the loop behind any number of its calls: the stream has a beginning of the
message, the loop ends as soon as that is the message or an error is seen, and then `_writtenBytes`
has grown by what the stream accepted. -/
structure Accounted (f : AppendFile) (msg : List UInt8) (rs : List FwriteResult) (w : Writing) :
    Prop where
  content : w.file.content = f.content ++ msg.take (accepted rs)
  le : accepted rs ≤ msg.length
  stops : w.Over msg ↔ accepted rs = msg.length ∨ FlagSeen msg rs
  bytes : w.Over msg → w.finish.writtenBytes = f.writtenBytes + accepted rs

/-- **The account.**  It is right exactly when no call that failed has accepted a byte. -/
theorem accounted_iff (h : Trace.run (write msg) (start f) rs = some w) :
    Accounted f msg rs w ↔
      Trace.Along (write msg) (fun w r ↦ w.Fails msg r → r.n = 0) (start f) rs := by
  rcases run_cases h with hgo | hfail
  · refine iff_of_true ⟨hgo.content, hgo.le, ?_, fun _ ↦ ?_⟩ hgo.whole
    · unfold Writing.Over
      rw [hgo.failed, hgo.written, or_iff_left hgo.clear]
      exact or_iff_right Bool.false_ne_true
    · unfold Writing.finish
      simp only
      rw [hgo.bytes, hgo.written]
  · obtain ⟨before, r, rfl, herr, hshort, hwritten, hwhole⟩ := hfail.last
    have hover : w.Over msg := Or.inl hfail.failed
    rw [hwhole]
    constructor
    · intro hacc
      have hbytes := hacc.bytes hover
      unfold Writing.finish at hbytes
      simp only at hbytes
      rw [hfail.bytes, hwritten, accepted_concat] at hbytes
      omega
    · intro hr
      refine ⟨hfail.content, hfail.le, ?_, fun _ ↦ ?_⟩
      · exact iff_of_true hover (Or.inr ⟨before, r, rfl, herr, hshort⟩)
      · unfold Writing.finish
        simp only
        rw [hfail.bytes, hwritten, accepted_concat, hr, Nat.add_zero]

/-- One byte of two is accepted, and the call fails: the count stays behind. -/
theorem not_accounted :
    ∃ w, Trace.run (write [97, 98]) (start opened) [⟨1, true⟩] = some w ∧ w.Over [97, 98] ∧
      ¬ Accounted opened [97, 98] [⟨1, true⟩] w := by
  refine ⟨⟨⟨[97], 0⟩, 0, true⟩, rfl, Or.inl rfl, fun hacc ↦ ?_⟩
  exact absurd (hacc.bytes (Or.inl rfl)) (by decide)

/-- A short count without an error, and the rest. -/
theorem accounted_iff_retry :
    Accounted opened [97, 98] [⟨1, false⟩, ⟨1, false⟩] ⟨⟨[97, 98], 0⟩, 2, false⟩ ↔
      Trace.Along (write [97, 98]) (fun w r ↦ w.Fails [97, 98] r → r.n = 0) (start opened)
        [⟨1, false⟩, ⟨1, false⟩] :=
  accounted_iff rfl

/-! ## 3. Writes that succeed in full -/

/-- The one call that there is, if there is one, accepts the whole message. -/
def Full (msg : List UInt8) (rs : List FwriteResult) : Prop :=
  rs.map (·.n) = if msg = [] then [] else [msg.length]

instance (msg : List UInt8) (rs : List FwriteResult) : Decidable (Full msg rs) :=
  inferInstanceAs (Decidable (_ = _))

theorem append_full (h : Full msg rs) :
    f.append msg rs = some ⟨f.content ++ msg, f.writtenBytes + msg.length⟩ := by
  unfold Full at h
  by_cases hnil : msg = []
  · rw [if_pos hnil, List.map_eq_nil_iff] at h
    rw [h, hnil, List.append_nil]
    rfl
  · rw [if_neg hnil] at h
    obtain ⟨r, rfl, hr⟩ := List.map_eq_singleton_iff.mp h
    have hover : ¬ (start f).Over msg := by
      rintro (hfailed | hempty)
      · exact Bool.false_ne_true hfailed
      · exact hnil (List.length_eq_zero_iff.mp hempty.symm)
    have hfails : ¬ (start f).Fails msg r := fun hshort ↦ hshort.1 hr
    have hwrite : write msg (start f) r = some ⟨(start f).accept msg r.n, 0 + r.n, false⟩ := by
      unfold write
      rw [if_pos ⟨hover, hr.le⟩, if_neg hfails]
      rfl
    have hend : Writing.Over ⟨(start f).accept msg r.n, 0 + r.n, false⟩ msg :=
      Or.inr ((Nat.zero_add r.n).trans hr)
    unfold append
    rw [Trace.run_cons, hwrite, Option.bind_some, Trace.run_nil, Option.bind_some, if_pos hend]
    simp [Writing.finish, Writing.accept, start, hr]

end

end AppendFile

end Netlib
