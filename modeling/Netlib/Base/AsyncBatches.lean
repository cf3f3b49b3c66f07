import Netlib.Base.AsyncLogging

/-!
# The order of the log

Buffers circulate: a filled current buffer goes behind the queued ones, a collection takes the
queued ones and the current one as one batch, and what was written comes back as a spare.  Beside
each buffer stands the list of messages it was filled with, and beside each collection the batch of
these lists.  The messages appended are then all these lists in order, and the calls of
`LogFile::append` are those that the batches ask for.
-/

namespace Netlib

/-- What a call of `LogFile::append` passes on of the messages. -/
def LogCall.content : LogCall → List UInt8
  | .buffer data => data
  | .notice _ => []

namespace AsyncLogging

/-- The messages that went into one buffer. -/
abbrev Group := List (List UInt8)

/-- The calls of `LogFile::append` for one batch: of more than 25 buffers the first two are written,
behind a notice that counts the others. -/
def calls (bufs : List (List UInt8)) : List LogCall :=
  if 25 < bufs.length then .notice (bufs.length - 2) :: (bufs.take 2).map .buffer
  else bufs.map .buffer

/-- The calls for what was collected and is still to be written. -/
def toCome (s : AsyncLogging) : List LogCall :=
  match s.back with
  | .collected => calls (s.buffersToWrite.map (·.data))
  | .writing rest => (rest.map (·.data)).map .buffer
  | _ => []

/-- The messages, split into the batches collected so far, the buffers that wait and the current
buffer, account for everything the logger holds and has written. -/
structure Account (s : AsyncLogging) (batches : List (List Group)) (pending : List Group)
    (current : Group) : Prop where
  messages : s.messages = (batches.flatten ++ pending ++ [current]).flatten
  buffers : s.buffers.map (·.data) = pending.map List.flatten
  current : s.currentBuffer.map (·.data) = some current.flatten
  output : s.output ++ s.toCome = batches.flatMap fun batch ↦ calls (batch.map List.flatten)

/-- The roles of the buffers: spare ones are empty, the back end has two of them whenever it may
collect, and a batch is long enough to give back what the collection took. -/
structure Circulating (s : AsyncLogging) : Prop where
  next : Spare s.nextBuffer
  new1 : Spare s.newBuffer1
  new2 : Spare s.newBuffer2
  taken : s.nextBuffer = none → s.buffers ≠ []
  cleared : s.back = .starting ∨ s.back = .test ∨ s.back = .locking ∨ s.back = .waiting →
    s.buffersToWrite = []
  spares : s.back = .test ∨ s.back = .locking ∨ s.back = .waiting →
    s.newBuffer1.isSome ∧ s.newBuffer2.isSome
  batch : s.back ≠ .starting → s.newBuffer1 = none →
    s.buffersToWrite ≠ [] ∧ (s.newBuffer2 = none → 2 ≤ s.buffersToWrite.length)
  only1 : s.back ≠ .starting → s.newBuffer2 = none → s.newBuffer1 = none

/-! ## 1. The roles of the buffers -/

theorem init_circulating : init.Circulating where
  next := spare_empty
  new1 := spare_none
  new2 := spare_none
  taken := fun h ↦ by simp [init] at h
  cleared := fun _ ↦ rfl
  spares := fun h ↦ by simp [init] at h
  batch := fun h ↦ (h rfl).elim
  only1 := fun h ↦ (h rfl).elim

theorem append_circulating {s t : AsyncLogging} {msg : List UInt8} (h : s.Circulating)
    (hstep : s.append msg = some t) : t.Circulating := by
  simp only [append, Option.map_eq_some_iff] at hstep
  obtain ⟨cur, -, rfl⟩ := hstep
  split
  · exact ⟨h.next, h.new1, h.new2, h.taken, h.cleared, h.spares, h.batch, h.only1⟩
  · exact ⟨spare_none, h.new1, h.new2, fun _ ↦ by simp, h.cleared, h.spares, h.batch, h.only1⟩

theorem collect_circulating {s t : AsyncLogging} (h : s.Circulating)
    (hback : s.back = .locking ∨ s.back = .waiting) (hstep : s.collect = some t) :
    t.Circulating := by
  obtain ⟨-, hnew2⟩ := h.spares (Or.inr hback)
  simp only [collect, Option.map_eq_some_iff] at hstep
  obtain ⟨cur, -, rfl⟩ := hstep
  split
  · -- a front end took the spare, and left the buffer it had filled
    rename_i hnext
    have hqueued : 0 < s.buffers.length := List.length_pos_iff.mpr (h.taken hnext)
    refine ⟨h.new2, spare_none, spare_none, fun hn ↦ ?_, by simp, by simp, fun _ _ ↦ ?_, by simp⟩
    · rw [show s.newBuffer2 = none from hn] at hnew2
      simp at hnew2
    · exact ⟨by simp, fun _ ↦ by rw [List.length_append, List.length_singleton]; omega⟩
  · rename_i hnext
    refine ⟨h.next, spare_none, h.new2, fun hn ↦ ?_, by simp, by simp, fun _ _ ↦ ?_, by simp⟩
    · simp [hnext] at hn
    · refine ⟨by simp, fun hn ↦ ?_⟩
      rw [show s.newBuffer2 = none from hn] at hnew2
      simp at hnew2

/-- What `threadFunc` asserts before it takes a spare buffer back: there is one to take. -/
theorem recycle_enabled {s : AsyncLogging} (h : s.Circulating) (hb : s.back = .recycle) :
    ∃ b1 b2, (b1.isSome ∧ b2.isSome) ∧ s.step .recycle =
      some { s with newBuffer1 := b1, newBuffer2 := b2, buffersToWrite := [], back := .test } := by
  simp only [step, hb]
  cases h1 : s.newBuffer1 with
  | some x =>
    cases h2 : s.newBuffer2 with
    | some y => exact ⟨some x, some y, by simp, rfl⟩
    | none => simp [h.only1 (by simp [hb]) h2] at h1
  | none =>
    obtain ⟨hne, htwo⟩ := h.batch (by simp [hb]) h1
    cases h2 : s.newBuffer2 with
    | some y =>
      obtain ⟨x, rest, hw⟩ := List.exists_cons_of_ne_nil hne
      cases rest with
      | nil => exact ⟨some x.reset, some y, by simp, by simp [refill, hw]⟩
      | cons x' rest => exact ⟨some x'.reset, some y, by simp, by simp [refill, hw]⟩
    | none =>
      obtain ⟨x, x', rest, hw⟩ : ∃ x x' rest, s.buffersToWrite = x :: x' :: rest := by
        have hlen := htwo h2
        obtain ⟨x, tail, hw⟩ := List.exists_cons_of_ne_nil hne
        cases tail with
        | nil => simp [hw] at hlen
        | cons x' rest => exact ⟨x, x', rest, hw⟩
      exact ⟨some x'.reset, some x.reset, by simp, by simp [refill, hw]⟩

theorem step_circulating {s t : AsyncLogging} {l : Label} (h : s.Circulating)
    (hstep : s.step l = some t) : t.Circulating := by
  cases step_cases hstep with
  | append happend => exact append_circulating h happend
  | start hb =>
    exact ⟨h.next, spare_empty, spare_empty, h.taken, fun _ ↦ h.cleared (Or.inl hb), by simp,
      by simp, by simp⟩
  | test hb =>
    have hsp := h.spares (Or.inl hb)
    have hbatch := h.batch (by simp [hb])
    exact ⟨h.next, h.new1, h.new2, h.taken, fun _ ↦ h.cleared (Or.inr (Or.inl hb)), fun _ ↦ hsp,
      fun _ ↦ hbatch, fun _ ↦ h.only1 (by simp [hb])⟩
  | wait hb =>
    exact ⟨h.next, h.new1, h.new2, h.taken, fun _ ↦ h.cleared (Or.inr (Or.inr (Or.inl hb))),
      fun _ ↦ h.spares (Or.inr (Or.inl hb)), fun _ ↦ h.batch (by simp [hb]),
      fun _ ↦ h.only1 (by simp [hb])⟩
  | collect _ hb hcollect => exact collect_circulating h hb hcollect
  | cut hb hcut =>
    refine ⟨h.next, h.new1, h.new2, h.taken, by simp, by simp, fun _ h1 ↦ ?_,
      fun _ ↦ h.only1 (by simp [hb])⟩
    have hlen : (s.buffersToWrite.take 2).length = 2 := by
      rw [List.length_take]
      omega
    exact ⟨List.ne_nil_of_length_pos (by rw [hlen]; omega), fun _ ↦ hlen.ge⟩
  | limit hb | write hb | written hb =>
    exact ⟨h.next, h.new1, h.new2, h.taken, by simp, by simp, fun _ ↦ h.batch (by simp [hb]),
      fun _ ↦ h.only1 (by simp [hb])⟩
  | recycle hb h1 h2 =>
    obtain ⟨b1, b2, ⟨hs1, hs2⟩, heq⟩ := recycle_enabled h hb
    rw [heq] at hstep
    simp only [Option.some.injEq, AsyncLogging.mk.injEq] at hstep
    obtain ⟨-, -, -, -, -, rfl, rfl, -⟩ := hstep
    refine ⟨h.next, spare_refill h.new1 h1, spare_refill h.new2 h2, h.taken, fun _ ↦ rfl,
      fun _ ↦ ⟨hs1, hs2⟩, fun _ hn ↦ ?_, fun _ hn ↦ ?_⟩
    · simp [show b1 = none from hn] at hs1
    · simp [show b2 = none from hn] at hs2
  | stop | notify | join =>
    exact ⟨h.next, h.new1, h.new2, h.taken, h.cleared, h.spares, h.batch, h.only1⟩

/-! ## 2. The account -/

theorem init_account : init.Account [] [] [] := ⟨rfl, rfl, rfl, rfl⟩

theorem append_account {s t : AsyncLogging} {msg : List UInt8} {batches : List (List Group)}
    {pending : List Group} {current : Group} (h : s.Account batches pending current)
    (hspare : Spare s.nextBuffer) (hlen : msg.length < cLargeBuffer)
    (hstep : s.append msg = some t) :
    t.Account batches pending (current ++ [msg]) ∨
      t.Account batches (pending ++ [current]) [msg] := by
  simp only [append, Option.map_eq_some_iff] at hstep
  obtain ⟨cur, hcur, rfl⟩ := hstep
  have hdata : cur.data = current.flatten := by simpa [hcur] using h.current
  by_cases hfit : msg.length < cur.vaild
  · rw [if_pos hfit]
    refine Or.inl ⟨?_, h.buffers, ?_, h.output⟩
    · simp [h.messages]
    · simp [FixedBuffer.append_data hfit, hdata]
  · -- the message opens an empty buffer, where it fits
    rw [if_neg hfit]
    have hroom : msg.length < (s.nextBuffer.getD .empty).vaild := by
      rw [FixedBuffer.vaild_of_data_nil hspare.getD]
      exact hlen
    refine Or.inr ⟨?_, ?_, ?_, h.output⟩
    · simp [h.messages]
    · simp [h.buffers, hdata]
    · simp [FixedBuffer.append_data hroom, hspare.getD]

/-- A collection makes one batch of the buffers that wait and the current one. -/
theorem collect_account {s t : AsyncLogging} {batches : List (List Group)} {pending : List Group}
    {current : Group} (h : s.Account batches pending current) (hc : s.Circulating)
    (hback : s.back = .locking ∨ s.back = .waiting) (hstep : s.collect = some t) :
    t.Account (batches ++ [pending ++ [current]]) [] [] := by
  have hclear : s.buffersToWrite = [] := hc.cleared (Or.inr (Or.inr hback))
  have hout : s.output = batches.flatMap fun batch ↦ calls (batch.map List.flatten) := by
    have hcome : s.toCome = [] := by rcases hback with hb | hb <;> simp [toCome, hb]
    simpa [hcome] using h.output
  obtain ⟨b1, hb1⟩ := Option.isSome_iff_exists.mp (hc.spares (Or.inr hback)).1
  have hempty : b1.data = [] := hc.new1 b1 hb1
  simp only [collect, Option.map_eq_some_iff] at hstep
  obtain ⟨cur, hcur, rfl⟩ := hstep
  have hdata : cur.data = current.flatten := by simpa [hcur] using h.current
  have hbatch : (s.buffers ++ [cur]).map (·.data) = (pending ++ [current]).map List.flatten := by
    simp [h.buffers, hdata]
  -- the two ways to end differ only in which spare buffer stays where
  split
  all_goals
    refine ⟨?_, ?_, ?_, ?_⟩
    · simp [h.messages]
    · simp [hclear]
    · simp [hb1, hempty]
    · simp only [toCome, hout, hbatch, List.flatMap_append, List.flatMap_singleton]

/-- The steps that move only the back end keep the account when they keep the calls made and to
come. -/
theorem Account.of_eq {s t : AsyncLogging} {batches : List (List Group)} {pending : List Group}
    {current : Group} (h : s.Account batches pending current) (hmsg : t.messages = s.messages)
    (hbuf : t.buffers = s.buffers) (hcur : t.currentBuffer = s.currentBuffer)
    (hcalls : t.output ++ t.toCome = s.output ++ s.toCome) : t.Account batches pending current := by
  refine ⟨?_, ?_, ?_, ?_⟩
  · rw [hmsg, h.messages]
  · rw [hbuf, h.buffers]
  · rw [hcur, h.current]
  · rw [hcalls, h.output]

theorem step_account {s t : AsyncLogging} {l : Label}
    (h : ∃ batches pending current, s.Account batches pending current) (hc : s.Circulating)
    (hlen : ∀ msg, l = .append msg → msg.length < cLargeBuffer) (hstep : s.step l = some t) :
    ∃ batches pending current, t.Account batches pending current := by
  obtain ⟨batches, pending, current, h⟩ := h
  cases step_cases hstep with
  | append happend =>
    rcases append_account h hc.next (hlen _ rfl) happend with h' | h'
    · exact ⟨_, _, _, h'⟩
    · exact ⟨_, _, _, h'⟩
  | collect _ hb hcollect => exact ⟨_, _, _, collect_account h hc hb hcollect⟩
  | start hb | wait hb | written hb | recycle hb =>
    exact ⟨_, _, _, h.of_eq rfl rfl rfl (by simp [toCome, hb])⟩
  | test hb =>
    refine ⟨_, _, _, h.of_eq rfl rfl rfl ?_⟩
    cases hr : s.running <;> simp [toCome, hb]
  | cut hb hcut =>
    exact ⟨_, _, _, h.of_eq rfl rfl rfl (by simp [toCome, calls, hb, hcut, List.map_take])⟩
  | limit hb hshort =>
    refine ⟨_, _, _, h.of_eq rfl rfl rfl ?_⟩
    simp [toCome, calls, hb, Nat.not_lt.mpr hshort]
  | write hb => exact ⟨_, _, _, h.of_eq rfl rfl rfl (by simp [toCome, hb])⟩
  | stop | notify | join => exact ⟨_, _, _, h.of_eq rfl rfl rfl rfl⟩

/-! ## 3. Every run -/

theorem logged_eq (s : AsyncLogging) : s.logged = s.output.flatMap LogCall.content := by
  unfold logged
  congr 1

theorem calls_of_short {bufs : List (List UInt8)} (h : bufs.length ≤ 25) :
    calls bufs = bufs.map .buffer := by
  rw [calls, if_neg (Nat.not_lt.mpr h)]

theorem content_map_buffer (bufs : List (List UInt8)) :
    (bufs.map LogCall.buffer).flatMap LogCall.content = bufs.flatten := by
  rw [List.flatMap_map, ← List.flatMap_id']
  rfl

theorem calls_of_short_batches {batches : List (List Group)}
    (hshort : ∀ batch ∈ batches, batch.length ≤ 25) :
    (batches.flatMap fun batch ↦ calls (batch.map List.flatten)) =
      (batches.flatten.map List.flatten).map .buffer := by
  induction batches with
  | nil => rfl
  | cons batch batches ih =>
    have hbatch : (batch.map List.flatten).length ≤ 25 := by
      rw [List.length_map]
      exact hshort batch List.mem_cons_self
    rw [List.flatMap_cons, ih fun b hb ↦ hshort b (List.mem_cons_of_mem batch hb),
      calls_of_short hbatch, List.flatten_cons, List.map_append, List.map_append]

/-- With no batch cut, what is still to be called for is what is still to be written. -/
theorem content_toCome {s : AsyncLogging} (h : ∀ k, .notice k ∉ s.toCome) :
    s.toCome.flatMap LogCall.content = s.unwritten := by
  cases hb : s.back with
  | collected =>
    simp only [toCome, unwritten, hb] at h ⊢
    by_cases hcut : 25 < (s.buffersToWrite.map (·.data)).length
    · rw [calls, if_pos hcut] at h
      exact (h _ List.mem_cons_self).elim
    · rw [calls_of_short (Nat.le_of_not_lt hcut), content_map_buffer]
      rfl
  | writing rest =>
    simp only [toCome, unwritten, hb]
    exact content_map_buffer _
  | _ => simp [toCome, unwritten, hb]

theorem Account.bytes_eq {s : AsyncLogging} {batches : List (List Group)} {pending : List Group}
    {current : Group} (h : s.Account batches pending current)
    (hshort : ∀ batch ∈ batches, batch.length ≤ 25) :
    s.logged ++ s.unwritten ++ s.uncollected = s.messages.flatten := by
  have hout := h.output
  rw [calls_of_short_batches hshort] at hout
  have hquiet : ∀ k, .notice k ∉ s.toCome := by
    intro k hk
    have hmem : LogCall.notice k ∈ s.output ++ s.toCome := List.mem_append_right _ hk
    rw [hout] at hmem
    simp at hmem
  have hwritten : s.logged ++ s.unwritten = batches.flatten.flatten.flatten := by
    rw [logged_eq, ← content_toCome hquiet, ← List.flatMap_append, hout, content_map_buffer,
      List.flatten_flatten]
  have hleft : s.uncollected = pending.flatten.flatten ++ current.flatten := by
    obtain ⟨cur, hcur, hdata⟩ := Option.map_eq_some_iff.mp h.current
    rw [uncollected, bytes, h.buffers, hcur, Option.elim_some, hdata, List.flatten_flatten]
  rw [hwritten, hleft, h.messages]
  simp

/-- **Order and conservation.**  After any interleaving of appends with the back end's steps, the
messages in lock order are those of the batches, of the buffers that wait and of the current buffer,
each inside one buffer; the calls of `LogFile::append`, those still to come included, are the calls
of the batches, and as long as no batch was cut they carry every byte. -/
theorem log_in_order {ls : List Label} {s : AsyncLogging} (h : Trace.run step init ls = some s)
    (hlen : ∀ msg, .append msg ∈ ls → msg.length < cLargeBuffer) :
    ∃ batches pending current, s.Account batches pending current ∧
      ((∀ batch ∈ batches, batch.length ≤ 25) →
        s.logged ++ s.unwritten ++ s.uncollected = s.messages.flatten) := by
  have hfits : Trace.Along step (fun _ l ↦ ∀ msg, l = .append msg → msg.length < cLargeBuffer)
      init ls := Trace.along_of_forall_mem fun l hl _ msg hmsg ↦ hlen msg (hmsg ▸ hl)
  obtain ⟨-, batches, pending, current, hacc⟩ :
      s.Circulating ∧ ∃ batches pending current, s.Account batches pending current :=
    Trace.run_inv_along
      (I := fun s ↦ s.Circulating ∧ ∃ batches pending current, s.Account batches pending current)
      (fun u l v hu hp hstep ↦ ⟨step_circulating hu.1 hstep, step_account hu.2 hu.1 hp hstep⟩)
      ⟨init_circulating, [], [], [], init_account⟩ hfits h
  exact ⟨batches, pending, current, hacc, hacc.bytes_eq⟩

theorem log_in_order_one_message :
    ∃ s, Trace.run step init [.start, .test, .lock, .append [104, 105], .wake] = some s ∧
      ∃ batches pending current, s.Account batches pending current := by
  obtain ⟨s, hs⟩ : ∃ s, Trace.run step init
    [.start, .test, .lock, .append [104, 105], .wake] = some s := ⟨_, rfl⟩
  have hlen (msg : List UInt8)
      (hmsg : .append msg ∈ [Label.start, .test, .lock, .append [104, 105], .wake]) :
      msg.length < cLargeBuffer := by
    obtain rfl : msg = [104, 105] := by simpa using hmsg
    decide
  obtain ⟨batches, pending, current, h, -⟩ := log_in_order hs hlen
  exact ⟨s, hs, batches, pending, current, h⟩

end AsyncLogging

end Netlib
