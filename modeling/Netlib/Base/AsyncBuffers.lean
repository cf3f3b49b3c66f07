import Netlib.Base.AsyncBatches

/-!
# The buffers of the asynchronous logger

Two threads move buffers between five places.  What the code asserts on the way, and what it relies on
without a word: there is always a current buffer, and the back end always has two spare ones again
before its next collection.
-/

namespace Netlib

namespace AsyncLogging

/-- Beside the roles of the buffers: a current buffer, a batch behind every collection, and
`_running` until `stop()`. -/
structure AtHand (s : AsyncLogging) : Prop where
  circulating : s.Circulating
  current : s.currentBuffer.isSome
  collected : s.back = .collected → s.buffersToWrite ≠ []
  running : s.stopper = .idle → s.running = true

theorem init_atHand : init.AtHand where
  circulating := init_circulating
  current := rfl
  collected := fun h ↦ by simp [init] at h
  running := fun _ ↦ rfl

theorem append_atHand {s t : AsyncLogging} {msg : List UInt8} (h : s.AtHand)
    (hstep : s.append msg = some t) : t.AtHand := by
  have hcirc := append_circulating h.circulating hstep
  simp only [append, Option.map_eq_some_iff] at hstep
  obtain ⟨cur, -, rfl⟩ := hstep
  by_cases hfit : msg.length < cur.vaild
  · rw [if_pos hfit] at hcirc ⊢
    exact ⟨hcirc, rfl, h.collected, h.running⟩
  · rw [if_neg hfit] at hcirc ⊢
    exact ⟨hcirc, rfl, h.collected, h.running⟩

/-- The new current buffer is the spare one that the back end has at every collection. -/
theorem collect_atHand {s t : AsyncLogging} (h : s.AtHand)
    (hback : s.back = .locking ∨ s.back = .waiting) (hstep : s.collect = some t) : t.AtHand := by
  have hcirc := collect_circulating h.circulating hback hstep
  obtain ⟨hnew1, -⟩ := h.circulating.spares (Or.inr hback)
  simp only [collect, Option.map_eq_some_iff] at hstep
  obtain ⟨cur, -, rfl⟩ := hstep
  have hbatch : s.buffers ++ [cur] ≠ [] :=
    List.append_ne_nil_of_right_ne_nil _ (List.cons_ne_nil _ _)
  split at hcirc
  · exact ⟨hcirc, hnew1, fun _ ↦ hbatch, h.running⟩
  · exact ⟨hcirc, hnew1, fun _ ↦ hbatch, h.running⟩

theorem step_atHand {s t : AsyncLogging} {l : Label} (h : s.AtHand) (hstep : s.step l = some t) :
    t.AtHand := by
  have hcirc := step_circulating h.circulating hstep
  cases step_cases hstep with
  | append happend => exact append_atHand h happend
  | collect _ hb hcollect => exact collect_atHand h hb hcollect
  | start | wait | cut | limit | write | written | recycle =>
    exact ⟨hcirc, h.current, by simp, h.running⟩
  | test =>
    refine ⟨hcirc, h.current, ?_, h.running⟩
    simp only
    split <;> simp
  | stop => exact ⟨hcirc, h.current, h.collected, by simp⟩
  | notify => exact ⟨hcirc, h.current, h.collected, by simp⟩
  | join => exact ⟨hcirc, h.current, h.collected, by simp⟩

/-- **The buffers at hand.**  After any interleaving of appends with the steps of the back end there
is a current buffer, and the next one is only missing while a filled one waits; at the head of an
iteration both spare buffers are there and empty, and nothing is left to write; a collection collects
something; and behind the writing each spare buffer that is missing can be taken back. -/
theorem buffers_at_hand {ls : List Label} {s : AsyncLogging}
    (h : Trace.run step init ls = some s) :
    s.currentBuffer.isSome ∧
      (∀ msg, ∃ t, s.append msg = some t) ∧
      (s.back = .locking ∨ s.back = .waiting → ∃ t, s.collect = some t) ∧
      (s.nextBuffer = none → s.buffers ≠ []) ∧
      (s.back = .test ∨ s.back = .locking →
        (∃ b, s.newBuffer1 = some b ∧ b.data = []) ∧ (∃ b, s.newBuffer2 = some b ∧ b.data = []) ∧
          s.buffersToWrite = []) ∧
      (s.back = .collected → s.buffersToWrite ≠ []) ∧
      (s.back = .recycle → ∃ t, s.step .recycle = some t) ∧
      (s.stopper = .idle → s.running = true) := by
  have hs : s.AtHand := Trace.run_inv (fun _ _ _ hu hstep ↦ step_atHand hu hstep) init_atHand h
  have hcirc := hs.circulating
  obtain ⟨cur, hcur⟩ := Option.isSome_iff_exists.mp hs.current
  refine ⟨hs.current, fun msg ↦ ?_, fun _ ↦ ?_, hcirc.taken, fun hb ↦ ?_, hs.collected, fun hb ↦ ?_,
    hs.running⟩
  · rw [append, hcur]
    exact ⟨_, rfl⟩
  · rw [collect, hcur]
    exact ⟨_, rfl⟩
  · have hhead : s.back = .test ∨ s.back = .locking ∨ s.back = .waiting := by tauto
    obtain ⟨h1, h2⟩ := hcirc.spares hhead
    obtain ⟨b1, hb1⟩ := Option.isSome_iff_exists.mp h1
    obtain ⟨b2, hb2⟩ := Option.isSome_iff_exists.mp h2
    exact ⟨⟨b1, hb1, hcirc.new1 b1 hb1⟩, ⟨b2, hb2, hcirc.new2 b2 hb2⟩,
      hcirc.cleared (Or.inr hhead)⟩
  · obtain ⟨b1, b2, -, hstep⟩ := recycle_enabled hcirc hb
    exact ⟨_, hstep⟩

/-- At the head of the second iteration. -/
theorem buffers_at_hand_second :
    ∃ s, Trace.run step init
        [.start, .test, .lock, .append [104, 105], .wake, .limit, .write, .write, .recycle] = some s ∧
      s.currentBuffer.isSome ∧ (s.nextBuffer = none → s.buffers ≠ []) := by
  obtain ⟨s, hs⟩ : ∃ s, Trace.run step init
    [.start, .test, .lock, .append [104, 105], .wake, .limit, .write, .write, .recycle] = some s :=
    ⟨_, rfl⟩
  obtain ⟨hcur, -, -, hnext, -⟩ := buffers_at_hand hs
  exact ⟨s, hs, hcur, hnext⟩

end AsyncLogging

end Netlib
