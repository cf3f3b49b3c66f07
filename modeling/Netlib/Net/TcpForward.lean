import Netlib.Net.TcpDestroy

/-!
# The last state of a connection

`cDisconnected` should be final: `forceCloseInLoop` relies on it not to run `handleClose` again, and
`~TcpConnection` asserts it.  But `shutdown`, `forceClose` and `forceCloseWithDelay` test `_state` and
store `cDisconnecting` in two steps, and on another thread the loop may close the connection between
the two.  This module says that nothing else leads out of `cDisconnected`.
-/

namespace Netlib

namespace TcpLoop

variable {T : Type} [DecidableEq T]

/-- What a run should keep of a connection that has come to `cDisconnected`. -/
structure DownForGood (conn : TcpConnection) (ls : List (Label T)) : Prop where
  /-- The state does not change any more. -/
  stays : ∀ before after m s, before ++ after <+: ls →
    Trace.run step (init conn) before = some m → m.conn.state = .cDisconnected →
    Trace.run step m after = some s → s.conn.state = .cDisconnected
  /-- No `forceCloseInLoop` runs `handleClose` a second time. -/
  forced : ∀ before io m u, before ++ [.functor io] <+: ls →
    Trace.run step (init conn) before = some m → m.closeEntries ≠ [] →
    m.step (.functor io) = some u → u.closeEntries = m.closeEntries
  /-- The assert of `~TcpConnection` holds wherever it may run behind the callback that reports the
  connection down. -/
  destructor : ∀ before m, before <+: ls → Trace.run step (init conn) before = some m →
    0 < m.downs → m.conn.state = .cDisconnected

/-! ## 1. What a step keeps -/

/-- Whatever has closed the connection, it is down now. -/
structure Settled (s : TcpLoop T) : Prop where
  downs : 0 < s.downs → s.conn.state = .cDisconnected
  entries : s.closeEntries ≠ [] → s.conn.state = .cDisconnected

section Steps

variable {s u : TcpLoop T} {l : Label T}

/-- The connection is reported down by the step that takes it down. -/
theorem downs_of_step (hstep : s.step l = some u) :
    u.downs = s.downs ∨ u.conn.state = .cDisconnected := by
  have hspec := step_chnnelSpec hstep
  rcases hspec.entries with hentries | hdown
  · rcases hspec.downs with hdowns | ⟨io, rfl, hhead⟩
    · rw [hentries] at hdowns
      exact Or.inl (by omega)
    · cases step_cases hstep with
      | task hagenda htask =>
        rw [hagenda, List.head?_cons, Option.some.injEq] at hhead
        subst hhead
        cases htask
        exact Or.inr rfl
  · exact Or.inr hdown

theorem step_settled (h : s.Settled) (hlate : s.NotLate l) (hstep : s.step l = some u) :
    u.Settled where
  downs := fun hpos ↦ by
    rcases downs_of_step hstep with heq | hdown
    · exact disconnected_stays (h.downs (heq ▸ hpos)) hlate hstep
    · exact hdown
  entries := fun hne ↦ by
    rcases (step_chnnelSpec hstep).entries with heq | hdown
    · exact disconnected_stays (h.entries (heq ▸ hne)) hlate hstep
    · exact hdown

/-- A functor that finds the connection closed leaves it alone. -/
theorem Settled.forced {io : Io} (h : s.Settled) (hne : s.closeEntries ≠ [])
    (hstep : s.step (.functor io) = some u) : u.closeEntries = s.closeEntries := by
  rcases (step_spec hstep).closeEntries with heq | ⟨hclose, -⟩
  · exact heq
  · cases hclose with
    | forceCloseInLoop _ hclosable => simp [TcpConnection.closable, h.entries hne] at hclosable

omit [DecidableEq T] in
theorem init_settled (hightWaterMark : Nat) (writeComplete hightWater : Bool) :
    (init (.init hightWaterMark writeComplete hightWater) : TcpLoop T).Settled where
  downs := fun hpos ↦ (Nat.lt_irrefl 0 hpos).elim
  entries := fun hne ↦ (hne rfl).elim

end Steps

/-! ## 2. What a run keeps -/

/-- **When `cDisconnected` is final.**  In every run of a connection, with any callers: its state never
leaves `cDisconnected`, no late `forceCloseInLoop` runs `handleClose` again and the assert of
`~TcpConnection` holds, exactly when no other thread that has tested `_state` before stores
`cDisconnecting` once the connection is in `cDisconnected`. -/
theorem down_for_good_iff {hightWaterMark : Nat} {writeComplete hightWater : Bool}
    {ls : List (Label T)} :
    DownForGood (.init hightWaterMark writeComplete hightWater) ls ↔
      Trace.Along step NotLate (init (.init hightWaterMark writeComplete hightWater)) ls := by
  constructor
  · intro h
    refine Trace.along_iff_split.mpr fun before l after m hsplit hm ↦ ?_
    cases l with
    | proceed t =>
      -- a late store would be the step out of `cDisconnected` that the run does not take
      intro hdown c hpc
      have hstep : m.step (.proceed t) = some (m.setDisconnecting.setCaller t (.queueing c)) := by
        simp only [step, hpc]
      have hpre : before ++ [.proceed t] <+: ls := ⟨after, by simpa using hsplit⟩
      have hs := h.stays before [.proceed t] m _ hpre hm hdown (by rw [Trace.run_cons, hstep]; rfl)
      simp [late_leaves hpc hstep] at hs
    | _ => trivial
  · intro hlate
    have hsettled {before : List (Label T)} {m : TcpLoop T} (hpre : before <+: ls)
        (hm : Trace.run step (init (.init hightWaterMark writeComplete hightWater)) before =
          some m) : m.Settled :=
      Trace.run_inv_along (fun _ _ _ hs hl hstep ↦ step_settled hs hl hstep)
        (init_settled hightWaterMark writeComplete hightWater) (hlate.initial hpre) hm
    constructor
    · intro before after m s hpre hm hdown hs
      -- from the moment the connection is down, on the rest of the run
      have hafter := (Trace.along_append.mp (hlate.initial hpre)).2 m hm
      exact Trace.run_inv_along (I := fun s : TcpLoop T ↦ s.conn.state = .cDisconnected)
        (fun _ _ _ hs hl hstep ↦ disconnected_stays hs hl hstep) hdown hafter hs
    · intro before io m u hpre hm hne hstep
      exact (hsettled ((List.prefix_append ..).trans hpre) hm).forced hne hstep
    · intro before m hpre hm hpos
      exact (hsettled hpre hm).downs hpos

/-- Another thread tests `_state` in `forceClose`, and the loop thread forces the close and runs it
before the other one has stored `cDisconnecting`.  The store and the push come behind `handleClose`,
and the second `forceCloseInLoop` runs it again. -/
theorem late_forceClose_closes_again :
    ¬ ∀ ls : List (Label Unit), DownForGood (.init 100 false false) ls := by
  intro h
  obtain ⟨m, u, hm, hne, hstep, htwice⟩ : ∃ m u : TcpLoop Unit,
      Trace.run step (init (.init 100 false false))
        [.pollReturn none, .handleOther, .connectEstablished, .ret,
          .callFrom () (.close .forceClose), .call (.close .forceClose) ⟨.wrote 0, .data⟩,
          .task ⟨.wrote 0, .data⟩, .ret, .dpPendingFunctors, .functor ⟨.wrote 0, .data⟩, .ret,
          .task ⟨.wrote 0, .data⟩, .ret, .proceed (), .proceed (), .functor ⟨.wrote 0, .data⟩,
          .pollReturn none, .dpPendingFunctors] = some m ∧
      m.closeEntries ≠ [] ∧ m.step (.functor ⟨.wrote 0, .data⟩) = some u ∧
      u.closeEntries = [.cDisconnecting, .cDisconnecting] ∧ m.closeEntries = [.cDisconnecting] :=
    ⟨_, _, rfl, by decide, rfl, rfl, rfl⟩
  have hsame := (h _).forced _ _ m u (List.prefix_refl _) hm hne hstep
  rw [htwice.1, htwice.2] at hsame
  cases hsame

/-- With `shutdown` in the place of `forceClose` nothing closes the connection again, and the assert of
`~TcpConnection` fails. -/
example :
    ∃ m : TcpLoop Unit, Trace.run step (init (.init 100 false false))
        [.pollReturn none, .handleOther, .connectEstablished, .ret,
          .callFrom () (.close .shutdown), .call (.close .forceClose) ⟨.wrote 0, .data⟩,
          .task ⟨.wrote 0, .data⟩, .ret, .dpPendingFunctors, .functor ⟨.wrote 0, .data⟩, .ret,
          .task ⟨.wrote 0, .data⟩, .queueDestoryed, .ret, .proceed (), .proceed (),
          .functor ⟨.wrote 0, .data⟩, .pollReturn none, .dpPendingFunctors,
          .functor ⟨.wrote 0, .data⟩, .task ⟨.wrote 0, .data⟩, .functor ⟨.wrote 0, .data⟩,
          .functor ⟨.wrote 0, .data⟩] = some m ∧
      m.downs = 1 ∧ m.functors.pending = [] ∧ m.conn.state = .cDisconnecting :=
  ⟨_, rfl, rfl, rfl, rfl⟩

end TcpLoop

end Netlib
