import Netlib.Lib.Run

/-!
# Programs around a mutex and a condition variable

Threads share data, one mutex and one condition variable with the meaning that POSIX gives them: a
wait releases the mutex and blocks in one step, and takes the mutex again before it returns; it may
end for no reason.  A program is given by what each thread does next at each of its points.

A proof outline says what holds of the data while the mutex is free, what its owner may rely on at
each point, and what a thread knows without the mutex.  If every instruction fits the outline, the
outline holds in every state of every run, and a state in which nothing goes on is one in which
every thread has come to its end or waits.
-/

namespace Monitor

universe u v w

/-- What a thread does next: `σ` is the shared data, `P` the points of the programs. -/
inductive Instr (σ : Type u) (P : Type v) where
  | lock (next : P)
  | unlock (next : P)
  | wait (next : P)
  | signal (next : P)
  | broadcast (next : P)
  /-- One access to the data. -/
  | act (f : σ → σ) (next : σ → P)
  | stop

structure State (T : Type w) (σ : Type u) (P : Type v) where
  owner : Option T
  /-- Blocked in a wait. -/
  waiting : Finset T
  /-- No longer blocked, but still without the mutex. -/
  woken : Finset T
  point : T → P
  data : σ

inductive Label (T : Type w) where
  | run (t : T)
  /-- The signal of `t` unblocks `u`. -/
  | signal (t u : T)
  /-- The wait of `t` times out, or ends for no reason. -/
  | wake (t : T)

variable {T : Type w} {σ : Type u} {P : Type v} [DecidableEq T]

namespace State

def init (point : T → P) (data : σ) : State T σ P := ⟨none, ∅, ∅, point, data⟩

def Running (s : State T σ P) (t : T) : Prop := t ∉ s.waiting ∧ t ∉ s.woken

instance (s : State T σ P) (t : T) : Decidable (s.Running t) :=
  inferInstanceAs (Decidable (_ ∧ _))

def goto (s : State T σ P) (t : T) (p : P) : State T σ P :=
  { s with point := Function.update s.point t p }

def wake (s : State T σ P) (u : T) : State T σ P :=
  { s with waiting := s.waiting.erase u, woken := insert u s.woken }

end State

open State

/-- The instruction of a running thread.  An unlock or a wait without the mutex has no next
state. -/
def execute (s : State T σ P) (t : T) : Instr σ P → Option (State T σ P)
  | .lock q => if s.owner = none then some { s.goto t q with owner := some t } else none
  | .unlock q => if s.owner = some t then some { s.goto t q with owner := none } else none
  | .wait q =>
    if s.owner = some t then
      some { s.goto t q with owner := none, waiting := insert t s.waiting }
    else none
  | .signal q => if s.waiting = ∅ then some (s.goto t q) else none
  | .broadcast q => some { s.goto t q with waiting := ∅, woken := s.woken ∪ s.waiting }
  | .act f next => some { s.goto t (next s.data) with data := f s.data }
  | .stop => none

def step (code : T → P → Instr σ P) (s : State T σ P) : Label T → Option (State T σ P)
  | .run t =>
    if t ∈ s.waiting then none
    else if t ∈ s.woken then
      if s.owner = none then some { s with owner := some t, woken := s.woken.erase t } else none
    else execute s t (code t (s.point t))
  | .signal t u =>
    match code t (s.point t) with
    | .signal q => if s.Running t ∧ u ∈ s.waiting then some ((s.goto t q).wake u) else none
    | _ => none
  | .wake t => if t ∈ s.waiting then some (s.wake t) else none

/-! ## 1. What a step does -/

section

variable {code : T → P → Instr σ P} {s s' : State T σ P} {l : Label T} {t u : T} {p q : P}

@[simp] theorem goto_self : (s.goto t q).point t = q := Function.update_self ..

@[simp] theorem goto_of_ne (h : u ≠ t) : (s.goto t q).point u = s.point u :=
  Function.update_of_ne h ..

/-- The cases of a step. -/
inductive Moves (code : T → P → Instr σ P) (s : State T σ P) : Label T → State T σ P → Prop where
  | resume {t : T} : t ∉ s.waiting → t ∈ s.woken → s.owner = none →
      Moves code s (.run t) { s with owner := some t, woken := s.woken.erase t }
  | lock {t : T} {q : P} : s.Running t → code t (s.point t) = .lock q → s.owner = none →
      Moves code s (.run t) { s.goto t q with owner := some t }
  | unlock {t : T} {q : P} : s.Running t → code t (s.point t) = .unlock q → s.owner = some t →
      Moves code s (.run t) { s.goto t q with owner := none }
  | wait {t : T} {q : P} : s.Running t → code t (s.point t) = .wait q → s.owner = some t →
      Moves code s (.run t) { s.goto t q with owner := none, waiting := insert t s.waiting }
  | signalNone {t : T} {q : P} : s.Running t → code t (s.point t) = .signal q → s.waiting = ∅ →
      Moves code s (.run t) (s.goto t q)
  | signal {t u : T} {q : P} : s.Running t → code t (s.point t) = .signal q → u ∈ s.waiting →
      Moves code s (.signal t u) ((s.goto t q).wake u)
  | broadcast {t : T} {q : P} : s.Running t → code t (s.point t) = .broadcast q →
      Moves code s (.run t)
        { s.goto t q with waiting := ∅, woken := s.woken ∪ s.waiting }
  | act {t : T} {f : σ → σ} {next : σ → P} : s.Running t → code t (s.point t) = .act f next →
      Moves code s (.run t) { s.goto t (next s.data) with data := f s.data }
  | wake {t : T} : t ∈ s.waiting → Moves code s (.wake t) (s.wake t)

theorem execute_cases (hrun : s.Running t) (h : execute s t (code t (s.point t)) = some s') :
    Moves code s (.run t) s' := by
  unfold execute at h
  split at h <;> rename_i hcode
  · split at h
    · cases h
      exact .lock hrun hcode ‹_›
    · cases h
  · split at h
    · cases h
      exact .unlock hrun hcode ‹_›
    · cases h
  · split at h
    · cases h
      exact .wait hrun hcode ‹_›
    · cases h
  · split at h
    · cases h
      exact .signalNone hrun hcode ‹_›
    · cases h
  · cases h
    exact .broadcast hrun hcode
  · cases h
    exact .act hrun hcode
  · cases h

theorem step_cases (h : step code s l = some s') : Moves code s l s' := by
  unfold step at h
  split at h
  · split at h
    · cases h
    · rename_i hwaiting
      split at h
      · split at h
        · cases h
          exact .resume hwaiting ‹_› ‹_›
        · cases h
      · exact execute_cases ⟨hwaiting, ‹_›⟩ h
  · split at h
    · rename_i hcode
      split at h
      · rename_i hcan
        cases h
        exact .signal hcan.1 hcode hcan.2
      · cases h
    · cases h
  · split at h
    · cases h
      exact .wake ‹_›
    · cases h

end

/-! ## 2. Outlines -/

structure Outline (T : Type w) (σ : Type u) (P : Type v) where
  /-- The points at which a thread has the mutex. -/
  holds : T → P → Prop
  /-- What holds of the data, and of the threads that wait, while the mutex is free. -/
  free : σ → Finset T → Prop
  /-- What the owner may rely on. -/
  held : T → P → σ → Finset T → Prop
  /-- What a thread knows with or without the mutex. -/
  knows : T → P → σ → Prop
  /-- What a thread may do to the data. -/
  changes : T → σ → σ → Prop

namespace Outline

/-- The instruction leads from the outline at its point to the outline at the next one. -/
def Fits (o : Outline T σ P) (t : T) (p : P) : Instr σ P → Prop
  | .lock q => ¬ o.holds t p ∧ o.holds t q ∧
      ∀ d, o.knows t p d → o.knows t q d ∧ ∀ W, o.free d W → o.held t q d W
  | .unlock q => o.holds t p ∧ ¬ o.holds t q ∧
      ∀ d W, o.knows t p d → o.held t p d W → o.knows t q d ∧ o.free d W
  | .wait q => o.holds t p ∧ o.holds t q ∧
      (∀ d W, o.knows t p d → o.held t p d W → o.knows t q d ∧ o.free d (insert t W)) ∧
      ∀ d W, o.knows t q d → o.free d W → o.held t q d W
  | .signal q => (o.holds t p ↔ o.holds t q) ∧ ∀ d, o.knows t p d → o.knows t q d ∧
      (o.holds t p → ∀ W, o.held t p d W →
        (W = ∅ → o.held t q d W) ∧ ∀ u ∈ W, o.held t q d (W.erase u))
  | .broadcast q => (o.holds t p ↔ o.holds t q) ∧ ∀ d, o.knows t p d → o.knows t q d ∧
      (o.holds t p → ∀ W, o.held t p d W → o.held t q d ∅)
  | .act f next => ∀ d, o.knows t p d →
      (o.holds t p → ∀ W, o.held t p d W → o.holds t (next d) ∧ o.changes t d (f d) ∧
        o.knows t (next d) (f d) ∧ o.held t (next d) (f d) W) ∧
      -- an access without the mutex disturbs nobody
      (¬ o.holds t p → ¬ o.holds t (next d) ∧ o.changes t d (f d) ∧ o.knows t (next d) (f d) ∧
        (∀ W, o.free d W → o.free (f d) W) ∧
        ∀ u q W, u ≠ t → o.knows u q d → o.held u q d W → o.held u q (f d) W)
  | .stop => ¬ o.holds t p

/-- The outline is one of the program. -/
structure Valid (o : Outline T σ P) (code : T → P → Instr σ P) : Prop where
  free_mono : ∀ {d : σ} {W W' : Finset T}, W' ⊆ W → o.free d W → o.free d W'
  held_mono : ∀ {t : T} {p : P} {d : σ} {W W' : Finset T}, W' ⊆ W → o.held t p d W →
    o.held t p d W'
  stable : ∀ {t u : T} {p : P} {d d' : σ}, t ≠ u → o.knows t p d → o.changes u d d' →
    o.knows t p d'
  fits : ∀ t p, o.Fits t p (code t p)

/-- The outline holds of a state. -/
structure Holds (o : Outline T σ P) (s : State T σ P) : Prop where
  running : ∀ t, s.Running t → (s.owner = some t ↔ o.holds t (s.point t))
  blocked : ∀ t, ¬ s.Running t → s.owner ≠ some t ∧ o.holds t (s.point t) ∧
    ∀ d W, o.knows t (s.point t) d → o.free d W → o.held t (s.point t) d W
  knows : ∀ t, o.knows t (s.point t) s.data
  free : s.owner = none → o.free s.data s.waiting
  held : ∀ t, s.owner = some t → o.held t (s.point t) s.data s.waiting

section

variable {o : Outline T σ P} {code : T → P → Instr σ P} {s s' : State T σ P} {l : Label T} {t u : T}
  {q : P}

omit [DecidableEq T] in
theorem init_holds {point : T → P} {d : σ} (hout : ∀ t, ¬ o.holds t (point t))
    (hknows : ∀ t, o.knows t (point t) d) (hfree : o.free d ∅) : o.Holds (init point d) := by
  refine ⟨fun t _ ↦ ?_, fun t h ↦ ?_, hknows, fun _ ↦ hfree, fun t h ↦ ?_⟩
  · constructor
    · intro h
      cases h
    · intro h
      exact (hout t h).elim
  · exact (h ⟨Finset.notMem_empty t, Finset.notMem_empty t⟩).elim
  · cases h

omit [DecidableEq T] in
/-- Mutual exclusion. -/
theorem Holds.eq_of_holds (h : o.Holds s) (ht : s.Running t) (hu : s.Running u)
    (htp : o.holds t (s.point t)) (hup : o.holds u (s.point u)) : t = u := by
  have howner := (h.running t ht).mpr htp
  have howner' := (h.running u hu).mpr hup
  exact Option.some.inj (howner.symm.trans howner')

theorem running_wake (hu : u ∈ s.waiting) : (s.wake u).Running t ↔ s.Running t := by
  simp only [State.wake, Running, Finset.mem_erase, Finset.mem_insert]
  constructor
  · rintro ⟨hnot, hwoken⟩
    exact ⟨fun hmem ↦ hnot ⟨fun heq ↦ hwoken (Or.inl heq), hmem⟩, fun hmem ↦ hwoken (Or.inr hmem)⟩
  · rintro ⟨hnot, hwoken⟩
    refine ⟨fun hmem ↦ hnot hmem.2, ?_⟩
    rintro (rfl | hmem)
    · exact hnot hu
    · exact hwoken hmem

theorem Holds.wake (h : o.Holds s) (hv : o.Valid code) (hu : u ∈ s.waiting) :
    o.Holds (s.wake u) := by
  have hsub : s.waiting.erase u ⊆ s.waiting := Finset.erase_subset u s.waiting
  exact {
    running := fun t ht ↦ h.running t ((running_wake hu).mp ht)
    blocked := fun t ht ↦ h.blocked t (fun hrun ↦ ht ((running_wake hu).mpr hrun))
    knows := h.knows
    free := fun hnone ↦ hv.free_mono hsub (h.free hnone)
    held := fun t ht ↦ hv.held_mono hsub (h.held t ht) }

/-- Thread `t` has gone on to `q`; what is to be shown is about `t`, but for what it did to the
others. -/
theorem Holds.goes (h : o.Holds s) (hpoint : s'.point = Function.update s.point t q)
    (hrunning : ∀ u, u ≠ t → (s'.Running u ↔ s.Running u))
    (howner : ∀ u, u ≠ t → (s'.owner = some u ↔ s.owner = some u))
    (hself : s'.Running t → (s'.owner = some t ↔ o.holds t q))
    (hblocked : ¬ s'.Running t → s'.owner ≠ some t ∧ o.holds t q ∧
      ∀ d W, o.knows t q d → o.free d W → o.held t q d W)
    (hknows : o.knows t q s'.data)
    (hstable : ∀ u, u ≠ t → ∀ p, o.knows u p s.data → o.knows u p s'.data)
    (hfree : s'.owner = none → o.free s'.data s'.waiting)
    (hheld : s'.owner = some t → o.held t q s'.data s'.waiting)
    (hothers : ∀ u, u ≠ t → s.owner = some u → o.held u (s.point u) s'.data s'.waiting) :
    o.Holds s' := by
  have hq : s'.point t = q := by rw [hpoint, Function.update_self]
  have hsame (u : T) (hu : u ≠ t) : s'.point u = s.point u := by
    rw [hpoint, Function.update_of_ne hu]
  refine ⟨fun u hu ↦ ?_, fun u hu ↦ ?_, fun u ↦ ?_, hfree, fun u hu ↦ ?_⟩
  all_goals by_cases hut : u = t
  · subst hut
    rw [hq]
    exact hself hu
  · rw [howner u hut, hsame u hut]
    exact h.running u ((hrunning u hut).mp hu)
  · subst hut
    rw [hq]
    exact hblocked hu
  · have hbefore := h.blocked u fun hrun ↦ hu ((hrunning u hut).mpr hrun)
    rw [hsame u hut]
    exact ⟨fun hsome ↦ hbefore.1 ((howner u hut).mp hsome), hbefore.2⟩
  · subst hut
    rw [hq]
    exact hknows
  · rw [hsame u hut]
    exact hstable u hut _ (h.knows u)
  · subst hut
    rw [hq]
    exact hheld hu
  · rw [hsame u hut]
    exact hothers u hut ((howner u hut).mp hu)

/-! ## 3. Every run -/

theorem Holds.resume (h : o.Holds s) (hwaiting : t ∉ s.waiting) (hwoken : t ∈ s.woken)
    (hnone : s.owner = none) :
    o.Holds { s with owner := some t, woken := s.woken.erase t } := by
  obtain ⟨-, hpoint, hresume⟩ := h.blocked t fun hrun ↦ hrun.2 hwoken
  have hrun : State.Running { s with owner := some t, woken := s.woken.erase t } t :=
    ⟨hwaiting, Finset.notMem_erase t s.woken⟩
  refine h.goes (t := t) (Function.update_eq_self t s.point).symm ?_ ?_ ?_ ?_ (h.knows t) ?_ ?_
    ?_ ?_
  · intro u hu
    simp [Running, hu]
  · intro u hu
    simp [hnone, Ne.symm hu]
  · exact fun _ ↦ ⟨fun _ ↦ hpoint, fun _ ↦ rfl⟩
  · exact fun hnot ↦ (hnot hrun).elim
  · exact fun u _ p hu ↦ hu
  · intro hsome
    cases hsome
  · exact fun _ ↦ hresume _ _ (h.knows t) (h.free hnone)
  · intro u _ hsome
    rw [hnone] at hsome
    cases hsome

theorem Holds.lock (h : o.Holds s) (hrun : s.Running t) (hfits : o.Fits t (s.point t) (.lock q))
    (hnone : s.owner = none) : o.Holds { s.goto t q with owner := some t } := by
  obtain ⟨-, hq, hgo⟩ := hfits
  obtain ⟨hknows, hheld⟩ := hgo _ (h.knows t)
  refine h.goes (t := t) rfl (fun u _ ↦ Iff.rfl) ?_ ?_ ?_ hknows ?_ ?_ ?_ ?_
  · intro u hu
    simp [hnone, Ne.symm hu]
  · exact fun _ ↦ ⟨fun _ ↦ hq, fun _ ↦ rfl⟩
  · exact fun hnot ↦ (hnot hrun).elim
  · exact fun u _ p hu ↦ hu
  · intro hsome
    cases hsome
  · exact fun _ ↦ hheld _ (h.free hnone)
  · intro u _ hsome
    rw [hnone] at hsome
    cases hsome

theorem Holds.unlock (h : o.Holds s) (hrun : s.Running t)
    (hfits : o.Fits t (s.point t) (.unlock q)) (howner : s.owner = some t) :
    o.Holds { s.goto t q with owner := none } := by
  obtain ⟨-, hq, hgo⟩ := hfits
  obtain ⟨hknows, hfree⟩ := hgo _ _ (h.knows t) (h.held t howner)
  refine h.goes (t := t) rfl (fun u _ ↦ Iff.rfl) ?_ ?_ ?_ hknows ?_ (fun _ ↦ hfree) ?_ ?_
  · intro u hu
    simp [howner, Ne.symm hu]
  · intro _
    constructor
    · intro hsome
      cases hsome
    · exact fun hp ↦ (hq hp).elim
  · exact fun hnot ↦ (hnot hrun).elim
  · exact fun u _ p hu ↦ hu
  · intro hsome
    cases hsome
  · intro u hu hsome
    exact (hu (Option.some.inj (hsome.symm.trans howner))).elim

theorem Holds.wait (h : o.Holds s) (hfits : o.Fits t (s.point t) (.wait q))
    (howner : s.owner = some t) :
    o.Holds { s.goto t q with owner := none, waiting := insert t s.waiting } := by
  obtain ⟨-, hq, hgo, hresume⟩ := hfits
  obtain ⟨hknows, hfree⟩ := hgo _ _ (h.knows t) (h.held t howner)
  refine h.goes (t := t) rfl ?_ ?_ ?_ ?_ hknows ?_ (fun _ ↦ hfree) ?_ ?_
  · intro u hu
    simp [Running, State.goto, hu]
  · intro u hu
    simp [howner, Ne.symm hu]
  · intro hrun
    exact (hrun.1 (Finset.mem_insert_self t s.waiting)).elim
  · intro _
    refine ⟨?_, hq, hresume⟩
    intro hsome
    cases hsome
  · exact fun u _ p hu ↦ hu
  · intro hsome
    cases hsome
  · intro u hu hsome
    exact (hu (Option.some.inj (hsome.symm.trans howner))).elim

/-- A signal or a broadcast leaves `waiting` threads blocked. -/
theorem Holds.notify (h : o.Holds s) (hv : o.Valid code) (hrun : s.Running t)
    (hpoint : o.holds t (s.point t) ↔ o.holds t q) (hknows : o.knows t q s.data)
    {waiting woken : Finset T} (hsub : waiting ⊆ s.waiting)
    (hblocked : ∀ u, (u ∉ waiting ∧ u ∉ woken) ↔ s.Running u)
    (hheld : s.owner = some t → o.held t q s.data waiting) :
    o.Holds { s.goto t q with waiting := waiting, woken := woken } := by
  refine h.goes (t := t) rfl (fun u _ ↦ hblocked u) (fun u _ ↦ Iff.rfl) ?_ ?_ hknows ?_ ?_ hheld ?_
  · exact fun _ ↦ (h.running t hrun).trans hpoint
  · exact fun hnot ↦ (hnot ((hblocked t).mpr hrun)).elim
  · exact fun u _ p hu ↦ hu
  · exact fun hnone ↦ hv.free_mono hsub (h.free hnone)
  · exact fun u _ hsome ↦ hv.held_mono hsub (h.held u hsome)

theorem Holds.act (h : o.Holds s) (hv : o.Valid code) (hrun : s.Running t) {f : σ → σ}
    {next : σ → P} (hfits : o.Fits t (s.point t) (.act f next)) :
    o.Holds { s.goto t (next s.data) with data := f s.data } := by
  obtain ⟨hwith, hwithout⟩ := hfits _ (h.knows t)
  by_cases hp : o.holds t (s.point t)
  · have howner := (h.running t hrun).mpr hp
    obtain ⟨hq, hchanges, hknows, hheld⟩ := hwith hp _ (h.held t howner)
    refine h.goes (t := t) rfl (fun u _ ↦ Iff.rfl) (fun u _ ↦ Iff.rfl) ?_ ?_ hknows ?_ ?_
      (fun _ ↦ hheld) ?_
    · exact fun _ ↦ ⟨fun _ ↦ hq, fun _ ↦ howner⟩
    · exact fun hnot ↦ (hnot hrun).elim
    · exact fun u hu p hup ↦ hv.stable hu hup hchanges
    · intro hnone
      have hboth : some t = none := howner.symm.trans hnone
      cases hboth
    · intro u hu hsome
      exact (hu (Option.some.inj (hsome.symm.trans howner))).elim
  · have howner : s.owner ≠ some t := fun hsome ↦ hp ((h.running t hrun).mp hsome)
    obtain ⟨hq, hchanges, hknows, hfree, hothers⟩ := hwithout hp
    refine h.goes (t := t) rfl (fun u _ ↦ Iff.rfl) (fun u _ ↦ Iff.rfl) ?_ ?_ hknows ?_ ?_ ?_ ?_
    · exact fun _ ↦ ⟨fun hsome ↦ (howner hsome).elim, fun hnext ↦ (hq hnext).elim⟩
    · exact fun hnot ↦ (hnot hrun).elim
    · exact fun u hu p hup ↦ hv.stable hu hup hchanges
    · exact fun hnone ↦ hfree _ (h.free hnone)
    · exact fun hsome ↦ (howner hsome).elim
    · exact fun u hu hsome ↦ hothers u _ _ hu (h.knows u) (h.held u hsome)

/-- Each step of the program keeps the outline. -/
theorem Valid.step (hv : o.Valid code) (h : o.Holds s) (hstep : step code s l = some s') :
    o.Holds s' := by
  have hfits (t : T) : o.Fits t (s.point t) (code t (s.point t)) := hv.fits t (s.point t)
  cases step_cases hstep with
  | resume hwaiting hwoken hnone => exact h.resume hwaiting hwoken hnone
  | @lock t q hrun hcode hnone => exact h.lock hrun (hcode ▸ hfits t) hnone
  | @unlock t q hrun hcode howner => exact h.unlock hrun (hcode ▸ hfits t) howner
  | @wait t q hrun hcode howner => exact h.wait (hcode ▸ hfits t) howner
  | @signalNone t q hrun hcode hempty =>
    have hgo : o.Fits t (s.point t) (.signal q) := hcode ▸ hfits t
    obtain ⟨hknows, hheld⟩ := hgo.2 _ (h.knows t)
    refine h.notify hv hrun hgo.1 hknows (Finset.Subset.refl _) (fun u ↦ Iff.rfl) ?_
    exact fun howner ↦ (hheld ((h.running t hrun).mp howner) _ (h.held t howner)).1 hempty
  | @signal t u q hrun hcode hmem =>
    have hgo : o.Fits t (s.point t) (.signal q) := hcode ▸ hfits t
    obtain ⟨hknows, hheld⟩ := hgo.2 _ (h.knows t)
    refine h.notify hv hrun hgo.1 hknows (Finset.erase_subset u _) (fun v ↦ running_wake hmem) ?_
    exact fun howner ↦ (hheld ((h.running t hrun).mp howner) _ (h.held t howner)).2 u hmem
  | @broadcast t q hrun hcode =>
    have hgo : o.Fits t (s.point t) (.broadcast q) := hcode ▸ hfits t
    obtain ⟨hknows, hheld⟩ := hgo.2 _ (h.knows t)
    refine h.notify hv hrun hgo.1 hknows (Finset.empty_subset _) (fun u ↦ ?_) ?_
    · simp [Running, and_comm]
    · exact fun howner ↦ hheld ((h.running t hrun).mp howner) _ (h.held t howner)
  | @act t f next hrun hcode => exact h.act hv hrun (hcode ▸ hfits t)
  | wake hmem => exact h.wake hv hmem

/-- **Soundness.**  A valid outline holds in every state of every run. -/
theorem Valid.run (hv : o.Valid code) (h : o.Holds s) {ls : List (Label T)}
    (hrun : Trace.run (Monitor.step code) s ls = some s') : o.Holds s' :=
  Trace.run_inv (fun _ _ _ hs hstep ↦ hv.step hs hstep) h hrun

/-! ## 4. Where nothing goes on -/

/-- Nothing goes on, unless a wait ends for no reason. -/
def Idle (code : T → P → Instr σ P) (s : State T σ P) : Prop :=
  (∀ t, step code s (.run t) = none) ∧ ∀ t u, step code s (.signal t u) = none

theorem step_run (hrun : s.Running t) :
    Monitor.step code s (.run t) = execute s t (code t (s.point t)) := by
  simp only [Monitor.step, if_neg hrun.1, if_neg hrun.2]

/-- A thread that neither ends nor asks for the mutex goes on, if it has the mutex where it needs
it. -/
theorem Idle.lock_or_stop (hidle : Idle code s) (hrun : s.Running t)
    (hfits : o.Fits t (s.point t) (code t (s.point t)))
    (howner : o.holds t (s.point t) → s.owner = some t) :
    (∃ q, code t (s.point t) = .lock q ∧ s.owner ≠ none) ∨ code t (s.point t) = .stop := by
  have hnone := hidle.1 t
  rw [step_run hrun] at hnone
  cases hcode : code t (s.point t) with
  | lock q =>
    refine .inl ⟨q, rfl, fun hfree ↦ ?_⟩
    simp [hcode, execute, hfree] at hnone
  | unlock q =>
    rw [hcode] at hfits
    simp [hcode, execute, howner hfits.1] at hnone
  | wait q =>
    rw [hcode] at hfits
    simp [hcode, execute, howner hfits.1] at hnone
  | signal q =>
    rcases s.waiting.eq_empty_or_nonempty with hempty | ⟨u, hu⟩
    · simp [hcode, execute, hempty] at hnone
    · have hsignal := hidle.2 t u
      simp [Monitor.step, hcode, hrun, hu] at hsignal
  | broadcast q => simp [hcode, execute] at hnone
  | act f next => simp [hcode, execute] at hnone
  | stop => exact .inr rfl

/-- Where nothing goes on, every thread waits or has come to its end. -/
theorem Valid.idle (hv : o.Valid code) (h : o.Holds s) (hidle : Idle code s) :
    s.owner = none ∧
      ∀ t, t ∈ s.waiting ∨ s.Running t ∧ code t (s.point t) = .stop := by
  have hfree : s.owner = none := by
    by_contra hsome
    obtain ⟨t, howner⟩ := Option.ne_none_iff_exists'.mp hsome
    have hrun : s.Running t := by
      by_contra hblocked
      exact (h.blocked t hblocked).1 howner
    have hholds := (h.running t hrun).mp howner
    have hfits := hv.fits t (s.point t)
    rcases hidle.lock_or_stop hrun hfits fun _ ↦ howner with ⟨q, hcode, -⟩ | hcode
    · rw [hcode] at hfits
      exact hfits.1 hholds
    · rw [hcode] at hfits
      exact hfits hholds
  refine ⟨hfree, fun t ↦ ?_⟩
  by_cases hwaiting : t ∈ s.waiting
  · exact .inl hwaiting
  · have hrun : s.Running t := by
      refine ⟨hwaiting, fun hwoken ↦ ?_⟩
      have hnone := hidle.1 t
      simp [Monitor.step, hwaiting, hwoken, hfree] at hnone
    refine .inr ⟨hrun, ?_⟩
    rcases hidle.lock_or_stop hrun (hv.fits t _) (h.running t hrun).mpr with ⟨q, -, hsome⟩ | hstop
    · exact (hsome hfree).elim
    · exact hstop

end

end Outline

end Monitor
