import Mathlib

/-!
# Runs of a machine with labelled steps

A machine is a partial step function `step : σ → ι → Option σ`: the label carries every choice the
environment makes (which thread moves, what a system call returns), so a run is the fold of `step`
over a list of labels, and a label that is not enabled gives `none`.  `Along` says what every step
of a run meets before it is taken, `Always` what every state of a run meets.
-/

namespace Trace

universe u v

variable {σ : Type u} {ι : Type v}

/-- The state after a list of labels, or `none` when one of them is not enabled. -/
def run (step : σ → ι → Option σ) : σ → List ι → Option σ
  | s, [] => some s
  | s, l :: ls => (step s l).bind fun t ↦ run step t ls

/-- Every step of the run from `s` along the labels meets `P` in the state it is taken in. -/
def Along (step : σ → ι → Option σ) (P : σ → ι → Prop) : σ → List ι → Prop
  | _, [] => True
  | s, l :: ls => P s l ∧ ∀ t, step s l = some t → Along step P t ls

/-- Every state of the run from `s` along the labels, the first and the last included, meets `Q`. -/
def Always (step : σ → ι → Option σ) (Q : σ → Prop) : σ → List ι → Prop
  | s, [] => Q s
  | s, l :: ls => Q s ∧ ∀ t, step s l = some t → Always step Q t ls

/-- What `f` reads off the steps of the run from `s` along the labels, in order. -/
def collect {α : Type*} (step : σ → ι → Option σ) (f : σ → ι → Option α) : σ → List ι → List α
  | _, [] => []
  | s, l :: ls => (f s l).toList ++ (step s l).elim [] fun t ↦ collect step f t ls

variable {step : σ → ι → Option σ} {P : σ → ι → Prop} {Q I : σ → Prop} {s t : σ}

instance decidableAlong [∀ s l, Decidable (P s l)] :
    (s : σ) → (ls : List ι) → Decidable (Along step P s ls)
  | _, [] => .isTrue trivial
  | s, l :: ls =>
    match h : step s l with
    | none => decidable_of_iff (P s l) ⟨fun hp ↦ ⟨hp, by simp [h]⟩, And.left⟩
    | some t =>
      have : Decidable (Along step P t ls) := decidableAlong t ls
      decidable_of_iff (P s l ∧ Along step P t ls) (by simp [Along, h])

@[simp] theorem run_nil : run step s [] = some s := rfl

theorem run_cons (l : ι) (ls : List ι) :
    run step s (l :: ls) = (step s l).bind fun t ↦ run step t ls := rfl

/-! ## 1. Taking a run apart -/

theorem run_cons_eq_some {l : ι} {ls : List ι} :
    run step s (l :: ls) = some t ↔ ∃ m, step s l = some m ∧ run step m ls = some t := by
  rw [run_cons, Option.bind_eq_some_iff]

theorem run_append_eq_some {ls ls' : List ι} :
    run step s (ls ++ ls') = some t ↔ ∃ m, run step s ls = some m ∧ run step m ls' = some t := by
  induction ls generalizing s with
  | nil => simp
  | cons l ls ih =>
    simp only [List.cons_append, run_cons_eq_some, ih]
    constructor
    · rintro ⟨a, ha, m, hm, ht⟩
      exact ⟨m, ⟨a, ha, hm⟩, ht⟩
    · rintro ⟨m, ⟨a, ha, hm⟩, ht⟩
      exact ⟨a, ha, m, hm, ht⟩

theorem along_cons_of_step {l : ι} {ls : List ι} (h : step s l = some t) :
    Along step P s (l :: ls) ↔ P s l ∧ Along step P t ls := by
  simp [Along, h]

theorem along_append {ls ls' : List ι} :
    Along step P s (ls ++ ls') ↔
      Along step P s ls ∧ ∀ m, run step s ls = some m → Along step P m ls' := by
  induction ls generalizing s with
  | nil => simp [Along]
  | cons l ls ih =>
    simp only [List.cons_append, Along, ih, run_cons_eq_some]
    constructor
    · rintro ⟨hp, h⟩
      exact ⟨⟨hp, fun m hm ↦ (h m hm).1⟩, fun u ⟨m, hm, hu⟩ ↦ (h m hm).2 u hu⟩
    · rintro ⟨⟨hp, h⟩, h'⟩
      exact ⟨hp, fun m hm ↦ ⟨h m hm, fun u hu ↦ h' u ⟨m, hm, hu⟩⟩⟩

theorem Along.initial {ls ls' : List ι} (h : Along step P s ls') (hpre : ls <+: ls') :
    Along step P s ls := by
  obtain ⟨after, rfl⟩ := hpre
  exact (along_append.mp h).1

theorem along_of_forall_mem {ls : List ι} (h : ∀ l ∈ ls, ∀ s, P s l) : Along step P s ls := by
  induction ls generalizing s with
  | nil => trivial
  | cons l ls ih =>
    exact ⟨h l List.mem_cons_self s, fun m _ ↦ ih fun l' hl' ↦ h l' (List.mem_cons_of_mem l hl')⟩

/-- A run meets `P` along its labels when each of its steps does, behind the labels before it. -/
theorem along_iff_split {ls : List ι} : Along step P s ls ↔
    ∀ before l after m, before ++ l :: after = ls → run step s before = some m → P m l := by
  constructor
  · rintro h before l after m rfl hm
    exact ((along_append.mp h).2 m hm).1
  · intro h
    induction ls generalizing s with
    | nil => trivial
    | cons l ls ih =>
      refine ⟨h [] l ls s rfl rfl, fun t ht ↦ ih fun before l' after m hsplit hm ↦ ?_⟩
      exact h (l :: before) l' after m (by rw [List.cons_append, hsplit])
        (run_cons_eq_some.mpr ⟨t, ht, hm⟩)

theorem Along.and {P' : σ → ι → Prop} {ls : List ι} (h : Along step P s ls)
    (h' : Along step P' s ls) : Along step (fun s l ↦ P s l ∧ P' s l) s ls := by
  induction ls generalizing s with
  | nil => trivial
  | cons l ls ih => exact ⟨⟨h.1, h'.1⟩, fun m hm ↦ ih (h.2 m hm) (h'.2 m hm)⟩

/-! ## 2. Invariants -/

/-- A property that every step meeting `P` keeps holds at the end of every run along `P`. -/
theorem run_inv_along (hstep : ∀ s l t, I s → P s l → step s l = some t → I t)
    {ls : List ι} (h0 : I s) (hp : Along step P s ls) (h : run step s ls = some t) : I t := by
  induction ls generalizing s with
  | nil => cases h; exact h0
  | cons l ls ih =>
    obtain ⟨m, hm, hr⟩ := run_cons_eq_some.mp h
    exact ih (hstep s l m h0 hp.1 hm) (hp.2 m hm) hr

/-- A property that every step keeps holds at the end of every run. -/
theorem run_inv (hstep : ∀ s l t, I s → step s l = some t → I t)
    {ls : List ι} (h0 : I s) (h : run step s ls = some t) : I t :=
  run_inv_along (P := fun _ _ ↦ True) (fun s l t hs _ ↦ hstep s l t hs) h0
    (along_of_forall_mem fun _ _ _ ↦ trivial) h

/-- A record that every step extends by what `f` reads off it holds what `f` reads off the run. -/
theorem run_collect {α : Type*} {f : σ → ι → Option α} {g : σ → List α}
    (hinv : ∀ s l t, I s → P s l → step s l = some t → I t)
    (hrecord : ∀ s l t, I s → P s l → step s l = some t → g t = g s ++ (f s l).toList)
    {ls : List ι} (h0 : I s) (hp : Along step P s ls) (h : run step s ls = some t) :
    g t = g s ++ collect step f s ls := by
  induction ls generalizing s with
  | nil =>
    cases h
    exact (List.append_nil _).symm
  | cons l ls ih =>
    obtain ⟨m, hm, hr⟩ := run_cons_eq_some.mp h
    rw [ih (hinv s l m h0 hp.1 hm) (hp.2 m hm) hr, hrecord s l m h0 hp.1 hm, collect, hm]
    simp

/-- What is read off the steps of a run has every property that one step gives it. -/
theorem forall_mem_collect {α : Type*} {f : σ → ι → Option α} {A : α → Prop}
    (hinv : ∀ s l t, I s → P s l → step s l = some t → I t)
    (hf : ∀ s l a, I s → P s l → f s l = some a → A a)
    {ls : List ι} (h0 : I s) (hp : Along step P s ls) : ∀ a ∈ collect step f s ls, A a := by
  induction ls generalizing s with
  | nil => exact fun a ha ↦ absurd ha List.not_mem_nil
  | cons l ls ih =>
    intro a ha
    rw [collect, List.mem_append, Option.mem_toList] at ha
    rcases ha with hhead | htail
    · exact hf s l a h0 hp.1 hhead
    · cases hm : step s l with
      | none =>
        rw [hm] at htail
        exact absurd htail List.not_mem_nil
      | some m =>
        rw [hm] at htail
        exact ih (hinv s l m h0 hp.1 hm) (hp.2 m hm) a htail

/-- Where an entry is in a history that one more has been added to. -/
theorem eq_append_cons_of_concat {α : Type*} {x y : α} {h before after : List α}
    (h' : h ++ [x] = before ++ y :: after) :
    before = h ∧ x = y ∧ after = [] ∨
      ∃ after', after = after' ++ [x] ∧ h = before ++ y :: after' := by
  rcases List.eq_nil_or_concat after with rfl | ⟨after', z, rfl⟩
  · obtain ⟨rfl, hxy⟩ := List.append_inj' h' rfl
    exact Or.inl ⟨rfl, List.singleton_inj.mp hxy, rfl⟩
  · rw [List.concat_eq_append, ← List.cons_append, ← List.append_assoc] at h'
    obtain ⟨rfl, hxz⟩ := List.append_inj' h' rfl
    rw [List.singleton_inj.mp hxz, List.concat_eq_append]
    exact Or.inr ⟨after', rfl, rfl⟩

/-- **Invariants with a history.**  If every step keeps a property of the state and of what has been
read off the steps so far, it holds at the end of every run of all that is read off it. -/
theorem run_history {α : Type*} {f : σ → ι → Option α} {H : σ → List α → Prop}
    (hstep : ∀ s h l t, H s h → step s l = some t → H t (h ++ (f s l).toList))
    {ls : List ι} {h : List α} (h0 : H s h) (hrun : run step s ls = some t) :
    H t (h ++ collect step f s ls) := by
  induction ls generalizing s h with
  | nil =>
    cases hrun
    rwa [collect, List.append_nil]
  | cons l ls ih =>
    obtain ⟨m, hm, hr⟩ := run_cons_eq_some.mp hrun
    have hlast := ih (hstep s h l m h0 hm) hr
    rwa [List.append_assoc, show (f s l).toList ++ collect step f m ls =
      collect step f s (l :: ls) by rw [collect, hm]; rfl] at hlast

theorem Always.first {ls : List ι} (h : Always step Q s ls) : Q s := by
  cases ls with
  | nil => exact h
  | cons l ls => exact h.1

/-- A property that every step meeting `P` keeps holds in every state of a run along `P`. -/
theorem Along.always (hinv : ∀ s l t, I s → P s l → step s l = some t → I t) (hQ : ∀ s, I s → Q s)
    {ls : List ι} (h0 : I s) (hp : Along step P s ls) : Always step Q s ls := by
  induction ls generalizing s with
  | nil => exact hQ s h0
  | cons l ls ih =>
    exact ⟨hQ s h0, fun t ht ↦ ih (hinv s l t h0 hp.1 ht) (hp.2 t ht)⟩

/-- Of the runs along `C`: if the steps meeting `P` keep `I`, `I` gives `Q`, and a step that does
not meet `P` leads out of `Q`, then a run stays in `Q` exactly when all its steps meet `P`. -/
theorem always_iff_along_of {C : σ → ι → Prop}
    (hinv : ∀ s l t, I s → C s l → P s l → step s l = some t → I t) (hQ : ∀ s, I s → Q s)
    (hbad : ∀ s l t, I s → C s l → ¬ P s l → step s l = some t → ¬ Q t)
    {ls : List ι} (h0 : I s) (hc : Along step C s ls) (h : run step s ls = some t) :
    Always step Q s ls ↔ Along step P s ls := by
  constructor
  · intro ha
    -- on the labels; `I` holds as long as the steps so far have met `P`
    induction ls generalizing s with
    | nil => trivial
    | cons l ls ih =>
      obtain ⟨m, hm, hr⟩ := run_cons_eq_some.mp h
      -- a step that does not meet `P` would have left `Q` at once
      have hp : P s l := by
        by_contra hn
        exact hbad s l m h0 hc.1 hn hm (ha.2 m hm).first
      have hm' : I m := hinv s l m h0 hc.1 hp hm
      exact (along_cons_of_step hm).mpr ⟨hp, ih hm' (hc.2 m hm) hr (ha.2 m hm)⟩
  · intro hp
    exact (hc.and hp).always (fun s l t hs h ht ↦ hinv s l t hs h.1 h.2 ht) hQ h0

theorem always_iff_along (hinv : ∀ s l t, I s → P s l → step s l = some t → I t)
    (hQ : ∀ s, I s → Q s) (hbad : ∀ s l t, I s → ¬ P s l → step s l = some t → ¬ Q t)
    {ls : List ι} (h0 : I s) (h : run step s ls = some t) :
    Always step Q s ls ↔ Along step P s ls :=
  always_iff_along_of (C := fun _ _ ↦ True) (fun s l t hs _ ↦ hinv s l t hs) hQ
    (fun s l t hs _ ↦ hbad s l t hs) h0 (along_of_forall_mem fun _ _ _ ↦ trivial) h

/-- Two properties of steps that agree where an invariant holds are met along the same runs. -/
theorem along_congr {P' C : σ → ι → Prop}
    (hinv : ∀ s l t, I s → C s l → step s l = some t → I t)
    (hiff : ∀ s l, I s → C s l → (P s l ↔ P' s l)) {ls : List ι} (h0 : I s)
    (hc : Along step C s ls) : Along step P s ls ↔ Along step P' s ls := by
  induction ls generalizing s with
  | nil => exact Iff.rfl
  | cons l ls ih =>
    have hrest (t : σ) (ht : step s l = some t) : Along step P t ls ↔ Along step P' t ls :=
      ih (hinv s l t h0 hc.1 ht) (hc.2 t ht)
    exact and_congr (hiff s l h0 hc.1) (forall₂_congr hrest)

/-- Labels that are all enabled where an invariant holds make a run. -/
theorem Along.exists_run (hinv : ∀ s l t, I s → P s l → step s l = some t → I t)
    (hstep : ∀ s l, I s → P s l → ∃ t, step s l = some t) {ls : List ι} (h0 : I s)
    (hp : Along step P s ls) : ∃ t, run step s ls = some t := by
  induction ls generalizing s with
  | nil => exact ⟨s, rfl⟩
  | cons l ls ih =>
    obtain ⟨m, hm⟩ := hstep s l h0 hp.1
    obtain ⟨t, ht⟩ := ih (hinv s l m h0 hp.1 hm) (hp.2 m hm)
    exact ⟨t, run_cons_eq_some.mpr ⟨m, hm, ht⟩⟩

/-- Two states whose steps match lead to matching states along any labels, or to none. -/
theorem run_lockstep {R Q : σ → σ → Prop}
    (hstep : ∀ s t l, R s t → Option.Rel R (step s l) (step t l)) (hQ : ∀ s t, R s t → Q s t)
    {ls : List ι} (h : R s t) : Option.Rel Q (run step s ls) (run step t ls) := by
  induction ls generalizing s t with
  | nil => exact .some (hQ s t h)
  | cons l ls ih =>
    have hst := hstep s t l h
    rw [run_cons, run_cons]
    generalize step s l = a at hst
    generalize step t l = b at hst
    cases hst with
    | some hab => exact ih hab
    | none => exact .none

/-- **Refinement.**  If the steps that meet `P` match the steps of another machine, a run along `P`
matches the run of that machine. -/
theorem run_rel {τ : Type*} {step' : τ → ι → Option τ} {R : σ → τ → Prop}
    (hstep : ∀ s t l, R s t → P s l → Option.Rel R (step s l) (step' t l)) {s : σ} {t : τ}
    {ls : List ι} (h : R s t) (hp : Along step P s ls) :
    Option.Rel R (run step s ls) (run step' t ls) := by
  induction ls generalizing s t with
  | nil => exact .some h
  | cons l ls ih =>
    have hst := hstep s t l h hp.1
    rw [run_cons, run_cons]
    cases hs : step s l with
    | none =>
      rw [hs] at hst
      generalize step' t l = b at hst
      cases hst
      exact .none
    | some s' =>
      rw [hs] at hst
      generalize step' t l = b at hst
      cases hst with
      | some hab => exact ih hab (hp.2 s' hs)

/-- **Stuttering.**  If a step of the machine, seen through `f`, is a step of another machine or
none at all, a run seen through `f` is a run of the other machine. -/
theorem run_stutter {τ : Type*} {step' : τ → ι → Option τ} {f : σ → τ}
    (hinv : ∀ s l t, I s → step s l = some t → I t)
    (hstep : ∀ s l t, I s → step s l = some t → f t = f s ∨ step' (f s) l = some (f t))
    {ls : List ι} (h0 : I s) (h : run step s ls = some t) :
    ∃ ls', ls'.Sublist ls ∧ run step' (f s) ls' = some (f t) := by
  induction ls generalizing s with
  | nil =>
    cases h
    exact ⟨[], .refl [], rfl⟩
  | cons l ls ih =>
    obtain ⟨m, hm, hr⟩ := run_cons_eq_some.mp h
    obtain ⟨ls', hsub, hrun⟩ := ih (hinv s l m h0 hm) hr
    rcases hstep s l m h0 hm with hsame | hmatch
    · rw [hsame] at hrun
      exact ⟨ls', hsub.cons l, hrun⟩
    · exact ⟨l :: ls', hsub.cons_cons l, run_cons_eq_some.mpr ⟨f m, hmatch, hrun⟩⟩

/-! ## 3. Calls that may fault -/

theorem ok_bind {ε α β : Type} (a : α) (f : α → Except ε β) : (Except.ok a >>= f) = f a := rfl

end Trace
