import Netlib.Lib.Monitor

/-!
# `netlib::Mutex` and `netlib::Condition`

A `Mutex` records the thread that has it.  The record is made behind `pthread_mutex_lock`, taken
back before `pthread_mutex_unlock`, and both around `pthread_cond_wait` (`base/Mutex.h`,
`base/Condition.h`).  A client is a program in terms of the methods; `methods` puts what the methods
do in their place.
-/

namespace Netlib

open Monitor

/-- What a mutex protects, with `_holder`. -/
structure Locked (σ : Type) where
  holder : Int
  data : σ

namespace Mutex

variable {σ T P : Type}

def getHolder (tid : Int) (d : Locked σ) : Locked σ := { d with holder := tid }

def ungetHolder (d : Locked σ) : Locked σ := { d with holder := 0 }

def isLockedByThisThread (tid : Int) (d : Locked σ) : Bool := d.holder == tid

/-- A point of the client, or one inside a method. -/
inductive Point (P : Type) where
  | user (p : P)
  /-- Behind `pthread_mutex_lock` or `pthread_cond_wait`. -/
  | getHolder (q : P)
  /-- In `unlock`, called at `p`. -/
  | mutexUnlock (p q : P)
  /-- In `wait`, called at `p`. -/
  | condWait (p q : P)

/-- The program with the bodies of `lock`, `unlock`, `wait`, `waitForSeconds`, `notify` and
`notifyAll`; a wait for some seconds ends by a step that a wait may take at any time. -/
def methods (tid : T → Int) (client : T → P → Instr σ P) (t : T) :
    Point P → Instr (Locked σ) (Point P)
  | .user p =>
    match client t p with
    | .lock q => .lock (.getHolder q)
    | .unlock q => .act ungetHolder fun _ ↦ .mutexUnlock p q
    | .wait q => .act ungetHolder fun _ ↦ .condWait p q
    | .signal q => .signal (.user q)
    | .broadcast q => .broadcast (.user q)
    | .act f next => .act (fun d ↦ { d with data := f d.data }) fun d ↦ .user (next d.data)
    | .stop => .stop
  | .getHolder q => .act (getHolder (tid t)) fun _ ↦ .user q
  | .mutexUnlock _ q => .unlock (.user q)
  | .condWait _ q => .wait (.getHolder q)

def Point.client : Point P → P
  | user p => p
  | getHolder q => q
  | mutexUnlock p _ => p
  | condWait p _ => p

/-- The same state without the record. -/
def erase (s : State T (Locked σ) (Point P)) : State T σ P :=
  ⟨s.owner, s.waiting, s.woken, fun t ↦ (s.point t).client, s.data.data⟩

def init (point : T → P) (data : σ) : State T (Locked σ) (Point P) :=
  State.init (fun t ↦ .user (point t)) ⟨0, data⟩

/-! ## 1. What a step does -/

section

variable [DecidableEq T] {tid : T → Int} {client : T → P → Instr σ P}
  {s s' : State T (Locked σ) (Point P)} {l : Label T}

/-- The cases of a step of the program with the methods. -/
inductive Does (tid : T → Int) (client : T → P → Instr σ P) (s : State T (Locked σ) (Point P)) :
    Label T → State T (Locked σ) (Point P) → Prop where
  | resume {t : T} : t ∉ s.waiting → t ∈ s.woken → s.owner = none →
      Does tid client s (.run t) { s with owner := some t, woken := s.woken.erase t }
  | lock {t : T} {p q : P} : s.Running t → s.point t = .user p → client t p = .lock q →
      s.owner = none → Does tid client s (.run t) { s.goto t (.getHolder q) with owner := some t }
  | getHolder {t : T} {q : P} : s.Running t → s.point t = .getHolder q →
      Does tid client s (.run t) { s.goto t (.user q) with data := getHolder (tid t) s.data }
  | unlock {t : T} {p q : P} : s.Running t → s.point t = .user p → client t p = .unlock q →
      Does tid client s (.run t) { s.goto t (.mutexUnlock p q) with data := ungetHolder s.data }
  | mutexUnlock {t : T} {p q : P} : s.Running t → s.point t = .mutexUnlock p q →
      s.owner = some t → Does tid client s (.run t) { s.goto t (.user q) with owner := none }
  | wait {t : T} {p q : P} : s.Running t → s.point t = .user p → client t p = .wait q →
      Does tid client s (.run t) { s.goto t (.condWait p q) with data := ungetHolder s.data }
  | condWait {t : T} {p q : P} : s.Running t → s.point t = .condWait p q → s.owner = some t →
      Does tid client s (.run t)
        { s.goto t (.getHolder q) with owner := none, waiting := insert t s.waiting }
  | signalNone {t : T} {p q : P} : s.Running t → s.point t = .user p → client t p = .signal q →
      s.waiting = ∅ → Does tid client s (.run t) (s.goto t (.user q))
  | signal {t u : T} {p q : P} : s.Running t → s.point t = .user p → client t p = .signal q →
      u ∈ s.waiting → Does tid client s (.signal t u) ((s.goto t (.user q)).wake u)
  | broadcast {t : T} {p q : P} : s.Running t → s.point t = .user p →
      client t p = .broadcast q → Does tid client s (.run t)
        { s.goto t (.user q) with waiting := ∅, woken := s.woken ∪ s.waiting }
  | act {t : T} {p : P} {f : σ → σ} {next : σ → P} : s.Running t → s.point t = .user p →
      client t p = .act f next → Does tid client s (.run t)
        { s.goto t (.user (next s.data.data)) with data := { s.data with data := f s.data.data } }
  | wake {t : T} : t ∈ s.waiting → Does tid client s (.wake t) (s.wake t)

theorem does_of_execute {t : T} (hrun : s.Running t)
    (h : execute s t (methods tid client t (s.point t)) = some s') :
    Does tid client s (.run t) s' := by
  cases hx : s.point t with
  | user p =>
    rw [hx] at h
    cases hc : client t p <;> simp only [methods, hc, execute] at h
    case lock q =>
      split at h
      · cases h
        exact .lock hrun hx hc ‹_›
      · cases h
    case unlock q =>
      cases h
      exact .unlock hrun hx hc
    case wait q =>
      cases h
      exact .wait hrun hx hc
    case signal q =>
      split at h
      · cases h
        exact .signalNone hrun hx hc ‹_›
      · cases h
    case broadcast q =>
      cases h
      exact .broadcast hrun hx hc
    case act f next =>
      cases h
      exact .act hrun hx hc
    case stop => cases h
  | getHolder q =>
    simp only [hx, methods, execute] at h
    cases h
    exact .getHolder hrun hx
  | mutexUnlock p q =>
    simp only [hx, methods, execute] at h
    split at h
    · cases h
      exact .mutexUnlock hrun hx ‹_›
    · cases h
  | condWait p q =>
    simp only [hx, methods, execute] at h
    split at h
    · cases h
      exact .condWait hrun hx ‹_›
    · cases h

theorem does_of_step (h : step (methods tid client) s l = some s') : Does tid client s l s' := by
  cases l with
  | run t =>
    simp only [step] at h
    split at h
    · cases h
    · rename_i hwaiting
      split at h
      · split at h
        · cases h
          exact .resume hwaiting ‹_› ‹_›
        · cases h
      · exact does_of_execute ⟨hwaiting, ‹_›⟩ h
  | signal t u =>
    cases hx : s.point t with
    | user p =>
      simp only [step, hx, methods] at h
      cases hc : client t p <;> simp only [hc] at h
      case signal q =>
        split at h
        · rename_i hcan
          cases h
          exact .signal hcan.1 hx hc hcan.2
        · cases h
      all_goals cases h
    | _ => simp [step, hx, methods] at h
  | wake t =>
    simp only [step] at h
    split at h
    · cases h
      exact .wake ‹_›
    · cases h

end

/-! ## 2. Without the record -/

section

variable [DecidableEq T] {tid : T → Int} {client : T → P → Instr σ P}
  {s s' : State T (Locked σ) (Point P)} {l : Label T} {o : Outline T σ P}

/-- A point inside a method is behind a call of it. -/
def Placed (o : Outline T σ P) (client : T → P → Instr σ P) (t : T) : Point P → Prop
  | .user _ => True
  | .getHolder q => o.holds t q
  | .mutexUnlock p q => client t p = .unlock q
  | .condWait p q => client t p = .wait q

theorem erase_update (point : T → Point P) (owner : Option T) (waiting woken : Finset T)
    (t : T) (x : Point P) (d : Locked σ) :
    erase ⟨owner, waiting, woken, Function.update point t x, d⟩ =
      ⟨owner, waiting, woken, Function.update (fun u ↦ (point u).client) t x.client, d.data⟩ := by
  unfold erase
  congr 1
  exact Function.comp_update Point.client point t x

/-- Inside a method the client stands where it stood. -/
theorem erase_update_self {t : T} {x : Point P} {d : Locked σ}
    (hx : x.client = (s.point t).client) (hd : d.data = s.data.data) :
    erase { s.goto t x with data := d } = erase s := by
  unfold State.goto
  rw [erase_update, hx, hd]
  exact congrArg (fun point ↦ (⟨s.owner, s.waiting, s.woken, point, s.data.data⟩ : State T σ P))
    (Function.update_eq_self t fun u ↦ (s.point u).client)

/-- A step of the program with the methods is a step of the client, or none. -/
theorem step_erase (hplaced : ∀ t, Placed o client t (s.point t))
    (h : step (methods tid client) s l = some s') :
    erase s' = erase s ∨ step client (erase s) l = some (erase s') := by
  -- what the client does at the point of the thread
  have hstep {t : T} (hrun : s.Running t) : step client (erase s) (.run t) =
      execute (erase s) t (client t (s.point t).client) := Outline.step_run hrun
  cases does_of_step h with
  | resume hwaiting hwoken hnone =>
    right
    simp [step, erase, hwaiting, hwoken, hnone]
  | @lock t p q hrun hx hc hnone =>
    right
    have hfree : (erase s).owner = none := hnone
    rw [hstep hrun, hx, Point.client, hc]
    simp only [execute, if_pos hfree, State.goto, erase_update]
    rfl
  | getHolder hrun hx =>
    left
    exact erase_update_self (by rw [hx]; rfl) rfl
  | unlock hrun hx hc =>
    left
    exact erase_update_self (by rw [hx]; rfl) rfl
  | @mutexUnlock t p q hrun hx howner =>
    right
    have hc : client t p = .unlock q := by
      have hplace := hplaced t
      rwa [hx] at hplace
    have hown : (erase s).owner = some t := howner
    rw [hstep hrun, hx, Point.client, hc]
    simp only [execute, if_pos hown, State.goto, erase_update]
    rfl
  | wait hrun hx hc =>
    left
    exact erase_update_self (by rw [hx]; rfl) rfl
  | @condWait t p q hrun hx howner =>
    right
    have hc : client t p = .wait q := by
      have hplace := hplaced t
      rwa [hx] at hplace
    have hown : (erase s).owner = some t := howner
    rw [hstep hrun, hx, Point.client, hc]
    simp only [execute, if_pos hown, State.goto, erase_update]
    rfl
  | @signalNone t p q hrun hx hc hempty =>
    right
    have hnobody : (erase s).waiting = ∅ := hempty
    rw [hstep hrun, hx, Point.client, hc]
    simp only [execute, if_pos hnobody, State.goto, erase_update]
    rfl
  | @signal t u p q hrun hx hc hmem =>
    right
    have hpoint : (erase s).point t = p := congrArg Point.client hx
    have hcan : (erase s).Running t ∧ u ∈ (erase s).waiting := ⟨hrun, hmem⟩
    simp only [step, hpoint, hc, if_pos hcan, State.goto, State.wake, erase_update]
    rfl
  | @broadcast t p q hrun hx hc =>
    right
    rw [hstep hrun, hx, Point.client, hc]
    simp only [execute, State.goto, erase_update]
    rfl
  | @act t p f next hrun hx hc =>
    right
    rw [hstep hrun, hx, Point.client, hc]
    simp only [execute, State.goto, erase_update]
    rfl
  | @wake t hmem =>
    right
    have hmem' : t ∈ (erase s).waiting := hmem
    simp only [step, if_pos hmem']
    rfl

end

/-! ## 3. The record -/

/-- What `_holder` is to be. -/
def recorded (tid : T → Int) (owner : Option T) (point : T → Point P) : Int :=
  match owner with
  | none => 0
  | some t =>
    match point t with
    | .user _ => tid t
    | _ => 0

structure Recorded (o : Outline T σ P) (tid : T → Int) (client : T → P → Instr σ P)
    (s : State T (Locked σ) (Point P)) : Prop where
  outline : o.Holds (erase s)
  placed : ∀ t, Placed o client t (s.point t)
  blocked : ∀ t, ¬ s.Running t → ∃ q, s.point t = .getHolder q
  holder : s.data.holder = recorded tid s.owner s.point

section

variable {tid : T → Int} {client : T → P → Instr σ P} {s s' : State T (Locked σ) (Point P)}
  {l : Label T} {o : Outline T σ P} {t : T}

theorem init_recorded {point : T → P} {d : σ} (h : o.Holds (State.init point d)) :
    Recorded o tid client (init point d) :=
  ⟨h, fun _ ↦ trivial,
    fun t hnot ↦ (hnot ⟨Finset.notMem_empty t, Finset.notMem_empty t⟩).elim, rfl⟩

theorem Recorded.owner_of_holds (h : Recorded o tid client s) (hrun : s.Running t)
    (hholds : o.holds t (s.point t).client) : s.owner = some t :=
  (h.outline.running t hrun).mpr hholds

variable [DecidableEq T]

theorem recorded_of_ne {owner : Option T} {point : T → Point P} {x : Point P}
    (h : owner ≠ some t) : recorded tid owner (Function.update point t x) =
      recorded tid owner point := by
  cases owner with
  | none => rfl
  | some u =>
    have hu : u ≠ t := fun heq ↦ h (congrArg some heq)
    simp only [recorded, Function.update_of_ne hu]

theorem recorded_user {owner : Option T} {point : T → Point P} {p q : P}
    (h : point t = .user p) : recorded tid owner (Function.update point t (.user q)) =
      recorded tid owner point := by
  by_cases howner : owner = some t
  · subst howner
    simp [recorded, h]
  · exact recorded_of_ne howner

theorem placed_goto (h : ∀ u, Placed o client u (s.point u)) {x : Point P}
    (hx : Placed o client t x) (u : T) : Placed o client u ((s.goto t x).point u) := by
  by_cases hu : u = t
  · rw [hu, goto_self]
    exact hx
  · rw [goto_of_ne hu]
    exact h u

theorem Recorded.blocked_goto (h : Recorded o tid client s) (hrun : s.Running t) {x : Point P}
    (u : T) (hu : ¬ s.Running u) : ∃ q, (s.goto t x).point u = .getHolder q := by
  have hne : u ≠ t := fun heq ↦ hu (heq ▸ hrun)
  rw [goto_of_ne hne]
  exact h.blocked u hu

/-- A running thread goes on; the record is to be made for it. -/
theorem Recorded.goes (h : Recorded o tid client s) (hrun : s.Running t) {x : Point P}
    (houtline : o.Holds (erase s')) (hpoint : s'.point = (s.goto t x).point)
    (hrunning : ∀ u, s.Running u → s'.Running u) (hx : Placed o client t x)
    (hholder : s'.data.holder = recorded tid s'.owner (Function.update s.point t x)) :
    Recorded o tid client s' where
  outline := houtline
  placed := by
    rw [hpoint]
    exact placed_goto h.placed hx
  blocked := by
    intro u hu
    rw [hpoint]
    exact h.blocked_goto hrun u fun hbefore ↦ hu (hrunning u hbefore)
  holder := by
    rw [hpoint]
    exact hholder

theorem step_recorded (hv : o.Valid client) (h : Recorded o tid client s)
    (hstep : step (methods tid client) s l = some s') : Recorded o tid client s' := by
  have houtline : o.Holds (erase s') := by
    rcases step_erase h.placed hstep with hsame | hgo
    · rw [hsame]
      exact h.outline
    · exact hv.step h.outline hgo
  have hholder := h.holder
  cases does_of_step hstep with
  | @resume t hwaiting hwoken hnone =>
    have hpoint := h.blocked t fun hrun ↦ hrun.2 hwoken
    obtain ⟨q, hq⟩ := hpoint
    refine ⟨houtline, h.placed, fun u hu ↦ ?_, ?_⟩
    · by_cases hut : u = t
      · exact ⟨q, by rw [hut]; exact hq⟩
      · refine h.blocked u fun hrun ↦ hu ⟨hrun.1, fun hmem ↦ ?_⟩
        exact hrun.2 (Finset.mem_of_mem_erase hmem)
    · rw [hnone] at hholder
      simp only [recorded, hq]
      exact hholder
  | @lock t p q hrun hx hc hnone =>
    have hfits := hv.fits t p
    rw [hc] at hfits
    refine h.goes hrun houtline rfl (fun u hu ↦ hu) hfits.2.1 ?_
    rw [hnone] at hholder
    simp only [recorded, Function.update_self]
    exact hholder
  | @getHolder t q hrun hx =>
    have hholds : o.holds t (s.point t).client := by
      have hplace := h.placed t
      rw [hx] at hplace ⊢
      exact hplace
    refine h.goes hrun houtline rfl (fun u hu ↦ hu) trivial ?_
    show tid t = recorded tid s.owner _
    simp only [h.owner_of_holds hrun hholds, recorded, Function.update_self]
  | @unlock t p q hrun hx hc =>
    have hfits := hv.fits t p
    rw [hc] at hfits
    have hholds : o.holds t (s.point t).client := by
      rw [hx]
      exact hfits.1
    refine h.goes hrun houtline rfl (fun u hu ↦ hu) hc ?_
    show 0 = recorded tid s.owner _
    simp only [h.owner_of_holds hrun hholds, recorded, Function.update_self]
  | @mutexUnlock t p q hrun hx howner =>
    refine h.goes hrun houtline rfl (fun u hu ↦ hu) trivial ?_
    simp only [howner, recorded, hx] at hholder
    exact hholder
  | @wait t p q hrun hx hc =>
    have hfits := hv.fits t p
    rw [hc] at hfits
    have hholds : o.holds t (s.point t).client := by
      rw [hx]
      exact hfits.1
    refine h.goes hrun houtline rfl (fun u hu ↦ hu) hc ?_
    show 0 = recorded tid s.owner _
    simp only [h.owner_of_holds hrun hholds, recorded, Function.update_self]
  | @condWait t p q hrun hx howner =>
    have hc : client t p = .wait q := by
      have hplace := h.placed t
      rwa [hx] at hplace
    have hfits := hv.fits t p
    rw [hc] at hfits
    have hx' : Placed o client t (.getHolder q) := hfits.2.1
    refine ⟨houtline, fun u ↦ placed_goto h.placed hx' u, fun u hu ↦ ?_, ?_⟩
    · by_cases hut : u = t
      · refine ⟨q, ?_⟩
        rw [hut]
        exact goto_self
      · refine h.blocked_goto hrun u fun hbefore ↦ hu ⟨fun hmem ↦ ?_, hbefore.2⟩
        exact (Finset.mem_insert.mp hmem).elim hut hbefore.1
    · simp only [howner, recorded, hx] at hholder
      exact hholder
  | @signalNone t p q hrun hx hc hempty =>
    refine h.goes hrun houtline rfl (fun u hu ↦ hu) trivial ?_
    rw [recorded_user hx]
    exact hholder
  | @signal t u p q hrun hx hc hmem =>
    refine h.goes hrun houtline rfl (fun v hv ↦ (Outline.running_wake hmem).mpr hv) trivial ?_
    show s.data.holder = recorded tid s.owner _
    rw [recorded_user hx]
    exact hholder
  | @broadcast t p q hrun hx hc =>
    refine h.goes hrun houtline rfl (fun u hu ↦ ?_) trivial ?_
    · simp [State.Running, hu.1, hu.2]
    · show s.data.holder = recorded tid s.owner _
      rw [recorded_user hx]
      exact hholder
  | @act t p f next hrun hx hc =>
    refine h.goes hrun houtline rfl (fun u hu ↦ hu) trivial ?_
    show s.data.holder = recorded tid s.owner _
    rw [recorded_user hx]
    exact hholder
  | @wake t hmem =>
    refine ⟨houtline, h.placed, fun u hu ↦ ?_, hholder⟩
    exact h.blocked u fun hrun ↦ hu ((Outline.running_wake hmem).mpr hrun)

/-- Where a call of a method does not go on, the client does not. -/
theorem execute_erase {p : P} (h : execute s t (methods tid client t (.user p)) = none) :
    execute (erase s) t (client t p) = none := by
  cases hc : client t p with
  | lock q =>
    by_cases hfree : s.owner = none
    · simp [methods, hc, execute, hfree] at h
    · exact if_neg hfree
  | signal q =>
    by_cases hempty : s.waiting = ∅
    · simp [methods, hc, execute, hempty] at h
    · exact if_neg hempty
  | unlock q => simp [methods, hc, execute] at h
  | wait q => simp [methods, hc, execute] at h
  | broadcast q => simp [methods, hc, execute] at h
  | act f next => simp [methods, hc, execute] at h
  | stop => rfl

/-- Where nothing goes on with the methods, nothing goes on in the client. -/
theorem Recorded.idle (h : Recorded o tid client s) (hidle : Outline.Idle (methods tid client) s) :
    Outline.Idle client (erase s) := by
  refine ⟨fun t ↦ ?_, fun t u ↦ ?_⟩
  · have hnone := hidle.1 t
    by_cases hrun : s.Running t
    · have hgo : step client (erase s) (.run t) =
          execute (erase s) t (client t (s.point t).client) := Outline.step_run hrun
      have hplace := h.placed t
      rw [Outline.step_run hrun] at hnone
      rw [hgo]
      cases hx : s.point t with
      | user p =>
        rw [hx] at hnone
        exact execute_erase hnone
      | getHolder q => simp [hx, methods, execute] at hnone
      | mutexUnlock p q =>
        rw [hx] at hplace hnone
        have hc : client t p = .unlock q := hplace
        rw [Point.client, hc]
        refine if_neg fun howner ↦ ?_
        simp [methods, execute, show s.owner = some t from howner] at hnone
      | condWait p q =>
        rw [hx] at hplace hnone
        have hc : client t p = .wait q := hplace
        rw [Point.client, hc]
        refine if_neg fun howner ↦ ?_
        simp [methods, execute, show s.owner = some t from howner] at hnone
    · by_cases hwaiting : t ∈ s.waiting
      · exact if_pos hwaiting
      · have hwoken : t ∈ s.woken := by
          by_contra hnot
          exact hrun ⟨hwaiting, hnot⟩
        by_cases hfree : s.owner = none
        · simp [step, hwaiting, hwoken, hfree] at hnone
        · simp [step, erase, hwaiting, hwoken, hfree]
  · have hplace := h.placed t
    have hrun := hidle.1 t
    have hsignal := hidle.2 t u
    by_cases hcan : s.Running t ∧ u ∈ s.waiting
    · rw [Outline.step_run hcan.1] at hrun
      have hpoint : (erase s).point t = (s.point t).client := rfl
      simp only [step, hpoint]
      cases hx : s.point t with
      | user p =>
        simp only [step, hx, methods] at hsignal
        cases hc : client t p <;> simp [hc, hcan] at hsignal ⊢
        all_goals simp [Point.client, hc]
      | getHolder q => simp [hx, methods, execute] at hrun
      | mutexUnlock p q =>
        rw [hx] at hplace
        have hc : client t p = .unlock q := hplace
        simp [Point.client, hc]
      | condWait p q =>
        rw [hx] at hplace
        have hc : client t p = .wait q := hplace
        simp [Point.client, hc]
    · have hcan' : ¬ ((erase s).Running t ∧ u ∈ (erase s).waiting) := hcan
      simp only [step]
      split
      · exact if_neg hcan'
      · rfl

/-- The program with the methods is a refinement of the client, and it keeps the record. -/
theorem run_recorded (hv : o.Valid client) {point : T → P} {d : σ}
    (h0 : o.Holds (State.init point d)) {ls : List (Label T)}
    (h : Trace.run (step (methods tid client)) (init point d) ls = some s) :
    (∃ ls', ls'.Sublist ls ∧ Trace.run (step client) (State.init point d) ls' = some (erase s)) ∧
      Recorded o tid client s := by
  have hinv (u : State T (Locked σ) (Point P)) (l : Label T) (v : State T (Locked σ) (Point P))
      (hu : Recorded o tid client u) (hstep : step (methods tid client) u l = some v) :
      Recorded o tid client v := step_recorded hv hu hstep
  have hinit : Recorded o tid client (init point d) := init_recorded h0
  refine ⟨?_, Trace.run_inv hinv hinit h⟩
  exact Trace.run_stutter hinv (fun u l v hu hstep ↦ step_erase hu.placed hstep) hinit h

/-- **The record is exact.**  For a client that locks and unlocks in turn: whatever is done with a
mutex and a condition variable is done with the two classes, and wherever a thread may ask,
`isLockedByThisThread` tells it whether it has the mutex. -/
theorem record_exact (hv : o.Valid client) (htid : Function.Injective tid)
    (hpositive : ∀ t, 0 < tid t) {point : T → P} {d : σ} (h0 : o.Holds (State.init point d))
    {ls : List (Label T)}
    (h : Trace.run (step (methods tid client)) (init point d) ls = some s) :
    (∃ ls', ls'.Sublist ls ∧ Trace.run (step client) (State.init point d) ls' = some (erase s)) ∧
      o.Holds (erase s) ∧
      ∀ t p, s.Running t → s.point t = .user p →
        (isLockedByThisThread (tid t) s.data = true ↔ o.holds t p) := by
  obtain ⟨hrefines, hrec⟩ := run_recorded hv h0 h
  refine ⟨hrefines, hrec.outline, fun t p hrun hx ↦ ?_⟩
  have hholder := hrec.holder
  have hclient : (s.point t).client = p := by rw [hx]; rfl
  unfold isLockedByThisThread
  rw [beq_iff_eq, hholder]
  constructor
  · intro heq
    cases howner : s.owner with
    | none =>
      have hpos := hpositive t
      rw [howner] at heq
      simp only [recorded] at heq
      omega
    | some u =>
      have hut : u = t := by
        rw [howner] at heq
        cases hu : s.point u with
        | user q =>
          simp only [recorded, hu] at heq
          exact htid heq
        | _ =>
          have hpos := hpositive t
          simp only [recorded, hu] at heq
          omega
      have hholds := (hrec.outline.running t hrun).mp (by rw [← hut]; exact howner)
      rw [← hclient]
      exact hholds
  · intro hholds
    rw [hrec.owner_of_holds hrun (hclient ▸ hholds)]
    simp only [recorded, hx]

end

/-! ## 4. A client -/

/-- The points of `foo` in the test of the class: it locks, counts and unlocks. -/
inductive FooPoint where
  | lock
  | count
  | unlock
  | returned
deriving DecidableEq, Repr

def foo (_ : Bool) : FooPoint → Instr Int FooPoint
  | .lock => .lock .count
  | .count => .act (· + 1) fun _ ↦ .unlock
  | .unlock => .unlock .returned
  | .returned => .stop

def fooOutline : Outline Bool Int FooPoint where
  holds _ p := p = .count ∨ p = .unlock
  free _ _ := True
  held _ _ _ _ := True
  knows _ _ _ := True
  changes _ _ _ := True

theorem fooOutline_valid : fooOutline.Valid foo where
  free_mono := fun _ _ ↦ trivial
  held_mono := fun _ _ ↦ trivial
  stable := fun _ _ _ ↦ trivial
  fits := by
    intro t p
    cases p <;> simp [foo, Outline.Fits, fooOutline]

/-- Two threads in `foo`: one has counted, and the other waits for the mutex. -/
theorem record_exact_foo :
    ∃ s, Trace.run (step (methods (fun t : Bool ↦ if t then 8 else 7) foo))
        (init (fun _ ↦ .lock) 0) [.run true, .run true, .run true] = some s ∧
      isLockedByThisThread 8 s.data = true ∧ ¬ isLockedByThisThread 7 s.data = true := by
  obtain ⟨s, hs, hrun, hpoint⟩ :
      ∃ s, Trace.run (step (methods (fun t : Bool ↦ if t then 8 else 7) foo))
          (init (fun _ ↦ .lock) 0) [.run true, .run true, .run true] = some s ∧
        (∀ t, s.Running t) ∧ s.point true = .user .unlock ∧ s.point false = .user .lock :=
    ⟨_, rfl, by decide, rfl, rfl⟩
  have hinit : fooOutline.Holds (State.init (fun _ ↦ FooPoint.lock) 0) :=
    Outline.init_holds (by simp [fooOutline]) (fun _ ↦ trivial) trivial
  obtain ⟨-, -, hexact⟩ := record_exact fooOutline_valid (by decide) (by decide) hinit hs
  refine ⟨s, hs, (hexact true .unlock (hrun true) hpoint.1).mpr (.inr rfl), fun hlocked ↦ ?_⟩
  have hholds := (hexact false .lock (hrun false) hpoint.2).mp hlocked
  simp [fooOutline] at hholds

end Mutex

end Netlib
