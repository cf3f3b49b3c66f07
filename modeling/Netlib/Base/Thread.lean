import Netlib.Base.CountDownLatch

/-!
# `netlib::Thread`

`start` creates a thread and waits for the latch of one; the new thread stores its id in the
`Thread`, counts down and goes on to the function it was made for (`base/Thread.cc`).  The run
begins when `pthread_create` has succeeded, and the caller of `start` may end with the destructor of
the `Thread`: behind the `wait` of `start` the new thread has no access to the `Thread` before it.
-/

namespace Netlib

open Monitor CountDownLatch

inductive ThreadRole where
  /-- In `Thread::start`. -/
  | starter
  /-- In `ThreadData::runInThread`. -/
  | child
deriving DecidableEq, Repr

instance : Fintype ThreadRole := ⟨{.starter, .child}, fun t ↦ by cases t <;> decide⟩

/-- What both threads use of the `Thread`: `_tid`, and the count of `_latch`. -/
structure ThreadFields where
  tid : Int
  count : Int
deriving DecidableEq, Repr

inductive ThreadPoint where
  /-- In a method of `_latch`. -/
  | latch (p : LatchPoint)
  | assertTid
  /-- `start` has returned. -/
  | started
  /-- The destructor has run. -/
  | destroyed
  | aborted
  | storeTid
  | func
  | finished
deriving DecidableEq, Repr

namespace Thread

/-- A call of a method of `_latch`, and what comes behind it. -/
def inLatch (next : ThreadPoint) : Instr Int LatchPoint → Instr ThreadFields ThreadPoint
  | .lock q => .lock (.latch q)
  | .unlock q => .unlock (.latch q)
  | .wait q => .wait (.latch q)
  | .signal q => .signal (.latch q)
  | .broadcast q => .broadcast (.latch q)
  | .act f next => .act (fun d ↦ { d with count := f d.count }) fun d ↦ .latch (next d.count)
  | .stop => .act id fun _ ↦ next

def code (tid : ThreadRole → Int) : ThreadRole → ThreadPoint → Instr ThreadFields ThreadPoint
  | .starter, .latch p => inLatch .assertTid (CountDownLatch.code ThreadRole.starter p)
  | .starter, .assertTid => .act id fun d ↦ if 0 < d.tid then .started else .aborted
  | .starter, .started => .act id fun _ ↦ .destroyed
  | .child, .storeTid =>
    .act (fun d ↦ { d with tid := tid .child }) fun _ ↦ .latch (.call [.countDown])
  | .child, .latch p => inLatch .func (CountDownLatch.code ThreadRole.child p)
  | .child, .func => .act id fun _ ↦ .finished
  | _, _ => .stop

def start : ThreadRole → ThreadPoint
  | .starter => .latch (.call [.wait])
  | .child => .storeTid

/-- Constructed, with the latch of one, and the thread created. -/
def constructed : ThreadFields := ⟨0, 1⟩

/-! ## 1. The outline -/

def Inside : ThreadPoint → Prop
  | .latch p => CountDownLatch.Inside p
  | _ => False

/-- The new thread has stored its id and has counted. -/
def Ready (tid : Int) (d : ThreadFields) : Prop := d.count ≤ 0 ∧ d.tid = tid

/-- What the two threads know, `tid` being the id of the new one. -/
def Knows (tid : Int) : ThreadRole → ThreadPoint → ThreadFields → Prop
  | .starter, .latch p, d => left p <:+ [.wait] ∧ (left p = [] → Ready tid d)
  | .starter, .assertTid, d | .starter, .started, d | .starter, .destroyed, d => Ready tid d
  | .child, .storeTid, d => d.count = 1
  | .child, .latch p, d => left p <:+ [.countDown] ∧ d.count = counts (left p) ∧ d.tid = tid
  | .child, .func, d | .child, .finished, d => Ready tid d
  | _, _, _ => False

def Free (tid : Int) (d : ThreadFields) (waiting : Finset ThreadRole) : Prop :=
  d.count ≤ 0 → waiting = ∅ ∧ d.tid = tid

def Held (tid : Int) : ThreadPoint → ThreadFields → Finset ThreadRole → Prop
  | .latch (.block _), d, _ => 0 < d.count
  | .latch (.notifyAll _), d, _ => d.count = 0 ∧ d.tid = tid
  | _, d, waiting => Free tid d waiting

def Changes : ThreadRole → ThreadFields → ThreadFields → Prop
  | .starter, d, d' => d' = d
  | .child, d, d' => d'.count ≤ d.count ∧ (d.count ≤ 0 → d'.tid = d.tid)

def outline (tid : Int) : Outline ThreadRole ThreadFields ThreadPoint where
  holds _ := Inside
  free := Free tid
  held _ := Held tid
  knows := Knows tid
  changes := Changes

section

variable {tid : Int} {t : ThreadRole} {p : LatchPoint} {rest : List LatchCall} {d d' : ThreadFields}
  {W W' : Finset ThreadRole}

theorem Free.mono (h : Free tid d W) (hsub : W' ⊆ W) : Free tid d W' := by
  intro hzero
  obtain ⟨hempty, htid⟩ := h hzero
  rw [hempty] at hsub
  exact ⟨Finset.subset_empty.mp hsub, htid⟩

theorem Held.storeTid {q : ThreadPoint} (h : Held tid q d W) :
    Held tid q { d with tid := tid } W := by
  have hfree (hf : Free tid d W) : Free tid { d with tid := tid } W :=
    fun hzero ↦ ⟨(hf hzero).1, rfl⟩
  cases q with
  | latch p =>
    cases p with
    | block rest => exact h
    | notifyAll rest => exact ⟨h.1, rfl⟩
    | _ => exact hfree h
  | _ => exact hfree h

theorem Ready.child (h : Ready tid d) (hchanges : Changes .child d d') : Ready tid d' :=
  ⟨hchanges.1.trans h.1, (hchanges.2 h.1).trans h.2⟩

theorem Knows.stable {u : ThreadRole} {q : ThreadPoint} (hne : t ≠ u) (h : Knows tid t q d)
    (hchanges : Changes u d d') : Knows tid t q d' := by
  cases u with
  | starter =>
    have hsame : d' = d := hchanges
    rw [hsame]
    exact h
  | child =>
    cases t with
    | child => exact (hne rfl).elim
    | starter =>
      cases q with
      | latch p => exact ⟨h.1, fun hpassed ↦ (h.2 hpassed).child hchanges⟩
      | assertTid => exact Ready.child h hchanges
      | started => exact Ready.child h hchanges
      | destroyed => exact Ready.child h hchanges
      | _ => exact h

theorem not_wait_suffix (h : .wait :: rest <:+ [.countDown]) : False := by
  have hmem : LatchCall.wait ∈ [LatchCall.countDown] := h.subset List.mem_cons_self
  simp at hmem

theorem not_countDown_suffix (h : .countDown :: rest <:+ [.wait]) : False := by
  have hmem : LatchCall.countDown ∈ [LatchCall.wait] := h.subset List.mem_cons_self
  simp at hmem

theorem eq_nil_of_suffix {call call' : LatchCall} (h : call :: rest <:+ [call']) : rest = [] := by
  have hlen := h.length_le
  exact List.length_eq_zero_iff.mp (by simpa using hlen)

/-- The calls of the mutex and the condition variable fit, whoever makes them. -/
theorem starter_fits (ids : ThreadRole → Int) (p : LatchPoint) :
    (outline tid).Fits .starter (.latch p) (code ids .starter (.latch p)) := by
  cases p with
  | call calls =>
    match calls with
    | [] =>
      intro d hknows
      refine ⟨fun hin ↦ hin.elim, fun _ ↦ ⟨id, rfl, hknows.2 rfl, fun W hfree ↦ hfree, ?_⟩⟩
      exact fun u q W _ _ hheld ↦ hheld
    | .wait :: rest => exact ⟨id, trivial, fun d hknows ↦ ⟨hknows, fun W hfree ↦ hfree⟩⟩
    | .countDown :: rest =>
      exact ⟨id, trivial, fun d hknows ↦ ⟨hknows, fun W hfree ↦ hfree⟩⟩
  | test rest =>
    refine fun d hknows ↦ ⟨fun _ W hheld ↦ ?_, fun hout ↦ (hout trivial).elim⟩
    have hrest : rest <:+ [.wait] := (List.suffix_cons _ rest).trans hknows.1
    by_cases hcount : 0 < d.count
    · simp only [if_pos hcount]
      exact ⟨trivial, rfl, hknows, hcount⟩
    · simp only [if_neg hcount]
      have hdown := not_lt.mp hcount
      exact ⟨trivial, rfl, ⟨hrest, fun _ ↦ ⟨hdown, (hheld hdown).2⟩⟩, hheld⟩
  | block rest =>
    refine ⟨trivial, trivial, fun d W hknows hheld ↦ ⟨hknows, fun hzero ↦ ?_⟩,
      fun d W _ hfree ↦ hfree⟩
    exact ((not_lt.mpr hzero) hheld).elim
  | waited rest => exact ⟨trivial, id, fun d W hknows hheld ↦ ⟨hknows, hheld⟩⟩
  | decrement rest => exact fun d hknows ↦ (not_countDown_suffix hknows.1).elim
  | notifyAll rest =>
    refine ⟨Iff.rfl, fun d hknows ↦ ⟨hknows, fun _ W hheld _ ↦ ⟨rfl, hheld.2⟩⟩⟩
  | counted rest => exact ⟨trivial, id, fun d W hknows hheld ↦ ⟨hknows, hheld⟩⟩

theorem child_fits (ids : ThreadRole → Int) (p : LatchPoint) :
    (outline tid).Fits .child (.latch p) (code ids .child (.latch p)) := by
  cases p with
  | call calls =>
    match calls with
    | [] =>
      intro d hknows
      have hready : Ready tid d := ⟨hknows.2.1.le, hknows.2.2⟩
      exact ⟨fun hin ↦ hin.elim, fun _ ↦ ⟨id, ⟨le_rfl, fun _ ↦ rfl⟩, hready,
        fun W hfree ↦ hfree, fun u q W _ _ hheld ↦ hheld⟩⟩
    | .wait :: rest => exact ⟨id, trivial, fun d hknows ↦ ⟨hknows, fun W hfree ↦ hfree⟩⟩
    | .countDown :: rest =>
      exact ⟨id, trivial, fun d hknows ↦ ⟨hknows, fun W hfree ↦ hfree⟩⟩
  | test rest => exact fun d hknows ↦ (not_wait_suffix hknows.1).elim
  | block rest =>
    refine ⟨trivial, trivial, fun d W hknows _ ↦ (not_wait_suffix hknows.1).elim,
      fun d W _ hfree ↦ hfree⟩
  | waited rest => exact ⟨trivial, id, fun d W hknows hheld ↦ ⟨hknows, hheld⟩⟩
  | decrement rest =>
    refine fun d hknows ↦ ⟨fun _ W hheld ↦ ?_, fun hout ↦ (hout trivial).elim⟩
    obtain ⟨hsuffix, hcount, htid⟩ := hknows
    have hrest : rest = [] := eq_nil_of_suffix hsuffix
    subst hrest
    have hone : d.count = 1 := hcount
    have hzero : d.count - 1 = 0 := by omega
    simp only [if_pos hzero]
    refine ⟨trivial, ⟨?_, fun _ ↦ rfl⟩, ⟨List.nil_suffix, hzero, htid⟩, hzero, htid⟩
    show d.count - 1 ≤ d.count
    omega
  | notifyAll rest =>
    refine ⟨Iff.rfl, fun d hknows ↦ ⟨hknows, fun _ W hheld _ ↦ ⟨rfl, hheld.2⟩⟩⟩
  | counted rest => exact ⟨trivial, id, fun d W hknows hheld ↦ ⟨hknows, hheld⟩⟩

theorem outline_valid {ids : ThreadRole → Int} (hpositive : 0 < ids .child) :
    (outline (ids .child)).Valid (code ids) where
  free_mono := fun hsub h ↦ Free.mono h hsub
  held_mono := by
    intro t q d W W' hsub h
    cases q with
    | latch p =>
      cases p with
      | block rest => exact h
      | notifyAll rest => exact h
      | _ => exact Free.mono h hsub
    | _ => exact Free.mono h hsub
  stable := Knows.stable
  fits := by
    intro t q
    cases t with
    | starter =>
      cases q with
      | latch p => exact starter_fits ids p
      | assertTid =>
        intro d hready
        have htid : 0 < d.tid := by
          rw [hready.2]
          exact hpositive
        simp only [if_pos htid]
        exact ⟨fun hin ↦ hin.elim, fun _ ↦ ⟨id, rfl, hready, fun W hfree ↦ hfree,
          fun u q W _ _ hheld ↦ hheld⟩⟩
      | started =>
        intro d hready
        exact ⟨fun hin ↦ hin.elim, fun _ ↦ ⟨id, rfl, hready, fun W hfree ↦ hfree,
          fun u q W _ _ hheld ↦ hheld⟩⟩
      | _ => exact id
    | child =>
      cases q with
      | latch p => exact child_fits ids p
      | storeTid =>
        intro d hone
        have hcount : d.count = 1 := hone
        refine ⟨fun hin ↦ hin.elim, fun _ ↦ ⟨id, ⟨le_rfl, fun hzero ↦ ?_⟩,
          ⟨List.suffix_rfl, hcount, rfl⟩, fun W hfree hzero ↦ ⟨(hfree hzero).1, rfl⟩, ?_⟩⟩
        · omega
        · exact fun u q W _ _ hheld ↦ Held.storeTid hheld
      | func =>
        intro d hready
        exact ⟨fun hin ↦ hin.elim, fun _ ↦ ⟨id, ⟨le_rfl, fun _ ↦ rfl⟩, hready,
          fun W hfree ↦ hfree, fun u q W _ _ hheld ↦ hheld⟩⟩
      | _ => exact id

end

/-! ## 2. Behind the wait -/

/-- `start` is behind the `while` of its `wait`. -/
def Past : ThreadPoint → Prop
  | .latch p => left p = []
  | _ => True

/-- The new thread is behind its last access to the `Thread`. -/
def Away : ThreadPoint → Prop
  | .latch p => p = .call []
  | .func | .finished => True
  | _ => False

/-- Once `start` is behind its `wait`, the new thread is away; and that thread never waits. -/
structure Parted (s : State ThreadRole ThreadFields ThreadPoint) : Prop where
  away : Past (s.point .starter) → Away (s.point .child)
  running : s.Running .child

section

variable {ids : ThreadRole → Int} {s s' : State ThreadRole ThreadFields ThreadPoint}
  {l : Label ThreadRole}

theorem init_parted : Parted (State.init start constructed) where
  away := by
    intro hpast
    cases hpast
  running := ⟨Finset.notMem_empty _, Finset.notMem_empty _⟩

/-- The new thread has counted, and is not in the scope of the lock. -/
theorem away_of_ready (hout : (outline (ids .child)).Holds s) (hdown : s.data.count ≤ 0)
    (houtside : ¬ Inside (s.point .child)) : Away (s.point .child) := by
  have hknows : Knows (ids .child) .child (s.point .child) s.data := hout.knows .child
  cases hpoint : s.point .child with
  | latch p =>
    rw [hpoint] at hknows houtside
    cases p with
    | call calls =>
      have hcount : s.data.count = counts calls := hknows.2.1
      have hnone : counts calls = 0 := by omega
      have hsuffix : calls <:+ [.countDown] := hknows.1
      rcases List.suffix_cons_iff.mp hsuffix with rfl | hnil
      · cases hnone
      · rw [List.suffix_nil.mp hnil]
        rfl
    | _ => exact (houtside trivial).elim
  | storeTid =>
    rw [hpoint] at hknows
    have hone : s.data.count = 1 := hknows
    omega
  | func => trivial
  | finished => trivial
  | _ =>
    rw [hpoint] at hknows
    exact hknows.elim

theorem ready_of_past {tid : Int} {q : ThreadPoint} {d : ThreadFields}
    (h : Knows tid .starter q d) (hpast : Past q) : Ready tid d := by
  cases q with
  | latch p => exact h.2 hpast
  | assertTid => exact h
  | started => exact h
  | destroyed => exact h
  | _ => exact h.elim

theorem away_next (ids : ThreadRole → Int) {q : ThreadPoint} (h : Away q) :
    (∃ f next, code ids .child q = .act f next ∧ ∀ d, Away (next d)) ∨
      code ids .child q = .stop := by
  cases q with
  | latch p =>
    have hp : p = .call [] := h
    subst hp
    exact .inl ⟨_, _, rfl, fun _ ↦ trivial⟩
  | func => exact .inl ⟨_, _, rfl, fun _ ↦ trivial⟩
  | finished => exact .inr rfl
  | _ => exact h.elim

/-- The starter takes a step, before it is behind its `wait`: the new thread has not the mutex. -/
theorem child_outside (hout : (outline (ids .child)).Holds s) (h : Parted s)
    (hrun : s.Running .starter) (hbefore : ¬ Past (s.point .starter))
    (hlock : ∀ q, code ids .starter (s.point .starter) = .lock q → s.owner = none) :
    ¬ Inside (s.point .child) := by
  intro hinside
  have howner : s.owner = some .child := (hout.running .child h.running).mpr hinside
  cases hpoint : s.point .starter with
  | latch p =>
    rw [hpoint] at hbefore hlock
    cases p with
    | call calls =>
      match calls with
      | [] => exact hbefore rfl
      | .wait :: rest =>
        have hnone := hlock _ rfl
        rw [hnone] at howner
        cases howner
      | .countDown :: rest =>
        have hnone := hlock _ rfl
        rw [hnone] at howner
        cases howner
    | _ =>
      have hstarter : Inside (s.point .starter) := by
        rw [hpoint]
        trivial
      have hsame := hout.eq_of_holds hrun h.running hstarter hinside
      cases hsame
  | _ =>
    rw [hpoint] at hbefore
    exact hbefore trivial

/-- The starter goes on. -/
theorem Parted.starter (h : Parted s) (hout : (outline (ids .child)).Holds s)
    (hout' : (outline (ids .child)).Holds s') (hrun : s.Running .starter)
    (hlock : ∀ q, code ids .starter (s.point .starter) = .lock q → s.owner = none)
    (hpoint : s'.point .child = s.point .child) (hrunning : s'.Running .child) : Parted s' := by
  refine ⟨fun hpast ↦ ?_, hrunning⟩
  by_cases hbefore : Past (s.point .starter)
  · rw [hpoint]
    exact h.away hbefore
  · have houtside := child_outside hout h hrun hbefore hlock
    rw [← hpoint] at houtside
    exact away_of_ready hout' (ready_of_past (hout'.knows .starter) hpast).1 houtside

/-- The new thread goes on. -/
theorem Parted.child (h : Parted s) {q : ThreadPoint}
    (hpoint : s'.point = (s.goto .child q).point) (hrunning : s'.Running .child)
    (haway : Away (s.point .child) → Away q) : Parted s' := by
  refine ⟨fun hpast ↦ ?_, hrunning⟩
  rw [hpoint] at hpast ⊢
  rw [goto_of_ne (by decide)] at hpast
  rw [goto_self]
  exact haway (h.away hpast)

theorem not_away_of_code {q : ThreadPoint} {i : Instr ThreadFields ThreadPoint}
    (hcode : code ids .child q = i) (hact : ∀ f next, i ≠ .act f next) (hstop : i ≠ .stop) :
    ¬ Away q := by
  intro haway
  rcases away_next ids haway with ⟨f, next, hc, -⟩ | hc
  · exact hact f next (hcode.symm.trans hc)
  · exact hstop (hcode.symm.trans hc)

theorem child_waits_never (hout : (outline (ids .child)).Holds s) {q : ThreadPoint} :
    code ids .child (s.point .child) ≠ .wait q := by
  intro hcode
  have hknows : Knows (ids .child) .child (s.point .child) s.data := hout.knows .child
  cases hpoint : s.point .child with
  | latch p =>
    rw [hpoint] at hcode hknows
    cases p with
    | call calls =>
      match calls with
      | [] => cases hcode
      | .wait :: rest => cases hcode
      | .countDown :: rest => cases hcode
    | block rest => exact not_wait_suffix hknows.1
    | _ => cases hcode
  | _ =>
    rw [hpoint] at hcode
    cases hcode

theorem step_parted (hpositive : 0 < ids .child) (hout : (outline (ids .child)).Holds s)
    (h : Parted s) (hstep : step (code ids) s l = some s') : Parted s' := by
  have hout' := (outline_valid hpositive).step hout hstep
  have hchild := h.running
  have hother (q : ThreadPoint) : (s.goto .starter q).point .child = s.point .child :=
    goto_of_ne (by decide)
  cases step_cases hstep with
  | @resume t hwaiting hwoken hnone =>
    have hrunning : ∀ u, u = ThreadRole.child → u ∉ s.woken.erase t := by
      rintro u rfl hmem
      exact hchild.2 (Finset.mem_of_mem_erase hmem)
    exact ⟨h.away, hchild.1, hrunning .child rfl⟩
  | @lock t q hrun hcode hnone =>
    cases t with
    | starter => exact h.starter hout hout' hrun (fun _ _ ↦ hnone) (hother q) hchild
    | child =>
      refine h.child rfl hchild fun haway ↦ ?_
      exact (not_away_of_code hcode (by simp) (by simp) haway).elim
  | @unlock t q hrun hcode howner =>
    cases t with
    | starter =>
      refine h.starter hout hout' hrun (fun r hlock ↦ ?_) (hother q) hchild
      rw [hcode] at hlock
      cases hlock
    | child =>
      refine h.child rfl hchild fun haway ↦ ?_
      exact (not_away_of_code hcode (by simp) (by simp) haway).elim
  | @wait t q hrun hcode howner =>
    cases t with
    | starter =>
      refine h.starter hout hout' hrun (fun r hlock ↦ ?_) (hother q) ⟨?_, hchild.2⟩
      · rw [hcode] at hlock
        cases hlock
      · simpa using hchild.1
    | child => exact (child_waits_never hout hcode).elim
  | @signalNone t q hrun hcode hempty =>
    cases t with
    | starter =>
      refine h.starter hout hout' hrun (fun r hlock ↦ ?_) (hother q) hchild
      rw [hcode] at hlock
      cases hlock
    | child =>
      refine h.child rfl hchild fun haway ↦ ?_
      exact (not_away_of_code hcode (by simp) (by simp) haway).elim
  | @signal t u q hrun hcode hmem =>
    have hrunning : ((s.goto t q).wake u).Running .child := (Outline.running_wake hmem).mpr hchild
    cases t with
    | starter =>
      refine h.starter hout hout' hrun (fun r hlock ↦ ?_) (hother q) hrunning
      rw [hcode] at hlock
      cases hlock
    | child =>
      refine h.child rfl hrunning fun haway ↦ ?_
      exact (not_away_of_code hcode (by simp) (by simp) haway).elim
  | @broadcast t q hrun hcode =>
    have hwoken : ThreadRole.child ∉ s.woken ∪ s.waiting := by
      rw [Finset.mem_union, not_or]
      exact ⟨hchild.2, hchild.1⟩
    cases t with
    | starter =>
      refine h.starter hout hout' hrun (fun r hlock ↦ ?_) (hother q) ⟨Finset.notMem_empty _, hwoken⟩
      rw [hcode] at hlock
      cases hlock
    | child =>
      refine h.child rfl ⟨Finset.notMem_empty _, hwoken⟩ fun haway ↦ ?_
      exact (not_away_of_code hcode (by simp) (by simp) haway).elim
  | @act t f next hrun hcode =>
    cases t with
    | starter =>
      refine h.starter hout hout' hrun (fun r hlock ↦ ?_) (hother (next s.data)) hchild
      rw [hcode] at hlock
      cases hlock
    | child =>
      refine h.child rfl hchild fun haway ↦ ?_
      rcases away_next ids haway with ⟨g, next', hc, hnext⟩ | hc
      · rw [hc] at hcode
        cases hcode
        exact hnext _
      · rw [hc] at hcode
        cases hcode
  | wake hmem => exact ⟨h.away, (Outline.running_wake hmem).mpr hchild⟩

/-! ## 3. Every run -/

theorem not_inside_of_away {q : ThreadPoint} (h : Away q) : ¬ Inside q := by
  cases q with
  | latch p =>
    have hp : p = .call [] := h
    rw [hp]
    exact id
  | _ => exact id

theorem inLatch_ne_stop {next : ThreadPoint} {i : Instr Int LatchPoint} :
    inLatch next i ≠ .stop := by
  cases i <;> simp [inLatch]

theorem child_stop {tid : Int} {q : ThreadPoint} {d : ThreadFields} (h : Knows tid .child q d)
    (hstop : code ids .child q = .stop) : q = .finished := by
  cases q with
  | latch p => exact (inLatch_ne_stop hstop).elim
  | storeTid => cases hstop
  | func => cases hstop
  | finished => rfl
  | _ => exact h.elim

theorem starter_stop {tid : Int} {q : ThreadPoint} {d : ThreadFields} (h : Knows tid .starter q d)
    (hstop : code ids .starter q = .stop) : q = .destroyed := by
  cases q with
  | latch p => exact (inLatch_ne_stop hstop).elim
  | assertTid => cases hstop
  | started => cases hstop
  | destroyed => rfl
  | _ => exact h.elim

/-- **Start.**  In every interleaving of `start` with the new thread: the assertion of `start`
holds, and behind its `wait` the `Thread` has the id of the new thread; there the new thread has
made its last access to the `Thread`, so that it may be destroyed at once; and where nothing goes
on, both have come to their ends. -/
theorem start_hands_over (hpositive : 0 < ids .child) {ls : List (Label ThreadRole)}
    {u : State ThreadRole (Locked ThreadFields) (Mutex.Point ThreadPoint)}
    (h : Trace.run (step (Mutex.methods ids (code ids))) (Mutex.init start constructed) ls =
      some u) :
    (u.point .starter).client ≠ .aborted ∧
    (Past (u.point .starter).client → u.data.data.tid = ids .child ∧
      ∃ p, u.point .child = .user p ∧ Away p) ∧
    (Outline.Idle (Mutex.methods ids (code ids)) u →
      (u.point .starter).client = .destroyed ∧ (u.point .child).client = .finished) := by
  have hvalid := outline_valid hpositive
  have hinit : (outline (ids .child)).Holds (State.init start constructed) := by
    refine Outline.init_holds (fun t ↦ ?_) (fun t ↦ ?_) (fun hzero ↦ ?_)
    · cases t
      · exact id
      · exact id
    · cases t
      · refine ⟨List.suffix_rfl, fun hnil ↦ ?_⟩
        cases hnil
      · rfl
    · exact absurd hzero (by decide)
  obtain ⟨⟨ls', -, hrun⟩, hrec⟩ := Mutex.run_recorded hvalid hinit h
  have hparted : Parted (Mutex.erase u) := by
    have hboth := Trace.run_inv
      (I := fun v ↦ (outline (ids .child)).Holds v ∧ Parted v)
      (fun v l w hv hstep ↦ ⟨hvalid.step hv.1 hstep, step_parted hpositive hv.1 hv.2 hstep⟩)
      ⟨hinit, init_parted⟩ hrun
    exact hboth.2
  have hknows : Knows (ids .child) .starter (u.point .starter).client u.data.data :=
    hrec.outline.knows .starter
  refine ⟨fun haborted ↦ ?_, fun hpast ↦ ⟨(ready_of_past hknows hpast).2, ?_⟩, fun hidle ↦ ?_⟩
  · rw [haborted] at hknows
    exact hknows
  · have haway : Away (u.point .child).client := hparted.away hpast
    have hplaced := hrec.placed .child
    cases hpoint : u.point .child with
    | user p =>
      rw [hpoint] at haway
      exact ⟨p, rfl, haway⟩
    | getHolder q =>
      rw [hpoint] at hplaced haway
      exact (not_inside_of_away haway hplaced).elim
    | mutexUnlock p q =>
      rw [hpoint] at hplaced haway
      have hcode : code ids .child p = .unlock q := hplaced
      exact (not_away_of_code hcode (by simp) (by simp) haway).elim
    | condWait p q =>
      rw [hpoint] at hplaced haway
      have hcode : code ids .child p = .wait q := hplaced
      exact (not_away_of_code hcode (by simp) (by simp) haway).elim
  · obtain ⟨hfree, hends⟩ := hvalid.idle hrec.outline (hrec.idle hidle)
    have hchild : Knows (ids .child) .child (u.point .child).client u.data.data :=
      hrec.outline.knows .child
    have hfinished : (u.point .child).client = .finished := by
      rcases hends .child with hwaiting | ⟨-, hstop⟩
      · exact (hparted.running.1 hwaiting).elim
      · exact child_stop hchild hstop
    rw [hfinished] at hchild
    have hready : Ready (ids .child) u.data.data := hchild
    refine ⟨?_, hfinished⟩
    rcases hends .starter with hwaiting | ⟨-, hstop⟩
    · have hempty := (hrec.outline.free hfree hready.1).1
      rw [hempty] at hwaiting
      exact (Finset.notMem_empty _ hwaiting).elim
    · exact starter_stop hknows hstop

end

/-- The new thread stores its id and counts before `start` comes to its `wait`. -/
theorem start_hands_over_child_first :
    ∃ u, Trace.run (step (Mutex.methods (fun | .starter => 7 | .child => 8)
          (code fun | .starter => 7 | .child => 8))) (Mutex.init start constructed)
        [.run .child, .run .child, .run .child, .run .child, .run .child, .run .child,
          .run .child, .run .starter, .run .starter, .run .starter] = some u ∧
      u.data.data.tid = 8 ∧ ∃ p, u.point .child = .user p ∧ Away p := by
  obtain ⟨u, hu, hpast⟩ :
      ∃ u, Trace.run (step (Mutex.methods (fun | .starter => 7 | .child => 8)
            (code fun | .starter => 7 | .child => 8))) (Mutex.init start constructed)
          [.run .child, .run .child, .run .child, .run .child, .run .child, .run .child,
            .run .child, .run .starter, .run .starter, .run .starter] = some u ∧
        Past (u.point .starter).client := ⟨_, rfl, rfl⟩
  obtain ⟨-, hover, -⟩ := start_hands_over (by decide) hu
  exact ⟨u, hu, hover hpast⟩

end Thread

end Netlib
