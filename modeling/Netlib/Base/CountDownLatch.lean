import Netlib.Base.Mutex

/-!
# `netlib::CountDownLatch`

Threads call `wait` and `countDown` in any order (`base/CountDownLatch.cc`).  `wait` lets a thread
pass once the count is down to zero, and nobody is left behind: where nothing goes on, the threads
that wait are those that were not to pass.  `_count` is an `Int`; `latch_opens` says for which calls
it is one of the `int` of the source throughout.
-/

namespace Netlib

open Monitor

inductive LatchCall where
  | wait
  | countDown
deriving DecidableEq, Repr

/-- A point of a thread: `rest` are the calls behind the current one. -/
inductive LatchPoint where
  | call (calls : List LatchCall)
  /-- `wait`: the condition of the `while`. -/
  | test (rest : List LatchCall)
  /-- `wait`: the body of the `while`. -/
  | block (rest : List LatchCall)
  /-- `wait`: the end of the scope of `lock`. -/
  | waited (rest : List LatchCall)
  | decrement (rest : List LatchCall)
  | notifyAll (rest : List LatchCall)
  /-- `countDown`: the end of the scope of `lock`. -/
  | counted (rest : List LatchCall)
deriving DecidableEq, Repr

namespace CountDownLatch

variable {T : Type}

/-- The program of every thread; the data is `_count`. -/
def code (_ : T) : LatchPoint → Instr Int LatchPoint
  | .call [] => .stop
  | .call (.wait :: rest) => .lock (.test rest)
  | .test rest => .act id fun count ↦ if 0 < count then .block rest else .waited rest
  | .block rest => .wait (.test rest)
  | .waited rest => .unlock (.call rest)
  | .call (.countDown :: rest) => .lock (.decrement rest)
  | .decrement rest =>
    .act (· - 1) fun count ↦ if count - 1 = 0 then .notifyAll rest else .counted rest
  | .notifyAll rest => .broadcast (.counted rest)
  | .counted rest => .unlock (.call rest)

/-- Threads that make the calls of a script, around a latch of a count. -/
def init (script : T → List LatchCall) (count : Int) :
    State T (Locked Int) (Mutex.Point LatchPoint) :=
  Mutex.init (fun t ↦ .call (script t)) count

/-- The calls that have still to let the thread pass, or to count. -/
def left : LatchPoint → List LatchCall
  | .call calls => calls
  | .test rest | .block rest => .wait :: rest
  | .decrement rest => .countDown :: rest
  | .waited rest | .notifyAll rest | .counted rest => rest

def counts (calls : List LatchCall) : Nat := calls.count .countDown

def waits (calls : List LatchCall) : Nat := calls.count .wait

/-- The calls of `countDown` that come before any `wait`. -/
def firstCounts : List LatchCall → Nat
  | .countDown :: calls => firstCounts calls + 1
  | _ => 0

/-! ## 1. The outline -/

/-- In the scope of `lock`. -/
def Inside : LatchPoint → Prop
  | .call _ => False
  | _ => True

/-- A thread that has passed a `wait` has seen the count at zero. -/
def Knows (script : List LatchCall) (calls : List LatchCall) (count : Int) : Prop :=
  calls <:+ script ∧ (waits calls < waits script → count ≤ 0)

/-- Nobody waits behind a count of zero, but between the last `--_count` and its `notifyAll`. -/
def Held : LatchPoint → Int → Finset T → Prop
  | .block _, count, _ => 0 < count
  | .notifyAll _, count, _ => count = 0
  | _, count, waiting => count ≤ 0 → waiting = ∅

def outline (script : T → List LatchCall) : Outline T Int LatchPoint where
  holds _ := Inside
  free count waiting := count ≤ 0 → waiting = ∅
  held _ := Held
  knows t p := Knows (script t) (left p)
  changes _ count count' := count' ≤ count

section

variable {script calls rest : List LatchCall} {count count' : Int} {call : LatchCall}

theorem Knows.le (h : Knows script calls count) (hle : count' ≤ count) :
    Knows script calls count' :=
  ⟨h.1, fun hpassed ↦ hle.trans (h.2 hpassed)⟩

/-- A call of `countDown` has had its effect. -/
theorem Knows.countDown (h : Knows script (.countDown :: rest) count) (hle : count' ≤ count) :
    Knows script rest count' := by
  refine ⟨(List.suffix_cons _ rest).trans h.1, fun hpassed ↦ hle.trans (h.2 ?_)⟩
  unfold waits at hpassed ⊢
  rwa [List.count_cons_of_ne (by decide)]

/-- A `wait` has let the thread pass. -/
theorem Knows.wait (h : Knows script (.wait :: rest) count) (hzero : count ≤ 0) :
    Knows script rest count :=
  ⟨(List.suffix_cons _ rest).trans h.1, fun _ ↦ hzero⟩

end

theorem outline_valid [DecidableEq T] (script : T → List LatchCall) :
    (outline script).Valid code where
  free_mono := by
    intro count W W' hsub h hzero
    rw [h hzero] at hsub
    exact Finset.subset_empty.mp hsub
  held_mono := by
    intro t p count W W' hsub h
    cases p with
    | block rest => exact h
    | notifyAll rest => exact h
    | _ =>
      intro hzero
      rw [h hzero] at hsub
      exact Finset.subset_empty.mp hsub
  stable := fun _ h hle ↦ h.le hle
  fits := by
    intro t p
    cases p with
    | call calls =>
      match calls with
      | [] => exact id
      | .wait :: rest => exact ⟨id, trivial, fun count hknows ↦ ⟨hknows, fun W hfree ↦ hfree⟩⟩
      | .countDown :: rest =>
        exact ⟨id, trivial, fun count hknows ↦ ⟨hknows, fun W hfree ↦ hfree⟩⟩
    | test rest =>
      refine fun count hknows ↦ ⟨fun _ W hheld ↦ ?_, fun hout ↦ (hout trivial).elim⟩
      by_cases hcount : 0 < count
      · simp only [if_pos hcount]
        exact ⟨trivial, le_rfl, hknows, hcount⟩
      · simp only [if_neg hcount]
        exact ⟨trivial, le_rfl, hknows.wait (not_lt.mp hcount), hheld⟩
    | block rest =>
      refine ⟨trivial, trivial, fun count W hknows hheld ↦ ⟨hknows, fun hzero ↦ ?_⟩,
        fun count W _ hfree ↦ hfree⟩
      exact ((not_lt.mpr hzero) hheld).elim
    | waited rest => exact ⟨trivial, id, fun count W hknows hheld ↦ ⟨hknows, hheld⟩⟩
    | decrement rest =>
      refine fun count hknows ↦ ⟨fun _ W hheld ↦ ?_, fun hout ↦ (hout trivial).elim⟩
      have hle : count - 1 ≤ count := by omega
      by_cases hzero : count - 1 = 0
      · simp only [if_pos hzero]
        exact ⟨trivial, hle, hknows.countDown hle, hzero⟩
      · simp only [if_neg hzero]
        refine ⟨trivial, hle, hknows.countDown hle, fun hbelow ↦ hheld ?_⟩
        -- it was below zero before
        omega
    | notifyAll rest =>
      exact ⟨Iff.rfl, fun count hknows ↦ ⟨hknows, fun _ W _ _ ↦ rfl⟩⟩
    | counted rest => exact ⟨trivial, id, fun count W hknows hheld ↦ ⟨hknows, hheld⟩⟩

/-! ## 2. The count -/

section

variable {script calls : List LatchCall} {count : Int}

theorem counts_le_firstCounts (h : calls <:+ script) (hwaits : waits script ≤ waits calls) :
    counts script ≤ counts calls + firstCounts script := by
  obtain ⟨before, rfl⟩ := h
  induction before with
  | nil => exact Nat.le_add_right _ _
  | cons call before ih =>
    rw [List.cons_append] at hwaits ⊢
    have hmore : waits calls ≤ waits (before ++ calls) :=
      (List.suffix_append before calls).sublist.count_le LatchCall.wait
    cases call with
    | wait =>
      rw [waits, List.count_cons_self] at hwaits
      have hless : waits (before ++ calls) + 1 ≤ waits calls := hwaits
      omega
    | countDown =>
      rw [waits, List.count_cons_of_ne (by decide)] at hwaits
      have hle := ih hwaits
      rw [counts, List.count_cons_self, firstCounts]
      have hsame : (before ++ calls).count .countDown = counts (before ++ calls) := rfl
      omega

/-- What stands before a `wait` that has still to let the thread pass is behind it. -/
theorem firstCounts_le_counts (h : calls <:+ script)
    (hfront : calls = [] ∨ ∃ rest, calls = .wait :: rest) :
    counts calls + firstCounts script ≤ counts script := by
  obtain ⟨before, rfl⟩ := h
  induction before with
  | nil =>
    rcases hfront with rfl | ⟨rest, rfl⟩
    · exact le_rfl
    · exact le_rfl
  | cons call before ih =>
    rw [List.cons_append]
    cases call with
    | wait =>
      rw [firstCounts.eq_def, counts, counts, List.count_cons_of_ne (by decide)]
      exact (List.suffix_append before calls).sublist.count_le LatchCall.countDown
    | countDown =>
      rw [firstCounts]
      have hcons : counts (.countDown :: (before ++ calls)) = counts (before ++ calls) + 1 :=
        List.count_cons_self
      omega

/-- As long as the count is above zero, a thread has had its first calls of `countDown` at most. -/
theorem Knows.counts_le (h : Knows script calls count) (hpos : 0 < count) :
    counts script ≤ counts calls + firstCounts script := by
  refine counts_le_firstCounts h.1 ?_
  by_contra hpassed
  exact absurd (h.2 (not_le.mp hpassed)) (not_le.mpr hpos)

end

section

variable {script : T → List LatchCall} {c : Int} {s s' : State T Int LatchPoint} {t : T}
  {p q : LatchPoint}

/-- What the mutex and the condition variable do is no effect of a call. -/
theorem left_next (h : code t p = .lock q ∨ code t p = .unlock q ∨ code t p = .wait q ∨
    code t p = .signal q ∨ code t p = .broadcast q) : left q = left p := by
  cases p with
  | call calls =>
    match calls with
    | [] => simp [code] at h
    | .wait :: rest =>
      simp only [code, Instr.lock.injEq, reduceCtorEq, or_false] at h
      rw [← h]
      rfl
    | .countDown :: rest =>
      simp only [code, Instr.lock.injEq, reduceCtorEq, or_false] at h
      rw [← h]
      rfl
  | test rest => simp [code] at h
  | decrement rest => simp [code] at h
  | block rest =>
    simp only [code, Instr.wait.injEq, reduceCtorEq, false_or, or_false] at h
    rw [← h]
    rfl
  | waited rest =>
    simp only [code, Instr.unlock.injEq, reduceCtorEq, false_or, or_false] at h
    rw [← h]
    rfl
  | notifyAll rest =>
    simp only [code, Instr.broadcast.injEq, reduceCtorEq, false_or] at h
    rw [← h]
    rfl
  | counted rest =>
    simp only [code, Instr.unlock.injEq, reduceCtorEq, false_or, or_false] at h
    rw [← h]
    rfl

theorem wait_next (h : code t p = .wait q) : ∃ rest, q = .test rest := by
  cases p with
  | call calls =>
    match calls with
    | [] => simp [code] at h
    | .wait :: rest => simp [code] at h
    | .countDown :: rest => simp [code] at h
  | block rest =>
    cases h
    exact ⟨rest, rfl⟩
  | _ => simp [code] at h

theorem stop_point (h : code t p = .stop) : p = .call [] := by
  cases p with
  | call calls =>
    match calls with
    | [] => rfl
    | .wait :: rest => simp [code] at h
    | .countDown :: rest => simp [code] at h
  | _ => simp [code] at h

variable [Fintype T]

/-- The account of the count: what is no longer to come has counted, and the count has gone down to
zero only if the first calls of `countDown` are enough for that. -/
structure Counted (script : T → List LatchCall) (c : Int) (s : State T Int LatchPoint) : Prop where
  total : s.data + (∑ t, counts (script t) : Nat) = c + (∑ t, counts (left (s.point t)) : Nat)
  opened : s.data ≤ 0 → c ≤ (∑ t, firstCounts (script t) : Nat)
  waiting : ∀ t ∈ s.waiting, ∃ rest, s.point t = .test rest

theorem init_counted : Counted script c (State.init (fun t ↦ .call (script t)) c) where
  total := rfl
  opened := fun h ↦ h.trans (Int.natCast_nonneg _)
  waiting := fun t h ↦ (Finset.notMem_empty t h).elim

variable [DecidableEq T]

theorem sum_goto (f : LatchPoint → Nat) (h : f q = f (s.point t)) :
    ∑ u, f ((s.goto t q).point u) = ∑ u, f (s.point u) := by
  refine Finset.sum_congr rfl fun u _ ↦ ?_
  by_cases hu : u = t
  · rw [hu, goto_self, h]
  · rw [goto_of_ne hu]

theorem sum_goto_succ (f : LatchPoint → Nat) (h : f q + 1 = f (s.point t)) :
    ∑ u, f ((s.goto t q).point u) + 1 = ∑ u, f (s.point u) := by
  have hrest : ∑ u ∈ Finset.univ.erase t, f ((s.goto t q).point u) =
      ∑ u ∈ Finset.univ.erase t, f (s.point u) := by
    refine Finset.sum_congr rfl fun u hu ↦ ?_
    rw [goto_of_ne (Finset.ne_of_mem_erase hu)]
  rw [← Finset.sum_erase_add _ _ (Finset.mem_univ t), hrest, goto_self, add_assoc, h,
    Finset.sum_erase_add _ _ (Finset.mem_univ t)]

/-- A step that is no effect of a call keeps the account. -/
theorem Counted.goes (h : Counted script c s) (hpoint : s'.point = (s.goto t q).point)
    (hdata : s'.data = s.data) (hleft : counts (left q) = counts (left (s.point t)))
    (hwaiting : ∀ u ∈ s'.waiting, ∃ rest, s'.point u = .test rest) : Counted script c s' where
  total := by
    rw [hdata, hpoint, sum_goto (fun p ↦ counts (left p)) hleft]
    exact h.total
  opened := by
    rw [hdata]
    exact h.opened
  waiting := hwaiting

theorem Counted.waiting_goto (h : Counted script c s) (hrun : s.Running t) {u : T}
    (hu : u ∈ s.waiting) : ∃ rest, (s.goto t q).point u = .test rest := by
  have hne : u ≠ t := by
    intro heq
    exact hrun.1 (heq ▸ hu)
  rw [goto_of_ne hne]
  exact h.waiting u hu

/-- The count goes down by one. -/
theorem Counted.decrement (h : Counted script c s) (hout : (outline script).Holds s)
    (hrun : s.Running t) {rest : List LatchCall} (hpoint : s.point t = .decrement rest)
    (hq : left q = rest) (hpos : 0 < s.data ∨ s.data ≤ 0) :
    Counted script c { s.goto t q with data := s.data - 1 } := by
  have hsum : ∑ u, counts (left ((s.goto t q).point u)) + 1 = ∑ u, counts (left (s.point u)) := by
    refine sum_goto_succ (fun p ↦ counts (left p)) ?_
    show counts (left q) + 1 = counts (left (s.point t))
    rw [hq, hpoint]
    exact List.count_cons_self.symm
  have htotal := h.total
  refine ⟨?_, fun hzero ↦ ?_, fun u hu ↦ h.waiting_goto hrun hu⟩
  · show s.data - 1 + _ = c + _
    rw [← hsum, Nat.cast_add] at htotal
    push_cast at htotal ⊢
    linarith
  · rcases hpos with hpos | hbelow
    · -- no thread has passed a `wait`, and each has had its first calls at most
      have hknows (u : T) : Knows (script u) (left ((s.goto t q).point u)) s.data := by
        by_cases hu : u = t
        · have hself : Knows (script t) (left (s.point t)) s.data := hout.knows t
          rw [hpoint] at hself
          rw [hu, goto_self, hq]
          exact hself.countDown le_rfl
        · rw [goto_of_ne hu]
          exact hout.knows u
      have hle : ∑ u, counts (script u) ≤
          ∑ u, counts (left ((s.goto t q).point u)) + ∑ u, firstCounts (script u) := by
        rw [← Finset.sum_add_distrib]
        exact Finset.sum_le_sum fun u _ ↦ (hknows u).counts_le hpos
      have hzero' : s.data - 1 ≤ 0 := hzero
      omega
    · exact h.opened hbelow

theorem step_counted (hout : (outline script).Holds s) (h : Counted script c s) {l : Label T}
    (hstep : step code s l = some s') : Counted script c s' := by
  cases step_cases hstep with
  | resume hwaiting hwoken hnone => exact ⟨h.total, h.opened, h.waiting⟩
  | lock hrun hcode hnone =>
    have hleft := left_next (.inl hcode)
    exact h.goes rfl rfl (congrArg counts hleft) fun u hu ↦ h.waiting_goto hrun hu
  | unlock hrun hcode howner =>
    have hleft := left_next (.inr (.inl hcode))
    exact h.goes rfl rfl (congrArg counts hleft) fun u hu ↦ h.waiting_goto hrun hu
  | @wait t q hrun hcode howner =>
    have hleft := left_next (.inr (.inr (.inl hcode)))
    refine h.goes rfl rfl (congrArg counts hleft) fun u hu ↦ ?_
    rcases Finset.mem_insert.mp hu with rfl | hu
    · obtain ⟨rest, rfl⟩ := wait_next hcode
      exact ⟨rest, goto_self⟩
    · exact h.waiting_goto hrun hu
  | signalNone hrun hcode hempty =>
    have hleft := left_next (.inr (.inr (.inr (.inl hcode))))
    exact h.goes rfl rfl (congrArg counts hleft) fun u hu ↦ h.waiting_goto hrun hu
  | signal hrun hcode hmem =>
    have hleft := left_next (.inr (.inr (.inr (.inl hcode))))
    refine h.goes rfl rfl (congrArg counts hleft) fun u hu ↦ ?_
    exact h.waiting_goto hrun (Finset.mem_of_mem_erase hu)
  | broadcast hrun hcode =>
    have hleft := left_next (.inr (.inr (.inr (.inr hcode))))
    refine h.goes rfl rfl (congrArg counts hleft) fun u hu ↦ ?_
    exact (Finset.notMem_empty u hu).elim
  | @act t f next hrun hcode =>
    cases hpoint : s.point t with
    | test rest =>
      rw [hpoint] at hcode
      cases hcode
      refine h.goes rfl rfl ?_ fun u hu ↦ h.waiting_goto hrun hu
      rw [hpoint]
      have hdrop : counts rest = counts (.wait :: rest) := (List.count_cons_of_ne (by decide)).symm
      show counts (left (if 0 < s.data then .block rest else .waited rest)) = _
      split
      · rfl
      · exact hdrop
    | decrement rest =>
      rw [hpoint] at hcode
      cases hcode
      refine h.decrement hout hrun hpoint ?_ (lt_or_ge 0 s.data)
      show left (if s.data - 1 = 0 then .notifyAll rest else .counted rest) = rest
      split
      · rfl
      · rfl
    | call calls =>
      rw [hpoint] at hcode
      match calls with
      | [] => simp [code] at hcode
      | .wait :: rest => simp [code] at hcode
      | .countDown :: rest => simp [code] at hcode
    | _ => simp [hpoint, code] at hcode
  | wake hmem =>
    exact ⟨h.total, h.opened, fun u hu ↦ h.waiting u (Finset.mem_of_mem_erase hu)⟩

/-! ## 3. Every run -/

/-- Where nothing goes on, either the count is down to zero and all calls are over, or every thread
has made its first calls of `countDown`. -/
theorem Counted.idle (h : Counted script c s) (hout : (outline script).Holds s)
    (hidle : Outline.Idle code s) :
    (∀ t, s.point t = .call []) ↔
      c ≤ (∑ t, firstCounts (script t) : Nat) ∨ ∀ t, .wait ∉ script t := by
  obtain ⟨hfree, hends⟩ := (outline_valid script).idle hout hidle
  have hover (t : T) (hwaiting : t ∉ s.waiting) : s.point t = .call [] := by
    rcases hends t with hmem | ⟨-, hstop⟩
    · exact (hwaiting hmem).elim
    · exact stop_point hstop
  constructor
  · intro hall
    by_cases hnone : ∀ t, .wait ∉ script t
    · exact .inr hnone
    · rw [not_forall] at hnone
      obtain ⟨t, hmem⟩ := hnone
      have hknows : Knows (script t) (left (s.point t)) s.data := hout.knows t
      rw [hall t] at hknows
      refine .inl (h.opened (hknows.2 ?_))
      exact List.count_pos_iff.mpr (not_not.mp hmem)
  · rintro (henough | hnone)
    · -- else every thread has made its first calls, and they are enough
      have hdown : s.data ≤ 0 := by
        by_contra hpos
        have hmade (t : T) :
            counts (left (s.point t)) + firstCounts (script t) ≤ counts (script t) := by
          have hknows : Knows (script t) (left (s.point t)) s.data := hout.knows t
          refine firstCounts_le_counts hknows.1 ?_
          by_cases hwaiting : t ∈ s.waiting
          · obtain ⟨rest, hpoint⟩ := h.waiting t hwaiting
            exact .inr ⟨rest, by rw [hpoint]; rfl⟩
          · exact .inl (by rw [hover t hwaiting]; rfl)
        have hle : ∑ t, counts (left (s.point t)) + ∑ t, firstCounts (script t) ≤
            ∑ t, counts (script t) := by
          rw [← Finset.sum_add_distrib]
          exact Finset.sum_le_sum fun t _ ↦ hmade t
        have htotal := h.total
        omega
      intro t
      refine hover t ?_
      rw [hout.free hfree hdown]
      exact Finset.notMem_empty t
    · intro t
      refine hover t fun hwaiting ↦ ?_
      obtain ⟨rest, hpoint⟩ := h.waiting t hwaiting
      have hknows : Knows (script t) (left (s.point t)) s.data := hout.knows t
      rw [hpoint] at hknows
      exact hnone t (hknows.1.subset List.mem_cons_self)

omit [DecidableEq T] in
/-- The count goes down from the first one by the calls made at most. -/
theorem Counted.bounds (h : Counted script c s) (hout : (outline script).Holds s) :
    c - (∑ t, counts (script t) : Nat) ≤ s.data ∧ s.data ≤ c := by
  have hle : ∑ t, counts (left (s.point t)) ≤ ∑ t, counts (script t) :=
    Finset.sum_le_sum fun t _ ↦ (hout.knows t).1.sublist.count_le LatchCall.countDown
  have htotal := h.total
  omega

/-- **The latch.**  In every run of any threads that call `wait` and `countDown`: each call of
`countDown` counts once; the count stays an `int` if the first one is and the calls cannot take it
below the least; no thread passes a `wait` before the count is down to zero; and where nothing goes
on, all calls are over if and only if the calls of `countDown` that the threads make before their
first `wait` are enough, or nobody waits.  No thread is left behind by a lost wake-up. -/
theorem latch_opens {tid : T → Int} {ls : List (Label T)}
    {s : State T (Locked Int) (Mutex.Point LatchPoint)}
    (h : Trace.run (step (Mutex.methods tid code)) (init script c) ls = some s) :
    (s.data.data + (∑ t, counts (script t) : Nat) =
      c + (∑ t, counts (left (s.point t).client) : Nat)) ∧
    (-2 ^ 31 ≤ c - (∑ t, counts (script t) : Nat) → c < 2 ^ 31 →
      -2 ^ 31 ≤ s.data.data ∧ s.data.data < 2 ^ 31) ∧
    (∀ t, waits (left (s.point t).client) < waits (script t) → s.data.data ≤ 0) ∧
    (Outline.Idle (Mutex.methods tid code) s → ((∀ t, (s.point t).client = .call []) ↔
      c ≤ (∑ t, firstCounts (script t) : Nat) ∨ ∀ t, .wait ∉ script t)) := by
  have hinit : (outline script).Holds (State.init (fun t ↦ .call (script t)) c) := by
    refine Outline.init_holds (fun t ↦ id) (fun t ↦ ⟨List.suffix_rfl, fun hless ↦ ?_⟩)
      (fun _ ↦ rfl)
    exact absurd hless (lt_irrefl _)
  obtain ⟨⟨ls', -, hrun⟩, hrec⟩ := Mutex.run_recorded (outline_valid script) hinit h
  have hcounted : Counted script c (Mutex.erase s) := by
    have hboth := Trace.run_inv (I := fun u ↦ (outline script).Holds u ∧ Counted script c u)
      (fun u l v hu hstep ↦ ⟨(outline_valid script).step hu.1 hstep,
        step_counted hu.1 hu.2 hstep⟩) ⟨hinit, init_counted⟩ hrun
    exact hboth.2
  obtain ⟨hlow, hhigh⟩ := hcounted.bounds hrec.outline
  refine ⟨hcounted.total, fun hleast hmost ↦ ⟨hleast.trans hlow, lt_of_le_of_lt hhigh hmost⟩,
    fun t ↦ (hrec.outline.knows t).2, fun hidle ↦ ?_⟩
  exact hcounted.idle hrec.outline (hrec.idle hidle)

end

/-- One thread waits until the other has counted. -/
theorem latch_opens_two_threads :
    ∃ s, Trace.run (step (Mutex.methods (fun t : Bool ↦ if t then 8 else 7) code))
        (init (fun t ↦ if t then [.wait] else [.countDown]) 1)
        [.run true, .run true, .run true, .run true, .run true, .run false, .run false, .run false,
          .run false, .run false, .run false, .run true, .run true, .run true, .run true,
          .run true] = some s ∧
      s.data.data + 1 = 1 ∧ s.data.data ≤ 0 ∧ ∀ t, (s.point t).client = .call [] := by
  obtain ⟨s, hs, hpoint, hnone, hsignal⟩ :
      ∃ s, Trace.run (step (Mutex.methods (fun t : Bool ↦ if t then 8 else 7) code))
          (init (fun t ↦ if t then [.wait] else [.countDown]) 1)
          [.run true, .run true, .run true, .run true, .run true, .run false, .run false,
            .run false, .run false, .run false, .run false, .run true, .run true, .run true,
            .run true, .run true] = some s ∧
        (s.point true).client = .call [] ∧
        (∀ t, step (Mutex.methods (fun t : Bool ↦ if t then 8 else 7) code) s (.run t) = none) ∧
        ∀ t u, step (Mutex.methods (fun t : Bool ↦ if t then 8 else 7) code) s (.signal t u) =
          none := by
    refine ⟨_, rfl, rfl, fun t ↦ ?_, fun t u ↦ ?_⟩
    · cases t <;> rfl
    · cases t <;> rfl
  obtain ⟨htotal, -, hpassed, hover⟩ := latch_opens hs
  have hall := (hover ⟨hnone, hsignal⟩).mpr (.inl (by decide))
  refine ⟨s, hs, ?_, hpassed true ?_, hall⟩
  · simp only [hall] at htotal
    exact htotal
  · rw [hpoint]
    decide

end CountDownLatch

end Netlib
