import Netlib.Net.TcpServer

/-!
# The table of a `TcpServer`

A close travels from the loop of the connection to the loop of the server and back, through two
queues, while connections are made in the same way.  What the loops have run and will run decides
what `_connections` holds; the order of their steps does not.
-/

namespace Netlib

namespace TcpServer

/-! ## 1. The names -/

section Names

variable {s : TcpServer}

/-- `snprintf` has room for every number. -/
theorem conName_natCast {n : Nat} (hn : n < 2 ^ 31) :
    s.conName n = s.name ++ ('-' :: s.ipPort ++ '#' :: Nat.toDigits 10 n) := by
  have hdigits : (Nat.toDigits 10 n).length ≤ 10 :=
    SockAddr.toDigits_length_le (by decide) (lt_trans hn (by decide))
  have haddr := s.listenAddr.toIpPort_length_le
  rw [conName, snprintf, formatInt_natCast, List.take_of_length_le]
  simp only [List.length_append, List.length_cons, ipPort]
  omega

theorem conName_injective {m n : Nat} (hm : m < 2 ^ 31) (hn : n < 2 ^ 31)
    (h : s.conName m = s.conName n) : m = n := by
  rw [conName_natCast hm, conName_natCast hn] at h
  have hdigits := List.append_cancel_left (List.append_cancel_left h)
  exact toDigits_injective (List.cons.inj hdigits).2

end Names

/-! ## 2. What holds in every state -/

/-- The loop of the connection with the number `k`: the loops of the pool take turns. -/
def loopOf (s : TcpServer) (k : Nat) : LoopId :=
  if s.numThreads = 0 then .base else .io (k % s.numThreads)

/-- The table, the names and the calls of the connections are as they should be. -/
structure TableSound (s : TcpServer) : Prop where
  names : s.accepted.Pairwise fun (c d : ConnPtr) ↦ c.name ≠ d.name
  /-- No `newConnection` has overwritten an entry. -/
  inserted : ∀ fresh ∈ s.inserted, fresh = true
  /-- `_connections` holds what has been accepted and not removed. -/
  table : ∀ name conn, s.connections.lookup name = some conn ↔
    conn ∈ s.accepted ∧ ¬ s.Removed conn ∧ conn.name = name
  /-- The assert of `removeConnectionInLoop`. -/
  erased : ∀ n ∈ s.erased, n = 1
  loops : ∀ conn ∈ s.accepted, conn.loop = s.loopOf conn.id
  /-- On its loop a connection gets `connectEstablished` once, and behind it `conncetDestoryed` once
  if it has been removed. -/
  calls : ∀ conn ∈ s.accepted, s.callsOf conn.loop conn =
    if s.Removed conn then [.connectEstablished conn, .conncetDestoryed conn]
    else [.connectEstablished conn]
  elsewhere : ∀ i, ∀ conn ∈ s.accepted, i ≠ conn.loop → s.callsOf i conn = []

/-- The invariant, with the connections that have left the table: inside of
`removeConnectionInLoop` the functor has begun and its connection is still there. -/
structure Sound (gone : ConnPtr → Prop) (s : TcpServer) : Prop where
  nextConnId : s.nextConnId = CInt.toInt32 (s.accepted.length + 1)
  nextLoop : s.numThreads ≠ 0 → s.nextLoop = s.accepted.length % s.numThreads
  ids : ∀ (k : Nat) (conn : ConnPtr), s.accepted[k]? = some conn →
    conn.id = k ∧ conn.loop = s.loopOf k ∧ conn.name = s.conName ↑(k + 1)
  inserted : ∀ fresh ∈ s.inserted, fresh = true
  erased : ∀ n ∈ s.erased, n = 1
  table : ∀ name conn, s.connections.lookup name = some conn ↔
    conn ∈ s.accepted ∧ ¬ gone conn ∧ conn.name = name
  closed : ∀ conn ∈ s.closed, conn ∈ s.accepted
  /-- Each `handleClose` leads to one `removeConnectionInLoop`, on the loop of the server. -/
  removals : ∀ conn, (s.trace .base).count (.removeConnectionInLoop conn) = s.closed.count conn
  away : ∀ i conn, i ≠ .base → (s.trace i).count (.removeConnectionInLoop conn) = 0
  up : ∀ conn ∈ s.accepted, ¬ gone conn → s.callsOf conn.loop conn = [.connectEstablished conn]
  down : ∀ conn ∈ s.accepted, gone conn →
    s.callsOf conn.loop conn = [.connectEstablished conn, .conncetDestoryed conn]
  elsewhere : ∀ i conn, (conn ∈ s.accepted → i ≠ conn.loop) → s.callsOf i conn = []
  batch : ∀ i, (s.loops i).phase = .handling → (s.loops i).functors.batch = []

section Steps

variable {s u : TcpServer} {gone : ConnPtr → Prop} {conn : ConnPtr}

theorem Sound.id_lt (h : s.Sound gone) (hmem : conn ∈ s.accepted) :
    conn.id < s.accepted.length := by
  obtain ⟨k, hk⟩ := List.mem_iff_getElem?.mp hmem
  rw [(h.ids k conn hk).1]
  exact (List.getElem?_eq_some_iff.mp hk).1

theorem Sound.newConn_not_mem (h : s.Sound gone) : s.newConn ∉ s.accepted := fun hmem ↦
  (h.id_lt hmem).ne rfl

/-- Two connections of one name are one, as long as the numbers last. -/
theorem Sound.eq_of_name (h : s.Sound gone) (hfew : s.accepted.length < 2 ^ 31) {c d : ConnPtr}
    (hc : c ∈ s.accepted) (hd : d ∈ s.accepted) (hname : c.name = d.name) : c = d := by
  obtain ⟨k, hk⟩ := List.mem_iff_getElem?.mp hc
  obtain ⟨m, hm⟩ := List.mem_iff_getElem?.mp hd
  have hklt := (List.getElem?_eq_some_iff.mp hk).1
  have hmlt := (List.getElem?_eq_some_iff.mp hm).1
  rw [(h.ids k c hk).2.2, (h.ids m d hm).2.2] at hname
  have hkm := conName_injective (by omega) (by omega) hname
  obtain rfl : k = m := by omega
  exact Option.some.inj (hk.symm.trans hm)

/-- A change of the loops that leaves the traces alone. -/
theorem Sound.setLoop (h : s.Sound gone) {i : LoopId} {l : ServerLoop}
    (hl : l.called ++ l.functors.waiting = s.trace i)
    (hbatch : l.phase = .handling → l.functors.batch = []) : (s.setLoop i l).Sound gone := by
  have htrace := trace_setLoop hl
  have hcalls (j : LoopId) (conn : ConnPtr) : (s.setLoop i l).callsOf j conn = s.callsOf j conn := by
    rw [callsOf, htrace j, callsOf]
  refine ⟨h.nextConnId, h.nextLoop, h.ids, h.inserted, h.erased, h.table, h.closed, ?_, ?_, ?_, ?_, ?_, ?_⟩
  · intro conn
    rw [htrace]
    exact h.removals conn
  · intro j conn hj
    rw [htrace]
    exact h.away j conn hj
  · intro conn hmem hgone
    rw [hcalls]
    exact h.up conn hmem hgone
  · intro conn hmem hgone
    rw [hcalls]
    exact h.down conn hmem hgone
  · intro j conn hj
    rw [hcalls]
    exact h.elsewhere j conn hj
  · intro j hphase
    rw [setLoop_loops] at hphase ⊢
    split at hphase
    · rename_i hj
      rw [if_pos hj]
      exact hbatch hphase
    · rename_i hj
      rw [if_neg hj]
      exact h.batch j hphase

theorem Inserts.batch_nil {i : LoopId} {f : ServerFunctor} (hins : s.Inserts u i f)
    (h : s.Sound gone) (j : LoopId) (hphase : (u.loops j).phase = .handling) :
    (u.loops j).functors.batch = [] := by
  rw [hins.batch]
  exact h.batch j (by rw [← hins.phase]; exact hphase)

/-- Below the bound the number has not wrapped. -/
theorem Sound.nextConnId_eq (h : s.Sound gone) (hfew : s.accepted.length + 1 < 2 ^ 31) :
    s.nextConnId = ↑(s.accepted.length + 1) := by
  rw [h.nextConnId, CInt.toInt32_eq (by omega)]
  push_cast
  rfl

/-- The name of a new connection is not in use. -/
theorem Sound.newConn_name_ne (h : s.Sound gone) (hfew : s.accepted.length + 1 < 2 ^ 31)
    (hmem : conn ∈ s.accepted) : conn.name ≠ s.newConn.name := by
  -- the names are made of the numbers, and the numbers have not wrapped
  obtain ⟨k, hk⟩ := List.mem_iff_getElem?.mp hmem
  have hklt := (List.getElem?_eq_some_iff.mp hk).1
  intro hname
  have hnew : s.newConn.name = s.conName ↑(s.accepted.length + 1) := by
    rw [newConn, h.nextConnId_eq hfew]
  rw [(h.ids k conn hk).2.2, hnew] at hname
  have := conName_injective (by omega) hfew hname
  omega

theorem Sound.getNextLoop (h : s.Sound gone) : s.getNextLoop.1 = s.loopOf s.accepted.length ∧
    (s.numThreads ≠ 0 → s.getNextLoop.2 = (s.accepted.length + 1) % s.numThreads) := by
  unfold TcpServer.getNextLoop loopOf
  by_cases hn : s.numThreads = 0
  · rw [if_pos hn, if_pos hn]
    exact ⟨rfl, fun hne ↦ (hne hn).elim⟩
  · have hnext := h.nextLoop hn
    have hlt := Nat.mod_lt s.accepted.length (Nat.pos_of_ne_zero hn)
    rw [if_neg hn, if_neg hn, hnext]
    refine ⟨rfl, fun _ ↦ ?_⟩
    dsimp only
    rw [← Nat.mod_add_mod s.accepted.length s.numThreads 1]
    split
    · -- behind the last loop comes the first
      have hlast : s.accepted.length % s.numThreads + 1 = s.numThreads := by omega
      rw [hlast, Nat.mod_self]
    · exact (Nat.mod_eq_of_lt (by omega)).symm

theorem Sound.newConn_fresh (h : s.Sound gone) (hfew : s.accepted.length + 1 < 2 ^ 31) :
    s.newConn.name ∉ s.connections := by
  rw [← AList.lookup_isSome, Bool.not_eq_true, Option.isSome_eq_false_iff,
    Option.isNone_iff_eq_none]
  by_contra hsome
  obtain ⟨conn, hconn⟩ := Option.ne_none_iff_exists'.mp hsome
  obtain ⟨hmem, -, hname⟩ := (h.table _ _).mp hconn
  exact h.newConn_name_ne hfew hmem hname

/-- The new connection has the next place, the next loop and the next name. -/
theorem Sound.accept_ids (h : s.Sound gone) (hfew : s.accepted.length + 1 < 2 ^ 31) (k : Nat)
    (conn : ConnPtr) (hk : (s.accepted ++ [s.newConn])[k]? = some conn) :
    conn.id = k ∧ conn.loop = s.loopOf k ∧ conn.name = s.conName ↑(k + 1) := by
  by_cases hlt : k < s.accepted.length
  · rw [List.getElem?_append_left hlt] at hk
    exact h.ids k conn hk
  · rw [List.getElem?_append_right (by omega)] at hk
    obtain ⟨hzero, rfl⟩ : k - s.accepted.length = 0 ∧ s.newConn = conn := by
      simpa [List.getElem?_singleton] using hk
    obtain rfl : k = s.accepted.length := by omega
    refine ⟨rfl, h.getNextLoop.1, ?_⟩
    show s.conName s.nextConnId = s.conName ↑(s.accepted.length + 1)
    rw [h.nextConnId_eq hfew]

/-- The table with the new connection. -/
theorem Sound.accept_table (h : s.Sound gone) (hup : ¬ gone s.newConn)
    (hfew : s.accepted.length + 1 < 2 ^ 31) (name : List Char) (conn : ConnPtr) :
    (s.connections.insert s.newConn.name s.newConn).lookup name = some conn ↔
      (conn ∈ s.accepted ∨ conn = s.newConn) ∧ ¬ gone conn ∧ conn.name = name := by
  by_cases hname : name = s.newConn.name
  · -- its own name, which no other has
    subst hname
    rw [AList.lookup_insert, Option.some.injEq]
    constructor
    · rintro rfl
      exact ⟨Or.inr rfl, hup, rfl⟩
    · rintro ⟨hmem | rfl, -, hname⟩
      · exact (h.newConn_name_ne hfew hmem hname).elim
      · rfl
  · rw [AList.lookup_insert_ne hname, h.table]
    constructor
    · rintro ⟨hmem, hrest⟩
      exact ⟨Or.inl hmem, hrest⟩
    · rintro ⟨hmem | rfl, hgone, hconn⟩
      · exact ⟨hmem, hgone, hconn⟩
      · exact (hname hconn.symm).elim

/-- `newConnection`, with `connectEstablished` queued or made at once. -/
theorem Sound.accept (h : s.Sound gone) (hup : ¬ gone s.newConn)
    (hfew : s.accepted.length + 1 < 2 ^ 31) {loops : LoopId → ServerLoop}
    (hins : s.Inserts { s.accept with loops := loops } s.newConn.loop
      (.connectEstablished s.newConn)) : Sound gone { s.accept with loops := loops } := by
  have hnew := h.newConn_not_mem
  have hold {conn : ConnPtr} (hmem : conn ∈ s.accepted) : conn ≠ s.newConn := by
    rintro rfl
    exact hnew hmem
  have hmem_iff (conn : ConnPtr) :
      conn ∈ s.accept.accepted ↔ conn ∈ s.accepted ∨ conn = s.newConn := by
    simp [TcpServer.accept]
  have hother {conn : ConnPtr} (hne : conn ≠ s.newConn) (j : LoopId) :
      TcpServer.callsOf { s.accept with loops := loops } j conn = s.callsOf j conn :=
    hins.callsOf_of_not (by simpa [ServerFunctor.isCallOf] using hne.symm) j
  constructor
  · show CInt.toInt32 (s.nextConnId + 1) = CInt.toInt32 (↑(s.accepted ++ [s.newConn]).length + 1)
    rw [h.nextConnId_eq hfew, List.length_append, List.length_singleton]
  · intro hn
    show s.getNextLoop.2 = (s.accepted ++ [s.newConn]).length % s.numThreads
    rw [h.getNextLoop.2 hn, List.length_append, List.length_singleton]
  · exact h.accept_ids hfew
  · intro fresh hfresh
    rcases List.mem_append.mp hfresh with hfresh | hfresh
    · exact h.inserted fresh hfresh
    · rw [List.mem_singleton.mp hfresh]
      exact decide_eq_true (h.newConn_fresh hfew)
  · exact h.erased
  · intro name conn
    rw [hmem_iff]
    exact h.accept_table hup hfew name conn
  · exact fun conn hmem ↦ (hmem_iff conn).mpr (Or.inl (h.closed conn hmem))
  · intro conn
    show _ = s.closed.count conn
    rw [hins.count]
    simpa using h.removals conn
  · intro i conn hi
    rw [hins.count]
    simpa using h.away i conn hi
  · intro conn hmem hgone
    rcases (hmem_iff conn).mp hmem with hmem | rfl
    · rw [hother (hold hmem)]
      exact h.up conn hmem hgone
    · -- its `connectEstablished` is the only call of it there is
      exact hins.callsOf_of_nil (by simp [ServerFunctor.isCallOf])
        (h.elsewhere _ _ fun hmem ↦ (hnew hmem).elim)
  · intro conn hmem hgone
    rcases (hmem_iff conn).mp hmem with hmem | rfl
    · rw [hother (hold hmem)]
      exact h.down conn hmem hgone
    · exact (hup hgone).elim
  · intro i conn hi
    by_cases hconn : conn = s.newConn
    · subst hconn
      rw [hins.callsOf_of_ne (hi ((hmem_iff _).mpr (Or.inr rfl)))]
      exact h.elsewhere _ _ fun hmem ↦ (hnew hmem).elim
    · rw [hother hconn]
      exact h.elsewhere i conn fun hmem ↦ hi ((hmem_iff _).mpr (Or.inl hmem))
  · exact hins.batch_nil h

/-- A functor more that is no call of a connection; if it is a `removeConnectionInLoop`, it is that of
a `handleClose`. -/
theorem Sound.insert (h : s.Sound gone) {closed : List ConnPtr} {loops : LoopId → ServerLoop}
    {i : LoopId} {f : ServerFunctor} (hf : ∀ c, f.isCallOf c = false)
    (hins : s.Inserts { s with closed := closed, loops := loops } i f)
    (hclosed : ∀ c ∈ closed, c ∈ s.accepted)
    (hbase : ∀ c, f = .removeConnectionInLoop c → i = .base)
    (hcount : ∀ c, closed.count c =
      s.closed.count c + if f = .removeConnectionInLoop c then 1 else 0) :
    Sound gone { s with closed := closed, loops := loops } := by
  have hcalls (j : LoopId) (c : ConnPtr) := hins.callsOf_of_not (hf c) j
  refine ⟨h.nextConnId, h.nextLoop, h.ids, h.inserted, h.erased, h.table, hclosed, ?_, ?_, ?_, ?_, ?_,
    hins.batch_nil h⟩
  · intro c
    rw [hins.count, h.removals c, hcount]
    by_cases hc : f = .removeConnectionInLoop c
    · simp [hc, hbase c hc]
    · simp [hc]
  · intro j c hj
    rw [hins.count, h.away j c hj, if_neg, Nat.add_zero]
    rintro ⟨rfl, hc⟩
    exact hj (hbase c hc)
  · intro c hc hgone
    rw [hcalls]
    exact h.up c hc hgone
  · intro c hc hgone
    rw [hcalls]
    exact h.down c hc hgone
  · intro j c hj
    rw [hcalls]
    exact h.elsewhere j c hj

/-- `handleClose`: its `removeConnectionInLoop` is queued, or begins at once. -/
theorem Sound.close (h : s.Sound gone) (hmem : conn ∈ s.accepted)
    {loops : LoopId → ServerLoop}
    (hins : s.Inserts { s with closed := s.closed ++ [conn], loops := loops } .base
      (.removeConnectionInLoop conn)) :
    Sound gone { s with closed := s.closed ++ [conn], loops := loops } := by
  refine h.insert (fun _ ↦ rfl) hins ?_ (fun _ _ ↦ rfl) fun c ↦ ?_
  · intro c hc
    rcases List.mem_append.mp hc with hc | hc
    · exact h.closed c hc
    · rw [List.mem_singleton.mp hc]
      exact hmem
  · rw [List.count_append, List.count_singleton]
    simp

/-- The table without the connection: no other has its name. -/
theorem Sound.erase_table (h : s.Sound gone) (hmem : conn ∈ s.accepted)
    (hfew : s.accepted.length < 2 ^ 31) (name : List Char) (c : ConnPtr) :
    (s.connections.erase conn.name).lookup name = some c ↔
      c ∈ s.accepted ∧ ¬ (gone c ∨ c = conn) ∧ c.name = name := by
  by_cases hname : name = conn.name
  · subst hname
    rw [AList.lookup_erase]
    constructor
    · intro hnone
      cases hnone
    · rintro ⟨hc, hgone, hcname⟩
      exact (hgone (Or.inr (h.eq_of_name hfew hc hmem hcname))).elim
  · rw [AList.lookup_erase_ne hname, h.table]
    constructor
    · rintro ⟨hc, hgone, rfl⟩
      refine ⟨hc, ?_, rfl⟩
      rintro (hgone' | rfl)
      · exact hgone hgone'
      · exact hname rfl
    · rintro ⟨hc, hgone, hcname⟩
      exact ⟨hc, fun hgone' ↦ hgone (Or.inl hgone'), hcname⟩

/-- `removeConnectionInLoop` finds the connection in the table. -/
theorem Sound.removeConnectionInLoop (h : s.Sound gone) (hmem : conn ∈ s.accepted)
    (hup : ¬ gone conn) (hfew : s.accepted.length < 2 ^ 31) :
    (s.removeConnectionInLoop conn).Sound fun c ↦ gone c ∨ c = conn := by
  have hlookup := (h.table conn.name conn).mpr ⟨hmem, hup, rfl⟩
  have hfound : conn.name ∈ s.connections := by
    rw [← AList.lookup_isSome, hlookup]
    rfl
  have hins := removeConnectionInLoop_inserts s conn
  have hother {c : ConnPtr} (hne : c ≠ conn) (j : LoopId) :
      (s.removeConnectionInLoop conn).callsOf j c = s.callsOf j c :=
    hins.callsOf_of_not (by simpa [ServerFunctor.isCallOf] using hne.symm) j
  refine ⟨h.nextConnId, h.nextLoop, h.ids, h.inserted, ?_, ?_, h.closed, ?_, ?_, ?_, ?_, ?_,
    hins.batch_nil h⟩
  · intro n hn
    rcases List.mem_append.mp hn with hn | hn
    · exact h.erased n hn
    · rw [List.mem_singleton.mp hn, if_pos hfound]
  · exact h.erase_table hmem hfew
  · intro c
    show _ = s.closed.count c
    rw [hins.count]
    simpa using h.removals c
  · intro i c hi
    rw [hins.count]
    simpa using h.away i c hi
  · intro c hc hgone
    rw [not_or] at hgone
    rw [hother hgone.2]
    exact h.up c hc hgone.1
  · intro c hc hgone
    by_cases hne : c = conn
    · -- `conncetDestoryed` is queued behind its `connectEstablished`
      subst hne
      rw [removeConnectionInLoop_callsOf, h.up c hmem hup]
      rfl
    · rw [hother hne]
      exact h.down c hc (hgone.resolve_right hne)
  · intro i c hi
    by_cases hne : c = conn
    · subst hne
      rw [hins.callsOf_of_ne (hi hmem)]
      exact h.elsewhere i c fun _ ↦ hi hmem
    · rw [hother hne]
      exact h.elsewhere i c hi

/-! ## 3. The runs -/

theorem Sound.congr {gone' : ConnPtr → Prop} (h : s.Sound gone) (hgone : ∀ c, gone' c ↔ gone c) :
    s.Sound gone' := by
  obtain rfl : gone' = gone := funext fun c ↦ propext (hgone c)
  exact h

/-- The bounds of a run: fewer connections than numbers, and each closed at most once. -/
def Bounded (s : TcpServer) : Prop := s.closed.Nodup ∧ s.accepted.length < 2 ^ 31

/-- With each connection closed at most once, its `removeConnectionInLoop` has not run when it is
still to come. -/
theorem Sound.not_removed (h : s.Sound gone) (hnodup : s.closed.Nodup)
    (hmem : .removeConnectionInLoop conn ∈ (s.loops .base).functors.waiting) :
    ¬ s.Removed conn ∧ conn ∈ s.accepted := by
  have hcount := h.removals conn
  rw [trace, List.count_append] at hcount
  have hwait := List.count_pos_iff.mpr hmem
  have hclosed := List.nodup_iff_count_le_one.mp hnodup conn
  constructor
  · intro hremoved
    have := List.count_pos_iff.mpr hremoved
    omega
  · exact h.closed conn (List.count_pos_iff.mp (by omega))

theorem Sound.removed_mem (h : s.Sound gone) (hremoved : s.Removed conn) : conn ∈ s.closed := by
  have hcount := h.removals conn
  rw [trace, List.count_append] at hcount
  have := List.count_pos_iff.mpr hremoved
  exact List.count_pos_iff.mp (by omega)

/-- A loop thread that goes on without a functor. -/
theorem Sound.moves (h : s.Sound s.Removed) {i : LoopId} {l : ServerLoop}
    (hcalled : l.called = (s.loops i).called)
    (hwait : l.functors.waiting = (s.loops i).functors.waiting)
    (hbatch : l.phase = .handling → l.functors.batch = []) :
    (s.setLoop i l).Sound (s.setLoop i l).Removed := by
  refine (h.setLoop ?_ hbatch).congr fun c ↦ ?_
  · rw [hcalled, hwait]
    rfl
  · exact removed_setLoop hcalled

/-- The next functor of a loop. -/
theorem Sound.functor (h : s.Sound s.Removed) (hbounded : s.Bounded) {i : LoopId}
    {f : ServerFunctor} {q : Batch.Queue ServerFunctor} (hphase : (s.loops i).phase = .next)
    (hnext : (s.loops i).functors.next = some (f, q)) :
    ((s.setLoop i { s.loops i with functors := q }).call i f).Sound
      ((s.setLoop i { s.loops i with functors := q }).call i f).Removed := by
  have hwait := Batch.Queue.next_waiting hnext
  have hran : ((s.setLoop i { s.loops i with functors := q }).ran i f).Sound s.Removed := by
    rw [ran_popped]
    refine h.setLoop ?_ fun hhandling ↦ ?_
    · rw [trace, hwait, List.append_assoc]
      rfl
    · rw [hphase] at hhandling
      cases hhandling
  have hremoved (c : ConnPtr) : ((s.setLoop i { s.loops i with functors := q }).ran i f).Removed c ↔
      s.Removed c ∨ i = .base ∧ f = .removeConnectionInLoop c :=
    removed_ran.trans (or_congr_left (removed_setLoop rfl))
  cases f with
  | connectEstablished c | conncetDestoryed c => exact hran.congr fun c ↦ by simp [call, hremoved]
  | other =>
    have hsame := hran.congr fun c ↦ (hremoved c).trans (by simp)
    exact hsame.moves rfl rfl fun hhandling ↦ by cases hhandling
  | removeConnectionInLoop c =>
    -- it was queued on the loop of the server, and once
    obtain rfl : i = .base := by
      by_contra hi
      have hzero := h.away i c hi
      rw [trace, hwait] at hzero
      simp at hzero
    obtain ⟨hup, hmem⟩ : ¬ s.Removed c ∧ c ∈ s.accepted :=
      h.not_removed hbounded.1 (by simp [hwait])
    refine (hran.removeConnectionInLoop hmem hup hbounded.2).congr fun c' ↦ ?_
    rw [call, removed_removeConnectionInLoop, hremoved]
    simp [eq_comm]

theorem call_records (s : TcpServer) (i : LoopId) (f : ServerFunctor) :
    (s.call i f).closed = s.closed ∧ (s.call i f).accepted = s.accepted := by
  cases f with
  | connectEstablished | conncetDestoryed | removeConnectionInLoop | other => exact ⟨rfl, rfl⟩

theorem runInLoop_records (s : TcpServer) (caller i : LoopId) (f : ServerFunctor) :
    (s.runInLoop caller i f).closed = s.closed ∧
      (s.runInLoop caller i f).accepted = s.accepted := by
  unfold runInLoop
  split
  · exact call_records s i f
  · exact ⟨rfl, rfl⟩

/-- The records only grow. -/
theorem bounded_of_step {l : Label} (hbounded : u.Bounded) (hstep : s.step l = some u) :
    s.Bounded := by
  obtain ⟨hnodup, hfew⟩ := hbounded
  cases step_cases hstep with
  | newConnection =>
    rw [newConnection, (runInLoop_records ..).1] at hnodup
    rw [newConnection, (runInLoop_records ..).2, accept, List.length_append] at hfew
    exact ⟨hnodup, by omega⟩
  | handleClose =>
    rw [removeConnection, (runInLoop_records ..).1] at hnodup
    rw [removeConnection, (runInLoop_records ..).2] at hfew
    exact ⟨hnodup.of_append_left, hfew⟩
  | functor =>
    rw [(call_records ..).1] at hnodup
    rw [(call_records ..).2] at hfew
    exact ⟨hnodup, hfew⟩
  | queueInLoop | dpPendingFunctors | batchEnd | functorReturn => exact ⟨hnodup, hfew⟩

theorem Sound.newConnection (h : s.Sound s.Removed) (hfew : s.accepted.length + 1 < 2 ^ 31) :
    s.newConnection.Sound s.newConnection.Removed := by
  have hup : ¬ s.Removed s.newConn := fun hremoved ↦
    h.newConn_not_mem (h.closed _ (h.removed_mem hremoved))
  obtain ⟨loops, heq, hins⟩ := runInLoop_inserts s.accept .base s.newConn.loop s.newConn
  rw [TcpServer.newConnection, heq]
  refine (h.accept hup hfew (hins.of_loops rfl)).congr fun c ↦ ?_
  exact hins.called .base _ (by simp)

theorem Sound.handleClose (h : s.Sound s.Removed) (hmem : conn ∈ s.accepted)
    (hnodup : (s.closed ++ [conn]).Nodup) (hfew : s.accepted.length < 2 ^ 31) :
    ({ s with closed := s.closed ++ [conn] }.removeConnection conn).Sound
      ({ s with closed := s.closed ++ [conn] }.removeConnection conn).Removed := by
  unfold removeConnection runInLoop
  split
  · -- the loop of the server itself: the connection is removed at once
    have hup : ¬ s.Removed conn := fun hremoved ↦
      (List.nodup_append.mp hnodup).2.2 _ (h.removed_mem hremoved) _ (List.mem_singleton_self _) rfl
    have hbegun := h.close hmem
      ((ran_inserts { s with closed := s.closed ++ [conn] } .base _).of_loops rfl)
    refine (hbegun.removeConnectionInLoop hmem hup hfew).congr fun c ↦ ?_
    rw [call, removed_removeConnectionInLoop, removed_ran]
    simp [Removed, eq_comm]
  · refine (h.close hmem ((queueInLoop_inserts { s with closed := s.closed ++ [conn] } .base
      _).of_loops rfl)).congr fun c ↦ ?_
    unfold Removed
    rw [queueInLoop_called]

theorem step_sound {l : Label} (h : s.Sound s.Removed) (hbounded : u.Bounded)
    (hstep : s.step l = some u) : u.Sound u.Removed := by
  have hbefore := bounded_of_step hbounded hstep
  cases step_cases hstep with
  | newConnection =>
    have hfew := hbounded.2
    rw [newConnection, (runInLoop_records ..).2, accept, List.length_append] at hfew
    exact h.newConnection hfew
  | handleClose hmem =>
    have hnodup := hbounded.1
    rw [removeConnection, (runInLoop_records ..).1] at hnodup
    exact h.handleClose hmem hnodup hbefore.2
  | @queueInLoop i =>
    refine (h.insert (fun _ ↦ rfl) (queueInLoop_inserts s i .other) h.closed
      (fun _ hother ↦ by cases hother) fun c ↦ ?_).congr fun c ↦ ?_
    · simp
    · unfold Removed
      rw [queueInLoop_called]
  | @dpPendingFunctors i hphase =>
    exact h.moves rfl (Batch.Queue.take_waiting (h.batch i hphase)) fun hhandling ↦ by
      cases hhandling
  | functor hphase hnext => exact h.functor hbefore hphase hnext
  | batchEnd _ hnone => exact h.moves rfl rfl fun _ ↦ Batch.Queue.next_eq_none.mp hnone
  | functorReturn => exact h.moves rfl rfl fun hhandling ↦ by cases hhandling

theorem init_sound (name : List Char) (listenAddr : SockAddr) (numThreads : Nat) :
    (init name listenAddr numThreads).Sound (init name listenAddr numThreads).Removed := by
  constructor <;> simp [init, trace, callsOf, ServerLoop.init, Batch.Queue.empty,
    Batch.Queue.waiting, CInt.toInt32]

theorem Sound.tableSound (h : s.Sound s.Removed) (hbounded : s.Bounded) : s.TableSound where
  names := by
    rw [List.pairwise_iff_getElem]
    intro k m hk hm hlt hname
    obtain ⟨-, -, hkname⟩ := h.ids k _ (List.getElem?_eq_getElem hk)
    obtain ⟨-, -, hmname⟩ := h.ids m _ (List.getElem?_eq_getElem hm)
    rw [hkname, hmname] at hname
    have hfew := hbounded.2
    have := conName_injective (by omega) (by omega) hname
    omega
  inserted := h.inserted
  table := h.table
  erased := h.erased
  loops := fun conn hmem ↦ by
    obtain ⟨k, hk⟩ := List.mem_iff_getElem?.mp hmem
    obtain ⟨hid, hloop, -⟩ := h.ids k conn hk
    rw [hid, hloop]
  calls := fun conn hmem ↦ by
    split
    · rename_i hremoved
      exact h.down conn hmem hremoved
    · rename_i hremoved
      exact h.up conn hmem hremoved
  elsewhere := fun i conn _ hi ↦ h.elsewhere i conn fun _ ↦ hi

end Steps

/-- **The connection table.**  In every run of a started server with any number of I/O loops, in which
fewer than `2 ^ 31` connections are accepted and the `handleClose` of each runs at most once, whatever
the order in which the loops go on: the names of the connections differ and none is overwritten in
`_connections`, which holds those accepted whose `removeConnectionInLoop` has not run; every `erase`
there removes one entry; and each connection gets on its own loop one `connectEstablished` and behind
it, once it is removed, one `conncetDestoryed`. -/
theorem table_sound {name : List Char} {listenAddr : SockAddr} {numThreads : Nat}
    {ls : List Label} {s : TcpServer}
    (h : Trace.run step (init name listenAddr numThreads) ls = some s)
    (honce : s.closed.Nodup) (hfew : s.accepted.length < 2 ^ 31) : s.TableSound := by
  have hsound : s.Bounded → s.Sound s.Removed :=
    Trace.run_inv (I := fun s : TcpServer ↦ s.Bounded → s.Sound s.Removed)
      (fun _ _ _ hs hstep hbounded ↦
        step_sound (hs (bounded_of_step hbounded hstep)) hbounded hstep)
      (fun _ ↦ init_sound name listenAddr numThreads) h
  exact (hsound ⟨honce, hfew⟩).tableSound ⟨honce, hfew⟩

/-- Two I/O loops and three connections; the first is closed before the loop of the second has run
anything, and the third is made while the close is on its way. -/
theorem table_sound_two_loops :
    ∃ s : TcpServer, s.accepted.length = 3 ∧ s.connections.keys.length = 2 ∧ s.erased = [1] ∧
      s.TableSound := by
  obtain ⟨s, hrun, honce, haccepted, hkeys, herased⟩ : ∃ s : TcpServer,
      Trace.run step (init "echo".toList ⟨true, (0, 0, 0, 0), 2007⟩ 2)
        [.newConnection, .newConnection, .dpPendingFunctors (.io 0), .functor (.io 0),
          .functor (.io 0), .handleClose ⟨0, "echo-0.0.0.0:2007#1".toList, .io 0⟩,
          .newConnection, .dpPendingFunctors .base, .queueInLoop (.io 1), .functor .base,
          .dpPendingFunctors (.io 0), .functor (.io 0), .functor (.io 0), .functor (.io 0),
          .dpPendingFunctors (.io 1), .functor (.io 1), .functor (.io 1), .functorReturn (.io 1)] =
        some s ∧
      s.closed.Nodup ∧ s.accepted.length = 3 ∧ s.connections.keys.length = 2 ∧ s.erased = [1] :=
    ⟨_, rfl, by decide, rfl, rfl, rfl⟩
  exact ⟨s, haccepted, hkeys, herased, table_sound hrun honce (by rw [haccepted]; decide)⟩

end TcpServer

end Netlib
