import Netlib.Lib.FdTable
import Netlib.Lib.Run

/-!
# `netlib::Acceptor`

What `handleRead` does with a connection that waits in the listen queue (`net/Acceptor.cc`,
`net/Socket.cc`, `net/SockFunc.cc`), over the system calls it makes and the `errno` they leave.  The
descriptor `_idleFd` is held in reserve for the moment when the process has no other.
-/

namespace Netlib

inductive Errno where
  | unset
  | EAGAIN
  | EBADF
  | EMFILE
deriving DecidableEq, Repr

/-- What the system calls read and write: the descriptors of the process, the queue of the listening
socket, and `errno`. -/
structure Process (A : Type) where
  fds : FdTable
  backlog : List A
  errno : Errno

namespace Process

variable {A : Type}

def IsOpen (p : Process A) (fd : Int) : Prop := 0 ≤ fd ∧ fd.toNat ∈ p.fds.opened

instance (p : Process A) (fd : Int) : Decidable (p.IsOpen fd) := inferInstanceAs (Decidable (_ ∧ _))

/-- `::accept`, with the address it stores; the descriptor is taken before the queue is looked
at. -/
def accept (p : Process A) : Int × Option A × Process A :=
  match p.fds.alloc with
  | none => (-1, none, { p with errno := .EMFILE })
  | some (fd, fds) =>
    match p.backlog with
    | [] => (-1, none, { p with errno := .EAGAIN })
    | peer :: rest => (fd, some peer, { p with fds := fds, backlog := rest })

/-- `::open` of a file that exists. -/
def openFile (p : Process A) : Int × Process A :=
  match p.fds.alloc with
  | none => (-1, { p with errno := .EMFILE })
  | some (fd, fds) => (fd, { p with fds := fds })

def close (p : Process A) (fd : Int) : Process A :=
  if p.IsOpen fd then { p with fds := p.fds.release fd.toNat } else { p with errno := .EBADF }

/-- `::fcntl`; the flags of a descriptor decide nothing here. -/
def fcntl (p : Process A) (fd : Int) : Process A :=
  if p.IsOpen fd then p else { p with errno := .EBADF }

variable {p : Process A} {n : Nat} {fds : FdTable}

@[simp] theorem isOpen_natCast : p.IsOpen (n : Int) ↔ n ∈ p.fds.opened := by simp [IsOpen]

theorem accept_of_alloc (halloc : p.fds.alloc = some (n, fds)) {peer : A} {rest : List A}
    (hback : p.backlog = peer :: rest) :
    p.accept = ((n : Int), some peer, { p with fds := fds, backlog := rest }) := by
  simp only [accept, halloc, hback]

theorem openFile_of_alloc (halloc : p.fds.alloc = some (n, fds)) :
    p.openFile = ((n : Int), { p with fds := fds }) := by
  simp only [openFile, halloc]

theorem close_of_mem (h : n ∈ p.fds.opened) :
    p.close (n : Int) = { p with fds := p.fds.release n } := by
  rw [close, if_pos (isOpen_natCast.mpr h), Int.toNat_natCast]

end Process

namespace SockFunc

variable {A : Type}

/-- F_GETFL and F_SETFL, on whatever descriptor it is given. -/
def setNoBlockAndCloseOnExec (p : Process A) (fd : Int) : Process A := (p.fcntl fd).fcntl fd

def accept (p : Process A) : Int × Option A × Process A :=
  let (newFd, addr, p) := p.accept
  (newFd, addr, setNoBlockAndCloseOnExec p newFd)

def close (p : Process A) (fd : Int) : Process A := p.close fd

end SockFunc

/-- `Socket::accept`; `*peerAddr` is set for a connection only. -/
def Socket.accept {A : Type} (p : Process A) : Int × Option A × Process A :=
  let (newFd, addr, p) := SockFunc.accept p
  (newFd, if 0 ≤ newFd then addr else none, p)

structure Acceptor (A : Type) where
  process : Process A
  /-- Whether `_newConnectionCallBack` is set. -/
  newConnectionCallBack : Bool
  idleFd : Int
  /-- The calls of `_newConnectionCallBack`. -/
  connections : List (Int × Option A)

namespace Acceptor

variable {A : Type}

/-- What `handleRead` does when `errno` is EMFILE. -/
def dropConnection (a : Acceptor A) : Acceptor A :=
  let p := a.process.close a.idleFd
  let (fd, _, p) := p.accept
  let p := p.close fd
  let (idleFd, p) := p.openFile
  { a with process := p, idleFd := idleFd }

def handleRead (a : Acceptor A) : Acceptor A :=
  let (connFd, peerAddr, p) := Socket.accept a.process
  if 0 ≤ connFd then
    if a.newConnectionCallBack then
      { a with process := p, connections := a.connections ++ [(connFd, peerAddr)] }
    else { a with process := SockFunc.close p connFd }
  -- LOG_SYSERR leaves `errno` alone
  else if p.errno = .EMFILE then { a with process := p }.dropConnection
  else { a with process := p }

inductive Label (A : Type) where
  /-- A client connects. -/
  | connect (peer : A)
  | handleRead
deriving DecidableEq, Repr

def step (a : Acceptor A) : Label A → Option (Acceptor A)
  | .connect peer =>
    some { a with process := { a.process with backlog := a.process.backlog ++ [peer] } }
  | .handleRead => some a.handleRead

/-- One connection is taken from the queue and closed: the reserve is there again, and as many
descriptors are open as before. -/
structure Recovers (a b : Acceptor A) : Prop where
  removed : b.process.backlog = a.process.backlog.tail
  reserve : b.process.IsOpen b.idleFd
  count : b.process.fds.opened.card = a.process.fds.opened.card

/-! ## 1. What `errno` is behind `Socket::accept` -/

section Errno

variable {p q : Process A} {fd : Int} {peerAddr : Option A}

theorem setNoBlockAndCloseOnExec_neg (h : fd < 0) :
    SockFunc.setNoBlockAndCloseOnExec p fd = { p with errno := .EBADF } := by
  have hclosed (p : Process A) : ¬ p.IsOpen fd := fun ho ↦ absurd ho.1 (by omega)
  simp [SockFunc.setNoBlockAndCloseOnExec, Process.fcntl, hclosed]

theorem setNoBlockAndCloseOnExec_open (h : p.IsOpen fd) :
    SockFunc.setNoBlockAndCloseOnExec p fd = p := by
  simp [SockFunc.setNoBlockAndCloseOnExec, Process.fcntl, h]

/-- A connection is accepted, or nothing happens but that `errno` says EBADF. -/
theorem socketAccept_cases (h : Socket.accept p = (fd, peerAddr, q)) :
    (fd < 0 ∧ q = { p with errno := .EBADF } ∧ (p.fds.Full ∨ p.backlog = [])) ∨
      ∃ (n : Nat) (fds : FdTable) (peer : A) (rest : List A), fd = n ∧ peerAddr = some peer ∧ p.fds.alloc = some (n, fds) ∧
        p.backlog = peer :: rest ∧ q = { p with fds := fds, backlog := rest } := by
  unfold Socket.accept SockFunc.accept at h
  cases halloc : p.fds.alloc with
  | none =>
    simp only [Process.accept, halloc] at h
    rw [setNoBlockAndCloseOnExec_neg (by decide)] at h
    cases h
    exact Or.inl ⟨by decide, rfl, Or.inl (FdTable.alloc_eq_none.mp halloc)⟩
  | some taken =>
    obtain ⟨n, fds⟩ := taken
    cases hback : p.backlog with
    | nil =>
      simp only [Process.accept, halloc, hback] at h
      rw [setNoBlockAndCloseOnExec_neg (by decide)] at h
      cases h
      exact Or.inl ⟨by decide, rfl, Or.inr rfl⟩
    | cons peer rest =>
      have hopen : Process.IsOpen { p with fds := fds, backlog := rest } (n : Int) :=
        Process.isOpen_natCast.mpr (FdTable.mem_of_alloc halloc)
      simp only [Process.accept_of_alloc halloc hback, setNoBlockAndCloseOnExec_open hopen,
        if_pos (Int.natCast_nonneg n)] at h
      cases h
      exact Or.inr ⟨n, fds, peer, rest, rfl, rfl, rfl, rfl, rfl⟩

end Errno

/-! ## 2. One `handleRead` -/

section Handle

variable {a : Acceptor A}

/-- The branch for EMFILE is not among what `handleRead` can do. -/
theorem handleRead_cases (a : Acceptor A) :
    ((a.process.fds.Full ∨ a.process.backlog = []) ∧
        a.handleRead = { a with process := { a.process with errno := .EBADF } }) ∨
      ∃ (n : Nat) (fds : FdTable) (peer : A) (rest : List A),
        a.process.fds.alloc = some (n, fds) ∧ a.process.backlog = peer :: rest ∧
        a.handleRead =
          let p := { a.process with fds := fds, backlog := rest }
          if a.newConnectionCallBack then
            { a with process := p, connections := a.connections ++ [((n : Int), some peer)] }
          else { a with process := p.close n } := by
  unfold handleRead
  rcases haccept : Socket.accept a.process with ⟨connFd, peerAddr, p⟩
  dsimp only
  rcases socketAccept_cases haccept with
    ⟨hneg, rfl, hnone⟩ | ⟨n, fds, peer, rest, rfl, rfl, halloc, hback, rfl⟩
  · refine Or.inl ⟨hnone, ?_⟩
    rw [if_neg (by omega), if_neg (by simp)]
  · refine Or.inr ⟨n, fds, peer, rest, halloc, hback, ?_⟩
    rw [if_pos (Int.natCast_nonneg n)]
    rfl

theorem handleRead_full (hfull : a.process.fds.Full) :
    a.handleRead = { a with process := { a.process with errno := .EBADF } } := by
  rcases a.handleRead_cases with ⟨-, heq⟩ | ⟨n, fds, peer, rest, halloc, -⟩
  · exact heq
  · rw [FdTable.alloc_eq_none.mpr hfull] at halloc
    cases halloc

/-- With a free descriptor the first connection goes to the callback. -/
theorem handleRead_free (hcall : a.newConnectionCallBack = true) {n : Nat} {fds : FdTable}
    (halloc : a.process.fds.alloc = some (n, fds)) {peer : A} {rest : List A}
    (hback : a.process.backlog = peer :: rest) :
    a.handleRead = { a with
      process := { a.process with fds := fds, backlog := rest }
      connections := a.connections ++ [((n : Int), some peer)] } := by
  rcases a.handleRead_cases with ⟨hnone, -⟩ | ⟨n', fds', peer', rest', halloc', hback', heq⟩
  · rcases hnone with hfull | hempty
    · rw [FdTable.alloc_eq_none.mpr hfull] at halloc
      cases halloc
    · rw [hback] at hempty
      cases hempty
  · rw [halloc] at halloc'
    rw [hback] at hback'
    cases halloc'
    cases hback'
    rw [heq]
    exact if_pos hcall

/-- The branch itself would do what it is for. -/
theorem dropConnection_recovers (hfull : a.process.fds.Full)
    (hidle : a.process.IsOpen a.idleFd) {peer : A} {rest : List A}
    (hback : a.process.backlog = peer :: rest) : a.Recovers a.dropConnection := by
  obtain ⟨n, hn⟩ : ∃ n : Nat, a.idleFd = n := ⟨a.idleFd.toNat, (Int.toNat_of_nonneg hidle.1).symm⟩
  have hmem : n ∈ a.process.fds.opened := by
    have := hidle.2
    rwa [hn, Int.toNat_natCast] at this
  have halloc := hfull.release_alloc hmem
  -- the descriptor given back goes to the connection, and then to the reserve again
  have hclose : a.process.close n = { a.process with fds := a.process.fds.release n } :=
    Process.close_of_mem hmem
  have haccept := Process.accept_of_alloc
    (p := { a.process with fds := a.process.fds.release n }) halloc hback
  have hclose' := Process.close_of_mem (p := { a.process with backlog := rest }) hmem
  have hopen := Process.openFile_of_alloc
    (p := { a.process with fds := a.process.fds.release n, backlog := rest }) halloc
  have hdrop : a.dropConnection = { a with process := { a.process with backlog := rest } } := by
    simp only [dropConnection, hn, hclose, haccept, hclose', hopen]
  rw [hdrop]
  exact ⟨by simp [hback], hidle, rfl⟩

end Handle

/-! ## 3. Runs -/

section Runs

variable {a b : Acceptor A} {l : Label A}

def Label.arrival : Label A → Option A
  | .connect peer => some peer
  | .handleRead => none

/-- The connections in the order they came: those handed to the callback, and those in the queue. -/
def arrived (a : Acceptor A) : List (Option A) :=
  a.connections.map Prod.snd ++ a.process.backlog.map some

theorem step_arrived (hcall : a.newConnectionCallBack = true) (hstep : a.step l = some b) :
    b.newConnectionCallBack = true ∧ b.arrived = a.arrived ++ l.arrival.toList.map some := by
  cases l with
  | connect peer =>
    cases hstep
    exact ⟨hcall, by simp [arrived, Label.arrival]⟩
  | handleRead =>
    cases hstep
    rcases a.handleRead_cases with ⟨-, heq⟩ | ⟨n, fds, peer, rest, halloc, hback, -⟩
    · rw [heq]
      exact ⟨hcall, by simp [arrived, Label.arrival]⟩
    · rw [handleRead_free hcall halloc hback]
      exact ⟨hcall, by simp [arrived, Label.arrival, hback]⟩

/-- No connection is lost, handed over twice, or handed over out of order. -/
theorem run_arrived {ls : List (Label A)} (hcall : a.newConnectionCallBack = true)
    (h : Trace.run step a ls = some b) :
    b.arrived = a.arrived ++ (ls.filterMap Label.arrival).map some := by
  induction ls generalizing a with
  | nil =>
    cases h
    exact (List.append_nil _).symm
  | cons l ls ih =>
    obtain ⟨m, hm, hrest⟩ := Trace.run_cons_eq_some.mp h
    obtain ⟨hcall', harrived⟩ := step_arrived hcall hm
    rw [ih hcall' hrest, harrived]
    cases hl : l.arrival <;> simp [hl]

/-- With a full table a step takes nothing from the queue, and the table stays full. -/
theorem step_full (hfull : a.process.fds.Full) (hstep : a.step l = some b) :
    b.process.fds.Full ∧ a.process.backlog <+: b.process.backlog := by
  cases l with
  | connect peer =>
    cases hstep
    exact ⟨hfull, List.prefix_append ..⟩
  | handleRead =>
    cases hstep
    rw [handleRead_full hfull]
    exact ⟨hfull, List.prefix_rfl⟩

theorem run_full {ls : List (Label A)} (hfull : a.process.fds.Full)
    (h : Trace.run step a ls = some b) : a.process.backlog <+: b.process.backlog := by
  have hinv := Trace.run_inv
    (I := fun m : Acceptor A ↦ m.process.fds.Full ∧ a.process.backlog <+: m.process.backlog)
    (fun _ _ _ hm hstep ↦
      ⟨(step_full hm.1 hstep).1, hm.2.trans (step_full hm.1 hstep).2⟩) ⟨hfull, List.prefix_rfl⟩ h
  exact hinv.2

/-- With a full table no `handleRead` recovers, and no run of them, with clients connecting in
between, takes a connection from the queue. -/
theorem handleRead_wedges (hfull : a.process.fds.Full) (hback : a.process.backlog ≠ []) :
    ¬ a.Recovers a.handleRead ∧
      ∀ ls b, Trace.run step a ls = some b → a.process.backlog <+: b.process.backlog := by
  refine ⟨fun hrec ↦ ?_, fun ls b h ↦ run_full hfull h⟩
  have hremoved := hrec.removed
  rw [handleRead_full hfull] at hremoved
  -- the queue is as long as before
  have hlen := congrArg List.length hremoved
  have hpos := List.length_pos_iff.mpr hback
  simp only [List.length_tail] at hlen
  omega

/-- Five descriptors, the last of them the reserve, and two clients. -/
theorem handleRead_wedges_five :
    let a : Acceptor Nat := ⟨⟨.filled 5, [7, 8], .unset⟩, true, 4, []⟩
    a.process.fds.Full ∧ a.process.backlog ≠ [] ∧ a.process.IsOpen a.idleFd ∧
      ¬ a.Recovers a.handleRead ∧
      ∀ ls b, Trace.run step a ls = some b → [7, 8] <+: b.process.backlog := by
  have hfull : (FdTable.filled 5).Full := FdTable.filled_full 5
  exact ⟨hfull, by decide, by decide, handleRead_wedges hfull (by decide)⟩

/-- Three times `handleRead`, and the first client still waits. -/
theorem handleRead_spins :
    let a : Acceptor Nat := ⟨⟨.filled 5, [7], .unset⟩, true, 4, []⟩
    ¬ a.Recovers a.handleRead ∧
      (Trace.run step a [.handleRead, .handleRead, .handleRead]).map (·.process.backlog) =
        some [7] := by
  refine ⟨fun hrec ↦ ?_, by decide⟩
  have hremoved : [7] = ([] : List Nat) := hrec.removed
  cases hremoved

end Runs

end Acceptor

end Netlib
