import Tlpi.Lib.Fork
import Tlpi.Posix.Fds

set_option autoImplicit false

/-! # Becoming a daemon (daemons/become_daemon.c)

`becomeDaemon` forks twice. The original process and the first child exit, so that it is the second
child that returns from the call, in a session of which it is not the leader. This child clears the
file mode creation mask, changes to the root directory, closes all files and opens `/dev/null` as
its standard descriptors; the bits of `flags` turn each of the four off.
-/

namespace Tlpi.BecomeDaemon

def BD_NO_CHDIR : BitVec 32 := 1
def BD_NO_CLOSE_FILES : BitVec 32 := 2
def BD_NO_REOPEN_STD_FDS : BitVec 32 := 4
def BD_NO_UMASK0 : BitVec 32 := 8

def BD_MAX_CLOSE : ℤ := 8192

def STDIN_FILENO : ℕ := 0
def STDOUT_FILENO : ℕ := 1
def STDERR_FILENO : ℕ := 2

inductive File where
  | devNull
  | other (id : ℕ)
deriving DecidableEq, Repr

/-- A place in `becomeDaemon`, or the end of a process or of the call. `umask`, `chdir`, `files` and
`std` are the tests of `flags`. -/
inductive Pc where
  | fork1
  | exit1
  | setsid
  | fork2
  | exit2
  | umask
  | chdir
  | files
  | closeLoop (fd : ℕ)
  | std
  | openNull
  | dupOut
  | dupErr
  | returned (ret : ℤ)
  | exited
  | killed
deriving DecidableEq, Repr

/-- A process: whether it is in the session that `setsid` has made, whether it leads its session and
its process group, its file mode creation mask, whether its directory is the root, and its
descriptors. -/
structure Proc where
  pc : Pc
  newSession : Bool
  sessionLeader : Bool
  groupLeader : Bool
  umask : BitVec 12
  atRoot : Bool
  fds : FdTable File

/-- The call: its argument, the value of `sysconf (_SC_OPEN_MAX)`, and the process that makes it. -/
structure Setting where
  flags : BitVec 32
  openMax : ℤ
  sessionLeader : Bool
  groupLeader : Bool
  umask : BitVec 12
  atRoot : Bool
  fds : FdTable File

inductive Call where
  | go
  | fail
  | kill
deriving DecidableEq, Repr

def Pc.stopped : Pc → Bool
  | .returned _ => true
  | .exited => true
  | .killed => true
  | _ => false

variable (S : Setting)

def Setting.off (bit : BitVec 32) : Bool := decide (S.flags &&& bit ≠ 0)

/-- `maxfd`, an `int`. -/
def Setting.maxfd : ℤ :=
  let maxfd := (BitVec.ofInt 32 S.openMax).toInt
  if maxfd = -1 then BD_MAX_CLOSE else maxfd

/-- The steps. The results of `umask`, `chdir` and `close` are not looked at. -/
def go (x : Proc) : Option Proc :=
  match x.pc with
  | .exit1 => some { x with pc := .exited, fds := .empty }
  | .setsid =>
      if x.groupLeader then some { x with pc := .returned (-1) }
      else some { x with
        pc := .fork2
        newSession := true
        sessionLeader := true
        groupLeader := true }
  | .exit2 => some { x with pc := .exited, fds := .empty }
  | .umask => some { x with pc := .chdir, umask := if S.off BD_NO_UMASK0 then x.umask else 0 }
  | .chdir => some { x with pc := .files, atRoot := if S.off BD_NO_CHDIR then x.atRoot else true }
  | .files => some { x with pc := if S.off BD_NO_CLOSE_FILES then .std else .closeLoop 0 }
  | .closeLoop fd =>
      if (fd : ℤ) < S.maxfd then some { x with pc := .closeLoop (fd + 1), fds := x.fds.close fd }
      else some { x with pc := .std }
  | .std =>
      if S.off BD_NO_REOPEN_STD_FDS then some { x with pc := .returned 0 }
      else some { x with pc := .openNull, fds := x.fds.close STDIN_FILENO }
  | .openNull =>
      let (fd, fds) := x.fds.alloc .devNull
      some { x with pc := if fd ≠ STDIN_FILENO then .returned (-1) else .dupOut, fds := fds }
  | .dupOut =>
      (x.fds.dup2 STDIN_FILENO STDOUT_FILENO).map fun fds => { x with pc := .dupErr, fds := fds }
  | .dupErr =>
      (x.fds.dup2 STDIN_FILENO STDERR_FILENO).map fun fds =>
        { x with pc := .returned 0, fds := fds }
  | _ => none

/-- A call that fails; for `chdir` this changes nothing but the directory. -/
def fail (x : Proc) : Option Proc :=
  match x.pc with
  | .chdir => if S.off BD_NO_CHDIR then none else some { x with pc := .files }
  | .openNull => some { x with pc := .returned (-1) }
  | .dupOut => some { x with pc := .returned (-1) }
  | .dupErr => some { x with pc := .returned (-1) }
  | _ => none

def next (g : Unit) (_ : List Proc) (x : Proc) : Call → Option (Unit × Proc)
  | .go => (go S x).map fun y => (g, y)
  | .fail => (fail S x).map fun y => (g, y)
  | .kill => if x.pc.stopped then none else some (g, { x with pc := .killed, fds := .empty })

/-- The two calls of `fork`. A new process leads neither a session nor a group. -/
def Proc.fork (x : Proc) : Option (Fork Proc) :=
  match x.pc with
  | .fork1 => some
      { child := { x with pc := .setsid, sessionLeader := false, groupLeader := false }
        parent := { x with pc := .exit1 }
        failed := { x with pc := .returned (-1) } }
  | .fork2 => some
      { child := { x with pc := .umask, sessionLeader := false, groupLeader := false }
        parent := { x with pc := .exit2 }
        failed := { x with pc := .returned (-1) } }
  | _ => none

def becomeDaemon : ForkProg Unit Proc Call where
  Start _ x := x = ⟨.fork1, false, S.sessionLeader, S.groupLeader, S.umask, S.atRoot, S.fds⟩
  exec := next S
  fork := Proc.fork

/-! ## The descriptors -/

def Setting.closed : FdTable File :=
  if S.off BD_NO_CLOSE_FILES then S.fds else S.fds.keepFrom S.maxfd.toNat

/-- The descriptors of the daemon. -/
def Setting.reopened : FdTable File :=
  if S.off BD_NO_REOPEN_STD_FDS then S.closed
  else ((S.closed.set STDIN_FILENO .devNull).set STDOUT_FILENO .devNull).set STDERR_FILENO .devNull

/-! ## The process at each place -/

def Setting.start : Proc :=
  ⟨.fork1, false, S.sessionLeader, S.groupLeader, S.umask, S.atRoot, S.fds⟩

def Setting.leader : Proc :=
  { S.start with newSession := true, sessionLeader := true, groupLeader := true }

def Setting.daemon : Proc :=
  { S.start with newSession := true, sessionLeader := false, groupLeader := false }

def Setting.masked : Proc :=
  { S.daemon with umask := if S.off BD_NO_UMASK0 then S.umask else 0 }

/-- A process at `pc`, up to its directory. -/
def Setting.at : Pc → Option Proc
  | .fork1 => some S.start
  | .exit1 => some { S.start with pc := .exit1 }
  | .setsid => some { S.start with pc := .setsid, sessionLeader := false, groupLeader := false }
  | .fork2 => some { S.leader with pc := .fork2 }
  | .exit2 => some { S.leader with pc := .exit2 }
  | .umask => some { S.daemon with pc := .umask }
  | .chdir => some { S.masked with pc := .chdir }
  | .files => some { S.masked with pc := .files }
  | .closeLoop fd => some { S.masked with pc := .closeLoop fd, fds := S.fds.keepFrom fd }
  | .std => some { S.masked with pc := .std, fds := S.closed }
  | .openNull => some { S.masked with pc := .openNull, fds := S.closed.close STDIN_FILENO }
  | .dupOut => some { S.masked with pc := .dupOut, fds := S.closed.set STDIN_FILENO .devNull }
  | .dupErr =>
      some { S.masked with
        pc := .dupErr
        fds := (S.closed.set STDIN_FILENO .devNull).set STDOUT_FILENO .devNull }
  | .returned 0 => some { S.masked with pc := .returned 0, fds := S.reopened }
  | _ => none

/-- The places before the directory is changed. -/
def Pc.early : Pc → Bool
  | .fork1 => true
  | .exit1 => true
  | .setsid => true
  | .fork2 => true
  | .exit2 => true
  | .umask => true
  | .chdir => true
  | _ => false

/-- The tests that lead to a place. -/
def Setting.Tested : Pc → Prop
  | .closeLoop fd => S.off BD_NO_CLOSE_FILES = false ∧ fd ≤ S.maxfd.toNat
  | .openNull => S.off BD_NO_REOPEN_STD_FDS = false
  | .dupOut => S.off BD_NO_REOPEN_STD_FDS = false
  | .dupErr => S.off BD_NO_REOPEN_STD_FDS = false
  | _ => True

/-- What holds of a process by itself. -/
structure Local (x : Proc) : Prop where
  same : ∀ y, S.at x.pc = some y → x = { y with atRoot := x.atRoot }
  root : x.pc.early = true ∨ S.off BD_NO_CHDIR = true → x.atRoot = S.atRoot
  tested : S.Tested x.pc

variable {S} {x y : Proc}

/-- A process that is as it should be at `pc`, in the directory of the start or in another one. -/
theorem Local.of_at (pc : Pc) {r : Bool} (hat : S.at pc = some y) (hpc : y.pc = pc)
    (hroot : pc.early = true ∨ S.off BD_NO_CHDIR = true → r = S.atRoot) (htested : S.Tested pc) :
    Local S { y with atRoot := r } := by
  subst hpc
  refine ⟨fun z hz => ?_, hroot, htested⟩
  rw [← Option.some.inj (hat.symm.trans hz)]

/-- A process that has ended or has failed to become a daemon. -/
theorem Local.of_none {x : Proc} (hat : S.at x.pc = none) (hearly : x.pc.early = false)
    (hroot : S.off BD_NO_CHDIR = true → x.atRoot = S.atRoot) (htested : S.Tested x.pc) :
    Local S x := by
  refine ⟨fun z hz => ?_, fun h => ?_, htested⟩
  · rw [hat] at hz
    cases hz
  · rcases h with h | h
    · rw [hearly] at h
      cases h
    · exact hroot h

theorem Local.off_root (hx : Local S x) (hoff : S.off BD_NO_CHDIR = true) : x.atRoot = S.atRoot :=
  hx.root (Or.inr hoff)

theorem alloc_closed (t : FdTable File) :
    (t.close STDIN_FILENO).alloc .devNull = (STDIN_FILENO, t.set STDIN_FILENO .devNull) := by
  have hzero : lowestFd (t.close STDIN_FILENO).fds = STDIN_FILENO :=
    lowestFd_eq_zero (Finset.notMem_erase 0 t.fds)
  rw [FdTable.alloc, hzero, FdTable.set_close]

theorem dup2_set (t : FdTable File) (old new : ℕ) (f : File) (h : t.file old = some f) :
    t.dup2 old new = some (t.set new f) := by
  rw [FdTable.dup2, h]
  rfl

theorem closed_of_off (h : S.off BD_NO_CLOSE_FILES = true) : S.closed = S.fds := if_pos h

theorem closed_of_not_off (h : S.off BD_NO_CLOSE_FILES = false) :
    S.closed = S.fds.keepFrom S.maxfd.toNat := if_neg (by rw [h]; exact Bool.false_ne_true)

theorem reopened_of_off (h : S.off BD_NO_REOPEN_STD_FDS = true) : S.reopened = S.closed := if_pos h

theorem reopened_of_not_off (h : S.off BD_NO_REOPEN_STD_FDS = false) :
    S.reopened = ((S.closed.set STDIN_FILENO .devNull).set STDOUT_FILENO .devNull).set
      STDERR_FILENO .devNull := if_neg (by rw [h]; exact Bool.false_ne_true)

/-- What a step of a process other than a `fork` can do. -/
inductive Move (S : Setting) (x : Proc) : Call → Proc → Prop where
  | exit1 (hpc : x.pc = .exit1) : Move S x .go { x with pc := .exited, fds := .empty }
  | exit2 (hpc : x.pc = .exit2) : Move S x .go { x with pc := .exited, fds := .empty }
  | refused (hpc : x.pc = .setsid) (h : x.groupLeader = true) :
      Move S x .go { x with pc := .returned (-1) }
  | setsid (hpc : x.pc = .setsid) : Move S x .go { x with
      pc := .fork2
      newSession := true
      sessionLeader := true
      groupLeader := true }
  | umask (hpc : x.pc = .umask) :
      Move S x .go { x with pc := .chdir, umask := if S.off BD_NO_UMASK0 then x.umask else 0 }
  | chdir (hpc : x.pc = .chdir) :
      Move S x .go { x with pc := .files, atRoot := if S.off BD_NO_CHDIR then x.atRoot else true }
  | keep (hpc : x.pc = .files) (hoff : S.off BD_NO_CLOSE_FILES = true) :
      Move S x .go { x with pc := .std }
  | files (hpc : x.pc = .files) (hon : S.off BD_NO_CLOSE_FILES = false) :
      Move S x .go { x with pc := .closeLoop 0 }
  | close (fd : ℕ) (hpc : x.pc = .closeLoop fd) (hlt : (fd : ℤ) < S.maxfd) :
      Move S x .go { x with pc := .closeLoop (fd + 1), fds := x.fds.close fd }
  | closed (fd : ℕ) (hpc : x.pc = .closeLoop fd) (hge : S.maxfd ≤ fd) :
      Move S x .go { x with pc := .std }
  | leave (hpc : x.pc = .std) (hoff : S.off BD_NO_REOPEN_STD_FDS = true) :
      Move S x .go { x with pc := .returned 0 }
  | std (hpc : x.pc = .std) (hon : S.off BD_NO_REOPEN_STD_FDS = false) :
      Move S x .go { x with pc := .openNull, fds := x.fds.close STDIN_FILENO }
  | misplaced (hpc : x.pc = .openNull) (h : (x.fds.alloc .devNull).1 ≠ STDIN_FILENO) :
      Move S x .go { x with pc := .returned (-1), fds := (x.fds.alloc .devNull).2 }
  | openNull (hpc : x.pc = .openNull) (h : (x.fds.alloc .devNull).1 = STDIN_FILENO) :
      Move S x .go { x with pc := .dupOut, fds := (x.fds.alloc .devNull).2 }
  | dupOut (hpc : x.pc = .dupOut) (fds : FdTable File)
      (h : x.fds.dup2 STDIN_FILENO STDOUT_FILENO = some fds) :
      Move S x .go { x with pc := .dupErr, fds := fds }
  | dupErr (hpc : x.pc = .dupErr) (fds : FdTable File)
      (h : x.fds.dup2 STDIN_FILENO STDERR_FILENO = some fds) :
      Move S x .go { x with pc := .returned 0, fds := fds }
  | stay (hpc : x.pc = .chdir) (hon : S.off BD_NO_CHDIR = false) :
      Move S x .fail { x with pc := .files }
  | fail (hpc : x.pc = .openNull ∨ x.pc = .dupOut ∨ x.pc = .dupErr) :
      Move S x .fail { x with pc := .returned (-1) }
  | kill (h : x.pc.stopped = false) : Move S x .kill { x with pc := .killed, fds := .empty }

theorem go_cases (h : go S x = some y) : Move S x .go y := by
  unfold go at h
  split at h
  next hpc => obtain rfl := Option.some.inj h; exact .exit1 hpc
  next hpc =>
    split at h
    · rename_i hleader
      obtain rfl := Option.some.inj h
      exact .refused hpc hleader
    · obtain rfl := Option.some.inj h
      exact .setsid hpc
  next hpc => obtain rfl := Option.some.inj h; exact .exit2 hpc
  next hpc => obtain rfl := Option.some.inj h; exact .umask hpc
  next hpc => obtain rfl := Option.some.inj h; exact .chdir hpc
  next hpc =>
    obtain rfl := Option.some.inj h
    cases hoff : S.off BD_NO_CLOSE_FILES with
    | true => exact .keep hpc hoff
    | false => exact .files hpc hoff
  next fd hpc =>
    split at h
    · rename_i hlt
      obtain rfl := Option.some.inj h
      exact .close fd hpc hlt
    · rename_i hge
      obtain rfl := Option.some.inj h
      exact .closed fd hpc (not_lt.mp hge)
  next hpc =>
    split at h
    · rename_i hoff
      obtain rfl := Option.some.inj h
      exact .leave hpc hoff
    · rename_i hoff
      obtain rfl := Option.some.inj h
      exact .std hpc (by simpa using hoff)
  next hpc =>
    obtain rfl := Option.some.inj h
    by_cases hfd : lowestFd x.fds.fds = STDIN_FILENO
    · rw [if_neg (not_not.mpr hfd)]
      exact .openNull hpc hfd
    · rw [if_pos hfd]
      exact .misplaced hpc hfd
  next hpc =>
    obtain ⟨fds, hdup, rfl⟩ := Option.map_eq_some_iff.mp h
    exact .dupOut hpc fds hdup
  next hpc =>
    obtain ⟨fds, hdup, rfl⟩ := Option.map_eq_some_iff.mp h
    exact .dupErr hpc fds hdup
  next => cases h

theorem fail_cases (h : fail S x = some y) : Move S x .fail y := by
  unfold fail at h
  split at h
  next hpc =>
    split at h
    · cases h
    · rename_i hoff
      obtain rfl := Option.some.inj h
      exact .stay hpc (by simpa using hoff)
  next hpc => obtain rfl := Option.some.inj h; exact .fail (Or.inl hpc)
  next hpc => obtain rfl := Option.some.inj h; exact .fail (Or.inr (Or.inl hpc))
  next hpc => obtain rfl := Option.some.inj h; exact .fail (Or.inr (Or.inr hpc))
  next => cases h

theorem next_cases {g g' : Unit} {ps : List Proc} {a : Call}
    (h : next S g ps x a = some (g', y)) : Move S x a y := by
  cases a with
  | go =>
      obtain ⟨z, hz, heq⟩ := Option.map_eq_some_iff.mp h
      exact (Prod.mk.inj heq).2 ▸ go_cases hz
  | fail =>
      obtain ⟨z, hz, heq⟩ := Option.map_eq_some_iff.mp h
      exact (Prod.mk.inj heq).2 ▸ fail_cases hz
  | kill =>
      simp only [next] at h
      split at h
      · cases h
      · rename_i hstopped
        exact (Prod.mk.inj (Option.some.inj h)).2 ▸ .kill (by simpa using hstopped)

/-- A process at `pc`, in terms of the call it is in. -/
theorem Local.eq (hx : Local S x) {pc : Pc} (hpc : x.pc = pc) (hat : S.at pc = some y) :
    x = { y with atRoot := x.atRoot } := hx.same y (hpc ▸ hat)

theorem Local.move {a : Call} (hx : Local S x) (hmove : Move S x a y) : Local S y := by
  have hroot := hx.root
  have htested := hx.tested
  cases hmove with
  | exit1 hpc => exact Local.of_none rfl rfl hx.off_root trivial
  | exit2 hpc => exact Local.of_none rfl rfl hx.off_root trivial
  | refused hpc hleader => exact Local.of_none rfl rfl hx.off_root trivial
  | setsid hpc =>
      rw [hpc] at hroot
      rw [hx.eq hpc rfl]
      exact Local.of_at .fork2 rfl rfl (fun _ => hroot (Or.inl rfl)) trivial
  | umask hpc =>
      rw [hpc] at hroot
      rw [hx.eq hpc rfl]
      exact Local.of_at .chdir rfl rfl (fun _ => hroot (Or.inl rfl)) trivial
  | chdir hpc =>
      rw [hpc] at hroot
      rw [hx.eq hpc rfl]
      refine Local.of_at .files rfl rfl (fun hor => ?_) trivial
      rcases hor with hearly | hoff
      · cases hearly
      · rw [if_pos hoff]
        exact hroot (Or.inl rfl)
  | keep hpc hoff =>
      rw [hpc] at hroot
      rw [hx.eq hpc rfl]
      have hlocal := Local.of_at .std rfl rfl hroot trivial
      rwa [closed_of_off hoff] at hlocal
  | files hpc hon =>
      rw [hpc] at hroot
      rw [hx.eq hpc rfl]
      have hlocal := Local.of_at (.closeLoop 0) rfl rfl hroot ⟨hon, Nat.zero_le _⟩
      rwa [FdTable.keepFrom_zero] at hlocal
  | close fd hpc hlt =>
      rw [hpc] at hroot htested
      rw [hx.eq hpc rfl]
      have hnext : fd + 1 ≤ S.maxfd.toNat := by omega
      have hlocal := Local.of_at (.closeLoop (fd + 1)) rfl rfl hroot ⟨htested.1, hnext⟩
      rwa [← FdTable.keepFrom_close] at hlocal
  | closed fd hpc hge =>
      rw [hpc] at hroot htested
      rw [hx.eq hpc rfl]
      obtain ⟨hon, hle⟩ := htested
      have hend : fd = S.maxfd.toNat := by omega
      have hlocal := Local.of_at .std rfl rfl hroot trivial
      rwa [closed_of_not_off hon, ← hend] at hlocal
  | leave hpc hoff =>
      rw [hpc] at hroot
      rw [hx.eq hpc rfl]
      have hlocal := Local.of_at (.returned 0) rfl rfl hroot trivial
      rwa [reopened_of_off hoff] at hlocal
  | std hpc hon =>
      rw [hpc] at hroot
      rw [hx.eq hpc rfl]
      exact Local.of_at .openNull rfl rfl hroot hon
  | misplaced hpc hfd => exact Local.of_none rfl rfl hx.off_root trivial
  | openNull hpc hfd =>
      rw [hpc] at hroot htested
      rw [hx.eq hpc rfl]
      simp only [alloc_closed]
      exact Local.of_at .dupOut rfl rfl hroot htested
  | dupOut hpc fds hdup =>
      rw [hpc] at hroot htested
      rw [hx.eq hpc rfl] at hdup ⊢
      rw [dup2_set _ _ _ .devNull (by rw [FdTable.set_file, Function.update_self])] at hdup
      obtain rfl := Option.some.inj hdup
      exact Local.of_at .dupErr rfl rfl hroot htested
  | dupErr hpc fds hdup =>
      rw [hpc] at hroot htested
      rw [hx.eq hpc rfl] at hdup ⊢
      have hfile : ((S.closed.set STDIN_FILENO .devNull).set STDOUT_FILENO .devNull).file
          STDIN_FILENO = some .devNull := by
        rw [FdTable.set_file, Function.update_of_ne (by decide), FdTable.set_file,
          Function.update_self]
      rw [dup2_set _ _ _ _ hfile] at hdup
      obtain rfl := Option.some.inj hdup
      have hlocal := Local.of_at (.returned 0) rfl rfl hroot trivial
      rwa [reopened_of_not_off htested] at hlocal
  | stay hpc hon =>
      rw [hpc] at hroot
      rw [hx.eq hpc rfl]
      exact Local.of_at .files rfl rfl (fun _ => hroot (Or.inl rfl)) trivial
  | fail hpc => exact Local.of_none rfl rfl hx.off_root trivial
  | kill hstopped => exact Local.of_none rfl rfl hx.off_root trivial

theorem fork_local {f : Fork Proc} (hx : Local S x) (h : x.fork = some f) :
    Local S f.parent ∧ Local S f.child ∧ Local S f.failed := by
  have hsame := hx.same
  have hroot := hx.root
  cases hpc : x.pc with
  | fork1 =>
      rw [hpc] at hsame hroot
      rw [hsame _ rfl] at h
      have hr := hroot (Or.inl rfl)
      obtain rfl := Option.some.inj h
      exact ⟨Local.of_at .exit1 rfl rfl (fun _ => hr) trivial,
        Local.of_at .setsid rfl rfl (fun _ => hr) trivial,
        Local.of_none rfl rfl hx.off_root trivial⟩
  | fork2 =>
      rw [hpc] at hsame hroot
      rw [hsame _ rfl] at h
      have hr := hroot (Or.inl rfl)
      obtain rfl := Option.some.inj h
      exact ⟨Local.of_at .exit2 rfl rfl (fun _ => hr) trivial,
        Local.of_at .umask rfl rfl (fun _ => hr) trivial,
        Local.of_none rfl rfl hx.off_root trivial⟩
  | _ =>
      simp only [Proc.fork, hpc] at h
      cases h

/-! ## All processes -/

/-- The process has left the call for its child, or was killed. -/
def Pc.left : Pc → Bool
  | .exit1 => true
  | .exit2 => true
  | .exited => true
  | .killed => true
  | _ => false

/-- The number of processes when one of them is at `pc`. -/
def Pc.made : Pc → Option ℕ
  | .fork1 => some 1
  | .setsid => some 2
  | .fork2 => some 2
  | .umask => some 3
  | .chdir => some 3
  | .files => some 3
  | .closeLoop _ => some 3
  | .std => some 3
  | .openNull => some 3
  | .dupOut => some 3
  | .dupErr => some 3
  | .returned 0 => some 3
  | _ => none

variable {w v w₀ : ForkWorld Unit Proc} {b : ForkAct Call} {as : List (ForkAct Call)}

variable (S) in
/-- Only the last process is still in the call. -/
structure Chain (w : ForkWorld Unit Proc) : Prop where
  pos : 0 < w.procs.length
  each : ∀ (k : ℕ) (x : Proc), w.procs[k]? = some x → Local S x
  left : ∀ (k : ℕ) (x : Proc), w.procs[k]? = some x → k + 1 < w.procs.length → x.pc.left = true
  made : ∀ (k : ℕ) (x : Proc), w.procs[k]? = some x →
    ∀ n, x.pc.made = some n → w.procs.length = n ∧ k + 1 = n

/-- A step, as seen from where the process is in the call. -/
inductive PcStep (S : Setting) : Call → Pc → Pc → Prop where
  | exit1 : PcStep S .go .exit1 .exited
  | exit2 : PcStep S .go .exit2 .exited
  | refused : PcStep S .go .setsid (.returned (-1))
  | setsid : PcStep S .go .setsid .fork2
  | umask : PcStep S .go .umask .chdir
  | chdir (a : Call) (ha : a ≠ .kill) : PcStep S a .chdir .files
  | keep : PcStep S .go .files .std
  | files : PcStep S .go .files (.closeLoop 0)
  | close (fd : ℕ) (hlt : (fd : ℤ) < S.maxfd) : PcStep S .go (.closeLoop fd) (.closeLoop (fd + 1))
  | closed (fd : ℕ) : PcStep S .go (.closeLoop fd) .std
  | leave : PcStep S .go .std (.returned 0)
  | std : PcStep S .go .std .openNull
  | openFails (a : Call) (ha : a ≠ .kill) : PcStep S a .openNull (.returned (-1))
  | openNull : PcStep S .go .openNull .dupOut
  | outFails : PcStep S .fail .dupOut (.returned (-1))
  | dupOut : PcStep S .go .dupOut .dupErr
  | errFails : PcStep S .fail .dupErr (.returned (-1))
  | dupErr : PcStep S .go .dupErr (.returned 0)
  | kill (pc : Pc) (h : pc.stopped = false) : PcStep S .kill pc .killed

theorem Move.pcs {a : Call} (h : Move S x a y) : PcStep S a x.pc y.pc := by
  cases h with
  | exit1 hpc => rw [hpc]; exact .exit1
  | exit2 hpc => rw [hpc]; exact .exit2
  | refused hpc hleader => rw [hpc]; exact .refused
  | setsid hpc => rw [hpc]; exact .setsid
  | umask hpc => rw [hpc]; exact .umask
  | chdir hpc => rw [hpc]; exact .chdir .go nofun
  | keep hpc hoff => rw [hpc]; exact .keep
  | files hpc hon => rw [hpc]; exact .files
  | close fd hpc hlt => rw [hpc]; exact .close fd hlt
  | closed fd hpc hge => rw [hpc]; exact .closed fd
  | leave hpc hoff => rw [hpc]; exact .leave
  | std hpc hon => rw [hpc]; exact .std
  | misplaced hpc hfd => rw [hpc]; exact .openFails .go nofun
  | openNull hpc hfd => rw [hpc]; exact .openNull
  | dupOut hpc fds hdup => rw [hpc]; exact .dupOut
  | dupErr hpc fds hdup => rw [hpc]; exact .dupErr
  | stay hpc hon => rw [hpc]; exact .chdir .fail nofun
  | fail hpc =>
      rcases hpc with hpc | hpc | hpc
      · rw [hpc]; exact .openFails .fail nofun
      · rw [hpc]; exact .outFails
      · rw [hpc]; exact .errFails
  | kill hstopped => exact .kill x.pc hstopped

section

variable {a : Call} {pc pc' : Pc}

theorem PcStep.left (h : PcStep S a pc pc') (hleft : pc.left = true) : pc'.left = true := by
  cases h <;> first | rfl | cases hleft

theorem PcStep.made (h : PcStep S a pc pc') : pc'.made = none ∨ pc'.made = pc.made := by
  cases h <;> first | exact Or.inr rfl | exact Or.inl rfl

end

theorem fork_pc {f : Fork Proc} (h : x.fork = some f) :
    ∃ n, x.pc.made = some n ∧ f.child.pc.made = some (n + 1) ∧ f.parent.pc.made = none ∧
      f.parent.pc.left = true ∧ f.failed.pc = .returned (-1) := by
  cases hpc : x.pc with
  | fork1 =>
      simp only [Proc.fork, hpc, Option.some.injEq] at h
      exact h ▸ ⟨1, rfl, rfl, rfl, rfl, rfl⟩
  | fork2 =>
      simp only [Proc.fork, hpc, Option.some.injEq] at h
      exact h ▸ ⟨2, rfl, rfl, rfl, rfl, rfl⟩
  | _ =>
      simp only [Proc.fork, hpc] at h
      cases h

theorem Chain.init (h : (becomeDaemon S).system.Init w) : Chain S w := by
  obtain ⟨x, rfl, hprocs, -⟩ := h
  have hone : ∀ (k : ℕ) (x : Proc), w.procs[k]? = some x → k = 0 ∧ x = S.start := by
    intro k y hk
    rw [hprocs] at hk
    obtain ⟨hlt, hget⟩ := List.getElem?_eq_some_iff.mp hk
    obtain rfl : k = 0 := by simpa using hlt
    exact ⟨rfl, by simpa [Setting.start] using hget.symm⟩
  refine ⟨by rw [hprocs]; exact Nat.zero_lt_one, fun k y hk => ?_, fun k y hk hlt => ?_,
    fun k y hk n hn => ?_⟩
  · obtain ⟨rfl, rfl⟩ := hone k y hk
    exact Local.of_at .fork1 rfl rfl (fun _ => rfl) trivial
  · rw [hprocs] at hlt
    simp at hlt
  · obtain ⟨rfl, rfl⟩ := hone k y hk
    obtain rfl := Option.some.inj hn
    exact ⟨by rw [hprocs]; rfl, rfl⟩

theorem Chain.step (h : Chain S w) (hstep : (becomeDaemon S).Step w b v) : Chain S v := by
  have heach : ∀ (k : ℕ) (x : Proc), v.procs[k]? = some x → Local S x := by
    refine hstep.each h.each ?_ (fun k x _ hx hf => fork_local (h.each k x hx) hf)
    intro k x c g y hx hexec
    have hnext : next S w.shared w.procs x c = some (g, y) := hexec
    exact (h.each k x hx).move (next_cases hnext)
  cases hstep with
  | exec p c x y g hx hexec =>
      have hnext : next S w.shared w.procs x c = some (g, y) := hexec
      have hpcs := (next_cases hnext).pcs
      refine ⟨by simpa using h.pos, heach, fun k z hk hlt => ?_, fun k z hk n hn => ?_⟩
      · simp only [List.length_set] at hlt
        rcases ForkProg.getElem?_set_cases hk with ⟨rfl, rfl⟩ | ⟨-, hk⟩
        · exact hpcs.left (h.left k x hx hlt)
        · exact h.left k z hk hlt
      · simp only [List.length_set]
        rcases ForkProg.getElem?_set_cases hk with ⟨rfl, rfl⟩ | ⟨-, hk⟩
        · rcases hpcs.made with hnone | hsame
          · rw [hnone] at hn
            cases hn
          · exact h.made k x hx n (hsame ▸ hn)
        · exact h.made k z hk n hn
  | forks p x f hx hf =>
      obtain ⟨m, hm, hchild, hparent, hleft, -⟩ := fork_pc hf
      obtain ⟨hlen, hlast⟩ := h.made p x hx m hm
      refine ⟨by simp, heach, fun k z hk hlt => ?_, fun k z hk n hn => ?_⟩
      · simp only [List.length_append, List.length_set, List.length_singleton] at hlt
        rcases ForkProg.getElem?_fork_cases hk with ⟨rfl, rfl⟩ | ⟨rfl, rfl⟩ | ⟨hne, hk', hk⟩
        · exact hleft
        · omega
        · exact h.left k z hk (by omega)
      · simp only [List.length_append, List.length_set, List.length_singleton]
        rcases ForkProg.getElem?_fork_cases hk with ⟨rfl, rfl⟩ | ⟨rfl, rfl⟩ | ⟨hne, hk', hk⟩
        · rw [hparent] at hn
          cases hn
        · rw [hchild] at hn
          have hn := Option.some.inj hn
          omega
        · have hother := h.made k z hk n hn
          omega
  | fails p x f hx hf =>
      obtain ⟨m, hm, -, -, -, hfailed⟩ := fork_pc hf
      obtain ⟨hlen, hlast⟩ := h.made p x hx m hm
      refine ⟨by simpa using h.pos, heach, fun k z hk hlt => ?_, fun k z hk n hn => ?_⟩
      · simp only [List.length_set] at hlt
        rcases ForkProg.getElem?_set_cases hk with ⟨rfl, rfl⟩ | ⟨-, hk⟩
        · omega
        · exact h.left k z hk hlt
      · simp only [List.length_set]
        rcases ForkProg.getElem?_set_cases hk with ⟨rfl, rfl⟩ | ⟨-, hk⟩
        · rw [hfailed] at hn
          cases hn
        · exact h.made k z hk n hn

theorem chain_of_run (h₀ : (becomeDaemon S).system.Init w₀)
    (hrun : (becomeDaemon S).system.run w₀ as = some w) : Chain S w :=
  TransSys.run_preserves (fun _ _ _ h hnext => h.step (ForkProg.next_cases hnext))
    (Chain.init h₀) hrun

/-! ## The directory -/

/-- The places after the directory is changed. -/
def Pc.late : Pc → Bool
  | .files => true
  | .closeLoop _ => true
  | .std => true
  | .openNull => true
  | .dupOut => true
  | .dupErr => true
  | .returned 0 => true
  | _ => false

/-- No call of the second child fails. -/
def ChdirGoes (_ : ForkWorld Unit Proc) (b : ForkAct Call) : Prop := b ≠ .exec 2 .fail

/-- Past the change of the directory, a process is in the root. -/
def AtRoot (w : ForkWorld Unit Proc) : Prop :=
  ∀ (k : ℕ) (x : Proc), w.procs[k]? = some x → x.pc.late = true → x.atRoot = true

theorem Move.atRoot {a : Call} (h : Move S x a y) (hon : S.off BD_NO_CHDIR = false)
    (hroot : x.pc.late = true → x.atRoot = true) (hlate : y.pc.late = true) :
    y.atRoot = true ∨ (a = .fail ∧ x.pc = .chdir) := by
  cases h with
  | exit1 hpc => cases hlate
  | exit2 hpc => cases hlate
  | refused hpc hleader => cases hlate
  | setsid hpc => cases hlate
  | umask hpc => cases hlate
  | chdir hpc => exact Or.inl (if_neg (by rw [hon]; exact Bool.false_ne_true))
  | keep hpc hoff => exact Or.inl (hroot (by rw [hpc]; rfl))
  | files hpc hon => exact Or.inl (hroot (by rw [hpc]; rfl))
  | close fd hpc hlt => exact Or.inl (hroot (by rw [hpc]; rfl))
  | closed fd hpc hge => exact Or.inl (hroot (by rw [hpc]; rfl))
  | leave hpc hoff => exact Or.inl (hroot (by rw [hpc]; rfl))
  | std hpc hon => exact Or.inl (hroot (by rw [hpc]; rfl))
  | misplaced hpc hfd => cases hlate
  | openNull hpc hfd => exact Or.inl (hroot (by rw [hpc]; rfl))
  | dupOut hpc fds hdup => exact Or.inl (hroot (by rw [hpc]; rfl))
  | dupErr hpc fds hdup => exact Or.inl (hroot (by rw [hpc]; rfl))
  | stay hpc hon => exact Or.inr ⟨rfl, hpc⟩
  | fail hpc => cases hlate
  | kill hstopped => cases hlate

theorem fork_not_late {f : Fork Proc} (h : x.fork = some f) :
    f.parent.pc.late = false ∧ f.child.pc.late = false ∧ f.failed.pc.late = false := by
  cases hpc : x.pc with
  | fork1 =>
      simp only [Proc.fork, hpc, Option.some.injEq] at h
      exact h ▸ ⟨rfl, rfl, rfl⟩
  | fork2 =>
      simp only [Proc.fork, hpc, Option.some.injEq] at h
      exact h ▸ ⟨rfl, rfl, rfl⟩
  | _ =>
      simp only [Proc.fork, hpc] at h
      cases h

theorem AtRoot.init (h : (becomeDaemon S).system.Init w) : AtRoot w := by
  obtain ⟨x, rfl, hprocs, -⟩ := h
  intro k y hk hlate
  rw [hprocs] at hk
  rw [List.mem_singleton.mp (List.mem_of_getElem? hk)] at hlate
  cases hlate

theorem AtRoot.step (h : AtRoot w) (hon : S.off BD_NO_CHDIR = false) (hc : Chain S w)
    (hb : ChdirGoes w b) (hstep : (becomeDaemon S).Step w b v) : AtRoot v := by
  intro k z hk hlate
  cases hstep with
  | exec p c x y g hx hexec =>
      have hnext : next S w.shared w.procs x c = some (g, y) := hexec
      rcases ForkProg.getElem?_set_cases hk with ⟨rfl, rfl⟩ | ⟨-, hk⟩
      · rcases (next_cases hnext).atRoot hon (h k x hx) hlate with hroot | ⟨rfl, hpc⟩
        · exact hroot
        · -- only the second child comes to `chdir`
          have hlast := (hc.made k x hx 3 (by rw [hpc]; rfl)).2
          obtain rfl : k = 2 := by omega
          exact absurd rfl hb
      · exact h k z hk hlate
  | forks p x f hx hf =>
      obtain ⟨hparent, hchild, -⟩ := fork_not_late hf
      rcases ForkProg.getElem?_fork_cases hk with ⟨rfl, rfl⟩ | ⟨rfl, rfl⟩ | ⟨-, -, hk⟩
      · exact nomatch hparent.symm.trans hlate
      · exact nomatch hchild.symm.trans hlate
      · exact h k z hk hlate
  | fails p x f hx hf =>
      rcases ForkProg.getElem?_set_cases hk with ⟨rfl, rfl⟩ | ⟨-, hk⟩
      · exact nomatch (fork_not_late hf).2.2.symm.trans hlate
      · exact h k z hk hlate

theorem atRoot_of_run (hon : S.off BD_NO_CHDIR = false) (h₀ : (becomeDaemon S).system.Init w₀)
    (hrun : (becomeDaemon S).system.run w₀ as = some w) (has : .exec 2 .fail ∉ as) : AtRoot w :=
  (TransSys.run_preserves_of_meets (P := fun w => Chain S w ∧ AtRoot w) (C := ChdirGoes)
    (fun _ _ _ h hb hnext => ⟨h.1.step (ForkProg.next_cases hnext),
      h.2.step hon h.1 hb (ForkProg.next_cases hnext)⟩)
    ⟨Chain.init h₀, AtRoot.init h₀⟩
    (.of_labels (fun _ hb _ => ne_of_mem_of_not_mem hb has) _) hrun).2

/-- A call with `flags` 0 by the leader of a process group. -/
def sampleSetting : Setting where
  flags := 0
  openMax := 1
  sessionLeader := false
  groupLeader := true
  umask := 18
  atRoot := false
  fds := (FdTable.empty.set 0 (.other 0)).set 5 (.other 1)

def sampleStart : ForkWorld Unit Proc := ⟨(), [sampleSetting.start], []⟩

def sampleRun : List (ForkAct Call) :=
  [.fork 0 true, .exec 1 .go, .fork 1 true, .exec 2 .go, .exec 0 .go, .exec 2 .go, .exec 2 .go,
    .exec 2 .go, .exec 2 .go, .exec 2 .go, .exec 2 .go, .exec 1 .go, .exec 2 .go, .exec 2 .go]

theorem sampleRun_end :
    ∃ w, (becomeDaemon sampleSetting).system.run sampleStart sampleRun = some w ∧
      w.procs.map Proc.pc = [.exited, .exited, .returned 0] := by
  have hrun : ((becomeDaemon sampleSetting).system.run sampleStart sampleRun).map
      (fun w => w.procs.map Proc.pc) = some [.exited, .exited, .returned 0] := by decide +kernel
  exact Option.map_eq_some_iff.mp hrun

/-- **The daemon.** The process in which `becomeDaemon` returns 0 is the second child; it is in the
new session, which it does not lead, with the mask and the descriptors that `flags` ask for; and its
ancestors are gone or about to exit with status 0. With `BD_NO_CHDIR` it is in the directory of the
start, without in the root, unless its `chdir` has failed, which nobody looks at. -/
theorem daemon_state (h₀ : (becomeDaemon S).system.Init w₀)
    (hrun : (becomeDaemon S).system.run w₀ as = some w) {k : ℕ} (hx : w.procs[k]? = some x)
    (hret : x.pc = .returned 0) :
    k = 2 ∧ w.procs.length = 3 ∧ (∀ y ∈ w.procs.take 2, y.pc.left = true) ∧
      x.newSession = true ∧ x.sessionLeader = false ∧ x.groupLeader = false ∧
      x.umask = (if S.off BD_NO_UMASK0 then S.umask else 0) ∧
      (S.off BD_NO_CHDIR = true → x.atRoot = S.atRoot) ∧
      (S.off BD_NO_CHDIR = false → .exec 2 .fail ∉ as → x.atRoot = true) ∧
      x.fds = S.reopened := by
  have hchain := chain_of_run h₀ hrun
  obtain ⟨hlen, hk⟩ := hchain.made k x hx 3 (by rw [hret]; rfl)
  have hlocal := hchain.each k x hx
  have hsame := hlocal.same
  rw [hret] at hsame
  have hx' := hsame _ rfl
  refine ⟨by omega, hlen, fun y hy => ?_, congrArg Proc.newSession hx',
    congrArg Proc.sessionLeader hx', congrArg Proc.groupLeader hx', congrArg Proc.umask hx',
    hlocal.off_root, fun hon has => ?_, congrArg Proc.fds hx'⟩
  · obtain ⟨j, hj, hget⟩ := List.mem_take_iff_getElem.mp hy
    refine hchain.left j y ?_ (by omega)
    rw [← hget]
    exact List.getElem?_eq_getElem _
  · exact atRoot_of_run hon h₀ hrun has k x hx (by rw [hret]; rfl)

theorem daemon_state_sampleRun :
    ∃ w, (becomeDaemon sampleSetting).system.run sampleStart sampleRun = some w ∧
      ∃ x ∈ w.procs, x.pc = .returned 0 ∧ x.umask = 0 ∧ x.atRoot = true ∧
        x.fds = sampleSetting.reopened := by
  obtain ⟨w, hrun, hpcs⟩ := sampleRun_end
  have hmem : Pc.returned 0 ∈ w.procs.map Proc.pc := by simp [hpcs]
  obtain ⟨x, hx, hpc⟩ := List.mem_map.mp hmem
  obtain ⟨k, hk⟩ := List.mem_iff_getElem?.mp hx
  obtain ⟨-, -, -, -, -, -, humask, -, hroot, hfds⟩ :=
    daemon_state ⟨_, rfl, rfl, rfl⟩ hrun hk hpc
  exact ⟨w, hrun, x, hx, hpc, humask, hroot (by decide) (by decide), hfds⟩

/-! ## The end of the call -/

/-- A step that is no signal from outside. -/
def NoKill : ForkAct Call → Prop
  | .exec _ .kill => False
  | _ => True

/-- A step of a call that succeeds. -/
def Succeeds : ForkAct Call → Prop
  | .exec _ .go => True
  | .fork _ ok => ok = true
  | _ => False

/-- Nobody was killed, and the last process is still in the call or has returned from it. -/
structure Runs (w : ForkWorld Unit Proc) : Prop where
  le : w.procs.length ≤ 3
  alive : ∀ (k : ℕ) (x : Proc), w.procs[k]? = some x → x.pc ≠ .killed
  last : ∀ (k : ℕ) (x : Proc), w.procs[k]? = some x → k + 1 = w.procs.length → x.pc.left = false
  ret : ∀ (k : ℕ) (x : Proc), w.procs[k]? = some x →
    ∀ r, x.pc = .returned r → r = 0 ∨ r = -1

theorem PcStep.runs {a : Call} {pc pc' : Pc} (h : PcStep S a pc pc') (ha : a ≠ .kill) :
    pc' ≠ .killed ∧ (pc.left = false → pc'.left = false) ∧
      ∀ r, pc' = .returned r → r = 0 ∨ r = -1 := by
  cases h with
  | exit1 => exact ⟨nofun, nofun, nofun⟩
  | exit2 => exact ⟨nofun, nofun, nofun⟩
  | leave => exact ⟨nofun, fun _ => rfl, fun r hr => Or.inl (Pc.returned.inj hr).symm⟩
  | dupErr => exact ⟨nofun, fun _ => rfl, fun r hr => Or.inl (Pc.returned.inj hr).symm⟩
  | refused => exact ⟨nofun, fun _ => rfl, fun r hr => Or.inr (Pc.returned.inj hr).symm⟩
  | openFails => exact ⟨nofun, fun _ => rfl, fun r hr => Or.inr (Pc.returned.inj hr).symm⟩
  | outFails => exact ⟨nofun, fun _ => rfl, fun r hr => Or.inr (Pc.returned.inj hr).symm⟩
  | errFails => exact ⟨nofun, fun _ => rfl, fun r hr => Or.inr (Pc.returned.inj hr).symm⟩
  | kill pc hstopped => exact absurd rfl ha
  | _ => exact ⟨nofun, fun _ => rfl, nofun⟩

theorem Runs.init (h : (becomeDaemon S).system.Init w) : Runs w := by
  obtain ⟨x, rfl, hprocs, -⟩ := h
  have hone : ∀ (k : ℕ) (x : Proc), w.procs[k]? = some x → x.pc = .fork1 := by
    intro k y hk
    rw [hprocs] at hk
    rw [List.mem_singleton.mp (List.mem_of_getElem? hk)]
  refine ⟨by simp [hprocs], fun k y hk => ?_, fun k y hk _ => ?_, fun k y hk r hr => ?_⟩
  · rw [hone k y hk]
    exact nofun
  · rw [hone k y hk]
    rfl
  · rw [hone k y hk] at hr
    cases hr

theorem fork_runs {f : Fork Proc} (h : x.fork = some f) :
    ∃ n, n ≤ 2 ∧ x.pc.made = some n ∧ f.child.pc.left = false ∧ f.child.pc.stopped = false ∧
      f.parent.pc.stopped = false := by
  cases hpc : x.pc with
  | fork1 =>
      simp only [Proc.fork, hpc, Option.some.injEq] at h
      exact h ▸ ⟨1, by decide, rfl, rfl, rfl, rfl⟩
  | fork2 =>
      simp only [Proc.fork, hpc, Option.some.injEq] at h
      exact h ▸ ⟨2, by decide, rfl, rfl, rfl, rfl⟩
  | _ =>
      simp only [Proc.fork, hpc] at h
      cases h

theorem ne_of_not_stopped {pc : Pc} (h : pc.stopped = false) :
    pc ≠ .killed ∧ ∀ r, pc = .returned r → r = 0 ∨ r = -1 := by
  cases pc with
  | returned r => cases h
  | exited => cases h
  | killed => cases h
  | _ => exact ⟨nofun, nofun⟩

theorem Runs.step (h : Runs w) (hc : Chain S w) (hb : NoKill b)
    (hstep : (becomeDaemon S).Step w b v) : Runs v := by
  cases hstep with
  | exec p c x y g hx hexec =>
      have hnext : next S w.shared w.procs x c = some (g, y) := hexec
      have hkill : c ≠ .kill := by
        rintro rfl
        exact hb
      obtain ⟨halive, hlast, hret⟩ := (next_cases hnext).pcs.runs hkill
      refine ⟨by simpa using h.le, fun k z hk => ?_, fun k z hk hlen => ?_, fun k z hk => ?_⟩
      · rcases ForkProg.getElem?_set_cases hk with ⟨rfl, rfl⟩ | ⟨-, hk⟩
        · exact halive
        · exact h.alive k z hk
      · simp only [List.length_set] at hlen
        rcases ForkProg.getElem?_set_cases hk with ⟨rfl, rfl⟩ | ⟨-, hk⟩
        · exact hlast (h.last k x hx hlen)
        · exact h.last k z hk hlen
      · rcases ForkProg.getElem?_set_cases hk with ⟨rfl, rfl⟩ | ⟨-, hk⟩
        · exact hret
        · exact h.ret k z hk
  | forks p x f hx hf =>
      obtain ⟨n, hn, hmade, hchild, hcstop, hpstop⟩ := fork_runs hf
      obtain ⟨hlen, hp⟩ := hc.made p x hx n hmade
      refine ⟨?_, fun k z hk => ?_, fun k z hk hlast => ?_, fun k z hk => ?_⟩
      · simp only [List.length_append, List.length_set, List.length_singleton]
        omega
      · rcases ForkProg.getElem?_fork_cases hk with ⟨-, rfl⟩ | ⟨-, rfl⟩ | ⟨-, -, hk⟩
        · exact (ne_of_not_stopped hpstop).1
        · exact (ne_of_not_stopped hcstop).1
        · exact h.alive k z hk
      · simp only [List.length_append, List.length_set, List.length_singleton] at hlast
        rcases ForkProg.getElem?_fork_cases hk with ⟨rfl, -⟩ | ⟨-, rfl⟩ | ⟨-, hlt, -⟩
        · omega
        · exact hchild
        · omega
      · rcases ForkProg.getElem?_fork_cases hk with ⟨-, rfl⟩ | ⟨-, rfl⟩ | ⟨-, -, hk⟩
        · exact (ne_of_not_stopped hpstop).2
        · exact (ne_of_not_stopped hcstop).2
        · exact h.ret k z hk
  | fails p x f hx hf =>
      obtain ⟨-, -, -, -, -, hfailed⟩ := fork_pc hf
      refine ⟨by simpa using h.le, fun k z hk => ?_, fun k z hk hlen => ?_, fun k z hk => ?_⟩
      · rcases ForkProg.getElem?_set_cases hk with ⟨-, rfl⟩ | ⟨-, hk⟩
        · rw [hfailed]
          exact nofun
        · exact h.alive k z hk
      · simp only [List.length_set] at hlen
        rcases ForkProg.getElem?_set_cases hk with ⟨-, rfl⟩ | ⟨-, hk⟩
        · rw [hfailed]
          rfl
        · exact h.last k z hk hlen
      · rcases ForkProg.getElem?_set_cases hk with ⟨-, rfl⟩ | ⟨-, hk⟩
        · rw [hfailed]
          exact fun r hr => Or.inr (Pc.returned.inj hr).symm
        · exact h.ret k z hk

/-- Without a failed call the two tests that `setsid` and `open` were successful are passed. -/
theorem Local.go_ne (hx : Local S x) (hmove : Move S x .go y) : y.pc ≠ .returned (-1) := by
  cases hmove with
  | refused hpc hleader =>
      rw [hx.eq hpc rfl] at hleader
      cases hleader
  | misplaced hpc hfd =>
      rw [hx.eq hpc rfl] at hfd
      exact absurd (congrArg Prod.fst (alloc_closed S.closed)) hfd
  | _ => exact nofun

theorem no_error_of_step (hc : Chain S w) (hb : Succeeds b) (hstep : (becomeDaemon S).Step w b v)
    (h : ∀ (k : ℕ) (x : Proc), w.procs[k]? = some x → x.pc ≠ .returned (-1)) :
    ∀ (k : ℕ) (x : Proc), v.procs[k]? = some x → x.pc ≠ .returned (-1) := by
  intro k z hk
  cases hstep with
  | exec p c x y g hx hexec =>
      have hnext : next S w.shared w.procs x c = some (g, y) := hexec
      rcases ForkProg.getElem?_set_cases hk with ⟨rfl, rfl⟩ | ⟨-, hk⟩
      · cases c with
        | go => exact (hc.each k x hx).go_ne (next_cases hnext)
        | fail => cases hb
        | kill => cases hb
      · exact h k z hk
  | forks p x f hx hf =>
      obtain ⟨n, -, -, hleft, hcstop, hpstop⟩ := fork_runs hf
      rcases ForkProg.getElem?_fork_cases hk with ⟨-, rfl⟩ | ⟨-, rfl⟩ | ⟨-, -, hk⟩
      · intro hret
        rw [hret] at hpstop
        cases hpstop
      · intro hret
        rw [hret] at hcstop
        cases hcstop
      · exact h k z hk
  | fails p x f hx hf => cases hb

/-! ### The number of steps -/

variable (S) in
/-- The steps that are left to a process and to the children it will have. -/
def Setting.rank : Pc → ℕ
  | .fork1 => S.maxfd.toNat + 13
  | .setsid => S.maxfd.toNat + 11
  | .fork2 => S.maxfd.toNat + 10
  | .umask => S.maxfd.toNat + 8
  | .chdir => S.maxfd.toNat + 7
  | .files => S.maxfd.toNat + 6
  | .closeLoop fd => S.maxfd.toNat - fd + 5
  | .std => 4
  | .openNull => 3
  | .dupOut => 2
  | .dupErr => 1
  | .exit1 => 1
  | .exit2 => 1
  | _ => 0

variable (S) in
def Setting.left (w : ForkWorld Unit Proc) : ℕ := (w.procs.map fun x => S.rank x.pc).sum

theorem rank_pos {pc : Pc} (h : pc.stopped = false) : 0 < S.rank pc := by
  cases pc with
  | returned r => cases h
  | exited => cases h
  | killed => cases h
  | _ => simp [Setting.rank]

theorem PcStep.rank_lt {a : Call} {pc pc' : Pc} (h : PcStep S a pc pc') :
    S.rank pc' < S.rank pc := by
  cases h with
  | kill pc hstopped => exact rank_pos hstopped
  | close fd hlt =>
      simp only [Setting.rank]
      omega
  | closed fd =>
      simp only [Setting.rank]
      omega
  | _ => simp [Setting.rank]

theorem fork_rank {f : Fork Proc} (h : x.fork = some f) :
    S.rank f.parent.pc + S.rank f.child.pc < S.rank x.pc ∧ S.rank f.failed.pc < S.rank x.pc := by
  cases hpc : x.pc with
  | fork1 =>
      simp only [Proc.fork, hpc, Option.some.injEq] at h
      subst h
      simp only [Setting.rank]
      omega
  | fork2 =>
      simp only [Proc.fork, hpc, Option.some.injEq] at h
      subst h
      simp only [Setting.rank]
      omega
  | _ =>
      simp only [Proc.fork, hpc] at h
      cases h

theorem left_lt (hstep : (becomeDaemon S).Step w b v) : S.left v < S.left w := by
  cases hstep with
  | exec p c x y g hx hexec =>
      have hnext : next S w.shared w.procs x c = some (g, y) := hexec
      have hlt := (next_cases hnext).pcs.rank_lt
      have hsum := ForkProg.sum_map_set (fun x => S.rank x.pc) hx y
      simp only [Setting.left] at hsum ⊢
      omega
  | forks p x f hx hf =>
      have hlt := fork_rank (S := S) hf
      have hsum := ForkProg.sum_map_set (fun x => S.rank x.pc) hx f.parent
      simp only [Setting.left, List.map_append, List.sum_append, List.map_cons, List.map_nil,
        List.sum_cons, List.sum_nil] at hsum ⊢
      omega
  | fails p x f hx hf =>
      have hlt := fork_rank (S := S) hf
      have hsum := ForkProg.sum_map_set (fun x => S.rank x.pc) hx f.failed
      simp only [Setting.left] at hsum ⊢
      omega

theorem length_le (h₀ : (becomeDaemon S).system.Init w₀)
    (hrun : (becomeDaemon S).system.run w₀ as = some w) : as.length ≤ S.maxfd.toNat + 13 := by
  have hle := TransSys.run_length_le (I := fun _ => True) (C := fun _ _ => True) (m := S.left)
    (fun _ _ _ _ _ => trivial) (fun _ _ _ _ _ hnext => left_lt (ForkProg.next_cases hnext))
    trivial (TransSys.Meets.of_labels (fun _ _ _ => trivial) w₀) hrun
  obtain ⟨x, rfl, hprocs, -⟩ := h₀
  have hstart : S.left w₀ = S.maxfd.toNat + 13 := by simp [Setting.left, hprocs, Setting.rank]
  omega

/-! ### The last state -/

/-- A process that is still in the call can go on. -/
theorem Local.go_on (hx : Local S x) (h : x.pc.stopped = false) :
    (∃ y, go S x = some y) ∨ ∃ f, x.fork = some f := by
  cases hpc : x.pc with
  | fork1 => exact Or.inr (by simp [Proc.fork, hpc])
  | fork2 => exact Or.inr (by simp [Proc.fork, hpc])
  | dupOut =>
      rw [hx.eq hpc rfl]
      exact Or.inl ⟨_, rfl⟩
  | dupErr =>
      rw [hx.eq hpc rfl]
      exact Or.inl ⟨_, rfl⟩
  | setsid =>
      rw [hx.eq hpc rfl]
      exact Or.inl ⟨_, rfl⟩
  | closeLoop fd =>
      refine Or.inl ?_
      simp only [go, hpc]
      split
      · exact ⟨_, rfl⟩
      · exact ⟨_, rfl⟩
  | std =>
      refine Or.inl ?_
      simp only [go, hpc]
      split
      · exact ⟨_, rfl⟩
      · exact ⟨_, rfl⟩
  | returned r =>
      rw [hpc] at h
      cases h
  | exited =>
      rw [hpc] at h
      cases h
  | killed =>
      rw [hpc] at h
      cases h
  | _ => exact Or.inl (by simp [go, hpc])

theorem stopped_of_stuck (hc : Chain S w) (hstuck : (becomeDaemon S).system.Stuck Succeeds w)
    (hx : x ∈ w.procs) : x.pc.stopped = true := by
  obtain ⟨k, hk⟩ := List.mem_iff_getElem?.mp hx
  by_contra hnot
  rcases (hc.each k x hk).go_on (by simpa using hnot) with ⟨y, hy⟩ | ⟨f, hf⟩
  · have hnone := hstuck (.exec k .go) trivial
    simp [ForkProg.system, ForkProg.next, becomeDaemon, next, hk, hy] at hnone
  · have hnone := hstuck (.fork k true) rfl
    simp [ForkProg.system, ForkProg.next, becomeDaemon, hk, hf] at hnone

theorem stuck_of_stopped (h : ∀ x ∈ w.procs, x.pc.stopped = true) :
    (becomeDaemon S).system.Stuck Succeeds w := by
  intro b _
  cases hnext : (becomeDaemon S).system.step w b with
  | none => rfl
  | some v =>
      have hlt : ∀ {x : Proc}, x ∈ w.procs → S.rank x.pc = 0 := by
        intro x hx
        have hstopped := h x hx
        cases hpc : x.pc with
        | returned r => rfl
        | exited => rfl
        | killed => rfl
        | _ =>
            rw [hpc] at hstopped
            cases hstopped
      have hzero : S.left w = 0 := by
        rw [Setting.left, List.sum_eq_zero_iff]
        intro n hn
        obtain ⟨x, hx, rfl⟩ := List.mem_map.mp hn
        exact hlt hx
      have hless := left_lt (ForkProg.next_cases hnext)
      omega

theorem runs_of_run (h₀ : (becomeDaemon S).system.Init w₀)
    (hrun : (becomeDaemon S).system.run w₀ as = some w) (has : ∀ a ∈ as, NoKill a) : Runs w := by
  refine (TransSys.run_preserves_of_meets (P := fun w => Chain S w ∧ Runs w)
    (C := fun _ a => NoKill a) ?_ ⟨Chain.init h₀, Runs.init h₀⟩
    (TransSys.Meets.of_labels (fun a ha _ => has a ha) w₀) hrun).2
  intro w a v h ha hnext
  have hstep := ForkProg.next_cases hnext
  exact ⟨h.1.step hstep, h.2.step h.1 ha hstep⟩

theorem no_error_of_run (h₀ : (becomeDaemon S).system.Init w₀)
    (hrun : (becomeDaemon S).system.run w₀ as = some w) (has : ∀ a ∈ as, Succeeds a) :
    ∀ (k : ℕ) (x : Proc), w.procs[k]? = some x → x.pc ≠ .returned (-1) := by
  refine (TransSys.run_preserves_of_meets
    (P := fun w => Chain S w ∧
      ∀ (k : ℕ) (x : Proc), w.procs[k]? = some x → x.pc ≠ .returned (-1))
    (C := fun _ a => Succeeds a) ?_ ⟨Chain.init h₀, ?_⟩
    (TransSys.Meets.of_labels (fun a ha _ => has a ha) w₀) hrun).2
  · intro w a v h ha hnext
    have hstep := ForkProg.next_cases hnext
    exact ⟨h.1.step hstep, no_error_of_step h.1 ha hstep h.2⟩
  · obtain ⟨x, rfl, hprocs, -⟩ := h₀
    intro k y hk
    rw [hprocs] at hk
    rw [List.mem_singleton.mp (List.mem_of_getElem? hk)]
    exact nofun

/-- Every process but the last has exited, and the last one has returned. -/
theorem Runs.ended (h : Runs w) (hc : Chain S w) (hstopped : ∀ x ∈ w.procs, x.pc.stopped = true) :
    ∃ n ret, w.procs.map Proc.pc = List.replicate n .exited ++ [.returned ret] ∧
      (ret = 0 ∧ n = 2 ∨ ret = -1 ∧ n ≤ 2) := by
  obtain hnil | ⟨ps, z, hprocs⟩ := List.eq_nil_or_concat w.procs
  · exact absurd hc.pos (by simp [hnil])
  rw [List.concat_eq_append] at hprocs
  have hlen : w.procs.length = ps.length + 1 := by simp [hprocs]
  have hz : w.procs[ps.length]? = some z := by simp [hprocs]
  have hexited : ps.map Proc.pc = List.replicate ps.length .exited := by
    refine List.eq_replicate_iff.mpr ⟨List.length_map _, fun pc hpc => ?_⟩
    obtain ⟨x, hx, rfl⟩ := List.mem_map.mp hpc
    obtain ⟨k, hk⟩ := List.mem_iff_getElem?.mp hx
    obtain ⟨hlt, -⟩ := List.getElem?_eq_some_iff.mp hk
    have hk' : w.procs[k]? = some x := by rw [hprocs, List.getElem?_append_left hlt, hk]
    have hleft := hc.left k x hk' (by omega)
    have halive := h.alive k x hk'
    have hstop := hstopped x (List.mem_of_getElem? hk')
    cases hpc : x.pc with
    | exited => rfl
    | killed => exact absurd hpc halive
    | returned r =>
        rw [hpc] at hleft
        cases hleft
    | _ =>
        rw [hpc] at hstop
        cases hstop
  obtain ⟨ret, hret⟩ : ∃ ret, z.pc = .returned ret := by
    have hleft := h.last ps.length z hz hlen.symm
    have hstop := hstopped z (List.mem_of_getElem? hz)
    cases hpc : z.pc with
    | returned r => exact ⟨r, rfl⟩
    | exited =>
        rw [hpc] at hleft
        cases hleft
    | killed =>
        rw [hpc] at hleft
        cases hleft
    | _ =>
        rw [hpc] at hstop
        cases hstop
  refine ⟨ps.length, ret, by rw [hprocs, List.map_append, hexited, List.map_singleton, hret], ?_⟩
  rcases h.ret ps.length z hz ret hret with rfl | rfl
  · have hmade := hc.made ps.length z hz 3 (by rw [hret]; rfl)
    exact Or.inl ⟨rfl, by omega⟩
  · have hle := h.le
    exact Or.inr ⟨rfl, by omega⟩

/-- **One return.** The call takes a bounded number of steps and cannot get stuck. Unless a process
is killed, it then has returned in the last process and in no other one, the others have exited
with status 0, and if no call has failed it has returned 0. -/
theorem one_return (h₀ : (becomeDaemon S).system.Init w₀)
    (hrun : (becomeDaemon S).system.run w₀ as = some w) :
    as.length ≤ S.maxfd.toNat + 13 ∧
    ((becomeDaemon S).system.Stuck Succeeds w ↔ ∀ x ∈ w.procs, x.pc.stopped = true) ∧
    ((∀ a ∈ as, NoKill a) → (becomeDaemon S).system.Stuck Succeeds w →
      ∃ n ret, w.procs.map Proc.pc = List.replicate n .exited ++ [.returned ret] ∧
        (ret = 0 ∧ n = 2 ∨ ret = -1 ∧ n ≤ 2) ∧ ((∀ a ∈ as, Succeeds a) → ret = 0)) := by
  have hchain := chain_of_run h₀ hrun
  refine ⟨length_le h₀ hrun, ⟨fun hstuck x hx => stopped_of_stuck hchain hstuck hx,
    stuck_of_stopped⟩, fun has hstuck => ?_⟩
  have hstopped := fun x hx => stopped_of_stuck (x := x) hchain hstuck hx
  obtain ⟨n, ret, hpcs, hret⟩ := (runs_of_run h₀ hrun has).ended hchain hstopped
  refine ⟨n, ret, hpcs, hret, fun hgood => ?_⟩
  rcases hret with ⟨hzero, -⟩ | ⟨rfl, -⟩
  · exact hzero
  · have hmem : Pc.returned (-1) ∈ w.procs.map Proc.pc := by simp [hpcs]
    obtain ⟨x, hx, hpc⟩ := List.mem_map.mp hmem
    obtain ⟨k, hk⟩ := List.mem_iff_getElem?.mp hx
    exact absurd hpc (no_error_of_run h₀ hrun hgood k x hk)

theorem one_return_sampleRun :
    ∃ w, (becomeDaemon sampleSetting).system.run sampleStart sampleRun = some w ∧
      sampleRun.length = sampleSetting.maxfd.toNat + 13 ∧
      (becomeDaemon sampleSetting).system.Stuck Succeeds w := by
  obtain ⟨w, hrun, hpcs⟩ := sampleRun_end
  refine ⟨w, hrun, by decide, (one_return ⟨_, rfl, rfl, rfl⟩ hrun).2.1.mpr fun x hx => ?_⟩
  have hmem := List.mem_map_of_mem (f := Proc.pc) hx
  rw [hpcs] at hmem
  have hstopped : ∀ pc ∈ [Pc.exited, .exited, .returned 0], pc.stopped = true := by decide
  exact hstopped x.pc hmem

end Tlpi.BecomeDaemon
