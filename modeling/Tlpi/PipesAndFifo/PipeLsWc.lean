import Tlpi.Lib.Fork
import Tlpi.Posix.Base
import Tlpi.Posix.Fds

set_option autoImplicit false

/-! # A pipeline of two filters (pipes_and_fifo/pipe_ls_wc.c)

The parent makes a pipe and two children. The first child makes the write end its standard output
and runs `ls`, the second one makes the read end its standard input and runs `wc -l`; the parent
closes both ends and waits for the two.

The program may be started with any descriptors open, also without a standard input or output, so
that `pipe` may return the numbers 0 and 1. Of `ls` the model has that it writes some bytes to
descriptor 1 and ends, of `wc` that it reads descriptor 0 up to the end of file, counts the newlines
and ends. What a failed call says on the standard error is left out; without a descriptor 2 at the
start it could get into the pipe.
-/

namespace Tlpi.PipeLsWc

def STDIN_FILENO : ℕ := 0
def STDOUT_FILENO : ℕ := 1

inductive File where
  | readEnd
  | writeEnd
  | other (id : ℕ)
deriving DecidableEq, Repr

inductive Pc where
  | pipe
  | fork1
  | lsClose
  | lsDup2
  | lsCloseDup
  | lsExec
  | fork2
  | wcClose
  | wcDup2
  | wcCloseDup
  | wcExec
  | close0
  | close1
  | wait1
  | wait2
  | ls (rest : List UInt8)
  | wc (lines : ℕ)
  | failed (error : String)
  | exited
  | lsExited
  | counted (lines : ℕ)
  | killed
deriving DecidableEq, Repr

/-- A process: `filedes` are the two numbers that `pipe` has returned. -/
structure Proc where
  pc : Pc
  fds : FdTable File
  filedes : ℕ × ℕ

/-- The bytes in the pipe, and all that were ever written to it. -/
structure Shared where
  buf : List UInt8
  written : List UInt8
deriving DecidableEq, Repr

/-- What a run starts from: the descriptors of the first process, which refer to no end of a pipe
that does not exist yet, what `ls` writes, and the capacity of a pipe. -/
structure Setting where
  fds : FdTable File
  output : List UInt8
  capacity : ℕ
  no_readEnd : ∀ fd, fds.file fd ≠ some .readEnd
  no_writeEnd : ∀ fd, fds.file fd ≠ some .writeEnd
  capacity_pos : 0 < capacity

inductive Call where
  | go
  | fail
  | transfer (n : ℕ)
  | kill
deriving DecidableEq, Repr

def Pc.ended : Pc → Bool
  | .failed _ => true
  | .exited => true
  | .lsExited => true
  | .counted _ => true
  | .killed => true
  | _ => false

def Proc.hasEnded (x : Proc) : Bool := x.pc.ended

/-- The end of a process closes its descriptors. -/
def Proc.finish (x : Proc) (pc : Pc) : Proc := { x with pc := pc, fds := .empty }

/-- The text that `perror` gets when the call at this place fails. -/
def Pc.error : Pc → Option String
  | .pipe => some "pipe open"
  | .lsClose => some "close 1"
  | .lsDup2 => some "dup2 1"
  | .lsCloseDup => some "close 2"
  | .lsExec => some "execlp ls"
  | .wcClose => some "close 3"
  | .wcDup2 => some "dup2 2"
  | .wcCloseDup => some "close 4"
  | .wcExec => some "execlp wc"
  | .close0 => some "close 5"
  | .close1 => some "close 5"
  | _ => none

/-- `pipe`: the read end gets the lowest free number and the write end the next one. -/
def Proc.pipe (x : Proc) : Proc :=
  let (fd0, fds) := x.fds.alloc .readEnd
  let (fd1, fds) := fds.alloc .writeEnd
  ⟨.fork1, fds, (fd0, fd1)⟩

/-- `close`, which fails on a number that is not open. -/
def Proc.close (x : Proc) (fd : ℕ) (pc : Pc) : Option Proc :=
  if fd ∈ x.fds.fds then some { x with pc := pc, fds := x.fds.close fd } else none

def Proc.dup2 (x : Proc) (old new : ℕ) (pc : Pc) : Option Proc :=
  (x.fds.dup2 old new).map fun fds => { x with pc := pc, fds := fds }

variable (S : Setting)

/-- The calls that succeed, other than `read` and `write`. The first `wait` returns when a child has
ended, the second one when two have. -/
def go (ps : List Proc) (x : Proc) : Option Proc :=
  match x.pc with
  | .pipe => some x.pipe
  | .lsClose =>
      x.close x.filedes.1 (if x.filedes.2 ≠ STDOUT_FILENO then .lsDup2 else .lsExec)
  | .lsDup2 => x.dup2 x.filedes.2 STDOUT_FILENO .lsCloseDup
  | .lsCloseDup => x.close x.filedes.2 .lsExec
  | .lsExec => some { x with pc := .ls S.output }
  | .wcClose =>
      x.close x.filedes.2 (if x.filedes.1 ≠ STDIN_FILENO then .wcDup2 else .wcExec)
  | .wcDup2 => x.dup2 x.filedes.1 STDIN_FILENO .wcCloseDup
  | .wcCloseDup => x.close x.filedes.1 .wcExec
  | .wcExec => some { x with pc := .wc 0 }
  | .close0 => x.close x.filedes.1 .close1
  | .close1 => x.close x.filedes.2 .wait1
  | .wait1 => if 0 < ps.tail.countP Proc.hasEnded then some { x with pc := .wait2 } else none
  | .wait2 => if 1 < ps.tail.countP Proc.hasEnded then some (x.finish .exited) else none
  | .ls [] => some (x.finish .lsExited)
  | _ => none

/-- A failed call is reported and ends the process; `wait` fails when there is no child left. -/
def fail (ps : List Proc) (x : Proc) : Option Proc :=
  match x.pc with
  | .wait1 => if ps.tail.length ≤ 0 then some (x.finish (.failed "wait 1")) else none
  | .wait2 => if ps.tail.length ≤ 1 then some (x.finish (.failed "wait 2")) else none
  | pc => pc.error.map fun error => x.finish (.failed error)

/-- `ls` writes to its descriptor 1. It is killed (SIGPIPE) when no process has the read end, and it
waits while the pipe is full. -/
def write (g : Shared) (ps : List Proc) (x : Proc) (rest : List UInt8) (n : ℕ) :
    Option (Shared × Proc) :=
  if x.fds.file STDOUT_FILENO ≠ some .writeEnd then none
  else if ¬ ∃ y ∈ ps, y.fds.Holds .readEnd then some (g, x.finish .killed)
  else if n ≤ rest.length ∧ g.buf.length + n ≤ S.capacity then
    some (⟨g.buf ++ rest.take n, g.written ++ rest.take n⟩, { x with pc := .ls (rest.drop n) })
  else none

/-- `wc` reads from its descriptor 0. The file ends when the pipe is empty and no process has the
write end, and `wc` waits while it is empty and one has. -/
def read (g : Shared) (ps : List Proc) (x : Proc) (lines : ℕ) (n : ℕ) : Option (Shared × Proc) :=
  if x.fds.file STDIN_FILENO ≠ some .readEnd then none
  else if g.buf = [] then
    if ∃ y ∈ ps, y.fds.Holds .writeEnd then none else some (g, x.finish (.counted lines))
  else if n ≤ g.buf.length then
    some ({ g with buf := g.buf.drop n },
      { x with pc := .wc (lines + (g.buf.take n).count newline) })
  else none

def transfer (g : Shared) (ps : List Proc) (x : Proc) (n : ℕ) : Option (Shared × Proc) :=
  match x.pc with
  | .ls (b :: rest) => write S g ps x (b :: rest) (n + 1)
  | .wc lines => read g ps x lines (n + 1)
  | _ => none

def next (g : Shared) (ps : List Proc) (x : Proc) : Call → Option (Shared × Proc)
  | .go => (go S ps x).map fun y => (g, y)
  | .fail => (fail ps x).map fun y => (g, y)
  | .transfer n => transfer S g ps x n
  | .kill => if x.hasEnded then none else some (g, x.finish .killed)

/-- The two calls of `fork`. -/
def Proc.fork (x : Proc) : Option (Fork Proc) :=
  match x.pc with
  | .fork1 => some
      { child := { x with pc := .lsClose }
        parent := { x with pc := .fork2 }
        failed := x.finish (.failed "fork") }
  | .fork2 => some
      { child := { x with pc := .wcClose }
        parent := { x with pc := .close0 }
        failed := x.finish (.failed "fork") }
  | _ => none

def program : ForkProg Shared Proc Call where
  Start g x := g = ⟨[], []⟩ ∧ x = ⟨.pipe, S.fds, (0, 0)⟩
  exec := next S
  fork := Proc.fork

/-! ## The descriptors at each place of the program -/

/-- The two numbers that `pipe` returns. -/
def Setting.fd0 : ℕ := lowestFd S.fds.fds
def Setting.fd1 : ℕ := lowestFd (S.fds.set S.fd0 .readEnd).fds

theorem file_fd0 : S.fds.file S.fd0 = none := S.fds.file_lowestFd

theorem file_fd1_set : (S.fds.set S.fd0 .readEnd).file S.fd1 = none := FdTable.file_lowestFd _

theorem fd0_ne_fd1 : S.fd0 ≠ S.fd1 := by
  intro h
  have hfile := file_fd1_set S
  rw [← h, FdTable.set_file, Function.update_self] at hfile
  cases hfile

theorem file_fd1 : S.fds.file S.fd1 = none := by
  have hfile := file_fd1_set S
  rwa [FdTable.set_file, Function.update_of_ne (fd0_ne_fd1 S).symm] at hfile

def Setting.both : FdTable File := (S.fds.set S.fd0 .readEnd).set S.fd1 .writeEnd

theorem both_close_fd0 : S.both.close S.fd0 = S.fds.set S.fd1 .writeEnd := by
  rw [Setting.both, FdTable.close_set_of_ne _ _ (fd0_ne_fd1 S),
    FdTable.close_set _ _ _ (file_fd0 S)]

theorem both_close_fd1 : S.both.close S.fd1 = S.fds.set S.fd0 .readEnd := by
  rw [Setting.both, FdTable.close_set _ _ _ (file_fd1_set S)]

/-- The descriptors of a process that is at `pc`. -/
def Setting.table : Pc → FdTable File
  | .pipe => S.fds
  | .fork1 => S.both
  | .lsClose => S.both
  | .lsDup2 => S.fds.set S.fd1 .writeEnd
  | .lsCloseDup => (S.fds.set S.fd1 .writeEnd).set STDOUT_FILENO .writeEnd
  | .lsExec => S.fds.set STDOUT_FILENO .writeEnd
  | .ls _ => S.fds.set STDOUT_FILENO .writeEnd
  | .fork2 => S.both
  | .wcClose => S.both
  | .wcDup2 => S.fds.set S.fd0 .readEnd
  | .wcCloseDup => (S.fds.set S.fd0 .readEnd).set STDIN_FILENO .readEnd
  | .wcExec => S.fds.set STDIN_FILENO .readEnd
  | .wc _ => S.fds.set STDIN_FILENO .readEnd
  | .close0 => S.both
  | .close1 => S.fds.set S.fd1 .writeEnd
  | .wait1 => S.fds
  | .wait2 => S.fds
  | .failed _ => .empty
  | .exited => .empty
  | .lsExited => .empty
  | .counted _ => .empty
  | .killed => .empty

/-- Which process may be at `pc`: the parent is number 0, its children are 1 and 2. -/
def Pc.role : Pc → Option ℕ
  | .pipe => some 0
  | .fork1 => some 0
  | .lsClose => some 1
  | .lsDup2 => some 1
  | .lsCloseDup => some 1
  | .lsExec => some 1
  | .ls _ => some 1
  | .lsExited => some 1
  | .fork2 => some 0
  | .wcClose => some 2
  | .wcDup2 => some 2
  | .wcCloseDup => some 2
  | .wcExec => some 2
  | .wc _ => some 2
  | .counted _ => some 2
  | .close0 => some 0
  | .close1 => some 0
  | .wait1 => some 0
  | .wait2 => some 0
  | .exited => some 0
  | .failed _ => none
  | .killed => none

/-- The number of processes made before the parent gets to `pc`. -/
def Pc.made : Pc → Option ℕ
  | .pipe => some 1
  | .fork1 => some 1
  | .fork2 => some 2
  | .close0 => some 3
  | .close1 => some 3
  | .wait1 => some 3
  | .wait2 => some 3
  | .exited => some 3
  | _ => none

/-- The test that leads to `dup2`. -/
def Setting.Tested : Pc → Prop
  | .lsDup2 => S.fd1 ≠ STDOUT_FILENO
  | .lsCloseDup => S.fd1 ≠ STDOUT_FILENO
  | .wcDup2 => S.fd0 ≠ STDIN_FILENO
  | .wcCloseDup => S.fd0 ≠ STDIN_FILENO
  | _ => True

/-- What holds of a process by itself. -/
structure Local (x : Proc) : Prop where
  fds : x.fds = S.table x.pc
  filedes : x.pc ≠ .pipe → x.pc.ended = false → x.filedes = (S.fd0, S.fd1)
  tested : S.Tested x.pc

/-- The steps of a process other than forks, as seen from where it is in the program. -/
inductive Move (g : Shared) (ps : List Proc) : Pc → Call → Shared → Pc → Prop where
  | pipe : Move g ps .pipe .go g .fork1
  | lsClose : Move g ps .lsClose .go g .lsDup2
  | lsClosed : Move g ps .lsClose .go g .lsExec
  | lsDup2 : Move g ps .lsDup2 .go g .lsCloseDup
  | lsCloseDup : Move g ps .lsCloseDup .go g .lsExec
  | lsExec : Move g ps .lsExec .go g (.ls S.output)
  | wcClose : Move g ps .wcClose .go g .wcDup2
  | wcClosed : Move g ps .wcClose .go g .wcExec
  | wcDup2 : Move g ps .wcDup2 .go g .wcCloseDup
  | wcCloseDup : Move g ps .wcCloseDup .go g .wcExec
  | wcExec : Move g ps .wcExec .go g (.wc 0)
  | close0 : Move g ps .close0 .go g .close1
  | close1 : Move g ps .close1 .go g .wait1
  | wait1 (h : 0 < ps.tail.countP Proc.hasEnded) : Move g ps .wait1 .go g .wait2
  | wait2 (h : 1 < ps.tail.countP Proc.hasEnded) : Move g ps .wait2 .go g .exited
  | lsEnd : Move g ps (.ls []) .go g .lsExited
  | fail (pc : Pc) (error : String) (h : pc.ended = false) : Move g ps pc .fail g (.failed error)
  | kill (pc : Pc) (h : pc.ended = false) : Move g ps pc .kill g .killed
  | sigpipe (rest : List UInt8) (n : ℕ) (h : ¬ ∃ y ∈ ps, y.fds.Holds .readEnd) :
      Move g ps (.ls rest) (.transfer n) g .killed
  | write (rest : List UInt8) (n : ℕ) (hn : n + 1 ≤ rest.length) :
      Move g ps (.ls rest) (.transfer n)
        ⟨g.buf ++ rest.take (n + 1), g.written ++ rest.take (n + 1)⟩ (.ls (rest.drop (n + 1)))
  | read (lines n : ℕ) (hn : n + 1 ≤ g.buf.length) :
      Move g ps (.wc lines) (.transfer n) { g with buf := g.buf.drop (n + 1) }
        (.wc (lines + (g.buf.take (n + 1)).count newline))
  | eof (lines n : ℕ) (hbuf : g.buf = []) (h : ¬ ∃ y ∈ ps, y.fds.Holds .writeEnd) :
      Move g ps (.wc lines) (.transfer n) g (.counted lines)

variable {S} {g g' : Shared} {ps : List Proc} {x y : Proc}

theorem Local.finish {pc : Pc} (htable : S.table pc = .empty)
    (hended : pc.ended = true) (htested : S.Tested pc) : Local S (x.finish pc) where
  fds := htable.symm
  filedes _ h := nomatch hended.symm.trans h
  tested := htested

/-- A process that closes a descriptor on its way from `x.pc` to `pc`. -/
theorem Local.close (hx : Local S x) {fd : ℕ} {pc : Pc} (h : x.close fd pc = some y)
    (hpipe : x.pc ≠ .pipe) (hended : x.pc.ended = false)
    (htable : (S.table x.pc).close fd = S.table pc) (htested : S.Tested pc) :
    Local S y ∧ y.pc = pc := by
  unfold Proc.close at h
  split at h
  · obtain rfl := Option.some.inj h
    refine ⟨⟨?_, fun _ _ => hx.filedes hpipe hended, htested⟩, rfl⟩
    rw [← htable, ← hx.fds]
  · cases h

theorem Local.dup2 (hx : Local S x) {old new : ℕ} {pc : Pc} {f : File}
    (h : x.dup2 old new pc = some y) (hpipe : x.pc ≠ .pipe) (hended : x.pc.ended = false)
    (hold : (S.table x.pc).file old = some f)
    (htable : (S.table x.pc).set new f = S.table pc) (htested : S.Tested pc) :
    Local S y ∧ y.pc = pc := by
  unfold Proc.dup2 FdTable.dup2 at h
  rw [hx.fds, hold] at h
  obtain rfl := Option.some.inj h
  refine ⟨⟨?_, fun _ _ => hx.filedes hpipe hended, htested⟩, rfl⟩
  rw [← htable]

theorem Local.ended (pc : Pc) (hended : pc.ended = true) : Local S (x.finish pc) := by
  cases pc <;> first | exact Local.finish rfl rfl trivial | cases hended

theorem Local.pipe (hx : Local S x) (hpc : x.pc = .pipe) : Local S x.pipe := by
  have hfds : x.fds = S.fds := by rw [hx.fds, hpc]; rfl
  refine ⟨?_, fun _ _ => ?_, trivial⟩
  · simp only [Proc.pipe, FdTable.alloc, hfds]
    rfl
  · simp only [Proc.pipe, FdTable.alloc, hfds]
    rfl

/-- A step that changes no descriptor. -/
theorem Local.goto (hx : Local S x) {pc : Pc} (hpipe : x.pc ≠ .pipe) (hended : x.pc.ended = false)
    (htable : S.table x.pc = S.table pc) (htested : S.Tested pc) :
    Local S { x with pc := pc } where
  fds := hx.fds.trans htable
  filedes _ _ := hx.filedes hpipe hended
  tested := htested

theorem set_fd1_file : (S.fds.set S.fd1 .writeEnd).file S.fd1 = some .writeEnd := by
  rw [FdTable.set_file, Function.update_self]

theorem set_fd0_file : (S.fds.set S.fd0 .readEnd).file S.fd0 = some .readEnd := by
  rw [FdTable.set_file, Function.update_self]

/-- Closing the number that was duplicated leaves the standard output alone. -/
theorem close_fd1 (h : S.fd1 ≠ STDOUT_FILENO) :
    ((S.fds.set S.fd1 .writeEnd).set STDOUT_FILENO .writeEnd).close S.fd1 =
      S.fds.set STDOUT_FILENO .writeEnd := by
  rw [FdTable.close_set_of_ne _ _ h, FdTable.close_set _ _ _ (file_fd1 S)]

theorem close_fd0 (h : S.fd0 ≠ STDIN_FILENO) :
    ((S.fds.set S.fd0 .readEnd).set STDIN_FILENO .readEnd).close S.fd0 =
      S.fds.set STDIN_FILENO .readEnd := by
  rw [FdTable.close_set_of_ne _ _ h, FdTable.close_set _ _ _ (file_fd0 S)]

theorem go_move (hx : Local S x) (h : go S ps x = some y) :
    Move S g ps x.pc .go g y.pc ∧ Local S y := by
  obtain ⟨pc, fds, filedes⟩ := x
  cases pc with
  | pipe =>
      obtain rfl := Option.some.inj h
      exact ⟨.pipe, hx.pipe rfl⟩
  | lsClose =>
      obtain rfl := hx.filedes nofun rfl
      by_cases hfd : S.fd1 = STDOUT_FILENO
      · have htable : S.both.close S.fd0 = S.fds.set STDOUT_FILENO .writeEnd := by
          rw [both_close_fd0, hfd]
        simp only [go] at h
        rw [if_neg (not_not.mpr hfd)] at h
        obtain ⟨hy, hpc⟩ := hx.close h nofun rfl htable trivial
        exact ⟨hpc ▸ .lsClosed, hy⟩
      · simp only [go] at h
        rw [if_pos hfd] at h
        obtain ⟨hy, hpc⟩ := hx.close h nofun rfl (both_close_fd0 S) hfd
        exact ⟨hpc ▸ .lsClose, hy⟩
  | lsDup2 =>
      obtain rfl := hx.filedes nofun rfl
      obtain ⟨hy, hpc⟩ := hx.dup2 h nofun rfl set_fd1_file rfl hx.tested
      exact ⟨hpc ▸ .lsDup2, hy⟩
  | lsCloseDup =>
      obtain rfl := hx.filedes nofun rfl
      obtain ⟨hy, hpc⟩ := hx.close h nofun rfl (close_fd1 hx.tested) trivial
      exact ⟨hpc ▸ .lsCloseDup, hy⟩
  | lsExec =>
      obtain rfl := Option.some.inj h
      exact ⟨.lsExec, hx.goto nofun rfl rfl trivial⟩
  | wcClose =>
      obtain rfl := hx.filedes nofun rfl
      by_cases hfd : S.fd0 = STDIN_FILENO
      · have htable : S.both.close S.fd1 = S.fds.set STDIN_FILENO .readEnd := by
          rw [both_close_fd1, hfd]
        simp only [go] at h
        rw [if_neg (not_not.mpr hfd)] at h
        obtain ⟨hy, hpc⟩ := hx.close h nofun rfl htable trivial
        exact ⟨hpc ▸ .wcClosed, hy⟩
      · simp only [go] at h
        rw [if_pos hfd] at h
        obtain ⟨hy, hpc⟩ := hx.close h nofun rfl (both_close_fd1 S) hfd
        exact ⟨hpc ▸ .wcClose, hy⟩
  | wcDup2 =>
      obtain rfl := hx.filedes nofun rfl
      obtain ⟨hy, hpc⟩ := hx.dup2 h nofun rfl set_fd0_file rfl hx.tested
      exact ⟨hpc ▸ .wcDup2, hy⟩
  | wcCloseDup =>
      obtain rfl := hx.filedes nofun rfl
      obtain ⟨hy, hpc⟩ := hx.close h nofun rfl (close_fd0 hx.tested) trivial
      exact ⟨hpc ▸ .wcCloseDup, hy⟩
  | wcExec =>
      obtain rfl := Option.some.inj h
      exact ⟨.wcExec, hx.goto nofun rfl rfl trivial⟩
  | close0 =>
      obtain rfl := hx.filedes nofun rfl
      obtain ⟨hy, hpc⟩ := hx.close h nofun rfl (both_close_fd0 S) trivial
      exact ⟨hpc ▸ .close0, hy⟩
  | close1 =>
      obtain rfl := hx.filedes nofun rfl
      obtain ⟨hy, hpc⟩ := hx.close h nofun rfl (S.fds.close_set _ _ (file_fd1 S)) trivial
      exact ⟨hpc ▸ .close1, hy⟩
  | wait1 =>
      simp only [go] at h
      split at h
      · rename_i hc
        obtain rfl := Option.some.inj h
        exact ⟨.wait1 hc, hx.goto nofun rfl rfl trivial⟩
      · cases h
  | wait2 =>
      simp only [go] at h
      split at h
      · rename_i hc
        obtain rfl := Option.some.inj h
        exact ⟨.wait2 hc, Local.ended _ rfl⟩
      · cases h
  | ls rest =>
      cases rest with
      | nil =>
          obtain rfl := Option.some.inj h
          exact ⟨.lsEnd, Local.ended _ rfl⟩
      | cons b rest => cases h
  | _ => cases h

theorem fail_move (h : fail ps x = some y) : Move S g ps x.pc .fail g y.pc ∧ Local S y := by
  obtain ⟨pc, fds, filedes⟩ := x
  cases pc with
  | wait1 =>
      simp only [fail] at h
      split at h
      · obtain rfl := Option.some.inj h
        exact ⟨.fail _ _ rfl, Local.ended _ rfl⟩
      · cases h
  | wait2 =>
      simp only [fail] at h
      split at h
      · obtain rfl := Option.some.inj h
        exact ⟨.fail _ _ rfl, Local.ended _ rfl⟩
      · cases h
  | _ =>
      first
        | obtain rfl := Option.some.inj h
          exact ⟨.fail _ _ rfl, Local.ended _ rfl⟩
        | cases h

theorem transfer_move (hx : Local S x) {n : ℕ} (h : transfer S g ps x n = some (g', y)) :
    Move S g ps x.pc (.transfer n) g' y.pc ∧ Local S y := by
  obtain ⟨pc, fds, filedes⟩ := x
  cases pc with
  | ls rest =>
      cases rest with
      | nil => cases h
      | cons b rest =>
          simp only [transfer, write] at h
          split_ifs at h with hfile hreader hn
          · obtain ⟨rfl, rfl⟩ := Prod.mk.inj (Option.some.inj h)
            exact ⟨.write _ _ hn.1, hx.goto nofun rfl rfl trivial⟩
          · obtain ⟨rfl, rfl⟩ := Prod.mk.inj (Option.some.inj h)
            exact ⟨.sigpipe _ _ hreader, Local.ended _ rfl⟩
  | wc lines =>
      simp only [transfer, read] at h
      split_ifs at h with hfile hbuf hwriter hn
      · obtain ⟨rfl, rfl⟩ := Prod.mk.inj (Option.some.inj h)
        exact ⟨.eof _ _ hbuf hwriter, Local.ended _ rfl⟩
      · obtain ⟨rfl, rfl⟩ := Prod.mk.inj (Option.some.inj h)
        exact ⟨.read _ _ hn, hx.goto nofun rfl rfl trivial⟩
  | _ => cases h

/-- What a step of a process can do. -/
theorem next_move (hx : Local S x) {a : Call} (h : next S g ps x a = some (g', y)) :
    Move S g ps x.pc a g' y.pc ∧ Local S y := by
  cases a with
  | go =>
      obtain ⟨z, hz, heq⟩ := Option.map_eq_some_iff.mp h
      obtain ⟨rfl, rfl⟩ := Prod.mk.inj heq
      exact go_move hx hz
  | fail =>
      obtain ⟨z, hz, heq⟩ := Option.map_eq_some_iff.mp h
      obtain ⟨rfl, rfl⟩ := Prod.mk.inj heq
      exact fail_move hz
  | transfer n => exact transfer_move hx h
  | kill =>
      simp only [next] at h
      split at h
      · cases h
      · rename_i hended
        obtain ⟨rfl, rfl⟩ := Prod.mk.inj (Option.some.inj h)
        exact ⟨.kill _ (by simpa [Proc.hasEnded] using hended), Local.ended _ rfl⟩

/-! ## Who has an end of the pipe -/

def Pc.canRead : Pc → Bool
  | .fork1 => true
  | .lsClose => true
  | .fork2 => true
  | .wcClose => true
  | .wcDup2 => true
  | .wcCloseDup => true
  | .wcExec => true
  | .wc _ => true
  | .close0 => true
  | _ => false

def Pc.canWrite : Pc → Bool
  | .fork1 => true
  | .lsClose => true
  | .lsDup2 => true
  | .lsCloseDup => true
  | .lsExec => true
  | .ls _ => true
  | .fork2 => true
  | .wcClose => true
  | .close0 => true
  | .close1 => true
  | _ => false

theorem not_holds_readEnd : ¬ S.fds.Holds .readEnd := by
  rw [FdTable.holds_iff]
  rintro ⟨fd, h⟩
  exact S.no_readEnd fd h

theorem not_holds_writeEnd : ¬ S.fds.Holds .writeEnd := by
  rw [FdTable.holds_iff]
  rintro ⟨fd, h⟩
  exact S.no_writeEnd fd h

theorem both_fd0 : S.both.file S.fd0 = some .readEnd := by
  rw [Setting.both, FdTable.set_file, Function.update_of_ne (fd0_ne_fd1 S)]
  exact set_fd0_file

theorem both_holds_readEnd : S.both.Holds .readEnd := by
  rw [FdTable.holds_iff]
  exact ⟨S.fd0, both_fd0⟩

theorem holds_readEnd_iff (pc : Pc) : (S.table pc).Holds .readEnd ↔ pc.canRead = true := by
  have hno : ∀ fd, ¬ (S.fds.set fd .writeEnd).Holds .readEnd := fun fd =>
    FdTable.not_holds_set fd nofun not_holds_readEnd
  cases pc with
  | fork1 => exact iff_of_true both_holds_readEnd rfl
  | lsClose => exact iff_of_true both_holds_readEnd rfl
  | fork2 => exact iff_of_true both_holds_readEnd rfl
  | wcClose => exact iff_of_true both_holds_readEnd rfl
  | close0 => exact iff_of_true both_holds_readEnd rfl
  | wcDup2 => exact iff_of_true (FdTable.holds_set _ _ _) rfl
  | wcCloseDup => exact iff_of_true (FdTable.holds_set _ _ _) rfl
  | wcExec => exact iff_of_true (FdTable.holds_set _ _ _) rfl
  | wc lines => exact iff_of_true (FdTable.holds_set _ _ _) rfl
  | lsDup2 => exact iff_of_false (hno _) nofun
  | lsCloseDup => exact iff_of_false (FdTable.not_holds_set _ nofun (hno _)) nofun
  | lsExec => exact iff_of_false (hno _) nofun
  | ls rest => exact iff_of_false (hno _) nofun
  | close1 => exact iff_of_false (hno _) nofun
  | pipe => exact iff_of_false not_holds_readEnd nofun
  | wait1 => exact iff_of_false not_holds_readEnd nofun
  | wait2 => exact iff_of_false not_holds_readEnd nofun
  | _ => exact iff_of_false (FdTable.not_holds_empty _) nofun

theorem holds_writeEnd_iff (pc : Pc) : (S.table pc).Holds .writeEnd ↔ pc.canWrite = true := by
  have hno : ∀ fd, ¬ (S.fds.set fd .readEnd).Holds .writeEnd := fun fd =>
    FdTable.not_holds_set fd nofun not_holds_writeEnd
  cases pc with
  | fork1 => exact iff_of_true (FdTable.holds_set _ _ _) rfl
  | lsClose => exact iff_of_true (FdTable.holds_set _ _ _) rfl
  | fork2 => exact iff_of_true (FdTable.holds_set _ _ _) rfl
  | wcClose => exact iff_of_true (FdTable.holds_set _ _ _) rfl
  | close0 => exact iff_of_true (FdTable.holds_set _ _ _) rfl
  | lsDup2 => exact iff_of_true (FdTable.holds_set _ _ _) rfl
  | lsCloseDup => exact iff_of_true (FdTable.holds_set _ _ _) rfl
  | lsExec => exact iff_of_true (FdTable.holds_set _ _ _) rfl
  | ls rest => exact iff_of_true (FdTable.holds_set _ _ _) rfl
  | close1 => exact iff_of_true (FdTable.holds_set _ _ _) rfl
  | wcDup2 => exact iff_of_false (hno _) nofun
  | wcCloseDup => exact iff_of_false (FdTable.not_holds_set _ nofun (hno _)) nofun
  | wcExec => exact iff_of_false (hno _) nofun
  | wc lines => exact iff_of_false (hno _) nofun
  | pipe => exact iff_of_false not_holds_writeEnd nofun
  | wait1 => exact iff_of_false not_holds_writeEnd nofun
  | wait2 => exact iff_of_false not_holds_writeEnd nofun
  | _ => exact iff_of_false (FdTable.not_holds_empty _) nofun

theorem Local.holds_readEnd (hx : Local S x) : x.fds.Holds .readEnd ↔ x.pc.canRead = true := by
  rw [hx.fds, holds_readEnd_iff]

theorem Local.holds_writeEnd (hx : Local S x) : x.fds.Holds .writeEnd ↔ x.pc.canWrite = true := by
  rw [hx.fds, holds_writeEnd_iff]

/-! ## All processes -/

variable (S) in
/-- What holds of the processes of a run: each is where its number allows it to be, and the parent
is where the number of processes allows it to be. -/
structure Shape (w : ForkWorld Shared Proc) : Prop where
  pos : 0 < w.procs.length
  each : ∀ (k : ℕ) (x : Proc), w.procs[k]? = some x → Local S x
  role : ∀ (k : ℕ) (x : Proc), w.procs[k]? = some x → ∀ r, x.pc.role = some r → r = k
  made : ∀ (k : ℕ) (x : Proc), w.procs[k]? = some x →
    ∀ n, x.pc.made = some n → w.procs.length = n

variable {pc pc' : Pc} {a : Call} {w v : ForkWorld Shared Proc}

theorem Move.role (h : Move S g ps pc a g' pc') : pc'.role = none ∨ pc'.role = pc.role := by
  cases h <;> first | exact Or.inr rfl | exact Or.inl rfl

theorem Move.made (h : Move S g ps pc a g' pc') : pc'.made = none ∨ pc'.made = pc.made := by
  cases h <;> first | exact Or.inr rfl | exact Or.inl rfl

/-- A call of `fork` by the parent, which has made `n` processes so far, itself included. -/
theorem fork_cases {f : Fork Proc} (h : x.fork = some f) :
    f.failed = x.finish (.failed "fork") ∧ ∃ n child parent,
      (x.pc = .fork1 ∧ n = 1 ∧ child = .lsClose ∧ parent = .fork2 ∨
        x.pc = .fork2 ∧ n = 2 ∧ child = .wcClose ∧ parent = .close0) ∧
      f.child = { x with pc := child } ∧ f.parent = { x with pc := parent } := by
  unfold Proc.fork at h
  split at h
  next hpc =>
    obtain rfl := Option.some.inj h
    exact ⟨rfl, 1, .lsClose, .fork2, Or.inl ⟨hpc, rfl, rfl, rfl⟩, rfl, rfl⟩
  next hpc =>
    obtain rfl := Option.some.inj h
    exact ⟨rfl, 2, .wcClose, .close0, Or.inr ⟨hpc, rfl, rfl, rfl⟩, rfl, rfl⟩
  next => cases h

theorem role_of_made {n : ℕ} (h : pc.made = some n) : pc.role = some 0 := by
  cases pc <;> first | rfl | cases h

theorem Local.fork {f : Fork Proc} (hx : Local S x) (hf : x.fork = some f) :
    Local S f.parent ∧ Local S f.child ∧ Local S f.failed := by
  obtain ⟨pc, fds, filedes⟩ := x
  obtain ⟨hfailed, n, child, parent, hpcs, hchild, hparent⟩ := fork_cases hf
  rw [hchild, hparent, hfailed]
  rcases hpcs with ⟨rfl, -, rfl, rfl⟩ | ⟨rfl, -, rfl, rfl⟩
  · exact ⟨hx.goto nofun rfl rfl trivial, hx.goto nofun rfl rfl trivial, Local.ended _ rfl⟩
  · exact ⟨hx.goto nofun rfl rfl trivial, hx.goto nofun rfl rfl trivial, Local.ended _ rfl⟩

/-- What a `fork` makes of the number of processes and of the places in the program. -/
theorem fork_spec {f : Fork Proc} (hf : x.fork = some f) :
    ∃ n, x.pc.made = some n ∧ f.parent.pc.made = some (n + 1) ∧ f.parent.pc.role = some 0 ∧
      f.child.pc.role = some n ∧ f.child.pc.made = none ∧ f.failed.pc = .failed "fork" := by
  obtain ⟨hfailed, n, child, parent, hpcs, hchild, hparent⟩ := fork_cases hf
  rw [hchild, hparent, hfailed]
  rcases hpcs with ⟨hpc, rfl, rfl, rfl⟩ | ⟨hpc, rfl, rfl, rfl⟩
  · exact ⟨1, by rw [hpc]; rfl, rfl, rfl, rfl, rfl, rfl⟩
  · exact ⟨2, by rw [hpc]; rfl, rfl, rfl, rfl, rfl, rfl⟩

theorem Shape.init (h : (program S).system.Init w) : Shape S w := by
  obtain ⟨x, ⟨-, rfl⟩, hprocs, -⟩ := h
  have hone : ∀ (k : ℕ) (x : Proc), w.procs[k]? = some x → k = 0 ∧ x = ⟨.pipe, S.fds, (0, 0)⟩ := by
    intro k y hk
    rw [hprocs] at hk
    obtain ⟨hlt, hget⟩ := List.getElem?_eq_some_iff.mp hk
    obtain rfl : k = 0 := by simpa using hlt
    exact ⟨rfl, by simpa using hget.symm⟩
  refine ⟨by rw [hprocs]; exact Nat.zero_lt_one, ?_, ?_, ?_⟩
  · intro k y hk
    obtain ⟨rfl, rfl⟩ := hone k y hk
    exact ⟨rfl, fun h _ => absurd rfl h, trivial⟩
  · intro k y hk r hr
    obtain ⟨rfl, rfl⟩ := hone k y hk
    exact (Option.some.inj hr).symm
  · intro k y hk n hn
    obtain ⟨rfl, rfl⟩ := hone k y hk
    rw [hprocs]
    exact Option.some.inj hn

theorem Shape.each_step {b : ForkAct Call} (h : Shape S w) (hstep : (program S).Step w b v) :
    ∀ (k : ℕ) (x : Proc), v.procs[k]? = some x → Local S x := by
  refine hstep.each h.each ?_ ?_
  · intro k x c g y hx hexec
    exact (next_move (h.each k x hx) hexec).2
  · intro k x f hx hf
    exact (h.each k x hx).fork hf

theorem Shape.role_step {b : ForkAct Call} (h : Shape S w) (hstep : (program S).Step w b v) :
    ∀ (k : ℕ) (x : Proc), v.procs[k]? = some x → ∀ r, x.pc.role = some r → r = k := by
  refine hstep.each h.role ?_ ?_
  · intro k x c g y hx hexec r hr
    rcases (next_move (h.each k x hx) hexec).1.role with hnone | hsame
    · rw [hnone] at hr
      cases hr
    · exact h.role k x hx r (hsame ▸ hr)
  · intro k x f hx hf
    obtain ⟨n, hmade, -, hparent, hchild, -, hfailed⟩ := fork_spec hf
    rw [hparent, hchild, hfailed, h.made k x hx n hmade]
    refine ⟨fun r hr => ?_, fun r hr => (Option.some.inj hr).symm, nofun⟩
    rw [← Option.some.inj hr]
    exact h.role k x hx 0 (role_of_made hmade)

theorem Shape.made_step {b : ForkAct Call} (h : Shape S w) (hstep : (program S).Step w b v) :
    ∀ (k : ℕ) (x : Proc), v.procs[k]? = some x → ∀ n, x.pc.made = some n → v.procs.length = n := by
  intro k z hk m hm
  have hzero := h.role_step hstep k z hk 0 (role_of_made hm)
  cases hstep with
  | exec p c x y g hx hexec =>
      rw [List.length_set]
      rcases ForkProg.getElem?_set_cases hk with ⟨rfl, rfl⟩ | ⟨-, hk⟩
      · rcases (next_move (h.each k x hx) hexec).1.made with hnone | hsame
        · rw [hnone] at hm
          cases hm
        · exact h.made k x hx m (hsame ▸ hm)
      · exact h.made k z hk m hm
  | forks p x f hx hf =>
      obtain ⟨n, hmade, hparent, -, -, hchild, -⟩ := fork_spec hf
      have hp := h.role p x hx 0 (role_of_made hmade)
      rcases ForkProg.getElem?_fork_cases hk with ⟨rfl, rfl⟩ | ⟨rfl, rfl⟩ | ⟨hne, -, -⟩
      · rw [hparent] at hm
        rw [List.length_append, List.length_set, List.length_singleton,
          h.made k x hx n hmade, Option.some.inj hm]
      · rw [hchild] at hm
        cases hm
      · exact absurd (hzero.symm.trans hp) hne
  | fails p x f hx hf =>
      obtain ⟨n, hmade, -, -, -, -, hfailed⟩ := fork_spec hf
      have hp := h.role p x hx 0 (role_of_made hmade)
      rcases ForkProg.getElem?_set_cases hk with ⟨rfl, rfl⟩ | ⟨hne, -⟩
      · rw [hfailed] at hm
        cases hm
      · exact absurd (hzero.symm.trans hp) hne

theorem Shape.step {b : ForkAct Call} (h : Shape S w) (hstep : (program S).Step w b v) :
    Shape S v := by
  refine ⟨?_, h.each_step hstep, h.role_step hstep, h.made_step hstep⟩
  have hpos := h.pos
  cases hstep with
  | exec p c x y g hx hexec => simpa using hpos
  | forks p x f hx hf => simp
  | fails p x f hx hf => simpa using hpos

variable {w₀ : ForkWorld Shared Proc} {as : List (ForkAct Call)}

theorem shape_of_run (h₀ : (program S).system.Init w₀)
    (hrun : (program S).system.run w₀ as = some w) : Shape S w :=
  TransSys.run_preserves (fun _ _ _ hs hnext => hs.step (ForkProg.next_cases hnext))
    (Shape.init h₀) hrun

/-- A start without a standard output, so that the read end gets the number 1. -/
def sampleSetting : Setting where
  fds := FdTable.empty.set 0 (.other 0)
  output := str "a\n"
  capacity := 1
  no_readEnd fd h := by
    rcases eq_or_ne fd 0 with rfl | hne
    · cases h
    · rw [FdTable.set_file, Function.update_of_ne hne] at h
      cases h
  no_writeEnd fd h := by
    rcases eq_or_ne fd 0 with rfl | hne
    · cases h
    · rw [FdTable.set_file, Function.update_of_ne hne] at h
      cases h
  capacity_pos := Nat.zero_lt_one

def sampleStart : ForkWorld Shared Proc := ⟨⟨[], []⟩, [⟨.pipe, sampleSetting.fds, (0, 0)⟩], []⟩

def sampleRun : List (ForkAct Call) :=
  [.exec 0 .go, .fork 0 true, .exec 1 .go, .exec 1 .go, .fork 0 true, .exec 2 .go, .exec 1 .go,
    .exec 1 .go, .exec 0 .go, .exec 1 (.transfer 0), .exec 2 .go, .exec 2 .go, .exec 2 .go,
    .exec 2 (.transfer 0), .exec 1 (.transfer 0), .exec 1 .go, .exec 0 .go, .exec 0 .go,
    .exec 2 (.transfer 0), .exec 2 (.transfer 0), .exec 0 .go]

/-- **The descriptors of the filters.** Whatever is open at the start, `ls` runs with the
descriptors of the start but for its standard output, which is the write end, `wc` with those of the
start but for its standard input, which is the read end, and the parent waits with exactly those of
the start. -/
theorem filter_descriptors (h₀ : (program S).system.Init w₀)
    (hrun : (program S).system.run w₀ as = some w) (hx : x ∈ w.procs) :
    (∀ rest, x.pc = .ls rest → x.fds = S.fds.set STDOUT_FILENO .writeEnd) ∧
      (∀ lines, x.pc = .wc lines → x.fds = S.fds.set STDIN_FILENO .readEnd) ∧
      (x.pc = .wait1 ∨ x.pc = .wait2 → x.fds = S.fds) := by
  obtain ⟨k, hk⟩ := List.mem_iff_getElem?.mp hx
  have hfds := ((shape_of_run h₀ hrun).each k x hk).fds
  refine ⟨fun rest hpc => ?_, fun lines hpc => ?_, ?_⟩
  · rw [hfds, hpc]
    rfl
  · rw [hfds, hpc]
    rfl
  · rintro (hpc | hpc)
    · rw [hfds, hpc]
      rfl
    · rw [hfds, hpc]
      rfl

theorem filter_descriptors_sampleRun :
    ∃ w, (program sampleSetting).system.run sampleStart (sampleRun.take 8) = some w ∧
      ∃ x ∈ w.procs, x.pc = .ls (str "a\n") ∧
        x.fds = sampleSetting.fds.set STDOUT_FILENO .writeEnd := by
  have hrun : ((program sampleSetting).system.run sampleStart (sampleRun.take 8)).map
      (fun w => w.procs.map Proc.pc) = some [.close0, .ls (str "a\n"), .wcDup2] := by
    decide +kernel
  obtain ⟨w, hw, hpcs⟩ := Option.map_eq_some_iff.mp hrun
  have hmem : Pc.ls (str "a\n") ∈ w.procs.map Proc.pc := by rw [hpcs]; simp
  obtain ⟨x, hx, hpc⟩ := List.mem_map.mp hmem
  exact ⟨w, hw, x, hx, hpc, (filter_descriptors ⟨_, ⟨rfl, rfl⟩, rfl, rfl⟩ hw hx).1 _ hpc⟩

end Tlpi.PipeLsWc
