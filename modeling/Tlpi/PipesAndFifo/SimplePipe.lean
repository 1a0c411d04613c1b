import Tlpi.Lib.Fork
import Tlpi.Posix.Base

set_option autoImplicit false

/-! # A parent that writes to its child (pipes_and_fifo/simple_pipe.c)

The parent writes its argument to a pipe, and the child copies what it reads to the standard output.
A failed call is only reported, so that each process goes on with its next statement; this also
holds for a failed `fork`, after which the parent goes on in the branch of the child.
-/

namespace Tlpi.SimplePipe

def BUF_SIZE : ℕ := 10

inductive Pc where
  | start
  | pipe
  | fork
  | childCloseWrite
  | childRead
  | childWrite (chunk : List UInt8)
  | childNewline
  | childCloseRead
  | childExit
  | parentCloseRead
  | parentWrite
  | parentCloseWrite
  | parentWait
  | parentExit
  | exited (inChild : Bool) (status : Option ℕ)
deriving DecidableEq, Repr

/-- The branch `case 0` of the `switch`. -/
def Pc.inChild : Pc → Bool
  | .childCloseWrite => true
  | .childRead => true
  | .childWrite _ => true
  | .childNewline => true
  | .childCloseRead => true
  | .childExit => true
  | .exited inChild _ => inChild
  | _ => false

def Pc.status : Pc → Option ℕ
  | .exited _ status => status
  | _ => none

/-- A process and the ends of the pipe it has open. -/
structure Proc where
  pc : Pc
  pfd0 : Bool
  pfd1 : Bool
deriving DecidableEq, Repr

/-- The arguments after the program's name, the bytes in the pipe, and the standard output. -/
structure Shared where
  argv : List (List UInt8)
  buf : List UInt8
  stdout : List UInt8
deriving DecidableEq, Repr

/-- What a process does; `none` is a call that fails. -/
inductive Call where
  | go
  | call (ok : Bool)
  | transfer (n : Option ℕ)
  | kill
deriving DecidableEq, Repr

def Proc.exit (x : Proc) (status : Option ℕ) : Proc :=
  ⟨.exited x.pc.inChild status, false, false⟩

def Proc.hasExited (x : Proc) : Bool :=
  match x.pc with
  | .exited _ _ => true
  | _ => false

/-- Steps that do not depend on the outcome of a call. -/
def go (g : Shared) (x : Proc) : Option (Shared × Proc) :=
  match x.pc with
  | .start =>
      if g.argv.length ≠ 1 ∨ g.argv.head? = some (str "--help") then some (g, x.exit (some 1))
      else some (g, { x with pc := .pipe })
  | .childExit => some (g, x.exit (some 0))
  | .parentExit => some (g, x.exit (some 0))
  | _ => none

/-- `pipe`, the calls of `close`, and `wait`, which returns once a child has ended. -/
def call (g : Shared) (ps : List Proc) (x : Proc) (ok : Bool) : Option (Shared × Proc) :=
  match x.pc with
  | .pipe => some (g, ⟨.fork, ok, ok⟩)
  | .childCloseWrite => some (g, { x with pc := .childRead, pfd1 := false })
  | .childCloseRead => some (g, { x with pc := .childExit, pfd0 := false })
  | .parentCloseRead => some (g, { x with pc := .parentWrite, pfd0 := false })
  | .parentCloseWrite => some (g, { x with pc := .parentWait, pfd1 := false })
  | .parentWait =>
      if ok = false ∨ ps.tail.any Proc.hasExited = true then some (g, { x with pc := .parentExit })
      else none
  | _ => none

/-- `read` and `write`. After a failed `read` the child asks `write` for -1 bytes, which fails too,
and reads again. -/
def transfer (g : Shared) (ps : List Proc) (x : Proc) (n : Option ℕ) : Option (Shared × Proc) :=
  match x.pc, n with
  | .childRead, none => some (g, x)
  | .childRead, some 0 =>
      if x.pfd0 = true ∧ g.buf = [] ∧ (ps.all fun y => !y.pfd1) = true then
        some (g, { x with pc := .childNewline })
      else none
  | .childRead, some n =>
      if x.pfd0 = true ∧ n ≤ BUF_SIZE ∧ n ≤ g.buf.length then
        some ({ g with buf := g.buf.drop n }, { x with pc := .childWrite (g.buf.take n) })
      else none
  | .childWrite chunk, n =>
      let written := chunk.take (n.getD 0)
      some ({ g with stdout := g.stdout ++ written }, { x with pc := .childRead })
  | .childNewline, n =>
      let written := (str "\n").take (n.getD 0)
      some ({ g with stdout := g.stdout ++ written }, { x with pc := .childCloseRead })
  | .parentWrite, none => some (g, { x with pc := .parentCloseWrite })
  | .parentWrite, some n =>
      if x.pfd1 then
        let written := ((g.argv.head?).getD []).take n
        some ({ g with buf := g.buf ++ written }, { x with pc := .parentCloseWrite })
      else none
  | _, _ => none

def next (g : Shared) (ps : List Proc) (x : Proc) : Call → Option (Shared × Proc)
  | .go => go g x
  | .call ok => call g ps x ok
  | .transfer n => transfer g ps x n
  | .kill => if x.hasExited then none else some (g, x.exit none)

/-- `switch (fork())`: the branch for -1 leads into the one for 0. -/
def Proc.fork (x : Proc) : Option (Fork Proc) :=
  match x.pc with
  | .fork => some
      { child := { x with pc := .childCloseWrite }
        parent := { x with pc := .parentCloseRead }
        failed := { x with pc := .childCloseWrite } }
  | _ => none

def program : ForkProg Shared Proc Call where
  Start g x := g.buf = [] ∧ g.stdout = [] ∧ x = ⟨.start, false, false⟩
  exec := next
  fork := Proc.fork

/-! ## The branch of the child -/

variable {g g' : Shared} {ps : List Proc} {x y : Proc}

theorem go_inChild (h : go g x = some (g', y)) : y.pc.inChild = x.pc.inChild := by
  unfold go at h
  split at h
  next hpc =>
    split at h
    · obtain ⟨-, rfl⟩ := Prod.mk.inj (Option.some.inj h)
      rfl
    · obtain ⟨-, rfl⟩ := Prod.mk.inj (Option.some.inj h)
      rw [hpc]
      rfl
  next hpc =>
    obtain ⟨-, rfl⟩ := Prod.mk.inj (Option.some.inj h)
    rfl
  next hpc =>
    obtain ⟨-, rfl⟩ := Prod.mk.inj (Option.some.inj h)
    rfl
  next => cases h

theorem call_inChild {ok : Bool} (h : call g ps x ok = some (g', y)) :
    y.pc.inChild = x.pc.inChild := by
  unfold call at h
  split at h
  case h_6 hpc =>
    split at h
    · obtain ⟨-, rfl⟩ := Prod.mk.inj (Option.some.inj h)
      rw [hpc]
      rfl
    · cases h
  case h_7 => cases h
  all_goals
    rename_i hpc
    obtain ⟨-, rfl⟩ := Prod.mk.inj (Option.some.inj h)
    rw [hpc]
    rfl

theorem transfer_inChild {n : Option ℕ} (h : transfer g ps x n = some (g', y)) :
    y.pc.inChild = x.pc.inChild := by
  unfold transfer at h
  split at h
  -- each transfer leads from one statement of a branch to another one of the same branch
  case h_8 => cases h
  case h_3 =>
    rename_i hpc
    split at h
    · obtain ⟨-, rfl⟩ := Prod.mk.inj (Option.some.inj h)
      simp [hpc, Pc.inChild]
    · cases h
  case h_2 =>
    rename_i hpc
    split at h
    · obtain ⟨-, rfl⟩ := Prod.mk.inj (Option.some.inj h)
      simp [hpc, Pc.inChild]
    · cases h
  case h_7 =>
    rename_i hpc
    split at h
    · obtain ⟨-, rfl⟩ := Prod.mk.inj (Option.some.inj h)
      simp [hpc, Pc.inChild]
    · cases h
  all_goals
    rename_i hpc
    obtain ⟨-, rfl⟩ := Prod.mk.inj (Option.some.inj h)
    simp [hpc, Pc.inChild]

theorem fork_cases {f : Fork Proc} (h : x.fork = some f) :
    x.pc = .fork ∧ f.child = { x with pc := .childCloseWrite } ∧
      f.parent = { x with pc := .parentCloseRead } ∧
      f.failed = { x with pc := .childCloseWrite } := by
  unfold Proc.fork at h
  split at h
  next hpc =>
    obtain rfl := Option.some.inj h
    exact ⟨hpc, rfl, rfl, rfl⟩
  next => cases h

theorem fallsThrough : program.FallsThrough fun x => x.pc.inChild where
  start _ _ hx := by rw [hx.2.2]; rfl
  exec g ps x a g' y h := by
    cases a with
    | go => exact go_inChild h
    | call ok => exact call_inChild h
    | transfer n => exact transfer_inChild h
    | kill =>
        simp only [program, next] at h
        split at h
        · cases h
        · obtain ⟨-, rfl⟩ := Prod.mk.inj (Option.some.inj h)
          rfl
  outside x f hf := by simp [(fork_cases hf).1, Pc.inChild]
  child x f hf := by simp [(fork_cases hf).2.1, Pc.inChild]
  parent x f hf := by simp [(fork_cases hf).2.2.1, Pc.inChild]
  failed x f hf := by simp [(fork_cases hf).2.2.2, Pc.inChild]

end Tlpi.SimplePipe
