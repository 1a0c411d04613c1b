import Tlpi.Lib.Fork
import Tlpi.Posix.Base

set_option autoImplicit false

/-! # A shared integer (memory_mappings/anony_mmap.c)

The parent maps memory that it shares with its child and puts 1 there; the child adds 1, and the
parent waits for its end and prints the value. A failed call is only reported, also a failed `fork`,
after which the parent goes on in the branch of the child.
-/

namespace Tlpi.AnonyMmap

inductive Pc where
  | start
  | openZero
  | mmap
  | closeZero
  | store
  | fork
  | childPrint
  | childIncrement
  | childMunmap
  | childExit
  | parentWait
  | parentPrint
  | parentMunmap
  | parentExit
  | exited (inChild : Bool) (status : Option ℕ)
deriving DecidableEq, Repr

/-- The branch `case 0` of the `switch`. -/
def Pc.inChild : Pc → Bool
  | .childPrint => true
  | .childIncrement => true
  | .childMunmap => true
  | .childExit => true
  | .exited inChild _ => inChild
  | _ => false

def Pc.status : Pc → Option ℕ
  | .exited _ status => status
  | _ => none

/-- A process: whether it has /dev/zero open, and whether its `addr` points to mapped memory. -/
structure Proc where
  pc : Pc
  fd : Bool
  mapped : Bool
deriving DecidableEq, Repr

inductive Line where
  | childStarted (value : BitVec 32)
  | inParent (value : BitVec 32)
deriving DecidableEq, Repr

/-- Whether the program was compiled with `USE_MAP_ANON`, the integer, and the lines printed. -/
structure Shared where
  useMapAnon : Bool
  value : BitVec 32
  stdout : List Line
deriving DecidableEq, Repr

inductive Call where
  | go
  | call (ok : Bool)
  | kill
deriving DecidableEq, Repr

def Proc.exit (x : Proc) (status : Option ℕ) : Proc := ⟨.exited x.pc.inChild status, false, false⟩

def Proc.hasExited (x : Proc) : Bool :=
  match x.pc with
  | .exited _ _ => true
  | _ => false

/-- Steps without a system call that may fail. An access through `MAP_FAILED` ends the process. -/
def go (g : Shared) (x : Proc) : Option (Shared × Proc) :=
  match x.pc with
  | .start => some (g, { x with pc := if g.useMapAnon then .mmap else .openZero })
  | .store =>
      some (if x.mapped then ({ g with value := 1 }, { x with pc := .fork }) else (g, x.exit none))
  | .childPrint =>
      some ({ g with stdout := g.stdout ++ [.childStarted g.value] },
        { x with pc := .childIncrement })
  | .childIncrement => some ({ g with value := g.value + 1 }, { x with pc := .childMunmap })
  | .childExit => some (g, x.exit (some 0))
  | .parentPrint =>
      some ({ g with stdout := g.stdout ++ [.inParent g.value] }, { x with pc := .parentMunmap })
  | .parentExit => some (g, x.exit (some 0))
  | _ => none

/-- A system call. `mmap` of /dev/zero fails if that is not open; `wait` returns once a child has
ended. -/
def call (g : Shared) (ps : List Proc) (x : Proc) (ok : Bool) : Option (Shared × Proc) :=
  match x.pc with
  | .openZero => some (g, { x with pc := .mmap, fd := ok })
  | .mmap =>
      some (g, { x with
        pc := if g.useMapAnon then .store else .closeZero
        mapped := ok && (g.useMapAnon || x.fd) })
  | .closeZero => some (g, { x with pc := .store, fd := false })
  | .childMunmap => some (g, { x with pc := .childExit, mapped := !ok })
  | .parentWait =>
      if ok = false ∨ ps.tail.any Proc.hasExited = true then some (g, { x with pc := .parentPrint })
      else none
  | .parentMunmap => some (g, { x with pc := .parentExit, mapped := !ok })
  | _ => none

def next (g : Shared) (ps : List Proc) (x : Proc) : Call → Option (Shared × Proc)
  | .go => go g x
  | .call ok => call g ps x ok
  | .kill => if x.hasExited then none else some (g, x.exit none)

/-- `switch (fork())`: the branch for -1 leads into the one for 0. -/
def Proc.fork (x : Proc) : Option (Fork Proc) :=
  match x.pc with
  | .fork => some
      { child := { x with pc := .childPrint }
        parent := { x with pc := .parentWait }
        failed := { x with pc := .childPrint } }
  | _ => none

def program : ForkProg Shared Proc Call where
  Start g x := g.stdout = [] ∧ x = ⟨.start, false, false⟩
  exec := next
  fork := Proc.fork

/-! ## The branch of the child -/

variable {g g' : Shared} {ps : List Proc} {x y : Proc}

theorem go_inChild (h : go g x = some (g', y)) : y.pc.inChild = x.pc.inChild := by
  unfold go at h
  split at h
  case h_1 hpc =>
    obtain ⟨-, rfl⟩ := Prod.mk.inj (Option.some.inj h)
    cases g.useMapAnon <;> simp [hpc, Pc.inChild]
  case h_2 hpc =>
    cases hmapped : x.mapped with
    | true =>
        rw [hmapped] at h
        obtain ⟨-, rfl⟩ := Prod.mk.inj (Option.some.inj h)
        simp [hpc, Pc.inChild]
    | false =>
        rw [hmapped] at h
        obtain ⟨-, rfl⟩ := Prod.mk.inj (Option.some.inj h)
        rfl
  case h_8 => cases h
  all_goals
    rename_i hpc
    obtain ⟨-, rfl⟩ := Prod.mk.inj (Option.some.inj h)
    simp [hpc, Pc.inChild, Proc.exit]

theorem call_inChild {ok : Bool} (h : call g ps x ok = some (g', y)) :
    y.pc.inChild = x.pc.inChild := by
  unfold call at h
  split at h
  case h_2 hpc =>
    obtain ⟨-, rfl⟩ := Prod.mk.inj (Option.some.inj h)
    cases g.useMapAnon <;> simp [hpc, Pc.inChild]
  case h_5 hpc =>
    split at h
    · obtain ⟨-, rfl⟩ := Prod.mk.inj (Option.some.inj h)
      simp [hpc, Pc.inChild]
    · cases h
  case h_7 => cases h
  all_goals
    rename_i hpc
    obtain ⟨-, rfl⟩ := Prod.mk.inj (Option.some.inj h)
    simp [hpc, Pc.inChild]

theorem fork_cases {f : Fork Proc} (h : x.fork = some f) :
    x.pc = .fork ∧ f.child = { x with pc := .childPrint } ∧
      f.parent = { x with pc := .parentWait } ∧ f.failed = { x with pc := .childPrint } := by
  unfold Proc.fork at h
  split at h
  next hpc =>
    obtain rfl := Option.some.inj h
    exact ⟨hpc, rfl, rfl, rfl⟩
  next => cases h

theorem fallsThrough : program.FallsThrough fun x => x.pc.inChild where
  start _ _ hx := by rw [hx.2]; rfl
  exec g ps x a g' y h := by
    cases a with
    | go => exact go_inChild h
    | call ok => exact call_inChild h
    | kill =>
        simp only [program, next] at h
        split at h
        · cases h
        · obtain ⟨-, rfl⟩ := Prod.mk.inj (Option.some.inj h)
          rfl
  outside x f hf := by simp [(fork_cases hf).1, Pc.inChild]
  child x f hf := by simp [(fork_cases hf).2.1, Pc.inChild]
  parent x f hf := by simp [(fork_cases hf).2.2.1, Pc.inChild]
  failed x f hf := by simp [(fork_cases hf).2.2.2, Pc.inChild]

end Tlpi.AnonyMmap
