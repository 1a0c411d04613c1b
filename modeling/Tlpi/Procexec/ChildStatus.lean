import Tlpi.Posix.Strtol
import Tlpi.Procexec.WaitStatus

set_option autoImplicit false

/-! # Waiting for a child (procexec/child_status.c)

The parent is to wait until its child has exited or was killed, and to report everything `waitpid`
says on the way. The body of `if (childPid == -1)` has two lines and no braces, so that its `exit`
is not part of it: the parent exits after the first call of `waitpid`, whatever that returned.
-/

namespace Tlpi.ChildStatus

open WaitStatus

inductive Printed where
  | usage (argv0 : List UInt8)
  | perror (call : List UInt8)
  | childStarted (pid : ℕ)
  | waitpidReturned (childPid : ℕ) (status : BitVec 32)
  | report (text : List UInt8)
deriving DecidableEq, Repr

/-- A process that prints and can exit. -/
abbrev Prog := ExceptT (BitVec 32) (StateM (List Printed))

def print (line : Printed) : Prog Unit := modify (· ++ [line])

def exit (status : BitVec 32) : Prog Unit := throw status

/-- The exit status, or `none` for a process that still waits, and what was printed. -/
def outcome (prog : Prog Unit) : Option (BitVec 32) × List Printed :=
  match prog.run.run [] with
  | (.error status, printed) => (some status, printed)
  | (.ok _, printed) => (none, printed)

section

variable (strsignal : BitVec 32 → List UInt8)

/-- The loop of the parent, for what successive calls of `waitpid` return; `none` is -1. When there
is nothing more to return, the parent waits. -/
def parent : List (Option (ℕ × BitVec 32)) → Prog Unit
  | [] => pure ()
  | result :: results => do
      if result = none then
        print (.perror (str "waitpid"))
      exit (.ofNat 32 EXIT_FAILURE)
      -- not reached
      let (childPid, status) := result.getD (0, 0)
      print (.waitpidReturned childPid status)
      print (.report (printWaitStatus strsignal none status))
      if WIFEXITED status || WIFSIGNALED status then
        exit (.ofNat 32 EXIT_SUCCESS)
      parent results

/-- What a process learns from `fork`. -/
inductive Fork where
  | failed
  | child (pid : ℕ)
  | parent (results : List (Option (ℕ × BitVec 32)))

def main (argv : List (List UInt8)) (fork : Fork) : Prog Unit := do
  if argv[1]? = some (str "--help") then
    print (.usage (argv.headD []))
    exit (.ofNat 32 EXIT_FAILURE)
  match fork with
  | .failed =>
      print (.perror (str "fork"))
      exit (.ofNat 32 EXIT_FAILURE)
  | .child pid =>
      print (.childStarted pid)
      match argv[1]? with
      | some arg => exit (atoi arg)
      | none => pure () -- `pause`, for ever
  | .parent results => parent strsignal results

end

/-! ## Reporting a child to its end -/

/-- The changes of state of a child, and how the waiting ends: with a last change of state, or with
a failure of `waitpid`. -/
structure Script where
  changes : List StateChange
  ending : Option StateChange
  interim : ∀ change ∈ changes, change.terminates = false
  final : ∀ change ∈ ending, change.terminates = true

namespace Script

variable (script : Script)

def reported : List StateChange := script.changes ++ script.ending.toList

def results (pid : ℕ) : List (Option (ℕ × BitVec 32)) :=
  script.changes.map (fun change => some (pid, change.status))
    ++ [script.ending.map fun change => (pid, change.status)]

end Script

/-- The texts of `printWaitStatus`. -/
def reports (printed : List Printed) : List (List UInt8) :=
  printed.filterMap fun line =>
    match line with
    | .report text => some text
    | _ => none

/-- The parent reports each change in order, waits until the ending, and exits with its status. -/
structure Faithful (strsignal : BitVec 32 → List UInt8) (pid : ℕ) (script : Script) : Prop where
  named : List.Forall₂ (fun change text => change.phrase <+: text) script.reported
    (reports (outcome (parent strsignal (script.results pid))).2)
  waits : ∀ n ≤ script.changes.length,
    (outcome (parent strsignal ((script.results pid).take n))).1 = none
  status : (outcome (parent strsignal (script.results pid))).1
    = some (.ofNat 32 (if script.ending = none then EXIT_FAILURE else EXIT_SUCCESS))

variable (strsignal : BitVec 32 → List UInt8)

/-- One round is all there is. -/
theorem outcome_parent_cons (result : Option (ℕ × BitVec 32))
    (results : List (Option (ℕ × BitVec 32))) :
    outcome (parent strsignal (result :: results))
      = (some (.ofNat 32 EXIT_FAILURE),
          if result = none then [.perror (str "waitpid")] else []) := by
  cases result with
  | none => rfl
  | some returned => rfl

/-- In the parent, `main` is its loop. -/
theorem outcome_main_parent {argv : List (List UInt8)} (h : argv[1]? ≠ some (str "--help"))
    (results : List (Option (ℕ × BitVec 32))) :
    outcome (main strsignal argv (.parent results)) = outcome (parent strsignal results) := by
  rw [main, if_neg h]

/-- **Reporting a child.** The parent reports the changes of state of its child exactly if there are
none, because already the first call of `waitpid` fails. -/
theorem child_reported_iff (pid : ℕ) (script : Script) :
    Faithful strsignal pid script ↔ script.changes = [] ∧ script.ending = none := by
  constructor
  · intro h
    -- after a first change the parent would still have to wait
    have hchanges : script.changes = [] := by
      cases hlist : script.changes with
      | nil => rfl
      | cons change changes =>
          have hwaits := h.waits 1 (by rw [hlist]; simp)
          rw [Script.results, hlist, List.map_cons, List.cons_append, List.take_succ_cons,
            outcome_parent_cons] at hwaits
          cases hwaits
    -- after a last one it would have to succeed
    have hstatus := h.status
    rw [Script.results, hchanges, List.map_nil, List.nil_append, outcome_parent_cons] at hstatus
    by_cases hending : script.ending = none
    · exact ⟨hchanges, hending⟩
    · rw [if_neg hending] at hstatus
      exact absurd (Option.some.inj hstatus) (by decide)
  · rintro ⟨hchanges, hending⟩
    have hresults : script.results pid = [none] := by
      rw [Script.results, hchanges, hending]
      rfl
    have houtcome := outcome_parent_cons strsignal none []
    refine ⟨?_, ?_, ?_⟩
    · rw [hresults, houtcome, Script.reported, hchanges, hending]
      exact List.Forall₂.nil
    · intro n hn
      rw [hchanges, List.length_nil, Nat.le_zero] at hn
      rw [hn, List.take_zero]
      rfl
    · rw [hresults, houtcome, if_pos hending]

/-- A child that exits at once, with status 0. -/
def exitsAtOnce : Script where
  changes := []
  ending := some (.exited 0)
  interim := by simp
  final := by simp [StateChange.terminates]

/-- It is not reported. -/
theorem exited_child_unreported :
    ¬ ∀ (strsignal : BitVec 32 → List UInt8) (pid : ℕ) (script : Script),
      Faithful strsignal pid script := by
  intro h
  have hstatus := (h (fun _ => []) 1 exitsAtOnce).status
  revert hstatus
  decide

end Tlpi.ChildStatus
