import Tlpi.Posix.Strtol
import Mathlib.Data.Finset.Insert
import Mathlib.Order.Bounds.Basic

set_option autoImplicit false

/-! # `t_select` (alternative_io/t_select.c)

`t_select {timeout|-} fd-num[rw]...` builds the descriptor sets for one call of `select` from its
arguments. `LoopInv` says what the argument loop has computed after some of its arguments: the sets,
`nfds`, and the descriptors it called `FD_SET` with. The loop compares a descriptor with
`FD_SETSIZE` and not with 0.
-/

namespace Tlpi.TSelect

open Decimal

def FD_SETSIZE : ℤ := 1024

/-- An `fd_set`: the descriptors in it. -/
abbrev FdSet := Finset ℤ

/-- `FD_SET(fd, &set)`. A set has bits for `0 .. FD_SETSIZE - 1`; with another descriptor C leaves
the effect undefined, and here the set stays as it is. -/
def fdSet (fd : ℤ) (set : FdSet) : FdSet :=
  if 0 ≤ fd ∧ fd < FD_SETSIZE then insert fd set else set

/-- A character matched by `[rw]`. -/
def isRw (c : UInt8) : Bool := c == chr 'r' || c == chr 'w'

/-- `sscanf(arg, "%d%2[rw]", &fd, buf)` if it converts both: `%d` skips white space and takes an
optional sign and digits, narrowed to `int`; `%2[rw]` takes one or two of the characters `r` and
`w`. What follows is not looked at. -/
def scanArg (arg : List UInt8) : Option (ℤ × List UInt8) :=
  if (strtol arg).2 = arg then none
  else
    let buf := ((strtol arg).2.take 2).takeWhile isRw
    if buf = [] then none else some ((atoi arg).toInt, buf)

def usageError (programName : List UInt8) : List UInt8 :=
  str "Usage:\t" ++ programName ++ str " \x7btimeout|-\x7d fd-num[rw]...\n"
    ++ str "\t- means infinite timeout; \n"
    ++ str "\tr = monitor for read\n"
    ++ str "\tw = monitor for write\n"
    ++ str "\te.g.: " ++ programName ++ str " - 0rw 1w\n"

/-- The variables of the argument loop, and the descriptors `FD_SET` was called with so far. -/
structure State where
  nfds : ℤ
  readfds : FdSet
  writefds : FdSet
  fdSetCalls : List ℤ

def State.init : State := ⟨0, ∅, ∅, []⟩

/-- The end of the loop's body, for a descriptor and its letters. -/
def addFd (fd : ℤ) (buf : List UInt8) (st : State) : State where
  nfds := if fd ≥ st.nfds then fd + 1 else st.nfds
  readfds := if chr 'r' ∈ buf then fdSet fd st.readfds else st.readfds
  writefds := if chr 'w' ∈ buf then fdSet fd st.writefds else st.writefds
  fdSetCalls := st.fdSetCalls ++ (if chr 'r' ∈ buf then [fd] else [])
    ++ (if chr 'w' ∈ buf then [fd] else [])

/-- `for (j = 2; j < argc; j++)`; an error is the text printed before the exit. -/
def argLoop (programName : List UInt8) : List (List UInt8) → State → Except (List UInt8) State
  | [], st => .ok st
  | arg :: args, st =>
      match scanArg arg with
      | none => .error (usageError programName)
      | some (fd, buf) =>
          if fd ≥ FD_SETSIZE then .error (str "file descriptor exceeds limit (1024)\n")
          else argLoop programName args (addFd fd buf st)

/-- The call `select(nfds, &readfds, &writefds, NULL, pto)`; `tvSec` is `none` for `pto == NULL`,
and `tv_usec` is 0. -/
structure SelectCall where
  nfds : ℤ
  readfds : FdSet
  writefds : FdSet
  tvSec : Option ℤ

/-- `main` up to the call of `select`. -/
def tSelect (argv : List (List UInt8)) : Except (List UInt8) SelectCall :=
  let programName := argv.headD []
  match argv.tail with
  | [] => .error (usageError programName)
  | arg :: args =>
      if arg = str "--help" then .error (usageError programName)
      else
        let tvSec := if arg = str "-" then none else some (strtol arg).1
        match argLoop programName args .init with
        | .error text => .error text
        | .ok st => .ok ⟨st.nfds, st.readfds, st.writefds, tvSec⟩

/-- The lines printed after `select` has left its results in the sets, one for each `fd` from 0 to
`nfds - 1`. -/
def resultLines (nfds : ℤ) (readfds writefds : FdSet) : List (List UInt8) :=
  (List.range nfds.toNat).map fun fd : ℕ =>
    numeral fd ++ str ": " ++ (if (fd : ℤ) ∈ readfds then str "r" else [])
      ++ (if (fd : ℤ) ∈ writefds then str "w" else []) ++ str "\n"

/-! ## The argument loop -/

/-- One of the arguments gives the descriptor. -/
def Accepted (args : List (List UInt8)) (fd : ℤ) : Prop :=
  ∃ arg ∈ args, ∃ buf, scanArg arg = some (fd, buf)

/-- One of the arguments gives the descriptor with this letter. -/
def Monitored (args : List (List UInt8)) (letter : UInt8) (fd : ℤ) : Prop :=
  ∃ arg ∈ args, ∃ buf, scanArg arg = some (fd, buf) ∧ letter ∈ buf

/-- One more argument that gives `fd` with the letters `buf`. -/
theorem exists_scanArg_concat {args : List (List UInt8)} {arg buf : List UInt8} {fd : ℤ}
    (h : scanArg arg = some (fd, buf)) (P : List UInt8 → Prop) (x : ℤ) :
    (∃ a ∈ args ++ [arg], ∃ b, scanArg a = some (x, b) ∧ P b)
      ↔ (∃ a ∈ args, ∃ b, scanArg a = some (x, b) ∧ P b) ∨ x = fd ∧ P buf := by
  constructor
  · rintro ⟨a, ha, b, hb, hP⟩
    rcases List.mem_append.mp ha with ha | ha
    · exact Or.inl ⟨a, ha, b, hb, hP⟩
    · rw [List.mem_singleton.mp ha, h] at hb
      cases hb
      exact Or.inr ⟨rfl, hP⟩
  · rintro (⟨a, ha, b, hb, hP⟩ | ⟨rfl, hP⟩)
    · exact ⟨a, List.mem_append_left _ ha, b, hb, hP⟩
    · exact ⟨arg, by simp, buf, h, hP⟩

theorem accepted_concat {args : List (List UInt8)} {arg buf : List UInt8} {fd : ℤ}
    (h : scanArg arg = some (fd, buf)) (x : ℤ) :
    Accepted (args ++ [arg]) x ↔ Accepted args x ∨ x = fd := by
  simpa [Accepted] using exists_scanArg_concat h (fun _ => True) x

theorem monitored_concat {args : List (List UInt8)} {arg buf : List UInt8} {fd : ℤ}
    (h : scanArg arg = some (fd, buf)) (letter : UInt8) (x : ℤ) :
    Monitored (args ++ [arg]) letter x ↔ Monitored args letter x ∨ x = fd ∧ letter ∈ buf :=
  exists_scanArg_concat h (letter ∈ ·) x

/-- The suffix of an accepted argument holds `r` or `w`. -/
theorem scanArg_letter {arg buf : List UInt8} {fd : ℤ} (h : scanArg arg = some (fd, buf)) :
    chr 'r' ∈ buf ∨ chr 'w' ∈ buf := by
  unfold scanArg at h
  split at h
  · cases h
  · dsimp only at h
    split at h
    · cases h
    · rename_i hne
      cases h
      obtain ⟨c, hc⟩ := List.exists_mem_of_ne_nil _ hne
      have hrw : isRw c = true := List.mem_takeWhile_imp hc
      simp only [isRw, Bool.or_eq_true, beq_iff_eq] at hrw
      rcases hrw with rfl | rfl
      · exact Or.inl hc
      · exact Or.inr hc

theorem mem_fdSet {fd x : ℤ} {set : FdSet} :
    x ∈ fdSet fd set ↔ x ∈ set ∨ x = fd ∧ 0 ≤ x ∧ x < FD_SETSIZE := by
  unfold fdSet
  split
  · rename_i h
    rw [Finset.mem_insert]
    constructor
    · rintro (rfl | hx)
      · exact Or.inr ⟨rfl, h⟩
      · exact Or.inl hx
    · rintro (hx | ⟨rfl, -⟩)
      · exact Or.inr hx
      · exact Or.inl rfl
  · rename_i h
    constructor
    · exact Or.inl
    · rintro (hx | ⟨rfl, hx⟩)
      · exact hx
      · exact absurd hx h

/-- A set after `if (strchr(buf, letter) != NULL) FD_SET(fd, &set);`. -/
theorem mem_fdSet_letter {letter : UInt8} {buf : List UInt8} {fd x : ℤ} {set : FdSet} :
    x ∈ (if letter ∈ buf then fdSet fd set else set)
      ↔ x ∈ set ∨ (x = fd ∧ letter ∈ buf) ∧ 0 ≤ x ∧ x < FD_SETSIZE := by
  split
  · rename_i hletter
    rw [mem_fdSet]
    simp [hletter]
  · rename_i hletter
    simp [hletter]

/-- What the loop has computed from the arguments `done`. A negative descriptor leaves its trace in
`fdSetCalls` only. -/
structure LoopInv (done : List (List UInt8)) (st : State) : Prop where
  below : ∀ x, Accepted done x → x < FD_SETSIZE
  read : ∀ x, x ∈ st.readfds ↔ Monitored done (chr 'r') x ∧ 0 ≤ x ∧ x < FD_SETSIZE
  write : ∀ x, x ∈ st.writefds ↔ Monitored done (chr 'w') x ∧ 0 ≤ x ∧ x < FD_SETSIZE
  calls : ∀ x, x ∈ st.fdSetCalls ↔ Accepted done x
  nfds_ge : 0 ≤ st.nfds ∧ ∀ x, Accepted done x → x < st.nfds
  nfds_eq : st.nfds = 0 ∨ Accepted done (st.nfds - 1)

theorem LoopInv.init : LoopInv [] .init where
  below := by simp [Accepted]
  read := by simp [State.init, Monitored]
  write := by simp [State.init, Monitored]
  calls := by simp [State.init, Accepted]
  nfds_ge := by simp [State.init, Accepted]
  nfds_eq := Or.inl rfl

/-- The body of the loop. -/
theorem LoopInv.addFd {done : List (List UInt8)} {st : State} (hinv : LoopInv done st)
    {arg buf : List UInt8} {fd : ℤ} (h : scanArg arg = some (fd, buf)) (hfd : fd < FD_SETSIZE) :
    LoopInv (done ++ [arg]) (addFd fd buf st) where
  below := by
    intro x hx
    rcases (accepted_concat h x).mp hx with hx | rfl
    · exact hinv.below x hx
    · exact hfd
  read := by
    intro x
    rw [monitored_concat h, or_and_right, ← hinv.read]
    exact mem_fdSet_letter
  write := by
    intro x
    rw [monitored_concat h, or_and_right, ← hinv.write]
    exact mem_fdSet_letter
  calls := by
    intro x
    rw [accepted_concat h, ← hinv.calls]
    have hletter := scanArg_letter h
    simp only [TSelect.addFd, List.mem_append]
    by_cases hr : chr 'r' ∈ buf <;> by_cases hw : chr 'w' ∈ buf <;> simp [hr, hw]
    exact absurd hletter (by simp [hr, hw])
  nfds_ge := by
    obtain ⟨hzero, hall⟩ := hinv.nfds_ge
    simp only [TSelect.addFd]
    constructor
    · split <;> omega
    · intro x hx
      rcases (accepted_concat h x).mp hx with hx | rfl
      · have := hall x hx
        split <;> omega
      · split <;> omega
  nfds_eq := by
    simp only [TSelect.addFd]
    split
    · right
      rw [accepted_concat h]
      right
      omega
    · exact hinv.nfds_eq.imp id fun hx => (accepted_concat h _).mpr (Or.inl hx)

/-- The whole loop: the invariant holds of all arguments when it gets through. -/
theorem argLoop_inv {programName : List UInt8} {args done : List (List UInt8)} {st st' : State}
    (hinv : LoopInv done st) (h : argLoop programName args st = .ok st') :
    LoopInv (done ++ args) st' := by
  induction args generalizing done st with
  | nil =>
      cases h
      rw [List.append_nil]
      exact hinv
  | cons arg args ih =>
      rw [argLoop] at h
      split at h
      · cases h
      · rename_i fd buf hscan
        split at h
        · cases h
        · rename_i hfd
          have := ih (hinv.addFd hscan (by omega)) h
          rwa [List.append_assoc, List.singleton_append] at this

theorem argLoop_cons {programName : List UInt8} {arg : List UInt8} {args : List (List UInt8)}
    {st st' : State} (h : argLoop programName (arg :: args) st = .ok st') :
    ∃ fd buf, scanArg arg = some (fd, buf) := by
  rw [argLoop] at h
  split at h
  · cases h
  · rename_i fd buf hscan
    exact ⟨fd, buf, hscan⟩

theorem LoopInv.nfds_le {done : List (List UInt8)} {st : State} (hinv : LoopInv done st) :
    st.nfds ≤ FD_SETSIZE := by
  rcases hinv.nfds_eq with heq | hacc
  · rw [heq]
    decide
  · have := hinv.below _ hacc
    omega

/-- `select` gets what the argument loop leaves. -/
theorem tSelect_ok {argv : List (List UInt8)} {call : SelectCall} (h : tSelect argv = .ok call) :
    ∃ st, argLoop (argv.headD []) (argv.drop 2) .init = .ok st
      ∧ call.nfds = st.nfds ∧ call.readfds = st.readfds ∧ call.writefds = st.writefds := by
  unfold tSelect at h
  dsimp only at h
  split at h
  · cases h
  · rename_i arg args htail
    split at h
    · cases h
    · split at h
      · cases h
      · rename_i st hloop
        have hdrop : argv.drop 2 = args := by
          rw [← List.tail_drop, List.drop_one, htail, List.tail_cons]
        cases h
        exact ⟨st, by rw [hdrop, hloop], rfl, rfl, rfl⟩

/-- Whatever the arguments, the loop over the results tests only descriptors that have a bit. -/
theorem resultLines_length_le {argv : List (List UInt8)} {call : SelectCall}
    (h : tSelect argv = .ok call) (readfds writefds : FdSet) :
    ((resultLines call.nfds readfds writefds).length : ℤ) ≤ FD_SETSIZE := by
  obtain ⟨st, hloop, hnfds, -⟩ := tSelect_ok h
  have hinv := argLoop_inv LoopInv.init hloop
  have hle := hinv.nfds_le
  have hge := hinv.nfds_ge.1
  rw [resultLines, List.length_map, List.length_range, hnfds, Int.toNat_of_nonneg hge]
  exact hle

/-- Valid sets: `FD_SET` was only called with descriptors that have a bit, the sets hold what the
arguments ask for, and `nfds` is one more than the largest descriptor. -/
def ValidSets (args : List (List UInt8)) (st : State) : Prop :=
  (∀ fd ∈ st.fdSetCalls, 0 ≤ fd ∧ fd < FD_SETSIZE)
  ∧ (∀ fd, fd ∈ st.readfds ↔ Monitored args (chr 'r') fd)
  ∧ (∀ fd, fd ∈ st.writefds ↔ Monitored args (chr 'w') fd)
  ∧ (args = [] → st.nfds = 0)
  ∧ (args ≠ [] → IsGreatest { fd | Accepted args fd } (st.nfds - 1))

/-- **When the sets are valid.** If the argument loop gets through, the sets and `nfds` it leaves
are valid exactly if no argument gives a negative descriptor. -/
theorem validSets_iff {programName : List UInt8} {args : List (List UInt8)} {st : State}
    (h : argLoop programName args .init = .ok st) :
    ValidSets args st ↔ ∀ fd, Accepted args fd → 0 ≤ fd := by
  have hinv := argLoop_inv LoopInv.init h
  rw [List.nil_append] at hinv
  constructor
  · rintro ⟨hcalls, -⟩ fd hfd
    exact (hcalls fd ((hinv.calls fd).mpr hfd)).1
  · intro hnonneg
    have hrange : ∀ x, Accepted args x → 0 ≤ x ∧ x < FD_SETSIZE :=
      fun x hx => ⟨hnonneg x hx, hinv.below x hx⟩
    have hmonitored : ∀ letter x, Monitored args letter x → 0 ≤ x ∧ x < FD_SETSIZE := by
      rintro letter x ⟨arg, harg, buf, hscan, -⟩
      exact hrange x ⟨arg, harg, buf, hscan⟩
    refine ⟨?_, ?_, ?_, ?_, ?_⟩
    · intro x hx
      exact hrange x ((hinv.calls x).mp hx)
    · intro x
      rw [hinv.read]
      exact and_iff_left_of_imp (hmonitored _ x)
    · intro x
      rw [hinv.write]
      exact and_iff_left_of_imp (hmonitored _ x)
    · rintro rfl
      cases h
      rfl
    · intro hne
      refine ⟨?_, ?_⟩
      · rcases hinv.nfds_eq with heq | hacc
        · -- the first argument gives a descriptor below `nfds`
          obtain ⟨arg, rest, rfl⟩ := List.exists_cons_of_ne_nil hne
          obtain ⟨fd, buf, hscan⟩ := argLoop_cons h
          have hacc : Accepted (arg :: rest) fd := ⟨arg, List.mem_cons_self, buf, hscan⟩
          have := (hrange fd hacc).1
          have := hinv.nfds_ge.2 fd hacc
          omega
        · exact hacc
      · intro x hx
        have := hinv.nfds_ge.2 x hx
        omega

theorem validSets_stdio :
    ∃ st, argLoop (str "t_select") [str "0r", str "1w"] .init = .ok st
      ∧ ValidSets [str "0r", str "1w"] st := by
  have hzero : scanArg (str "0r") = some (0, str "r") := by decide
  have hone : scanArg (str "1w") = some (1, str "w") := by decide
  have hloop : argLoop (str "t_select") [str "0r", str "1w"] .init
      = .ok (addFd 1 (str "w") (addFd 0 (str "r") .init)) := by
    simp [argLoop, hzero, hone, FD_SETSIZE]
  refine ⟨_, hloop, (validSets_iff hloop).mpr ?_⟩
  rintro fd ⟨arg, harg, buf, hscan⟩
  simp only [List.mem_cons, List.not_mem_nil, or_false] at harg
  rcases harg with rfl | rfl
  · rw [hzero] at hscan
    cases hscan
    decide
  · rw [hone] at hscan
    cases hscan
    decide

/-- `t_select - -1r` gets through, having called `FD_SET(-1, &readfds)`. -/
theorem validSets_fails_negative :
    ∃ st, argLoop (str "t_select") [str "-1r"] .init = .ok st
      ∧ -1 ∈ st.fdSetCalls ∧ ¬ ValidSets [str "-1r"] st := by
  have hscan : scanArg (str "-1r") = some (-1, str "r") := by decide
  have hloop : argLoop (str "t_select") [str "-1r"] .init = .ok (addFd (-1) (str "r") .init) := by
    simp [argLoop, hscan, FD_SETSIZE]
  have hcall : -1 ∈ (addFd (-1) (str "r") .init).fdSetCalls := by decide
  refine ⟨_, hloop, hcall, ?_⟩
  rintro ⟨hcalls, -⟩
  exact absurd (hcalls (-1) hcall).1 (by decide)

end Tlpi.TSelect
