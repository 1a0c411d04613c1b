import Tlpi.Posix.Signals
import Tlpi.Posix.Stdio

set_option autoImplicit false

/-! # Wait statuses (procexec/print_wait_status.c)

The status word `waitpid` fills in for a change of state of a child, the macros of `<sys/wait.h>`
that take it apart, and `printWaitStatus`, which says what happened. Of the four kinds of change it
names three: `WIFCONTINUED` is tested inside the branch of the stopped children, where it is false.
-/

namespace Tlpi.WaitStatus

open Decimal

/-- What can happen to a child. -/
inductive StateChange where
  | exited (code : UInt8)
  | killed (sig : Signal) (core : Bool)
  | stopped (sig : Signal)
  | continued
deriving DecidableEq, Repr

namespace StateChange

/-- The status word as a number. -/
def word : StateChange → ℕ
  | exited code => code.toNat * 256
  | killed sig core => sig.num + (if core then 128 else 0)
  | stopped sig => sig.num * 256 + 127
  | continued => 65535

def status (change : StateChange) : BitVec 32 := BitVec.ofNat 32 change.word

/-- The child is gone. -/
def terminates : StateChange → Bool
  | exited _ => true
  | killed _ _ => true
  | stopped _ => false
  | continued => false

end StateChange

/-! ## The macros of `<sys/wait.h>` -/

section Macros

variable (status : BitVec 32)

def WEXITSTATUS : BitVec 32 := (status &&& 0xff00) >>> 8

def WTERMSIG : BitVec 32 := status &&& 0x7f

def WSTOPSIG : BitVec 32 := WEXITSTATUS status

def WIFEXITED : Bool := WTERMSIG status = 0

/-- `((signed char) (((status) & 0x7f) + 1) >> 1) > 0`. -/
def WIFSIGNALED : Bool :=
  let c : BitVec 8 := ((status &&& 0x7f) + 1).setWidth 8
  0 < (c.sshiftRight 1).toInt

def WIFSTOPPED : Bool := status &&& 0xff = 0x7f

def WIFCONTINUED : Bool := status = 0xffff

def WCOREDUMP : Bool := status &&& 0x80 ≠ 0

end Macros

/-- What `printWaitStatus` prints; `none` is a `NULL` message. -/
def printWaitStatus (strsignal : BitVec 32 → List UInt8) (msg : Option (List UInt8))
    (status : BitVec 32) : List UInt8 :=
  msg.getD [] ++
    if WIFEXITED status then
      str "child exited, status=" ++ intNumeral (WEXITSTATUS status).toInt ++ str "\n"
    else if WIFSIGNALED status then
      str "child killed by signal " ++ intNumeral (WTERMSIG status).toInt ++ str "("
        ++ strsignal (WTERMSIG status) ++ str ")"
        ++ (if WCOREDUMP status then str "(core dumped)" else []) ++ str "\n"
    else if WIFSTOPPED status then
      str "child stopped by signal " ++ intNumeral (WSTOPSIG status).toInt ++ str " ("
        ++ strsignal (WSTOPSIG status) ++ str ")\n"
        -- never true: a continued child does not come here
        ++ (if WIFCONTINUED status then str "child continued" else []) ++ str "\n"
    else str "What happened to this child?, (status=" ++ hex status ++ str ")\n"

/-! ## The macros on numbers -/

section Numbers

variable (status : BitVec 32)

theorem WTERMSIG_toNat : (WTERMSIG status).toNat = status.toNat % 128 := by
  rw [WTERMSIG, BitVec.toNat_and]
  exact Nat.and_two_pow_sub_one_eq_mod status.toNat 7

theorem WEXITSTATUS_toNat : (WEXITSTATUS status).toNat = status.toNat / 256 % 256 := by
  have hmask : (0xff00 : BitVec 32) >>> 8 = 0xff := by decide
  rw [WEXITSTATUS, BitVec.ushiftRight_and_distrib, hmask, BitVec.toNat_and,
    BitVec.toNat_ushiftRight, Nat.shiftRight_eq_div_pow]
  exact Nat.and_two_pow_sub_one_eq_mod (status.toNat / 2 ^ 8) 8

theorem WIFEXITED_iff : WIFEXITED status ↔ status.toNat % 128 = 0 := by
  rw [WIFEXITED, decide_eq_true_iff, ← BitVec.toNat_inj, WTERMSIG_toNat]
  rfl

theorem WIFSTOPPED_iff : WIFSTOPPED status ↔ status.toNat % 256 = 127 := by
  rw [WIFSTOPPED, decide_eq_true_iff, ← BitVec.toNat_inj, BitVec.toNat_and]
  exact iff_of_eq (congrArg (· = 127) (Nat.and_two_pow_sub_one_eq_mod status.toNat 8))

/-- The cast to `signed char` makes the largest seven bits negative. -/
theorem WIFSIGNALED_iff :
    WIFSIGNALED status ↔ 1 ≤ status.toNat % 128 ∧ status.toNat % 128 ≤ 126 := by
  have htable : ∀ n : Fin 128,
      0 < (((BitVec.ofNat 32 n + 1).setWidth 8).sshiftRight 1).toInt ↔ 1 ≤ n.val ∧ n.val ≤ 126 := by
    decide
  have hlow : status &&& 0x7f = BitVec.ofNat 32 (status.toNat % 128) := by
    rw [← BitVec.toNat_inj, ← WTERMSIG_toNat]
    simp [WTERMSIG]
  rw [WIFSIGNALED, decide_eq_true_iff, hlow]
  exact htable ⟨status.toNat % 128, Nat.mod_lt _ (by decide)⟩

end Numbers

/-! ## What is reported -/

/-- The words that name a change of state. -/
def StateChange.phrase : StateChange → List UInt8
  | exited code => str "child exited, status=" ++ numeral code.toNat ++ str "\n"
  | killed sig _ => str "child killed by signal " ++ numeral sig.num ++ str "("
  | stopped sig => str "child stopped by signal " ++ numeral sig.num ++ str " ("
  | continued => str "child continued"

variable (strsignal : BitVec 32 → List UInt8)

theorem word_lt (change : StateChange) : change.word < 65536 := by
  cases change with
  | exited code =>
      have hlt := code.toNat_lt
      simp only [StateChange.word]
      omega
  | killed sig core =>
      have hle := sig.le
      simp only [StateChange.word]
      split <;> omega
  | stopped sig =>
      have hle := sig.le
      simp only [StateChange.word]
      omega
  | continued => decide

@[simp] theorem status_toNat (change : StateChange) : change.status.toNat = change.word := by
  have hlt := word_lt change
  rw [StateChange.status, BitVec.toNat_ofNat]
  omega

/-- A field of the status word is printed by `%d` as it is. -/
theorem intNumeral_toInt {x : BitVec 32} {n : ℕ} (h : x.toNat = n) (hn : n < 256) :
    intNumeral x.toInt = numeral n := by
  have hint : x.toInt = n := by
    rw [BitVec.toInt_eq_toNat_cond, h]
    split <;> omega
  rw [hint, intNumeral, if_neg (by omega), Int.natAbs_natCast]

/-- The test on which a parent stops waiting. -/
theorem terminates_iff (change : StateChange) :
    (WIFEXITED change.status || WIFSIGNALED change.status) = change.terminates := by
  rw [Bool.eq_iff_iff, Bool.or_eq_true, WIFEXITED_iff, WIFSIGNALED_iff, status_toNat]
  cases change with
  | exited code => simp [StateChange.word, StateChange.terminates]; omega
  | killed sig core =>
      have hpos := sig.pos
      have hle := sig.le
      simp only [StateChange.word, StateChange.terminates, iff_true]
      split <;> omega
  | stopped sig => simp [StateChange.word, StateChange.terminates]; omega
  | continued => decide

theorem printWaitStatus_exited (code : UInt8) :
    printWaitStatus strsignal none (StateChange.exited code).status
      = (StateChange.exited code).phrase := by
  have hlt := code.toNat_lt
  have hword : (StateChange.exited code).word = code.toNat * 256 := rfl
  have hexited : WIFEXITED (StateChange.exited code).status = true := by
    rw [WIFEXITED_iff, status_toNat, hword]
    omega
  have hcode : (WEXITSTATUS (StateChange.exited code).status).toNat = code.toNat := by
    rw [WEXITSTATUS_toNat, status_toNat, hword]
    omega
  rw [printWaitStatus, if_pos hexited, intNumeral_toInt hcode hlt]
  rfl

theorem printWaitStatus_killed (sig : Signal) (core : Bool) :
    (StateChange.killed sig core).phrase
      <+: printWaitStatus strsignal none (StateChange.killed sig core).status := by
  have hpos := sig.pos
  have hle := sig.le
  have hsig : (StateChange.killed sig core).word % 128 = sig.num := by
    simp only [StateChange.word]
    split <;> omega
  have hexited : ¬ WIFEXITED (StateChange.killed sig core).status = true := by
    rw [WIFEXITED_iff, status_toNat, hsig]
    omega
  have hsignaled : WIFSIGNALED (StateChange.killed sig core).status = true := by
    rw [WIFSIGNALED_iff, status_toNat, hsig]
    omega
  have hterm : (WTERMSIG (StateChange.killed sig core).status).toNat = sig.num := by
    rw [WTERMSIG_toNat, status_toNat, hsig]
  rw [printWaitStatus, if_neg hexited, if_pos hsignaled, intNumeral_toInt hterm (by omega)]
  simp only [Option.getD_none, List.nil_append, List.append_assoc, StateChange.phrase,
    List.prefix_append_right_inj, List.prefix_append]

theorem printWaitStatus_stopped (sig : Signal) :
    (StateChange.stopped sig).phrase
      <+: printWaitStatus strsignal none (StateChange.stopped sig).status := by
  have hle := sig.le
  have hword : (StateChange.stopped sig).word = sig.num * 256 + 127 := rfl
  have hexited : ¬ WIFEXITED (StateChange.stopped sig).status = true := by
    rw [WIFEXITED_iff, status_toNat, hword]
    omega
  have hsignaled : ¬ WIFSIGNALED (StateChange.stopped sig).status = true := by
    rw [WIFSIGNALED_iff, status_toNat, hword]
    omega
  have hstopped : WIFSTOPPED (StateChange.stopped sig).status = true := by
    rw [WIFSTOPPED_iff, status_toNat, hword]
    omega
  have hsig : (WSTOPSIG (StateChange.stopped sig).status).toNat = sig.num := by
    rw [WSTOPSIG, WEXITSTATUS_toNat, status_toNat, hword]
    omega
  rw [printWaitStatus, if_neg hexited, if_neg hsignaled, if_pos hstopped,
    intNumeral_toInt hsig (by omega)]
  simp only [Option.getD_none, List.nil_append, List.append_assoc, StateChange.phrase,
    List.prefix_append_right_inj, List.prefix_append]

/-- A child that continued is not recognised. -/
theorem printWaitStatus_continued :
    ¬ StateChange.continued.phrase
      <+: printWaitStatus strsignal none StateChange.continued.status := by
  have hexited : ¬ WIFEXITED StateChange.continued.status = true := by decide
  have hsignaled : ¬ WIFSIGNALED StateChange.continued.status = true := by decide
  have hstopped : ¬ WIFSTOPPED StateChange.continued.status = true := by decide
  rw [printWaitStatus, if_neg hexited, if_neg hsignaled, if_neg hstopped]
  rintro ⟨rest, hrest⟩
  have hhead : some (chr 'c') = some (chr 'W') := congrArg List.head? hrest
  exact absurd hhead (by decide)

/-- `printWaitStatus` names what happened, unless the child continued. -/
theorem printWaitStatus_names_iff (change : StateChange) :
    change.phrase <+: printWaitStatus strsignal none change.status ↔ change ≠ .continued := by
  cases change with
  | exited code =>
      rw [printWaitStatus_exited]
      simp
  | killed sig core => simpa using printWaitStatus_killed strsignal sig core
  | stopped sig => simpa using printWaitStatus_stopped strsignal sig
  | continued => simpa using printWaitStatus_continued strsignal

end Tlpi.WaitStatus
