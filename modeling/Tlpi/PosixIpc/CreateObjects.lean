import Tlpi.Lib.Octal
import Tlpi.Posix.Getopt
import Tlpi.Posix.Strtol

set_option autoImplicit false

/-! # Creating POSIX IPC objects

`pmsg_create` (posix_message_queues/pmsg_create.c), `psem_create` (posix_semaphores/psem_create.c)
and `pshm_create` (posix_shared_memory/pshm_create.c) open a message queue, a semaphore and a
shared memory object. Each takes the permissions of a new object as an operand, which the usage
texts call `octal-perms`, and reads it with `atoi` or `atol`, in base 10.
-/

namespace Tlpi.CreateObjects

open Decimal

def O_RDWR : BitVec 32 := 0x2
def O_CREAT : BitVec 32 := 0x40
def O_EXCL : BitVec 32 := 0x80

/-- `S_IRUSR | S_IWUSR`, the permissions if none are given. -/
def defaultPerms : BitVec 32 := 0x180

/-- `atol(s)`. -/
def atol (s : List UInt8) : BitVec 64 := BitVec.ofInt 64 (strtol s).1

/-- `(argc <= optind + i) ? default : convert(argv[optind + i])`. -/
def operandOr {α : Type} (operands : List (List UInt8)) (i : ℕ) (default : α)
    (convert : List UInt8 → α) : α :=
  match operands[i]? with
  | none => default
  | some s => convert s

/-! ## `pmsg_create` -/

structure MqAttr where
  mq_maxmsg : ℤ
  mq_msgsize : ℤ
deriving DecidableEq, Repr

/-- The call `mq_open(name, flags, mode, attrp)`. -/
structure MqOpen where
  name : List UInt8
  flags : BitVec 32
  mode : BitVec 32
  attrp : Option MqAttr
deriving DecidableEq, Repr

def pmsgUsage (programName : List UInt8) : List UInt8 :=
  str "Usage: " ++ programName ++ str " [-cx] [-m maxmsg] [-s msgsize] mq-name [octal-perms]\n"
    ++ str "   -c      Create Queue (O_CREAT)\n"
    ++ str "   -m  maxmsg  Set maximum # of messages\n"
    ++ str "   -s msgsize Set maximum message size\n"
    ++ str "   -x      Create exclusively (O_EXCL)\n"

/-- The variables the options of `pmsg_create` set; `attrUsed` is `attrp == &attr`. -/
structure PmsgVars where
  flags : BitVec 32
  attr : MqAttr
  attrUsed : Bool

def pmsgOpt (c : UInt8) (optarg : Option (List UInt8)) (vars : PmsgVars) : Option PmsgVars :=
  if c = chr 'c' then some { vars with flags := vars.flags ||| O_CREAT }
  else if c = chr 'm' then
    some { vars with
      attr := { vars.attr with mq_maxmsg := (atoi (optarg.getD [])).toInt }, attrUsed := true }
  else if c = chr 's' then
    some { vars with
      attr := { vars.attr with mq_msgsize := (atoi (optarg.getD [])).toInt }, attrUsed := true }
  else if c = chr 'x' then some { vars with flags := vars.flags ||| O_EXCL }
  else none

def pmsgOptstring : List UInt8 := str "cm:s:x"

/-- The call of `mq_open` in `main`, or the text of the usage error. -/
def pmsgCreate (argv : List (List UInt8)) : Except (List UInt8) MqOpen :=
  let parsed := getopt pmsgOptstring argv.tail
  match optLoop pmsgOpt parsed.opts ⟨O_RDWR, ⟨10, 2048⟩, false⟩ with
  | none => .error (pmsgUsage (argv.headD []))
  | some vars =>
      match parsed.operands with
      | [] => .error (pmsgUsage (argv.headD []))
      | name :: _ =>
          let perms := operandOr parsed.operands 1 defaultPerms atoi
          .ok ⟨name, vars.flags, perms, if vars.attrUsed then some vars.attr else none⟩

/-! ## `psem_create` -/

/-- The call `sem_open(name, flags, mode, value)`. -/
structure SemOpen where
  name : List UInt8
  flags : BitVec 32
  mode : BitVec 32
  value : BitVec 32
deriving DecidableEq, Repr

def psemUsage (programName : List UInt8) : List UInt8 :=
  str "Usage: " ++ programName ++ str " [-cx] name [octal-perms [value]]\n"
    ++ str "       -c  Create Semaphore (O_CREAT)\n"
    ++ str "       -x  Create exclusively (O_EXCL)\n"

/-- The cases of the `switch` of `psem_create` and `pshm_create`. -/
def createOpt (c : UInt8) (_optarg : Option (List UInt8)) (flags : BitVec 32) :
    Option (BitVec 32) :=
  if c = chr 'c' then some (flags ||| O_CREAT)
  else if c = chr 'x' then some (flags ||| O_EXCL)
  else none

def createOptstring : List UInt8 := str "cx"

/-- The call of `sem_open` in `main`, or the text of the usage error. -/
def psemCreate (argv : List (List UInt8)) : Except (List UInt8) SemOpen :=
  let parsed := getopt createOptstring argv.tail
  match optLoop createOpt parsed.opts 0 with
  | none => .error (psemUsage (argv.headD []))
  | some flags =>
      match parsed.operands with
      | [] => .error (psemUsage (argv.headD []))
      | name :: _ =>
          let perms := operandOr parsed.operands 1 defaultPerms atoi
          let value := operandOr parsed.operands 2 0 atoi
          .ok ⟨name, flags, perms, value⟩

/-! ## `pshm_create` -/

/-- The call `shm_open(name, flags, mode)`, and the size for the calls of `ftruncate` and `mmap`
after it. -/
structure ShmOpen where
  name : List UInt8
  flags : BitVec 32
  mode : BitVec 32
  size : BitVec 64
deriving DecidableEq, Repr

def pshmUsage (programName : List UInt8) : List UInt8 :=
  str "Usage:\t" ++ programName ++ str "  [-cx]  name  size  [octal-perms]\n"
    ++ str "\t-c  Create shared memory (O_CREAT)\n"
    ++ str "\t-x  Create exclusively (O_EXCL)\n"

/-- The call of `shm_open` in `main`, or the text of the usage error. The `long` of `atol` is
narrowed to a `mode_t`. -/
def pshmCreate (argv : List (List UInt8)) : Except (List UInt8) ShmOpen :=
  let parsed := getopt createOptstring argv.tail
  match optLoop createOpt parsed.opts O_RDWR with
  | none => .error (pshmUsage (argv.headD []))
  | some flags =>
      match parsed.operands with
      | name :: size :: _ =>
          let perms := operandOr parsed.operands 2 defaultPerms fun s => (atol s).setWidth 32
          .ok ⟨name, flags, perms, atol size⟩
      | _ => .error (pshmUsage (argv.headD []))

/-! ## The mode that is passed -/

theorem atol_setWidth (s : List UInt8) : (atol s).setWidth 32 = atoi s := by
  apply BitVec.eq_of_toNat_eq
  rw [atol, atoi, BitVec.toNat_setWidth, BitVec.toNat_ofInt, BitVec.toNat_ofInt]
  omega

/-- The digits are read in base 10, and narrowed. -/
theorem atoi_octal_toNat {s : List UInt8} (hne : s ≠ []) (hoct : s.all isOctal = true)
    (hfit : value 8 s < 2 ^ 32) : (atoi s).toNat = misread (value 8 s) % 2 ^ 32 := by
  have hdig : s.all isDigit = true := by
    rw [List.all_eq_true] at hoct ⊢
    exact fun c hc => isDigit_of_isOctal (hoct c hc)
  have hstrtol := strtol_digits hdig hne (show ∀ c ∈ ([] : List UInt8).head?, _ by simp)
  rw [List.append_nil] at hstrtol
  have hlt := misread_lt hfit
  rw [atoi, hstrtol, value_ten_eq_misread hoct, BitVec.toNat_ofInt, clampLong,
    min_eq_right (by simp only [LONG_MAX]; omega), max_eq_right (by simp only [LONG_MIN]; omega)]
  omega

theorem atoi_octal_iff {s : List UInt8} (hne : s ≠ []) (hoct : s.all isOctal = true)
    (hfit : value 8 s < 2 ^ 32) : (atoi s).toNat = value 8 s ↔ value 8 s < 8 := by
  rw [atoi_octal_toNat hne hoct hfit]
  exact misread_mod_iff hfit

theorem pmsgOpt_isSome (c : UInt8) (optarg : Option (List UInt8)) (vars : PmsgVars)
    (hmem : c ∈ pmsgOptstring) (hcolon : c ≠ chr ':') : (pmsgOpt c optarg vars).isSome = true := by
  have hcases : c = chr 'c' ∨ c = chr 'm' ∨ c = chr ':' ∨ c = chr 's' ∨ c = chr ':'
      ∨ c = chr 'x' := by
    simpa [pmsgOptstring, str] using hmem
  rcases hcases with rfl | rfl | rfl | rfl | rfl | rfl
  · rfl
  · rfl
  · exact absurd rfl hcolon
  · rfl
  · exact absurd rfl hcolon
  · rfl

theorem createOpt_isSome (c : UInt8) (optarg : Option (List UInt8)) (flags : BitVec 32)
    (hmem : c ∈ createOptstring) (_hcolon : c ≠ chr ':') :
    (createOpt c optarg flags).isSome = true := by
  have hcases : c = chr 'c' ∨ c = chr 'x' := by
    simpa [createOptstring, str] using hmem
  rcases hcases with rfl | rfl
  · rfl
  · rfl

theorem pmsgCreate_mode {argv : List (List UInt8)} {opts : List Opt} {name s : List UInt8}
    {rest : List (List UInt8)}
    (h : getopt pmsgOptstring argv.tail = ⟨opts, name :: s :: rest⟩) (hgood : Opt.bad ∉ opts) :
    ∃ call, pmsgCreate argv = .ok call ∧ call.mode = atoi s := by
  obtain ⟨vars, hvars⟩ := optLoop_isSome pmsgOpt_isSome (by rw [h]; exact hgood)
    ⟨O_RDWR, ⟨10, 2048⟩, false⟩
  rw [h] at hvars
  rw [pmsgCreate, h]
  simp only [hvars]
  exact ⟨_, rfl, rfl⟩

theorem psemCreate_mode {argv : List (List UInt8)} {opts : List Opt} {name s : List UInt8}
    {rest : List (List UInt8)}
    (h : getopt createOptstring argv.tail = ⟨opts, name :: s :: rest⟩) (hgood : Opt.bad ∉ opts) :
    ∃ call, psemCreate argv = .ok call ∧ call.mode = atoi s := by
  obtain ⟨flags, hflags⟩ := optLoop_isSome createOpt_isSome (by rw [h]; exact hgood) 0
  rw [h] at hflags
  rw [psemCreate, h]
  simp only [hflags]
  exact ⟨_, rfl, rfl⟩

theorem pshmCreate_mode {argv : List (List UInt8)} {opts : List Opt} {name size s : List UInt8}
    {rest : List (List UInt8)}
    (h : getopt createOptstring argv.tail = ⟨opts, name :: size :: s :: rest⟩)
    (hgood : Opt.bad ∉ opts) :
    ∃ call, pshmCreate argv = .ok call ∧ call.mode = atoi s := by
  obtain ⟨flags, hflags⟩ := optLoop_isSome createOpt_isSome (by rw [h]; exact hgood) O_RDWR
  rw [h] at hflags
  rw [pshmCreate, h]
  simp only [hflags]
  exact ⟨_, rfl, atol_setWidth s⟩

/-- A call that is made with `atoi s` as its mode has the octal value as its mode exactly if that
value is below 8. -/
theorem call_mode_iff {α : Type} {outcome : Except (List UInt8) α} {mode : α → BitVec 32}
    {s : List UInt8} (hne : s ≠ []) (hoct : s.all isOctal = true) (hfit : value 8 s < 2 ^ 32)
    (h : ∃ call, outcome = .ok call ∧ mode call = atoi s) :
    (∃ call, outcome = .ok call ∧ (mode call).toNat = value 8 s) ↔ value 8 s < 8 := by
  obtain ⟨call, rfl, hmode⟩ := h
  rw [← atoi_octal_iff hne hoct hfit, ← hmode]
  constructor
  · rintro ⟨call', hcall, hvalue⟩
    cases hcall
    exact hvalue
  · intro hvalue
    exact ⟨call, rfl, hvalue⟩

/-- **Which octal permissions arrive as given.** Whatever the options, and wherever `getopt` finds
the operands, the mode passed to `mq_open`, `sem_open` and `shm_open` is the number the octal
numeral denotes exactly if that number is below 8, that is, if only its last digit may be other
than 0. -/
theorem perms_octal_iff {s : List UInt8} (hne : s ≠ []) (hoct : s.all isOctal = true)
    (hfit : value 8 s < 2 ^ 32) :
    (∀ (argv : List (List UInt8)) (opts : List Opt) (name : List UInt8) (rest : List (List UInt8)),
      getopt pmsgOptstring argv.tail = ⟨opts, name :: s :: rest⟩ → Opt.bad ∉ opts →
      ((∃ call, pmsgCreate argv = .ok call ∧ call.mode.toNat = value 8 s) ↔ value 8 s < 8))
    ∧ (∀ (argv : List (List UInt8)) (opts : List Opt) (name : List UInt8)
        (rest : List (List UInt8)),
      getopt createOptstring argv.tail = ⟨opts, name :: s :: rest⟩ → Opt.bad ∉ opts →
      ((∃ call, psemCreate argv = .ok call ∧ call.mode.toNat = value 8 s) ↔ value 8 s < 8))
    ∧ (∀ (argv : List (List UInt8)) (opts : List Opt) (name size : List UInt8)
        (rest : List (List UInt8)),
      getopt createOptstring argv.tail = ⟨opts, name :: size :: s :: rest⟩ → Opt.bad ∉ opts →
      ((∃ call, pshmCreate argv = .ok call ∧ call.mode.toNat = value 8 s) ↔ value 8 s < 8)) := by
  refine ⟨?_, ?_, ?_⟩
  · intro argv opts name rest hget hgood
    exact call_mode_iff hne hoct hfit (pmsgCreate_mode hget hgood)
  · intro argv opts name rest hget hgood
    exact call_mode_iff hne hoct hfit (psemCreate_mode hget hgood)
  · intro argv opts name size rest hget hgood
    exact call_mode_iff hne hoct hfit (pshmCreate_mode hget hgood)

/-- `0004` is read as 4 by all three. -/
theorem perms_octal_four :
    (∃ call, pmsgCreate [str "pmsg_create", str "/mq", str "-cx", str "0004"] = .ok call
      ∧ call.mode.toNat = value 8 (str "0004"))
    ∧ (∃ call, psemCreate [str "psem_create", str "-c", str "/sem", str "0004"] = .ok call
      ∧ call.mode.toNat = value 8 (str "0004"))
    ∧ (∃ call, pshmCreate [str "pshm_create", str "/shm", str "4096", str "0004"] = .ok call
      ∧ call.mode.toNat = value 8 (str "0004")) := by
  obtain ⟨hmq, hsem, hshm⟩ :=
    perms_octal_iff (show str "0004" ≠ [] by decide) (by decide) (by decide)
  refine ⟨?_, ?_, ?_⟩
  · exact (hmq _ [.opt (chr 'c') none, .opt (chr 'x') none] (str "/mq") [] (by decide)
      (by decide)).mpr (by decide)
  · exact (hsem _ [.opt (chr 'c') none] (str "/sem") [] (by decide) (by decide)).mpr (by decide)
  · exact (hshm _ [] (str "/shm") (str "4096") [] (by decide) (by decide)).mpr (by decide)

/-- `644` is passed as the decimal number 644, not as 420. -/
theorem perms_octal_fails_644 :
    (∃ call, pmsgCreate [str "pmsg_create", str "-c", str "/mq", str "644"] = .ok call
      ∧ call.mode.toNat = 644 ∧ call.mode.toNat ≠ value 8 (str "644"))
    ∧ (∃ call, psemCreate [str "psem_create", str "-c", str "/sem", str "644"] = .ok call
      ∧ call.mode.toNat = 644 ∧ call.mode.toNat ≠ value 8 (str "644"))
    ∧ (∃ call, pshmCreate [str "pshm_create", str "-c", str "/shm", str "4096", str "644"]
        = .ok call ∧ call.mode.toNat = 644 ∧ call.mode.toNat ≠ value 8 (str "644")) := by
  refine ⟨⟨⟨str "/mq", O_RDWR ||| O_CREAT, 644, none⟩, rfl, ?_⟩,
    ⟨⟨str "/sem", O_CREAT, 644, 0⟩, rfl, ?_⟩,
    ⟨⟨str "/shm", O_RDWR ||| O_CREAT, 644, 4096⟩, rfl, ?_⟩⟩
  all_goals decide

end Tlpi.CreateObjects
