import Tlpi.Posix.Getopt

set_option autoImplicit false

/-! # `t_mount` (filesys/t_mount.c)

`t_mount [-t fstype] [-o data] [-f mountflags] source target`. The letters of a `-f` string are
decoded by a `switch` whose cases have no `break`: from the case of a letter on, control runs
through all later cases into `default`, which is the usage error (`flagSwitch_eq_none`). So only
the letters that are no flags are treated as documented.
-/

namespace Tlpi.TMount

/-! ## The mount flags -/

def MS_RDONLY : BitVec 64 := 1
def MS_NOSUID : BitVec 64 := 2
def MS_NODEV : BitVec 64 := 4
def MS_NOEXEC : BitVec 64 := 8
def MS_SYNCHRONOUS : BitVec 64 := 16
def MS_REMOUNT : BitVec 64 := 32
def MS_MANDLOCK : BitVec 64 := 64
def MS_DIRSYNC : BitVec 64 := 128
def MS_NOATIME : BitVec 64 := 1024
def MS_NODIRATIME : BitVec 64 := 2048
def MS_BIND : BitVec 64 := 4096
def MS_MOVE : BitVec 64 := 8192
def MS_REC : BitVec 64 := 16384

/-! ## The program -/

/-- What `usageError(progName, msg)` prints before it exits. -/
def usageError (progName msg : List UInt8) : List UInt8 :=
  msg ++ str "Usage: " ++ progName ++ str " [options] source target\n\n"
    ++ str "Available options:\n"
    ++ str "        -t fstype        [e.g., 'ext2' or 'reiserfs']\n"
    ++ str "        -o data        [file system-dependent options,\n"
    ++ str "                e.g., 'bsdgroups' for ext2]\n"
    ++ str "        -f mountflags    can include any of:\n"
    ++ str "        b - MS_BIND        create a bind mount\n"
    ++ str "        d - MS_DIRSYNC     synchronous directory updates\n"
    ++ str "        l - MS_MANDLOCK    permit mandatory locking\n"
    ++ str "        m - MS_MOVE        atomically move subtree\n"
    ++ str "        A - MS_NOATIME     don't update atime(last access time)\n"
    ++ str "        V - MS_NODEV       don't permit device access\n"
    ++ str "        D - MS_NODIRATIME  don't update atime on directories\n"
    ++ str "        E - MS_NOEXEC      don't allow executables\n"
    ++ str "        S - MS_NOSUID      disable set-user/group-ID programs\n"
    ++ str "        r - MS_RDONLY      read-only mount\n"
    ++ str "        c - MS_REC         recursive mount\n"
    ++ str "        R - MS_REMOUNT     remount\n"
    ++ str "        s - MS_SYNCHRONOUS make writes synchronous\n"

/-- A `case label: flags |= bit;` of the inner `switch`, and whether a `break` follows. -/
structure FlagCase where
  label : UInt8
  bit : BitVec 64
  brk : Bool

/-- The cases as they stand in the source. -/
def flagCases : List FlagCase :=
  [⟨chr 'b', MS_BIND, false⟩,
   ⟨chr 'd', MS_DIRSYNC, false⟩,
   ⟨chr 'l', MS_MANDLOCK, false⟩,
   ⟨chr 'm', MS_MOVE, false⟩,
   ⟨chr 'A', MS_NOATIME, false⟩,
   ⟨chr 'V', MS_NODEV, false⟩,
   ⟨chr 'D', MS_NODIRATIME, false⟩,
   ⟨chr 'E', MS_NOEXEC, false⟩,
   ⟨chr 'S', MS_NOSUID, false⟩,
   ⟨chr 'r', MS_RDONLY, false⟩,
   ⟨chr 'c', MS_REC, false⟩,
   ⟨chr 'R', MS_REMOUNT, false⟩,
   ⟨chr 's', MS_SYNCHRONOUS, false⟩]

/-- The statements of the `switch` from one of its cases on. `none` is the usage error of
`default`, the last label. -/
def runCases : List FlagCase → BitVec 64 → Option (BitVec 64)
  | [], _ => none
  | c :: cases, flags =>
      if c.brk then some (flags ||| c.bit) else runCases cases (flags ||| c.bit)

/-- `switch (optarg[j])`: control enters at the case with the letter, or at `default`. -/
def flagSwitch (letter : UInt8) (flags : BitVec 64) : Option (BitVec 64) :=
  runCases (flagCases.dropWhile (·.label != letter)) flags

/-- The loop over the letters of a `-f` string. -/
def flagLoop : List UInt8 → BitVec 64 → Option (BitVec 64)
  | [], flags => some flags
  | letter :: letters, flags =>
      match flagSwitch letter flags with
      | none => none
      | some flags => flagLoop letters flags

/-- The variables the options set. -/
structure Vars where
  flags : BitVec 64
  fstype : Option (List UInt8)
  data : Option (List UInt8)

/-- The cases of the outer `switch`; `none` is a usage error. -/
def mountOpt (c : UInt8) (optarg : Option (List UInt8)) (vars : Vars) : Option Vars :=
  if c = chr 'o' then some { vars with data := optarg }
  else if c = chr 't' then some { vars with fstype := optarg }
  else if c = chr 'f' then
    match flagLoop (optarg.getD []) vars.flags with
    | none => none
    | some flags => some { vars with flags := flags }
  else none

/-- The arguments of the call of `mount`. -/
structure MountCall where
  source : List UInt8
  target : List UInt8
  filesystemtype : Option (List UInt8)
  mountflags : BitVec 64
  data : Option (List UInt8)
deriving DecidableEq, Repr

/-- What `main` comes to: the call of `mount`, or a usage error with what it prints. -/
inductive Outcome where
  | mount (call : MountCall)
  | usage (text : List UInt8)
deriving DecidableEq, Repr

def optstring : List UInt8 := str "o:t:f:"

def tMount (argv : List (List UInt8)) : Outcome :=
  let parsed := getopt optstring argv.tail
  match optLoop mountOpt parsed.opts ⟨0, none, none⟩ with
  | none => .usage (usageError (argv.headD []) [])
  | some vars =>
      match parsed.operands with
      | [source, target] => .mount ⟨source, target, vars.fstype, vars.flags, vars.data⟩
      | _ => .usage (usageError (argv.headD []) (str "Wrong number of arguments\n"))

/-! ## What is documented -/

/-- The letters of the usage text with their flags. -/
def documented : List (UInt8 × BitVec 64) :=
  [(chr 'b', MS_BIND), (chr 'd', MS_DIRSYNC), (chr 'l', MS_MANDLOCK), (chr 'm', MS_MOVE),
   (chr 'A', MS_NOATIME), (chr 'V', MS_NODEV), (chr 'D', MS_NODIRATIME), (chr 'E', MS_NOEXEC),
   (chr 'S', MS_NOSUID), (chr 'r', MS_RDONLY), (chr 'c', MS_REC), (chr 'R', MS_REMOUNT),
   (chr 's', MS_SYNCHRONOUS)]

def isDocumented (letter : UInt8) : Bool := documented.any (·.1 == letter)

/-- The union of the flags of the letters that occur. -/
def documentedFlags (letters : List UInt8) : BitVec 64 :=
  documented.foldr (fun p flags => if p.1 ∈ letters then p.2 ||| flags else flags) 0

/-- All letters of the `-f` strings of a command line. -/
def letters : List Opt → List UInt8
  | [] => []
  | .bad :: opts => letters opts
  | .opt c optarg :: opts => (if c = chr 'f' then optarg.getD [] else []) ++ letters opts

/-- The argument of the last option `c`. -/
def lastArg (c : UInt8) : List Opt → Option (List UInt8)
  | [] => none
  | .bad :: opts => lastArg c opts
  | .opt d optarg :: opts => (lastArg c opts).or (if d = c then optarg else none)

/-- The documented treatment of a command line with these options and operands: the flags of
known letters are passed to `mount`, with the last file system type and data, and an unknown
letter is a usage error. -/
def Decodes (argv : List (List UInt8)) (opts : List Opt) (source target : List UInt8) : Prop :=
  ((∀ l ∈ letters opts, isDocumented l = true) →
    tMount argv = .mount ⟨source, target, lastArg (chr 't') opts,
      documentedFlags (letters opts), lastArg (chr 'o') opts⟩)
  ∧ ((∃ l ∈ letters opts, isDocumented l = false) → ∃ text, tMount argv = .usage text)

/-! ## What happens -/

/-- Without a `break` control always arrives at `default`. -/
theorem runCases_eq_none {cases : List FlagCase} (h : ∀ c ∈ cases, c.brk = false)
    (flags : BitVec 64) : runCases cases flags = none := by
  induction cases generalizing flags with
  | nil => rfl
  | cons c cases ih =>
      have hc := h c List.mem_cons_self
      rw [runCases, hc]
      exact ih (fun x hx => h x (List.mem_cons_of_mem c hx)) _

theorem flagSwitch_eq_none (letter : UInt8) (flags : BitVec 64) :
    flagSwitch letter flags = none := by
  refine runCases_eq_none (fun c hc => ?_) flags
  have hall : flagCases.all (fun c => !c.brk) = true := by decide
  have hmem : c ∈ flagCases := (List.dropWhile_suffix _).subset hc
  simpa using List.all_eq_true.mp hall c hmem

theorem flagLoop_eq_none {ls : List UInt8} (h : ls ≠ []) (flags : BitVec 64) :
    flagLoop ls flags = none := by
  cases ls with
  | nil => exact absurd rfl h
  | cons l ls => rw [flagLoop, flagSwitch_eq_none]

/-- A letter in any `-f` string ends the loop with a usage error. -/
theorem optLoop_eq_none {opts : List Opt} (h : letters opts ≠ []) (vars : Vars) :
    optLoop mountOpt opts vars = none := by
  induction opts generalizing vars with
  | nil => exact absurd rfl h
  | cons o opts ih =>
      cases o with
      | bad => rfl
      | opt c optarg =>
          rw [letters] at h
          rw [optLoop]
          by_cases hf : c = chr 'f'
          · subst hf
            rw [if_pos rfl] at h
            rw [mountOpt, if_neg (by decide), if_neg (by decide), if_pos rfl]
            by_cases hnil : optarg.getD [] = []
            · rw [hnil, flagLoop]
              exact ih (by simpa [hnil] using h) _
            · rw [flagLoop_eq_none hnil]
              rfl
          · rw [if_neg hf, List.nil_append] at h
            cases mountOpt c optarg vars with
            | none => rfl
            | some vars' => exact ih h vars'

/-- The options of `t_mount` take an argument each. -/
theorem optLookup_optstring {c : UInt8} {takes : Bool} (h : optLookup optstring c = some takes) :
    takes = true ∧ (c = chr 'o' ∨ c = chr 't' ∨ c = chr 'f') := by
  obtain ⟨hmem, hcolon⟩ := optLookup_mem h
  have hletter : c = chr 'o' ∨ c = chr 't' ∨ c = chr 'f' := by
    have hcases : c = chr 'o' ∨ c = chr ':' ∨ c = chr 't' ∨ c = chr ':' ∨ c = chr 'f'
        ∨ c = chr ':' := by
      simpa [optstring, str] using hmem
    simpa [hcolon] using hcases
  refine ⟨?_, hletter⟩
  have htakes : optLookup optstring c = some true := by
    rcases hletter with rfl | rfl | rfl <;> decide
  rw [htakes] at h
  exact (Option.some.inj h).symm

/-- With no letter to decode, the loop collects the last arguments. -/
theorem optLoop_eq_some {opts : List Opt}
    (hopts : ∀ o ∈ opts, ∃ c optarg, o = .opt c (some optarg)
      ∧ (c = chr 'o' ∨ c = chr 't' ∨ c = chr 'f'))
    (h : letters opts = []) (vars : Vars) :
    optLoop mountOpt opts vars = some ⟨vars.flags, (lastArg (chr 't') opts).or vars.fstype,
      (lastArg (chr 'o') opts).or vars.data⟩ := by
  induction opts generalizing vars with
  | nil => rfl
  | cons o opts ih =>
      obtain ⟨c, optarg, rfl, hc⟩ := hopts o List.mem_cons_self
      rw [letters, List.append_eq_nil_iff] at h
      have hrest := ih (fun x hx => hopts x (List.mem_cons_of_mem _ hx)) h.2
      rw [optLoop, lastArg, lastArg, mountOpt]
      rcases hc with rfl | rfl | rfl
      · rw [if_pos rfl, Option.bind_some, hrest, if_pos rfl, if_neg (by decide), Option.or_none,
          Option.or_assoc]
        rfl
      · rw [if_neg (by decide), if_pos rfl, Option.bind_some, hrest, if_pos rfl,
          if_neg (by decide), Option.or_none, Option.or_assoc]
        rfl
      · have hnil : optarg = [] := by simpa using h.1
        rw [if_neg (by decide), if_neg (by decide), if_pos rfl, hnil, Option.getD_some, flagLoop]
        simp only [Option.bind_some, hrest]
        rw [if_neg (by decide), if_neg (by decide), Option.or_none, Option.or_none]

/-- The options of a command line without `'?'` are `-o`, `-t` and `-f` with an argument. -/
theorem getopt_opts {ws : List (List UInt8)} (hgood : Opt.bad ∉ (getopt optstring ws).opts) :
    ∀ o ∈ (getopt optstring ws).opts, ∃ c optarg, o = .opt c (some optarg)
      ∧ (c = chr 'o' ∨ c = chr 't' ∨ c = chr 'f') := by
  intro o ho
  cases o with
  | bad => exact absurd ho hgood
  | opt c optarg =>
      obtain ⟨hsome, hc⟩ := optLookup_optstring (getopt_lookup ws ho)
      obtain ⟨a, rfl⟩ := Option.isSome_iff_exists.mp hsome
      exact ⟨c, a, rfl, hc⟩

theorem documentedFlags_nil : documentedFlags [] = 0 := by decide

/-- A letter in a `-f` string, known or not, ends the program with a usage error. -/
theorem tMount_usage {argv : List (List UInt8)}
    (h : letters (getopt optstring argv.tail).opts ≠ []) :
    tMount argv = .usage (usageError (argv.headD []) []) := by
  rw [tMount]
  simp only [optLoop_eq_none h]

/-- **Which command lines `t_mount` decodes as documented.** With well-formed options and two
operands, it does so exactly if the `-f` strings hold no letter at all or one that is not
documented: every documented letter falls through to the usage error. -/
theorem decodes_iff {argv : List (List UInt8)} {opts : List Opt} {source target : List UInt8}
    (h : getopt optstring argv.tail = ⟨opts, [source, target]⟩) (hgood : Opt.bad ∉ opts) :
    Decodes argv opts source target
      ↔ letters opts = [] ∨ ∃ l ∈ letters opts, isDocumented l = false := by
  have hopts := @getopt_opts argv.tail (by rw [h]; exact hgood)
  have husage : letters opts ≠ [] → tMount argv = .usage (usageError (argv.headD []) []) := by
    intro hne
    exact tMount_usage (by rw [h]; exact hne)
  rw [h] at hopts
  constructor
  · rintro ⟨hknown, -⟩
    by_contra hcon
    rw [not_or] at hcon
    obtain ⟨hne, hall⟩ := hcon
    -- all letters are documented, and the first one is a usage error
    have hmount := hknown fun l hl => by
      by_contra hl'
      exact hall ⟨l, hl, by simpa using hl'⟩
    rw [husage hne] at hmount
    cases hmount
  · rintro (hnil | ⟨l, hl, hunknown⟩)
    · refine ⟨fun _ => ?_, ?_⟩
      · rw [tMount, h]
        simp only [optLoop_eq_some hopts hnil, Option.or_none]
        rw [hnil, documentedFlags_nil]
      · rintro ⟨l, hl, -⟩
        rw [hnil] at hl
        cases hl
    · have hne : letters opts ≠ [] := List.ne_nil_of_mem hl
      refine ⟨fun hall => ?_, fun _ => ⟨_, husage hne⟩⟩
      rw [hall l hl] at hunknown
      cases hunknown

/-- `t_mount -t ext4 -f "" -o acl /dev/sda1 /mnt`. -/
def plainMount : List (List UInt8) :=
  [str "t_mount", str "-t", str "ext4", str "-f", [], str "-o", str "acl", str "/dev/sda1",
   str "/mnt"]

theorem decodes_plainMount :
    Decodes plainMount
      [.opt (chr 't') (some (str "ext4")), .opt (chr 'f') (some []),
        .opt (chr 'o') (some (str "acl"))]
      (str "/dev/sda1") (str "/mnt") :=
  (decodes_iff (show getopt optstring plainMount.tail
    = ⟨[.opt (chr 't') (some (str "ext4")), .opt (chr 'f') (some []),
        .opt (chr 'o') (some (str "acl"))], [str "/dev/sda1", str "/mnt"]⟩ by decide)
    (by decide)).mpr (Or.inl (by decide))

/-- `t_mount -f r /dev/sda1 /mnt`, a read-only mount, is a usage error. -/
theorem decodes_fails_rdonly :
    getopt optstring [str "-f", str "r", str "/dev/sda1", str "/mnt"]
        = ⟨[.opt (chr 'f') (some (str "r"))], [str "/dev/sda1", str "/mnt"]⟩
    ∧ ¬ Decodes [str "t_mount", str "-f", str "r", str "/dev/sda1", str "/mnt"]
        [.opt (chr 'f') (some (str "r"))] (str "/dev/sda1") (str "/mnt") := by
  refine ⟨by decide, ?_⟩
  rintro ⟨hknown, -⟩
  have hletters : (letters [.opt (chr 'f') (some (str "r"))]).all isDocumented = true := by decide
  have hmount := hknown (List.all_eq_true.mp hletters)
  rw [tMount_usage (by decide)] at hmount
  cases hmount

end Tlpi.TMount
