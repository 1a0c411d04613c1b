import Tlpi.Lib.Overwrite
import Tlpi.Lib.Transition
import Tlpi.Posix.Stdio
import Tlpi.Posix.Strtol

set_option autoImplicit false

/-! # Reads, writes and seeks (fileio/seek_io.c)

`seek_io file arg...` performs one operation on the open file for each argument: `r` and `R` read at
the file offset and display the bytes, `w` writes, `s` moves the offset. An argument that starts
with another character, a number that `getLong` does not accept, or a call that fails ends the
program.

The file is a regular one to which no other process writes. The standard descriptors are taken to be
open, so that no text of the program goes to the file.
-/

namespace Tlpi.SeekIo

open Decimal Overwrite

/-- At the start of `main`; in the loop, with the arguments from `argv[ap]` on; ended. -/
inductive Pc where
  | start
  | loop (args : List (List UInt8))
  | exited (status : ℕ)
deriving DecidableEq, Repr

structure State where
  pc : Pc
  file : List UInt8
  offset : ℕ
  out : List UInt8
deriving DecidableEq, Repr

/-- How the calls for one argument come out: they succeed, and a `read` or `write` has transferred
`n` bytes; `malloc` returns `NULL`; `read`, `write` or `lseek` fails. -/
inductive Outcome where
  | done (n : ℕ)
  | noMemory
  | failed
deriving DecidableEq, Repr

inductive Act where
  | open (ok : Bool)
  | arg (r : Outcome)
  | close (ok : Bool)
deriving DecidableEq, Repr

def State.exit (s : State) (status : ℕ) : State := { s with pc := .exited status }

/-- `isprint` in the C locale. -/
def isprint (c : UInt8) : Bool := decide (32 ≤ c ∧ c ≤ 126)

/-- The text of one byte in the loop over `buf`. -/
def shown (command c : UInt8) : List UInt8 :=
  if command = chr 'r' then [if isprint c then c else chr '?']
  else hexPadded 2 (BitVec.ofNat 32 c.toNat) ++ str " "

def readText (arg bytes : List UInt8) : List UInt8 :=
  if bytes = [] then arg ++ str ": end-of-file\n"
  else arg ++ str ": " ++ bytes.flatMap (shown (arg.headD 0)) ++ str "\n"

def wroteText (arg : List UInt8) (numWritten : ℕ) : List UInt8 :=
  arg ++ str ": wrote " ++ numeral numWritten ++ str " bytes\n"

def seekText (arg : List UInt8) : List UInt8 := arg ++ str ": seek succeeded\n"

/-- The bytes that a `read` of `len` bytes can return at most. -/
def State.avail (s : State) (len : BitVec 64) : ℕ := min len.toNat (s.file.length - s.offset)

/-- `PTRDIFF_MAX`; `malloc` refuses a larger size. -/
def PTRDIFF_MAX : ℕ := 2 ^ 63 - 1

/-- `malloc` and `read`; at the end of the file, and only there or if `len` is 0, `read` returns
0. -/
def readArg (s : State) (arg : List UInt8) (rest : List (List UInt8)) (len : BitVec 64) :
    Outcome → Option State
  | .done n =>
      if len.toNat ≤ PTRDIFF_MAX ∧ n ≤ s.avail len ∧ (n = 0 → s.avail len = 0) then
        some { s with
          pc := .loop rest
          offset := s.offset + n
          out := s.out ++ readText arg ((s.file.drop s.offset).take n) }
      else none
  | .noMemory => some (s.exit EXIT_FAILURE)
  | .failed => some (s.exit EXIT_FAILURE)

/-- `write`, which may write less than the whole string. -/
def writeArg (s : State) (arg : List UInt8) (rest : List (List UInt8)) : Outcome → Option State
  | .done n =>
      if n ≤ arg.tail.length ∧ (n = 0 → arg.tail = []) then
        some { s with
          pc := .loop rest
          file := overwrite 0 s.file s.offset (arg.tail.take n)
          offset := s.offset + n
          out := s.out ++ wroteText arg n }
      else none
  | .noMemory => none
  | .failed => some (s.exit EXIT_FAILURE)

/-- `lseek`, which fails for a negative offset. -/
def seekArg (s : State) (arg : List UInt8) (rest : List (List UInt8)) (offset : BitVec 64) :
    Outcome → Option State
  | .done n =>
      if n = 0 ∧ 0 ≤ offset.toInt then
        some { s with
          pc := .loop rest
          offset := offset.toInt.toNat
          out := s.out ++ seekText arg }
      else none
  | .noMemory => none
  | .failed => some (s.exit EXIT_FAILURE)

/-- An argument that ends the program before any call is made for it. -/
def badArg (s : State) (r : Outcome) : Option State :=
  if r = .done 0 then some (s.exit EXIT_FAILURE) else none

section

/- `getLong` is declared in lib/get_num.h but not defined: the number it returns, or `none` if it
ends the program because the text is no number. -/
variable (getLong : List UInt8 → Option (BitVec 64)) (argv : List (List UInt8))

/-- The body of the loop for `argv[ap] = arg`. -/
def operation (s : State) (arg : List UInt8) (rest : List (List UInt8)) (r : Outcome) :
    Option State :=
  if arg.headD 0 = chr 'r' ∨ arg.headD 0 = chr 'R' then
    match getLong arg.tail with
    | some len => readArg s arg rest len r
    | none => badArg s r
  else if arg.headD 0 = chr 'w' then writeArg s arg rest r
  else if arg.headD 0 = chr 's' then
    match getLong arg.tail with
    | some offset => seekArg s arg rest offset r
    | none => badArg s r
  else badArg s r

def usage : Bool := decide (argv.length < 3 ∨ argv[1]? = some (str "--help"))

def next (s : State) : Act → Option State
  | .open ok =>
      match s.pc with
      | .start =>
          if usage argv then some (s.exit EXIT_FAILURE)
          else if ok then some { s with pc := .loop (argv.drop 2) }
          else some (s.exit EXIT_FAILURE)
      | _ => none
  | .arg r =>
      match s.pc with
      | .loop (arg :: rest) => operation getLong s arg rest r
      | _ => none
  | .close ok =>
      match s.pc with
      | .loop [] => some (s.exit (if ok then EXIT_SUCCESS else EXIT_FAILURE))
      | _ => none

def seekIo : TransSys State Act where
  Init s := s.pc = .start ∧ s.offset = 0 ∧ s.out = []
  step := next getLong argv

/-! ## The writes of a run -/

/-- The write that a step makes. -/
def wrote (s : State) : Act → List (Write UInt8)
  | .arg (.done n) =>
      match s.pc with
      | .loop (arg :: _) => if arg.headD 0 = chr 'w' then [(s.offset, arg.tail.take n)] else []
      | _ => []
  | _ => []

def writes (s : State) : List Act → List (Write UInt8)
  | [] => []
  | a :: as => wrote s a ++ ((next getLong argv s a).elim [] fun t => writes t as)

/-- The program accepts the argument: a call is made for it. -/
def valid (arg : List UInt8) : Bool :=
  if arg.headD 0 = chr 'r' ∨ arg.headD 0 = chr 'R' then (getLong arg.tail).isSome
  else if arg.headD 0 = chr 'w' then true
  else if arg.headD 0 = chr 's' then (getLong arg.tail).isSome
  else false

end

variable {getLong : List UInt8 → Option (BitVec 64)} {argv : List (List UInt8)}

/-! ## One argument -/

variable (getLong) in
/-- What the body of the loop can do. -/
inductive Performs (s : State) (arg : List UInt8) (rest : List (List UInt8)) :
    Outcome → State → Prop where
  | read (n : ℕ) (len : BitVec 64) (hcmd : arg.headD 0 = chr 'r' ∨ arg.headD 0 = chr 'R')
      (hlen : getLong arg.tail = some len) (hle : n ≤ s.avail len)
      (hend : n = 0 → s.avail len = 0) :
      Performs s arg rest (.done n) { s with
        pc := .loop rest
        offset := s.offset + n
        out := s.out ++ readText arg ((s.file.drop s.offset).take n) }
  | write (n : ℕ) (hcmd : arg.headD 0 = chr 'w') (hle : n ≤ arg.tail.length)
      (hend : n = 0 → arg.tail = []) :
      Performs s arg rest (.done n) { s with
        pc := .loop rest
        file := overwrite 0 s.file s.offset (arg.tail.take n)
        offset := s.offset + n
        out := s.out ++ wroteText arg n }
  | seek (offset : BitVec 64) (hcmd : arg.headD 0 = chr 's')
      (hoffset : getLong arg.tail = some offset) (hnonneg : 0 ≤ offset.toInt) :
      Performs s arg rest (.done 0) { s with
        pc := .loop rest
        offset := offset.toInt.toNat
        out := s.out ++ seekText arg }
  | bad (hcmd : arg.headD 0 ≠ chr 'w') (hvalid : valid getLong arg = false) :
      Performs s arg rest (.done 0) (s.exit EXIT_FAILURE)
  | fails (r : Outcome) (hr : ∀ n, r ≠ .done n) : Performs s arg rest r (s.exit EXIT_FAILURE)

variable {s t : State} {arg : List UInt8} {rest : List (List UInt8)} {r : Outcome}

theorem badArg_cases (h : badArg s r = some t) (hcmd : arg.headD 0 ≠ chr 'w')
    (hvalid : valid getLong arg = false) : Performs getLong s arg rest r t := by
  unfold badArg at h
  split at h
  · rename_i hr
    obtain rfl := Option.some.inj h
    exact hr ▸ .bad hcmd hvalid
  · cases h

theorem readArg_cases {len : BitVec 64} (h : readArg s arg rest len r = some t)
    (hcmd : arg.headD 0 = chr 'r' ∨ arg.headD 0 = chr 'R') (hlen : getLong arg.tail = some len) :
    Performs getLong s arg rest r t := by
  cases r with
  | done n =>
      simp only [readArg] at h
      split at h
      · rename_i hn
        obtain rfl := Option.some.inj h
        exact .read n len hcmd hlen hn.2.1 hn.2.2
      · cases h
  | noMemory => exact Option.some.inj h ▸ .fails _ nofun
  | failed => exact Option.some.inj h ▸ .fails _ nofun

theorem writeArg_cases (h : writeArg s arg rest r = some t) (hcmd : arg.headD 0 = chr 'w') :
    Performs getLong s arg rest r t := by
  cases r with
  | done n =>
      simp only [writeArg] at h
      split at h
      · rename_i hn
        obtain rfl := Option.some.inj h
        exact .write n hcmd hn.1 hn.2
      · cases h
  | noMemory => cases h
  | failed => exact Option.some.inj h ▸ .fails _ nofun

theorem seekArg_cases {offset : BitVec 64} (h : seekArg s arg rest offset r = some t)
    (hcmd : arg.headD 0 = chr 's') (hoffset : getLong arg.tail = some offset) :
    Performs getLong s arg rest r t := by
  cases r with
  | done n =>
      simp only [seekArg] at h
      split at h
      · rename_i hn
        obtain ⟨rfl, hnonneg⟩ := hn
        exact Option.some.inj h ▸ .seek offset hcmd hoffset hnonneg
      · cases h
  | noMemory => cases h
  | failed => exact Option.some.inj h ▸ .fails _ nofun

theorem operation_cases (h : operation getLong s arg rest r = some t) :
    Performs getLong s arg rest r t := by
  unfold operation at h
  split at h
  · rename_i hcmd
    have hw : arg.headD 0 ≠ chr 'w' := by
      rcases hcmd with hcmd | hcmd
      · rw [hcmd]; decide
      · rw [hcmd]; decide
    split at h
    · rename_i len hlen
      exact readArg_cases h hcmd hlen
    · rename_i hnone
      exact badArg_cases h hw (by rw [valid, if_pos hcmd, hnone]; rfl)
  · rename_i hnot
    split at h
    · rename_i hcmd
      exact writeArg_cases h hcmd
    · rename_i hw
      split at h
      · rename_i hcmd
        split at h
        · rename_i offset hoffset
          exact seekArg_cases h hcmd hoffset
        · rename_i hnone
          exact badArg_cases h hw
            (by rw [valid, if_neg hnot, if_neg hw, if_pos hcmd, hnone]; rfl)
      · rename_i hs
        exact badArg_cases h hw (by rw [valid, if_neg hnot, if_neg hw, if_neg hs])

variable (getLong argv) in
/-- What a step can do. -/
inductive Step (s : State) : Act → State → Prop where
  | usage (ok : Bool) (hpc : s.pc = .start) (h : usage argv = true) :
      Step s (.open ok) (s.exit EXIT_FAILURE)
  | opened (hpc : s.pc = .start) (h : usage argv = false) :
      Step s (.open true) { s with pc := .loop (argv.drop 2) }
  | notOpened (hpc : s.pc = .start) : Step s (.open false) (s.exit EXIT_FAILURE)
  | arg (arg : List UInt8) (rest : List (List UInt8)) (r : Outcome) (t : State)
      (hpc : s.pc = .loop (arg :: rest)) (h : Performs getLong s arg rest r t) : Step s (.arg r) t
  | close (ok : Bool) (hpc : s.pc = .loop []) :
      Step s (.close ok) (s.exit (if ok then EXIT_SUCCESS else EXIT_FAILURE))

theorem next_cases {a : Act} (h : next getLong argv s a = some t) : Step getLong argv s a t := by
  cases a with
  | «open» ok =>
      simp only [next] at h
      split at h
      next hpc =>
        split at h
        · rename_i husage
          exact Option.some.inj h ▸ .usage ok hpc husage
        · rename_i husage
          cases ok with
          | true => exact Option.some.inj h ▸ .opened hpc (by simpa using husage)
          | false => exact Option.some.inj h ▸ .notOpened hpc
      next => cases h
  | arg r =>
      simp only [next] at h
      split at h
      next arg rest hpc => exact .arg arg rest r t hpc (operation_cases h)
      next => cases h
  | close ok =>
      simp only [next] at h
      split at h
      next hpc => exact Option.some.inj h ▸ .close ok hpc
      next => cases h

/-! ## The contents of the file -/

theorem file_of_step {a : Act} (h : Step getLong argv s a t) :
    t.file = overwriteAll 0 s.file (wrote s a) := by
  cases h with
  | usage ok hpc husage => rfl
  | opened hpc husage => rfl
  | notOpened hpc => rfl
  | close ok hpc => rfl
  | arg arg rest r t hpc hperforms =>
      cases hperforms with
      | read n len hcmd hlen hle hend =>
          have hw : arg.headD 0 ≠ chr 'w' := by
            rcases hcmd with hcmd | hcmd
            · rw [hcmd]; decide
            · rw [hcmd]; decide
          simp only [wrote, hpc, if_neg hw]
          rfl
      | write n hcmd hle hend =>
          simp only [wrote, hpc, if_pos hcmd]
          rfl
      | seek offset hcmd hoffset hnonneg =>
          have hw : arg.headD 0 ≠ chr 'w' := by
            rw [hcmd]
            decide
          simp only [wrote, hpc, if_neg hw]
          rfl
      | bad hcmd hvalid =>
          simp only [wrote, hpc, if_neg hcmd]
          rfl
      | fails r hr =>
          cases r with
          | done n => exact absurd rfl (hr n)
          | noMemory => rfl
          | failed => rfl

variable {s₀ : State} {as : List Act}

/-- After a run the file is what its writes have made of it. -/
theorem file_of_run (hrun : (seekIo getLong argv).run s₀ as = some s) :
    s.file = overwriteAll 0 s₀.file (writes getLong argv s₀ as) := by
  induction as generalizing s₀ with
  | nil => exact Option.some.inj hrun ▸ rfl
  | cons a as ih =>
      rw [TransSys.run_cons, Option.bind_eq_some_iff] at hrun
      obtain ⟨t, ht, hrun⟩ := hrun
      have hnext : next getLong argv s₀ a = some t := ht
      rw [ih hrun, file_of_step (next_cases hnext), writes, hnext]
      simp only [Option.elim_some, overwriteAll, List.foldl_append]

theorem take_drop_eq_map (file : List UInt8) {offset n : ℕ} (h : offset + n ≤ file.length) :
    (file.drop offset).take n = (List.range n).map fun j => (file[offset + j]?).getD 0 := by
  apply List.ext_getElem?
  intro j
  by_cases hj : j < n
  · rw [List.getElem?_take_of_lt hj, List.getElem?_drop, List.getElem?_map,
      List.getElem?_range hj, Option.map_some, List.getElem?_eq_getElem (by omega),
      Option.getD_some]
  · rw [List.getElem?_eq_none (by simp; omega), List.getElem?_eq_none (by simp; omega)]

/-- A decimal numeral and nothing after it. -/
def sampleGetLong (s : List UInt8) : Option (BitVec 64) :=
  if s ≠ [] ∧ (strtol s).2 = [] then some (BitVec.ofInt 64 (strtol s).1) else none

def sampleArgv : List (List UInt8) :=
  [str "seek_io", str "f", str "s3", str "wxyz", str "s1", str "R4"]

def sampleStart : State := ⟨.start, str "ab", 0, []⟩

def sampleRun : List Act :=
  [.open true, .arg (.done 0), .arg (.done 3), .arg (.done 0), .arg (.done 4), .close true]

/-- **What a read displays.** At any point of a run, a successful read moves the offset past the
bytes it displays, and each of these is what the last write that covers its place has put there, or
was there at the start, or lies in a hole and is 0. It reports the end of the file exactly if the
offset has reached the end that the writes have made, or if `len` is 0. -/
theorem read_shows_last_writes (hrun : (seekIo getLong argv).run s₀ as = some s)
    (hpc : s.pc = .loop (arg :: rest)) (hcmd : arg.headD 0 = chr 'r' ∨ arg.headD 0 = chr 'R')
    {len : BitVec 64} (hlen : getLong arg.tail = some len) {n : ℕ}
    (hstep : next getLong argv s (.arg (.done n)) = some t) :
    let ws := writes getLong argv s₀ as
    let bytes := (List.range n).map fun j =>
      (lastWrite ws (s.offset + j)).getD ((s₀.file[s.offset + j]?).getD 0)
    t = { s with
        pc := .loop rest
        offset := s.offset + n
        out := s.out ++ readText arg bytes } ∧
      (n = 0 ↔ len = 0 ∨ size s₀.file.length ws ≤ s.offset) ∧
      n ≤ len.toNat ∧ s.offset + n ≤ max s.offset (size s₀.file.length ws) := by
  intro ws bytes
  have hfile : s.file = overwriteAll 0 s₀.file ws := file_of_run hrun
  have hsize : s.file.length = size s₀.file.length ws := by rw [hfile, overwriteAll_length]
  have hread : readArg s arg rest len (.done n) = some t := by
    simpa only [next, hpc, operation, if_pos hcmd, hlen] using hstep
  simp only [readArg] at hread
  split at hread
  · rename_i hn
    obtain ⟨-, hle, hend⟩ := hn
    have havail : s.avail len = min len.toNat (s.file.length - s.offset) := rfl
    have hzero : len = 0 ↔ len.toNat = 0 := by
      rw [← BitVec.toNat_inj]
      rfl
    refine ⟨?_, ?_, by omega, by omega⟩
    · rw [← Option.some.inj hread]
      by_cases hn0 : n = 0
      · rw [hn0, List.take_zero]
        simp only [bytes, hn0]
        rfl
      · rw [take_drop_eq_map s.file (by omega)]
        simp only [bytes, hfile, overwriteAll_getD]
    · rw [hzero]
      omega
  · cases hread

/-- The bytes at 1, 2, 3, 4 were there at the start, in the hole, and written. -/
theorem read_shows_last_writes_sampleRun :
    ∃ s t, (seekIo sampleGetLong sampleArgv).run sampleStart (sampleRun.take 4) = some s ∧
      next sampleGetLong sampleArgv s (.arg (.done 4)) = some t ∧
      t.out = s.out ++ str "R4: 62 00 78 79 \n" := by
  have hrun : (((seekIo sampleGetLong sampleArgv).run sampleStart (sampleRun.take 4)).bind fun s =>
      (next sampleGetLong sampleArgv s (.arg (.done 4))).map fun t => (s.pc, s.offset)) =
      some (.loop [str "R4"], 1) := by decide +kernel
  obtain ⟨s, hs, hrun⟩ := Option.bind_eq_some_iff.mp hrun
  obtain ⟨t, ht, heq⟩ := Option.map_eq_some_iff.mp hrun
  obtain ⟨hpc, hoffset⟩ := Prod.mk.inj heq
  have hlen : sampleGetLong (str "R4").tail = some 4 := by decide +kernel
  refine ⟨s, t, hs, ht, ?_⟩
  rw [(read_shows_last_writes hs hpc (by decide) hlen ht).1, hoffset]
  show s.out ++ _ = _
  congr 1

/-! ## The arguments that are performed -/

/-- A step in which no call fails. -/
def Succeeds : Act → Prop
  | .open ok => ok = true
  | .arg (.done _) => True
  | .arg _ => False
  | .close ok => ok = true

def isWrite (arg : List UInt8) : Bool := decide (arg.headD 0 = chr 'w')

/-- Each write has put the beginning of its argument's string into the file. -/
def Written (ws : List (Write UInt8)) (args : List (List UInt8)) : Prop :=
  List.Forall₂ (fun w arg => w.2 <+: arg.tail) ws (args.filter isWrite)

variable (argv) in
def State.rank (s : State) : ℕ :=
  match s.pc with
  | .start => argv.length + 1
  | .loop args => args.length + 1
  | .exited _ => 0

theorem rank_lt {a : Act} (h : Step getLong argv s a t) : t.rank argv < s.rank argv := by
  cases h with
  | usage ok hpc husage => simp [State.rank, State.exit, hpc]
  | opened hpc husage =>
      have hargc : ¬ argv.length < 3 := by
        intro hlt
        simp [SeekIo.usage, hlt] at husage
      simp only [State.rank, hpc, List.length_drop]
      omega
  | notOpened hpc => simp [State.rank, State.exit, hpc]
  | close ok hpc => simp [State.rank, State.exit, hpc]
  | arg arg rest r t hpc hperforms =>
      cases hperforms with
      | bad hcmd hvalid => simp [State.rank, State.exit, hpc]
      | fails r hr => simp [State.rank, State.exit, hpc]
      | read n len hcmd hlen hle hend => simp [State.rank, hpc]
      | write n hcmd hle hend => simp [State.rank, hpc]
      | seek offset hcmd hoffset hnonneg => simp [State.rank, hpc]

theorem length_le (h₀ : s₀.pc = .start) (hrun : (seekIo getLong argv).run s₀ as = some s) :
    as.length ≤ argv.length + 1 := by
  have hle := TransSys.run_length_le (I := fun _ => True) (C := fun _ _ => True)
    (m := State.rank argv) (fun _ _ _ _ _ => trivial)
    (fun _ _ _ _ _ hnext => rank_lt (next_cases hnext)) trivial
    (TransSys.Meets.of_labels (fun _ _ _ => trivial) s₀) hrun
  have hstart : s₀.rank argv = argv.length + 1 := by simp [State.rank, h₀]
  omega

theorem Written.cons {n : ℕ} {ws : List (Write UInt8)} {args : List (List UInt8)}
    (hpc : s.pc = .loop (arg :: rest)) (h : Written ws args) :
    Written (wrote s (.arg (.done n)) ++ ws) (arg :: args) := by
  by_cases hcmd : arg.headD 0 = chr 'w'
  · simp only [Written, wrote, hpc, if_pos hcmd, List.filter_cons, isWrite, decide_eq_true hcmd]
    exact .cons (List.take_prefix n arg.tail) h
  · simp only [Written, wrote, hpc, if_neg hcmd, List.filter_cons, isWrite, decide_eq_false hcmd]
    exact h

variable (getLong) in
/-- The body of the loop comes to an end, if only by a failure. -/
theorem operation_some (s : State) (arg : List UInt8) (rest : List (List UInt8)) :
    ∃ r t, operation getLong s arg rest r = some t := by
  unfold operation
  split
  · split
    · exact ⟨.failed, _, rfl⟩
    · exact ⟨.done 0, _, rfl⟩
  · split
    · exact ⟨.failed, _, rfl⟩
    · split
      · split
        · exact ⟨.failed, _, rfl⟩
        · exact ⟨.done 0, _, rfl⟩
      · exact ⟨.done 0, _, rfl⟩

theorem stuck_iff :
    (seekIo getLong argv).Stuck (fun _ => True) s ↔ ∃ status, s.pc = .exited status := by
  constructor
  · intro hstuck
    cases hpc : s.pc with
    | exited status => exact ⟨status, rfl⟩
    | start =>
        have hnone : next getLong argv s (.open true) = none := hstuck (.open true) trivial
        simp only [next, hpc] at hnone
        split at hnone
        · cases hnone
        · cases hnone
    | loop args =>
        cases args with
        | nil =>
            have hnone : next getLong argv s (.close true) = none := hstuck (.close true) trivial
            simp only [next, hpc] at hnone
            cases hnone
        | cons arg rest =>
            obtain ⟨r, t, ht⟩ := operation_some getLong s arg rest
            have hnone : next getLong argv s (.arg r) = none := hstuck (.arg r) trivial
            simp only [next, hpc, ht] at hnone
            cases hnone
  · rintro ⟨status, hpc⟩ a -
    cases hnext : (seekIo getLong argv).step s a with
    | none => rfl
    | some t =>
        have hlt := rank_lt (next_cases hnext)
        simp [State.rank, hpc] at hlt

end Tlpi.SeekIo
