import Tlpi.Lib.Crowd
import Tlpi.Posix.Sem
import Tlpi.PosixIpc.CreateObjects

set_option autoImplicit false

/-! # The semaphore commands (posix_semaphores/)

`psem_create`, `psem_wait`, `psem_post`, `psem_getvalue` and `psem_unlink` are started by hand, any
number of them and at any time, and work on the named semaphores of the system. `psem_create` is
`CreateObjects.psemCreate` up to its call of `sem_open`.
-/

namespace Tlpi.Psem

open Decimal CreateObjects

inductive Prog where
  | create
  | wait
  | post
  | getvalue
  | unlink
deriving DecidableEq, Repr

/-- A place in one of the programs: at the start, after `sem_open`, asleep in `sem_wait`, in
`sem_post` before it wakes a process, after `sem_wait` or `sem_post`, after `sem_getvalue`; or the
end of the process. -/
inductive Pc where
  | start
  | opened (sem : ℕ)
  | asleep (sem : ℕ)
  | waking (sem : ℕ)
  | performed
  | fetched (value : ℕ)
  | exited (status : ℕ)
  | killed
deriving DecidableEq, Repr

structure Command where
  prog : Prog
  argv : List (List UInt8)
  pid : ℕ
deriving DecidableEq, Repr

/-- A process; `done` is the semaphore from which its `sem_wait` has taken a unit, or to which its
`sem_post` has added one. -/
structure Proc where
  prog : Prog
  argv : List (List UInt8)
  pid : ℕ
  pc : Pc
  done : Option ℕ
deriving DecidableEq, Repr

/-- The semaphores, and what the processes have written to their standard outputs. -/
structure Shared where
  fs : SemFs
  out : List (List UInt8)

/-- A process goes on, its next call fails, or it is killed. In `sem_wait`, it may have been `woken`
by then. -/
inductive Call where
  | go
  | fail
  | kill (woken : Bool)
deriving DecidableEq, Repr

def Pc.ended : Pc → Bool
  | .exited _ => true
  | .killed => true
  | _ => false

/-- The test of the command line; `psem_getvalue` and `psem_post` have no `--help`. -/
def Proc.badArgs (x : Proc) : Bool :=
  match x.prog with
  | .wait => decide (x.argv.length ≠ 2 ∨ x.argv[1]? = some (str "--help"))
  | .unlink => decide (x.argv.length ≠ 2 ∨ x.argv[1]? = some (str "--help"))
  | _ => decide (x.argv.length ≠ 2)

def Proc.name (x : Proc) : List UInt8 := (x.argv[1]?).getD []

def Proc.exit (x : Proc) (status : ℕ) : Proc := { x with pc := .exited status }

def succeededText (pid : ℕ) : List UInt8 := numeral pid ++ str " sem_wait() succedded\n"

def valueText (value : ℕ) : List UInt8 := numeral value ++ str "\n"

/-- `sem_open (argv[1], 0)`. -/
def openSem (g : Shared) (x : Proc) : Shared × Proc :=
  if x.badArgs then (g, x.exit EXIT_FAILURE)
  else
    match g.fs.semOpen x.name false false 0 with
    | some (i, fs) => ({ g with fs := fs }, { x with pc := .opened i })
    | none => (g, x.exit EXIT_FAILURE)

def create (g : Shared) (x : Proc) : Shared × Proc :=
  match psemCreate x.argv with
  | .error _ => (g, x.exit EXIT_FAILURE)
  | .ok call =>
      match g.fs.semOpen call.name (decide (call.flags &&& O_CREAT ≠ 0))
          (decide (call.flags &&& O_EXCL ≠ 0)) call.value.toNat with
      | some (_, fs) => ({ g with fs := fs }, x.exit EXIT_SUCCESS)
      | none => (g, x.exit EXIT_FAILURE)

def unlink (g : Shared) (x : Proc) : Shared × Proc :=
  if x.badArgs then (g, x.exit EXIT_FAILURE)
  else
    match g.fs.semUnlink x.name with
    | some fs => ({ g with fs := fs }, x.exit EXIT_SUCCESS)
    | none => (g, x.exit EXIT_FAILURE)

/-- In `sem_wait` the process has looked at the value of the semaphore `i`. -/
def look (g : Shared) (x : Proc) (i : ℕ) (r : Bool × SemFs) : Shared × Proc :=
  ({ g with fs := r.2 },
    if r.1 then { x with pc := .performed, done := some i } else { x with pc := .asleep i })

/-- The calls on the semaphore `i`. -/
def perform (g : Shared) (x : Proc) (i : ℕ) : Option (Shared × Proc) :=
  match x.prog with
  | .wait => (g.fs.semWait i).map (look g x i)
  | .post =>
      match g.fs.semPost i with
      | some fs => some ({ g with fs := fs }, { x with pc := .waking i, done := some i })
      | none => some (g, x.exit EXIT_FAILURE)
  | .getvalue => (g.fs.objs[i]?).map fun s => (g, { x with pc := .fetched s.value })
  | _ => none

/-- The next step of a process; `none` if it has ended or is blocked. -/
def go (g : Shared) (x : Proc) : Option (Shared × Proc) :=
  match x.pc with
  | .start =>
      match x.prog with
      | .create => some (create g x)
      | .unlink => some (unlink g x)
      | _ => some (openSem g x)
  | .opened i => perform g x i
  | .asleep i =>
      match x.prog with
      | .wait => (g.fs.semResume i).map (look g x i)
      | _ => none
  | .waking i =>
      (g.fs.semWake i).map fun fs => ({ g with fs := fs }, { x with pc := .performed })
  | .performed =>
      match x.prog with
      | .wait => some ({ g with out := g.out ++ [succeededText x.pid] }, x.exit EXIT_SUCCESS)
      | _ => some (g, x.exit EXIT_SUCCESS)
  | .fetched value =>
      some ({ g with out := g.out ++ [valueText value] }, x.exit EXIT_SUCCESS)
  | _ => none

/-- The end of a process, which may be asleep in `sem_wait`. -/
def stop (g : Shared) (x : Proc) (woken : Bool) (pc : Pc) : Option (Shared × Proc) :=
  match x.pc with
  | .asleep i =>
      (g.fs.semLeave i woken).map fun fs => ({ g with fs := fs }, { x with pc := pc })
  | _ => if woken then none else some (g, { x with pc := pc })

/-- A call fails: `sem_open` or `sem_unlink` for a reason other than the name, or one of the calls
on the semaphore; a `sem_wait` that was woken does not fail any more. -/
def fail (g : Shared) (x : Proc) : Option (Shared × Proc) :=
  match x.pc with
  | .start => stop g x false (.exited EXIT_FAILURE)
  | .opened _ => stop g x false (.exited EXIT_FAILURE)
  | .asleep _ => stop g x false (.exited EXIT_FAILURE)
  | _ => none

def exec (_ : ℕ) (g : Shared) (x : Proc) : Call → Option (Shared × Proc)
  | .go => go g x
  | .fail => fail g x
  | .kill woken => if x.pc.ended then none else stop g x woken .killed

def psem : Crowd Shared Proc Command Call where
  Start g := g.fs = .empty ∧ g.out = []
  spawn c := ⟨c.prog, c.argv, c.pid, .start, none⟩
  exec := exec

/-! ## What a step can do -/

/-- The process ends, with or without a line of output, and nothing else changes. It was not asleep,
and only a kill ends a process before it has woken another one. -/
structure Ends (g : Shared) (x : Proc) (c : Call) (g' : Shared) (y : Proc) : Prop where
  fs : g'.fs = g.fs
  awake : ∀ i, x.pc ≠ .asleep i
  waking : ∀ i, x.pc = .waking i → ∃ woken, c = .kill woken
  pc : y.pc.ended = true
  prog : y.prog = x.prog
  done : y.done = x.done

/-- The `psem_wait` processes that got past the semaphore `i`. -/
def waited (i : ℕ) (x : Proc) : Bool := decide (x.prog = .wait ∧ x.done = some i)

/-- The `psem_post` processes that have added 1 to the semaphore `i`. -/
def posted (i : ℕ) (x : Proc) : Bool := decide (x.prog = .post ∧ x.done = some i)

/-- The `psem_wait` processes that are at `sem_wait` on the semaphore `i` or asleep in it. -/
def waiting (i : ℕ) (x : Proc) : Bool :=
  decide (x.prog = .wait ∧ (x.pc = .opened i ∨ x.pc = .asleep i))

/-- The `psem_post` processes that are at `sem_post` on the semaphore `i`. -/
def posting (i : ℕ) (x : Proc) : Bool := decide (x.prog = .post ∧ x.pc = .opened i)

/-- The processes that went to sleep on the semaphore `i` and have not gone on. -/
def sleeping (i : ℕ) (x : Proc) : Bool := decide (x.pc = .asleep i)

/-- The processes that are going to wake another one. -/
def waking (i : ℕ) (x : Proc) : Bool := decide (x.pc = .waking i)

/-- A step of the process `x` on the semaphore `i`, from `s` to `s'`. -/
inductive Use (i : ℕ) (x : Proc) (s : Sem) : Call → Sem → Proc → Prop where
  | take (s' : Sem) (hprog : x.prog = .wait) (hpc : x.pc = .opened i ∨ x.pc = .asleep i)
      (hvalue : s.value = s'.value + 1) (hasleep : s'.asleep = s.asleep)
      (hwoken : s.woken = s'.woken + (if sleeping i x then 1 else 0)) :
      Use i x s .go s' { x with pc := .performed, done := some i }
  | sleep (s' : Sem) (hprog : x.prog = .wait) (hpc : x.pc = .opened i ∨ x.pc = .asleep i)
      (hvalue : s.value = 0 ∧ s'.value = 0) (hasleep : s'.asleep = s.asleep + 1)
      (hwoken : s.woken = s'.woken + (if sleeping i x then 1 else 0)) :
      Use i x s .go s' { x with pc := .asleep i }
  | add (s' : Sem) (hprog : x.prog = .post) (hpc : x.pc = .opened i)
      (hvalue : s'.value = s.value + 1) (hasleep : s'.asleep = s.asleep)
      (hwoken : s'.woken = s.woken) :
      Use i x s .go s' { x with pc := .waking i, done := some i }
  | wake (s' : Sem) (hpc : x.pc = .waking i) (hvalue : s'.value = s.value)
      (hwake : (s.asleep = s'.asleep + 1 ∧ s'.woken = s.woken + 1) ∨
        (s.asleep = 0 ∧ s'.asleep = 0 ∧ s'.woken = s.woken)) :
      Use i x s .go s' { x with pc := .performed }
  | leave (c : Call) (s' : Sem) (pc : Pc) (hpc : x.pc = .asleep i) (hended : pc.ended = true)
      (hvalue : s'.value = s.value) (hasleep : s'.asleep ≤ s.asleep)
      (hsum : s.asleep + s.woken = s'.asleep + s'.woken + 1)
      (hwoken : c ≠ .kill true → s'.woken = s.woken) :
      Use i x s c s' { x with pc := pc }

inductive Move (g : Shared) (x : Proc) : Call → Shared → Proc → Prop where
  | ends (c : Call) (g' : Shared) (y : Proc) (h : Ends g x c g' y) : Move g x c g' y
  | created (name : List UInt8) (i : ℕ) (fs : SemFs) (hprog : x.prog = .create)
      (hpc : x.pc = .start) (h : g.fs.Opened name i fs) :
      Move g x .go { g with fs := fs } (x.exit EXIT_SUCCESS)
  | unlinked (name : List UInt8) (fs : SemFs) (hpc : x.pc = .start)
      (h : g.fs.unlink name = some fs) :
      Move g x .go { g with fs := fs } (x.exit EXIT_SUCCESS)
  | opened (name : List UInt8) (i : ℕ) (hprog : x.prog ≠ .create ∧ x.prog ≠ .unlink)
      (hpc : x.pc = .start) (hname : g.fs.names name = some i) :
      Move g x .go g { x with pc := .opened i }
  | used (c : Call) (i : ℕ) (s s' : Sem) (y : Proc) (hs : g.fs.objs[i]? = some s)
      (hinit : s'.init = s.init) (h : Use i x s c s' y) :
      Move g x c { g with fs := g.fs.set i s' } y
  | fetched (i value : ℕ) (hprog : x.prog = .getvalue) (hpc : x.pc = .opened i) :
      Move g x .go g { x with pc := .fetched value }

variable {g g' : Shared} {x y : Proc}

/-- A process ends that is at none of the calls. -/
theorem Ends.of_pc {c : Call} {pc : Pc} (hended : pc.ended = true) (hawake : ∀ i, x.pc ≠ .asleep i)
    (hwaking : ∀ i, x.pc = .waking i → ∃ woken, c = .kill woken) :
    Ends g x c g { x with pc := pc } :=
  ⟨rfl, hawake, hwaking, hended, rfl, rfl⟩

theorem Move.exit (c : Call) (status : ℕ) (hpc : x.pc = .start ∨ ∃ i, x.pc = .opened i) :
    Move g x c g (x.exit status) := by
  refine .ends c g _ (.of_pc rfl (fun i hi => ?_) fun i hi => ?_)
  all_goals
    rw [hi] at hpc
    simp at hpc

theorem openSem_cases (hprog : x.prog ≠ .create ∧ x.prog ≠ .unlink) (hpc : x.pc = .start)
    (h : openSem g x = (g', y)) : Move g x .go g' y := by
  unfold openSem at h
  split at h
  · obtain ⟨rfl, rfl⟩ := Prod.mk.inj h
    exact .exit .go _ (Or.inl hpc)
  · split at h
    · rename_i i fs hopen
      obtain ⟨⟨name, hname⟩, rfl⟩ := SemFs.semOpen_existing hopen
      obtain ⟨rfl, rfl⟩ := Prod.mk.inj h
      exact .opened name i hprog hpc hname
    · obtain ⟨rfl, rfl⟩ := Prod.mk.inj h
      exact .exit .go _ (Or.inl hpc)

theorem create_cases (hprog : x.prog = .create) (hpc : x.pc = .start)
    (h : create g x = (g', y)) : Move g x .go g' y := by
  unfold create at h
  split at h
  · obtain ⟨rfl, rfl⟩ := Prod.mk.inj h
    exact .exit .go _ (Or.inl hpc)
  · split at h
    · rename_i i fs hopen
      obtain ⟨rfl, rfl⟩ := Prod.mk.inj h
      obtain ⟨name, hopened⟩ := SemFs.semOpen_cases hopen
      exact .created name i fs hprog hpc hopened
    · obtain ⟨rfl, rfl⟩ := Prod.mk.inj h
      exact .exit .go _ (Or.inl hpc)

theorem unlink_cases (hpc : x.pc = .start) (h : unlink g x = (g', y)) : Move g x .go g' y := by
  unfold unlink at h
  split at h
  · obtain ⟨rfl, rfl⟩ := Prod.mk.inj h
    exact .exit .go _ (Or.inl hpc)
  · split at h
    · rename_i fs hunlink
      obtain ⟨rfl, rfl⟩ := Prod.mk.inj h
      obtain ⟨name, -, hunlink⟩ := Option.bind_eq_some_iff.mp hunlink
      exact .unlinked name fs hpc hunlink
    · obtain ⟨rfl, rfl⟩ := Prod.mk.inj h
      exact .exit .go _ (Or.inl hpc)

/-- A look at the value, from `sem_wait` or after a wake-up. -/
theorem look_cases {i : ℕ} {got : Bool} {s s' : Sem} (hprog : x.prog = .wait)
    (hpc : x.pc = .opened i ∨ x.pc = .asleep i) (hs : g.fs.objs[i]? = some s)
    (hlooked : s.Looked got s') (hwoken : s.woken = s'.woken + (if sleeping i x then 1 else 0))
    (h : look g x i (got, g.fs.set i s') = (g', y)) : Move g x .go g' y := by
  obtain ⟨rfl, rfl⟩ := Prod.mk.inj h
  refine .used .go i s s' _ hs hlooked.init ?_
  cases got with
  | true => exact .take s' hprog hpc hlooked.value hlooked.asleep hwoken
  | false =>
      have hempty := hlooked.empty rfl
      exact .sleep s' hprog hpc ⟨hlooked.value.trans hempty, hempty⟩ hlooked.asleep hwoken

theorem perform_cases {i : ℕ} (hpc : x.pc = .opened i) (h : perform g x i = some (g', y)) :
    Move g x .go g' y := by
  unfold perform at h
  split at h
  next hprog =>
    obtain ⟨r, hwait, hlook⟩ := Option.map_eq_some_iff.mp h
    obtain ⟨s, hs, rfl⟩ := Option.map_eq_some_iff.mp hwait
    refine look_cases hprog (Or.inl hpc) hs s.wait_looked ?_ hlook
    simp [sleeping, hpc, s.wait_woken]
  next hprog =>
    split at h
    · rename_i fs hpost
      obtain ⟨rfl, rfl⟩ := Prod.mk.inj (Option.some.inj h)
      obtain ⟨s, hs, hmap⟩ := Option.bind_eq_some_iff.mp hpost
      obtain ⟨s', hs', rfl⟩ := Option.map_eq_some_iff.mp hmap
      obtain ⟨hvalue, hinit, hasleep, hwoken⟩ := Sem.post_spec hs'
      exact .used .go i s s' _ hs hinit (.add s' hprog hpc hvalue hasleep hwoken)
    · obtain ⟨rfl, rfl⟩ := Prod.mk.inj (Option.some.inj h)
      exact .exit .go _ (Or.inr ⟨i, hpc⟩)
  next hprog =>
    obtain ⟨s, hs, heq⟩ := Option.map_eq_some_iff.mp h
    obtain ⟨rfl, rfl⟩ := Prod.mk.inj heq
    exact .fetched i s.value hprog hpc
  next => cases h

theorem go_cases (h : go g x = some (g', y)) : Move g x .go g' y := by
  unfold go at h
  split at h
  next hpc =>
    split at h
    next hprog => exact create_cases hprog hpc (Option.some.inj h)
    next hprog => exact unlink_cases hpc (Option.some.inj h)
    next hcreate hunlink => exact openSem_cases ⟨hcreate, hunlink⟩ hpc (Option.some.inj h)
  next i hpc => exact perform_cases hpc h
  next i hpc =>
    split at h
    next hprog =>
      obtain ⟨r, hresume, hlook⟩ := Option.map_eq_some_iff.mp h
      obtain ⟨s, hs, hmap⟩ := Option.bind_eq_some_iff.mp hresume
      obtain ⟨⟨got, s'⟩, hs', rfl⟩ := Option.map_eq_some_iff.mp hmap
      obtain ⟨hlooked, hwoken⟩ := Sem.resume_looked hs'
      refine look_cases hprog (Or.inr hpc) hs hlooked ?_ hlook
      simpa [sleeping, hpc] using hwoken
    next => cases h
  next i hpc =>
    obtain ⟨fs, hwake, heq⟩ := Option.map_eq_some_iff.mp h
    obtain ⟨rfl, rfl⟩ := Prod.mk.inj heq
    obtain ⟨s, hs, rfl⟩ := Option.map_eq_some_iff.mp hwake
    obtain ⟨hvalue, hinit, hwoken⟩ := s.wake_spec
    exact .used .go i s s.wake _ hs hinit (.wake s.wake hpc hvalue hwoken)
  next hpc =>
    split at h
    next hprog =>
      obtain ⟨rfl, rfl⟩ := Prod.mk.inj (Option.some.inj h)
      exact .ends .go _ _ ⟨rfl, by simp [hpc], by simp [hpc], rfl, rfl, rfl⟩
    next =>
      obtain ⟨rfl, rfl⟩ := Prod.mk.inj (Option.some.inj h)
      exact .ends .go _ _ ⟨rfl, by simp [hpc], by simp [hpc], rfl, rfl, rfl⟩
  next value hpc =>
    obtain ⟨rfl, rfl⟩ := Prod.mk.inj (Option.some.inj h)
    exact .ends .go _ _ ⟨rfl, by simp [hpc], by simp [hpc], rfl, rfl, rfl⟩
  next => cases h

/-- A call that fails, or a kill. -/
theorem stop_cases {c : Call} {woken : Bool} {pc : Pc} (hended : pc.ended = true)
    (hwaking : ∀ i, x.pc = .waking i → ∃ woken, c = .kill woken)
    (hc : c ≠ .kill true → woken = false)
    (h : stop g x woken pc = some (g', y)) : Move g x c g' y := by
  unfold stop at h
  split at h
  next i hpc =>
    obtain ⟨fs, hleave, heq⟩ := Option.map_eq_some_iff.mp h
    obtain ⟨rfl, rfl⟩ := Prod.mk.inj heq
    obtain ⟨s, hs, hmap⟩ := Option.bind_eq_some_iff.mp hleave
    obtain ⟨s', hs', rfl⟩ := Option.map_eq_some_iff.mp hmap
    obtain ⟨hvalue, hinit, hsum, hasleep, hwoken⟩ := Sem.leave_spec hs'
    exact .used c i s s' _ hs hinit
      (.leave c s' pc hpc hended hvalue hasleep hsum fun hne => hwoken (hc hne))
  next hawake =>
    split at h
    · cases h
    · obtain ⟨rfl, rfl⟩ := Prod.mk.inj (Option.some.inj h)
      exact .ends c _ _ (.of_pc hended hawake hwaking)

theorem exec_cases {p : ℕ} {c : Call} (h : exec p g x c = some (g', y)) : Move g x c g' y := by
  cases c with
  | go => exact go_cases h
  | fail =>
      simp only [exec, fail] at h
      split at h
      next hpc => exact stop_cases rfl (by simp [hpc]) (fun _ => rfl) h
      next hpc => exact stop_cases rfl (by simp [hpc]) (fun _ => rfl) h
      next hpc => exact stop_cases rfl (by simp [hpc]) (fun _ => rfl) h
      next => cases h
  | kill woken =>
      simp only [exec] at h
      split at h
      · cases h
      · refine stop_cases rfl (fun _ _ => ⟨woken, rfl⟩) (fun hne => ?_) h
        cases woken with
        | false => rfl
        | true => exact absurd rfl hne

/-! ## The account of a semaphore -/

/-- The processes refer to semaphores that exist, and have not waited or posted before the call. -/
structure Local (n : ℕ) (x : Proc) : Prop where
  opened : ∀ i, x.pc = .opened i →
    i < n ∧ x.done = none ∧ x.prog ≠ .create ∧ x.prog ≠ .unlink
  asleep : ∀ i, x.pc = .asleep i → i < n ∧ x.done = none ∧ x.prog = .wait
  waking : ∀ i, x.pc = .waking i → i < n
  start : x.pc = .start → x.done = none
  done : ∀ i, x.done = some i → i < n

/-- The value of each semaphore is accounted for, and so is each process that sleeps on it. -/
structure Account (w : CrowdWorld Shared Proc) : Prop where
  each : ∀ x ∈ w.procs, Local w.shared.fs.objs.length x
  value : ∀ (i : ℕ) (s : Sem), w.shared.fs.objs[i]? = some s →
    s.value + w.procs.countP (waited i) = s.init + w.procs.countP (posted i)
  sleepers : ∀ (i : ℕ) (s : Sem), w.shared.fs.objs[i]? = some s →
    s.asleep + s.woken = w.procs.countP (sleeping i)

/-- A process at `sem_wait` has not got past it. -/
theorem Local.done_none {n i : ℕ} (h : Local n x) (hpc : x.pc = .opened i ∨ x.pc = .asleep i) :
    x.done = none := by
  rcases hpc with hpc | hpc
  · exact (h.opened i hpc).2.1
  · exact (h.asleep i hpc).2.1

theorem Local.mono {m n : ℕ} (h : Local m x) (hle : m ≤ n) : Local n x where
  opened i hi := ⟨(h.opened i hi).1.trans_le hle, (h.opened i hi).2⟩
  asleep i hi := ⟨(h.asleep i hi).1.trans_le hle, (h.asleep i hi).2⟩
  waking i hi := (h.waking i hi).trans_le hle
  start := h.start
  done i hi := (h.done i hi).trans_le hle

/-- A process that is at none of the calls on a semaphore. -/
theorem Local.of_done {n : ℕ} (hdone : ∀ i, y.done = some i → i < n) (hpc : y.pc ≠ .start)
    (hnot : ∀ i, y.pc ≠ .opened i ∧ y.pc ≠ .asleep i ∧ y.pc ≠ .waking i) : Local n y where
  opened i hi := absurd hi (hnot i).1
  asleep i hi := absurd hi (hnot i).2.1
  waking i hi := absurd hi (hnot i).2.2
  start hi := absurd hi hpc
  done := hdone

theorem Local.ended {n : ℕ} (h : Local n x) (hpc : y.pc.ended = true) (hdone : y.done = x.done) :
    Local n y := by
  refine .of_done (fun i hi => h.done i (hdone ▸ hi)) (fun hi => ?_) fun i =>
    ⟨fun hi => ?_, fun hi => ?_, fun hi => ?_⟩
  all_goals
    rw [hi] at hpc
    cases hpc

theorem ended_cases {pc : Pc} (h : pc.ended = true) :
    (∃ status, pc = .exited status) ∨ pc = .killed := by
  cases pc with
  | exited status => exact Or.inl ⟨status, rfl⟩
  | killed => exact Or.inr rfl
  | _ => cases h

theorem not_asleep_of_ended {pc : Pc} (h : pc.ended = true) (i : ℕ) : pc ≠ .asleep i := by
  rcases ended_cases h with ⟨status, rfl⟩ | rfl <;> exact nofun

theorem not_waking_of_ended {pc : Pc} (h : pc.ended = true) (i : ℕ) : pc ≠ .waking i := by
  rcases ended_cases h with ⟨status, rfl⟩ | rfl <;> exact nofun

section

variable {w v : CrowdWorld Shared Proc} {p : ℕ}

/-- A step in which the semaphores, the sleepers and what the process has done stay as they are. -/
theorem Account.keep (h : Account w) (hx : w.procs[p]? = some x) (hfs : g.fs = w.shared.fs)
    (hprog : y.prog = x.prog) (hdone : y.done = x.done) (hx' : ∀ i, x.pc ≠ .asleep i)
    (hy : ∀ i, y.pc ≠ .asleep i) (hlocal : Local w.shared.fs.objs.length y) :
    Account ⟨g, w.procs.set p y⟩ := by
  refine ⟨fun z hz => ?_, fun i s hs => ?_, fun i s hs => ?_⟩
  · rw [hfs]
    rcases Crowd.mem_set_cases hz with rfl | hz
    · exact hlocal
    · exact h.each z hz
  · rw [hfs] at hs
    have hwaited : waited i y = waited i x := by simp only [waited, hprog, hdone]
    have hposted : posted i y = posted i x := by simp only [posted, hprog, hdone]
    rw [Crowd.countP_set_of_eq _ hx hwaited, Crowd.countP_set_of_eq _ hx hposted]
    exact h.value i s hs
  · rw [hfs] at hs
    have hsleeping : sleeping i y = sleeping i x := by simp [sleeping, hx' i, hy i]
    rw [Crowd.countP_set_of_eq _ hx hsleeping]
    exact h.sleepers i s hs

/-- A new semaphore: nobody has waited for it or posted to it, and nobody sleeps on it. -/
theorem Account.create (h : Account w) (name : List UInt8) (value : ℕ)
    (hle : value ≤ SEM_VALUE_MAX) :
    Account { w with
      shared := { w.shared with fs := w.shared.fs.create name ⟨value, value, 0, 0, hle⟩ } } := by
  have hnone : ∀ x ∈ w.procs, x.done ≠ some w.shared.fs.objs.length := fun x hx hdone =>
    absurd ((h.each x hx).done _ hdone) (lt_irrefl _)
  refine ⟨fun x hx => ?_, fun i s hs => ?_, fun i s hs => ?_⟩
  · exact (h.each x hx).mono (by rw [Named.create_length]; exact Nat.le_succ _)
  · rcases Named.create_cases hs with hold | ⟨rfl, rfl⟩
    · exact h.value i s hold
    · have hwaited : w.procs.countP (waited w.shared.fs.objs.length) = 0 := by
        rw [List.countP_eq_zero]
        intro x hx
        simp [waited, hnone x hx]
      have hposted : w.procs.countP (posted w.shared.fs.objs.length) = 0 := by
        rw [List.countP_eq_zero]
        intro x hx
        simp [posted, hnone x hx]
      rw [hwaited, hposted]
  · rcases Named.create_cases hs with hold | ⟨rfl, rfl⟩
    · exact h.sleepers i s hold
    · have hsleeping : w.procs.countP (sleeping w.shared.fs.objs.length) = 0 := by
        rw [List.countP_eq_zero]
        intro x hx hsleeping
        have hlt := ((h.each x hx).asleep _ (of_decide_eq_true hsleeping)).1
        exact absurd hlt (lt_irrefl _)
      rw [hsleeping]
      rfl

/-! What a step on the semaphore `i` does to the counts of the process. -/

variable {i : ℕ} {s s' : Sem} {c : Call}

theorem Use.local {n : ℕ} (h : Use i x s c s' y) (hlocal : Local n x) (hi : i < n) :
    Local n y := by
  cases h with
  | take =>
      exact .of_done (fun j hj => Option.some.inj hj ▸ hi) nofun fun _ => ⟨nofun, nofun, nofun⟩
  | sleep _ hprog hpc =>
      have hnone := hlocal.done_none hpc
      refine ⟨nofun, fun j hj => ?_, nofun, nofun, hlocal.done⟩
      obtain rfl := Pc.asleep.inj hj
      exact ⟨hi, hnone, hprog⟩
  | add =>
      refine ⟨nofun, nofun, fun j hj => Pc.waking.inj hj ▸ hi, nofun, fun j hj => ?_⟩
      exact Option.some.inj hj ▸ hi
  | wake => exact .of_done hlocal.done nofun fun _ => ⟨nofun, nofun, nofun⟩
  | leave c s' pc hpc hended => exact hlocal.ended hended rfl

theorem Use.value {n : ℕ} (h : Use i x s c s' y) (hlocal : Local n x) :
    s'.value + (if waited i y then 1 else 0) + (if posted i x then 1 else 0) =
      s.value + (if waited i x then 1 else 0) + (if posted i y then 1 else 0) := by
  cases h with
  | take _ hprog hpc hvalue =>
      have hnone := hlocal.done_none hpc
      simp [waited, posted, hprog, hnone, hvalue]
  | sleep _ hprog _ hvalue => simp [waited, posted, hprog, hvalue]
  | add _ hprog hpc hvalue =>
      have hnone := (hlocal.opened i hpc).2.1
      simp [waited, posted, hprog, hnone, hvalue]
  | wake _ _ hvalue =>
      rw [hvalue]
      rfl
  | leave _ _ _ _ _ hvalue =>
      rw [hvalue]
      rfl

theorem Use.sleepers (h : Use i x s c s' y) :
    s'.asleep + s'.woken + (if sleeping i x then 1 else 0) =
      s.asleep + s.woken + (if sleeping i y then 1 else 0) := by
  cases h with
  | take _ _ _ _ hasleep hwoken =>
      simp only [sleeping] at hwoken ⊢
      simp only [reduceCtorEq, decide_false, Bool.false_eq_true, if_false]
      omega
  | sleep _ _ _ _ hasleep hwoken =>
      simp only [sleeping] at hwoken ⊢
      simp only [decide_true, if_true]
      omega
  | add _ _ hpc _ hasleep hwoken => simp [sleeping, hpc, hasleep, hwoken]
  | wake _ hpc _ hwake =>
      simp only [sleeping, hpc, reduceCtorEq, decide_false, Bool.false_eq_true, if_false]
      omega
  | leave _ _ pc hpc hended _ _ hsum =>
      simp only [sleeping, hpc, decide_true, if_true, not_asleep_of_ended hended, decide_false,
        Bool.false_eq_true, if_false]
      omega

/-- A process counts for another semaphore as before. -/
structure Elsewhere (j : ℕ) (x y : Proc) : Prop where
  waited : waited j y = waited j x
  posted : posted j y = posted j x
  waiting : waiting j y = waiting j x
  posting : posting j y = posting j x
  sleeping : sleeping j y = sleeping j x
  waking : waking j y = waking j x

theorem Use.elsewhere {n j : ℕ} (h : Use i x s c s' y) (hlocal : Local n x) (hj : j ≠ i) :
    Elsewhere j x y := by
  have hj' : i ≠ j := Ne.symm hj
  cases h with
  | take _ hprog hpc =>
      have hnone := hlocal.done_none hpc
      rcases hpc with hpc | hpc <;> constructor <;>
        simp [waited, posted, waiting, posting, sleeping, waking,
          hprog, hpc, hnone, hj']
  | sleep _ hprog hpc =>
      rcases hpc with hpc | hpc <;> constructor <;>
        simp [waited, posted, waiting, posting, sleeping, waking,
          hprog, hpc, hj']
  | add _ hprog hpc =>
      have hnone := (hlocal.opened i hpc).2.1
      constructor <;>
        simp [waited, posted, waiting, posting, sleeping, waking,
          hprog, hpc, hnone, hj']
  | wake _ hpc =>
      constructor <;>
        simp [waited, posted, waiting, posting, sleeping, waking,
          hpc, hj']
  | leave _ _ pc hpc hended =>
      rcases ended_cases hended with ⟨status, rfl⟩ | rfl <;> constructor <;>
        simp [waited, posted, waiting, posting, sleeping, waking, hpc, hj']

/-- A step on the semaphore `i`. -/
theorem Account.use (h : Account w) (hx : w.procs[p]? = some x)
    (hs : w.shared.fs.objs[i]? = some s) (hinit : s'.init = s.init) (huse : Use i x s c s' y) :
    Account ⟨{ w.shared with fs := w.shared.fs.set i s' }, w.procs.set p y⟩ := by
  have hlocal := h.each x (List.mem_of_getElem? hx)
  obtain ⟨hlt, -⟩ := List.getElem?_eq_some_iff.mp hs
  refine ⟨fun z hz => ?_, fun j t ht => ?_, fun j t ht => ?_⟩
  · rw [Named.set_length]
    rcases Crowd.mem_set_cases hz with rfl | hz
    · exact huse.local hlocal hlt
    · exact h.each z hz
  · rcases Named.set_cases ht with ⟨rfl, rfl⟩ | ⟨hne, ht⟩
    · have hold := h.value j s hs
      have hvalue := huse.value hlocal
      have hwaited := Crowd.countP_set (waited j) hx y
      have hposted := Crowd.countP_set (posted j) hx y
      simp only
      omega
    · have helse := huse.elsewhere hlocal hne
      rw [Crowd.countP_set_of_eq _ hx helse.waited, Crowd.countP_set_of_eq _ hx helse.posted]
      exact h.value j t ht
  · rcases Named.set_cases ht with ⟨rfl, rfl⟩ | ⟨hne, ht⟩
    · have hold := h.sleepers j s hs
      have hsleepers := huse.sleepers
      have hset := Crowd.countP_set (sleeping j) hx y
      simp only
      omega
    · rw [Crowd.countP_set_of_eq _ hx (huse.elsewhere hlocal hne).sleeping]
      exact h.sleepers j t ht

theorem Account.move (h : Account w) (hx : w.procs[p]? = some x)
    (hmove : Move w.shared x c g y) : Account ⟨g, w.procs.set p y⟩ := by
  have hlocal := h.each x (List.mem_of_getElem? hx)
  cases hmove with
  | ends c g y hends =>
      exact h.keep hx hends.fs hends.prog hends.done hends.awake (not_asleep_of_ended hends.pc)
        (hlocal.ended hends.pc hends.done)
  | created name i fs hprog hpc hopened =>
      have hawake : ∀ j, x.pc ≠ .asleep j := by simp [hpc]
      cases hopened with
      | old i hi => exact h.keep hx rfl rfl rfl hawake (fun _ => nofun) (hlocal.ended rfl rfl)
      | new value hle hnone =>
          have hnew := h.create name value hle
          refine hnew.keep hx rfl rfl rfl hawake (fun _ => nofun) ?_
          exact (hnew.each x (List.mem_of_getElem? hx)).ended rfl rfl
  | unlinked name fs hpc hunlink =>
      obtain ⟨i, hi, rfl⟩ := Option.map_eq_some_iff.mp hunlink
      have hkeep : Account ⟨w.shared, w.procs.set p (x.exit EXIT_SUCCESS)⟩ :=
        h.keep hx rfl rfl rfl (by simp [hpc]) (fun _ => nofun) (hlocal.ended rfl rfl)
      exact ⟨hkeep.each, hkeep.value, hkeep.sleepers⟩
  | opened name i hprog hpc hname =>
      refine h.keep hx rfl rfl rfl (by simp [hpc]) (fun _ => nofun)
        ⟨fun j hj => ?_, nofun, nofun, nofun, hlocal.done⟩
      obtain rfl := Pc.opened.inj hj
      exact ⟨w.shared.fs.names_lt name i hname, hlocal.start hpc, hprog⟩
  | used c i s s' y hs hinit huse => exact h.use hx hs hinit huse
  | fetched i value hprog hpc =>
      exact h.keep hx rfl rfl rfl (by simp [hpc]) (fun _ => nofun)
        (.of_done hlocal.done nofun fun _ => ⟨nofun, nofun, nofun⟩)

theorem Account.step {a : CrowdAct Command Call} (h : Account w) (hstep : psem.Step w a v) :
    Account v := by
  cases hstep with
  | spawn c =>
      refine ⟨fun x hx => ?_, fun i s hs => ?_, fun i s hs => ?_⟩
      · rcases List.mem_append.mp hx with hx | hx
        · exact h.each x hx
        · obtain rfl := List.mem_singleton.mp hx
          exact ⟨nofun, nofun, nofun, fun _ => rfl, nofun⟩
      · have hold := h.value i s hs
        simpa [List.countP_append, psem, waited, posted] using hold
      · have hold := h.sleepers i s hs
        simpa [List.countP_append, psem, sleeping] using hold
  | exec p c x y g hx hexec => exact h.move hx (exec_cases (p := p) hexec)

theorem Account.init (h : psem.system.Init w) : Account w := by
  obtain ⟨⟨hfs, -⟩, hprocs⟩ := h
  refine ⟨fun x hx => ?_, fun i s hs => ?_, fun i s hs => ?_⟩
  · rw [hprocs] at hx
    cases hx
  · rw [hfs] at hs
    cases hs
  · rw [hfs] at hs
    cases hs

/-! ## Wake-ups -/

/-- Nobody is killed that has been woken and not gone on, or that is going to wake another process:
the wake-up would be lost with it. -/
def KeepsWakeUp (w : CrowdWorld Shared Proc) : CrowdAct Command Call → Prop
  | .exec p (.kill woken) =>
      woken = false ∧ ∀ x, w.procs[p]? = some x → ∀ i, x.pc ≠ .waking i
  | _ => True

/-- While a process is asleep, there are at least as many wake-ups as units. -/
def Roused (w : CrowdWorld Shared Proc) : Prop :=
  ∀ (i : ℕ) (s : Sem), w.shared.fs.objs[i]? = some s → 0 < s.asleep →
    s.value ≤ s.woken + w.procs.countP (waking i)

/-- A step in which the semaphores and the wake-ups stay as they are. -/
theorem Roused.keep (h : Roused w) (hx : w.procs[p]? = some x)
    (hobjs : g.fs.objs = w.shared.fs.objs) (hx' : ∀ i, x.pc ≠ .waking i)
    (hy : ∀ i, y.pc ≠ .waking i) : Roused ⟨g, w.procs.set p y⟩ := by
  intro i s hs hasleep
  have hwaking : waking i y = waking i x := by simp [waking, hx' i, hy i]
  rw [Crowd.countP_set_of_eq _ hx hwaking]
  exact h i s (hobjs ▸ hs) hasleep

theorem Use.roused (h : Use i x s c s' y) (hkill : c ≠ .kill true) {n : ℕ}
    (hold : 0 < s.asleep → s.value ≤ s.woken + n) {m : ℕ}
    (hm : m + (if waking i x then 1 else 0) = n + (if waking i y then 1 else 0)) :
    0 < s'.asleep → s'.value ≤ s'.woken + m := by
  cases h with
  | take _ _ hpc hvalue hasleep hwoken =>
      have hwaking : waking i x = false := by rcases hpc with hpc | hpc <;> simp [waking, hpc]
      rw [hwaking] at hm
      simp only [waking, reduceCtorEq, decide_false, Bool.false_eq_true, if_false] at hm
      split at hwoken <;> omega
  | sleep _ _ _ hvalue =>
      intro _
      omega
  | add _ _ hpc hvalue hasleep hwoken =>
      simp only [waking, hpc, reduceCtorEq, decide_false, decide_true, Bool.false_eq_true,
        if_false, if_true] at hm
      omega
  | wake _ hpc hvalue hwake =>
      simp only [waking, hpc, reduceCtorEq, decide_false, decide_true, Bool.false_eq_true,
        if_false, if_true] at hm
      omega
  | leave _ _ _ hpc hended hvalue hasleep _ hwoken =>
      have hwoken := hwoken hkill
      simp only [waking, hpc, not_waking_of_ended hended, reduceCtorEq, decide_false,
        Bool.false_eq_true, if_false] at hm
      omega

theorem Roused.use (h : Roused w) (hacc : Account w) (hx : w.procs[p]? = some x)
    (hs : w.shared.fs.objs[i]? = some s) (huse : Use i x s c s' y) (hkill : c ≠ .kill true) :
    Roused ⟨{ w.shared with fs := w.shared.fs.set i s' }, w.procs.set p y⟩ := by
  intro j t ht
  rcases Named.set_cases ht with ⟨rfl, rfl⟩ | ⟨hne, ht⟩
  · exact huse.roused hkill (h j s hs) (Crowd.countP_set (waking j) hx y)
  · have helse := huse.elsewhere (hacc.each x (List.mem_of_getElem? hx)) hne
    rw [Crowd.countP_set_of_eq _ hx helse.waking]
    exact h j t ht

theorem Roused.move (h : Roused w) (hacc : Account w) (hx : w.procs[p]? = some x)
    (hkeeps : KeepsWakeUp w (.exec p c)) (hmove : Move w.shared x c g y) :
    Roused ⟨g, w.procs.set p y⟩ := by
  cases hmove with
  | ends c g y hends =>
      refine h.keep hx (by rw [hends.fs]) (fun i hi => ?_) (not_waking_of_ended hends.pc)
      obtain ⟨woken, rfl⟩ := hends.waking i hi
      exact hkeeps.2 x hx i hi
  | created name i fs hprog hpc hopened =>
      have hnot : ∀ j, x.pc ≠ .waking j := by simp [hpc]
      cases hopened with
      | old i hi => exact h.keep hx rfl hnot (fun _ => nofun)
      | new value hle hnone =>
          intro i s hs hasleep
          rcases Named.create_cases hs with hold | ⟨rfl, rfl⟩
          · have hwaking : waking i (x.exit EXIT_SUCCESS) = waking i x := by
              simp [waking, hnot i, Proc.exit]
            rw [Crowd.countP_set_of_eq _ hx hwaking]
            exact h i s hold hasleep
          · cases hasleep
  | unlinked name fs hpc hunlink =>
      exact h.keep hx (Named.unlink_objs hunlink) (by simp [hpc]) (fun _ => nofun)
  | opened name i hprog hpc hname => exact h.keep hx rfl (by simp [hpc]) (fun _ => nofun)
  | used c i s s' y hs hinit huse =>
      refine h.use hacc hx hs huse fun hkill => ?_
      subst hkill
      cases hkeeps.1
  | fetched i value hprog hpc => exact h.keep hx rfl (by simp [hpc]) (fun _ => nofun)

theorem Roused.step {a : CrowdAct Command Call} (h : Roused w) (hacc : Account w)
    (hkeeps : KeepsWakeUp w a) (hstep : psem.Step w a v) : Roused v := by
  cases hstep with
  | spawn c =>
      intro i s hs hasleep
      have hold := h i s hs hasleep
      simpa [List.countP_append, psem, waking] using hold
  | exec p c x y g hx hexec => exact h.move hacc hx hkeeps (exec_cases (p := p) hexec)

theorem account_of_run {w₀ : CrowdWorld Shared Proc} {as : List (CrowdAct Command Call)}
    (h₀ : psem.system.Init w₀) (hrun : psem.system.run w₀ as = some w) : Account w :=
  TransSys.run_preserves (fun _ _ _ hacc hnext => hacc.step (Crowd.next_cases hnext))
    (Account.init h₀) hrun

theorem roused_of_run {w₀ : CrowdWorld Shared Proc} {as : List (CrowdAct Command Call)}
    (h₀ : psem.system.Init w₀) (hrun : psem.system.run w₀ as = some w)
    (hkeeps : psem.system.Meets KeepsWakeUp w₀ as) : Roused w := by
  have hroused₀ : Roused w₀ := by
    intro i s hs
    rw [h₀.1.1] at hs
    cases hs
  have hboth := TransSys.run_preserves_of_meets (P := fun w => Account w ∧ Roused w)
    (fun _ _ _ h hkeeps hnext =>
      ⟨h.1.step (Crowd.next_cases hnext), h.2.step h.1 hkeeps (Crowd.next_cases hnext)⟩)
    ⟨Account.init h₀, hroused₀⟩ hkeeps hrun
  exact hboth.2

/-! ## Blocked processes -/

/-- A step of a process without a failure. -/
def Succeeds : CrowdAct Command Call → Prop
  | .exec _ .go => True
  | _ => False

/-- The process is asleep in `sem_wait`, and nobody is woken. -/
def Blocked (fs : SemFs) (x : Proc) : Prop :=
  ∃ i s, x.pc = .asleep i ∧ fs.objs[i]? = some s ∧ s.woken = 0

theorem blocked_go (h : Blocked g.fs x) : go g x = none := by
  obtain ⟨i, s, hpc, hs, hzero⟩ := h
  cases hprog : x.prog <;> simp [go, hpc, hprog, SemFs.semResume, hs, Sem.resume, hzero]

/-- A process that has not ended and is not blocked can go on. -/
theorem Local.go_on (h : Local g.fs.objs.length x) (hended : x.pc.ended = false)
    (hblocked : ¬ Blocked g.fs x) : ∃ r, go g x = some r := by
  cases hpc : x.pc with
  | start =>
      simp only [go, hpc]
      split
      · exact ⟨_, rfl⟩
      · exact ⟨_, rfl⟩
      · exact ⟨_, rfl⟩
  | opened i =>
      obtain ⟨hlt, -, hcreate, hunlink⟩ := h.opened i hpc
      have hs := List.getElem?_eq_getElem hlt
      simp only [go, hpc, perform]
      cases hprog : x.prog with
      | create => exact absurd hprog hcreate
      | unlink => exact absurd hprog hunlink
      | wait => simp [SemFs.semWait, hs]
      | post =>
          dsimp only
          split
          · exact ⟨_, rfl⟩
          · exact ⟨_, rfl⟩
      | getvalue => simp [hs]
  | asleep i =>
      obtain ⟨hlt, -, hprog⟩ := h.asleep i hpc
      have hs := List.getElem?_eq_getElem hlt
      have hpos : 0 < (g.fs.objs[i]).woken := by
        by_contra hzero
        exact hblocked ⟨i, _, hpc, hs, by omega⟩
      simp [go, hpc, hprog, SemFs.semResume, hs, Sem.resume, hpos]
  | waking i =>
      have hs := List.getElem?_eq_getElem (h.waking i hpc)
      simp [go, hpc, SemFs.semWake, hs]
  | performed =>
      simp only [go, hpc]
      split
      · exact ⟨_, rfl⟩
      · exact ⟨_, rfl⟩
  | fetched value =>
      simp only [go, hpc]
      exact ⟨_, rfl⟩
  | exited status =>
      rw [hpc] at hended
      cases hended
  | killed =>
      rw [hpc] at hended
      cases hended

theorem ended_go (h : x.pc.ended = true) : go g x = none := by
  cases hpc : x.pc with
  | exited status => simp only [go, hpc]
  | killed => simp only [go, hpc]
  | _ =>
      rw [hpc] at h
      cases h

/-- The processes that cannot go on have ended or are blocked. -/
theorem Account.stuck_iff (h : Account w) :
    psem.system.Stuck Succeeds w ↔
      ∀ x ∈ w.procs, x.pc.ended = true ∨ Blocked w.shared.fs x := by
  constructor
  · intro hstuck x hx
    by_contra hnot
    obtain ⟨hended, hblocked⟩ := not_or.mp hnot
    obtain ⟨p, hp⟩ := List.mem_iff_getElem?.mp hx
    obtain ⟨r, hr⟩ := (h.each x hx).go_on (by simpa using hended) hblocked
    have hnone : psem.next w (.exec p .go) = none := hstuck (.exec p .go) trivial
    rw [Crowd.next_exec hp] at hnone
    have hexec : psem.exec p w.shared x .go = some r := hr
    rw [hexec] at hnone
    cases hnone
  · intro hall a ha
    cases a with
    | spawn c => cases ha
    | exec p c =>
        cases c with
        | fail => cases ha
        | kill => cases ha
        | go =>
            show psem.next w (.exec p .go) = none
            cases hp : w.procs[p]? with
            | none => simp [Crowd.next, hp]
            | some x =>
                have hnone : psem.exec p w.shared x .go = none := by
                  rcases hall x (List.mem_of_getElem? hp) with hended | hblocked
                  · exact ended_go hended
                  · exact blocked_go hblocked
                rw [Crowd.next_exec hp, hnone]
                rfl

theorem not_waking_of_stopped (h : x.pc.ended = true ∨ Blocked g.fs x) (i : ℕ) :
    x.pc ≠ .waking i := by
  rcases h with hended | ⟨j, t, hpc, -⟩
  · exact not_waking_of_ended hended i
  · simp [hpc]

/-- A process that waits for a semaphore and cannot go on is asleep, and no process is woken. -/
theorem asleep_of_stopped (h : x.pc.ended = true ∨ Blocked g.fs x)
    (hs : g.fs.objs[i]? = some s) (hwaiting : x.pc = .opened i ∨ x.pc = .asleep i) :
    x.pc = .asleep i ∧ s.woken = 0 := by
  rcases h with hended | ⟨j, t, hj, ht, hzero⟩
  · rcases hwaiting with hpc | hpc <;> simp [hpc, Pc.ended] at hended
  · rcases hwaiting with hpc | hpc
    · cases hpc.symm.trans hj
    · obtain rfl := Pc.asleep.inj (hpc.symm.trans hj)
      obtain rfl := Option.some.inj (hs.symm.trans ht)
      exact ⟨hpc, hzero⟩

def sampleStart : CrowdWorld Shared Proc := ⟨⟨.empty, []⟩, []⟩

/-- A semaphore with the value 0, a process that goes to sleep on it, and one that wakes it. -/
def sampleRun : List (CrowdAct Command Call) :=
  [.spawn ⟨.create, [str "psem_create", str "-c", str "/s", str "384"], 100⟩, .exec 0 .go,
    .spawn ⟨.wait, [str "psem_wait", str "/s"], 101⟩, .exec 1 .go, .exec 1 .go,
    .spawn ⟨.post, [str "psem_post", str "s"], 102⟩, .exec 2 .go, .exec 2 .go, .exec 2 .go,
    .exec 1 .go, .exec 1 .go, .exec 2 .go]

/-- **No wake-up is lost.** However many processes of the five programs come, in whatever order they
run, and whatever fails or is killed: the value of a semaphore is its first value and one for each
successful `psem_post` less one for each successful `psem_wait`. The processes cannot go on exactly
if each of them has ended or sleeps in `sem_wait` without having been woken. If then no process was
killed together with a wake-up, as many of the `psem_wait` processes have got past a semaphore as it
had units to give, or all of them. -/
theorem no_unit_lost {w₀ : CrowdWorld Shared Proc} {as : List (CrowdAct Command Call)}
    (h₀ : psem.system.Init w₀) (hrun : psem.system.run w₀ as = some w)
    (hs : w.shared.fs.objs[i]? = some s) :
    s.value + w.procs.countP (waited i) = s.init + w.procs.countP (posted i) ∧
    (psem.system.Stuck Succeeds w ↔ ∀ x ∈ w.procs, x.pc.ended = true ∨ Blocked w.shared.fs x) ∧
    (psem.system.Meets KeepsWakeUp w₀ as → psem.system.Stuck Succeeds w →
      w.procs.countP (waited i) =
        min (w.procs.countP (waited i) + w.procs.countP (waiting i))
          (s.init + w.procs.countP (posted i))) := by
  have hacc := account_of_run h₀ hrun
  have hvalue := hacc.value i s hs
  refine ⟨hvalue, hacc.stuck_iff, fun hkeeps hstuck => ?_⟩
  -- If a process still waits for the semaphore, it is asleep, and the value is 0.
  have hzero : 0 < w.procs.countP (waiting i) → s.value = 0 := by
    intro hpos
    have hstopped := hacc.stuck_iff.mp hstuck
    obtain ⟨x, hx, hwaiting⟩ := List.countP_pos_iff.mp hpos
    obtain ⟨hpc, hwoken⟩ := asleep_of_stopped (hstopped x hx) hs (of_decide_eq_true hwaiting).2
    have hsleeping : 0 < w.procs.countP (sleeping i) :=
      List.countP_pos_iff.mpr ⟨x, hx, decide_eq_true hpc⟩
    have hsleepers := hacc.sleepers i s hs
    have hwaking : w.procs.countP (waking i) = 0 := by
      rw [List.countP_eq_zero]
      intro z hz hwaking
      exact not_waking_of_stopped (hstopped z hz) i (of_decide_eq_true hwaking)
    have hroused := roused_of_run h₀ hrun hkeeps i s hs (by omega)
    omega
  omega

theorem no_unit_lost_sampleRun :
    ∃ w s, psem.system.run sampleStart sampleRun = some w ∧ w.shared.fs.objs[0]? = some s ∧
      s.value + w.procs.countP (waited 0) = s.init + w.procs.countP (posted 0) ∧
      w.procs.countP (waited 0) =
        min (w.procs.countP (waited 0) + w.procs.countP (waiting 0))
          (s.init + w.procs.countP (posted 0)) := by
  have hrun : ((psem.system.run sampleStart sampleRun).bind fun w =>
      (w.shared.fs.objs[0]?).map fun s => (s.value, w.procs.map fun x => x.pc.ended)) =
        some (0, [true, true, true]) := by decide +kernel
  obtain ⟨w, hw, hrun⟩ := Option.bind_eq_some_iff.mp hrun
  obtain ⟨s, hs, hpair⟩ := Option.map_eq_some_iff.mp hrun
  have hinit : psem.system.Init sampleStart := ⟨⟨rfl, rfl⟩, rfl⟩
  obtain ⟨hvalue, hstuck, hmin⟩ := no_unit_lost hinit hw hs
  have hkeeps : psem.system.Meets KeepsWakeUp sampleStart sampleRun :=
    .of_labels (by simp [sampleRun, KeepsWakeUp]) _
  refine ⟨w, s, hw, hs, hvalue, hmin hkeeps (hstuck.mpr fun x hx => Or.inl ?_)⟩
  have hended : x.pc.ended ∈ w.procs.map fun x => x.pc.ended := List.mem_map_of_mem hx
  rw [(Prod.mk.inj hpair).2] at hended
  simpa using hended

/-- Two processes are asleep on a semaphore, 1 is added to it, and the process that is woken is
killed: the other one sleeps on, and the unit stays. -/
example : ((psem.system.run sampleStart
    [.spawn ⟨.create, [str "psem_create", str "-c", str "/s"], 100⟩, .exec 0 .go,
      .spawn ⟨.wait, [str "psem_wait", str "/s"], 101⟩, .exec 1 .go, .exec 1 .go,
      .spawn ⟨.wait, [str "psem_wait", str "/s"], 102⟩, .exec 2 .go, .exec 2 .go,
      .spawn ⟨.post, [str "psem_post", str "/s"], 103⟩, .exec 3 .go, .exec 3 .go, .exec 3 .go,
      .exec 1 (.kill true)]).bind fun w =>
        (w.shared.fs.objs[0]?).map fun s => (s.value, s.asleep, s.woken)) = some (1, 1, 0) := by
  decide +kernel

/-! ## A semaphore without a name -/

/-- No name refers to the semaphore `i`; the units that it has and can still get, and the processes
that use it, are at most so many. -/
structure Nameless (i units users : ℕ) (w : CrowdWorld Shared Proc) : Prop where
  names : ∀ name, w.shared.fs.names name ≠ some i
  units : ∃ s, w.shared.fs.objs[i]? = some s ∧
    s.value + w.procs.countP (waited i) + w.procs.countP (posting i) ≤ units
  users : w.procs.countP (waiting i) + w.procs.countP (waited i) ≤ users

variable {i units users : ℕ}

theorem countP_set_le (f : Proc → Bool) (hx : w.procs[p]? = some x) (h : f y = true → f x = true) :
    (w.procs.set p y).countP f ≤ w.procs.countP f := by
  have hset := Crowd.countP_set f hx y
  by_cases hy : f y = true
  · rw [if_pos hy, if_pos (h hy)] at hset
    omega
  · rw [if_neg hy] at hset
    omega

/-- A step of a process that does not use the semaphore. -/
theorem Nameless.keep (h : Nameless i units users w) (hx : w.procs[p]? = some x)
    (hnames : ∀ name, g.fs.names name ≠ some i)
    (hsems : g.fs.objs[i]? = w.shared.fs.objs[i]?) (hwaited : waited i y = true → waited i x = true)
    (hwaiting : waiting i y = true → waiting i x = true)
    (hposting : posting i y = true → posting i x = true) :
    Nameless i units users ⟨g, w.procs.set p y⟩ := by
  have hwaited := countP_set_le (waited i) hx hwaited
  have hwaiting := countP_set_le (waiting i) hx hwaiting
  have hposting := countP_set_le (posting i) hx hposting
  obtain ⟨s, hs, hunits⟩ := h.units
  refine ⟨hnames, ⟨s, hsems.trans hs, ?_⟩, ?_⟩
  · simp only
    omega
  · have husers := h.users
    simp only
    omega

/-- A process that has done nothing more and is at none of the calls. -/
theorem Nameless.quiet (h : Nameless i units users w) (hx : w.procs[p]? = some x)
    (hnames : ∀ name, g.fs.names name ≠ some i)
    (hsems : g.fs.objs[i]? = w.shared.fs.objs[i]?) (hprog : y.prog = x.prog)
    (hdone : y.done = x.done) (hpc : y.pc ≠ .opened i ∧ y.pc ≠ .asleep i) :
    Nameless i units users ⟨g, w.procs.set p y⟩ := by
  refine h.keep hx hnames hsems (fun hy => ?_) (fun hy => ?_) fun hy => ?_
  · obtain ⟨hwait, hi⟩ := of_decide_eq_true hy
    exact decide_eq_true ⟨hprog ▸ hwait, hdone ▸ hi⟩
  · rcases (of_decide_eq_true hy).2 with hopened | hasleep
    · exact absurd hopened hpc.1
    · exact absurd hasleep hpc.2
  · exact absurd (of_decide_eq_true hy).2 hpc.1

/-- What a step on a semaphore adds to its units, and to the processes that use it. -/
theorem Use.units_users {s s' : Sem} {c : Call} (h : Use i x s c s' y) :
    s'.value + (if waited i y then 1 else 0) + (if posting i y then 1 else 0) ≤
        s.value + (if waited i x then 1 else 0) + (if posting i x then 1 else 0) ∧
      (if waiting i y then 1 else 0) + (if waited i y then 1 else 0) ≤
        (if waiting i x then 1 else 0) + (if waited i x then 1 else 0) := by
  cases h with
  | take _ hprog hpc hvalue =>
      -- One unit less, and one process more that has it.
      simp [waited, waiting, posting, hprog, hpc, hvalue]
  | sleep _ hprog hpc hvalue => simp [waited, waiting, posting, hprog, hpc, hvalue]
  | add _ hprog hpc hvalue =>
      -- One unit more, and one process less that can still add one.
      simp [waited, waiting, posting, hprog, hpc, hvalue]
  | wake _ _ hvalue => simp [waited, waiting, posting, hvalue]
  | leave _ _ _ hpc hended hvalue =>
      rcases ended_cases hended with ⟨status, rfl⟩ | rfl <;>
        simp [waited, waiting, posting, hvalue]

/-- On another semaphore a step adds nothing. -/
theorem Use.elsewhere_imp {j : ℕ} {s s' : Sem} {c : Call} (h : Use j x s c s' y) (hj : i ≠ j) :
    (waited i y = true → waited i x = true) ∧ (waiting i y = true → waiting i x = true) ∧
      (posting i y = true → posting i x = true) := by
  have hj' : j ≠ i := Ne.symm hj
  cases h with
  | take => simp [waited, waiting, posting, hj']
  | sleep => simp [waited, waiting, posting, hj']
  | add => simp [waited, waiting, posting, hj']
  | wake => simp [waited, waiting, posting]
  | leave _ _ _ _ hended =>
      rcases ended_cases hended with ⟨status, rfl⟩ | rfl <;> simp [waited, waiting, posting]

theorem Nameless.use {j : ℕ} {s s' : Sem} {c : Call} (h : Nameless i units users w)
    (hx : w.procs[p]? = some x) (hs : w.shared.fs.objs[j]? = some s)
    (huse : Use j x s c s' y) :
    Nameless i units users ⟨{ w.shared with fs := w.shared.fs.set j s' }, w.procs.set p y⟩ := by
  by_cases hj : i = j
  · subst hj
    obtain ⟨t, ht, hunits⟩ := h.units
    obtain rfl := Option.some.inj (hs.symm.trans ht)
    obtain ⟨hlt, -⟩ := List.getElem?_eq_some_iff.mp hs
    have husers := h.users
    obtain ⟨huseUnits, huseUsers⟩ := huse.units_users
    have hwaited := Crowd.countP_set (waited i) hx y
    have hwaiting := Crowd.countP_set (waiting i) hx y
    have hposting := Crowd.countP_set (posting i) hx y
    refine ⟨h.names, ⟨s', List.getElem?_set_self hlt, ?_⟩, ?_⟩
    · simp only
      omega
    · simp only
      omega
  · obtain ⟨hwaited, hwaiting, hposting⟩ := huse.elsewhere_imp hj
    exact h.keep hx h.names (List.getElem?_set_ne (Ne.symm hj)) hwaited hwaiting hposting

theorem Nameless.move {c : Call} (h : Nameless i units users w) (hx : w.procs[p]? = some x)
    (hmove : Move w.shared x c g y) : Nameless i units users ⟨g, w.procs.set p y⟩ := by
  obtain ⟨s₀, hs₀, -⟩ := h.units
  obtain ⟨hlt, -⟩ := List.getElem?_eq_some_iff.mp hs₀
  cases hmove with
  | ends c g y hends =>
      refine h.quiet hx (by rw [hends.fs]; exact h.names) (by rw [hends.fs]) hends.prog hends.done
        ⟨fun hy => ?_, not_asleep_of_ended hends.pc i⟩
      have hended := hends.pc
      rw [hy] at hended
      cases hended
  | created name j fs hprog hpc hopened =>
      cases hopened with
      | old j hj => exact h.quiet hx h.names rfl rfl rfl ⟨nofun, nofun⟩
      | new value hle hnone =>
          exact h.quiet hx (Named.create_nameless name _ hlt h.names)
            (List.getElem?_append_left hlt) rfl rfl ⟨nofun, nofun⟩
  | unlinked name fs hpc hunlink =>
      exact h.quiet hx (Named.unlink_nameless hunlink h.names)
        (by rw [Named.unlink_objs hunlink]) rfl rfl ⟨nofun, nofun⟩
  | opened name j hprog hpc hname =>
      refine h.quiet hx h.names rfl rfl rfl ⟨fun hy => ?_, nofun⟩
      exact absurd (Pc.opened.inj hy ▸ hname) (h.names name)
  | used c j s s' y hs hinit huse => exact h.use hx hs huse
  | fetched j value hprog hpc => exact h.quiet hx h.names rfl rfl rfl ⟨nofun, nofun⟩

theorem Nameless.step {a : CrowdAct Command Call} (h : Nameless i units users w)
    (hstep : psem.Step w a v) : Nameless i units users v := by
  cases hstep with
  | spawn c =>
      have hunits := h.units
      have husers := h.users
      refine ⟨h.names, ?_, ?_⟩
      · simpa [List.countP_append, psem, waited, posting] using hunits
      · simpa [List.countP_append, psem, waited, waiting] using husers
  | exec p c x y g hx hexec => exact h.move hx (exec_cases (p := p) hexec)

/-- **A name that is used again.** Once a semaphore has no name, whatever is created, posted and
waited for under its old name or another one: no further process waits for it, and at most as many
processes get past it as it has units and `psem_post` processes that had opened it before. -/
theorem unlinked_semaphore {as : List (CrowdAct Command Call)} {s : Sem}
    (hs : w.shared.fs.objs[i]? = some s) (hname : ∀ name, w.shared.fs.names name ≠ some i)
    (hrun : psem.system.run w as = some v) :
    (∀ name, v.shared.fs.names name ≠ some i) ∧
    v.procs.countP (waited i) ≤
      w.procs.countP (waited i) + s.value + w.procs.countP (posting i) ∧
    v.procs.countP (waiting i) + v.procs.countP (waited i) ≤
      w.procs.countP (waiting i) + w.procs.countP (waited i) := by
  have h : Nameless i (s.value + w.procs.countP (waited i) + w.procs.countP (posting i))
      (w.procs.countP (waiting i) + w.procs.countP (waited i)) w :=
    ⟨hname, ⟨s, hs, le_rfl⟩, le_rfl⟩
  have hv := TransSys.run_preserves (fun _ _ _ h hnext => h.step (Crowd.next_cases hnext)) h hrun
  obtain ⟨t, -, hunits⟩ := hv.units
  refine ⟨hv.names, ?_, hv.users⟩
  omega

/-- A process is asleep on a semaphore with the value 0 that was unlinked. -/
def sampleNameless : CrowdWorld Shared Proc where
  shared := ⟨⟨[⟨0, 1, 1, 0, by decide⟩], fun _ => none, fun _ _ h => nomatch h⟩, []⟩
  procs := [⟨.wait, [str "psem_wait", str "/s"], 102, .asleep 0, none⟩]

/-- The name is used again, and `psem_post` does not wake the process. -/
def sampleReuse : List (CrowdAct Command Call) :=
  [.spawn ⟨.create, [str "psem_create", str "-c", str "/s"], 103⟩, .exec 1 .go,
    .spawn ⟨.post, [str "psem_post", str "/s"], 104⟩, .exec 2 .go, .exec 2 .go]

theorem unlinked_semaphore_sampleReuse :
    ∃ v, psem.system.run sampleNameless sampleReuse = some v ∧ v.procs.countP (posted 1) = 1 ∧
      v.procs.countP (waited 0) = 0 := by
  have hrun : (psem.system.run sampleNameless sampleReuse).map
      (fun v => v.procs.countP (posted 1)) = some 1 := by decide +kernel
  obtain ⟨v, hv, hposted⟩ := Option.map_eq_some_iff.mp hrun
  have hs : sampleNameless.shared.fs.objs[0]? = some ⟨0, 1, 1, 0, by decide⟩ := rfl
  have hbound := (unlinked_semaphore hs (fun _ => nofun) hv).2.1
  exact ⟨v, hv, hposted, Nat.le_zero.mp (hbound.trans (by decide))⟩

end

end Tlpi.Psem
