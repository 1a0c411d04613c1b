import Tlpi.Lib.Crowd
import Tlpi.Posix.SharedMemory
import Tlpi.PosixIpc.CreateObjects
import Tlpi.PosixSharedMemory.PshmWrite

set_option autoImplicit false

/-! # The shared memory commands (posix_shared_memory/)

`pshm_create`, `pshm_write`, `pshm_read` and `pshm_unlink` are started by hand, any number of them
and at any time. Nothing keeps them from using an object at the same time: `memcpy` stores one byte
after the other, in an order of its own, `write` reads one byte after the other, and another process
may resize the object meanwhile. `pshm_create` is `CreateObjects.pshmCreate` up to its call of
`shm_open`.

The standard descriptors are taken to be open, so that no object gets what is printed. Names are
compared byte by byte; the library would also take `/m` and `m` for one name.
-/

namespace Tlpi.PshmCommands

open Decimal CreateObjects Pshm

inductive Prog where
  | create
  | write
  | read
  | unlink
deriving DecidableEq, Repr

/-- A place in one of the programs: at the start, after `shm_open`, after `ftruncate` or `fstat`,
after `mmap`, in `memcpy` (`left` are the bytes that are not yet copied), in `write`; or the end of
the process. -/
inductive Pc where
  | start
  | opened
  | sized (len : ℕ)
  | mapped (len : ℕ)
  | copying (left : List ℕ)
  | writing (len : ℕ)
  | exited (status : ℕ)
  | sigbus
  | killed
deriving DecidableEq, Repr

structure Command where
  prog : Prog
  argv : List (List UInt8)
deriving DecidableEq, Repr

/-- A process; `obj` is the object that it has opened, and `out` what it has printed so far, be it
in the buffer of `stdout` or written. -/
structure Proc where
  prog : Prog
  argv : List (List UInt8)
  pc : Pc
  obj : Option ℕ
  out : List UInt8
deriving DecidableEq, Repr

/-- A process goes on, stores a byte in `memcpy`, its next call fails (`write` also if it writes
less than it should), or it is killed. The next byte of `memcpy` fails when there is no memory left
for the page that it is in. -/
inductive Call where
  | go (stale : Bool)
  | store (k : ℕ)
  | fail
  | kill
deriving DecidableEq, Repr

def Pc.ended : Pc → Bool
  | .exited _ => true
  | .sigbus => true
  | .killed => true
  | _ => false

/-- The test of the command line, except for `pshm_create`. -/
def Proc.badArgs (x : Proc) : Bool :=
  decide (x.argv.length ≠ (if x.prog = .write then 3 else 2) ∨ x.argv[1]? = some (str "--help"))

def Proc.name (x : Proc) : List UInt8 := (x.argv[1]?).getD []

/-- `argv[2]` of `pshm_write`. -/
def Proc.string (x : Proc) : List UInt8 := (x.argv[2]?).getD []

/-- The `size` of `pshm_create`, as an `off_t`. -/
def Proc.size (x : Proc) : ℤ :=
  match pshmCreate x.argv with
  | .ok call => call.size.toInt
  | .error _ => 0

def Proc.exit (x : Proc) (status : ℕ) : Proc := { x with pc := .exited status }

/-- `printf("%ld size ", (long)size)`. -/
def sizeText (size : ℕ) : List UInt8 := numeral size ++ str " size "

def create (g : ShmFs) (x : Proc) : ShmFs × Proc :=
  match pshmCreate x.argv with
  | .error _ => (g, x.exit EXIT_FAILURE)
  | .ok call =>
      match g.shmOpen call.name (decide (call.flags &&& O_CREAT ≠ 0))
          (decide (call.flags &&& O_EXCL ≠ 0)) with
      | some (i, fs) => (fs, { x with pc := .opened, obj := some i })
      | none => (g, x.exit EXIT_FAILURE)

/-- `shm_open` of `pshm_write` and `pshm_read`. -/
def openShm (g : ShmFs) (x : Proc) : ShmFs × Proc :=
  if x.badArgs then (g, x.exit EXIT_FAILURE)
  else
    match g.shmOpen x.name false false with
    | some (i, fs) => (fs, { x with pc := .opened, obj := some i })
    | none => (g, x.exit EXIT_FAILURE)

def unlink (g : ShmFs) (x : Proc) : ShmFs × Proc :=
  if x.badArgs then (g, x.exit EXIT_FAILURE)
  else
    match g.shmUnlink x.name with
    | some fs => (fs, x.exit EXIT_SUCCESS)
    | none => (g, x.exit EXIT_FAILURE)

/-- `ftruncate (fd, len)`, and the text that is printed after it. -/
def resize (g : ShmFs) (x : Proc) (i : ℕ) (m : MemObj) (len : ℕ) (text : List UInt8)
    (stale : Bool) : ShmFs × Proc :=
  (g.set i (m.ftruncate len stale), { x with pc := .sized len, out := x.out ++ text })

/-- The call after `shm_open`: `ftruncate` or `fstat`. -/
def setSize (g : ShmFs) (x : Proc) (i : ℕ) (m : MemObj) (stale : Bool) : Option (ShmFs × Proc) :=
  match x.prog with
  | .create =>
      if x.size < 0 then some (g, x.exit EXIT_FAILURE)
      else some (resize g x i m x.size.toNat (sizeText x.size.toNat) stale)
  | .write => some (resize g x i m x.string.length (resizedText x.string.length) stale)
  | .read => some (g, { x with pc := .sized m.size })
  | .unlink => none

/-- `mmap`, after which `pshm_create` exits. -/
def mapObject (g : ShmFs) (x : Proc) (len : ℕ) : ShmFs × Proc :=
  if mmap len true then
    if x.prog = .create then (g, x.exit EXIT_SUCCESS) else (g, { x with pc := .mapped len })
  else (g, x.exit EXIT_FAILURE)

/-- `close`, and what is printed before `memcpy`. -/
def closeFd (g : ShmFs) (x : Proc) (len : ℕ) : Option (ShmFs × Proc) :=
  match x.prog with
  | .write =>
      some (g, { x with pc := .copying (List.range len), out := x.out ++ copyingText len })
  | .read => some (g, { x with pc := .writing len })
  | _ => none

/-- `printf("\n")` and `exit`, whatever `write` has returned. -/
def finish (x : Proc) : Proc := { x with pc := .exited EXIT_SUCCESS, out := x.out ++ str "\n" }

/-- `write` writes the next byte. It stops at a page that is not there any more. -/
def writeByte (page : ℕ) (g : ShmFs) (x : Proc) (m : MemObj) (len : ℕ) : ShmFs × Proc :=
  if x.out.length < len ∧ m.hasPage page x.out.length = true then
    (g, { x with out := x.out ++ [m.byte x.out.length] })
  else (g, finish x)

/-- `memcpy` stores the byte `k`. -/
def storeByte (page : ℕ) (g : ShmFs) (x : Proc) (i : ℕ) (m : MemObj) (left : List ℕ) (k : ℕ) :
    Option (ShmFs × Proc) :=
  (x.string[k]?).map fun c =>
    if m.hasPage page k then (g.set i (m.store k c), { x with pc := .copying (left.erase k) })
    else (g, { x with pc := .sigbus })

/-- The object that the process has opened. -/
def Proc.object (g : ShmFs) (x : Proc) : Option (ℕ × MemObj) :=
  x.obj.bind fun i => (g.objs[i]?).map fun m => (i, m)

def go (page : ℕ) (g : ShmFs) (x : Proc) (stale : Bool) : Option (ShmFs × Proc) :=
  match x.pc with
  | .start =>
      match x.prog with
      | .create => some (create g x)
      | .unlink => some (unlink g x)
      | _ => some (openShm g x)
  | .opened => (x.object g).bind fun o => setSize g x o.1 o.2 stale
  | .sized len => some (mapObject g x len)
  | .mapped len => closeFd g x len
  | .copying left => if left.isEmpty then some (g, x.exit EXIT_SUCCESS) else none
  | .writing len => (x.object g).map fun o => writeByte page g x o.2 len
  | _ => none

def fail (g : ShmFs) (x : Proc) : Option (ShmFs × Proc) :=
  match x.pc with
  | .start => some (g, x.exit EXIT_FAILURE)
  | .opened => some (g, x.exit EXIT_FAILURE)
  | .sized _ => some (g, x.exit EXIT_FAILURE)
  | .mapped _ => some (g, x.exit EXIT_FAILURE)
  | .copying _ => some (g, { x with pc := .sigbus })
  | .writing _ => some (g, finish x)
  | _ => none

def exec (page : ℕ) (_ : ℕ) (g : ShmFs) (x : Proc) : Call → Option (ShmFs × Proc)
  | .go stale => go page g x stale
  | .store k =>
      match x.pc with
      | .copying left => (x.object g).bind fun o => storeByte page g x o.1 o.2 left k
      | _ => none
  | .fail => fail g x
  | .kill => if x.pc.ended then none else some (g, { x with pc := .killed })

/-- The commands on a system with pages of `page` bytes. -/
def pshm (page : ℕ) : Crowd ShmFs Proc Command Call where
  Start g := g = .empty
  spawn c := ⟨c.prog, c.argv, .start, none, []⟩
  exec := exec page

/-! ## What a step can do -/

/-- The steps of a process, by what they do to the objects. -/
inductive Move (page : ℕ) (g : ShmFs) (x : Proc) : Call → ShmFs → Proc → Prop where
  | failed (c : Call) (hpc : x.pc.ended = false)
      (h : c = .fail ∨ x.pc = .start ∨ x.prog = .create ∨ x.pc = .sized 0) :
      Move page g x c g (x.exit EXIT_FAILURE)
  | killed (hpc : x.pc.ended = false) : Move page g x .kill g { x with pc := .killed }
  | opened (stale : Bool) (name : List UInt8) (i : ℕ) (fs : ShmFs) (hpc : x.pc = .start)
      (h : g.Opened name i fs) :
      Move page g x (.go stale) fs { x with pc := .opened, obj := some i }
  | unlinked (stale : Bool) (name : List UInt8) (fs : ShmFs) (hprog : x.prog = .unlink)
      (hpc : x.pc = .start) (h : g.shmUnlink name = some fs) :
      Move page g x (.go stale) fs (x.exit EXIT_SUCCESS)
  | resized (stale : Bool) (i : ℕ) (m : MemObj) (len : ℕ) (text : List UInt8)
      (hpc : x.pc = .opened) (hobj : x.obj = some i) (hm : g.objs[i]? = some m)
      (h : (x.prog = .write ∧ len = x.string.length) ∨ (x.prog = .create ∧ (len : ℤ) = x.size)) :
      Move page g x (.go stale) (g.set i (m.ftruncate len stale))
        { x with pc := .sized len, out := x.out ++ text }
  | found (stale : Bool) (i : ℕ) (m : MemObj) (hprog : x.prog = .read) (hpc : x.pc = .opened)
      (hobj : x.obj = some i) (hm : g.objs[i]? = some m) :
      Move page g x (.go stale) g { x with pc := .sized m.size }
  | created (stale : Bool) (len : ℕ) (hprog : x.prog = .create) (hpc : x.pc = .sized len) :
      Move page g x (.go stale) g (x.exit EXIT_SUCCESS)
  | mapped (stale : Bool) (len : ℕ) (hprog : x.prog ≠ .create) (hpc : x.pc = .sized len)
      (hlen : 0 < len) :
      Move page g x (.go stale) g { x with pc := .mapped len }
  | copying (stale : Bool) (len : ℕ) (text : List UInt8) (hprog : x.prog = .write)
      (hpc : x.pc = .mapped len) :
      Move page g x (.go stale) g
        { x with pc := .copying (List.range len), out := x.out ++ text }
  | stored (k i : ℕ) (c : UInt8) (m : MemObj) (left : List ℕ) (hpc : x.pc = .copying left)
      (hobj : x.obj = some i) (hm : g.objs[i]? = some m) (hc : x.string[k]? = some c) :
      Move page g x (.store k) (g.set i (m.store k c)) { x with pc := .copying (left.erase k) }
  | sigbus (k i : ℕ) (c : UInt8) (m : MemObj) (left : List ℕ) (hpc : x.pc = .copying left)
      (hobj : x.obj = some i) (hm : g.objs[i]? = some m) (hc : x.string[k]? = some c)
      (hpage : m.hasPage page k = false) : Move page g x (.store k) g { x with pc := .sigbus }
  | full (left : List ℕ) (hpc : x.pc = .copying left) :
      Move page g x .fail g { x with pc := .sigbus }
  | copied (stale : Bool) (hpc : x.pc = .copying []) :
      Move page g x (.go stale) g (x.exit EXIT_SUCCESS)
  | writing (stale : Bool) (len : ℕ) (hprog : x.prog = .read) (hpc : x.pc = .mapped len) :
      Move page g x (.go stale) g { x with pc := .writing len }
  | byte (stale : Bool) (len i : ℕ) (m : MemObj) (hpc : x.pc = .writing len)
      (hobj : x.obj = some i) (hm : g.objs[i]? = some m) (hlt : x.out.length < len) :
      Move page g x (.go stale) g { x with out := x.out ++ [m.byte x.out.length] }
  | written (stale : Bool) (len i : ℕ) (m : MemObj) (hpc : x.pc = .writing len)
      (hobj : x.obj = some i) (hm : g.objs[i]? = some m)
      (h : len ≤ x.out.length ∨ m.hasPage page x.out.length = false) :
      Move page g x (.go stale) g (finish x)
  | cut (len : ℕ) (hpc : x.pc = .writing len) : Move page g x .fail g (finish x)

variable {page : ℕ} {g g' : ShmFs} {x y : Proc}

theorem object_eq_some {o : ℕ × MemObj} (h : x.object g = some o) :
    x.obj = some o.1 ∧ g.objs[o.1]? = some o.2 := by
  obtain ⟨i, hi, h⟩ := Option.bind_eq_some_iff.mp h
  obtain ⟨m, hm, rfl⟩ := Option.map_eq_some_iff.mp h
  exact ⟨hi, hm⟩

theorem Move.failed_start (c : Call) (hpc : x.pc = .start) :
    Move page g x c g (x.exit EXIT_FAILURE) :=
  .failed c (by rw [hpc]; rfl) (Or.inr (Or.inl hpc))

theorem create_cases (stale : Bool) (hpc : x.pc = .start) (h : create g x = (g', y)) :
    Move page g x (.go stale) g' y := by
  unfold create at h
  split at h
  · obtain ⟨rfl, rfl⟩ := Prod.mk.inj h
    exact .failed_start _ hpc
  · rename_i call hcall
    split at h
    · rename_i i fs hopen
      obtain ⟨rfl, rfl⟩ := Prod.mk.inj h
      exact .opened stale call.name i fs hpc (ShmFs.shmOpen_cases hopen)
    · obtain ⟨rfl, rfl⟩ := Prod.mk.inj h
      exact .failed_start _ hpc

theorem openShm_cases (stale : Bool) (hpc : x.pc = .start) (h : openShm g x = (g', y)) :
    Move page g x (.go stale) g' y := by
  unfold openShm at h
  split at h
  · obtain ⟨rfl, rfl⟩ := Prod.mk.inj h
    exact .failed_start _ hpc
  · split at h
    · rename_i i fs hopen
      obtain ⟨rfl, rfl⟩ := Prod.mk.inj h
      exact .opened stale x.name i fs hpc (ShmFs.shmOpen_cases hopen)
    · obtain ⟨rfl, rfl⟩ := Prod.mk.inj h
      exact .failed_start _ hpc

theorem unlink_cases (stale : Bool) (hprog : x.prog = .unlink) (hpc : x.pc = .start)
    (h : unlink g x = (g', y)) : Move page g x (.go stale) g' y := by
  unfold unlink at h
  split at h
  · obtain ⟨rfl, rfl⟩ := Prod.mk.inj h
    exact .failed_start _ hpc
  · split at h
    · rename_i fs hunlink
      obtain ⟨rfl, rfl⟩ := Prod.mk.inj h
      exact .unlinked stale x.name fs hprog hpc hunlink
    · obtain ⟨rfl, rfl⟩ := Prod.mk.inj h
      exact .failed_start _ hpc

theorem setSize_cases {stale : Bool} {i : ℕ} {m : MemObj} (hpc : x.pc = .opened)
    (hobj : x.obj = some i) (hm : g.objs[i]? = some m) (h : setSize g x i m stale = some (g', y)) :
    Move page g x (.go stale) g' y := by
  unfold setSize at h
  split at h
  next hprog =>
    split at h
    · obtain ⟨rfl, rfl⟩ := Prod.mk.inj (Option.some.inj h)
      exact .failed _ (by rw [hpc]; rfl) (Or.inr (Or.inr (Or.inl hprog)))
    · rename_i hsize
      obtain ⟨rfl, rfl⟩ := Prod.mk.inj (Option.some.inj h)
      exact .resized stale i m _ _ hpc hobj hm (Or.inr ⟨hprog, Int.toNat_of_nonneg (by omega)⟩)
  next hprog =>
    obtain ⟨rfl, rfl⟩ := Prod.mk.inj (Option.some.inj h)
    exact .resized stale i m _ _ hpc hobj hm (Or.inl ⟨hprog, rfl⟩)
  next hprog =>
    obtain ⟨rfl, rfl⟩ := Prod.mk.inj (Option.some.inj h)
    exact .found stale i m hprog hpc hobj hm
  next => cases h

theorem mapObject_cases (stale : Bool) {len : ℕ} (hpc : x.pc = .sized len)
    (h : mapObject g x len = (g', y)) : Move page g x (.go stale) g' y := by
  unfold mapObject at h
  split at h
  · rename_i hmmap
    split at h
    · rename_i hprog
      obtain ⟨rfl, rfl⟩ := Prod.mk.inj h
      exact .created stale len hprog hpc
    · rename_i hprog
      obtain ⟨rfl, rfl⟩ := Prod.mk.inj h
      exact .mapped stale len hprog hpc (by simpa [mmap] using hmmap)
  · rename_i hmmap
    obtain ⟨rfl, rfl⟩ := Prod.mk.inj h
    have hzero : len = 0 := by simpa [mmap] using hmmap
    rw [hzero] at hpc
    exact .failed _ (by rw [hpc]; rfl) (Or.inr (Or.inr (Or.inr hpc)))

theorem closeFd_cases (stale : Bool) {len : ℕ} (hpc : x.pc = .mapped len)
    (h : closeFd g x len = some (g', y)) : Move page g x (.go stale) g' y := by
  unfold closeFd at h
  split at h
  next hprog =>
    obtain ⟨rfl, rfl⟩ := Prod.mk.inj (Option.some.inj h)
    exact .copying stale len _ hprog hpc
  next hprog =>
    obtain ⟨rfl, rfl⟩ := Prod.mk.inj (Option.some.inj h)
    exact .writing stale len hprog hpc
  next => cases h

theorem writeByte_cases (stale : Bool) {len i : ℕ} {m : MemObj} (hpc : x.pc = .writing len)
    (hobj : x.obj = some i) (hm : g.objs[i]? = some m) (h : writeByte page g x m len = (g', y)) :
    Move page g x (.go stale) g' y := by
  unfold writeByte at h
  split at h
  · rename_i hbyte
    obtain ⟨rfl, rfl⟩ := Prod.mk.inj h
    exact .byte stale len i m hpc hobj hm hbyte.1
  · rename_i hstop
    obtain ⟨rfl, rfl⟩ := Prod.mk.inj h
    refine .written stale len i m hpc hobj hm ?_
    rcases not_and_or.mp hstop with hlen | hpage
    · exact Or.inl (not_lt.mp hlen)
    · exact Or.inr (Bool.eq_false_iff.mpr hpage)

theorem storeByte_cases {i k : ℕ} {m : MemObj} {left : List ℕ} (hpc : x.pc = .copying left)
    (hobj : x.obj = some i) (hm : g.objs[i]? = some m)
    (h : storeByte page g x i m left k = some (g', y)) : Move page g x (.store k) g' y := by
  obtain ⟨c, hc, h⟩ := Option.map_eq_some_iff.mp h
  split at h
  · obtain ⟨rfl, rfl⟩ := Prod.mk.inj h
    exact .stored k i c m left hpc hobj hm hc
  · rename_i hpage
    obtain ⟨rfl, rfl⟩ := Prod.mk.inj h
    exact .sigbus k i c m left hpc hobj hm hc (Bool.eq_false_iff.mpr hpage)

theorem go_cases {stale : Bool} (h : go page g x stale = some (g', y)) :
    Move page g x (.go stale) g' y := by
  unfold go at h
  split at h
  next hpc =>
    split at h
    next => exact create_cases stale hpc (Option.some.inj h)
    next hprog => exact unlink_cases stale hprog hpc (Option.some.inj h)
    next => exact openShm_cases stale hpc (Option.some.inj h)
  next hpc =>
    obtain ⟨o, ho, h⟩ := Option.bind_eq_some_iff.mp h
    obtain ⟨hobj, hm⟩ := object_eq_some ho
    exact setSize_cases hpc hobj hm h
  next len hpc => exact mapObject_cases stale hpc (Option.some.inj h)
  next len hpc => exact closeFd_cases stale hpc h
  next left hpc =>
    split at h
    · rename_i hleft
      obtain ⟨rfl, rfl⟩ := Prod.mk.inj (Option.some.inj h)
      rw [List.isEmpty_iff.mp hleft] at hpc
      exact .copied stale hpc
    · cases h
  next len hpc =>
    obtain ⟨o, ho, h⟩ := Option.map_eq_some_iff.mp h
    obtain ⟨hobj, hm⟩ := object_eq_some ho
    exact writeByte_cases stale hpc hobj hm h
  next => cases h

theorem fail_cases (h : fail g x = some (g', y)) : Move page g x .fail g' y := by
  unfold fail at h
  split at h
  case h_5 left hpc =>
    obtain ⟨rfl, rfl⟩ := Prod.mk.inj (Option.some.inj h)
    exact .full left hpc
  case h_6 len hpc =>
    obtain ⟨rfl, rfl⟩ := Prod.mk.inj (Option.some.inj h)
    exact .cut len hpc
  case h_7 => cases h
  all_goals
    rename_i hpc
    obtain ⟨rfl, rfl⟩ := Prod.mk.inj (Option.some.inj h)
    exact .failed _ (by rw [hpc]; rfl) (Or.inl rfl)

theorem exec_cases {p : ℕ} {c : Call} (h : exec page p g x c = some (g', y)) :
    Move page g x c g' y := by
  cases c with
  | go stale => exact go_cases h
  | store k =>
      simp only [exec] at h
      split at h
      · rename_i left hpc
        obtain ⟨o, ho, h⟩ := Option.bind_eq_some_iff.mp h
        obtain ⟨hobj, hm⟩ := object_eq_some ho
        exact storeByte_cases hpc hobj hm h
      · cases h
  | fail => exact fail_cases h
  | kill =>
      simp only [exec] at h
      split at h
      · cases h
      · rename_i hended
        obtain ⟨rfl, rfl⟩ := Prod.mk.inj (Option.some.inj h)
        exact .killed (Bool.eq_false_iff.mpr hended)

/-! ## Where the bytes come from -/

/-- The places before the bytes are copied or written. -/
def Pc.early : Pc → Bool
  | .start => true
  | .opened => true
  | .sized _ => true
  | .mapped _ => true
  | _ => false

theorem Pc.early_of_ended {pc : Pc} (h : pc.ended = true) : pc.early = false := by
  cases pc with
  | exited status => rfl
  | sigbus => rfl
  | killed => rfl
  | _ => cases h

/-- What is known of a process when there are `n` objects. -/
structure Local (n : ℕ) (x : Proc) : Prop where
  obj_lt : ∀ i, x.obj = some i → i < n
  start : x.pc = .start → x.obj = none
  early : x.prog = .read → x.pc.early = true → x.out = []
  copying : ∀ left, x.pc = .copying left → x.prog = .write
  writing : ∀ len, x.pc = .writing len → x.prog = .read

theorem Local.mono {m n : ℕ} (h : Local m x) (hle : m ≤ n) : Local n x :=
  { h with obj_lt := fun i hi => (h.obj_lt i hi).trans_le hle }

theorem Local.spawn (n : ℕ) (c : Command) : Local n ((pshm page).spawn c) :=
  ⟨nofun, fun _ => rfl, fun _ _ => rfl, nofun, nofun⟩

/-- A process that has ended. -/
theorem Local.of_ended {n : ℕ} (h : Local n x) (hobj : y.obj = x.obj) (hpc : y.pc.ended = true) :
    Local n y := by
  refine ⟨fun i hi => h.obj_lt i (hobj ▸ hi), fun hy => ?_, fun _ hy => ?_, fun left hy => ?_,
    fun len hy => ?_⟩
  · rw [hy] at hpc
    cases hpc
  · rw [Pc.early_of_ended hpc] at hy
    cases hy
  · rw [hy] at hpc
    cases hpc
  · rw [hy] at hpc
    cases hpc

theorem Move.length_le {c : Call} (h : Move page g x c g' y) : g.objs.length ≤ g'.objs.length := by
  cases h with
  | opened stale name i fs hpc hopen => exact hopen.length_le
  | unlinked stale name fs hprog hpc hunlink => exact (Named.unlink_objs hunlink).symm ▸ le_rfl
  | resized stale i m len text => exact (Named.set_length _ _ _).ge
  | stored k i c m left => exact (Named.set_length _ _ _).ge
  | _ => exact le_rfl

/-- A step keeps the command line, and the object once it is opened. -/
theorem Move.keeps {c : Call} {n : ℕ} (hx : Local n x) (h : Move page g x c g' y) :
    y.prog = x.prog ∧ y.argv = x.argv ∧ ∀ i, x.obj = some i → y.obj = some i := by
  cases h with
  | opened stale name i fs hpc hopen =>
      refine ⟨rfl, rfl, fun j hj => ?_⟩
      rw [hx.start hpc] at hj
      cases hj
  | _ => exact ⟨rfl, rfl, fun i hi => hi⟩

theorem Move.local {c : Call} (hx : Local g.objs.length x) (h : Move page g x c g' y) :
    Local g'.objs.length y := by
  have hle := h.length_le
  cases h with
  | failed c hpc hwhy => exact hx.of_ended rfl rfl
  | killed hpc => exact hx.of_ended rfl rfl
  | opened stale name i fs hpc hopen =>
      refine ⟨fun j hj => ?_, nofun, fun hread _ => hx.early hread (by rw [hpc]; rfl), nofun, nofun⟩
      rw [← Option.some.inj hj]
      exact hopen.lt
  | unlinked stale name fs hprog hpc hunlink =>
      exact Local.of_ended (x := x) (hx.mono hle) rfl rfl
  | resized stale i m len text hpc hobj hm hwhy =>
      refine ⟨fun j hj => (hx.obj_lt j hj).trans_le hle, nofun, fun hread _ => ?_, nofun, nofun⟩
      rcases hwhy with ⟨hprog, -⟩ | ⟨hprog, -⟩
      · exact absurd (hprog.symm.trans hread) (by decide)
      · exact absurd (hprog.symm.trans hread) (by decide)
  | found stale i m hprog hpc hobj hm =>
      exact ⟨hx.obj_lt, nofun, fun hread _ => hx.early hread (by rw [hpc]; rfl), nofun, nofun⟩
  | created stale len hprog hpc => exact hx.of_ended rfl rfl
  | mapped stale len hprog hpc hlen =>
      exact ⟨hx.obj_lt, nofun, fun hread _ => hx.early hread (by rw [hpc]; rfl), nofun, nofun⟩
  | copying stale len text hprog hpc =>
      exact ⟨hx.obj_lt, nofun, nofun, fun _ _ => hprog, nofun⟩
  | stored k i c m left hpc hobj hm hc =>
      refine ⟨fun j hj => (hx.obj_lt j hj).trans_le hle, nofun, nofun, fun _ _ => ?_, nofun⟩
      exact hx.copying left hpc
  | sigbus k i c m left hpc hobj hm hc hpage => exact hx.of_ended rfl rfl
  | full left hpc => exact hx.of_ended rfl rfl
  | copied stale hpc => exact hx.of_ended rfl rfl
  | writing stale len hprog hpc => exact ⟨hx.obj_lt, nofun, nofun, nofun, fun _ _ => hprog⟩
  | byte stale len i m hpc hobj hm hlt =>
      refine ⟨hx.obj_lt, fun hy => hx.start hy, fun _ hy => ?_, hx.copying, hx.writing⟩
      have hy : x.pc.early = true := hy
      rw [hpc] at hy
      cases hy
  | written stale len i m hpc hobj hm hwhy => exact hx.of_ended rfl rfl
  | cut len hpc => exact hx.of_ended rfl rfl

/-- The byte is 0, or has this place in the string of a `pshm_write` process that has opened the
object. -/
def FromWriter (procs : List Proc) (o i : ℕ) (c : UInt8) : Prop :=
  c = 0 ∨ ∃ x ∈ procs, x.prog = .write ∧ x.obj = some o ∧ x.string[i]? = some c

/-- The size is the one of a new object, or a process has asked for it. -/
def SizeAsked (procs : List Proc) (o n : ℕ) : Prop :=
  n = 0 ∨ ∃ x ∈ procs, x.obj = some o ∧
    ((x.prog = .write ∧ n = x.string.length) ∨ (x.prog = .create ∧ (n : ℤ) = x.size))

/-- What a process has written, and the newline after it, if it is through. -/
def Shows (procs : List Proc) (x : Proc) : Prop :=
  ∃ text, x.out = text ++ (if x.pc = .exited EXIT_SUCCESS then str "\n" else []) ∧
    ∀ i c, text[i]? = some c → ∃ o, x.obj = some o ∧ FromWriter procs o i c

/-- The processes of `procs` are still there. -/
def Kept (procs procs' : List Proc) : Prop :=
  ∀ x ∈ procs, ∃ y ∈ procs', y.prog = x.prog ∧ y.argv = x.argv ∧
    ∀ i, x.obj = some i → y.obj = some i

variable {procs procs' : List Proc}

theorem FromWriter.mono {o i : ℕ} {c : UInt8} (h : FromWriter procs o i c)
    (hkept : Kept procs procs') : FromWriter procs' o i c := by
  rcases h with hzero | ⟨x, hx, hprog, hobj, hc⟩
  · exact Or.inl hzero
  · obtain ⟨y, hy, hyprog, hyargv, hyobj⟩ := hkept x hx
    refine Or.inr ⟨y, hy, hyprog.trans hprog, hyobj o hobj, ?_⟩
    rwa [Proc.string, hyargv]

theorem SizeAsked.mono {o n : ℕ} (h : SizeAsked procs o n) (hkept : Kept procs procs') :
    SizeAsked procs' o n := by
  rcases h with hzero | ⟨x, hx, hobj, hwhy⟩
  · exact Or.inl hzero
  · obtain ⟨y, hy, hyprog, hyargv, hyobj⟩ := hkept x hx
    refine Or.inr ⟨y, hy, hyobj o hobj, ?_⟩
    rwa [hyprog, Proc.string, Proc.size, hyargv]

/-- A process that has printed nothing since. -/
theorem Shows.keep (h : Shows procs x) (hkept : Kept procs procs') (hout : y.out = x.out)
    (hobj : ∀ i, x.obj = some i → y.obj = some i)
    (hpc : y.pc = .exited EXIT_SUCCESS ↔ x.pc = .exited EXIT_SUCCESS) : Shows procs' y := by
  obtain ⟨text, htext, hbytes⟩ := h
  refine ⟨text, ?_, fun i c hc => ?_⟩
  · rw [hout, htext]
    simp only [hpc]
  · obtain ⟨o, ho, hfrom⟩ := hbytes i c hc
    exact ⟨o, hobj o ho, hfrom.mono hkept⟩

theorem Shows.writing {len : ℕ} (h : Shows procs x) (hpc : x.pc = .writing len) :
    ∀ i c, x.out[i]? = some c → ∃ o, x.obj = some o ∧ FromWriter procs o i c := by
  obtain ⟨text, htext, hbytes⟩ := h
  rw [if_neg (hpc ▸ nofun), List.append_nil] at htext
  rwa [htext]

theorem Shows.finish {len : ℕ} (h : Shows procs x) (hpc : x.pc = .writing len) :
    Shows procs (finish x) :=
  ⟨x.out, (by rw [PshmCommands.finish, if_pos rfl]), h.writing hpc⟩

theorem ne_of_ended (h : x.pc.ended = false) : x.pc ≠ .exited EXIT_SUCCESS := by
  intro hpc
  rw [hpc] at h
  cases h

/-- What is known of every reachable state. -/
structure Inv (w : CrowdWorld ShmFs Proc) : Prop where
  each : ∀ x ∈ w.procs, Local w.shared.objs.length x
  shows : ∀ x ∈ w.procs, x.prog = .read → Shows w.procs x
  byte : ∀ o m i, w.shared.objs[o]? = some m → FromWriter w.procs o i (m.byte i)
  size : ∀ o m, w.shared.objs[o]? = some m → SizeAsked w.procs o m.size

section

variable {w v : CrowdWorld ShmFs Proc} {p : ℕ}

theorem Inv.kept {c : Call} (h : Inv w) (hx : w.procs[p]? = some x)
    (hmove : Move page w.shared x c g y) : Kept w.procs (w.procs.set p y) := by
  intro z hz
  obtain ⟨q, hq⟩ := List.mem_iff_getElem?.mp hz
  by_cases hqp : q = p
  · subst hqp
    obtain rfl := Option.some.inj (hx.symm.trans hq)
    obtain ⟨hlt, -⟩ := List.getElem?_eq_some_iff.mp hx
    exact ⟨y, List.mem_set hlt y, hmove.keeps (h.each x hz)⟩
  · refine ⟨z, List.mem_iff_getElem?.mpr ⟨q, ?_⟩, rfl, rfl, fun i hi => hi⟩
    rwa [List.getElem?_set_ne (Ne.symm hqp)]

/-- The objects after a step. -/
theorem Move.objs_cases {c : Call} (hx : Local g.objs.length x) (h : Move page g x c g' y) {o : ℕ}
    {m' : MemObj} (hm' : g'.objs[o]? = some m') :
    g.objs[o]? = some m' ∨ m' = .empty ∨
      (x.obj = some o ∧ ∃ m, g.objs[o]? = some m ∧
        ((∃ len stale, m' = m.ftruncate len stale ∧
          ((x.prog = .write ∧ len = x.string.length) ∨ (x.prog = .create ∧ (len : ℤ) = x.size))) ∨
        ∃ k c, m' = m.store k c ∧ x.prog = .write ∧ x.string[k]? = some c)) := by
  cases h with
  | opened stale name i fs hpc hopen =>
      rcases hopen.objs_cases hm' with hold | hempty
      · exact Or.inl hold
      · exact Or.inr (Or.inl hempty)
  | unlinked stale name fs hprog hpc hunlink => exact Or.inl (Named.unlink_objs hunlink ▸ hm')
  | resized stale i m len text hpc hobj hm hwhy =>
      rcases Named.set_cases hm' with ⟨rfl, rfl⟩ | ⟨-, hold⟩
      · exact Or.inr (Or.inr ⟨hobj, m, hm, Or.inl ⟨len, stale, rfl, hwhy⟩⟩)
      · exact Or.inl hold
  | stored k i c m left hpc hobj hm hc =>
      rcases Named.set_cases hm' with ⟨rfl, rfl⟩ | ⟨-, hold⟩
      · exact Or.inr (Or.inr ⟨hobj, m, hm, Or.inr ⟨k, c, rfl, hx.copying left hpc, hc⟩⟩)
      · exact Or.inl hold
  | _ => exact Or.inl hm'

theorem Inv.byte_move {c : Call} (h : Inv w) (hx : w.procs[p]? = some x)
    (hmove : Move page w.shared x c g y) {o i : ℕ} {m : MemObj} (hm : g.objs[o]? = some m) :
    FromWriter (w.procs.set p y) o i (m.byte i) := by
  have hkept := h.kept hx hmove
  have hmem := List.mem_of_getElem? hx
  rcases hmove.objs_cases (h.each x hmem) hm with hold | rfl | ⟨hobj, m', hm', hwhy⟩
  · exact (h.byte o m i hold).mono hkept
  · exact Or.inl rfl
  · have hbyte := h.byte o m' i hm'
    rcases hwhy with ⟨len, stale, rfl, -⟩ | ⟨k, d, rfl, hprog, hd⟩
    · rcases m'.ftruncate_byte len stale i with hzero | hsame
      · exact Or.inl hzero
      · rw [hsame]
        exact hbyte.mono hkept
    · rcases m'.store_byte_cases k i d with ⟨rfl, hnew⟩ | ⟨-, hsame⟩
      · rw [hnew]
        exact FromWriter.mono (Or.inr ⟨x, hmem, hprog, hobj, hd⟩) hkept
      · rw [hsame]
        exact hbyte.mono hkept

theorem Inv.size_move {c : Call} (h : Inv w) (hx : w.procs[p]? = some x)
    (hmove : Move page w.shared x c g y) {o : ℕ} {m : MemObj} (hm : g.objs[o]? = some m) :
    SizeAsked (w.procs.set p y) o m.size := by
  have hkept := h.kept hx hmove
  have hmem := List.mem_of_getElem? hx
  rcases hmove.objs_cases (h.each x hmem) hm with hold | rfl | ⟨hobj, m', hm', hwhy⟩
  · exact (h.size o m hold).mono hkept
  · exact Or.inl rfl
  · rcases hwhy with ⟨len, stale, rfl, hlen⟩ | ⟨k, d, rfl, -, -⟩
    · exact SizeAsked.mono (Or.inr ⟨x, hmem, hobj, hlen⟩) hkept
    · exact (h.size o m' hm').mono hkept

theorem Inv.shows_move {c : Call} (h : Inv w) (hx : w.procs[p]? = some x)
    (hmove : Move page w.shared x c g y) (hyread : y.prog = .read) :
    Shows (w.procs.set p y) y := by
  have hkept := h.kept hx hmove
  have hmem := List.mem_of_getElem? hx
  obtain ⟨hyprog, -, hobj⟩ := hmove.keeps (h.each x hmem)
  have hlocal := h.each x hmem
  have hread : x.prog = .read := hyprog.symm.trans hyread
  have hshows := h.shows x hmem hread
  cases hmove with
  | failed c hpc hwhy => exact hshows.keep hkept rfl hobj (iff_of_false nofun (ne_of_ended hpc))
  | killed hpc => exact hshows.keep hkept rfl hobj (iff_of_false nofun (ne_of_ended hpc))
  | opened stale name i fs hpc hopen =>
      exact hshows.keep hkept rfl hobj (iff_of_false nofun (hpc ▸ nofun))
  | unlinked stale name fs hprog hpc hunlink => exact nomatch hprog.symm.trans hread
  | resized stale i m len text hpc hobj' hm hwhy =>
      rcases hwhy with ⟨hprog, -⟩ | ⟨hprog, -⟩
      · exact nomatch hprog.symm.trans hread
      · exact nomatch hprog.symm.trans hread
  | found stale i m hprog hpc hobj' hm =>
      exact hshows.keep hkept rfl hobj (iff_of_false nofun (hpc ▸ nofun))
  | created stale len hprog hpc => exact nomatch hprog.symm.trans hread
  | mapped stale len hprog hpc hlen =>
      exact hshows.keep hkept rfl hobj (iff_of_false nofun (hpc ▸ nofun))
  | copying stale len text hprog hpc => exact nomatch hprog.symm.trans hread
  | stored k i c m left hpc hobj' hm hc => exact nomatch (hlocal.copying left hpc).symm.trans hread
  | sigbus k i c m left hpc hobj' hm hc hpage =>
      exact nomatch (hlocal.copying left hpc).symm.trans hread
  | full left hpc => exact nomatch (hlocal.copying left hpc).symm.trans hread
  | copied stale hpc => exact nomatch (hlocal.copying [] hpc).symm.trans hread
  | writing stale len hprog hpc =>
      exact hshows.keep hkept rfl hobj (iff_of_false nofun (hpc ▸ nofun))
  | byte stale len i m hpc hobj' hm hlt =>
      have hbytes := hshows.writing hpc
      refine ⟨x.out ++ [m.byte x.out.length], ?_, fun j d hd => ?_⟩
      · show x.out ++ _ = x.out ++ _ ++ (if x.pc = _ then _ else _)
        rw [if_neg (hpc ▸ nofun), List.append_nil]
      · rcases Named.concat_cases hd with hold | ⟨rfl, rfl⟩
        · obtain ⟨o, ho, hfrom⟩ := hbytes j d hold
          exact ⟨o, ho, hfrom.mono hkept⟩
        · exact ⟨i, hobj', (h.byte i m _ hm).mono hkept⟩
  | written stale len i m hpc hobj' hm hwhy => exact (hshows.finish hpc).keep hkept rfl hobj Iff.rfl
  | cut len hpc => exact (hshows.finish hpc).keep hkept rfl hobj Iff.rfl

theorem Inv.init (h : (pshm page).system.Init w) : Inv w := by
  obtain ⟨hempty, hprocs⟩ := h
  have hempty : w.shared = .empty := hempty
  refine ⟨fun x hx => ?_, fun x hx => ?_, fun o m i hm => ?_, fun o m hm => ?_⟩
  · rw [hprocs] at hx
    cases hx
  · rw [hprocs] at hx
    cases hx
  · rw [hempty] at hm
    cases hm
  · rw [hempty] at hm
    cases hm

/-- Another process comes. -/
theorem Inv.spawn (h : Inv w) (c : Command) :
    Inv { w with procs := w.procs ++ [(pshm page).spawn c] } := by
  have hkept : Kept w.procs (w.procs ++ [(pshm page).spawn c]) := fun x hx =>
    ⟨x, List.mem_append_left _ hx, rfl, rfl, fun i hi => hi⟩
  refine ⟨fun x hx => ?_, fun x hx hread => ?_, fun o m i hm => (h.byte o m i hm).mono hkept,
    fun o m hm => (h.size o m hm).mono hkept⟩
  · rcases List.mem_append.mp hx with hold | hnew
    · exact h.each x hold
    · rw [List.mem_singleton.mp hnew]
      exact Local.spawn _ c
  · rcases List.mem_append.mp hx with hold | hnew
    · exact (h.shows x hold hread).keep hkept rfl (fun i hi => hi) Iff.rfl
    · rw [List.mem_singleton.mp hnew]
      exact ⟨[], rfl, nofun⟩

theorem Inv.move {c : Call} (h : Inv w) (hx : w.procs[p]? = some x)
    (hmove : Move page w.shared x c g y) : Inv ⟨g, w.procs.set p y⟩ := by
  have hlocal := h.each x (List.mem_of_getElem? hx)
  refine ⟨fun z hz => ?_, fun z hz hread => ?_, fun o m i hm => h.byte_move hx hmove hm,
    fun o m hm => h.size_move hx hmove hm⟩
  · rcases Crowd.mem_set_cases hz with rfl | hz
    · exact hmove.local hlocal
    · exact (h.each z hz).mono hmove.length_le
  · rcases Crowd.mem_set_cases hz with rfl | hz
    · exact h.shows_move hx hmove hread
    · exact (h.shows z hz hread).keep (h.kept hx hmove) rfl (fun i hi => hi) Iff.rfl

theorem Inv.step {a : CrowdAct Command Call} (h : Inv w) (hstep : (pshm page).Step w a v) :
    Inv v := by
  cases hstep with
  | spawn c => exact h.spawn c
  | exec p c x y g hx hexec => exact h.move hx (exec_cases (p := p) hexec)

theorem inv_of_reachable (h : (pshm page).system.Reachable w) : Inv w :=
  h.invariant (fun _ => Inv.init) fun _ _ _ hinv hnext => hinv.step (Crowd.next_cases hnext)

def sampleStart : CrowdWorld ShmFs Proc := ⟨.empty, []⟩

/-- An object is created and opened by a process that writes "hi". -/
def sampleOpen : List (CrowdAct Command Call) :=
  [.spawn ⟨.create, [str "pshm_create", str "-c", str "/m", str "5"]⟩,
    .spawn ⟨.write, [str "pshm_write", str "/m", str "hi"]⟩, .exec 0 (.go false),
    .exec 0 (.go false), .exec 0 (.go false), .exec 1 (.go false)]

/-- It resizes the object and copies its string, the second byte first. -/
def sampleWrite : List (CrowdAct Command Call) :=
  [.exec 1 (.go false), .exec 1 (.go false), .exec 1 (.go false), .exec 1 (.store 1),
    .exec 1 (.store 0), .exec 1 (.go false)]

def sampleRead : List (CrowdAct Command Call) :=
  [.spawn ⟨.read, [str "pshm_read", str "/m"]⟩, .exec 2 (.go false), .exec 2 (.go false),
    .exec 2 (.go false), .exec 2 (.go false), .exec 2 (.go false), .exec 2 (.go false),
    .exec 2 (.go false)]

/-- **No byte is invented.** However many processes of the four programs come, whatever they do at
the same time, and whatever fails or is killed: a byte of an object, also one after its end, is 0 or
has this place in the string of a `pshm_write` process that has opened the object; the size of the
object is 0 or the one that such a process or a `pshm_create` process has asked for; and a
`pshm_read` process prints such bytes at their places, and a newline after them if it exits
successfully. -/
theorem bytes_from_writers (h : (pshm page).system.Reachable w) :
    (∀ o m i, w.shared.objs[o]? = some m → FromWriter w.procs o i (m.byte i)) ∧
    (∀ o m, w.shared.objs[o]? = some m → SizeAsked w.procs o m.size) ∧
    (∀ x ∈ w.procs, x.prog = .read → Shows w.procs x) := by
  have hinv := inv_of_reachable h
  exact ⟨hinv.byte, hinv.size, hinv.shows⟩

theorem bytes_from_writers_sampleRun :
    ∃ w x, (pshm 4096).system.run sampleStart (sampleOpen ++ sampleWrite ++ sampleRead) = some w ∧
      w.procs[2]? = some x ∧ x.out = str "hi\n" ∧ Shows w.procs x := by
  have hrun : (((pshm 4096).system.run sampleStart (sampleOpen ++ sampleWrite ++ sampleRead)).bind
      fun w => (w.procs[2]?).map fun x => (x.prog, x.out)) = some (.read, str "hi\n") := by
    decide +kernel
  obtain ⟨w, hw, hrun⟩ := Option.bind_eq_some_iff.mp hrun
  obtain ⟨x, hx, hout⟩ := Option.map_eq_some_iff.mp hrun
  obtain ⟨hprog, hout⟩ := Prod.mk.inj hout
  have hreach : (pshm 4096).system.Reachable w := ⟨sampleStart, _, ⟨rfl, rfl⟩, hw⟩
  exact ⟨w, x, hw, hx, hout, (bytes_from_writers hreach).2.2 x (List.mem_of_getElem? hx) hprog⟩

/-! ## A string that is written and read -/

/-- The process can still change the object `o`. -/
def Busy (o : ℕ) (x : Proc) : Bool :=
  decide (x.obj = some o) &&
    match x.pc with
    | .opened => x.prog != .read
    | .sized _ => x.prog == .write
    | .mapped _ => x.prog == .write
    | .copying _ => x.prog == .write
    | _ => false

/-- No process but `p` can change the object `o`. -/
def Alone (p o : ℕ) (w : CrowdWorld ShmFs Proc) : Prop :=
  ∀ y ∈ w.procs.eraseIdx p, Busy o y = false

instance (p o : ℕ) (w : CrowdWorld ShmFs Proc) : Decidable (Alone p o w) :=
  inferInstanceAs (Decidable (∀ y ∈ _, _))

theorem Alone.busy {o q : ℕ} (h : Alone p o w) (hq : q ≠ p) (hy : w.procs[q]? = some y) :
    Busy o y = false := h y (List.mem_eraseIdx_iff_getElem?.mpr ⟨q, hq, hy⟩)

/-- A process that is not busy with an object leaves it as it is. -/
theorem Move.objs_of_not_busy {c : Call} {o : ℕ} (hx : Local g.objs.length x)
    (h : Move page g x c g' y) (hbusy : Busy o x = false) (ho : o < g.objs.length) :
    g'.objs[o]? = g.objs[o]? := by
  cases h with
  | opened stale name i fs hpc hopen => exact hopen.getElem? ho
  | unlinked stale name fs hprog hpc hunlink => rw [Named.unlink_objs hunlink]
  | resized stale i m len text hpc hobj hm hwhy =>
      refine List.getElem?_set_ne fun hio => ?_
      subst hio
      have hread : x.prog = .read := by simpa [Busy, hobj, hpc] using hbusy
      rcases hwhy with ⟨hprog, -⟩ | ⟨hprog, -⟩
      · exact nomatch hprog.symm.trans hread
      · exact nomatch hprog.symm.trans hread
  | stored k i c m left hpc hobj hm hc =>
      refine List.getElem?_set_ne fun hio => ?_
      subst hio
      have hprog : x.prog ≠ .write := by simpa [Busy, hobj, hpc] using hbusy
      exact hprog (hx.copying left hpc)
  | _ => rfl

/-- How far the string `s` is in the object when its `pshm_write` process is at a place. Only if a
byte may have failed (`full`) the process has got `SIGBUS`. -/
def Progress (full : Prop) (s : List UInt8) (m : MemObj) : Pc → Prop
  | .opened => True
  | .sized len => len = s.length ∧ m.size = s.length
  | .mapped len => len = s.length ∧ m.size = s.length ∧ s ≠ []
  | .copying left =>
      m.size = s.length ∧ s ≠ [] ∧ ∀ i c, s[i]? = some c → i ∈ left ∨ m.byte i = c
  | .exited status => status = EXIT_SUCCESS → m.Holds s ∧ s ≠ []
  | .sigbus => full
  | .killed => True
  | _ => False

/-- The process `p` writes the string `s` to the object `o`. -/
def Writes (full : Prop) (p o : ℕ) (s : List UInt8) (w : CrowdWorld ShmFs Proc) : Prop :=
  ∃ x m, w.procs[p]? = some x ∧ w.shared.objs[o]? = some m ∧ x.prog = .write ∧ x.obj = some o ∧
    x.string = s ∧ Progress full s m x.pc

/-- A step of the process that writes. -/
theorem Progress.move {full : Prop} {c : Call} {o : ℕ} {m : MemObj}
    (h : Progress full x.string m x.pc) (hfull : c = .fail → full)
    (hprog : x.prog = .write) (hobj : x.obj = some o) (hm : g.objs[o]? = some m)
    (hmove : Move page g x c g' y) :
    ∃ m', g'.objs[o]? = some m' ∧ y.string = x.string ∧ Progress full x.string m' y.pc := by
  cases hmove with
  | failed c hpc hwhy => exact ⟨m, hm, rfl, nofun⟩
  | killed hpc => exact ⟨m, hm, rfl, trivial⟩
  | opened stale name i fs hpc hopen =>
      rw [hpc] at h
      exact h.elim
  | unlinked stale name fs hprog' hpc hunlink => exact nomatch hprog'.symm.trans hprog
  | resized stale i m' len text hpc hobj' hm' hwhy =>
      obtain rfl := Option.some.inj (hobj.symm.trans hobj')
      obtain ⟨hlt, -⟩ := List.getElem?_eq_some_iff.mp hm
      have hlen : len = x.string.length := by
        rcases hwhy with ⟨-, hlen⟩ | ⟨hprog', -⟩
        · exact hlen
        · exact nomatch hprog'.symm.trans hprog
      exact ⟨_, List.getElem?_set_self hlt, rfl, hlen, hlen⟩
  | found stale i m' hprog' hpc hobj' hm' => exact nomatch hprog'.symm.trans hprog
  | created stale len hprog' hpc => exact nomatch hprog'.symm.trans hprog
  | mapped stale len hprog' hpc hlen =>
      rw [hpc] at h
      refine ⟨m, hm, rfl, h.1, h.2, ?_⟩
      exact List.ne_nil_of_length_pos (h.1 ▸ hlen)
  | copying stale len text hprog' hpc =>
      rw [hpc] at h
      refine ⟨m, hm, rfl, h.2.1, h.2.2, fun i c hc => Or.inl (List.mem_range.mpr ?_)⟩
      obtain ⟨hlt, -⟩ := List.getElem?_eq_some_iff.mp hc
      exact h.1 ▸ hlt
  | stored k i c m' left hpc hobj' hm' hc =>
      obtain rfl := Option.some.inj (hobj.symm.trans hobj')
      obtain rfl := Option.some.inj (hm.symm.trans hm')
      obtain ⟨hlt, -⟩ := List.getElem?_eq_some_iff.mp hm
      rw [hpc] at h
      refine ⟨_, List.getElem?_set_self hlt, rfl, h.1, h.2.1, fun j d hd => ?_⟩
      rcases m.store_byte_cases k j c with ⟨rfl, hnew⟩ | ⟨hne, hsame⟩
      · exact Or.inr (hnew.trans (Option.some.inj (hc.symm.trans hd)))
      · rcases h.2.2 j d hd with hleft | hbyte
        · exact Or.inl ((List.mem_erase_of_ne hne).mpr hleft)
        · exact Or.inr (hsame.trans hbyte)
  | sigbus k i c m' left hpc hobj' hm' hc hpage =>
      obtain rfl := Option.some.inj (hobj.symm.trans hobj')
      obtain rfl := Option.some.inj (hm.symm.trans hm')
      rw [hpc] at h
      obtain ⟨hlt, -⟩ := List.getElem?_eq_some_iff.mp hc
      -- The object still has the length of the string.
      rw [MemObj.hasPage_of_lt page (h.1.symm ▸ hlt)] at hpage
      cases hpage
  | full left hpc => exact ⟨m, hm, rfl, hfull rfl⟩
  | copied stale hpc =>
      rw [hpc] at h
      refine ⟨m, hm, rfl, fun _ => ⟨⟨h.1, fun i c hc => ?_⟩, h.2.1⟩⟩
      exact (h.2.2 i c hc).resolve_left List.not_mem_nil
  | writing stale len hprog' hpc => exact nomatch hprog'.symm.trans hprog
  | byte stale len i m' hpc hobj' hm' hlt =>
      rw [hpc] at h
      exact h.elim
  | written stale len i m' hpc hobj' hm' hwhy =>
      rw [hpc] at h
      exact h.elim
  | cut len hpc =>
      rw [hpc] at h
      exact h.elim

theorem Writes.step {full : Prop} {a : CrowdAct Command Call} {o : ℕ} {s : List UInt8}
    (hinv : Inv w) (h : Writes full p o s w) (halone : Alone p o w)
    (hfull : a = .exec p .fail → full) (hstep : (pshm page).Step w a v) : Writes full p o s v := by
  obtain ⟨x, m, hx, hm, hprog, hobj, rfl, hprogress⟩ := h
  obtain ⟨hlt, -⟩ := List.getElem?_eq_some_iff.mp hx
  cases hstep with
  | spawn c =>
      exact ⟨x, m, (List.getElem?_append_left hlt).trans hx, hm, hprog, hobj, rfl, hprogress⟩
  | exec q c y z g hy hexec =>
      have hmove := exec_cases (p := q) hexec
      have hlocal := hinv.each y (List.mem_of_getElem? hy)
      by_cases hqp : q = p
      · subst hqp
        obtain rfl := Option.some.inj (hx.symm.trans hy)
        obtain ⟨hzprog, -, hzobj⟩ := hmove.keeps hlocal
        obtain ⟨m', hm', hstring, hprogress⟩ :=
          hprogress.move (fun hc => hfull (hc ▸ rfl)) hprog hobj hm hmove
        exact ⟨z, m', List.getElem?_set_self hlt, hm', hzprog.trans hprog, hzobj o hobj, hstring,
          hprogress⟩
      · obtain ⟨ho, -⟩ := List.getElem?_eq_some_iff.mp hm
        have hsame := hmove.objs_of_not_busy hlocal (halone.busy hqp hy) ho
        exact ⟨x, m, (List.getElem?_set_ne hqp).trans hx, hsame.trans hm, hprog, hobj, rfl,
          hprogress⟩

/-- What a `pshm_read` process that has opened the object `o`, where the string `s` is, has printed
at a place. -/
def Reading (o : ℕ) (s : List UInt8) (x : Proc) : Prop :=
  x.obj = some o →
    match x.pc with
    | .sized len => len = s.length
    | .mapped len => len = s.length
    | .writing len => len = s.length ∧ x.out <+: s
    | .exited status => status = EXIT_SUCCESS ∧ x.out = s ++ str "\n"
    | _ => True

/-- A string that is printed up to its length. -/
theorem concat_prefix {s t : List UInt8} (h : t <+: s) (hlt : t.length < s.length) :
    t ++ [s[t.length]] <+: s := by
  have htake := List.prefix_iff_eq_take.mp h
  rw [List.prefix_iff_eq_take, List.length_append, List.length_singleton,
    List.take_succ_eq_append_getElem hlt, ← htake]

theorem Reading.move {c : Call} {o : ℕ} {s : List UInt8} {m : MemObj} (h : Reading o s x)
    (hx : Local g.objs.length x) (hread : x.prog = .read) (hm : g.objs[o]? = some m)
    (hs : m.Holds s) (hne : s ≠ []) (hc : c ≠ .fail) (hmove : Move page g x c g' y) :
    Reading o s y := by
  cases hmove with
  | failed c hpc hwhy =>
      intro hobj
      have hobj : x.obj = some o := hobj
      rcases hwhy with hfail | hstart | hprog | hzero
      · exact absurd hfail hc
      · rw [hx.start hstart] at hobj
        cases hobj
      · exact nomatch hprog.symm.trans hread
      · have hlen := h hobj
        rw [hzero] at hlen
        exact absurd (List.length_eq_zero_iff.mp hlen.symm) hne
  | killed hpc => exact fun _ => trivial
  | opened stale name i fs hpc hopen => exact fun _ => trivial
  | unlinked stale name fs hprog hpc hunlink => exact nomatch hprog.symm.trans hread
  | resized stale i m' len text hpc hobj hm' hwhy =>
      rcases hwhy with ⟨hprog, -⟩ | ⟨hprog, -⟩
      · exact nomatch hprog.symm.trans hread
      · exact nomatch hprog.symm.trans hread
  | found stale i m' hprog hpc hobj hm' =>
      intro hobj'
      obtain rfl := Option.some.inj (hobj.symm.trans hobj')
      obtain rfl := Option.some.inj (hm.symm.trans hm')
      exact hs.size
  | created stale len hprog hpc => exact nomatch hprog.symm.trans hread
  | mapped stale len hprog hpc hlen =>
      intro hobj
      have hlen := h hobj
      rwa [hpc] at hlen
  | copying stale len text hprog hpc => exact nomatch hprog.symm.trans hread
  | stored k i c m' left hpc hobj hm' hc => exact nomatch (hx.copying left hpc).symm.trans hread
  | sigbus k i c m' left hpc hobj hm' hc hpage =>
      exact nomatch (hx.copying left hpc).symm.trans hread
  | full left hpc => exact absurd rfl hc
  | copied stale hpc => exact nomatch (hx.copying [] hpc).symm.trans hread
  | writing stale len hprog hpc =>
      intro hobj
      have hlen := h hobj
      rw [hpc] at hlen
      refine ⟨hlen, ?_⟩
      show x.out <+: s
      rw [hx.early hread (by rw [hpc]; rfl)]
      exact List.nil_prefix
  | byte stale len i m' hpc hobj hm' hlt =>
      intro hobj'
      obtain rfl := Option.some.inj (hobj.symm.trans hobj')
      obtain rfl := Option.some.inj (hm.symm.trans hm')
      have hout := h hobj
      simp only [hpc] at hout ⊢
      obtain ⟨rfl, hout⟩ := hout
      rw [hs.byte _ _ (List.getElem?_eq_getElem hlt)]
      exact ⟨rfl, concat_prefix hout hlt⟩
  | written stale len i m' hpc hobj hm' hwhy =>
      intro hobj'
      obtain rfl := Option.some.inj (hobj.symm.trans hobj')
      obtain rfl := Option.some.inj (hm.symm.trans hm')
      have hout := h hobj
      rw [hpc] at hout
      obtain ⟨rfl, hout⟩ := hout
      have hlen : s.length ≤ x.out.length := by
        rcases hwhy with hlen | hpage
        · exact hlen
        · by_contra hlt
          rw [MemObj.hasPage_of_lt page (hs.size.symm ▸ not_le.mp hlt)] at hpage
          cases hpage
      refine ⟨rfl, ?_⟩
      show x.out ++ str "\n" = _
      rw [hout.eq_of_length_le hlen]
  | cut len hpc => exact absurd rfl hc

/-- The string `s` is in the object `o`, and the process `q`, if it is a `pshm_read`, reads it. -/
structure Settled (q o : ℕ) (s : List UInt8) (w : CrowdWorld ShmFs Proc) : Prop where
  inv : Inv w
  holds : ∃ m, w.shared.objs[o]? = some m ∧ m.Holds s
  reads : ∀ x, w.procs[q]? = some x → x.prog = .read → Reading o s x

theorem Settled.step {a : CrowdAct Command Call} {q o : ℕ} {s : List UInt8}
    (h : Settled q o s w) (hne : s ≠ []) (hbusy : ∀ r ∈ w.procs, Busy o r = false)
    (ha : a ≠ .exec q .fail) (hstep : (pshm page).Step w a v) : Settled q o s v := by
  have hinv := h.inv.step hstep
  obtain ⟨m, hm, hs⟩ := h.holds
  obtain ⟨ho, -⟩ := List.getElem?_eq_some_iff.mp hm
  cases hstep with
  | spawn c =>
      refine ⟨hinv, ⟨m, hm, hs⟩, fun x hx hread => ?_⟩
      rcases Crowd.getElem?_spawn_cases hx with hold | rfl
      · exact h.reads x hold hread
      · exact nofun
  | exec p c y z g hy hexec =>
      have hmove := exec_cases (p := p) hexec
      have hmem := List.mem_of_getElem? hy
      have hlocal := h.inv.each y hmem
      have hsame := hmove.objs_of_not_busy hlocal (hbusy y hmem) ho
      refine ⟨hinv, ⟨m, hsame.trans hm, hs⟩, fun x hx hread => ?_⟩
      obtain ⟨hlt, -⟩ := List.getElem?_eq_some_iff.mp hy
      by_cases hpq : p = q
      · subst hpq
        obtain rfl : z = x := Option.some.inj ((List.getElem?_set_self hlt).symm.trans hx)
        have hyread : y.prog = .read := (hmove.keeps hlocal).1.symm.trans hread
        exact (h.reads y hy hyread).move hlocal hyread hm hs hne (fun hc => ha (hc ▸ rfl)) hmove
      · exact h.reads x ((List.getElem?_set_ne hpq).symm.trans hx) hread

/-- **A string that is written is read.** A `pshm_write` process has opened an object, and until it
ends no other process can change the object; other objects, readers of this one and its name are not
restricted. Then it gets no `SIGBUS` unless there is no memory left for a page of the object, and if
it exits successfully, its string is in the object. As long as no process can change the object
after that, every `pshm_read` process that opens it, or has opened it without having asked for the
size, and does exit exits successfully and prints the string and a newline, unless one of its calls
fails. -/
theorem written_string_is_read {as : List (CrowdAct Command Call)} {u : CrowdWorld ShmFs Proc}
    {o : ℕ} (hreach : (pshm page).system.Reachable w) (hx : w.procs[p]? = some x)
    (hprog : x.prog = .write) (hpc : x.pc = .opened) (hobj : x.obj = some o)
    (halone : (pshm page).system.Meets (fun s _ => Alone p o s) w as)
    (hrun : (pshm page).system.run w as = some u) (hy : u.procs[p]? = some y) :
    (.exec p .fail ∉ as → y.pc ≠ .sigbus) ∧
    (y.pc = .exited EXIT_SUCCESS →
      (∃ m, u.shared.objs[o]? = some m ∧ m.contents = x.string) ∧
      ∀ (bs : List (CrowdAct Command Call)) (v : CrowdWorld ShmFs Proc) (q : ℕ) (z : Proc)
        (status : ℕ), (∀ r, u.procs[q]? = some r → r.pc = .start ∨ r.pc = .opened) →
        (pshm page).system.Meets
          (fun s a => (∀ r ∈ s.procs, Busy o r = false) ∧ a ≠ .exec q .fail) u bs →
        (pshm page).system.run u bs = some v → v.procs[q]? = some z → z.prog = .read →
        z.obj = some o → z.pc = .exited status →
        status = EXIT_SUCCESS ∧ z.out = x.string ++ str "\n") := by
  have hinv := inv_of_reachable hreach
  have hlt := (hinv.each x (List.mem_of_getElem? hx)).obj_lt o hobj
  have hlabels :
      (pshm page).system.Meets (fun _ a => a = .exec p .fail → .exec p .fail ∈ as) w as :=
    .of_labels (fun a ha _ heq => heq ▸ ha) w
  have hwrites : Writes (.exec p .fail ∈ as) p o x.string w :=
    ⟨x, _, hx, List.getElem?_eq_getElem hlt, hprog, hobj, rfl, by rw [hpc]; trivial⟩
  obtain ⟨hinv', y', m, hy', hm, -, -, -, hprogress⟩ :=
    TransSys.run_preserves_of_meets
      (P := fun s => Inv s ∧ Writes (.exec p .fail ∈ as) p o x.string s)
      (fun s a t h hC hnext => ⟨h.1.step (Crowd.next_cases hnext),
        h.2.step h.1 hC.1 hC.2 (Crowd.next_cases hnext)⟩) ⟨hinv, hwrites⟩
      (halone.and hlabels) hrun
  obtain rfl := Option.some.inj (hy.symm.trans hy')
  refine ⟨fun hroom hbus => ?_, fun hexit => ?_⟩
  · rw [hbus] at hprogress
    exact hroom hprogress
  · rw [hexit] at hprogress
    obtain ⟨hholds, hne⟩ := hprogress rfl
    refine ⟨⟨m, hm, hholds.contents⟩, fun bs v q z status hq hmeets hrun' hz hread hzobj hzpc => ?_⟩
    have hsettled : Settled q o x.string u := by
      refine ⟨hinv', ⟨m, hm, hholds⟩, fun r hr _ _ => ?_⟩
      rcases hq r hr with hstart | hopened
      · rw [hstart]
        trivial
      · rw [hopened]
        trivial
    have hv := TransSys.run_preserves_of_meets (fun s a t (h : Settled q o x.string s) hC hnext =>
      h.step hne hC.1 hC.2 (Crowd.next_cases hnext)) hsettled hmeets hrun'
    have hreading := hv.reads z hz hread hzobj
    rwa [hzpc] at hreading

theorem written_string_is_read_sampleRun :
    ∃ w u v z, (pshm 4096).system.run sampleStart sampleOpen = some w ∧
      (pshm 4096).system.run w sampleWrite = some u ∧
      (pshm 4096).system.run u sampleRead = some v ∧ v.procs[2]? = some z ∧
      (∃ y, u.procs[1]? = some y ∧ y.pc ≠ .sigbus) ∧ z.out = str "hi" ++ str "\n" := by
  have hrun : (((pshm 4096).system.run sampleStart sampleOpen).bind fun w =>
      ((pshm 4096).system.run w sampleWrite).bind fun u =>
        ((pshm 4096).system.run u sampleRead).map fun v =>
          decide (w.procs[1]? =
            some ⟨.write, [str "pshm_write", str "/m", str "hi"], .opened, some 0, []⟩) &&
          (pshm 4096).system.checkMeets (fun s _ => decide (Alone 1 0 s)) w sampleWrite &&
          decide ((u.procs[1]?).map Proc.pc = some (.exited EXIT_SUCCESS)) &&
          decide (u.procs[2]? = none) &&
          (pshm 4096).system.checkMeets (fun s a =>
            decide ((∀ r ∈ s.procs, Busy 0 r = false) ∧ a ≠ .exec 2 .fail)) u sampleRead &&
          decide ((v.procs[2]?).map (fun z => (z.prog, z.obj, z.pc)) =
            some (.read, some 0, .exited EXIT_SUCCESS))) = some true := by
    decide +kernel
  obtain ⟨w, hw, hrun⟩ := Option.bind_eq_some_iff.mp hrun
  obtain ⟨u, hu, hrun⟩ := Option.bind_eq_some_iff.mp hrun
  obtain ⟨v, hv, hrun⟩ := Option.map_eq_some_iff.mp hrun
  simp only [Bool.and_eq_true, decide_eq_true_eq] at hrun
  obtain ⟨⟨⟨⟨⟨hx, halone⟩, hy⟩, hnone⟩, hquiet⟩, hz⟩ := hrun
  obtain ⟨y, hy, hexit⟩ := Option.map_eq_some_iff.mp hy
  obtain ⟨z, hz, hend⟩ := Option.map_eq_some_iff.mp hz
  simp only [Prod.mk.injEq] at hend
  obtain ⟨hread, hobj, hzpc⟩ := hend
  have hboth := written_string_is_read ⟨sampleStart, sampleOpen, ⟨rfl, rfl⟩, hw⟩ hx rfl rfl rfl
    (TransSys.meets_of_check halone) hu hy
  refine ⟨w, u, v, z, hw, hu, hv, hz, ⟨y, hy, hboth.1 (by decide)⟩, ?_⟩
  exact ((hboth.2 hexit).2 sampleRead v 2 z _ (by rw [hnone]; exact nofun)
    (TransSys.meets_of_check hquiet) hv hz hread hobj hzpc).2

end

end Tlpi.PshmCommands
