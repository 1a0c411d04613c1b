import Tlpi.Lib.Transition
import Tlpi.Posix.Base
import Tlpi.Posix.Fds

set_option autoImplicit false

/-! # Monitoring FIFOs with epoll (alternative_io/epoll_input.c)

The program opens every FIFO of its command line, puts the descriptors on the interest list of an
epoll instance and then repeats: ask for up to `MAX_EVENTS` reports, read up to `MAX_BUF` bytes from
each descriptor reported with EPOLLIN and close each one reported with EPOLLHUP or EPOLLERR only.
Writers open, write and close the FIFOs at any time between two of its steps.

A name may occur twice on the command line, so two descriptors can share a FIFO. What the program
does is kept in `trace`; `written` and `Report.written` are bookkeeping and influence no step.
-/

namespace Tlpi.EpollInput

abbrev Path := List UInt8

def MAX_BUF : ℕ := 1000

def MAX_EVENTS : ℕ := 5

/-- A FIFO: the bytes in it, how many writers have it open, and all bytes ever written to it. Other
processes may keep its read end open but take nothing, so that a write never fails. -/
structure Fifo where
  queue : List UInt8
  writers : ℕ
  written : List UInt8
deriving DecidableEq, Repr

/-- One entry of `evlist`, with the FIFO of the descriptor, what had been written to it when the
report was made, and how long the trace was then. -/
structure Report where
  fd : ℕ
  epollin : Bool
  epollhup : Bool
  epollerr : Bool
  path : Path
  written : List UInt8
  position : ℕ
deriving DecidableEq, Repr

/-- A failed call, with which the program ends. -/
inductive Failure where
  | usage
  | epollCreate
  | openFile
  | epollCtl
  | epollWait
  | read (fd : ℕ)
  | close (fd : ℕ)
deriving DecidableEq, Repr

/-- What the program does, in order. -/
inductive Event where
  | opened (fd : ℕ) (path : Path)
  | waiting
  | ready (n : ℕ)
  | report (r : Report)
  | read (fd : ℕ) (path : Path) (bytes : List UInt8)
  | closed (r : Report)
  | allClosed
  | failed (why : Failure)
deriving DecidableEq, Repr

/-- Where the program is. The entries of the command line still to be opened, and the reports still
to be dealt with, take the place of the index `j`. -/
inductive Pc where
  | start
  | epollCreate
  | openFile (rest : List Path)
  | epollCtl (fd : ℕ) (rest : List Path)
  | whileTest
  | epollWait
  | handle (evlist : List Report)
  | exited (success : Bool)
deriving DecidableEq, Repr

/-- `argv` is the command line after the program's name. `others` are the descriptors the loop over
the command line has not opened, `opened` those it has opened and that are not closed; `file` says
which FIFO a descriptor is for. -/
structure State where
  argv : List Path
  fifo : Path → Fifo
  others : Finset ℕ
  opened : Finset ℕ
  file : ℕ → Path
  interest : Finset ℕ
  numOpenFds : ℤ
  pc : Pc
  trace : List Event

/-- What happens next, with how a system call turns out. `epollWait` chooses the descriptors to be
reported, each with its EPOLLERR bit. -/
inductive Act where
  | go
  | epollCreate (ok : Bool)
  | openFile (ok : Bool)
  | epollCtl (ok : Bool)
  | epollWait (ready : Except Errno (List (ℕ × Bool)))
  | read (s : Option ℕ)
  | close (ok : Bool)
  | writerOpens (path : Path)
  | writes (path : Path) (bytes : List UInt8)
  | writerCloses (path : Path)
deriving DecidableEq, Repr

/-! ## Steps -/

namespace State

def say (s : State) (e : Event) : State := { s with trace := s.trace ++ [e] }

/-- `perror` and `exit(EXIT_FAILURE)`. -/
def fail (s : State) (why : Failure) : State := { s.say (.failed why) with pc := .exited false }

/-- The report on a descriptor at this moment. -/
def report (s : State) (fd : ℕ) (err : Bool) : Report where
  fd := fd
  epollin := decide ((s.fifo (s.file fd)).queue ≠ [])
  epollhup := decide ((s.fifo (s.file fd)).writers = 0)
  epollerr := err
  path := s.file fd
  written := (s.fifo (s.file fd)).written
  position := s.trace.length

end State

def Report.isReady (r : Report) : Bool := r.epollin || r.epollhup || r.epollerr

/-- `epoll_wait` can report these descriptors: up to `MAX_EVENTS` of those that are ready, each of
them once. It does not return before there is one. -/
def State.CanReport (s : State) (fds : List (ℕ × Bool)) : Prop :=
  fds ≠ [] ∧ fds.length ≤ MAX_EVENTS ∧ (fds.map Prod.fst).Nodup ∧
    ∀ f ∈ fds, f.1 ∈ s.interest ∧ (s.report f.1 f.2).isReady = true

instance (s : State) (fds : List (ℕ × Bool)) : Decidable (s.CanReport fds) :=
  inferInstanceAs (Decidable (_ ∧ _ ∧ _ ∧ _))

/-- `read(fd, buf, MAX_BUF)` can return `n`: some of the bytes there are, or 0 if there are none and
will be none. Without bytes it waits for a writer. -/
def Fifo.CanRead (f : Fifo) (n : ℕ) : Prop :=
  0 < n ∧ n ≤ MAX_BUF ∧ n ≤ f.queue.length ∨ n = 0 ∧ f.queue = [] ∧ f.writers = 0

instance (f : Fifo) (n : ℕ) : Decidable (f.CanRead n) :=
  inferInstanceAs (Decidable (_ ∨ _))

/-- `read` for a report with EPOLLIN. A descriptor that is not open makes it fail. -/
def State.readFor (s : State) (r : Report) (rest : List Report) (n : Option ℕ) : Option State :=
  match n with
  | none => some ((s.say (.report r)).fail (.read r.fd))
  | some n =>
      let path := s.file r.fd
      let f := s.fifo path
      if r.fd ∈ s.opened ∧ f.CanRead n then
        some { (s.say (.report r)).say (.read r.fd path (f.queue.take n)) with
          fifo := Function.update s.fifo path { f with queue := f.queue.drop n }
          pc := .handle rest }
      else none

/-- `close` for a report without EPOLLIN. It takes the descriptor off the interest list. -/
def State.closeFor (s : State) (r : Report) (rest : List Report) (ok : Bool) : Option State :=
  if ok then
    if r.fd ∈ s.opened then
      some { (s.say (.report r)).say (.closed r) with
        opened := s.opened.erase r.fd
        interest := s.interest.erase r.fd
        numOpenFds := s.numOpenFds - 1
        pc := .handle rest }
    else none
  else some ((s.say (.report r)).fail (.close r.fd))

/-- What the program does without a system call. -/
def State.go (s : State) : Option State :=
  match s.pc with
  | .start =>
      if s.argv.length < 1 ∨ s.argv.head? = some (str "--help") then some (s.fail .usage)
      else some { s with pc := .epollCreate }
  | .openFile [] => some { s with numOpenFds := s.argv.length, pc := .whileTest }
  | .whileTest =>
      if 0 < s.numOpenFds then some { s.say .waiting with pc := .epollWait }
      else some { s.say .allClosed with pc := .exited true }
  | .handle [] => some { s with pc := .whileTest }
  | .handle (r :: rest) =>
      if r.isReady then none else some { s.say (.report r) with pc := .handle rest }
  | _ => none

def State.next (s : State) : Act → Option State
  | .go => s.go
  | .epollCreate ok =>
      match s.pc with
      | .epollCreate =>
          if ok then
            some { s with others := insert (lowestFd s.others) s.others, pc := .openFile s.argv }
          else some (s.fail .epollCreate)
      | _ => none
  | .openFile ok =>
      match s.pc with
      | .openFile (path :: rest) =>
          if ok then
            let fd := lowestFd (s.others ∪ s.opened)
            some { s.say (.opened fd path) with
              opened := insert fd s.opened
              file := Function.update s.file fd path
              pc := .epollCtl fd rest }
          else some (s.fail .openFile)
      | _ => none
  | .epollCtl ok =>
      match s.pc with
      | .epollCtl fd rest =>
          if ok then some { s with interest := insert fd s.interest, pc := .openFile rest }
          else some (s.fail .epollCtl)
      | _ => none
  | .epollWait (.ok fds) =>
      if s.pc = .epollWait ∧ s.CanReport fds then
        some { s.say (.ready fds.length) with
          pc := .handle (fds.map fun f => s.report f.1 f.2) }
      else none
  | .epollWait (.error e) =>
      if s.pc = .epollWait then
        if e = .EINTR then some { s with pc := .whileTest } else some (s.fail .epollWait)
      else none
  | .read n =>
      match s.pc with
      | .handle (r :: rest) => if r.epollin then s.readFor r rest n else none
      | _ => none
  | .close ok =>
      match s.pc with
      | .handle (r :: rest) =>
          if r.epollin = false ∧ (r.epollhup || r.epollerr) = true then s.closeFor r rest ok
          else none
      | _ => none
  | .writerOpens path =>
      let f := s.fifo path
      some { s with fifo := Function.update s.fifo path { f with writers := f.writers + 1 } }
  | .writes path bytes =>
      let f := s.fifo path
      if 0 < f.writers then
        some { s with
          fifo := Function.update s.fifo path
            { f with queue := f.queue ++ bytes, written := f.written ++ bytes } }
      else none
  | .writerCloses path =>
      let f := s.fifo path
      if 0 < f.writers then
        some { s with fifo := Function.update s.fifo path { f with writers := f.writers - 1 } }
      else none

/-- The FIFOs may hold bytes and have writers already. -/
structure Init (s : State) : Prop where
  pc : s.pc = .start
  opened : s.opened = ∅
  interest : s.interest = ∅
  trace : s.trace = []
  written : ∀ p, (s.fifo p).written = (s.fifo p).queue

def system : TransSys State Act where
  Init := Init
  step := State.next

/-! ## What a step can do -/

/-- The steps, as `State.next` makes them: the program fails, goes on, or a FIFO changes. -/
inductive Step (s : State) : State → Prop where
  | fails (why : Failure) (hwhy : ∀ fd, why ≠ .read fd ∧ why ≠ .close fd)
      (hpc : ∀ ok, s.pc ≠ .exited ok) : Step s (s.fail why)
  | starts (hpc : s.pc = .start) : Step s { s with pc := .epollCreate }
  | creates (hpc : s.pc = .epollCreate) :
      Step s { s with others := insert (lowestFd s.others) s.others, pc := .openFile s.argv }
  | opens (path : Path) (rest : List Path) (fd : ℕ) (hpc : s.pc = .openFile (path :: rest))
      (hfd : fd ∉ s.opened) :
      Step s { s.say (.opened fd path) with
        opened := insert fd s.opened
        file := Function.update s.file fd path
        pc := .epollCtl fd rest }
  | adds (fd : ℕ) (rest : List Path) (hpc : s.pc = .epollCtl fd rest) :
      Step s { s with interest := insert fd s.interest, pc := .openFile rest }
  | enters (hpc : s.pc = .openFile []) :
      Step s { s with numOpenFds := s.argv.length, pc := .whileTest }
  | waits (hpc : s.pc = .whileTest) : Step s { s.say .waiting with pc := .epollWait }
  | ends (hpc : s.pc = .whileTest) (hnum : s.numOpenFds ≤ 0) :
      Step s { s.say .allClosed with pc := .exited true }
  | interrupted (hpc : s.pc = .epollWait) : Step s { s with pc := .whileTest }
  | reports (fds : List (ℕ × Bool)) (hpc : s.pc = .epollWait) (hfds : s.CanReport fds) :
      Step s { s.say (.ready fds.length) with
        pc := .handle (fds.map fun f => s.report f.1 f.2) }
  | handled (hpc : s.pc = .handle []) : Step s { s with pc := .whileTest }
  | skips (r : Report) (rest : List Report) (hpc : s.pc = .handle (r :: rest)) :
      Step s { s.say (.report r) with pc := .handle rest }
  | handles (r : Report) (rest : List Report) (why : Failure)
      (hpc : s.pc = .handle (r :: rest)) (hwhy : why = .read r.fd ∨ why = .close r.fd) :
      Step s ((s.say (.report r)).fail why)
  | reads (r : Report) (rest : List Report) (n : ℕ) (hpc : s.pc = .handle (r :: rest)) :
      Step s { (s.say (.report r)).say
          (.read r.fd (s.file r.fd) ((s.fifo (s.file r.fd)).queue.take n)) with
        fifo := Function.update s.fifo (s.file r.fd)
          { s.fifo (s.file r.fd) with queue := (s.fifo (s.file r.fd)).queue.drop n }
        pc := .handle rest }
  | closes (r : Report) (rest : List Report) (hpc : s.pc = .handle (r :: rest))
      (hin : r.epollin = false) :
      Step s { (s.say (.report r)).say (.closed r) with
        opened := s.opened.erase r.fd
        interest := s.interest.erase r.fd
        numOpenFds := s.numOpenFds - 1
        pc := .handle rest }
  | writes (path : Path) (bytes : List UInt8) (writers : ℕ) :
      Step s { s with
        fifo := Function.update s.fifo path
          ⟨(s.fifo path).queue ++ bytes, writers, (s.fifo path).written ++ bytes⟩ }

variable {s t : State}

theorem go_cases (h : s.go = some t) : Step s t := by
  unfold State.go at h
  split at h
  next hpc =>
    split at h
    · obtain rfl := Option.some.inj h
      exact .fails .usage (fun fd => ⟨(nofun), (nofun)⟩) (by simp [hpc])
    · obtain rfl := Option.some.inj h
      exact .starts hpc
  next hpc =>
    obtain rfl := Option.some.inj h
    exact .enters hpc
  next hpc =>
    split at h
    · obtain rfl := Option.some.inj h
      exact .waits hpc
    · rename_i hnum
      obtain rfl := Option.some.inj h
      exact .ends hpc (not_lt.mp hnum)
  next hpc =>
    obtain rfl := Option.some.inj h
    exact .handled hpc
  next r rest hpc =>
    split at h
    · cases h
    · obtain rfl := Option.some.inj h
      exact .skips r rest hpc
  next => cases h

theorem readFor_cases {r : Report} {rest : List Report} {n : Option ℕ}
    (hpc : s.pc = .handle (r :: rest)) (h : s.readFor r rest n = some t) : Step s t := by
  cases n with
  | none =>
      obtain rfl := Option.some.inj h
      exact .handles r rest (.read r.fd) hpc (Or.inl rfl)
  | some n =>
      simp only [State.readFor] at h
      split at h
      · obtain rfl := Option.some.inj h
        exact .reads r rest n hpc
      · cases h

theorem closeFor_cases {r : Report} {rest : List Report} {ok : Bool}
    (hpc : s.pc = .handle (r :: rest)) (hin : r.epollin = false)
    (h : s.closeFor r rest ok = some t) : Step s t := by
  unfold State.closeFor at h
  split at h
  · split at h
    · obtain rfl := Option.some.inj h
      exact .closes r rest hpc hin
    · cases h
  · obtain rfl := Option.some.inj h
    exact .handles r rest (.close r.fd) hpc (Or.inr rfl)

/-- Every step is one of these. -/
theorem next_cases {a : Act} (h : s.next a = some t) : Step s t := by
  cases a with
  | go => exact go_cases h
  | epollCreate ok =>
      simp only [State.next] at h
      split at h
      next hpc =>
        split at h
        · obtain rfl := Option.some.inj h
          exact .creates hpc
        · obtain rfl := Option.some.inj h
          exact .fails .epollCreate (fun fd => ⟨(nofun), (nofun)⟩) (by simp [hpc])
      next => cases h
  | openFile ok =>
      simp only [State.next] at h
      split at h
      next path rest hpc =>
        split at h
        · obtain rfl := Option.some.inj h
          refine .opens path rest _ hpc fun hmem => ?_
          exact lowestFd_notMem _ (Finset.mem_union_right s.others hmem)
        · obtain rfl := Option.some.inj h
          exact .fails .openFile (fun fd => ⟨(nofun), (nofun)⟩) (by simp [hpc])
      next => cases h
  | epollCtl ok =>
      simp only [State.next] at h
      split at h
      next fd rest hpc =>
        split at h
        · obtain rfl := Option.some.inj h
          exact .adds fd rest hpc
        · obtain rfl := Option.some.inj h
          exact .fails .epollCtl (fun fd => ⟨(nofun), (nofun)⟩) (by simp [hpc])
      next => cases h
  | epollWait ready =>
      cases ready with
      | error e =>
          simp only [State.next] at h
          split at h
          · rename_i hpc
            split at h
            · obtain rfl := Option.some.inj h
              exact .interrupted hpc
            · obtain rfl := Option.some.inj h
              exact .fails .epollWait (fun fd => ⟨(nofun), (nofun)⟩) (by simp [hpc])
          · cases h
      | ok fds =>
          simp only [State.next] at h
          split at h
          · rename_i hwait
            obtain rfl := Option.some.inj h
            exact .reports fds hwait.1 hwait.2
          · cases h
  | read n =>
      simp only [State.next] at h
      split at h
      next r rest hpc =>
        split at h
        · exact readFor_cases hpc h
        · cases h
      next => cases h
  | close ok =>
      simp only [State.next] at h
      split at h
      next r rest hpc =>
        split at h
        · rename_i hclose
          exact closeFor_cases hpc hclose.1 h
        · cases h
      next => cases h
  | writerOpens path =>
      obtain rfl := Option.some.inj h
      simpa using Step.writes (s := s) path [] ((s.fifo path).writers + 1)
  | writes path bytes =>
      simp only [State.next] at h
      split at h
      · obtain rfl := Option.some.inj h
        exact .writes path bytes (s.fifo path).writers
      · cases h
  | writerCloses path =>
      simp only [State.next] at h
      split at h
      · obtain rfl := Option.some.inj h
        simpa using Step.writes (s := s) path [] ((s.fifo path).writers - 1)
      · cases h

/-! ## Descriptors -/

/-- Nothing has been closed yet here. -/
def Pc.isStartup : Pc → Bool
  | .start => true
  | .epollCreate => true
  | .openFile _ => true
  | .epollCtl _ _ => true
  | _ => false

/-- What is known of the descriptors at each place. -/
def Place (s : State) : Prop :=
  match s.pc with
  | .start => s.opened = ∅
  | .epollCreate => s.opened = ∅
  | .openFile rest => s.opened.card + rest.length = s.argv.length
  | .epollCtl fd rest => fd ∈ s.opened ∧ s.opened.card + rest.length = s.argv.length
  | .whileTest => s.numOpenFds = s.opened.card
  | .epollWait => s.numOpenFds = s.opened.card
  | .handle evlist => s.numOpenFds = s.opened.card ∧ (evlist.map Report.fd).Nodup ∧
      ∀ r ∈ evlist, r.fd ∈ s.opened
  | .exited _ => True

/-- `opened` are the descriptors that the trace shows opened and not closed. -/
structure Descriptors (s : State) : Prop where
  interest : s.interest ⊆ s.opened
  opened : ∀ fd, fd ∈ s.opened ↔
    (∃ path, .opened fd path ∈ s.trace) ∧ ∀ r, .closed r ∈ s.trace → r.fd ≠ fd
  startup : s.pc.isStartup = true → ∀ r, .closed r ∉ s.trace
  allClosed : .allClosed ∈ s.trace → s.opened = ∅ ∧ s.pc = .exited true
  place : Place s

theorem Descriptors.init (h : Init s) : Descriptors s where
  interest := by simp [h.interest]
  opened := by simp [h.opened, h.trace]
  startup := by simp [h.trace]
  allClosed := by simp [h.trace]
  place := by simp [Place, h.pc, h.opened]

/-- The program goes on and says something that is neither an opening nor a closing. -/
theorem Descriptors.goes (h : Descriptors s) (hlive : ∀ ok, s.pc ≠ .exited ok) {u : State}
    {es : List Event} (htrace : u.trace = s.trace ++ es)
    (hes : ∀ e ∈ es, (∀ fd path, e ≠ .opened fd path) ∧ (∀ r, e ≠ .closed r) ∧ e ≠ .allClosed)
    (hopened : u.opened = s.opened) (hinterest : u.interest ⊆ u.opened)
    (hstartup : u.pc.isStartup = true → s.pc.isStartup = true) (hplace : Place u) :
    Descriptors u := by
  have hno_opened : ∀ fd path, .opened fd path ∉ es :=
    fun fd path hmem => (hes _ hmem).1 fd path rfl
  have hno_closed : ∀ r, .closed r ∉ es := fun r hmem => (hes _ hmem).2.1 r rfl
  have hno_end : Event.allClosed ∉ es := fun hmem => (hes _ hmem).2.2 rfl
  refine ⟨hinterest, ?_, ?_, ?_, hplace⟩
  · intro fd
    rw [hopened, htrace]
    simpa [hno_opened, hno_closed] using h.opened fd
  · intro hup r
    rw [htrace]
    simpa [hno_closed] using h.startup (hstartup hup) r
  · intro hend
    rw [htrace] at hend
    have hend : .allClosed ∈ s.trace := by simpa [hno_end] using hend
    exact absurd (h.allClosed hend).2 (hlive true)

/-- A file is opened; nothing was closed before. -/
theorem Descriptors.opens (h : Descriptors s) (path : Path) {rest : List Path} {fd : ℕ}
    (hpc : s.pc = .openFile (path :: rest)) (hfd : fd ∉ s.opened)
    (hplace : s.opened.card + (path :: rest).length = s.argv.length) :
    Descriptors { s.say (.opened fd path) with
      opened := insert fd s.opened
      file := Function.update s.file fd path
      pc := .epollCtl fd rest } := by
  have hnone := h.startup (by rw [hpc]; rfl)
  refine ⟨h.interest.trans (Finset.subset_insert _ _), ?_, ?_, ?_, ?_⟩
  · intro fd'
    have hold := h.opened fd'
    simp only [hnone, false_implies, implies_true, and_true] at hold
    simp only [State.say, Finset.mem_insert, hold, List.mem_append, List.mem_singleton,
      hnone, reduceCtorEq, or_self, false_implies, implies_true, and_true,
      Event.opened.injEq, exists_or]
    constructor
    · rintro (rfl | hmem)
      · exact Or.inr ⟨path, rfl, rfl⟩
      · exact Or.inl hmem
    · rintro (hmem | ⟨path', rfl, -⟩)
      · exact Or.inr hmem
      · exact Or.inl rfl
  · intro _ r
    simpa [State.say] using hnone r
  · intro hend
    have hend : .allClosed ∈ s.trace := by simpa [State.say] using hend
    exact absurd (h.allClosed hend).2 (by simp [hpc])
  · refine ⟨Finset.mem_insert_self _ _, ?_⟩
    rw [Finset.card_insert_of_notMem hfd]
    simp only [List.length_cons] at hplace
    simp only [State.say]
    omega

/-- A file is closed for which `epoll_wait` has reported no input. -/
theorem Descriptors.closes (h : Descriptors s) {r : Report} {rest : List Report}
    (hpc : s.pc = .handle (r :: rest)) (hnum : s.numOpenFds = s.opened.card)
    (hnodup : ((r :: rest).map Report.fd).Nodup) (hmem : ∀ r' ∈ r :: rest, r'.fd ∈ s.opened) :
    Descriptors { (s.say (.report r)).say (.closed r) with
      opened := s.opened.erase r.fd
      interest := s.interest.erase r.fd
      numOpenFds := s.numOpenFds - 1
      pc := .handle rest } := by
  obtain ⟨hnot, hnodup⟩ := List.nodup_cons.mp hnodup
  have hr : r.fd ∈ s.opened := hmem r List.mem_cons_self
  refine ⟨Finset.erase_subset_erase _ h.interest, ?_, (fun hup => nomatch hup), ?_, ?_⟩
  · intro fd
    have hold := h.opened fd
    simp only [State.say, Finset.mem_erase, hold, List.mem_append, List.mem_singleton,
      reduceCtorEq, or_false, Event.closed.injEq]
    constructor
    · rintro ⟨hne, hopen, hclosed⟩
      refine ⟨hopen, ?_⟩
      rintro r' (hr' | rfl)
      · exact hclosed r' hr'
      · exact Ne.symm hne
    · rintro ⟨hopen, hclosed⟩
      exact ⟨Ne.symm (hclosed r (Or.inr rfl)), hopen, fun r' hr' => hclosed r' (Or.inl hr')⟩
  · intro hend
    have hend : .allClosed ∈ s.trace := by simpa [State.say] using hend
    exact absurd (h.allClosed hend).2 (by simp [hpc])
  · refine ⟨?_, hnodup, ?_⟩
    · have hcard := Finset.card_erase_add_one hr
      show s.numOpenFds - 1 = (s.opened.erase r.fd).card
      omega
    · intro r' hr'
      refine Finset.mem_erase.mpr ⟨?_, hmem r' (List.mem_cons_of_mem r hr')⟩
      rintro heq
      exact hnot (heq ▸ List.mem_map_of_mem hr')

theorem Descriptors.step (h : Descriptors s) (hstep : Step s t) : Descriptors t := by
  have hplace := h.place
  unfold Place at hplace
  cases hstep with
  | fails why hwhy hpc =>
      exact h.goes hpc rfl (by simp) rfl h.interest (fun hup => nomatch hup) trivial
  | starts hpc =>
      rw [hpc] at hplace
      exact h.goes (by simp [hpc]) (List.append_nil _).symm (by simp) rfl h.interest
        (by simp [hpc, Pc.isStartup]) hplace
  | creates hpc =>
      rw [hpc] at hplace
      exact h.goes (by simp [hpc]) (List.append_nil _).symm (by simp) rfl h.interest
        (by simp [hpc, Pc.isStartup]) (by simp [Place, hplace])
  | opens path rest fd hpc hfd =>
      rw [hpc] at hplace
      exact h.opens path hpc hfd hplace
  | adds fd rest hpc =>
      rw [hpc] at hplace
      exact h.goes (by simp [hpc]) (List.append_nil _).symm (by simp) rfl
        (Finset.insert_subset hplace.1 h.interest) (by simp [hpc, Pc.isStartup]) hplace.2
  | enters hpc =>
      rw [hpc] at hplace
      refine h.goes (by simp [hpc]) (List.append_nil _).symm (by simp) rfl h.interest
        (fun hup => nomatch hup) ?_
      show (s.argv.length : ℤ) = s.opened.card
      rw [← hplace, List.length_nil, Nat.add_zero]
  | waits hpc =>
      rw [hpc] at hplace
      exact h.goes (by simp [hpc]) rfl (by simp) rfl h.interest (fun hup => nomatch hup) hplace
  | ends hpc hnum =>
      rw [hpc] at hplace
      have hempty : s.opened = ∅ := by
        rw [← Finset.card_eq_zero]
        omega
      refine ⟨h.interest, ?_, (fun hup => nomatch hup), fun _ => ⟨hempty, rfl⟩, trivial⟩
      intro fd
      simpa [State.say] using h.opened fd
  | interrupted hpc =>
      rw [hpc] at hplace
      exact h.goes (by simp [hpc]) (List.append_nil _).symm (by simp) rfl h.interest
        (fun hup => nomatch hup) hplace
  | reports fds hpc hfds =>
      rw [hpc] at hplace
      refine h.goes (by simp [hpc]) rfl (by simp) rfl h.interest (fun hup => nomatch hup) ?_
      obtain ⟨-, -, hnodup, hready⟩ := hfds
      refine ⟨hplace, ?_, ?_⟩
      · rw [List.map_map]
        exact hnodup
      · intro r hr
        obtain ⟨f, hf, rfl⟩ := List.mem_map.mp hr
        exact h.interest (hready f hf).1
  | handled hpc =>
      rw [hpc] at hplace
      exact h.goes (by simp [hpc]) (List.append_nil _).symm (by simp) rfl h.interest
        (fun hup => nomatch hup) hplace.1
  | skips r rest hpc =>
      rw [hpc] at hplace
      exact h.goes (by simp [hpc]) rfl (by simp) rfl h.interest (fun hup => nomatch hup)
        ⟨hplace.1, hplace.2.1.of_cons, fun r' hr' => hplace.2.2 r' (List.mem_cons_of_mem r hr')⟩
  | handles r rest why hpc hwhy =>
      exact h.goes (by simp [hpc]) (List.append_assoc s.trace _ _) (by simp) rfl h.interest
        (fun hup => nomatch hup) trivial
  | reads r rest n hpc =>
      rw [hpc] at hplace
      refine h.goes (by simp [hpc]) (List.append_assoc s.trace _ _) (by simp) rfl h.interest
        (fun hup => nomatch hup) ?_
      exact ⟨hplace.1, hplace.2.1.of_cons, fun r' hr' => hplace.2.2 r' (List.mem_cons_of_mem r hr')⟩
  | closes r rest hpc hin =>
      rw [hpc] at hplace
      exact h.closes hpc hplace.1 hplace.2.1 hplace.2.2
  | writes path bytes writers => exact ⟨h.interest, h.opened, h.startup, h.allClosed, h.place⟩

/-! ## Bytes -/

/-- What has been read from a FIFO, through any descriptor. -/
def taken (path : Path) (trace : List Event) : List UInt8 :=
  trace.flatMap fun
    | .read _ path' bytes => if path' = path then bytes else []
    | _ => []

/-- What was written to a FIFO has been read, in order and once, or is still in it. -/
def Bytes (s : State) : Prop :=
  ∀ path, (s.fifo path).written = taken path s.trace ++ (s.fifo path).queue

@[simp] theorem taken_nil (path : Path) : taken path [] = [] := rfl

theorem taken_append (path : Path) (tr es : List Event) :
    taken path (tr ++ es) = taken path tr ++ taken path es := List.flatMap_append

theorem Bytes.init (h : Init s) : Bytes s := by
  intro path
  rw [h.trace, taken_nil, List.nil_append, h.written path]

/-- The program says something that is not a reading. -/
theorem Bytes.goes (h : Bytes s) {u : State} {es : List Event} (hfifo : u.fifo = s.fifo)
    (htrace : u.trace = s.trace ++ es) (hes : ∀ path, taken path es = []) : Bytes u := by
  intro path
  rw [hfifo, htrace, taken_append, hes, List.append_nil]
  exact h path

theorem Bytes.step (h : Bytes s) (hstep : Step s t) : Bytes t := by
  cases hstep with
  | fails why hwhy hpc => exact h.goes rfl rfl (fun _ => rfl)
  | starts hpc => exact h.goes rfl (List.append_nil _).symm taken_nil
  | creates hpc => exact h.goes rfl (List.append_nil _).symm taken_nil
  | opens path rest fd hpc hfd => exact h.goes rfl rfl (fun _ => rfl)
  | adds fd rest hpc => exact h.goes rfl (List.append_nil _).symm taken_nil
  | enters hpc => exact h.goes rfl (List.append_nil _).symm taken_nil
  | waits hpc => exact h.goes rfl rfl (fun _ => rfl)
  | ends hpc hnum => exact h.goes rfl rfl (fun _ => rfl)
  | interrupted hpc => exact h.goes rfl (List.append_nil _).symm taken_nil
  | reports fds hpc hfds => exact h.goes rfl rfl (fun _ => rfl)
  | handled hpc => exact h.goes rfl (List.append_nil _).symm taken_nil
  | skips r rest hpc => exact h.goes rfl rfl (fun _ => rfl)
  | handles r rest why hpc hwhy =>
      exact h.goes rfl (List.append_assoc s.trace _ _) (fun _ => rfl)
  | closes r rest hpc hin =>
      exact h.goes rfl (List.append_assoc s.trace _ _) (fun _ => rfl)
  | reads r rest n hpc =>
      intro path
      have hold := h path
      simp only [State.say, taken_append]
      by_cases hpath : s.file r.fd = path
      · subst hpath
        simp [hold, taken]
      · rw [Function.update_of_ne (Ne.symm hpath)]
        simpa [taken, hpath] using hold
  | writes path bytes writers =>
      intro path'
      by_cases hpath : path' = path
      · subst hpath
        simp [h path']
      · simpa [Function.update_of_ne hpath] using h path'

/-! ## Reports -/

/-- A report without EPOLLIN found that everything written had been read before. -/
def Report.Sound (r : Report) (trace : List Event) : Prop :=
  .opened r.fd r.path ∈ trace ∧ r.position ≤ trace.length ∧
    (r.epollin = false → taken r.path (trace.take r.position) = r.written)

theorem Report.Sound.append {r : Report} {tr : List Event} (h : r.Sound tr) (es : List Event) :
    r.Sound (tr ++ es) := by
  obtain ⟨hopened, hpos, htaken⟩ := h
  refine ⟨List.mem_append_left es hopened, ?_, ?_⟩
  · rw [List.length_append]
    omega
  · rwa [List.take_append_of_le_length hpos]

structure Reports (s : State) : Prop where
  named : ∀ fd ∈ s.opened, .opened fd (s.file fd) ∈ s.trace
  pending : ∀ evlist, s.pc = .handle evlist → ∀ r ∈ evlist, r.Sound s.trace
  closed : ∀ (k : ℕ) (r : Report), s.trace[k]? = some (.closed r) →
    r.epollin = false ∧ r.Sound s.trace ∧ r.position ≤ k

theorem Reports.init (h : Init s) : Reports s where
  named := by simp [h.opened]
  pending := by simp [h.pc]
  closed := by simp [h.trace]

/-- Closings stay as they are while other things are said. -/
theorem Reports.closed_append (h : Reports s) {es : List Event} (hes : ∀ r, .closed r ∉ es) {k : ℕ}
    {r : Report} (hk : (s.trace ++ es)[k]? = some (.closed r)) :
    r.epollin = false ∧ r.Sound (s.trace ++ es) ∧ r.position ≤ k := by
  rw [List.getElem?_append] at hk
  split at hk
  · obtain ⟨hin, hsound, hpos⟩ := h.closed k r hk
    exact ⟨hin, hsound.append es, hpos⟩
  · exact absurd (List.mem_of_getElem? hk) (hes r)

/-- The program says something that is no closing, and has no new reports. -/
theorem Reports.goes (h : Reports s) {u : State} {es : List Event} (hopened : u.opened = s.opened)
    (hfile : u.file = s.file) (htrace : u.trace = s.trace ++ es) (hes : ∀ r, .closed r ∉ es)
    (hpc : ∀ evlist, u.pc = .handle evlist → ∃ evlist', s.pc = .handle evlist' ∧ evlist ⊆ evlist') :
    Reports u where
  named fd hfd := by
    rw [hopened] at hfd
    rw [hfile, htrace]
    exact List.mem_append_left es (h.named fd hfd)
  pending evlist hev r hr := by
    obtain ⟨evlist', hev', hsub⟩ := hpc evlist hev
    rw [htrace]
    exact (h.pending evlist' hev' r (hsub hr)).append es
  closed k r hk := by
    rw [htrace] at hk ⊢
    exact h.closed_append hes hk

theorem Reports.step (h : Reports s) (hd : Descriptors s) (hb : Bytes s) (hstep : Step s t) :
    Reports t := by
  cases hstep with
  | fails why hwhy hpc => exact h.goes rfl rfl rfl (by simp) (fun _ hev => nomatch hev)
  | starts hpc => exact h.goes rfl rfl (List.append_nil _).symm (by simp) (fun _ hev => nomatch hev)
  | creates hpc =>
      exact h.goes rfl rfl (List.append_nil _).symm (by simp) (fun _ hev => nomatch hev)
  | opens path rest fd hpc hfd =>
      refine ⟨?_, (fun _ hev => nomatch hev), fun k r hk => h.closed_append (by simp) hk⟩
      intro fd' hfd'
      show Event.opened fd' (Function.update s.file fd path fd') ∈ s.trace ++ [Event.opened fd path]
      by_cases heq : fd' = fd
      · subst heq
        simp
      · rw [Function.update_of_ne heq]
        have hold := (Finset.mem_insert.mp hfd').resolve_left heq
        exact List.mem_append_left _ (h.named fd' hold)
  | adds fd rest hpc =>
      exact h.goes rfl rfl (List.append_nil _).symm (by simp) (fun _ hev => nomatch hev)
  | enters hpc => exact h.goes rfl rfl (List.append_nil _).symm (by simp) (fun _ hev => nomatch hev)
  | waits hpc => exact h.goes rfl rfl rfl (by simp) (fun _ hev => nomatch hev)
  | ends hpc hnum => exact h.goes rfl rfl rfl (by simp) (fun _ hev => nomatch hev)
  | interrupted hpc =>
      exact h.goes rfl rfl (List.append_nil _).symm (by simp) (fun _ hev => nomatch hev)
  | reports fds hpc hfds =>
      have hgoes : Reports { s.say (.ready fds.length) with pc := .whileTest } :=
        h.goes rfl rfl rfl (by simp) (fun _ hev => nomatch hev)
      refine ⟨hgoes.named, ?_, hgoes.closed⟩
      intro evlist hev r hr
      obtain rfl := Pc.handle.inj hev
      obtain ⟨f, hf, rfl⟩ := List.mem_map.mp hr
      have hopened : f.1 ∈ s.opened := hd.interest (hfds.2.2.2 f hf).1
      have hsound : (s.report f.1 f.2).Sound s.trace := by
        refine ⟨h.named f.1 hopened, Nat.le_refl _, ?_⟩
        intro hin
        have hempty : (s.fifo (s.file f.1)).queue = [] := by simpa [State.report] using hin
        have hwritten := hb (s.file f.1)
        rw [hempty, List.append_nil] at hwritten
        show taken (s.file f.1) (s.trace.take s.trace.length) = (s.fifo (s.file f.1)).written
        rw [List.take_length, hwritten]
      exact hsound.append _
  | handled hpc =>
      exact h.goes rfl rfl (List.append_nil _).symm (by simp) (fun _ hev => nomatch hev)
  | skips r rest hpc =>
      refine h.goes rfl rfl rfl (by simp) ?_
      intro evlist hev
      obtain rfl := Pc.handle.inj hev
      exact ⟨_, hpc, List.subset_cons_self r rest⟩
  | handles r rest why hpc hwhy =>
      exact h.goes rfl rfl (List.append_assoc s.trace _ _) (by simp) (fun _ hev => nomatch hev)
  | reads r rest n hpc =>
      refine h.goes rfl rfl (List.append_assoc s.trace _ _) (by simp) ?_
      intro evlist hev
      obtain rfl := Pc.handle.inj hev
      exact ⟨_, hpc, List.subset_cons_self r rest⟩
  | closes r rest hpc hin =>
      have hsound := h.pending _ hpc r List.mem_cons_self
      have hgoes : Reports { s.say (.report r) with pc := .handle rest } := by
        refine h.goes rfl rfl rfl (by simp) ?_
        intro evlist hev
        obtain rfl := Pc.handle.inj hev
        exact ⟨_, hpc, List.subset_cons_self r rest⟩
      refine ⟨?_, ?_, ?_⟩
      · intro fd hfd
        exact List.mem_append_left _ (hgoes.named fd (Finset.mem_of_mem_erase hfd))
      · intro evlist hev r' hr'
        exact (hgoes.pending evlist hev r' hr').append _
      · intro k r' hk
        have hk : (s.trace ++ [Event.report r] ++ [Event.closed r])[k]?
            = some (Event.closed r') := hk
        rw [List.getElem?_append] at hk
        split at hk
        · obtain ⟨hin', hsound', hpos⟩ := hgoes.closed k r' hk
          exact ⟨hin', hsound'.append _, hpos⟩
        · rename_i hlong
          obtain rfl : r' = r := by simpa using List.mem_of_getElem? hk
          refine ⟨hin, (hsound.append _).append _, ?_⟩
          have hpos := hsound.2.1
          simp only [List.length_append] at hlong
          omega
  | writes path bytes writers => exact ⟨h.named, h.pending, h.closed⟩

/-! ## No use of a closed descriptor -/

/-- The descriptor that is read or closed, or that the program tried to read or to close. -/
def Event.uses : Event → Option ℕ
  | .read fd _ _ => some fd
  | .closed r => some r.fd
  | .failed (.read fd) => some fd
  | .failed (.close fd) => some fd
  | _ => none

/-- After a closing, the descriptor is not used again. -/
def NotReused (trace : List Event) : Prop :=
  trace.Pairwise fun a b => ∀ r, a = .closed r → b.uses ≠ some r.fd

/-- What is said uses open descriptors only, and closes at most at its end. -/
theorem NotReused.append (h : NotReused s.trace) (hd : Descriptors s) {es : List Event}
    (hes : NotReused es) (huses : ∀ e ∈ es, ∀ fd, e.uses = some fd → fd ∈ s.opened) :
    NotReused (s.trace ++ es) := by
  refine List.pairwise_append.mpr ⟨h, hes, ?_⟩
  rintro a ha e he r rfl huse
  have hopen := huses e he r.fd huse
  exact ((hd.opened r.fd).mp hopen).2 r ha rfl

/-- The report under the program's eyes is about an open descriptor. -/
theorem NotReused.handles (h : NotReused s.trace) (hd : Descriptors s) {r : Report}
    {rest : List Report} (hpc : s.pc = .handle (r :: rest)) {e : Event}
    (he : e.uses = some r.fd) : NotReused (((s.say (.report r)).say e).trace) := by
  have hplace := hd.place
  unfold Place at hplace
  rw [hpc] at hplace
  simp only [State.say, List.append_assoc, List.singleton_append]
  refine h.append hd (by simp [NotReused]) ?_
  intro e' he' fd huse
  obtain rfl | rfl : e' = .report r ∨ e' = e := by simpa using he'
  · cases huse
  · obtain rfl : r.fd = fd := Option.some.inj (he.symm.trans huse)
    exact hplace.2.2 r List.mem_cons_self

theorem NotReused.step (h : NotReused s.trace) (hd : Descriptors s) (hstep : Step s t) :
    NotReused t.trace := by
  cases hstep with
  | fails why hwhy hpc =>
      refine h.append hd (List.pairwise_singleton _ _) ?_
      intro e he fd huse
      obtain rfl := List.mem_singleton.mp he
      -- the calls that fail here are none on a descriptor of the loop
      cases why with
      | read fd' => exact absurd rfl (hwhy fd').1
      | close fd' => exact absurd rfl (hwhy fd').2
      | usage => cases huse
      | epollCreate => cases huse
      | openFile => cases huse
      | epollCtl => cases huse
      | epollWait => cases huse
  | starts hpc => exact h
  | creates hpc => exact h
  | opens path rest fd hpc hfd =>
      exact h.append hd (List.pairwise_singleton _ _) (by simp [Event.uses])
  | adds fd rest hpc => exact h
  | enters hpc => exact h
  | waits hpc => exact h.append hd (List.pairwise_singleton _ _) (by simp [Event.uses])
  | ends hpc hnum => exact h.append hd (List.pairwise_singleton _ _) (by simp [Event.uses])
  | interrupted hpc => exact h
  | reports fds hpc hfds => exact h.append hd (List.pairwise_singleton _ _) (by simp [Event.uses])
  | handled hpc => exact h
  | skips r rest hpc => exact h.append hd (List.pairwise_singleton _ _) (by simp [Event.uses])
  | handles r rest why hpc hwhy =>
      exact h.handles hd hpc (by rcases hwhy with rfl | rfl <;> rfl)
  | reads r rest n hpc => exact h.handles hd hpc rfl
  | closes r rest hpc hin => exact h.handles hd hpc rfl
  | writes path bytes writers => exact h

/-! ## The event loop -/

structure Inv (s : State) : Prop where
  descriptors : Descriptors s
  bytes : Bytes s
  reports : Reports s
  notReused : NotReused s.trace

theorem Inv.init (h : Init s) : Inv s :=
  ⟨.init h, .init h, .init h, by rw [h.trace]; exact List.Pairwise.nil⟩

theorem Inv.step (h : Inv s) (hstep : Step s t) : Inv t :=
  ⟨h.descriptors.step hstep, h.bytes.step hstep, h.reports.step h.descriptors h.bytes hstep,
    h.notReused.step h.descriptors hstep⟩

/-- What holds of the event loop. -/
structure Safe (s : State) : Prop where
  /-- `opened` are the descriptors opened and not yet closed. -/
  opened : ∀ fd, fd ∈ s.opened ↔
    (∃ path, .opened fd path ∈ s.trace) ∧ ∀ r, .closed r ∈ s.trace → r.fd ≠ fd
  count : s.pc = .whileTest → s.numOpenFds = s.opened.card
  notReused : ∀ (i j : ℕ) (r : Report) (e : Event), i < j → s.trace[i]? = some (.closed r) →
    s.trace[j]? = some e → e.uses ≠ some r.fd
  /-- What was written has been read, in order and once, or is still there. -/
  bytes : ∀ path, (s.fifo path).written = taken path s.trace ++ (s.fifo path).queue
  /-- The report behind a closing came without EPOLLIN; all that was written before it had been read
  before it. -/
  closed : ∀ (k : ℕ) (r : Report), s.trace[k]? = some (.closed r) →
    r.epollin = false ∧ .opened r.fd r.path ∈ s.trace ∧ r.position ≤ k ∧
      taken r.path (s.trace.take r.position) = r.written
  allClosed : .allClosed ∈ s.trace → s.opened = ∅

/-- **The event loop of epoll_input.** For every command line, every choice of the reports and any
interleaving with the writers. -/
theorem epoll_input_safe (h : system.Reachable s) : Safe s := by
  have hinv : Inv s := h.invariant (P := Inv) (fun s hs => .init hs)
    (fun s a t hs hnext => hs.step (next_cases hnext))
  obtain ⟨hd, hb, hr, hn⟩ := hinv
  refine ⟨hd.opened, ?_, ?_, hb, ?_, fun hend => (hd.allClosed hend).1⟩
  · intro hpc
    have hplace := hd.place
    unfold Place at hplace
    rwa [hpc] at hplace
  · intro i j r e hij hi hj
    obtain ⟨hi', hi⟩ := List.getElem?_eq_some_iff.mp hi
    obtain ⟨hj', hj⟩ := List.getElem?_eq_some_iff.mp hj
    have hpair := List.pairwise_iff_getElem.mp hn i j hi' hj' hij r hi
    rwa [hj] at hpair
  · intro k r hk
    obtain ⟨hin, ⟨hopened, -, htaken⟩, hpos⟩ := hr.closed k r hk
    exact ⟨hin, hopened, hpos, htaken hin⟩

/-- One FIFO with a writer. -/
def oneFifo : State where
  argv := [str "a"]
  fifo := fun _ => ⟨[], 1, []⟩
  others := {0, 1, 2}
  opened := ∅
  file := fun _ => []
  interest := ∅
  numOpenFds := 0
  pc := .start
  trace := []

/-- The writer writes and closes; the program reads and closes. -/
def oneFifoRun : List Act :=
  [.go, .epollCreate true, .openFile true, .epollCtl true, .go, .writes (str "a") [104, 105],
    .writerCloses (str "a"), .go, .epollWait (.ok [(4, false)]), .read (some 2), .go, .go,
    .epollWait (.ok [(4, false)]), .close true, .go, .go]

theorem oneFifo_safe :
    ∃ s, system.run oneFifo oneFifoRun = some s ∧ .allClosed ∈ s.trace ∧
      taken (str "a") s.trace = [104, 105] ∧ Safe s := by
  have hrun : system.run oneFifo oneFifoRun = some _ := (Option.some_get (by decide)).symm
  refine ⟨_, hrun, by decide, by decide, epoll_input_safe ?_⟩
  exact ⟨oneFifo, oneFifoRun, ⟨rfl, rfl, rfl, rfl, fun _ => rfl⟩, hrun⟩

end Tlpi.EpollInput
