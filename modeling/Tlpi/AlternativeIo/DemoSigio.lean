import Tlpi.Lib.Transition
import Tlpi.Posix.Base

set_option autoImplicit false

/-! # Signal-driven input (alternative_io/demo_sigio.c)

The program asks for SIGIO when input arrives, puts the terminal into cbreak mode, and then counts.
The handler of SIGIO sets `gotSigio`; in each round the program looks at the flag, clears it, and
reads and prints characters until there are none or it has seen a `#`. Characters arrive, and the
handler runs, between any two steps of the program.

The loop that drains the terminal is `while (read(...) > 0 && !done)`: after a `#` it reads once
more before it looks at `done`, and drops the character if there is one.
-/

namespace Tlpi.DemoSigio

/-- What `ttySetCbreak` changes of `struct termios`. -/
structure Termios where
  icanon : Bool
  echo : Bool
  isig : Bool
  icrnl : Bool
  vmin : UInt8
  vtime : UInt8
deriving DecidableEq, Repr

def Termios.cbreak (t : Termios) : Termios :=
  { t with icanon := false, echo := false, isig := true, icrnl := false, vmin := 1, vtime := 0 }

/-- The next step of the program. `tcgetattr` and `tcsetattr` are those of `ttySetCbreak`; `failed`
is an exit, or an end by a signal, before the main loop. -/
inductive Pc where
  | sigaction
  | setOwn
  | setFl
  | tcgetattr
  | tcsetattr
  | failed
  | forTest
  | delay
  | ifGot
  | clear
  | read
  | notDone
  | print
  | setDone
  | increment
  | restore
  | exited (status : ℕ)
deriving DecidableEq, Repr

namespace Pc

/-- The main loop has started. -/
def started : Pc → Bool
  | sigaction | setOwn | setFl | tcgetattr | tcsetattr | failed => false
  | _ => true

/-- The loop that drains the terminal. -/
def inDrain : Pc → Bool
  | read | notDone | print | setDone => true
  | _ => false

/-- The process exists. -/
def alive : Pc → Bool
  | failed | exited _ => false
  | _ => true

/-- The text given to `perror` when a call fails. -/
def message : Pc → List UInt8
  | sigaction => str "sigaction"
  | setOwn => str "fcntl(F_SETOWN)"
  | setFl => str "fcntl(SET_FL)"
  | tcgetattr => str "ttySetCBreak"
  | tcsetattr => str "ttySetCBreak"
  | restore => str "tcsetattr"
  | _ => []

end Pc

/-- The terminal with its unread characters, and the process. `owner` and `async` are what
`F_SETOWN` and `F_SETFL` set; `consumed` are the characters `read` has returned, `printed` the
values of the lines printed. `cnt` does not wrap around, as the `int` of the source would after
2147483647. -/
structure State where
  queue : List UInt8
  termios : Termios
  owner : Bool
  async : Bool
  pending : Bool
  pc : Pc
  handler : Bool
  gotSigio : Bool
  origTermios : Termios
  cnt : ℕ
  ch : UInt8
  done : Bool
  consumed : List UInt8
  printed : List (ℕ × UInt8)
  stderr : List UInt8
deriving DecidableEq, Repr

/-- The printed characters. -/
def State.chars (s : State) : List UInt8 := s.printed.map Prod.snd

inductive Act where
  | arrive (c : UInt8)
  | deliver
  | call (ok : Bool)
  | go
deriving DecidableEq, Repr

/-- A failed call before the main loop. -/
def State.fail (s : State) : State := { s with pc := .failed, stderr := s.stderr ++ s.pc.message }

/-- The calls whose failure is looked at. `TCSAFLUSH` discards the unread characters. -/
def State.call (s : State) (ok : Bool) : Option State :=
  match s.pc with
  | .sigaction => some (if ok then { s with handler := true, pc := .setOwn } else s.fail)
  | .setOwn => some (if ok then { s with owner := true, pc := .setFl } else s.fail)
  | .setFl => some (if ok then { s with async := true, pc := .tcgetattr } else s.fail)
  | .tcgetattr =>
      some (if ok then { s with origTermios := s.termios, pc := .tcsetattr } else s.fail)
  | .tcsetattr =>
      some (if ok then
        { s with
          termios := s.origTermios.cbreak
          queue := []
          done := false
          cnt := 0
          pc := .forTest }
      else s.fail)
  | .restore =>
      some (if ok then { s with termios := s.origTermios, queue := [], pc := .exited 0 }
        else { s with pc := .exited 1, stderr := s.stderr ++ s.pc.message })
  | _ => none

/-- The main loop. A `read` of the empty terminal fails with `EAGAIN`. -/
def State.go (s : State) : Option State :=
  match s.pc with
  | .forTest => some { s with pc := if s.done then .restore else .delay }
  | .delay => some { s with pc := .ifGot }
  | .ifGot => some { s with pc := if s.gotSigio then .clear else .increment }
  | .clear => some { s with gotSigio := false, pc := .read }
  | .read =>
      match s.queue with
      | [] => some { s with pc := .increment }
      -- whatever `done` is, the character is taken
      | c :: queue =>
          some { s with queue := queue, ch := c, consumed := s.consumed ++ [c], pc := .notDone }
  | .notDone => some { s with pc := if s.done then .increment else .print }
  | .print => some { s with printed := s.printed ++ [(s.cnt, s.ch)], pc := .setDone }
  | .setDone => some { s with done := decide (s.ch = chr '#'), pc := .read }
  | .increment => some { s with cnt := s.cnt + 1, pc := .forTest }
  | _ => none

/-- An arrival raises SIGIO once the process has asked for it; without the handler SIGIO ends the
process. -/
def State.next (s : State) : Act → Option State
  | .arrive c =>
      some { s with
        queue := s.queue ++ [c]
        pending := s.pending || (s.owner && s.async) }
  | .deliver =>
      if s.pending = true ∧ s.pc.alive = true then
        if s.handler then some { s with pending := false, gotSigio := true }
        else some { s with pending := false, pc := .failed }
      else none
  | .call ok => s.call ok
  | .go => s.go

/-- At the start nothing is set up; the terminal may hold input. -/
structure Start (s : State) : Prop where
  pc : s.pc = .sigaction
  owner : s.owner = false
  async : s.async = false
  pending : s.pending = false
  gotSigio : s.gotSigio = false
  consumed : s.consumed = []
  printed : s.printed = []

def system : TransSys State Act := ⟨Start, State.next⟩

/-! ## The steps -/

/-- Everything a step can do. -/
inductive Step (s : State) : Act → State → Prop
  | arrive (c : UInt8) :
      Step s (.arrive c)
        { s with queue := s.queue ++ [c], pending := s.pending || (s.owner && s.async) }
  | deliver (hpending : s.pending = true) (hhandler : s.handler = true) :
      Step s .deliver { s with pending := false, gotSigio := true }
  | killed (hhandler : s.handler = false) (halive : s.pc.alive = true) :
      Step s .deliver { s with pending := false, pc := .failed }
  | failed (hpc : s.pc.started = false) : Step s (.call false) s.fail
  | sigaction (hpc : s.pc = .sigaction) :
      Step s (.call true) { s with handler := true, pc := .setOwn }
  | setOwn (hpc : s.pc = .setOwn) : Step s (.call true) { s with owner := true, pc := .setFl }
  | setFl (hpc : s.pc = .setFl) : Step s (.call true) { s with async := true, pc := .tcgetattr }
  | tcgetattr (hpc : s.pc = .tcgetattr) :
      Step s (.call true) { s with origTermios := s.termios, pc := .tcsetattr }
  | tcsetattr (hpc : s.pc = .tcsetattr) :
      Step s (.call true)
        { s with
          termios := s.origTermios.cbreak, queue := [], done := false, cnt := 0, pc := .forTest }
  | restored (hpc : s.pc = .restore) :
      Step s (.call true) { s with termios := s.origTermios, queue := [], pc := .exited 0 }
  | unrestored (hpc : s.pc = .restore) :
      Step s (.call false) { s with pc := .exited 1, stderr := s.stderr ++ s.pc.message }
  | forEnd (hpc : s.pc = .forTest) (hdone : s.done = true) : Step s .go { s with pc := .restore }
  | forNext (hpc : s.pc = .forTest) (hdone : s.done = false) : Step s .go { s with pc := .delay }
  | delay (hpc : s.pc = .delay) : Step s .go { s with pc := .ifGot }
  | ifGot (hpc : s.pc = .ifGot) (hgot : s.gotSigio = true) : Step s .go { s with pc := .clear }
  | ifNotGot (hpc : s.pc = .ifGot) (hgot : s.gotSigio = false) :
      Step s .go { s with pc := .increment }
  | clear (hpc : s.pc = .clear) : Step s .go { s with gotSigio := false, pc := .read }
  | readNone (hpc : s.pc = .read) (hqueue : s.queue = []) : Step s .go { s with pc := .increment }
  | readChar (hpc : s.pc = .read) (c : UInt8) (queue : List UInt8) (hqueue : s.queue = c :: queue) :
      Step s .go
        { s with queue := queue, ch := c, consumed := s.consumed ++ [c], pc := .notDone }
  | notDone (hpc : s.pc = .notDone) (hdone : s.done = false) : Step s .go { s with pc := .print }
  | dropped (hpc : s.pc = .notDone) (hdone : s.done = true) : Step s .go { s with pc := .increment }
  | print (hpc : s.pc = .print) :
      Step s .go { s with printed := s.printed ++ [(s.cnt, s.ch)], pc := .setDone }
  | setDone (hpc : s.pc = .setDone) :
      Step s .go { s with done := decide (s.ch = chr '#'), pc := .read }
  | increment (hpc : s.pc = .increment) : Step s .go { s with cnt := s.cnt + 1, pc := .forTest }

variable {s t : State} {a : Act}

theorem call_cases {ok : Bool} (h : s.call ok = some t) : Step s (.call ok) t := by
  unfold State.call at h
  split at h <;> rename_i hpc <;> cases h
  all_goals
    cases ok with
    | true => first
      | exact .sigaction hpc | exact .setOwn hpc | exact .setFl hpc | exact .tcgetattr hpc
      | exact .tcsetattr hpc | exact .restored hpc
    | false => first | exact .unrestored hpc | exact .failed (by rw [hpc]; rfl)

theorem go_cases (h : s.go = some t) : Step s .go t := by
  unfold State.go at h
  split at h <;> rename_i hpc
  · obtain rfl := Option.some.inj h
    by_cases hdone : s.done = true
    · rw [if_pos hdone]
      exact .forEnd hpc hdone
    · rw [if_neg hdone]
      exact .forNext hpc (Bool.eq_false_of_not_eq_true hdone)
  · exact Option.some.inj h ▸ .delay hpc
  · obtain rfl := Option.some.inj h
    by_cases hgot : s.gotSigio = true
    · rw [if_pos hgot]
      exact .ifGot hpc hgot
    · rw [if_neg hgot]
      exact .ifNotGot hpc (Bool.eq_false_of_not_eq_true hgot)
  · exact Option.some.inj h ▸ .clear hpc
  · split at h <;> rename_i hqueue
    · exact Option.some.inj h ▸ .readNone hpc hqueue
    · exact Option.some.inj h ▸ .readChar hpc _ _ hqueue
  · obtain rfl := Option.some.inj h
    by_cases hdone : s.done = true
    · rw [if_pos hdone]
      exact .dropped hpc hdone
    · rw [if_neg hdone]
      exact .notDone hpc (Bool.eq_false_of_not_eq_true hdone)
  · exact Option.some.inj h ▸ .print hpc
  · exact Option.some.inj h ▸ .setDone hpc
  · exact Option.some.inj h ▸ .increment hpc
  · cases h

theorem next_cases (h : s.next a = some t) : Step s a t := by
  cases a with
  | arrive c =>
      obtain rfl := Option.some.inj h
      exact .arrive c
  | deliver =>
      rw [State.next] at h
      split at h
      · rename_i hpending
        split at h
        · rename_i hhandler
          obtain rfl := Option.some.inj h
          exact .deliver hpending.1 hhandler
        · rename_i hhandler
          obtain rfl := Option.some.inj h
          exact .killed (by simpa using hhandler) hpending.2
      · cases h
  | call ok => exact call_cases h
  | go => exact go_cases h

/-! ## Unread input is announced -/

/-- The process has asked for SIGIO. -/
def Pc.armed : Pc → Bool
  | tcgetattr | tcsetattr => true
  | pc => pc.started

/-- The main loop is over. -/
def Pc.leftLoop : Pc → Bool
  | restore | exited _ => true
  | _ => false

/-- How far the setup has come. -/
structure Setup (s : State) : Prop where
  handler : s.pc ≠ .sigaction → s.pc ≠ .failed → s.handler = true
  owner : s.pc = .setFl → s.owner = true
  armed : s.pc.armed = true → s.owner = true ∧ s.async = true

theorem armed_of_started {pc : Pc} (h : pc.started = true) : pc.armed = true := by
  cases pc <;> first | rfl | cases h

theorem started_of_leftLoop {pc : Pc} (h : pc.leftLoop = true) : pc.started = true := by
  cases pc <;> first | rfl | cases h

/-- Once the process has asked for SIGIO, the setup stays. -/
theorem Setup.congr (hs : Setup s) (hfrom : s.pc.armed = true) (hto : t.pc.armed = true)
    (hhandler : t.handler = s.handler) (howner : t.owner = s.owner) (hasync : t.async = s.async) :
    Setup t := by
  have hinstalled := hs.handler (by rintro h; rw [h] at hfrom; cases hfrom)
    (by rintro h; rw [h] at hfrom; cases hfrom)
  refine ⟨fun _ _ => hhandler.trans hinstalled, fun h => ?_, fun _ => ?_⟩
  · rw [h] at hto
    cases hto
  · rw [howner, hasync]
    exact hs.armed hfrom

theorem setup_step (hs : Setup s) (hstep : Step s a t) : Setup t := by
  cases hstep with
  | arrive c => exact ⟨hs.handler, hs.owner, hs.armed⟩
  | deliver _ _ => exact ⟨hs.handler, hs.owner, hs.armed⟩
  | failed _ => exact ⟨fun _ h => absurd rfl h, (nomatch ·), (nomatch ·)⟩
  | killed _ _ => exact ⟨fun _ h => absurd rfl h, (nomatch ·), (nomatch ·)⟩
  | sigaction hpc => exact ⟨fun _ _ => rfl, (nomatch ·), (nomatch ·)⟩
  | setOwn hpc =>
      have hinstalled := hs.handler (by rw [hpc]; decide) (by rw [hpc]; decide)
      exact ⟨fun _ _ => hinstalled, fun _ => rfl, (nomatch ·)⟩
  | setFl hpc =>
      have hinstalled := hs.handler (by rw [hpc]; decide) (by rw [hpc]; decide)
      exact ⟨fun _ _ => hinstalled, (nomatch ·), fun _ => ⟨hs.owner hpc, rfl⟩⟩
  | _ hpc => exact hs.congr (by rw [hpc]; rfl) rfl rfl rfl rfl

/-- Unread input is announced by the flag or the signal, except where the terminal is drained. -/
structure Announced (s : State) : Prop where
  flag : s.pc = .clear → s.gotSigio = true
  finished : s.pc.leftLoop = true → s.done = true
  unread : s.pc.started = true → s.pc.inDrain = false → s.done = false → s.queue ≠ [] →
    s.gotSigio = true ∨ s.pending = true

theorem Announced.of_not_started (h : t.pc.started = false) : Announced t := by
  refine ⟨fun hpc => ?_, fun hleft => ?_, fun hstarted => ?_⟩
  · rw [hpc] at h
    cases h
  · rw [started_of_leftLoop hleft] at h
    cases h
  · rw [h] at hstarted
    cases hstarted

theorem announced_step (hs : Announced s) (hset : Setup s) (hstep : Step s a t) : Announced t := by
  cases hstep with
  | arrive c =>
      refine ⟨hs.flag, hs.finished, fun hstarted _ _ _ => Or.inr ?_⟩
      obtain ⟨howner, hasync⟩ := hset.armed (armed_of_started hstarted)
      simp [howner, hasync]
  | deliver _ _ => exact ⟨fun _ => rfl, hs.finished, fun _ _ _ _ => Or.inl rfl⟩
  -- before the main loop
  | failed _ => exact .of_not_started rfl
  | killed _ _ => exact .of_not_started rfl
  | sigaction _ => exact .of_not_started rfl
  | setOwn _ => exact .of_not_started rfl
  | setFl _ => exact .of_not_started rfl
  | tcgetattr _ => exact .of_not_started rfl
  -- the terminal is empty
  | tcsetattr _ => exact ⟨(nomatch ·), (nomatch ·), fun _ _ _ hne => absurd rfl hne⟩
  | readNone hpc hqueue => exact ⟨(nomatch ·), (nomatch ·), fun _ _ _ hne => absurd hqueue hne⟩
  | restored hpc =>
      have hdone := hs.finished (by rw [hpc]; rfl)
      exact ⟨(nomatch ·), fun _ => hdone, fun _ _ _ hne => absurd rfl hne⟩
  -- `done` is set
  | unrestored hpc =>
      have hdone := hs.finished (by rw [hpc]; rfl)
      exact ⟨(nomatch ·), fun _ => hdone, fun _ _ hnot => (by cases hdone.symm.trans hnot)⟩
  | forEnd _ hdone =>
      exact ⟨(nomatch ·), fun _ => hdone, fun _ _ hnot => (by cases hdone.symm.trans hnot)⟩
  | dropped _ hdone =>
      exact ⟨(nomatch ·), (nomatch ·), fun _ _ hnot => (by cases hdone.symm.trans hnot)⟩
  | ifGot _ hgot => exact ⟨fun _ => hgot, (nomatch ·), fun _ _ _ _ => Or.inl hgot⟩
  -- into the drain loop, and in it
  | clear _ => exact ⟨(nomatch ·), (nomatch ·), fun _ => (nomatch ·)⟩
  | readChar _ _ _ _ => exact ⟨(nomatch ·), (nomatch ·), fun _ => (nomatch ·)⟩
  | notDone _ _ => exact ⟨(nomatch ·), (nomatch ·), fun _ => (nomatch ·)⟩
  | print _ => exact ⟨(nomatch ·), (nomatch ·), fun _ => (nomatch ·)⟩
  | setDone _ => exact ⟨(nomatch ·), (nomatch ·), fun _ => (nomatch ·)⟩
  -- the rest of the main loop
  | _ hpc =>
      have hunread := hs.unread (by rw [hpc]; rfl) (by rw [hpc]; rfl)
      exact ⟨(nomatch ·), (nomatch ·), fun _ _ => hunread⟩

theorem start_setup (h : Start s) : Setup s := by
  constructor <;> simp [h.pc, Pc.armed, Pc.started]

theorem reachable_announced (h : system.Reachable s) : Setup s ∧ Announced s := by
  refine h.invariant (P := fun s => Setup s ∧ Announced s) (fun s hs => ?_)
    fun s a t hs hnext =>
      ⟨setup_step hs.1 (next_cases hnext), announced_step hs.2 hs.1 (next_cases hnext)⟩
  refine ⟨start_setup hs, ?_⟩
  constructor <;> simp [Start.pc hs, Pc.started, Pc.leftLoop]

/-- **No input is missed.** In every reachable state in which the main loop has started and is not
draining the terminal, and `done` is false: if there is unread input, then `gotSigio` is set or
SIGIO is pending. -/
theorem unread_input_announced (h : system.Reachable s) (hstarted : s.pc.started = true)
    (hdrain : s.pc.inDrain = false) (hdone : s.done = false) (hqueue : s.queue ≠ []) :
    s.gotSigio = true ∨ s.pending = true :=
  (reachable_announced h).2.unread hstarted hdrain hdone hqueue

/-- A cooked terminal with one line of input. -/
def cooked : State :=
  ⟨str "ls\n", ⟨true, true, true, true, 4, 0⟩, false, false, false, .sigaction, false, false,
    ⟨false, false, false, false, 0, 0⟩, 0, 0, false, [], [], []⟩

theorem cooked_start : Start cooked := ⟨rfl, rfl, rfl, rfl, rfl, rfl, rfl⟩

def setup : List Act := List.replicate 5 (.call true)

/-- A character that arrives when the main loop has started. -/
theorem first_character_announced :
    ∃ s, system.run cooked (setup ++ [.arrive (chr 'x')]) = some s ∧ s.queue = str "x" ∧
      (s.gotSigio = true ∨ s.pending = true) := by
  have hrun : system.run cooked (setup ++ [.arrive (chr 'x')]) = some
      { cooked with
        queue := str "x", termios := ⟨false, false, true, false, 1, 0⟩, owner := true,
        async := true, pending := true, pc := .forTest, handler := true,
        origTermios := ⟨true, true, true, true, 4, 0⟩ } := by decide
  exact ⟨_, hrun, rfl, unread_input_announced ⟨_, _, cooked_start, hrun⟩ rfl rfl rfl (by decide)⟩

/-! ## Consumed and printed characters -/

/-- A character has been read and is not yet printed. -/
def Pc.midRead : Pc → Bool
  | notDone | print => true
  | _ => false

/-- Outside the drain loop, what was printed is what was read, and nothing was read after a `#`. -/
structure PrintsConsumed (s : State) : Prop where
  printed : s.pc.inDrain = false → s.chars = s.consumed
  hash : chr '#' ∉ s.consumed.dropLast

/-- When the program reads after a `#`, it finds nothing. -/
def NothingAfterHash (s : State) (a : Act) : Prop :=
  a = .go → s.pc = .read → s.done = true → s.queue = []

/-- No character is being dealt with. -/
def Pc.plain : Pc → Bool
  | notDone | print | setDone => false
  | _ => true

structure Consistent (s : State) : Prop where
  settled : s.pc.midRead = false → s.chars = s.consumed
  taken : s.pc.midRead = true → s.done = false ∧ s.consumed = s.chars ++ [s.ch]
  last : s.pc = .setDone → s.consumed.getLast? = some s.ch
  early : chr '#' ∉ s.consumed.dropLast
  fresh : s.pc.plain = true → s.done = false ∨ s.pc.started = false → chr '#' ∉ s.consumed

theorem midRead_of_plain {pc : Pc} (h : pc.plain = true) : pc.midRead = false ∧ pc ≠ .setDone := by
  cases pc <;> simp_all [Pc.plain, Pc.midRead]

/-- Steps that have nothing to do with a character. -/
theorem Consistent.congr (hs : Consistent s) (hfrom : s.pc.plain = true) (hto : t.pc.plain = true)
    (hprinted : t.printed = s.printed) (hconsumed : t.consumed = s.consumed)
    (hfresh : t.done = false ∨ t.pc.started = false → s.done = false ∨ s.pc.started = false) :
    Consistent t := by
  obtain ⟨hmid, hlast⟩ := midRead_of_plain hto
  refine ⟨fun _ => ?_, fun h => ?_, fun h => absurd h hlast, ?_, fun _ h => ?_⟩
  · rw [State.chars, hprinted, hconsumed]
    exact hs.settled (midRead_of_plain hfrom).1
  · rw [hmid] at h
    cases h
  · rw [hconsumed]
    exact hs.early
  · rw [hconsumed]
    exact hs.fresh hfrom (hfresh h)

theorem mem_of_getLast? {c x : UInt8} {l : List UInt8} (h : l.getLast? = some x) (hc : c ∈ l) :
    c ∈ l.dropLast ∨ c = x := by
  obtain ⟨l', rfl⟩ := List.getLast?_eq_some_iff.mp h
  simpa using hc

theorem start_consistent (h : Start s) : Consistent s := by
  constructor <;> simp [h.pc, h.consumed, h.printed, State.chars, Pc.midRead]

theorem consistent_step (hs : Consistent s) (hset : Setup s) (hC : NothingAfterHash s a)
    (hstep : Step s a t) : Consistent t := by
  cases hstep with
  | arrive c => exact ⟨hs.settled, hs.taken, hs.last, hs.early, hs.fresh⟩
  | deliver _ _ => exact ⟨hs.settled, hs.taken, hs.last, hs.early, hs.fresh⟩
  | failed hpc =>
      have hplain : s.pc.plain = true := by cases h : s.pc <;> simp_all [Pc.plain, Pc.started]
      exact hs.congr hplain rfl rfl rfl fun _ => Or.inr hpc
  | killed hhandler halive =>
      -- SIGIO ends the process only as long as the handler is not installed
      have hpc : s.pc = .sigaction := by
        by_contra hne
        have hinstalled := hset.handler hne (by rintro h; rw [h] at halive; cases halive)
        rw [hhandler] at hinstalled
        cases hinstalled
      exact hs.congr (by rw [hpc]; rfl) rfl rfl rfl fun _ => Or.inr (by rw [hpc]; rfl)
  | readChar hpc c queue hqueue =>
      -- after a `#` there was nothing to read
      have hdone : s.done = false := by
        by_contra hdone
        have hempty := hC rfl hpc (by simpa using hdone)
        rw [hqueue] at hempty
        cases hempty
      have hsettled := hs.settled (by rw [hpc]; rfl)
      have hfresh := hs.fresh (by rw [hpc]; rfl) (Or.inl hdone)
      refine ⟨(nomatch ·), fun _ => ⟨hdone, ?_⟩, (nomatch ·), ?_, (nomatch ·)⟩
      · rw [← hsettled]
        rfl
      · rw [List.dropLast_concat]
        exact hfresh
  | notDone hpc hdone =>
      have htaken := hs.taken (by rw [hpc]; rfl)
      exact ⟨(nomatch ·), fun _ => htaken, (nomatch ·), hs.early, (nomatch ·)⟩
  | dropped hpc hdone =>
      have htaken := hs.taken (by rw [hpc]; rfl)
      rw [hdone] at htaken
      cases htaken.1
  | print hpc =>
      obtain ⟨hdone, htaken⟩ := hs.taken (by rw [hpc]; rfl)
      refine ⟨fun _ => ?_, (nomatch ·), fun _ => ?_, hs.early, (nomatch ·)⟩
      · rw [htaken, State.chars, List.map_append]
        rfl
      · rw [htaken, List.getLast?_concat]
  | setDone hpc =>
      have hsettled := hs.settled (by rw [hpc]; rfl)
      refine ⟨fun _ => hsettled, (nomatch ·), (nomatch ·), hs.early, fun _ h hmem => ?_⟩
      -- `done` is set if the last character is a `#`, and no earlier one is
      rcases mem_of_getLast? (hs.last hpc) hmem with hearly | hch
      · exact hs.early hearly
      · simp [Pc.started, ← hch] at h
  | tcsetattr hpc =>
      exact hs.congr (by rw [hpc]; rfl) rfl rfl rfl fun _ => Or.inr (by rw [hpc]; rfl)
  | _ hpc =>
      refine hs.congr (by rw [hpc]; rfl) rfl rfl rfl ?_
      simp [hpc, Pc.started]

theorem Consistent.printsConsumed (hs : Consistent s) : PrintsConsumed s := by
  refine ⟨fun hdrain => hs.settled ?_, hs.early⟩
  cases hpc : s.pc <;> simp_all [Pc.inDrain, Pc.midRead]

/-- What holds whatever is read: a `#` was read if `done` is set. -/
structure Seen (s : State) : Prop where
  ch : s.pc.plain = false → s.ch ∈ s.consumed
  done : s.pc.started = true → s.done = true → chr '#' ∈ s.consumed

theorem seen_step (hs : Seen s) (hstep : Step s a t) : Seen t := by
  cases hstep with
  | arrive c => exact ⟨hs.ch, hs.done⟩
  | deliver _ _ => exact ⟨hs.ch, hs.done⟩
  | failed hpc => exact ⟨(nomatch ·), (nomatch ·)⟩
  | killed _ _ => exact ⟨(nomatch ·), (nomatch ·)⟩
  | readChar hpc c queue hqueue =>
      have hdone := hs.done (by rw [hpc]; rfl)
      exact ⟨fun _ => by simp, fun _ h => List.mem_append_left _ (hdone h)⟩
  | setDone hpc =>
      have hch := hs.ch (by rw [hpc]; rfl)
      refine ⟨(nomatch ·), fun _ h => ?_⟩
      rwa [← of_decide_eq_true h]
  | notDone hpc _ => exact ⟨fun _ => hs.ch (by rw [hpc]; rfl), fun _ => hs.done (by rw [hpc]; rfl)⟩
  | print hpc => exact ⟨fun _ => hs.ch (by rw [hpc]; rfl), fun _ => hs.done (by rw [hpc]; rfl)⟩
  | tcsetattr hpc => exact ⟨(nomatch ·), fun _ => (nomatch ·)⟩
  | sigaction hpc => exact ⟨(nomatch ·), (nomatch ·)⟩
  | setOwn hpc => exact ⟨(nomatch ·), (nomatch ·)⟩
  | setFl hpc => exact ⟨(nomatch ·), (nomatch ·)⟩
  | tcgetattr hpc => exact ⟨(nomatch ·), (nomatch ·)⟩
  | _ hpc => exact ⟨(nomatch ·), fun _ => hs.done (by rw [hpc]; rfl)⟩

theorem consumed_step (hstep : Step s a t) :
    t.consumed = s.consumed ∨ ∃ c, t.consumed = s.consumed ++ [c] := by
  cases hstep with
  | readChar hpc c queue hqueue => exact Or.inr ⟨c, rfl⟩
  | _ => exact Or.inl rfl

/-- A character read after a `#` leaves a trace. -/
theorem late_step (h : chr '#' ∈ s.consumed.dropLast) (hstep : Step s a t) :
    chr '#' ∈ t.consumed.dropLast := by
  rcases consumed_step hstep with heq | ⟨c, heq⟩
  · rwa [heq]
  · rw [heq, List.dropLast_concat]
    exact List.mem_of_mem_dropLast h

theorem late_of_not_nothing (hs : Seen s) (hC : ¬ NothingAfterHash s a) (hstep : Step s a t) :
    chr '#' ∈ t.consumed.dropLast := by
  simp only [NothingAfterHash, Classical.not_imp] at hC
  obtain ⟨rfl, hpc, hdone, hqueue⟩ := hC
  have hhash := hs.done (by rw [hpc]; rfl) hdone
  cases hstep with
  | readChar _ c queue _ =>
      rw [List.dropLast_concat]
      exact hhash
  | readNone _ hempty => exact absurd hempty hqueue
  | _ hpc' => cases hpc'.symm.trans hpc

/-- **Printed and consumed.** After a run, the program has printed exactly the characters it has
read (unless it is in the drain loop) and has read none after a `#`, if and only if in each step of
the run that reads after a `#` there was nothing to read. -/
theorem prints_consumed_iff {s₀ : State} {as : List Act} (h₀ : system.Init s₀)
    (hrun : system.run s₀ as = some s) :
    PrintsConsumed s ↔ system.Meets NothingAfterHash s₀ as := by
  have hstart : Start s₀ := h₀
  constructor
  · intro h
    refine TransSys.meets_of_no_trace (I := Seen) (B := fun s => chr '#' ∈ s.consumed.dropLast)
      (fun s a t hs hnext => seen_step hs (next_cases hnext))
      (fun s a t _ hB hnext => late_step hB (next_cases hnext))
      (fun s a t hs hC hnext => late_of_not_nothing hs hC (next_cases hnext)) ?_ hrun h.hash
    exact ⟨by simp [hstart.pc, Pc.plain], by simp [hstart.pc, Pc.started]⟩
  · intro hmeets
    have hinv := TransSys.run_preserves_of_meets (P := fun s => Setup s ∧ Consistent s)
      (fun s a t hs hC hnext => ⟨setup_step hs.1 (next_cases hnext),
        consistent_step hs.2 hs.1 hC (next_cases hnext)⟩)
      ⟨start_setup hstart, start_consistent hstart⟩ hmeets hrun
    exact hinv.2.printsConsumed

/-- A `#` is read and printed; then `late` arrives, and the loop goes on for two steps. -/
def hashRun (late : List UInt8) : List Act :=
  setup ++ [Act.arrive (chr '#'), Act.deliver] ++ List.replicate 8 Act.go ++ late.map Act.arrive
    ++ [Act.go, Act.go]

theorem hash_alone_consumed : system.Meets NothingAfterHash cooked (hashRun []) := by
  have hrun : system.run cooked (hashRun []) = some
      { cooked with
        queue := [], termios := ⟨false, false, true, false, 1, 0⟩, owner := true, async := true,
        pc := .forTest, handler := true, origTermios := ⟨true, true, true, true, 4, 0⟩, cnt := 1,
        ch := chr '#', done := true, consumed := str "#", printed := [(0, chr '#')] } := by decide
  exact (prints_consumed_iff cooked_start hrun).mp ⟨fun _ => by decide, by decide⟩

/-- A character that arrives between a `#` and the next `read` is dropped. -/
theorem late_character_dropped : ¬ ∀ s, system.Reachable s → PrintsConsumed s := by
  intro h
  have hrun : system.run cooked (hashRun (str "x")) = some
      { cooked with
        queue := [], termios := ⟨false, false, true, false, 1, 0⟩, owner := true, async := true,
        pending := true, pc := .increment, handler := true,
        origTermios := ⟨true, true, true, true, 4, 0⟩, ch := chr 'x', done := true,
        consumed := str "#x", printed := [(0, chr '#')] } := by decide
  have hprinted := (h _ ⟨_, _, cooked_start, hrun⟩).printed rfl
  revert hprinted
  decide

end Tlpi.DemoSigio
