import Tlpi.Lib.Decimal
import Tlpi.Lib.Transition
import Tlpi.Posix.Base
import Tlpi.Posix.Signals

set_option autoImplicit false

/-! # Catching signals (signals/catch_rtsigs.c)

The program catches nearly all signals with one handler, keeps most of them blocked for a while,
and then waits in `while (!allDone) pause()`. The handler of SIGINT and SIGTERM sets `allDone`.

The test of `allDone` and the call of `pause` are two steps, and nothing is blocked between them: a
SIGINT handled there is not seen by the test any more, and does not interrupt the `pause` to come.

The model begins where the handlers are installed. The lines of the program are all in the body of
`if (argc > 1 || ...)`, so that there is an argument, the time to block.
-/

namespace Tlpi.CatchRtsigs

open Decimal

/-- The next step of the main program. `loop` is the test of `allDone`; `pauseCall` is the place
between the test and `pause`. -/
inductive Pc where
  | block
  | printBlocked
  | sleep
  | printSlept
  | unblock
  | loop
  | pauseCall
  | paused
  | printCount
  | exited (status : ℕ)
  | killed (sig : Signal)
deriving DecidableEq, Repr

def Pc.alive : Pc → Bool
  | .exited _ => false
  | .killed _ => false
  | _ => true

/-- Where a call of `siginfoHandler` is. -/
inductive Handler where
  | entry (si : SigInfo)
  | sleeping
deriving DecidableEq, Repr

/-- The process. `mask` says whether `blockMask` is in force, and not `prevMask`. -/
structure State where
  pc : Pc
  mask : Bool
  pending : List SigInfo
  handler : Option Handler
  allDone : Bool
  sigCnt : BitVec 32
  stdout : List UInt8
  stderr : List UInt8
deriving DecidableEq, Repr

/-- A signal is sent, at the limit of the queued signals if `full`; it is delivered; or the program
goes on. -/
inductive Act where
  | send (si : SigInfo) (full : Bool)
  | deliver (sig : Signal)
  | handler
  | main (ok : Bool)
deriving DecidableEq, Repr

/-- The signals that set `allDone`. -/
def stops (sig : Signal) : Bool := decide (sig = .SIGINT ∨ sig = .SIGTERM)

/-- `siginfoHandler` is installed for `sig`: the loop leaves out SIGSTOP and SIGQUIT, and the call
fails for SIGKILL and for the two realtime signals the C library keeps to itself. -/
def caught (sig : Signal) : Bool :=
  decide (sig ≠ .SIGSTOP ∧ sig ≠ .SIGQUIT ∧ sig ≠ .SIGKILL ∧ sig.num ≠ 32 ∧ sig.num ≠ 33)

/-- What the handler prints. -/
def caughtText (si : SigInfo) : List UInt8 :=
  str "caught a signal " ++ numeral si.si_signo.num ++ str "\n"
    ++ str "    si_signo=" ++ numeral si.si_signo.num ++ str ", si_code=" ++ intNumeral si.si_code
    ++ str " ("
    ++ (if si.si_code = SI_USER then str "SI_USER"
        else if si.si_code = SI_QUEUE then str "SI_QUEUE" else str "other")
    ++ str "), "
    ++ str "si_value=" ++ intNumeral si.si_value ++ str "\n"
    ++ str "    si_pid=" ++ numeral si.si_pid ++ str ", si_uid=" ++ numeral si.si_uid ++ str "\n"

section

-- the name and the first argument of the program, and the signal mask it was started with
variable (argv0 argv1 : List UInt8) (prevMask : Signal → Bool)

/-- During the handler everything is blocked. -/
def State.blocks (s : State) (sig : Signal) : Bool :=
  if sig.unblockable then false
  else if s.handler ≠ none then true
  else if s.mask then !stops sig
  else prevMask sig

/-- The end of a call of the handler: `pause` returns if it was interrupted. -/
def State.handlerReturn (s : State) : State :=
  { s with handler := none, pc := if s.pc = .paused then .loop else s.pc }

/-- `perror("sigprocmask")` and `exit(EXIT_FAILURE)`. -/
def State.fail (s : State) : State :=
  { s with pc := .exited 1, stderr := s.stderr ++ str "sigprocmask" }

/-- The main program; `ok` is the outcome of `sigprocmask`. -/
def State.main (s : State) (ok : Bool) : Option State :=
  match s.pc with
  | .block => some (if ok then { s with mask := true, pc := .printBlocked } else s.fail)
  | .printBlocked =>
      some { s with
        stdout := s.stdout ++ argv0 ++ str ": signals blocked - sleeping " ++ argv1
          ++ str " seconds\n"
        pc := .sleep }
  | .sleep => some { s with pc := .printSlept }
  | .printSlept =>
      some { s with stdout := s.stdout ++ argv0 ++ str ": sleep complete\n", pc := .unblock }
  | .unblock => some (if ok then { s with mask := false, pc := .loop } else s.fail)
  | .loop => some { s with pc := if s.allDone then .printCount else .pauseCall }
  | .pauseCall => some { s with pc := .paused }
  | .printCount =>
      some { s with
        stdout := s.stdout ++ str "Caught " ++ intNumeral s.sigCnt.toInt ++ str " signals\n"
        pc := .exited 0 }
  | _ => none

/-- A signal is delivered when it is not blocked. SIGSTOP is taken to have no effect: a process
that is stopped takes no step. -/
def State.next (s : State) : Act → Option State
  | .send si full => some { s with pending := addPending full s.pending si }
  | .deliver sig =>
      -- of several such signals, any one may come first
      if s.pc.alive = true ∧ s.blocks prevMask sig = false then
        (takePending s.pending sig).map fun taken =>
          if caught sig then { s with pending := taken.2, handler := some (.entry taken.1) }
          else if sig = .SIGSTOP then { s with pending := taken.2 }
          else { s with pending := taken.2, handler := none, pc := .killed sig }
      else none
  | .handler =>
      match s.handler with
      | none => none
      | some (.entry si) =>
          -- for SIGINT and SIGTERM the handler returns at once, and does not count them
          if stops si.si_signo then some { s with allDone := true }.handlerReturn
          else
            some { s with
              sigCnt := s.sigCnt + 1
              stdout := s.stdout ++ caughtText si
              handler := some .sleeping }
      | some .sleeping => some s.handlerReturn
  | .main ok => if s.handler = none then s.main argv0 argv1 ok else none

/-- Where the handlers are installed; signals may be pending, or may have been handled already. -/
structure Start (s : State) : Prop where
  pc : s.pc = .block
  mask : s.mask = false
  handler : s.handler = none

def system : TransSys State Act := ⟨Start, State.next argv0 argv1 prevMask⟩

end

/-! ## The steps -/

variable {argv0 argv1 : List UInt8} {prevMask : Signal → Bool} {s t : State} {a : Act} {ok : Bool}

/-- What the main program does to the rest: nothing; and how it comes to `pause`. -/
theorem main_cases (h : s.main argv0 argv1 ok = some t) :
    t.handler = s.handler ∧ t.allDone = s.allDone ∧
      (t.pc = .pauseCall → s.allDone = false) ∧ (t.pc = .paused → s.pc = .pauseCall) := by
  unfold State.main at h
  split at h <;> rename_i hpc <;> cases h
  -- the test of `allDone`, and the step into `pause`
  case h_6 => by_cases hdone : s.allDone = true <;> simp [hdone]
  case h_7 => simp [hpc]
  all_goals cases ok <;> simp [State.fail]

/-- Everything that is not a step of the main program. -/
inductive Step (argv0 argv1 : List UInt8) (s : State) : Act → State → Prop
  | send (si : SigInfo) (full : Bool) :
      Step argv0 argv1 s (.send si full) { s with pending := addPending full s.pending si }
  | caught {sig : Signal} {si : SigInfo} {rest : List SigInfo} (hsig : si.si_signo = sig) :
      Step argv0 argv1 s (.deliver sig) { s with pending := rest, handler := some (.entry si) }
  | ignored {sig : Signal} {rest : List SigInfo} (hcaught : caught sig = false) :
      Step argv0 argv1 s (.deliver sig) { s with pending := rest }
  | killed {sig : Signal} {rest : List SigInfo} (hcaught : caught sig = false) :
      Step argv0 argv1 s (.deliver sig)
        { s with pending := rest, handler := none, pc := .killed sig }
  | stop {si : SigInfo} (hhandler : s.handler = some (.entry si))
      (hstops : stops si.si_signo = true) :
      Step argv0 argv1 s .handler { s with allDone := true }.handlerReturn
  | count {si : SigInfo} (hhandler : s.handler = some (.entry si))
      (hstops : stops si.si_signo = false) :
      Step argv0 argv1 s .handler
        { s with
          sigCnt := s.sigCnt + 1
          stdout := s.stdout ++ caughtText si
          handler := some .sleeping }
  | wake (hhandler : s.handler = some .sleeping) : Step argv0 argv1 s .handler s.handlerReturn
  | main {ok : Bool} {t : State} (hhandler : s.handler = none)
      (hmain : s.main argv0 argv1 ok = some t) : Step argv0 argv1 s (.main ok) t

theorem next_cases (h : s.next argv0 argv1 prevMask a = some t) :
    Step argv0 argv1 s a t := by
  cases a with
  | send si full => exact Option.some.inj h ▸ .send si full
  | deliver sig =>
      rw [State.next] at h
      split at h
      · obtain ⟨⟨si, rest⟩, htaken, rfl⟩ := Option.map_eq_some_iff.mp h
        have hsig := (takePending_eq_some htaken).1
        by_cases hcaught : caught sig = true
        · rw [if_pos hcaught]
          exact .caught hsig
        · rw [if_neg hcaught]
          rw [Bool.not_eq_true] at hcaught
          split
          · exact .ignored hcaught
          · exact .killed hcaught
      · cases h
  | handler =>
      rw [State.next] at h
      split at h
      · cases h
      · rename_i si hhandler
        split at h
        · rename_i hstops
          exact Option.some.inj h ▸ .stop hhandler hstops
        · rename_i hstops
          exact Option.some.inj h ▸ .count hhandler (by simpa using hstops)
      · rename_i hhandler
        exact Option.some.inj h ▸ .wake hhandler
  | main ok =>
      rw [State.next] at h
      split at h
      · rename_i hhandler
        exact .main hhandler h
      · cases h

/-! ## Sleeping for ever -/

/-- The process was told to stop and sleeps in `pause`, and no signal is there to wake it. -/
structure Stuck (s : State) : Prop where
  told : s.allDone = true
  asleep : s.pc = .paused ∧ s.handler = none
  quiet : s.pending = []

/-- No SIGINT or SIGTERM is handled between the test of `allDone` and `pause`. -/
def NotBetween (s : State) (a : Act) : Prop :=
  ∀ sig, a = .deliver sig → s.pc = .pauseCall → stops sig = false

/-- On the way into `pause`, `allDone` is not set. -/
structure Awake (s : State) : Prop where
  pauseCall : s.pc = .pauseCall → s.allDone = false
  handler : s.pc = .pauseCall → ∀ si, s.handler = some (.entry si) → stops si.si_signo = false
  paused : s.pc = .paused → s.handler = none → s.allDone = false

theorem handlerReturn_pc_ne_paused (s : State) : s.handlerReturn.pc ≠ .paused := by
  unfold State.handlerReturn
  split <;> simp_all

theorem pc_of_handlerReturn (h : s.handlerReturn.pc = .pauseCall) : s.pc = .pauseCall := by
  unfold State.handlerReturn at h
  split at h <;> simp_all

/-- A handler that returns has interrupted `pause`, or has `allDone` as it was before. -/
theorem awake_handlerReturn (h : s.pc = .pauseCall → s.allDone = false) :
    Awake s.handlerReturn where
  pauseCall hpc := h (pc_of_handlerReturn hpc)
  handler _ _ hhandler := nomatch hhandler
  paused hpc := absurd hpc (handlerReturn_pc_ne_paused s)

theorem awake_step (hs : Awake s) (hC : NotBetween s a)
    (hstep : Step argv0 argv1 s a t) : Awake t := by
  cases hstep with
  | send si full => exact ⟨hs.pauseCall, hs.handler, hs.paused⟩
  | caught hsig =>
      refine ⟨hs.pauseCall, fun hpc si' hsi => ?_, fun _ h => nomatch h⟩
      obtain rfl := Handler.entry.inj (Option.some.inj hsi)
      rw [hsig]
      exact hC _ rfl hpc
  | ignored _ => exact ⟨hs.pauseCall, hs.handler, hs.paused⟩
  | killed _ => exact ⟨(nomatch ·), (nomatch ·), (nomatch ·)⟩
  | stop hhandler hstops =>
      -- before `pause` the condition excludes this handler
      refine awake_handlerReturn fun hpc => ?_
      rw [hs.handler hpc _ hhandler] at hstops
      cases hstops
  | count hhandler hstops =>
      exact ⟨hs.pauseCall, fun _ _ h => (nomatch h), fun _ h => (nomatch h)⟩
  | wake hhandler => exact awake_handlerReturn hs.pauseCall
  | main hhandler hmain =>
      obtain ⟨hhandler', hdone, hcall, hpaused⟩ := main_cases hmain
      rw [hhandler] at hhandler'
      refine ⟨fun h => ?_, fun _ si h => ?_, fun h _ => ?_⟩
      · rw [hdone]
        exact hcall h
      · rw [hhandler'] at h
        cases h
      · rw [hdone]
        exact hs.pauseCall (hpaused h)

theorem caught_of_stops {sig : Signal} (h : stops sig = true) : caught sig = true := by
  rcases of_decide_eq_true h with rfl | rfl <;> decide

/-- A SIGINT or SIGTERM that is handled before `pause`, with no other signal to follow, leaves the
process asleep. -/
theorem stuck_of_between (hpc : s.pc = .pauseCall) {sig : Signal} (hstops : stops sig = true)
    (hnext : s.next argv0 argv1 prevMask (.deliver sig) = some t) (hquiet : t.pending = []) :
    ∃ u, (system argv0 argv1 prevMask).run t [.handler, .main true] = some u ∧ Stuck u := by
  cases next_cases hnext with
  | ignored hcaught | killed hcaught =>
      rw [caught_of_stops hstops] at hcaught
      cases hcaught
  | @caught _ si rest hsig =>
      refine ⟨{ s with pending := rest, handler := none, allDone := true, pc := .paused }, ?_,
        rfl, ⟨rfl, rfl⟩, hquiet⟩
      simp [TransSys.run, system, State.next, hsig, hstops, State.handlerReturn, hpc, State.main]

/-- **Sleeping after being told to stop.** In a run in which no SIGINT or SIGTERM is handled between
the test of `allDone` and `pause`, the process never sleeps with `allDone` set and no signal
pending. If one is handled there and no signal follows, it does. -/
theorem not_stuck_of_not_between {s₀ : State} {as : List Act}
    (h₀ : (system argv0 argv1 prevMask).Init s₀)
    (hrun : (system argv0 argv1 prevMask).run s₀ as = some s) :
    ((system argv0 argv1 prevMask).Meets NotBetween s₀ as → ¬ Stuck s) ∧
      ∀ sig t, s.pc = .pauseCall → stops sig = true →
        s.next argv0 argv1 prevMask (.deliver sig) = some t → t.pending = [] →
        ∃ u, (system argv0 argv1 prevMask).run s₀ (as ++ [.deliver sig, .handler, .main true])
          = some u ∧ Stuck u := by
  have hstart : Start s₀ := h₀
  constructor
  · intro hmeets hstuck
    have hawake : Awake s₀ := by constructor <;> simp [hstart.pc]
    have hinv := TransSys.run_preserves_of_meets (P := Awake)
      (fun _ _ _ hs hC hnext => awake_step hs hC (next_cases hnext)) hawake hmeets hrun
    have hdone := hinv.paused hstuck.asleep.1 hstuck.asleep.2
    rw [hstuck.told] at hdone
    cases hdone
  · intro sig t hpc hstops hnext hquiet
    obtain ⟨u, hu, hstuck⟩ := stuck_of_between hpc hstops hnext hquiet
    refine ⟨u, ?_, hstuck⟩
    have hstep : (system argv0 argv1 prevMask).step s (.deliver sig) = some t := hnext
    rw [TransSys.run_append, hrun, Option.bind_some, TransSys.run_cons, hstep, Option.bind_some, hu]

/-- A SIGTERM sent by `kill`. -/
def sigterm : SigInfo := ⟨.SIGTERM, 0, 0, 1, 0⟩

def started : State := ⟨.block, false, [], none, false, 0, [], []⟩

/-- The run up to the test of `allDone`. -/
def setup : List Act := List.replicate 5 (.main true)

/-- The program without arguments to print, and with no signal blocked before. -/
def plain : TransSys State Act := system [] [] fun _ => false

def ready : State :=
  { started with
    pc := .loop
    stdout := str ": signals blocked - sleeping  seconds\n" ++ str ": sleep complete\n" }

theorem run_setup : plain.run started setup = some ready := by decide

/-- SIGTERM before the call of `pause`, or in it. -/
def beforePause : List Act :=
  [.main true, .send sigterm false, .deliver .SIGTERM, .handler, .main true]

def inPause : List Act :=
  [.main true, .main true, .send sigterm false, .deliver .SIGTERM, .handler]

/-- SIGTERM in `pause`: the program goes on. -/
theorem sigterm_in_pause :
    ∃ s, plain.run started (setup ++ inPause) = some s ∧ s.allDone = true ∧ ¬ Stuck s := by
  have hrun : plain.run started (setup ++ inPause) = some { ready with allDone := true } := by
    rw [TransSys.run_append, run_setup]
    rfl
  have hsetup : plain.Meets NotBetween started setup :=
    .of_labels (fun a ha s sig h => by rw [List.eq_of_mem_replicate ha] at h; cases h) _
  have hpause : plain.Meets NotBetween ready inPause := by
    refine .cons (fun _ h => nomatch h) rfl (.cons (fun _ h => nomatch h) rfl ?_)
    refine .cons (fun _ h => nomatch h) rfl (.cons (fun _ _ hpc => nomatch hpc) rfl ?_)
    exact .cons (fun _ h => nomatch h) rfl trivial
  exact ⟨_, hrun, rfl, (not_stuck_of_not_between ⟨rfl, rfl, rfl⟩ hrun).1
    (hsetup.append run_setup hpause)⟩

/-- SIGTERM before `pause`: the program sleeps. -/
theorem sigterm_before_pause :
    ¬ ∀ argv0 argv1 prevMask s, (system argv0 argv1 prevMask).Reachable s → ¬ Stuck s := by
  intro h
  have hrun : plain.run started (setup ++ beforePause)
      = some { ready with pc := .paused, allDone := true } := by
    rw [TransSys.run_append, run_setup]
    rfl
  exact h [] [] (fun _ => false) _ ⟨_, _, ⟨rfl, rfl, rfl⟩, hrun⟩ ⟨rfl, ⟨rfl, rfl⟩, rfl⟩

end Tlpi.CatchRtsigs
