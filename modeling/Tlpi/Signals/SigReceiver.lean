import Tlpi.Lib.Decimal
import Tlpi.Lib.Transition
import Tlpi.Posix.Signals
import Tlpi.Posix.Strtol

set_option autoImplicit false

/-! # Counting signals (signals/sig_receiver.c, signals/signal_functions.c)

The program installs one handler for all signals; the handler counts the signals, but for SIGINT,
which ends the main loop. With an argument the program first blocks all signals for a while and
reports which are pending.

`signal` blocks a signal while its own handler runs, and no other one, so that handlers of different
signals interrupt each other. The increment `sigCnt[sig]++` is two steps here, a load and a store,
and a handler may be interrupted between them.
-/

namespace Tlpi.SigReceiver

open Decimal

/-- The signals 1, ..., `NSIG` - 1, as the `for` loops go through them. -/
def signals : List Signal :=
  (List.finRange 64).map fun i => ⟨i.val + 1, Nat.le_add_left 1 i.val, i.isLt⟩

/-- `signal` succeeds: not for SIGKILL and SIGSTOP, and not for the two realtime signals the C
library keeps to itself, which cannot be blocked either. -/
def catchable (sig : Signal) : Bool :=
  decide (sig ≠ .SIGKILL ∧ sig ≠ .SIGSTOP ∧ sig.num ≠ 32 ∧ sig.num ≠ 33)

/-- The signals whose default action does not end the process: SIGCHLD, SIGCONT, the four that stop
it, SIGURG and SIGWINCH. -/
def harmless (sig : Signal) : Bool := decide (sig.num ∈ [17, 18, 19, 20, 21, 22, 23, 28])

/-- Where a call of `sigHandler` is; `loaded` holds the value of `sigCnt[sig]` to be incremented. -/
inductive Stage where
  | entry
  | loaded (count : BitVec 32)
  | done
deriving DecidableEq, Repr

structure Frame where
  sig : Signal
  stage : Stage
deriving DecidableEq, Repr

inductive Pc where
  | greet
  | install (rest : List Signal)
  | block
  | printSleep
  | sleep
  | sigpending
  | printPending (set : List Signal)
  | unblock
  | loop
  | display (rest : List Signal)
  | exited (status : ℕ)
  | killed (sig : Signal)
deriving DecidableEq, Repr

def Pc.alive : Pc → Bool
  | .exited _ => false
  | .killed _ => false
  | _ => true

/-- The process. `stack` are the calls of the handler that have not returned, the last one first.
The last six fields only record how often each signal was sent, how often the handler was called
for it, how often one that was sent came to nothing, because it was pending already, because no
handler was installed or because a signal discarded it, and whether one was sent at the limit of the
queued signals. -/
structure State where
  pc : Pc
  handled : List Signal
  mask : Signal → Bool
  stack : List Frame
  pending : List SigInfo
  sigCnt : Signal → BitVec 32
  gotSigint : Bool
  stdout : List UInt8
  sent : Signal → ℕ
  called : Signal → ℕ
  merged : Signal → ℕ
  discarded : Signal → ℕ
  cancelled : Signal → ℕ
  limited : Signal → Bool

/-- A signal is sent, at the limit of the queued signals if `full`; it is delivered; or the handler
or `main` goes on. -/
inductive Act where
  | send (si : SigInfo) (full : Bool)
  | deliver (sig : Signal)
  | handler
  | main (ok : Bool)
deriving DecidableEq, Repr

/-- `f` with one more for `sig`. -/
def bump (f : Signal → ℕ) (sig : Signal) : Signal → ℕ := Function.update f sig (f sig + 1)

section

-- the name of the program, its argument if it has one, its process id, and the texts of the signals
variable (argv0 : List UInt8) (argv1 : Option (List UInt8)) (pid : ℕ) (strsignal : ℕ → List UInt8)

/-- `printSigset`: a line for each signal of the set, in the order of the numbers. -/
def printSigset (pre : List UInt8) (set : List Signal) : List UInt8 :=
  let members := signals.filter fun sig => decide (sig ∈ set)
  if members = [] then pre ++ str "<empty signal set>\n"
  else members.flatMap fun sig =>
    pre ++ numeral sig.num ++ str " (" ++ strsignal sig.num ++ str ")\n"

/-- The line for a signal that was caught. -/
def caughtLine (sig : Signal) (count : BitVec 32) : List UInt8 :=
  argv0 ++ str " signal " ++ numeral sig.num ++ str " caught " ++ intNumeral count.toInt
    ++ str " time" ++ (if count = 1 then [] else str "s") ++ str "\n"

def State.print (s : State) (text : List UInt8) : State := { s with stdout := s.stdout ++ text }

/-- A step of `main`; `ok` is whether `sigprocmask` or `sigpending` succeeds. -/
def State.main (s : State) (ok : Bool) : Option State :=
  match s.pc with
  | .greet =>
      some { s.print (argv0 ++ str ": PID is " ++ numeral pid ++ str "\n") with
        pc := .install signals }
  | .install (sig :: rest) =>
      some { s with
        pc := .install rest
        handled := if catchable sig then sig :: s.handled else s.handled }
  | .install [] => some { s with pc := if argv1.isSome then .block else .loop }
  | .block =>
      if ok then
        some { s with pc := .printSleep, mask := fun sig => s.mask sig || catchable sig }
      else some { s with pc := .exited 1 }
  | .printSleep =>
      some { s.print (argv0 ++ str ": sleeping for " ++ intNumeral (atoi (argv1.getD [])).toInt
        ++ str " seconds\n") with pc := .sleep }
  | .sleep => some { s with pc := .sigpending }
  | .sigpending =>
      if ok then some { s with pc := .printPending (s.pending.map SigInfo.si_signo) }
      else some { s with pc := .exited 1 }
  | .printPending set =>
      some { s.print (argv0 ++ str ": pending signals are: \n"
        ++ printSigset strsignal (str "\t\t") set) with pc := .unblock }
  | .unblock =>
      if ok then some { s with pc := .loop, mask := fun _ => false }
      else some { s with pc := .exited 1 }
  | .loop => some { s with pc := if s.gotSigint then .display signals else .loop }
  | .display (sig :: rest) =>
      some { s.print (if s.sigCnt sig = 0 then [] else caughtLine argv0 sig (s.sigCnt sig)) with
        pc := .display rest }
  | .display [] => some { s with pc := .exited 0 }
  | _ => none

/-- A step of the call of `sigHandler` that runs. -/
def State.handler (s : State) : Option State :=
  match s.stack with
  | [] => none
  | ⟨sig, .entry⟩ :: stack =>
      if sig = .SIGINT then some { s with gotSigint := true, stack := ⟨sig, .done⟩ :: stack }
      else some { s with stack := ⟨sig, .loaded (s.sigCnt sig)⟩ :: stack }
  | ⟨sig, .loaded count⟩ :: stack =>
      some { s with
        sigCnt := Function.update s.sigCnt sig (count + 1)
        stack := ⟨sig, .done⟩ :: stack }
  | ⟨_, .done⟩ :: stack => some { s with stack := stack }

/-- The signals that may not be delivered now. -/
def State.blocks (s : State) (sig : Signal) : Bool :=
  !sig.unblockable && (s.mask sig || decide (sig ∈ s.stack.map Frame.sig))

def State.deliver (s : State) (sig : Signal) (rest : List SigInfo) : State :=
  if sig ∈ s.handled then
    { s with pending := rest, stack := ⟨sig, .entry⟩ :: s.stack, called := bump s.called sig }
  else
    { s with
      pending := rest
      discarded := bump s.discarded sig
      pc := if harmless sig then s.pc else .killed sig }

def State.send (s : State) (si : SigInfo) (full : Bool) : State :=
  { s with
    pending := addPending full s.pending si
    sent := bump s.sent si.si_signo
    merged := if Merges full s.pending si then bump s.merged si.si_signo else s.merged
    cancelled := fun sig =>
      s.cancelled sig + if si.si_signo.discards sig then pendingCount s.pending sig else 0
    limited := if full then Function.update s.limited si.si_signo true else s.limited }

def next (s : State) : Act → Option State
  | .send si full =>
      if s.pc.alive = true ∧ si.Sendable full then some (s.send si full) else none
  | .deliver sig =>
      if s.pc.alive = true ∧ s.blocks sig = false then
        (takePending s.pending sig).map fun taken => s.deliver sig taken.2
      else none
  | .handler => if s.pc.alive then s.handler else none
  | .main ok => if s.stack = [] then s.main argv0 argv1 pid strsignal ok else none

/-- Before `main` runs no handler is installed; signals may be pending already. -/
structure Start (s : State) : Prop where
  pc : s.pc = .greet
  handled : s.handled = []
  stack : s.stack = []
  sigCnt : ∀ sig, s.sigCnt sig = 0
  gotSigint : s.gotSigint = false
  sent : ∀ sig, s.sent sig = pendingCount s.pending sig
  once : ∀ sig, sig.isRealtime = false → pendingCount s.pending sig ≤ 1
  called : ∀ sig, s.called sig = 0
  merged : ∀ sig, s.merged sig = 0
  discarded : ∀ sig, s.discarded sig = 0
  cancelled : ∀ sig, s.cancelled sig = 0
  limited : ∀ sig, .bare sig ∈ s.pending → s.limited sig = true

def system : TransSys State Act where
  Init := Start
  step := next argv0 argv1 pid strsignal

end

variable {argv0 : List UInt8} {argv1 : Option (List UInt8)} {pid : ℕ} {strsignal : ℕ → List UInt8}
variable {s t : State} {a : Act} {ok : Bool}

/-! ## No count is lost -/

/-- The calls of the handler for `sig` that have not stored the new count yet. -/
def active (stack : List Frame) (sig : Signal) : ℕ :=
  stack.countP fun f => decide (f.sig = sig ∧ f.stage ≠ .done)

theorem active_cons (f : Frame) (stack : List Frame) (sig : Signal) :
    active (f :: stack) sig =
      active stack sig + if f.sig = sig ∧ f.stage ≠ .done then 1 else 0 := by
  rw [active, List.countP_cons]
  simp only [decide_eq_true_eq]
  rfl

theorem active_eq_zero {stack : List Frame} {sig : Signal} (h : sig ∉ stack.map Frame.sig) :
    active stack sig = 0 := by
  rw [active, List.countP_eq_zero]
  intro f hf hactive
  exact h (List.mem_map.mpr ⟨f, hf, (of_decide_eq_true hactive).1⟩)

/-- The counts are those of the calls of the handler, but for the calls that have not stored the new
count yet. There is one such call for a signal at most, and the count it has loaded is still the
one in the array. -/
structure Tally (stack : List Frame) (sigCnt : Signal → BitVec 32) (called : Signal → ℕ) :
    Prop where
  nodup : (stack.map Frame.sig).Nodup
  loaded : ∀ f ∈ stack, ∀ count, f.stage = .loaded count → f.sig ≠ .SIGINT ∧ count = sigCnt f.sig
  counts : ∀ sig, sig ≠ .SIGINT →
    sigCnt sig + BitVec.ofNat 32 (active stack sig) = BitVec.ofNat 32 (called sig)
  sigint : sigCnt .SIGINT = 0

section

variable {stack : List Frame} {sigCnt : Signal → BitVec 32} {called : Signal → ℕ} {sig : Signal}

/-- A signal is delivered. -/
theorem Tally.push (h : Tally stack sigCnt called) (hnot : sig ∉ stack.map Frame.sig) :
    Tally (⟨sig, .entry⟩ :: stack) sigCnt (bump called sig) := by
  refine ⟨List.nodup_cons.mpr ⟨hnot, h.nodup⟩, fun f hf count hstage => ?_, fun sig' hint => ?_,
    h.sigint⟩
  · rcases List.mem_cons.mp hf with rfl | hf
    · cases hstage
    · exact h.loaded f hf count hstage
  · have hcounts := h.counts sig' hint
    by_cases hsig : sig' = sig
    · subst hsig
      have hactive : active (⟨sig', .entry⟩ :: stack) sig' = 1 := by
        rw [active_cons, active_eq_zero hnot, if_pos ⟨rfl, nofun⟩]
      rw [active_eq_zero hnot] at hcounts
      rw [hactive, bump, Function.update_self, BitVec.ofNat_add, ← hcounts]
      simp
    · rw [active_cons, if_neg fun hs => hsig hs.1.symm, bump, Function.update_of_ne hsig]
      exact hcounts

/-- The frame on the top changes its stage without changing a count. -/
theorem Tally.top {stage stage' : Stage} (h : Tally (⟨sig, stage⟩ :: stack) sigCnt called)
    (hloaded : ∀ count, stage' = .loaded count → sig ≠ .SIGINT ∧ count = sigCnt sig)
    (hactive : sig ≠ .SIGINT → (stage' = .done ↔ stage = .done)) :
    Tally (⟨sig, stage'⟩ :: stack) sigCnt called := by
  refine ⟨h.nodup, fun f hf count hstage => ?_, fun sig' hint => ?_, h.sigint⟩
  · rcases List.mem_cons.mp hf with rfl | hf
    · exact hloaded count hstage
    · exact h.loaded f (List.mem_cons_of_mem _ hf) count hstage
  · have hcounts := h.counts sig' hint
    rw [active_cons] at hcounts ⊢
    by_cases hsig : sig = sig'
    · subst hsig
      simpa [hactive hint] using hcounts
    · rw [if_neg fun hs => hsig hs.1] at hcounts ⊢
      exact hcounts

/-- The store: no frame below is for the same signal. -/
theorem Tally.store {count : BitVec 32}
    (h : Tally (⟨sig, .loaded count⟩ :: stack) sigCnt called) :
    Tally (⟨sig, .done⟩ :: stack) (Function.update sigCnt sig (count + 1)) called := by
  obtain ⟨hint, hcount⟩ := h.loaded _ List.mem_cons_self count rfl
  have hnot : sig ∉ stack.map Frame.sig := (List.nodup_cons.mp h.nodup).1
  refine ⟨h.nodup, fun f hf count' hstage => ?_, fun sig' hne => ?_, ?_⟩
  · rcases List.mem_cons.mp hf with rfl | hbelow
    · cases hstage
    · have hother : f.sig ≠ sig := fun hsame => hnot (hsame ▸ List.mem_map_of_mem hbelow)
      rw [Function.update_of_ne hother]
      exact h.loaded f (List.mem_cons_of_mem _ hbelow) count' hstage
  · have hcounts := h.counts sig' hne
    by_cases hsig : sig' = sig
    · subst hsig
      rw [active_cons, active_eq_zero hnot, if_pos ⟨rfl, nofun⟩] at hcounts
      rw [active_cons, active_eq_zero hnot, if_neg fun hs => hs.2 rfl, Function.update_self,
        hcount, ← hcounts]
      simp
    · rw [active_cons, if_neg fun hs => hsig hs.1.symm] at hcounts ⊢
      rw [Function.update_of_ne hsig]
      exact hcounts
  · rw [Function.update_of_ne (Ne.symm hint)]
    exact h.sigint

/-- The handler returns. -/
theorem Tally.pop (h : Tally (⟨sig, .done⟩ :: stack) sigCnt called) :
    Tally stack sigCnt called := by
  refine ⟨(List.nodup_cons.mp h.nodup).2, fun f hf => h.loaded f (List.mem_cons_of_mem _ hf),
    fun sig' hint => ?_, h.sigint⟩
  have hcounts := h.counts sig' hint
  rwa [active_cons, if_neg fun hs => hs.2 rfl] at hcounts

end

/-- Every signal that was sent is accounted for. -/
structure Inv (s : State) : Prop where
  handled : ∀ sig ∈ s.handled, catchable sig = true
  tally : Tally s.stack s.sigCnt s.called
  account : ∀ sig, s.called sig + pendingCount s.pending sig + s.merged sig + s.discarded sig +
    s.cancelled sig = s.sent sig
  queued : ∀ sig, sig.isRealtime = true → s.limited sig = false → s.merged sig = 0
  lasting : ∀ sig, sig.lasting = true → s.cancelled sig = 0
  bare : ∀ sig, .bare sig ∈ s.pending → s.limited sig = true
  once : ∀ sig, sig.isRealtime = false → pendingCount s.pending sig ≤ 1

theorem Start.inv (h : Start s) : Inv s where
  handled sig hsig := by rw [h.handled] at hsig; cases hsig
  tally := by
    rw [h.stack]
    refine ⟨List.nodup_nil, nofun, fun sig _ => ?_, h.sigCnt _⟩
    rw [h.sigCnt, h.called]
    rfl
  account sig := by rw [h.called, h.merged, h.discarded, h.cancelled, h.sent]; omega
  queued sig _ _ := h.merged sig
  lasting sig _ := h.cancelled sig
  bare := h.limited
  once := h.once

theorem bump_self (f : Signal → ℕ) (sig : Signal) : bump f sig sig = f sig + 1 := by
  rw [bump, Function.update_self]

theorem bump_of_ne (f : Signal → ℕ) {sig sig' : Signal} (h : sig' ≠ sig) :
    bump f sig sig' = f sig' := by
  rw [bump, Function.update_of_ne h]

theorem send_limited (s : State) (si : SigInfo) (full : Bool) (sig : Signal) :
    (s.send si full).limited sig =
      (s.limited sig || (full && decide (si.si_signo = sig))) := by
  cases full with
  | false => simp [State.send]
  | true =>
      by_cases h : sig = si.si_signo
      · simp [State.send, h]
      · simp [State.send, Function.update_of_ne h, Ne.symm h]

/-- A signal that is sent is pending afterwards or merged with one that was; it discards others. -/
theorem Inv.send (h : Inv s) {si : SigInfo} {full : Bool} (hsend : si.Sendable full) :
    Inv (s.send si full) := by
  refine ⟨h.handled, h.tally, fun sig => ?_, fun sig hsig hlimited => ?_, fun sig hsig => ?_,
    fun sig hmem => ?_, fun sig hsig => ?_⟩
  · have hacc := h.account sig
    by_cases hne : sig = si.si_signo
    · subst hne
      simp only [State.send, bump_self, pendingCount_addPending, Signal.not_discards_self,
        Bool.false_eq_true, if_false]
      split
      · rw [bump_self]
        omega
      · omega
    · simp only [State.send, bump_of_ne _ hne, pendingCount_addPending_of_ne _ _ (Ne.symm hne)]
      have hmerged : (if Merges full s.pending si then bump s.merged si.si_signo
          else s.merged) sig = s.merged sig := by
        split
        · exact bump_of_ne _ hne
        · rfl
      rw [hmerged]
      split <;> omega
  · rw [send_limited, Bool.or_eq_false_iff] at hlimited
    have hzero := h.queued sig hsig hlimited.1
    simp only [State.send]
    split
    · rename_i hmerge
      rw [bump_of_ne _ ?_, hzero]
      rintro rfl
      rcases hmerge.2 hsig with hfull | hmem
      · rw [hfull] at hlimited
        simp at hlimited
      · rw [h.bare _ hmem] at hlimited
        exact nomatch hlimited.1
    · exact hzero
  · simp only [State.send, Signal.not_discards_of_lasting _ hsig, Bool.false_eq_true, if_false,
      Nat.add_zero]
    exact h.lasting sig hsig
  · rw [send_limited]
    rcases bare_mem_addPending hsend.1 hmem with hold | ⟨rfl, rfl⟩
    · rw [h.bare sig hold, Bool.true_or]
    · simp
  · have hone := h.once sig hsig
    by_cases hne : sig = si.si_signo
    · subst hne
      simp only [State.send, pendingCount_addPending]
      split
      · exact hone
      · rename_i hmerge
        have hnone : ¬ 0 < pendingCount s.pending si.si_signo := fun hpos =>
          hmerge ⟨hpos, fun hreal => nomatch hsig.symm.trans hreal⟩
        omega
    · simp only [State.send, pendingCount_addPending_of_ne _ _ (Ne.symm hne)]
      split
      · exact Nat.zero_le 1
      · exact hone

/-- A signal that can be caught is delivered only if it is neither in the mask nor being handled. -/
theorem not_blocks (sig : Signal) (hcatch : catchable sig = true) (hblocks : s.blocks sig = false) :
    s.mask sig = false ∧ sig ∉ s.stack.map Frame.sig := by
  simp only [catchable, decide_eq_true_eq] at hcatch
  have hblockable : sig.unblockable = false := by
    simp only [Signal.unblockable, decide_eq_false_iff_not, not_or]
    exact ⟨hcatch.1, hcatch.2.1⟩
  simpa only [State.blocks, hblockable, Bool.not_false, Bool.true_and, Bool.or_eq_false_iff,
    decide_eq_false_iff_not] using hblocks

theorem Inv.deliver (h : Inv s) {sig : Signal} {si : SigInfo} {rest : List SigInfo}
    (hblocks : s.blocks sig = false) (htake : takePending s.pending sig = some (si, rest)) :
    Inv (s.deliver sig rest) := by
  have hcount := pendingCount_takePending htake
  have honce : ∀ sig', sig'.isRealtime = false → pendingCount rest sig' ≤ 1 := by
    intro sig' hreal
    have hone := h.once sig' hreal
    rw [hcount sig'] at hone
    omega
  have hbare : ∀ sig', .bare sig' ∈ rest → s.limited sig' = true := by
    intro sig' hmem
    rw [(takePending_eq_some htake).2.2] at hmem
    exact h.bare sig' (List.mem_of_mem_erase hmem)
  -- one pending signal less, and one call of the handler or one discarded signal more
  have hacc : ∀ sig', s.called sig' + pendingCount rest sig' + s.merged sig' + s.discarded sig' +
      s.cancelled sig' + (if sig = sig' then 1 else 0) = s.sent sig' := by
    intro sig'
    have hacc := h.account sig'
    rw [hcount sig'] at hacc
    omega
  have hbump : ∀ (f : Signal → ℕ) (sig' : Signal),
      bump f sig sig' = f sig' + if sig = sig' then 1 else 0 := by
    intro f sig'
    by_cases hsig : sig' = sig
    · rw [hsig, bump_self, if_pos rfl]
    · rw [bump_of_ne f hsig, if_neg (Ne.symm hsig)]
      rfl
  by_cases hsig : sig ∈ s.handled
  · rw [State.deliver, if_pos hsig]
    refine ⟨h.handled, h.tally.push (not_blocks sig (h.handled sig hsig) hblocks).2,
      fun sig' => ?_, h.queued, h.lasting, hbare, honce⟩
    simp only [hbump]
    rw [← hacc sig']
    omega
  · rw [State.deliver, if_neg hsig]
    refine ⟨h.handled, h.tally, fun sig' => ?_, h.queued, h.lasting, hbare, honce⟩
    simp only [hbump]
    rw [← hacc sig']
    omega

theorem Inv.handler (h : Inv s) (hstep : s.handler = some t) : Inv t := by
  have htally := h.tally
  unfold State.handler at hstep
  split at hstep
  next => cases hstep
  next sig stack hstack =>
    rw [hstack] at htally
    split at hstep
    · rename_i hint
      obtain rfl := Option.some.inj hstep
      exact ⟨h.handled, htally.top nofun fun hne => absurd hint hne, h.account, h.queued, h.lasting,
        h.bare, h.once⟩
    · rename_i hint
      obtain rfl := Option.some.inj hstep
      refine ⟨h.handled, htally.top (fun count hcount => ?_) (fun _ => iff_of_false nofun nofun),
        h.account, h.queued, h.lasting, h.bare, h.once⟩
      exact ⟨hint, (Stage.loaded.inj hcount).symm⟩
  next sig count stack hstack =>
    rw [hstack] at htally
    obtain rfl := Option.some.inj hstep
    exact ⟨h.handled, htally.store, h.account, h.queued, h.lasting, h.bare, h.once⟩
  next sig stack hstack =>
    rw [hstack] at htally
    obtain rfl := Option.some.inj hstep
    exact ⟨h.handled, htally.pop, h.account, h.queued, h.lasting, h.bare, h.once⟩

/-- `main` touches neither the counts nor the pending signals. -/
theorem main_frame (h : s.main argv0 argv1 pid strsignal ok = some t) :
    ∃ pc handled mask stdout,
      t = { s with pc := pc, handled := handled, mask := mask, stdout := stdout } ∧
        ∀ sig ∈ handled, sig ∈ s.handled ∨ catchable sig = true := by
  unfold State.main at h
  split at h
  case h_2 sig rest hpc =>
    obtain rfl := Option.some.inj h
    refine ⟨_, _, _, _, rfl, fun sig' hsig' => ?_⟩
    split at hsig'
    · rename_i hcatch
      rcases List.mem_cons.mp hsig' with rfl | hsig'
      · exact Or.inr hcatch
      · exact Or.inl hsig'
    · exact Or.inl hsig'
  all_goals first
    | (obtain rfl := Option.some.inj h
       exact ⟨_, _, _, _, rfl, fun _ => Or.inl⟩)
    | (split at h <;> obtain rfl := Option.some.inj h <;>
        exact ⟨_, _, _, _, rfl, fun _ => Or.inl⟩)
    | cases h

theorem Inv.main (h : Inv s) (hstep : s.main argv0 argv1 pid strsignal ok = some t) : Inv t := by
  obtain ⟨pc, handled, mask, stdout, rfl, hhandled⟩ := main_frame hstep
  refine ⟨fun sig hsig => ?_, h.tally, h.account, h.queued, h.lasting, h.bare, h.once⟩
  rcases hhandled sig hsig with hsig | hcatch
  · exact h.handled sig hsig
  · exact hcatch

theorem Inv.next (h : Inv s) (hstep : next argv0 argv1 pid strsignal s a = some t) : Inv t := by
  cases a with
  | send si full =>
      simp only [SigReceiver.next] at hstep
      split at hstep
      · rename_i hsend
        obtain rfl := Option.some.inj hstep
        exact h.send hsend.2
      · cases hstep
  | deliver sig =>
      simp only [SigReceiver.next] at hstep
      split at hstep
      · rename_i hcan
        obtain ⟨⟨si, rest⟩, htake, rfl⟩ := Option.map_eq_some_iff.mp hstep
        exact h.deliver hcan.2 htake
      · cases hstep
  | handler =>
      simp only [SigReceiver.next] at hstep
      split at hstep
      · exact h.handler hstep
      · cases hstep
  | main ok =>
      simp only [SigReceiver.next] at hstep
      split at hstep
      · exact h.main hstep
      · cases hstep

variable {s₀ : State} {as : List Act}

/-- **No count is lost.** After every run, however the handlers have interrupted each other: unless
its handler is running, the count of a signal is the number of times its handler was called; every
signal that was sent has led to a call, is pending, was merged with one that was pending, found no
handler installed, or was pending and discarded. Only SIGCONT and the signals that stop a process
are ever discarded by another one, and a realtime signal is merged only if it was sent at the limit
of the queued signals. -/
theorem no_count_lost (h₀ : Start s₀)
    (hrun : (system argv0 argv1 pid strsignal).run s₀ as = some s) (sig : Signal) :
    (sig ≠ .SIGINT → sig ∉ s.stack.map Frame.sig →
      s.sigCnt sig = BitVec.ofNat 32 (s.called sig)) ∧
      s.called sig + pendingCount s.pending sig + s.merged sig + s.discarded sig +
        s.cancelled sig = s.sent sig ∧
      (sig.lasting = true → s.cancelled sig = 0) ∧
      (sig.isRealtime = true → s.limited sig = false → s.merged sig = 0) := by
  have h : Inv s := TransSys.run_preserves (fun _ _ _ h hstep => h.next hstep) h₀.inv hrun
  refine ⟨fun hint hnot => ?_, h.account sig, h.lasting sig, h.queued sig⟩
  have hcounts := h.tally.counts sig hint
  rw [active_eq_zero hnot] at hcounts
  simpa using hcounts

def sampleStart : State where
  pc := .greet
  handled := []
  mask _ := false
  stack := []
  pending := []
  sigCnt _ := 0
  gotSigint := false
  stdout := []
  sent _ := 0
  called _ := 0
  merged _ := 0
  discarded _ := 0
  cancelled _ := 0
  limited _ := false

theorem sampleStart_start : Start sampleStart where
  pc := rfl
  handled := rfl
  stack := rfl
  sigCnt _ := rfl
  gotSigint := rfl
  sent _ := rfl
  once _ _ := Nat.zero_le 1
  called _ := rfl
  merged _ := rfl
  discarded _ := rfl
  cancelled _ := rfl
  limited _ h := nomatch h

/-- The program with an argument. -/
def sampleSystem : TransSys State Act := system (str "r") (some (str "5")) 7 fun _ => str "?"

def sigusr1 : SigInfo := ⟨.SIGUSR1, 0, 0, 8, 0⟩

/-- The handlers are installed; SIGUSR1 arrives twice, the second time while its handler runs. -/
def twoSignals : List Act :=
  List.replicate 66 (.main true) ++
    [.send sigusr1 false, .deliver .SIGUSR1, .handler, .send sigusr1 false, .handler, .handler,
      .deliver .SIGUSR1, .handler, .handler, .handler]

theorem no_count_lost_twoSignals :
    ∃ s, sampleSystem.run sampleStart twoSignals = some s ∧ s.called .SIGUSR1 = 2 ∧
      s.sigCnt .SIGUSR1 = BitVec.ofNat 32 (s.called .SIGUSR1) := by
  have hrun : (sampleSystem.run sampleStart twoSignals).map
      (fun s => (s.called .SIGUSR1, s.stack)) = some (2, []) := by decide +kernel
  obtain ⟨s, hs, heq⟩ := Option.map_eq_some_iff.mp hrun
  obtain ⟨hcalled, hstack⟩ := Prod.mk.inj heq
  refine ⟨s, hs, hcalled, (no_count_lost sampleStart_start hs .SIGUSR1).1 nofun ?_⟩
  rw [hstack]
  exact List.not_mem_nil

/-! ## The signals that arrive while all are blocked -/

/-- The order of the places in `main`. -/
def Pc.rank : Pc → ℕ
  | .greet => 0
  | .install _ => 1
  | .block => 2
  | .printSleep => 3
  | .sleep => 4
  | .sigpending => 5
  | .printPending _ => 6
  | .unblock => 7
  | .loop => 8
  | .display _ => 9
  | .exited _ => 10
  | .killed _ => 10

theorem Pc.rank_le (pc : Pc) : pc.rank ≤ 10 := by cases pc <;> simp [Pc.rank]

theorem main_rank (h : s.main argv0 argv1 pid strsignal ok = some t) : s.pc.rank ≤ t.pc.rank := by
  unfold State.main at h
  split at h
  case h_13 => cases h
  case h_3 hpc =>
    obtain rfl := Option.some.inj h
    rw [hpc]
    simp only
    split <;> simp [Pc.rank]
  case h_10 hpc =>
    obtain rfl := Option.some.inj h
    rw [hpc]
    simp only
    split <;> simp [Pc.rank]
  all_goals first
    | (rename_i hpc
       obtain rfl := Option.some.inj h
       simp [hpc, Pc.rank])
    | (rename_i hpc
       split at h <;> obtain rfl := Option.some.inj h <;> simp [hpc, Pc.rank])

theorem handler_pc (h : s.handler = some t) : t.pc = s.pc := by
  unfold State.handler at h
  split at h
  next => cases h
  next => split at h <;> obtain rfl := Option.some.inj h <;> rfl
  next => obtain rfl := Option.some.inj h; rfl
  next => obtain rfl := Option.some.inj h; rfl

theorem next_rank (h : next argv0 argv1 pid strsignal s a = some t) : s.pc.rank ≤ t.pc.rank := by
  cases a with
  | send si full =>
      simp only [next] at h
      split at h
      · obtain rfl := Option.some.inj h
        exact le_refl _
      · cases h
  | deliver sig =>
      simp only [next] at h
      split at h
      · obtain ⟨⟨si, rest⟩, -, rfl⟩ := Option.map_eq_some_iff.mp h
        simp only [State.deliver]
        split
        · exact le_refl _
        · simp only
          split
          · exact le_refl _
          · exact s.pc.rank_le
      · cases h
  | handler =>
      simp only [next] at h
      split at h
      · rw [handler_pc h]
      · cases h
  | main ok =>
      simp only [next] at h
      split at h
      · exact main_rank h
      · cases h

theorem run_rank (h : (system argv0 argv1 pid strsignal).run s as = some t) :
    s.pc.rank ≤ t.pc.rank :=
  TransSys.run_preserves (P := fun u => s.pc.rank ≤ u.pc.rank)
    (fun _ _ _ hle hstep => le_trans hle (next_rank hstep)) (le_refl _) h

/-- All signals that can be blocked are, and no handler runs. -/
structure Waiting (s : State) : Prop where
  ge : 3 ≤ s.pc.rank
  le : s.pc.rank ≤ 5
  mask : ∀ sig, catchable sig = true → s.mask sig = true
  stack : s.stack = []

/-- The step sends `sig`. -/
def sends (sig : Signal) : Act → Bool
  | .send si _ => decide (si.si_signo = sig)
  | _ => false

/-- Whether `sig` is pending after a step in which it is blocked, if it was (`pending`). -/
def pends (sig : Signal) (pending : Bool) : Act → Bool
  | .send si _ => decide (si.si_signo = sig) || (pending && !si.si_signo.discards sig)
  | _ => pending

/-- A signal that no other one discards is pending from the time it is sent. -/
theorem foldl_pends {sig : Signal} (h : sig.lasting = true) (pending : Bool) (as : List Act) :
    as.foldl (pends sig) pending = (pending || decide (0 < as.countP (sends sig))) := by
  induction as generalizing pending with
  | nil => simp
  | cons a as ih =>
      have hstep : pends sig pending a = (pending || sends sig a) := by
        cases a with
        | send si full =>
            rw [pends, Signal.not_discards_of_lasting _ h, Bool.not_false, Bool.and_true,
              Bool.or_comm, sends]
        | _ => exact (Bool.or_false _).symm
      rw [List.foldl_cons, ih, hstep, List.countP_cons, Bool.or_assoc]
      congr 1
      cases hsends : sends sig a <;> simp

/-- How often `sig` is pending after it was sent `n` times more. -/
def queued (sig : Signal) (count n : ℕ) : ℕ :=
  if sig.isRealtime then count + n else min 1 (count + n)

theorem Waiting.cases (hw : Waiting s) :
    s.pc = .printSleep ∨ s.pc = .sleep ∨ s.pc = .sigpending := by
  have hge := hw.ge
  have hle := hw.le
  cases hpc : s.pc with
  | printSleep => exact Or.inl rfl
  | sleep => exact Or.inr (Or.inl rfl)
  | sigpending => exact Or.inr (Or.inr rfl)
  | _ =>
      rw [hpc] at hge hle
      simp only [Pc.rank] at hge hle
      omega

theorem Waiting.main (hw : Waiting s) (hle : t.pc.rank ≤ 5)
    (h : s.main argv0 argv1 pid strsignal ok = some t) : Waiting t := by
  refine ⟨le_trans hw.ge (main_rank h), hle, ?_, ?_⟩
  · rcases hw.cases with hpc | hpc | hpc
    · simp only [State.main, hpc, Option.some.injEq] at h
      exact h ▸ hw.mask
    · simp only [State.main, hpc, Option.some.injEq] at h
      exact h ▸ hw.mask
    · simp only [State.main, hpc] at h
      split at h
      · exact Option.some.inj h ▸ hw.mask
      · exact Option.some.inj h ▸ hw.mask
  · obtain ⟨pc, handled, mask, stdout, rfl, -⟩ := main_frame h
    exact hw.stack

/-- What happens to a blocked signal in a run from `s` to `t`: it becomes pending, and nothing
else. -/
structure Waits (sig : Signal) (s t : State) (as : List Act) : Prop where
  called : t.called sig = s.called sig
  limited : t.limited sig = false → s.limited sig = false
  pending : decide (0 < pendingCount t.pending sig) =
    as.foldl (pends sig) (decide (0 < pendingCount s.pending sig))
  count : sig.lasting = true → (sig.isRealtime = true → t.limited sig = false) →
    pendingCount t.pending sig =
      queued sig (pendingCount s.pending sig) (as.countP (sends sig))

theorem queued_add (sig : Signal) (count m n : ℕ) :
    queued sig (queued sig count m) n = queued sig count (m + n) := by
  simp only [queued]
  split
  · omega
  · omega

theorem queued_zero (h : Inv s) (sig : Signal) :
    queued sig (pendingCount s.pending sig) 0 = pendingCount s.pending sig := by
  have hone := h.once sig
  rw [queued]
  split
  · rfl
  · rename_i hreal
    have hle := hone (by simpa using hreal)
    omega

theorem Waits.append {sig : Signal} {s r t : State} {as bs : List Act} (h : Waits sig s r as)
    (h' : Waits sig r t bs) : Waits sig s t (as ++ bs) := by
  refine ⟨h'.called.trans h.called, h.limited ∘ h'.limited, ?_, fun hlasting hlimited => ?_⟩
  · rw [h'.pending, h.pending, List.foldl_append]
  · rw [h'.count hlasting hlimited, h.count hlasting (fun hreal => h'.limited (hlimited hreal)),
      queued_add, List.countP_append]

/-- The step is not one for the signal. -/
theorem Waits.same {sig : Signal} {as : List Act} (h : Inv s)
    (hcalled : t.called sig = s.called sig) (hlimited : t.limited sig = s.limited sig)
    (hpending : pendingCount t.pending sig = pendingCount s.pending sig)
    (hsends : as.countP (sends sig) = 0)
    (hpends : ∀ pending, as.foldl (pends sig) pending = pending) : Waits sig s t as := by
  refine ⟨hcalled, fun ht => hlimited ▸ ht, ?_, fun _ _ => ?_⟩
  · rw [hpends, hpending]
  · rw [hsends, hpending, queued_zero h]

/-- A signal is sent while it is blocked. -/
theorem Waits.send (h : Inv s) (si : SigInfo) (full : Bool) (sig : Signal) :
    Waits sig s (s.send si full) [.send si full] := by
  have hfirst : [Act.send si full].countP (sends sig) =
      if si.si_signo = sig then 1 else 0 := by
    by_cases hsig : si.si_signo = sig <;> simp [sends, hsig]
  have hpends : [Act.send si full].foldl (pends sig) (decide (0 < pendingCount s.pending sig)) =
      (decide (si.si_signo = sig) ||
        (decide (0 < pendingCount s.pending sig) && !si.si_signo.discards sig)) := rfl
  refine ⟨rfl, fun ht => ?_, ?_, fun hlasting hlimited => ?_⟩
  · rw [send_limited, Bool.or_eq_false_iff] at ht
    exact ht.1
  · rw [hpends]
    by_cases hsig : si.si_signo = sig
    · subst hsig
      have hpos : 0 < pendingCount (s.send si full).pending si.si_signo :=
        pendingCount_addPending_pos full s.pending si
      rw [decide_eq_true hpos, decide_eq_true rfl, Bool.true_or]
    · simp only [State.send, pendingCount_addPending_of_ne _ _ hsig, decide_eq_false hsig,
        Bool.false_or]
      cases si.si_signo.discards sig <;> simp
  · rw [hfirst]
    by_cases hsig : si.si_signo = sig
    · subst hsig
      have hone := h.once si.si_signo
      simp only [State.send, pendingCount_addPending, if_true, queued]
      cases hreal : si.si_signo.isRealtime with
      | true =>
          have hnot := hlimited hreal
          rw [send_limited, Bool.or_eq_false_iff] at hnot
          -- the limit was not reached
          rw [if_neg fun hmerges => ?_, if_pos rfl]
          rcases hmerges.2 hreal with hfull | hbare
          · rw [hfull] at hnot
            simp at hnot
          · exact nomatch hnot.1.symm.trans (h.bare _ hbare)
      | false =>
          have hle := hone hreal
          rw [if_neg Bool.false_ne_true]
          split
          · rename_i hmerges
            have hpos := hmerges.1
            omega
          · rename_i hmerges
            have hzero : ¬ 0 < pendingCount s.pending si.si_signo := fun hpos =>
              hmerges ⟨hpos, fun htrue => nomatch hreal.symm.trans htrue⟩
            omega
    · rw [if_neg hsig, queued_zero h]
      simp only [State.send, pendingCount_addPending_of_ne _ _ hsig,
        Signal.not_discards_of_lasting _ hlasting, Bool.false_eq_true, if_false]

/-- While the program waits, a signal that is blocked becomes pending and nothing else happens to
it. -/
theorem Waiting.next (hw : Waiting s) (h : Inv s) (hle : t.pc.rank ≤ 5)
    (hstep : next argv0 argv1 pid strsignal s a = some t) :
    Waiting t ∧ ∀ sig, catchable sig = true → Waits sig s t [a] := by
  cases a with
  | send si full =>
      simp only [SigReceiver.next] at hstep
      split at hstep
      · obtain rfl := Option.some.inj hstep
        exact ⟨⟨hw.ge, hw.le, hw.mask, hw.stack⟩, fun sig _ => Waits.send h si full sig⟩
      · cases hstep
  | deliver sig' =>
      simp only [SigReceiver.next] at hstep
      split at hstep
      · rename_i hcan
        obtain ⟨⟨si, rest⟩, htake, rfl⟩ := Option.map_eq_some_iff.mp hstep
        -- only a signal that cannot be blocked is delivered, and it has no handler
        have hfree : catchable sig' = false := by
          rw [← Bool.not_eq_true]
          intro hcatch
          have hmask := (not_blocks sig' hcatch hcan.2).1
          rw [hw.mask sig' hcatch] at hmask
          cases hmask
        have hunhandled : sig' ∉ s.handled := by
          intro hmem
          rw [h.handled sig' hmem] at hfree
          cases hfree
        rw [State.deliver, if_neg hunhandled] at hle ⊢
        refine ⟨⟨?_, hle, hw.mask, hw.stack⟩, fun sig hcatch => ?_⟩
        · simp only
          split
          · exact hw.ge
          · simp [Pc.rank]
        · have hne : sig' ≠ sig := by
            rintro rfl
            rw [hcatch] at hfree
            cases hfree
          have hcount := pendingCount_takePending htake sig
          rw [if_neg hne, Nat.add_zero] at hcount
          exact Waits.same h rfl rfl hcount.symm rfl fun _ => rfl
      · cases hstep
  | handler =>
      simp only [SigReceiver.next, State.handler, hw.stack] at hstep
      split at hstep <;> cases hstep
  | main ok =>
      simp only [SigReceiver.next] at hstep
      split at hstep
      · have hwt := hw.main hle hstep
        obtain ⟨pc, handled, mask, stdout, rfl, -⟩ := main_frame hstep
        exact ⟨hwt, fun sig _ => Waits.same h rfl rfl rfl rfl fun _ => rfl⟩
      · cases hstep

theorem Waiting.run {bs : List Act} (hw : Waiting s) (h : Inv s) (hle : t.pc.rank ≤ 5)
    (hrun : (system argv0 argv1 pid strsignal).run s bs = some t) :
    Waiting t ∧ Inv t ∧ ∀ sig, catchable sig = true → Waits sig s t bs := by
  induction bs generalizing s with
  | nil =>
      rw [TransSys.run_nil, Option.some.injEq] at hrun
      subst hrun
      exact ⟨hw, h, fun sig _ => Waits.same h rfl rfl rfl rfl fun _ => rfl⟩
  | cons b bs ih =>
      rw [TransSys.run_cons, Option.bind_eq_some_iff] at hrun
      obtain ⟨r, hstep, hrun⟩ := hrun
      have hr : r.pc.rank ≤ 5 := le_trans (run_rank hrun) hle
      obtain ⟨hwr, hfirst⟩ := hw.next h hr hstep
      obtain ⟨hwt, ht, hrest⟩ := ih hwr (h.next hstep) hrun
      exact ⟨hwt, ht, fun sig hcatch => (hfirst sig hcatch).append (hrest sig hcatch)⟩

/-- **Signals that arrive while all are blocked.** Between the call of `sigprocmask` that blocks all
signals and the call of `sigpending`, no handler is called, and `printSigset` is given exactly the
signals that were pending before or sent in between, without those of SIGCONT and the signals that
stop a process that were discarded and not sent again. A signal that no other one discards, sent `n`
times in between, is pending once if it is a standard signal; it is pending `n` times more if it is
a realtime signal and was never sent at the limit of the queued signals. -/
theorem blocked_signals_pending {bs : List Act} {s' t u : State} (h₀ : Start s₀)
    (hrun : (system argv0 argv1 pid strsignal).run s₀ as = some s) (hblock : s.pc = .block)
    (hstep : next argv0 argv1 pid strsignal s (.main true) = some s')
    (hwait : (system argv0 argv1 pid strsignal).run s' bs = some t) (ht : t.pc = .sigpending)
    (hnext : next argv0 argv1 pid strsignal t (.main true) = some u) :
    ∃ set, u.pc = .printPending set ∧ ∀ sig, catchable sig = true →
      t.called sig = s.called sig ∧
      (sig ∈ set ↔ bs.foldl (pends sig) (decide (0 < pendingCount s.pending sig)) = true) ∧
      (sig.lasting = true →
        (sig ∈ set ↔ 0 < pendingCount s.pending sig + bs.countP (sends sig)) ∧
        ((sig.isRealtime = true → t.limited sig = false) →
          pendingCount t.pending sig =
            queued sig (pendingCount s.pending sig) (bs.countP (sends sig)))) := by
  have h : Inv s := TransSys.run_preserves (fun _ _ _ h hstep => h.next hstep) h₀.inv hrun
  have h' := h.next hstep
  simp only [next, State.main, hblock, if_true] at hstep
  split at hstep
  · rename_i hstack
    obtain rfl := Option.some.inj hstep
    have hw : Waiting { s with
        pc := .printSleep
        mask := fun sig => s.mask sig || catchable sig } :=
      ⟨le_refl _, by simp [Pc.rank], fun sig hcatch => by simp [hcatch], hstack⟩
    obtain ⟨-, -, hall⟩ := hw.run h' (by rw [ht]; exact le_refl _) hwait
    simp only [next, State.main, ht, if_true] at hnext
    split at hnext
    · obtain rfl := Option.some.inj hnext
      refine ⟨_, rfl, fun sig hcatch => ?_⟩
      have hwaits := hall sig hcatch
      have hmem : sig ∈ t.pending.map SigInfo.si_signo ↔
          bs.foldl (pends sig) (decide (0 < pendingCount s.pending sig)) = true := by
        rw [List.mem_map, ← pendingCount_pos_iff, ← hwaits.pending, decide_eq_true_iff]
      refine ⟨hwaits.called, hmem, fun hlasting => ⟨hmem.trans ?_, hwaits.count hlasting⟩⟩
      rw [foldl_pends hlasting, Bool.or_eq_true, decide_eq_true_iff, decide_eq_true_iff]
      omega
    · cases hnext
  · cases hstep

/-- While all signals are blocked, SIGUSR1 is sent twice, and then SIGTSTP and SIGCONT. -/
def sampleSends : List Act :=
  [.main true, .send sigusr1 false, .send sigusr1 false,
    .send ⟨⟨20, by decide, by decide⟩, 0, 0, 8, 0⟩ false, .send ⟨.SIGCONT, 0, 0, 8, 0⟩ false,
    .main true]

theorem blocked_signals_pending_sampleSends :
    ∃ s s' t u set, sampleSystem.run sampleStart (List.replicate 66 (.main true)) = some s ∧
      sampleSystem.step s (.main true) = some s' ∧
      sampleSystem.run s' sampleSends = some t ∧
      sampleSystem.step t (.main true) = some u ∧ u.pc = .printPending set ∧
      pendingCount t.pending .SIGUSR1 = queued .SIGUSR1 (pendingCount s.pending .SIGUSR1) 2 ∧
      .SIGCONT ∈ set ∧ ⟨20, by decide, by decide⟩ ∉ set := by
  have hrun : ((sampleSystem.run sampleStart (List.replicate 66 (.main true))).bind fun s =>
      (sampleSystem.step s (.main true)).bind fun s' =>
        (sampleSystem.run s' sampleSends).bind fun t =>
          (sampleSystem.step t (.main true)).map fun u => (s.pc, t.pc, s.pending)) =
      some (.block, .sigpending, []) := by decide +kernel
  obtain ⟨s, hs, hrun⟩ := Option.bind_eq_some_iff.mp hrun
  obtain ⟨s', hs', hrun⟩ := Option.bind_eq_some_iff.mp hrun
  obtain ⟨t, ht, hrun⟩ := Option.bind_eq_some_iff.mp hrun
  obtain ⟨u, hu, heq⟩ := Option.map_eq_some_iff.mp hrun
  obtain ⟨hspc, heq⟩ := Prod.mk.inj heq
  obtain ⟨htpc, hnone⟩ := Prod.mk.inj heq
  obtain ⟨set, hset, hall⟩ := blocked_signals_pending sampleStart_start hs hspc hs' ht htpc hu
  refine ⟨s, s', t, u, set, hs, hs', ht, hu, hset, ((hall .SIGUSR1 rfl).2.2 rfl).2 nofun, ?_, ?_⟩
  · exact (hall .SIGCONT rfl).2.1.mpr (by rw [hnone]; decide)
  · exact fun hmem => absurd ((hall _ rfl).2.1.mp hmem) (by rw [hnone]; decide)

end Tlpi.SigReceiver
