import Tlpi.Lib.Named
import Tlpi.Posix.Strtol
import Tlpi.Signals.CatchRtsigs

set_option autoImplicit false

/-! # Signals with data (signals/t_sigqueue.c, catch_rtsigs.c)

A `catch_rtsigs` process (`CatchRtsigs.State`) and any number of `t_sigqueue` processes, which may
be started at any time and send it signals with data. Other processes may send it signals, too.
-/

namespace Tlpi.TSigqueue

open Decimal CatchRtsigs

/-- A place in `t_sigqueue`: at the start, before the test of the loop, or the end. -/
inductive Pc where
  | start
  | loop (j : ℕ)
  | exited (status : ℕ)
  | killed
deriving DecidableEq, Repr

structure Command where
  argv : List (List UInt8)
  pid : ℕ
  uid : ℕ
deriving DecidableEq, Repr

/-- A `t_sigqueue` process; `sent` is the number of signals it has sent to the `catch_rtsigs`
process. -/
structure Sender where
  argv : List (List UInt8)
  pid : ℕ
  uid : ℕ
  pc : Pc
  sent : ℕ
  stdout : List UInt8
deriving DecidableEq, Repr

/-- A process goes on, `sigqueue` fails, or it is killed. -/
inductive Call where
  | go
  | fail
  | kill
deriving DecidableEq, Repr

namespace Sender

def arg (x : Sender) (i : ℕ) : List UInt8 := (x.argv[i]?).getD []

def badArgs (x : Sender) : Bool :=
  decide (x.argv.length < 4 ∨ x.argv[1]? = some (str "--help"))

def target (x : Sender) : ℤ := (atoi (x.arg 1)).toInt

def sig (x : Sender) : ℤ := (atoi (x.arg 2)).toInt

def sigData (x : Sender) : BitVec 32 := atoi (x.arg 3)

def numSigs (x : Sender) : ℤ := if 4 < x.argv.length then (atoi (x.arg 4)).toInt else 1

/-- `sv.sival_int` in the `j`-th round; the addition wraps around. -/
def value (x : Sender) (j : ℕ) : ℤ := (x.sigData + BitVec.ofNat 32 j).toInt

/-- The signal with the number `sig`, if there is one. -/
def signal? (x : Sender) : Option Signal :=
  if h : 1 ≤ x.sig.toNat ∧ x.sig.toNat ≤ 64 then some ⟨x.sig.toNat, h.1, h.2⟩ else none

/-- What `sigqueue` sends in the `j`-th round. -/
def info (x : Sender) (j : ℕ) : Option SigInfo :=
  x.signal?.map fun sig => ⟨sig, SI_QUEUE, x.value j, x.pid, x.uid⟩

def pidText (x : Sender) : List UInt8 :=
  x.arg 0 ++ str ": PID is " ++ numeral x.pid ++ str ", UID is " ++ numeral x.uid ++ str "\n"

def exit (x : Sender) (status : ℕ) : Sender := { x with pc := .exited status }

/-- `sigqueue` and the next round; with the signal 0 nothing is sent. -/
def sigqueue (rpid : ℕ) (x : Sender) (j : ℕ) : Sender × Option SigInfo :=
  if x.target ≤ 0 ∨ (x.info j = none ∧ x.sig ≠ 0) then (x.exit EXIT_FAILURE, none)
  else if x.target = rpid ∧ x.sig ≠ 0 then
    ({ x with pc := .loop (j + 1), sent := x.sent + 1 }, x.info j)
  else ({ x with pc := .loop (j + 1) }, none)

/-- A step, and the signal that is sent to the process `rpid`. -/
def step (rpid : ℕ) (x : Sender) : Call → Option (Sender × Option SigInfo)
  | .go =>
      match x.pc with
      | .start =>
          if x.badArgs then some (x.exit EXIT_FAILURE, none)
          else some ({ x with pc := .loop 0, stdout := x.stdout ++ x.pidText }, none)
      | .loop j =>
          if (j : ℤ) < x.numSigs then some (x.sigqueue rpid j) else some (x.exit EXIT_SUCCESS, none)
      | _ => none
  | .fail =>
      match x.pc with
      | .loop j => if (j : ℤ) < x.numSigs then some (x.exit EXIT_FAILURE, none) else none
      | _ => none
  | .kill =>
      match x.pc with
      | .start => some ({ x with pc := .killed }, none)
      | .loop _ => some ({ x with pc := .killed }, none)
      | _ => none

end Sender

/-- All processes. `sent` are the signals sent to the `catch_rtsigs` process, each with the number
of the `t_sigqueue` process that has sent it, and `delivered` are those that it has got;
`limited` says of which number one was sent at the limit of the queued signals. -/
structure World where
  recv : CatchRtsigs.State
  sent : List (Option ℕ × SigInfo)
  delivered : List SigInfo
  senders : List Sender
  limited : Signal → Bool

/-- What happens; `full` says whether a signal is sent at the limit of the queued signals. There the
`sigqueue` of a realtime signal fails. -/
inductive Act where
  | start (c : Command)
  | sender (q : ℕ) (c : Call) (full : Bool)
  | other (si : SigInfo) (full : Bool)
  | deliver (sig : Signal)
  | handler
  | main (ok : Bool)
deriving DecidableEq, Repr

def World.send (w : World) (q : Option ℕ) (si : SigInfo) (full : Bool) : World :=
  { w with
    recv := { w.recv with pending := addPending full w.recv.pending si }
    sent := w.sent ++ [(q, si)]
    limited := if full then Function.update w.limited si.si_signo true else w.limited }

section

-- the arguments and the first signal mask of the `catch_rtsigs` process, and its process ID
variable (argv0 argv1 : List UInt8) (prevMask : Signal → Bool) (rpid : ℕ)

def World.next (w : World) : Act → Option World
  | .start c => some { w with senders := w.senders ++ [⟨c.argv, c.pid, c.uid, .start, 0, []⟩] }
  | .sender q c full =>
      (w.senders[q]?).bind fun x => (x.step rpid c).bind fun r =>
        let w := { w with senders := w.senders.set q r.1 }
        match r.2 with
        | some si => if si.Sendable full then some (w.send (some q) si full) else none
        | none => some w
  | .other si full => if si.Sendable full then some (w.send none si full) else none
  | .deliver sig =>
      (takePending w.recv.pending sig).bind fun taken =>
        (w.recv.next argv0 argv1 prevMask (.deliver sig)).map fun r =>
          { w with recv := r, delivered := w.delivered ++ [taken.1] }
  | .handler => (w.recv.next argv0 argv1 prevMask .handler).map fun r => { w with recv := r }
  | .main ok => (w.recv.next argv0 argv1 prevMask (.main ok)).map fun r => { w with recv := r }

/-- At the start, signals may be pending. -/
structure Init (w : World) : Prop where
  recv : CatchRtsigs.Start w.recv
  sent : w.sent = w.recv.pending.map fun si => (none, si)
  delivered : w.delivered = []
  senders : w.senders = []
  limited : ∀ sig, .bare sig ∈ w.recv.pending → w.limited sig = true

def system : TransSys World Act := ⟨Init, World.next argv0 argv1 prevMask rpid⟩

end

/-! ## The steps -/

variable {argv0 argv1 : List UInt8} {prevMask : Signal → Bool} {rpid : ℕ} {w v : World} {a : Act}

/-- A step of a `t_sigqueue` process: it sends one more signal, or goes on without sending. -/
inductive SenderStep (rpid : ℕ) (x : Sender) : Sender → Option SigInfo → Prop where
  | sends (j : ℕ) (si : SigInfo) (hpc : x.pc = .loop j) (hj : (j : ℤ) < x.numSigs)
      (htarget : x.target = rpid) (hinfo : x.info j = some si) :
      SenderStep rpid x { x with pc := .loop (j + 1), sent := x.sent + 1 } (some si)
  | enters (hpc : x.pc = .start) :
      SenderStep rpid x { x with pc := .loop 0, stdout := x.stdout ++ x.pidText } none
  | other (j : ℕ) (hpc : x.pc = .loop j) (h : x.target ≠ rpid ∨ x.sig = 0) :
      SenderStep rpid x { x with pc := .loop (j + 1) } none
  | done (j : ℕ) (hpc : x.pc = .loop j) (hj : x.numSigs ≤ j) :
      SenderStep rpid x (x.exit EXIT_SUCCESS) none
  | failed : SenderStep rpid x (x.exit EXIT_FAILURE) none
  | killed : SenderStep rpid x { x with pc := .killed } none

theorem sigqueue_cases {x y : Sender} {j : ℕ} {si? : Option SigInfo} (hpc : x.pc = .loop j)
    (hj : (j : ℤ) < x.numSigs) (h : x.sigqueue rpid j = (y, si?)) : SenderStep rpid x y si? := by
  unfold Sender.sigqueue at h
  split at h
  · obtain ⟨rfl, rfl⟩ := Prod.mk.inj h
    exact .failed
  · rename_i hvalid
    split at h
    · rename_i htarget
      obtain ⟨rfl, rfl⟩ := Prod.mk.inj h
      cases hinfo : x.info j with
      | none => exact absurd (Or.inr ⟨hinfo, htarget.2⟩) hvalid
      | some si => exact .sends j si hpc hj htarget.1 hinfo
    · rename_i htarget
      obtain ⟨rfl, rfl⟩ := Prod.mk.inj h
      refine .other j hpc ?_
      by_contra hnot
      obtain ⟨heq, hsig⟩ := not_or.mp hnot
      exact htarget ⟨not_not.mp heq, hsig⟩

theorem step_cases {x y : Sender} {c : Call} {si? : Option SigInfo}
    (h : x.step rpid c = some (y, si?)) : SenderStep rpid x y si? := by
  cases c with
  | go =>
      simp only [Sender.step] at h
      split at h
      · rename_i hpc
        split at h
        · obtain ⟨rfl, rfl⟩ := Prod.mk.inj (Option.some.inj h)
          exact .failed
        · obtain ⟨rfl, rfl⟩ := Prod.mk.inj (Option.some.inj h)
          exact .enters hpc
      · rename_i j hpc
        split at h
        · rename_i hj
          exact sigqueue_cases hpc hj (Option.some.inj h)
        · rename_i hj
          obtain ⟨rfl, rfl⟩ := Prod.mk.inj (Option.some.inj h)
          exact .done j hpc (not_lt.mp hj)
      · cases h
  | fail =>
      simp only [Sender.step] at h
      split at h
      · split at h
        · obtain ⟨rfl, rfl⟩ := Prod.mk.inj (Option.some.inj h)
          exact .failed
        · cases h
      · cases h
  | kill =>
      simp only [Sender.step] at h
      split at h
      · obtain ⟨rfl, rfl⟩ := Prod.mk.inj (Option.some.inj h)
        exact .killed
      · obtain ⟨rfl, rfl⟩ := Prod.mk.inj (Option.some.inj h)
        exact .killed
      · cases h

section

variable (argv0 argv1 : List UInt8) (prevMask : Signal → Bool) (rpid : ℕ)

inductive Step (w : World) : Act → World → Prop where
  | start (c : Command) :
      Step w (.start c) { w with senders := w.senders ++ [⟨c.argv, c.pid, c.uid, .start, 0, []⟩] }
  | sends (q : ℕ) (c : Call) (full : Bool) (x y : Sender) (si : SigInfo)
      (hx : w.senders[q]? = some x) (h : SenderStep rpid x y (some si)) (hsend : si.Sendable full) :
      Step w (.sender q c full) ({ w with senders := w.senders.set q y }.send (some q) si full)
  | quiet (q : ℕ) (c : Call) (full : Bool) (x y : Sender) (hx : w.senders[q]? = some x)
      (h : SenderStep rpid x y none) :
      Step w (.sender q c full) { w with senders := w.senders.set q y }
  | other (si : SigInfo) (full : Bool) (hsend : si.Sendable full) :
      Step w (.other si full) (w.send none si full)
  | deliver (sig : Signal) (si : SigInfo) (rest : List SigInfo) (r : CatchRtsigs.State)
      (htake : takePending w.recv.pending sig = some (si, rest))
      (h : w.recv.next argv0 argv1 prevMask (.deliver sig) = some r) :
      Step w (.deliver sig) { w with recv := r, delivered := w.delivered ++ [si] }
  | handler (r : CatchRtsigs.State) (h : w.recv.next argv0 argv1 prevMask .handler = some r) :
      Step w .handler { w with recv := r }
  | main (ok : Bool) (r : CatchRtsigs.State)
      (h : w.recv.next argv0 argv1 prevMask (.main ok) = some r) :
      Step w (.main ok) { w with recv := r }

end

theorem next_cases (h : w.next argv0 argv1 prevMask rpid a = some v) :
    Step argv0 argv1 prevMask rpid w a v := by
  cases a with
  | start c => exact Option.some.inj h ▸ .start c
  | sender q c full =>
      obtain ⟨x, hx, h⟩ := Option.bind_eq_some_iff.mp h
      obtain ⟨⟨y, si?⟩, hstep, h⟩ := Option.bind_eq_some_iff.mp h
      have hstep := step_cases hstep
      cases si? with
      | none => exact Option.some.inj h ▸ .quiet q c full x y hx hstep
      | some si =>
          dsimp only at h
          split at h
          · rename_i hsend
            exact Option.some.inj h ▸ .sends q c full x y si hx hstep hsend
          · cases h
  | other si full =>
      rw [World.next] at h
      split at h
      · rename_i hsend
        exact Option.some.inj h ▸ .other si full hsend
      · cases h
  | deliver sig =>
      obtain ⟨⟨si, rest⟩, htake, h⟩ := Option.bind_eq_some_iff.mp h
      obtain ⟨r, hr, h⟩ := Option.map_eq_some_iff.mp h
      exact h ▸ .deliver sig si rest r htake hr
  | handler =>
      obtain ⟨r, hr, h⟩ := Option.map_eq_some_iff.mp h
      exact h ▸ .handler r hr
  | main ok =>
      obtain ⟨r, hr, h⟩ := Option.map_eq_some_iff.mp h
      exact h ▸ .main ok r hr

/-! ## The steps of the receiver -/

section

variable {s r : CatchRtsigs.State} {sig : Signal} {si : SigInfo} {rest : List SigInfo} {ok : Bool}

theorem not_unblockable_of_caught (h : caught sig = true) : sig.unblockable = false := by
  obtain ⟨hstop, -, hkill, -⟩ := of_decide_eq_true h
  simp [Signal.unblockable, hstop, hkill]

/-- A signal that is delivered: it is caught, or it does nothing, or it kills the process. -/
structure Delivered (s : CatchRtsigs.State) (sig : Signal) (si : SigInfo) (rest : List SigInfo)
    (r : CatchRtsigs.State) : Prop where
  alive : s.pc.alive = true
  pending : r.pending = rest
  stdout : r.stdout = s.stdout
  sigCnt : r.sigCnt = s.sigCnt
  handler : (caught sig = true ∧ s.handler = none ∧ r.handler = some (.entry si) ∧ r.pc = s.pc) ∨
    (caught sig = false ∧ r.handler = s.handler ∧ r.pc = s.pc) ∨
    (caught sig = false ∧ r.handler = none ∧ r.pc = .killed sig)

theorem delivered_of_next (htake : takePending s.pending sig = some (si, rest))
    (h : s.next argv0 argv1 prevMask (.deliver sig) = some r) : Delivered s sig si rest r := by
  rw [State.next] at h
  split at h
  · rename_i henabled
    obtain ⟨halive, hblocks⟩ := henabled
    rw [htake, Option.map_some] at h
    by_cases hcaught : caught sig = true
    · rw [if_pos hcaught] at h
      obtain rfl := Option.some.inj h
      refine ⟨halive, rfl, rfl, rfl, Or.inl ⟨hcaught, ?_, rfl, rfl⟩⟩
      -- During the handler all signals that can be caught are blocked.
      by_contra hhandler
      rw [State.blocks, not_unblockable_of_caught hcaught, if_neg Bool.false_ne_true,
        if_pos hhandler] at hblocks
      cases hblocks
    · rw [if_neg hcaught] at h
      rw [Bool.not_eq_true] at hcaught
      split at h
      · obtain rfl := Option.some.inj h
        exact ⟨halive, rfl, rfl, rfl, Or.inr (Or.inl ⟨hcaught, rfl, rfl⟩)⟩
      · obtain rfl := Option.some.inj h
        exact ⟨halive, rfl, rfl, rfl, Or.inr (Or.inr ⟨hcaught, rfl, rfl⟩)⟩
  · cases h

/-- The main program prints a text, and leaves the signals as they are. -/
theorem next_main (h : s.next argv0 argv1 prevMask (.main ok) = some r) :
    s.handler = none ∧ r.handler = none ∧ r.pending = s.pending ∧ r.sigCnt = s.sigCnt ∧
      (∃ text, r.stdout = s.stdout ++ text) ∧ (∀ sig, r.pc ≠ .killed sig) ∧
      (∀ sig, s.pc ≠ .killed sig) := by
  rw [State.next] at h
  split at h
  · rename_i hhandler
    unfold State.main at h
    split at h <;> rename_i hpc <;> cases h <;> rw [hpc]
    case h_1 => cases ok <;> simp [hhandler, State.fail]
    case h_5 => cases ok <;> simp [hhandler, State.fail]
    case h_6 => cases s.allDone <;> simp [hhandler]
    all_goals simp [hhandler]
  · cases h

theorem pc_of_killed (h : s.handlerReturn.pc = .killed sig) : s.pc = .killed sig := by
  unfold State.handlerReturn at h
  split at h
  · cases h
  · exact h

theorem next_handler (h : s.next argv0 argv1 prevMask .handler = some r) :
    r.pending = s.pending ∧ (∀ sig, r.pc = .killed sig → s.pc = .killed sig) ∧
      ((∃ si, s.handler = some (.entry si) ∧ stops si.si_signo = true ∧ r.handler = none ∧
        r.stdout = s.stdout ∧ r.sigCnt = s.sigCnt) ∨
      (∃ si, s.handler = some (.entry si) ∧ stops si.si_signo = false ∧
        r.handler = some .sleeping ∧ r.stdout = s.stdout ++ caughtText si ∧
        r.sigCnt = s.sigCnt + 1) ∨
      (s.handler = some .sleeping ∧ r.handler = none ∧ r.stdout = s.stdout ∧
        r.sigCnt = s.sigCnt)) := by
  rcases CatchRtsigs.next_cases h with _ | _ | _ | _ | ⟨hhandler, hstops⟩ | ⟨hhandler, hstops⟩ |
    hhandler | _
  · exact ⟨rfl, fun _ => pc_of_killed, Or.inl ⟨_, hhandler, hstops, rfl, rfl, rfl⟩⟩
  · exact ⟨rfl, fun _ hpc => hpc, Or.inr (Or.inl ⟨_, hhandler, hstops, rfl, rfl, rfl⟩)⟩
  · exact ⟨rfl, fun _ => pc_of_killed, Or.inr (Or.inr ⟨hhandler, rfl, rfl, rfl⟩)⟩

end

/-! ## The order of the signals -/

/-- The signals that were sent, in their order. -/
def World.sentInfos (w : World) : List SigInfo := w.sent.map Prod.snd

/-- What was delivered and what is pending was sent in this order; of the realtime signals nothing
is missing. Both holds of the numbers that were never sent at the limit. -/
structure Queue (w : World) : Prop where
  sublist : ∀ sig, w.limited sig = false →
    (ofNum sig w.delivered ++ ofNum sig w.recv.pending).Sublist (ofNum sig w.sentInfos)
  realtime : ∀ sig, w.limited sig = false → sig.isRealtime = true →
    ofNum sig w.delivered ++ ofNum sig w.recv.pending = ofNum sig w.sentInfos
  bare : ∀ sig, .bare sig ∈ w.recv.pending → w.limited sig = true

theorem Queue.init (h : Init w) : Queue w := by
  have hsent : w.sentInfos = w.recv.pending := by
    rw [World.sentInfos, h.sent, List.map_map]
    exact List.map_id _
  refine ⟨fun sig _ => ?_, fun sig _ _ => ?_, h.limited⟩
  · rw [h.delivered, hsent]
    exact List.Sublist.refl _
  · rw [h.delivered, hsent]
    rfl

theorem send_limited (w : World) (q : Option ℕ) (si : SigInfo) (full : Bool) (sig : Signal) :
    (w.send q si full).limited sig = (w.limited sig || (full && decide (si.si_signo = sig))) := by
  cases full with
  | false => simp [World.send]
  | true =>
      by_cases h : sig = si.si_signo
      · simp [World.send, h]
      · simp [World.send, Function.update_of_ne h, Ne.symm h]

theorem Queue.send (h : Queue w) (q : Option ℕ) {si : SigInfo} {full : Bool}
    (hsend : si.Sendable full) : Queue (w.send q si full) := by
  have hsent : ∀ sig,
      ofNum sig (w.send q si full).sentInfos = ofNum sig w.sentInfos ++ ofNum sig [si] :=
    fun sig => by
      rw [← ofNum_append]
      simp [World.sentInfos, World.send]
  have hpending : (w.send q si full).recv.pending = addPending full w.recv.pending si := rfl
  have hdelivered : (w.send q si full).delivered = w.delivered := rfl
  have hnot : ∀ {sig}, (w.send q si full).limited sig = false →
      w.limited sig = false ∧ (full = true → si.si_signo ≠ sig) := fun hlimited => by
    rw [send_limited, Bool.or_eq_false_iff] at hlimited
    refine ⟨hlimited.1, fun hfull => ?_⟩
    simpa [hfull] using hlimited.2
  refine ⟨fun sig hlimited => ?_, fun sig hlimited hsig => ?_, fun sig hmem => ?_⟩
  · obtain ⟨hold, hfull⟩ := hnot hlimited
    rw [hsent, hpending, hdelivered]
    have hnew : (ofNum sig (addPending full w.recv.pending si)).Sublist
        (ofNum sig w.recv.pending ++ ofNum sig [si]) := ofNum_addPending_sublist hfull
    have hlast := (List.Sublist.refl (ofNum sig w.delivered)).append hnew
    rw [← List.append_assoc] at hlast
    exact hlast.trans ((h.sublist sig hold).append (List.Sublist.refl _))
  · obtain ⟨hold, hfull⟩ := hnot hlimited
    have hbare : .bare sig ∉ w.recv.pending := fun hmem =>
      nomatch hold.symm.trans (h.bare sig hmem)
    rw [hsent, hpending, hdelivered, ofNum_addPending_realtime hsig hfull hbare,
      ← List.append_assoc, h.realtime sig hold hsig]
  · rw [send_limited]
    rcases bare_mem_addPending hsend.1 hmem with hold | ⟨rfl, rfl⟩
    · rw [h.bare sig hold, Bool.true_or]
    · simp

/-- A step that leaves the signals as they are. -/
theorem Queue.keep (h : Queue w) (hsent : v.sent = w.sent) (hdelivered : v.delivered = w.delivered)
    (hpending : v.recv.pending = w.recv.pending) (hlimited : v.limited = w.limited) : Queue v := by
  refine ⟨fun sig => ?_, fun sig => ?_, ?_⟩
  · rw [World.sentInfos, hsent, hdelivered, hpending, hlimited]
    exact h.sublist sig
  · rw [World.sentInfos, hsent, hdelivered, hpending, hlimited]
    exact h.realtime sig
  · rw [hpending, hlimited]
    exact h.bare

theorem Queue.step (h : Queue w) (hstep : Step argv0 argv1 prevMask rpid w a v) : Queue v := by
  cases hstep with
  | start c => exact h.keep rfl rfl rfl rfl
  | sends q c full x y si hx hsender hsend =>
      have hkeep : Queue { w with senders := w.senders.set q y } := h.keep rfl rfl rfl rfl
      exact hkeep.send (some q) hsend
  | quiet q c full x y hx hquiet => exact h.keep rfl rfl rfl rfl
  | other si full hsend => exact h.send none hsend
  | deliver sig si rest r htake hnext =>
      have hrest := (delivered_of_next htake hnext).pending
      -- The first pending signal with the number goes to the end of those delivered.
      have hmoved : ∀ sig', ofNum sig' (w.delivered ++ [si]) ++ ofNum sig' r.pending =
          ofNum sig' w.delivered ++ ofNum sig' w.recv.pending := fun sig' => by
        rw [hrest, ofNum_append, List.append_assoc, ← ofNum_takePending htake sig']
      refine ⟨fun sig' hlimited => ?_, fun sig' hlimited hsig' => ?_, fun sig' hmem => ?_⟩
      · exact (hmoved sig').symm ▸ h.sublist sig' hlimited
      · exact (hmoved sig').trans (h.realtime sig' hlimited hsig')
      · have hmem : .bare sig' ∈ r.pending := hmem
        rw [hrest, (takePending_eq_some htake).2.2] at hmem
        exact h.bare sig' (List.mem_of_mem_erase hmem)
  | handler r hnext => exact h.keep rfl rfl (next_handler hnext).1 rfl
  | main ok r hnext => exact h.keep rfl rfl (next_main hnext).2.2.1 rfl

/-! ## The signals of one `t_sigqueue` process -/

/-- What the process `q` has sent. -/
def World.sentBy (w : World) (q : ℕ) : List SigInfo :=
  (w.sent.filter fun p => decide (p.1 = some q)).map Prod.snd

/-- How many signals a process has sent at a place. -/
structure Progress (rpid : ℕ) (x : Sender) : Prop where
  start : x.pc = .start → x.sent = 0
  loop : ∀ j, x.pc = .loop j → x.target = rpid → x.sig ≠ 0 → x.sent = j
  le : x.sent ≤ x.numSigs.toNat
  done : x.pc = .exited EXIT_SUCCESS → x.target = rpid → x.sig ≠ 0 → x.sent = x.numSigs.toNat

theorem sig_ne_zero_of_info {x : Sender} {j : ℕ} {si : SigInfo} (h : x.info j = some si) :
    x.sig ≠ 0 := by
  intro hzero
  obtain ⟨sig, hsig, -⟩ := Option.map_eq_some_iff.mp h
  unfold Sender.signal? at hsig
  split at hsig
  · rename_i hvalid
    rw [hzero] at hvalid
    exact absurd hvalid.1 (by decide)
  · cases hsig

theorem Progress.step {x y : Sender} {si? : Option SigInfo} (h : Progress rpid x)
    (hstep : SenderStep rpid x y si?) : Progress rpid y := by
  cases hstep with
  | sends j si hpc hj htarget hinfo =>
      have hsent := h.loop j hpc htarget (sig_ne_zero_of_info hinfo)
      refine ⟨nofun, fun i hi _ _ => ?_, ?_, nofun⟩
      · rw [← Pc.loop.inj hi, ← hsent]
      · show x.sent + 1 ≤ x.numSigs.toNat
        omega
  | enters hpc =>
      refine ⟨nofun, fun i hi _ _ => ?_, h.le, nofun⟩
      exact (h.start hpc).trans (Pc.loop.inj hi)
  | other j hpc hwhy =>
      refine ⟨nofun, fun i hi htarget hsig => ?_, h.le, nofun⟩
      rcases hwhy with hne | hzero
      · exact absurd htarget hne
      · exact absurd hzero hsig
  | done j hpc hj =>
      refine ⟨nofun, nofun, h.le, fun _ htarget hsig => ?_⟩
      have hsent := h.loop j hpc htarget hsig
      have hle := h.le
      show x.sent = x.numSigs.toNat
      omega
  | failed => exact ⟨nofun, nofun, h.le, nofun⟩
  | killed => exact ⟨nofun, nofun, h.le, nofun⟩

structure Senders (rpid : ℕ) (w : World) : Prop where
  values : ∀ q x, w.senders[q]? = some x → (w.sentBy q).map some = (List.range x.sent).map x.info
  progress : ∀ x ∈ w.senders, Progress rpid x
  lt : ∀ p ∈ w.sent, ∀ q, p.1 = some q → q < w.senders.length

theorem Senders.init (h : Init w) : Senders rpid w := by
  refine ⟨fun q x hx => ?_, fun x hx => ?_, fun p hp q hq => ?_⟩
  · rw [h.senders] at hx
    cases hx
  · rw [h.senders] at hx
    cases hx
  · rw [h.sent] at hp
    obtain ⟨si, -, rfl⟩ := List.mem_map.mp hp
    cases hq

/-- A step without sending. -/
theorem SenderStep.quiet_info {x y : Sender} (h : SenderStep rpid x y none) :
    y.sent = x.sent ∧ y.info = x.info := by
  cases h <;> exact ⟨rfl, rfl⟩

theorem sentBy_send (w : World) (q : ℕ) (q' : Option ℕ) (si : SigInfo) (full : Bool) :
    (w.send q' si full).sentBy q = w.sentBy q ++ if q' = some q then [si] else [] := by
  by_cases h : q' = some q <;> simp [World.sentBy, World.send, List.filter_append, h]

/-- A signal from another program. -/
theorem Senders.other (h : Senders rpid w) (si : SigInfo) (full : Bool) :
    Senders rpid (w.send none si full) := by
  refine ⟨fun q x hx => ?_, h.progress, fun p hp q hq => ?_⟩
  · rw [sentBy_send, if_neg (Option.some_ne_none q).symm, List.append_nil]
    exact h.values q x hx
  · rcases List.mem_append.mp hp with hold | hnew
    · exact h.lt p hold q hq
    · rw [List.mem_singleton.mp hnew] at hq
      cases hq

/-- A process takes a step without sending. -/
theorem Senders.quiet {q : ℕ} {x y : Sender} (h : Senders rpid w) (hx : w.senders[q]? = some x)
    (hstep : SenderStep rpid x y none) :
    Senders rpid { w with senders := w.senders.set q y } := by
  have hmem := List.mem_of_getElem? hx
  obtain ⟨hlt, -⟩ := List.getElem?_eq_some_iff.mp hx
  refine ⟨fun q' z hz => ?_, fun z hz => ?_, fun p hp q' hq' => ?_⟩
  · by_cases hq : q = q'
    · subst hq
      obtain rfl : y = z := Option.some.inj ((List.getElem?_set_self hlt).symm.trans hz)
      obtain ⟨hsent, hinfo⟩ := hstep.quiet_info
      rw [hsent, hinfo]
      exact h.values q x hx
    · exact h.values q' z ((List.getElem?_set_ne hq).symm.trans hz)
  · rcases List.mem_or_eq_of_mem_set hz with hold | rfl
    · exact h.progress z hold
    · exact (h.progress x hmem).step hstep
  · rw [List.length_set]
    exact h.lt p hp q' hq'

/-- A process sends its next signal. -/
theorem Senders.sends {q : ℕ} {x y : Sender} {si : SigInfo} (h : Senders rpid w)
    (hx : w.senders[q]? = some x) (hstep : SenderStep rpid x y (some si)) (full : Bool) :
    Senders rpid ({ w with senders := w.senders.set q y }.send (some q) si full) := by
  have hmem := List.mem_of_getElem? hx
  have hprogress := (h.progress x hmem).step hstep
  obtain ⟨hlt, -⟩ := List.getElem?_eq_some_iff.mp hx
  cases hstep with
  | sends j si hpc hj htarget hinfo =>
      have hsent := (h.progress x hmem).loop j hpc htarget (sig_ne_zero_of_info hinfo)
      refine ⟨fun q' z hz => ?_, fun z hz => ?_, fun p hp q' hq' => ?_⟩
      · by_cases hq : q = q'
        · subst hq
          obtain rfl := Option.some.inj ((List.getElem?_set_self hlt).symm.trans hz)
          have hold : (World.sentBy w q).map some = (List.range x.sent).map x.info :=
            h.values q x hx
          have hnew : [si].map some = [x.sent].map x.info := by
            rw [List.map_singleton, List.map_singleton, hsent, hinfo]
          rw [sentBy_send, if_pos rfl, List.map_append, List.range_succ, List.map_append, hnew]
          exact congrArg (· ++ [x.sent].map x.info) hold
        · rw [sentBy_send, if_neg (fun heq => hq (Option.some.inj heq)), List.append_nil]
          exact h.values q' z ((List.getElem?_set_ne hq).symm.trans hz)
      · rcases List.mem_or_eq_of_mem_set hz with hold | rfl
        · exact h.progress z hold
        · exact hprogress
      · have hlen : (w.senders.set q { x with pc := .loop (j + 1), sent := x.sent + 1 }).length =
            w.senders.length := List.length_set
        show q' < (w.senders.set q _).length
        rw [hlen]
        rcases List.mem_append.mp hp with hold | hnew
        · exact h.lt p hold q' hq'
        · rw [List.mem_singleton.mp hnew] at hq'
          exact Option.some.inj hq' ▸ hlt

/-- Another process is started. -/
theorem Senders.start (h : Senders rpid w) (c : Command) :
    Senders rpid
      { w with senders := w.senders ++ [⟨c.argv, c.pid, c.uid, .start, 0, []⟩] } := by
  refine ⟨fun q x hx => ?_, fun x hx => ?_, fun p hp q hq => ?_⟩
  · rcases Named.concat_cases hx with hold | ⟨rfl, rfl⟩
    · exact h.values q x hold
    · have hnone : World.sentBy w w.senders.length = [] := by
        rw [World.sentBy, List.map_eq_nil_iff, List.filter_eq_nil_iff]
        intro p hp heq
        exact absurd (h.lt p hp _ (of_decide_eq_true heq)) (lt_irrefl _)
      show (World.sentBy w _).map some = []
      rw [hnone, List.map_nil]
  · rcases List.mem_append.mp hx with hold | hnew
    · exact h.progress x hold
    · rw [List.mem_singleton.mp hnew]
      exact ⟨fun _ => rfl, nofun, Nat.zero_le _, nofun⟩
  · rw [List.length_append]
    exact (h.lt p hp q hq).trans_le (Nat.le_add_right _ _)

theorem Senders.step (h : Senders rpid w) (hstep : Step argv0 argv1 prevMask rpid w a v) :
    Senders rpid v := by
  cases hstep with
  | start c => exact h.start c
  | sends q c full x y si hx hsender hsend => exact h.sends hx hsender full
  | quiet q c full x y hx hquiet => exact h.quiet hx hquiet
  | other si full hsend => exact h.other si full
  | deliver sig si rest r htake hnext => exact ⟨h.values, h.progress, h.lt⟩
  | handler r hnext => exact ⟨h.values, h.progress, h.lt⟩
  | main ok r hnext => exact ⟨h.values, h.progress, h.lt⟩

def sampleStart : World := ⟨CatchRtsigs.started, [], [], [], fun _ => false⟩

/-- The process 7 blocks signals; `t_sigqueue` sends it the realtime signal 40 twice, with 5 and 6,
before it unblocks them, and it gets the first one. -/
def sampleRun : List Act :=
  [.main true, .start ⟨[str "t_sigqueue", str "7", str "40", str "5", str "2"], 8, 0⟩,
    .sender 0 .go false, .sender 0 .go false, .sender 0 .go false, .sender 0 .go false, .main true,
    .main true, .main true, .main true, .deliver ⟨40, by decide, by decide⟩, .handler]

/-- A line of the handler, or a text of the main program. -/
inductive Line where
  | caught (si : SigInfo)
  | text (bytes : List UInt8)

def Line.bytes : Line → List UInt8
  | .caught si => caughtText si
  | .text bytes => bytes

def Line.caught? : Line → Option SigInfo
  | .caught si => some si
  | .text _ => none

/-- The signals that the handler reports. -/
def reported (sis : List SigInfo) : List SigInfo :=
  sis.filter fun si => caught si.si_signo && !stops si.si_signo

/-- The signal that the handler is about to report. -/
def inHandler (s : CatchRtsigs.State) : List SigInfo :=
  match s.handler with
  | some (.entry si) => if stops si.si_signo then [] else [si]
  | _ => []

theorem inHandler_entry {s : CatchRtsigs.State} {si : SigInfo} (h : s.handler = some (.entry si)) :
    inHandler s = if stops si.si_signo then [] else [si] := by rw [inHandler, h]

theorem inHandler_none {s : CatchRtsigs.State} (h : s.handler = none) : inHandler s = [] := by
  rw [inHandler, h]

theorem inHandler_sleeping {s : CatchRtsigs.State} (h : s.handler = some .sleeping) :
    inHandler s = [] := by rw [inHandler, h]

theorem inHandler_congr {r s : CatchRtsigs.State} (h : r.handler = s.handler) :
    inHandler r = inHandler s := by rw [inHandler, h, inHandler]

/-- The lines printed between `w₀` and `w`. -/
structure Logged (w₀ w : World) (log : List Line) : Prop where
  stdout : w.recv.stdout = w₀.recv.stdout ++ log.flatMap Line.bytes
  sigCnt : w.recv.sigCnt = w₀.recv.sigCnt + BitVec.ofNat 32 (log.filterMap Line.caught?).length
  begun : log.filterMap Line.caught? <+: reported w.delivered
  handled : (∀ sig, w.recv.pc ≠ .killed sig) →
    reported w.delivered = log.filterMap Line.caught? ++ inHandler w.recv
  killed : ∀ sig, w.recv.pc = .killed sig → w.recv.handler = none

variable {w₀ : World} {log : List Line}

theorem Logged.init (h : Init w) : Logged w w [] := by
  refine ⟨(List.append_nil _).symm, (BitVec.add_zero _).symm, List.nil_prefix, fun _ => ?_,
    fun sig hpc => ?_⟩
  · rw [h.delivered, inHandler, h.recv.handler]
    rfl
  · exact h.recv.handler

/-- A step in which the receiver takes no part. -/
theorem Logged.keep (h : Logged w₀ w log) (hdelivered : v.delivered = w.delivered)
    (hstdout : v.recv.stdout = w.recv.stdout) (hsigCnt : v.recv.sigCnt = w.recv.sigCnt)
    (hhandler : v.recv.handler = w.recv.handler) (hpc : v.recv.pc = w.recv.pc) :
    Logged w₀ v log := by
  have hin := inHandler_congr hhandler
  refine ⟨hstdout.trans h.stdout, hsigCnt.trans h.sigCnt, hdelivered ▸ h.begun, fun hkilled => ?_,
    fun sig hsig => hhandler.trans (h.killed sig (hpc ▸ hsig))⟩
  rw [hdelivered, hin]
  exact h.handled (hpc ▸ hkilled)

theorem reported_concat (sis : List SigInfo) (si : SigInfo) :
    reported (sis ++ [si]) =
      reported sis ++ if caught si.si_signo && !stops si.si_signo then [si] else [] := by
  rw [reported, List.filter_append]
  cases h : caught si.si_signo && !stops si.si_signo <;> simp [reported, h]

theorem Logged.deliver {sig : Signal} {si : SigInfo} {rest : List SigInfo}
    {r : CatchRtsigs.State} (h : Logged w₀ w log) (hsig : si.si_signo = sig)
    (hd : Delivered w.recv sig si rest r) :
    Logged w₀ { w with recv := r, delivered := w.delivered ++ [si] } log := by
  have halive : ∀ sig, w.recv.pc ≠ .killed sig := fun sig hpc => by
    have halive := hd.alive
    rw [hpc] at halive
    cases halive
  have hhandled := h.handled halive
  refine ⟨hd.stdout.trans h.stdout, hd.sigCnt.trans h.sigCnt, ?_, fun hkilled => ?_,
    fun sig' hpc => ?_⟩
  · rw [reported_concat]
    exact h.begun.trans (List.prefix_append _ _)
  · simp only at hkilled ⊢
    rw [reported_concat, hhandled, hsig]
    rcases hd.handler with ⟨hcaught, hnone, hentry, -⟩ | ⟨hcaught, hsame, -⟩ | ⟨-, -, hpc⟩
    · rw [inHandler_none hnone, List.append_nil, inHandler_entry hentry, hcaught, Bool.true_and,
        hsig]
      cases stops sig <;> rfl
    · rw [hcaught, Bool.false_and, if_neg Bool.false_ne_true, List.append_nil,
        inHandler_congr hsame]
    · exact absurd hpc (hkilled sig)
  · rcases hd.handler with ⟨-, -, -, hpc'⟩ | ⟨-, -, hpc'⟩ | ⟨-, hnone, -⟩
    · exact absurd (hpc'.symm.trans hpc) (halive sig')
    · exact absurd (hpc'.symm.trans hpc) (halive sig')
    · exact hnone

theorem Logged.handler {r : CatchRtsigs.State} (h : Logged w₀ w log)
    (hnext : w.recv.next argv0 argv1 prevMask .handler = some r) :
    ∃ log, Logged w₀ { w with recv := r } log := by
  obtain ⟨-, hpc, hcases⟩ := next_handler hnext
  have halive : ∀ sig, w.recv.pc ≠ .killed sig := fun sig hkilled => by
    have hnone := h.killed sig hkilled
    rcases hcases with ⟨si, hentry, -⟩ | ⟨si, hentry, -⟩ | ⟨hsleeping, -⟩
    · exact nomatch hnone.symm.trans hentry
    · exact nomatch hnone.symm.trans hentry
    · exact nomatch hnone.symm.trans hsleeping
  have halive' : ∀ sig, r.pc ≠ .killed sig := fun sig hkilled => halive sig (hpc sig hkilled)
  have hhandled := h.handled halive
  rcases hcases with ⟨si, hentry, hstops, hnone, hstdout, hsigCnt⟩ |
    ⟨si, hentry, hstops, hsleeping, hstdout, hsigCnt⟩ | ⟨hsleeping, hnone, hstdout, hsigCnt⟩
  · refine ⟨log, hstdout.trans h.stdout, hsigCnt.trans h.sigCnt, h.begun, fun _ => ?_,
      fun sig hkilled => absurd hkilled (halive' sig)⟩
    rw [inHandler_entry hentry, if_pos hstops] at hhandled
    rw [inHandler_none hnone]
    exact hhandled
  · have hcaught : (log ++ [Line.caught si]).filterMap Line.caught? =
        log.filterMap Line.caught? ++ [si] := by
      rw [List.filterMap_append]
      rfl
    rw [inHandler_entry hentry, hstops, if_neg Bool.false_ne_true] at hhandled
    refine ⟨log ++ [.caught si], ?_, ?_, ?_, fun _ => ?_,
      fun sig hkilled => absurd hkilled (halive' sig)⟩
    · rw [List.flatMap_append, ← List.append_assoc, ← h.stdout]
      exact hstdout.trans (by rw [List.flatMap_singleton]; rfl)
    · rw [hcaught, List.length_append, BitVec.ofNat_add, ← BitVec.add_assoc, ← h.sigCnt]
      exact hsigCnt
    · rw [hcaught, hhandled]
    · rw [hcaught, inHandler_sleeping hsleeping, List.append_nil]
      exact hhandled
  · refine ⟨log, hstdout.trans h.stdout, hsigCnt.trans h.sigCnt, h.begun, fun _ => ?_,
      fun sig hkilled => absurd hkilled (halive' sig)⟩
    rw [inHandler_sleeping hsleeping] at hhandled
    rw [inHandler_none hnone]
    exact hhandled

theorem Logged.main {ok : Bool} {r : CatchRtsigs.State} (h : Logged w₀ w log)
    (hnext : w.recv.next argv0 argv1 prevMask (.main ok) = some r) :
    ∃ log, Logged w₀ { w with recv := r } log := by
  obtain ⟨hnone, hnone', -, hsigCnt, ⟨text, hstdout⟩, hpc', hpc⟩ := next_main hnext
  have hcaught : (log ++ [Line.text text]).filterMap Line.caught? = log.filterMap Line.caught? := by
    rw [List.filterMap_append]
    exact List.append_nil _
  refine ⟨log ++ [.text text], ?_, ?_, ?_, fun _ => ?_,
    fun sig hkilled => absurd hkilled (hpc' sig)⟩
  · rw [List.flatMap_append, ← List.append_assoc, ← h.stdout]
    exact hstdout.trans (by rw [List.flatMap_singleton]; rfl)
  · rw [hcaught, ← h.sigCnt]
    exact hsigCnt
  · rw [hcaught]
    exact h.begun
  · have hhandled := h.handled hpc
    rw [inHandler_none hnone] at hhandled
    rw [hcaught, inHandler_none hnone']
    exact hhandled

theorem Logged.step (h : Logged w₀ w log) (hstep : Step argv0 argv1 prevMask rpid w a v) :
    ∃ log, Logged w₀ v log := by
  cases hstep with
  | start c => exact ⟨log, h.keep rfl rfl rfl rfl rfl⟩
  | sends q c full x y si hx hsender hsend => exact ⟨log, h.keep rfl rfl rfl rfl rfl⟩
  | quiet q c full x y hx hquiet => exact ⟨log, h.keep rfl rfl rfl rfl rfl⟩
  | other si full hsend => exact ⟨log, h.keep rfl rfl rfl rfl rfl⟩
  | deliver sig si rest r htake hnext =>
      exact ⟨log, h.deliver (takePending_eq_some htake).1 (delivered_of_next htake hnext)⟩
  | handler r hnext => exact h.handler hnext
  | main ok r hnext => exact h.main hnext

end Tlpi.TSigqueue
