import Tlpi.Lib.Transition
import Tlpi.Posix.Mqueue

set_option autoImplicit false

/-! # Notification by a signal (posix_message_queues/mq_notify_signal.c)

The process blocks SIGUSR1, registers for notification and then repeats: wait in `sigsuspend` for
the signal, register again, and receive messages until the queue is empty. Other processes use the
queue at any time between two of its system calls.

Registering before draining is what makes this work. A message that comes after the registration
is either received in the drain, or it comes to the empty queue and raises the signal, which stays
pending until the next `sigsuspend` since it is blocked everywhere else.
-/

namespace Tlpi.NotifySignal

/-- Why the process has ended: a failed call, or a signal. -/
inductive Exit where
  | usage
  | mqOpen
  | mqGetattr
  | malloc
  | sigprocmask
  | sigaction
  | mqNotify (e : Errno)
  | mqReceive (e : Errno)
  | killed
deriving DecidableEq, Repr

/-- What the program says on `stderr`: the usage message without `argv[0]`, or the text given to
`perror`. -/
def Exit.message : Exit → List UInt8
  | .usage => str " mq-name\n"
  | .mqOpen => str "mq_open"
  | .mqGetattr => str "mq_getattr"
  | .malloc => str "malloc"
  | .sigprocmask => str "sigprocmask"
  | .sigaction => str "sigaction"
  | .mqNotify _ => str "mq_notify"
  | .mqReceive _ => str "mq_receive - unaccounted error"
  | .killed => []

/-- The system call the process is at. There are two calls of `mq_notify`: the first one, and the
one in the loop. -/
inductive Pc where
  | mqOpen
  | mqGetattr
  | malloc
  | sigprocmask
  | sigaction
  | mqNotifyFirst
  | sigsuspend
  | mqNotify
  | mqReceive
  | exited (why : Exit)
deriving DecidableEq, Repr

/-- The queue and the process. `blocked` and `pending` are about SIGUSR1; `handler` says that
`handler` is installed for it. -/
structure State where
  mq : Mqueue
  pc : Pc
  blocked : Bool
  handler : Bool
  pending : Bool
  stdout : List UInt8
  stderr : List UInt8

inductive Act where
  | call (ok : Bool)
  | mqNotify
  | deliver
  | mqReceive (refill : Option Message)
  | mqReceiveError (e : Errno)
  | kill
  | other (a : Mqueue.Use)
deriving DecidableEq, Repr

/-- The calls before the first `mq_notify`: the call that follows, and how the program ends if this
one fails. -/
def Pc.startup? : Pc → Option (Pc × Exit)
  | .mqOpen => some (.mqGetattr, .mqOpen)
  | .mqGetattr => some (.malloc, .mqGetattr)
  | .malloc => some (.sigprocmask, .malloc)
  | .sigprocmask => some (.sigaction, .sigprocmask)
  | .sigaction => some (.mqNotifyFirst, .sigaction)
  | _ => none

/-- `exit(EXIT_FAILURE)`, or the end by a signal. The registration and the pending signal end with
the process. -/
def State.exit (s : State) (why : Exit) : State :=
  { s with
    pc := .exited why
    mq := s.mq.unregister
    pending := false
    stderr := s.stderr ++ why.message }

def State.next (s : State) : Act → Option State
  | .call ok =>
      match s.pc.startup? with
      | none => none
      | some (pc, why) =>
          if ok then
            some { s with
              pc := pc
              blocked := s.blocked || decide (s.pc = .sigprocmask)
              handler := s.handler || decide (s.pc = .sigaction) }
          else some (s.exit why)
  | .mqNotify =>
      match s.pc with
      | .mqNotifyFirst =>
          match s.mq.notify with
          | .ok q => some { s with mq := q, pc := .sigsuspend }
          | .error e => some (s.exit (.mqNotify e))
      | .mqNotify =>
          match s.mq.notify with
          | .ok q => some { s with mq := q, pc := .mqReceive }
          | .error e => some (s.exit (.mqNotify e))
      | _ => none
  | .deliver =>
      -- `sigsuspend(&emptyMask)` unblocks the signal and returns after the handler
      if s.pending = true ∧ (s.blocked = false ∨ s.pc = .sigsuspend) then
        if s.handler then
          some { s with pending := false, pc := if s.pc = .sigsuspend then .mqNotify else s.pc }
        else some (s.exit .killed)
      else none
  | .mqReceive refill =>
      if s.pc = .mqReceive then
        (s.mq.receive refill).map fun r =>
          { s with mq := r.2, stdout := s.stdout ++ printRead r.1.data.length }
      else none
  | .mqReceiveError e =>
      -- the queue is open with O_NONBLOCK
      if s.pc = .mqReceive then
        if e = .EAGAIN then
          if s.mq.messages = [] then some { s with pc := .sigsuspend } else none
        else some (s.exit (.mqReceive e))
      else none
  | .kill =>
      match s.pc with
      | .exited _ => none
      | _ => some (s.exit .killed)
  | .other a => (s.mq.use a).map fun r => { s with mq := r.1, pending := s.pending || r.2 }

/-- `argc != 2 || strcmp(argv[1], "--help") == 0`, for the arguments after the program's name. -/
def startPc : List (List UInt8) → Pc
  | [name] => if name = str "--help" then .exited .usage else .mqOpen
  | _ => .exited .usage

/-- The queue may hold any messages; nobody is registered, and no SIGUSR1 is on its way. -/
structure Init (s : State) : Prop where
  pc : ∃ argv, s.pc = startPc argv
  registered : s.mq.registered = false
  pending : s.pending = false
  handler : s.handler = false
  stdout : s.stdout = []
  stderr : s.stderr = match s.pc with
    | .exited why => why.message
    | _ => []

def system : TransSys State Act where
  Init := Init
  step := State.next

/-! ## The invariant -/

/-- The process has not registered, or a signal has told it that it is not registered any more. -/
def Pc.unregistered : Pc → Bool
  | .sigsuspend => false
  | .mqReceive => false
  | _ => true

/-- SIGUSR1 has been blocked. -/
def Pc.masked : Pc → Bool
  | .sigaction => true
  | .mqNotifyFirst => true
  | .sigsuspend => true
  | .mqNotify => true
  | .mqReceive => true
  | _ => false

structure Inv (s : State) : Prop where
  unregistered : s.pc.unregistered = true → s.mq.registered = false ∧ s.pending = false
  /-- From a registration to the `sigsuspend` that ends it, either it stands or the signal it gave
  rise to is pending. -/
  listening : s.pc.unregistered = false → s.mq.registered = !s.pending
  masked : s.pc.masked = true → s.blocked = true
  notBusy : ∀ e, s.pc ≠ .exited (.mqNotify e)

variable {s t : State}

theorem Pc.startup_spec {pc pc' : Pc} {why : Exit} (h : pc.startup? = some (pc', why)) :
    pc.unregistered = true ∧ pc'.unregistered = true
      ∧ (pc'.masked = true → pc.masked = true ∨ pc = .sigprocmask)
      ∧ (∀ e, pc' ≠ .exited (.mqNotify e)) ∧ ∀ e, why ≠ .mqNotify e := by
  cases pc <;> simp only [Pc.startup?, reduceCtorEq, Option.some.injEq, Prod.mk.injEq] at h
  all_goals
    obtain ⟨rfl, rfl⟩ := h
    simp [Pc.unregistered, Pc.masked]

theorem startPc_cases (argv : List (List UInt8)) :
    startPc argv = .mqOpen ∨ startPc argv = .exited .usage := by
  unfold startPc
  split
  · split
    · exact Or.inr rfl
    · exact Or.inl rfl
  · exact Or.inr rfl

theorem inv_init (h : Init s) : Inv s := by
  obtain ⟨argv, hpc⟩ := h.pc
  rcases startPc_cases argv with hstart | hstart
  · rw [hstart] at hpc
    exact ⟨fun _ => ⟨h.registered, h.pending⟩, by simp [hpc, Pc.unregistered],
      by simp [hpc, Pc.masked], by simp [hpc]⟩
  · rw [hstart] at hpc
    exact ⟨fun _ => ⟨h.registered, h.pending⟩, by simp [hpc, Pc.unregistered],
      by simp [hpc, Pc.masked], by simp [hpc]⟩

theorem inv_exit (s : State) {why : Exit} (hwhy : ∀ e, why ≠ .mqNotify e) : Inv (s.exit why) where
  unregistered _ := ⟨rfl, rfl⟩
  listening h := nomatch h
  masked h := nomatch h
  notBusy e h := hwhy e (Pc.exited.inj h)

theorem Inv.listens (h : Inv s) (hsome : s.mq.registered = true ∨ s.pending = true) :
    s.pc.unregistered = false := by
  by_contra hun
  rw [Bool.not_eq_false] at hun
  obtain ⟨hreg, hpending⟩ := h.unregistered hun
  rw [hreg, hpending] at hsome
  rcases hsome with hsome | hsome <;> cases hsome

/-- A call of `mq_notify` by the unregistered process succeeds. -/
theorem Inv.registers (h : Inv s) (hpc : s.pc.unregistered = true) {pc : Pc}
    (hlisten : pc.unregistered = false) (hmask : s.pc.masked = true) :
    Inv { s with mq := { s.mq with registered := true }, pc := pc } where
  unregistered hun := nomatch hlisten.symm.trans hun
  listening _ := by simp [(h.unregistered hpc).2]
  masked _ := h.masked hmask
  notBusy := by
    rintro e rfl
    cases hlisten

/-- A call before the loop. -/
theorem Inv.call {ok : Bool} (h : Inv s) (hnext : s.next (.call ok) = some t) : Inv t := by
  simp only [State.next] at hnext
  split at hnext
  · cases hnext
  · rename_i pc why hstart
    obtain ⟨hun, hun', hmask, hpc, hwhy⟩ := Pc.startup_spec hstart
    split at hnext
    · obtain rfl := Option.some.inj hnext
      refine ⟨fun _ => h.unregistered hun, ?_, ?_, hpc⟩
      · intro hl
        exact absurd (hl.symm.trans hun') Bool.false_ne_true
      intro hm
      show (s.blocked || decide (s.pc = .sigprocmask)) = true
      rcases hmask hm with hm | hm
      · simp [h.masked hm]
      · simp [hm]
    · obtain rfl := Option.some.inj hnext
      exact inv_exit s hwhy

theorem Inv.mqNotify (h : Inv s) (hnext : s.next .mqNotify = some t) : Inv t := by
  simp only [State.next] at hnext
  split at hnext
  · rename_i hpc
    have hun : s.pc.unregistered = true := by rw [hpc]; rfl
    rw [Mqueue.notify_of_unregistered (h.unregistered hun).1] at hnext
    obtain rfl := Option.some.inj hnext
    exact h.registers hun rfl (by rw [hpc]; rfl)
  · rename_i hpc
    have hun : s.pc.unregistered = true := by rw [hpc]; rfl
    rw [Mqueue.notify_of_unregistered (h.unregistered hun).1] at hnext
    obtain rfl := Option.some.inj hnext
    exact h.registers hun rfl (by rw [hpc]; rfl)
  · cases hnext

/-- The signal is delivered. -/
theorem Inv.deliver (h : Inv s) (hnext : s.next .deliver = some t) : Inv t := by
  simp only [State.next] at hnext
  split at hnext
  · rename_i hdeliver
    obtain ⟨hpending, hwhere⟩ := hdeliver
    -- a signal can be pending only in a place where it is blocked
    have hlisten := h.listens (Or.inr hpending)
    have hmasked : s.pc.masked = true := by
      revert hlisten
      cases s.pc <;> simp [Pc.unregistered, Pc.masked]
    -- so it is delivered in `sigsuspend` and nowhere else
    have hpc : s.pc = .sigsuspend :=
      hwhere.resolve_left (by simp [h.masked hmasked])
    split at hnext
    · obtain rfl := Option.some.inj hnext
      have hreg : s.mq.registered = false := by simp [h.listening hlisten, hpending]
      exact ⟨fun _ => ⟨hreg, rfl⟩, (fun hl => nomatch hl), fun _ => h.masked hmasked,
        (fun e he => nomatch he)⟩
    · obtain rfl := Option.some.inj hnext
      exact inv_exit s fun e he => nomatch he
  · cases hnext

theorem Inv.mqReceiveError {e : Errno} (h : Inv s) (hnext : s.next (.mqReceiveError e) = some t) :
    Inv t := by
  simp only [State.next] at hnext
  split at hnext
  · rename_i hpc
    split at hnext
    · split at hnext
      · obtain rfl := Option.some.inj hnext
        have hlisten : s.pc.unregistered = false := by rw [hpc]; rfl
        exact ⟨(fun hun => nomatch hun), fun _ => h.listening hlisten,
          fun _ => h.masked (by rw [hpc]; rfl), (fun e he => nomatch he)⟩
      · cases hnext
    · obtain rfl := Option.some.inj hnext
      exact inv_exit s fun e he => nomatch he
  · cases hnext

/-- Another process uses the queue. -/
theorem Inv.used {q : Mqueue} {fired : Bool} (h : Inv s) (hused : Mqueue.Used s.mq q fired) :
    Inv { s with mq := q, pending := s.pending || fired } := by
  cases hused with
  | notified hreg hempty hreg' =>
      -- there was a registration, so the process listens and the signal is now pending
      have hlisten := h.listens (Or.inl hreg)
      refine ⟨?_, fun _ => by simp [hreg'], h.masked, h.notBusy⟩
      intro hun
      exact absurd (hlisten.symm.trans hun) Bool.false_ne_true
  | silent hreg hempty =>
      refine ⟨?_, ?_, h.masked, h.notBusy⟩
      · intro hun
        exact ⟨hreg.trans (h.unregistered hun).1, by simp [(h.unregistered hun).2]⟩
      · intro hl
        show q.registered = !(s.pending || false)
        rw [hreg, h.listening hl, Bool.or_false]

theorem Inv.step {a : Act} (h : Inv s) (hnext : s.next a = some t) : Inv t := by
  cases a with
  | call ok => exact h.call hnext
  | mqNotify => exact h.mqNotify hnext
  | deliver => exact h.deliver hnext
  | mqReceiveError e => exact h.mqReceiveError hnext
  | mqReceive refill =>
      simp only [State.next] at hnext
      split at hnext
      · obtain ⟨⟨m, q⟩, hrec, rfl⟩ := Option.map_eq_some_iff.mp hnext
        obtain ⟨-, hreg⟩ := Mqueue.receive_spec hrec
        refine ⟨?_, ?_, h.masked, h.notBusy⟩
        · intro hun
          exact ⟨hreg.trans (h.unregistered hun).1, (h.unregistered hun).2⟩
        · intro hl
          exact hreg.trans (h.listening hl)
      · cases hnext
  | kill =>
      simp only [State.next] at hnext
      split at hnext
      · cases hnext
      · obtain rfl := Option.some.inj hnext
        exact inv_exit s fun e he => nomatch he
  | other a =>
      obtain ⟨⟨q, fired⟩, huse, rfl⟩ := Option.map_eq_some_iff.mp hnext
      exact h.used (Mqueue.used_of_use huse)

theorem inv_reachable (h : system.Reachable s) : Inv s :=
  h.invariant (P := Inv) (fun _ h₀ => inv_init h₀) fun _ _ _ hs hstep => hs.step hstep

/-! ## No lost wake-up -/

def Pc.starting : Pc → Bool
  | .sigsuspend => false
  | .mqNotify => false
  | .mqReceive => false
  | .exited _ => false
  | _ => true

/-- What holds once the drain loop has ended for the first time: the process has started up, and
when it waits with its registration in place the queue is empty. -/
structure Drained (s : State) : Prop where
  started : s.pc.starting = false
  empty : s.pc = .sigsuspend → s.mq.registered = true → s.mq.messages = []

theorem drained_of_eagain (h : s.next (.mqReceiveError .EAGAIN) = some t) : Drained t := by
  simp only [State.next] at h
  split at h
  · rw [if_pos trivial] at h
    split at h
    · rename_i hempty
      obtain rfl := Option.some.inj h
      exact ⟨rfl, fun _ _ => hempty⟩
    · cases h
  · cases h

theorem drained_exit (s : State) (why : Exit) : Drained (s.exit why) where
  started := rfl
  empty h := nomatch h

theorem Drained.step {a : Act} (h : Drained s) (hnext : s.next a = some t) : Drained t := by
  cases a with
  | call ok =>
      have hnone : s.pc.startup? = none := by
        have hstarted := h.started
        revert hstarted
        cases s.pc <;> simp [Pc.starting, Pc.startup?]
      simp [State.next, hnone] at hnext
  | mqNotify =>
      simp only [State.next] at hnext
      split at hnext
      · -- the first `mq_notify`, which may leave messages unnoticed, is over
        rename_i hpc
        have hstarted := h.started
        rw [hpc] at hstarted
        cases hstarted
      · split at hnext
        · obtain rfl := Option.some.inj hnext
          exact ⟨rfl, fun hpc => nomatch hpc⟩
        · obtain rfl := Option.some.inj hnext
          exact drained_exit s _
      · cases hnext
  | deliver =>
      simp only [State.next] at hnext
      split at hnext
      · split at hnext
        · obtain rfl := Option.some.inj hnext
          by_cases hpc : s.pc = .sigsuspend
          · simp only [if_pos hpc]
            exact ⟨rfl, fun hpc' => nomatch hpc'⟩
          · simp only [if_neg hpc]
            exact ⟨h.started, fun hpc' => absurd hpc' hpc⟩
        · obtain rfl := Option.some.inj hnext
          exact drained_exit s _
      · cases hnext
  | mqReceive refill =>
      simp only [State.next] at hnext
      split at hnext
      · rename_i hpc
        obtain ⟨r, -, rfl⟩ := Option.map_eq_some_iff.mp hnext
        exact ⟨h.started, fun hpc' => nomatch hpc.symm.trans hpc'⟩
      · cases hnext
  | mqReceiveError e =>
      by_cases he : e = .EAGAIN
      · subst he
        exact drained_of_eagain hnext
      · simp only [State.next, if_neg he] at hnext
        split at hnext
        · obtain rfl := Option.some.inj hnext
          exact drained_exit s _
        · cases hnext
  | kill =>
      simp only [State.next] at hnext
      split at hnext
      · cases hnext
      · obtain rfl := Option.some.inj hnext
        exact drained_exit s _
  | other a =>
      obtain ⟨⟨q, fired⟩, huse, rfl⟩ := Option.map_eq_some_iff.mp hnext
      refine ⟨h.started, ?_⟩
      intro hpc hreg'
      cases Mqueue.used_of_use huse with
      | notified hreg hempty hgone => exact absurd (hgone.symm.trans hreg') Bool.false_ne_true
      | silent hsame hempty =>
          -- under a standing registration nobody fills the empty queue silently
          have hreg : s.mq.registered = true := hsame.symm.trans hreg'
          exact hempty hreg (h.empty hpc hreg)

/-- **No lost wake-up in steady state.** Whatever the other processes do with the queue: the
`mq_notify` in the loop never finds a registration (and no `mq_notify` ends the program), and from
the end of a drain on, whenever the process waits in `sigsuspend` with no signal pending, it is
registered and the queue is empty. -/
theorem no_lost_wakeup (h : system.Reachable s) :
    (s.pc = .mqNotify → s.mq.notify ≠ .error .EBUSY) ∧ (∀ e, s.pc ≠ .exited (.mqNotify e))
      ∧ ∀ t as u, s.next (.mqReceiveError .EAGAIN) = some t → system.run t as = some u →
        u.pc = .sigsuspend → u.pending = false → u.mq.registered = true ∧ u.mq.messages = [] := by
  have hinv := inv_reachable h
  refine ⟨?_, hinv.notBusy, ?_⟩
  · intro hpc hbusy
    rw [Mqueue.notify_of_unregistered (hinv.unregistered (by rw [hpc]; rfl)).1] at hbusy
    cases hbusy
  · intro t as u hdrain hrun hpc hpending
    have hstep : ∀ s a t, Inv s ∧ Drained s → system.step s a = some t → Inv t ∧ Drained t :=
      fun _ _ _ hs hnext => ⟨hs.1.step hnext, hs.2.step hnext⟩
    obtain ⟨hinv', hdrained⟩ :=
      TransSys.run_preserves hstep ⟨hinv.step hdrain, drained_of_eagain hdrain⟩ hrun
    have hreg : u.mq.registered = true := by
      rw [hinv'.listening (by rw [hpc]; rfl), hpending]
      rfl
    exact ⟨hreg, hdrained.empty hpc hreg⟩

/-- A queue with one message in it when the program starts. -/
def State.oneMessage : State where
  mq := .withOld
  pc := startPc [str "/mq"]
  blocked := false
  handler := false
  pending := false
  stdout := []
  stderr := []

/-- Another process takes the message away and sends one, which wakes the process up; a further
message arrives before the process registers again, and it drains both. -/
def wakeUp : List Act :=
  [.call true, .call true, .call true, .call true, .call true, .mqNotify,
    .other (.receive none), .other (.send ⟨0, str "a"⟩), .deliver, .other (.send ⟨1, str "bc"⟩),
    .mqNotify, .mqReceive none, .mqReceive none]

theorem no_lost_wakeup_wakeUp : ∃ s t, system.Reachable s
    ∧ s.next (.mqReceiveError .EAGAIN) = some t ∧ t.stdout = str "Read 2 bytes\nRead 1 bytes\n"
    ∧ t.pc = .sigsuspend ∧ t.mq.registered = true ∧ t.mq.messages = [] := by
  have hinit : system.Init State.oneMessage := ⟨⟨[str "/mq"], rfl⟩, rfl, rfl, rfl, rfl, rfl⟩
  have hreach : system.Reachable ((system.run State.oneMessage wakeUp).get (by decide)) :=
    ⟨_, wakeUp, hinit, (Option.some_get _).symm⟩
  have hdrain := ((((system.run State.oneMessage wakeUp).get (by decide)).next
    (.mqReceiveError .EAGAIN)).some_get (by decide)).symm
  exact ⟨_, _, hreach, hdrain, by decide, by decide,
    (no_lost_wakeup hreach).2.2 _ [] _ hdrain rfl (by decide) (by decide)⟩

end Tlpi.NotifySignal
