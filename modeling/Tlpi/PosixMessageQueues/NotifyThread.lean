import Tlpi.Lib.Crowd
import Tlpi.Posix.Mqueue

set_option autoImplicit false

/-! # Notification by a thread (posix_message_queues/mq_notify_thread.c)

`main` registers once and then waits for ever. Each notification starts a thread that runs
`threadFunc`: it registers again and receives messages until the queue is empty. Threads overlap: as
soon as one has registered, the next message to the empty queue may start another while the first
still drains.

The right to register is a token. It is with the kernel while a registration stands, and a
notification hands it to the thread it starts, which gives it back in its `notifySetup`.
-/

namespace Tlpi.NotifyThread

/-- Why the process has ended: a failed call, or a signal. -/
inductive Exit where
  | usage
  | mqOpen
  | mqGetattr
  | malloc
  | mqNotify (e : Errno)
  | mqReceive (e : Errno)
  | killed
deriving DecidableEq, Repr

/-- What the program says on `stderr`: the usage message without `argv[0]`, or the text given to
`perror`. -/
def Exit.message : Exit → List UInt8
  | .usage => str " mq-name\n"
  | .mqOpen => str "mq_open"
  | .mqGetattr => str "mq_getattr"
  | .malloc => str "malloc"
  | .mqNotify _ => str "mq_notify"
  | .mqReceive _ => str "unexpected error mq_receive"
  | .killed => []

/-- The call `main` is at; `pause` does not return, as the program handles no signal. -/
inductive MainPc where
  | mqOpen
  | notifySetup
  | pause
  | exited (why : Exit)
deriving DecidableEq, Repr

/-- The call a run of `threadFunc` is at; `created` is a thread about to start. -/
inductive ThreadPc where
  | created
  | mqGetattr
  | malloc
  | notifySetup
  | mqReceive
  | finished
deriving DecidableEq, Repr

structure State where
  mq : Mqueue
  main : MainPc
  threads : List ThreadPc
  stdout : List UInt8
  stderr : List UInt8

/-- What the call of a thread returned. -/
inductive ThreadResult where
  | start
  | mqGetattr (ok : Bool)
  | malloc (ok : Bool)
  | notifySetup
  | mqReceive (refill : Option Message)
  | mqReceiveError (e : Errno)
deriving DecidableEq, Repr

inductive Act where
  | mqOpen (ok : Bool)
  | notifySetup
  | thread (i : ℕ) (r : ThreadResult)
  | kill
  | other (a : Mqueue.Use)
deriving DecidableEq, Repr

/-- `exit(EXIT_FAILURE)`, or the end by a signal: it ends all threads and the registration. -/
def State.exit (s : State) (why : Exit) : State :=
  { s with
    main := .exited why
    threads := []
    mq := s.mq.unregister
    stderr := s.stderr ++ why.message }

/-- `notifySetup(mqdp)`, followed by `k`. -/
def State.notifySetup (s : State) (k : State → State) : State :=
  match s.mq.notify with
  | .ok q => k { s with mq := q }
  | .error e => s.exit (.mqNotify e)

def State.setThread (s : State) (i : ℕ) (pc : ThreadPc) : State :=
  { s with threads := s.threads.set i pc }

/-- `threadFunc` in the `i`-th thread. -/
def State.threadNext (s : State) (i : ℕ) (r : ThreadResult) : Option State :=
  match s.threads[i]?, r with
  | some .created, .start => some (s.setThread i .mqGetattr)
  | some .mqGetattr, .mqGetattr ok =>
      some (if ok then s.setThread i .malloc else s.exit .mqGetattr)
  | some .malloc, .malloc ok =>
      some (if ok then s.setThread i .notifySetup else s.exit .malloc)
  | some .notifySetup, .notifySetup => some (s.notifySetup (·.setThread i .mqReceive))
  | some .mqReceive, .mqReceive refill =>
      (s.mq.receive refill).map fun r =>
        { s with mq := r.2, stdout := s.stdout ++ printRead r.1.data.length }
  | some .mqReceive, .mqReceiveError e =>
      if e = .EAGAIN then
        if s.mq.messages = [] then some (s.setThread i .finished) else none
      else some (s.exit (.mqReceive e))
  | _, _ => none

def State.next (s : State) : Act → Option State
  | .mqOpen ok =>
      if s.main = .mqOpen then
        some (if ok then { s with main := .notifySetup } else s.exit .mqOpen)
      else none
  | .notifySetup =>
      if s.main = .notifySetup then some (s.notifySetup ({ · with main := .pause })) else none
  | .thread i r => s.threadNext i r
  | .kill =>
      match s.main with
      | .exited _ => none
      | _ => some (s.exit .killed)
  | .other a =>
      (s.mq.use a).map fun r =>
        { s with
          mq := r.1
          threads := if r.2 then s.threads ++ [.created] else s.threads }

/-- `argc != 2 || strcmp(argv[1], "--help") == 0`, for the arguments after the program's name. -/
def startMain : List (List UInt8) → MainPc
  | [name] => if name = str "--help" then .exited .usage else .mqOpen
  | _ => .exited .usage

/-- The queue may hold any messages, and nobody is registered. -/
structure Init (s : State) : Prop where
  main : ∃ argv, s.main = startMain argv
  registered : s.mq.registered = false
  threads : s.threads = []
  stdout : s.stdout = []
  stderr : s.stderr = match s.main with
    | .exited why => why.message
    | _ => []

def system : TransSys State Act where
  Init := Init
  step := State.next

/-! ## What a step can do -/

/-- The thread has not executed its `notifySetup` yet. -/
def ThreadPc.beforeSetup : ThreadPc → Bool
  | .mqReceive => false
  | .finished => false
  | _ => true

/-- Somebody is about to call `mq_notify`. -/
def State.AtSetup (s : State) : Prop :=
  s.main = .notifySetup ∨ ∃ i : ℕ, s.threads[i]? = some .notifySetup

inductive State.Step (s : State) : State → Prop where
  | opened (hmain : s.main = .mqOpen) : Step s { s with main := .notifySetup }
  | setup (hmain : s.main = .notifySetup) (hreg : s.mq.registered = false) :
      Step s { s with mq := { s.mq with registered := true }, main := .pause }
  | busy (hat : s.AtSetup) (hreg : s.mq.registered = true) : Step s (s.exit (.mqNotify .EBUSY))
  | exit (why : Exit) (hwhy : ∀ e, why ≠ .mqNotify e) : Step s (s.exit why)
  | advance (i : ℕ) (pc pc' : ThreadPc) (hi : s.threads[i]? = some pc)
      (hpc : pc.beforeSetup = true) (hpc' : pc'.beforeSetup = true) : Step s (s.setThread i pc')
  | rearm (i : ℕ) (hi : s.threads[i]? = some .notifySetup) (hreg : s.mq.registered = false) :
      Step s { s with
        mq := { s.mq with registered := true }
        threads := s.threads.set i .mqReceive }
  | receive (q : Mqueue) (out : List UInt8) (hne : s.mq.messages ≠ [])
      (hreg : q.registered = s.mq.registered) (i : ℕ) (hi : s.threads[i]? = some .mqReceive) :
      Step s { s with mq := q, stdout := out }
  | finish (i : ℕ) (hi : s.threads[i]? = some .mqReceive) (hempty : s.mq.messages = []) :
      Step s (s.setThread i .finished)
  | other (q : Mqueue) (fired : Bool) (hused : s.mq.Used q fired) :
      Step s { s with mq := q, threads := if fired then s.threads ++ [.created] else s.threads }

variable {s t : State}

theorem State.notifySetup_eq (s : State) (k : State → State) :
    s.notifySetup k = if s.mq.registered then s.exit (.mqNotify .EBUSY)
      else k { s with mq := { s.mq with registered := true } } := by
  cases hreg : s.mq.registered with
  | false => simp [State.notifySetup, Mqueue.notify, hreg]
  | true => simp [State.notifySetup, Mqueue.notify, hreg]

theorem State.step_of_threadNext {i : ℕ} {r : ThreadResult} (h : s.threadNext i r = some t) :
    Step s t := by
  unfold State.threadNext at h
  split at h
  · rename_i hi
    obtain rfl := Option.some.inj h
    exact .advance i _ _ hi rfl rfl
  · rename_i ok hi
    obtain rfl := Option.some.inj h
    split
    · exact .advance i _ _ hi rfl rfl
    · exact .exit _ fun e he => by cases he
  · rename_i ok hi
    obtain rfl := Option.some.inj h
    split
    · exact .advance i _ _ hi rfl rfl
    · exact .exit _ fun e he => by cases he
  · rename_i hi
    obtain rfl := Option.some.inj h
    rw [State.notifySetup_eq]
    split
    · rename_i hreg
      exact .busy (Or.inr ⟨i, hi⟩) hreg
    · rename_i hreg
      exact .rearm i hi (Bool.not_eq_true _ ▸ hreg)
  · rename_i refill hi
    obtain ⟨⟨m, q⟩, hrec, rfl⟩ := Option.map_eq_some_iff.mp h
    obtain ⟨hne, hreg⟩ := Mqueue.receive_spec hrec
    exact .receive q _ hne hreg i hi
  · rename_i e hi
    split at h
    · split at h
      · rename_i hempty
        obtain rfl := Option.some.inj h
        exact .finish i hi hempty
      · cases h
    · obtain rfl := Option.some.inj h
      exact .exit _ fun e he => by cases he
  · cases h

theorem State.step_of_next {a : Act} (h : s.next a = some t) : Step s t := by
  cases a with
  | mqOpen ok =>
      simp only [State.next] at h
      split at h
      · rename_i hmain
        obtain rfl := Option.some.inj h
        split
        · exact .opened hmain
        · exact .exit _ fun e he => by cases he
      · cases h
  | notifySetup =>
      simp only [State.next] at h
      split at h
      · rename_i hmain
        obtain rfl := Option.some.inj h
        rw [State.notifySetup_eq]
        split
        · rename_i hreg
          exact .busy (Or.inl hmain) hreg
        · rename_i hreg
          exact .setup hmain (Bool.not_eq_true _ ▸ hreg)
      · cases h
  | thread i r => exact State.step_of_threadNext h
  | kill =>
      simp only [State.next] at h
      split at h
      · cases h
      · obtain rfl := Option.some.inj h
        exact .exit _ fun e he => by cases he
  | other a =>
      obtain ⟨⟨q, fired⟩, huse, rfl⟩ := Option.map_eq_some_iff.mp h
      exact .other q fired (Mqueue.used_of_use huse)

/-! ## The token -/

/-- The registration, and the threads that have not executed their `notifySetup` yet. -/
def State.tokens (s : State) : ℕ :=
  (if s.mq.registered then 1 else 0) + s.threads.countP ThreadPc.beforeSetup

structure Inv (s : State) : Prop where
  idle : s.main ≠ .pause → s.mq.registered = false ∧ s.threads = []
  token : s.main = .pause → s.tokens = 1
  notBusy : ∀ e, s.main ≠ .exited (.mqNotify e)

theorem inv_init (h : Init s) : Inv s := by
  obtain ⟨argv, hmain⟩ := h.main
  have hstart : s.main = .mqOpen ∨ s.main = .exited .usage := by
    rw [hmain]
    unfold startMain
    split
    · split
      · exact Or.inr rfl
      · exact Or.inl rfl
    · exact Or.inr rfl
  refine ⟨fun _ => ⟨h.registered, h.threads⟩, ?_, ?_⟩
  · intro hpause
    rw [hpause] at hstart
    rcases hstart with hstart | hstart <;> cases hstart
  · intro e he
    rw [he] at hstart
    rcases hstart with hstart | hstart <;> cases hstart

theorem inv_exit (s : State) {why : Exit} (hwhy : ∀ e, why ≠ .mqNotify e) : Inv (s.exit why) where
  idle _ := ⟨rfl, rfl⟩
  token h := nomatch h
  notBusy e h := hwhy e (MainPc.exited.inj h)

theorem Inv.main_of_thread (h : Inv s) {i : ℕ} {pc : ThreadPc} (hi : s.threads[i]? = some pc) :
    s.main = .pause := by
  by_contra hmain
  rw [(h.idle hmain).2] at hi
  cases hi

theorem tokens_setThread {i : ℕ} {pc pc' : ThreadPc} (hi : s.threads[i]? = some pc)
    (hsame : pc'.beforeSetup = pc.beforeSetup) : (s.setThread i pc').tokens = s.tokens := by
  have hcount := Crowd.countP_set ThreadPc.beforeSetup hi pc'
  rw [hsame] at hcount
  exact congrArg (_ + ·) (Nat.add_right_cancel hcount)

/-- A thread before its `notifySetup` has the token, so nobody is registered. -/
theorem Inv.unregistered (h : Inv s) {i : ℕ} {pc : ThreadPc} (hi : s.threads[i]? = some pc)
    (hpc : pc.beforeSetup = true) : s.mq.registered = false := by
  have htoken := h.token (h.main_of_thread hi)
  have hpos : 0 < s.threads.countP ThreadPc.beforeSetup :=
    List.countP_pos_iff.mpr ⟨pc, List.mem_of_getElem? hi, hpc⟩
  unfold State.tokens at htoken
  cases hreg : s.mq.registered with
  | false => rfl
  | true =>
      rw [hreg, if_pos rfl] at htoken
      omega

theorem Inv.unregistered_of_atSetup (h : Inv s) (hat : s.AtSetup) : s.mq.registered = false := by
  rcases hat with hmain | ⟨i, hi⟩
  · exact (h.idle (by rw [hmain]; exact fun hp => nomatch hp)).1
  · exact h.unregistered hi rfl

/-- A step of `main` or of the threads that leaves the number of tokens as it is. -/
theorem Inv.of_tokens (h : Inv s) (hpause : s.main = .pause) (hmain : t.main = s.main)
    (htokens : t.tokens = s.tokens) : Inv t where
  idle hne := absurd (hmain.trans hpause) hne
  token _ := htokens.trans (h.token hpause)
  notBusy e := hmain ▸ h.notBusy e

theorem Inv.step (h : Inv s) (hstep : State.Step s t) : Inv t := by
  cases hstep with
  | opened hmain =>
      have hidle := h.idle (by rw [hmain]; exact fun hp => nomatch hp)
      exact ⟨fun _ => hidle, (fun hp => nomatch hp), (fun e he => nomatch he)⟩
  | setup hmain hreg =>
      -- `main` puts the token into circulation
      have hidle := h.idle (by rw [hmain]; exact fun hp => nomatch hp)
      refine ⟨fun hne => absurd rfl hne, fun _ => ?_, (fun e he => nomatch he)⟩
      simp [State.tokens, hidle.2]
  | busy hat hreg =>
      exact absurd (hreg.symm.trans (h.unregistered_of_atSetup hat)) Bool.true_eq_false_eq_False
  | exit why hwhy => exact inv_exit s hwhy
  | advance i pc pc' hi hpc hpc' =>
      exact h.of_tokens (h.main_of_thread hi) rfl (tokens_setThread hi (hpc'.trans hpc.symm))
  | rearm i hi hreg =>
      -- the token goes from the thread to the kernel
      refine h.of_tokens (h.main_of_thread hi) rfl ?_
      have hcount := Crowd.countP_set ThreadPc.beforeSetup hi .mqReceive
      simp only [ThreadPc.beforeSetup, if_true, Bool.false_eq_true, if_false,
        Nat.add_zero] at hcount
      simp only [State.tokens, hreg, if_true, Bool.false_eq_true, if_false]
      omega
  | receive q out hne hreg i hi =>
      refine h.of_tokens (h.main_of_thread hi) rfl ?_
      simp only [State.tokens, hreg]
  | finish i hi hempty =>
      exact h.of_tokens (h.main_of_thread hi) rfl (tokens_setThread hi rfl)
  | other q fired hused =>
      cases hused with
      | notified hreg hempty hgone =>
          -- the token goes from the kernel to the new thread
          have hpause : s.main = .pause := by
            by_contra hmain
            exact absurd ((h.idle hmain).1.symm.trans hreg) Bool.false_ne_true
          refine h.of_tokens hpause rfl ?_
          simp [State.tokens, hgone, hreg, ThreadPc.beforeSetup, Nat.add_comm]
      | silent hsame hempty =>
          refine ⟨?_, ?_, h.notBusy⟩
          · intro hmain
            exact ⟨hsame.trans (h.idle hmain).1, (h.idle hmain).2⟩
          · intro hpause
            have htoken := h.token hpause
            unfold State.tokens at htoken ⊢
            rw [← hsame] at htoken
            exact htoken

theorem inv_reachable (h : system.Reachable s) : Inv s :=
  h.invariant (P := Inv) (fun _ h₀ => inv_init h₀) fun _ _ _ hs hnext =>
    hs.step (State.step_of_next hnext)

/-- **There is exactly one registration token.** In every reachable state after `main`'s
`notifySetup`, whatever the other processes do and however many threads run: the process is
registered or one thread has still to execute its `notifySetup`, not both and not two. So
`mq_notify` never finds a registration, and the program never ends because of it. -/
theorem one_token (h : system.Reachable s) :
    (s.main = .pause → s.tokens = 1) ∧ (s.AtSetup → s.mq.notify ≠ .error .EBUSY)
      ∧ ∀ e, s.main ≠ .exited (.mqNotify e) := by
  have hinv := inv_reachable h
  refine ⟨hinv.token, ?_, hinv.notBusy⟩
  intro hat hbusy
  rw [Mqueue.notify_of_unregistered (hinv.unregistered_of_atSetup hat)] at hbusy
  cases hbusy

/-- One message is in the queue when the program starts. -/
def State.oneMessage : State where
  mq := .withOld
  main := startMain [str "/mq"]
  threads := []
  stdout := []
  stderr := []

theorem oneMessage_init : system.Init State.oneMessage :=
  ⟨⟨[str "/mq"], rfl⟩, rfl, rfl, rfl, rfl⟩

/-- Two threads at once: the first one has emptied the queue when a message starts the second, and
it receives that message too. -/
def twoThreads : List Act :=
  [.mqOpen true, .notifySetup, .other (.receive none), .other (.send ⟨0, str "a"⟩),
    .thread 0 .start, .thread 0 (.mqGetattr true), .thread 0 (.malloc true), .thread 0 .notifySetup,
    .thread 0 (.mqReceive none), .other (.send ⟨0, str "bc"⟩), .thread 1 .start,
    .thread 0 (.mqReceive none)]

theorem one_token_twoThreads : ∃ s, system.Reachable s ∧ s.threads = [.mqReceive, .mqGetattr]
    ∧ s.tokens = 1 := by
  have hreach : system.Reachable ((system.run State.oneMessage twoThreads).get (by decide)) :=
    ⟨_, twoThreads, oneMessage_init, (Option.some_get _).symm⟩
  exact ⟨_, hreach, by decide, (one_token hreach).1 (by decide)⟩

/-! ## Idle processes -/

/-- A thread runs or is about to start. -/
def AtWork (ps : List ThreadPc) : Prop :=
  ∃ (i : ℕ) (pc : ThreadPc), ps[i]? = some pc ∧ pc ≠ .finished

/-- `main` has registered, and the process has messages to read only if a thread is at work. -/
structure Attended (s : State) : Prop where
  registered : s.main ≠ .mqOpen ∧ s.main ≠ .notifySetup
  attended : s.main = .pause → s.mq.messages ≠ [] → AtWork s.threads

theorem attended_exit (s : State) (why : Exit) : Attended (s.exit why) where
  registered := ⟨(fun h => nomatch h), (fun h => nomatch h)⟩
  attended h := nomatch h

/-- A thread that makes a step other than its last one leaves a thread at work. -/
theorem AtWork.set {ps : List ThreadPc} (h : AtWork ps) (i : ℕ) {pc' : ThreadPc}
    (hpc' : pc' ≠ .finished) : AtWork (ps.set i pc') := by
  obtain ⟨j, pc, hj, hpc⟩ := h
  by_cases hij : i = j
  · subst hij
    obtain ⟨hlt, -⟩ := List.getElem?_eq_some_iff.mp hj
    exact ⟨i, pc', List.getElem?_set_self hlt, hpc'⟩
  · exact ⟨j, pc, by rw [List.getElem?_set_ne hij, hj], hpc⟩

/-- While nobody is registered, a thread has the token. -/
theorem Inv.atWork (h : Inv s) (hpause : s.main = .pause) (hreg : s.mq.registered = false) :
    AtWork s.threads := by
  have htoken := h.token hpause
  rw [State.tokens, hreg, if_neg Bool.false_ne_true, Nat.zero_add] at htoken
  have hpos : 0 < s.threads.countP ThreadPc.beforeSetup := by omega
  obtain ⟨pc, hmem, hpc⟩ := List.countP_pos_iff.mp hpos
  obtain ⟨i, hi⟩ := List.getElem?_of_mem hmem
  refine ⟨i, pc, hi, ?_⟩
  rintro rfl
  cases hpc

theorem Attended.step (hinv : Inv s) (h : Attended s) (hstep : State.Step s t) : Attended t := by
  cases hstep with
  | opened hmain => exact absurd hmain h.registered.1
  | setup hmain hreg => exact absurd hmain h.registered.2
  | busy hat hreg => exact attended_exit s _
  | exit why hwhy => exact attended_exit s why
  | advance i pc pc' hi hpc hpc' =>
      refine ⟨h.registered, fun hmain hne => (h.attended hmain hne).set i ?_⟩
      rintro rfl
      cases hpc'
  | rearm i hi hreg =>
      refine ⟨h.registered, fun hmain hne => (h.attended hmain hne).set i ?_⟩
      exact fun hpc => nomatch hpc
  | receive q out hne hreg i hi => exact ⟨h.registered, fun hmain _ => h.attended hmain hne⟩
  -- the last thread may go, but only from an empty queue
  | finish i hi hempty => exact ⟨h.registered, fun _ hne => absurd hempty hne⟩
  | other q fired hused =>
      refine ⟨h.registered, fun hmain hne => ?_⟩
      cases hused with
      | notified hreg hempty hgone =>
          exact ⟨s.threads.length, .created, by simp, fun hpc => nomatch hpc⟩
      | silent hsame hempty =>
          by_cases hold : s.mq.messages = []
          · -- a message has come to the empty queue unnoticed, so nobody is registered
            refine hinv.atWork hmain ?_
            by_contra hreg
            rw [Bool.not_eq_false] at hreg
            exact hne (hempty hreg hold)
          · exact h.attended hmain hold

/-- **Never idle over unread messages, once the queue has been empty.** If the queue was empty in
some state `u` after `main`'s `notifySetup` (in the state right after it, say), then in every state
after `u` in which no thread runs or is about to start, the queue is empty. -/
theorem idle_on_empty {u : State} {as : List Act} (h : system.Reachable u) (hu : u.main = .pause)
    (hempty : u.mq.messages = []) (hrun : system.run u as = some s) (hpause : s.main = .pause)
    (hidle : ∀ pc ∈ s.threads, pc = .finished) : s.mq.messages = [] := by
  have hstart : Attended u := by
    refine ⟨?_, fun _ hne => absurd hempty hne⟩
    rw [hu]
    exact ⟨(fun h => nomatch h), (fun h => nomatch h)⟩
  have hstep : ∀ s a t, Inv s ∧ Attended s → system.step s a = some t → Inv t ∧ Attended t :=
    fun _ _ _ hs hnext => ⟨hs.1.step (State.step_of_next hnext),
      hs.2.step hs.1 (State.step_of_next hnext)⟩
  obtain ⟨-, hatt⟩ := TransSys.run_preserves hstep ⟨inv_reachable h, hstart⟩ hrun
  by_contra hne
  obtain ⟨i, pc, hi, hpc⟩ := hatt.attended hpause hne
  exact hpc (hidle pc (List.mem_of_getElem? hi))

/-- From the empty queue on: a message, a thread for it, and the queue is empty again. -/
def oneThread : List Act :=
  [.other (.send ⟨0, str "a"⟩), .thread 0 .start, .thread 0 (.mqGetattr true),
    .thread 0 (.malloc true), .thread 0 .notifySetup, .thread 0 (.mqReceive none),
    .thread 0 (.mqReceiveError .EAGAIN)]

theorem idle_on_empty_oneThread : ∃ u s, system.Reachable u ∧ u.main = .pause
    ∧ system.run u oneThread = some s ∧ s.threads = [.finished] ∧ s.mq.messages = [] := by
  have hreach : system.Reachable ((system.run State.oneMessage
      [.mqOpen true, .notifySetup, .other (.receive none)]).get (by decide)) :=
    ⟨_, _, oneMessage_init, (Option.some_get _).symm⟩
  refine ⟨_, _, hreach, by decide, (Option.some_get (by decide)).symm, by decide, ?_⟩
  exact idle_on_empty hreach (by decide) (by decide) (Option.some_get (by decide)).symm (by decide)
    (by decide)

/-- A message that was there before `main` registered stays unread, with no thread to read it. -/
theorem idle_on_oneMessage : ∃ s, system.Reachable s ∧ s.main = .pause ∧ s.threads = []
    ∧ s.mq.messages = [⟨0, str "old"⟩] :=
  ⟨(system.run State.oneMessage [.mqOpen true, .notifySetup]).get (by decide),
    ⟨_, _, oneMessage_init, (Option.some_get _).symm⟩, by decide, by decide, by decide⟩

end Tlpi.NotifyThread
