import Tlpi.Lib.Crowd
import Tlpi.Lib.Named
import Tlpi.Posix.MqueueWait
import Tlpi.PosixIpc.CreateObjects

set_option autoImplicit false

/-! # The message queue commands (posix_message_queues/)

`pmsg_create`, `pmsg_send`, `pmsg_receive`, `pmsg_getattr` and `pmsg_unlink` are started by hand,
any number of them and at any time, and work on the message queues of the system. `pmsg_create` is
`CreateObjects.pmsgCreate` up to its call of `mq_open`.
-/

namespace Tlpi.Pmsg

open Decimal CreateObjects WaitQueue

/-- `mq_send` refuses a priority from here on. -/
def MQ_PRIO_MAX : ℕ := 32768

/-- The attributes of a queue that is created without any. -/
def defaultAttr : MqAttr := ⟨10, 8192⟩

inductive Prog where
  | create
  | send
  | receive
  | getattr
  | unlink
deriving DecidableEq, Repr

/-- A place in one of the programs: at the start, after `mq_open`, blocked in `mq_send` or
`mq_receive` (or about to return from it), after `mq_receive`; or the end of the process. -/
inductive Pc where
  | start
  | opened (mqd : ℕ)
  | sending (mqd : ℕ)
  | receiving (mqd : ℕ)
  | received (mqd : ℕ) (m : Message)
  | exited (status : ℕ)
  | killed
deriving DecidableEq, Repr

/-- `tty` says whether the standard output is a terminal. -/
structure Command where
  prog : Prog
  argv : List (List UInt8)
  tty : Bool
deriving DecidableEq, Repr

structure Proc where
  prog : Prog
  argv : List (List UInt8)
  tty : Bool
  pc : Pc
deriving DecidableEq, Repr

/-- The queues, and what the processes have written to their standard outputs, each text with the
number of the process. -/
structure Shared where
  fs : Named (List UInt8) WaitQueue
  out : List (ℕ × List UInt8)

/-- A process goes on, its next call fails, or it is killed. -/
inductive Call where
  | go (pick : ℕ)
  | fail
  | kill
deriving DecidableEq, Repr

def Pc.ended : Pc → Bool
  | .exited _ => true
  | .killed => true
  | _ => false

/-- The process has called `mq_send` or `mq_receive`, or has ended. -/
def Pc.called : Pc → Bool
  | .start => false
  | .opened _ => false
  | _ => true

/-! ## The command lines -/

def nonblockOpt (c : UInt8) (_optarg : Option (List UInt8)) (_nonblock : Bool) : Option Bool :=
  if c = chr 'n' then some true else none

structure SendArgs where
  nonblock : Bool
  name : List UInt8
  msg : List UInt8
  prio : BitVec 32
deriving DecidableEq, Repr

/-- The command line of `pmsg_send`, `none` for a usage error. -/
def sendArgs (argv : List (List UInt8)) : Option SendArgs :=
  let parsed := getopt (str "n") argv.tail
  (optLoop nonblockOpt parsed.opts false).bind fun nonblock =>
    match parsed.operands with
    | name :: msg :: _ => some ⟨nonblock, name, msg, operandOr parsed.operands 2 0 atoi⟩
    | _ => none

/-- The command line of `pmsg_receive`, `none` for a usage error. Its test is `optind > argc`, so
that a missing name is not noticed and `mq_open` gets `argv[argc]`, which is `NULL`. -/
def receiveArgs (argv : List (List UInt8)) : Option (Bool × Option (List UInt8)) :=
  let parsed := getopt (str "n") argv.tail
  (optLoop nonblockOpt parsed.opts false).map fun nonblock => (nonblock, parsed.operands.head?)

/-- The test of `pmsg_getattr` and `pmsg_unlink`. -/
def badArgs (argv : List (List UInt8)) : Bool :=
  decide (argv.length ≠ 2 ∨ argv[1]? = some (str "--help"))

/-- The message that a `pmsg_send` process sends. -/
def Proc.message (x : Proc) : Option Message :=
  (sendArgs x.argv).map fun args => ⟨args.prio.toNat, args.msg⟩

/-! ## The steps -/

def Proc.exit (x : Proc) (status : ℕ) : Proc := { x with pc := .exited status }

def headerText (m : Message) : List UInt8 :=
  str "Read " ++ numeral m.data.length ++ str " bytes; priority = " ++ numeral m.priority ++
    str "\n"

/-- The header is written with `printf` and the message with `write`: on a terminal the header comes
first, else it stays in the buffer of `stdout` until the process exits. -/
def receivedText (tty : Bool) (m : Message) : List UInt8 :=
  if tty then headerText m ++ m.data ++ str "\n" else m.data ++ str "\n" ++ headerText m

def attrText (k : WaitQueue) : List UInt8 :=
  str "Maximum # of messages on the queue:\t" ++ numeral k.queue.maxmsg ++ str "\n" ++
    str "Maximum message size:\t\t\t" ++ numeral k.msgsize ++ str "\n" ++
    str "# of messages currently on the queue:\t" ++ numeral k.queue.messages.length ++ str "\n"

/-- A name of a message queue: a slash, and then one that is not empty and has no slash. -/
def queueName (name : List UInt8) : Bool :=
  decide (name.head? = some (chr '/') ∧ name.tail ≠ [] ∧ chr '/' ∉ name.tail)

/-- `mq_open (name, flags)` without `O_CREAT`. -/
def openQueue (g : Shared) (x : Proc) (name : List UInt8) : Proc :=
  if queueName name then
    match g.fs.names name with
    | some i => { x with pc := .opened i }
    | none => x.exit EXIT_FAILURE
  else x.exit EXIT_FAILURE

/-- `mq_open` of `pmsg_create`. -/
def create (g : Shared) (x : Proc) : Shared × Proc :=
  match pmsgCreate x.argv with
  | .error _ => (g, x.exit EXIT_FAILURE)
  | .ok call =>
      if queueName call.name = false then (g, x.exit EXIT_FAILURE)
      else match g.fs.names call.name with
      | some _ =>
          if call.flags &&& O_CREAT ≠ 0 ∧ call.flags &&& O_EXCL ≠ 0 then (g, x.exit EXIT_FAILURE)
          else (g, x.exit EXIT_SUCCESS)
      | none =>
          let attr := call.attrp.getD defaultAttr
          if h : call.flags &&& O_CREAT ≠ 0 ∧ 0 < attr.mq_maxmsg ∧ 0 < attr.mq_msgsize then
            ({ g with
              fs := g.fs.create call.name
                (.fresh attr.mq_maxmsg.toNat attr.mq_msgsize.toNat (by omega)) },
              x.exit EXIT_SUCCESS)
          else (g, x.exit EXIT_FAILURE)

def unlink (g : Shared) (x : Proc) : Shared × Proc :=
  if badArgs x.argv then (g, x.exit EXIT_FAILURE)
  else
    match g.fs.unlink ((x.argv[1]?).getD []) with
    | some fs => ({ g with fs := fs }, x.exit EXIT_SUCCESS)
    | none => (g, x.exit EXIT_FAILURE)

def start (g : Shared) (x : Proc) : Shared × Proc :=
  match x.prog with
  | .create => create g x
  | .unlink => unlink g x
  | .send =>
      match sendArgs x.argv with
      | none => (g, x.exit EXIT_FAILURE)
      | some args => (g, openQueue g x args.name)
  | .receive =>
      match receiveArgs x.argv with
      | none => (g, x.exit EXIT_FAILURE)
      | some (_, some name) => (g, openQueue g x name)
      -- `mq_open (NULL, flags)`
      | some (_, none) => (g, { x with pc := .killed })
  | .getattr =>
      if badArgs x.argv then (g, x.exit EXIT_FAILURE)
      else (g, openQueue g x ((x.argv[1]?).getD []))

/-- `mq_send` of `pmsg_send`. -/
def sendCall (p : ℕ) (g : Shared) (x : Proc) (i : ℕ) (k : WaitQueue) (args : SendArgs)
    (pick : ℕ) : Option (Shared × Proc) :=
  if MQ_PRIO_MAX ≤ args.prio.toNat ∨ k.msgsize < args.msg.length then
    some (g, x.exit EXIT_FAILURE)
  else
    (k.send p ⟨args.prio.toNat, args.msg⟩ pick).map fun r =>
      match r.1 with
      | .done _ => ({ g with fs := g.fs.set i r.2 }, x.exit EXIT_SUCCESS)
      | .blocked =>
          if args.nonblock then (g, x.exit EXIT_FAILURE)
          else ({ g with fs := g.fs.set i r.2 }, { x with pc := .sending i })

/-- `mq_getattr`, `malloc` and `mq_receive` of `pmsg_receive`. -/
def receiveCall (p : ℕ) (g : Shared) (x : Proc) (i : ℕ) (k : WaitQueue) (nonblock : Bool)
    (pick : ℕ) : Option (Shared × Proc) :=
  (k.receive p pick).map fun r =>
    match r.1 with
    | .done m => ({ g with fs := g.fs.set i r.2 }, { x with pc := .received i m })
    | .blocked =>
        if nonblock then (g, x.exit EXIT_FAILURE)
        else ({ g with fs := g.fs.set i r.2 }, { x with pc := .receiving i })

def opened (p : ℕ) (g : Shared) (x : Proc) (i pick : ℕ) : Option (Shared × Proc) :=
  (g.fs.objs[i]?).bind fun k =>
    match x.prog with
    | .send => (sendArgs x.argv).bind fun args => sendCall p g x i k args pick
    | .receive => (receiveArgs x.argv).bind fun args => receiveCall p g x i k args.1 pick
    | .getattr => some ({ g with out := g.out ++ [(p, attrText k)] }, x.exit EXIT_SUCCESS)
    | _ => none

def go (p : ℕ) (g : Shared) (x : Proc) (pick : ℕ) : Option (Shared × Proc) :=
  match x.pc with
  | .start => some (start g x)
  | .opened i => opened p g x i pick
  | .sending i =>
      (g.fs.objs[i]?).bind fun k =>
        if p ∈ k.senders.map Prod.fst then none else some (g, x.exit EXIT_SUCCESS)
  | .receiving i =>
      (g.fs.objs[i]?).bind fun k =>
        (k.taken.find? fun t => t.1 = p).map fun t => (g, { x with pc := .received i t.2 })
  | .received _ m =>
      some ({ g with out := g.out ++ [(p, receivedText x.tty m)] }, x.exit EXIT_SUCCESS)
  | _ => none

/-- The process leaves the queue `i` on which it was blocked, and ends as `pc`. -/
def leave (p : ℕ) (g : Shared) (x : Proc) (i : ℕ) (pc : Pc) : Option (Shared × Proc) :=
  (g.fs.objs[i]?).map fun k =>
    ({ g with fs := g.fs.set i (k.cancel p) }, { x with pc := pc })

/-- A call fails; `mq_send` and `mq_receive` are interrupted while the process is blocked. After a
failure of `write` only the header is written. -/
def fail (p : ℕ) (g : Shared) (x : Proc) : Option (Shared × Proc) :=
  match x.pc with
  | .start => some (g, x.exit EXIT_FAILURE)
  | .opened _ => some (g, x.exit EXIT_FAILURE)
  | .sending i =>
      (g.fs.objs[i]?).bind fun k =>
        if p ∈ k.senders.map Prod.fst then leave p g x i (.exited EXIT_FAILURE) else none
  | .receiving i =>
      (g.fs.objs[i]?).bind fun k =>
        if p ∈ k.receivers then leave p g x i (.exited EXIT_FAILURE) else none
  | .received _ m =>
      some ({ g with out := g.out ++ [(p, headerText m)] }, x.exit EXIT_FAILURE)
  | _ => none

def kill (p : ℕ) (g : Shared) (x : Proc) : Option (Shared × Proc) :=
  match x.pc with
  | .sending i => leave p g x i .killed
  | .receiving i => leave p g x i .killed
  | .exited _ => none
  | .killed => none
  | _ => some (g, { x with pc := .killed })

def exec (p : ℕ) (g : Shared) (x : Proc) : Call → Option (Shared × Proc)
  | .go pick => go p g x pick
  | .fail => fail p g x
  | .kill => kill p g x

def pmsg : Crowd Shared Proc Command Call where
  Start g := g.fs = .empty ∧ g.out = []
  spawn c := ⟨c.prog, c.argv, c.tty, .start⟩
  exec := exec

/-! ## What a step can do -/

/-- The program has opened a queue to do something with it, and its arguments say what. -/
def Proc.ready (x : Proc) : Prop :=
  x.prog = .send ∧ (∃ args, sendArgs x.argv = some args) ∨
    x.prog = .receive ∧ (∃ args, receiveArgs x.argv = some args) ∨ x.prog = .getattr

/-- The process changes its place, with or without output, and the queues stay as they are. -/
structure Stays (g : Shared) (x : Proc) (g' : Shared) (y : Proc) : Prop where
  fs : g'.fs = g.fs
  prog : y.prog = x.prog
  argv : y.argv = x.argv

inductive Move (p : ℕ) (g : Shared) (x : Proc) : Call → Shared → Proc → Prop where
  | ends (c : Call) (g' : Shared) (y : Proc) (h : Stays g x g' y) (hpc : y.pc.ended = true) :
      Move p g x c g' y
  | created (pick : ℕ) (name : List UInt8) (maxmsg msgsize : ℕ) (hpos : 0 < maxmsg) :
      Move p g x (.go pick)
        { g with fs := g.fs.create name (.fresh maxmsg msgsize hpos) } (x.exit EXIT_SUCCESS)
  | unlinked (pick : ℕ) (name : List UInt8) (fs : Named (List UInt8) WaitQueue)
      (h : g.fs.unlink name = some fs) :
      Move p g x (.go pick) { g with fs := fs } (x.exit EXIT_SUCCESS)
  | opened (pick : ℕ) (name : List UInt8) (i : ℕ) (hpc : x.pc = .start) (hready : x.ready)
      (hname : g.fs.names name = some i) : Move p g x (.go pick) g { x with pc := .opened i }
  | sends (pick i : ℕ) (m : Message) (k k' : WaitQueue) (res : Result Unit) (y : Proc)
      (hprog : x.prog = .send) (hpc : x.pc = .opened i) (hm : x.message = some m)
      (hk : g.fs.objs[i]? = some k) (h : k.send p m pick = some (res, k'))
      (hy : res = .done () ∧ y = x.exit EXIT_SUCCESS ∨
        res = .blocked ∧ y = { x with pc := .sending i }) :
      Move p g x (.go pick) { g with fs := g.fs.set i k' } y
  | receives (pick i : ℕ) (k k' : WaitQueue) (res : Result Message) (y : Proc)
      (hpc : x.pc = .opened i) (hk : g.fs.objs[i]? = some k)
      (h : k.receive p pick = some (res, k'))
      (hy : (∃ m, res = .done m ∧ y = { x with pc := .received i m }) ∨
        res = .blocked ∧ y = { x with pc := .receiving i }) :
      Move p g x (.go pick) { g with fs := g.fs.set i k' } y
  | resumes (pick i : ℕ) (k : WaitQueue) (m : Message) (hpc : x.pc = .receiving i)
      (hk : g.fs.objs[i]? = some k) (hm : (p, m) ∈ k.taken) :
      Move p g x (.go pick) g { x with pc := .received i m }
  | leaves (c : Call) (i : ℕ) (k : WaitQueue) (pc : Pc) (hpc : x.pc.called = true)
      (hk : g.fs.objs[i]? = some k) (hended : pc.ended = true) :
      Move p g x c { g with fs := g.fs.set i (k.cancel p) } { x with pc := pc }

variable {p : ℕ} {g g' : Shared} {x y : Proc}

theorem Move.exit (c : Call) (status : ℕ) : Move p g x c g (x.exit status) :=
  .ends c g _ ⟨rfl, rfl, rfl⟩ rfl

theorem openQueue_cases {pick : ℕ} (name : List UInt8) (hpc : x.pc = .start) (hready : x.ready) :
    Move p g x (.go pick) g (openQueue g x name) := by
  unfold openQueue
  split
  · split
    · rename_i i hname
      exact .opened pick name i hpc hready hname
    · exact .exit _ _
  · exact .exit _ _

theorem create_cases {pick : ℕ} (h : create g x = (g', y)) : Move p g x (.go pick) g' y := by
  unfold create at h
  split at h
  · obtain ⟨rfl, rfl⟩ := Prod.mk.inj h
    exact .exit _ _
  · split at h
    · obtain ⟨rfl, rfl⟩ := Prod.mk.inj h
      exact .exit _ _
    split at h
    · split at h
      · obtain ⟨rfl, rfl⟩ := Prod.mk.inj h
        exact .exit _ _
      · obtain ⟨rfl, rfl⟩ := Prod.mk.inj h
        exact .exit _ _
    · dsimp only at h
      split at h
      · obtain ⟨rfl, rfl⟩ := Prod.mk.inj h
        exact .created pick _ _ _ _
      · obtain ⟨rfl, rfl⟩ := Prod.mk.inj h
        exact .exit _ _

theorem unlink_cases {pick : ℕ} (h : unlink g x = (g', y)) : Move p g x (.go pick) g' y := by
  unfold unlink at h
  split at h
  · obtain ⟨rfl, rfl⟩ := Prod.mk.inj h
    exact .exit _ _
  · split at h
    · rename_i fs hunlink
      obtain ⟨rfl, rfl⟩ := Prod.mk.inj h
      exact .unlinked pick _ fs hunlink
    · obtain ⟨rfl, rfl⟩ := Prod.mk.inj h
      exact .exit _ _

theorem start_cases {pick : ℕ} (hpc : x.pc = .start) (h : start g x = (g', y)) :
    Move p g x (.go pick) g' y := by
  unfold start at h
  split at h
  next => exact create_cases h
  next => exact unlink_cases h
  next hprog =>
    split at h
    · obtain ⟨rfl, rfl⟩ := Prod.mk.inj h
      exact .exit _ _
    · rename_i args hargs
      obtain ⟨rfl, rfl⟩ := Prod.mk.inj h
      exact openQueue_cases _ hpc (Or.inl ⟨hprog, args, hargs⟩)
  next hprog =>
    split at h
    · obtain ⟨rfl, rfl⟩ := Prod.mk.inj h
      exact .exit _ _
    · rename_i nonblock name hargs
      obtain ⟨rfl, rfl⟩ := Prod.mk.inj h
      exact openQueue_cases _ hpc (Or.inr (Or.inl ⟨hprog, _, hargs⟩))
    · obtain ⟨rfl, rfl⟩ := Prod.mk.inj h
      exact .ends _ _ _ ⟨rfl, rfl, rfl⟩ rfl
  next hprog =>
    split at h
    · obtain ⟨rfl, rfl⟩ := Prod.mk.inj h
      exact .exit _ _
    · obtain ⟨rfl, rfl⟩ := Prod.mk.inj h
      exact openQueue_cases _ hpc (Or.inr (Or.inr hprog))

theorem sendCall_cases {i pick : ℕ} {k : WaitQueue} {args : SendArgs} (hprog : x.prog = .send)
    (hpc : x.pc = .opened i) (hk : g.fs.objs[i]? = some k) (hargs : sendArgs x.argv = some args)
    (h : sendCall p g x i k args pick = some (g', y)) : Move p g x (.go pick) g' y := by
  have hm : x.message = some ⟨args.prio.toNat, args.msg⟩ := by rw [Proc.message, hargs]; rfl
  unfold sendCall at h
  split at h
  · obtain ⟨rfl, rfl⟩ := Prod.mk.inj (Option.some.inj h)
    exact .exit _ _
  · obtain ⟨⟨res, k'⟩, hsend, heq⟩ := Option.map_eq_some_iff.mp h
    cases res with
    | done u =>
        obtain ⟨rfl, rfl⟩ := Prod.mk.inj heq
        exact .sends pick i _ k k' _ _ hprog hpc hm hk hsend (Or.inl ⟨rfl, rfl⟩)
    | blocked =>
        dsimp only at heq
        split at heq
        · obtain ⟨rfl, rfl⟩ := Prod.mk.inj heq
          exact .exit _ _
        · obtain ⟨rfl, rfl⟩ := Prod.mk.inj heq
          exact .sends pick i _ k k' _ _ hprog hpc hm hk hsend (Or.inr ⟨rfl, rfl⟩)

theorem receiveCall_cases {i pick : ℕ} {k : WaitQueue} {nonblock : Bool} (hpc : x.pc = .opened i)
    (hk : g.fs.objs[i]? = some k) (h : receiveCall p g x i k nonblock pick = some (g', y)) :
    Move p g x (.go pick) g' y := by
  unfold receiveCall at h
  obtain ⟨⟨res, k'⟩, hrec, heq⟩ := Option.map_eq_some_iff.mp h
  cases res with
  | done m =>
      obtain ⟨rfl, rfl⟩ := Prod.mk.inj heq
      exact .receives pick i k k' _ _ hpc hk hrec (Or.inl ⟨m, rfl, rfl⟩)
  | blocked =>
      dsimp only at heq
      split at heq
      · obtain ⟨rfl, rfl⟩ := Prod.mk.inj heq
        exact .exit _ _
      · obtain ⟨rfl, rfl⟩ := Prod.mk.inj heq
        exact .receives pick i k k' _ _ hpc hk hrec (Or.inr ⟨rfl, rfl⟩)

theorem go_cases {pick : ℕ} (h : go p g x pick = some (g', y)) : Move p g x (.go pick) g' y := by
  unfold go at h
  split at h
  next hpc => exact start_cases hpc (Option.some.inj h)
  next i hpc =>
    obtain ⟨k, hk, h⟩ := Option.bind_eq_some_iff.mp h
    split at h
    next hprog =>
      obtain ⟨args, hargs, h⟩ := Option.bind_eq_some_iff.mp h
      exact sendCall_cases hprog hpc hk hargs h
    next hprog =>
      obtain ⟨args, hargs, h⟩ := Option.bind_eq_some_iff.mp h
      exact receiveCall_cases hpc hk h
    next =>
      obtain ⟨rfl, rfl⟩ := Prod.mk.inj (Option.some.inj h)
      exact .ends _ _ _ ⟨rfl, rfl, rfl⟩ rfl
    next => cases h
  next i hpc =>
    obtain ⟨k, hk, h⟩ := Option.bind_eq_some_iff.mp h
    split at h
    · cases h
    · obtain ⟨rfl, rfl⟩ := Prod.mk.inj (Option.some.inj h)
      exact .exit _ _
  next i hpc =>
    obtain ⟨k, hk, h⟩ := Option.bind_eq_some_iff.mp h
    obtain ⟨⟨q, m⟩, hfind, heq⟩ := Option.map_eq_some_iff.mp h
    obtain ⟨rfl, rfl⟩ := Prod.mk.inj heq
    have hq : q = p := by simpa using List.find?_some hfind
    exact .resumes pick i k m hpc hk (hq ▸ List.mem_of_find?_eq_some hfind)
  next i m hpc =>
    obtain ⟨rfl, rfl⟩ := Prod.mk.inj (Option.some.inj h)
    exact .ends _ _ _ ⟨rfl, rfl, rfl⟩ rfl
  next => cases h

theorem leave_cases {c : Call} {i : ℕ} {pc : Pc} (hpc : x.pc.called = true)
    (hended : pc.ended = true) (h : leave p g x i pc = some (g', y)) : Move p g x c g' y := by
  obtain ⟨k, hk, heq⟩ := Option.map_eq_some_iff.mp h
  obtain ⟨rfl, rfl⟩ := Prod.mk.inj heq
  exact .leaves c i k pc hpc hk hended

theorem exec_cases {c : Call} (h : exec p g x c = some (g', y)) : Move p g x c g' y := by
  cases c with
  | go pick => exact go_cases h
  | fail =>
      simp only [exec, fail] at h
      split at h
      next =>
        obtain ⟨rfl, rfl⟩ := Prod.mk.inj (Option.some.inj h)
        exact .exit _ _
      next =>
        obtain ⟨rfl, rfl⟩ := Prod.mk.inj (Option.some.inj h)
        exact .exit _ _
      next i hpc =>
        obtain ⟨k, hk, h⟩ := Option.bind_eq_some_iff.mp h
        split at h
        · exact leave_cases (by rw [hpc]; rfl) rfl h
        · cases h
      next i hpc =>
        obtain ⟨k, hk, h⟩ := Option.bind_eq_some_iff.mp h
        split at h
        · exact leave_cases (by rw [hpc]; rfl) rfl h
        · cases h
      next i m hpc =>
        obtain ⟨rfl, rfl⟩ := Prod.mk.inj (Option.some.inj h)
        exact .ends _ _ _ ⟨rfl, rfl, rfl⟩ rfl
      next => cases h
  | kill =>
      simp only [exec, kill] at h
      split at h
      next i hpc => exact leave_cases (by rw [hpc]; rfl) rfl h
      next i hpc => exact leave_cases (by rw [hpc]; rfl) rfl h
      next => cases h
      next => cases h
      next =>
        obtain ⟨rfl, rfl⟩ := Prod.mk.inj (Option.some.inj h)
        exact .ends _ _ _ ⟨rfl, rfl, rfl⟩ rfl

/-! ## The invariant -/

/-- The processes that a queue knows have made their call, and its messages are those that the
`pmsg_send` processes were told to send. -/
structure QueueInv (procs : List Proc) (k : WaitQueue) : Prop where
  ok : k.Ok
  past : ∀ q ∈ k.senderIds ++ k.receiverIds, ∃ x, procs[q]? = some x ∧ x.pc.called = true
  sent : ∀ s ∈ k.accepted ++ k.senders, ∃ x, procs[s.1]? = some x ∧ x.prog = .send ∧
    x.message = some s.2

structure ProcInv (fs : Named (List UInt8) WaitQueue) (q : ℕ) (x : Proc) : Prop where
  opened : ∀ i, x.pc = .opened i → i < fs.objs.length ∧ x.ready
  sending : ∀ i, x.pc = .sending i → i < fs.objs.length
  receiving : ∀ i, x.pc = .receiving i → ∃ k, fs.objs[i]? = some k ∧ q ∈ k.receiverIds
  received : ∀ i m, x.pc = .received i m → ∃ k, fs.objs[i]? = some k ∧ (q, m) ∈ k.taken

structure Inv (w : CrowdWorld Shared Proc) : Prop where
  queues : ∀ (i : ℕ) (k : WaitQueue), w.shared.fs.objs[i]? = some k → QueueInv w.procs k
  procs : ∀ (q : ℕ) (x : Proc), w.procs[q]? = some x → ProcInv w.shared.fs q x

variable {procs : List Proc} {k k' : WaitQueue} {fs fs' : Named (List UInt8) WaitQueue}

theorem getElem?_set_proc {q : ℕ} {z : Proc} (hx : procs[p]? = some x) (hz : procs[q]? = some z) :
    (q = p ∧ z = x ∧ (procs.set p y)[q]? = some y) ∨ (q ≠ p ∧ (procs.set p y)[q]? = some z) := by
  by_cases hq : q = p
  · subst hq
    obtain ⟨hlt, -⟩ := List.getElem?_eq_some_iff.mp hx
    exact Or.inl ⟨rfl, Option.some.inj (hz.symm.trans hx), List.getElem?_set_self hlt⟩
  · exact Or.inr ⟨hq, by rw [List.getElem?_set_ne (Ne.symm hq)]; exact hz⟩

/-- A step of a process does not undo its call. -/
theorem QueueInv.set (h : QueueInv procs k) (hx : procs[p]? = some x) (hprog : y.prog = x.prog)
    (hargv : y.argv = x.argv) (hcalled : x.pc.called = true → y.pc.called = true) :
    QueueInv (procs.set p y) k := by
  refine ⟨h.ok, fun q hq => ?_, fun s hs => ?_⟩
  · obtain ⟨z, hz, hzc⟩ := h.past q hq
    rcases getElem?_set_proc (y := y) hx hz with ⟨-, rfl, hy⟩ | ⟨-, hz'⟩
    · exact ⟨y, hy, hcalled hzc⟩
    · exact ⟨z, hz', hzc⟩
  · obtain ⟨z, hz, hsend, hm⟩ := h.sent s hs
    rcases getElem?_set_proc (y := y) hx hz with ⟨-, rfl, hy⟩ | ⟨-, hz'⟩
    · refine ⟨y, hy, hprog.trans hsend, ?_⟩
      rw [Proc.message, hargv]
      exact hm
    · exact ⟨z, hz', hsend, hm⟩

theorem ProcInv.of_ended {q : ℕ} (hpc : y.pc.ended = true) : ProcInv fs q y := by
  refine ⟨fun i hi => ?_, fun i hi => ?_, fun i hi => ?_, fun i m hi => ?_⟩ <;>
    · rw [hi] at hpc
      cases hpc

theorem ProcInv.grow {i q : ℕ} (h : ProcInv fs q y) (hq : q ≠ p) (hk : fs.objs[i]? = some k)
    (hgrows : Grows p k k') : ProcInv (fs.set i k') q y := by
  obtain ⟨hlt, -⟩ := List.getElem?_eq_some_iff.mp hk
  have hself : (fs.set i k').objs[i]? = some k' := List.getElem?_set_self hlt
  have hother : ∀ j, j ≠ i → (fs.set i k').objs[j]? = fs.objs[j]? := fun j hj =>
    List.getElem?_set_ne (Ne.symm hj)
  refine ⟨fun j hj => ?_, fun j hj => ?_, fun j hj => ?_, fun j m hj => ?_⟩
  · rw [Named.set_length]
    exact h.opened j hj
  · rw [Named.set_length]
    exact h.sending j hj
  · obtain ⟨l, hl, hmem⟩ := h.receiving j hj
    by_cases hji : j = i
    · subst hji
      obtain rfl := Option.some.inj (hk.symm.trans hl)
      exact ⟨k', hself, hgrows.waiting q hq hmem⟩
    · exact ⟨l, by rw [hother j hji]; exact hl, hmem⟩
  · obtain ⟨l, hl, hmem⟩ := h.received j m hj
    by_cases hji : j = i
    · subst hji
      obtain rfl := Option.some.inj (hk.symm.trans hl)
      exact ⟨k', hself, hgrows.taken _ hmem⟩
    · exact ⟨l, by rw [hother j hji]; exact hl, hmem⟩

/-- A process that is still to make its call is not known to the queue. -/
theorem QueueInv.unknown (h : QueueInv procs k) (hx : procs[p]? = some x)
    (hpc : x.pc.called = false) : p ∉ k.senderIds ∧ p ∉ k.receiverIds := by
  have hnot : p ∉ k.senderIds ++ k.receiverIds := by
    intro hp
    obtain ⟨z, hz, hcalled⟩ := h.past p hp
    obtain rfl := Option.some.inj (hx.symm.trans hz)
    rw [hpc] at hcalled
    cases hcalled
  exact ⟨fun hp => hnot (List.mem_append_left _ hp), fun hp => hnot (List.mem_append_right _ hp)⟩

theorem QueueInv.sends {m : Message} {res : Result Unit} (h : QueueInv procs k)
    (hx : procs[p]? = some x) (hpc : x.pc.called = false) (hsend : x.prog = .send)
    (hm : x.message = some m) (hs : Sends k p m res k') (hprog : y.prog = x.prog)
    (hargv : y.argv = x.argv) (hcalled : y.pc.called = true) : QueueInv (procs.set p y) k' := by
  have hset := h.set hx hprog hargv fun _ => hcalled
  obtain ⟨hlt, -⟩ := List.getElem?_eq_some_iff.mp hx
  have hy : (procs.set p y)[p]? = some y := List.getElem?_set_self hlt
  obtain ⟨hsids, hrids⟩ := hs.ids
  refine ⟨h.ok.sends (h.unknown hx hpc).1 hs, fun q hq => ?_, fun s hmem => ?_⟩
  · have hold : q ∈ k.senderIds ++ k.receiverIds ∨ q = p := by
      rcases List.mem_append.mp hq with hq | hq
      · rcases List.mem_append.mp (hsids.mem_iff.mp hq) with hq | hq
        · exact Or.inl (List.mem_append_left _ hq)
        · exact Or.inr (List.mem_singleton.mp hq)
      · exact Or.inl (List.mem_append_right _ (hrids.mem_iff.mp hq))
    rcases hold with hold | rfl
    · exact hset.past q hold
    · exact ⟨y, hy, hcalled⟩
  · rcases hs.mem_sent hmem with rfl | hold
    · refine ⟨y, hy, hprog.trans hsend, ?_⟩
      rw [Proc.message, hargv]
      exact hm
    · exact hset.sent s hold

theorem QueueInv.receives {res : Result Message} (h : QueueInv procs k) (hx : procs[p]? = some x)
    (hpc : x.pc.called = false) (hr : Receives k p res k') (hprog : y.prog = x.prog)
    (hargv : y.argv = x.argv) (hcalled : y.pc.called = true) : QueueInv (procs.set p y) k' := by
  have hset := h.set hx hprog hargv fun _ => hcalled
  obtain ⟨hlt, -⟩ := List.getElem?_eq_some_iff.mp hx
  have hy : (procs.set p y)[p]? = some y := List.getElem?_set_self hlt
  obtain ⟨hsids, hrids⟩ := hr.ids
  refine ⟨h.ok.receives (h.unknown hx hpc).2 hr, fun q hq => ?_,
    fun s hmem => hset.sent s (hr.mem_sent hmem)⟩
  have hold : q ∈ k.senderIds ++ k.receiverIds ∨ q = p := by
    rcases List.mem_append.mp hq with hq | hq
    · exact Or.inl (List.mem_append_left _ (hsids.mem_iff.mp hq))
    · rcases List.mem_append.mp (hrids.mem_iff.mp hq) with hq | hq
      · exact Or.inl (List.mem_append_right _ hq)
      · exact Or.inr (List.mem_singleton.mp hq)
  rcases hold with hold | rfl
  · exact hset.past q hold
  · exact ⟨y, hy, hcalled⟩

theorem QueueInv.cancels (h : QueueInv procs k) (p : ℕ) : QueueInv procs (k.cancel p) :=
  ⟨h.ok.cancels p, fun q hq => h.past q (mem_ids_of_cancel hq),
    fun s hs => h.sent s (mem_sent_of_cancel hs)⟩

section

variable {w v : CrowdWorld Shared Proc}

theorem called_of_ended {pc : Pc} (h : pc.ended = true) : pc.called = true := by
  cases pc with
  | start => cases h
  | opened i => cases h
  | _ => rfl

/-- The queues stay as they are. -/
theorem Inv.keep (h : Inv w) (hx : w.procs[p]? = some x) (hstays : Stays w.shared x g y)
    (hcalled : x.pc.called = true → y.pc.called = true) (hy : ProcInv w.shared.fs p y) :
    Inv ⟨g, w.procs.set p y⟩ := by
  refine ⟨fun i k hk => ?_, fun q z hz => ?_⟩
  · rw [hstays.fs] at hk
    exact (h.queues i k hk).set hx hstays.prog hstays.argv hcalled
  · rw [hstays.fs]
    by_cases hq : q = p
    · subst hq
      obtain ⟨hlt, -⟩ := List.getElem?_eq_some_iff.mp hx
      obtain rfl := Option.some.inj ((List.getElem?_set_self hlt).symm.trans hz)
      exact hy
    · exact h.procs q z (by rwa [List.getElem?_set_ne (Ne.symm hq)] at hz)

/-- The queue `i` changes with the process `p`. -/
theorem Inv.change {i : ℕ} (h : Inv w) (hx : w.procs[p]? = some x)
    (hk : w.shared.fs.objs[i]? = some k) (hprog : y.prog = x.prog) (hargv : y.argv = x.argv)
    (hcalled : y.pc.called = true) (hgrows : Grows p k k')
    (hk' : QueueInv (w.procs.set p y) k') (hy : ProcInv (w.shared.fs.set i k') p y) :
    Inv ⟨{ w.shared with fs := w.shared.fs.set i k' }, w.procs.set p y⟩ := by
  refine ⟨fun j l hl => ?_, fun q z hz => ?_⟩
  · rcases Named.set_cases hl with ⟨rfl, rfl⟩ | ⟨-, hl⟩
    · exact hk'
    · exact (h.queues j l hl).set hx hprog hargv fun _ => hcalled
  · by_cases hq : q = p
    · subst hq
      obtain ⟨hlt, -⟩ := List.getElem?_eq_some_iff.mp hx
      obtain rfl := Option.some.inj ((List.getElem?_set_self hlt).symm.trans hz)
      exact hy
    · rw [List.getElem?_set_ne (Ne.symm hq)] at hz
      exact (h.procs q z hz).grow hq hk hgrows

theorem ProcInv.create {q : ℕ} (h : ProcInv fs q x) (name : List UInt8) (k : WaitQueue) :
    ProcInv (fs.create name k) q x := by
  have hkeep : ∀ {j : ℕ} {l : WaitQueue}, fs.objs[j]? = some l →
      (fs.create name k).objs[j]? = some l := by
    intro j l hl
    obtain ⟨hlt, -⟩ := List.getElem?_eq_some_iff.mp hl
    rw [Named.create, List.getElem?_append_left hlt]
    exact hl
  refine ⟨fun i hi => ?_, fun i hi => ?_, fun i hi => ?_, fun i m hi => ?_⟩
  · rw [Named.create_length]
    exact ⟨(h.opened i hi).1.trans (Nat.lt_succ_self _), (h.opened i hi).2⟩
  · rw [Named.create_length]
    exact (h.sending i hi).trans (Nat.lt_succ_self _)
  · obtain ⟨l, hl, hmem⟩ := h.receiving i hi
    exact ⟨l, hkeep hl, hmem⟩
  · obtain ⟨l, hl, hmem⟩ := h.received i m hi
    exact ⟨l, hkeep hl, hmem⟩

theorem Inv.create (h : Inv w) (name : List UInt8) (maxmsg msgsize : ℕ) (hpos : 0 < maxmsg) :
    Inv { w with
      shared := { w.shared with
        fs := w.shared.fs.create name (.fresh maxmsg msgsize hpos) } } := by
  refine ⟨fun i k hk => ?_, fun q x hx => (h.procs q x hx).create name _⟩
  rcases Named.create_cases hk with hold | ⟨-, rfl⟩
  · exact h.queues i k hold
  · exact ⟨fresh_ok maxmsg msgsize hpos, nofun, nofun⟩

theorem Inv.unlink {name : List UInt8} {fs : Named (List UInt8) WaitQueue} (h : Inv w)
    (hunlink : w.shared.fs.unlink name = some fs) :
    Inv { w with shared := { w.shared with fs := fs } } := by
  have hobjs := Named.unlink_objs hunlink
  refine ⟨fun i k hk => h.queues i k (hobjs ▸ hk), fun q x hx => ?_⟩
  have hproc := h.procs q x hx
  refine ⟨fun i hi => ?_, fun i hi => ?_, fun i hi => ?_, fun i m hi => ?_⟩
  · rw [hobjs]
    exact hproc.opened i hi
  · rw [hobjs]
    exact hproc.sending i hi
  · rw [hobjs]
    exact hproc.receiving i hi
  · rw [hobjs]
    exact hproc.received i m hi

theorem Inv.move {c : Call} (h : Inv w) (hx : w.procs[p]? = some x)
    (hmove : Move p w.shared x c g y) : Inv ⟨g, w.procs.set p y⟩ := by
  have hproc := h.procs p x hx
  cases hmove with
  | ends c g y hstays hpc =>
      exact h.keep hx hstays (fun _ => called_of_ended hpc) (.of_ended hpc)
  | created pick name maxmsg msgsize hpos =>
      exact (h.create name maxmsg msgsize hpos).keep hx ⟨rfl, rfl, rfl⟩ (fun _ => rfl)
        (.of_ended rfl)
  | unlinked pick name fs hunlink =>
      exact (h.unlink hunlink).keep hx ⟨rfl, rfl, rfl⟩ (fun _ => rfl) (.of_ended rfl)
  | opened pick name i hpc hready hname =>
      refine h.keep hx ⟨rfl, rfl, rfl⟩ (fun hcalled => ?_) ⟨fun j hj => ?_, nofun, nofun, nofun⟩
      · rw [hpc] at hcalled
        cases hcalled
      · obtain rfl := Pc.opened.inj hj
        exact ⟨w.shared.fs.names_lt name i hname, hready⟩
  | sends pick i m k k' res y hprog hpc hm hk hsend hy =>
      have hqueue := h.queues i k hk
      have hcases := hqueue.ok.send_cases hsend
      have hcalled : x.pc.called = false := by rw [hpc]; rfl
      rcases hy with ⟨-, rfl⟩ | ⟨-, rfl⟩
      · exact h.change hx hk rfl rfl rfl hcases.grows
          (hqueue.sends hx hcalled hprog hm hcases rfl rfl rfl) (.of_ended rfl)
      · refine h.change hx hk rfl rfl rfl hcases.grows
          (hqueue.sends hx hcalled hprog hm hcases rfl rfl rfl)
          ⟨nofun, fun j hj => ?_, nofun, nofun⟩
        obtain rfl := Pc.sending.inj hj
        rw [Named.set_length]
        exact (List.getElem?_eq_some_iff.mp hk).1
  | receives pick i k k' res y hpc hk hrec hy =>
      have hqueue := h.queues i k hk
      have hcases := receive_cases hrec
      have hcalled : x.pc.called = false := by rw [hpc]; rfl
      have hself : (w.shared.fs.set i k').objs[i]? = some k' :=
        List.getElem?_set_self (List.getElem?_eq_some_iff.mp hk).1
      obtain ⟨hdone, hwaits⟩ := hcases.result
      rcases hy with ⟨m, hres, rfl⟩ | ⟨-, rfl⟩
      · refine h.change hx hk rfl rfl rfl hcases.grows
          (hqueue.receives hx hcalled hcases rfl rfl rfl) ⟨nofun, nofun, nofun, fun j n hj => ?_⟩
        obtain ⟨rfl, rfl⟩ := Pc.received.inj hj
        exact ⟨k', hself, hdone m hres⟩
      · refine h.change hx hk rfl rfl rfl hcases.grows
          (hqueue.receives hx hcalled hcases rfl rfl rfl) ⟨nofun, nofun, fun j hj => ?_, nofun⟩
        obtain rfl := Pc.receiving.inj hj
        exact ⟨k', hself, hwaits⟩
  | resumes pick i k m hpc hk hm =>
      refine h.keep hx ⟨rfl, rfl, rfl⟩ (fun _ => rfl) ⟨nofun, nofun, nofun, fun j n hj => ?_⟩
      obtain ⟨rfl, rfl⟩ := Pc.received.inj hj
      exact ⟨k, hk, hm⟩
  | leaves c i k pc hpc hk hended =>
      have hqueue := (h.queues i k hk).cancels p
      exact h.change hx hk rfl rfl (called_of_ended hended) (cancel_grows k p)
        (hqueue.set hx rfl rfl fun _ => called_of_ended hended) (.of_ended hended)

theorem Inv.step {a : CrowdAct Command Call} (h : Inv w) (hstep : pmsg.Step w a v) : Inv v := by
  cases hstep with
  | spawn c =>
      have hkeep : ∀ {q : ℕ} {x : Proc}, w.procs[q]? = some x →
          (w.procs ++ [pmsg.spawn c])[q]? = some x := by
        intro q x hx
        obtain ⟨hlt, -⟩ := List.getElem?_eq_some_iff.mp hx
        rw [List.getElem?_append_left hlt]
        exact hx
      refine ⟨fun i k hk => ?_, fun q x hx => ?_⟩
      · have hqueue := h.queues i k hk
        refine ⟨hqueue.ok, fun q hq => ?_, fun s hs => ?_⟩
        · obtain ⟨x, hx, hcalled⟩ := hqueue.past q hq
          exact ⟨x, hkeep hx, hcalled⟩
        · obtain ⟨x, hx, hsend⟩ := hqueue.sent s hs
          exact ⟨x, hkeep hx, hsend⟩
      · rcases Crowd.getElem?_spawn_cases hx with hold | rfl
        · exact h.procs q x hold
        · exact ⟨nofun, nofun, nofun, nofun⟩
  | exec p c x y g hx hexec => exact h.move hx (exec_cases hexec)

theorem Inv.init (h : pmsg.system.Init w) : Inv w := by
  obtain ⟨⟨hfs, -⟩, hprocs⟩ := h
  refine ⟨fun i k hk => ?_, fun q x hx => ?_⟩
  · rw [hfs] at hk
    cases hk
  · rw [hprocs] at hx
    cases hx

theorem inv_of_reachable (h : pmsg.system.Reachable w) : Inv w :=
  h.invariant (fun _ => Inv.init) fun _ _ _ hinv hnext => hinv.step (Crowd.next_cases hnext)

/-! ## The order of the messages -/

theorem took_of_set {i j : ℕ} (hk : fs.objs[i]? = some k) {l l' : WaitQueue}
    (hl : fs.objs[j]? = some l) (htook : Took l l') :
    ∃ k', (fs.set j l').objs[i]? = some k' ∧ Took k k' := by
  by_cases hij : i = j
  · subst hij
    obtain rfl := Option.some.inj (hk.symm.trans hl)
    exact ⟨l', List.getElem?_set_self (List.getElem?_eq_some_iff.mp hl).1, htook⟩
  · exact ⟨k, by rw [Named.set, List.getElem?_set_ne (Ne.symm hij)]; exact hk, Or.inl rfl⟩

theorem Inv.took {c : Call} {i : ℕ} (h : Inv w) (hk : w.shared.fs.objs[i]? = some k)
    (hmove : Move p w.shared x c g y) : ∃ k', g.fs.objs[i]? = some k' ∧ Took k k' := by
  cases hmove with
  | ends c g y hstays hpc => exact ⟨k, by rw [hstays.fs]; exact hk, Or.inl rfl⟩
  | created pick name maxmsg msgsize hpos =>
      refine ⟨k, ?_, Or.inl rfl⟩
      rw [Named.create, List.getElem?_append_left (List.getElem?_eq_some_iff.mp hk).1]
      exact hk
  | unlinked pick name fs hunlink =>
      exact ⟨k, by rw [Named.unlink_objs hunlink]; exact hk, Or.inl rfl⟩
  | opened pick name j hpc hready hname => exact ⟨k, hk, Or.inl rfl⟩
  | resumes pick j l m hpc hl hm => exact ⟨k, hk, Or.inl rfl⟩
  | sends pick j m l l' res y hprog hpc hm hl hsend hy =>
      exact took_of_set hk hl ((h.queues j l hl).ok.send_cases hsend).took
  | receives pick j l l' res y hpc hl hrec hy =>
      exact took_of_set hk hl ((h.queues j l hl).ok.took (receive_cases hrec))
  | leaves c j l pc hpc hl hended => exact took_of_set hk hl (cancel_took l p)

/-! ## What `pmsg_receive` reports -/

/-- What the process `q` has written. -/
def outputOf (g : Shared) (q : ℕ) : List (List UInt8) :=
  (g.out.filter fun t => decide (t.1 = q)).map Prod.snd

theorem outputOf_congr (h : g'.out = g.out) (q : ℕ) : outputOf g' q = outputOf g q := by
  rw [outputOf, h, outputOf]

theorem exit_failure_ne : Pc.exited EXIT_FAILURE ≠ .exited EXIT_SUCCESS := by decide

theorem Move.prog {c : Call} (h : Move p g x c g' y) : y.prog = x.prog := by
  cases h with
  | ends c g' y hstays hpc => exact hstays.prog
  | sends pick i m k k' res y hprog hpc hm hk hsend hy =>
      rcases hy with ⟨-, rfl⟩ | ⟨-, rfl⟩ <;> rfl
  | receives pick i k k' res y hpc hk hrec hy =>
      rcases hy with ⟨m, -, rfl⟩ | ⟨-, rfl⟩ <;> rfl
  | _ => rfl

theorem start_out (g : Shared) (x : Proc) : (start g x).1.out = g.out := by
  unfold start
  split
  · unfold create
    split
    · rfl
    split
    · rfl
    split
    · split <;> rfl
    · dsimp only
      split <;> rfl
  · unfold unlink
    split
    · rfl
    · split <;> rfl
  · split <;> rfl
  · split <;> rfl
  · split <;> rfl

theorem sendCall_out {i pick : ℕ} {k : WaitQueue} {args : SendArgs}
    (h : sendCall p g x i k args pick = some (g', y)) : g'.out = g.out := by
  unfold sendCall at h
  split at h
  · rw [← (Prod.mk.inj (Option.some.inj h)).1]
  · obtain ⟨⟨res, k'⟩, -, heq⟩ := Option.map_eq_some_iff.mp h
    dsimp only at heq
    split at heq
    · rw [← (Prod.mk.inj heq).1]
    · split at heq <;> rw [← (Prod.mk.inj heq).1]

/-- `mq_receive` writes nothing. -/
theorem receiveCall_out {i pick : ℕ} {k : WaitQueue} {nonblock : Bool}
    (h : receiveCall p g x i k nonblock pick = some (g', y)) :
    g'.out = g.out ∧ y.prog = x.prog ∧ y.tty = x.tty ∧ (∀ j, y.pc ≠ .sending j) ∧
      y.pc ≠ .exited EXIT_SUCCESS := by
  obtain ⟨⟨res, k'⟩, -, heq⟩ := Option.map_eq_some_iff.mp h
  dsimp only at heq
  split at heq
  · obtain ⟨rfl, rfl⟩ := Prod.mk.inj heq
    exact ⟨rfl, rfl, rfl, nofun, nofun⟩
  · split at heq
    · obtain ⟨rfl, rfl⟩ := Prod.mk.inj heq
      exact ⟨rfl, rfl, rfl, nofun, exit_failure_ne⟩
    · obtain ⟨rfl, rfl⟩ := Prod.mk.inj heq
      exact ⟨rfl, rfl, rfl, nofun, nofun⟩

theorem leave_out {i : ℕ} {pc : Pc} (h : leave p g x i pc = some (g', y)) :
    g'.out = g.out ∧ y = { x with pc := pc } := by
  obtain ⟨k, -, heq⟩ := Option.map_eq_some_iff.mp h
  obtain ⟨rfl, rfl⟩ := Prod.mk.inj heq
  exact ⟨rfl, rfl⟩

/-- A step writes one text at most. -/
theorem exec_out {c : Call} (h : exec p g x c = some (g', y)) :
    g'.out = g.out ∨ ∃ text, g'.out = g.out ++ [(p, text)] := by
  cases c with
  | go pick =>
      simp only [exec, go] at h
      split at h
      next => exact Or.inl (by rw [← start_out g x, Option.some.inj h])
      next i hpc =>
        obtain ⟨k, -, h⟩ := Option.bind_eq_some_iff.mp h
        split at h
        next =>
          obtain ⟨args, -, h⟩ := Option.bind_eq_some_iff.mp h
          exact Or.inl (sendCall_out h)
        next =>
          obtain ⟨args, -, h⟩ := Option.bind_eq_some_iff.mp h
          exact Or.inl (receiveCall_out h).1
        next =>
          rw [← (Prod.mk.inj (Option.some.inj h)).1]
          exact Or.inr ⟨_, rfl⟩
        next => cases h
      next i hpc =>
        obtain ⟨k, -, h⟩ := Option.bind_eq_some_iff.mp h
        split at h
        · cases h
        · exact Or.inl (by rw [← (Prod.mk.inj (Option.some.inj h)).1])
      next i hpc =>
        obtain ⟨k, -, h⟩ := Option.bind_eq_some_iff.mp h
        obtain ⟨t, -, heq⟩ := Option.map_eq_some_iff.mp h
        exact Or.inl (by rw [← (Prod.mk.inj heq).1])
      next i m hpc =>
        rw [← (Prod.mk.inj (Option.some.inj h)).1]
        exact Or.inr ⟨_, rfl⟩
      next => cases h
  | fail =>
      simp only [exec, fail] at h
      split at h
      next => exact Or.inl (by rw [← (Prod.mk.inj (Option.some.inj h)).1])
      next => exact Or.inl (by rw [← (Prod.mk.inj (Option.some.inj h)).1])
      next =>
        obtain ⟨k, -, h⟩ := Option.bind_eq_some_iff.mp h
        split at h
        · exact Or.inl (leave_out h).1
        · cases h
      next =>
        obtain ⟨k, -, h⟩ := Option.bind_eq_some_iff.mp h
        split at h
        · exact Or.inl (leave_out h).1
        · cases h
      next i m hpc =>
        rw [← (Prod.mk.inj (Option.some.inj h)).1]
        exact Or.inr ⟨_, rfl⟩
      next => cases h
  | kill =>
      simp only [exec, kill] at h
      split at h
      next => exact Or.inl (leave_out h).1
      next => exact Or.inl (leave_out h).1
      next => cases h
      next => cases h
      next => exact Or.inl (by rw [← (Prod.mk.inj (Option.some.inj h)).1])

/-- A step of a `pmsg_receive` process. -/
structure Receiving (p : ℕ) (g : Shared) (x : Proc) (g' : Shared) (y : Proc) : Prop where
  prog : y.prog = .receive
  tty : y.tty = x.tty
  sending : ∀ i, y.pc ≠ .sending i
  /-- It writes nothing and does not succeed, or it reports its message. -/
  report : g'.out = g.out ∧ y.pc ≠ .exited EXIT_SUCCESS ∨
    ∃ i m text, x.pc = .received i m ∧ g'.out = g.out ++ [(p, text)] ∧ y.pc.ended = true ∧
      (y.pc = .exited EXIT_SUCCESS → text = receivedText x.tty m)

theorem Receiving.quiet (hprog : x.prog = .receive) (hout : g'.out = g.out) {pc : Pc}
    (hsending : ∀ i, pc ≠ .sending i) (hpc : pc ≠ .exited EXIT_SUCCESS) :
    Receiving p g x g' { x with pc := pc } :=
  ⟨hprog, rfl, hsending, Or.inl ⟨hout, hpc⟩⟩

theorem exec_receive {c : Call} (hprog : x.prog = .receive) (hpc : ∀ i, x.pc ≠ .sending i)
    (h : exec p g x c = some (g', y)) : Receiving p g x g' y := by
  have hfail : Receiving p g x g (x.exit EXIT_FAILURE) := .quiet hprog rfl nofun exit_failure_ne
  cases c with
  | go pick =>
      simp only [exec, go] at h
      split at h
      next =>
        have h := Option.some.inj h
        unfold start at h
        split at h
        case h_4 =>
          split at h
          · obtain ⟨rfl, rfl⟩ := Prod.mk.inj h
            exact hfail
          · obtain ⟨rfl, rfl⟩ := Prod.mk.inj h
            unfold openQueue
            split
            · split
              · exact .quiet hprog rfl nofun nofun
              · exact hfail
            · exact hfail
          · obtain ⟨rfl, rfl⟩ := Prod.mk.inj h
            exact .quiet hprog rfl nofun nofun
        all_goals
          rename_i hother
          exact nomatch hprog.symm.trans hother
      next i hpc =>
        obtain ⟨k, -, h⟩ := Option.bind_eq_some_iff.mp h
        split at h
        case h_2 =>
          obtain ⟨args, -, h⟩ := Option.bind_eq_some_iff.mp h
          obtain ⟨hout, hprog', htty, hsending, hsuccess⟩ := receiveCall_out h
          exact ⟨hprog'.trans hprog, htty, hsending, Or.inl ⟨hout, hsuccess⟩⟩
        case h_4 => cases h
        all_goals
          rename_i hother
          exact nomatch hprog.symm.trans hother
      next i hsending => exact absurd hsending (hpc i)
      next i hpc =>
        obtain ⟨k, -, h⟩ := Option.bind_eq_some_iff.mp h
        obtain ⟨t, -, heq⟩ := Option.map_eq_some_iff.mp h
        obtain ⟨rfl, rfl⟩ := Prod.mk.inj heq
        exact .quiet hprog rfl nofun nofun
      next i m hpc =>
        obtain ⟨rfl, rfl⟩ := Prod.mk.inj (Option.some.inj h)
        exact ⟨hprog, rfl, nofun, Or.inr ⟨i, m, _, hpc, rfl, rfl, fun _ => rfl⟩⟩
      next => cases h
  | fail =>
      simp only [exec, fail] at h
      split at h
      next =>
        obtain ⟨rfl, rfl⟩ := Prod.mk.inj (Option.some.inj h)
        exact hfail
      next =>
        obtain ⟨rfl, rfl⟩ := Prod.mk.inj (Option.some.inj h)
        exact hfail
      next i hsending => exact absurd hsending (hpc i)
      next =>
        obtain ⟨k, -, h⟩ := Option.bind_eq_some_iff.mp h
        split at h
        · obtain ⟨hout, rfl⟩ := leave_out h
          exact .quiet hprog hout nofun exit_failure_ne
        · cases h
      next i m hpc =>
        obtain ⟨rfl, rfl⟩ := Prod.mk.inj (Option.some.inj h)
        exact ⟨hprog, rfl, nofun, Or.inr ⟨i, m, _, hpc, rfl, rfl, nofun⟩⟩
      next => cases h
  | kill =>
      simp only [exec, kill] at h
      split at h
      next i hsending => exact absurd hsending (hpc i)
      next =>
        obtain ⟨hout, rfl⟩ := leave_out h
        exact .quiet hprog hout nofun nofun
      next => cases h
      next => cases h
      next =>
        obtain ⟨rfl, rfl⟩ := Prod.mk.inj (Option.some.inj h)
        exact .quiet hprog rfl nofun nofun

/-- What a `pmsg_receive` process has written: nothing before its end, and if it has succeeded the
message that a queue has given to it. -/
structure Reported (g : Shared) (q : ℕ) (x : Proc) : Prop where
  sending : ∀ i, x.pc ≠ .sending i
  quiet : x.pc.ended = false → outputOf g q = []
  report : x.pc = .exited EXIT_SUCCESS → ∃ (i : ℕ) (k : WaitQueue) (m : Message),
    g.fs.objs[i]? = some k ∧ (q, m) ∈ k.taken ∧ outputOf g q = [receivedText x.tty m]

structure Reports (w : CrowdWorld Shared Proc) : Prop where
  each : ∀ q x, w.procs[q]? = some x → x.prog = .receive → Reported w.shared q x
  lt : ∀ t ∈ w.shared.out, t.1 < w.procs.length

theorem Reports.init (h : pmsg.system.Init w) : Reports w := by
  obtain ⟨⟨-, hout⟩, hprocs⟩ := h
  refine ⟨fun q x hx => ?_, fun t ht => ?_⟩
  · rw [hprocs] at hx
    cases hx
  · rw [hout] at ht
    cases ht

/-- What was taken stays so. -/
theorem Reported.mono {q : ℕ} (h : Reported g q x) (hout : outputOf g' q = outputOf g q)
    (htook : ∀ (i : ℕ) (k : WaitQueue), g.fs.objs[i]? = some k →
      ∃ k', g'.fs.objs[i]? = some k' ∧ Took k k') :
    Reported g' q x := by
  refine ⟨h.sending, fun hpc => hout.trans (h.quiet hpc), fun hpc => ?_⟩
  obtain ⟨i, k, m, hk, hmem, htext⟩ := h.report hpc
  obtain ⟨k', hk', htook⟩ := htook i k hk
  refine ⟨i, k', m, hk', ?_, hout.trans htext⟩
  rcases htook with hsame | ⟨q', m', hmore, -⟩
  · rw [hsame]
    exact hmem
  · rw [hmore]
    exact List.mem_append_left _ hmem

theorem Reported.step {c : Call} (h : Reported w.shared p x) (hinv : Inv w)
    (hx : w.procs[p]? = some x) (hprog : x.prog = .receive)
    (hexec : exec p w.shared x c = some (g, y)) : Reported g p y := by
  have htook := fun i k hk => hinv.took (i := i) (k := k) hk (exec_cases hexec)
  have hlive : x.pc.ended = false := by
    cases hpc : x.pc with
    | exited status => cases c <;> simp [exec, go, fail, kill, hpc] at hexec
    | killed => cases c <;> simp [exec, go, fail, kill, hpc] at hexec
    | _ => rfl
  have hstep := exec_receive hprog h.sending hexec
  rcases hstep.report with ⟨hout, hsuccess⟩ | ⟨i, m, text, hpc, hout, hended, htext⟩
  · have hquiet := (outputOf_congr hout p).trans (h.quiet hlive)
    exact ⟨hstep.sending, fun _ => hquiet, fun hpc => absurd hpc hsuccess⟩
  · refine ⟨hstep.sending, fun hpc => (nomatch hended.symm.trans hpc), fun hpc => ?_⟩
    obtain ⟨k, hk, hmem⟩ := (hinv.procs p x hx).received i m ‹_›
    have hquiet := h.quiet hlive
    obtain ⟨k', hk', htook⟩ := htook i k hk
    refine ⟨i, k', m, hk', ?_, ?_⟩
    · rcases htook with hsame | ⟨q', m', hmore, -⟩
      · rw [hsame]
        exact hmem
      · rw [hmore]
        exact List.mem_append_left _ hmem
    · rw [outputOf, hout, List.filter_append, List.map_append, hstep.tty, ← htext hpc]
      rw [outputOf] at hquiet
      simp [hquiet]

theorem Reports.step {a : CrowdAct Command Call} (h : Reports w) (hinv : Inv w)
    (hstep : pmsg.Step w a v) : Reports v := by
  cases hstep with
  | spawn c =>
      refine ⟨fun q x hx hprog => ?_, fun t ht => ?_⟩
      · rcases Named.concat_cases hx with hold | ⟨rfl, rfl⟩
        · exact h.each q x hold hprog
        · refine ⟨nofun, fun _ => ?_, nofun⟩
          rw [outputOf, List.map_eq_nil_iff, List.filter_eq_nil_iff]
          intro t ht heq
          exact absurd (h.lt t ht) (of_decide_eq_true heq ▸ lt_irrefl _)
      · rw [List.length_append]
        exact (h.lt t ht).trans_le (Nat.le_add_right _ _)
  | exec p c x y g hx hexec =>
      have hexec : exec p w.shared x c = some (g, y) := hexec
      obtain ⟨hlt, -⟩ := List.getElem?_eq_some_iff.mp hx
      have hout := exec_out hexec
      refine ⟨fun q z hz hprog => ?_, fun t ht => ?_⟩
      · by_cases hq : q = p
        · subst hq
          obtain rfl := Option.some.inj ((List.getElem?_set_self hlt).symm.trans hz)
          have hprog' : x.prog = .receive := (exec_cases hexec).prog.symm.trans hprog
          exact (h.each q x hx hprog').step hinv hx hprog' hexec
        · have hz : w.procs[q]? = some z := (List.getElem?_set_ne (Ne.symm hq)).symm.trans hz
          refine (h.each q z hz hprog).mono ?_ fun i k hk => hinv.took hk (exec_cases hexec)
          rcases hout with hsame | ⟨text, hmore⟩
          · exact outputOf_congr hsame q
          · rw [outputOf, hmore, List.filter_append, List.map_append]
            simp [outputOf, Ne.symm hq]
      · show t.1 < (w.procs.set p y).length
        rw [List.length_set]
        rcases hout with hsame | ⟨text, hmore⟩
        · exact h.lt t (hsame ▸ ht)
        · have ht : t ∈ g.out := ht
          rw [hmore] at ht
          rcases List.mem_append.mp ht with hold | hnew
          · exact h.lt t hold
          · rw [List.mem_singleton.mp hnew]
            exact hlt

def sampleStart : CrowdWorld Shared Proc := ⟨⟨.empty, []⟩, []⟩

/-- Two messages are sent, and the one with the higher priority is received first. -/
def sampleRun : List (CrowdAct Command Call) :=
  [.spawn ⟨.create, [str "pmsg_create", str "-c", str "-m", str "2", str "/q"], true⟩,
    .exec 0 (.go 0), .spawn ⟨.send, [str "pmsg_send", str "/q", str "low", str "1"], true⟩,
    .exec 1 (.go 0), .exec 1 (.go 0),
    .spawn ⟨.send, [str "pmsg_send", str "/q", str "high", str "7"], true⟩, .exec 2 (.go 0),
    .exec 2 (.go 0), .spawn ⟨.receive, [str "pmsg_receive", str "/q"], true⟩, .exec 3 (.go 0),
    .exec 3 (.go 0), .exec 3 (.go 0)]

/-- A step of a process without a failure. -/
def Succeeds : CrowdAct Command Call → Prop
  | .exec _ (.go _) => True
  | _ => False

/-- The process is blocked: in `mq_send` on a full queue, or in `mq_receive` on an empty one. -/
def Blocked (fs : Named (List UInt8) WaitQueue) (p : ℕ) (x : Proc) : Prop :=
  ∃ i k, fs.objs[i]? = some k ∧
    (x.pc = .sending i ∧ p ∈ k.senders.map Prod.fst ∧ k.queue.messages.length = k.queue.maxmsg ∨
      x.pc = .receiving i ∧ p ∈ k.receivers ∧ k.queue.messages = [])

theorem blocked_go (hinv : Inv w) {pick : ℕ} (h : Blocked w.shared.fs p x) :
    go p w.shared x pick = none := by
  obtain ⟨i, k, hk, ⟨hpc, hmem, -⟩ | ⟨hpc, hmem, -⟩⟩ := h
  · simp only [go, hpc, hk, Option.bind_some, if_pos hmem]
  · have hnone : k.taken.find? (fun t => decide (t.1 = p)) = none := by
      rw [List.find?_eq_none]
      intro t ht heq
      have hnodup := List.disjoint_of_nodup_append (hinv.queues i k hk).ok.receivers_nodup
      have hp : p ∈ k.taken.map Prod.fst := by
        have htp : t.1 = p := by simpa using heq
        exact htp ▸ List.mem_map_of_mem ht
      exact hnodup hp hmem
    simp only [go, hpc, hk, Option.bind_some, hnone, Option.map_none]

theorem ended_go {pick : ℕ} (h : x.pc.ended = true) : go p g x pick = none := by
  cases hpc : x.pc with
  | exited status => simp only [go, hpc]
  | killed => simp only [go, hpc]
  | _ =>
      rw [hpc] at h
      cases h

/-- A process that has not ended and is not blocked can go on. -/
theorem Inv.go_on (hinv : Inv w) (hx : w.procs[p]? = some x) (hended : x.pc.ended = false)
    (hblocked : ¬ Blocked w.shared.fs p x) : ∃ r, go p w.shared x 0 = some r := by
  have hproc := hinv.procs p x hx
  cases hpc : x.pc with
  | start =>
      simp only [go, hpc]
      exact ⟨_, rfl⟩
  | opened i =>
      obtain ⟨hlt, hready⟩ := hproc.opened i hpc
      obtain ⟨k, hk⟩ : ∃ k, w.shared.fs.objs[i]? = some k := ⟨_, List.getElem?_eq_getElem hlt⟩
      have hok := (hinv.queues i k hk).ok
      simp only [go, hpc, opened, hk, Option.bind_some]
      rcases hready with ⟨hprog, args, hargs⟩ | ⟨hprog, args, hargs⟩ | hprog
      · obtain ⟨r, hr⟩ := hok.can_send p ⟨args.prio.toNat, args.msg⟩
        simp only [hprog, hargs, Option.bind_some, sendCall, hr]
        split
        · exact ⟨_, rfl⟩
        · exact ⟨_, rfl⟩
      · obtain ⟨r, hr⟩ := hok.can_receive p
        simp only [hprog, hargs, Option.bind_some, receiveCall, hr]
        exact ⟨_, rfl⟩
      · simp only [hprog]
        exact ⟨_, rfl⟩
  | sending i =>
      obtain ⟨k, hk⟩ : ∃ k, w.shared.fs.objs[i]? = some k :=
        ⟨_, List.getElem?_eq_getElem (hproc.sending i hpc)⟩
      have hok := (hinv.queues i k hk).ok
      have hnot : p ∉ k.senders.map Prod.fst := by
        intro hmem
        refine hblocked ⟨i, k, hk, Or.inl ⟨hpc, hmem, hok.full ?_⟩⟩
        intro hnil
        rw [hnil] at hmem
        cases hmem
      simp only [go, hpc, hk, Option.bind_some, if_neg hnot]
      exact ⟨_, rfl⟩
  | receiving i =>
      obtain ⟨k, hk, hmem⟩ := hproc.receiving i hpc
      have hok := (hinv.queues i k hk).ok
      rcases List.mem_append.mp hmem with htaken | hwaits
      · obtain ⟨t, ht, htp⟩ := List.mem_map.mp htaken
        have hfound : (k.taken.find? fun t => decide (t.1 = p)).isSome = true :=
          List.find?_isSome.mpr ⟨t, ht, decide_eq_true htp⟩
        obtain ⟨s, hs⟩ := Option.isSome_iff_exists.mp hfound
        simp only [go, hpc, hk, Option.bind_some, hs]
        exact ⟨_, rfl⟩
      · refine absurd ⟨i, k, hk, Or.inr ⟨hpc, hwaits, hok.empty ?_⟩⟩ hblocked
        intro hnil
        rw [hnil] at hwaits
        cases hwaits
  | received i m =>
      simp only [go, hpc]
      exact ⟨_, rfl⟩
  | exited status =>
      rw [hpc] at hended
      cases hended
  | killed =>
      rw [hpc] at hended
      cases hended

/-- The processes that cannot go on have ended or are blocked. -/
theorem Inv.stuck_iff (hinv : Inv w) :
    pmsg.system.Stuck Succeeds w ↔
      ∀ p x, w.procs[p]? = some x → x.pc.ended = true ∨ Blocked w.shared.fs p x := by
  constructor
  · intro hstuck p x hx
    by_contra hnot
    obtain ⟨hended, hblocked⟩ := not_or.mp hnot
    obtain ⟨r, hr⟩ := hinv.go_on hx (by simpa using hended) hblocked
    have hexec : pmsg.exec p w.shared x (.go 0) = some r := hr
    have hnone : pmsg.next w (.exec p (.go 0)) = none := hstuck (.exec p (.go 0)) trivial
    rw [Crowd.next_exec hx, hexec] at hnone
    cases hnone
  · intro hall a ha
    cases a with
    | spawn c => cases ha
    | exec p c =>
        cases c with
        | fail => cases ha
        | kill => cases ha
        | go pick =>
            show pmsg.next w (.exec p (.go pick)) = none
            cases hx : w.procs[p]? with
            | none => simp [Crowd.next, hx]
            | some x =>
                have hnone : pmsg.exec p w.shared x (.go pick) = none := by
                  rcases hall p x hx with hended | hblocked
                  · exact ended_go hended
                  · exact blocked_go hinv hblocked
                rw [Crowd.next_exec hx, hnone]
                rfl

/-- **No message is forgotten.** In every reachable state the processes cannot go on exactly if each
of them has ended, is blocked in `mq_send` on a full queue, or is blocked in `mq_receive` on an
empty queue. The two kinds of blocked processes never meet at one queue; and while a process is
blocked in `mq_receive`, every message that came into its queue has been given to a process. -/
theorem no_message_forgotten (h : pmsg.system.Reachable w) :
    (pmsg.system.Stuck Succeeds w ↔
      ∀ p x, w.procs[p]? = some x → x.pc.ended = true ∨ Blocked w.shared.fs p x) ∧
    ∀ (i : ℕ) (k : WaitQueue), w.shared.fs.objs[i]? = some k →
      (k.receivers = [] ∨ k.senders = []) ∧
      (k.receivers ≠ [] → (k.taken.map Prod.snd).Perm (k.accepted.map Prod.snd)) := by
  have hinv := inv_of_reachable h
  refine ⟨hinv.stuck_iff, fun i k hk => ⟨(hinv.queues i k hk).ok.one_side, fun hr => ?_⟩⟩
  have hok := (hinv.queues i k hk).ok
  rw [List.perm_iff_count]
  intro m
  have horder := hok.order m.priority
  rw [hok.empty hr] at horder
  have hcount : ∀ ms : List Message, (ofPriority m.priority ms).count m = ms.count m := fun ms =>
    List.count_filter (by simp)
  have hnil : ofPriority m.priority [] = [] := rfl
  rw [hnil, List.append_nil] at horder
  rw [← hcount (k.taken.map Prod.snd), horder, hcount]

/-- A process waits for a message of the first queue, and another one waits to put a second message
into the second queue, which is full. -/
def blockedRun : List (CrowdAct Command Call) :=
  [.spawn ⟨.create, [str "pmsg_create", str "-c", str "-m", str "1", str "/q"], true⟩,
    .exec 0 (.go 0),
    .spawn ⟨.create, [str "pmsg_create", str "-c", str "-m", str "1", str "/r"], true⟩,
    .exec 1 (.go 0), .spawn ⟨.receive, [str "pmsg_receive", str "/q"], true⟩, .exec 2 (.go 0),
    .exec 2 (.go 0), .spawn ⟨.send, [str "pmsg_send", str "/r", str "a"], true⟩, .exec 3 (.go 0),
    .exec 3 (.go 0), .spawn ⟨.send, [str "pmsg_send", str "/r", str "b"], true⟩, .exec 4 (.go 0),
    .exec 4 (.go 0)]

theorem no_message_forgotten_blockedRun :
    ∃ w k l, pmsg.system.run sampleStart blockedRun = some w ∧
      w.shared.fs.objs[0]? = some k ∧ w.shared.fs.objs[1]? = some l ∧ k.receivers = [2] ∧
      l.senders.map Prod.fst = [4] ∧ pmsg.system.Stuck Succeeds w := by
  have hrun : ((pmsg.system.run sampleStart blockedRun).bind fun w =>
      (w.shared.fs.objs[0]?).bind fun k => (w.shared.fs.objs[1]?).map fun l =>
        ((k.receivers, k.queue.messages), (l.senders.map Prod.fst, l.queue.messages.length,
          l.queue.maxmsg), w.procs.map Proc.pc)) =
      some (([2], []), ([4], 1, 1), [.exited EXIT_SUCCESS, .exited EXIT_SUCCESS, .receiving 0,
        .exited EXIT_SUCCESS, .sending 1]) := by
    decide +kernel
  obtain ⟨w, hw, hrun⟩ := Option.bind_eq_some_iff.mp hrun
  obtain ⟨k, hk, hrun⟩ := Option.bind_eq_some_iff.mp hrun
  obtain ⟨l, hl, heq⟩ := Option.map_eq_some_iff.mp hrun
  obtain ⟨hwaits, heq⟩ := Prod.mk.inj heq
  obtain ⟨hfull, hpcs⟩ := Prod.mk.inj heq
  obtain ⟨hreceivers, hempty⟩ := Prod.mk.inj hwaits
  obtain ⟨hsenders, hfull⟩ := Prod.mk.inj hfull
  obtain ⟨hcount, hmax⟩ := Prod.mk.inj hfull
  have hmain := no_message_forgotten ⟨sampleStart, _, ⟨⟨rfl, rfl⟩, rfl⟩, hw⟩
  refine ⟨w, k, l, hw, hk, hl, hreceivers, hsenders, hmain.1.mpr fun p x hx => ?_⟩
  have hpc : (w.procs.map Proc.pc)[p]? = some x.pc := by rw [List.getElem?_map, hx]; rfl
  rw [hpcs] at hpc
  match p, hpc with
  | 0, hpc => exact Or.inl (Option.some.inj hpc ▸ rfl)
  | 1, hpc => exact Or.inl (Option.some.inj hpc ▸ rfl)
  | 2, hpc =>
      refine Or.inr ⟨0, k, hk, Or.inr ⟨(Option.some.inj hpc).symm, ?_, hempty⟩⟩
      rw [hreceivers]
      decide
  | 3, hpc => exact Or.inl (Option.some.inj hpc ▸ rfl)
  | 4, hpc =>
      refine Or.inr ⟨1, l, hl, Or.inl ⟨(Option.some.inj hpc).symm, ?_, hcount.trans hmax.symm⟩⟩
      rw [hsenders]
      decide

end

end Tlpi.Pmsg
