import Tlpi.Lib.Transition

set_option autoImplicit false

/-! # A parent that waits for a signal of its child (procexec/fork_sig_sync.c)

The parent blocks SIGUSR1 (`SYNC_SIG`) and installs a handler for it before it forks, and lets the
signal in with `sigsuspend` only, so that the child may send it before the parent waits for it. The
lines that the processes print are modelled without the time and the process id in front of them.
-/

namespace Tlpi.ForkSigSync

inductive Disposition where
  | default
  | ignore
  | handler
deriving DecidableEq, Repr

inductive ParentPc where
  | sigprocmask
  | sigaction
  | fork
  | printWait
  | sigsuspend
  | suspended
  | printGot
  | restore
  | exit
  | failed (error : String)
  | exited
  | killed
deriving DecidableEq, Repr

inductive ChildPc where
  | printStarted
  | sleep
  | printAbout
  | kill
  | exit
  | failed (error : String)
  | exited
  | killed
deriving DecidableEq, Repr

/-- The parent: whether SIGUSR1 is blocked, and whether it was at the start (`origMask`) and before
`sigsuspend`; what SIGUSR1 does. -/
structure Parent where
  pc : ParentPc
  blocked : Bool
  origMask : Bool
  saved : Bool
  action : Disposition
deriving DecidableEq, Repr

inductive Line where
  | childStarted
  | childAbout
  | parentWaits
  | parentGot
deriving DecidableEq, Repr

/-- `pending` is about SIGUSR1 and the parent; `sent` says whether the child's `kill` has
succeeded. -/
structure World where
  parent : Parent
  child : Option ChildPc
  pending : Bool
  sent : Bool
  stdout : List Line
deriving DecidableEq, Repr

inductive Call where
  | go
  | fail
  | deliver
  | kill
deriving DecidableEq, Repr

/-- A step of the parent, one of the child, or a SIGUSR1 that another process sends to the
parent. -/
inductive Act where
  | parent (a : Call)
  | child (a : Call)
  | send
deriving DecidableEq, Repr

def ParentPc.ended : ParentPc → Bool
  | .failed _ => true
  | .exited => true
  | .killed => true
  | _ => false

def ChildPc.ended : ChildPc → Bool
  | .failed _ => true
  | .exited => true
  | .killed => true
  | _ => false

def ParentPc.error : ParentPc → Option String
  | .sigprocmask => some "sigprocmask"
  | .sigaction => some "sigaction"
  | .fork => some "fork"
  | .sigsuspend => some "sigsuspend"
  | .restore => some "sigprocmask"
  | _ => none

/-- A signal that is pending and not blocked is delivered before the parent goes on. -/
def World.deliverable (w : World) : Bool := w.pending && !w.parent.blocked && !w.parent.pc.ended

def World.goto (w : World) (pc : ParentPc) : World :=
  { w with parent := { w.parent with pc := pc } }

def parentGo (w : World) : Option World :=
  match w.parent.pc with
  | .sigprocmask => some { w with parent := { w.parent with pc := .sigaction, blocked := true } }
  | .sigaction => some { w with parent := { w.parent with pc := .fork, action := .handler } }
  | .fork => some { w.goto .printWait with child := some .printStarted }
  | .printWait => some { w.goto .sigsuspend with stdout := w.stdout ++ [.parentWaits] }
  | .sigsuspend =>
      some { w with parent := { w.parent with
        pc := .suspended
        blocked := false
        saved := w.parent.blocked } }
  | .printGot => some { w.goto .restore with stdout := w.stdout ++ [.parentGot] }
  | .restore =>
      some { w with parent := { w.parent with pc := .exit, blocked := w.parent.origMask } }
  | .exit => some (w.goto .exited)
  | _ => none

/-- The delivery of SIGUSR1. The handler does nothing; `sigsuspend` returns after it, with the mask
as it was before. -/
def deliver (w : World) : World :=
  match w.parent.action, w.parent.pc with
  | .default, _ => { w.goto .killed with pending := false }
  | .handler, .suspended =>
      { w with
        pending := false
        parent := { w.parent with pc := .printGot, blocked := w.parent.saved } }
  | _, _ => { w with pending := false }

def parentStep (w : World) : Call → Option World
  | .go => if w.deliverable then none else parentGo w
  | .fail =>
      if w.deliverable then none
      else w.parent.pc.error.map fun error => w.goto (.failed error)
  | .deliver => if w.deliverable then some (deliver w) else none
  | .kill => if w.parent.pc.ended then none else some (w.goto .killed)

/-- `kill (getppid (), SYNC_SIG)`: the signal is for another process if the parent has ended. -/
def childKill (w : World) : World :=
  { w with child := some .exit, sent := true, pending := w.pending || !w.parent.pc.ended }

def childStep (w : World) (pc : ChildPc) : Call → Option World
  | .go =>
      match pc with
      | .printStarted =>
          some { w with child := some .sleep, stdout := w.stdout ++ [.childStarted] }
      | .sleep => some { w with child := some .printAbout }
      | .printAbout => some { w with child := some .kill, stdout := w.stdout ++ [.childAbout] }
      | .kill => some (childKill w)
      | .exit => some { w with child := some .exited }
      | _ => none
  | .fail => if pc = .kill then some { w with child := some (.failed "kill") } else none
  | .deliver => none
  | .kill => if pc.ended then none else some { w with child := some .killed }

def step (w : World) : Act → Option World
  | .parent a => parentStep w a
  | .child a => w.child.bind fun pc => childStep w pc a
  | .send => if w.parent.pc.ended then none else some { w with pending := true }

def system : TransSys World Act where
  Init w := ∃ blocked action, action ≠ Disposition.handler ∧
    w = ⟨⟨.sigprocmask, blocked, blocked, blocked, action⟩, none, false, false, []⟩
  step := step

/-! ## What a step does -/

/-- The steps of the parent. -/
inductive ParentMove (w : World) : Call → World → Prop where
  | block (hpc : w.parent.pc = .sigprocmask) (hd : w.deliverable = false) : ParentMove w .go
      { w with parent := { w.parent with pc := .sigaction, blocked := true } }
  | install (hpc : w.parent.pc = .sigaction) : ParentMove w .go
      { w with parent := { w.parent with pc := .fork, action := .handler } }
  | fork (hpc : w.parent.pc = .fork) : ParentMove w .go
      { w.goto .printWait with child := some .printStarted }
  | waits (hpc : w.parent.pc = .printWait) : ParentMove w .go
      { w.goto .sigsuspend with stdout := w.stdout ++ [.parentWaits] }
  | suspend (hpc : w.parent.pc = .sigsuspend) : ParentMove w .go
      { w with parent := { w.parent with
        pc := .suspended
        blocked := false
        saved := w.parent.blocked } }
  | got (hpc : w.parent.pc = .printGot) : ParentMove w .go
      { w.goto .restore with stdout := w.stdout ++ [.parentGot] }
  | restore (hpc : w.parent.pc = .restore) : ParentMove w .go
      { w with parent := { w.parent with pc := .exit, blocked := w.parent.origMask } }
  | exit (hpc : w.parent.pc = .exit) : ParentMove w .go (w.goto .exited)
  | fail (error : String) (h : w.parent.pc.ended = false) :
      ParentMove w .fail (w.goto (.failed error))
  | default (hd : w.deliverable = true) (haction : w.parent.action = .default) :
      ParentMove w .deliver { w.goto .killed with pending := false }
  | wake (hd : w.deliverable = true) (hpc : w.parent.pc = .suspended) :
      ParentMove w .deliver { w with
        pending := false
        parent := { w.parent with pc := .printGot, blocked := w.parent.saved } }
  | drop (hd : w.deliverable = true)
      (h : w.parent.action = .ignore ∨ w.parent.pc ≠ .suspended) :
      ParentMove w .deliver { w with pending := false }
  | kill (h : w.parent.pc.ended = false) : ParentMove w .kill (w.goto .killed)

inductive ChildMove (w : World) : ChildPc → Call → World → Prop where
  | started : ChildMove w .printStarted .go
      { w with child := some .sleep, stdout := w.stdout ++ [.childStarted] }
  | slept : ChildMove w .sleep .go { w with child := some .printAbout }
  | about : ChildMove w .printAbout .go
      { w with child := some .kill, stdout := w.stdout ++ [.childAbout] }
  | sent : ChildMove w .kill .go (childKill w)
  | exits : ChildMove w .exit .go { w with child := some .exited }
  | fails : ChildMove w .kill .fail { w with child := some (.failed "kill") }
  | killed (pc : ChildPc) (h : pc.ended = false) :
      ChildMove w pc .kill { w with child := some .killed }

/-- All steps of the system. -/
inductive Move (w : World) : Act → World → Prop where
  | parent (a : Call) (v : World) (h : ParentMove w a v) : Move w (.parent a) v
  | child (a : Call) (pc : ChildPc) (v : World) (hc : w.child = some pc)
      (h : ChildMove w pc a v) : Move w (.child a) v
  | send (h : w.parent.pc.ended = false) : Move w .send { w with pending := true }

variable {w v : World} {a : Act}

theorem parentGo_cases (hd : w.deliverable = false) (h : parentGo w = some v) :
    ParentMove w .go v := by
  unfold parentGo at h
  split at h
  next hpc => obtain rfl := Option.some.inj h; exact .block hpc hd
  next hpc => obtain rfl := Option.some.inj h; exact .install hpc
  next hpc => obtain rfl := Option.some.inj h; exact .fork hpc
  next hpc => obtain rfl := Option.some.inj h; exact .waits hpc
  next hpc => obtain rfl := Option.some.inj h; exact .suspend hpc
  next hpc => obtain rfl := Option.some.inj h; exact .got hpc
  next hpc => obtain rfl := Option.some.inj h; exact .restore hpc
  next hpc => obtain rfl := Option.some.inj h; exact .exit hpc
  next => cases h

theorem deliver_cases (hd : w.deliverable = true) : ParentMove w .deliver (deliver w) := by
  unfold deliver
  split
  next haction => exact .default hd haction
  next haction hpc => exact .wake hd hpc
  next hdefault hwake =>
    refine .drop hd ?_
    cases haction : w.parent.action with
    | default => exact absurd haction hdefault
    | ignore => exact Or.inl rfl
    | handler => exact Or.inr (hwake haction)

theorem parentStep_cases {c : Call} (h : parentStep w c = some v) : ParentMove w c v := by
  cases c with
  | go =>
      simp only [parentStep] at h
      split at h
      · cases h
      · rename_i hd
        exact parentGo_cases (Bool.not_eq_true _ ▸ hd) h
  | fail =>
      simp only [parentStep] at h
      split at h
      · cases h
      · obtain ⟨error, herror, rfl⟩ := Option.map_eq_some_iff.mp h
        refine .fail error ?_
        cases hpc : w.parent.pc <;> first | rfl | (rw [hpc] at herror; cases herror)
  | deliver =>
      simp only [parentStep] at h
      split at h
      · rename_i hd
        obtain rfl := Option.some.inj h
        exact deliver_cases hd
      · cases h
  | kill =>
      simp only [parentStep] at h
      split at h
      · cases h
      · rename_i hended
        obtain rfl := Option.some.inj h
        exact .kill (Bool.not_eq_true _ ▸ hended)

theorem childStep_cases {pc : ChildPc} {c : Call} (h : childStep w pc c = some v) :
    ChildMove w pc c v := by
  cases c with
  | go =>
      cases pc with
      | printStarted => obtain rfl := Option.some.inj h; exact .started
      | sleep => obtain rfl := Option.some.inj h; exact .slept
      | printAbout => obtain rfl := Option.some.inj h; exact .about
      | kill => obtain rfl := Option.some.inj h; exact .sent
      | exit => obtain rfl := Option.some.inj h; exact .exits
      | _ => cases h
  | fail =>
      simp only [childStep] at h
      split at h
      · rename_i hpc
        obtain rfl := Option.some.inj h
        exact hpc ▸ .fails
      · cases h
  | deliver => cases h
  | kill =>
      simp only [childStep] at h
      split at h
      · cases h
      · rename_i hended
        obtain rfl := Option.some.inj h
        exact .killed pc (Bool.not_eq_true _ ▸ hended)

theorem step_cases (h : step w a = some v) : Move w a v := by
  cases a with
  | parent c => exact .parent c v (parentStep_cases h)
  | child c =>
      obtain ⟨pc, hc, h⟩ := Option.bind_eq_some_iff.mp h
      exact .child c pc v hc (childStep_cases h)
  | send =>
      simp only [step] at h
      split at h
      · cases h
      · rename_i hended
        obtain rfl := Option.some.inj h
        exact .send (Bool.not_eq_true _ ▸ hended)

/-! ## The mask and the handler -/

/-- Where the parent has SIGUSR1 blocked. -/
def ParentPc.masked : ParentPc → Bool
  | .sigaction => true
  | .fork => true
  | .printWait => true
  | .sigsuspend => true
  | .printGot => true
  | .restore => true
  | _ => false

/-- Where the parent has its handler installed. -/
def ParentPc.caught : ParentPc → Bool
  | .fork => true
  | .printWait => true
  | .sigsuspend => true
  | .suspended => true
  | .printGot => true
  | .restore => true
  | .exit => true
  | _ => false

structure SetUp (p : Parent) : Prop where
  blocked : p.pc.masked = true → p.blocked = true
  suspended : p.pc = .suspended → p.blocked = false ∧ p.saved = true
  handler : p.pc.caught = true → p.action = .handler

theorem SetUp.not_masked (h : SetUp w.parent) (hd : w.deliverable = true) :
    w.parent.pc.masked = false := by
  rw [← Bool.not_eq_true]
  intro hmasked
  simp [World.deliverable, h.blocked hmasked] at hd

/-- A parent that has ended, or is where nothing is asked of it. -/
theorem SetUp.of_free {p : Parent} (hmasked : p.pc.masked = false) (hcaught : p.pc.caught = false)
    (hsuspended : p.pc ≠ .suspended) : SetUp p where
  blocked h := nomatch hmasked.symm.trans h
  suspended h := absurd h hsuspended
  handler h := nomatch hcaught.symm.trans h

theorem ParentMove.setUp {c : Call} (hmove : ParentMove w c v) (h : SetUp w.parent) :
    SetUp v.parent := by
  cases hmove with
  | block hpc hd => exact ⟨fun _ => rfl, nofun, nofun⟩
  | install hpc => exact ⟨fun _ => h.blocked (by rw [hpc]; rfl), nofun, fun _ => rfl⟩
  | fork hpc =>
      exact ⟨fun _ => h.blocked (by rw [hpc]; rfl), nofun, fun _ => h.handler (by rw [hpc]; rfl)⟩
  | waits hpc =>
      exact ⟨fun _ => h.blocked (by rw [hpc]; rfl), nofun, fun _ => h.handler (by rw [hpc]; rfl)⟩
  | suspend hpc =>
      exact ⟨nofun, fun _ => ⟨rfl, h.blocked (by rw [hpc]; rfl)⟩,
        fun _ => h.handler (by rw [hpc]; rfl)⟩
  | got hpc =>
      exact ⟨fun _ => h.blocked (by rw [hpc]; rfl), nofun, fun _ => h.handler (by rw [hpc]; rfl)⟩
  | restore hpc => exact ⟨nofun, nofun, fun _ => h.handler (by rw [hpc]; rfl)⟩
  | exit hpc => exact SetUp.of_free rfl rfl nofun
  | fail error hended => exact SetUp.of_free rfl rfl nofun
  | default hd haction => exact SetUp.of_free rfl rfl nofun
  | wake hd hpc =>
      exact ⟨fun _ => (h.suspended hpc).2, nofun, fun _ => h.handler (by rw [hpc]; rfl)⟩
  | drop hd hno => exact ⟨h.blocked, h.suspended, h.handler⟩
  | kill hended => exact SetUp.of_free rfl rfl nofun

theorem ChildMove.parent {pc : ChildPc} {c : Call} (hmove : ChildMove w pc c v) :
    v.parent = w.parent := by
  cases hmove <;> rfl

theorem Move.setUp (hmove : Move w a v) (h : SetUp w.parent) : SetUp v.parent := by
  cases hmove with
  | parent c v hmove => exact hmove.setUp h
  | child c pc v hc hmove => exact hmove.parent ▸ h
  | send hended => exact h

/-! ## The signal of the child -/

/-- Where the parent has made no child yet. -/
def ParentPc.early : ParentPc → Bool
  | .sigprocmask => true
  | .sigaction => true
  | .fork => true
  | _ => false

/-- Where the parent has got the signal. -/
def ParentPc.woken : ParentPc → Bool
  | .printGot => true
  | .restore => true
  | .exit => true
  | .exited => true
  | _ => false

def ChildPc.past : ChildPc → Bool
  | .exit => true
  | .exited => true
  | .killed => true
  | _ => false

/-- The child has sent the signal if it got past `kill`, and then the signal is pending until the
parent gets it. -/
structure Sync (w : World) : Prop where
  early : w.parent.pc.early = true → w.child = none
  late : w.child = none → w.sent = false ∧ (w.parent.pc.early = true ∨ w.parent.pc.ended = true) ∧
    w.parent.pc.woken = false
  past : ∀ pc, w.child = some pc → w.sent = true → pc.past = true
  sends : ∀ pc, w.child = some pc → pc = .exit ∨ pc = .exited → w.sent = true
  wake : w.sent = true → w.pending = true ∨ w.parent.pc.woken = true ∨ w.parent.pc.ended = true

/-- A step of the parent after its `fork` that keeps the signal pending, or has it already. -/
theorem Sync.of_parent (h : Sync w) {p : Parent} {pending : Bool} {stdout : List Line}
    (hearly : p.pc.early = true → w.parent.pc.early = true)
    (hlate : w.child = none → (p.pc.early = true ∨ p.pc.ended = true) ∧ p.pc.woken = false)
    (hwake : w.sent = true → pending = true ∨ p.pc.woken = true ∨ p.pc.ended = true) :
    Sync { w with parent := p, pending := pending, stdout := stdout } where
  early hpc := h.early (hearly hpc)
  late hc := ⟨(h.late hc).1, hlate hc⟩
  past := h.past
  sends := h.sends
  wake := hwake

theorem Sync.not_sent (h : Sync w) (hearly : w.parent.pc.early = true) : w.sent ≠ true := by
  rw [(h.late (h.early hearly)).1]
  exact Bool.false_ne_true

/-- After its `fork` the parent has a child. -/
theorem Sync.child_ne_none (h : Sync w) (hearly : w.parent.pc.early = false)
    (hended : w.parent.pc.ended = false) : w.child ≠ none := by
  intro hc
  rcases (h.late hc).2.1 with hpc | hpc
  · exact nomatch hearly.symm.trans hpc
  · exact nomatch hended.symm.trans hpc

/-- Where a signal that the child has sent may be delivered. -/
theorem Sync.deliver_cases (h : Sync w) (hs : SetUp w.parent) (hd : w.deliverable = true)
    (hsent : w.sent = true) : w.parent.pc = .suspended ∨ w.parent.pc.woken = true := by
  have hmasked := hs.not_masked hd
  have hearly := h.not_sent
  simp only [World.deliverable, Bool.and_eq_true, Bool.not_eq_true'] at hd
  cases hpc : w.parent.pc with
  | sigprocmask => exact absurd hsent (hearly (by rw [hpc]; rfl))
  | suspended => exact Or.inl rfl
  | exit => exact Or.inr rfl
  | exited => exact Or.inr rfl
  | failed error => rw [hpc] at hd; cases hd.2
  | killed => rw [hpc] at hd; cases hd.2
  | _ => rw [hpc] at hmasked; cases hmasked

theorem ParentMove.sync {c : Call} (hmove : ParentMove w c v) (h : Sync w) (hs : SetUp w.parent) :
    Sync v := by
  cases hmove with
  | block hpc hd =>
      have hearly : w.parent.pc.early = true := by rw [hpc]; rfl
      exact h.of_parent (fun _ => hearly) (fun _ => ⟨Or.inl rfl, rfl⟩)
        (fun hsent => absurd hsent (h.not_sent hearly))
  | install hpc =>
      have hearly : w.parent.pc.early = true := by rw [hpc]; rfl
      exact h.of_parent (fun _ => hearly) (fun _ => ⟨Or.inl rfl, rfl⟩)
        (fun hsent => absurd hsent (h.not_sent hearly))
  | fork hpc =>
      have hnot := h.not_sent (by rw [hpc]; rfl)
      refine ⟨nofun, nofun, fun _ _ hsent => absurd hsent hnot, ?_,
        fun hsent => absurd hsent hnot⟩
      rintro _ hc (rfl | rfl) <;> cases hc
  | waits hpc =>
      have hchild := h.child_ne_none (by rw [hpc]; rfl) (by rw [hpc]; rfl)
      refine h.of_parent nofun (fun hc => absurd hc hchild) fun hsent => ?_
      have hwake := h.wake hsent
      rw [hpc] at hwake
      exact hwake
  | suspend hpc =>
      have hchild := h.child_ne_none (by rw [hpc]; rfl) (by rw [hpc]; rfl)
      refine h.of_parent nofun (fun hc => absurd hc hchild) fun hsent => ?_
      have hwake := h.wake hsent
      rw [hpc] at hwake
      exact hwake
  | got hpc =>
      have hchild := h.child_ne_none (by rw [hpc]; rfl) (by rw [hpc]; rfl)
      exact h.of_parent nofun (fun hc => absurd hc hchild) fun _ => Or.inr (Or.inl rfl)
  | restore hpc =>
      have hchild := h.child_ne_none (by rw [hpc]; rfl) (by rw [hpc]; rfl)
      exact h.of_parent nofun (fun hc => absurd hc hchild) fun _ => Or.inr (Or.inl rfl)
  | exit hpc =>
      have hchild := h.child_ne_none (by rw [hpc]; rfl) (by rw [hpc]; rfl)
      exact h.of_parent nofun (fun hc => absurd hc hchild) fun _ => Or.inr (Or.inl rfl)
  | fail error hended =>
      exact h.of_parent nofun (fun _ => ⟨Or.inr rfl, rfl⟩) fun _ => Or.inr (Or.inr rfl)
  | default hd haction =>
      exact h.of_parent nofun (fun _ => ⟨Or.inr rfl, rfl⟩) fun _ => Or.inr (Or.inr rfl)
  | wake hd hpc =>
      have hchild := h.child_ne_none (by rw [hpc]; rfl) (by rw [hpc]; rfl)
      exact h.of_parent nofun (fun hc => absurd hc hchild) fun _ => Or.inr (Or.inl rfl)
  | drop hd hno =>
      refine h.of_parent id (fun hc => (h.late hc).2) fun hsent => Or.inr ?_
      rcases h.deliver_cases hs hd hsent with hpc | hwoken
      · have hhandler := hs.handler (by rw [hpc]; rfl)
        rcases hno with hignore | hne
        · exact nomatch hhandler.symm.trans hignore
        · exact absurd hpc hne
      · exact Or.inl hwoken
  | kill hended =>
      exact h.of_parent nofun (fun _ => ⟨Or.inr rfl, rfl⟩) fun _ => Or.inr (Or.inr rfl)

/-- A step of the child other than `kill`. -/
theorem Sync.of_child (h : Sync w) {pc pc' : ChildPc} {stdout : List Line} (hc : w.child = some pc)
    (hpast : pc.past = true → pc'.past = true)
    (hsends : pc' = .exit ∨ pc' = .exited → pc = .exit ∨ pc = .exited) :
    Sync { w with child := some pc', stdout := stdout } where
  early hpc := nomatch hc.symm.trans (h.early hpc)
  late := nofun
  past _ hpc' hsent := Option.some.inj hpc' ▸ hpast (h.past pc hc hsent)
  sends _ hpc' hexit := h.sends pc hc (hsends (Option.some.inj hpc' ▸ hexit))
  wake := h.wake

theorem ChildMove.sync {pc : ChildPc} {c : Call} (hmove : ChildMove w pc c v)
    (hc : w.child = some pc) (h : Sync w) : Sync v := by
  cases hmove with
  | started => exact h.of_child hc nofun (by rintro (h | h) <;> cases h)
  | slept => exact h.of_child hc nofun (by rintro (h | h) <;> cases h)
  | about => exact h.of_child hc nofun (by rintro (h | h) <;> cases h)
  | sent =>
      refine ⟨fun hpc => ?_, nofun, ?_, fun _ _ _ => rfl, ?_⟩
      · exact nomatch hc.symm.trans (h.early hpc)
      · rintro _ hpc -
        exact Option.some.inj hpc ▸ rfl
      · intro
        cases hended : w.parent.pc.ended with
        | true => exact Or.inr (Or.inr hended)
        | false => exact Or.inl (by simp [childKill, hended])
  | exits => exact h.of_child hc (fun _ => rfl) fun _ => Or.inl rfl
  | fails => exact h.of_child hc nofun (by rintro (h | h) <;> cases h)
  | killed pc hended => exact h.of_child hc (fun _ => rfl) (by rintro (h | h) <;> cases h)

theorem Move.sync (hmove : Move w a v) (h : Sync w) (hs : SetUp w.parent) : Sync v := by
  cases hmove with
  | parent c v hmove => exact hmove.sync h hs
  | child c pc v hc hmove => exact hmove.sync hc h
  | send hended => exact ⟨h.early, h.late, h.past, h.sends, fun _ => Or.inl rfl⟩

theorem setUp_sync_init (h : system.Init w) : SetUp w.parent ∧ Sync w := by
  obtain ⟨blocked, action, -, rfl⟩ := h
  exact ⟨SetUp.of_free rfl rfl nofun, fun _ => rfl, fun _ => ⟨rfl, Or.inl rfl, rfl⟩, nofun, nofun,
    nofun⟩

variable {w₀ : World} {as : List Act}

theorem setUp_sync (h₀ : system.Init w₀) (hrun : system.run w₀ as = some w) :
    SetUp w.parent ∧ Sync w :=
  TransSys.run_preserves (P := fun w => SetUp w.parent ∧ Sync w)
    (fun _ _ _ ⟨hs, h⟩ hstep => ⟨(step_cases hstep).setUp hs, (step_cases hstep).sync h hs⟩)
    (setUp_sync_init h₀) hrun

/-! ## What the processes print -/

def Line.ofParent : Line → Bool
  | .parentWaits => true
  | .parentGot => true
  | _ => false

def Line.ofChild (line : Line) : Bool := !line.ofParent

/-- The lines the parent has printed when it is at `pc`. -/
def ParentPc.lines : ParentPc → Option (List Line)
  | .sigprocmask => some []
  | .sigaction => some []
  | .fork => some []
  | .printWait => some []
  | .sigsuspend => some [.parentWaits]
  | .suspended => some [.parentWaits]
  | .printGot => some [.parentWaits]
  | .restore => some [.parentWaits, .parentGot]
  | .exit => some [.parentWaits, .parentGot]
  | .exited => some [.parentWaits, .parentGot]
  | _ => none

def ChildPc.lines : ChildPc → Option (List Line)
  | .printStarted => some []
  | .sleep => some [.childStarted]
  | .printAbout => some [.childStarted]
  | .kill => some [.childStarted, .childAbout]
  | _ => none

/-- The signal comes from the child, after the child's last line, and the last line of the parent
comes after the signal. -/
structure Told (w : World) : Prop where
  parent : ∀ ls, w.parent.pc.lines = some ls → w.stdout.filter Line.ofParent = ls
  child : ∀ pc, w.child = some pc → ∀ ls, pc.lines = some ls → w.stdout.filter Line.ofChild = ls
  noChild : w.child = none → w.stdout.filter Line.ofChild = []
  sent : w.sent = true → w.stdout.filter Line.ofChild = [.childStarted, .childAbout]
  pending : w.pending = true → w.sent = true
  woken : w.parent.pc.woken = true → w.sent = true
  got : .parentGot ∈ w.stdout →
    w.sent = true ∧ ∃ l, w.stdout = l ++ [.parentGot] ∧ l.filter Line.ofParent = [.parentWaits]

/-- A step of the parent that prints nothing. -/
theorem Told.of_parent (h : Told w) {p : Parent} {pending : Bool}
    (hlines : ∀ ls, p.pc.lines = some ls → w.parent.pc.lines = some ls)
    (hpending : pending = true → w.pending = true)
    (hwoken : p.pc.woken = true → w.sent = true) :
    Told { w with parent := p, pending := pending } where
  parent ls hls := h.parent ls (hlines ls hls)
  child := h.child
  noChild := h.noChild
  sent := h.sent
  pending hp := h.pending (hpending hp)
  woken := hwoken
  got := h.got

theorem filter_ofChild_append (line : Line) (h : line.ofParent = true) (l : List Line) :
    (l ++ [line]).filter Line.ofChild = l.filter Line.ofChild := by
  simp [List.filter_append, Line.ofChild, h]

theorem filter_ofParent_append (line : Line) (h : line.ofParent = false) (l : List Line) :
    (l ++ [line]).filter Line.ofParent = l.filter Line.ofParent := by
  simp [List.filter_append, h]

theorem ParentMove.told {c : Call} (hmove : ParentMove w c v) (h : Told w) (hsync : Sync w) :
    Told v := by
  cases hmove with
  | block hpc hd => exact h.of_parent (fun _ hls => by rw [hpc]; exact hls) id nofun
  | install hpc => exact h.of_parent (fun _ hls => by rw [hpc]; exact hls) id nofun
  | fork hpc =>
      refine ⟨fun ls hls => h.parent ls (by rw [hpc]; exact hls), ?_, nofun, h.sent, h.pending,
        nofun, h.got⟩
      intro pc hc ls hls
      obtain rfl := Option.some.inj hc
      rw [← Option.some.inj hls]
      exact h.noChild (hsync.early (by rw [hpc]; rfl))
  | waits hpc =>
      have hlines := h.parent [] (by rw [hpc]; rfl)
      have hgot : .parentGot ∉ w.stdout := fun hmem =>
        List.not_mem_nil (hlines ▸ List.mem_filter.mpr ⟨hmem, rfl⟩)
      refine ⟨fun ls hls => ?_, ?_, ?_, ?_, h.pending, nofun, fun hmem => ?_⟩
      · rw [← Option.some.inj hls, List.filter_append, hlines]
        rfl
      · simpa only [World.goto, filter_ofChild_append .parentWaits rfl] using h.child
      · simpa only [World.goto, filter_ofChild_append .parentWaits rfl] using h.noChild
      · simpa only [World.goto, filter_ofChild_append .parentWaits rfl] using h.sent
      · rcases List.mem_append.mp hmem with hmem | hmem
        · exact absurd hmem hgot
        · cases List.mem_singleton.mp hmem
  | suspend hpc => exact h.of_parent (fun _ hls => by rw [hpc]; exact hls) id nofun
  | got hpc =>
      have hlines := h.parent [.parentWaits] (by rw [hpc]; rfl)
      have hsent := h.woken (by rw [hpc]; rfl)
      refine ⟨fun ls hls => ?_, ?_, ?_, ?_, h.pending, fun _ => hsent,
        fun _ => ⟨hsent, w.stdout, rfl, hlines⟩⟩
      · rw [← Option.some.inj hls, List.filter_append, hlines]
        rfl
      · simpa only [World.goto, filter_ofChild_append .parentGot rfl] using h.child
      · simpa only [World.goto, filter_ofChild_append .parentGot rfl] using h.noChild
      · simpa only [World.goto, filter_ofChild_append .parentGot rfl] using h.sent
  | restore hpc =>
      exact h.of_parent (fun _ hls => by rw [hpc]; exact hls) id
        fun _ => h.woken (by rw [hpc]; rfl)
  | exit hpc =>
      exact h.of_parent (fun _ hls => by rw [hpc]; exact hls) id
        fun _ => h.woken (by rw [hpc]; rfl)
  | fail error hended => exact h.of_parent nofun id nofun
  | default hd haction => exact h.of_parent nofun nofun nofun
  | wake hd hpc =>
      have hsent : w.sent = true := by
        simp only [World.deliverable, Bool.and_eq_true] at hd
        exact h.pending hd.1.1
      exact h.of_parent (fun _ hls => by rw [hpc]; exact hls) nofun fun _ => hsent
  | drop hd hno => exact h.of_parent (fun _ hls => hls) nofun h.woken
  | kill hended => exact h.of_parent nofun id nofun

/-- A step of the child that prints nothing. -/
theorem Told.of_child (h : Told w) {pc pc' : ChildPc} (hc : w.child = some pc)
    (hlines : ∀ ls, pc'.lines = some ls → pc.lines = some ls) :
    Told { w with child := some pc' } where
  parent := h.parent
  child _ hpc' ls hls := h.child pc hc ls (hlines ls (Option.some.inj hpc' ▸ hls))
  noChild := nofun
  sent := h.sent
  pending := h.pending
  woken := h.woken
  got := h.got

/-- A line of the child comes before the signal. -/
theorem Told.print (h : Told w) (hsync : Sync w) {pc pc' : ChildPc} {line : Line}
    (hc : w.child = some pc) (hpast : pc.past = false) (hline : line.ofParent = false)
    (hlines : ∀ ls', pc'.lines = some ls' → ∃ ls, pc.lines = some ls ∧ ls' = ls ++ [line]) :
    Told { w with child := some pc', stdout := w.stdout ++ [line] } where
  parent := by simpa only [filter_ofParent_append line hline] using h.parent
  child _ hpc' ls' hls' := by
    obtain ⟨ls, hls, rfl⟩ := hlines ls' (Option.some.inj hpc' ▸ hls')
    rw [List.filter_append, h.child pc hc ls hls]
    simp [Line.ofChild, hline]
  noChild := nofun
  sent hsent := nomatch hpast.symm.trans (hsync.past pc hc hsent)
  pending := h.pending
  woken := h.woken
  got hmem := by
    rcases List.mem_append.mp hmem with hmem | hmem
    · exact nomatch hpast.symm.trans (hsync.past pc hc (h.got hmem).1)
    · obtain rfl := List.mem_singleton.mp hmem
      cases hline

theorem ChildMove.told {pc : ChildPc} {c : Call} (hmove : ChildMove w pc c v)
    (hc : w.child = some pc) (h : Told w) (hsync : Sync w) : Told v := by
  cases hmove with
  | started =>
      exact h.print hsync hc rfl rfl fun ls' hls' => ⟨[], rfl, (Option.some.inj hls').symm⟩
  | slept => exact h.of_child hc fun _ hls => hls
  | about =>
      exact h.print hsync hc rfl rfl fun ls' hls' =>
        ⟨[.childStarted], rfl, (Option.some.inj hls').symm⟩
  | sent =>
      have hlines := h.child _ hc _ rfl
      refine ⟨h.parent, ?_, nofun, fun _ => hlines, fun _ => rfl, fun _ => rfl,
        fun hmem => ⟨rfl, (h.got hmem).2⟩⟩
      rintro _ hpc' ls hls
      obtain rfl := Option.some.inj hpc'
      cases hls
  | exits => exact h.of_child hc nofun
  | fails => exact h.of_child hc nofun
  | killed pc hended => exact h.of_child hc nofun

theorem Move.told (hmove : Move w a v) (hsend : a ≠ .send) (h : Told w) (hsync : Sync w) :
    Told v := by
  cases hmove with
  | parent c v hmove => exact hmove.told h hsync
  | child c pc v hc hmove => exact hmove.told hc h hsync
  | send hended => exact absurd rfl hsend

theorem told_init (h : system.Init w) : Told w := by
  obtain ⟨blocked, action, -, rfl⟩ := h
  exact ⟨fun ls hls => Option.some.inj hls, nofun, fun _ => rfl, nofun, nofun, nofun, nofun⟩

def sampleStart : World :=
  ⟨⟨.sigprocmask, false, false, false, .default⟩, none, false, false, []⟩

/-- The child sends the signal before the parent waits for it. -/
def sampleRun : List Act :=
  [.parent .go, .parent .go, .parent .go, .child .go, .child .go, .child .go, .child .go,
    .parent .go, .parent .go, .parent .deliver, .parent .go, .parent .go, .child .go, .parent .go]

def sampleEnd : World :=
  ⟨⟨.exited, false, false, true, .handler⟩, some .exited, false, true,
    [.childStarted, .childAbout, .parentWaits, .parentGot]⟩

/-- A step that is no failed call and no signal from outside. -/
def Live : Act → Prop
  | .parent .go => True
  | .parent .deliver => True
  | .child .go => True
  | _ => False

theorem childStep_go_eq_none {pc : ChildPc} : childStep w pc .go = none ↔ pc.ended = true := by
  cases pc with
  | failed error => exact iff_of_true rfl rfl
  | exited => exact iff_of_true rfl rfl
  | killed => exact iff_of_true rfl rfl
  | _ => exact iff_of_false (Option.some_ne_none _) Bool.false_ne_true

theorem parentGo_eq_none :
    parentGo w = none ↔ w.parent.pc = .suspended ∨ w.parent.pc.ended = true := by
  unfold parentGo
  cases w.parent.pc with
  | suspended => exact iff_of_true rfl (Or.inl rfl)
  | failed error => exact iff_of_true rfl (Or.inr rfl)
  | exited => exact iff_of_true rfl (Or.inr rfl)
  | killed => exact iff_of_true rfl (Or.inr rfl)
  | _ => exact iff_of_false (Option.some_ne_none _) (by rintro (h | h) <;> cases h)

theorem child_stuck :
    (∀ pc, w.child = some pc → pc.ended = true) ↔ step w (.child .go) = none := by
  cases hc : w.child with
  | none => exact iff_of_true nofun (by rw [step, hc]; rfl)
  | some pc =>
      rw [step, hc, Option.bind_some, childStep_go_eq_none]
      exact ⟨fun h => h pc rfl, fun h pc' hpc' => Option.some.inj hpc' ▸ h⟩

/-- The parent cannot go on if it has ended or waits for a signal that is not there. -/
theorem parent_stuck : step w (.parent .go) = none ∧ step w (.parent .deliver) = none ↔
    w.deliverable = false ∧ (w.parent.pc = .suspended ∨ w.parent.pc.ended = true) := by
  rw [← parentGo_eq_none]
  simp only [step, parentStep]
  cases w.deliverable <;> simp

theorem Sync.stuck_iff (h : Sync w) (hs : SetUp w.parent) :
    system.Stuck Live w ↔ (∀ pc, w.child = some pc → pc.ended = true) ∧
      (w.parent.pc.ended = true ∨
        w.parent.pc = .suspended ∧ w.pending = false ∧ w.sent = false) := by
  have hall : system.Stuck Live w ↔ step w (.child .go) = none ∧
      step w (.parent .go) = none ∧ step w (.parent .deliver) = none := by
    constructor
    · intro hstuck
      exact ⟨hstuck (.child .go) trivial, hstuck (.parent .go) trivial,
        hstuck (.parent .deliver) trivial⟩
    · rintro ⟨hchild, hgo, hdeliver⟩ a ha
      match a, ha with
      | .parent .go, _ => exact hgo
      | .parent .deliver, _ => exact hdeliver
      | .child .go, _ => exact hchild
  rw [hall, parent_stuck, child_stuck]
  refine and_congr_right fun _ => ?_
  constructor
  · rintro ⟨hd, hpc | hended⟩
    · have hpending : w.pending = false := by
        simpa [World.deliverable, (hs.suspended hpc).1, hpc, ParentPc.ended] using hd
      refine Or.inr ⟨hpc, hpending, ?_⟩
      rw [← Bool.not_eq_true]
      intro hsent
      rcases h.wake hsent with hp | hwoken | hended
      · exact nomatch hpending.symm.trans hp
      · rw [hpc] at hwoken
        cases hwoken
      · rw [hpc] at hended
        cases hended
    · exact Or.inl hended
  · rintro (hended | ⟨hpc, hpending, -⟩)
    · exact ⟨by simp [World.deliverable, hended], Or.inr hended⟩
    · exact ⟨by simp [World.deliverable, hpending], Or.inl hpc⟩

def ParentPc.rank : ParentPc → ℕ
  | .sigprocmask => 15
  | .sigaction => 14
  | .fork => 13
  | .printWait => 6
  | .sigsuspend => 5
  | .suspended => 4
  | .printGot => 3
  | .restore => 2
  | .exit => 1
  | _ => 0

def ChildPc.rank : ChildPc → ℕ
  | .printStarted => 6
  | .sleep => 5
  | .printAbout => 4
  | .kill => 3
  | .exit => 1
  | _ => 0

/-- A bound on the steps that are left; a delivered signal is one step. -/
def World.variant (w : World) : ℕ :=
  w.parent.pc.rank + (w.child.map ChildPc.rank).getD 0 + w.pending.toNat

theorem ParentPc.rank_pos {pc : ParentPc} (h : pc.ended = false) : 0 < pc.rank := by
  cases pc <;> first | exact Nat.succ_pos _ | cases h

theorem ChildPc.rank_pos {pc : ChildPc} (h : pc.ended = false) : 0 < pc.rank := by
  cases pc <;> first | exact Nat.succ_pos _ | cases h

theorem Sync.variant_lt (h : Sync w) (hmove : Move w a v) (hsend : a ≠ .send) :
    v.variant < w.variant := by
  have hpending : ∀ w : World, w.deliverable = true → w.pending = true := by
    intro w hd
    simp only [World.deliverable, Bool.and_eq_true] at hd
    exact hd.1.1
  cases hmove with
  | parent c v hmove =>
      cases hmove with
      | fork hpc =>
          have hc := h.early (by rw [hpc]; rfl)
          simp [World.variant, World.goto, hpc, hc, ParentPc.rank, ChildPc.rank]
      | fail error hended =>
          have hrank := ParentPc.rank_pos hended
          have hzero : (ParentPc.failed error).rank = 0 := rfl
          simp only [World.variant, World.goto, hzero]
          omega
      | kill hended =>
          have hrank := ParentPc.rank_pos hended
          have hzero : ParentPc.killed.rank = 0 := rfl
          simp only [World.variant, World.goto, hzero]
          omega
      | default hd haction =>
          have hzero : ParentPc.killed.rank = 0 := rfl
          simp only [World.variant, World.goto, hzero, hpending w hd, Bool.toNat_false,
            Bool.toNat_true]
          omega
      | wake hd hpc =>
          simp only [World.variant, hpc, ParentPc.rank, hpending w hd, Bool.toNat_false,
            Bool.toNat_true]
          omega
      | drop hd hno => simp [World.variant, hpending w hd]
      | _ hpc => simp [World.variant, World.goto, hpc, ParentPc.rank]
  | child c pc v hc hmove =>
      cases hmove with
      | killed pc hended =>
          have hrank := ChildPc.rank_pos hended
          have hzero : ChildPc.killed.rank = 0 := rfl
          simp only [World.variant, hc, Option.map_some, Option.getD_some, hzero]
          omega
      | sent =>
          have hbit : (w.pending || !w.parent.pc.ended).toNat ≤ 1 := Bool.toNat_le _
          simp only [World.variant, childKill, hc, Option.map_some, Option.getD_some, ChildPc.rank]
          omega
      | _ => simp [World.variant, hc, ChildPc.rank]
  | send hended => exact absurd rfl hsend

/-! ## Runs in which nothing fails -/

/-- No process has failed or was killed. -/
def Clean (w : World) : Prop :=
  (w.parent.pc.ended = true → w.parent.pc = .exited) ∧
    ∀ pc, w.child = some pc → pc.ended = true → pc = .exited

theorem Clean.of_parent (h : Clean w) {p : Parent} {child : Option ChildPc} {pending : Bool}
    {stdout : List Line} (hp : p.pc.ended = true → p.pc = .exited)
    (hchild : child = w.child ∨ child = some .printStarted) :
    Clean { w with parent := p, child := child, pending := pending, stdout := stdout } := by
  refine ⟨hp, fun pc hc hended => ?_⟩
  rcases hchild with rfl | rfl
  · exact h.2 pc hc hended
  · obtain rfl := Option.some.inj hc
    cases hended

/-- The signal of the child finds the handler installed. -/
theorem Sync.not_default (h : Sync w) (hs : SetUp w.parent) (ht : Told w)
    (hd : w.deliverable = true) : w.parent.action ≠ .default := by
  have hended : w.parent.pc.ended = false := by
    simp only [World.deliverable, Bool.and_eq_true, Bool.not_eq_true'] at hd
    exact hd.2
  have hsent : w.sent = true := by
    simp only [World.deliverable, Bool.and_eq_true] at hd
    exact ht.pending hd.1.1
  have hcaught : w.parent.pc.caught = true := by
    rcases h.deliver_cases hs hd hsent with hpc | hwoken
    · rw [hpc]
      rfl
    · cases hpc : w.parent.pc with
      | exited => rw [hpc] at hended; cases hended
      | _ => first | rfl | (rw [hpc] at hwoken; cases hwoken)
  rw [hs.handler hcaught]
  exact nofun

theorem Clean.step (h : Clean w) (hs : SetUp w.parent) (hsync : Sync w) (ht : Told w)
    (hlive : Live a) (hmove : Move w a v) : Clean v := by
  cases hmove with
  | parent c v hmove =>
      cases hmove with
      | block hpc hd => exact h.of_parent nofun (Or.inl rfl)
      | install hpc => exact h.of_parent nofun (Or.inl rfl)
      | fork hpc => exact h.of_parent nofun (Or.inr rfl)
      | waits hpc => exact h.of_parent nofun (Or.inl rfl)
      | suspend hpc => exact h.of_parent nofun (Or.inl rfl)
      | got hpc => exact h.of_parent nofun (Or.inl rfl)
      | restore hpc => exact h.of_parent nofun (Or.inl rfl)
      | exit hpc => exact h.of_parent (fun _ => rfl) (Or.inl rfl)
      | fail error hended => exact False.elim hlive
      | default hd haction => exact absurd haction (hsync.not_default hs ht hd)
      | wake hd hpc => exact h.of_parent nofun (Or.inl rfl)
      | drop hd hno => exact h.of_parent h.1 (Or.inl rfl)
      | kill hended => exact False.elim hlive
  | child c pc v hc hmove =>
      cases hmove with
      | fails => exact False.elim hlive
      | killed pc hended => exact False.elim hlive
      | exits => exact ⟨h.1, fun pc hpc _ => (Option.some.inj hpc).symm⟩
      | _ =>
          refine ⟨h.1, fun pc hpc hended => ?_⟩
          obtain rfl := Option.some.inj hpc
          cases hended
  | send hended => exact False.elim hlive

theorem clean_run (h₀ : system.Init w₀) (hlive : ∀ a ∈ as, Live a)
    (hrun : system.run w₀ as = some w) : Told w ∧ Clean w := by
  have hinv := TransSys.run_preserves_of_meets (T := system)
    (P := fun w => (SetUp w.parent ∧ Sync w) ∧ Told w ∧ Clean w) (C := fun _ a => Live a)
    (fun _ b _ ⟨⟨hs, hsync⟩, ht, hc⟩ hb hstep =>
      have hmove := step_cases hstep
      have hsend : b ≠ .send := fun hsame => by rw [hsame] at hb; exact hb
      ⟨⟨hmove.setUp hs, hmove.sync hsync hs⟩, hmove.told hsend ht hsync,
        hc.step hs hsync ht hb hmove⟩)
    ⟨setUp_sync_init h₀, told_init h₀, ?_⟩
    (TransSys.Meets.of_labels (fun b hb _ => hlive b hb) w₀) hrun
  · exact hinv.2
  · obtain ⟨blocked, action, -, rfl⟩ := h₀
    exact ⟨nofun, nofun⟩

theorem live_run_length (h₀ : system.Init w₀) (hlive : ∀ a ∈ as, Live a)
    (hrun : system.run w₀ as = some w) : as.length ≤ 15 := by
  have hle := TransSys.run_length_le (T := system) (I := fun w => SetUp w.parent ∧ Sync w)
    (C := fun _ a => a ≠ Act.send) (m := World.variant)
    (fun _ _ _ ⟨hs, h⟩ hstep => ⟨(step_cases hstep).setUp hs, (step_cases hstep).sync h hs⟩)
    (fun _ _ _ ⟨_, h⟩ hsend hstep => h.variant_lt (step_cases hstep) hsend)
    (setUp_sync_init h₀)
    (TransSys.Meets.of_labels (fun a ha _ hsend => by rw [hsend] at ha; exact hlive _ ha) w₀) hrun
  have hstart : w₀.variant = 15 := by
    obtain ⟨blocked, action, -, rfl⟩ := h₀
    rfl
  omega

/-- **No wake-up is lost.** A run cannot go on when both processes have ended, or when the parent
waits and the child has ended without sending the signal; no order of the steps makes the parent
miss a signal that was sent. A run in which nothing fails and no signal comes from outside has 15
steps at most, and at its end both processes have exited and the parent has reported the signal. -/
theorem sync_signal_received (h₀ : system.Init w₀) (hrun : system.run w₀ as = some w) :
    (system.Stuck Live w ↔ (∀ pc, w.child = some pc → pc.ended = true) ∧
      (w.parent.pc.ended = true ∨
        w.parent.pc = .suspended ∧ w.pending = false ∧ w.sent = false)) ∧
      ((∀ a ∈ as, Live a) → as.length ≤ 15 ∧ (system.Stuck Live w →
        w.parent.pc = .exited ∧ w.child = some .exited ∧ .parentGot ∈ w.stdout)) := by
  obtain ⟨hs, hsync⟩ := setUp_sync h₀ hrun
  have hiff := hsync.stuck_iff hs
  refine ⟨hiff, fun hlive => ⟨?_, fun hstuck => ?_⟩⟩
  · exact live_run_length h₀ hlive hrun
  · obtain ⟨ht, hclean⟩ := clean_run h₀ hlive hrun
    obtain ⟨hchild, hparent⟩ := hiff.mp hstuck
    have hexited : w.parent.pc = .exited := by
      rcases hparent with hended | ⟨hpc, -, hsent⟩
      · exact hclean.1 hended
      · -- a child that has exited has sent the signal
        have hne := hsync.child_ne_none (by rw [hpc]; rfl) (by rw [hpc]; rfl)
        obtain ⟨pc, hc⟩ := Option.ne_none_iff_exists'.mp hne
        have hexit := hclean.2 pc hc (hchild pc hc)
        exact nomatch hsent.symm.trans (hsync.sends pc hc (Or.inr hexit))
    have hwoken : w.parent.pc.woken = true := by rw [hexited]; rfl
    have hne : w.child ≠ none := fun hc => nomatch hwoken.symm.trans (hsync.late hc).2.2
    obtain ⟨pc, hc⟩ := Option.ne_none_iff_exists'.mp hne
    refine ⟨hexited, by rw [hc, hclean.2 pc hc (hchild pc hc)], ?_⟩
    have hlines := ht.parent [.parentWaits, .parentGot] (by rw [hexited]; rfl)
    have hmem : .parentGot ∈ w.stdout.filter Line.ofParent := by rw [hlines]; simp
    exact (List.mem_filter.mp hmem).1

theorem sync_signal_received_sampleRun :
    sampleRun.length ≤ 15 ∧ (system.Stuck Live sampleEnd →
      sampleEnd.parent.pc = .exited ∧ sampleEnd.child = some .exited ∧
        .parentGot ∈ sampleEnd.stdout) := by
  have h₀ : system.Init sampleStart := ⟨false, .default, nofun, rfl⟩
  have hrun : system.run sampleStart sampleRun = some sampleEnd := rfl
  refine (sync_signal_received h₀ hrun).2 ?_
  intro a ha
  fin_cases ha <;> trivial

end Tlpi.ForkSigSync
