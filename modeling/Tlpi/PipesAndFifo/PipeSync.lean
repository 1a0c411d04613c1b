import Tlpi.Lib.Fork
import Tlpi.Posix.Base

set_option autoImplicit false

/-! # A barrier made of a pipe (pipes_and_fifo/pipe_sync.c)

The program makes a pipe and a child for each of its arguments. A child closes its write end when it
has done its work; the parent closes its own and waits for end of file, which it sees once no
process has a write end any more. Nobody writes to the pipe.

The branch for a failed `fork` has no `break`, so that the parent then goes on in the branch of the
child, with the argument it could make no child for.
-/

namespace Tlpi.PipeSync

/-- Where a process is. An ended one is known by the branch it ended in and by its exit status,
which there is none of if it was killed. -/
inductive Pc where
  | start
  | pipe
  | forTest
  | fork
  | childCloseRead
  | childWork
  | childCloseWrite
  | childExit
  | parentCloseWrite
  | parentRead
  | parentPrint
  | exited (inChild : Bool) (status : Option ℕ)
deriving DecidableEq, Repr

/-- The branch `case 0` of the `switch`. -/
def Pc.inChild : Pc → Bool
  | .childCloseRead => true
  | .childWork => true
  | .childCloseWrite => true
  | .childExit => true
  | .exited inChild _ => inChild
  | _ => false

def Pc.status : Pc → Option ℕ
  | .exited _ status => status
  | _ => none

/-- The lines a process prints; the times in them are left out. -/
inductive Line where
  | started
  | closing (j : ℕ)
  | readyToGo
deriving DecidableEq, Repr

/-- A process: its variable `j`, whether it has the ends of the pipe open, and what it printed. -/
structure Proc where
  pc : Pc
  j : ℕ
  filedes0 : Bool
  filedes1 : Bool
  printed : List Line
deriving DecidableEq, Repr

/-- What a process does: a step of its own, a system call that returns what it should or fails, or
its end by a signal. -/
inductive Call where
  | go
  | call (ok : Bool)
  | kill
deriving DecidableEq, Repr

/-- The end of a process closes what it had open. -/
def Proc.exit (x : Proc) (status : Option ℕ) : Proc :=
  { x with pc := .exited x.pc.inChild status, filedes0 := false, filedes1 := false }

def Proc.go (argv : List (List UInt8)) (x : Proc) : Option Proc :=
  match x.pc with
  | .start =>
      if argv = [] ∨ argv.head? = some (str "--help") then some (x.exit (some 1))
      else some { x with pc := .pipe, printed := x.printed ++ [.started] }
  | .forTest =>
      some { x with pc := if x.j < argv.length + 1 then .fork else .parentCloseWrite }
  | .childWork => some { x with pc := .childCloseWrite, printed := x.printed ++ [.closing x.j] }
  | .childExit => some (x.exit (some 0))
  | .parentPrint => some { x.exit (some 0) with printed := x.printed ++ [.readyToGo] }
  | _ => none

/-- A system call; `ps` are all processes. -/
def Proc.call (ps : List Proc) (x : Proc) (ok : Bool) : Option Proc :=
  match x.pc with
  | .pipe =>
      some (if ok then { x with pc := .forTest, j := 1, filedes0 := true, filedes1 := true }
        else x.exit (some 1))
  | .childCloseRead =>
      some (if ok then { x with pc := .childWork, filedes0 := false } else x.exit (some 1))
  | .childCloseWrite =>
      some (if ok then { x with pc := .childExit, filedes1 := false } else x.exit (some 1))
  | .parentCloseWrite =>
      some (if ok then { x with pc := .parentRead, filedes1 := false } else x.exit (some 1))
  | .parentRead =>
      if ok then
        -- end of file; with a write end open somewhere, the `read` goes on waiting
        if ps.all fun y => !y.filedes1 then some { x with pc := .parentPrint } else none
      else some (x.exit (some 1))
  | _ => none

def Proc.next (argv : List (List UInt8)) (ps : List Proc) (x : Proc) : Call → Option Proc
  | .go => x.go argv
  | .call ok => x.call ps ok
  | .kill =>
      match x.pc with
      | .exited _ _ => none
      | _ => some (x.exit none)

/-- `switch (fork())`: the branch for -1 leads into the one for 0. -/
def Proc.fork (x : Proc) : Option (Fork Proc) :=
  match x.pc with
  | .fork => some
      { child := { x with pc := .childCloseRead, printed := [] }
        parent := { x with pc := .forTest, j := x.j + 1 }
        failed := { x with pc := .childCloseRead } }
  | _ => none

/-- The program with the arguments `argv`. -/
def program : ForkProg (List (List UInt8)) Proc Call where
  Start _ x := x = ⟨.start, 0, false, false, []⟩
  exec argv ps x a := (x.next argv ps a).map fun y => (argv, y)
  fork := Proc.fork

/-! ## What a step does to a process -/

variable {argv : List (List UInt8)} {ps : List Proc} {x y : Proc} {a : Call}

theorem exec_next {g : List (List UInt8)} (h : program.exec argv ps x a = some (g, y)) :
    g = argv ∧ x.next argv ps a = some y := by
  obtain ⟨z, hz, hg⟩ := Option.map_eq_some_iff.mp h
  obtain ⟨rfl, rfl⟩ := Prod.mk.inj hg
  exact ⟨rfl, hz⟩

theorem fork_cases {f : Fork Proc} (h : x.fork = some f) :
    x.pc = .fork ∧ f.child = { x with pc := .childCloseRead, printed := [] } ∧
      f.parent = { x with pc := .forTest, j := x.j + 1 } ∧
      f.failed = { x with pc := .childCloseRead } := by
  unfold Proc.fork at h
  split at h
  next hpc =>
    obtain rfl := Option.some.inj h
    exact ⟨hpc, rfl, rfl, rfl⟩
  next => cases h

/-- The steps of a process, as `Proc.next` makes them. -/
inductive Moves (argv : List (List UInt8)) (ps : List Proc) (x : Proc) : Proc → Prop where
  | exits (status : Option ℕ) (hpc : ∀ b st, x.pc ≠ .exited b st) : Moves argv ps x (x.exit status)
  | starts (hpc : x.pc = .start) :
      Moves argv ps x { x with pc := .pipe, printed := x.printed ++ [.started] }
  | pipes (hpc : x.pc = .pipe) :
      Moves argv ps x { x with pc := .forTest, j := 1, filedes0 := true, filedes1 := true }
  | forks (hpc : x.pc = .forTest) (hj : x.j < argv.length + 1) :
      Moves argv ps x { x with pc := .fork }
  | leaves (hpc : x.pc = .forTest) (hj : ¬ x.j < argv.length + 1) :
      Moves argv ps x { x with pc := .parentCloseWrite }
  | closesRead (hpc : x.pc = .childCloseRead) :
      Moves argv ps x { x with pc := .childWork, filedes0 := false }
  | works (hpc : x.pc = .childWork) :
      Moves argv ps x { x with pc := .childCloseWrite, printed := x.printed ++ [.closing x.j] }
  | closesWrite (hpc : x.pc = .childCloseWrite) :
      Moves argv ps x { x with pc := .childExit, filedes1 := false }
  | closesOwn (hpc : x.pc = .parentCloseWrite) :
      Moves argv ps x { x with pc := .parentRead, filedes1 := false }
  | seesEof (hpc : x.pc = .parentRead) (heof : ∀ z ∈ ps, z.filedes1 = false) :
      Moves argv ps x { x with pc := .parentPrint }
  | prints (hpc : x.pc = .parentPrint) :
      Moves argv ps x { x.exit (some 0) with printed := x.printed ++ [.readyToGo] }

theorem go_moves (h : x.go argv = some y) : Moves argv ps x y := by
  unfold Proc.go at h
  split at h
  next hpc =>
    split at h
    · obtain rfl := Option.some.inj h
      exact .exits _ (by simp [hpc])
    · obtain rfl := Option.some.inj h
      exact .starts hpc
  next hpc =>
    obtain rfl := Option.some.inj h
    by_cases hj : x.j < argv.length + 1
    · rw [if_pos hj]
      exact .forks hpc hj
    · rw [if_neg hj]
      exact .leaves hpc hj
  next hpc =>
    obtain rfl := Option.some.inj h
    exact .works hpc
  next hpc =>
    obtain rfl := Option.some.inj h
    exact .exits _ (by simp [hpc])
  next hpc =>
    obtain rfl := Option.some.inj h
    exact .prints hpc
  next => cases h

theorem call_moves {ok : Bool} (h : x.call ps ok = some y) : Moves argv ps x y := by
  cases ok with
  | false =>
      -- every failed call ends the process
      unfold Proc.call at h
      split at h
      case h_6 => cases h
      all_goals
        rename_i hpc
        obtain rfl := Option.some.inj h
        exact .exits (some 1) (by simp [hpc])
  | true =>
      unfold Proc.call at h
      split at h
      next hpc => obtain rfl := Option.some.inj h; exact .pipes hpc
      next hpc => obtain rfl := Option.some.inj h; exact .closesRead hpc
      next hpc => obtain rfl := Option.some.inj h; exact .closesWrite hpc
      next hpc => obtain rfl := Option.some.inj h; exact .closesOwn hpc
      next hpc =>
        simp only [if_true] at h
        split at h
        · rename_i heof
          obtain rfl := Option.some.inj h
          exact .seesEof hpc (by simpa using heof)
        · cases h
      next => cases h

theorem next_moves (h : x.next argv ps a = some y) : Moves argv ps x y := by
  cases a with
  | go => exact go_moves h
  | call ok => exact call_moves h
  | kill =>
      simp only [Proc.next] at h
      split at h
      · cases h
      · rename_i hpc
        obtain rfl := Option.some.inj h
        exact .exits none hpc

/-! ## The barrier -/

/-- Here a child has not closed its write end. -/
def Pc.working : Pc → Bool
  | .childCloseRead => true
  | .childWork => true
  | .childCloseWrite => true
  | _ => false

/-- The `k`-th process, if it is not the original one: it was made for the `k`-th argument. -/
structure IsChild (k : ℕ) (x : Proc) : Prop where
  inChild : x.pc.inChild = true
  j : x.j = k
  silent : .readyToGo ∉ x.printed
  working : x.pc.working = true → x.filedes1 = true

/-- Everyone has closed the write end. -/
def AllClosed (ps : List Proc) : Prop := ∀ z ∈ ps, z.filedes1 = false

/-- What the place of the original process says about the others. -/
def Place (argv : List (List UInt8)) (ps : List Proc) (x : Proc) : Prop :=
  match x.pc with
  | .start => ps.length = 1
  | .pipe => ps.length = 1
  | .forTest => ps.length = x.j ∧ x.j ≤ argv.length + 1 ∧ x.filedes1 = true
  | .fork => ps.length = x.j ∧ x.j < argv.length + 1 ∧ x.filedes1 = true
  | .parentCloseWrite => ps.length = argv.length + 1
  | .parentRead => ps.length = argv.length + 1
  | .parentPrint => ps.length = argv.length + 1 ∧ AllClosed ps
  | _ => True

structure Inv (w : ForkWorld (List (List UInt8)) Proc) : Prop where
  nonempty : 0 < w.procs.length
  child : ∀ (k : ℕ) (x : Proc), w.procs[k]? = some x → k ≠ 0 → IsChild k x
  place : ∀ x, w.procs[0]? = some x → Place w.shared w.procs x
  ready : ∀ x, w.procs[0]? = some x → .readyToGo ∈ x.printed →
    (∃ b st, x.pc = .exited b st) ∧ w.procs.length = w.shared.length + 1 ∧ AllClosed w.procs

/-- A child closes its write end and never opens it again. -/
theorem Moves.isChild {k : ℕ} (h : IsChild k x) (hm : Moves argv ps x y) :
    IsChild k y ∧ (x.filedes1 = false → y.filedes1 = false) := by
  have hin := h.inChild
  cases hm with
  | exits status hpc => exact ⟨⟨hin, h.j, h.silent, (fun hw => nomatch hw)⟩, fun _ => rfl⟩
  | closesRead hpc =>
      have hw : x.filedes1 = true := h.working (by rw [hpc]; rfl)
      exact ⟨⟨rfl, h.j, h.silent, fun _ => hw⟩, id⟩
  | works hpc =>
      have hw : x.filedes1 = true := h.working (by rw [hpc]; rfl)
      exact ⟨⟨rfl, h.j, by simpa using h.silent, fun _ => hw⟩, id⟩
  | closesWrite hpc => exact ⟨⟨rfl, h.j, h.silent, (fun hw => nomatch hw)⟩, fun _ => rfl⟩
  | starts hpc => rw [hpc] at hin; cases hin
  | pipes hpc => rw [hpc] at hin; cases hin
  | forks hpc hj => rw [hpc] at hin; cases hin
  | leaves hpc hj => rw [hpc] at hin; cases hin
  | closesOwn hpc => rw [hpc] at hin; cases hin
  | seesEof hpc heof => rw [hpc] at hin; cases hin
  | prints hpc => rw [hpc] at hin; cases hin

theorem AllClosed.set (h : AllClosed ps) {p : ℕ} (hx : ps[p]? = some x)
    (hy : x.filedes1 = false → y.filedes1 = false) : AllClosed (ps.set p y) := by
  intro z hz
  rcases List.mem_or_eq_of_mem_set hz with hz | rfl
  · exact h z hz
  · exact hy (h x (List.mem_of_getElem? hx))

/-- The place of the original process after a step of another one. -/
theorem Place.others (h : Place argv ps x) {p : ℕ} {z z' : Proc} (hz : ps[p]? = some z)
    (hz' : z.filedes1 = false → z'.filedes1 = false) : Place argv (ps.set p z') x := by
  unfold Place at h ⊢
  simp only [List.length_set]
  split at h
  case h_7 => exact ⟨h.1, h.2.set hz hz'⟩
  all_goals exact h

/-- The place of the original process after a step of its own. -/
theorem Place.moves (h : Place argv ps x) (hlen : ps[0]? = some x) (hm : Moves argv ps x y) :
    Place argv (ps.set 0 y) y := by
  unfold Place at h
  cases hm with
  | exits status hpc => trivial
  | starts hpc => rw [hpc] at h; simpa [Place] using h
  | pipes hpc => rw [hpc] at h; simpa [Place] using h
  | forks hpc hj =>
      rw [hpc] at h
      exact ⟨by simpa using h.1, hj, h.2.2⟩
  | leaves hpc hj =>
      rw [hpc] at h
      simp only [Place, List.length_set]
      omega
  | closesRead hpc => trivial
  | works hpc => trivial
  | closesWrite hpc => trivial
  | closesOwn hpc => rw [hpc] at h; simpa [Place] using h
  | seesEof hpc heof =>
      rw [hpc] at h
      have hclosed : AllClosed ps := heof
      exact ⟨by simpa using h, hclosed.set hlen id⟩
  | prints hpc => trivial

theorem Moves.live (hm : Moves argv ps x y) : ∀ b st, x.pc ≠ .exited b st := by
  cases hm with
  | exits status hpc => exact hpc
  | starts hpc => simp [hpc]
  | pipes hpc => simp [hpc]
  | forks hpc hj => simp [hpc]
  | leaves hpc hj => simp [hpc]
  | closesRead hpc => simp [hpc]
  | works hpc => simp [hpc]
  | closesWrite hpc => simp [hpc]
  | closesOwn hpc => simp [hpc]
  | seesEof hpc heof => simp [hpc]
  | prints hpc => simp [hpc]

/-- 'ready to go' is printed in one place. -/
theorem Moves.ready (hm : Moves argv ps x y) (hy : .readyToGo ∈ y.printed) :
    .readyToGo ∈ x.printed ∨
      x.pc = .parentPrint ∧ (∃ b st, y.pc = .exited b st) ∧ y.filedes1 = false := by
  cases hm with
  | starts hpc => exact Or.inl (by simpa using hy)
  | works hpc => exact Or.inl (by simpa using hy)
  | prints hpc => exact Or.inr ⟨hpc, ⟨_, _, rfl⟩, rfl⟩
  | exits status hpc => exact Or.inl hy
  | pipes hpc => exact Or.inl hy
  | forks hpc hj => exact Or.inl hy
  | leaves hpc hj => exact Or.inl hy
  | closesRead hpc => exact Or.inl hy
  | closesWrite hpc => exact Or.inl hy
  | closesOwn hpc => exact Or.inl hy
  | seesEof hpc heof => exact Or.inl hy

variable {w v : ForkWorld (List (List UInt8)) Proc}

theorem inv_init (h : program.system.Init w) : Inv w := by
  obtain ⟨x, hx, hprocs, -⟩ := h
  obtain rfl : x = ⟨.start, 0, false, false, []⟩ := hx
  refine ⟨by simp [hprocs], fun k y hk hne => ?_, fun y hy => ?_, fun y hy hready => ?_⟩
  · rw [hprocs] at hk
    obtain ⟨hlt, -⟩ := List.getElem?_eq_some_iff.mp hk
    simp only [List.length_singleton] at hlt
    omega
  · rw [hprocs] at hy ⊢
    obtain rfl := Option.some.inj hy
    rfl
  · rw [hprocs] at hy
    obtain rfl := Option.some.inj hy
    cases hready

/-- A step of the original process. -/
theorem Inv.moves (h : Inv w) (hx : w.procs[0]? = some x) (hm : Moves w.shared w.procs x y) :
    Inv { w with procs := w.procs.set 0 y } := by
  refine ⟨by simpa using h.nonempty, fun k z hk hne => ?_, fun z hz => ?_, fun z hz hready => ?_⟩
  · rcases ForkProg.getElem?_set_cases hk with ⟨rfl, -⟩ | ⟨-, hk⟩
    · exact absurd rfl hne
    · exact h.child k z hk hne
  · rcases ForkProg.getElem?_set_cases hz with ⟨-, rfl⟩ | ⟨hne, -⟩
    · exact (h.place x hx).moves hx hm
    · exact absurd rfl hne
  · rcases ForkProg.getElem?_set_cases hz with ⟨-, rfl⟩ | ⟨hne, -⟩
    · rcases hm.ready hready with hold | ⟨hpc, hexited, hclosed⟩
      · -- after that line the process has ended
        obtain ⟨⟨b, st, hpc⟩, -⟩ := h.ready x hx hold
        exact absurd hpc (hm.live b st)
      · have hplace := h.place x hx
        unfold Place at hplace
        rw [hpc] at hplace
        exact ⟨hexited, by simpa using hplace.1, hplace.2.set hx fun _ => hclosed⟩
    · exact absurd rfl hne

/-- A step of a child. -/
theorem Inv.childMoves (h : Inv w) {p : ℕ} (hp : p ≠ 0) (hx : w.procs[p]? = some x)
    (hm : Moves w.shared w.procs x y) : Inv { w with procs := w.procs.set p y } := by
  obtain ⟨hchild, hcloses⟩ := hm.isChild (h.child p x hx hp)
  refine ⟨by simpa using h.nonempty, fun k z hk hne => ?_, fun z hz => ?_, fun z hz hready => ?_⟩
  · rcases ForkProg.getElem?_set_cases hk with ⟨rfl, rfl⟩ | ⟨-, hk⟩
    · exact hchild
    · exact h.child k z hk hne
  · rcases ForkProg.getElem?_set_cases hz with ⟨h0, -⟩ | ⟨-, hz⟩
    · exact absurd h0.symm hp
    · exact (h.place z hz).others hx hcloses
  · rcases ForkProg.getElem?_set_cases hz with ⟨h0, -⟩ | ⟨-, hz⟩
    · exact absurd h0.symm hp
    · obtain ⟨hexited, hlen, hclosed⟩ := h.ready z hz hready
      exact ⟨hexited, by simpa using hlen, hclosed.set hx hcloses⟩

/-- Only the original process forks. -/
theorem Inv.forks_zero (h : Inv w) {p : ℕ} (hx : w.procs[p]? = some x) (hpc : x.pc = .fork) :
    p = 0 := by
  by_contra hne
  have hin := (h.child p x hx hne).inChild
  rw [hpc] at hin
  cases hin

/-- The original process has not printed the line when it forks. -/
theorem Inv.silent (h : Inv w) (hx : w.procs[0]? = some x) (hpc : x.pc = .fork) :
    .readyToGo ∉ x.printed := by
  intro hready
  obtain ⟨⟨b, st, hexited⟩, -⟩ := h.ready x hx hready
  rw [hpc] at hexited
  cases hexited

theorem Inv.step {a : ForkAct Call} (h : Inv w) (hstep : program.Step w a v) : Inv v := by
  cases hstep with
  | exec p a x y g hx hexec =>
      obtain ⟨rfl, hnext⟩ := exec_next hexec
      have hm := next_moves hnext
      by_cases hp : p = 0
      · subst hp
        exact h.moves hx hm
      · exact h.childMoves hp hx hm
  | forks p x f hx hf =>
      obtain ⟨hpc, hchild, hparent, -⟩ := fork_cases hf
      obtain rfl := h.forks_zero hx hpc
      have hplace := h.place x hx
      unfold Place at hplace
      rw [hpc] at hplace
      have hsilent := h.silent hx hpc
      rw [hchild, hparent]
      refine ⟨by simp, fun k z hk hne => ?_, fun z hz => ?_, fun z hz hready => ?_⟩
      · rcases ForkProg.getElem?_fork_cases hk with ⟨rfl, -⟩ | ⟨rfl, rfl⟩ | ⟨-, -, hk⟩
        · exact absurd rfl hne
        · exact ⟨rfl, hplace.1.symm, by simp, fun _ => hplace.2.2⟩
        · exact h.child k z hk hne
      · rcases ForkProg.getElem?_fork_cases hz with ⟨-, rfl⟩ | ⟨h0, -⟩ | ⟨hne, -⟩
        · refine ⟨?_, hplace.2.1, hplace.2.2⟩
          rw [List.length_append, List.length_set, hplace.1]
          rfl
        · exact absurd h0 (Nat.ne_of_lt h.nonempty)
        · exact absurd rfl hne
      · rcases ForkProg.getElem?_fork_cases hz with ⟨-, rfl⟩ | ⟨h0, -⟩ | ⟨hne, -⟩
        · exact absurd hready hsilent
        · exact absurd h0 (Nat.ne_of_lt h.nonempty)
        · exact absurd rfl hne
  | fails p x f hx hf =>
      obtain ⟨hpc, -, -, hfailed⟩ := fork_cases hf
      obtain rfl := h.forks_zero hx hpc
      have hsilent := h.silent hx hpc
      rw [hfailed]
      refine ⟨by simpa using h.nonempty, fun k z hk hne => ?_, fun z hz => ?_,
        fun z hz hready => ?_⟩
      · rcases ForkProg.getElem?_set_cases hk with ⟨rfl, -⟩ | ⟨-, hk⟩
        · exact absurd rfl hne
        · exact h.child k z hk hne
      · rcases ForkProg.getElem?_set_cases hz with ⟨-, rfl⟩ | ⟨hne, -⟩
        · trivial
        · exact absurd rfl hne
      · rcases ForkProg.getElem?_set_cases hz with ⟨-, rfl⟩ | ⟨hne, -⟩
        · exact absurd hready hsilent
        · exact absurd rfl hne

/-- **pipe_sync is a barrier.** When the original process has printed 'ready to go', there is a
child for every argument, and each of them has closed its write end: it is past its work or has
ended. -/
theorem ready_to_go_after_children (h : program.system.Reachable w) {x : Proc}
    (hx : w.procs[0]? = some x) (hready : .readyToGo ∈ x.printed) :
    w.procs.length = w.shared.length + 1 ∧
      ∀ (k : ℕ) (c : Proc), w.procs[k]? = some c → k ≠ 0 →
        c.j = k ∧ c.filedes1 = false ∧ (c.pc = .childExit ∨ ∃ b st, c.pc = .exited b st) := by
  have hinv : Inv w := h.invariant (P := Inv) (fun w hw => inv_init hw)
    (fun w a v hw hnext => hw.step (ForkProg.next_cases hnext))
  obtain ⟨-, hlen, hclosed⟩ := hinv.ready x hx hready
  refine ⟨hlen, fun k c hk hne => ?_⟩
  have hchild := hinv.child k c hk hne
  have hend : c.filedes1 = false := hclosed c (List.mem_of_getElem? hk)
  refine ⟨hchild.j, hend, ?_⟩
  have hin := hchild.inChild
  cases hpc : c.pc with
  | childExit => exact Or.inl rfl
  | exited b st => exact Or.inr ⟨b, st, rfl⟩
  | childCloseRead => exact nomatch hend.symm.trans (hchild.working (by rw [hpc]; rfl))
  | childWork => exact nomatch hend.symm.trans (hchild.working (by rw [hpc]; rfl))
  | childCloseWrite => exact nomatch hend.symm.trans (hchild.working (by rw [hpc]; rfl))
  | start => rw [hpc] at hin; cases hin
  | pipe => rw [hpc] at hin; cases hin
  | forTest => rw [hpc] at hin; cases hin
  | fork => rw [hpc] at hin; cases hin
  | parentCloseWrite => rw [hpc] at hin; cases hin
  | parentRead => rw [hpc] at hin; cases hin
  | parentPrint => rw [hpc] at hin; cases hin

/-- The program with the arguments "0" and "0". -/
def twoArguments : ForkWorld (List (List UInt8)) Proc :=
  ⟨[str "0", str "0"], [⟨.start, 0, false, false, []⟩], []⟩

/-- The first child is killed; the second one comes to its end. -/
def twoChildren : List (ForkAct Call) :=
  [.exec 0 .go, .exec 0 (.call true), .exec 0 .go, .fork 0 true, .exec 1 (.call true), .exec 0 .go,
    .fork 0 true, .exec 1 .kill, .exec 0 .go, .exec 0 (.call true), .exec 2 (.call true),
    .exec 2 .go, .exec 2 (.call true), .exec 0 (.call true), .exec 2 .go, .exec 0 .go]

theorem twoChildren_ready :
    ∃ w x, program.system.run twoArguments twoChildren = some w ∧ w.procs[0]? = some x ∧
      .readyToGo ∈ x.printed ∧ w.procs.length = w.shared.length + 1 := by
  have hrun : program.system.run twoArguments twoChildren = some _ :=
    (Option.some_get (by decide)).symm
  refine ⟨_, ⟨.exited false (some 0), 3, false, false, [.started, .readyToGo]⟩, hrun, by decide,
    by decide, ?_⟩
  exact (ready_to_go_after_children ⟨twoArguments, twoChildren, ⟨_, rfl, rfl, rfl⟩, hrun⟩
    (x := ⟨.exited false (some 0), 3, false, false, [.started, .readyToGo]⟩) (by decide)
    (by decide)).1

/-! ## The branch of the child -/

theorem fallsThrough : program.FallsThrough fun x => x.pc.inChild where
  start _ x hx := by
    obtain rfl : x = ⟨.start, 0, false, false, []⟩ := hx
    rfl
  exec argv ps x a g y h := by
    obtain ⟨-, hnext⟩ := exec_next h
    cases next_moves hnext with
    | exits status hpc => rfl
    | prints hpc => rfl
    | starts hpc => simp [hpc, Pc.inChild]
    | pipes hpc => simp [hpc, Pc.inChild]
    | forks hpc hj => simp [hpc, Pc.inChild]
    | leaves hpc hj => simp [hpc, Pc.inChild]
    | closesRead hpc => simp [hpc, Pc.inChild]
    | works hpc => simp [hpc, Pc.inChild]
    | closesWrite hpc => simp [hpc, Pc.inChild]
    | closesOwn hpc => simp [hpc, Pc.inChild]
    | seesEof hpc heof => simp [hpc, Pc.inChild]
  outside x f hf := by simp [(fork_cases hf).1, Pc.inChild]
  child x f hf := by simp [(fork_cases hf).2.1, Pc.inChild]
  parent x f hf := by simp [(fork_cases hf).2.2.1, Pc.inChild]
  failed x f hf := by simp [(fork_cases hf).2.2.2, Pc.inChild]

end Tlpi.PipeSync
