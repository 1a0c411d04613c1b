import Tlpi.Lib.Fork
import Tlpi.Posix.Base

set_option autoImplicit false

/-! # Waiting for many children (procexec/multi_wait.c)

`multi_wait` creates one child for each of its arguments and then calls `wait` until no child is
left. The children sleep and exit in any order, and a child may end before the next one is created.

The child made for `argv[j]` is process `j`. Output is not buffered (`setbuf`), and one call of
`printf` writes its line at once. A process keeps its children, and an ignored SIGCHLD, when it
executes another program, so `multi_wait` can start with both.
-/

namespace Tlpi.MultiWait

/-- A place in the parent (`forking` and `waiting` are its two loops, with `j` and `numDead`) or in
a child, or the end of the process. -/
inductive Pc where
  | start
  | forking (j : ℕ)
  | waiting (numDead : ℕ)
  | exited (status : ℕ)
  | child (j : ℕ)
  | sleeping (j : ℕ)
  | childExited
  | killed
deriving DecidableEq, Repr

/-- The lines on the standard output; `time` is the value of `currTime`. A report is about one of
the children made here, or about one from before. -/
inductive Line where
  | started (time : List UInt8) (j : ℕ)
  | returned (time : List UInt8) (child numDead : ℕ)
  | returnedOlder (time : List UInt8) (numDead : ℕ)
  | bye
deriving DecidableEq, Repr

/-- Whether SIGCHLD is ignored, the number of children from before that have not been waited for,
the children whose end `wait` has reported, and the output. -/
structure Shared where
  ignored : Bool
  older : ℕ
  reaped : List ℕ
  out : List Line
deriving DecidableEq, Repr

inductive Call where
  | go (time : List UInt8)
  | reap (child : ℕ) (time : List UInt8)
  | reapOlder (time : List UInt8)
  | fail
  | kill
deriving DecidableEq, Repr

def Pc.ended : Pc → Bool
  | .exited _ => true
  | .childExited => true
  | .killed => true
  | _ => false

variable (argv : List (List UInt8))

def usage : Bool := decide (argv.length < 2 ∨ argv[1]? = some (str "--help"))

/-- No child is left to wait for: all were reported or, if SIGCHLD is ignored, all have ended, which
leaves nothing to report. -/
def NoChild (g : Shared) (ps : List Pc) : Prop :=
  g.older = 0 ∧
    if g.ignored then ∀ x ∈ ps.tail, x.ended = true else g.reaped.length + 1 = ps.length

instance (g : Shared) (ps : List Pc) : Decidable (NoChild g ps) := by
  unfold NoChild
  infer_instance

/-- A step other than a `fork` or the report of a child. With no child left `wait` fails with
`ECHILD`; else it blocks. -/
def go (g : Shared) (ps : List Pc) (time : List UInt8) : Pc → Option (Shared × Pc)
  | .start => some (g, if usage argv then .exited EXIT_FAILURE else .forking 1)
  | .forking j => if j < argv.length then none else some (g, .waiting 0)
  | .waiting _ =>
      if NoChild g ps then
        some ({ g with out := g.out ++ [.bye] }, .exited EXIT_SUCCESS)
      else none
  | .child j => some ({ g with out := g.out ++ [.started time j] }, .sleeping j)
  | .sleeping _ => some (g, .childExited)
  | _ => none

/-- `wait` returns the process ID of a child that has ended and was not reported before. -/
def reap (g : Shared) (ps : List Pc) (c : ℕ) (time : List UInt8) : Pc → Option (Shared × Pc)
  | .waiting numDead =>
      if g.ignored = false ∧ c ≠ 0 ∧ c ∉ g.reaped ∧ (ps[c]?).map Pc.ended = some true then
        some ({ g with
            reaped := g.reaped ++ [c]
            out := g.out ++ [.returned time c (numDead + 1)] }, .waiting (numDead + 1))
      else none
  | _ => none

/-- A child from before ends while `wait` waits. -/
def reapOlder (g : Shared) (time : List UInt8) : Pc → Option (Shared × Pc)
  | .waiting numDead =>
      if 0 < g.older then
        if g.ignored then some ({ g with older := g.older - 1 }, .waiting numDead)
        else
          some ({ g with
              older := g.older - 1
              out := g.out ++ [.returnedOlder time (numDead + 1)] }, .waiting (numDead + 1))
      else none
  | _ => none

def exec (g : Shared) (ps : List Pc) (x : Pc) : Call → Option (Shared × Pc)
  | .go time => go argv g ps time x
  | .reap c time => reap g ps c time x
  | .reapOlder time => reapOlder g time x
  -- `wait` fails for another reason than `ECHILD`
  | .fail =>
      match x with
      | .waiting _ => some (g, .exited EXIT_FAILURE)
      | _ => none
  | .kill => if x.ended then none else some (g, .killed)

def fork : Pc → Option (Fork Pc)
  | .forking j =>
      if j < argv.length then
        some { child := .child j, parent := .forking (j + 1), failed := .exited EXIT_FAILURE }
      else none
  | _ => none

def multiWait : ForkProg Shared Pc Call where
  Start g x := g.reaped = [] ∧ g.out = [] ∧ x = .start
  exec := exec argv
  fork := fork argv

/-! ## What a step can do -/

variable {argv} {g g' : Shared} {ps : List Pc} {x y : Pc}

variable (argv) in
inductive Move (g : Shared) (ps : List Pc) : Pc → Call → Shared → Pc → Prop where
  | usage (time : List UInt8) (h : usage argv = true) :
      Move g ps .start (.go time) g (.exited EXIT_FAILURE)
  | begins (time : List UInt8) (h : usage argv = false) : Move g ps .start (.go time) g (.forking 1)
  | forked (time : List UInt8) (j : ℕ) (h : argv.length ≤ j) :
      Move g ps (.forking j) (.go time) g (.waiting 0)
  | bye (time : List UInt8) (n : ℕ) (h : NoChild g ps) :
      Move g ps (.waiting n) (.go time) { g with out := g.out ++ [.bye] } (.exited EXIT_SUCCESS)
  | started (time : List UInt8) (j : ℕ) :
      Move g ps (.child j) (.go time) { g with out := g.out ++ [.started time j] } (.sleeping j)
  | slept (time : List UInt8) (j : ℕ) : Move g ps (.sleeping j) (.go time) g .childExited
  | reaps (time : List UInt8) (c n : ℕ) (hc : c ≠ 0) (hnew : c ∉ g.reaped)
      (hended : (ps[c]?).map Pc.ended = some true) :
      Move g ps (.waiting n) (.reap c time)
        { g with reaped := g.reaped ++ [c], out := g.out ++ [.returned time c (n + 1)] }
        (.waiting (n + 1))
  | reapsOlder (time : List UInt8) (n : ℕ) (g' : Shared) (y : Pc) (h : 0 < g.older) :
      Move g ps (.waiting n) (.reapOlder time) g' y
  | fails (n : ℕ) : Move g ps (.waiting n) .fail g (.exited EXIT_FAILURE)
  | kill (x : Pc) (h : x.ended = false) : Move g ps x .kill g .killed

theorem exec_cases {a : Call} (h : exec argv g ps x a = some (g', y)) :
    Move argv g ps x a g' y := by
  cases a with
  | go time =>
      simp only [exec] at h
      unfold go at h
      split at h
      next =>
        obtain ⟨rfl, rfl⟩ := Prod.mk.inj (Option.some.inj h)
        cases husage : usage argv with
        | true => exact .usage time husage
        | false => exact .begins time husage
      next j =>
        split at h
        · cases h
        · rename_i hge
          obtain ⟨rfl, rfl⟩ := Prod.mk.inj (Option.some.inj h)
          exact .forked time j (not_lt.mp hge)
      next n =>
        split at h
        · rename_i hall
          obtain ⟨rfl, rfl⟩ := Prod.mk.inj (Option.some.inj h)
          exact .bye time n hall
        · cases h
      next j =>
        obtain ⟨rfl, rfl⟩ := Prod.mk.inj (Option.some.inj h)
        exact .started time j
      next j =>
        obtain ⟨rfl, rfl⟩ := Prod.mk.inj (Option.some.inj h)
        exact .slept time j
      next => cases h
  | reap c time =>
      simp only [exec] at h
      unfold reap at h
      split at h
      next n =>
        split at h
        · rename_i hc
          obtain ⟨rfl, rfl⟩ := Prod.mk.inj (Option.some.inj h)
          exact .reaps time c n hc.2.1 hc.2.2.1 hc.2.2.2
        · cases h
      next => cases h
  | reapOlder time =>
      simp only [exec] at h
      unfold reapOlder at h
      split at h
      next n =>
        split at h
        · rename_i hpos
          exact .reapsOlder time n g' y hpos
        · cases h
      next => cases h
  | fail =>
      simp only [exec] at h
      split at h
      next n =>
        obtain ⟨rfl, rfl⟩ := Prod.mk.inj (Option.some.inj h)
        exact .fails n
      next => cases h
  | kill =>
      simp only [exec] at h
      split at h
      · cases h
      · rename_i hended
        obtain ⟨rfl, rfl⟩ := Prod.mk.inj (Option.some.inj h)
        exact .kill x (by simpa using hended)

theorem fork_cases {f : Fork Pc} (h : fork argv x = some f) :
    ∃ j, x = .forking j ∧ j < argv.length ∧
      f = { child := .child j, parent := .forking (j + 1), failed := .exited EXIT_FAILURE } := by
  unfold fork at h
  split at h
  next j =>
    split at h
    · rename_i hlt
      exact ⟨j, rfl, hlt, (Option.some.inj h).symm⟩
    · cases h
  next => cases h

/-! ## The invariant -/

/-- A line of the loop that waits: the child that is reported, and `numDead`. -/
def Line.report? : Line → Option (ℕ × ℕ)
  | .returned _ child numDead => some (child, numDead)
  | _ => none

/-- The places of the child `k`. -/
def IsChild (k : ℕ) (x : Pc) : Prop :=
  x = .child k ∨ x = .sleeping k ∨ x = .childExited ∨ x = .killed

variable (argv) in
/-- What the place of the parent says about the children made and reported. -/
def ParentOk (ignored : Bool) (made reaped : ℕ) : Pc → Prop
  | .start => made = 1 ∧ reaped = 0
  | .forking j => made = j ∧ reaped = 0 ∧ 2 ≤ argv.length ∧ j ≤ argv.length
  | .waiting n => made = argv.length ∧ reaped = n
  | .exited status => status = EXIT_SUCCESS →
      made = argv.length ∧ (ignored = false → reaped + 1 = argv.length)
  | .killed => True
  | _ => False

variable (argv) in
/-- With no children from before. -/
structure Inv (ignored : Bool) (w : ForkWorld Shared Pc) : Prop where
  setting : w.shared.ignored = ignored
  older : w.shared.older = 0
  parent : ∃ x, w.procs[0]? = some x ∧
    ParentOk argv ignored w.procs.length w.shared.reaped.length x ∧
    (.bye ∈ w.shared.out ↔ x = .exited EXIT_SUCCESS)
  child : ∀ (k : ℕ) (x : Pc), w.procs[k]? = some x → k ≠ 0 → IsChild k x
  nodup : w.shared.reaped.Nodup
  reaped : ∀ c ∈ w.shared.reaped, c ≠ 0 ∧ (w.procs[c]?).map Pc.ended = some true
  reports : w.shared.out.filterMap Line.report? = w.shared.reaped.zipIdx 1

theorem Move.not_ended {a : Call} (h : Move argv g ps x a g' y) : x.ended = false := by
  cases h with
  | kill x hended => exact hended
  | _ => rfl

/-- A process that has ended stays so. -/
theorem ended_set {p c : ℕ} (hx : ps[p]? = some x) (hended : x.ended = false)
    (hc : (ps[c]?).map Pc.ended = some true) : ((ps.set p y)[c]?).map Pc.ended = some true := by
  have hne : p ≠ c := by
    rintro rfl
    rw [hx, Option.map_some, hended] at hc
    cases hc
  rw [List.getElem?_set_ne hne]
  exact hc

/-- A step of a child changes neither the children reported nor the reports. -/
theorem child_move {k : ℕ} {a : Call} (hx : IsChild k x) (h : Move argv g ps x a g' y) :
    IsChild k y ∧ g'.ignored = g.ignored ∧ g'.older = g.older ∧ g'.reaped = g.reaped ∧
      g'.out.filterMap Line.report? = g.out.filterMap Line.report? ∧
      (.bye ∈ g'.out ↔ .bye ∈ g.out) := by
  cases h with
  | started time j =>
      rcases hx with hx | hx | hx | hx <;> cases hx
      exact ⟨Or.inr (Or.inl rfl), rfl, rfl, rfl, by simp [Line.report?], by simp⟩
  | slept time j => exact ⟨Or.inr (Or.inr (Or.inl rfl)), rfl, rfl, rfl, rfl, Iff.rfl⟩
  | kill x hended => exact ⟨Or.inr (Or.inr (Or.inr rfl)), rfl, rfl, rfl, rfl, Iff.rfl⟩
  | usage time h => rcases hx with hx | hx | hx | hx <;> cases hx
  | begins time h => rcases hx with hx | hx | hx | hx <;> cases hx
  | forked time j h => rcases hx with hx | hx | hx | hx <;> cases hx
  | bye time n h => rcases hx with hx | hx | hx | hx <;> cases hx
  | reaps time c n hc hnew hended => rcases hx with hx | hx | hx | hx <;> cases hx
  | reapsOlder time n => rcases hx with hx | hx | hx | hx <;> cases hx
  | fails n => rcases hx with hx | hx | hx | hx <;> cases hx

/-- A step of the parent other than a report. -/
structure Quiet (argv : List (List UInt8)) (made : ℕ) (g g' : Shared) (y : Pc) : Prop where
  ignored : g'.ignored = g.ignored
  older : g'.older = g.older
  parent : ParentOk argv g.ignored made g.reaped.length y
  reaped : g'.reaped = g.reaped
  reports : g'.out.filterMap Line.report? = g.out.filterMap Line.report?
  bye : .bye ∈ g'.out ↔ y = .exited EXIT_SUCCESS

theorem parent_move {a : Call} (holder : g.older = 0)
    (hx : ParentOk argv g.ignored ps.length g.reaped.length x)
    (hbye : .bye ∈ g.out ↔ x = .exited EXIT_SUCCESS) (h : Move argv g ps x a g' y) :
    Quiet argv ps.length g g' y ∨
      ∃ time c n, x = .waiting n ∧ y = .waiting (n + 1) ∧ c ≠ 0 ∧ c ∉ g.reaped ∧
        (ps[c]?).map Pc.ended = some true ∧
        g' = { g with reaped := g.reaped ++ [c], out := g.out ++ [.returned time c (n + 1)] } := by
  have hnone : x ≠ .exited EXIT_SUCCESS → .bye ∉ g.out := fun hne hmem => hne (hbye.mp hmem)
  cases h with
  | usage time husage =>
      refine Or.inl ⟨rfl, rfl, fun hstatus => absurd hstatus (by decide), rfl, rfl, ?_⟩
      exact ⟨fun hmem => absurd hmem (hnone nofun), nofun⟩
  | begins time husage =>
      refine Or.inl ⟨rfl, rfl, ⟨hx.1, hx.2, ?_⟩, rfl, rfl,
        fun hmem => absurd hmem (hnone nofun), nofun⟩
      have hargc : ¬ argv.length < 2 := by
        intro hlt
        simp [MultiWait.usage, hlt] at husage
      omega
  | forked time j hge =>
      obtain ⟨hmade, hreaped, -, hle⟩ := hx
      exact Or.inl ⟨rfl, rfl, ⟨by omega, hreaped⟩, rfl, rfl,
        fun hmem => absurd hmem (hnone nofun), nofun⟩
  | bye time n hall =>
      obtain ⟨hmade, -⟩ := hx
      refine Or.inl ⟨rfl, rfl, fun _ => ⟨hmade, fun hseen => ?_⟩, rfl, by simp [Line.report?],
        by simp⟩
      have hlength : g.reaped.length + 1 = ps.length := by
        simpa [hseen] using hall.2
      omega
  | started time j => cases hx
  | slept time j => cases hx
  | reaps time c n hc hnew hended =>
      exact Or.inr ⟨time, c, n, rfl, rfl, hc, hnew, hended, rfl⟩
  | reapsOlder time n g' y hpos => omega
  | fails n =>
      refine Or.inl ⟨rfl, rfl, fun hstatus => absurd hstatus (by decide), rfl, rfl, ?_⟩
      exact ⟨fun hmem => absurd hmem (hnone nofun), nofun⟩
  | kill x hended =>
      refine Or.inl ⟨rfl, rfl, trivial, rfl, rfl, fun hmem => ?_, nofun⟩
      rw [hbye.mp hmem] at hended
      cases hended

section

variable {w v : ForkWorld Shared Pc} {p : ℕ} {ignored : Bool}

theorem Inv.child_of_set (h : Inv argv ignored w) (hy : p ≠ 0 → IsChild p y) (k : ℕ) (z : Pc)
    (hk : (w.procs.set p y)[k]? = some z) (hne : k ≠ 0) : IsChild k z := by
  rcases ForkProg.getElem?_set_cases hk with ⟨rfl, rfl⟩ | ⟨-, hk⟩
  · exact hy hne
  · exact h.child k z hk hne

theorem Inv.move {a : Call} (h : Inv argv ignored w) (hx : w.procs[p]? = some x)
    (hmove : Move argv w.shared w.procs x a g y) :
    Inv argv ignored { w with shared := g, procs := w.procs.set p y } := by
  have hnot := hmove.not_ended
  have hended : ∀ c, (w.procs[c]?).map Pc.ended = some true →
      ((w.procs.set p y)[c]?).map Pc.ended = some true := fun c => ended_set hx hnot
  obtain ⟨x₀, hx₀, hok, hbye⟩ := h.parent
  by_cases hp : p = 0
  · subst hp
    obtain rfl := Option.some.inj (hx.symm.trans hx₀)
    obtain ⟨hlt, -⟩ := List.getElem?_eq_some_iff.mp hx
    have hy : (w.procs.set 0 y)[0]? = some y := List.getElem?_set_self hlt
    have hchild := h.child_of_set (p := 0) (y := y) fun hne => absurd rfl hne
    have hok' : ParentOk argv w.shared.ignored w.procs.length w.shared.reaped.length x := by
      rw [h.setting]
      exact hok
    rcases parent_move h.older hok' hbye hmove with
      hquiet | ⟨time, c, n, rfl, rfl, hc, hnew, hcend, rfl⟩
    · refine ⟨hquiet.ignored.trans h.setting, hquiet.older.trans h.older,
        ⟨y, hy, ?_, hquiet.bye⟩, hchild, by rw [hquiet.reaped]; exact h.nodup,
        fun c hc => ?_, ?_⟩
      · rw [List.length_set, hquiet.reaped, ← h.setting]
        exact hquiet.parent
      · rw [hquiet.reaped] at hc
        exact ⟨(h.reaped c hc).1, hended c (h.reaped c hc).2⟩
      · rw [hquiet.reports, hquiet.reaped]
        exact h.reports
    · obtain ⟨hmade, hreaped⟩ := hok
      refine ⟨h.setting, h.older, ⟨_, hy, ⟨?_, ?_⟩, ?_⟩, hchild, ?_, fun d hd => ?_, ?_⟩
      · rw [List.length_set]
        exact hmade
      · rw [List.length_append, List.length_singleton, hreaped]
      · have hnone : .bye ∉ w.shared.out := fun hmem => nomatch hbye.mp hmem
        simp [hnone]
      · rw [List.nodup_append]
        refine ⟨h.nodup, List.nodup_singleton c, fun d hd e he => ?_⟩
        rw [List.mem_singleton.mp he]
        rintro rfl
        exact hnew hd
      · rcases List.mem_append.mp hd with hd | hd
        · exact ⟨(h.reaped d hd).1, hended d (h.reaped d hd).2⟩
        · rw [List.mem_singleton.mp hd]
          exact ⟨hc, hended c hcend⟩
      · rw [List.filterMap_append, h.reports, List.zipIdx_append, ← hreaped]
        simp [Line.report?, Nat.add_comm]
  · obtain ⟨hy, hignored, holder, hreaped, hreports, hbye'⟩ :=
      child_move (h.child p x hx hp) hmove
    refine ⟨hignored.trans h.setting, holder.trans h.older,
      ⟨x₀, ?_, ?_, hbye'.trans hbye⟩, h.child_of_set fun _ => hy,
      by rw [hreaped]; exact h.nodup, fun c hc => ?_, ?_⟩
    · rw [List.getElem?_set_ne hp]
      exact hx₀
    · rw [List.length_set, hreaped]
      exact hok
    · rw [hreaped] at hc
      exact ⟨(h.reaped c hc).1, hended c (h.reaped c hc).2⟩
    · rw [hreports, hreaped]
      exact h.reports

/-- Only the parent forks. -/
theorem Inv.forks_parent {f : Fork Pc} (h : Inv argv ignored w) (hx : w.procs[p]? = some x)
    (hf : fork argv x = some f) :
    p = 0 ∧ w.procs.length < argv.length ∧ w.shared.reaped = [] ∧ .bye ∉ w.shared.out ∧
      f = { child := .child w.procs.length, parent := .forking (w.procs.length + 1),
            failed := .exited EXIT_FAILURE } := by
  obtain ⟨j, rfl, hlt, rfl⟩ := fork_cases hf
  have hp : p = 0 := by
    by_contra hne
    rcases h.child p _ hx hne with hc | hc | hc | hc <;> cases hc
  subst hp
  obtain ⟨x₀, hx₀, hok, hbye⟩ := h.parent
  obtain rfl := Option.some.inj (hx.symm.trans hx₀)
  obtain ⟨hmade, hreaped, -, -⟩ := hok
  refine ⟨rfl, by omega, List.length_eq_zero_iff.mp hreaped, fun hmem => (nomatch hbye.mp hmem), ?_⟩
  rw [hmade]

theorem Inv.step {a : ForkAct Call} (h : Inv argv ignored w) (hstep : (multiWait argv).Step w a v) :
    Inv argv ignored v := by
  cases hstep with
  | exec p a x y g hx hexec => exact h.move hx (exec_cases hexec)
  | forks p x f hx hf =>
      obtain ⟨rfl, hlt, hreaped, hbye, rfl⟩ := h.forks_parent hx hf
      obtain ⟨hpos, -⟩ := List.getElem?_eq_some_iff.mp hx
      refine ⟨h.setting, h.older, ⟨.forking (w.procs.length + 1), ?_, ?_, ?_⟩,
        fun k z hk hne => ?_, h.nodup, ?_, h.reports⟩
      · rw [List.getElem?_append_left (by simpa using hpos), List.getElem?_set_self hpos]
      · rw [List.length_append, List.length_set, List.length_singleton, hreaped]
        exact ⟨rfl, rfl, by omega, by omega⟩
      · exact ⟨fun hmem => absurd hmem hbye, nofun⟩
      · rcases ForkProg.getElem?_fork_cases hk with ⟨rfl, -⟩ | ⟨rfl, rfl⟩ | ⟨-, -, hk⟩
        · exact absurd rfl hne
        · exact Or.inl rfl
        · exact h.child k z hk hne
      · intro c hc
        rw [hreaped] at hc
        cases hc
  | fails p x f hx hf =>
      obtain ⟨rfl, hlt, hreaped, hbye, rfl⟩ := h.forks_parent hx hf
      obtain ⟨hpos, -⟩ := List.getElem?_eq_some_iff.mp hx
      refine ⟨h.setting, h.older, ⟨.exited EXIT_FAILURE, List.getElem?_set_self hpos,
        fun hstatus => absurd hstatus (by decide), fun hmem => absurd hmem hbye, nofun⟩,
        h.child_of_set fun hne => absurd rfl hne, h.nodup, ?_, h.reports⟩
      intro c hc
      rw [hreaped] at hc
      cases hc

theorem Inv.init (h : (multiWait argv).system.Init w) (holder : w.shared.older = 0) :
    Inv argv w.shared.ignored w := by
  obtain ⟨x, ⟨hreaped, hout, rfl⟩, hprocs, -⟩ := h
  refine ⟨rfl, holder, ⟨.start, by rw [hprocs]; rfl, ?_, ?_⟩, fun k z hk hne => ?_, ?_, ?_, ?_⟩
  · rw [hprocs, hreaped]
    exact ⟨rfl, rfl⟩
  · rw [hout]
    exact ⟨nofun, nofun⟩
  · rw [hprocs] at hk
    obtain ⟨hlt, -⟩ := List.getElem?_eq_some_iff.mp hk
    exact absurd (by simpa using hlt) hne
  · rw [hreaped]
    exact .nil
  · rw [hreaped]
    exact nofun
  · rw [hreaped, hout]
    rfl

variable {w₀ : ForkWorld Shared Pc} {as : List (ForkAct Call)}

theorem inv_of_run (h₀ : (multiWait argv).system.Init w₀) (holder : w₀.shared.older = 0)
    (hrun : (multiWait argv).system.run w₀ as = some w) : Inv argv w₀.shared.ignored w :=
  TransSys.run_preserves (fun _ _ _ h hnext => h.step (ForkProg.next_cases hnext))
    (Inv.init h₀ holder) hrun

/-- A child that was reported is one of the processes 1, 2, ... -/
theorem Inv.reaped_lt (h : Inv argv ignored w) {c : ℕ} (hc : c ∈ w.shared.reaped) :
    1 ≤ c ∧ c < w.procs.length := by
  obtain ⟨hne, hended⟩ := h.reaped c hc
  obtain ⟨x, hx, -⟩ := Option.map_eq_some_iff.mp hended
  exact ⟨Nat.one_le_iff_ne_zero.mpr hne, (List.getElem?_eq_some_iff.mp hx).1⟩

theorem Inv.reaped_subperm (h : Inv argv ignored w) :
    w.shared.reaped.Subperm (List.range' 1 (w.procs.length - 1)) := by
  refine List.subperm_of_subset h.nodup fun c hc => ?_
  have hlt := h.reaped_lt hc
  rw [List.mem_range'_1]
  omega

theorem Inv.reaped_length_lt (h : Inv argv ignored w) :
    w.shared.reaped.length < w.procs.length := by
  have hle := h.reaped_subperm.length_le
  rw [List.length_range'] at hle
  obtain ⟨x, hx, -⟩ := h.parent
  obtain ⟨hpos, -⟩ := List.getElem?_eq_some_iff.mp hx
  omega

/-- With as many reports as children, each child has been reported. -/
theorem Inv.all_reaped (h : Inv argv ignored w)
    (hall : w.shared.reaped.length + 1 = w.procs.length) :
    w.shared.reaped.Perm (List.range' 1 (w.procs.length - 1)) := by
  refine h.reaped_subperm.perm_of_length_le ?_
  rw [List.length_range']
  omega

def sampleArgv : List (List UInt8) := [str "multi_wait", str "7", str "1"]

def sampleStart : ForkWorld Shared Pc := ⟨⟨false, 0, [], []⟩, [.start], []⟩

/-- The second child ends before the first. -/
def sampleRun : List (ForkAct Call) :=
  [.exec 0 (.go []), .fork 0 true, .exec 1 (.go []), .fork 0 true, .exec 2 (.go []),
    .exec 2 (.go []), .exec 0 (.go []), .exec 0 (.reap 2 []), .exec 1 (.go []),
    .exec 0 (.reap 1 []), .exec 0 (.go [])]

def sampleEnd : ForkWorld Shared Pc where
  shared := ⟨false, 0, [2, 1],
    [.started [] 1, .started [] 2, .returned [] 2 1, .returned [] 1 2, .bye]⟩
  procs := [.exited 0, .childExited, .childExited]
  forkFailed := []

theorem sampleRun_end :
    (multiWait sampleArgv).system.run sampleStart sampleRun = some sampleEnd := by
  decide +kernel

/-- A step without a failure. -/
def Succeeds : ForkAct Call → Prop
  | .exec _ (.go _) => True
  | .exec _ (.reap _ _) => True
  | .exec _ (.reapOlder _) => True
  | .fork _ ok => ok = true
  | _ => False

/-- A child that has not been reported. -/
theorem Inv.exists_unreaped (h : Inv argv ignored w)
    (hne : w.shared.reaped.length + 1 ≠ w.procs.length) :
    ∃ c x, c ≠ 0 ∧ c ∉ w.shared.reaped ∧ w.procs[c]? = some x := by
  have hlt := h.reaped_length_lt
  by_contra hnone
  have hsup : List.range' 1 (w.procs.length - 1) ⊆ w.shared.reaped := by
    intro c hc
    rw [List.mem_range'_1] at hc
    by_contra hnot
    exact hnone ⟨c, _, by omega, hnot, List.getElem?_eq_getElem (by omega)⟩
  have hge := (List.subperm_of_subset List.nodup_range' hsup).length_le
  rw [List.length_range'] at hge
  omega

/-- What a process that can go on does next. -/
theorem can_exec {a : Call} {r : Shared × Pc} (hx : w.procs[p]? = some x)
    (hexec : exec argv w.shared w.procs x a = some r) :
    (multiWait argv).system.step w (.exec p a) ≠ none := by
  show (multiWait argv).next w (.exec p a) ≠ none
  simp [ForkProg.next, hx, multiWait, hexec]

/-- If all children have ended and `wait` does not fail, there is a child to report. -/
theorem Inv.reports_left (h : Inv argv ignored w)
    (hchildren : ∀ k x, w.procs[k]? = some x → k ≠ 0 → x.ended = true)
    (hleft : ¬ NoChild w.shared w.procs) :
    w.shared.ignored = false ∧ w.shared.reaped.length + 1 ≠ w.procs.length := by
  cases hignored : w.shared.ignored with
  | false => exact ⟨rfl, fun hall => hleft ⟨h.older, by simpa [hignored] using hall⟩⟩
  | true =>
      refine absurd ⟨h.older, ?_⟩ hleft
      rw [hignored, if_pos rfl]
      intro x hx
      obtain ⟨k, hk⟩ := List.mem_iff_getElem?.mp hx
      rw [List.getElem?_tail] at hk
      exact hchildren (k + 1) x hk (Nat.succ_ne_zero k)

theorem Inv.ended_of_stuck (h : Inv argv ignored w)
    (hstuck : (multiWait argv).system.Stuck Succeeds w) :
    ∀ x ∈ w.procs, x.ended = true := by
  -- First the children, which wait for nobody.
  have hchildren : ∀ k x, w.procs[k]? = some x → k ≠ 0 → x.ended = true := by
    intro k x hx hne
    rcases h.child k x hx hne with rfl | rfl | rfl | rfl
    · exact absurd (hstuck (.exec k (.go [])) trivial) (can_exec (a := .go []) hx rfl)
    · exact absurd (hstuck (.exec k (.go [])) trivial) (can_exec (a := .go []) hx rfl)
    · rfl
    · rfl
  intro x hmem
  obtain ⟨k, hx⟩ := List.mem_iff_getElem?.mp hmem
  by_cases hk : k = 0
  swap
  · exact hchildren k x hx hk
  subst hk
  obtain ⟨x₀, hx₀, hok, -⟩ := h.parent
  obtain rfl := Option.some.inj (hx.symm.trans hx₀)
  cases x with
  | start => exact absurd (hstuck (.exec 0 (.go [])) trivial) (can_exec (a := .go []) hx rfl)
  | forking j =>
      by_cases hj : j < argv.length
      · have hnone : (multiWait argv).next w (.fork 0 true) = none := hstuck (.fork 0 true) rfl
        simp [ForkProg.next, hx, multiWait, fork, hj] at hnone
      · exact absurd (hstuck (.exec 0 (.go [])) trivial)
          (can_exec (a := .go []) hx (by rw [exec, go, if_neg hj]))
  | waiting n =>
      by_cases hall : NoChild w.shared w.procs
      · exact absurd (hstuck (.exec 0 (.go [])) trivial)
          (can_exec (a := .go []) hx (by rw [exec, go, if_pos hall]))
      · -- Some child was not reported, and SIGCHLD is not ignored.
        obtain ⟨hseen, hleft⟩ := h.reports_left hchildren hall
        obtain ⟨c, z, hc, hnew, hz⟩ := h.exists_unreaped hleft
        have hended : (w.procs[c]?).map Pc.ended = some true := by
          rw [hz, Option.map_some, hchildren c z hz hc]
        exact absurd (hstuck (.exec 0 (.reap c [])) trivial)
          (can_exec (a := .reap c []) hx (by rw [exec, reap, if_pos ⟨hseen, hc, hnew, hended⟩]))
  | exited status => rfl
  | killed => rfl
  | child j => cases hok
  | sleeping j => cases hok
  | childExited => cases hok

variable (argv) in
/-- The steps that are left to a process and the children it will have. -/
def rank : Pc → ℕ
  | .start => 4 * argv.length + 3
  | .forking j => 3 * (argv.length - j) + argv.length + 2
  | .waiting n => argv.length - n + 1
  | .child _ => 2
  | .sleeping _ => 1
  | _ => 0

variable (argv) in
def left (w : ForkWorld Shared Pc) : ℕ := (w.procs.map (rank argv)).sum

theorem rank_pos (h : x.ended = false) : 0 < rank argv x := by
  cases x with
  | exited status => cases h
  | childExited => cases h
  | killed => cases h
  | _ => simp [rank]

theorem Inv.rank_lt {a : Call} (h : Inv argv ignored w) (hx : w.procs[p]? = some x)
    (hmove : Move argv w.shared w.procs x a g y) : rank argv y < rank argv x := by
  cases hmove with
  | kill x hended => exact rank_pos hended
  | reaps time c n hc hnew hended =>
      -- There is a child that was not reported, so `n` is less than the number of arguments.
      have hp : p = 0 := by
        by_contra hne
        rcases h.child p _ hx hne with hz | hz | hz | hz <;> cases hz
      subst hp
      obtain ⟨z, hz, hok, -⟩ := h.parent
      obtain rfl := Option.some.inj (hx.symm.trans hz)
      obtain ⟨hmade, hreaped⟩ := hok
      have hlt := h.reaped_length_lt
      simp only [rank]
      omega
  | reapsOlder time n g' y hpos =>
      have holder := h.older
      omega
  | forked time j hge =>
      simp only [rank]
      omega
  | begins time husage =>
      simp only [rank]
      omega
  | _ => simp [rank]

theorem Inv.left_lt {a : ForkAct Call} (h : Inv argv ignored w)
    (hstep : (multiWait argv).Step w a v) :
    left argv v < left argv w := by
  cases hstep with
  | exec p a x y g hx hexec =>
      have hlt := h.rank_lt hx (exec_cases hexec)
      have hsum := ForkProg.sum_map_set (rank argv) hx y
      simp only [left] at hsum ⊢
      omega
  | forks p x f hx hf =>
      obtain ⟨j, rfl, hlt, rfl⟩ := fork_cases hf
      have hsum := ForkProg.sum_map_set (rank argv) hx (.forking (j + 1))
      simp only [left, List.map_append, List.sum_append, List.map_cons, List.map_nil,
        List.sum_cons, List.sum_nil, rank] at hsum ⊢
      omega
  | fails p x f hx hf =>
      obtain ⟨j, rfl, hlt, rfl⟩ := fork_cases hf
      have hsum := ForkProg.sum_map_set (rank argv) hx (.exited EXIT_FAILURE)
      simp only [left, rank] at hsum ⊢
      omega

theorem Inv.stuck_of_ended (h : Inv argv ignored w) (hended : ∀ x ∈ w.procs, x.ended = true) :
    (multiWait argv).system.Stuck Succeeds w := by
  intro a _
  cases hnext : (multiWait argv).system.step w a with
  | none => rfl
  | some v =>
      have hzero : left argv w = 0 := by
        rw [left, List.sum_eq_zero_iff]
        intro n hn
        obtain ⟨x, hx, rfl⟩ := List.mem_map.mp hn
        have hx := hended x hx
        cases x with
        | exited status => rfl
        | childExited => rfl
        | killed => rfl
        | _ => cases hx
      have hlt := h.left_lt (ForkProg.next_cases hnext)
      omega

/-- Nothing has failed, and nobody was killed. -/
def Well (x : Pc) : Prop := x ≠ .killed ∧ ∀ status, x = .exited status → status = EXIT_SUCCESS

theorem well_of_step {a : ForkAct Call} (husage : usage argv = false) (ha : Succeeds a)
    (holder : w.shared.older = 0) (hstep : (multiWait argv).Step w a v)
    (h : ∀ (k : ℕ) (x : Pc), w.procs[k]? = some x → Well x) :
    ∀ (k : ℕ) (x : Pc), v.procs[k]? = some x → Well x := by
  intro k z hk
  cases hstep with
  | exec p c x y g hx hexec =>
      rcases ForkProg.getElem?_set_cases hk with ⟨rfl, rfl⟩ | ⟨-, hk⟩
      · cases exec_cases hexec with
        | usage time hbad =>
            rw [husage] at hbad
            cases hbad
        | bye time n hall => exact ⟨nofun, fun status hs => (Pc.exited.inj hs).symm⟩
        | fails n => cases ha
        | kill x hended => cases ha
        | reapsOlder time n g y hpos => omega
        | _ => exact ⟨nofun, nofun⟩
      · exact h k z hk
  | forks p x f hx hf =>
      obtain ⟨j, rfl, hlt, rfl⟩ := fork_cases hf
      rcases ForkProg.getElem?_fork_cases hk with ⟨-, rfl⟩ | ⟨-, rfl⟩ | ⟨-, -, hk⟩
      · exact ⟨nofun, nofun⟩
      · exact ⟨nofun, nofun⟩
      · exact h k z hk
  | fails p x f hx hf => cases ha

theorem well_of_run (husage : usage argv = false) (h₀ : (multiWait argv).system.Init w₀)
    (holder : w₀.shared.older = 0) (hrun : (multiWait argv).system.run w₀ as = some w)
    (has : ∀ a ∈ as, Succeeds a) : ∀ (k : ℕ) (x : Pc), w.procs[k]? = some x → Well x := by
  have hboth := TransSys.run_preserves_of_meets
    (P := fun w => Inv argv w₀.shared.ignored w ∧
      ∀ (k : ℕ) (x : Pc), w.procs[k]? = some x → Well x)
    (C := fun _ a => Succeeds a)
    (fun _ _ _ h ha hnext => ⟨h.1.step (ForkProg.next_cases hnext),
      well_of_step husage ha h.1.older (ForkProg.next_cases hnext) h.2⟩)
    ⟨Inv.init h₀ holder, ?_⟩ (TransSys.Meets.of_labels (fun a ha _ => has a ha) w₀) hrun
  · exact hboth.2
  · obtain ⟨x, ⟨-, -, rfl⟩, hprocs, -⟩ := h₀
    intro k z hk
    rw [hprocs] at hk
    rw [List.mem_singleton.mp (List.mem_of_getElem? hk)]
    exact ⟨nofun, nofun⟩

/-- **All children are waited for.** Every run of a process that had no children before is finite,
and it cannot go on exactly if all processes have ended: `wait` never blocks forever. Without a
failure `multi_wait` then has exited with status 0 after a child for each argument has exited and,
if SIGCHLD is not ignored, was reported. -/
theorem waits_for_all (h₀ : (multiWait argv).system.Init w₀) (holder : w₀.shared.older = 0)
    (hrun : (multiWait argv).system.run w₀ as = some w) :
    as.length ≤ 4 * argv.length + 3 ∧
    ((multiWait argv).system.Stuck Succeeds w ↔ ∀ x ∈ w.procs, x.ended = true) ∧
    (usage argv = false → (∀ a ∈ as, Succeeds a) → (multiWait argv).system.Stuck Succeeds w →
      w.procs = .exited EXIT_SUCCESS :: List.replicate (argv.length - 1) .childExited ∧
      (w₀.shared.ignored = false →
        w.shared.reaped.Perm (List.range' 1 (argv.length - 1)))) := by
  have hinv := inv_of_run h₀ holder hrun
  refine ⟨?_, ⟨hinv.ended_of_stuck, hinv.stuck_of_ended⟩, fun husage has hstuck => ?_⟩
  · have hle := TransSys.run_length_le (I := Inv argv w₀.shared.ignored) (C := fun _ _ => True)
      (m := left argv)
      (fun _ _ _ h hnext => h.step (ForkProg.next_cases hnext))
      (fun _ _ _ h _ hnext => h.left_lt (ForkProg.next_cases hnext)) (Inv.init h₀ holder)
      (TransSys.Meets.of_labels (fun _ _ _ => trivial) w₀) hrun
    obtain ⟨x, ⟨-, -, rfl⟩, hprocs, -⟩ := h₀
    have hstart : left argv w₀ = 4 * argv.length + 3 := by simp [left, hprocs, rank]
    omega
  · have hended := hinv.ended_of_stuck hstuck
    have hwell := well_of_run husage h₀ holder hrun has
    obtain ⟨x, hx, hok, -⟩ := hinv.parent
    obtain ⟨y, ps, hprocs⟩ : ∃ y ps, w.procs = y :: ps := by
      cases hp : w.procs with
      | nil =>
          rw [hp] at hx
          cases hx
      | cons y ps => exact ⟨y, ps, rfl⟩
    rw [hprocs, List.getElem?_cons_zero] at hx
    obtain rfl := Option.some.inj hx
    have hzero : w.procs[0]? = some y := by rw [hprocs, List.getElem?_cons_zero]
    obtain rfl : y = .exited EXIT_SUCCESS := by
      have hy := hended y (List.mem_of_getElem? hzero)
      cases y with
      | exited status => rw [(hwell 0 _ hzero).2 status rfl]
      | killed => exact absurd rfl (hwell 0 _ hzero).1
      | childExited => cases hok
      | _ => cases hy
    obtain ⟨hmade, hall⟩ := hok rfl
    have hlen : ps.length = argv.length - 1 := by
      rw [← hmade, hprocs, List.length_cons]
      rfl
    refine ⟨?_, ?_⟩
    · rw [hprocs, ← hlen]
      congr 1
      refine List.eq_replicate_iff.mpr ⟨rfl, fun z hz => ?_⟩
      obtain ⟨k, hk⟩ := List.mem_iff_getElem?.mp hz
      have hk' : w.procs[k + 1]? = some z := by rw [hprocs, List.getElem?_cons_succ, hk]
      have hzend := hended z (List.mem_of_getElem? hk')
      rcases hinv.child (k + 1) z hk' (Nat.succ_ne_zero k) with rfl | rfl | rfl | rfl
      · cases hzend
      · cases hzend
      · rfl
      · exact absurd rfl (hwell (k + 1) _ hk').1
    · intro hseen
      have hall := hall hseen
      rw [← hmade]
      exact hinv.all_reaped (by omega)

theorem waits_for_all_sampleRun :
    (multiWait sampleArgv).system.run sampleStart sampleRun = some sampleEnd ∧
      (multiWait sampleArgv).system.Stuck Succeeds sampleEnd ∧
      sampleRun.length ≤ 4 * sampleArgv.length + 3 := by
  have h₀ : (multiWait sampleArgv).system.Init sampleStart := ⟨_, ⟨rfl, rfl, rfl⟩, rfl, rfl⟩
  have hmain := waits_for_all h₀ rfl sampleRun_end
  exact ⟨sampleRun_end, hmain.2.1.mpr (by decide), hmain.1⟩

end

end Tlpi.MultiWait
