import Tlpi.Lib.Transition

set_option autoImplicit false

/-! # Programs that fork

All processes of a run execute one program. A process has a local state `σ`, and the processes share
a state `γ`. A process that is about to fork has three ways to go on (`Fork`): as the new process,
as the old one, and as the old one when no new process could be made.

Process 0 is the one the run started with; every other one was created by a fork.
-/

/-- How a process goes on after a fork. -/
structure Fork (σ : Type) where
  child : σ
  parent : σ
  failed : σ

/-- A program: its start, the steps of a process other than forks (which may depend on what the
other processes hold), and the forks. -/
structure ForkProg (γ σ α : Type) where
  Start : γ → σ → Prop
  exec : γ → List σ → σ → α → Option (γ × σ)
  fork : σ → Option (Fork σ)

/-- A step of the process `p`: a step `a`, or a fork that succeeds or not. -/
inductive ForkAct (α : Type) where
  | exec (p : ℕ) (a : α)
  | fork (p : ℕ) (ok : Bool)
deriving DecidableEq, Repr

/-- The processes in the order they were created; `forkFailed` are those that could not fork. -/
structure ForkWorld (γ σ : Type) where
  shared : γ
  procs : List σ
  forkFailed : List ℕ
deriving DecidableEq, Repr

namespace ForkProg

variable {γ σ α : Type} (P : ForkProg γ σ α)

def next (w : ForkWorld γ σ) : ForkAct α → Option (ForkWorld γ σ)
  | .exec p a =>
      (w.procs[p]?).bind fun x =>
        (P.exec w.shared w.procs x a).map fun r =>
          { w with shared := r.1, procs := w.procs.set p r.2 }
  | .fork p ok =>
      (w.procs[p]?).bind fun x =>
        (P.fork x).map fun f =>
          if ok then { w with procs := w.procs.set p f.parent ++ [f.child] }
          else { w with procs := w.procs.set p f.failed, forkFailed := w.forkFailed ++ [p] }

def system : TransSys (ForkWorld γ σ) (ForkAct α) where
  Init w := ∃ x, P.Start w.shared x ∧ w.procs = [x] ∧ w.forkFailed = []
  step := P.next

/-- The steps, as `next` makes them. -/
inductive Step (w : ForkWorld γ σ) : ForkAct α → ForkWorld γ σ → Prop where
  | exec (p : ℕ) (a : α) (x y : σ) (g : γ) (hx : w.procs[p]? = some x)
      (hexec : P.exec w.shared w.procs x a = some (g, y)) :
      Step w (.exec p a) { w with shared := g, procs := w.procs.set p y }
  | forks (p : ℕ) (x : σ) (f : Fork σ) (hx : w.procs[p]? = some x) (hf : P.fork x = some f) :
      Step w (.fork p true) { w with procs := w.procs.set p f.parent ++ [f.child] }
  | fails (p : ℕ) (x : σ) (f : Fork σ) (hx : w.procs[p]? = some x) (hf : P.fork x = some f) :
      Step w (.fork p false)
        { w with procs := w.procs.set p f.failed, forkFailed := w.forkFailed ++ [p] }

variable {P} {w v : ForkWorld γ σ} {a : ForkAct α}

theorem next_cases (h : P.next w a = some v) : P.Step w a v := by
  cases a with
  | exec p a =>
      obtain ⟨x, hx, h⟩ := Option.bind_eq_some_iff.mp h
      obtain ⟨⟨g, y⟩, hexec, rfl⟩ := Option.map_eq_some_iff.mp h
      exact .exec p a x y g hx hexec
  | fork p ok =>
      obtain ⟨x, hx, h⟩ := Option.bind_eq_some_iff.mp h
      obtain ⟨f, hf, rfl⟩ := Option.map_eq_some_iff.mp h
      cases ok with
      | true => exact .forks p x f hx hf
      | false => exact .fails p x f hx hf

/-! ## Processes after a step -/

theorem getElem?_set_cases {l : List σ} {p k : ℕ} {x y : σ} (h : (l.set p y)[k]? = some x) :
    k = p ∧ x = y ∨ k ≠ p ∧ l[k]? = some x := by
  by_cases hk : k = p
  · subst hk
    obtain ⟨hlt, hget⟩ := List.getElem?_eq_some_iff.mp h
    exact Or.inl ⟨rfl, by simpa using hget.symm⟩
  · rw [List.getElem?_set_ne (Ne.symm hk)] at h
    exact Or.inr ⟨hk, h⟩

/-- After a fork: the old process, the new one, or another one. -/
theorem getElem?_fork_cases {l : List σ} {p k : ℕ} {x y z : σ}
    (h : (l.set p y ++ [z])[k]? = some x) :
    k = p ∧ x = y ∨ k = l.length ∧ x = z ∨ k ≠ p ∧ k < l.length ∧ l[k]? = some x := by
  rw [List.getElem?_append, List.length_set] at h
  split at h
  · rename_i hlt
    rcases getElem?_set_cases h with hp | ⟨hne, hk⟩
    · exact Or.inl hp
    · exact Or.inr (Or.inr ⟨hne, hlt, hk⟩)
  · rename_i hge
    obtain ⟨hlt, hget⟩ := List.getElem?_eq_some_iff.mp h
    simp only [List.length_singleton] at hlt
    have hk : k = l.length := by omega
    exact Or.inr (Or.inl ⟨hk, by simpa using hget.symm⟩)

/-- A property of each process, which may depend on the number of the process, holds after a step if
the process that made the step has it. -/
theorem Step.each {L : ℕ → σ → Prop} (hstep : P.Step w a v)
    (h : ∀ k x, w.procs[k]? = some x → L k x)
    (hexec : ∀ k x b g y, w.procs[k]? = some x → P.exec w.shared w.procs x b = some (g, y) → L k y)
    (hfork : ∀ k x f, w.procs[k]? = some x → P.fork x = some f →
      L k f.parent ∧ L w.procs.length f.child ∧ L k f.failed) :
    ∀ k x, v.procs[k]? = some x → L k x := by
  intro k z hk
  cases hstep with
  | exec p b x y g hx hex =>
      rcases getElem?_set_cases hk with ⟨rfl, rfl⟩ | ⟨-, hk⟩
      · exact hexec k x b g z hx hex
      · exact h k z hk
  | forks p x f hx hf =>
      rcases getElem?_fork_cases hk with ⟨rfl, rfl⟩ | ⟨rfl, rfl⟩ | ⟨-, -, hk⟩
      · exact (hfork k x f hx hf).1
      · exact (hfork p x f hx hf).2.1
      · exact h k z hk
  | fails p x f hx hf =>
      rcases getElem?_set_cases hk with ⟨rfl, rfl⟩ | ⟨-, hk⟩
      · exact (hfork k x f hx hf).2.2
      · exact h k z hk

/-- A sum over the processes when one of them changes. -/
theorem sum_map_set (m : σ → ℕ) {l : List σ} {p : ℕ} {x : σ} (hx : l[p]? = some x) (y : σ) :
    ((l.set p y).map m).sum + m x = (l.map m).sum + m y := by
  induction l generalizing p with
  | nil => simp at hx
  | cons z l ih =>
      cases p with
      | zero =>
          obtain rfl : z = x := by simpa using hx
          simp only [List.set_cons_zero, List.map_cons, List.sum_cons]
          omega
      | succ p =>
          have hrest := ih (by simpa using hx)
          simp only [List.set_cons_succ, List.map_cons, List.sum_cons]
          omega

/-! ## The branch of the child -/

/-- The states in the child's branch are entered by a fork only, by the old process only if its fork
failed (it falls through), and never left. -/
structure FallsThrough (P : ForkProg γ σ α) (inChild : σ → Bool) : Prop where
  start : ∀ g x, P.Start g x → inChild x = false
  exec : ∀ g ps x a g' y, P.exec g ps x a = some (g', y) → inChild y = inChild x
  outside : ∀ x f, P.fork x = some f → inChild x = false
  child : ∀ x f, P.fork x = some f → inChild f.child = true
  parent : ∀ x f, P.fork x = some f → inChild f.parent = false
  failed : ∀ x f, P.fork x = some f → inChild f.failed = true

/-- The original process stays out of the child's branch, and if it could not fork and has ended,
its exit status says so. -/
def ChildOnly (inChild : σ → Bool) (status : σ → Option ℕ) (w : ForkWorld γ σ) : Prop :=
  ∀ x, w.procs[0]? = some x →
    inChild x = false ∧ (0 ∈ w.forkFailed → ∀ code, status x = some code → code ≠ 0)

/-- No fork fails. -/
def ForkSucceeds (_ : ForkWorld γ σ) (a : ForkAct α) : Prop := ∀ p, a ≠ .fork p false

/-- Every process that was created by a fork is in the child's branch. -/
def Created (inChild : σ → Bool) (w : ForkWorld γ σ) : Prop :=
  0 < w.procs.length ∧ ∀ (k : ℕ) (x : σ), w.procs[k]? = some x → k ≠ 0 → inChild x = true

variable {inChild : σ → Bool} {status : σ → Option ℕ}

theorem Created.init (h : P.system.Init w) : Created inChild w := by
  obtain ⟨x, -, hprocs, -⟩ := h
  rw [Created, hprocs]
  refine ⟨Nat.zero_lt_one, fun k y hk hne => ?_⟩
  obtain ⟨hlt, -⟩ := List.getElem?_eq_some_iff.mp hk
  simp only [List.length_singleton] at hlt
  omega

/-- Only the original process forks. -/
theorem Created.forks_zero (h : Created inChild w) (hP : P.FallsThrough inChild) {p : ℕ} {x : σ}
    {f : Fork σ} (hx : w.procs[p]? = some x) (hf : P.fork x = some f) : p = 0 := by
  by_contra hne
  exact nomatch (h.2 p x hx hne).symm.trans (hP.outside x f hf)

theorem Created.step (h : Created inChild w) (hP : P.FallsThrough inChild)
    (hstep : P.Step w a v) : Created inChild v := by
  cases hstep with
  | exec p a x y g hx hexec =>
      refine ⟨by simpa using h.1, fun k z hk hne => ?_⟩
      rcases getElem?_set_cases hk with ⟨rfl, rfl⟩ | ⟨-, hk⟩
      · rw [hP.exec _ _ _ _ _ _ hexec]
        exact h.2 k x hx hne
      · exact h.2 k z hk hne
  | forks p x f hx hf =>
      obtain rfl := h.forks_zero hP hx hf
      refine ⟨by simp, fun k z hk hne => ?_⟩
      rcases getElem?_fork_cases hk with ⟨rfl, -⟩ | ⟨-, rfl⟩ | ⟨-, -, hk⟩
      · exact absurd rfl hne
      · exact hP.child x f hf
      · exact h.2 k z hk hne
  | fails p x f hx hf =>
      obtain rfl := h.forks_zero hP hx hf
      refine ⟨by simpa using h.1, fun k z hk hne => ?_⟩
      rcases getElem?_set_cases hk with ⟨rfl, -⟩ | ⟨-, hk⟩
      · exact absurd rfl hne
      · exact h.2 k z hk hne

/-- The original process is in the child's branch. -/
def Fallen (inChild : σ → Bool) (w : ForkWorld γ σ) : Prop :=
  ∃ x, w.procs[0]? = some x ∧ inChild x = true

theorem Fallen.step (hc : Created inChild w) (hP : P.FallsThrough inChild)
    (h : Fallen inChild w) (hstep : P.Step w a v) : Fallen inChild v := by
  obtain ⟨x₀, hx₀, hin⟩ := h
  cases hstep with
  | exec p a x y g hx hexec =>
      by_cases hp : p = 0
      · subst hp
        obtain rfl : x₀ = x := Option.some.inj (hx₀.symm.trans hx)
        refine ⟨y, ?_, (hP.exec _ _ _ _ _ _ hexec).trans hin⟩
        simp [hc.1]
      · refine ⟨x₀, ?_, hin⟩
        simpa [List.getElem?_set_ne hp] using hx₀
  | forks p x f hx hf =>
      obtain rfl := hc.forks_zero hP hx hf
      obtain rfl : x₀ = x := Option.some.inj (hx₀.symm.trans hx)
      exact nomatch hin.symm.trans (hP.outside x₀ f hf)
  | fails p x f hx hf =>
      obtain rfl := hc.forks_zero hP hx hf
      obtain rfl : x₀ = x := Option.some.inj (hx₀.symm.trans hx)
      exact nomatch hin.symm.trans (hP.outside x₀ f hf)

/-- Without a failed fork the original process does not get into the child's branch. -/
theorem Fallen.of_step (hc : Created inChild w) (hP : P.FallsThrough inChild)
    (hfork : ForkSucceeds w a) (hstep : P.Step w a v) (h : Fallen inChild v) :
    Fallen inChild w := by
  obtain ⟨z, hz, hin⟩ := h
  cases hstep with
  | exec p a x y g hx hexec =>
      rcases getElem?_set_cases hz with ⟨rfl, rfl⟩ | ⟨-, hz⟩
      · rw [hP.exec _ _ _ _ _ _ hexec] at hin
        exact ⟨x, hx, hin⟩
      · exact ⟨z, hz, hin⟩
  | forks p x f hx hf =>
      obtain rfl := hc.forks_zero hP hx hf
      rcases getElem?_fork_cases hz with ⟨-, rfl⟩ | ⟨hlen, -⟩ | ⟨hne, -, -⟩
      · exact nomatch hin.symm.trans (hP.parent x f hf)
      · exact absurd hlen (Nat.ne_of_lt hc.1)
      · exact absurd rfl hne
  | fails p x f hx hf => exact absurd rfl (hfork p)

theorem not_fallen_init (hP : P.FallsThrough inChild) (h : P.system.Init w) :
    ¬ Fallen inChild w := by
  rintro ⟨y, hy, hin⟩
  obtain ⟨x, hstart, hprocs, -⟩ := h
  rw [hprocs] at hy
  obtain rfl : x = y := Option.some.inj hy
  exact nomatch hin.symm.trans (hP.start _ _ hstart)

theorem forkFailed_step (hfork : ForkSucceeds w a) (hstep : P.Step w a v) :
    v.forkFailed = w.forkFailed := by
  cases hstep with
  | exec p a x y g hx hexec => rfl
  | forks p x f hx hf => rfl
  | fails p x f hx hf => exact absurd rfl (hfork p)

/-- A failed fork is one of the original process, which is in the child's branch then. -/
theorem Created.falls (hc : Created inChild w) (hP : P.FallsThrough inChild)
    (hfork : ¬ ForkSucceeds w a) (hstep : P.Step w a v) : Fallen inChild v := by
  simp only [ForkSucceeds, not_forall, not_not] at hfork
  obtain ⟨p, rfl⟩ := hfork
  cases hstep with
  | fails p x f hx hf =>
      obtain rfl := hc.forks_zero hP hx hf
      exact ⟨f.failed, by simp [hc.1], hP.failed x f hf⟩

/-- **Falling through.** After a run the original process has stayed out of the child's branch
exactly if no fork of the run failed. -/
theorem childOnly_iff (hP : P.FallsThrough inChild) {w₀ : ForkWorld γ σ} {as : List (ForkAct α)}
    (h₀ : P.system.Init w₀) (hrun : P.system.run w₀ as = some w) :
    ChildOnly inChild status w ↔ P.system.Meets ForkSucceeds w₀ as := by
  constructor
  · intro hw
    have hnot : ¬ Fallen inChild w := by
      rintro ⟨x, hx, hin⟩
      exact nomatch hin.symm.trans (hw x hx).1
    exact TransSys.meets_of_no_trace (I := Created inChild) (B := Fallen inChild)
      (fun w a v hc hnext => hc.step hP (next_cases hnext))
      (fun w a v hc hfallen hnext => hfallen.step hc hP (next_cases hnext))
      (fun w a v hc hfork hnext => hc.falls hP hfork (next_cases hnext)) (Created.init h₀) hrun hnot
  · intro hmeets
    have hstart : Created inChild w₀ ∧ ¬ Fallen inChild w₀ ∧ w₀.forkFailed = [] := by
      refine ⟨Created.init h₀, not_fallen_init hP h₀, ?_⟩
      obtain ⟨x, -, -, hfailed⟩ := h₀
      exact hfailed
    have hkept := TransSys.run_preserves_of_meets (T := P.system)
      (P := fun w => Created inChild w ∧ ¬ Fallen inChild w ∧ w.forkFailed = [])
      (C := ForkSucceeds) ?_ hstart hmeets hrun
    · obtain ⟨-, hnot, hfailed⟩ := hkept
      intro x hx
      refine ⟨?_, fun hmem => ?_⟩
      · cases hin : inChild x with
        | false => rfl
        | true => exact absurd ⟨x, hx, hin⟩ hnot
      · rw [hfailed] at hmem
        cases hmem
    · rintro w a v ⟨hc, hnot, hfailed⟩ hfork hnext
      have hstep := next_cases hnext
      refine ⟨hc.step hP hstep, fun hfallen => hnot (hfallen.of_step hc hP hfork hstep), ?_⟩
      rw [forkFailed_step hfork hstep, hfailed]

end ForkProg
