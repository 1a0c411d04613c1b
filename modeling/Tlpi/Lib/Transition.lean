import Mathlib.Tactic

set_option autoImplicit false

/-! # Transition systems with executable steps

A system is a set of initial states and a partial step function: `step s a` is the state after
the label `a`, or `none` when `a` is not enabled in `s`. All nondeterminism (the scheduler, the
outcome of a system call) is in the label, so a run is a list of labels and can be evaluated.
-/

universe u v

/-- A transition system over states `σ` and labels `α`. -/
structure TransSys (σ : Type u) (α : Type v) where
  Init : σ → Prop
  step : σ → α → Option σ

namespace TransSys

variable {σ : Type u} {α : Type v} (T : TransSys σ α)

/-- The state after a list of labels, `none` if one of them was not enabled. -/
def run (s : σ) : List α → Option σ
  | [] => some s
  | a :: as => (T.step s a).bind fun t => run t as

@[simp] theorem run_nil (s : σ) : T.run s [] = some s := rfl

theorem run_cons (s : σ) (a : α) (as : List α) :
    T.run s (a :: as) = (T.step s a).bind fun t => T.run t as := rfl

theorem run_append (s : σ) (as bs : List α) :
    T.run s (as ++ bs) = (T.run s as).bind fun t => T.run t bs := by
  induction as generalizing s with
  | nil => rfl
  | cons a as ih =>
      rw [List.cons_append, run_cons, run_cons, Option.bind_assoc]
      exact Option.bind_congr fun t _ => ih t

/-- A state is reachable if some run from an initial state ends in it. -/
def Reachable (s : σ) : Prop := ∃ s₀ as, T.Init s₀ ∧ T.run s₀ as = some s

variable {T}

/-- **The run rule.** What one step preserves, a whole run preserves. -/
theorem run_preserves {P : σ → Prop} (hstep : ∀ s a t, P s → T.step s a = some t → P t)
    {s t : σ} {as : List α} (hs : P s) (hrun : T.run s as = some t) : P t := by
  induction as generalizing s with
  | nil =>
      rw [run_nil, Option.some.injEq] at hrun
      exact hrun ▸ hs
  | cons a as ih =>
      rw [run_cons, Option.bind_eq_some_iff] at hrun
      obtain ⟨r, hr, hrun⟩ := hrun
      exact ih (hstep s a r hs hr) hrun

/-- **The invariant rule.** A property of the initial states that every step keeps holds in
every reachable state. -/
theorem Reachable.invariant {P : σ → Prop} (hinit : ∀ s, T.Init s → P s)
    (hstep : ∀ s a t, P s → T.step s a = some t → P t) {s : σ} (h : T.Reachable s) : P s := by
  obtain ⟨s₀, as, h₀, hrun⟩ := h
  exact run_preserves hstep (hinit s₀ h₀) hrun

/-! ## Runs whose steps meet a condition -/

variable (T) in
/-- Every step of the run from `s` along the labels meets the condition `C`. -/
def Meets (C : σ → α → Prop) (s : σ) : List α → Prop
  | [] => True
  | a :: as => C s a ∧ ∀ t, T.step s a = some t → Meets C t as

theorem Meets.cons {C : σ → α → Prop} {s t : σ} {a : α} {as : List α} (hC : C s a)
    (hstep : T.step s a = some t) (hm : T.Meets C t as) : T.Meets C s (a :: as) :=
  ⟨hC, fun _ hu => Option.some.inj (hstep.symm.trans hu) ▸ hm⟩

/-- A condition that all the labels meet in any state. -/
theorem Meets.of_labels {C : σ → α → Prop} {as : List α} (h : ∀ a ∈ as, ∀ s, C s a) (s : σ) :
    T.Meets C s as := by
  induction as generalizing s with
  | nil => trivial
  | cons a as ih =>
      refine ⟨h a List.mem_cons_self s, fun t _ => ?_⟩
      exact ih (fun b hb => h b (List.mem_cons_of_mem _ hb)) t

theorem Meets.and {C D : σ → α → Prop} {s : σ} {as : List α} (hC : T.Meets C s as)
    (hD : T.Meets D s as) : T.Meets (fun s a => C s a ∧ D s a) s as := by
  induction as generalizing s with
  | nil => trivial
  | cons a as ih => exact ⟨⟨hC.1, hD.1⟩, fun t ht => ih (hC.2 t ht) (hD.2 t ht)⟩

theorem Meets.append {C : σ → α → Prop} {s t : σ} {as bs : List α} (hm : T.Meets C s as)
    (hrun : T.run s as = some t) (hm' : T.Meets C t bs) : T.Meets C s (as ++ bs) := by
  induction as generalizing s with
  | nil =>
      rw [run_nil, Option.some.injEq] at hrun
      exact hrun ▸ hm'
  | cons a as ih =>
      rw [run_cons, Option.bind_eq_some_iff] at hrun
      obtain ⟨r, hr, hrun⟩ := hrun
      exact Meets.cons hm.1 hr (ih (hm.2 r hr) hrun)

variable (T) in
/-- The condition is tested along the run. -/
def checkMeets (C : σ → α → Bool) (s : σ) : List α → Bool
  | [] => true
  | a :: as => C s a && (T.step s a).all fun t => checkMeets C t as

theorem meets_of_check {C : σ → α → Prop} [∀ s a, Decidable (C s a)] {s : σ} {as : List α}
    (h : T.checkMeets (fun s a => decide (C s a)) s as = true) : T.Meets C s as := by
  induction as generalizing s with
  | nil => trivial
  | cons a as ih =>
      obtain ⟨hfirst, hrest⟩ := Bool.and_eq_true_iff.mp h
      refine ⟨of_decide_eq_true hfirst, fun t ht => ih ?_⟩
      rwa [ht, Option.all_some] at hrest

/-- What the steps that meet `C` preserve, a run of such steps preserves. -/
theorem run_preserves_of_meets {P : σ → Prop} {C : σ → α → Prop}
    (hstep : ∀ s a t, P s → C s a → T.step s a = some t → P t)
    {s t : σ} {as : List α} (hs : P s) (hm : T.Meets C s as) (hrun : T.run s as = some t) :
    P t := by
  induction as generalizing s with
  | nil =>
      rw [run_nil, Option.some.injEq] at hrun
      exact hrun ▸ hs
  | cons a as ih =>
      rw [run_cons, Option.bind_eq_some_iff] at hrun
      obtain ⟨r, hr, hrun⟩ := hrun
      exact ih (hstep s a r hs hm.1 hr) (hm.2 r hr) hrun

/-- If a step that breaks `C` leaves a trace `B` that no later step removes, then a run that ends
without the trace met `C` throughout. -/
theorem meets_of_no_trace {I B : σ → Prop} {C : σ → α → Prop}
    (hinv : ∀ s a t, I s → T.step s a = some t → I t)
    (hkeep : ∀ s a t, I s → B s → T.step s a = some t → B t)
    (hleave : ∀ s a t, I s → ¬ C s a → T.step s a = some t → B t)
    {s t : σ} {as : List α} (hs : I s) (hrun : T.run s as = some t) (ht : ¬ B t) :
    T.Meets C s as := by
  induction as generalizing s with
  | nil => trivial
  | cons a as ih =>
      rw [run_cons, Option.bind_eq_some_iff] at hrun
      obtain ⟨r, hr, hrun⟩ := hrun
      refine ⟨?_, fun u hu => ?_⟩
      · by_contra hC
        have hB := run_preserves (fun x b y (h : I x ∧ B x) hxy =>
          ⟨hinv x b y h.1 hxy, hkeep x b y h.1 h.2 hxy⟩)
          ⟨hinv s a r hs hr, hleave s a r hs hC hr⟩ hrun
        exact ht hB.2
      · obtain rfl : r = u := Option.some.inj (hr.symm.trans hu)
        exact ih (hinv s a r hs hr) hrun

/-! ## Runs that end -/

variable (T) in
/-- No label of the kind `C` is enabled. -/
def Stuck (C : α → Prop) (s : σ) : Prop := ∀ a, C a → T.step s a = none

/-- **The variant rule.** A number that every step of the kind `C` lowers, in the states that meet
an invariant, bounds the length of the runs of such steps. -/
theorem run_length_le {I : σ → Prop} {C : σ → α → Prop} {m : σ → ℕ}
    (hinv : ∀ s a t, I s → T.step s a = some t → I t)
    (hlt : ∀ s a t, I s → C s a → T.step s a = some t → m t < m s)
    {s t : σ} {as : List α} (hs : I s) (hm : T.Meets C s as) (hrun : T.run s as = some t) :
    as.length + m t ≤ m s := by
  induction as generalizing s with
  | nil =>
      rw [run_nil, Option.some.injEq] at hrun
      rw [hrun, List.length_nil, Nat.zero_add]
  | cons a as ih =>
      rw [run_cons, Option.bind_eq_some_iff] at hrun
      obtain ⟨r, hr, hrun⟩ := hrun
      have hrest := ih (hinv s a r hs hr) (hm.2 r hr) hrun
      have hfirst := hlt s a r hs hm.1 hr
      rw [List.length_cons]
      omega

end TransSys
