import Tlpi.Lib.Transition

set_option autoImplicit false

/-! # Processes that arrive

Any number of processes work on a shared state `γ`. A process may arrive at any time, started by a
command `β`; processes take turns in any order. They are numbered in the order of their arrival, and
a process knows its number.
-/

/-- The start of the shared state, the first state of a process, and the steps of a process. -/
structure Crowd (γ σ β α : Type) where
  Start : γ → Prop
  spawn : β → σ
  exec : ℕ → γ → σ → α → Option (γ × σ)

inductive CrowdAct (β α : Type) where
  | spawn (b : β)
  | exec (p : ℕ) (a : α)
deriving DecidableEq, Repr

structure CrowdWorld (γ σ : Type) where
  shared : γ
  procs : List σ

namespace Crowd

variable {γ σ β α : Type} (C : Crowd γ σ β α)

def next (w : CrowdWorld γ σ) : CrowdAct β α → Option (CrowdWorld γ σ)
  | .spawn b => some { w with procs := w.procs ++ [C.spawn b] }
  | .exec p a =>
      (w.procs[p]?).bind fun x =>
        (C.exec p w.shared x a).map fun r => ⟨r.1, w.procs.set p r.2⟩

def system : TransSys (CrowdWorld γ σ) (CrowdAct β α) where
  Init w := C.Start w.shared ∧ w.procs = []
  step := C.next

/-- The steps, as `next` makes them. -/
inductive Step (w : CrowdWorld γ σ) : CrowdAct β α → CrowdWorld γ σ → Prop where
  | spawn (b : β) : Step w (.spawn b) { w with procs := w.procs ++ [C.spawn b] }
  | exec (p : ℕ) (a : α) (x y : σ) (g : γ) (hx : w.procs[p]? = some x)
      (hexec : C.exec p w.shared x a = some (g, y)) : Step w (.exec p a) ⟨g, w.procs.set p y⟩

variable {C} {w v : CrowdWorld γ σ} {a : CrowdAct β α}

theorem next_cases (h : C.next w a = some v) : C.Step w a v := by
  cases a with
  | spawn b => exact Option.some.inj h ▸ .spawn b
  | exec p a =>
      obtain ⟨x, hx, h⟩ := Option.bind_eq_some_iff.mp h
      obtain ⟨⟨g, y⟩, hexec, rfl⟩ := Option.map_eq_some_iff.mp h
      exact .exec p a x y g hx hexec

theorem next_exec {p : ℕ} {x : σ} (hx : w.procs[p]? = some x) (a : α) :
    C.next w (.exec p a) = (C.exec p w.shared x a).map fun r => ⟨r.1, w.procs.set p r.2⟩ := by
  rw [next, hx, Option.bind_some]

/-! ## One process alone -/

variable (C) in
/-- The process `p` takes these steps, and no other process takes one. -/
def alone (p : ℕ) (g : γ) (x : σ) : List α → Option (γ × σ)
  | [] => some (g, x)
  | a :: as => (C.exec p g x a).bind fun r => alone p r.1 r.2 as

theorem alone_cons {p : ℕ} {g g' : γ} {x y : σ} {a : α} (h : C.exec p g x a = some (g', y))
    (as : List α) : C.alone p g x (a :: as) = C.alone p g' y as := by
  rw [alone, h, Option.bind_some]

theorem alone_append (p : ℕ) (g : γ) (x : σ) (as bs : List α) :
    C.alone p g x (as ++ bs) = (C.alone p g x as).bind fun r => C.alone p r.1 r.2 bs := by
  induction as generalizing g x with
  | nil => rfl
  | cons a as ih =>
      rw [List.cons_append, alone, alone, Option.bind_assoc]
      exact Option.bind_congr fun r _ => ih r.1 r.2

/-- What each step of a kind preserves, such steps of a process alone preserve. -/
theorem alone_preserves {P : γ → σ → Prop} {K : α → Prop} {p : ℕ}
    (hstep : ∀ g x a g' y, P g x → K a → C.exec p g x a = some (g', y) → P g' y) {g g' : γ}
    {x y : σ} {as : List α} (h : P g x) (has : ∀ a ∈ as, K a)
    (halone : C.alone p g x as = some (g', y)) : P g' y := by
  induction as generalizing g x with
  | nil =>
      obtain ⟨rfl, rfl⟩ := Prod.mk.inj (Option.some.inj halone)
      exact h
  | cons a as ih =>
      obtain ⟨⟨g₁, x₁⟩, hexec, halone⟩ := Option.bind_eq_some_iff.mp halone
      exact ih (hstep g x a g₁ x₁ h (has a List.mem_cons_self) hexec)
        (fun b hb => has b (List.mem_cons_of_mem a hb)) halone

/-- The steps of a process alone are a run of the system. -/
theorem run_alone {p : ℕ} {x y : σ} {g : γ} {as : List α} (hx : w.procs[p]? = some x)
    (h : C.alone p w.shared x as = some (g, y)) :
    C.system.run w (as.map (.exec p)) = some ⟨g, w.procs.set p y⟩ := by
  induction as generalizing w x with
  | nil =>
      obtain ⟨rfl, rfl⟩ := Prod.mk.inj (Option.some.inj h)
      obtain ⟨hlt, rfl⟩ := List.getElem?_eq_some_iff.mp hx
      rw [List.set_getElem_self]
      rfl
  | cons a as ih =>
      obtain ⟨⟨g', x'⟩, hexec, h⟩ := Option.bind_eq_some_iff.mp h
      obtain ⟨hlt, -⟩ := List.getElem?_eq_some_iff.mp hx
      have hstep : C.system.step w (.exec p a) = some ⟨g', w.procs.set p x'⟩ := by
        show C.next w (.exec p a) = _
        rw [next_exec hx, hexec]
        rfl
      rw [List.map_cons, TransSys.run_cons, hstep, Option.bind_some,
        ih (List.getElem?_set_self hlt) h, List.set_set]

/-! ## All processes, and how many -/

/-- A process after a step of the process `p`. -/
theorem mem_set_cases {l : List σ} {p : ℕ} {x y : σ} (h : x ∈ l.set p y) : x = y ∨ x ∈ l := by
  rcases List.mem_or_eq_of_mem_set h with hmem | heq
  · exact Or.inr hmem
  · exact Or.inl heq

/-- A process after another one has arrived. -/
theorem getElem?_spawn_cases {l : List σ} {q : ℕ} {x z : σ} (h : (l ++ [z])[q]? = some x) :
    l[q]? = some x ∨ x = z := by
  rw [List.getElem?_append] at h
  split at h
  · exact Or.inl h
  · exact Or.inr (List.mem_singleton.mp (List.mem_of_getElem? h))

/-- The number of processes of a kind when one of them changes. -/
theorem countP_set (f : σ → Bool) {l : List σ} {p : ℕ} {x : σ} (hx : l[p]? = some x) (y : σ) :
    (l.set p y).countP f + (if f x then 1 else 0) = l.countP f + (if f y then 1 else 0) := by
  obtain ⟨hlt, rfl⟩ := List.getElem?_eq_some_iff.mp hx
  have hpos : f l[p] = true → 0 < l.countP f := fun hf =>
    List.countP_pos_iff.mpr ⟨l[p], List.getElem_mem hlt, hf⟩
  rw [List.countP_set hlt]
  split
  · rename_i hf
    have hpos := hpos hf
    omega
  · omega

theorem countP_set_of_eq (f : σ → Bool) {l : List σ} {p : ℕ} {x y : σ} (hx : l[p]? = some x)
    (h : f y = f x) : (l.set p y).countP f = l.countP f := by
  have hset := countP_set f hx y
  rw [h] at hset
  omega

end Crowd
