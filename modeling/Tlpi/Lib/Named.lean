import Mathlib.Tactic

set_option autoImplicit false

/-! # Objects with names

The objects are numbered in the order of their creation. A name refers to an object until it is
unlinked, and the object stays. A name that is used again then refers to a new object.
-/

/-- The objects, and the number of the object a name refers to. -/
structure Named (κ α : Type) where
  objs : List α
  names : κ → Option ℕ
  names_lt : ∀ name i, names name = some i → i < objs.length

namespace Named

variable {κ α : Type}

def empty : Named κ α := ⟨[], fun _ => none, fun _ _ h => nomatch h⟩

section

variable [DecidableEq κ]

def create (k : Named κ α) (name : κ) (a : α) : Named κ α where
  objs := k.objs ++ [a]
  names := Function.update k.names name (some k.objs.length)
  names_lt name' i hi := by
    rw [List.length_append, List.length_singleton]
    by_cases hname : name' = name
    · rw [hname, Function.update_self] at hi
      have hi := Option.some.inj hi
      omega
    · rw [Function.update_of_ne hname] at hi
      have hlt := k.names_lt name' i hi
      omega

def unlink (k : Named κ α) (name : κ) : Option (Named κ α) :=
  (k.names name).map fun _ =>
    { k with
      names := Function.update k.names name none
      names_lt := fun name' i hi => by
        by_cases hname : name' = name
        · rw [hname, Function.update_self] at hi
          cases hi
        · rw [Function.update_of_ne hname] at hi
          exact k.names_lt name' i hi }

end

/-- The object `i` becomes `a`. -/
def set (k : Named κ α) (i : ℕ) (a : α) : Named κ α where
  objs := k.objs.set i a
  names := k.names
  names_lt name j hj := by
    rw [List.length_set]
    exact k.names_lt name j hj

variable {k k' : Named κ α} {i : ℕ}

/-- An element of a list that has got a new last element. -/
theorem concat_cases {l : List α} {a b : α} (h : (l ++ [a])[i]? = some b) :
    l[i]? = some b ∨ (i = l.length ∧ b = a) := by
  rw [List.getElem?_append] at h
  split at h
  · exact Or.inl h
  · obtain ⟨hlt, hget⟩ := List.getElem?_eq_some_iff.mp h
    have hzero : i - l.length = 0 := by simpa using hlt
    refine Or.inr ⟨by omega, ?_⟩
    rw [← hget]
    simp

theorem set_length (k : Named κ α) (i : ℕ) (a : α) :
    (k.set i a).objs.length = k.objs.length := List.length_set

theorem set_cases {a b : α} {j : ℕ} (h : (k.set i a).objs[j]? = some b) :
    (j = i ∧ b = a) ∨ (j ≠ i ∧ k.objs[j]? = some b) := by
  by_cases hj : j = i
  · subst hj
    obtain ⟨hlt, hget⟩ := List.getElem?_eq_some_iff.mp h
    exact Or.inl ⟨rfl, by simpa [Named.set] using hget.symm⟩
  · refine Or.inr ⟨hj, ?_⟩
    rwa [Named.set, List.getElem?_set_ne (Ne.symm hj)] at h

section

variable [DecidableEq κ]

theorem create_length (k : Named κ α) (name : κ) (a : α) :
    (k.create name a).objs.length = k.objs.length + 1 := by
  rw [create, List.length_append, List.length_singleton]

theorem create_cases {name : κ} {a b : α} (h : (k.create name a).objs[i]? = some b) :
    k.objs[i]? = some b ∨ (i = k.objs.length ∧ b = a) := concat_cases h

theorem unlink_objs {name : κ} (h : k.unlink name = some k') : k'.objs = k.objs := by
  obtain ⟨_, -, rfl⟩ := Option.map_eq_some_iff.mp h
  rfl

/-! ## Objects without a name -/

theorem create_nameless (name : κ) (a : α) (hlt : i < k.objs.length)
    (h : ∀ name, k.names name ≠ some i) (name' : κ) : (k.create name a).names name' ≠ some i := by
  show Function.update k.names name (some k.objs.length) name' ≠ some i
  by_cases hname : name' = name
  · rw [hname, Function.update_self]
    intro heq
    have heq := Option.some.inj heq
    omega
  · rw [Function.update_of_ne hname]
    exact h name'

theorem unlink_nameless {name : κ} (hunlink : k.unlink name = some k')
    (h : ∀ name, k.names name ≠ some i) (name' : κ) : k'.names name' ≠ some i := by
  obtain ⟨_, -, rfl⟩ := Option.map_eq_some_iff.mp hunlink
  show Function.update k.names name none name' ≠ some i
  by_cases hname : name' = name
  · rw [hname, Function.update_self]
    exact nofun
  · rw [Function.update_of_ne hname]
    exact h name'

end

end Named
