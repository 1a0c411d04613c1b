import Mathlib.Data.Finset.Card
import Mathlib.Tactic

set_option autoImplicit false

/-! # Descriptor tables

The open descriptors of a process are a finite set of numbers. A call that opens a descriptor gets
the lowest number that is not in use.
-/

namespace Tlpi

/-- The lowest number that is not an open descriptor; one of the first `fds.card + 1` is not. -/
def lowestFd (fds : Finset ℕ) : ℕ :=
  ((List.range (fds.card + 1)).find? fun fd => decide (fd ∉ fds)).getD 0

theorem lowestFd_notMem (fds : Finset ℕ) : lowestFd fds ∉ fds := by
  have hcard : fds.card < (Finset.range (fds.card + 1)).card := by
    rw [Finset.card_range]
    exact Nat.lt_succ_self _
  obtain ⟨fd, hrange, hfd⟩ := Finset.exists_mem_notMem_of_card_lt_card hcard
  have hsome : ((List.range (fds.card + 1)).find? fun fd => decide (fd ∉ fds)).isSome := by
    rw [List.find?_isSome]
    exact ⟨fd, List.mem_range.mpr (Finset.mem_range.mp hrange), by simpa using hfd⟩
  obtain ⟨found, hfound⟩ := Option.isSome_iff_exists.mp hsome
  rw [lowestFd, hfound]
  simpa using List.find?_some hfound

theorem lowestFd_eq_zero {fds : Finset ℕ} (h : 0 ∉ fds) : lowestFd fds = 0 := by
  rw [lowestFd, List.range_succ_eq_map, List.find?_cons_of_pos (by simpa using h)]
  rfl

/-! ## What a descriptor refers to -/

/-- A descriptor table: the open descriptors and the file each of them refers to. -/
structure FdTable (α : Type) where
  fds : Finset ℕ
  file : ℕ → Option α
  mem_fds : ∀ fd, fd ∈ fds ↔ (file fd).isSome = true

namespace FdTable

variable {α : Type} (t : FdTable α)

theorem ext_file {t u : FdTable α} (h : t.file = u.file) : t = u := by
  have hfds : t.fds = u.fds := by
    ext fd
    rw [t.mem_fds, u.mem_fds, h]
  cases t
  cases u
  simp only at h hfds
  subst h hfds
  rfl

def empty : FdTable α := ⟨∅, fun _ => none, fun fd => by simp⟩

/-- The descriptor `fd` refers to the file `f`, whatever it was before. -/
def set (fd : ℕ) (f : α) : FdTable α where
  fds := insert fd t.fds
  file := Function.update t.file fd (some f)
  mem_fds fd' := by
    by_cases h : fd' = fd
    · simp [h]
    · simp [h, t.mem_fds]

def close (fd : ℕ) : FdTable α where
  fds := t.fds.erase fd
  file := Function.update t.file fd none
  mem_fds fd' := by
    by_cases h : fd' = fd
    · simp [h]
    · simp [h, t.mem_fds]

/-- The descriptors from the number `n` on. -/
def keepFrom (n : ℕ) : FdTable α where
  fds := t.fds.filter fun fd => n ≤ fd
  file fd := if n ≤ fd then t.file fd else none
  mem_fds fd := by
    by_cases h : n ≤ fd
    · simp [h, t.mem_fds]
    · simp [h]

/-- A new descriptor for the file `f` gets the lowest number that is not in use. -/
def alloc (f : α) : ℕ × FdTable α := (lowestFd t.fds, t.set (lowestFd t.fds) f)

/-- `dup2`, which fails if `old` is not open. -/
def dup2 (old new : ℕ) : Option (FdTable α) := (t.file old).map fun f => t.set new f

@[simp] theorem set_file (fd : ℕ) (f : α) :
    (t.set fd f).file = Function.update t.file fd (some f) := rfl

@[simp] theorem close_file (fd : ℕ) : (t.close fd).file = Function.update t.file fd none := rfl

@[simp] theorem empty_file (fd : ℕ) : (empty : FdTable α).file fd = none := rfl

theorem file_eq_none {fd : ℕ} : t.file fd = none ↔ fd ∉ t.fds := by
  rw [t.mem_fds, Option.not_isSome_iff_eq_none]

theorem file_lowestFd : t.file (lowestFd t.fds) = none :=
  t.file_eq_none.mpr (lowestFd_notMem t.fds)

/-- A descriptor that was free is free again once it is closed. -/
theorem close_set (fd : ℕ) (f : α) (h : t.file fd = none) : (t.set fd f).close fd = t := by
  apply ext_file
  rw [close_file, set_file, Function.update_idem, ← h, Function.update_eq_self]

theorem close_set_of_ne {fd fd' : ℕ} (f : α) (h : fd ≠ fd') :
    (t.set fd' f).close fd = (t.close fd).set fd' f := by
  apply ext_file
  simp only [close_file, set_file]
  rw [Function.update_comm h.symm]

theorem set_close (fd : ℕ) (f : α) : (t.close fd).set fd f = t.set fd f := by
  apply ext_file
  rw [set_file, close_file, Function.update_idem, set_file]

theorem keepFrom_zero : t.keepFrom 0 = t := by
  apply ext_file
  funext fd
  simp [keepFrom]

/-- One descriptor more is closed. -/
theorem keepFrom_close (n : ℕ) : (t.keepFrom n).close n = t.keepFrom (n + 1) := by
  apply ext_file
  funext fd
  by_cases h : fd = n
  · simp [keepFrom, h]
  · have hlt : n ≤ fd ↔ n + 1 ≤ fd := by omega
    rw [close_file, Function.update_of_ne h]
    simp only [keepFrom, hlt]

/-- Some descriptor refers to the file. -/
def Holds (f : α) : Prop := ∃ fd ∈ t.fds, t.file fd = some f

instance [DecidableEq α] (f : α) : Decidable (t.Holds f) :=
  inferInstanceAs (Decidable (∃ fd ∈ t.fds, t.file fd = some f))

theorem holds_iff (f : α) : t.Holds f ↔ ∃ fd, t.file fd = some f := by
  constructor
  · rintro ⟨fd, -, h⟩
    exact ⟨fd, h⟩
  · rintro ⟨fd, h⟩
    exact ⟨fd, (t.mem_fds fd).mpr (by rw [h]; rfl), h⟩

theorem holds_set (fd : ℕ) (f : α) : (t.set fd f).Holds f := by
  rw [holds_iff]
  exact ⟨fd, by rw [set_file, Function.update_self]⟩

theorem not_holds_empty (f : α) : ¬ (empty : FdTable α).Holds f := by
  rw [holds_iff]
  rintro ⟨fd, h⟩
  cases h

/-- A descriptor that refers to another file does not make a table hold `f`. -/
theorem not_holds_set {t : FdTable α} (fd : ℕ) {f f' : α} (hne : f' ≠ f) (h : ¬ t.Holds f) :
    ¬ (t.set fd f').Holds f := by
  rw [holds_iff] at h ⊢
  rintro ⟨fd', hfile⟩
  by_cases hfd : fd' = fd
  · rw [hfd, set_file, Function.update_self] at hfile
    exact hne (Option.some.inj hfile)
  · rw [set_file, Function.update_of_ne hfd] at hfile
    exact h ⟨fd', hfile⟩

end FdTable

end Tlpi
