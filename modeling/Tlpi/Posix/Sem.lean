import Tlpi.Lib.Named
import Tlpi.Posix.Base

set_option autoImplicit false

/-! # Named semaphores

The processes that have opened a semaphore keep it when its name is unlinked. A process that finds
the value 0 in `sem_wait` goes to sleep. `sem_post` adds 1 and then wakes one of the sleepers, which
looks at the value again: another process may have been faster.
-/

namespace Tlpi

def SEM_VALUE_MAX : ℕ := 2147483647

/-- A semaphore; `init` is the value it was created with. Of the processes that went to sleep on it,
`asleep` have not been woken, and `woken` have and have not gone on yet. -/
structure Sem where
  value : ℕ
  init : ℕ
  asleep : ℕ
  woken : ℕ
  value_le : value ≤ SEM_VALUE_MAX

namespace Sem

variable {s s' : Sem}

/-- A look at the value: take 1, or go to sleep. -/
def wait (s : Sem) : Bool × Sem :=
  if 0 < s.value then
    (true, { s with
      value := s.value - 1
      value_le := (Nat.sub_le _ _).trans s.value_le })
  else (false, { s with asleep := s.asleep + 1 })

/-- A process that was woken looks again. -/
def resume (s : Sem) : Option (Bool × Sem) :=
  if 0 < s.woken then some (wait { s with woken := s.woken - 1 }) else none

/-- The first half of `sem_post`, which fails if the value would become too large. -/
def post (s : Sem) : Option Sem :=
  if h : s.value < SEM_VALUE_MAX then
    some { s with
      value := s.value + 1
      value_le := h }
  else none

/-- The second half of `sem_post`. -/
def wake (s : Sem) : Sem :=
  if 0 < s.asleep then { s with asleep := s.asleep - 1, woken := s.woken + 1 } else s

/-- A process ends that has been woken or is still asleep. -/
def leave (woken : Bool) (s : Sem) : Option Sem :=
  if woken then if 0 < s.woken then some { s with woken := s.woken - 1 } else none
  else if 0 < s.asleep then some { s with asleep := s.asleep - 1 } else none

/-- What a look at the value does: `got` is 1 for a process that has taken a unit, and else it is
asleep. -/
structure Looked (s : Sem) (got : Bool) (s' : Sem) : Prop where
  init : s'.init = s.init
  value : s.value = s'.value + (if got then 1 else 0)
  asleep : s'.asleep = s.asleep + (if got then 0 else 1)
  empty : got = false → s'.value = 0

theorem wait_looked (s : Sem) : Looked s s.wait.1 s.wait.2 := by
  unfold wait
  split
  · rename_i hpos
    exact ⟨rfl, (Nat.succ_pred_eq_of_pos hpos).symm, rfl, nofun⟩
  · rename_i hzero
    exact ⟨rfl, rfl, rfl, fun _ => Nat.eq_zero_of_not_pos hzero⟩

theorem wait_woken (s : Sem) : s.wait.2.woken = s.woken := by
  unfold wait
  split <;> rfl

theorem resume_looked {got : Bool} (h : s.resume = some (got, s')) :
    Looked s got s' ∧ s.woken = s'.woken + 1 := by
  unfold resume at h
  split at h
  · rename_i hpos
    have hwait := Option.some.inj h
    have hlooked := wait_looked { s with woken := s.woken - 1 }
    have hwoken := wait_woken { s with woken := s.woken - 1 }
    rw [hwait] at hlooked hwoken
    refine ⟨⟨hlooked.init, hlooked.value, hlooked.asleep, hlooked.empty⟩, ?_⟩
    simp only at hwoken
    omega
  · cases h

theorem post_spec (h : s.post = some s') :
    s'.value = s.value + 1 ∧ s'.init = s.init ∧ s'.asleep = s.asleep ∧ s'.woken = s.woken := by
  unfold post at h
  split at h
  · obtain rfl := Option.some.inj h
    exact ⟨rfl, rfl, rfl, rfl⟩
  · cases h

theorem wake_spec (s : Sem) :
    s.wake.value = s.value ∧ s.wake.init = s.init ∧
      ((s.asleep = s.wake.asleep + 1 ∧ s.wake.woken = s.woken + 1) ∨
        (s.asleep = 0 ∧ s.wake.asleep = 0 ∧ s.wake.woken = s.woken)) := by
  unfold wake
  split
  · exact ⟨rfl, rfl, Or.inl ⟨by simp only; omega, rfl⟩⟩
  · exact ⟨rfl, rfl, Or.inr ⟨by omega, by omega, rfl⟩⟩

theorem leave_spec {woken : Bool} (h : s.leave woken = some s') :
    s'.value = s.value ∧ s'.init = s.init ∧ s.asleep + s.woken = s'.asleep + s'.woken + 1 ∧
      s'.asleep ≤ s.asleep ∧ (woken = false → s'.woken = s.woken) := by
  unfold leave at h
  split at h
  · rename_i hwoken
    split at h
    · obtain rfl := Option.some.inj h
      refine ⟨rfl, rfl, by simp only; omega, le_rfl, fun hfalse => ?_⟩
      rw [hfalse] at hwoken
      cases hwoken
    · cases h
  · split at h
    · obtain rfl := Option.some.inj h
      exact ⟨rfl, rfl, by simp only; omega, Nat.sub_le _ _, fun _ => rfl⟩
    · cases h

end Sem

abbrev SemFs := Named (List UInt8) Sem

namespace SemFs

/-- The most bytes of a semaphore's name in its file system, which puts `sem.` before it. -/
def NAME_LEN : ℕ := 251

/-- `sem_open` with or without `O_CREAT` and `O_EXCL`: the semaphore that was opened. -/
def semOpen (k : SemFs) (name : List UInt8) (creat excl : Bool) (value : ℕ) :
    Option (ℕ × SemFs) :=
  (objectName NAME_LEN name).bind fun name =>
    match k.names name with
    | some i => if creat && excl then none else some (i, k)
    | none =>
        if creat then
          if h : value ≤ SEM_VALUE_MAX then
            some (k.objs.length, k.create name ⟨value, value, 0, 0, h⟩)
          else none
        else none

/-- `sem_wait`: whether the process has taken a unit, or sleeps. -/
def semWait (k : SemFs) (i : ℕ) : Option (Bool × SemFs) :=
  (k.objs[i]?).map fun s => (s.wait.1, k.set i s.wait.2)

/-- A sleeping process goes on in `sem_wait`. -/
def semResume (k : SemFs) (i : ℕ) : Option (Bool × SemFs) :=
  (k.objs[i]?).bind fun s => s.resume.map fun r => (r.1, k.set i r.2)

/-- `sem_post`, before it wakes a process. -/
def semPost (k : SemFs) (i : ℕ) : Option SemFs :=
  (k.objs[i]?).bind fun s => s.post.map (k.set i)

def semWake (k : SemFs) (i : ℕ) : Option SemFs := (k.objs[i]?).map fun s => k.set i s.wake

/-- A process that sleeps in `sem_wait` ends. -/
def semLeave (k : SemFs) (i : ℕ) (woken : Bool) : Option SemFs :=
  (k.objs[i]?).bind fun s => (s.leave woken).map (k.set i)

def semUnlink (k : SemFs) (name : List UInt8) : Option SemFs :=
  (objectName NAME_LEN name).bind k.unlink

/-! ## What the calls do -/

variable {k k' : SemFs} {i : ℕ}

/-- Opening a semaphore leaves the values as they are and at most adds a semaphore. -/
inductive Opened (k : SemFs) (name : List UInt8) : ℕ → SemFs → Prop where
  | old (i : ℕ) (h : k.names name = some i) : Opened k name i k
  | new (value : ℕ) (h : value ≤ SEM_VALUE_MAX) (hnone : k.names name = none) :
      Opened k name k.objs.length (k.create name ⟨value, value, 0, 0, h⟩)

theorem semOpen_cases {name : List UInt8} {creat excl : Bool} {value : ℕ}
    (h : semOpen k name creat excl value = some (i, k')) : ∃ n, Opened k n i k' := by
  obtain ⟨n, -, h⟩ := Option.bind_eq_some_iff.mp h
  refine ⟨n, ?_⟩
  split at h
  · rename_i j hj
    split at h
    · cases h
    · obtain ⟨rfl, rfl⟩ := Prod.mk.inj (Option.some.inj h)
      exact .old _ hj
  · rename_i hnone
    split at h
    · split at h
      · rename_i hle
        obtain ⟨rfl, rfl⟩ := Prod.mk.inj (Option.some.inj h)
        exact .new value hle hnone
      · cases h
    · cases h

/-- Without `O_CREAT` only a semaphore that has a name can be opened. -/
theorem semOpen_existing {name : List UInt8} {excl : Bool} {value : ℕ}
    (h : semOpen k name false excl value = some (i, k')) :
    (∃ n, k.names n = some i) ∧ k' = k := by
  obtain ⟨n, -, h⟩ := Option.bind_eq_some_iff.mp h
  split at h
  · rename_i j hj
    rw [Bool.false_and, if_neg Bool.false_ne_true] at h
    obtain ⟨rfl, rfl⟩ := Prod.mk.inj (Option.some.inj h)
    exact ⟨⟨n, hj⟩, rfl⟩
  · rw [if_neg Bool.false_ne_true] at h
    cases h

end SemFs

end Tlpi
