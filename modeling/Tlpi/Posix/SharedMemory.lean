import Tlpi.Lib.Named
import Tlpi.Posix.Base

set_option autoImplicit false

/-! # Memory objects

A file or shared memory object that is mapped by several processes. A mapping consists of whole
pages: the last page goes on after the end of the object, and an access to a page that is entirely
after the end raises `SIGBUS`.
-/

namespace Tlpi

/-- The size of an object, and its bytes. What was stored in the last page after the end is kept in
`byte`, too. -/
structure MemObj where
  size : ℕ
  byte : Mem

namespace MemObj

/-- A new object. -/
def empty : MemObj := ⟨0, fun _ => 0⟩

/-- What `read` would return. -/
def contents (m : MemObj) : List UInt8 := m.byte.bytes m.size

/-- `ftruncate`. When an object is cut, the rest of its last page is cleared. When it is extended,
the new bytes are 0, or (`stale`) what was stored in the last page after the old end. -/
def ftruncate (m : MemObj) (len : ℕ) (stale : Bool) : MemObj where
  size := len
  byte i := if i < min m.size len ∨ (stale = true ∧ m.size ≤ len) then m.byte i else 0

/-- The page of the byte `i` has a part in the object. -/
def hasPage (page : ℕ) (m : MemObj) (i : ℕ) : Bool := decide (i / page * page < m.size)

/-- A byte is stored through a mapping. -/
def store (m : MemObj) (i : ℕ) (c : UInt8) : MemObj :=
  { m with byte := Function.update m.byte i c }

/-- The object holds the string `s`. -/
structure Holds (m : MemObj) (s : List UInt8) : Prop where
  size : m.size = s.length
  byte : ∀ i c, s[i]? = some c → m.byte i = c

variable {m : MemObj}

theorem ftruncate_byte (m : MemObj) (len : ℕ) (stale : Bool) (i : ℕ) :
    (m.ftruncate len stale).byte i = 0 ∨ (m.ftruncate len stale).byte i = m.byte i := by
  simp only [ftruncate]
  split
  · exact Or.inr rfl
  · exact Or.inl rfl

/-- A byte of the object is in one of its pages. -/
theorem hasPage_of_lt (page : ℕ) {i : ℕ} (h : i < m.size) : m.hasPage page i = true :=
  decide_eq_true ((Nat.div_mul_le_self i page).trans_lt h)

theorem store_byte_cases (m : MemObj) (k i : ℕ) (c : UInt8) :
    (i = k ∧ (m.store k c).byte i = c) ∨ (i ≠ k ∧ (m.store k c).byte i = m.byte i) := by
  show (i = k ∧ Function.update m.byte k c i = c) ∨
    (i ≠ k ∧ Function.update m.byte k c i = m.byte i)
  by_cases hi : i = k
  · rw [hi, Function.update_self]
    exact Or.inl ⟨rfl, rfl⟩
  · rw [Function.update_of_ne hi]
    exact Or.inr ⟨hi, rfl⟩

theorem Holds.contents {s : List UInt8} (h : m.Holds s) : m.contents = s := by
  rw [MemObj.contents, h.size]
  refine List.ext_getElem (Mem.bytes_length _ _) fun i hi hs => ?_
  have hbyte := h.byte i s[i] (List.getElem?_eq_getElem hs)
  simpa [Mem.bytes] using hbyte

end MemObj

abbrev ShmFs := Named (List UInt8) MemObj

namespace ShmFs

/-- `shm_open` with or without `O_CREAT` and `O_EXCL`: the object that was opened. -/
def shmOpen (k : ShmFs) (name : List UInt8) (creat excl : Bool) : Option (ℕ × ShmFs) :=
  match k.names name with
  | some i => if creat && excl then none else some (i, k)
  | none => if creat then some (k.objs.length, k.create name .empty) else none

def shmUnlink (k : ShmFs) (name : List UInt8) : Option ShmFs := k.unlink name

/-- Opening an object leaves the others as they are and at most adds an empty one. -/
inductive Opened (k : ShmFs) (name : List UInt8) : ℕ → ShmFs → Prop where
  | old (i : ℕ) (h : k.names name = some i) : Opened k name i k
  | new (h : k.names name = none) : Opened k name k.objs.length (k.create name .empty)

theorem shmOpen_cases {k k' : ShmFs} {name : List UInt8} {creat excl : Bool} {i : ℕ}
    (h : shmOpen k name creat excl = some (i, k')) : Opened k name i k' := by
  unfold shmOpen at h
  split at h
  · rename_i j hj
    split at h
    · cases h
    · obtain ⟨rfl, rfl⟩ := Prod.mk.inj (Option.some.inj h)
      exact .old _ hj
  · rename_i hnone
    split at h
    · obtain ⟨rfl, rfl⟩ := Prod.mk.inj (Option.some.inj h)
      exact .new hnone
    · cases h

/-- What the objects are after one was opened. -/
theorem Opened.objs_cases {k k' : ShmFs} {name : List UInt8} {i j : ℕ} {m : MemObj}
    (h : Opened k name i k') (hm : k'.objs[j]? = some m) : k.objs[j]? = some m ∨ m = .empty := by
  cases h with
  | old i h => exact Or.inl hm
  | new h =>
      rcases Named.create_cases hm with hold | ⟨-, heq⟩
      · exact Or.inl hold
      · exact Or.inr heq

theorem Opened.lt {k k' : ShmFs} {name : List UInt8} {i : ℕ} (h : Opened k name i k') :
    i < k'.objs.length := by
  cases h with
  | old i h => exact k.names_lt name i h
  | new h =>
      rw [Named.create_length]
      exact Nat.lt_succ_self _

/-- The objects that there were are still there. -/
theorem Opened.getElem? {k k' : ShmFs} {name : List UInt8} {i j : ℕ} (h : Opened k name i k')
    (hj : j < k.objs.length) : k'.objs[j]? = k.objs[j]? := by
  cases h with
  | old i h => rfl
  | new h => exact List.getElem?_append_left hj

theorem Opened.length_le {k k' : ShmFs} {name : List UInt8} {i : ℕ} (h : Opened k name i k') :
    k.objs.length ≤ k'.objs.length := by
  cases h with
  | old i h => exact le_rfl
  | new h =>
      rw [Named.create_length]
      exact Nat.le_succ _

end ShmFs

end Tlpi
