import Mathlib.Tactic
import Mathlib.Data.Int.ModEq
import Mathlib.Data.List.TakeWhile

set_option autoImplicit false

/-! # Bytes, C strings and results of system calls

What the modelled programs share: error numbers, memory behind a `char *`, C strings, and what
successive calls of `read` on a descriptor return. A `char` is a `UInt8`. A C string is the list
of its characters without the terminating NUL.
-/

namespace Tlpi

/-- The values of `errno` the programs look at; every other one is `other`. -/
inductive Errno where
  | EINTR
  | EINVAL
  | EAGAIN
  | EBUSY
  | EEXIST
  | other (code : ℕ)
deriving DecidableEq, Repr

/-! The exit statuses of a program. -/

def EXIT_SUCCESS : ℕ := 0
def EXIT_FAILURE : ℕ := 1

theorem EXIT_FAILURE_ne_EXIT_SUCCESS : EXIT_FAILURE ≠ EXIT_SUCCESS := by decide

/-- The memory behind a `char *`: the byte at each offset. -/
abbrev Mem := ℕ → UInt8

/-- A character constant of the source. -/
def chr (c : Char) : UInt8 := UInt8.ofNat c.toNat

/-- A string literal of the source. -/
def str (s : String) : List UInt8 := s.toList.map chr

/-- `'\n'`. -/
def newline : UInt8 := 10

/-- The first `k` bytes of a buffer. -/
def Mem.bytes (mem : Mem) (k : ℕ) : List UInt8 := (List.range k).map mem

/-- The C string in a buffer of `size` bytes: its bytes up to the first NUL. -/
def Mem.cString (mem : Mem) (size : ℕ) : List UInt8 := (mem.bytes size).takeWhile (· != 0)

/-- The name of a shared memory object or a semaphore in its file system: without the leading
slashes, with no further one, and with at most `len` bytes. -/
def objectName (len : ℕ) (name : List UInt8) : Option (List UInt8) :=
  let stem := name.dropWhile (· == chr '/')
  if stem = [] ∨ chr '/' ∈ stem ∨ len < stem.length then none else some stem

/-- The memory with `cs` stored from offset `i` on. -/
def store (buf : Mem) (i : ℕ) : List UInt8 → Mem
  | [] => buf
  | c :: cs => store (Function.update buf i c) (i + 1) cs

/-- The C string `snprintf` leaves in a buffer of `size` bytes for a formatted text: a text that
does not fit with its NUL is cut to `size - 1` bytes. -/
def snprintf (size : ℕ) (text : List UInt8) : List UInt8 := text.take (size - 1)

/-- What one call `read(fd, &ch, 1)` returns when it does not return 0. -/
inductive ReadResult where
  | byte (ch : UInt8)
  | err (e : Errno)
deriving DecidableEq, Repr

namespace ReadResult

/-- The byte of a successful read. -/
def byte? : ReadResult → Option UInt8
  | byte ch => some ch
  | err _ => none

/-- A read that returned a byte or was interrupted by a signal handler. -/
def isClean : ReadResult → Bool
  | byte _ => true
  | err e => e == .EINTR

end ReadResult

/-- A descriptor as the results of the successive one-byte reads on it; after the last one every
read returns 0 (end of file). -/
abbrev Stream := List ReadResult

/-- The bytes a stream delivers. -/
def Stream.data (fd : Stream) : List UInt8 := fd.filterMap ReadResult.byte?

/-- A stream without read errors; interruptions (`EINTR`) may stand anywhere in it. -/
def Stream.Clean (fd : Stream) : Prop := ∀ r ∈ fd, r.isClean = true

instance (fd : Stream) : Decidable fd.Clean := inferInstanceAs (Decidable (∀ r ∈ fd, _))

@[simp] theorem Stream.data_nil : Stream.data [] = [] := rfl

@[simp] theorem Stream.data_byte (ch : UInt8) (fd : Stream) :
    Stream.data (.byte ch :: fd) = ch :: Stream.data fd := rfl

@[simp] theorem Stream.data_err (e : Errno) (fd : Stream) :
    Stream.data (.err e :: fd) = Stream.data fd := rfl

theorem Mem.bytes_length (mem : Mem) (k : ℕ) : (mem.bytes k).length = k := by
  simp [Mem.bytes]

theorem Mem.bytes_congr {mem mem' : Mem} {k : ℕ} (h : ∀ i < k, mem i = mem' i) :
    mem.bytes k = mem'.bytes k := by
  refine List.map_congr_left fun i hi => h i ?_
  exact List.mem_range.mp hi

theorem store_of_lt {buf : Mem} {i j : ℕ} {cs : List UInt8} (h : j < i) :
    store buf i cs j = buf j := by
  induction cs generalizing buf i with
  | nil => rfl
  | cons c cs ih => rw [store, ih (by omega), Function.update_of_ne (by omega)]

theorem store_of_ge {buf : Mem} {i j : ℕ} {cs : List UInt8} (h : i + cs.length ≤ j) :
    store buf i cs j = buf j := by
  induction cs generalizing buf i with
  | nil => rfl
  | cons c cs ih =>
      rw [List.length_cons] at h
      rw [store, ih (by omega), Function.update_of_ne (by omega)]

theorem store_getElem {buf : Mem} {i k : ℕ} {cs : List UInt8} (h : k < cs.length) :
    store buf i cs (i + k) = cs[k] := by
  induction cs generalizing buf i k with
  | nil => exact absurd h (by simp)
  | cons c cs ih =>
      rw [store]
      cases k with
      | zero => rw [store_of_lt (by omega), Nat.add_zero, Function.update_self]; rfl
      | succ k =>
          rw [show i + (k + 1) = (i + 1) + k by omega, ih (by simpa using h)]
          rfl

theorem bytes_store (buf : Mem) (cs : List UInt8) : (store buf 0 cs).bytes cs.length = cs := by
  refine List.ext_getElem (Mem.bytes_length _ _) fun k hk hk' => ?_
  have hget := @store_getElem buf 0 k cs hk'
  simpa [Mem.bytes] using hget

theorem bytes_update_store (buf : Mem) (cs : List UInt8) (c : UInt8) :
    Mem.bytes (Function.update (store buf 0 cs) cs.length c) cs.length = cs := by
  have hcongr : Mem.bytes (Function.update (store buf 0 cs) cs.length c) cs.length
      = (store buf 0 cs).bytes cs.length :=
    Mem.bytes_congr fun i hi => Function.update_of_ne (by omega) _ _
  rw [hcongr, bytes_store]

/-- Bytes after a NUL are not part of the C string. -/
theorem Mem.cString_of_nul {mem : Mem} {k size : ℕ} (hk : k < size) (hnul : mem k = 0) :
    mem.cString size = (mem.bytes k).takeWhile (· != 0) := by
  have hsplit : mem.bytes size
      = mem.bytes k ++ 0 :: (List.range (size - k - 1)).map (fun i => mem (k + 1 + i)) := by
    rw [Mem.bytes, show size = k + (1 + (size - k - 1)) by omega,
      List.range_add, List.map_append, List.range_add]
    simp [Mem.bytes, hnul, Function.comp_def, Nat.add_assoc]
  rw [Mem.cString, hsplit, List.takeWhile_append]
  split
  · rename_i hall
    simp [List.IsPrefix.eq_of_length (List.takeWhile_prefix _) hall]
  · rfl

theorem takeWhile_ne_of_not_mem {c : UInt8} {text : List UInt8} (h : c ∉ text) :
    text.takeWhile (· != c) = text := by
  rw [List.takeWhile_eq_self_iff]
  intro x hx
  have hne : x ≠ c := fun heq => h (heq ▸ hx)
  simpa using hne

/-- A text without NUL is its own C string. -/
theorem takeWhile_of_no_nul {text : List UInt8} (h : (0 : UInt8) ∉ text) :
    text.takeWhile (· != 0) = text := takeWhile_ne_of_not_mem h

theorem snprintf_of_lt {size : ℕ} {text : List UInt8} (h : text.length < size) :
    snprintf size text = text := List.take_of_length_le (by omega)

/-! ## Machine integers

An `int` or `uint32_t` is a `BitVec 32`, read as signed by `toInt` and as unsigned by `toNat`. -/

theorem toInt_bounds (x : BitVec 32) : -2 ^ 31 ≤ x.toInt ∧ x.toInt < 2 ^ 31 := by
  have h1 := BitVec.le_toInt x
  have h2 := @BitVec.toInt_lt 32 x
  norm_num at h1 h2
  constructor <;> omega

theorem toInt_modEq_toNat (x : BitVec 32) : x.toInt ≡ x.toNat [ZMOD 2 ^ 32] := by
  rw [BitVec.toInt_eq_toNat_cond]
  unfold Int.ModEq
  split <;> omega

theorem toInt_eq_toNat_of_nonneg {x : BitVec 32} (h : 0 ≤ x.toInt) : x.toInt = x.toNat := by
  have hlt := x.isLt
  rw [BitVec.toInt_eq_toNat_cond] at h ⊢
  split at h <;> split <;> omega

/-- Adding an `int` to an unsigned counter, with wrap-around. -/
theorem toNat_add_modEq (x y : BitVec 32) :
    ((x + y).toNat : ℤ) ≡ x.toNat + y.toInt [ZMOD 2 ^ 32] := by
  have hadd : ((x + y).toNat : ℤ) ≡ x.toNat + y.toNat [ZMOD 2 ^ 32] := by
    rw [BitVec.toNat_add]
    push_cast
    exact Int.mod_modEq _ _
  calc ((x + y).toNat : ℤ) ≡ x.toNat + y.toNat [ZMOD 2 ^ 32] := hadd
    _ ≡ x.toNat + y.toInt [ZMOD 2 ^ 32] := (toInt_modEq_toNat y).symm.add_left _

end Tlpi
