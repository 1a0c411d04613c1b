import Tlpi.Lib.Decimal
import Tlpi.Posix.Base

set_option autoImplicit false

/-! # A string in shared memory (posix_shared_memory/pshm_write.c, pshm_read.c)

`pshm_write` resizes a shared memory object to the length of a string, maps it and copies the string
into it; `pshm_read` maps an object and writes it to standard output. An object is the list of its
bytes.

Nothing is undone when a call fails: what `ftruncate` has cut off stays cut off. A mapping of length
0 is refused by `mmap`, so that the empty string cannot be written.
-/

namespace Tlpi.Pshm

open Decimal

/-- `ftruncate(fd, len)`: the object is cut, or extended with NUL bytes. -/
def ftruncate (object : List UInt8) (len : ℕ) : List UInt8 :=
  object.take len ++ List.replicate (len - object.length) 0

/-- `mmap` of `len` bytes succeeds; `ok` stands for whatever else it depends on. -/
def mmap (len : ℕ) (ok : Bool) : Bool := ok && decide (0 < len)

/-- `memcpy(addr, s, len)` into a mapping of the object. -/
def memcpy (object s : List UInt8) (len : ℕ) : List UInt8 := s.take len ++ object.drop len

/-- The end of a program, and the object then. -/
structure Result where
  status : ℕ
  stdout : List UInt8
  stderr : List UInt8
  object : List UInt8
deriving DecidableEq, Repr

/-! ## pshm_write -/

/-- Which of the calls of pshm_write succeed. -/
structure WriteCalls where
  shmOpen : Bool
  ftruncate : Bool
  mmap : Bool
  close : Bool
deriving DecidableEq, Repr

/-- `printf("Resized to %ld bytes\n", (long) len)`. -/
def resizedText (len : ℕ) : List UInt8 := str "Resized to " ++ numeral len ++ str " bytes\n"

/-- `printf("copying %ld bytes \n", (long) len)`. -/
def copyingText (len : ℕ) : List UInt8 := str "copying " ++ numeral len ++ str " bytes \n"

def pshmWrite (argv : List (List UInt8)) (calls : WriteCalls) (object : List UInt8) : Result :=
  match argv with
  | [_, name, s] =>
      if name = str "--help" then
        ⟨EXIT_FAILURE, [], str "invalid command line arguments", object⟩
      else if calls.shmOpen = false then ⟨EXIT_FAILURE, [], str "shm_+open", object⟩
      else
        let len := s.length
        if calls.ftruncate = false then ⟨EXIT_FAILURE, [], str "ftruncate", object⟩
        else
          -- from here on the old content is gone
          let object := ftruncate object len
          if mmap len calls.mmap = false then
            ⟨EXIT_FAILURE, resizedText len, str "mmap", object⟩
          else if calls.close = false then
            ⟨EXIT_FAILURE, resizedText len, str "close", object⟩
          else ⟨EXIT_SUCCESS, resizedText len ++ copyingText len, [], memcpy object s len⟩
  | _ => ⟨EXIT_FAILURE, [], str "invalid command line arguments", object⟩

/-! ## pshm_read -/

/-- Which of the calls of pshm_read succeed; `write` is what `write` returns, `none` for -1. -/
structure ReadCalls where
  shmOpen : Bool
  fstat : Bool
  mmap : Bool
  close : Bool
  write : Option ℕ
deriving DecidableEq, Repr

def pshmRead (argv : List (List UInt8)) (calls : ReadCalls) (object : List UInt8) : Result :=
  let usage : Result :=
    ⟨EXIT_FAILURE, [], argv.headD [] ++ str " shm-name\n", object⟩
  match argv with
  | [_, name] =>
      if name = str "--help" then usage
      else if calls.shmOpen = false then ⟨EXIT_FAILURE, [], str "shm_open", object⟩
      else if calls.fstat = false then ⟨EXIT_FAILURE, [], str "fstat", object⟩
      else if mmap object.length calls.mmap = false then ⟨EXIT_FAILURE, [], str "mmap", object⟩
      else if calls.close = false then ⟨EXIT_FAILURE, [], str "close", object⟩
      else ⟨EXIT_SUCCESS, object.take (calls.write.getD 0) ++ str "\n", [], object⟩
  | _ => usage

/-- All calls of pshm_read succeed, and `write` writes everything. -/
def ReadCalls.succeed (object : List UInt8) : ReadCalls :=
  ⟨true, true, true, true, some object.length⟩

/-! ## What is left in the object -/

/-- All or nothing: the string is in the object, or the object is as before. -/
def AllOrNothing (s object : List UInt8) (r : Result) : Prop :=
  (r.status = EXIT_SUCCESS ∧ r.object = s) ∨ (r.status = EXIT_FAILURE ∧ r.object = object)

variable (argv0 name s object : List UInt8) (calls : WriteCalls)

/-- The string gets into the object. -/
def Succeeds : Prop :=
  name ≠ str "--help" ∧ calls = ⟨true, true, true, true⟩ ∧ s ≠ []

/-- The program does not come to resize the object. -/
def StopsEarly : Prop :=
  name = str "--help" ∨ calls.shmOpen = false ∨ calls.ftruncate = false

@[simp] theorem length_ftruncate (len : ℕ) : (ftruncate object len).length = len := by
  rw [ftruncate, List.length_append, List.length_take, List.length_replicate]
  omega

/-- The string overwrites all of an object of its length. -/
theorem memcpy_ftruncate : memcpy (ftruncate object s.length) s s.length = s := by
  rw [memcpy, List.take_length, List.drop_of_length_le (length_ftruncate _ _).le, List.append_nil]

/-- The ways `pshmWrite` can end, and the object in each. -/
theorem pshmWrite_cases :
    (StopsEarly name calls ∧
      (pshmWrite [argv0, name, s] calls object).status = EXIT_FAILURE ∧
      (pshmWrite [argv0, name, s] calls object).object = object) ∨
    (¬ StopsEarly name calls ∧ ¬ Succeeds name s calls ∧
      (pshmWrite [argv0, name, s] calls object).status = EXIT_FAILURE ∧
      (pshmWrite [argv0, name, s] calls object).object = ftruncate object s.length) ∨
    (Succeeds name s calls ∧
      (pshmWrite [argv0, name, s] calls object).status = EXIT_SUCCESS ∧
      (pshmWrite [argv0, name, s] calls object).object = s) := by
  obtain ⟨shmOpen, ftruncateOk, mmapOk, close⟩ := calls
  simp only [pshmWrite]
  by_cases hname : name = str "--help"
  · rw [if_pos hname]
    exact Or.inl ⟨Or.inl hname, rfl, rfl⟩
  rw [if_neg hname]
  cases shmOpen with
  | false => exact Or.inl ⟨Or.inr (Or.inl rfl), rfl, rfl⟩
  | true =>
  cases ftruncateOk with
  | false => exact Or.inl ⟨Or.inr (Or.inr rfl), rfl, rfl⟩
  | true =>
  have hgoes : ¬ StopsEarly name ⟨true, true, mmapOk, close⟩ := by simp [StopsEarly, hname]
  by_cases hmap : mmap s.length mmapOk = false
  · refine Or.inr (Or.inl ⟨hgoes, ?_⟩)
    have hfails : ¬ Succeeds name s ⟨true, true, mmapOk, close⟩ := by
      rintro ⟨-, hcalls, hs⟩
      obtain ⟨-, -, rfl, -⟩ := WriteCalls.mk.inj hcalls
      rw [mmap, Bool.true_and, decide_eq_false_iff_not] at hmap
      exact hmap (List.length_pos_of_ne_nil hs)
    simp [hmap, hfails]
  · have hlen : mmapOk = true ∧ s ≠ [] := by
      simpa [mmap, List.length_pos_iff] using hmap
    cases close with
    | false => exact Or.inr (Or.inl ⟨hgoes, by simp [Succeeds], by simp [hmap], by simp [hmap]⟩)
    | true =>
        refine Or.inr (Or.inr ⟨⟨hname, by rw [hlen.1], hlen.2⟩, ?_⟩)
        simp [hmap, memcpy_ftruncate]

theorem pshmRead_succeed (hname : name ≠ str "--help") (hs : s ≠ []) :
    (pshmRead [argv0, name] (.succeed s) s).stdout = s ++ str "\n" := by
  have hpos := List.length_pos_of_ne_nil hs
  simp [pshmRead, hname, ReadCalls.succeed, mmap, hs]

/-- **Writing a string.** If pshm_write succeeds, then the object is the string, and this is what
pshm_read outputs. If it fails, then the object is as before when `shm_open` or `ftruncate` failed
(or there was none of these calls), and otherwise the old content, cut off or extended with NUL
bytes to the length of the string. It succeeds exactly if all calls do and the string is not
empty. -/
theorem pshm_write_outcome (argv1 : List UInt8) :
    ((pshmWrite [argv0, name, s] calls object).status = EXIT_SUCCESS ↔ Succeeds name s calls) ∧
    (((pshmWrite [argv0, name, s] calls object).status = EXIT_SUCCESS ∧
        (pshmWrite [argv0, name, s] calls object).object = s ∧
        (pshmRead [argv1, name] (.succeed s)
          (pshmWrite [argv0, name, s] calls object).object).stdout = s ++ str "\n") ∨
      ((pshmWrite [argv0, name, s] calls object).status = EXIT_FAILURE ∧
        (StopsEarly name calls → (pshmWrite [argv0, name, s] calls object).object = object) ∧
        (¬ StopsEarly name calls →
          (pshmWrite [argv0, name, s] calls object).object = ftruncate object s.length))) := by
  rcases pshmWrite_cases argv0 name s object calls with
    ⟨hstop, hstatus, hobject⟩ | ⟨hgoes, hfails, hstatus, hobject⟩ | ⟨hsucceeds, hstatus, hobject⟩
  · have hfails : ¬ Succeeds name s calls := by
      rintro ⟨hname, rfl, -⟩
      simp [StopsEarly, hname] at hstop
    rw [hstatus, hobject]
    exact ⟨iff_of_false EXIT_FAILURE_ne_EXIT_SUCCESS hfails,
      Or.inr ⟨rfl, fun _ => rfl, fun h => absurd hstop h⟩⟩
  · rw [hstatus, hobject]
    exact ⟨iff_of_false EXIT_FAILURE_ne_EXIT_SUCCESS hfails,
      Or.inr ⟨rfl, fun h => absurd h hgoes, fun _ => rfl⟩⟩
  · rw [hstatus, hobject]
    refine ⟨iff_of_true rfl hsucceeds, Or.inl ⟨rfl, rfl, ?_⟩⟩
    exact pshmRead_succeed argv1 name s hsucceeds.1 hsucceeds.2.2

/-- A failure of `mmap` leaves the old content with two more bytes. -/
theorem failed_mmap_resizes :
    ¬ ∀ argv0 name s object calls,
      AllOrNothing s object (pshmWrite [argv0, name, s] calls object) := by
  intro h
  have hresult := h (str "pshm_write") (str "/demo") (str "hello") (str "abc")
    ⟨true, true, false, true⟩
  revert hresult
  unfold AllOrNothing
  decide

/-- The empty string empties the object, and is reported as a failure. -/
example :
    pshmWrite [str "pshm_write", str "/demo", []] ⟨true, true, true, true⟩ (str "abc")
      = ⟨EXIT_FAILURE, resizedText 0, str "mmap", []⟩ := by decide

end Tlpi.Pshm
