import Tlpi.Lib.Decimal
import Tlpi.Lib.Lines
import Tlpi.Posix.Base

set_option autoImplicit false

/-! # Input and output of the C library

`fgets` on a stream that is the list of its remaining bytes, and the conversion `%x` of `printf`.
What a buffer holds after `fgets` is said with `Mem.Holds`: it begins with a C string.
-/

namespace Tlpi

open Decimal Lines

/-- `fgets(buf, size, stream)`: the buffer and the rest of the stream, or `NULL` at its end. A chunk
has at most `size - 1` bytes and ends after a newline; a NUL follows it in the buffer. -/
def fgets (size : ℕ) (buf : Mem) (stream : List UInt8) : Option (Mem × List UInt8) :=
  if stream = [] then none
  else
    let chunk := splitChunk newline (size - 1) stream
    some (Function.update (store buf 0 chunk.1) chunk.1.length 0, chunk.2)

/-- The hexadecimal digit of `d < 16`. -/
def hexChar (d : ℕ) : UInt8 := if d < 10 then digitChar d else UInt8.ofNat (87 + d)

/-- `%x`. -/
def hex (x : BitVec 32) : List UInt8 :=
  if x = 0 then str "0" else (Nat.digits 16 x.toNat).reverse.map hexChar

/-- `%0nx` for a width `n`. -/
def hexPadded (n : ℕ) (x : BitVec 32) : List UInt8 :=
  List.replicate (n - (hex x).length) (chr '0') ++ hex x

/-! ## Buffers that hold a C string -/

/-- The buffer begins with the C string `s`. -/
structure Mem.Holds (mem : Mem) (s : List UInt8) : Prop where
  noNul : (0 : UInt8) ∉ s
  bytes : mem.bytes s.length = s
  nul : mem s.length = 0

variable {mem : Mem} {s : List UInt8} {size : ℕ}

theorem Mem.Holds.cString (h : mem.Holds s) (hsize : s.length < size) : mem.cString size = s := by
  rw [Mem.cString_of_nul hsize h.nul, h.bytes, takeWhile_of_no_nul h.noNul]

theorem Mem.Holds.get (h : mem.Holds s) {j : ℕ} (hj : j < s.length) : mem j = s[j] := by
  have hget : (mem.bytes s.length)[j]? = s[j]? := by rw [h.bytes]
  simpa [Mem.bytes, hj] using hget

/-- Overwriting the last character with a NUL. -/
theorem Mem.Holds.dropLast (h : mem.Holds s) :
    Mem.Holds (Function.update mem (s.length - 1) 0) s.dropLast := by
  have hlen : s.dropLast.length = s.length - 1 := List.length_dropLast
  refine ⟨fun hmem => h.noNul (List.mem_of_mem_dropLast hmem), ?_, ?_⟩
  · refine List.ext_getElem (Mem.bytes_length _ _) fun j hj hj' => ?_
    have hlt : j < s.length - 1 := by omega
    have hold := h.get (j := j) (by omega)
    simp [Mem.bytes, Function.update_of_ne (Nat.ne_of_lt hlt), hold]
  · rw [hlen, Function.update_self]

/-- A chunk with a NUL after it: the C string is the chunk up to its first NUL. -/
theorem store_holds (buf : Mem) (chunk : List UInt8) :
    Mem.Holds (Function.update (store buf 0 chunk) chunk.length 0) (chunk.takeWhile (· != 0)) := by
  have hbytes := bytes_update_store buf chunk 0
  have hsplit := List.takeWhile_append_dropWhile (p := (· != (0 : UInt8))) (l := chunk)
  generalize hmem : Function.update (store buf 0 chunk) chunk.length 0 = mem at hbytes ⊢
  have hget : ∀ (j : ℕ) (hj : j < chunk.length), mem j = chunk[j] := by
    intro j hj
    have hj' : (Mem.bytes mem chunk.length)[j]? = chunk[j]? := by rw [hbytes]
    simpa [Mem.bytes, hj] using hj'
  refine ⟨fun h0 => ?_, ?_, ?_⟩
  · have hne := List.mem_takeWhile_imp h0
    simp at hne
  · refine List.ext_getElem (Mem.bytes_length _ _) fun j hj hj' => ?_
    have hpre := List.takeWhile_prefix (p := (· != (0 : UInt8))) (l := chunk)
    have hlt : j < chunk.length := Nat.lt_of_lt_of_le hj' hpre.length_le
    rw [List.IsPrefix.getElem hpre hj', ← hget j hlt]
    simp [Mem.bytes]
  · -- the first NUL of the chunk, or the one after it
    cases hdrop : chunk.dropWhile (· != (0 : UInt8)) with
    | nil =>
        rw [hdrop, List.append_nil] at hsplit
        rw [hsplit, ← hmem, Function.update_self]
    | cons c cs =>
        have hc : c = 0 := by
          have hhead := List.head_dropWhile_not (· != (0 : UInt8)) (l := chunk) (by simp [hdrop])
          simpa [hdrop] using hhead
        rw [hdrop] at hsplit
        generalize chunk.takeWhile (· != (0 : UInt8)) = pre at hsplit ⊢
        subst hsplit
        rw [hget pre.length (by simp)]
        simpa using hc

/-- What `fgets` leaves: the next chunk of the stream, up to its first NUL. -/
theorem fgets_eq_some {buf buf' : Mem} {stream rest : List UInt8}
    (h : fgets size buf stream = some (buf', rest)) :
    stream ≠ [] ∧ rest = (splitChunk newline (size - 1) stream).2 ∧
      buf'.Holds ((splitChunk newline (size - 1) stream).1.takeWhile (· != 0)) := by
  unfold fgets at h
  split at h
  · cases h
  · rename_i hne
    obtain ⟨rfl, rfl⟩ := Prod.mk.inj (Option.some.inj h)
    exact ⟨hne, rfl, store_holds _ _⟩

theorem fgets_eq_none {buf : Mem} {stream : List UInt8} (h : fgets size buf stream = none) :
    stream = [] := by
  unfold fgets at h
  split at h
  · assumption
  · cases h

/-- Every call consumes something. -/
theorem fgets_rest_length {buf buf' : Mem} {stream rest : List UInt8} (hsize : 2 ≤ size)
    (h : fgets size buf stream = some (buf', rest)) : rest.length < stream.length := by
  obtain ⟨hne, rfl, -⟩ := fgets_eq_some h
  exact splitChunk_snd_length_lt newline (by omega) hne

/-- A caller that prints with `%s` what `fgets` puts into `buf`, until it returns `NULL`: the texts,
and the buffer afterwards. -/
def fgetsAll (size : ℕ) (hsize : 2 ≤ size) (buf : Mem) (stream : List UInt8) :
    List (List UInt8) × Mem :=
  match _h : fgets size buf stream with
  | none => ([], buf)
  | some (buf', rest) =>
      (buf'.cString size :: (fgetsAll size hsize buf' rest).1, (fgetsAll size hsize buf' rest).2)
termination_by stream.length
decreasing_by all_goals exact fgets_rest_length hsize _h

end Tlpi
