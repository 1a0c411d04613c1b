import Tlpi.Lib.Decimal
import Tlpi.Posix.Base

set_option autoImplicit false

/-! # `strtol` and `atoi`

glibc on a 64-bit machine, base 10, C locale: `strtol` skips white space, takes an optional sign
and as many digits as follow, and saturates at `LONG_MIN` and `LONG_MAX`; `atoi` is `strtol`
narrowed to `int`. An `int` is a `BitVec 32`; its signed value is `BitVec.toInt`.
-/

namespace Tlpi

open Decimal

/-- `isspace` in the C locale. -/
def isspace (c : UInt8) : Bool := decide (c = 32 ∨ (9 ≤ c ∧ c ≤ 13))

def LONG_MAX : ℤ := 2 ^ 63 - 1

def LONG_MIN : ℤ := -2 ^ 63

/-- The nearest `long`. -/
def clampLong (z : ℤ) : ℤ := max LONG_MIN (min LONG_MAX z)

/-- An optional sign: whether it is a minus, and the text after it. -/
def splitSign : List UInt8 → Bool × List UInt8
  | [] => (false, [])
  | c :: cs =>
      if c = minus then (true, cs) else if c = chr '+' then (false, cs) else (false, c :: cs)

/-- `strtol(s, &endptr, 10)`: the value, and the text `endptr` points to. -/
def strtol (s : List UInt8) : ℤ × List UInt8 :=
  let signed := splitSign (s.dropWhile isspace)
  let digits := signed.2.takeWhile isDigit
  if digits = [] then (0, s)
  else
    (clampLong (if signed.1 then -(value 10 digits : ℤ) else (value 10 digits : ℤ)),
      signed.2.drop digits.length)

/-- `atoi(s)`. -/
def atoi (s : List UInt8) : BitVec 32 := BitVec.ofInt 32 (strtol s).1

/-! ## Unsigned numerals -/

theorem not_isspace_of_isDigit {c : UInt8} (h : isDigit c = true) : isspace c = false := by
  have hc := (isDigit_iff c).mp h
  simp only [isspace, decide_eq_false_iff_not, not_or, not_and, UInt8.le_iff_toNat_le]
  refine ⟨?_, ?_⟩
  · rintro rfl
    simp at hc
  · intro _ hle
    simp at hle
    omega

theorem splitSign_of_isDigit {c : UInt8} (h : isDigit c = true) (cs : List UInt8) :
    splitSign (c :: cs) = (false, c :: cs) := by
  have hm : c ≠ minus := by
    rintro rfl
    simp [not_isDigit_minus] at h
  have hp : c ≠ chr '+' := by
    rintro rfl
    revert h
    decide
  rw [splitSign, if_neg hm, if_neg hp]

/-- A numeral followed by anything but a digit. -/
theorem strtol_digits {ds rest : List UInt8} (h : ds.all isDigit = true) (hne : ds ≠ [])
    (hrest : ∀ c ∈ rest.head?, isDigit c = false) :
    strtol (ds ++ rest) = (clampLong (value 10 ds), rest) := by
  obtain ⟨c, cs, rfl⟩ := List.exists_cons_of_ne_nil hne
  have hc : isDigit c = true := by simp at h; exact h.1
  have htake : (c :: cs ++ rest).takeWhile isDigit = c :: cs := by
    rw [List.takeWhile_append_of_pos (fun x hx => List.all_eq_true.mp h x hx)]
    cases rest with
    | nil => simp
    | cons r rest => simp [hrest r (by simp)]
  have hdrop : (c :: cs ++ rest).dropWhile isspace = c :: cs ++ rest := by
    simp [not_isspace_of_isDigit hc]
  have hsign : splitSign (c :: cs ++ rest) = (false, c :: cs ++ rest) :=
    splitSign_of_isDigit hc _
  simp only [strtol, hdrop, hsign, htake]
  simp

/-- What `atoi` makes of an unsigned numeral: numbers from `2 ^ 63` on become `LONG_MAX` and
narrow to `-1`, the others are narrowed to 32 bits. -/
theorem atoi_digits_toInt {ds rest : List UInt8} (h : ds.all isDigit = true) (hne : ds ≠ [])
    (hrest : ∀ c ∈ rest.head?, isDigit c = false) :
    (atoi (ds ++ rest)).toInt
      = if value 10 ds < 2 ^ 63 then (value 10 ds : ℤ).bmod (2 ^ 32) else -1 := by
  rw [atoi, strtol_digits h hne hrest, BitVec.toInt_ofInt, clampLong]
  split
  · rename_i hlt
    rw [min_eq_right (by simp only [LONG_MAX]; omega),
      max_eq_right (by simp only [LONG_MIN]; omega)]
  · rename_i hge
    rw [min_eq_left (by simp only [LONG_MAX]; omega)]
    show (max LONG_MIN LONG_MAX).bmod (2 ^ 32) = -1
    decide

end Tlpi
