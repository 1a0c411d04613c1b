import Mathlib.Tactic
import Mathlib.Data.Nat.Digits.Lemmas

set_option autoImplicit false

/-! # Decimal numerals over bytes

The ASCII numeral of a number (`numeral`, `intNumeral`) and the number a string of digits denotes
(`value`, in any base up to ten; `intValue?` with an optional minus sign). Reading a numeral back
gives the number (`value_numeral`, `intValue?_intNumeral`), so distinct numbers have distinct
numerals. A prefix of a numeral denotes the number divided by a power of the base (`value_take`).
-/

namespace Decimal

/-- ASCII `0` to `9`. -/
def isDigit (c : UInt8) : Bool := decide (48 ≤ c ∧ c ≤ 57)

/-- The value of an ASCII digit. -/
def digitVal (c : UInt8) : ℕ := c.toNat - 48

/-- The ASCII digit of `d < 10`. -/
def digitChar (d : ℕ) : UInt8 := UInt8.ofNat (48 + d)

/-- The ASCII minus sign. -/
def minus : UInt8 := 45

/-- The number a string of digits denotes in base `b`. -/
def value (b : ℕ) (cs : List UInt8) : ℕ := cs.foldl (fun v c => v * b + digitVal c) 0

/-- The decimal numeral of `n`, without leading zeros. -/
def numeral (n : ℕ) : List UInt8 :=
  if n = 0 then [48] else (Nat.digits 10 n).reverse.map digitChar

/-- The decimal numeral of an integer. -/
def intNumeral (z : ℤ) : List UInt8 :=
  if z < 0 then minus :: numeral z.natAbs else numeral z.natAbs

/-- The integer a numeral denotes: an optional minus sign and at least one digit. -/
def intValue? : List UInt8 → Option ℤ
  | [] => none
  | c :: cs =>
      if c = minus then
        if cs ≠ [] ∧ cs.all isDigit then some (-(value 10 cs : ℤ)) else none
      else if (c :: cs).all isDigit then some (value 10 (c :: cs) : ℤ) else none

/-! ## Single digits -/

theorem isDigit_iff (c : UInt8) : isDigit c = true ↔ 48 ≤ c.toNat ∧ c.toNat ≤ 57 := by
  simp [isDigit, UInt8.le_iff_toNat_le]

theorem digitChar_toNat {d : ℕ} (hd : d < 10) : (digitChar d).toNat = 48 + d := by
  rw [digitChar, UInt8.toNat_ofNat']
  omega

theorem isDigit_digitChar {d : ℕ} (hd : d < 10) : isDigit (digitChar d) = true := by
  rw [isDigit_iff, digitChar_toNat hd]
  omega

theorem digitVal_digitChar {d : ℕ} (hd : d < 10) : digitVal (digitChar d) = d := by
  rw [digitVal, digitChar_toNat hd]
  omega

theorem digitVal_lt {c : UInt8} (hc : isDigit c = true) : digitVal c < 10 := by
  rw [isDigit_iff] at hc
  rw [digitVal]
  omega

theorem not_isDigit_minus : isDigit minus = false := by decide

/-! ## Values -/

@[simp] theorem value_nil (b : ℕ) : value b [] = 0 := rfl

theorem value_concat (b : ℕ) (cs : List UInt8) (c : UInt8) :
    value b (cs ++ [c]) = value b cs * b + digitVal c := by
  simp [value, List.foldl_append]

theorem value_append (b : ℕ) (cs ds : List UInt8) :
    value b (cs ++ ds) = value b cs * b ^ ds.length + value b ds := by
  induction ds using List.reverseRecOn with
  | nil => simp
  | append_singleton ds d ih =>
      rw [← List.append_assoc, value_concat, value_concat, ih, List.length_append,
        List.length_singleton, pow_succ]
      ring

theorem value_lt {cs : List UInt8} (h : cs.all isDigit = true) : value 10 cs < 10 ^ cs.length := by
  induction cs using List.reverseRecOn with
  | nil => simp
  | append_singleton cs c ih =>
      rw [List.all_append, Bool.and_eq_true] at h
      have hc : digitVal c < 10 := digitVal_lt (by simpa using h.2)
      have := ih h.1
      rw [value_concat, List.length_append, List.length_singleton, pow_succ]
      omega

/-- A prefix of a string of digits denotes the leading part of the number. -/
theorem value_take {cs : List UInt8} (h : cs.all isDigit = true) (k : ℕ) :
    value 10 (cs.take k) = value 10 cs / 10 ^ (cs.length - k) := by
  have hsplit := value_append 10 (cs.take k) (cs.drop k)
  rw [List.take_append_drop, List.length_drop] at hsplit
  have hdrop : (cs.drop k).all isDigit = true := by
    rw [List.all_eq_true] at h ⊢
    exact fun c hc => h c (List.mem_of_mem_drop hc)
  have hlt := value_lt hdrop
  rw [List.length_drop] at hlt
  rw [hsplit, Nat.add_comm, Nat.add_mul_div_right _ _ (by positivity), Nat.div_eq_of_lt hlt,
    Nat.zero_add]

theorem value_map_digitChar {ds : List ℕ} (h : ∀ d ∈ ds, d < 10) :
    value 10 (ds.reverse.map digitChar) = Nat.ofDigits 10 ds := by
  induction ds with
  | nil => rfl
  | cons d ds ih =>
      rw [List.reverse_cons, List.map_append, List.map_singleton, value_concat,
        ih (fun x hx => h x (by simp [hx])), digitVal_digitChar (h d (by simp)),
        Nat.ofDigits_cons]
      ring

/-! ## Numerals -/

theorem digits_lt_ten (n : ℕ) : ∀ d ∈ Nat.digits 10 n, d < 10 :=
  fun _ hd => Nat.digits_lt_base (by norm_num) hd

theorem numeral_all_isDigit (n : ℕ) : (numeral n).all isDigit = true := by
  rw [numeral]
  split
  · decide
  · rw [List.all_eq_true]
    intro c hc
    obtain ⟨d, hd, rfl⟩ := List.mem_map.mp hc
    exact isDigit_digitChar (digits_lt_ten n d (List.mem_reverse.mp hd))

theorem numeral_ne_nil (n : ℕ) : numeral n ≠ [] := by
  rw [numeral]
  split
  · simp
  · rename_i hn
    simpa using Nat.digits_ne_nil_iff_ne_zero.mpr hn

theorem value_numeral (n : ℕ) : value 10 (numeral n) = n := by
  rw [numeral]
  split
  · rename_i hn
    rw [hn]
    decide
  · rw [value_map_digitChar (digits_lt_ten n), Nat.ofDigits_digits]

theorem numeral_length_le {n k : ℕ} (hk : 0 < k) (h : n < 10 ^ k) : (numeral n).length ≤ k := by
  rw [numeral]
  split
  · rw [List.length_singleton]; exact hk
  · rw [List.length_map, List.length_reverse]
    exact (Nat.digits_length_le_iff (by norm_num) n).mpr h

/-! ## Signed numerals -/

theorem intNumeral_length_le {z : ℤ} {k : ℕ} (hk : 0 < k) (h : z.natAbs < 10 ^ k) :
    (intNumeral z).length ≤ k + 1 := by
  have := numeral_length_le hk h
  rw [intNumeral]
  split
  · rw [List.length_cons]; omega
  · omega

/-- Every character of a numeral is a digit or the minus sign. -/
theorem mem_intNumeral {z : ℤ} {c : UInt8} (hc : c ∈ intNumeral z) :
    c = minus ∨ isDigit c = true := by
  have hdig := List.all_eq_true.mp (numeral_all_isDigit z.natAbs)
  rw [intNumeral] at hc
  split at hc
  · rcases List.mem_cons.mp hc with hc | hc
    · exact Or.inl hc
    · exact Or.inr (hdig c hc)
  · exact Or.inr (hdig c hc)

theorem intValue?_digits {cs : List UInt8} (h : cs.all isDigit = true) (hne : cs ≠ []) :
    intValue? cs = some (value 10 cs : ℤ) := by
  cases cs with
  | nil => exact absurd rfl hne
  | cons c cs =>
      have hc : c ≠ minus := by
        rintro rfl
        simp [not_isDigit_minus] at h
      simp only [intValue?, if_neg hc, h, if_true]

/-- **Reading a numeral back gives the number.** -/
theorem intValue?_intNumeral (z : ℤ) : intValue? (intNumeral z) = some z := by
  rw [intNumeral]
  split
  · rename_i hz
    simp only [intValue?, if_true, numeral_ne_nil, ne_eq, not_false_eq_true, true_and,
      numeral_all_isDigit, value_numeral, Option.some.injEq]
    omega
  · rename_i hz
    rw [intValue?_digits (numeral_all_isDigit _) (numeral_ne_nil _), value_numeral,
      Option.some.injEq]
    omega

theorem intNumeral_injective : Function.Injective intNumeral := by
  intro y z h
  have hy := intValue?_intNumeral y
  rw [h, intValue?_intNumeral] at hy
  exact (Option.some.inj hy).symm

end Decimal
