import Tlpi.Lib.Decimal

set_option autoImplicit false

/-! # Octal numerals read as decimal ones

The decimal reading of an octal numeral is a function of the number the numeral denotes
(`value_ten_eq_misread`): leading zeros make no difference. It exceeds the number as soon as there
is a second digit, and below `2 ^ 32` the excess is never a multiple of `2 ^ 32`, so that no
numeral of two digits or more is read right, not even modulo `2 ^ 32` (`misread_mod_iff`).
-/

namespace Decimal

/-- ASCII `0` to `7`. -/
def isOctal (c : UInt8) : Bool := decide (48 ≤ c ∧ c ≤ 55)

/-- The number whose decimal digits are the octal digits of `n`. -/
def misread (n : ℕ) : ℕ := Nat.ofDigits 10 (Nat.digits 8 n)

theorem isOctal_iff (c : UInt8) : isOctal c = true ↔ 48 ≤ c.toNat ∧ c.toNat ≤ 55 := by
  simp [isOctal, UInt8.le_iff_toNat_le]

theorem isDigit_of_isOctal {c : UInt8} (h : isOctal c = true) : isDigit c = true := by
  rw [isOctal_iff] at h
  rw [isDigit_iff]
  omega

@[simp] theorem misread_zero : misread 0 = 0 := rfl

theorem misread_step (n : ℕ) : misread n = 10 * misread (n / 8) + n % 8 := by
  rcases Nat.eq_zero_or_pos n with rfl | hpos
  · rfl
  · rw [misread, Nat.digits_def' (by norm_num) hpos, Nat.ofDigits_cons, misread]
    ring

theorem value_ten_eq_misread {s : List UInt8} (h : s.all isOctal = true) :
    value 10 s = misread (value 8 s) := by
  induction s using List.reverseRecOn with
  | nil => rfl
  | append_singleton s c ih =>
      rw [List.all_append, Bool.and_eq_true] at h
      have hc := (isOctal_iff c).mp (by simpa using h.2)
      have hd : digitVal c < 8 := by
        rw [digitVal]
        omega
      rw [value_concat, value_concat, ih h.1, misread_step (value 8 s * 8 + digitVal c),
        show (value 8 s * 8 + digitVal c) / 8 = value 8 s by omega,
        show (value 8 s * 8 + digitVal c) % 8 = digitVal c by omega, Nat.mul_comm]

/-- The last `k` digits apart. -/
theorem misread_split (k n : ℕ) :
    misread n = 10 ^ k * misread (n / 8 ^ k) + misread (n % 8 ^ k) := by
  induction k generalizing n with
  | zero => simp [Nat.mod_one]
  | succ k ih =>
      have hdiv : n % 8 ^ (k + 1) / 8 = n / 8 % 8 ^ k := by
        rw [pow_succ', Nat.mod_mul_right_div_self]
      have hmod : n % 8 ^ (k + 1) % 8 = n % 8 := by
        rw [pow_succ', Nat.mod_mul_right_mod]
      calc misread n = 10 * misread (n / 8) + n % 8 := misread_step n
        _ = 10 * (10 ^ k * misread (n / 8 / 8 ^ k) + misread (n / 8 % 8 ^ k)) + n % 8 := by
            rw [ih (n / 8)]
        _ = 10 ^ (k + 1) * misread (n / 8 ^ (k + 1)) + (10 * misread (n / 8 % 8 ^ k) + n % 8) := by
            rw [Nat.div_div_eq_div_mul, ← pow_succ']
            ring
        _ = 10 ^ (k + 1) * misread (n / 8 ^ (k + 1)) + misread (n % 8 ^ (k + 1)) := by
            rw [misread_step (n % 8 ^ (k + 1)), hdiv, hmod]

/-- Among the numerals of `k` digits, that of all sevens is misread the most. -/
theorem misread_bounds {k n : ℕ} (h : n < 8 ^ k) :
    n ≤ misread n ∧ 9 * misread n + 9 * 8 ^ k ≤ 9 * n + 7 * 10 ^ k + 2 := by
  induction k generalizing n with
  | zero =>
      have : n = 0 := by simpa using h
      subst this
      decide
  | succ k ih =>
      rw [pow_succ] at h
      have hlt : n / 8 < 8 ^ k := by omega
      obtain ⟨hge, hle⟩ := ih hlt
      rw [misread_step n, pow_succ, pow_succ]
      omega

theorem le_misread (n : ℕ) : n ≤ misread n :=
  (misread_bounds (Nat.lt_pow_self (by norm_num))).1

theorem misread_three {t : ℕ} (h : t < 256) :
    misread t = 100 * (t / 64) + 10 * (t / 8 % 8) + t % 8 ∧ t / 64 ≤ 3 := by
  have h0 := misread_step t
  have h1 := misread_step (t / 8)
  have h2 := misread_step (t / 8 / 8)
  have hzero : t / 8 / 8 / 8 = 0 := by omega
  rw [hzero, misread_zero] at h2
  omega

/-- The excess of the first three of eleven digits `a`, `b`, `c`, with some excess `r` of the other
eight, is no multiple of `2 ^ 32` but 0. For each multiple the digits are forced from the left,
until one is too small or too large. -/
theorem excess_eq_zero {a b c r k : ℕ} (ha : a ≤ 3) (hb : b ≤ 7) (hc : c ≤ 7) (hr : r ≤ 61000562)
    (h : 8926258176 * a + 865782272 * b + 83222784 * c + r = 2 ^ 32 * k) : k = 0 := by
  have hk : k ≤ 8 := by omega
  interval_cases k
  · rfl
  · have : a = 0 := by omega
    have : 5 ≤ b := by omega
    omega
  · have : 1 ≤ a := by omega
    omega
  · have : a = 1 := by omega
    have : b = 4 := by omega
    omega
  · have : 2 ≤ a := by omega
    omega
  · have : a = 2 := by omega
    have : b = 4 := by omega
    omega
  · have : 3 ≤ a := by omega
    omega
  · have : a = 3 := by omega
    have : 4 ≤ b := by omega
    omega
  · omega

/-- What is misread stays wrong modulo `2 ^ 32`. -/
theorem misread_mod_iff {n : ℕ} (hn : n < 2 ^ 32) : misread n % 2 ^ 32 = n ↔ n < 8 := by
  constructor
  · intro h
    have htop : n / 8 ^ 8 < 256 := by omega
    obtain ⟨hthree, ha⟩ := misread_three htop
    have hlow := misread_bounds (show n % 8 ^ 8 < 8 ^ 8 from Nat.mod_lt _ (by norm_num))
    have hsplit := misread_split 8 n
    have hle := le_misread n
    have hk := @excess_eq_zero (n / 8 ^ 8 / 64) (n / 8 ^ 8 / 8 % 8) (n / 8 ^ 8 % 8)
      (misread (n % 8 ^ 8) - n % 8 ^ 8) ((misread n - n) / 2 ^ 32) ha (by omega) (by omega)
      (by omega) (by omega)
    have hstep := misread_step n
    have hdiv := le_misread (n / 8)
    omega
  · intro h
    rw [misread_step n, Nat.div_eq_of_lt h, misread_zero]
    omega

/-- A misread number of 32 bits still fits 63 bits. -/
theorem misread_lt {n : ℕ} (hn : n < 2 ^ 32) : misread n < 2 ^ 63 := by
  have hpow : n < 8 ^ 11 := by omega
  have hbound := (misread_bounds hpow).2
  omega

end Decimal
