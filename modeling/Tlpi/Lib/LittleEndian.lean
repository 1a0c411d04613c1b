import Mathlib.Tactic

set_option autoImplicit false

/-! # Little-endian bytes of a number -/

namespace LittleEndian

/-- The `k` low bytes of `n`, least significant first. -/
def leBytes : ℕ → ℕ → List UInt8
  | 0, _ => []
  | k + 1, n => UInt8.ofNat n :: leBytes k (n / 256)

/-- The number with the given bytes, least significant first. -/
def leValue : List UInt8 → ℕ
  | [] => 0
  | b :: bs => b.toNat + 256 * leValue bs

@[simp] theorem leBytes_length (k n : ℕ) : (leBytes k n).length = k := by
  induction k generalizing n with
  | zero => rfl
  | succ k ih => rw [leBytes, List.length_cons, ih]

theorem leValue_leBytes (k n : ℕ) : leValue (leBytes k n) = n % 256 ^ k := by
  induction k generalizing n with
  | zero => rw [leBytes, leValue, pow_zero, Nat.mod_one]
  | succ k ih =>
      have hlow : (UInt8.ofNat n).toNat = n % 256 := UInt8.toNat_ofNat'
      show (UInt8.ofNat n).toNat + 256 * leValue (leBytes k (n / 256)) = _
      rw [ih, hlow, pow_succ', Nat.mod_mul]

/-- A 32-bit word as four bytes in memory. -/
def wordBytes (x : BitVec 32) : List UInt8 := leBytes 4 x.toNat

/-- The word stored in the first four bytes. -/
def wordOf (bs : List UInt8) : BitVec 32 := BitVec.ofNat 32 (leValue (bs.take 4))

@[simp] theorem wordBytes_length (x : BitVec 32) : (wordBytes x).length = 4 := leBytes_length 4 _

theorem wordOf_wordBytes_append (x : BitVec 32) (bs : List UInt8) :
    wordOf (wordBytes x ++ bs) = x := by
  have htake : (wordBytes x ++ bs).take 4 = wordBytes x := by
    rw [List.take_append_of_le_length (by simp), List.take_of_length_le (by simp)]
  have hlt := x.isLt
  refine BitVec.eq_of_toNat_eq ?_
  rw [wordOf, htake, BitVec.toNat_ofNat, wordBytes, leValue_leBytes]
  norm_num at hlt ⊢
  omega

theorem wordOf_wordBytes (x : BitVec 32) : wordOf (wordBytes x) = x := by
  have h := wordOf_wordBytes_append x []
  rwa [List.append_nil] at h

end LittleEndian
