import Mathlib

/-!
# Bit-fields

Words assembled from bit-fields by shifting and or-ing, and the natural numbers they stand for.
-/

namespace RiscvVp.BitField

/-- Or-ing a field above the bits that are in use adds it, shifted. -/
theorem toNat_or_shiftLeft {w m k n : ℕ} {x : BitVec w} (y : BitVec m) (hx : x.toNat = n)
    (hn : n < 2 ^ k) (hk : k + m ≤ w) :
    (x ||| y.setWidth w <<< k).toNat = n + y.toNat * 2 ^ k := by
  have hlt : y.toNat * 2 ^ k < 2 ^ w := by
    calc y.toNat * 2 ^ k < 2 ^ m * 2 ^ k := Nat.mul_lt_mul_of_pos_right y.isLt (Nat.two_pow_pos k)
      _ = 2 ^ (k + m) := by rw [← Nat.pow_add, Nat.add_comm]
      _ ≤ 2 ^ w := Nat.pow_le_pow_right (by omega) hk
  have hy : y.toNat < 2 ^ w :=
    Nat.lt_of_lt_of_le y.isLt (Nat.pow_le_pow_right (by omega) (by omega))
  rw [BitVec.toNat_or, BitVec.toNat_shiftLeft, BitVec.toNat_setWidth, Nat.mod_eq_of_lt hy,
    Nat.shiftLeft_eq, Nat.mod_eq_of_lt hlt, Nat.or_comm, ← Nat.shiftLeft_eq, hx,
    ← Nat.shiftLeft_add_eq_or_of_lt hn, Nat.shiftLeft_eq, Nat.add_comm]

/-- A slice of a word, as a quotient and a remainder by powers of two. -/
theorem toNat_extractLsb' {w : ℕ} (x : BitVec w) (s n : ℕ) :
    (x.extractLsb' s n).toNat = x.toNat / 2 ^ s % 2 ^ n := by
  rw [BitVec.extractLsb'_toNat, Nat.shiftRight_eq_div_pow]

/-- A bit of a word, as the remainder of a quotient. -/
theorem toNat_getLsbD {w : ℕ} (x : BitVec w) (i : ℕ) :
    (x.getLsbD i).toNat = x.toNat / 2 ^ i % 2 := by
  rw [BitVec.getLsbD, Nat.toNat_testBit]

/-- A bit of a word is read off the number it stands for. -/
theorem getLsbD_eq_of_toNat {w i : ℕ} {x : BitVec w} {b : Bool} (h : x.toNat / 2 ^ i % 2 = b.toNat) :
    x.getLsbD i = b := by
  rw [← toNat_getLsbD] at h
  revert h
  cases x.getLsbD i <;> cases b <;> simp

/-- Two fields side by side: the higher one is shifted by the width of the lower one. -/
theorem toNat_append {m n : ℕ} (x : BitVec m) (y : BitVec n) :
    (x ++ y).toNat = x.toNat * 2 ^ n + y.toNat := by
  rw [BitVec.toNat_append, ← Nat.shiftLeft_add_eq_or_of_lt y.isLt, Nat.shiftLeft_eq]

/-- A slice and the bit below it. -/
theorem extractLsb'_append_ofBool {w : ℕ} (x : BitVec w) (k n : ℕ) :
    x.extractLsb' (k + 1) n ++ BitVec.ofBool (x.getLsbD k) = x.extractLsb' k (n + 1) := by
  apply BitVec.eq_of_toNat_eq
  rw [toNat_append, BitVec.toNat_ofBool, toNat_getLsbD, toNat_extractLsb', toNat_extractLsb',
    Nat.pow_one, Nat.pow_succ, ← Nat.div_div_eq_div_mul, Nat.pow_succ', Nat.mod_mul]
  omega

/-- Clearing the low bits of a word rounds it down. -/
theorem toNat_and_not_ones {w : ℕ} (x : BitVec w) (k : ℕ) :
    (x &&& ~~~BitVec.ofNat w (2 ^ k - 1)).toNat = x.toNat / 2 ^ k * 2 ^ k := by
  have h : x &&& ~~~BitVec.ofNat w (2 ^ k - 1) = (x >>> k) <<< k := by
    apply BitVec.eq_of_getLsbD_eq
    intro i hi
    rw [BitVec.getLsbD_and, BitVec.getLsbD_not, BitVec.getLsbD_ofNat, Nat.testBit_two_pow_sub_one,
      BitVec.getLsbD_shiftLeft, BitVec.getLsbD_ushiftRight]
    by_cases hik : i < k
    · simp [hik, hi]
    · simp [hik, hi, show k + (i - k) = i by omega]
  have hlt : x.toNat / 2 ^ k * 2 ^ k < 2 ^ w := Nat.lt_of_le_of_lt (Nat.div_mul_le_self _ _) x.isLt
  rw [h, BitVec.toNat_shiftLeft, BitVec.toNat_ushiftRight, Nat.shiftRight_eq_div_pow,
    Nat.shiftLeft_eq, Nat.mod_eq_of_lt hlt]

end RiscvVp.BitField
