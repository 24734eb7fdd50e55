import Mathlib

/-!
# Machine words and integers

The operations on words of any width as operations on the integers that the words stand for, with one
rounding to the width at the end.
-/

namespace RiscvVp.Words

variable {w : ℕ} (a b : BitVec w)

theorem ofInt_toNat : BitVec.ofInt w (a.toNat : ℤ) = a := by
  rw [BitVec.ofInt_natCast, BitVec.ofNat_toNat, BitVec.setWidth_eq]

theorem add_eq : a + b = BitVec.ofInt w (a.toInt + b.toInt) := by
  rw [BitVec.ofInt_add, BitVec.ofInt_toInt, BitVec.ofInt_toInt]

theorem sub_eq : a - b = BitVec.ofInt w (a.toInt - b.toInt) := by
  apply BitVec.eq_of_toInt_eq
  rw [BitVec.toInt_sub, BitVec.toInt_ofInt]

theorem mul_eq : a * b = BitVec.ofInt w (a.toInt * b.toInt) := by
  rw [BitVec.ofInt_mul, BitVec.ofInt_toInt, BitVec.ofInt_toInt]

theorem shiftLeft_eq (n : ℕ) : a <<< n = BitVec.ofInt w (a.toNat * 2 ^ n) := by
  have hcast : (a.toNat * 2 ^ n : ℤ) = ((a.toNat * 2 ^ n : ℕ) : ℤ) := by push_cast; rfl
  rw [hcast, BitVec.ofInt_natCast]
  apply BitVec.eq_of_toNat_eq
  rw [BitVec.toNat_shiftLeft, Nat.shiftLeft_eq, BitVec.toNat_ofNat]

theorem ushiftRight_eq (n : ℕ) : a >>> n = BitVec.ofInt w (a.toNat / 2 ^ n) := by
  have hcast : (a.toNat / 2 ^ n : ℤ) = ((a.toNat / 2 ^ n : ℕ) : ℤ) := by push_cast; rfl
  rw [hcast, BitVec.ofInt_natCast, ← Nat.shiftRight_eq_div_pow, ← BitVec.toNat_ushiftRight,
    BitVec.ofNat_toNat, BitVec.setWidth_eq]

theorem sshiftRight_eq (n : ℕ) : a.sshiftRight n = BitVec.ofInt w (a.toInt / 2 ^ n) := by
  rw [← BitVec.ofInt_toInt (x := a.sshiftRight n), BitVec.toInt_sshiftRight, Int.shiftRight_eq_div_pow]
  push_cast
  rfl

theorem udiv_eq : a / b = BitVec.ofInt w (a.toNat / b.toNat) := by
  have hcast : (a.toNat / b.toNat : ℤ) = ((a.toNat / b.toNat : ℕ) : ℤ) := by push_cast; rfl
  rw [hcast, BitVec.ofInt_natCast, ← BitVec.toNat_udiv, BitVec.ofNat_toNat, BitVec.setWidth_eq]

theorem umod_eq : a % b = BitVec.ofInt w (a.toNat % b.toNat) := by
  have hcast : (a.toNat % b.toNat : ℤ) = ((a.toNat % b.toNat : ℕ) : ℤ) := by push_cast; rfl
  rw [hcast, BitVec.ofInt_natCast, ← BitVec.toNat_umod, BitVec.ofNat_toNat, BitVec.setWidth_eq]

theorem sdiv_eq : a.sdiv b = BitVec.ofInt w (a.toInt.tdiv b.toInt) := by
  apply BitVec.eq_of_toInt_eq
  rw [BitVec.toInt_sdiv, BitVec.toInt_ofInt]

theorem srem_eq : a.srem b = BitVec.ofInt w (a.toInt.tmod b.toInt) := by
  rw [← BitVec.toInt_srem, BitVec.ofInt_toInt]

/-- The upper half of a wide word, shifted down with its sign. -/
theorem setWidth_sshiftRight (x : BitVec (w + w)) :
    (x.sshiftRight w).setWidth w = BitVec.ofInt w (x.toInt / 2 ^ w) := by
  rw [← BitVec.signExtend_eq_setWidth_of_le _ (by omega)]
  apply BitVec.eq_of_toInt_eq
  rw [BitVec.toInt_signExtend_eq_toInt_bmod_of_le _ (by omega), BitVec.toInt_sshiftRight, BitVec.toInt_ofInt,
    Int.shiftRight_eq_div_pow]
  push_cast
  rfl
/-- The same half of the product of two unsigned words. -/
theorem setWidth_sshiftRight_toNat (x : BitVec (w + w)) :
    (x.sshiftRight w).setWidth w = BitVec.ofInt w (x.toNat / 2 ^ w) := by
  have hshift : (x.sshiftRight w).setWidth w = (x >>> w).setWidth w := by
    ext i hlt
    rw [BitVec.getElem_setWidth, BitVec.getElem_setWidth, BitVec.getLsbD_sshiftRight,
      BitVec.getLsbD_ushiftRight]
    simp [show i < w + w by omega, hlt]
  have hcast : (x.toNat / 2 ^ w : ℤ) = ((x.toNat / 2 ^ w : ℕ) : ℤ) := by push_cast; rfl
  rw [hshift, hcast, BitVec.ofInt_natCast, ← Nat.shiftRight_eq_div_pow, ← BitVec.toNat_ushiftRight,
    BitVec.ofNat_toNat]

/-! ### Products of twice the width -/

theorem abs_toInt_le : |a.toInt| ≤ 2 ^ (w - 1) := by
  have hlow := BitVec.le_toInt a
  have hhigh := BitVec.toInt_lt (x := a)
  rw [abs_le]
  constructor <;> omega

/-- A product that is not cut: where it fits into the width, the word holds it exactly. -/
theorem toInt_mul_of_abs_le {v : ℕ} {x y : BitVec v} (hv : 0 < v)
    (h : |x.toInt * y.toInt| < 2 ^ (v - 1)) : (x * y).toInt = x.toInt * y.toInt := by
  have hpow : (2 : ℤ) ^ v = 2 * 2 ^ (v - 1) := by
    rw [← pow_succ', Nat.sub_add_cancel hv]
  rw [abs_lt] at h
  rw [BitVec.toInt_mul]
  apply Int.bmod_eq_of_le
  · push_cast
    omega
  · push_cast
    omega

theorem toInt_setWidth_double (hw : 0 < w) : (a.setWidth (w + w)).toInt = a.toNat := by
  have hlt : 2 ^ (w + 1) ≤ 2 ^ (w + w) := Nat.pow_le_pow_right (by omega) (by omega)
  have htoNat : (a.setWidth (w + w)).toNat = a.toNat := BitVec.toNat_setWidth_of_le (by omega)
  rw [BitVec.toInt_eq_toNat_of_lt, htoNat]
  have := a.isLt
  rw [htoNat]
  omega

/-- The exact product of two signed words. -/
theorem toInt_signExtend_mul_signExtend (hw : 0 < w) :
    (a.signExtend (w + w) * b.signExtend (w + w)).toInt = a.toInt * b.toInt := by
  have ha : (a.signExtend (w + w)).toInt = a.toInt := BitVec.toInt_signExtend_of_le (by omega)
  have hb : (b.signExtend (w + w)).toInt = b.toInt := BitVec.toInt_signExtend_of_le (by omega)
  rw [toInt_mul_of_abs_le (by omega), ha, hb]
  rw [ha, hb, abs_mul]
  calc |a.toInt| * |b.toInt|
      ≤ 2 ^ (w - 1) * 2 ^ (w - 1) :=
        mul_le_mul (abs_toInt_le a) (abs_toInt_le b) (abs_nonneg _) (by positivity)
    _ = 2 ^ (w + w - 2) := by rw [← pow_add]; congr 1; omega
    _ < 2 ^ (w + w - 1) := pow_lt_pow_right₀ (by norm_num) (by omega)

/-- The exact product of a signed and an unsigned word. -/
theorem toInt_signExtend_mul_setWidth (hw : 0 < w) :
    (a.signExtend (w + w) * b.setWidth (w + w)).toInt = a.toInt * b.toNat := by
  have ha : (a.signExtend (w + w)).toInt = a.toInt := BitVec.toInt_signExtend_of_le (by omega)
  have hb : (b.setWidth (w + w)).toInt = b.toNat := toInt_setWidth_double b hw
  have hlt : (b.toNat : ℤ) < 2 ^ w := by exact_mod_cast b.isLt
  rw [toInt_mul_of_abs_le (by omega), ha, hb]
  rw [ha, hb, abs_mul, Nat.abs_cast]
  calc |a.toInt| * (b.toNat : ℤ)
      ≤ 2 ^ (w - 1) * b.toNat := mul_le_mul_of_nonneg_right (abs_toInt_le a) (by positivity)
    _ < 2 ^ (w - 1) * 2 ^ w := mul_lt_mul_of_pos_left hlt (by positivity)
    _ = 2 ^ (w + w - 1) := by rw [← pow_add]; congr 1; omega

/-- The exact product of two unsigned words. -/
theorem toNat_setWidth_mul_setWidth :
    (a.setWidth (w + w) * b.setWidth (w + w)).toNat = a.toNat * b.toNat := by
  rw [BitVec.toNat_mul, BitVec.toNat_setWidth_of_le (by omega), BitVec.toNat_setWidth_of_le (by omega),
    Nat.mod_eq_of_lt]
  rw [pow_add]
  exact Nat.mul_lt_mul'' a.isLt b.isLt

end RiscvVp.Words
