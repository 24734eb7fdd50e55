import Mathlib

/-!
# Numbers as sequences of limbs

`Limbs.value` is the number with given limbs in some base, the least significant first.  Adding or
subtracting limb by limb, with what each limb carries over going into the next, adds or subtracts the
numbers; all that is left over is the carry of the last limb.
-/

namespace RiscvVp.Limbs

/-- The number with limbs `a 0` to `a (m - 1)` in base `base`. -/
def value (base : ℤ) (m : ℕ) (a : ℕ → ℤ) : ℤ := ∑ k ∈ Finset.range m, a k * base ^ k

@[simp] theorem value_zero (base : ℤ) (a : ℕ → ℤ) : value base 0 a = 0 := Finset.sum_range_zero _

theorem value_succ (base : ℤ) (m : ℕ) (a : ℕ → ℤ) :
    value base (m + 1) a = value base m a + a m * base ^ m := Finset.sum_range_succ _ _

/-- **Carries.**  If each limb adds (`sign` 1) or subtracts (`sign` -1) its operands and the carry into
it, and carries over what does not fit, so does the whole. -/
theorem value_carry {base sign : ℤ} {a b d c : ℕ → ℤ} {m : ℕ}
    (h : ∀ k < m, a k + sign * (b k + c k) = d k + sign * (base * c (k + 1))) :
    value base m a + sign * (value base m b + c 0) = value base m d + sign * (base ^ m * c m) := by
  induction m with
  | zero => simp
  | succ m ih =>
    have hlast := h m (Nat.lt_succ_self m)
    have hrest := ih fun k hk => h k (Nat.lt_succ_of_lt hk)
    rw [value_succ, value_succ, value_succ]
    -- the carry into the last limb is what is left over of the others
    calc value base m a + a m * base ^ m + sign * (value base m b + b m * base ^ m + c 0)
        = (value base m a + sign * (value base m b + c 0)) + (a m + sign * b m) * base ^ m := by ring
      _ = value base m d + (a m + sign * (b m + c m)) * base ^ m := by rw [hrest]; ring
      _ = value base m d + d m * base ^ m + sign * (base ^ (m + 1) * c (m + 1)) := by
          rw [hlast]; ring

/-- Limbs in range make up a number in range. -/
theorem value_lt {base : ℤ} {a : ℕ → ℤ} {m : ℕ} (h : ∀ k < m, 0 ≤ a k ∧ a k < base) :
    0 ≤ value base m a ∧ value base m a < base ^ m := by
  induction m with
  | zero => simp
  | succ m ih =>
    obtain ⟨hnonneg, hlt⟩ := ih fun k hk => h k (Nat.lt_succ_of_lt hk)
    obtain ⟨ha, hab⟩ := h m (Nat.lt_succ_self m)
    have hpow : 0 ≤ base ^ m := le_trans hnonneg hlt.le
    rw [value_succ]
    constructor
    · exact add_nonneg hnonneg (mul_nonneg ha hpow)
    · calc value base m a + a m * base ^ m < base ^ m + a m * base ^ m := by linarith
        _ = (a m + 1) * base ^ m := by ring
        _ ≤ base * base ^ m := mul_le_mul_of_nonneg_right hab hpow
        _ = base ^ (m + 1) := (pow_succ' base m).symm

end RiscvVp.Limbs
