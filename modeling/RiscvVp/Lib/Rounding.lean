import Mathlib

/-!
# Rounding to multiples

How far apart the ends of an interval can move when the lower end is rounded down and the upper end
is rounded up to multiples of one number.
-/

namespace RiscvVp.Rounding

/-- Rounding up a quotient adds one unless the division is exact. -/
theorem ceilDiv_eq_div_add (a : ℕ) {b : ℕ} (hb : 0 < b) :
    a ⌈/⌉ b = a / b + (decide (a % b ≠ 0)).toNat := by
  have h := Nat.div_add_mod a b
  have hlt := Nat.mod_lt a hb
  rw [Nat.ceilDiv_eq_add_pred_div]
  by_cases hz : a % b = 0
  · rw [decide_eq_false (by simpa using hz), Bool.toNat_false, Nat.add_zero]
    apply Nat.div_eq_of_lt_le
    · rw [Nat.mul_comm]; omega
    · rw [Nat.add_mul, Nat.mul_comm]; omega
  · rw [decide_eq_true hz, Bool.toNat_true]
    apply Nat.div_eq_of_lt_le
    · rw [Nat.add_mul, Nat.mul_comm]; omega
    · rw [Nat.add_mul, Nat.add_mul, Nat.mul_comm]; omega

/-- Rounding up twice is rounding up once by the product of the divisors. -/
theorem ceilDiv_ceilDiv (a : ℕ) {b c : ℕ} (hb : 0 < b) (hc : 0 < c) :
    (a ⌈/⌉ b) ⌈/⌉ c = a ⌈/⌉ (b * c) := by
  apply eq_of_forall_ge_iff
  intro d
  rw [ceilDiv_le_iff_le_mul hc, ceilDiv_le_iff_le_mul hb, ceilDiv_le_iff_le_mul (Nat.mul_pos hb hc),
    Nat.mul_assoc]

/-- A number rounded up is less than one multiple away. -/
theorem ceilDiv_mul_lt (a : ℕ) {b : ℕ} (hb : 0 < b) : a ⌈/⌉ b * b < a + b := by
  have h := Nat.div_mul_le_self (a + b - 1) b
  rw [Nat.ceilDiv_eq_add_pred_div]
  omega

/-- A number is not rounded up past a multiple above it. -/
theorem ceilDiv_mul_le {a b c : ℕ} (hb : 0 < b) (hc : b ∣ c) (hle : a ≤ c) : a ⌈/⌉ b * b ≤ c := by
  obtain ⟨k, rfl⟩ := hc
  rw [Nat.mul_comm]
  exact Nat.mul_le_mul_left b ((ceilDiv_le_iff_le_mul hb).2 hle)

/-- A number is not rounded down past a multiple below it. -/
theorem le_div_mul {a b c : ℕ} (hc : b ∣ c) (hle : c ≤ a) : c ≤ a / b * b := by
  obtain ⟨k, rfl⟩ := hc
  rcases Nat.eq_zero_or_pos b with rfl | hb
  · omega
  · rw [Nat.mul_comm b k]
    exact Nat.mul_le_mul_right b ((Nat.le_div_iff_mul_le hb).2 (by rw [Nat.mul_comm]; exact hle))

/-- An interval of at least `l` units is at least `l` units long after rounding. -/
theorem le_ceilDiv_sub {base top b l : ℕ} (hb : 0 < b) (hle : base ≤ top)
    (h : l * b ≤ top - base) : l ≤ top ⌈/⌉ b - base / b := by
  have h1 : top ≤ b * (top ⌈/⌉ b) := (ceilDiv_le_iff_le_mul hb).1 le_rfl
  have h2 := Nat.div_mul_le_self base b
  refine Nat.le_of_mul_le_mul_right ?_ hb
  rw [Nat.sub_mul, Nat.mul_comm (top ⌈/⌉ b)]
  omega

/-- An interval of less than `l` units is less than `l + 2` units long after rounding. -/
theorem ceilDiv_sub_lt {base top b l : ℕ} (hb : 0 < b) (hle : base ≤ top)
    (h : top - base < l * b) : top ⌈/⌉ b - base / b < l + 2 := by
  have h1 := ceilDiv_mul_lt top hb
  have h2 := Nat.lt_div_mul_add (a := base) hb
  refine Nat.lt_of_mul_lt_mul_right (a := b) ?_
  rw [Nat.sub_mul, Nat.add_mul]
  omega

end RiscvVp.Rounding
