import Mathlib

/-!
# Fixed-point arithmetic

Four ways to round a rational number to an integer, as fixed-point arithmetic has them, and saturation to
an interval.  `RoundingMode.roundDiv` is the rounding of a quotient in terms of the integer quotient and
its remainder: this is what hardware can compute, and `round_div` says that it is the same.
-/

namespace RiscvVp

/-- Rounding to nearest with ties up, to nearest with ties to even, down, and to odd. -/
inductive RoundingMode
  | rnu
  | rne
  | rdn
  | rod
  deriving DecidableEq, Repr

namespace RoundingMode

/-- A rational number rounded to an integer.  Rounding to odd keeps an integer and takes the odd one of
the two integers next to any other number. -/
def round (m : RoundingMode) (x : ℚ) : ℤ :=
  match m with
  | rnu => ⌊x + 1 / 2⌋
  | rne => if Int.fract x = 1 / 2 ∧ Even ⌊x⌋ then ⌊x⌋ else ⌊x + 1 / 2⌋
  | rdn => ⌊x⌋
  | rod => if Int.fract x ≠ 0 ∧ Even ⌊x⌋ then ⌊x⌋ + 1 else ⌊x⌋

/-- Whether a quotient `q` with remainder `r` by `d` is rounded up. -/
def Up (m : RoundingMode) (q r d : ℤ) : Prop :=
  match m with
  | rnu => d ≤ 2 * r
  | rne => d < 2 * r ∨ 2 * r = d ∧ q % 2 = 1
  | rdn => False
  | rod => r ≠ 0 ∧ q % 2 = 0

instance decidableUp (m : RoundingMode) (q r d : ℤ) : Decidable (m.Up q r d) :=
  match m with
  | rnu => inferInstanceAs (Decidable (d ≤ 2 * r))
  | rne => inferInstanceAs (Decidable (d < 2 * r ∨ 2 * r = d ∧ q % 2 = 1))
  | rdn => inferInstanceAs (Decidable False)
  | rod => inferInstanceAs (Decidable (r ≠ 0 ∧ q % 2 = 0))

/-- The rounded quotient of two integers. -/
def roundDiv (m : RoundingMode) (v : ℤ) (d : ℕ) : ℤ :=
  if m.Up (v / d) (v % d) d then v / d + 1 else v / d

variable (m : RoundingMode) {d : ℕ}

theorem floor_div_add_half (v : ℤ) (hd : 0 < d) :
    ⌊(v : ℚ) / d + 1 / 2⌋ = if (d : ℤ) ≤ 2 * (v % d) then v / d + 1 else v / d := by
  have hd' : (0 : ℚ) < d := by exact_mod_cast hd
  have hdz : (0 : ℤ) < d := by exact_mod_cast hd
  have hmod := Int.emod_add_mul_ediv v d
  have hlt := Int.emod_lt_of_pos v hdz
  have hnonneg := Int.emod_nonneg v hdz.ne'
  have hsum : (v : ℚ) / d + 1 / 2 = ((2 * v + d : ℤ) : ℚ) / ((2 * d : ℕ) : ℚ) := by
    push_cast
    field_simp
  rw [hsum, Rat.floor_intCast_div_natCast]
  push_cast
  generalize v % d = r at *
  generalize v / d = q at *
  split_ifs with h
  · rw [Int.ediv_eq_iff_of_pos (by omega)]
    constructor <;> nlinarith
  · rw [Int.ediv_eq_iff_of_pos (by omega)]
    constructor <;> nlinarith

/-- The fractional part of a quotient is its remainder. -/
theorem fract_div (v : ℤ) (hd : 0 < d) : Int.fract ((v : ℚ) / d) = ((v % d : ℤ) : ℚ) / d := by
  have hd' : (d : ℚ) ≠ 0 := by exact_mod_cast hd.ne'
  have hmod : ((v % d : ℤ) : ℚ) = v - d * (v / d : ℤ) := by
    have := Int.emod_def v d
    exact_mod_cast this
  rw [Int.fract, Rat.floor_intCast_div_natCast, hmod]
  field_simp

/-- **Rounding a quotient** of integers is rounding the rational number, in each of the four modes. -/
theorem round_div (v : ℤ) (hd : 0 < d) : m.round ((v : ℚ) / d) = m.roundDiv v d := by
  have hd' : (0 : ℚ) < d := by exact_mod_cast hd
  have hhalf : Int.fract ((v : ℚ) / d) = 1 / 2 ↔ 2 * (v % d) = d := by
    rw [fract_div v hd, div_eq_div_iff hd'.ne' (by norm_num), one_mul]
    constructor
    · intro h
      have : (v % d) * 2 = (d : ℤ) := by exact_mod_cast h
      omega
    · intro h
      have : (v % d) * 2 = (d : ℤ) := by omega
      exact_mod_cast this
  have hzero : Int.fract ((v : ℚ) / d) = 0 ↔ v % d = 0 := by
    rw [fract_div v hd, div_eq_zero_iff]
    constructor
    · intro h
      exact_mod_cast h.resolve_right hd'.ne'
    · intro h
      left
      exact_mod_cast h
  have hfloor : ⌊(v : ℚ) / d⌋ = v / d := Rat.floor_intCast_div_natCast v d
  cases m with
  | rnu => exact floor_div_add_half v hd
  | rne =>
    simp only [round, roundDiv, Up, hhalf, hfloor, floor_div_add_half v hd, Int.even_iff]
    split_ifs <;> omega
  | rdn => exact hfloor
  | rod =>
    simp only [round, roundDiv, Up, ne_eq, hzero, hfloor, Int.even_iff]
    split_ifs <;> omega

@[simp] theorem roundDiv_one (v : ℤ) : m.roundDiv v 1 = v := by
  cases m <;> simp [roundDiv, Up]

/-- An integer is not rounded. -/
@[simp] theorem round_intCast (v : ℤ) : m.round v = v := by
  have h := m.round_div v (d := 1) one_pos
  rw [Nat.cast_one, div_one, roundDiv_one] at h
  exact h

/-- Of the quotient, rounding looks at the parity only. -/
theorem up_add_mul (q k r d : ℤ) : m.Up (q + 2 * k) r d ↔ m.Up q r d := by
  cases m <;> simp [Up, Int.add_mul_emod_self_left]

/-- Rounding commutes with adding an even number. -/
theorem roundDiv_add_mul (v k : ℤ) (hd : 0 < d) :
    m.roundDiv (v + 2 * k * d) d = m.roundDiv v d + 2 * k := by
  have hdz : (d : ℤ) ≠ 0 := by exact_mod_cast hd.ne'
  unfold roundDiv
  rw [Int.add_mul_ediv_right _ _ hdz, Int.add_mul_emod_self_right, if_congr (m.up_add_mul _ _ _ _) rfl rfl]
  split_ifs <;> ring

/-- A rounded quotient is one of the two integers next to it. -/
theorem roundDiv_bounds (v : ℤ) (d : ℕ) : v / d ≤ m.roundDiv v d ∧ m.roundDiv v d ≤ v / d + 1 := by
  unfold roundDiv
  split_ifs <;> omega

/-- An exact quotient is not rounded up. -/
theorem not_up_zero (q : ℤ) {d : ℤ} (hd : 0 < d) : ¬m.Up q 0 d := by
  cases m <;> simp [Up] <;> omega

/-- A rounded quotient does not pass an integer. -/
theorem roundDiv_le {v k : ℤ} (hd : 0 < d) (h : v ≤ k * d) : m.roundDiv v d ≤ k := by
  have hdz : (0 : ℤ) < d := by exact_mod_cast hd
  have hle : v / d ≤ k := by
    calc v / d ≤ k * d / d := Int.ediv_le_ediv hdz h
      _ = k := Int.mul_ediv_cancel k hdz.ne'
  rcases hle.lt_or_eq with hlt | heq
  · exact (m.roundDiv_bounds v d).2.trans hlt
  · -- then the quotient is exact
    have hmod : v % d = 0 := by
      have hsum := Int.emod_add_mul_ediv v d
      have hge := Int.emod_nonneg v hdz.ne'
      rw [heq, mul_comm] at hsum
      omega
    rw [roundDiv, hmod, if_neg (m.not_up_zero _ hdz)]
    exact hle

theorem le_roundDiv {v k : ℤ} (hd : 0 < d) (h : k * d ≤ v) : k ≤ m.roundDiv v d := by
  have hdz : (0 : ℤ) < d := by exact_mod_cast hd
  exact ((Int.le_ediv_iff_mul_le hdz).2 h).trans (m.roundDiv_bounds v d).1

end RoundingMode

/-- A number moved to the nearest one in an interval. -/
def saturate (lo hi x : ℤ) : ℤ := max lo (min hi x)

theorem saturate_of_mem {lo hi x : ℤ} (hlo : lo ≤ x) (hhi : x ≤ hi) : saturate lo hi x = x := by
  unfold saturate
  omega

theorem saturate_of_lt {lo hi x : ℤ} (h : x < lo) : saturate lo hi x = lo := by
  unfold saturate
  omega

theorem saturate_of_gt {lo hi x : ℤ} (hle : lo ≤ hi) (h : hi < x) : saturate lo hi x = hi := by
  unfold saturate
  omega

end RiscvVp
