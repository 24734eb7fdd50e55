import RiscvVp.Lib.FixedPoint
import RiscvVp.Vec.Equiv.Operands

/-!
# Rounding in the vector unit

`vRound` shifts to the right and adds an increment that it computes from the bits it shifts out and from
the last bit that it keeps.  This is the quotient by a power of two, rounded as `vxrm` says, for signed
and for unsigned numbers: a 64-bit word never overflows.
-/

namespace RiscvVp.Vec

/-! ### Bits as numbers -/

theorem bit_eq (b : Bool) : bit b = (BitVec.ofBool b).setWidth 64 := by
  cases b <;> decide

theorem bit_and (a b : Bool) : bit a &&& bit b = bit (a && b) := by
  cases a <;> cases b <;> decide

theorem bit_or (a b : Bool) : bit a ||| bit b = bit (a || b) := by
  cases a <;> cases b <;> decide

theorem bit_beq_zero (b : Bool) : (bit b == 0) = !b := by
  cases b <;> decide

@[simp] theorem toNat_bit (b : Bool) : (bit b).toNat = b.toNat := by
  cases b <;> decide

/-- The last bit after a shift, signed or not. -/
theorem shr_and_one (signed : Bool) (v : BitVec 64) {d : ℕ} (hd : d < 64) :
    shr signed v d &&& 1 = bit (v.getLsbD d) := by
  have hbit : (shr signed v d).getLsbD 0 = v.getLsbD d := by
    cases signed with
    | false => simp [shr]
    | true =>
      rw [shr, if_pos rfl, BitVec.getLsbD_sshiftRight]
      simp [hd]
  rw [bit_eq, ← hbit]
  exact BitVec.and_one_eq_setWidth_ofBool_getLsbD

/-- Half of a mask is the mask for one bit less. -/
theorem getMask_ushiftRight {d : ℕ} (hpos : 0 < d) (hd : d < 64) : getMask d >>> 1 = getMask (d - 1) := by
  apply BitVec.eq_of_toNat_eq
  rw [BitVec.toNat_ushiftRight, getMask_toNat hd.le, getMask_toNat (by omega), Nat.shiftRight_eq_div_pow]
  obtain ⟨k, rfl⟩ : ∃ k, d = k + 1 := ⟨d - 1, by omega⟩
  rw [Nat.add_sub_cancel, Nat.pow_succ]
  omega

/-- Whether a value has bits below bit `d`. -/
theorem and_getMask_ne_zero (v : BitVec 64) {d : ℕ} (hd : d ≤ 64) :
    (v &&& getMask d != 0) = decide (v.toNat % 2 ^ d ≠ 0) := by
  rw [Bool.eq_iff_iff, bne_iff_ne, decide_eq_true_eq, ← toNat_and_getMask v hd, ne_eq, ne_eq,
    ← BitVec.toNat_inj]
  rfl

/-! ### The increment -/

/-- The rounding mode that `vxrm` selects. -/
def roundingMode (vxrm : BitVec 2) : RoundingMode :=
  if vxrm = 0 then .rnu else if vxrm = 1 then .rne else if vxrm = 2 then .rdn else .rod

/-- The first bit that is shifted out and the rest of the remainder. -/
theorem remainder_eq (v : ℕ) (k : ℕ) : v % 2 ^ (k + 1) = v % 2 ^ k + 2 ^ k * (v / 2 ^ k % 2) := by
  rw [Nat.pow_succ, Nat.mod_mul]

/-- The increment says whether the quotient is to be rounded up. -/
theorem getRoundingIncrement_eq (vxrm : BitVec 2) (signed : Bool) (v : BitVec 64) {d : ℕ} (hd : d < 64) :
    getRoundingIncrement vxrm signed v d =
      bit (decide ((roundingMode vxrm).Up ((v.toNat / 2 ^ d : ℕ) : ℤ) ((v.toNat % 2 ^ d : ℕ) : ℤ)
        ((2 ^ d : ℕ) : ℤ))) := by
  have hmodes : vxrm = 0 ∨ vxrm = 1 ∨ vxrm = 2 ∨ vxrm = 3 := by
    revert vxrm
    decide
  have hlsb : v.getLsbD d = decide (v.toNat / 2 ^ d % 2 = 1) := by
    rw [BitVec.getLsbD, Nat.testBit_eq_decide_div_mod_eq]
  unfold getRoundingIncrement
  simp only [shr_and_one _ _ hd, and_getMask_ne_zero v hd.le, bit_beq_zero, hlsb]
  rcases Nat.eq_zero_or_pos d with rfl | hpos
  · -- nothing is shifted out
    rw [if_pos rfl, pow_zero, Nat.mod_one]
    rcases hmodes with rfl | rfl | rfl | rfl <;> simp [roundingMode, RoundingMode.Up, bit]
  · -- `half` is the highest of the bits that are shifted out and `low` the number of the others
    obtain ⟨k, rfl⟩ : ∃ k, d = k + 1 := ⟨d - 1, by omega⟩
    have hhalf : v.getLsbD k = decide (v.toNat / 2 ^ k % 2 = 1) := by
      rw [BitVec.getLsbD, Nat.testBit_eq_decide_div_mod_eq]
    have hlow := Nat.mod_lt v.toNat (Nat.two_pow_pos k)
    have hbit := Nat.mod_two_eq_zero_or_one (v.toNat / 2 ^ k)
    rw [getMask_ushiftRight hpos hd, if_neg hpos.ne', Nat.add_sub_cancel, shr_and_one _ _ (by omega),
      and_getMask_ne_zero v (by omega), hhalf, remainder_eq, Nat.pow_succ']
    generalize v.toNat / (2 * 2 ^ k) = q at *
    generalize v.toNat / 2 ^ k % 2 = half at *
    generalize v.toNat % 2 ^ k = low at *
    generalize 2 ^ k = small at *
    rcases hmodes with rfl | rfl | rfl | rfl
    · -- to nearest, ties up
      rw [if_pos rfl]
      congr 1
      show decide (half = 1) = decide (((2 * small : ℕ) : ℤ) ≤ 2 * ((low + small * half : ℕ) : ℤ))
      rw [decide_eq_decide]
      rcases hbit with rfl | rfl
      · simp only [zero_ne_one, false_iff, not_le]
        omega
      · simp only [true_iff]
        omega
    · -- to nearest, ties to even
      rw [if_neg (by decide), if_pos rfl, bit_or, bit_and]
      congr 1
      show _ = decide (((2 * small : ℕ) : ℤ) < 2 * ((low + small * half : ℕ) : ℤ) ∨
        2 * ((low + small * half : ℕ) : ℤ) = ((2 * small : ℕ) : ℤ) ∧ (q : ℤ) % 2 = 1)
      rw [← Bool.decide_or, ← Bool.decide_and, decide_eq_decide]
      rcases hbit with rfl | rfl
      · simp only [zero_ne_one, false_and, false_iff]
        omega
      · simp only [true_and]
        omega
    · -- down
      rw [if_neg (by decide), if_neg (by decide), if_pos rfl]
      rfl
    · -- to odd
      rw [if_neg (by decide), if_neg (by decide), if_neg (by decide), bit_and]
      congr 1
      show _ = decide (((low + small * half : ℕ) : ℤ) ≠ 0 ∧ (q : ℤ) % 2 = 0)
      rw [← decide_not, ← Bool.decide_and, decide_eq_decide]
      rcases hbit with rfl | rfl <;> omega

/-! ### `vRound` -/

/-- An unsigned number, shifted and rounded: the quotient is not cut, so it can be read off exactly. -/
theorem toNat_vRound (vxrm : BitVec 2) (v : BitVec 64) {d : ℕ} (hd : d < 64) :
    ((vRound vxrm false v d).toNat : ℤ) = (roundingMode vxrm).roundDiv v.toNat (2 ^ d) := by
  have hlt := v.isLt
  have hbounds := (roundingMode vxrm).roundDiv_bounds v.toNat (2 ^ d)
  have hup : ((vRound vxrm false v d).toNat : ℤ)
      = (roundingMode vxrm).roundDiv v.toNat (2 ^ d) % 2 ^ 64 := by
    have hshr : (shr false v d).toNat = v.toNat / 2 ^ d := by
      rw [shr, if_neg (by decide), BitVec.toNat_ushiftRight, Nat.shiftRight_eq_div_pow]
    rw [vRound, if_neg hd.ne, getRoundingIncrement_eq vxrm false v hd, BitVec.toNat_add, toNat_bit, hshr,
      RoundingMode.roundDiv, ← Int.natCast_ediv, ← Int.natCast_emod]
    split_ifs with h
    · rw [decide_eq_true h]
      push_cast
      rfl
    · rw [decide_eq_false h]
      push_cast
      simp
  rw [hup, Int.emod_eq_of_lt]
  · exact le_trans (Int.ediv_nonneg (Int.natCast_nonneg _) (Int.natCast_nonneg _)) hbounds.1
  · rcases Nat.eq_zero_or_pos d with rfl | hpos
    · rw [pow_zero, RoundingMode.roundDiv_one]
      exact_mod_cast hlt
    · have hdiv : v.toNat / 2 ^ d < 2 ^ 63 := by
        rw [Nat.div_lt_iff_lt_mul (Nat.two_pow_pos d)]
        have : 2 ^ 1 ≤ 2 ^ d := Nat.pow_le_pow_right (by decide) hpos
        omega
      rw [← Int.natCast_ediv] at hbounds
      have hle := hbounds.2
      omega

/-- A signed word differs from the unsigned word by an even multiple of what a shift divides by. -/
theorem toInt_eq_add_mul (v : BitVec 64) {d : ℕ} (hd : d < 64) :
    ∃ k : ℤ, v.toInt = v.toNat + 2 * k * ((2 ^ d : ℕ) : ℤ) := by
  have hpow : (2 : ℤ) * 2 ^ (63 - d) * 2 ^ d = 2 ^ 64 := by
    rw [mul_assoc, ← pow_add, show 63 - d + d = 63 by omega]
    norm_num
  rw [BitVec.toInt_eq_toNat_cond]
  split_ifs
  · exact ⟨0, by ring⟩
  · refine ⟨-2 ^ (63 - d), ?_⟩
    push_cast
    linarith

/-- A signed number, shifted and rounded: the shift is arithmetic and the increment goes upwards. -/
theorem toInt_vRound (vxrm : BitVec 2) (v : BitVec 64) {d : ℕ} (hd : d < 64) :
    (vRound vxrm true v d).toInt = (roundingMode vxrm).roundDiv v.toInt (2 ^ d) := by
  have hge := BitVec.le_toInt v
  have hlt := BitVec.toInt_lt (x := v)
  have hbounds := (roundingMode vxrm).roundDiv_bounds v.toInt (2 ^ d)
  have hbit (b : Bool) : (bit b).toInt = b.toNat := by cases b <;> decide
  have hshr : (shr true v d).toInt = v.toInt / ((2 ^ d : ℕ) : ℤ) := by
    rw [shr, if_pos rfl, BitVec.toInt_sshiftRight, Int.shiftRight_eq_div_pow]
  -- the bits of the word and its value as a signed number agree on the increment
  have hup : (roundingMode vxrm).Up ((v.toNat / 2 ^ d : ℕ) : ℤ) ((v.toNat % 2 ^ d : ℕ) : ℤ)
        ((2 ^ d : ℕ) : ℤ) ↔
      (roundingMode vxrm).Up (v.toInt / ((2 ^ d : ℕ) : ℤ)) (v.toInt % ((2 ^ d : ℕ) : ℤ))
        ((2 ^ d : ℕ) : ℤ) := by
    obtain ⟨k, hk⟩ := toInt_eq_add_mul v hd
    have hne : ((2 ^ d : ℕ) : ℤ) ≠ 0 := by positivity
    rw [hk, Int.add_mul_ediv_right _ _ hne, Int.add_mul_emod_self_right, RoundingMode.up_add_mul,
      Int.natCast_ediv, Int.natCast_emod]
  have hsum : (vRound vxrm true v d).toInt
      = Int.bmod ((roundingMode vxrm).roundDiv v.toInt (2 ^ d)) (2 ^ 64) := by
    rw [vRound, if_neg hd.ne, getRoundingIncrement_eq vxrm true v hd, BitVec.toInt_add, hbit, hshr,
      decide_eq_decide.2 hup, RoundingMode.roundDiv]
    split_ifs with h
    · rw [decide_eq_true h]
      rfl
    · rw [decide_eq_false h]
      simp
  rw [hsum]
  rcases Nat.eq_zero_or_pos d with rfl | hpos
  · rw [pow_zero, RoundingMode.roundDiv_one]
    exact BitVec.toInt_bmod_cancel v
  · have h2 : (2 : ℤ) ≤ ((2 ^ d : ℕ) : ℤ) := by
      have : 2 ^ 1 ≤ 2 ^ d := Nat.pow_le_pow_right (by decide) hpos
      exact_mod_cast this
    obtain ⟨hb1, hb2⟩ := hbounds
    clear hup hshr hsum
    generalize ((2 ^ d : ℕ) : ℤ) = D at *
    have hlo : -2 ^ 62 ≤ v.toInt / D := by
      rw [Int.le_ediv_iff_mul_le (by omega)]
      omega
    have hhi : v.toInt / D < 2 ^ 62 := by
      rw [Int.ediv_lt_iff_lt_mul (by omega)]
      omega
    apply Int.bmod_eq_of_le
    · omega
    · omega

end RiscvVp.Vec
