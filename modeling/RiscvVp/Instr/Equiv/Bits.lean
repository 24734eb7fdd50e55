import RiscvVp.Instr.Basic

/-!
# The bit helpers, bit by bit

What the macros of `util/common.h` do to each bit of a word, for the positions of a 32-bit word.
-/

namespace RiscvVp.Instr

variable {instr : Instr} {i : ℕ} (hi : i < 32)

/-- The `n` lowest bits, as the mask that the source computes by a shift and a decrement. -/
theorem getElem_mask {n : ℕ} (hn : n ≤ 32) : ((1#32 <<< n) - 1)[i] = decide (i < n) := by
  have hnat : ((1#32 <<< n) - 1).toNat = 2 ^ n - 1 := by
    have hone : (1#32).toNat = 1 := rfl
    rw [BitVec.toNat_sub, BitVec.toNat_shiftLeft, Nat.shiftLeft_eq, hone, Nat.one_mul]
    show (2 ^ 32 - 1 + 2 ^ n % 2 ^ 32) % 2 ^ 32 = 2 ^ n - 1
    have hpos : 0 < 2 ^ n := Nat.two_pow_pos n
    have hle : 2 ^ n ≤ 2 ^ 32 := Nat.pow_le_pow_right (by omega) hn
    rcases Nat.lt_or_eq_of_le hle with hlt | heq
    · omega
    · rw [heq]
      rfl
  rw [← BitVec.getLsbD_eq_getElem, BitVec.getLsbD, hnat, Nat.testBit_two_pow_sub_one]

@[simp]
theorem getElem_bitRange {upper lower : ℕ} (h : lower ≤ upper) (hu : upper < 32) :
    (instr.bitRange upper lower)[i] = (decide (lower ≤ i ∧ i ≤ upper) && instr.getLsbD i) := by
  unfold bitRange
  rw [BitVec.getElem_and, BitVec.getElem_shiftLeft, BitVec.getLsbD_eq_getElem hi, Bool.and_comm]
  by_cases hlow : i < lower
  · simp [hlow]
  · rw [getElem_mask (by omega) (by omega)]
    have hiff : i - lower < upper - lower + 1 ↔ lower ≤ i ∧ i ≤ upper := by omega
    simp only [hlow, hiff, decide_false, Bool.not_false, Bool.true_and]

@[simp]
theorem getElem_bitSlice {upper lower : ℕ} (h : lower ≤ upper) (hu : upper < 32) :
    (instr.bitSlice upper lower)[i] = (decide (i ≤ upper - lower) && instr.getLsbD (lower + i)) := by
  unfold bitSlice
  rw [BitVec.getElem_ushiftRight]
  by_cases hlt : lower + i < 32
  · rw [BitVec.getLsbD_eq_getElem hlt, getElem_bitRange hlt h hu, BitVec.getLsbD_eq_getElem hlt]
    have hiff : lower ≤ lower + i ∧ lower + i ≤ upper ↔ i ≤ upper - lower := by omega
    simp only [hiff]
  · rw [BitVec.getLsbD_of_ge _ _ (by omega), BitVec.getLsbD_of_ge _ _ (by omega), Bool.and_false]

@[simp]
theorem getElem_bitSingle {pos : ℕ} :
    (instr.bitSingle pos)[i] = (decide (i = pos) && instr.getLsbD pos) := by
  unfold bitSingle
  rw [BitVec.getElem_and, ← BitVec.getLsbD_eq_getElem]
  by_cases heq : i = pos
  · subst heq
    simp [hi]
  · have hone : (1#32 <<< pos)[i] = false := by
      rw [BitVec.getElem_shiftLeft]
      by_cases hlt : i < pos
      · simp [hlt]
      · have hne : i - pos ≠ 0 := by omega
        simp [hne]
    simp [hone, heq]

@[simp]
theorem getElem_bitSingleP1 {pos : ℕ} (hpos : pos < 32) :
    (instr.bitSingleP1 pos)[i] = (decide (i = 0) && instr.getLsbD pos) := by
  unfold bitSingleP1
  rw [BitVec.getElem_ushiftRight]
  by_cases hlt : pos + i < 32
  · rw [BitVec.getLsbD_eq_getElem hlt, getElem_bitSingle hlt]
    have hiff : pos + i = pos ↔ i = 0 := by omega
    simp only [hiff]
  · have hne : i ≠ 0 := by omega
    rw [BitVec.getLsbD_of_ge _ _ (by omega)]
    simp [hne]

@[simp]
theorem getElem_bitSinglePN {pos newPos : ℕ} (hpos : pos < 32) :
    (instr.bitSinglePN pos newPos)[i] = (decide (i = newPos) && instr.getLsbD pos) := by
  have h : instr.bitSinglePN pos newPos = instr.bitSingleP1 pos <<< newPos := rfl
  rw [h, BitVec.getElem_shiftLeft]
  by_cases hlt : i < newPos
  · have hne : i ≠ newPos := by omega
    simp [hlt, hne]
  · rw [getElem_bitSingleP1 (by omega) hpos]
    have hiff : i - newPos = 0 ↔ i = newPos := by omega
    simp only [hlt, hiff, decide_false, Bool.not_false, Bool.true_and]

/-- The bit at `pos` fills the word from `newPos` on. -/
@[simp]
theorem getElem_extractSignBit {pos newPos : ℕ} (hpos : pos < 32) (hnew : newPos < 32) :
    (instr.extractSignBit pos newPos)[i] = (decide (newPos ≤ i) && instr.getLsbD pos) := by
  have hbit : ∀ (j : ℕ) (hj : j < 32),
      (instr.bitSingleP1 pos <<< 31)[j] = (decide (j = 31) && instr.getLsbD pos) := by
    intro j hj
    rw [BitVec.getElem_shiftLeft]
    by_cases hlt : j < 31
    · have hne : j ≠ 31 := by omega
      simp [hlt, hne]
    · have heq : j = 31 := by omega
      subst heq
      simp [getElem_bitSingleP1 _ hpos]
  unfold extractSignBit
  rw [BitVec.getElem_sshiftRight]
  by_cases hle : newPos ≤ i
  · split_ifs with hlt
    · rw [hbit]
      have heq : 31 - newPos + i = 31 := by omega
      simp [heq, hle]
    · rw [BitVec.msb_eq_getLsbD_last, BitVec.getLsbD_eq_getElem (by omega), hbit]
      simp [hle]
  · rw [dif_pos (by omega), hbit]
    have hne : 31 - newPos + i ≠ 31 := by omega
    simp [hne, hle]

end RiscvVp.Instr
