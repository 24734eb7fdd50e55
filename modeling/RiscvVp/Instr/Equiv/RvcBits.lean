import RiscvVp.Instr.Rvc
import RiscvVp.Instr.Equiv.Bits
import RiscvVp.Instr.Compressed

/-!
# The fields of a compressed word

What the accessors of `Instruction` for compressed words read from the encoding of a compressed
instruction: its registers, and its immediate with the bits back in their order.
-/

namespace RiscvVp.Rvc

open Instr

/-! ### The bits of an encoding -/

section Bits

variable {i : ℕ} (hi : i < 11)

theorem getElem_half (f3 : BitVec 3) (b : BitVec 11) (q : BitVec 2) (hlt : i < 16) :
    (half f3 b q)[i] =
      if i < 2 then q.getLsbD i else if i < 13 then b.getLsbD (i - 2) else f3.getLsbD (i - 13) := by
  rw [← BitVec.getLsbD_eq_getElem]
  show (f3 ++ b ++ q).getLsbD i = _
  simp only [BitVec.getLsbD_append]
  interval_cases i <;> rfl

theorem getElem_jumpBits (u : BitVec 11) :
    (jumpBits u)[i] = u.getLsbD ([4, 0, 1, 2, 6, 5, 9, 7, 8, 3, 10].getD i 0) := by
  rw [← BitVec.getLsbD_eq_getElem]
  show (u.extractLsb' 10 1 ++ u.extractLsb' 3 1 ++ u.extractLsb' 7 2 ++ u.extractLsb' 9 1 ++
    u.extractLsb' 5 1 ++ u.extractLsb' 6 1 ++ u.extractLsb' 0 3 ++ u.extractLsb' 4 1).getLsbD i = _
  simp only [BitVec.getLsbD_append]
  interval_cases i <;> simp

theorem getElem_addi4spnBits (rd : BitVec 3) (u : BitVec 8) :
    (addi4spnBits rd u)[i] =
      if i < 3 then rd.getLsbD i else u.getLsbD ([1, 0, 4, 5, 6, 7, 2, 3].getD (i - 3) 0) := by
  rw [← BitVec.getLsbD_eq_getElem]
  show (u.extractLsb' 2 2 ++ u.extractLsb' 4 4 ++ u.extractLsb' 0 1 ++ u.extractLsb' 1 1 ++
    rd).getLsbD i = _
  simp only [BitVec.getLsbD_append]
  interval_cases i <;> simp

theorem getElem_wordBits (rs1 r : BitVec 3) (u : BitVec 5) :
    (wordBits rs1 r u)[i] =
      if i < 3 then r.getLsbD i
      else if 5 ≤ i ∧ i < 8 then rs1.getLsbD (i - 5)
      else u.getLsbD ([4, 0, 0, 0, 0, 1, 2, 3].getD (i - 3) 0) := by
  rw [← BitVec.getLsbD_eq_getElem]
  show (u.extractLsb' 1 3 ++ rs1 ++ u.extractLsb' 0 1 ++ u.extractLsb' 4 1 ++ r).getLsbD i = _
  simp only [BitVec.getLsbD_append]
  interval_cases i <;> simp

theorem getElem_doubleBits (rs1 r : BitVec 3) (u : BitVec 5) :
    (doubleBits rs1 r u)[i] =
      if i < 3 then r.getLsbD i
      else if 5 ≤ i ∧ i < 8 then rs1.getLsbD (i - 5)
      else u.getLsbD ([3, 4, 0, 0, 0, 0, 1, 2].getD (i - 3) 0) := by
  rw [← BitVec.getLsbD_eq_getElem]
  show (u.extractLsb' 0 3 ++ rs1 ++ u.extractLsb' 3 2 ++ r).getLsbD i = _
  simp only [BitVec.getLsbD_append]
  interval_cases i <;> simp

theorem getElem_immBits (rd : BitVec 5) (u : BitVec 6) :
    (immBits rd u)[i] =
      if i < 5 then u.getLsbD i else if i < 10 then rd.getLsbD (i - 5) else u.getLsbD 5 := by
  rw [← BitVec.getLsbD_eq_getElem]
  show (u.extractLsb' 5 1 ++ rd ++ u.extractLsb' 0 5).getLsbD i = _
  simp only [BitVec.getLsbD_append]
  interval_cases i <;> simp

theorem getElem_addi16spBits (u : BitVec 6) :
    (addi16spBits u)[i] =
      if 5 ≤ i ∧ i < 10 then (2#5).getLsbD (i - 5)
      else u.getLsbD ([1, 3, 4, 2, 0, 0, 0, 0, 0, 0, 5].getD i 0) := by
  rw [← BitVec.getLsbD_eq_getElem]
  show (u.extractLsb' 5 1 ++ 2#5 ++ u.extractLsb' 0 1 ++ u.extractLsb' 2 1 ++ u.extractLsb' 3 2 ++
    u.extractLsb' 1 1).getLsbD i = _
  simp only [BitVec.getLsbD_append]
  interval_cases i <;> simp

theorem getElem_smallImmBits (f2 : BitVec 2) (rd : BitVec 3) (u : BitVec 6) :
    (smallImmBits f2 rd u)[i] =
      if i < 5 then u.getLsbD i
      else if i < 8 then rd.getLsbD (i - 5)
      else if i < 10 then f2.getLsbD (i - 8)
      else u.getLsbD 5 := by
  rw [← BitVec.getLsbD_eq_getElem]
  show (u.extractLsb' 5 1 ++ f2 ++ rd ++ u.extractLsb' 0 5).getLsbD i = _
  simp only [BitVec.getLsbD_append]
  interval_cases i <;> simp

theorem getElem_aluBits (wide : BitVec 1) (rd : BitVec 3) (f2 : BitVec 2) (rs2 : BitVec 3) :
    (aluBits wide rd f2 rs2)[i] =
      if i < 3 then rs2.getLsbD i
      else if i < 5 then f2.getLsbD (i - 3)
      else if i < 8 then rd.getLsbD (i - 5)
      else if i < 10 then true
      else wide.getLsbD 0 := by
  rw [← BitVec.getLsbD_eq_getElem]
  show (wide ++ 0b11#2 ++ rd ++ f2 ++ rs2).getLsbD i = _
  simp only [BitVec.getLsbD_append]
  interval_cases i <;> simp

theorem getElem_branchBits (rs1 : BitVec 3) (u : BitVec 8) :
    (branchBits rs1 u)[i] =
      if 5 ≤ i ∧ i < 8 then rs1.getLsbD (i - 5)
      else u.getLsbD ([4, 0, 1, 5, 6, 0, 0, 0, 2, 3, 7].getD i 0) := by
  rw [← BitVec.getLsbD_eq_getElem]
  show (u.extractLsb' 7 1 ++ u.extractLsb' 2 2 ++ rs1 ++ u.extractLsb' 5 2 ++ u.extractLsb' 0 2 ++
    u.extractLsb' 4 1).getLsbD i = _
  simp only [BitVec.getLsbD_append]
  interval_cases i <;> simp

theorem getElem_loadWordSpBits (rd : BitVec 5) (u : BitVec 6) :
    (loadWordSpBits rd u)[i] =
      if 5 ≤ i ∧ i < 10 then rd.getLsbD (i - 5)
      else u.getLsbD ([4, 5, 0, 1, 2, 0, 0, 0, 0, 0, 3].getD i 0) := by
  rw [← BitVec.getLsbD_eq_getElem]
  show (u.extractLsb' 3 1 ++ rd ++ u.extractLsb' 0 3 ++ u.extractLsb' 4 2).getLsbD i = _
  simp only [BitVec.getLsbD_append]
  interval_cases i <;> simp

theorem getElem_loadDoubleSpBits (rd : BitVec 5) (u : BitVec 6) :
    (loadDoubleSpBits rd u)[i] =
      if 5 ≤ i ∧ i < 10 then rd.getLsbD (i - 5)
      else u.getLsbD ([3, 4, 5, 0, 1, 0, 0, 0, 0, 0, 2].getD i 0) := by
  rw [← BitVec.getLsbD_eq_getElem]
  show (u.extractLsb' 2 1 ++ rd ++ u.extractLsb' 0 2 ++ u.extractLsb' 3 3).getLsbD i = _
  simp only [BitVec.getLsbD_append]
  interval_cases i <;> simp

theorem getElem_storeWordSpBits (rs2 : BitVec 5) (u : BitVec 6) :
    (storeWordSpBits rs2 u)[i] =
      if i < 5 then rs2.getLsbD i else u.getLsbD ([4, 5, 0, 1, 2, 3].getD (i - 5) 0) := by
  rw [← BitVec.getLsbD_eq_getElem]
  show (u.extractLsb' 0 4 ++ u.extractLsb' 4 2 ++ rs2).getLsbD i = _
  simp only [BitVec.getLsbD_append]
  interval_cases i <;> simp

theorem getElem_storeDoubleSpBits (rs2 : BitVec 5) (u : BitVec 6) :
    (storeDoubleSpBits rs2 u)[i] =
      if i < 5 then rs2.getLsbD i else u.getLsbD ([3, 4, 5, 0, 1, 2].getD (i - 5) 0) := by
  rw [← BitVec.getLsbD_eq_getElem]
  show (u.extractLsb' 0 3 ++ u.extractLsb' 3 3 ++ rs2).getLsbD i = _
  simp only [BitVec.getLsbD_append]
  interval_cases i <;> simp

theorem getElem_moveBits (link : BitVec 1) (rd rs2 : BitVec 5) :
    (moveBits link rd rs2)[i] =
      if i < 5 then rs2.getLsbD i else if i < 10 then rd.getLsbD (i - 5) else link.getLsbD 0 := by
  rw [← BitVec.getLsbD_eq_getElem]
  show (link ++ rd ++ rs2).getLsbD i = _
  simp only [BitVec.getLsbD_append]
  interval_cases i <;> simp

end Bits

/-- A word with a compressed instruction in its lower half. -/
def word (hi : BitVec 16) (c : BitVec 16) : Instr := hi ++ c

theorem getElem_word (hi : BitVec 16) (c : BitVec 16) (i : ℕ) (h : i < 32) :
    (word hi c)[i] = if i < 16 then c.getLsbD i else hi.getLsbD (i - 16) := by
  rw [← BitVec.getLsbD_eq_getElem]
  exact BitVec.getLsbD_append

variable (hi : BitVec 16) (f3 : BitVec 3) (b : BitVec 11) (q : BitVec 2)

/-! ### Fields -/

theorem quadrant_word : (word hi (half f3 b q)).quadrant = q.setWidth 32 := by
  ext i hlt
  unfold Instr.quadrant
  interval_cases i <;> simp [getElem_word, getElem_half]

theorem cOpcode_word : (word hi (half f3 b q)).cOpcode = f3.setWidth 32 := by
  ext i hlt
  unfold cOpcode
  interval_cases i <;> simp [getElem_word, getElem_half]

theorem cB12_word : (word hi (half f3 b q)).cB12 = (b.extractLsb' 10 1).setWidth 32 := by
  ext i hlt
  unfold cB12
  interval_cases i <;> simp [getElem_word, getElem_half]

theorem cRd_word : (word hi (half f3 b q)).cRd = (b.extractLsb' 5 5).setWidth 32 := by
  ext i hlt
  unfold cRd Instr.rd
  interval_cases i <;> simp [getElem_word, getElem_half]

theorem cRs2_word : (word hi (half f3 b q)).cRs2 = (b.extractLsb' 0 5).setWidth 32 := by
  ext i hlt
  unfold cRs2
  interval_cases i <;> simp [getElem_word, getElem_half]

theorem getElem_small (r : BitVec 3) (i : ℕ) (hi : i < 5) :
    (small r)[i] = if i < 3 then r.getLsbD i else decide (i = 3) := by
  rw [← BitVec.getLsbD_eq_getElem]
  show (0b01#2 ++ r).getLsbD i = _
  rw [BitVec.getLsbD_append]
  interval_cases i <;> simp

theorem cRdSmall_word : (word hi (half f3 b q)).cRdSmall = (small (b.extractLsb' 5 3)).setWidth 32 := by
  ext i hlt
  unfold cRdSmall
  interval_cases i <;> simp [getElem_word, getElem_half, getElem_small]

theorem cRs2Small_word : (word hi (half f3 b q)).cRs2Small = (small (b.extractLsb' 0 3)).setWidth 32 := by
  ext i hlt
  unfold cRs2Small
  interval_cases i <;> simp [getElem_word, getElem_half, getElem_small]

theorem cF2High_word : (word hi (half f3 b q)).cF2High = (b.extractLsb' 8 2).setWidth 32 := by
  ext i hlt
  unfold cF2High
  interval_cases i <;> simp [getElem_word, getElem_half]

theorem cF2Low_word : (word hi (half f3 b q)).cF2Low = (b.extractLsb' 3 2).setWidth 32 := by
  ext i hlt
  unfold cF2Low
  interval_cases i <;> simp [getElem_word, getElem_half]

theorem cFormat_word (c : BitVec 16) : (word hi c).cFormat = c.setWidth 32 := by
  ext i hlt
  unfold cFormat
  interval_cases i <;> simp [getElem_word]

/-! ### Registers -/

@[simp]
theorem rd_addi4spnBits (rd : BitVec 3) (u : BitVec 8) : (addi4spnBits rd u).extractLsb' 0 3 = rd := by
  ext i hlt
  interval_cases i <;> simp [getElem_addi4spnBits]

@[simp]
theorem rs1_wordBits (rs1 r : BitVec 3) (u : BitVec 5) : (wordBits rs1 r u).extractLsb' 5 3 = rs1 := by
  ext i hlt
  interval_cases i <;> simp [getElem_wordBits]

@[simp]
theorem r_wordBits (rs1 r : BitVec 3) (u : BitVec 5) : (wordBits rs1 r u).extractLsb' 0 3 = r := by
  ext i hlt
  interval_cases i <;> simp [getElem_wordBits]

@[simp]
theorem rs1_doubleBits (rs1 r : BitVec 3) (u : BitVec 5) : (doubleBits rs1 r u).extractLsb' 5 3 = rs1 := by
  ext i hlt
  interval_cases i <;> simp [getElem_doubleBits]

@[simp]
theorem r_doubleBits (rs1 r : BitVec 3) (u : BitVec 5) : (doubleBits rs1 r u).extractLsb' 0 3 = r := by
  ext i hlt
  interval_cases i <;> simp [getElem_doubleBits]

@[simp]
theorem rd_immBits (rd : BitVec 5) (u : BitVec 6) : (immBits rd u).extractLsb' 5 5 = rd := by
  ext i hlt
  interval_cases i <;> simp [getElem_immBits]

@[simp]
theorem sp_addi16spBits (u : BitVec 6) : (addi16spBits u).extractLsb' 5 5 = 2#5 := by
  ext i hlt
  interval_cases i <;> simp [getElem_addi16spBits]

@[simp]
theorem rd_smallImmBits (f2 : BitVec 2) (rd : BitVec 3) (u : BitVec 6) :
    (smallImmBits f2 rd u).extractLsb' 5 3 = rd := by
  ext i hlt
  interval_cases i <;> simp [getElem_smallImmBits]

@[simp]
theorem funct2_smallImmBits (f2 : BitVec 2) (rd : BitVec 3) (u : BitVec 6) :
    (smallImmBits f2 rd u).extractLsb' 8 2 = f2 := by
  ext i hlt
  interval_cases i <;> simp [getElem_smallImmBits]

@[simp]
theorem rs2_aluBits (wide : BitVec 1) (rd : BitVec 3) (f2 : BitVec 2) (rs2 : BitVec 3) :
    (aluBits wide rd f2 rs2).extractLsb' 0 3 = rs2 := by
  ext i hlt
  interval_cases i <;> simp [getElem_aluBits]

@[simp]
theorem funct2_aluBits (wide : BitVec 1) (rd : BitVec 3) (f2 : BitVec 2) (rs2 : BitVec 3) :
    (aluBits wide rd f2 rs2).extractLsb' 3 2 = f2 := by
  ext i hlt
  interval_cases i <;> simp [getElem_aluBits]

@[simp]
theorem rd_aluBits (wide : BitVec 1) (rd : BitVec 3) (f2 : BitVec 2) (rs2 : BitVec 3) :
    (aluBits wide rd f2 rs2).extractLsb' 5 3 = rd := by
  ext i hlt
  interval_cases i <;> simp [getElem_aluBits]

@[simp]
theorem alu_aluBits (wide : BitVec 1) (rd : BitVec 3) (f2 : BitVec 2) (rs2 : BitVec 3) :
    (aluBits wide rd f2 rs2).extractLsb' 8 2 = 0b11#2 := by
  ext i hlt
  interval_cases i <;> simp [getElem_aluBits]

@[simp]
theorem wide_aluBits (wide : BitVec 1) (rd : BitVec 3) (f2 : BitVec 2) (rs2 : BitVec 3) :
    (aluBits wide rd f2 rs2).extractLsb' 10 1 = wide := by
  ext i hlt
  interval_cases i
  simp [getElem_aluBits]

@[simp]
theorem rs1_branchBits (rs1 : BitVec 3) (u : BitVec 8) : (branchBits rs1 u).extractLsb' 5 3 = rs1 := by
  ext i hlt
  interval_cases i <;> simp [getElem_branchBits]

@[simp]
theorem rd_loadWordSpBits (rd : BitVec 5) (u : BitVec 6) : (loadWordSpBits rd u).extractLsb' 5 5 = rd := by
  ext i hlt
  interval_cases i <;> simp [getElem_loadWordSpBits]

@[simp]
theorem rd_loadDoubleSpBits (rd : BitVec 5) (u : BitVec 6) :
    (loadDoubleSpBits rd u).extractLsb' 5 5 = rd := by
  ext i hlt
  interval_cases i <;> simp [getElem_loadDoubleSpBits]

@[simp]
theorem rs2_storeWordSpBits (rs2 : BitVec 5) (u : BitVec 6) :
    (storeWordSpBits rs2 u).extractLsb' 0 5 = rs2 := by
  ext i hlt
  interval_cases i <;> simp [getElem_storeWordSpBits]

@[simp]
theorem rs2_storeDoubleSpBits (rs2 : BitVec 5) (u : BitVec 6) :
    (storeDoubleSpBits rs2 u).extractLsb' 0 5 = rs2 := by
  ext i hlt
  interval_cases i <;> simp [getElem_storeDoubleSpBits]

@[simp]
theorem rs2_moveBits (link : BitVec 1) (rd rs2 : BitVec 5) :
    (moveBits link rd rs2).extractLsb' 0 5 = rs2 := by
  ext i hlt
  interval_cases i <;> simp [getElem_moveBits]

@[simp]
theorem rd_moveBits (link : BitVec 1) (rd rs2 : BitVec 5) : (moveBits link rd rs2).extractLsb' 5 5 = rd := by
  ext i hlt
  interval_cases i <;> simp [getElem_moveBits]

@[simp]
theorem link_moveBits (link : BitVec 1) (rd rs2 : BitVec 5) :
    (moveBits link rd rs2).extractLsb' 10 1 = link := by
  ext i hlt
  interval_cases i
  simp [getElem_moveBits]

/-! ### Immediates -/

theorem cAddi4spnNzuimm_word (rd : BitVec 3) (u : BitVec 8) :
    (word hi (half f3 (addi4spnBits rd u) q)).cAddi4spnNzuimm = u.setWidth 32 <<< 2 := by
  ext i hlt
  unfold cAddi4spnNzuimm
  interval_cases i <;> simp [getElem_word, getElem_half, getElem_addi4spnBits]

theorem cLwUimm_word (rs1 r : BitVec 3) (u : BitVec 5) :
    (word hi (half f3 (wordBits rs1 r u) q)).cLwUimm = u.setWidth 32 <<< 2 := by
  ext i hlt
  unfold cLwUimm
  interval_cases i <;> simp [getElem_word, getElem_half, getElem_wordBits]

theorem cLdUimm_word (rs1 r : BitVec 3) (u : BitVec 5) :
    (word hi (half f3 (doubleBits rs1 r u) q)).cLdUimm = u.setWidth 32 <<< 3 := by
  ext i hlt
  unfold cLdUimm
  interval_cases i <;> simp [getElem_word, getElem_half, getElem_doubleBits]

theorem cJalImm_word (u : BitVec 11) :
    (word hi (half f3 (jumpBits u) q)).cJalImm = u.signExtend 32 <<< 1 := by
  ext i hlt
  unfold cJalImm
  interval_cases i <;>
    simp [getElem_word, getElem_half, getElem_jumpBits, BitVec.getElem_signExtend,
      BitVec.msb_eq_getLsbD_last]

theorem cAddi16spNzimm_word (u : BitVec 6) :
    (word hi (half f3 (addi16spBits u) q)).cAddi16spNzimm = u.signExtend 32 <<< 4 := by
  ext i hlt
  unfold cAddi16spNzimm
  interval_cases i <;>
    simp [getElem_word, getElem_half, getElem_addi16spBits, BitVec.getElem_signExtend,
      BitVec.msb_eq_getLsbD_last]

theorem cLuiNzimm_word (rd : BitVec 5) (u : BitVec 6) :
    (word hi (half f3 (immBits rd u) q)).cLuiNzimm = u.signExtend 32 <<< 12 := by
  ext i hlt
  unfold cLuiNzimm
  interval_cases i <;>
    simp [getElem_word, getElem_half, getElem_immBits, BitVec.getElem_signExtend,
      BitVec.msb_eq_getLsbD_last]

theorem cBranchImm_word (rs1 : BitVec 3) (u : BitVec 8) :
    (word hi (half f3 (branchBits rs1 u) q)).cBranchImm = u.signExtend 32 <<< 1 := by
  ext i hlt
  unfold cBranchImm
  interval_cases i <;>
    simp [getElem_word, getElem_half, getElem_branchBits, BitVec.getElem_signExtend,
      BitVec.msb_eq_getLsbD_last]

theorem cLwspUimm_word (rd : BitVec 5) (u : BitVec 6) :
    (word hi (half f3 (loadWordSpBits rd u) q)).cLwspUimm = u.setWidth 32 <<< 2 := by
  ext i hlt
  unfold cLwspUimm
  interval_cases i <;> simp [getElem_word, getElem_half, getElem_loadWordSpBits]

theorem cSwspUimm_word (rs2 : BitVec 5) (u : BitVec 6) :
    (word hi (half f3 (storeWordSpBits rs2 u) q)).cSwspUimm = u.setWidth 32 <<< 2 := by
  ext i hlt
  unfold cSwspUimm
  interval_cases i <;> simp [getElem_word, getElem_half, getElem_storeWordSpBits]

theorem cLdspUimm_word (rd : BitVec 5) (u : BitVec 6) :
    (word hi (half f3 (loadDoubleSpBits rd u) q)).cLdspUimm = u.setWidth 32 <<< 3 := by
  ext i hlt
  unfold cLdspUimm
  interval_cases i <;> simp [getElem_word, getElem_half, getElem_loadDoubleSpBits]

theorem cSdspUimm_word (rs2 : BitVec 5) (u : BitVec 6) :
    (word hi (half f3 (storeDoubleSpBits rs2 u) q)).cSdspUimm = u.setWidth 32 <<< 3 := by
  ext i hlt
  unfold cSdspUimm
  interval_cases i <;> simp [getElem_word, getElem_half, getElem_storeDoubleSpBits]

/-- The six bits around the register of an instruction with an immediate. -/
theorem cUimm_word (u : BitVec 6) (hlow : ∀ i < 5, b.getLsbD i = u.getLsbD i)
    (hhigh : b.getLsbD 10 = u.getLsbD 5) : (word hi (half f3 b q)).cUimm = u.setWidth 32 := by
  have h0 := hlow 0
  have h1 := hlow 1
  have h2 := hlow 2
  have h3 := hlow 3
  have h4 := hlow 4
  ext i hlt
  unfold cUimm
  interval_cases i <;> simp_all [getElem_word, getElem_half]

theorem cImm_word (u : BitVec 6) (hlow : ∀ i < 5, b.getLsbD i = u.getLsbD i)
    (hhigh : b.getLsbD 10 = u.getLsbD 5) : (word hi (half f3 b q)).cImm = u.signExtend 32 := by
  have h0 := hlow 0
  have h1 := hlow 1
  have h2 := hlow 2
  have h3 := hlow 3
  have h4 := hlow 4
  ext i hlt
  unfold cImm
  interval_cases i <;>
    simp_all [getElem_word, getElem_half, BitVec.getElem_signExtend, BitVec.msb_eq_getLsbD_last]

end RiscvVp.Rvc
