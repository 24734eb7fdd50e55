import RiscvVp.Instr.Compressed
import RiscvVp.Instr.Equiv.Bits

/-!
# The words of `InstructionFactory`

What the accessors of `Instruction` read from a word that the factory built, and its bits under the masks of
the encodings, for each format.  A register is cut to five bits and an immediate to the bits of its field.
-/

namespace RiscvVp.Instr

open InstructionFactory

variable {op f3 f7 : BitVec 32} (rd rs1 rs2 imm : BitVec 32)

theorem rd_rFormat (hop : op &&& 0x7f = op) (h3 : f3 &&& 7 = f3) :
    (rFormat op f3 f7 rd rs1 rs2).rd = rd &&& 0x1f := by
  rw [← hop, ← h3]
  ext i hi
  unfold rFormat Instr.rd
  interval_cases i <;> simp

theorem rs1_rFormat (hop : op &&& 0x7f = op) (h3 : f3 &&& 7 = f3) :
    (rFormat op f3 f7 rd rs1 rs2).rs1 = rs1 &&& 0x1f := by
  rw [← hop, ← h3]
  ext i hi
  unfold rFormat Instr.rs1
  interval_cases i <;> simp

theorem rs2_rFormat (hop : op &&& 0x7f = op) (h3 : f3 &&& 7 = f3) :
    (rFormat op f3 f7 rd rs1 rs2).rs2 = rs2 &&& 0x1f := by
  rw [← hop, ← h3]
  ext i hi
  unfold rFormat Instr.rs2
  interval_cases i <;> simp

theorem rFormat_and_mask (hop : op &&& 0x7f = op) (h3 : f3 &&& 7 = f3) :
    rFormat op f3 f7 rd rs1 rs2 &&& 0xFE00707F = op ||| f3 <<< 12 ||| f7 <<< 25 := by
  rw [← hop, ← h3]
  ext i hi
  unfold rFormat
  interval_cases i <;> simp

theorem rd_iFormat (hop : op &&& 0x7f = op) (h3 : f3 &&& 7 = f3) :
    (iFormat op f3 rd rs1 imm).rd = rd &&& 0x1f := by
  rw [← hop, ← h3]
  ext i hi
  unfold iFormat Instr.rd
  interval_cases i <;> simp

theorem rs1_iFormat (hop : op &&& 0x7f = op) (h3 : f3 &&& 7 = f3) :
    (iFormat op f3 rd rs1 imm).rs1 = rs1 &&& 0x1f := by
  rw [← hop, ← h3]
  ext i hi
  unfold iFormat Instr.rs1
  interval_cases i <;> simp

theorem iImm_iFormat (hop : op &&& 0x7f = op) (h3 : f3 &&& 7 = f3) :
    (iFormat op f3 rd rs1 imm).iImm = (imm.setWidth 12).signExtend 32 := by
  rw [← hop, ← h3]
  ext i hi
  unfold iFormat Instr.iImm
  interval_cases i <;> simp [BitVec.getElem_sshiftRight, BitVec.getElem_signExtend, BitVec.msb_eq_getLsbD_last]

theorem iFormat_and_mask (hop : op &&& 0x7f = op) (h3 : f3 &&& 7 = f3) :
    iFormat op f3 rd rs1 imm &&& 0x0000707F = op ||| f3 <<< 12 := by
  rw [← hop, ← h3]
  ext i hi
  unfold iFormat
  interval_cases i <;> simp

theorem rd_shiftFormat (hop : op &&& 0x7f = op) (h3 : f3 &&& 7 = f3) :
    (shiftFormat op f3 f7 rd rs1 imm).rd = rd &&& 0x1f := by
  rw [← hop, ← h3]
  ext i hi
  unfold shiftFormat Instr.rd
  interval_cases i <;> simp

theorem rs1_shiftFormat (hop : op &&& 0x7f = op) (h3 : f3 &&& 7 = f3) :
    (shiftFormat op f3 f7 rd rs1 imm).rs1 = rs1 &&& 0x1f := by
  rw [← hop, ← h3]
  ext i hi
  unfold shiftFormat Instr.rs1
  interval_cases i <;> simp

/-- The lowest bit of `funct7` is the highest bit of the shift amount. -/
theorem shamt_shiftFormat (hop : op &&& 0x7f = op) (h3 : f3 &&& 7 = f3) (h7 : f7 &&& 0x7e = f7) :
    (shiftFormat op f3 f7 rd rs1 imm).shamt = imm &&& 63 := by
  rw [← hop, ← h3, ← h7]
  ext i hi
  unfold shiftFormat Instr.shamt
  interval_cases i <;> simp

theorem shiftFormat_and_mask (hop : op &&& 0x7f = op) (h3 : f3 &&& 7 = f3) (h7 : f7 &&& 0x7e = f7) :
    shiftFormat op f3 f7 rd rs1 imm &&& 0xFC00707F = op ||| f3 <<< 12 ||| f7 <<< 25 := by
  rw [← hop, ← h3, ← h7]
  ext i hi
  unfold shiftFormat
  interval_cases i <;> simp

/-- A shift amount below 32 leaves the lowest bit of `funct7` clear. -/
theorem shiftFormat_and_mask32 (hop : op &&& 0x7f = op) (h3 : f3 &&& 7 = f3) (h7 : f7 &&& 0x7e = f7)
    (himm : imm &&& 0x1f = imm) :
    shiftFormat op f3 f7 rd rs1 imm &&& 0xFE00707F = op ||| f3 <<< 12 ||| f7 <<< 25 := by
  rw [← hop, ← h3, ← h7, ← himm]
  ext i hi
  unfold shiftFormat
  interval_cases i <;> simp

theorem rs1_sFormat (hop : op &&& 0x7f = op) (h3 : f3 &&& 7 = f3) :
    (sFormat op f3 rs1 rs2 imm).rs1 = rs1 &&& 0x1f := by
  rw [← hop, ← h3]
  ext i hi
  unfold sFormat Instr.rs1
  interval_cases i <;> simp

theorem rs2_sFormat (hop : op &&& 0x7f = op) (h3 : f3 &&& 7 = f3) :
    (sFormat op f3 rs1 rs2 imm).rs2 = rs2 &&& 0x1f := by
  rw [← hop, ← h3]
  ext i hi
  unfold sFormat Instr.rs2
  interval_cases i <;> simp

theorem sImm_sFormat (hop : op &&& 0x7f = op) (h3 : f3 &&& 7 = f3) :
    (sFormat op f3 rs1 rs2 imm).sImm = (imm.setWidth 12).signExtend 32 := by
  rw [← hop, ← h3]
  ext i hi
  unfold sFormat Instr.sImm
  interval_cases i <;> simp [BitVec.getElem_sshiftRight, BitVec.getElem_signExtend, BitVec.msb_eq_getLsbD_last]

theorem sFormat_and_mask (hop : op &&& 0x7f = op) (h3 : f3 &&& 7 = f3) :
    sFormat op f3 rs1 rs2 imm &&& 0x0000707F = op ||| f3 <<< 12 := by
  rw [← hop, ← h3]
  ext i hi
  unfold sFormat
  interval_cases i <;> simp

theorem rs1_bFormat (hop : op &&& 0x7f = op) (h3 : f3 &&& 7 = f3) :
    (bFormat op f3 rs1 rs2 imm).rs1 = rs1 &&& 0x1f := by
  rw [← hop, ← h3]
  ext i hi
  unfold bFormat Instr.rs1
  interval_cases i <;> simp

theorem rs2_bFormat (hop : op &&& 0x7f = op) (h3 : f3 &&& 7 = f3) :
    (bFormat op f3 rs1 rs2 imm).rs2 = rs2 &&& 0x1f := by
  rw [← hop, ← h3]
  ext i hi
  unfold bFormat Instr.rs2
  interval_cases i <;> simp

theorem bImm_bFormat (hop : op &&& 0x7f = op) (h3 : f3 &&& 7 = f3) :
    (bFormat op f3 rs1 rs2 imm).bImm = (imm.setWidth 13).signExtend 32 &&& ~~~1#32 := by
  rw [← hop, ← h3]
  ext i hi
  unfold bFormat Instr.bImm
  interval_cases i <;> simp [BitVec.getElem_sshiftRight, BitVec.getElem_signExtend, BitVec.msb_eq_getLsbD_last]

theorem bFormat_and_mask (hop : op &&& 0x7f = op) (h3 : f3 &&& 7 = f3) :
    bFormat op f3 rs1 rs2 imm &&& 0x0000707F = op ||| f3 <<< 12 := by
  rw [← hop, ← h3]
  ext i hi
  unfold bFormat
  interval_cases i <;> simp

theorem rd_lui : (lui rd imm).rd = rd &&& 0x1f := by
  ext i hi
  unfold lui Instr.rd
  interval_cases i <;> simp

theorem uImm_lui : (lui rd imm).uImm = imm &&& 0xFFFFF000 := by
  ext i hi
  unfold lui Instr.uImm
  interval_cases i <;> simp

theorem lui_and_mask : lui rd imm &&& 0x0000007F = 55 := by
  ext i hi
  unfold lui
  interval_cases i <;> simp

theorem rd_jal : (jal rd imm).rd = rd &&& 0x1f := by
  ext i hi
  unfold jal Instr.rd
  interval_cases i <;> simp

theorem jImm_jal : (jal rd imm).jImm = (imm.setWidth 21).signExtend 32 &&& ~~~1#32 := by
  ext i hi
  unfold jal Instr.jImm
  interval_cases i <;> simp [BitVec.getElem_sshiftRight, BitVec.getElem_signExtend, BitVec.msb_eq_getLsbD_last]

theorem jal_and_mask : jal rd imm &&& 0x0000007F = 111 := by
  ext i hi
  unfold jal
  interval_cases i <;> simp

end RiscvVp.Instr
