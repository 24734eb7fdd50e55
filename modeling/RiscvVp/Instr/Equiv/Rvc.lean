import RiscvVp.Instr.Equiv.Compressed
import RiscvVp.Instr.Equiv.RvcBits

/-!
# The decoder of compressed instructions against the instruction set

The decoder recognises every instruction that it accepts, and the word that `expand_compressed` builds
carries its operands.  What it accepts differs from the legal instructions in two rows: it takes the hints of
`C.ADD` with the destination `x0` for a breakpoint, and `C.SUBW` and `C.ADDW` are expanded on RV32 too.
-/

namespace RiscvVp.Rvc

open Instr InstructionFactory

variable {arch : Architecture} {isa : IsaConfig} (hi : BitVec 16)

/-! ### The instruction is recognised -/

/-- The name of the instruction in the source. -/
def opId : Rvc → COpId
  | addi4spn .. => .cAddi4spn
  | fld .. => .cFld
  | lw .. => .cLw
  | flw .. => .cFlw
  | ld .. => .cLd
  | fsd .. => .cFsd
  | sw .. => .cSw
  | fsw .. => .cFsw
  | sd .. => .cSd
  | nop => .cNop
  | addi .. => .cAddi
  | jal .. => .cJal
  | addiw .. => .cAddiw
  | li .. => .cLi
  | addi16sp .. => .cAddi16sp
  | lui .. => .cLui
  | srli .. => .cSrli
  | srai .. => .cSrai
  | andi .. => .cAndi
  | sub .. => .cSub
  | xor .. => .cXor
  | or .. => .cOr
  | and .. => .cAnd
  | subw .. => .cSubw
  | addw .. => .cAddw
  | j .. => .cJ
  | beqz .. => .cBeqz
  | bnez .. => .cBnez
  | slli .. => .cSlli
  | fldsp .. => .cFldsp
  | lwsp .. => .cLwsp
  | flwsp .. => .cFlwsp
  | ldsp .. => .cLdsp
  | jr .. => .cJr
  | mv .. => .cMv
  | ebreak => .cEbreak
  | jalr .. => .cJalr
  | add .. => .cAdd
  | fsdsp .. => .cFsdsp
  | swsp .. => .cSwsp
  | fswsp .. => .cFswsp
  | sdsp .. => .cSdsp

/-! ### What the decoder accepts -/

/-- A hint with the fields of `C.ADD` and the destination `x0`. -/
def IsAddHint (c : Rvc) : Prop := ∃ rs2, rs2 ≠ 0 ∧ c = add 0 rs2

/-- An operation on 32-bit words between registers, which only RV64 has. -/
def IsWordAlu (c : Rvc) : Prop := ∃ rd rs2, c = subw rd rs2 ∨ c = addw rd rs2

/-- The operands with which the decoder finds the instruction itself.  It does not look at the architecture
for `C.SUBW` and `C.ADDW`, and it looks for the destination `x0` of `C.ADD` before it looks for the second
operand. -/
def Accepted (arch : Architecture) : Rvc → Prop
  | addi4spn _ nzuimm => nzuimm ≠ 0
  | flw .. | fsw .. | jal .. | flwsp .. | fswsp .. => arch = .rv32
  | ld .. | sd .. | sdsp .. => arch = .rv64
  | addi rd imm => ¬(rd = 0 ∧ imm = 0)
  | addiw rd _ => arch = .rv64 ∧ rd ≠ 0
  | addi16sp nzimm => nzimm ≠ 0
  | lui rd nzimm => rd ≠ 2 ∧ nzimm ≠ 0
  | slli _ shamt | srli _ shamt | srai _ shamt => arch = .rv32 → shamt < 32
  | lwsp rd _ => rd ≠ 0
  | ldsp rd _ => arch = .rv64 ∧ rd ≠ 0
  | jr rs1 => rs1 ≠ 0
  | mv _ rs2 => rs2 ≠ 0
  | jalr rs1 => rs1 ≠ 0
  | add rd rs2 => rd ≠ 0 ∧ rs2 ≠ 0
  | _ => True

/-- The decoder accepts the legal instructions without the hints of `C.ADD`, and on RV32 the two operations
of RV64 as well. -/
theorem accepted_iff (c : Rvc) :
    c.Accepted arch ↔ (c.Legal arch ∧ ¬c.IsAddHint) ∨ (arch = .rv32 ∧ c.IsWordAlu) := by
  cases c with
  | add rd rs2 =>
    simp only [Accepted, Legal, IsAddHint, IsWordAlu, reduceCtorEq, add.injEq, or_self, exists_false, and_false,
      or_false]
    constructor
    · rintro ⟨hrd, hrs2⟩
      exact ⟨hrs2, fun ⟨_, _, heq, _⟩ => hrd heq⟩
    · rintro ⟨hrs2, hhint⟩
      exact ⟨fun hrd => hhint ⟨rs2, hrs2, hrd, rfl⟩, hrs2⟩
  | subw | addw => cases arch <;> simp [Accepted, Legal, IsAddHint, IsWordAlu]
  | _ => simp [Accepted, Legal, IsAddHint, IsWordAlu]

/-- A legal instruction is accepted unless it is one of the hints. -/
theorem Legal.accepted {c : Rvc} (h : c.Legal arch) (hhint : ¬c.IsAddHint) : c.Accepted arch :=
  (accepted_iff c).2 (Or.inl ⟨h, hhint⟩)

/-- On RV64 an accepted instruction is legal. -/
theorem Accepted.legal {c : Rvc} (h : c.Accepted .rv64) : c.Legal .rv64 := by
  rcases (accepted_iff c).1 h with ⟨hlegal, -⟩ | ⟨harch, -⟩
  · exact hlegal
  · cases harch

section Decode

variable (b : BitVec 11)

theorem decodeCompressed_quadrant0 (f3 : BitVec 3) :
    (word hi (half f3 b 0)).decodeCompressed arch =
      some ((word hi (half f3 b 0)).decodeQuadrant0 arch) := by
  rw [decodeCompressed, quadrant_word]
  rfl

theorem decodeCompressed_quadrant1 (f3 : BitVec 3) :
    (word hi (half f3 b 1)).decodeCompressed arch =
      some ((word hi (half f3 b 1)).decodeQuadrant1 arch) := by
  rw [decodeCompressed, quadrant_word]
  rfl

theorem decodeCompressed_quadrant2 (f3 : BitVec 3) :
    (word hi (half f3 b 2)).decodeCompressed arch =
      some ((word hi (half f3 b 2)).decodeQuadrant2 arch) := by
  rw [decodeCompressed, quadrant_word]
  rfl

/-- The field of a register is zero for `x0` only. -/
theorem setWidth_eq_iff {n : ℕ} (hn : n ≤ 32) (r s : BitVec n) :
    r.setWidth 32 = s.setWidth 32 ↔ r = s := by
  constructor
  · intro h
    have hback := congrArg (BitVec.setWidth n) h
    rw [BitVec.setWidth_setWidth_of_le _ hn, BitVec.setWidth_setWidth_of_le _ hn, BitVec.setWidth_eq,
      BitVec.setWidth_eq] at hback
    exact hback
  · intro h
    rw [h]

theorem setWidth_eq_zero_iff {n : ℕ} (hn : n ≤ 32) (r : BitVec n) : r.setWidth 32 = 0 ↔ r = 0 := by
  have hzero : (0 : BitVec 32) = (0 : BitVec n).setWidth 32 := by simp
  rw [hzero, setWidth_eq_iff hn]

end Decode

/-- The immediate of `C.ADDI4SPN` is zero for no other bits. -/
theorem shiftLeft_eq_zero_iff (u : BitVec 8) : u.setWidth 32 <<< 2 = 0 ↔ u = 0 := by
  constructor
  · intro h
    have hback := congrArg (BitVec.extractLsb' 2 8) h
    have hu : (u.setWidth 32 <<< 2).extractLsb' 2 8 = u := by
      ext i hlt
      interval_cases i <;> simp
    rw [hu] at hback
    exact hback
  · rintro rfl
    rfl

theorem signExtend_shiftLeft_eq_zero_iff {k : ℕ} (hk : k ≤ 26) (u : BitVec 6) :
    u.signExtend 32 <<< k = 0 ↔ u = 0 := by
  constructor
  · intro h
    have hback := congrArg (BitVec.extractLsb' k 6) h
    have hu : (u.signExtend 32 <<< k).extractLsb' k 6 = u := by
      ext i hlt
      have hle : k + i < 32 := by omega
      simp [hle, BitVec.getElem_signExtend, hlt]
    rw [hu] at hback
    rw [hback]
    ext i hlt
    simp
  · rintro rfl
    simp

theorem cFormat_eq_zero {c : BitVec 16} (h : (word hi c).cFormat = 0) : c = 0 := by
  rw [cFormat_word] at h
  exact (setWidth_eq_zero_iff (by omega) c).1 h

theorem cFormat_eq_one {c : BitVec 16} (h : (word hi c).cFormat = 1) : c = 1 := by
  rw [cFormat_word] at h
  exact (setWidth_eq_iff (by omega) c 1).1 h

theorem addi4spn_ne_zero {rd : BitVec 3} {u : BitVec 8} (hu : u ≠ 0) :
    half 0b000 (addi4spnBits rd u) 0 ≠ 0 := by
  intro h
  have himm := cAddi4spnNzuimm_word 0 0b000 0 rd u
  rw [h] at himm
  exact hu ((shiftLeft_eq_zero_iff u).1 himm.symm)

/-- A word of `C.ADDI` is that of `C.NOP` for `x0` and zero only. -/
theorem addi_eq_one {rd : BitVec 5} {u : BitVec 6} (h : half 0b000 (immBits rd u) 1 = 1) :
    rd = 0 ∧ u = 0 := by
  have hrd := cRd_word 0 0b000 (immBits rd u) 1
  have himm := cUimm_word 0 0b000 (immBits rd u) 1 u ?_ ?_
  · rw [h] at hrd himm
    rw [rd_immBits] at hrd
    exact ⟨(setWidth_eq_zero_iff (by omega) rd).1 hrd.symm, (setWidth_eq_zero_iff (by omega) u).1 himm.symm⟩
  · intro i hlt
    rw [BitVec.getLsbD_eq_getElem (by omega), getElem_immBits (by omega), if_pos hlt]
  · rw [BitVec.getLsbD_eq_getElem (by omega), getElem_immBits (by omega)]
    rfl

/-- **An accepted instruction is recognised**: the decoder finds the operation whose encoding it reads,
whatever stands in the upper half of the word. -/
theorem decodeCompressed_encode (c : Rvc) (hlegal : c.Accepted arch) :
    (word hi c.encode).decodeCompressed arch = some c.opId := by
  cases c with
  -- the cases follow the nested switch: the quadrant, `funct3`, then what tells the rest apart
  | addi4spn rd u =>
    rw [encode, decodeCompressed_quadrant0, decodeQuadrant0, cOpcode_word]
    show some (if (word hi (half 0b000 (addi4spnBits rd u) 0)).cFormat = 0 then _ else _) = _
    rw [if_neg fun h => addi4spn_ne_zero hlegal (cFormat_eq_zero hi h)]
    rfl
  | fld | lw | fsd | sw =>
    rw [encode, decodeCompressed_quadrant0, decodeQuadrant0, cOpcode_word]
    rfl
  | flw | ld | fsw | sd =>
    rw [encode, decodeCompressed_quadrant0, decodeQuadrant0, cOpcode_word, hlegal]
    rfl
  | nop =>
    rw [encode, decodeCompressed_quadrant1, decodeQuadrant1, cOpcode_word]
    show some (if (word hi (half 0b000 (immBits 0 0) 1)).cFormat = 1 then _ else _) = _
    rw [cFormat_word]
    rfl
  | addi rd u =>
    rw [encode, decodeCompressed_quadrant1, decodeQuadrant1, cOpcode_word]
    show some (if (word hi (half 0b000 (immBits rd u) 1)).cFormat = 1 then _ else _) = _
    rw [if_neg fun h => hlegal (addi_eq_one (cFormat_eq_one hi h))]
    rfl
  | jal u =>
    rw [encode, decodeCompressed_quadrant1, decodeQuadrant1, cOpcode_word, hlegal]
    rfl
  | addiw rd u =>
    rw [encode, decodeCompressed_quadrant1, decodeQuadrant1, cOpcode_word, hlegal.1]
    rfl
  | li | j | beqz | bnez =>
    rw [encode, decodeCompressed_quadrant1, decodeQuadrant1, cOpcode_word]
    rfl
  -- `C.ADDI16SP` and `C.LUI` share their `funct3`: the destination register decides
  | addi16sp u =>
    rw [encode, decodeCompressed_quadrant1, decodeQuadrant1, cOpcode_word]
    show some (if (word hi (half 0b011 (addi16spBits u) 1)).cRd = 2 then _ else _) = _
    rw [cRd_word, sp_addi16spBits]
    rfl
  | lui rd u =>
    rw [encode, decodeCompressed_quadrant1, decodeQuadrant1, cOpcode_word]
    show some (if (word hi (half 0b011 (immBits rd u) 1)).cRd = 2 then _ else _) = _
    have hrd : rd.setWidth 32 ≠ 2 := fun h => hlegal.1 ((setWidth_eq_iff (by omega) rd 2).1 h)
    rw [cRd_word, rd_immBits, if_neg hrd]
    rfl
  -- bits 11 and 10, and for the register operations bits 12, 6 and 5 too
  | srli rd u | srai rd u | andi rd u =>
    rw [encode, decodeCompressed_quadrant1, decodeQuadrant1, cOpcode_word]
    show some (decodeMiscAlu _) = _
    rw [decodeMiscAlu, cF2High_word, funct2_smallImmBits]
    rfl
  | sub rd rs2 | xor rd rs2 | or rd rs2 | and rd rs2 | subw rd rs2 | addw rd rs2 =>
    rw [encode, decodeCompressed_quadrant1, decodeQuadrant1, cOpcode_word]
    show some (decodeMiscAlu _) = _
    rw [decodeMiscAlu, cF2High_word, cB12_word, cF2Low_word, alu_aluBits, wide_aluBits, funct2_aluBits]
    rfl
  | slli | fldsp | lwsp | fsdsp | swsp =>
    rw [encode, decodeCompressed_quadrant2, decodeQuadrant2, cOpcode_word]
    rfl
  | flwsp | fswsp | sdsp =>
    rw [encode, decodeCompressed_quadrant2, decodeQuadrant2, cOpcode_word, hlegal]
    rfl
  | ldsp =>
    rw [encode, decodeCompressed_quadrant2, decodeQuadrant2, cOpcode_word, hlegal.1]
    rfl
  -- bit 12 and the two register fields tell these five apart
  | jr rs1 =>
    rw [encode, decodeCompressed_quadrant2, decodeQuadrant2, cOpcode_word]
    show some (decodeJumpMove _) = _
    rw [decodeJumpMove, cB12_word, cRs2_word, link_moveBits, rs2_moveBits]
    rfl
  | mv rd rs2 =>
    rw [encode, decodeCompressed_quadrant2, decodeQuadrant2, cOpcode_word]
    show some (decodeJumpMove _) = _
    rw [decodeJumpMove, cB12_word, cRs2_word, link_moveBits, rs2_moveBits]
    rw [if_neg (by decide), if_pos fun h => hlegal ((setWidth_eq_zero_iff (by omega) rs2).1 h)]
    rfl
  | ebreak =>
    rw [encode, decodeCompressed_quadrant2, decodeQuadrant2, cOpcode_word]
    show some (decodeJumpMove _) = _
    rw [decodeJumpMove, cB12_word, cRd_word, link_moveBits, rd_moveBits]
    rfl
  | jalr rs1 =>
    rw [encode, decodeCompressed_quadrant2, decodeQuadrant2, cOpcode_word]
    show some (decodeJumpMove _) = _
    rw [decodeJumpMove, cB12_word, cRd_word, cRs2_word, link_moveBits, rd_moveBits, rs2_moveBits]
    rw [if_pos (by decide), if_pos fun h => hlegal ((setWidth_eq_zero_iff (by omega) rs1).1 h)]
    rfl
  | add rd rs2 =>
    rw [encode, decodeCompressed_quadrant2, decodeQuadrant2, cOpcode_word]
    show some (decodeJumpMove _) = _
    rw [decodeJumpMove, cB12_word, cRd_word, cRs2_word, link_moveBits, rd_moveBits, rs2_moveBits]
    rw [if_pos (by decide), if_pos fun h => hlegal.1 ((setWidth_eq_zero_iff (by omega) rd).1 h),
      if_pos fun h => hlegal.2 ((setWidth_eq_zero_iff (by omega) rs2).1 h)]
    rfl

/-! ### The operands of the expanded word -/

section Operands

variable {n k m : ℕ}

/-- An unsigned immediate that leaves the sign bit of its field clear. -/
theorem signExtend_setWidth_of_lt (hk : n + k < m) (hm : m ≤ 32) (x : BitVec n) :
    ((x.setWidth 32 <<< k).setWidth m).signExtend 32 = x.setWidth 32 <<< k := by
  have hout : ∀ i, n + k ≤ i → (x.setWidth 32 <<< k).getLsbD i = false := by
    intro i hle
    rw [BitVec.getLsbD_shiftLeft, BitVec.getLsbD_setWidth, BitVec.getLsbD_of_ge x _ (by omega)]
    simp
  ext i hlt
  rw [BitVec.getElem_signExtend, ← BitVec.getLsbD_eq_getElem hlt]
  split_ifs with him
  · rw [BitVec.getElem_setWidth]
  · rw [BitVec.msb_eq_getLsbD_last, BitVec.getLsbD_setWidth, hout _ (by omega), hout i (by omega),
      Bool.and_false]

/-- A signed immediate that fits into its field. -/
theorem signExtend_setWidth_of_le (hk : n + k ≤ m) (hm : m ≤ 32) (hn : 0 < n) (x : BitVec n) :
    ((x.signExtend 32 <<< k).setWidth m).signExtend 32 = x.signExtend 32 <<< k := by
  have hsign : ∀ i, n + k ≤ i + 1 → i < 32 → (x.signExtend 32 <<< k).getLsbD i = x.msb := by
    intro i hle hlt
    rw [BitVec.getLsbD_shiftLeft, BitVec.getLsbD_signExtend]
    split_ifs with hin
    · have hlast : i - k = n - 1 := by omega
      rw [hlast, ← BitVec.msb_eq_getLsbD_last]
      simp [hlt, show ¬i < k by omega, show n - 1 < 32 by omega]
    · simp [hlt, show ¬i < k by omega, show i - k < 32 by omega]
  ext i hlt
  rw [BitVec.getElem_signExtend, ← BitVec.getLsbD_eq_getElem hlt]
  split_ifs with him
  · rw [BitVec.getElem_setWidth]
  · rw [BitVec.msb_eq_getLsbD_last, BitVec.getLsbD_setWidth, hsign _ (by omega) (by omega),
      hsign i (by omega) hlt]
    simp [show 0 < m by omega]

theorem setWidth_and_mask (x : BitVec n) {mask : BitVec 32}
    (hmask : ∀ i < n, mask.getLsbD i) : x.setWidth 32 &&& mask = x.setWidth 32 := by
  ext i hlt
  rw [BitVec.getElem_and, BitVec.getElem_setWidth]
  by_cases hin : i < n
  · rw [← BitVec.getLsbD_eq_getElem, hmask i hin, Bool.and_true]
  · rw [BitVec.getLsbD_of_ge x i (by omega), Bool.false_and]

theorem register_and_mask (r : BitVec 5) : r.setWidth 32 &&& 0x1f = r.setWidth 32 := by
  refine setWidth_and_mask r fun i h => ?_
  interval_cases i <;> rfl

theorem shamt_and_mask (shamt : BitVec 6) : shamt.setWidth 32 &&& 63 = shamt.setWidth 32 := by
  refine setWidth_and_mask shamt fun i h => ?_
  interval_cases i <;> rfl

end Operands

section ReadFrom

variable {op f3 f7 : BitVec 32} (o : Operation) (rd rs1 rs2 : BitVec 5) {imm : BitVec 32}

theorem readFrom_rFormat (hop : op &&& 0x7f = op) (h3 : f3 &&& 7 = f3) :
    (Expansion.r o rd rs1 rs2).ReadFrom
      (rFormat op f3 f7 (rd.setWidth 32) (rs1.setWidth 32) (rs2.setWidth 32)) := by
  refine ⟨?_, ?_, ?_⟩
  · rw [rd_rFormat _ _ _ hop h3, register_and_mask]
  · rw [rs1_rFormat _ _ _ hop h3, register_and_mask]
  · rw [rs2_rFormat _ _ _ hop h3, register_and_mask]

theorem readFrom_iFormat (hop : op &&& 0x7f = op) (h3 : f3 &&& 7 = f3)
    (himm : (imm.setWidth 12).signExtend 32 = imm) :
    (Expansion.i o rd rs1 imm).ReadFrom (iFormat op f3 (rd.setWidth 32) (rs1.setWidth 32) imm) := by
  refine ⟨?_, ?_, ?_⟩
  · rw [rd_iFormat _ _ _ hop h3, register_and_mask]
  · rw [rs1_iFormat _ _ _ hop h3, register_and_mask]
  · rw [iImm_iFormat _ _ _ hop h3, himm]

theorem readFrom_shiftFormat (shamt : BitVec 6) (hop : op &&& 0x7f = op) (h3 : f3 &&& 7 = f3)
    (h7 : f7 &&& 0x7e = f7) :
    (Expansion.shift o rd rs1 shamt).ReadFrom
      (shiftFormat op f3 f7 (rd.setWidth 32) (rs1.setWidth 32) (shamt.setWidth 32)) := by
  refine ⟨?_, ?_, ?_⟩
  · rw [rd_shiftFormat _ _ _ hop h3, register_and_mask]
  · rw [rs1_shiftFormat _ _ _ hop h3, register_and_mask]
  · rw [shamt_shiftFormat _ _ _ hop h3 h7, shamt_and_mask]

theorem readFrom_sFormat (hop : op &&& 0x7f = op) (h3 : f3 &&& 7 = f3)
    (himm : (imm.setWidth 12).signExtend 32 = imm) :
    (Expansion.s o rs1 rs2 imm).ReadFrom (sFormat op f3 (rs1.setWidth 32) (rs2.setWidth 32) imm) := by
  refine ⟨?_, ?_, ?_⟩
  · rw [rs1_sFormat _ _ _ hop h3, register_and_mask]
  · rw [rs2_sFormat _ _ _ hop h3, register_and_mask]
  · rw [sImm_sFormat _ _ _ hop h3, himm]

/-- An offset is even, so clearing its lowest bit changes nothing. -/
theorem shiftLeft_one_and (x : BitVec 32) : x <<< 1 &&& ~~~1#32 = x <<< 1 := by
  ext i hlt
  interval_cases i <;> simp

theorem readFrom_bFormat (u : BitVec 8) (hop : op &&& 0x7f = op) (h3 : f3 &&& 7 = f3) :
    (Expansion.b o rs1 rs2 (u.signExtend 32 <<< 1)).ReadFrom
      (bFormat op f3 (rs1.setWidth 32) (rs2.setWidth 32) (u.signExtend 32 <<< 1)) := by
  refine ⟨?_, ?_, ?_⟩
  · rw [rs1_bFormat _ _ _ hop h3, register_and_mask]
  · rw [rs2_bFormat _ _ _ hop h3, register_and_mask]
  · rw [bImm_bFormat _ _ _ hop h3, signExtend_setWidth_of_le (by omega) (by omega) (by omega),
      shiftLeft_one_and]

theorem readFrom_jal (u : BitVec 11) :
    (Expansion.j o rd (u.signExtend 32 <<< 1)).ReadFrom
      (InstructionFactory.jal (rd.setWidth 32) (u.signExtend 32 <<< 1)) := by
  refine ⟨?_, ?_⟩
  · rw [rd_jal, register_and_mask]
  · rw [jImm_jal, signExtend_setWidth_of_le (by omega) (by omega) (by omega), shiftLeft_one_and]

theorem readFrom_lui (u : BitVec 6) :
    (Expansion.u o rd (u.signExtend 32 <<< 12)).ReadFrom
      (InstructionFactory.lui (rd.setWidth 32) (u.signExtend 32 <<< 12)) := by
  refine ⟨?_, ?_⟩
  · rw [rd_lui, register_and_mask]
  · rw [uImm_lui]
    ext i hlt
    interval_cases i <;> simp

end ReadFrom

/-! ### The expansion -/

theorem low_immBits (rd : BitVec 5) (u : BitVec 6) : ∀ i < 5, (immBits rd u).getLsbD i = u.getLsbD i := by
  intro i hlt
  rw [BitVec.getLsbD_eq_getElem (by omega), getElem_immBits (by omega), if_pos hlt]

theorem high_immBits (rd : BitVec 5) (u : BitVec 6) : (immBits rd u).getLsbD 10 = u.getLsbD 5 := by
  rw [BitVec.getLsbD_eq_getElem (by omega), getElem_immBits (by omega)]
  rfl

theorem low_smallImmBits (f2 : BitVec 2) (rd : BitVec 3) (u : BitVec 6) :
    ∀ i < 5, (smallImmBits f2 rd u).getLsbD i = u.getLsbD i := by
  intro i hlt
  rw [BitVec.getLsbD_eq_getElem (by omega), getElem_smallImmBits (by omega), if_pos hlt]

theorem high_smallImmBits (f2 : BitVec 2) (rd : BitVec 3) (u : BitVec 6) :
    (smallImmBits f2 rd u).getLsbD 10 = u.getLsbD 5 := by
  rw [BitVec.getLsbD_eq_getElem (by omega), getElem_smallImmBits (by omega)]
  rfl

/-- A legal shift amount is below 32 on RV32, so the check of the source never refuses it. -/
theorem shamt_le {u : BitVec 6} (hlegal : arch = .rv32 → u < 32)
    (h : arch = .rv32 ∧ u.setWidth 32 > 31) : False := by
  have hlt := hlegal h.1
  have hgt := h.2
  rw [BitVec.lt_def] at hlt
  rw [gt_iff_lt, BitVec.lt_def, BitVec.toNat_setWidth_of_le (by omega)] at hgt
  simp at hlt hgt
  omega

theorem rd_jal_ne (u : BitVec 11) :
    (InstructionFactory.jal ((1#5).setWidth 32) (u.signExtend 32 <<< 1)).rd ≠ 0 := by
  rw [rd_jal]
  decide

theorem rd_jalr_ne (rs1 : BitVec 32) : (InstructionFactory.jalr ((1#5).setWidth 32) rs1 0).rd ≠ 0 := by
  rw [InstructionFactory.jalr, rd_iFormat _ _ _ rfl rfl]
  decide

theorem signExtend_setWidth_of_le_zero (u : BitVec 6) :
    ((u.signExtend 32).setWidth 12).signExtend 32 = u.signExtend 32 := by
  have h := signExtend_setWidth_of_le (n := 6) (k := 0) (m := 12) (by omega) (by omega) (by omega) u
  rw [BitVec.shiftLeft_zero] at h
  exact h

/-- **The expanded word carries the operands**: it is decoded as the operation that the compressed one
stands for, with the registers and the immediate that it names. -/
theorem expandCompressed_encode (c : Rvc) (hlegal : c.Accepted arch)
    (hext : ∀ ext, c.expansion.op.extension = some ext → isa.supports ext) :
    ∃ w, (word hi c.encode).expandCompressed c.opId arch isa = (w, c.expansion.op.result w) ∧
      c.expansion.ReadFrom w := by
  cases c with
  -- each case reads the fields of the halfword back and meets the 32-bit format that is expanded to;
  -- where the expansion refuses some operands (`if_neg`), `hlegal` excludes these
  | addi4spn rd u =>
    rw [encode, opId, expandCompressed, cAddi4spnNzuimm_word,
      if_neg fun h => hlegal ((shiftLeft_eq_zero_iff u).1 h), cRs2Small_word, rd_addi4spnBits]
    exact ⟨_, opOrNop_eq _ rfl,
      readFrom_iFormat _ (small rd) 2 rfl rfl (signExtend_setWidth_of_lt (by omega) (by omega) u)⟩
  | fld rd rs1 u =>
    rw [encode, opId, expandCompressed, if_pos (hext _ rfl), cRs2Small_word, cRdSmall_word, cLdUimm_word,
      r_doubleBits, rs1_doubleBits]
    exact ⟨_, congrArg (Prod.mk _) (op_eq_result _ rfl),
      readFrom_iFormat _ _ _ rfl rfl (signExtend_setWidth_of_lt (by omega) (by omega) u)⟩
  | lw rd rs1 u =>
    rw [encode, opId, expandCompressed, cRs2Small_word, cRdSmall_word, cLwUimm_word, r_wordBits,
      rs1_wordBits]
    exact ⟨_, congrArg (Prod.mk _) (op_eq_result _ rfl),
      readFrom_iFormat _ _ _ rfl rfl (signExtend_setWidth_of_lt (by omega) (by omega) u)⟩
  | flw rd rs1 u =>
    rw [encode, opId, expandCompressed, if_pos (hext _ rfl), cRs2Small_word, cRdSmall_word, cLwUimm_word,
      r_wordBits, rs1_wordBits]
    exact ⟨_, congrArg (Prod.mk _) (op_eq_result _ rfl),
      readFrom_iFormat _ _ _ rfl rfl (signExtend_setWidth_of_lt (by omega) (by omega) u)⟩
  | ld rd rs1 u =>
    rw [encode, opId, expandCompressed, cRs2Small_word, cRdSmall_word, cLdUimm_word, r_doubleBits,
      rs1_doubleBits]
    exact ⟨_, congrArg (Prod.mk _) (op_eq_result _ rfl),
      readFrom_iFormat _ _ _ rfl rfl (signExtend_setWidth_of_lt (by omega) (by omega) u)⟩
  | fsd rs1 rs2 u =>
    rw [encode, opId, expandCompressed, if_pos (hext _ rfl), cRs2Small_word, cRdSmall_word, cSdUimm,
      cLdUimm_word, r_doubleBits, rs1_doubleBits]
    exact ⟨_, congrArg (Prod.mk _) (op_eq_result _ rfl),
      readFrom_sFormat _ _ _ rfl rfl (signExtend_setWidth_of_lt (by omega) (by omega) u)⟩
  | sw rs1 rs2 u =>
    rw [encode, opId, expandCompressed, cRs2Small_word, cRdSmall_word, cSwUimm, cLwUimm_word, r_wordBits,
      rs1_wordBits]
    exact ⟨_, congrArg (Prod.mk _) (op_eq_result _ rfl),
      readFrom_sFormat _ _ _ rfl rfl (signExtend_setWidth_of_lt (by omega) (by omega) u)⟩
  | fsw rs1 rs2 u =>
    rw [encode, opId, expandCompressed, if_pos (hext _ rfl), cRs2Small_word, cRdSmall_word, cSwUimm,
      cLwUimm_word, r_wordBits, rs1_wordBits]
    exact ⟨_, congrArg (Prod.mk _) (op_eq_result _ rfl),
      readFrom_sFormat _ _ _ rfl rfl (signExtend_setWidth_of_lt (by omega) (by omega) u)⟩
  | sd rs1 rs2 u =>
    rw [encode, opId, expandCompressed, cRs2Small_word, cRdSmall_word, cSdUimm, cLdUimm_word, r_doubleBits,
      rs1_doubleBits]
    exact ⟨_, congrArg (Prod.mk _) (op_eq_result _ rfl),
      readFrom_sFormat _ _ _ rfl rfl (signExtend_setWidth_of_lt (by omega) (by omega) u)⟩
  | nop =>
    exact ⟨_, congrArg (Prod.mk _) (rdZero_eq_result rfl (rd_rFormat _ _ _ rfl rfl)),
      readFrom_rFormat _ 0 0 0 rfl rfl⟩
  -- a destination register zero makes the operation a no-op (`opOrNop_eq`)
  | addi rd u =>
    rw [encode, opId, expandCompressed, cRd_word, rd_immBits,
      cImm_word hi _ _ _ u (low_immBits rd u) (high_immBits rd u)]
    exact ⟨_, opOrNop_eq _ rfl, readFrom_iFormat _ _ _ rfl rfl (signExtend_setWidth_of_le_zero u)⟩
  | jal u =>
    rw [encode, opId, expandCompressed, cJalImm_word]
    exact ⟨_, congrArg (Prod.mk _) (op_eq_result_of_rd_ne (rd_jal_ne u)), readFrom_jal _ 1 u⟩
  | addiw rd u =>
    rw [encode, opId, expandCompressed, cRd_word, rd_immBits,
      if_neg fun h => hlegal.2 ((setWidth_eq_zero_iff (by omega) rd).1 h),
      cImm_word hi _ _ _ u (low_immBits rd u) (high_immBits rd u)]
    exact ⟨_, opOrNop_eq _ rfl, readFrom_iFormat _ _ _ rfl rfl (signExtend_setWidth_of_le_zero u)⟩
  | li rd u =>
    rw [encode, opId, expandCompressed, cRd_word, rd_immBits,
      cImm_word hi _ _ _ u (low_immBits rd u) (high_immBits rd u)]
    exact ⟨_, opOrNop_eq _ rfl, readFrom_iFormat _ rd 0 rfl rfl (signExtend_setWidth_of_le_zero u)⟩
  | addi16sp u =>
    rw [encode, opId, expandCompressed, cAddi16spNzimm_word,
      if_neg fun h => hlegal ((signExtend_shiftLeft_eq_zero_iff (by omega) u).1 h)]
    exact ⟨_, opOrNop_eq _ rfl,
      readFrom_iFormat _ 2 2 rfl rfl (signExtend_setWidth_of_le (by omega) (by omega) (by omega) u)⟩
  | lui rd u =>
    rw [encode, opId, expandCompressed, cLuiNzimm_word,
      if_neg fun h => hlegal.2 ((signExtend_shiftLeft_eq_zero_iff (by omega) u).1 h), cRd_word, rd_immBits]
    exact ⟨_, opOrNop_eq _ rfl, readFrom_lui _ _ u⟩
  -- on RV32 the shift amount has five bits
  | srli rd u | srai rd u =>
    rw [encode, opId, expandCompressed,
      cUimm_word hi _ _ _ u (low_smallImmBits _ rd u) (high_smallImmBits _ rd u),
      if_neg fun h => shamt_le hlegal h, cRdSmall_word, rd_smallImmBits]
    exact ⟨_, opOrNop_eq _ rfl, readFrom_shiftFormat _ _ _ u rfl rfl rfl⟩
  | andi rd u =>
    rw [encode, opId, expandCompressed,
      cImm_word hi _ _ _ u (low_smallImmBits _ rd u) (high_smallImmBits _ rd u), cRdSmall_word,
      rd_smallImmBits]
    exact ⟨_, opOrNop_eq _ rfl, readFrom_iFormat _ _ _ rfl rfl (signExtend_setWidth_of_le_zero u)⟩
  | sub rd rs2 | xor rd rs2 | or rd rs2 | and rd rs2 | subw rd rs2 | addw rd rs2 =>
    rw [encode, opId, expandCompressed, cRdSmall_word, cRs2Small_word, rd_aluBits, rs2_aluBits]
    exact ⟨_, opOrNop_eq _ rfl, readFrom_rFormat _ _ _ _ rfl rfl⟩
  | j u =>
    rw [encode, opId, expandCompressed, cJImm, cJalImm_word]
    exact ⟨_, congrArg (Prod.mk _) (rdZero_eq_result rfl (rd_jal _ _)), readFrom_jal _ 0 u⟩
  | beqz rs1 u | bnez rs1 u =>
    rw [encode, opId, expandCompressed, cRdSmall_word, rs1_branchBits, cBranchImm_word]
    exact ⟨_, congrArg (Prod.mk _) (op_eq_result _ rfl), readFrom_bFormat _ _ 0 u rfl rfl⟩
  | slli rd u =>
    rw [encode, opId, expandCompressed, cUimm_word hi _ _ _ u (low_immBits rd u) (high_immBits rd u),
      if_neg fun h => shamt_le hlegal h, cRd_word, rd_immBits]
    exact ⟨_, opOrNop_eq _ rfl, readFrom_shiftFormat _ _ _ u rfl rfl rfl⟩
  | fldsp rd u =>
    rw [encode, opId, expandCompressed, if_pos (hext _ rfl), cRd_word, rd_loadDoubleSpBits, cLdspUimm_word]
    exact ⟨_, congrArg (Prod.mk _) (op_eq_result _ rfl),
      readFrom_iFormat _ rd 2 rfl rfl (signExtend_setWidth_of_lt (by omega) (by omega) u)⟩
  | lwsp rd u =>
    rw [encode, opId, expandCompressed, cRd_word, rd_loadWordSpBits,
      if_neg fun h => hlegal ((setWidth_eq_zero_iff (by omega) rd).1 h), cLwspUimm_word]
    exact ⟨_, congrArg (Prod.mk _) (op_eq_result _ rfl),
      readFrom_iFormat _ rd 2 rfl rfl (signExtend_setWidth_of_lt (by omega) (by omega) u)⟩
  | flwsp rd u =>
    rw [encode, opId, expandCompressed, if_pos (hext _ rfl), cRd_word, rd_loadWordSpBits, cLwspUimm_word]
    exact ⟨_, congrArg (Prod.mk _) (op_eq_result _ rfl),
      readFrom_iFormat _ rd 2 rfl rfl (signExtend_setWidth_of_lt (by omega) (by omega) u)⟩
  | ldsp rd u =>
    rw [encode, opId, expandCompressed, cRd_word, rd_loadDoubleSpBits,
      if_neg fun h => hlegal.2 ((setWidth_eq_zero_iff (by omega) rd).1 h), cLdspUimm_word]
    exact ⟨_, congrArg (Prod.mk _) (op_eq_result _ rfl),
      readFrom_iFormat _ rd 2 rfl rfl (signExtend_setWidth_of_lt (by omega) (by omega) u)⟩
  | jr rs1 =>
    rw [encode, opId, expandCompressed, cRd_word, rd_moveBits,
      if_neg fun h => hlegal ((setWidth_eq_zero_iff (by omega) rs1).1 h)]
    exact ⟨_, congrArg (Prod.mk _) (rdZero_eq_result rfl (rd_iFormat _ _ _ rfl rfl)),
      readFrom_iFormat _ 0 rs1 rfl rfl rfl⟩
  | mv rd rs2 =>
    rw [encode, opId, expandCompressed, cRd_word, cRs2_word, rd_moveBits, rs2_moveBits]
    exact ⟨_, opOrNop_eq _ rfl, readFrom_rFormat _ rd 0 rs2 rfl rfl⟩
  | ebreak =>
    exact ⟨_, congrArg (Prod.mk _) (op_eq_result _ rfl), trivial⟩
  | jalr rs1 =>
    rw [encode, opId, expandCompressed, cRd_word, rd_moveBits]
    exact ⟨_, congrArg (Prod.mk _) (op_eq_result_of_rd_ne (rd_jalr_ne _)),
      readFrom_iFormat _ 1 rs1 rfl rfl rfl⟩
  | add rd rs2 =>
    rw [encode, opId, expandCompressed, cRd_word, cRs2_word, rd_moveBits, rs2_moveBits]
    exact ⟨_, opOrNop_eq _ rfl, readFrom_rFormat _ _ _ _ rfl rfl⟩
  | fsdsp rs2 u =>
    rw [encode, opId, expandCompressed, if_pos (hext _ rfl), cRs2_word, rs2_storeDoubleSpBits,
      cSdspUimm_word]
    exact ⟨_, congrArg (Prod.mk _) (op_eq_result _ rfl),
      readFrom_sFormat _ 2 rs2 rfl rfl (signExtend_setWidth_of_lt (by omega) (by omega) u)⟩
  | swsp rs2 u =>
    rw [encode, opId, expandCompressed, cRs2_word, rs2_storeWordSpBits, cSwspUimm_word]
    exact ⟨_, congrArg (Prod.mk _) (op_eq_result _ rfl),
      readFrom_sFormat _ 2 rs2 rfl rfl (signExtend_setWidth_of_lt (by omega) (by omega) u)⟩
  | fswsp rs2 u =>
    rw [encode, opId, expandCompressed, if_pos (hext _ rfl), cRs2_word, rs2_storeWordSpBits, cSwspUimm_word]
    exact ⟨_, congrArg (Prod.mk _) (op_eq_result _ rfl),
      readFrom_sFormat _ 2 rs2 rfl rfl (signExtend_setWidth_of_lt (by omega) (by omega) u)⟩
  | sdsp rs2 u =>
    rw [encode, opId, expandCompressed, cRs2_word, rs2_storeDoubleSpBits, cSdspUimm_word]
    exact ⟨_, congrArg (Prod.mk _) (op_eq_result _ rfl),
      readFrom_sFormat _ 2 rs2 rfl rfl (signExtend_setWidth_of_lt (by omega) (by omega) u)⟩

end RiscvVp.Rvc
