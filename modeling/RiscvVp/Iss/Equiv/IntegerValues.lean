import RiscvVp.Lib.Words
import RiscvVp.Rv64im.Basic
import RiscvVp.Iss.IntegerUnit

/-!
# The values of the integer instructions

The ISS computes with machine words, takes the special cases of a division one by one, and keeps the upper
half of a product of 128 bits.  Each of its results is what the instruction set says about the integers that
the registers stand for.
-/

namespace RiscvVp.IntegerUnit

open Rv64im

/-! ### Values -/

section Values

variable (s : IntegerUnit) (instr : Instr)

theorem shamt_eq (index : BitVec 32) : s.shamt index = (s.reg index).toNat % 64 := by
  rw [shamt, BitVec.toNat_and]
  exact Nat.and_two_pow_sub_one_eq_mod _ 6

theorem shamtW_eq (index : BitVec 32) : s.shamtW index = (s.reg index).toNat % 32 := by
  rw [shamtW, BitVec.toNat_and]
  exact Nat.and_two_pow_sub_one_eq_mod _ 5

theorem flag_slt {w : ℕ} (a b : BitVec w) : IntegerUnit.flag (a.slt b) = Rv64im.flag (a.toInt < b.toInt) := by
  rw [IntegerUnit.flag, BitVec.slt, Rv64im.flag]
  simp only [decide_eq_true_eq]

theorem flag_ult {w : ℕ} (a b : BitVec w) : IntegerUnit.flag (a.ult b) = Rv64im.flag (a.toNat < b.toNat) := by
  rw [IntegerUnit.flag, BitVec.ult, Rv64im.flag]
  simp only [decide_eq_true_eq]

theorem mulh_eq (a b : BitVec 64) :
    ((a.signExtend 128 * b.signExtend 128).sshiftRight 64).setWidth 64 =
      wrap (a.toInt * b.toInt / 2 ^ 64) := by
  rw [← Words.toInt_signExtend_mul_signExtend a b (by omega)]
  exact Words.setWidth_sshiftRight (w := 64) _

theorem mulhsu_eq (a b : BitVec 64) :
    ((a.signExtend 128 * b.setWidth 128).sshiftRight 64).setWidth 64 =
      wrap (a.toInt * b.toNat / 2 ^ 64) := by
  rw [← Words.toInt_signExtend_mul_setWidth a b (by omega)]
  exact Words.setWidth_sshiftRight (w := 64) _

theorem mulhu_eq (a b : BitVec 64) :
    ((a.setWidth 128 * b.setWidth 128).sshiftRight 64).setWidth 64 = wrap (a.toNat * b.toNat / 2 ^ 64) := by
  rw [← Nat.cast_mul, ← Words.toNat_setWidth_mul_setWidth a b]
  exact Words.setWidth_sshiftRight_toNat (w := 64) _

/-- The two special cases of a division agree with the rounded quotient. -/
theorem div_eq (a b : BitVec 64) : div a b = wrap (if b = 0 then -1 else a.toInt.tdiv b.toInt) := by
  unfold div
  split_ifs with hzero hover
  · rfl
  · obtain ⟨rfl, rfl⟩ := hover
    rfl
  · exact Words.sdiv_eq a b

theorem rem_eq (a b : BitVec 64) :
    rem a b = wrap (if b = 0 then a.toInt else a.toInt.tmod b.toInt) := by
  unfold rem
  split_ifs with hzero hover
  · exact BitVec.ofInt_toInt.symm
  · obtain ⟨rfl, rfl⟩ := hover
    rfl
  · exact Words.srem_eq a b

theorem divw_eq (a b : BitVec 32) : divw a b = wrapW (if b = 0 then -1 else a.toInt.tdiv b.toInt) := by
  unfold divw wrapW
  split_ifs with hzero hover
  · rfl
  · obtain ⟨rfl, rfl⟩ := hover
    rfl
  · rw [Words.sdiv_eq]

theorem remw_eq (a b : BitVec 32) :
    remw a b = wrapW (if b = 0 then a.toInt else a.toInt.tmod b.toInt) := by
  unfold remw wrapW
  split_ifs with hzero hover
  · rw [BitVec.ofInt_toInt]
  · obtain ⟨rfl, rfl⟩ := hover
    rfl
  · rw [Words.srem_eq]

theorem divu_eq (a b : BitVec 64) :
    (if b = 0 then -1 else a / b) = wrap (if b = 0 then -1 else a.toNat / b.toNat) := by
  split_ifs with hzero
  · rfl
  · exact Words.udiv_eq a b

theorem remu_eq (a b : BitVec 64) :
    (if b = 0 then a else a % b) = wrap (if b = 0 then a.toNat else a.toNat % b.toNat) := by
  split_ifs with hzero
  · exact (Words.ofInt_toNat a).symm
  · exact Words.umod_eq a b

theorem divuw_eq (a b : BitVec 32) :
    (if b = 0 then -1 else (a / b).signExtend 64) = wrapW (if b = 0 then -1 else a.toNat / b.toNat) := by
  unfold wrapW
  split_ifs with hzero
  · rfl
  · rw [Words.udiv_eq]

theorem remuw_eq (a b : BitVec 32) :
    (if b = 0 then a.signExtend 64 else (a % b).signExtend 64) =
      wrapW (if b = 0 then a.toNat else a.toNat % b.toNat) := by
  unfold wrapW
  split_ifs with hzero
  · rw [Words.ofInt_toNat]
  · rw [Words.umod_eq]

theorem signExtend_eq_wrapW {x : BitVec 32} {n : ℤ} (h : x = BitVec.ofInt 32 n) :
    some (x.signExtend 64) = some (wrapW n) := by
  rw [h, wrapW]

theorem setWidth_signExtend (a : BitVec 64) : (a.signExtend 128).setWidth 64 = a := by
  ext i hlt
  rw [BitVec.getElem_setWidth, BitVec.getLsbD_signExtend, if_pos hlt, BitVec.getLsbD_eq_getElem hlt]
  simp [show i < 128 by omega]

/-- An instruction on two registers: the expression of the source and the value of the instruction set
agree. -/
theorem rdValue_of_regValue {o : Operation} {v : BitVec 64}
    (h : regValue (s.reg instr.rs1) (s.reg instr.rs2) o = some v) : s.rdValue instr o = some v := by
  rw [← h]
  -- by operation: the code computes on 64-bit words, the value is read off numbers
  cases o with
  | add => exact congrArg some (Words.add_eq _ _)
  | sub => exact congrArg some (Words.sub_eq _ _)
  | slt => exact congrArg some (flag_slt _ _)
  | sltu => exact congrArg some (flag_ult _ _)
  | xor | or | and => rfl
  | sll =>
    rw [rdValue, regValue, shamt_eq]
    exact congrArg some (Words.shiftLeft_eq _ _)
  | srl =>
    rw [rdValue, regValue, shamt_eq]
    exact congrArg some (Words.ushiftRight_eq _ _)
  | sra =>
    rw [rdValue, regValue, shamt_eq]
    exact congrArg some (Words.sshiftRight_eq _ _)
  | mul =>
    rw [rdValue, BitVec.setWidth_mul _ _ (by omega), setWidth_signExtend, setWidth_signExtend]
    exact congrArg some (Words.mul_eq _ _)
  | mulh => exact congrArg some (mulh_eq _ _)
  | mulhsu => exact congrArg some (mulhsu_eq _ _)
  | mulhu => exact congrArg some (mulhu_eq _ _)
  | div => exact congrArg some (div_eq _ _)
  | divu => exact congrArg some (divu_eq _ _)
  | rem => exact congrArg some (rem_eq _ _)
  | remu => exact congrArg some (remu_eq _ _)
  | addw => exact signExtend_eq_wrapW (Words.add_eq _ _)
  | subw => exact signExtend_eq_wrapW (Words.sub_eq _ _)
  | sllw =>
    rw [rdValue, regValue, shamtW_eq]
    exact signExtend_eq_wrapW (Words.shiftLeft_eq _ _)
  | srlw =>
    rw [rdValue, regValue, shamtW_eq]
    exact signExtend_eq_wrapW (Words.ushiftRight_eq _ _)
  | sraw =>
    rw [rdValue, regValue, shamtW_eq]
    exact signExtend_eq_wrapW (Words.sshiftRight_eq _ _)
  | mulw =>
    rw [rdValue, BitVec.setWidth_mul _ _ (by omega)]
    exact signExtend_eq_wrapW (Words.mul_eq _ _)
  | divw => exact congrArg some (divw_eq _ _)
  | divuw => exact congrArg some (divuw_eq _ _)
  | remw => exact congrArg some (remw_eq _ _)
  | remuw => exact congrArg some (remuw_eq _ _)
  | _ => cases h

theorem add_signExtend (a : BitVec 64) (imm : BitVec 32) :
    a + imm.signExtend 64 = wrap (a.toInt + imm.toInt) := by
  rw [Words.add_eq, BitVec.toInt_signExtend_of_le (by omega)]
  rfl

/-- An instruction on a register and an immediate. -/
theorem rdValue_of_immValue {o : Operation} {v : BitVec 64}
    (h : immValue (s.reg instr.rs1) instr.iImm o = some v) : s.rdValue instr o = some v := by
  rw [← h]
  cases o with
  | addi => exact congrArg some (add_signExtend _ _)
  | slti =>
    rw [rdValue, flag_slt, BitVec.toInt_signExtend_of_le (by omega)]
    rfl
  | sltiu => exact congrArg some (flag_ult _ _)
  | xori | ori | andi => rfl
  | addiw => exact signExtend_eq_wrapW (Words.add_eq _ _)
  | _ => cases h

/-- The operations whose shift amount has five bits. -/
def isShiftW : Operation → Bool
  | .slliw | .srliw | .sraiw => true
  | _ => false

/-- An instruction on a register and a shift amount. -/
theorem rdValue_of_shiftValue {o : Operation} {v : BitVec 64} (hw : isShiftW o → instr.shamtW = instr.shamt)
    (h : shiftValue (s.reg instr.rs1) instr.shamt.toNat o = some v) : s.rdValue instr o = some v := by
  rw [← h]
  cases o with
  | slli => exact congrArg some (Words.shiftLeft_eq _ _)
  | srli => exact congrArg some (Words.ushiftRight_eq _ _)
  | srai => exact congrArg some (Words.sshiftRight_eq _ _)
  | slliw =>
    rw [rdValue, hw rfl]
    exact signExtend_eq_wrapW (Words.shiftLeft_eq _ _)
  | srliw =>
    rw [rdValue, hw rfl]
    exact signExtend_eq_wrapW (Words.ushiftRight_eq _ _)
  | sraiw =>
    rw [rdValue, hw rfl]
    exact signExtend_eq_wrapW (Words.sshiftRight_eq _ _)
  | _ => cases h

/-- An instruction with an upper immediate, on its own or added to the address of the instruction. -/
theorem rdValue_of_upperValue {o : Operation} {v : BitVec 64} (h : upperValue s.lastPc instr.uImm o = some v) :
    s.rdValue instr o = some v := by
  rw [← h]
  cases o with
  | lui => rfl
  | auipc => exact congrArg some (add_signExtend _ _)
  | _ => cases h

/-- The condition of a branch, signed or unsigned, compares the same two registers. -/
theorem branchTaken_of_taken {o : Operation} {t : Bool}
    (h : taken (s.reg instr.rs1) (s.reg instr.rs2) o = some t) : s.branchTaken instr o = some t := by
  rw [← h]
  cases o with
  | beq | bne | blt | bltu => rfl
  | bge =>
    rw [branchTaken, taken, BitVec.slt]
    simp only [← decide_not, not_lt]
  | bgeu =>
    rw [branchTaken, taken, BitVec.ult]
    simp only [← decide_not, not_lt]
  | _ => cases h

end Values

end RiscvVp.IntegerUnit
