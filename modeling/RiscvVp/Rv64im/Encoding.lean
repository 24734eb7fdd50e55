import RiscvVp.Instr.Rvc

/-!
# The 32-bit encodings of the integer instruction set

The words of RV64IM, field by field, from the most significant field on.  Offsets of branches and jumps are
kept without their lowest bit, which is always zero, and upper immediates without their twelve low bits.
-/

namespace RiscvVp.Rv64im

/-! ### Formats -/

/-- The format of two source registers and a destination. -/
def rWord (funct7 : BitVec 7) (rs2 rs1 : BitVec 5) (funct3 : BitVec 3) (rd : BitVec 5) (opcode : BitVec 7) :
    BitVec 32 :=
  funct7 ++ rs2 ++ rs1 ++ funct3 ++ rd ++ opcode

/-- One source register and an immediate. -/
def iWord (imm : BitVec 12) (rs1 : BitVec 5) (funct3 : BitVec 3) (rd : BitVec 5) (opcode : BitVec 7) :
    BitVec 32 :=
  imm ++ rs1 ++ funct3 ++ rd ++ opcode

/-- The format of an immediate of twenty bits and a destination. -/
def uWord (imm : BitVec 20) (rd : BitVec 5) (opcode : BitVec 7) : BitVec 32 := imm ++ rd ++ opcode

/-- The bits of a branch offset in the place of `funct7`. -/
def branchHigh (imm : BitVec 12) : BitVec 7 := imm.extractLsb' 11 1 ++ imm.extractLsb' 4 6

/-- The bits of a branch offset in the place of `rd`. -/
def branchLow (imm : BitVec 12) : BitVec 5 := imm.extractLsb' 0 4 ++ imm.extractLsb' 10 1

/-- The bits of a jump offset in the place of an upper immediate. -/
def jumpField (imm : BitVec 20) : BitVec 20 :=
  imm.extractLsb' 19 1 ++ imm.extractLsb' 0 10 ++ imm.extractLsb' 10 1 ++ imm.extractLsb' 11 8

/-! ### Codes -/

/-- `OP-IMM`: a register and an immediate. -/
def opImm : BitVec 7 := 0b0010011

/-- `OP-IMM-32`: a word of a register and an immediate. -/
def opImm32 : BitVec 7 := 0b0011011

/-- `OP`: two registers. -/
def opReg : BitVec 7 := 0b0110011

/-- `OP-32`: words of two registers. -/
def opReg32 : BitVec 7 := 0b0111011

/-- `funct7`, `funct3` and opcode of an operation on two registers.  The operations of the M extension are
those with 1 in `funct7`. -/
def rCode : Operation → Option (BitVec 7 × BitVec 3 × BitVec 7)
  | .add => some (0b0000000, 0b000, opReg)
  | .sub => some (0b0100000, 0b000, opReg)
  | .sll => some (0b0000000, 0b001, opReg)
  | .slt => some (0b0000000, 0b010, opReg)
  | .sltu => some (0b0000000, 0b011, opReg)
  | .xor => some (0b0000000, 0b100, opReg)
  | .srl => some (0b0000000, 0b101, opReg)
  | .sra => some (0b0100000, 0b101, opReg)
  | .or => some (0b0000000, 0b110, opReg)
  | .and => some (0b0000000, 0b111, opReg)
  | .mul => some (0b0000001, 0b000, opReg)
  | .mulh => some (0b0000001, 0b001, opReg)
  | .mulhsu => some (0b0000001, 0b010, opReg)
  | .mulhu => some (0b0000001, 0b011, opReg)
  | .div => some (0b0000001, 0b100, opReg)
  | .divu => some (0b0000001, 0b101, opReg)
  | .rem => some (0b0000001, 0b110, opReg)
  | .remu => some (0b0000001, 0b111, opReg)
  | .addw => some (0b0000000, 0b000, opReg32)
  | .subw => some (0b0100000, 0b000, opReg32)
  | .sllw => some (0b0000000, 0b001, opReg32)
  | .srlw => some (0b0000000, 0b101, opReg32)
  | .sraw => some (0b0100000, 0b101, opReg32)
  | .mulw => some (0b0000001, 0b000, opReg32)
  | .divw => some (0b0000001, 0b100, opReg32)
  | .divuw => some (0b0000001, 0b101, opReg32)
  | .remw => some (0b0000001, 0b110, opReg32)
  | .remuw => some (0b0000001, 0b111, opReg32)
  | _ => none

/-- `funct3` and opcode of an operation on a register and an immediate. -/
def iCode : Operation → Option (BitVec 3 × BitVec 7)
  | .jalr => some (0b000, 0b1100111)
  | .addi => some (0b000, opImm)
  | .slti => some (0b010, opImm)
  | .sltiu => some (0b011, opImm)
  | .xori => some (0b100, opImm)
  | .ori => some (0b110, opImm)
  | .andi => some (0b111, opImm)
  | .addiw => some (0b000, opImm32)
  | _ => none

/-- The six upper bits and `funct3` of a shift by up to 63. -/
def shiftCode : Operation → Option (BitVec 6 × BitVec 3)
  | .slli => some (0b000000, 0b001)
  | .srli => some (0b000000, 0b101)
  | .srai => some (0b010000, 0b101)
  | _ => none

/-- `funct7` and `funct3` of a shift of a word by up to 31. -/
def shiftWCode : Operation → Option (BitVec 7 × BitVec 3)
  | .slliw => some (0b0000000, 0b001)
  | .srliw => some (0b0000000, 0b101)
  | .sraiw => some (0b0100000, 0b101)
  | _ => none

/-- `funct3` of a branch. -/
def branchCode : Operation → Option (BitVec 3)
  | .beq => some 0b000
  | .bne => some 0b001
  | .blt => some 0b100
  | .bge => some 0b101
  | .bltu => some 0b110
  | .bgeu => some 0b111
  | _ => none

/-- The opcode of an operation on an upper immediate. -/
def upperCode : Operation → Option (BitVec 7)
  | .lui => some 0b0110111
  | .auipc => some 0b0010111
  | _ => none

/-! ### Instructions -/

/-- A word is an instruction with these operands. -/
inductive Encoded (isa : IsaConfig) : BitVec 32 → Rvc.Expansion → Prop
  | r {o : Operation} {funct7 : BitVec 7} {funct3 : BitVec 3} {opcode : BitVec 7}
      (hcode : rCode o = some (funct7, funct3, opcode)) (hm : funct7 = 1 → isa.supports IsaConfig.m)
      (rd rs1 rs2 : BitVec 5) : Encoded isa (rWord funct7 rs2 rs1 funct3 rd opcode) (.r o rd rs1 rs2)
  | i {o : Operation} {funct3 : BitVec 3} {opcode : BitVec 7} (hcode : iCode o = some (funct3, opcode))
      (rd rs1 : BitVec 5) (imm : BitVec 12) :
      Encoded isa (iWord imm rs1 funct3 rd opcode) (.i o rd rs1 (imm.signExtend 32))
  | shift {o : Operation} {funct6 : BitVec 6} {funct3 : BitVec 3} (hcode : shiftCode o = some (funct6, funct3))
      (rd rs1 : BitVec 5) (shamt : BitVec 6) :
      Encoded isa (iWord (funct6 ++ shamt) rs1 funct3 rd opImm) (.shift o rd rs1 shamt)
  | shiftW {o : Operation} {funct7 : BitVec 7} {funct3 : BitVec 3}
      (hcode : shiftWCode o = some (funct7, funct3)) (rd rs1 shamt : BitVec 5) :
      Encoded isa (rWord funct7 shamt rs1 funct3 rd opImm32) (.shift o rd rs1 (shamt.setWidth 6))
  | b {o : Operation} {funct3 : BitVec 3} (hcode : branchCode o = some funct3) (rs1 rs2 : BitVec 5)
      (imm : BitVec 12) :
      Encoded isa (rWord (branchHigh imm) rs2 rs1 funct3 (branchLow imm) 0b1100011)
        (.b o rs1 rs2 ((imm ++ 0#1).signExtend 32))
  | u {o : Operation} {opcode : BitVec 7} (hcode : upperCode o = some opcode) (rd : BitVec 5)
      (imm : BitVec 20) : Encoded isa (uWord imm rd opcode) (.u o rd (imm ++ 0#12))
  | j (rd : BitVec 5) (imm : BitVec 20) :
      Encoded isa (uWord (jumpField imm) rd 0b1101111) (.j .jal rd ((imm ++ 0#1).signExtend 32))

end RiscvVp.Rv64im
