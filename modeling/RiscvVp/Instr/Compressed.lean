import RiscvVp.Instr.Decode

/-!
# `decode_and_expand_compressed`

The decoder of 16-bit instructions.  It names the compressed instruction (`decode_compressed`) and
replaces the word by that of a 32-bit instruction, which `InstructionFactory` builds
(`expand_compressed`).
-/

namespace RiscvVp.Instr

/-! ### Fields of a compressed word -/

section Fields

variable (instr : Instr)

def cFormat : BitVec 32 := instr &&& 0xffff
def cOpcode : BitVec 32 := instr.bitSlice 15 13
def cB12 : BitVec 32 := instr.bitSingleP1 12
def cRd : BitVec 32 := instr.rd
def cRdSmall : BitVec 32 := instr.bitSlice 9 7 ||| 8
def cRs2Small : BitVec 32 := instr.bitSlice 4 2 ||| 8
def cRs2 : BitVec 32 := instr.bitSlice 6 2
def cImm : BitVec 32 := instr.bitSlice 6 2 ||| instr.extractSignBit 12 5
def cUimm : BitVec 32 := instr.bitSlice 6 2 ||| instr.bitSingleP1 12 <<< 5
def cF2High : BitVec 32 := instr.bitSlice 11 10
def cF2Low : BitVec 32 := instr.bitSlice 6 5

def cAddi4spnNzuimm : BitVec 32 :=
  instr.bitSlice 12 11 <<< 4 ||| instr.bitSlice 10 7 <<< 6 ||| instr.bitSingleP1 6 <<< 2 |||
    instr.bitSingleP1 5 <<< 3

def cLwUimm : BitVec 32 :=
  instr.bitSlice 12 10 <<< 3 ||| instr.bitSingleP1 6 <<< 2 ||| instr.bitSingleP1 5 <<< 6

def cLdUimm : BitVec 32 := instr.bitSlice 12 10 <<< 3 ||| instr.bitSlice 6 5 <<< 6

def cSwUimm : BitVec 32 := instr.cLwUimm

def cSdUimm : BitVec 32 := instr.cLdUimm

def cJalImm : BitVec 32 :=
  instr.extractSignBit 12 11 ||| instr.bitSinglePN 11 4 ||| instr.bitSlice 10 9 <<< 8 |||
    instr.bitSinglePN 8 10 ||| instr.bitSinglePN 7 6 ||| instr.bitSinglePN 6 7 |||
    instr.bitSlice 5 3 <<< 1 ||| instr.bitSinglePN 2 5

def cAddi16spNzimm : BitVec 32 :=
  instr.extractSignBit 12 9 ||| instr.bitSinglePN 6 4 ||| instr.bitSinglePN 5 6 |||
    instr.bitSlice 4 3 <<< 7 ||| instr.bitSinglePN 2 5

def cLuiNzimm : BitVec 32 := instr.extractSignBit 12 17 ||| instr.bitSlice 6 2 <<< 12

def cJImm : BitVec 32 := instr.cJalImm

def cBranchImm : BitVec 32 :=
  instr.extractSignBit 12 8 ||| instr.bitSlice 11 10 <<< 3 ||| instr.bitSlice 6 5 <<< 6 |||
    instr.bitSlice 4 3 <<< 1 ||| instr.bitSinglePN 2 5

def cLwspUimm : BitVec 32 :=
  instr.bitSinglePN 12 5 ||| instr.bitSlice 6 4 <<< 2 ||| instr.bitSlice 3 2 <<< 6

def cSwspUimm : BitVec 32 := instr.bitSlice 12 9 <<< 2 ||| instr.bitSlice 8 7 <<< 6

def cLdspUimm : BitVec 32 :=
  instr.bitSinglePN 12 5 ||| instr.bitSlice 6 5 <<< 3 ||| instr.bitSlice 4 2 <<< 6

def cSdspUimm : BitVec 32 := instr.bitSlice 12 10 <<< 3 ||| instr.bitSlice 9 7 <<< 6

end Fields

/-! ### `InstructionFactory` -/

namespace InstructionFactory

/-- A word with the registers `rd`, `rs1` and `rs2`. -/
def rFormat (opcode funct3 funct7 rd rs1 rs2 : BitVec 32) : Instr :=
  (rd &&& 0x1f) <<< 7 ||| (rs1 &&& 0x1f) <<< 15 ||| (rs2 &&& 0x1f) <<< 20 ||| opcode ||| funct3 <<< 12 |||
    funct7 <<< 25

/-- A word with the registers `rd` and `rs1` and an immediate. -/
def iFormat (opcode funct3 rd rs1 iImm : BitVec 32) : Instr :=
  (iImm &&& 4095) <<< 20 ||| (rd &&& 0x1f) <<< 7 ||| (rs1 &&& 0x1f) <<< 15 ||| opcode ||| funct3 <<< 12

/-- A word with the registers `rd` and `rs1` and a shift amount. -/
def shiftFormat (opcode funct3 funct7 rd rs1 shamt : BitVec 32) : Instr :=
  (rd &&& 0x1f) <<< 7 ||| (rs1 &&& 0x1f) <<< 15 ||| (shamt &&& 63) <<< 20 ||| opcode ||| funct3 <<< 12 |||
    funct7 <<< 25

/-- A word with the registers `rs1` and `rs2` and an immediate. -/
def sFormat (opcode funct3 rs1 rs2 sImm : BitVec 32) : Instr :=
  ((sImm &&& 0b11111) <<< 7 ||| (sImm &&& 0b1111111 <<< 5) <<< 20) ||| (rs1 &&& 0x1f) <<< 15 |||
    (rs2 &&& 0x1f) <<< 20 ||| opcode ||| funct3 <<< 12

/-- A word with the registers `rs1` and `rs2` and the offset of a branch. -/
def bFormat (opcode funct3 rs1 rs2 bImm : BitVec 32) : Instr :=
  (((bImm &&& 0b11110) <<< 7 ||| (bImm &&& 1 <<< 11) >>> 4) |||
      ((bImm &&& 0b111111 <<< 5) <<< 20 ||| (bImm &&& 1 <<< 12) <<< 19)) |||
    (rs1 &&& 0x1f) <<< 15 ||| (rs2 &&& 0x1f) <<< 20 ||| opcode ||| funct3 <<< 12

def add (rd rs1 rs2 : BitVec 32) : Instr := rFormat 51 0 0 rd rs1 rs2
def and (rd rs1 rs2 : BitVec 32) : Instr := rFormat 51 7 0 rd rs1 rs2
def or (rd rs1 rs2 : BitVec 32) : Instr := rFormat 51 6 0 rd rs1 rs2
def xor (rd rs1 rs2 : BitVec 32) : Instr := rFormat 51 4 0 rd rs1 rs2
def sub (rd rs1 rs2 : BitVec 32) : Instr := rFormat 51 0 32 rd rs1 rs2
def lw (rd rs1 iImm : BitVec 32) : Instr := iFormat 3 2 rd rs1 iImm
def ld (rd rs1 iImm : BitVec 32) : Instr := iFormat 3 3 rd rs1 iImm
def flw (rd rs1 iImm : BitVec 32) : Instr := iFormat 7 2 rd rs1 iImm
def fld (rd rs1 iImm : BitVec 32) : Instr := iFormat 7 3 rd rs1 iImm
def sw (rs1 rs2 sImm : BitVec 32) : Instr := sFormat 35 2 rs1 rs2 sImm
def sd (rs1 rs2 sImm : BitVec 32) : Instr := sFormat 35 3 rs1 rs2 sImm
def fsw (rs1 rs2 sImm : BitVec 32) : Instr := sFormat 39 2 rs1 rs2 sImm
def fsd (rs1 rs2 sImm : BitVec 32) : Instr := sFormat 39 3 rs1 rs2 sImm

def lui (rd uImm : BitVec 32) : Instr := (uImm &&& 1048575 <<< 12) ||| (rd &&& 0x1f) <<< 7 ||| 55

def addi (rd rs1 iImm : BitVec 32) : Instr := iFormat 19 0 rd rs1 iImm
def andi (rd rs1 iImm : BitVec 32) : Instr := iFormat 19 7 rd rs1 iImm
def srli (rd rs1 shamt : BitVec 32) : Instr := shiftFormat 19 5 0 rd rs1 shamt
def srai (rd rs1 shamt : BitVec 32) : Instr := shiftFormat 19 5 32 rd rs1 shamt
def slli (rd rs1 shamt : BitVec 32) : Instr := shiftFormat 19 1 0 rd rs1 shamt

def jal (rd jImm : BitVec 32) : Instr :=
  111 ||| (rd &&& 0x1f) <<< 7 |||
    ((jImm &&& 0b11111111 <<< 12) ||| (jImm &&& 1 <<< 11) <<< 9 ||| (jImm &&& 0b11111111110) <<< 20 |||
      (jImm &&& 1 <<< 20) <<< 11)

def jalr (rd rs1 iImm : BitVec 32) : Instr := iFormat 103 0 rd rs1 iImm
def beq (rs1 rs2 bImm : BitVec 32) : Instr := bFormat 99 0 rs1 rs2 bImm
def bne (rs1 rs2 bImm : BitVec 32) : Instr := bFormat 99 1 rs1 rs2 bImm
def ebreak : Instr := 1048691
def addiw (rd rs1 iImm : BitVec 32) : Instr := iFormat 0x1b 0 rd rs1 iImm
def addw (rd rs1 rs2 : BitVec 32) : Instr := rFormat 0x3b 0 0 rd rs1 rs2
def subw (rd rs1 rs2 : BitVec 32) : Instr := rFormat 0x3b 0 32 rd rs1 rs2

end InstructionFactory

/-! ### `decode_compressed` -/

/-- `C_OpId`: the compressed operations that the decoder distinguishes. -/
inductive COpId
  | cIllegal | cReserved | cAddi4spn | cFld | cLq | cLw | cFlw | cLd | cFsd | cSq | cSw | cFsw | cSd
  | cNop | cAddi | cJal | cAddiw | cLi | cAddi16sp | cLui | cSrli | cSrai | cAndi | cSub | cXor | cOr
  | cAnd | cSubw | cAddw | cJ | cBeqz | cBnez | cSlli | cFldsp | cLqsp | cLwsp | cFlwsp | cLdsp | cJr
  | cMv | cEbreak | cJalr | cAdd | cFsdsp | cSqsp | cSwsp | cFswsp | cSdsp
  deriving DecidableEq, Repr

section Cases

variable (instr : Instr) (arch : Architecture)

/-- The instructions of quadrant 0, by `C_opcode`: loads and stores, and an addition to the stack pointer. -/
def decodeQuadrant0 : COpId :=
  switch instr.cOpcode
    [(0b000, if instr.cFormat = 0 then .cIllegal else .cAddi4spn), (0b001, .cFld), (0b010, .cLw),
      (0b011, if arch = .rv32 then .cFlw else .cLd), (0b100, .cReserved), (0b101, .cFsd), (0b110, .cSw),
      (0b111, if arch = .rv32 then .cFsw else .cSd)] .cIllegal

/-- The arithmetic of quadrant 1, by the two bits above the destination and by two more for registers. -/
def decodeMiscAlu : COpId :=
  switch instr.cF2High
    [(0b00, .cSrli), (0b01, .cSrai), (0b10, .cAndi),
      (0b11, if instr.cB12 ≠ 0 then
          switch instr.cF2Low [(0b00, .cSubw), (0b01, .cAddw)] .cReserved
        else
          switch instr.cF2Low [(0b00, .cSub), (0b01, .cXor), (0b10, .cOr), (0b11, .cAnd)] .cIllegal)]
    .cIllegal

/-- The instructions of quadrant 1, by `C_opcode`: immediates, jumps and branches. -/
def decodeQuadrant1 : COpId :=
  switch instr.cOpcode
    [(0b000, if instr.cFormat = 1 then .cNop else .cAddi),
      (0b001, if arch = .rv32 then .cJal else .cAddiw), (0b010, .cLi),
      (0b011, if instr.cRd = 2 then .cAddi16sp else .cLui), (0b100, instr.decodeMiscAlu), (0b101, .cJ),
      (0b110, .cBeqz), (0b111, .cBnez)] .cIllegal

/-- The jumps, moves and additions of quadrant 2. -/
def decodeJumpMove : COpId :=
  if instr.cB12 ≠ 0 then
    if instr.cRd ≠ 0 then if instr.cRs2 ≠ 0 then .cAdd else .cJalr
    else .cEbreak
  else if instr.cRs2 ≠ 0 then .cMv
  else .cJr

/-- The instructions of quadrant 2, by `C_opcode`: the stack, moves and jumps by a register. -/
def decodeQuadrant2 : COpId :=
  switch instr.cOpcode
    [(0b000, .cSlli), (0b001, .cFldsp), (0b010, .cLwsp), (0b011, if arch = .rv32 then .cFlwsp else .cLdsp),
      (0b100, instr.decodeJumpMove), (0b101, .cFsdsp), (0b110, .cSwsp),
      (0b111, if arch = .rv32 then .cFswsp else .cSdsp)] .cIllegal

/-- `decode_compressed`; it throws for a word that is not compressed. -/
def decodeCompressed : Option COpId :=
  switch instr.quadrant
    [(0, some (instr.decodeQuadrant0 arch)), (1, some (instr.decodeQuadrant1 arch)),
      (2, some (instr.decodeQuadrant2 arch)), (3, none)] (some .cIllegal)

end Cases

/-! ### `expand_compressed` -/

/-- `C_GET_OP_OR_NOP`, with the word of the instruction. -/
def opOrNop (instr : Instr) (o : Operation) : Instr × OpId :=
  (instr, if instr.rd ≠ 0 then .op o else .rdZero o)

open InstructionFactory in
/-- `expand_compressed`: the word it leaves in `instr` and the operation it returns. -/
def expandCompressed (instr : Instr) (cOpId : COpId) (arch : Architecture) (isa : IsaConfig) :
    Instr × OpId :=
  match cOpId with
  | .cIllegal => (instr, .undef)
  | .cLq | .cLqsp | .cSq | .cSqsp => (instr, .undef)
  | .cReserved => (instr, .undef)
  | .cNop => (add 0 0 0, .rdZero .add)
  | .cAdd => opOrNop (add instr.cRd instr.cRd instr.cRs2) .add
  | .cMv => opOrNop (add instr.cRd 0 instr.cRs2) .add
  | .cAnd => opOrNop (and instr.cRdSmall instr.cRdSmall instr.cRs2Small) .and
  | .cOr => opOrNop (or instr.cRdSmall instr.cRdSmall instr.cRs2Small) .or
  | .cXor => opOrNop (xor instr.cRdSmall instr.cRdSmall instr.cRs2Small) .xor
  | .cSub => opOrNop (sub instr.cRdSmall instr.cRdSmall instr.cRs2Small) .sub
  | .cAddw => opOrNop (addw instr.cRdSmall instr.cRdSmall instr.cRs2Small) .addw
  | .cSubw => opOrNop (subw instr.cRdSmall instr.cRdSmall instr.cRs2Small) .subw
  | .cLw => (lw instr.cRs2Small instr.cRdSmall instr.cLwUimm, .op .lw)
  | .cLd => (ld instr.cRs2Small instr.cRdSmall instr.cLdUimm, .op .ld)
  | .cFlw =>
    if isa.supports IsaConfig.f then (flw instr.cRs2Small instr.cRdSmall instr.cLwUimm, .op .flw)
    else (instr, .unsup)
  | .cFld =>
    if isa.supports IsaConfig.d then (fld instr.cRs2Small instr.cRdSmall instr.cLdUimm, .op .fld)
    else (instr, .unsup)
  | .cSw => (sw instr.cRdSmall instr.cRs2Small instr.cSwUimm, .op .sw)
  | .cSd => (sd instr.cRdSmall instr.cRs2Small instr.cSdUimm, .op .sd)
  | .cFsw =>
    if isa.supports IsaConfig.f then (fsw instr.cRdSmall instr.cRs2Small instr.cSwUimm, .op .fsw)
    else (instr, .unsup)
  | .cFsd =>
    if isa.supports IsaConfig.d then (fsd instr.cRdSmall instr.cRs2Small instr.cSdUimm, .op .fsd)
    else (instr, .unsup)
  | .cAddi4spn =>
    if instr.cAddi4spnNzuimm = 0 then (instr, .undef)
    else opOrNop (addi instr.cRs2Small 2 instr.cAddi4spnNzuimm) .addi
  | .cAddi => opOrNop (addi instr.cRd instr.cRd instr.cImm) .addi
  | .cJal => (jal 1 instr.cJalImm, .op .jal)
  | .cAddiw =>
    if instr.cRd = 0 then (instr, .undef) else opOrNop (addiw instr.cRd instr.cRd instr.cImm) .addiw
  | .cLi => opOrNop (addi instr.cRd 0 instr.cImm) .addi
  | .cAddi16sp =>
    if instr.cAddi16spNzimm = 0 then (instr, .undef) else opOrNop (addi 2 2 instr.cAddi16spNzimm) .addi
  | .cLui => if instr.cLuiNzimm = 0 then (instr, .undef) else opOrNop (lui instr.cRd instr.cLuiNzimm) .lui
  | .cSlli =>
    if arch = .rv32 ∧ instr.cUimm > 31 then (instr, .undef)
    else opOrNop (slli instr.cRd instr.cRd instr.cUimm) .slli
  | .cSrli =>
    if arch = .rv32 ∧ instr.cUimm > 31 then (instr, .undef)
    else opOrNop (srli instr.cRdSmall instr.cRdSmall instr.cUimm) .srli
  | .cSrai =>
    if arch = .rv32 ∧ instr.cUimm > 31 then (instr, .undef)
    else opOrNop (srai instr.cRdSmall instr.cRdSmall instr.cUimm) .srai
  | .cAndi => opOrNop (andi instr.cRdSmall instr.cRdSmall instr.cImm) .andi
  | .cJ => (jal 0 instr.cJImm, .rdZero .jal)
  | .cBeqz => (beq instr.cRdSmall 0 instr.cBranchImm, .op .beq)
  | .cBnez => (bne instr.cRdSmall 0 instr.cBranchImm, .op .bne)
  | .cLwsp => if instr.cRd = 0 then (instr, .undef) else (lw instr.cRd 2 instr.cLwspUimm, .op .lw)
  | .cLdsp => if instr.cRd = 0 then (instr, .undef) else (ld instr.cRd 2 instr.cLdspUimm, .op .ld)
  | .cFlwsp =>
    if isa.supports IsaConfig.f then (flw instr.cRd 2 instr.cLwspUimm, .op .flw) else (instr, .unsup)
  | .cFldsp =>
    if isa.supports IsaConfig.d then (fld instr.cRd 2 instr.cLdspUimm, .op .fld) else (instr, .unsup)
  | .cSwsp => (sw 2 instr.cRs2 instr.cSwspUimm, .op .sw)
  | .cSdsp => (sd 2 instr.cRs2 instr.cSdspUimm, .op .sd)
  | .cFswsp =>
    if isa.supports IsaConfig.f then (fsw 2 instr.cRs2 instr.cSwspUimm, .op .fsw) else (instr, .unsup)
  | .cFsdsp =>
    if isa.supports IsaConfig.d then (fsd 2 instr.cRs2 instr.cSdspUimm, .op .fsd) else (instr, .unsup)
  | .cEbreak => (ebreak, .op .ebreak)
  | .cJr => if instr.cRd = 0 then (instr, .undef) else (jalr 0 instr.cRd 0, .rdZero .jalr)
  | .cJalr => (jalr 1 instr.cRd 0, .op .jalr)

/-- `decode_and_expand_compressed`: the compressed operation, and the word of 32 bits that it stands for. -/
def decodeAndExpandCompressed (instr : Instr) (arch : Architecture) (isa : IsaConfig) :
    Option (Instr × OpId) :=
  if isa.supports IsaConfig.c then
    (instr.decodeCompressed arch).map fun cOp => instr.expandCompressed cOp arch isa
  else some (instr, .unsup)

end RiscvVp.Instr
