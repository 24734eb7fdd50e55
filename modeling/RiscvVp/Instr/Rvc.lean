import RiscvVp.Instr.Basic

/-!
# The compressed instruction set

What a compressed instruction is apart from the decoder: its operands, its 16-bit encoding, and the
32-bit instruction it stands for.  An immediate is kept without the low bits that are always zero.
-/

namespace RiscvVp

/-- A compressed instruction with its operands.  Registers of three bits are `x8` to `x15`. -/
inductive Rvc
  | addi4spn (rd : BitVec 3) (nzuimm : BitVec 8)
  | fld (rd rs1 : BitVec 3) (uimm : BitVec 5)
  | lw (rd rs1 : BitVec 3) (uimm : BitVec 5)
  | flw (rd rs1 : BitVec 3) (uimm : BitVec 5)
  | ld (rd rs1 : BitVec 3) (uimm : BitVec 5)
  | fsd (rs1 rs2 : BitVec 3) (uimm : BitVec 5)
  | sw (rs1 rs2 : BitVec 3) (uimm : BitVec 5)
  | fsw (rs1 rs2 : BitVec 3) (uimm : BitVec 5)
  | sd (rs1 rs2 : BitVec 3) (uimm : BitVec 5)
  | nop
  | addi (rd : BitVec 5) (imm : BitVec 6)
  | jal (imm : BitVec 11)
  | addiw (rd : BitVec 5) (imm : BitVec 6)
  | li (rd : BitVec 5) (imm : BitVec 6)
  | addi16sp (nzimm : BitVec 6)
  | lui (rd : BitVec 5) (nzimm : BitVec 6)
  | srli (rd : BitVec 3) (shamt : BitVec 6)
  | srai (rd : BitVec 3) (shamt : BitVec 6)
  | andi (rd : BitVec 3) (imm : BitVec 6)
  | sub (rd rs2 : BitVec 3)
  | xor (rd rs2 : BitVec 3)
  | or (rd rs2 : BitVec 3)
  | and (rd rs2 : BitVec 3)
  | subw (rd rs2 : BitVec 3)
  | addw (rd rs2 : BitVec 3)
  | j (imm : BitVec 11)
  | beqz (rs1 : BitVec 3) (imm : BitVec 8)
  | bnez (rs1 : BitVec 3) (imm : BitVec 8)
  | slli (rd : BitVec 5) (shamt : BitVec 6)
  | fldsp (rd : BitVec 5) (uimm : BitVec 6)
  | lwsp (rd : BitVec 5) (uimm : BitVec 6)
  | flwsp (rd : BitVec 5) (uimm : BitVec 6)
  | ldsp (rd : BitVec 5) (uimm : BitVec 6)
  | jr (rs1 : BitVec 5)
  | mv (rd rs2 : BitVec 5)
  | ebreak
  | jalr (rs1 : BitVec 5)
  | add (rd rs2 : BitVec 5)
  | fsdsp (rs2 : BitVec 5) (uimm : BitVec 6)
  | swsp (rs2 : BitVec 5) (uimm : BitVec 6)
  | fswsp (rs2 : BitVec 5) (uimm : BitVec 6)
  | sdsp (rs2 : BitVec 5) (uimm : BitVec 6)
  deriving DecidableEq, Repr

namespace Rvc

/-! ### Encodings -/

/-- The order of the bits of a jump offset in the word. -/
def jumpBits (imm : BitVec 11) : BitVec 11 :=
  imm.extractLsb' 10 1 ++ imm.extractLsb' 3 1 ++ imm.extractLsb' 7 2 ++ imm.extractLsb' 9 1 ++
    imm.extractLsb' 5 1 ++ imm.extractLsb' 6 1 ++ imm.extractLsb' 0 3 ++ imm.extractLsb' 4 1

/-- The order of the bits of `C.ADDI4SPN`. -/
def addi4spnBits (rd : BitVec 3) (nzuimm : BitVec 8) : BitVec 11 :=
  nzuimm.extractLsb' 2 2 ++ nzuimm.extractLsb' 4 4 ++ nzuimm.extractLsb' 0 1 ++ nzuimm.extractLsb' 1 1 ++
    rd

/-- The order of the bits of an access to a word, through two registers. -/
def wordBits (rs1 r : BitVec 3) (uimm : BitVec 5) : BitVec 11 :=
  uimm.extractLsb' 1 3 ++ rs1 ++ uimm.extractLsb' 0 1 ++ uimm.extractLsb' 4 1 ++ r

/-- The order of the bits of an access to a double word, through two registers. -/
def doubleBits (rs1 r : BitVec 3) (uimm : BitVec 5) : BitVec 11 :=
  uimm.extractLsb' 0 3 ++ rs1 ++ uimm.extractLsb' 3 2 ++ r

/-- The order of the bits of an instruction with one register and an immediate. -/
def immBits (rd : BitVec 5) (imm : BitVec 6) : BitVec 11 :=
  imm.extractLsb' 5 1 ++ rd ++ imm.extractLsb' 0 5

/-- The order of the bits of `C.ADDI16SP`. -/
def addi16spBits (nzimm : BitVec 6) : BitVec 11 :=
  nzimm.extractLsb' 5 1 ++ 2#5 ++ nzimm.extractLsb' 0 1 ++ nzimm.extractLsb' 2 1 ++
    nzimm.extractLsb' 3 2 ++ nzimm.extractLsb' 1 1

/-- The order of the bits of an immediate shift or `C.ANDI`. -/
def smallImmBits (funct2 : BitVec 2) (rd : BitVec 3) (imm : BitVec 6) : BitVec 11 :=
  imm.extractLsb' 5 1 ++ funct2 ++ rd ++ imm.extractLsb' 0 5

/-- The order of the bits of an operation on two registers. -/
def aluBits (wide : BitVec 1) (rd : BitVec 3) (funct2 : BitVec 2) (rs2 : BitVec 3) : BitVec 11 :=
  wide ++ 0b11#2 ++ rd ++ funct2 ++ rs2

/-- The order of the bits of a branch. -/
def branchBits (rs1 : BitVec 3) (imm : BitVec 8) : BitVec 11 :=
  imm.extractLsb' 7 1 ++ imm.extractLsb' 2 2 ++ rs1 ++ imm.extractLsb' 5 2 ++ imm.extractLsb' 0 2 ++
    imm.extractLsb' 4 1

/-- The order of the bits of the load of a word from the stack. -/
def loadWordSpBits (rd : BitVec 5) (uimm : BitVec 6) : BitVec 11 :=
  uimm.extractLsb' 3 1 ++ rd ++ uimm.extractLsb' 0 3 ++ uimm.extractLsb' 4 2

/-- The order of the bits of the load of a double word from the stack. -/
def loadDoubleSpBits (rd : BitVec 5) (uimm : BitVec 6) : BitVec 11 :=
  uimm.extractLsb' 2 1 ++ rd ++ uimm.extractLsb' 0 2 ++ uimm.extractLsb' 3 3

/-- The order of the bits of the store of a word to the stack. -/
def storeWordSpBits (rs2 : BitVec 5) (uimm : BitVec 6) : BitVec 11 :=
  uimm.extractLsb' 0 4 ++ uimm.extractLsb' 4 2 ++ rs2

/-- The order of the bits of the store of a double word to the stack. -/
def storeDoubleSpBits (rs2 : BitVec 5) (uimm : BitVec 6) : BitVec 11 :=
  uimm.extractLsb' 0 3 ++ uimm.extractLsb' 3 3 ++ rs2

/-- The order of the bits of a jump or move between registers. -/
def moveBits (link : BitVec 1) (rd rs2 : BitVec 5) : BitVec 11 := link ++ rd ++ rs2

/-- The two parts that tell the instructions apart, with the operands between them. -/
def half (funct3 : BitVec 3) (operands : BitVec 11) (quadrant : BitVec 2) : BitVec 16 :=
  funct3 ++ operands ++ quadrant

/-- The 16-bit word of an instruction. -/
def encode : Rvc → BitVec 16
  | addi4spn rd nzuimm => half 0b000 (addi4spnBits rd nzuimm) 0
  | fld rd rs1 uimm => half 0b001 (doubleBits rs1 rd uimm) 0
  | lw rd rs1 uimm => half 0b010 (wordBits rs1 rd uimm) 0
  | flw rd rs1 uimm => half 0b011 (wordBits rs1 rd uimm) 0
  | ld rd rs1 uimm => half 0b011 (doubleBits rs1 rd uimm) 0
  | fsd rs1 rs2 uimm => half 0b101 (doubleBits rs1 rs2 uimm) 0
  | sw rs1 rs2 uimm => half 0b110 (wordBits rs1 rs2 uimm) 0
  | fsw rs1 rs2 uimm => half 0b111 (wordBits rs1 rs2 uimm) 0
  | sd rs1 rs2 uimm => half 0b111 (doubleBits rs1 rs2 uimm) 0
  | nop => half 0b000 (immBits 0 0) 1
  | addi rd imm => half 0b000 (immBits rd imm) 1
  | jal imm => half 0b001 (jumpBits imm) 1
  | addiw rd imm => half 0b001 (immBits rd imm) 1
  | li rd imm => half 0b010 (immBits rd imm) 1
  | addi16sp nzimm => half 0b011 (addi16spBits nzimm) 1
  | lui rd nzimm => half 0b011 (immBits rd nzimm) 1
  | srli rd shamt => half 0b100 (smallImmBits 0b00 rd shamt) 1
  | srai rd shamt => half 0b100 (smallImmBits 0b01 rd shamt) 1
  | andi rd imm => half 0b100 (smallImmBits 0b10 rd imm) 1
  | sub rd rs2 => half 0b100 (aluBits 0 rd 0b00 rs2) 1
  | xor rd rs2 => half 0b100 (aluBits 0 rd 0b01 rs2) 1
  | or rd rs2 => half 0b100 (aluBits 0 rd 0b10 rs2) 1
  | and rd rs2 => half 0b100 (aluBits 0 rd 0b11 rs2) 1
  | subw rd rs2 => half 0b100 (aluBits 1 rd 0b00 rs2) 1
  | addw rd rs2 => half 0b100 (aluBits 1 rd 0b01 rs2) 1
  | j imm => half 0b101 (jumpBits imm) 1
  | beqz rs1 imm => half 0b110 (branchBits rs1 imm) 1
  | bnez rs1 imm => half 0b111 (branchBits rs1 imm) 1
  | slli rd shamt => half 0b000 (immBits rd shamt) 2
  | fldsp rd uimm => half 0b001 (loadDoubleSpBits rd uimm) 2
  | lwsp rd uimm => half 0b010 (loadWordSpBits rd uimm) 2
  | flwsp rd uimm => half 0b011 (loadWordSpBits rd uimm) 2
  | ldsp rd uimm => half 0b011 (loadDoubleSpBits rd uimm) 2
  | jr rs1 => half 0b100 (moveBits 0 rs1 0) 2
  | mv rd rs2 => half 0b100 (moveBits 0 rd rs2) 2
  | ebreak => half 0b100 (moveBits 1 0 0) 2
  | jalr rs1 => half 0b100 (moveBits 1 rs1 0) 2
  | add rd rs2 => half 0b100 (moveBits 1 rd rs2) 2
  | fsdsp rs2 uimm => half 0b101 (storeDoubleSpBits rs2 uimm) 2
  | swsp rs2 uimm => half 0b110 (storeWordSpBits rs2 uimm) 2
  | fswsp rs2 uimm => half 0b111 (storeWordSpBits rs2 uimm) 2
  | sdsp rs2 uimm => half 0b111 (storeDoubleSpBits rs2 uimm) 2

/-! ### Legal operands -/

/-- The instruction is in the set of the architecture, and its operands are not those of a reserved word
or of another instruction.  Hints are instructions: they do nothing, as they write `x0` or the value that
a register has. -/
def Legal (arch : Architecture) : Rvc → Prop
  | addi4spn _ nzuimm => nzuimm ≠ 0
  | flw .. | fsw .. | jal .. | flwsp .. | fswsp .. => arch = .rv32
  | ld .. | sd .. | sdsp .. | subw .. | addw .. => arch = .rv64
  | addi rd imm => ¬(rd = 0 ∧ imm = 0)
  | addiw rd _ => arch = .rv64 ∧ rd ≠ 0
  | addi16sp nzimm => nzimm ≠ 0
  | lui rd nzimm => rd ≠ 2 ∧ nzimm ≠ 0
  | slli _ shamt | srli _ shamt | srai _ shamt => arch = .rv32 → shamt < 32
  | lwsp rd _ => rd ≠ 0
  | ldsp rd _ => arch = .rv64 ∧ rd ≠ 0
  | jr rs1 => rs1 ≠ 0
  | mv _ rs2 => rs2 ≠ 0
  | jalr rs1 => rs1 ≠ 0
  | add _ rs2 => rs2 ≠ 0
  | _ => True

/-! ### Expansions -/

/-- A 32-bit instruction with its operands, for each format. -/
inductive Expansion
  | r (o : Operation) (rd rs1 rs2 : BitVec 5)
  | i (o : Operation) (rd rs1 : BitVec 5) (imm : BitVec 32)
  | shift (o : Operation) (rd rs1 : BitVec 5) (shamt : BitVec 6)
  | s (o : Operation) (rs1 rs2 : BitVec 5) (imm : BitVec 32)
  | b (o : Operation) (rs1 rs2 : BitVec 5) (imm : BitVec 32)
  | u (o : Operation) (rd : BitVec 5) (imm : BitVec 32)
  | j (o : Operation) (rd : BitVec 5) (imm : BitVec 32)
  | system (o : Operation)
  deriving DecidableEq, Repr

namespace Expansion

def op : Expansion → Operation
  | r o .. | i o .. | shift o .. | s o .. | b o .. | u o .. | j o .. | system o => o

/-- The accessors of `Instruction` read the operands from the word. -/
def ReadFrom (instr : Instr) : Expansion → Prop
  | r _ rd rs1 rs2 =>
    instr.rd = rd.setWidth 32 ∧ instr.rs1 = rs1.setWidth 32 ∧ instr.rs2 = rs2.setWidth 32
  | i _ rd rs1 imm => instr.rd = rd.setWidth 32 ∧ instr.rs1 = rs1.setWidth 32 ∧ instr.iImm = imm
  | shift _ rd rs1 shamt =>
    instr.rd = rd.setWidth 32 ∧ instr.rs1 = rs1.setWidth 32 ∧ instr.shamt = shamt.setWidth 32
  | s _ rs1 rs2 imm => instr.rs1 = rs1.setWidth 32 ∧ instr.rs2 = rs2.setWidth 32 ∧ instr.sImm = imm
  | b _ rs1 rs2 imm => instr.rs1 = rs1.setWidth 32 ∧ instr.rs2 = rs2.setWidth 32 ∧ instr.bImm = imm
  | u _ rd imm => instr.rd = rd.setWidth 32 ∧ instr.uImm = imm
  | j _ rd imm => instr.rd = rd.setWidth 32 ∧ instr.jImm = imm
  | system _ => True

end Expansion

/-- The register `x8` and those after it. -/
def small (r : BitVec 3) : BitVec 5 := 0b01#2 ++ r

/-- The 32-bit instruction that an instruction stands for. -/
def expansion : Rvc → Expansion
  | addi4spn rd nzuimm => .i .addi (small rd) 2 (nzuimm.setWidth 32 <<< 2)
  | fld rd rs1 uimm => .i .fld (small rd) (small rs1) (uimm.setWidth 32 <<< 3)
  | lw rd rs1 uimm => .i .lw (small rd) (small rs1) (uimm.setWidth 32 <<< 2)
  | flw rd rs1 uimm => .i .flw (small rd) (small rs1) (uimm.setWidth 32 <<< 2)
  | ld rd rs1 uimm => .i .ld (small rd) (small rs1) (uimm.setWidth 32 <<< 3)
  | fsd rs1 rs2 uimm => .s .fsd (small rs1) (small rs2) (uimm.setWidth 32 <<< 3)
  | sw rs1 rs2 uimm => .s .sw (small rs1) (small rs2) (uimm.setWidth 32 <<< 2)
  | fsw rs1 rs2 uimm => .s .fsw (small rs1) (small rs2) (uimm.setWidth 32 <<< 2)
  | sd rs1 rs2 uimm => .s .sd (small rs1) (small rs2) (uimm.setWidth 32 <<< 3)
  -- the source takes an addition of registers for it
  | nop => .r .add 0 0 0
  | addi rd imm => .i .addi rd rd (imm.signExtend 32)
  | jal imm => .j .jal 1 (imm.signExtend 32 <<< 1)
  | addiw rd imm => .i .addiw rd rd (imm.signExtend 32)
  | li rd imm => .i .addi rd 0 (imm.signExtend 32)
  | addi16sp nzimm => .i .addi 2 2 (nzimm.signExtend 32 <<< 4)
  | lui rd nzimm => .u .lui rd (nzimm.signExtend 32 <<< 12)
  | srli rd shamt => .shift .srli (small rd) (small rd) shamt
  | srai rd shamt => .shift .srai (small rd) (small rd) shamt
  | andi rd imm => .i .andi (small rd) (small rd) (imm.signExtend 32)
  | sub rd rs2 => .r .sub (small rd) (small rd) (small rs2)
  | xor rd rs2 => .r .xor (small rd) (small rd) (small rs2)
  | or rd rs2 => .r .or (small rd) (small rd) (small rs2)
  | and rd rs2 => .r .and (small rd) (small rd) (small rs2)
  | subw rd rs2 => .r .subw (small rd) (small rd) (small rs2)
  | addw rd rs2 => .r .addw (small rd) (small rd) (small rs2)
  | j imm => .j .jal 0 (imm.signExtend 32 <<< 1)
  | beqz rs1 imm => .b .beq (small rs1) 0 (imm.signExtend 32 <<< 1)
  | bnez rs1 imm => .b .bne (small rs1) 0 (imm.signExtend 32 <<< 1)
  | slli rd shamt => .shift .slli rd rd shamt
  | fldsp rd uimm => .i .fld rd 2 (uimm.setWidth 32 <<< 3)
  | lwsp rd uimm => .i .lw rd 2 (uimm.setWidth 32 <<< 2)
  | flwsp rd uimm => .i .flw rd 2 (uimm.setWidth 32 <<< 2)
  | ldsp rd uimm => .i .ld rd 2 (uimm.setWidth 32 <<< 3)
  | jr rs1 => .i .jalr 0 rs1 0
  | mv rd rs2 => .r .add rd 0 rs2
  | ebreak => .system .ebreak
  | jalr rs1 => .i .jalr 1 rs1 0
  | add rd rs2 => .r .add rd rd rs2
  | fsdsp rs2 uimm => .s .fsd 2 rs2 (uimm.setWidth 32 <<< 3)
  | swsp rs2 uimm => .s .sw 2 rs2 (uimm.setWidth 32 <<< 2)
  | fswsp rs2 uimm => .s .fsw 2 rs2 (uimm.setWidth 32 <<< 2)
  | sdsp rs2 uimm => .s .sd 2 rs2 (uimm.setWidth 32 <<< 3)

end Rvc

end RiscvVp
