import Mathlib

/-!
# Instruction words

The fields of `Instruction` (`common/instr.h`) with the bit helpers of `util/common.h`, the operations of
the scalar instruction sets with their masks and encodings (`common/instr.cpp`), and what the decoder
returns.
-/

namespace RiscvVp

/-- `Instruction`: the word, which is signed in the source. -/
abbrev Instr := BitVec 32

/-- `Architecture`: the width of the registers that a word is decoded for. -/
inductive Architecture
  | rv32
  | rv64
  deriving DecidableEq, Repr

namespace Instr

/-! ### Bit helpers -/

/-- `BIT_RANGE`: the bits between two positions, where they are in the word. -/
def bitRange (instr : Instr) (upper lower : ℕ) : BitVec 32 :=
  instr &&& ((1#32 <<< (upper - lower + 1)) - 1) <<< lower

/-- `BIT_SLICE`: these bits, moved to the bottom of the word. -/
def bitSlice (instr : Instr) (upper lower : ℕ) : BitVec 32 := instr.bitRange upper lower >>> lower

/-- `BIT_SINGLE`: one bit, where it is in the word. -/
def bitSingle (instr : Instr) (pos : ℕ) : BitVec 32 := instr &&& 1#32 <<< pos

/-- `BIT_SINGLE_P1`: one bit, moved to the bottom of the word. -/
def bitSingleP1 (instr : Instr) (pos : ℕ) : BitVec 32 := instr.bitSingle pos >>> pos

/-- `BIT_SINGLE_PN`: one bit, moved to another position. -/
def bitSinglePN (instr : Instr) (pos newPos : ℕ) : BitVec 32 := (instr.bitSingle pos >>> pos) <<< newPos

/-- `EXTRACT_SIGN_BIT`, of a signed word. -/
def extractSignBit (instr : Instr) (pos newPos : ℕ) : BitVec 32 :=
  (instr.bitSingleP1 pos <<< 31).sshiftRight (31 - newPos)

variable (instr : Instr)

/-! ### Fields -/

def quadrant : BitVec 32 := instr &&& 0x3
def isCompressed : Bool := instr.quadrant < 3
def opcode : BitVec 32 := instr.bitRange 6 0
def rd : BitVec 32 := instr.bitRange 11 7 >>> 7
def rs1 : BitVec 32 := instr.bitRange 19 15 >>> 15
def rs2 : BitVec 32 := instr.bitRange 24 20 >>> 20
def shamt : BitVec 32 := instr.bitRange 25 20 >>> 20
def shamtW : BitVec 32 := instr.bitRange 24 20 >>> 20
def funct3 : BitVec 32 := instr.bitRange 14 12 >>> 12
def funct12 : BitVec 32 := instr.bitRange 31 20 >>> 20
def funct7 : BitVec 32 := instr.bitRange 31 25 >>> 25
def funct6 : BitVec 32 := instr.bitRange 31 26 >>> 26
def funct5 : BitVec 32 := instr.bitRange 31 27 >>> 27

/-- `I_imm`; the shift of the signed word keeps the sign. -/
def iImm : BitVec 32 := (instr.bitRange 31 20).sshiftRight 20

/-- `S_imm`: the immediate of a store, with the sign of its highest bit. -/
def sImm : BitVec 32 := (instr.bitRange 31 25).sshiftRight 20 ||| instr.bitRange 11 7 >>> 7

/-- `B_imm`: the distance of a branch, an even number. -/
def bImm : BitVec 32 :=
  (instr.bitSingle 31).sshiftRight 19 ||| instr.bitSingle 7 <<< 4 ||| instr.bitRange 30 25 >>> 20 |||
    instr.bitRange 11 8 >>> 7

/-- `U_imm`: the upper twenty bits, where they are in the word. -/
def uImm : BitVec 32 := instr.bitRange 31 12

/-- `J_imm`: the distance of a jump, an even number. -/
def jImm : BitVec 32 :=
  (instr.bitSingle 31).sshiftRight 11 ||| instr.bitRange 19 12 ||| instr.bitSingle 20 >>> 9 |||
    instr.bitRange 30 21 >>> 20

end Instr

/-! ### Extensions -/

/-- `RV_ISA_Config`; the extensions are the bits of `csr_misa` and `Zfh`. -/
structure IsaConfig where
  cfg : BitVec 64
  deriving DecidableEq, Repr

namespace IsaConfig

def a : BitVec 64 := 1
def c : BitVec 64 := 1#64 <<< 2
def d : BitVec 64 := 1#64 <<< 3
def f : BitVec 64 := 1#64 <<< 5
def m : BitVec 64 := 1#64 <<< 12
def zfh : BitVec 64 := 1#64 <<< 32

/-- `cfg & ext`: the hart has an extension. -/
def supports (isa : IsaConfig) (ext : BitVec 64) : Bool := isa.cfg &&& ext ≠ 0

end IsaConfig

/-! ### Operations -/

/-- The operations of RV32I and RV64I with the M, A, Zicsr and Zifencei extensions and the privileged
instructions, and the loads and stores of floating-point registers. -/
inductive Operation
  | lui | auipc | jal | jalr | beq | bne | blt | bge | bltu | bgeu | lb | lh | lw | lbu | lhu | sb
  | sh | sw | addi | slti | sltiu | xori | ori | andi | slli | srli | srai | add | sub | sll | slt
  | sltu | xor | srl | sra | or | and | fence | ecall | ebreak | fenceI | csrrw | csrrs | csrrc
  | csrrwi | csrrsi | csrrci | mul | mulh | mulhsu | mulhu | div | divu | rem | remu | lrW | scW
  | amoswapW | amoaddW | amoxorW | amoandW | amoorW | amominW | amomaxW | amominuW | amomaxuW | lwu
  | ld | sd | addiw | slliw | srliw | sraiw | addw | subw | sllw | srlw | sraw | mulw | divw
  | divuw | remw | remuw | lrD | scD | amoswapD | amoaddD | amoxorD | amoandD | amoorD | amominD
  | amomaxD | amominuD | amomaxuD | flh | fsh | flw | fsw | fld | fsd | uret | sret | mret | wfi
  | sfenceVma
  deriving DecidableEq, Repr

/-- `Operation::OpId`: the operations that the decoders of the integer instructions return. -/
inductive OpId
  /-- Not known by the decoder. -/
  | undef
  /-- Not supported: the extension is not enabled. -/
  | unsup
  | op (o : Operation)
  /-- The variant for `rd` zero: `J` for `JAL`, `JR` for `JALR` and the `_NOP` variants of the others. -/
  | rdZero (o : Operation)
  /-- An operation of another instruction set. -/
  | other (id : ℕ)
  deriving DecidableEq, Repr

/-- The constants `_MASK` and `_ENCODING` of an operation. -/
structure Encoding where
  mask : BitVec 32
  encoding : BitVec 32
  deriving DecidableEq, Repr

/-- The masks and encodings of the operations, as the header lists them. -/
def Operation.encoding : Operation → Encoding
  | .lui => ⟨0x0000007F, 0x00000037⟩
  | .auipc => ⟨0x0000007F, 0x00000017⟩
  | .jal => ⟨0x0000007F, 0x0000006F⟩
  | .jalr => ⟨0x0000707F, 0x00000067⟩
  | .beq => ⟨0x0000707F, 0x00000063⟩
  | .bne => ⟨0x0000707F, 0x00001063⟩
  | .blt => ⟨0x0000707F, 0x00004063⟩
  | .bge => ⟨0x0000707F, 0x00005063⟩
  | .bltu => ⟨0x0000707F, 0x00006063⟩
  | .bgeu => ⟨0x0000707F, 0x00007063⟩
  | .lb => ⟨0x0000707F, 0x00000003⟩
  | .lh => ⟨0x0000707F, 0x00001003⟩
  | .lw => ⟨0x0000707F, 0x00002003⟩
  | .lbu => ⟨0x0000707F, 0x00004003⟩
  | .lhu => ⟨0x0000707F, 0x00005003⟩
  | .sb => ⟨0x0000707F, 0x00000023⟩
  | .sh => ⟨0x0000707F, 0x00001023⟩
  | .sw => ⟨0x0000707F, 0x00002023⟩
  | .addi => ⟨0x0000707F, 0x00000013⟩
  | .slti => ⟨0x0000707F, 0x00002013⟩
  | .sltiu => ⟨0x0000707F, 0x00003013⟩
  | .xori => ⟨0x0000707F, 0x00004013⟩
  | .ori => ⟨0x0000707F, 0x00006013⟩
  | .andi => ⟨0x0000707F, 0x00007013⟩
  | .slli => ⟨0xFC00707F, 0x00001013⟩
  | .srli => ⟨0xFC00707F, 0x00005013⟩
  | .srai => ⟨0xFC00707F, 0x40005013⟩
  | .add => ⟨0xFE00707F, 0x00000033⟩
  | .sub => ⟨0xFE00707F, 0x40000033⟩
  | .sll => ⟨0xFE00707F, 0x00001033⟩
  | .slt => ⟨0xFE00707F, 0x00002033⟩
  | .sltu => ⟨0xFE00707F, 0x00003033⟩
  | .xor => ⟨0xFE00707F, 0x00004033⟩
  | .srl => ⟨0xFE00707F, 0x00005033⟩
  | .sra => ⟨0xFE00707F, 0x40005033⟩
  | .or => ⟨0xFE00707F, 0x00006033⟩
  | .and => ⟨0xFE00707F, 0x00007033⟩
  | .fence => ⟨0x0000707F, 0x0000000F⟩
  | .ecall => ⟨0xFFFFFFFF, 0x00000073⟩
  | .ebreak => ⟨0xFFFFFFFF, 0x00100073⟩
  | .fenceI => ⟨0x0000707F, 0x0000100F⟩
  | .csrrw => ⟨0x0000707F, 0x00001073⟩
  | .csrrs => ⟨0x0000707F, 0x00002073⟩
  | .csrrc => ⟨0x0000707F, 0x00003073⟩
  | .csrrwi => ⟨0x0000707F, 0x00005073⟩
  | .csrrsi => ⟨0x0000707F, 0x00006073⟩
  | .csrrci => ⟨0x0000707F, 0x00007073⟩
  | .mul => ⟨0xFE00707F, 0x02000033⟩
  | .mulh => ⟨0xFE00707F, 0x02001033⟩
  | .mulhsu => ⟨0xFE00707F, 0x02002033⟩
  | .mulhu => ⟨0xFE00707F, 0x02003033⟩
  | .div => ⟨0xFE00707F, 0x02004033⟩
  | .divu => ⟨0xFE00707F, 0x02005033⟩
  | .rem => ⟨0xFE00707F, 0x02006033⟩
  | .remu => ⟨0xFE00707F, 0x02007033⟩
  | .lrW => ⟨0xF9F0707F, 0x1000202F⟩
  | .scW => ⟨0xF800707F, 0x1800202F⟩
  | .amoswapW => ⟨0xF800707F, 0x0800202F⟩
  | .amoaddW => ⟨0xF800707F, 0x0000202F⟩
  | .amoxorW => ⟨0xF800707F, 0x2000202F⟩
  | .amoandW => ⟨0xF800707F, 0x6000202F⟩
  | .amoorW => ⟨0xF800707F, 0x4000202F⟩
  | .amominW => ⟨0xF800707F, 0x8000202F⟩
  | .amomaxW => ⟨0xF800707F, 0xA000202F⟩
  | .amominuW => ⟨0xF800707F, 0xC000202F⟩
  | .amomaxuW => ⟨0xF800707F, 0xE000202F⟩
  | .lwu => ⟨0x0000707F, 0x00006003⟩
  | .ld => ⟨0x0000707F, 0x00003003⟩
  | .sd => ⟨0x0000707F, 0x00003023⟩
  | .addiw => ⟨0x0000707F, 0x0000001B⟩
  | .slliw => ⟨0xFE00707F, 0x0000101B⟩
  | .srliw => ⟨0xFE00707F, 0x0000501B⟩
  | .sraiw => ⟨0xFE00707F, 0x4000501B⟩
  | .addw => ⟨0xFE00707F, 0x0000003B⟩
  | .subw => ⟨0xFE00707F, 0x4000003B⟩
  | .sllw => ⟨0xFE00707F, 0x0000103B⟩
  | .srlw => ⟨0xFE00707F, 0x0000503B⟩
  | .sraw => ⟨0xFE00707F, 0x4000503B⟩
  | .mulw => ⟨0xFE00707F, 0x0200003B⟩
  | .divw => ⟨0xFE00707F, 0x0200403B⟩
  | .divuw => ⟨0xFE00707F, 0x0200503B⟩
  | .remw => ⟨0xFE00707F, 0x0200603B⟩
  | .remuw => ⟨0xFE00707F, 0x0200703B⟩
  | .lrD => ⟨0xF9F0707F, 0x1000302F⟩
  | .scD => ⟨0xF800707F, 0x1800302F⟩
  | .amoswapD => ⟨0xF800707F, 0x0800302F⟩
  | .amoaddD => ⟨0xF800707F, 0x0000302F⟩
  | .amoxorD => ⟨0xF800707F, 0x2000302F⟩
  | .amoandD => ⟨0xF800707F, 0x6000302F⟩
  | .amoorD => ⟨0xF800707F, 0x4000302F⟩
  | .amominD => ⟨0xF800707F, 0x8000302F⟩
  | .amomaxD => ⟨0xF800707F, 0xA000302F⟩
  | .amominuD => ⟨0xF800707F, 0xC000302F⟩
  | .amomaxuD => ⟨0xF800707F, 0xE000302F⟩
  | .flh => ⟨0x0000707F, 0x00001007⟩
  | .fsh => ⟨0x0000707F, 0x00001027⟩
  | .flw => ⟨0x0000707F, 0x00002007⟩
  | .fsw => ⟨0x0000707F, 0x00002027⟩
  | .fld => ⟨0x0000707F, 0x00003007⟩
  | .fsd => ⟨0x0000707F, 0x00003027⟩
  | .uret => ⟨0xFFFFFFFF, 0x00200073⟩
  | .sret => ⟨0xFFFFFFFF, 0x10200073⟩
  | .mret => ⟨0xFFFFFFFF, 0x30200073⟩
  | .wfi => ⟨0xFFFFFFFF, 0x10500073⟩
  | .sfenceVma => ⟨0xFE007FFF, 0x12000073⟩

/-- `SLLI_32_MASK` and `SLLI_32_ENCODING` -/
def slli32 : Encoding := ⟨0xFE00707F, 0x00001013⟩

/-- `SRLI_32_MASK` and `SRLI_32_ENCODING` -/
def srli32 : Encoding := ⟨0xFE00707F, 0x00005013⟩

/-- `SRAI_32_MASK` and `SRAI_32_ENCODING` -/
def srai32 : Encoding := ⟨0xFE00707F, 0x40005013⟩

end RiscvVp
