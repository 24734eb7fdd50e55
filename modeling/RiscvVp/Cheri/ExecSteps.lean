import RiscvVp.Cheri.CapCommon
import RiscvVp.Cheri.Instr
import RiscvVp.Cheri.Syscall
import RiscvVp.Lib.Run

/-!
# The integer registers of the CHERI ISS

The cases of `exec_steps` (`core/rv64_cheriv9/iss_ctemplate.cpp`) that write integer registers, and what
the decoder (`core/common_cheriv9/instr.cpp`) does about the destination register zero: the register
file (`regfile.h`) stores to index 0 as to any other.

What a case gets from a part of the ISS that is not modelled here (the unit for floats, the unit for
vectors, CSRs, the cache of decoded blocks) is a parameter.
-/

namespace RiscvVp.Cheri

/-! ### Integer instructions -/

/-- The instructions whose destination is only written when it is not register zero: the decoder
replaces them by their variant `_NOP` otherwise. -/
inductive IntOp
  | addi | slti | sltiu | xori | ori | andi | slli | srli | srai | lui
  | add | sub | sll | slt | sltu | xor | srl | sra | or | and
  | addiw | slliw | srliw | sraiw | addw | subw | sllw | srlw | sraw
  | mul | mulh | mulhu | mulhsu | mulw
  | div | divu | rem | remu | divw | divuw | remw | remuw
  deriving DecidableEq, Repr

/-- The value of a comparison. -/
def ofFlag (c : Bool) : Capability := .ofInt ((BitVec.ofBool c).setWidth 64)

/-- `(int32_t)`, in a register. -/
def ofWord (v : BitVec 32) : Capability := .ofInt (v.signExtend 64)

/-- The upper half of a product. -/
def mulHigh (a b : BitVec 128) : Capability := .ofInt ((a * b).extractLsb' 64 64)

/-- What the cases write to the destination, from the source registers and the immediate, which is
`shamt()` in a shift. -/
def IntOp.result (cs1 cs2 : Capability) (imm : BitVec 64) (op : IntOp) : Capability :=
  let a := cs1.address
  let b := cs2.address
  let aw := a.setWidth 32
  let bw := b.setWidth 32
  let shamt := (b.extractLsb' 0 6).toNat
  let shamtW := (b.extractLsb' 0 5).toNat
  match op with
  | .addi => .ofInt (a + imm)
  | .slti => ofFlag (a.slt imm)
  | .sltiu => ofFlag (a.ult imm)
  | .xori => .ofInt (a ^^^ imm)
  | .ori => .ofInt (a ||| imm)
  | .andi => .ofInt (a &&& imm)
  | .slli => .ofInt (a <<< imm.toNat)
  | .srli => .ofInt (a >>> imm.toNat)
  | .srai => .ofInt (a.sshiftRight imm.toNat)
  | .lui => .ofInt imm
  | .add => .ofInt (a + b)
  | .sub => .ofInt (a - b)
  | .sll => .ofInt (a <<< shamt)
  | .slt => ofFlag (a.slt b)
  | .sltu => ofFlag (a.ult b)
  | .xor => .ofInt (a ^^^ b)
  | .srl => .ofInt (a >>> shamt)
  | .sra => .ofInt (a.sshiftRight shamt)
  | .or => .ofInt (a ||| b)
  | .and => .ofInt (a &&& b)
  | .addiw => ofWord (aw + imm.setWidth 32)
  | .slliw => ofWord (aw <<< imm.toNat)
  | .srliw => ofWord (aw >>> imm.toNat)
  | .sraiw => ofWord (aw.sshiftRight imm.toNat)
  | .addw => ofWord (aw + bw)
  | .subw => ofWord (aw - bw)
  | .sllw => ofWord (aw <<< shamtW)
  | .srlw => ofWord (aw >>> shamtW)
  | .sraw => ofWord (aw.sshiftRight shamtW)
  | .mul => .ofInt (a * b)
  | .mulh => mulHigh (a.signExtend 128) (b.signExtend 128)
  | .mulhu => mulHigh (a.setWidth 128) (b.setWidth 128)
  | .mulhsu => mulHigh (a.signExtend 128) (b.setWidth 128)
  | .mulw => ofWord ((a * b).setWidth 32)
  -- `a` is a `Capability` here, which is copied with its tag and its bounds
  | .div =>
    if b = 0 then .ofInt (-1)
    else if a = BitVec.intMin 64 ∧ b = -1 then cs1 else .ofInt (a.sdiv b)
  | .divu => if b = 0 then .ofInt (-1) else .ofInt (a / b)
  | .rem =>
    if b = 0 then cs1
    else if a = BitVec.intMin 64 ∧ b = -1 then .ofInt 0 else .ofInt (a.srem b)
  | .remu => if b = 0 then cs1 else .ofInt (a % b)
  | .divw =>
    if bw = 0 then .ofInt (-1)
    else if aw = BitVec.intMin 32 ∧ bw = -1 then ofWord aw else ofWord (aw.sdiv bw)
  | .divuw => if bw = 0 then .ofInt (-1) else ofWord (aw / bw)
  | .remw =>
    if bw = 0 then ofWord aw
    else if aw = BitVec.intMin 32 ∧ bw = -1 then .ofInt 0 else ofWord (aw.srem bw)
  | .remuw => if bw = 0 then ofWord aw else ofWord (aw % bw)

/-! ### Capability instructions -/

/-- The capability instructions between registers, which access no memory. -/
inductive CapOp
  | cGetPerm | cGetType | cGetBase | cGetLen | cGetTag | cGetSealed | cGetOffset | cGetFlags
  | cGetHigh | cGetTop | cGetAddr
  | cSeal | cUnseal | cAndPerm | cSetFlags | cSetOffset | cSetAddr | cSub | cIncOffset
  | cIncOffsetImm | cSetBounds | cSetBoundsExact | cSetBoundsImm | cSetHigh | cClearTag
  | cBuildCap | cCopyType | cCSeal | cSealEntry | cMove | cToPtr | cFromPtr
  | cTestSubset | cSetEqualExact
  | cRoundRepresentableLength | cRepresentableAlignmentMask
  deriving DecidableEq, Repr

/-- The object type in `C_GET_TYPE` and `C_COPY_TYPE`: a reserved one is extended by its sign. -/
def otypeOf (c : Capability) : BitVec 64 :=
  if c.hasReservedOType then c.otype.signExtend 64 else c.otype.setWidth 64

/-- A length or an upper bound, which is at most `cCapMaxAddr`. -/
def clampAddr (v : BitVec 128) : BitVec 64 :=
  if (BitVec.allOnes 64).setWidth 128 < v then BitVec.allOnes 64 else v.setWidth 64

/-- `C_SET_HIGH`: the metadata are replaced by a number, which is not a valid capability then. -/
def cSetHigh (cs1 : Capability) (intVal : BitVec 64) : Capability :=
  .ofUint128 ((intVal.setWidth 128 <<< 64) ||| (cs1.toUint128.setWidth 64).setWidth 128) false

/-- `C_COPY_TYPE`: the object type of the second capability becomes the address of the first.  The tag is
lost where there is no such type, or it does not fit the bounds. -/
def cCopyType (cs1 cs2 : Capability) : Capability :=
  let r := cs1.clearTagIfSealed.setCapAddr (otypeOf cs2)
  r.1.clearTagIf (cs2.hasReservedOType || !r.2)

/-- `C_TEST_SUBSET`: the second capability has the same tag, and no bounds or permissions that the first one
lacks. -/
def cTestSubset (cs1 cs2 : Capability) : Bool :=
  cs1.tag == cs2.tag && decide (cs1.getBase ≤ cs2.getBase) && decide (cs2.getTop ≤ cs1.getTop) &&
    cs2.getCapPerms &&& cs1.getCapPerms == cs2.getCapPerms

/-- What the cases write to the destination, from the registers, the default data capability and the
fields of the instruction; `none` when the assertion of `C_BUILD_CAP` fails. -/
def CapOp.result (regs : Fin 32 → Capability) (ddc : Capability) (o : Operands) (op : CapOp) :
    Option Capability :=
  let cs1 := regs o.rs1
  let cs2 := regs o.rs2
  -- in some cases register zero stands for the default data capability
  let cs1OrDdc := if o.rs1 = 0 then ddc else cs1
  let cs2OrDdc := if o.rs2 = 0 then ddc else cs2
  match op with
  | .cGetPerm => some (.ofInt (cs1.getCapPerms.setWidth 64))
  | .cGetType => some (.ofInt (otypeOf cs1))
  | .cGetBase => some (.ofInt cs1.getBase)
  | .cGetLen => some (.ofInt (clampAddr cs1.getLength))
  | .cGetTag => some (ofFlag cs1.tag)
  | .cGetSealed => some (ofFlag cs1.isSealed)
  | .cGetOffset => some (.ofInt cs1.getOffset)
  | .cGetFlags => some (.ofInt (cs1.getFlags.setWidth 64))
  | .cGetHigh => some (.ofInt ((cs1.toUint128 >>> 64).setWidth 64))
  | .cGetTop => some (.ofInt (clampAddr cs1.getTop))
  | .cGetAddr => some (.ofInt cs1.address)
  | .cSeal => some (RiscvVp.cSeal cs1 cs2)
  | .cUnseal => some (RiscvVp.cUnseal cs1 cs2)
  | .cAndPerm => some (RiscvVp.cAndPerm cs1 cs2.address)
  | .cSetFlags => some (RiscvVp.cSetFlags cs1 cs2.address)
  | .cSetOffset => some (RiscvVp.cSetOffset cs1 cs2.address)
  | .cSetAddr => some (RiscvVp.cSetAddr cs1 cs2.address)
  | .cSub => some (.ofInt (cs1.address - cs2.address))
  | .cIncOffset => some (RiscvVp.cIncOffset cs1 cs2.address)
  | .cIncOffsetImm => some (RiscvVp.cIncOffset cs1 o.imm)
  | .cSetBounds => some (RiscvVp.cSetBounds cs1 cs2.address)
  | .cSetBoundsExact => some (RiscvVp.cSetBoundsExact cs1 cs2.address)
  | .cSetBoundsImm => some (RiscvVp.cSetBoundsImm cs1 (o.data.extractLsb' 20 12))
  | .cSetHigh => some (Cheri.cSetHigh cs1 cs2.address)
  | .cClearTag => some cs1.clearTag
  | .cBuildCap => RiscvVp.cBuildCap cs1OrDdc cs2
  | .cCopyType => some (Cheri.cCopyType cs1 cs2)
  | .cCSeal => some (RiscvVp.cCSeal cs1 cs2)
  | .cSealEntry => some (cs1.clearTagIfSealed.sealCap (cOtypeSentryUnsigned.setWidth 32))
  | .cMove => some cs1
  | .cToPtr => some (.ofInt (if !cs1.tag then 0 else cs1.address - cs2OrDdc.getBase))
  | .cFromPtr =>
    some (if cs2.address = 0 then cNullCap else RiscvVp.cSetOffset cs1OrDdc cs2.address)
  | .cTestSubset => some (ofFlag (Cheri.cTestSubset cs1OrDdc cs2))
  | .cSetEqualExact => some (ofFlag (cs1 = cs2))
  | .cRoundRepresentableLength => some (.ofInt (getRepresentableLength cs1.address))
  | .cRepresentableAlignmentMask => some (.ofInt (getRepresentableAlignmentMask cs1.address))

/-! ### Operations -/

/-- The operations that the decoder finds. -/
inductive Op
  /-- `UNDEF` and `UNSUP` -/
  | illegal
  /-- the variants `_NOP` -/
  | nop
  | int (op : IntOp)
  | auipc
  | j
  | jal
  | jr
  | jalr
  /-- `JALR_CAP` -/
  | jalrCap
  | cap (op : CapOp)
  | cInvoke
  | cSpecialRW
  | cClear
  | mem (m : MemInstr)
  /-- `CSRRW` and its variants -/
  | csr
  /-- the comparisons, classifications, moves and conversions of floats whose destination is an integer
  register -/
  | floatToInt
  /-- `VSETVLI`, `VSETIVLI`, `VSETVL`, `VCPOP_M`, `VFIRST_M` and `VMV_X_S` -/
  | vectorToInt
  | ecall
  /-- the instructions that write no integer register -/
  | other
  deriving DecidableEq, Repr

/-- `MATCH_AND_RETURN_INSTR_OR_OPZERO` and `C_GET_OP_OR_NOP`: an instruction without a destination is
another one. -/
def opOrOpzero (rd : Fin 32) (op opzero : Op) : Op := if rd ≠ 0 then op else opzero

/-- `decode_normal`, given the operation whose encoding the instruction has. -/
def decodeNormal (rd : Fin 32) : Op → Op
  | .int op => opOrOpzero rd (.int op) .nop
  | .auipc => opOrOpzero rd .auipc .nop
  | .jal => opOrOpzero rd .jal .j
  | .jalr => opOrOpzero rd .jalr .jr
  | op => op

/-! ### Compressed instructions -/

/-- `C_OpId`: the compressed instructions, before they are expanded. -/
inductive COpId
  | cIllegal | cReserved
  | cAddi4spn | cFld | cLq | cLw | cFlw | cLd | cFsd | cSq | cSw | cFsw | cSd
  | cNop | cAddi | cJal | cAddiw | cLi | cAddi16sp | cLui | cSrli | cSrai | cAndi | cSub | cXor | cOr
  | cAnd | cSubw | cAddw | cJ | cBeqz | cBnez
  | cSlli | cFldsp | cLqsp | cLwsp | cFlwsp | cLdsp | cJr | cMv | cEbreak | cJalr | cAdd | cFsdsp
  | cSqsp | cSwsp | cFswsp | cSdsp
  deriving DecidableEq, Repr

/-- A compressed instruction: its word, its immediate and the word of the instruction that
`InstructionFactory` makes of it. -/
structure CInstr where
  id : COpId
  data : BitVec 32
  imm : BitVec 64
  expanded : BitVec 32
  deriving DecidableEq, Repr

namespace CInstr

variable (i : CInstr)

/-- `c_rd`: the destination, of five bits. -/
def cRd : Fin 32 := ⟨(i.data.extractLsb' 7 5).toNat, BitVec.isLt _⟩

/-- `c_rs2`: the second source, of five bits. -/
def cRs2 : Fin 32 := ⟨(i.data.extractLsb' 2 5).toNat, BitVec.isLt _⟩

/-- `c_rd_small`: a destination of three bits, which stand for the registers from 8 to 15. -/
def cRdSmall : Fin 32 := ⟨(i.data.extractLsb' 7 3).toNat + 8, by omega⟩

/-- `c_rs2_small`: a source of three bits, likewise. -/
def cRs2Small : Fin 32 := ⟨(i.data.extractLsb' 2 3).toNat + 8, by omega⟩

/-- The fields of the instruction that `InstructionFactory` makes. -/
def operands (rd rs1 rs2 : Fin 32) : Operands := ⟨i.expanded, rd, rs1, rs2, i.imm, 0, true⟩

/-- `C_GET_OP_OR_NOP`: the operation with its operands, or none where the destination is register zero. -/
def opOrNop (op : IntOp) (rd rs1 rs2 : Fin 32) : Op × Operands :=
  (opOrOpzero rd (.int op) .nop, i.operands rd rs1 rs2)

/-- A hint: it is expanded to `ADD(0, 0, 0)`, and not to the variant `_NOP`. -/
def hint : Op × Operands := (.int .add, i.operands 0 0 0)

/-- `UNDEF` and `UNSUP`: the instruction traps when it is executed. -/
def illegal : Op × Operands := (.illegal, i.operands 0 0 0)

/-- `expand_compressed` for RV64; `hasF` and `hasD` say whether the ISA has the extensions. -/
def expandCompressed (hasF hasD capabilityMode : Bool) : Op × Operands :=
  let masked (mask pattern : BitVec 32) : Bool := i.data &&& mask = pattern
  match i.id with
  | .cIllegal | .cReserved | .cLq | .cLqsp | .cSq | .cSqsp => i.illegal
  | .cNop => (.nop, i.operands 0 0 0)
  | .cAdd => i.opOrNop .add i.cRd i.cRd i.cRs2
  | .cMv => if i.cRs2 = 0 then i.hint else i.opOrNop .add i.cRd 0 i.cRs2
  | .cAnd => i.opOrNop .and i.cRdSmall i.cRdSmall i.cRs2Small
  | .cOr => i.opOrNop .or i.cRdSmall i.cRdSmall i.cRs2Small
  | .cXor => i.opOrNop .xor i.cRdSmall i.cRdSmall i.cRs2Small
  | .cSub => i.opOrNop .sub i.cRdSmall i.cRdSmall i.cRs2Small
  | .cAddw => i.opOrNop .addw i.cRdSmall i.cRdSmall i.cRs2Small
  | .cSubw => i.opOrNop .subw i.cRdSmall i.cRdSmall i.cRs2Small
  | .cLw => (.mem (.load .word), i.operands i.cRs2Small i.cRdSmall 0)
  | .cLd => (.mem (.load .double), i.operands i.cRs2Small i.cRdSmall 0)
  | .cFlw =>
    if !hasF then i.illegal else (.mem (.fLoad .uword), i.operands i.cRs2Small i.cRdSmall 0)
  | .cFld =>
    if capabilityMode then (.mem .loadC, i.operands i.cRs2Small i.cRdSmall 0)
    else if !hasD then i.illegal
    else (.mem (.fLoad .double), i.operands i.cRs2Small i.cRdSmall 0)
  | .cSw => (.mem (.store .word), i.operands 0 i.cRdSmall i.cRs2Small)
  | .cSd => (.mem (.store .double), i.operands 0 i.cRdSmall i.cRs2Small)
  | .cFsw => if !hasF then i.illegal else (.mem (.fStore .word), i.operands 0 i.cRdSmall i.cRs2Small)
  | .cFsd =>
    if capabilityMode then (.mem .storeC, i.operands 0 i.cRdSmall i.cRs2Small)
    else if !hasD then i.illegal
    else (.mem (.fStore .double), i.operands 0 i.cRdSmall i.cRs2Small)
  | .cAddi4spn =>
    if i.imm = 0 then i.illegal
    else if capabilityMode then (.cap .cIncOffsetImm, i.operands i.cRs2Small 2 0)
    else i.opOrNop .addi i.cRs2Small 2 0
  | .cAddi => if masked 0xF07F 0x0001 then i.hint else i.opOrNop .addi i.cRd i.cRd 0
  | .cJal => (.jal, i.operands 1 0 0)
  | .cAddiw => if i.cRd = 0 then i.illegal else i.opOrNop .addiw i.cRd i.cRd 0
  | .cLi => if masked 0xEF81 0x4001 then i.hint else i.opOrNop .addi i.cRd 0 0
  | .cAddi16sp =>
    if i.imm = 0 then i.illegal
    else if capabilityMode then (.cap .cIncOffsetImm, i.operands 2 2 0)
    else i.opOrNop .addi 2 2 0
  | .cLui =>
    if i.imm = 0 then i.illegal
    else if masked 0xEF83 0x6001 then i.hint
    else i.opOrNop .lui i.cRd 0 0
  | .cSlli => if masked 0xF07F 0x0002 then i.hint else i.opOrNop .slli i.cRd i.cRd 0
  | .cSrli => if masked 0xFC7F 0x8001 then i.hint else i.opOrNop .srli i.cRdSmall i.cRdSmall 0
  | .cSrai => if masked 0xFC7F 0x8401 then i.hint else i.opOrNop .srai i.cRdSmall i.cRdSmall 0
  | .cAndi => i.opOrNop .andi i.cRdSmall i.cRdSmall 0
  | .cJ => (.j, i.operands 0 0 0)
  | .cBeqz => (.other, i.operands 0 i.cRdSmall 0)
  | .cBnez => (.other, i.operands 0 i.cRdSmall 0)
  | .cLwsp => if i.cRd = 0 then i.illegal else (.mem (.load .word), i.operands i.cRd 2 0)
  | .cLdsp => if i.cRd = 0 then i.illegal else (.mem (.load .double), i.operands i.cRd 2 0)
  | .cFlwsp => if !hasF then i.illegal else (.mem (.fLoad .uword), i.operands i.cRd 2 0)
  | .cFldsp =>
    if capabilityMode then (.mem .loadC, i.operands i.cRd 2 0)
    else if !hasD then i.illegal
    else (.mem (.fLoad .double), i.operands i.cRd 2 0)
  | .cSwsp => (.mem (.store .word), i.operands 0 2 i.cRs2)
  | .cSdsp => (.mem (.store .double), i.operands 0 2 i.cRs2)
  | .cFswsp => if !hasF then i.illegal else (.mem (.fStore .word), i.operands 0 2 i.cRs2)
  | .cFsdsp =>
    if capabilityMode then (.mem .storeC, i.operands 0 2 i.cRs2)
    else if !hasD then i.illegal
    else (.mem (.fStore .double), i.operands 0 2 i.cRs2)
  | .cEbreak =>
    if i.cRs2 ≠ 0 ∧ masked 0xFF83 0x9002 then i.hint else (.other, i.operands 0 0 0)
  | .cJr => if i.cRd = 0 then i.illegal else (.jr, i.operands 0 i.cRd 0)
  | .cJalr => (.jalr, i.operands 1 i.cRd 0)

end CInstr

/-! ### Execution -/

/-- What an instruction gets from the rest of the ISS: the address of the instruction, a value or a trap
in its place, a trap after the destination was written, and what the host answers to a system call. -/
structure Rest where
  lastPc : BitVec 64
  value : Except SimulationTrap Capability
  late : Option SimulationTrap
  host : HostAnswer := ⟨0, fun _ => 0⟩

namespace Iss

variable {δ : Type} (p : Platform δ) (rest : Rest) (o : Operands)

/-- The value of an instruction that is not modelled in detail, or the trap that it raises before it writes. -/
def ask : IssM δ Capability :=
  match rest.value with
  | .ok value => pure value
  | .error t => CheriM.raise t

/-- The late trap: the trap that the rest of the instruction ends with, after what is modelled of it. -/
def askLate : IssM δ Unit :=
  match rest.late with
  | none => pure ()
  | some t => CheriM.raise t

/-- `execute_c_jalr`: the return capability is written to the destination, and register zero is reset
afterwards. -/
def executeCJalr : IssM δ Unit := do
  let link ← ask rest
  setReg o.rd link
  resetRegZero

/-- What `AUIPC` writes: in capability mode the program counter capability at another address, without its
tag where that does not fit its bounds, and else a number. -/
def auipcResult (s : Iss δ) : Capability :=
  if s.pcc.flagCapMode then
    let r := s.pcc.setCapAddr (rest.lastPc + o.imm)
    r.1.clearTagIf (!r.2)
  else .ofInt (rest.lastPc + o.imm)

/-- The case `C_CLEAR`: the registers of one quarter that the mask names. -/
def cClear : IssM δ Unit :=
  let m := BitVec.ofNat 3 o.rs1.val ++ BitVec.ofNat 5 o.rd.val
  (List.finRange 8).forM fun i =>
    if m.getLsbD i.val then
      if o.rs1.val / 8 = 0 ∧ i.val = 0 then modify fun s => { s with ddc := cNullCap }
      else setReg ⟨8 * (o.rs1.val / 8) + i.val, by omega⟩ cNullCap
    else pure ()

/-- `iss_reg_write` of the vector unit, and a CSR instruction: register zero is not written. -/
def writeUnlessZero (rd : Fin 32) (value : Capability) : IssM δ Unit :=
  if rd ≠ 0 then setReg rd value else pure ()

/-- The cases of `exec_steps`, each with its writes to the registers in the order of the source. -/
def execOp : Op → IssM δ Unit
  | .illegal => CheriM.raise ⟨.illegalInstr, o.data.setWidth 64⟩
  | .nop => pure ()
  | .int op => do
    let s ← get
    setReg o.rd (op.result (s.regs o.rs1) (s.regs o.rs2) o.imm)
  | .auipc => do
    let s ← get
    setReg o.rd (auipcResult rest o s)
  | .j => do
    let _ ← ask rest
  | .jal => do
    let link ← ask rest
    setReg o.rd link
  | .jr => do
    let s ← get
    if s.pcc.flagCapMode then executeCJalr rest o
    else
      let _ ← ask rest
  | .jalr => do
    let s ← get
    if s.pcc.flagCapMode then executeCJalr rest o
    else
      let link ← ask rest
      setReg o.rd link
  | .jalrCap => executeCJalr rest o
  | .cap op => do
    let s ← get
    match op.result s.regs s.ddc o with
    | none => CheriM.abort
    | some value =>
      setReg o.rd value
      -- this one alone among its kind
      if op = .cSetAddr then resetRegZero else pure ()
  | .cInvoke => do
    let s ← get
    let _ ← ask rest
    let cs1 := s.regs o.rs1
    setReg 31 (s.regs o.rs2).unsealCap
    modify fun s => { s with pcc := { cs1.unsealCap with address := cs1.address &&& ~~~1 } }
  | .cSpecialRW => do
    let cd ← ask rest
    setReg o.rd cd
    resetRegZero
  | .cClear => cClear o
  | .mem m => exec p o m
  | .csr => do
    let value ← ask rest
    writeUnlessZero o.rd value
    askLate rest
  | .floatToInt => do
    let value ← ask rest
    setReg o.rd value
    resetRegZero
  | .vectorToInt => do
    let value ← ask rest
    writeUnlessZero o.rd value
    askLate rest
  | .ecall => ecall rest.host rest.lastPc
  | .other => do
    let _ ← ask rest

end Iss

/-! ### Runs -/

/-- What happens to a hart: an instruction, normal or compressed, or whatever other code does, which
leaves the integer registers. -/
inductive IssEvent (δ : Type)
  | normal (op : Op) (o : Operands) (rest : Rest)
  | compressed (i : CInstr) (hasF hasD capabilityMode : Bool) (rest : Rest)
  | outside (f : Iss δ → Iss δ) (hf : ∀ s, (f s).regs = s.regs)

/-- The operation that is executed and its fields. -/
def IssEvent.decoded {δ : Type} : IssEvent δ → Option (Op × Operands)
  | .normal op o _ => some (decodeNormal o.rd op, o)
  | .compressed i hasF hasD capabilityMode _ => some (i.expandCompressed hasF hasD capabilityMode)
  | .outside _ _ => none

/-- One step, with the outcome of the instruction; `handle_trap` leaves the integer registers. -/
def issStep {δ : Type} (p : Platform δ) (s : Iss δ) : IssEvent δ → Except Stop Unit × Iss δ
  | .normal op o rest => (Iss.execOp p rest o (decodeNormal o.rd op)).run' s
  | .compressed i hasF hasD capabilityMode rest =>
    let d := i.expandCompressed hasF hasD capabilityMode
    (Iss.execOp p rest d.2 d.1).run' s
  | .outside f _ => (.ok (), f s)

/-- `RegFile_T`: the registers at the start, all null or all with every permission, but register zero always
null. -/
def regFile (initToDefault : Bool) (i : Fin 32) : Capability :=
  if i = 0 then cNullCap else if initToDefault then cDefaultCap else cNullCap

end RiscvVp.Cheri
