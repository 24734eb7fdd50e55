import RiscvVp.Instr.Compressed

/-!
# The integer instructions of the ISS

The cases of `exec_steps` (`core/rv64/iss_ctemplate.cpp`) for the computational instructions, the branches
and the jumps of RV64I and the M extension, over the plain instruction cache `DBBCacheDummy_T`.  A step is
`none` where the ISS raises a trap or meets an instruction of another unit.
-/

namespace RiscvVp

/-- What the integer instructions use of the ISS: the registers, and the program counters of the cache. -/
@[ext]
structure IntegerUnit where
  regs : BitVec 5 → BitVec 64
  pc : BitVec 64
  lastPc : BitVec 64

namespace IntegerUnit

/-- `regs[index]`: register zero is stored like the others. -/
def reg (s : IntegerUnit) (index : BitVec 32) : BitVec 64 := s.regs (index.setWidth 5)

/-- `regs[instr.rd()] = value`: the destination is written, also if it is register zero. -/
def setRd (s : IntegerUnit) (instr : Instr) (value : BitVec 64) : IntegerUnit :=
  { s with regs := Function.update s.regs (instr.rd.setWidth 5) value }

/-- `regs.shamt(index)`: the six bits that a shift of a register looks at. -/
def shamt (s : IntegerUnit) (index : BitVec 32) : ℕ := (s.reg index &&& 0x3f).toNat

/-- `regs.shamt_w(index)`: the five bits that a shift of a word looks at. -/
def shamtW (s : IntegerUnit) (index : BitVec 32) : ℕ := (s.reg index &&& 0x1f).toNat

/-- A comparison as the value of a register. -/
def flag (b : Bool) : BitVec 64 := if b then 1 else 0

/-- `REG_MIN`: the least signed number of a register. -/
def regMin : BitVec 64 := 0x8000000000000000

/-- `REG32_MIN`: the least signed number of a word. -/
def reg32Min : BitVec 32 := 0x80000000

section Values

variable (s : IntegerUnit) (instr : Instr)

/-- `DIV`: the signed quotient.  The two cases that C++ leaves undefined are caught before the host divides. -/
def div (a b : BitVec 64) : BitVec 64 :=
  if b = 0 then -1 else if a = regMin ∧ b = -1 then a else a.sdiv b

/-- `REM`: the signed remainder, with the same two cases caught. -/
def rem (a b : BitVec 64) : BitVec 64 :=
  if b = 0 then a else if a = regMin ∧ b = -1 then 0 else a.srem b

/-- `DIVW`: the signed quotient of the low words, extended to a register. -/
def divw (a b : BitVec 32) : BitVec 64 :=
  if b = 0 then -1 else if a = reg32Min ∧ b = -1 then a.signExtend 64 else (a.sdiv b).signExtend 64

/-- `REMW`: the signed remainder of the low words, extended to a register. -/
def remw (a b : BitVec 32) : BitVec 64 :=
  if b = 0 then a.signExtend 64
  else if a = reg32Min ∧ b = -1 then 0
  else (a.srem b).signExtend 64

/-- What an instruction writes to `rd`. -/
def rdValue : Operation → Option (BitVec 64)
  | .addi => some (s.reg instr.rs1 + instr.iImm.signExtend 64)
  | .slti => some (flag ((s.reg instr.rs1).slt (instr.iImm.signExtend 64)))
  | .sltiu => some (flag ((s.reg instr.rs1).ult (instr.iImm.signExtend 64)))
  | .xori => some (s.reg instr.rs1 ^^^ instr.iImm.signExtend 64)
  | .ori => some (s.reg instr.rs1 ||| instr.iImm.signExtend 64)
  | .andi => some (s.reg instr.rs1 &&& instr.iImm.signExtend 64)
  | .add => some (s.reg instr.rs1 + s.reg instr.rs2)
  | .sub => some (s.reg instr.rs1 - s.reg instr.rs2)
  | .sll => some (s.reg instr.rs1 <<< s.shamt instr.rs2)
  | .slt => some (flag ((s.reg instr.rs1).slt (s.reg instr.rs2)))
  | .sltu => some (flag ((s.reg instr.rs1).ult (s.reg instr.rs2)))
  | .srl => some (s.reg instr.rs1 >>> s.shamt instr.rs2)
  | .sra => some ((s.reg instr.rs1).sshiftRight (s.shamt instr.rs2))
  | .xor => some (s.reg instr.rs1 ^^^ s.reg instr.rs2)
  | .or => some (s.reg instr.rs1 ||| s.reg instr.rs2)
  | .and => some (s.reg instr.rs1 &&& s.reg instr.rs2)
  | .slli => some (s.reg instr.rs1 <<< instr.shamt.toNat)
  | .srli => some (s.reg instr.rs1 >>> instr.shamt.toNat)
  | .srai => some ((s.reg instr.rs1).sshiftRight instr.shamt.toNat)
  | .lui => some (instr.uImm.signExtend 64)
  | .auipc => some (s.lastPc + instr.uImm.signExtend 64)
  | .addiw => some (((s.reg instr.rs1).setWidth 32 + instr.iImm).signExtend 64)
  | .slliw => some (((s.reg instr.rs1).setWidth 32 <<< instr.shamtW.toNat).signExtend 64)
  | .srliw => some (((s.reg instr.rs1).setWidth 32 >>> instr.shamtW.toNat).signExtend 64)
  | .sraiw => some ((((s.reg instr.rs1).setWidth 32).sshiftRight instr.shamtW.toNat).signExtend 64)
  | .addw => some (((s.reg instr.rs1).setWidth 32 + (s.reg instr.rs2).setWidth 32).signExtend 64)
  | .subw => some (((s.reg instr.rs1).setWidth 32 - (s.reg instr.rs2).setWidth 32).signExtend 64)
  | .sllw => some (((s.reg instr.rs1).setWidth 32 <<< s.shamtW instr.rs2).signExtend 64)
  | .srlw => some (((s.reg instr.rs1).setWidth 32 >>> s.shamtW instr.rs2).signExtend 64)
  | .sraw => some ((((s.reg instr.rs1).setWidth 32).sshiftRight (s.shamtW instr.rs2)).signExtend 64)
  | .mul => some (((s.reg instr.rs1).signExtend 128 * (s.reg instr.rs2).signExtend 128).setWidth 64)
  | .mulh =>
    some ((((s.reg instr.rs1).signExtend 128 * (s.reg instr.rs2).signExtend 128).sshiftRight 64).setWidth 64)
  | .mulhu =>
    some ((((s.reg instr.rs1).setWidth 128 * (s.reg instr.rs2).setWidth 128).sshiftRight 64).setWidth 64)
  | .mulhsu =>
    some ((((s.reg instr.rs1).signExtend 128 * (s.reg instr.rs2).setWidth 128).sshiftRight 64).setWidth 64)
  | .div => some (div (s.reg instr.rs1) (s.reg instr.rs2))
  | .divu => some (if s.reg instr.rs2 = 0 then -1 else s.reg instr.rs1 / s.reg instr.rs2)
  | .rem => some (rem (s.reg instr.rs1) (s.reg instr.rs2))
  | .remu =>
    some (if s.reg instr.rs2 = 0 then s.reg instr.rs1 else s.reg instr.rs1 % s.reg instr.rs2)
  | .mulw => some (((s.reg instr.rs1 * s.reg instr.rs2).setWidth 32).signExtend 64)
  | .divw => some (divw ((s.reg instr.rs1).setWidth 32) ((s.reg instr.rs2).setWidth 32))
  | .divuw =>
    some (if (s.reg instr.rs2).setWidth 32 = 0 then -1
      else ((s.reg instr.rs1).setWidth 32 / (s.reg instr.rs2).setWidth 32).signExtend 64)
  | .remw => some (remw ((s.reg instr.rs1).setWidth 32) ((s.reg instr.rs2).setWidth 32))
  | .remuw =>
    some (if (s.reg instr.rs2).setWidth 32 = 0 then ((s.reg instr.rs1).setWidth 32).signExtend 64
      else ((s.reg instr.rs1).setWidth 32 % (s.reg instr.rs2).setWidth 32).signExtend 64)
  | _ => none

/-- The condition of a branch, as the comparison that the source writes for it. -/
def branchTaken : Operation → Option Bool
  | .beq => some (s.reg instr.rs1 = s.reg instr.rs2)
  | .bne => some (s.reg instr.rs1 ≠ s.reg instr.rs2)
  | .blt => some ((s.reg instr.rs1).slt (s.reg instr.rs2))
  | .bge => some (!(s.reg instr.rs1).slt (s.reg instr.rs2))
  | .bltu => some ((s.reg instr.rs1).ult (s.reg instr.rs2))
  | .bgeu => some (!(s.reg instr.rs1).ult (s.reg instr.rs2))
  | _ => none

end Values

/-! ### Jumps of the cache -/

/-- `branch_taken`, `jump`: the target is relative to the instruction itself. -/
def branchTakenSjump (s : IntegerUnit) (pcOffset : BitVec 32) : IntegerUnit :=
  { s with pc := s.lastPc + pcOffset.signExtend 64 }

/-- The target of `JR` and `JALR`. -/
def jumpTarget (s : IntegerUnit) (instr : Instr) : BitVec 64 :=
  (s.reg instr.rs1 + instr.iImm.signExtend 64) &&& ~~~1#64

/-- The target of a dynamic jump is misaligned: it raises a trap. -/
def misaligned (isa : IsaConfig) (pc : BitVec 64) : Bool := pc &&& 0x3 ≠ 0 ∧ !isa.supports IsaConfig.c

/-! ### Steps -/

/-- The operation of `exec_steps` on the registers and the program counter; `none` for operations of other
units. -/
def exec (isa : IsaConfig) (s : IntegerUnit) (instr : Instr) : OpId → Option IntegerUnit
  | .op .jal => some ((s.branchTakenSjump instr.jImm).setRd instr s.pc)
  | .rdZero .jal => some (s.branchTakenSjump instr.jImm)
  | .op .jalr =>
    if misaligned isa (s.jumpTarget instr) then none
    else some ({ s with pc := s.jumpTarget instr }.setRd instr s.pc)
  | .rdZero .jalr =>
    if misaligned isa (s.jumpTarget instr) then none else some { s with pc := s.jumpTarget instr }
  | .op o =>
    match s.rdValue instr o with
    | some value => some (s.setRd instr value)
    | none => (s.branchTaken instr o).map fun taken => if taken then s.branchTakenSjump instr.bImm else s
  | .rdZero o => if (s.rdValue instr o).isSome then some s else none
  | _ => none

/-- `DBBCacheDummy_T::fetch_decode`; it throws for no word. -/
def fetchDecode (rest : Instr.OtherDecoder) (isa : IsaConfig) (mem : BitVec 64 → BitVec 32)
    (s : IntegerUnit) : Option (Instr × OpId × IntegerUnit) :=
  let instr : Instr := mem s.pc
  if instr.isCompressed then
    (instr.decodeAndExpandCompressed .rv64 isa).map fun p =>
      (p.1, p.2, { s with lastPc := s.pc, pc := s.pc + 2 })
  else some (instr, Instr.decodeNormal rest .rv64 isa instr, { s with lastPc := s.pc, pc := s.pc + 4 })

/-- One instruction: it is fetched and decoded, and then executed; there is no result for an operation of
another unit. -/
def step (rest : Instr.OtherDecoder) (isa : IsaConfig) (mem : BitVec 64 → BitVec 32) (s : IntegerUnit) :
    Option IntegerUnit :=
  (s.fetchDecode rest isa mem).bind fun p => p.2.2.exec isa p.1 p.2.1

/-- `n` instructions, one after the other. -/
def run (rest : Instr.OtherDecoder) (isa : IsaConfig) (mem : BitVec 64 → BitVec 32) :
    ℕ → IntegerUnit → Option IntegerUnit
  | 0, s => some s
  | n + 1, s => (s.step rest isa mem).bind (run rest isa mem n)

end IntegerUnit

end RiscvVp
