import RiscvVp.Rv64im.Encoding

/-!
# The integer instruction set

What the computational instructions, the branches and the jumps of RV64IM mean, over the integers that the
registers stand for: results are rounded to the width of a register only at the end.  A machine has no
state but its registers and its program counter.
-/

namespace RiscvVp.Rv64im

/-! ### Values -/

/-- An integer in a register, reduced modulo `2 ^ 64`. -/
def wrap (x : ℤ) : BitVec 64 := BitVec.ofInt 64 x

/-- The lower 32 bits of an integer, with their sign, in a register. -/
def wrapW (x : ℤ) : BitVec 64 := (BitVec.ofInt 32 x).signExtend 64

/-- The lower word of a register. -/
def low (a : BitVec 64) : BitVec 32 := a.setWidth 32

/-- A truth value in a register. -/
def flag (p : Prop) [Decidable p] : BitVec 64 := if p then 1 else 0

/-- What an instruction computes from two registers. -/
def regValue (a b : BitVec 64) : Operation → Option (BitVec 64)
  | .add => some (wrap (a.toInt + b.toInt))
  | .sub => some (wrap (a.toInt - b.toInt))
  | .slt => some (flag (a.toInt < b.toInt))
  | .sltu => some (flag (a.toNat < b.toNat))
  | .xor => some (a ^^^ b)
  | .or => some (a ||| b)
  | .and => some (a &&& b)
  | .sll => some (wrap (a.toNat * 2 ^ (b.toNat % 64)))
  | .srl => some (wrap (a.toNat / 2 ^ (b.toNat % 64)))
  | .sra => some (wrap (a.toInt / 2 ^ (b.toNat % 64)))
  | .mul => some (wrap (a.toInt * b.toInt))
  | .mulh => some (wrap (a.toInt * b.toInt / 2 ^ 64))
  | .mulhsu => some (wrap (a.toInt * b.toNat / 2 ^ 64))
  | .mulhu => some (wrap (a.toNat * b.toNat / 2 ^ 64))
  -- the quotient of the least integer by -1 wraps around
  | .div => some (wrap (if b = 0 then -1 else a.toInt.tdiv b.toInt))
  | .divu => some (wrap (if b = 0 then -1 else a.toNat / b.toNat))
  | .rem => some (wrap (if b = 0 then a.toInt else a.toInt.tmod b.toInt))
  | .remu => some (wrap (if b = 0 then a.toNat else a.toNat % b.toNat))
  | .addw => some (wrapW ((low a).toInt + (low b).toInt))
  | .subw => some (wrapW ((low a).toInt - (low b).toInt))
  | .sllw => some (wrapW ((low a).toNat * 2 ^ (b.toNat % 32)))
  | .srlw => some (wrapW ((low a).toNat / 2 ^ (b.toNat % 32)))
  | .sraw => some (wrapW ((low a).toInt / 2 ^ (b.toNat % 32)))
  | .mulw => some (wrapW ((low a).toInt * (low b).toInt))
  | .divw => some (wrapW (if low b = 0 then -1 else (low a).toInt.tdiv (low b).toInt))
  | .divuw => some (wrapW (if low b = 0 then -1 else (low a).toNat / (low b).toNat))
  | .remw => some (wrapW (if low b = 0 then (low a).toInt else (low a).toInt.tmod (low b).toInt))
  | .remuw => some (wrapW (if low b = 0 then (low a).toNat else (low a).toNat % (low b).toNat))
  | _ => none

/-- What an instruction computes from a register and an immediate. -/
def immValue (a : BitVec 64) (imm : BitVec 32) : Operation → Option (BitVec 64)
  | .addi => some (wrap (a.toInt + imm.toInt))
  | .slti => some (flag (a.toInt < imm.toInt))
  | .sltiu => some (flag (a.toNat < (wrap imm.toInt).toNat))
  | .xori => some (a ^^^ wrap imm.toInt)
  | .ori => some (a ||| wrap imm.toInt)
  | .andi => some (a &&& wrap imm.toInt)
  | .addiw => some (wrapW ((low a).toInt + imm.toInt))
  | _ => none

/-- What an instruction computes from a register and a shift amount. -/
def shiftValue (a : BitVec 64) (shamt : ℕ) : Operation → Option (BitVec 64)
  | .slli => some (wrap (a.toNat * 2 ^ shamt))
  | .srli => some (wrap (a.toNat / 2 ^ shamt))
  | .srai => some (wrap (a.toInt / 2 ^ shamt))
  | .slliw => some (wrapW ((low a).toNat * 2 ^ shamt))
  | .srliw => some (wrapW ((low a).toNat / 2 ^ shamt))
  | .sraiw => some (wrapW ((low a).toInt / 2 ^ shamt))
  | _ => none

/-- What an instruction computes from the program counter and an upper immediate. -/
def upperValue (pc : BitVec 64) (imm : BitVec 32) : Operation → Option (BitVec 64)
  | .lui => some (wrap imm.toInt)
  | .auipc => some (wrap (pc.toInt + imm.toInt))
  | _ => none

/-- The condition of a branch on the numbers in the registers, signed or not; `none` for operations that are
no branch. -/
def taken (a b : BitVec 64) : Operation → Option Bool
  | .beq => some (a = b)
  | .bne => some (a ≠ b)
  | .blt => some (a.toInt < b.toInt)
  | .bge => some (b.toInt ≤ a.toInt)
  | .bltu => some (a.toNat < b.toNat)
  | .bgeu => some (b.toNat ≤ a.toNat)
  | _ => none

/-! ### The machine -/

/-- The registers but `x0`, which is zero, and the program counter. -/
@[ext]
structure Machine where
  x : BitVec 5 → BitVec 64
  x_zero : x 0 = 0
  pc : BitVec 64

namespace Machine

/-- Write a register; what is written to `x0` is lost. -/
def set (m : Machine) (rd : BitVec 5) (value : BitVec 64) : Machine where
  x := if rd = 0 then m.x else Function.update m.x rd value
  x_zero := by
    split_ifs with h
    · exact m.x_zero
    · rw [Function.update_of_ne (Ne.symm h), m.x_zero]
  pc := m.pc

/-- Go on at another address. -/
def jump (m : Machine) (pc : BitVec 64) : Machine := { m with pc := pc }

/-- One instruction of `len` bytes, given by its format; `none` for operations outside the integer set. -/
def exec (m : Machine) (len : BitVec 64) : Rvc.Expansion → Option Machine
  | .r o rd rs1 rs2 => (regValue (m.x rs1) (m.x rs2) o).map fun v => (m.set rd v).jump (m.pc + len)
  | .i .jalr rd rs1 imm =>
    some ((m.set rd (m.pc + len)).jump (wrap ((m.x rs1).toInt + imm.toInt) &&& ~~~1#64))
  | .i o rd rs1 imm => (immValue (m.x rs1) imm o).map fun v => (m.set rd v).jump (m.pc + len)
  | .shift o rd rs1 shamt =>
    (shiftValue (m.x rs1) shamt.toNat o).map fun v => (m.set rd v).jump (m.pc + len)
  | .u o rd imm => (upperValue m.pc imm o).map fun v => (m.set rd v).jump (m.pc + len)
  | .b o rs1 rs2 imm =>
    (taken (m.x rs1) (m.x rs2) o).map fun t => m.jump (m.pc + if t then wrap imm.toInt else len)
  | .j .jal rd imm => some ((m.set rd (m.pc + len)).jump (m.pc + wrap imm.toInt))
  | _ => none

end Machine

/-- A word is an instruction of some bytes, in 32 bits or in the lower 16. -/
inductive Fetched (isa : IsaConfig) (word : BitVec 32) : BitVec 64 → Rvc.Expansion → Prop
  | normal {e : Rvc.Expansion} (henc : Encoded isa word e) : Fetched isa word 4 e
  | compressed {c : Rvc} (hlegal : c.Legal .rv64) (hword : word.setWidth 16 = c.encode) :
      Fetched isa word 2 c.expansion

/-- The machine executes the instruction at its program counter. -/
def Step (isa : IsaConfig) (mem : BitVec 64 → BitVec 32) (m m' : Machine) : Prop :=
  ∃ len e, Fetched isa (mem m.pc) len e ∧ m.exec len e = some m'

/-- The machine takes `n` steps, each an instruction that stands at its program counter. -/
inductive Run (step : Machine → Machine → Prop) : ℕ → Machine → Machine → Prop
  | zero (m : Machine) : Run step 0 m m
  | succ {n : ℕ} {m m₁ m' : Machine} (hstep : step m m₁) (hrun : Run step n m₁ m') : Run step (n + 1) m m'

end RiscvVp.Rv64im
