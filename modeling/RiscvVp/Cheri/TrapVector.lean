import RiscvVp.Cheri.CapCommon
import RiscvVp.Cheri.Mem

/-!
# The trap-vector capabilities

The special capability registers `utcc`, `stcc` and `mtcc` (`core/rv64_cheriv9/csr.h`) and the two ways
to write them in `core/rv64_cheriv9/iss_ctemplate.cpp`: as a capability with `CSpecialRW`, and as the
integer CSRs `utvec`, `stvec` and `mtvec`, which are references to the address of the same capability.
-/

namespace RiscvVp.Cheri

/-! ### The registers -/

/-- The trap-vector capabilities by name. -/
inductive Tcc
  | utcc
  | stcc
  | mtcc
  deriving DecidableEq, Repr

/-- The number of the register in `C_SPECIAL_RW`. -/
def Tcc.idx : Tcc → BitVec 64
  | utcc => 4
  | stcc => 12
  | mtcc => 28

/-- `priv` in `C_SPECIAL_RW`. -/
def Tcc.priv : Tcc → PrivilegeLevel
  | utcc => .user
  | stcc => .supervisor
  | mtcc => .machine

/-- The registers, and what decides whether they may be accessed: the extensions in `misa`, the
privilege level and the permission of the program counter capability to access system registers. -/
structure TrapVectors where
  utcc : Capability
  stcc : Capability
  mtcc : Capability
  hasN : Bool
  hasS : Bool
  prv : PrivilegeLevel
  accessSystemRegs : Bool
  deriving DecidableEq, Repr

namespace TrapVectors

/-- The registers after reset. -/
def reset (hasN hasS : Bool) : TrapVectors :=
  ⟨cDefaultCap, cDefaultCap, cDefaultCap, hasN, hasS, .machine, true⟩

def get (s : TrapVectors) : Tcc → Capability
  | .utcc => s.utcc
  | .stcc => s.stcc
  | .mtcc => s.mtcc

def set (s : TrapVectors) (r : Tcc) (c : Capability) : TrapVectors :=
  match r with
  | .utcc => { s with utcc := c }
  | .stcc => { s with stcc := c }
  | .mtcc => { s with mtcc := c }

/-- `specialExists` in `C_SPECIAL_RW`. -/
def specialExists (s : TrapVectors) : Tcc → Bool
  | .utcc => s.hasN
  | .stcc => s.hasS
  | .mtcc => true

end TrapVectors

/-! ### Writing -/

/-- `CapEx_AccessSystemRegsViolation` for the register `regnum`. -/
def accessSystemRegsViolation (regnum : BitVec 64) : SimulationTrap :=
  ⟨.cheriFault, (regnum <<< 5) + 0x18⟩

/-- `cPccIdx`. -/
def cPccIdx : BitVec 64 := 0b100000

/-- `MTVEC_MASK`: the second bit of the mode is not written. -/
def mtvecMask : BitVec 64 := ~~~2

/-- The lambda `write` in `set_csr_value`: bits outside the mask are kept. -/
def writeMasked (mask old value : BitVec 64) : BitVec 64 := (old &&& ~~~mask) ||| (value &&& mask)

/-- `set_csr_value` for `UTVEC_ADDR`, `STVEC_ADDR` and `MTVEC_ADDR`: the address bits of the stored
capability are overwritten in place. -/
def setCsrValue (s : TrapVectors) (r : Tcc) (value : BitVec 64) :
    Except SimulationTrap TrapVectors :=
  if s.accessSystemRegs then
    let c := s.get r
    .ok (s.set r { c with address := writeMasked mtvecMask c.address value })
  else .error (accessSystemRegsViolation cPccIdx)

/-- `C_SPECIAL_RW` for a trap vector: the state and the value for the destination register.  `data` is
the instruction word and `cs1` the value of the register `rs1`. -/
def cSpecialRW (s : TrapVectors) (data : BitVec 64) (r : Tcc) (rs1 : BitVec 5) (cs1 : Capability) :
    Except SimulationTrap (TrapVectors × Capability) :=
  if !s.specialExists r || s.prv.val < r.priv.val then .error ⟨.illegalInstr, data⟩
  else if !s.accessSystemRegs then .error (accessSystemRegsViolation (r.idx + (1 <<< 5)))
  else
    let cd := s.get r
    .ok (if rs1 ≠ 0 then s.set r (legalizeTcc (s.get r) cs1) else s, cd)

end RiscvVp.Cheri
