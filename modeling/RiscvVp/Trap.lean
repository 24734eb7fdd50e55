import Mathlib

/-!
# Traps and privilege levels

The exception causes of `core/common/trap.h`, the trap that an instruction fetch or an executed
operation throws, and the privilege levels of `core/common/irq_if.h`.
-/

namespace RiscvVp

/-- There is a register zero. -/
instance neZeroRegs : NeZero 32 := ⟨by decide⟩

/-- The synchronous causes of `ExceptionCode`. -/
inductive ExceptionCode
  | instrAddrMisaligned
  | instrAccessFault
  | illegalInstr
  | breakpoint
  | loadAddrMisaligned
  | loadAccessFault
  | storeAmoAddrMisaligned
  | storeAmoAccessFault
  | ecallUMode
  | ecallSMode
  | ecallMMode
  | instrPageFault
  | loadPageFault
  | storeAmoPageFault
  | cheriLoadFault
  | cheriStoreFault
  | cheriFault
  deriving DecidableEq, Repr

namespace ExceptionCode

/-- The value written to the `exception_code` field of `xcause`. -/
def code : ExceptionCode → ℕ
  | instrAddrMisaligned => 0
  | instrAccessFault => 1
  | illegalInstr => 2
  | breakpoint => 3
  | loadAddrMisaligned => 4
  | loadAccessFault => 5
  | storeAmoAddrMisaligned => 6
  | storeAmoAccessFault => 7
  | ecallUMode => 8
  | ecallSMode => 9
  | ecallMMode => 11
  | instrPageFault => 12
  | loadPageFault => 13
  | storeAmoPageFault => 15
  | cheriLoadFault => 26
  | cheriStoreFault => 27
  | cheriFault => 28

end ExceptionCode

/-- `SimulationTrap`: the exception object that `raise_trap` throws. -/
structure SimulationTrap where
  reason : ExceptionCode
  mtval : BitVec 64
  deriving DecidableEq, Repr

end RiscvVp
