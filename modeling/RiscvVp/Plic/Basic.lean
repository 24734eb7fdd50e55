import RiscvVp.Iss.Csr

/-!
# The interrupt controller of the FU540

`SIFIVE_PLIC` (`platform/common/sifive_plic.cpp`) with its register ranges (`util/memory_map.h`): the
gateway, the registers that harts read and write over the bus, and the thread `run`.

A range is an array of 32-bit words, since every access must be aligned and of a multiple of four
bytes.  The lines of `external_interrupt_target` are part of the state.  `e_run` has at most one
notification outstanding: one that is made while another is outstanding is dropped, as both are
due after the same delay.  A failed assertion and an exception end the simulation: there is no next
state.  The delays are not part of the model.
-/

namespace RiscvVp

/-- The arguments of the constructor, which asserts that there is an interrupt; two words hold the
pending bits. -/
structure PlicConfig where
  fu540Mode : Bool
  harts : ℕ
  numirq : ℕ
  numirq_pos : 0 < numirq
  numirq_le : numirq ≤ 63

theorem PlicConfig.numirq_pos_53 : 0 < 53 := by decide

theorem PlicConfig.numirq_le_53 : 53 ≤ 63 := by decide

/-- A range of registers, as the constructor lays them out: for all interrupts, or for a hart and a level. -/
inductive PlicRange
  | interruptPriorities
  | pendingInterrupts
  | enabledIrqs (hart : ℕ) (level : PrivilegeLevel)
  | hartContext (hart : ℕ) (level : PrivilegeLevel)
  deriving DecidableEq, Repr

/-- The contents of the ranges, the notification of `e_run` and the interrupt lines of the harts. -/
structure Plic where
  interruptPriorities : ℕ → BitVec 32
  pendingInterrupts : ℕ → BitVec 32
  enabledIrqs : ℕ → PrivilegeLevel → ℕ → BitVec 32
  hartContext : ℕ → PrivilegeLevel → ℕ → BitVec 32
  eRun : Bool
  lines : ℕ → PrivilegeLevel → Bool

/-- What happens to the controller: a gateway is triggered, a hart or another initiator reads or writes
a register, or `run` wakes up. -/
inductive PlicEvent
  | trigger (irq : ℕ)
  | read (addr len : ℕ)
  | write (addr : ℕ) (data : List (BitVec 32))
  | run
  deriving DecidableEq, Repr

namespace PlicConfig

variable (cfg : PlicConfig)

/-- `HART_REG_SIZE`: the bytes for the enable bits of one hart and level. -/
def hartRegSize : ℕ := (cfg.numirq + 63) / 64 * 8

/-- A hart has registers for the level: hart 0 of the FU540 has none for supervisor mode. -/
def Supports (hart : ℕ) (level : PrivilegeLevel) : Prop :=
  level = .machine ∨ level = .supervisor ∧ ¬(cfg.fu540Mode = true ∧ hart = 0)

/-- `create_hart_regs`: the ranges of `n` harts from `hart` on, with their first addresses. -/
def createHartRegs (range : ℕ → PrivilegeLevel → PlicRange) (inc : ℕ) (hart addr : ℕ) :
    ℕ → List (ℕ × ℕ × PlicRange)
  | 0 => []
  | n + 1 =>
    if cfg.fu540Mode && hart == 0 then
      (addr, cfg.hartRegSize, range hart .machine) ::
        createHartRegs range inc (hart + 1) (addr + inc) n
    else
      (addr, cfg.hartRegSize, range hart .machine) ::
        (addr + inc, cfg.hartRegSize, range hart .supervisor) ::
          createHartRegs range inc (hart + 1) (addr + inc + inc) n

/-- `register_ranges`: first address, size and contents. -/
def registerRanges : List (ℕ × ℕ × PlicRange) :=
  (0x4, 4 * cfg.numirq, .interruptPriorities) :: (0x1000, 8, .pendingInterrupts) ::
    (cfg.createHartRegs .enabledIrqs 0x80 0 0x2000 cfg.harts ++
      cfg.createHartRegs .hartContext 0x1000 0 0x200000 cfg.harts)

/-- `vp::mm::route`: the first range that contains the address, and the local address.  The access must
be aligned and lie within the range. -/
def route (addr len : ℕ) : Option (PlicRange × ℕ) :=
  match cfg.registerRanges.find? fun r => r.1 ≤ addr && addr < r.1 + r.2.1 with
  | none => none
  | some (start, size, range) =>
    if addr % 4 = 0 ∧ len % 4 = 0 ∧ addr - start + len ≤ size then some (range, addr - start) else none

end PlicConfig

namespace Plic

/-- `GET_OFF`; `GET_IDX` is the division by 32. -/
def getOff (irq : ℕ) : BitVec 32 := 1 <<< (irq % 32)

/-- `MAX_THR` and `MAX_PRIO`: the greatest threshold and the greatest priority. -/
def maxPrio : BitVec 32 := 7

/-- `std::min`, of a value that is written and the greatest one. -/
def clamp (v : BitVec 32) : BitVec 32 := if maxPrio < v then maxPrio else v

/-- `memcpy` of whole words into a range. -/
def memcpy (mem : ℕ → BitVec 32) (idx : ℕ) (data : List (BitVec 32)) : ℕ → BitVec 32 := fun i =>
  if idx ≤ i then data.getD (i - idx) (mem i) else mem i

/-- `is_claim_access`: the second word of the registers of a hart, which is the one for claims and
completions. -/
def isClaimAccess (addr : ℕ) : Bool := addr / 4 % 2 == 1

variable (cfg : PlicConfig) (s : Plic)

/-- The range that a `HartConfig` has for a level: `s_mode` is `m_mode` for hart 0 of the FU540. -/
def viewLevel (hart : ℕ) (level : PrivilegeLevel) : PrivilegeLevel :=
  if cfg.fu540Mode && hart == 0 then .machine else level

/-- `is_pending`: the bit of the interrupt among the pending ones. -/
def isPending (irq : ℕ) : Bool := s.pendingInterrupts (irq / 32) &&& getOff irq != 0

/-- `is_enabled`: the bit of the interrupt among those that the hart has enabled for the level. -/
def isEnabled (hart : ℕ) (level : PrivilegeLevel) (irq : ℕ) : Bool :=
  s.enabledIrqs hart (viewLevel cfg hart level) (irq / 32) &&& getOff irq != 0

/-- `get_threshold`: the first word of the registers of the hart and level. -/
def getThreshold (hart : ℕ) (level : PrivilegeLevel) : BitVec 32 :=
  s.hartContext hart (viewLevel cfg hart level) 0

/-- The priority of an interrupt. -/
def prio (irq : ℕ) : BitVec 32 := s.interruptPriorities (irq - 1)

/-- One round of the loop of `next_pending_irq` on `selirq` and `maxpri`. -/
def selectIrq (hart : ℕ) (level : PrivilegeLevel) (ignth : Bool) (sel : ℕ × BitVec 32) (irq : ℕ) :
    ℕ × BitVec 32 :=
  if !s.isEnabled cfg hart level irq || !s.isPending irq then sel
  else if !ignth && s.prio irq ≤ s.getThreshold cfg hart level then sel
  else if sel.2 < s.prio irq then (irq, s.prio irq)
  else sel

/-- `next_pending_irq`: the pending and enabled interrupt of the highest priority, the one with the lowest
number among equals, or zero. -/
def nextPendingIrq (hart : ℕ) (level : PrivilegeLevel) (ignth : Bool) : ℕ :=
  ((List.range' 1 cfg.numirq).foldl (s.selectIrq cfg hart level ignth) (0, 0)).1

/-- `has_pending_irq`: the level that is triggered. -/
def hasPendingIrq (hart : ℕ) : Option PrivilegeLevel :=
  if (!cfg.fu540Mode || hart != 0) && 0 < s.nextPendingIrq cfg hart .supervisor false then
    some .supervisor
  else if 0 < s.nextPendingIrq cfg hart .machine false then some .machine
  else none

/-- `clear_pending`: the bit of one interrupt is cleared. -/
def clearPending (irq : ℕ) : Plic :=
  { s with
    pendingInterrupts := Function.update s.pendingInterrupts (irq / 32)
      (s.pendingInterrupts (irq / 32) &&& ~~~getOff irq) }

/-- `trigger_external_interrupt` and `clear_external_interrupt` of a hart. -/
def setLine (hart : ℕ) (level : PrivilegeLevel) (on : Bool) : Plic :=
  { s with lines := Function.update s.lines hart (Function.update (s.lines hart) level on) }

/-- Write the words of a context. -/
def setContext (hart : ℕ) (level : PrivilegeLevel) (mem : ℕ → BitVec 32) : Plic :=
  { s with
    hartContext := Function.update s.hartContext hart
      (Function.update (s.hartContext hart) level mem) }

/-- `gateway_trigger_interrupt`: the interrupt becomes pending, and `run` is notified. -/
def gatewayTriggerInterrupt (irq : ℕ) : Option Plic :=
  if irq = 0 ∨ cfg.numirq < irq then none
  else some { s with
    pendingInterrupts := Function.update s.pendingInterrupts (irq / 32)
      (s.pendingInterrupts (irq / 32) ||| getOff irq)
    eRun := true }

/-- `read_hartctx`: what a read of the registers of a hart does before the word is copied: a claim selects
an interrupt and takes it. -/
def readHartctx (addr len hart : ℕ) (level : PrivilegeLevel) : Option Plic :=
  if len ≠ 4 then none
  else if !isClaimAccess addr then some s
  -- the assertion of `next_pending_irq`
  else if cfg.fu540Mode && hart == 0 && level == .supervisor then none
  else
    let irq := s.nextPendingIrq cfg hart level true
    let s' := s.setContext hart level (Function.update (s.hartContext hart level) 1 (.ofNat 32 irq))
    some (if irq ≠ 0 then s'.clearPending irq else s')

/-- `write_hartctx`, after the value has been stored. -/
def writeHartctx (addr len hart : ℕ) (level : PrivilegeLevel) : Option Plic :=
  if len ≠ 4 then none
  else if isClaimAccess addr then some (s.setLine hart level false)
  else some (s.setContext hart level
    (Function.update (s.hartContext hart level) 0 (clamp (s.hartContext hart level 0))))

/-- `write_irq_prios`, after the value has been stored. -/
def writeIrqPrios (addr : ℕ) : Option Plic :=
  if cfg.numirq ≤ addr / 4 then none
  else some { s with
    interruptPriorities :=
      Function.update s.interruptPriorities (addr / 4) (clamp (s.interruptPriorities (addr / 4))) }

/-- A read over the bus; only that of a claim register changes anything, and `none` is an access outside of
all ranges. -/
def busRead (addr len : ℕ) : Option Plic :=
  match cfg.route addr len with
  | none => none
  | some (.hartContext hart level, addr) => s.readHartctx cfg addr len hart level
  | some _ => some s

/-- A write over the bus: the value is stored, then the callback is called.  The pending bits are
read-only. -/
def busWrite (addr : ℕ) (data : List (BitVec 32)) : Option Plic :=
  match cfg.route addr (4 * data.length) with
  | none => none
  | some (.pendingInterrupts, _) => some s
  | some (.interruptPriorities, addr) =>
    { s with interruptPriorities := memcpy s.interruptPriorities (addr / 4) data }.writeIrqPrios cfg
      addr
  | some (.enabledIrqs hart level, addr) =>
    some { s with
      enabledIrqs := Function.update s.enabledIrqs hart (Function.update (s.enabledIrqs hart) level
        (memcpy (s.enabledIrqs hart level) (addr / 4) data)) }
  | some (.hartContext hart level, addr) =>
    (s.setContext hart level (memcpy (s.hartContext hart level) (addr / 4) data)).writeHartctx addr
      (4 * data.length) hart level

/-- The words of a range. -/
def word : PlicRange → ℕ → BitVec 32
  | .interruptPriorities => s.interruptPriorities
  | .pendingInterrupts => s.pendingInterrupts
  | .enabledIrqs hart level => s.enabledIrqs hart level
  | .hartContext hart level => s.hartContext hart level

/-- What a read of one word answers: the callback comes before the copy. -/
def readWord (addr : ℕ) : Option (BitVec 32) :=
  match cfg.route addr 4, s.busRead cfg addr 4 with
  | some (range, addr'), some s' => some (s'.word range (addr' / 4))
  | _, _ => none

/-- One round of the loop of `run`. -/
def runHart (s : Plic) (hart : ℕ) : Plic :=
  match s.hasPendingIrq cfg hart with
  | some level => s.setLine hart level true
  | none => s

/-- A wake-up of `run`, if there is a notification. -/
def run : Plic :=
  if s.eRun then (List.range cfg.harts).foldl (runHart cfg) { s with eRun := false } else s

/-- One event; none if the simulation ends. -/
def exec : PlicEvent → Option Plic
  | .trigger irq => s.gatewayTriggerInterrupt cfg irq
  | .read addr len => s.busRead cfg addr len
  | .write addr data => s.busWrite cfg addr data
  | .run => some (s.run cfg)

/-- One step; the answer says whether the simulation goes on. -/
def step (s : Plic) (e : PlicEvent) : Bool × Plic :=
  match s.exec cfg e with
  | some s' => (true, s')
  | none => (false, s)

/-- After the constructor: nothing is pending, enabled or signalled. -/
def start : Plic := ⟨fun _ => 0, fun _ => 0, fun _ _ _ => 0, fun _ _ _ => 0, false, fun _ _ => false⟩

end Plic

end RiscvVp
