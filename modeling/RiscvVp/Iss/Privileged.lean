import RiscvVp.Iss.Csr
import RiscvVp.Lib.Run
import RiscvVp.Mem.Mmu

/-!
# Privileged instructions

The instructions of `rv64/iss_ctemplate.cpp` that change the privilege level or the registers it depends
on: `URET`, `SRET`, `MRET`, `ECALL` and the CSR instructions (`set_csr_value`), together with traps,
interrupts and the part of address translation that looks at the privilege level (`common/mmu.h`).  A
failed assertion and an exception that nobody catches end the simulation.

Only `return_from_trap_handler` and `switch_to_trap_handler` write `prv`, so that every other instruction
completes with the privilege level it has, or traps.  The ISS has the extensions `U`, `S` and `N` on every
platform, and `misa` cannot be written.  The registers of the floating-point and the vector unit are
not part of the model.
-/

namespace RiscvVp

/-! ### The state -/

/-- `csr_satp`, with all the encodings of its mode. -/
structure SatpReg where
  ppn : BitVec 44
  asid : BitVec 16
  mode : BitVec 4
  deriving DecidableEq, Repr

/-- What privileged instructions read and write.  `tvm` and `tsr` are fields of `mstatus`; the
translation register is `satp`, and the one in `csrs` is not used. -/
structure Priv where
  csrs : Csrs
  tvm : Bool
  tsr : Bool
  satp : SatpReg
  prv : PrivilegeLevel
  pc : BitVec 64
  deriving DecidableEq, Repr

/-- The state in which a hart starts. -/
def Priv.reset (entrypoint : BitVec 64) : Priv :=
  ⟨Csrs.reset, false, false, ⟨0, 0, 0⟩, .machine, entrypoint⟩

/-- How an instruction ends early: by a trap, or by an assertion that stops the simulator. -/
inductive PrivStop
  | trap (t : SimulationTrap)
  | abort
  deriving DecidableEq, Repr

/-! ### Registers -/

/-- `x.reg.val = (x.reg.val & ~mask) | (value & mask)`. -/
def writeMasked (old value mask : BitVec 64) : BitVec 64 := (old &&& ~~~mask) ||| (value &&& mask)

/-- `SIE_MASK`: the interrupts of supervisor and user mode. -/
def sieMask : BitVec 64 := 0b001100110011

/-- `UIE_MASK`: those of user mode. -/
def uieMask : BitVec 64 := 0b000100010001

/-- `MIP_WRITE_MASK`: the pending bits that software can write; those of machine mode come from devices. -/
def mipWriteMask : BitVec 64 := 0b001100110011

/-- `SIP_MASK`: the software interrupts of supervisor and user mode. -/
def sipMask : BitVec 64 := 0b11

/-- `UIP_MASK`: the software interrupt of user mode. -/
def uipMask : BitVec 64 := 0b1

/-- `MEDELEG_MASK`: the exceptions that can be handed down from machine mode. -/
def medelegMask : BitVec 64 := 0b1011101111111111

/-- `SEDELEG_MASK`: those that supervisor mode can hand down further. -/
def sedelegMask : BitVec 64 := 0b1011000111111111

/-- `MTVEC_MASK`: the address of the handler and the lower bit of its mode. -/
def mtvecMask : BitVec 64 := ~~~2

/-- `pc_alignment_mask()`, with compressed instructions. -/
def pcAlignmentMask : BitVec 64 := ~~~1

/-- `MSTATUS_WRITE_MASK`: the fields of `mstatus` that software can write. -/
def mstatusWriteMask : BitVec 64 :=
  0b1000000000000000000000000000000000000000011111111111111110111011

/-- `SSTATUS_WRITE_MASK`: those of them that `sstatus` gives access to. -/
def sstatusWriteMask : BitVec 64 :=
  0b1000000000000000000000000000000000000000000011011110011100110011

/-- `USTATUS_WRITE_MASK`: those that `ustatus` gives access to. -/
def ustatusWriteMask : BitVec 64 :=
  0b0000000000000000000000000000000000000000000000000000000000010001

/-- The two bits of a privilege level. -/
def PrivilegeLevel.ofBits : Bool → Bool → PrivilegeLevel
  | false, false => .user
  | false, true => .supervisor
  | true, false => .hypervisor
  | true, true => .machine

/-- The upper bit of the number of a mode. -/
def PrivilegeLevel.hi : PrivilegeLevel → Bool
  | .user | .supervisor => false
  | .hypervisor | .machine => true

/-- The lower bit of the number of a mode. -/
def PrivilegeLevel.lo : PrivilegeLevel → Bool
  | .user | .hypervisor => false
  | .supervisor | .machine => true

/-- Bits that are masked in a write of `mie` are those of interrupts that there are. -/
theorem writeMasked_mieMask {old value mask : BitVec 64} (ho : old &&& ~~~mieMask = 0)
    (hm : mask &&& ~~~mieMask = 0) : writeMasked old value mask &&& ~~~mieMask = 0 := by
  have h1 : old &&& ~~~mask &&& ~~~mieMask = 0 := by
    have hac : old &&& ~~~mask &&& ~~~mieMask = old &&& ~~~mieMask &&& ~~~mask := by ac_rfl
    rw [hac, ho]
    exact BitVec.zero_and
  have h2 : value &&& mask &&& ~~~mieMask = 0 := by
    rw [BitVec.and_assoc, hm]
    exact BitVec.and_zero
  rw [writeMasked, BitVec.and_or_distrib_right, h1, h2]
  exact BitVec.zero_or

/-- A masked write of `mie`. -/
def Mie.write (m : Mie) (value mask : BitVec 64) (hm : mask &&& ~~~mieMask = 0) : Mie :=
  ⟨writeMasked m.val value mask, writeMasked_mieMask m.masked hm⟩

/-- A masked write of `mtvec`, `stvec` and `utvec`. -/
def Tvec.write (t : Tvec) (value : BitVec 64) : Tvec :=
  let reg := writeMasked (t.base ++ t.mode) value mtvecMask
  ⟨reg.extractLsb' 0 2, reg.extractLsb' 2 62⟩

/-- A write of `mcause`, `scause` and `ucause`. -/
def Cause.ofReg (value : BitVec 64) : Cause := ⟨value.getLsbD 63, value.extractLsb' 0 63⟩

/-- A write of `satp`: `SATP_MASK` leaves out the field `asid`, and a mode that is not supported leaves
the old one. -/
def SatpReg.write (r : SatpReg) (value : BitVec 64) : SatpReg :=
  let mode := value.extractLsb' 60 4
  { r with
    ppn := value.extractLsb' 0 44
    mode := if mode ≠ 0 ∧ mode ≠ 8 ∧ mode ≠ 9 then r.mode else mode }

namespace Priv

/-- A masked write of `mstatus`: each field takes its bits from the value where the mask has ones. -/
def writeMstatus (s : Priv) (value mask : BitVec 64) : Priv :=
  let bit (i : ℕ) (old : Bool) : Bool := if mask.getLsbD i then value.getLsbD i else old
  let m := s.csrs.mstatus
  { s with
    csrs := { s.csrs with
      mstatus :=
        { uie := bit 0 m.uie
          sie := bit 1 m.sie
          mie := bit 3 m.mie
          upie := bit 4 m.upie
          spie := bit 5 m.spie
          mpie := bit 7 m.mpie
          spp := bit 8 m.spp
          mpp := .ofBits (bit 12 m.mpp.hi) (bit 11 m.mpp.lo)
          mprv := bit 17 m.mprv
          sum := bit 18 m.sum
          mxr := bit 19 m.mxr } }
    tvm := bit 20 s.tvm
    tsr := bit 22 s.tsr }

/-- `RAISE_ILLEGAL_INSTRUCTION`: a trap with the word of the instruction. -/
def raiseIllegal (data : BitVec 32) : Except PrivStop Priv :=
  .error (.trap ⟨.illegalInstr, data.setWidth 64⟩)

/-- The addresses of `set_csr_value` and of `register_mapping` whose registers are not part of the
model. -/
def isOtherCsr (addr : BitVec 12) : Bool :=
  [0x001, 0x002, 0x003, 0x008, 0x009, 0x00A, 0x00F, 0x040, 0x106, 0x140, 0x301, 0x306, 0x320, 0x340, 0xB00,
    0xB01, 0xB02, 0xC00, 0xC01, 0xC02, 0xC20, 0xC21, 0xC22, 0xF11, 0xF12, 0xF13, 0xF14].contains addr ||
  -- the event counters and their selectors, and physical memory protection
  (decide (0x323 ≤ addr) && decide (addr ≤ 0x33F)) || (decide (0x3A0 ≤ addr) && decide (addr ≤ 0x3A1)) ||
  (decide (0x3B0 ≤ addr) && decide (addr ≤ 0x3BF)) || (decide (0xB03 ≤ addr) && decide (addr ≤ 0xB1F)) ||
  (decide (0xC03 ≤ addr) && decide (addr ≤ 0xC1F))

/-- `set_csr_value` on the registers that decide about privilege, with the writes of `pmpcfg2` and
`pmpcfg3`, which go past their array. -/
def setCsrValue (data : BitVec 32) (s : Priv) (addr : BitVec 12) (value : BitVec 64) :
    Except PrivStop Priv :=
  let c := s.csrs
  match addr.toNat with
  | 0x180 => if s.tvm then raiseIllegal data else .ok { s with satp := s.satp.write value }
  | 0x305 => .ok { s with csrs := { c with m := { c.m with tvec := c.m.tvec.write value } } }
  | 0x105 => .ok { s with csrs := { c with s := { c.s with tvec := c.s.tvec.write value } } }
  | 0x005 => .ok { s with csrs := { c with u := { c.u with tvec := c.u.tvec.write value } } }
  | 0x341 => .ok { s with csrs := { c with m := { c.m with
      epc := writeMasked c.m.epc value pcAlignmentMask } } }
  | 0x141 => .ok { s with csrs := { c with s := { c.s with
      epc := writeMasked c.s.epc value pcAlignmentMask } } }
  | 0x041 => .ok { s with csrs := { c with u := { c.u with
      epc := writeMasked c.u.epc value pcAlignmentMask } } }
  | 0x300 => .ok (s.writeMstatus value mstatusWriteMask)
  | 0x100 => .ok (s.writeMstatus value sstatusWriteMask)
  | 0x000 => .ok (s.writeMstatus value ustatusWriteMask)
  | 0x344 => .ok { s with csrs := { c with mip := writeMasked c.mip value mipWriteMask } }
  | 0x144 => .ok { s with csrs := { c with mip := writeMasked c.mip value sipMask } }
  | 0x044 => .ok { s with csrs := { c with mip := writeMasked c.mip value uipMask } }
  | 0x304 => .ok { s with csrs := { c with mie := c.mie.write value mieMask (by decide) } }
  | 0x104 => .ok { s with csrs := { c with mie := c.mie.write value sieMask (by decide) } }
  | 0x004 => .ok { s with csrs := { c with mie := c.mie.write value uieMask (by decide) } }
  | 0x303 => .ok { s with csrs := { c with mideleg := writeMasked c.mideleg value mieMask } }
  | 0x302 => .ok { s with csrs := { c with medeleg := writeMasked c.medeleg value medelegMask } }
  | 0x103 => .ok { s with csrs := { c with sideleg := writeMasked c.sideleg value mieMask } }
  | 0x102 => .ok { s with csrs := { c with sedeleg := writeMasked c.sedeleg value sedelegMask } }
  -- `default_write64`
  | 0x342 => .ok { s with csrs := { c with m := { c.m with cause := .ofReg value } } }
  | 0x142 => .ok { s with csrs := { c with s := { c.s with cause := .ofReg value } } }
  | 0x042 => .ok { s with csrs := { c with u := { c.u with cause := .ofReg value } } }
  | 0x343 => .ok { s with csrs := { c with m := { c.m with tval := value } } }
  | 0x143 => .ok { s with csrs := { c with s := { c.s with tval := value } } }
  | 0x043 => .ok { s with csrs := { c with u := { c.u with tval := value } } }
  -- `pmpcfg2` and `pmpcfg3` are mapped past the end of the array `pmpcfg`, onto the next members
  | 0x3A2 => .ok { s with csrs := { c with sedeleg := value } }
  | 0x3A3 => .ok { s with csrs := { c with sideleg := value } }
  | _ => if isOtherCsr addr then .ok s else raiseIllegal data

/-- `is_invalid_csr_access`, for registers that do not belong to an optional unit. -/
def isInvalidCsrAccess (s : Priv) (addr : BitVec 12) (isWrite : Bool) : Bool :=
  let csrPrv := (addr.toNat / 0x100) % 4
  let csrReadonly := addr.toNat / 0x400 == 3
  (isWrite && csrReadonly) || decide (s.prv.val < csrPrv)

/-! ### Address translation -/

/-- The encodings of `satp.mode` that `decode_vm_info` knows. -/
def isKnownSatpMode (mode : BitVec 4) : Bool := [1, 8, 9, 10, 11].contains mode

/-- What `translate_virtual_to_physical_addr` asserts and `decode_vm_info` throws; `tlbHit` says whether
the buffer has an entry for the page. -/
def translateAborts (s : Priv) (type : MemoryAccessType) (tlbHit : Bool) : Bool :=
  if s.satp.mode = 0 then false
  else
    let mode := if type ≠ .fetch ∧ s.csrs.mstatus.mprv then s.csrs.mstatus.mpp else s.prv
    if mode = .machine then false
    else if mode ≠ .user ∧ mode ≠ .supervisor then true
    else !tlbHit && !isKnownSatpMode s.satp.mode

end Priv

/-! ### Instructions -/

/-- The instructions: `CSRRW` and its variants call `set_csr_value` with a value or do not call it, and
every other instruction completes or traps. -/
inductive PrivInstr
  | uret
  | sret
  | mret
  | ecall
  | csr (addr : BitVec 12) (value : Option (BitVec 64))
  | other (t : Option SimulationTrap)
  deriving DecidableEq, Repr

namespace Priv

/-- `return_from_trap_handler`: the mode, the interrupt enable bits and the program counter from before the
trap. -/
def returnFromTrapHandler (s : Priv) (mode : PrivilegeLevel) : Priv :=
  let r := s.csrs.returnFromTrapHandler mode
  { s with prv := r.1, csrs := r.2.1, pc := r.2.2 }

/-- The cases of `exec_steps`; `data` is the word of the instruction and `next` the address that it
would leave in `pc` without a trap. -/
def exec (data : BitVec 32) (next : BitVec 64) (s : Priv) : PrivInstr → Except PrivStop Priv
  | .uret => .ok (s.returnFromTrapHandler .user)
  | .sret =>
    if s.prv = .supervisor ∧ s.tsr then raiseIllegal data
    else .ok (s.returnFromTrapHandler .supervisor)
  | .mret => .ok (s.returnFromTrapHandler .machine)
  | .ecall =>
    match s.prv with
    | .machine => .error (.trap ⟨.ecallMMode, s.pc⟩)
    | .supervisor => .error (.trap ⟨.ecallSMode, s.pc⟩)
    | .user => .error (.trap ⟨.ecallUMode, s.pc⟩)
    | .hypervisor => .error .abort
  | .csr addr value =>
    if s.isInvalidCsrAccess addr value.isSome then raiseIllegal data
    else
      match value with
      | none => .ok { s with pc := next }
      | some v => (s.setCsrValue data addr v).map fun s' => { s' with pc := next }
  | .other none => .ok { s with pc := next }
  | .other (some t) => .error (.trap t)

/-- `handle_trap`; `prepare_trap` asserts that a trap that is delegated to user mode comes from there. -/
def handleTrap (s : Priv) (t : SimulationTrap) : Option Priv :=
  let r := s.csrs.handleTrap s.prv t s.pc
  if r.1 = .user ∧ s.prv ≠ .user then none
  else some { s with prv := r.1, csrs := r.2.1, pc := r.2.2 }

/-- `handle_interrupt`: the hart enters the handler of a pending interrupt, if one is to be taken in its
mode. -/
def handleInterrupt (s : Priv) : Priv :=
  match s.csrs.handleInterrupt s.prv s.pc with
  | none => s
  | some r => { s with prv := r.1, csrs := r.2.1, pc := r.2.2 }

end Priv

/-! ### Runs -/

/-- What happens to a hart: an instruction, an access to memory on its behalf, `handle_interrupt` of the
loop, and a change of `mip` from outside. -/
inductive PrivEvent
  | instr (data : BitVec 32) (i : PrivInstr) (next : BitVec 64)
  | access (type : MemoryAccessType) (tlbHit : Bool)
  | interrupt
  | irq (mip : BitVec 64)
  deriving DecidableEq, Repr

/-- How a step ends: in order, by a trap that has been handled, or by a failed assertion. -/
inductive PrivOut
  | completed
  | trapped (t : SimulationTrap)
  | aborted
  deriving DecidableEq, Repr

/-- One step: an instruction, which completes, traps or aborts the program, or something from outside the
hart. -/
def Priv.step (s : Priv) : PrivEvent → PrivOut × Priv
  | .instr data i next =>
    match s.exec data next i with
    | .ok s' => (.completed, s')
    | .error (.trap t) =>
      match s.handleTrap t with
      | some s' => (.trapped t, s')
      | none => (.aborted, s)
    | .error .abort => (.aborted, s)
  | .access type tlbHit => (if s.translateAborts type tlbHit then .aborted else .completed, s)
  | .interrupt => (.completed, s.handleInterrupt)
  | .irq mip => (.completed, { s with csrs := { s.csrs with mip := mip } })

end RiscvVp
