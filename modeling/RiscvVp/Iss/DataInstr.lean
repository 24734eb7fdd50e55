import RiscvVp.Iss.CounterCsr
import RiscvVp.Iss.CsrTable
import RiscvVp.Mem.LsCache

/-!
# Instructions that access memory or CSRs

The cases of `exec_steps` for loads and stores of integer and floating-point registers, for the A
extension and for the CSR instructions (`rv64/iss_ctemplate.cpp`, `execute_amo_w` and `execute_amo_d` of
`rv64/iss_ctemplate.h`), statement by statement: what is written before an exception is thrown stays
written.  The floating-point registers are not part of the model; the value of a store comes from
outside.
-/

namespace RiscvVp

/-! ### Operands -/

/-- The width of an instruction of the A extension. -/
inductive AmoWidth
  | word
  | double
  deriving DecidableEq, Repr

namespace AmoWidth

/-- The width of the access. -/
def width : AmoWidth → Width
  | .word => .word
  | .double => .double

/-- What is loaded, as a register. -/
def loadOp : AmoWidth → LoadOp
  | .word => .word
  | .double => .double

/-- The operation, on `int32_t` or `int64_t`. -/
def operation (n : AmoWidth) (op : AmoOp) (data rs2 : BitVec 64) : BitVec 64 :=
  match n with
  | .word => (op.operation (data.setWidth 32) (rs2.setWidth 32)).setWidth 64
  | .double => op.operation data rs2

end AmoWidth

/-- The operand of a CSR instruction. -/
inductive CsrOperand
  | rs1 (r : BitVec 5)
  | zimm (imm : BitVec 5)
  deriving DecidableEq, Repr

/-- The instructions that access data memory or CSRs, with the operands that they are decoded to. -/
inductive DataInstr
  /-- `LB` to `LWU` -/
  | load (op : LoadOp) (rd rs1 : BitVec 5) (imm : BitVec 64)
  /-- `SB` to `SD` -/
  | store (n : Width) (rs1 rs2 : BitVec 5) (imm : BitVec 64)
  /-- `FLH`, `FLW` and `FLD` -/
  | fload (op : LoadOp) (rs1 : BitVec 5) (imm : BitVec 64)
  /-- `FSH`, `FSW` and `FSD` -/
  | fstore (n : Width) (rs1 : BitVec 5) (imm value : BitVec 64)
  | lr (n : AmoWidth) (rd rs1 : BitVec 5)
  | sc (n : AmoWidth) (rd rs1 rs2 : BitVec 5)
  | amo (n : AmoWidth) (op : AmoOp) (rd rs1 rs2 : BitVec 5)
  /-- `CSRRW` to `CSRRCI` -/
  | csr (op : CsrOp) (addr : BitVec 12) (rd : BitVec 5) (operand : CsrOperand)
  deriving DecidableEq, Repr

/-! ### The state -/

/-- The registers as traps and address translation see them.  `set_csr_value` lets no other mode of
`satp` stay than the three. -/
def CsrFile.csrs (h : CsrFile) : Csrs :=
  let bit (i : ℕ) : Bool := (h.reg .mstatus).getLsbD i
  let tvec (m : CsrMember) : Tvec := ⟨(h.reg m).extractLsb' 0 2, (h.reg m).extractLsb' 2 62⟩
  { mstatus :=
      { uie := bit 0
        sie := bit 1
        mie := bit 3
        upie := bit 4
        spie := bit 5
        mpie := bit 7
        spp := bit 8
        mpp := .ofBits (bit 12) (bit 11)
        mprv := bit 17
        sum := bit 18
        mxr := bit 19 }
    m := ⟨h.reg .mepc, .ofReg (h.reg .mcause), h.reg .mtval, tvec .mtvec⟩
    s := ⟨h.reg .sepc, .ofReg (h.reg .scause), h.reg .stval, tvec .stvec⟩
    u := ⟨h.reg .uepc, .ofReg (h.reg .ucause), h.reg .utval, tvec .utvec⟩
    medeleg := h.reg .medeleg
    sedeleg := h.reg .sedeleg
    mie := ⟨h.reg .mie &&& mieMask, by rw [BitVec.and_assoc]; simp⟩
    mip := h.reg .mip
    mideleg := h.reg .mideleg
    sideleg := h.reg .sideleg
    satp :=
      { ppn := (h.reg .satp).extractLsb' 0 44
        asid := (h.reg .satp).extractLsb' 44 16
        mode := match ((h.reg .satp).extractLsb' 60 4).toNat with
          | 0 => .bare
          | 9 => .sv48
          | _ => .sv39 } }

/-- A hart with what these instructions read and write. -/
structure DataHart (δ : Type) where
  regs : BitVec 5 → BitVec 64
  world : World δ
  tlb : Mmu.Tlb
  dmi : DmiRanges
  lscache : LsCache
  lrAddr : BitVec 64
  lrScCounter : ℕ
  csrFile : CsrFile

namespace DataHart

variable {δ : Type}

/-- The part that data accesses work on. -/
def core (h : DataHart δ) : Core δ :=
  ⟨h.world, h.csrFile.csrs, h.csrFile.prv, h.tlb, h.dmi, h.lscache⟩

/-- The hart after a data access. -/
def setCore (h : DataHart δ) (c : Core δ) : DataHart δ :=
  { h with world := c.world, tlb := c.tlb, dmi := c.dmi, lscache := c.lscache }

/-- `regs[rd] = value`, also for register zero, which is reset afterwards. -/
def setReg (h : DataHart δ) (rd : BitVec 5) (value : BitVec 64) : DataHart δ :=
  { h with regs := Function.update h.regs rd value }

/-- `reset_reg_zero`, as the instructions call it after they have written their result. -/
def resetRegZero (h : DataHart δ) : DataHart δ := h.setReg 0 0

/-- `bus_lock->lock(hart)`: the lock is taken at once if it is free or held by the hart itself. -/
def lock (h : DataHart δ) (hart : ℕ) : DataHart δ :=
  { h with world := { h.world with busLock := h.world.busLock.lock hart } }

/-- `fp_set_dirty`: the field `FS` and the summary bit of `mstatus` are set. -/
def fpSetDirty (h : DataHart δ) : DataHart δ :=
  { h with csrFile := h.csrFile.write .mstatus 0x8000000000006000 0x8000000000006000 }

/-! ### The cases -/

/-- What has happened: the instruction has completed, or thrown an exception. -/
abbrev Outcome (δ : Type) := Except SimulationTrap Unit × DataHart δ

/-- `trap_check_addr_alignment`, and what follows it if the address is aligned to the width. -/
def checkAddrAlignment (h : DataHart δ) (n : Width) (isLoad : Bool) (addr : BitVec 64)
    (k : Outcome δ) : Outcome δ :=
  if addr.toNat % n.bytes ≠ 0 then
    (.error ⟨if isLoad then .loadAddrMisaligned else .storeAmoAddrMisaligned, addr⟩, h)
  else k

/-- A call of a data access, and what follows it. -/
def access {α : Type} (h : DataHart δ) (r : Except SimulationTrap α × Core δ)
    (k : α → DataHart δ → Outcome δ) : Outcome δ :=
  match r with
  | (.ok a, c) => k a (h.setCore c)
  | (.error t, c) => (.error t, h.setCore c)

variable (bus : Bus δ) (hart : ℕ) (ls : LsCacheIf δ)

/-- `LB` to `LWU`: the address is checked, the value is loaded, and then the register is written. -/
def execLoad (h : DataHart δ) (op : LoadOp) (rd rs1 : BitVec 5) (imm : BitVec 64) : Outcome δ :=
  let addr := h.regs rs1 + imm
  h.checkAddrAlignment op.width true addr <|
    h.access (ls.load h.core op addr) fun v h => (.ok (), (h.setReg rd v).resetRegZero)

/-- `SB` to `SD`: the address is checked, and then the register is stored. -/
def execStore (h : DataHart δ) (n : Width) (rs1 rs2 : BitVec 5) (imm : BitVec 64) : Outcome δ :=
  let addr := h.regs rs1 + imm
  h.checkAddrAlignment n false addr <|
    h.access (ls.store h.core n addr (h.regs rs2)) fun _ h => (.ok (), h)

/-- `fp_prepare_instr`, and what follows it if the floating-point unit is switched on. -/
def fpPrepareInstr (h : DataHart δ) (k : Outcome δ) : Outcome δ :=
  if (h.csrFile.reg .mstatus).extractLsb' 13 2 = 0 then (h.csrFile.raiseIllegal, h) else k

/-- `FLH`, `FLW` and `FLD`: the value goes to a register that is not part of the model, which makes the unit
dirty. -/
def execFload (h : DataHart δ) (op : LoadOp) (rs1 : BitVec 5) (imm : BitVec 64) : Outcome δ :=
  h.fpPrepareInstr <|
    let addr := h.regs rs1 + imm
    h.checkAddrAlignment op.width true addr <|
      h.access (ls.load h.core op addr) fun _ h => (.ok (), h.fpSetDirty)

/-- `FSH`, `FSW` and `FSD`: the value that is stored comes from outside the model. -/
def execFstore (h : DataHart δ) (n : Width) (rs1 : BitVec 5) (imm value : BitVec 64) : Outcome δ :=
  h.fpPrepareInstr <|
    let addr := h.regs rs1 + imm
    h.checkAddrAlignment n false addr <|
      h.access (ls.store h.core n addr value) fun _ h => (.ok (), h.fpSetDirty)

/-- `LR_W` and `LR_D`, with `_atomic_load_reserved_data`: the lock is taken before the load is tried. -/
def execLr (h : DataHart δ) (n : AmoWidth) (rd rs1 : BitVec 5) : Outcome δ :=
  let addr := h.regs rs1
  h.checkAddrAlignment n.width true addr <|
    let h := { h.lock hart with lrAddr := addr }
    h.access (h.core.load bus hart n.loadOp addr) fun v h =>
      let h := h.setReg rd v.1
      let h := if h.lrScCounter = 0 then { h with lrScCounter := 17 } else h
      (.ok (), h.resetRegZero)

/-- `SC_W` and `SC_D`, with `_atomic_store_conditional_data`: the result is 1 before the store is
tried. -/
def execSc (h : DataHart δ) (n : AmoWidth) (rd rs1 rs2 : BitVec 5) : Outcome δ :=
  let addr := h.regs rs1
  let val := h.regs rs2
  let done (h : DataHart δ) (result : BitVec 64) : Outcome δ :=
    (.ok (), { h.setReg rd result with lrScCounter := 0 }.resetRegZero)
  h.checkAddrAlignment n.width false addr <|
    let h := h.setReg rd 1
    if h.world.busLock.isLockedBy hart then
      if addr = h.lrAddr then
        h.access (h.core.storeData bus hart addr n.width val) fun _ h => done h 0
      else done { h with world := h.world.unlock hart } 1
    else done h 1

/-- The reason under which the exception of an atomic load is thrown again. -/
def amoReason (t : SimulationTrap) : SimulationTrap :=
  if t.reason = .loadAccessFault then { t with reason := .storeAmoAccessFault } else t

/-- `execute_amo_w` and `execute_amo_d`, with `_atomic_load_data` and `_atomic_store_data`. -/
def execAmo (h : DataHart δ) (n : AmoWidth) (op : AmoOp) (rd rs1 rs2 : BitVec 5) : Outcome δ :=
  let addr := h.regs rs1
  h.checkAddrAlignment n.width false addr <|
    let h := h.lock hart
    match h.core.load bus hart n.loadOp addr with
    | (.error t, c) => (.error (amoReason t), h.setCore c)
    | (.ok (data, _), c) =>
      let h := h.setCore c
      let val := n.operation op data (h.regs rs2)
      h.access (h.core.storeData bus hart addr n.width val) fun _ h =>
        (.ok (), if rd ≠ 0 then h.setReg rd data else h)

/-- The instruction with the value of its operand. -/
def csrInstr (h : DataHart δ) (op : CsrOp) (rd : BitVec 5) (operand : CsrOperand) : CsrInstr :=
  match operand with
  | .rs1 r => ⟨op, rd, h.regs r, r == 0⟩
  | .zimm imm => ⟨op, rd, imm.setWidth 64, imm == 0⟩

/-- `set_csr_value` at the end of a CSR instruction. -/
def csrWrite (h : DataHart δ) (addr : BitVec 12) (value : BitVec 64) : Outcome δ :=
  match h.csrFile.setCsrValue addr value with
  | .ok f => (.ok (), { h with csrFile := f })
  | .error t => (.error t, h)

/-- `CSRRW` to `CSRRCI`.  `commit_instructions` shows in no register but the counter. -/
def execCsr (h : DataHart δ) (op : CsrOp) (addr : BitVec 12) (rd : BitVec 5)
    (operand : CsrOperand) : Outcome δ :=
  let i := h.csrInstr op rd operand
  match h.csrFile.isInvalidCsrAccess addr i.writes with
  | .error t => (.error t, h)
  | .ok true => (h.csrFile.raiseIllegal, h)
  | .ok false =>
    if i.reads then
      match h.csrFile.getCsrValue addr with
      | .error t => (.error t, h)
      | .ok (csrVal, f) =>
        let h := { h with csrFile := f }
        let h := if rd ≠ 0 then h.setReg rd csrVal else h
        if i.writes then h.csrWrite addr (i.newValue csrVal) else (.ok (), h)
    else h.csrWrite addr (i.newValue 0)

/-- One instruction, up to its end or the exception that it throws. -/
def exec (h : DataHart δ) : DataInstr → Outcome δ
  | .load op rd rs1 imm => h.execLoad ls op rd rs1 imm
  | .store n rs1 rs2 imm => h.execStore ls n rs1 rs2 imm
  | .fload op rs1 imm => h.execFload ls op rs1 imm
  | .fstore n rs1 imm value => h.execFstore ls n rs1 imm value
  | .lr n rd rs1 => h.execLr bus hart n rd rs1
  | .sc n rd rs1 rs2 => h.execSc bus hart n rd rs1 rs2
  | .amo n op rd rs1 rs2 => h.execAmo bus hart n op rd rs1 rs2
  | .csr op addr rd operand => h.execCsr op addr rd operand

/-- `release_lr_sc_reservation`, which is all that `handle_trap` does to registers and memory. -/
def releaseLrScReservation (h : DataHart δ) : DataHart δ :=
  { h with lrScCounter := 0, world := h.world.unlock hart }

/-- One instruction: the trap that is taken, and the hart when it is over or the handler starts. -/
def step (h : DataHart δ) (i : DataInstr) : Option SimulationTrap × DataHart δ :=
  match h.exec bus hart ls i with
  | (.ok (), h) => (none, h)
  | (.error t, h) => (some t, h.releaseLrScReservation hart)

end DataHart

end RiscvVp
