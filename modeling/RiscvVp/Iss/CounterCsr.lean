import RiscvVp.Iss.ExecSteps

/-!
# The counters and the instructions that read and write them

`mcycle`, `minstret` and `mcountinhibit` of the RV64 ISS over the interpreter loop of `Iss`:
`get_csr_value` and `set_csr_value` for these registers, and the CSR instructions, which decide
whether the local instruction counter is committed before them.

`Expected` is not in the source.  It is what the counters should show, kept from what can be seen of
a run: every completed or trapped instruction counts one, and every instruction that is dispatched
takes the time that the table of the instruction set (`Isa.instrTime`) gives for its operation.
-/

namespace RiscvVp

/-- The registers that are modelled here. -/
inductive CounterCsr
  | mcycle
  | minstret
  | mcountinhibit
  deriving DecidableEq, Repr

/-- What a CSR instruction writes: its operand, or the old value with the bits of the operand set
or cleared. -/
inductive CsrOp
  | rw
  | rs
  | rc
  deriving DecidableEq, Repr

/-- `CSRRW`, `CSRRS`, `CSRRC` and their immediate forms: the operand is the value of `rs1`, or
`zimm`; it is absent if `rs1` is `x0`, or `zimm` is 0. -/
structure CsrInstr where
  op : CsrOp
  rd : BitVec 5
  operand : BitVec 64
  operandAbsent : Bool
  deriving DecidableEq, Repr

namespace CsrInstr

/-- Whether `commit_instructions` and `get_csr_value` are called: `CSRRW` and `CSRRWI` do it for a
destination only. -/
def reads (i : CsrInstr) : Bool := i.op != .rw || i.rd != 0

/-- Whether `set_csr_value` is called: always for a write, and for the others unless the operand is absent. -/
def writes (i : CsrInstr) : Bool := i.op == .rw || !i.operandAbsent

/-- What is passed to `set_csr_value`, for the value that has been read. -/
def newValue (i : CsrInstr) (csrVal : BitVec 64) : BitVec 64 :=
  match i.op with
  | .rw => i.operand
  | .rs => csrVal ||| i.operand
  | .rc => csrVal &&& ~~~i.operand

end CsrInstr

/-! ### What the counters should show -/

/-- The counters as software may expect them. -/
structure Expected where
  /-- the value last written to `minstret`, plus what has been counted since -/
  minstret : BitVec 64
  /-- the value last written to `mcycle` -/
  mcycleWritten : BitVec 64
  /-- the time counted since then, in the unit of `sc_time` -/
  time : ℕ
  deriving DecidableEq, Repr

namespace Expected

/-- What `mcycle` should show: the value written last and the clock periods since then. -/
def mcycle (x : Expected) (period : BitVec 64) : BitVec 64 :=
  x.mcycleWritten + BitVec.ofNat 64 (x.time / period.toNat)

/-- `n` instructions complete and an amount of time is taken; each counts unless it is inhibited. -/
def advance (x : Expected) (inhibitIR inhibitCY : Bool) (n : ℕ) (time : BitVec 64) : Expected :=
  { x with
    minstret := if inhibitIR then x.minstret else x.minstret + BitVec.ofNat 64 n
    time := if inhibitCY then x.time else x.time + time.toNat }

/-- A register is written. -/
def write (x : Expected) (csr : CounterCsr) (value : BitVec 64) : Expected :=
  match csr with
  | .mcycle => { x with mcycleWritten := value, time := 0 }
  | .minstret => { x with minstret := value }
  | .mcountinhibit => x

end Expected

/-! ### The registers -/

namespace Iss

variable {Op : Type}

/-- `commit_instructions`. -/
def commitInstructions (h : Iss Op) : Iss Op :=
  { h with counters := h.counters.commitInstructions }

/-- `commit_cycles`. -/
def commitCycles (h : Iss Op) : Iss Op :=
  { h with counters := h.counters.commitCycles h.dbbcache.getCycleCounterRaw }

/-- `mcountinhibit`, of which `MCOUNTINHIBIT_MASK` admits the bits `CY` and `IR`. -/
def mcountinhibit (h : Iss Op) : BitVec 64 :=
  (if h.counters.inhibitCY then 0x1 else 0) ||| (if h.counters.inhibitIR then 0x4 else 0)

/-- A jump or a taken branch whose fast quantum is used up: `ninstr++; GOTO_OP_GLOBAL_FDD()`. -/
def finalizeGlobal (h : Iss Op) : Iss Op :=
  { h with
    counters := { h.counters with ninstr := h.counters.ninstr + 1 }
    loc := .global
    watch := h.watch.complete h.lrScCounter }.settle

/-- What a step writes to `mcountinhibit`. -/
def Event.inhibit : Event → Option (Bool × Bool)
  | .setCsrValue _ inhibit => inhibit
  | _ => none

/-- How many instructions complete or trap in a step, as far as it can be seen: at `OP_END`; when
the operation has thrown and the loop is back at `OP_GLOBAL_FDD`; when the fetch has. -/
def completed (e : Event) (r : Out × Iss Op) : ℕ :=
  match e, r.1 with
  | .finish, _ => 1
  | .call _, _ => if r.2.loc = .global then 1 else 0
  | .fdd _ _, .dispatched _ => if r.2.loc = .global then 1 else 0
  | .resume _, .dispatched _ => if r.2.loc = .global then 1 else 0
  | _, _ => 0

/-- The time that the instruction set gives for a dispatched operation. -/
def labelTime (isa : Isa Op) : Label Op → BitVec 64
  | .op id => isa.instrTime id
  | .fastAbort => 0

/-- The time of the instruction that a step dispatches, if it does: a fetch that throws leaves the
loop at `OP_GLOBAL_FDD`. -/
def timeTaken (isa : Isa Op) (r : Out × Iss Op) : BitVec 64 :=
  match r.1 with
  | .dispatched _ => if r.2.loc = .operation then labelTime isa r.2.driver.label else 0
  | _ => 0

end Iss

/-- The ISS with the register `csrs.cycle` and what its counters should show. -/
structure CounterHart (Op : Type) where
  iss : Iss Op
  cycle : BitVec 64
  expected : Expected

/-- What happens to the ISS and its counters. -/
inductive CounterHart.Event
  /-- anything but the execution of a CSR instruction on these registers -/
  | iss (e : Iss.Event)
  /-- the end of a jump when the fast quantum is used up -/
  | finalizeGlobal
  /-- a CSR instruction that may access the register -/
  | csr (csr : CounterCsr) (i : CsrInstr)

namespace CounterHart

variable {Op : Type}

/-- `get_csr_value`; `prop_clock_cycle_period` is `period`. -/
def getCsrValue (period : BitVec 64) (h : CounterHart Op) :
    CounterCsr → BitVec 64 × CounterHart Op
  | .mcycle =>
    let iss := h.iss.commitCycles
    let cycle := iss.counters.cycleCounter / period
    (cycle, { h with iss, cycle })
  | .minstret => (h.iss.counters.instret, h)
  | .mcountinhibit => (h.iss.mcountinhibit, h)

/-- `set_csr_value`.  `mcycle` and `minstret` have no case of their own, and are written by
`default_write64`. -/
def setCsrValue (h : CounterHart Op) (csr : CounterCsr) (value : BitVec 64) : CounterHart Op :=
  match csr with
  | .mcycle => { h with iss := (h.iss.setCsrValue h.iss.csrs none).settle, cycle := value }
  | .minstret =>
    let iss := { h.iss with counters := { h.iss.counters with instret := value } }
    { h with iss := (iss.setCsrValue iss.csrs none).settle }
  | .mcountinhibit =>
    let inhibit := (value.getLsbD 0, value.getLsbD 2)
    { h with iss := (h.iss.setCsrValue h.iss.csrs (some inhibit)).settle }

/-- The reading half of a CSR instruction. -/
def csrRead (period : BitVec 64) (h : CounterHart Op) (csr : CounterCsr) (i : CsrInstr) :
    Option (BitVec 64) × CounterHart Op :=
  if i.reads then
    let r := { h with iss := h.iss.commitInstructions }.getCsrValue period csr
    (some r.1, r.2)
  else
    (none, h)

/-- A CSR instruction, with the value it has read. -/
def csr (period : BitVec 64) (h : CounterHart Op) (csr : CounterCsr) (i : CsrInstr) :
    Option (BitVec 64) × CounterHart Op :=
  let r := h.csrRead period csr i
  if i.writes then
    let value := i.newValue (r.1.getD 0)
    (r.1, { r.2.setCsrValue csr value with expected := r.2.expected.write csr value })
  else
    r

/-- Count `n` instructions, and the time taken. -/
def count (n : ℕ) (time : BitVec 64) (h : CounterHart Op) : CounterHart Op :=
  { h with
    expected := h.expected.advance h.iss.counters.inhibitIR h.iss.counters.inhibitCY n time }

/-- One event, with the value a CSR instruction reads. -/
def step (isa : Isa Op) (period : BitVec 64) (h : CounterHart Op) :
    Event → Option (BitVec 64) × CounterHart Op
  | .iss e =>
    let r := h.iss.step isa e
    (none, count (Iss.completed e r) (Iss.timeTaken isa r) { h with iss := r.2 })
  | .finalizeGlobal => (none, count 1 0 { h with iss := h.iss.finalizeGlobal })
  | .csr csr i => h.csr period csr i

/-- What can happen at this point.  `mcountinhibit` is written by the CSR instructions of this
module. -/
def Legal (isa : Isa Op) (h : CounterHart Op) : Event → Prop
  | .iss e => h.iss.Legal isa e ∧ e.inhibit = none
  | .finalizeGlobal => h.iss.loc = .operation ∧ h.iss.driver.phase = .between ∧
    h.iss.counters.fastQuantum < h.iss.counters.ninstr
  | .csr _ _ => h.iss.loc = .operation ∧ h.iss.driver.phase = .executing

/-- Before the first call of `exec_steps`. -/
def start (enabled : Bool) (entrypoint : BitVec 64) (mem : InstrMem 64) (csrs : Csrs)
    (fastQuantum : BitVec 64) : CounterHart Op :=
  { iss := .start enabled entrypoint mem csrs fastQuantum
    cycle := 0
    expected := ⟨0, 0, 0⟩ }

end CounterHart

end RiscvVp
