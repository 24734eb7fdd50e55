import Mathlib

/-!
# The NS16550A UART

`NS16550A_UART` keeps its eight registers in the byte array of a `RegisterRange`, and those that share an
offset in members of their own.  A read first runs `pre_read_regs`, which writes its result into the
array, and then copies the byte from there; a write copies the byte into the array and then runs
`post_write_regs`.  The fifos belong to the channel, whose other side runs between the accesses.
-/

namespace RiscvVp

/-- The registers by their offset in the range, which has eight bytes. -/
inductive UartReg
  /-- `RX_TX_DLL_REG_ADDR`, 0 -/
  | rxTxDll
  /-- `IER_DLM_REG_ADDR`, 1 -/
  | ierDlm
  /-- `IIR_FCR_REG_ADDR`, 2 -/
  | iirFcr
  /-- `LCR_REG_ADDR`, 3 -/
  | lcr
  /-- `MCR_REG_ADDR`, 4 -/
  | mcr
  /-- `LSR_REG_ADDR`, 5 -/
  | lsr
  /-- `MSR_REG_ADDR`, 6 -/
  | msr
  /-- `SCR_REG_ADDR`, 7 -/
  | scr
  deriving DecidableEq, Repr

/-- The UART and its channel: the bytes that the bus sees, the registers behind them, and both queues. -/
structure Uart where
  /-- The bytes of `mm_regs`. -/
  regs : UartReg → BitVec 8
  regIer : BitVec 8
  regFcr : BitVec 8
  regDll : BitVec 8
  regDlm : BitVec 8
  receiverTriggerLevel : ℕ
  transmitterTriggerLevel : ℕ
  rxFifo : List (BitVec 8)
  txFifo : List (BitVec 8)
  /-- `asyncEvent` has been notified. -/
  asyncEvent : Bool

namespace Uart

/-- `UART_RX_FIFO_DEPTH`: the bytes that the receiver can hold. -/
def rxFifoDepth : ℕ := 28

/-- `UART_TX_FIFO_DEPTH`: the bytes that the transmitter can hold. -/
def txFifoDepth : ℕ := 24

/-- `UART_LCR_WLEN8`: words of eight bits. -/
def lcrWlen8 : BitVec 8 := 0x03

/-- `UART_MCR_LOOP`: what is sent comes back. -/
def mcrLoop : BitVec 8 := 0x10

/-- `UART_FCR6_T_TRIGGER_MASK`: the field with the trigger level of the transmitter. -/
def fcr6TTriggerMask : BitVec 8 := 0x30

/-- The constructor: the registers and trigger levels after the start. -/
def reset : Uart where
  regs := Function.update (fun _ => 0) .lcr lcrWlen8
  regIer := 0
  regFcr := 0
  regDll := 0
  regDlm := 0
  receiverTriggerLevel := 8
  transmitterTriggerLevel := 16
  rxFifo := []
  txFifo := []
  asyncEvent := false

/-- `regs[LCR_REG_ADDR] & UART_LCR_DLAB`: the first two registers are those of the divisor. -/
def dlab (u : Uart) : Bool := u.regs .lcr &&& 0x80 ≠ 0

/-! ### The channel -/

/-- `Channel_IF::rxpull`, with bit 31 for an empty fifo. -/
def rxpull (u : Uart) : BitVec 32 × Uart :=
  match u.rxFifo with
  | [] => (1 <<< 31, u)
  | data :: rest => (data.setWidth 32, { u with rxFifo := rest })

/-- `Channel_IF::txpush`; a write to a full fifo is ignored. -/
def txpush (u : Uart) (data : BitVec 8) : Uart :=
  if u.txFifo.length ≥ txFifoDepth then u else { u with txFifo := u.txFifo ++ [data] }

/-- `Channel_IF::rxpush`, which waits while the fifo is full. -/
def rxpush (u : Uart) (data : BitVec 8) : Uart :=
  if u.rxFifo.length ≥ rxFifoDepth then u
  else { u with rxFifo := u.rxFifo ++ [data], asyncEvent := true }

/-- `Channel_IF::txpull`, which waits while the fifo is empty. -/
def txpull (u : Uart) : Uart :=
  if u.txFifo = [] then u else { u with txFifo := u.txFifo.tail, asyncEvent := true }

/-! ### Interrupts -/

/-- A receiver interrupt is enabled and there is a byte to read. -/
def rxReady (u : Uart) : Bool := u.regIer &&& 0x01 ≠ 0 ∧ u.rxFifo ≠ []

/-- A transmitter interrupt is enabled and everything is sent. -/
def txReady (u : Uart) : Bool := u.regIer &&& 0x02 ≠ 0 ∧ u.txFifo = []

/-- `interrupt`: whether the interrupt is triggered at the PLIC, once the event is notified. -/
def interrupt (u : Uart) : Bool × Uart :=
  (u.asyncEvent && (u.rxReady || u.txReady), { u with asyncEvent := false })

/-! ### Reads -/

/-- What a read of `IIR` finds. -/
def iir (u : Uart) : BitVec 8 :=
  (if u.rxReady then 0x06 else if u.txReady then 0x02 else 0x01) |||
    if u.regFcr &&& 0x01 ≠ 0 then 0xC0 else 0

/-- What a read of `LSR` finds. -/
def lsr (u : Uart) : BitVec 8 :=
  (if u.txFifo = [] then 0x60 else 0) ||| if u.rxFifo ≠ [] then 0x01 else 0

/-- The `switch` of `pre_read_regs`: the `val` it leaves.  The cases of `LCR`, `MCR` and `SCR` only print
the register. -/
def readVal (u : Uart) : UartReg → BitVec 8 × Uart
  | .rxTxDll =>
    if u.dlab then (u.regDll, u)
    else (u.rxpull.1.setWidth 8, u.rxpull.2)
  | .ierDlm => (if u.dlab then u.regDlm else u.regIer, u)
  | .iirFcr => (u.iir, u)
  | .lcr => (0, u)
  | .mcr => (0, u)
  | .lsr => (u.lsr, u)
  | .msr => (0xB0, u)
  | .scr => (0, u)

/-- `pre_read_regs`: a register is computed before it is read, and the read may take a byte from the
receiver. -/
def preReadRegs (u : Uart) (addr : UartReg) : Uart :=
  let (val, u) := u.readVal addr
  { u with regs := Function.update u.regs addr val }

/-- `RegisterRange::read` of one byte. -/
def read (u : Uart) (addr : UartReg) : BitVec 8 × Uart :=
  ((u.preReadRegs addr).regs addr, u.preReadRegs addr)

/-! ### Writes -/

/-- The receive trigger level for the bits of `UART_FCR6_R_TRIGGER_MASK`. -/
def receiverLevel (val : BitVec 8) : ℕ :=
  if val &&& 0xC0 = 0x00 then 8
  else if val &&& 0xC0 = 0x40 then 16
  else if val &&& 0xC0 = 0x80 then 24
  else 28

/-- The transmit trigger level for the bits of `UART_FCR6_T_TRIGGER_MASK`, and the value with these bits
cleared where they are invalid. -/
def transmitterLevel (val : BitVec 8) : ℕ × BitVec 8 :=
  if val &&& fcr6TTriggerMask = 0x00 then (16, val)
  else if val &&& fcr6TTriggerMask = 0x10 then (8, val)
  else if val &&& fcr6TTriggerMask = 0x20 then (24, val)
  else (16, val &&& ~~~fcr6TTriggerMask)

/-- `post_write_regs`: what the write of a register leads to, after its value has been stored. -/
def postWriteRegs (u : Uart) (val : BitVec 8) : UartReg → Uart
  | .rxTxDll => if u.dlab then { u with regDll := val } else u.txpush val
  | .ierDlm =>
    if u.dlab then { u with regDlm := val, asyncEvent := true }
    else { u with regIer := val, asyncEvent := true }
  | .iirFcr =>
    { u with
      receiverTriggerLevel := receiverLevel val
      transmitterTriggerLevel := (transmitterLevel val).1
      regFcr := (transmitterLevel val).2 }
  | .mcr =>
    if val &&& mcrLoop ≠ 0 then
      { u with regs := Function.update u.regs .mcr (u.regs .mcr &&& ~~~mcrLoop) }
    else u
  | .lcr | .lsr | .msr | .scr => u

/-- `RegisterRange::write` of one byte. -/
def write (u : Uart) (addr : UartReg) (data : BitVec 8) : Uart :=
  { u with regs := Function.update u.regs addr data }.postWriteRegs data addr

/-! ### Runs -/

/-- What happens to the UART: accesses of one byte, and what the other side of the channel and the
simulation kernel do between them. -/
inductive Event
  | read (addr : UartReg)
  | write (addr : UartReg) (data : BitVec 8)
  | rxpush (data : BitVec 8)
  | txpull
  | interrupt
  deriving DecidableEq, Repr

/-- One event; a read returns a byte. -/
def step (u : Uart) : Event → Option (BitVec 8) × Uart
  | .read addr => (some (u.read addr).1, (u.read addr).2)
  | .write addr data => (none, u.write addr data)
  | .rxpush data => (none, u.rxpush data)
  | .txpull => (none, u.txpull)
  | .interrupt => (none, u.interrupt.2)

end Uart

end RiscvVp
