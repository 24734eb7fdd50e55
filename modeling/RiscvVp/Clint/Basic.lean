import Mathlib

/-!
# The core local interrupt controllers

`CLINT` (`core/common/clint.h`) and `LWRT_CLINT` (`core/common/lwrt_clint.h`): the registers `mtime`,
`mtimecmp` and `msip`, the thread `run`, and the timer and software interrupts of the harts.

The two have the same registers (`ClintRegs`).  Ranges are arrays of 32-bit words, since accesses must be
aligned to four bytes; `mtimecmp` has two words for each hart.  An access that leaves its range fails an
assertion: there is no next state.  Times of SystemC are 64-bit numbers in units of the time resolution,
and wrap around.
-/

namespace RiscvVp

/-- What the controllers are built with: the number of harts, and the delay that `transport` adds. -/
structure ClintConfig where
  numberOfCores : ℕ
  accessDelay : BitVec 64
  cores_pos : 0 < numberOfCores
  cores_lt : numberOfCores < 4096

theorem ClintConfig.two_cores_pos : 0 < 2 := by decide

theorem ClintConfig.two_cores_lt : 2 < 4096 := by decide

/-- The registers, and the interrupts that harts have pending. -/
structure ClintRegs where
  mtime : BitVec 64
  mtimecmpWords : ℕ → BitVec 32
  msip : ℕ → BitVec 32
  timer : ℕ → Bool
  software : ℕ → Bool

namespace ClintRegs

variable (cfg : ClintConfig) (r : ClintRegs)

/-- `mtimecmp[i]`: two words of the register range, the lower one first. -/
def mtimecmp (i : ℕ) : BitVec 64 := r.mtimecmpWords (2 * i + 1) ++ r.mtimecmpWords (2 * i)

/-- `memcpy` of whole words into a range. -/
def memcpy (mem : ℕ → BitVec 32) (idx : ℕ) (data : List (BitVec 32)) : ℕ → BitVec 32 := fun i =>
  if idx ≤ i then data.getD (i - idx) (mem i) else mem i

/-- `cmp > 0 && mtime >= cmp`. -/
def expired (i : ℕ) : Bool := decide (0 < r.mtimecmp i) && decide (r.mtimecmp i ≤ r.mtime)

/-- `trigger_timer_interrupt` and `clear_timer_interrupt` of a hart. -/
def setTimer (i : ℕ) (on : Bool) : ClintRegs := { r with timer := Function.update r.timer i on }

/-- `update_and_get_mtime`, for what the clock shows. -/
def updateMtime (now : BitVec 64) : ClintRegs := if r.mtime < now then { r with mtime := now } else r

/-- A write to `mtimecmp`, without the callback; the address is the index of a word. -/
def writeMtimecmp (idx : ℕ) (data : List (BitVec 32)) : Option ClintRegs :=
  if idx + data.length ≤ 2 * cfg.numberOfCores then
    some { r with mtimecmpWords := memcpy r.mtimecmpWords idx data }
  else none

/-- A write to `msip`, with `post_write_msip`. -/
def writeMsip (idx : ℕ) (data : List (BitVec 32)) : Option ClintRegs :=
  if idx + data.length ≤ cfg.numberOfCores then
    let msip := memcpy r.msip idx data
    let word := msip idx &&& 0x1
    some { r with
      msip := Function.update msip idx word
      software := Function.update r.software idx (word != 0) }
  else none

/-- After the constructors. -/
def start : ClintRegs := ⟨0, fun _ => 0, fun _ => 0, fun _ => false, fun _ => false⟩

end ClintRegs

/-! ### The controller that follows the simulation -/

/-- `CLINT`: `scaler` is the number of units of time in a microsecond.  Of the notifications of
`irq_event` the earliest is outstanding. -/
structure Clint where
  regs : ClintRegs
  irqEvent : Option (BitVec 64)

/-- What happens to the controller at a time of the simulation. -/
inductive ClintOp
  /-- an MMIO read of `mtime`, with the local delay of the initiator -/
  | readMtime (delay : BitVec 64)
  | updateAndGetMtime
  | writeMtimecmp (idx : ℕ) (data : List (BitVec 32)) (delay : BitVec 64)
  | writeMsip (idx : ℕ) (data : List (BitVec 32))
  /-- a wake-up of `run` -/
  | run
  deriving DecidableEq, Repr

/-- An operation and the time of the simulation at which it happens. -/
structure ClintEvent where
  time : BitVec 64
  op : ClintOp
  deriving DecidableEq, Repr

/-- What an operation gives: the value of `mtime` that is returned, and the calls of
`irq_event.notify` in `run`, with the hart and the delay. -/
structure ClintOut where
  mtime : Option (BitVec 64)
  notified : List (ℕ × BitVec 64)
  deriving DecidableEq, Repr

namespace Clint

variable (cfg : ClintConfig) (scaler : BitVec 64)

/-- `irq_event.notify(delay)`: the time of the notification is a sum of 64 bits, so that a large delay gives
one that has passed. -/
def notify (c : Clint) (now delay : BitVec 64) : Clint :=
  let at' := now + delay
  { c with irqEvent := some (match c.irqEvent with | some t => if t ≤ at' then t else at' | none => at') }

/-- One round of the loop of `run`. -/
def runHart (now : BitVec 64) (c : Clint × List (ℕ × BitVec 64)) (i : ℕ) :
    Clint × List (ℕ × BitVec 64) :=
  let cmp := c.1.regs.mtimecmp i
  if c.1.regs.expired i then ({ c.1 with regs := c.1.regs.setTimer i true }, c.2)
  else
    let cleared := { c.1 with regs := c.1.regs.setTimer i false }
    if 0 < cmp ∧ cmp < BitVec.allOnes 64 then
      let time := c.1.regs.mtime * scaler
      let goal := cmp * scaler
      (cleared.notify now (goal - time), c.2 ++ [(i, goal - time)])
    else (cleared, c.2)

/-- `run`, after it has woken up. -/
def run (c : Clint) (now : BitVec 64) : Clint × List (ℕ × BitVec 64) :=
  let c := { c with regs := c.regs.updateMtime (now / scaler), irqEvent := none }
  (List.range cfg.numberOfCores).foldl (runHart scaler now) (c, [])

/-- One operation; none if the simulation ends. -/
def exec (c : Clint) (e : ClintEvent) : Option (ClintOut × Clint) :=
  match e.op with
  | .readMtime delay =>
    -- `pre_read_mtime`
    let now := e.time + (delay + cfg.accessDelay)
    let c := { c with regs := { c.regs with mtime := now / scaler } }
    some (⟨some c.regs.mtime, []⟩, c)
  | .updateAndGetMtime =>
    let c := { c with regs := c.regs.updateMtime (e.time / scaler) }
    some (⟨some c.regs.mtime, []⟩, c)
  | .writeMtimecmp idx data delay =>
    (c.regs.writeMtimecmp cfg idx data).map fun r =>
      (⟨none, []⟩, { c with regs := r }.notify e.time (delay + cfg.accessDelay))
  | .writeMsip idx data =>
    (c.regs.writeMsip cfg idx data).map fun r => (⟨none, []⟩, { c with regs := r })
  | .run =>
    match c.irqEvent with
    | some t =>
      if t ≤ e.time then
        let r := run cfg scaler c e.time
        some (⟨none, r.2⟩, r.1)
      else some (⟨none, []⟩, c)
    | none => some (⟨none, []⟩, c)

/-- One step; a controller that has ended stays as it is. -/
def step (c : Clint) (e : ClintEvent) : ClintOut × Clint :=
  (c.exec cfg scaler e).getD (⟨none, []⟩, c)

/-- After the constructor. -/
def start : Clint := ⟨.start, none⟩

end Clint

/-! ### The controller that follows the host -/

/-- An operation of `LWRT_CLINT`; `run` polls. -/
inductive LwrtOp
  | readMtime (delay : BitVec 64)
  | updateAndGetMtime
  | writeMtimecmp (idx : ℕ) (data : List (BitVec 32))
  | writeMsip (idx : ℕ) (data : List (BitVec 32))
  | poll
  deriving DecidableEq, Repr

/-- An operation, and what `get_time` answers meanwhile: the microseconds that have passed on the
host. -/
structure LwrtEvent where
  host : BitVec 64
  op : LwrtOp
  deriving DecidableEq, Repr

/-- What an operation gives: the value of `mtime` that is returned, and the harts whose timer interrupt
is triggered. -/
structure LwrtOut where
  mtime : Option (BitVec 64)
  triggered : List ℕ
  deriving DecidableEq, Repr

namespace LwrtClint

variable (cfg : ClintConfig)

/-- One round of the loop of `run`. -/
def pollHart (r : ClintRegs × List ℕ) (i : ℕ) : ClintRegs × List ℕ :=
  if r.1.expired i then (r.1.setTimer i true, r.2 ++ [i]) else r

/-- One operation; none if the simulation ends. -/
def exec (r : ClintRegs) (e : LwrtEvent) : Option (LwrtOut × ClintRegs) :=
  match e.op with
  | .readMtime delay =>
    -- `pre_read_mtime` adds the delay in units of the time resolution
    let now := e.host + (delay + cfg.accessDelay)
    some (⟨some now, []⟩, { r with mtime := now })
  | .updateAndGetMtime =>
    let r := r.updateMtime e.host
    some (⟨some r.mtime, []⟩, r)
  | .writeMtimecmp idx data =>
    (r.writeMtimecmp cfg idx data).map fun r =>
      -- `post_write_mtimecmp`; two words are a hart's
      let i := idx / 2
      if r.expired i then (⟨none, [i]⟩, r.setTimer i true) else (⟨none, []⟩, r.setTimer i false)
  | .writeMsip idx data => (r.writeMsip cfg idx data).map fun r => (⟨none, []⟩, r)
  | .poll =>
    let r := (List.range cfg.numberOfCores).foldl pollHart (r.updateMtime e.host, [])
    some (⟨none, r.2⟩, r.1)

/-- One step; a controller that has ended stays as it is. -/
def step (r : ClintRegs) (e : LwrtEvent) : LwrtOut × ClintRegs :=
  (exec cfg r e).getD (⟨none, []⟩, r)

end LwrtClint

end RiscvVp
