import RiscvVp.DbbCache.Driver
import RiscvVp.Iss.Csr
import Mathlib

/-!
# The interpreter loop

`ISS_CT::exec_steps` of `rv64/iss_ctemplate.cpp` with what calls it (`run`, `run_step`) and what
reaches into it from outside: interrupts, the debugger, the trace switch.

SystemC is cooperative, so other modules and harts run only where the ISS waits: in
`quantum_keeper.sync()`, inside a memory access of an instruction, inside a fetch, and while
`exec_steps` is not running.  The loop is therefore cut at these points (`Loc`), and a step of the
machine (`Iss.step`) takes it from one to the next.  Whether the quantum is used up is an input of
the step.

The field `watch` is not in the source.  It records what the loop should be judged by: how many
instructions have completed since a request for the slow path that has not been served, and the
like.  Nothing reads it.
-/

namespace RiscvVp

/-- `CoreExecStatus`: what the hart is doing, as the debugger sees it. -/
inductive CoreExecStatus
  | runnable
  | hitBreakpoint
  | terminated
  deriving DecidableEq, Repr

/-- Where `exec_steps` is, between two steps of the model. -/
inductive Loc
  /-- not running -/
  | idle
  /-- at `OP_GLOBAL_FDD` -/
  | global
  /-- in `quantum_keeper.sync()` of the slow path -/
  | slowSync
  /-- in `quantum_keeper.sync()` of the medium path -/
  | medSync
  /-- in the body of an operation -/
  | operation
  /-- an `assert` has failed -/
  | aborted
  deriving DecidableEq, Repr

/-- The interrupts that other modules raise and clear. -/
inductive Irq
  | external (level : PrivilegeLevel)
  | timer
  | software
  deriving DecidableEq, Repr

/-- The bit of `mip` that `trigger_*_interrupt` sets and `clear_*_interrupt` clears. -/
def Irq.mip : Irq → BitVec 64
  | .external .user => 0x100
  | .external .supervisor => 0x200
  | .external .hypervisor => 0
  | .external .machine => 0x800
  | .timer => 0x80
  | .software => 0x8

/-! ### Counters -/

/-- The counters that `exec_steps` keeps locally and commits: `ninstr` is its local variable,
`fastQuantum` its constant `fast_quantum_ins_granularity`. -/
structure Counters where
  ninstr : BitVec 64
  ninstrLast : BitVec 64
  instret : BitVec 64
  cycleCounterRawLast : BitVec 64
  cycleCounter : BitVec 64
  inhibitIR : Bool
  inhibitCY : Bool
  fastQuantum : BitVec 64
  deriving DecidableEq, Repr

namespace Counters

/-- `commit_instructions`: the instructions since the last commit are added to `minstret`, unless it is
inhibited. -/
def commitInstructions (c : Counters) : Counters :=
  { c with
    ninstrLast := c.ninstr
    instret := if c.inhibitIR then c.instret else c.instret + (c.ninstr - c.ninstrLast) }

/-- `commit_cycles`, for the present `get_cycle_counter_raw()`. -/
def commitCycles (c : Counters) (raw : BitVec 64) : Counters :=
  { c with
    cycleCounterRawLast := raw
    cycleCounter :=
      if c.inhibitCY then c.cycleCounter else c.cycleCounter + (raw - c.cycleCounterRawLast) }

/-- `commit_all_and_reset_fast_quantum`: both counters are brought up to date, and the instructions of the
quantum are counted from zero. -/
def commitAllAndResetFastQuantum (c : Counters) (raw : BitVec 64) : Counters :=
  { c.commitInstructions.commitCycles raw with ninstr := 0, ninstrLast := 0 }

end Counters

/-! ### What is watched -/

/-- What the loop is judged by. -/
structure Watch where
  /-- instructions completed since the oldest request that the slow path has not served -/
  since : Option ℕ
  /-- instructions completed while an enabled interrupt has been pending -/
  waiting : ℕ
  /-- instructions dispatched by this call of `exec_steps` -/
  executed : ℕ
  /-- `lr_sc_counter` when the last instruction ended -/
  lrAtEnd : ℕ
  /-- `debug_mode` when this call of `exec_steps` began -/
  debugRun : Bool
  deriving DecidableEq, Repr

namespace Watch

/-- `force_slow_path` has been called: from now on instructions are counted until the slow path runs. -/
def request (v : Watch) : Watch := { v with since := some (v.since.getD 0) }

/-- The global slow path runs, and nothing is requested any more. -/
def serve (v : Watch) : Watch := { v with since := none }

/-- An instruction has completed, leaving `lr_sc_counter` at `lr`. -/
def complete (v : Watch) (lr : ℕ) : Watch :=
  { v with since := v.since.map (· + 1), waiting := v.waiting + 1, lrAtEnd := lr }

/-- An instruction is dispatched. -/
def dispatch (v : Watch) : Watch := { v with executed := v.executed + 1 }

/-- No enabled interrupt is pending. -/
def quiet (v : Watch) : Watch := { v with waiting := 0 }

end Watch

/-! ### When a fetch waits -/

namespace DBBCache

variable {w : ℕ} {Op : Type}

/-- Whether `fetch_decode` delivers the next entry of the fast path. -/
def fetchIsFast (s : DBBCache w Op) : Bool :=
  s.inFastPath && !(s.deref s.fastEntry.next).isTerminal

/-- The state in which `fetch_decode` enters its slow path: the end of a block is left. -/
def slowFetchState (s : DBBCache w Op) : DBBCache w Op :=
  if s.inFastPath then
    { s.fastPathRawDisable with curEntryIdx := ((s.deref s.fastEntry.next).idx.toNat : ℤ) - 1 }
  else
    s

/-- Whether `fetch_decode` reads memory: it does unless it delivers an entry of the fast path or of
a coherent block. -/
def fetchReads (s : DBBCache w Op) : Bool :=
  let s' := s.slowFetchState
  !s.fetchIsFast && (s'.curBlock == .dummyBlock ||
    decide ((s'.getBlock s'.curBlock).len ≤ s'.curEntryIdx + 1) ||
    (s'.getBlock s'.curBlock).coherenceCnt != s'.coherenceCnt)

end DBBCache

/-! ### The state -/

/-- `ISS_CT`.  The members `dbbcache`, `pc` and `instr` are in `driver`; `mem` is what
`load_instr` reads. -/
structure Iss (Op : Type) where
  driver : Driver 64 Op (DBBCache 64 Op)
  mem : InstrMem 64
  csrs : Csrs
  prv : PrivilegeLevel
  issSlowPath : Bool
  lrScCounter : ℕ
  shallExit : Bool
  status : CoreExecStatus
  debugMode : Bool
  breakpoints : Finset (BitVec 64)
  trace : Bool
  counters : Counters
  debugSingleStep : Bool
  debugSingleStepDone : Bool
  loc : Loc
  watch : Watch

/-- What happens in a step: an instruction is dispatched from an address, or `exec_steps`
returns. -/
inductive Iss.Out
  | none
  | dispatched (pc : BitVec 64)
  | stopped
  deriving DecidableEq, Repr

/-- What happens to the ISS: the parts of its loop between two points at which others can act, and what
these others do. -/
inductive Iss.Event
  /-- `run_step()` and `run()` -/
  | execSteps (debugSingleStep : Bool)
  /-- from `OP_GLOBAL_FDD` on; `during` is raised while the fetch waits for memory -/
  | fdd (needSync : Bool) (during : Option Irq)
  /-- `quantum_keeper.sync()` returns -/
  | resume (during : Option Irq)
  /-- a call of the operation on its cache -/
  | call (c : Call 64)
  /-- `URET`, `SRET`, `MRET` -/
  | ret (mode : PrivilegeLevel)
  /-- `set_csr_value`, with the registers after it and `mcountinhibit` if that is written -/
  | setCsrValue (csrs : Csrs) (inhibit : Option (Bool × Bool))
  | commitInstructions
  | commitCycles
  | loadReserved
  | storeConditional
  | wfi
  /-- `EBREAK` in debug mode -/
  | ebreak
  /-- `OP_END` -/
  | finish
  | trigger (irq : Irq)
  | clear (irq : Irq)
  | forceSlowPath
  | sysExit
  | setStatus (s : CoreExecStatus)
  | halt
  | enableDebug
  | enableTrace (ena : Bool)
  | insertBreakpoint (addr : BitVec 64)
  | removeBreakpoint (addr : BitVec 64)
  | enableDbbcache (ena : Bool)
  /-- memory changes: a store of this or another hart, a device, a page table -/
  | rewrite (mem : InstrMem 64)

namespace Iss

variable {Op : Type}

/-! ### Small member functions -/

/-- `dbbcache`: the cache, which is that of the driver. -/
def dbbcache (h : Iss Op) : DBBCache 64 Op := h.driver.cache

/-- Write `dbbcache`: the rest of the hart stays. -/
def setCache (h : Iss Op) (c : DBBCache 64 Op) : Iss Op :=
  { h with driver := { h.driver with cache := c } }

/-- Write `pc`, the program counter that the slow path fetches from. -/
def setPc (h : Iss Op) (pc : BitVec 64) : Iss Op := { h with driver := { h.driver with pc := pc } }

/-- `force_slow_path`: the flag of the hart is set and the cache leaves its fast path, so that the request
is seen before the next instruction. -/
def forceSlowPath (h : Iss Op) : Iss Op :=
  { h.setCache h.dbbcache.forceSlowPath with issSlowPath := true, watch := h.watch.request }

/-- `set_status`: the debugger stops or resumes the hart, which it sees on its slow path. -/
def setStatus (h : Iss Op) (s : CoreExecStatus) : Iss Op := { h with status := s }.forceSlowPath

/-- `release_lr_sc_reservation`; the bus lock it frees is not part of this model. -/
def releaseLrScReservation (h : Iss Op) : Iss Op := { h with lrScCounter := 0 }

/-- `commit_all_and_reset_fast_quantum`, with the cycles that the cache has counted. -/
def commitAll (h : Iss Op) : Iss Op :=
  { h with counters := h.counters.commitAllAndResetFastQuantum h.dbbcache.getCycleCounterRaw }

/-- Watch whether an enabled interrupt is pending. -/
def settle (h : Iss Op) : Iss Op :=
  { h with
    watch := if (h.csrs.computePendingInterrupts h.prv).isSome then h.watch else h.watch.quiet }

/-- The rest of `switch_to_trap_handler`, when the registers have been written. -/
def enterHandler (h : Iss Op) (r : PrivilegeLevel × Csrs × BitVec 64) : Iss Op :=
  ({ h with prv := r.1, csrs := r.2.1 }.releaseLrScReservation.setPc r.2.2).setCache
    (h.dbbcache.enterTrap r.2.2)

/-- `handle_interrupt`: the hart goes on in the handler of the pending interrupt with the highest priority,
if one is to be taken. -/
def handleInterrupt (h : Iss Op) : Iss Op :=
  match h.csrs.handleInterrupt h.prv h.driver.pc with
  | none => h.settle
  | some r =>
    let h := h.enterHandler r
    { h with watch := { h.watch with lrAtEnd := 0 } }.settle

/-- `catch (SimulationTrap &e)` and the jump back to `OP_GLOBAL_FDD`.  `prepare_trap` asserts that a
trap that is delegated to user mode comes from there. -/
def caught (h : Iss Op) (t : SimulationTrap) : Iss Op :=
  let r := h.csrs.handleTrap h.prv t h.dbbcache.getLastPcExceptionSafe
  if r.1 = .user ∧ h.prv ≠ .user then
    { h with loc := .aborted }
  else
    let h := { h with counters := { h.counters with ninstr := h.counters.ninstr + 1 } }
    let h := h.enterHandler r
    { h with
      driver := { h.driver with phase := .between }
      loc := .global
      watch := h.watch.complete h.lrScCounter }.settle

/-- The end of `exec_steps`: the program counter and all counters are written back. -/
def leave (h : Iss Op) : Iss Op :=
  { (h.setPc h.dbbcache.getPcMaybeAfterCallback).commitAll with loc := .idle }

/-! ### The global slow path -/

/-- How a path through `OP_GLOBAL_FDD` goes on: with the fetch, with `quantum_keeper.sync()`, or
out of the loop. -/
inductive Next (Op : Type)
  | fdd (h : Iss Op)
  | sync (h : Iss Op)
  | leave (h : Iss Op)

/-- The slow path up to `handle_interrupt()`. -/
def slowPathServe (h : Iss Op) : Iss Op :=
  let h := h.setPc h.dbbcache.getPcMaybeAfterCallback
  let h := { h with issSlowPath := false, watch := h.watch.serve }
  h.commitAll.handleInterrupt

/-- The slow path up to the check of `status`. -/
def slowPathHead (h : Iss Op) : Iss Op :=
  let h := h.slowPathServe
  if h.shallExit then h.setStatus .terminated else h

/-- The slow path from the check of `debug_mode` on. -/
def slowPathDebug (h : Iss Op) : Next Op :=
  if h.debugMode then
    let h := h.forceSlowPath
    if h.debugSingleStep && h.debugSingleStepDone then .leave h
    else if h.driver.pc ∈ h.breakpoints then .leave (h.setStatus .hitBreakpoint)
    else .fdd { h with debugSingleStepDone := true }
  else
    .fdd h

/-- `--lr_sc_counter` and what follows from it. -/
def lrScStep (h : Iss Op) : Iss Op :=
  let h := { h with lrScCounter := h.lrScCounter - 1 }
  if h.lrScCounter = 0 then h.releaseLrScReservation else h.forceSlowPath

/-- The slow path after `slowPathHead`: leave, go on in an LR/SC sequence, synchronise, or look for the
debugger. -/
def slowPathTail (h : Iss Op) (needSync : Bool) : Next Op :=
  if h.status ≠ .runnable then .leave h
  else if h.lrScCounter ≠ 0 then h.lrScStep.slowPathDebug
  else if needSync then .sync { h with loc := .slowSync }
  else h.slowPathDebug

/-- The medium path up to the fetch. -/
def medPath (h : Iss Op) (needSync : Bool) : Next Op :=
  let h := h.setPc h.dbbcache.getPcMaybeAfterCallback
  if h.counters.fastQuantum < h.counters.ninstr then
    if needSync then .sync { h.commitAll with loc := .medSync } else .fdd h.commitAll
  else
    .fdd h

/-- From `OP_GLOBAL_FDD`, or from `quantum_keeper.sync()`, to the fetch. -/
def toFetch (h : Iss Op) (needSync : Bool) : Next Op :=
  match h.loc with
  | .slowSync => h.slowPathDebug
  | .medSync => .fdd h
  | _ => if h.issSlowPath then h.slowPathHead.slowPathTail needSync else h.medPath needSync

/-! ### Fetch, decode and dispatch -/

/-- An interrupt raised while a fetch waits for memory.  The fetch has left the fast path before it
reads, so that all `force_slow_path` does to the cache is to set its flag. -/
def raiseDuring (h : Iss Op) : Option Irq → Iss Op
  | none => h
  | some irq =>
    { h.setCache { h.dbbcache with slowPath := true } with
      csrs := { h.csrs with mip := h.csrs.mip ||| irq.mip }
      issSlowPath := true
      watch := h.watch.request }

/-- What is raised during the fetch, if the fetch waits at all. -/
def duringFetch (h : Iss Op) (during : Option Irq) : Option Irq :=
  if h.dbbcache.fetchReads then during else none

/-- `GOTO_OP_SLOW_FDD` and `GOTO_OP_MED_FDD`; only the first looks at `trace`, and forces the slow
path again. -/
def fdd (isa : Isa Op) (h : Iss Op) (slow : Bool) (during : Option Irq) : Out × Iss Op :=
  let during := h.duringFetch during
  let pc := h.driver.pc
  match h.dbbcache.fetchDecode isa h.mem pc with
  | (.ok r, cache) =>
    let h := (h.setCache cache).raiseDuring during
    let h := { h with
      driver := { h.driver with pc := r.pc, label := r.label, instr := r.instr, phase := .executing }
      loc := .operation
      watch := h.watch.dispatch }
    (.dispatched pc, if slow && h.trace then h.forceSlowPath else h)
  | (.error t, cache) =>
    let h := (h.setCache cache).raiseDuring during
    (.dispatched pc, { h with watch := h.watch.dispatch }.caught t)

/-- Whether the fetch is that of the slow path. -/
def isSlow (h : Iss Op) : Bool :=
  match h.loc with
  | .slowSync => true
  | .medSync => false
  | _ => h.issSlowPath

/-- From `OP_GLOBAL_FDD`, or from `quantum_keeper.sync()`, to the next point of rest. -/
def globalFdd (isa : Isa Op) (h : Iss Op) (needSync : Bool) (during : Option Irq) : Out × Iss Op :=
  match h.toFetch needSync with
  | .fdd h' => h'.fdd isa h.isSlow during
  | .sync h' => (.none, h')
  | .leave h' => (.stopped, h'.leave)

/-- `OP_FAST_FINALIZE_AND_FDD`: `ninstr++`, then `fetch_decode_fast`.  The abort label leads to
`OP_GLOBAL_FDD`. -/
def fastFinalizeAndFdd (h : Iss Op) : Out × Iss Op :=
  let h := { h with
    counters := { h.counters with ninstr := h.counters.ninstr + 1 }
    watch := h.watch.complete h.lrScCounter }.settle
  match h.dbbcache.fetchDecodeFast with
  | (.op id, instr, cache) =>
    (.dispatched (cache.deref cache.fastEntry).pc,
      { h with
        driver := { h.driver with cache, label := .op id, instr, phase := .executing }
        watch := h.watch.dispatch })
  | (.fastAbort, _, cache) =>
    (.none, { h.setCache cache.abortFetchDecodeFast with loc := .global })

/-! ### Steps -/

/-- The start of `exec_steps`, with the local counter of instructions at zero. -/
def execSteps (h : Iss Op) (debugSingleStep : Bool) : Iss Op :=
  { h with
    debugSingleStep
    debugSingleStepDone := false
    counters := { h.counters with ninstr := 0, ninstrLast := 0 }
    loc := .global
    watch := { h.watch with executed := 0, debugRun := h.debugMode } }.forceSlowPath

/-- A call of the operation on its cache; a trap is caught. -/
def call (isa : Isa Op) (h : Iss Op) (c : Call 64) : Iss Op :=
  let r := h.driver.step (DBBCache.ops isa) isa h.mem c
  let h := { h with driver := r.2 }
  match r.1 with
  | .trapped t _ => h.caught t
  | _ => h

/-- `return_from_trap_handler`: the mode and the program counter are restored, and the slow path is
requested, as an interrupt may be enabled now. -/
def returnFromTrapHandler (h : Iss Op) (mode : PrivilegeLevel) : Iss Op :=
  let r := h.csrs.returnFromTrapHandler mode
  let h := { h with prv := r.1, csrs := r.2.1 }.setPc r.2.2
  let h := h.setCache (h.dbbcache.retTrap r.2.2)
  { h with driver := { h.driver with phase := .between } }.forceSlowPath

/-- `set_csr_value`, which ends with `maybe_interrupt_pending`. -/
def setCsrValue (h : Iss Op) (csrs : Csrs) : Option (Bool × Bool) → Iss Op
  | none => { h with csrs := csrs }.forceSlowPath
  | some (cy, ir) =>
    let c := h.counters.commitCycles h.dbbcache.getCycleCounterRaw
    { h with csrs := csrs, counters := { c with inhibitCY := cy, inhibitIR := ir } }.forceSlowPath

/-- `LR_W` and `LR_D`: the counter is started, and the slow path counts it down, so that a reservation does
not keep the bus for ever. -/
def loadReserved (h : Iss Op) : Iss Op :=
  if h.lrScCounter = 0 then { h with lrScCounter := 17 }.forceSlowPath else h

/-- One step: what an instruction does to the hart and its cache, what comes from outside, or one round of
`exec_steps`. -/
def step (isa : Isa Op) (h : Iss Op) : Event → Out × Iss Op
  | .execSteps debugSingleStep => (.none, h.execSteps debugSingleStep)
  | .fdd needSync during => h.globalFdd isa needSync during
  | .resume during => h.globalFdd isa false during
  | .call c => (.none, h.call isa c)
  | .ret mode => (.none, (h.returnFromTrapHandler mode).settle)
  | .setCsrValue csrs inhibit => (.none, (h.setCsrValue csrs inhibit).settle)
  | .commitInstructions => (.none, { h with counters := h.counters.commitInstructions })
  | .commitCycles =>
    (.none, { h with counters := h.counters.commitCycles h.dbbcache.getCycleCounterRaw })
  | .loadReserved => (.none, h.loadReserved)
  | .storeConditional => (.none, { h with lrScCounter := 0 })
  | .wfi => (.none, h.releaseLrScReservation)
  | .ebreak => (.none, h.setStatus .hitBreakpoint)
  | .finish => h.fastFinalizeAndFdd
  | .trigger irq =>
    (.none, { h with csrs := { h.csrs with mip := h.csrs.mip ||| irq.mip } }.forceSlowPath)
  | .clear irq =>
    (.none, { h with csrs := { h.csrs with mip := h.csrs.mip &&& ~~~irq.mip } }.settle)
  | .forceSlowPath => (.none, h.forceSlowPath)
  | .sysExit => (.none, { h with shallExit := true }.forceSlowPath)
  | .setStatus s => (.none, h.setStatus s)
  | .halt => (.none, if h.debugMode then { h with status := .hitBreakpoint } else h)
  | .enableDebug => (.none, { h with debugMode := true }.forceSlowPath)
  | .enableTrace ena => (.none, { h with trace := ena }.forceSlowPath)
  | .insertBreakpoint addr => (.none, { h with breakpoints := insert addr h.breakpoints })
  | .removeBreakpoint addr => (.none, { h with breakpoints := h.breakpoints.erase addr })
  | .enableDbbcache ena => (.none, h.setCache (h.dbbcache.enable ena))
  | .rewrite mem => (.none, { h with mem := mem })

/-- The calls on its cache that an operation makes itself; the others are made by the loop. -/
def isOperationCall : Call 64 → Bool
  | .fetch _ | .enterTrap _ | .retTrap _ | .forceSlowPath | .enable _ => false
  | _ => true

/-- What can happen at this point: the loop goes on from where it is, an operation acts while it is
being executed, and `run_step` is refused outside debug mode.  What comes from other modules can
happen anywhere. -/
def Legal (isa : Isa Op) (h : Iss Op) : Event → Prop
  | .execSteps debugSingleStep => h.loc = .idle ∧ (debugSingleStep = true → h.debugMode = true)
  | .fdd _ _ => h.loc = .global
  | .resume _ => h.loc = .slowSync ∨ h.loc = .medSync
  | .call c => h.loc = .operation ∧ isOperationCall c = true ∧ h.driver.Legal isa c
  | .ret _ | .setCsrValue _ _ | .commitInstructions | .commitCycles | .loadReserved
  | .storeConditional | .wfi => h.loc = .operation ∧ h.driver.phase = .executing
  | .ebreak => h.loc = .operation ∧ h.driver.phase = .executing ∧ h.debugMode = true
  | .finish => h.loc = .operation
  | _ => h.loc ≠ .aborted

/-- Before the first call of `exec_steps`. -/
def start (enabled : Bool) (entrypoint : BitVec 64) (mem : InstrMem 64) (csrs : Csrs)
    (fastQuantum : BitVec 64) : Iss Op :=
  { driver := .start (DBBCache.init enabled entrypoint) entrypoint
    mem
    csrs
    prv := .machine
    issSlowPath := false
    lrScCounter := 0
    shallExit := false
    status := .runnable
    debugMode := false
    breakpoints := ∅
    trace := false
    counters := ⟨0, 0, 0, 0, 0, false, false, fastQuantum⟩
    debugSingleStep := false
    debugSingleStepDone := false
    loc := .idle
    watch := ⟨none, 0, 0, 0, false⟩ }

end Iss

end RiscvVp
