import RiscvVp.DbbCache.Basic
import RiscvVp.Lib.Run

/-!
# Driving a cache the way the ISS does

`CacheOps` is the interface that `DBBCache_T` and `DBBCacheDummy_T` share; `DBBCacheDummy` is the
second of them.  `Driver` is the part of an ISS that talks to its cache: the `pc` member, the
instruction and label it dispatched last, and the point of the fetch/execute cycle it is at.
`Driver.step` makes one of the calls of the ISS and records what the ISS can see of it.
-/

namespace RiscvVp

variable {w : ℕ} {Op σ : Type}

/-! ### The common interface -/

/-- The member functions the ISS calls on its cache. -/
structure CacheOps (w : ℕ) (Op σ : Type) where
  fetchDecodeFast : σ → Label Op × Word × σ
  abortFetchDecodeFast : σ → σ
  fetchDecode : InstrMem w → σ → BitVec w → Except SimulationTrap (Fetched w Op) × σ
  branchNotTaken : σ → σ
  branchTaken : σ → BitVec 32 → Except SimulationTrap Unit × σ
  jump : σ → BitVec 32 → Except SimulationTrap Unit × σ
  jumpAndLink : σ → BitVec 32 → Except SimulationTrap (BitVec w) × σ
  jumpDyn : σ → BitVec w → σ
  jumpDynAndLink : σ → BitVec w → BitVec w × σ
  enterTrap : σ → BitVec w → σ
  retTrap : σ → BitVec w → σ
  forceSlowPath : σ → σ
  enable : σ → Bool → σ
  fenceI : σ → σ
  fenceVma : σ → σ
  getLastPcBeforeCallback : σ → BitVec w
  getLastPcExceptionSafe : σ → BitVec w
  getPcMaybeAfterCallback : σ → BitVec w
  getCycleCounterRaw : σ → BitVec 64

/-- `DBBCache_T` behind the common interface. -/
def DBBCache.ops (isa : Isa Op) : CacheOps w Op (DBBCache w Op) where
  fetchDecodeFast s := s.fetchDecodeFast
  abortFetchDecodeFast s := s.abortFetchDecodeFast
  fetchDecode mem s pc := s.fetchDecode isa mem pc
  branchNotTaken s := s.branchNotTaken
  branchTaken s pcOffset := s.branchTaken isa pcOffset
  jump s pcOffset := s.jump isa pcOffset
  jumpAndLink s pcOffset := s.jumpAndLink isa pcOffset
  jumpDyn s pc := s.jumpDyn pc
  jumpDynAndLink s pc := s.jumpDynAndLink pc
  enterTrap s pc := s.enterTrap pc
  retTrap s pc := s.retTrap pc
  forceSlowPath s := s.forceSlowPath
  enable s ena := s.enable ena
  fenceI s := s.fenceI
  fenceVma s := s.fenceVma
  getLastPcBeforeCallback s := s.getLastPcBeforeCallback
  getLastPcExceptionSafe s := s.getLastPcExceptionSafe
  getPcMaybeAfterCallback s := s.getPcMaybeAfterCallback
  getCycleCounterRaw s := s.getCycleCounterRaw

/-! ### The dummy implementation -/

/-- `DBBCacheDummy_T`: the program counter, the address of the last instruction and the cycles. -/
structure DBBCacheDummy (w : ℕ) where
  enabled : Bool
  memWord : Word
  pc : BitVec w
  lastPc : BitVec w
  cycleCounterRaw : BitVec 64
  deriving DecidableEq, Repr

namespace DBBCacheDummy

/-- `init`; `last_pc` is not initialised by the source. -/
def init (enabled : Bool) (entrypoint : BitVec w) : DBBCacheDummy w :=
  { enabled, memWord := 0, pc := entrypoint, lastPc := 0, cycleCounterRaw := 0 }

/-- `branch_taken_sjump`: the offset is relative to the instruction that executes. -/
def branchTakenSjump (d : DBBCacheDummy w) (pcOffset : BitVec 32) : DBBCacheDummy w :=
  { d with pc := d.lastPc + pcOffset.signExtend w }

/-- `fetch_decode`: without a cache, every fetch reads and decodes the word, and counts its time. -/
def fetchDecode (isa : Isa Op) (mem : InstrMem w) (d : DBBCacheDummy w) (pc : BitVec w) :
    Except SimulationTrap (Fetched w Op) × DBBCacheDummy w :=
  let d := { d with lastPc := d.pc }
  match mem pc with
  | .error t => (.error t, d)
  | .ok word =>
    let r := isa.decode word
    let pc := pc + BitVec.ofNat w r.pcIncrement
    (.ok ⟨.op r.op, r.instr, pc⟩,
      { d with
        memWord := word
        pc := pc
        cycleCounterRaw := d.cycleCounterRaw + isa.instrTime r.op })

/-- `DBBCacheDummy_T` behind the common interface. -/
def ops (isa : Isa Op) : CacheOps w Op (DBBCacheDummy w) where
  fetchDecodeFast d := (.fastAbort, 0, d)
  abortFetchDecodeFast d := d
  fetchDecode mem d pc := d.fetchDecode isa mem pc
  branchNotTaken d := d
  branchTaken d pcOffset := (.ok (), d.branchTakenSjump pcOffset)
  jump d pcOffset := (.ok (), d.branchTakenSjump pcOffset)
  jumpAndLink d pcOffset := (.ok d.pc, d.branchTakenSjump pcOffset)
  jumpDyn d pc := { d with pc := pc }
  jumpDynAndLink d pc := (d.pc, { d with pc := pc })
  enterTrap d pc := { d with pc := pc }
  retTrap d pc := { d with pc := pc }
  forceSlowPath d := d
  enable d ena := { d with enabled := ena }
  fenceI d := d
  fenceVma d := d
  getLastPcBeforeCallback d := d.lastPc
  getLastPcExceptionSafe d := d.lastPc
  getPcMaybeAfterCallback d := d.pc
  getCycleCounterRaw d := d.cycleCounterRaw

end DBBCacheDummy

/-! ### The calls of the ISS -/

/-- Where the ISS is: executing the operation it dispatched, past its control-flow callback (or a
trap entry or return), or in the handler that catches a trap. -/
inductive Phase
  | executing
  | between
  | trapped
  deriving DecidableEq, Repr

/-- The calls the ISS makes on its cache.  `fetch` is the fetch of the next operation: with
`fast`, the `fetch_decode_fast` at the end of an operation, which on the abort label is undone and
followed by the global fetch; without, the global fetch right away.  `raise` is an executed
operation that throws before its callback; the other constructors are the calls of that name. -/
inductive Call (w : ℕ)
  | fetch (fast : Bool)
  | branchNotTaken
  | branchTaken
  | jump
  | jumpAndLink
  | jumpDyn (pc : BitVec w)
  | jumpDynAndLink (pc : BitVec w)
  | raise (t : SimulationTrap)
  | enterTrap (pc : BitVec w)
  | retTrap (pc : BitVec w)
  | forceSlowPath
  | enable (ena : Bool)
  | fenceI
  | fenceVma
  deriving DecidableEq

/-- Whether a call is a fetch. -/
def Call.isFetch {w : ℕ} : Call w → Bool
  | .fetch _ => true
  | _ => false

/-- What the ISS sees of a call. -/
inductive Obs (w : ℕ) (Op : Type)
  | fetched (label : Label Op) (instr : Word) (lastPc pc : BitVec w) (cycles : BitVec 64)
  | linked (link pc : BitVec w) (cycles : BitVec 64)
  | moved (pc : BitVec w) (cycles : BitVec 64)
  | trapped (t : SimulationTrap) (lastPc : BitVec w)
  deriving DecidableEq

/-- An ISS as its cache sees it. -/
structure Driver (w : ℕ) (Op σ : Type) where
  cache : σ
  pc : BitVec w
  label : Label Op
  instr : Word
  phase : Phase

namespace Driver

/-- Before the first instruction. -/
def start (cache : σ) (entrypoint : BitVec w) : Driver w Op σ :=
  { cache, pc := entrypoint, label := .fastAbort, instr := 0, phase := .between }

variable (ops : CacheOps w Op σ) (isa : Isa Op) (mem : InstrMem w)

/-- `catch (SimulationTrap &e)`: the address that `get_last_pc_exception_safe` reports. -/
def caught (d : Driver w Op σ) (cache : σ) (t : SimulationTrap) : Obs w Op × Driver w Op σ :=
  (.trapped t (ops.getLastPcExceptionSafe cache), { d with cache, phase := .trapped })

/-- An operation has been dispatched: the driver notes it and reports what the ISS can see. -/
def dispatched (d : Driver w Op σ) (cache : σ) (label : Label Op) (instr : Word) :
    Obs w Op × Driver w Op σ :=
  (.fetched label instr (ops.getLastPcBeforeCallback cache) (ops.getPcMaybeAfterCallback cache)
      (ops.getCycleCounterRaw cache),
    { d with cache, label, instr, phase := .executing })

/-- A callback has moved the program counter. -/
def moved (d : Driver w Op σ) (cache : σ) (phase : Phase) : Obs w Op × Driver w Op σ :=
  (.moved (ops.getPcMaybeAfterCallback cache) (ops.getCycleCounterRaw cache),
    { d with cache, phase })

/-- A callback has moved the program counter and returned the link value. -/
def linked (d : Driver w Op σ) (cache : σ) (link : BitVec w) : Obs w Op × Driver w Op σ :=
  (.linked link (ops.getPcMaybeAfterCallback cache) (ops.getCycleCounterRaw cache),
    { d with cache, phase := .between })

/-- The global fetch: `pc = get_pc_maybe_after_callback()`, then `fetch_decode(pc, instr)`. -/
def globalFetch (d : Driver w Op σ) : Obs w Op × Driver w Op σ :=
  match ops.fetchDecode mem d.cache (ops.getPcMaybeAfterCallback d.cache) with
  | (.ok r, cache) => { d with pc := r.pc }.dispatched ops cache r.label r.instr
  | (.error t, cache) => d.caught ops cache t

/-- The fetch at the end of an operation. -/
def fastFetch (d : Driver w Op σ) : Obs w Op × Driver w Op σ :=
  match ops.fetchDecodeFast d.cache with
  | (.op id, instr, cache) => d.dispatched ops cache (.op id) instr
  | (.fastAbort, _, cache) =>
    { d with cache := ops.abortFetchDecodeFast cache }.globalFetch ops mem

/-- The offset that the operation being executed passes to its callback. -/
def pcOffset (d : Driver w Op σ) : BitVec 32 := isa.labelOffset d.label d.instr

/-- One call of the ISS, with what the ISS sees of it: an operation, a link value, a trap or an address. -/
def step (d : Driver w Op σ) : Call w → Obs w Op × Driver w Op σ
  | .fetch true => d.fastFetch ops mem
  | .fetch false => d.globalFetch ops mem
  | .branchNotTaken => d.moved ops (ops.branchNotTaken d.cache) .executing
  | .branchTaken =>
    match ops.branchTaken d.cache (d.pcOffset isa) with
    | (.ok (), cache) => d.moved ops cache .between
    | (.error t, cache) => d.caught ops cache t
  | .jump =>
    match ops.jump d.cache (d.pcOffset isa) with
    | (.ok (), cache) => d.moved ops cache .between
    | (.error t, cache) => d.caught ops cache t
  | .jumpAndLink =>
    match ops.jumpAndLink d.cache (d.pcOffset isa) with
    | (.ok link, cache) => d.linked ops cache link
    | (.error t, cache) => d.caught ops cache t
  | .jumpDyn pc => d.moved ops (ops.jumpDyn d.cache pc) .between
  | .jumpDynAndLink pc =>
    match ops.jumpDynAndLink d.cache pc with
    | (link, cache) => d.linked ops cache link
  | .raise t => d.caught ops d.cache t
  | .enterTrap pc => { d with pc := pc }.moved ops (ops.enterTrap d.cache pc) .between
  | .retTrap pc => { d with pc := pc }.moved ops (ops.retTrap d.cache pc) .between
  | .forceSlowPath => d.moved ops (ops.forceSlowPath d.cache) d.phase
  | .enable ena => d.moved ops (ops.enable d.cache ena) d.phase
  | .fenceI => d.moved ops (ops.fenceI d.cache) d.phase
  | .fenceVma => d.moved ops (ops.fenceVma d.cache) d.phase

/-- What the ISS sees over a sequence of calls. -/
def trace (d : Driver w Op σ) (calls : List (Call w)) : List (Obs w Op) :=
  Run.outputs (fun d c => d.step ops isa mem c) d calls

/-- The control-flow callback of the operation being executed. -/
def ctrlFlow (d : Driver w Op σ) : Option CtrlFlow :=
  match d.label with
  | .op id => some (isa.ctrlFlow id)
  | .fastAbort => none

/-- The calls that the ISS can make at this point: callbacks, fences and returns belong to an
executing operation, each operation makes the callback of its own `OP_CASE`, dynamic targets and
trap vectors have bit 0 clear (`pc_is_valid`), and a caught trap is followed by the entry of the
handler. -/
def Legal (d : Driver w Op σ) : Call w → Prop
  | .fetch _ => d.phase ≠ .trapped
  | .branchNotTaken => d.phase = .executing ∧ d.ctrlFlow isa = some .branch
  | .branchTaken => d.phase = .executing ∧ d.ctrlFlow isa = some .branch
  | .jump => d.phase = .executing ∧ d.ctrlFlow isa = some .j
  | .jumpAndLink => d.phase = .executing ∧ d.ctrlFlow isa = some .jal
  | .jumpDyn pc =>
    d.phase = .executing ∧ d.ctrlFlow isa = some .jr ∧ pc.getLsbD 0 = false
  | .jumpDynAndLink pc =>
    d.phase = .executing ∧ d.ctrlFlow isa = some .jalr ∧ pc.getLsbD 0 = false
  | .raise _ => d.phase = .executing
  | .enterTrap pc => pc.getLsbD 0 = false
  | .retTrap _ => d.phase = .executing
  | .forceSlowPath => True
  | .enable _ => True
  | .fenceI => d.phase = .executing
  | .fenceVma => d.phase = .executing

instance decidableLegal (d : Driver w Op σ) (c : Call w) : Decidable (d.Legal isa c) := by
  cases c <;> unfold Legal <;> infer_instance

/-- Every call of the sequence is one the ISS can make. -/
def LegalRun (d : Driver w Op σ) (calls : List (Call w)) : Prop :=
  Run.Along (fun d c => d.Legal isa c) (fun d c => d.step ops isa mem c) d calls

end Driver

end RiscvVp
