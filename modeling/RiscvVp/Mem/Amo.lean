import RiscvVp.Mem.LsCache

/-!
# Harts that share a bus

The memory operations of several harts, interleaved: loads and stores through the load/store cache or
past it, fetches, atomic memory operations (`execute_amo_w`, `execute_amo_d`), load-reserved and
store-conditional, on one bus with its lock (`core/common/mem.h`, `platform/common/bus.h`).

A hart gives up control where it waits for the bus, so an operation goes from one raw access to the
next: `Prog` is a computation that stops at every raw access, and the page walk of `Mmu` runs in it as
it is.  A hart that has to wait does nothing when it is scheduled.

A load or store that hits in the cache does not wait between looking at the lock and accessing host
memory, so this is one step.
-/

namespace RiscvVp

/-! ### Computations that stop at every access -/

/-- A computation on memory, up to its next raw access. -/
inductive Prog (α : Type) : Type
  | pure (a : α)
  | throw (t : SimulationTrap)
  | rawLoad (addr : BitVec 64) (n : Width) (k : BitVec 64 × Option HostAddr → Prog α)
  | rawStore (addr : BitVec 64) (n : Width) (v : BitVec 64) (k : Option HostAddr → Prog α)

namespace Prog

variable {α β : Type}

/-- One computation after the other: the second goes into every continuation of the first. -/
def bind (p : Prog α) (f : α → Prog β) : Prog β :=
  match p with
  | .pure a => f a
  | .throw t => .throw t
  | .rawLoad addr n k => .rawLoad addr n fun x => (k x).bind f
  | .rawStore addr n v k => .rawStore addr n v fun x => (k x).bind f

/-- Go on after an exception, with the computation that its trap leads to. -/
def tryCatch (p : Prog α) (f : SimulationTrap → Prog α) : Prog α :=
  match p with
  | .pure a => .pure a
  | .throw t => f t
  | .rawLoad addr n k => .rawLoad addr n fun x => (k x).tryCatch f
  | .rawStore addr n v k => .rawStore addr n v fun x => (k x).tryCatch f

instance : Monad Prog where
  pure := .pure
  bind := .bind

instance : MonadExceptOf SimulationTrap Prog where
  throw := .throw
  tryCatch := .tryCatch

/-- The raw accesses of the walk, each of which the hart has to wait for. -/
def memIf : MemIf Prog where
  rawLoad addr n := .rawLoad addr n .pure
  rawStore addr n v := .rawStore addr n v .pure

end Prog

/-! ### Harts -/

/-- The accesses that are translated.  `addToCache` says that the cache adds the page afterwards. -/
inductive Access
  | load (op : LoadOp) (va : BitVec 64) (addToCache : Bool)
  | store (n : Width) (va value : BitVec 64) (addToCache : Bool)
  | fetch (n : Width) (va : BitVec 64)
  /-- `_atomic_load_data` of an AMO that will store `operation` of the value -/
  | amoLoad (n : Width) (va : BitVec 64) (operation : BitVec 64 → BitVec 64)
  /-- `_atomic_store_data` of an AMO -/
  | amoStore (n : Width) (va value : BitVec 64)
  | lr (n : Width) (va : BitVec 64)
  | sc (n : Width) (va value : BitVec 64)

namespace Access

def va : Access → BitVec 64
  | load _ va _ | store _ va _ _ | fetch _ va | amoLoad _ va _ | amoStore _ va _ | lr _ va
  | sc _ va _ => va

def type : Access → MemoryAccessType
  | load .. | amoLoad .. | lr .. => .load
  | store .. | amoStore .. | sc .. => .store
  | fetch .. => .fetch

def width : Access → Width
  | load op _ _ => op.width
  | store n _ _ _ | fetch n _ | amoLoad n _ _ | amoStore n _ _ | lr n _ | sc n _ _ => n

/-- The access is one of an AMO. -/
def isAmo : Access → Bool
  | amoLoad .. | amoStore .. => true
  | _ => false

end Access

/-- What a hart is doing: its address is being translated, or is known and will be accessed next. -/
inductive Task
  | idle
  | translating (a : Access) (p : Prog (BitVec 64 × Mmu.Tlb))
  | accessing (a : Access) (paddr : BitVec 64)

/-- The hart is between the atomic load and the atomic store of an AMO, both included. -/
def Task.inAmo : Task → Bool
  | .idle => false
  | .translating a _ | .accessing a _ => a.isAmo

/-- A hart: what it uses for its accesses, the address of its reservation and the operation that it is in. -/
structure Hart where
  csrs : Csrs
  prv : PrivilegeLevel
  tlb : Mmu.Tlb
  dmi : DmiRanges
  lscache : LsCache
  lrAddr : BitVec 64
  task : Task

namespace Hart

/-- Start the translation of an access: `v2p`. -/
def v2p (h : Hart) (a : Access) : Hart :=
  { h with task := .translating a (Mmu.translate Prog.memIf h.csrs h.prv h.tlb a.va a.type) }

/-- The hart after its access, given the value of a load and the host page of the access. -/
def finish (h : Hart) (a : Access) (v : BitVec 64) (last : Option HostAddr) : Hart :=
  match a with
  | .load _ va true =>
    { h with task := .idle, lscache := h.lscache.tryAddToCache va last LsCache.loadValidBits }
  | .store _ va _ true =>
    { h with task := .idle, lscache := h.lscache.tryAddToCache va last LsCache.storeValidBits }
  | .amoLoad n va operation => h.v2p (.amoStore n va (operation v))
  | _ => { h with task := .idle }

end Hart

/-- Any number of harts on a bus. -/
structure System (δ : Type) where
  world : World δ
  harts : ℕ → Hart

/-- The operations that a hart begins; `direct` ones go past the cache. -/
inductive Op
  | load (op : LoadOp) (va : BitVec 64) (direct : Bool)
  | store (n : Width) (va value : BitVec 64) (direct : Bool)
  | fetch (n : Width) (va : BitVec 64)
  | amo (n : Width) (va : BitVec 64) (operation : BitVec 64 → BitVec 64)
  | lr (n : Width) (va : BitVec 64)
  | sc (n : Width) (va value : BitVec 64)
  /-- `release_lr_sc_reservation`, from a trap or when the counter has run out -/
  | release

/-- One step: a hart begins an operation or goes on with it, its registers, buffer and cache change (a
trap, a CSR instruction, a fence), or a peripheral with its `PeripheralWriteConnector` accesses
memory. -/
inductive SysEvent (δ : Type)
  | begin (hart : ℕ) (op : Op)
  | resume (hart : ℕ)
  | change (hart : ℕ) (csrs : Csrs) (prv : PrivilegeLevel) (tlb : Mmu.Tlb) (dmi : DmiRanges)
      (lscache : LsCache)
  | peripheral (f : Host → δ → Host × δ)

namespace System

variable {δ : Type}

/-- The hart would have to wait: `lock` and `wait_for_access_rights` block. -/
def blocked (l : BusLock) (hart : ℕ) : Bool := l.locked && !l.isLockedBy hart

/-- Write a hart; the others and the world stay. -/
def setHart (s : System δ) (i : ℕ) (h : Hart) : System δ :=
  { s with harts := Function.update s.harts i h }

/-- Write the world; the harts stay. -/
def setWorld (s : System δ) (w : World δ) : System δ := { s with world := w }

/-- A hart that has nothing to do begins an operation. -/
def begin (s : System δ) (i : ℕ) (op : Op) : System δ :=
  let h := s.harts i
  let w := s.world
  match h.task with
  | .idle =>
    match op with
    | .load op va direct =>
      if direct || w.busLock.locked then s.setHart i (h.v2p (.load op va false))
      else if h.lscache.tryGetFromCacheLoad va = 0 then s.setHart i (h.v2p (.load op va true))
      else s
    | .store n va value direct =>
      if direct || w.busLock.locked then s.setHart i (h.v2p (.store n va value false))
      else
        let haddr := h.lscache.tryGetFromCacheStore va
        if haddr = 0 then s.setHart i (h.v2p (.store n va value true))
        else s.setWorld { w with host := w.host.store haddr n.bytes value }
    | .fetch n va => s.setHart i (h.v2p (.fetch n va))
    | .amo n va operation =>
      if blocked w.busLock i then s
      else
        (s.setWorld { w with busLock := w.busLock.lock i }).setHart i (h.v2p (.amoLoad n va operation))
    | .lr n va =>
      if blocked w.busLock i then s
      else
        (s.setWorld { w with busLock := w.busLock.lock i }).setHart i
          ({ h with lrAddr := va }.v2p (.lr n va))
    | .sc n va value =>
      if w.busLock.isLockedBy i then
        if va = h.lrAddr then s.setHart i (h.v2p (.sc n va value)) else s.setWorld (w.unlock i)
      else s
    | .release => s.setWorld (w.unlock i)
  | _ => s

variable (bus : Bus δ)

/-- The raw access of an operation. -/
def rawAccess (w : World δ) (i : ℕ) (ranges : List MemoryDMI) (a : Access) (pa : BitVec 64) :
    Except SimulationTrap (BitVec 64 × Option HostAddr) × World δ :=
  match a with
  | .store n _ v _ | .amoStore n _ v | .sc n _ v =>
    let r := w.storeNow bus i ranges pa n v
    (r.1.map fun last => (0, last), r.2)
  | a => w.loadNow bus ranges pa a.width

/-- A hart goes on to its next raw access.  The answer is the warning of `_atomic_store_data` that the
bus is not locked. -/
def resume (s : System δ) (i : ℕ) : Bool × System δ :=
  let h := s.harts i
  let ranges := h.dmi.dmiRanges
  match h.task with
  | .idle => (false, s)
  | .translating a (.pure (pa, tlb)) =>
    (false, s.setHart i { h with task := .accessing a pa, tlb := tlb })
  | .translating _ (.throw _) => (false, s.setHart i { h with task := .idle })
  | .translating a (.rawLoad addr n k) =>
    if blocked s.world.busLock i then (false, s)
    else
      match s.world.loadNow bus ranges addr n with
      | (.ok x, w) => (false, (s.setWorld w).setHart i { h with task := .translating a (k x) })
      | (.error _, w) => (false, (s.setWorld w).setHart i { h with task := .idle })
  | .translating a (.rawStore addr n v k) =>
    if blocked s.world.busLock i then (false, s)
    else
      match s.world.storeNow bus i ranges addr n v with
      | (.ok x, w) => (false, (s.setWorld w).setHart i { h with task := .translating a (k x) })
      | (.error _, w) => (false, (s.setWorld w).setHart i { h with task := .idle })
  | .accessing a pa =>
    if blocked s.world.busLock i then (false, s)
    else
      match rawAccess bus s.world i ranges a pa with
      | (.ok (v, last), w) =>
        -- the check stands at the start of the atomic store, before its translation
        let warning := match a with
          | .amoLoad .. => !w.busLock.isLockedBy i
          | _ => false
        (warning, (s.setWorld w).setHart i (h.finish a v last))
      | (.error _, w) => (false, (s.setWorld w).setHart i { h with task := .idle })

/-- One step of a hart, of a device, or of an instruction that changes what a hart uses for its accesses. -/
def step (s : System δ) : SysEvent δ → Bool × System δ
  | .begin i op => (false, s.begin i op)
  | .resume i => s.resume bus i
  | .change i csrs prv tlb dmi lscache =>
    let h := s.harts i
    match h.task with
    | .idle => (false, s.setHart i
        { h with csrs := csrs, prv := prv, tlb := tlb, dmi := dmi, lscache := lscache })
    | _ => (false, s)
  | .peripheral f =>
    if s.world.busLock.locked then (false, s)
    else
      let r := f s.world.host s.world.dev
      (false, s.setWorld { s.world with host := r.1, dev := r.2 })

/-- The hart that a step is one of. -/
def hartOf : SysEvent δ → Option ℕ
  | .begin i _ | .resume i | .change i .. => some i
  | .peripheral _ => none

end System

end RiscvVp
