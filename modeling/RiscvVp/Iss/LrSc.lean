import RiscvVp.Mem.Amo

/-!
# Reservations

`LR` and `SC` of `rv64/iss_ctemplate.cpp` on the harts of `System`: the counter `lr_sc_counter`, which
the slow path of `exec_steps` counts down, and the places at which a reservation is released
(`release_lr_sc_reservation`: traps, interrupts, `WFI` and the end of the count).

SystemC threads are not preempted.  A hart gives up control between two instructions and where it waits
for the bus; a transaction returns without waiting, as no target of the platforms waits in its
`b_transport`.  `current` is the hart that has control in the middle of a memory operation: until it
waits or is done, nobody else takes a step.

Each step has a label, from which the order of stores and reservations can be read.
-/

namespace RiscvVp

/-- What a step does to memory and reservations.  The initiator of a store is a hart, or none for a
peripheral with its `PeripheralWriteConnector`. -/
inductive LrScLabel
  | quiet
  | lr (hart : ℕ) (va : BitVec 64)
  | scSucceeds (hart : ℕ) (va : BitVec 64)
  | store (initiator : Option ℕ)
  deriving DecidableEq, Repr

/-- The initiator of the store that the step makes. -/
def LrScLabel.storedBy : LrScLabel → Option (Option ℕ)
  | .scSucceeds hart _ => some (some hart)
  | .store initiator => some initiator
  | _ => none

/-- A step of the memory system, or the begin of the slow path before the next instruction. -/
inductive LrScEvent (δ : Type)
  | sys (e : SysEvent δ)
  | slowPath (hart : ℕ)

/-- The hart whose thread takes the step. -/
def LrScEvent.hart {δ : Type} : LrScEvent δ → Option ℕ
  | .sys e => System.hartOf e
  | .slowPath hart => some hart

/-- The access of a hart that is in the middle of one. -/
def Task.access : Task → Option Access
  | .idle => none
  | .translating a _ => some a
  | .accessing a _ => some a

namespace System

variable {δ : Type} (bus : Bus δ) (s : System δ) (i : ℕ)

/-- The next thing that the hart does is to wait for the bus. -/
def waiting : Bool :=
  match (s.harts i).task with
  | .translating _ (.rawLoad ..) | .translating _ (.rawStore ..) | .accessing .. =>
    blocked s.world.busLock i
  | _ => false

/-- The next thing that the hart does is to throw. -/
def trapped : Bool :=
  let ranges := (s.harts i).dmi.dmiRanges
  match (s.harts i).task with
  | .translating _ (.throw _) => true
  | .translating _ (.rawLoad addr n _) => !s.waiting i && !(s.world.loadNow bus ranges addr n).1.isOk
  | .translating _ (.rawStore addr n v _) =>
    !s.waiting i && !(s.world.storeNow bus i ranges addr n v).1.isOk
  | .accessing a pa => !s.waiting i && !(rawAccess bus s.world i ranges a pa).1.isOk
  | _ => false

/-- The label of a hart that goes on to its next raw access. -/
def resumeLabel : LrScLabel :=
  if s.waiting i then .quiet
  else
    match (s.harts i).task with
    | .translating _ (.rawStore ..) => .store (some i)
    | .accessing (.sc _ va _) _ => if s.trapped bus i then .store (some i) else .scSucceeds i va
    | .accessing a _ => if a.type = .store then .store (some i) else .quiet
    | _ => .quiet

/-- The label of a hart that begins an operation. -/
def beginLabel : Op → LrScLabel
  | .lr _ va => if blocked s.world.busLock i then .quiet else .lr i va
  | .store _ va _ direct =>
    if direct || s.world.busLock.locked || (s.harts i).lscache.tryGetFromCacheStore va = 0 then .quiet
    else .store (some i)
  | _ => .quiet

/-- The hart keeps control: it is in the middle of an operation. -/
def control : Option ℕ :=
  match (s.harts i).task with
  | .idle => none
  | _ => some i

end System

/-- Any number of harts, each with its `lr_sc_counter`, and the one that has control. -/
structure LrScSystem (δ : Type) where
  sys : System δ
  lrScCounter : ℕ → ℕ
  current : Option ℕ

namespace LrScSystem

variable {δ : Type} (bus : Bus δ) (s : LrScSystem δ)

/-- Write the counter of a hart. -/
def setCounter (i c : ℕ) : LrScSystem δ :=
  { s with lrScCounter := Function.update s.lrScCounter i c }

/-- `release_lr_sc_reservation`. -/
def release (i : ℕ) : LrScSystem δ :=
  { s.setCounter i 0 with sys := s.sys.setWorld (s.sys.world.unlock i) }

/-- The slow path of `exec_steps`, when no interrupt is taken. -/
def slowPath (i : ℕ) : LrScSystem δ :=
  if s.lrScCounter i ≠ 0 then
    let s' := s.setCounter i (s.lrScCounter i - 1)
    if s'.lrScCounter i = 0 then s'.release i else s'
  else s

/-- A hart between two instructions begins an operation; `release` stands for a trap that is not one of
memory, an interrupt, and `WFI`. -/
def begin (i : ℕ) (op : Op) : LrScLabel × LrScSystem δ :=
  match op with
  | .release => (.quiet, s.release i)
  | .sc n va value =>
    let sys := s.sys.begin i (.sc n va value)
    match (sys.harts i).task with
    | .idle => (.quiet, { s.setCounter i 0 with sys := sys })
    | _ => (.quiet, { s with sys := sys, current := some i })
  | op =>
    let sys := s.sys.begin i op
    (s.sys.beginLabel i op, { s with sys := sys, current := sys.control i })

/-- The counter of a hart after its next raw access. -/
def counterAfter (i : ℕ) : ℕ :=
  match (s.sys.harts i).task with
  | .accessing (.lr ..) _ => if s.lrScCounter i = 0 then 17 else s.lrScCounter i
  | .accessing (.sc ..) _ => 0
  | _ => s.lrScCounter i

/-- A hart goes on to its next raw access. -/
def resume (i : ℕ) : LrScLabel × LrScSystem δ :=
  let sys := (s.sys.resume bus i).2
  if s.sys.waiting i then (.quiet, { s with current := none })
  else if s.sys.trapped bus i then
    (s.sys.resumeLabel bus i, { s with sys := sys, current := none }.release i)
  else
    (s.sys.resumeLabel bus i,
      { s.setCounter i (s.counterAfter i) with sys := sys, current := sys.control i })

/-- One step of the thread that has control. -/
def stepCurrent : LrScEvent δ → LrScLabel × LrScSystem δ
  | .slowPath i =>
    match (s.sys.harts i).task with
    | .idle => (.quiet, s.slowPath i)
    | _ => (.quiet, s)
  | .sys (.begin i op) =>
    match (s.sys.harts i).task with
    | .idle => s.begin i op
    | _ => (.quiet, s)
  | .sys (.resume i) => s.resume bus i
  | .sys (.change i csrs prv tlb dmi lscache) =>
    (.quiet, { s with sys := (s.sys.step bus (.change i csrs prv tlb dmi lscache)).2 })
  | .sys (.peripheral f) =>
    (if s.sys.world.busLock.locked then .quiet else .store none,
      { s with sys := (s.sys.step bus (.peripheral f)).2 })

/-- One step.  While a hart has control, nothing else happens. -/
def step (s : LrScSystem δ) (e : LrScEvent δ) : LrScLabel × LrScSystem δ :=
  if s.current = none ∨ s.current = e.hart then s.stepCurrent bus e else (.quiet, s)

/-- All harts are between two instructions and the bus is free. -/
def start (world : World δ) (harts : ℕ → Hart) : LrScSystem δ where
  sys :=
    { world := { world with busLock := ⟨false, 0⟩ }
      harts := fun i => { harts i with task := .idle } }
  lrScCounter := fun _ => 0
  current := none

end LrScSystem

end RiscvVp
