import RiscvVp.Cheri.TaggedMemory
import RiscvVp.Mem.Basic

/-!
# Raw accesses to tagged memory

The accesses of `CombinedTaggedMemoryInterface` (`core/rv64_cheriv9/cheri_mem.h`) below address
translation.  Main memory is a `TaggedMemory`, which the bus maps to a range of addresses and which a
direct window onto the same range bypasses; everything else on the bus is a parameter of the model.

The mode for random testing (`rvfi_dii`) and timing are not part of the model.
-/

namespace RiscvVp.Cheri

/-! ### Computations -/

/-- How a computation ends early: it throws a trap, or the simulator stops at a failed assertion or an
exception that nobody catches. -/
inductive Stop
  | trap (t : SimulationTrap)
  | abort
  deriving DecidableEq, Repr

/-- A computation on a state of type `σ`. -/
abbrev CheriM (σ : Type) := ExceptT Stop (StateM σ)

namespace CheriM

variable {σ α β : Type}

/-- `raise_trap`: the instruction ends with a trap. -/
def raise (t : SimulationTrap) : CheriM σ α := throwThe Stop (.trap t)

/-- A failed assertion: the program ends. -/
def abort : CheriM σ α := throwThe Stop .abort

instance (priority := 1100) : MonadExceptOf SimulationTrap (CheriM σ) where
  throw := raise
  tryCatch x h := tryCatchThe Stop x fun
    | .trap t => h t
    | .abort => abort

/-- The outcome and the state it leaves. -/
def run' (x : CheriM σ α) (s : σ) : Except Stop α × σ := x s

theorem run'_bind (x : CheriM σ α) (f : α → CheriM σ β) (s : σ) :
    (x >>= f).run' s =
      match x.run' s with
      | (.ok a, s') => (f a).run' s'
      | (.error e, s') => (.error e, s') := by
  show (ExceptT.bind x f) s = _
  simp only [ExceptT.bind, ExceptT.mk, bind, StateT.bind, run']
  rcases x s with ⟨a | a, s'⟩ <;> rfl

/-- The steps of a computation that succeeds succeed. -/
theorem run'_bind_eq_ok {x : CheriM σ α} {f : α → CheriM σ β} {s s'' : σ} {b : β} :
    (x >>= f).run' s = (.ok b, s'') ↔
      ∃ a s', x.run' s = (.ok a, s') ∧ (f a).run' s' = (.ok b, s'') := by
  rw [run'_bind]
  rcases x.run' s with ⟨e | a, s'⟩
  · simp
  · simp

@[simp] theorem run'_pure (a : α) (s : σ) : (pure a : CheriM σ α).run' s = (.ok a, s) := rfl

@[simp] theorem run'_raise (t : SimulationTrap) (s : σ) :
    (raise t : CheriM σ α).run' s = (.error (.trap t), s) := rfl

@[simp] theorem run'_throw (t : SimulationTrap) (s : σ) :
    (throw t : CheriM σ α).run' s = (.error (.trap t), s) := rfl

@[simp] theorem run'_abort (s : σ) : (abort : CheriM σ α).run' s = (.error .abort, s) := rfl

end CheriM

/-! ### Integers in memory -/

/-- The integer in the first bytes; the host is little-endian. -/
def ofBytes (b : Bytes) : (n : ℕ) → BitVec (8 * n)
  | 0 => 0#0
  | n + 1 => ofBytes (fun a => b (a + 1)) n ++ b 0

/-! ### The platform -/

/-- What does not change in a run: the hart, whether it has an MMU, the range of main memory and the
host address of its array, and the other targets of the bus, whose answer `none` is an error response.  `uninit` is what the stack holds
where `_raw_load_tagged_data` leaves the tag uninitialised; uninitialised bytes are zero. -/
structure Platform (δ : Type) where
  hartId : ℕ
  hasMmu : Bool
  dmi : MemoryDMI
  hostData : HostAddr
  transport : δ → TlmPayload → Option TlmPayload × δ
  uninit : Bool

/-- What raw accesses read and write.  `dmiEnabled` says whether the window is in `dmi_ranges`, and
`lastDmiPage` is the answer of `get_last_dmi_page_host_addr`. -/
structure World (δ : Type) where
  mem : TaggedMemory
  dev : δ
  busLock : BusLock
  dmiEnabled : Bool
  lastDmiPage : Option HostAddr

namespace World

variable {δ : Type} (p : Platform δ) (w : World δ)

/-- `atomic_unlock`: the lock is given back, if it is the hart's own. -/
def unlock : World δ := { w with busLock := w.busLock.unlock p.hartId }

/-- `wait_for_access_rights`: the hart waits until no other hart has the lock. -/
def waitForAccessRights : World δ :=
  { w with busLock := w.busLock.waitForAccessRights p.hartId }

/-- `b_transport` of the bus: the address is made local to the target. -/
def bTransport (trans : TlmPayload) : Except Stop (Option TlmPayload) × World δ :=
  if p.dmi.contains trans.address then
    match w.mem.transportDbg { trans with address := trans.address - p.dmi.start } with
    | some (mem, trans') => (.ok (some trans'), { w with mem := mem })
    | none => (.error .abort, w)
  else
    let r := p.transport w.dev trans
    (.ok r.1, { w with dev := r.2 })

/-- `_do_transaction`: the payload after it. -/
def doTransaction (cmd : TlmCommand) (addr : BitVec 64) (data : Bytes) (tag : Bool) (n : ℕ) :
    Except Stop TlmPayload × World δ :=
  match w.bTransport p ⟨cmd, addr, data, BitVec.ofNat 32 n, some tag⟩ with
  | (.ok (some t), w) => (.ok t, w)
  | (.ok none, w) =>
    (.error (.trap ⟨if cmd = .read then .loadAccessFault else .storeAmoAccessFault, addr⟩), w)
  | (.error e, w) => (.error e, w)

/-- The window is used for an address. -/
def viaDmi (addr : BitVec 64) : Bool := w.dmiEnabled && p.dmi.contains addr

/-- The host address of the page of an address; the lookup asserts that the page lies in the window. -/
def dmiPageHostAddr (addr : BitVec 64) (n : ℕ) : Option HostAddr :=
  (p.dmi.getMemPtrToGlobalAddr (pageOf addr) n).map fun off => p.hostData + BitVec.ofNat 64 off

/-- The access of `_raw_load_data`, for `sizeof(T) = n`. -/
def loadNow (addr : BitVec 64) (n : ℕ) : Except Stop (BitVec (8 * n)) × World δ :=
  if w.viaDmi p addr then
    match p.dmi.getMemPtrToGlobalAddr addr n, dmiPageHostAddr p addr n with
    | some src, some page =>
      (.ok (ofBytes (fun a => w.mem.data (src + a)) n), { w with lastDmiPage := some page })
    | _, _ => (.error .abort, w)
  else
    match w.doTransaction p .read addr (fun _ => 0) false n with
    | (.ok t, w) => (.ok (ofBytes t.data n), { w with lastDmiPage := none })
    | (.error e, w) => (.error e, w)

/-- The access of `_raw_load_tagged_data`: the bytes and the tag. -/
def loadTaggedNow (addr : BitVec 64) : Except Stop (BitVec 128 × Bool) × World δ :=
  if w.viaDmi p addr then
    match p.dmi.loadTagged w.mem addr, dmiPageHostAddr p addr clen with
    | some (data, tag), some page =>
      (.ok (ofBytes data 16, tag), { w with lastDmiPage := some page })
    | _, _ => (.error .abort, w)
  else
    match w.doTransaction p .read addr (fun _ => 0) p.uninit clen with
    | (.ok t, w) => (.ok (ofBytes t.data 16, t.ext.getD false), { w with lastDmiPage := none })
    | (.error e, w) => (.error e, w)

/-- The access of `_raw_store_data`. -/
def storeNow (addr : BitVec 64) (n : ℕ) (value : BitVec (8 * n)) : Except Stop Unit × World δ :=
  if w.viaDmi p addr then
    match p.dmi.store w.mem addr n value, dmiPageHostAddr p addr n with
    | some mem, some page => (.ok (), { w with mem := mem, lastDmiPage := some page }.unlock p)
    | _, _ => (.error .abort, w)
  else
    match w.doTransaction p .write addr (bytesOf value) false n with
    | (.ok _, w) => (.ok (), { w with lastDmiPage := none }.unlock p)
    | (.error e, w) => (.error e, w)

/-- The access of `_raw_store_tagged_data`. -/
def storeTaggedNow (addr : BitVec 64) (data : BitVec 128) (tag : Bool) :
    Except Stop Unit × World δ :=
  if w.viaDmi p addr then
    match p.dmi.storeTagged w.mem addr data tag, dmiPageHostAddr p addr clen with
    | some mem, some page => (.ok (), { w with mem := mem, lastDmiPage := some page }.unlock p)
    | _, _ => (.error .abort, w)
  else
    match w.doTransaction p .write addr (bytesOf data) tag clen with
    | (.ok _, w) => (.ok (), { w with lastDmiPage := none }.unlock p)
    | (.error e, w) => (.error e, w)

end World

/-! ### The accesses -/

section Raw

variable {δ : Type} (p : Platform δ)

/-- `_raw_load_data`: bytes at a physical address, once the bus is free or the hart's own. -/
def rawLoadData (addr : BitVec 64) (n : ℕ) : CheriM (World δ) (BitVec (8 * n)) :=
  fun w => (w.waitForAccessRights p).loadNow p addr n

/-- `_raw_load_tagged_data`: the bytes of a granule and its tag. -/
def rawLoadTaggedData (addr : BitVec 64) : CheriM (World δ) (BitVec 128 × Bool) :=
  fun w => (w.waitForAccessRights p).loadTaggedNow p addr

/-- `_raw_store_data`: bytes are stored, and tags cleared in the way of the memory or of the direct access. -/
def rawStoreData (addr : BitVec 64) (n : ℕ) (value : BitVec (8 * n)) : CheriM (World δ) Unit :=
  fun w => (w.waitForAccessRights p).storeNow p addr n value

/-- `_raw_store_tagged_data`: the bytes of a granule and its tag are stored together. -/
def rawStoreTaggedData (addr : BitVec 64) (data : BitVec 128) (tag : Bool) : CheriM (World δ) Unit :=
  fun w => (w.waitForAccessRights p).storeTaggedNow p addr data tag

/-- The accesses that address translation is made of.  The host page is of no use to it. -/
def memIf : MemIf (CheriM (World δ)) where
  rawLoad addr n := do
    let v ← rawLoadData p addr n.bytes
    return (v.setWidth 64, none)
  rawStore addr n v := do
    rawStoreData p addr n.bytes (v.setWidth _)
    return none

end Raw

end RiscvVp.Cheri
