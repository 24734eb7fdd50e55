import RiscvVp.Trap
import Mathlib

/-!
# Physical memory

What lies below address translation: host memory and the DMI windows onto it (`core/common/dmi.h`),
the bus lock (`platform/common/bus.h`), TLM transactions, and the raw accesses
`_raw_load_data`/`_raw_store_data` of `core/common/mem.h`.

`MemIf` is the interface the layers above are written against, in an arbitrary monad: `MemM` runs an
access to its end, while a monad that stops at every access lets harts interleave.  Timing
(`quantum_keeper`, `commit_cycles`) is not part of the model.

The members `last_access_was_dmi` and `last_dmi_page_host_addr` are only read right after the access
that wrote them, so an access returns the address of its host page instead: `none` stands for an
access that was not made through DMI.
-/

namespace RiscvVp

/-! ### Host memory -/

/-- The widths of an access. -/
inductive Width
  | byte
  | half
  | word
  | double
  deriving DecidableEq, Repr

/-- `sizeof(T)`: the bytes of an access. -/
def Width.bytes : Width → ℕ
  | .byte => 1
  | .half => 2
  | .word => 4
  | .double => 8

/-- The width in bits. -/
def Width.bits (n : Width) : ℕ := 8 * n.bytes

/-- An address of the host. -/
abbrev HostAddr := BitVec 64

/-- The memory of the host, in which the simulated memories are arrays. -/
def Host := HostAddr → BitVec 8

namespace Host

/-- `memcpy(&ans, src, n)` into a zeroed `ans`; the host is little-endian. -/
def load (m : Host) (a : HostAddr) : ℕ → BitVec 64
  | 0 => 0
  | n + 1 => m.load (a + 1) n <<< 8 ||| (m a).setWidth 64

/-- `memcpy(dst, &value, n)`: the low bytes of the value, the least significant one first. -/
def store (m : Host) (a : HostAddr) : ℕ → BitVec 64 → Host
  | 0, _ => m
  | n + 1, v => store (Function.update m a (v.setWidth 8)) (a + 1) n (v >>> 8)

end Host

/-- The value of an access of a given width, zero-extended. -/
def Width.truncate (n : Width) (v : BitVec 64) : BitVec 64 := (v.setWidth n.bits).setWidth 64

/-- `MemoryDMI`; the constructors assert that the range is not empty and does not wrap around. -/
structure MemoryDMI where
  mem : HostAddr
  start : BitVec 64
  size : BitVec 64
  nonempty : start < start + size
  deriving DecidableEq, Repr

namespace MemoryDMI

/-- 16 KiB at address zero do not wrap around. -/
theorem nonempty_16K : (0 : BitVec 64) < 0 + 0x4000 := by decide

/-- The member `end`: the first address behind the range, in 64 bits. -/
def stop (d : MemoryDMI) : BitVec 64 := d.start + d.size

/-- `contains`: the address lies in the range; how far an access from there reaches is not looked at. -/
def contains (d : MemoryDMI) (addr : BitVec 64) : Bool :=
  decide (d.start ≤ addr) && decide (addr < d.stop)

/-- `get_mem_ptr_to_global_addr`: the host address of a byte of the range. -/
def getMemPtrToGlobalAddr (d : MemoryDMI) (addr : BitVec 64) : HostAddr := d.mem + (addr - d.start)

end MemoryDMI

/-- The start of the 4 KiB page of an address: `addr & ~0xFFF`. -/
def pageOf (addr : BitVec 64) : BitVec 64 := addr &&& ~~~0xFFF

/-- The offset in the page: `addr & 0xFFF`. -/
def pageOffset (addr : BitVec 64) : BitVec 64 := addr &&& 0xFFF

/-! ### The bus -/

/-- `BusLock`: whether the bus is locked, and the hart that has locked it last. -/
structure BusLock where
  locked : Bool
  owner : ℕ
  deriving DecidableEq, Repr

namespace BusLock

/-- `is_locked(hart_id)`: the bus is locked by this hart. -/
def isLockedBy (l : BusLock) (hart : ℕ) : Bool := l.locked && l.owner == hart

/-- `unlock`: only the hart that has locked the bus can give it free. -/
def unlock (l : BusLock) (hart : ℕ) : BusLock :=
  if l.isLockedBy hart then { l with locked := false } else l

/-- A lock that is given back is not held. -/
theorem isLockedBy_unlock (l : BusLock) (hart : ℕ) : (l.unlock hart).isLockedBy hart = false := by
  unfold unlock
  cases h : l.isLockedBy hart with
  | false =>
    rw [if_neg Bool.false_ne_true]
    exact h
  | true => rfl

/-- `lock`, once the bus is free or the hart's own. -/
def lock (_l : BusLock) (hart : ℕ) : BusLock := { locked := true, owner := hart }

/-- `wait_until_unlocked` has returned: the owner has given the lock back. -/
def waitUntilUnlocked (l : BusLock) : BusLock := { l with locked := false }

/-- `wait_for_access_rights` has returned: the bus was free or the hart's own, or another hart has given it
free. -/
def waitForAccessRights (l : BusLock) (hart : ℕ) : BusLock :=
  if l.locked && !l.isLockedBy hart then l.waitUntilUnlocked else l

end BusLock

/-- What harts share: host memory, the devices and the lock. -/
structure World (δ : Type) where
  host : Host
  dev : δ
  busLock : BusLock

/-- `b_transport` on everything that is connected to the bus.  `none` is an error response.  The
memories among it are arrays of host memory (`platform/common/memory.h`): where `ram` gives a place,
eight bytes of memory lie there, and accesses copy to and from them. -/
structure Bus (δ : Type) where
  read : Host → δ → BitVec 64 → Width → Option (BitVec 64) × δ
  write : Host → δ → BitVec 64 → Width → BitVec 64 → Option Unit × Host × δ
  ram : BitVec 64 → Option HostAddr
  read_ram : ∀ h d a n p, ram a = some p → read h d a n = (some (h.load p n.bytes), d)
  write_ram : ∀ h d a n v p, ram a = some p → write h d a n v = (some (), h.store p n.bytes v, d)

/-- A bus with nothing connected to it: `TLM_ADDRESS_ERROR_RESPONSE` at every address. -/
def Bus.empty : Bus Unit where
  read _ d _ _ := (none, d)
  write h d _ _ _ := (none, h, d)
  ram _ := none
  read_ram := by nofun
  write_ram := by nofun

/-! ### The interface to the layers above -/

/-- The accesses that address translation is made of. -/
structure MemIf (m : Type → Type) where
  /-- `_raw_load_data` -/
  rawLoad : BitVec 64 → Width → m (BitVec 64 × Option HostAddr)
  /-- `_raw_store_data` -/
  rawStore : BitVec 64 → Width → BitVec 64 → m (Option HostAddr)

/-- A computation on memory that may throw. -/
abbrev MemM (σ : Type) := ExceptT SimulationTrap (StateM σ)

namespace MemM

variable {σ α β : Type}

/-- The outcome and the state it leaves. -/
def run' (x : MemM σ α) (s : σ) : Except SimulationTrap α × σ := x s

theorem run'_bind (x : MemM σ α) (f : α → MemM σ β) (s : σ) :
    (x >>= f).run' s =
      match x.run' s with
      | (.ok a, s') => (f a).run' s'
      | (.error t, s') => (.error t, s') := by
  show (ExceptT.bind x f) s = _
  simp only [ExceptT.bind, ExceptT.mk, bind, StateT.bind, run']
  rcases x s with ⟨a | a, s'⟩ <;> rfl

@[simp] theorem run'_pure (a : α) (s : σ) : (pure a : MemM σ α).run' s = (.ok a, s) := rfl

@[simp] theorem run'_throw (t : SimulationTrap) (s : σ) :
    (throw t : MemM σ α).run' s = (.error t, s) := rfl

end MemM

namespace World

variable {δ : Type}

/-- `atomic_unlock`: the lock is given back, if it is the hart's own. -/
def unlock (w : World δ) (hart : ℕ) : World δ := { w with busLock := w.busLock.unlock hart }

variable (bus : Bus δ) (hart : ℕ) (dmiRanges : List MemoryDMI)

/-- The access of `_raw_load_data`, after `wait_for_access_rights`. -/
def loadNow (w : World δ) (addr : BitVec 64) (n : Width) :
    Except SimulationTrap (BitVec 64 × Option HostAddr) × World δ :=
  match dmiRanges.find? fun e => e.contains addr with
  | some e =>
    (.ok (w.host.load (e.getMemPtrToGlobalAddr addr) n.bytes,
      some (e.getMemPtrToGlobalAddr (pageOf addr))), w)
  | none =>
    match bus.read w.host w.dev addr n with
    | (some v, dev) => (.ok (n.truncate v, none), { w with dev })
    | (none, dev) => (.error ⟨.loadPageFault, addr⟩, { w with dev })

/-- The access of `_raw_store_data`, after `wait_for_access_rights`.  A failed transaction throws
before `atomic_unlock`. -/
def storeNow (w : World δ) (addr : BitVec 64) (n : Width) (v : BitVec 64) :
    Except SimulationTrap (Option HostAddr) × World δ :=
  match dmiRanges.find? fun e => e.contains addr with
  | some e =>
    (.ok (some (e.getMemPtrToGlobalAddr (pageOf addr))),
      { w with host := w.host.store (e.getMemPtrToGlobalAddr addr) n.bytes v }.unlock hart)
  | none =>
    match bus.write w.host w.dev addr n (n.truncate v) with
    | (some (), host, dev) => (.ok none, { w with host, dev }.unlock hart)
    | (none, host, dev) => (.error ⟨.storeAmoPageFault, addr⟩, { w with host, dev })

/-- `wait_for_access_rights`: the hart waits until no other hart has the lock. -/
def waitForAccessRights (w : World δ) : World δ :=
  { w with busLock := w.busLock.waitForAccessRights hart }

/-- The accesses of one hart, each run to its end. -/
def memIf : MemIf (MemM (World δ)) where
  rawLoad addr n := fun w => (w.waitForAccessRights hart).loadNow bus dmiRanges addr n
  rawStore addr n v := fun w => (w.waitForAccessRights hart).storeNow bus hart dmiRanges addr n v

end World

end RiscvVp
