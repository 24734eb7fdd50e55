import RiscvVp.Cheri.Capability
import RiscvVp.Cheri.Mmu
import RiscvVp.Cheri.RawMem
import RiscvVp.Mem.LsCache

/-!
# The data memory interface of the CHERI hart

The part of `CombinedTaggedMemoryInterface` (`core/rv64_cheriv9/cheri_mem.h`) that the ISS calls:
accesses that check an authorising capability first (the functions `*_via_cap`), and accesses that do
not.

`Hart.accesses` is not part of the source: it lists the accesses to data memory that have been made, by
virtual address, so that theorems can speak about them.  The reads of page table entries are not among
them.
-/

namespace RiscvVp.Cheri

/-! ### Exceptions -/

/-- The members of `CapEx` that memory accesses raise. -/
inductive CapEx
  | lengthViolation
  | tagViolation
  | sealViolation
  | permitLoadViolation
  | permitStoreViolation
  | permitLoadCapViolation
  | permitStoreCapViolation
  | permitStoreLocalCapViolation
  deriving DecidableEq, Repr

/-- The value of the enumeration, which goes into `mtval` with the number of the register. -/
def CapEx.code : CapEx → BitVec 64
  | lengthViolation => 1
  | tagViolation => 2
  | sealViolation => 3
  | permitLoadViolation => 0x12
  | permitStoreViolation => 0x13
  | permitLoadCapViolation => 0x14
  | permitStoreCapViolation => 0x15
  | permitStoreLocalCapViolation => 0x16

/-- The trap of `handle_cheri_cap_exception`: cause and register packed into one number. -/
def capException (e : CapEx) (regnum : BitVec 64) : SimulationTrap :=
  ⟨.cheriFault, (regnum <<< 5) + e.code⟩

/-- `cDdcIdx`: the number under which a CHERI exception reports the default data capability. -/
def cDdcIdx : BitVec 64 := 0b100001

/-! ### The state -/

/-- One access to data memory, as a capability has to allow it: direction, virtual address and length. -/
structure Access where
  isLoad : Bool
  vaddr : BitVec 64
  bytes : ℕ
  deriving DecidableEq, Repr

/-- What data accesses of a hart read and write.  `useLscache` says which implementation of the
load/store cache the hart has. -/
structure Hart (δ : Type) where
  world : World δ
  csrs : Csrs
  prv : PrivilegeLevel
  tlb : RiscvVp.Mmu.Tlb
  lrAddr : BitVec 64
  useLscache : Bool
  lscache : LsCache
  accesses : List Access

/-- A computation of the memory interface. -/
abbrev HartM (δ : Type) := CheriM (Hart δ)

namespace Hart

variable {δ : Type} (p : Platform δ)

/-- A raw access: it works on the world that all harts share, and leaves the hart's own state alone. -/
def raw {α : Type} (x : CheriM (World δ) α) : HartM δ α :=
  fun h => ((x.run' h.world).1, { h with world := (x.run' h.world).2 })

/-- Note an access that has been made. -/
def record (isLoad : Bool) (vaddr : BitVec 64) (bytes : ℕ) : HartM δ Unit :=
  fun h => (.ok (), { h with accesses := h.accesses ++ [⟨isLoad, vaddr, bytes⟩] })

/-- `v2p`: the physical address, with what the leaf says about the tags of capabilities that are loaded or
stored.  Without an MMU it is the address itself. -/
def v2p (vaddr : BitVec 64) (type : MemoryAccessType) (tag : Bool) : HartM δ (BitVec 64 × TagFlags) :=
  fun h =>
    if !p.hasMmu then (.ok (vaddr, ⟨false, false⟩), h)
    else
      match (Mmu.translate (memIf p) h.csrs h.prv h.tlb vaddr type tag ⟨false, false⟩).run' h.world with
      | (.ok (r, tlb), w) => (.ok r, { h with world := w, tlb := tlb })
      | (.error e, w) => (.error e, { h with world := w })

/-- Raise a trap if a check fails. -/
def check (ok : Bool) (t : SimulationTrap) : HartM δ Unit :=
  if ok then pure () else CheriM.raise t

/-- `trap_check_addr_alignment`: a misaligned address is a trap of its own kind for loads and for stores. -/
def trapCheckAddrAlignment (isLoad : Bool) (addr : BitVec 64) (alignment : ℕ) : HartM δ Unit :=
  check (addr.toNat % alignment == 0)
    ⟨if isLoad then .loadAddrMisaligned else .storeAmoAddrMisaligned, addr⟩

/-! ### Checks -/

/-- `_do_cheri_checks`: what a capability has to be like for an access: valid, not sealed, with the
permission and with the whole access inside its bounds.  The alignment is checked last. -/
def doCheriChecks (isLoad : Bool) (authIdx : BitVec 64) (auth : Capability) (addr : BitVec 64)
    (width : ℕ) : HartM δ Unit := do
  check auth.tag (capException .tagViolation authIdx)
  check (!auth.isSealed) (capException .sealViolation authIdx)
  check (!isLoad || auth.permitLoad) (capException .permitLoadViolation authIdx)
  check (isLoad || auth.permitStore) (capException .permitStoreViolation authIdx)
  check (auth.inCapBounds addr (BitVec.ofNat 64 width)) (capException .lengthViolation authIdx)
  trapCheckAddrAlignment isLoad addr width

/-- `_do_cheri_checks` with the capability that is stored. -/
def doCheriStoreChecks (authIdx : BitVec 64) (auth : Capability) (addr : BitVec 64) (width : ℕ)
    (cs2 : Capability) : HartM δ Unit := do
  doCheriChecks false authIdx auth addr width
  check (auth.permitStoreCap || !cs2.tag) (capException .permitStoreCapViolation authIdx)
  check (auth.permitStoreLocalCap || !cs2.tag || cs2.global)
    (capException .permitStoreLocalCapViolation authIdx)

/-- The checks of the functions for atomic memory operations, which do not check the alignment. -/
def amoChecks (isLoad : Bool) (authIdx : BitVec 64) (auth : Capability) (addr : BitVec 64)
    (width : ℕ) : HartM δ Unit := do
  check auth.tag (capException .tagViolation authIdx)
  check (!auth.isSealed) (capException .sealViolation authIdx)
  if isLoad then check auth.permitLoad (capException .permitLoadViolation authIdx)
  else check auth.permitStore (capException .permitStoreViolation authIdx)
  check (auth.inCapBounds addr (BitVec.ofNat 64 width)) (capException .lengthViolation authIdx)

/-! ### Accesses without checks -/

/-- `_load_data`: translation, then the access itself, which is recorded once it is done. -/
def loadData (addr : BitVec 64) (n : Width) : HartM δ (BitVec 64) := do
  let r ← v2p p addr .load false
  let data ← raw (rawLoadData p r.1 n.bytes)
  record true addr n.bytes
  return data.setWidth 64

/-- `_store_data`: the same for a store. -/
def storeData (addr : BitVec 64) (n : Width) (value : BitVec 64) : HartM δ Unit := do
  let r ← v2p p addr .store false
  raw (rawStoreData p r.1 n.bytes (value.setWidth _))
  record false addr n.bytes

/-- The functions `load_*`: the value is extended to a register with its sign or with zeros. -/
def load (op : LoadOp) (addr : BitVec 64) : HartM δ (BitVec 64) := do
  let v ← loadData p addr op.width
  return op.cast v

/-- `LSCache_T::try_add_to_cache`, after an access. -/
def tryAddToCache (addr validBits : BitVec 64) : HartM δ Unit := fun h =>
  (.ok (), { h with lscache := h.lscache.tryAddToCache addr h.world.lastDmiPage validBits })

/-- The bytes of main memory from a host address on. -/
def hostBytes (h : Hart δ) (haddr : HostAddr) : Bytes :=
  fun a => h.world.mem.data ((haddr - p.hostData).toNat + a)

/-- The load of the load/store cache.  With a valid entry it reads host memory. -/
def lscacheLoad (op : LoadOp) (addr : BitVec 64) : HartM δ (BitVec 64) := fun h =>
  let haddr := h.lscache.tryGetFromCacheLoad addr
  if !h.useLscache || h.world.busLock.locked then (load p op addr).run' h
  else if haddr = 0 then
    (do
      let v ← load p op addr
      tryAddToCache addr LsCache.loadValidBits
      return op.cast v : HartM δ (BitVec 64)).run' h
  else
    (do
      record true addr op.width.bytes
      return op.cast ((ofBytes (h.hostBytes p haddr) op.width.bytes).setWidth 64) :
      HartM δ (BitVec 64)).run' h

/-- `memcpy` to a host address in main memory.  No tag is cleared. -/
def storeHost (haddr : HostAddr) (n : Width) (value : BitVec 64) : HartM δ Unit := fun h =>
  (.ok (), { h with world := { h.world with mem := { h.world.mem with
    data := memcpy h.world.mem.data (haddr - p.hostData).toNat (bytesOf value) n.bytes } } })

/-- The store of the load/store cache. -/
def lscacheStore (n : Width) (addr value : BitVec 64) : HartM δ Unit := fun h =>
  let haddr := h.lscache.tryGetFromCacheStore addr
  if !h.useLscache || h.world.busLock.locked then (storeData p addr n value).run' h
  else if haddr = 0 then
    (do
      storeData p addr n value
      tryAddToCache addr LsCache.storeValidBits : HartM δ Unit).run' h
  else
    (do
      storeHost p haddr n value
      record false addr n.bytes : HartM δ Unit).run' h

/-- `lock`, once the bus is free or the hart's own. -/
def lock : HartM δ Unit :=
  fun h => (.ok (), { h with world := { h.world with busLock := h.world.busLock.lock p.hartId } })

/-- `is_locked(hart_id)`: the bus lock is this hart's own. -/
def isLocked : HartM δ Bool := fun h => (.ok (h.world.busLock.isLockedBy p.hartId), h)

/-- `atomic_unlock`: the lock is given back, if it is this hart's own. -/
def atomicUnlock : HartM δ Unit := fun h => (.ok (), { h with world := h.world.unlock p })

/-- Set `lr_addr`, the address that a later store-conditional is compared with. -/
def setLrAddr (addr : BitVec 64) : HartM δ Unit := fun h => (.ok (), { h with lrAddr := addr })

/-- Read `lr_addr`, the address of the last load-reserved. -/
def getLrAddr : HartM δ (BitVec 64) := fun h => (.ok h.lrAddr, h)

/-- The tag of a loaded capability after what the page says about it. -/
def useFlags (flags : TagFlags) (tag : Bool) (addr : BitVec 64) : HartM δ Bool := do
  check (!flags.trapIfCap) ⟨.cheriLoadFault, addr⟩
  return if flags.stripTag then false else tag

/-- `_raw_load_tagged_data` of a translated address, and what is made of the flags. -/
def loadTagged (addr : BitVec 64) : HartM δ Capability := do
  let r ← v2p p addr .load false
  let d ← raw (rawLoadTaggedData p r.1)
  record true addr clen
  let tag ← useFlags r.2 d.2 addr
  return Capability.ofUint128 d.1 tag

/-- `_raw_store_tagged_data` of a translated address. -/
def storeTagged (addr : BitVec 64) (value : Capability) : HartM δ Unit := do
  let r ← v2p p addr .store value.tag
  raw (rawStoreTaggedData p r.1 value.toUint128 value.tag)
  record false addr clen

/-- `_atomic_store_conditional_data` and `_atomic_store_conditional_tagged_data`, where `store` is the
store that is made if the reservation holds. -/
def storeConditional (addr : BitVec 64) (store : HartM δ Unit) : HartM δ Bool := do
  if ← isLocked p then
    if addr = (← getLrAddr) then
      store
      return true
    else
      atomicUnlock p
      return false
  else return false

/-- `atomic_load_cap`: the lock is taken before the capability is loaded, and kept. -/
def atomicLoadCap (addr : BitVec 64) : HartM δ Capability := do
  lock p
  loadTagged p addr

/-- `atomic_store_cap`; that the bus is not locked is only reported. -/
def atomicStoreCap (addr : BitVec 64) (value : Capability) : HartM δ Unit := storeTagged p addr value

/-- The read of one capability by `load_cap`, in `load_tags`. -/
def loadTagAt (vaddr paddr : BitVec 64) (i : ℕ) : HartM δ Bool := do
  let d ← raw (rawLoadTaggedData p (paddr + BitVec.ofNat 64 (i * 16)))
  record true (vaddr + BitVec.ofNat 64 (i * 16)) clen
  return d.2

/-- `load_tags`: the tags of four granules, the first one in the lowest bit.  There is one translation for
all of them. -/
def loadTags (addr : BitVec 64) : HartM δ (BitVec 64) := do
  let r ← v2p p addr .load false
  let t0 ← loadTagAt p addr r.1 0
  let t1 ← loadTagAt p addr r.1 1
  let t2 ← loadTagAt p addr r.1 2
  let t3 ← loadTagAt p addr r.1 3
  return BitVec.ofNat 64 (t0.toNat + 2 * t1.toNat + 4 * t2.toNat + 8 * t3.toNat)

/-! ### Accesses through a capability -/

/-- `handle_load_cap_via_cap`: a capability is loaded after the checks of the authority. -/
def handleLoadCapViaCap (authIdx : BitVec 64) (auth : Capability) (addr : BitVec 64) :
    HartM δ Capability := do
  doCheriChecks true authIdx auth addr clen
  loadTagged p addr

/-- `handle_load_data_via_cap`: data are loaded after the checks of the authority. -/
def handleLoadDataViaCap (authIdx : BitVec 64) (auth : Capability) (addr : BitVec 64) (op : LoadOp) :
    HartM δ (BitVec 64) := do
  doCheriChecks true authIdx auth addr op.width.bytes
  load p op addr

/-- `handle_store_data_via_cap`, for a width below that of a capability. -/
def handleStoreDataViaCap (rs2 : Capability) (authIdx : BitVec 64) (auth : Capability)
    (addr : BitVec 64) (n : Width) : HartM δ Unit := do
  doCheriChecks false authIdx auth addr n.bytes
  storeData p addr n rs2.address

/-- `handle_store_data_via_cap`, for the width of a capability. -/
def handleStoreCapViaCap (rs2 : Capability) (authIdx : BitVec 64) (auth : Capability)
    (addr : BitVec 64) : HartM δ Unit := do
  doCheriStoreChecks authIdx auth addr clen rs2
  storeTagged p addr rs2

/-- `atomic_load_reserved_data_via_cap`: after the checks the lock is taken and the address kept, and then
the value is loaded. -/
def atomicLoadReservedDataViaCap (authIdx : BitVec 64) (auth : Capability) (addr : BitVec 64)
    (op : LoadOp) : HartM δ (BitVec 64) := do
  doCheriChecks true authIdx auth addr op.width.bytes
  lock p
  setLrAddr addr
  load p op addr

/-- `atomic_load_reserved_cap_via_cap`: the same for a capability. -/
def atomicLoadReservedCapViaCap (authIdx : BitVec 64) (auth : Capability) (addr : BitVec 64) :
    HartM δ Capability := do
  doCheriChecks true authIdx auth addr clen
  lock p
  setLrAddr addr
  loadTagged p addr

/-- `atomic_store_conditional_data_via_cap`, for a width below that of a capability. -/
def atomicStoreConditionalDataViaCap (rs2 : Capability) (authIdx : BitVec 64) (auth : Capability)
    (addr : BitVec 64) (n : Width) : HartM δ Bool := do
  doCheriChecks false authIdx auth addr n.bytes
  storeConditional p addr (storeData p addr n rs2.address)

/-- `atomic_store_conditional_data_via_cap`, for the width of a capability. -/
def atomicStoreConditionalCapViaCap (rs2 : Capability) (authIdx : BitVec 64) (auth : Capability)
    (addr : BitVec 64) : HartM δ Bool := do
  doCheriStoreChecks authIdx auth addr clen rs2
  storeConditional p addr (storeTagged p addr rs2)

/-- `atomic_load_word_via_cap` and `atomic_load_double_via_cap`: the first half of an AMO, which takes the
lock. -/
def atomicLoadViaCap (op : LoadOp) (addr : BitVec 64) (auth : Capability) (authIdx : BitVec 64) :
    HartM δ (BitVec 64) := do
  amoChecks true authIdx auth addr op.width.bytes
  lock p
  load p op addr

/-- `atomic_store_word_via_cap` and `atomic_store_double_via_cap`: the second half of an AMO, whose store
gives the lock back. -/
def atomicStoreViaCap (n : Width) (addr value : BitVec 64) (auth : Capability)
    (authIdx : BitVec 64) : HartM δ Unit := do
  amoChecks false authIdx auth addr n.bytes
  storeData p addr n value

end Hart

end RiscvVp.Cheri
