import RiscvVp.Mem.Mmu

/-!
# The load/store cache

The data accesses of an RV64 hart: the translating accesses of `CombinedMemoryInterface_T`
(`core/common/mem.h`), the load/store cache in front of them (`core/common/lscache.h`) in its
functional form and as the interface without a cache, and `enable_datadmi` of the ISS.

Addresses of the host are never null where they point to memory, and the cache uses the null pointer
for "not found"; the model does the same with zero.  Statistics are not part of the model.
-/

namespace RiscvVp

/-! ### DMI ranges -/

/-- The DMI ranges of `CombinedMemoryInterface_T`: those in use and those put aside.  Ranges are added
to the list that `_dmi_enabled` selects before the simulation starts, and swapped ever since. -/
structure DmiRanges where
  dmiEnabled : Bool
  dmiRanges : List MemoryDMI
  dmiRangesDisabled : List MemoryDMI
  oneEmpty : (if dmiEnabled then dmiRangesDisabled else dmiRanges) = []

/-- A range of 16 KiB in use, and none put aside. -/
theorem DmiRanges.oneEmpty_16K :
    (if true then [] else [(⟨0, 0, 0x4000, MemoryDMI.nonempty_16K⟩ : MemoryDMI)]) = [] := rfl

/-- `dmi_enable`: the ranges for direct access are moved to a list of their own while they are disabled, and
back afterwards. -/
def DmiRanges.dmiEnable (d : DmiRanges) (ena : Bool) : DmiRanges :=
  if h : ena = d.dmiEnabled then d
  else
    { dmiEnabled := ena, dmiRanges := d.dmiRangesDisabled, dmiRangesDisabled := d.dmiRanges
      oneEmpty := by
        have hd := d.oneEmpty
        cases ena <;> cases hb : d.dmiEnabled <;> simp_all }

/-! ### Loads of all widths -/

/-- The functions `load_*`, by the width of the access and by the sign of the result. -/
inductive LoadOp
  | double
  | word
  | half
  | byte
  | uword
  | uhalf
  | ubyte
  deriving DecidableEq, Repr

namespace LoadOp

/-- The width of the access. -/
def width : LoadOp → Width
  | double => .double
  | word | uword => .word
  | half | uhalf => .half
  | byte | ubyte => .byte

/-- The value as the type that is loaded, extended to a register. -/
def cast (op : LoadOp) (v : BitVec 64) : BitVec 64 :=
  match op with
  | double => v
  | word => (v.setWidth 32).signExtend 64
  | half => (v.setWidth 16).signExtend 64
  | byte => (v.setWidth 8).signExtend 64
  | uword => (v.setWidth 32).setWidth 64
  | uhalf => (v.setWidth 16).setWidth 64
  | ubyte => (v.setWidth 8).setWidth 64

theorem cast_cast (op : LoadOp) (v : BitVec 64) : op.cast (op.cast v) = op.cast v := by
  cases op <;> simp only [cast]
  all_goals
    congr 1
    apply BitVec.eq_of_getLsbD_eq
    intro i hi
    simp [BitVec.getLsbD_signExtend, hi]
    try omega

/-- `load_byte` to `load_double`: the function for a width that extends the sign. -/
def signed : Width → LoadOp
  | .byte => byte
  | .half => half
  | .word => word
  | .double => double

@[simp] theorem width_signed (n : Width) : (signed n).width = n := by
  cases n <;> rfl

theorem cast_signed (n : Width) (v : BitVec 64) :
    (signed n).cast v = (v.setWidth (8 * n.bytes)).signExtend 64 := by
  cases n with
  | double =>
    show v = (v.setWidth 64).signExtend 64
    rw [BitVec.setWidth_eq, BitVec.signExtend_eq]
  | byte | half | word => rfl

end LoadOp

/-! ### Atomic memory operations -/

/-- The operations of the A extension, on words or on double words. -/
inductive AmoOp
  | swap
  | add
  | xor
  | and
  | or
  | min
  | minu
  | max
  | maxu
  deriving DecidableEq, Repr

/-- The lambda expression that is passed to `execute_amo_w` and `execute_amo_d`: the operands have the signed
type of the width, and the unsigned minimum and maximum cast both of them. -/
def AmoOp.operation {w : ℕ} (op : AmoOp) (a b : BitVec w) : BitVec w :=
  match op with
  | .swap => b
  | .add => a + b
  | .xor => a ^^^ b
  | .and => a &&& b
  | .or => a ||| b
  | .min => if b.slt a then b else a
  | .minu => if b.ult a then b else a
  | .max => if a.slt b then b else a
  | .maxu => if a.ult b then b else a

/-! ### The cache -/

/-- `LSCache_T::Entry`: the tag of a virtual page with its valid bits, and the address of the page in the
host. -/
structure LsEntry where
  tagValid : BitVec 64
  hostPageAddr : HostAddr
  deriving DecidableEq, Repr

/-- The members of `LSCache_T`; there are `LSCACHE_SETS` entries. -/
structure LsCache where
  enabled : Bool
  cache : BitVec 8 → LsEntry

namespace LsCache

/-- `LSCACHE_IDX`: the entry for a virtual page, by the low eight bits of its number. -/
def idx (virtAddr : BitVec 64) : BitVec 8 := ((virtAddr &&& 0xFF000) >>> 12).setWidth 8

/-- `LSCACHE_TAG`: the rest of the page number, in its place in the address, so that the low bits are free. -/
def tag (virtAddr : BitVec 64) : BitVec 64 := virtAddr &&& ~~~0xFFFFF

/-- `LSCACHE_LOAD_VALID_BITS`: the entry may be used for loads. -/
def loadValidBits : BitVec 64 := 1

/-- `LSCACHE_STORE_VALID_BITS`: load and store. -/
def storeValidBits : BitVec 64 := 2 ||| loadValidBits

/-- `update`: the entry of the page is overwritten, also if it was that of another page. -/
def update (c : LsCache) (virtAddr : BitVec 64) (hostPageAddr : HostAddr) (validBits : BitVec 64) :
    LsCache :=
  { c with cache := Function.update c.cache (idx virtAddr) ⟨tag virtAddr ||| validBits, hostPageAddr⟩ }

/-- `try_get_from_cache_load`: the host address if the entry is valid for loads, and else the null pointer. -/
def tryGetFromCacheLoad (c : LsCache) (virtAddr : BitVec 64) : HostAddr :=
  let e := c.cache (idx virtAddr)
  if tag virtAddr ||| loadValidBits = e.tagValid &&& ~~~2 then e.hostPageAddr + pageOffset virtAddr
  else 0

/-- `try_get_from_cache_store`: the same for stores, which need both valid bits. -/
def tryGetFromCacheStore (c : LsCache) (virtAddr : BitVec 64) : HostAddr :=
  let e := c.cache (idx virtAddr)
  if tag virtAddr ||| storeValidBits = e.tagValid then e.hostPageAddr + pageOffset virtAddr else 0

/-- `try_add_to_cache`, with the answer of `get_last_dmi_page_host_addr`. -/
def tryAddToCache (c : LsCache) (virtAddr : BitVec 64) (lastDmiPage : Option HostAddr)
    (validBits : BitVec 64) : LsCache :=
  let hostPageAddr := lastDmiPage.getD 0
  if hostPageAddr ≠ 0 then
    if c.enabled then c.update virtAddr hostPageAddr validBits else c
  else c

/-- `flush`: no entry is valid any more. -/
def flush (c : LsCache) : LsCache := { c with cache := fun _ => ⟨0, 0⟩ }

/-- `LSCache_T::enable`: disabling flushes, enabling just sets the flag. -/
def enable (c : LsCache) (ena : Bool) : LsCache :=
  if ena = c.enabled then c
  else if ena then { c with enabled := ena }
  else { c with enabled := ena }.flush

end LsCache

/-! ### Data accesses -/

/-- What data accesses of a hart read and write. -/
structure Core (δ : Type) where
  world : World δ
  csrs : Csrs
  prv : PrivilegeLevel
  tlb : Mmu.Tlb
  dmi : DmiRanges
  lscache : LsCache

namespace Core

variable {δ : Type} (bus : Bus δ) (hart : ℕ)

/-- The raw accesses with the DMI ranges in use. -/
def memIf (c : Core δ) : MemIf (MemM (World δ)) := World.memIf bus hart c.dmi.dmiRanges

/-- `v2p`: the translation of the MMU, which may fill the TLB and set bits of a page table entry. -/
def v2p (c : Core δ) (vaddr : BitVec 64) (type : MemoryAccessType) :
    Except SimulationTrap (BitVec 64) × Core δ :=
  match (Mmu.translate (c.memIf bus hart) c.csrs c.prv c.tlb vaddr type).run' c.world with
  | (.ok (paddr, tlb), w) => (.ok paddr, { c with world := w, tlb := tlb })
  | (.error t, w) => (.error t, { c with world := w })

/-- `_load_data`: the value, and the host address of its last access if that was a direct one. -/
def loadData (c : Core δ) (addr : BitVec 64) (n : Width) :
    Except SimulationTrap (BitVec 64 × Option HostAddr) × Core δ :=
  match c.v2p bus hart addr .load with
  | (.ok paddr, c) =>
    let r := ((c.memIf bus hart).rawLoad paddr n).run' c.world
    (r.1, { c with world := r.2 })
  | (.error t, c) => (.error t, c)

/-- `_store_data`: the same for a store. -/
def storeData (c : Core δ) (addr : BitVec 64) (n : Width) (value : BitVec 64) :
    Except SimulationTrap (Option HostAddr) × Core δ :=
  match c.v2p bus hart addr .store with
  | (.ok paddr, c) =>
    let r := ((c.memIf bus hart).rawStore paddr n value).run' c.world
    (r.1, { c with world := r.2 })
  | (.error t, c) => (.error t, c)

/-- `flush_tlb`: no translation is known any more. -/
def flushTlb (c : Core δ) : Core δ := { c with tlb := Mmu.Tlb.flush }

/-- The functions `load_*` of the data memory interface. -/
def load (c : Core δ) (op : LoadOp) (addr : BitVec 64) :
    Except SimulationTrap (BitVec 64 × Option HostAddr) × Core δ :=
  match c.loadData bus hart addr op.width with
  | (.ok (v, h), c) => (.ok (op.cast v, h), c)
  | (.error t, c) => (.error t, c)

end Core

/-! ### The interface of the cache and its two implementations -/

/-- The functions of `LSCache_IF_T` that the ISS calls. -/
structure LsCacheIf (δ : Type) where
  load : Core δ → LoadOp → BitVec 64 → Except SimulationTrap (BitVec 64) × Core δ
  store : Core δ → Width → BitVec 64 → BitVec 64 → Except SimulationTrap Unit × Core δ
  flush : Core δ → Core δ
  enable : Core δ → Bool → Core δ
  fenceVma : Core δ → Core δ

namespace LsCacheIf

variable {δ : Type} (bus : Bus δ) (hart : ℕ)

/-- `LSCache_IF_T`: every access goes to the data memory. -/
def dummy : LsCacheIf δ where
  load c op addr := let r := c.load bus hart op addr; (r.1.map (·.1), r.2)
  store c n addr value := let r := c.storeData bus hart addr n value; (r.1.map fun _ => (), r.2)
  flush c := c
  enable c ena := { c with lscache := { c.lscache with enabled := ena } }
  fenceVma c := c.flushTlb

/-- `LSCache_T::load`: a hit reads host memory at once.  A miss does the whole access, and its page is
remembered if that was a direct one.  While the bus is locked the cache is not used. -/
def cachedLoad (c : Core δ) (op : LoadOp) (addr : BitVec 64) :
    Except SimulationTrap (BitVec 64) × Core δ :=
  if c.world.busLock.locked then
    let r := c.load bus hart op addr
    (r.1.map (·.1), r.2)
  else
    let haddr := c.lscache.tryGetFromCacheLoad addr
    if haddr = 0 then
      match c.load bus hart op addr with
      | (.ok (v, h), c) =>
        (.ok (op.cast v),
          { c with lscache := c.lscache.tryAddToCache addr h LsCache.loadValidBits })
      | (.error t, c) => (.error t, c)
    else (.ok (op.cast (c.world.host.load haddr op.width.bytes)), c)

/-- `LSCache_T::store`: the same for a store, whose page is remembered for loads and stores. -/
def cachedStore (c : Core δ) (n : Width) (addr value : BitVec 64) :
    Except SimulationTrap Unit × Core δ :=
  if c.world.busLock.locked then
    let r := c.storeData bus hart addr n value
    (r.1.map fun _ => (), r.2)
  else
    let haddr := c.lscache.tryGetFromCacheStore addr
    if haddr = 0 then
      match c.storeData bus hart addr n value with
      | (.ok h, c) =>
        (.ok (), { c with lscache := c.lscache.tryAddToCache addr h LsCache.storeValidBits })
      | (.error t, c) => (.error t, c)
    else
      (.ok (), { c with world := { c.world with host := c.world.host.store haddr n.bytes value } })

/-- `LSCache_T`: the functions of the cache that the hart calls. -/
def functional : LsCacheIf δ where
  load := cachedLoad bus hart
  store := cachedStore bus hart
  flush c := { c with lscache := c.lscache.flush }
  enable c ena := { c with lscache := c.lscache.enable ena }
  fenceVma c := { c with lscache := c.lscache.flush }.flushTlb

/-- `ISS::enable_datadmi`: direct access is turned on or off at run time, and without it the cache may not
keep any host address. -/
def enableDatadmi (ls : LsCacheIf δ) (c : Core δ) (ena : Bool) : Core δ :=
  let c := { c with dmi := c.dmi.dmiEnable ena }
  if !c.dmi.dmiEnabled then ls.flush c else c

end LsCacheIf

end RiscvVp
