import RiscvVp.Mem.Basic
import RiscvVp.Iss.Csr

/-!
# Address translation

`MMU_T` of `core/common/mmu.h`: the page walk, the translation lookaside buffer in front of it, and
`translate_virtual_to_physical_addr`.

`page_fault_on_AD` is `false` wherever the class is used, so the walk always updates the accessed and
dirty bits itself.  The source asserts that only user and supervisor mode are translated; the model
gives the unused privilege level a part of the buffer like the others.
-/

namespace RiscvVp

/-- `MemoryAccessType`: what an access is for, which decides on the permission that it needs. -/
inductive MemoryAccessType
  | fetch
  | load
  | store
  deriving DecidableEq, Repr

/-- The page fault of an access. -/
def MemoryAccessType.pageFault : MemoryAccessType → BitVec 64 → SimulationTrap
  | .fetch, vaddr => ⟨.instrPageFault, vaddr⟩
  | .load, vaddr => ⟨.loadPageFault, vaddr⟩
  | .store, vaddr => ⟨.storeAmoPageFault, vaddr⟩

/-! ### Page table entries -/

/-- `pte_t`: a page table entry, as the word that it is. -/
structure Pte where
  value : BitVec 64
  deriving DecidableEq, Repr

namespace Pte

/-- `PTE_V`: the entry is valid. -/
def v (p : Pte) : Bool := p.value.getLsbD 0

/-- `PTE_R`: the page can be read. -/
def r (p : Pte) : Bool := p.value.getLsbD 1

/-- `PTE_W`: the page can be written. -/
def w (p : Pte) : Bool := p.value.getLsbD 2

/-- `PTE_X`: instructions can be fetched from the page. -/
def x (p : Pte) : Bool := p.value.getLsbD 3

/-- `PTE_U`: the page is one for user mode. -/
def u (p : Pte) : Bool := p.value.getLsbD 4

/-- `pte >> PTE_PPN_SHIFT`: the number of the page, with all the bits above it. -/
def ppn (p : Pte) : BitVec 64 := p.value >>> 10

/-- `PTE_A | ((type == STORE) * PTE_D)`. -/
def ad : MemoryAccessType → BitVec 64
  | .store => 0xC0
  | _ => 0x40

/-- The access is allowed by the permission bits, `SUM` and `MXR`, for supervisor mode or not. -/
def permits (p : Pte) (sMode sum mxr : Bool) (type : MemoryAccessType) : Bool :=
  (match type with
    | .fetch => p.x
    | .load => p.r || (mxr && p.x)
    | .store => p.r && p.w) &&
  (if p.u then !(sMode && (type == .fetch || !sum)) else sMode)

end Pte

/-- `vm_info`: the shape of the tables: how many levels there are, how many bits of the address each one
takes, how large an entry is and where the root lies. -/
structure VmInfo where
  levels : ℕ
  idxbits : ℕ
  ptesize : BitVec 64
  ptbase : BitVec 64
  deriving DecidableEq, Repr

/-- `decode_vm_info`; it is not called in bare mode. -/
def decodeVmInfo (satp : Satp) : VmInfo :=
  let ptbase := satp.ppn.setWidth 64 <<< 12
  match satp.mode with
  | .sv48 => ⟨4, 9, 8, ptbase⟩
  | _ => ⟨3, 9, 8, ptbase⟩

/-- `check_vaddr_extension`: the bits above the virtual address are all equal to its highest one. -/
def checkVaddrExtension (vaddr : BitVec 64) (vm : VmInfo) : Bool :=
  let highbit := vm.idxbits * vm.levels + 12 - 1
  let extMask : BitVec 64 := (1 <<< (64 - highbit)) - 1
  let bits := (vaddr >>> highbit) &&& extMask
  bits == 0 || bits == extMask

namespace Mmu

variable {m : Type → Type} [Monad m] [MonadExceptOf SimulationTrap m] (mem : MemIf m)

/-- `mmu_load_pte64`: an entry of eight bytes is read. -/
def mmuLoadPte64 (addr : BitVec 64) : m (BitVec 64) := do
  let r ← mem.rawLoad addr .double
  return r.1

/-- `mmu_store_pte32`: the low word of an entry is written. -/
def mmuStorePte32 (addr value : BitVec 64) : m Unit := do
  let _ ← mem.rawStore addr .word value

/-- The physical address that a leaf at a level of `ptshift` gives. -/
def leafAddr (ppn vaddr : BitVec 64) (ptshift : ℕ) : BitVec 64 :=
  let mask : BitVec 64 := (1 <<< ptshift) - 1
  let vpn := vaddr >>> 12
  (((ppn &&& ~~~mask) ||| (vpn &&& mask)) <<< 12) ||| pageOffset vaddr

/-- The loop of `walk`: `n` levels are left, the table is at `base`.  Leaving the loop by `break`, or
because no level is left, raises the page fault. -/
def walkFrom (idxbits : ℕ) (ptesize vaddr : BitVec 64) (type : MemoryAccessType)
    (sMode sum mxr : Bool) : ℕ → BitVec 64 → m (BitVec 64)
  | 0, _ => throw (type.pageFault vaddr)
  | n + 1, base => do
    let ptshift := n * idxbits
    let vpnField := (vaddr >>> (12 + ptshift)) &&& ((1 <<< idxbits) - 1)
    let ptePaddr := base + vpnField * ptesize
    let pte : Pte := ⟨← mmuLoadPte64 mem ptePaddr⟩
    if !pte.v || (!pte.r && pte.w) then
      throw (type.pageFault vaddr)
    else if !pte.r && !pte.x then
      walkFrom idxbits ptesize vaddr type sMode sum mxr n (pte.ppn <<< 12)
    else if !pte.permits sMode sum mxr type then
      throw (type.pageFault vaddr)
    else if pte.ppn &&& ((1 <<< ptshift) - 1) ≠ 0 then
      throw (type.pageFault vaddr)
    else
      if pte.value &&& Pte.ad type ≠ Pte.ad type then
        mmuStorePte32 mem ptePaddr (pte.value ||| Pte.ad type)
      return leafAddr pte.ppn vaddr ptshift

/-- `walk`: the tables are walked from the root, or not at all for an address that is not a virtual one,
which is then a fault. -/
def walk (csrs : Csrs) (vaddr : BitVec 64) (type : MemoryAccessType) (mode : PrivilegeLevel) :
    m (BitVec 64) :=
  let vm := decodeVmInfo csrs.satp
  let levels := if checkVaddrExtension vaddr vm then vm.levels else 0
  walkFrom mem vm.idxbits vm.ptesize vaddr type (mode == .supervisor) csrs.mstatus.sum
    csrs.mstatus.mxr levels vm.ptbase

/-! ### The translation lookaside buffer -/

/-- `tlb_entry_t`: a virtual page and the physical one that it stands for. -/
structure TlbEntry where
  ppn : BitVec 64
  vpn : BitVec 64
  deriving DecidableEq, Repr

/-- `TLB_ENTRIES`: the entries for each mode and kind of access. -/
def tlbEntries : ℕ := 256

/-- `tlb`: a direct-mapped table for each mode and each kind of access. -/
def Tlb := PrivilegeLevel → MemoryAccessType → Fin tlbEntries → TlbEntry

/-- `flush_tlb`: all bits are set. -/
def Tlb.flush : Tlb := fun _ _ _ => ⟨BitVec.allOnes 64, BitVec.allOnes 64⟩

/-- `vpn % TLB_ENTRIES`: where the entry of a page is looked for. -/
def tlbIdx (vpn : BitVec 64) : Fin tlbEntries := ⟨vpn.toNat % tlbEntries, Nat.mod_lt _ (by decide)⟩

/-- Write one entry; all the others stay. -/
def Tlb.set (t : Tlb) (mode : PrivilegeLevel) (type : MemoryAccessType) (i : Fin tlbEntries)
    (e : TlbEntry) : Tlb :=
  fun mode' type' i' => if mode' = mode ∧ type' = type ∧ i' = i then e else t mode' type' i'

theorem tlb_set_self (t : Tlb) (mode : PrivilegeLevel) (type : MemoryAccessType)
    (i : Fin tlbEntries) (e : TlbEntry) : t.set mode type i e mode type i = e :=
  if_pos ⟨rfl, rfl, rfl⟩

/-- The mode whose translation applies to an access, `none` if it is not translated: in bare mode and
for machine mode.  `MPRV` does not apply to fetches. -/
def translationMode (csrs : Csrs) (prv : PrivilegeLevel) (type : MemoryAccessType) :
    Option PrivilegeLevel :=
  if csrs.satp.mode = .bare then none
  else
    let mode := if type ≠ .fetch ∧ csrs.mstatus.mprv then csrs.mstatus.mpp else prv
    if mode = .machine then none else some mode

/-- `translate_virtual_to_physical_addr`, with the buffer after it. -/
def translate (csrs : Csrs) (prv : PrivilegeLevel) (tlb : Tlb) (vaddr : BitVec 64)
    (type : MemoryAccessType) : m (BitVec 64 × Tlb) :=
  match translationMode csrs prv type with
  | none => return (vaddr, tlb)
  | some mode => do
    let vpn := vaddr >>> 12
    let x := tlb mode type (tlbIdx vpn)
    if x.vpn = vpn then
      return (x.ppn ||| pageOffset vaddr, tlb)
    else
      let paddr ← walk mem csrs vaddr type mode
      return (paddr, tlb.set mode type (tlbIdx vpn) ⟨pageOf paddr, vpn⟩)

end Mmu

end RiscvVp
