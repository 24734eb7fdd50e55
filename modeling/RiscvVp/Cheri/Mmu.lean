import RiscvVp.Mem.Mmu

/-!
# Address translation with capabilities

`MMU_T` of `core/common_cheriv9/mmu.h`: the page walk also looks at the five bits of an entry that
govern capabilities, and answers by two flags what a load has to do with the tag.  The buffer in front
of it is that of `core/common/mmu.h` and keeps page numbers only.
-/

namespace RiscvVp

/-! ### Page table entries -/

namespace Pte

/-- `CHERI_PERM_MASK`: an entry without the five bits that are about capabilities. -/
def cheriPermMask : BitVec 64 := 0x7FFFFFFFFFFFFFF

/-- `(pte & CHERI_PERM_MASK) >> PTE_PPN_SHIFT`. -/
def cheriPpn (p : Pte) : BitVec 64 := (p.value &&& cheriPermMask) >>> 10

/-- `PTE_CW`: capabilities with their tags can be written to the page. -/
def cw (p : Pte) : Bool := p.value.getLsbD 63

/-- `PTE_CR`: capabilities can be read from the page with their tags. -/
def cr (p : Pte) : Bool := p.value.getLsbD 62

/-- `PTE_CD`: a capability has been written to the page. -/
def cd (p : Pte) : Bool := p.value.getLsbD 61

/-- The mask `PTE_CD`, which the walk ors into an entry. -/
def cdBit : BitVec 64 := 0x2000000000000000

/-- The mask `PTE_D`, for a page that has been written. -/
def dBit : BitVec 64 := 0x80

/-- `PTE_CRM`: the reading of tags depends on a further bit. -/
def crm (p : Pte) : Bool := p.value.getLsbD 60

/-- `PTE_CRG`: that further bit, the generation. -/
def crg (p : Pte) : Bool := p.value.getLsbD 59

end Pte

namespace Cheri

/-- `cheri_load_perms`: what becomes of the tag of a capability that is loaded from the page. -/
inductive CheriLoadPerms
  | stripTags
  | faults
  | unaltered
  | reserved
  deriving DecidableEq, Repr

/-- `CHERI_LOAD_PERMS`: the three bits of the entry as one of these cases. -/
def cheriLoadPerms (p : Pte) : CheriLoadPerms :=
  match p.cr, p.crm, p.crg with
  | false, false, false => .stripTags
  | false, true, false => .faults
  | true, false, false => .unaltered
  | _, _, _ => .reserved

/-- What the caller passes as `trap_if_cap` and `strip_tag`. -/
structure TagFlags where
  trapIfCap : Bool
  stripTag : Bool
  deriving DecidableEq, Repr

/-- The flags after a load by these permissions; the reserved ones leave them. -/
def TagFlags.apply (f : TagFlags) : CheriLoadPerms → TagFlags
  | .stripTags => { f with stripTag := true }
  | .unaltered => ⟨false, false⟩
  | .faults => { f with trapIfCap := true }
  | .reserved => f

namespace Mmu

open RiscvVp.Mmu (mmuLoadPte64 mmuStorePte32 leafAddr Tlb tlbIdx translationMode)

variable {m : Type → Type} [Monad m] [MonadExceptOf SimulationTrap m] (mem : MemIf m)

/-- The flags after the `switch` of `walk`, which is made for loads only. -/
def loadFlags (type : MemoryAccessType) (pte : Pte) (flags : TagFlags) : TagFlags :=
  if type = .load then flags.apply (cheriLoadPerms pte) else flags

/-- What `walk` does for a store of a tagged capability. -/
def storeTagged (vaddr : BitVec 64) (type : MemoryAccessType) (tag : Bool) (ptePaddr : BitVec 64)
    (pte : Pte) : m Unit :=
  if tag ∧ type = .store then
    if !pte.cw then throw ⟨.cheriStoreFault, vaddr⟩
    else if !pte.cd then
      -- the function stores the lower 32 bits, `PTE_CD` is not among them
      mmuStorePte32 mem ptePaddr (pte.value ||| Pte.cdBit ||| Pte.dBit)
    else pure ()
  else pure ()

/-- The update of the accessed and dirty bits. -/
def updateAD (type : MemoryAccessType) (ptePaddr : BitVec 64) (pte : Pte) : m Unit :=
  if pte.value &&& Pte.ad type ≠ Pte.ad type then
    mmuStorePte32 mem ptePaddr (pte.value ||| Pte.ad type)
  else pure ()

/-- The loop of `walk`: `n` levels are left, the table is at `base`. -/
def walkFrom (idxbits : ℕ) (ptesize vaddr : BitVec 64) (type : MemoryAccessType)
    (sMode sum mxr tag : Bool) (flags : TagFlags) : ℕ → BitVec 64 → m (BitVec 64 × TagFlags)
  | 0, _ => throw (type.pageFault vaddr)
  | n + 1, base => do
    let ptshift := n * idxbits
    let vpnField := (vaddr >>> (12 + ptshift)) &&& ((1 <<< idxbits) - 1)
    let ptePaddr := base + vpnField * ptesize
    let pte : Pte := ⟨← mmuLoadPte64 mem ptePaddr⟩
    if !pte.v || (!pte.r && pte.w) then
      throw (type.pageFault vaddr)
    else if !pte.r && !pte.x then
      walkFrom idxbits ptesize vaddr type sMode sum mxr tag flags n (pte.cheriPpn <<< 12)
    else if !pte.permits sMode sum mxr type then
      throw (type.pageFault vaddr)
    else
      storeTagged mem vaddr type tag ptePaddr pte
      if pte.cheriPpn &&& ((1 <<< ptshift) - 1) ≠ 0 then
        throw (type.pageFault vaddr)
      else
        updateAD mem type ptePaddr pte
        return (leafAddr pte.cheriPpn vaddr ptshift, loadFlags type pte flags)

/-- `walk`: the tables are walked from the root, or not at all for an address that is not a virtual one,
which is then a fault. -/
def walk (csrs : Csrs) (vaddr : BitVec 64) (type : MemoryAccessType) (mode : PrivilegeLevel)
    (tag : Bool) (flags : TagFlags) : m (BitVec 64 × TagFlags) :=
  let vm := decodeVmInfo csrs.satp
  let levels := if checkVaddrExtension vaddr vm then vm.levels else 0
  walkFrom mem vm.idxbits vm.ptesize vaddr type (mode == .supervisor) csrs.mstatus.sum
    csrs.mstatus.mxr tag flags levels vm.ptbase

/-- `translate_virtual_to_physical_addr`: the address, the flags, and the buffer after it. -/
def translate (csrs : Csrs) (prv : PrivilegeLevel) (tlb : Tlb) (vaddr : BitVec 64)
    (type : MemoryAccessType) (tag : Bool) (flags : TagFlags) :
    m ((BitVec 64 × TagFlags) × Tlb) :=
  match translationMode csrs prv type with
  | none => return ((vaddr, flags), tlb)
  | some mode => do
    let vpn := vaddr >>> 12
    let x := tlb mode type (tlbIdx vpn)
    if x.vpn = vpn then
      return ((x.ppn ||| pageOffset vaddr, flags), tlb)
    else
      let r ← walk mem csrs vaddr type mode tag flags
      return (r, tlb.set mode type (tlbIdx vpn) ⟨pageOf r.1, vpn⟩)

end Mmu

end Cheri

end RiscvVp
