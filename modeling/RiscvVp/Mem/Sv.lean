import RiscvVp.Mem.Mmu

/-!
# The page walk for all formats

`walk` of `core/common/mmu.h` as both register widths use it: two levels of 32-bit entries on RV32, three
or four levels of 64-bit entries on RV64, and a fault for missing accessed and dirty bits if
`page_fault_on_AD` asks for it.  `Mmu.walk` is the walk of the RV64 core as it is built
(`Sv.walk_eq_mmu_walk`).
-/

namespace RiscvVp

/-- The modes of `satp` that translate.  A core of 32 bits has the first one, a core of 64 bits the other
two. -/
inductive SvMode
  | sv32
  | sv39
  | sv48
  deriving DecidableEq, Repr

/-- What the walk reads of the core, and `page_fault_on_AD`. -/
structure SvConfig where
  mode : SvMode
  /-- `satp.ppn`; it has 22 bits on RV32 -/
  ppn : BitVec 44
  sum : Bool
  mxr : Bool
  pageFaultOnAD : Bool
  ppn_lt : mode = .sv32 → ppn.toNat < 2 ^ 22

namespace Sv

/-- `core.xlen`. -/
def xlen : SvMode → ℕ
  | .sv32 => 32
  | _ => 64

/-- `decode_vm_info`. -/
def decodeVmInfo (cfg : SvConfig) : VmInfo :=
  let ptbase := cfg.ppn.setWidth 64 <<< 12
  match cfg.mode with
  | .sv32 => ⟨2, 10, 4, ptbase⟩
  | .sv39 => ⟨3, 9, 8, ptbase⟩
  | .sv48 => ⟨4, 9, 8, ptbase⟩

/-- `check_vaddr_extension`: the bits above the highest one that is translated must be copies of it. -/
def checkVaddrExtension (xlen : ℕ) (vaddr : BitVec 64) (vm : VmInfo) : Bool :=
  let highbit := vm.idxbits * vm.levels + 12 - 1
  let extMask : BitVec 64 := (1 <<< (xlen - highbit)) - 1
  let bits := (vaddr >>> highbit) &&& extMask
  bits == 0 || bits == extMask

variable {m : Type → Type} [Monad m] [MonadExceptOf SimulationTrap m] (mem : MemIf m)

/-- `mmu_load_pte32` and `mmu_load_pte64`, as `ptesize` says. -/
def mmuLoadPte (ptesize addr : BitVec 64) : m (BitVec 64) := do
  let r ← mem.rawLoad addr (if ptesize = 4 then .word else .double)
  return r.1

/-- The loop of `walk`: `n` levels are left, the table is at `base`.  Leaving the loop by `break`, or
because no level is left, raises the page fault. -/
def walkFrom (vm : VmInfo) (vaddr : BitVec 64) (type : MemoryAccessType)
    (sMode sum mxr pageFaultOnAD : Bool) : ℕ → BitVec 64 → m (BitVec 64)
  | 0, _ => throw (type.pageFault vaddr)
  | n + 1, base => do
    let ptshift := n * vm.idxbits
    let vpnField := (vaddr >>> (12 + ptshift)) &&& ((1 <<< vm.idxbits) - 1)
    let ptePaddr := base + vpnField * vm.ptesize
    let pte : Pte := ⟨← mmuLoadPte mem vm.ptesize ptePaddr⟩
    if !pte.v || (!pte.r && pte.w) then
      throw (type.pageFault vaddr)
    else if !pte.r && !pte.x then
      walkFrom vm vaddr type sMode sum mxr pageFaultOnAD n (pte.ppn <<< 12)
    else if !pte.permits sMode sum mxr type then
      throw (type.pageFault vaddr)
    else if pte.ppn &&& ((1 <<< ptshift) - 1) ≠ 0 then
      throw (type.pageFault vaddr)
    else if pte.value &&& Pte.ad type ≠ Pte.ad type then
      if pageFaultOnAD then
        throw (type.pageFault vaddr)
      else
        Mmu.mmuStorePte32 mem ptePaddr (pte.value ||| Pte.ad type)
        return Mmu.leafAddr pte.ppn vaddr ptshift
    else
      return Mmu.leafAddr pte.ppn vaddr ptshift

/-- `walk`, for supervisor mode or user mode. -/
def walk (cfg : SvConfig) (vaddr : BitVec 64) (type : MemoryAccessType) (sMode : Bool) :
    m (BitVec 64) :=
  let vm := decodeVmInfo cfg
  let levels := if checkVaddrExtension (xlen cfg.mode) vaddr vm then vm.levels else 0
  walkFrom mem vm vaddr type sMode cfg.sum cfg.mxr cfg.pageFaultOnAD levels vm.ptbase

/-! ### The walk of the RV64 core -/

/-- What the walk reads of the core on RV64, where `page_fault_on_AD` is `false`. -/
def ofCsrs (csrs : Csrs) : SvConfig where
  mode := if csrs.satp.mode = .sv48 then .sv48 else .sv39
  ppn := csrs.satp.ppn
  sum := csrs.mstatus.sum
  mxr := csrs.mstatus.mxr
  pageFaultOnAD := false
  ppn_lt h := by
    split_ifs at h

theorem decodeVmInfo_ofCsrs (csrs : Csrs) :
    decodeVmInfo (ofCsrs csrs) = RiscvVp.decodeVmInfo csrs.satp := by
  show (match (if csrs.satp.mode = .sv48 then .sv48 else .sv39 : SvMode) with
    | .sv32 => _ | .sv39 => _ | .sv48 => _) = _
  unfold RiscvVp.decodeVmInfo
  cases csrs.satp.mode <;> rfl

/-- Without `page_fault_on_AD` the loop is the loop for 64-bit entries. -/
theorem walkFrom_eq_mmu_walkFrom {vm : VmInfo} (hsize : vm.ptesize = 8)
    (vaddr : BitVec 64) (type : MemoryAccessType) (sMode sum mxr : Bool) (n : ℕ) (base : BitVec 64) :
    walkFrom mem vm vaddr type sMode sum mxr false n base =
      Mmu.walkFrom mem vm.idxbits vm.ptesize vaddr type sMode sum mxr n base := by
  induction n generalizing base with
  | zero => rfl
  | succ n ih =>
    have hload : ∀ a, mmuLoadPte mem vm.ptesize a = Mmu.mmuLoadPte64 mem a := by
      intro a
      rw [mmuLoadPte, Mmu.mmuLoadPte64, hsize]
      rfl
    unfold walkFrom Mmu.walkFrom
    simp only [hload, ih, Bool.false_eq_true, if_false]

/-- **The walk of the RV64 core is this one.** -/
theorem walk_eq_mmu_walk (csrs : Csrs) (vaddr : BitVec 64) (type : MemoryAccessType)
    (mode : PrivilegeLevel) :
    walk mem (ofCsrs csrs) vaddr type (mode == .supervisor) = Mmu.walk mem csrs vaddr type mode := by
  have hsize : (RiscvVp.decodeVmInfo csrs.satp).ptesize = 8 := by
    unfold RiscvVp.decodeVmInfo
    cases csrs.satp.mode <;> rfl
  have hxlen : xlen (ofCsrs csrs).mode = 64 := by
    show xlen (if csrs.satp.mode = .sv48 then .sv48 else .sv39) = 64
    split_ifs <;> rfl
  unfold walk Mmu.walk
  rw [decodeVmInfo_ofCsrs, hxlen]
  exact walkFrom_eq_mmu_walkFrom mem hsize vaddr type _ _ _ _ _

end Sv

end RiscvVp
