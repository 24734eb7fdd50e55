import RiscvVp.Cheri.Mem
import Mathlib

/-!
# The instructions of the CHERI ISS that access data memory

The cases of `exec_steps` (`core/rv64_cheriv9/iss_ctemplate.cpp`) that read or write data memory, and
`vLoadStore` of the vector unit (`core/common/v.h`).

Instructions that differ only in the width of the access, or in the operation of an AMO, are one
constructor with a parameter.  Statistics and the trace for random testing are not part of the model.
-/

namespace RiscvVp.Cheri

/-! ### The state -/

/-- The state of the vector unit; registers lie one after the other in `v_regs`. -/
structure VecState where
  vRegs : Bytes
  vl : ℕ
  vstart : ℕ
  vill : Bool
  vsew : BitVec 3
  vlmul : BitVec 3

/-- `SyscallHandler`: the address at which main memory starts, and the heap pointer. -/
structure SyscallHandler where
  memOffset : BitVec 64
  hp : BitVec 64

/-- What the instructions below read and write.  `fs` and `vs` are the fields of `mstatus`, `hasEBaseIsa` is
one of `misa`, and `sys` is set where system calls are intercepted. -/
structure Iss (δ : Type) where
  hart : Hart δ
  regs : Fin 32 → Capability
  pcc : Capability
  ddc : Capability
  fpRegs : Fin 32 → BitVec 64
  fs : BitVec 2
  vs : BitVec 2
  vec : VecState
  lrScCounter : ℕ
  hasEBaseIsa : Bool := false
  sys : Option SyscallHandler := none

/-- The fields of an instruction; `imm` is the immediate of its format, `nf` has three bits. -/
structure Operands where
  data : BitVec 32
  rd : Fin 32
  rs1 : Fin 32
  rs2 : Fin 32
  imm : BitVec 64
  nf : ℕ
  vm : Bool
  deriving DecidableEq, Repr

/-- A computation of the ISS: it may trap or stop, and what it wrote before stays written. -/
abbrev IssM (δ : Type) := CheriM (Iss δ)

namespace Iss

variable {δ : Type} (p : Platform δ)

/-- A computation of the memory interface. -/
def mem {α : Type} (x : HartM δ α) : IssM δ α :=
  fun s => ((x.run' s.hart).1, { s with hart := (x.run' s.hart).2 })

/-- The state. -/
def get : IssM δ (Iss δ) := fun s => (.ok s, s)

/-- Change the state. -/
def modify (f : Iss δ → Iss δ) : IssM δ Unit := fun s => (.ok (), f s)

/-- `regs[i] = value`.  Nothing here treats register zero in another way: where the source resets it, it
does so with a write of its own. -/
def setReg (i : Fin 32) (value : Capability) : IssM δ Unit :=
  modify fun s => { s with regs := Function.update s.regs i value }

/-- `reset_reg_zero`: whatever an instruction has left in register zero is overwritten by the null
capability. -/
def resetRegZero : IssM δ Unit := setReg 0 (Capability.ofInt 0)

/-- `raise_trap` unless a condition holds. -/
def check (ok : Bool) (t : SimulationTrap) : IssM δ Unit := if ok then pure () else CheriM.raise t

/-- `get_cheri_mode_cap_addr`: the register that is named in a trap, the authorising capability and the
address.  There is no relocation by `ddc`. -/
def getCheriModeCapAddr (s : Iss δ) (rs1 : Fin 32) (offset : BitVec 64) :
    BitVec 64 × Capability × BitVec 64 :=
  let base := s.regs rs1
  if s.pcc.flagCapMode then (BitVec.ofNat 64 rs1, base, base.address + offset)
  else (cDdcIdx, s.ddc, base.address + offset)

/-- The bookkeeping after a load-reserved; `force_slow_path` concerns the decoder. -/
def afterLr : IssM δ Unit :=
  modify fun s => if s.lrScCounter = 0 then { s with lrScCounter := 17 } else s

/-- `lr_sc_counter = 0`: after an `SC`, whether it has succeeded or not, no instructions are counted any
more. -/
def afterSc : IssM δ Unit := modify fun s => { s with lrScCounter := 0 }

/-- The value of a store-conditional. -/
def scResult (success : Bool) : Capability := Capability.ofInt (if success then 0 else 1)

/-- An AMO reports a failed load as a failed store. -/
def amoTrap {α : Type} (x : HartM δ α) : HartM δ α := fun h =>
  match x.run' h with
  | (.error (.trap t), h') =>
    (.error (.trap { t with
      reason := if t.reason = .loadAccessFault then .storeAmoAccessFault else t.reason }), h')
  | r => r

end Iss

/-! ### The vector unit -/

/-- `load_store_type_t`: which of the vector loads and stores an instruction is.  It decides on the number
of elements, their width and their distance in memory. -/
inductive LoadStoreType
  | standard
  | standardReg
  | masked
  | indexed
  | fofl
  | whole
  deriving DecidableEq, Repr

/-- The widths of vector elements, in bits. -/
def elemWidth : ℕ → Option Width
  | 8 => some .byte
  | 16 => some .half
  | 32 => some .word
  | 64 => some .double
  | _ => none

namespace VecState

variable (v : VecState)

/-- `getIntVSew`: the selected element width, in bits. -/
def getIntVSew : ℕ := 2 ^ (v.vsew.toNat + 3)

/-- `getVlmul`: the number of registers in a group, from an eighth to eight, as the signed exponent in
`vtype` gives it. -/
def getVlmul : ℚ := (2 : ℚ) ^ v.vlmul.toInt

/-- `getSewSingleOperand`: element `index` from register `addr` on. -/
def getSewSingleOperand (sew addr index : ℕ) : BitVec 64 :=
  (ofBytes (fun a => v.vRegs (addr * 64 + index * (sew / 8) + a)) (sew / 8)).setWidth 64

/-- `writeSewSingleOperand`: `sew` bits of the value are copied to element `index` of the group that begins
with register `addr`.  All else stays. -/
def writeSewSingleOperand (sew addr index : ℕ) (value : BitVec 64) : VecState :=
  { v with vRegs := memcpy v.vRegs (addr * 64 + index * (sew / 8)) (bytesOf value) (sew / 8) }

/-- `v_is_aligned`; the alignment is truncated to an integer. -/
def isAligned (addr : ℕ) (alignment : ℚ) : Bool :=
  let a := ⌊alignment⌋.toNat
  a == 0 || addr &&& (a - 1) == 0

/-- `vreg_overlap_valid`: whether a destination may share registers with a source.  It may if the two do not
overlap, if their elements have one width, or if the overlap is the lowest part of a wider source or the
highest of a wider destination. -/
def vregOverlapValid (vd : ℕ) (vdEmul : ℚ) (vdEew vs : ℕ) (vsEmul : ℚ) (vsEew : ℕ)
    (strict : Bool) : Bool :=
  if (vd : ℚ) > vs + ⌈vsEmul⌉ - 1 ∨ (vs : ℚ) > vd + ⌈vdEmul⌉ - 1 then true
  else if strict then false
  else if vdEew = vsEew then true
  else if vdEew < vsEew ∧ vd = vs then true
  else if vdEew > vsEew ∧ vsEmul ≥ 1 ∧ (vs : ℚ) + vsEmul - 1 ≥ vd + vdEmul - 1 then true
  else false

/-- The effective vector length in `vLoadReqs`; `VLEN` is 512. -/
def evl (type : LoadStoreType) (eew : ℕ) : ℕ :=
  match type with
  | .masked => (v.vl + 7) / 8
  | .whole => 512 / eew
  | _ => v.vl

/-- `effective_mul_idx` in `vLoadReqs`: the number of registers that one field of a segment takes up, at
least one. -/
def effectiveMulIdx (type : LoadStoreType) (eew : ℕ) : ℕ :=
  let emul : ℚ := eew / v.getIntVSew * v.getVlmul
  match type with
  | .whole | .masked => 1
  | .indexed => if v.getVlmul < 1 then 1 else ⌊v.getVlmul⌋.toNat
  | _ => if emul < 1 then 1 else ⌊emul⌋.toNat

/-- The assertions of `vLoadReqs`: alignment and overlap of the register groups. -/
def vLoadReqs (o : Operands) (type : LoadStoreType) (eew : ℕ) : Bool :=
  let emul : ℚ := eew / v.getIntVSew * v.getVlmul
  let idx := v.effectiveMulIdx type eew
  type == .whole || type == .masked ||
    (decide (1 / 8 ≤ emul) && decide (emul ≤ 8) && decide (idx * (o.nf + 1) ≤ 8) &&
      decide (o.rd.val + (o.nf + 1) * idx ≤ 32))

/-- The assertions of `vLoadStore` itself: the effective multiplier and the number of fields fit. -/
def vLoadStoreReqs (o : Operands) (isLoad : Bool) (type : LoadStoreType) (numBits : ℕ) : Bool :=
  let sew := v.getIntVSew
  let lmul := v.getVlmul
  (!isLoad || o.vm || o.rd != 0) &&
  match type with
  | .masked => true
  | .indexed =>
    let vs2Emul := lmul * numBits / sew
    isAligned o.rd.val lmul && isAligned o.rs2.val vs2Emul &&
      (!isLoad || (List.range (o.nf + 1)).all fun field =>
        vregOverlapValid (o.rd.val + field * ⌈lmul⌉.toNat) lmul sew o.rs2.val vs2Emul numBits
          (decide (0 < o.nf)))
  | .whole => isAligned o.rd.val (o.nf + 1)
  | _ => isAligned o.rd.val (lmul * numBits / sew)

/-- `vInactiveHandling`: an element is left alone before `vstart`, from the vector length on, and where the
mask in `v0` is off. -/
def vInactive (o : Operands) (evl i : ℕ) : Bool :=
  decide (i < v.vstart) || decide (evl ≤ i) ||
    (!o.vm && !(v.getSewSingleOperand 64 0 (i / 64)).getLsbD (i % 64))

/-- `getShiftWidth`; `stride` is the value of the integer register `rs2`. -/
def getShiftWidth (o : Operands) (stride : BitVec 64) (type : LoadStoreType) (numBits i field : ℕ) :
    BitVec 64 :=
  let numBytes := numBits / 8
  match type with
  | .masked => BitVec.ofNat 64 i
  | .standardReg => BitVec.ofNat 64 i * stride + BitVec.ofNat 64 (field * numBytes)
  | .indexed =>
    v.getSewSingleOperand numBits o.rs2.val i + BitVec.ofNat 64 (field * (v.getIntVSew / 8))
  | _ => BitVec.ofNat 64 ((i * (o.nf + 1) + field) * numBytes)

/-- `switchElem`: the width of the elements that are moved. -/
def switchElem (type : LoadStoreType) (numBits : ℕ) : ℕ :=
  if type = .indexed then v.getIntVSew else numBits

/-- `vIndices`: the register and the element. -/
def vIndices (o : Operands) (type : LoadStoreType) (switchElem idx i field : ℕ) : ℕ × ℕ :=
  let perReg := 512 / switchElem
  match type with
  | .whole =>
    let curr := i * (o.nf + 1) + field
    (o.rd.val + curr / perReg, curr % perReg)
  | _ => (o.rd.val + field * idx + i / perReg, i % perReg)

end VecState

/-- The ISS as the vector unit, a template over it, sees it: the state of the unit, which is its own, the
integer registers, the field `vs` of `mstatus`, and the functions `load_*` and `store_*` of the data
memory. -/
structure VecIss (μ : Type → Type) where
  vec : μ VecState
  modifyVec : (VecState → VecState) → μ Unit
  reg : Fin 32 → μ (BitVec 64)
  vs : μ (BitVec 2)
  setVs : BitVec 2 → μ Unit
  load : Width → BitVec 64 → μ (BitVec 64)
  store : Width → BitVec 64 → BitVec 64 → μ Unit

namespace VecIss

variable {μ : Type → Type} [Monad μ] [MonadExceptOf SimulationTrap μ] (u : VecIss μ) (o : Operands)

/-- `v_assert`: a check of the vector unit.  An instruction that does not pass it is an illegal one, and its
word goes with the trap. -/
def vAssert (cond : Bool) : μ Unit :=
  if cond then pure () else throw (⟨.illegalInstr, o.data.setWidth 64⟩ : SimulationTrap)

/-- The body of the inner loop of `vLoadStore`: one field of one element.  The result is `break_loop`. -/
def vField (isLoad : Bool) (type : LoadStoreType) (numBits i field : ℕ) : μ Bool := do
  let v ← u.vec
  let base ← u.reg o.rs1
  let stride ← u.reg o.rs2
  let switchElem := v.switchElem type numBits
  let addr := base + v.getShiftWidth o stride type numBits i field
  let idx := VecState.vIndices o type switchElem (v.effectiveMulIdx type numBits) i field
  match elemWidth switchElem with
  | none => pure false
  | some n =>
    if isLoad then
      let value ← u.load n addr
      let write := u.modifyVec fun v => v.writeSewSingleOperand switchElem idx.1 idx.2 value
      if type = .fofl then
        tryCatch (do write; pure false) fun e : SimulationTrap =>
          if i = 0 then throw e
          else do u.modifyVec fun v => { v with vl := i }; pure true
      else do write; pure false
    else do
      u.store n addr (v.getSewSingleOperand switchElem idx.1 idx.2)
      pure false

/-- The inner loop, from some field on. -/
def vFields (isLoad : Bool) (type : LoadStoreType) (numBits i : ℕ) : List ℕ → μ Bool
  | [] => pure false
  | field :: fields => do
    let breakLoop ← u.vField o isLoad type numBits i field
    if breakLoop then pure true else vFields isLoad type numBits i fields

/-- The outer loop, from some element on. -/
def vElements (isLoad : Bool) (type : LoadStoreType) (numBits evl : ℕ) : List ℕ → μ Unit
  | [] => pure ()
  | i :: is => do
    let v ← u.vec
    if v.vInactive o evl i then vElements isLoad type numBits evl is
    else
      u.modifyVec fun v => { v with vstart := i }
      let breakLoop ← u.vFields o isLoad type numBits i (List.range (o.nf + 1))
      if breakLoop then pure () else vElements isLoad type numBits evl is

/-- `vLoadStore`: the checks that depend on the kind of the access, and then its elements, one after the
other. -/
def vLoadStore (isLoad : Bool) (numBits : ℕ) (type : LoadStoreType) : μ Unit := do
  let v ← u.vec
  vAssert o (v.vLoadReqs o type numBits)
  vAssert o (v.vLoadStoreReqs o isLoad type numBits)
  u.vElements o isLoad type numBits (v.evl type numBits) (List.range (v.evl type numBits))

/-- `prepInstr(true, require_vill, false)`: the vector unit has to be on and becomes dirty.  An instruction
that depends on `vtype` is illegal while `vill` is set; an access to whole registers does not depend on it. -/
def prepInstr (requireVill : Bool) : μ Unit := do
  let vs ← u.vs
  vAssert o (vs != 0)
  u.setVs 3
  let v ← u.vec
  vAssert o (!requireVill || !v.vill)

/-- `finishInstr`: an instruction that is done begins with element 0 the next time. -/
def finishInstr : μ Unit := u.modifyVec fun v => { v with vstart := 0 }

/-- The case of a vector load or store.  Whole registers are moved whatever `vtype` is: these cases alone
call `prepInstr` without `require_vill`. -/
def vLoadStoreInstr (isLoad : Bool) (numBits : ℕ) (type : LoadStoreType) : μ Unit := do
  u.prepInstr o (type != .whole)
  u.vLoadStore o isLoad numBits type
  u.finishInstr

end VecIss

/-! ### Instructions -/

/-- The instructions that access data memory. -/
inductive MemInstr
  /-- `LB`, `LH`, `LW`, `LD`, `LBU`, `LHU`, `LWU` -/
  | load (op : LoadOp)
  /-- `SB`, `SH`, `SW`, `SD` -/
  | store (n : Width)
  /-- `LC`; the compressed forms are expanded to it -/
  | loadC
  /-- `SC` -/
  | storeC
  /-- `C_LOAD_TAGS` -/
  | loadTags
  /-- `LB_DDC` to `LWU_DDC` -/
  | loadDdc (op : LoadOp)
  /-- `LC_DDC` -/
  | loadCDdc
  /-- `LB_CAP` to `LWU_CAP` -/
  | loadCap (op : LoadOp)
  /-- `LC_CAP` -/
  | loadCCap
  /-- `SB_DDC` to `SD_DDC` -/
  | storeDdc (n : Width)
  /-- `SC_DDC` -/
  | storeCDdc
  /-- `SB_CAP` to `SD_CAP` -/
  | storeCap (n : Width)
  /-- `SC_CAP` -/
  | storeCCap
  /-- `LR_B`, `LR_H`, `LR_W`, `LR_D` -/
  | loadReserved (n : Width)
  /-- `LR_C` -/
  | loadReservedC
  /-- `LR_B_DDC` to `LR_D_DDC` -/
  | loadReservedDdc (n : Width)
  /-- `LR_C_DDC` -/
  | loadReservedCDdc
  /-- `LR_B_CAP` to `LR_D_CAP` -/
  | loadReservedCap (n : Width)
  /-- `LR_C_CAP` -/
  | loadReservedCCap
  /-- `SC_B`, `SC_H`, `SC_W`, `SC_D` -/
  | storeConditional (n : Width)
  /-- `SC_C` -/
  | storeConditionalC
  /-- `SC_B_DDC` to `SC_D_DDC` -/
  | storeConditionalDdc (n : Width)
  /-- `SC_C_DDC` -/
  | storeConditionalCDdc
  /-- `SC_B_CAP` to `SC_D_CAP` -/
  | storeConditionalCap (n : Width)
  /-- `SC_C_CAP` -/
  | storeConditionalCCap
  /-- `AMOSWAP_W` to `AMOMAXU_W` -/
  | amoW (f : AmoOp)
  /-- `AMOSWAP_D` to `AMOMAXU_D` -/
  | amoD (f : AmoOp)
  /-- `AMOSWAP_C` -/
  | amoswapC
  /-- `FLH`, `FLW`, `FLD` -/
  | fLoad (op : LoadOp)
  /-- `FSH`, `FSW`, `FSD` -/
  | fStore (n : Width)
  /-- the vector loads and stores -/
  | vLoadStore (isLoad : Bool) (numBits : ℕ) (type : LoadStoreType)
  deriving DecidableEq, Repr

namespace Iss

variable {δ : Type} (p : Platform δ) (o : Operands)

/-- A load-reserved of data: `reserve` gives the value. -/
def lrInstr (reserve : HartM δ (BitVec 64)) : IssM δ Unit := do
  let v ← mem reserve
  setReg o.rd (Capability.ofInt v)
  afterLr
  resetRegZero

/-- A load-reserved of a capability: the register, the reservation, and the reset of register zero. -/
def lrCInstr (reserve : HartM δ Capability) : IssM δ Unit := do
  let c ← mem reserve
  setReg o.rd c
  afterLr
  resetRegZero

/-- A store-conditional that writes its result to `dst`. -/
def scInstr (dst : Fin 32) (store : HartM δ Bool) : IssM δ Unit := do
  let success ← mem store
  setReg dst (scResult success)
  afterSc
  resetRegZero

/-- `execute_amo_w` and `execute_amo_d`: the address is checked first, then the old value is loaded,
combined with the second operand and stored back, all under the authority of one capability. -/
def executeAmo (n : Width) (f : AmoOp) : IssM δ Unit := do
  let s ← get
  let a := s.getCheriModeCapAddr o.rs1 0
  mem (Hart.trapCheckAddrAlignment false a.2.2 n.bytes)
  let data ← mem (amoTrap (Hart.atomicLoadViaCap p (.signed n) a.2.2 a.2.1 a.1))
  let val : BitVec (8 * n.bytes) := f.operation (data.setWidth _) ((s.regs o.rs2).address.setWidth _)
  mem (Hart.atomicStoreViaCap p n a.2.2 (val.signExtend 64) a.2.1 a.1)
  if o.rd ≠ 0 then setReg o.rd (Capability.ofInt data) else pure ()

/-- The case `AMOSWAP_C`: a capability is swapped with the one in memory.  The checks of the authority come
before both accesses. -/
def amoswapC : IssM δ Unit := do
  let s ← get
  let a := s.getCheriModeCapAddr o.rs1 0
  let auth := a.2.1
  let cs2 := s.regs o.rs2
  check auth.tag (capException .tagViolation a.1)
  check (!auth.isSealed) (capException .sealViolation a.1)
  check auth.permitLoad (capException .permitLoadViolation a.1)
  check auth.permitStore (capException .permitStoreViolation a.1)
  check (auth.permitStoreCap || !cs2.tag) (capException .permitStoreViolation a.1)
  check (auth.permitStoreLocalCap || !cs2.tag || cs2.global)
    (capException .permitStoreLocalCapViolation a.1)
  check (auth.inCapBounds a.2.2 (BitVec.ofNat 64 clen)) (capException .lengthViolation a.1)
  mem (Hart.trapCheckAddrAlignment true a.2.2 clen)
  let data ← mem (amoTrap (Hart.atomicLoadCap p a.2.2))
  mem (Hart.atomicStoreCap p a.2.2 cs2)
  setReg o.rd (data.clearTagIf !auth.permitLoadCap)

/-- The case `C_LOAD_TAGS`: the tags of the granules in 64 bytes, as bits of the result.  The address has to
be a multiple of 64, and no byte of these granules is shown. -/
def loadTagsInstr : IssM δ Unit := do
  let s ← get
  let cs1 := s.regs o.rs1
  let idx := BitVec.ofNat 64 o.rs1
  let vaddr := cs1.address
  check cs1.tag (capException .tagViolation idx)
  check (!cs1.isSealed) (capException .sealViolation idx)
  check cs1.permitLoad (capException .permitLoadViolation idx)
  check cs1.permitLoadCap (capException .permitLoadCapViolation idx)
  check (cs1.inCapBounds vaddr 64) (capException .lengthViolation idx)
  check (vaddr.toNat % 64 == 0) ⟨.loadAddrMisaligned, vaddr⟩
  let tags ← mem (Hart.loadTags p vaddr)
  setReg o.rd (Capability.ofInt tags)

/-- The value of a float in a register. -/
def box : Width → BitVec 64 → BitVec 64
  | .half, v => v ||| 0xFFFFFFFFFFFF0000
  | .word, v => v ||| 0xFFFFFFFF00000000
  | _, v => v

/-- `fp_prepare_instr`: an instruction of the floating-point unit is illegal while the unit is off. -/
def fpPrepareInstr : IssM δ Unit := do
  let s ← get
  check (s.fs != 0) ⟨.illegalInstr, o.data.setWidth 64⟩

/-- `fp_set_dirty`: the state of the floating-point unit has changed and is to be saved on a context switch. -/
def fpSetDirty : IssM δ Unit := modify fun s => { s with fs := 3 }

/-- The cases `FLH`, `FLW` and `FLD`. -/
def fLoadInstr (op : LoadOp) : IssM δ Unit := do
  fpPrepareInstr o
  let s ← get
  let addr := (s.regs o.rs1).address + o.imm
  mem (Hart.trapCheckAddrAlignment true addr op.width.bytes)
  let v ← mem (Hart.lscacheLoad p op addr)
  modify fun s => { s with fpRegs := Function.update s.fpRegs o.rd (box op.width v) }
  fpSetDirty

/-- The cases `FSH`, `FSW` and `FSD`. -/
def fStoreInstr (n : Width) : IssM δ Unit := do
  fpPrepareInstr o
  let s ← get
  let addr := (s.regs o.rs1).address + o.imm
  mem (Hart.trapCheckAddrAlignment false addr n.bytes)
  mem (Hart.lscacheStore p n addr (s.fpRegs o.rs2))
  fpSetDirty

/-- The vector unit of this ISS; its accesses bypass the load/store cache. -/
def vecIss : VecIss (IssM δ) where
  vec := fun s => (.ok s.vec, s)
  modifyVec f := modify fun s => { s with vec := f s.vec }
  reg i := fun s => (.ok (s.regs i).address, s)
  vs := fun s => (.ok s.vs, s)
  setVs value := modify fun s => { s with vs := value }
  load n addr := mem (Hart.load p (.signed n) addr)
  store n addr value := mem (Hart.storeData p addr n value)

/-- Writing an element does not trap, so a fault-only-first load is like the others. -/
theorem vField_eq (isLoad : Bool) (type : LoadStoreType) (numBits i field : ℕ) :
    (vecIss p).vField o isLoad type numBits i field = get >>= fun s =>
      let switchElem := s.vec.switchElem type numBits
      let addr := (s.regs o.rs1).address +
        s.vec.getShiftWidth o (s.regs o.rs2).address type numBits i field
      let idx := VecState.vIndices o type switchElem (s.vec.effectiveMulIdx type numBits) i field
      match elemWidth switchElem with
      | none => pure false
      | some n =>
        if isLoad then
          mem (Hart.load p (.signed n) addr) >>= fun value =>
            modify (fun s => { s with vec := s.vec.writeSewSingleOperand switchElem idx.1 idx.2 value })
              >>= fun _ => pure false
        else
          mem (Hart.storeData p addr n (s.vec.getSewSingleOperand switchElem idx.1 idx.2))
            >>= fun _ => pure false := by
  funext s
  show _ = (match elemWidth (s.vec.switchElem type numBits) with
    | none => _
    | some n => _ : IssM δ Bool) s
  unfold VecIss.vField
  show (match elemWidth (s.vec.switchElem type numBits) with
    | none => _
    | some n => _ : IssM δ Bool) s = _
  cases elemWidth (s.vec.switchElem type numBits) with
  | none => rfl
  | some n =>
    cases isLoad with
    | false => rfl
    | true =>
      by_cases htype : type = .fofl
      · subst htype
        rfl
      · simp only [if_neg htype]
        rfl

/-- The cases of `exec_steps` for these instructions. -/
def exec : MemInstr → IssM δ Unit
  | .load op => do
    let s ← get
    let a := s.getCheriModeCapAddr o.rs1 o.imm
    let v ← mem (Hart.handleLoadDataViaCap p a.1 a.2.1 a.2.2 op)
    setReg o.rd (Capability.ofInt v)
    resetRegZero
  | .store n => do
    let s ← get
    let a := s.getCheriModeCapAddr o.rs1 o.imm
    mem (Hart.handleStoreDataViaCap p (s.regs o.rs2) a.1 a.2.1 a.2.2 n)
  | .loadC => do
    let s ← get
    let a := s.getCheriModeCapAddr o.rs1 o.imm
    let c ← mem (Hart.handleLoadCapViaCap p a.1 a.2.1 a.2.2)
    setReg o.rd c
  | .storeC => do
    let s ← get
    let a := s.getCheriModeCapAddr o.rs1 o.imm
    mem (Hart.handleStoreCapViaCap p (s.regs o.rs2) a.1 a.2.1 a.2.2)
  | .loadTags => loadTagsInstr p o
  | .loadDdc op => do
    let s ← get
    let v ← mem (Hart.handleLoadDataViaCap p cDdcIdx s.ddc (s.regs o.rs1).address op)
    setReg o.rd (Capability.ofInt v)
  | .loadCDdc => do
    let s ← get
    let c ← mem (Hart.handleLoadCapViaCap p cDdcIdx s.ddc (s.regs o.rs1).address)
    setReg o.rd c
  | .loadCap op => do
    let s ← get
    let cs1 := s.regs o.rs1
    let v ← mem (Hart.handleLoadDataViaCap p (BitVec.ofNat 64 o.rs1) cs1 cs1.address op)
    setReg o.rd (Capability.ofInt v)
  | .loadCCap => do
    let s ← get
    let cs1 := s.regs o.rs1
    let c ← mem (Hart.handleLoadCapViaCap p (BitVec.ofNat 64 o.rs1) cs1 cs1.address)
    setReg o.rd c
  | .storeDdc n => do
    let s ← get
    mem (Hart.handleStoreDataViaCap p (s.regs o.rs2) cDdcIdx s.ddc (s.regs o.rs1).address n)
  | .storeCDdc => do
    let s ← get
    mem (Hart.handleStoreCapViaCap p (s.regs o.rs2) cDdcIdx s.ddc (s.regs o.rs1).address)
  | .storeCap n => do
    let s ← get
    let cs1 := s.regs o.rs1
    mem (Hart.handleStoreDataViaCap p (s.regs o.rs2) (BitVec.ofNat 64 o.rs1) cs1 cs1.address n)
  | .storeCCap => do
    let s ← get
    let cs1 := s.regs o.rs1
    mem (Hart.handleStoreCapViaCap p (s.regs o.rs2) (BitVec.ofNat 64 o.rs1) cs1 cs1.address)
  | .loadReserved n => do
    let s ← get
    let a := s.getCheriModeCapAddr o.rs1 0
    -- `LR_W` and `LR_D` check the alignment before anything else
    if n = .word ∨ n = .double then mem (Hart.trapCheckAddrAlignment true a.2.2 n.bytes) else pure ()
    lrInstr o (Hart.atomicLoadReservedDataViaCap p a.1 a.2.1 a.2.2 (.signed n))
  | .loadReservedC => do
    let s ← get
    let a := s.getCheriModeCapAddr o.rs1 0
    lrCInstr o (Hart.atomicLoadReservedCapViaCap p a.1 a.2.1 a.2.2)
  | .loadReservedDdc n => do
    let s ← get
    lrInstr o
      (Hart.atomicLoadReservedDataViaCap p cDdcIdx s.ddc (s.regs o.rs1).address (.signed n))
  | .loadReservedCDdc => do
    let s ← get
    lrCInstr o (Hart.atomicLoadReservedCapViaCap p cDdcIdx s.ddc (s.regs o.rs1).address)
  | .loadReservedCap _ => do
    let s ← get
    let cs1 := s.regs o.rs1
    -- all four cases pass the width 1
    lrInstr o (Hart.atomicLoadReservedDataViaCap p (BitVec.ofNat 64 o.rs1) cs1 cs1.address .byte)
  | .loadReservedCCap => do
    let s ← get
    let cs1 := s.regs o.rs1
    lrCInstr o (Hart.atomicLoadReservedCapViaCap p (BitVec.ofNat 64 o.rs1) cs1 cs1.address)
  | .storeConditional n => do
    let s ← get
    let a := s.getCheriModeCapAddr o.rs1 0
    -- `SC_W` and `SC_D` check the alignment and write the failure code first
    if n = .word ∨ n = .double then
      mem (Hart.trapCheckAddrAlignment false a.2.2 n.bytes)
      setReg o.rd (Capability.ofInt 1)
    else pure ()
    let s' ← get
    scInstr o.rd (Hart.atomicStoreConditionalDataViaCap p (s'.regs o.rs2) a.1 a.2.1 a.2.2 n)
  | .storeConditionalC => do
    let s ← get
    let a := s.getCheriModeCapAddr o.rs1 0
    scInstr o.rd (Hart.atomicStoreConditionalCapViaCap p (s.regs o.rs2) a.1 a.2.1 a.2.2)
  | .storeConditionalDdc n => do
    let s ← get
    scInstr o.rs2 (Hart.atomicStoreConditionalDataViaCap p (s.regs o.rs2) cDdcIdx s.ddc
      (s.regs o.rs1).address n)
  | .storeConditionalCDdc => do
    let s ← get
    scInstr o.rs2 (Hart.atomicStoreConditionalCapViaCap p (s.regs o.rs2) cDdcIdx s.ddc
      (s.regs o.rs1).address)
  | .storeConditionalCap n => do
    let s ← get
    let cs1 := s.regs o.rs1
    scInstr o.rs2 (Hart.atomicStoreConditionalDataViaCap p (s.regs o.rs2) (BitVec.ofNat 64 o.rs1) cs1
      cs1.address n)
  | .storeConditionalCCap => do
    let s ← get
    let cs1 := s.regs o.rs1
    scInstr o.rs2 (Hart.atomicStoreConditionalCapViaCap p (s.regs o.rs2) (BitVec.ofNat 64 o.rs1) cs1
      cs1.address)
  | .amoW f => executeAmo p o .word f
  | .amoD f => executeAmo p o .double f
  | .amoswapC => amoswapC p o
  | .fLoad op => fLoadInstr p o op
  | .fStore n => fStoreInstr p o n
  | .vLoadStore isLoad numBits type => (vecIss p).vLoadStoreInstr o isLoad numBits type

end Iss

end RiscvVp.Cheri
