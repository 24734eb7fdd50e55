import RiscvVp.Vec.Basic

/-!
# Permutation instructions

The functions of `core/common/v.h` behind the slides, `vrgather` and `vcompress`, and the cases of
`rv64/iss_ctemplate.cpp` that call them.  Indices and offsets are 64-bit words and wrap.  The forms of
`vslide1up` and `vslide1down` with a floating-point register are left out.
-/

namespace RiscvVp.Vec

open Cheri (VecState Operands)

/-- `vlmax`, which several functions compute: `lmul * VLEN / getIntVSew()`. -/
def vlmax (v : VecState) : ℕ := ⌊v.getVlmul * 512 / v.getIntVSew⌋.toNat

/-! ### Loops -/

/-- `vLoopVoid`, and `vLoopVoidNoOverlap` for `noOverlap`. -/
def vLoopVoid (noOverlap : Bool) (func : Members → Operands → ℕ → UnitM Unit) (param : ParamSel)
    (o : Operands) : UnitM Unit :=
  let c : Members := { elemSel := .xxxsss, paramSel := param, requireNoOverlap := noOverlap }
  genericVLoop c o false (fun i _ => func c o i) ()

/-- The body of `vLoopExt`. -/
def vExtBody (func : Members → Operands → BitVec 64 → BitVec 64 → ℕ → UnitM (BitVec 64)) (c : Members)
    (o : Operands) (i : ℕ) (_ : Unit) : UnitM Unit := do
  let s ← UnitM.get
  let ops := getOperands c o s i
  let res ← func c o ops.2 ops.1 i
  writeGeneric c o res i

/-- `vLoopExt`; `vGather` sets `o1_eew_overwrite` before. -/
def vLoopExt (func : Members → Operands → BitVec 64 → BitVec 64 → ℕ → UnitM (BitVec 64))
    (o1EewOverwrite : ℕ) (elem : ElemSel) (param : ParamSel) (o : Operands) : UnitM Unit :=
  let c : Members :=
    { elemSel := elem, paramSel := param, o1EewOverwrite, requireNoOverlap := true }
  genericVLoop c o false (vExtBody func c o) ()

/-! ### Slides -/

/-- `vSlideUp`: the element so many places below, and nothing for the first elements, which have none. -/
def vSlideUp (offset : BitVec 64) (c : Members) (o : Operands) (index : ℕ) : UnitM Unit := do
  let s ← UnitM.get
  if s.vec.vstart < offset.toNat ∧ index < offset.toNat then pure ()
  else
    let res := s.vec.getSewSingleOperand s.vec.getIntVSew o.rs2.val (BitVec.ofNat 64 index - offset).toNat
    writeGeneric { c with elemSel := .xxxsss } o res index

/-- `vSlideDown`: the element so many places above, or zero behind the last one that a group can have. -/
def vSlideDown (offset : BitVec 64) (c : Members) (o : Operands) (index : ℕ) : UnitM Unit := do
  let s ← UnitM.get
  let isZero := decide (vlmax s.vec ≤ (BitVec.ofNat 64 index + offset).toNat) ||
    offset &&& (1#64 <<< 63) != 0
  let res :=
    if isZero then 0
    else s.vec.getSewSingleOperand s.vec.getIntVSew o.rs2.val (BitVec.ofNat 64 index + offset).toNat
  writeGeneric { c with elemSel := .xxxsss } o res index

/-- `vSlide1Up`: the element below, and for the first one the scalar. -/
def vSlide1Up (c : Members) (o : Operands) (index : ℕ) : UnitM Unit := do
  let s ← UnitM.get
  if index ≠ 0 then
    let res := s.vec.getSewSingleOperand s.vec.getIntVSew o.rs2.val (index - 1)
    writeGeneric { c with elemSel := .xxxsss } o res index
  else writeGeneric { c with elemSel := .xxxuuu } o (s.regs o.rs1) index

/-- `vSlide1Down`: the element above, and for the last one the scalar. -/
def vSlide1Down (c : Members) (o : Operands) (index : ℕ) : UnitM Unit := do
  let s ← UnitM.get
  if index ≠ s.vec.vl - 1 then
    let res := s.vec.getSewSingleOperand s.vec.getIntVSew o.rs2.val (index + 1)
    writeGeneric { c with elemSel := .xxxsss } o res index
  else writeGeneric { c with elemSel := .xxxuuu } o (s.regs o.rs1) index

/-! ### Gather and compress -/

/-- `vGather`: the element that the index names, or zero if there is none.  A scalar index is compared in
full, and then used with the bits of an element. -/
def vGather (c : Members) (o : Operands) (_op2 op1 : BitVec 64) (_i : ℕ) : UnitM (BitVec 64) := do
  UnitM.vAssert o (c.paramSel != .vv || (o.rd != o.rs1 && o.rd != o.rs2))
  let s ← UnitM.get
  let rs1Value := if c.paramSel = .vx then s.regs o.rs1 else op1
  if vlmax s.vec ≤ rs1Value.toNat then pure 0
  else pure (s.vec.getSewSingleOperand s.vec.getIntVSew o.rs2.val op1.toNat)

/-- The body of the loop of `vCompress`. -/
def vCompressBody (c : Members) (o : Operands) (i currentPosition : ℕ) : UnitM ℕ := do
  let s ← UnitM.get
  let maskElem := (s.vec.getSewSingleOperand 64 o.rs1.val (i / 64)).getLsbD (i % 64)
  if !maskElem then pure currentPosition
  else do
    let res := s.vec.getSewSingleOperand s.vec.getIntVSew o.rs2.val i
    writeGeneric { c with elemSel := .xxxuuu } o res currentPosition
    pure (currentPosition + 1)

/-- `vCompress`; the position of the next element is kept from one element to the next. -/
def vCompress (o : Operands) : UnitM ℕ :=
  let c : Members :=
    { elemSel := .xxxuuu, paramSel := .vv, requireNoOverlap := true, vs1IsMask := true }
  genericVLoop c o false (vCompressBody c o) 0

/-! ### Instructions -/

/-- The permutation instructions: slides, gathers and the compression. -/
inductive PermuteOp
  | slideupVx
  | slideupVi
  | slidedownVx
  | slidedownVi
  | slide1up
  | slide1down
  | gatherVv
  | gatherei16
  | gatherVx
  | gatherVi
  | compress
  deriving DecidableEq, Repr

namespace PermuteOp

/-- `VSLIDEUP_VX` to `VCOMPRESS_VM`, for the value of the scalar register. -/
def instr (op : PermuteOp) (o : Operands) (x : BitVec 64) : UnitM Unit :=
  let imm := BitVec.ofNat 64 o.rs1.val
  match op with
  | slideupVx => vInstr o <| vLoopVoid true (vSlideUp x) .vx o
  | slideupVi => vInstr o <| vLoopVoid true (vSlideUp imm) .vi o
  | slidedownVx => vInstr o <| vLoopVoid false (vSlideDown x) .vx o
  | slidedownVi => vInstr o <| vLoopVoid false (vSlideDown imm) .vi o
  | slide1up => vInstr o <| vLoopVoid true vSlide1Up .vx o
  | slide1down => vInstr o <| vLoopVoid false vSlide1Down .vx o
  | gatherVv => vInstr o <| vLoopExt vGather 0 .xxxuuu .vv o
  | gatherei16 => vInstr o <| vLoopExt vGather 16 .xxxuuu .vv o
  | gatherVx => vInstr o <| vLoopExt vGather 0 .xxxuuu .vx o
  | gatherVi => vInstr o <| vLoopExt vGather 0 .xxxuuu .vi o
  | compress => vInstr o <| vCompress o

/-- An instruction; the slides get the value of the scalar register as an argument. -/
def exec (op : PermuteOp) (o : Operands) : UnitM Unit := do
  let s ← UnitM.get
  op.instr o (s.regs o.rs1)

theorem run'_exec (op : PermuteOp) (o : Operands) (s : VecIss) :
    (op.exec o).run' s = (op.instr o (s.regs o.rs1)).run' s := by
  rw [exec, UnitM.run'_bind]
  rfl

end PermuteOp

end RiscvVp.Vec
