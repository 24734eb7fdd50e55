import RiscvVp.Iss.VLoadStore

/-!
# The vector unit

The loops of the vector arithmetic and permutation instructions (`core/common/v.h`): the widths and
signs of the operands, how the operands of an element are fetched, the checks that every instruction
makes first, and `genericVLoop` with the loops built on it.

The unit is a template over the ISS; here it is that of an RV64 hart.  `VLEN` is 512 and `ELEN` is 64.
The members of `VExtension` that `prepInstr` resets and an instruction then sets are a record that the
loops take as an argument; those that no instruction below sets (`vd_eew_overwrite`, `ignoreOverlap`
and the like) keep the value that `prepInstr` gives them and are left out.  So are the reads that only
print a trace.
-/

namespace RiscvVp.Vec

open Cheri (VecState Operands)

/-! ### State -/

/-- What the vector instructions read and write; `vs` is the field of `mstatus`. -/
structure VecIss where
  regs : Fin 32 → BitVec 64
  vs : BitVec 2
  vec : VecState
  vxrm : BitVec 2
  vxsat : Bool

/-- How an instruction ends early: with a trap, or because C++ leaves an operation of the simulator
itself undefined. -/
inductive Stop
  | trap (t : SimulationTrap)
  | host
  deriving DecidableEq

/-- A computation of the vector unit. -/
abbrev UnitM := ExceptT Stop (StateM VecIss)

namespace UnitM

variable {α β : Type}

/-- The outcome and the state it leaves. -/
def run' (x : UnitM α) (s : VecIss) : Except Stop α × VecIss := x s

theorem run'_bind (x : UnitM α) (f : α → UnitM β) (s : VecIss) :
    (x >>= f).run' s =
      match x.run' s with
      | (.ok a, s') => (f a).run' s'
      | (.error t, s') => (.error t, s') := by
  show (ExceptT.bind x f) s = _
  simp only [ExceptT.bind, ExceptT.mk, bind, StateT.bind, run']
  rcases x s with ⟨a | a, s'⟩ <;> rfl

@[simp] theorem run'_pure (a : α) (s : VecIss) : (pure a : UnitM α).run' s = (.ok a, s) := rfl

@[simp] theorem run'_throw (t : Stop) (s : VecIss) :
    (throw t : UnitM α).run' s = (.error t, s) := rfl

/-- The state. -/
def get : UnitM VecIss := fun s => (.ok s, s)

/-- Change the state. -/
def modify (f : VecIss → VecIss) : UnitM Unit := fun s => (.ok (), f s)

@[simp] theorem run'_get (s : VecIss) : get.run' s = (.ok s, s) := rfl

@[simp] theorem run'_modify (f : VecIss → VecIss) (s : VecIss) :
    (modify f).run' s = (.ok (), f s) := rfl

/-- `v_assert`: a check of the vector unit; an instruction that does not pass it is an illegal one. -/
def vAssert (o : Operands) (cond : Bool) : UnitM Unit :=
  if cond then pure () else throw (.trap ⟨.illegalInstr, o.data.setWidth 64⟩)

@[simp] theorem run'_vAssert_true (o : Operands) (s : VecIss) :
    (vAssert o true).run' s = (.ok (), s) := rfl

end UnitM

/-! ### Widths and operands -/

/-- `elem_sel_t`: which of `vd`, `op2` and `op1` are twice as wide (bits 5 to 3), and which are signed
(bits 2 to 0). -/
abbrev ElemSel := BitVec 6

namespace ElemSel

def xxxuuu : ElemSel := 0b000000
def xxxuus : ElemSel := 0b000001
def xxxssu : ElemSel := 0b000110
def xxxsss : ElemSel := 0b000111
def xwxuuu : ElemSel := 0b010000
def xwxssu : ElemSel := 0b010110

end ElemSel

/-- `param_sel_t`: where the first operand comes from. -/
inductive ParamSel
  | vv
  | vi
  | vx
  deriving DecidableEq, Repr

/-- The members of `VExtension` that the instructions set. -/
structure Members where
  elemSel : ElemSel
  paramSel : ParamSel
  o1EewOverwrite : ℕ := 0
  requireNoOverlap : Bool := false
  requireVdNotV0 : Bool := true
  vdIsMask : Bool := false
  vs1IsMask : Bool := false

/-- What `getSignedEew` returns: the widths of the elements of the destination and of both sources, and
whether they are signed. -/
structure SignedEew where
  vdEew : ℕ
  vdSigned : Bool
  op2Eew : ℕ
  op2Signed : Bool
  op1Eew : ℕ
  op1Signed : Bool

/-- `getSignedEew`: the widths and signs that the selector of an instruction stands for, with the selected
element width. -/
def getSignedEew (c : Members) (v : VecState) : SignedEew :=
  let sew := v.getIntVSew
  { vdEew := if c.elemSel.getLsbD 5 then 2 * sew else sew
    vdSigned := c.elemSel.getLsbD 2
    op2Eew := if c.elemSel.getLsbD 4 then 2 * sew else sew
    op2Signed := c.elemSel.getLsbD 1
    op1Eew :=
      if c.o1EewOverwrite ≠ 0 then c.o1EewOverwrite
      else if c.elemSel.getLsbD 3 then 2 * sew else sew
    op1Signed := c.elemSel.getLsbD 0 }

/-- `signExtend`: the low bits of a number as a signed one. -/
def signExtend (value : BitVec 64) (width : ℕ) : BitVec 64 :=
  (value <<< (64 - width)).sshiftRight (64 - width)

/-- `getMask`: as many ones at the bottom of a word; 64 and more are all of them. -/
def getMask (numBits : ℕ) : BitVec 64 :=
  if numBits < 64 then (1#64 <<< numBits) - 1 else BitVec.allOnes 64

/-- `getOperandsRed`: the operands `op1` and `op2` from elements `i₁` and `i₂`. -/
def getOperandsRed (c : Members) (o : Operands) (s : VecIss) (i₁ i₂ : ℕ) :
    BitVec 64 × BitVec 64 :=
  let e := getSignedEew c s.vec
  let op2 := s.vec.getSewSingleOperand e.op2Eew o.rs2.val i₂
  let op1 :=
    match c.paramSel with
    | .vv => s.vec.getSewSingleOperand e.op1Eew o.rs1.val i₁
    | .vi =>
      let op1 := BitVec.ofNat 64 o.rs1.val
      if e.op1Signed then signExtend op1 5 else op1
    | .vx =>
      let op1 := s.regs o.rs1 &&& getMask e.op1Eew
      if e.op1Signed then signExtend op1 e.op1Eew else op1
  (op1, op2)

/-- `getOperands`: the two source operands for an element, from the registers or from the instruction
itself. -/
def getOperands (c : Members) (o : Operands) (s : VecIss) (i : ℕ) : BitVec 64 × BitVec 64 :=
  getOperandsRed c o s i i

/-- `writeGeneric`: the result is written to an element of the destination, with the width of the
destination. -/
def writeGeneric (c : Members) (o : Operands) (result : BitVec 64) (i : ℕ) : UnitM Unit :=
  .modify fun s =>
    { s with vec := s.vec.writeSewSingleOperand (getSignedEew c s.vec).vdEew o.rd.val i result }

/-- `vCarry`: bit `index` of `v0`, or 0 for an instruction without mask. -/
def vCarry (o : Operands) (v : VecState) (index : ℕ) : BitVec 64 :=
  if o.vm then 0 else (v.getSewSingleOperand 64 0 (index / 64) >>> (index % 64)) &&& 1

/-! ### The loops -/

/-- `applyChecks`.  All its assertions raise the same trap. -/
def applyChecks (c : Members) (o : Operands) (v : VecState) : Bool :=
  let e := getSignedEew c v
  let lmul := v.getVlmul
  let sew := v.getIntVSew
  -- for the overlap of register groups, the elements of a mask have one bit
  let vdEew := if c.vdIsMask then 1 else e.vdEew
  let vs1Eew := if c.vs1IsMask then 1 else e.op1Eew
  let vdEmul : ℚ := lmul * vdEew / sew
  let vs2Emul : ℚ := lmul * e.op2Eew / sew
  let vs1Emul : ℚ := if c.paramSel = .vv then lmul * vs1Eew / sew else 0
  decide (8 ≤ e.vdEew ∧ e.vdEew ≤ 64 ∧ 8 ≤ e.op2Eew ∧ e.op2Eew ≤ 64 ∧ 8 ≤ e.op1Eew ∧
    e.op1Eew ≤ 64) &&
  (!c.requireVdNotV0 || o.vm || o.rd != 0) &&
  decide (vdEmul ≤ 8) && decide (vs2Emul ≤ 8) && decide (vs1Emul ≤ 8) &&
  (c.paramSel != .vv || VecState.vregOverlapValid o.rd.val vdEmul vdEew o.rs1.val vs1Emul vs1Eew
    c.requireNoOverlap) &&
  VecState.vregOverlapValid o.rd.val vdEmul vdEew o.rs2.val vs2Emul e.op2Eew c.requireNoOverlap &&
  (c.vdIsMask || VecState.isAligned o.rd.val vdEmul) &&
  VecState.isAligned o.rs2.val vs2Emul &&
  (c.paramSel != .vv || c.vs1IsMask || VecState.isAligned o.rs1.val vs1Emul)

/-- The loop of `genericVLoop`; what the body keeps from one element to the next is an argument. -/
def vElements {α : Type} (o : Operands) (ignoreInactive : Bool) (f : ℕ → α → UnitM α) :
    List ℕ → α → UnitM α
  | [], a => pure a
  | i :: is, a => do
    let s ← UnitM.get
    if !ignoreInactive && s.vec.vInactive o s.vec.vl i then vElements o ignoreInactive f is a
    else do
      let a ← f i a
      vElements o ignoreInactive f is a

/-- `genericVLoop`: the checks of the instruction, then its elements from the first one on, and `vstart` is
cleared at the end. -/
def genericVLoop {α : Type} (c : Members) (o : Operands) (ignoreInactive : Bool)
    (f : ℕ → α → UnitM α) (a : α) : UnitM α := do
  let s ← UnitM.get
  UnitM.vAssert o (applyChecks c o s.vec)
  let a ← vElements o ignoreInactive f (List.range s.vec.vl) a
  UnitM.modify fun s => { s with vec := { s.vec with vstart := 0 } }
  pure a

/-- The case of an instruction: `prepInstr`, its loop and `finishInstr`. -/
def vInstr {α : Type} (o : Operands) (loop : UnitM α) : UnitM Unit := do
  let s ← UnitM.get
  UnitM.vAssert o (s.vs != 0)
  UnitM.modify fun s => { s with vs := 3 }
  UnitM.vAssert o (!s.vec.vill)
  let _ ← loop
  UnitM.modify fun s => { s with vec := { s.vec with vstart := 0 } }

/-- What the function of an instruction gives for one element: the result, and what it ors into
`vxsat`.  There is none where an operation of the simulator is undefined. -/
abbrev Elem := Option (BitVec 64 × Bool)

/-- The body of `vLoop`, `vLoopExt` and `vLoopExtCarry`: fetch the operands, compute, write. -/
def vBody (c : Members) (o : Operands) (func : VecIss → BitVec 64 → BitVec 64 → ℕ → Elem) (i : ℕ)
    (_ : Unit) : UnitM Unit := do
  let s ← UnitM.get
  let ops := getOperands c o s i
  match func s ops.2 ops.1 i with
  | none => throw .host
  | some r =>
    UnitM.modify fun s => { s with vxsat := s.vxsat || r.2 }
    writeGeneric c o r.1 i

end RiscvVp.Vec
