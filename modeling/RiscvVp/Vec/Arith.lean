import RiscvVp.Vec.Basic

/-!
# Division, multiplication, fixed-point and carry arithmetic

The functions of `core/common/v.h` behind the instructions `vdiv`, `vrem`, `vmulh`, the fixed-point
instructions and the instructions that add and subtract with carry, and the cases of `rv64/iss_ctemplate.cpp` that
select them with their widths, signs and operand forms.

A function of one element does not write the state but for `vxsat`, into which it ors a bit.  The
division and the remainder of C++ are undefined for a divisor of 0 and, for signed operands, where the
quotient overflows.  Shifts of signed values, and the signed subtraction that makes the greatest number of
64 bits out of the least, are taken to wrap, as they do on the hosts of the simulator.
-/

namespace RiscvVp.Vec

open Cheri (VecState Operands)

/-- `vLoop`: an instruction whose function sees the widths and signs of its operands, the unit and the two
elements. -/
def vLoop (func : SignedEew → VecIss → BitVec 64 → BitVec 64 → Elem) (elem : ElemSel)
    (param : ParamSel) (o : Operands) : UnitM Unit :=
  let c : Members := { elemSel := elem, paramSel := param }
  genericVLoop c o false (vBody c o fun s op2 op1 _ => func (getSignedEew c s.vec) s op2 op1) ()

/-- A condition as a number. -/
def bit (b : Bool) : BitVec 64 := if b then 1 else 0

/-! ### Division -/

/-- `INT64_MIN`: the least number of 64 bits. -/
def int64Min : BitVec 64 := 0x8000000000000000

/-- `/` on unsigned operands; `none` where the host faults. -/
def udiv (a b : BitVec 64) : Option (BitVec 64) := if b = 0 then none else some (a.udiv b)

/-- `%` on unsigned operands; `none` where the host faults. -/
def umod (a b : BitVec 64) : Option (BitVec 64) := if b = 0 then none else some (a.umod b)

/-- `/` on signed operands; `none` where the host faults, by zero or on overflow. -/
def sdiv (a b : BitVec 64) : Option (BitVec 64) :=
  if b = 0 ∨ a = int64Min ∧ b = -1 then none else some (a.sdiv b)

/-- `%` on signed operands; `none` where the host faults, by zero or on overflow. -/
def smod (a b : BitVec 64) : Option (BitVec 64) :=
  if b = 0 ∨ a = int64Min ∧ b = -1 then none else some (a.srem b)

/-- `vDiv`: the quotient, truncated towards zero.  The two cases that C++ leaves undefined get the results
of the specification, before the host divides. -/
def vDiv (e : SignedEew) (sew : ℕ) (op2 op1 : BitVec 64) : Option (BitVec 64) :=
  if !e.vdSigned then if op1 = 0 then some (-1) else udiv op2 op1
  else
    let op1s := signExtend op1 e.op1Eew
    let op2s := signExtend op2 e.op2Eew
    if op1s = 0 then some (-1)
    else if op2s = int64Min.sshiftRight (64 - sew) ∧ op1s = -1 then some op2s
    else sdiv op2s op1s

/-- `vRem`: the remainder, with the sign of the dividend.  Only the division by zero is caught before the
host divides. -/
def vRem (e : SignedEew) (op2 op1 : BitVec 64) : Option (BitVec 64) :=
  if !e.vdSigned then if op1 = 0 then some op2 else umod op2 op1
  else
    let op1s := signExtend op1 e.op1Eew
    let op2s := signExtend op2 e.op2Eew
    if op1s = 0 then some op2s else smod op2s op1s

/-- `VDIV_VV`, `VDIV_VX`, and the unsigned `VDIVU_VV`, `VDIVU_VX`. -/
def vdiv (signed : Bool) (param : ParamSel) (o : Operands) : UnitM Unit :=
  vInstr o <| vLoop
    (fun e s op2 op1 => (vDiv e s.vec.getIntVSew op2 op1).map fun r => (r, false))
    (if signed then .xxxsss else .xxxuuu) param o

/-- `VREM_VV`, `VREM_VX`, and the unsigned `VREMU_VV`, `VREMU_VX`. -/
def vrem (signed : Bool) (param : ParamSel) (o : Operands) : UnitM Unit :=
  vInstr o <| vLoop (fun e _ op2 op1 => (vRem e op2 op1).map fun r => (r, false))
    (if signed then .xxxsss else .xxxuuu) param o

/-! ### Rounding -/

/-- `>>` on a value of a signed or an unsigned type. -/
def shr (signed : Bool) (v : BitVec 64) (d : ℕ) : BitVec 64 :=
  if signed then v.sshiftRight d else v >>> d

/-- `getRoundingIncrement`: what is added to a quotient by `2 ^ d`, zero or one, from the bits that are
shifted out and the lowest one that stays, in each of the four rounding modes. -/
def getRoundingIncrement (vxrm : BitVec 2) (signed : Bool) (v : BitVec 64) (d : ℕ) : BitVec 64 :=
  let lsb := shr signed v d &&& 1
  let lsbHalf := if d = 0 then 0 else shr signed v (d - 1) &&& 1
  let lsbMask := getMask d
  if vxrm = 0 then lsbHalf
  else if vxrm = 1 then lsbHalf &&& (bit (v &&& (lsbMask >>> 1) != 0) ||| lsb)
  else if vxrm = 2 then 0
  else bit (lsb == 0) &&& bit (v &&& lsbMask != 0)

/-- `vRound`: the quotient by `2 ^ d`, rounded.  With `d = 64` nothing of the number is left but the
increment. -/
def vRound (vxrm : BitVec 2) (signed : Bool) (v : BitVec 64) (d : ℕ) : BitVec 64 :=
  let r := getRoundingIncrement vxrm signed v d
  if d = 64 then r else shr signed v d + r

/-! ### Fixed-point functions -/

/-- `1ul << (width - 1)`. -/
def msb (width : ℕ) : BitVec 64 := 1#64 <<< (width - 1)

/-- The condition `value & msb`. -/
def msbSet (width : ℕ) (value : BitVec 64) : Bool := value &&& msb width != 0

/-- `vAadd`: the sum of two elements halved and rounded.  The sum is taken with the bits of an element, so
the top bit of the half is corrected where it has overflown. -/
def vAadd (e : SignedEew) (vxrm : BitVec 2) (op2 op1 : BitVec 64) : BitVec 64 :=
  let res := (op2 + op1) &&& getMask e.vdEew
  let op1Msb := msbSet e.vdEew op1
  let op2Msb := msbSet e.vdEew op2
  let resMsb := msbSet e.vdEew res
  let shiftResult :=
    if e.vdSigned then vRound vxrm true (signExtend res e.vdEew) 1 else vRound vxrm false res 1
  if e.vdSigned && ((op1Msb && op2Msb && !resMsb) || (!op1Msb && !op2Msb && resMsb)) then
    shiftResult ^^^ msb e.vdEew
  else if !e.vdSigned && ((op1Msb && op2Msb) || (!op1Msb && op2Msb && !resMsb) ||
      (op1Msb && !op2Msb && !resMsb)) then
    shiftResult ||| msb e.vdEew
  else shiftResult

/-- `vAsub`: the difference of two elements halved and rounded, with the same correction of its top bit. -/
def vAsub (e : SignedEew) (vxrm : BitVec 2) (op2 op1 : BitVec 64) : BitVec 64 :=
  let res := (op2 - op1) &&& getMask e.vdEew
  let op1Msb := msbSet e.vdEew op1
  let op2Msb := msbSet e.vdEew op2
  let resMsb := msbSet e.vdEew res
  let shiftResult :=
    if e.vdSigned then vRound vxrm true (signExtend res e.vdEew) 1 else vRound vxrm false res 1
  if e.vdSigned && ((!op1Msb && op2Msb && !resMsb) || (op1Msb && !op2Msb && resMsb)) then
    shiftResult ^^^ msb e.vdEew
  else if !e.vdSigned && ((!op1Msb && !op2Msb && resMsb) || (op1Msb && !op2Msb && resMsb) ||
      (op1Msb && !op2Msb && !resMsb) || (op1Msb && op2Msb && resMsb)) then
    shiftResult ^^^ msb e.vdEew
  else shiftResult

/-- `multiply`: `upper` and `lower` of the result.  It asks of the types `T` and `U` of its operands whether they
are signed.  A shift by 64 is undefined in C++: with `shift = 64` only `upper` is shifted so far, which no caller
reads, and with `shift = 0` only a zero. -/
def multiply (op2Signed op1Signed : Bool) (vxrm : BitVec 2) (op2 op1 : BitVec 64) (shift : ℕ)
    (round : Bool) : BitVec 64 × BitVec 64 :=
  let aHigh := shr op2Signed op2 32
  let aLow := op2 &&& 0xFFFFFFFF
  let bHigh := shr op1Signed op1 32
  let bLow := op1 &&& 0xFFFFFFFF
  let t0 := aLow * bLow
  let t1 := aLow * bHigh
  let t2 := aHigh * bLow
  let t3 := aHigh * bHigh
  let carry := (t0 >>> 32) + (t1 &&& 0xFFFFFFFF) + (t2 &&& 0xFFFFFFFF)
  let carryOther :=
    if op2Signed && op1Signed then
      (signExtend t1 64).sshiftRight 32 + (signExtend t2 64).sshiftRight 32 +
        (signExtend carry 64).sshiftRight 32
    else if op2Signed && !op1Signed then
      (t1 >>> 32) + (signExtend t2 64).sshiftRight 32 + (signExtend carry 64).sshiftRight 32
    else (t1 >>> 32) + (t2 >>> 32) + (carry >>> 32)
  let upper := t3 + carryOther
  let lower := (carry <<< 32) ||| (t0 &&& 0xFFFFFFFF)
  let shiftOut := (upper &&& getMask shift) <<< (64 - shift)
  let lowerPart := if shift = 64 then 0 else lower >>> shift
  let result := lowerPart ||| shiftOut
  (upper >>> shift, if round then result + getRoundingIncrement vxrm false lower shift else result)

/-- `vMulh`: the high half of the product, as the lower word of the product shifted by the width of an
element. -/
def vMulh (e : SignedEew) (vxrm : BitVec 2) (op2 op1 : BitVec 64) : BitVec 64 :=
  if e.op2Signed && e.op1Signed then
    (multiply true true vxrm (signExtend op2 e.op2Eew) (signExtend op1 e.op1Eew) e.op2Eew false).2
  else if !e.op2Signed && !e.op1Signed then (multiply false false vxrm op2 op1 e.op2Eew false).2
  else (multiply true false vxrm (signExtend op2 e.op2Eew) op1 e.op2Eew false).2

/-- `vSmul`: the rounded product of two fractions.  Only -1 times -1 does not fit; it gives the greatest
fraction and sets `vxsat`. -/
def vSmul (e : SignedEew) (vxrm : BitVec 2) (op2 op1 : BitVec 64) : BitVec 64 × Bool :=
  if op2 &&& getMask e.op2Eew = msb e.op2Eew ∧ op1 &&& getMask e.op1Eew = msb e.op1Eew then
    (getMask (e.op2Eew - 1), true)
  else
    ((multiply true true vxrm (signExtend op2 e.op2Eew) (signExtend op1 e.op1Eew) (e.vdEew - 1) true).2, false)

/-- `clampSigned`: the clamped value, and what is ored into `vxsat`. -/
def clampSigned (elem : BitVec 64) (origElemWidth destElemWidth : ℕ) : BitVec 64 × Bool :=
  let elemSigned := signExtend elem origElemWidth
  -- `INT8_MAX` to `INT64_MAX` and `INT8_MIN` to `INT64_MIN`
  let upperBound := msb destElemWidth - 1
  let lowerBound := -msb destElemWidth
  let clamped :=
    if elemSigned.slt lowerBound then lowerBound
    else if upperBound.slt elemSigned then upperBound
    else elemSigned
  (clamped, clamped != elemSigned)

/-- `vShiftRight`: a shift to the right with rounding, by an amount of as many bits as the width of the
shifted element needs, and clipped to the range of the narrower element for `vnclip`. -/
def vShiftRight (clipResult : Bool) (e : SignedEew) (vsew : BitVec 3) (vxrm : BitVec 2)
    (op2 op1 : BitVec 64) : BitVec 64 × Bool :=
  let shiftMask := getMask (vsew.toNat + 2 + e.op2Eew / e.vdEew)
  let shift := (op1 &&& shiftMask).toNat
  let result :=
    if e.vdSigned then vRound vxrm true (signExtend op2 e.op2Eew) shift
    else vRound vxrm false op2 shift
  if clipResult then
    if !e.vdSigned then
      if getMask e.vdEew < result then (getMask e.vdEew, true) else (result, false)
    else clampSigned result e.op2Eew e.vdEew
  else (result, false)

/-- `add_saturate`: the sum of two signed numbers, or the bound that it exceeds. -/
def addSaturate (op2 op1 : BitVec 64) (bitWidth : ℕ) : BitVec 64 × Bool :=
  let maxVal := msb bitWidth - 1
  let minVal := signExtend (msb bitWidth) bitWidth
  let sum := (op2 + op1) &&& getMask bitWidth
  let op1Msb := msbSet bitWidth op1
  let op2Msb := msbSet bitWidth op2
  let resMsb := msbSet bitWidth sum
  if op1Msb && op2Msb && !resMsb then (minVal, true)
  else if !op1Msb && !op2Msb && resMsb then (maxVal, true)
  else (sum, false)

/-- `addu_saturate`: the sum of two unsigned numbers, or all ones if it does not fit. -/
def adduSaturate (sew : ℕ) (op2 op1 : BitVec 64) : BitVec 64 × Bool :=
  let res := (op2 + op1) &&& getMask sew
  let sat := decide (res < op1 &&& getMask sew)
  (res ||| -bit sat, sat)

/-- `vSsub`: the difference of two signed numbers, or the bound that it exceeds. -/
def vSsub (e : SignedEew) (op2 op1 : BitVec 64) : BitVec 64 × Bool :=
  let maxVal := msb e.op2Eew - 1
  let minVal := signExtend (msb e.op2Eew) e.op2Eew
  let res := (op2 - op1) &&& getMask e.vdEew
  let op1Msb := msbSet e.vdEew op1
  let op2Msb := msbSet e.vdEew op2
  let resMsb := msbSet e.vdEew res
  if op2Msb && !op1Msb && !resMsb then (minVal, true)
  else if !op2Msb && op1Msb && resMsb then (maxVal, true)
  else (res, false)

/-- `vSsubu`.  The local variable `sat` says that the result did not saturate. -/
def vSsubu (sew : ℕ) (op2 op1 : BitVec 64) : BitVec 64 × Bool :=
  let res := op2 - op1
  let sat := decide (res &&& getMask sew ≤ op2)
  (res &&& -bit sat, !sat)

/-! ### Fixed-point instructions -/

/-- The fixed-point instructions: saturating and averaging sums and differences, the fractional product,
scaling shifts and clips. -/
inductive FixedOp
  | saddu
  | sadd
  | ssubu
  | ssub
  | aaddu
  | aadd
  | asubu
  | asub
  | smul
  | ssrl
  | ssra
  | nclipu
  | nclip
  deriving DecidableEq, Repr

namespace FixedOp

/-- The widths and signs with which the case of an instruction calls `vLoop`. -/
def elemSel : FixedOp → ParamSel → ElemSel
  | saddu, .vi => .xxxuus
  | saddu, _ | ssubu, _ | aaddu, _ | asubu, _ | ssrl, _ => .xxxuuu
  | sadd, _ | ssub, _ | aadd, _ | asub, _ | smul, _ => .xxxsss
  | ssra, _ => .xxxssu
  | nclipu, _ => .xwxuuu
  | nclip, _ => .xwxssu

/-- The function with which the case of an instruction calls `vLoop`. -/
def func (op : FixedOp) (e : SignedEew) (s : VecIss) (op2 op1 : BitVec 64) : BitVec 64 × Bool :=
  match op with
  | saddu => adduSaturate s.vec.getIntVSew op2 op1
  | sadd => addSaturate op2 op1 e.vdEew
  | ssubu => vSsubu s.vec.getIntVSew op2 op1
  | ssub => vSsub e op2 op1
  | aaddu | aadd => (vAadd e s.vxrm op2 op1, false)
  | asubu | asub => (vAsub e s.vxrm op2 op1, false)
  | smul => vSmul e s.vxrm op2 op1
  | ssrl | ssra => vShiftRight false e s.vec.vsew s.vxrm op2 op1
  | nclipu | nclip => vShiftRight true e s.vec.vsew s.vxrm op2 op1

/-- `VSADDU_VV` to `VNCLIP_WI` (the forms of the narrowing instructions are named `wv`, `wx` and `wi`).  There
is no `vi` form of the subtractions, the averages and the multiplication. -/
def exec (op : FixedOp) (param : ParamSel) (o : Operands) : UnitM Unit :=
  vInstr o <| vLoop (fun e s op2 op1 => some (op.func e s op2 op1)) (op.elemSel param) param o

end FixedOp

/-! ### High halves of products -/

/-- The instructions that keep the high half of a product. -/
inductive MulhOp
  | mulh
  | mulhu
  | mulhsu
  deriving DecidableEq, Repr

namespace MulhOp

/-- The widths and signs with which the case of an instruction calls `vLoop`. -/
def elemSel : MulhOp → ElemSel
  | mulh => .xxxsss
  | mulhu => .xxxuuu
  | mulhsu => .xxxssu

/-- `VMULH_VV` to `VMULHSU_VX`.  There are no `vi` forms. -/
def exec (op : MulhOp) (param : ParamSel) (o : Operands) : UnitM Unit :=
  vInstr o <| vLoop (fun e s op2 op1 => some (vMulh e s.vxrm op2 op1, false)) op.elemSel param o

end MulhOp

/-! ### Carries -/

/-- `vLoopExtCarry`: all elements of the body are computed. -/
def vLoopExtCarry (func : VecIss → BitVec 64 → BitVec 64 → ℕ → BitVec 64) (elem : ElemSel)
    (param : ParamSel) (o : Operands) : UnitM Unit :=
  let c : Members := { elemSel := elem, paramSel := param }
  genericVLoop c o true (vBody c o fun s op2 op1 i => some (func s op2 op1 i, false)) ()

/-- `vLoopVoidAll`, whose function writes a mask. -/
def vLoopVoidAll (func : Members → ℕ → UnitM Unit) (elem : ElemSel) (param : ParamSel)
    (o : Operands) : UnitM Unit :=
  let c : Members :=
    { elemSel := elem, paramSel := param, requireVdNotV0 := false, vdIsMask := true }
  genericVLoop c o true (fun i _ => func c i) ()

/-- `vAdc`: the sum of two elements and of the carry in the mask. -/
def vAdc (o : Operands) (s : VecIss) (op2 op1 : BitVec 64) (i : ℕ) : BitVec 64 :=
  op2 + op1 + vCarry o s.vec i

/-- `vSbc`: the difference of two elements, less the borrow in the mask. -/
def vSbc (o : Operands) (s : VecIss) (op2 op1 : BitVec 64) (i : ℕ) : BitVec 64 :=
  op2 - op1 - vCarry o s.vec i

/-- `setSingleBitUnmasked`: one bit of a word is replaced and the others are kept. -/
def setSingleBitUnmasked (w f : BitVec 64) (regPos : ℕ) : BitVec 64 :=
  let m := 1#64 <<< regPos
  (w &&& ~~~m) ||| (-f &&& m)

/-- `has_overflown` in `vMadc`: the carry out of the sum, found by the top bits of the operands and the
result. -/
def madcOverflown (e : SignedEew) (op2 op1 carry : BitVec 64) : Bool :=
  let res := signExtend op2 e.op2Eew + signExtend op1 e.op1Eew
  let op1Msb := msbSet e.vdEew op1
  let op2Msb := msbSet e.vdEew op2
  let resMsb := msbSet e.vdEew res
  (op1Msb && op2Msb) || (op1Msb && !op2Msb && !resMsb) || (!op1Msb && op2Msb && !resMsb) ||
    (carry != 0 && res == getMask 64)

/-- `has_overflown` in `vMsbc`: the borrow of the difference, found in the same way. -/
def msbcOverflown (e : SignedEew) (op2 op1 carry : BitVec 64) : Bool :=
  let res := signExtend op2 e.op2Eew - signExtend op1 e.op1Eew
  let op1Msb := msbSet e.vdEew op1
  let op2Msb := msbSet e.vdEew op2
  let resMsb := msbSet e.vdEew res
  (op1Msb && !op2Msb) || (!op1Msb && !op2Msb && resMsb) || (op1Msb && op2Msb && resMsb) ||
    (carry != 0 && res == 0)

/-- `vMadc` and `vMsbc`, which differ in `has_overflown`. -/
def vCarryOut (overflown : SignedEew → BitVec 64 → BitVec 64 → BitVec 64 → Bool) (o : Operands)
    (c : Members) (i : ℕ) : UnitM Unit := do
  let s ← UnitM.get
  let ops := getOperands c o s i
  let hasOverflown := overflown (getSignedEew c s.vec) ops.2 ops.1 (vCarry o s.vec i)
  let vd := s.vec.getSewSingleOperand 64 o.rd.val (i / 64)
  let vd := setSingleBitUnmasked vd (bit hasOverflown) (i % 64)
  UnitM.modify fun s =>
    { s with vec := s.vec.writeSewSingleOperand 64 o.rd.val (i / 64) vd }

/-- `vMadc`: the mask of the carries of the sums. -/
def vMadc : Operands → Members → ℕ → UnitM Unit := vCarryOut madcOverflown

/-- `vMsbc`: the mask of the borrows of the differences. -/
def vMsbc : Operands → Members → ℕ → UnitM Unit := vCarryOut msbcOverflown

/-- `VADC_VVM`, `VADC_VXM` and `VADC_VIM`. -/
def vadc (param : ParamSel) (o : Operands) : UnitM Unit :=
  vInstr o <| vLoopExtCarry (vAdc o) .xxxsss param o

/-- `VSBC_VVM` and `VSBC_VXM`: the difference of the elements and the borrows in `v0`. -/
def vsbc (param : ParamSel) (o : Operands) : UnitM Unit :=
  vInstr o <| vLoopExtCarry (vSbc o) .xxxsss param o

/-- `VMADC_VVM` to `VMADC_VI`; the forms without carry-in have `vm` set. -/
def vmadc (param : ParamSel) (o : Operands) : UnitM Unit :=
  vInstr o <| vLoopVoidAll (vMadc o) .xxxsss param o

/-- `VMSBC_VVM` to `VMSBC_VX`; the forms without borrow-in have `vm` set. -/
def vmsbc (param : ParamSel) (o : Operands) : UnitM Unit :=
  vInstr o <| vLoopVoidAll (vMsbc o) .xxxsss param o

end RiscvVp.Vec
