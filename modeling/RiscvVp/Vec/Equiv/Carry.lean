import RiscvVp.Lib.Limbs
import RiscvVp.Vec.Equiv.Operands

/-!
# Multi-word arithmetic

`vadc` gives the low bits of a sum with carry and `vmadc` the carry, `vsbc` and `vmsbc` the same for a
difference with borrow.  Sum and carry are computed by separate functions, from operands whose sign is
extended to 64 bits, and the carries are written into a mask register one bit at a time, while the
operands and the carries into the elements are still being read.  Together they are exact, so a chain of
these instructions over the limbs of two vectors of numbers adds or subtracts the numbers
(`carryChain`).
-/

namespace RiscvVp.Vec

open Cheri (VecState Operands ofBytes bytesOf memcpy getLsbD_ofBytes getLsbD_bytesOf)

/-! ### One element -/

section Element

variable {e : SignedEew} {n : Width} (op2 op1 : BitVec 64)

/-- A sign extension as a natural number. -/
theorem toNat_signExtend (n : Width) (x : BitVec 64) :
    (signExtend x n.bits).toNat =
      if 2 ^ (n.bits - 1) ≤ x.toNat % 2 ^ n.bits then x.toNat % 2 ^ n.bits + (2 ^ 64 - 2 ^ n.bits)
      else x.toNat % 2 ^ n.bits := by
  have hpos := bits_pos n
  have hle := bits_le n
  have hpow : 2 ^ n.bits ≤ 2 ^ 64 := Nat.pow_le_pow_right (by decide) hle
  have hlt := Nat.mod_lt x.toNat (Nat.two_pow_pos n.bits)
  rw [signExtend_eq x hpos hle, BitVec.toNat_signExtend, BitVec.msb_eq_decide, BitVec.toNat_setWidth,
    BitVec.toNat_setWidth, Nat.mod_eq_of_lt (b := 2 ^ 64) (by omega)]
  by_cases h : 2 ^ (n.bits - 1) ≤ x.toNat % 2 ^ n.bits <;> simp [h]

/-- Whether a carry is set, read off the word or off its number. -/
theorem carry_ne_zero {carry : BitVec 64} : carry ≠ 0 ↔ carry.toNat ≠ 0 := by
  rw [ne_eq, ne_eq, ← BitVec.toNat_inj]
  rfl

/-- The carry of a sum, with the carry into it, as the test of the source finds it. -/
theorem madcOverflown_iff (hvd : e.vdEew = n.bits) (hop2 : e.op2Eew = n.bits) (hop1 : e.op1Eew = n.bits)
    {carry : BitVec 64} (hcarry : carry.toNat ≤ 1) :
    madcOverflown e op2 op1 carry = true ↔
      2 ^ n.bits ≤ op2.toNat % 2 ^ n.bits + op1.toNat % 2 ^ n.bits + carry.toNat := by
  have h2 := msbSet_iff op2 (bits_pos n) (bits_le n)
  have h1 := msbSet_iff op1 (bits_pos n) (bits_le n)
  have hr := msbSet_iff (signExtend op2 n.bits + signExtend op1 n.bits) (bits_pos n) (bits_le n)
  have hones : signExtend op2 n.bits + signExtend op1 n.bits = getMask 64 ↔
      (signExtend op2 n.bits + signExtend op1 n.bits).toNat = 2 ^ 64 - 1 := by
    rw [← getMask_toNat (le_refl 64)]
    exact ⟨fun h => congrArg BitVec.toNat h, fun h => BitVec.eq_of_toNat_eq h⟩
  rw [BitVec.toNat_add, toNat_signExtend, toNat_signExtend] at hr hones
  simp only [madcOverflown, hvd, hop2, hop1, Bool.or_eq_true, Bool.and_eq_true, Bool.not_eq_true',
    ← Bool.not_eq_true, bne_iff_ne, beq_iff_eq, h1, h2, hr, hones, carry_ne_zero]
  have hlt2 := Nat.mod_lt op2.toNat (Nat.two_pow_pos n.bits)
  have hlt1 := Nat.mod_lt op1.toNat (Nat.two_pow_pos n.bits)
  clear h1 h2 hr hones
  generalize op2.toNat % 2 ^ n.bits = a at *
  generalize op1.toNat % 2 ^ n.bits = b at *
  by_cases ha : 2 ^ (n.bits - 1) ≤ a <;> by_cases hb : 2 ^ (n.bits - 1) ≤ b <;>
    simp only [ha, hb, if_true, if_false, true_and, false_and, and_true, not_true_eq_false,
      not_false_eq_true, true_or, false_or, or_false, true_iff] <;>
    cases n <;> simp only [Width.bits, Width.bytes] at * <;> omega

/-- The borrow of a difference, with the borrow into it, as the test of the source finds it. -/
theorem msbcOverflown_iff (hvd : e.vdEew = n.bits) (hop2 : e.op2Eew = n.bits) (hop1 : e.op1Eew = n.bits)
    {carry : BitVec 64} (hcarry : carry.toNat ≤ 1) :
    msbcOverflown e op2 op1 carry = true ↔
      op2.toNat % 2 ^ n.bits < op1.toNat % 2 ^ n.bits + carry.toNat := by
  have h2 := msbSet_iff op2 (bits_pos n) (bits_le n)
  have h1 := msbSet_iff op1 (bits_pos n) (bits_le n)
  have hr := msbSet_iff (signExtend op2 n.bits - signExtend op1 n.bits) (bits_pos n) (bits_le n)
  have hzero : signExtend op2 n.bits - signExtend op1 n.bits = 0 ↔
      (signExtend op2 n.bits - signExtend op1 n.bits).toNat = 0 := by
    rw [← BitVec.toNat_inj]
    rfl
  rw [BitVec.toNat_sub, toNat_signExtend, toNat_signExtend] at hr hzero
  simp only [msbcOverflown, hvd, hop2, hop1, Bool.or_eq_true, Bool.and_eq_true, Bool.not_eq_true',
    ← Bool.not_eq_true, bne_iff_ne, beq_iff_eq, h1, h2, hr, hzero, carry_ne_zero]
  have hlt2 := Nat.mod_lt op2.toNat (Nat.two_pow_pos n.bits)
  have hlt1 := Nat.mod_lt op1.toNat (Nat.two_pow_pos n.bits)
  clear h1 h2 hr hzero
  generalize op2.toNat % 2 ^ n.bits = a at *
  generalize op1.toNat % 2 ^ n.bits = b at *
  by_cases ha : 2 ^ (n.bits - 1) ≤ a <;> by_cases hb : 2 ^ (n.bits - 1) ≤ b <;>
    simp only [ha, hb, if_true, if_false, true_and, false_and, and_true, not_true_eq_false,
      not_false_eq_true, true_or, false_or, or_false, true_iff] <;>
    cases n <;> simp only [Width.bits, Width.bytes] at * <;> omega

end Element

/-! ### Masks -/

/-- Element `i` of the mask in register `r`. -/
def maskBit (v : VecState) (r i : ℕ) : Bool := (v.getSewSingleOperand 64 r (i / 64)).getLsbD (i % 64)

/-- A bit of a 64-bit element is a bit of one of its bytes. -/
theorem getLsbD_getSewSingleOperand_64 (v : VecState) (addr index : ℕ) {i : ℕ} (hi : i < 64) :
    (v.getSewSingleOperand 64 addr index).getLsbD i
      = (v.vRegs (addr * 64 + index * 8 + i / 8)).getLsbD (i % 8) := by
  rw [VecState.getSewSingleOperand, BitVec.getLsbD_setWidth, getLsbD_ofBytes]
  simp [hi]

theorem maskBit_eq (v : VecState) (r i : ℕ) : maskBit v r i = (v.vRegs (r * 64 + i / 8)).getLsbD (i % 8) := by
  have hi := Nat.mod_lt i (show 0 < 64 by decide)
  rw [maskBit, getLsbD_getSewSingleOperand_64 v _ _ hi,
    show r * 64 + i / 64 * 8 + i % 64 / 8 = r * 64 + i / 8 by omega,
    show i % 64 % 8 = i % 8 by omega]

/-- The carry into an element is its bit of the mask register, or nothing without a mask. -/
theorem toNat_vCarry (o : Operands) (v : VecState) (i : ℕ) :
    (vCarry o v i).toNat = if o.vm then 0 else (maskBit v 0 i).toNat := by
  unfold vCarry
  split_ifs
  · rfl
  · have hone : (1 : BitVec 64).toNat = 1 := by decide
    rw [BitVec.toNat_and, BitVec.toNat_ushiftRight, hone, Nat.and_one_is_mod, maskBit, BitVec.getLsbD,
      Nat.testBit, Nat.and_comm, Nat.and_one_is_mod]
    rcases Nat.mod_two_eq_zero_or_one ((v.getSewSingleOperand 64 0 (i / 64)).toNat >>> (i % 64))
      with h | h
    · simp [h]
    · simp [h]

/-- `setSingleBitUnmasked` sets one bit and keeps the 63 others. -/
theorem getLsbD_setSingleBitUnmasked (w : BitVec 64) (b : Bool) {pos i : ℕ} (hi : i < 64) :
    (setSingleBitUnmasked w (bit b) pos).getLsbD i = if i = pos then b else w.getLsbD i := by
  have hone : (1#64 <<< pos).getLsbD i = decide (i = pos) := by
    rw [BitVec.getLsbD_shiftLeft, BitVec.getLsbD_one]
    rcases Nat.lt_trichotomy i pos with h | rfl | h
    · simp [h, h.ne]
    · simp [hi]
    · simp [h.ne', show i - pos ≠ 0 by omega]
  have hneg : (-bit b).getLsbD i = b := by
    cases b with
    | false => simp [bit]
    | true =>
      rw [bit, if_pos rfl, show (-1 : BitVec 64) = BitVec.allOnes 64 by decide,
        BitVec.getLsbD_allOnes, decide_eq_true hi]
  simp only [setSingleBitUnmasked, BitVec.getLsbD_or, BitVec.getLsbD_and, BitVec.getLsbD_not, hone, hneg,
    hi, decide_true, Bool.true_and]
  by_cases h : i = pos <;> simp [h]

/-! ### The loop that writes a mask -/

/-- The state after `k` elements of the mask have been written. -/
structure MaskWritten (o : Operands) (out : ℕ → Bool) (s : VecIss) (k : ℕ) (s' : VecIss) : Prop where
  regs : s'.regs = s.regs
  vec : ∃ vRegs, s'.vec = { s.vec with vRegs }
  bits : ∀ a j, j < 8 → (s'.vec.vRegs a).getLsbD j =
    if o.rd.val * 64 ≤ a ∧ 8 * (a - o.rd.val * 64) + j < k then out (8 * (a - o.rd.val * 64) + j)
    else (s.vec.vRegs a).getLsbD j

namespace MaskWritten

variable {o : Operands} {out : ℕ → Bool} {s s' : VecIss} {k : ℕ}

theorem zero (vs : BitVec 2) : MaskWritten o out s 0 { s with vs } where
  regs := rfl
  vec := ⟨s.vec.vRegs, rfl⟩
  bits a j _ := by rw [if_neg (by omega)]

/-- A byte that none of the elements lies in is the same. -/
theorem byte (h : MaskWritten o out s k s') {a : ℕ}
    (ha : a < o.rd.val * 64 ∨ k ≤ 8 * (a - o.rd.val * 64)) : s'.vec.vRegs a = s.vec.vRegs a := by
  apply BitVec.eq_of_getLsbD_eq
  intro j hj
  rw [h.bits a j hj, if_neg (by omega)]

/-- Writing the word with bit `k` set changes no other bit. -/
theorem step (h : MaskWritten o out s k s') :
    MaskWritten o out s (k + 1)
      { s' with
        vec := s'.vec.writeSewSingleOperand 64 o.rd.val (k / 64)
          (setSingleBitUnmasked (s'.vec.getSewSingleOperand 64 o.rd.val (k / 64)) (bit (out k))
            (k % 64)) } where
  regs := h.regs
  vec := by
    obtain ⟨vRegs, hvec⟩ := h.vec
    show ∃ vRegs, VecState.writeSewSingleOperand s'.vec _ _ _ _ = { s.vec with vRegs }
    rw [hvec]
    exact ⟨_, rfl⟩
  bits a j hj := by
    show (memcpy s'.vec.vRegs (o.rd.val * 64 + k / 64 * 8) (bytesOf _) 8 a).getLsbD j = _
    have hold := h.bits a j hj
    unfold memcpy
    by_cases hin : o.rd.val * 64 + k / 64 * 8 ≤ a ∧ a < o.rd.val * 64 + k / 64 * 8 + 8
    · obtain ⟨t, ht⟩ := Nat.exists_eq_add_of_le hin.1
      have ht8 : t < 8 := by omega
      rw [if_pos hin, getLsbD_bytesOf _ _ hj, getLsbD_setSingleBitUnmasked _ _ (by omega), ht,
        Nat.add_sub_cancel_left]
      by_cases hk : 8 * t + j = k % 64
      · have hpos : 8 * (o.rd.val * 64 + k / 64 * 8 + t - o.rd.val * 64) + j = k := by omega
        rw [if_pos hk, hpos, if_pos (by omega)]
      · rw [if_neg hk, getLsbD_getSewSingleOperand_64 _ _ _ (by omega),
          show (8 * t + j) / 8 = t by omega, show (8 * t + j) % 8 = j by omega, ← ht, hold, ht]
        refine if_congr ?_ rfl rfl
        omega
    · rw [if_neg hin, hold]
      refine if_congr ?_ rfl rfl
      omega

/-- The elements that have been written hold the carries that were computed for them. -/
theorem maskBit_of_lt (h : MaskWritten o out s k s') {i : ℕ} (hi : i < k) :
    maskBit s'.vec o.rd.val i = out i := by
  have hpos : 8 * (o.rd.val * 64 + i / 8 - o.rd.val * 64) + i % 8 = i := by omega
  rw [maskBit_eq, h.bits _ _ (Nat.mod_lt i (by decide)), hpos, if_pos (by omega)]

/-- The carry into the next element has not been overwritten. -/
theorem vCarry_eq (h : MaskWritten o out s k s') (hk : k < 512) :
    vCarry o s'.vec k = vCarry o s.vec k := by
  have hbit : maskBit s'.vec 0 k = maskBit s.vec 0 k := by
    rw [maskBit_eq, maskBit_eq, h.bits _ _ (Nat.mod_lt k (by decide)), if_neg (by omega)]
  apply BitVec.eq_of_toNat_eq
  rw [toNat_vCarry, toNat_vCarry, hbit]

theorem getSignedEew_eq (h : MaskWritten o out s k s') (c : Members) :
    getSignedEew c s'.vec = getSignedEew c s.vec := by
  obtain ⟨vRegs, hvec⟩ := h.vec
  rw [hvec]
  rfl

/-- A source is only overlapped by the destination where both begin, so its element `k` comes after
element `k - 1` of the mask. -/
theorem source (h : MaskWritten o out s k s') {m : Width} {vs : ℕ} {strict : Bool}
    (hvl : s.vec.VlInRange) (hk : k < s.vec.vl)
    (hover : VecState.vregOverlapValid o.rd.val (emul s.vec 1) 1 vs (emul s.vec m.bits) m.bits strict
      = true) :
    s'.vec.getSewSingleOperand m.bits vs k = s.vec.getSewSingleOperand m.bits vs k := by
  have hpos : 0 < emul s.vec 1 := by
    unfold emul VecState.getVlmul VecState.getIntVSew
    positivity
  have hnonneg : 0 ≤ emul s.vec m.bits := by
    unfold emul VecState.getVlmul
    positivity
  have hone : 1 ≤ ⌈emul s.vec 1⌉.toNat := by
    have := Int.ceil_pos.2 hpos
    omega
  have hm := elem_le_of_le s.vec m (le_of_lt_vl hvl hk)
  rw [Nat.succ_mul] at hm
  have hvl' := vl_le hvl
  have hbytes : k ≤ k * m.bytes := Nat.le_mul_of_pos_right k (by cases m <;> decide)
  have hbits : 8 ≤ m.bits := by cases m <;> decide
  apply VecState.getSewSingleOperand_congr
  intro a ha
  apply h.byte
  obtain hd | hd | ⟨-, hd | hd | hd⟩ := overlap_cases hpos.le hnonneg hover
  · left
    omega
  · right
    omega
  · omega
  · right
    omega
  · omega

end MaskWritten

/-! ### The instructions -/

/-- Addition with carry or subtraction with borrow. -/
inductive CarryOp
  | add
  | sub
  deriving DecidableEq, Repr

namespace CarryOp

/-- The sign of the second number and of the carries. -/
def sign : CarryOp → ℤ
  | add => 1
  | sub => -1

/-- `vadc` or `vsbc`. -/
def result : CarryOp → ParamSel → Operands → UnitM Unit
  | add => vadc
  | sub => vsbc

/-- `vmadc` or `vmsbc`. -/
def carryOut : CarryOp → ParamSel → Operands → UnitM Unit
  | add => vmadc
  | sub => vmsbc

/-- The function of `result`: the sum or the difference of an element, with what is carried into it. -/
def resultFunc : CarryOp → Operands → VecIss → BitVec 64 → BitVec 64 → ℕ → BitVec 64
  | add => vAdc
  | sub => vSbc

/-- `has_overflown` in `carryOut`. -/
def overflown : CarryOp → SignedEew → BitVec 64 → BitVec 64 → BitVec 64 → Bool
  | add => madcOverflown
  | sub => msbcOverflown

end CarryOp

/-- The members that `vadc` and `vsbc` set. -/
def resultMembers (param : ParamSel) : Members := { elemSel := .xxxsss, paramSel := param }

/-- The members that `vmadc` and `vmsbc` set. -/
def maskMembers (param : ParamSel) : Members :=
  { elemSel := .xxxsss, paramSel := param, requireVdNotV0 := false, vdIsMask := true }

/-- The carry into an element: its bit of the mask register, unless the form has no mask. -/
def carryIn (o : Operands) (v : VecState) (i : ℕ) : ℕ := if o.vm then 0 else (maskBit v 0 i).toNat

theorem carryIn_le (o : Operands) (v : VecState) (i : ℕ) : carryIn o v i ≤ 1 := by
  unfold carryIn
  split_ifs
  · exact Nat.zero_le 1
  · exact Bool.toNat_le _

section Instructions

variable {op : CarryOp} {param : ParamSel} {o : Operands} {s s' : VecIss} {n : Width} {i : ℕ}

/-- The widths are those of the elements. -/
theorem getSignedEew_maskMembers (param : ParamSel) (hsew : s.vec.getIntVSew = n.bits) :
    getSignedEew (maskMembers param) s.vec = ⟨n.bits, true, n.bits, true, n.bits, true⟩ := by
  simp [getSignedEew, maskMembers, ElemSel.xxxsss, hsew]

theorem getSignedEew_resultMembers (param : ParamSel) (hsew : s.vec.getIntVSew = n.bits) :
    getSignedEew (resultMembers param) s.vec = ⟨n.bits, true, n.bits, true, n.bits, true⟩ := by
  simp [getSignedEew, resultMembers, ElemSel.xxxsss, hsew]

/-- The carry out of an element. -/
def maskOut (op : CarryOp) (param : ParamSel) (o : Operands) (s : VecIss) (i : ℕ) : Bool :=
  op.overflown (getSignedEew (maskMembers param) s.vec) (source2 (maskMembers param) o s i)
    (getOperands (maskMembers param) o s i).1 (vCarry o s.vec i)

/-- One iteration of the loop that writes the carries. -/
theorem MaskWritten.run'_vStep (h : MaskWritten o (maskOut op param o s) s i s')
    (hacc : Accepted (maskMembers param) o s) (hsew : s.vec.getIntVSew = n.bits) (hi : i < s.vec.vl) :
    (vStep o true (fun i _ => vCarryOut op.overflown o (maskMembers param) i) i ()).run' s' =
      (.ok (), { s' with
        vec := s'.vec.writeSewSingleOperand 64 o.rd.val (i / 64)
          (setSingleBitUnmasked (s'.vec.getSewSingleOperand 64 o.rd.val (i / 64))
            (bit (maskOut op param o s i)) (i % 64)) }) := by
  have hck := checks_of_applyChecks hacc.checks
  have he := getSignedEew_maskMembers param hsew
  have hvl := vl_le hacc.vlInRange
  have hops : getOperands (maskMembers param) o s' i = getOperands (maskMembers param) o s i := by
    apply getOperands_congr h.regs (h.getSignedEew_eq _)
    · have hover := hck.vs2
      rw [he] at hover ⊢
      exact h.source hacc.vlInRange hi hover
    · intro hvv
      have hover := hck.vs1 hvv
      rw [he] at hover ⊢
      exact h.source hacc.vlInRange hi hover
  unfold vStep vCarryOut
  simp only [UnitM.run'_bind, UnitM.run'_get, Bool.not_true, Bool.false_and, Bool.false_eq_true,
    if_false, UnitM.run'_modify]
  rw [hops, h.vCarry_eq (by omega), h.getSignedEew_eq]
  rfl

/-- The carries that `vmadc` or `vmsbc` writes. -/
theorem run'_carryOut (op : CarryOp) (hacc : Accepted (maskMembers param) o s) (hsew : s.vec.getIntVSew = n.bits) :
    ∃ s', (op.carryOut param o).run' s = (.ok (), s') ∧
      ∀ i < s.vec.vl, maskBit s'.vec o.rd.val i = maskOut op param o s i := by
  obtain ⟨a, s', hrun, hw⟩ := run'_vElements o true
    (fun i _ => vCarryOut op.overflown o (maskMembers param) i)
    (fun i _ s' => MaskWritten o (maskOut op param o s) s i s')
    (fun i hi _ s' hw => ⟨(), _, hw.run'_vStep hacc hsew hi, hw.step⟩) s.vec.vl (a := ())
    (MaskWritten.zero 3) (Nat.zero_add _)
  refine ⟨{ s' with vec := { s'.vec with vstart := 0 } }, ?_, fun i hi => hw.maskBit_of_lt hi⟩
  have hinstr := run'_vInstr true hacc
    (fun i _ => vCarryOut op.overflown o (maskMembers param) i) ()
  rw [hrun] at hinstr
  cases op <;> exact hinstr

/-- The carry into an element is not overwritten. -/
theorem Agree.vCarry_eq {bytes : ℕ} (h : Agree o.rd.val bytes s s')
    (hv0 : o.vm = false → 0 < o.rd.val) (hi : i < 512) : vCarry o s'.vec i = vCarry o s.vec i := by
  unfold vCarry
  cases hvm : o.vm with
  | true => rw [if_pos rfl, if_pos rfl]
  | false => rw [h.mask (hv0 hvm) hi]

/-- The results that `vadc` or `vsbc` writes. -/
theorem run'_result (op : CarryOp) (hacc : Accepted (resultMembers param) o s) (hsew : s.vec.getIntVSew = n.bits) :
    ∃ s', (op.result param o).run' s = (.ok (), s') ∧
      ∀ i < s.vec.vl, s'.vec.getSewSingleOperand n.bits o.rd.val i =
        n.truncate (op.resultFunc o s (source2 (resultMembers param) o s i)
          (getOperands (resultMembers param) o s i).1 i) := by
  have hck := checks_of_applyChecks hacc.checks
  have hvl := vl_le hacc.vlInRange
  have hop1 : (getSignedEew (resultMembers param) s.vec).op1Eew = n.bits := by
    rw [getSignedEew_resultMembers param hsew]
  have hvd : (resultMembers param).elemSel.getLsbD 5 = false := by
    simp [resultMembers, ElemSel.xxxsss]
  have hspec : LoopSpec n o true
      (vBody (resultMembers param) o fun s op2 op1 i => some (op.resultFunc o s op2 op1 i, false))
      (fun i => some (op.resultFunc o s (source2 (resultMembers param) o s i)
        (getOperands (resultMembers param) o s i).1 i, false)) s s.vec.vl := by
    intro i hi s' h
    have hcarry := h.vCarry_eq (hck.vdNotV0 rfl) (i := i) (by omega)
    rw [h.run'_vStep true _ hacc hi hsew hvd hop1 rfl rfl rfl (Or.inr (le_refl _))]
    · rfl
    · intro op2 op1
      cases op with
      | add =>
        show some (op2 + op1 + vCarry o s'.vec i, false) = some (op2 + op1 + vCarry o s.vec i, false)
        rw [hcarry]
      | sub =>
        show some (op2 - op1 - vCarry o s'.vec i, false) = some (op2 - op1 - vCarry o s.vec i, false)
        rw [hcarry]
  obtain ⟨s', hrun, hw⟩ := run'_vInstr_elements hacc hspec
  refine ⟨{ s' with vec := { s'.vec with vstart := 0 } }, ?_, fun i hi => hw.elems i hi⟩
  cases op <;> exact hrun

/-- **One element.**  The result and the carry out of it together are exact, also where they are computed
from operands that differ above the width of an element. -/
theorem carry_exact (op : CarryOp) (n : Width) (e : SignedEew) (hvd : e.vdEew = n.bits)
    (hop2 : e.op2Eew = n.bits) (hop1 : e.op1Eew = n.bits) (op2 : BitVec 64) {op1 op1' carry : BitVec 64}
    (hmod : op1'.toNat % 2 ^ n.bits = op1.toNat % 2 ^ n.bits)
    (hcarry : carry.toNat = (vCarry o s.vec i).toNat) :
    ((op2.toNat % 2 ^ n.bits : ℕ) : ℤ) +
        op.sign * ((op1.toNat % 2 ^ n.bits : ℕ) + (vCarry o s.vec i).toNat) =
      (n.truncate (op.resultFunc o s op2 op1 i)).toNat +
        op.sign * (2 ^ n.bits * (op.overflown e op2 op1' carry).toNat) := by
  have hle : carry.toNat ≤ 1 := by
    rw [hcarry, toNat_vCarry]
    exact carryIn_le o s.vec i
  have hlt2 := Nat.mod_lt op2.toNat (Nat.two_pow_pos n.bits)
  have hlt1 := Nat.mod_lt op1.toNat (Nat.two_pow_pos n.bits)
  rw [toNat_truncate]
  cases op with
  | add =>
    have hiff := madcOverflown_iff op2 op1' hvd hop2 hop1 hle
    show _ + 1 * _ = (((op2 + op1 + vCarry o s.vec i).toNat % 2 ^ n.bits : ℕ) : ℤ) +
      1 * (2 ^ n.bits * (madcOverflown e op2 op1' carry).toNat)
    rw [BitVec.toNat_add, BitVec.toNat_add]
    cases hover : madcOverflown e op2 op1' carry <;> rw [hover, hmod] at hiff <;>
      simp only [Bool.toNat_true, Bool.toNat_false, Bool.false_eq_true, false_iff, true_iff,
        not_le] at hiff ⊢ <;>
      cases n <;> simp only [Width.bits, Width.bytes] at * <;> omega
  | sub =>
    have hiff := msbcOverflown_iff op2 op1' hvd hop2 hop1 hle
    show _ + -1 * _ = (((op2 - op1 - vCarry o s.vec i).toNat % 2 ^ n.bits : ℕ) : ℤ) +
      -1 * (2 ^ n.bits * (msbcOverflown e op2 op1' carry).toNat)
    rw [BitVec.toNat_sub, BitVec.toNat_sub]
    have h2 := op2.isLt
    have h1 := op1.isLt
    cases hover : msbcOverflown e op2 op1' carry <;> rw [hover, hmod] at hiff <;>
      simp only [Bool.toNat_true, Bool.toNat_false, Bool.false_eq_true, false_iff, true_iff,
        not_lt] at hiff ⊢ <;>
      cases n <;> simp only [Width.bits, Width.bytes] at * <;> omega

end Instructions

/-! ### Chains -/

/-- One limb of two vectors of numbers: the instruction that gives the result and the one that gives the
carries, each with the state it is executed in. -/
structure Limb where
  param : ParamSel
  resultOperands : Operands
  resultState : VecIss
  carryOperands : Operands
  carryState : VecIss

namespace Limb

variable (l : Limb) (op : CarryOp)

/-- The limb of the first number in element `i`. -/
def op2 (i : ℕ) : ℕ := (source2 (resultMembers l.param) l.resultOperands l.resultState i).toNat

/-- The limb of the second number in element `i`: an element, or the low bits of the scalar or of the
immediate. -/
def op1 (i : ℕ) : ℕ :=
  (source1 (resultMembers l.param) l.resultOperands l.resultState i).toNat %
    2 ^ l.resultState.vec.getIntVSew

/-- The carry into element `i`. -/
def carry (i : ℕ) : ℕ := carryIn l.resultOperands l.resultState.vec i

/-- Element `i` of the result. -/
def result (i : ℕ) : ℕ :=
  (((op.result l.param l.resultOperands).run' l.resultState).2.vec.getSewSingleOperand
    l.resultState.vec.getIntVSew l.resultOperands.rd.val i).toNat

/-- The carry out of element `i`. -/
def carryOut (i : ℕ) : ℕ :=
  (maskBit ((op.carryOut l.param l.carryOperands).run' l.carryState).2.vec l.carryOperands.rd.val
    i).toNat

/-- Both instructions pass their checks, for elements of `sew` bits and the vector length `vl`, and both
find the same operands and carries. -/
structure Executable (sew vl : ℕ) : Prop where
  resultAccepted : Accepted (resultMembers l.param) l.resultOperands l.resultState
  carryAccepted : Accepted (maskMembers l.param) l.carryOperands l.carryState
  resultSew : l.resultState.vec.getIntVSew = sew
  carrySew : l.carryState.vec.getIntVSew = sew
  resultVl : l.resultState.vec.vl = vl
  carryVl : l.carryState.vec.vl = vl
  op2_eq : ∀ i < vl, source2 (maskMembers l.param) l.carryOperands l.carryState i
    = source2 (resultMembers l.param) l.resultOperands l.resultState i
  op1_eq : ∀ i < vl, source1 (maskMembers l.param) l.carryOperands l.carryState i
    = source1 (resultMembers l.param) l.resultOperands l.resultState i
  carry_eq : ∀ i < vl, carryIn l.carryOperands l.carryState.vec i
    = carryIn l.resultOperands l.resultState.vec i

/-- What the instructions of one limb compute, element by element. -/
structure Exact (sew vl : ℕ) : Prop where
  resultOk : ((op.result l.param l.resultOperands).run' l.resultState).1 = .ok ()
  carryOk : ((op.carryOut l.param l.carryOperands).run' l.carryState).1 = .ok ()
  exact : ∀ i < vl, (l.op2 i : ℤ) + op.sign * (l.op1 i + l.carry i) =
    l.result op i + op.sign * (2 ^ sew * l.carryOut op i)
  lt : ∀ i < vl, l.result op i < 2 ^ sew

variable {l} {sew vl : ℕ}

theorem Executable.exact (h : l.Executable sew vl) : l.Exact op sew vl := by
  obtain ⟨n, hsew⟩ := h.resultAccepted.exists_sew (by simp [resultMembers, ElemSel.xxxsss])
  obtain rfl : n.bits = sew := hsew.symm.trans h.resultSew
  obtain ⟨s, hrun, hres⟩ := run'_result op h.resultAccepted hsew
  obtain ⟨t, hrunc, hout⟩ := run'_carryOut op h.carryAccepted h.carrySew
  have he := getSignedEew_resultMembers l.param h.resultSew
  have hec := getSignedEew_maskMembers l.param h.carrySew
  refine ⟨by rw [hrun], by rw [hrunc], fun i hi => ?_, fun i hi => ?_⟩
  · have hlt : l.op2 i < 2 ^ n.bits := by
      unfold op2 source2
      rw [he]
      exact toNat_getSewSingleOperand_lt _ _ _ _
    have hmod := toNat_getOperands_fst_mod (o := l.resultOperands) (i := i)
      (by rw [he] : (getSignedEew (resultMembers l.param) l.resultState.vec).op1Eew = n.bits)
    have hmodc := toNat_getOperands_fst_mod (o := l.carryOperands) (i := i)
      (by rw [hec] : (getSignedEew (maskMembers l.param) l.carryState.vec).op1Eew = n.bits)
    rw [h.op1_eq i hi] at hmodc
    have hcarry : (vCarry l.carryOperands l.carryState.vec i).toNat
        = (vCarry l.resultOperands l.resultState.vec i).toNat := by
      rw [toNat_vCarry, toNat_vCarry]
      exact h.carry_eq i hi
    have hexact := carry_exact op n (getSignedEew (maskMembers l.param) l.carryState.vec)
      (by rw [hec]) (by rw [hec]) (by rw [hec])
      (source2 (resultMembers l.param) l.resultOperands l.resultState i) (hmodc.trans hmod.symm) hcarry
    rw [result, carryOut, hrun, hrunc, hsew]
    dsimp only
    rw [hres i (h.resultVl ▸ hi), hout i (h.carryVl ▸ hi), maskOut, h.op2_eq i hi, ← hexact]
    rw [hmod, toNat_vCarry]
    show _ = ((l.op2 i % 2 ^ n.bits : ℕ) : ℤ) + _
    rw [Nat.mod_eq_of_lt hlt, op1, carry, hsew]
    rfl
  · rw [result, hrun, hsew]
    exact toNat_getSewSingleOperand_lt _ _ _ _

/-- Both instructions are executed in the same state, with the same operands but for the destination. -/
theorem executable_of_same {param : ParamSel} {o o' : Operands} {s : VecIss}
    (hresult : Accepted (resultMembers param) o s) (hcarry : Accepted (maskMembers param) o' s)
    (hrs1 : o'.rs1 = o.rs1) (hrs2 : o'.rs2 = o.rs2) (hvm : o'.vm = o.vm) :
    Executable ⟨param, o, s, o', s⟩ s.vec.getIntVSew s.vec.vl where
  resultAccepted := hresult
  carryAccepted := hcarry
  resultSew := rfl
  carrySew := rfl
  resultVl := rfl
  carryVl := rfl
  op2_eq i _ := by
    show source2 (maskMembers param) o' s i = source2 (resultMembers param) o s i
    unfold source2
    rw [hrs2]
    rfl
  op1_eq i _ := by
    show source1 (maskMembers param) o' s i = source1 (resultMembers param) o s i
    unfold source1
    rw [hrs1]
    rfl
  carry_eq i _ := by
    show carryIn o' s.vec i = carryIn o s.vec i
    unfold carryIn
    rw [hvm]

end Limb

/-- **Multi-word arithmetic.**  In a chain of limbs, where the carries out of each limb are the carries
into the next, every element is exact; so in each element the results are the sum or the difference of
the two numbers modulo `2 ^ (sew * limbs)`, and what is carried out of the last limb is the rest. -/
theorem carryChain (op : CarryOp) {sew vl m : ℕ} (limb : ℕ → Limb)
    (hexec : ∀ k ≤ m, (limb k).Executable sew vl)
    (hchain : ∀ k < m, ∀ i < vl, (limb (k + 1)).carry i = (limb k).carryOut op i) :
    (∀ k ≤ m, (limb k).Exact op sew vl) ∧
      ∀ i < vl,
        Limbs.value (2 ^ sew) (m + 1) (fun k => (limb k).op2 i) +
            op.sign * (Limbs.value (2 ^ sew) (m + 1) (fun k => (limb k).op1 i) + (limb 0).carry i) =
          Limbs.value (2 ^ sew) (m + 1) (fun k => (limb k).result op i) +
            op.sign * ((2 ^ sew) ^ (m + 1) * (limb m).carryOut op i) ∧
        0 ≤ Limbs.value (2 ^ sew) (m + 1) (fun k => (limb k).result op i) ∧
        Limbs.value (2 ^ sew) (m + 1) (fun k => (limb k).result op i) < (2 ^ sew) ^ (m + 1) := by
  have hexact (k : ℕ) (hk : k ≤ m) : (limb k).Exact op sew vl := (hexec k hk).exact op
  refine ⟨hexact, fun i hi => ⟨?_, ?_⟩⟩
  · -- the carry into limb `k`, and for `k = m + 1` the carry out of the last limb
    let c : ℕ → ℤ := fun k => if k ≤ m then ((limb k).carry i : ℤ) else ((limb m).carryOut op i : ℤ)
    have hstep : ∀ k < m + 1, ((limb k).op2 i : ℤ) + op.sign * ((limb k).op1 i + c k) =
        (limb k).result op i + op.sign * (2 ^ sew * c (k + 1)) := by
      intro k hk
      have hle : k ≤ m := by omega
      have hin : c k = ((limb k).carry i : ℤ) := if_pos hle
      have hout : c (k + 1) = ((limb k).carryOut op i : ℤ) := by
        rcases Nat.lt_or_eq_of_le hle with hlt | rfl
        · rw [← hchain k hlt i hi]
          exact if_pos hlt
        · exact if_neg (by omega)
      rw [hin, hout]
      exact (hexact k hle).exact i hi
    have hvalue := Limbs.value_carry hstep
    have hfirst : c 0 = ((limb 0).carry i : ℤ) := if_pos (Nat.zero_le m)
    have hlast : c (m + 1) = ((limb m).carryOut op i : ℤ) := if_neg (by omega)
    rw [hfirst, hlast] at hvalue
    exact hvalue
  · exact Limbs.value_lt fun k hk =>
      ⟨Int.natCast_nonneg _, by exact_mod_cast (hexact k (by omega)).lt i hi⟩

/-! ### Two limbs of a byte -/

/-- A byte each in `v16` and `v24`, and the first bits of `v0`. -/
def bytes (a b carry : BitVec 64) : VecIss where
  regs _ := 0
  vs := 1
  vec := (((⟨fun _ => 0, 1, 0, false, 0, 0⟩ : VecState).writeSewSingleOperand 8 16 0 a)
    |>.writeSewSingleOperand 8 24 0 b).writeSewSingleOperand 8 0 0 carry
  vxrm := 0
  vxsat := false

/-- `vadc.vvm v8, v16, v24, v0` and `vmadc.vvm v4, v16, v24, v0`, for the bytes `0xFF` and `0x01` and
then, with the carry, for `0x01` and `0x00`. -/
def byteLimb (k : ℕ) : Limb :=
  let s := if k = 0 then bytes 0xFF 0x01 0 else bytes 0x01 0x00 1
  ⟨.vv, ⟨0x410C0457, 8, 24, 16, 0, 0, false⟩, s, ⟨0x450C0257, 4, 24, 16, 0, 0, false⟩, s⟩

unseal Rat.mul Rat.inv Rat.add Rat.sub

theorem executable_byteLimb (k : ℕ) : (byteLimb k).Executable 8 1 := by
  have hresult : Accepted (resultMembers .vv) ⟨0x410C0457, 8, 24, 16, 0, 0, false⟩
      ⟨fun _ => 0, 1, ⟨fun _ => 0, 1, 0, false, 0, 0⟩, 0, false⟩ := by
    refine ⟨by decide, rfl, by decide, ?_⟩
    unfold VecState.VlInRange
    decide
  have hcarry : Accepted (maskMembers .vv) ⟨0x450C0257, 4, 24, 16, 0, 0, false⟩
      ⟨fun _ => 0, 1, ⟨fun _ => 0, 1, 0, false, 0, 0⟩, 0, false⟩ := by
    refine ⟨by decide, rfl, by decide, ?_⟩
    unfold VecState.VlInRange
    decide
  unfold byteLimb
  split_ifs
  · exact Limb.executable_of_same (hresult.of_vRegs rfl ⟨_, rfl⟩) (hcarry.of_vRegs rfl ⟨_, rfl⟩) rfl rfl
      rfl
  · exact Limb.executable_of_same (hresult.of_vRegs rfl ⟨_, rfl⟩) (hcarry.of_vRegs rfl ⟨_, rfl⟩) rfl rfl
      rfl

/-- `0x01FF + 0x0001 = 0x0200`, without a carry. -/
theorem carryChain_byteLimb :
    Limbs.value (2 ^ 8) 2 (fun k => (byteLimb k).op2 0) = 0x01FF ∧
      Limbs.value (2 ^ 8) 2 (fun k => (byteLimb k).op1 0) = 0x0001 ∧
      Limbs.value (2 ^ 8) 2 (fun k => (byteLimb k).result .add 0) = 0x0200 ∧
      (byteLimb 1).carryOut .add 0 = 0 := by
  have hchain : ∀ k < 1, ∀ i < 1, (byteLimb (k + 1)).carry i = (byteLimb k).carryOut .add i := by
    intro k hk i hi
    obtain rfl : k = 0 := by omega
    obtain rfl : i = 0 := by omega
    decide
  obtain ⟨-, hsum⟩ := carryChain .add byteLimb (fun k _ => executable_byteLimb k) hchain
  have hvalue := (hsum 0 one_pos).1
  have h2 : Limbs.value (2 ^ 8) 2 (fun k => (byteLimb k).op2 0) = 0x01FF := by decide
  have h1 : Limbs.value (2 ^ 8) 2 (fun k => (byteLimb k).op1 0) = 0x0001 := by decide
  have hin : (byteLimb 0).carry 0 = 0 := by decide
  have hout : (byteLimb 1).carryOut .add 0 = 0 := by decide
  rw [h2, h1, hin, hout] at hvalue
  refine ⟨h2, h1, ?_, hout⟩
  simpa [CarryOp.sign] using hvalue.symm

end RiscvVp.Vec
