import RiscvVp.Vec.Arith
import RiscvVp.Vec.Equiv.Loop

/-!
# Operands as numbers

What the vector unit computes with bit masks, shifts and sign extension, said of the numbers that the
operands stand for: an operand of `w` bits is a residue modulo `2 ^ w`, read as a number from `0` on or
as a number around `0`.
-/

namespace RiscvVp.Vec

open Cheri (VecState Operands ofBytes)

/-! ### Widths -/

theorem bits_pos (n : Width) : 0 < n.bits := by
  cases n <;> decide

theorem bits_le (n : Width) : n.bits ≤ 64 := by
  cases n <;> decide

/-! ### Bit operations -/

/-- `signExtend` extends the sign of the low bits. -/
theorem signExtend_eq {w : ℕ} (x : BitVec 64) (hw : 0 < w) (hw' : w ≤ 64) :
    signExtend x w = (x.setWidth w).signExtend 64 := by
  apply BitVec.eq_of_getLsbD_eq
  intro i hi
  rw [signExtend, BitVec.getLsbD_sshiftRight, BitVec.getLsbD_signExtend, BitVec.msb_eq_getLsbD_last,
    BitVec.msb_eq_getLsbD_last]
  have hi' : ¬64 ≤ i := by omega
  have h1 : ¬64 - 1 < 64 - w := by omega
  have h2 : 64 - 1 - (64 - w) = w - 1 := by omega
  by_cases hlt : i < w
  · have h3 : 64 - w + i < 64 := by omega
    have h4 : 64 - w + i - (64 - w) = i := by omega
    have h5 : ¬64 - w + i < 64 - w := by omega
    simp [hi', hlt, h3, h4, h5, hi]
  · have h3 : ¬64 - w + i < 64 := by omega
    simp [hi', hlt, h3, hi, h1, h2, hw, BitVec.getLsbD_eq_getElem (show w - 1 < 64 by omega)]

/-- The number that a sign extension stands for. -/
theorem toInt_signExtend {w : ℕ} (x : BitVec 64) (hw : 0 < w) (hw' : w ≤ 64) :
    (signExtend x w).toInt = Int.bmod x.toNat (2 ^ w) := by
  rw [signExtend_eq x hw hw', BitVec.toInt_signExtend_of_le hw', BitVec.toInt_setWidth]

theorem getMask_toNat {w : ℕ} (hw : w ≤ 64) : (getMask w).toNat = 2 ^ w - 1 := by
  unfold getMask
  split_ifs with h
  · have hlt : 2 ^ w < 2 ^ 64 := Nat.pow_lt_pow_right (by decide) h
    have hpos : 0 < 2 ^ w := Nat.two_pow_pos w
    have hshift : (1#64 <<< w).toNat = 2 ^ w := by
      rw [BitVec.toNat_shiftLeft, Nat.shiftLeft_eq, BitVec.toNat_one (by decide), Nat.one_mul,
        Nat.mod_eq_of_lt hlt]
    rw [BitVec.toNat_sub, hshift]
    have hone : (1 : BitVec 64).toNat = 1 := by decide
    omega
  · rw [BitVec.toNat_allOnes, show w = 64 by omega]

/-- Masking keeps the remainder by the power of two that the width stands for. -/
theorem toNat_and_getMask {w : ℕ} (x : BitVec 64) (hw : w ≤ 64) :
    (x &&& getMask w).toNat = x.toNat % 2 ^ w := by
  rw [BitVec.toNat_and, getMask_toNat hw, Nat.and_two_pow_sub_one_eq_mod]

theorem msb_toNat {w : ℕ} (hw : 0 < w) (hw' : w ≤ 64) : (msb w).toNat = 2 ^ (w - 1) := by
  have hlt : 2 ^ (w - 1) < 2 ^ 64 := Nat.pow_lt_pow_right (by decide) (by omega)
  rw [msb, BitVec.toNat_shiftLeft, Nat.shiftLeft_eq, BitVec.toNat_one (by decide), Nat.one_mul,
    Nat.mod_eq_of_lt hlt]

/-- The test of the sign bit, within the width of an element. -/
theorem msbSet_iff {w : ℕ} (x : BitVec 64) (hw : 0 < w) (hw' : w ≤ 64) :
    msbSet w x = true ↔ 2 ^ (w - 1) ≤ x.toNat % 2 ^ w := by
  have hbit : msbSet w x = x.toNat.testBit (w - 1) := by
    have hand : (x &&& msb w).toNat = 2 ^ (w - 1) * (x.toNat.testBit (w - 1)).toNat := by
      rw [BitVec.toNat_and, msb_toNat hw hw', Nat.and_two_pow]
      ring
    unfold msbSet
    cases hb : x.toNat.testBit (w - 1) with
    | true =>
      rw [bne_iff_ne]
      intro h
      rw [h, hb] at hand
      have hpos := Nat.two_pow_pos (w - 1)
      simp at hand
      omega
    | false =>
      rw [hb] at hand
      rw [bne_eq_false_iff_eq]
      apply BitVec.eq_of_toNat_eq
      simpa using hand
  rw [hbit, Nat.testBit_eq_decide_div_mod_eq, decide_eq_true_eq]
  obtain ⟨k, rfl⟩ : ∃ k, w = k + 1 := ⟨w - 1, by omega⟩
  rw [Nat.add_sub_cancel, Nat.pow_succ, Nat.mod_mul]
  have hpos := Nat.two_pow_pos k
  have hmod := Nat.mod_lt x.toNat hpos
  have hdiv := Nat.mod_lt (x.toNat / 2 ^ k) (show 0 < 2 by decide)
  constructor
  · intro h
    rw [h]
    omega
  · intro h
    by_contra hne
    have hzero : x.toNat / 2 ^ k % 2 = 0 := by omega
    rw [hzero] at h
    omega

/-- What is stored of a value is its remainder. -/
theorem toNat_truncate (n : Width) (x : BitVec 64) : (n.truncate x).toNat = x.toNat % 2 ^ n.bits := by
  have hle : 2 ^ n.bits ≤ 2 ^ 64 := Nat.pow_le_pow_right (by decide) (bits_le n)
  have hlt := Nat.mod_lt x.toNat (Nat.two_pow_pos n.bits)
  rw [Width.truncate, BitVec.toNat_setWidth, BitVec.toNat_setWidth, Nat.mod_eq_of_lt (b := 2 ^ 64)
    (by omega)]

/-- The same for a value that is read as a signed number. -/
theorem toNat_truncate_toInt (n : Width) (x : BitVec 64) :
    ((n.truncate x).toNat : ℤ) = x.toInt % 2 ^ n.bits := by
  have hdvd : ((2 ^ n.bits : ℕ) : ℤ) ∣ ((2 ^ 64 : ℕ) : ℤ) := by
    rw [Int.natCast_dvd_natCast]
    exact Nat.pow_dvd_pow 2 (bits_le n)
  rw [toNat_truncate, BitVec.toInt_eq_toNat_bmod]
  push_cast
  have h1 : Int.bmod x.toNat (2 ^ 64) % ((2 ^ n.bits : ℕ) : ℤ) = (x.toNat : ℤ) % ((2 ^ n.bits : ℕ) : ℤ) := by
    rw [← Int.emod_emod_of_dvd _ hdvd, Int.bmod_emod, Int.emod_emod_of_dvd _ hdvd]
  exact_mod_cast h1.symm

/-- The number that the low `w` bits of an operand stand for. -/
def value (signed : Bool) (w : ℕ) (x : BitVec 64) : ℤ :=
  if signed then Int.bmod x.toNat (2 ^ w) else ((x.toNat % 2 ^ w : ℕ) : ℤ)

/-- Operands with the same low bits stand for the same number. -/
theorem value_congr {signed : Bool} {w : ℕ} {x y : BitVec 64}
    (h : x.toNat % 2 ^ w = y.toNat % 2 ^ w) : value signed w x = value signed w y := by
  unfold value
  split_ifs
  · have h' : (x.toNat : ℤ) % ((2 ^ w : ℕ) : ℤ) = (y.toNat : ℤ) % ((2 ^ w : ℕ) : ℤ) := by
      exact_mod_cast congrArg (Nat.cast (R := ℤ)) h
    rw [← Int.emod_bmod, h', Int.emod_bmod]
  · rw [h]

theorem value_true {n : Width} (x : BitVec 64) :
    value true n.bits x = (signExtend x n.bits).toInt := by
  rw [toInt_signExtend x (bits_pos n) (bits_le n)]
  rfl

theorem value_false_of_lt {w : ℕ} {x : BitVec 64} (h : x.toNat < 2 ^ w) :
    value false w x = x.toNat := by
  unfold value
  rw [if_neg (by decide), Nat.mod_eq_of_lt h]

/-- The range of the signed numbers of a width. -/
theorem value_true_range (n : Width) (x : BitVec 64) :
    -2 ^ (n.bits - 1) ≤ value true n.bits x ∧ value true n.bits x < 2 ^ (n.bits - 1) := by
  have hle := Int.le_bmod (x := x.toNat) (m := 2 ^ n.bits) (Nat.two_pow_pos _)
  have hlt := Int.bmod_lt (x := x.toNat) (m := 2 ^ n.bits) (Nat.two_pow_pos _)
  unfold value
  rw [if_pos rfl]
  cases n <;> simp only [Width.bits, Width.bytes] at hle hlt ⊢ <;> norm_num at hle hlt ⊢ <;> omega

/-! ### Operands -/

section Operands

variable (c : Members) (o : Operands) (s : VecIss) (i : ℕ)

/-- Where the first operand comes from: an element of `vs1`, the scalar register, or the immediate,
whose sign is extended for instructions with signed immediates. -/
def source1 : BitVec 64 :=
  match c.paramSel with
  | .vv => s.vec.getSewSingleOperand (getSignedEew c s.vec).op1Eew o.rs1.val i
  | .vi =>
    if (getSignedEew c s.vec).op1Signed then signExtend (BitVec.ofNat 64 o.rs1.val) 5
    else BitVec.ofNat 64 o.rs1.val
  | .vx => s.regs o.rs1

/-- The second operand: an element of `vs2`. -/
def source2 : BitVec 64 :=
  s.vec.getSewSingleOperand (getSignedEew c s.vec).op2Eew o.rs2.val i

@[simp] theorem getOperands_snd : (getOperands c o s i).2 = source2 c o s i := rfl

/-- An element is less than `2 ^ sew`. -/
theorem toNat_getSewSingleOperand_lt (v : VecState) (n : Width) (addr index : ℕ) :
    (v.getSewSingleOperand n.bits addr index).toNat < 2 ^ n.bits := by
  have hpow : 2 ^ (8 * (n.bits / 8)) = 2 ^ n.bits := by cases n <;> rfl
  have hlt := (ofBytes (fun a => v.vRegs (addr * 64 + index * (n.bits / 8) + a)) (n.bits / 8)).isLt
  rw [VecState.getSewSingleOperand, BitVec.toNat_setWidth]
  exact lt_of_le_of_lt (Nat.mod_le _ _) (lt_of_lt_of_eq hlt hpow)

variable {c o s i}

/-- The first operand is the residue of what it comes from. -/
theorem toNat_getOperands_fst_mod {m : Width} (hm : (getSignedEew c s.vec).op1Eew = m.bits) :
    (getOperands c o s i).1.toNat % 2 ^ m.bits = (source1 c o s i).toNat % 2 ^ m.bits := by
  have hpos := bits_pos m
  have hle := bits_le m
  have hext (x : BitVec 64) : (signExtend x m.bits).toNat % 2 ^ m.bits = x.toNat % 2 ^ m.bits := by
    have h1 := toNat_truncate_toInt m (signExtend x m.bits)
    rw [toNat_truncate, toInt_signExtend _ hpos hle] at h1
    have h2 : Int.bmod x.toNat (2 ^ m.bits) % ((2 ^ m.bits : ℕ) : ℤ)
        = (x.toNat : ℤ) % ((2 ^ m.bits : ℕ) : ℤ) := Int.bmod_emod
    push_cast at h2
    rw [h2] at h1
    exact_mod_cast h1
  simp only [getOperands, getOperandsRed, source1, hm]
  rcases c.paramSel with _ | _ | _
  · rfl
  · rfl
  · dsimp only
    split_ifs
    · rw [hext, toNat_and_getMask _ hle, Nat.mod_mod]
    · rw [toNat_and_getMask _ hle, Nat.mod_mod]

/-- An unsigned first operand has no bits beyond its width. -/
theorem toNat_getOperands_fst_lt {m : Width} (hm : (getSignedEew c s.vec).op1Eew = m.bits)
    (hs : (getSignedEew c s.vec).op1Signed = false) :
    (getOperands c o s i).1.toNat < 2 ^ m.bits := by
  have hle := bits_le m
  simp only [getOperands, getOperandsRed, hm, hs]
  rcases c.paramSel with _ | _ | _
  · exact toNat_getSewSingleOperand_lt _ _ _ _
  · have himm := o.rs1.isLt
    have h32 : 2 ^ 8 ≤ 2 ^ m.bits := Nat.pow_le_pow_right (by decide) (by cases m <;> decide)
    simp only [Bool.false_eq_true, if_false, BitVec.toNat_ofNat]
    omega
  · simp only [Bool.false_eq_true, if_false]
    rw [toNat_and_getMask _ hle]
    exact Nat.mod_lt _ (Nat.two_pow_pos _)

end Operands

/-! ### Instructions built on `vLoop` -/

/-- An active element is below the vector length. -/
theorem lt_vl_of_active {v : VecState} {o : Operands} {i : ℕ} (h : v.vInactive o v.vl i = false) :
    i < v.vl := by
  simp only [VecState.vInactive, Bool.or_eq_false_iff, decide_eq_false_iff_not, not_le] at h
  exact h.1.2

section VLoop

variable {func : SignedEew → VecIss → BitVec 64 → BitVec 64 → Elem} {elem : ElemSel}
  {param : ParamSel} {o : Operands} {s : VecIss} {n : Width}

/-- What becomes of an element in `vLoop`. -/
def loopEff (func : SignedEew → VecIss → BitVec 64 → BitVec 64 → Elem) (elem : ElemSel)
    (param : ParamSel) (o : Operands) (s : VecIss) : ℕ → Elem :=
  bodyEff { elemSel := elem, paramSel := param } o false
    (fun s op2 op1 _ => func (getSignedEew { elemSel := elem, paramSel := param } s.vec) s op2 op1) s

/-- What a function that only reads `vxrm` and `vsew` gives for an element. -/
def loopResult (func : SignedEew → VecIss → BitVec 64 → BitVec 64 → Elem) (elem : ElemSel)
    (param : ParamSel) (o : Operands) (s : VecIss) (i : ℕ) : Elem :=
  let c : Members := { elemSel := elem, paramSel := param }
  func (getSignedEew c s.vec) s (source2 c o s i) (getOperands c o s i).1

theorem loopEff_of_active {i : ℕ} (h : s.vec.vInactive o s.vec.vl i = false) :
    loopEff func elem param o s i = loopResult func elem param o s i := by
  unfold loopEff bodyEff
  rw [if_neg (by simp [h])]
  rfl

theorem loopEff_of_inactive {i : ℕ} (h : s.vec.vInactive o s.vec.vl i = true) :
    loopEff func elem param o s i = none := by
  unfold loopEff bodyEff
  rw [if_pos (by simp [h])]

/-- One iteration of `vLoop`: the operands are those of the start, since no element before this one
overwrote them. -/
theorem run'_vStep_vLoop (hacc : Accepted { elemSel := elem, paramSel := param } o s)
    (hsew : s.vec.getIntVSew = n.bits) (hvd : elem.getLsbD 5 = false) (hop1 : elem.getLsbD 3 = false)
    (hfunc : ∀ s', s'.vxrm = s.vxrm → s'.vec.vsew = s.vec.vsew → ∀ e, func e s' = func e s) {i : ℕ}
    (hi : i < s.vec.vl) {s' : VecIss} (h : Agree o.rd.val (i * n.bytes) s s') :
    (vStep o false (vBody { elemSel := elem, paramSel := param } o fun s op2 op1 _ =>
        func (getSignedEew { elemSel := elem, paramSel := param } s.vec) s op2 op1) i ()).run' s' =
      if s.vec.vInactive o s.vec.vl i = true then (.ok (), s')
      else match loopResult func elem param o s i with
        | none => (.error .host, s')
        | some r => (.ok (), writeElem n o i s' (some r)) := by
  have hop1Eew : (getSignedEew { elemSel := elem, paramSel := param } s.vec).op1Eew = n.bits := by
    simp only [getSignedEew, hop1, hsew, ne_eq, not_true_eq_false, Bool.false_eq_true, if_false]
  rw [h.run'_vStep false _ hacc hi hsew hvd hop1Eew rfl rfl rfl (Or.inr (le_refl _))
    fun op2 op1 => by rw [h.getSignedEew_eq, hfunc s' h.vxrm h.vsew]]
  simp only [Bool.not_false, Bool.true_and]
  rfl

/-- The iterations of `vLoop` up to an element, where its function is defined. -/
theorem loopSpec_vLoop (hacc : Accepted { elemSel := elem, paramSel := param } o s)
    (hsew : s.vec.getIntVSew = n.bits) (hvd : elem.getLsbD 5 = false) (hop1 : elem.getLsbD 3 = false)
    (hfunc : ∀ s', s'.vxrm = s.vxrm → s'.vec.vsew = s.vec.vsew → ∀ e, func e s' = func e s) {m : ℕ}
    (hm : m ≤ s.vec.vl)
    (hdef : ∀ i < m, s.vec.vInactive o s.vec.vl i = false → loopResult func elem param o s i ≠ none) :
    LoopSpec n o false (vBody { elemSel := elem, paramSel := param } o fun s op2 op1 _ =>
      func (getSignedEew { elemSel := elem, paramSel := param } s.vec) s op2 op1)
      (loopEff func elem param o s) s m := by
  intro i hi s' h
  rw [run'_vStep_vLoop hacc hsew hvd hop1 hfunc (by omega) h]
  cases hact : s.vec.vInactive o s.vec.vl i with
  | true =>
    rw [if_pos rfl, loopEff_of_inactive hact]
    rfl
  | false =>
    rw [if_neg (by decide), loopEff_of_active hact]
    rcases hr : loopResult func elem param o s i with _ | r
    · exact absurd hr (hdef i hi hact)
    · rfl

variable (func elem param)

/-- **`vLoop` where its function is defined**: it returns, and every active element holds what the function
gives for the operands of the start. -/
theorem run'_vLoop (hacc : Accepted { elemSel := elem, paramSel := param } o s)
    (hsew : s.vec.getIntVSew = n.bits) (hvd : elem.getLsbD 5 = false) (hop1 : elem.getLsbD 3 = false)
    (hfunc : ∀ s', s'.vxrm = s.vxrm → s'.vec.vsew = s.vec.vsew → ∀ e, func e s' = func e s)
    (hdef : ∀ i, s.vec.vInactive o s.vec.vl i = false → loopResult func elem param o s i ≠ none) :
    ∃ s', (vInstr o (vLoop func elem param o)).run' s =
        (.ok (), { s' with vec := { s'.vec with vstart := 0 } }) ∧
      Written n o (loopEff func elem param o s) s s.vec.vl s' :=
  run'_vInstr_elements hacc
    (loopSpec_vLoop hacc hsew hvd hop1 hfunc (le_refl _) fun i _ hact => hdef i hact)

/-- The elements that `vLoop` leaves, as numbers. -/
theorem run'_vLoop_elems (hacc : Accepted { elemSel := elem, paramSel := param } o s)
    (hsew : s.vec.getIntVSew = n.bits) (hvd : elem.getLsbD 5 = false) (hop1 : elem.getLsbD 3 = false)
    (hfunc : ∀ s', s'.vxrm = s.vxrm → s'.vec.vsew = s.vec.vsew → ∀ e, func e s' = func e s) {f : ℕ → ℤ}
    (helem : ∀ i, s.vec.vInactive o s.vec.vl i = false →
      ∃ r, loopResult func elem param o s i = some r ∧ ((n.truncate r.1).toNat : ℤ) = f i) :
    ∃ s', (vInstr o (vLoop func elem param o)).run' s = (.ok (), s') ∧
      ∀ i, s.vec.vInactive o s.vec.vl i = false →
        ((s'.vec.getSewSingleOperand n.bits o.rd.val i).toNat : ℤ) = f i := by
  obtain ⟨s', hrun, hw⟩ := run'_vLoop func elem param hacc hsew hvd hop1 hfunc fun i hact hnone => by
    obtain ⟨r, hr, -⟩ := helem i hact
    rw [hr] at hnone
    cases hnone
  refine ⟨_, hrun, fun i hact => ?_⟩
  obtain ⟨r, hr, hspec⟩ := helem i hact
  have hvalue := hw.elems i (lt_vl_of_active hact)
  rw [loopEff_of_active hact, hr] at hvalue
  rw [← hspec]
  exact congrArg (fun x : BitVec 64 => (x.toNat : ℤ)) hvalue

/-- **`vLoop` where its function is undefined** for an active element. -/
theorem run'_vLoop_host (hacc : Accepted { elemSel := elem, paramSel := param } o s)
    (hsew : s.vec.getIntVSew = n.bits) (hvd : elem.getLsbD 5 = false) (hop1 : elem.getLsbD 3 = false)
    (hfunc : ∀ s', s'.vxrm = s.vxrm → s'.vec.vsew = s.vec.vsew → ∀ e, func e s' = func e s)
    (hundef : ∃ i, s.vec.vInactive o s.vec.vl i = false ∧ loopResult func elem param o s i = none) :
    ((vInstr o (vLoop func elem param o)).run' s).1 = .error .host := by
  classical
  -- the first such element
  obtain ⟨hact, hnone⟩ := Nat.find_spec hundef
  have hmin := fun i => Nat.find_min (m := i) hundef
  generalize Nat.find hundef = j at hact hnone hmin
  have hj := lt_vl_of_active hact
  have hspec := loopSpec_vLoop hacc hsew hvd hop1 hfunc hj.le
    fun i hi hact' hr => hmin i hi ⟨hact', hr⟩
  refine run'_vInstr_stop hacc hj hspec fun s' h => ?_
  rw [run'_vStep_vLoop hacc hsew hvd hop1 hfunc hj h, if_neg (by simp [hact]), hnone]

end VLoop

end RiscvVp.Vec
