import RiscvVp.Vec.Equiv.Operands
import RiscvVp.Vec.Permute

/-!
# Permutations

A permutation instruction names for every element of the destination an element of `vs2`, by an offset or an
index that may be any number: from `VLMAX` on the result is zero.  The simulator computes with 64-bit words,
which a slide never lets wrap.  `vrgather.vx` compares the whole scalar with `VLMAX` but then takes only its
low `SEW` bits for the index.  With 8-bit elements and groups of eight registers `VLMAX` is 512, so a scalar
from 256 on names one element and fetches another (`permuteRight_iff`).

For `vcompress` the elements before `vstart` are not selected.  The specification wants a trap where `vstart`
is not zero; the simulator has no such check for any instruction.
-/

namespace RiscvVp.Vec

open Cheri (VecState Operands)

/-! ### The greatest vector length -/

theorem le_of_lt_vlmax {v : VecState} {j : ℕ} (hj : j < vlmax v) :
    ((j + 1 : ℕ) : ℚ) ≤ v.getVlmul * 512 / v.getIntVSew := by
  have h : ((j + 1 : ℕ) : ℤ) ≤ ⌊v.getVlmul * 512 / v.getIntVSew⌋ := by
    unfold vlmax at hj
    omega
  exact_mod_cast Int.le_floor.1 h

theorem lt_vlmax_of_lt_vl {v : VecState} (hvl : v.VlInRange) {i : ℕ} (hi : i < v.vl) : i < vlmax v := by
  have h : ((i + 1 : ℕ) : ℤ) ≤ ⌊v.getVlmul * 512 / v.getIntVSew⌋ := by
    apply Int.le_floor.2
    exact_mod_cast le_of_lt_vl hvl hi
  unfold vlmax
  omega

theorem vlmax_le (v : VecState) : vlmax v ≤ 512 := by
  have h : ⌊v.getVlmul * 512 / v.getIntVSew⌋ ≤ 512 := by
    have hle := (Int.floor_le _).trans (maxLength_le v)
    exact_mod_cast hle
  unfold vlmax
  omega

/-! ### Elements of the sources -/

section Sources

variable {c : Members} {o : Operands} {s s' : VecIss} {n : Width} {i j : ℕ}

/-- Element `j` of `vs2`, in the width that is set. -/
def sourceElem (o : Operands) (s : VecIss) (j : ℕ) : BitVec 64 :=
  s.vec.getSewSingleOperand s.vec.getIntVSew o.rs2.val j

/-- Element `j` of `vs2`, or zero where there is none. -/
def sourceOrZero (o : Operands) (s : VecIss) (j : ℕ) : BitVec 64 :=
  if j < vlmax s.vec then sourceElem o s j else 0

theorem Agree.vlmax_eq {rd bytes : ℕ} (h : Agree rd bytes s s') : vlmax s'.vec = vlmax s.vec := by
  unfold vlmax
  rw [h.getVlmul_eq, h.getIntVSew_eq]

/-- An element of `vs2` is the same before element `i` is written, if it may not overlap or is not before
`i`. -/
theorem Agree.sourceElem_eq (h : Agree o.rd.val (i * n.bytes) s s') (hacc : Accepted c o s)
    (hsew : s.vec.getIntVSew = n.bits) (hwide : c.elemSel.getLsbD 5 = false ∧ c.elemSel.getLsbD 4 = false)
    (hmask : c.vdIsMask = false) (hi : i < s.vec.vl) (hj : j < vlmax s.vec)
    (hle : c.requireNoOverlap = true ∨ i ≤ j) : sourceElem o s' j = sourceElem o s j := by
  have hck := checks_of_applyChecks hacc.checks
  have hover := hck.vs2
  have hvd := hck.vdAligned hmask
  have hvs := hck.vs2Aligned
  simp only [getSignedEew, hwide.1, hwide.2, hmask, Bool.false_eq_true, if_false, hsew] at hover hvd hvs
  unfold sourceElem
  rw [h.getIntVSew_eq, hsew]
  exact h.source_at hacc.vlInRange hi (le_of_lt_vlmax hj) hsew hover hvd hvs
    (hle.imp_right fun h => ⟨h, le_refl _⟩)

/-- Writing an element keeps the agreement with the start outside the bytes of the destination. -/
theorem Agree.run'_writeGeneric {rd bytes : ℕ} (h : Agree rd bytes s s')
    (hsew : s.vec.getIntVSew = n.bits) {sel : ElemSel} (hvd : sel.getLsbD 5 = false) (r : BitVec 64)
    (i : ℕ) :
    (writeGeneric { c with elemSel := sel } o r i).run' s' =
      (.ok (), writeElem n o i s' (some (r, false))) := by
  have hvdEew : (getSignedEew { c with elemSel := sel } s'.vec).vdEew = n.bits := by
    rw [h.getSignedEew_eq]
    simp only [getSignedEew, hvd, hsew, Bool.false_eq_true, if_false]
  simp only [writeGeneric, UnitM.run'_modify, writeElem, hvdEew, Bool.or_false]

/-- An active element is not before `vstart`. -/
theorem vstart_le_of_active {v : VecState} (h : v.vInactive o v.vl i = false) : v.vstart ≤ i := by
  simp only [VecState.vInactive, Bool.or_eq_false_iff, decide_eq_false_iff_not, not_lt] at h
  exact h.1.1

/-- Values that fit are stored as they are. -/
theorem truncate_of_lt {x : BitVec 64} (hx : x.toNat < 2 ^ n.bits) : n.truncate x = x := by
  apply BitVec.eq_of_toNat_eq
  rw [toNat_truncate, Nat.mod_eq_of_lt hx]

theorem truncate_eq_and (x : BitVec 64) : n.truncate x = x &&& getMask n.bits := by
  apply BitVec.eq_of_toNat_eq
  rw [toNat_truncate, toNat_and_getMask _ (bits_le n)]

theorem truncate_sourceElem (hsew : s.vec.getIntVSew = n.bits) (j : ℕ) :
    n.truncate (sourceElem o s j) = sourceElem o s j := by
  apply truncate_of_lt
  unfold sourceElem
  rw [hsew]
  exact toNat_getSewSingleOperand_lt _ _ _ _

theorem truncate_sourceOrZero (hsew : s.vec.getIntVSew = n.bits) (j : ℕ) :
    n.truncate (sourceOrZero o s j) = sourceOrZero o s j := by
  unfold sourceOrZero
  split_ifs
  · exact truncate_sourceElem hsew j
  · exact truncate_of_lt (Nat.two_pow_pos _)

end Sources

/-! ### Loops over active elements -/

section Loops

variable {c : Members} {o : Operands} {s : VecIss} {n : Width} {f : ℕ → Unit → UnitM Unit}

/-- A loop whose body is known for the active elements. -/
theorem run'_active (hacc : Accepted c o s) (hv0 : c.requireVdNotV0 = true) (val : ℕ → Elem)
    (hbody : ∀ i, s.vec.vInactive o s.vec.vl i = false → ∀ s', Agree o.rd.val (i * n.bytes) s s' →
      (f i ()).run' s' = (.ok (), writeElem n o i s' (val i))) :
    ∃ s', (vInstr o (genericVLoop c o false f ())).run' s = (.ok (), s') ∧
      ∀ i, s.vec.vInactive o s.vec.vl i = false →
        s'.vec.getSewSingleOperand n.bits o.rd.val i =
          match val i with
          | none => s.vec.getSewSingleOperand n.bits o.rd.val i
          | some r => n.truncate r.1 := by
  have hvl := vl_le hacc.vlInRange
  have hck := checks_of_applyChecks hacc.checks
  have hspec : LoopSpec n o false f
      (fun i => if s.vec.vInactive o s.vec.vl i = true then none else val i) s s.vec.vl := by
    intro i hi s' h
    unfold vStep
    rw [UnitM.run'_bind]
    simp only [UnitM.run'_get, Bool.not_false, Bool.true_and]
    rw [h.vInactive_eq (hck.vdNotV0 hv0) (by omega)]
    cases hact : s.vec.vInactive o s.vec.vl i with
    | true =>
      rw [if_pos rfl, if_pos rfl]
      rfl
    | false =>
      rw [if_neg (by decide), if_neg (by decide)]
      exact hbody i hact s' h
  obtain ⟨s', hrun, hw⟩ := run'_vInstr_elements hacc hspec
  refine ⟨_, hrun, fun i hact => ?_⟩
  have h := hw.elems i (lt_vl_of_active hact)
  rw [if_neg (by rw [hact]; decide)] at h
  exact h

end Loops

/-! ### Slides -/

section Slides

variable {o : Operands} {s : VecIss} {n : Width} {param : ParamSel}

/-- The members that a slide sets. -/
def slideMembers (noOverlap : Bool) (param : ParamSel) : Members :=
  { elemSel := .xxxsss, paramSel := param, requireNoOverlap := noOverlap }

theorem slideMembers_wide (noOverlap : Bool) (param : ParamSel) :
    (slideMembers noOverlap param).elemSel.getLsbD 5 = false ∧
      (slideMembers noOverlap param).elemSel.getLsbD 4 = false := by
  constructor <;> simp [slideMembers, ElemSel.xxxsss]

theorem xxxsss_vd : ElemSel.xxxsss.getLsbD 5 = false := by
  decide

theorem xxxuuu_vd : ElemSel.xxxuuu.getLsbD 5 = false := by
  decide

/-- `vslideup`: elements before the offset keep their values. -/
theorem run'_vSlideUp (hacc : Accepted (slideMembers true param) o s) (hsew : s.vec.getIntVSew = n.bits)
    (offset : BitVec 64) :
    ∃ s', (vInstr o (vLoopVoid true (vSlideUp offset) param o)).run' s = (.ok (), s') ∧
      ∀ i, s.vec.vInactive o s.vec.vl i = false →
        s'.vec.getSewSingleOperand n.bits o.rd.val i =
          if i < offset.toNat then s.vec.getSewSingleOperand n.bits o.rd.val i
          else sourceElem o s (i - offset.toNat) := by
  have hvl := vl_le hacc.vlInRange
  obtain ⟨s', hrun, helems⟩ := run'_active (f := fun i _ => vSlideUp offset (slideMembers true param) o i)
    (n := n) hacc rfl
    (fun i => if i < offset.toNat then none else some (sourceElem o s (i - offset.toNat), false))
    fun i hact s' h => by
      have hi := lt_vl_of_active hact
      have hstart := vstart_le_of_active hact
      unfold vSlideUp
      rw [UnitM.run'_bind]
      simp only [UnitM.run'_get, h.vstart]
      by_cases hlt : i < offset.toNat
      · rw [if_pos ⟨by omega, hlt⟩, if_pos hlt]
        rfl
      · have hindex : (BitVec.ofNat 64 i - offset).toNat = i - offset.toNat := by
          rw [BitVec.toNat_sub, BitVec.toNat_ofNat]
          omega
        have hsource := h.sourceElem_eq hacc hsew (slideMembers_wide _ _) rfl hi
          (lt_vlmax_of_lt_vl hacc.vlInRange (show i - offset.toNat < s.vec.vl by omega)) (Or.inl rfl)
        rw [if_neg (by omega), if_neg hlt, hindex, ← hsource]
        exact h.run'_writeGeneric hsew xxxsss_vd _ _
  refine ⟨s', hrun, fun i hact => ?_⟩
  rw [helems i hact]
  split_ifs
  · rfl
  · exact truncate_sourceElem hsew _

/-- `vslidedown`: the sum of index and offset does not wrap. -/
theorem run'_vSlideDown (hacc : Accepted (slideMembers false param) o s)
    (hsew : s.vec.getIntVSew = n.bits) (offset : BitVec 64) :
    ∃ s', (vInstr o (vLoopVoid false (vSlideDown offset) param o)).run' s = (.ok (), s') ∧
      ∀ i, s.vec.vInactive o s.vec.vl i = false →
        s'.vec.getSewSingleOperand n.bits o.rd.val i = sourceOrZero o s (i + offset.toNat) := by
  have hvl := vl_le hacc.vlInRange
  have hmax := vlmax_le s.vec
  obtain ⟨s', hrun, helems⟩ := run'_active (f := fun i _ => vSlideDown offset (slideMembers false param) o i)
    (n := n) hacc rfl (fun i => some (sourceOrZero o s (i + offset.toNat), false))
    fun i hact s' h => by
      have hi := lt_vl_of_active hact
      -- the code guards against the wrap of the sum with the top bit of the offset
      have hsum : (decide (vlmax s.vec ≤ (BitVec.ofNat 64 i + offset).toNat) ||
          offset &&& (1#64 <<< 63) != 0) = decide (vlmax s.vec ≤ i + offset.toNat) := by
        have hmsb : (offset &&& (1#64 <<< 63) != 0) = true ↔ 2 ^ 63 ≤ offset.toNat % 2 ^ 64 :=
          msbSet_iff offset (w := 64) (by decide) (le_refl _)
        rw [Bool.eq_iff_iff, Bool.or_eq_true, hmsb, decide_eq_true_eq, decide_eq_true_eq, BitVec.toNat_add,
          BitVec.toNat_ofNat]
        omega
      unfold vSlideDown
      rw [UnitM.run'_bind]
      simp only [UnitM.run'_get, h.vlmax_eq, hsum, decide_eq_true_eq]
      unfold sourceOrZero
      split_ifs with hmax' hlt hlt
      · omega
      · exact h.run'_writeGeneric hsew xxxsss_vd _ _
      · have hindex : (BitVec.ofNat 64 i + offset).toNat = i + offset.toNat := by
          rw [BitVec.toNat_add, BitVec.toNat_ofNat]
          omega
        rw [hindex, ← h.sourceElem_eq hacc hsew (slideMembers_wide _ _) rfl hi hlt (Or.inr (Nat.le_add_right _ _))]
        exact h.run'_writeGeneric hsew xxxsss_vd _ _
      · omega
  refine ⟨s', hrun, fun i hact => ?_⟩
  rw [helems i hact]
  exact truncate_sourceOrZero hsew _

/-- `vslide1up`: the scalar comes first, and every other element is the one before it. -/
theorem run'_vSlide1Up (hacc : Accepted (slideMembers true param) o s) (hsew : s.vec.getIntVSew = n.bits) :
    ∃ s', (vInstr o (vLoopVoid true vSlide1Up param o)).run' s = (.ok (), s') ∧
      ∀ i, s.vec.vInactive o s.vec.vl i = false →
        s'.vec.getSewSingleOperand n.bits o.rd.val i =
          if i = 0 then s.regs o.rs1 &&& getMask n.bits else sourceElem o s (i - 1) := by
  obtain ⟨s', hrun, helems⟩ := run'_active (f := fun i _ => vSlide1Up (slideMembers true param) o i)
    (n := n) hacc rfl (fun i => some (if i = 0 then s.regs o.rs1 else sourceElem o s (i - 1), false))
    fun i hact s' h => by
      have hi := lt_vl_of_active hact
      unfold vSlide1Up
      rw [UnitM.run'_bind]
      simp only [UnitM.run'_get, ne_eq, ite_not]
      split_ifs with hzero
      · rw [h.regs]
        exact h.run'_writeGeneric hsew xxxuuu_vd _ _
      · rw [← h.sourceElem_eq hacc hsew (slideMembers_wide _ _) rfl hi
          (lt_vlmax_of_lt_vl hacc.vlInRange (show i - 1 < s.vec.vl by omega)) (Or.inl rfl)]
        exact h.run'_writeGeneric hsew xxxsss_vd _ _
  refine ⟨s', hrun, fun i hact => ?_⟩
  rw [helems i hact]
  dsimp only
  split_ifs
  · exact truncate_eq_and _
  · exact truncate_sourceElem hsew _

/-- `vslide1down`: the scalar comes last, and every other element is the one behind it. -/
theorem run'_vSlide1Down (hacc : Accepted (slideMembers false param) o s)
    (hsew : s.vec.getIntVSew = n.bits) :
    ∃ s', (vInstr o (vLoopVoid false vSlide1Down param o)).run' s = (.ok (), s') ∧
      ∀ i, s.vec.vInactive o s.vec.vl i = false →
        s'.vec.getSewSingleOperand n.bits o.rd.val i =
          if i = s.vec.vl - 1 then s.regs o.rs1 &&& getMask n.bits else sourceElem o s (i + 1) := by
  obtain ⟨s', hrun, helems⟩ := run'_active (f := fun i _ => vSlide1Down (slideMembers false param) o i)
    (n := n) hacc rfl
    (fun i => some (if i = s.vec.vl - 1 then s.regs o.rs1 else sourceElem o s (i + 1), false))
    fun i hact s' h => by
      have hi := lt_vl_of_active hact
      unfold vSlide1Down
      rw [UnitM.run'_bind]
      simp only [UnitM.run'_get, ne_eq, ite_not, h.vl]
      split_ifs with hlast
      · rw [h.regs]
        exact h.run'_writeGeneric hsew xxxuuu_vd _ _
      · rw [← h.sourceElem_eq hacc hsew (slideMembers_wide _ _) rfl hi
          (lt_vlmax_of_lt_vl hacc.vlInRange (show i + 1 < s.vec.vl by omega))
          (Or.inr (Nat.le_succ i))]
        exact h.run'_writeGeneric hsew xxxsss_vd _ _
  refine ⟨s', hrun, fun i hact => ?_⟩
  rw [helems i hact]
  dsimp only
  split_ifs
  · exact truncate_eq_and _
  · exact truncate_sourceElem hsew _

end Slides

/-! ### Gather -/

section Gather

variable {o : Operands} {s : VecIss} {n m : Width} {ew : ℕ} {param : ParamSel}

/-- The members that `vrgather` sets. -/
def gatherMembers (ew : ℕ) (param : ParamSel) : Members :=
  { elemSel := .xxxuuu, paramSel := param, o1EewOverwrite := ew, requireNoOverlap := true }

theorem gatherMembers_wide (ew : ℕ) (param : ParamSel) :
    (gatherMembers ew param).elemSel.getLsbD 5 = false ∧
      (gatherMembers ew param).elemSel.getLsbD 4 = false := by
  constructor <;> simp [gatherMembers, ElemSel.xxxuuu]

/-- Groups that do not overlap begin with different registers. -/
theorem ne_of_noOverlap {v : VecState} {vd vs vdEew vsEew : ℕ} (hvd : 0 < vdEew) (hvs : 0 < vsEew)
    (h : VecState.vregOverlapValid vd (emul v vdEew) vdEew vs (emul v vsEew) vsEew true = true) :
    vd ≠ vs := by
  have hpos {k : ℕ} (hk : 0 < k) : 0 < emul v k := by
    have hk' : (0 : ℚ) < k := by exact_mod_cast hk
    unfold emul VecState.getVlmul VecState.getIntVSew
    positivity
  have hone := Int.ceil_pos.2 (hpos hvd)
  have hone' := Int.ceil_pos.2 (hpos hvs)
  obtain h | h | ⟨h, -⟩ := overlap_cases (hpos hvd).le (hpos hvs).le h
  · omega
  · omega
  · cases h

/-- The assertion of `vGather` follows from the checks before the loop. -/
theorem gather_assert (hacc : Accepted (gatherMembers ew param) o s)
    (hop1 : (getSignedEew (gatherMembers ew param) s.vec).op1Eew = m.bits) :
    ((gatherMembers ew param).paramSel != .vv || (o.rd != o.rs1 && o.rd != o.rs2)) = true := by
  have hck := checks_of_applyChecks hacc.checks
  rw [Bool.or_eq_true, bne_iff_ne]
  by_cases hvv : (gatherMembers ew param).paramSel = .vv
  · right
    obtain ⟨m₂, hop2⟩ := hacc.exists_op2Eew
    have h2 := hck.vs2
    have h1 := hck.vs1 hvv
    have hvd := hck.vdEew.1
    rw [hop2] at h2
    have hmask : (gatherMembers ew param).vs1IsMask = false := rfl
    have hmask' : (gatherMembers ew param).vdIsMask = false := rfl
    simp only [hmask, hmask', Bool.false_eq_true, if_false, hop1] at h1 h2
    have hne1 := ne_of_noOverlap (by omega) (bits_pos m) h1
    have hne2 := ne_of_noOverlap (by omega) (bits_pos m₂) h2
    rw [Bool.and_eq_true, bne_iff_ne, bne_iff_ne]
    exact ⟨fun h => hne1 (congrArg Fin.val h), fun h => hne2 (congrArg Fin.val h)⟩
  · exact Or.inl hvv

/-- The index is never greater than the number that is compared with `VLMAX`. -/
theorem toNat_getOperands_fst_le (hop1 : (getSignedEew (gatherMembers ew param) s.vec).op1Eew = m.bits)
    (i : ℕ) :
    (getOperands (gatherMembers ew param) o s i).1.toNat ≤
      (if param = .vx then s.regs o.rs1 else (getOperands (gatherMembers ew param) o s i).1).toNat := by
  split_ifs with hvx
  · have hmod := toNat_getOperands_fst_mod (o := o) (i := i) hop1
    have hlt := toNat_getOperands_fst_lt (o := o) (i := i) hop1 (by
      simp [getSignedEew, gatherMembers, ElemSel.xxxuuu])
    rw [Nat.mod_eq_of_lt hlt] at hmod
    rw [hmod]
    subst hvx
    exact Nat.mod_le _ _
  · exact le_refl _

/-- `vrgather` and `vrgatherei16`: the whole index is compared with `VLMAX`, and the element is read by its
low bits. -/
theorem run'_vGather (hacc : Accepted (gatherMembers ew param) o s) (hsew : s.vec.getIntVSew = n.bits)
    (hop1 : (getSignedEew (gatherMembers ew param) s.vec).op1Eew = m.bits) :
    ∃ s', (vInstr o (vLoopExt vGather ew .xxxuuu param o)).run' s = (.ok (), s') ∧
      ∀ i, s.vec.vInactive o s.vec.vl i = false →
        s'.vec.getSewSingleOperand n.bits o.rd.val i =
          let op1 := (getOperands (gatherMembers ew param) o s i).1
          if vlmax s.vec ≤ (if param = .vx then s.regs o.rs1 else op1).toNat then 0
          else sourceElem o s op1.toNat := by
  have hassert := gather_assert hacc hop1
  obtain ⟨s', hrun, helems⟩ := run'_active
    (f := vExtBody vGather (gatherMembers ew param) o) (n := n) hacc rfl
    (fun i =>
      let op1 := (getOperands (gatherMembers ew param) o s i).1
      some (if vlmax s.vec ≤ (if param = .vx then s.regs o.rs1 else op1).toNat then 0
        else sourceElem o s op1.toNat, false))
    fun i hact s' h => by
      have hi := lt_vl_of_active hact
      have hops := h.getOperands_eq hacc hi hsew (gatherMembers_wide _ _).1 hop1 rfl rfl (Or.inl rfl)
      have hparam : (gatherMembers ew param).paramSel = param := rfl
      have hle := toNat_getOperands_fst_le (o := o) hop1 i
      unfold vExtBody vGather
      rw [hassert]
      simp only [UnitM.run'_bind, UnitM.run'_get, UnitM.run'_vAssert_true, hops, h.vlmax_eq, h.regs, hparam]
      generalize (getOperands (gatherMembers ew param) o s i).1 = op1 at *
      generalize (if param = .vx then s.regs o.rs1 else op1) = rs1Value at *
      have hwrite (r : BitVec 64) := h.run'_writeGeneric (c := gatherMembers ew param) (o := o) hsew
        xxxuuu_vd r i
      split_ifs with hmax
      · exact hwrite _
      · rw [← h.sourceElem_eq hacc hsew (gatherMembers_wide _ _) rfl hi (by omega) (Or.inl rfl)]
        exact hwrite _
  refine ⟨s', hrun, fun i hact => ?_⟩
  rw [helems i hact]
  dsimp only
  generalize (if param = .vx then s.regs o.rs1 else _) = rs1Value
  split_ifs
  · exact truncate_of_lt (Nat.two_pow_pos _)
  · exact truncate_sourceElem hsew _

end Gather

/-! ### Compress -/

section Compress

variable {o : Operands} {s s' : VecIss} {n : Width} {i k pos : ℕ}

/-- The members that `vcompress` sets. -/
def compressMembers : Members :=
  { elemSel := .xxxuuu, paramSel := .vv, requireNoOverlap := true, vs1IsMask := true }

theorem compressMembers_wide :
    compressMembers.elemSel.getLsbD 5 = false ∧ compressMembers.elemSel.getLsbD 4 = false := by
  constructor <;> simp [compressMembers, ElemSel.xxxuuu]

/-- Whether an active element is selected by the mask in `vs1`. -/
def selects (o : Operands) (s : VecIss) (i : ℕ) : Bool :=
  !s.vec.vInactive o s.vec.vl i && (s.vec.getSewSingleOperand 64 o.rs1.val (i / 64)).getLsbD (i % 64)

/-- The selected elements before element `k`, in their order. -/
def selected (o : Operands) (s : VecIss) (k : ℕ) : List ℕ := (List.range k).filter (selects o s)

theorem selected_succ (o : Operands) (s : VecIss) (k : ℕ) :
    selected o s (k + 1) = selected o s k ++ if selects o s k then [k] else [] := by
  rw [selected, List.range_succ, List.filter_append, List.filter_singleton, Bool.cond_eq_ite]
  rfl

theorem length_selected_le (o : Operands) (s : VecIss) (k : ℕ) : (selected o s k).length ≤ k := by
  have h := List.length_filter_le (selects o s) (List.range k)
  rwa [List.length_range] at h

/-- The state before element `k`: the elements selected so far have been packed. -/
structure Packed (n : Width) (o : Operands) (s : VecIss) (k pos : ℕ) (s' : VecIss) : Prop where
  count : pos = (selected o s k).length
  agree : Agree o.rd.val (pos * n.bytes) s s'
  elems : ∀ p < pos, s'.vec.getSewSingleOperand n.bits o.rd.val p
    = sourceElem o s ((selected o s k).getD p 0)

/-- The mask is not overwritten, since the destination must not overlap it. -/
theorem Packed.mask (h : Packed n o s i pos s') (hacc : Accepted compressMembers o s)
    (hsew : s.vec.getIntVSew = n.bits) (hi : i < s.vec.vl) :
    s'.vec.getSewSingleOperand 64 o.rs1.val (i / 64)
      = s.vec.getSewSingleOperand 64 o.rs1.val (i / 64) := by
  have hover := (checks_of_applyChecks hacc.checks).vs1 rfl
  have hvl := vl_le hacc.vlInRange
  have hgroup := elem_le_of_le s.vec n (le_of_lt_vl hacc.vlInRange hi)
  have hpos : pos * n.bytes ≤ (i + 1) * n.bytes := by
    apply Nat.mul_le_mul_right
    have := length_selected_le o s i
    have := h.count
    omega
  have hnonneg (w : ℕ) : 0 ≤ emul s.vec w := by
    unfold emul VecState.getVlmul
    positivity
  have hone : 0 < ⌈emul s.vec 1⌉ := by
    apply Int.ceil_pos.2
    unfold emul VecState.getVlmul VecState.getIntVSew
    positivity
  have hvd : (getSignedEew compressMembers s.vec).vdEew = n.bits := by
    simp only [getSignedEew, compressMembers_wide.1, hsew, Bool.false_eq_true, if_false]
  rw [hvd] at hover
  apply h.agree.elem .double
  obtain hd | hd | ⟨hd, -⟩ := overlap_cases (hnonneg _) (hnonneg _) hover
  · left
    change o.rs1.val + ⌈emul s.vec 1⌉.toNat ≤ o.rd.val at hd
    simp only [Width.bytes]
    omega
  · right
    change o.rd.val + ⌈emul s.vec n.bits⌉.toNat ≤ o.rs1.val at hd
    omega
  · cases hd

/-- An element that is not selected changes nothing. -/
theorem Packed.skip (h : Packed n o s k pos s') (hk : selects o s k = false) :
    Packed n o s (k + 1) pos s' := by
  have hsel : selected o s (k + 1) = selected o s k := by
    rw [selected_succ, hk, if_neg (by decide), List.append_nil]
  refine ⟨?_, h.agree, ?_⟩
  · rw [hsel]
    exact h.count
  · rw [hsel]
    exact h.elems

/-- A selected element is put after the others. -/
theorem Packed.write (h : Packed n o s k pos s') (hsew : s.vec.getIntVSew = n.bits)
    (hk : selects o s k = true) :
    Packed n o s (k + 1) (pos + 1) (writeElem n o pos s' (some (sourceElem o s k, false))) := by
  have hsel : selected o s (k + 1) = selected o s k ++ [k] := by
    rw [selected_succ, hk, if_pos rfl]
  refine ⟨?_, h.agree.of_writeElem _, ?_⟩
  · rw [hsel, List.length_append, h.count]
    rfl
  · intro p hp
    rw [hsel]
    rcases Nat.lt_succ_iff_lt_or_eq.1 hp with hlt | rfl
    · rw [elem_writeElem_of_lt hlt, h.elems p hlt, List.getD_append _ _ _ _ (by rw [← h.count]; exact hlt)]
    · have hlast : (selected o s k ++ [k]).getD p 0 = k := by
        rw [List.getD_append_right _ _ _ _ (by rw [← h.count]), ← h.count, Nat.sub_self]
        rfl
      rw [hlast]
      exact (VecState.getSewSingleOperand_write _ _ _ rfl).trans (truncate_sourceElem hsew k)

/-- One iteration of `vCompress`: the element is skipped, or packed behind those that were selected before. -/
theorem Packed.step (h : Packed n o s i pos s') (hacc : Accepted compressMembers o s)
    (hsew : s.vec.getIntVSew = n.bits) (hi : i < s.vec.vl) :
    ∃ pos' s'', (vStep o false (vCompressBody compressMembers o) i pos).run' s' = (.ok pos', s'') ∧
      Packed n o s (i + 1) pos' s'' := by
  have hvl := vl_le hacc.vlInRange
  have hck := checks_of_applyChecks hacc.checks
  have hpos : pos ≤ i := by
    have := length_selected_le o s i
    have := h.count
    omega
  unfold vStep
  rw [UnitM.run'_bind]
  simp only [UnitM.run'_get, Bool.not_false, Bool.true_and]
  rw [h.agree.vInactive_eq (hck.vdNotV0 rfl) (by omega)]
  cases hact : s.vec.vInactive o s.vec.vl i with
  | true =>
    rw [if_pos rfl]
    exact ⟨pos, s', rfl, h.skip (by simp [selects, hact])⟩
  | false =>
    rw [if_neg (by decide), vCompressBody, UnitM.run'_bind]
    simp only [UnitM.run'_get]
    rw [h.mask hacc hsew hi]
    -- an active element is packed if its mask bit is set
    cases hmask : (s.vec.getSewSingleOperand 64 o.rs1.val (i / 64)).getLsbD (i % 64) with
    | false =>
      rw [if_pos (by decide)]
      exact ⟨pos, s', rfl, h.skip (by simp [selects, hmask])⟩
    | true =>
      have hsource := h.agree.sourceElem_eq hacc hsew compressMembers_wide rfl (by omega)
        (lt_vlmax_of_lt_vl hacc.vlInRange hi) (Or.inl rfl)
      have hwrite := h.agree.run'_writeGeneric (c := compressMembers) (o := o) hsew xxxuuu_vd
        (sourceElem o s' i) pos
      have hsel : selects o s i = true := by
        simp only [selects, hact, hmask, Bool.not_false, Bool.and_self]
      refine ⟨pos + 1, _, ?_, h.write hsew hsel⟩
      rw [if_neg (by decide), UnitM.run'_bind, ← hsource]
      unfold sourceElem at hwrite ⊢
      rw [hwrite]
      rfl

/-- `vcompress`: the selected elements stand one after the other. -/
theorem run'_vCompress (hacc : Accepted compressMembers o s) (hsew : s.vec.getIntVSew = n.bits) :
    ∃ s', (vInstr o (vCompress o)).run' s = (.ok (), s') ∧
      ∀ p < (selected o s s.vec.vl).length, s'.vec.getSewSingleOperand n.bits o.rd.val p
        = sourceElem o s ((selected o s s.vec.vl).getD p 0) := by
  have hzero : Packed n o s 0 0 { s with vs := 3 } := by
    refine ⟨rfl, ⟨rfl, rfl, ⟨s.vec.vRegs, rfl⟩, fun _ _ => rfl⟩, ?_⟩
    intro p hp
    cases hp
  obtain ⟨pos, s', hrun, hpacked⟩ := run'_vElements o false (vCompressBody compressMembers o)
    (Packed n o s) (fun i hi pos s' h => h.step hacc hsew hi) s.vec.vl hzero (Nat.zero_add _)
  refine ⟨{ s' with vec := { s'.vec with vstart := 0 } }, ?_,
    fun p hp => hpacked.elems p (by rw [hpacked.count]; exact hp)⟩
  show (vInstr o (genericVLoop compressMembers o false (vCompressBody compressMembers o) 0)).run' s = _
  rw [run'_vInstr _ hacc, hrun]

end Compress

/-! ### The instructions -/

namespace PermuteOp

/-- The members that an instruction sets. -/
def members : PermuteOp → Members
  | slideupVx | slide1up => slideMembers true .vx
  | slideupVi => slideMembers true .vi
  | slidedownVx | slide1down => slideMembers false .vx
  | slidedownVi => slideMembers false .vi
  | gatherVv => gatherMembers 0 .vv
  | gatherei16 => gatherMembers 16 .vv
  | gatherVx => gatherMembers 0 .vx
  | gatherVi => gatherMembers 0 .vi
  | compress => compressMembers

/-- What an element of the destination should be: the element of `vs2` that the instruction names. -/
def named (op : PermuteOp) (o : Operands) (s : VecIss) (i : ℕ) : BitVec 64 :=
  let sew := s.vec.getIntVSew
  let x := s.regs o.rs1
  let slideup (offset : ℕ) :=
    if i < offset then s.vec.getSewSingleOperand sew o.rd.val i else sourceElem o s (i - offset)
  match op with
  | slideupVx => slideup x.toNat
  | slideupVi => slideup o.rs1.val
  | slidedownVx => sourceOrZero o s (i + x.toNat)
  | slidedownVi => sourceOrZero o s (i + o.rs1.val)
  | slide1up => if i = 0 then x &&& getMask sew else sourceElem o s (i - 1)
  | slide1down => if i = s.vec.vl - 1 then x &&& getMask sew else sourceElem o s (i + 1)
  | gatherVv => sourceOrZero o s (s.vec.getSewSingleOperand sew o.rs1.val i).toNat
  | gatherei16 => sourceOrZero o s (s.vec.getSewSingleOperand 16 o.rs1.val i).toNat
  | gatherVx => sourceOrZero o s x.toNat
  | gatherVi => sourceOrZero o s o.rs1.val
  | compress => sourceElem o s ((selected o s s.vec.vl).getD i 0)

/-- The elements of the destination that get a value.  For `vcompress` these are as many as are selected. -/
def Active (op : PermuteOp) (o : Operands) (s : VecIss) (i : ℕ) : Prop :=
  match op with
  | compress => i < (selected o s s.vec.vl).length
  | _ => s.vec.vInactive o s.vec.vl i = false

end PermuteOp

/-- The instruction comes to its end, and each active element is the one that it names. -/
def PermuteRight (op : PermuteOp) (o : Operands) (s : VecIss) : Prop :=
  ∃ s', (op.exec o).run' s = (.ok (), s') ∧
    ∀ i, op.Active o s i → s'.vec.getSewSingleOperand s.vec.getIntVSew o.rd.val i = op.named o s i

section Instructions

variable {op : PermuteOp} {o : Operands} {s : VecIss} {n m : Width}

theorem PermuteOp.members_vd (op : PermuteOp) : op.members.elemSel.getLsbD 5 = false := by
  cases op <;> simp [PermuteOp.members, slideMembers, gatherMembers, compressMembers, ElemSel.xxxsss,
    ElemSel.xxxuuu]

theorem toNat_imm (o : Operands) : (BitVec.ofNat 64 o.rs1.val).toNat = o.rs1.val := by
  rw [BitVec.toNat_ofNat, Nat.mod_eq_of_lt (by omega)]

/-- The first operand of `vrgather` has the width of an element. -/
theorem gather_op1Eew (param : ParamSel) (hsew : s.vec.getIntVSew = n.bits) :
    (getSignedEew (gatherMembers 0 param) s.vec).op1Eew = n.bits := by
  simp [getSignedEew, gatherMembers, ElemSel.xxxuuu, hsew]

theorem gather_vlmax (j : ℕ) :
    (if vlmax s.vec ≤ j then 0 else sourceElem o s j) = sourceOrZero o s j := by
  unfold sourceOrZero
  split_ifs <;> first | rfl | omega

/-- The index of an element of `vrgather.vv` and `vrgatherei16.vv` is an element of `vs1`. -/
theorem gather_fst_vv {ew : ℕ} (hop1 : (getSignedEew (gatherMembers ew .vv) s.vec).op1Eew = m.bits)
    (i : ℕ) :
    (getOperands (gatherMembers ew .vv) o s i).1 = s.vec.getSewSingleOperand m.bits o.rs1.val i := by
  simp only [getOperands, getOperandsRed, hop1]
  rfl

theorem gather_fst_vi (i : ℕ) :
    (getOperands (gatherMembers 0 .vi) o s i).1 = BitVec.ofNat 64 o.rs1.val := by
  have hsigned : (getSignedEew (gatherMembers 0 .vi) s.vec).op1Signed = false := by
    simp [getSignedEew, gatherMembers, ElemSel.xxxuuu]
  simp only [getOperands, getOperandsRed, hsigned]
  rfl

/-- The index of `vrgather.vx` is what fits into an element. -/
theorem gather_fst_vx (hsew : s.vec.getIntVSew = n.bits) (i : ℕ) :
    (getOperands (gatherMembers 0 .vx) o s i).1.toNat = (s.regs o.rs1).toNat % 2 ^ n.bits := by
  have hop1 := gather_op1Eew .vx hsew
  have hlt := toNat_getOperands_fst_lt (o := o) (i := i) hop1 (by
    simp [getSignedEew, gatherMembers, ElemSel.xxxuuu])
  have hmod := toNat_getOperands_fst_mod (o := o) (i := i) hop1
  rw [Nat.mod_eq_of_lt hlt] at hmod
  exact hmod

/-- All other instructions than `vrgather.vx` give every active element the value that they name. -/
theorem permuteRight_of_ne (hacc : Accepted op.members o s) (hsew : s.vec.getIntVSew = n.bits)
    (hop : op ≠ .gatherVx) : PermuteRight op o s := by
  unfold PermuteRight
  rw [hsew, PermuteOp.run'_exec]
  -- each instruction is one of the four loops, with its own offset or index
  cases op with
  | slideupVx =>
    obtain ⟨s', hrun, h⟩ := run'_vSlideUp hacc hsew (s.regs o.rs1)
    refine ⟨s', hrun, fun i hact => ?_⟩
    rw [h i hact, PermuteOp.named, hsew]
  | slideupVi =>
    obtain ⟨s', hrun, h⟩ := run'_vSlideUp hacc hsew (BitVec.ofNat 64 o.rs1.val)
    refine ⟨s', hrun, fun i hact => ?_⟩
    rw [h i hact, toNat_imm, PermuteOp.named, hsew]
  | slidedownVx => exact run'_vSlideDown hacc hsew (s.regs o.rs1)
  | slidedownVi =>
    obtain ⟨s', hrun, h⟩ := run'_vSlideDown hacc hsew (BitVec.ofNat 64 o.rs1.val)
    rw [toNat_imm] at h
    exact ⟨s', hrun, h⟩
  | slide1up =>
    obtain ⟨s', hrun, h⟩ := run'_vSlide1Up hacc hsew
    refine ⟨s', hrun, fun i hact => ?_⟩
    rw [h i hact, PermuteOp.named, hsew]
  | slide1down =>
    obtain ⟨s', hrun, h⟩ := run'_vSlide1Down hacc hsew
    refine ⟨s', hrun, fun i hact => ?_⟩
    rw [h i hact, PermuteOp.named, hsew]
  | gatherVv =>
    obtain ⟨s', hrun, h⟩ := run'_vGather hacc hsew (gather_op1Eew _ hsew)
    refine ⟨s', hrun, fun i hact => ?_⟩
    rw [h i hact, gather_fst_vv (gather_op1Eew _ hsew), PermuteOp.named, hsew]
    exact gather_vlmax _
  | gatherei16 =>
    obtain ⟨s', hrun, h⟩ := run'_vGather hacc hsew (m := .half) rfl
    refine ⟨s', hrun, fun i hact => ?_⟩
    rw [h i hact, gather_fst_vv (m := .half) rfl, PermuteOp.named]
    exact gather_vlmax _
  | gatherVx => exact absurd rfl hop
  | gatherVi =>
    obtain ⟨s', hrun, h⟩ := run'_vGather hacc hsew (gather_op1Eew _ hsew)
    refine ⟨s', hrun, fun i hact => ?_⟩
    rw [h i hact, gather_fst_vi]
    simp only [reduceCtorEq, if_false, toNat_imm]
    exact gather_vlmax _
  | compress => exact run'_vCompress hacc hsew

/-- **Permutations.**  Every active element is the one that the instruction names, unless this is
`vrgather.vx` with a scalar below `VLMAX` that does not fit into an element, and the low bits of the scalar
are the index of another value. -/
theorem permuteRight_iff (hacc : Accepted op.members o s) :
    PermuteRight op o s ↔
      ¬(op = .gatherVx ∧ 2 ^ s.vec.getIntVSew ≤ (s.regs o.rs1).toNat ∧
        (s.regs o.rs1).toNat < vlmax s.vec ∧
        sourceElem o s ((s.regs o.rs1).toNat % 2 ^ s.vec.getIntVSew)
          ≠ sourceElem o s (s.regs o.rs1).toNat ∧
        ∃ i, s.vec.vInactive o s.vec.vl i = false) := by
  obtain ⟨n, hsew⟩ := hacc.exists_sew op.members_vd
  by_cases hop : op = .gatherVx
  · subst hop
    obtain ⟨s', hrun, h⟩ := run'_vGather (show Accepted (gatherMembers 0 .vx) o s from hacc) hsew
      (gather_op1Eew _ hsew)
    simp only [if_true, gather_fst_vx hsew] at h
    unfold PermuteRight
    rw [PermuteOp.run'_exec, hsew]
    -- the code compares the whole scalar with `VLMAX` and then indexes by its low bits
    constructor
    · rintro ⟨s'', hrun', hright⟩ ⟨-, -, hmax, hne, i, hact⟩
      have heq : s'' = s' := congrArg Prod.snd (hrun'.symm.trans hrun)
      have hi := hright i hact
      rw [heq, h i hact, if_neg (by omega), PermuteOp.named, sourceOrZero, if_pos hmax] at hi
      exact hne hi
    · intro hno
      refine ⟨s', hrun, fun i hact => ?_⟩
      rw [h i hact, PermuteOp.named, ← gather_vlmax]
      split_ifs with hmax
      · rfl
      · by_contra hne
        have hlarge : 2 ^ n.bits ≤ (s.regs o.rs1).toNat := by
          by_contra hlt
          rw [Nat.mod_eq_of_lt (by omega)] at hne
          exact hne rfl
        exact hno ⟨rfl, hlarge, by omega, hne, i, hact⟩
  · simp only [hop, false_and, not_false_eq_true, iff_true]
    exact permuteRight_of_ne hacc hsew hop

end Instructions

/-! ### 512 elements of a byte -/

/-- `vrgather.vx v8, v16, t0`. -/
def v8v16t0 : Operands := ⟨0x3302C457, 8, 5, 16, 0, 0, true⟩

/-- Bytes in groups of eight registers; in `v16` only element 256 is not zero. -/
def byteGroup (x : BitVec 64) : VecIss where
  regs r := if r = 5 then x else 0
  vs := 1
  vec := (⟨fun _ => 0, 4, 0, false, 0, 3⟩ : VecState).writeSewSingleOperand 8 16 256 1
  vxrm := 0
  vxsat := false

unseal Rat.mul Rat.inv Rat.add Rat.sub

theorem accepted_byteGroup (x : BitVec 64) : Accepted PermuteOp.gatherVx.members v8v16t0 (byteGroup x) := by
  have hzero : Accepted PermuteOp.gatherVx.members v8v16t0
      ⟨fun _ => 0, 1, ⟨fun _ => 0, 4, 0, false, 0, 3⟩, 0, false⟩ := by
    refine ⟨by decide, rfl, by decide, ?_⟩
    unfold VecState.VlInRange
    decide
  exact hzero.of_vRegs rfl ⟨_, rfl⟩

/-- The index 255. -/
theorem permuteRight_iff_byteGroup : PermuteRight .gatherVx v8v16t0 (byteGroup 255) := by
  refine (permuteRight_iff (accepted_byteGroup 255)).2 ?_
  rintro ⟨-, hlarge, -⟩
  exact absurd hlarge (by decide)

/-- The index 256: element 0 is fetched. -/
theorem not_permuteRight :
    Accepted PermuteOp.gatherVx.members v8v16t0 (byteGroup 256) ∧
      PermuteOp.gatherVx.named v8v16t0 (byteGroup 256) 0 = 1 ∧
      (((PermuteOp.gatherVx.exec v8v16t0).run' (byteGroup 256)).2.vec.getSewSingleOperand 8 8 0) = 0 ∧
      ¬PermuteRight .gatherVx v8v16t0 (byteGroup 256) := by
  have hnamed : PermuteOp.gatherVx.named v8v16t0 (byteGroup 256) 0 = 1 := by decide
  have hres : ((PermuteOp.gatherVx.exec v8v16t0).run' (byteGroup 256)).2.vec.getSewSingleOperand 8 8 0 = 0 := by
    decide
  refine ⟨accepted_byteGroup 256, hnamed, hres, ?_⟩
  rintro ⟨s', hrun, h⟩
  have h0 : s'.vec.getSewSingleOperand 8 8 0 = 1 :=
    (h 0 (by unfold PermuteOp.Active; decide)).trans hnamed
  rw [hrun, h0] at hres
  exact absurd hres (by decide)

end RiscvVp.Vec
