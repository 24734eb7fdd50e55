import RiscvVp.Vec.Equiv.Operands

/-!
# Vector division

A dividend is the quotient of `vdiv` times the divisor plus the remainder of `vrem`, also for a divisor
of zero and where the quotient overflows, for which the results are fixed.  `vDiv` sets both cases apart
before it divides.  `vRem` sets apart only a divisor of zero, so with 64-bit elements the remainder of
the least number by -1 is computed by the host, for which it is undefined: the two instructions behave as
they should exactly where no active element has these operands.
-/

namespace RiscvVp.Vec

open Cheri (VecState Operands)

/-! ### Quotient and remainder -/

/-- What the quotient should be: all ones for a divisor of zero, and the dividend on overflow. -/
def quotient (signed : Bool) (w : ℕ) (a b : ℤ) : ℤ :=
  if b = 0 then -1
  else if signed = true ∧ a = -2 ^ (w - 1) ∧ b = -1 then a
  else a.tdiv b

/-- What the remainder should be: the dividend for a divisor of zero, and zero on overflow. -/
def remainder (signed : Bool) (w : ℕ) (a b : ℤ) : ℤ :=
  if b = 0 then a
  else if signed = true ∧ a = -2 ^ (w - 1) ∧ b = -1 then 0
  else a.tmod b

/-- Quotient and remainder make up the dividend, on overflow modulo `2 ^ w`. -/
theorem quotient_mul_add_remainder (signed : Bool) {w : ℕ} (hw : 0 < w) (a b : ℤ) :
    a ≡ quotient signed w a b * b + remainder signed w a b [ZMOD 2 ^ w] := by
  unfold quotient remainder
  split_ifs with hb hover
  · rw [hb, mul_zero, zero_add]
  · obtain ⟨-, ha, hb⟩ := hover
    have hpow : (2 : ℤ) ^ w = 2 * 2 ^ (w - 1) := by
      rw [← pow_succ', Nat.sub_add_cancel hw]
    rw [ha, hb, Int.modEq_iff_dvd, hpow]
    exact ⟨1, by ring⟩
  · rw [mul_comm, Int.mul_tdiv_add_tmod]

/-! ### One element -/

section Element

variable {e : SignedEew} {n : Width} {op2 op1 : BitVec 64}

/-- The least number of a width, as `vDiv` computes it. -/
theorem toInt_int64Min_sshiftRight (n : Width) :
    (int64Min.sshiftRight (64 - n.bits)).toInt = -2 ^ (n.bits - 1) := by
  cases n <;> decide

theorem value_true_eq_zero (n : Width) (x : BitVec 64) :
    (value true n.bits x = 0) = (signExtend x n.bits = 0) := by
  rw [value_true, ← BitVec.toInt_zero (w := 64), BitVec.toInt_inj]
  rfl

/-- The host can divide numbers of a width unless they are the least 64-bit number and -1. -/
theorem host_defined (h : ¬(n = .double ∧ value true n.bits op2 = -2 ^ 63 ∧ value true n.bits op1 = -1))
    (hop1 : value true n.bits op1 ≠ 0) :
    ¬(signExtend op1 n.bits = 0 ∨ signExtend op2 n.bits = int64Min ∧ signExtend op1 n.bits = -1) := by
  rintro (hzero | ⟨hmin, hneg⟩)
  · rw [value_true, hzero] at hop1
    exact hop1 rfl
  · have h2 : value true n.bits op2 = -2 ^ 63 := by
      rw [value_true, hmin]
      decide
    have h1 : value true n.bits op1 = -1 := by
      rw [value_true, hneg]
      decide
    have hrange := (value_true_range n op2).1
    rw [h2] at hrange
    refine h ⟨?_, h2, h1⟩
    -- only 64 bits hold the least 64-bit number
    cases n with
    | double => rfl
    | byte => norm_num [Width.bits, Width.bytes] at hrange
    | half => norm_num [Width.bits, Width.bytes] at hrange
    | word => norm_num [Width.bits, Width.bytes] at hrange

/-- The quotient of an element: the host always can compute it. -/
theorem vDiv_spec (hop1 : e.op1Eew = n.bits) (hop2 : e.op2Eew = n.bits)
    (hlt2 : op2.toNat < 2 ^ n.bits) (hlt1 : e.vdSigned = false → op1.toNat < 2 ^ n.bits) :
    ∃ r, vDiv e n.bits op2 op1 = some r ∧
      ((n.truncate r).toNat : ℤ) = quotient e.vdSigned n.bits (value e.vdSigned n.bits op2)
        (value e.vdSigned n.bits op1) % 2 ^ n.bits := by
  have hones : ((n.truncate (-1)).toNat : ℤ) = -1 % 2 ^ n.bits := by
    rw [toNat_truncate_toInt]
    rfl
  unfold vDiv quotient
  cases hsigned : e.vdSigned with
  | false =>
    rw [value_false_of_lt hlt2, value_false_of_lt (hlt1 hsigned)]
    have hzero : ((op1.toNat : ℤ) = 0) = (op1 = 0) := by
      rw [eq_iff_iff, Nat.cast_eq_zero]
      exact ⟨fun h => BitVec.eq_of_toNat_eq h, fun h => congrArg BitVec.toNat h⟩
    simp only [Bool.not_false, if_true, hzero, Bool.false_eq_true, false_and, if_false, udiv]
    split_ifs with h
    · exact ⟨-1, rfl, hones⟩
    · refine ⟨_, rfl, ?_⟩
      have hudiv : (op2.udiv op1).toNat = op2.toNat / op1.toNat := rfl
      rw [toNat_truncate, hudiv, ← Int.ofNat_tdiv]
      push_cast
      rfl
  | true =>
    have hzero := value_true_eq_zero n op1
    -- the one overflow: the lowest value of the width over -1
    have hover : (value true n.bits op2 = -2 ^ (n.bits - 1) ∧ value true n.bits op1 = -1) =
        (signExtend op2 n.bits = int64Min.sshiftRight (64 - n.bits) ∧
          signExtend op1 n.bits = -1) := by
      rw [value_true, value_true, ← toInt_int64Min_sshiftRight, BitVec.toInt_inj,
        show (-1 : ℤ) = (-1 : BitVec 64).toInt by decide, BitVec.toInt_inj]
    simp only [Bool.not_true, Bool.false_eq_true, if_false, hop1, hop2, true_and, hover, hzero]
    split_ifs with h1 h2
    · exact ⟨-1, rfl, hones⟩
    · exact ⟨_, rfl, by rw [toNat_truncate_toInt, value_true]⟩
    · -- what the code lets through, the division of the host is defined on
      have hhost : ¬(signExtend op1 n.bits = 0 ∨
          signExtend op2 n.bits = int64Min ∧ signExtend op1 n.bits = -1) := by
        rw [← hover] at h2
        refine host_defined ?_ (by rw [ne_eq, hzero]; exact h1)
        rintro ⟨rfl, h⟩
        exact h2 h
      rw [sdiv, if_neg hhost]
      refine ⟨_, rfl, ?_⟩
      rw [toNat_truncate_toInt, BitVec.toInt_sdiv_of_ne_or_ne, value_true, value_true]
      by_contra hcon
      push Not at hcon
      exact hhost (Or.inr ⟨hcon.1, hcon.2⟩)

/-- Whether the host cannot compute the remainder of an element. -/
def RemUndefined (signed : Bool) (w : ℕ) (op2 op1 : BitVec 64) : Prop :=
  signed = true ∧ w = 64 ∧ op2 = int64Min ∧ op1 = -1

/-- The remainder of an element where the host can compute it. -/
theorem vRem_spec (hop1 : e.op1Eew = n.bits) (hop2 : e.op2Eew = n.bits)
    (hlt2 : op2.toNat < 2 ^ n.bits) (hlt1 : e.vdSigned = false → op1.toNat < 2 ^ n.bits)
    (hdef : ¬RemUndefined e.vdSigned n.bits op2 op1) :
    ∃ r, vRem e op2 op1 = some r ∧
      ((n.truncate r).toNat : ℤ) = remainder e.vdSigned n.bits (value e.vdSigned n.bits op2)
        (value e.vdSigned n.bits op1) % 2 ^ n.bits := by
  unfold vRem remainder
  cases hsigned : e.vdSigned with
  | false =>
    rw [value_false_of_lt hlt2, value_false_of_lt (hlt1 hsigned)]
    have hzero : ((op1.toNat : ℤ) = 0) = (op1 = 0) := by
      rw [eq_iff_iff, Nat.cast_eq_zero]
      exact ⟨fun h => BitVec.eq_of_toNat_eq h, fun h => congrArg BitVec.toNat h⟩
    simp only [Bool.not_false, if_true, hzero, Bool.false_eq_true, false_and, if_false, umod]
    split_ifs with h
    · refine ⟨op2, rfl, ?_⟩
      rw [toNat_truncate]
      push_cast
      rfl
    · refine ⟨_, rfl, ?_⟩
      have humod : (op2.umod op1).toNat = op2.toNat % op1.toNat := rfl
      rw [toNat_truncate, humod, ← Int.ofNat_tmod]
      push_cast
      rfl
  | true =>
    have hzero := value_true_eq_zero n op1
    simp only [Bool.not_true, Bool.false_eq_true, if_false, hop1, hop2, true_and, hzero]
    by_cases h1 : signExtend op1 n.bits = 0
    · rw [if_pos h1, if_pos h1]
      exact ⟨_, rfl, by rw [toNat_truncate_toInt, value_true]⟩
    · rw [if_neg h1, if_neg h1]
      have hhost : ¬(signExtend op1 n.bits = 0 ∨
          signExtend op2 n.bits = int64Min ∧ signExtend op1 n.bits = -1) := by
        refine host_defined ?_ (by rw [ne_eq, hzero]; exact h1)
        rintro ⟨rfl, h2, h1⟩
        have hext (x : BitVec 64) : value true Width.double.bits x = x.toInt := by
          rw [BitVec.toInt_eq_toNat_bmod, value, if_pos rfl]
          rfl
        rw [hext, show (-2 ^ 63 : ℤ) = int64Min.toInt by decide, BitVec.toInt_inj] at h2
        rw [hext, show (-1 : ℤ) = (-1 : BitVec 64).toInt by decide, BitVec.toInt_inj] at h1
        exact hdef ⟨hsigned, rfl, h2, h1⟩
      rw [smod, if_neg hhost]
      refine ⟨_, rfl, ?_⟩
      rw [toNat_truncate_toInt, BitVec.toInt_srem, ← value_true, ← value_true]
      split_ifs with hover
      · -- the truncated remainder by -1 is zero
        rw [hover.1, hover.2, Int.tmod_neg, Int.tmod_one]
      · rfl

/-- The remainder of an element where the host cannot compute it. -/
theorem vRem_eq_none (hop1 : e.op1Eew = n.bits) (hop2 : e.op2Eew = n.bits)
    (h : RemUndefined e.vdSigned n.bits op2 op1) : vRem e op2 op1 = none := by
  obtain ⟨hsigned, hw, rfl, rfl⟩ := h
  simp only [vRem, hsigned, hop1, hop2, hw]
  decide

end Element

/-! ### The instructions -/

/-- The members that the division instructions set. -/
def divMembers (signed : Bool) (param : ParamSel) : Members :=
  { elemSel := if signed then .xxxsss else .xxxuuu, paramSel := param }

/-- Both instructions come to their end, each active element is the specified quotient and the
specified remainder, and these make up the dividend. -/
def DivRemRight (signed : Bool) (param : ParamSel) (o : Operands) (s : VecIss) : Prop :=
  ∃ sd sr, (vdiv signed param o).run' s = (.ok (), sd) ∧ (vrem signed param o).run' s = (.ok (), sr) ∧
    ∀ i, s.vec.vInactive o s.vec.vl i = false →
      let sew := s.vec.getIntVSew
      let a := value signed sew (source2 (divMembers signed param) o s i)
      let b := value signed sew (source1 (divMembers signed param) o s i)
      let q := (sd.vec.getSewSingleOperand sew o.rd.val i).toNat
      let r := (sr.vec.getSewSingleOperand sew o.rd.val i).toNat
      (q : ℤ) = quotient signed sew a b % 2 ^ sew ∧ (r : ℤ) = remainder signed sew a b % 2 ^ sew ∧
        a ≡ q * b + r [ZMOD 2 ^ sew]

section Instructions

variable (signed : Bool) (param : ParamSel) {o : Operands} {s : VecIss} {n : Width}

/-- The widths and signs of the division instructions. -/
theorem getSignedEew_divMembers (hsew : s.vec.getIntVSew = n.bits) :
    getSignedEew (divMembers signed param) s.vec = ⟨n.bits, signed, n.bits, signed, n.bits, signed⟩ := by
  unfold getSignedEew divMembers
  cases signed <;> simp only [hsew] <;> rfl

theorem divMembers_vd : (divMembers signed param).elemSel.getLsbD 5 = false := by
  cases signed <;> simp [divMembers, ElemSel.xxxsss, ElemSel.xxxuuu]

theorem divMembers_op1 : (divMembers signed param).elemSel.getLsbD 3 = false := by
  cases signed <;> simp [divMembers, ElemSel.xxxsss, ElemSel.xxxuuu]

/-- The operands of an element are in range, and stand for the numbers they come from. -/
theorem divOperands (hsew : s.vec.getIntVSew = n.bits) (i : ℕ) :
    (source2 (divMembers signed param) o s i).toNat < 2 ^ n.bits ∧
      (signed = false → (getOperands (divMembers signed param) o s i).1.toNat < 2 ^ n.bits) ∧
      value signed n.bits (getOperands (divMembers signed param) o s i).1
        = value signed n.bits (source1 (divMembers signed param) o s i) := by
  have he := getSignedEew_divMembers signed param hsew
  refine ⟨?_, fun hs => ?_, ?_⟩
  · unfold source2
    rw [he]
    exact toNat_getSewSingleOperand_lt _ _ _ _
  · exact toNat_getOperands_fst_lt (by rw [he]) (by rw [he]; exact hs)
  · exact value_congr (toNat_getOperands_fst_mod (by rw [he]))

/-- The remainder is undefined for the operands of an element where it is for what they come from. -/
theorem remUndefined_source (hsew : s.vec.getIntVSew = n.bits) (i : ℕ) :
    RemUndefined signed n.bits (source2 (divMembers signed param) o s i)
        (getOperands (divMembers signed param) o s i).1 ↔
      RemUndefined signed n.bits (source2 (divMembers signed param) o s i)
        (source1 (divMembers signed param) o s i) := by
  have hop1 : (getSignedEew (divMembers signed param) s.vec).op1Eew = n.bits := by
    rw [getSignedEew_divMembers signed param hsew]
  unfold RemUndefined
  refine and_congr_right fun _ => and_congr_right fun hw => and_congr_right fun _ => ?_
  -- with 64 bits the operand is what it comes from
  have hmod := toNat_getOperands_fst_mod (o := o) (i := i) hop1
  rw [hw, Nat.mod_eq_of_lt (BitVec.isLt _), Nat.mod_eq_of_lt (BitVec.isLt _)] at hmod
  rw [BitVec.eq_of_toNat_eq hmod]

variable {signed param}

/-- `vdiv` comes to its end with the specified quotients. -/
theorem run'_vdiv (hacc : Accepted (divMembers signed param) o s) (hsew : s.vec.getIntVSew = n.bits) :
    ∃ sd, (vdiv signed param o).run' s = (.ok (), sd) ∧
      ∀ i, s.vec.vInactive o s.vec.vl i = false →
        ((sd.vec.getSewSingleOperand n.bits o.rd.val i).toNat : ℤ) =
          quotient signed n.bits (value signed n.bits (source2 (divMembers signed param) o s i))
            (value signed n.bits (source1 (divMembers signed param) o s i)) % 2 ^ n.bits := by
  have he := getSignedEew_divMembers signed param hsew
  refine run'_vLoop_elems (fun e s op2 op1 => (vDiv e s.vec.getIntVSew op2 op1).map fun r => (r, false))
    (divMembers signed param).elemSel param hacc hsew (divMembers_vd _ _) (divMembers_op1 _ _)
    (fun s' _ hvsew e => by simp only [VecState.getIntVSew, hvsew]) fun i _ => ?_
  obtain ⟨hlt2, hlt1, hval⟩ := divOperands signed param (o := o) hsew i
  obtain ⟨r, hr, hspec⟩ := vDiv_spec (e := getSignedEew (divMembers signed param) s.vec) (n := n)
    (by rw [he]) (by rw [he]) hlt2 (by rw [he]; exact hlt1)
  refine ⟨(r, false), ?_, ?_⟩
  · show (vDiv (getSignedEew (divMembers signed param) s.vec) s.vec.getIntVSew _ _).map _ = _
    rw [hsew]
    exact congrArg (Option.map _) hr
  · rw [hspec, he, ← hval]

/-- `vrem` comes to its end with the specified remainders, if the host can compute them. -/
theorem run'_vrem (hacc : Accepted (divMembers signed param) o s) (hsew : s.vec.getIntVSew = n.bits)
    (hdef : ∀ i, s.vec.vInactive o s.vec.vl i = false →
      ¬RemUndefined signed n.bits (source2 (divMembers signed param) o s i)
        (source1 (divMembers signed param) o s i)) :
    ∃ sr, (vrem signed param o).run' s = (.ok (), sr) ∧
      ∀ i, s.vec.vInactive o s.vec.vl i = false →
        ((sr.vec.getSewSingleOperand n.bits o.rd.val i).toNat : ℤ) =
          remainder signed n.bits (value signed n.bits (source2 (divMembers signed param) o s i))
            (value signed n.bits (source1 (divMembers signed param) o s i)) % 2 ^ n.bits := by
  have he := getSignedEew_divMembers signed param hsew
  refine run'_vLoop_elems (fun e _ op2 op1 => (vRem e op2 op1).map fun r => (r, false))
    (divMembers signed param).elemSel param hacc hsew (divMembers_vd _ _) (divMembers_op1 _ _)
    (fun _ _ _ _ => rfl) fun i hact => ?_
  obtain ⟨hlt2, hlt1, hval⟩ := divOperands signed param (o := o) hsew i
  have hdef' := mt (remUndefined_source signed param hsew i).1 (hdef i hact)
  obtain ⟨r, hr, hspec⟩ := vRem_spec (e := getSignedEew (divMembers signed param) s.vec) (n := n)
    (by rw [he]) (by rw [he]) hlt2 (by rw [he]; exact hlt1) (by rw [he]; exact hdef')
  refine ⟨(r, false), congrArg (Option.map _) hr, ?_⟩
  rw [hspec, he, ← hval]

/-- `vrem` ends the simulation at an element whose remainder is undefined. -/
theorem run'_vrem_host (hacc : Accepted (divMembers signed param) o s)
    (hsew : s.vec.getIntVSew = n.bits) {i : ℕ} (hact : s.vec.vInactive o s.vec.vl i = false)
    (hundef : RemUndefined signed n.bits (source2 (divMembers signed param) o s i)
      (source1 (divMembers signed param) o s i)) :
    ((vrem signed param o).run' s).1 = .error .host := by
  have he := getSignedEew_divMembers signed param hsew
  apply run'_vLoop_host (fun e _ op2 op1 => (vRem e op2 op1).map fun r => (r, false))
    (divMembers signed param).elemSel param hacc hsew (divMembers_vd _ _) (divMembers_op1 _ _)
    (fun _ _ _ _ => rfl)
  refine ⟨i, hact, ?_⟩
  have hnone : vRem (getSignedEew (divMembers signed param) s.vec)
      (source2 (divMembers signed param) o s i) (getOperands (divMembers signed param) o s i).1
        = none := by
    apply vRem_eq_none (n := n) (by rw [he]) (by rw [he])
    rw [he]
    exact (remUndefined_source signed param hsew i).2 hundef
  exact congrArg (Option.map _) hnone

/-- **Division.**  The division instructions behave as specified, and the host never divides by zero or
the least 64-bit number by -1, exactly where no active element of a signed division with 64-bit elements
has these operands. -/
theorem divRemRight_iff (hacc : Accepted (divMembers signed param) o s) :
    DivRemRight signed param o s ↔
      ¬(signed = true ∧ s.vec.getIntVSew = 64 ∧ ∃ i, s.vec.vInactive o s.vec.vl i = false ∧
        source2 (divMembers signed param) o s i = int64Min ∧
        source1 (divMembers signed param) o s i = -1) := by
  obtain ⟨n, hsew⟩ := hacc.exists_sew (divMembers_vd _ _)
  constructor
  · rintro ⟨sd, sr, -, hrem, -⟩ ⟨hsigned, h64, i, hact, hmin, hneg⟩
    have hstop := run'_vrem_host hacc hsew hact ⟨hsigned, hsew.symm.trans h64, hmin, hneg⟩
    rw [hrem] at hstop
    cases hstop
  · intro hno
    obtain ⟨sd, hrund, hq⟩ := run'_vdiv hacc hsew
    obtain ⟨sr, hrunr, hr⟩ := run'_vrem hacc hsew fun i hact hundef =>
      hno ⟨hundef.1, hsew.trans hundef.2.1, i, hact, hundef.2.2⟩
    refine ⟨sd, sr, hrund, hrunr, fun i hact => ?_⟩
    simp only [hsew]
    refine ⟨hq i hact, hr i hact, ?_⟩
    rw [hq i hact, hr i hact]
    apply (quotient_mul_add_remainder signed (bits_pos n) _ _).trans
    exact Int.ModEq.add (Int.ModEq.mul (Int.mod_modEq _ _).symm rfl) (Int.mod_modEq _ _).symm

end Instructions

/-! ### Two 64-bit elements -/

/-- The operands of `vdiv.vv v8, v16, v24`. -/
def v8v16v24 : Operands := ⟨0x870C2457, 8, 24, 16, 0, 0, true⟩

/-- Two 64-bit elements each: in `v16` zero and `a`, in `v24` -1 and `b`. -/
def longs (a b : BitVec 64) : VecIss where
  regs _ := 0
  vs := 1
  vec := (((⟨fun _ => 0, 2, 0, false, 3, 0⟩ : VecState).writeSewSingleOperand 64 24 0 (-1))
    |>.writeSewSingleOperand 64 16 1 a)
    |>.writeSewSingleOperand 64 24 1 b
  vxrm := 0
  vxsat := false

unseal Rat.mul Rat.inv Rat.add Rat.sub

theorem accepted_longs (a b : BitVec 64) : Accepted (divMembers true .vv) v8v16v24 (longs a b) := by
  have hzero : Accepted (divMembers true .vv) v8v16v24 ⟨fun _ => 0, 1, ⟨fun _ => 0, 2, 0, false, 3, 0⟩,
      0, false⟩ := by
    refine ⟨by decide, rfl, by decide, ?_⟩
    unfold VecState.VlInRange
    decide
  exact hzero.of_vRegs rfl ⟨_, rfl⟩

/-- Zero divided by -1 and the least number divided by two. -/
theorem divRemRight_iff_longs : DivRemRight true .vv v8v16v24 (longs int64Min 2) := by
  refine (divRemRight_iff (accepted_longs int64Min 2)).2 ?_
  rintro ⟨-, -, i, hact, hmin, hneg⟩
  have hi : i < 2 := lt_vl_of_active hact
  interval_cases i
  · exact absurd hmin (by decide)
  · exact absurd hneg (by decide)

/-- The least number divided by -1: the remainder ends the simulation. -/
theorem not_divRemRight :
    Accepted (divMembers true .vv) v8v16v24 (longs int64Min (-1)) ∧
      ((vrem true .vv v8v16v24).run' (longs int64Min (-1))).1 = .error .host ∧
      ¬DivRemRight true .vv v8v16v24 (longs int64Min (-1)) := by
  have hstop : ((vrem true .vv v8v16v24).run' (longs int64Min (-1))).1 = .error .host := by
    decide
  refine ⟨accepted_longs _ _, hstop, ?_⟩
  rintro ⟨sd, sr, -, hrem, -⟩
  rw [hrem] at hstop
  cases hstop

end RiscvVp.Vec
