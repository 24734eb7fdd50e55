import RiscvVp.Vec.Equiv.FixedPoint

/-!
# High halves of products

`vmulh`, `vmulhu` and `vmulhsu` keep the high half of the exact product of two elements, signed, unsigned, or
of a signed element with an unsigned one, for every width of the elements; `vsmul` keeps the high half of the
doubled product, rounded.  All of them take it from the two words that `multiply` computes
(`multiply_zero`, `multiply_snd`), which are those of the exact product.
-/

namespace RiscvVp.Vec

open Cheri (VecState Operands)

/-! ### One element -/

section Element

variable {e : SignedEew} {n : Width} {op2 op1 : BitVec 64}

/-- A number of few bits, signed or not, as `vMulh` hands it to `multiply`. -/
theorem value_word_of_lt (hlt : op1.toNat < 2 ^ n.bits) : value false 64 op1 = value false n.bits op1 := by
  rw [value_false_word, value_false_of_lt hlt]

theorem value_word_signExtend (x : BitVec 64) :
    value true 64 (signExtend x n.bits) = value true n.bits x := by
  rw [value_true_word, value_true]

/-- `vMulh`: the high half of the product. -/
theorem vMulh_spec (hop2 : e.op2Eew = n.bits) (hop1 : e.op1Eew = n.bits)
    (hsigns : e.op1Signed = true → e.op2Signed = true) (hlt2 : op2.toNat < 2 ^ n.bits)
    (hlt1 : e.op1Signed = false → op1.toNat < 2 ^ n.bits) (vxrm : BitVec 2) :
    ((n.truncate (vMulh e vxrm op2 op1)).toNat : ℤ)
      = value e.op2Signed n.bits op2 * value e.op1Signed n.bits op1 / 2 ^ n.bits % 2 ^ n.bits := by
  have hdvd : (2 : ℤ) ^ n.bits ∣ 2 ^ 64 := pow_dvd_pow 2 (bits_le n)
  unfold vMulh
  rw [toNat_truncate, Int.natCast_emod, Nat.cast_pow, Nat.cast_ofNat, hop2, hop1]
  cases h2 : e.op2Signed <;> cases h1 : e.op1Signed
  · rw [if_neg (by decide), if_pos (by decide), multiply_snd (by decide) _ _ _ (bits_le n),
      Int.emod_emod_of_dvd _ hdvd, value_word_of_lt hlt2, value_word_of_lt (hlt1 h1)]
  · exact absurd (hsigns h1) (by rw [h2]; decide)
  · rw [if_neg (by decide), if_neg (by decide), multiply_snd (by decide) _ _ _ (bits_le n),
      Int.emod_emod_of_dvd _ hdvd, value_word_signExtend, value_word_of_lt (hlt1 h1)]
  · rw [if_pos (by decide), multiply_snd (by decide) _ _ _ (bits_le n), Int.emod_emod_of_dvd _ hdvd,
      value_word_signExtend, value_word_signExtend]

/-- `vSmul`: the rounded high half of the doubled product, but for the square of the least number. -/
theorem vSmul_elem (hvd : e.vdEew = n.bits) (hop2 : e.op2Eew = n.bits) (hop1 : e.op1Eew = n.bits)
    (vxrm : BitVec 2) :
    ((n.truncate (vSmul e vxrm op2 op1).1).toNat : ℤ) =
      if value true n.bits op2 = -2 ^ (n.bits - 1) ∧ value true n.bits op1 = -2 ^ (n.bits - 1) then
        2 ^ (n.bits - 1) - 1
      else (roundingMode vxrm).round
        (((value true n.bits op2 * value true n.bits op1 : ℤ) : ℚ) / 2 ^ (n.bits - 1)) % 2 ^ n.bits := by
  have hround (a : ℤ) : (roundingMode vxrm).round ((a : ℚ) / 2 ^ (n.bits - 1))
      = (roundingMode vxrm).roundDiv a (2 ^ (n.bits - 1)) := by
    have h := RoundingMode.round_div (roundingMode vxrm) a (Nat.two_pow_pos (n.bits - 1))
    push_cast at h
    exact h
  simp only [vSmul, hvd, hop2, hop1, and_getMask_eq_msb_iff]
  split_ifs
  · cases n <;> decide
  · rw [hround]
    exact truncate_multiply op2 op1 vxrm

end Element

/-! ### Instructions -/

namespace MulhOp

/-- Whether the elements of `vs2` are signed. -/
def op2Signed : MulhOp → Bool
  | mulh | mulhsu => true
  | mulhu => false

/-- Whether the first operand is signed. -/
def op1Signed : MulhOp → Bool
  | mulh => true
  | mulhu | mulhsu => false

/-- The members that an instruction sets. -/
def members (op : MulhOp) (param : ParamSel) : Members := { elemSel := op.elemSel, paramSel := param }

/-- The exact product for an element. -/
def product (op : MulhOp) (param : ParamSel) (o : Operands) (s : VecIss) (i : ℕ) : ℤ :=
  value op.op2Signed s.vec.getIntVSew (source2 (op.members param) o s i) *
    value op.op1Signed s.vec.getIntVSew (source1 (op.members param) o s i)

variable {op : MulhOp} {param : ParamSel} {o : Operands} {s : VecIss} {n : Width}

variable (op param) in
/-- The widths and signs of the instructions. -/
theorem getSignedEew_members (hsew : s.vec.getIntVSew = n.bits) :
    getSignedEew (op.members param) s.vec =
      ⟨n.bits, op.op2Signed, n.bits, op.op2Signed, n.bits, op.op1Signed⟩ := by
  unfold getSignedEew members
  cases op <;> simp only [hsew] <;> rfl

theorem members_vd : op.elemSel.getLsbD 5 = false := by
  cases op <;> rfl

theorem members_op1 : op.elemSel.getLsbD 3 = false := by
  cases op <;> rfl

theorem op2Signed_of_op1Signed (op : MulhOp) : op.op1Signed = true → op.op2Signed = true := by
  cases op <;> decide

/-- The high halves that are stored, for every width and every combination of signs. -/
theorem run'_exec (hacc : Accepted (op.members param) o s) (hsew : s.vec.getIntVSew = n.bits) :
    ∃ s', (op.exec param o).run' s = (.ok (), s') ∧
      ∀ i, s.vec.vInactive o s.vec.vl i = false →
        ((s'.vec.getSewSingleOperand n.bits o.rd.val i).toNat : ℤ)
          = op.product param o s i / 2 ^ n.bits % 2 ^ n.bits := by
  have he := getSignedEew_members op param hsew
  refine run'_vLoop_elems (fun e s op2 op1 => some (vMulh e s.vxrm op2 op1, false)) op.elemSel param hacc
    hsew members_vd members_op1 (fun s' hvxrm _ e => by simp only [hvxrm]) fun i _ => ⟨_, rfl, ?_⟩
  have hlt2 : (source2 (op.members param) o s i).toNat < 2 ^ n.bits := by
    unfold source2
    rw [he]
    exact toNat_getSewSingleOperand_lt _ _ _ _
  have hval : value op.op1Signed n.bits (getOperands (op.members param) o s i).1
      = value op.op1Signed n.bits (source1 (op.members param) o s i) :=
    value_congr (toNat_getOperands_fst_mod (by rw [he]))
  have hlt1 : (getSignedEew (op.members param) s.vec).op1Signed = false →
      (getOperands (op.members param) o s i).1.toNat < 2 ^ n.bits :=
    fun hs => toNat_getOperands_fst_lt (by rw [he]) hs
  have h := vMulh_spec (by rw [he]) (by rw [he]) (by rw [he]; exact op.op2Signed_of_op1Signed) hlt2 hlt1
    s.vxrm
  refine h.trans ?_
  rw [he, product, hsew, ← hval]

end MulhOp

/-- The rounded products that `vsmul` stores, saturated in the one case that overflows. -/
theorem FixedOp.run'_smul {param : ParamSel} {o : Operands} {s : VecIss} {n : Width}
    (hacc : Accepted (smul.members param) o s) (hsew : s.vec.getIntVSew = n.bits) :
    ∃ s', (smul.exec param o).run' s = (.ok (), s') ∧
      ∀ i, s.vec.vInactive o s.vec.vl i = false →
        let a := value true n.bits (source2 (smul.members param) o s i)
        let b := value true n.bits (source1 (smul.members param) o s i)
        ((s'.vec.getSewSingleOperand n.bits o.rd.val i).toNat : ℤ) =
          if a = -2 ^ (n.bits - 1) ∧ b = -2 ^ (n.bits - 1) then 2 ^ (n.bits - 1) - 1
          else (roundingMode s.vxrm).round (((a * b : ℤ) : ℚ) / 2 ^ (n.bits - 1)) % 2 ^ n.bits := by
  obtain ⟨hvd, -, hop2, hop1⟩ := getSignedEew_members smul param hsew
  refine run'_vLoop_elems (fun e s op2 op1 => some (smul.func e s op2 op1)) (smul.elemSel param) param hacc
    hsew members_vd members_op1 (fun s' hvxrm _ e => by simp only [func, hvxrm]) fun i _ => ⟨_, rfl, ?_⟩
  have hval : value true n.bits (getOperands (smul.members param) o s i).1
      = value true n.bits (source1 (smul.members param) o s i) :=
    value_congr (toNat_getOperands_fst_mod hop1)
  rw [← hval]
  exact vSmul_elem hvd hop2 hop1 s.vxrm

/-- **The product and its high halves.**  The two words of `multiply` are those of the exact product, for
signed and unsigned operands.  The active elements of `vmulh`, `vmulhu` and `vmulhsu` are the high halves of the
exact products, and those of `vsmul` the rounded quotients by `2 ^ (sew - 1)`, which only the square of the
least number exceeds. -/
theorem multiply_exact :
    (∀ s2 s1 : Bool, (s1 = true → s2 = true) → ∀ vxrm op2 op1,
      ((multiply s2 s1 vxrm op2 op1 0 false).1.toNat : ℤ) * 2 ^ 64
          + (multiply s2 s1 vxrm op2 op1 0 false).2.toNat
        = value s2 64 op2 * value s1 64 op1 % 2 ^ 128) ∧
    (∀ (op : MulhOp) param o s, Accepted (op.members param) o s →
      ∃ s', (op.exec param o).run' s = (.ok (), s') ∧
        ∀ i, s.vec.vInactive o s.vec.vl i = false →
          let sew := s.vec.getIntVSew
          ((s'.vec.getSewSingleOperand sew o.rd.val i).toNat : ℤ) = op.product param o s i / 2 ^ sew % 2 ^ sew) ∧
    (∀ param o s, Accepted (FixedOp.smul.members param) o s →
      ∃ s', (FixedOp.smul.exec param o).run' s = (.ok (), s') ∧
        ∀ i, s.vec.vInactive o s.vec.vl i = false →
          let sew := s.vec.getIntVSew
          let a := value true sew (source2 (FixedOp.smul.members param) o s i)
          let b := value true sew (source1 (FixedOp.smul.members param) o s i)
          ((s'.vec.getSewSingleOperand sew o.rd.val i).toNat : ℤ) =
            if a = -2 ^ (sew - 1) ∧ b = -2 ^ (sew - 1) then 2 ^ (sew - 1) - 1
            else (roundingMode s.vxrm).round (((a * b : ℤ) : ℚ) / 2 ^ (sew - 1)) % 2 ^ sew) := by
  refine ⟨fun s2 s1 hsigns vxrm op2 op1 => multiply_zero hsigns vxrm op2 op1, ?_, ?_⟩
  · intro op param o s hacc
    obtain ⟨n, hsew⟩ := hacc.exists_sew MulhOp.members_vd
    obtain ⟨s', hrun, helems⟩ := MulhOp.run'_exec hacc hsew
    refine ⟨s', hrun, fun i hact => ?_⟩
    simp only [hsew]
    exact helems i hact
  · intro param o s hacc
    obtain ⟨n, hsew⟩ := hacc.exists_sew FixedOp.members_vd
    obtain ⟨s', hrun, helems⟩ := FixedOp.run'_smul hacc hsew
    refine ⟨s', hrun, fun i hact => ?_⟩
    simp only [hsew]
    exact helems i hact

/-- `vmulhsu.vv v8, v16, v24`. -/
def vmulhsuOperands : Operands := ⟨0x9B0C2457, 8, 24, 16, 0, 0, true⟩

unseal Rat.mul Rat.inv Rat.add Rat.sub

theorem accepted_mulhsu : Accepted (MulhOp.mulhsu.members .vv) vmulhsuOperands fractions := by
  have hzero : Accepted (MulhOp.mulhsu.members .vv) vmulhsuOperands
      ⟨fun _ => 0, 1, ⟨fun _ => 0, 2, 0, false, 3, 0⟩, 0, false⟩ := by
    refine ⟨by decide, rfl, by decide, ?_⟩
    unfold VecState.VlInRange
    decide
  exact hzero.of_vRegs rfl ⟨_, rfl⟩

/-- `-2 ^ 63` times `2 ^ 63`, and `2 ^ 62` times `2 ^ 62`. -/
theorem multiply_exact_mulhsu :
    ∃ s', (MulhOp.mulhsu.exec .vv vmulhsuOperands).run' fractions = (.ok (), s') ∧
      ((s'.vec.getSewSingleOperand 64 8 0).toNat : ℤ) = 2 ^ 64 - 2 ^ 62 ∧
      ((s'.vec.getSewSingleOperand 64 8 1).toNat : ℤ) = 2 ^ 60 := by
  have hact (i : Fin 2) : fractions.vec.vInactive vmulhsuOperands fractions.vec.vl i = false := by
    fin_cases i <;> decide
  have hleast : MulhOp.mulhsu.product .vv vmulhsuOperands fractions 0 = -2 ^ 126 := by decide
  have hhalf : MulhOp.mulhsu.product .vv vmulhsuOperands fractions 1 = 2 ^ 124 := by decide
  obtain ⟨s', hrun, helems⟩ := multiply_exact.2.1 _ _ _ _ accepted_mulhsu
  refine ⟨s', hrun, ?_, ?_⟩
  · have h := helems 0 (hact 0)
    rw [hleast] at h
    exact h
  · have h := helems 1 (hact 1)
    rw [hhalf] at h
    exact h

end RiscvVp.Vec
