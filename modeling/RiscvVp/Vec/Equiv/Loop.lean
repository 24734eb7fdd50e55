import RiscvVp.Iss.Equiv.FaultOnlyFirst
import RiscvVp.Vec.Basic

/-!
# Runs of a vector loop

`genericVLoop` computes its elements one after the other, and each is written before the operands of the
next are fetched.  What an element is to become can nevertheless be said of the state before the loop:
the checks let the destination overlap a source only so that an element is fetched before it is
overwritten, and never let it overlap the mask.

`Agree` is the relation between the state before the loop and the state before an element, and
`LoopSpec` says of the body of a loop what it does to every state in that relation.  The run of a loop
with such a body follows (`run'_genericVLoop`).
-/

namespace RiscvVp.Vec

open Cheri (VecState Operands ofBytes bytesOf getLsbD_ofBytes)

/-! ### What the checks say -/

/-- The checks of an instruction pass, and `v_set_operation` has chosen the vector length. -/
structure Accepted (c : Members) (o : Operands) (s : VecIss) : Prop where
  notOff : s.vs ≠ 0
  notVill : s.vec.vill = false
  checks : applyChecks c o s.vec = true
  vlInRange : s.vec.VlInRange

/-- The contents of the vector registers do not matter for the checks. -/
theorem Accepted.of_vRegs {c : Members} {o : Operands} {s s' : VecIss} (h : Accepted c o s)
    (hvs : s'.vs = s.vs) (hvec : ∃ vRegs, s'.vec = { s.vec with vRegs }) : Accepted c o s' := by
  obtain ⟨vRegs, hvec⟩ := hvec
  refine ⟨?_, ?_, ?_, ?_⟩
  · rw [hvs]
    exact h.notOff
  · rw [hvec]
    exact h.notVill
  · rw [hvec]
    exact h.checks
  · rw [hvec]
    exact h.vlInRange

/-- The number of registers in a group of elements of width `eew`. -/
def emul (v : VecState) (eew : ℕ) : ℚ := v.getVlmul * eew / v.getIntVSew

/-- A width that is a power of two from 8 to 64 is that of an access. -/
theorem exists_width {k : ℕ} (h : 2 ^ (k + 3) ≤ 64) : ∃ n : Width, 2 ^ (k + 3) = n.bits := by
  have hk : k < 4 := by
    by_contra hk
    have := Nat.pow_le_pow_right (n := 2) (by decide) (show 7 ≤ k + 3 by omega)
    omega
  interval_cases k
  · exact ⟨.byte, rfl⟩
  · exact ⟨.half, rfl⟩
  · exact ⟨.word, rfl⟩
  · exact ⟨.double, rfl⟩

/-- Elements below the greatest vector length lie in their register group. -/
theorem elem_le_of_le (v : VecState) (n : Width) {i : ℕ}
    (hi : ((i + 1 : ℕ) : ℚ) ≤ v.getVlmul * 512 / v.getIntVSew) :
    (i + 1) * n.bytes ≤ 64 * ⌈emul v n.bits⌉.toNat := by
  have hsew : (0 : ℚ) < v.getIntVSew := by
    unfold VecState.getIntVSew
    positivity
  have hbits : (n.bits : ℚ) = 8 * n.bytes := by
    unfold Width.bits
    push_cast
    ring
  have hle : (((i + 1) * n.bytes : ℕ) : ℚ) ≤ 64 * emul v n.bits := by
    calc (((i + 1) * n.bytes : ℕ) : ℚ) = ((i + 1 : ℕ) : ℚ) * n.bytes := by push_cast; ring
      _ ≤ v.getVlmul * 512 / v.getIntVSew * n.bytes :=
          mul_le_mul_of_nonneg_right hi (Nat.cast_nonneg _)
      _ = 64 * emul v n.bits := by
          rw [emul, hbits]
          ring
  have hceil : (64 : ℚ) * emul v n.bits ≤ ((64 * ⌈emul v n.bits⌉.toNat : ℕ) : ℚ) := by
    have h1 := Int.le_ceil (emul v n.bits)
    have h2 : (⌈emul v n.bits⌉ : ℚ) ≤ ((⌈emul v n.bits⌉.toNat : ℤ) : ℚ) := by
      exact_mod_cast Int.self_le_toNat _
    push_cast at h2 ⊢
    linarith
  exact_mod_cast hle.trans hceil

/-- An element below the vector length is below the greatest one. -/
theorem le_of_lt_vl {v : VecState} (hvl : v.VlInRange) {i : ℕ} (hi : i < v.vl) :
    ((i + 1 : ℕ) : ℚ) ≤ v.getVlmul * 512 / v.getIntVSew :=
  le_trans (by exact_mod_cast hi) hvl

/-- Aligned register groups of the same size are disjoint unless they are the same. -/
theorem aligned_add_le {v : VecState} {a b : ℕ} (ha : VecState.isAligned a v.getVlmul = true)
    (hb : VecState.isAligned b v.getVlmul = true) (hlt : a < b) :
    a + ⌈v.getVlmul⌉.toNat ≤ b := by
  unfold VecState.getVlmul at ha hb ⊢
  have hge := BitVec.le_toInt v.vlmul
  have hlt' := BitVec.toInt_lt (x := v.vlmul)
  rcases le_or_gt 0 v.vlmul.toInt with h | h
  · obtain ⟨k, hk⟩ := Int.eq_ofNat_of_zero_le h
    have hk4 : k < 4 := by omega
    rw [hk] at ha hb ⊢
    have hpow : ((2 : ℚ) ^ (k : ℤ)) = ((2 ^ k : ℕ) : ℚ) := by
      rw [zpow_natCast]
      push_cast
      rfl
    have hmod (c : ℕ) (hc : VecState.isAligned c ((2 : ℚ) ^ (k : ℤ)) = true) : c % 2 ^ k = 0 := by
      rw [VecState.isAligned, hpow, Int.floor_natCast, Int.toNat_natCast] at hc
      have hpos : (2 ^ k : ℕ) ≠ 0 := by positivity
      simpa [hpos, Nat.and_two_pow_sub_one_eq_mod] using hc
    have ha' := hmod a ha
    have hb' := hmod b hb
    rw [hpow, Int.ceil_natCast, Int.toNat_natCast]
    interval_cases k <;> omega
  · -- a group of less than a register occupies one
    have hone : ⌈(2 : ℚ) ^ v.vlmul.toInt⌉ = 1 := by
      rw [Int.ceil_eq_iff]
      constructor
      · simp only [Int.cast_one, sub_self]
        positivity
      · rw [Int.cast_one]
        exact zpow_le_one_of_nonpos₀ (by norm_num) h.le
    rw [hone]
    exact hlt

/-- What `vreg_overlap_valid` allows: disjoint groups, equal widths, or an overlap at the end that the
specification permits. -/
theorem overlap_cases {vd vdEew vs vsEew : ℕ} {vdEmul vsEmul : ℚ} {strict : Bool}
    (hd : 0 ≤ vdEmul) (hs : 0 ≤ vsEmul)
    (h : VecState.vregOverlapValid vd vdEmul vdEew vs vsEmul vsEew strict = true) :
    vs + ⌈vsEmul⌉.toNat ≤ vd ∨ vd + ⌈vdEmul⌉.toNat ≤ vs ∨
      strict = false ∧ (vdEew = vsEew ∨ vdEew < vsEew ∧ vd = vs ∨ vsEew < vdEew) := by
  have hd' := Int.ceil_nonneg hd
  have hs' := Int.ceil_nonneg hs
  unfold VecState.vregOverlapValid at h
  split_ifs at h with hno hstrict heq hlt hgt
  · rcases hno with hno | hno
    · left
      have : (vs : ℤ) + ⌈vsEmul⌉ - 1 < vd := by exact_mod_cast hno
      omega
    · right; left
      have : (vd : ℤ) + ⌈vdEmul⌉ - 1 < vs := by exact_mod_cast hno
      omega
  · exact Or.inr (Or.inr ⟨by simpa using hstrict, Or.inl heq⟩)
  · exact Or.inr (Or.inr ⟨by simpa using hstrict, Or.inr (Or.inl hlt)⟩)
  · exact Or.inr (Or.inr ⟨by simpa using hstrict, Or.inr (Or.inr hgt.1)⟩)

/-- The checks that a loop relies on. -/
structure Checks (c : Members) (o : Operands) (v : VecState) : Prop where
  vdEew : 8 ≤ (getSignedEew c v).vdEew ∧ (getSignedEew c v).vdEew ≤ 64
  op2Eew : (getSignedEew c v).op2Eew ≤ 64
  op1Eew : (getSignedEew c v).op1Eew ≤ 64
  vdNotV0 : c.requireVdNotV0 = true → o.vm = false → 0 < o.rd.val
  vs2 : VecState.vregOverlapValid o.rd.val
    (emul v (if c.vdIsMask then 1 else (getSignedEew c v).vdEew))
    (if c.vdIsMask then 1 else (getSignedEew c v).vdEew) o.rs2.val
    (emul v (getSignedEew c v).op2Eew) (getSignedEew c v).op2Eew c.requireNoOverlap = true
  vs1 : c.paramSel = .vv → VecState.vregOverlapValid o.rd.val
    (emul v (if c.vdIsMask then 1 else (getSignedEew c v).vdEew))
    (if c.vdIsMask then 1 else (getSignedEew c v).vdEew) o.rs1.val
    (emul v (if c.vs1IsMask then 1 else (getSignedEew c v).op1Eew))
    (if c.vs1IsMask then 1 else (getSignedEew c v).op1Eew) c.requireNoOverlap = true
  vdAligned : c.vdIsMask = false →
    VecState.isAligned o.rd.val (emul v (getSignedEew c v).vdEew) = true
  vs2Aligned : VecState.isAligned o.rs2.val (emul v (getSignedEew c v).op2Eew) = true
  vs1Aligned : c.paramSel = .vv → c.vs1IsMask = false →
    VecState.isAligned o.rs1.val (emul v (getSignedEew c v).op1Eew) = true

theorem checks_of_applyChecks {c : Members} {o : Operands} {v : VecState}
    (h : applyChecks c o v = true) : Checks c o v := by
  simp only [applyChecks, Bool.and_eq_true, Bool.or_eq_true, decide_eq_true_eq, bne_iff_ne,
    Bool.not_eq_true'] at h
  obtain ⟨⟨⟨⟨⟨⟨⟨⟨⟨heew, hv0⟩, -⟩, -⟩, -⟩, hvs1⟩, hvs2⟩, hvd⟩, hal2⟩, hal1⟩ := h
  constructor
  · exact ⟨heew.1, heew.2.1⟩
  · exact heew.2.2.2.1
  · exact heew.2.2.2.2.2
  · intro hreq hvm
    rcases hv0 with (hv0 | hv0) | hv0
    · rw [hreq] at hv0
      cases hv0
    · rw [hvm] at hv0
      cases hv0
    · exact Nat.pos_of_ne_zero fun h => hv0 (Fin.ext h)
  · exact hvs2
  · intro hvv
    have := hvs1.resolve_left fun h => h hvv
    rw [if_pos hvv] at this
    exact this
  · intro hmask
    have := hvd.resolve_left (by simp [hmask])
    simp only [hmask, Bool.false_eq_true, if_false] at this
    exact this
  · exact hal2
  · intro hvv hmask
    have := hal1.resolve_left (by simp [hmask, hvv])
    simp only [hmask, hvv, Bool.false_eq_true, if_false, if_true] at this
    exact this

/-! ### Loops -/

section Loops

variable {α : Type} (o : Operands) (ignoreInactive : Bool) (f : ℕ → α → UnitM α)

/-- One iteration of the loop: an inactive element is passed over, unless the loop takes all of them. -/
def vStep (i : ℕ) (a : α) : UnitM α := do
  let s ← UnitM.get
  if !ignoreInactive && s.vec.vInactive o s.vec.vl i then pure a else f i a

theorem run'_vElements_cons (i : ℕ) (is : List ℕ) (a : α) (s : VecIss) :
    (vElements o ignoreInactive f (i :: is) a).run' s =
      match (vStep o ignoreInactive f i a).run' s with
      | (.ok a', s') => (vElements o ignoreInactive f is a').run' s'
      | (.error t, s') => (.error t, s') := by
  unfold vStep
  rw [vElements, UnitM.run'_bind, UnitM.run'_bind]
  simp only [UnitM.run'_get]
  split_ifs
  · simp
  · refine (UnitM.run'_bind _ _ _).trans ?_
    rcases (f i a).run' s with ⟨t | a', s'⟩ <;> rfl

variable {m : ℕ} (P : ℕ → α → VecIss → Prop)

/-- **Invariants of a loop.**  What every iteration establishes for the next holds after the loop. -/
theorem run'_vElements (hstep : ∀ i < m, ∀ a s, P i a s →
      ∃ a' s', (vStep o ignoreInactive f i a).run' s = (.ok a', s') ∧ P (i + 1) a' s')
    (d : ℕ) {k : ℕ} {a : α} {s : VecIss} (hP : P k a s) (hd : k + d = m) :
    ∃ a' s', (vElements o ignoreInactive f (List.range' k d) a).run' s = (.ok a', s') ∧
      P m a' s' := by
  induction d generalizing k a s with
  | zero =>
    rw [Nat.add_zero] at hd
    exact ⟨a, s, rfl, hd ▸ hP⟩
  | succ d ih =>
    obtain ⟨a', s', hrun, hP'⟩ := hstep k (by omega) a s hP
    rw [List.range'_succ, run'_vElements_cons, hrun]
    exact ih hP' (by omega)

/-- An iteration that ends the run ends it whatever follows. -/
theorem run'_vElements_error {t : Stop} {j : ℕ} (hstep : ∀ i < j, ∀ a s, P i a s →
      ∃ a' s', (vStep o ignoreInactive f i a).run' s = (.ok a', s') ∧ P (i + 1) a' s')
    (hstop : ∀ a s, P j a s → ((vStep o ignoreInactive f j a).run' s).1 = .error t)
    (d : ℕ) {k : ℕ} {a : α} {s : VecIss} (hP : P k a s) (hk : k ≤ j) (hd : j < k + d) :
    ((vElements o ignoreInactive f (List.range' k d) a).run' s).1 = .error t := by
  induction d generalizing k a s with
  | zero => omega
  | succ d ih =>
    rw [List.range'_succ, run'_vElements_cons]
    rcases Nat.lt_or_eq_of_le hk with hlt | rfl
    · obtain ⟨a', s', hrun, hP'⟩ := hstep k hlt a s hP
      rw [hrun]
      exact ih hP' (by omega) (by omega)
    · have herr := hstop a s hP
      rcases hrun : (vStep o ignoreInactive f k a).run' s with ⟨t' | a', s'⟩
      · rw [hrun] at herr
        exact herr
      · rw [hrun] at herr
        cases herr

end Loops

/-! ### The states in a loop -/

/-- States that differ at most in the first `bytes` bytes from register `rd` on, in `vs` and in
`vxsat`. -/
structure Agree (rd bytes : ℕ) (s s' : VecIss) : Prop where
  regs : s'.regs = s.regs
  vxrm : s'.vxrm = s.vxrm
  vec : ∃ vRegs, s'.vec = { s.vec with vRegs }
  outside : ∀ a, a < rd * 64 ∨ rd * 64 + bytes ≤ a → s'.vec.vRegs a = s.vec.vRegs a

namespace Agree

variable {rd bytes : ℕ} {s s' : VecIss}

theorem vl (h : Agree rd bytes s s') : s'.vec.vl = s.vec.vl := by
  obtain ⟨_, hvec⟩ := h.vec
  rw [hvec]

theorem vsew (h : Agree rd bytes s s') : s'.vec.vsew = s.vec.vsew := by
  obtain ⟨_, hvec⟩ := h.vec
  rw [hvec]

theorem vstart (h : Agree rd bytes s s') : s'.vec.vstart = s.vec.vstart := by
  obtain ⟨_, hvec⟩ := h.vec
  rw [hvec]

theorem getIntVSew_eq (h : Agree rd bytes s s') : s'.vec.getIntVSew = s.vec.getIntVSew := by
  rw [VecState.getIntVSew, h.vsew]
  rfl

theorem getVlmul_eq (h : Agree rd bytes s s') : s'.vec.getVlmul = s.vec.getVlmul := by
  obtain ⟨_, hvec⟩ := h.vec
  rw [hvec]
  rfl

theorem getSignedEew_eq (h : Agree rd bytes s s') (c : Members) :
    getSignedEew c s'.vec = getSignedEew c s.vec := by
  unfold getSignedEew
  rw [h.getIntVSew_eq]

/-- An element outside the bytes is the same. -/
theorem elem (h : Agree rd bytes s s') (n : Width) {addr index : ℕ}
    (hout : addr * 64 + (index + 1) * n.bytes ≤ rd * 64 ∨
      rd * 64 + bytes ≤ addr * 64 + index * n.bytes) :
    s'.vec.getSewSingleOperand n.bits addr index = s.vec.getSewSingleOperand n.bits addr index := by
  apply VecState.getSewSingleOperand_congr
  intro a ha
  apply h.outside
  rw [Nat.succ_mul] at hout
  omega

/-- A bit of the mask is the same where the destination is not the mask. -/
theorem mask (h : Agree rd bytes s s') (hrd : 0 < rd) {i : ℕ} (hi : i < 512) :
    s'.vec.getSewSingleOperand 64 0 (i / 64) = s.vec.getSewSingleOperand 64 0 (i / 64) := by
  apply h.elem .double
  left
  simp only [Width.bytes]
  omega

end Agree

/-- There are at most 512 elements: eight registers of 512 bits, in elements of eight bits. -/
theorem maxLength_le (v : VecState) : v.getVlmul * 512 / v.getIntVSew ≤ 512 := by
  have hlmul : v.getVlmul ≤ 8 := by
    have hlt := BitVec.toInt_lt (x := v.vlmul)
    calc v.getVlmul ≤ (2 : ℚ) ^ (3 : ℤ) := zpow_le_zpow_right₀ (by norm_num) (by omega)
      _ = 8 := by norm_num
  have hsew : (8 : ℚ) ≤ v.getIntVSew := by
    have : 2 ^ 3 ≤ v.getIntVSew := Nat.pow_le_pow_right (by decide) (by omega)
    exact_mod_cast this
  rw [div_le_iff₀ (by linarith)]
  linarith

theorem vl_le {v : VecState} (hvl : v.VlInRange) : v.vl ≤ 512 := by
  exact_mod_cast hvl.trans (maxLength_le v)

/-- An element of a source is the same before element `i` is written, if the source does not overlap the
destination, or else if it is not before `i` and its elements are not narrower. -/
theorem Agree.source_at {s s' : VecIss} {n m : Width} {rd vs i j : ℕ} {strict : Bool}
    (h : Agree rd (i * n.bytes) s s') (hvl : s.vec.VlInRange) (hi : i < s.vec.vl)
    (hj : ((j + 1 : ℕ) : ℚ) ≤ s.vec.getVlmul * 512 / s.vec.getIntVSew)
    (hsew : s.vec.getIntVSew = n.bits)
    (hover : VecState.vregOverlapValid rd (emul s.vec n.bits) n.bits vs (emul s.vec m.bits) m.bits
      strict = true)
    (hvd : VecState.isAligned rd (emul s.vec n.bits) = true)
    (hvs : VecState.isAligned vs (emul s.vec m.bits) = true)
    (hle : strict = true ∨ i ≤ j ∧ n.bits ≤ m.bits) :
    s'.vec.getSewSingleOperand m.bits vs j = s.vec.getSewSingleOperand m.bits vs j := by
  have hnonneg (k : ℕ) : 0 ≤ emul s.vec k := by
    unfold emul VecState.getVlmul
    positivity
  have hn := elem_le_of_le s.vec n (le_of_lt_vl hvl hi)
  have hm := elem_le_of_le s.vec m hj
  have hbytes (hij : i ≤ j) (hle : n.bits ≤ m.bits) : i * n.bytes ≤ j * m.bytes := by
    apply Nat.mul_le_mul hij
    unfold Width.bits at hle
    omega
  have hn' : (i + 1) * n.bytes = i * n.bytes + n.bytes := Nat.succ_mul i _
  apply h.elem
  obtain hd | hd | ⟨hstrict, hd⟩ := overlap_cases (hnonneg _) (hnonneg _) hover
  · left
    omega
  · right
    omega
  · obtain ⟨hij, hle⟩ := hle.resolve_left (by simp [hstrict])
    have hb := hbytes hij hle
    rcases hd with hd | hd | hd
    · -- the same width: the groups are aligned alike
      have hemul : emul s.vec n.bits = s.vec.getVlmul := by
        have hpos : (0 : ℚ) < n.bits := by
          rw [← hsew]
          unfold VecState.getIntVSew
          positivity
        rw [emul, hsew, mul_div_assoc, div_self hpos.ne', mul_one]
      rw [← hd, hemul] at hvs
      rw [hemul] at hvd
      rcases Nat.lt_or_ge vs rd with hlt | hge
      · have := aligned_add_le hvs hvd hlt
        left
        rw [← hd, hemul] at hm
        omega
      · right
        omega
    · right
      omega
    · omega

/-- The elements that are active in the state before the loop are so when the loop reaches them. -/
theorem Agree.vInactive_eq {s s' : VecIss} {o : Operands} {bytes i : ℕ}
    (h : Agree o.rd.val bytes s s') (hv0 : o.vm = false → 0 < o.rd.val) (hi : i < 512) :
    s'.vec.vInactive o s'.vec.vl i = s.vec.vInactive o s.vec.vl i := by
  unfold VecState.vInactive
  rw [h.vl, h.vstart]
  cases hvm : o.vm with
  | true => rw [Bool.not_true, Bool.false_and, Bool.false_and]
  | false => rw [h.mask (hv0 hvm) hi]

/-! ### What a loop leaves -/

/-- The state after an element has been written, if it is. -/
def writeElem (n : Width) (o : Operands) (i : ℕ) (s : VecIss) : Elem → VecIss
  | none => s
  | some r =>
    { s with
      vxsat := s.vxsat || r.2
      vec := s.vec.writeSewSingleOperand n.bits o.rd.val i r.1 }

/-- The state after `k` elements: each that was written has its new value. -/
structure Written (n : Width) (o : Operands) (eff : ℕ → Elem) (s : VecIss) (k : ℕ) (s' : VecIss) :
    Prop where
  agree : Agree o.rd.val (k * n.bytes) s s'
  elems : ∀ i < k, s'.vec.getSewSingleOperand n.bits o.rd.val i =
    match eff i with
    | none => s.vec.getSewSingleOperand n.bits o.rd.val i
    | some r => n.truncate r.1
  vxsat : s'.vxsat = (s.vxsat || (List.range k).any fun i => (eff i).any (·.2))

section Written

variable {n : Width} {o : Operands} {eff : ℕ → Elem} {s s' : VecIss} {k : ℕ}

theorem written_zero (vs : BitVec 2) : Written n o eff s 0 { s with vs } where
  agree := ⟨rfl, rfl, ⟨s.vec.vRegs, rfl⟩, fun _ _ => rfl⟩
  elems i hi := absurd hi (Nat.not_lt_zero i)
  vxsat := by simp

/-- Writing element `k` changes bytes of that element only. -/
theorem Agree.of_writeElem (h : Agree o.rd.val (k * n.bytes) s s') (r : Elem) :
    Agree o.rd.val ((k + 1) * n.bytes) s (writeElem n o k s' r) := by
  rw [Nat.succ_mul]
  obtain ⟨vRegs, hvec⟩ := h.vec
  cases r with
  | none =>
    refine ⟨h.regs, h.vxrm, h.vec, fun a ha => h.outside a ?_⟩
    omega
  | some r =>
    refine ⟨h.regs, h.vxrm, ?_, fun a ha => ?_⟩
    · show ∃ vRegs, s'.vec.writeSewSingleOperand n.bits o.rd.val k r.1 = { s.vec with vRegs }
      rw [hvec]
      exact ⟨_, rfl⟩
    · show (s'.vec.writeSewSingleOperand n.bits o.rd.val k r.1).vRegs a = s.vec.vRegs a
      rw [VecState.vRegs_write_of_disjoint _ _ _ (by omega)]
      apply h.outside
      omega

/-- The elements before the one that is written stay. -/
theorem elem_writeElem_of_lt {i : ℕ} (hi : i < k) (r : Elem) :
    (writeElem n o k s' r).vec.getSewSingleOperand n.bits o.rd.val i
      = s'.vec.getSewSingleOperand n.bits o.rd.val i := by
  cases r with
  | none => rfl
  | some r =>
    apply VecState.getSewSingleOperand_congr
    intro a ha
    apply VecState.vRegs_write_of_disjoint
    have := Nat.mul_le_mul_right n.bytes hi
    rw [Nat.succ_mul] at this
    omega

theorem Written.step (h : Written n o eff s k s') :
    Written n o eff s (k + 1) (writeElem n o k s' (eff k)) where
  agree := h.agree.of_writeElem (eff k)
  elems i hi := by
    rcases Nat.lt_succ_iff_lt_or_eq.1 hi with hlt | rfl
    · rw [elem_writeElem_of_lt hlt]
      exact h.elems i hlt
    · rcases eff i with _ | r
      · exact h.agree.elem n (Or.inr (le_refl _))
      · exact VecState.getSewSingleOperand_write _ _ _ rfl
  vxsat := by
    rw [List.range_succ, List.any_append, ← Bool.or_assoc, ← h.vxsat]
    rcases hr : eff k with _ | r <;> simp [writeElem, hr]

variable {ignoreInactive : Bool} {f : ℕ → Unit → UnitM Unit}

/-- What an iteration does to every state that can precede it. -/
def LoopSpec (n : Width) (o : Operands) (ignoreInactive : Bool) (f : ℕ → Unit → UnitM Unit)
    (eff : ℕ → Elem) (s : VecIss) (m : ℕ) : Prop :=
  ∀ i < m, ∀ s', Agree o.rd.val (i * n.bytes) s s' →
    (vStep o ignoreInactive f i ()).run' s' = (.ok (), writeElem n o i s' (eff i))

variable (ignoreInactive) in
/-- The run of an instruction that passes its checks is that of its loop. -/
theorem run'_vInstr {α : Type} {c : Members} (hacc : Accepted c o s) (g : ℕ → α → UnitM α) (a : α) :
    (vInstr o (genericVLoop c o ignoreInactive g a)).run' s =
      match (vElements o ignoreInactive g (List.range' 0 s.vec.vl) a).run' { s with vs := 3 } with
      | (.ok _, s') => (.ok (), { s' with vec := { s'.vec with vstart := 0 } })
      | (.error t, s') => (.error t, s') := by
  have hoff : (s.vs != 0) = true := bne_iff_ne.2 hacc.notOff
  unfold vInstr
  rw [UnitM.run'_bind]
  simp only [UnitM.run'_get]
  rw [hoff, UnitM.run'_bind]
  simp only [UnitM.run'_vAssert_true]
  rw [UnitM.run'_bind]
  simp only [UnitM.run'_modify]
  rw [hacc.notVill, UnitM.run'_bind]
  simp only [Bool.not_false, UnitM.run'_vAssert_true]
  rw [UnitM.run'_bind]
  unfold genericVLoop
  rw [UnitM.run'_bind]
  simp only [UnitM.run'_get]
  rw [hacc.checks, UnitM.run'_bind]
  simp only [UnitM.run'_vAssert_true]
  rw [UnitM.run'_bind, List.range_eq_range']
  rcases (vElements o ignoreInactive g (List.range' 0 s.vec.vl) a).run' { s with vs := 3 } with
    ⟨t | a', s'⟩ <;> rfl

/-- **Loops of elements.**  An instruction whose iterations are as specified ends, with each element
as specified. -/
theorem run'_vInstr_elements {c : Members} (hacc : Accepted c o s)
    (hspec : LoopSpec n o ignoreInactive f eff s s.vec.vl) :
    ∃ s', (vInstr o (genericVLoop c o ignoreInactive f ())).run' s =
        (.ok (), { s' with vec := { s'.vec with vstart := 0 } }) ∧
      Written n o eff s s.vec.vl s' := by
  obtain ⟨a', s', hrun, hw⟩ := run'_vElements o ignoreInactive f
    (fun i _ s' => Written n o eff s i s')
    (fun i hi a s' hw => ⟨(), _, hspec i hi s' hw.agree, hw.step⟩) s.vec.vl (k := 0) (a := ())
    (written_zero 3) (Nat.zero_add _)
  refine ⟨s', ?_, hw⟩
  rw [run'_vInstr _ hacc, hrun]

/-- An instruction stops at the first element that stops it. -/
theorem run'_vInstr_stop {c : Members} {t : Stop} {j : ℕ} (hacc : Accepted c o s) (hj : j < s.vec.vl)
    (hspec : LoopSpec n o ignoreInactive f eff s j)
    (hstop : ∀ s', Agree o.rd.val (j * n.bytes) s s' →
      ((vStep o ignoreInactive f j ()).run' s').1 = .error t) :
    ((vInstr o (genericVLoop c o ignoreInactive f ())).run' s).1 = .error t := by
  have hrun := run'_vElements_error o ignoreInactive f
    (fun i _ s' => Written n o eff s i s')
    (fun i hi a s' hw => ⟨(), _, hspec i hi s' hw.agree, hw.step⟩)
    (fun a s' hw => hstop s' hw.agree) s.vec.vl (k := 0) (a := ()) (written_zero 3) (Nat.zero_le _)
    (by omega)
  rw [run'_vInstr _ hacc]
  rcases hres : (vElements o ignoreInactive f (List.range' 0 s.vec.vl) ()).run' { s with vs := 3 } with
    ⟨t' | a', s'⟩
  · rw [hres] at hrun
    exact hrun
  · rw [hres] at hrun
    cases hrun

end Written

/-! ### Bodies that fetch, compute and write -/

section Body

variable {c : Members} {o : Operands} {s s' : VecIss} {i : ℕ}

/-- The width of an element of the destination, for an instruction that does not widen. -/
theorem Accepted.exists_sew (hacc : Accepted c o s) (hvd : c.elemSel.getLsbD 5 = false) :
    ∃ n : Width, s.vec.getIntVSew = n.bits := by
  apply exists_width
  have h := (checks_of_applyChecks hacc.checks).vdEew.2
  simp only [getSignedEew, hvd, Bool.false_eq_true, if_false] at h
  exact h

/-- The elements of `vs2` have the width of an access. -/
theorem Accepted.exists_op2Eew (hacc : Accepted c o s) :
    ∃ m : Width, (getSignedEew c s.vec).op2Eew = m.bits := by
  have h := (checks_of_applyChecks hacc.checks).op2Eew
  simp only [getSignedEew] at h ⊢
  split_ifs at h ⊢
  · unfold VecState.getIntVSew at h ⊢
    rw [← Nat.pow_succ', Nat.succ_eq_add_one, show s.vec.vsew.toNat + 3 + 1 = s.vec.vsew.toNat + 1 + 3
      by omega] at h ⊢
    exact exists_width h
  · exact exists_width h

/-- The operands of an element are the same where its elements in the sources are. -/
theorem getOperands_congr (hregs : s'.regs = s.regs)
    (hew : getSignedEew c s'.vec = getSignedEew c s.vec)
    (h2 : s'.vec.getSewSingleOperand (getSignedEew c s.vec).op2Eew o.rs2.val i
      = s.vec.getSewSingleOperand (getSignedEew c s.vec).op2Eew o.rs2.val i)
    (h1 : c.paramSel = .vv → s'.vec.getSewSingleOperand (getSignedEew c s.vec).op1Eew o.rs1.val i
      = s.vec.getSewSingleOperand (getSignedEew c s.vec).op1Eew o.rs1.val i) :
    getOperands c o s' i = getOperands c o s i := by
  simp only [getOperands, getOperandsRed, hew, hregs]
  rw [h2]
  rcases hparam : c.paramSel with _ | _ | _
  · rw [h1 hparam]
  · rfl
  · rfl

/-- The operands of an element do not depend on the elements before it. -/
theorem Agree.getOperands_eq {n m : Width} (h : Agree o.rd.val (i * n.bytes) s s')
    (hacc : Accepted c o s) (hi : i < s.vec.vl) (hsew : s.vec.getIntVSew = n.bits)
    (hvd : c.elemSel.getLsbD 5 = false) (hop1 : (getSignedEew c s.vec).op1Eew = m.bits)
    (hmask : c.vdIsMask = false) (hmask1 : c.vs1IsMask = false)
    (hle : c.requireNoOverlap = true ∨ n.bits ≤ m.bits) :
    getOperands c o s' i = getOperands c o s i := by
  have hck := checks_of_applyChecks hacc.checks
  obtain ⟨m₂, hm₂⟩ := hacc.exists_op2Eew
  have hvdEew : (getSignedEew c s.vec).vdEew = n.bits := by
    simp only [getSignedEew, hvd, hsew, Bool.false_eq_true, if_false]
  have hle₂ : n.bits ≤ m₂.bits := by
    rw [← hm₂, ← hsew]
    simp only [getSignedEew]
    split_ifs <;> omega
  have hal := hck.vdAligned hmask
  apply getOperands_congr h.regs (h.getSignedEew_eq c)
  · have hover := hck.vs2
    have hal2 := hck.vs2Aligned
    simp only [hmask, Bool.false_eq_true, if_false, hvdEew, hm₂] at hover hal hal2
    rw [hm₂]
    exact h.source_at hacc.vlInRange hi (le_of_lt_vl hacc.vlInRange hi) hsew hover hal hal2
      (Or.inr ⟨le_refl i, hle₂⟩)
  · intro hvv
    have hover := hck.vs1 hvv
    have hal1 := hck.vs1Aligned hvv hmask1
    simp only [hmask, hmask1, Bool.false_eq_true, if_false, hvdEew, hop1] at hover hal hal1
    rw [hop1]
    exact h.source_at hacc.vlInRange hi (le_of_lt_vl hacc.vlInRange hi) hsew hover hal hal1
      (hle.imp_right fun h => ⟨le_refl i, h⟩)

/-- What becomes of an element: nothing where it is inactive. -/
def bodyEff (c : Members) (o : Operands) (ignoreInactive : Bool)
    (func : VecIss → BitVec 64 → BitVec 64 → ℕ → Elem) (s : VecIss) (i : ℕ) : Elem :=
  if !ignoreInactive && s.vec.vInactive o s.vec.vl i then none
  else func s (getOperands c o s i).2 (getOperands c o s i).1 i

/-- One iteration with a body that fetches, computes and writes. -/
theorem Agree.run'_vStep {n m : Width} (ignoreInactive : Bool)
    (func : VecIss → BitVec 64 → BitVec 64 → ℕ → Elem) (h : Agree o.rd.val (i * n.bytes) s s')
    (hacc : Accepted c o s) (hi : i < s.vec.vl) (hsew : s.vec.getIntVSew = n.bits)
    (hvd : c.elemSel.getLsbD 5 = false) (hop1 : (getSignedEew c s.vec).op1Eew = m.bits)
    (hmask : c.vdIsMask = false) (hmask1 : c.vs1IsMask = false) (hv0 : c.requireVdNotV0 = true)
    (hle : c.requireNoOverlap = true ∨ n.bits ≤ m.bits)
    (hfunc : ∀ op2 op1, func s' op2 op1 i = func s op2 op1 i) :
    (vStep o ignoreInactive (vBody c o func) i ()).run' s' =
      if !ignoreInactive && s.vec.vInactive o s.vec.vl i then (.ok (), s')
      else match func s (getOperands c o s i).2 (getOperands c o s i).1 i with
        | none => (.error .host, s')
        | some r => (.ok (), writeElem n o i s' (some r)) := by
  have hck := checks_of_applyChecks hacc.checks
  have hvl := vl_le hacc.vlInRange
  have hops := h.getOperands_eq hacc hi hsew hvd hop1 hmask hmask1 hle
  unfold vStep
  rw [UnitM.run'_bind]
  simp only [UnitM.run'_get]
  rw [h.vInactive_eq (hck.vdNotV0 hv0) (by omega)]
  split_ifs
  · rfl
  · unfold vBody
    rw [UnitM.run'_bind]
    simp only [UnitM.run'_get]
    rw [hops, hfunc]
    rcases func s (getOperands c o s i).2 (getOperands c o s i).1 i with _ | r
    · rfl
    · have hvdEew : (getSignedEew c s'.vec).vdEew = n.bits := by
        rw [h.getSignedEew_eq]
        simp only [getSignedEew, hvd, hsew, Bool.false_eq_true, if_false]
      simp only [UnitM.run'_bind, UnitM.run'_modify, writeGeneric, writeElem, hvdEew]

end Body

end RiscvVp.Vec
