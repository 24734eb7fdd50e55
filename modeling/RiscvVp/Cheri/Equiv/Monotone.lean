import RiscvVp.Cheri.Instr
import RiscvVp.Cheri.Equiv.Canonical

/-!
# Bounds only shrink

`CSetBounds` checks the range that is asked for and grants that range rounded outwards.  The rounded
range still lies within the source's: a canonical source with an internal exponent `P` has bounds that
are multiples of `2 ^ (P + 3)`, and the exponent chosen for a part of it is at most `P`, also when the
rounded length overflows (`roundedExponent_le_parent`).
-/

namespace RiscvVp

open Rounding

namespace Capability

/-! ### Capabilities with proper bounds -/

/-- A canonical capability whose bounds do not wrap around at the largest exponents. -/
structure Proper (c : Capability) : Prop where
  canonical : c.Canonical
  exponent_le : c.E.toNat ≤ 52
  wide : 51 ≤ c.E.toNat → c.B.toNat ≤ c.T.toNat ∧ c.T.toNat * 2 ^ c.E.toNat ≤ 2 ^ 64

/-- Only the mantissa and the exponent decide whether the bounds are proper. -/
theorem Proper.congr {c c' : Capability} (h : c.Proper) (hie : c'.internalE = c.internalE)
    (hE : c'.E = c.E) (hB : c'.B = c.B) (hT : c'.T = c.T) : c'.Proper := by
  refine ⟨h.canonical.congr hie hE hB hT, ?_, ?_⟩
  · rw [hE]
    exact h.exponent_le
  · rw [hE, hB, hT]
    exact h.wide

theorem Proper.exponent_eq {c : Capability} (h : c.Proper) : c.exponent = c.E.toNat :=
  Nat.min_eq_right h.exponent_le

/-- The mantissa of a canonical capability is less than half its range long. -/
theorem Canonical.mantissaLen_lt {c : Capability} (h : c.Canonical) : c.mantissaLen < 2 ^ 13 := by
  cases hie : c.internalE with
  | false => exact Nat.lt_trans (h.short hie) (by omega)
  | true => exact (h.second hie).2

/-- The top is the scaled length of the mantissa above the base. -/
theorem Proper.toNat_getTop {c : Capability} (h : c.Proper) :
    c.getTop.toNat = c.getBase.toNat + c.mantissaLen * 2 ^ c.E.toNat := by
  have hlen := h.canonical.mantissaLen_lt
  have hE := h.exponent_eq
  by_cases hwide : 51 ≤ c.E.toNat
  · obtain ⟨hBT, hT⟩ := h.wide hwide
    obtain ⟨hb, ht⟩ := toNat_getCapBounds_wide (c := c) (by omega)
    have hB := c.B.isLt
    have hm := c.mantissaLen_eq
    have hsum : c.T.toNat = c.B.toNat + c.mantissaLen := by omega
    have hie : c.internalE = true := by
      cases hie : c.internalE with
      | false =>
        have h0 := h.canonical.exponent hie
        rw [h0] at hwide
        exact absurd hwide (by decide)
      | true => rfl
    have hlen' := (h.canonical.second hie).1
    have hpos := Nat.two_pow_pos c.E.toNat
    have hmul : 0 < c.mantissaLen * 2 ^ c.E.toNat := Nat.mul_pos (by omega) hpos
    rw [hE] at hb ht
    rw [hsum, Nat.add_mul] at hT ht
    rw [hb, ht, Nat.mod_eq_of_lt (by omega), Nat.mod_eq_of_lt (by omega)]
  · rw [Capability.toNat_getTop (by omega) (by omega), hE]

/-- The bounds of a capability with an internal exponent are multiples of the scaled eight. -/
theorem Proper.two_pow_dvd {c : Capability} (h : c.Proper) (hie : c.internalE = true) :
    2 ^ (c.E.toNat + 3) ∣ c.getBase.toNat ∧ 2 ^ (c.E.toNat + 3) ∣ c.getTop.toNat := by
  obtain ⟨hB, hT⟩ := h.canonical.aligned hie
  rw [← h.exponent_eq]
  exact ⟨two_pow_dvd_getBase hB, two_pow_dvd_getTop hT⟩

/-! ### Decoding bounds that were set -/

/-- The exponent of rounded bounds is the one they were rounded with: up to 52 it fits into its field. -/
theorem toNat_rounded_E (c : Capability) {base : BitVec 64} {top : BitVec 128} {E : ℕ} (hE : E ≤ 52) :
    (c.rounded base top E).E.toNat = E := by
  simp only [rounded, BitVec.toNat_ofNat]
  omega

/-- The base of rounded bounds is decoded to the rounded base. -/
theorem toNat_getBase_rounded (c : Capability) {base : BitVec 64} {top : BitVec 128} {E : ℕ}
    (hE : E ≤ 52) :
    (c.rounded base top E).getBase.toNat = base.toNat / 2 ^ (E + 3) * 2 ^ (E + 3) := by
  have hexp : (c.rounded base top E).exponent = E := by
    rw [exponent, toNat_rounded_E c hE]
    exact Nat.min_eq_right hE
  have hcur : (c.rounded base top E).cursor = base.toNat / 2 ^ E := by
    rw [cursor, hexp]
    rfl
  have hdiv : base.toNat / 2 ^ (E + 3) = base.toNat / 2 ^ E / 8 := by
    rw [Nat.div_div_eq_div_mul, Nat.pow_add]
  have hB : (c.rounded base top E).B.toNat = base.toNat / 2 ^ (E + 3) * 8 % 2 ^ 14 := by
    simp only [rounded, BitVec.toNat_ofNat]
  have hpos : position (base.toNat / 2 ^ E) (c.rounded base top E).B.toNat
      (c.rounded base top E).B.toNat = (base.toNat / 2 ^ (E + 3) * 8 : ℕ) :=
    position_base hB.symm (by omega) (by omega)
  have hle := Nat.div_mul_le_self base.toNat (2 ^ (E + 3))
  have hlt := base.isLt
  have h := (c.rounded base top E).toNat_baseWord
  rw [hcur, hexp, hpos] at h
  have h' : (c.rounded base top E).baseWord.toNat
      = base.toNat / 2 ^ (E + 3) * 8 * 2 ^ E % 2 ^ 64 := by exact_mod_cast h
  have hscale : base.toNat / 2 ^ (E + 3) * 8 * 2 ^ E = base.toNat / 2 ^ (E + 3) * 2 ^ (E + 3) := by
    rw [Nat.mul_assoc, show E + 3 = 3 + E by omega, Nat.pow_add]
  rw [getBase_eq, h', hscale, Nat.mod_eq_of_lt (by omega)]

/-- Rounded bounds are proper.  `hwide` excludes the one case in which the top would leave the address
space. -/
theorem proper_rounded (c : Capability) {base : BitVec 64} {top : BitVec 128} {E : ℕ} (hE : E ≤ 52)
    (h : base.toNat ≤ top.toNat) (hlo : 2 ^ 9 ≤ roundedLen base top E)
    (hhi : roundedLen base top E < 2 ^ 10) (hwide : 51 ≤ E → top.toNat ≤ 2 ^ 64) :
    (c.rounded base top E).Proper := by
  refine ⟨canonical_rounded c h hlo hhi, by rw [toNat_rounded_E c hE]; exact hE, ?_⟩
  rw [toNat_rounded_E c hE]
  intro h51
  have hpos := Nat.two_pow_pos (E + 3)
  have hle := div_le_ceilDiv hpos h
  have hceil : top.toNat ⌈/⌉ 2 ^ (E + 3) * 2 ^ (E + 3) ≤ 2 ^ 64 :=
    ceilDiv_mul_le hpos (Nat.pow_dvd_pow 2 (by omega)) (hwide h51)
  simp only [rounded, BitVec.toNat_ofNat]
  generalize top.toNat ⌈/⌉ 2 ^ (E + 3) = t at *
  have h51' : E = 51 ∨ E = 52 := by omega
  rcases h51' with rfl | rfl <;> omega

/-- The top of rounded bounds is decoded to the rounded top. -/
theorem toNat_getTop_rounded (c : Capability) {base : BitVec 64} {top : BitVec 128} {E : ℕ}
    (hE : E ≤ 52) (h : base.toNat ≤ top.toNat) (hlo : 2 ^ 9 ≤ roundedLen base top E)
    (hhi : roundedLen base top E < 2 ^ 10) (hwide : 51 ≤ E → top.toNat ≤ 2 ^ 64) :
    (c.rounded base top E).getTop.toNat = top.toNat ⌈/⌉ 2 ^ (E + 3) * 2 ^ (E + 3) := by
  have hle := div_le_ceilDiv (Nat.two_pow_pos (E + 3)) h
  have hscale : roundedLen base top E * 8 * 2 ^ E = roundedLen base top E * 2 ^ (E + 3) := by
    rw [Nat.mul_assoc, show E + 3 = 3 + E by omega, Nat.pow_add]
  rw [(proper_rounded c hE h hlo hhi hwide).toNat_getTop, toNat_getBase_rounded c hE,
    toNat_rounded_E c hE, mantissaLen_rounded c h (by omega), hscale, ← Nat.add_mul]
  unfold roundedLen
  congr 1
  omega

/-- Bounds that fit the mantissa are proper. -/
theorem proper_unrounded (c : Capability) {base : BitVec 64} {top : BitVec 128}
    (h : base.toNat ≤ top.toNat) (hlt : top.toNat - base.toNat < 2 ^ 12) :
    (c.unrounded base top).Proper := by
  have hE : (c.unrounded base top).E.toNat = 0 := rfl
  exact ⟨canonical_unrounded c h hlt, by omega, by omega⟩

/-- Bounds that fit the mantissa are decoded to what they were. -/
theorem toNat_getCapBounds_unrounded (c : Capability) {base : BitVec 64} {top : BitVec 128}
    (h : base.toNat ≤ top.toNat) (hlt : top.toNat - base.toNat < 2 ^ 12) :
    (c.unrounded base top).getBase.toNat = base.toNat ∧
    (c.unrounded base top).getTop.toNat = top.toNat := by
  have hE : (c.unrounded base top).E.toNat = 0 := rfl
  have hproper := proper_unrounded c h hlt
  have hexp : (c.unrounded base top).exponent = 0 := hproper.exponent_eq
  have hcur : (c.unrounded base top).cursor = base.toNat := by
    rw [cursor, hexp, Nat.pow_zero, Nat.div_one]
    rfl
  have hB : (c.unrounded base top).B.toNat = base.toNat % 2 ^ 14 := by
    simp only [unrounded, BitVec.toNat_setWidth]
  have hb := (c.unrounded base top).toNat_baseWord
  rw [hcur, hexp, position_base hB.symm le_rfl (by omega)] at hb
  have hbase : (c.unrounded base top).getBase.toNat = base.toNat := by
    have hlt := base.isLt
    rw [getBase_eq]
    omega
  refine ⟨hbase, ?_⟩
  rw [hproper.toNat_getTop, hbase, hE, mantissaLen_unrounded c h hlt]
  omega

/-! ### Part of a range -/

/-- The exponent for a part of a range whose ends are multiples of `2 ^ (P + 3)` is at most `P`. -/
theorem roundedExponent_le_parent {base : BitVec 64} {top : BitVec 128} {e P b t : ℕ} (he : e ≤ 52)
    (h : base.toNat ≤ top.toNat) (hlo : 2 ^ (e + 12) ≤ top.toNat - base.toNat)
    (hb : b ≤ base.toNat) (ht : top.toNat ≤ t) (hdb : 2 ^ (P + 3) ∣ b) (hdt : 2 ^ (P + 3) ∣ t)
    (hlen : t - b < 2 ^ (P + 13)) : roundedExponent base top e ≤ P := by
  have heP : e ≤ P := by
    have hlt : 2 ^ (e + 12) < 2 ^ (P + 13) := by omega
    have := (Nat.pow_lt_pow_iff_right (by omega : 1 < 2)).1 hlt
    omega
  by_cases heq : e = P
  · -- with the parent's own exponent both ends are rounded within the parent's
    subst heq
    have hpos := Nat.two_pow_pos (e + 3)
    have hle := div_le_ceilDiv hpos h
    have h1 := le_div_mul hdb hb
    have h2 := ceilDiv_mul_le hpos hdt ht
    have hlt : roundedLen base top e < 2 ^ 10 := by
      have hmul : roundedLen base top e * 2 ^ (e + 3) < 2 ^ 10 * 2 ^ (e + 3) := by
        rw [← Nat.pow_add, show 10 + (e + 3) = e + 13 by omega]
        unfold roundedLen
        rw [Nat.sub_mul]
        omega
      exact Nat.lt_of_mul_lt_mul_right hmul
    unfold roundedExponent
    rw [lengthGrows_eq he h (by omega), decide_eq_false (by omega), if_neg (by decide)]
  · unfold roundedExponent
    split <;> omega

/-- **Setting bounds within a proper capability** gives a proper capability with bounds within it. -/
theorem Proper.setCapBounds {c : Capability} (hc : c.Proper) (d : Capability) {base : BitVec 64}
    {top : BitVec 128} (h : base.toNat ≤ top.toNat) (hlen : top.toNat - base.toNat < 2 ^ 64)
    (hb : c.getBase.toNat ≤ base.toNat) (ht : top.toNat ≤ c.getTop.toNat) :
    (d.setCapBounds base top).1.Proper ∧
    c.getBase.toNat ≤ (d.setCapBounds base top).1.getBase.toNat ∧
    (d.setCapBounds base top).1.getTop.toNat ≤ c.getTop.toNat := by
  have hctop := hc.toNat_getTop
  rcases setCapBounds_cases d h (by omega) with ⟨hlt, heq⟩ | ⟨e, he, hlo, hhi, heq⟩
  · -- a short length is not rounded
    rw [heq]
    obtain ⟨h1, h2⟩ := toNat_getCapBounds_unrounded d h hlt
    exact ⟨proper_unrounded d h hlt, hb.trans h1.ge, h2.le.trans ht⟩
  · rw [heq]
    have hie : c.internalE = true := by
      cases hie : c.internalE with
      | false =>
        have h0 : c.E.toNat = 0 := by rw [hc.canonical.exponent hie]; rfl
        have hs := hc.canonical.short hie
        have hp := Nat.pow_le_pow_right (n := 2) (by omega) (by omega : 12 ≤ e + 12)
        rw [h0, Nat.pow_zero, Nat.mul_one] at hctop
        omega
      | true => rfl
    obtain ⟨hdb, hdt⟩ := hc.two_pow_dvd hie
    have hspan : c.getTop.toNat - c.getBase.toNat < 2 ^ (c.E.toNat + 13) := by
      rw [hctop, Nat.add_sub_cancel_left, Nat.add_comm, Nat.pow_add]
      exact Nat.mul_lt_mul_of_pos_right (hc.canonical.second hie).2 (Nat.two_pow_pos _)
    -- the exponent is not above that of the parent, so what is rounded stays on its grid
    have hE := roundedExponent_le_parent he h hlo hb ht hdb hdt hspan
    have hE52 := hc.exponent_le
    obtain ⟨hl1, hl2⟩ := roundedLen_bounds he h hlo hhi
    have hwide : 51 ≤ roundedExponent base top e → top.toNat ≤ 2 ^ 64 := by
      intro h51
      obtain ⟨-, hT⟩ := hc.wide (by omega)
      obtain ⟨-, ht'⟩ := toNat_getCapBounds_wide (c := c) (by rw [hc.exponent_eq]; omega)
      rw [hc.exponent_eq] at ht'
      omega
    have hdvd : 2 ^ (roundedExponent base top e + 3) ∣ 2 ^ (c.E.toNat + 3) :=
      Nat.pow_dvd_pow 2 (by omega)
    refine ⟨proper_rounded d (by omega) h hl1 hl2 hwide, ?_, ?_⟩
    · rw [toNat_getBase_rounded d (by omega)]
      exact le_div_mul (hdvd.trans hdb) hb
    · rw [toNat_getTop_rounded d (by omega) h hl1 hl2 hwide]
      exact ceilDiv_mul_le (Nat.two_pow_pos _) (hdvd.trans hdt) ht

end Capability

/-! ### Deriving capabilities -/

open Capability

/-- The instructions that set bounds, by their operand. -/
inductive SetBoundsOp
  | setBounds (rs2 : BitVec 64)
  | setBoundsExact (rs2 : BitVec 64)
  | setBoundsImm (imm : BitVec 12)
  deriving DecidableEq, Repr

/-- The result of an instruction that sets bounds. -/
def SetBoundsOp.apply : SetBoundsOp → Capability → Capability
  | .setBounds rs2, c => cSetBounds c rs2
  | .setBoundsExact rs2, c => cSetBoundsExact c rs2
  | .setBoundsImm imm, c => cSetBoundsImm c imm

/-- The capabilities derived from `cDefaultCap`, keeping tagged results only. -/
inductive Derived : Capability → Prop
  | cDefaultCap : Derived cDefaultCap
  | setBounds {c : Capability} (op : SetBoundsOp) (htag : (op.apply c).tag = true) :
      Derived c → Derived (op.apply c)
  | incOffset {c : Capability} (delta : BitVec 64) (htag : (cIncOffset c delta).tag = true) :
      Derived c → Derived (cIncOffset c delta)
  | incOffsetImm {c : Capability} (imm : BitVec 12) (htag : (cIncOffsetImm c imm).tag = true) :
      Derived c → Derived (cIncOffsetImm c imm)
  | setOffset {c : Capability} (rs2 : BitVec 64) (htag : (cSetOffset c rs2).tag = true) :
      Derived c → Derived (cSetOffset c rs2)
  | setAddr {c : Capability} (rs2 : BitVec 64) (htag : (cSetAddr c rs2).tag = true) :
      Derived c → Derived (cSetAddr c rs2)
  | andPerm {c : Capability} (rs2 : BitVec 64) (htag : (cAndPerm c rs2).tag = true) :
      Derived c → Derived (cAndPerm c rs2)
  | setFlags {c : Capability} (rs2 : BitVec 64) (htag : (cSetFlags c rs2).tag = true) :
      Derived c → Derived (cSetFlags c rs2)

/-- What an in-bounds test says about the range that is asked for. -/
theorem Capability.inCapBounds_iff (c : Capability) (addr size : BitVec 64) :
    c.inCapBounds addr size = true ↔
      c.getBase.toNat ≤ addr.toNat ∧ addr.toNat + size.toNat ≤ c.getTop.toNat := by
  have ha := addr.isLt
  have hs := size.isLt
  unfold inCapBounds
  rw [decide_eq_true_iff, BitVec.le_def, BitVec.le_def, BitVec.toNat_add, BitVec.toNat_setWidth,
    BitVec.toNat_setWidth]
  omega

/-- A tag that is left was not to be cleared. -/
theorem Capability.of_clearTagIf_tag {c : Capability} {cond : Bool}
    (h : (c.clearTagIf cond).tag = true) : c.tag = true ∧ cond = false := by
  simpa [clearTagIf] using h

theorem Capability.getBase_clearTagIf (c : Capability) (cond : Bool) :
    (c.clearTagIf cond).getBase = c.getBase := rfl

theorem Capability.getTop_clearTagIf (c : Capability) (cond : Bool) :
    (c.clearTagIf cond).getTop = c.getTop := rfl

/-- The tag does not matter to the bounds. -/
theorem Capability.Proper.clearTagIf {c : Capability} (h : c.Proper) (cond : Bool) :
    (c.clearTagIf cond).Proper := h.congr rfl rfl rfl rfl

/-- Setting the bounds of a proper capability to a range that is within them. -/
theorem Capability.Proper.setRange {c : Capability} (hc : c.Proper) {rs2 : BitVec 64}
    (hin : c.inCapBounds c.address rs2 = true) (cond : Bool) {d : Capability}
    (hd : d = (c.clearTagIfSealed.setCapBounds c.address
      (c.address.setWidth 128 + rs2.setWidth 128)).1.clearTagIf cond) :
    d.Proper ∧ c.getBase.toNat ≤ d.getBase.toNat ∧ d.getTop.toNat ≤ c.getTop.toNat := by
  have ha := c.address.isLt
  have hs := rs2.isLt
  obtain ⟨h1, h2⟩ := (c.inCapBounds_iff _ _).1 hin
  have htop : (c.address.setWidth 128 + rs2.setWidth 128 : BitVec 128).toNat
      = c.address.toNat + rs2.toNat := by
    rw [BitVec.toNat_add, BitVec.toNat_setWidth, BitVec.toNat_setWidth]
    omega
  obtain ⟨hp, hb, ht⟩ := @Proper.setCapBounds _ hc c.clearTagIfSealed c.address
    (c.address.setWidth 128 + rs2.setWidth 128) (by omega) (by omega) h1 (by omega)
  rw [hd, getBase_clearTagIf, getTop_clearTagIf]
  exact ⟨hp.clearTagIf cond, hb, ht⟩

/-- A tagged result of an instruction that sets bounds, from a proper capability. -/
theorem SetBoundsOp.apply_spec (op : SetBoundsOp) {c : Capability} (hc : c.Proper)
    (htag : (op.apply c).tag = true) :
    (op.apply c).Proper ∧ c.getBase.toNat ≤ (op.apply c).getBase.toNat ∧
      (op.apply c).getTop.toNat ≤ c.getTop.toNat := by
  cases op with
  | setBounds rs2 =>
    have hin := (of_clearTagIf_tag htag).2
    exact hc.setRange (by simpa using hin) _ rfl
  | setBoundsExact rs2 =>
    have hin := (of_clearTagIf_tag htag).2
    rw [Bool.not_eq_false', Bool.and_eq_true] at hin
    exact hc.setRange hin.1 _ rfl
  | setBoundsImm imm =>
    have hin := (of_clearTagIf_tag htag).2
    exact hc.setRange (by simpa using hin) _ rfl

/-- Every derived capability is proper, by induction on the operations that it was derived with. -/
theorem Derived.proper {c : Capability} (h : Derived c) : c.Proper := by
  induction h with
  | cDefaultCap =>
    refine ⟨⟨nofun, nofun, fun _ => ?_, fun _ => ?_⟩, ?_, fun _ => ?_⟩ <;> decide
  | setBounds op htag _ ih => exact (op.apply_spec ih htag).1
  | incOffset delta _ _ ih => exact ih.congr rfl rfl rfl rfl
  | incOffsetImm imm _ _ ih => exact ih.congr rfl rfl rfl rfl
  | setOffset rs2 _ _ ih => exact ih.congr rfl rfl rfl rfl
  | setAddr rs2 _ _ ih => exact ih.congr rfl rfl rfl rfl
  | andPerm rs2 _ _ ih => exact ih.congr rfl rfl rfl rfl
  | setFlags rs2 _ _ ih => exact ih.congr rfl rfl rfl rfl

/-- **Setting bounds is monotone**: the bounds of a tagged result, as they are decoded after rounding,
lie within the bounds of the derived capability it was made from. -/
theorem setBounds_monotone {c : Capability} (h : Derived c) (op : SetBoundsOp)
    (htag : (op.apply c).tag = true) :
    c.getBase.toNat ≤ (op.apply c).getBase.toNat ∧ (op.apply c).getTop.toNat ≤ c.getTop.toNat :=
  (op.apply_spec h.proper htag).2

/-- A range with odd ends, taken from a range that was itself rounded. -/
theorem setBounds_monotone_nested :
    let c := cIncOffset (cSetBounds (cSetAddr cDefaultCap 0x12345) 0x800001) 0x4321
    let d := cSetBounds c 0x7FAAAA
    (d.tag = true ∧ d.getTop.toNat ≠ 0x16666 + 0x7FAAAA) ∧
      c.getBase.toNat ≤ d.getBase.toNat ∧ d.getTop.toNat ≤ c.getTop.toNat :=
  ⟨by decide, setBounds_monotone (.incOffset _ (by decide) (.setBounds
    (.setBounds 0x800001) (by decide) (.setAddr _ (by decide) .cDefaultCap)))
    (.setBounds 0x7FAAAA) (by decide)⟩

end RiscvVp
