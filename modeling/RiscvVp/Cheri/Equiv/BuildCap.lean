import RiscvVp.Cheri.Instr
import RiscvVp.Cheri.Equiv.Canonical

/-!
# Building capabilities

`C_BUILD_CAP` gives a tag to a pattern that the authority could have been narrowed to.  Its assertion
that such a pattern has exact bounds never fails (`exact_of_derivable`).  Its test of the permissions
takes a logical conjunction for a bitwise one, so the tag is right exactly when the two tests agree
(`buildCap_iff`).
-/

namespace RiscvVp

open BitField Rounding Capability

/-! ### What the instruction is for -/

/-- The fields of the request are those of the authority given the bounds, the offset, the
permissions and the flags of the request, and sealed as a sentry when the request is one. -/
def Derivable (authority requested : Capability) : Prop :=
  { (buildCapRebuild authority requested).1 with tag := true } = requested

/-- The bounds of the request lie within the bounds of the authority, in order. -/
def BoundsWithin (authority requested : Capability) : Prop :=
  authority.getBase ≤ requested.getBase ∧ requested.getTop ≤ authority.getTop ∧
    requested.getBase.setWidth 128 ≤ requested.getTop

/-- The permissions of the request are among those of the authority. -/
def PermsWithin (authority requested : Capability) : Prop :=
  requested.getCapPerms &&& authority.getCapPerms = requested.getCapPerms

/-- What is asked of a result of `C_BUILD_CAP`: there is one, it is tagged exactly when the authority
allows the request, and then it has what was asked for. -/
structure BuildCapRight (authority requested : Capability) (result : Option Capability) : Prop where
  asserted : result ≠ none
  tagged_iff : ∀ d, result = some d →
    (d.tag = true ↔ authority.tag = true ∧ authority.isSealed = false ∧
      BoundsWithin authority requested ∧ PermsWithin authority requested ∧
      Derivable authority requested)
  granted : ∀ d, result = some d → d.tag = true →
    d.getCapBounds = requested.getCapBounds ∧ d.getCapPerms = requested.getCapPerms ∧
      d.getFlags = requested.getFlags

/-! ### The assertion -/

/-- The mantissa and the exponent of the rebuilt authority are those that setting the bounds gave. -/
theorem buildCapRebuild_mantissa (a q : Capability) :
    let r := a.clearTagIfSealed.setCapBounds q.getBase q.getTop
    (buildCapRebuild a q).1.internalE = r.1.internalE ∧ (buildCapRebuild a q).1.E = r.1.E ∧
    (buildCapRebuild a q).1.B = r.1.B ∧ (buildCapRebuild a q).1.T = r.1.T ∧
    (buildCapRebuild a q).2 = r.2 := by
  unfold buildCapRebuild
  generalize a.clearTagIfSealed.setCapBounds q.getBase q.getTop = r
  dsimp only
  split <;> exact ⟨rfl, rfl, rfl, rfl, rfl⟩

/-- No pattern with the exponent `53` is rebuilt to itself: it is decoded with the exponent `52`. -/
theorem not_rebuilt_53 {q : Capability} (hq : q.Canonical) (hie : q.internalE = true)
    (hE : q.E.toNat = 53) (hB : q.B.toNat = q.getBase.toNat / 2 ^ 56 * 8 % 2 ^ 14)
    (hT : q.T.toNat = q.getTop.toNat ⌈/⌉ 2 ^ 56 * 8 % 2 ^ 14) : False := by
  have hexp : q.exponent = 52 := by
    rw [exponent, hE]
    rfl
  obtain ⟨hb, ht⟩ := toNat_getCapBounds_wide (c := q) (by omega)
  have hlen := (hq.second hie).1
  have hm := q.mantissaLen_eq
  have hBlt := q.B.isLt
  have hTlt := q.T.isLt
  rw [hexp] at hb ht
  rw [Nat.ceilDiv_eq_add_pred_div] at hT
  omega

/-- **The bounds of a derivable request are exact**, for every pattern. -/
theorem exact_of_derivable (a : Capability) {q : Capability} (hq : q.Canonical)
    (hie : (buildCapRebuild a q).1.internalE = q.internalE)
    (hE : (buildCapRebuild a q).1.E = q.E) (hB : (buildCapRebuild a q).1.B = q.B)
    (hT : (buildCapRebuild a q).1.T = q.T) : (buildCapRebuild a q).2 = true := by
  obtain ⟨rie, rE, rB, rT, rexact⟩ := buildCapRebuild_mantissa a q
  rw [rie] at hie
  rw [rE] at hE
  rw [rB] at hB
  rw [rT] at hT
  rw [rexact]
  generalize a.clearTagIfSealed = a' at *
  by_cases hlong : boundsExponent (q.getTop - q.getBase.setWidth 128) ≠ 0 ∨
      (q.getTop - q.getBase.setWidth 128).getLsbD 12 = true
  · have hle := boundsExponent_le (q.getTop - q.getBase.setWidth 128)
    rw [setCapBounds_of_ie a' rfl hlong] at hie hE hB hT ⊢
    generalize boundsExponent (q.getTop - q.getBase.setWidth 128) = e at *
    have hE53 : roundedExponent q.getBase q.getTop e ≤ 53 := by
      unfold roundedExponent
      split <;> omega
    have hE' : q.E.toNat = roundedExponent q.getBase q.getTop e := by
      rw [← hE]
      simp only [rounded, BitVec.toNat_ofNat]
      omega
    have hie' : q.internalE = true := hie.symm
    have hB' := congrArg BitVec.toNat hB
    have hT' := congrArg BitVec.toNat hT
    simp only [rounded, BitVec.toNat_ofNat] at hB' hT'
    by_cases h53 : roundedExponent q.getBase q.getTop e = 53
    · rw [h53] at hB' hT' hE'
      exact (not_rebuilt_53 hq hie' hE' hB'.symm hT'.symm).elim
    · have hexp : q.exponent = roundedExponent q.getBase q.getTop e := by
        rw [exponent, hE']
        exact Nat.min_eq_right (by simp only [cCapMaxE, cCapLenWidth, cCapMantissaWidth]; omega)
      obtain ⟨hB8, hT8⟩ := hq.aligned hie'
      rw [← hexp]
      exact decide_eq_true ⟨two_pow_dvd_getBase hB8, two_pow_dvd_getTop hT8⟩
  · rw [not_or, not_not, Bool.not_eq_true] at hlong
    rw [setCapBounds_of_not_ie a' hlong.1 hlong.2]

/-! ### The tag -/

/-- Setting bounds keeps the tag: `setCapBounds` itself never takes it away, its callers do. -/
theorem Capability.tag_setCapBounds (c : Capability) (base : BitVec 64) (top : BitVec 128) :
    (c.setCapBounds base top).1.tag = c.tag := by
  unfold setCapBounds
  dsimp only
  split
  · split <;> rfl
  · rfl

/-- The rebuilt authority is tagged when the authority is tagged and unsealed. -/
theorem tag_buildCapRebuild (a q : Capability) :
    (buildCapRebuild a q).1.tag = (a.tag && !a.isSealed) := by
  have h := a.clearTagIfSealed.tag_setCapBounds q.getBase q.getTop
  unfold buildCapRebuild
  generalize a.clearTagIfSealed.setCapBounds q.getBase q.getTop = r at *
  dsimp only
  split <;> exact h

/-- Setting a tag that is set changes nothing, which is where a request that is allowed ends. -/
theorem Capability.setTag_of_tag {c : Capability} (h : c.tag = true) : { c with tag := true } = c := by
  rw [← h]

/-- The comparison of the source: the request is derivable from a tagged, unsealed authority. -/
theorem buildCapRebuild_eq_iff {a q : Capability} (hq : q.tag = true) :
    (buildCapRebuild a q).1 = q ↔ a.tag = true ∧ a.isSealed = false ∧ Derivable a q := by
  have htag := tag_buildCapRebuild a q
  unfold Derivable
  constructor
  · intro h
    rw [h, hq, eq_comm, Bool.and_eq_true, Bool.not_eq_true'] at htag
    refine ⟨htag.1, htag.2, ?_⟩
    rw [h, ← hq]
  · rintro ⟨h1, h2, h3⟩
    rw [h1, h2] at htag
    exact (setTag_of_tag htag).symm.trans h3

/-- The test of the permissions as the source makes it: it succeeds only for a request with no
permission at all, or with the first one alone. -/
theorem bothPerms_eq_iff (rp ap : BitVec 32) :
    (if rp ≠ 0 ∧ ap ≠ 0 then 1 else 0) = rp ↔ rp = 0 ∨ (rp = 1 ∧ ap ≠ 0) := by
  split
  · rename_i h
    constructor
    · intro h1
      exact Or.inr ⟨h1.symm, h.2⟩
    · rintro (h0 | h1)
      · exact (h.1 h0).elim
      · exact h1.1.symm
  · rename_i h
    constructor
    · intro h0
      exact Or.inl h0.symm
    · rintro (h0 | ⟨h1, h2⟩)
      · exact h0.symm
      · exact (h ⟨by rw [h1]; decide, h2⟩).elim

/-- `subset` of the source: bounds within, and permissions compared as numbers of one bit rather than as
sets. -/
theorem buildCapSubset_iff (a q : Capability) :
    buildCapSubset a q = true ↔ BoundsWithin a q ∧
      (q.getCapPerms = 0 ∨ (q.getCapPerms = 1 ∧ a.getCapPerms ≠ 0)) := by
  unfold buildCapSubset BoundsWithin
  dsimp only
  generalize a.getBase = ab, a.getTop = at', q.getBase = qb, q.getTop = qt
  generalize q.getCapPerms = rp, a.getCapPerms = ap
  simp only [Bool.and_eq_true, decide_eq_true_eq, bothPerms_eq_iff, and_assoc]

/-- The logical conjunction tells what the bitwise one would: the request has no permission, it has
the first one alone and the authority has that one or none, or it has others and is not within the
authority's. -/
def PermsAgree (authority requested : Capability) : Prop :=
  requested.getCapPerms = 0 ∨
  (requested.getCapPerms = 1 ∧
    (authority.getCapPerms = 0 ∨ authority.getCapPerms.getLsbD 0 = true)) ∨
  (requested.getCapPerms ≠ 1 ∧ ¬ PermsWithin authority requested)

/-- The first permission alone is within those of the authority when the authority has it. -/
theorem one_and_eq_iff (ap : BitVec 32) : 1 &&& ap = 1 ↔ ap.getLsbD 0 = true := by
  constructor
  · intro h
    have h0 := congrArg (fun x : BitVec 32 => x.getLsbD 0) h
    simpa using h0
  · intro h
    apply BitVec.eq_of_getLsbD_eq
    intro i hi
    rw [BitVec.getLsbD_and]
    by_cases hi0 : i = 0
    · rw [hi0, h, Bool.and_true]
    · have h1 : (1 : BitVec 32).getLsbD i = false := by
        simp [BitVec.getLsbD_one, hi0]
      rw [h1, Bool.false_and]

/-- When the two tests of the permissions agree. -/
theorem permsAgree_iff (a q : Capability) :
    PermsAgree a q ↔
      ((q.getCapPerms = 0 ∨ (q.getCapPerms = 1 ∧ a.getCapPerms ≠ 0)) ↔ PermsWithin a q) := by
  unfold PermsAgree PermsWithin
  by_cases h0 : q.getCapPerms = 0
  · simp [h0]
  · by_cases h1 : q.getCapPerms = 1
    · rw [h1]
      simp only [one_and_eq_iff]
      have h10 : (1 : BitVec 32) ≠ 0 := by decide
      by_cases ha : a.getCapPerms = 0
      · simp [ha]
      · simp only [ha, h10, false_or, true_and, ne_eq, not_true_eq_false, false_and, or_false,
          not_false_eq_true, true_iff]
    · simp only [h0, h1, false_or, false_and, ne_eq, not_false_eq_true, true_and, false_iff]

/-- The request is tagged, whatever the capability that it was made of. -/
theorem tag_buildCapRequest (c : Capability) : (buildCapRequest c).tag = true := by
  unfold buildCapRequest
  dsimp only
  split <;> rfl

/-- The request for a word is canonical. -/
theorem canonical_buildCapRequest (w : BitVec 128) (tag : Bool) :
    (buildCapRequest (ofUint128 w tag)).Canonical := by
  have h : (ofUint128 w tag).Canonical := canonical_toCapability _ tag
  unfold buildCapRequest
  dsimp only
  split <;> exact h.congr rfl rfl rfl rfl

/-- The result for a word, which always exists: the request when it is derivable from a tagged and
unsealed authority and passes the test of the source, and the untagged request otherwise. -/
theorem cBuildCap_eq (a : Capability) (w : BitVec 128) (tag : Bool) :
    cBuildCap a (ofUint128 w tag) =
      if buildCapSubset a (buildCapRequest (ofUint128 w tag)) = true ∧
          (buildCapRebuild a (buildCapRequest (ofUint128 w tag))).1
            = buildCapRequest (ofUint128 w tag) then
        some (buildCapRequest (ofUint128 w tag))
      else some (buildCapRequest (ofUint128 w tag)).clearTag := by
  have hcan := canonical_buildCapRequest w tag
  unfold cBuildCap
  dsimp only
  generalize buildCapRequest (ofUint128 w tag) = q at *
  by_cases hd : (buildCapRebuild a q).1 = q
  · have hexact : (buildCapRebuild a q).2 = true :=
      exact_of_derivable a hcan (by rw [hd]) (by rw [hd]) (by rw [hd]) (by rw [hd])
    rw [hexact, decide_eq_true hd, hd]
    simp
  · rw [decide_eq_false hd]
    simp [hd]

/-- A result that is the request, tagged under a condition, is right when the condition is. -/
theorem buildCapRight_ite_iff {a q : Capability} (htag : q.tag = true) (C : Prop) [Decidable C] :
    BuildCapRight a q (if C then some q else some q.clearTag) ↔
      (C ↔ a.tag = true ∧ a.isSealed = false ∧ BoundsWithin a q ∧ PermsWithin a q ∧
        Derivable a q) := by
  by_cases hC : C
  · rw [if_pos hC]
    constructor
    · intro h
      exact iff_of_true hC ((h.tagged_iff q rfl).1 htag)
    · intro h
      refine ⟨nofun, ?_, ?_⟩
      · rintro d ⟨⟩
        exact iff_of_true htag (h.1 hC)
      · rintro d ⟨⟩ -
        exact ⟨rfl, rfl, rfl⟩
  · rw [if_neg hC]
    constructor
    · intro h
      exact iff_of_false hC (mt (h.tagged_iff _ rfl).2 nofun)
    · intro h
      refine ⟨nofun, ?_, ?_⟩
      · rintro d ⟨⟩
        exact iff_of_false nofun (fun h' => hC (h.2 h'))
      · rintro d ⟨⟩ h'
        exact nomatch h'

/-- The condition under which the tag is right, from the test of the source. -/
theorem buildCapRight_cBuildCap_iff (a : Capability) (w : BitVec 128) (tag : Bool) :
    BuildCapRight a (buildCapRequest (ofUint128 w tag)) (cBuildCap a (ofUint128 w tag)) ↔
      (a.tag = true → a.isSealed = false →
        BoundsWithin a (buildCapRequest (ofUint128 w tag)) →
        Derivable a (buildCapRequest (ofUint128 w tag)) →
        PermsAgree a (buildCapRequest (ofUint128 w tag))) := by
  have htag := tag_buildCapRequest (ofUint128 w tag)
  rw [cBuildCap_eq]
  generalize buildCapRequest (ofUint128 w tag) = q at *
  rw [buildCapRight_ite_iff htag, buildCapSubset_iff, buildCapRebuild_eq_iff htag, permsAgree_iff]
  generalize (q.getCapPerms = 0 ∨ q.getCapPerms = 1 ∧ a.getCapPerms ≠ 0) = L
  generalize BoundsWithin a q = P1, PermsWithin a q = P2, Derivable a q = P3
  generalize (a.tag = true) = P4, (a.isSealed = false) = P5
  tauto

/-- **When `C_BUILD_CAP` does what it is for**: for every authority, in a register or the default data
capability, and every pattern, exactly when its test of the permissions agrees with the bitwise one,
unless the request is refused for another reason. -/
theorem buildCap_iff (ddc : Capability) (regs : BitVec 5 → Capability) (rs1 : BitVec 5)
    (w : BitVec 128) (tag : Bool) :
    let a := buildCapAuthority ddc regs rs1
    let q := buildCapRequest (ofUint128 w tag)
    BuildCapRight a q (cBuildCap a (ofUint128 w tag)) ↔
      (a.tag = true → a.isSealed = false → BoundsWithin a q → Derivable a q → PermsAgree a q) :=
  buildCapRight_cBuildCap_iff _ w tag

/-- A capability without the permission to be global, but with others, gives away a global one. -/
theorem not_buildCapRight_global :
    let a := cAndPerm cDefaultCap 0x78FFE
    let w := (cAndPerm cDefaultCap 1).toUint128
    ¬ BuildCapRight a (buildCapRequest (ofUint128 w false)) (cBuildCap a (ofUint128 w false)) := by
  intro a w h
  have hiff := h.tagged_iff (buildCapRequest (ofUint128 w false)) (by decide)
  have hperms := (hiff.1 (by decide)).2.2.2.1
  unfold PermsWithin at hperms
  revert hperms
  decide

end RiscvVp
