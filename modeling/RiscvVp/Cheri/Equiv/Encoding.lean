import RiscvVp.Cheri.Capability
import RiscvVp.Lib.BitField

/-!
# The 128-bit format of a capability

The format drops the two top bits of `T` and, with an internal exponent, lends the three low bits of
`T` and of `B` to `E`.  What is dropped can be put back exactly for a `Canonical` capability: the
length of its mantissa says which quarter of the range the top lies in.  Every decoded capability is
canonical, and every operation on capabilities keeps it so.
-/

namespace RiscvVp

open BitField

/-! ### Packing the fields -/

/-- The word of an encoded capability, field by field. -/
theorem toNat_encCapToUint128 (c : EncCapability) :
    (encCapToUint128 c).toNat = c.address.toNat + c.B.toNat * 2 ^ 64 + c.T.toNat * 2 ^ 78
      + c.internalE.toNat * 2 ^ 90 + c.otype.toNat * 2 ^ 91 + c.flags.toNat * 2 ^ 109
      + c.reserved.toNat * 2 ^ 110 + c.perms.toNat * 2 ^ 112 := by
  have h1 := c.address.isLt
  have h2 := c.B.isLt
  have h3 := c.T.isLt
  have h4 := c.internalE.toNat_lt
  have h5 := c.otype.isLt
  have h6 := c.flags.toNat_lt
  have h7 := c.reserved.isLt
  have s0 : (c.address.setWidth 128).toNat = c.address.toNat := by
    rw [BitVec.toNat_setWidth, Nat.mod_eq_of_lt (by omega)]
  have s1 := toNat_or_shiftLeft c.B s0 h1 (by omega)
  have s2 := toNat_or_shiftLeft c.T s1 (k := 78) (by omega) (by omega)
  have s3 := toNat_or_shiftLeft (BitVec.ofBool c.internalE) s2 (k := 90) (by omega) (by omega)
  rw [BitVec.toNat_ofBool] at s3
  have s4 := toNat_or_shiftLeft c.otype s3 (k := 91) (by omega) (by omega)
  have s5 := toNat_or_shiftLeft (BitVec.ofBool c.flags) s4 (k := 109) (by omega) (by omega)
  rw [BitVec.toNat_ofBool] at s5
  have s6 := toNat_or_shiftLeft c.reserved s5 (k := 110) (by omega) (by omega)
  exact toNat_or_shiftLeft c.perms s6 (by omega) (by omega)

/-- Packing a word's fields gives the word back. -/
theorem encCapToUint128_uint128ToEncCapability (w : BitVec 128) :
    encCapToUint128 (uint128ToEncCapability w) = w := by
  apply BitVec.eq_of_toNat_eq
  rw [toNat_encCapToUint128]
  simp only [uint128ToEncCapability, toNat_extractLsb', toNat_getLsbD]
  have hw := w.isLt
  omega

/-- Unpacking what was packed gives the fields back. -/
theorem uint128ToEncCapability_encCapToUint128 (c : EncCapability) :
    uint128ToEncCapability (encCapToUint128 c) = c := by
  have h := toNat_encCapToUint128 c
  have h1 := c.address.isLt
  have h2 := c.B.isLt
  have h3 := c.T.isLt
  have h4 := c.internalE.toNat_lt
  have h5 := c.otype.isLt
  have h6 := c.flags.toNat_lt
  have h7 := c.reserved.isLt
  have h8 := c.perms.isLt
  obtain ⟨perms, otype, reserved, flags, internalE, T, B, address⟩ := c
  generalize encCapToUint128 _ = w at h ⊢
  simp only at h h1 h2 h3 h4 h5 h6 h7 h8
  simp only [uint128ToEncCapability, EncCapability.mk.injEq, ← BitVec.toNat_inj,
    toNat_extractLsb']
  refine ⟨?_, ?_, ?_, getLsbD_eq_of_toNat ?_, getLsbD_eq_of_toNat ?_, ?_, ?_, ?_⟩
  all_goals
    try rw [toNat_extractLsb']
    rw [h]
    omega

/-! ### Dropping and restoring the top of the mantissa -/

namespace Capability

/-- The length of the mantissa. -/
def mantissaLen (c : Capability) : ℕ := (c.T - c.B).toNat

/-- The capabilities whose top can be restored from the encoded format: without an internal exponent
the length is below a quarter of the mantissa's range, and with one it is in the second quarter and
the bits lent to the exponent are zero. -/
structure Canonical (c : Capability) : Prop where
  exponent : c.internalE = false → c.E = 0
  short : c.internalE = false → c.mantissaLen < 2 ^ 12
  aligned : c.internalE = true → c.B.toNat % 8 = 0 ∧ c.T.toNat % 8 = 0
  second : c.internalE = true → 2 ^ 12 ≤ c.mantissaLen ∧ c.mantissaLen < 2 ^ 13

/-- The length of the mantissa in terms of its ends. -/
theorem mantissaLen_eq (c : Capability) :
    c.mantissaLen = (2 ^ 14 - c.B.toNat + c.T.toNat) % 2 ^ 14 := by
  rw [mantissaLen, BitVec.toNat_sub]

/-- The top that is restored from the base `B`, the low bits `T` and the two top bits `m` of the
length: it ends in `T`, and the length starts with `m`. -/
theorem toNat_restoredTop (B : BitVec 14) (T : BitVec 12) (m : BitVec 2) {T' : BitVec 14}
    (hT' : T' = (B.extractLsb' 12 2 + m
      + (BitVec.ofBool (T < B.extractLsb' 0 12)).setWidth 2) ++ T) :
    T'.toNat % 2 ^ 12 = T.toNat ∧ (T' - B).toNat / 2 ^ 12 = m.toNat := by
  have hB := B.isLt
  have hT := T.isLt
  have hm := m.isLt
  have hn := congrArg BitVec.toNat hT'
  rw [toNat_append, BitVec.toNat_add, BitVec.toNat_add, toNat_extractLsb', BitVec.toNat_setWidth,
    BitVec.toNat_ofBool] at hn
  rw [BitVec.toNat_sub]
  by_cases hc : T < B.extractLsb' 0 12
  · rw [decide_eq_true hc, Bool.toNat_true] at hn
    rw [BitVec.lt_def, toNat_extractLsb'] at hc
    omega
  · rw [decide_eq_false hc, Bool.toNat_false] at hn
    rw [BitVec.lt_def, toNat_extractLsb'] at hc
    omega

/-- The mantissa of a decoded capability.  With an internal exponent the three low bits of both fields
belong to the exponent and read as zero. -/
theorem toCapability_mantissa (c : EncCapability) (tag : Bool) :
    (c.toCapability tag).B.toNat = (if c.internalE then c.B.toNat / 8 * 8 else c.B.toNat) ∧
    (c.toCapability tag).T.toNat % 2 ^ 12
      = (if c.internalE then c.T.toNat / 8 * 8 else c.T.toNat) ∧
    (c.toCapability tag).mantissaLen / 2 ^ 12 = c.internalE.toNat := by
  cases hie : c.internalE with
  | false =>
    have hB : (c.toCapability tag).B = c.B := by simp [EncCapability.toCapability, hie]
    obtain ⟨hT, hlen⟩ := @toNat_restoredTop c.B c.T 0 (c.toCapability tag).T
      (by simp [EncCapability.toCapability, hie])
    refine ⟨by rw [hB]; rfl, hT, ?_⟩
    rw [mantissaLen, hB]
    exact hlen
  | true =>
    have hB : (c.toCapability tag).B = c.B &&& ~~~7#14 := by simp [EncCapability.toCapability, hie]
    obtain ⟨hT, hlen⟩ := @toNat_restoredTop (c.B &&& ~~~7#14) (c.T &&& ~~~7#12) 1
      (c.toCapability tag).T (by simp [EncCapability.toCapability, hie])
    refine ⟨?_, ?_, ?_⟩
    · rw [hB]
      exact toNat_and_not_ones c.B 3
    · rw [hT]
      exact toNat_and_not_ones c.T 3
    · rw [mantissaLen, hB]
      exact hlen

/-- A decoded capability is canonical, whatever the 128 bits it was decoded from. -/
theorem canonical_toCapability (c : EncCapability) (tag : Bool) :
    (c.toCapability tag).Canonical := by
  obtain ⟨hB, hT, hlen⟩ := toCapability_mantissa c tag
  have hie : (c.toCapability tag).internalE = c.internalE := rfl
  refine ⟨fun h => ?_, fun h => ?_, fun h => ?_, fun h => ?_⟩
  all_goals rw [hie] at h
  · simp [EncCapability.toCapability, h]
  · rw [h, Bool.toNat_false] at hlen
    omega
  · rw [h, if_pos rfl] at hB hT
    omega
  · rw [h, Bool.toNat_true] at hlen
    omega

/-- The hard permissions of a decoded capability are the low bits of the encoded permissions. -/
theorem getCapHardPerms_toCapability (c : EncCapability) (tag : Bool) :
    (c.toCapability tag).getCapHardPerms = c.perms.extractLsb' 0 12 := by
  have h11 : BitVec.ofBool (c.perms.getLsbD 11) = c.perms.extractLsb' 11 1 := by
    apply BitVec.eq_of_toNat_eq
    rw [BitVec.toNat_ofBool, toNat_getLsbD, toNat_extractLsb', Nat.pow_one]
  simp only [EncCapability.toCapability, getCapHardPerms]
  rw [h11]
  iterate 11 rw [extractLsb'_append_ofBool]

/-- The user permissions and the hard permissions are the encoded permissions. -/
theorem append_extractLsb'_perms (p : BitVec 16) : p.extractLsb' 12 4 ++ p.extractLsb' 0 12 = p := by
  have hp := p.isLt
  apply BitVec.eq_of_toNat_eq
  rw [toNat_append, toNat_extractLsb', toNat_extractLsb']
  omega

/-- Each hard permission is a bit of `getCapHardPerms`. -/
theorem getLsbD_getCapHardPerms (c : Capability) :
    c.getCapHardPerms.getLsbD 11 = c.permitSetCID ∧
    c.getCapHardPerms.getLsbD 10 = c.accessSystemRegs ∧
    c.getCapHardPerms.getLsbD 9 = c.permitUnseal ∧
    c.getCapHardPerms.getLsbD 8 = c.permitCinvoke ∧
    c.getCapHardPerms.getLsbD 7 = c.permitSeal ∧
    c.getCapHardPerms.getLsbD 6 = c.permitStoreLocalCap ∧
    c.getCapHardPerms.getLsbD 5 = c.permitStoreCap ∧
    c.getCapHardPerms.getLsbD 4 = c.permitLoadCap ∧
    c.getCapHardPerms.getLsbD 3 = c.permitStore ∧
    c.getCapHardPerms.getLsbD 2 = c.permitLoad ∧
    c.getCapHardPerms.getLsbD 1 = c.permitExecute ∧
    c.getCapHardPerms.getLsbD 0 = c.global := by
  unfold getCapHardPerms
  simp only [BitVec.getLsbD_append, BitVec.getLsbD_ofBool]
  simp

/-- The mantissa of an encoded capability: the exponent, if it is internal, stands in the three low bits of
both fields. -/
theorem toEncCap_mantissa (c : Capability) :
    c.toEncCap.T.toNat = c.T.toNat / 8 % 2 ^ 9 * 8
      + (if c.internalE then c.E.toNat / 8 else c.T.toNat % 8) ∧
    c.toEncCap.B.toNat = c.B.toNat / 8 * 8
      + (if c.internalE then c.E.toNat % 8 else c.B.toNat % 8) := by
  have hB := c.B.isLt
  have hE := c.E.isLt
  simp only [toEncCap]
  rw [toNat_append, toNat_append, toNat_extractLsb', toNat_extractLsb']
  cases c.internalE with
  | false =>
    simp only [Bool.false_eq_true, ↓reduceIte]
    rw [toNat_extractLsb', toNat_extractLsb']
    omega
  | true =>
    simp only [↓reduceIte]
    rw [toNat_extractLsb', toNat_extractLsb']
    omega

/-- The exponent of a decoded capability, put together from the three low bits of both fields. -/
theorem toNat_toCapability_E (c : EncCapability) (tag : Bool) :
    (c.toCapability tag).E.toNat
      = if c.internalE then c.T.toNat % 8 * 8 + c.B.toNat % 8 else 0 := by
  unfold EncCapability.toCapability
  cases c.internalE with
  | false => rfl
  | true =>
    simp only [↓reduceIte]
    rw [toNat_append, toNat_extractLsb', toNat_extractLsb']
    omega

/-- Decoding and encoding gives an encoded capability back. -/
theorem toEncCap_toCapability (c : EncCapability) (tag : Bool) :
    (c.toCapability tag).toEncCap = c := by
  obtain ⟨hB, hT, -⟩ := toCapability_mantissa c tag
  obtain ⟨hT', hB'⟩ := toEncCap_mantissa (c.toCapability tag)
  have hE := toNat_toCapability_E c tag
  have hBlt := c.B.isLt
  have hTlt := c.T.isLt
  have hie : (c.toCapability tag).internalE = c.internalE := rfl
  rw [hie] at hT' hB'
  apply EncCapability.ext
  · simp only [toEncCap]
    rw [getCapHardPerms_toCapability]
    exact append_extractLsb'_perms c.perms
  · rfl
  · rfl
  · rfl
  · rfl
  · apply BitVec.eq_of_toNat_eq
    split_ifs at hB hT hT' hB' hE <;> omega
  · apply BitVec.eq_of_toNat_eq
    split_ifs at hB hT hT' hB' hE <;> omega
  · rfl

/-- The mantissa and the exponent of a canonical capability survive the encoding. -/
theorem toCapability_toEncCap_mantissa {c : Capability} (h : c.Canonical) :
    (c.toEncCap.toCapability c.tag).E.toNat = c.E.toNat ∧
    (c.toEncCap.toCapability c.tag).B.toNat = c.B.toNat ∧
    (c.toEncCap.toCapability c.tag).T.toNat = c.T.toNat := by
  obtain ⟨hB, hT, hlen⟩ := toCapability_mantissa c.toEncCap c.tag
  obtain ⟨hT', hB'⟩ := toEncCap_mantissa c
  have hE := toNat_toCapability_E c.toEncCap c.tag
  have hBlt := c.B.isLt
  have hTlt := c.T.isLt
  have hElt := c.E.isLt
  have hclen := c.mantissaLen_eq
  have hTlt' := (c.toEncCap.toCapability c.tag).T.isLt
  have hie : c.toEncCap.internalE = c.internalE := rfl
  rw [mantissaLen_eq] at hlen
  rw [hie] at hB hT hE hlen
  -- the two tops agree below, and their lengths lie in the same quarter
  cases hci : c.internalE with
  | false =>
    have h1 : c.E.toNat = 0 := by rw [h.exponent hci]; rfl
    have h2 := h.short hci
    simp only [hci, Bool.false_eq_true, ↓reduceIte, Bool.toNat_false] at hB hT hE hlen hT' hB'
    omega
  | true =>
    have h1 := h.aligned hci
    have h2 := h.second hci
    simp only [hci, ↓reduceIte, Bool.toNat_true] at hB hT hE hlen hT' hB'
    omega

/-- The permissions survive the encoding, the software-defined ones and the twelve of the hardware. -/
theorem perms_toEncCap (c : Capability) :
    c.toEncCap.perms.extractLsb' 12 4 = c.uperms ∧
    ∀ i < 12, c.toEncCap.perms.getLsbD i = c.getCapHardPerms.getLsbD i := by
  constructor
  · have h := c.getCapHardPerms.isLt
    have hu := c.uperms.isLt
    apply BitVec.eq_of_toNat_eq
    simp only [toEncCap]
    rw [toNat_extractLsb', toNat_append]
    omega
  · intro i hi
    simp only [toEncCap]
    rw [BitVec.getLsbD_append, if_pos hi]

/-- Encoding and decoding gives a canonical capability back. -/
theorem toCapability_toEncCap {c : Capability} (h : c.Canonical) :
    c.toEncCap.toCapability c.tag = c := by
  obtain ⟨hE, hB, hT⟩ := toCapability_toEncCap_mantissa h
  obtain ⟨hu, hp⟩ := c.perms_toEncCap
  obtain ⟨h11, h10, h9, h8, h7, h6, h5, h4, h3, h2, h1, h0⟩ := c.getLsbD_getCapHardPerms
  refine Capability.ext hu ?_ ?_ ?_ ?_ ?_ ?_ ?_ ?_ ?_ ?_ ?_ ?_ rfl rfl rfl
    (BitVec.eq_of_toNat_eq hE) (BitVec.eq_of_toNat_eq hB) (BitVec.eq_of_toNat_eq hT) rfl rfl rfl
  · exact (hp 11 (by omega)).trans h11
  · exact (hp 10 (by omega)).trans h10
  · exact (hp 9 (by omega)).trans h9
  · exact (hp 8 (by omega)).trans h8
  · exact (hp 7 (by omega)).trans h7
  · exact (hp 6 (by omega)).trans h6
  · exact (hp 5 (by omega)).trans h5
  · exact (hp 4 (by omega)).trans h4
  · exact (hp 3 (by omega)).trans h3
  · exact (hp 2 (by omega)).trans h2
  · exact (hp 1 (by omega)).trans h1
  · exact (hp 0 (by omega)).trans h0

/-! ### Words and capabilities -/

/-- A word survives being read as a capability. -/
theorem toUint128_ofUint128 (w : BitVec 128) (tag : Bool) : (ofUint128 w tag).toUint128 = w := by
  rw [toUint128, ofUint128, toEncCap_toCapability, encCapToUint128_uint128ToEncCapability,
    BitVec.xor_assoc, BitVec.xor_self, BitVec.xor_zero]

/-- A canonical capability survives being stored as a word. -/
theorem ofUint128_toUint128 {c : Capability} (h : c.Canonical) : ofUint128 c.toUint128 c.tag = c := by
  rw [toUint128, ofUint128, BitVec.xor_assoc, BitVec.xor_self, BitVec.xor_zero,
    uint128ToEncCapability_encCapToUint128, toCapability_toEncCap h]

end Capability

end RiscvVp
