import RiscvVp.Cheri.Equiv.Bounds

/-!
# Storing and loading capabilities

The capabilities that can be obtained from decoded words by the setters are canonical, so storing one
as a word and its tag and reading it back is the identity (`encoding_roundTrip`).
-/

namespace RiscvVp

namespace Capability

/-- Only the mantissa and the exponent decide whether a capability is canonical. -/
theorem Canonical.congr {c c' : Capability} (h : c.Canonical) (hie : c'.internalE = c.internalE)
    (hE : c'.E = c.E) (hB : c'.B = c.B) (hT : c'.T = c.T) : c'.Canonical := by
  have hlen : c'.mantissaLen = c.mantissaLen := by rw [mantissaLen, mantissaLen, hB, hT]
  refine ⟨fun h0 => ?_, fun h0 => ?_, fun h0 => ?_, fun h0 => ?_⟩
  all_goals rw [hie] at h0
  · rw [hE]
    exact h.exponent h0
  · rw [hlen]
    exact h.short h0
  · rw [hB, hT]
    exact h.aligned h0
  · rw [hlen]
    exact h.second h0

/-- Rounded bounds are canonical: the mantissa of the length has its implied top bit and its low bits are
free. -/
theorem canonical_rounded (c : Capability) {base : BitVec 64} {top : BitVec 128} {E : ℕ}
    (h : base.toNat ≤ top.toNat) (hlo : 2 ^ 9 ≤ roundedLen base top E)
    (hhi : roundedLen base top E < 2 ^ 10) : (c.rounded base top E).Canonical := by
  have hlen := mantissaLen_rounded c h (E := E) (by omega)
  refine ⟨nofun, nofun, fun _ => ?_, fun _ => ?_⟩
  · simp only [rounded, BitVec.toNat_ofNat]
    omega
  · rw [hlen]
    omega

/-- Bounds that fit the mantissa are canonical. -/
theorem canonical_unrounded (c : Capability) {base : BitVec 64} {top : BitVec 128}
    (h : base.toNat ≤ top.toNat) (hlt : top.toNat - base.toNat < 2 ^ 12) :
    (c.unrounded base top).Canonical := by
  have hlen := mantissaLen_unrounded c h hlt
  refine ⟨fun _ => rfl, fun _ => ?_, nofun, nofun⟩
  rw [hlen]
  exact hlt

/-- `setCapBounds` gives a canonical capability, whatever it was given. -/
theorem canonical_setCapBounds (c : Capability) {base : BitVec 64} {top : BitVec 128}
    (h : base.toNat ≤ top.toNat) (hlen : top.toNat - base.toNat ≤ 2 ^ 64) :
    (c.setCapBounds base top).1.Canonical := by
  rcases setCapBounds_cases c h hlen with ⟨hlt, heq⟩ | ⟨e, he, hlo, hhi, heq⟩
  · rw [heq]
    exact canonical_unrounded c h hlt
  · obtain ⟨h1, h2⟩ := roundedLen_bounds he h hlo hhi
    rw [heq]
    exact canonical_rounded c h h1 h2

/-- The capabilities obtained from decoded words by the setters. -/
inductive Obtained : Capability → Prop
  | ofUint128 (w : BitVec 128) (tag : Bool) : Obtained (ofUint128 w tag)
  | setCapBounds {c : Capability} (base : BitVec 64) (top : BitVec 128)
      (hle : base.toNat ≤ top.toNat) (htop : top.toNat ≤ 2 ^ 64) :
      Obtained c → Obtained (c.setCapBounds base top).1
  | setCapPerms {c : Capability} (perms : BitVec 32) : Obtained c → Obtained (c.setCapPerms perms)
  | setFlags {c : Capability} (flags : BitVec 8) : Obtained c → Obtained (c.setFlags flags)
  | sealCap {c : Capability} (otype : BitVec 32) : Obtained c → Obtained (c.sealCap otype)
  | unsealCap {c : Capability} : Obtained c → Obtained c.unsealCap
  | setCapAddr {c : Capability} (addr : BitVec 64) : Obtained c → Obtained (c.setCapAddr addr).1
  | setCapOffset {c : Capability} (offset : BitVec 64) :
      Obtained c → Obtained (c.setCapOffset offset).1

/-- Every capability that can be obtained is canonical. -/
theorem Obtained.canonical {c : Capability} (h : Obtained c) : c.Canonical := by
  induction h with
  | ofUint128 w tag => exact canonical_toCapability _ tag
  | setCapBounds base top hle htop _ _ => exact canonical_setCapBounds _ hle (by omega)
  | setCapPerms perms _ ih => exact ih.congr rfl rfl rfl rfl
  | setFlags flags _ ih => exact ih.congr rfl rfl rfl rfl
  | sealCap otype _ ih => exact ih.congr rfl rfl rfl rfl
  | unsealCap _ ih => exact ih.congr rfl rfl rfl rfl
  | setCapAddr addr _ ih => exact ih.congr rfl rfl rfl rfl
  | setCapOffset offset _ ih => exact ih.congr rfl rfl rfl rfl

/-- **The 128-bit format loses nothing**: a word survives being read as a capability, and a capability
that can be obtained survives being stored as a word and its tag. -/
theorem encoding_roundTrip :
    (∀ (w : BitVec 128) (tag : Bool), (ofUint128 w tag).toUint128 = w) ∧
    ∀ c : Capability, Obtained c → ofUint128 c.toUint128 c.tag = c :=
  ⟨toUint128_ofUint128, fun _ h => ofUint128_toUint128 h.canonical⟩

/-- A capability with rounded bounds, sealed, with its permissions reduced, survives. -/
theorem encoding_roundTrip_sealed :
    let c := (((ofUint128 0xFFFF000000000000_0000000000000000 true).setCapBounds 0x12345
      0x822345).1.setCapPerms 0xFF).sealCap 7
    (c.E = 11 ∧ c.tag = true) ∧ ofUint128 c.toUint128 c.tag = c :=
  ⟨by decide, encoding_roundTrip.2 _ (.sealCap _ (.setCapPerms _ (.setCapBounds _ _
    (by decide) (by decide) (.ofUint128 _ _))))⟩

end Capability

end RiscvVp
