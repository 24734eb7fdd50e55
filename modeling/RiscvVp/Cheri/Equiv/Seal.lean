import RiscvVp.Cheri.Instr
import RiscvVp.Lib.BitField

/-!
# Sealing and unsealing

An object type is given or taken only by a capability that has it in its bounds.  `C_SEAL` and
`C_C_SEAL` compare the address with the top strictly; `C_UNSEAL` lets the address be the top itself,
so an object type just past the end can be taken away (`sealing_iff`).
-/

namespace RiscvVp

open Capability

/-- `cs2` is entitled to the object type `otype` by the permission `perm`: it is a valid, unsealed
capability and its address is that object type, within its bounds. -/
def Entitled (cs2 : Capability) (perm : Bool) (otype : BitVec 18) : Prop :=
  cs2.tag = true ∧ cs2.isSealed = false ∧ perm = true ∧ cs2.getBase ≤ cs2.address ∧
    cs2.address.setWidth 128 < cs2.getTop ∧ cs2.address.toNat ≤ cCapMaxOType ∧
    cs2.address.toNat = otype.toNat

/-- What is asked of sealing `c` with `s` and of unsealing it with `u`. -/
structure SealingDiscipline (c s u : Capability) : Prop where
  seal_entitled : (cSeal c s).tag = true → (cSeal c s).otype ≠ c.otype →
    Entitled s s.permitSeal (cSeal c s).otype
  cSeal_entitled : (cCSeal c s).tag = true → (cCSeal c s).otype ≠ c.otype →
    Entitled s s.permitSeal (cCSeal c s).otype
  unseal_entitled : (cUnseal c u).tag = true → (cUnseal c u).otype ≠ c.otype →
    Entitled u u.permitUnseal c.otype
  unseal_seal : (cSeal c s).tag = true → (cUnseal (cSeal c s) u).tag = true →
    cUnseal (cSeal c s) u = { c with global := c.global && u.global }
  seal_fields : ∃ o t, cSeal c s = { c with otype := o, tag := t }
  cSeal_fields : ∃ o t, cCSeal c s = { c with otype := o, tag := t }
  unseal_fields : ∃ o t, cUnseal c u = { c with otype := o, tag := t, global := c.global && u.global }

/-! ### Sealing -/

/-- The object type that a cursor within range becomes. -/
theorem toNat_otype_of_le {a : BitVec 64} (h : a.toNat ≤ cCapMaxOType) :
    ((a.setWidth 32).setWidth 18).toNat = a.toNat := by
  have hmax : cCapMaxOType = 0x3FFFB := rfl
  rw [BitVec.toNat_setWidth, BitVec.toNat_setWidth]
  omega

/-- When the result of `C_SEAL` is tagged. -/
theorem tag_cSeal (c s : Capability) :
    (cSeal c s).tag = true ↔ c.tag = true ∧ c.isSealed = false ∧ s.tag = true ∧
      s.isSealed = false ∧ s.permitSeal = true ∧ s.getBase ≤ s.address ∧
      s.address.setWidth 128 < s.getTop ∧ s.address.toNat ≤ cCapMaxOType := by
  unfold cSeal
  generalize s.getBase = base, s.getTop = top
  simp only [clearTagIf, sealCap, clearTagIfSealed, Bool.and_eq_true, Bool.not_not,
    Bool.not_eq_true', decide_eq_true_eq, and_assoc]

/-- When the result of `C_UNSEAL` is tagged: the address may be the top. -/
theorem tag_cUnseal (c u : Capability) :
    (cUnseal c u).tag = true ↔ c.tag = true ∧ u.tag = true ∧ c.isSealed = true ∧
      u.isSealed = false ∧ c.hasReservedOType = false ∧ u.address = c.otype.setWidth 64 ∧
      u.permitUnseal = true ∧ u.getBase ≤ u.address ∧ u.address.setWidth 128 ≤ u.getTop := by
  unfold cUnseal
  generalize u.getBase = base, u.getTop = top
  simp only [clearTagIf, unsealCap, Bool.and_eq_true, Bool.not_not, Bool.not_eq_true',
    decide_eq_true_eq, and_assoc]

/-- A tagged result of `C_SEAL` has the object type of an entitled capability. -/
theorem entitled_of_cSeal {c s : Capability} (h : (cSeal c s).tag = true) :
    Entitled s s.permitSeal (cSeal c s).otype := by
  obtain ⟨-, -, h3, h4, h5, h6, h7, h8⟩ := (tag_cSeal c s).1 h
  exact ⟨h3, h4, h5, h6, h7, h8, (toNat_otype_of_le h8).symm⟩

/-- A tagged result of `C_C_SEAL` is what it was, or has the object type of an entitled capability. -/
theorem entitled_of_cCSeal {c s : Capability} (h : (cCSeal c s).tag = true)
    (hne : (cCSeal c s).otype ≠ c.otype) : Entitled s s.permitSeal (cCSeal c s).otype := by
  unfold cCSeal at h hne ⊢
  dsimp only at h hne ⊢
  split at h
  · rename_i hpass
    rw [if_pos hpass] at hne
    exact (hne rfl).elim
  · rename_i hpass
    rw [if_neg hpass]
    simp only [Bool.or_eq_true, not_or, Bool.not_eq_true, Bool.not_eq_false', decide_eq_false_iff_not,
      BitVec.not_lt, BitVec.not_le] at hpass
    obtain ⟨⟨⟨⟨htag, -⟩, hbase⟩, htop⟩, -⟩ := hpass
    simp only [clearTagIf, sealCap, Bool.and_eq_true, Bool.not_not, Bool.not_eq_true',
      decide_eq_true_eq] at h
    obtain ⟨-, ⟨hs, hp⟩, hle⟩ := h
    exact ⟨htag, hs, hp, hbase, htop, hle, (toNat_otype_of_le hle).symm⟩

/-! ### Unsealing -/

/-- `C_UNSEAL` takes away the object type at its top. -/
def UnsealsAtTop (c u : Capability) : Prop :=
  c.tag = true ∧ u.tag = true ∧ c.isSealed = true ∧ u.isSealed = false ∧
    c.hasReservedOType = false ∧ u.address = c.otype.setWidth 64 ∧ u.permitUnseal = true ∧
    u.getBase ≤ u.address ∧ u.address.setWidth 128 = u.getTop

/-- A tagged result of `C_UNSEAL` is entitled unless the object type is at the top. -/
theorem entitled_of_cUnseal_iff {c u : Capability} :
    ((cUnseal c u).tag = true → (cUnseal c u).otype ≠ c.otype → Entitled u u.permitUnseal c.otype) ↔
      ¬ UnsealsAtTop c u := by
  rw [tag_cUnseal]
  have hotype : (cUnseal c u).otype = cOtypeUnsealedUnsigned := rfl
  constructor
  · rintro h ⟨h1, h2, h3, h4, h5, h6, h7, h8, h9⟩
    have hne : (cUnseal c u).otype ≠ c.otype := by
      rw [hotype]
      exact (of_decide_eq_true h3).symm
    obtain ⟨-, -, -, -, hlt, -⟩ := h ⟨h1, h2, h3, h4, h5, h6, h7, h8, BitVec.le_of_eq h9⟩ hne
    rw [h9] at hlt
    exact BitVec.lt_irrefl _ hlt
  · rintro h ⟨h1, h2, h3, h4, h5, h6, h7, h8, h9⟩ -
    have htop : u.address.setWidth 128 ≠ u.getTop := fun heq =>
      h ⟨h1, h2, h3, h4, h5, h6, h7, h8, heq⟩
    have haddr : u.address.toNat = c.otype.toNat := by
      rw [h6, BitVec.toNat_setWidth]
      have := c.otype.isLt
      omega
    have hmax : c.otype.toNat ≤ cCapMaxOType := Nat.le_of_not_lt (of_decide_eq_false h5)
    exact ⟨h2, h4, h7, h8, BitVec.lt_of_le_ne h9 htop, by omega, haddr⟩

/-- `C_SEAL` changes the object type and the tag. -/
theorem cSeal_eq (c s : Capability) :
    cSeal c s = { c with
      otype := (s.address.setWidth 32).setWidth 18, tag := (cSeal c s).tag } := rfl

/-- `C_UNSEAL` changes the object type, the tag and the global permission. -/
theorem cUnseal_eq (c u : Capability) :
    cUnseal c u = { c with
      otype := cOtypeUnsealedUnsigned, tag := (cUnseal c u).tag
      global := c.global && u.global } := rfl

/-- Unsealing what was sealed gives the capability back, but for the permission `global`, which the
unsealing one may lack. -/
theorem cUnseal_cSeal {c s u : Capability} (h : (cSeal c s).tag = true)
    (h' : (cUnseal (cSeal c s) u).tag = true) :
    cUnseal (cSeal c s) u = { c with global := c.global && u.global } := by
  obtain ⟨htag, hsealed, -⟩ := (tag_cSeal c s).1 h
  have hotype : c.otype = cOtypeUnsealedUnsigned := by
    simpa [isSealed] using hsealed
  rw [cUnseal_eq (cSeal c s) u, h', cSeal_eq c s, ← hotype, ← htag]

/-- **When the sealing discipline holds**: for all operands, exactly when `C_UNSEAL` is not given an
object type that is the top of its authority's bounds. -/
theorem sealing_iff (c s u : Capability) : SealingDiscipline c s u ↔ ¬ UnsealsAtTop c u := by
  constructor
  · intro h
    exact entitled_of_cUnseal_iff.1 h.unseal_entitled
  · intro h
    refine ⟨fun ht _ => entitled_of_cSeal ht, entitled_of_cCSeal, entitled_of_cUnseal_iff.2 h,
      cUnseal_cSeal, ⟨_, _, rfl⟩, ?_, ⟨_, _, rfl⟩⟩
    unfold cCSeal
    dsimp only
    split
    · exact ⟨c.otype, c.tag, rfl⟩
    · exact ⟨_, _, rfl⟩

/-- The object type `16` is taken away by a capability for the object types `0` to `15`. -/
theorem not_sealingDiscipline_sixteen :
    let u := cIncOffset (cSetBounds cDefaultCap 16) 16
    let s := cIncOffset cDefaultCap 16
    ¬ SealingDiscipline (cSeal cDefaultCap s) s u := by
  intro u s h
  have hu := h.unseal_entitled (by decide) (by decide)
  obtain ⟨-, -, -, -, hlt, -⟩ := hu
  revert hlt
  decide

end RiscvVp
