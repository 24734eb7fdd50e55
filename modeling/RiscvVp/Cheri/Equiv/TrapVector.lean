import RiscvVp.Cheri.TrapVector
import RiscvVp.Cheri.Equiv.Window

/-!
# Writing trap vectors

`CSpecialRW` stores a capability with its address legalised, which is checked to leave the bounds as
they were.  The integer CSRs overwrite the address in place, with no check: the capability stays tagged
and its bounds move with the address unless that stays in the representable window
(`tccWrite_safe_iff`).  Neither way makes a reserved mode out of a legal one, so that the modes stay
legal from reset on (`reset_modesLegal`).
-/

namespace RiscvVp.Cheri

open Capability

/-! ### Legal modes -/

/-- The address of a trap vector has a mode that is not reserved. -/
def LegalMode (addr : BitVec 64) : Prop := trapVectorModeOfBits (tvecMode addr) ≠ .reserved

instance (addr : BitVec 64) : Decidable (LegalMode addr) := inferInstanceAs (Decidable (_ ≠ _))

/-- The modes with the second bit clear are the legal ones. -/
theorem legalMode_iff (addr : BitVec 64) : LegalMode addr ↔ addr.getLsbD 1 = false := by
  have hmode : ∀ m : BitVec 2, trapVectorModeOfBits m ≠ .reserved ↔ m.getLsbD 1 = false := by decide
  unfold LegalMode tvecMode
  rw [hmode, BitVec.getLsbD_setWidth]
  simp

/-- A masked write leaves the second bit of the mode. -/
theorem legalMode_writeMasked (old value : BitVec 64) :
    LegalMode (writeMasked mtvecMask old value) ↔ LegalMode old := by
  rw [legalMode_iff, legalMode_iff, writeMasked, mtvecMask]
  simp

/-- A legal trap vector is kept as it is, so a second write of the same value changes nothing. -/
theorem legalizeTvec_of_legal {o v : BitVec 64} (hv : LegalMode v) : legalizeTvec o v = v := by
  unfold LegalMode at hv
  unfold legalizeTvec
  split
  · rfl
  · rfl
  · contradiction

/-- A reserved mode is replaced by the old one. -/
theorem tvecMode_legalizeTvec {o v : BitVec 64} (hv : ¬ LegalMode v) :
    tvecMode (legalizeTvec o v) = tvecMode o := by
  have hres : trapVectorModeOfBits (tvecMode v) = .reserved := not_not.1 hv
  unfold legalizeTvec
  rw [hres]
  apply BitVec.eq_of_getLsbD_eq
  intro i hi
  show (tvecMode (updateMode v (tvecMode o))).getLsbD i = _
  rw [updateMode, tvecMode, BitVec.getLsbD_setWidth, BitVec.getLsbD_append]
  simp [hi]

/-- A legalised trap vector has a legal mode when the new or the old one is. -/
theorem legalMode_legalizeTvec (o v : BitVec 64) :
    LegalMode (legalizeTvec o v) ↔ LegalMode v ∨ LegalMode o := by
  by_cases hv : LegalMode v
  · rw [legalizeTvec_of_legal hv]
    exact ⟨Or.inl, fun _ => hv⟩
  · have hmode := @tvecMode_legalizeTvec o v hv
    have hiff : LegalMode (legalizeTvec o v) ↔ LegalMode o := by
      unfold LegalMode
      rw [hmode]
    rw [hiff]
    exact ⟨Or.inr, fun h => h.resolve_left hv⟩

/-! ### The two ways to write -/

/-- A checked change of the address unties the tag from other bounds. -/
theorem setCapAddrChecked_bounds (c : Capability) (addr : BitVec 64) :
    (c.setCapAddrChecked addr).tag = false ∨
      (c.setCapAddrChecked addr).getCapBounds = c.getCapBounds := by
  by_cases h : c.getCapBounds = (c.withAddr addr).getCapBounds
  · exact Or.inr h.symm
  · left
    have hrep : (c.setCapAddr addr).2 = false := decide_eq_false h
    unfold setCapAddrChecked clearTagIf
    dsimp only
    rw [hrep]
    simp

/-- A write to a trap vector: of an integer to its CSR, or of a capability with `CSpecialRW` and a
register other than zero. -/
inductive TccWrite
  | csr (value : BitVec 64)
  | special (data : BitVec 64) (rs1 : BitVec 5) (hrs1 : rs1 ≠ 0) (cs1 : Capability)

namespace TccWrite

/-- The state after a write. -/
def run : TccWrite → TrapVectors → Tcc → Except SimulationTrap TrapVectors
  | csr value, s, r => setCsrValue s r value
  | special data rs1 _ cs1, s, r => Prod.fst <$> cSpecialRW s data r rs1 cs1

/-- The capability that the stored one is derived from. -/
def source : TccWrite → TrapVectors → Tcc → Capability
  | csr _, s, r => s.get r
  | special _ _ _ cs1, _, _ => cs1

/-- The stored capability is untagged or has the bounds of the one it is derived from, and its mode is
legal. -/
def Safe (w : TccWrite) (s s' : TrapVectors) (r : Tcc) : Prop :=
  ((s'.get r).tag = false ∨ (s'.get r).getCapBounds = (w.source s r).getCapBounds) ∧
    LegalMode (s'.get r).address

/-- The new address of a CSR write lies in the representable window of the stored capability, whose
mode is legal; of a capability that is written, the mode or the old one is. -/
def StaysInWindow : TccWrite → TrapVectors → Tcc → Prop
  | csr value, s, r =>
    (s.get r).window (writeMasked mtvecMask (s.get r).address value)
        = (s.get r).window (s.get r).address ∧
      LegalMode (s.get r).address
  | special _ _ _ cs1, s, r => LegalMode cs1.address ∨ LegalMode (s.get r).address

end TccWrite

@[simp] theorem TrapVectors.get_set_self (s : TrapVectors) (r : Tcc) (c : Capability) :
    (s.set r c).get r = c := by
  cases r <;> rfl

theorem TrapVectors.get_set_of_ne (s : TrapVectors) {r r' : Tcc} (h : r' ≠ r) (c : Capability) :
    (s.set r c).get r' = s.get r' := by
  cases r <;> cases r' <;> first | rfl | exact absurd rfl h

/-- What a CSR write that does not trap stores. -/
theorem eq_of_setCsrValue {s s' : TrapVectors} {r : Tcc} {value : BitVec 64}
    (h : setCsrValue s r value = .ok s') :
    s' = s.set r ((s.get r).withAddr (writeMasked mtvecMask (s.get r).address value)) := by
  unfold setCsrValue at h
  split at h
  · cases h
    rfl
  · cases h

/-- What `CSpecialRW` stores when it does not trap. -/
theorem eq_of_cSpecialRW {s s' : TrapVectors} {data : BitVec 64} {r : Tcc} {rs1 : BitVec 5}
    {cs1 : Capability} (hrs1 : rs1 ≠ 0)
    (h : Prod.fst <$> cSpecialRW s data r rs1 cs1 = .ok s') :
    s' = s.set r (legalizeTcc (s.get r) cs1) := by
  unfold cSpecialRW at h
  split at h
  · cases h
  · split at h
    · cases h
    · cases h
      rfl

/-- What any write that does not trap stores. -/
theorem TccWrite.eq_of_run {w : TccWrite} {s s' : TrapVectors} {r : Tcc} (h : w.run s r = .ok s') :
    ∃ c, s' = s.set r c ∧ c = match w with
      | .csr value => (s.get r).withAddr (writeMasked mtvecMask (s.get r).address value)
      | .special _ _ _ cs1 => legalizeTcc (s.get r) cs1 := by
  cases w with
  | csr value => exact ⟨_, eq_of_setCsrValue h, rfl⟩
  | special data rs1 hrs1 cs1 => exact ⟨_, eq_of_cSpecialRW hrs1 h, rfl⟩

/-- **Writing a trap vector** that holds a tagged capability is safe exactly when a CSR write keeps the
address in the representable window, and one of the modes it can end with is legal. -/
theorem tccWrite_safe_iff (w : TccWrite) {s s' : TrapVectors} {r : Tcc}
    (htag : (s.get r).tag = true) (h : w.run s r = .ok s') :
    w.Safe s s' r ↔ w.StaysInWindow s r := by
  obtain ⟨c, rfl, hc⟩ := TccWrite.eq_of_run h
  unfold TccWrite.Safe
  rw [TrapVectors.get_set_self]
  cases w with
  | csr value =>
    have htag' : c.tag = true := by
      rw [hc]
      exact htag
    have hmode : LegalMode c.address ↔ LegalMode (s.get r).address := by
      rw [hc]
      exact legalMode_writeMasked _ _
    rw [htag', hmode]
    show (_ ∨ c.getCapBounds = (s.get r).getCapBounds) ∧ _ ↔ _ ∧ _
    rw [hc, getCapBounds_eq_iff]
    simp only [Bool.true_eq_false, false_or]
  | special data rs1 hrs1 cs1 =>
    have hmode : LegalMode c.address ↔ LegalMode cs1.address ∨ LegalMode (s.get r).address := by
      rw [hc]
      exact legalMode_legalizeTvec _ _
    have hbounds : c.tag = false ∨ c.getCapBounds = cs1.getCapBounds := by
      rw [hc]
      exact setCapAddrChecked_bounds cs1 _
    exact ⟨fun hsafe => hmode.1 hsafe.2, fun hw => ⟨hbounds, hmode.2 hw⟩⟩

/-- A trap vector for `2 ^ 13` bytes of handlers. -/
def narrowMtcc : TrapVectors :=
  { TrapVectors.reset true true with mtcc := (cDefaultCap.setCapBounds 0x100000 0x102000).1 }

/-- A write to `mtvec` within the window. -/
theorem tccWrite_safe_iff_near :
    narrowMtcc.mtcc.tag = true ∧
    ∃ s', (TccWrite.csr 0x101000).run narrowMtcc .mtcc = .ok s' ∧
      (TccWrite.csr 0x101000).Safe narrowMtcc s' .mtcc :=
  ⟨by decide, _, rfl, (tccWrite_safe_iff (.csr 0x101000) (by decide) rfl).2
    ⟨by decide, by decide⟩⟩

/-- A write to `mtvec` moves the bounds of the tagged capability in `mtcc` with its address. -/
theorem not_tccWrite_safe :
    narrowMtcc.mtcc.tag = true ∧
    ∃ s', (TccWrite.csr 0x200000).run narrowMtcc .mtcc = .ok s' ∧ s'.mtcc.tag = true ∧
      narrowMtcc.mtcc.getCapBounds = (0x100000, 0x102000) ∧
      s'.mtcc.getCapBounds = (0x200000, 0x202000) ∧
      ¬ (TccWrite.csr 0x200000).Safe narrowMtcc s' .mtcc := by
  refine ⟨by decide, _, rfl, by decide, by decide, by decide, ?_⟩
  rintro ⟨h | h, -⟩
  · exact absurd h (by decide)
  · exact absurd h (by decide)

/-! ### Runs -/

/-- Every trap vector has a legal mode. -/
def ModesLegal (s : TrapVectors) : Prop := ∀ r, LegalMode (s.get r).address

/-- The states reached by writes that do not trap, with the program changing the privilege level and
the program counter capability in between. -/
inductive Reached : TrapVectors → TrapVectors → Prop
  | refl (s : TrapVectors) : Reached s s
  | write {s s' s'' : TrapVectors} (w : TccWrite) (r : Tcc) :
      Reached s s' → w.run s' r = .ok s'' → Reached s s''
  | mode {s s' : TrapVectors} (prv : PrivilegeLevel) (accessSystemRegs : Bool) :
      Reached s s' → Reached s { s' with prv := prv, accessSystemRegs := accessSystemRegs }

/-- A write keeps the modes legal: what would be reserved is replaced by the mode before. -/
theorem ModesLegal.run {s s' : TrapVectors} (hs : ModesLegal s) {w : TccWrite} {r : Tcc}
    (h : w.run s r = .ok s') : ModesLegal s' := by
  obtain ⟨c, rfl, hc⟩ := TccWrite.eq_of_run h
  intro r'
  by_cases hr : r' = r
  · subst hr
    rw [TrapVectors.get_set_self, hc]
    cases w with
    | csr value => exact (legalMode_writeMasked _ _).2 (hs r')
    | special data rs1 hrs1 cs1 => exact (legalMode_legalizeTvec _ _).2 (Or.inr (hs r'))
  · rw [TrapVectors.get_set_of_ne s hr]
    exact hs r'

/-- **From reset on every mode is legal**, whatever is written. -/
theorem reset_modesLegal {hasN hasS : Bool} {s : TrapVectors}
    (h : Reached (TrapVectors.reset hasN hasS) s) : ModesLegal s := by
  induction h with
  | refl =>
    intro r
    have hr : (TrapVectors.reset hasN hasS).get r = cDefaultCap := by cases r <;> rfl
    rw [hr]
    decide
  | write w r _ hrun ih => exact ih.run hrun
  | mode prv asr _ ih =>
    intro r
    have hr := ih r
    cases r <;> exact hr

end RiscvVp.Cheri
