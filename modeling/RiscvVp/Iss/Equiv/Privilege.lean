import RiscvVp.Iss.Equiv.Interrupts

/-!
# Privilege levels along a run

Two things go wrong with privilege levels.  `SRET` is not forbidden in user mode and `MRET` in no mode,
unlike in the CHERI ISS (`noEscalation_iff`).  And a write of `mstatus` lets the reserved encoding of
`mpp` through, from which it gets into `prv` and to assertions that fail (`encodings_iff`).
-/

namespace RiscvVp

namespace Priv

variable {s s' : Priv}

/-! ### Traps -/

/-- A trap that is taken goes to the mode that it is delegated to, and to the vector of this mode. -/
theorem handleTrap_spec {t : SimulationTrap} (h : s.handleTrap t = some s') :
    s.csrs.TrapTarget s.prv t.reason.code s'.prv ∧
      s'.pc = (s.csrs.trapRegs s'.prv).tvec.getBaseAddress := by
  rw [handleTrap] at h
  split_ifs at h with hno
  obtain rfl := Option.some.inj h
  refine ⟨?_, ?_⟩
  · show s.csrs.TrapTarget s.prv t.reason.code (s.csrs.trapTargetMode s.prv t)
    by_cases hhyp : s.prv = .hypervisor
    · replace hno : ¬(s.csrs.trapTargetMode s.prv t = .user ∧ s.prv ≠ .user) := hno
      unfold Csrs.trapTargetMode at hno ⊢
      split_ifs at hno ⊢ with h1 h2
      · exact h1
      · rw [not_or, Bool.not_eq_false] at h1
        exact ⟨h1.1, h1.2, h2⟩
      · exact absurd ⟨rfl, by rw [hhyp]; decide⟩ hno
    · exact (s.csrs.trapTargetMode_spec hhyp t).1
  · show (s.csrs.handleTrap s.prv t s.pc).2.2 =
      (s.csrs.trapRegs (s.csrs.trapTargetMode s.prv t)).tvec.getBaseAddress
    simp only [Csrs.handleTrap, Csrs.prepareTrap, Csrs.switchToTrapHandler, Csrs.trapRegs_setTrapRegs,
      Csrs.handlerPc, Bool.false_eq_true, false_and, if_false]

/-! ### Writes of registers -/

/-- What a write of a register does to privilege levels and to the mode of address translation. -/
structure CsrWrite (s : Priv) (addr : BitVec 12) (value : BitVec 64) (s' : Priv) : Prop where
  prv : s'.prv = s.prv
  mpp : s'.csrs.mstatus.mpp =
    if addr = 0x300 then .ofBits (value.getLsbD 12) (value.getLsbD 11) else s.csrs.mstatus.mpp
  satp : s'.satp.mode = s.satp.mode ∨ s'.satp.mode = 0 ∨ s'.satp.mode = 8 ∨ s'.satp.mode = 9

theorem ofBits_hi_lo (m : PrivilegeLevel) : PrivilegeLevel.ofBits m.hi m.lo = m := by
  cases m <;> rfl

theorem satp_write_mode (r : SatpReg) (value : BitVec 64) : (r.write value).mode = r.mode ∨
    (r.write value).mode = 0 ∨ (r.write value).mode = 8 ∨ (r.write value).mode = 9 := by
  simp only [SatpReg.write]
  split_ifs with h
  · exact Or.inl rfl
  · refine Or.inr ?_
    by_contra hno
    rw [not_or, not_or] at hno
    exact h hno

/-- A write of a register that leaves `mstatus`, `satp` and the privilege level. -/
theorem CsrWrite.of_eq {addr : BitVec 12} {value : BitVec 64} (haddr : addr ≠ 0x300)
    (hprv : s'.prv = s.prv) (hmpp : s'.csrs.mstatus.mpp = s.csrs.mstatus.mpp)
    (hsatp : s'.satp = s.satp) : CsrWrite s addr value s' :=
  ⟨hprv, by rw [if_neg haddr, hmpp], Or.inl (by rw [hsatp])⟩

/-- `set_csr_value` raises an illegal instruction or does that. -/
theorem setCsrValue_cases (data : BitVec 32) (s : Priv) (addr : BitVec 12) (value : BitVec 64) :
    s.setCsrValue data addr value = raiseIllegal data ∨
      ∃ s', s.setCsrValue data addr value = .ok s' ∧ CsrWrite s addr value s' := by
  have hne : ∀ n : ℕ, n ≠ 0x300 → addr.toNat = n → addr ≠ 0x300 := by
    rintro n hn h rfl
    exact hn h.symm
  unfold setCsrValue
  split
  case h_1 h =>
    by_cases htvm : s.tvm = true
    · exact Or.inl (if_pos htvm)
    · refine Or.inr ⟨_, if_neg htvm, rfl, ?_, satp_write_mode s.satp value⟩
      rw [if_neg (hne _ (by decide) h)]
  case h_8 h =>
    refine Or.inr ⟨_, rfl, rfl, ?_, Or.inl rfl⟩
    rw [if_pos (BitVec.eq_of_toNat_eq h)]
    rfl
  case h_9 h =>
    refine Or.inr ⟨_, rfl, .of_eq (hne _ (by decide) h) rfl ?_ rfl⟩
    exact ofBits_hi_lo _
  case h_10 h =>
    refine Or.inr ⟨_, rfl, .of_eq (hne _ (by decide) h) rfl ?_ rfl⟩
    exact ofBits_hi_lo _
  case h_29 h =>
    by_cases ho : isOtherCsr addr = true
    · have haddr : addr ≠ 0x300 := by
        rintro rfl
        exact absurd ho (by decide)
      exact Or.inr ⟨_, if_pos ho, .of_eq haddr rfl rfl rfl⟩
    · exact Or.inl (if_neg ho)
  all_goals
    next h => exact Or.inr ⟨_, rfl, .of_eq (hne _ (by decide) h) rfl rfl rfl⟩

/-! ### Instructions -/

/-- A CSR instruction is illegal, or it leaves the registers, or it writes one that the mode may write. -/
theorem exec_csr_cases (s : Priv) (data : BitVec 32) (next : BitVec 64) (addr : BitVec 12)
    (value : Option (BitVec 64)) :
    s.exec data next (.csr addr value) = raiseIllegal data ∨
    (value = none ∧ s.isInvalidCsrAccess addr false = false ∧
      s.exec data next (.csr addr value) = .ok { s with pc := next }) ∨
    ∃ v s', value = some v ∧ s.isInvalidCsrAccess addr true = false ∧ CsrWrite s addr v s' ∧
      s.exec data next (.csr addr value) = .ok { s' with pc := next } := by
  by_cases hinv : s.isInvalidCsrAccess addr value.isSome = true
  · exact Or.inl (if_pos hinv)
  cases value with
  | none => exact Or.inr (Or.inl ⟨rfl, Bool.not_eq_true _ ▸ hinv, if_neg hinv⟩)
  | some v =>
    have hexec : s.exec data next (.csr addr (some v)) =
        (s.setCsrValue data addr v).map fun s' => { s' with pc := next } := if_neg hinv
    rcases s.setCsrValue_cases data addr v with hill | ⟨s', hok, hw⟩
    · refine Or.inl ?_
      rw [hexec, hill]
      rfl
    · refine Or.inr (Or.inr ⟨v, s', rfl, Bool.not_eq_true _ ▸ hinv, hw, ?_⟩)
      rw [hexec, hok]
      rfl

/-- An instruction that is not a return from a trap handler leaves the privilege level, unless it traps. -/
theorem exec_prv {data : BitVec 32} {next : BitVec 64} {i : PrivInstr} (hs : i ≠ .sret) (hm : i ≠ .mret)
    (hu : i ≠ .uret) (h : s.exec data next i = .ok s') : s'.prv = s.prv := by
  cases i with
  | uret => exact absurd rfl hu
  | sret => exact absurd rfl hs
  | mret => exact absurd rfl hm
  | ecall =>
    simp only [exec] at h
    split at h <;> cases h
  | csr addr value =>
    rcases s.exec_csr_cases data next addr value with hill | ⟨-, -, hok⟩ | ⟨v, s₁, -, -, hw, hok⟩
    · rw [hill] at h
      cases h
    · rw [hok] at h
      obtain rfl := Except.ok.inj h
      rfl
    · rw [hok] at h
      obtain rfl := Except.ok.inj h
      exact hw.prv
  | other t =>
    cases t with
    | none =>
      obtain rfl := Except.ok.inj h
      rfl
    | some t => cases h

/-- The privilege level after a return from a trap handler of user or supervisor mode. -/
theorem returnFromTrapHandler_supervisor_le :
    (s.returnFromTrapHandler .supervisor).prv.val ≤ PrivilegeLevel.supervisor.val := by
  show (if s.csrs.mstatus.spp then PrivilegeLevel.supervisor else .user).val ≤ _
  split_ifs <;> decide

theorem val_le_machine (m : PrivilegeLevel) : m.val ≤ PrivilegeLevel.machine.val := by
  cases m <;> decide

/-- A return instruction that the mode must not execute. -/
def Unguarded (s : Priv) : PrivEvent → Prop
  | .instr _ i _ => i = .mret ∧ s.prv ≠ .machine ∨ i = .sret ∧ s.prv = .user
  | _ => False

/-- Without such an instruction the privilege level does not rise, unless there is a trap. -/
theorem exec_prv_le {data : BitVec 32} {next : BitVec 64} {i : PrivInstr}
    (hno : ¬s.Unguarded (.instr data i next)) (h : s.exec data next i = .ok s') :
    s'.prv.val ≤ s.prv.val := by
  by_cases hu : i = .uret
  · subst hu
    obtain rfl := Except.ok.inj h
    exact Nat.zero_le _
  by_cases hs : i = .sret
  · subst hs
    rw [exec] at h
    split_ifs at h with htsr
    · cases h
    · obtain rfl := Except.ok.inj h
      have hprv : s.prv ≠ .user := fun hprv => hno (Or.inr ⟨rfl, hprv⟩)
      refine le_trans returnFromTrapHandler_supervisor_le ?_
      cases hp : s.prv with
      | user => exact absurd hp hprv
      | supervisor => exact le_refl _
      | hypervisor => decide
      | machine => decide
  by_cases hm : i = .mret
  · subst hm
    have hprv : s.prv = .machine := by
      by_contra hprv
      exact hno (Or.inl ⟨rfl, hprv⟩)
    rw [hprv]
    exact val_le_machine _
  · rw [exec_prv hs hm hu h]

/-! ### No escalation -/

/-- An instruction does not raise the privilege level unless it traps, and then the mode is the one the
trap is delegated to and `pc` its vector; a return that the mode must not execute is illegal. -/
def NoEscalation (s : Priv) : PrivEvent → Prop
  | .instr data i next =>
    let r := s.step (.instr data i next)
    (match r.1 with
      | .trapped t => s.csrs.TrapTarget s.prv t.reason.code r.2.prv ∧
          r.2.pc = (s.csrs.trapRegs r.2.prv).tvec.getBaseAddress
      | _ => r.2.prv.val ≤ s.prv.val) ∧
    (i = .mret ∧ s.prv ≠ .machine ∨ i = .sret ∧ s.prv = .user →
      r.1 = .trapped ⟨.illegalInstr, data.setWidth 64⟩)
  | _ => True

/-- A return that the mode must not execute is executed. -/
theorem step_unguarded {data : BitVec 32} {next : BitVec 64} {i : PrivInstr}
    (h : s.Unguarded (.instr data i next)) : (s.step (.instr data i next)).1 = .completed := by
  rcases h with ⟨rfl, -⟩ | ⟨rfl, hprv⟩
  · rfl
  · have hexec : s.exec data next .sret = .ok (s.returnFromTrapHandler .supervisor) := by
      refine if_neg ?_
      rw [hprv]
      rintro ⟨h, -⟩
      cases h
    rw [step, hexec]

theorem noEscalation_step_iff (s : Priv) (e : PrivEvent) : s.NoEscalation e ↔ ¬s.Unguarded e := by
  cases e with
  | instr data i next =>
    constructor
    · rintro ⟨-, hill⟩ h
      have hc := (step_unguarded h).symm.trans (hill h)
      cases hc
    · intro h
      refine ⟨?_, fun hu => absurd hu h⟩
      cases hexec : s.exec data next i with
      | ok s' =>
        rw [step, hexec]
        exact exec_prv_le h hexec
      | error stop =>
        cases stop with
        | abort => rw [step, hexec]
        | trap t =>
          cases ht : s.handleTrap t with
          | none =>
            simp only [step, hexec, ht]
            exact le_refl _
          | some s' =>
            simp only [step, hexec, ht]
            exact handleTrap_spec ht
  | access type tlbHit => exact ⟨fun _ h => h, fun _ => trivial⟩
  | interrupt => exact ⟨fun _ h => h, fun _ => trivial⟩
  | irq mip => exact ⟨fun _ h => h, fun _ => trivial⟩

end Priv

/-- **Along a run the privilege level rises by traps only, if and only if `MRET` is executed in machine mode
only and `SRET` not in user mode.** -/
theorem noEscalation_iff (s : Priv) (es : List PrivEvent) :
    Run.Along Priv.NoEscalation Priv.step s es ↔
      Run.Along (fun s e => ¬s.Unguarded e) Priv.step s es :=
  ⟨Run.Along.mono fun s e => (s.noEscalation_step_iff e).1,
    Run.Along.mono fun s e => (s.noEscalation_step_iff e).2⟩

/-- From reset: a return to user mode, and `MRET` there. -/
def escalationRun : List PrivEvent :=
  [.instr 0x30001073 (.csr 0x300 (some 0x1800)) 0x80000004, .instr 0x10200073 .sret 0,
    .instr 0x30200073 .mret 0]

/-- `MRET` in user mode is executed and leads to machine mode. -/
theorem not_noEscalation_escalationRun :
    ¬Run.Along Priv.NoEscalation Priv.step (Priv.reset 0x80000000) escalationRun ∧
      (Run.final Priv.step (Priv.reset 0x80000000) (escalationRun.take 2)).prv = .user ∧
      (Run.final Priv.step (Priv.reset 0x80000000) escalationRun).prv = .machine := by
  refine ⟨?_, by decide, by decide⟩
  rintro ⟨-, -, ⟨-, hill⟩, -⟩
  exact absurd (hill (Or.inl ⟨rfl, by decide⟩)) (by decide)

/-! ### Reserved encodings -/

namespace Priv

variable {s s' : Priv}

/-- The fields hold encodings that the ISS supports. -/
structure Valid (s : Priv) : Prop where
  prv : s.prv ≠ .hypervisor
  mpp : s.csrs.mstatus.mpp ≠ .hypervisor
  satp : s.satp.mode = 0 ∨ s.satp.mode = 8 ∨ s.satp.mode = 9

theorem reset_valid (entrypoint : BitVec 64) : (reset entrypoint).Valid :=
  ⟨by rintro ⟨⟩, by rintro ⟨⟩, Or.inl rfl⟩

/-- A step fails no assertion and leaves such encodings. -/
def SafeStep (s : Priv) (e : PrivEvent) : Prop := (s.step e).1 ≠ .aborted ∧ (s.step e).2.Valid

/-- A write of `mstatus` in machine mode whose value has the reserved encoding of `mpp`. -/
def ReservedMpp (s : Priv) : PrivEvent → Prop
  | .instr _ (.csr addr (some value)) _ =>
    addr = 0x300 ∧ s.prv = .machine ∧ value.getLsbD 12 = true ∧ value.getLsbD 11 = false
  | _ => False

theorem Taken.satp (h : s.Taken s') : s'.satp = s.satp := by
  rcases h with ⟨t, h⟩ | ⟨r, -, rfl⟩
  · rw [handleTrap] at h
    split_ifs at h
    obtain rfl := Option.some.inj h
    rfl
  · rfl

/-- Traps and interrupts save the privilege level in `mpp` or leave this field. -/
theorem Taken.valid (h : s.Taken s') (hv : s.Valid) : s'.Valid := by
  obtain ⟨c, hm, hcsrs, hmode, -, -⟩ := h.cases hv.prv
  refine ⟨hmode, ?_, ?_⟩
  · rw [hcsrs]
    show (Csrs.trapMstatus c.mstatus s.prv s'.prv).mpp ≠ .hypervisor
    rw [hm]
    cases s'.prv with
    | machine => exact hv.prv
    | supervisor => exact hv.mpp
    | user => exact hv.mpp
    | hypervisor => exact hv.mpp
  · rw [h.satp]
    exact hv.satp

theorem handleInterrupt_valid (hv : s.Valid) : s.handleInterrupt.Valid := by
  unfold handleInterrupt
  split
  · exact hv
  · next r hr => exact Taken.valid (Or.inr ⟨r, hr, rfl⟩) hv

theorem returnFromTrapHandler_valid (hv : s.Valid) (mode : PrivilegeLevel) :
    (s.returnFromTrapHandler mode).Valid := by
  cases mode with
  | machine => exact ⟨hv.mpp, by rintro ⟨⟩, hv.satp⟩
  | supervisor =>
    refine ⟨?_, hv.mpp, hv.satp⟩
    show (if s.csrs.mstatus.spp then PrivilegeLevel.supervisor else .user) ≠ .hypervisor
    split_ifs <;> decide
  | user => exact ⟨by rintro ⟨⟩, hv.mpp, hv.satp⟩
  | hypervisor => exact ⟨by rintro ⟨⟩, hv.mpp, hv.satp⟩

theorem ofBits_eq_hypervisor_iff (a b : Bool) :
    PrivilegeLevel.ofBits a b = .hypervisor ↔ a = true ∧ b = false := by
  revert a b
  decide

/-- `mstatus` is written in machine mode only. -/
theorem machine_of_valid_access (h : s.isInvalidCsrAccess 0x300 true = false) : s.prv = .machine := by
  have hlt : ¬s.prv.val < 3 := by
    intro hlt
    rw [isInvalidCsrAccess, Bool.or_eq_false_iff] at h
    exact of_decide_eq_false h.2 hlt
  cases hp : s.prv with
  | machine => rfl
  | user => exact absurd (by rw [hp]; decide) hlt
  | supervisor => exact absurd (by rw [hp]; decide) hlt
  | hypervisor => exact absurd (by rw [hp]; decide) hlt

/-- An instruction that completes leaves supported encodings, unless it writes the reserved one. -/
theorem exec_valid_iff {data : BitVec 32} {next : BitVec 64} {i : PrivInstr} (hv : s.Valid)
    (h : s.exec data next i = .ok s') : s'.Valid ↔ ¬s.ReservedMpp (.instr data i next) := by
  cases i with
  | uret =>
    obtain rfl := Except.ok.inj h
    exact iff_of_true (returnFromTrapHandler_valid hv _) id
  | sret =>
    rw [exec] at h
    split_ifs at h with htsr
    · cases h
    · obtain rfl := Except.ok.inj h
      exact iff_of_true (returnFromTrapHandler_valid hv _) id
  | mret =>
    obtain rfl := Except.ok.inj h
    exact iff_of_true (returnFromTrapHandler_valid hv _) id
  | ecall =>
    simp only [exec] at h
    split at h <;> cases h
  | csr addr value =>
    -- only a write of `mstatus` can bring in the reserved level
    rcases s.exec_csr_cases data next addr value with hill | ⟨rfl, -, hok⟩ | ⟨v, s₁, rfl, hacc, hw, hok⟩
    · rw [hill] at h
      cases h
    · rw [hok] at h
      obtain rfl := Except.ok.inj h
      exact iff_of_true ⟨hv.prv, hv.mpp, hv.satp⟩ id
    · rw [hok] at h
      obtain rfl := Except.ok.inj h
      constructor
      · rintro hv' ⟨rfl, -, hbits⟩
        refine hv'.mpp ?_
        show s₁.csrs.mstatus.mpp = .hypervisor
        rw [hw.mpp, if_pos rfl, ofBits_eq_hypervisor_iff]
        exact hbits
      · intro hno
        refine ⟨fun hp => hv.prv (hw.prv.symm.trans hp), ?_, ?_⟩
        · show s₁.csrs.mstatus.mpp ≠ .hypervisor
          rw [hw.mpp]
          split_ifs with haddr
          · subst haddr
            rw [Ne, ofBits_eq_hypervisor_iff]
            exact fun hbits => hno ⟨rfl, machine_of_valid_access hacc, hbits⟩
          · exact hv.mpp
        · rcases hw.satp with hsame | hmode
          · show s₁.satp.mode = 0 ∨ s₁.satp.mode = 8 ∨ s₁.satp.mode = 9
            rw [hsame]
            exact hv.satp
          · exact hmode
  | other t =>
    cases t with
    | none =>
      obtain rfl := Except.ok.inj h
      exact iff_of_true ⟨hv.prv, hv.mpp, hv.satp⟩ id
    | some t => cases h

/-- A write of the reserved encoding is not stopped. -/
theorem exec_reservedMpp {data : BitVec 32} {next : BitVec 64} {i : PrivInstr}
    (h : s.ReservedMpp (.instr data i next)) : ∃ s', s.exec data next i = .ok s' := by
  cases i with
  | csr addr value =>
    cases value with
    | none => exact h.elim
    | some v =>
      obtain ⟨rfl, hprv, -⟩ := h
      refine ⟨_, (if_neg ?_).trans rfl⟩
      rw [isInvalidCsrAccess, hprv, Option.isSome_some]
      decide
  | _ => exact h.elim

/-- In a mode that the architecture knows no instruction fails an assertion. -/
theorem exec_ne_abort (hprv : s.prv ≠ .hypervisor) (data : BitVec 32) (next : BitVec 64)
    (i : PrivInstr) : s.exec data next i ≠ .error .abort := by
  intro h
  cases i with
  | uret => cases h
  | sret =>
    rw [exec] at h
    split_ifs at h
    cases h
  | mret => cases h
  | ecall =>
    simp only [exec] at h
    split at h
    case h_4 hp => exact hprv hp
    all_goals cases h
  | csr addr value =>
    rcases s.exec_csr_cases data next addr value with hok | ⟨-, -, hok⟩ | ⟨v, s₁, -, -, -, hok⟩ <;>
      rw [hok] at h <;> cases h
  | other t => cases t <;> cases h

/-- Address translation fails no assertion while level and mode are among the supported ones. -/
theorem translateAborts_eq_false (hv : s.Valid) (type : MemoryAccessType) (tlbHit : Bool) :
    s.translateAborts type tlbHit = false := by
  have hmode : (if type ≠ .fetch ∧ s.csrs.mstatus.mprv then s.csrs.mstatus.mpp else s.prv) ≠
      .hypervisor := by
    split_ifs
    · exact hv.mpp
    · exact hv.prv
  unfold translateAborts
  rcases hv.satp with h | h | h
  · exact if_pos h
  all_goals
    generalize (if type ≠ .fetch ∧ s.csrs.mstatus.mprv then s.csrs.mstatus.mpp else s.prv) = mode
      at hmode
    rw [h]
    cases mode with
    | hypervisor => exact absurd rfl hmode
    | _ => cases tlbHit <;> rfl

/-- From supported encodings a step is safe unless it writes the reserved one. -/
theorem safeStep_iff (hv : s.Valid) (e : PrivEvent) : s.SafeStep e ↔ ¬s.ReservedMpp e := by
  cases e with
  | instr data i next =>
    unfold SafeStep
    cases hexec : s.exec data next i with
    | ok s' =>
      rw [step, hexec]
      exact (and_iff_right (by rintro ⟨⟩)).trans (exec_valid_iff hv hexec)
    | error stop =>
      cases stop with
      | abort => exact absurd hexec (exec_ne_abort hv.prv data next i)
      | trap t =>
        obtain ⟨s', ht, -⟩ := handleTrap_isSome hv.prv t
        simp only [step, hexec, ht]
        refine iff_of_true ⟨by rintro ⟨⟩, Taken.valid (Or.inl ⟨t, ht⟩) hv⟩ fun hr => ?_
        obtain ⟨s'', hok⟩ := exec_reservedMpp hr
        rw [hexec] at hok
        cases hok
  | access type tlbHit =>
    refine iff_of_true ⟨?_, hv⟩ id
    show (if s.translateAborts type tlbHit = true then PrivOut.aborted else .completed) ≠ .aborted
    rw [translateAborts_eq_false hv]
    rintro ⟨⟩
  | interrupt => exact iff_of_true ⟨by rintro ⟨⟩, handleInterrupt_valid hv⟩ id
  | irq mip => exact iff_of_true ⟨by rintro ⟨⟩, hv.prv, hv.mpp, hv.satp⟩ id

end Priv

/-- **From reset, `prv`, `mpp` and the mode of `satp` hold supported encodings and no assertion fails along
a run, if and only if no write of `mstatus` in machine mode has the reserved encoding of `mpp`.** -/
theorem encodings_iff (entrypoint : BitVec 64) (es : List PrivEvent) :
    Run.Along Priv.SafeStep Priv.step (Priv.reset entrypoint) es ↔
      Run.Along (fun s e => ¬s.ReservedMpp e) Priv.step (Priv.reset entrypoint) es := by
  have hv := Priv.reset_valid entrypoint
  constructor
  · refine Run.Along.of_invariant Priv.Valid (fun s e hv h => ⟨?_, h.2⟩) hv
    exact (Priv.safeStep_iff hv e).1 h
  · refine Run.Along.of_invariant Priv.Valid (fun s e hv h => ?_) hv
    have hsafe := (Priv.safeStep_iff hv e).2 h
    exact ⟨hsafe, hsafe.2⟩

/-- From reset: the reserved encoding, a return to it, and `ECALL`. -/
def reservedRun : List PrivEvent :=
  [.instr 0x30001073 (.csr 0x300 (some 0x1000)) 0x80000004, .instr 0x30200073 .mret 0,
    .instr 0x00000073 .ecall 0]

/-- The privilege level becomes the reserved one, and `ECALL` ends the simulation. -/
theorem not_safeStep_reservedRun :
    ¬Run.Along Priv.SafeStep Priv.step (Priv.reset 0x80000000) reservedRun ∧
      (Run.final Priv.step (Priv.reset 0x80000000) (reservedRun.take 2)).prv = .hypervisor ∧
      Run.outputs Priv.step (Priv.reset 0x80000000) reservedRun = [.completed, .completed, .aborted] := by
  refine ⟨?_, by decide, by decide⟩
  rintro ⟨-, -, ⟨hno, -⟩, -⟩
  exact hno (by decide)

end RiscvVp
