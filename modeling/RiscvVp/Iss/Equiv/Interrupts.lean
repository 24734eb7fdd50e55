import RiscvVp.Iss.Privileged
import Mathlib

/-!
# Traps and interrupts against the privileged architecture

`MustTake` and `TrapTarget` say what the privileged architecture, with user-level interrupts, asks for:
which interrupts have to be taken, which of them first, and which mode a trap goes to.  The trap functions
of the ISS do the same, and a return from the handler restores what the trap has saved
(`handleInterrupt_spec`, `trapTargetMode_spec`, `xret_restores`).
-/

namespace RiscvVp

/-! ### What the architecture asks for -/

/-- The interrupt enable bit of a mode. -/
def Mstatus.xie (m : Mstatus) : PrivilegeLevel → Bool
  | .machine => m.mie
  | .supervisor => m.sie
  | _ => m.uie

namespace Csrs

variable (c : Csrs) (prv : PrivilegeLevel)

/-- The mode that an interrupt is delegated to. -/
def interruptTarget (i : ℕ) : PrivilegeLevel :=
  if c.mideleg.getLsbD i = false then .machine
  else if c.sideleg.getLsbD i = false then .supervisor
  else .user

/-- Interrupts to a mode are enabled: those to a higher mode always, those to the current one if its
enable bit is set. -/
def Enabled (mode : PrivilegeLevel) : Prop :=
  prv.val < mode.val ∨ (prv = mode ∧ c.mstatus.xie mode = true)

/-- An interrupt is pending, enabled, delegated to a mode, and interrupts to this mode are enabled. -/
def MustTake (mode : PrivilegeLevel) (i : ℕ) : Prop :=
  (c.mip.getLsbD i = true ∧ c.mie.val.getLsbD i = true) ∧ c.interruptTarget i = mode ∧
    c.Enabled prv mode

/-- The order of interrupts to one mode: `MEI`, `MSI`, `MTI`, `SEI`, `SSI`, `STI`, `UEI`, `USI`, `UTI`. -/
def interruptOrder : List ℕ := [11, 3, 7, 9, 1, 5, 8, 0, 4]

/-- The interrupt that has to be taken before all others: to the highest mode, and the first of these in
the order. -/
def FirstToTake (mode : PrivilegeLevel) (i : ℕ) : Prop :=
  c.MustTake prv mode i ∧ ∀ mode' i', c.MustTake prv mode' i' →
    mode'.val < mode.val ∨ (mode' = mode ∧ interruptOrder.idxOf i ≤ interruptOrder.idxOf i')

/-- A trap with a code goes to a mode: to the current one or a higher one, as it is delegated. -/
def TrapTarget (code : ℕ) (mode : PrivilegeLevel) : Prop :=
  match mode with
  | .machine => prv = .machine ∨ c.medeleg.getLsbD code = false
  | .supervisor => prv ≠ .machine ∧ c.medeleg.getLsbD code = true ∧
      (prv = .supervisor ∨ c.sedeleg.getLsbD code = false)
  | .user => prv = .user ∧ c.medeleg.getLsbD code = true ∧ c.sedeleg.getLsbD code = true
  | .hypervisor => False

end Csrs

/-! ### Interrupts -/

/-- The element that `find?` finds comes before every other one that it could have found. -/
theorem idxOf_le_of_find? {l : List ℕ} {q : ℕ → Bool} {a b : ℕ} (h : l.find? q = some a)
    (hb : b ∈ l) (hq : q b = true) : l.idxOf a ≤ l.idxOf b := by
  induction l with
  | nil => exact nomatch hb
  | cons x l ih =>
    by_cases hx : q x = true
    · rw [List.find?_cons_of_pos hx] at h
      obtain rfl := Option.some.inj h
      rw [List.idxOf_cons_self]
      exact Nat.zero_le _
    · rw [List.find?_cons_of_neg hx] at h
      have ha : q a = true := List.find?_some h
      have hne : ∀ y, q y = true → x ≠ y := by
        rintro y hy rfl
        exact hx hy
      have hbl : b ∈ l := by
        rcases List.mem_cons.mp hb with rfl | hbl
        · exact absurd rfl (hne b hq)
        · exact hbl
      rw [List.idxOf_cons_ne _ (hne a ha), List.idxOf_cons_ne _ (hne b hq)]
      exact Nat.succ_le_succ (ih h hbl)

namespace Csrs

variable {c : Csrs} {prv mode : PrivilegeLevel} {i : ℕ}

/-- The pending and enabled interrupts to a mode. -/
def pendingFor (c : Csrs) : PrivilegeLevel → BitVec 64
  | .machine => c.mPending
  | .supervisor => c.sPending
  | _ => c.uPending

theorem getLsbD_pendingFor (hmode : mode ≠ .hypervisor) :
    (c.pendingFor mode).getLsbD i = true ↔
      (c.mip.getLsbD i = true ∧ c.mie.val.getLsbD i = true) ∧ c.interruptTarget i = mode := by
  by_cases hi : i < 64
  · cases hd : c.mideleg.getLsbD i <;> cases hs : c.sideleg.getLsbD i <;> cases mode <;>
      simp_all [pendingFor, mPending, sPending, uPending, interruptTarget, and_comm]
  · have hge : 64 ≤ i := not_lt.mp hi
    rw [BitVec.getLsbD_of_ge _ _ hge, BitVec.getLsbD_of_ge _ _ hge]
    simp

/-- An interrupt that can be enabled has a place in the order. -/
theorem mem_interruptOrder (h : c.mie.val.getLsbD i = true) : i ∈ interruptOrder := by
  by_cases hi : i < 64
  · have hmask : mieMask.getLsbD i = true := by
      have hzero := congrArg (fun v => v.getLsbD i) c.mie.masked
      simpa [hi, h] using hzero
    have hmem : ∀ j : Fin 64, mieMask.getLsbD j = true → (j : ℕ) ∈ interruptOrder := by decide
    exact hmem ⟨i, hi⟩ hmask
  · rw [BitVec.getLsbD_of_ge _ _ (not_lt.mp hi)] at h
    exact nomatch h

theorem interruptTarget_ne_hypervisor : c.interruptTarget i ≠ .hypervisor := by
  rw [interruptTarget]
  split_ifs <;> decide

theorem MustTake.mode_ne (h : c.MustTake prv mode i) : mode ≠ .hypervisor := by
  rw [← h.2.1]
  exact interruptTarget_ne_hypervisor

theorem MustTake.pending_ne_zero (h : c.MustTake prv mode i) : c.pendingFor mode ≠ 0 := by
  intro hzero
  have hbit := (getLsbD_pendingFor h.mode_ne).mpr ⟨h.1, h.2.1⟩
  rw [hzero] at hbit
  exact absurd hbit (by simp)

/-- A pending interrupt to a mode whose interrupts are enabled has to be taken. -/
theorem exists_mustTake (mode : PrivilegeLevel) (hmode : mode ≠ .hypervisor)
    (hp : c.pendingFor mode ≠ 0) (he : c.Enabled prv mode) : ∃ i, c.MustTake prv mode i := by
  by_contra hno
  apply hp
  apply BitVec.eq_of_getLsbD_eq
  intro i _
  show (c.pendingFor mode).getLsbD i = (0#64).getLsbD i
  rw [BitVec.getLsbD_zero, Bool.eq_false_iff]
  intro hbit
  obtain ⟨h1, h2⟩ := (getLsbD_pendingFor hmode).mp hbit
  exact hno ⟨i, h1, h2, he⟩

theorem enabled_user : c.Enabled prv .user ↔ prv = .user ∧ c.mstatus.uie = true := by
  simp [Enabled, PrivilegeLevel.val, Mstatus.xie]

/-- Without an interrupt that has to be taken, `compute_pending_interrupts` returns none. -/
theorem computePendingInterrupts_eq_none_iff :
    c.computePendingInterrupts prv = none ↔ ∀ mode i, ¬c.MustTake prv mode i := by
  rw [← Option.not_isSome_iff_eq_none, computePendingInterrupts_isSome_iff]
  constructor
  · intro hno mode i h
    apply hno
    cases mode with
    | machine => exact Or.inl ⟨h.pending_ne_zero, h.2.2⟩
    | supervisor => exact Or.inr (Or.inl ⟨h.pending_ne_zero, h.2.2⟩)
    | user => exact Or.inr (Or.inr ⟨h.pending_ne_zero, enabled_user.mp h.2.2⟩)
    | hypervisor => exact absurd rfl h.mode_ne
  · rintro hno (⟨hp, he⟩ | ⟨hp, he⟩ | ⟨hp, he⟩)
    · obtain ⟨i, hi⟩ := exists_mustTake .machine (by decide) hp he
      exact hno _ i hi
    · obtain ⟨i, hi⟩ := exists_mustTake .supervisor (by decide) hp he
      exact hno _ i hi
    · obtain ⟨i, hi⟩ := exists_mustTake .user (by decide) hp (enabled_user.mpr he)
      exact hno _ i hi

/-- `compute_pending_interrupts` returns the interrupts to the highest mode for which there is one that
has to be taken. -/
theorem computePendingInterrupts_highest {p : BitVec 64}
    (h : c.computePendingInterrupts prv = some (mode, p)) :
    p = c.pendingFor mode ∧ mode ≠ .hypervisor ∧ c.Enabled prv mode ∧
      ∀ mode' i, c.MustTake prv mode' i → mode'.val ≤ mode.val := by
  unfold computePendingInterrupts at h
  split_ifs at h with h0 h1 h2 h3
  · cases h
    refine ⟨rfl, by decide, h1.2, fun mode' i _ => ?_⟩
    cases mode' <;> decide
  · cases h
    refine ⟨rfl, by decide, h2.2, fun mode' i hi => ?_⟩
    cases mode' with
    | machine => exact absurd ⟨hi.pending_ne_zero, hi.2.2⟩ h1
    | supervisor => decide
    | user => decide
    | hypervisor => exact absurd rfl hi.mode_ne
  · cases h
    refine ⟨rfl, by decide, enabled_user.mpr h3.2, fun mode' i hi => ?_⟩
    cases mode' with
    | machine => exact absurd ⟨hi.pending_ne_zero, hi.2.2⟩ h1
    | supervisor => exact absurd ⟨hi.pending_ne_zero, hi.2.2⟩ h2
    | user => decide
    | hypervisor => exact absurd rfl hi.mode_ne

theorem val_injective : Function.Injective PrivilegeLevel.val := by
  intro a b h
  cases a <;> cases b <;> first | rfl | exact absurd h (by decide)

/-- `prepare_interrupt` selects the first of these interrupts. -/
theorem firstToTake_of_interruptCode {p : BitVec 64} (h : c.computePendingInterrupts prv = some (mode, p))
    (hcode : interruptCode p = some i) : c.FirstToTake prv mode i := by
  obtain ⟨rfl, hmode, he, hmax⟩ := computePendingInterrupts_highest h
  have hbit : (c.pendingFor mode).getLsbD i = true := List.find?_some hcode
  obtain ⟨h1, h2⟩ := (getLsbD_pendingFor hmode).mp hbit
  refine ⟨⟨h1, h2, he⟩, fun mode' i' h' => ?_⟩
  rcases Nat.lt_or_eq_of_le (hmax mode' i' h') with hlt | heq
  · exact Or.inl hlt
  · obtain rfl := val_injective heq
    have hbit' := (getLsbD_pendingFor hmode).mpr ⟨h'.1, h'.2.1⟩
    exact Or.inr ⟨rfl, idxOf_le_of_find? hcode (mem_interruptOrder h'.1.2) hbit'⟩

/-- **`handle_interrupt` takes an interrupt if and only if one has to be taken, to the mode and with the
cause of the one that comes first, and goes to the handler of this mode.** -/
theorem handleInterrupt_spec (c : Csrs) (prv : PrivilegeLevel) (pc : BitVec 64) :
    match c.handleInterrupt prv pc with
    | none => ∀ mode i, ¬c.MustTake prv mode i
    | some (mode, c', pc') => ∃ i, c.FirstToTake prv mode i ∧
        (c'.trapRegs mode).cause = ⟨true, BitVec.ofNat 63 i⟩ ∧ pc' = handlerPc (c'.trapRegs mode) := by
  cases h : c.handleInterrupt prv pc with
  | none => exact computePendingInterrupts_eq_none_iff.mp (handleInterrupt_eq_none h)
  | some r =>
    unfold handleInterrupt at h
    split at h
    · cases h
    · next mode p hp =>
      rw [prepareInterrupt, Option.map_map, Option.map_eq_some_iff] at h
      obtain ⟨i, hi, rfl⟩ := h
      refine ⟨i, firstToTake_of_interruptCode hp hi, ?_⟩
      cases mode <;> exact ⟨rfl, rfl⟩

/-! ### Traps -/

/-- **A trap goes to the mode that it is delegated to.** -/
theorem trapTargetMode_spec (c : Csrs) {prv : PrivilegeLevel} (hprv : prv ≠ .hypervisor)
    (e : SimulationTrap) :
    c.TrapTarget prv e.reason.code (c.trapTargetMode prv e) ∧
      prv.val ≤ (c.trapTargetMode prv e).val := by
  unfold trapTargetMode
  split_ifs with h1 h2
  · refine ⟨h1, ?_⟩
    cases prv <;> decide
  · rw [not_or, Bool.not_eq_false] at h1
    refine ⟨⟨h1.1, h1.2, h2⟩, ?_⟩
    cases prv with
    | user => decide
    | supervisor => decide
    | machine => exact absurd rfl h1.1
    | hypervisor => exact absurd rfl hprv
  · rw [not_or, Bool.not_eq_false] at h1 h2
    have huser : prv = .user := by
      cases prv with
      | user => rfl
      | supervisor => exact absurd rfl h2.1
      | machine => exact absurd rfl h1.1
      | hypervisor => exact absurd rfl hprv
    subst huser
    exact ⟨⟨rfl, h1.2, h2.2⟩, le_rfl⟩

/-! ### Returns -/

/-- A return from the handler undoes what `switch_to_trap_handler` has done to the privilege level, to
the interrupt enable bit and to `pc`. -/
theorem returnFromTrapHandler_switchToTrapHandler (c : Csrs) {prv mode : PrivilegeLevel}
    (pc : BitVec 64) (hprv : prv ≠ .hypervisor) (hmode : mode ≠ .hypervisor)
    (hle : prv.val ≤ mode.val) :
    let r := (c.switchToTrapHandler prv mode pc).1.returnFromTrapHandler mode
    r.1 = prv ∧ r.2.1.mstatus.xie mode = c.mstatus.xie mode ∧ r.2.2 = pc := by
  cases mode with
  | machine => exact ⟨rfl, rfl, rfl⟩
  | supervisor =>
    cases prv with
    | user => exact ⟨rfl, rfl, rfl⟩
    | supervisor => exact ⟨rfl, rfl, rfl⟩
    | hypervisor => exact absurd rfl hprv
    | machine => exact absurd hle (by decide)
  | user =>
    cases prv with
    | user => exact ⟨rfl, rfl, rfl⟩
    | supervisor => exact absurd hle (by decide)
    | hypervisor => exact absurd rfl hprv
    | machine => exact absurd hle (by decide)
  | hypervisor => exact absurd rfl hmode

theorem trapTargetMode_ne_hypervisor (c : Csrs) (prv : PrivilegeLevel) (e : SimulationTrap) :
    c.trapTargetMode prv e ≠ .hypervisor := by
  rw [trapTargetMode]
  split_ifs <;> decide

theorem mstatus_setTrapRegs (c : Csrs) (mode : PrivilegeLevel) (r : TrapRegs) :
    (c.setTrapRegs mode r).mstatus = c.mstatus := by
  cases mode <;> rfl

end Csrs

/-- The instruction that returns from the handler of a mode. -/
def PrivInstr.xret : PrivilegeLevel → PrivInstr
  | .machine => .mret
  | .supervisor => .sret
  | _ => .uret

namespace Priv

variable {s s' : Priv}

/-- A trap or an interrupt leads from one state to another. -/
def Taken (s s' : Priv) : Prop :=
  (∃ t, s.handleTrap t = some s') ∨
    ∃ r, s.csrs.handleInterrupt s.prv s.pc = some r ∧
      s' = { s with prv := r.1, csrs := r.2.1, pc := r.2.2 }

/-- What a trap or an interrupt does. -/
theorem Taken.cases (h : s.Taken s') (hprv : s.prv ≠ .hypervisor) :
    ∃ c : Csrs, c.mstatus = s.csrs.mstatus ∧
    s'.csrs = (c.switchToTrapHandler s.prv s'.prv s.pc).1 ∧ s'.prv ≠ .hypervisor ∧
    s.prv.val ≤ s'.prv.val ∧ s'.tsr = s.tsr := by
  rcases h with ⟨t, h⟩ | ⟨r, h, rfl⟩
  · rw [handleTrap] at h
    split_ifs at h
    obtain rfl := Option.some.inj h
    exact ⟨_, s.csrs.mstatus_setTrapRegs _ _, rfl, s.csrs.trapTargetMode_ne_hypervisor s.prv t,
      (s.csrs.trapTargetMode_spec hprv t).2, rfl⟩
  · unfold Csrs.handleInterrupt at h
    split at h
    · cases h
    · next mode p hp =>
      rw [Csrs.prepareInterrupt, Option.map_map, Option.map_eq_some_iff] at h
      obtain ⟨i, -, rfl⟩ := h
      obtain ⟨-, hmode, he, -⟩ := Csrs.computePendingInterrupts_highest hp
      refine ⟨_, s.csrs.mstatus_setTrapRegs _ _, rfl, hmode, ?_, rfl⟩
      rcases he with hlt | ⟨heq, -⟩
      · exact le_of_lt hlt
      · exact le_of_eq (congrArg PrivilegeLevel.val heq)

/-- A trap from a mode that the architecture knows does not end the simulation. -/
theorem handleTrap_isSome (hprv : s.prv ≠ .hypervisor) (t : SimulationTrap) :
    ∃ s', s.handleTrap t = some s' ∧ s'.prv = s.csrs.trapTargetMode s.prv t := by
  have hok : ¬(s.csrs.trapTargetMode s.prv t = .user ∧ s.prv ≠ .user) := by
    rintro ⟨hu, hne⟩
    have htarget := (s.csrs.trapTargetMode_spec hprv t).1
    rw [hu] at htarget
    exact hne htarget.1
  exact ⟨_, if_neg hok, rfl⟩

/-- A return from the handler restores the privilege level, the interrupt enable bit of the handler's mode
and `pc`; `TSR` forbids the one to supervisor mode. -/
theorem xret_restores (h : s.Taken s') (hprv : s.prv ≠ .hypervisor) (data : BitVec 32)
    (next : BitVec 64) :
    if s'.prv = .supervisor ∧ s.tsr = true then
      s'.exec data next (.xret s'.prv) = raiseIllegal data
    else ∃ s'', s'.exec data next (.xret s'.prv) = .ok s'' ∧ s''.prv = s.prv ∧
      s''.csrs.mstatus.xie s'.prv = s.csrs.mstatus.xie s'.prv ∧ s''.pc = s.pc := by
  obtain ⟨c, hm, hcsrs, hmode, hle, htsr⟩ := h.cases hprv
  have hret := c.returnFromTrapHandler_switchToTrapHandler s.pc hprv hmode hle
  rw [← hcsrs, hm] at hret
  split_ifs with hS
  · rw [hS.1]
    exact if_pos ⟨hS.1, htsr.trans hS.2⟩
  · have hexec : s'.exec data next (.xret s'.prv) = .ok (s'.returnFromTrapHandler s'.prv) := by
      cases hp : s'.prv with
      | machine => rfl
      | supervisor =>
        refine if_neg fun hn => hS ⟨hp, ?_⟩
        rw [← htsr]
        exact hn.2
      | user => rfl
      | hypervisor => exact absurd hp hmode
    exact ⟨_, hexec, hret⟩

end Priv

/-- **For every state of the registers and every mode that the architecture knows: an interrupt is taken
if and only if one has to be, the one that comes first; a trap goes to the mode that it is delegated to,
which is not below the present one; and a return from the handler restores what was before, unless `TSR`
forbids it.** -/
theorem trapHandling_spec (s : Priv) (hprv : s.prv ≠ .hypervisor) :
    (match s.csrs.handleInterrupt s.prv s.pc with
      | none => ∀ mode i, ¬s.csrs.MustTake s.prv mode i
      | some (mode, c', pc') => ∃ i, s.csrs.FirstToTake s.prv mode i ∧
          (c'.trapRegs mode).cause = ⟨true, BitVec.ofNat 63 i⟩ ∧
          pc' = Csrs.handlerPc (c'.trapRegs mode)) ∧
    (∀ t, ∃ s', s.handleTrap t = some s' ∧ s.csrs.TrapTarget s.prv t.reason.code s'.prv ∧
      s.prv.val ≤ s'.prv.val) ∧
    ∀ s', s.Taken s' → ∀ data next,
      if s'.prv = .supervisor ∧ s.tsr = true then
        s'.exec data next (.xret s'.prv) = Priv.raiseIllegal data
      else ∃ s'', s'.exec data next (.xret s'.prv) = .ok s'' ∧ s''.prv = s.prv ∧
        s''.csrs.mstatus.xie s'.prv = s.csrs.mstatus.xie s'.prv ∧ s''.pc = s.pc := by
  refine ⟨s.csrs.handleInterrupt_spec s.prv s.pc, fun t => ?_,
    fun s' h data next => Priv.xret_restores h hprv data next⟩
  obtain ⟨s', h, hmode⟩ := Priv.handleTrap_isSome hprv t
  exact ⟨s', h, hmode ▸ s.csrs.trapTargetMode_spec hprv t⟩

/-- User mode, all traps delegated to supervisor mode, and `TSR` set. -/
def Priv.trapVm : Priv :=
  { Priv.reset 0x80000000 with
    csrs := { Csrs.reset with medeleg := 0xFFFF }
    tsr := true
    prv := .user }

theorem trapHandling_spec_trapVm : Priv.trapVm.prv ≠ .hypervisor ∧
    ∃ s', Priv.trapVm.handleTrap ⟨.loadPageFault, 0⟩ = some s' ∧
      Priv.trapVm.csrs.TrapTarget .user 13 s'.prv ∧ (0 : ℕ) ≤ s'.prv.val :=
  ⟨by decide, (trapHandling_spec Priv.trapVm (by decide)).2.1 ⟨.loadPageFault, 0⟩⟩

/-- There the `SRET` of the handler is an illegal instruction. -/
theorem not_restores_trapVm : ∃ s', Priv.trapVm.Taken s' ∧
    ¬∃ s'', s'.exec 0x10200073 0x80000004 (.xret s'.prv) = .ok s'' ∧ s''.prv = Priv.trapVm.prv ∧
      s''.csrs.mstatus.xie s'.prv = Priv.trapVm.csrs.mstatus.xie s'.prv ∧
      s''.pc = Priv.trapVm.pc := by
  refine ⟨_, Or.inl ⟨⟨.loadPageFault, 0⟩, rfl⟩, ?_⟩
  rintro ⟨s'', h, -⟩
  exact nomatch h

end RiscvVp
