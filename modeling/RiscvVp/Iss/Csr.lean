import RiscvVp.Trap

/-!
# Control and status registers

The registers of `rv64/csr.h` that trap handling, interrupts and address translation read and
write, and the trap functions of `rv64/iss_ctemplate.cpp` on them: `prepare_trap`,
`switch_to_trap_handler`, `return_from_trap_handler`, `compute_pending_interrupts`,
`prepare_interrupt`.

The trap functions also write the `pc` member; here they return it.  What they do to the caches
belongs to the ISS that calls them.
-/

namespace RiscvVp

/-- `PrivilegeLevel`.  `mstatus.mpp` has two bits and is not checked when it is written, so the
unused encoding `0b10` occurs, too. -/
inductive PrivilegeLevel
  | user
  | supervisor
  | hypervisor
  | machine
  deriving DecidableEq, Repr

/-- The encoding, by which the source compares privilege levels. -/
def PrivilegeLevel.val : PrivilegeLevel → ℕ
  | .user => 0
  | .supervisor => 1
  | .hypervisor => 2
  | .machine => 3

/-- `csr_mstatus`: the fields that traps, returns and address translation use. -/
structure Mstatus where
  uie : Bool
  sie : Bool
  mie : Bool
  upie : Bool
  spie : Bool
  mpie : Bool
  spp : Bool
  mpp : PrivilegeLevel
  mprv : Bool
  sum : Bool
  mxr : Bool
  deriving DecidableEq, Repr

/-- `csr_mtvec`, `stvec` and `utvec`. -/
structure Tvec where
  mode : BitVec 2
  base : BitVec 62
  deriving DecidableEq, Repr

/-- `get_base_address`: the address of the handler, a multiple of four. -/
def Tvec.getBaseAddress (t : Tvec) : BitVec 64 := t.base.setWidth 64 <<< 2

/-- `csr_mcause`, `scause` and `ucause`. -/
structure Cause where
  interrupt : Bool
  exceptionCode : BitVec 63
  deriving DecidableEq, Repr

/-- The values of `satp.mode` that `set_csr_value` lets through on RV64. -/
inductive SatpMode
  | bare
  | sv39
  | sv48
  deriving DecidableEq, Repr

/-- `csr_satp`: the mode of address translation, the address space and the page of the root table. -/
structure Satp where
  ppn : BitVec 44
  asid : BitVec 16
  mode : SatpMode
  deriving DecidableEq, Repr

/-- The trap registers of one mode. -/
structure TrapRegs where
  epc : BitVec 64
  cause : Cause
  tval : BitVec 64
  tvec : Tvec
  deriving DecidableEq, Repr

/-- `MIE_MASK`: the interrupts there are. -/
def mieMask : BitVec 64 := 0b101110111011

/-- `csr_mie`; every write of it is masked with `MIE_MASK`. -/
structure Mie where
  val : BitVec 64
  masked : val &&& ~~~mieMask = 0
  deriving DecidableEq, Repr

/-- The registers: `mepc`, `mcause`, `mtval`, `mtvec` are `m.epc` and so on. -/
structure Csrs where
  mstatus : Mstatus
  m : TrapRegs
  s : TrapRegs
  u : TrapRegs
  medeleg : BitVec 64
  sedeleg : BitVec 64
  mie : Mie
  mip : BitVec 64
  mideleg : BitVec 64
  sideleg : BitVec 64
  satp : Satp
  deriving DecidableEq, Repr

/-- All registers as the constructors leave them. -/
def Csrs.reset : Csrs :=
  let regs : TrapRegs := ⟨0, ⟨false, 0⟩, 0, ⟨0, 0⟩⟩
  { mstatus := ⟨false, false, false, false, false, false, false, .user, false, false, false⟩
    m := regs, s := regs, u := regs
    medeleg := 0, sedeleg := 0, mie := ⟨0, by decide⟩, mip := 0, mideleg := 0, sideleg := 0
    satp := ⟨0, 0, .bare⟩ }

namespace Csrs

/-! ### Traps -/

/-- The trap registers of the mode a trap is taken to; only `user`, `supervisor` and `machine` take
traps. -/
def trapRegs (c : Csrs) : PrivilegeLevel → TrapRegs
  | .machine => c.m
  | .supervisor => c.s
  | _ => c.u

/-- Write the trap registers of a mode. -/
def setTrapRegs (c : Csrs) (mode : PrivilegeLevel) (r : TrapRegs) : Csrs :=
  match mode with
  | .machine => { c with m := r }
  | .supervisor => { c with s := r }
  | _ => { c with u := r }

/-- The target mode that `prepare_trap` selects. -/
def trapTargetMode (c : Csrs) (prv : PrivilegeLevel) (e : SimulationTrap) : PrivilegeLevel :=
  if prv = .machine ∨ c.medeleg.getLsbD e.reason.code = false then .machine
  else if prv = .supervisor ∨ c.sedeleg.getLsbD e.reason.code = false then .supervisor
  else .user

/-- `prepare_trap`: the cause and value registers of the target mode, and the `pc` member. -/
def prepareTrap (c : Csrs) (prv : PrivilegeLevel) (e : SimulationTrap) (lastPc : BitVec 64) :
    PrivilegeLevel × Csrs × BitVec 64 :=
  let mode := c.trapTargetMode prv e
  let r := { c.trapRegs mode with
    cause := ⟨false, BitVec.ofNat 63 e.reason.code⟩
    tval := e.mtval }
  (mode, c.setTrapRegs mode r, lastPc)

/-- The `mstatus` that `switch_to_trap_handler` writes, coming from mode `pp`. -/
def trapMstatus (m : Mstatus) (pp : PrivilegeLevel) : PrivilegeLevel → Mstatus
  | .machine => { m with mpie := m.mie, mie := false, mpp := pp }
  | .supervisor => { m with spie := m.sie, sie := false, spp := pp.val % 2 == 1 }
  | _ => { m with upie := m.uie, uie := false }

/-- The address of the handler: an interrupt in vectored mode adds four times its code.  The check
for a handler at address zero, which warns or ends the simulation, is not part of the model. -/
def handlerPc (r : TrapRegs) : BitVec 64 :=
  if r.cause.interrupt ∧ r.tvec.mode = 1 then
    r.tvec.getBaseAddress + 4 * r.cause.exceptionCode.setWidth 64
  else
    r.tvec.getBaseAddress

/-- `switch_to_trap_handler` on the registers: the new registers and the address of the handler.
`prv` becomes the target mode. -/
def switchToTrapHandler (c : Csrs) (prv mode : PrivilegeLevel) (pc : BitVec 64) :
    Csrs × BitVec 64 :=
  let r := { c.trapRegs mode with epc := pc }
  let c := { c.setTrapRegs mode r with mstatus := trapMstatus c.mstatus prv mode }
  (c, handlerPc r)

/-- `return_from_trap_handler` on the registers: `prv`, the registers and `pc`.  User mode is
always implemented (`csr_misa::U`). -/
def returnFromTrapHandler (c : Csrs) : PrivilegeLevel → PrivilegeLevel × Csrs × BitVec 64
  | .machine =>
    (c.mstatus.mpp,
      { c with mstatus := { c.mstatus with mie := c.mstatus.mpie, mpie := true, mpp := .user } },
      c.m.epc)
  | .supervisor =>
    (if c.mstatus.spp then .supervisor else .user,
      { c with mstatus := { c.mstatus with sie := c.mstatus.spie, spie := true, spp := false } },
      c.s.epc)
  | _ =>
    (.user, { c with mstatus := { c.mstatus with uie := c.mstatus.upie, upie := true } }, c.u.epc)

/-! ### Interrupts -/

/-- `m_pending` of `compute_pending_interrupts`: enabled and pending, and not handed down. -/
def mPending (c : Csrs) : BitVec 64 := c.mie.val &&& c.mip &&& ~~~c.mideleg

/-- `s_pending` of `compute_pending_interrupts`: handed down once. -/
def sPending (c : Csrs) : BitVec 64 := c.mie.val &&& c.mip &&& c.mideleg &&& ~~~c.sideleg

/-- `u_pending` of `compute_pending_interrupts`: handed down twice. -/
def uPending (c : Csrs) : BitVec 64 := c.mie.val &&& c.mip &&& c.mideleg &&& c.sideleg

/-- `compute_pending_interrupts`: the level that takes an interrupt, and those for it; `none` is `NoneMode`. -/
def computePendingInterrupts (c : Csrs) (prv : PrivilegeLevel) :
    Option (PrivilegeLevel × BitVec 64) :=
  if c.mie.val &&& c.mip = 0 then none
  else if c.mPending ≠ 0 ∧ (prv.val < 3 ∨ (prv = .machine ∧ c.mstatus.mie)) then
    some (.machine, c.mPending)
  else if c.sPending ≠ 0 ∧ (prv.val < 1 ∨ (prv = .supervisor ∧ c.mstatus.sie)) then
    some (.supervisor, c.sPending)
  else if c.uPending ≠ 0 ∧ prv = .user ∧ c.mstatus.uie then
    some (.user, c.uPending)
  else none

/-- The code that `prepare_interrupt` selects: external before software before timer, and machine
before supervisor before user.  The bits of `mip` are `usip` 0, `ssip` 1, `msip` 3, `utip` 4,
`stip` 5, `mtip` 7, `ueip` 8, `seip` 9, `meip` 11, and the codes are the bit numbers. -/
def interruptCode (pending : BitVec 64) : Option ℕ :=
  [11, 3, 7, 9, 1, 5, 8, 0, 4].find? fun i => pending.getLsbD i

/-- `prepare_interrupt`: the cause register of the target mode.  Without a bit that it knows the
source throws. -/
def prepareInterrupt (c : Csrs) (mode : PrivilegeLevel) (pending : BitVec 64) : Option Csrs :=
  (interruptCode pending).map fun code =>
    c.setTrapRegs mode { c.trapRegs mode with cause := ⟨true, BitVec.ofNat 63 code⟩ }

/-- `handle_interrupt` on the registers: the new mode, registers and handler if an interrupt is
taken at `pc`. -/
def handleInterrupt (c : Csrs) (prv : PrivilegeLevel) (pc : BitVec 64) :
    Option (PrivilegeLevel × Csrs × BitVec 64) :=
  match c.computePendingInterrupts prv with
  | none => none
  | some (mode, pending) =>
    (c.prepareInterrupt mode pending).map fun c => (mode, c.switchToTrapHandler prv mode pc)

/-- `handle_trap` on the registers: the new level, the saved state, and the address of the handler. -/
def handleTrap (c : Csrs) (prv : PrivilegeLevel) (e : SimulationTrap) (lastPc : BitVec 64) :
    PrivilegeLevel × Csrs × BitVec 64 :=
  let r := c.prepareTrap prv e lastPc
  (r.1, r.2.1.switchToTrapHandler prv r.1 r.2.2)

/-! ### What a trap leaves -/

@[simp] theorem trapRegs_setTrapRegs (c : Csrs) (mode : PrivilegeLevel) (r : TrapRegs) :
    (c.setTrapRegs mode r).trapRegs mode = r := by
  cases mode <;> rfl

/-- The exception program counter of the mode that takes the trap. -/
theorem epc_handleTrap (c : Csrs) (prv : PrivilegeLevel) (e : SimulationTrap) (lastPc : BitVec 64) :
    ((c.handleTrap prv e lastPc).2.1.trapRegs (c.handleTrap prv e lastPc).1).epc = lastPc := by
  simp only [handleTrap, prepareTrap, switchToTrapHandler]
  cases c.trapTargetMode prv e <;> rfl

theorem getBaseAddress_getLsbD_zero (t : Tvec) : t.getBaseAddress.getLsbD 0 = false := by
  simp [Tvec.getBaseAddress]

/-- A handler is at an even address. -/
theorem handlerPc_getLsbD_zero (r : TrapRegs) : (handlerPc r).getLsbD 0 = false := by
  have hshift : ∀ x : BitVec 64, (4 : BitVec 64) * x = x <<< 2 := by
    intro x
    apply BitVec.eq_of_toNat_eq
    simp [BitVec.toNat_mul, Nat.shiftLeft_eq, Nat.mul_comm]
  unfold handlerPc
  split
  · rw [BitVec.getLsbD_add (by decide), hshift]
    simp [Tvec.getBaseAddress]
  · exact getBaseAddress_getLsbD_zero _

theorem handleTrap_getLsbD_zero (c : Csrs) (prv : PrivilegeLevel) (e : SimulationTrap)
    (lastPc : BitVec 64) : (c.handleTrap prv e lastPc).2.2.getLsbD 0 = false :=
  handlerPc_getLsbD_zero _

/-! ### Pending interrupts -/

/-- An interrupt is taken exactly if one is pending and enabled for a level above the current one, or for
this level with its enable bit set. -/
theorem computePendingInterrupts_isSome_iff (c : Csrs) (prv : PrivilegeLevel) :
    (c.computePendingInterrupts prv).isSome ↔
      (c.mPending ≠ 0 ∧ (prv.val < 3 ∨ (prv = .machine ∧ c.mstatus.mie))) ∨
      (c.sPending ≠ 0 ∧ (prv.val < 1 ∨ (prv = .supervisor ∧ c.mstatus.sie))) ∨
      (c.uPending ≠ 0 ∧ prv = .user ∧ c.mstatus.uie) := by
  unfold computePendingInterrupts
  split_ifs with h0 h1 h2 h3
  · simp [mPending, sPending, uPending, h0]
  · simp only [Option.isSome_some, true_iff]
    exact Or.inl h1
  · simp only [Option.isSome_some, true_iff]
    exact Or.inr (Or.inl h2)
  · simp only [Option.isSome_some, true_iff]
    exact Or.inr (Or.inr h3)
  · simp only [Option.isSome_none, Bool.false_eq_true, false_iff, not_or]
    exact ⟨h1, h2, h3⟩

/-- `prepare_interrupt` knows every interrupt that `mie` can enable. -/
theorem interruptCode_isSome {p : BitVec 64} (hp : p ≠ 0) (hm : p &&& ~~~mieMask = 0) :
    (interruptCode p).isSome := by
  unfold interruptCode
  rw [List.find?_isSome]
  by_contra hno
  apply hp
  apply BitVec.eq_of_getLsbD_eq
  intro i hi
  show p.getLsbD i = (0#64).getLsbD i
  rw [BitVec.getLsbD_zero, Bool.eq_false_iff]
  intro hbit
  have hmask : mieMask.getLsbD i = true := by
    have := congrArg (fun v => v.getLsbD i) hm
    simpa [hi, hbit] using this
  have hmem : ∀ j : Fin 64, mieMask.getLsbD j = true → (j : ℕ) ∈ [11, 3, 7, 9, 1, 5, 8, 0, 4] := by
    decide
  exact hno ⟨i, hmem ⟨i, hi⟩ hmask, hbit⟩

theorem and_mieMask (c : Csrs) (q : BitVec 64) : c.mie.val &&& c.mip &&& q &&& ~~~mieMask = 0 := by
  have hac : c.mie.val &&& c.mip &&& q &&& ~~~mieMask =
      c.mie.val &&& ~~~mieMask &&& (c.mip &&& q) := by ac_rfl
  rw [hac, c.mie.masked]
  exact BitVec.zero_and

/-- `compute_pending_interrupts` returns known interrupts, and none are left for a higher mode. -/
theorem computePendingInterrupts_eq_some {c : Csrs} {prv mode : PrivilegeLevel} {p : BitVec 64}
    (h : c.computePendingInterrupts prv = some (mode, p)) :
    (interruptCode p).isSome ∧
      (mode = .machine ∨ (mode = .supervisor ∧ c.mPending = 0) ∨
        (mode = .user ∧ c.mPending = 0 ∧ c.sPending = 0)) := by
  unfold computePendingInterrupts at h
  split_ifs at h with h0 h1 h2 h3
  · cases h
    exact ⟨interruptCode_isSome h1.1 (c.and_mieMask _), Or.inl rfl⟩
  · cases h
    have hlt : prv.val < 3 := by
      rcases h2.2 with hu | ⟨rfl, _⟩
      · omega
      · decide
    refine ⟨interruptCode_isSome h2.1 ?_, Or.inr (Or.inl ⟨rfl, ?_⟩)⟩
    · rw [sPending, BitVec.and_assoc (c.mie.val &&& c.mip)]
      exact c.and_mieMask _
    · by_contra hm
      exact h1 ⟨hm, Or.inl hlt⟩
  · cases h
    obtain ⟨hp, rfl, _⟩ := h3
    refine ⟨interruptCode_isSome hp ?_, Or.inr (Or.inr ⟨rfl, ?_, ?_⟩)⟩
    · rw [uPending, BitVec.and_assoc (c.mie.val &&& c.mip)]
      exact c.and_mieMask _
    · by_contra hm
      exact h1 ⟨hm, Or.inl (by decide)⟩
    · by_contra hs
      exact h2 ⟨hs, Or.inl (by decide)⟩

theorem handleInterrupt_eq_none {c : Csrs} {prv : PrivilegeLevel} {pc : BitVec 64}
    (h : c.handleInterrupt prv pc = none) : c.computePendingInterrupts prv = none := by
  unfold handleInterrupt at h
  split at h
  · next hn => exact hn
  · next hp =>
    obtain ⟨hcode, _⟩ := computePendingInterrupts_eq_some hp
    rw [Option.map_eq_none_iff, prepareInterrupt, Option.map_eq_none_iff] at h
    rw [h] at hcode
    cases hcode

/-- The pending interrupts do not depend on the trap registers and `mstatus`. -/
theorem pending_switchToTrapHandler (c : Csrs) (r : TrapRegs) (prv mode : PrivilegeLevel)
    (pc : BitVec 64) :
    let c' := ((c.setTrapRegs mode r).switchToTrapHandler prv mode pc).1
    c'.mPending = c.mPending ∧ c'.sPending = c.sPending ∧ c'.uPending = c.uPending ∧
      c'.mstatus = trapMstatus c.mstatus prv mode := by
  cases mode <;> exact ⟨rfl, rfl, rfl, rfl⟩

/-- When an interrupt has been taken, no enabled one is left. -/
theorem computePendingInterrupts_handleInterrupt {c : Csrs} {prv : PrivilegeLevel} {pc : BitVec 64}
    {r : PrivilegeLevel × Csrs × BitVec 64} (h : c.handleInterrupt prv pc = some r) :
    (r.2.1.computePendingInterrupts r.1).isSome = false := by
  unfold handleInterrupt at h
  split at h
  · cases h
  · next mode p hp =>
    obtain ⟨_, hmode⟩ := computePendingInterrupts_eq_some hp
    rw [prepareInterrupt, Option.map_map, Option.map_eq_some_iff] at h
    obtain ⟨code, _, rfl⟩ := h
    obtain ⟨hm, hs, hu, hst⟩ := c.pending_switchToTrapHandler
      { c.trapRegs mode with cause := ⟨true, BitVec.ofNat 63 code⟩ } prv mode pc
    rw [Bool.eq_false_iff, ne_eq, computePendingInterrupts_isSome_iff]
    simp only [Function.comp_apply, hm, hs, hu, hst]
    rcases hmode with rfl | ⟨rfl, h1⟩ | ⟨rfl, h1, h2⟩
    · simp [trapMstatus, PrivilegeLevel.val]
    · simp [trapMstatus, PrivilegeLevel.val, h1]
    · simp [trapMstatus, h1, h2]

/-- The modes that take a trap: machine mode, supervisor mode from below machine mode, or user mode. -/
theorem trapTargetMode_cases (c : Csrs) (prv : PrivilegeLevel) (e : SimulationTrap) :
    c.trapTargetMode prv e = .machine ∨ (c.trapTargetMode prv e = .supervisor ∧ prv.val < 3) ∨
      c.trapTargetMode prv e = .user := by
  unfold trapTargetMode
  split_ifs with h1 h2
  · exact Or.inl rfl
  · refine Or.inr (Or.inl ⟨rfl, ?_⟩)
    cases prv with
    | machine => exact absurd (Or.inl rfl) h1
    | _ => decide
  · exact Or.inr (Or.inr rfl)

/-- A trap enables no interrupt: one that would be taken in the handler would have been taken before it. -/
theorem computePendingInterrupts_handleTrap {c : Csrs} {prv : PrivilegeLevel} {e : SimulationTrap}
    {lastPc : BitVec 64} (huser : (c.handleTrap prv e lastPc).1 = .user → prv = .user)
    (h : ((c.handleTrap prv e lastPc).2.1.computePendingInterrupts
      (c.handleTrap prv e lastPc).1).isSome) : (c.computePendingInterrupts prv).isSome := by
  change c.trapTargetMode prv e = .user → prv = .user at huser
  change ((((c.setTrapRegs (c.trapTargetMode prv e)
    { c.trapRegs (c.trapTargetMode prv e) with
      cause := ⟨false, BitVec.ofNat 63 e.reason.code⟩
      tval := e.mtval }).switchToTrapHandler prv (c.trapTargetMode prv e) lastPc).1
    ).computePendingInterrupts (c.trapTargetMode prv e)).isSome = true at h
  have hmode := c.trapTargetMode_cases prv e
  generalize c.trapTargetMode prv e = mode at huser h hmode
  obtain ⟨hm, hs, hu, hst⟩ := c.pending_switchToTrapHandler
    { c.trapRegs mode with
      cause := ⟨false, BitVec.ofNat 63 e.reason.code⟩
      tval := e.mtval } prv mode lastPc
  rw [computePendingInterrupts_isSome_iff] at h ⊢
  simp only [hm, hs, hu, hst] at h
  rcases hmode with rfl | ⟨rfl, hlt⟩ | rfl
  · simp [trapMstatus, PrivilegeLevel.val] at h
  · simp only [trapMstatus, PrivilegeLevel.val] at h
    refine Or.inl ⟨?_, Or.inl hlt⟩
    simpa using h
  · obtain rfl := huser rfl
    simp only [trapMstatus, Bool.false_eq_true, and_false, or_false] at h
    rcases h with h | h
    · exact Or.inl ⟨h.1, Or.inl (by decide)⟩
    · exact Or.inr (Or.inl ⟨h.1, Or.inl (by decide)⟩)

/-- Clearing bits of `mip` enables none: what is still pending was pending before. -/
theorem computePendingInterrupts_clear {c : Csrs} {prv : PrivilegeLevel} {q : BitVec 64}
    (h : ({ c with mip := c.mip &&& q }.computePendingInterrupts prv).isSome) :
    (c.computePendingInterrupts prv).isSome := by
  have hand : ∀ {a b : BitVec 64}, a = b &&& q → a ≠ 0 → b ≠ 0 := by
    rintro a b rfl ha rfl
    exact ha BitVec.zero_and
  rw [computePendingInterrupts_isSome_iff] at h ⊢
  rcases h with ⟨h1, h2⟩ | ⟨h1, h2⟩ | ⟨h1, h2⟩
  · refine Or.inl ⟨hand ?_ h1, h2⟩
    simp only [mPending]
    ac_rfl
  · refine Or.inr (Or.inl ⟨hand ?_ h1, h2⟩)
    simp only [sPending]
    ac_rfl
  · refine Or.inr (Or.inr ⟨hand ?_ h1, h2⟩)
    simp only [uPending]
    ac_rfl

end Csrs

end RiscvVp
