import RiscvVp.Iss.Equiv.TrapPc

/-!
# Misaligned jump targets

Without the C extension a jump to an address that is not a multiple of four should trap, before it
writes a register.  `JR` and `JALR` check `misa`; branches, `J` and `JAL` leave the check to the cache,
whose `has_compressed` is true as soon as any extension is configured.  So a static jump never traps
(`JumpHart.jumpRight_iff`), and the fetch that follows it violates the assertion on the alignment of
`pc`.
-/

namespace RiscvVp

open DBBCache

/-! ### Alignment -/

section Alignment

theorem and_one_eq_zero_iff (a : BitVec 64) : a &&& 1 = 0 ↔ a.toNat % 2 = 0 := by
  rw [← BitVec.toNat_inj, BitVec.toNat_and, show (1 : BitVec 64).toNat = 2 ^ 1 - 1 from rfl,
    Nat.and_two_pow_sub_one_eq_mod]
  rfl

theorem and_three_eq_zero_iff (a : BitVec 64) : a &&& 3 = 0 ↔ a.toNat % 4 = 0 := by
  rw [← BitVec.toNat_inj, BitVec.toNat_and, show (3 : BitVec 64).toNat = 2 ^ 2 - 1 from rfl,
    Nat.and_two_pow_sub_one_eq_mod]
  rfl

theorem getLsbD_zero_eq_false_iff {n : ℕ} (a : BitVec n) : a.getLsbD 0 = false ↔ a.toNat % 2 = 0 := by
  rw [← BitVec.testBit_toNat, Nat.testBit_zero, decide_eq_false_iff_not]
  omega

variable {Op : Type}

/-- An address that satisfies the assertions on `pc`. -/
def Isa.Aligned (isa : Isa Op) (a : BitVec 64) : Prop := a &&& ~~~isa.pcAlignmentMask = 0

theorem Isa.aligned_iff (isa : Isa Op) (a : BitVec 64) :
    isa.Aligned a ↔ if isa.hasCExtension then a.toNat % 2 = 0 else a.toNat % 4 = 0 := by
  unfold Isa.Aligned Isa.pcAlignmentMask
  cases isa.hasCExtension with
  | true =>
    rw [if_pos rfl, if_pos rfl, BitVec.not_not]
    exact and_one_eq_zero_iff a
  | false =>
    rw [if_neg Bool.false_ne_true, if_neg Bool.false_ne_true, BitVec.not_not]
    exact and_three_eq_zero_iff a

variable {isa : Isa Op} {a : BitVec 64}

/-- A multiple of four is aligned, whether or not there are compressed instructions. -/
theorem Isa.aligned_of_mod_four (h : a.toNat % 4 = 0) : isa.Aligned a := by
  rw [Isa.aligned_iff]
  split_ifs <;> omega

/-- Aligned addresses are even: no instruction set allows an odd one. -/
theorem Isa.Aligned.even (h : isa.Aligned a) : a.toNat % 2 = 0 := by
  rw [Isa.aligned_iff] at h
  split_ifs at h <;> omega

/-- An even address is aligned if there is the C extension or it is a multiple of four. -/
theorem Isa.aligned_of_even (heven : a.toNat % 2 = 0)
    (h : isa.hasCExtension = true ∨ a &&& 3 = 0) : isa.Aligned a := by
  rcases h with h | h
  · rw [Isa.aligned_iff, if_pos h]
    exact heven
  · exact Isa.aligned_of_mod_four ((and_three_eq_zero_iff a).1 h)

/-- The immediate of a static jump is even. -/
theorem CtrlFlow.pcOffset_getLsbD_zero (k : CtrlFlow) (instr : Word) :
    (k.pcOffset instr).getLsbD 0 = false := by
  have hb : instr.bImm.getLsbD 0 = false := by
    simp [Instr.bImm, Instr.bitRange, Instr.bitSingle, BitVec.getElem_sshiftRight]
  have hj : instr.jImm.getLsbD 0 = false := by
    simp [Instr.jImm, Instr.bitRange, Instr.bitSingle, BitVec.getElem_sshiftRight]
  cases k with
  | branch => exact hb
  | none | j | jal | jr | jalr => exact hj

/-- The target of a static jump from an even address is even. -/
theorem Driver.target_even {σ : Type} (d : Driver 64 Op σ) {last : BitVec 64}
    (h : last.toNat % 2 = 0) : (last + (d.pcOffset isa).signExtend 64).toNat % 2 = 0 := by
  have hoff : (d.pcOffset isa).getLsbD 0 = false := by
    unfold Driver.pcOffset Isa.labelOffset
    split
    · exact CtrlFlow.pcOffset_getLsbD_zero _ _
    · rfl
  have hext : ((d.pcOffset isa).signExtend 64).toNat % 2 = 0 := by
    rw [← getLsbD_zero_eq_false_iff, BitVec.getLsbD_signExtend]
    simpa using hoff
  rw [BitVec.toNat_add]
  omega

end Alignment

/-! ### Jumps -/

variable {Op : Type}

/-- A hart that executes jumps.  `compressed` says that the instruction being executed is a compressed
one. -/
structure JumpHart (Op : Type) where
  trap : TrapHart Op
  regs : BitVec 5 → BitVec 64
  compressed : Bool

namespace JumpHart

/-- The `OP_CASE` of a branch or jump, where `taken` is the condition of a branch; or anything else,
with the registers it leaves. -/
inductive Event
  | exec (taken : Bool)
  | other (e : TrapHart.Event) (regs : BitVec 5 → BitVec 64)

/-- Before the first instruction. -/
def start (enabled : Bool) (entrypoint : BitVec 64) (mem : InstrMem 64) (csrs : Csrs)
    (regs : BitVec 5 → BitVec 64) : JumpHart Op :=
  ⟨.start enabled entrypoint mem csrs, regs, false⟩

/-- `(regs[instr.rs1()] + instr.I_imm()) & ~1`, the target that an indirect jump computes. -/
def dynTarget (h : JumpHart Op) : BitVec 64 :=
  let instr := h.trap.driver.instr
  (h.regs (instr.rs1.setWidth 5) + instr.iImm.signExtend 64) &&& ~~~1

/-- The check of `JR` and `JALR`, and the call that follows it. -/
def checkDyn (isa : Isa Op) (pc : BitVec 64) (c : Call 64) : Call 64 :=
  if pc &&& 3 ≠ 0 ∧ isa.hasCExtension = false then .raise ⟨.instrAddrMisaligned, pc⟩ else c

/-- What the `OP_CASE` of a branch or jump calls. -/
def call (isa : Isa Op) (h : JumpHart Op) (taken : Bool) : Option (Call 64) :=
  match h.trap.driver.ctrlFlow isa with
  | some .branch => some (if taken then .branchTaken else .branchNotTaken)
  | some .j => some .jump
  | some .jal => some .jumpAndLink
  | some .jr => some (checkDyn isa h.dynTarget (.jumpDyn h.dynTarget))
  | some .jalr => some (checkDyn isa h.dynTarget (.jumpDynAndLink h.dynTarget))
  | _ => none

/-- One event. -/
def step (isa : Isa Op) (h : JumpHart Op) :
    Event → Option (SimulationTrap × BitVec 64) × JumpHart Op
  | .exec taken =>
    match h.call isa taken with
    | none => (none, h)
    | some c =>
      let r := h.trap.step isa (.call c)
      -- `regs[instr.rd()] = ...` if the cache has returned a link
      let regs := match (h.trap.driver.step (DBBCache.ops isa) isa h.trap.mem c).1 with
        | .linked link _ _ => Function.update h.regs (h.trap.driver.instr.rd.setWidth 5) link
        | _ => h.regs
      (r.1, { h with trap := r.2, regs })
  | .other e regs =>
    let r := h.trap.step isa e
    let compressed := match e with
      | .call (.fetch _) => r.2.driver.cache.getMemWord.isCompressed
      | _ => h.compressed
    (r.1, ⟨r.2, regs, compressed⟩)

/-- What can happen.  Jumps are executed by `exec` only.  Without the C extension a compressed
instruction is decoded to `UNSUP`, which raises a trap, so no fetch follows it.  Handlers are at
multiples of four, and what is read from `xepc` has been written through `pc_alignment_mask` or by a
trap. -/
def Legal (isa : Isa Op) (h : JumpHart Op) : Event → Prop
  | .exec taken => h.trap.driver.phase = .executing ∧ (h.call isa taken).isSome
  | .other e _ => h.trap.Legal isa e ∧
    match e with
    | .call c =>
      match c with
      | .fetch _ =>
        h.trap.driver.phase = .executing → isa.hasCExtension = true ∨ h.compressed = false
      | .enterTrap pc => pc &&& 3 = 0
      | .retTrap pc => isa.Aligned pc
      | .branchNotTaken | .branchTaken | .jump | .jumpAndLink => False
      | .jumpDyn _ | .jumpDynAndLink _ => False
      | _ => True
    | _ => True

/-- The cache is in order for the step: what a jump asks of the cache, it may ask for. -/
def CacheOk (isa : Isa Op) (h : JumpHart Op) : Event → Prop
  | .exec taken => ∀ c, h.call isa taken = some c → h.trap.CacheOk isa (.call c)
  | .other e _ => h.trap.CacheOk isa e

/-! ### What jumps are to do -/

/-- The target of a branch that is taken or of a jump. -/
def target (isa : Isa Op) (h : JumpHart Op) (taken : Bool) : Option (BitVec 64) :=
  match h.trap.driver.ctrlFlow isa with
  | some .branch =>
    if taken then some (h.trap.arch.cur + (h.trap.driver.pcOffset isa).signExtend 64) else none
  | some .j | some .jal => some (h.trap.arch.cur + (h.trap.driver.pcOffset isa).signExtend 64)
  | some .jr | some .jalr => some h.dynTarget
  | _ => none

/-- The jump is a `JR` or a `JALR`. -/
def IsDyn (isa : Isa Op) (h : JumpHart Op) : Prop :=
  h.trap.driver.ctrlFlow isa = some .jr ∨ h.trap.driver.ctrlFlow isa = some .jalr

/-- What is said of an event.  A jump to a misaligned target traps on a hart without the C extension,
with the target in `mtval`, the address of the jump in `xepc` and no register written; on a hart with it
no jump traps for this reason.  The targets of static jumps satisfy `pc_is_valid`, and the address of a
fetch satisfies the assertion on its alignment. -/
def JumpRight (isa : Isa Op) (h : JumpHart Op) : Event → Prop
  | .exec taken => ∀ tgt, h.target isa taken = some tgt →
    (isa.hasCExtension = false → tgt &&& 3 ≠ 0 →
      ∃ lastPc, (h.step isa (.exec taken)).1 = some (⟨.instrAddrMisaligned, tgt⟩, lastPc) ∧
        ((h.step isa (.exec taken)).2.trap.csrs.trapRegs
          (h.step isa (.exec taken)).2.trap.prv).epc = h.trap.arch.cur ∧
        (h.step isa (.exec taken)).2.regs = h.regs) ∧
    (isa.hasCExtension = true → ∀ t lastPc, (h.step isa (.exec taken)).1 = some (t, lastPc) →
      t.reason ≠ .instrAddrMisaligned) ∧
    (¬h.IsDyn isa → (h.trap.driver.cache.getLastPcBeforeCallback +
      (h.trap.driver.pcOffset isa).signExtend 64).getLsbD 0 = false)
  | .other (.call (.fetch _)) _ => isa.Aligned h.trap.driver.cache.getPcMaybeAfterCallback
  | _ => True

/-- When it is done: on a hart with the C extension, or when the target is a multiple of four, or by
`JR` and `JALR` if `exception` is not left over from an earlier fault at another address. -/
def JumpOk (isa : Isa Op) (h : JumpHart Op) : Event → Prop
  | .exec taken => ∀ tgt, h.target isa taken = some tgt →
    isa.hasCExtension = true ∨ tgt &&& 3 = 0 ∨ (h.IsDyn isa ∧
      (h.trap.driver.cache.exception = false ∨
        (h.trap.driver.cache.dummyBlock.entries 0).pc =
          h.trap.driver.cache.getLastPcBeforeCallback))
  | _ => True

end JumpHart

/-! ### What a call does to the program counter -/

namespace TrapHart

variable {isa : Isa Op} {h : TrapHart Op} {c : Call 64}

/-- A call ends in one of four ways: a trap is caught and the handler entered, an instruction has been
fetched, control has been transferred, or the position is as before. -/
inductive CallEnds (isa : Isa Op) (h : TrapHart Op) (c : Call 64)
    (r : Option (SimulationTrap × BitVec 64) × TrapHart Op) : Prop
  | trapped (t : SimulationTrap) (lastPc : BitVec 64) (hr : r.1 = some (t, lastPc))
      (hc : (∃ fast, c = .fetch fast) ∨ c = .raise t) (hphase : r.2.driver.phase = .between)
      (hnext : r.2.arch.next.toNat % 4 = 0)
  | fetched (fast : Bool) (hr : r.1 = none) (hc : c = .fetch fast)
      (hphase : r.2.driver.phase = .executing)
      (harch : r.2.arch = ⟨h.arch.next, h.arch.next +
        BitVec.ofNat 64 (isa.decode r.2.driver.cache.getMemWord).pcIncrement⟩)
  | moved (tgt : BitVec 64) (hr : r.1 = none) (htgt : h.driver.target isa h.arch.cur c = some tgt)
      (hphase : r.2.driver.phase = .between) (hnext : r.2.arch.next = tgt)
  | stayed (hr : r.1 = none) (htgt : h.driver.target isa h.arch.cur c = none)
      (hc : ∀ fast, c ≠ .fetch fast) (hphase : r.2.driver.phase = h.driver.phase)
      (harch : r.2.arch = h.arch)

/-- Handlers are at multiples of four, since the two low bits of a trap vector are its mode. -/
theorem toNat_handlerPc_mod (r : TrapRegs) : (Csrs.handlerPc r).toNat % 4 = 0 := by
  have hbase : ∀ t : Tvec, t.getBaseAddress.toNat % 4 = 0 := by
    intro t
    unfold Tvec.getBaseAddress
    rw [BitVec.toNat_shiftLeft, Nat.shiftLeft_eq]
    omega
  unfold Csrs.handlerPc
  split
  · have htvec := hbase r.tvec
    have hfour : (4 : BitVec 64).toNat = 4 := rfl
    rw [BitVec.toNat_add, BitVec.toNat_mul, hfour]
    omega
  · exact hbase _

/-- How a legal call ends when the cache is in order. -/
theorem Inv.callEnds (hinv : h.Inv isa) (hlegal : h.driver.Legal isa c)
    (hok : h.CacheOk isa (.call c)) : CallEnds isa h c (h.step isa (.call c)) := by
  have hspec := hinv.tracked.step (by decide) hlegal (fun h => by cases h) hok.1
  generalize hres : h.driver.step (DBBCache.ops isa) isa h.mem c = res at hspec
  have htrapped : ∀ {s' : DBBCache 64 Op} {t : SimulationTrap},
      res = h.driver.caught (DBBCache.ops isa) s' t → (∃ fast, c = .fetch fast) ∨ c = .raise t →
      CallEnds isa h c (h.step isa (.call c)) := by
    intro s' t heq hc
    have hobs : (h.driver.step (DBBCache.ops isa) isa h.mem c).1
        = .trapped t s'.getLastPcExceptionSafe := by
      rw [hres, heq]
      rfl
    rw [step_of_trapped hobs]
    exact .trapped t _ rfl hc rfl (toNat_handlerPc_mod _)
  cases hspec with
  | fetched pc adv =>
    rename_i fast s' r
    have hnot : ∀ t lastPc,
        (h.driver.step (DBBCache.ops isa) isa h.mem (.fetch fast)).1 ≠ .trapped t lastPc := by
      rw [hres]
      exact nofun
    rw [step_of_not_trapped hnot, hres]
    exact .fetched fast rfl rfl rfl rfl
  | faulted flt => exact htrapped rfl (.inl ⟨_, rfl⟩)
  | landed obs pc hobs htgt lnd =>
    rename_i s' tgt
    have hnot : ∀ t lastPc,
        (h.driver.step (DBBCache.ops isa) isa h.mem c).1 ≠ .trapped t lastPc := by
      rw [hres]
      exact hobs
    have hnext := hinv.arch_of_target hlegal htgt
      { h.driver with cache := s', pc := pc, phase := .between }
    rw [step_of_not_trapped hnot, hres]
    refine .moved tgt rfl ?_ rfl hnext
    -- the architectural target is the one that the cache computes
    cases c with
    | branchTaken | jump | jumpAndLink =>
      rw [← hinv.cur hlegal.1]
      exact htgt
    | _ => exact htgt
  | stayed obs hobs htgt hfetch hraise hcnt hfence std =>
    rename_i s'
    have hnot : ∀ t lastPc,
        (h.driver.step (DBBCache.ops isa) isa h.mem c).1 ≠ .trapped t lastPc := by
      rw [hres]
      exact hobs
    have hcur : h.driver.target isa h.arch.cur c = none := by
      cases c with
      | branchTaken | jump | jumpAndLink => cases htgt
      | _ => exact htgt
    rw [step_of_not_trapped hnot, hres]
    refine .stayed rfl hcur hfetch rfl ?_
    show ArchPc.call isa h.driver _ h.arch c = h.arch
    cases c with
    | fetch fast => exact absurd rfl (hfetch fast)
    | _ => simp only [ArchPc.call, hcur]
  | raised => exact htrapped rfl (.inr rfl)

end TrapHart

/-! ### The invariant -/

namespace JumpHart

variable {isa : Isa Op} {h : JumpHart Op}

/-- The program counters are aligned; that of the next instruction need not be while a compressed
instruction is executed on a hart without the C extension, which will trap. -/
structure Inv (isa : Isa Op) (h : JumpHart Op) : Prop where
  trap : h.trap.Inv isa
  between : h.trap.driver.phase ≠ .executing → isa.Aligned h.trap.arch.next
  cur : h.trap.driver.phase = .executing → isa.Aligned h.trap.arch.cur
  next : h.trap.driver.phase = .executing → isa.hasCExtension = true ∨ h.compressed = false →
    isa.Aligned h.trap.arch.next

theorem inv_start (isa : Isa Op) (enabled : Bool) {entrypoint : BitVec 64}
    (hentry : isa.Aligned entrypoint) (mem : InstrMem 64) (csrs : Csrs)
    (regs : BitVec 5 → BitVec 64) : (start enabled entrypoint mem csrs regs : JumpHart Op).Inv isa :=
  ⟨TrapHart.inv_start isa enabled entrypoint mem csrs, fun _ => hentry, nofun, nofun⟩

/-- The address of a fetch is aligned, if a word without compressed instructions is never one. -/
theorem Inv.aligned_fetch (hinv : h.Inv isa)
    (hlegal : h.trap.driver.phase = .executing → isa.hasCExtension = true ∨ h.compressed = false) :
    isa.Aligned h.trap.arch.next := by
  by_cases he : h.trap.driver.phase = .executing
  · exact hinv.next he (hlegal he)
  · exact hinv.between he

/-- The instruction after an aligned one is aligned if there is the C extension or the instruction is
not compressed. -/
theorem aligned_succ {a : BitVec 64} (ha : isa.Aligned a) (word : Word)
    (hword : isa.hasCExtension = true ∨ word.isCompressed = false) :
    isa.Aligned (a + BitVec.ofNat 64 (isa.decode word).pcIncrement) := by
  rw [Isa.aligned_iff] at ha ⊢
  rw [BitVec.toNat_add, BitVec.toNat_ofNat]
  rcases hword with hC | hword
  · rw [if_pos hC] at ha ⊢
    rcases isa.decode_pcIncrement word with hp | hp <;> rw [hp] <;> omega
  · have hp : (isa.decode word).pcIncrement = 4 := by
      unfold Isa.decode
      rw [hword]
      rfl
    rw [hp]
    split_ifs at ha ⊢ <;> omega

/-- A call that does not fetch keeps the invariant if it transfers control to aligned addresses. -/
theorem Inv.of_callEnds (hinv : h.Inv isa) {c : Call 64}
    {r : Option (SimulationTrap × BitVec 64) × TrapHart Op}
    (hends : TrapHart.CallEnds isa h.trap c r) (htrap : r.2.Inv isa) (hc : ∀ fast, c ≠ .fetch fast)
    (htgt : ∀ tgt, h.trap.driver.target isa h.trap.arch.cur c = some tgt → isa.Aligned tgt)
    (regs : BitVec 5 → BitVec 64) : (⟨r.2, regs, h.compressed⟩ : JumpHart Op).Inv isa := by
  cases hends with
  | trapped t lastPc hr hc' hphase hnext =>
    have hne : r.2.driver.phase ≠ .executing := by rw [hphase]; decide
    exact ⟨htrap, fun _ => Isa.aligned_of_mod_four hnext, fun he => absurd he hne,
      fun he => absurd he hne⟩
  | fetched fast hr hc' => exact absurd hc' (hc fast)
  | moved tgt hr ht hphase hnext =>
    have hne : r.2.driver.phase ≠ .executing := by rw [hphase]; decide
    refine ⟨htrap, fun _ => ?_, fun he => absurd he hne, fun he => absurd he hne⟩
    show isa.Aligned r.2.arch.next
    rw [hnext]
    exact htgt tgt ht
  | stayed hr ht hc' hphase harch =>
    refine ⟨htrap, ?_, ?_, ?_⟩
    · show r.2.driver.phase ≠ .executing → isa.Aligned r.2.arch.next
      rw [hphase, harch]
      exact hinv.between
    · show r.2.driver.phase = .executing → isa.Aligned r.2.arch.cur
      rw [hphase, harch]
      exact hinv.cur
    · show r.2.driver.phase = .executing → _ → isa.Aligned r.2.arch.next
      rw [hphase, harch]
      exact hinv.next

/-- Anything but a jump keeps the invariant, and fetches from aligned addresses. -/
theorem Inv.step_other (hinv : h.Inv isa) {e : TrapHart.Event} {regs : BitVec 5 → BitVec 64}
    (hlegal : h.Legal isa (.other e regs)) (hok : h.trap.CacheOk isa e) :
    h.JumpRight isa (.other e regs) ∧ (h.step isa (.other e regs)).2.Inv isa := by
  have htrap := (hinv.trap.step_spec hlegal.1 hok).2
  cases e with
  | rewrite mem => exact ⟨trivial, htrap, hinv.between, hinv.cur, hinv.next⟩
  | csr csrs prv => exact ⟨trivial, htrap, hinv.between, hinv.cur, hinv.next⟩
  | call c =>
    have hends := hinv.trap.callEnds hlegal.1 hok
    cases c with
    | fetch fast =>
      -- the one call that reads an instruction: its address is aligned before, so it is after
      have hnext := hinv.aligned_fetch hlegal.2
      refine ⟨?_, ?_⟩
      · show isa.Aligned h.trap.driver.cache.getPcMaybeAfterCallback
        rw [hinv.trap.next]
        exact hnext
      · cases hends with
        | trapped t lastPc hr hc' hphase hnext =>
          have hne : (h.trap.step isa (.call (.fetch fast))).2.driver.phase ≠ .executing := by
            rw [hphase]; decide
          exact ⟨htrap, fun _ => Isa.aligned_of_mod_four hnext, fun he => absurd he hne,
            fun he => absurd he hne⟩
        | fetched fast hr hc' hphase harch =>
          refine ⟨htrap, fun hne => absurd hphase hne, fun _ => ?_, fun _ hword => ?_⟩
          · show isa.Aligned (h.trap.step isa _).2.arch.cur
            rw [harch]
            exact hnext
          · show isa.Aligned (h.trap.step isa _).2.arch.next
            rw [harch]
            exact aligned_succ hnext _ hword
        | moved tgt hr ht => cases ht
        | stayed hr ht hc' => exact absurd rfl (hc' fast)
    | enterTrap pc =>
      refine ⟨trivial, hinv.of_callEnds hends htrap nofun ?_ regs⟩
      rintro tgt ⟨⟩
      exact Isa.aligned_of_mod_four ((and_three_eq_zero_iff pc).1 hlegal.2)
    | retTrap pc =>
      refine ⟨trivial, hinv.of_callEnds hends htrap nofun ?_ regs⟩
      rintro tgt ⟨⟩
      exact hlegal.2
    | raise t => exact ⟨trivial, hinv.of_callEnds hends htrap nofun nofun regs⟩
    | forceSlowPath => exact ⟨trivial, hinv.of_callEnds hends htrap nofun nofun regs⟩
    | enable ena => exact ⟨trivial, hinv.of_callEnds hends htrap nofun nofun regs⟩
    | fenceI => exact ⟨trivial, hinv.of_callEnds hends htrap nofun nofun regs⟩
    | fenceVma => exact ⟨trivial, hinv.of_callEnds hends htrap nofun nofun regs⟩
    | branchNotTaken | branchTaken | jump | jumpAndLink => exact hlegal.2.elim
    | jumpDyn pc => exact hlegal.2.elim
    | jumpDynAndLink pc => exact hlegal.2.elim

/-! ### Executing a jump -/

/-- The call of a jump, by kind. -/
inductive CallKind (isa : Isa Op) (h : JumpHart Op) (taken : Bool) (c : Call 64) : Prop
  | static (hdyn : ¬h.IsDyn isa)
      (htgt : h.target isa taken = h.trap.driver.target isa h.trap.arch.cur c)
      (hraise : ∀ t, c ≠ .raise t) (hfetch : ∀ fast, c ≠ .fetch fast)
  | dyn (hdyn : h.IsDyn isa) (hal : isa.hasCExtension = true ∨ h.dynTarget &&& 3 = 0)
      (htgt : h.target isa taken = some h.dynTarget)
      (hcall : h.trap.driver.target isa h.trap.arch.cur c = some h.dynTarget)
      (hraise : ∀ t, c ≠ .raise t) (hfetch : ∀ fast, c ≠ .fetch fast)
  | misaligned (hdyn : h.IsDyn isa) (hC : isa.hasCExtension = false) (hal : h.dynTarget &&& 3 ≠ 0)
      (htgt : h.target isa taken = some h.dynTarget)
      (hcall : c = .raise ⟨.instrAddrMisaligned, h.dynTarget⟩)

theorem dynTarget_even (h : JumpHart Op) : h.dynTarget.toNat % 2 = 0 := by
  rw [← getLsbD_zero_eq_false_iff]
  simp [dynTarget]

/-- The calls of `OP_CASE(JR)` and `OP_CASE(JALR)`: the target is checked, and the jump made or the trap
raised. -/
theorem callKind_checkDyn {taken : Bool} {c : Call 64} (hdyn : h.IsDyn isa)
    (htgt : h.target isa taken = some h.dynTarget)
    (hcall : h.trap.driver.target isa h.trap.arch.cur c = some h.dynTarget)
    (hraise : ∀ t, c ≠ .raise t) (hfetch : ∀ fast, c ≠ .fetch fast) :
    CallKind isa h taken (checkDyn isa h.dynTarget c) := by
  unfold checkDyn
  split_ifs with hbad
  · exact .misaligned hdyn hbad.2 hbad.1 htgt rfl
  · refine .dyn hdyn ?_ htgt hcall hraise hfetch
    by_cases hC : isa.hasCExtension = true
    · exact .inl hC
    · exact .inr (by_contra fun hal => hbad ⟨hal, Bool.eq_false_iff.2 hC⟩)

/-- The call that a jump makes is legal, and of one of the kinds. -/
theorem call_spec {taken : Bool} {c : Call 64} (he : h.trap.driver.phase = .executing)
    (hc : h.call isa taken = some c) : h.trap.driver.Legal isa c ∧ CallKind isa h taken c := by
  have heven : h.dynTarget.getLsbD 0 = false := (getLsbD_zero_eq_false_iff _).2 h.dynTarget_even
  have hcheck : ∀ {c : Call 64}, h.trap.driver.Legal isa c →
      h.trap.driver.Legal isa (checkDyn isa h.dynTarget c) := by
    intro c hl
    unfold checkDyn
    split_ifs
    · exact he
    · exact hl
  unfold call at hc
  split at hc
  · next hk =>
    have hdyn : ¬h.IsDyn isa := by simp [IsDyn, hk]
    cases hc
    cases taken with
    | true => exact ⟨⟨he, hk⟩, .static hdyn (by simp [target, hk, Driver.target]) nofun nofun⟩
    | false => exact ⟨⟨he, hk⟩, .static hdyn (by simp [target, hk, Driver.target]) nofun nofun⟩
  · next hk =>
    cases hc
    exact ⟨⟨he, hk⟩, .static (by simp [IsDyn, hk]) (by simp [target, hk, Driver.target]) nofun nofun⟩
  · next hk =>
    cases hc
    exact ⟨⟨he, hk⟩, .static (by simp [IsDyn, hk]) (by simp [target, hk, Driver.target]) nofun nofun⟩
  · next hk =>
    cases hc
    exact ⟨hcheck ⟨he, hk, heven⟩,
      callKind_checkDyn (.inl hk) (by simp only [target, hk]) rfl nofun nofun⟩
  · next hk =>
    cases hc
    exact ⟨hcheck ⟨he, hk, heven⟩,
      callKind_checkDyn (.inr hk) (by simp only [target, hk]) rfl nofun nofun⟩
  · cases hc

/-- The target of a branch, `J` or `JAL`. -/
theorem target_of_static {taken : Bool} {tgt : BitVec 64} (hdyn : ¬h.IsDyn isa)
    (ht : h.target isa taken = some tgt) :
    tgt = h.trap.arch.cur + (h.trap.driver.pcOffset isa).signExtend 64 := by
  unfold target at ht
  split at ht
  · split_ifs at ht
    exact (Option.some.inj ht).symm
  · exact (Option.some.inj ht).symm
  · exact (Option.some.inj ht).symm
  · next hk => exact absurd (.inl hk) hdyn
  · next hk => exact absurd (.inr hk) hdyn
  · cases ht

/-- A call that neither fetches nor raises does not trap. -/
theorem not_trapped_of_callEnds {t : TrapHart Op} {c : Call 64}
    {r : Option (SimulationTrap × BitVec 64) × TrapHart Op} (hends : TrapHart.CallEnds isa t c r)
    (hraise : ∀ t, c ≠ .raise t) (hfetch : ∀ fast, c ≠ .fetch fast) : r.1 = none := by
  cases hends with
  | trapped t lastPc hr hc =>
    rcases hc with ⟨fast, hc⟩ | hc
    · exact absurd hc (hfetch fast)
    · exact absurd hc (hraise t)
  | fetched fast hr => exact hr
  | moved tgt hr => exact hr
  | stayed hr => exact hr

/-- What `exec` is, once the call is known. -/
theorem step_exec {taken : Bool} {c : Call 64} (hc : h.call isa taken = some c) :
    (h.step isa (.exec taken)).1 = (h.trap.step isa (.call c)).1 ∧
      (h.step isa (.exec taken)).2.trap = (h.trap.step isa (.call c)).2 ∧
      (h.step isa (.exec taken)).2.compressed = h.compressed := by
  simp only [step, hc, and_self]

/-- **Executing a jump** is right exactly if `JumpOk` holds, and then keeps the invariant. -/
theorem Inv.step_exec (hinv : h.Inv isa) {taken : Bool} (hlegal : h.Legal isa (.exec taken))
    (hok : h.CacheOk isa (.exec taken)) :
    (h.JumpRight isa (.exec taken) ↔ h.JumpOk isa (.exec taken)) ∧
      (h.JumpOk isa (.exec taken) → (h.step isa (.exec taken)).2.Inv isa) := by
  obtain ⟨he, hsome⟩ := hlegal
  obtain ⟨c, hc⟩ := Option.isSome_iff_exists.1 hsome
  obtain ⟨hlegal, hkind⟩ := call_spec he hc
  have hcok := hok c hc
  have hspec := hinv.trap.step_spec (e := .call c) hlegal hcok
  have hends := hinv.trap.callEnds hlegal hcok
  obtain ⟨hout, htrap, hcomp⟩ := JumpHart.step_exec hc
  have hcur := hinv.trap.cur he
  have heven := (hinv.cur he).even
  have hnext : (∀ fast, c ≠ .fetch fast) →
      (∀ tgt, h.trap.driver.target isa h.trap.arch.cur c = some tgt → isa.Aligned tgt) →
      (h.step isa (.exec taken)).2.Inv isa := by
    intro hfetch htgt
    have := hinv.of_callEnds hends hspec.2 hfetch htgt (h.step isa (.exec taken)).2.regs
    rw [← htrap, ← hcomp] at this
    exact this
  cases hkind with
  | static hdyn htgt hraise hfetch =>
    have hnone := not_trapped_of_callEnds hends hraise hfetch
    have hvalid : (h.trap.driver.cache.getLastPcBeforeCallback +
        (h.trap.driver.pcOffset isa).signExtend 64).getLsbD 0 = false := by
      rw [hcur, getLsbD_zero_eq_false_iff]
      exact h.trap.driver.target_even heven
    refine ⟨⟨fun hright tgt ht => ?_, fun hcond tgt ht => ⟨fun hC hbad => ?_, fun hC => ?_, fun _ => hvalid⟩⟩,
      fun hcond => hnext hfetch fun tgt ht => ?_⟩
    · -- nothing traps, so the target has to be aligned
      by_contra hcond
      rw [not_or, not_or] at hcond
      obtain ⟨lastPc, hsome, -⟩ := (hright tgt ht).1 (Bool.eq_false_iff.2 hcond.1) hcond.2.1
      rw [hout, hnone] at hsome
      cases hsome
    · rcases hcond tgt ht with hC' | hal | hflag
      · exact nomatch hC.symm.trans hC'
      · exact absurd hal hbad
      · exact absurd hflag.1 hdyn
    · intro t lastPc hsome
      rw [hout, hnone] at hsome
      cases hsome
    · have htgt' := htgt.trans ht
      refine Isa.aligned_of_even ?_ ((hcond tgt htgt').imp_right fun hal =>
        hal.resolve_right fun hflag => hdyn hflag.1)
      rw [target_of_static hdyn htgt']
      exact h.trap.driver.target_even heven
  | dyn hdyn hal htgt hcall hraise hfetch =>
    have hnone := not_trapped_of_callEnds hends hraise hfetch
    have hok' : h.JumpOk isa (.exec taken) := by
      intro tgt ht
      obtain rfl := Option.some.inj (htgt.symm.trans ht)
      exact hal.imp_right .inl
    refine ⟨iff_of_true (fun tgt ht => ⟨fun hC hbad => ?_, fun _ t lastPc hsome => ?_,
      fun hn => absurd hdyn hn⟩) hok', fun _ => hnext hfetch fun tgt ht => ?_⟩
    · obtain rfl := Option.some.inj (htgt.symm.trans ht)
      rcases hal with hC' | hal
      · exact nomatch hC.symm.trans hC'
      · exact absurd hal hbad
    · rw [hout, hnone] at hsome
      cases hsome
    · obtain rfl := Option.some.inj (hcall.symm.trans ht)
      exact Isa.aligned_of_even h.dynTarget_even hal
  | misaligned hdyn hC hal htgt hcall =>
    subst hcall
    have hsafe : (h.trap.step isa (.call (.raise ⟨.instrAddrMisaligned, h.dynTarget⟩))).1
        = some (⟨.instrAddrMisaligned, h.dynTarget⟩, h.trap.driver.cache.getLastPcExceptionSafe) := rfl
    have hepc : ((h.step isa (.exec taken)).2.trap.csrs.trapRegs
        (h.step isa (.exec taken)).2.trap.prv).epc = h.trap.driver.cache.getLastPcExceptionSafe := by
      rw [htrap]
      exact h.trap.csrs.epc_handleTrap _ _ _
    -- the address is right exactly if the flag is not left over
    have hflag : h.trap.driver.cache.getLastPcExceptionSafe = h.trap.arch.cur ↔
        h.trap.FlagOk (.call (.raise ⟨.instrAddrMisaligned, h.dynTarget⟩)) :=
      (TrapHart.trapPcRight_iff_of_trapped rfl).symm.trans hspec.1
    have hregs : (h.step isa (.exec taken)).2.regs = h.regs := by
      simp only [step, hc]
      rfl
    refine ⟨⟨fun hright tgt _ => ?_, fun hcond tgt ht => ?_⟩, fun _ => hnext nofun nofun⟩
    · obtain ⟨lastPc, -, hepc', -⟩ := (hright _ htgt).1 hC hal
      exact .inr (.inr ⟨hdyn, hflag.1 (hepc.symm.trans hepc')⟩)
    · obtain rfl := Option.some.inj (htgt.symm.trans ht)
      refine ⟨fun _ _ => ⟨_, hout.trans hsafe, hepc.trans (hflag.2 ?_), hregs⟩,
        fun hC' => (nomatch hC.symm.trans hC'), fun hn => absurd hdyn hn⟩
      rcases hcond _ htgt with hC' | hal' | hok'
      · exact nomatch hC.symm.trans hC'
      · exact absurd hal' hal
      · exact hok'.2

/-- One event is right exactly under its condition, and then it keeps the invariant. -/
theorem Inv.step_spec (hinv : h.Inv isa) {e : Event} (hlegal : h.Legal isa e)
    (hok : h.CacheOk isa e) :
    (h.JumpRight isa e ↔ h.JumpOk isa e) ∧ (h.JumpOk isa e → (h.step isa e).2.Inv isa) := by
  cases e with
  | exec taken => exact hinv.step_exec hlegal hok
  | other e regs =>
    obtain ⟨hright, hnext⟩ := hinv.step_other hlegal hok
    have hcond : h.JumpOk isa (.other e regs) := trivial
    exact ⟨iff_of_true hright hcond, fun _ => hnext⟩

/-- **Misaligned jump targets.**  In a run in which the cache is in order, all jumps trap when they are
to, with the right registers, and no assertion on `pc` is violated, if and only if every jump is made on
a hart with the C extension, or to a multiple of four, or by `JR` or `JALR` with `exception` clear or the
same address saved. -/
theorem jumpRight_iff (isa : Isa Op) (enabled : Bool) (entrypoint : BitVec 64) (mem : InstrMem 64)
    (csrs : Csrs) (regs : BitVec 5 → BitVec 64) (events : List Event)
    (hentry : isa.Aligned entrypoint)
    (hlegal : Run.Along (Legal isa) (step isa) (start enabled entrypoint mem csrs regs) events)
    (hok : Run.Along (CacheOk isa) (step isa) (start enabled entrypoint mem csrs regs) events) :
    Run.Along (JumpRight isa) (step isa) (start enabled entrypoint mem csrs regs) events ↔
      Run.Along (JumpOk isa) (step isa) (start enabled entrypoint mem csrs regs) events := by
  have hboth := hlegal.and hok
  have hiff : Run.Along (fun h e => (Legal isa h e ∧ CacheOk isa h e) ∧ JumpRight isa h e) (step isa)
        (start enabled entrypoint mem csrs regs) events ↔
      Run.Along (fun h e => (Legal isa h e ∧ CacheOk isa h e) ∧ JumpOk isa h e) (step isa)
        (start enabled entrypoint mem csrs regs) events := by
    refine Run.Along.iff_of_invariant (I := Inv isa) ?_ ?_
      (inv_start isa enabled hentry mem csrs regs)
    · intro h e hinv
      exact and_congr_right fun hc => (hinv.step_spec hc.1 hc.2).1
    · rintro h e hinv ⟨⟨hl, ho⟩, hright⟩
      obtain ⟨hstep, hnext⟩ := hinv.step_spec hl ho
      exact hnext (hstep.1 hright)
  constructor
  · intro hright
    exact (hiff.1 (hboth.and hright)).mono fun _ _ h => h.2
  · intro hcond
    exact (hiff.2 (hboth.and hcond)).mono fun _ _ h => h.2

/-! ### Concrete runs -/

instance decidableAligned (isa : Isa Op) (a : BitVec 64) : Decidable (isa.Aligned a) := by
  unfold Isa.Aligned
  infer_instance

instance decidableLegal (isa : Isa Op) (h : JumpHart Op) : (e : Event) → Decidable (h.Legal isa e)
  | .exec taken => inferInstanceAs
      (Decidable (h.trap.driver.phase = .executing ∧ (h.call isa taken).isSome))
  | .other (.call (.fetch fast)) _ => inferInstanceAs (Decidable (h.trap.Legal isa (.call (.fetch fast)) ∧
      (h.trap.driver.phase = .executing → isa.hasCExtension = true ∨ h.compressed = false)))
  | .other (.call (.enterTrap pc)) _ =>
    inferInstanceAs (Decidable (h.trap.Legal isa (.call (.enterTrap pc)) ∧ pc &&& 3 = 0))
  | .other (.call (.retTrap pc)) _ =>
    inferInstanceAs (Decidable (h.trap.Legal isa (.call (.retTrap pc)) ∧ isa.Aligned pc))
  | .other (.call .branchNotTaken) _ => inferInstanceAs (Decidable (h.trap.Legal isa (.call .branchNotTaken) ∧ False))
  | .other (.call .branchTaken) _ => inferInstanceAs (Decidable (h.trap.Legal isa (.call .branchTaken) ∧ False))
  | .other (.call .jump) _ => inferInstanceAs (Decidable (h.trap.Legal isa (.call .jump) ∧ False))
  | .other (.call .jumpAndLink) _ => inferInstanceAs (Decidable (h.trap.Legal isa (.call .jumpAndLink) ∧ False))
  | .other (.call (.jumpDyn pc)) _ => inferInstanceAs (Decidable (h.trap.Legal isa (.call (.jumpDyn pc)) ∧ False))
  | .other (.call (.jumpDynAndLink pc)) _ => inferInstanceAs (Decidable (h.trap.Legal isa (.call (.jumpDynAndLink pc)) ∧ False))
  | .other (.call (.raise t)) _ => inferInstanceAs (Decidable (h.trap.Legal isa (.call (.raise t)) ∧ True))
  | .other (.call .forceSlowPath) _ => inferInstanceAs (Decidable (h.trap.Legal isa (.call .forceSlowPath) ∧ True))
  | .other (.call (.enable ena)) _ => inferInstanceAs (Decidable (h.trap.Legal isa (.call (.enable ena)) ∧ True))
  | .other (.call .fenceI) _ => inferInstanceAs (Decidable (h.trap.Legal isa (.call .fenceI) ∧ True))
  | .other (.call .fenceVma) _ => inferInstanceAs (Decidable (h.trap.Legal isa (.call .fenceVma) ∧ True))
  | .other (.rewrite mem) _ => inferInstanceAs (Decidable (h.trap.Legal isa (.rewrite mem) ∧ True))
  | .other (.csr csrs prv) _ => inferInstanceAs (Decidable (h.trap.Legal isa (.csr csrs prv) ∧ True))

/-- The condition for runs without fences, in which it can be evaluated. -/
def CacheOkUnfenced (isa : Isa Op) (h : JumpHart Op) : Event → Prop
  | .exec taken => ∀ c, h.call isa taken = some c → h.trap.CacheOkUnfenced isa (.call c)
  | .other e _ => h.trap.CacheOkUnfenced isa e

theorem CacheOkUnfenced.cacheOk (h : JumpHart Op) (e : Event) (hok : h.CacheOkUnfenced isa e) :
    h.CacheOk isa e := by
  cases e with
  | exec taken => exact fun c hc => TrapHart.CacheOkUnfenced.cacheOk _ _ (hok c hc)
  | other e regs => exact TrapHart.CacheOkUnfenced.cacheOk _ _ hok

instance decidableCacheOkUnfenced (isa : Isa Op) (h : JumpHart Op) :
    (e : Event) → Decidable (h.CacheOkUnfenced isa e)
  | .exec taken => inferInstanceAs
      (Decidable (∀ c, h.call isa taken = some c → h.trap.CacheOkUnfenced isa (.call c)))
  | .other e _ => inferInstanceAs (Decidable (h.trap.CacheOkUnfenced isa e))

instance decidableIsDyn (isa : Isa Op) (h : JumpHart Op) : Decidable (h.IsDyn isa) :=
  inferInstanceAs (Decidable (_ ∨ _))

instance decidableJumpOk (isa : Isa Op) (h : JumpHart Op) : (e : Event) → Decidable (h.JumpOk isa e)
  | .exec taken => inferInstanceAs (Decidable (∀ tgt, h.target isa taken = some tgt →
      isa.hasCExtension = true ∨ tgt &&& 3 = 0 ∨ (h.IsDyn isa ∧
        (h.trap.driver.cache.exception = false ∨
          (h.trap.driver.cache.dummyBlock.entries 0).pc =
            h.trap.driver.cache.getLastPcBeforeCallback))))
  | .other _ _ => inferInstanceAs (Decidable True)

/-- The configuration without `csr_misa::C`. -/
def noCIsa : Isa OpId := Isa.rv64 .none ⟨0x343129⟩ (.inl (by decide))

/-- `0x2002` in every register. -/
def jumpRegs : BitVec 5 → BitVec 64 := fun _ => 0x2002

/-- Fetch an instruction and execute it. -/
def fetchExec : List Event := [.other (.call (.fetch false)) jumpRegs, .exec true]

/-- `JALR x1, 0(x5)` at every address. -/
def jalrCode : InstrMem 64 := fun _ => .ok 0x000280e7

/-- `J .+6` at every address. -/
def jCode : InstrMem 64 := fun _ => .ok 0x0060006f

/-- `JALR` to `0x2002` traps. -/
theorem jumpRight_iff_jalr :
    Run.Along (JumpRight noCIsa) (step noCIsa)
      (start true 0x1000 jalrCode TrapHart.handlerCsrs jumpRegs) fetchExec ∧
    (Run.outputs (step noCIsa) (start true 0x1000 jalrCode TrapHart.handlerCsrs jumpRegs) fetchExec) =
      [none, some (⟨.instrAddrMisaligned, 0x2002⟩, 0x1000)] :=
  ⟨(jumpRight_iff noCIsa true 0x1000 jalrCode TrapHart.handlerCsrs jumpRegs fetchExec (by decide)
    (by decide) (Run.Along.mono CacheOkUnfenced.cacheOk (by decide))).2
    (by decide), by decide⟩

/-- `J` to `0x1006` does not trap, and the next fetch is from there. -/
theorem not_jumpRight_j :
    Run.Along (Legal noCIsa) (step noCIsa)
      (start true 0x1000 jCode TrapHart.handlerCsrs jumpRegs) fetchExec ∧
    Run.outputs (step noCIsa) (start true 0x1000 jCode TrapHart.handlerCsrs jumpRegs) fetchExec
      = [none, none] ∧
    ¬noCIsa.Aligned (Run.final (step noCIsa)
      (start true 0x1000 jCode TrapHart.handlerCsrs jumpRegs) fetchExec).trap.arch.next ∧
    ¬Run.Along (JumpRight noCIsa) (step noCIsa)
      (start true 0x1000 jCode TrapHart.handlerCsrs jumpRegs) fetchExec := by
  have hout : Run.outputs (step noCIsa) (start true 0x1000 jCode TrapHart.handlerCsrs jumpRegs) fetchExec
      = [none, none] := by decide
  refine ⟨by decide, hout, by decide, fun h => ?_⟩
  have hright := h.2.1 0x1006 (by decide)
  obtain ⟨lastPc, hsome, -⟩ := hright.1 (by decide) (by decide)
  have hnone : (step noCIsa (step noCIsa (start true 0x1000 jCode TrapHart.handlerCsrs jumpRegs)
      (.other (.call (.fetch false)) jumpRegs)).2 (.exec true)).1 = none := by decide
  rw [hnone] at hsome
  cases hsome

end JumpHart

end RiscvVp
