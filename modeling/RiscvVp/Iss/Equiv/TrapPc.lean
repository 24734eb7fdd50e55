import RiscvVp.DbbCache.Equiv.Step
import RiscvVp.Iss.Csr

/-!
# The address a trap is reported at

`TrapHart` is a hart as its trap handling sees it: the ISS with its cache, instruction memory that
may change, and the trap registers.  A `SimulationTrap` that is caught is handled at the address
`get_last_pc_exception_safe` gives.  Beside it runs the architectural program counter (`ArchPc`),
which knows nothing of the cache: it is what the address should be.

`get_last_pc_exception_safe` trusts the flag `exception`, which a faulting fetch sets and only a
later *read* of memory clears.  A handler whose code is cached reads nothing, so a trap of its own is
reported at the address of the earlier fault.  `TrapHart.trapPc_iff` says that this is the only way
for the reported address to be wrong, as long as the cache itself is in order.
-/

namespace RiscvVp

open DBBCache

variable {Op : Type} {isa : Isa Op}

/-- The architectural program counter: the instruction being executed or fetched, and the one that
follows it. -/
structure ArchPc where
  cur : BitVec 64
  next : BitVec 64
  deriving DecidableEq, Repr

/-- A hart as its trap handling sees it. -/
structure TrapHart (Op : Type) where
  driver : Driver 64 Op (DBBCache 64 Op)
  mem : InstrMem 64
  csrs : Csrs
  prv : PrivilegeLevel
  arch : ArchPc

/-- A call of the ISS on its cache, a change of memory, or a change of registers by a CSR
instruction, an interrupt or a trap return. -/
inductive TrapHart.Event
  | call (c : Call 64)
  | rewrite (mem : InstrMem 64)
  | csr (csrs : Csrs) (prv : PrivilegeLevel)

namespace TrapHart

/-- Before the first instruction. -/
def start (enabled : Bool) (entrypoint : BitVec 64) (mem : InstrMem 64) (csrs : Csrs) :
    TrapHart Op :=
  { driver := .start (DBBCache.init enabled entrypoint) entrypoint
    mem
    csrs
    prv := .machine
    arch := ⟨0, entrypoint⟩ }

/-- The architectural effect of a call that does not trap, on the operation `d` is executing.  The
length of a fetched instruction is that of its raw word. -/
def ArchPc.call (isa : Isa Op) (d d' : Driver 64 Op (DBBCache 64 Op)) (a : ArchPc) (c : Call 64) :
    ArchPc :=
  match c with
  | .fetch _ => ⟨a.next, a.next + BitVec.ofNat 64 (isa.decode d'.cache.getMemWord).pcIncrement⟩
  | c =>
    match d.target isa a.cur c with
    | some pc => { a with next := pc }
    | none => a

/-- The address of the instruction whose trap a call can raise: the one being fetched, or the one
being executed. -/
def raiser (h : TrapHart Op) (c : Call 64) : BitVec 64 :=
  match c with
  | .fetch _ => h.arch.next
  | _ => h.arch.cur

/-- `handle_trap`, with the address that `get_last_pc_exception_safe` gives. -/
def handleTrap (h : TrapHart Op) (t : SimulationTrap) : TrapHart Op :=
  let r := h.csrs.handleTrap h.prv t h.driver.cache.getLastPcExceptionSafe
  { h with
    csrs := r.2.1
    prv := r.1
    driver := { h.driver with
      cache := h.driver.cache.enterTrap r.2.2
      pc := r.2.2
      phase := .between }
    arch := { h.arch with next := r.2.2 } }

/-- One event.  What is returned is the trap that was caught and the address it was reported at. -/
def step (isa : Isa Op) (h : TrapHart Op) : Event → Option (SimulationTrap × BitVec 64) × TrapHart Op
  | .call c =>
    let r := h.driver.step (DBBCache.ops isa) isa h.mem c
    match r.1 with
    | .trapped t lastPc => (some (t, lastPc), { h with driver := r.2 }.handleTrap t)
    | _ => (none, { h with driver := r.2, arch := ArchPc.call isa h.driver r.2 h.arch c })
  | .rewrite mem => (none, { h with mem := mem })
  | .csr csrs prv => (none, { h with csrs := csrs, prv := prv })

/-- Calls are those the ISS can make. -/
def Legal (isa : Isa Op) (h : TrapHart Op) : Event → Prop
  | .call c => h.driver.Legal isa c
  | _ => True

/-- The cache is in order: blocks have room, repairs and switches are right, fences do not wrap
around.  For a trap this is asked of the entry of its handler, too. -/
def CacheOk (isa : Isa Op) (h : TrapHart Op) : Event → Prop
  | .call c => h.driver.StepOk isa false h.mem c ∧
    ∀ t lastPc, (h.driver.step (DBBCache.ops isa) isa h.mem c).1 = .trapped t lastPc →
      (h.driver.step (DBBCache.ops isa) isa h.mem c).2.cache.SwitchOk false
        (h.csrs.handleTrap h.prv t lastPc).2.2
  | _ => True

/-- A caught trap is reported at the instruction that raised it, and `xepc` of the mode that takes
it is written with that address. -/
def TrapPcRight (isa : Isa Op) (h : TrapHart Op) : Event → Prop
  | .call c => ∀ t lastPc, (h.step isa (.call c)).1 = some (t, lastPc) →
    lastPc = h.raiser c ∧
      ((h.step isa (.call c)).2.csrs.trapRegs (h.step isa (.call c)).2.prv).epc = h.raiser c
  | _ => True

/-- When an executed operation throws, `exception` is not left over from an earlier fault, or that
fault was at the same address. -/
def FlagOk (h : TrapHart Op) : Event → Prop
  | .call (.raise _) => h.driver.cache.exception = false ∨
    (h.driver.cache.dummyBlock.entries 0).pc = h.driver.cache.getLastPcBeforeCallback
  | _ => True

variable {h : TrapHart Op} {e : Event}

/-- The invariant: the cache's idea of the program counter is the architectural one. -/
structure Inv (isa : Isa Op) (h : TrapHart Op) : Prop where
  tracked : h.driver.Tracked isa false
  next : h.driver.cache.getPcMaybeAfterCallback = h.arch.next
  cur : h.driver.phase = .executing → h.driver.cache.getLastPcBeforeCallback = h.arch.cur

theorem inv_start (isa : Isa Op) (enabled : Bool) (entrypoint : BitVec 64) (mem : InstrMem 64)
    (csrs : Csrs) : (start enabled entrypoint mem csrs : TrapHart Op).Inv isa := by
  have hl := landed_init isa false enabled entrypoint
  refine ⟨Driver.tracked_start isa false enabled entrypoint, ?_, nofun⟩
  show (DBBCache.init enabled entrypoint).getPcMaybeAfterCallback = entrypoint
  rw [hl.inv.getPc_of_idx_eq hl.idx, hl.first]

/-- Entering the handler lands at the trap vector, and the saved address is that of the instruction that
trapped. -/
theorem inv_handleTrap {t : SimulationTrap} (hinv : h.driver.cache.Inv isa false)
    (hok : h.driver.cache.SwitchOk false
      (h.csrs.handleTrap h.prv t h.driver.cache.getLastPcExceptionSafe).2.2) :
    (h.handleTrap t).Inv isa := by
  have hpc := ne_allOnes_of_getLsbD_zero (by decide)
    (h.csrs.handleTrap_getLsbD_zero h.prv t h.driver.cache.getLastPcExceptionSafe)
  have hl := hinv.landed_enterTrap hpc hok
  refine ⟨⟨hl.inv, nofun, nofun⟩, ?_, nofun⟩
  show (h.driver.cache.enterTrap _).getPcMaybeAfterCallback = _
  rw [hl.inv.getPc_of_idx_eq hl.idx, hl.first]
  rfl

/-- A caught trap: what is reported, and what is left. -/
theorem step_of_trapped {c : Call 64} {t : SimulationTrap} {lastPc : BitVec 64}
    (hobs : (h.driver.step (DBBCache.ops isa) isa h.mem c).1 = .trapped t lastPc) :
    h.step isa (.call c) = (some (t, lastPc),
      { h with driver := (h.driver.step (DBBCache.ops isa) isa h.mem c).2 }.handleTrap t) := by
  simp only [step, hobs]

theorem step_of_not_trapped {c : Call 64}
    (hobs : ∀ t lastPc, (h.driver.step (DBBCache.ops isa) isa h.mem c).1 ≠ .trapped t lastPc) :
    h.step isa (.call c) = (none,
      { h with
        driver := (h.driver.step (DBBCache.ops isa) isa h.mem c).2
        arch := ArchPc.call isa h.driver (h.driver.step (DBBCache.ops isa) isa h.mem c).2 h.arch
          c }) := by
  simp only [step]

/-- The reported address decides whether the trap is reported right: `xepc` follows it. -/
theorem trapPcRight_iff_of_trapped {c : Call 64} {t : SimulationTrap} {s' : DBBCache 64 Op}
    (hres : h.driver.step (DBBCache.ops isa) isa h.mem c =
      h.driver.caught (DBBCache.ops isa) s' t) :
    h.TrapPcRight isa (.call c) ↔ s'.getLastPcExceptionSafe = h.raiser c := by
  have hobs : (h.driver.step (DBBCache.ops isa) isa h.mem c).1 =
      .trapped t s'.getLastPcExceptionSafe := by
    rw [hres]
    rfl
  have hepc := h.csrs.epc_handleTrap h.prv t s'.getLastPcExceptionSafe
  simp only [TrapPcRight, step_of_trapped hobs]
  constructor
  · intro hright
    exact (hright t _ rfl).1
  · intro heq t' lastPc hsome
    obtain ⟨rfl, rfl⟩ := Prod.mk.inj (Option.some.inj hsome)
    refine ⟨heq, ?_⟩
    rw [← heq, hres]
    exact hepc

theorem trapPcRight_of_not_trapped {c : Call 64}
    (hobs : ∀ t lastPc, (h.driver.step (DBBCache.ops isa) isa h.mem c).1 ≠ .trapped t lastPc) :
    h.TrapPcRight isa (.call c) := by
  intro t lastPc hsome
  rw [step_of_not_trapped hobs] at hsome
  cases hsome

/-- A trap enters its handler with the invariant. -/
theorem inv_of_trapped {c : Call 64} {t : SimulationTrap} {s' : DBBCache 64 Op}
    (hres : h.driver.step (DBBCache.ops isa) isa h.mem c =
      h.driver.caught (DBBCache.ops isa) s' t)
    (hinv : s'.Inv isa false) (hok : h.CacheOk isa (.call c)) :
    (h.step isa (.call c)).2.Inv isa := by
  have hobs : (h.driver.step (DBBCache.ops isa) isa h.mem c).1 =
      .trapped t s'.getLastPcExceptionSafe := by
    rw [hres]
    rfl
  have hsw := hok.2 t _ hobs
  rw [step_of_trapped hobs, hres]
  rw [hres] at hsw
  exact inv_handleTrap hinv hsw

/-- A transfer goes to the architectural target. -/
theorem Inv.arch_of_target (hinv : h.Inv isa) {c : Call 64} (hlegal : h.driver.Legal isa c)
    {tgt : BitVec 64} (htgt : h.driver.target isa h.driver.cache.getLastPcBeforeCallback c = some tgt)
    (d' : Driver 64 Op (DBBCache 64 Op)) :
    (ArchPc.call isa h.driver d' h.arch c).next = tgt := by
  -- Static targets are relative to the operation being executed, whose address is known.
  have hcur : h.driver.target isa h.arch.cur c = some tgt := by
    cases c with
    | branchTaken => rw [← hinv.cur hlegal.1]; exact htgt
    | jump => rw [← hinv.cur hlegal.1]; exact htgt
    | jumpAndLink => rw [← hinv.cur hlegal.1]; exact htgt
    | _ => exact htgt
  cases c with
  | fetch fast => cases htgt
  | _ => simp only [ArchPc.call, hcur]

/-- What the reported address is, and where the hart goes on. -/
theorem Inv.step_spec (hinv : h.Inv isa) (hlegal : h.Legal isa e) (hok : h.CacheOk isa e) :
    (h.TrapPcRight isa e ↔ h.FlagOk e) ∧ (h.step isa e).2.Inv isa := by
  cases e with
  | rewrite mem => exact ⟨Iff.rfl, hinv.tracked, hinv.next, hinv.cur⟩
  | csr csrs prv => exact ⟨Iff.rfl, hinv.tracked, hinv.next, hinv.cur⟩
  | call c =>
    -- what a call can do to the cache is one of five things
    have hspec := hinv.tracked.step (by decide) hlegal (fun h => by cases h) hok.1
    have htracked := hspec.tracked hinv.tracked
    generalize hres : h.driver.step (DBBCache.ops isa) isa h.mem c = res at hspec htracked
    cases hspec with
    | fetched pc adv =>
      rename_i fast s' r
      have hnot : ∀ t lastPc,
          (h.driver.step (DBBCache.ops isa) isa h.mem (.fetch fast)).1 ≠ .trapped t lastPc := by
        rw [hres]
        intro t lastPc h
        cases h
      refine ⟨iff_of_true (trapPcRight_of_not_trapped hnot) trivial, ?_⟩
      rw [step_of_not_trapped hnot, hres]
      refine ⟨htracked, ?_, fun _ => ?_⟩
      · show s'.getPcMaybeAfterCallback =
          h.arch.next + BitVec.ofNat 64 (isa.decode s'.getMemWord).pcIncrement
        rw [adv.inv.getPc_of_idx_nonneg adv.idx, adv.nextPc, adv.result, fetchedOf, hinv.next]
      · show s'.getLastPcBeforeCallback = h.arch.next
        rw [← hinv.next]
        exact adv.entryPc
    | faulted flt =>
      rename_i fast s' t
      -- a fault of the fetch itself: the cache saves the address it wanted to fetch from
      refine ⟨iff_of_true ?_ trivial, inv_of_trapped hres flt.inv hok⟩
      rw [trapPcRight_iff_of_trapped hres, getLastPcExceptionSafe, flt.exception, if_pos rfl,
        flt.saved, hinv.next]
      rfl
    | landed obs pc hobs htgt lnd =>
      rename_i s' tgt
      have hnot : ∀ t lastPc,
          (h.driver.step (DBBCache.ops isa) isa h.mem c).1 ≠ .trapped t lastPc := by
        rw [hres]
        exact hobs
      -- only `raise` reads the flag
      have hflag : h.FlagOk (.call c) := by
        cases c with
        | raise t => cases htgt
        | _ => trivial
      refine ⟨iff_of_true (trapPcRight_of_not_trapped hnot) hflag, ?_⟩
      rw [step_of_not_trapped hnot, hres]
      refine ⟨htracked, ?_, fun h => by cases h⟩
      show s'.getPcMaybeAfterCallback = (ArchPc.call isa h.driver _ h.arch c).next
      rw [lnd.inv.getPc_of_idx_eq lnd.idx, lnd.first, hinv.arch_of_target hlegal htgt]
    | stayed obs hobs htgt hfetch hraise hcnt hfence std =>
      rename_i s'
      have hnot : ∀ t lastPc,
          (h.driver.step (DBBCache.ops isa) isa h.mem c).1 ≠ .trapped t lastPc := by
        rw [hres]
        exact hobs
      have hflag : h.FlagOk (.call c) := by
        cases c with
        | raise t => exact absurd rfl (hraise t)
        | _ => trivial
      refine ⟨iff_of_true (trapPcRight_of_not_trapped hnot) hflag, ?_⟩
      rw [step_of_not_trapped hnot, hres]
      -- the fence and what is called from outside leave the program counter alone
      have harch : ArchPc.call isa h.driver { h.driver with cache := s' } h.arch c = h.arch := by
        cases c with
        | fetch fast => exact absurd rfl (hfetch fast)
        | branchNotTaken => rfl
        | raise t => rfl
        | forceSlowPath => rfl
        | enable ena => rfl
        | fenceI => rfl
        | fenceVma => rfl
        | _ => cases htgt
      refine ⟨htracked, ?_, fun he => ?_⟩
      · show s'.getPcMaybeAfterCallback = ArchPc.next _
        rw [harch, std.getPc hinv.tracked.inv, hinv.next]
      · show s'.getLastPcBeforeCallback = ArchPc.cur _
        rw [harch, ← hinv.cur he]
        exact (congrArg Entry.pc std.deref_resetLink :)
    | raised =>
      rename_i t
      refine ⟨?_, inv_of_trapped hres hinv.tracked.inv hok⟩
      -- a trap of the operation: `get_last_pc_exception_safe` is right iff the flag is off
      have hcur := hinv.cur hlegal
      rw [trapPcRight_iff_of_trapped hres, getLastPcExceptionSafe]
      show _ = h.arch.cur ↔ h.driver.cache.exception = false ∨ _
      rw [← hcur]
      cases h.driver.cache.exception <;> simp

/-- **When a trap is reported at the instruction that raised it.**  In every run in which the cache
is in order, at every caught trap: exactly if an executed operation that throws does so with
`exception` clear, or with the same address saved. -/
theorem trapPc_iff (isa : Isa Op) (enabled : Bool) (entrypoint : BitVec 64) (mem : InstrMem 64)
    (csrs : Csrs) (events : List Event)
    (hlegal : Run.Along (Legal isa) (step isa) (start enabled entrypoint mem csrs) events)
    (hok : Run.Along (CacheOk isa) (step isa) (start enabled entrypoint mem csrs) events) :
    Run.Along (fun h e => h.TrapPcRight isa e ↔ h.FlagOk e) (step isa)
      (start enabled entrypoint mem csrs) events :=
  Run.Along.of_invariant (Inv isa) (fun _ _ hinv hc => hinv.step_spec hc.1 hc.2)
    (inv_start isa enabled entrypoint mem csrs) (hlegal.and hok)

/-! ### Concrete runs -/

instance decidableLegal (isa : Isa Op) (h : TrapHart Op) (e : Event) : Decidable (h.Legal isa e) := by
  cases e <;> unfold Legal <;> infer_instance

/-- The condition for runs without fences, in which it can be evaluated. -/
def CacheOkUnfenced (isa : Isa Op) (h : TrapHart Op) : Event → Prop
  | .call .fenceI => False
  | .call .fenceVma => False
  | e => h.CacheOk isa e

theorem CacheOkUnfenced.cacheOk (h : TrapHart Op) (e : Event) (hok : h.CacheOkUnfenced isa e) :
    h.CacheOk isa e := by
  cases e with
  | call c =>
    cases c with
    | fenceI => exact hok.elim
    | fenceVma => exact hok.elim
    | _ => exact hok
  | _ => exact hok

instance (priority := 1100) decidableForallTrapped (P : SimulationTrap → BitVec 64 → Prop)
    [∀ t pc, Decidable (P t pc)] : ∀ o : Obs 64 Op, Decidable (∀ t pc, o = .trapped t pc → P t pc)
  | .trapped t pc => decidable_of_iff (P t pc)
      ⟨fun hP t' pc' ho => by cases ho; exact hP, fun hP => hP t pc rfl⟩
  | .fetched _ _ _ _ _ => isTrue nofun
  | .linked _ _ _ => isTrue nofun
  | .moved _ _ => isTrue nofun

instance decidableCacheOkUnfenced (isa : Isa Op) (h : TrapHart Op) (e : Event) :
    Decidable (h.CacheOkUnfenced isa e) := by
  cases e with
  | call c =>
    cases c <;> unfold CacheOkUnfenced <;> (try unfold CacheOk Driver.StepOk) <;> infer_instance
  | _ => exact isTrue trivial

/-- A handler at `0x1000` that starts with a `lw`, and nothing mapped from `0x3000` on. -/
def handlerCode : InstrMem 64 := fun a =>
  if a = 0x1000 then .ok 0x00052503
  else if a = 0x1004 then .ok 0x00008067
  else if a < 0x3000 then .ok 0x00000013
  else .error ⟨.instrPageFault, a⟩

/-- `mtvec` points to the handler. -/
def handlerCsrs : Csrs :=
  { Csrs.reset with m := { Csrs.reset.m with tvec := ⟨0, 0x400⟩ } }

/-- Run the handler's code once, jump to `0x3000`, where the fetch faults, and fetch the first
instruction of the handler. -/
def faultEvents : List Event :=
  [.call (.fetch false), .call (.fetch true), .call (.jumpDyn 0x3000), .call (.fetch true),
    .call (.fetch false)]

/-- **The flag outlives its fault.**  The handler's `lw` at `0x1000` comes from the cache, so its
own page fault is reported at `0x3000`. -/
theorem not_trapPcRight_handlerCode :
    Run.Along (Legal defaultIsa) (step defaultIsa) (start true 0x1000 handlerCode handlerCsrs)
      (faultEvents ++ [.call (.raise ⟨.loadPageFault, 0x4000⟩)]) ∧
    ¬ Run.Along (TrapPcRight defaultIsa) (step defaultIsa) (start true 0x1000 handlerCode handlerCsrs)
      (faultEvents ++ [.call (.raise ⟨.loadPageFault, 0x4000⟩)]) := by
  refine ⟨by decide, fun h => ?_⟩
  have hpc := (h.last ⟨.loadPageFault, 0x4000⟩ 0x3000 (by decide)).1
  exact absurd hpc (by decide)

theorem trapPc_iff_handlerCode :
    Run.Along (fun h e => h.TrapPcRight defaultIsa e ↔ h.FlagOk e) (step defaultIsa)
      (start true 0x1000 handlerCode handlerCsrs)
      (faultEvents ++ [.call (.raise ⟨.loadPageFault, 0x4000⟩)]) :=
  trapPc_iff defaultIsa true 0x1000 handlerCode handlerCsrs _ (by decide)
    (Run.Along.mono CacheOkUnfenced.cacheOk (by decide))

end TrapHart

end RiscvVp
