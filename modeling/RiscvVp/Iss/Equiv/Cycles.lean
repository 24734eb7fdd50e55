import RiscvVp.DbbCache.Equiv.Cycles
import RiscvVp.Iss.CounterCsr
import RiscvVp.Iss.Equiv.TrapPc

/-!
# The time that the interpreter loop counts

`get_cycle_counter_raw` moves by the time of the instruction that a step dispatches, and by nothing
else, on whichever path the loop comes to its fetch: `Iss.TimeInv.step`.  What this needs of a step
is `Iss.CacheOk`: the decode cache is in order, the sums that a repair keeps are right, and the sum
of a block has room for the operation.
-/

namespace RiscvVp.Iss

open DBBCache

variable {Op : Type} {isa : Isa Op} {h h' h'' : Iss Op}

/-! ### The condition -/

/-- The handler of a trap does not start with the block that is running, unless that is up to
date. -/
def TrapOk (h : Iss Op) (t : SimulationTrap) : Prop :=
  h.dbbcache.SwitchOk false (h.csrs.handleTrap h.prv t h.dbbcache.getLastPcExceptionSafe).2.2

/-- The same of the handler of an interrupt that is taken before the next instruction. -/
def InterruptOk (h : Iss Op) : Prop :=
  ∀ r, h.csrs.handleInterrupt h.prv h.dbbcache.getPcMaybeAfterCallback = some r →
    h.dbbcache.SwitchOk false r.2.2

/-- What a path through `OP_GLOBAL_FDD` needs of the cache at its fetch, and at the trap that the
fetch may raise. -/
def FetchTimeOk (isa : Isa Op) (during : Option Irq) : Next Op → Prop
  | .fdd h => h.dbbcache.FetchOk isa h.mem ∧ h.dbbcache.CountOk isa h.mem ∧
    ∀ t cache, h.dbbcache.fetchDecode isa h.mem h.driver.pc = (.error t, cache) →
      ((h.setCache cache).raiseDuring (h.duringFetch during)).TrapOk t
  | _ => True

/-- What a step needs of the cache. -/
def CacheOk (isa : Isa Op) (h : Iss Op) : Event → Prop
  | .fdd needSync during => (h.issSlowPath = true → h.InterruptOk) ∧
    FetchTimeOk isa during (h.toFetch needSync)
  | .resume during => FetchTimeOk isa during (h.toFetch false)
  | .call c => h.driver.StepOk isa false h.mem c ∧
    ∀ t lastPc, (h.driver.step (DBBCache.ops isa) isa h.mem c).1 = .trapped t lastPc →
      { h with driver := (h.driver.step (DBBCache.ops isa) isa h.mem c).2 }.TrapOk t
  | .finish => ∀ op, h.dbbcache.fetchDecodeFast.1 = .op op → h.dbbcache.SumFits isa op
  | _ => True

/-! ### The invariant -/

/-- The cache is in order, and its sums are right.  While the loop waits for the quantum, `pc` is the
address of the next instruction already. -/
structure TimeInv (isa : Isa Op) (h : Iss Op) : Prop where
  inv : h.dbbcache.Inv isa false
  timed : h.dbbcache.TimedLive isa
  tracked : h.loc = .operation → h.driver.Tracked isa false
  synced : h.loc = .slowSync ∨ h.loc = .medSync →
    h.driver.pc = h.dbbcache.getPcMaybeAfterCallback

/-- Between two states only requests reach the cache. -/
structure Still (isa : Isa Op) (h h' : Iss Op) : Prop where
  stayed : h.dbbcache.Stayed isa false h'.dbbcache
  coherenceCnt : h'.dbbcache.coherenceCnt = h.dbbcache.coherenceCnt
  label : h'.driver.label = h.driver.label
  instr : h'.driver.instr = h.driver.instr
  phase : h'.driver.phase = h.driver.phase

namespace Still

theorem refl (hi : h.dbbcache.Inv isa false) : h.Still isa h :=
  ⟨hi.stayed_setFields hi.trapLinks h.dbbcache.enabled h.dbbcache.slowPath, rfl, rfl, rfl, rfl⟩

/-- A change that leaves the driver alone, but for `pc`. -/
theorem of_driver (hi : h.dbbcache.Inv isa false) {pc : BitVec 64}
    (hd : h'.driver = { h.driver with pc := pc }) : h.Still isa h' := by
  have hr := refl hi
  have hcache : h'.dbbcache = h.dbbcache := by rw [dbbcache, hd, dbbcache]
  refine ⟨?_, ?_, ?_, ?_, ?_⟩
  · rw [hcache]
    exact hr.stayed
  · rw [hcache]
  · rw [hd]
  · rw [hd]
  · rw [hd]

theorem trans (hs : h.Still isa h') (hs' : h'.Still isa h'') : h.Still isa h'' :=
  ⟨hs.stayed.trans hs'.stayed, hs'.coherenceCnt.trans hs.coherenceCnt, hs'.label.trans hs.label,
    hs'.instr.trans hs.instr, hs'.phase.trans hs.phase⟩

theorem quiet (hs : h.Still isa h') (hi : h.dbbcache.Inv isa false) :
    h.dbbcache.Quiet isa h'.dbbcache :=
  hs.stayed.quiet hi hs.coherenceCnt

theorem getPc (hs : h.Still isa h') (hi : h.dbbcache.Inv isa false) :
    h'.dbbcache.getPcMaybeAfterCallback = h.dbbcache.getPcMaybeAfterCallback :=
  hs.stayed.getPc hi

/-- The invariant goes through such a change, if the loop stays where it is or leaves its point of
rest. -/
theorem timeInv (hs : h.Still isa h') (hi : h.TimeInv isa)
    (hop : h'.loc = .operation → h.loc = .operation)
    (hsync : h'.loc = .slowSync ∨ h'.loc = .medSync →
      (h.loc = .slowSync ∨ h.loc = .medSync) ∧ h'.driver.pc = h.driver.pc) : h'.TimeInv isa where
  inv := hs.stayed.inv
  timed := (hs.quiet hi.inv).timed hi.timed
  tracked hl := (hi.tracked (hop hl)).of_stayed hs.stayed hs.label hs.instr hs.phase
  synced hl := by
    obtain ⟨hl', hpc⟩ := hsync hl
    rw [hpc, hs.getPc hi.inv]
    exact hi.synced hl'

end Still

/-- `force_slow_path`, whatever else is changed with it. -/
theorem still_of_forced (hi : h.dbbcache.Inv isa false)
    (hd : h'.driver = { h.driver with cache := h.dbbcache.forceSlowPath }) : h.Still isa h' := by
  have hcache : h'.dbbcache = h.dbbcache.forceSlowPath := by rw [dbbcache, hd]
  refine ⟨?_, ?_, ?_, ?_, ?_⟩
  · rw [hcache]
    exact hi.stayed_forceSlowPath
  · rw [hcache]
    exact Driver.forceSlowPath_coherenceCnt _
  · rw [hd]
  · rw [hd]
  · rw [hd]

/-! ### To the fetch -/

/-- The loop has come to its fetch and no time has been counted. -/
structure Ready (isa : Isa Op) (h h' : Iss Op) : Prop where
  inv : h'.dbbcache.Inv isa false
  timed : h'.dbbcache.TimedLive isa
  pc : h'.driver.pc = h'.dbbcache.getPcMaybeAfterCallback
  cycles : h'.dbbcache.getCycleCounterRaw = h.dbbcache.getCycleCounterRaw

/-- The same at the end of a path through `OP_GLOBAL_FDD`; a path that waits has not come to an
operation. -/
def NextReady (isa : Isa Op) (h : Iss Op) : Next Op → Prop
  | .fdd h' => h.Ready isa h'
  | .sync h' => h.Ready isa h' ∧ h'.loc ≠ .operation
  | .leave h' => h.Ready isa h'

namespace Ready

theorem of_setPc (hi : h.TimeInv isa) :
    h.Ready isa (h.setPc h.dbbcache.getPcMaybeAfterCallback) :=
  ⟨hi.inv, hi.timed, rfl, rfl⟩

theorem still (hr : h.Ready isa h') (hs : h'.Still isa h'') (hpc : h''.driver.pc = h'.driver.pc) :
    h.Ready isa h'' where
  inv := hs.stayed.inv
  timed := (hs.quiet hr.inv).timed hr.timed
  pc := by rw [hpc, hs.getPc hr.inv, hr.pc]
  cycles := (hs.quiet hr.inv).cycles.trans hr.cycles

theorem forceSlowPath (hr : h.Ready isa h') : h.Ready isa h'.forceSlowPath :=
  hr.still (still_of_forced hr.inv rfl) rfl

/-- A change that leaves the driver alone. -/
theorem keep (hr : h.Ready isa h') (hd : h''.driver = h'.driver) : h.Ready isa h'' :=
  hr.still (.of_driver hr.inv hd) (by rw [hd])

end Ready

/-- The entry of a handler, wherever the trap or interrupt comes from. -/
theorem landed_enterHandler (hi : h.dbbcache.Inv isa false)
    {r : PrivilegeLevel × Csrs × BitVec 64} (heven : r.2.2.getLsbD 0 = false)
    (hok : h.dbbcache.SwitchOk false r.2.2) :
    h.dbbcache.Landed isa false (h.enterHandler r).dbbcache r.2.2 :=
  hi.landed_enterTrap (ne_allOnes_of_getLsbD_zero (by decide) heven) hok

theorem handleInterrupt_getLsbD_zero {c : Csrs} {prv : PrivilegeLevel} {pc : BitVec 64}
    {r : PrivilegeLevel × Csrs × BitVec 64} (hr : c.handleInterrupt prv pc = some r) :
    r.2.2.getLsbD 0 = false := by
  unfold Csrs.handleInterrupt at hr
  split at hr
  · cases hr
  · obtain ⟨c', -, rfl⟩ := Option.map_eq_some_iff.mp hr
    exact Csrs.handlerPc_getLsbD_zero _

/-- The loop serves the slow path: it may take an interrupt. -/
theorem ready_slowPathHead (hi : h.TimeInv isa) (hok : h.InterruptOk) :
    h.Ready isa h.slowPathHead := by
  have hserve : h.Ready isa h.slowPathServe := by
    unfold slowPathServe Iss.handleInterrupt
    dsimp only
    split
    · exact (Ready.of_setPc hi).keep rfl
    · next r hr =>
      have hl := landed_enterHandler hi.inv (handleInterrupt_getLsbD_zero hr) (hok r hr)
      refine ⟨hl.inv, hl.quiet.timed hi.timed, ?_, hl.cycles⟩
      refine Eq.trans ?_ (hl.inv.getPc_of_idx_eq hl.idx).symm
      exact hl.first.symm
  unfold slowPathHead
  dsimp only
  split_ifs
  · have hterminated : h.Ready isa { h.slowPathServe with status := .terminated } := hserve.keep rfl
    exact hterminated.forceSlowPath
  · exact hserve

theorem nextReady_slowPathDebug (hr : h.Ready isa h') : NextReady isa h h'.slowPathDebug := by
  have hforced := hr.forceSlowPath
  unfold slowPathDebug
  dsimp only
  split_ifs
  · exact hforced
  · have hhit : h.Ready isa { h'.forceSlowPath with status := .hitBreakpoint } := hforced.keep rfl
    exact hhit.forceSlowPath
  · exact hforced.keep rfl
  · exact hr

theorem nextReady_slowPathTail (hr : h.Ready isa h') (needSync : Bool) :
    NextReady isa h (h'.slowPathTail needSync) := by
  have hlrSc : h.Ready isa h'.lrScStep := by
    have hdec : h.Ready isa { h' with lrScCounter := h'.lrScCounter - 1 } := hr.keep rfl
    unfold lrScStep
    dsimp only
    split_ifs
    · exact hdec.keep rfl
    · exact hdec.forceSlowPath
  unfold slowPathTail
  split_ifs
  · exact hr
  · exact nextReady_slowPathDebug hlrSc
  · exact ⟨hr.keep rfl, Loc.noConfusion⟩
  · exact nextReady_slowPathDebug hr

theorem nextReady_medPath (hi : h.TimeInv isa) (needSync : Bool) :
    NextReady isa h (h.medPath needSync) := by
  have hr := Ready.of_setPc hi
  unfold medPath
  dsimp only
  split_ifs
  · exact ⟨hr.keep rfl, Loc.noConfusion⟩
  · exact hr.keep rfl
  · exact hr

/-- From a point of rest to the fetch. -/
theorem nextReady_toFetch (hi : h.TimeInv isa) (needSync : Bool)
    (hok : h.loc = .global → h.issSlowPath = true → h.InterruptOk)
    (hl : h.loc = .global ∨ h.loc = .slowSync ∨ h.loc = .medSync) :
    NextReady isa h (h.toFetch needSync) := by
  have hself : h.loc = .slowSync ∨ h.loc = .medSync → h.Ready isa h :=
    fun hl => ⟨hi.inv, hi.timed, hi.synced hl, rfl⟩
  unfold toFetch
  rcases hl with hl | hl | hl
  · rw [hl]
    dsimp only
    split_ifs with hs
    · exact nextReady_slowPathTail (ready_slowPathHead hi (hok hl hs)) needSync
    · exact nextReady_medPath hi needSync
  · rw [hl]
    exact nextReady_slowPathDebug (hself (.inl hl))
  · rw [hl]
    exact hself (.inr hl)

/-! ### The fetch -/

/-- What a step leaves: the invariant, and the time of the instruction it dispatches counted. -/
structure Timely (isa : Isa Op) (h : Iss Op) (r : Out × Iss Op) : Prop where
  inv : r.2.TimeInv isa
  cycles : r.2.dbbcache.getCycleCounterRaw = h.dbbcache.getCycleCounterRaw + timeTaken isa r

/-- A step that dispatches nothing is timely if it adds nothing to the cycle count. -/
theorem Timely.of_none {out : Out} (hout : ∀ pc, out ≠ .dispatched pc) (hi : h'.TimeInv isa)
    (hcyc : h'.dbbcache.getCycleCounterRaw = h.dbbcache.getCycleCounterRaw) :
    h.Timely isa (out, h') := by
  refine ⟨hi, ?_⟩
  have hnone : timeTaken isa (out, h') = 0 := by
    cases out with
    | dispatched pc => exact absurd rfl (hout pc)
    | _ => rfl
  rw [hnone, hcyc, add_zero]

/-- A caught trap counts no time: the cache moves to the handler, where nothing has executed yet. -/
theorem timeInv_caught (hi : h.dbbcache.Inv isa false) (ht : h.dbbcache.TimedLive isa)
    {t : SimulationTrap} (hok : h.TrapOk t) :
    (h.caught t).TimeInv isa ∧ (h.caught t).loc ≠ .operation ∧
      (h.caught t).dbbcache.getCycleCounterRaw = h.dbbcache.getCycleCounterRaw := by
  unfold caught
  dsimp only
  split_ifs
  · refine ⟨⟨hi, ht, fun hl => ?_, fun hl => ?_⟩, Loc.noConfusion, rfl⟩
    · cases hl
    · rcases hl with hl | hl
      · cases hl
      · cases hl
  · have hl := landed_enterHandler hi
      (h.csrs.handleTrap_getLsbD_zero h.prv t h.dbbcache.getLastPcExceptionSafe) hok
    refine ⟨⟨hl.inv, hl.quiet.timed ht, fun hop => ?_, fun hsync => ?_⟩, Loc.noConfusion, hl.cycles⟩
    · cases hop
    · rcases hsync with hsync | hsync
      · cases hsync
      · cases hsync

/-- All that an interrupt during the fetch does to the cache is to set its flag. -/
theorem still_raiseDuring (hi : h.dbbcache.Inv isa false) (during : Option Irq) :
    h.Still isa (h.raiseDuring during) := by
  cases during with
  | none => exact .refl hi
  | some irq =>
    exact ⟨hi.stayed_setFields hi.trapLinks h.dbbcache.enabled true, rfl, rfl, rfl, rfl⟩

/-- The fetch counts the time of the instruction that it dispatches. -/
theorem timely_fdd (hr : h.Ready isa h') {slow : Bool} {during : Option Irq}
    (hok : FetchTimeOk isa during (.fdd h')) : h.Timely isa (h'.fdd isa slow during) := by
  obtain ⟨hfetch, hcount, htrap⟩ := hok
  have hcounts := hr.inv.counts_fetchDecode hr.pc hfetch.repair hr.timed hcount
  have hspec := @Inv.fetchDecode _ _ _ _ h'.mem _ _ hr.inv hr.pc (fun hall => by cases hall) hfetch
  unfold fdd
  dsimp only
  generalize hres : h'.dbbcache.fetchDecode isa h'.mem h'.driver.pc = res at hcounts hspec
  rcases hspec with ⟨r, cache, rfl, hadv⟩ | ⟨t, cache, rfl, -, hflt⟩
  · dsimp only
    obtain ⟨htimed, op, hlabel, hcyc⟩ := hcounts
    -- The operation in its place, before the interrupt and the trace switch are seen.
    have hraise := still_raiseDuring (h := h'.setCache cache) hadv.inv (h'.duringFetch during)
    generalize hg : (h'.setCache cache).raiseDuring (h'.duringFetch during) = g at hraise
    set d : Iss Op := { g with
      driver := { g.driver with pc := r.pc, label := r.label, instr := r.instr, phase := .executing }
      loc := .operation
      watch := g.watch.dispatch } with hd
    have hinv : d.TimeInv isa := by
      refine ⟨hraise.stayed.inv, (hraise.quiet hadv.inv).timed htimed, fun _ => ?_, fun hl => ?_⟩
      · refine ⟨hraise.stayed.inv, fun _ => ?_, fun _ hne => ?_⟩
        · show 0 ≤ g.dbbcache.lastEntry.idx
          rw [hraise.stayed.last]
          exact hadv.idx
        · have htext := hadv.text fun hdummy => hne (hraise.stayed.cur.trans hdummy)
          have hderef := hraise.stayed.deref_resetLink
          exact ⟨(congrArg Entry.opLabelPtr hderef :).trans htext.1,
            (congrArg Entry.instr hderef :).trans htext.2⟩
      · rcases hl with hl | hl
        · cases hl
        · cases hl
    have hraw : d.dbbcache.getCycleCounterRaw =
        h.dbbcache.getCycleCounterRaw + isa.instrTime op := by
      rw [← hr.cycles, ← hcyc]
      exact (hraise.quiet hadv.inv).cycles
    have htime : ∀ g' : Iss Op, g'.loc = .operation → g'.driver.label = r.label →
        timeTaken isa (.dispatched h'.driver.pc, g') = isa.instrTime op := by
      intro g' h1 h2
      simp only [timeTaken, h1, h2, hlabel, if_true, labelTime]
    split_ifs
    · have hforced : d.Still isa d.forceSlowPath := still_of_forced hinv.inv rfl
      refine ⟨hforced.timeInv hinv id fun hl => ?_, ?_⟩
      · rcases hl with hl | hl
        · cases hl
        · cases hl
      · rw [htime _ rfl rfl, ← hraw]
        exact (hforced.quiet hinv.inv).cycles
    · refine ⟨hinv, ?_⟩
      rw [htime _ rfl rfl, ← hraw]
  · dsimp only
    obtain ⟨htimed, hcyc⟩ := hcounts
    have hraise := still_raiseDuring (h := h'.setCache cache) hflt.inv (h'.duringFetch during)
    have htrap' := htrap t cache hres
    generalize (h'.setCache cache).raiseDuring (h'.duringFetch during) = g at hraise htrap'
    obtain ⟨hinv, hloc, hcaught⟩ := timeInv_caught (h := { g with watch := g.watch.dispatch })
      hraise.stayed.inv ((hraise.quiet hflt.inv).timed htimed) (t := t) htrap'
    refine ⟨hinv, ?_⟩
    have hnone : timeTaken isa (.dispatched h'.driver.pc,
        ({ g with watch := g.watch.dispatch } : Iss Op).caught t) = 0 := if_neg hloc
    rw [hnone, add_zero, ← hr.cycles, ← hcyc]
    exact hcaught.trans (hraise.quiet hflt.inv).cycles

/-- From a point of rest to the next one. -/
theorem timely_globalFdd (hi : h.TimeInv isa) {needSync : Bool} {during : Option Irq}
    (hok : h.loc = .global → h.issSlowPath = true → h.InterruptOk)
    (hfetch : FetchTimeOk isa during (h.toFetch needSync))
    (hl : h.loc = .global ∨ h.loc = .slowSync ∨ h.loc = .medSync) :
    h.Timely isa (h.globalFdd isa needSync during) := by
  have hready := nextReady_toFetch hi needSync hok hl
  unfold globalFdd
  cases hto : h.toFetch needSync with
  | fdd h' =>
    rw [hto] at hready hfetch
    exact timely_fdd hready hfetch
  | sync h' =>
    rw [hto] at hready
    obtain ⟨hr, hloc⟩ := hready
    exact .of_none (fun pc hpc => by cases hpc)
      ⟨hr.inv, hr.timed, fun hop => absurd hop hloc, fun _ => hr.pc⟩ hr.cycles
  | leave h' =>
    rw [hto] at hready
    have hr : h.Ready isa h' := hready
    refine .of_none (fun pc hpc => by cases hpc) ⟨hr.inv, hr.timed, fun hop => ?_, fun hl => ?_⟩
      hr.cycles
    · cases hop
    · rcases hl with hl | hl
      · cases hl
      · cases hl

/-! ### The operations -/

/-- `OP_END`: the fetch on the fast path counts the time of the next instruction. -/
theorem timely_fastFinalizeAndFdd (hi : h.TimeInv isa) (hl : h.loc = .operation)
    (hok : ∀ op, h.dbbcache.fetchDecodeFast.1 = .op op → h.dbbcache.SumFits isa op) :
    h.Timely isa h.fastFinalizeAndFdd := by
  have hcases := @Inv.fetchDecodeFast _ _ _ _ h.mem _ _ hi.inv rfl
  unfold fastFinalizeAndFdd
  dsimp only
  split
  · next id instr cache heq =>
    have hres : h.dbbcache.fetchDecodeFast = (.op id, instr, cache) := heq
    rw [hres] at hcases hok
    obtain ⟨htimed, hraw⟩ := hi.inv.counts_fetchDecodeFast hi.timed hres (hok id rfl)
    rcases hcases with ⟨id', r, cache', hr, hlabel, hadv⟩ | ⟨instr', cache', hr, -⟩
    · cases hr
      refine ⟨⟨hadv.inv, htimed, fun _ => ⟨hadv.inv, fun _ => hadv.idx, fun _ hne => ?_⟩,
        fun hsync => ?_⟩, hraw.trans (congrArg _ (if_pos hl).symm)⟩
      · rw [← hlabel]
        exact hadv.text hne
      · have hsync' : h.loc = .slowSync ∨ h.loc = .medSync := hsync
        rw [hl] at hsync'
        rcases hsync' with hsync' | hsync'
        · cases hsync'
        · cases hsync'
    · cases hr
  · next instr cache heq =>
    have hres : h.dbbcache.fetchDecodeFast = (.fastAbort, instr, cache) := heq
    rw [hres] at hcases
    rcases hcases with ⟨id', r, cache', hr, -, -⟩ | ⟨instr', cache', hr, habort⟩
    · cases hr
    · -- The abort label has been reached, and the fetch is undone.
      cases hr
      refine .of_none (fun pc hpc => by cases hpc) ⟨?_, ?_, fun hop => ?_, fun hsync => ?_⟩ ?_
      · show cache.abortFetchDecodeFast.Inv isa false
        rw [habort]
        exact hi.inv
      · show cache.abortFetchDecodeFast.TimedLive isa
        rw [habort]
        exact hi.timed
      · cases hop
      · rcases hsync with hsync | hsync
        · cases hsync
        · cases hsync
      · show cache.abortFetchDecodeFast.getCycleCounterRaw = _
        rw [habort]

/-- A call of the operation on its cache. -/
theorem timely_call (hi : h.TimeInv isa) {c : Call 64} (hlegal : h.Legal isa (.call c))
    (hok : h.CacheOk isa (.call c)) : h.Timely isa (.none, h.call isa c) := by
  obtain ⟨hloc, hop, hlegal⟩ := hlegal
  obtain ⟨hstep, htrap⟩ := hok
  have htracked := hi.tracked hloc
  have hspec := htracked.step (by decide) hlegal (fun hall => by cases hall) hstep
  have htracked' := hspec.tracked htracked
  -- A call that does not throw leaves the loop in the operation.
  have hgo : ∀ d : Driver 64 Op (DBBCache 64 Op), d.Tracked isa false →
      h.dbbcache.Quiet isa d.cache → h.Timely isa (.none, { h with driver := d }) := by
    intro d hd hq
    refine .of_none (fun pc hpc => by cases hpc) ⟨hd.inv, hq.timed hi.timed, fun _ => hd, ?_⟩ hq.cycles
    intro hsync
    have hsync' : h.loc = .slowSync ∨ h.loc = .medSync := hsync
    rw [hloc] at hsync'
    rcases hsync' with hsync' | hsync'
    · cases hsync'
    · cases hsync'
  unfold Iss.call
  dsimp only
  generalize h.driver.step (DBBCache.ops isa) isa h.mem c = res at hspec htracked' htrap
  cases hspec with
  | fetched pc adv => cases hop
  | faulted flt => cases hop
  | landed obs pc hobs htgt lnd =>
    have hnone := hgo _ htracked' lnd.quiet
    cases obs with
    | trapped t lastPc => exact absurd rfl (hobs t lastPc)
    | _ => exact hnone
  | stayed obs hobs htgt hfetch hraise hcnt hfence std =>
    rename_i s'
    have hquiet : h.dbbcache.Quiet isa s' := by
      by_cases hf : c = .fenceI ∨ c = .fenceVma
      · obtain ⟨hfok, hc⟩ := hfence hf
        exact std.quiet_of_fence hi.inv hfok hc
      · rw [not_or] at hf
        exact std.quiet hi.inv (hcnt hf.1 hf.2)
    have hnone := hgo _ htracked' hquiet
    cases obs with
    | trapped t lastPc => exact absurd rfl (hobs t lastPc)
    | _ => exact hnone
  | raised =>
    rename_i t
    obtain ⟨hinv, -, hcyc⟩ := timeInv_caught
      (h := { h with driver := (h.driver.caught (DBBCache.ops isa) h.driver.cache t).2 })
      hi.inv hi.timed (htrap t _ rfl)
    exact .of_none (fun pc hpc => by cases hpc) hinv hcyc

/-- `URET`, `SRET` and `MRET` transfer control like a jump, and the transfer itself takes no time. -/
theorem timely_ret (hi : h.TimeInv isa) (mode : PrivilegeLevel) :
    h.Timely isa (.none, (h.returnFromTrapHandler mode).settle) := by
  have hl := hi.inv.landed_retTrap (h.csrs.returnFromTrapHandler mode).2.2
  have hforced := hl.inv.stayed_forceSlowPath
  have hquiet := hl.quiet.trans (hforced.quiet hl.inv (Driver.forceSlowPath_coherenceCnt _))
  refine .of_none (fun pc hpc => by cases hpc)
    ⟨hforced.inv, hquiet.timed hi.timed, fun _ => ⟨hforced.inv, ?_, ?_⟩, fun _ => ?_⟩ hquiet.cycles
  · intro he
    cases he
  · intro he
    cases he
  · -- `pc` is the address that the return has moved to.
    show (h.csrs.returnFromTrapHandler mode).2.2 = _
    refine (hl.first.symm.trans (hl.inv.getPc_of_idx_eq hl.idx).symm).trans ?_
    exact (hforced.getPc hl.inv).symm

/-- A request to the cache that comes from outside, or from the operation. -/
theorem Still.timely (hs : h.Still isa h') (hi : h.TimeInv isa) (hloc : h'.loc = h.loc)
    (hpc : h'.driver.pc = h.driver.pc) : h.Timely isa (.none, h') := by
  refine .of_none (fun pc hpc => by cases hpc) (hs.timeInv hi (fun hop => hloc ▸ hop) ?_)
    (hs.quiet hi.inv).cycles
  intro hsync
  exact ⟨hloc ▸ hsync, hpc⟩

/-- **What a step counts** is the time of the instruction it dispatches. -/
theorem TimeInv.step (hi : h.TimeInv isa) {e : Event} (hlegal : h.Legal isa e)
    (hok : h.CacheOk isa e) : h.Timely isa (h.step isa e) := by
  have hsame : ∀ h' : Iss Op, h'.driver = h.driver → h'.loc = h.loc → h.Timely isa (.none, h') := by
    intro h' hd hloc
    exact (Still.of_driver hi.inv hd).timely hi hloc (by rw [hd])
  have hforced : ∀ h' : Iss Op, h'.driver = { h.driver with cache := h.dbbcache.forceSlowPath } →
      h'.loc = h.loc → h.Timely isa (.none, h') := by
    intro h' hd hloc
    exact (still_of_forced hi.inv hd).timely hi hloc (by rw [hd])
  cases e with
  -- only a fetch dispatches, and only the operations before it have been counted
  | execSteps single =>
    have hs : h.Still isa (h.execSteps single) := still_of_forced hi.inv rfl
    refine .of_none (fun pc hpc => by cases hpc) (hs.timeInv hi (fun hop => ?_) fun hl => ?_)
      (hs.quiet hi.inv).cycles
    · cases hop
    · rcases hl with hl | hl
      · cases hl
      · cases hl
  | fdd needSync during => exact timely_globalFdd hi (fun _ => hok.1) hok.2 (.inl hlegal)
  | resume during =>
    refine timely_globalFdd hi (fun hg => ?_) hok (.inr hlegal)
    rcases hlegal with hl | hl
    · cases hl.symm.trans hg
    · cases hl.symm.trans hg
  | call c => exact timely_call hi hlegal hok
  | ret mode => exact timely_ret hi mode
  | finish => exact timely_fastFinalizeAndFdd hi hlegal hok
  -- the rest counts nothing: it leaves the cache alone or turns its fast path off
  | setCsrValue csrs inhibit =>
    cases inhibit with
    | none => exact hforced _ rfl rfl
    | some inhibit => exact hforced _ rfl rfl
  | loadReserved =>
    show h.Timely isa (.none, h.loadReserved)
    unfold loadReserved
    split_ifs
    · exact hforced _ rfl rfl
    · exact hsame _ rfl rfl
  | ebreak => exact hforced _ rfl rfl
  | trigger irq => exact hforced _ rfl rfl
  | forceSlowPath => exact hforced _ rfl rfl
  | sysExit => exact hforced _ rfl rfl
  | setStatus s => exact hforced _ rfl rfl
  | enableDebug => exact hforced _ rfl rfl
  | enableTrace ena => exact hforced _ rfl rfl
  | halt =>
    show h.Timely isa (.none, if h.debugMode then { h with status := .hitBreakpoint } else h)
    split_ifs
    · exact hsame _ rfl rfl
    · exact hsame _ rfl rfl
  | enableDbbcache ena =>
    have hs : h.Still isa (h.setCache (h.dbbcache.enable ena)) :=
      ⟨hi.inv.stayed_enable ena, Driver.enable_coherenceCnt _ ena, rfl, rfl, rfl⟩
    exact hs.timely hi rfl rfl
  | _ => exact hsame _ rfl rfl

/-- Before the first call of `exec_steps` nothing has been executed and nothing is counted. -/
theorem timeInv_start (isa : Isa Op) (enabled : Bool) (entrypoint : BitVec 64) (mem : InstrMem 64)
    (csrs : Csrs) (fastQuantum : BitVec 64) :
    (start enabled entrypoint mem csrs fastQuantum : Iss Op).TimeInv isa := by
  refine ⟨(landed_init isa false enabled entrypoint).inv, timedLive_init isa enabled entrypoint,
    fun hop => ?_, fun hl => ?_⟩
  · cases hop
  · rcases hl with hl | hl
    · cases hl
    · cases hl

/-! ### Evaluating the condition -/

instance (priority := 1100) decidableForallError {ε α β : Type*} (P : ε → β → Prop)
    [∀ e b, Decidable (P e b)] :
    ∀ r : Except ε α × β, Decidable (∀ e b, r = (.error e, b) → P e b)
  | (.error e, b) => decidable_of_iff (P e b)
      ⟨fun hP e' b' hr => by cases hr; exact hP, fun hP => hP e b rfl⟩
  | (.ok _, _) => isTrue fun _ _ hr => by cases hr

instance (priority := 1100) decidableForallOp (P : Op → Prop) [DecidablePred P] :
    ∀ l : Label Op, Decidable (∀ op, l = .op op → P op)
  | .op id => decidable_of_iff (P id)
      ⟨fun hP op hl => Label.op.inj hl ▸ hP, fun hP => hP id rfl⟩
  | .fastAbort => isTrue fun _ hl => by cases hl

instance decidableTrapOk (h : Iss Op) (t : SimulationTrap) : Decidable (h.TrapOk t) := by
  unfold TrapOk
  infer_instance

instance decidableInterruptOk (h : Iss Op) : Decidable h.InterruptOk := by
  unfold InterruptOk
  infer_instance

instance decidableFetchTimeOk (isa : Isa Op) (during : Option Irq) :
    (n : Next Op) → Decidable (FetchTimeOk isa during n)
  | .fdd _ => inferInstanceAs (Decidable (_ ∧ _))
  | .sync _ => instDecidableTrue
  | .leave _ => instDecidableTrue

/-- The condition for steps that are no fences, in which it can be evaluated. -/
def CacheOkUnfenced (isa : Isa Op) (h : Iss Op) : Event → Prop
  | .call .fenceI => False
  | .call .fenceVma => False
  | e => h.CacheOk isa e

theorem CacheOkUnfenced.cacheOk (h : Iss Op) (e : Event) (hok : h.CacheOkUnfenced isa e) :
    h.CacheOk isa e := by
  cases e with
  | call c =>
    cases c with
    | fenceI => exact hok.elim
    | fenceVma => exact hok.elim
    | _ => exact hok
  | _ => exact hok

instance decidableCacheOkUnfenced (isa : Isa Op) (h : Iss Op) :
    (e : Event) → Decidable (h.CacheOkUnfenced isa e)
  | .fdd _ _ => inferInstanceAs (Decidable (_ ∧ _))
  | .resume _ => inferInstanceAs (Decidable (FetchTimeOk _ _ _))
  | .finish => inferInstanceAs (Decidable (∀ op, h.dbbcache.fetchDecodeFast.1 = .op op → _))
  | .call .fenceI => instDecidableFalse
  | .call .fenceVma => instDecidableFalse
  | .call (.retTrap _) => @instDecidableAnd _ _ instDecidableTrue inferInstance
  | .call (.fetch _) =>
    @instDecidableAnd _ _ (Driver.decidableFetchOk isa h.mem h.driver.cache) inferInstance
  | .call .branchNotTaken | .call .branchTaken | .call .jump | .call .jumpAndLink
  | .call (.jumpDyn _) | .call (.jumpDynAndLink _) | .call (.raise _) | .call (.enterTrap _)
  | .call .forceSlowPath | .call (.enable _) =>
    @instDecidableAnd _ _ (Guest.decidableTargetOk isa h.driver _) inferInstance
  | .execSteps _ | .ret _ | .setCsrValue _ _ | .commitInstructions | .commitCycles | .loadReserved
  | .storeConditional | .wfi | .ebreak | .trigger _ | .clear _ | .forceSlowPath | .sysExit
  | .setStatus _ | .halt | .enableDebug | .enableTrace _ | .insertBreakpoint _ | .removeBreakpoint _
  | .enableDbbcache _ | .rewrite _ => instDecidableTrue

end RiscvVp.Iss
