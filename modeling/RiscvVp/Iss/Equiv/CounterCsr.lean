import RiscvVp.Iss.Equiv.Cycles
import RiscvVp.Iss.Equiv.SlowPath

/-!
# What the counters show

`exec_steps` counts instructions in a local variable and the decode cache counts time, and both are
committed lazily.  `Iss.instretNow` and `Iss.cyclesNow` are what the counters would show if
everything were committed at this point.  A step of the loop moves them by what it completes and by
what the cache counts in it, wherever it commits (`Iss.Counted`, `Iss.counted_step`), and what the
cache counts is the time of the instruction that is dispatched (`Iss.TimeInv.step`), so that a run
shows what it should: `CounterHart.readsRight_of_writeOk`.

What can go wrong is a write.  `CSRRW` without a destination does not commit before it writes
`minstret` or `mcountinhibit`, so that the instructions not yet committed are counted for the new
value, or under the new inhibit bit; and a value written to `mcycle` is lost.  The time goes wrong
with the cache, which after a fence may keep sums that are not those of the new code.
-/

namespace RiscvVp

namespace Iss

variable {Op : Type} {isa : Isa Op} {h h' h'' : Iss Op} {n m : ℕ}

/-! ### Counting over several commits -/

/-- What the cache has counted between two states. -/
def elapsed (h h' : Iss Op) : BitVec 64 :=
  h'.dbbcache.getCycleCounterRaw - h.dbbcache.getCycleCounterRaw

/-- What `minstret` shows after `commit_instructions`. -/
def instretNow (h : Iss Op) : BitVec 64 := h.commitInstructions.counters.instret

/-- What the cycle counter shows after `commit_cycles`. -/
def cyclesNow (h : Iss Op) : BitVec 64 := h.commitCycles.counters.cycleCounter

theorem instretNow_eq (h : Iss Op) : h.instretNow = h.counters.instret +
    if h.counters.inhibitIR then 0 else h.counters.ninstr - h.counters.ninstrLast := by
  rw [instretNow, commitInstructions, Counters.commitInstructions]
  cases h.counters.inhibitIR <;> simp

theorem cyclesNow_eq (h : Iss Op) : h.cyclesNow = h.counters.cycleCounter +
    if h.counters.inhibitCY then 0
    else h.dbbcache.getCycleCounterRaw - h.counters.cycleCounterRawLast := by
  rw [cyclesNow, commitCycles, Counters.commitCycles]
  cases h.counters.inhibitCY <;> simp

/-- Between two states, `n` instructions and what the cache has counted are added. -/
structure Counted (n : ℕ) (h h' : Iss Op) : Prop where
  inhibitIR : h'.counters.inhibitIR = h.counters.inhibitIR
  inhibitCY : h'.counters.inhibitCY = h.counters.inhibitCY
  instret : h'.instretNow =
    h.instretNow + if h.counters.inhibitIR then 0 else BitVec.ofNat 64 n
  cycles : h'.cyclesNow = h.cyclesNow + if h.counters.inhibitCY then 0 else elapsed h h'

namespace Counted

theorem trans (h₁ : Counted n h h') (h₂ : Counted m h' h'') : Counted (n + m) h h'' where
  inhibitIR := h₂.inhibitIR.trans h₁.inhibitIR
  inhibitCY := h₂.inhibitCY.trans h₁.inhibitCY
  instret := by
    rw [h₂.instret, h₁.instret, h₁.inhibitIR, BitVec.ofNat_add]
    cases h.counters.inhibitIR <;> simp [BitVec.add_assoc]
  cycles := by
    rw [h₂.cycles, h₁.cycles, h₁.inhibitCY]
    cases h.counters.inhibitCY
    · simp only [elapsed, Bool.false_eq_true, ↓reduceIte]
      ring
    · simp

/-- Time is counted wherever the counter of cycles is not touched. -/
theorem cycles_of_eq (hc : h'.counters.cycleCounter = h.counters.cycleCounter)
    (hl : h'.counters.cycleCounterRawLast = h.counters.cycleCounterRawLast)
    (hi : h'.counters.inhibitCY = h.counters.inhibitCY) :
    h'.cyclesNow = h.cyclesNow + if h.counters.inhibitCY then 0 else elapsed h h' := by
  rw [cyclesNow_eq, cyclesNow_eq, hc, hl, hi]
  cases h.counters.inhibitCY
  · simp only [elapsed, Bool.false_eq_true, ↓reduceIte]
    ring
  · simp

/-- Whatever else changes, the counters do not. -/
theorem of_counters (hc : h'.counters = h.counters) : Counted 0 h h' where
  inhibitIR := by rw [hc]
  inhibitCY := by rw [hc]
  instret := by
    rw [instretNow_eq, instretNow_eq, hc]
    simp
  cycles := cycles_of_eq (by rw [hc]) (by rw [hc]) (by rw [hc])

/-- `ninstr++`. -/
theorem of_ninstr (hc : h'.counters = { h.counters with ninstr := h.counters.ninstr + 1 }) :
    Counted 1 h h' where
  inhibitIR := by rw [hc]
  inhibitCY := by rw [hc]
  instret := by
    have h1 : BitVec.ofNat 64 1 = 1 := rfl
    rw [instretNow_eq, instretNow_eq, hc, h1]
    cases h.counters.inhibitIR
    · simp only [Bool.false_eq_true, ↓reduceIte]
      ring
    · simp
  cycles := cycles_of_eq (by rw [hc]) (by rw [hc]) (by rw [hc])

/-- `commit_instructions`. -/
theorem commitInstructions (h : Iss Op) : Counted 0 h h.commitInstructions where
  inhibitIR := rfl
  inhibitCY := rfl
  instret := by
    rw [instretNow_eq h.commitInstructions]
    show h.instretNow +
      (if h.counters.inhibitIR then 0 else h.counters.ninstr - h.counters.ninstr) = _
    simp
  cycles := cycles_of_eq rfl rfl rfl

/-- `commit_cycles`. -/
theorem commitCycles (h : Iss Op) : Counted 0 h h.commitCycles where
  inhibitIR := rfl
  inhibitCY := rfl
  instret := (@of_counters _ h h rfl).instret
  cycles := by
    rw [cyclesNow_eq h.commitCycles]
    show h.cyclesNow + (if h.counters.inhibitCY then 0
      else h.dbbcache.getCycleCounterRaw - h.dbbcache.getCycleCounterRaw) = _
    simp [elapsed, Iss.commitCycles, dbbcache]

/-- Both local counters start again when nothing is left to commit. -/
theorem of_reset (hn : h.counters.ninstr = h.counters.ninstrLast)
    (hc : h'.counters = { h.counters with ninstr := 0, ninstrLast := 0 }) : Counted 0 h h' where
  inhibitIR := by rw [hc]
  inhibitCY := by rw [hc]
  instret := by
    rw [instretNow_eq, instretNow_eq, hc, hn]
    simp
  cycles := cycles_of_eq (by rw [hc]) (by rw [hc]) (by rw [hc])

/-- `commit_all_and_reset_fast_quantum`. -/
theorem commitAll (h : Iss Op) : Counted 0 h h.commitAll :=
  ((commitInstructions h).trans (commitCycles _)).trans (of_reset rfl rfl)

/-- Counting goes on through a change that leaves the counters alone. -/
theorem keep (hs : Counted n h h') (hc : h''.counters = h'.counters) : Counted n h h'' :=
  hs.trans (of_counters hc)

end Counted

/-! ### The loop -/

/-- A trap counts as an instruction, unless the simulation is aborted. -/
theorem counted_caught (h : Iss Op) (t : SimulationTrap) :
    Counted (if (h.caught t).loc = .global then 1 else 0) h (h.caught t) := by
  unfold caught
  dsimp only
  split_ifs with habort hloc hloc
  · cases hloc
  · exact .of_counters rfl
  · exact .of_ninstr rfl
  · exact absurd rfl hloc

theorem loc_caught_ne_idle (h : Iss Op) (t : SimulationTrap) : (h.caught t).loc ≠ .idle := by
  unfold caught
  dsimp only
  split_ifs
  · exact Loc.noConfusion
  · exact Loc.noConfusion

theorem counters_handleInterrupt (h : Iss Op) : h.handleInterrupt.counters = h.counters := by
  unfold handleInterrupt
  cases h.csrs.handleInterrupt h.prv h.driver.pc with
  | none => rfl
  | some r => rfl

theorem counted_slowPathHead (h : Iss Op) : Counted 0 h h.slowPathHead := by
  have hserve : Counted 0 h h.slowPathServe := by
    refine Counted.keep ?_ (counters_handleInterrupt _)
    have hpc : Counted 0 h { h.setPc h.dbbcache.getPcMaybeAfterCallback with
        issSlowPath := false, watch := h.watch.serve } := .of_counters rfl
    exact hpc.trans (Counted.commitAll _)
  unfold slowPathHead
  dsimp only
  split_ifs
  · exact hserve.keep rfl
  · exact hserve

/-- Where a path through `OP_GLOBAL_FDD` leads, nothing has completed. -/
def NextCounted (h : Iss Op) : Next Op → Prop
  | .fdd h' => Counted 0 h h'
  | .sync h' => Counted 0 h h' ∧ h'.loc ≠ .idle
  | .leave h' => Counted 0 h h'

theorem nextCounted_slowPathDebug (hs : Counted 0 h h') : NextCounted h h'.slowPathDebug := by
  unfold slowPathDebug
  dsimp only
  split_ifs
  · exact hs.keep rfl
  · exact hs.keep rfl
  · exact hs.keep rfl
  · exact hs

theorem counters_lrScStep (h : Iss Op) : h.lrScStep.counters = h.counters := by
  unfold lrScStep
  dsimp only
  split_ifs <;> rfl

theorem nextCounted_slowPathTail (hs : Counted 0 h h') (needSync : Bool) :
    NextCounted h (h'.slowPathTail needSync) := by
  unfold slowPathTail
  split_ifs
  · exact hs
  · exact nextCounted_slowPathDebug (hs.keep (counters_lrScStep h'))
  · exact ⟨hs.keep rfl, Loc.noConfusion⟩
  · exact nextCounted_slowPathDebug hs

theorem nextCounted_medPath (h : Iss Op) (needSync : Bool) :
    NextCounted h (h.medPath needSync) := by
  have hpc : Counted 0 h (h.setPc h.dbbcache.getPcMaybeAfterCallback) := .of_counters rfl
  unfold medPath
  dsimp only
  split_ifs
  · exact ⟨(hpc.trans (Counted.commitAll _)).keep rfl, Loc.noConfusion⟩
  · exact hpc.trans (Counted.commitAll _)
  · exact hpc

theorem nextCounted_toFetch (h : Iss Op) (needSync : Bool) :
    NextCounted h (h.toFetch needSync) := by
  unfold toFetch
  split
  · exact nextCounted_slowPathDebug (.of_counters rfl)
  · exact Counted.of_counters rfl
  · split_ifs
    · exact nextCounted_slowPathTail (counted_slowPathHead h) needSync
    · exact nextCounted_medPath h needSync

theorem counters_raiseDuring (h : Iss Op) (during : Option Irq) :
    (h.raiseDuring during).counters = h.counters := by
  cases during <;> rfl

/-- What the fetch leads to: an operation, or a trap. -/
theorem fdd_cases (h : Iss Op) (slow : Bool) (during : Option Irq) :
    (∃ h' : Iss Op, h.fdd isa slow during = (.dispatched h.driver.pc, h') ∧ h'.counters = h.counters ∧
      h'.loc = .operation) ∨
    ∃ (h' : Iss Op) (t : SimulationTrap),
      h.fdd isa slow during = (.dispatched h.driver.pc, h'.caught t) ∧
      h'.counters = h.counters := by
  unfold fdd
  dsimp only
  split
  · refine Or.inl ⟨_, rfl, ?_, ?_⟩
    · split_ifs
      · exact counters_raiseDuring _ _
      · exact counters_raiseDuring _ _
    · split_ifs <;> rfl
  · exact Or.inr ⟨_, _, rfl, counters_raiseDuring _ _⟩

/-- Nothing is left to commit while `exec_steps` is not running. -/
def Settled (h : Iss Op) : Prop := h.loc = .idle → h.counters.ninstr = h.counters.ninstrLast

theorem completed_resume (needSync : Bool) (during : Option Irq) (r : Out × Iss Op) :
    completed (.resume during) r = completed (.fdd needSync during) r := by
  rcases r with ⟨_ | _ | _, _⟩ <;> rfl

/-- From `OP_GLOBAL_FDD` to the next point of rest: a trap of the fetch counts. -/
theorem counted_globalFdd (h : Iss Op) (needSync : Bool) (during : Option Irq) :
    let r := h.globalFdd isa needSync during
    Counted (completed (.fdd needSync during) r) h r.2 ∧ r.2.Settled := by
  have hnext := nextCounted_toFetch h needSync
  unfold globalFdd
  cases hto : h.toFetch needSync with
  | fdd h' =>
    rw [hto] at hnext
    dsimp only
    have hnext : Counted 0 h h' := hnext
    -- the fetch succeeds, or traps and completes as an instruction
    obtain ⟨h₁, heq, hc, hl⟩ | ⟨h₁, t, heq, hc⟩ := @fdd_cases _ isa h' h.isSlow during
    · rw [heq]
      refine ⟨?_, fun hidle => ?_⟩
      · have hne : h₁.loc ≠ .global := by
          rw [hl]
          exact Loc.noConfusion
        show Counted (if h₁.loc = .global then 1 else 0) h h₁
        rw [if_neg hne]
        exact hnext.keep hc
      · rw [hl] at hidle
        cases hidle
    · rw [heq]
      refine ⟨?_, fun hidle => absurd hidle (loc_caught_ne_idle h₁ t)⟩
      have := (hnext.keep hc).trans (counted_caught h₁ t)
      rwa [Nat.zero_add] at this
  | sync h' =>
    rw [hto] at hnext
    exact ⟨hnext.1, fun hidle => absurd hidle hnext.2⟩
  | leave h' =>
    rw [hto] at hnext
    have hnext : Counted 0 h h' := hnext
    refine ⟨?_, fun _ => rfl⟩
    have hleave := (@Counted.keep _ h h' (h'.setPc h'.dbbcache.getPcMaybeAfterCallback) 0 hnext rfl).trans
      (Counted.commitAll _)
    exact hleave.keep rfl

/-- `OP_END` counts the instruction that ends there, and a hart that was running does not fall idle by it. -/
theorem counted_fastFinalizeAndFdd (h : Iss Op) :
    Counted 1 h h.fastFinalizeAndFdd.2 ∧
      (h.fastFinalizeAndFdd.2.loc = .idle → h.loc = .idle) := by
  unfold fastFinalizeAndFdd
  dsimp only
  split
  · exact ⟨.of_ninstr rfl, fun hidle => hidle⟩
  · refine ⟨.of_ninstr rfl, fun hidle => ?_⟩
    cases hidle

/-- What a call leads to: the operation goes on, or a trap. -/
theorem call_cases (h : Iss Op) (c : Call 64) :
    (∃ d, h.call isa c = { h with driver := d }) ∨
      ∃ d t, h.call isa c = { h with driver := d }.caught t := by
  unfold call
  dsimp only
  split
  · exact Or.inr ⟨_, _, rfl⟩
  · exact Or.inl ⟨_, rfl⟩

/-- A call of the operation: if it throws, the instruction counts. -/
theorem counted_call (hl : h.loc = .operation) (c : Call 64) :
    Counted (if (h.call isa c).loc = .global then 1 else 0) h (h.call isa c) ∧
      (h.call isa c).loc ≠ .idle := by
  obtain ⟨d, heq⟩ | ⟨d, t, heq⟩ := @call_cases _ isa h c
  · rw [heq]
    dsimp only
    rw [hl]
    exact ⟨.of_counters rfl, Loc.noConfusion⟩
  · rw [heq]
    refine ⟨?_, loc_caught_ne_idle _ t⟩
    have hd : Counted 0 h { h with driver := d } := .of_counters rfl
    have := hd.trans (counted_caught _ t)
    rwa [Nat.zero_add] at this

/-- **One step** adds what completes in it and what the cache counts, wherever it commits. -/
theorem counted_step (hs : h.Settled) {e : Event} (hlegal : h.Legal isa e)
    (hcsr : e.inhibit = none) :
    Counted (completed e (h.step isa e)) h (h.step isa e).2 ∧ (h.step isa e).2.Settled := by
  -- instructions complete in `resume`, `call`, `finish` and the fetches; the other events count nothing
  cases e with
  | execSteps single =>
    refine ⟨.of_reset (hs hlegal.1) rfl, fun hidle => ?_⟩
    cases hidle
  | fdd needSync during => exact counted_globalFdd h needSync during
  | resume during =>
    rw [completed_resume false]
    exact counted_globalFdd h false during
  | call c =>
    obtain ⟨hc, hne⟩ := @counted_call _ isa _ hlegal.1 c
    exact ⟨hc, fun hidle => absurd hidle hne⟩
  | setCsrValue csrs inhibit =>
    obtain rfl : inhibit = none := hcsr
    exact ⟨.of_counters rfl, hs⟩
  | commitInstructions => exact ⟨.commitInstructions h, fun _ => rfl⟩
  | commitCycles => exact ⟨.commitCycles h, hs⟩
  | finish =>
    obtain ⟨hc, hidle⟩ := counted_fastFinalizeAndFdd h
    refine ⟨hc, fun hl => ?_⟩
    have hop : h.loc = .operation := hlegal
    rw [hop] at hidle
    cases hidle hl
  | loadReserved =>
    have hc : h.loadReserved.counters = h.counters := by
      unfold loadReserved
      split_ifs <;> rfl
    have hl : h.loadReserved.loc = h.loc := by
      unfold loadReserved
      split_ifs <;> rfl
    refine ⟨.of_counters hc, fun hidle => ?_⟩
    show h.loadReserved.counters.ninstr = h.loadReserved.counters.ninstrLast
    rw [hc]
    exact hs (hl.symm.trans hidle)
  | halt =>
    show Counted 0 h (if h.debugMode then { h with status := .hitBreakpoint } else h) ∧
      Settled (if h.debugMode then { h with status := .hitBreakpoint } else h)
    split_ifs
    · exact ⟨.of_counters rfl, hs⟩
    · exact ⟨.of_counters rfl, hs⟩
  | _ => exact ⟨.of_counters rfl, hs⟩

end Iss

namespace CounterHart

variable {Op : Type} {isa : Isa Op} {period : BitVec 64} {h h' : CounterHart Op}

/-! ### What is claimed, and the conditions -/

/-- A CSR instruction that reads `minstret` reads what it should. -/
def MinstretRight (isa : Isa Op) (period : BitVec 64) (h : CounterHart Op) : Event → Prop
  | .csr .minstret i =>
    ∀ v, (h.step isa period (.csr .minstret i)).1 = some v → v = h.expected.minstret
  | _ => True

/-- A CSR instruction that reads `mcycle` reads what it should. -/
def McycleRight (isa : Isa Op) (period : BitVec 64) (h : CounterHart Op) : Event → Prop
  | .csr .mcycle i =>
    ∀ v, (h.step isa period (.csr .mcycle i)).1 = some v → v = h.expected.mcycle period
  | _ => True

/-- No instruction waits to be committed when the register is written: the instruction commits
itself, or there is nothing to commit. -/
def Committed (h : CounterHart Op) (i : CsrInstr) : Prop :=
  i.reads = true ∨ h.iss.counters.ninstr = h.iss.counters.ninstrLast

/-- For `minstret`: it is written when everything is committed or nothing counts, and
`mcountinhibit` when everything is committed or `IR` stays. -/
def MinstretOk (h : CounterHart Op) : Event → Prop
  | .csr .minstret i => i.writes = true → h.Committed i ∨ h.iss.counters.inhibitIR = true
  | .csr .mcountinhibit i =>
    i.writes = true → h.Committed i ∨ i.operand.getLsbD 2 = h.iss.counters.inhibitIR
  | _ => True

/-- For `mcycle`: it is not written, the time counted is one that `sc_time` can hold, and the loop
finds the cache in order. -/
def McycleOk (isa : Isa Op) (h : CounterHart Op) : Event → Prop
  | .iss e => h.iss.CacheOk isa e
  | .csr .mcycle i => i.writes = false ∧ h.expected.time < 2 ^ 64
  | _ => True

/-! ### The invariants -/

/-- The instructions counted, once committed, are as they should be. -/
structure InstretInv (h : CounterHart Op) : Prop where
  settled : h.iss.Settled
  instret : h.iss.instretNow = h.expected.minstret

/-- The time counted, once committed, is as it should be. -/
structure CyclesInv (isa : Isa Op) (h : CounterHart Op) : Prop where
  timeInv : h.iss.TimeInv isa
  cycles : h.iss.cyclesNow = BitVec.ofNat 64 h.expected.time
  written : h.expected.mcycleWritten = 0

theorem instretInv_start (enabled : Bool) (entrypoint : BitVec 64) (mem : InstrMem 64)
    (csrs : Csrs) (fastQuantum : BitVec 64) :
    (start enabled entrypoint mem csrs fastQuantum : CounterHart Op).InstretInv :=
  ⟨fun _ => rfl, by simp [Iss.instretNow_eq, start, Iss.start]⟩

theorem cyclesInv_start (isa : Isa Op) (enabled : Bool) (entrypoint : BitVec 64)
    (mem : InstrMem 64) (csrs : Csrs) (fastQuantum : BitVec 64) :
    (start enabled entrypoint mem csrs fastQuantum : CounterHart Op).CyclesInv isa := by
  have hraw : (DBBCache.init enabled entrypoint : DBBCache 64 Op).getCycleCounterRaw = 0 := by
    rw [(DBBCache.landed_init isa true enabled entrypoint).cycles, DBBCache.getCycles_boot]
  refine ⟨Iss.timeInv_start isa enabled entrypoint mem csrs fastQuantum, ?_, rfl⟩
  rw [Iss.cyclesNow_eq]
  show (0 : BitVec 64) + ((DBBCache.init enabled entrypoint).getCycleCounterRaw - 0) = 0
  rw [hraw]
  rfl

/-- A step that counts `n` instructions moves the counter and what is expected of it alike. -/
theorem InstretInv.count (hi : h.InstretInv) {n : ℕ} {iss : Iss Op} (hc : h.iss.Counted n iss)
    (hs : iss.Settled) (time : BitVec 64) : (count n time { h with iss := iss }).InstretInv := by
  refine ⟨hs, ?_⟩
  show iss.instretNow = if iss.counters.inhibitIR then h.expected.minstret
    else h.expected.minstret + BitVec.ofNat 64 n
  rw [hc.instret, hc.inhibitIR, hi.instret]
  split_ifs <;> simp

/-- A step that takes some time moves the cycle count of the cache and what is expected of it alike. -/
theorem CyclesInv.count (hi : h.CyclesInv isa) {n : ℕ} {iss : Iss Op} {time : BitVec 64}
    (hc : h.iss.Counted n iss) (ht : iss.TimeInv isa)
    (hraw : iss.dbbcache.getCycleCounterRaw = h.iss.dbbcache.getCycleCounterRaw + time) :
    (count n time { h with iss := iss }).CyclesInv isa := by
  have htime : Iss.elapsed h.iss iss = time := by
    rw [Iss.elapsed, hraw]
    ring
  refine ⟨ht, ?_, hi.written⟩
  show iss.cyclesNow = BitVec.ofNat 64 (if iss.counters.inhibitCY then h.expected.time
    else h.expected.time + time.toNat)
  rw [hc.cycles, hc.inhibitCY, hi.cycles, htime]
  split_ifs
  · simp
  · rw [BitVec.ofNat_add, BitVec.ofNat_toNat, BitVec.setWidth_eq]

/-! ### CSR instructions -/

/-- The reading half commits and changes nothing else. -/
theorem csrRead_spec (h : CounterHart Op) (csr : CounterCsr) (i : CsrInstr) :
    h.iss.Counted 0 (h.csrRead period csr i).2.iss ∧
      (h.csrRead period csr i).2.expected = h.expected ∧
      (h.csrRead period csr i).2.iss.loc = h.iss.loc ∧
      (h.csrRead period csr i).2.iss.driver = h.iss.driver ∧
      (h.Committed i → (h.csrRead period csr i).2.iss.counters.ninstr =
        (h.csrRead period csr i).2.iss.counters.ninstrLast) := by
  unfold csrRead
  by_cases hr : i.reads = true
  · rw [if_pos hr]
    cases csr with
    | mcycle =>
      have hc := (Iss.Counted.commitInstructions h.iss).trans (Iss.Counted.commitCycles _)
      exact ⟨hc, rfl, rfl, rfl, fun _ => rfl⟩
    | minstret => exact ⟨Iss.Counted.commitInstructions h.iss, rfl, rfl, rfl, fun _ => rfl⟩
    | mcountinhibit => exact ⟨Iss.Counted.commitInstructions h.iss, rfl, rfl, rfl, fun _ => rfl⟩
  · rw [if_neg hr]
    exact ⟨.of_counters rfl, rfl, rfl, rfl, fun hcom => hcom.resolve_left hr⟩

/-- What is read from `minstret` is the number of instructions up to now, committed or not. -/
theorem csrRead_minstret {i : CsrInstr} {v : BitVec 64}
    (hv : (h.csrRead period .minstret i).1 = some v) : v = h.iss.instretNow := by
  unfold csrRead at hv
  split_ifs at hv
  exact (Option.some.inj hv).symm

/-- What is read from `mcycle` is the time up to now in periods of the clock. -/
theorem csrRead_mcycle {i : CsrInstr} {v : BitVec 64}
    (hv : (h.csrRead period .mcycle i).1 = some v) : v = h.iss.cyclesNow / period := by
  unfold csrRead at hv
  split_ifs at hv
  exact (Option.some.inj hv).symm

theorem fst_csr (h : CounterHart Op) (csr : CounterCsr) (i : CsrInstr) :
    (h.csr period csr i).1 = (h.csrRead period csr i).1 := by
  unfold CounterHart.csr
  dsimp only
  split_ifs <;> rfl

/-- A quotient below `2^64` is that of the natural numbers. -/
theorem ofNat_div {n : ℕ} (hn : n < 2 ^ 64) (period : BitVec 64) :
    BitVec.ofNat 64 n / period = BitVec.ofNat 64 (n / period.toNat) := by
  apply BitVec.eq_of_toNat_eq
  have hle := Nat.div_le_self n period.toNat
  rw [BitVec.toNat_udiv, BitVec.toNat_ofNat, BitVec.toNat_ofNat, Nat.mod_eq_of_lt hn,
    Nat.mod_eq_of_lt (by omega)]

/-! ### The instructions counted -/

namespace InstretInv

theorem csrRead (hi : h.InstretInv) (hl : h.iss.loc = .operation) (csr : CounterCsr)
    (i : CsrInstr) : (h.csrRead period csr i).2.InstretInv := by
  obtain ⟨hc, hx, hloc, -, -⟩ := @csrRead_spec _ period h csr i
  refine ⟨fun hidle => ?_, ?_⟩
  · rw [hloc, hl] at hidle
    cases hidle
  · rw [hc.instret, hx, hi.instret]
    simp

/-- `minstret` is written when nothing waits to be committed, or nothing counts. -/
theorem write_minstret (hl : h.iss.loc = .operation)
    (hpend : h.iss.counters.ninstr = h.iss.counters.ninstrLast ∨ h.iss.counters.inhibitIR = true)
    (value : BitVec 64) : { h.setCsrValue .minstret value with
      expected := h.expected.write .minstret value }.InstretInv := by
  refine ⟨fun hidle => ?_, ?_⟩
  · cases hl.symm.trans hidle
  · rw [Iss.instretNow_eq]
    show value + (if h.iss.counters.inhibitIR then 0
      else h.iss.counters.ninstr - h.iss.counters.ninstrLast) = value
    rcases hpend with hp | hp
    · rw [hp]
      simp
    · rw [hp]
      simp

/-- `mcountinhibit` is written when nothing waits to be committed, or `IR` stays. -/
theorem write_mcountinhibit (hi : h.InstretInv) (hl : h.iss.loc = .operation) (value : BitVec 64)
    (hpend : h.iss.counters.ninstr = h.iss.counters.ninstrLast ∨
      value.getLsbD 2 = h.iss.counters.inhibitIR) :
    { h.setCsrValue .mcountinhibit value with
      expected := h.expected.write .mcountinhibit value }.InstretInv := by
  refine ⟨fun hidle => ?_, ?_⟩
  · cases hl.symm.trans hidle
  · have hnow := hi.instret
    rw [Iss.instretNow_eq] at hnow ⊢
    show h.iss.counters.instret + (if value.getLsbD 2 then 0
      else h.iss.counters.ninstr - h.iss.counters.ninstrLast) = h.expected.minstret
    rw [← hnow]
    rcases hpend with hp | hp
    · rw [hp]
      simp
    · rw [hp]

/-- A CSR instruction keeps the instructions counted right. -/
theorem csr (hi : h.InstretInv) (hl : h.iss.loc = .operation) {csr : CounterCsr} {i : CsrInstr}
    (hok : h.MinstretOk (.csr csr i)) : (h.csr period csr i).2.InstretInv := by
  obtain ⟨hc, -, hloc, -, hcom⟩ := @csrRead_spec _ period h csr i
  have hread := @InstretInv.csrRead _ period _ hi hl csr i
  unfold CounterHart.csr
  dsimp only
  by_cases hwr : i.writes = true
  · rw [if_pos hwr]
    cases csr with
    | mcycle => exact ⟨hread.settled, hread.instret⟩
    | minstret =>
      refine write_minstret (hloc.trans hl) ?_ _
      rw [hc.inhibitIR]
      exact (hok hwr).imp_left hcom
    | mcountinhibit =>
      refine hread.write_mcountinhibit (hloc.trans hl) _ ?_
      rw [hc.inhibitIR]
      by_cases hr : i.reads = true
      · exact Or.inl (hcom (Or.inl hr))
      · -- Only `CSRRW` does not read, and it writes its operand.
        have hop : i.op = .rw := by
          cases hop : i.op <;> simp_all [CsrInstr.reads]
        rw [CsrInstr.newValue, hop]
        exact (hok hwr).imp_left hcom
  · rw [if_neg hwr]
    exact hread

/-- One event keeps the invariant of `minstret`, if no write of the counter changes it on the way. -/
theorem step (hi : h.InstretInv) {e : Event} (hlegal : h.Legal isa e) (hok : h.MinstretOk e) :
    (h.step isa period e).2.InstretInv := by
  cases e with
  | iss e =>
    obtain ⟨hc, hs⟩ := Iss.counted_step hi.settled hlegal.1 hlegal.2
    exact hi.count hc hs _
  | finalizeGlobal =>
    refine hi.count (.of_ninstr rfl) (fun hidle => ?_) _
    cases hidle
  | csr csr i => exact hi.csr hlegal.1 hok

/-- A CSR instruction reads what it should from `minstret`. -/
theorem right (hi : h.InstretInv) (e : Event) : h.MinstretRight isa period e := by
  cases e with
  | iss e => trivial
  | finalizeGlobal => trivial
  | csr csr i =>
    cases csr with
    | mcycle => trivial
    | mcountinhibit => trivial
    | minstret =>
      intro v hv
      have hv : (h.csr period .minstret i).1 = some v := hv
      rw [fst_csr] at hv
      rw [csrRead_minstret hv, hi.instret]

end InstretInv

/-! ### The time counted -/

namespace CyclesInv

theorem csrRead (hi : h.CyclesInv isa) (csr : CounterCsr) (i : CsrInstr) :
    (h.csrRead period csr i).2.CyclesInv isa := by
  obtain ⟨hc, hx, hloc, hdriver, -⟩ := @csrRead_spec _ period h csr i
  have hstill := Iss.Still.of_driver hi.timeInv.inv hdriver
  have hraw : Iss.elapsed h.iss (h.csrRead period csr i).2.iss = 0 := by
    rw [Iss.elapsed, (hstill.quiet hi.timeInv.inv).cycles]
    exact BitVec.sub_self _
  refine ⟨hstill.timeInv hi.timeInv (fun hop => hloc ▸ hop) fun hl => ⟨hloc ▸ hl, ?_⟩, ?_, ?_⟩
  · rw [hdriver]
  · rw [hc.cycles, hx, hi.cycles, hraw]
    simp
  · rw [hx, hi.written]

/-- A write that requests the slow path and leaves the cycle counter as it is, or commits it. -/
theorem write (hi : h.CyclesInv isa) (iss : Iss Op) (hloc : iss.loc = h.iss.loc)
    (hdriver : iss.driver = { h.iss.driver with cache := h.iss.dbbcache.forceSlowPath })
    (hcyc : iss.dbbcache.getCycleCounterRaw = h.iss.dbbcache.getCycleCounterRaw →
      iss.cyclesNow = h.iss.cyclesNow) {cycle : BitVec 64} {x : Expected}
    (hx : x.time = h.expected.time) (hw : x.mcycleWritten = h.expected.mcycleWritten) :
    CyclesInv isa { h with iss := iss, cycle := cycle, expected := x } := by
  have hstill := Iss.still_of_forced hi.timeInv.inv hdriver
  refine ⟨hstill.timeInv hi.timeInv (fun hop => hloc ▸ hop) fun hl => ⟨hloc ▸ hl, ?_⟩, ?_, ?_⟩
  · rw [hdriver]
  · show iss.cyclesNow = BitVec.ofNat 64 x.time
    rw [hcyc (hstill.quiet hi.timeInv.inv).cycles, hi.cycles, hx]
  · exact hw.trans hi.written

/-- A CSR instruction keeps the time counted right. -/
theorem csr (hi : h.CyclesInv isa) {csr : CounterCsr} {i : CsrInstr}
    (hok : h.McycleOk isa (.csr csr i)) : (h.csr period csr i).2.CyclesInv isa := by
  have hread := @CyclesInv.csrRead _ _ period _ hi csr i
  unfold CounterHart.csr
  dsimp only
  generalize (h.csrRead period csr i) = r at hread
  by_cases hwr : i.writes = true
  · rw [if_pos hwr]
    cases csr with
    | mcycle =>
      rw [hok.1] at hwr
      cases hwr
    | minstret =>
      refine hread.write (r.2.setCsrValue .minstret (i.newValue (r.1.getD 0))).iss rfl rfl
        (fun hraw => ?_) rfl rfl
      rw [Iss.cyclesNow_eq, Iss.cyclesNow_eq, hraw]
      rfl
    | mcountinhibit =>
      -- The cycles are committed by the write itself, under the old bit.
      refine hread.write (r.2.setCsrValue .mcountinhibit (i.newValue (r.1.getD 0))).iss rfl rfl
        (fun hraw => ?_) rfl rfl
      rw [Iss.cyclesNow_eq, hraw]
      show r.2.iss.cyclesNow + (if _ then 0 else r.2.iss.dbbcache.getCycleCounterRaw -
        r.2.iss.dbbcache.getCycleCounterRaw) = _
      simp
  · rw [if_neg hwr]
    exact hread

/-- One event keeps the invariant of `mcycle`, if the code counts in it what the instructions take. -/
theorem step (hi : h.CyclesInv isa) (hs : h.iss.Settled) {e : Event} (hlegal : h.Legal isa e)
    (hok : h.McycleOk isa e) : (h.step isa period e).2.CyclesInv isa := by
  cases e with
  | iss e =>
    have hc := (Iss.counted_step hs hlegal.1 hlegal.2).1
    have ht := hi.timeInv.step hlegal.1 hok
    exact hi.count hc ht.inv ht.cycles
  | finalizeGlobal =>
    have hstill := Iss.Still.of_driver hi.timeInv.inv (rfl : h.iss.finalizeGlobal.driver = h.iss.driver)
    refine hi.count (.of_ninstr rfl) (hstill.timeInv hi.timeInv (fun hop => ?_) fun hl => ?_) ?_
    · cases hop
    · rcases hl with hl | hl
      · cases hl
      · cases hl
    · rw [add_zero]
      rfl
  | csr csr i => exact hi.csr hok

/-- A CSR instruction reads what it should from `mcycle`. -/
theorem right (hi : h.CyclesInv isa) {e : Event} (hok : h.McycleOk isa e) :
    h.McycleRight isa period e := by
  cases e with
  | iss e => trivial
  | finalizeGlobal => trivial
  | csr csr i =>
    cases csr with
    | minstret => trivial
    | mcountinhibit => trivial
    | mcycle =>
      intro v hv
      have hv : (h.csr period .mcycle i).1 = some v := hv
      rw [fst_csr] at hv
      rw [csrRead_mcycle hv, hi.cycles, ofNat_div hok.2, Expected.mcycle, hi.written]
      simp

end CyclesInv

/-- Nothing is left to commit while the loop is not running, whatever is written. -/
theorem settled_step (hs : h.iss.Settled) {e : Event} (hlegal : h.Legal isa e) :
    (h.step isa period e).2.iss.Settled := by
  cases e with
  | iss e => exact (Iss.counted_step hs hlegal.1 hlegal.2).2
  | finalizeGlobal =>
    intro hidle
    cases hidle
  | csr csr i =>
    obtain ⟨-, -, hloc, -, -⟩ := @csrRead_spec _ period h csr i
    have hop : (h.csr period csr i).2.iss.loc = .operation := by
      unfold CounterHart.csr
      dsimp only
      split_ifs
      · cases csr with
        | mcycle => exact hloc.trans hlegal.1
        | minstret => exact hloc.trans hlegal.1
        | mcountinhibit => exact hloc.trans hlegal.1
      · exact hloc.trans hlegal.1
    intro hidle
    cases hop.symm.trans hidle

/-- **What the counters show.**  In every run in which no write of `minstret` or `mcountinhibit`
overtakes a commit, every read of `minstret` shows the instructions that have been counted; and in
every run in which `mcycle` is not written and the cache stays in order, every read of `mcycle` shows
the time of the instructions. -/
theorem readsRight_of_writeOk (isa : Isa Op) (period : BitVec 64) (enabled : Bool)
    (entrypoint : BitVec 64) (mem : InstrMem 64) (csrs : Csrs) (fastQuantum : BitVec 64)
    (events : List Event)
    (hlegal : Run.Along (Legal isa) (step isa period)
      (start enabled entrypoint mem csrs fastQuantum) events) :
    (Run.Along MinstretOk (step isa period) (start enabled entrypoint mem csrs fastQuantum)
        events →
      Run.Along (MinstretRight isa period) (step isa period)
        (start enabled entrypoint mem csrs fastQuantum) events) ∧
    (Run.Along (McycleOk isa) (step isa period) (start enabled entrypoint mem csrs fastQuantum)
        events →
      Run.Along (McycleRight isa period) (step isa period)
        (start enabled entrypoint mem csrs fastQuantum) events) := by
  constructor
  · intro hok
    refine Run.Along.of_invariant InstretInv (fun _ e hi hc => ⟨hi.right e, hi.step hc.1 hc.2⟩) ?_
      (hlegal.and hok)
    exact instretInv_start enabled entrypoint mem csrs fastQuantum
  · intro hok
    refine Run.Along.of_invariant (fun h => h.CyclesInv isa ∧ h.iss.Settled)
      (fun _ _ hi hc => ⟨hi.1.right hc.2, hi.1.step hi.2 hc.1 hc.2, settled_step hi.2 hc.1⟩) ?_
      (hlegal.and hok)
    exact ⟨cyclesInv_start isa enabled entrypoint mem csrs fastQuantum, fun _ => rfl⟩

/-! ### Concrete runs -/

instance decidableLegal (isa : Isa Op) (h : CounterHart Op) :
    (e : Event) → Decidable (h.Legal isa e)
  | .iss _ => inferInstanceAs (Decidable (_ ∧ _))
  | .finalizeGlobal => inferInstanceAs (Decidable (_ ∧ _))
  | .csr _ _ => inferInstanceAs (Decidable (_ ∧ _))

instance decidableCommitted (h : CounterHart Op) (i : CsrInstr) : Decidable (h.Committed i) :=
  inferInstanceAs (Decidable (_ ∨ _))

instance decidableMinstretOk (h : CounterHart Op) : (e : Event) → Decidable (h.MinstretOk e)
  | .csr .mcycle _ => instDecidableTrue
  | .csr .minstret _ => inferInstanceAs (Decidable (_ → _))
  | .csr .mcountinhibit _ => inferInstanceAs (Decidable (_ → _))
  | .iss _ => instDecidableTrue
  | .finalizeGlobal => instDecidableTrue

/-- The condition for runs without fences, in which it can be evaluated. -/
def McycleOkUnfenced (isa : Isa Op) (h : CounterHart Op) : Event → Prop
  | .iss e => h.iss.CacheOkUnfenced isa e
  | e => h.McycleOk isa e

theorem McycleOkUnfenced.mcycleOk (h : CounterHart Op) (e : Event) (hok : h.McycleOkUnfenced isa e) :
    h.McycleOk isa e := by
  cases e with
  | iss e => exact Iss.CacheOkUnfenced.cacheOk h.iss e hok
  | _ => exact hok

instance decidableMcycleOkUnfenced (isa : Isa Op) (h : CounterHart Op) :
    (e : Event) → Decidable (h.McycleOkUnfenced isa e)
  | .iss e => Iss.decidableCacheOkUnfenced isa h.iss e
  | .finalizeGlobal => instDecidableTrue
  | .csr .mcycle _ => inferInstanceAs (Decidable (_ ∧ _))
  | .csr .minstret _ => instDecidableTrue
  | .csr .mcountinhibit _ => instDecidableTrue

/-- `nop; csrrw x0, minstret, x0; csrrs x1, minstret, x0`. -/
def clearCode : InstrMem 64 := fun a =>
  if a = 0x1004 then .ok 0xb0201073
  else if a = 0x1008 then .ok 0xb02020f3
  else .ok 0x00000013

/-- The code up to the `csrrs`. -/
def clearEvents : List Event :=
  [.iss (.execSteps false), .iss (.fdd false none), .iss .finish, .iss (.fdd false none),
    .csr .minstret ⟨.rw, 0, 0, true⟩, .iss .finish, .iss (.fdd false none)]

/-- **A write overtakes a commit.**  The `nop` before `csrrw x0, minstret, x0` is not committed when
the register is written, and is counted afterwards: `csrrs x1, minstret, x0` reads 2, where only the
`csrrw` has completed since the write. -/
theorem not_readsRight_clear :
    Run.Along (Legal defaultIsa) (step defaultIsa 10000)
      (start true 0x1000 clearCode Csrs.reset 100)
      (clearEvents ++ [.csr .minstret ⟨.rs, 1, 0, true⟩]) ∧
    ¬ Run.Along (MinstretRight defaultIsa 10000) (step defaultIsa 10000)
      (start true 0x1000 clearCode Csrs.reset 100)
      (clearEvents ++ [.csr .minstret ⟨.rs, 1, 0, true⟩]) := by
  refine ⟨by decide, fun hrun => ?_⟩
  have hread := hrun.last 2 (by decide)
  exact absurd hread (by decide)

/-- A loop of `lw x5, 0(x6)`, which takes four cycles, `csrrs x1, mcycle, x0`,
`csrrs x1, minstret, x0` and a jump back. -/
def loopCode : InstrMem 64 := fun a =>
  if a = 0x1000 then .ok 0x00032283
  else if a = 0x1004 then .ok 0xb00020f3
  else if a = 0x1008 then .ok 0xb02020f3
  else if a = 0x100c then .ok 0xff5ff06f
  else .ok 0x00000013

/-- The body of the loop once its `lw` has been dispatched, with what takes it from the end of an
operation to the next. -/
def bodyEvents (next : List Event) : List Event :=
  next ++ [.csr .mcycle ⟨.rs, 1, 0, true⟩] ++ next ++ [.csr .minstret ⟨.rs, 1, 0, true⟩] ++ next ++
    [.iss (.call .jump)]

/-- Two rounds of the loop, the second on the fast path, and the `lw` of the third, whose page fault
is caught. -/
def loopEvents : List Event :=
  [.iss (.execSteps false), .iss (.fdd false none)] ++
    bodyEvents [.iss .finish, .iss (.fdd false none)] ++ [.iss .finish, .iss (.fdd false none)] ++
    bodyEvents [.iss .finish] ++ [.iss .finish, .iss (.call (.raise ⟨.loadPageFault, 0x4000⟩)),
      .iss (.fdd false none), .csr .mcycle ⟨.rs, 1, 0, true⟩]

theorem readsRight_loopEvents :
    Run.Along (MinstretRight defaultIsa 10000) (step defaultIsa 10000)
      (start true 0x1000 loopCode Csrs.reset 100) loopEvents ∧
    Run.Along (McycleRight defaultIsa 10000) (step defaultIsa 10000)
      (start true 0x1000 loopCode Csrs.reset 100) loopEvents := by
  have hright := readsRight_of_writeOk defaultIsa 10000 true 0x1000 loopCode Csrs.reset 100 loopEvents
    (by decide)
  exact ⟨hright.1 (by decide), hright.2 (Run.Along.mono McycleOkUnfenced.mcycleOk (by decide))⟩

end CounterHart

end RiscvVp
