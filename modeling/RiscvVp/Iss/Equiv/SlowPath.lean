import RiscvVp.Iss.ExecSteps
import RiscvVp.DbbCache.Equiv.SlowPath

/-!
# Requests for the slow path

`force_slow_path` asks for the global slow path to run before another instruction is dispatched:
interrupts, `lr_sc_counter`, single steps, breakpoints and tracing all rest on it.  The request is
kept in two places, `iss_slow_path` of the ISS and `slow_path` of the cache, and it is only looked
at when the fast path of the cache is off.

The one thing that can lose it is `fetch_decode`: on a coherent or repaired block it turns the fast
path on, pending request or not.  `Iss.honoured_of_fddOk` says that a run in which no pending request
meets such a fetch honours every request.  `Iss.not_honoured_stepping` is a run that does not:
`run_step()` on code that is in the cache.
-/

namespace RiscvVp.Iss

variable {Op : Type} {isa : Isa Op} {h : Iss Op}

/-! ### What is claimed -/

/-- The fetch that a step makes leaves a pending request alone: it comes from before the fetch or
is made while the fetch waits, and the fetch does not turn the fast path on.  With tracing the slow
path is forced once more after the fetch. -/
def FetchOk (isa : Isa Op) (slow : Bool) (during : Option Irq) : Next Op → Prop
  | .fdd h => (h.issSlowPath = true ∨ (h.duringFetch during).isSome = true) →
      ¬(slow = true ∧ h.trace = true) → ¬h.dbbcache.slowFetchState.TurnsFastOn isa h.mem
  | _ => True

/-- The condition on a step: its fetch, if it makes one, is `FetchOk`. -/
def FddOk (isa : Isa Op) (h : Iss Op) : Event → Prop
  | .fdd needSync during => FetchOk isa h.isSlow during (h.toFetch needSync)
  | .resume during => FetchOk isa h.isSlow during (h.toFetch false)
  | _ => True

/-- The debugger stops before the next instruction. -/
def Stops (h : Iss Op) : Prop :=
  h.debugMode = true ∧
    ((h.debugSingleStep = true ∧ h.debugSingleStepDone = true) ∨ h.driver.pc ∈ h.breakpoints)

/-- The debugger does not stop while a reservation is held.  It would do so after
`--lr_sc_counter`, which is then done once more when the execution goes on. -/
def StopOk (h : Iss Op) : Event → Prop
  | .fdd _ _ => h.issSlowPath = true → h.slowPathHead.status = .runnable →
      h.slowPathHead.lrScCounter ≠ 0 → ¬h.slowPathHead.Stops
  | _ => True

/-- Requests are honoured in a step. -/
structure Honoured (isa : Isa Op) (h : Iss Op) (e : Event) : Prop where
  /-- at most one instruction completes between a request and the slow path -/
  request : ∀ n, (h.step isa e).2.watch.since = some n → n ≤ 1
  /-- an enabled interrupt is not pending for a second instruction -/
  interrupt : (h.step isa e).2.watch.waiting ≤ 1
  /-- `run_step` executes at most one instruction -/
  singleStep : (h.step isa e).2.debugSingleStep = true → (h.step isa e).2.watch.executed ≤ 1
  /-- `run_step` executes one instruction, unless it stops in front of it -/
  stopped : (h.step isa e).1 = .stopped → (h.step isa e).2.debugSingleStep = true →
    (h.step isa e).2.watch.executed = 1 ∨
      ((h.step isa e).2.watch.executed = 0 ∧ (h.step isa e).2.status ≠ .runnable)
  /-- in debug mode no instruction is dispatched from a breakpoint -/
  breakpoint : ∀ pc, (h.step isa e).1 = .dispatched pc → (h.step isa e).2.watch.debugRun = true →
    pc ∉ (h.step isa e).2.breakpoints

/-- An instruction that is dispatched has been charged to `lr_sc_counter`, once. -/
def LrScOnce (isa : Isa Op) (h : Iss Op) (e : Event) : Prop :=
  ∀ pc, (h.step isa e).1 = .dispatched pc →
    (h.step isa e).2.lrScCounter = (h.step isa e).2.watch.lrAtEnd - 1

/-! ### The invariant -/

/-- Whether an enabled interrupt is pending. -/
def irqPending (h : Iss Op) : Bool := (h.csrs.computePendingInterrupts h.prv).isSome

/-- The invariant.  With `lr`, it includes that `lr_sc_counter` has not changed since the last
instruction. -/
structure Inv (lr : Prop) (h : Iss Op) : Prop where
  guarded : h.dbbcache.Guarded
  pending : h.issSlowPath = h.watch.since.isSome
  waiting : h.watch.waiting ≤ h.watch.since.getD 0
  since : h.watch.since.getD 0 ≤ 1
  sinceBusy : h.loc = .slowSync ∨ h.loc = .medSync ∨ h.loc = .operation →
    h.watch.since.getD 0 = 0
  irq : h.loc ≠ .idle → h.irqPending = true → h.issSlowPath = true
  held : h.issSlowPath = true →
    h.loc = .slowSync ∨ h.loc = .medSync ∨ (h.loc = .operation ∧ h.driver.phase = .executing) →
    h.dbbcache.Held
  off : h.issSlowPath = true → h.loc = .operation → h.dbbcache.inFastPath = false
  lrPending : h.loc = .global ∨ h.loc = .operation → h.lrScCounter ≠ 0 → h.issSlowPath = true
  lrZero : h.loc = .slowSync ∨ h.loc = .medSync → h.lrScCounter = 0
  lrEnd : lr → h.loc = .idle ∨ h.loc = .global → h.lrScCounter = h.watch.lrAtEnd
  lrEndZero : lr → h.loc = .slowSync ∨ h.loc = .medSync → h.watch.lrAtEnd = 0
  debug : h.watch.debugRun = true → h.loc ≠ .idle → h.debugMode = true ∧ h.loc ≠ .medSync
  debugPending : h.watch.debugRun = true → h.loc = .global ∨ h.loc = .operation →
    h.issSlowPath = true
  single : h.debugSingleStep = true →
    h.watch.executed = if h.debugSingleStepDone then 1 else 0
  singleRun : h.debugSingleStep = true → h.loc ≠ .idle → h.watch.debugRun = true
  singleDone : h.debugSingleStep = true → h.loc = .operation → h.debugSingleStepDone = true

/-- What holds while an instruction is fetched or executed. -/
structure Busy (h : Iss Op) : Prop where
  guarded : h.dbbcache.Guarded
  pending : h.issSlowPath = h.watch.since.isSome
  since : h.watch.since.getD 0 = 0
  waiting : h.watch.waiting = 0
  irq : h.irqPending = true → h.issSlowPath = true
  debug : h.watch.debugRun = true → h.debugMode = true ∧ h.issSlowPath = true
  single : h.debugSingleStep = true →
    h.watch.executed = 1 ∧ h.debugSingleStepDone = true ∧ h.watch.debugRun = true

variable {lr : Prop}

theorem Inv.busy (hi : h.Inv lr) (hl : h.loc = .operation) : h.Busy where
  guarded := hi.guarded
  pending := hi.pending
  since := hi.sinceBusy (Or.inr (Or.inr hl))
  waiting := by
    have h1 := hi.waiting
    rw [hi.sinceBusy (Or.inr (Or.inr hl))] at h1
    omega
  irq := hi.irq (by rw [hl]; nofun)
  debug := fun hd => ⟨(hi.debug hd (by rw [hl]; nofun)).1, hi.debugPending hd (Or.inr hl)⟩
  single := fun hs => by
    have hdone := hi.singleDone hs hl
    have he := hi.single hs
    rw [hdone] at he
    exact ⟨he, hdone, hi.singleRun hs (by rw [hl]; nofun)⟩

/-! ### Small steps -/

theorem Inv.frame (hi : h.Inv lr) (mem : InstrMem 64) (shallExit : Bool) (status : CoreExecStatus)
    (breakpoints : Finset (BitVec 64)) (trace : Bool) (counters : Counters) :
    { h with mem, shallExit, status, breakpoints, trace, counters }.Inv lr :=
  { hi with }

@[simp] theorem settle_since (h : Iss Op) : h.settle.watch.since = h.watch.since := by
  unfold settle
  dsimp only
  split_ifs <;> rfl

@[simp] theorem settle_executed (h : Iss Op) : h.settle.watch.executed = h.watch.executed := by
  unfold settle
  dsimp only
  split_ifs <;> rfl

@[simp] theorem settle_lrAtEnd (h : Iss Op) : h.settle.watch.lrAtEnd = h.watch.lrAtEnd := by
  unfold settle
  dsimp only
  split_ifs <;> rfl

@[simp] theorem settle_debugRun (h : Iss Op) : h.settle.watch.debugRun = h.watch.debugRun := by
  unfold settle
  dsimp only
  split_ifs <;> rfl

theorem settle_waiting_le (h : Iss Op) : h.settle.watch.waiting ≤ h.watch.waiting := by
  unfold settle
  dsimp only
  split_ifs
  · exact le_rfl
  · exact Nat.zero_le _

theorem settle_waiting_of_quiet (hq : h.irqPending = false) : h.settle.watch.waiting = 0 := by
  unfold settle
  rw [irqPending] at hq
  simp [hq, Watch.quiet]

/-- A request is entered in every place that keeps one, whatever registers have been written before
it. -/
theorem Inv.forceSlowPath (hi : h.Inv lr) (csrs : Csrs) (prv : PrivilegeLevel) :
    ({ h with csrs, prv } : Iss Op).forceSlowPath.Inv lr where
  guarded := hi.guarded.forceSlowPath
  pending := rfl
  waiting := hi.waiting
  since := hi.since
  sinceBusy := hi.sinceBusy
  irq := fun _ _ => rfl
  held := fun _ _ => DBBCache.held_forceSlowPath _
  off := fun _ _ => (DBBCache.held_forceSlowPath _).fast
  lrPending := fun _ _ => rfl
  lrZero := hi.lrZero
  lrEnd := hi.lrEnd
  lrEndZero := hi.lrEndZero
  debug := hi.debug
  debugPending := fun _ _ => rfl
  single := hi.single
  singleRun := hi.singleRun
  singleDone := hi.singleDone

theorem Inv.settle (hi : h.Inv lr) : h.settle.Inv lr where
  guarded := hi.guarded
  pending := by
    rw [settle_since]
    exact hi.pending
  waiting := by
    rw [settle_since]
    exact h.settle_waiting_le.trans hi.waiting
  since := by
    rw [settle_since]
    exact hi.since
  sinceBusy := by
    rw [settle_since]
    exact hi.sinceBusy
  irq := hi.irq
  held := hi.held
  off := hi.off
  lrPending := hi.lrPending
  lrZero := hi.lrZero
  lrEnd := by
    rw [settle_lrAtEnd]
    exact hi.lrEnd
  lrEndZero := by
    rw [settle_lrAtEnd]
    exact hi.lrEndZero
  debug := by
    rw [settle_debugRun]
    exact hi.debug
  debugPending := by
    rw [settle_debugRun]
    exact hi.debugPending
  single := by
    rw [settle_executed]
    exact hi.single
  singleRun := by
    rw [settle_debugRun]
    exact hi.singleRun
  singleDone := hi.singleDone

/-- An operation that only touches `lr_sc_counter`, and forces the slow path if it sets it. -/
theorem Inv.setLrScCounter (hi : h.Inv lr) (hl : h.loc = .operation) (n : ℕ)
    (hn : n ≠ 0 → h.issSlowPath = true) : { h with lrScCounter := n }.Inv lr :=
  { hi with
    lrPending := fun _ h0 => hn h0
    lrZero := by
      change h.loc = .slowSync ∨ h.loc = .medSync → n = 0
      rw [hl]
      rintro (h0 | h0) <;> cases h0
    lrEnd := by
      intro _
      change h.loc = .idle ∨ h.loc = .global → n = h.watch.lrAtEnd
      rw [hl]
      rintro (h0 | h0) <;> cases h0 }

theorem Inv.loadReserved (hi : h.Inv lr) (hl : h.loc = .operation) : h.loadReserved.Inv lr := by
  unfold Iss.loadReserved
  split_ifs with h0
  · exact (hi.forceSlowPath h.csrs h.prv).setLrScCounter hl 17 fun _ => rfl
  · exact hi

theorem Inv.enableDebug (hi : h.Inv lr) : { h with debugMode := true }.forceSlowPath.Inv lr := by
  have hd : { h with debugMode := true }.Inv lr :=
    { hi with debug := fun h1 h2 => ⟨rfl, (hi.debug h1 h2).2⟩ }
  exact hd.forceSlowPath h.csrs h.prv

theorem Inv.clear (hi : h.Inv lr) (q : BitVec 64) :
    { h with csrs := { h.csrs with mip := h.csrs.mip &&& q } }.settle.Inv lr := by
  have hc : { h with csrs := { h.csrs with mip := h.csrs.mip &&& q } }.Inv lr :=
    { hi with irq := fun h1 h2 => hi.irq h1 (Csrs.computePendingInterrupts_clear h2) }
  exact hc.settle

/-- Calls on the cache that keep a request in it. -/
theorem Inv.setCache (hi : h.Inv lr) {c : DBBCache 64 Op} (hg : c.Guarded)
    (hh : h.dbbcache.Held → c.Held)
    (hoff : h.dbbcache.inFastPath = false → c.inFastPath = false) : (h.setCache c).Inv lr :=
  { hi with
    guarded := hg
    held := fun h1 h2 => hh (hi.held h1 h2)
    off := fun h1 h2 => hoff (hi.off h1 h2) }

/-! ### The end of an instruction -/

namespace Busy

theorem since_eq (hb : h.Busy) : h.watch.since = if h.issSlowPath then some 0 else none := by
  rw [hb.pending]
  cases hs : h.watch.since with
  | none => rfl
  | some n =>
    have h0 := hb.since
    rw [hs, Option.getD_some] at h0
    simp [h0]

/-- What is watched when an instruction completes that has enabled no interrupt. -/
theorem complete (hb : h.Busy) {h' : Iss Op} {n : ℕ} (hw : h'.watch = h.watch.complete n)
    (hq : h'.irqPending = true → h.irqPending = true) :
    h'.settle.watch.since = (if h.issSlowPath then some 1 else none) ∧
      h'.settle.watch.waiting ≤ h'.settle.watch.since.getD 0 := by
  have hsince : h'.settle.watch.since = if h.issSlowPath then some 1 else none := by
    rw [settle_since, hw, Watch.complete, hb.since_eq]
    cases h.issSlowPath <;> rfl
  refine ⟨hsince, ?_⟩
  rw [hsince]
  cases hp : h.issSlowPath with
  | true =>
    refine h'.settle_waiting_le.trans ?_
    rw [hw, Watch.complete, hb.waiting]
    exact le_rfl
  | false =>
    have hquiet : h'.irqPending = false := by
      rw [Bool.eq_false_iff]
      intro h1
      rw [hb.irq (hq h1)] at hp
      cases hp
    rw [settle_waiting_of_quiet hquiet]
    exact Nat.zero_le _

/-- A trap is caught: the handler is entered on the slow path, with the request for it pending. -/
theorem caught (hb : h.Busy) (t : SimulationTrap) : (h.caught t).Inv lr := by
  unfold Iss.caught
  dsimp only
  split_ifs with habort
  · -- the trap would be taken in user mode: the program aborts
    exact
      { guarded := hb.guarded
        pending := hb.pending
        waiting := by
          show h.watch.waiting ≤ h.watch.since.getD 0
          rw [hb.waiting]
          exact Nat.zero_le _
        since := by
          show h.watch.since.getD 0 ≤ 1
          rw [hb.since]
          exact Nat.zero_le _
        sinceBusy := fun _ => hb.since
        irq := fun _ => hb.irq
        held := by rintro _ (h0 | h0 | h0) <;> simp at h0
        off := nofun
        lrPending := by rintro (h0 | h0) <;> cases h0
        lrZero := by rintro (h0 | h0) <;> cases h0
        lrEnd := by rintro _ (h0 | h0) <;> cases h0
        lrEndZero := by rintro _ (h0 | h0) <;> cases h0
        debug := fun hd _ => ⟨(hb.debug hd).1, nofun⟩
        debugPending := by rintro _ (h0 | h0) <;> cases h0
        single := fun hs => by
          show h.watch.executed = if h.debugSingleStepDone then 1 else 0
          rw [(hb.single hs).2.1]
          exact (hb.single hs).1
        singleRun := fun hs _ => (hb.single hs).2.2
        singleDone := nofun }
  · set r := h.csrs.handleTrap h.prv t h.dbbcache.getLastPcExceptionSafe with hr
    have huser : r.1 = .user → h.prv = .user := by
      intro h1
      by_contra h2
      exact habort ⟨h1, h2⟩
    set h' : Iss Op := { ({ h with counters :=
        { h.counters with ninstr := h.counters.ninstr + 1 } }.enterHandler r) with
      driver := { ({ h with counters :=
        { h.counters with ninstr := h.counters.ninstr + 1 } }.enterHandler r).driver with
          phase := .between }
      loc := .global
      watch := h.watch.complete 0 } with hh'
    -- entering the handler makes no interrupt pending
    have hq : h'.irqPending = true → h.irqPending = true :=
      Csrs.computePendingInterrupts_handleTrap huser
    obtain ⟨hsince, hwait⟩ := @Busy.complete _ _ hb h' 0 rfl hq
    have hdebug : h'.settle.watch.debugRun = h.watch.debugRun := settle_debugRun h'
    have hexec : h'.settle.watch.executed = h.watch.executed := settle_executed h'
    have hpend : h'.settle.issSlowPath = h.issSlowPath := rfl
    change h'.settle.Inv lr
    exact
      { guarded := hb.guarded.enterTrap r.2.2
        pending := by
          rw [hpend, hsince]
          cases h.issSlowPath <;> rfl
        waiting := hwait
        since := by
          rw [hsince]
          cases h.issSlowPath <;> decide
        sinceBusy := by rintro (h0 | h0 | h0) <;> cases h0
        irq := fun _ h1 => hb.irq (hq h1)
        held := by
          rintro _ (h0 | h0 | ⟨h0, _⟩) <;> cases h0
        off := nofun
        lrPending := fun _ h0 => absurd rfl h0
        lrZero := by rintro (h0 | h0) <;> cases h0
        lrEnd := fun _ _ => (settle_lrAtEnd h').symm
        lrEndZero := by rintro _ (h0 | h0) <;> cases h0
        debug := by
          rw [hdebug]
          exact fun hd _ => ⟨(hb.debug hd).1, nofun⟩
        debugPending := by
          rw [hdebug]
          exact fun hd _ => (hb.debug hd).2
        single := fun hs => by
          rw [hexec]
          show h.watch.executed = if h.debugSingleStepDone then 1 else 0
          rw [(hb.single hs).2.1]
          exact (hb.single hs).1
        singleRun := by
          rw [hdebug]
          exact fun hs _ => (hb.single hs).2.2
        singleDone := nofun }

end Busy

/-! ### What a step must leave -/

/-- The invariant after a step, and what is claimed of what happens in it. -/
structure Sound (lr : Prop) (r : Out × Iss Op) : Prop where
  inv : r.2.Inv lr
  stopped : r.1 = .stopped → r.2.debugSingleStep = true →
    r.2.watch.executed = 1 ∨ (r.2.watch.executed = 0 ∧ r.2.status ≠ .runnable)
  breakpoint : ∀ pc, r.1 = .dispatched pc → r.2.watch.debugRun = true → pc ∉ r.2.breakpoints
  lrOnce : lr → ∀ pc, r.1 = .dispatched pc → r.2.lrScCounter = r.2.watch.lrAtEnd - 1

theorem Inv.sound (hi : h.Inv lr) : Sound lr (.none, h) := ⟨hi, nofun, nofun, nofun⟩

/-- `OP_END` while no request is pending: no reservation is held and no debugger is there. -/
theorem Inv.idle_of_not_pending (hi : h.Inv lr) (hl : h.loc = .operation)
    (hp : h.issSlowPath = false) :
    h.lrScCounter = 0 ∧ h.watch.debugRun = false ∧ h.debugSingleStep = false ∧
      h.irqPending = false := by
  have hdebug : h.watch.debugRun = false := by
    rw [Bool.eq_false_iff]
    intro hd
    rw [hi.debugPending hd (Or.inr hl)] at hp
    cases hp
  refine ⟨?_, hdebug, ?_, ?_⟩
  · by_contra h0
    rw [hi.lrPending (Or.inr hl) h0] at hp
    cases hp
  · rw [Bool.eq_false_iff]
    intro hs
    rw [hi.singleRun hs (by rw [hl]; nofun)] at hdebug
    cases hdebug
  · rw [Bool.eq_false_iff]
    intro hq
    rw [hi.irq (by rw [hl]; nofun) hq] at hp
    cases hp

/-- An instruction completes, and the loop goes on at `OP_GLOBAL_FDD`. -/
theorem Inv.completed (hi : h.Inv lr) (hl : h.loc = .operation) (counters : Counters) :
    ({ ({ h with counters, watch := h.watch.complete h.lrScCounter } : Iss Op).settle with
      loc := .global }).Inv lr := by
  have hb := hi.busy hl
  set h' : Iss Op := { h with counters, watch := h.watch.complete h.lrScCounter } with hh'
  obtain ⟨hsince, hwait⟩ := @Busy.complete _ _ hb h' _ rfl id
  have hdebug : h'.settle.watch.debugRun = h.watch.debugRun := settle_debugRun h'
  exact
    { guarded := hb.guarded
      pending := by
        show h.issSlowPath = h'.settle.watch.since.isSome
        rw [hsince]
        cases h.issSlowPath <;> rfl
      waiting := hwait
      since := by
        show h'.settle.watch.since.getD 0 ≤ 1
        rw [hsince]
        cases h.issSlowPath <;> decide
      sinceBusy := by rintro (h0 | h0 | h0) <;> cases h0
      irq := fun _ h1 => hb.irq h1
      held := by rintro _ (h0 | h0 | ⟨h0, _⟩) <;> cases h0
      off := nofun
      lrPending := fun _ => hi.lrPending (Or.inr hl)
      lrZero := by rintro (h0 | h0) <;> cases h0
      lrEnd := fun _ _ => (settle_lrAtEnd h').symm
      lrEndZero := by rintro _ (h0 | h0) <;> cases h0
      debug := by
        intro hd _
        exact ⟨(hb.debug (hdebug ▸ hd)).1, nofun⟩
      debugPending := fun hd _ => (hb.debug (hdebug ▸ hd)).2
      single := fun hs => (settle_executed h').trans (hi.single hs)
      singleRun := fun hs _ => hdebug.trans (hi.singleRun hs (by rw [hl]; nofun))
      singleDone := nofun }

/-- `OP_FAST_FINALIZE_AND_FDD`.  While a request is pending the fast path is off, so that the fetch
is aborted. -/
theorem Inv.fastFinalizeAndFdd (hi : h.Inv lr) (hl : h.loc = .operation) :
    Sound lr h.fastFinalizeAndFdd := by
  have hc := hi.completed hl { h.counters with ninstr := h.counters.ninstr + 1 }
  unfold Iss.fastFinalizeAndFdd
  dsimp only
  set h' : Iss Op := { h with
    counters := { h.counters with ninstr := h.counters.ninstr + 1 }
    watch := h.watch.complete h.lrScCounter } with hh'
  split
  · next id instr cache hf =>
    have hf' : h.dbbcache.fetchDecodeFast = (.op id, instr, cache) := hf
    -- a fetch that succeeds on the fast path shows that nothing was requested
    have hp : h.issSlowPath = false := by
      rw [Bool.eq_false_iff]
      intro hp
      have habort := hi.guarded.fetchDecodeFast_of_slow (hi.off hp hl)
      rw [hf'] at habort
      cases habort
    have hg := hi.guarded.fetchDecodeFast
    rw [hf'] at hg
    obtain ⟨hlr, hdebug, hsingle, hirq⟩ := hi.idle_of_not_pending hl hp
    have hdebug' : h'.settle.watch.debugRun = false := (settle_debugRun h').trans hdebug
    obtain ⟨hsince, _⟩ := @Busy.complete _ _ (hi.busy hl) h' _ rfl fun hq => hq
    rw [hp] at hsince
    have hzero : ∀ {P : Prop}, h.lrScCounter ≠ 0 → P := fun h0 => absurd hlr h0
    refine ⟨?_, nofun, fun pc _ hd => absurd (hdebug'.symm.trans hd) nofun, fun _ pc _ => ?_⟩
    · exact
        { guarded := hg
          pending := by
            show h.issSlowPath = h'.settle.watch.since.isSome
            rw [hsince, hp]
            rfl
          waiting := hc.waiting
          since := hc.since
          sinceBusy := fun _ => by
            show h'.settle.watch.since.getD 0 = 0
            rw [hsince]
            rfl
          irq := fun _ h1 => absurd (hirq.symm.trans h1) nofun
          held := fun h1 => absurd (hp.symm.trans h1) nofun
          off := fun h1 => absurd (hp.symm.trans h1) nofun
          lrPending := fun _ h0 => hzero h0
          lrZero := fun _ => hlr
          lrEnd := by
            rintro _ (h0 | h0) <;> exact absurd (hl.symm.trans h0) nofun
          lrEndZero := by
            rintro _ (h0 | h0) <;> exact absurd (hl.symm.trans h0) nofun
          debug := fun hd => absurd (hdebug'.symm.trans hd) nofun
          debugPending := fun hd => absurd (hdebug'.symm.trans hd) nofun
          single := fun hs => absurd (hsingle.symm.trans hs) nofun
          singleRun := fun hs => absurd (hsingle.symm.trans hs) nofun
          singleDone := fun hs => absurd (hsingle.symm.trans hs) nofun }
    · show h.lrScCounter = h'.settle.watch.lrAtEnd - 1
      rw [settle_lrAtEnd]
      show h.lrScCounter = h.lrScCounter - 1
      rw [hlr]
  · next instr cache hf =>
    -- an aborted fetch leaves the cache as it was, and the hart goes on in the global loop
    have hcache : cache.abortFetchDecodeFast = h.dbbcache := by
      have hab := h.dbbcache.abortFetchDecodeFast_fetchDecodeFast
      rw [show h.dbbcache.fetchDecodeFast = (.fastAbort, instr, cache) from hf] at hab
      exact hab
    rw [hcache]
    exact Inv.sound hc

/-! ### The fetch -/

/-- What holds when `fetch_decode` is called. -/
structure AtFetch (lr : Prop) (h : Iss Op) : Prop where
  guarded : h.dbbcache.Guarded
  pending : h.issSlowPath = h.watch.since.isSome
  since : h.watch.since.getD 0 = 0
  waiting : h.watch.waiting = 0
  irq : h.irqPending = true → h.issSlowPath = true
  held : h.issSlowPath = true → h.dbbcache.Held
  lrPending : h.lrScCounter ≠ 0 → h.issSlowPath = true
  lrEnd : lr → h.lrScCounter = h.watch.lrAtEnd - 1
  debug : h.watch.debugRun = true → h.debugMode = true ∧ h.issSlowPath = true ∧
    h.driver.pc ∉ h.breakpoints
  single : h.debugSingleStep = true →
    h.watch.executed = 0 ∧ h.debugSingleStepDone = true ∧ h.watch.debugRun = true

/-- `fetch_decode` that does not deliver an entry of the fast path is its slow path. -/
theorem fetchDecode_eq_slow {s : DBBCache 64 Op} (mem : InstrMem 64) (pc : BitVec 64)
    (hs : s.fetchIsFast = false) :
    s.fetchDecode isa mem pc = s.slowFetchState.fetchDecodeSlow isa mem pc := by
  unfold DBBCache.fetchDecode DBBCache.slowFetchState
  cases hf : s.inFastPath with
  | false => simp only [Bool.false_eq_true, ↓reduceIte]
  | true =>
    have hterm : (s.deref s.fastEntry.next).isTerminal = true := by
      simpa [DBBCache.fetchIsFast, hf] using hs
    have hderef : { s with fastEntry := s.fastEntry.next }.deref s.fastEntry.next =
        s.deref s.fastEntry.next := DBBCache.deref_congr rfl rfl rfl _
    simp only [↓reduceIte, hderef, hterm, Bool.not_true, Bool.false_eq_true]
    rfl

theorem guarded_slowFetchState {s : DBBCache 64 Op} (hg : s.Guarded) : s.slowFetchState.Guarded := by
  unfold DBBCache.slowFetchState
  split_ifs
  · exact hg.congr rfl hg.dummy rfl hg.trap hg.cur
  · exact hg

theorem inFastPath_slowFetchState (s : DBBCache 64 Op) : s.slowFetchState.inFastPath = false := by
  unfold DBBCache.slowFetchState
  split_ifs with hf
  · simp [DBBCache.inFastPath, DBBCache.fastPathRawDisable]
  · exact Bool.eq_false_iff.mpr hf

/-- The cache after a fetch is guarded again, whether the fetch hit, missed or repaired a block. -/
theorem guarded_fetchDecode {s : DBBCache 64 Op} (hg : s.Guarded) (mem : InstrMem 64)
    (pc : BitVec 64) : (s.fetchDecode isa mem pc).2.Guarded := by
  cases hs : s.fetchIsFast with
  | false =>
    rw [fetchDecode_eq_slow mem pc hs]
    exact (guarded_slowFetchState hg).kept_fetchDecodeSlow.guarded
  | true =>
    rw [DBBCache.fetchIsFast, Bool.and_eq_true] at hs
    have hderef : { s with fastEntry := s.fastEntry.next }.deref s.fastEntry.next =
        s.deref s.fastEntry.next := DBBCache.deref_congr rfl rfl rfl _
    unfold DBBCache.fetchDecode
    simp only [hs.1, ↓reduceIte, hderef, hs.2]
    exact hg.congr rfl hg.dummy rfl hg.trap hg.cur

/-- A fetch that reads, and does not turn the fast path on, leaves it off. -/
theorem inFastPath_fetchDecode {s : DBBCache 64 Op} (hg : s.Guarded) (mem : InstrMem 64)
    (pc : BitVec 64) (hs : s.fetchIsFast = false)
    (hno : ¬s.slowFetchState.TurnsFastOn isa mem) :
    (s.fetchDecode isa mem pc).2.inFastPath = false := by
  have hk := @DBBCache.Guarded.kept_fetchDecodeSlow _ _ _ isa mem pc (guarded_slowFetchState hg)
  rw [fetchDecode_eq_slow mem pc hs, DBBCache.inFastPath_eq_false_iff, hk.fastEntry hno,
    ← DBBCache.inFastPath_eq_false_iff]
  exact inFastPath_slowFetchState s

theorem slowFetchState_of_slow {s : DBBCache 64 Op} (hf : s.inFastPath = false) :
    s.slowFetchState = s := by
  rw [DBBCache.slowFetchState, if_neg (Bool.eq_false_iff.mp hf)]

theorem Busy.inv (hb : h.Busy) (hl : h.loc = .operation)
    (hh : h.issSlowPath = true → h.dbbcache.Held)
    (hlr : h.lrScCounter ≠ 0 → h.issSlowPath = true) : h.Inv lr where
  guarded := hb.guarded
  pending := hb.pending
  waiting := by
    rw [hb.waiting]
    exact Nat.zero_le _
  since := by
    rw [hb.since]
    exact Nat.zero_le _
  sinceBusy := fun _ => hb.since
  irq := fun _ => hb.irq
  held := fun h1 _ => hh h1
  off := fun h1 _ => (hh h1).fast
  lrPending := fun _ => hlr
  lrZero := by rintro (h0 | h0) <;> exact absurd (hl.symm.trans h0) nofun
  lrEnd := by rintro _ (h0 | h0) <;> exact absurd (hl.symm.trans h0) nofun
  lrEndZero := by rintro _ (h0 | h0) <;> exact absurd (hl.symm.trans h0) nofun
  debug := fun hd _ => ⟨(hb.debug hd).1, by rw [hl]; nofun⟩
  debugPending := fun hd _ => (hb.debug hd).2
  single := fun hs => by
    rw [(hb.single hs).2.1]
    exact (hb.single hs).1
  singleRun := fun hs _ => (hb.single hs).2.2
  singleDone := fun hs _ => (hb.single hs).2.1

theorem Busy.forceSlowPath (hb : h.Busy) : h.forceSlowPath.Busy where
  guarded := hb.guarded.forceSlowPath
  pending := rfl
  since := hb.since
  waiting := hb.waiting
  irq := fun _ => rfl
  debug := fun hd => ⟨(hb.debug hd).1, rfl⟩
  single := hb.single

/-- Fetched, with what was raised meanwhile, and entered as dispatched. -/
def fetched (h : Iss Op) (cache : DBBCache 64 Op) (during : Option Irq) : Iss Op :=
  { (h.setCache cache).raiseDuring during with
    watch := ((h.setCache cache).raiseDuring during).watch.dispatch }

theorem fetched_fields (h : Iss Op) (cache : DBBCache 64 Op) (during : Option Irq) :
    (h.fetched cache during).lrScCounter = h.lrScCounter ∧
    (h.fetched cache during).watch.lrAtEnd = h.watch.lrAtEnd ∧
    (h.fetched cache during).watch.debugRun = h.watch.debugRun ∧
    (h.fetched cache during).breakpoints = h.breakpoints ∧
    (h.fetched cache during).issSlowPath = (h.issSlowPath || during.isSome) ∧
    (h.fetched cache during).trace = h.trace := by
  cases during <;> simp [fetched, raiseDuring, setCache, Watch.dispatch, Watch.request]

theorem AtFetch.busy (ha : h.AtFetch lr) {cache : DBBCache 64 Op} (hg : cache.Guarded)
    (during : Option Irq) : (h.fetched cache during).Busy where
  guarded := by
    cases during with
    | none => exact hg
    | some irq => exact hg.congr rfl hg.dummy rfl hg.trap hg.cur
  pending := by
    cases during with
    | none => exact ha.pending
    | some irq => rfl
  since := by
    cases during with
    | none => exact ha.since
    | some irq => exact ha.since
  waiting := by
    cases during with
    | none => exact ha.waiting
    | some irq => exact ha.waiting
  irq := by
    cases during with
    | none => exact ha.irq
    | some irq => exact fun _ => rfl
  debug := by
    obtain ⟨_, _, hd, _, hp, _⟩ := h.fetched_fields cache during
    rw [hd, hp]
    intro h1
    obtain ⟨h2, h3, _⟩ := ha.debug h1
    refine ⟨?_, by rw [h3, Bool.true_or]⟩
    cases during <;> exact h2
  single := by
    have hexec : (h.fetched cache during).watch.executed = h.watch.executed + 1 := by
      cases during <;> rfl
    have hdone : (h.fetched cache during).debugSingleStepDone = h.debugSingleStepDone := by
      cases during <;> rfl
    have hstep : (h.fetched cache during).debugSingleStep = h.debugSingleStep := by
      cases during <;> rfl
    obtain ⟨_, _, hd, _, _, _⟩ := h.fetched_fields cache during
    rw [hexec, hdone, hstep, hd]
    intro hs
    obtain ⟨h1, h2, h3⟩ := ha.single hs
    exact ⟨by rw [h1], h2, h3⟩

/-- The cache holds the request after a fetch that leaves it alone. -/
theorem AtFetch.held_fetched (ha : h.AtFetch lr) {during : Option Irq}
    (hp : h.issSlowPath = true ∨ (h.duringFetch during).isSome = true)
    (hno : ¬h.dbbcache.slowFetchState.TurnsFastOn isa h.mem) (pc : BitVec 64) :
    (h.fetched (h.dbbcache.fetchDecode isa h.mem pc).2 (h.duringFetch during)).dbbcache.Held := by
  have hheld : h.issSlowPath = true → (h.dbbcache.fetchDecode isa h.mem pc).2.Held := by
    intro h1
    have hh := ha.held h1
    rw [slowFetchState_of_slow hh.fast] at hno
    exact hh.fetchDecode ha.guarded hno
  cases hd : h.duringFetch during with
  | none =>
    rw [hd] at hp
    exact hheld (hp.resolve_right nofun)
  | some irq =>
    refine ⟨rfl, ?_⟩
    show (h.dbbcache.fetchDecode isa h.mem pc).2.inFastPath = false
    have hreads : h.dbbcache.fetchReads = true := by
      by_contra hr
      rw [duringFetch, if_neg hr] at hd
      cases hd
    rw [DBBCache.fetchReads, Bool.and_eq_true, Bool.not_eq_true'] at hreads
    exact inFastPath_fetchDecode ha.guarded h.mem pc hreads.1 hno

theorem caught_fields (h : Iss Op) (t : SimulationTrap) :
    (h.caught t).watch.debugRun = h.watch.debugRun ∧ (h.caught t).breakpoints = h.breakpoints ∧
      ((h.caught t).lrScCounter = h.lrScCounter ∧ (h.caught t).watch.lrAtEnd = h.watch.lrAtEnd ∨
        (h.caught t).lrScCounter = 0 ∧ (h.caught t).watch.lrAtEnd = 0) := by
  unfold Iss.caught
  dsimp only
  split_ifs
  · exact ⟨rfl, rfl, Or.inl ⟨rfl, rfl⟩⟩
  · exact ⟨settle_debugRun _, rfl, Or.inr ⟨rfl, settle_lrAtEnd _⟩⟩

/-- `GOTO_OP_SLOW_FDD` and `GOTO_OP_MED_FDD`: the fetch itself, with an interrupt that may come during it. -/
theorem AtFetch.fdd (ha : h.AtFetch lr) {slow : Bool} {during : Option Irq}
    (hok : FetchOk isa slow during (.fdd h)) : Sound lr (h.fdd isa slow during) := by
  have hg := @guarded_fetchDecode _ isa _ ha.guarded h.mem h.driver.pc
  have hheld := fun hp hno => @AtFetch.held_fetched _ isa _ _ ha during hp hno h.driver.pc
  unfold Iss.fdd
  dsimp only
  split
  · next r cache hf =>
    rw [hf] at hg
    simp only [hf] at hheld
    obtain ⟨hlr, hend, hdebug, hbp, hpend, htrace⟩ := h.fetched_fields cache (h.duringFetch during)
    have hb := ha.busy hg (h.duringFetch during)
    set h1 : Iss Op := { h.fetched cache (h.duringFetch during) with
      driver := { (h.fetched cache (h.duringFetch during)).driver with
        pc := r.pc, label := r.label, instr := r.instr, phase := .executing }
      loc := .operation } with hh1
    have hb1 : h1.Busy := { hb with }
    -- a reservation that is counted keeps the slow path requested
    have hlr1 : h1.lrScCounter ≠ 0 → h1.issSlowPath = true := by
      intro h0
      show (h.fetched cache (h.duringFetch during)).issSlowPath = true
      rw [hpend, ha.lrPending (hlr ▸ h0), Bool.true_or]
    have hbreak : ∀ pc, Out.dispatched h.driver.pc = .dispatched pc → h1.watch.debugRun = true →
        pc ∉ h1.breakpoints := by
      rintro pc hpc hd
      cases hpc
      show h.driver.pc ∉ (h.fetched cache (h.duringFetch during)).breakpoints
      rw [hbp]
      exact (ha.debug (hdebug ▸ hd)).2.2
    -- the counter goes down once for each operation that is dispatched
    have honce : lr → ∀ pc, Out.dispatched h.driver.pc = .dispatched pc →
        h1.lrScCounter = h1.watch.lrAtEnd - 1 := by
      intro hl _ _
      show (h.fetched cache (h.duringFetch during)).lrScCounter =
        (h.fetched cache (h.duringFetch during)).watch.lrAtEnd - 1
      rw [hlr, hend]
      exact ha.lrEnd hl
    change Sound lr (.dispatched h.driver.pc,
      if (slow && (h.fetched cache (h.duringFetch during)).trace) = true then h1.forceSlowPath else h1)
    -- with tracing, the slow path is requested again for the next operation
    split_ifs with ht
    · exact ⟨hb1.forceSlowPath.inv rfl (fun _ => DBBCache.held_forceSlowPath _) fun _ => rfl, nofun,
        hbreak, honce⟩
    · refine ⟨hb1.inv rfl ?_ hlr1, nofun, hbreak, honce⟩
      intro hp
      have hp' : h.issSlowPath = true ∨ (h.duringFetch during).isSome = true := by
        rw [← Bool.or_eq_true, ← hpend]
        exact hp
      rw [htrace, Bool.and_eq_true] at ht
      exact hheld hp' (hok hp' ht)
  · next t cache hf =>
    rw [hf] at hg
    obtain ⟨hlr, hend, hdebug, hbp, _, _⟩ := h.fetched_fields cache (h.duringFetch during)
    have hb := ha.busy hg (h.duringFetch during)
    -- the fetch faulted
    obtain ⟨hd, hbr, hcase⟩ := (h.fetched cache (h.duringFetch during)).caught_fields t
    refine ⟨hb.caught t, nofun, ?_, ?_⟩
    · rintro pc hpc h1
      cases hpc
      show h.driver.pc ∉ ((h.fetched cache (h.duringFetch during)).caught t).breakpoints
      rw [hbr, hbp]
      exact (ha.debug (hdebug ▸ hd ▸ h1)).2.2
    · intro hl _ _
      show ((h.fetched cache (h.duringFetch during)).caught t).lrScCounter =
        ((h.fetched cache (h.duringFetch during)).caught t).watch.lrAtEnd - 1
      rcases hcase with ⟨h1, h2⟩ | ⟨h1, h2⟩
      · rw [h1, h2, hlr, hend]
        exact ha.lrEnd hl
      · rw [h1, h2]

/-! ### The global slow path -/

/-- What holds in the slow path when the debugger is asked. -/
structure AtDebug (lr : Prop) (h : Iss Op) : Prop where
  guarded : h.dbbcache.Guarded
  pending : h.issSlowPath = h.watch.since.isSome
  since : h.watch.since.getD 0 = 0
  waiting : h.watch.waiting = 0
  irq : h.irqPending = true → h.issSlowPath = true
  held : h.issSlowPath = true → h.dbbcache.Held
  lrPending : h.lrScCounter ≠ 0 → h.issSlowPath = true
  lrEnd : lr → h.lrScCounter = h.watch.lrAtEnd - 1
  stop : lr → h.Stops → h.lrScCounter = h.watch.lrAtEnd
  debug : h.watch.debugRun = true → h.debugMode = true
  single : h.debugSingleStep = true →
    h.watch.executed = (if h.debugSingleStepDone then 1 else 0) ∧ h.watch.debugRun = true

/-- A path to the fetch ends well. -/
def NextOk (lr : Prop) : Next Op → Prop
  | .fdd h => h.AtFetch lr
  | .sync h => h.Inv lr
  | .leave h => Sound lr (.stopped, h.leave)

/-- `exec_steps` returns: nothing is pending any more, and a single step has executed one instruction. -/
theorem sound_leave (hg : h.dbbcache.Guarded) (hp : h.issSlowPath = h.watch.since.isSome)
    (h0 : h.watch.since.getD 0 = 0) (hw : h.watch.waiting = 0)
    (hlr : lr → h.lrScCounter = h.watch.lrAtEnd)
    (hs : h.debugSingleStep = true →
      h.watch.executed = if h.debugSingleStepDone then 1 else 0)
    (hstop : h.debugSingleStep = true → h.debugSingleStepDone = true ∨ h.status ≠ .runnable) :
    Sound lr (.stopped, h.leave) := by
  refine ⟨?_, fun _ h1 => ?_, nofun, nofun⟩
  · exact
      { guarded := hg
        pending := hp
        waiting := by
          show h.watch.waiting ≤ _
          rw [hw]
          exact Nat.zero_le _
        since := by
          show h.watch.since.getD 0 ≤ 1
          rw [h0]
          exact Nat.zero_le _
        sinceBusy := by rintro (h1 | h1 | h1) <;> cases h1
        irq := fun h1 => absurd rfl h1
        held := by rintro _ (h1 | h1 | ⟨h1, _⟩) <;> cases h1
        off := nofun
        lrPending := by rintro (h1 | h1) <;> cases h1
        lrZero := by rintro (h1 | h1) <;> cases h1
        lrEnd := fun h1 _ => hlr h1
        lrEndZero := by rintro _ (h1 | h1) <;> cases h1
        debug := fun _ h1 => absurd rfl h1
        debugPending := by rintro _ (h1 | h1) <;> cases h1
        single := hs
        singleRun := fun _ h1 => absurd rfl h1
        singleDone := nofun }
  · have hexec := hs h1
    rcases hstop h1 with hd | hd
    · rw [hd] at hexec
      exact Or.inl hexec
    · cases hdone : h.debugSingleStepDone with
      | true =>
        rw [hdone] at hexec
        exact Or.inl hexec
      | false =>
        rw [hdone] at hexec
        exact Or.inr ⟨hexec, hd⟩

theorem AtDebug.slowPathDebug (ha : h.AtDebug lr) : NextOk lr h.slowPathDebug := by
  unfold Iss.slowPathDebug
  dsimp only
  split_ifs with hd hs hb
  · rw [Bool.and_eq_true] at hs
    exact sound_leave ha.guarded.forceSlowPath rfl ha.since ha.waiting
      (fun hl => ha.stop hl ⟨hd, Or.inl hs⟩) (fun h1 => (ha.single h1).1) fun _ => Or.inl hs.2
  · exact sound_leave ha.guarded.forceSlowPath.forceSlowPath rfl ha.since ha.waiting
      (fun hl => ha.stop hl ⟨hd, Or.inr hb⟩) (fun h1 => (ha.single h1).1) fun _ => Or.inr nofun
  · exact
      { guarded := ha.guarded.forceSlowPath
        pending := rfl
        since := ha.since
        waiting := ha.waiting
        irq := fun _ => rfl
        held := fun _ => DBBCache.held_forceSlowPath _
        lrPending := fun _ => rfl
        lrEnd := ha.lrEnd
        debug := fun h1 => ⟨ha.debug h1, rfl, hb⟩
        single := fun h1 => by
          obtain ⟨hexec, hrun⟩ := ha.single h1
          have hdone : h.debugSingleStepDone = false := by
            rw [Bool.eq_false_iff]
            exact fun h2 => hs (Bool.and_eq_true _ _ ▸ ⟨h1, h2⟩)
          rw [hdone] at hexec
          exact ⟨hexec, rfl, hrun⟩ }
  · exact
      { ha with
        debug := fun h1 => absurd (ha.debug h1) hd
        single := fun h1 => absurd (ha.debug (ha.single h1).2) hd }

/-- What holds when the slow path has served the request and handled interrupts. -/
structure Served (lr : Prop) (h : Iss Op) : Prop where
  guarded : h.dbbcache.Guarded
  pending : h.issSlowPath = false
  since : h.watch.since = none
  waiting : h.watch.waiting = 0
  irq : h.irqPending = false
  lrEnd : lr → h.lrScCounter = h.watch.lrAtEnd
  debug : h.watch.debugRun = true → h.debugMode = true
  single : h.debugSingleStep = true →
    h.watch.executed = (if h.debugSingleStepDone then 1 else 0) ∧ h.watch.debugRun = true

theorem Inv.served (hi : h.Inv lr) (hl : h.loc = .global) : h.slowPathServe.Served lr := by
  have hidle : h.loc ≠ .idle := by
    rw [hl]
    nofun
  unfold Iss.slowPathServe Iss.handleInterrupt
  dsimp only
  split
  · next hn =>
    -- no interrupt is enabled and pending
    have hquiet : h.irqPending = false := by
      rw [irqPending, show h.csrs.computePendingInterrupts h.prv = none from
        Csrs.handleInterrupt_eq_none hn]
      rfl
    exact
      { guarded := hi.guarded
        pending := rfl
        since := settle_since _
        waiting := settle_waiting_of_quiet hquiet
        irq := hquiet
        lrEnd := by
          rw [settle_lrAtEnd]
          exact fun h1 => hi.lrEnd h1 (Or.inr hl)
        debug := by
          rw [settle_debugRun]
          exact fun h1 => (hi.debug h1 hidle).1
        single := by
          rw [settle_executed, settle_debugRun]
          exact fun h1 => ⟨hi.single h1, hi.singleRun h1 hidle⟩ }
  · next r hr =>
    -- the trap is entered with interrupts off, so none is pending after it
    have hquiet := Csrs.computePendingInterrupts_handleInterrupt hr
    exact
      { guarded := hi.guarded.enterTrap r.2.2
        pending := rfl
        since := settle_since _
        waiting := settle_waiting_of_quiet hquiet
        irq := hquiet
        lrEnd := by
          rw [settle_lrAtEnd]
          exact fun _ => rfl
        debug := by
          rw [settle_debugRun]
          exact fun h1 => (hi.debug h1 hidle).1
        single := by
          rw [settle_executed, settle_debugRun]
          exact fun h1 => ⟨hi.single h1, hi.singleRun h1 hidle⟩ }

/-- After `--lr_sc_counter`: the slow path is asked for again while the sequence lasts. -/
theorem Served.lrScStep (hs : h.Served lr) (hstop : lr → h.lrScCounter ≠ 0 → ¬h.Stops)
    (h0 : h.lrScCounter ≠ 0) : h.lrScStep.AtDebug lr := by
  unfold Iss.lrScStep
  dsimp only
  -- the last instruction of the sequence, or one before it, for which the slow path is asked again
  split_ifs with h1
  · exact
      { guarded := hs.guarded
        pending := by
          show h.issSlowPath = h.watch.since.isSome
          rw [hs.pending, hs.since]
          rfl
        since := by
          show h.watch.since.getD 0 = 0
          rw [hs.since]
          rfl
        waiting := hs.waiting
        irq := fun h2 => absurd (hs.irq.symm.trans h2) nofun
        held := fun h2 => absurd (hs.pending.symm.trans h2) nofun
        lrPending := fun h2 => absurd rfl h2
        lrEnd := fun h2 => by
          show 0 = h.watch.lrAtEnd - 1
          rw [← hs.lrEnd h2, h1]
        stop := fun h2 h3 => absurd h3 (hstop h2 h0)
        debug := hs.debug
        single := hs.single }
  · exact
      { guarded := hs.guarded.forceSlowPath
        pending := rfl
        since := by
          show (some (h.watch.since.getD 0)).getD 0 = 0
          rw [hs.since]
          rfl
        waiting := hs.waiting
        irq := fun _ => rfl
        held := fun _ => DBBCache.held_forceSlowPath _
        lrPending := fun _ => rfl
        lrEnd := fun h2 => by
          show h.lrScCounter - 1 = h.watch.lrAtEnd - 1
          rw [hs.lrEnd h2]
        stop := fun h2 h3 => absurd h3 (hstop h2 h0)
        debug := hs.debug
        single := hs.single }

theorem Served.slowPathTail (hs : h.Served lr)
    (hstop : lr → h.status = .runnable → h.lrScCounter ≠ 0 → ¬h.Stops) (needSync : Bool) :
    NextOk lr (h.slowPathTail needSync) := by
  have hnone : h.issSlowPath = h.watch.since.isSome := by
    rw [hs.pending, hs.since]
    rfl
  have hzero : h.watch.since.getD 0 = 0 := by
    rw [hs.since]
    rfl
  unfold Iss.slowPathTail
  split_ifs with hst hlr hsync
  · -- the hart is no longer runnable and leaves the loop
    exact sound_leave hs.guarded hnone hzero hs.waiting hs.lrEnd (fun h1 => (hs.single h1).1)
      fun _ => Or.inr hst
  · -- a step inside an LR/SC sequence
    exact (hs.lrScStep (fun h1 => hstop h1 (not_not.mp hst)) hlr).slowPathDebug
  · -- a synchronisation is due: the kernel gets control while nothing is pending
    have h0 : h.lrScCounter = 0 := not_not.mp hlr
    exact
      { guarded := hs.guarded
        pending := hnone
        waiting := by
          show h.watch.waiting ≤ _
          rw [hs.waiting]
          exact Nat.zero_le _
        since := by
          show h.watch.since.getD 0 ≤ 1
          rw [hzero]
          exact Nat.zero_le _
        sinceBusy := fun _ => hzero
        irq := fun _ h1 => absurd (hs.irq.symm.trans h1) nofun
        held := fun h1 => absurd (hs.pending.symm.trans h1) nofun
        off := nofun
        lrPending := by rintro (h1 | h1) <;> cases h1
        lrZero := fun _ => h0
        lrEnd := by rintro _ (h1 | h1) <;> cases h1
        lrEndZero := fun h1 _ => (hs.lrEnd h1).symm.trans h0
        debug := fun h1 _ => ⟨hs.debug h1, nofun⟩
        debugPending := by rintro _ (h1 | h1) <;> cases h1
        single := fun h1 => (hs.single h1).1
        singleRun := fun h1 _ => (hs.single h1).2
        singleDone := nofun }
  · have h0 : h.lrScCounter = 0 := not_not.mp hlr
    refine AtDebug.slowPathDebug
      { guarded := hs.guarded
        pending := hnone
        since := hzero
        waiting := hs.waiting
        irq := fun h1 => absurd (hs.irq.symm.trans h1) nofun
        held := fun h1 => absurd (hs.pending.symm.trans h1) nofun
        lrPending := fun h1 => absurd h0 h1
        lrEnd := fun h1 => by rw [← hs.lrEnd h1, h0]
        stop := fun h1 _ => hs.lrEnd h1
        debug := hs.debug
        single := hs.single }

theorem Inv.slowPath (hi : h.Inv lr) (hl : h.loc = .global)
    (hstop : lr → h.slowPathHead.status = .runnable → h.slowPathHead.lrScCounter ≠ 0 →
      ¬h.slowPathHead.Stops) (needSync : Bool) :
    NextOk lr (h.slowPathHead.slowPathTail needSync) := by
  have hs := hi.served hl
  unfold Iss.slowPathHead at hstop ⊢
  dsimp only at hstop ⊢
  generalize h.slowPathServe = h0 at hs hstop ⊢
  split_ifs at hstop ⊢ with hexit
  · rw [Iss.slowPathTail, if_pos (by nofun)]
    refine sound_leave hs.guarded.forceSlowPath rfl ?_ hs.waiting hs.lrEnd
      (fun h1 => (hs.single h1).1) fun _ => Or.inr nofun
    show (some (h0.watch.since.getD 0)).getD 0 = 0
    rw [hs.since]
    rfl
  · exact hs.slowPathTail hstop needSync

/-- While no request is pending, `OP_GLOBAL_FDD` has nothing to charge and nobody to ask. -/
theorem Inv.atFetch_of_not_pending (hi : h.Inv lr) (hl : h.loc = .global ∨ h.loc = .medSync)
    (hp : h.loc = .global → h.issSlowPath = false) : h.AtFetch lr := by
  have hidle : h.loc ≠ .idle := by
    rcases hl with hl | hl <;> rw [hl] <;> nofun
  -- an LR/SC sequence or a single step would keep a request pending
  have hzero : h.lrScCounter = 0 := by
    by_contra h0
    rcases hl with hl | hl
    · exact absurd ((hp hl).symm.trans (hi.lrPending (Or.inl hl) h0)) nofun
    · exact h0 (hi.lrZero (Or.inr hl))
  have hdebug : h.watch.debugRun = false := by
    rw [Bool.eq_false_iff]
    intro hd
    rcases hl with hl | hl
    · exact absurd ((hp hl).symm.trans (hi.debugPending hd (Or.inl hl))) nofun
    · exact (hi.debug hd hidle).2 hl
  have hsince : h.watch.since.getD 0 = 0 := by
    rcases hl with hl | hl
    · have hnone := hi.pending
      rw [hp hl] at hnone
      rw [Option.isSome_eq_false_iff.mp hnone.symm |> Option.isNone_iff_eq_none.mp]
      rfl
    · exact hi.sinceBusy (Or.inr (Or.inl hl))
  exact
    { guarded := hi.guarded
      pending := hi.pending
      since := hsince
      waiting := by
        have hw := hi.waiting
        omega
      irq := hi.irq hidle
      held := by
        rcases hl with hl | hl
        · exact fun h1 => absurd ((hp hl).symm.trans h1) nofun
        · exact fun h1 => hi.held h1 (Or.inr (Or.inl hl))
      lrPending := fun h0 => absurd hzero h0
      lrEnd := fun h1 => by
        rcases hl with hl | hl
        · rw [← hi.lrEnd h1 (Or.inr hl), hzero]
        · rw [hi.lrEndZero h1 (Or.inr hl), hzero]
      debug := fun hd => absurd (hdebug.symm.trans hd) nofun
      single := fun hs => absurd (hdebug.symm.trans (hi.singleRun hs hidle)) nofun }

theorem Inv.medPath (hi : h.Inv lr) (hl : h.loc = .global) (hp : h.issSlowPath = false)
    (needSync : Bool) : NextOk lr (h.medPath needSync) := by
  have ha := hi.atFetch_of_not_pending (Or.inl hl) fun _ => hp
  have hzero : h.lrScCounter = 0 := by
    by_contra h0
    exact absurd (hp.symm.trans (ha.lrPending h0)) nofun
  have hdebug : ∀ {P : Prop}, h.watch.debugRun = true → P := fun hd =>
    absurd (hp.symm.trans (ha.debug hd).2.1) nofun
  unfold Iss.medPath
  dsimp only
  split_ifs
  · exact
      { guarded := ha.guarded
        pending := ha.pending
        waiting := hi.waiting
        since := hi.since
        sinceBusy := fun _ => ha.since
        irq := fun _ => ha.irq
        held := fun h1 => absurd (hp.symm.trans h1) nofun
        off := fun h1 => absurd (hp.symm.trans h1) nofun
        lrPending := fun _ => ha.lrPending
        lrZero := fun _ => hzero
        lrEnd := by rintro _ (h1 | h1) <;> cases h1
        lrEndZero := fun h1 _ => (hi.lrEnd h1 (Or.inr hl)).symm.trans hzero
        debug := fun hd => hdebug hd
        debugPending := fun hd => hdebug hd
        single := hi.single
        singleRun := fun hs _ => (ha.single hs).2.2
        singleDone := nofun }
  · exact { ha with debug := fun hd => hdebug hd }
  · exact { ha with debug := fun hd => hdebug hd }

theorem Inv.toFetch (hi : h.Inv lr) (hl : h.loc = .global ∨ h.loc = .slowSync ∨ h.loc = .medSync)
    (hstop : lr → h.loc = .global → h.issSlowPath = true → h.slowPathHead.status = .runnable →
      h.slowPathHead.lrScCounter ≠ 0 → ¬h.slowPathHead.Stops) (needSync : Bool) :
    NextOk lr (h.toFetch needSync) := by
  rcases hl with hl | hl | hl
  · simp only [Iss.toFetch, hl]
    split_ifs with hp
    · exact hi.slowPath hl (fun h1 => hstop h1 hl hp) needSync
    · exact hi.medPath hl (Bool.eq_false_iff.mpr hp) needSync
  · simp only [Iss.toFetch, hl]
    have hidle : h.loc ≠ .idle := by
      rw [hl]
      nofun
    have hsince := hi.sinceBusy (Or.inl hl)
    refine AtDebug.slowPathDebug
      { guarded := hi.guarded
        pending := hi.pending
        since := hsince
        waiting := by
          have hw := hi.waiting
          omega
        irq := hi.irq hidle
        held := fun h1 => hi.held h1 (Or.inl hl)
        lrPending := fun h0 => absurd (hi.lrZero (Or.inl hl)) h0
        lrEnd := fun h1 => by rw [hi.lrEndZero h1 (Or.inl hl), hi.lrZero (Or.inl hl)]
        stop := fun h1 _ => by rw [hi.lrEndZero h1 (Or.inl hl), hi.lrZero (Or.inl hl)]
        debug := fun hd => (hi.debug hd hidle).1
        single := fun hs => ⟨hi.single hs, hi.singleRun hs hidle⟩ }
  · simp only [Iss.toFetch, hl]
    exact hi.atFetch_of_not_pending (Or.inr hl) fun h1 => absurd (hl.symm.trans h1) nofun

theorem NextOk.globalFdd {needSync : Bool} {during : Option Irq}
    (hn : NextOk lr (h.toFetch needSync))
    (hok : FetchOk isa h.isSlow during (h.toFetch needSync)) :
    Sound lr (h.globalFdd isa needSync during) := by
  unfold Iss.globalFdd
  cases ht : h.toFetch needSync with
  | fdd h' =>
    rw [ht] at hn hok
    exact AtFetch.fdd hn hok
  | sync h' =>
    rw [ht] at hn
    exact Inv.sound hn
  | leave h' =>
    rw [ht] at hn
    exact hn

/-! ### The body of an operation -/

theorem Inv.setDriver (hi : h.Inv lr) (hl : h.loc = .operation)
    {d : Driver 64 Op (DBBCache 64 Op)} (hg : d.cache.Guarded)
    (hoff : h.issSlowPath = true → d.cache.inFastPath = false)
    (hh : h.issSlowPath = true → d.phase = .executing → d.cache.Held) :
    { h with driver := d }.Inv lr :=
  { hi with
    guarded := hg
    held := by
      rintro hp (h0 | h0 | ⟨_, h0⟩)
      · exact absurd (hl.symm.trans h0) nofun
      · exact absurd (hl.symm.trans h0) nofun
      · exact hh hp h0
    off := fun hp _ => hoff hp }

/-- An operation calls its cache: it moves, stays, or traps. -/
theorem Inv.call (hi : h.Inv lr) (hl : h.loc = .operation) {c : Call 64}
    (hc : isOperationCall c = true) (hlegal : h.driver.Legal isa c) : (h.call isa c).Inv lr := by
  have hheld : h.driver.phase = .executing → h.issSlowPath = true → h.dbbcache.Held :=
    fun h1 h2 => hi.held h2 (Or.inr (Or.inr ⟨hl, h1⟩))
  have hcaught : ∀ (d : Driver 64 Op (DBBCache 64 Op)) (t : SimulationTrap), d.cache.Guarded →
      ({ h with driver := d }.caught t).Inv lr := by
    intro d t hg
    have hb : { h with driver := d }.Busy := { hi.busy hl with guarded := hg }
    exact hb.caught t
  -- a static branch or jump: the callback lands, or reports a misaligned target
  have hsjump : ∀ (off : BitVec 32), h.driver.phase = .executing →
      (∀ d : Driver 64 Op (DBBCache 64 Op), d.cache = (h.dbbcache.branchTakenSjump isa off).2 →
        d.phase = .between → { h with driver := d }.Inv lr) ∧
      (h.dbbcache.branchTakenSjump isa off).2.Guarded := by
    intro off hph
    have hg : (h.dbbcache.branchTakenSjump isa off).2.Guarded := hi.guarded.branchTakenSjump off
    refine ⟨fun d hd hbet => hi.setDriver hl (hd ▸ hg) (fun hp => ?_) fun _ h1 => ?_, hg⟩
    · rw [hd]
      exact (hheld hph hp).branchTakenSjump off
    · exact absurd (hbet.symm.trans h1) nofun
  -- a dynamic jump cannot trap
  have hdyn : ∀ (pc : BitVec 64), h.driver.phase = .executing →
      ∀ d : Driver 64 Op (DBBCache 64 Op), d.cache = h.dbbcache.jumpDyn pc →
        d.phase = .between → { h with driver := d }.Inv lr := by
    intro pc hph d hd hbet
    have hg : (h.dbbcache.jumpDyn pc).Guarded := hi.guarded.jumpDyn pc
    refine hi.setDriver hl (hd ▸ hg) (fun hp => ?_) fun _ h1 => ?_
    · rw [hd]
      exact (hheld hph hp).jumpDyn pc
    · exact absurd (hbet.symm.trans h1) nofun
  -- a fence keeps the cache held, if it was
  have hfence : h.driver.phase = .executing →
      { h with driver := { h.driver with cache := h.dbbcache.coherenceUpdate } }.Inv lr := by
    intro hph
    exact hi.setDriver hl hi.guarded.coherenceUpdate
      (fun _ => DBBCache.inFastPath_coherenceUpdate _) fun hp _ => (hheld hph hp).coherenceUpdate
  unfold Iss.call
  cases c with
  | branchNotTaken =>
    exact hi.setDriver hl hi.guarded (fun hp => hi.off hp hl) fun hp h1 =>
      hheld hlegal.1 hp
  | branchTaken =>
    obtain ⟨hmove, hg⟩ := hsjump (h.driver.pcOffset isa) hlegal.1
    rcases hr : h.dbbcache.branchTakenSjump isa (h.driver.pcOffset isa) with ⟨t | u, cache⟩
    · have hr' : (DBBCache.ops isa).branchTaken h.driver.cache (h.driver.pcOffset isa) =
          (.error t, cache) := hr
      rw [hr] at hg
      simp only [Driver.step, hr']
      exact hcaught _ t hg
    · have hr' : (DBBCache.ops isa).branchTaken h.driver.cache (h.driver.pcOffset isa) =
          (.ok u, cache) := hr
      rw [hr] at hmove
      simp only [Driver.step, hr']
      exact hmove _ rfl rfl
  | jump =>
    obtain ⟨hmove, hg⟩ := hsjump (h.driver.pcOffset isa) hlegal.1
    rcases hr : h.dbbcache.branchTakenSjump isa (h.driver.pcOffset isa) with ⟨t | u, cache⟩
    · have hr' : (DBBCache.ops isa).jump h.driver.cache (h.driver.pcOffset isa) =
          (.error t, cache) := hr
      rw [hr] at hg
      simp only [Driver.step, hr']
      exact hcaught _ t hg
    · have hr' : (DBBCache.ops isa).jump h.driver.cache (h.driver.pcOffset isa) =
          (.ok u, cache) := hr
      rw [hr] at hmove
      simp only [Driver.step, hr']
      exact hmove _ rfl rfl
  | jumpAndLink =>
    obtain ⟨hmove, hg⟩ := hsjump (h.driver.pcOffset isa) hlegal.1
    rcases hr : h.dbbcache.branchTakenSjump isa (h.driver.pcOffset isa) with ⟨t | u, cache⟩
    · have hr' : (DBBCache.ops isa).jumpAndLink h.driver.cache (h.driver.pcOffset isa) =
          (.error t, cache) := by
        show DBBCache.jumpAndLink isa h.dbbcache (h.driver.pcOffset isa) = _
        simp only [DBBCache.jumpAndLink, DBBCache.jump, hr]
      rw [hr] at hg
      simp only [Driver.step, hr']
      exact hcaught _ t hg
    · have hr' : (DBBCache.ops isa).jumpAndLink h.driver.cache (h.driver.pcOffset isa) =
          (.ok h.dbbcache.linkAddr, cache) := by
        show DBBCache.jumpAndLink isa h.dbbcache (h.driver.pcOffset isa) = _
        simp only [DBBCache.jumpAndLink, DBBCache.jump, hr]
      rw [hr] at hmove
      simp only [Driver.step, hr']
      exact hmove _ rfl rfl
  | jumpDyn pc => exact hdyn pc hlegal.1 _ rfl rfl
  | jumpDynAndLink pc => exact hdyn pc hlegal.1 _ rfl rfl
  | raise t => exact hcaught _ t hi.guarded
  | fenceI => exact hfence hlegal
  | fenceVma => exact hfence hlegal
  -- calls of another kind are not those of an operation
  | fetch _ => cases hc
  | enterTrap _ => cases hc
  | retTrap _ => cases hc
  | forceSlowPath => cases hc
  | enable _ => cases hc

/-- `URET`, `SRET` and `MRET`: the return may enable an interrupt, which is then noted as waiting. -/
theorem Inv.ret (hi : h.Inv lr) (hl : h.loc = .operation) (mode : PrivilegeLevel) :
    (h.returnFromTrapHandler mode).settle.Inv lr := by
  have hd : { h with driver := { h.driver with
      cache := h.dbbcache.retTrap (h.csrs.returnFromTrapHandler mode).2.2
      pc := (h.csrs.returnFromTrapHandler mode).2.2
      phase := .between } }.Inv lr :=
    hi.setDriver hl (hi.guarded.switchBlockDummy _)
      (fun _ => DBBCache.Held.switchBlockDummy _ _) nofun
  exact (hd.forceSlowPath (h.csrs.returnFromTrapHandler mode).2.1
    (h.csrs.returnFromTrapHandler mode).1).settle

/-- `run_step` and `run` start a call of `exec_steps` from rest. -/
theorem Inv.execSteps (hi : h.Inv lr) (hl : h.loc = .idle) {single : Bool}
    (hd : single = true → h.debugMode = true) : (h.execSteps single).Inv lr where
  guarded := hi.guarded.forceSlowPath
  pending := rfl
  waiting := hi.waiting
  since := hi.since
  sinceBusy := by rintro (h0 | h0 | h0) <;> cases h0
  irq := fun _ _ => rfl
  held := fun _ _ => DBBCache.held_forceSlowPath _
  off := nofun
  lrPending := fun _ _ => rfl
  lrZero := by rintro (h0 | h0) <;> cases h0
  lrEnd := fun h1 _ => hi.lrEnd h1 (Or.inl hl)
  lrEndZero := by rintro _ (h0 | h0) <;> cases h0
  debug := fun h1 _ => ⟨h1, nofun⟩
  debugPending := fun _ _ => rfl
  single := fun _ => rfl
  singleRun := fun hs _ => hd hs
  singleDone := nofun

/-! ### Runs -/

/-- One step keeps the invariant and honours the requests. -/
theorem Inv.step (hi : h.Inv lr) {e : Event} (hlegal : h.Legal isa e) (hok : h.FddOk isa e)
    (hstop : lr → h.StopOk e) : Sound lr (h.step isa e) := by
  cases e with
  | execSteps single => exact (hi.execSteps hlegal.1 hlegal.2).sound
  | fdd needSync during =>
    exact (hi.toFetch (Or.inl hlegal) (fun h1 _ => hstop h1) needSync).globalFdd hok
  | resume during =>
    refine (hi.toFetch (Or.inr hlegal) (fun _ h1 => ?_) false).globalFdd hok
    rcases hlegal with h2 | h2 <;> exact absurd (h1.symm.trans h2) nofun
  | call c => exact (hi.call hlegal.1 hlegal.2.1 hlegal.2.2).sound
  | ret mode => exact (hi.ret hlegal.1 mode).sound
  | setCsrValue csrs inhibit =>
    -- a write of a CSR may make an interrupt pending, so the slow path is requested
    have hforced : ∀ c : Counters,
        ({ h with csrs := csrs, counters := c }.forceSlowPath).settle.Inv lr := fun c =>
      (((hi.frame h.mem h.shallExit h.status h.breakpoints h.trace c).forceSlowPath csrs
        h.prv)).settle
    cases inhibit with
    | none => exact (hforced h.counters).sound
    | some i => exact (hforced _).sound
  -- these touch nothing that the invariant is about
  | commitInstructions =>
    exact (hi.frame h.mem h.shallExit h.status h.breakpoints h.trace _).sound
  | commitCycles => exact (hi.frame h.mem h.shallExit h.status h.breakpoints h.trace _).sound
  | loadReserved => exact (hi.loadReserved hlegal.1).sound
  | storeConditional => exact (hi.setLrScCounter hlegal.1 0 fun h0 => absurd rfl h0).sound
  | wfi => exact (hi.setLrScCounter hlegal.1 0 fun h0 => absurd rfl h0).sound
  | ebreak =>
    exact ((hi.frame h.mem h.shallExit .hitBreakpoint h.breakpoints h.trace h.counters).forceSlowPath
      h.csrs h.prv).sound
  | finish => exact hi.fastFinalizeAndFdd hlegal
  -- what comes from outside the hart: interrupts, the debugger, other threads
  | trigger irq => exact (hi.forceSlowPath _ h.prv).sound
  | clear irq => exact (hi.clear _).sound
  | forceSlowPath => exact (hi.forceSlowPath h.csrs h.prv).sound
  | sysExit =>
    exact ((hi.frame h.mem true h.status h.breakpoints h.trace h.counters).forceSlowPath
      h.csrs h.prv).sound
  | setStatus s =>
    exact ((hi.frame h.mem h.shallExit s h.breakpoints h.trace h.counters).forceSlowPath
      h.csrs h.prv).sound
  | halt =>
    show Sound lr (.none, if h.debugMode = true then { h with status := .hitBreakpoint } else h)
    split_ifs
    · exact (hi.frame h.mem h.shallExit .hitBreakpoint h.breakpoints h.trace h.counters).sound
    · exact hi.sound
  | enableDebug => exact hi.enableDebug.sound
  | enableTrace ena =>
    exact ((hi.frame h.mem h.shallExit h.status h.breakpoints ena h.counters).forceSlowPath
      h.csrs h.prv).sound
  | insertBreakpoint addr =>
    exact (hi.frame h.mem h.shallExit h.status _ h.trace h.counters).sound
  | removeBreakpoint addr =>
    exact (hi.frame h.mem h.shallExit h.status _ h.trace h.counters).sound
  | enableDbbcache ena =>
    exact (hi.setCache (hi.guarded.enable ena) (fun hh => hh.enable ena)
      fun hf => (DBBCache.inFastPath_enable _ ena).trans hf).sound
  | rewrite mem =>
    exact (hi.frame mem h.shallExit h.status h.breakpoints h.trace h.counters).sound

theorem Sound.honoured {e : Event} (hs : Sound lr (h.step isa e)) : h.Honoured isa e where
  request := by
    intro n hn
    have h1 := hs.inv.since
    rw [hn] at h1
    exact h1
  interrupt := hs.inv.waiting.trans hs.inv.since
  singleStep := by
    intro h1
    rw [hs.inv.single h1]
    split_ifs <;> decide
  stopped := hs.stopped
  breakpoint := hs.breakpoint

theorem inv_start (lr : Prop) (enabled : Bool) (entrypoint : BitVec 64) (mem : InstrMem 64)
    (csrs : Csrs) (fastQuantum : BitVec 64) :
    (start enabled entrypoint mem csrs fastQuantum : Iss Op).Inv lr where
  guarded := DBBCache.guarded_init enabled entrypoint
  pending := rfl
  waiting := le_rfl
  since := Nat.zero_le _
  sinceBusy := fun _ => rfl
  irq := fun h0 => absurd rfl h0
  held := nofun
  off := nofun
  lrPending := fun _ h0 => absurd rfl h0
  lrZero := fun _ => rfl
  lrEnd := fun _ _ => rfl
  lrEndZero := fun _ _ => rfl
  debug := nofun
  debugPending := nofun
  single := nofun
  singleRun := nofun
  singleDone := nofun

/-- **Slow-path requests are honoured** in every run whose fetches leave a pending request alone: at
most the instruction being dispatched or executed completes before the global slow path runs, an
enabled interrupt is taken before a second instruction, `run_step()` executes one instruction, and in
debug mode no instruction is dispatched from a breakpoint.  If the debugger does not stop while a
reservation is held, `lr_sc_counter` decreases once per instruction. -/
theorem honoured_of_fddOk (isa : Isa Op) (enabled : Bool) (entrypoint : BitVec 64)
    (mem : InstrMem 64) (csrs : Csrs) (fastQuantum : BitVec 64) (events : List Event)
    (hlegal : Run.Along (fun h e => h.Legal isa e) (fun h e => h.step isa e)
      (start enabled entrypoint mem csrs fastQuantum) events)
    (hfdd : Run.Along (fun h e => h.FddOk isa e) (fun h e => h.step isa e)
      (start enabled entrypoint mem csrs fastQuantum) events) :
    Run.Along (fun h e => h.Honoured isa e) (fun h e => h.step isa e)
        (start enabled entrypoint mem csrs fastQuantum) events ∧
      (Run.Along (fun h e => h.StopOk e) (fun h e => h.step isa e)
          (start enabled entrypoint mem csrs fastQuantum) events →
        Run.Along (fun h e => h.LrScOnce isa e) (fun h e => h.step isa e)
          (start enabled entrypoint mem csrs fastQuantum) events) := by
  constructor
  · refine Run.Along.of_invariant (Inv False) (fun h e hi hP => ?_)
      (inv_start False enabled entrypoint mem csrs fastQuantum) (hlegal.and hfdd)
    have hs := Inv.step hi hP.1 hP.2 nofun
    exact ⟨hs.honoured, hs.inv⟩
  · intro hstop
    refine Run.Along.of_invariant (Inv True) (fun h e hi hP => ?_)
      (inv_start True enabled entrypoint mem csrs fastQuantum) ((hlegal.and hfdd).and hstop)
    have hs := Inv.step hi hP.1.1 hP.1.2 fun _ => hP.2
    exact ⟨hs.lrOnce trivial, hs.inv⟩

/-! ### Stepping through cached code -/

instance decidableLegal (isa : Isa Op) (h : Iss Op) (e : Event) : Decidable (h.Legal isa e) := by
  cases e <;> unfold Legal <;> infer_instance

instance decidableFetchOk (isa : Isa Op) (slow : Bool) (during : Option Irq) (n : Next Op) :
    Decidable (FetchOk isa slow during n) := by
  cases n <;> unfold FetchOk <;> infer_instance

instance decidableFddOk (isa : Isa Op) (h : Iss Op) (e : Event) : Decidable (h.FddOk isa e) := by
  cases e <;> unfold FddOk <;> infer_instance

instance decidableStops (h : Iss Op) : Decidable h.Stops := by
  unfold Stops
  infer_instance

instance decidableStopOk (h : Iss Op) (e : Event) : Decidable (h.StopOk e) := by
  cases e <;> unfold StopOk <;> infer_instance

/-- Two `addi` and a jump back to the first of them. -/
def stepCode : InstrMem 64 := fun a =>
  if a = 0x1008 then .ok 0xff9ff06f else .ok 0x00000013

/-- Three times `run_step()`, once around the loop; then `run_step()` at its first instruction, which
is in the cache now. -/
def stepEvents : List Event :=
  [.enableDebug,
    .execSteps true, .fdd false none, .finish, .fdd false none,
    .execSteps true, .fdd false none, .finish, .fdd false none,
    .execSteps true, .fdd false none, .call .jump, .finish, .fdd false none,
    .execSteps true, .fdd false none, .finish]

/-- **A request is lost.**  The fourth `run_step()` hits the block in the cache.  The fetch turns the
fast path on, and a second instruction of the block is executed without the slow path. -/
theorem not_honoured_stepping :
    Run.Along (fun h e => h.Legal defaultIsa e) (fun h e => h.step defaultIsa e)
      (start true 0x1000 stepCode Csrs.reset 100) (stepEvents ++ [.finish]) ∧
    ¬ Run.Along (fun h e => h.Honoured defaultIsa e) (fun h e => h.step defaultIsa e)
      (start true 0x1000 stepCode Csrs.reset 100) (stepEvents ++ [.finish]) := by
  refine ⟨by decide, fun hrun => ?_⟩
  have hle := hrun.last.request 2 (by decide)
  exact absurd hle (by decide)

/-- The timer interrupt is enabled, and its handler is at `0x2000`. -/
def timerCsrs : Csrs :=
  { Csrs.reset with
    mstatus := { Csrs.reset.mstatus with mie := true }
    mie := ⟨0x80, by decide⟩
    m := { Csrs.reset.m with tvec := ⟨0, 0x800⟩ } }

/-- A timer interrupt during an instruction, a sync on the way to the handler, and a load-reserved in
it. -/
def timerEvents : List Event :=
  [.execSteps false, .fdd false none, .trigger .timer, .finish, .fdd true none, .clear .timer,
    .resume none, .loadReserved, .finish, .fdd false none, .finish, .fdd true none,
    .storeConditional, .finish, .fdd false (some .software)]

theorem honoured_timer :
    Run.Along (fun h e => h.Honoured defaultIsa e) (fun h e => h.step defaultIsa e)
        (start true 0x1000 stepCode timerCsrs 100) timerEvents ∧
      (Run.Along (fun h e => h.StopOk e) (fun h e => h.step defaultIsa e)
          (start true 0x1000 stepCode timerCsrs 100) timerEvents →
        Run.Along (fun h e => h.LrScOnce defaultIsa e) (fun h e => h.step defaultIsa e)
          (start true 0x1000 stepCode timerCsrs 100) timerEvents) :=
  honoured_of_fddOk defaultIsa true 0x1000 stepCode timerCsrs 100 timerEvents (by decide)
    (by decide)

end RiscvVp.Iss
