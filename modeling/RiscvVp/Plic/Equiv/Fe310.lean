import RiscvVp.Plic.Fe310
import RiscvVp.Lib.Run
import RiscvVp.Lib.Select

/-!
# Harts and their own configuration

`Fe310Plic.ServesRight` says what a step of the controller should do for the harts, each by its own
enable words, threshold and claim register.  The code takes rows of one word for rows of
`NumberInterruptEntries` words, takes the index of a word for the index of a hart in two callbacks,
leaves out the last priority when it clamps them, and asserts at a completion that `run` has seen
whatever is eligible.  `Fe310Plic.serves_of_stepOk`: a run that keeps away from these is served right.
-/

namespace RiscvVp

/-- The instantiations in which the rows of the enable words are right. -/
structure Fe310Config.RowsRight (cfg : Fe310Config) : Prop where
  interrupts_pos : 0 < cfg.numberInterrupts
  interrupts_le : cfg.numberInterrupts ≤ 32 * cfg.numberInterruptEntries
  rows : cfg.numberCores = 1 ∨ cfg.numberInterruptEntries = 1

namespace Fe310Plic

variable (cfg : Fe310Config) (s : Fe310Plic)

/-- The interrupt can be claimed: it is pending, enabled in the hart's own enable words and has a
priority. -/
structure Claimable (hart irq : ℕ) : Prop where
  pos : 0 < irq
  lt : irq < cfg.numberInterrupts
  pending : bit (s.pendingInterrupts (irq / 32)) irq = true
  enabled : bit (s.hartEnabledInterrupts (hart * cfg.numberInterruptEntries + irq / 32)) irq = true
  prio_pos : 0 < (s.interruptPriorities irq).toNat

/-- The interrupt can be claimed and its priority is above the hart's threshold. -/
structure Eligible (hart irq : ℕ) : Prop where
  claimable : s.Claimable cfg hart irq
  above : s.hartConfig (2 * hart) < s.interruptPriorities irq

/-- What a step should do. -/
structure ServesRight (e : Fe310Event) : Prop where
  /-- a claim returns the best interrupt for the hart and clears its pending bit -/
  claim : ∀ addr hart, e = .read addr → cfg.route addr = some (.hartConfig, 2 * hart + 1) →
    ∃ irq t, s.busRead cfg addr = .ok (.ofNat 32 irq, t) ∧
      (irq = 0 ∧ (∀ j, ¬s.Claimable cfg hart j) ∨
        Select.IsFirstMax (s.Claimable cfg hart) (fun j => (s.interruptPriorities j).toNat) irq) ∧
      ∀ w b, b < 32 → (t.pendingInterrupts w).getLsbD b =
        ((s.pendingInterrupts w).getLsbD b && decide (irq = 0 ∨ w ≠ irq / 32 ∨ b ≠ irq % 32))
  /-- a write to the enable words of a hart does not change what is enabled for another one -/
  enable : ∀ addr value w, e = .write addr value →
    cfg.route addr = some (.hartEnabledInterrupts, w) → ∀ hart < cfg.numberCores,
      hart ≠ w / cfg.numberInterruptEntries → ∀ irq < cfg.numberInterrupts,
        (s.step cfg e).2.enabledAt cfg hart (irq / 32) = s.enabledAt cfg hart (irq / 32)
  /-- a completion evaluates the hart's interrupts again and updates the hart's line -/
  complete : ∀ addr value hart, e = .write addr value →
    cfg.route addr = some (.hartConfig, 2 * hart + 1) →
      ((s.step cfg e).2.lines hart = true ↔ ∃ irq, s.Eligible cfg hart irq) ∧
        ∀ hart', hart' ≠ hart → (s.step cfg e).2.lines hart' = s.lines hart' ∧
          (s.step cfg e).2.hartEip hart' = s.hartEip hart'
  index : (s.step cfg e).1 ≠ some .index
  eip : (s.step cfg e).1 ≠ some .hartEip
  prio : ∀ i ≤ cfg.numberInterrupts, (s.step cfg e).2.interruptPriorities i ≤ cfg.maxPriority

/-- The step keeps away from what the code gets wrong.

* Claims and completions are those of hart 0.
* At a completion, `run` has asserted the line of the hart or nothing is eligible.
* A value for the last priority is in range. -/
def StepOk : Fe310Event → Prop
  | .trigger _ | .run => True
  | .read addr => ∀ idx, cfg.route addr = some (.hartConfig, idx) → idx % 2 = 1 → idx = 1
  | .write addr value =>
    (cfg.route addr = some (.interruptPriorities, cfg.numberInterrupts) → value ≤ cfg.maxPriority) ∧
      ∀ idx, cfg.route addr = some (.hartConfig, idx) → idx % 2 = 1 →
        idx = 1 ∧ (s.hartEip 0 = true ∨ ∀ irq, ¬s.Eligible cfg 0 irq)

variable {cfg s}

/-! ### Views -/

theorem enabledAt_eq (hc : cfg.RowsRight) {hart irq : ℕ} (hh : hart < cfg.numberCores)
    (hi : irq < cfg.numberInterrupts) : s.enabledAt cfg hart (irq / 32) =
      .ok (s.hartEnabledInterrupts (hart * cfg.numberInterruptEntries + irq / 32)) := by
  have hle := hc.interrupts_le
  have hidx : hart * 1 + irq / 32 = hart * cfg.numberInterruptEntries + irq / 32 ∧
      hart * 1 + irq / 32 < cfg.numberInterruptEntries * cfg.numberCores := by
    rcases hc.rows with h1 | h1
    · obtain rfl : hart = 0 := by omega
      rw [h1]
      omega
    · rw [h1] at hle ⊢
      omega
  rw [enabledAt, if_pos hidx.2, hidx.1]

theorem pendingAt_eq (hc : cfg.RowsRight) {irq : ℕ} (hi : irq < cfg.numberInterrupts) :
    s.pendingAt cfg (irq / 32) = .ok (s.pendingInterrupts (irq / 32)) := by
  have hle := hc.interrupts_le
  exact if_pos (by omega)

/-- What the loop of `hart_get_next_pending_interrupt` looks for. -/
def candidate (cfg : Fe310Config) (s : Fe310Plic) (hart : ℕ) (considerThreshold : Bool) (i : ℕ) :
    Bool :=
  bit (s.hartEnabledInterrupts (hart * cfg.numberInterruptEntries + i / 32)) i &&
    bit (s.pendingInterrupts (i / 32)) i &&
    (decide (0 < s.interruptPriorities i) &&
      (!considerThreshold || decide (s.hartConfig (2 * hart) < s.interruptPriorities i)))

theorem passes_eq {hart : ℕ} (hh : hart < cfg.numberCores) (considerThreshold : Bool)
    (prio : BitVec 32) : s.passes cfg hart considerThreshold prio =
      .ok (decide (0 < prio) && (!considerThreshold || decide (s.hartConfig (2 * hart) < prio))) := by
  unfold passes thresholdAt
  rw [if_pos hh]
  by_cases hp : 0 < prio
  · rw [if_pos hp, decide_eq_true hp, Bool.true_and]
    cases considerThreshold <;> rfl
  · rw [if_neg hp, decide_eq_false hp]
    rfl

theorem nextRound_eq (hc : cfg.RowsRight) {hart i : ℕ} (hh : hart < cfg.numberCores)
    (hi : i < cfg.numberInterrupts) (considerThreshold : Bool) (sel : ℕ × BitVec 32) :
    s.nextRound cfg hart considerThreshold sel i =
      .ok (Select.pick (s.candidate cfg hart considerThreshold) s.interruptPriorities sel i) := by
  have hprio : s.priorityAt cfg i = .ok (s.interruptPriorities i) := if_pos (by omega)
  unfold nextRound Select.pick candidate
  rw [enabledAt_eq hc hh hi, pendingAt_eq hc hi, hprio]
  simp only [passes_eq hh, bind, Except.bind, pure, Except.pure]
  cases bit (s.hartEnabledInterrupts (hart * cfg.numberInterruptEntries + i / 32)) i with
  | false => simp
  | true =>
    cases bit (s.pendingInterrupts (i / 32)) i with
    | false => simp
    | true => simp

/-- A loop whose rounds do not fail. -/
theorem foldlM_ok {α β ε : Type} {f : β → α → Except ε β} {g : β → α → β} {l : List α}
    (h : ∀ b, ∀ a ∈ l, f b a = .ok (g b a)) (b : β) : l.foldlM f b = .ok (l.foldl g b) := by
  induction l generalizing b with
  | nil => rfl
  | cons a l ih =>
    rw [List.foldlM_cons, h b a List.mem_cons_self, List.foldl_cons]
    exact ih (fun b a ha => h b a (List.mem_cons_of_mem _ ha)) (g b a)

/-- **What the controller finds for a hart**, with or without regard to the threshold. -/
theorem hartGetNextPendingInterrupt_spec (hc : cfg.RowsRight) {hart : ℕ} (hh : hart < cfg.numberCores)
    (considerThreshold : Bool) :
    ∃ irq, s.hartGetNextPendingInterrupt cfg hart considerThreshold = .ok irq ∧
      (irq = 0 ∧ (∀ j, 0 < j → j < cfg.numberInterrupts → s.candidate cfg hart considerThreshold j ≠ true) ∨
        Select.IsFirstMax (fun j => 0 < j ∧ j < cfg.numberInterrupts ∧
          s.candidate cfg hart considerThreshold j = true)
          (fun j => (s.interruptPriorities j).toNat) irq) := by
  have hpos := hc.interrupts_pos
  have hloop : (List.range' 1 (cfg.numberInterrupts - 1)).foldlM
      (s.nextRound cfg hart considerThreshold) (0, 0) =
      .ok ((List.range' 1 (cfg.numberInterrupts - 1)).foldl
        (Select.pick (s.candidate cfg hart considerThreshold) s.interruptPriorities) (0, 0)) := by
    apply foldlM_ok
    intro sel i hi
    rw [List.mem_range'_1] at hi
    exact nextRound_eq hc hh (by omega) considerThreshold sel
  have hvalue : ∀ j, s.candidate cfg hart considerThreshold j = true →
      0 < (s.interruptPriorities j).toNat := by
    intro j hj
    unfold candidate at hj
    simp only [Bool.and_eq_true, decide_eq_true_eq] at hj
    exact hj.2.1
  unfold hartGetNextPendingInterrupt
  rw [hloop]
  refine ⟨_, rfl, ?_⟩
  rcases Select.foldl_pick (s.candidate cfg hart considerThreshold) s.interruptPriorities 0
    (fun _ _ => BitVec.lt_def) rfl (cfg.numberInterrupts - 1) with ⟨hr, hnone⟩ | ⟨-, hmax⟩
  · left
    rw [hr]
    refine ⟨rfl, fun j hj0 hjlt hj => ?_⟩
    exact hnone j ⟨hj0, by omega, hj, hvalue j hj⟩
  · right
    obtain ⟨hm0, hmn, hmc, -⟩ := hmax.mem
    refine ⟨⟨hm0, by omega, hmc⟩, ?_, ?_⟩
    · rintro j ⟨hj0, hjlt, hj⟩
      exact hmax.highest j ⟨hj0, by omega, hj, hvalue j hj⟩
    · rintro j ⟨hj0, hjlt, hj⟩ heq
      exact hmax.lowest j ⟨hj0, by omega, hj, hvalue j hj⟩ heq

theorem claimable_iff {hart j : ℕ} : s.Claimable cfg hart j ↔
    0 < j ∧ j < cfg.numberInterrupts ∧ s.candidate cfg hart false j = true := by
  unfold candidate
  simp only [Bool.and_eq_true, decide_eq_true_eq, Bool.not_false, Bool.true_or, and_true]
  constructor
  · rintro ⟨h1, h2, h3, h4, h5⟩
    exact ⟨h1, h2, ⟨h4, h3⟩, BitVec.lt_def.mpr h5⟩
  · rintro ⟨h1, h2, ⟨h4, h3⟩, h5⟩
    exact ⟨h1, h2, h3, h4, BitVec.lt_def.mp h5⟩

theorem eligible_iff {hart j : ℕ} : s.Eligible cfg hart j ↔
    0 < j ∧ j < cfg.numberInterrupts ∧ s.candidate cfg hart true j = true := by
  unfold candidate
  simp only [Bool.and_eq_true, decide_eq_true_eq, Bool.not_true, Bool.false_or]
  constructor
  · rintro ⟨⟨h1, h2, h3, h4, h5⟩, h6⟩
    exact ⟨h1, h2, ⟨h4, h3⟩, BitVec.lt_def.mpr h5, h6⟩
  · rintro ⟨h1, h2, ⟨h4, h3⟩, h5, h6⟩
    exact ⟨⟨h1, h2, h3, h4, BitVec.lt_def.mp h5⟩, h6⟩

theorem hartHasPendingEnabledInterrupts_spec (hc : cfg.RowsRight) {hart : ℕ}
    (hh : hart < cfg.numberCores) : ∃ b : Bool, s.hartHasPendingEnabledInterrupts cfg hart = .ok b ∧
      (b = true ↔ ∃ irq, s.Eligible cfg hart irq) := by
  obtain ⟨irq, heq, hspec⟩ := @hartGetNextPendingInterrupt_spec cfg s hc _ hh true
  unfold hartHasPendingEnabledInterrupts
  rw [heq]
  refine ⟨decide (0 < irq), rfl, ?_⟩
  simp only [decide_eq_true_eq, eligible_iff]
  rcases hspec with ⟨rfl, hnone⟩ | hmax
  · simp only [lt_self_iff_false, false_iff, not_exists]
    rintro j ⟨hj0, hjlt, hj⟩
    exact hnone j hj0 hjlt hj
  · exact iff_of_true hmax.mem.1 ⟨irq, hmax.mem⟩

/-! ### Claims -/

theorem clearPendingInterrupt_spec (hc : cfg.RowsRight) {irq : ℕ} (hi : irq < cfg.numberInterrupts) :
    ∃ t, s.clearPendingInterrupt cfg irq = .ok t ∧
      t = { s with pendingInterrupts := t.pendingInterrupts } ∧
      ∀ w b, b < 32 → (t.pendingInterrupts w).getLsbD b =
        ((s.pendingInterrupts w).getLsbD b && decide (w ≠ irq / 32 ∨ b ≠ irq % 32)) := by
  unfold clearPendingInterrupt
  rw [if_neg (by omega), pendingAt_eq hc hi]
  refine ⟨_, rfl, rfl, fun w b hb => ?_⟩
  dsimp only
  by_cases hw : w = irq / 32
  · have hlt : irq % 32 < 32 := Nat.mod_lt _ (by decide)
    rw [hw, Function.update_self, BitVec.getLsbD_and, BitVec.getLsbD_not, BitVec.getLsbD_shiftLeft,
      BitVec.getLsbD_one]
    by_cases hbit : b = irq % 32
    · simp [hbit, hlt]
    · by_cases hlow : b < irq % 32
      · simp [hb, hlow, hbit]
      · have hne : ¬b - irq % 32 = 0 := by omega
        simp [hb, hlow, hbit, hne]
  · rw [Function.update_of_ne hw]
    simp [hw]

/-- A claim of hart 0: the first of the highest priority among those that can be claimed, or zero if there
is none. -/
theorem busRead_claim (hc : cfg.RowsRight) (hzero : (s.pendingInterrupts 0).getLsbD 0 = false)
    {addr : ℕ} (hroute : cfg.route addr = some (.hartConfig, 1)) :
    ∃ irq t, s.busRead cfg addr = .ok (.ofNat 32 irq, t) ∧
      t.interruptPriorities = s.interruptPriorities ∧
      (irq = 0 ∧ (∀ j, ¬s.Claimable cfg 0 j) ∨
        Select.IsFirstMax (s.Claimable cfg 0) (fun j => (s.interruptPriorities j).toNat) irq) ∧
      ∀ w b, b < 32 → (t.pendingInterrupts w).getLsbD b =
        ((s.pendingInterrupts w).getLsbD b && decide (irq = 0 ∨ w ≠ irq / 32 ∨ b ≠ irq % 32)) := by
  obtain ⟨irq, hnext, hspec⟩ := @hartGetNextPendingInterrupt_spec cfg s hc 0 cfg.cores_pos false
  have hP : s.Claimable cfg 0 = fun j => 0 < j ∧ j < cfg.numberInterrupts ∧
      s.candidate cfg 0 false j = true := by
    funext j
    exact propext claimable_iff
  have hlt : irq < cfg.numberInterrupts := by
    rcases hspec with ⟨rfl, -⟩ | hmax
    · exact hc.interrupts_pos
    · exact hmax.mem.2.1
  obtain ⟨t, hclear, ht, hbits⟩ := @clearPendingInterrupt_spec cfg
    { s with hartConfig := Function.update s.hartConfig 1 (.ofNat 32 irq) } hc irq hlt
  have hpre : s.preReadHartConfig cfg 1 = .ok t := by
    unfold preReadHartConfig
    rw [if_pos (by decide), hnext]
    show (if cfg.numberCores ≤ 0 then _ else _) = _
    rw [if_neg (by have := cfg.cores_pos; omega)]
    exact hclear
  have hanswer : t.hartConfig 1 = .ofNat 32 irq :=
    (congrArg (fun u => hartConfig u 1) ht).trans (Function.update_self 1 _ s.hartConfig)
  have hread : s.busRead cfg addr = .ok (t.hartConfig 1, t) := by
    unfold busRead
    rw [hroute]
    dsimp only
    rw [hpre]
    rfl
  have hprio := congrArg interruptPriorities ht
  refine ⟨irq, t, hanswer ▸ hread, hprio, ?_, fun w b hb => ?_⟩
  · rw [hP]
    rcases hspec with ⟨h0, hnone⟩ | hmax
    · exact Or.inl ⟨h0, fun j hj => hnone j hj.1 hj.2.1 hj.2.2⟩
    · exact Or.inr hmax
  · rw [hbits w b hb]
    by_cases h0 : irq = 0
    · -- the bit of interrupt 0 is cleared, and it is never set
      subst h0
      by_cases hb0 : w = 0 ∧ b = 0
      · rw [hb0.1, hb0.2, hzero]
        simp
      · simp only [Nat.zero_div, Nat.zero_mod, true_or, decide_true, Bool.and_true]
        rw [decide_eq_true (by omega), Bool.and_true]
    · simp [h0]

/-! ### Completions -/

/-- A completion of hart 0: the line is set anew, by what is pending and enabled then. -/
theorem busWrite_complete (hc : cfg.RowsRight) {addr : ℕ} {value : BitVec 32}
    (hroute : cfg.route addr = some (.hartConfig, 1))
    (hok : s.hartEip 0 = true ∨ ∀ irq, ¬s.Eligible cfg 0 irq) :
    ∃ t, s.busWrite cfg addr value = .ok t ∧ t.interruptPriorities = s.interruptPriorities ∧
      t.pendingInterrupts = s.pendingInterrupts ∧
      (t.lines 0 = true ↔ ∃ irq, s.Eligible cfg 0 irq) ∧
      ∀ hart', hart' ≠ 0 → t.lines hart' = s.lines hart' ∧ t.hartEip hart' = s.hartEip hart' := by
  set s' : Fe310Plic := { s with hartConfig := Function.update s.hartConfig 1 value } with hs'
  -- the word that is written is not the threshold
  have hsame : ∀ irq, s'.Eligible cfg 0 irq ↔ s.Eligible cfg 0 irq := by
    intro irq
    rw [eligible_iff, eligible_iff]
    rfl
  obtain ⟨has, heq, hhas⟩ := @hartHasPendingEnabledInterrupts_spec cfg s' hc 0 cfg.cores_pos
  simp only [hsame] at hhas
  have hwrite : s.busWrite cfg addr value = (if has then
      if s.hartEip 0 then .ok { s' with lines := Function.update s.lines 0 true } else .error .hartEip
      else .ok { s' with
        hartEip := Function.update s.hartEip 0 false, lines := Function.update s.lines 0 false }) := by
    unfold busWrite
    rw [hroute]
    show s'.postWriteHartConfig cfg 1 = _
    unfold postWriteHartConfig
    rw [if_pos (by decide)]
    show (s'.hartHasPendingEnabledInterrupts cfg 0 >>= _) = _
    rw [heq]
    show (if cfg.numberCores ≤ 0 then _ else _) = _
    rw [if_neg (by have := cfg.cores_pos; omega)]
  cases has with
  | true =>
    have hex : ∃ irq, s.Eligible cfg 0 irq := hhas.mp rfl
    have heip : s.hartEip 0 = true := hok.resolve_right fun hnone => hex.elim hnone
    rw [if_pos rfl, heip, if_pos rfl] at hwrite
    refine ⟨_, hwrite, rfl, rfl, iff_of_true ?_ hex, fun hart' hne => ?_⟩
    · exact Function.update_self 0 true s.lines
    · exact ⟨Function.update_of_ne hne _ _, rfl⟩
  | false =>
    have hnone : ¬∃ irq, s.Eligible cfg 0 irq := fun hex => Bool.false_ne_true (hhas.mpr hex)
    rw [if_neg (by decide)] at hwrite
    refine ⟨_, hwrite, rfl, rfl, iff_of_false ?_ hnone, fun hart' hne => ?_⟩
    · dsimp only
      rw [Function.update_self]
      decide
    · exact ⟨Function.update_of_ne hne _ _, Function.update_of_ne hne _ _⟩

/-! ### The loop of `run` -/

theorem runHart_spec (hc : cfg.RowsRight) {i : ℕ} (hi : i < cfg.numberCores) (s : Fe310Plic) :
    ∃ t, runHart cfg s i = .ok t ∧ t.interruptPriorities = s.interruptPriorities ∧
      t.pendingInterrupts = s.pendingInterrupts := by
  unfold runHart
  split_ifs with heip
  · exact ⟨s, rfl, rfl, rfl⟩
  · obtain ⟨has, heq, -⟩ := @hartHasPendingEnabledInterrupts_spec cfg s hc i hi
    rw [heq]
    cases has with
    | true => exact ⟨_, rfl, rfl, rfl⟩
    | false => exact ⟨_, rfl, rfl, rfl⟩

theorem foldlM_runHart_spec (hc : cfg.RowsRight) {harts : List ℕ}
    (hharts : ∀ i ∈ harts, i < cfg.numberCores) (s : Fe310Plic) :
    ∃ t, harts.foldlM (runHart cfg) s = .ok t ∧ t.interruptPriorities = s.interruptPriorities ∧
      t.pendingInterrupts = s.pendingInterrupts := by
  induction harts generalizing s with
  | nil => exact ⟨s, rfl, rfl, rfl⟩
  | cons i harts ih =>
    obtain ⟨t, heq, hprio, hpend⟩ := runHart_spec hc (hharts i List.mem_cons_self) s
    obtain ⟨t', heq', hprio', hpend'⟩ := ih (fun j hj => hharts j (List.mem_cons_of_mem _ hj)) t
    refine ⟨t', ?_, hprio'.trans hprio, hpend'.trans hpend⟩
    rw [List.foldlM_cons, heq]
    exact heq'

theorem run_spec (hc : cfg.RowsRight) : ∃ t, s.run cfg = .ok t ∧
    t.interruptPriorities = s.interruptPriorities ∧ t.pendingInterrupts = s.pendingInterrupts := by
  unfold run
  split_ifs with hrun
  · exact foldlM_runHart_spec hc (fun i hi => List.mem_range.mp hi) _
  · exact ⟨s, rfl, rfl, rfl⟩

/-! ### Steps -/

/-- Priorities are in range, and interrupt 0 is not pending. -/
structure Inv (cfg : Fe310Config) (s : Fe310Plic) : Prop where
  prio : ∀ i ≤ cfg.numberInterrupts, s.interruptPriorities i ≤ cfg.maxPriority
  zero : (s.pendingInterrupts 0).getLsbD 0 = false

theorem Inv.congr {t : Fe310Plic} (hi : s.Inv cfg) (hprio : t.interruptPriorities = s.interruptPriorities)
    (hpend : t.pendingInterrupts = s.pendingInterrupts) : t.Inv cfg :=
  ⟨by rw [hprio]; exact hi.prio, by rw [hpend]; exact hi.zero⟩

theorem Inv.trigger (hi : s.Inv cfg) {irq : ℕ} {t : Fe310Plic}
    (h : s.gatewayTriggerInterrupt cfg irq = .ok t) : t.Inv cfg := by
  unfold gatewayTriggerInterrupt pendingAt at h
  split_ifs at h with hirq hidx
  · cases h
    refine ⟨hi.prio, ?_⟩
    dsimp only
    by_cases hw : 0 = irq / 32
    · have hne : ¬irq % 32 = 0 := by omega
      rw [← hw, Function.update_self, BitVec.getLsbD_or, hi.zero, BitVec.getLsbD_shiftLeft]
      simp [Nat.pos_iff_ne_zero.mpr hne]
    · rw [Function.update_of_ne hw]
      exact hi.zero
  · cases h

/-- A write to a priority keeps the invariant, if the one of the last interrupt is not above the highest
priority. -/
theorem Inv.writePriority (hi : s.Inv cfg) {idx : ℕ} {value : BitVec 32}
    (hok : idx = cfg.numberInterrupts → value ≤ cfg.maxPriority) :
    ({ s with interruptPriorities := Function.update s.interruptPriorities idx value
      }.postWriteInterruptPriorities cfg).Inv cfg := by
  refine ⟨fun i hle => ?_, hi.zero⟩
  unfold postWriteInterruptPriorities
  dsimp only
  split_ifs with hclamp
  · exact BitVec.le_refl _
  · rcases Nat.lt_or_eq_of_le hle with hlt | rfl
    · exact BitVec.not_lt.mp fun hgt => hclamp ⟨hlt, hgt⟩
    · -- the last priority is not clamped
      by_cases heq : cfg.numberInterrupts = idx
      · rw [heq, Function.update_self]
        exact hok heq.symm
      · rw [Function.update_of_ne heq]
        exact hi.prio _ (le_refl _)

theorem step_of_ok {e : Fe310Event} {t : Fe310Plic} (h : s.exec cfg e = .ok t) :
    s.step cfg e = (none, t) := by
  unfold step
  rw [h]

theorem step_of_error {e : Fe310Event} {err : Fe310Error} (h : s.exec cfg e = .error err) :
    s.step cfg e = (some err, s) := by
  unfold step
  rw [h]

/-- The simulation goes on with the invariant, or ends for another reason than a wrong index or the
assertion of a completion. -/
def Safe (cfg : Fe310Config) (s : Fe310Plic) (e : Fe310Event) : Prop :=
  (∃ t, s.exec cfg e = .ok t ∧ t.Inv cfg) ∨
    ∃ err, s.exec cfg e = .error err ∧ err ≠ .index ∧ err ≠ .hartEip

theorem Safe.step (hi : s.Inv cfg) {e : Fe310Event} (h : s.Safe cfg e) :
    (s.step cfg e).2.Inv cfg ∧ (s.step cfg e).1 ≠ some .index ∧
      (s.step cfg e).1 ≠ some .hartEip := by
  rcases h with ⟨t, hx, hinv⟩ | ⟨err, hx, h1, h2⟩
  · rw [step_of_ok hx]
    exact ⟨hinv, by simp, by simp⟩
  · rw [step_of_error hx]
    exact ⟨hi, by simpa using h1, by simpa using h2⟩

theorem safe_trigger (hc : cfg.RowsRight) (hi : s.Inv cfg) (irq : ℕ) : s.Safe cfg (.trigger irq) := by
  cases hx : s.gatewayTriggerInterrupt cfg irq with
  | ok t => exact Or.inl ⟨t, hx, hi.trigger hx⟩
  | error err =>
    refine Or.inr ⟨err, hx, ?_⟩
    unfold gatewayTriggerInterrupt at hx
    split_ifs at hx with hirq
    · cases hx
      simp
    · rw [pendingAt_eq hc (by omega)] at hx
      cases hx

theorem safe_run (hc : cfg.RowsRight) (hi : s.Inv cfg) : s.Safe cfg .run := by
  obtain ⟨t, hx, hprio, hpend⟩ := @run_spec cfg s hc
  exact Or.inl ⟨t, hx, hi.congr hprio hpend⟩

theorem safe_read (hc : cfg.RowsRight) (hi : s.Inv cfg) {addr : ℕ} (hok : s.StepOk cfg (.read addr)) :
    s.Safe cfg (.read addr) := by
  have hexec : ∀ {x t}, s.busRead cfg addr = .ok (x, t) → s.exec cfg (.read addr) = .ok t := by
    intro x t hread
    rw [exec, hread]
    rfl
  cases hroute : cfg.route addr with
  | none =>
    refine Or.inr ⟨.route, ?_, by simp, by simp⟩
    rw [exec, busRead, hroute]
    rfl
  | some r =>
    left
    obtain ⟨range, idx⟩ := r
    by_cases hclaim : range = .hartConfig ∧ idx % 2 = 1
    · obtain ⟨rfl, hodd⟩ := hclaim
      obtain rfl := hok idx hroute hodd
      obtain ⟨irq, t, hread, hprio, -, hbits⟩ := busRead_claim hc hi.zero hroute
      refine ⟨t, hexec hread, by rw [hprio]; exact hi.prio, ?_⟩
      rw [hbits 0 0 (by decide), hi.zero]
      rfl
    · refine ⟨s, ?_, hi⟩
      apply hexec (x := s.word range idx)
      unfold busRead
      rw [hroute]
      cases range with
      | hartConfig =>
        unfold preReadHartConfig
        dsimp only
        rw [if_neg fun hodd => hclaim ⟨rfl, hodd⟩]
        rfl
      | interruptPriorities => rfl
      | pendingInterrupts => rfl
      | hartEnabledInterrupts => rfl

theorem safe_write (hc : cfg.RowsRight) (hi : s.Inv cfg) {addr : ℕ} {value : BitVec 32}
    (hok : s.StepOk cfg (.write addr value)) : s.Safe cfg (.write addr value) := by
  unfold Safe
  rw [show s.exec cfg (.write addr value) = s.busWrite cfg addr value from rfl]
  cases hroute : cfg.route addr with
  | none =>
    refine Or.inr ⟨.route, ?_, by simp, by simp⟩
    rw [busWrite, hroute]
  | some r =>
    obtain ⟨range, idx⟩ := r
    cases range with
    | pendingInterrupts =>
      refine Or.inr ⟨.readonly, ?_, by simp, by simp⟩
      rw [busWrite, hroute]
    | interruptPriorities =>
      refine Or.inl ⟨_, by rw [busWrite, hroute], hi.writePriority ?_⟩
      rintro rfl
      exact hok.1 hroute
    | hartEnabledInterrupts =>
      left
      refine ⟨{ s with
        hartEnabledInterrupts := Function.update s.hartEnabledInterrupts idx value }, ?_, hi.prio, hi.zero⟩
      rw [busWrite, hroute]
    | hartConfig =>
      left
      by_cases hodd : idx % 2 = 1
      · obtain ⟨rfl, heip⟩ := hok.2 idx hroute hodd
        obtain ⟨t, hx, hprio, hpend, -⟩ := @busWrite_complete cfg s hc addr value hroute heip
        exact ⟨t, hx, hi.congr hprio hpend⟩
      · refine ⟨{ s with hartConfig := Function.update s.hartConfig idx value }, ?_, hi.prio, hi.zero⟩
        rw [busWrite, hroute]
        exact if_neg hodd

theorem safe_of_stepOk (hc : cfg.RowsRight) (hi : s.Inv cfg) {e : Fe310Event}
    (hok : s.StepOk cfg e) : s.Safe cfg e := by
  cases e with
  | trigger irq => exact safe_trigger hc hi irq
  | read addr => exact safe_read hc hi hok
  | write addr value => exact safe_write hc hi hok
  | run => exact safe_run hc hi

/-- What is written to the words of one hart is not looked at for another. -/
theorem enabledAt_update (hc : cfg.RowsRight) {hart w irq : ℕ} (hh : hart < cfg.numberCores)
    (hne : hart ≠ w / cfg.numberInterruptEntries) (hi : irq < cfg.numberInterrupts)
    (value : BitVec 32) :
    { s with hartEnabledInterrupts := Function.update s.hartEnabledInterrupts w value }.enabledAt cfg hart
      (irq / 32) = s.enabledAt cfg hart (irq / 32) := by
  have hle := hc.interrupts_le
  rw [enabledAt_eq hc hh hi, enabledAt_eq hc hh hi]
  dsimp only
  rw [Function.update_of_ne]
  rintro rfl
  apply hne
  rw [Nat.mul_comm, Nat.mul_add_div cfg.entries_pos, Nat.div_eq_of_lt (by omega), Nat.add_zero]

/-- **A step that keeps away from the defects** serves the harts right. -/
theorem step_servesRight (hc : cfg.RowsRight) (hi : s.Inv cfg) {e : Fe310Event}
    (hok : s.StepOk cfg e) : s.ServesRight cfg e ∧ (s.step cfg e).2.Inv cfg := by
  obtain ⟨hinv, hindex, heip⟩ := (safe_of_stepOk hc hi hok).step hi
  refine ⟨⟨?_, ?_, ?_, hindex, heip, hinv.prio⟩, hinv⟩
  · rintro addr hart rfl hroute
    have h1 := hok (2 * hart + 1) hroute (by omega)
    obtain rfl : hart = 0 := by omega
    obtain ⟨irq, t, hread, -, hbest, hbits⟩ := busRead_claim hc hi.zero hroute
    exact ⟨irq, t, hread, hbest, hbits⟩
  · rintro addr value w rfl hroute hart hh hne irq hirq
    have hx : s.exec cfg (.write addr value) = .ok
        { s with hartEnabledInterrupts := Function.update s.hartEnabledInterrupts w value } := by
      rw [exec, busWrite, hroute]
    rw [step_of_ok hx]
    exact enabledAt_update hc hh hne hirq value
  · rintro addr value hart rfl hroute
    obtain ⟨h1, hready⟩ := hok.2 (2 * hart + 1) hroute (by omega)
    obtain rfl : hart = 0 := by omega
    obtain ⟨t, hwrite, -, -, hline, hother⟩ := @busWrite_complete cfg s hc addr value hroute hready
    have hx : s.exec cfg (.write addr value) = .ok t := hwrite
    rw [step_of_ok hx]
    exact ⟨hline, hother⟩

theorem inv_start : start.Inv cfg := ⟨fun _ _ => BitVec.le_def.mpr (Nat.zero_le _), rfl⟩

/-- **Harts are served by their own configuration** in every run of an instantiation with right rows in
which only hart 0 claims and completes, completions come after `run` has seen what is eligible, and the
last priority is in range. -/
theorem serves_of_stepOk (hc : cfg.RowsRight) {es : List Fe310Event}
    (hes : Run.Along (StepOk cfg) (step cfg) start es) :
    Run.Along (ServesRight cfg) (step cfg) start es :=
  Run.Along.of_invariant (Inv cfg) (fun _ _ hi hok => step_servesRight hc hi hok) inv_start hes

/-- The instantiation of `hifive_main.cpp`. -/
def hifive : Fe310Config := ⟨1, 53, 64, 7, by decide, by decide, by decide, by decide⟩

/-- Interrupt 3 gets pending, is enabled after `run` has looked, and an interrupt is completed. -/
def lateEnable : List Fe310Event :=
  [.write 0xC 1, .trigger 3, .run, .write 0x2000 8, .write 0x200004 3]

/-- The assertion of the completion fails. -/
theorem not_serves_lateEnable :
    ¬Run.Along (ServesRight hifive) (step hifive) start lateEnable := by
  intro h
  have hlast := (h.2.2.2.2.1).eip
  exact hlast (by decide)

/-- The same, enabled in time and claimed before it is completed. -/
theorem serves_of_stepOk_claim :
    Run.Along (ServesRight hifive) (step hifive) start
      [.write 0xC 1, .write 0x2000 8, .trigger 3, .run, .read 0x200004, .write 0x200004 3] := by
  have hc : hifive.RowsRight := ⟨by decide, by decide, by decide⟩
  refine serves_of_stepOk hc ⟨?_, ?_, trivial, trivial, ?_, ?_, trivial⟩
  · exact ⟨by decide, fun idx hroute => by cases hroute⟩
  · exact ⟨by decide, fun idx hroute => by cases hroute⟩
  · intro idx hroute hodd
    cases hroute
    rfl
  · refine ⟨by decide, fun idx hroute hodd => ?_⟩
    cases hroute
    exact ⟨rfl, Or.inl (by decide)⟩

end Fe310Plic

end RiscvVp
