import RiscvVp.Plic.Basic
import RiscvVp.Lib.Run

/-!
# Interrupts that are signalled

`Plic.Signalled` says that no interrupt is lost: unless a notification of `run` is outstanding, the
line of a hart and level is asserted if an interrupt is deliverable there.  The controller evaluates its
registers only in `run`, for one level of a hart, and only after a gateway has been triggered, and a
completion clears the line whatever is pending.  `Plic.StepOk` names the steps after which nothing is
lost, and `Plic.signalled_iff` says that a run keeps `Signalled` exactly if its steps are such steps.
-/

namespace RiscvVp.Plic

variable (cfg : PlicConfig) (s : Plic)

/-- The interrupt is pending, enabled for the hart and level, and has a priority above the threshold. -/
structure Deliverable (hart : ℕ) (level : PrivilegeLevel) (irq : ℕ) : Prop where
  pos : 0 < irq
  le : irq ≤ cfg.numirq
  pending : s.isPending irq = true
  enabled : s.isEnabled cfg hart level irq = true
  above : s.getThreshold cfg hart level < s.prio irq

/-- No interrupt is lost: when the thread rests, every hart with a deliverable interrupt has its line set. -/
def Signalled : Prop :=
  s.eRun = false → ∀ hart < cfg.harts, ∀ level, cfg.Supports hart level → ∀ irq,
    s.Deliverable cfg hart level irq → s.lines hart level = true

/-- The write of words to a range lets an interrupt through: it enables a pending interrupt of
sufficient priority, raises the priority of a pending and enabled interrupt above the threshold, or
lowers the threshold below the priority of such an interrupt. -/
def LetsThrough (range : PlicRange) (addr : ℕ) (data : List (BitVec 32)) (hart : ℕ)
    (level : PrivilegeLevel) (irq : ℕ) : Prop :=
  s.isPending irq = true ∧
    match range with
    | .enabledIrqs hart' level' =>
      hart = hart' ∧ level = level' ∧ s.getThreshold cfg hart level < s.prio irq ∧
        addr / 4 ≤ irq / 32 ∧
          ∃ w, data[irq / 32 - addr / 4]? = some w ∧ (w &&& getOff irq != 0) = true
    | .interruptPriorities =>
      s.isEnabled cfg hart level irq = true ∧ addr / 4 ≤ irq - 1 ∧
        ∃ w, data[irq - 1 - addr / 4]? = some w ∧
          s.getThreshold cfg hart level < if irq - 1 = addr / 4 then clamp w else w
    | .hartContext hart' level' =>
      hart = hart' ∧ level = level' ∧ s.isEnabled cfg hart level irq = true ∧
        ∃ w, data = [w] ∧ clamp w < s.prio irq
    | .pendingInterrupts => False

/-- The step does not lose an interrupt.

* `run` does not find both levels of a hart deliverable, or the line of machine mode is asserted.
* Nothing is deliverable where an interrupt is completed.
* A write to another register does not let an interrupt through where the line is not asserted.

Writes lose nothing while a notification is outstanding. -/
def StepOk : PlicEvent → Prop
  | .trigger _ => True
  | .read _ _ => True
  | .run => s.eRun = true → ∀ hart < cfg.harts, cfg.Supports hart .supervisor → ∀ irq irq',
      s.Deliverable cfg hart .supervisor irq → s.Deliverable cfg hart .machine irq' →
        s.lines hart .machine = true
  | .write addr data => s.eRun = false → ∀ range addr',
      cfg.route addr (4 * data.length) = some (range, addr') →
        (∀ hart level, range = .hartContext hart level → isClaimAccess addr' = true →
          data.length = 1 → ∀ irq, ¬s.Deliverable cfg hart level irq) ∧
        ((∀ hart level, range = .hartContext hart level → isClaimAccess addr' = false) →
          ∀ hart < cfg.harts, ∀ level, cfg.Supports hart level → ∀ irq, 0 < irq → irq ≤ cfg.numirq →
            s.LetsThrough cfg range addr' data hart level irq → s.lines hart level = true)

variable {cfg s}

/-- What is deliverable depends on the registers only. -/
theorem Deliverable.of_registers {t : Plic} {hart irq : ℕ} {level : PrivilegeLevel}
    (h : s.Deliverable cfg hart level irq) (hprio : t.interruptPriorities = s.interruptPriorities)
    (hpend : t.pendingInterrupts = s.pendingInterrupts) (hen : t.enabledIrqs = s.enabledIrqs)
    (hctx : t.hartContext = s.hartContext) : t.Deliverable cfg hart level irq := by
  obtain ⟨h1, h2, h3, h4, h5⟩ := h
  unfold isPending at h3
  unfold isEnabled at h4
  unfold getThreshold prio at h5
  rw [← hpend] at h3
  rw [← hen] at h4
  rw [← hctx, ← hprio] at h5
  exact ⟨h1, h2, h3, h4, h5⟩

/-! ### The selection of an interrupt -/

theorem Deliverable.prio_pos {hart irq : ℕ} {level : PrivilegeLevel}
    (h : s.Deliverable cfg hart level irq) : 0 < s.prio irq := by
  have habove := BitVec.lt_def.mp h.above
  rw [BitVec.lt_def]
  exact lt_of_le_of_lt (Nat.zero_le _) habove

/-- The loop selects an interrupt if there is one; a selected interrupt has a positive priority. -/
theorem foldl_selectIrq_pos {hart : ℕ} {level : PrivilegeLevel} {irqs : List ℕ}
    (hirqs : ∀ irq ∈ irqs, 0 < irq ∧ irq ≤ cfg.numirq) {sel : ℕ × BitVec 32}
    (hsel : sel.1 = 0 → sel.2 = 0) :
    0 < (irqs.foldl (s.selectIrq cfg hart level false) sel).1 ↔
      0 < sel.1 ∨ ∃ irq ∈ irqs, s.Deliverable cfg hart level irq := by
  induction irqs generalizing sel with
  | nil => simp
  | cons irq irqs ih =>
    obtain ⟨hpos, hle⟩ := hirqs irq List.mem_cons_self
    have hrest : ∀ i ∈ irqs, 0 < i ∧ i ≤ cfg.numirq := fun i hi =>
      hirqs i (List.mem_cons_of_mem _ hi)
    rw [List.foldl_cons, List.exists_mem_cons_iff]
    -- a deliverable interrupt is selected, or one of a higher priority is selected already
    by_cases hd : s.Deliverable cfg hart level irq
    · have hskip : ¬(s.prio irq ≤ s.getThreshold cfg hart level) := BitVec.not_le.mpr hd.above
      by_cases hmax : sel.2 < s.prio irq
      · have hnew : s.selectIrq cfg hart level false sel irq = (irq, s.prio irq) := by
          simp [selectIrq, hd.enabled, hd.pending, hskip, hmax]
        rw [hnew, ih hrest (by omega)]
        exact iff_of_true (Or.inl hpos) (Or.inr (Or.inl hd))
      · have hold : s.selectIrq cfg hart level false sel irq = sel := by
          simp [selectIrq, hd.enabled, hd.pending, hskip, hmax]
        have hsel1 : 0 < sel.1 := by
          rw [Nat.pos_iff_ne_zero]
          intro h0
          rw [hsel h0] at hmax
          exact hmax hd.prio_pos
        rw [hold, ih hrest hsel]
        exact iff_of_true (Or.inl hsel1) (Or.inl hsel1)
    · -- the loop passes over it
      have hold : s.selectIrq cfg hart level false sel irq = sel := by
        unfold selectIrq
        split_ifs with h1 h2 h3
        · rfl
        · rfl
        · simp only [Bool.or_eq_true, Bool.not_eq_true', not_or, Bool.not_eq_false] at h1
          simp only [Bool.not_false, Bool.true_and, decide_eq_true_eq, BitVec.not_le] at h2
          exact absurd ⟨hpos, hle, h1.2, h1.1, h2⟩ hd
        · rfl
      rw [hold, ih hrest hsel]
      simp only [hd, false_or]

theorem nextPendingIrq_pos_iff {hart : ℕ} {level : PrivilegeLevel} :
    0 < s.nextPendingIrq cfg hart level false ↔ ∃ irq, s.Deliverable cfg hart level irq := by
  have hmem : ∀ irq ∈ List.range' 1 cfg.numirq, 0 < irq ∧ irq ≤ cfg.numirq := by
    intro irq hirq
    rw [List.mem_range'_1] at hirq
    omega
  rw [nextPendingIrq, foldl_selectIrq_pos hmem (fun _ => rfl)]
  simp only [lt_self_iff_false, false_or]
  constructor
  · rintro ⟨irq, -, hd⟩
    exact ⟨irq, hd⟩
  · rintro ⟨irq, hd⟩
    have hle := hd.le
    have hpos := hd.pos
    exact ⟨irq, List.mem_range'_1.mpr ⟨hpos, by omega⟩, hd⟩

theorem hasPendingIrq_eq_supervisor {hart : ℕ} :
    s.hasPendingIrq cfg hart = some .supervisor ↔
      cfg.Supports hart .supervisor ∧ ∃ irq, s.Deliverable cfg hart .supervisor irq := by
  have hsup : cfg.Supports hart .supervisor ↔ (!cfg.fu540Mode || hart != 0) = true := by
    simp [PlicConfig.Supports, imp_iff_not_or]
  rw [hsup, ← nextPendingIrq_pos_iff]
  unfold hasPendingIrq
  split_ifs with h1 h2
  · simpa using h1
  · simpa using h1
  · simpa using h1

theorem hasPendingIrq_eq_machine {hart : ℕ} :
    s.hasPendingIrq cfg hart = some .machine ↔
      s.hasPendingIrq cfg hart ≠ some .supervisor ∧
        ∃ irq, s.Deliverable cfg hart .machine irq := by
  rw [← nextPendingIrq_pos_iff]
  unfold hasPendingIrq
  split_ifs with h1 h2
  · simp
  · simpa using h2
  · simpa using h2

/-! ### The loop of `run` -/

theorem runHart_hasPendingIrq (s : Plic) (hart hart' : ℕ) :
    (runHart cfg s hart).hasPendingIrq cfg hart' = s.hasPendingIrq cfg hart' := by
  unfold runHart
  split <;> rfl

theorem runHart_lines (s : Plic) (hart hart' : ℕ) (level : PrivilegeLevel) :
    (runHart cfg s hart).lines hart' level = true ↔
      s.lines hart' level = true ∨ hart' = hart ∧ s.hasPendingIrq cfg hart = some level := by
  unfold runHart
  cases hp : s.hasPendingIrq cfg hart with
  | none => simp
  | some l =>
    by_cases hh : hart' = hart
    · subst hh
      by_cases hl : level = l
      · subst hl
        simp [setLine]
      · simp [setLine, Function.update_of_ne hl, Ne.symm hl]
    · simp [setLine, hh]

theorem foldl_runHart_lines (harts : List ℕ) (s : Plic) (hart : ℕ) (level : PrivilegeLevel) :
    (harts.foldl (runHart cfg) s).lines hart level = true ↔
      s.lines hart level = true ∨ hart ∈ harts ∧ s.hasPendingIrq cfg hart = some level := by
  induction harts generalizing s with
  | nil => simp
  | cons h harts ih =>
    rw [List.foldl_cons, ih, runHart_lines, runHart_hasPendingIrq, List.mem_cons]
    constructor
    · rintro ((hl | ⟨rfl, hp⟩) | ⟨hmem, hp⟩)
      · exact Or.inl hl
      · exact Or.inr ⟨Or.inl rfl, hp⟩
      · exact Or.inr ⟨Or.inr hmem, hp⟩
    · rintro (hl | ⟨rfl | hmem, hp⟩)
      · exact Or.inl (Or.inl hl)
      · exact Or.inl (Or.inr ⟨rfl, hp⟩)
      · exact Or.inr ⟨hmem, hp⟩

/-- The loop over the harts writes lines only, each by what is deliverable to its hart. -/
theorem foldl_runHart_eq (harts : List ℕ) (s : Plic) :
    harts.foldl (runHart cfg) s = { s with lines := (harts.foldl (runHart cfg) s).lines } := by
  induction harts generalizing s with
  | nil => rfl
  | cons h harts ih =>
    rw [List.foldl_cons, ih]
    unfold runHart
    split <;> rfl

theorem Signalled.run_iff :
    (s.run cfg).Signalled cfg ↔ (s.eRun = false → s.Signalled cfg) ∧ s.StepOk cfg .run := by
  unfold run
  cases hrun : s.eRun with
  | false =>
    simp only [Bool.false_eq_true, if_false, StepOk, hrun, forall_const, false_imp_iff, and_true]
  | true =>
    rw [if_pos rfl, foldl_runHart_eq]
    simp only [StepOk, hrun, forall_const, Bool.true_eq_false, false_imp_iff, true_and]
    have hlines := @foldl_runHart_lines cfg (List.range cfg.harts) { s with eRun := false }
    constructor
    · intro h hart hh hsup irq irq' hS hM
      have hon := h rfl hart hh .machine (Or.inl rfl) irq' (hM.of_registers rfl rfl rfl rfl)
      rw [hlines] at hon
      refine hon.resolve_right fun hp => ?_
      exact (hasPendingIrq_eq_machine.mp hp.2).1
        (hasPendingIrq_eq_supervisor.mpr ⟨hsup, irq, hS.of_registers rfl rfl rfl rfl⟩)
    · intro hok _ hart hh level hsup irq hd
      have hd : s.Deliverable cfg hart level irq := hd.of_registers rfl rfl rfl rfl
      rw [hlines]
      rcases hsup with rfl | ⟨rfl, hfu⟩
      · by_cases hS : s.hasPendingIrq cfg hart = some .supervisor
        · obtain ⟨hsup, irq', hS⟩ := hasPendingIrq_eq_supervisor.mp hS
          exact Or.inl (hok hart hh hsup irq' irq hS hd)
        · exact Or.inr ⟨List.mem_range.mpr hh, hasPendingIrq_eq_machine.mpr
            ⟨hS, irq, hd.of_registers rfl rfl rfl rfl⟩⟩
      · exact Or.inr ⟨List.mem_range.mpr hh,
          hasPendingIrq_eq_supervisor.mpr
            ⟨Or.inr ⟨rfl, hfu⟩, irq, hd.of_registers rfl rfl rfl rfl⟩⟩

/-! ### Reads -/

theorem isPending_of_clearPending {irq irq' : ℕ} (h : (s.clearPending irq).isPending irq' = true) :
    s.isPending irq' = true := by
  unfold isPending at *
  rw [bne_iff_ne] at *
  intro h0
  refine h ?_
  by_cases hi : irq' / 32 = irq / 32
  · rw [hi] at h0 ⊢
    rw [clearPending]
    dsimp only
    rw [Function.update_self, BitVec.and_assoc, BitVec.and_comm (~~~_), ← BitVec.and_assoc, h0]
    exact BitVec.zero_and
  · rw [clearPending]
    dsimp only
    rw [Function.update_of_ne hi, h0]

/-- A claim writes the second word of the context, the threshold is the first. -/
theorem getThreshold_setClaim {hart hart' : ℕ} {level level' : PrivilegeLevel} {irq : BitVec 32} :
    (s.setContext hart level (Function.update (s.hartContext hart level) 1 irq)).getThreshold cfg hart'
      level' = s.getThreshold cfg hart' level' := by
  unfold getThreshold setContext
  dsimp only
  by_cases hh : hart' = hart
  · subst hh
    rw [Function.update_self]
    by_cases hl : viewLevel cfg hart' level' = level
    · rw [hl, Function.update_self, Function.update_of_ne zero_ne_one]
    · rw [Function.update_of_ne hl]
  · rw [Function.update_of_ne hh]

/-- A read may take a pending interrupt away and keeps everything else that matters. -/
theorem exec_read_spec {addr len : ℕ} {t : Plic} (h : s.exec cfg (.read addr len) = some t) :
    t.eRun = s.eRun ∧ t.lines = s.lines ∧ ∀ hart level irq,
      t.Deliverable cfg hart level irq → s.Deliverable cfg hart level irq := by
  have hself : s.eRun = s.eRun ∧ s.lines = s.lines ∧ ∀ hart level irq,
      s.Deliverable cfg hart level irq → s.Deliverable cfg hart level irq :=
    ⟨rfl, rfl, fun _ _ _ => id⟩
  rw [exec, busRead] at h
  split at h
  · cases h
  · rename_i hart level addr' hroute
    unfold readHartctx at h
    split_ifs at h with h1 h2 h3
    · cases h
      exact hself
    · generalize s.nextPendingIrq cfg hart level true = irq at h
      dsimp only at h
      by_cases hirq : irq = 0
      · rw [if_neg (not_not.mpr hirq)] at h
        cases h
        exact ⟨rfl, rfl, fun hart' level' irq' hd =>
          ⟨hd.pos, hd.le, hd.pending, hd.enabled, getThreshold_setClaim ▸ hd.above⟩⟩
      · rw [if_pos hirq] at h
        cases h
        exact ⟨rfl, rfl, fun hart' level' irq' hd =>
          ⟨hd.pos, hd.le, isPending_of_clearPending hd.pending, hd.enabled,
            getThreshold_setClaim ▸ hd.above⟩⟩
  · cases h
    exact hself

/-! ### Writes -/

theorem memcpy_of_some {mem : ℕ → BitVec 32} {idx i : ℕ} {data : List (BitVec 32)} {w : BitVec 32}
    (hle : idx ≤ i) (hw : data[i - idx]? = some w) : memcpy mem idx data i = w := by
  rw [memcpy, if_pos hle, List.getD_eq_getElem?_getD, hw, Option.getD_some]

theorem memcpy_cases (mem : ℕ → BitVec 32) (idx : ℕ) (data : List (BitVec 32)) (i : ℕ) :
    memcpy mem idx data i = mem i ∨ idx ≤ i ∧ ∃ w, data[i - idx]? = some w := by
  by_cases hle : idx ≤ i
  · cases hw : data[i - idx]? with
    | none =>
      left
      rw [memcpy, if_pos hle, List.getD_eq_getElem?_getD, hw, Option.getD_none]
    | some w => exact Or.inr ⟨hle, w, rfl⟩
  · exact Or.inl (if_neg hle)

theorem viewLevel_of_supports {hart : ℕ} {level : PrivilegeLevel} (h : cfg.Supports hart level) :
    viewLevel cfg hart level = level := by
  unfold viewLevel
  split_ifs with hfu
  · rw [Bool.and_eq_true, beq_iff_eq] at hfu
    rcases h with rfl | ⟨-, hno⟩
    · rfl
    · exact absurd hfu hno
  · rfl

theorem mem_createHartRegs {range : ℕ → PrivilegeLevel → PlicRange} {inc hart addr n : ℕ}
    {r : ℕ × ℕ × PlicRange} (h : r ∈ cfg.createHartRegs range inc hart addr n) :
    ∃ hart' level, r.2 = (cfg.hartRegSize, range hart' level) ∧ hart' < hart + n ∧
      cfg.Supports hart' level := by
  induction n generalizing hart addr with
  | zero => cases h
  | succ n ih =>
    rw [PlicConfig.createHartRegs] at h
    split_ifs at h with hfu
    · rcases List.mem_cons.mp h with rfl | h
      · exact ⟨hart, .machine, rfl, by omega, Or.inl rfl⟩
      · obtain ⟨hart', level, hr, hlt, hsup⟩ := ih h
        exact ⟨hart', level, hr, by omega, hsup⟩
    · rcases List.mem_cons.mp h with rfl | h
      · exact ⟨hart, .machine, rfl, by omega, Or.inl rfl⟩
      rcases List.mem_cons.mp h with rfl | h
      · exact ⟨hart, .supervisor, rfl, by omega, Or.inr ⟨rfl, by simpa using hfu⟩⟩
      · obtain ⟨hart', level, hr, hlt, hsup⟩ := ih h
        exact ⟨hart', level, hr, by omega, hsup⟩

/-- A range that belongs to a hart is one of a hart that there is, for a level that it supports, and has
two words. -/
theorem supports_of_route {addr len local' : ℕ} {range : PlicRange}
    (h : cfg.route addr len = some (range, local')) {hart : ℕ} {level : PrivilegeLevel}
    (hr : range = .enabledIrqs hart level ∨ range = .hartContext hart level) :
    hart < cfg.harts ∧ cfg.Supports hart level ∧ local' + len ≤ 8 := by
  have hsize : cfg.hartRegSize = 8 := by
    have hpos := cfg.numirq_pos
    have hle := cfg.numirq_le
    rw [PlicConfig.hartRegSize]
    omega
  rw [PlicConfig.route] at h
  split at h
  · cases h
  rename_i start size range' hfind
  split_ifs at h with hin
  cases h
  -- the list of ranges was made of the harts and their levels
  have hmem := List.mem_of_find?_eq_some hfind
  rw [PlicConfig.registerRanges, List.mem_cons, List.mem_cons, List.mem_append] at hmem
  rcases hmem with hmem | hmem | hmem | hmem
  · cases hmem
    rcases hr with hr | hr <;> cases hr
  · cases hmem
    rcases hr with hr | hr <;> cases hr
  · obtain ⟨hart', level', heq, hlt, hsup⟩ := mem_createHartRegs hmem
    rw [Prod.mk.injEq] at heq
    rw [heq.2] at hr
    rcases hr with hr | hr
    · cases hr
      exact ⟨by omega, hsup, by omega⟩
    · cases hr
  · obtain ⟨hart', level', heq, hlt, hsup⟩ := mem_createHartRegs hmem
    rw [Prod.mk.injEq] at heq
    rw [heq.2] at hr
    rcases hr with hr | hr
    · cases hr
    · cases hr
      exact ⟨by omega, hsup, by omega⟩

theorem lt_of_lt_clamp {a v : BitVec 32} (h : a < clamp v) : a < v := by
  unfold clamp at h
  split_ifs at h with hmax
  · rw [BitVec.lt_def] at *
    omega
  · exact h

/-- A write to the threshold has four bytes, and what is stored is cut to the highest priority. -/
theorem writeHartctx_eq_some {t : Plic} {addr len hart : ℕ} {level : PrivilegeLevel}
    (hno : isClaimAccess addr = false) :
    s.writeHartctx addr len hart level = some t ↔ len = 4 ∧ t = s.setContext hart level
      (Function.update (s.hartContext hart level) 0 (clamp (s.hartContext hart level 0))) := by
  by_cases hlen : len = 4
  · simp [writeHartctx, hno, hlen, eq_comm]
  · simp [writeHartctx, hlen]

section

variable {range : PlicRange} {addr addr' : ℕ} {data : List (BitVec 32)} {t : Plic}

/-- The threshold is the first word of its range. -/
theorem div_four_of_threshold {addr : ℕ} (hno : isClaimAccess addr = false) (hlen : addr + 4 ≤ 8) :
    addr / 4 = 0 := by
  unfold isClaimAccess at hno
  rw [beq_eq_false_iff_ne] at hno
  omega

/-- After a write of priorities.  Only the first word that is written is clamped. -/
theorem Deliverable.of_writeIrqPrios {addr : ℕ} {hart irq : ℕ} {level : PrivilegeLevel}
    (ht : { s with interruptPriorities := memcpy s.interruptPriorities (addr / 4) data }.writeIrqPrios
      cfg addr = some t)
    (hd : t.Deliverable cfg hart level irq) :
    s.Deliverable cfg hart level irq ∨
      s.LetsThrough cfg .interruptPriorities addr data hart level irq := by
  obtain ⟨h1, h2, h3, h4, h5⟩ := hd
  rw [writeIrqPrios] at ht
  split_ifs at ht with hidx
  cases ht
  unfold prio at h5
  dsimp only at h5
  rcases memcpy_cases s.interruptPriorities (addr / 4) data (irq - 1) with hold | ⟨hle, w, hw⟩
  · -- the priority of this interrupt is not written, but may be clamped
    left
    refine ⟨h1, h2, h3, h4, ?_⟩
    by_cases hk : irq - 1 = addr / 4
    · rw [hk] at hold h5
      rw [Function.update_self, hold] at h5
      rw [prio, hk]
      exact lt_of_lt_clamp h5
    · rw [Function.update_of_ne hk, hold] at h5
      exact h5
  · right
    refine ⟨h3, h4, hle, w, hw, ?_⟩
    by_cases hk : irq - 1 = addr / 4
    · rw [if_pos hk]
      rw [hk] at h5 hle hw
      rw [Function.update_self, memcpy_of_some hle hw] at h5
      exact h5
    · rw [if_neg hk]
      rw [Function.update_of_ne hk, memcpy_of_some hle hw] at h5
      exact h5

/-- After a write of enable bits: what is deliverable then was so before, or is among the bits that were
just set. -/
theorem Deliverable.of_writeEnabled {addr : ℕ} {hart hart' irq : ℕ} {level level' : PrivilegeLevel}
    (hsup : cfg.Supports hart level)
    (hd : Deliverable cfg { s with
      enabledIrqs := Function.update s.enabledIrqs hart' (Function.update (s.enabledIrqs hart') level'
        (memcpy (s.enabledIrqs hart' level') (addr / 4) data)) } hart level irq) :
    s.Deliverable cfg hart level irq ∨
      s.LetsThrough cfg (.enabledIrqs hart' level') addr data hart level irq := by
  have hview := viewLevel_of_supports hsup
  obtain ⟨h1, h2, h3, h4, h5⟩ := hd
  unfold isEnabled at h4
  dsimp only at h4
  rw [hview] at h4
  by_cases hh : hart = hart' ∧ level = level'
  · obtain ⟨rfl, rfl⟩ := hh
    rw [Function.update_self, Function.update_self] at h4
    rcases memcpy_cases (s.enabledIrqs hart level) (addr / 4) data (irq / 32) with
      hold | ⟨hle, w, hw⟩
    · rw [hold] at h4
      exact Or.inl ⟨h1, h2, h3, by rw [isEnabled, hview]; exact h4, h5⟩
    · rw [memcpy_of_some hle hw] at h4
      exact Or.inr ⟨h3, rfl, rfl, h5, hle, w, hw, h4⟩
  · -- the bits of another hart or level
    refine Or.inl ⟨h1, h2, h3, ?_, h5⟩
    rw [isEnabled, hview]
    by_cases heq : hart = hart'
    · subst heq
      rw [Function.update_self, Function.update_of_ne (fun hl => hh ⟨rfl, hl⟩)] at h4
      exact h4
    · rw [Function.update_of_ne heq] at h4
      exact h4

/-- After a write of a threshold: what is deliverable then was so before, or lies between the new threshold
and the old one. -/
theorem Deliverable.of_writeThreshold {addr : ℕ} {hart hart' irq : ℕ} {level level' : PrivilegeLevel}
    (hsup : cfg.Supports hart level) (hlen : addr + 4 * data.length ≤ 8)
    (hno : isClaimAccess addr = false)
    (ht : (s.setContext hart' level'
      (memcpy (s.hartContext hart' level') (addr / 4) data)).writeHartctx addr (4 * data.length)
        hart' level' = some t)
    (hd : t.Deliverable cfg hart level irq) :
    s.Deliverable cfg hart level irq ∨
      s.LetsThrough cfg (.hartContext hart' level') addr data hart level irq := by
  have hview := viewLevel_of_supports hsup
  obtain ⟨h1, h2, h3, h4, h5⟩ := hd
  obtain ⟨hfour, rfl⟩ := (writeHartctx_eq_some hno).mp ht
  obtain ⟨w, rfl⟩ : ∃ w, data = [w] := List.length_eq_one_iff.mp (by omega)
  have hzero : addr / 4 = 0 := div_four_of_threshold hno (by simpa using hlen)
  unfold getThreshold setContext at h5
  dsimp only at h5
  rw [hview] at h5
  by_cases hh : hart = hart' ∧ level = level'
  · obtain ⟨rfl, rfl⟩ := hh
    rw [Function.update_self, Function.update_self, Function.update_self, hzero] at h5
    rw [Function.update_self, Function.update_self, memcpy_of_some le_rfl rfl] at h5
    exact Or.inr ⟨h3, rfl, rfl, h4, w, rfl, h5⟩
  · -- the threshold of another hart or level
    refine Or.inl ⟨h1, h2, h3, h4, ?_⟩
    rw [getThreshold, hview]
    by_cases heq : hart = hart'
    · subst heq
      have hne : level ≠ level' := fun hl => hh ⟨rfl, hl⟩
      rw [Function.update_self, Function.update_of_ne hne, Function.update_self,
        Function.update_of_ne hne] at h5
      exact h5
    · rw [Function.update_of_ne heq, Function.update_of_ne heq] at h5
      exact h5

/-- An interrupt that is deliverable after a write, not one to the claim register, was so before or has
been let through. -/
theorem Deliverable.of_busWrite (hroute : cfg.route addr (4 * data.length) = some (range, addr'))
    (hclaim : ∀ hart level, range = .hartContext hart level → isClaimAccess addr' = false)
    (ht : s.busWrite cfg addr data = some t) {hart irq : ℕ} {level : PrivilegeLevel}
    (hsup : cfg.Supports hart level) (hd : t.Deliverable cfg hart level irq) :
    s.Deliverable cfg hart level irq ∨ s.LetsThrough cfg range addr' data hart level irq := by
  rw [busWrite, hroute] at ht
  cases range with
  | pendingInterrupts =>
    cases ht
    exact Or.inl hd
  | interruptPriorities => exact hd.of_writeIrqPrios ht
  | enabledIrqs hart' level' =>
    cases ht
    exact Deliverable.of_writeEnabled hsup hd
  | hartContext hart' level' =>
    obtain ⟨-, -, hlen⟩ := supports_of_route hroute (Or.inr rfl)
    exact Deliverable.of_writeThreshold hsup hlen (hclaim hart' level' rfl) ht hd

/-- An interrupt that a write lets through is deliverable afterwards. -/
theorem LetsThrough.deliverable (hroute : cfg.route addr (4 * data.length) = some (range, addr'))
    (hclaim : ∀ hart level, range = .hartContext hart level → isClaimAccess addr' = false)
    (ht : s.busWrite cfg addr data = some t) {hart irq : ℕ} {level : PrivilegeLevel}
    (hsup : cfg.Supports hart level) (hpos : 0 < irq) (hle : irq ≤ cfg.numirq)
    (hlet : s.LetsThrough cfg range addr' data hart level irq) :
    t.Deliverable cfg hart level irq := by
  have hview := viewLevel_of_supports hsup
  obtain ⟨hpend, hlet⟩ := hlet
  rw [busWrite, hroute] at ht
  cases range with
  | pendingInterrupts => exact hlet.elim
  | interruptPriorities =>
    obtain ⟨hen, hidx, w, hw, habove⟩ := hlet
    dsimp only at ht
    rw [writeIrqPrios] at ht
    split_ifs at ht
    cases ht
    refine ⟨hpos, hle, hpend, hen, ?_⟩
    unfold prio
    dsimp only
    -- the write covers two words; `irq` may be the first or the second
    by_cases hk : irq - 1 = addr' / 4
    · rw [if_pos hk] at habove
      rw [hk] at hidx hw ⊢
      rw [Function.update_self, memcpy_of_some hidx hw]
      exact habove
    · rw [if_neg hk] at habove
      rw [Function.update_of_ne hk, memcpy_of_some hidx hw]
      exact habove
  | enabledIrqs hart' level' =>
    obtain ⟨rfl, rfl, habove, hidx, w, hw, hbit⟩ := hlet
    cases ht
    refine ⟨hpos, hle, hpend, ?_, habove⟩
    unfold isEnabled
    dsimp only
    rw [hview, Function.update_self, Function.update_self, memcpy_of_some hidx hw]
    exact hbit
  | hartContext hart' level' =>
    obtain ⟨rfl, rfl, hen, w, rfl, habove⟩ := hlet
    obtain ⟨-, -, hlen⟩ := supports_of_route hroute (Or.inr rfl)
    have hno := hclaim hart level rfl
    dsimp only at ht
    obtain ⟨-, rfl⟩ := (writeHartctx_eq_some hno).mp ht
    -- a write that is no completion starts at the threshold
    have hzero : addr' / 4 = 0 := div_four_of_threshold hno (by simpa using hlen)
    refine ⟨hpos, hle, hpend, hen, ?_⟩
    unfold getThreshold setContext
    dsimp only
    rw [hview, Function.update_self, Function.update_self, Function.update_self, hzero]
    rw [Function.update_self, Function.update_self, memcpy_of_some le_rfl rfl]
    exact habove

/-- A write to another register than the claim register keeps the lines and the notification. -/
theorem busWrite_signals (hroute : cfg.route addr (4 * data.length) = some (range, addr'))
    (hclaim : ∀ hart level, range = .hartContext hart level → isClaimAccess addr' = false)
    (ht : s.busWrite cfg addr data = some t) : t.lines = s.lines ∧ t.eRun = s.eRun := by
  rw [busWrite, hroute] at ht
  cases range with
  | pendingInterrupts =>
    cases ht
    exact ⟨rfl, rfl⟩
  | interruptPriorities =>
    dsimp only at ht
    rw [writeIrqPrios] at ht
    split_ifs at ht
    cases ht
    exact ⟨rfl, rfl⟩
  | enabledIrqs hart' level' =>
    cases ht
    exact ⟨rfl, rfl⟩
  | hartContext hart' level' =>
    dsimp only at ht
    obtain ⟨-, rfl⟩ := (writeHartctx_eq_some (hclaim hart' level' rfl)).mp ht
    exact ⟨rfl, rfl⟩

/-- A write that lets an interrupt through is carried out. -/
theorem LetsThrough.exists_busWrite
    (hroute : cfg.route addr (4 * data.length) = some (range, addr'))
    (hclaim : ∀ hart level, range = .hartContext hart level → isClaimAccess addr' = false)
    {hart irq : ℕ} {level : PrivilegeLevel} (hpos : 0 < irq) (hle : irq ≤ cfg.numirq)
    (hlet : s.LetsThrough cfg range addr' data hart level irq) :
    ∃ t, s.busWrite cfg addr data = some t := by
  obtain ⟨-, hlet⟩ := hlet
  rw [busWrite, hroute]
  cases range with
  | pendingInterrupts => exact ⟨_, rfl⟩
  | interruptPriorities =>
    obtain ⟨-, hidx, -⟩ := hlet
    exact ⟨_, if_neg (by omega)⟩
  | enabledIrqs hart' level' => exact ⟨_, rfl⟩
  | hartContext hart' level' =>
    obtain ⟨-, -, -, w, rfl, -⟩ := hlet
    exact ⟨_, (writeHartctx_eq_some (hclaim hart' level' rfl)).mpr ⟨rfl, rfl⟩⟩

/-- A completion: the line is cleared and nothing else that matters is changed. -/
theorem busWrite_claim {hart : ℕ} {level : PrivilegeLevel}
    (hroute : cfg.route addr (4 * data.length) = some (.hartContext hart level, addr'))
    (hclaim : isClaimAccess addr' = true) (ht : s.busWrite cfg addr data = some t) :
    data.length = 1 ∧ t.eRun = s.eRun ∧
      t.lines = Function.update s.lines hart (Function.update (s.lines hart) level false) ∧
        ∀ hart' level' irq,
          t.Deliverable cfg hart' level' irq ↔ s.Deliverable cfg hart' level' irq := by
  obtain ⟨-, -, hlen⟩ := supports_of_route hroute (Or.inr rfl)
  rw [busWrite, hroute] at ht
  dsimp only at ht
  rw [writeHartctx, if_pos hclaim] at ht
  split_ifs at ht with hfour
  cases ht
  have hone : data.length = 1 := by omega
  refine ⟨hone, rfl, rfl, fun hart' level' irq => ?_⟩
  obtain ⟨w, rfl⟩ := List.length_eq_one_iff.mp hone
  have hidx : addr' / 4 = 1 := by
    unfold isClaimAccess at hclaim
    rw [beq_iff_eq] at hclaim
    omega
  -- the completion goes into the second word of the context, which no decision reads
  have hmem : memcpy (s.hartContext hart level) (addr' / 4) [w] =
      Function.update (s.hartContext hart level) 1 w := by
    funext i
    rw [hidx, memcpy]
    by_cases hi : i = 1
    · subst hi
      simp
    · rw [Function.update_of_ne hi]
      split_ifs with hle
      · rw [List.getD_eq_default _ _ (by rw [List.length_singleton]; omega)]
      · rfl
  rw [hmem]
  constructor
  · intro hd
    exact ⟨hd.pos, hd.le, hd.pending, hd.enabled, getThreshold_setClaim ▸ hd.above⟩
  · intro hd
    refine ⟨hd.pos, hd.le, hd.pending, hd.enabled, ?_⟩
    have habove := hd.above
    rw [← @getThreshold_setClaim cfg s hart hart' level level' w] at habove
    exact habove

end

/-! ### One step and whole runs -/

section

variable {range : PlicRange} {addr addr' : ℕ} {data : List (BitVec 32)}

/-- A write to another register than the claim register. -/
theorem Signalled.write_register_iff (h : s.Signalled cfg)
    (hroute : cfg.route addr (4 * data.length) = some (range, addr'))
    (hclaim : ∀ hart level, range = .hartContext hart level → isClaimAccess addr' = false) :
    (s.step cfg (.write addr data)).2.Signalled cfg ↔ s.StepOk cfg (.write addr data) := by
  rw [step, exec]
  cases ht : s.busWrite cfg addr data with
  | none =>
    -- an access that is refused lets nothing through
    refine iff_of_true h fun _ range' addr'' hr => ?_
    rw [hroute] at hr
    cases hr
    refine ⟨fun hart level hr hc => ?_, fun _ hart _ level _ irq hpos hle hlet => ?_⟩
    · rw [hclaim hart level hr] at hc
      cases hc
    · obtain ⟨t, ht'⟩ := hlet.exists_busWrite hroute hclaim hpos hle
      rw [ht] at ht'
      cases ht'
  | some t =>
    obtain ⟨hlines, hrun⟩ := busWrite_signals hroute hclaim ht
    constructor
    · intro h' h0 range' addr'' hr
      rw [hroute] at hr
      cases hr
      refine ⟨fun hart level hr hc => ?_, fun _ hart hh level hsup irq hpos hle hlet => ?_⟩
      · rw [hclaim hart level hr] at hc
        cases hc
      · rw [← hlines]
        exact h' (hrun.trans h0) hart hh level hsup irq
          (hlet.deliverable hroute hclaim ht hsup hpos hle)
    · intro hok h0 hart hh level hsup irq hd
      have h0 : s.eRun = false := hrun.symm.trans h0
      show t.lines hart level = true
      rw [hlines]
      rcases hd.of_busWrite hroute hclaim ht hsup with hd' | hlet
      · exact h h0 hart hh level hsup irq hd'
      · exact (hok h0 range addr' hroute).2 hclaim hart hh level hsup irq hd.pos hd.le hlet

/-- A completion takes the line of its context away, which loses an interrupt exactly if one is still
deliverable there. -/
theorem Signalled.write_claim_iff (h : s.Signalled cfg) {hart : ℕ} {level : PrivilegeLevel}
    (hroute : cfg.route addr (4 * data.length) = some (.hartContext hart level, addr'))
    (hclaim : isClaimAccess addr' = true) :
    (s.step cfg (.write addr data)).2.Signalled cfg ↔ s.StepOk cfg (.write addr data) := by
  obtain ⟨hh, hsup, -⟩ := supports_of_route hroute (Or.inr rfl)
  have hnot : ¬∀ hart' level', PlicRange.hartContext hart level = .hartContext hart' level' →
      isClaimAccess addr' = false := by
    intro hno
    rw [hno hart level rfl] at hclaim
    cases hclaim
  rw [step, exec]
  cases ht : s.busWrite cfg addr data with
  | none =>
    -- only an access of another length than a word is refused
    refine iff_of_true h fun _ range' addr'' hr => ?_
    rw [hroute] at hr
    cases hr
    refine ⟨fun hart' level' _ _ hone => ?_, fun hno => absurd hno hnot⟩
    rw [busWrite, hroute] at ht
    dsimp only at ht
    rw [writeHartctx, if_pos hclaim, if_neg (by omega)] at ht
    cases ht
  | some t =>
    obtain ⟨hone, hrun, hlines, hdel⟩ := busWrite_claim hroute hclaim ht
    constructor
    · -- the line is off afterwards, so nothing can have been deliverable
      intro h' h0 range' addr'' hr
      rw [hroute] at hr
      cases hr
      refine ⟨fun hart' level' hr _ _ irq hd => ?_, fun hno => absurd hno hnot⟩
      cases hr
      have hon := h' (hrun.trans h0) hart hh level hsup irq ((hdel hart level irq).mpr hd)
      dsimp only at hon
      rw [hlines, Function.update_self, Function.update_self] at hon
      cases hon
    · intro hok h0 hart' hh' level' hsup' irq hd
      have h0 : s.eRun = false := hrun.symm.trans h0
      have hd' := (hdel hart' level' irq).mp hd
      have hon := h h0 hart' hh' level' hsup' irq hd'
      show t.lines hart' level' = true
      rw [hlines]
      by_cases heq : hart' = hart
      · subst heq
        rw [Function.update_self]
        by_cases hl : level' = level
        · subst hl
          exact absurd hd' ((hok h0 _ addr' hroute).1 hart' level' rfl hclaim hone irq)
        · rw [Function.update_of_ne hl]
          exact hon
      · rw [Function.update_of_ne heq]
        exact hon

end

theorem Signalled.write_iff (h : s.Signalled cfg) (addr : ℕ) (data : List (BitVec 32)) :
    (s.step cfg (.write addr data)).2.Signalled cfg ↔ s.StepOk cfg (.write addr data) := by
  cases hroute : cfg.route addr (4 * data.length) with
  | none =>
    have hstep : s.step cfg (.write addr data) = (false, s) := by rw [step, exec, busWrite, hroute]
    rw [hstep]
    refine iff_of_true h fun _ range addr' hr => ?_
    rw [hroute] at hr
    cases hr
  | some r =>
    obtain ⟨range, addr'⟩ := r
    by_cases hclaim : ∀ hart level, range = .hartContext hart level → isClaimAccess addr' = false
    · exact h.write_register_iff hroute hclaim
    · push Not at hclaim
      obtain ⟨hart, level, rfl, hclaim⟩ := hclaim
      exact h.write_claim_iff hroute ((Bool.not_eq_false _).mp hclaim)

/-- One step from a state in which nothing is lost. -/
theorem Signalled.step_iff (h : s.Signalled cfg) (e : PlicEvent) :
    (s.step cfg e).2.Signalled cfg ↔ s.StepOk cfg e := by
  cases e with
  | trigger irq =>
    refine iff_of_true ?_ trivial
    rw [step, exec, gatewayTriggerInterrupt]
    split_ifs
    · exact h
    · intro h0
      cases h0
  | read addr len =>
    refine iff_of_true ?_ trivial
    rw [step]
    cases ht : s.exec cfg (.read addr len) with
    | none => exact h
    | some t =>
      obtain ⟨hrun, hlines, hd⟩ := exec_read_spec ht
      intro h0 hart hh level hsup irq hdel
      show t.lines hart level = true
      rw [hlines]
      exact h (hrun.symm.trans h0) hart hh level hsup irq (hd hart level irq hdel)
  | write addr data => exact h.write_iff addr data
  | run =>
    show (s.run cfg).Signalled cfg ↔ _
    rw [Signalled.run_iff]
    exact and_iff_right fun _ => h

/-- **No interrupt is lost in a run exactly if each of its steps is one that loses none.**  The condition on
a step is one on the registers before it, and the induction is on the run. -/
theorem signalled_iff (cfg : PlicConfig) (events : List PlicEvent) :
    Run.Along (fun s e => (s.step cfg e).2.Signalled cfg) (step cfg) start events ↔
      Run.Along (StepOk cfg) (step cfg) start events := by
  have hstart : start.Signalled cfg := by
    intro _ hart _ level _ irq hd
    have hpend := hd.pending
    simp [isPending, start] at hpend
  exact Run.Along.iff_of_invariant (fun s e hs => hs.step_iff e) (fun _ _ _ h => h) hstart

/-! ### Two interrupts for one hart -/

namespace Completion

/-- The controller of the Linux platform with two harts. -/
def linux : PlicConfig := ⟨true, 2, 53, PlicConfig.numirq_pos_53, PlicConfig.numirq_le_53⟩

/-- Interrupts 1 and 2 have priority 1 and are enabled for supervisor mode of hart 1.  Both are
triggered, and the hart claims and completes the first. -/
def events : List PlicEvent :=
  [.write 0x4 [1], .write 0x8 [1], .write 0x2100 [6], .trigger 1, .trigger 2, .run,
    .read 0x202004 4, .write 0x202004 [1]]

end Completion

open Completion in
/-- The second interrupt is still pending when the first is completed, and the line is cleared. -/
theorem not_signalled_completion :
    ¬Run.Along (fun s e => (s.step linux e).2.Signalled linux) (step linux) start events := by
  intro h
  have hlast := @Run.Along.last _ _ _ _ _ _ (events.take 7) (.write 0x202004 [1]) h
  have hoff : ((Run.final (step linux) start (events.take 7)).step linux (.write 0x202004 [1])).2.lines
      1 .supervisor = false := by
    decide +kernel
  have hon := hlast (by decide +kernel) 1 (by decide) .supervisor (Or.inr ⟨rfl, by decide⟩) 2
    ⟨by decide, by decide, by decide +kernel, by decide +kernel, by decide +kernel⟩
  rw [hoff] at hon
  cases hon

end RiscvVp.Plic
