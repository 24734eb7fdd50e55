import RiscvVp.Plic.Equiv.Signal
import RiscvVp.Lib.Select

/-!
# Claims

`Plic.claims_exclusive`: whatever harts do with accesses of four bytes, a claim returns the first of the
best interrupts that are pending and enabled for the hart and level, and clears its pending bit and no
other; an interrupt is claimed once for each time its gateway is triggered; and priorities and thresholds
stay in range.
-/

namespace RiscvVp

/-- An access of four bytes, or no access. -/
def PlicEvent.IsWord : PlicEvent → Prop
  | .trigger _ | .run => True
  | .read _ len => len = 4
  | .write _ data => data.length = 1

namespace Plic

variable (cfg : PlicConfig) (s : Plic)

/-- The interrupt can be claimed: its pending bit is set, so is its enable bit in the register of the
hart and level, and its priority is not zero. -/
structure Claimable (hart : ℕ) (level : PrivilegeLevel) (irq : ℕ) : Prop where
  pos : 0 < irq
  le : irq ≤ cfg.numirq
  pending : (s.pendingInterrupts (irq / 32)).getLsbD (irq % 32) = true
  enabled : (s.enabledIrqs hart level (irq / 32)).getLsbD (irq % 32) = true
  prio_pos : 0 < (s.prio irq).toNat

/-- A read of the claim register of a hart for a level. -/
def IsClaim (e : PlicEvent) (hart : ℕ) (level : PrivilegeLevel) : Prop :=
  ∃ addr addr', e = .read addr 4 ∧ cfg.route addr 4 = some (.hartContext hart level, addr') ∧
    isClaimAccess addr' = true

/-- What an event answers to its initiator. -/
def answer : PlicEvent → Option (BitVec 32)
  | .read addr _ => s.readWord cfg addr
  | _ => none

/-- A claim returns an interrupt: the read of a claim register answers with its number. -/
def Claims (e : PlicEvent) (irq : BitVec 32) : Prop :=
  ∃ hart level, IsClaim cfg e hart level ∧ s.answer cfg e = some irq

/-- Priorities and thresholds are in range. -/
structure Bounded : Prop where
  prio : ∀ i, (s.interruptPriorities i).toNat ≤ 7
  threshold : ∀ hart level, (s.hartContext hart level 0).toNat ≤ 7

/-- What a step should do. -/
structure ClaimsRight (e : PlicEvent) : Prop where
  /-- a claim returns the best interrupt and clears its bit -/
  claim : ∀ hart level, IsClaim cfg e hart level → ∃ irq ≤ cfg.numirq,
    s.answer cfg e = some (.ofNat 32 irq) ∧
    (irq = 0 ∧ (∀ j, ¬s.Claimable cfg hart level j) ∨
      Select.IsFirstMax (s.Claimable cfg hart level) (fun j => (s.prio j).toNat) irq) ∧
    ∀ w b, ((s.step cfg e).2.pendingInterrupts w).getLsbD b =
      ((s.pendingInterrupts w).getLsbD b && decide (irq = 0 ∨ w ≠ irq / 32 ∨ b ≠ irq % 32))
  /-- no write changes a pending bit -/
  write : ∀ addr data, e = .write addr data →
    (s.step cfg e).2.pendingInterrupts = s.pendingInterrupts
  bounded : (s.step cfg e).2.Bounded

variable {cfg s}

/-! ### The selection -/

theorem getLsbD_getOff (irq i : ℕ) : (getOff irq).getLsbD i = decide (i = irq % 32) := by
  have hlt : irq % 32 < 32 := Nat.mod_lt _ (by decide)
  show (BitVec.ofNat 32 (1 <<< (irq % 32))).getLsbD i = _
  rw [BitVec.getLsbD_ofNat, Nat.one_shiftLeft, Nat.testBit_two_pow]
  by_cases hi : i = irq % 32
  · simp [hi, hlt]
  · simp [hi, Ne.symm hi]

/-- The test of a bit, as the source writes it with a mask of one bit. -/
theorem and_getOff (w : BitVec 32) (irq : ℕ) : (w &&& getOff irq != 0) = w.getLsbD (irq % 32) := by
  rw [Bool.eq_iff_iff, bne_iff_ne, ne_eq]
  constructor
  · intro hne
    by_contra hfalse
    apply hne
    apply BitVec.eq_of_getLsbD_eq
    intro i _
    rw [BitVec.getLsbD_and, getLsbD_getOff]
    by_cases hi : i = irq % 32
    · rw [hi]
      simpa using hfalse
    · simp [hi]
  · intro htrue hzero
    have hi := congrArg (BitVec.getLsbD · (irq % 32)) hzero
    simp [getLsbD_getOff, htrue] at hi

/-- The loop of `next_pending_irq` that ignores the threshold. -/
theorem selectIrq_eq_pick (hart : ℕ) (level : PrivilegeLevel) : s.selectIrq cfg hart level true =
    Select.pick (fun irq => s.isEnabled cfg hart level irq && s.isPending irq) s.prio := by
  funext sel irq
  unfold selectIrq Select.pick
  cases hE : s.isEnabled cfg hart level irq <;> cases hP : s.isPending irq <;> simp [hE, hP]

theorem nextPendingIrq_spec {hart : ℕ} {level : PrivilegeLevel} (hsup : cfg.Supports hart level) :
    s.nextPendingIrq cfg hart level true = 0 ∧ (∀ j, ¬s.Claimable cfg hart level j) ∨
      Select.IsFirstMax (s.Claimable cfg hart level) (fun j => (s.prio j).toNat)
        (s.nextPendingIrq cfg hart level true) := by
  have hiff : ∀ j, s.Claimable cfg hart level j ↔ 0 < j ∧ j ≤ cfg.numirq ∧
      (s.isEnabled cfg hart level j && s.isPending j) = true ∧ 0 < (s.prio j).toNat := by
    intro j
    rw [isEnabled, isPending, and_getOff, and_getOff, viewLevel_of_supports hsup, Bool.and_eq_true]
    constructor
    · rintro ⟨h1, h2, h3, h4, h5⟩
      exact ⟨h1, h2, ⟨h4, h3⟩, h5⟩
    · rintro ⟨h1, h2, ⟨h4, h3⟩, h5⟩
      exact ⟨h1, h2, h3, h4, h5⟩
  have hP : s.Claimable cfg hart level = fun j => 0 < j ∧ j ≤ cfg.numirq ∧
      (s.isEnabled cfg hart level j && s.isPending j) = true ∧ 0 < (s.prio j).toNat := by
    funext j
    exact propext (hiff j)
  rw [nextPendingIrq, selectIrq_eq_pick, hP]
  rcases Select.foldl_pick (fun irq => s.isEnabled cfg hart level irq && s.isPending irq) s.prio 0
    (fun _ _ => BitVec.lt_def) rfl cfg.numirq with ⟨hr, hnone⟩ | ⟨-, hmax⟩
  · left
    rw [hr]
    exact ⟨rfl, hnone⟩
  · right
    exact hmax

/-! ### Claims -/

theorem getLsbD_clearPending (irq w b : ℕ) : ((s.clearPending irq).pendingInterrupts w).getLsbD b =
    ((s.pendingInterrupts w).getLsbD b && decide (w ≠ irq / 32 ∨ b ≠ irq % 32)) := by
  unfold clearPending
  dsimp only
  by_cases hw : w = irq / 32
  · rw [hw, Function.update_self, BitVec.getLsbD_and, BitVec.getLsbD_not, getLsbD_getOff]
    by_cases hb : b < 32
    · simp [hb]
    · have hfalse := BitVec.getLsbD_of_ge (s.pendingInterrupts (irq / 32)) b (by omega)
      simp [hfalse]
  · simp [hw]

/-- A read of the claim register gives the selected interrupt and takes its pending bit. -/
theorem busRead_claim {addr addr' hart : ℕ} {level : PrivilegeLevel}
    (hroute : cfg.route addr 4 = some (.hartContext hart level, addr'))
    (hclaim : isClaimAccess addr' = true) :
    s.busRead cfg addr 4 =
      let irq := s.nextPendingIrq cfg hart level true
      let s' := s.setContext hart level (Function.update (s.hartContext hart level) 1 (.ofNat 32 irq))
      some (if irq ≠ 0 then s'.clearPending irq else s') := by
  obtain ⟨-, hsup, -⟩ := supports_of_route hroute (Or.inr rfl)
  have hassert : (cfg.fu540Mode && hart == 0 && level == .supervisor) = false := by
    rcases hsup with rfl | ⟨rfl, hno⟩
    · rw [Bool.and_eq_false_iff]
      exact Or.inr rfl
    · simpa using hno
  unfold busRead
  rw [hroute]
  dsimp only
  unfold readHartctx
  rw [if_neg (by decide), if_neg (by simp [hclaim]), hassert]
  rfl

/-- Only the second word of a context is a claim register. -/
theorem claim_local {addr addr' hart : ℕ} {level : PrivilegeLevel}
    (hroute : cfg.route addr 4 = some (.hartContext hart level, addr'))
    (hclaim : isClaimAccess addr' = true) : addr' / 4 = 1 := by
  obtain ⟨-, -, hle⟩ := supports_of_route hroute (Or.inr rfl)
  simp only [isClaimAccess, beq_iff_eq] at hclaim
  omega

theorem claim_spec {addr addr' hart : ℕ} {level : PrivilegeLevel}
    (hroute : cfg.route addr 4 = some (.hartContext hart level, addr'))
    (hclaim : isClaimAccess addr' = true) :
    s.readWord cfg addr = some (.ofNat 32 (s.nextPendingIrq cfg hart level true)) ∧
      ∀ w b, ((s.step cfg (.read addr 4)).2.pendingInterrupts w).getLsbD b =
        ((s.pendingInterrupts w).getLsbD b && decide (s.nextPendingIrq cfg hart level true = 0 ∨
          w ≠ s.nextPendingIrq cfg hart level true / 32 ∨
          b ≠ s.nextPendingIrq cfg hart level true % 32)) := by
  have hread := @busRead_claim cfg s _ _ _ _ hroute hclaim
  have hlocal := claim_local hroute hclaim
  constructor
  · unfold readWord
    rw [hroute, hread]
    dsimp only
    rw [hlocal]
    split_ifs <;> simp [word, setContext, clearPending]
  · intro w b
    unfold step exec
    dsimp only
    rw [hread]
    dsimp only
    by_cases hirq : s.nextPendingIrq cfg hart level true = 0
    · rw [if_neg (not_not.mpr hirq)]
      simp [hirq, setContext]
    · rw [if_pos hirq, getLsbD_clearPending]
      simp [hirq, setContext]

/-- A claim that returns an interrupt: it was pending and is not any more. -/
theorem Claims.pending {e : PlicEvent} {irq : BitVec 32} (h : s.Claims cfg e irq) (h0 : irq ≠ 0) :
    (s.pendingInterrupts (irq.toNat / 32)).getLsbD (irq.toNat % 32) = true ∧
      ((s.step cfg e).2.pendingInterrupts (irq.toNat / 32)).getLsbD (irq.toNat % 32) = false := by
  obtain ⟨hart, level, ⟨addr, addr', rfl, hroute, hclaim⟩, hans⟩ := h
  obtain ⟨hread, hpend⟩ := @claim_spec cfg s _ _ _ _ hroute hclaim
  obtain ⟨-, hsup, -⟩ := supports_of_route hroute (Or.inr rfl)
  have hirq : irq = .ofNat 32 (s.nextPendingIrq cfg hart level true) := by
    replace hans : s.readWord cfg addr = some irq := hans
    rw [hread] at hans
    exact (Option.some.inj hans).symm
  rcases @nextPendingIrq_spec cfg s _ _ hsup with ⟨hzero, -⟩ | hmax
  · rw [hzero] at hirq
    exact absurd hirq h0
  · have hnat : irq.toNat = s.nextPendingIrq cfg hart level true := by
      have hle := hmax.mem.le
      have h63 := cfg.numirq_le
      rw [hirq, BitVec.toNat_ofNat]
      omega
    rw [hpend, hnat]
    refine ⟨hmax.mem.pending, ?_⟩
    have hpos := hmax.mem.pos
    simp [Nat.pos_iff_ne_zero.mp hpos]

/-! ### The other steps -/

theorem clamp_le (v : BitVec 32) : (clamp v).toNat ≤ 7 := by
  unfold clamp
  split_ifs with h
  · exact le_refl 7
  · rw [BitVec.lt_def] at h
    exact not_lt.mp h

/-- The word that is stored is in range after the callback. -/
theorem clamp_memcpy_le {mem : ℕ → BitVec 32} (hmem : ∀ i, (mem i).toNat ≤ 7) (idx : ℕ)
    (v : BitVec 32) (i : ℕ) :
    (Function.update (memcpy mem idx [v]) idx (clamp (memcpy mem idx [v] idx)) i).toNat ≤ 7 := by
  by_cases hi : i = idx
  · rw [hi, Function.update_self]
    exact clamp_le _
  · rw [Function.update_of_ne hi]
    rcases memcpy_cases mem idx [v] i with heq | ⟨hle, w, hw⟩
    · rw [heq]
      exact hmem i
    · have hpos : i - idx ≠ 0 := by omega
      rw [List.getElem?_cons, if_neg hpos] at hw
      cases hw

/-- Another context keeps its threshold, so all of them stay at 7 or below. -/
theorem Bounded.setContext (hb : s.Bounded) (hart : ℕ) (level : PrivilegeLevel)
    (mem : ℕ → BitVec 32) (hmem : (mem 0).toNat ≤ 7) : (s.setContext hart level mem).Bounded where
  prio := hb.prio
  threshold hart' level' := by
    unfold Plic.setContext
    dsimp only
    by_cases hh : hart' = hart
    · rw [hh, Function.update_self]
      by_cases hl : level' = level
      · rw [hl, Function.update_self]
        exact hmem
      · rw [Function.update_of_ne hl]
        exact hb.threshold hart level'
    · rw [Function.update_of_ne hh]
      exact hb.threshold hart' level'

theorem run_eq : s.run cfg = { s with eRun := (s.run cfg).eRun, lines := (s.run cfg).lines } := by
  unfold run
  split_ifs with h
  · rw [foldl_runHart_eq]
  · rfl

/-- Writes do not reach the pending bits, and a word that is written is clamped. -/
theorem busWrite_spec {addr : ℕ} {v : BitVec 32} {t : Plic} (hb : s.Bounded)
    (h : s.busWrite cfg addr [v] = some t) :
    t.pendingInterrupts = s.pendingInterrupts ∧ t.Bounded := by
  unfold busWrite at h
  split at h
  · cases h
  · cases h
    exact ⟨rfl, hb⟩
  · unfold writeIrqPrios at h
    split_ifs at h with hlt
    cases h
    exact ⟨rfl, clamp_memcpy_le hb.prio _ _, hb.threshold⟩
  · cases h
    exact ⟨rfl, hb.prio, hb.threshold⟩
  · next hart level addr' hroute =>
    obtain ⟨-, -, hle⟩ := supports_of_route hroute (Or.inr rfl)
    unfold writeHartctx at h
    split_ifs at h with hlen hclaim
    · -- the claim register is the second word, so the threshold stays
      cases h
      simp only [isClaimAccess, beq_iff_eq] at hclaim
      have h0 : memcpy (s.hartContext hart level) (addr' / 4) [v] 0 = s.hartContext hart level 0 :=
        if_neg (by omega)
      refine ⟨rfl, ?_⟩
      have hctx := hb.setContext hart level (memcpy (s.hartContext hart level) (addr' / 4) [v])
        (by rw [h0]; exact hb.threshold hart level)
      exact ⟨hctx.prio, hctx.threshold⟩
    · cases h
      refine ⟨rfl, ?_⟩
      have hset : ∀ m : ℕ → BitVec 32, ((s.setContext hart level m).setContext hart level
          (Function.update ((s.setContext hart level m).hartContext hart level) 0
            (clamp ((s.setContext hart level m).hartContext hart level 0)))).Bounded := by
        intro m
        refine ⟨hb.prio, fun hart' level' => ?_⟩
        unfold Plic.setContext
        dsimp only
        by_cases hh : hart' = hart
        · by_cases hl : level' = level
          · rw [hh, hl, Function.update_self, Function.update_self, Function.update_self]
            exact clamp_le _
          · rw [hh, Function.update_self, Function.update_of_ne hl, Function.update_self,
              Function.update_of_ne hl]
            exact hb.threshold hart level'
        · rw [Function.update_of_ne hh, Function.update_of_ne hh]
          exact hb.threshold hart' level'
      exact hset _

theorem getLsbD_trigger {irq : ℕ} {t : Plic} (h : s.gatewayTriggerInterrupt cfg irq = some t)
    (w b : ℕ) : (t.pendingInterrupts w).getLsbD b =
      ((s.pendingInterrupts w).getLsbD b || decide (w = irq / 32 ∧ b = irq % 32)) := by
  unfold gatewayTriggerInterrupt at h
  split_ifs at h with hirq
  cases h
  dsimp only
  by_cases hw : w = irq / 32
  · rw [hw, Function.update_self, BitVec.getLsbD_or, getLsbD_getOff]
    simp
  · rw [Function.update_of_ne hw]
    simp [hw]

/-- A read takes at most one pending interrupt away. -/
theorem busRead_spec {addr len : ℕ} {t : Plic} (hb : s.Bounded) (h : s.busRead cfg addr len = some t) :
    t.Bounded ∧ ∀ w b, (t.pendingInterrupts w).getLsbD b = true →
      (s.pendingInterrupts w).getLsbD b = true := by
  unfold busRead at h
  split at h
  · cases h
  · next hart level addr' hroute =>
    unfold readHartctx at h
    split_ifs at h with h1 h2 h3
    · cases h
      exact ⟨hb, fun _ _ hp => hp⟩
    · have hctx := hb.setContext hart level
        (Function.update (s.hartContext hart level) 1
          (.ofNat 32 (s.nextPendingIrq cfg hart level true))) (hb.threshold hart level)
      dsimp only at h
      by_cases hirq : s.nextPendingIrq cfg hart level true = 0
      · rw [if_neg (not_not.mpr hirq)] at h
        cases h
        exact ⟨hctx, fun _ _ hp => hp⟩
      · rw [if_pos hirq] at h
        cases h
        refine ⟨⟨hctx.prio, hctx.threshold⟩, fun w b hp => ?_⟩
        rw [getLsbD_clearPending, Bool.and_eq_true] at hp
        exact hp.1
  · cases h
    exact ⟨hb, fun _ _ hp => hp⟩

/-! ### Steps -/

theorem along_isWord {es : List PlicEvent} (hes : ∀ e ∈ es, e.IsWord) :
    Run.Along (fun _ e => e.IsWord) (step cfg) s es := by
  induction es generalizing s with
  | nil => trivial
  | cons e es ih =>
    exact ⟨hes e List.mem_cons_self, ih fun a ha => hes a (List.mem_cons_of_mem _ ha)⟩

theorem bounded_start : start.Bounded := ⟨fun _ => Nat.zero_le 7, fun _ _ => Nat.zero_le 7⟩

/-- **One step**: claims are right, and everything stays in range. -/
theorem step_claimsRight {e : PlicEvent} (he : e.IsWord) (hb : s.Bounded) :
    s.ClaimsRight cfg e ∧ ∀ irq, ((s.step cfg e).2.pendingInterrupts (irq / 32)).getLsbD (irq % 32) = true →
      (s.pendingInterrupts (irq / 32)).getLsbD (irq % 32) = true ∨ e = .trigger irq := by
  have hsame : s.exec cfg e = none → (s.step cfg e).2 = s := by
    intro hnone
    unfold step
    rw [hnone]
  have hnext : ∀ t, s.exec cfg e = some t → (s.step cfg e).2 = t := by
    intro t hsome
    unfold step
    rw [hsome]
  cases hx : s.exec cfg e with
  | none =>
    rw [hsame hx]
    refine ⟨⟨?_, fun _ _ _ => congrArg Plic.pendingInterrupts (hsame hx), ?_⟩, fun irq hp => Or.inl hp⟩
    · -- a claim does not fail
      rintro hart level ⟨addr, addr', rfl, hroute, hclaim⟩
      rw [exec, busRead_claim hroute hclaim] at hx
      cases hx
    · rw [hsame hx]
      exact hb
  | some t =>
    have ht := hnext t hx
    rw [ht]
    cases e with
    | trigger irq =>
      -- a trigger sets one pending bit
      have hbits := getLsbD_trigger hx
      have hbt : t.Bounded := by
        replace hx : s.gatewayTriggerInterrupt cfg irq = some t := hx
        unfold gatewayTriggerInterrupt at hx
        split_ifs at hx
        cases hx
        exact ⟨hb.prio, hb.threshold⟩
      refine ⟨⟨?_, ?_, ht ▸ hbt⟩, ?_⟩
      · rintro hart level ⟨addr, addr', he', -⟩
        cases he'
      · intro addr data he'
        cases he'
      · intro irq' hp
        rw [hbits, Bool.or_eq_true, decide_eq_true_eq] at hp
        rcases hp with hp | ⟨hdiv, hmod⟩
        · exact Or.inl hp
        · right
          have heq : irq' = irq := by omega
          rw [heq]
    | read addr len =>
      -- a read may be a claim, which takes the selected interrupt and clears its pending bit
      obtain ⟨hbt, hless⟩ := busRead_spec hb hx
      refine ⟨⟨?_, ?_, ht ▸ hbt⟩, fun irq hp => Or.inl (hless _ _ hp)⟩
      · rintro hart level ⟨addr', local', he', hroute, hclaim⟩
        cases he'
        obtain ⟨-, hsup, -⟩ := supports_of_route hroute (Or.inr rfl)
        obtain ⟨hread, hpend⟩ := @claim_spec cfg s _ _ _ _ hroute hclaim
        have hspec := @nextPendingIrq_spec cfg s _ _ hsup
        refine ⟨s.nextPendingIrq cfg hart level true, ?_, hread, hspec, hpend⟩
        rcases hspec with ⟨hzero, -⟩ | hmax
        · omega
        · exact hmax.mem.le
      · intro addr' data he'
        cases he'
    | write addr data =>
      -- a write leaves the pending bits alone
      obtain ⟨v, rfl⟩ := List.length_eq_one_iff.mp he
      obtain ⟨hpend, hbt⟩ := busWrite_spec hb hx
      refine ⟨⟨?_, fun _ _ _ => ht ▸ hpend, ht ▸ hbt⟩, fun irq hp => Or.inl (hpend ▸ hp)⟩
      rintro hart level ⟨addr', local', he', -⟩
      cases he'
    | run =>
      -- `run` changes the lines only
      have hrun : s.run cfg = t := Option.some.inj hx
      have heq := @run_eq cfg s
      rw [hrun] at heq
      refine ⟨⟨?_, ?_, ?_⟩, fun irq hp => Or.inl ?_⟩
      · rintro hart level ⟨addr', local', he', -⟩
        cases he'
      · intro addr data he'
        cases he'
      · rw [ht, heq]
        exact ⟨hb.prio, hb.threshold⟩
      · rw [heq] at hp
        exact hp

/-- What is pending after a run was pending before it or has been triggered. -/
theorem pending_of_final {irq : ℕ} {es : List PlicEvent} (hes : ∀ e ∈ es, e.IsWord) (hb : s.Bounded)
    (hp : ((Run.final (step cfg) s es).pendingInterrupts (irq / 32)).getLsbD (irq % 32) = true) :
    (s.pendingInterrupts (irq / 32)).getLsbD (irq % 32) = true ∨ .trigger irq ∈ es := by
  induction es generalizing s with
  | nil => exact Or.inl hp
  | cons e es ih =>
    obtain ⟨hright, hstep⟩ := @step_claimsRight cfg s e (hes e List.mem_cons_self) hb
    have hrest := fun e' he' => hes e' (List.mem_cons_of_mem _ he')
    rcases ih hrest hright.bounded hp with hp | hmem
    · rcases hstep irq hp with hp | rfl
      · exact Or.inl hp
      · exact Or.inr List.mem_cons_self
    · exact Or.inr (List.mem_cons_of_mem _ hmem)

/-- **Claims are exclusive and ordered.**  In every run of accesses of four bytes, claims are right at
each step and nothing leaves its range; and of two claims that return an interrupt, its gateway has been
triggered in between. -/
theorem claims_exclusive (cfg : PlicConfig) {es : List PlicEvent} (hes : ∀ e ∈ es, e.IsWord) :
    Run.Along (ClaimsRight cfg) (step cfg) start es ∧
      ∀ before e mid e' after, es = before ++ e :: (mid ++ e' :: after) → ∀ irq, irq ≠ 0 →
        (Run.final (step cfg) start before).Claims cfg e irq →
        (Run.final (step cfg) start (before ++ e :: mid)).Claims cfg e' irq →
        .trigger irq.toNat ∈ mid := by
  constructor
  · refine Run.Along.of_invariant (P := fun _ e => e.IsWord) Bounded ?_ bounded_start ?_
    · intro s e hb he
      have hright := (@step_claimsRight cfg s e he hb).1
      exact ⟨hright, hright.bounded⟩
    · exact along_isWord hes
  · rintro before e mid e' after rfl irq h0 hfirst hsecond
    have hword : ∀ a ∈ before, a.IsWord := fun a ha => hes a (by simp [ha])
    have hmid : ∀ a ∈ mid, a.IsWord := fun a ha => hes a (by simp [ha])
    have hb : (Run.final (step cfg) start before).Bounded :=
      Run.final_of_invariant (P := fun _ e => e.IsWord) Bounded
        (fun s a hs ha => (step_claimsRight ha hs).1.bounded) bounded_start (along_isWord hword)
    have hb' := (@step_claimsRight cfg _ e (hes e (by simp)) hb).1.bounded
    have hcleared := (hfirst.pending h0).2
    have hpending := (hsecond.pending h0).1
    rw [Run.final_append] at hpending
    rcases pending_of_final hmid hb' hpending with hp | hmem
    · rw [hcleared] at hp
      cases hp
    · exact hmem

/-- Two harts, of which one has machine mode only. -/
def twoHarts : PlicConfig := ⟨true, 2, 53, PlicConfig.numirq_pos_53, PlicConfig.numirq_le_53⟩

/-- Interrupt 3 is triggered, enabled for two contexts, and claimed by both. -/
def claimRace : List PlicEvent :=
  [.write 0xC [9], .write 0x2000 [8], .write 0x2080 [8], .trigger 3, .read 0x200004 4, .read 0x201004 4]

theorem claims_exclusive_claimRace :
    (∀ e ∈ claimRace, e.IsWord) ∧
      Run.Along (ClaimsRight twoHarts) (step twoHarts) start claimRace ∧
      (Run.final (step twoHarts) start (claimRace.take 4)).readWord twoHarts 0x200004 = some 3 ∧
      (Run.final (step twoHarts) start (claimRace.take 5)).readWord twoHarts 0x201004 = some 0 := by
  have hword : ∀ e ∈ claimRace, e.IsWord := by simp [claimRace, PlicEvent.IsWord]
  exact ⟨hword, (claims_exclusive twoHarts hword).1, by decide, by decide⟩

end Plic

end RiscvVp
