import RiscvVp.Clint.Equiv.Time

/-!
# The controller that follows the host

`LwrtClint.follows_host_iff`: `mtime` is the time of the host, up to the local delays of the harts in
microseconds, exactly in the runs in which MMIO reads of `mtime` have next to no delay.  `pre_read_mtime` adds
a number of time units to a number of microseconds, and takes the sum even if `mtime` is ahead of it.  A delay
of two units is already more than the microsecond it amounts to, so on a platform, where each access takes its
time, `mtime` follows the host as long as it is not read over MMIO (`not_stepOk_readMtime`).
-/

namespace RiscvVp.LwrtClint

variable (cfg : ClintConfig)

/-! ### What is right -/

/-- A number of units of time in microseconds, rounded up; the unit is a picosecond. -/
def toUs (units : ℕ) : ℕ := (units + 999999) / 1000000

/-- The registers, the last reading of the clock of the host, the largest local delay so far, and what the clock
showed at the last MMIO read with a delay of one unit. -/
structure History where
  regs : ClintRegs
  host : ℕ
  maxDelay : ℕ
  ahead : Option ℕ

/-- The local delay of an operation, as the callback sees it. -/
def delayOf : LwrtOp → ℕ
  | .readMtime delay => (delay + cfg.accessDelay).toNat
  | _ => 0

/-- A step, with the history. -/
def History.step (h : History) (e : LwrtEvent) : LwrtOut × History :=
  ((LwrtClint.step cfg h.regs e).1, ⟨(LwrtClint.step cfg h.regs e).2, e.host.toNat,
    max h.maxDelay (delayOf cfg e.op), if delayOf cfg e.op = 1 then some e.host.toNat else h.ahead⟩)

/-- At the start of the simulation. -/
def History.start : History := ⟨.start, 0, 0, none⟩

/-- What a step should do besides not turning `mtime` back. -/
structure StepRight (h : History) (e : LwrtEvent) : Prop where
  /-- a value of `mtime` is the time of the host, up to the local delays -/
  value : ∀ v, (h.step cfg e).1.mtime = some v → e.host.toNat ≤ v.toNat ∧
    v.toNat ≤ e.host.toNat + toUs (h.step cfg e).2.maxDelay
  /-- no timer interrupt is early -/
  triggered : ∀ i ∈ (h.step cfg e).1.triggered, (h.step cfg e).2.regs.mtimecmp i ≠ 0 ∧
    ((h.step cfg e).2.regs.mtimecmp i).toNat ≤ e.host.toNat + toUs (h.step cfg e).2.maxDelay
  /-- a poll misses no timer interrupt -/
  poll : e.op = .poll → ∀ i < cfg.numberOfCores, (h.step cfg e).2.regs.mtimecmp i ≠ 0 →
    (h.step cfg e).2.regs.mtimecmp i ≤ (h.step cfg e).2.regs.mtime →
      (h.step cfg e).2.regs.timer i = true

/-- The clock of the host does not go backwards. -/
def InOrder (h : History) (e : LwrtEvent) : Prop := h.host ≤ e.host.toNat

/-- An MMIO read has next to no delay: at most one unit of time, and none only if the clock of the host has gone
on since the last read with one. -/
def StepOk (h : History) (e : LwrtEvent) : Prop :=
  ∀ delay, e.op = .readMtime delay →
    delayOf cfg e.op ≤ 1 ∧ e.host.toNat + delayOf cfg e.op < 2 ^ 64 ∧
      (delayOf cfg e.op = 0 → h.ahead ≠ some e.host.toNat)

variable {cfg}

/-- One unit is rounded up to a microsecond, and any more units are more than the microseconds they amount to. -/
theorem toUs_lt {a : ℕ} (h : 2 ≤ a) : toUs a < a := by
  unfold toUs
  omega

/-- **On a platform no MMIO read is harmless**: every access takes two units of time or more. -/
theorem not_stepOk_readMtime (haccess : 2 ≤ cfg.accessDelay.toNat) {host delay : BitVec 64}
    (hdelay : delay.toNat + cfg.accessDelay.toNat < 2 ^ 64) (h : History) :
    ¬StepOk cfg h ⟨host, .readMtime delay⟩ := by
  intro hok
  have hle := (hok delay rfl).1
  have hsum : delayOf cfg (.readMtime delay) = delay.toNat + cfg.accessDelay.toNat := by
    rw [delayOf, BitVec.toNat_add]
    exact Nat.mod_eq_of_lt hdelay
  dsimp only at hle
  omega

/-! ### Polls -/

/-- The loop of `run` triggers the timer interrupts that are due and writes nothing else. -/
theorem foldl_pollHart (r : ClintRegs) (n : ℕ) :
    ((List.range n).foldl pollHart (r, [])).1 =
        { r with timer := fun i => if i < n ∧ r.expired i = true then true else r.timer i } ∧
      ((List.range n).foldl pollHart (r, [])).2 = (List.range n).filter r.expired := by
  induction n with
  | zero => exact ⟨by simp, rfl⟩
  | succ n ih =>
    rw [List.range_succ, List.foldl_append, List.filter_append]
    obtain ⟨hregs, hlist⟩ := ih
    generalize (List.range n).foldl pollHart (r, []) = p at hregs hlist
    -- the harts before `n` do not touch what is asked of hart `n`
    have hexp : p.1.expired n = r.expired n := by rw [hregs]; rfl
    simp only [List.foldl_cons, List.foldl_nil]
    rw [← hlist]
    unfold pollHart
    rw [hexp]
    cases he : r.expired n with
    | true =>
      rw [if_pos rfl, List.filter_cons_of_pos he]
      refine ⟨?_, rfl⟩
      show p.1.setTimer n true = _
      rw [hregs, ClintRegs.setTimer]
      congr 1
      funext i
      by_cases hi : i = n
      · rw [hi, Function.update_self, if_pos ⟨by omega, he⟩]
      · rw [Function.update_of_ne hi]
        have hiff : i < n ↔ i < n + 1 := by omega
        simp only [hiff]
    | false =>
      rw [if_neg (by simp), List.filter_cons_of_neg (by simp [he])]
      refine ⟨?_, (List.append_nil _).symm⟩
      show p.1 = _
      rw [hregs]
      congr 1
      funext i
      by_cases hi : i = n
      · rw [hi, he]
        simp
      · have hiff : i < n ↔ i < n + 1 := by omega
        simp only [hiff]

/-! ### Steps -/

/-- `mtime` is not ahead of the host, or it is what a read with a delay of one unit has returned. -/
structure Inv (h : History) : Prop where
  mtime : h.regs.mtime.toNat ≤ h.host ∨ ∃ k, h.ahead = some k ∧ h.regs.mtime.toNat = k + 1
  ahead : ∀ k, h.ahead = some k → k ≤ h.host ∧ 1 ≤ h.maxDelay

/-- `mtime` is not ahead of the host by more than the local delays. -/
theorem Inv.le {h : History} (hi : Inv h) : h.regs.mtime.toNat ≤ h.host + toUs h.maxDelay := by
  rcases hi.mtime with hle | ⟨k, hk, heq⟩
  · exact hle.trans (Nat.le_add_right _ _)
  · obtain ⟨hhost, hdelay⟩ := hi.ahead k hk
    have hone : 1 ≤ toUs h.maxDelay := by
      unfold toUs
      omega
    omega

/-- An MMIO read returns the time of the host with the delay. -/
theorem step_readMtime {h : History} {host delay : BitVec 64} :
    (h.step cfg ⟨host, .readMtime delay⟩).1.mtime = some (host + (delay + cfg.accessDelay)) ∧
      (h.step cfg ⟨host, .readMtime delay⟩).2.regs.mtime = host + (delay + cfg.accessDelay) := ⟨rfl, rfl⟩

/-- All other steps keep `mtime` or let it follow the host, and return no other value. -/
theorem step_mtime {h : History} {e : LwrtEvent} (hop : ∀ delay, e.op ≠ .readMtime delay) :
    ((h.step cfg e).2.regs.mtime.toNat = h.regs.mtime.toNat ∧ (h.step cfg e).1.mtime = none) ∨
      (h.step cfg e).2.regs.mtime.toNat = max h.regs.mtime.toNat e.host.toNat ∧
        ∀ v, (h.step cfg e).1.mtime = some v → v = (h.step cfg e).2.regs.mtime := by
  obtain ⟨host, op⟩ := e
  unfold History.step LwrtClint.step exec
  cases op with
  | readMtime delay => exact absurd rfl (hop delay)
  | updateAndGetMtime =>
    exact .inr ⟨Clint.updateMtime_eq h.regs host, fun v hv => (Option.some.inj hv).symm⟩
  | writeMtimecmp idx data =>
    left
    cases hr : h.regs.writeMtimecmp cfg idx data with
    | none =>
      simp only [hr, Option.map_none, Option.getD_none]
      exact ⟨trivial, trivial⟩
    | some r =>
      have hmtime : r.mtime = h.regs.mtime := by rw [Clint.writeMtimecmp_eq hr]
      simp only [hr, Option.map_some, Option.getD_some, ClintRegs.setTimer]
      split_ifs
      · exact ⟨congrArg _ hmtime, rfl⟩
      · exact ⟨congrArg _ hmtime, rfl⟩
  | writeMsip idx data =>
    left
    cases hr : h.regs.writeMsip cfg idx data with
    | none =>
      simp only [hr, Option.map_none, Option.getD_none]
      exact ⟨trivial, trivial⟩
    | some r =>
      simp only [hr, Option.map_some, Option.getD_some]
      exact ⟨congrArg _ (Clint.writeMsip_mtime hr), trivial⟩
  | poll =>
    right
    have hmtime := Clint.updateMtime_eq h.regs host
    simp only [Option.getD_some]
    rw [(foldl_pollHart _ _).1]
    exact ⟨hmtime, fun v hv => by cases hv⟩

/-- The value of an MMIO read that has next to no delay. -/
theorem toNat_readMtime {h : History} {host delay : BitVec 64}
    (hok : StepOk cfg h ⟨host, .readMtime delay⟩) :
    (host + (delay + cfg.accessDelay)).toNat = host.toNat + delayOf cfg (.readMtime delay) := by
  rw [BitVec.toNat_add]
  exact Nat.mod_eq_of_lt (hok delay rfl).2.1

/-- A step keeps the invariant, if it does not come before the steps behind it and its read is not delayed. -/
theorem step_inv {h : History} {e : LwrtEvent} (hi : Inv h) (horder : InOrder h e)
    (hok : StepOk cfg h e) : Inv (h.step cfg e).2 := by
  have horder' : h.host ≤ e.host.toNat := horder
  refine ⟨?_, ?_⟩
  · by_cases hop : ∃ delay, e.op = .readMtime delay
    · obtain ⟨host, op⟩ := e
      obtain ⟨delay, rfl⟩ := hop
      rw [step_readMtime.2, toNat_readMtime hok]
      have hle := (hok delay rfl).1
      dsimp only at hle
      rcases Nat.le_one_iff_eq_zero_or_eq_one.1 hle with hzero | hone
      · left
        rw [hzero]
        exact le_refl _
      · right
        exact ⟨host.toNat, if_pos hone, by rw [hone]⟩
    · have hnone : delayOf cfg e.op = 0 := by
        obtain ⟨host, op⟩ := e
        cases op with
        | readMtime delay => exact absurd ⟨delay, rfl⟩ hop
        | _ => rfl
      have hahead : (h.step cfg e).2.ahead = h.ahead := if_neg (by rw [hnone]; decide)
      have hkeep : h.regs.mtime.toNat ≤ e.host.toNat ∨
          ∃ k, h.ahead = some k ∧ h.regs.mtime.toNat = k + 1 :=
        hi.mtime.imp_left fun hle => hle.trans horder'
      rw [hahead]
      show (h.step cfg e).2.regs.mtime.toNat ≤ e.host.toNat ∨ _
      rcases step_mtime fun delay hd => hop ⟨delay, hd⟩ with ⟨heq, -⟩ | ⟨heq, -⟩
      · rw [heq]
        exact hkeep
      · rw [heq]
        rcases hkeep with hle | ⟨k, hk, hval⟩
        · exact .inl (max_le hle (le_refl _))
        · -- what was returned stays until the host has caught up
          rcases le_total h.regs.mtime.toNat e.host.toNat with hle | hge
          · exact .inl (max_le hle (le_refl _))
          · exact .inr ⟨k, hk, by rw [max_eq_left hge, hval]⟩
  · intro k hk
    have hk' : (if delayOf cfg e.op = 1 then some e.host.toNat else h.ahead) = some k := hk
    show k ≤ e.host.toNat ∧ 1 ≤ max h.maxDelay (delayOf cfg e.op)
    split_ifs at hk' with hone
    · cases hk'
      exact ⟨le_refl _, le_max_of_le_right hone.ge⟩
    · obtain ⟨hhost, hdelay⟩ := hi.ahead k hk'
      exact ⟨hhost.trans horder', le_max_of_le_left hdelay⟩

/-- A step does not turn `mtime` back and returns no other value, which is not behind the host. -/
theorem step_clock {h : History} {e : LwrtEvent} (hi : Inv h) (horder : InOrder h e)
    (hok : StepOk cfg h e) :
    h.regs.mtime.toNat ≤ (h.step cfg e).2.regs.mtime.toNat ∧
      ∀ v, (h.step cfg e).1.mtime = some v →
        v = (h.step cfg e).2.regs.mtime ∧ e.host.toNat ≤ v.toNat := by
  have horder' : h.host ≤ e.host.toNat := horder
  by_cases hop : ∃ delay, e.op = .readMtime delay
  · obtain ⟨host, op⟩ := e
    obtain ⟨delay, rfl⟩ := hop
    obtain ⟨hle, -, hzero⟩ := hok delay rfl
    dsimp only at hle hzero horder'
    rw [step_readMtime.1, step_readMtime.2, toNat_readMtime hok]
    refine ⟨?_, fun v hv => ?_⟩
    · rcases hi.mtime with hm | ⟨k, hk, hm⟩
      · omega
      · have hkhost := (hi.ahead k hk).1
        by_cases hnone : delayOf cfg (.readMtime delay) = 0
        · have hne : k ≠ host.toNat := fun heq => hzero hnone (heq ▸ hk)
          omega
        · omega
    · cases hv
      exact ⟨rfl, by rw [toNat_readMtime hok]; exact Nat.le_add_right _ _⟩
  · rcases step_mtime fun delay hd => hop ⟨delay, hd⟩ with ⟨heq, hnone⟩ | ⟨heq, hvalue⟩
    · rw [heq, hnone]
      exact ⟨le_refl _, fun v hv => by cases hv⟩
    · rw [heq]
      refine ⟨le_max_left _ _, fun v hv => ?_⟩
      have hv' := hvalue v hv
      exact ⟨hv', by rw [hv', heq]; exact le_max_right _ _⟩

/-- A step triggers only what has expired. -/
theorem step_triggered {h : History} {e : LwrtEvent} {i : ℕ}
    (hi : i ∈ (h.step cfg e).1.triggered) : (h.step cfg e).2.regs.expired i = true := by
  obtain ⟨host, op⟩ := e
  unfold History.step LwrtClint.step exec at hi ⊢
  cases op with
  | readMtime delay => exact absurd hi List.not_mem_nil
  | updateAndGetMtime => exact absurd hi List.not_mem_nil
  | writeMtimecmp idx data =>
    cases hr : h.regs.writeMtimecmp cfg idx data with
    | none =>
      simp only [hr, Option.map_none, Option.getD_none] at hi
      exact absurd hi List.not_mem_nil
    | some r =>
      simp only [hr, Option.map_some, Option.getD_some] at hi ⊢
      split_ifs at hi ⊢ with he
      · rw [List.mem_singleton.mp hi]
        exact he
      · exact absurd hi List.not_mem_nil
  | writeMsip idx data =>
    cases hr : h.regs.writeMsip cfg idx data with
    | none =>
      simp only [hr, Option.map_none, Option.getD_none] at hi
      exact absurd hi List.not_mem_nil
    | some r =>
      simp only [hr, Option.map_some, Option.getD_some] at hi
      exact absurd hi List.not_mem_nil
  | poll =>
    simp only [Option.getD_some] at hi ⊢
    rw [(foldl_pollHart _ _).2, List.mem_filter] at hi
    rw [(foldl_pollHart _ _).1]
    exact hi.2

/-- **A step whose delay does no harm.** -/
theorem stepRight_of_inv {h : History} {e : LwrtEvent} (hi : Inv h) (horder : InOrder h e)
    (hok : StepOk cfg h e) : StepRight cfg h e where
  value v hv := by
    obtain ⟨rfl, hle⟩ := (step_clock hi horder hok).2 v hv
    exact ⟨hle, (step_inv hi horder hok).le⟩
  triggered i hmem := by
    obtain ⟨hne, hle⟩ := (Clint.expired_iff _ i).mp (step_triggered hmem)
    exact ⟨hne, (BitVec.le_def.mp hle).trans (step_inv hi horder hok).le⟩
  poll hop i hlt hne hle := by
    have hexp := (Clint.expired_iff _ i).mpr ⟨hne, hle⟩
    obtain ⟨host, op⟩ := e
    obtain rfl : op = .poll := hop
    unfold History.step LwrtClint.step exec at hexp ⊢
    simp only [Option.getD_some] at hexp ⊢
    rw [(foldl_pollHart _ _).1] at hexp ⊢
    exact if_pos ⟨hlt, hexp⟩

/-! ### Runs -/

/-- The values of `mtime` that are returned in a run from some point on. -/
def returnedFrom (cfg : ClintConfig) (h : History) (es : List LwrtEvent) : List ℕ :=
  (Run.outputs (History.step cfg) h es).filterMap fun o => o.mtime.map BitVec.toNat

/-- The values of `mtime` that are returned in a run. -/
def returned (cfg : ClintConfig) (es : List LwrtEvent) : List ℕ := returnedFrom cfg .start es

/-- The value of the first step of a run comes first. -/
theorem returnedFrom_cons {h : History} {e : LwrtEvent} {es : List LwrtEvent} {v : BitVec 64}
    (hv : (h.step cfg e).1.mtime = some v) :
    returnedFrom cfg h (e :: es) = v.toNat :: returnedFrom cfg (h.step cfg e).2 es := by
  rw [returnedFrom, Run.outputs, List.filterMap_cons_some (b := v.toNat) (by rw [hv]; rfl)]
  rfl

theorem mem_returnedFrom_cons {h : History} {e : LwrtEvent} {es : List LwrtEvent} {v : ℕ}
    (hv : v ∈ returnedFrom cfg (h.step cfg e).2 es) : v ∈ returnedFrom cfg h (e :: es) := by
  rw [returnedFrom, Run.outputs]
  exact (List.sublist_cons_self _ _).filterMap _ |>.subset hv

theorem pairwise_of_cons {h : History} {e : LwrtEvent} {es : List LwrtEvent}
    (hsorted : (returnedFrom cfg h (e :: es)).Pairwise (· ≤ ·)) :
    (returnedFrom cfg (h.step cfg e).2 es).Pairwise (· ≤ ·) :=
  hsorted.sublist ((List.sublist_cons_self _ _).filterMap _)

/-- **A read that is right has next to no delay**, if all reads before it had. -/
theorem stepOk_of_stepRight {h : History} {e : LwrtEvent} (hmax : h.maxDelay ≤ 1)
    (hright : StepRight cfg h e)
    (hahead : ∀ k v, h.ahead = some k → (h.step cfg e).1.mtime = some v → k + 1 ≤ v.toNat) :
    StepOk cfg h e := by
  intro delay hop
  obtain ⟨host, op⟩ := e
  obtain rfl : op = .readMtime delay := hop
  have hvalue : (h.step cfg ⟨host, .readMtime delay⟩).1.mtime =
      some (host + (delay + cfg.accessDelay)) := step_readMtime.1
  obtain ⟨hge, hle⟩ := hright.value _ hvalue
  have hd : delayOf cfg (.readMtime delay) = (delay + cfg.accessDelay).toNat := rfl
  have hdlt := (delay + cfg.accessDelay).isLt
  -- the sum is not below the host, so it has not wrapped around
  have hsum : (host + (delay + cfg.accessDelay)).toNat =
      host.toNat + delayOf cfg (.readMtime delay) ∧
        host.toNat + delayOf cfg (.readMtime delay) < 2 ^ 64 := by
    rw [BitVec.toNat_add, ← hd] at hge ⊢
    dsimp only at hge
    have hhost := host.isLt
    omega
  dsimp only at hle ⊢
  rw [hsum.1] at hle
  have hone : delayOf cfg (.readMtime delay) ≤ 1 := by
    by_contra htwo
    have hmaxeq : max h.maxDelay (delayOf cfg (.readMtime delay)) = delayOf cfg (.readMtime delay) := by omega
    have hlt := toUs_lt (show 2 ≤ delayOf cfg (.readMtime delay) by omega)
    have hle' : host.toNat + delayOf cfg (.readMtime delay) ≤
        host.toNat + toUs (max h.maxDelay (delayOf cfg (.readMtime delay))) := hle
    rw [hmaxeq] at hle'
    omega
  refine ⟨hone, hsum.2, fun hzero hk => ?_⟩
  have hback := hahead _ _ hk hvalue
  rw [hsum.1, hzero] at hback
  omega

/-- A run that is right has next to no delays. -/
theorem stepOk_of_right {es : List LwrtEvent} : ∀ {h : History}, h.maxDelay ≤ 1 →
    (∀ k, h.ahead = some k → ∀ v ∈ returnedFrom cfg h es, k + 1 ≤ v) →
    (returnedFrom cfg h es).Pairwise (· ≤ ·) →
    Run.Along (StepRight cfg) (History.step cfg) h es →
      Run.Along (StepOk cfg) (History.step cfg) h es := by
  induction es with
  | nil => exact fun _ _ _ _ => trivial
  | cons e es ih =>
    intro h hmax hahead hsorted ⟨hright, hrest⟩
    have hok : StepOk cfg h e := by
      refine stepOk_of_stepRight hmax hright fun k v hk hv => hahead k hk _ ?_
      rw [returnedFrom_cons hv]
      exact List.mem_cons_self
    have hdelay : delayOf cfg e.op ≤ 1 := by
      obtain ⟨host, op⟩ := e
      cases op with
      | readMtime delay => exact (hok delay rfl).1
      | _ => exact Nat.zero_le _
    refine ⟨hok, ih (max_le hmax hdelay) ?_ (pairwise_of_cons hsorted) hrest⟩
    intro k hk v hv
    have hk' : (if delayOf cfg e.op = 1 then some e.host.toNat else h.ahead) = some k := hk
    split_ifs at hk' with hone
    · -- the read itself has returned one microsecond more than the clock showed
      cases hk'
      obtain ⟨host, op⟩ := e
      cases op with
      | readMtime delay =>
        rw [returnedFrom_cons step_readMtime.1, List.pairwise_cons] at hsorted
        have hle := hsorted.1 v hv
        rw [toNat_readMtime hok, hone] at hle
        exact hle
      | _ => cases hone
    · exact hahead k hk' v (mem_returnedFrom_cons hv)

/-- **`mtime` follows the host exactly in the runs in which MMIO reads have next to no delay.**  One half
says what such runs return, the other that a run with a greater delay returns something else. -/
theorem follows_host_iff {es : List LwrtEvent}
    (horder : Run.Along InOrder (History.step cfg) .start es) :
    (returned cfg es).Pairwise (· ≤ ·) ∧ Run.Along (StepRight cfg) (History.step cfg) .start es ↔
      Run.Along (StepOk cfg) (History.step cfg) .start es := by
  constructor
  · rintro ⟨hsorted, hright⟩
    exact stepOk_of_right (Nat.zero_le _) (fun k hk => by cases hk) hsorted hright
  · intro hok
    have hinv : Inv .start := ⟨.inl (Nat.zero_le _), fun k hk => by cases hk⟩
    have hboth : Run.Along (fun h e => Inv h ∧ InOrder h e ∧ StepOk cfg h e) (History.step cfg) .start es := by
      refine Run.Along.of_invariant Inv ?_ hinv (horder.and hok)
      rintro h e hi ⟨ho, hk⟩
      exact ⟨⟨hi, ho, hk⟩, step_inv hi ho hk⟩
    constructor
    · refine (Run.pairwise_of_clock (fun h => h.regs.mtime.toNat) (fun o => o.mtime.map BitVec.toNat)
        ?_ hboth).1
      rintro h e ⟨hi, ho, hk⟩
      obtain ⟨hmono, hvalue⟩ := step_clock hi ho hk
      refine ⟨hmono, ?_⟩
      intro v hv
      obtain ⟨w, hw, rfl⟩ := Option.map_eq_some_iff.mp hv
      exact congrArg BitVec.toNat (hvalue w hw).1
    · refine hboth.mono ?_
      rintro h e ⟨hi, ho, hk⟩
      exact stepRight_of_inv hi ho hk

/-- A read without a local delay; the access takes 20 ns, and `mtime` gains 20 ms. -/
theorem not_value_accessDelay :
    ¬Run.Along (StepRight Clint.twoCores) (History.step Clint.twoCores) .start
      [⟨5, .readMtime 0⟩] := by
  rintro ⟨hright, -⟩
  exact absurd (hright.value 20005 (by decide)).2 (by decide)

/-- A timer is set, and runs out before the third poll; `mtime` is read as a CSR. -/
def pollRun : List LwrtEvent :=
  [⟨0, .writeMtimecmp 2 [30, 0]⟩, ⟨10, .poll⟩, ⟨20, .updateAndGetMtime⟩, ⟨21, .poll⟩, ⟨31, .poll⟩,
    ⟨31, .updateAndGetMtime⟩]

theorem follows_host_iff_pollRun :
    returned Clint.twoCores pollRun = [20, 31] ∧
      (Run.final (History.step Clint.twoCores) .start pollRun).regs.timer 1 = true ∧
      Run.Along (StepRight Clint.twoCores) (History.step Clint.twoCores) .start pollRun := by
  have horder : Run.Along InOrder (History.step Clint.twoCores) .start pollRun := by
    refine ⟨?_, ?_, ?_, ?_, ?_, ?_, trivial⟩ <;> (show _ ≤ _; decide)
  have hok : Run.Along (StepOk Clint.twoCores) (History.step Clint.twoCores) .start pollRun := by
    refine ⟨?_, ?_, ?_, ?_, ?_, ?_, trivial⟩ <;> intro delay hd <;> cases hd
  exact ⟨by decide, by decide, ((follows_host_iff horder).2 hok).2⟩

end RiscvVp.LwrtClint
