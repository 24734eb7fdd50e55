import RiscvVp.Clint.Basic
import RiscvVp.Lib.Run

/-!
# Time and interrupts of the controller that follows the simulation

`Clint.time_right`: `mtime` does not go backwards, `run` leaves the timer interrupts as the registers say
and wakes up in time, and software interrupts follow `msip`, in every run that keeps away from three
defects: an MMIO read of `mtime` takes the local time of its hart as it is, the delay of a wake-up and the time
at which it ends are computed modulo 2^64, and `post_write_msip` looks at one word of two.

The first one is a matter of the order in which harts with different local times read.  A `History` keeps the
latest local time of a read so far, and `mtime` is never ahead of that time and of the simulation.
-/

namespace RiscvVp.Clint

variable (cfg : ClintConfig) (scaler : BitVec 64)

/-! ### What is right -/

/-- `run` wakes up: its event has been notified for this time or an earlier one. -/
def Wakes (c : Clint) (e : ClintEvent) : Prop :=
  e.op = .run ∧ ∃ t, c.irqEvent = some t ∧ t ≤ e.time

/-- What `mtime` is after `update_and_get_mtime`. -/
def mtimeAt (c : Clint) (time : BitVec 64) : BitVec 64 := (c.regs.updateMtime (time / scaler)).mtime

/-- What a step should do besides returning `mtime`. -/
structure StepRight (c : Clint) (e : ClintEvent) : Prop where
  /-- after an iteration of `run`, timer interrupts are as the registers say -/
  timer : c.Wakes e → ∀ i < cfg.numberOfCores,
    ((step cfg scaler c e).2.regs.timer i = true ↔
      (step cfg scaler c e).2.regs.mtimecmp i ≠ 0 ∧
        (step cfg scaler c e).2.regs.mtimecmp i ≤ (step cfg scaler c e).2.regs.mtime)
  /-- `run` schedules a wake-up for each `mtimecmp` that has not expired, -/
  scheduled : c.Wakes e → ∀ i < cfg.numberOfCores, c.regs.mtimecmp i < BitVec.allOnes 64 →
    c.mtimeAt scaler e.time < c.regs.mtimecmp i →
      ∃ delay, (i, delay) ∈ (step cfg scaler c e).1.notified
  /-- with a positive delay, for a time that is still to come, and not later than a tick after the goal -/
  wakeUp : ∀ i delay, (i, delay) ∈ (step cfg scaler c e).1.notified →
    0 < delay.toNat ∧ e.time < e.time + delay ∧ (e.time + delay).toNat ≤
      (c.regs.mtimecmp i).toNat * scaler.toNat + scaler.toNat
  /-- after a write to `msip`, software interrupts are as the registers say -/
  software : ∀ idx data, e.op = .writeMsip idx data → ∀ i < cfg.numberOfCores,
    (step cfg scaler c e).2.regs.software i = ((step cfg scaler c e).2.regs.msip i).getLsbD 0

/-! ### Runs with their history -/

/-- The controller, the time of the last operation, and the latest local time at which a hart has read
`mtime` over MMIO. -/
structure History where
  clint : Clint
  time : ℕ
  latest : ℕ

/-- The local time of an MMIO read of `mtime`: the time of the simulation with the delays of the initiator and
of the access. -/
def localTime (e : ClintEvent) : ℕ :=
  match e.op with
  | .readMtime delay => e.time.toNat + delay.toNat + cfg.accessDelay.toNat
  | _ => 0

/-- A step, with the history. -/
def History.step (h : History) (e : ClintEvent) : ClintOut × History :=
  ((Clint.step cfg scaler h.clint e).1,
    ⟨(Clint.step cfg scaler h.clint e).2, e.time.toNat, max h.latest (localTime cfg e)⟩)

/-- At the start of the simulation. -/
def History.start : History := ⟨.start, 0, 0⟩

/-- The simulation does not go backwards. -/
def InOrder (h : History) (e : ClintEvent) : Prop := h.time ≤ e.time.toNat

/-- The step keeps away from the defects.

* A hart that reads `mtime` is not behind a hart that has read it before: no tick begins after its local time
  and up to the latest local time of an earlier read.  And its local time fits 64 bits.
* The ticks that remain until a goal, in units of time, are not a multiple of 2^64, and what they are modulo
  2^64 ends at a time that fits 64 bits.
* A write of eight bytes to `msip` does not change what the second hart has pending. -/
def StepOk (h : History) (e : ClintEvent) : Prop :=
  match e.op with
  | .readMtime _ => localTime cfg e < 2 ^ 64 ∧
    ∀ k, k * scaler.toNat ≤ h.latest → k * scaler.toNat ≤ localTime cfg e
  | .run => h.clint.Wakes e → ∀ i < cfg.numberOfCores, h.clint.regs.mtimecmp i < BitVec.allOnes 64 →
    h.clint.mtimeAt scaler e.time < h.clint.regs.mtimecmp i →
      let remaining :=
        ((h.clint.regs.mtimecmp i).toNat - (h.clint.mtimeAt scaler e.time).toNat) * scaler.toNat
      ¬2 ^ 64 ∣ remaining ∧ e.time.toNat + remaining % 2 ^ 64 < 2 ^ 64
  | .writeMsip idx data =>
    (∃ w, data = [w]) ∨ ∃ w w', data = [w, w'] ∧ w'.getLsbD 0 = h.clint.regs.software (idx + 1)
  | .updateAndGetMtime | .writeMtimecmp .. => True

variable {cfg scaler}

/-! ### `run` -/

/-- The calls of `irq_event.notify` of a round. -/
def notified (scaler : BitVec 64) (r : ClintRegs) (i : ℕ) : Option (ℕ × BitVec 64) :=
  if r.expired i = false ∧ 0 < r.mtimecmp i ∧ r.mtimecmp i < BitVec.allOnes 64 then
    some (i, r.mtimecmp i * scaler - r.mtime * scaler)
  else none

/-- The loop of `run` sets the timer interrupts of the harts and writes nothing else. -/
theorem foldl_runHart (now : BitVec 64) (c : Clint) (n : ℕ) :
    ((List.range n).foldl (runHart scaler now) (c, [])).1.regs =
        { c.regs with timer := fun i => if i < n then c.regs.expired i else c.regs.timer i } ∧
      ((List.range n).foldl (runHart scaler now) (c, [])).2 =
        (List.range n).filterMap (notified scaler c.regs) := by
  induction n with
  | zero => exact ⟨rfl, rfl⟩
  | succ n ih =>
    rw [List.range_succ, List.foldl_append, List.filterMap_append]
    obtain ⟨hregs, hlist⟩ := ih
    generalize (List.range n).foldl (runHart scaler now) (c, []) = r at hregs hlist
    -- the registers that the round looks at are those of the start
    have hexp : r.1.regs.expired n = c.regs.expired n := by rw [hregs]; rfl
    have hcmp : r.1.regs.mtimecmp n = c.regs.mtimecmp n := by rw [hregs]; rfl
    have hmtime : r.1.regs.mtime = c.regs.mtime := by rw [hregs]
    have hset : ∀ b, c.regs.expired n = b → r.1.regs.setTimer n b =
        { c.regs with timer := fun i => if i < n + 1 then c.regs.expired i else c.regs.timer i } := by
      intro b hb
      rw [hregs, ClintRegs.setTimer]
      congr 1
      funext i
      by_cases hi : i = n
      · rw [hi, Function.update_self, if_pos (by omega), hb]
      · rw [Function.update_of_ne hi]
        dsimp only
        by_cases hlt : i < n
        · rw [if_pos hlt, if_pos (by omega)]
        · rw [if_neg hlt, if_neg (by omega)]
    simp only [List.foldl_cons, List.foldl_nil, List.filterMap_cons, List.filterMap_nil]
    rw [← hlist]
    unfold runHart
    dsimp only
    rw [hexp, hcmp, hmtime]
    cases he : c.regs.expired n with
    | true =>
      have hnone : notified scaler c.regs n = none := if_neg (by simp [he])
      rw [if_pos rfl, hnone]
      exact ⟨hset true he, (List.append_nil _).symm⟩
    | false =>
      rw [if_neg (by simp)]
      by_cases hgoal : 0 < c.regs.mtimecmp n ∧ c.regs.mtimecmp n < BitVec.allOnes 64
      · have hsome : notified scaler c.regs n =
            some (n, c.regs.mtimecmp n * scaler - c.regs.mtime * scaler) := if_pos ⟨he, hgoal⟩
        rw [if_pos hgoal, hsome]
        exact ⟨hset false he, rfl⟩
      · have hnone : notified scaler c.regs n = none := if_neg fun h => hgoal h.2
        rw [if_neg hgoal, hnone]
        exact ⟨hset false he, (List.append_nil _).symm⟩

theorem run_spec (c : Clint) (now : BitVec 64) :
    (run cfg scaler c now).1.regs =
        { c.regs.updateMtime (now / scaler) with
          timer := fun i => if i < cfg.numberOfCores then
            (c.regs.updateMtime (now / scaler)).expired i else
              (c.regs.updateMtime (now / scaler)).timer i } ∧
      (run cfg scaler c now).2 =
        (List.range cfg.numberOfCores).filterMap (notified scaler (c.regs.updateMtime (now / scaler))) :=
  foldl_runHart now _ _

theorem step_run {c : Clint} {e : ClintEvent} (h : c.Wakes e) :
    step cfg scaler c e = (⟨none, (run cfg scaler c e.time).2⟩, (run cfg scaler c e.time).1) := by
  obtain ⟨hop, t, ht, hle⟩ := h
  unfold step exec
  rw [hop, ht]
  dsimp only
  rw [if_pos hle]
  rfl

/-- Nothing happens when `run` does not wake up. -/
theorem step_run_of_not {c : Clint} {e : ClintEvent} (hop : e.op = .run) (h : ¬c.Wakes e) :
    step cfg scaler c e = (⟨none, []⟩, c) := by
  unfold step exec
  rw [hop]
  dsimp only
  split
  · next t ht =>
    rw [if_neg fun hle => h ⟨hop, t, ht, hle⟩]
    rfl
  · rfl

theorem expired_iff (r : ClintRegs) (i : ℕ) :
    r.expired i = true ↔ r.mtimecmp i ≠ 0 ∧ r.mtimecmp i ≤ r.mtime := by
  unfold ClintRegs.expired
  rw [Bool.and_eq_true, decide_eq_true_eq, decide_eq_true_eq]
  refine and_congr_left fun _ => ?_
  rw [BitVec.lt_def, ne_eq, BitVec.toNat_eq]
  exact Nat.pos_iff_ne_zero

/-! ### The delay of a wake-up -/

theorem updateMtime_eq (r : ClintRegs) (now : BitVec 64) :
    (r.updateMtime now).mtime.toNat = max r.mtime.toNat now.toNat := by
  unfold ClintRegs.updateMtime
  split_ifs with h
  · rw [BitVec.lt_def] at h
    dsimp only
    omega
  · rw [BitVec.lt_def] at h
    omega

theorem updateMtime_regs (r : ClintRegs) (now : BitVec 64) :
    r.updateMtime now = { r with mtime := (r.updateMtime now).mtime } := by
  unfold ClintRegs.updateMtime
  split_ifs <;> rfl

/-- The delay is that of the remaining ticks, modulo 2^64. -/
theorem toNat_delay {cmp mtime : BitVec 64} (h : mtime < cmp) (scaler : BitVec 64) :
    (cmp * scaler - mtime * scaler).toNat = (cmp.toNat - mtime.toNat) * scaler.toNat % 2 ^ 64 := by
  rw [BitVec.lt_def] at h
  have hsub : cmp * scaler - mtime * scaler = (cmp - mtime) * scaler := by
    rw [BitVec.sub_eq_add_neg, BitVec.sub_eq_add_neg, BitVec.add_mul, BitVec.neg_mul]
  rw [hsub, BitVec.toNat_mul, BitVec.toNat_sub_of_le (BitVec.le_def.mpr h.le)]

/-- The delay does not lead beyond a tick after the goal. -/
theorem delay_le {time cmp mtime scaler : ℕ} (hs : 0 < scaler) (hlt : mtime < cmp)
    (htime : time / scaler ≤ mtime) :
    time + (cmp - mtime) * scaler % 2 ^ 64 ≤ cmp * scaler + scaler := by
  have hmod : (cmp - mtime) * scaler % 2 ^ 64 ≤ (cmp - mtime) * scaler := Nat.mod_le _ _
  have htick : time < (mtime + 1) * scaler := by
    have hdiv := Nat.lt_succ_of_le htime
    rwa [Nat.succ_eq_add_one, Nat.div_lt_iff_lt_mul hs] at hdiv
  have hsum : (mtime + 1) * scaler + (cmp - mtime) * scaler = cmp * scaler + scaler := by
    rw [← Nat.add_mul, show mtime + 1 + (cmp - mtime) = cmp + 1 by omega, Nat.add_mul, Nat.one_mul]
  omega

/-! ### Software interrupts -/

/-- Software interrupts are as the registers say. -/
def SoftwareOk (cfg : ClintConfig) (r : ClintRegs) : Prop :=
  ∀ i < cfg.numberOfCores, r.software i = (r.msip i).getLsbD 0

theorem and_one_ne_zero (w : BitVec 32) : (w &&& 0x1 != 0) = w.getLsbD 0 := by
  rw [Bool.eq_iff_iff, bne_iff_ne, ne_eq]
  constructor
  · intro hne
    by_contra hfalse
    apply hne
    apply BitVec.eq_of_getLsbD_eq
    intro i hi
    have hbit : ∀ j : Fin 32, (0x1 : BitVec 32).getLsbD j = decide ((j : ℕ) = 0) := by decide
    rw [BitVec.getLsbD_and, hbit ⟨i, hi⟩]
    by_cases h0 : i = 0
    · subst h0
      simpa using hfalse
    · simp [h0]
  · intro htrue hzero
    have hi : (w &&& 0x1).getLsbD 0 = false := by
      rw [hzero]
      decide
    rw [BitVec.getLsbD_and, htrue] at hi
    cases hi

theorem SoftwareOk.writeMsip {r r' : ClintRegs} (h : SoftwareOk cfg r) {idx : ℕ}
    {data : List (BitVec 32)}
    (hdata : (∃ w, data = [w]) ∨ ∃ w w', data = [w, w'] ∧ w'.getLsbD 0 = r.software (idx + 1))
    (hr : r.writeMsip cfg idx data = some r') : SoftwareOk cfg r' := by
  unfold ClintRegs.writeMsip at hr
  split_ifs at hr with hlen
  cases hr
  intro i hi
  dsimp only
  by_cases hidx : i = idx
  · rw [hidx, Function.update_self, Function.update_self, and_one_ne_zero]
    simp
  · rw [Function.update_of_ne hidx, Function.update_of_ne hidx, ClintRegs.memcpy]
    by_cases hle : idx ≤ i
    · rw [if_pos hle]
      rcases hdata with ⟨w, rfl⟩ | ⟨w, w', rfl, hw'⟩
      · rw [List.getD_eq_default _ _ (by simp; omega)]
        exact h i hi
      · by_cases hnext : i = idx + 1
        · subst hnext
          rw [show idx + 1 - idx = 1 by omega]
          exact hw'.symm
        · rw [List.getD_eq_default _ _ (by simp; omega)]
          exact h i hi
    · rw [if_neg hle]
      exact h i hi

theorem writeMsip_mtime {r r' : ClintRegs} {idx : ℕ} {data : List (BitVec 32)}
    (hr : r.writeMsip cfg idx data = some r') : r'.mtime = r.mtime := by
  unfold ClintRegs.writeMsip at hr
  split_ifs at hr with hlen
  cases hr
  rfl

theorem writeMtimecmp_eq {r r' : ClintRegs} {idx : ℕ} {data : List (BitVec 32)}
    (hr : r.writeMtimecmp cfg idx data = some r') :
    r' = { r with mtimecmpWords := r'.mtimecmpWords } := by
  unfold ClintRegs.writeMtimecmp at hr
  split_ifs at hr with hlen
  cases hr
  rfl

/-! ### Steps -/

/-- Only an MMIO read can set `mtime` to something else than the time of the simulation in microseconds. -/
theorem step_mtime {c : Clint} {e : ClintEvent} (hop : ∀ delay, e.op ≠ .readMtime delay) :
    ((step cfg scaler c e).2.regs.mtime.toNat = c.regs.mtime.toNat ∨
        (step cfg scaler c e).2.regs.mtime.toNat =
          max c.regs.mtime.toNat (e.time.toNat / scaler.toNat)) ∧
      ∀ v, (step cfg scaler c e).1.mtime.map BitVec.toNat = some v →
        v = (step cfg scaler c e).2.regs.mtime.toNat := by
  obtain ⟨time, op⟩ := e
  cases op with
  | readMtime delay => exact absurd rfl (hop delay)
  | updateAndGetMtime =>
    refine ⟨.inr ?_, fun v hv => (Option.some.inj hv).symm⟩
    show (c.regs.updateMtime (time / scaler)).mtime.toNat = _
    rw [updateMtime_eq, BitVec.toNat_udiv]
  | writeMtimecmp idx data delay =>
    unfold step exec
    dsimp only
    cases hr : c.regs.writeMtimecmp cfg idx data with
    | none => exact ⟨.inl rfl, fun v hv => by cases hv⟩
    | some r =>
      refine ⟨.inl ?_, fun v hv => by cases hv⟩
      show r.mtime.toNat = _
      rw [writeMtimecmp_eq hr]
  | writeMsip idx data =>
    unfold step exec
    dsimp only
    cases hr : c.regs.writeMsip cfg idx data with
    | none => exact ⟨.inl rfl, fun v hv => by cases hv⟩
    | some r =>
      refine ⟨.inl ?_, fun v hv => by cases hv⟩
      show r.mtime.toNat = _
      rw [writeMsip_mtime hr]
  | run =>
    -- the thread updates `mtime` when it wakes, and sleeps otherwise
    by_cases hw : c.Wakes ⟨time, .run⟩
    · rw [step_run hw]
      refine ⟨.inr ?_, fun v hv => by cases hv⟩
      dsimp only
      rw [(run_spec c time).1]
      dsimp only
      rw [updateMtime_eq, BitVec.toNat_udiv]
    · rw [step_run_of_not rfl hw]
      exact ⟨.inl rfl, fun v hv => by cases hv⟩

/-- An MMIO read sets `mtime` to the local time in microseconds. -/
theorem step_readMtime {c : Clint} {time delay : BitVec 64}
    (hlt : localTime cfg ⟨time, .readMtime delay⟩ < 2 ^ 64) :
    (step cfg scaler c ⟨time, .readMtime delay⟩).2.regs.mtime.toNat =
      localTime cfg ⟨time, .readMtime delay⟩ / scaler.toNat := by
  have hnow : (time + (delay + cfg.accessDelay)).toNat = localTime cfg ⟨time, .readMtime delay⟩ := by
    unfold localTime at hlt ⊢
    dsimp only at hlt ⊢
    rw [BitVec.toNat_add, BitVec.toNat_add]
    omega
  show ((time + (delay + cfg.accessDelay)) / scaler).toNat = _
  rw [BitVec.toNat_udiv, hnow]

/-- `mtime` is not ahead of the simulation and of the harts that have read it. -/
def Inv (scaler : BitVec 64) (h : History) : Prop :=
  h.clint.regs.mtime.toNat * scaler.toNat ≤ max h.time h.latest

/-- A step keeps the invariant, turns `mtime` not back, and returns no other value. -/
theorem step_clock (hs : 0 < scaler.toNat) {h : History} {e : ClintEvent} (hi : Inv scaler h)
    (horder : InOrder h e) (hok : StepOk cfg scaler h e) :
    (h.clint.regs.mtime.toNat ≤ (h.step cfg scaler e).2.clint.regs.mtime.toNat ∧
      ∀ v, (h.step cfg scaler e).1.mtime.map BitVec.toNat = some v →
        v = (h.step cfg scaler e).2.clint.regs.mtime.toNat) ∧ Inv scaler (h.step cfg scaler e).2 := by
  obtain ⟨time, op⟩ := e
  have hinv : h.clint.regs.mtime.toNat * scaler.toNat ≤ max h.time h.latest := hi
  have horder' : h.time ≤ time.toNat := horder
  by_cases hop : ∃ delay, op = .readMtime delay
  · obtain ⟨delay, rfl⟩ := hop
    obtain ⟨hlt, htick⟩ := hok
    have hmtime : (h.step cfg scaler ⟨time, .readMtime delay⟩).2.clint.regs.mtime.toNat =
        localTime cfg ⟨time, .readMtime delay⟩ / scaler.toNat := step_readMtime hlt
    -- the last tick is one of the simulation or of an earlier read
    have hlocal : h.clint.regs.mtime.toNat * scaler.toNat ≤ localTime cfg ⟨time, .readMtime delay⟩ := by
      rcases le_max_iff.1 hinv with htime | hlatest
      · have hle : time.toNat ≤ localTime cfg ⟨time, .readMtime delay⟩ := by
          unfold localTime
          dsimp only
          omega
        omega
      · exact htick _ hlatest
    refine ⟨⟨?_, fun v hv => (Option.some.inj hv).symm⟩, ?_⟩
    · rw [hmtime]
      exact (Nat.le_div_iff_mul_le hs).2 hlocal
    · show _ * _ ≤ max time.toNat (max h.latest (localTime cfg ⟨time, .readMtime delay⟩))
      rw [hmtime]
      have hdiv := Nat.div_mul_le_self (localTime cfg ⟨time, .readMtime delay⟩) scaler.toNat
      omega
  · obtain ⟨hmtime, hvalue⟩ := @step_mtime cfg scaler h.clint ⟨time, op⟩ fun delay hd => hop ⟨delay, hd⟩
    have hdiv := Nat.div_mul_le_self time.toNat scaler.toNat
    have hlatest : max h.time h.latest ≤
        max time.toNat (max h.latest (localTime cfg ⟨time, op⟩)) := by omega
    refine ⟨⟨?_, hvalue⟩, ?_⟩
    · show _ ≤ (step cfg scaler h.clint ⟨time, op⟩).2.regs.mtime.toNat
      rcases hmtime with heq | heq <;> rw [heq]
      exact le_max_left _ _
    · show (step cfg scaler h.clint ⟨time, op⟩).2.regs.mtime.toNat * scaler.toNat ≤
        max time.toNat (max h.latest (localTime cfg ⟨time, op⟩))
      rcases hmtime with heq | heq <;> rw [heq]
      · exact hinv.trans hlatest
      · rcases max_choice h.clint.regs.mtime.toNat (time.toNat / scaler.toNat) with hmax | hmax <;> rw [hmax]
        · exact hinv.trans hlatest
        · exact hdiv.trans (le_max_left _ _)

theorem step_softwareOk {h : History} {e : ClintEvent} (hsoft : SoftwareOk cfg h.clint.regs)
    (hok : StepOk cfg scaler h e) : SoftwareOk cfg (h.step cfg scaler e).2.clint.regs := by
  obtain ⟨time, op⟩ := e
  show SoftwareOk cfg (step cfg scaler h.clint ⟨time, op⟩).2.regs
  cases op with
  | readMtime delay => exact hsoft
  | updateAndGetMtime =>
    show SoftwareOk cfg (h.clint.regs.updateMtime (time / scaler))
    rw [updateMtime_regs]
    exact hsoft
  | writeMtimecmp idx data delay =>
    unfold step exec
    dsimp only
    cases hr : h.clint.regs.writeMtimecmp cfg idx data with
    | none => exact hsoft
    | some r =>
      show SoftwareOk cfg r
      rw [writeMtimecmp_eq hr]
      exact hsoft
  | writeMsip idx data =>
    unfold step exec
    dsimp only
    cases hr : h.clint.regs.writeMsip cfg idx data with
    | none => exact hsoft
    | some r => exact hsoft.writeMsip hok hr
  | run =>
    by_cases hw : h.clint.Wakes ⟨time, .run⟩
    · rw [step_run hw]
      dsimp only
      rw [(run_spec h.clint time).1, updateMtime_regs]
      exact hsoft
    · rw [step_run_of_not rfl hw]
      exact hsoft

/-- What `run` schedules: a notification for each hart whose comparator is neither reached nor at its
highest value, at the distance that is left. -/
theorem mem_notified {c : Clint} {time : BitVec 64} {i : ℕ} {delay : BitVec 64} :
    (i, delay) ∈ (run cfg scaler c time).2 ↔ i < cfg.numberOfCores ∧
      c.mtimeAt scaler time < c.regs.mtimecmp i ∧ c.regs.mtimecmp i < BitVec.allOnes 64 ∧
      delay = c.regs.mtimecmp i * scaler - c.mtimeAt scaler time * scaler := by
  -- triggering the interrupts changes no `mtimecmp`
  have hcmp : ∀ j, (c.regs.updateMtime (time / scaler)).mtimecmp j = c.regs.mtimecmp j := by
    intro j
    rw [updateMtime_regs]
    rfl
  rw [(run_spec c time).2, List.mem_filterMap]
  constructor
  · rintro ⟨j, hj, hsome⟩
    unfold notified at hsome
    split_ifs at hsome with hcond
    cases hsome
    rw [hcmp] at hcond ⊢
    obtain ⟨hexp, hpos, hlt⟩ := hcond
    refine ⟨List.mem_range.mp hj, ?_, hlt, rfl⟩
    by_contra hge
    have htrue : (c.regs.updateMtime (time / scaler)).expired i = true := by
      unfold ClintRegs.expired
      rw [hcmp, decide_eq_true hpos, Bool.true_and, decide_eq_true_eq]
      exact BitVec.not_lt.mp hge
    rw [htrue] at hexp
    cases hexp
  · rintro ⟨hi, hgt, hlt, rfl⟩
    refine ⟨i, List.mem_range.mpr hi, ?_⟩
    unfold notified
    have hexp : (c.regs.updateMtime (time / scaler)).expired i = false := by
      unfold ClintRegs.expired
      rw [hcmp, Bool.and_eq_false_iff]
      exact Or.inr (decide_eq_false (BitVec.not_le.mpr hgt))
    have hpos : 0 < c.regs.mtimecmp i := by
      rw [BitVec.lt_def] at hgt ⊢
      exact lt_of_le_of_lt (Nat.zero_le _) hgt
    rw [hcmp, if_pos ⟨hexp, hpos, hlt⟩, mtimeAt]

/-- **A step that keeps away from the defects.** -/
theorem step_right (hs : 0 < scaler.toNat) {h : History} {e : ClintEvent}
    (hsoft : SoftwareOk cfg h.clint.regs) (hok : StepOk cfg scaler h e) :
    StepRight cfg scaler h.clint e where
  timer hw i hi := by
    rw [step_run hw]
    dsimp only
    have hregs := (@run_spec cfg scaler h.clint e.time).1
    have hexp : (run cfg scaler h.clint e.time).1.regs.timer i =
        (h.clint.regs.updateMtime (e.time / scaler)).expired i := by
      rw [hregs]
      exact if_pos hi
    rw [hexp, expired_iff, hregs]
    rfl
  scheduled hw i hi hlt hgt := by
    rw [step_run hw]
    exact ⟨_, mem_notified.mpr ⟨hi, hgt, hlt, rfl⟩⟩
  wakeUp i delay hmem := by
    -- only `run` calls `notify` for a goal
    by_cases hw : h.clint.Wakes e
    · rw [step_run hw] at hmem
      obtain ⟨hi, hgt, hlt, rfl⟩ := mem_notified.mp hmem
      have hrun := hw.1
      unfold StepOk at hok
      rw [hrun] at hok
      obtain ⟨hdvd, hfits⟩ := hok hw i hi hlt hgt
      rw [Nat.dvd_iff_mod_eq_zero] at hdvd
      have hdelay := toNat_delay hgt scaler
      have hsum : (e.time + (h.clint.regs.mtimecmp i * scaler - h.clint.mtimeAt scaler e.time * scaler)).toNat =
          e.time.toNat + ((h.clint.regs.mtimecmp i).toNat - (h.clint.mtimeAt scaler e.time).toNat) *
            scaler.toNat % 2 ^ 64 := by
        rw [BitVec.toNat_add, hdelay]
        exact Nat.mod_eq_of_lt hfits
      refine ⟨?_, ?_, ?_⟩
      · rw [hdelay]
        exact Nat.pos_of_ne_zero hdvd
      · rw [BitVec.lt_def, hsum]
        exact Nat.lt_add_of_pos_right (Nat.pos_of_ne_zero hdvd)
      · rw [hsum]
        refine delay_le hs (BitVec.lt_def.mp hgt) ?_
        rw [mtimeAt, updateMtime_eq, BitVec.toNat_udiv]
        exact le_max_right _ _
    · exfalso
      obtain ⟨time, op⟩ := e
      cases op with
      | readMtime delay => cases hmem
      | updateAndGetMtime => cases hmem
      | writeMtimecmp idx data delay =>
        unfold step exec at hmem
        dsimp only at hmem
        cases hr : h.clint.regs.writeMtimecmp cfg idx data <;> rw [hr] at hmem <;> cases hmem
      | writeMsip idx data =>
        unfold step exec at hmem
        dsimp only at hmem
        cases hr : h.clint.regs.writeMsip cfg idx data <;> rw [hr] at hmem <;> cases hmem
      | run =>
        rw [step_run_of_not rfl hw] at hmem
        cases hmem
  software idx data hop := step_softwareOk hsoft hok

/-! ### Runs -/

/-- The values of `mtime` that are returned in a run. -/
def returned (cfg : ClintConfig) (scaler : BitVec 64) (es : List ClintEvent) : List ℕ :=
  (Run.outputs (History.step cfg scaler) .start es).filterMap fun o => o.mtime.map BitVec.toNat

/-- **Time and interrupts are right** in every run at non-decreasing times that keeps away from the defects:
the values that reads of `mtime` return do not go back, and each step leaves the interrupts as the registers
ask for. -/
theorem time_right (hs : 0 < scaler.toNat) {es : List ClintEvent}
    (horder : Run.Along InOrder (History.step cfg scaler) .start es)
    (hok : Run.Along (StepOk cfg scaler) (History.step cfg scaler) .start es) :
    (returned cfg scaler es).Pairwise (· ≤ ·) ∧
      Run.Along (fun h e => StepRight cfg scaler h.clint e) (History.step cfg scaler) .start es := by
  have hinv : Inv scaler .start := by
    show 0 * _ ≤ _
    rw [Nat.zero_mul]
    exact Nat.zero_le _
  have hclock : Run.Along (fun h e => Inv scaler h ∧ InOrder h e ∧ StepOk cfg scaler h e)
      (History.step cfg scaler) .start es := by
    refine Run.Along.of_invariant (Inv scaler) ?_ hinv (horder.and hok)
    rintro h e hi ⟨ho, hk⟩
    exact ⟨⟨hi, ho, hk⟩, (step_clock hs hi ho hk).2⟩
  constructor
  · refine (Run.pairwise_of_clock (fun h => h.clint.regs.mtime.toNat) (fun o => o.mtime.map BitVec.toNat)
      ?_ hclock).1
    rintro h e ⟨hi, ho, hk⟩
    exact (step_clock hs hi ho hk).1
  · refine Run.Along.of_invariant (fun h => SoftwareOk cfg h.clint.regs) ?_ ?_ hok
    · intro h e hsoft hk
      exact ⟨step_right hs hsoft hk, step_softwareOk hsoft hk⟩
    · intro i _
      show false = (0 : BitVec 32).getLsbD 0
      decide

/-- Two harts; an access takes 20 ns. -/
def twoCores : ClintConfig :=
  ⟨2, 20000, ClintConfig.two_cores_pos, ClintConfig.two_cores_lt⟩

/-- Hart 0 is 50 us ahead of hart 1 and reads `mtime` first. -/
def localTimes : List ClintEvent := [⟨0, .readMtime 50000000⟩, ⟨0, .readMtime 0⟩]

/-- Time goes back for hart 1. -/
theorem not_sorted_localTimes : ¬(returned twoCores 1000000 localTimes).Pairwise (· ≤ ·) := by
  decide

/-- A timer is set, and runs out.  Hart 1 then reads `mtime` behind hart 0, in the same tick. -/
def timerRun : List ClintEvent :=
  [⟨0, .writeMtimecmp 0 [3, 0] 0⟩, ⟨20000, .run⟩, ⟨3020000, .run⟩, ⟨3020000, .readMtime 500000⟩,
    ⟨3020000, .readMtime 0⟩]

theorem time_right_timerRun :
    returned twoCores 1000000 timerRun = [3, 3] ∧
      (Run.final (History.step twoCores 1000000) .start timerRun).clint.regs.timer 0 = true ∧
      Run.Along (fun h e => StepRight twoCores 1000000 h.clint e) (History.step twoCores 1000000) .start
        timerRun := by
  have horder : Run.Along InOrder (History.step twoCores 1000000) .start timerRun := by
    refine ⟨?_, ?_, ?_, ?_, ?_, trivial⟩ <;> (show _ ≤ _; decide)
  have hok : Run.Along (StepOk twoCores 1000000) (History.step twoCores 1000000) .start timerRun := by
    refine ⟨trivial, ?_, ?_, ⟨by decide, ?_⟩, ⟨by decide, ?_⟩, trivial⟩
    · rintro -
      show ∀ i < 2, _
      decide
    · rintro -
      show ∀ i < 2, _
      decide
    · intro k hk
      exact hk.trans (Nat.zero_le _)
    · intro k hk
      replace hk : k * 1000000 ≤ 3540000 := hk
      show k * 1000000 ≤ 3040000
      omega
  exact ⟨by decide, by decide, (time_right (by decide) horder hok).2⟩

end RiscvVp.Clint
