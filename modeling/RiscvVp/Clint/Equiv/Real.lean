import Mathlib
import RiscvVp.Clint.Real

/-!
# The timers of the CLINT on the host's clock

The thread of a timer sleeps in chunks of `NS_MAX` nanoseconds, a little more than the `US_MAX`
microseconds it takes off its count, so it never wakes up early.  The product in `ticks_to_usec` has no
room for every distance of `mtimecmp`, though: beyond `2 ^ 64 / DIVIDEND` ticks the timer is started with
what is left of it modulo `2 ^ 64`, fires early, or fails its assertion where nothing is left.
-/

namespace RiscvVp

open Timer

/-! ### The thread -/

namespace Timer

/-- The last sleep of a count that is left by the loop. -/
theorem lastSleep_of_pos {count : ℕ} (hpos : 0 < count) (hle : count ≤ usMax) (signal : Bool) :
    lastSleep signal count = ([count * 1000], if signal then .killed else .fired) := by
  rw [usMax_eq] at hle
  have hmod : count * 1000 % 2 ^ 64 = count * 1000 := Nat.mod_eq_of_lt (by omega)
  have hlong : count * 1000 ≤ longMax := by
    rw [longMax]
    omega
  have hns : ¬nsMax < count * 1000 := by
    rw [nsMax]
    omega
  have hgt : count * 1000 > count := by omega
  unfold lastSleep xnanosleep
  simp only [hmod, hgt, hlong, hns, not_true, if_false]
  cases signal <;> rfl

/-- What holds of the thread for every positive count: no assertion fails, each sleep is one that
`nanosleep` takes, and if it fires it has slept at least its count, with at most 999 nanoseconds more for
each chunk. -/
structure SleepsFor (count : ℕ) (r : List ℕ × Outcome) : Prop where
  ends : r.2 = .fired ∨ r.2 = .killed
  le_nsMax : ∀ nsec ∈ r.1, nsec ≤ nsMax
  slept : r.2 = .fired → count * 1000 ≤ r.1.sum
  bounded : r.1.sum ≤ count * 1001

theorem callback_of_le {signals : ℕ → Bool} {count : ℕ} (h : count ≤ usMax) :
    callback signals count = lastSleep (signals 0) count := by
  rw [callback, dif_neg (not_lt.mpr h)]

theorem callback_of_gt {signals : ℕ → Bool} {count : ℕ} (h : usMax < count) :
    callback signals count =
      if signals 0 then ([nsMax], .killed)
      else (nsMax :: (callback (fun i => signals (i + 1)) (count - usMax)).1,
        (callback (fun i => signals (i + 1)) (count - usMax)).2) := by
  rw [callback, dif_pos h, xnanosleep, if_neg (lt_irrefl nsMax)]
  cases signals 0 <;> rfl

/-- One chunk and enough for the rest of the count are enough for the count. -/
theorem count_le_chunk {count total : ℕ} (hgt : usMax < count)
    (hrest : (count - usMax) * 1000 ≤ total) : count * 1000 ≤ nsMax + total := by
  rw [usMax_eq, Nat.sub_mul] at hrest
  rw [usMax_eq] at hgt
  rw [nsMax]
  omega

theorem sleepsFor_callback (signals : ℕ → Bool) {count : ℕ} (hpos : 0 < count) :
    SleepsFor count (callback signals count) := by
  induction count using Nat.strong_induction_on generalizing signals with
  | _ count ih =>
    rcases le_or_gt count usMax with hle | hgt
    · rw [callback_of_le hle, lastSleep_of_pos hpos hle]
      rw [usMax_eq] at hle
      refine ⟨?_, ?_, ?_, ?_⟩
      · cases signals 0 <;> simp
      · intro nsec hmem
        rw [List.mem_singleton.mp hmem, nsMax]
        omega
      · intro _
        rw [List.sum_singleton]
      · rw [List.sum_singleton]
        omega
    · rw [callback_of_gt hgt]
      by_cases hsignal : signals 0 = true
      · rw [if_pos hsignal]
        refine ⟨.inr rfl, ?_, ?_, ?_⟩
        · intro nsec hmem
          rw [List.mem_singleton.mp hmem]
        · intro hfired
          cases hfired
        · rw [List.sum_singleton, nsMax]
          rw [usMax_eq] at hgt
          omega
      · rw [if_neg hsignal]
        -- the rest of the count, and one chunk before it
        obtain ⟨hends, hnsec, hslept, hbounded⟩ :=
          ih (count - usMax) (sub_usMax_lt hgt) (fun i => signals (i + 1)) (Nat.sub_pos_of_lt hgt)
        refine ⟨hends, ?_, ?_, ?_⟩
        · intro nsec hmem
          rcases List.mem_cons.mp hmem with hchunk | hmem
          · exact hchunk.le
          · exact hnsec nsec hmem
        · intro hfired
          have hrest := hslept hfired
          rw [List.sum_cons]
          exact count_le_chunk hgt hrest
        · rw [List.sum_cons]
          generalize (callback (fun i => signals (i + 1)) (count - usMax)).1.sum = total at hbounded ⊢
          rw [usMax_eq] at hgt hbounded
          rw [nsMax]
          omega

/-- A thread that no signal interrupts fires. -/
theorem callback_uninterrupted {count : ℕ} (hpos : 0 < count) :
    (callback (fun _ => false) count).2 = .fired := by
  induction count using Nat.strong_induction_on with
  | _ count ih =>
    rcases le_or_gt count usMax with hle | hgt
    · rw [callback_of_le hle, lastSleep_of_pos hpos hle]
      rfl
    · rw [callback_of_gt hgt, if_neg Bool.false_ne_true]
      exact ih (count - usMax) (sub_usMax_lt hgt) (Nat.sub_pos_of_lt hgt)

/-- A duration of no microseconds fails the first assertion. -/
theorem callback_zero (signals : ℕ → Bool) : callback signals 0 = ([], .aborted) := by
  rw [callback_of_le (Nat.zero_le _)]
  rfl

end Timer

/-! ### Timer interrupts -/

namespace RealClint

theorem dividend_eq : dividend = 30 := by norm_num [dividend]

/-- What is said of the timer that a write to `mtimecmp` starts: whatever signals come, the thread ends,
no assertion fails and each sleep is in range; if it fires, it has slept the distance to `mtimecmp` taken
as an exact number of microseconds, and at every time that the host can have reached then the interrupt
of the hart is raised. -/
def TimerRight (harts : ℕ) (c : RealClint) (hart : ℕ) (now : HostTime) : Prop :=
  ∀ duration, (c.postWriteMtimecmp hart now).timers hart = some duration → ∀ signals : ℕ → Bool,
    let r := callback signals duration
    (r.2 = .fired ∨ r.2 = .killed) ∧ (∀ nsec ∈ r.1, nsec ≤ 999999999) ∧
      (r.2 = .fired →
        ((c.mtimecmp hart).toNat - usecToTicks (usecs now)) * dividend * 1000 ≤ r.1.sum ∧
        ∀ later : HostTime, now.val + r.1.sum ≤ later.val →
          (c.mtimecmp hart).toNat ≤ usecToTicks (usecs later) ∧
            ((c.postWriteMtimecmp hart now).interrupt harts later).timerPending hart = true)

/-- What a write to `mtimecmp` makes of the timer. -/
theorem timers_postWriteMtimecmp (c : RealClint) (hart : ℕ) (now : HostTime) :
    (c.postWriteMtimecmp hart now).timers hart =
      if (c.mtimecmp hart).toNat ≤ usecToTicks (usecs now) then none
      else some (ticksToUsec ((c.mtimecmp hart).toNat - usecToTicks (usecs now))) := by
  unfold postWriteMtimecmp updateAndGetMtime
  dsimp only
  split_ifs
  · exact Function.update_self ..
  · exact Function.update_self ..

theorem mtimecmp_postWriteMtimecmp (c : RealClint) (hart : ℕ) (now : HostTime) :
    (c.postWriteMtimecmp hart now).mtimecmp = c.mtimecmp := by
  unfold postWriteMtimecmp
  dsimp only
  split_ifs <;> rfl

/-- Once the ticks have reached `mtimecmp` the interrupt of the hart is raised. -/
theorem timerPending_interrupt {harts hart : ℕ} (hhart : hart < harts) {c : RealClint}
    {later : HostTime} (h : (c.mtimecmp hart).toNat ≤ usecToTicks (usecs later)) :
    (c.interrupt harts later).timerPending hart = true :=
  if_pos ⟨hhart, h⟩

/-- Who has slept the exact distance finds that the ticks have reached `mtimecmp`. -/
theorem le_usecToTicks {goal slept : ℕ} {now later : HostTime}
    (hslept : (goal - usecToTicks (usecs now)) * dividend * 1000 ≤ slept)
    (hlater : now.val + slept ≤ later.val) : goal ≤ usecToTicks (usecs later) := by
  unfold usecToTicks usecs at *
  rw [dividend_eq] at *
  omega

/-- **When a timer is right.**  The timer that a write to `mtimecmp` starts is right exactly if the
distance to `mtimecmp` in microseconds fits 64 bits. -/
theorem timerRight_iff (harts : ℕ) (c : RealClint) (hart : ℕ) (hhart : hart < harts)
    (now : HostTime) :
    c.TimerRight harts hart now ↔
      ((c.mtimecmp hart).toNat - usecToTicks (usecs now)) * dividend < 2 ^ 64 := by
  have htimers := timers_postWriteMtimecmp c hart now
  obtain ⟨goal, hgoal⟩ : ∃ goal, goal = (c.mtimecmp hart).toNat - usecToTicks (usecs now) := ⟨_, rfl⟩
  rw [← hgoal] at htimers ⊢
  constructor
  · intro h
    by_contra hlarge
    have hstarted : ¬(c.mtimecmp hart).toNat ≤ usecToTicks (usecs now) := by
      intro hle
      rw [hgoal, Nat.sub_eq_zero_of_le hle, Nat.zero_mul] at hlarge
      exact hlarge (Nat.two_pow_pos 64)
    rw [if_neg hstarted] at htimers
    have hright := h _ htimers fun _ => false
    rcases Nat.eq_zero_or_pos (ticksToUsec goal) with hzero | hpos
    · -- nothing is left of the product: the assertion fails
      rw [hzero, callback_zero] at hright
      rcases hright.1 with hends | hends <;> cases hends
    · -- less than the distance is left of it: the timer fires early
      have hfired := callback_uninterrupted hpos
      have hbounded := (sleepsFor_callback (fun _ => false) hpos).bounded
      have hslept := (hright.2.2 hfired).1
      rw [← hgoal] at hslept
      have hlt : ticksToUsec goal < 2 ^ 64 := Nat.mod_lt _ (Nat.two_pow_pos 64)
      have hsplit := Nat.div_add_mod (goal * dividend) (2 ^ 64)
      have hquot : 1 ≤ goal * dividend / 2 ^ 64 :=
        (Nat.one_le_div_iff (Nat.two_pow_pos 64)).mpr (not_lt.mp hlarge)
      rw [← ticksToUsec] at hsplit
      omega
  · intro hsmall duration hduration signals
    rw [htimers] at hduration
    split_ifs at hduration with hle
    have hexact : goal * dividend = duration := by
      rw [← Option.some.inj hduration, ticksToUsec, Nat.mod_eq_of_lt hsmall]
    have hpos : 0 < duration := by
      rw [← hexact, dividend_eq]
      omega
    obtain ⟨hends, hnsec, hslept, -⟩ := sleepsFor_callback signals hpos
    refine ⟨hends, hnsec, fun hfired => ?_⟩
    have htotal := hslept hfired
    nth_rewrite 1 [← hexact, hgoal] at htotal
    refine ⟨htotal, fun later hlater => ?_⟩
    have hreached := le_usecToTicks htotal hlater
    refine ⟨hreached, timerPending_interrupt hhart ?_⟩
    rw [mtimecmp_postWriteMtimecmp]
    exact hreached

/-- A controller with the given value in all of `mtimecmp`. -/
def withMtimecmp (cmp : BitVec 64) : RealClint := ⟨0, fun _ => cmp, fun _ => false, fun _ => none⟩

theorem timerRight_iff_second :
    (withMtimecmp 32768).TimerRight 1 0 0 ↔
      (((withMtimecmp 32768).mtimecmp 0).toNat - usecToTicks (usecs 0)) * dividend < 2 ^ 64 :=
  timerRight_iff 1 (withMtimecmp 32768) 0 Nat.zero_lt_one 0

/-- For `2 ^ 63` ticks nothing is left of the product: the thread aborts the program. -/
theorem not_timerRight : ¬(withMtimecmp 0x8000000000000000).TimerRight 1 0 0 := by
  intro h
  have hzero : ((withMtimecmp 0x8000000000000000).postWriteMtimecmp 0 0).timers 0 = some 0 := by
    decide
  have hright := h 0 hzero fun _ => false
  rw [callback_zero] at hright
  rcases hright.1 with hends | hends <;> cases hends

end RealClint

end RiscvVp
