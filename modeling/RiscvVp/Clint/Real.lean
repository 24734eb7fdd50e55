import Mathlib

/-!
# The CLINT on the host's clock

`RealCLINT` (`core/common/real_clint.cpp`) takes `mtime` from the clock of the host.  A write to
`mtimecmp` that lies in the future starts a `Timer` (`core/common/timer.cpp`), a thread that sleeps and
then notifies the event that runs `interrupt`.  Times of the host are nanoseconds since the controller was
built, as the clock counts them in a 64-bit signed number; `uint64_t` is ℕ with its overflows written out.
-/

namespace RiscvVp

/-- What the clock of the host shows, in nanoseconds since `first_mtime`. -/
abbrev HostTime := Fin (2 ^ 63)

/-! ### Ticks and microseconds -/

namespace RealClint

/-- `DIVIDEND`: the microseconds of a tick, by the integer division of the source. -/
def dividend : ℕ := 15625 / 512

/-- `usec_to_ticks`: the whole ticks of a time. -/
def usecToTicks (usec : ℕ) : ℕ := usec / dividend

/-- `ticks_to_usec`: the time of so many ticks, in 64 bits and without a check for an overflow. -/
def ticksToUsec (ticks : ℕ) : ℕ := ticks * dividend % 2 ^ 64

/-- `duration_cast<usecs>` of the time since `first_mtime`. -/
def usecs (now : HostTime) : ℕ := now.val / 1000

end RealClint

/-! ### The registers -/

/-- `mtime`, `mtimecmp`, the timer interrupts that harts have pending, and the durations of the timers
that run. -/
structure RealClint where
  mtime : ℕ
  mtimecmp : ℕ → BitVec 64
  timerPending : ℕ → Bool
  timers : ℕ → Option ℕ

namespace RealClint

/-- `update_and_get_mtime`: the register follows the clock of the host. -/
def updateAndGetMtime (c : RealClint) (now : HostTime) : RealClint :=
  { c with mtime := usecToTicks (usecs now) }

/-- `post_write_mtimecmp`, once the array holds what was written. -/
def postWriteMtimecmp (c : RealClint) (hart : ℕ) (now : HostTime) : RealClint :=
  let c := c.updateAndGetMtime now
  if c.mtime ≥ (c.mtimecmp hart).toNat then
    { c with
      timers := Function.update c.timers hart none
      timerPending := Function.update c.timerPending hart true }
  else
    { c with
      timers := Function.update c.timers hart
        (some (ticksToUsec ((c.mtimecmp hart).toNat - c.mtime)))
      timerPending := Function.update c.timerPending hart false }

/-- `interrupt`: the timer interrupt of each hart whose time has come is set; none is cleared. -/
def interrupt (harts : ℕ) (c : RealClint) (now : HostTime) : RealClint :=
  let c := c.updateAndGetMtime now
  { c with timerPending := fun i =>
      if i < harts ∧ c.mtime ≥ (c.mtimecmp i).toNat then true else c.timerPending i }

end RealClint

/-! ### The timer thread -/

namespace Timer

/-- `NS_MAX`: the greatest number of nanoseconds next to a number of seconds. -/
def nsMax : ℕ := 999999999

/-- `US_MAX`: the greatest time that is given to the host in nanoseconds alone. -/
def usMax : ℕ := nsMax / 1000

/-- `LONG_MAX`: the greatest number of seconds that the host takes. -/
def longMax : ℕ := 2 ^ 63 - 1

/-- How the thread of a timer ends: by the callback, by a signal, or not in order. -/
inductive Outcome
  /-- `ctx->fn` was called: the time is over. -/
  | fired
  /-- A signal interrupted the sleep. -/
  | killed
  /-- An assertion failed, and the program has ended. -/
  | aborted
  /-- `nanosleep` rejected its argument. -/
  | failed
  deriving DecidableEq, Repr

/-- `xnanosleep`, with whether a signal comes: nothing if the thread goes on. -/
def xnanosleep (nsec : ℕ) (signal : Bool) : Option Outcome :=
  if nsMax < nsec then some .failed else if signal then some .killed else none

/-- The end of `callback`: the remaining microseconds. -/
def lastSleep (signal : Bool) (count : ℕ) : List ℕ × Outcome :=
  let ns := count * 1000 % 2 ^ 64
  if ¬ns > count then ([], .aborted)
  else if ¬ns ≤ longMax then ([], .aborted)
  else ([ns], (xnanosleep ns signal).getD .fired)

theorem usMax_eq : usMax = 999999 := by norm_num [usMax, nsMax]

theorem sub_usMax_lt {count : ℕ} (h : count > usMax) : count - usMax < count := by
  rw [usMax_eq] at h ⊢
  omega

/-- `callback` for a duration: the `tv_nsec` of its sleeps and how it ends.  `signals i` says whether a
signal interrupts the sleep number `i`. -/
def callback (signals : ℕ → Bool) (count : ℕ) : List ℕ × Outcome :=
  if _h : count > usMax then
    match xnanosleep nsMax (signals 0) with
    | some outcome => ([nsMax], outcome)
    | none =>
      let r := callback (fun i => signals (i + 1)) (count - usMax)
      (nsMax :: r.1, r.2)
  else lastSleep (signals 0) count
termination_by (count, 0)
decreasing_by exact Prod.Lex.left _ _ (sub_usMax_lt _h)

end Timer

end RiscvVp
