import RiscvVp.Channel.Equiv.Fifo

/-!
# The threads of the channel go on

A thread waits for a mutex, for a semaphore or for another thread to end.  As long as the channel is not
stopped, what it waits for comes: a mutex is held by a thread that goes on, and a semaphore is posted for
every byte and every place.

When the channel stops, `stop_handling` posts `rxempty` once, so that a main thread waiting in `rxpush`
goes on.  That is enough for an input of one byte.
-/

namespace RiscvVp.ChannelIf

variable {c c' : ChannelIf} {e : Option Event} {h : List (Option Event)}

/-! ### Mutexes and semaphores -/

theorem Mutexes.txmtx_eq_false (hc : c.Mutexes) (hsoc : c.soc.inTx = 0) (htx : c.tx.inTx = 0) :
    c.txmtx = false := by
  have h := hc.tx
  rw [hsoc, htx] at h
  exact Bool.toNat_eq_zero.1 h

theorem Mutexes.rcvmtx_eq_false (hc : c.Mutexes) (hsoc : c.soc.inRcv = 0) (hrx : c.rx.inRcv = 0) :
    c.rcvmtx = false := by
  have h := hc.rcv
  rw [hsoc, hrx] at h
  exact Bool.toNat_eq_zero.1 h

/-- The transmitter goes on, unless it waits for a byte or for `txmtx`, or has ended. -/
theorem Inv.isSome_txStep (hc : c.Inv h) (hrun : ∀ data, c.tx ≠ .done data)
    (hwait : c.tx = .wait → c.txfull ≠ 0) (hlock : c.tx = .lock → c.soc.inTx = 0) :
    c.txStep.isSome := by
  unfold txStep
  cases hpc : c.tx with
  | wait => simp [hwait hpc]
  | lock => simp [hc.mutexes.txmtx_eq_false (hlock hpc) (by rw [hpc]; rfl)]
  | pop =>
    cases hfifo : c.txFifo with
    | nil => exact absurd hfifo (hc.sending.found (by rw [hpc]; rfl))
    | cons data rest => rfl
  | done data => exact absurd hpc (hrun data)
  | _ => rfl

/-- A transmitter that has `txmtx` goes on. -/
theorem Inv.isSome_txStep_of_inTx (hc : c.Inv h) (htx : c.tx.inTx ≠ 0) : c.txStep.isSome := by
  refine hc.isSome_txStep ?_ ?_ ?_
  · intro data hpc
    exact htx (by rw [hpc]; rfl)
  · intro hpc
    exact absurd (by rw [hpc]; rfl) htx
  · intro hpc
    exact absurd (by rw [hpc]; rfl) htx

/-- A main thread that has `rcvmtx` goes on. -/
theorem isSome_rxStep_of_inRcv (hrx : c.rx.inRcv ≠ 0) : c.rxStep.isSome := by
  unfold rxStep
  cases hpc : c.rx with
  | body data input => rfl
  | unlock input => rfl
  | _ => exact absurd (by rw [hpc]; rfl) hrx

/-- The thread that has a mutex the simulation waits for goes on. -/
theorem Inv.isSome_of_locked (hc : c.Inv h) {f : Fifo} (hlocked : c.locked f = true)
    (htx : c.soc.inTx = 0) (hrcv : c.soc.inRcv = 0) : c.txStep.isSome ∨ c.rxStep.isSome := by
  cases f with
  | tx =>
    refine Or.inl (hc.isSome_txStep_of_inTx fun hzero => ?_)
    have hfree := hc.mutexes.txmtx_eq_false htx hzero
    simp [locked, hfree] at hlocked
  | rx =>
    refine Or.inr (isSome_rxStep_of_inRcv fun hzero => ?_)
    have hfree := hc.mutexes.rcvmtx_eq_false hrcv hzero
    simp [locked, hfree] at hlocked

/-- A call goes on, or waits for a thread that does. -/
theorem Inv.isSome_of_call (hc : c.Inv h) (hidle : c.soc ≠ .idle) (hjoin : c.soc ≠ .join)
    (hstopped : c.soc ≠ .stopped) : c.socStep.isSome ∨ c.txStep.isSome ∨ c.rxStep.isSome := by
  by_cases hgo : c.socStep.isSome
  · exact Or.inl hgo
  · refine Or.inr ?_
    unfold socStep at hgo
    cases hpc : c.soc <;> simp only [hpc] at hgo
    case idle => exact absurd hpc hidle
    case join => exact absurd hpc hjoin
    case stopped => exact absurd hpc hstopped
    case txLock data =>
      refine hc.isSome_of_locked (f := .tx) ?_ (by rw [hpc]; rfl) (by rw [hpc]; rfl)
      show c.txmtx = true
      by_contra hfree
      simp [hfree] at hgo
    case rxLock =>
      refine hc.isSome_of_locked (f := .rx) ?_ (by rw [hpc]; rfl) (by rw [hpc]; rfl)
      show c.rcvmtx = true
      by_contra hfree
      simp [hfree] at hgo
    case sizeLock f =>
      refine hc.isSome_of_locked (f := f) ?_ (by rw [hpc]; rfl) (by rw [hpc]; rfl)
      by_contra hfree
      simp [hfree] at hgo
    case txBody data =>
      split_ifs at hgo <;> exact absurd rfl hgo
    case rxBody =>
      split at hgo <;> exact absurd rfl hgo
    all_goals exact absurd rfl hgo

/-- Bytes to send keep the transmitter going. -/
theorem Inv.isSome_of_txFifo (hc : c.Inv h) (hidle : c.soc = .idle) (hflag : c.stopFlag = false)
    (hfifo : c.txFifo ≠ []) : c.txStep.isSome := by
  have hrun : c.tx.ending = false := by
    by_contra hend
    have := hc.flags.tx (by simpa using hend)
    simp [hflag] at this
  refine hc.isSome_txStep ?_ ?_ ?_
  · intro data hpc
    rw [hpc] at hrun
    cases hrun
  · intro hpc
    have hcounted := hc.sending.counted hrun
    have hlen := List.length_pos_iff.2 hfifo
    simp only [hpc, hidle, TxPc.woken, SocPc.txOwed] at hcounted
    omega
  · intro _
    rw [hidle]
    rfl

/-- Received bytes keep the main thread going as long as there is a place. -/
theorem Inv.isSome_of_rxFifo (hc : c.Inv h) (hidle : c.soc = .idle) (hhand : c.rx.hand ≠ [])
    (hfifo : c.rxFifo.length < c.rxFifoDepth) : c.rxStep.isSome := by
  unfold rxStep
  cases hpc : c.rx with
  | push input =>
    cases input with
    | nil => rfl
    | cons data input =>
      have hplaces := hc.receiving.places
      simp only [hpc, hidle, RxPc.woken, SocPc.rxOwed, SocPc.posted] at hplaces
      have hempty : c.rxempty ≠ 0 := by omega
      simp [hempty]
  | lock data input =>
    have hfree := hc.mutexes.rcvmtx_eq_false (by rw [hidle]; rfl) (by rw [hpc]; rfl)
    simp [hfree]
  | body data input => rfl
  | unlock input => rfl
  | notify input => rfl
  | _ => exact absurd (by rw [hpc]; rfl) hhand

/-- **Nobody waits in vain.**  For fifos of any depth and for every order of the steps: a call of the
simulation goes on or waits for a mutex whose holder goes on; between the calls, bytes to send keep the
transmitter going until the channel is stopped, and received bytes keep the main thread going as long as
the fifo has a place. -/
theorem goes_on (txFifoDepth rxFifoDepth : ℕ) (as : List Act) :
    ((after txFifoDepth rxFifoDepth as).soc ≠ .idle → (after txFifoDepth rxFifoDepth as).soc ≠ .join →
        (after txFifoDepth rxFifoDepth as).soc ≠ .stopped →
        (after txFifoDepth rxFifoDepth as).socStep.isSome ∨
          (after txFifoDepth rxFifoDepth as).txStep.isSome ∨
            (after txFifoDepth rxFifoDepth as).rxStep.isSome) ∧
      ((after txFifoDepth rxFifoDepth as).soc = .idle →
        (after txFifoDepth rxFifoDepth as).stopFlag = false →
        (after txFifoDepth rxFifoDepth as).txFifo ≠ [] →
        (after txFifoDepth rxFifoDepth as).txStep.isSome) ∧
      ((after txFifoDepth rxFifoDepth as).soc = .idle →
        (after txFifoDepth rxFifoDepth as).rx.hand ≠ [] →
        (after txFifoDepth rxFifoDepth as).rxFifo.length < rxFifoDepth →
        (after txFifoDepth rxFifoDepth as).rxStep.isSome) := by
  have hinv := inv_run txFifoDepth rxFifoDepth as
  have hdepth := (depths_run txFifoDepth rxFifoDepth as).2
  refine ⟨hinv.isSome_of_call, hinv.isSome_of_txFifo, fun hidle hhand hlen => ?_⟩
  exact hinv.isSome_of_rxFifo hidle hhand (by rw [hdepth]; exact hlen)

/-! ### Inputs of one byte -/

/-- An input has at most one byte. -/
def Act.OneByte : Act → Prop
  | .input bytes => bytes.length ≤ 1
  | _ => True

/-- The bytes after the one that is pushed. -/
def RxPc.rest : RxPc → List (BitVec 8)
  | push input => input.tail
  | lock _ input | body _ input | unlock input | notify input => input
  | _ => []

/-- The main thread has pushed no byte since it has seen that the flag is not set. -/
def RxPc.fresh : RxPc → Bool
  | poll | push (_ :: _) | lock _ _ | body _ _ => true
  | _ => false

/-- What holds as long as inputs have one byte. -/
structure Single (c : ChannelIf) : Prop where
  rest : c.rx.rest = []
  room : c.rx.fresh → c.rxFifo.length ≤ c.rxFifoDepth

/-- The simulation only takes bytes out of the fifo for receiving. -/
theorem rxFifo_of_socStep (hs : c.socStep = some (e, c')) : c'.rxFifo.length ≤ c.rxFifo.length := by
  cases hpc : c.soc <;> simp only [socStep, hpc] at hs
  case rxBody =>
    split at hs <;> rename_i hfifo
    · cases hs
      exact le_rfl
    · cases hs
      rw [hfifo]
      exact Nat.le_succ _
  case sizeLock f =>
    split_ifs at hs
    cases hs
    cases f <;> exact le_rfl
  case sizeUnlock f =>
    cases hs
    cases f <;> exact le_rfl
  all_goals try split at hs
  all_goals
    cases hs
  all_goals exact le_rfl

theorem Single.of_not_fresh (hrest : c.rx.rest = []) (hfresh : c.rx.fresh = false) : c.Single :=
  ⟨hrest, fun hno => absurd (hfresh.symm.trans hno) Bool.false_ne_true⟩

theorem Single.rxStep (hs : c.Single) (hc : c.Inv h) (hstep : c.rxStep = some (e, c')) : c'.Single := by
  obtain ⟨hrest, hroom⟩ := hs
  cases hpc : c.rx <;> simp only [ChannelIf.rxStep, hpc] at hstep <;>
    simp only [hpc, RxPc.rest, RxPc.fresh, forall_const] at hrest hroom
  -- a new round: the queue has room, since no more is in it than was taken from the semaphore
  case loop =>
    cases hstep
    cases hflag : c.stopFlag
    · refine ⟨rfl, fun _ => ?_⟩
      have hplaces := hc.receiving.places
      have hposted : c.soc.posted = 0 := by
        have hstop := hc.flags.soc
        rw [hflag] at hstop
        cases hsoc : c.soc <;> rw [hsoc] at hstop <;> first | rfl | exact absurd (hstop rfl) (by decide)
      show c.rxFifo.length ≤ c.rxFifoDepth
      omega
    · exact .of_not_fresh rfl rfl
  case push input =>
    cases input with
    | nil =>
      cases hstep
      exact .of_not_fresh rfl rfl
    | cons data input =>
      simp only at hstep
      split_ifs at hstep
      cases hstep
      exact ⟨hrest, fun _ => hroom rfl⟩
  case lock data input =>
    split_ifs at hstep
    cases hstep
    exact ⟨hrest, fun _ => hroom⟩
  case body data input =>
    cases hstep
    exact .of_not_fresh hrest rfl
  case unlock input =>
    cases hstep
    exact .of_not_fresh hrest rfl
  case notify input =>
    cases hstep
    rw [hrest]
    exact .of_not_fresh rfl rfl
  all_goals try split at hstep
  all_goals
    cases hstep
  all_goals exact .of_not_fresh rfl rfl

theorem Single.step? {a : Act} (hs : c.Single) (hc : c.Inv h) (ha : a.OneByte)
    (hstep : c.step? a = some (e, c')) : c'.Single := by
  cases a with
  | soc =>
    obtain ⟨-, hrx, -, -, hdepth⟩ := socStep_frame hstep
    exact ⟨by rw [hrx]; exact hs.rest, fun hfresh => by
      rw [hdepth]
      exact (rxFifo_of_socStep hstep).trans (hs.room (by rwa [← hrx]))⟩
  | tx =>
    obtain ⟨-, hrx, -, -, hfifo, hdepth, -⟩ := txStep_frame hstep
    exact ⟨by rw [hrx]; exact hs.rest, by rw [hrx, hfifo, hdepth]; exact hs.room⟩
  | rx => exact hs.rxStep hc hstep
  | input input =>
    simp only [ChannelIf.step?] at hstep
    split_ifs at hstep with hpoll
    cases hstep
    refine ⟨?_, fun _ => hs.room (by rw [hpoll]; rfl)⟩
    show input.tail = []
    refine List.length_eq_zero_iff.1 ?_
    rw [List.length_tail]
    exact Nat.sub_eq_zero_of_le ha
  | close =>
    simp only [ChannelIf.step?] at hstep
    split_ifs at hstep
    cases hstep
    exact .of_not_fresh rfl rfl
  | openFails =>
    simp only [ChannelIf.step?] at hstep
    split_ifs at hstep
    cases hstep
    exact .of_not_fresh rfl rfl
  | _ =>
    simp only [ChannelIf.step?, ChannelIf.call] at hstep
    split_ifs at hstep
    cases hstep
    exact ⟨hs.rest, hs.room⟩

/-! ### The end of the threads -/

/-- How many steps `stop_handling` still has to take. -/
def SocPc.left : SocPc → ℕ
  | stopPost => 2
  | join => 1
  | _ => 0

/-- How many steps the transmitter takes at most, once the flag is set. -/
def TxPc.left : TxPc → ℕ
  | wait => 9
  | check => 8
  | lock => 7
  | pop => 6
  | unlock _ => 5
  | notify _ => 4
  | retest _ | retestEmpty => 3
  | write _ => 2
  | test => 1
  | done _ => 0

/-- How many steps the main thread takes at most, once the flag is set. -/
def RxPc.left : RxPc → ℕ
  | poll => 11
  | push input => 5 + 5 * input.length
  | lock _ input => 9 + 5 * input.length
  | body _ input => 8 + 5 * input.length
  | unlock input => 7 + 5 * input.length
  | notify input => 6 + 5 * input.length
  | loop => 4
  | setStop => 3
  | postTx => 2
  | join => 1
  | done => 0

/-- How many steps are left at most. -/
def left (c : ChannelIf) : ℕ := c.soc.left + c.tx.left + c.rx.left

/-- With inputs of one byte there are at most 22. -/
theorem Single.left_le (hs : c.Single) : c.left ≤ 22 := by
  have hrest := hs.rest
  have hsoc : c.soc.left ≤ 2 := by cases c.soc <;> simp [SocPc.left]
  have htx : c.tx.left ≤ 9 := by cases c.tx <;> simp [TxPc.left]
  have hrx : c.rx.left ≤ 11 := by
    cases hpc : c.rx <;> rw [hpc] at hrest <;> simp only [RxPc.rest] at hrest
    case push input =>
      have hlen := congrArg List.length hrest
      rw [List.length_tail, List.length_nil] at hlen
      simp only [RxPc.left]
      omega
    all_goals simp_all [RxPc.left]
  unfold left
  omega

theorem left_txStep (hflag : c.stopFlag = true) (hs : c.txStep = some (e, c')) : c'.tx.left < c.tx.left := by
  cases hpc : c.tx <;> simp only [txStep, hpc, hflag, if_true] at hs
  all_goals try split at hs
  all_goals
    cases hs
  all_goals
    simp only [TxPc.left]
    omega

theorem left_rxStep (hflag : c.stopFlag = true) (hs : c.rxStep = some (e, c')) : c'.rx.left < c.rx.left := by
  unfold rxStep at hs
  split at hs <;> rename_i hpc <;> rw [hpc]
  all_goals try split at hs
  all_goals
    cases hs
  all_goals
    simp only [RxPc.left, List.length_cons, List.length_nil]
    omega

theorem left_socStep (hstop : c.soc.stopping) (hs : c.socStep = some (e, c')) :
    c'.soc.stopping ∧ c'.soc.left < c.soc.left := by
  cases hpc : c.soc <;> simp only [hpc, SocPc.stopping, Bool.false_eq_true] at hstop <;>
    simp only [socStep, hpc] at hs
  all_goals try split at hs
  all_goals
    cases hs
  all_goals exact ⟨rfl, Nat.lt_succ_self _⟩

/-- While the channel stops, every step leads nearer to the end. -/
theorem left_step? {a : Act} (hstop : c.soc.stopping) (hflag : c.stopFlag = true) (ha : a.OneByte)
    (hs : c.step? a = some (e, c')) : c'.soc.stopping ∧ c'.stopFlag = true ∧ c'.left < c.left := by
  have hidle : c.soc ≠ .idle := by
    intro hidle
    rw [hidle] at hstop
    cases hstop
  unfold left
  -- each thread has its own measure; the other two are not made larger
  cases a with
  | soc =>
    obtain ⟨htx, hrx, hsame, -⟩ := socStep_frame hs
    obtain ⟨hstop', hleft⟩ := left_socStep hstop hs
    rw [htx, hrx]
    exact ⟨hstop', hsame.trans hflag, by omega⟩
  | tx =>
    obtain ⟨hsoc, hrx, hsame, -⟩ := txStep_frame hs
    have hleft := left_txStep hflag hs
    rw [hsoc, hrx]
    exact ⟨hstop, hsame.trans hflag, by omega⟩
  | rx =>
    obtain ⟨hsoc, htx, -, -, -, hset, -⟩ := rxStep_frame hs
    have hleft := left_rxStep hflag hs
    rw [hsoc, htx]
    exact ⟨hstop, hset hflag, by omega⟩
  | input input =>
    -- an event of the host changes the receiver only while it polls
    simp only [step?] at hs
    split_ifs at hs with hpoll
    cases hs
    refine ⟨hstop, hflag, ?_⟩
    have hlen : input.length ≤ 1 := ha
    simp only [hpoll, RxPc.left]
    omega
  | close =>
    simp only [step?] at hs
    split_ifs at hs with hpoll
    cases hs
    refine ⟨hstop, hflag, ?_⟩
    simp only [hpoll, RxPc.left]
    omega
  | openFails =>
    simp only [step?] at hs
    split_ifs at hs with hpoll
    cases hs
    refine ⟨hstop, hflag, ?_⟩
    simp only [hpoll, RxPc.left]
    omega
  | _ =>
    simp only [step?, call, if_neg hidle] at hs
    cases hs

/-- A transmitter that waits for nothing else is woken by the main thread at the end. -/
theorem Inv.isSome_txStep_of_join (hc : c.Inv h) (hsoc : c.soc.inTx = 0 ∧ c.soc.txOwed = 0)
    (hposted : c.rx.posted = 1) (hrun : ∀ data, c.tx ≠ .done data) : c.txStep.isSome := by
  refine hc.isSome_txStep hrun ?_ fun _ => hsoc.1
  intro hpc
  have hcounted := hc.sending.counted (by rw [hpc]; rfl)
  rw [hpc, hposted, hsoc.2] at hcounted
  simp only [TxPc.woken] at hcounted
  omega

/-- The main thread goes on while the channel stops, unless it waits for the descriptor or for the
transmitter, or has ended. -/
theorem Inv.isSome_rxStep (hc : c.Inv h) (hs : c.Single) (hjoin : c.soc = .join) (hpoll : c.rx ≠ .poll)
    (htx : c.rx ≠ .join) (hrun : c.rx ≠ .done) : c.rxStep.isSome := by
  unfold rxStep
  cases hpc : c.rx with
  | poll => exact absurd hpc hpoll
  | join => exact absurd hpc htx
  | done => exact absurd hpc hrun
  | push input =>
    cases input with
    | nil => rfl
    | cons data input =>
      have hplaces := hc.receiving.places
      have hroom := hs.room (by rw [hpc]; rfl)
      simp only [hpc, hjoin, RxPc.woken, SocPc.rxOwed, SocPc.posted] at hplaces
      have hempty : c.rxempty ≠ 0 := by omega
      simp [hempty]
  | lock data input =>
    have hfree := hc.mutexes.rcvmtx_eq_false (by rw [hjoin]; rfl) (by rw [hpc]; rfl)
    simp [hfree]
  | _ => rfl

/-- While the channel stops, some thread goes on until `stop_handling` returns. -/
theorem Inv.stopped_of_end (hc : c.Inv h) (hs : c.Single) (hstop : c.soc.stopping)
    (hend : ∀ a : Act, a.OneByte → c.step? a = none) : c.soc = .stopped := by
  have hsocEnd : c.socStep = none := hend .soc trivial
  have htxEnd : c.txStep = none := hend .tx trivial
  have hrxEnd : c.rxStep = none := hend .rx trivial
  cases hpc : c.soc <;> simp only [hpc, SocPc.stopping, Bool.false_eq_true] at hstop
  case stopPost =>
    simp only [socStep, hpc] at hsocEnd
    cases hsocEnd
  case join =>
    exfalso
    have hpoll : c.rx ≠ .poll := by
      intro hpoll
      have hclose := hend .close trivial
      simp [ChannelIf.step?, hpoll] at hclose
    have hdone : c.rx ≠ .done := by
      intro hdone
      simp [socStep, hpc, hdone] at hsocEnd
    have hjoin : c.rx = .join := by
      by_contra hjoin
      have hgo := hc.isSome_rxStep hs hpc hpoll hjoin hdone
      rw [hrxEnd] at hgo
      cases hgo
    have hrun : ∀ data, c.tx ≠ .done data := by
      intro data htx
      simp [rxStep, hjoin, htx] at hrxEnd
    have hgo := hc.isSome_txStep_of_join (by rw [hpc]; exact ⟨rfl, rfl⟩) (by rw [hjoin]; rfl) hrun
    rw [htxEnd] at hgo
    cases hgo
  case stopped => rfl

/-! ### Whole runs -/

/-- A run of possible steps: each of them can be made where it is made, and a poll brings one byte at most. -/
def Possible (c : ChannelIf) (as : List Act) : Prop :=
  Run.Along (fun c a => a.OneByte ∧ (c.step? a).isSome) step c as

theorem single_start (txFifoDepth rxFifoDepth : ℕ) : (start txFifoDepth rxFifoDepth).Single :=
  .of_not_fresh rfl rfl

/-- A state with its history, as long as inputs have one byte. -/
def Reached (c : ChannelIf) : Prop := (∃ h, c.Inv h) ∧ c.Single

theorem Reached.step (hc : c.Reached) {a : Act} (ha : a.OneByte) : (c.step a).2.Reached := by
  obtain ⟨⟨h, hinv⟩, hsingle⟩ := hc
  refine ⟨⟨_, hinv.step a⟩, ?_⟩
  unfold ChannelIf.step
  cases hs : c.step? a with
  | none => exact hsingle
  | some r => exact hsingle.step? hinv ha hs

/-- A run of possible steps while the channel stops. -/
theorem Possible.length_le {as : List Act} (hstop : c.soc.stopping) (hflag : c.stopFlag = true)
    (has : c.Possible as) :
    as.length ≤ c.left ∧ (Run.final ChannelIf.step c as).soc.stopping := by
  induction as generalizing c with
  | nil => exact ⟨Nat.zero_le _, hstop⟩
  | cons a as ih =>
    obtain ⟨⟨hone, hpossible⟩, hrest⟩ := has
    obtain ⟨⟨e, c'⟩, hs⟩ := Option.isSome_iff_exists.1 hpossible
    have hstep : c.step a = (e, c') := by
      unfold ChannelIf.step
      rw [hs]
      rfl
    obtain ⟨hstop', hflag', hleft⟩ := left_step? hstop hflag hone hs
    rw [hstep] at hrest
    obtain ⟨hlen, hfinal⟩ := ih hstop' hflag' hrest
    rw [Run.final, hstep, List.length_cons]
    exact ⟨by omega, hfinal⟩

/-- **`stop_handling` returns, if the calls of its threads do.**  `open_fd`, `poll` and `write_data` are steps of
the model, so each of them is assumed to return; a TCP channel whose `open_fd` still waits in `accept()` for a peer
is outside of it.  For fifos of any depth, every run in which no input has more than one byte and every moment at
which `stop_handling` has been called: the threads take at most 22 more steps, in whatever order, and where none
of them can take another one `stop_handling` has returned. -/
theorem stop_returns (txFifoDepth rxFifoDepth : ℕ) (as bs : List Act) (has : ∀ a ∈ as, a.OneByte)
    (hstop : (after txFifoDepth rxFifoDepth as).soc.stopping)
    (hbs : (after txFifoDepth rxFifoDepth as).Possible bs) :
    bs.length ≤ 22 ∧
      ((∀ a : Act, a.OneByte → (after txFifoDepth rxFifoDepth (as ++ bs)).step? a = none) →
        (after txFifoDepth rxFifoDepth (as ++ bs)).soc = .stopped) := by
  have hreached : (after txFifoDepth rxFifoDepth as).Reached :=
    Run.final_of_invariant Reached (fun _ _ hc ha => hc.step ha)
      ⟨⟨[], inv_start _ _⟩, single_start _ _⟩ (Run.Along.of_forall has _)
  have hfinal : (after txFifoDepth rxFifoDepth (as ++ bs)) =
      Run.final step (after txFifoDepth rxFifoDepth as) bs := Run.final_append _ _ _ _
  have hreached' : (after txFifoDepth rxFifoDepth (as ++ bs)).Reached := by
    rw [hfinal]
    exact Run.final_of_invariant Reached (fun _ _ hc ha => hc.step ha.1) hreached hbs
  have hflag := hreached.1.choose_spec.flags.soc hstop
  obtain ⟨hlen, hstop'⟩ := hbs.length_le hstop hflag
  refine ⟨hlen.trans hreached.2.left_le, fun hend => ?_⟩
  rw [← hfinal] at hstop'
  exact hreached'.1.choose_spec.stopped_of_end hreached'.2 hstop' hend

/-- A byte arrives and the channel is stopped. -/
def stopRun : List Act := [.rx, .input [0x41], .stop]

/-- The main thread pushes the byte; then the threads end. -/
def endRun : List Act := [.soc, .rx, .rx, .rx, .rx, .rx, .rx, .rx, .rx, .rx, .tx, .rx, .soc]

theorem stop_returns_oneByte :
    endRun.length ≤ 22 ∧ (after 1 1 (stopRun ++ endRun)).soc = .stopped := by
  have hone : ∀ a ∈ stopRun, a.OneByte := by
    simp [stopRun, Act.OneByte]
  have hpossible : (after 1 1 stopRun).Possible endRun := by
    repeat' constructor
  obtain ⟨hlen, hend⟩ := stop_returns 1 1 stopRun endRun hone rfl hpossible
  refine ⟨hlen, hend fun a _ => ?_⟩
  cases a <;> rfl

end RiscvVp.ChannelIf
