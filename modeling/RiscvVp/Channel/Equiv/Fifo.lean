import RiscvVp.Lib.Run
import RiscvVp.Channel.Basic

/-!
# What passes through the channel
-/

namespace RiscvVp.ChannelIf

/-! ### What a place in a method means -/

namespace SocPc

/-- Whether the simulation has `txmtx`, 1 or 0. -/
def inTx : SocPc → ℕ
  | txBody _ | txUnlock _ | sizeBody .tx | sizeUnlock .tx => 1
  | _ => 0

/-- Whether the simulation has `rcvmtx`. -/
def inRcv : SocPc → ℕ
  | rxBody | rxPost | rxUnlock | sizeBody .rx | sizeUnlock .rx => 1
  | _ => 0

/-- A byte is in the fifo for which `txfull` is still to be posted. -/
def txOwed : SocPc → ℕ
  | txUnlock false | txPost => 1
  | _ => 0

/-- A byte has left the fifo for which `rxempty` is still to be posted. -/
def rxOwed : SocPc → ℕ
  | rxPost => 1
  | _ => 0

/-- `stop_handling` has set the flag. -/
def stopping : SocPc → Bool
  | stopPost | join | stopped => true
  | _ => false

/-- `stop_handling` has posted `rxempty`. -/
def posted : SocPc → ℕ
  | join | stopped => 1
  | _ => 0

end SocPc

namespace TxPc

/-- Whether the transmitter has `txmtx`. -/
def inTx : TxPc → ℕ
  | pop | unlock _ => 1
  | _ => 0

/-- The transmitter has waited for a byte that is still in the fifo. -/
def woken : TxPc → ℕ
  | check | lock | pop => 1
  | _ => 0

/-- The transmitter has found a byte that is still in the fifo. -/
def found : TxPc → Bool
  | lock | pop => true
  | _ => false

/-- The byte that the transmitter has pulled and not yet written. -/
def hand : TxPc → List (BitVec 8)
  | unlock data | notify data | retest data | write data | done (some data) => [data]
  | _ => []

/-- The transmitter has seen the flag, or ends when it looks. -/
def ending : TxPc → Bool
  | retestEmpty | done _ => true
  | _ => false

end TxPc

namespace RxPc

/-- Whether the main thread has `rcvmtx`. -/
def inRcv : RxPc → ℕ
  | body _ _ | unlock _ => 1
  | _ => 0

/-- The main thread has a place in the fifo, into which it has not yet put the byte. -/
def woken : RxPc → ℕ
  | lock _ _ | body _ _ => 1
  | _ => 0

/-- The bytes that are received and not yet in the fifo. -/
def hand : RxPc → List (BitVec 8)
  | push input | unlock input | notify input => input
  | lock data input | body data input => data :: input
  | _ => []

/-- The main thread has set the flag. -/
def ending : RxPc → Bool
  | postTx | join | done => true
  | _ => false

/-- The main thread has posted `txfull` to end the transmitter. -/
def posted : RxPc → ℕ
  | join | done => 1
  | _ => 0

end RxPc

/-! ### What has been seen -/

namespace Event

/-- The byte that `txpush` puts into the fifo. -/
@[simp] def acceptedByte : Option Event → List (BitVec 8)
  | some (accepted data) => [data]
  | _ => []

/-- The byte written to the remote. -/
@[simp] def writtenByte : Option Event → List (BitVec 8)
  | some (written data) => [data]
  | _ => []

/-- The bytes received from the remote. -/
@[simp] def arrivedBytes : Option Event → List (BitVec 8)
  | some (arrived input) => input
  | _ => []

/-- The byte that the simulation pulls: bit 31 of what `rxpull` returns says that there is none. -/
@[simp] def pulledByte : Option Event → List (BitVec 8)
  | some (pulled ret) => if ret.getLsbD 31 then [] else [ret.setWidth 8]
  | _ => []

end Event

/-- The bytes that `txpush` has put into the fifo. -/
def accepted (h : List (Option Event)) : List (BitVec 8) := h.flatMap Event.acceptedByte

/-- The bytes written to the remote. -/
def written (h : List (Option Event)) : List (BitVec 8) := h.flatMap Event.writtenByte

/-- The bytes received from the remote. -/
def arrived (h : List (Option Event)) : List (BitVec 8) := h.flatMap Event.arrivedBytes

/-- The bytes that the simulation has pulled. -/
def pulled (h : List (Option Event)) : List (BitVec 8) := h.flatMap Event.pulledByte

@[simp] theorem accepted_concat (h : List (Option Event)) (e : Option Event) :
    accepted (h ++ [e]) = accepted h ++ Event.acceptedByte e := by
  simp [accepted]

@[simp] theorem written_concat (h : List (Option Event)) (e : Option Event) :
    written (h ++ [e]) = written h ++ Event.writtenByte e := by
  simp [written]

@[simp] theorem arrived_concat (h : List (Option Event)) (e : Option Event) :
    arrived (h ++ [e]) = arrived h ++ Event.arrivedBytes e := by
  simp [arrived]

@[simp] theorem pulled_concat (h : List (Option Event)) (e : Option Event) :
    pulled (h ++ [e]) = pulled h ++ Event.pulledByte e := by
  simp [pulled]

/-! ### The invariant -/

/-- A mutex is held by the one thread that is in a part it guards. -/
structure Mutexes (c : ChannelIf) : Prop where
  tx : c.txmtx.toNat = c.soc.inTx + c.tx.inTx
  rcv : c.rcvmtx.toNat = c.soc.inRcv + c.rx.inRcv

/-- Threads only end once the flag is set. -/
structure Flags (c : ChannelIf) : Prop where
  soc : c.soc.stopping → c.stopFlag
  tx : c.tx.ending → c.stopFlag
  rx : c.rx.ending → c.stopFlag

/-- The fifo for sending: what was accepted is what was written, what the transmitter holds, and what is
queued, and the semaphore counts the bytes. -/
structure Sending (h : List (Option Event)) (c : ChannelIf) : Prop where
  bytes : accepted h = written h ++ c.tx.hand ++ c.txFifo
  depth : c.txFifo.length ≤ c.txFifoDepth
  found : c.tx.found → c.txFifo ≠ []
  /-- Every byte is counted, and so is the end. -/
  counted : c.tx.ending = false →
    c.txFifo.length + c.rx.posted ≤ c.txfull + c.tx.woken + c.soc.txOwed
  /-- Nothing else is counted. -/
  exact : c.txfull + c.tx.woken + c.soc.txOwed ≤ c.txFifo.length + c.rx.posted

/-- The fifo for receiving: what arrived is what was pulled, what is queued, and what the receiver holds,
and the semaphore counts the places. -/
structure Receiving (h : List (Option Event)) (c : ChannelIf) : Prop where
  bytes : arrived h = pulled h ++ c.rxFifo ++ c.rx.hand
  places : c.rxempty + c.rx.woken + c.rxFifo.length + c.soc.rxOwed = c.rxFifoDepth + c.soc.posted

/-- What holds after every step, of any thread and of the outside. -/
structure Inv (h : List (Option Event)) (c : ChannelIf) : Prop where
  mutexes : c.Mutexes
  flags : c.Flags
  sending : c.Sending h
  receiving : c.Receiving h

section Steps

variable {c c' : ChannelIf} {e : Option Event} {h : List (Option Event)}

theorem Sending.of_same (hc : c.Sending h) (hfifo : c'.txFifo = c.txFifo)
    (hdepth : c'.txFifoDepth = c.txFifoDepth) (hfull : c'.txfull = c.txfull) (htx : c'.tx = c.tx)
    (hsoc : c'.soc.txOwed = c.soc.txOwed) (hrx : c'.rx.posted = c.rx.posted)
    (haccepted : Event.acceptedByte e = []) (hwritten : Event.writtenByte e = []) :
    c'.Sending (h ++ [e]) where
  bytes := by
    rw [accepted_concat, written_concat, haccepted, hwritten, List.append_nil, List.append_nil, htx, hfifo]
    exact hc.bytes
  depth := by
    rw [hfifo, hdepth]
    exact hc.depth
  found := by
    rw [htx, hfifo]
    exact hc.found
  counted := by
    rw [hfifo, hfull, htx, hsoc, hrx]
    exact hc.counted
  exact := by
    rw [hfifo, hfull, htx, hsoc, hrx]
    exact hc.exact

theorem Receiving.of_same (hc : c.Receiving h) (hfifo : c'.rxFifo = c.rxFifo)
    (hdepth : c'.rxFifoDepth = c.rxFifoDepth) (hempty : c'.rxempty = c.rxempty) (hrx : c'.rx = c.rx)
    (howed : c'.soc.rxOwed = c.soc.rxOwed) (hposted : c'.soc.posted = c.soc.posted)
    (harrived : Event.arrivedBytes e = []) (hpulled : Event.pulledByte e = []) :
    c'.Receiving (h ++ [e]) where
  bytes := by
    rw [arrived_concat, pulled_concat, harrived, hpulled, List.append_nil, List.append_nil, hrx, hfifo]
    exact hc.bytes
  places := by
    rw [hempty, hrx, hfifo, howed, hdepth, hposted]
    exact hc.places

/-! ### The simulation -/

/-- The other threads stay where they are. -/
theorem socStep_frame (hs : c.socStep = some (e, c')) :
    c'.tx = c.tx ∧ c'.rx = c.rx ∧ c'.stopFlag = c.stopFlag ∧ c'.txFifoDepth = c.txFifoDepth ∧
      c'.rxFifoDepth = c.rxFifoDepth := by
  cases hpc : c.soc <;> simp only [socStep, hpc] at hs
  case sizeLock f =>
    split_ifs at hs
    cases hs
    cases f <;> exact ⟨rfl, rfl, rfl, rfl, rfl⟩
  case sizeUnlock f =>
    cases hs
    cases f <;> exact ⟨rfl, rfl, rfl, rfl, rfl⟩
  all_goals try split at hs
  all_goals
    cases hs
  all_goals exact ⟨rfl, rfl, rfl, rfl, rfl⟩

theorem Sending.socStep (hc : c.Sending h) (hs : c.socStep = some (e, c')) : c'.Sending (h ++ [e]) := by
  cases hpc : c.soc <;> simp only [ChannelIf.socStep, hpc] at hs
  case txBody data =>
    split_ifs at hs with hfull
    · cases hs
      exact hc.of_same rfl rfl rfl rfl (by rw [hpc]; rfl) rfl rfl rfl
    · cases hs
      have hcounted := hc.counted
      have hexact := hc.exact
      simp only [hpc, SocPc.txOwed] at hcounted hexact
      refine ⟨by simp [hc.bytes], ?_, by simp, fun hrun => ?_, ?_⟩
      · simp only [List.length_append, List.length_singleton]
        omega
      · simp only [List.length_append, List.length_singleton, SocPc.txOwed]
        have := hcounted hrun
        omega
      · simp only [List.length_append, List.length_singleton, SocPc.txOwed]
        omega
  case txUnlock full =>
    cases hs
    cases full <;> exact hc.of_same rfl rfl rfl rfl (by rw [hpc]; rfl) rfl rfl rfl
  case txPost =>
    cases hs
    have hcounted := hc.counted
    have hexact := hc.exact
    simp only [hpc, SocPc.txOwed] at hcounted hexact
    refine ⟨by simp [hc.bytes], hc.depth, hc.found, fun hrun => ?_, ?_⟩
    · simp only [SocPc.txOwed]
      have := hcounted hrun
      omega
    · simp only [SocPc.txOwed]
      omega
  case sizeLock f =>
    split_ifs at hs
    cases hs
    cases f <;> exact hc.of_same rfl rfl rfl rfl (by rw [hpc]; rfl) rfl rfl rfl
  case sizeUnlock f =>
    cases hs
    cases f <;> exact hc.of_same rfl rfl rfl rfl (by rw [hpc]; rfl) rfl rfl rfl
  -- every other place of the thread leaves the queue and the semaphores alone
  all_goals try split at hs
  all_goals
    cases hs
  all_goals exact hc.of_same rfl rfl rfl rfl (by rw [hpc]; rfl) rfl rfl rfl

theorem Receiving.socStep (hc : c.Receiving h) (hs : c.socStep = some (e, c')) :
    c'.Receiving (h ++ [e]) := by
  have hplaces := hc.places
  cases hpc : c.soc <;> simp only [ChannelIf.socStep, hpc] at hs
  case rxBody =>
    split at hs <;> rename_i hfifo
    · cases hs
      exact hc.of_same rfl rfl rfl rfl (by rw [hpc]; rfl) (by rw [hpc]; rfl) rfl rfl
    · cases hs
      simp only [hpc, hfifo, SocPc.rxOwed, SocPc.posted, List.length_cons] at hplaces
      refine ⟨?_, ?_⟩
      · simp [hc.bytes, hfifo]
      · simp only [SocPc.rxOwed, SocPc.posted]
        omega
  case rxPost =>
    cases hs
    simp only [hpc, SocPc.rxOwed, SocPc.posted] at hplaces
    refine ⟨by simp [hc.bytes], ?_⟩
    simp only [SocPc.rxOwed, SocPc.posted]
    omega
  case stopPost =>
    cases hs
    simp only [hpc, SocPc.rxOwed, SocPc.posted] at hplaces
    refine ⟨by simp [hc.bytes], ?_⟩
    simp only [SocPc.rxOwed, SocPc.posted]
    omega
  case txUnlock full =>
    cases hs
    cases full <;> exact hc.of_same rfl rfl rfl rfl (by rw [hpc]; rfl) (by rw [hpc]; rfl) rfl rfl
  case sizeLock f =>
    split_ifs at hs
    cases hs
    cases f <;> exact hc.of_same rfl rfl rfl rfl (by rw [hpc]; rfl) (by rw [hpc]; rfl) rfl rfl
  case sizeUnlock f =>
    cases hs
    cases f <;> exact hc.of_same rfl rfl rfl rfl (by rw [hpc]; rfl) (by rw [hpc]; rfl) rfl rfl
  -- every other place of the thread leaves the queue and the semaphores alone
  all_goals try split at hs
  all_goals
    cases hs
  all_goals exact hc.of_same rfl rfl rfl rfl (by rw [hpc]; rfl) (by rw [hpc]; rfl) rfl rfl

theorem Mutexes.socStep (hc : c.Mutexes) (hs : c.socStep = some (e, c')) : c'.Mutexes := by
  obtain ⟨htx, hrcv⟩ := hc
  have htxle := Bool.toNat_le c.txmtx
  have hrcvle := Bool.toNat_le c.rcvmtx
  cases hpc : c.soc <;> simp only [hpc, SocPc.inTx, SocPc.inRcv] at htx hrcv <;>
    simp only [ChannelIf.socStep, hpc] at hs
  case txUnlock full =>
    cases hs
    cases full <;> constructor <;> simp [SocPc.inTx, SocPc.inRcv] <;> omega
  case sizeLock f =>
    split_ifs at hs with hlocked
    cases hs
    cases f <;> constructor <;> simp_all [locked, setLocked, SocPc.inTx, SocPc.inRcv]
  case sizeBody f =>
    cases hs
    cases f <;> constructor <;> simp_all [SocPc.inTx, SocPc.inRcv]
  case sizeUnlock f =>
    cases hs
    cases f <;> constructor <;> simp_all [setLocked, SocPc.inTx, SocPc.inRcv]
  all_goals try split at hs
  all_goals
    cases hs
  all_goals constructor <;> simp_all [SocPc.inTx, SocPc.inRcv]

theorem Flags.socStep (hc : c.Flags) (hs : c.socStep = some (e, c')) : c'.Flags := by
  obtain ⟨htx, hrx, hflag, -⟩ := socStep_frame hs
  refine ⟨fun hstop => ?_, by rw [htx, hflag]; exact hc.tx, by rw [hrx, hflag]; exact hc.rx⟩
  rw [hflag]
  refine hc.soc ?_
  cases hpc : c.soc <;> simp only [ChannelIf.socStep, hpc] at hs
  case stopPost => rfl
  case join => rfl
  case txUnlock full =>
    cases hs
    cases full <;> cases hstop
  all_goals try split at hs
  all_goals
    cases hs
  all_goals cases hstop

/-! ### The transmitter -/

/-- The other threads and the fifo for receiving stay as they are. -/
theorem txStep_frame (hs : c.txStep = some (e, c')) :
    c'.soc = c.soc ∧ c'.rx = c.rx ∧ c'.stopFlag = c.stopFlag ∧ c'.rcvmtx = c.rcvmtx ∧
      c'.rxFifo = c.rxFifo ∧ c'.rxFifoDepth = c.rxFifoDepth ∧ c'.rxempty = c.rxempty ∧
      Event.arrivedBytes e = [] ∧ Event.pulledByte e = [] := by
  cases hpc : c.tx <;> simp only [txStep, hpc] at hs
  all_goals try split at hs
  all_goals
    cases hs
  all_goals exact ⟨rfl, rfl, rfl, rfl, rfl, rfl, rfl, rfl, rfl⟩

theorem Receiving.txStep (hc : c.Receiving h) (hs : c.txStep = some (e, c')) : c'.Receiving (h ++ [e]) := by
  obtain ⟨hsoc, hrx, -, -, hfifo, hdepth, hempty, harrived, hpulled⟩ := txStep_frame hs
  exact hc.of_same hfifo hdepth hempty hrx (by rw [hsoc]) (by rw [hsoc]) harrived hpulled

theorem Mutexes.txStep (hc : c.Mutexes) (hs : c.txStep = some (e, c')) : c'.Mutexes := by
  obtain ⟨htx, hrcv⟩ := hc
  have hframe := txStep_frame hs
  refine ⟨?_, by rw [hframe.1, hframe.2.1, hframe.2.2.2.1]; exact hrcv⟩
  have htxle := Bool.toNat_le c.txmtx
  cases hpc : c.tx <;> simp only [hpc, TxPc.inTx] at htx <;> simp only [ChannelIf.txStep, hpc] at hs
  all_goals try split at hs
  all_goals
    cases hs
  all_goals simp_all [TxPc.inTx]

theorem Sending.txStep (hc : c.Sending h) (hflags : c.Flags) (hs : c.txStep = some (e, c')) :
    c'.Sending (h ++ [e]) := by
  obtain ⟨hbytes, hdepth, hfound, hcounted, hexact⟩ := hc
  cases hpc : c.tx <;>
    simp only [hpc, TxPc.hand, TxPc.woken, TxPc.ending, List.append_nil, forall_const, Bool.true_eq_false,
      false_imp_iff] at hbytes hcounted hexact <;>
    simp only [ChannelIf.txStep, hpc] at hs
  case test =>
    cases hs
    cases c.stopFlag
    · exact ⟨by simpa [TxPc.hand] using hbytes, hdepth, nofun, fun _ => hcounted, hexact⟩
    · exact ⟨by simpa [TxPc.hand] using hbytes, hdepth, nofun, nofun, hexact⟩
  case wait =>
    split_ifs at hs
    cases hs
    refine ⟨by simpa [TxPc.hand] using hbytes, hdepth, nofun, fun _ => ?_, ?_⟩ <;>
      simp only [TxPc.woken] <;> omega
  case check =>
    cases hs
    split_ifs with hempty
    · refine ⟨by simpa [TxPc.hand] using hbytes, hdepth, nofun, nofun, ?_⟩
      simp only [TxPc.woken]
      omega
    · exact ⟨by simpa [TxPc.hand] using hbytes, hdepth, fun _ hnil => hempty (by rw [hnil]; rfl),
        fun _ => hcounted, hexact⟩
  case lock =>
    split_ifs at hs
    cases hs
    exact ⟨by simpa [TxPc.hand] using hbytes, hdepth, fun _ => hfound (by rw [hpc]; rfl),
      fun _ => hcounted, hexact⟩
  case pop =>
    split at hs
    · cases hs
    · rename_i hfifo
      cases hs
      rw [hfifo] at hbytes hdepth hcounted hexact
      rw [List.length_cons] at hdepth hcounted hexact
      refine ⟨by simpa [TxPc.hand] using hbytes, ?_, nofun, fun _ => ?_, ?_⟩ <;>
        simp only [TxPc.woken] <;> omega
  case unlock data =>
    cases hs
    exact ⟨by simpa [TxPc.hand] using hbytes, hdepth, nofun, fun _ => hcounted, hexact⟩
  case notify data =>
    cases hs
    exact ⟨by simpa [TxPc.hand] using hbytes, hdepth, nofun, fun _ => hcounted, hexact⟩
  case retest data =>
    cases hs
    cases c.stopFlag
    · exact ⟨by simpa [TxPc.hand] using hbytes, hdepth, nofun, fun _ => hcounted, hexact⟩
    · exact ⟨by simpa [TxPc.hand] using hbytes, hdepth, nofun, nofun, hexact⟩
  case retestEmpty =>
    -- the 0 that `txpull` returns here is never written
    cases hs
    rw [hflags.tx (by rw [hpc]; rfl), if_pos rfl]
    exact ⟨by simpa [TxPc.hand] using hbytes, hdepth, nofun, nofun, hexact⟩
  case write data =>
    cases hs
    exact ⟨by simpa [TxPc.hand] using hbytes, hdepth, nofun, fun _ => hcounted, hexact⟩
  case done => cases hs

theorem Flags.txStep (hc : c.Flags) (hsend : c.Sending h) (hs : c.txStep = some (e, c')) : c'.Flags := by
  obtain ⟨hsoc, hrx, hflag, -⟩ := txStep_frame hs
  refine ⟨by rw [hsoc, hflag]; exact hc.soc, fun hend => ?_, by rw [hrx, hflag]; exact hc.rx⟩
  rw [hflag]
  cases hpc : c.tx <;> simp only [ChannelIf.txStep, hpc] at hs
  case check =>
    cases hs
    split_ifs at hend with hempty
    · -- the byte that the transmitter was woken for is the one posted at the end
      have hexact := hsend.exact
      rw [hpc, hempty] at hexact
      simp only [TxPc.woken] at hexact
      refine hc.rx ?_
      cases hrxpc : c.rx <;> rw [hrxpc] at hexact <;> simp only [RxPc.posted] at hexact <;>
        first | rfl | omega
    · cases hend
  case retestEmpty => exact hc.tx (by rw [hpc]; rfl)
  all_goals try split at hs
  all_goals
    cases hs
  all_goals simp_all [TxPc.ending]

/-! ### The main thread -/

/-- The other threads and the fifo for sending stay as they are. -/
theorem rxStep_frame (hs : c.rxStep = some (e, c')) :
    c'.soc = c.soc ∧ c'.tx = c.tx ∧ c'.txmtx = c.txmtx ∧ c'.txFifo = c.txFifo ∧
      c'.txFifoDepth = c.txFifoDepth ∧ (c.stopFlag → c'.stopFlag) ∧
      c'.txfull + c.rx.posted = c.txfull + c'.rx.posted ∧ c.rx.posted ≤ c'.rx.posted ∧
      Event.acceptedByte e = [] ∧ Event.writtenByte e = [] := by
  unfold rxStep at hs
  split at hs <;> rename_i hpc <;> rw [hpc]
  all_goals try split at hs
  all_goals
    cases hs
  case h_1.refl => cases c.stopFlag <;> exact ⟨rfl, rfl, rfl, rfl, rfl, id, rfl, le_rfl, rfl, rfl⟩
  case h_9.refl => exact ⟨rfl, rfl, rfl, rfl, rfl, fun _ => rfl, rfl, le_rfl, rfl, rfl⟩
  case h_10.refl => exact ⟨rfl, rfl, rfl, rfl, rfl, id, rfl, Nat.zero_le _, rfl, rfl⟩
  all_goals exact ⟨rfl, rfl, rfl, rfl, rfl, id, rfl, le_rfl, rfl, rfl⟩

theorem Sending.rxStep (hc : c.Sending h) (hs : c.rxStep = some (e, c')) : c'.Sending (h ++ [e]) := by
  obtain ⟨hsoc, htx, -, hfifo, hdepth, -, hfull, hposted, haccepted, hwritten⟩ := rxStep_frame hs
  obtain ⟨hbytes, hlen, hfound, hcounted, hexact⟩ := hc
  refine ⟨?_, by rw [hfifo, hdepth]; exact hlen, by rw [htx, hfifo]; exact hfound, ?_, ?_⟩
  · rw [accepted_concat, written_concat, haccepted, hwritten, List.append_nil, List.append_nil, htx, hfifo]
    exact hbytes
  · rw [hfifo, htx, hsoc]
    intro hrun
    have := hcounted hrun
    omega
  · rw [hfifo, htx, hsoc]
    omega

theorem Mutexes.rxStep (hc : c.Mutexes) (hs : c.rxStep = some (e, c')) : c'.Mutexes := by
  obtain ⟨htx, hrcv⟩ := hc
  have hframe := rxStep_frame hs
  refine ⟨by rw [hframe.1, hframe.2.1, hframe.2.2.1]; exact htx, ?_⟩
  have hrcvle := Bool.toNat_le c.rcvmtx
  cases hpc : c.rx <;> simp only [hpc, RxPc.inRcv] at hrcv <;> simp only [ChannelIf.rxStep, hpc] at hs
  case push input =>
    cases input <;> simp only at hs <;> (try split_ifs at hs) <;> cases hs <;> simpa [RxPc.inRcv] using hrcv
  all_goals try split at hs
  all_goals
    cases hs
  all_goals simp_all [RxPc.inRcv]

theorem Flags.rxStep (hc : c.Flags) (hs : c.rxStep = some (e, c')) : c'.Flags := by
  obtain ⟨hsoc, htx, -, -, -, hflag, -⟩ := rxStep_frame hs
  refine ⟨fun h => hflag (hc.soc (hsoc ▸ h)), fun h => hflag (hc.tx (htx ▸ h)), fun hend => ?_⟩
  have hrx := hc.rx
  unfold ChannelIf.rxStep at hs
  split at hs <;> rename_i hpc <;> rw [hpc] at hrx
  all_goals try split at hs
  all_goals
    cases hs
  all_goals simp_all [RxPc.ending]

theorem Receiving.rxStep (hc : c.Receiving h) (hs : c.rxStep = some (e, c')) :
    c'.Receiving (h ++ [e]) := by
  obtain ⟨hbytes, hplaces⟩ := hc
  cases hpc : c.rx <;> simp only [hpc, RxPc.hand, RxPc.woken] at hbytes hplaces <;>
    simp only [ChannelIf.rxStep, hpc] at hs
  case loop =>
    cases hs
    cases c.stopFlag <;> exact ⟨by simpa [RxPc.hand] using hbytes, hplaces⟩
  case push input =>
    cases input with
    | nil =>
      cases hs
      exact ⟨by simpa [RxPc.hand] using hbytes, hplaces⟩
    | cons data input =>
      simp only at hs
      split_ifs at hs
      cases hs
      refine ⟨by simpa [RxPc.hand] using hbytes, ?_⟩
      simp only [RxPc.woken]
      omega
  case lock data input =>
    split_ifs at hs
    cases hs
    exact ⟨by simpa [RxPc.hand] using hbytes, hplaces⟩
  case body data input =>
    cases hs
    refine ⟨by simpa [RxPc.hand] using hbytes, ?_⟩
    simp only [RxPc.woken, List.length_append, List.length_singleton]
    omega
  all_goals try split at hs
  all_goals
    cases hs
  all_goals exact ⟨by simpa [RxPc.hand] using hbytes, hplaces⟩

/-- `poll` or `open_fd` returns in the receiving thread: only what the thread holds in its hand changes. -/
theorem Inv.leavePoll (hc : c.Inv h) (hpoll : c.rx = .poll) {pc : RxPc} (hrcv : pc.inRcv = 0)
    (hwoken : pc.woken = 0) (hend : pc.ending = false) (hposted : pc.posted = 0)
    (harrived : Event.arrivedBytes e = pc.hand) (haccepted : Event.acceptedByte e = [])
    (hwritten : Event.writtenByte e = []) (hpulled : Event.pulledByte e = []) :
    Inv (h ++ [e]) { c with rx := pc } := by
  obtain ⟨⟨htxmtx, hrcvmtx⟩, ⟨hsoc, htx, -⟩, hsend, ⟨hbytes, hplaces⟩⟩ := hc
  rw [hpoll] at hrcvmtx hbytes hplaces
  refine ⟨⟨htxmtx, ?_⟩, ⟨hsoc, htx, fun h => ?_⟩, ?_, ⟨?_, ?_⟩⟩
  · rw [hrcvmtx, hrcv]
    rfl
  · rw [hend] at h
    cases h
  · exact hsend.of_same rfl rfl rfl rfl rfl (by rw [hpoll, hposted]; rfl) haccepted hwritten
  · rw [arrived_concat, pulled_concat, harrived, hpulled, hbytes]
    simp [RxPc.hand]
  · rw [hwoken]
    exact hplaces

/-- A method is called by the SoC.  No byte moves yet, so the invariant is that of the new place in the
code. -/
theorem Inv.call (hc : c.Inv h) {pc : SocPc} (htx : pc.inTx = 0) (hrcv : pc.inRcv = 0)
    (howed : pc.txOwed = 0) (hrxOwed : pc.rxOwed = 0) (hposted : pc.posted = 0)
    (hstop : pc.stopping → c.stopFlag) (hs : c.call pc = some (e, c')) : Inv (h ++ [e]) c' := by
  unfold ChannelIf.call at hs
  split_ifs at hs with hidle
  cases hs
  obtain ⟨⟨htxmtx, hrcvmtx⟩, hflags, hsend, hrecv⟩ := hc
  rw [hidle] at htxmtx hrcvmtx
  refine ⟨⟨?_, ?_⟩, ⟨hstop, hflags.tx, hflags.rx⟩, ?_, ?_⟩
  · rw [htxmtx, htx]
    rfl
  · rw [hrcvmtx, hrcv]
    rfl
  · exact hsend.of_same rfl rfl rfl rfl (by rw [hidle, howed]; rfl) rfl rfl rfl
  · exact hrecv.of_same rfl rfl rfl rfl (by rw [hidle, hrxOwed]; rfl) (by rw [hidle, hposted]; rfl) rfl rfl

/-- The stop flag is set.  The invariant says nothing that the flag could make false. -/
theorem Inv.setStop (hc : c.Inv h) : Inv h { c with stopFlag := true } :=
  ⟨⟨hc.mutexes.tx, hc.mutexes.rcv⟩, ⟨fun _ => rfl, fun _ => rfl, fun _ => rfl⟩,
    ⟨hc.sending.bytes, hc.sending.depth, hc.sending.found, hc.sending.counted, hc.sending.exact⟩,
    ⟨hc.receiving.bytes, hc.receiving.places⟩⟩

theorem Inv.step? {a : Act} (hc : c.Inv h) (hs : c.step? a = some (e, c')) : Inv (h ++ [e]) c' := by
  cases a with
  | txpush data => exact hc.call rfl rfl rfl rfl rfl (fun hstop => by cases hstop) hs
  | rxpull => exact hc.call rfl rfl rfl rfl rfl (fun hstop => by cases hstop) hs
  | size f => exact hc.call rfl rfl rfl rfl rfl (fun hstop => by cases hstop) hs
  | stop => exact hc.setStop.call rfl rfl rfl rfl rfl (fun _ => rfl) hs
  | soc =>
    exact ⟨hc.mutexes.socStep hs, hc.flags.socStep hs, hc.sending.socStep hs, hc.receiving.socStep hs⟩
  | tx =>
    exact ⟨hc.mutexes.txStep hs, hc.flags.txStep hc.sending hs, hc.sending.txStep hc.flags hs,
      hc.receiving.txStep hs⟩
  | rx =>
    exact ⟨hc.mutexes.rxStep hs, hc.flags.rxStep hs, hc.sending.rxStep hs, hc.receiving.rxStep hs⟩
  | input input =>
    simp only [ChannelIf.step?] at hs
    split_ifs at hs with hpoll
    cases hs
    exact hc.leavePoll hpoll rfl rfl rfl rfl rfl rfl rfl rfl
  | close =>
    simp only [ChannelIf.step?] at hs
    split_ifs at hs with hpoll
    cases hs
    exact hc.leavePoll hpoll rfl rfl rfl rfl rfl rfl rfl rfl
  | openFails =>
    simp only [ChannelIf.step?] at hs
    split_ifs at hs with hpoll
    cases hs
    exact hc.leavePoll hpoll rfl rfl rfl rfl rfl rfl rfl rfl

theorem Inv.step (hc : c.Inv h) (a : Act) : Inv (h ++ [(c.step a).1]) (c.step a).2 := by
  unfold ChannelIf.step
  cases hs : c.step? a with
  | some r => exact hc.step? hs
  | none =>
    obtain ⟨hmutexes, hflags, hsend, hrecv⟩ := hc
    exact ⟨hmutexes, hflags, hsend.of_same rfl rfl rfl rfl rfl rfl rfl rfl,
      hrecv.of_same rfl rfl rfl rfl rfl rfl rfl rfl⟩

end Steps

theorem inv_start (txFifoDepth rxFifoDepth : ℕ) : Inv [] (start txFifoDepth rxFifoDepth) :=
  ⟨⟨rfl, rfl⟩, ⟨nofun, nofun, nofun⟩, ⟨rfl, Nat.zero_le _, nofun, fun _ => le_rfl, le_rfl⟩, ⟨rfl, rfl⟩⟩

/-- The channel after a run. -/
def after (txFifoDepth rxFifoDepth : ℕ) (as : List Act) : ChannelIf :=
  Run.final step (start txFifoDepth rxFifoDepth) as

/-- What has been seen in a run. -/
def seen (txFifoDepth rxFifoDepth : ℕ) (as : List Act) : List (Option Event) :=
  Run.outputs step (start txFifoDepth rxFifoDepth) as

/-- The invariant holds after every run, whatever order the three threads and the host take their steps in. -/
theorem inv_run (txFifoDepth rxFifoDepth : ℕ) (as : List Act) :
    Inv (seen txFifoDepth rxFifoDepth as) (after txFifoDepth rxFifoDepth as) :=
  Run.history_of_invariant Inv (fun _ _ a hc => hc.step a) (inv_start txFifoDepth rxFifoDepth) as

/-! ### The depths -/

theorem depths_of_step? {c c' : ChannelIf} {a : Act} {e : Option Event} (hs : c.step? a = some (e, c')) :
    c'.txFifoDepth = c.txFifoDepth ∧ c'.rxFifoDepth = c.rxFifoDepth := by
  cases a
  case soc => exact (socStep_frame hs).2.2.2
  all_goals simp only [step?, call, txStep, rxStep] at hs
  all_goals split at hs
  all_goals try split at hs
  all_goals
    cases hs
  all_goals exact ⟨rfl, rfl⟩

theorem depths_run (txFifoDepth rxFifoDepth : ℕ) (as : List Act) :
    (after txFifoDepth rxFifoDepth as).txFifoDepth = txFifoDepth ∧
      (after txFifoDepth rxFifoDepth as).rxFifoDepth = rxFifoDepth := by
  refine Run.history_of_invariant
    (fun _ (c : ChannelIf) => c.txFifoDepth = txFifoDepth ∧ c.rxFifoDepth = rxFifoDepth)
    (fun h c a hc => ?_) (h := []) ⟨rfl, rfl⟩ as
  unfold step
  cases hs : c.step? a with
  | none => exact hc
  | some r =>
    obtain ⟨htx, hrx⟩ := depths_of_step? hs
    exact ⟨htx.trans hc.1, hrx.trans hc.2⟩

/-! ### Whole runs -/

/-- **What is sent.**  For fifos of any depth and for every order in which the simulation and the two
threads take their steps, until the channel has stopped: the bytes that `txpush` has accepted are those
written to the remote, in this order, then the one that the transmitter has pulled, if any, and those in
the fifo.  The fifo never has more bytes than its depth, and no byte is taken from an empty fifo. -/
theorem accepted_eq_written (txFifoDepth rxFifoDepth : ℕ) (as : List Act) :
    accepted (seen txFifoDepth rxFifoDepth as) =
        written (seen txFifoDepth rxFifoDepth as) ++
          (after txFifoDepth rxFifoDepth as).tx.hand ++
            (after txFifoDepth rxFifoDepth as).txFifo ∧
      (after txFifoDepth rxFifoDepth as).txFifo.length ≤ txFifoDepth ∧
      ((after txFifoDepth rxFifoDepth as).tx = .pop →
        (after txFifoDepth rxFifoDepth as).txFifo ≠ []) := by
  have hsend := (inv_run txFifoDepth rxFifoDepth as).sending
  have hdepth := hsend.depth
  rw [(depths_run txFifoDepth rxFifoDepth as).1] at hdepth
  exact ⟨hsend.bytes, hdepth, fun hpop => hsend.found (by rw [hpop]; rfl)⟩

/-- **What is received.**  For fifos of any depth and for every order of the steps: the bytes received
from the remote are those that the simulation has pulled, in this order, then those in the fifo and those
that the main thread still has to push.  The fifo never has more bytes than its depth, but for the one
byte whose place `stop_handling` has posted. -/
theorem arrived_eq_pulled (txFifoDepth rxFifoDepth : ℕ) (as : List Act) :
    arrived (seen txFifoDepth rxFifoDepth as) =
        pulled (seen txFifoDepth rxFifoDepth as) ++
          (after txFifoDepth rxFifoDepth as).rxFifo ++
            (after txFifoDepth rxFifoDepth as).rx.hand ∧
      (after txFifoDepth rxFifoDepth as).rxFifo.length ≤
        rxFifoDepth + (after txFifoDepth rxFifoDepth as).soc.posted := by
  have hrecv := (inv_run txFifoDepth rxFifoDepth as).receiving
  have hplaces := hrecv.places
  rw [(depths_run txFifoDepth rxFifoDepth as).2] at hplaces
  exact ⟨hrecv.bytes, by omega⟩

end RiscvVp.ChannelIf
