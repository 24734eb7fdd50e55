import Mathlib
import RiscvVp.Lib.Run
import RiscvVp.Uart.Basic

/-!
# The register file of the NS16550A

`pre_read_regs` writes its result into the array that holds `LCR`, `MCR` and `SCR`, and for these three
the result is 0: a read returns 0 whatever was written, and clears the register.  With `LCR` goes `DLAB`,
so a read of `LCR` can change which registers the offsets 0 and 1 reach.
-/

namespace RiscvVp.Uart

/-! ### What is said of the registers -/

/-- The UART after a sequence of events. -/
def after (events : List Event) : Uart := Run.final step reset events

/-- The registers that only store what is written to them. -/
def Stored (addr : UartReg) : Prop := addr = .lcr ∨ addr = .mcr ∨ addr = .scr

/-- The value last written to a register, or what it has from the start. -/
def lastWritten (events : List Event) : UartReg → BitVec 8 :=
  events.foldl (fun w e => match e with
    | .write addr data => Function.update w addr data
    | _ => w) reset.regs

/-- The bits of a register that it keeps: the loop bit of `MCR` is left aside. -/
def keptBits (addr : UartReg) (v : BitVec 8) : BitVec 8 :=
  if addr = .mcr then v &&& ~~~mcrLoop else v

theorem keptBits_zero (addr : UartReg) : keptBits addr 0 = 0 := by
  unfold keptBits
  split_ifs
  · exact BitVec.zero_and
  · rfl

/-- What an access shows of the registers: the bank it reaches at offset 0 or 1, and the value that it
reads of `LCR`, `MCR`, `SCR`, `DLL`, `DLM` or `IER`. -/
def view (u : Uart) : Event → Option Bool × Option (BitVec 8)
  | .read .rxTxDll => (some u.dlab, if u.dlab then some (u.read .rxTxDll).1 else none)
  | .read .ierDlm => (some u.dlab, some (u.read .ierDlm).1)
  | .read .lcr => (none, some (u.read .lcr).1)
  | .read .mcr => (none, some (u.read .mcr).1)
  | .read .scr => (none, some (u.read .scr).1)
  | .write .rxTxDll _ => (some u.dlab, none)
  | .write .ierDlm _ => (some u.dlab, none)
  | _ => (none, none)

/-- A step with what it shows. -/
def observe (u : Uart) (e : Event) : (Option Bool × Option (BitVec 8)) × Uart :=
  (u.view e, (u.step e).2)

/-- In this run every read of a stored register returns what was last written, and no read changes what
later accesses show. -/
structure RegistersKept (events : List Event) : Prop where
  returns : ∀ pre addr post, events = pre ++ .read addr :: post → Stored addr →
    keptBits addr ((after pre).read addr).1 = keptBits addr (lastWritten pre addr)
  frame : ∀ pre addr post, events = pre ++ .read addr :: post → ∀ later,
    Run.outputs observe (after (pre ++ [.read addr])) later = Run.outputs observe (after pre) later

/-- The stored registers are read only where what was last written is 0. -/
def ReadsZero (events : List Event) : Prop :=
  ∀ pre addr post, events = pre ++ .read addr :: post → Stored addr →
    keptBits addr (lastWritten pre addr) = 0

theorem ReadsZero.of_append {as bs : List Event} (h : ReadsZero (as ++ bs)) : ReadsZero as := by
  intro pre addr post heq
  refine h pre addr (post ++ bs) ?_
  rw [heq, List.append_assoc, List.cons_append]

/-! ### Reads -/

theorem read_stored (u : Uart) {addr : UartReg} (h : Stored addr) :
    u.read addr = (0, { u with regs := Function.update u.regs addr 0 }) := by
  have hval : u.readVal addr = (0, u) := by rcases h with rfl | rfl | rfl <;> rfl
  unfold read preReadRegs
  rw [hval]
  simp only [Function.update_self]

/-- What the accesses at offset 0 and 1 depend on. -/
structure SameBanks (u v : Uart) : Prop where
  lcr : u.regs .lcr = v.regs .lcr
  ier : u.regIer = v.regIer
  dll : u.regDll = v.regDll
  dlm : u.regDlm = v.regDlm

theorem SameBanks.dlab {u v : Uart} (h : SameBanks u v) : u.dlab = v.dlab := by
  rw [Uart.dlab, Uart.dlab, h.lcr]

theorem SameBanks.symm {u v : Uart} (h : SameBanks u v) : SameBanks v u :=
  ⟨h.lcr.symm, h.ier.symm, h.dll.symm, h.dlm.symm⟩

theorem SameBanks.trans {u v w : Uart} (h : SameBanks u v) (h' : SameBanks v w) : SameBanks u w :=
  ⟨h.lcr.trans h'.lcr, h.ier.trans h'.ier, h.dll.trans h'.dll, h.dlm.trans h'.dlm⟩

theorem sameBanks_rxpull (u : Uart) : SameBanks u.rxpull.2 u := by
  unfold rxpull
  split <;> exact ⟨rfl, rfl, rfl, rfl⟩

theorem sameBanks_readVal (u : Uart) (addr : UartReg) : SameBanks (u.readVal addr).2 u := by
  unfold readVal
  split
  · split_ifs
    · exact ⟨rfl, rfl, rfl, rfl⟩
    · exact sameBanks_rxpull u
  all_goals exact ⟨rfl, rfl, rfl, rfl⟩

/-- A read of a register other than `LCR` leaves the banks as they are. -/
theorem sameBanks_read (u : Uart) {addr : UartReg} (h : addr ≠ .lcr) : SameBanks (u.read addr).2 u := by
  obtain ⟨hlcr, hier, hdll, hdlm⟩ := sameBanks_readVal u addr
  refine ⟨?_, hier, hdll, hdlm⟩
  show Function.update (u.readVal addr).2.regs addr _ .lcr = u.regs .lcr
  rw [Function.update_of_ne (Ne.symm h), hlcr]

/-- So does a read of `LCR` that holds 0. -/
theorem sameBanks_read_lcr {u : Uart} (h : u.regs .lcr = 0) : SameBanks (u.read .lcr).2 u := by
  rw [read_stored u (.inl rfl)]
  refine ⟨?_, rfl, rfl, rfl⟩
  show Function.update u.regs .lcr 0 .lcr = u.regs .lcr
  rw [Function.update_self, h]

/-! ### Everything else -/

theorem sameBanks_txpush (u : Uart) (data : BitVec 8) : SameBanks (u.txpush data) u := by
  unfold txpush
  split_ifs <;> exact ⟨rfl, rfl, rfl, rfl⟩

theorem sameBanks_rxpush (u : Uart) (data : BitVec 8) : SameBanks (u.rxpush data) u := by
  unfold rxpush
  split_ifs <;> exact ⟨rfl, rfl, rfl, rfl⟩

theorem sameBanks_txpull (u : Uart) : SameBanks u.txpull u := by
  unfold txpull
  split_ifs <;> exact ⟨rfl, rfl, rfl, rfl⟩

theorem sameBanks_update_mcr (u : Uart) (v : BitVec 8) :
    SameBanks { u with regs := Function.update u.regs .mcr v } u :=
  ⟨Function.update_of_ne (show UartReg.lcr ≠ .mcr by decide) v u.regs, rfl, rfl, rfl⟩

/-- The byte that a write leaves in `LCR`. -/
theorem write_lcr (u : Uart) (addr : UartReg) (data : BitVec 8) :
    (u.write addr data).regs .lcr = if addr = .lcr then data else u.regs .lcr := by
  have hmem : Function.update u.regs addr data .lcr = if addr = .lcr then data else u.regs .lcr := by
    rw [Function.update_apply]
    exact if_congr eq_comm rfl rfl
  rw [← hmem]
  unfold write postWriteRegs
  split
  · split_ifs
    · rfl
    · exact (sameBanks_txpush _ data).lcr
  · split_ifs <;> rfl
  · rfl
  · split_ifs
    · exact (sameBanks_update_mcr _ _).lcr
    · rfl
  all_goals rfl

theorem SameBanks.put {u v : Uart} (h : SameBanks u v) (addr : UartReg) (data : BitVec 8) :
    SameBanks { u with regs := Function.update u.regs addr data }
      { v with regs := Function.update v.regs addr data } := by
  refine ⟨?_, h.ier, h.dll, h.dlm⟩
  show Function.update u.regs addr data .lcr = Function.update v.regs addr data .lcr
  rw [Function.update_apply, Function.update_apply, h.lcr]

/-- `post_write_regs` does the same to banks that are the same. -/
theorem SameBanks.postWriteRegs {u v : Uart} (h : SameBanks u v) (val : BitVec 8) (addr : UartReg) :
    SameBanks (u.postWriteRegs val addr) (v.postWriteRegs val addr) := by
  unfold Uart.postWriteRegs
  split
  · rw [h.dlab]
    split_ifs
    · exact ⟨h.lcr, h.ier, rfl, h.dlm⟩
    · exact (sameBanks_txpush u val).trans (h.trans (sameBanks_txpush v val).symm)
  · rw [h.dlab]
    split_ifs
    · exact ⟨h.lcr, h.ier, h.dll, rfl⟩
    · exact ⟨h.lcr, rfl, h.dll, h.dlm⟩
  · exact ⟨h.lcr, h.ier, h.dll, h.dlm⟩
  · split_ifs
    · exact (sameBanks_update_mcr u _).trans (h.trans (sameBanks_update_mcr v _).symm)
    · exact h
  all_goals exact h

theorem SameBanks.write {u v : Uart} (h : SameBanks u v) (addr : UartReg) (data : BitVec 8) :
    SameBanks (u.write addr data) (v.write addr data) :=
  (h.put addr data).postWriteRegs data addr

/-- Two UARTs with the same banks show the same, step after step. -/
theorem SameBanks.observe {u v : Uart} (h : SameBanks u v) (e : Event) :
    (u.observe e).1 = (v.observe e).1 ∧ SameBanks (u.observe e).2 (v.observe e).2 := by
  cases e with
  | read addr =>
    have hread : SameBanks (u.read addr).2 (v.read addr).2 := by
      by_cases hlcr : addr = .lcr
      · rw [hlcr, read_stored u (.inl rfl), read_stored v (.inl rfl)]
        exact ⟨by simp only [Function.update_self], h.ier, h.dll, h.dlm⟩
      · exact (sameBanks_read u hlcr).trans (h.trans (sameBanks_read v hlcr).symm)
    refine ⟨?_, hread⟩
    show u.view (.read addr) = v.view (.read addr)
    cases addr with
    | rxTxDll =>
      simp only [view, h.dlab]
      split_ifs with hd
      · simp only [read, preReadRegs, readVal, h.dlab, if_pos hd, Function.update_self, h.dll]
      · rfl
    | ierDlm =>
      simp only [view, read, preReadRegs, readVal, h.dlab, Function.update_self, h.ier, h.dlm]
    | lcr => simp only [view, read_stored _ (.inl rfl)]
    | mcr => simp only [view, read_stored _ (.inr (.inl rfl))]
    | scr => simp only [view, read_stored _ (.inr (.inr rfl))]
    | iirFcr => rfl
    | lsr => rfl
    | msr => rfl
  | write addr data =>
    refine ⟨?_, h.write addr data⟩
    show u.view (.write addr data) = v.view (.write addr data)
    cases addr <;> simp only [view, h.dlab]
  | rxpush data =>
    exact ⟨rfl, (sameBanks_rxpush u data).trans (h.trans (sameBanks_rxpush v data).symm)⟩
  | txpull => exact ⟨rfl, (sameBanks_txpull u).trans (h.trans (sameBanks_txpull v).symm)⟩
  | interrupt => exact ⟨rfl, ⟨h.lcr, h.ier, h.dll, h.dlm⟩⟩

theorem SameBanks.outputs {u v : Uart} (h : SameBanks u v) (later : List Event) :
    Run.outputs Uart.observe u later = Run.outputs Uart.observe v later := by
  induction later generalizing u v with
  | nil => rfl
  | cons e later ih =>
    obtain ⟨hview, hnext⟩ := h.observe e
    rw [Run.outputs, Run.outputs, hview, ih hnext]

/-! ### Runs -/

theorem after_concat (events : List Event) (e : Event) :
    after (events ++ [e]) = ((after events).step e).2 := by
  rw [after, Run.final_append]
  rfl

theorem lastWritten_concat (events : List Event) (e : Event) :
    lastWritten (events ++ [e]) = match e with
      | .write addr data => Function.update (lastWritten events) addr data
      | _ => lastWritten events := by
  rw [lastWritten, List.foldl_append]
  rfl

/-- As long as the stored registers are read only where they hold 0, `LCR` holds what was last written
to it. -/
theorem lcr_after {events : List Event} (h : ReadsZero events) :
    (after events).regs .lcr = lastWritten events .lcr := by
  induction events using List.reverseRecOn with
  | nil => rfl
  | append_singleton events e ih =>
    have hlcr := ih h.of_append
    rw [after_concat, lastWritten_concat]
    cases e with
    | read addr =>
      by_cases haddr : addr = .lcr
      · have hzero := h events addr [] rfl (.inl haddr)
        rw [haddr, keptBits, if_neg (by decide)] at hzero
        subst haddr
        exact (sameBanks_read_lcr (hlcr.trans hzero)).lcr.trans hlcr
      · exact (sameBanks_read _ haddr).lcr.trans hlcr
    | write addr data =>
      show ((after events).write addr data).regs .lcr =
        Function.update (lastWritten events) addr data .lcr
      rw [write_lcr, Function.update_apply, hlcr]
      exact if_congr eq_comm rfl rfl
    | rxpush data => exact (sameBanks_rxpush _ data).lcr.trans hlcr
    | txpull => exact (sameBanks_txpull _).lcr.trans hlcr
    | interrupt => exact hlcr

/-- **When the register file is kept.**  In a run every read of `LCR`, `MCR` and `SCR` returns what was
last written and no read changes what later accesses show, exactly if these registers are read only
where what was last written to them is 0. -/
theorem registersKept_iff (events : List Event) : RegistersKept events ↔ ReadsZero events := by
  constructor
  · intro h pre addr post heq hstored
    have hreturns := h.returns pre addr post heq hstored
    rw [read_stored _ hstored] at hreturns
    exact hreturns.symm.trans (keptBits_zero addr)
  · intro h
    refine ⟨fun pre addr post heq hstored => ?_, fun pre addr post heq later => ?_⟩
    · rw [read_stored _ hstored, h pre addr post heq hstored]
      exact keptBits_zero addr
    · have hpre : ReadsZero pre := by
        rw [heq] at h
        exact h.of_append
      rw [after_concat]
      refine SameBanks.outputs ?_ later
      by_cases haddr : addr = .lcr
      · have hzero := h pre addr post heq (.inl haddr)
        rw [haddr, keptBits, if_neg (by decide)] at hzero
        rw [haddr]
        exact sameBanks_read_lcr ((lcr_after hpre).trans hzero)
      · exact sameBanks_read _ haddr

/-- The divisor latch is selected, `LCR` is read, and the next access at offset 0 is one to the fifo. -/
theorem not_registersKept :
    ¬RegistersKept [.write .lcr 0x83, .read .lcr, .write .rxTxDll 0x0C] := by
  intro h
  have hreturns := h.returns [.write .lcr 0x83] .lcr [.write .rxTxDll 0x0C] rfl (.inl rfl)
  revert hreturns
  decide

end RiscvVp.Uart
