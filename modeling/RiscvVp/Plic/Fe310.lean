import RiscvVp.Iss.Csr

/-!
# The interrupt controller of the FE310

`FE310_PLIC` (`platform/common/fe310_plic.h`) with its register ranges and the views of them
(`util/memory_map.h`), for aligned accesses of four bytes.

The four ranges are arrays of 32-bit words; `hart_config` has two words for each hart.  `ArrayView`
checks the index of `operator[]` and not that of `operator()`; an access that is not within the array
has no result in the model, whether an assertion fails there or not.  `e_run` has at most one
notification outstanding.  The interrupt lines of the harts are part of the state; delays are not.
-/

namespace RiscvVp

/-- The parameters of the template, with its static assertions.  `RegisterRange` asserts that no range
is empty. -/
structure Fe310Config where
  numberCores : ℕ
  numberInterrupts : ℕ
  numberInterruptEntries : ℕ
  maxPriority : BitVec 32
  cores_pos : 0 < numberCores
  cores_le : numberCores ≤ 15360
  interrupts_le : numberInterrupts ≤ 4096
  entries_pos : 0 < numberInterruptEntries

/-- How the simulation ends: by the router, or by an assertion about the access. -/
inductive Fe310Error
  /-- `unable to route address` -/
  | route
  /-- `ensure(!readonly)`: the range cannot be written. -/
  | readonly
  /-- the assertions on the number of an interrupt -/
  | irqId
  /-- an index into a view is out of range -/
  | index
  /-- `assert(hart_eip[idx])`: a claim comes only while the line is on. -/
  | hartEip
  deriving DecidableEq, Repr

/-- The contents of the ranges, what the controller keeps for each hart, the notification of `e_run` and
the interrupt lines. -/
structure Fe310Plic where
  interruptPriorities : ℕ → BitVec 32
  pendingInterrupts : ℕ → BitVec 32
  hartEnabledInterrupts : ℕ → BitVec 32
  hartConfig : ℕ → BitVec 32
  hartEip : ℕ → Bool
  eRun : Bool
  lines : ℕ → Bool

/-- A register range, by what it holds. -/
inductive Fe310Range
  | interruptPriorities
  | pendingInterrupts
  | hartEnabledInterrupts
  | hartConfig
  deriving DecidableEq, Repr

/-- What happens to the controller: a device, an access over the bus, or its own thread. -/
inductive Fe310Event
  | trigger (irqId : ℕ)
  | read (addr : ℕ)
  | write (addr : ℕ) (value : BitVec 32)
  | run
  deriving DecidableEq, Repr

namespace Fe310Config

variable (cfg : Fe310Config)

/-- `register_ranges`: first address and number of words. -/
def registerRanges : List (ℕ × ℕ × Fe310Range) :=
  [(0x0, cfg.numberInterrupts + 1, .interruptPriorities),
    (0x1000, cfg.numberInterruptEntries, .pendingInterrupts),
    (0x2000, cfg.numberInterruptEntries * cfg.numberCores, .hartEnabledInterrupts),
    (0x200000, 2 * cfg.numberCores, .hartConfig)]

/-- `vp::mm::route`, for an aligned access of four bytes: the range and the index of the word. -/
def route (addr : ℕ) : Option (Fe310Range × ℕ) :=
  match cfg.registerRanges.find? fun r => r.1 ≤ addr && addr < r.1 + 4 * r.2.1 with
  | none => none
  | some (start, _, range) => some (range, (addr - start) / 4)

end Fe310Config

namespace Fe310Plic

variable (cfg : Fe310Config) (s : Fe310Plic)

/-- `1 << off` is a bit of the word. -/
def bit (word : BitVec 32) (irqId : ℕ) : Bool := word.getLsbD (irqId % 32)

/-- `pending_interrupts[idx]`: a word of pending bits, with the check of the index that the array makes. -/
def pendingAt (idx : ℕ) : Except Fe310Error (BitVec 32) :=
  if idx < cfg.numberInterruptEntries then .ok (s.pendingInterrupts idx) else .error .index

/-- `hart_enabled_interrupts(hart_id, idx)`; the view has rows of one word. -/
def enabledAt (hartId idx : ℕ) : Except Fe310Error (BitVec 32) :=
  if hartId * 1 + idx < cfg.numberInterruptEntries * cfg.numberCores then
    .ok (s.hartEnabledInterrupts (hartId * 1 + idx))
  else .error .index

/-- `interrupt_priorities[i]`: the priority of an interrupt, with the check of the index. -/
def priorityAt (i : ℕ) : Except Fe310Error (BitVec 32) :=
  if i < cfg.numberInterrupts + 1 then .ok (s.interruptPriorities i) else .error .index

/-- `hart_config[hart_id].priority_threshold`: the threshold of a hart, with the check of the index. -/
def thresholdAt (hartId : ℕ) : Except Fe310Error (BitVec 32) :=
  if hartId < cfg.numberCores then .ok (s.hartConfig (2 * hartId)) else .error .index

/-- `prio > 0 && (!consider_threshold || (prio > hart_config[hart_id].priority_threshold))`. -/
def passes (hartId : ℕ) (considerThreshold : Bool) (prio : BitVec 32) : Except Fe310Error Bool :=
  if 0 < prio then
    if considerThreshold then do
      let threshold ← s.thresholdAt cfg hartId
      pure (decide (threshold < prio))
    else pure true
  else pure false

/-- One round of the loop of `hart_get_next_pending_interrupt` on `min_id` and `max_priority`. -/
def nextRound (hartId : ℕ) (considerThreshold : Bool) (sel : ℕ × BitVec 32) (i : ℕ) :
    Except Fe310Error (ℕ × BitVec 32) := do
  let enabled ← s.enabledAt cfg hartId (i / 32)
  if bit enabled i then
    let pending ← s.pendingAt cfg (i / 32)
    if bit pending i then
      let prio ← s.priorityAt cfg i
      let above ← s.passes cfg hartId considerThreshold prio
      pure (if above = true ∧ sel.2 < prio then (i, prio) else sel)
    else pure sel
  else pure sel

/-- `hart_get_next_pending_interrupt`: the pending and enabled interrupt of the highest priority, the first
of these, or zero.  The threshold counts only where the caller asks for it. -/
def hartGetNextPendingInterrupt (hartId : ℕ) (considerThreshold : Bool) : Except Fe310Error ℕ := do
  let r ← (List.range' 1 (cfg.numberInterrupts - 1)).foldlM
    (s.nextRound cfg hartId considerThreshold) (0, 0)
  return r.1

/-- `hart_has_pending_enabled_interrupts`: some interrupt is above the threshold of the hart. -/
def hartHasPendingEnabledInterrupts (hartId : ℕ) : Except Fe310Error Bool := do
  let irqId ← s.hartGetNextPendingInterrupt cfg hartId true
  return decide (0 < irqId)

/-- `gateway_trigger_interrupt`: the interrupt becomes pending, and `run` is notified. -/
def gatewayTriggerInterrupt (irqId : ℕ) : Except Fe310Error Fe310Plic :=
  if irqId = 0 ∨ cfg.numberInterrupts ≤ irqId then .error .irqId
  else do
    let word ← s.pendingAt cfg (irqId / 32)
    return { s with
      pendingInterrupts :=
        Function.update s.pendingInterrupts (irqId / 32) (word ||| 1#32 <<< (irqId % 32))
      eRun := true }

/-- `clear_pending_interrupt`: the bit of one interrupt is cleared. -/
def clearPendingInterrupt (irqId : ℕ) : Except Fe310Error Fe310Plic :=
  if cfg.numberInterrupts ≤ irqId then .error .irqId
  else do
    let word ← s.pendingAt cfg (irqId / 32)
    return { s with
      pendingInterrupts :=
        Function.update s.pendingInterrupts (irqId / 32) (word &&& ~~~(1#32 <<< (irqId % 32))) }

/-- `post_write_interrupt_priorities`: `end()` of a view is its last element, which the loop does not
reach. -/
def postWriteInterruptPriorities : Fe310Plic :=
  { s with
    interruptPriorities := fun i =>
      if i < cfg.numberInterrupts ∧ cfg.maxPriority < s.interruptPriorities i then cfg.maxPriority
      else s.interruptPriorities i }

/-- `pre_read_hart_config`, with the index of the word.  `--idx` leaves the index of the first word of
the hart, not of the hart. -/
def preReadHartConfig (idx : ℕ) : Except Fe310Error Fe310Plic :=
  if idx % 2 = 1 then do
    let idx := idx - 1
    let minId ← s.hartGetNextPendingInterrupt cfg 0 false
    -- `hart_config[idx].claim_response`
    if cfg.numberCores ≤ idx then .error .index
    else
      let s := { s with hartConfig := Function.update s.hartConfig (2 * idx + 1) (.ofNat 32 minId) }
      s.clearPendingInterrupt cfg minId
  else .ok s

/-- `post_write_hart_config`, after the value has been stored; the index is treated in the same way.
`hart_eip` and `target_harts` are arrays of `NumberCores` elements. -/
def postWriteHartConfig (idx : ℕ) : Except Fe310Error Fe310Plic :=
  if idx % 2 = 1 then do
    let idx := idx - 1
    let has ← s.hartHasPendingEnabledInterrupts cfg idx
    if cfg.numberCores ≤ idx then .error .index
    else if has then
      if s.hartEip idx then .ok { s with lines := Function.update s.lines idx true }
      else .error .hartEip
    else
      .ok { s with
        hartEip := Function.update s.hartEip idx false
        lines := Function.update s.lines idx false }
  else .ok s

/-- The words of a range. -/
def word : Fe310Range → ℕ → BitVec 32
  | .interruptPriorities => s.interruptPriorities
  | .pendingInterrupts => s.pendingInterrupts
  | .hartEnabledInterrupts => s.hartEnabledInterrupts
  | .hartConfig => s.hartConfig

/-- A read over the bus: the callback, then the copy. -/
def busRead (addr : ℕ) : Except Fe310Error (BitVec 32 × Fe310Plic) :=
  match cfg.route addr with
  | none => .error .route
  | some (.hartConfig, idx) => do
    let s ← s.preReadHartConfig cfg idx
    return (s.hartConfig idx, s)
  | some (range, idx) => .ok (s.word range idx, s)

/-- A write over the bus: the copy, then the callback. -/
def busWrite (addr : ℕ) (value : BitVec 32) : Except Fe310Error Fe310Plic :=
  match cfg.route addr with
  | none => .error .route
  | some (.pendingInterrupts, _) => .error .readonly
  | some (.interruptPriorities, idx) =>
    .ok ({ s with
      interruptPriorities := Function.update s.interruptPriorities idx value
      }.postWriteInterruptPriorities cfg)
  | some (.hartEnabledInterrupts, idx) =>
    .ok { s with hartEnabledInterrupts := Function.update s.hartEnabledInterrupts idx value }
  | some (.hartConfig, idx) =>
    { s with hartConfig := Function.update s.hartConfig idx value }.postWriteHartConfig cfg idx

/-- One round of the loop of `run`. -/
def runHart (s : Fe310Plic) (i : ℕ) : Except Fe310Error Fe310Plic :=
  if s.hartEip i then .ok s
  else do
    let has ← s.hartHasPendingEnabledInterrupts cfg i
    pure (if has then
      { s with hartEip := Function.update s.hartEip i true, lines := Function.update s.lines i true }
    else s)

/-- A wake-up of `run`, if there is a notification. -/
def run : Except Fe310Error Fe310Plic :=
  if s.eRun then (List.range cfg.numberCores).foldlM (runHart cfg) { s with eRun := false } else .ok s

/-- One event, or the check that it fails. -/
def exec : Fe310Event → Except Fe310Error Fe310Plic
  | .trigger irqId => s.gatewayTriggerInterrupt cfg irqId
  | .read addr => (·.2) <$> s.busRead cfg addr
  | .write addr value => s.busWrite cfg addr value
  | .run => s.run cfg

/-- One step; the answer says how the simulation ends, if it does. -/
def step (s : Fe310Plic) (e : Fe310Event) : Option Fe310Error × Fe310Plic :=
  match s.exec cfg e with
  | .ok s' => (none, s')
  | .error err => (some err, s)

/-- After the constructor: nothing is pending, enabled or signalled. -/
def start : Fe310Plic :=
  ⟨fun _ => 0, fun _ => 0, fun _ => 0, fun _ => 0, fun _ => false, false, fun _ => false⟩

end Fe310Plic

end RiscvVp
