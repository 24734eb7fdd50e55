import RiscvVp.Cheri.Equiv.CapLoad
import RiscvVp.Cheri.ExecSteps
import RiscvVp.Lib.Keeps

/-!
# Register zero

Register zero ought to hold the null capability whenever an instruction reads its operands.  The capability
instructions and the loads of the CHERI extension write a destination register zero and do not reset it,
apart from a few, and `SC_W` and `SC_D` write the code of a failure to it before they read the value to
be stored and before they can trap.  Without these the register is null in every run
(`zeroRead_along`).
-/

namespace RiscvVp.Cheri

/-! ### Statement -/

/-- The instructions that write their destination and do not reset register zero, or reset it too late. -/
def MemInstr.noReset : MemInstr → Bool
  | .loadC | .loadTags | .loadDdc _ | .loadCDdc | .loadCap _ | .loadCCap | .amoswapC => true
  | .storeConditional n => n = .word ∨ n = .double
  | _ => false

/-- Likewise for all instructions: those after which register zero is not reset. -/
def Op.noReset : Op → Bool
  | .cap op => op ≠ .cSetAddr
  | .mem m => m.noReset
  | _ => false

/-- An instruction that leaves something in register zero: it is one of these and the destination is
register zero. -/
def IssEvent.WritesZero {δ : Type} (e : IssEvent δ) : Prop :=
  ∃ op o, e.decoded = some (op, o) ∧ op.noReset = true ∧ o.rd = 0

namespace Iss

variable {δ : Type} {p : Platform δ} {rest : Rest} {o : Operands}

/-- The first part of `SC_W` and `SC_D`, after which the value to be stored is read. -/
def scFailure (o : Operands) (n : Width) : IssM δ Unit := do
  let s ← get
  mem (Hart.trapCheckAddrAlignment false (s.getCheriModeCapAddr o.rs1 0).2.2 n.bytes)
  setReg o.rd (Capability.ofInt 1)

/-- The states in which an instruction reads its operands. -/
def readStates (s : Iss δ) (o : Operands) : Op → List (Iss δ)
  | .mem (.storeConditional n) =>
    if n = .word ∨ n = .double then
      match (scFailure o n).run' s with
      | (.ok _, s') => [s, s']
      | (.error _, _) => [s]
    else [s]
  | _ => [s]

/-- Register zero is null: it holds the null capability, with no tag, no bounds and no permissions. -/
def ZeroNull (s : Iss δ) : Prop := s.regs 0 = cNullCap

/-- Whenever the instruction reads its operands, register zero is null. -/
def ZeroRead (s : Iss δ) (e : IssEvent δ) : Prop :=
  ∀ op o, e.decoded = some (op, o) → ∀ s' ∈ s.readStates o op, s'.ZeroNull

/-! ### Rules -/

/-- A computation that keeps register zero null. -/
abbrev KeepsZero {α : Type} (x : IssM δ α) : Prop := Keeps ZeroNull x

/-- A computation on the state it reads. -/
theorem keepsZero_get_bind {α : Type} {f : Iss δ → IssM δ α}
    (hf : ∀ s, s.ZeroNull → (f s s).2.ZeroNull) : KeepsZero (get >>= f) := fun s hs => hf s hs

theorem keepsZero_mem {α : Type} (x : HartM δ α) : KeepsZero (mem x) := fun _ hs => hs

theorem keepsZero_modify {f : Iss δ → Iss δ} (hf : ∀ s, (f s).regs = s.regs) :
    KeepsZero (modify f) := by
  intro s hs
  show (f s).regs 0 = cNullCap
  rw [hf s]
  exact hs

theorem keepsZero_setReg {rd : Fin 32} (hrd : rd ≠ 0) (value : Capability) :
    KeepsZero (setReg rd value : IssM δ Unit) := by
  intro s hs
  show Function.update s.regs rd value 0 = cNullCap
  rw [Function.update_of_ne hrd.symm]
  exact hs

theorem keepsZero_setReg_null (rd : Fin 32) : KeepsZero (setReg rd cNullCap : IssM δ Unit) := by
  intro s hs
  show Function.update s.regs rd cNullCap 0 = cNullCap
  by_cases hrd : rd = 0
  · rw [hrd, Function.update_self]
  · rw [Function.update_of_ne (Ne.symm hrd)]
    exact hs

/-- After `reset_reg_zero` the register is null, whatever was in it. -/
theorem zeroNull_resetRegZero (s : Iss δ) : ((resetRegZero : IssM δ Unit) s).2.ZeroNull := by
  show Function.update s.regs 0 (Capability.ofInt 0) 0 = cNullCap
  rw [Function.update_self]
  rfl

/-- A destination that is written and reset. -/
theorem keepsZero_setReg_reset (rd : Fin 32) (value : Capability) :
    KeepsZero (setReg rd value >>= fun _ => resetRegZero : IssM δ Unit) :=
  fun _ _ => zeroNull_resetRegZero _

theorem keepsZero_raise {α : Type} (t : SimulationTrap) :
    KeepsZero (CheriM.raise t : IssM δ α) := fun _ hs => hs

theorem keepsZero_check (ok : Bool) (t : SimulationTrap) : KeepsZero (check ok t : IssM δ Unit) :=
  .ite (fun _ => .pure ()) fun _ => keepsZero_raise t

/-! ### Instructions that access memory -/

/-- A load-reserved writes its destination and then resets register zero, whatever the destination was. -/
theorem keepsZero_lrInstr (reserve : HartM δ (BitVec 64)) : KeepsZero (lrInstr o reserve) :=
  (keepsZero_mem reserve).bind fun _ _ _ => zeroNull_resetRegZero _

theorem keepsZero_lrCInstr (reserve : HartM δ Capability) : KeepsZero (lrCInstr o reserve) :=
  (keepsZero_mem reserve).bind fun _ _ _ => zeroNull_resetRegZero _

/-- A store-conditional that writes no code of a failure first. -/
theorem keepsZero_scInstr (dst : Fin 32) (store : HartM δ Bool) : KeepsZero (scInstr dst store) :=
  (keepsZero_mem store).bind fun _ _ _ => zeroNull_resetRegZero _

theorem keepsZero_executeAmo (n : Width) (f : AmoOp) : KeepsZero (executeAmo p o n f) := by
  refine keepsZero_get_bind fun s hs => ?_
  refine Keeps.bind (keepsZero_mem _) (fun _ => ?_) s hs
  refine Keeps.bind (keepsZero_mem _) fun data => ?_
  refine Keeps.bind (keepsZero_mem _) fun _ => ?_
  exact .ite (fun hrd => keepsZero_setReg hrd _) fun _ => .pure ()

theorem keepsZero_amoswapC (hrd : o.rd ≠ 0) : KeepsZero (amoswapC p o) := by
  refine keepsZero_get_bind fun s hs => ?_
  refine Keeps.bind (keepsZero_check _ _) (fun _ => ?_) s hs
  refine Keeps.bind (keepsZero_check _ _) fun _ => ?_
  refine Keeps.bind (keepsZero_check _ _) fun _ => ?_
  refine Keeps.bind (keepsZero_check _ _) fun _ => ?_
  refine Keeps.bind (keepsZero_check _ _) fun _ => ?_
  refine Keeps.bind (keepsZero_check _ _) fun _ => ?_
  refine Keeps.bind (keepsZero_check _ _) fun _ => ?_
  refine Keeps.bind (keepsZero_mem _) fun _ => ?_
  refine Keeps.bind (keepsZero_mem _) fun _ => ?_
  refine Keeps.bind (keepsZero_mem _) fun _ => ?_
  exact keepsZero_setReg hrd _

theorem keepsZero_loadTagsInstr (hrd : o.rd ≠ 0) : KeepsZero (loadTagsInstr p o) := by
  refine keepsZero_get_bind fun s hs => ?_
  refine Keeps.bind (keepsZero_check _ _) (fun _ => ?_) s hs
  refine Keeps.bind (keepsZero_check _ _) fun _ => ?_
  refine Keeps.bind (keepsZero_check _ _) fun _ => ?_
  refine Keeps.bind (keepsZero_check _ _) fun _ => ?_
  refine Keeps.bind (keepsZero_check _ _) fun _ => ?_
  refine Keeps.bind (keepsZero_check _ _) fun _ => ?_
  refine Keeps.bind (keepsZero_mem _) fun tags => ?_
  exact keepsZero_setReg hrd _

theorem keepsZero_fpPrepareInstr : KeepsZero (fpPrepareInstr o : IssM δ Unit) :=
  keepsZero_get_bind fun s hs => keepsZero_check _ _ s hs

theorem keepsZero_fLoadInstr (op : LoadOp) : KeepsZero (fLoadInstr p o op) := by
  refine Keeps.bind keepsZero_fpPrepareInstr fun _ => ?_
  refine keepsZero_get_bind fun s hs => ?_
  refine Keeps.bind (keepsZero_mem _) (fun _ => ?_) s hs
  refine Keeps.bind (keepsZero_mem _) fun _ => ?_
  refine Keeps.bind (keepsZero_modify ?_) fun _ => keepsZero_modify ?_
  · exact fun _ => rfl
  · exact fun _ => rfl

theorem keepsZero_fStoreInstr (n : Width) : KeepsZero (fStoreInstr p o n) := by
  refine Keeps.bind keepsZero_fpPrepareInstr fun _ => ?_
  refine keepsZero_get_bind fun s hs => ?_
  refine Keeps.bind (keepsZero_mem _) (fun _ => ?_) s hs
  refine Keeps.bind (keepsZero_mem _) fun _ => keepsZero_modify ?_
  exact fun _ => rfl

/-- A vector load or store: the integer registers are not written. -/
theorem keepsZero_vField (isLoad : Bool) (type : LoadStoreType) (numBits i field : ℕ) :
    KeepsZero ((vecIss p).vField o isLoad type numBits i field) := by
  rw [vField_eq]
  refine keepsZero_get_bind fun s hs => ?_
  cases elemWidth (s.vec.switchElem type numBits) with
  | none => exact hs
  | some n =>
    refine Keeps.ite (fun _ => ?_) (fun _ => ?_) s hs
    · refine Keeps.bind (keepsZero_mem _) fun _ => Keeps.bind (keepsZero_modify ?_) fun _ => .pure _
      exact fun _ => rfl
    · exact Keeps.bind (keepsZero_mem _) fun _ => .pure _

theorem keepsZero_vFields (isLoad : Bool) (type : LoadStoreType) (numBits i : ℕ) (fields : List ℕ) :
    KeepsZero ((vecIss p).vFields o isLoad type numBits i fields) := by
  induction fields with
  | nil => exact .pure _
  | cons field fields ih =>
    refine Keeps.bind (keepsZero_vField isLoad type numBits i field) fun breakLoop => ?_
    exact .ite (fun _ => .pure _) fun _ => ih

theorem keepsZero_vec : KeepsZero ((vecIss p).vec : IssM δ VecState) := fun _ hs => hs

theorem keepsZero_modifyVec (f : VecState → VecState) :
    KeepsZero ((vecIss p).modifyVec f : IssM δ Unit) := keepsZero_modify fun _ => rfl

theorem keepsZero_vElements (isLoad : Bool) (type : LoadStoreType) (numBits evl : ℕ) (is : List ℕ) :
    KeepsZero ((vecIss p).vElements o isLoad type numBits evl is) := by
  induction is with
  | nil => exact .pure _
  | cons i is ih =>
    refine Keeps.bind keepsZero_vec fun v => .ite (fun _ => ih) fun _ => ?_
    refine Keeps.bind (keepsZero_modifyVec _) fun _ => ?_
    refine Keeps.bind (keepsZero_vFields isLoad type numBits i _) fun breakLoop => ?_
    exact .ite (fun _ => .pure _) fun _ => ih

theorem keepsZero_vLoadStore (isLoad : Bool) (numBits : ℕ) (type : LoadStoreType) :
    KeepsZero ((vecIss p).vLoadStore o isLoad numBits type) := by
  refine Keeps.bind keepsZero_vec fun v => ?_
  refine Keeps.bind (keepsZero_check _ _) fun _ => ?_
  refine Keeps.bind (keepsZero_check _ _) fun _ => ?_
  exact keepsZero_vElements isLoad type numBits _ _

theorem keepsZero_prepInstr (requireVill : Bool) :
    KeepsZero ((vecIss p).prepInstr o requireVill : IssM δ Unit) := by
  have hvs : KeepsZero ((vecIss p).vs : IssM δ (BitVec 2)) := fun _ hs => hs
  refine hvs.bind fun vs => Keeps.bind (keepsZero_check _ _) fun _ => ?_
  refine Keeps.bind (keepsZero_modify ?_) fun _ => Keeps.bind keepsZero_vec fun v => keepsZero_check _ _
  exact fun _ => rfl

theorem keepsZero_vLoadStoreInstr (isLoad : Bool) (numBits : ℕ) (type : LoadStoreType) :
    KeepsZero ((vecIss p).vLoadStoreInstr o isLoad numBits type) := by
  refine Keeps.bind (keepsZero_prepInstr _) fun _ => ?_
  refine Keeps.bind (keepsZero_vLoadStore isLoad numBits type) fun _ => ?_
  exact keepsZero_modifyVec _

/-- A load whose destination is not register zero. -/
theorem keepsZero_loadTo {α : Type} (x : HartM δ α) (value : α → Capability) (hrd : o.rd ≠ 0) :
    KeepsZero (mem x >>= fun v => setReg o.rd (value v)) :=
  (keepsZero_mem x).bind fun _ => keepsZero_setReg hrd _

/-- The instructions that access memory.  Those without a reset at the end are asked for another
destination. -/
theorem keepsZero_exec {m : MemInstr} (h : m.noReset = true → o.rd ≠ 0) :
    KeepsZero (exec p o m) := by
  -- where `rd` is not reset to zero after the operation, `h` says that it is another register
  cases m with
  | load op =>
    exact keepsZero_get_bind fun s hs =>
      Keeps.bind (keepsZero_mem _) (fun _ => keepsZero_setReg_reset _ _) s hs
  | store n => exact keepsZero_get_bind fun _ hs => hs
  | loadC => exact keepsZero_get_bind fun s hs => keepsZero_loadTo _ id (h rfl) s hs
  | storeC => exact keepsZero_get_bind fun _ hs => hs
  | loadTags => exact keepsZero_loadTagsInstr (h rfl)
  | loadDdc op => exact keepsZero_get_bind fun s hs => keepsZero_loadTo _ _ (h rfl) s hs
  | loadCDdc => exact keepsZero_get_bind fun s hs => keepsZero_loadTo _ id (h rfl) s hs
  | loadCap op => exact keepsZero_get_bind fun s hs => keepsZero_loadTo _ _ (h rfl) s hs
  | loadCCap => exact keepsZero_get_bind fun s hs => keepsZero_loadTo _ id (h rfl) s hs
  | storeDdc n => exact keepsZero_get_bind fun _ hs => hs
  | storeCDdc => exact keepsZero_get_bind fun _ hs => hs
  | storeCap n => exact keepsZero_get_bind fun _ hs => hs
  | storeCCap => exact keepsZero_get_bind fun _ hs => hs
  | loadReserved n =>
    refine keepsZero_get_bind fun s hs => Keeps.ite (fun _ => ?_) (fun _ => ?_) s hs
    · exact Keeps.bind (keepsZero_mem _) fun _ => keepsZero_lrInstr _
    · exact keepsZero_lrInstr _
  | loadReservedC => exact keepsZero_get_bind fun s hs => keepsZero_lrCInstr _ s hs
  | loadReservedDdc n => exact keepsZero_get_bind fun s hs => keepsZero_lrInstr _ s hs
  | loadReservedCDdc => exact keepsZero_get_bind fun s hs => keepsZero_lrCInstr _ s hs
  | loadReservedCap n => exact keepsZero_get_bind fun s hs => keepsZero_lrInstr _ s hs
  | loadReservedCCap => exact keepsZero_get_bind fun s hs => keepsZero_lrCInstr _ s hs
  | storeConditional n =>
    refine keepsZero_get_bind fun s hs => Keeps.ite (fun hn => ?_) (fun _ => ?_) s hs
    · have hrd : o.rd ≠ 0 := h (decide_eq_true hn)
      refine Keeps.bind (keepsZero_mem _) fun _ => Keeps.bind (keepsZero_setReg hrd _) fun _ => ?_
      exact keepsZero_get_bind fun s' hs' => keepsZero_scInstr _ _ s' hs'
    · exact keepsZero_get_bind fun s' hs' => keepsZero_scInstr _ _ s' hs'
  | storeConditionalC => exact keepsZero_get_bind fun s hs => keepsZero_scInstr _ _ s hs
  | storeConditionalDdc n => exact keepsZero_get_bind fun s hs => keepsZero_scInstr _ _ s hs
  | storeConditionalCDdc => exact keepsZero_get_bind fun s hs => keepsZero_scInstr _ _ s hs
  | storeConditionalCap n => exact keepsZero_get_bind fun s hs => keepsZero_scInstr _ _ s hs
  | storeConditionalCCap => exact keepsZero_get_bind fun s hs => keepsZero_scInstr _ _ s hs
  | amoW f => exact keepsZero_executeAmo .word f
  | amoD f => exact keepsZero_executeAmo .double f
  | amoswapC => exact keepsZero_amoswapC (h rfl)
  | fLoad op => exact keepsZero_fLoadInstr op
  | fStore n => exact keepsZero_fStoreInstr n
  | vLoadStore isLoad numBits type => exact keepsZero_vLoadStoreInstr isLoad numBits type

end Iss

/-! ### The decoder -/

/-- What the decoder ensures about the destination: it is not register zero, where nothing else takes care
of this, except in a hint, which adds register zero to itself. -/
def Op.Decoded (o : Operands) : Op → Prop
  | .int op => o.rd ≠ 0 ∨ op = .add ∧ o.rs1 = 0 ∧ o.rs2 = 0
  | .auipc | .jal | .jalr => o.rd ≠ 0
  | _ => True

theorem decodeNormal_decoded (o : Operands) (op : Op) : (decodeNormal o.rd op).Decoded o := by
  by_cases hrd : o.rd = 0
  · cases op <;> simp [decodeNormal, opOrOpzero, hrd, Op.Decoded]
  · cases op <;> simp [decodeNormal, opOrOpzero, hrd, Op.Decoded]

namespace CInstr

variable (i : CInstr)

theorem opOrNop_decoded (op : IntOp) (rd rs1 rs2 : Fin 32) :
    (i.opOrNop op rd rs1 rs2).1.Decoded (i.opOrNop op rd rs1 rs2).2 := by
  simp only [opOrNop, opOrOpzero]
  split_ifs with hrd
  · exact Or.inl hrd
  · trivial

theorem hint_decoded : i.hint.1.Decoded i.hint.2 := Or.inr ⟨rfl, rfl, rfl⟩

theorem expandCompressed_decoded (hasF hasD capabilityMode : Bool) :
    (i.expandCompressed hasF hasD capabilityMode).1.Decoded
      (i.expandCompressed hasF hasD capabilityMode).2 := by
  simp only [expandCompressed]
  split <;> (try split_ifs) <;>
    first
    | exact i.opOrNop_decoded _ _ _ _
    | exact i.hint_decoded
    | exact True.intro
    | exact (by decide : (1 : Fin 32) ≠ 0)

end CInstr

variable {δ : Type} {p : Platform δ}

/-! ### Instructions -/

namespace Iss

variable {rest : Rest} {o : Operands}

theorem keepsZero_ask : KeepsZero (ask rest : IssM δ Capability) := by
  unfold ask
  cases rest.value with
  | ok value => exact .pure value
  | error t => exact keepsZero_raise t

theorem keepsZero_askLate : KeepsZero (askLate rest : IssM δ Unit) := by
  unfold askLate
  cases rest.late with
  | none => exact .pure ()
  | some t => exact keepsZero_raise t

theorem keepsZero_executeCJalr : KeepsZero (executeCJalr rest o : IssM δ Unit) :=
  keepsZero_ask.bind fun _ => keepsZero_setReg_reset _ _

theorem keepsZero_writeUnlessZero (rd : Fin 32) (value : Capability) :
    KeepsZero (writeUnlessZero rd value : IssM δ Unit) :=
  .ite (fun hrd => keepsZero_setReg hrd value) fun _ => .pure ()

theorem keepsZero_cClear : KeepsZero (cClear o : IssM δ Unit) := by
  refine Keeps.forM fun i _ => .ite (fun _ => .ite (fun _ => keepsZero_modify ?_) fun _ => ?_) fun _ => ?_
  · exact fun _ => rfl
  · exact keepsZero_setReg_null _
  · exact .pure ()

theorem keepsZero_abort {α : Type} : KeepsZero (CheriM.abort : IssM δ α) := fun _ hs => hs

/-- The host writes no register: its result goes to the caller, which stores it in `a0`. -/
theorem keepsZero_serveSyscall (sys : SyscallHandler) (host : HostAnswer) (a0 a1 : BitVec 64)
    (nr : Option SyscallNr) : KeepsZero (serveSyscall sys host a0 a1 nr : IssM δ (BitVec 64)) := by
  have hmem : ∀ (x : HartM δ Unit) (v : BitVec 64), KeepsZero (mem x >>= fun _ => pure v) :=
    fun x v => (keepsZero_mem x).bind fun _ => .pure v
  rcases nr with _ | nr
  · exact keepsZero_abort
  cases nr with
  | fstat =>
    refine Keeps.ite (fun _ => ?_) fun _ => .pure _
    exact (Keeps.forM fun f _ => keepsZero_mem _).bind fun _ => .pure _
  | gettimeofday =>
    exact .ite (fun _ => keepsZero_abort) fun _ => (keepsZero_mem _).bind fun _ => hmem _ _
  | brk =>
    refine .ite (fun _ => Keeps.bind (keepsZero_modify ?_) fun _ => .pure _) fun _ => .pure _
    exact fun _ => rfl
  | time =>
    refine Keeps.ite (fun _ => (keepsZero_mem _).bind fun _ => ?_) fun _ => ?_
    all_goals exact .ite (fun _ => keepsZero_abort) fun _ => .pure _
  | write => exact .ite (fun _ => keepsZero_abort) fun _ => hmem _ _
  | read => exact .ite (fun _ => keepsZero_abort) fun _ => hmem _ _
  | openFile =>
    refine .ite (fun _ => keepsZero_abort) fun _ => keepsZero_get_bind fun s hs => ?_
    cases s.hart.guestString sys a0 with
    | none => exact hs
    | some n => exact hmem _ _ s hs
  | close => exact .ite (fun _ => .pure _) fun _ => .pure _
  | exit => exact .ite (fun _ => keepsZero_abort) fun _ => .pure _
  | hostError => exact keepsZero_abort
  | lseek | hostTestPass | hostTestFail => exact .pure _

/-- An intercepted system call writes `a0` and no other register. -/
theorem keepsZero_ecall (host : HostAnswer) (lastPc : BitVec 64) :
    KeepsZero (ecall host lastPc : IssM δ Unit) := by
  refine keepsZero_get_bind fun s hs => ?_
  cases s.sys with
  | some sys =>
    refine keepsZero_get_bind (fun s hs => ?_) s hs
    exact Keeps.bind (keepsZero_serveSyscall _ _ _ _ _) (fun _ => keepsZero_setReg (by decide) _) s hs
  | none =>
    show (ecallTrap lastPc s.hart.prv s).2.ZeroNull
    cases s.hart.prv <;> exact hs

/-- An integer instruction; in a hint the sum of register zero with itself is null. -/
theorem keepsZero_int {op : IntOp} (h : (Op.int op).Decoded o) :
    KeepsZero (execOp p rest o (.int op)) := by
  refine keepsZero_get_bind fun s hs => ?_
  rcases h with hrd | ⟨rfl, h1, h2⟩
  · exact keepsZero_setReg hrd _ s hs
  · rw [h1, h2, show s.regs 0 = cNullCap from hs]
    exact keepsZero_setReg_null _ s hs

/-- A capability instruction.  Some of them end without a reset of register zero, as `noReset` says. -/
theorem keepsZero_cap {op : CapOp} (h : (Op.cap op).noReset = true → o.rd ≠ 0) :
    KeepsZero (execOp p rest o (.cap op)) := by
  refine keepsZero_get_bind fun s hs => ?_
  cases op.result s.regs s.ddc o with
  | none => exact hs
  | some value =>
    by_cases hop : op = .cSetAddr
    · subst hop
      exact keepsZero_setReg_reset _ _ s hs
    · refine Keeps.bind (keepsZero_setReg (h (decide_eq_true hop)) value) (fun _ => ?_) s hs
      rw [if_neg hop]
      exact .pure ()

/-- **An operation of the decoder keeps register zero null, unless it is one that does not reset it and
its destination is register zero.** -/
theorem keepsZero_execOp {op : Op} (hdec : op.Decoded o) (h : op.noReset = true → o.rd ≠ 0) :
    KeepsZero (execOp p rest o op) := by
  cases op with
  | illegal => exact keepsZero_raise _
  | nop => exact .pure ()
  | int op => exact keepsZero_int hdec
  | auipc => exact keepsZero_get_bind fun s hs => keepsZero_setReg hdec _ s hs
  | j => exact keepsZero_ask.bind fun _ => .pure ()
  | jal => exact keepsZero_ask.bind fun _ => keepsZero_setReg hdec _
  | jr =>
    refine keepsZero_get_bind fun s hs => Keeps.ite (fun _ => ?_) (fun _ => ?_) s hs
    · exact keepsZero_executeCJalr
    · exact keepsZero_ask.bind fun _ => .pure ()
  | jalr =>
    refine keepsZero_get_bind fun s hs => Keeps.ite (fun _ => ?_) (fun _ => ?_) s hs
    · exact keepsZero_executeCJalr
    · exact keepsZero_ask.bind fun _ => keepsZero_setReg hdec _
  | jalrCap => exact keepsZero_executeCJalr
  | cap op => exact keepsZero_cap h
  | cInvoke =>
    refine keepsZero_get_bind fun s hs => Keeps.bind keepsZero_ask (fun _ => ?_) s hs
    refine Keeps.bind (keepsZero_setReg (by decide) _) fun _ => keepsZero_modify ?_
    exact fun _ => rfl
  | cSpecialRW => exact keepsZero_ask.bind fun _ => keepsZero_setReg_reset _ _
  | cClear => exact keepsZero_cClear
  | mem m => exact keepsZero_exec h
  | csr =>
    exact keepsZero_ask.bind fun _ => (keepsZero_writeUnlessZero _ _).bind fun _ => keepsZero_askLate
  | floatToInt => exact keepsZero_ask.bind fun _ => keepsZero_setReg_reset _ _
  | vectorToInt =>
    exact keepsZero_ask.bind fun _ => (keepsZero_writeUnlessZero _ _).bind fun _ => keepsZero_askLate
  | ecall => exact keepsZero_ecall _ _
  | other => exact keepsZero_ask.bind fun _ => .pure ()

/-! ### Runs -/

/-- A step keeps register zero null, unless it is one of the instructions that write it and do not reset it. -/
theorem issStep_zeroNull {s : Iss δ} {e : IssEvent δ} (hs : s.ZeroNull) (he : ¬e.WritesZero) :
    (issStep p s e).2.ZeroNull := by
  have hguard : ∀ op o, e.decoded = some (op, o) → op.noReset = true → o.rd ≠ 0 :=
    fun op o hd hno hrd => he ⟨op, o, hd, hno, hrd⟩
  cases e with
  | normal op o rest =>
    exact keepsZero_execOp (decodeNormal_decoded o op) (hguard _ _ rfl) s hs
  | compressed i hasF hasD capabilityMode rest =>
    exact keepsZero_execOp (i.expandCompressed_decoded hasF hasD capabilityMode) (hguard _ _ rfl) s hs
  | outside f hf =>
    show (f s).regs 0 = cNullCap
    rw [hf s]
    exact hs

/-- Only `SC_W` and `SC_D` write a register before they read. -/
theorem zeroRead_of_zeroNull {s : Iss δ} {e : IssEvent δ} (hs : s.ZeroNull) (he : ¬e.WritesZero) :
    s.ZeroRead e := by
  intro op o hd s' hmem
  unfold readStates at hmem
  split at hmem
  case h_1 n =>
    split_ifs at hmem with hn
    · have hrd : o.rd ≠ 0 := fun hrd => he ⟨_, o, hd, decide_eq_true hn, hrd⟩
      have hkeeps : KeepsZero (scFailure o n : IssM δ Unit) :=
        keepsZero_get_bind fun s hs =>
          Keeps.bind (keepsZero_mem _) (fun _ => keepsZero_setReg hrd _) s hs
      have hs'' := hkeeps s hs
      split at hmem
      · next u s₁ hrun =>
        rcases List.mem_cons.mp hmem with rfl | hmem
        · exact hs
        · obtain rfl := List.mem_singleton.mp hmem
          rw [show (scFailure o n) s = (.ok u, s') from hrun] at hs''
          exact hs''
      · obtain rfl := List.mem_singleton.mp hmem
        exact hs
    · obtain rfl := List.mem_singleton.mp hmem
      exact hs
  case h_2 =>
    obtain rfl := List.mem_singleton.mp hmem
    exact hs

end Iss

/-- **In every run of instructions, traps and whatever else happens, from the register file that a hart
starts with, register zero is null whenever an instruction reads its operands, if no instruction that
does not reset it names it as the destination.** -/
theorem zeroRead_along (p : Platform δ) (s : Iss δ) (initToDefault : Bool) (es : List (IssEvent δ))
    (hc : Run.Along (fun _ e => ¬e.WritesZero) (issStep p) { s with regs := regFile initToDefault } es) :
    Run.Along Iss.ZeroRead (issStep p) { s with regs := regFile initToDefault } es :=
  Run.Along.of_invariant Iss.ZeroNull
    (fun _ _ hs he => ⟨Iss.zeroRead_of_zeroNull hs he, Iss.issStep_zeroNull hs he⟩) rfl hc

namespace RegZero

/-- `ADDI x1, x0, 1`. -/
def addi : IssEvent Unit :=
  .normal (.int .addi) ⟨0x00100093, 1, 0, 1, 1, 0, false⟩
    { lastPc := 0, value := .ok cNullCap, late := none }

/-- `C_MOVE rd, x1`. -/
def cMove (rd : Fin 32) : IssEvent Unit :=
  .normal (.cap .cMove) ⟨0xFEA0805B ||| BitVec.ofNat 32 (rd.val * 128), rd, 1, 10, 0, 0, false⟩
    { lastPc := 4, value := .ok cNullCap, late := none }

/-- `ADD x3, x0, x0`. -/
def add : IssEvent Unit :=
  .normal (.int .add) ⟨0x000001B3, 3, 0, 0, 0, 0, false⟩
    { lastPc := 8, value := .ok cNullCap, late := none }

/-- The state in which a hart starts. -/
def start : Iss Unit := { CapLoad.NoLoadCap.start with regs := regFile false }

theorem not_writesZero :
    Run.Along (fun _ e => ¬e.WritesZero) (issStep CapLoad.NoLoadCap.platform) start
      [addi, cMove 2, add] := by
  refine ⟨?_, ?_, ?_, trivial⟩ <;>
    · rintro ⟨op, o, hd, hno, hrd⟩
      obtain ⟨rfl, rfl⟩ := Prod.mk.inj (Option.some.inj hd)
      first
      | exact absurd hno (by decide)
      | exact absurd hrd (by decide)

end RegZero

open RegZero in
theorem zeroRead_along_move :
    Run.Along Iss.ZeroRead (issStep CapLoad.NoLoadCap.platform) start [addi, cMove 2, add] :=
  zeroRead_along _ CapLoad.NoLoadCap.start false _ not_writesZero

open RegZero in
/-- `C_MOVE x0, x1` leaves one in register zero, which `ADD` reads. -/
theorem not_zeroRead_move :
    ¬Run.Along Iss.ZeroRead (issStep CapLoad.NoLoadCap.platform) start [addi, cMove 0, add] := by
  rintro ⟨-, -, h, -⟩
  have hnull := h _ _ rfl _ (List.mem_singleton_self _)
  unfold Iss.ZeroNull at hnull
  exact absurd hnull (by decide)

end RiscvVp.Cheri
