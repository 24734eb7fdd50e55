import RiscvVp.Instr.Compressed
import RiscvVp.Instr.Decode
import RiscvVp.Trap

/-!
# The decoder as the instruction caches see it

What a core configuration hands to its caches: the decoder for the configuration together with the
operation table (`OpMapEntry`).  The caches are modelled for any such configuration (`Isa`);
`Isa.rv64` is that of the RV64 ISS.
-/

namespace RiscvVp

/-- The 32-bit payload of an `Instruction`. -/
abbrev Word := Instr

/-- How the `OP_CASE` of an operation ends: without a control-flow callback of its own, or with
the callback of a branch (`B_imm`), a static jump (`J_imm`) or a dynamic jump. -/
inductive CtrlFlow
  | none
  | branch
  | j
  | jal
  | jr
  | jalr
  deriving DecidableEq, Repr

/-- The offset that the `OP_CASE` of a static control-flow operation passes to the cache. -/
def CtrlFlow.pcOffset (k : CtrlFlow) (instr : Word) : BitVec 32 :=
  match k with
  | .branch => instr.bImm
  | _ => instr.jImm

/-- What a core configuration fixes for its caches: the `misa` extension bits of its
`RV_ISA_Config`, the decoder for that configuration, the `instr_time` column of the operation
table, and the control-flow callback of each operation.  The constructor of `RV_ISA_Config` sets
`csr_misa::I`, which `select_E_base_isa` exchanges for `csr_misa::E`; `clear_misa_extension` can clear
any other. -/
structure Isa (Op : Type) where
  misaExtensions : BitVec 32
  misaBase : misaExtensions.getLsbD 8 = true ∨ misaExtensions.getLsbD 4 = true
  decodeAndExpandCompressed : Word → Op × Word
  decodeNormal : Word → Op
  instrTime : Op → BitVec 64
  ctrlFlow : Op → CtrlFlow

/-- `labelPtr`: the label of an operation's implementation, or the label that aborts a fast
fetch (`fast_abort_labelPtr`). -/
inductive Label (Op : Type)
  | fastAbort
  | op (id : Op)
  deriving DecidableEq, Repr

/-- The outcome of decoding a word: the operation, the word after expansion, and the length. -/
structure Decoded (Op : Type) where
  op : Op
  instr : Word
  pcIncrement : ℕ
  deriving DecidableEq, Repr

variable {Op : Type}

/-- `decode` of both cache classes: a compressed word is expanded first and counts two bytes, any other
four. -/
def Isa.decode (isa : Isa Op) (instr : Word) : Decoded Op :=
  if instr.isCompressed then
    let r := isa.decodeAndExpandCompressed instr
    { op := r.1, instr := r.2, pcIncrement := 2 }
  else
    { op := isa.decodeNormal instr, instr := instr, pcIncrement := 4 }

/-- `has_compressed` as `DBBCacheBase_T::init` computes it: any extension bit counts. -/
def Isa.hasCompressed (isa : Isa Op) : Bool := isa.misaExtensions != 0

theorem Isa.hasCompressed_eq_true (isa : Isa Op) : isa.hasCompressed = true := by
  have hne : isa.misaExtensions ≠ 0 := by
    intro h0
    have hbase := isa.misaBase
    rw [h0] at hbase
    simp at hbase
  simpa [Isa.hasCompressed] using hne

/-- `csr_misa::has_C_extension`; `misa` is read-only and holds the bits of the configuration. -/
def Isa.hasCExtension (isa : Isa Op) : Bool := isa.misaExtensions.getLsbD 2

/-- `pc_alignment_mask`: one low bit is free with compressed instructions, and two without. -/
def Isa.pcAlignmentMask (isa : Isa Op) : BitVec 64 := if isa.hasCExtension then ~~~1 else ~~~3

/-- The length of an instruction word is two or four bytes, by its lowest two bits. -/
theorem Isa.decode_pcIncrement (isa : Isa Op) (instr : Word) :
    (isa.decode instr).pcIncrement = 2 ∨ (isa.decode instr).pcIncrement = 4 := by
  unfold Isa.decode
  split <;> simp

/-- The offset a dispatched static control-flow operation passes: `B_imm` or `J_imm` of its
instruction. -/
def Isa.labelOffset (isa : Isa Op) (label : Label Op) (instr : Word) : BitVec 32 :=
  match label with
  | .op id => (isa.ctrlFlow id).pcOffset instr
  | .fastAbort => 0

/-- `instr_memory_if::load_instr` at one moment: the word at an address, or the trap that fetching
it raises. -/
abbrev InstrMem (w : ℕ) := BitVec w → Except SimulationTrap Word

/-- What `fetch_decode` hands back to the ISS: the operation label, the instruction and the
updated program counter. -/
structure Fetched (w : ℕ) (Op : Type) where
  label : Label Op
  instr : Word
  pc : BitVec w
  deriving DecidableEq, Repr

/-! ### The RV64 ISS -/

/-- `instr_clock_cycles` of the legacy cycle model. -/
def Operation.instrClockCycles : Operation → ℕ
  | .lb | .lbu | .lh | .lhu | .lw | .sb | .sh | .sw => 4
  | .mul | .mulh | .mulhu | .mulhsu | .div | .divu | .rem | .remu => 8
  | _ => 1

namespace OpId

/-- The same for all operations; the variants for `rd` zero are operations of their own. -/
def instrClockCycles : OpId → ℕ
  | .op o => o.instrClockCycles
  | _ => 1

/-- The callback in the `OP_CASE` of an operation. -/
def ctrlFlow : OpId → CtrlFlow
  | .op .beq | .op .bne | .op .blt | .op .bge | .op .bltu | .op .bgeu => .branch
  | .op .jal => .jal
  | .rdZero .jal => .j
  | .op .jalr => .jalr
  | .rdZero .jalr => .jr
  | _ => .none

end OpId

/-- The RV64 ISS with the extensions of `cfg`, at the default clock period of 10 ns.  A word outside
the compressed quadrants never comes to `decode_and_expand_compressed`. -/
def Isa.rv64 (rest : Instr.OtherDecoder) (cfg : IsaConfig)
    (hbase : (cfg.cfg.setWidth 32).getLsbD 8 = true ∨ (cfg.cfg.setWidth 32).getLsbD 4 = true) :
    Isa OpId where
  misaExtensions := cfg.cfg.setWidth 32
  misaBase := hbase
  decodeAndExpandCompressed instr :=
    match instr.decodeAndExpandCompressed .rv64 cfg with
    | some r => (r.2, r.1)
    | none => (.undef, instr)
  decodeNormal := Instr.decodeNormal rest .rv64 cfg
  instrTime op := BitVec.ofNat 64 (10000 * op.instrClockCycles)
  ctrlFlow := OpId.ctrlFlow

/-- The extensions of the default `RV_ISA_Config`. -/
def defaultIsa : Isa OpId := Isa.rv64 .none ⟨0x34312d⟩ (.inl (by decide))

end RiscvVp
