import RiscvVp.Instr.Equiv.Formats
import RiscvVp.Instr.Equiv.Decode

/-!
# Compressed instructions against the decoder of 32-bit words

`expand_compressed` returns the operation of the word it builds itself, without decoding that word.  It
is the operation that `decode_normal` finds for the word.
-/

namespace RiscvVp.Instr

open InstructionFactory

variable {arch : Architecture} {isa : IsaConfig}

/-! ### The word and the operation fit -/

/-- The instruction is refused, or the operation is that of the word. -/
def Expanded (arch : Architecture) (isa : IsaConfig) (p : Instr × OpId) : Prop :=
  p.2 = .undef ∨ p.2 = .unsup ∨ ∃ o : Operation, o.Encodes arch isa p.1 ∧ p.2 = o.result p.1

theorem expanded_undef (instr : Instr) : Expanded arch isa (instr, .undef) := Or.inl rfl

theorem expanded_unsup (instr : Instr) : Expanded arch isa (instr, .unsup) := Or.inr (Or.inl rfl)

variable {o : Operation} {instr : Instr}

theorem opOrNop_eq (instr : Instr) (hzero : o.hasRdZero = true) :
    opOrNop instr o = (instr, o.result instr) := by
  show (instr, if instr.rd ≠ 0 then OpId.op o else .rdZero o) = (instr, o.result instr)
  by_cases hrd : instr.rd = 0
  · rw [if_neg (not_not.2 hrd), Operation.result, if_pos ⟨hzero, hrd⟩]
  · rw [if_pos hrd, Operation.result, if_neg fun hno => hrd hno.2]

/-- An operation without a variant for `rd` zero. -/
theorem op_eq_result (instr : Instr) (hzero : o.hasRdZero = false) : OpId.op o = o.result instr := by
  rw [Operation.result, if_neg]
  rw [hzero]
  exact fun hno => Bool.false_ne_true hno.1

/-- A jump that keeps the return address. -/
theorem op_eq_result_of_rd_ne (hrd : instr.rd ≠ 0) : OpId.op o = o.result instr := by
  rw [Operation.result, if_neg fun hno => hrd hno.2]

/-- A jump that drops the return address. -/
theorem rdZero_eq_result (hzero : o.hasRdZero = true) (hrd : instr.rd = 0) :
    OpId.rdZero o = o.result instr := by
  rw [Operation.result, if_pos ⟨hzero, hrd⟩]

theorem Expanded.of_encodes {r : OpId} (h : o.Encodes arch isa instr) (hr : r = o.result instr) :
    Expanded arch isa (instr, r) :=
  Or.inr (Or.inr ⟨o, h, hr⟩)

theorem expanded_opOrNop (h : o.Encodes arch isa instr) (hzero : o.hasRdZero = true) :
    Expanded arch isa (opOrNop instr o) := by
  rw [opOrNop_eq instr hzero]
  exact Expanded.of_encodes h rfl

theorem expanded_op (h : o.Encodes arch isa instr) (hzero : o.hasRdZero = false) :
    Expanded arch isa (instr, .op o) :=
  Expanded.of_encodes h (op_eq_result instr hzero)

theorem Expanded.ite {c : Prop} [Decidable c] {p q : Instr × OpId} (hp : c → Expanded arch isa p)
    (hq : ¬c → Expanded arch isa q) : Expanded arch isa (if c then p else q) := by
  split_ifs with h
  · exact hp h
  · exact hq h

section Encodes

variable {op f3 f7 rd rs1 rs2 imm : BitVec 32}

/-- A word in the table without extension. -/
theorem encodes_of_and_mask (hmask : instr &&& (o.encodingFor arch).mask = (o.encodingFor arch).encoding)
    (hext : o.extension = none) : o.Encodes arch isa instr :=
  ⟨hmask, supports_of_none hext⟩

theorem encodes_rFormat (he : o.encodingFor arch = ⟨0xFE00707F, op ||| f3 <<< 12 ||| f7 <<< 25⟩)
    (hext : o.extension = none) (hop : op &&& 0x7f = op) (h3 : f3 &&& 7 = f3) :
    o.Encodes arch isa (rFormat op f3 f7 rd rs1 rs2) := by
  refine encodes_of_and_mask ?_ hext
  rw [he]
  exact rFormat_and_mask rd rs1 rs2 hop h3

theorem encodes_iFormat (he : o.encodingFor arch = ⟨0x0000707F, op ||| f3 <<< 12⟩)
    (hext : ∀ ext, o.extension = some ext → isa.supports ext) (hop : op &&& 0x7f = op)
    (h3 : f3 &&& 7 = f3) : o.Encodes arch isa (iFormat op f3 rd rs1 imm) := by
  refine ⟨?_, hext⟩
  rw [he]
  exact iFormat_and_mask rd rs1 imm hop h3

theorem encodes_sFormat (he : o.encodingFor arch = ⟨0x0000707F, op ||| f3 <<< 12⟩)
    (hext : ∀ ext, o.extension = some ext → isa.supports ext) (hop : op &&& 0x7f = op)
    (h3 : f3 &&& 7 = f3) : o.Encodes arch isa (sFormat op f3 rs1 rs2 imm) := by
  refine ⟨?_, hext⟩
  rw [he]
  exact sFormat_and_mask rs1 rs2 imm hop h3

theorem encodes_bFormat (he : o.encodingFor arch = ⟨0x0000707F, op ||| f3 <<< 12⟩)
    (hext : o.extension = none) (hop : op &&& 0x7f = op) (h3 : f3 &&& 7 = f3) :
    o.Encodes arch isa (bFormat op f3 rs1 rs2 imm) := by
  refine encodes_of_and_mask ?_ hext
  rw [he]
  exact bFormat_and_mask rs1 rs2 imm hop h3

/-- A shift amount that the architecture allows. -/
theorem encodes_shiftFormat
    (he : o.encodingFor arch =
      ⟨if arch = .rv32 then 0xFE00707F else 0xFC00707F, op ||| f3 <<< 12 ||| f7 <<< 25⟩)
    (hext : o.extension = none) (hop : op &&& 0x7f = op) (h3 : f3 &&& 7 = f3) (h7 : f7 &&& 0x7e = f7)
    (himm : ¬(arch = .rv32 ∧ imm > 31)) : o.Encodes arch isa (shiftFormat op f3 f7 rd rs1 imm) := by
  refine encodes_of_and_mask ?_ hext
  rw [he]
  show _ &&& (if arch = .rv32 then (0xFE00707F : BitVec 32) else 0xFC00707F) = _
  split_ifs with harch
  · have hle : imm.toNat < 2 ^ 5 := by
      have := fun hgt => himm ⟨harch, hgt⟩
      rw [gt_iff_lt, BitVec.lt_def] at this
      simp at this
      omega
    have hand : imm &&& 0x1f = imm := by
      apply BitVec.eq_of_toNat_eq
      rw [BitVec.toNat_and]
      exact (Nat.and_two_pow_sub_one_eq_mod imm.toNat 5).trans (Nat.mod_eq_of_lt hle)
    exact shiftFormat_and_mask32 rd rs1 imm hop h3 h7 hand
  · exact shiftFormat_and_mask rd rs1 imm hop h3 h7

theorem encodes_lui : Operation.lui.Encodes arch isa (lui rd imm) :=
  encodes_of_and_mask (lui_and_mask rd imm) rfl

theorem encodes_jal : Operation.jal.Encodes arch isa (jal rd imm) :=
  encodes_of_and_mask (jal_and_mask rd imm) rfl

end Encodes

/-- An immediate shift has one encoding for each architecture. -/
theorem encodingFor_shift (h : o = .slli ∨ o = .srli ∨ o = .srai) :
    o.encodingFor arch = ⟨if arch = .rv32 then 0xFE00707F else 0xFC00707F, o.encoding.encoding⟩ := by
  rcases h with rfl | rfl | rfl <;> cases arch <;> rfl

theorem expanded_expandCompressed (instr : Instr) (cOpId : COpId) :
    Expanded arch isa (instr.expandCompressed cOpId arch isa) := by
  -- the compressed operations fall into groups that the source expands by the same helper
  cases cOpId with
  | cIllegal | cReserved | cLq | cLqsp | cSq | cSqsp => exact expanded_undef instr
  | cNop =>
    refine Expanded.of_encodes (encodes_rFormat rfl rfl rfl rfl) (rdZero_eq_result rfl ?_)
    exact rd_rFormat 0 0 0 rfl rfl
  | cAdd | cMv | cAnd | cOr | cXor | cSub | cAddw | cSubw =>
    exact expanded_opOrNop (encodes_rFormat rfl rfl rfl rfl) rfl
  | cLw | cLd => exact expanded_op (encodes_iFormat rfl (supports_of_none rfl) rfl rfl) rfl
  | cFlw | cFlwsp | cFld | cFldsp =>
    -- without the extension the code gives UNSUP
    refine Expanded.ite (fun hext => ?_) fun _ => expanded_unsup instr
    exact expanded_op (encodes_iFormat rfl (supports_of_some rfl hext) rfl rfl) rfl
  | cSw | cSd | cSwsp | cSdsp => exact expanded_op (encodes_sFormat rfl (supports_of_none rfl) rfl rfl) rfl
  | cFsw | cFswsp | cFsd | cFsdsp =>
    refine Expanded.ite (fun hext => ?_) fun _ => expanded_unsup instr
    exact expanded_op (encodes_sFormat rfl (supports_of_some rfl hext) rfl rfl) rfl
  | cAddi | cLi | cAndi =>
    exact expanded_opOrNop (encodes_iFormat rfl (supports_of_none rfl) rfl rfl) rfl
  | cAddi4spn | cAddiw | cAddi16sp =>
    refine Expanded.ite (fun _ => expanded_undef instr) fun _ => ?_
    exact expanded_opOrNop (encodes_iFormat rfl (supports_of_none rfl) rfl rfl) rfl
  | cLui => exact Expanded.ite (fun _ => expanded_undef instr) fun _ => expanded_opOrNop encodes_lui rfl
  | cSlli | cSrli | cSrai =>
    refine Expanded.ite (fun _ => expanded_undef instr) fun himm => ?_
    refine expanded_opOrNop (encodes_shiftFormat (encodingFor_shift ?_) rfl rfl rfl rfl himm) rfl
    simp
  | cJal =>
    refine Expanded.of_encodes encodes_jal (op_eq_result_of_rd_ne ?_)
    rw [rd_jal]
    decide
  | cJ => exact Expanded.of_encodes encodes_jal (rdZero_eq_result rfl (rd_jal 0 instr.cJImm))
  | cBeqz | cBnez => exact expanded_op (encodes_bFormat rfl rfl rfl rfl) rfl
  | cLwsp | cLdsp =>
    refine Expanded.ite (fun _ => expanded_undef instr) fun _ => ?_
    exact expanded_op (encodes_iFormat rfl (supports_of_none rfl) rfl rfl) rfl
  | cEbreak => exact expanded_op (encodes_of_and_mask (by cases arch <;> rfl) rfl) rfl
  | cJr =>
    refine Expanded.ite (fun _ => expanded_undef instr) fun _ => ?_
    refine Expanded.of_encodes (encodes_iFormat rfl (supports_of_none rfl) rfl rfl) (rdZero_eq_result rfl ?_)
    exact rd_iFormat 0 instr.cRd 0 rfl rfl
  | cJalr =>
    refine Expanded.of_encodes (encodes_iFormat rfl (supports_of_none rfl) rfl rfl)
      (op_eq_result_of_rd_ne ?_)
    show (iFormat 103 0 1 instr.cRd 0).rd ≠ 0
    rw [rd_iFormat 1 instr.cRd 0 rfl rfl]
    decide

/-- **An expanded word decodes to the operation it was expanded for.**  For both architectures, every set
of enabled extensions and every compressed word: the instruction is refused, or decoding the 32-bit word
that replaces it gives the operation returned with it. -/
theorem decodeNormal_of_decodeAndExpandCompressed (rest : OtherDecoder) (arch : Architecture)
    (isa : IsaConfig) (instr instr' : Instr) (r : OpId)
    (h : instr.decodeAndExpandCompressed arch isa = some (instr', r)) :
    r = .undef ∨ r = .unsup ∨ decodeNormal rest arch isa instr' = r := by
  have hexpanded : Expanded arch isa (instr', r) := by
    unfold decodeAndExpandCompressed at h
    split_ifs at h with hc
    · rw [Option.map_eq_some_iff] at h
      obtain ⟨cOp, -, hp⟩ := h
      rw [← hp]
      exact expanded_expandCompressed instr cOp
    · rw [← Option.some.inj h]
      exact expanded_unsup instr
  rcases hexpanded with hundef | hunsup | ⟨o, ho, hr⟩
  · exact Or.inl hundef
  · exact Or.inr (Or.inl hunsup)
  · exact Or.inr (Or.inr ((decodeNormal_of_encodes rest ho).trans hr.symm))

/-- `C.LI` with the register `x10`. -/
theorem decodeNormal_of_decodeAndExpandCompressed_li :
    OpId.op .addi = .undef ∨ OpId.op .addi = .unsup ∨
      decodeNormal OtherDecoder.none .rv64 ⟨IsaConfig.c⟩ (InstructionFactory.addi 10 0 1) = .op .addi :=
  decodeNormal_of_decodeAndExpandCompressed OtherDecoder.none .rv64 ⟨IsaConfig.c⟩ 0x4505
    (InstructionFactory.addi 10 0 1) (.op .addi) (by decide)

end RiscvVp.Instr
