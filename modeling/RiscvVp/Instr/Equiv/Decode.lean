import RiscvVp.Instr.Decode

/-!
# The decoder against the table of encodings

An operation of the scalar instruction sets is given by its mask and encoding and the extension it
belongs to.  `decode_normal` finds it through nested `switch`es on the fields of the word and compares the
mask and encoding at the end.  It returns an operation exactly for the words the table gives it.
-/

namespace RiscvVp

/-! ### The table -/

namespace Operation

/-- The mask and encoding, which for immediate shifts depend on the architecture. -/
def encodingFor (arch : Architecture) : Operation → Encoding
  | slli => if arch = .rv32 then slli32 else slli.encoding
  | srli => if arch = .rv32 then srli32 else srli.encoding
  | srai => if arch = .rv32 then srai32 else srai.encoding
  | o => o.encoding

/-- The extension that has to be enabled. -/
def extension : Operation → Option (BitVec 64)
  | mul | mulh | mulhsu | mulhu | div | divu | rem | remu | mulw | divw | divuw | remw | remuw =>
    some IsaConfig.m
  | lrW | scW | amoswapW | amoaddW | amoxorW | amoandW | amoorW | amominW | amomaxW | amominuW | amomaxuW
  | lrD | scD | amoswapD | amoaddD | amoxorD | amoandD | amoorD | amominD | amomaxD | amominuD
  | amomaxuD => some IsaConfig.a
  | flh | fsh => some IsaConfig.zfh
  | flw | fsw => some IsaConfig.f
  | fld | fsd => some IsaConfig.d
  | _ => none

/-- Whether there is a variant for `rd` zero. -/
def hasRdZero : Operation → Bool
  | lui | auipc | jal | jalr | addi | slti | sltiu | xori | ori | andi | slli | srli | srai | add | sub
  | sll | slt | sltu | xor | srl | sra | or | and | mul | mulh | mulhsu | mulhu | div | divu | rem | remu
  | addiw | slliw | srliw | sraiw | addw | subw | sllw | srlw | sraw | mulw | divw | divuw | remw
  | remuw => true
  | _ => false

/-- The operation or its variant for `rd` zero. -/
def result (o : Operation) (instr : Instr) : OpId :=
  if o.hasRdZero ∧ instr.rd = 0 then .rdZero o else .op o

/-- The word has the encoding of the operation, and its extension is enabled. -/
def Encodes (arch : Architecture) (isa : IsaConfig) (instr : Instr) (o : Operation) : Prop :=
  instr &&& (o.encodingFor arch).mask = (o.encodingFor arch).encoding ∧
    ∀ ext, o.extension = some ext → isa.supports ext

/-- The encoding for an architecture is at least as strict as the constants of the operation. -/
theorem mask_encodingFor (arch : Architecture) (o : Operation) :
    (o.encodingFor arch).mask &&& o.encoding.mask = o.encoding.mask ∧
      (o.encodingFor arch).encoding &&& o.encoding.mask = o.encoding.encoding := by
  cases arch <;> cases o <;> exact ⟨rfl, rfl⟩

theorem Encodes.and_mask {arch : Architecture} {isa : IsaConfig} {instr : Instr} {o : Operation}
    (h : o.Encodes arch isa instr) :
    instr &&& o.encoding.mask = o.encoding.encoding := by
  obtain ⟨hmask, henc⟩ := mask_encodingFor arch o
  rw [← hmask, ← BitVec.and_assoc, h.1, henc]

end Operation

namespace Instr

variable {arch : Architecture} {isa : IsaConfig} {instr : Instr} {o : Operation}

/-! ### What the decoder returns is in the table -/

/-- If it is one of the operations, the word encodes it. -/
def Sound (arch : Architecture) (isa : IsaConfig) (instr : Instr) (r : OpId) : Prop :=
  ∀ o : Operation, r = .op o ∨ r = .rdZero o → o.Encodes arch isa instr ∧ r = o.result instr

theorem sound_undef : Sound arch isa instr .undef := by
  rintro o (h | h) <;> cases h

theorem sound_unsup : Sound arch isa instr .unsup := by
  rintro o (h | h) <;> cases h

theorem Sound.switch {x : BitVec 32} {cases : List (BitVec 32 × OpId)} {dflt : OpId}
    (hcases : ∀ p ∈ cases, Sound arch isa instr p.2) (hdflt : Sound arch isa instr dflt) :
    Sound arch isa instr (switch x cases dflt) := by
  induction cases with
  | nil => exact hdflt
  | cons p cases ih =>
    unfold Instr.switch
    split_ifs
    · exact hcases p List.mem_cons_self
    · exact ih fun q hq => hcases q (List.mem_cons_of_mem p hq)

theorem Sound.ite {c : Prop} [Decidable c] {r s : OpId} (hr : c → Sound arch isa instr r)
    (hs : ¬c → Sound arch isa instr s) : Sound arch isa instr (if c then r else s) := by
  split_ifs with h
  · exact hr h
  · exact hs h

theorem Sound.requireIsa {ext : BitVec 64} {r : OpId}
    (hr : isa.supports ext → Sound arch isa instr r) :
    Sound arch isa instr (requireIsa isa ext r) :=
  Sound.ite hr fun _ => sound_unsup

/-- Both results of a match are those of the operation. -/
theorem sound_matchOr {e : Encoding} (he : o.encodingFor arch = e)
    (hext : ∀ ext, o.extension = some ext → isa.supports ext) {opRdZero : OpId}
    (hzero : opRdZero = if o.hasRdZero then .rdZero o else .op o) :
    Sound arch isa instr (instr.matchOr e (.op o) opRdZero) := by
  unfold matchOr
  split_ifs with hmask hrd
  · exact sound_undef
  · rintro o' (h | h) <;> cases h
    refine ⟨⟨by rw [he]; exact not_not.1 hmask, hext⟩, ?_⟩
    rw [Operation.result, if_neg (fun h => hrd h.2)]
  · have henc : o.Encodes arch isa instr := ⟨by rw [he]; exact not_not.1 hmask, hext⟩
    rw [hzero]
    rintro o' h
    have hres : (if o.hasRdZero then OpId.rdZero o else .op o) = o.result instr := by
      rw [Operation.result]
      simp [not_not.1 hrd]
    have ho : o' = o := by
      split_ifs at h <;> rcases h with h | h <;> cases h <;> rfl
    subst ho
    exact ⟨henc, hres⟩

theorem sound_matchOp (he : o.encodingFor arch = o.encoding)
    (hext : ∀ ext, o.extension = some ext → isa.supports ext) (hzero : o.hasRdZero = false) :
    Sound arch isa instr (instr.matchOp o) :=
  sound_matchOr he hext (by rw [hzero]; rfl)

theorem sound_matchOrRdZero (he : o.encodingFor arch = o.encoding)
    (hext : ∀ ext, o.extension = some ext → isa.supports ext) (hzero : o.hasRdZero = true) :
    Sound arch isa instr (instr.matchOrRdZero o) :=
  sound_matchOr he hext (by rw [hzero]; rfl)

/-- An operation of the base set belongs to no extension, so any instruction set supports it. -/
theorem supports_of_none (h : o.extension = none) : ∀ ext, o.extension = some ext → isa.supports ext := by
  intro ext hext
  rw [h] at hext
  cases hext

/-- An operation of an extension is supported where the extension is enabled. -/
theorem supports_of_some {ext : BitVec 64} (h : o.extension = some ext) (hext : isa.supports ext) :
    ∀ ext', o.extension = some ext' → isa.supports ext' := by
  intro ext' hext'
  rw [h] at hext'
  cases hext'
  exact hext

theorem sound_decodeBranch : Sound arch isa instr instr.decodeBranch := by
  refine Sound.switch ?_ sound_undef
  simp only [List.forall_mem_cons, List.not_mem_nil, false_imp_iff, implies_true, and_true]
  refine ⟨?_, ?_, ?_, ?_, ?_, ?_⟩
  all_goals exact sound_matchOp rfl (supports_of_none rfl) rfl

theorem sound_decodeLoad : Sound arch isa instr instr.decodeLoad := by
  refine Sound.switch ?_ sound_undef
  simp only [List.forall_mem_cons, List.not_mem_nil, false_imp_iff, implies_true, and_true]
  refine ⟨?_, ?_, ?_, ?_, ?_, ?_, ?_⟩
  all_goals exact sound_matchOp rfl (supports_of_none rfl) rfl

theorem sound_decodeStore : Sound arch isa instr instr.decodeStore := by
  refine Sound.switch ?_ sound_undef
  simp only [List.forall_mem_cons, List.not_mem_nil, false_imp_iff, implies_true, and_true]
  refine ⟨?_, ?_, ?_, ?_⟩
  all_goals exact sound_matchOp rfl (supports_of_none rfl) rfl

/-- A shift by an immediate, whose encoding depends on the architecture. -/
theorem sound_shift {e : Encoding} (he : o.encodingFor arch = if arch = .rv32 then e else o.encoding)
    (hext : o.extension = none) (hzero : o.hasRdZero = true) :
    Sound arch isa instr (if arch = .rv32 then instr.match2OrNop e o else instr.matchOrRdZero o) := by
  refine Sound.ite (fun h32 => ?_) fun h64 => ?_
  · rw [if_pos h32] at he
    exact sound_matchOr he (supports_of_none hext) (by rw [hzero]; rfl)
  · rw [if_neg h64] at he
    exact sound_matchOrRdZero he (supports_of_none hext) hzero

theorem sound_decodeOpImm : Sound arch isa instr (instr.decodeOpImm arch) := by
  refine Sound.switch ?_ sound_undef
  simp only [List.forall_mem_cons, List.not_mem_nil, false_imp_iff, implies_true, and_true]
  refine ⟨?_, ?_, ?_, ?_, ?_, ?_, ?_, ?_⟩
  case refine_7 => exact sound_shift rfl rfl rfl
  case refine_8 =>
    refine Sound.switch ?_ sound_undef
    simp only [List.forall_mem_cons, List.not_mem_nil, false_imp_iff, implies_true, and_true]
    refine ⟨?_, ?_⟩
    all_goals exact sound_shift rfl rfl rfl
  all_goals exact sound_matchOrRdZero rfl (supports_of_none rfl) rfl

theorem sound_decodeOpImmW : Sound arch isa instr instr.decodeOpImmW := by
  refine Sound.switch ?_ sound_undef
  simp only [List.forall_mem_cons, List.not_mem_nil, false_imp_iff, implies_true, and_true]
  refine ⟨?_, ?_, ?_⟩
  case refine_3 =>
    refine Sound.switch ?_ sound_undef
    simp only [List.forall_mem_cons, List.not_mem_nil, false_imp_iff, implies_true, and_true]
    refine ⟨?_, ?_⟩
    all_goals exact sound_matchOrRdZero rfl (supports_of_none rfl) rfl
  all_goals exact sound_matchOrRdZero rfl (supports_of_none rfl) rfl

/-- An operation of the M extension: the decoder asks for the extension first and compares the word
afterwards. -/
theorem sound_mul (he : o.encodingFor arch = o.encoding) (hext : o.extension = some IsaConfig.m)
    (hzero : o.hasRdZero = true) :
    Sound arch isa instr (requireIsa isa IsaConfig.m (instr.matchOrRdZero o)) :=
  Sound.requireIsa fun hm => sound_matchOrRdZero he (supports_of_some hext hm) hzero

theorem sound_decodeOp : Sound arch isa instr (instr.decodeOp isa) := by
  refine Sound.switch ?_ sound_undef
  simp only [List.forall_mem_cons, List.not_mem_nil, false_imp_iff, implies_true, and_true]
  refine ⟨?_, ?_, ?_⟩
  all_goals
    refine Sound.switch ?_ sound_undef
    simp only [List.forall_mem_cons, List.not_mem_nil, false_imp_iff, implies_true, and_true]
  case refine_1 =>
    refine ⟨?_, ?_, ?_, ?_, ?_, ?_, ?_, ?_⟩
    all_goals exact sound_matchOrRdZero rfl (supports_of_none rfl) rfl
  case refine_2 =>
    refine ⟨?_, ?_⟩
    all_goals exact sound_matchOrRdZero rfl (supports_of_none rfl) rfl
  case refine_3 =>
    refine ⟨?_, ?_, ?_, ?_, ?_, ?_, ?_, ?_⟩
    all_goals exact sound_mul rfl rfl rfl

theorem sound_decodeOpW : Sound arch isa instr (instr.decodeOpW isa) := by
  refine Sound.switch ?_ sound_undef
  simp only [List.forall_mem_cons, List.not_mem_nil, false_imp_iff, implies_true, and_true]
  refine ⟨?_, ?_, ?_⟩
  all_goals
    refine Sound.switch ?_ sound_undef
    simp only [List.forall_mem_cons, List.not_mem_nil, false_imp_iff, implies_true, and_true]
  case refine_1 =>
    refine ⟨?_, ?_, ?_⟩
    all_goals exact sound_matchOrRdZero rfl (supports_of_none rfl) rfl
  case refine_2 =>
    refine ⟨?_, ?_⟩
    all_goals exact sound_matchOrRdZero rfl (supports_of_none rfl) rfl
  case refine_3 =>
    refine ⟨?_, ?_, ?_, ?_, ?_⟩
    all_goals exact sound_mul rfl rfl rfl

theorem sound_decodeFence : Sound arch isa instr instr.decodeFence := by
  refine Sound.switch ?_ sound_undef
  simp only [List.forall_mem_cons, List.not_mem_nil, false_imp_iff, implies_true, and_true]
  refine ⟨?_, ?_⟩
  all_goals exact sound_matchOp rfl (supports_of_none rfl) rfl

theorem sound_decodeSystem : Sound arch isa instr instr.decodeSystem := by
  refine Sound.switch ?_ sound_undef
  simp only [List.forall_mem_cons, List.not_mem_nil, false_imp_iff, implies_true, and_true]
  refine ⟨?_, ?_, ?_, ?_, ?_, ?_, ?_⟩
  case refine_1 =>
    refine Sound.switch ?_ (sound_matchOp rfl (supports_of_none rfl) rfl)
    simp only [List.forall_mem_cons, List.not_mem_nil, false_imp_iff, implies_true, and_true]
    refine ⟨?_, ?_, ?_, ?_, ?_, ?_⟩
    all_goals exact sound_matchOp rfl (supports_of_none rfl) rfl
  all_goals exact sound_matchOp rfl (supports_of_none rfl) rfl

/-- An operation of the A extension, with 64 or with 32 bits. -/
theorem sound_matchAmo {opD opW : Operation} (hD : opD.encodingFor arch = opD.encoding)
    (hW : opW.encodingFor arch = opW.encoding) (hextD : opD.extension = some IsaConfig.a)
    (hextW : opW.extension = some IsaConfig.a) (hzeroD : opD.hasRdZero = false)
    (hzeroW : opW.hasRdZero = false) : Sound arch isa instr (instr.matchAmo isa opD opW) := by
  refine Sound.requireIsa fun ha => Sound.ite (fun _ => ?_) fun _ => ?_
  · exact sound_matchOp hD (supports_of_some hextD ha) hzeroD
  · exact sound_matchOp hW (supports_of_some hextW ha) hzeroW

theorem sound_decodeAmo : Sound arch isa instr (instr.decodeAmo isa) := by
  refine Sound.switch ?_ sound_undef
  simp only [List.forall_mem_cons, List.not_mem_nil, false_imp_iff, implies_true, and_true]
  refine ⟨?_, ?_, ?_, ?_, ?_, ?_, ?_, ?_, ?_, ?_, ?_⟩
  all_goals exact sound_matchAmo rfl rfl rfl rfl rfl rfl

/-- A load or store of a floating-point register. -/
theorem sound_fp {ext : BitVec 64} (he : o.encodingFor arch = o.encoding) (hext : o.extension = some ext)
    (hzero : o.hasRdZero = false) : Sound arch isa instr (requireIsa isa ext (instr.matchOp o)) :=
  Sound.requireIsa fun h => sound_matchOp he (supports_of_some hext h) hzero

theorem sound_decodeLoadFp {vector : OpId} (hvector : Sound arch isa instr vector) :
    Sound arch isa instr (instr.decodeLoadFp isa vector) := by
  refine Sound.switch ?_ hvector
  simp only [List.forall_mem_cons, List.not_mem_nil, false_imp_iff, implies_true, and_true]
  refine ⟨?_, ?_, ?_⟩
  all_goals exact sound_fp rfl rfl rfl

theorem sound_decodeStoreFp {vector : OpId} (hvector : Sound arch isa instr vector) :
    Sound arch isa instr (instr.decodeStoreFp isa vector) := by
  refine Sound.switch ?_ hvector
  simp only [List.forall_mem_cons, List.not_mem_nil, false_imp_iff, implies_true, and_true]
  refine ⟨?_, ?_, ?_⟩
  all_goals exact sound_fp rfl rfl rfl

theorem OtherDecoder.sound (rest : OtherDecoder) : Sound arch isa instr (rest.decode arch isa instr) := by
  rintro o (h | h)
  · exact absurd h rest.other.1
  · exact absurd h rest.other.2

theorem sound_decodeNormal (rest : OtherDecoder) :
    Sound arch isa instr (decodeNormal rest arch isa instr) := by
  refine Sound.switch ?_ rest.sound
  simp only [List.forall_mem_cons, List.not_mem_nil, false_imp_iff, implies_true, and_true]
  exact ⟨sound_matchOrRdZero rfl (supports_of_none rfl) rfl,
    sound_matchOrRdZero rfl (supports_of_none rfl) rfl,
    sound_matchOrRdZero rfl (supports_of_none rfl) rfl,
    sound_matchOrRdZero rfl (supports_of_none rfl) rfl,
    sound_decodeBranch, sound_decodeLoad, sound_decodeStore, sound_decodeOpImm, sound_decodeOpImmW,
    sound_decodeOp, sound_decodeOpW, sound_decodeFence, sound_decodeSystem, sound_decodeAmo,
    sound_decodeLoadFp rest.sound, sound_decodeStoreFp rest.sound⟩

/-! ### What is in the table is found -/

theorem opcode_of_encodes (h : o.Encodes arch isa instr) : instr.opcode = o.encoding.encoding &&& 0x7F := by
  have hmask : o.encoding.mask &&& 0x7F = 0x7F := by cases o <;> rfl
  rw [← h.and_mask, BitVec.and_assoc, hmask]
  rfl

theorem funct3_of_encodes (h : o.Encodes arch isa instr) (hmask : o.encoding.mask &&& 0x7000 = 0x7000) :
    instr.funct3 = (o.encoding.encoding &&& 0x7000) >>> 12 := by
  rw [← h.and_mask, BitVec.and_assoc, hmask]
  rfl

theorem funct7_of_encodes (h : o.Encodes arch isa instr)
    (hmask : o.encoding.mask &&& 0xFE000000 = 0xFE000000) :
    instr.funct7 = (o.encoding.encoding &&& 0xFE000000) >>> 25 := by
  rw [← h.and_mask, BitVec.and_assoc, hmask]
  rfl

theorem funct6_of_encodes (h : o.Encodes arch isa instr)
    (hmask : o.encoding.mask &&& 0xFC000000 = 0xFC000000) :
    instr.funct6 = (o.encoding.encoding &&& 0xFC000000) >>> 26 := by
  rw [← h.and_mask, BitVec.and_assoc, hmask]
  rfl

theorem funct5_of_encodes (h : o.Encodes arch isa instr)
    (hmask : o.encoding.mask &&& 0xF8000000 = 0xF8000000) :
    instr.funct5 = (o.encoding.encoding &&& 0xF8000000) >>> 27 := by
  rw [← h.and_mask, BitVec.and_assoc, hmask]
  rfl

theorem funct12_of_encodes (h : o.Encodes arch isa instr)
    (hmask : o.encoding.mask &&& 0xFFF00000 = 0xFFF00000) :
    instr.funct12 = (o.encoding.encoding &&& 0xFFF00000) >>> 20 := by
  rw [← h.and_mask, BitVec.and_assoc, hmask]
  rfl

theorem matchOp_of_encodes (h : o.Encodes arch isa instr) (hzero : o.hasRdZero = false) :
    instr.matchOp o = o.result instr := by
  rw [matchOp, matchOr, if_neg (not_not.2 h.and_mask), ite_self, Operation.result, if_neg]
  rw [hzero]
  exact fun hno => Bool.false_ne_true hno.1

theorem matchOr_of_encodes (h : o.Encodes arch isa instr) (hzero : o.hasRdZero = true) {e : Encoding}
    (he : o.encodingFor arch = e) : instr.matchOr e (.op o) (.rdZero o) = o.result instr := by
  rw [matchOr, if_neg (not_not.2 (he ▸ h.1)), Operation.result]
  by_cases hrd : instr.rd = 0
  · rw [if_neg (not_not.2 hrd), if_pos ⟨hzero, hrd⟩]
  · rw [if_pos hrd, if_neg fun hno => hrd hno.2]

theorem matchOrRdZero_of_encodes (h : o.Encodes arch isa instr) (hzero : o.hasRdZero = true)
    (he : o.encodingFor arch = o.encoding) : instr.matchOrRdZero o = o.result instr :=
  matchOr_of_encodes h hzero he

theorem requireIsa_of_encodes (h : o.Encodes arch isa instr) {ext : BitVec 64}
    (hext : o.extension = some ext) (r : OpId) : requireIsa isa ext r = r :=
  if_pos (h.2 ext hext)

/-- A shift by an immediate.  On RV32 the decoder compares one bit more, since the amount has one bit less. -/
theorem shift_of_encodes (h : o.Encodes arch isa instr) (hzero : o.hasRdZero = true) {e : Encoding}
    (he : o.encodingFor arch = if arch = .rv32 then e else o.encoding) :
    (if arch = .rv32 then instr.match2OrNop e o else instr.matchOrRdZero o) = o.result instr := by
  split_ifs with harch
  · rw [if_pos harch] at he
    exact matchOr_of_encodes h hzero he
  · rw [if_neg harch] at he
    exact matchOr_of_encodes h hzero he

theorem switch_of_ne {α : Type} {x : BitVec 32} {cases : List (BitVec 32 × α)} {dflt : α}
    (h : ∀ p ∈ cases, x ≠ p.1) : switch x cases dflt = dflt := by
  induction cases with
  | nil => rfl
  | cons p cases ih =>
    rw [switch, if_neg (h p List.mem_cons_self)]
    exact ih fun q hq => h q (List.mem_cons_of_mem p hq)

theorem funct7_eq (instr : Instr) : instr.funct7 = instr.funct12 >>> 5 := by
  unfold funct7 funct12 bitRange
  rw [← BitVec.shiftRight_add, BitVec.ushiftRight_and_distrib, BitVec.ushiftRight_and_distrib]
  rfl

/-- The case of `decode_normal` for the opcode of an operation. -/
theorem decodeNormal_of_opcode (rest : OtherDecoder) (h : o.Encodes arch isa instr) {c : BitVec 32}
    (hc : o.encoding.encoding &&& 0x7F = c) :
    decodeNormal rest arch isa instr = switch c
      [(OP_LUI, instr.matchOrRdZero .lui), (OP_AUIPC, instr.matchOrRdZero .auipc),
        (OP_JAL, instr.matchOrRdZero .jal), (OP_JALR, instr.matchOrRdZero .jalr),
        (OP_BEQ, instr.decodeBranch), (OP_LB, instr.decodeLoad), (OP_SB, instr.decodeStore),
        (OP_ADDI, instr.decodeOpImm arch), (OP_ADDIW, instr.decodeOpImmW), (OP_ADD, instr.decodeOp isa),
        (OP_ADDW, instr.decodeOpW isa), (OP_FENCE, instr.decodeFence), (OP_ECALL, instr.decodeSystem),
        (OP_AMO, instr.decodeAmo isa), (OP_FLW, instr.decodeLoadFp isa (rest.decode arch isa instr)),
        (OP_FSW, instr.decodeStoreFp isa (rest.decode arch isa instr))] (rest.decode arch isa instr) := by
  rw [decodeNormal, opcode_of_encodes h, hc]

theorem decodeNormal_of_encodes (rest : OtherDecoder) (h : o.Encodes arch isa instr) :
    decodeNormal rest arch isa instr = o.result instr := by
  cases o with
  | lui | auipc | jal | jalr =>
    rw [decodeNormal_of_opcode rest h rfl]
    exact matchOrRdZero_of_encodes h rfl rfl
  | beq | bne | blt | bge | bltu | bgeu =>
    rw [decodeNormal_of_opcode rest h rfl]
    show instr.decodeBranch = _
    rw [decodeBranch, funct3_of_encodes h rfl]
    exact matchOp_of_encodes h rfl
  | lb | lh | lw | lbu | lhu | lwu | ld =>
    rw [decodeNormal_of_opcode rest h rfl]
    show instr.decodeLoad = _
    rw [decodeLoad, funct3_of_encodes h rfl]
    exact matchOp_of_encodes h rfl
  | sb | sh | sw | sd =>
    rw [decodeNormal_of_opcode rest h rfl]
    show instr.decodeStore = _
    rw [decodeStore, funct3_of_encodes h rfl]
    exact matchOp_of_encodes h rfl
  | addi | slti | sltiu | xori | ori | andi =>
    rw [decodeNormal_of_opcode rest h rfl]
    show instr.decodeOpImm arch = _
    rw [decodeOpImm, funct3_of_encodes h rfl]
    exact matchOrRdZero_of_encodes h rfl rfl
  | slli =>
    rw [decodeNormal_of_opcode rest h rfl]
    show instr.decodeOpImm arch = _
    rw [decodeOpImm, funct3_of_encodes h rfl]
    exact shift_of_encodes h rfl rfl
  | srli | srai =>
    rw [decodeNormal_of_opcode rest h rfl]
    show instr.decodeOpImm arch = _
    rw [decodeOpImm, funct3_of_encodes h rfl, funct6_of_encodes h rfl]
    exact shift_of_encodes h rfl rfl
  | addiw | slliw =>
    rw [decodeNormal_of_opcode rest h rfl]
    show instr.decodeOpImmW = _
    rw [decodeOpImmW, funct3_of_encodes h rfl]
    exact matchOrRdZero_of_encodes h rfl rfl
  | srliw | sraiw =>
    rw [decodeNormal_of_opcode rest h rfl]
    show instr.decodeOpImmW = _
    rw [decodeOpImmW, funct3_of_encodes h rfl, funct7_of_encodes h rfl]
    exact matchOrRdZero_of_encodes h rfl rfl
  | add | sub | sll | slt | sltu | xor | srl | sra | or | and =>
    rw [decodeNormal_of_opcode rest h rfl]
    show instr.decodeOp isa = _
    rw [decodeOp, funct7_of_encodes h rfl, funct3_of_encodes h rfl]
    exact matchOrRdZero_of_encodes h rfl rfl
  | mul | mulh | mulhsu | mulhu | div | divu | rem | remu =>
    rw [decodeNormal_of_opcode rest h rfl]
    show instr.decodeOp isa = _
    rw [decodeOp, funct7_of_encodes h rfl, funct3_of_encodes h rfl]
    exact (requireIsa_of_encodes h rfl _).trans (matchOrRdZero_of_encodes h rfl rfl)
  | addw | subw | sllw | srlw | sraw =>
    rw [decodeNormal_of_opcode rest h rfl]
    show instr.decodeOpW isa = _
    rw [decodeOpW, funct7_of_encodes h rfl, funct3_of_encodes h rfl]
    exact matchOrRdZero_of_encodes h rfl rfl
  | mulw | divw | divuw | remw | remuw =>
    rw [decodeNormal_of_opcode rest h rfl]
    show instr.decodeOpW isa = _
    rw [decodeOpW, funct7_of_encodes h rfl, funct3_of_encodes h rfl]
    exact (requireIsa_of_encodes h rfl _).trans (matchOrRdZero_of_encodes h rfl rfl)
  | fence | fenceI =>
    rw [decodeNormal_of_opcode rest h rfl]
    show instr.decodeFence = _
    rw [decodeFence, funct3_of_encodes h rfl]
    exact matchOp_of_encodes h rfl
  | ecall | ebreak | uret | sret | mret | wfi =>
    rw [decodeNormal_of_opcode rest h rfl]
    show instr.decodeSystem = _
    rw [decodeSystem, funct3_of_encodes h rfl, funct12_of_encodes h rfl]
    exact matchOp_of_encodes h rfl
  | sfenceVma =>
    rw [decodeNormal_of_opcode rest h rfl]
    show instr.decodeSystem = _
    rw [decodeSystem, funct3_of_encodes h rfl]
    -- the upper bits of `funct12` belong to none of the other instructions
    have h7 : instr.funct12 >>> 5 = 0b0001001 := (funct7_eq instr).symm.trans (funct7_of_encodes h rfl)
    have hne : ∀ c : BitVec 32, c >>> 5 ≠ 0b0001001 → instr.funct12 ≠ c := by
      rintro c hc rfl
      exact hc h7
    show switch instr.funct12 _ (instr.matchOp .sfenceVma) = _
    rw [switch_of_ne]
    · exact matchOp_of_encodes h rfl
    · simp only [List.forall_mem_cons, List.not_mem_nil, false_imp_iff, implies_true, and_true]
      exact ⟨hne _ (by decide), hne _ (by decide), hne _ (by decide), hne _ (by decide), hne _ (by decide),
        hne _ (by decide)⟩
  | csrrw | csrrs | csrrc | csrrwi | csrrsi | csrrci =>
    rw [decodeNormal_of_opcode rest h rfl]
    show instr.decodeSystem = _
    rw [decodeSystem, funct3_of_encodes h rfl]
    exact matchOp_of_encodes h rfl
  | lrW | scW | amoswapW | amoaddW | amoxorW | amoandW | amoorW | amominW | amomaxW | amominuW | amomaxuW
  | lrD | scD | amoswapD | amoaddD | amoxorD | amoandD | amoorD | amominD | amomaxD | amominuD
  | amomaxuD =>
    rw [decodeNormal_of_opcode rest h rfl]
    show instr.decodeAmo isa = _
    rw [decodeAmo, funct5_of_encodes h rfl]
    refine (requireIsa_of_encodes h rfl _).trans ?_
    rw [funct3_of_encodes h rfl]
    exact matchOp_of_encodes h rfl
  | flh | flw | fld =>
    rw [decodeNormal_of_opcode rest h rfl]
    show instr.decodeLoadFp isa (rest.decode arch isa instr) = _
    rw [decodeLoadFp, funct3_of_encodes h rfl]
    exact (requireIsa_of_encodes h rfl _).trans (matchOp_of_encodes h rfl)
  | fsh | fsw | fsd =>
    rw [decodeNormal_of_opcode rest h rfl]
    show instr.decodeStoreFp isa (rest.decode arch isa instr) = _
    rw [decodeStoreFp, funct3_of_encodes h rfl]
    exact (requireIsa_of_encodes h rfl _).trans (matchOp_of_encodes h rfl)

/-- **The decoder follows the table.**  For both architectures, every set of enabled extensions and
every word: the decoder returns an operation, or its variant for `rd` zero, if and only if the word agrees
with the encoding of the operation under its mask and the extension of the operation is enabled. -/
theorem decodeNormal_iff (rest : OtherDecoder) (arch : Architecture) (isa : IsaConfig) (instr : Instr)
    (o : Operation) :
    (decodeNormal rest arch isa instr = .op o ∨ decodeNormal rest arch isa instr = .rdZero o ↔
        o.Encodes arch isa instr) ∧
      (o.Encodes arch isa instr →
        (decodeNormal rest arch isa instr = .rdZero o ↔ o.hasRdZero ∧ instr.rd = 0)) := by
  constructor
  · constructor
    · intro h
      exact (sound_decodeNormal rest o h).1
    · intro h
      rw [decodeNormal_of_encodes rest h, Operation.result]
      split_ifs
      · exact Or.inr rfl
      · exact Or.inl rfl
  · intro h
    rw [decodeNormal_of_encodes rest h, Operation.result]
    split_ifs with hzero
    · exact ⟨fun _ => hzero, fun _ => rfl⟩
    · exact ⟨nofun, fun hno => absurd hno hzero⟩

end Instr

end RiscvVp
