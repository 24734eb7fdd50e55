import RiscvVp.Instr.Basic

/-!
# `decode_normal`

The decoder of 32-bit instructions, for the scalar instruction sets.  The cases of floating-point
arithmetic and of the vector instructions are an argument.
-/

namespace RiscvVp.Instr

/-- A `switch` whose cases all return. -/
def switch {α : Type} (x : BitVec 32) : List (BitVec 32 × α) → α → α
  | [], dflt => dflt
  | (c, r) :: cases, dflt => if x = c then r else switch x cases dflt

/-! ### `enum Parts` -/

def OP_LUI : BitVec 32 := 0b0110111
def OP_AUIPC : BitVec 32 := 0b0010111
def OP_JAL : BitVec 32 := 0b1101111
def OP_JALR : BitVec 32 := 0b1100111
def OP_LB : BitVec 32 := 0b0000011
def OP_SB : BitVec 32 := 0b0100011
def OP_BEQ : BitVec 32 := 0b1100011
def OP_ADDI : BitVec 32 := 0b0010011
def OP_ADD : BitVec 32 := 0b0110011
def OP_FENCE : BitVec 32 := 0b0001111
def OP_ECALL : BitVec 32 := 0b1110011
def OP_AMO : BitVec 32 := 0b0101111
def OP_ADDIW : BitVec 32 := 0b0011011
def OP_ADDW : BitVec 32 := 0b0111011
def OP_FLW : BitVec 32 := 0b0000111
def OP_FSW : BitVec 32 := 0b0100111

/-! ### What a case returns -/

section Cases

variable (instr : Instr)

/-- `MATCH_AND_RETURN_INSTR2_OR_OPZERO`: the word must match, and a destination of zero selects the second
operation. -/
def matchOr (e : Encoding) (op opRdZero : OpId) : OpId :=
  if instr &&& e.mask ≠ e.encoding then .undef else if instr.rd ≠ 0 then op else opRdZero

/-- `MATCH_AND_RETURN_INSTR`: the operation if the word matches it, and `UNDEF` otherwise. -/
def matchOp (o : Operation) : OpId := instr.matchOr o.encoding (.op o) (.op o)

/-- `MATCH_AND_RETURN_INSTR_OR_NOP`, and `MATCH_AND_RETURN_INSTR_OR_OPZERO` for `JAL` and `JALR`. -/
def matchOrRdZero (o : Operation) : OpId := instr.matchOr o.encoding (.op o) (.rdZero o)

/-- `MATCH_AND_RETURN_INSTR2_OR_NOP`: likewise with a mask of its own, and a destination of zero does
nothing. -/
def match2OrNop (e : Encoding) (o : Operation) : OpId := instr.matchOr e (.op o) (.rdZero o)

/-- `REQUIRE_ISA` before what comes next: `UNSUP` where the extension is not enabled. -/
def requireIsa (isa : IsaConfig) (ext : BitVec 64) (next : OpId) : OpId :=
  if isa.supports ext then next else .unsup

/-! ### The cases of `opcode` -/

def decodeBranch : OpId :=
  switch instr.funct3
    [(0b000, instr.matchOp .beq), (0b001, instr.matchOp .bne), (0b100, instr.matchOp .blt),
      (0b101, instr.matchOp .bge), (0b110, instr.matchOp .bltu), (0b111, instr.matchOp .bgeu)] .undef

def decodeLoad : OpId :=
  switch instr.funct3
    [(0b000, instr.matchOp .lb), (0b001, instr.matchOp .lh), (0b010, instr.matchOp .lw),
      (0b100, instr.matchOp .lbu), (0b101, instr.matchOp .lhu), (0b110, instr.matchOp .lwu),
      (0b011, instr.matchOp .ld)] .undef

def decodeStore : OpId :=
  switch instr.funct3
    [(0b000, instr.matchOp .sb), (0b001, instr.matchOp .sh), (0b010, instr.matchOp .sw),
      (0b011, instr.matchOp .sd)] .undef

def decodeOpImm (arch : Architecture) : OpId :=
  switch instr.funct3
    [(0b000, instr.matchOrRdZero .addi), (0b010, instr.matchOrRdZero .slti),
      (0b011, instr.matchOrRdZero .sltiu), (0b100, instr.matchOrRdZero .xori),
      (0b110, instr.matchOrRdZero .ori), (0b111, instr.matchOrRdZero .andi),
      (0b001, if arch = .rv32 then instr.match2OrNop slli32 .slli else instr.matchOrRdZero .slli),
      (0b101, switch instr.funct6
        [(0b000000, if arch = .rv32 then instr.match2OrNop srli32 .srli else instr.matchOrRdZero .srli),
          (0b010000,
            if arch = .rv32 then instr.match2OrNop srai32 .srai else instr.matchOrRdZero .srai)]
        .undef)] .undef

def decodeOpImmW : OpId :=
  switch instr.funct3
    [(0b000, instr.matchOrRdZero .addiw), (0b001, instr.matchOrRdZero .slliw),
      (0b101, switch instr.funct7
        [(0b0000000, instr.matchOrRdZero .srliw), (0b0100000, instr.matchOrRdZero .sraiw)] .undef)]
    .undef

def decodeOp (isa : IsaConfig) : OpId :=
  switch instr.funct7
    [(0b0000000, switch instr.funct3
        [(0b000, instr.matchOrRdZero .add), (0b001, instr.matchOrRdZero .sll),
          (0b010, instr.matchOrRdZero .slt), (0b011, instr.matchOrRdZero .sltu),
          (0b100, instr.matchOrRdZero .xor), (0b101, instr.matchOrRdZero .srl),
          (0b110, instr.matchOrRdZero .or), (0b111, instr.matchOrRdZero .and)] .undef),
      (0b0100000, switch instr.funct3
        [(0b000, instr.matchOrRdZero .sub), (0b101, instr.matchOrRdZero .sra)] .undef),
      (0b0000001, switch instr.funct3
        [(0b000, requireIsa isa IsaConfig.m (instr.matchOrRdZero .mul)),
          (0b001, requireIsa isa IsaConfig.m (instr.matchOrRdZero .mulh)),
          (0b010, requireIsa isa IsaConfig.m (instr.matchOrRdZero .mulhsu)),
          (0b011, requireIsa isa IsaConfig.m (instr.matchOrRdZero .mulhu)),
          (0b100, requireIsa isa IsaConfig.m (instr.matchOrRdZero .div)),
          (0b101, requireIsa isa IsaConfig.m (instr.matchOrRdZero .divu)),
          (0b110, requireIsa isa IsaConfig.m (instr.matchOrRdZero .rem)),
          (0b111, requireIsa isa IsaConfig.m (instr.matchOrRdZero .remu))] .undef)] .undef

def decodeOpW (isa : IsaConfig) : OpId :=
  switch instr.funct7
    [(0b0000000, switch instr.funct3
        [(0b000, instr.matchOrRdZero .addw), (0b001, instr.matchOrRdZero .sllw),
          (0b101, instr.matchOrRdZero .srlw)] .undef),
      (0b0100000, switch instr.funct3
        [(0b000, instr.matchOrRdZero .subw), (0b101, instr.matchOrRdZero .sraw)] .undef),
      (0b0000001, switch instr.funct3
        [(0b000, requireIsa isa IsaConfig.m (instr.matchOrRdZero .mulw)),
          (0b100, requireIsa isa IsaConfig.m (instr.matchOrRdZero .divw)),
          (0b101, requireIsa isa IsaConfig.m (instr.matchOrRdZero .divuw)),
          (0b110, requireIsa isa IsaConfig.m (instr.matchOrRdZero .remw)),
          (0b111, requireIsa isa IsaConfig.m (instr.matchOrRdZero .remuw))] .undef)] .undef

def decodeFence : OpId :=
  switch instr.funct3 [(0b000, instr.matchOp .fence), (0b001, instr.matchOp .fenceI)] .undef

def decodeSystem : OpId :=
  switch instr.funct3
    [(0b000, switch instr.funct12
        [(0b000000000000, instr.matchOp .ecall), (0b000000000001, instr.matchOp .ebreak),
          (0b000000000010, instr.matchOp .uret), (0b000100000010, instr.matchOp .sret),
          (0b001100000010, instr.matchOp .mret), (0b000100000101, instr.matchOp .wfi)]
        (instr.matchOp .sfenceVma)),
      (0b001, instr.matchOp .csrrw), (0b010, instr.matchOp .csrrs), (0b011, instr.matchOp .csrrc),
      (0b101, instr.matchOp .csrrwi), (0b110, instr.matchOp .csrrsi), (0b111, instr.matchOp .csrrci)]
    (.undef)

/-- A case of `OP_AMO`: `funct3` tells the width, and the word must match the operation of that width. -/
def matchAmo (isa : IsaConfig) (opD opW : Operation) : OpId :=
  requireIsa isa IsaConfig.a (if instr.funct3 = 0b011 then instr.matchOp opD else instr.matchOp opW)

def decodeAmo (isa : IsaConfig) : OpId :=
  switch instr.funct5
    [(0b00010, instr.matchAmo isa .lrD .lrW), (0b00011, instr.matchAmo isa .scD .scW),
      (0b00001, instr.matchAmo isa .amoswapD .amoswapW), (0b00000, instr.matchAmo isa .amoaddD .amoaddW),
      (0b00100, instr.matchAmo isa .amoxorD .amoxorW), (0b01100, instr.matchAmo isa .amoandD .amoandW),
      (0b01000, instr.matchAmo isa .amoorD .amoorW), (0b10000, instr.matchAmo isa .amominD .amominW),
      (0b10100, instr.matchAmo isa .amomaxD .amomaxW),
      (0b11000, instr.matchAmo isa .amominuD .amominuW),
      (0b11100, instr.matchAmo isa .amomaxuD .amomaxuW)] (.undef)

/-- `OP_FLW`; the vector loads are the other cases. -/
def decodeLoadFp (isa : IsaConfig) (vector : OpId) : OpId :=
  switch instr.funct3
    [(0b001, requireIsa isa IsaConfig.zfh (instr.matchOp .flh)),
      (0b010, requireIsa isa IsaConfig.f (instr.matchOp .flw)),
      (0b011, requireIsa isa IsaConfig.d (instr.matchOp .fld))] vector

/-- `OP_FSW`; the vector stores are the other cases. -/
def decodeStoreFp (isa : IsaConfig) (vector : OpId) : OpId :=
  switch instr.funct3
    [(0b001, requireIsa isa IsaConfig.zfh (instr.matchOp .fsh)),
      (0b010, requireIsa isa IsaConfig.f (instr.matchOp .fsw)),
      (0b011, requireIsa isa IsaConfig.d (instr.matchOp .fsd))] vector

end Cases

/-- The decoder of floating-point arithmetic and of the vector instructions. -/
structure OtherDecoder where
  decode : Architecture → IsaConfig → Instr → OpId
  /-- It returns other operations only. -/
  other : ∀ {arch isa instr o}, decode arch isa instr ≠ .op o ∧ decode arch isa instr ≠ .rdZero o

/-- A decoder of no other instructions. -/
def OtherDecoder.none : OtherDecoder where
  decode _ _ _ := .undef
  other := ⟨OpId.noConfusion, OpId.noConfusion⟩

/-- `decode_normal`: the switch on the opcode, and in it on `funct3` and `funct7` where there is a choice. -/
def decodeNormal (rest : OtherDecoder) (arch : Architecture) (isa : IsaConfig) (instr : Instr) : OpId :=
  switch instr.opcode
    [(OP_LUI, instr.matchOrRdZero .lui), (OP_AUIPC, instr.matchOrRdZero .auipc),
      (OP_JAL, instr.matchOrRdZero .jal), (OP_JALR, instr.matchOrRdZero .jalr),
      (OP_BEQ, instr.decodeBranch), (OP_LB, instr.decodeLoad), (OP_SB, instr.decodeStore),
      (OP_ADDI, instr.decodeOpImm arch), (OP_ADDIW, instr.decodeOpImmW), (OP_ADD, instr.decodeOp isa),
      (OP_ADDW, instr.decodeOpW isa), (OP_FENCE, instr.decodeFence), (OP_ECALL, instr.decodeSystem),
      (OP_AMO, instr.decodeAmo isa), (OP_FLW, instr.decodeLoadFp isa (rest.decode arch isa instr)),
      (OP_FSW, instr.decodeStoreFp isa (rest.decode arch isa instr))] (rest.decode arch isa instr)

end RiscvVp.Instr
