import RiscvVp.Iss.Equiv.IntegerValues
import RiscvVp.Iss.Equiv.IntegerEncoding
import RiscvVp.Instr.Equiv.RvcComplete

/-!
# The integer instructions against the instruction set

A run of fetches, decodings and operations of the ISS is a run of the machine of the instruction set.  One
operation of the ISS does to the registers what the machine does with the operands that the accessors read
from the word (`exec_of_exec`); the decoder finds the operation and the operands of every word that is an
instruction, and stops at every other word (`step_of_isa`, `isa_of_step`).  The one exception are the hints of
`C.ADD` with the destination `x0`, over which the machine steps and at which the ISS stops.
-/

namespace RiscvVp.IntegerUnit

open Rv64im

/-! ### Operations -/

/-- The unit is in the state of the machine. -/
structure Rep (s : IntegerUnit) (m : Machine) : Prop where
  regs : s.regs = m.x
  pc : s.pc = m.pc

/-- The unit after an instruction of `len` bytes has been fetched. -/
def fetched (s : IntegerUnit) (len : BitVec 64) : IntegerUnit := { s with lastPc := s.pc, pc := s.pc + len }

/-- The operations of the unit. -/
def isInteger : Operation → Bool
  | .lui | .auipc | .jal | .jalr | .beq | .bne | .blt | .bge | .bltu | .bgeu | .addi | .slti | .sltiu | .xori
  | .ori | .andi | .slli | .srli | .srai | .add | .sub | .sll | .slt | .sltu | .xor | .srl | .sra | .or | .and
  | .mul | .mulh | .mulhsu | .mulhu | .div | .divu | .rem | .remu | .addiw | .slliw | .srliw | .sraiw
  | .addw | .subw | .sllw | .srlw | .sraw | .mulw | .divw | .divuw | .remw | .remuw => true
  | _ => false

section Exec

variable {isa : IsaConfig} {s : IntegerUnit} {m : Machine} {instr : Instr} {o : Operation} {len : BitVec 64}

/-- The operations that compute a value are not jumps and have a variant for `rd` zero. -/
theorem hasRdZero_of_rdValue {v : BitVec 64} (h : s.rdValue instr o = some v) :
    o.hasRdZero = true ∧ o ≠ .jal ∧ o ≠ .jalr := by
  cases o <;> first | exact ⟨rfl, by decide, by decide⟩ | cases h

theorem exec_op {v : BitVec 64} (h : s.rdValue instr o = some v) :
    s.exec isa instr (.op o) = some (s.setRd instr v) := by
  obtain ⟨-, hjal, hjalr⟩ := hasRdZero_of_rdValue h
  unfold exec
  split <;> simp_all

theorem exec_rdZero {v : BitVec 64} (h : s.rdValue instr o = some v) :
    s.exec isa instr (.rdZero o) = some s := by
  obtain ⟨-, hjal, hjalr⟩ := hasRdZero_of_rdValue h
  unfold exec
  split <;> simp_all

theorem rd_eq_zero_iff {rd : BitVec 5} (hrd : instr.rd = rd.setWidth 32) : instr.rd = 0 ↔ rd = 0 := by
  rw [hrd]
  exact Rvc.setWidth_eq_zero_iff (by omega) rd

theorem setWidth_rd {rd : BitVec 5} (hrd : instr.rd = rd.setWidth 32) : instr.rd.setWidth 5 = rd := by
  rw [hrd, BitVec.setWidth_setWidth_of_le _ (by omega), BitVec.setWidth_eq]

theorem reg_eq (hrep : Rep s m) {index : BitVec 32} {r : BitVec 5} (h : index = r.setWidth 32) :
    s.reg index = m.x r := by
  rw [reg, h, BitVec.setWidth_setWidth_of_le _ (by omega), BitVec.setWidth_eq, hrep.regs]

/-- A register is written, and the program counters are somewhere else. -/
theorem rep_setRd {s' : IntegerUnit} {rd : BitVec 5} {v pc : BitVec 64} (hrep : s'.regs = m.x)
    (hrd : instr.rd = rd.setWidth 32) (hne : rd ≠ 0) (hpc : s'.pc = pc) :
    Rep (s'.setRd instr v) ((m.set rd v).jump pc) where
  regs := by
    show Function.update s'.regs (instr.rd.setWidth 5) v = if rd = 0 then m.x else Function.update m.x rd v
    rw [if_neg hne, hrep, setWidth_rd hrd]
  pc := hpc

/-- A write to `x0` is dropped by the machine, and the unit resets the register afterwards. -/
theorem rep_of_zero {s' : IntegerUnit} {rd : BitVec 5} {v pc : BitVec 64} (hrep : s'.regs = m.x)
    (hzero : rd = 0) (hpc : s'.pc = pc) : Rep s' ((m.set rd v).jump pc) where
  regs := by
    show s'.regs = if rd = 0 then m.x else Function.update m.x rd v
    rw [if_pos hzero, hrep]
  pc := hpc

/-- An instruction that computes a value writes it to `rd` and goes on with the next instruction. -/
theorem exec_of_rdValue (hrep : Rep s m) {rd : BitVec 5} (hrd : instr.rd = rd.setWidth 32) {v : BitVec 64}
    (h : (s.fetched len).rdValue instr o = some v) :
    ∃ s', (s.fetched len).exec isa instr (o.result instr) = some s' ∧
      Rep s' ((m.set rd v).jump (m.pc + len)) := by
  have hpc : (s.fetched len).pc = m.pc + len := by rw [← hrep.pc]; rfl
  by_cases hzero : instr.rd = 0
  · rw [Operation.result, if_pos ⟨(hasRdZero_of_rdValue h).1, hzero⟩]
    exact ⟨_, exec_rdZero h, rep_of_zero hrep.regs ((rd_eq_zero_iff hrd).1 hzero) hpc⟩
  · rw [Operation.result, if_neg fun hno => hzero hno.2]
    exact ⟨_, exec_op h, rep_setRd hrep.regs hrd (fun hno => hzero ((rd_eq_zero_iff hrd).2 hno)) hpc⟩

/-- A branch goes on at its target if the condition holds, and with the next instruction otherwise. -/
theorem exec_of_branchTaken (hrep : Rep s m) {t : Bool} {a b : BitVec 64} (htaken : taken a b o = some t)
    (h : (s.fetched len).branchTaken instr o = some t) :
    ∃ s', (s.fetched len).exec isa instr (o.result instr) = some s' ∧
      Rep s' (m.jump (m.pc + if t then wrap instr.bImm.toInt else len)) := by
  have hresult : o.result instr = .op o := by
    refine (Instr.op_eq_result instr ?_).symm
    cases o with
    | beq | bne | blt | bge | bltu | bgeu => rfl
    | _ => cases htaken
  have hexec : (s.fetched len).exec isa instr (.op o) =
      some (if t then (s.fetched len).branchTakenSjump instr.bImm else s.fetched len) := by
    have hmap := congrArg (Option.map fun taken : Bool =>
      if taken then (s.fetched len).branchTakenSjump instr.bImm else s.fetched len) h
    cases o with
    | beq | bne | blt | bge | bltu | bgeu => exact hmap
    | _ => cases htaken
  rw [hresult, hexec]
  refine ⟨_, rfl, ?_⟩
  cases t with
  | true => exact ⟨hrep.regs, congrArg (· + _) hrep.pc⟩
  | false => exact ⟨hrep.regs, congrArg (· + _) hrep.pc⟩

/-- A jump by an offset stores the address behind it and goes on at its target. -/
theorem exec_jal (hrep : Rep s m) {rd : BitVec 5} (hrd : instr.rd = rd.setWidth 32) :
    ∃ s', (s.fetched len).exec isa instr (Operation.jal.result instr) = some s' ∧
      Rep s' ((m.set rd (m.pc + len)).jump (m.pc + wrap instr.jImm.toInt)) := by
  have hpc : (s.fetched len).pc = m.pc + len := by rw [← hrep.pc]; rfl
  have htarget : ((s.fetched len).branchTakenSjump instr.jImm).pc = m.pc + wrap instr.jImm.toInt := by
    rw [← hrep.pc]
    rfl
  by_cases hzero : instr.rd = 0
  · rw [Operation.result, if_pos ⟨rfl, hzero⟩]
    exact ⟨_, rfl, rep_of_zero hrep.regs ((rd_eq_zero_iff hrd).1 hzero) htarget⟩
  · rw [Operation.result, if_neg fun hno => hzero hno.2]
    refine ⟨_, rfl, ?_⟩
    rw [hpc]
    exact rep_setRd hrep.regs hrd (fun hno => hzero ((rd_eq_zero_iff hrd).2 hno)) htarget

/-- A jump to an address in a register. -/
theorem exec_jalr (hc : isa.supports IsaConfig.c) (hrep : Rep s m) {rd rs1 : BitVec 5}
    (hrd : instr.rd = rd.setWidth 32) (hrs1 : instr.rs1 = rs1.setWidth 32) :
    ∃ s', (s.fetched len).exec isa instr (Operation.jalr.result instr) = some s' ∧
      Rep s' ((m.set rd (m.pc + len)).jump (wrap ((m.x rs1).toInt + instr.iImm.toInt) &&& ~~~1#64)) := by
  have hpc : (s.fetched len).pc = m.pc + len := by rw [← hrep.pc]; rfl
  have htarget : (s.fetched len).jumpTarget instr =
      wrap ((m.x rs1).toInt + instr.iImm.toInt) &&& ~~~1#64 := by
    have hreg : (s.fetched len).reg instr.rs1 = m.x rs1 := reg_eq hrep hrs1
    rw [jumpTarget, hreg, add_signExtend]
  have haligned : ∀ pc, misaligned isa pc = false := by
    intro pc
    rw [misaligned, hc]
    simp
  by_cases hzero : instr.rd = 0
  · rw [Operation.result, if_pos ⟨rfl, hzero⟩]
    refine ⟨_, if_neg (by rw [haligned]; exact Bool.false_ne_true), ?_⟩
    exact rep_of_zero hrep.regs ((rd_eq_zero_iff hrd).1 hzero) htarget
  · rw [Operation.result, if_neg fun hno => hzero hno.2]
    refine ⟨_, if_neg (by rw [haligned]; exact Bool.false_ne_true), ?_⟩
    rw [hpc]
    exact rep_setRd hrep.regs hrd (fun hno => hzero ((rd_eq_zero_iff hrd).2 hno)) htarget

end Exec

/-! ### One instruction of the machine -/

section Expansions

variable {isa : IsaConfig} {s s' : IntegerUnit} {m m' : Machine} {instr : Instr} {o : Operation}
  {len : BitVec 64}

theorem exec_i {rd rs1 : BitVec 5} {imm : BitVec 32} (h : o ≠ .jalr) :
    m.exec len (.i o rd rs1 imm) =
      (immValue (m.x rs1) imm o).map fun v => (m.set rd v).jump (m.pc + len) := by
  cases o <;> first | rfl | exact absurd rfl h

theorem exec_j {rd : BitVec 5} {imm : BitVec 32} (h : o ≠ .jal) : m.exec len (.j o rd imm) = none := by
  cases o <;> first | rfl | exact absurd rfl h

/-- What the machine does with the operands of a word, the unit does with the word. -/
theorem exec_of_exec (hc : isa.supports IsaConfig.c) (hrep : Rep s m) {e : Rvc.Expansion}
    (hread : e.ReadFrom instr) (hshamt : isShiftW e.op → instr.shamtW = instr.shamt)
    (h : m.exec len e = some m') :
    ∃ s', (s.fetched len).exec isa instr (e.op.result instr) = some s' ∧ Rep s' m' := by
  -- by format: the operands are the same, so what they give is
  cases e with
  | r o rd rs1 rs2 =>
    obtain ⟨hrd, hrs1, hrs2⟩ := hread
    obtain ⟨v, hv, rfl⟩ := Option.map_eq_some_iff.1 h
    rw [← reg_eq hrep hrs1, ← reg_eq hrep hrs2] at hv
    exact exec_of_rdValue hrep hrd (rdValue_of_regValue (s.fetched len) instr hv)
  | i o rd rs1 imm =>
    obtain ⟨hrd, hrs1, rfl⟩ := hread
    by_cases hjalr : o = .jalr
    · subst hjalr
      obtain rfl := Option.some.inj h
      exact exec_jalr hc hrep hrd hrs1
    · rw [exec_i hjalr] at h
      obtain ⟨v, hv, rfl⟩ := Option.map_eq_some_iff.1 h
      rw [← reg_eq hrep hrs1] at hv
      exact exec_of_rdValue hrep hrd (rdValue_of_immValue (s.fetched len) instr hv)
  | shift o rd rs1 shamt =>
    obtain ⟨hrd, hrs1, hsh⟩ := hread
    obtain ⟨v, hv, rfl⟩ := Option.map_eq_some_iff.1 h
    have hnat : shamt.toNat = instr.shamt.toNat := by
      rw [hsh, BitVec.toNat_setWidth_of_le (by omega)]
    rw [← reg_eq hrep hrs1, hnat] at hv
    exact exec_of_rdValue hrep hrd (rdValue_of_shiftValue (s.fetched len) instr hshamt hv)
  | s o rs1 rs2 imm => cases h
  | b o rs1 rs2 imm =>
    obtain ⟨hrs1, hrs2, rfl⟩ := hread
    obtain ⟨t, ht, rfl⟩ := Option.map_eq_some_iff.1 h
    rw [← reg_eq hrep hrs1, ← reg_eq hrep hrs2] at ht
    exact exec_of_branchTaken hrep ht (branchTaken_of_taken (s.fetched len) instr ht)
  | u o rd imm =>
    obtain ⟨hrd, rfl⟩ := hread
    obtain ⟨v, hv, rfl⟩ := Option.map_eq_some_iff.1 h
    rw [← hrep.pc] at hv
    exact exec_of_rdValue hrep hrd (rdValue_of_upperValue (s.fetched len) instr hv)
  | j o rd imm =>
    obtain ⟨hrd, rfl⟩ := hread
    by_cases hjal : o = .jal
    · subst hjal
      obtain rfl := Option.some.inj h
      exact exec_jal hrep hrd
    · rw [exec_j hjal] at h
      cases h
  | system o => cases h

/-- An operation of another unit is refused. -/
theorem isInteger_of_exec (h : s.exec isa instr (o.result instr) = some s') : isInteger o = true := by
  by_contra hno
  have hzero : o.hasRdZero = false := by
    cases o <;> first | rfl | exact absurd rfl hno
  rw [← Instr.op_eq_result instr hzero] at h
  cases o <;> first | exact absurd rfl hno | cases h

/-- Every word that matches an integer operation is an instruction that the machine executes. -/
theorem exists_encoded (ho : isInteger o = true) (henc : o.Encodes .rv64 isa instr) (m : Machine)
    (len : BitVec 64) :
    ∃ e : Rvc.Expansion, e.op = o ∧ Encoded isa instr e ∧ ∃ m', m.exec len e = some m' := by
  cases o with
  | add | sub | sll | slt | sltu | xor | srl | sra | or | and | mul | mulh | mulhsu | mulhu | div | divu
  | rem | remu | addw | subw | sllw | srlw | sraw | mulw | divw | divuw | remw | remuw =>
    exact ⟨_, rfl, encoded_r rfl henc, _, rfl⟩
  | jalr | addi | slti | sltiu | xori | ori | andi | addiw => exact ⟨_, rfl, encoded_i rfl henc, _, rfl⟩
  | slli | srli | srai => exact ⟨_, rfl, encoded_shift rfl henc, _, rfl⟩
  | slliw | srliw | sraiw => exact ⟨_, rfl, encoded_shiftW rfl henc, _, rfl⟩
  | beq | bne | blt | bge | bltu | bgeu => exact ⟨_, rfl, encoded_b rfl henc, _, rfl⟩
  | lui | auipc => exact ⟨_, rfl, encoded_u rfl henc, _, rfl⟩
  | jal => exact ⟨_, rfl, encoded_j henc, _, rfl⟩
  | _ => cases ho

/-- The compressed instructions of the unit have a meaning. -/
theorem exists_exec_expansion (c : Rvc) (h : isInteger c.expansion.op = true) (m : Machine) (len : BitVec 64) :
    ∃ m', m.exec len c.expansion = some m' := by
  cases c with
  | fld | lw | flw | ld | fsd | sw | fsw | sd | fldsp | lwsp | flwsp | ldsp | ebreak | fsdsp | swsp | fswsp
  | sdsp => cases h
  | _ => exact ⟨_, rfl⟩

/-- No compressed instruction has a shift amount of five bits. -/
theorem not_isShiftW_expansion (c : Rvc) : isShiftW c.expansion.op = false := by
  cases c <;> rfl

/-- The sixth bit of a shift amount of five bits is zero. -/
theorem shamtW_eq_shamt (henc : o.Encodes .rv64 isa instr) (hw : isShiftW o = true) :
    instr.shamtW = instr.shamt := by
  have hmask : o.encoding.mask.getLsbD 25 = true ∧ o.encoding.encoding.getLsbD 25 = false := by
    cases o with
    | slliw | srliw | sraiw => exact ⟨rfl, rfl⟩
    | _ => cases hw
  have hbit : instr.getLsbD 25 = false := by
    have hand := congrArg (BitVec.getLsbD · 25) henc.and_mask
    simp only [BitVec.getLsbD_and, hmask.1, hmask.2, Bool.and_true] at hand
    exact hand
  show instr.bitSlice 24 20 = instr.bitSlice 25 20
  ext i hi
  rw [Instr.getElem_bitSlice hi (by omega) (by omega), Instr.getElem_bitSlice hi (by omega) (by omega)]
  by_cases hfive : i = 5
  · subst hfive
    rw [hbit, Bool.and_false, Bool.and_false]
  · rw [decide_eq_decide.2 (by omega : i ≤ 24 - 20 ↔ i ≤ 25 - 20)]

/-- What the unit does with a word that matches its operation, the machine does with the instruction. -/
theorem exists_exec_of_exec (hc : isa.supports IsaConfig.c) (hrep : Rep s m)
    (henc : o.Encodes .rv64 isa instr)
    (h : (s.fetched len).exec isa instr (o.result instr) = some s') :
    ∃ e m', Encoded isa instr e ∧ m.exec len e = some m' ∧ Rep s' m' := by
  obtain ⟨e, rfl, hencoded, m', hm⟩ := exists_encoded (isInteger_of_exec h) henc m len
  obtain ⟨s'', hs, hrep'⟩ := exec_of_exec hc hrep hencoded.readFrom (shamtW_eq_shamt henc) hm
  rw [hs] at h
  obtain rfl := Option.some.inj h
  exact ⟨e, m', hencoded, hm, hrep'⟩

end Expansions

/-! ### Fetching -/

section Fetch

variable {isa : IsaConfig} {mem : BitVec 64 → BitVec 32} {s s' : IntegerUnit} {m m' : Machine}
  {o : Operation}

theorem isCompressed_of_encodes {arch : Architecture} {instr : Instr} (h : o.Encodes arch isa instr) :
    instr.isCompressed = false := by
  have hmask : o.encoding.mask &&& 3 = 3 ∧ o.encoding.encoding &&& 3 = 3 := by
    cases o <;> exact ⟨rfl, rfl⟩
  have hquadrant : instr.quadrant = 3 := by
    rw [Instr.quadrant]
    calc instr &&& 3 = instr &&& o.encoding.mask &&& 3 := by rw [BitVec.and_assoc, hmask.1]
      _ = 3 := by rw [h.and_mask, hmask.2]
  rw [Instr.isCompressed, hquadrant]
  rfl

theorem isCompressed_encode (hi : BitVec 16) (c : Rvc) : (Rvc.word hi c.encode).isCompressed = true := by
  rw [Instr.isCompressed]
  cases c <;> (rw [Rvc.encode, Rvc.quadrant_word]; rfl)

theorem fetchDecode_normal (rest : Instr.OtherDecoder) (h : o.Encodes .rv64 isa (mem s.pc)) :
    s.fetchDecode rest isa mem = some (mem s.pc, o.result (mem s.pc), s.fetched 4) := by
  show (if Instr.isCompressed (mem s.pc) then _ else _) = _
  rw [if_neg (by rw [isCompressed_of_encodes h]; exact Bool.false_ne_true),
    Instr.decodeNormal_of_encodes rest h]
  rfl

theorem fetchDecode_compressed (rest : Instr.OtherDecoder) (h : Instr.isCompressed (mem s.pc) = true) :
    s.fetchDecode rest isa mem =
      (Instr.decodeAndExpandCompressed (mem s.pc) .rv64 isa).map fun p => (p.1, p.2, s.fetched 2) := by
  show (if Instr.isCompressed (mem s.pc) then _ else _) = _
  rw [if_pos h]
  rfl

/-- A word that is not compressed goes to `decode_normal`. -/
theorem fetchDecode_of_not_compressed (rest : Instr.OtherDecoder)
    (h : ¬Instr.isCompressed (mem s.pc) = true) :
    s.fetchDecode rest isa mem =
      some (mem s.pc, Instr.decodeNormal rest .rv64 isa (mem s.pc), s.fetched 4) := by
  show (if Instr.isCompressed (mem s.pc) then _ else _) = _
  rw [if_neg h]
  rfl

/-- The word at the program counter is a hint that the decoder takes for a breakpoint. -/
def AtAddHint (mem : BitVec 64 → BitVec 32) (m : Machine) : Prop :=
  ∃ c : Rvc, c.IsAddHint ∧ (mem m.pc).setWidth 16 = c.encode

/-- A compressed instruction that the decoder accepts is fetched as its expansion. -/
theorem fetchDecode_encode (rest : Instr.OtherDecoder) (hc : isa.supports IsaConfig.c) {c : Rvc}
    (hlegal : c.Accepted .rv64) (hword : (mem s.pc).setWidth 16 = c.encode)
    (hext : ∀ ext, c.expansion.op.extension = some ext → isa.supports ext) :
    ∃ w, s.fetchDecode rest isa mem = some (w, c.expansion.op.result w, s.fetched 2) ∧
      c.expansion.ReadFrom w := by
  obtain ⟨hi, f3, b, q, hmem⟩ := Rvc.exists_word (mem s.pc)
  rw [hmem, Rvc.setWidth_word] at hword
  rw [hword] at hmem
  obtain ⟨w, hw, hread⟩ := Rvc.expandCompressed_encode hi c hlegal hext
  refine ⟨w, ?_, hread⟩
  rw [fetchDecode_compressed rest (by rw [hmem]; exact isCompressed_encode hi c), hmem,
    Rvc.decodeAndExpandCompressed_eq hc (Rvc.decodeCompressed_encode hi c hlegal), hw]
  rfl

/-- At a hint of `C.ADD` the unit stops. -/
theorem step_of_isAddHint (rest : Instr.OtherDecoder) (hc : isa.supports IsaConfig.c) {c : Rvc}
    (hhint : c.IsAddHint) (hword : (mem s.pc).setWidth 16 = c.encode) : s.step rest isa mem = none := by
  obtain ⟨hi, f3, b, q, hmem⟩ := Rvc.exists_word (mem s.pc)
  rw [hmem, Rvc.setWidth_word] at hword
  rw [hword] at hmem
  rw [step, fetchDecode_compressed rest (by rw [hmem]; exact isCompressed_encode hi c), hmem,
    Rvc.decode_addHint hi hc hhint]
  rfl

/-- A compressed word on which the unit takes a step is an accepted instruction of the unit. -/
theorem exists_accepted_of_step (rest : Instr.OtherDecoder) (hc : isa.supports IsaConfig.c)
    (hcomp : Instr.isCompressed (mem s.pc) = true) (h : s.step rest isa mem = some s') :
    ∃ c : Rvc, c.Accepted .rv64 ∧ (mem s.pc).setWidth 16 = c.encode ∧
      ∀ ext, c.expansion.op.extension = some ext → isa.supports ext := by
  obtain ⟨hi, f3, b, q, hmem⟩ := Rvc.exists_word (mem s.pc)
  have hquadrant : (Rvc.word hi (Rvc.half f3 b q)).quadrant ≠ 3 := by
    intro hq
    rw [hmem, Instr.isCompressed, hq] at hcomp
    cases hcomp
  have hclassified : Rvc.Classified .rv64 isa hi (Rvc.half f3 b q) := Rvc.classified hi hc hquadrant
  rcases hclassified with ⟨c, hlegal, henc⟩ | ⟨c, hhint, henc⟩ | ⟨w, hrefused⟩
  · rw [step, fetchDecode_compressed rest hcomp, hmem] at h
    refine ⟨c, hlegal, by rw [hmem, Rvc.setWidth_word, henc], ?_⟩
    -- without its extension the instruction is decoded as not supported
    by_contra hext
    rw [henc, Rvc.decodeAndExpandCompressed_eq hc (Rvc.decodeCompressed_encode hi c hlegal)] at h
    have hexec : (s.fetched 2).exec isa _
        ((Rvc.word hi c.encode).expandCompressed c.opId .rv64 isa).2 = some s' := h
    rw [Rvc.expandCompressed_of_not_supports hi c hext] at hexec
    cases hexec
  · rw [step_of_isAddHint rest hc hhint (by rw [hmem, Rvc.setWidth_word, henc])] at h
    cases h
  · rw [step, fetchDecode_compressed rest hcomp, hmem, hrefused] at h
    cases h

end Fetch

/-! ### Steps -/

section Step

variable (rest : Instr.OtherDecoder) {isa : IsaConfig} {mem : BitVec 64 → BitVec 32}
  {s s' : IntegerUnit} {m m' : Machine}

/-- The floating-point loads and stores are not in the machine. -/
theorem extension_of_exec {c : Rvc} {len : BitVec 64} (h : m.exec len c.expansion = some m') :
    c.expansion.op.extension = none := by
  cases c with
  | fld | flw | fsd | fsw | fldsp | flwsp | fsdsp | fswsp => cases h
  | _ => rfl

theorem shamtW_of_expansion {c : Rvc} {w : Instr} (h : isShiftW c.expansion.op = true) :
    w.shamtW = w.shamt := by
  rw [not_isShiftW_expansion] at h
  cases h

theorem exists_op_of_exec {instr : Instr} {r : OpId} (h : s.exec isa instr r = some s') :
    ∃ o, r = .op o ∨ r = .rdZero o := by
  cases r with
  | op o => exact ⟨o, Or.inl rfl⟩
  | rdZero o => exact ⟨o, Or.inr rfl⟩
  | _ => cases h

/-- A step of the machine is a step of the unit, unless it executes a hint of `C.ADD`. -/
theorem step_of_isa (hc : isa.supports IsaConfig.c) (hrep : Rep s m) (h : Step isa mem m m')
    (hhint : ¬AtAddHint mem m) : ∃ s', s.step rest isa mem = some s' ∧ Rep s' m' := by
  obtain ⟨len, e, hfetched, hexec⟩ := h
  rw [AtAddHint] at hhint
  rw [← hrep.pc] at hfetched hhint
  cases hfetched with
  | normal henc =>
    obtain ⟨s', hs, hrep'⟩ :=
      exec_of_exec hc hrep henc.readFrom (shamtW_eq_shamt henc.encodes) hexec
    refine ⟨s', ?_, hrep'⟩
    rw [step, fetchDecode_normal rest henc.encodes]
    exact hs
  | compressed hlegal hword =>
    have hacc := hlegal.accepted fun hadd => hhint ⟨_, hadd, hword⟩
    obtain ⟨w, hw, hread⟩ :=
      fetchDecode_encode rest hc hacc hword (Instr.supports_of_none (extension_of_exec hexec))
    obtain ⟨s', hs, hrep'⟩ := exec_of_exec hc hrep hread shamtW_of_expansion hexec
    refine ⟨s', ?_, hrep'⟩
    rw [step, hw]
    exact hs

/-- A step of the unit on a word of 32 bits is a step of the machine. -/
theorem isa_of_step_normal (hc : isa.supports IsaConfig.c) (hrep : Rep s m)
    (hcomp : ¬Instr.isCompressed (mem s.pc) = true) (h : s.step rest isa mem = some s') :
    ∃ m', Step isa mem m m' ∧ Rep s' m' := by
  rw [step, fetchDecode_of_not_compressed rest hcomp] at h
  have hexec : (s.fetched 4).exec isa (mem s.pc) (Instr.decodeNormal rest .rv64 isa (mem s.pc)) =
      some s' := h
  obtain ⟨o, ho⟩ := exists_op_of_exec hexec
  obtain ⟨henc, hresult⟩ := Instr.sound_decodeNormal rest o ho
  rw [hresult] at hexec
  obtain ⟨e, m', hencoded, hm, hrep'⟩ := exists_exec_of_exec hc hrep henc hexec
  refine ⟨m', ⟨4, e, ?_, hm⟩, hrep'⟩
  rw [← hrep.pc]
  exact .normal hencoded

/-- A step of the unit on a compressed word is a step of the machine. -/
theorem isa_of_step_compressed (hc : isa.supports IsaConfig.c) (hrep : Rep s m)
    (hcomp : Instr.isCompressed (mem s.pc) = true) (h : s.step rest isa mem = some s') :
    ∃ m', Step isa mem m m' ∧ Rep s' m' := by
  obtain ⟨c, hacc, hword, hext⟩ := exists_accepted_of_step rest hc hcomp h
  obtain ⟨w, hw, hread⟩ := fetchDecode_encode rest hc hacc hword hext
  rw [step, hw] at h
  have hexec : (s.fetched 2).exec isa w (c.expansion.op.result w) = some s' := h
  obtain ⟨m', hm⟩ := exists_exec_expansion c (isInteger_of_exec hexec) m 2
  obtain ⟨s'', hs, hrep'⟩ := exec_of_exec hc hrep hread shamtW_of_expansion hm
  rw [hs] at hexec
  obtain rfl := Option.some.inj hexec
  refine ⟨m', ⟨2, _, ?_, hm⟩, hrep'⟩
  rw [← hrep.pc]
  exact .compressed hacc.legal hword

/-- A step of the unit is a step of the machine, and not at a hint of `C.ADD`. -/
theorem isa_of_step (hc : isa.supports IsaConfig.c) (hrep : Rep s m) (h : s.step rest isa mem = some s') :
    ∃ m', (Step isa mem m m' ∧ ¬AtAddHint mem m) ∧ Rep s' m' := by
  have hhint : ¬AtAddHint mem m := by
    rintro ⟨c, hadd, hword⟩
    rw [← hrep.pc] at hword
    rw [step_of_isAddHint rest hc hadd hword] at h
    cases h
  by_cases hcomp : Instr.isCompressed (mem s.pc) = true
  · obtain ⟨m', hstep, hrep'⟩ := isa_of_step_compressed rest hc hrep hcomp h
    exact ⟨m', ⟨hstep, hhint⟩, hrep'⟩
  · obtain ⟨m', hstep, hrep'⟩ := isa_of_step_normal rest hc hrep hcomp h
    exact ⟨m', ⟨hstep, hhint⟩, hrep'⟩

/-- The machine steps over a hint of `C.ADD`. -/
theorem step_addHint {m : Machine} (h : AtAddHint mem m) : Step isa mem m (m.jump (m.pc + 2)) := by
  obtain ⟨c, hhint, hword⟩ := h
  refine ⟨2, c.expansion, .compressed hhint.legal hword, ?_⟩
  obtain ⟨rs2, -, rfl⟩ := hhint
  rfl

end Step

/-! ### Runs -/

section Run

variable (rest : Instr.OtherDecoder) {isa : IsaConfig} {mem : BitVec 64 → BitVec 32} {n : ℕ}

theorem Rep.unique {s : IntegerUnit} {m m' : Machine} (h : Rep s m) (h' : Rep s m') : m = m' :=
  Machine.ext (h.regs.symm.trans h'.regs) (h.pc.symm.trans h'.pc)

/-- The machine takes `n` steps and executes no hint of `C.ADD`. -/
def RunWithoutAddHint (isa : IsaConfig) (mem : BitVec 64 → BitVec 32) : ℕ → Machine → Machine → Prop :=
  Run fun m m' => Step isa mem m m' ∧ ¬AtAddHint mem m

theorem run_of_isa (hc : isa.supports IsaConfig.c) {m m' : Machine} (hrun : RunWithoutAddHint isa mem n m m') :
    ∀ s, Rep s m → ∃ s', s.run rest isa mem n = some s' ∧ Rep s' m' := by
  induction hrun with
  | zero m =>
    intro s hrep
    exact ⟨s, rfl, hrep⟩
  | succ hstep hrun ih =>
    intro s hrep
    obtain ⟨s₁, hs₁, hrep₁⟩ := step_of_isa rest hc hrep hstep.1 hstep.2
    obtain ⟨s', hs', hrep'⟩ := ih s₁ hrep₁
    refine ⟨s', ?_, hrep'⟩
    rw [run, hs₁]
    exact hs'

theorem isa_of_run (hc : isa.supports IsaConfig.c) {m : Machine} {s s' : IntegerUnit} (hrep : Rep s m)
    (h : s.run rest isa mem n = some s') : ∃ m', RunWithoutAddHint isa mem n m m' ∧ Rep s' m' := by
  induction n generalizing s m with
  | zero =>
    obtain rfl := Option.some.inj h
    exact ⟨m, .zero m, hrep⟩
  | succ n ih =>
    obtain ⟨s₁, hs₁, h'⟩ := Option.bind_eq_some_iff.1 h
    obtain ⟨m₁, hstep, hrep₁⟩ := isa_of_step rest hc hrep hs₁
    obtain ⟨m', hrun, hrep'⟩ := ih hrep₁ h'
    exact ⟨m', .succ hstep hrun, hrep'⟩

end Run

/-! ### Headlines -/

/-- **The unit runs programs as the instruction set says, up to one row of hints.**  With compressed
instructions enabled, for every memory of instructions and from every state: `n` instructions that are no hints of
`C.ADD` take the machine from one state to another exactly if the unit, decoder included, runs `n` instructions
and ends in that state.  So the unit has no step where the machine has none.  At a hint the machine goes on with
the next half word, with its registers as they are, and the unit takes it for a breakpoint. -/
theorem machine_run_iff (rest : Instr.OtherDecoder) (isa : IsaConfig) (mem : BitVec 64 → BitVec 32)
    (hc : isa.supports IsaConfig.c) (s : IntegerUnit) (m : Machine) (hrep : Rep s m) (n : ℕ) (m' : Machine) :
    (RunWithoutAddHint isa mem n m m' ↔ ∃ s', s.run rest isa mem n = some s' ∧ Rep s' m') ∧
      (AtAddHint mem m → Step isa mem m (m.jump (m.pc + 2)) ∧ s.step rest isa mem = none) := by
  refine ⟨⟨?_, ?_⟩, ?_⟩
  · intro hrun
    exact run_of_isa rest hc hrun s hrep
  · rintro ⟨s', h, hrep'⟩
    obtain ⟨m'', hrun, hrep''⟩ := isa_of_run rest hc hrep h
    rw [hrep'.unique hrep'']
    exact hrun
  · intro hhint
    refine ⟨step_addHint hhint, ?_⟩
    obtain ⟨c, hadd, hword⟩ := hhint
    rw [← hrep.pc] at hword
    exact step_of_isAddHint rest hc hadd hword

/-- `ADDI x10, x10, 1`, twice. -/
theorem machine_run_iff_addi :
    (RunWithoutAddHint ⟨IsaConfig.c⟩ (fun _ => 0x00150513) 2 ⟨fun _ => 0, rfl, 0⟩
        ⟨fun r => if r = 10 then 2 else 0, rfl, 8⟩ ↔
      ∃ s', run .none ⟨IsaConfig.c⟩ (fun _ => 0x00150513) 2 ⟨fun _ => 0, 0, 0⟩ = some s' ∧
        Rep s' ⟨fun r => if r = 10 then 2 else 0, rfl, 8⟩) ∧
      (AtAddHint (fun _ => 0x00150513) ⟨fun _ => 0, rfl, 0⟩ →
        Step ⟨IsaConfig.c⟩ (fun _ => 0x00150513) ⟨fun _ => 0, rfl, 0⟩
            (Machine.jump ⟨fun _ => 0, rfl, 0⟩ (0 + 2)) ∧
          step .none ⟨IsaConfig.c⟩ (fun _ => 0x00150513) ⟨fun _ => 0, 0, 0⟩ = none) :=
  machine_run_iff .none ⟨IsaConfig.c⟩ _ (by decide) _ _ ⟨rfl, rfl⟩ 2 _

end RiscvVp.IntegerUnit
