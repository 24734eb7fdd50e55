import RiscvVp.Rv64im.Encoding
import RiscvVp.Instr.Equiv.Bits
import RiscvVp.Instr.Equiv.Decode

/-!
# The table of the decoder against the encodings of the instruction set

* `Encoded.encodes`: a word of the instruction set matches the mask of its operation.
* `Encoded.readFrom`: the accessors of `Instruction` read its operands.
* `exists_encoded`: every word that matches the mask of an integer operation is one of the instruction set.

A mask keeps some fields of a format, so both directions compare words field by field.
-/

namespace RiscvVp.Rv64im

variable {isa : IsaConfig} {w : BitVec 32} {o : Operation}

/-! ### Fields of a word -/

section Fields

variable (funct7 : BitVec 7) (rs2 rs1 rd : BitVec 5) (funct3 : BitVec 3) (opcode : BitVec 7) (imm : BitVec 12)
  (upper : BitVec 20)

theorem funct7_rWord : (rWord funct7 rs2 rs1 funct3 rd opcode).extractLsb' 25 7 = funct7 := by
  unfold rWord
  simp (disch := omega) only [BitVec.extractLsb'_append_eq_of_le, Nat.reduceSub, BitVec.extractLsb'_eq_self]

theorem rs2_rWord : (rWord funct7 rs2 rs1 funct3 rd opcode).extractLsb' 20 5 = rs2 := by
  unfold rWord
  simp (disch := omega) only [BitVec.extractLsb'_append_eq_of_le, Nat.reduceSub,
    BitVec.extractLsb'_append_eq_right]

/-- What stands in both formats with a source register reads the same. -/
theorem rWord_eq_iWord : rWord funct7 rs2 rs1 funct3 rd opcode = iWord (funct7 ++ rs2) rs1 funct3 rd opcode := rfl

theorem imm_iWord : (iWord imm rs1 funct3 rd opcode).extractLsb' 20 12 = imm := by
  unfold iWord
  simp (disch := omega) only [BitVec.extractLsb'_append_eq_of_le, Nat.reduceSub, BitVec.extractLsb'_eq_self]

theorem rs1_iWord : (iWord imm rs1 funct3 rd opcode).extractLsb' 15 5 = rs1 := by
  unfold iWord
  simp (disch := omega) only [BitVec.extractLsb'_append_eq_of_le, Nat.reduceSub,
    BitVec.extractLsb'_append_eq_right]

theorem funct3_iWord : (iWord imm rs1 funct3 rd opcode).extractLsb' 12 3 = funct3 := by
  unfold iWord
  simp (disch := omega) only [BitVec.extractLsb'_append_eq_of_le, Nat.reduceSub,
    BitVec.extractLsb'_append_eq_right]

theorem iWord_eq_uWord : iWord imm rs1 funct3 rd opcode = uWord (imm ++ rs1 ++ funct3) rd opcode := rfl

theorem upper_uWord : (uWord upper rd opcode).extractLsb' 12 20 = upper := by
  unfold uWord
  simp (disch := omega) only [BitVec.extractLsb'_append_eq_of_le, Nat.reduceSub, BitVec.extractLsb'_eq_self]

theorem rd_uWord : (uWord upper rd opcode).extractLsb' 7 5 = rd := by
  unfold uWord
  simp (disch := omega) only [BitVec.extractLsb'_append_eq_of_le, Nat.reduceSub,
    BitVec.extractLsb'_append_eq_right]

theorem opcode_uWord : (uWord upper rd opcode).extractLsb' 0 7 = opcode := by
  unfold uWord
  exact BitVec.extractLsb'_append_eq_right

end Fields

/-- Every word has the fields of each format. -/
theorem eq_uWord (w : BitVec 32) :
    w = uWord (w.extractLsb' 12 20) (w.extractLsb' 7 5) (w.extractLsb' 0 7) := by
  unfold uWord
  simp (disch := omega) only [BitVec.extractLsb'_append_extractLsb'_eq_extractLsb']
  exact BitVec.extractLsb'_eq_self.symm

theorem eq_iWord (w : BitVec 32) :
    w = iWord (w.extractLsb' 20 12) (w.extractLsb' 15 5) (w.extractLsb' 12 3) (w.extractLsb' 7 5)
      (w.extractLsb' 0 7) := by
  unfold iWord
  simp (disch := omega) only [BitVec.extractLsb'_append_extractLsb'_eq_extractLsb']
  exact BitVec.extractLsb'_eq_self.symm

theorem eq_rWord (w : BitVec 32) :
    w = rWord (w.extractLsb' 25 7) (w.extractLsb' 20 5) (w.extractLsb' 15 5) (w.extractLsb' 12 3)
      (w.extractLsb' 7 5) (w.extractLsb' 0 7) := by
  unfold rWord
  simp (disch := omega) only [BitVec.extractLsb'_append_extractLsb'_eq_extractLsb']
  exact BitVec.extractLsb'_eq_self.symm

/-! ### Masks -/

/-- A mask of whole fields keeps the field of the word or clears it. -/
theorem uWord_and (x : BitVec 20) (rd : BitVec 5) (opcode : BitVec 7) (x' : BitVec 20) (rd' : BitVec 5)
    (opcode' : BitVec 7) :
    uWord x rd opcode &&& uWord x' rd' opcode' = uWord (x &&& x') (rd &&& rd') (opcode &&& opcode') := by
  unfold uWord
  rw [BitVec.and_append, BitVec.and_append]

/-- The mask that keeps the opcode. -/
def opcodeMask : BitVec 32 := uWord 0#20 0#5 (BitVec.allOnes 7)

/-- The mask that keeps the opcode and `funct3`. -/
def funct3Mask : BitVec 32 := iWord 0#12 0#5 (BitVec.allOnes 3) 0#5 (BitVec.allOnes 7)

/-- The mask that keeps the six upper bits too. -/
def funct6Mask : BitVec 32 := iWord (BitVec.allOnes 6 ++ 0#6) 0#5 (BitVec.allOnes 3) 0#5 (BitVec.allOnes 7)

/-- The mask that keeps `funct7` too. -/
def funct7Mask : BitVec 32 := rWord (BitVec.allOnes 7) 0#5 0#5 (BitVec.allOnes 3) 0#5 (BitVec.allOnes 7)

section Masks

variable (funct7 : BitVec 7) (funct6 shamt : BitVec 6) (rs2 rs1 rd : BitVec 5) (funct3 : BitVec 3)
  (opcode : BitVec 7) (imm : BitVec 12) (upper : BitVec 20)

theorem uWord_and_mask : uWord upper rd opcode &&& opcodeMask = uWord 0#20 0#5 opcode := by
  rw [opcodeMask, uWord_and, BitVec.and_zero, BitVec.and_zero, BitVec.and_allOnes]

theorem iWord_and_mask : iWord imm rs1 funct3 rd opcode &&& funct3Mask = iWord 0#12 0#5 funct3 0#5 opcode := by
  rw [funct3Mask, iWord_eq_uWord, iWord_eq_uWord, uWord_and, BitVec.and_append, BitVec.and_append,
    BitVec.and_zero, BitVec.and_zero, BitVec.and_zero, BitVec.and_allOnes, BitVec.and_allOnes]
  rfl

theorem shiftWord_and_mask :
    iWord (funct6 ++ shamt) rs1 funct3 rd opcode &&& funct6Mask =
      iWord (funct6 ++ 0#6) 0#5 funct3 0#5 opcode := by
  rw [funct6Mask, iWord_eq_uWord, iWord_eq_uWord, uWord_and, BitVec.and_append, BitVec.and_append,
    BitVec.and_append, BitVec.and_zero, BitVec.and_zero, BitVec.and_zero, BitVec.and_allOnes,
    BitVec.and_allOnes, BitVec.and_allOnes]
  rfl

theorem rWord_and_mask :
    rWord funct7 rs2 rs1 funct3 rd opcode &&& funct7Mask = rWord funct7 0#5 0#5 funct3 0#5 opcode := by
  rw [funct7Mask, rWord_eq_iWord, rWord_eq_iWord, iWord_eq_uWord, iWord_eq_uWord, uWord_and,
    BitVec.and_append, BitVec.and_append, BitVec.and_append, BitVec.and_zero, BitVec.and_zero, BitVec.and_zero,
    BitVec.and_allOnes, BitVec.and_allOnes, BitVec.and_allOnes]
  rfl

end Masks

/-! ### The table -/

/-- An operation on two registers has the code of the instruction set in the table of the decoder. -/
theorem encodingFor_of_rCode {funct7 : BitVec 7} {funct3 : BitVec 3} {opcode : BitVec 7}
    (h : rCode o = some (funct7, funct3, opcode)) :
    o.encodingFor .rv64 = ⟨funct7Mask, rWord funct7 0#5 0#5 funct3 0#5 opcode⟩ ∧
      ∀ ext, o.extension = some ext → ext = IsaConfig.m ∧ funct7 = 1 := by
  cases o with
  | mul | mulh | mulhsu | mulhu | div | divu | rem | remu | mulw | divw | divuw | remw | remuw =>
    cases h
    exact ⟨rfl, fun ext hext => ⟨(Option.some.inj hext).symm, rfl⟩⟩
  | _ =>
    first
    | cases h
      exact ⟨rfl, fun ext hext => by cases hext⟩
    | cases h

/-- The operations with 1 in `funct7` belong to the M extension. -/
theorem extension_of_rCode {funct7 : BitVec 7} {funct3 : BitVec 3} {opcode : BitVec 7}
    (h : rCode o = some (funct7, funct3, opcode)) (hone : funct7 = 1) : o.extension = some IsaConfig.m := by
  subst hone
  cases o <;> first | rfl | cases h

theorem encodingFor_of_iCode {funct3 : BitVec 3} {opcode : BitVec 7} (h : iCode o = some (funct3, opcode)) :
    o.encodingFor .rv64 = ⟨funct3Mask, iWord 0#12 0#5 funct3 0#5 opcode⟩ ∧ o.extension = none := by
  cases o <;> cases h <;> exact ⟨rfl, rfl⟩

theorem encodingFor_of_shiftCode {funct6 : BitVec 6} {funct3 : BitVec 3}
    (h : shiftCode o = some (funct6, funct3)) :
    o.encodingFor .rv64 = ⟨funct6Mask, iWord (funct6 ++ 0#6) 0#5 funct3 0#5 opImm⟩ ∧
      o.extension = none := by
  cases o <;> cases h <;> exact ⟨rfl, rfl⟩

theorem encodingFor_of_shiftWCode {funct7 : BitVec 7} {funct3 : BitVec 3}
    (h : shiftWCode o = some (funct7, funct3)) :
    o.encodingFor .rv64 = ⟨funct7Mask, rWord funct7 0#5 0#5 funct3 0#5 opImm32⟩ ∧ o.extension = none ∧
      funct7.getLsbD 0 = false := by
  cases o <;> cases h <;> exact ⟨rfl, rfl, rfl⟩

theorem encodingFor_of_branchCode {funct3 : BitVec 3} (h : branchCode o = some funct3) :
    o.encodingFor .rv64 = ⟨funct3Mask, iWord 0#12 0#5 funct3 0#5 0b1100011⟩ ∧ o.extension = none := by
  cases o <;> cases h <;> exact ⟨rfl, rfl⟩

theorem encodingFor_of_upperCode {opcode : BitVec 7} (h : upperCode o = some opcode) :
    o.encodingFor .rv64 = ⟨opcodeMask, uWord 0#20 0#5 opcode⟩ ∧ o.extension = none := by
  cases o <;> cases h <;> exact ⟨rfl, rfl⟩

/-- **A word of the instruction set matches its operation.** -/
theorem Encoded.encodes {e : Rvc.Expansion} (h : Encoded isa w e) : e.op.Encodes .rv64 isa w := by
  cases h with
  | r hcode hm rd rs1 rs2 =>
    obtain ⟨henc, hext⟩ := encodingFor_of_rCode hcode
    refine ⟨by rw [Rvc.Expansion.op, henc]; exact rWord_and_mask _ _ _ _ _ _, fun ext hsome => ?_⟩
    obtain ⟨rfl, hone⟩ := hext ext hsome
    exact hm hone
  | i hcode rd rs1 imm =>
    obtain ⟨henc, hext⟩ := encodingFor_of_iCode hcode
    exact ⟨by rw [Rvc.Expansion.op, henc]; exact iWord_and_mask _ _ _ _ _, Instr.supports_of_none hext⟩
  | shift hcode rd rs1 shamt =>
    obtain ⟨henc, hext⟩ := encodingFor_of_shiftCode hcode
    exact ⟨by rw [Rvc.Expansion.op, henc]; exact shiftWord_and_mask _ _ _ _ _ _, Instr.supports_of_none hext⟩
  | shiftW hcode rd rs1 shamt =>
    obtain ⟨henc, hext, -⟩ := encodingFor_of_shiftWCode hcode
    exact ⟨by rw [Rvc.Expansion.op, henc]; exact rWord_and_mask _ _ _ _ _ _, Instr.supports_of_none hext⟩
  | b hcode rs1 rs2 imm =>
    obtain ⟨henc, hext⟩ := encodingFor_of_branchCode hcode
    exact ⟨by rw [Rvc.Expansion.op, henc]; exact iWord_and_mask _ _ _ _ _, Instr.supports_of_none hext⟩
  | u hcode rd imm =>
    obtain ⟨henc, hext⟩ := encodingFor_of_upperCode hcode
    exact ⟨by rw [Rvc.Expansion.op, henc]; exact uWord_and_mask _ _ _, Instr.supports_of_none hext⟩
  | j rd imm => exact ⟨uWord_and_mask _ _ _, Instr.supports_of_none rfl⟩

/-! ### Offsets -/

/-- The offset of a branch from the two fields that hold it. -/
def branchOffset (high : BitVec 7) (low : BitVec 5) : BitVec 12 :=
  high.extractLsb' 6 1 ++ low.extractLsb' 0 1 ++ high.extractLsb' 0 6 ++ low.extractLsb' 1 4

/-- The offset of a jump from the field that holds it. -/
def jumpOffset (field : BitVec 20) : BitVec 20 :=
  field.extractLsb' 19 1 ++ field.extractLsb' 0 8 ++ field.extractLsb' 8 1 ++ field.extractLsb' 9 10

theorem getElem_branchHigh (imm : BitVec 12) {i : ℕ} (hi : i < 7) :
    (branchHigh imm)[i] = if i < 6 then imm.getLsbD (i + 4) else imm.getLsbD 11 := by
  rw [← BitVec.getLsbD_eq_getElem]
  show (imm.extractLsb' 11 1 ++ imm.extractLsb' 4 6).getLsbD i = _
  simp only [BitVec.getLsbD_append]
  interval_cases i <;> simp

theorem getElem_branchLow (imm : BitVec 12) {i : ℕ} (hi : i < 5) :
    (branchLow imm)[i] = if i < 1 then imm.getLsbD 10 else imm.getLsbD (i - 1) := by
  rw [← BitVec.getLsbD_eq_getElem]
  show (imm.extractLsb' 0 4 ++ imm.extractLsb' 10 1).getLsbD i = _
  simp only [BitVec.getLsbD_append]
  interval_cases i <;> simp

theorem getElem_branchOffset (high : BitVec 7) (low : BitVec 5) {i : ℕ} (hi : i < 12) :
    (branchOffset high low)[i] =
      if i < 4 then low.getLsbD (i + 1)
      else if i < 10 then high.getLsbD (i - 4)
      else if i < 11 then low.getLsbD 0 else high.getLsbD 6 := by
  rw [← BitVec.getLsbD_eq_getElem]
  show (high.extractLsb' 6 1 ++ low.extractLsb' 0 1 ++ high.extractLsb' 0 6 ++
    low.extractLsb' 1 4).getLsbD i = _
  simp only [BitVec.getLsbD_append]
  interval_cases i <;> simp

theorem getElem_jumpField (imm : BitVec 20) {i : ℕ} (hi : i < 20) :
    (jumpField imm)[i] =
      if i < 8 then imm.getLsbD (i + 11)
      else if i < 9 then imm.getLsbD 10
      else if i < 19 then imm.getLsbD (i - 9) else imm.getLsbD 19 := by
  rw [← BitVec.getLsbD_eq_getElem]
  show (imm.extractLsb' 19 1 ++ imm.extractLsb' 0 10 ++ imm.extractLsb' 10 1 ++
    imm.extractLsb' 11 8).getLsbD i = _
  simp only [BitVec.getLsbD_append]
  interval_cases i <;> simp

theorem getElem_jumpOffset (field : BitVec 20) {i : ℕ} (hi : i < 20) :
    (jumpOffset field)[i] =
      if i < 10 then field.getLsbD (i + 9)
      else if i < 11 then field.getLsbD 8
      else if i < 19 then field.getLsbD (i - 11) else field.getLsbD 19 := by
  rw [← BitVec.getLsbD_eq_getElem]
  show (field.extractLsb' 19 1 ++ field.extractLsb' 0 8 ++ field.extractLsb' 8 1 ++
    field.extractLsb' 9 10).getLsbD i = _
  simp only [BitVec.getLsbD_append]
  interval_cases i <;> simp

theorem branchOffset_split (imm : BitVec 12) : branchOffset (branchHigh imm) (branchLow imm) = imm := by
  ext i hi
  interval_cases i <;>
    simp [getElem_branchOffset, BitVec.getLsbD_eq_getElem, getElem_branchHigh, getElem_branchLow]

theorem branchHigh_branchOffset (high : BitVec 7) (low : BitVec 5) :
    branchHigh (branchOffset high low) = high := by
  ext i hi
  interval_cases i <;> simp [getElem_branchHigh, BitVec.getLsbD_eq_getElem, getElem_branchOffset]

theorem branchLow_branchOffset (high : BitVec 7) (low : BitVec 5) :
    branchLow (branchOffset high low) = low := by
  ext i hi
  interval_cases i <;> simp [getElem_branchLow, BitVec.getLsbD_eq_getElem, getElem_branchOffset]

theorem jumpOffset_jumpField (imm : BitVec 20) : jumpOffset (jumpField imm) = imm := by
  ext i hi
  interval_cases i <;> simp [getElem_jumpOffset, BitVec.getLsbD_eq_getElem, getElem_jumpField]

theorem jumpField_jumpOffset (field : BitVec 20) : jumpField (jumpOffset field) = field := by
  ext i hi
  interval_cases i <;> simp [getElem_jumpField, BitVec.getLsbD_eq_getElem, getElem_jumpOffset]

/-! ### Accessors -/

section Accessors

theorem bitSlice_eq_extractLsb' {upper lower : ℕ} (h : lower ≤ upper) (hu : upper < 32) :
    Instr.bitSlice w upper lower = (w.extractLsb' lower (upper - lower + 1)).setWidth 32 := by
  ext i hi
  rw [Instr.getElem_bitSlice hi h hu, BitVec.getElem_setWidth, BitVec.getLsbD_extractLsb']
  congr 1
  exact decide_eq_decide.2 (by omega)

theorem rd_eq : Instr.rd w = (w.extractLsb' 7 5).setWidth 32 := bitSlice_eq_extractLsb' (by omega) (by omega)

theorem rs1_eq : Instr.rs1 w = (w.extractLsb' 15 5).setWidth 32 := bitSlice_eq_extractLsb' (by omega) (by omega)

theorem rs2_eq : Instr.rs2 w = (w.extractLsb' 20 5).setWidth 32 := bitSlice_eq_extractLsb' (by omega) (by omega)

theorem shamt_eq : Instr.shamt w = ((w.extractLsb' 20 12).extractLsb' 0 6).setWidth 32 := by
  have hinner : (w.extractLsb' 20 12).extractLsb' 0 6 = w.extractLsb' 20 6 := by
    ext i hi
    simp [show i < 12 by omega]
  rw [hinner]
  exact bitSlice_eq_extractLsb' (by omega) (by omega)

/-- The sixth bit of the shift amount of a word is the lowest bit of `funct7`. -/
theorem extractLsb'_append_of_getLsbD {funct7 : BitVec 7} {shamt : BitVec 5} (h : funct7.getLsbD 0 = false) :
    (funct7 ++ shamt).extractLsb' 0 6 = shamt.setWidth 6 := by
  ext i hi
  rw [BitVec.getElem_extractLsb', BitVec.getElem_setWidth, BitVec.getLsbD_append, Nat.zero_add]
  split_ifs with hlow
  · rfl
  · rw [show i - 5 = 0 by omega, h, BitVec.getLsbD_of_ge _ _ (by omega)]

theorem iImm_eq : Instr.iImm w = (w.extractLsb' 20 12).signExtend 32 := by
  ext i hi
  unfold Instr.iImm
  interval_cases i <;> simp [BitVec.getElem_sshiftRight, BitVec.getElem_signExtend, BitVec.msb_eq_getLsbD_last]

theorem uImm_eq : Instr.uImm w = w.extractLsb' 12 20 ++ 0#12 := by
  ext i hi
  show (Instr.bitRange w 31 12)[i] = _
  rw [Instr.getElem_bitRange hi (by omega) (by omega), ← BitVec.getLsbD_eq_getElem]
  show _ = (w.extractLsb' 12 20 ++ 0#12).getLsbD i
  rw [BitVec.getLsbD_append, BitVec.getLsbD_extractLsb']
  by_cases hlow : i < 12
  · simp [hlow, show ¬12 ≤ i by omega]
  · simp [hlow, show 12 ≤ i by omega, show i ≤ 31 by omega, show i - 12 < 20 by omega,
      show 12 + (i - 12) = i by omega]

/-- The bits of an offset in a word. -/
theorem getLsbD_append_zero {n : ℕ} (x : BitVec n) (i : ℕ) :
    (x ++ 0#1).getLsbD i = (decide (0 < i) && x.getLsbD (i - 1)) := by
  rw [BitVec.getLsbD_append]
  by_cases hi : i < 1
  · simp [hi, show ¬0 < i by omega]
  · simp [hi, show 0 < i by omega]

/-- The bits of an offset of `n + 1` bits, with its sign. -/
theorem getElem_signExtend_append_zero {n : ℕ} (hn : 0 < n) (x : BitVec n) {i : ℕ} (hi : i < 32) :
    ((x ++ 0#1).signExtend 32)[i] = (decide (0 < i) && x.getLsbD (min (i - 1) (n - 1))) := by
  rw [BitVec.getElem_signExtend]
  split_ifs with hlt
  · rw [← BitVec.getLsbD_eq_getElem, getLsbD_append_zero, Nat.min_eq_left (by omega)]
  · rw [BitVec.msb_eq_getLsbD_last, getLsbD_append_zero, Nat.min_eq_right (by omega), Nat.add_sub_cancel]
    simp [hn, show 0 < i by omega]

theorem bImm_eq : Instr.bImm w = (branchOffset (w.extractLsb' 25 7) (w.extractLsb' 7 5) ++ 0#1).signExtend 32 := by
  ext i hi
  rw [getElem_signExtend_append_zero (by omega)]
  unfold Instr.bImm
  interval_cases i <;> simp [BitVec.getElem_sshiftRight, BitVec.msb_eq_getLsbD_last, BitVec.getLsbD_eq_getElem,
    getElem_branchOffset]

theorem jImm_eq : Instr.jImm w = (jumpOffset (w.extractLsb' 12 20) ++ 0#1).signExtend 32 := by
  ext i hi
  rw [getElem_signExtend_append_zero (by omega)]
  unfold Instr.jImm
  interval_cases i <;> simp [BitVec.getElem_sshiftRight, BitVec.msb_eq_getLsbD_last, BitVec.getLsbD_eq_getElem,
    getElem_jumpOffset]

/-- **The accessors read the operands of a word of the instruction set.** -/
theorem Encoded.readFrom {e : Rvc.Expansion} (h : Encoded isa w e) : e.ReadFrom w := by
  cases h with
  | r hcode hm rd rs1 rs2 =>
    refine ⟨?_, ?_, ?_⟩
    · rw [rd_eq, rWord_eq_iWord, iWord_eq_uWord, rd_uWord]
    · rw [rs1_eq, rWord_eq_iWord, rs1_iWord]
    · rw [rs2_eq, rs2_rWord]
  | i hcode rd rs1 imm =>
    refine ⟨?_, ?_, ?_⟩
    · rw [rd_eq, iWord_eq_uWord, rd_uWord]
    · rw [rs1_eq, rs1_iWord]
    · rw [iImm_eq, imm_iWord]
  | shift hcode rd rs1 shamt =>
    refine ⟨?_, ?_, ?_⟩
    · rw [rd_eq, iWord_eq_uWord, rd_uWord]
    · rw [rs1_eq, rs1_iWord]
    · rw [shamt_eq, imm_iWord, BitVec.extractLsb'_append_eq_right]
  | shiftW hcode rd rs1 shamt =>
    refine ⟨?_, ?_, ?_⟩
    · rw [rd_eq, rWord_eq_iWord, iWord_eq_uWord, rd_uWord]
    · rw [rs1_eq, rWord_eq_iWord, rs1_iWord]
    · obtain ⟨-, -, hbit⟩ := encodingFor_of_shiftWCode hcode
      rw [shamt_eq, rWord_eq_iWord, imm_iWord, extractLsb'_append_of_getLsbD hbit]
  | b hcode rs1 rs2 imm =>
    refine ⟨?_, ?_, ?_⟩
    · rw [rs1_eq, rWord_eq_iWord, rs1_iWord]
    · rw [rs2_eq, rs2_rWord]
    · rw [bImm_eq, funct7_rWord, rWord_eq_iWord, iWord_eq_uWord, rd_uWord, branchOffset_split]
  | u hcode rd imm => exact ⟨by rw [rd_eq, rd_uWord], by rw [uImm_eq, upper_uWord]⟩
  | j rd imm => exact ⟨by rw [rd_eq, rd_uWord], by rw [jImm_eq, upper_uWord, jumpOffset_jumpField]⟩

end Accessors

/-! ### Every word that matches -/

section Fields

variable {funct7 : BitVec 7} {funct6 : BitVec 6} {funct3 : BitVec 3} {opcode : BitVec 7}

theorem uWord_of_and {upper : BitVec 20} {rd : BitVec 5} {x : BitVec 7}
    (h : uWord upper rd x &&& opcodeMask = uWord 0#20 0#5 opcode) : x = opcode := by
  rw [uWord_and_mask] at h
  have hop := congrArg (BitVec.extractLsb' 0 7) h
  rwa [opcode_uWord, opcode_uWord] at hop

/-- The fields of an encoding are determined by the word: equal words have equal immediates, functions and
opcodes. -/
theorem iWord_inj {imm imm' : BitVec 12} {rs1 rs1' rd rd' : BitVec 5} {x : BitVec 3} {y : BitVec 7}
    (h : iWord imm rs1 x rd y = iWord imm' rs1' funct3 rd' opcode) : imm = imm' ∧ x = funct3 ∧ y = opcode := by
  have himm := congrArg (BitVec.extractLsb' 20 12) h
  have hfunct3 := congrArg (BitVec.extractLsb' 12 3) h
  have hop := congrArg (BitVec.extractLsb' 0 7) h
  rw [imm_iWord, imm_iWord] at himm
  rw [funct3_iWord, funct3_iWord] at hfunct3
  rw [iWord_eq_uWord, iWord_eq_uWord, opcode_uWord, opcode_uWord] at hop
  exact ⟨himm, hfunct3, hop⟩

theorem and_funct3Mask (h : w &&& funct3Mask = iWord 0#12 0#5 funct3 0#5 opcode) :
    w.extractLsb' 12 3 = funct3 ∧ w.extractLsb' 0 7 = opcode := by
  rw [eq_iWord w, iWord_and_mask] at h
  exact (iWord_inj h).2

/-- A shift amount and the bits above it. -/
theorem upper_append_shamt (w : BitVec 32) : w.extractLsb' 26 6 ++ w.extractLsb' 20 6 = w.extractLsb' 20 12 :=
  BitVec.extractLsb'_append_extractLsb'_eq_extractLsb' rfl

theorem and_funct6Mask (h : w &&& funct6Mask = iWord (funct6 ++ 0#6) 0#5 funct3 0#5 opcode) :
    w.extractLsb' 26 6 = funct6 ∧ w.extractLsb' 12 3 = funct3 ∧ w.extractLsb' 0 7 = opcode := by
  rw [eq_iWord w, ← upper_append_shamt w, shiftWord_and_mask] at h
  obtain ⟨himm, hfunct3, hop⟩ := iWord_inj h
  have hfunct6 := congrArg (BitVec.extractLsb' 6 6) himm
  rw [BitVec.extractLsb'_append_eq_left, BitVec.extractLsb'_append_eq_left] at hfunct6
  exact ⟨hfunct6, hfunct3, hop⟩

theorem and_funct7Mask (h : w &&& funct7Mask = rWord funct7 0#5 0#5 funct3 0#5 opcode) :
    w.extractLsb' 25 7 = funct7 ∧ w.extractLsb' 12 3 = funct3 ∧ w.extractLsb' 0 7 = opcode := by
  rw [eq_rWord w, rWord_and_mask, rWord_eq_iWord, rWord_eq_iWord] at h
  obtain ⟨himm, hfunct3, hop⟩ := iWord_inj h
  have hfunct7 := congrArg (BitVec.extractLsb' 5 7) himm
  rw [BitVec.extractLsb'_append_eq_left, BitVec.extractLsb'_append_eq_left] at hfunct7
  exact ⟨hfunct7, hfunct3, hop⟩

/-- Each format is the one of the words that its mask and encoding select. -/
theorem encoded_r (hcode : rCode o = some (funct7, funct3, opcode)) (henc : o.Encodes .rv64 isa w) :
    Encoded isa w (.r o (w.extractLsb' 7 5) (w.extractLsb' 15 5) (w.extractLsb' 20 5)) := by
  obtain ⟨htable, -⟩ := encodingFor_of_rCode hcode
  obtain ⟨hmask, hext⟩ := henc
  rw [htable] at hmask
  obtain ⟨h7, h3, hop⟩ := and_funct7Mask hmask
  have hm : funct7 = 1 → isa.supports IsaConfig.m := fun hone => hext _ (extension_of_rCode hcode hone)
  have henc := Encoded.r hcode hm (w.extractLsb' 7 5) (w.extractLsb' 15 5) (w.extractLsb' 20 5)
  rwa [← h7, ← h3, ← hop, ← eq_rWord w] at henc

theorem encoded_i (hcode : iCode o = some (funct3, opcode)) (henc : o.Encodes .rv64 isa w) :
    Encoded isa w (.i o (w.extractLsb' 7 5) (w.extractLsb' 15 5) ((w.extractLsb' 20 12).signExtend 32)) := by
  have hmask := henc.1
  rw [(encodingFor_of_iCode hcode).1] at hmask
  obtain ⟨h3, hop⟩ := and_funct3Mask hmask
  have henc : Encoded isa _ _ :=
    Encoded.i hcode (w.extractLsb' 7 5) (w.extractLsb' 15 5) (w.extractLsb' 20 12)
  rwa [← h3, ← hop, ← eq_iWord w] at henc

theorem encoded_shift (hcode : shiftCode o = some (funct6, funct3)) (henc : o.Encodes .rv64 isa w) :
    Encoded isa w (.shift o (w.extractLsb' 7 5) (w.extractLsb' 15 5) (w.extractLsb' 20 6)) := by
  have hmask := henc.1
  rw [(encodingFor_of_shiftCode hcode).1] at hmask
  obtain ⟨h6, h3, hop⟩ := and_funct6Mask hmask
  have henc : Encoded isa _ _ :=
    Encoded.shift hcode (w.extractLsb' 7 5) (w.extractLsb' 15 5) (w.extractLsb' 20 6)
  rwa [← h6, ← h3, ← hop, upper_append_shamt, ← eq_iWord w] at henc

theorem encoded_shiftW (hcode : shiftWCode o = some (funct7, funct3)) (henc : o.Encodes .rv64 isa w) :
    Encoded isa w
      (.shift o (w.extractLsb' 7 5) (w.extractLsb' 15 5) ((w.extractLsb' 20 5).setWidth 6)) := by
  have hmask := henc.1
  rw [(encodingFor_of_shiftWCode hcode).1] at hmask
  obtain ⟨h7, h3, hop⟩ := and_funct7Mask hmask
  have henc : Encoded isa _ _ :=
    Encoded.shiftW hcode (w.extractLsb' 7 5) (w.extractLsb' 15 5) (w.extractLsb' 20 5)
  rwa [← h7, ← h3, ← hop, ← eq_rWord w] at henc

theorem encoded_b (hcode : branchCode o = some funct3) (henc : o.Encodes .rv64 isa w) :
    Encoded isa w (.b o (w.extractLsb' 15 5) (w.extractLsb' 20 5)
      ((branchOffset (w.extractLsb' 25 7) (w.extractLsb' 7 5) ++ 0#1).signExtend 32)) := by
  have hmask := henc.1
  rw [(encodingFor_of_branchCode hcode).1] at hmask
  obtain ⟨h3, hop⟩ := and_funct3Mask hmask
  have henc : Encoded isa _ _ := Encoded.b hcode (w.extractLsb' 15 5) (w.extractLsb' 20 5)
    (branchOffset (w.extractLsb' 25 7) (w.extractLsb' 7 5))
  rwa [branchHigh_branchOffset, branchLow_branchOffset, ← h3, ← hop, ← eq_rWord w] at henc

theorem encoded_u (hcode : upperCode o = some opcode) (henc : o.Encodes .rv64 isa w) :
    Encoded isa w (.u o (w.extractLsb' 7 5) (w.extractLsb' 12 20 ++ 0#12)) := by
  have hmask := henc.1
  rw [(encodingFor_of_upperCode hcode).1, eq_uWord w] at hmask
  have hop := uWord_of_and hmask
  have henc : Encoded isa _ _ := Encoded.u hcode (w.extractLsb' 7 5) (w.extractLsb' 12 20)
  rwa [← hop, ← eq_uWord w] at henc

theorem encoded_j (henc : Operation.jal.Encodes .rv64 isa w) :
    Encoded isa w (.j .jal (w.extractLsb' 7 5) ((jumpOffset (w.extractLsb' 12 20) ++ 0#1).signExtend 32)) := by
  have hmask : w &&& opcodeMask = uWord 0#20 0#5 0b1101111 := henc.1
  rw [eq_uWord w] at hmask
  have hop := uWord_of_and hmask
  have henc : Encoded isa _ _ := Encoded.j (w.extractLsb' 7 5) (jumpOffset (w.extractLsb' 12 20))
  rwa [jumpField_jumpOffset, ← hop, ← eq_uWord w] at henc

end Fields

end RiscvVp.Rv64im
