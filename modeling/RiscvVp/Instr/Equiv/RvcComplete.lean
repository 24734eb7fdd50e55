import RiscvVp.Instr.Equiv.Rvc

/-!
# What is not a compressed instruction

Every half word carries the fields of some instruction, so the decoder either meets an instruction that it
accepts, or a hint of `C.ADD`, or it refuses the word.  Against the legal instructions this makes two
differences: the hints of `C.ADD` with the destination `x0` are taken for `C.EBREAK`, and the words of `C.SUBW`
and `C.ADDW`, which are reserved on RV32, are expanded there all the same.
-/

namespace RiscvVp.Rvc

open Instr

variable {arch : Architecture} {isa : IsaConfig} (hi : BitVec 16)

/-! ### Every half word is the encoding of some operands -/

/-- The bits of `b` at the positions, lowest first. -/
def pick {m n : ℕ} (b : BitVec m) (positions : List ℕ) : BitVec n :=
  BitVec.ofFnLE fun i => b.getLsbD (positions.getD i 0)

theorem getLsbD_pick {m n : ℕ} (b : BitVec m) (positions : List ℕ) {i : ℕ} (h : i < n) :
    (pick b positions : BitVec n).getLsbD i = b.getLsbD (positions.getD i 0) := by
  rw [pick, BitVec.getLsbD_ofFnLE]
  simp [h]

theorem getElem_pick {m n : ℕ} (b : BitVec m) (positions : List ℕ) {i : ℕ} (h : i < n) :
    (pick b positions : BitVec n)[i] = b.getLsbD (positions.getD i 0) := by
  rw [← BitVec.getLsbD_eq_getElem, getLsbD_pick b positions h]

section Surjective

variable (b : BitVec 11)

theorem exists_addi4spnBits : ∃ rd u, b = addi4spnBits rd u := by
  refine ⟨b.extractLsb' 0 3, pick b [4, 3, 9, 10, 5, 6, 7, 8], ?_⟩
  ext i hlt
  interval_cases i <;> simp [getElem_addi4spnBits, getElem_pick]

theorem exists_wordBits : ∃ rs1 r u, b = wordBits rs1 r u := by
  refine ⟨b.extractLsb' 5 3, b.extractLsb' 0 3, pick b [4, 8, 9, 10, 3], ?_⟩
  ext i hlt
  interval_cases i <;> simp [getElem_wordBits, getElem_pick]

theorem exists_doubleBits : ∃ rs1 r u, b = doubleBits rs1 r u := by
  refine ⟨b.extractLsb' 5 3, b.extractLsb' 0 3, pick b [8, 9, 10, 3, 4], ?_⟩
  ext i hlt
  interval_cases i <;> simp [getElem_doubleBits, getElem_pick]

theorem exists_immBits : ∃ rd u, b = immBits rd u := by
  refine ⟨b.extractLsb' 5 5, pick b [0, 1, 2, 3, 4, 10], ?_⟩
  ext i hlt
  interval_cases i <;> simp [getElem_immBits, getElem_pick]

theorem exists_jumpBits : ∃ u, b = jumpBits u := by
  refine ⟨pick b [1, 2, 3, 9, 0, 5, 4, 7, 8, 6, 10], ?_⟩
  ext i hlt
  interval_cases i <;> simp [getElem_jumpBits, getElem_pick]

theorem exists_addi16spBits (h : b.extractLsb' 5 5 = 2#5) : ∃ u, b = addi16spBits u := by
  refine ⟨pick b [4, 0, 3, 1, 2, 10], ?_⟩
  have hbit : ∀ i < 5, b.getLsbD (5 + i) = (2#5).getLsbD i := by
    intro i hlt
    rw [← h, BitVec.getLsbD_extractLsb']
    simp [hlt]
  have h0 := hbit 0
  have h1 := hbit 1
  have h2 := hbit 2
  have h3 := hbit 3
  have h4 := hbit 4
  ext i hlt
  interval_cases i <;> simp_all [getElem_addi16spBits, getElem_pick]

theorem exists_smallImmBits : ∃ rd u, b = smallImmBits (b.extractLsb' 8 2) rd u := by
  refine ⟨b.extractLsb' 5 3, pick b [0, 1, 2, 3, 4, 10], ?_⟩
  ext i hlt
  interval_cases i <;> simp [getElem_smallImmBits, getElem_pick]

theorem exists_aluBits (h : b.extractLsb' 8 2 = 0b11#2) :
    ∃ rd rs2, b = aluBits (b.extractLsb' 10 1) rd (b.extractLsb' 3 2) rs2 := by
  refine ⟨b.extractLsb' 5 3, b.extractLsb' 0 3, ?_⟩
  have hbit : ∀ i < 2, b.getLsbD (8 + i) = (0b11#2).getLsbD i := by
    intro i hlt
    rw [← h, BitVec.getLsbD_extractLsb']
    simp [hlt]
  have h0 := hbit 0
  have h1 := hbit 1
  ext i hlt
  interval_cases i <;> simp_all [getElem_aluBits]

theorem exists_branchBits : ∃ rs1 u, b = branchBits rs1 u := by
  refine ⟨b.extractLsb' 5 3, pick b [1, 2, 8, 9, 0, 3, 4, 10], ?_⟩
  ext i hlt
  interval_cases i <;> simp [getElem_branchBits, getElem_pick]

theorem exists_loadWordSpBits : ∃ rd u, b = loadWordSpBits rd u := by
  refine ⟨b.extractLsb' 5 5, pick b [2, 3, 4, 10, 0, 1], ?_⟩
  ext i hlt
  interval_cases i <;> simp [getElem_loadWordSpBits, getElem_pick]

theorem exists_loadDoubleSpBits : ∃ rd u, b = loadDoubleSpBits rd u := by
  refine ⟨b.extractLsb' 5 5, pick b [3, 4, 10, 0, 1, 2], ?_⟩
  ext i hlt
  interval_cases i <;> simp [getElem_loadDoubleSpBits, getElem_pick]

theorem exists_storeWordSpBits : ∃ rs2 u, b = storeWordSpBits rs2 u := by
  refine ⟨b.extractLsb' 0 5, pick b [7, 8, 9, 10, 5, 6], ?_⟩
  ext i hlt
  interval_cases i <;> simp [getElem_storeWordSpBits, getElem_pick]

theorem exists_storeDoubleSpBits : ∃ rs2 u, b = storeDoubleSpBits rs2 u := by
  refine ⟨b.extractLsb' 0 5, pick b [8, 9, 10, 5, 6, 7], ?_⟩
  ext i hlt
  interval_cases i <;> simp [getElem_storeDoubleSpBits, getElem_pick]

theorem exists_moveBits : ∃ rd rs2, b = moveBits (b.extractLsb' 10 1) rd rs2 := by
  refine ⟨b.extractLsb' 5 5, b.extractLsb' 0 5, ?_⟩
  ext i hlt
  interval_cases i <;> simp [getElem_moveBits]

end Surjective

theorem exists_word (instr : Instr) : ∃ hi f3 b q, instr = word hi (half f3 b q) := by
  refine ⟨instr.extractLsb' 16 16, instr.extractLsb' 13 3, instr.extractLsb' 2 11,
    instr.extractLsb' 0 2, ?_⟩
  ext i hlt
  interval_cases i <;> simp [getElem_word, getElem_half]

theorem setWidth_word (c : BitVec 16) : (word hi c).setWidth 16 = c := by
  ext i hlt
  rw [BitVec.getElem_setWidth, BitVec.getLsbD_eq_getElem (by omega), getElem_word hi c i (by omega),
    if_pos hlt, BitVec.getLsbD_eq_getElem hlt]

/-! ### What the decoder refuses -/

/-- The decoder finds no instruction: the operation is `UNDEF`, whatever the word it comes with. -/
def Refused (arch : Architecture) (isa : IsaConfig) (instr : Instr) : Prop :=
  ∃ w, instr.decodeAndExpandCompressed arch isa = some (w, .undef)

theorem decodeAndExpandCompressed_eq (hc : isa.supports IsaConfig.c) {instr : Instr} {cOp : COpId}
    (hdec : instr.decodeCompressed arch = some cOp) :
    instr.decodeAndExpandCompressed arch isa = some (instr.expandCompressed cOp arch isa) := by
  rw [decodeAndExpandCompressed, if_pos hc, hdec]
  rfl

theorem Refused.of_decode {instr : Instr} (cOp : COpId) (hc : isa.supports IsaConfig.c)
    (hdec : instr.decodeCompressed arch = some cOp)
    (hexp : instr.expandCompressed cOp arch isa = (instr, .undef)) : Refused arch isa instr :=
  ⟨instr, by rw [decodeAndExpandCompressed_eq hc hdec, hexp]⟩

/-- The half word is an accepted instruction, or a hint that is taken for a breakpoint, or refused. -/
def Classified (arch : Architecture) (isa : IsaConfig) (hi c : BitVec 16) : Prop :=
  (∃ r : Rvc, r.Accepted arch ∧ c = r.encode) ∨ (∃ r : Rvc, r.IsAddHint ∧ c = r.encode) ∨
    Refused arch isa (word hi c)

theorem Classified.of_accepted (r : Rvc) (h : r.Accepted arch) : Classified arch isa hi r.encode :=
  Or.inl ⟨r, h, rfl⟩

theorem Classified.of_refused {c : BitVec 16} (h : Refused arch isa (word hi c)) :
    Classified arch isa hi c :=
  Or.inr (Or.inr h)

/-- A shift amount that the architecture does not allow. -/
theorem refused_shamt {u : BitVec 6} (h : ¬(arch = .rv32 → u < 32)) :
    arch = .rv32 ∧ u.setWidth 32 > 31 := by
  rw [Classical.not_imp] at h
  refine ⟨h.1, ?_⟩
  have hle := h.2
  rw [BitVec.lt_def] at hle
  rw [gt_iff_lt, BitVec.lt_def, BitVec.toNat_setWidth_of_le (by omega)]
  simp at hle ⊢
  omega

variable (hc : isa.supports IsaConfig.c)

include hc

theorem classified_quadrant0 (f3 : BitVec 3) (b : BitVec 11) : Classified arch isa hi (half f3 b 0) := by
  have hf3 : f3 = 0 ∨ f3 = 1 ∨ f3 = 2 ∨ f3 = 3 ∨ f3 = 4 ∨ f3 = 5 ∨ f3 = 6 ∨ f3 = 7 := by
    revert f3
    decide
  rcases hf3 with rfl | rfl | rfl | rfl | rfl | rfl | rfl | rfl
  · obtain ⟨rd, u, rfl⟩ := exists_addi4spnBits b
    by_cases hu : u = 0
    · refine Classified.of_refused hi ?_
      by_cases hformat : (word hi (half 0 (addi4spnBits rd u) 0)).cFormat = 0
      · refine Refused.of_decode .cIllegal hc ?_ rfl
        rw [decodeCompressed_quadrant0, decodeQuadrant0, cOpcode_word]
        exact congrArg some (if_pos hformat)
      · refine Refused.of_decode .cAddi4spn hc ?_ ?_
        · rw [decodeCompressed_quadrant0, decodeQuadrant0, cOpcode_word]
          exact congrArg some (if_neg hformat)
        · rw [expandCompressed, cAddi4spnNzuimm_word, if_pos ((shiftLeft_eq_zero_iff u).2 hu)]
    · exact Classified.of_accepted hi (.addi4spn rd u) hu
  · obtain ⟨rs1, r, u, rfl⟩ := exists_doubleBits b
    exact Classified.of_accepted hi (.fld r rs1 u) trivial
  · obtain ⟨rs1, r, u, rfl⟩ := exists_wordBits b
    exact Classified.of_accepted hi (.lw r rs1 u) trivial
  · cases arch with
    | rv32 =>
      obtain ⟨rs1, r, u, rfl⟩ := exists_wordBits b
      exact Classified.of_accepted hi (.flw r rs1 u) rfl
    | rv64 =>
      obtain ⟨rs1, r, u, rfl⟩ := exists_doubleBits b
      exact Classified.of_accepted hi (.ld r rs1 u) rfl
  · refine Classified.of_refused hi (Refused.of_decode .cReserved hc ?_ rfl)
    rw [decodeCompressed_quadrant0, decodeQuadrant0, cOpcode_word]
    rfl
  · obtain ⟨rs1, r, u, rfl⟩ := exists_doubleBits b
    exact Classified.of_accepted hi (.fsd rs1 r u) trivial
  · obtain ⟨rs1, r, u, rfl⟩ := exists_wordBits b
    exact Classified.of_accepted hi (.sw rs1 r u) trivial
  · cases arch with
    | rv32 =>
      obtain ⟨rs1, r, u, rfl⟩ := exists_wordBits b
      exact Classified.of_accepted hi (.fsw rs1 r u) rfl
    | rv64 =>
      obtain ⟨rs1, r, u, rfl⟩ := exists_doubleBits b
      exact Classified.of_accepted hi (.sd rs1 r u) rfl

theorem classified_miscAlu (b : BitVec 11) : Classified arch isa hi (half 0b100 b 1) := by
  have hf2 : ∀ x : BitVec 2, x = 0 ∨ x = 1 ∨ x = 2 ∨ x = 3 := by decide
  have hdecode : (word hi (half 0b100 b 1)).decodeCompressed arch =
      some (word hi (half 0b100 b 1)).decodeMiscAlu := by
    rw [decodeCompressed_quadrant1, decodeQuadrant1, cOpcode_word]
    rfl
  rcases hf2 (b.extractLsb' 8 2) with hhigh | hhigh | hhigh | hhigh
  · obtain ⟨rd, u, hb⟩ := exists_smallImmBits b
    rw [hhigh] at hb
    subst hb
    by_cases hu : arch = .rv32 → u < 32
    · exact Classified.of_accepted hi (.srli rd u) hu
    · refine Classified.of_refused hi (Refused.of_decode .cSrli hc ?_ ?_)
      · rw [hdecode, decodeMiscAlu, cF2High_word, funct2_smallImmBits]
        rfl
      · rw [expandCompressed, cUimm_word hi _ _ _ u (low_smallImmBits _ rd u) (high_smallImmBits _ rd u),
          if_pos (refused_shamt hu)]
  · obtain ⟨rd, u, hb⟩ := exists_smallImmBits b
    rw [hhigh] at hb
    subst hb
    by_cases hu : arch = .rv32 → u < 32
    · exact Classified.of_accepted hi (.srai rd u) hu
    · refine Classified.of_refused hi (Refused.of_decode .cSrai hc ?_ ?_)
      · rw [hdecode, decodeMiscAlu, cF2High_word, funct2_smallImmBits]
        rfl
      · rw [expandCompressed, cUimm_word hi _ _ _ u (low_smallImmBits _ rd u) (high_smallImmBits _ rd u),
          if_pos (refused_shamt hu)]
  · obtain ⟨rd, u, hb⟩ := exists_smallImmBits b
    rw [hhigh] at hb
    subst hb
    exact Classified.of_accepted hi (.andi rd u) trivial
  · obtain ⟨rd, rs2, hb⟩ := exists_aluBits b hhigh
    have hwide : ∀ x : BitVec 1, x = 0 ∨ x = 1 := by decide
    rcases hwide (b.extractLsb' 10 1) with hw | hw <;> rcases hf2 (b.extractLsb' 3 2) with h | h | h | h <;>
      rw [hw, h] at hb
    · exact Or.inl ⟨.sub rd rs2, trivial, by rw [hb]; rfl⟩
    · exact Or.inl ⟨.xor rd rs2, trivial, by rw [hb]; rfl⟩
    · exact Or.inl ⟨.or rd rs2, trivial, by rw [hb]; rfl⟩
    · exact Or.inl ⟨.and rd rs2, trivial, by rw [hb]; rfl⟩
    · exact Or.inl ⟨.subw rd rs2, trivial, by rw [hb]; rfl⟩
    · exact Or.inl ⟨.addw rd rs2, trivial, by rw [hb]; rfl⟩
    all_goals
      refine Classified.of_refused hi (Refused.of_decode .cReserved hc ?_ rfl)
      rw [hdecode, decodeMiscAlu, cF2High_word, hhigh, cB12_word, hw, cF2Low_word, h]
      rfl

theorem classified_quadrant1 (f3 : BitVec 3) (b : BitVec 11) : Classified arch isa hi (half f3 b 1) := by
  -- one case for each value of `funct3`, in this order
  have hf3 : f3 = 0 ∨ f3 = 1 ∨ f3 = 2 ∨ f3 = 3 ∨ f3 = 4 ∨ f3 = 5 ∨ f3 = 6 ∨ f3 = 7 := by
    revert f3
    decide
  rcases hf3 with rfl | rfl | rfl | rfl | rfl | rfl | rfl | rfl
  · obtain ⟨rd, u, rfl⟩ := exists_immBits b
    by_cases hnop : rd = 0 ∧ u = 0
    · rw [hnop.1, hnop.2]
      exact Classified.of_accepted hi .nop trivial
    · exact Classified.of_accepted hi (.addi rd u) hnop
  · cases arch with
    | rv32 =>
      obtain ⟨u, rfl⟩ := exists_jumpBits b
      exact Classified.of_accepted hi (.jal u) rfl
    | rv64 =>
      obtain ⟨rd, u, rfl⟩ := exists_immBits b
      by_cases hrd : rd = 0
      · refine Classified.of_refused hi (Refused.of_decode .cAddiw hc ?_ ?_)
        · rw [decodeCompressed_quadrant1, decodeQuadrant1, cOpcode_word]
          rfl
        · rw [expandCompressed, cRd_word, rd_immBits, if_pos ((setWidth_eq_zero_iff (by omega) rd).2 hrd)]
      · exact Classified.of_accepted hi (.addiw rd u) ⟨rfl, hrd⟩
  · obtain ⟨rd, u, rfl⟩ := exists_immBits b
    exact Classified.of_accepted hi (.li rd u) trivial
  · -- C.ADDI16SP and C.LUI share `funct3` and differ in the destination
    by_cases hsp : b.extractLsb' 5 5 = 2#5
    · obtain ⟨u, rfl⟩ := exists_addi16spBits b hsp
      by_cases hu : u = 0
      · refine Classified.of_refused hi (Refused.of_decode .cAddi16sp hc ?_ ?_)
        · rw [decodeCompressed_quadrant1, decodeQuadrant1, cOpcode_word, cRd_word, hsp]
          rfl
        · rw [expandCompressed, cAddi16spNzimm_word,
            if_pos ((signExtend_shiftLeft_eq_zero_iff (by omega) u).2 hu)]
      · exact Classified.of_accepted hi (.addi16sp u) hu
    · obtain ⟨rd, u, rfl⟩ := exists_immBits b
      rw [rd_immBits] at hsp
      by_cases hu : u = 0
      · have hne : rd.setWidth 32 ≠ 2 := fun h => hsp ((setWidth_eq_iff (by omega) rd 2).1 h)
        refine Classified.of_refused hi (Refused.of_decode .cLui hc ?_ ?_)
        · rw [decodeCompressed_quadrant1, decodeQuadrant1, cOpcode_word, cRd_word, rd_immBits, if_neg hne]
          rfl
        · rw [expandCompressed, cLuiNzimm_word,
            if_pos ((signExtend_shiftLeft_eq_zero_iff (by omega) u).2 hu)]
      · exact Classified.of_accepted hi (.lui rd u) ⟨hsp, hu⟩
  · exact classified_miscAlu hi hc b
  · obtain ⟨u, rfl⟩ := exists_jumpBits b
    exact Classified.of_accepted hi (.j u) trivial
  · obtain ⟨rs1, u, rfl⟩ := exists_branchBits b
    exact Classified.of_accepted hi (.beqz rs1 u) trivial
  · obtain ⟨rs1, u, rfl⟩ := exists_branchBits b
    exact Classified.of_accepted hi (.bnez rs1 u) trivial

theorem classified_jumpMove (b : BitVec 11) : Classified arch isa hi (half 0b100 b 2) := by
  have hlink : ∀ x : BitVec 1, x = 0 ∨ x = 1 := by decide
  obtain ⟨rd, rs2, hb⟩ := exists_moveBits b
  rcases hlink (b.extractLsb' 10 1) with h | h <;> rw [h] at hb <;> subst hb
  · by_cases hrs2 : rs2 = 0
    · rw [hrs2]
      by_cases hrd : rd = 0
      · refine Classified.of_refused hi (Refused.of_decode .cJr hc ?_ ?_)
        · rw [decodeCompressed_quadrant2, decodeQuadrant2, cOpcode_word]
          show some (decodeJumpMove _) = _
          rw [decodeJumpMove, cB12_word, cRs2_word, link_moveBits, rs2_moveBits]
          rfl
        · rw [expandCompressed, cRd_word, rd_moveBits, if_pos ((setWidth_eq_zero_iff (by omega) rd).2 hrd)]
      · exact Classified.of_accepted hi (.jr rd) hrd
    · exact Classified.of_accepted hi (.mv rd rs2) hrs2
  · by_cases hrd : rd = 0 <;> by_cases hrs2 : rs2 = 0
    · rw [hrd, hrs2]
      exact Classified.of_accepted hi .ebreak trivial
    · rw [hrd]
      exact Or.inr (Or.inl ⟨.add 0 rs2, ⟨rs2, hrs2, rfl⟩, rfl⟩)
    · rw [hrs2]
      exact Classified.of_accepted hi (.jalr rd) hrd
    · exact Classified.of_accepted hi (.add rd rs2) ⟨hrd, hrs2⟩

theorem classified_quadrant2 (f3 : BitVec 3) (b : BitVec 11) : Classified arch isa hi (half f3 b 2) := by
  have hf3 : f3 = 0 ∨ f3 = 1 ∨ f3 = 2 ∨ f3 = 3 ∨ f3 = 4 ∨ f3 = 5 ∨ f3 = 6 ∨ f3 = 7 := by
    revert f3
    decide
  rcases hf3 with rfl | rfl | rfl | rfl | rfl | rfl | rfl | rfl
  · obtain ⟨rd, u, rfl⟩ := exists_immBits b
    by_cases hu : arch = .rv32 → u < 32
    · exact Classified.of_accepted hi (.slli rd u) hu
    · refine Classified.of_refused hi (Refused.of_decode .cSlli hc ?_ ?_)
      · rw [decodeCompressed_quadrant2, decodeQuadrant2, cOpcode_word]
        rfl
      · rw [expandCompressed, cUimm_word hi _ _ _ u (low_immBits rd u) (high_immBits rd u),
          if_pos (refused_shamt hu)]
  · obtain ⟨rd, u, rfl⟩ := exists_loadDoubleSpBits b
    exact Classified.of_accepted hi (.fldsp rd u) trivial
  · obtain ⟨rd, u, rfl⟩ := exists_loadWordSpBits b
    by_cases hrd : rd = 0
    · refine Classified.of_refused hi (Refused.of_decode .cLwsp hc ?_ ?_)
      · rw [decodeCompressed_quadrant2, decodeQuadrant2, cOpcode_word]
        rfl
      · rw [expandCompressed, cRd_word, rd_loadWordSpBits,
          if_pos ((setWidth_eq_zero_iff (by omega) rd).2 hrd)]
    · exact Classified.of_accepted hi (.lwsp rd u) hrd
  · cases arch with
    | rv32 =>
      obtain ⟨rd, u, rfl⟩ := exists_loadWordSpBits b
      exact Classified.of_accepted hi (.flwsp rd u) rfl
    | rv64 =>
      obtain ⟨rd, u, rfl⟩ := exists_loadDoubleSpBits b
      by_cases hrd : rd = 0
      · refine Classified.of_refused hi (Refused.of_decode .cLdsp hc ?_ ?_)
        · rw [decodeCompressed_quadrant2, decodeQuadrant2, cOpcode_word]
          rfl
        · rw [expandCompressed, cRd_word, rd_loadDoubleSpBits,
            if_pos ((setWidth_eq_zero_iff (by omega) rd).2 hrd)]
      · exact Classified.of_accepted hi (.ldsp rd u) ⟨rfl, hrd⟩
  · exact classified_jumpMove hi hc b
  · obtain ⟨rs2, u, rfl⟩ := exists_storeDoubleSpBits b
    exact Classified.of_accepted hi (.fsdsp rs2 u) trivial
  · obtain ⟨rs2, u, rfl⟩ := exists_storeWordSpBits b
    exact Classified.of_accepted hi (.swsp rs2 u) trivial
  · cases arch with
    | rv32 =>
      obtain ⟨rs2, u, rfl⟩ := exists_storeWordSpBits b
      exact Classified.of_accepted hi (.fswsp rs2 u) rfl
    | rv64 =>
      obtain ⟨rs2, u, rfl⟩ := exists_storeDoubleSpBits b
      exact Classified.of_accepted hi (.sdsp rs2 u) rfl

theorem classified {f3 : BitVec 3} {b : BitVec 11} {q : BitVec 2}
    (hq : (word hi (half f3 b q)).quadrant ≠ 3) : Classified arch isa hi (half f3 b q) := by
  have hcases : ∀ x : BitVec 2, x = 0 ∨ x = 1 ∨ x = 2 ∨ x = 3 := by decide
  rcases hcases q with rfl | rfl | rfl | rfl
  · exact classified_quadrant0 hi hc f3 b
  · exact classified_quadrant1 hi hc f3 b
  · exact classified_quadrant2 hi hc f3 b
  · rw [quadrant_word] at hq
    exact absurd rfl hq

/-- The decoder takes the hint for a breakpoint. -/
theorem decode_addHint {r : Rvc} (h : r.IsAddHint) :
    (word hi r.encode).decodeAndExpandCompressed arch isa =
      some (InstructionFactory.ebreak, .op .ebreak) := by
  obtain ⟨rs2, -, rfl⟩ := h
  have hdec : (word hi (encode (add 0 rs2))).decodeCompressed arch = some .cEbreak := by
    rw [encode, decodeCompressed_quadrant2, decodeQuadrant2, cOpcode_word]
    show some (decodeJumpMove _) = _
    rw [decodeJumpMove, cB12_word, cRd_word, link_moveBits, rd_moveBits]
    rfl
  rw [decodeAndExpandCompressed_eq hc hdec]
  rfl

theorem not_refused_of_isAddHint {r : Rvc} (h : r.IsAddHint) : ¬Refused arch isa (word hi r.encode) := by
  rintro ⟨w, hw⟩
  rw [decode_addHint hi hc h] at hw
  cases hw

omit hc in
theorem IsAddHint.legal {r : Rvc} (h : r.IsAddHint) : r.Legal arch := by
  obtain ⟨rs2, hrs2, rfl⟩ := h
  exact hrs2

omit hc in
theorem IsWordAlu.accepted {r : Rvc} (h : r.IsWordAlu) : r.Accepted arch := by
  obtain ⟨rd, rs2, rfl | rfl⟩ := h
  · trivial
  · trivial

omit hc in
/-- The two operations belong to the base set. -/
theorem IsWordAlu.supports {r : Rvc} (h : r.IsWordAlu) :
    ∀ ext, r.expansion.op.extension = some ext → isa.supports ext := by
  obtain ⟨rd, rs2, rfl | rfl⟩ := h
  · exact supports_of_none rfl
  · exact supports_of_none rfl

omit hc in
/-- Without its extension, an instruction on floating-point registers is not supported. -/
theorem expandCompressed_of_not_supports (r : Rvc)
    (hext : ¬∀ ext, r.expansion.op.extension = some ext → isa.supports ext) :
    ((word hi r.encode).expandCompressed r.opId arch isa).2 = .unsup := by
  have hneg : ∀ {ext}, r.expansion.op.extension = some ext → ¬isa.supports ext = true :=
    fun hsome hsup => hext (supports_of_some hsome hsup)
  cases r with
  | fld | flw | fsd | fsw | fldsp | flwsp | fsdsp | fswsp =>
    rw [opId, expandCompressed, if_neg (hneg rfl)]
  | _ => exact absurd (supports_of_none rfl) hext

omit hc in
theorem result_ne_undef (o : Operation) (instr : Instr) : o.result instr ≠ .undef := by
  rw [Operation.result]
  split_ifs <;> (intro h; cases h)

/-- The operation of an accepted instruction is found, or its extension is not enabled. -/
theorem not_refused_of_accepted {r : Rvc} (h : r.Accepted arch) : ¬Refused arch isa (word hi r.encode) := by
  rintro ⟨w, hw⟩
  rw [decodeAndExpandCompressed_eq hc (decodeCompressed_encode hi r h)] at hw
  have hundef : ((word hi r.encode).expandCompressed r.opId arch isa).2 = .undef := by
    rw [Option.some.inj hw]
  by_cases hext : ∀ ext, r.expansion.op.extension = some ext → isa.supports ext
  · obtain ⟨w', hw', -⟩ := expandCompressed_encode hi r h hext
    rw [hw'] at hundef
    exact result_ne_undef _ _ hundef
  · rw [expandCompressed_of_not_supports hi r hext] at hundef
    cases hundef

omit hc

/-! ### Headlines -/

/-- **Every compressed instruction that the decoder accepts is expanded to the instruction it stands for.**
These are the legal instructions other than the hints of `C.ADD` with the destination `x0` (`accepted_iff`).  For
both architectures, whatever is in the upper half of the word: if the extensions of the instruction are enabled,
the decoder returns its operation with a word from which the accessors read its operands. -/
theorem decodeAndExpandCompressed_encode (arch : Architecture) (isa : IsaConfig) (hi : BitVec 16) (r : Rvc)
    (hc : isa.supports IsaConfig.c) (hlegal : r.Accepted arch)
    (hext : ∀ ext, r.expansion.op.extension = some ext → isa.supports ext) :
    ∃ w, (word hi r.encode).decodeAndExpandCompressed arch isa = some (w, r.expansion.op.result w) ∧
      r.expansion.ReadFrom w := by
  obtain ⟨w, hw, hread⟩ := expandCompressed_encode hi r hlegal hext
  refine ⟨w, ?_, hread⟩
  rw [decodeAndExpandCompressed_eq hc (decodeCompressed_encode hi r hlegal), hw]

/-- A jump back by 2048 bytes. -/
theorem decodeAndExpandCompressed_encode_jump :
    ∃ w, (word 0 (encode (.j 0x400))).decodeAndExpandCompressed .rv64 ⟨IsaConfig.c⟩ =
      some (w, Operation.jal.result w) ∧ (Expansion.j .jal 0 0xFFFFF800).ReadFrom w :=
  decodeAndExpandCompressed_encode .rv64 ⟨IsaConfig.c⟩ 0 (.j 0x400) (by decide) trivial nofun

/-- **Only reserved words are refused, but not all of them, and one row of hints is taken for a breakpoint.**
With the C extension enabled, a compressed word is undefined exactly if its lower half encodes no legal
instruction and, on RV32, is no word of `C.SUBW` or `C.ADDW` either: those two are reserved there and yet expanded
to `SUBW` and `ADDW`.  A legal `C.ADD` with the destination `x0`, which should do nothing, runs as `C.EBREAK`. -/
theorem decodeAndExpandCompressed_undef_iff (arch : Architecture) (isa : IsaConfig) (instr : Instr)
    (hc : isa.supports IsaConfig.c) (hquadrant : instr.quadrant ≠ 3) :
    (Refused arch isa instr ↔
        (∀ r : Rvc, r.Legal arch → instr.setWidth 16 ≠ r.encode) ∧
          ¬(arch = .rv32 ∧ ∃ r : Rvc, r.IsWordAlu ∧ instr.setWidth 16 = r.encode)) ∧
      (∀ r : Rvc, r.IsWordAlu → instr.setWidth 16 = r.encode →
        ∃ w, instr.decodeAndExpandCompressed arch isa = some (w, r.expansion.op.result w) ∧
          r.expansion.ReadFrom w) ∧
      (∀ r : Rvc, r.IsAddHint → instr.setWidth 16 = r.encode → r.Legal arch ∧
        instr.decodeAndExpandCompressed arch isa = some (InstructionFactory.ebreak, .op .ebreak)) := by
  obtain ⟨hi, f3, b, q, rfl⟩ := exists_word instr
  rw [setWidth_word]
  refine ⟨⟨?_, ?_⟩, ?_, ?_⟩
  · intro hrefused
    constructor
    · intro r hlegal henc
      rw [henc] at hrefused
      by_cases hhint : r.IsAddHint
      · exact not_refused_of_isAddHint hi hc hhint hrefused
      · exact not_refused_of_accepted hi hc (hlegal.accepted hhint) hrefused
    · rintro ⟨-, r, hword, henc⟩
      rw [henc] at hrefused
      exact not_refused_of_accepted hi hc hword.accepted hrefused
  · rintro ⟨hlegal, hword⟩
    -- the half word is accepted, a hint or refused, and the first two are excluded
    rcases classified hi hc hquadrant with ⟨r, hr, henc⟩ | ⟨r, hhint, henc⟩ | hrefused
    · rcases (accepted_iff r).1 hr with ⟨hr, -⟩ | ⟨harch, hr⟩
      · exact absurd henc (hlegal r hr)
      · exact absurd ⟨harch, r, hr, henc⟩ hword
    · exact absurd henc (hlegal r hhint.legal)
    · exact hrefused
  · intro r hword henc
    rw [henc]
    exact decodeAndExpandCompressed_encode arch isa hi r hc hword.accepted hword.supports
  · intro r hhint henc
    rw [henc]
    exact ⟨hhint.legal, decode_addHint hi hc hhint⟩

/-- The hint with `x5` as its second operand. -/
theorem decodeAndExpandCompressed_undef_iff_hint :
    (Refused .rv32 ⟨IsaConfig.c⟩ 0x9016 ↔
        (∀ r : Rvc, r.Legal .rv32 → (0x9016 : Instr).setWidth 16 ≠ r.encode) ∧
          ¬(Architecture.rv32 = .rv32 ∧ ∃ r : Rvc, r.IsWordAlu ∧ (0x9016 : Instr).setWidth 16 = r.encode)) ∧
      (∀ r : Rvc, r.IsWordAlu → (0x9016 : Instr).setWidth 16 = r.encode →
        ∃ w, (0x9016 : Instr).decodeAndExpandCompressed .rv32 ⟨IsaConfig.c⟩ =
          some (w, r.expansion.op.result w) ∧ r.expansion.ReadFrom w) ∧
      (∀ r : Rvc, r.IsAddHint → (0x9016 : Instr).setWidth 16 = r.encode → r.Legal .rv32 ∧
        (0x9016 : Instr).decodeAndExpandCompressed .rv32 ⟨IsaConfig.c⟩ =
          some (InstructionFactory.ebreak, .op .ebreak)) :=
  decodeAndExpandCompressed_undef_iff .rv32 ⟨IsaConfig.c⟩ 0x9016 (by decide) (by decide)

end RiscvVp.Rvc
