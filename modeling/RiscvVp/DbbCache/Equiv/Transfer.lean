import RiscvVp.DbbCache.Invariant

/-!
# Transfers of control keep the invariant

Every control-flow callback, trap entry and trap return ends before the first entry of a block
that starts at the target, whichever link, map lookup or dummy block it went through
(`DBBCache.Landed`).  `force_slow_path`, `enable` and the fences leave the position where it is
(`DBBCache.Stayed`).
-/

namespace RiscvVp.DBBCache

variable {w : ℕ} {Op : Type} {isa : Isa Op} {all : Bool} {s s' : DBBCache w Op}

/-! ### Reading blocks after an update -/

theorem getBlock_congr (h1 : s'.blockmap = s.blockmap) (h2 : s'.dummyBlock = s.dummyBlock)
    (h3 : s'.fastDisableBlock = s.fastDisableBlock) (p : BlockPtr w) :
    s'.getBlock p = s.getBlock p := by
  cases p with
  | dummyBlock => exact h2
  | fastDisableBlock => exact h3
  | heap k => rw [getBlock, getBlock, h1]

theorem deref_congr (h1 : s'.blockmap = s.blockmap) (h2 : s'.dummyBlock = s.dummyBlock)
    (h3 : s'.fastDisableBlock = s.fastDisableBlock) (p : EntryPtr w) : s'.deref p = s.deref p := by
  rw [deref, deref, getBlock_congr h1 h2 h3]

@[simp] theorem getBlock_setBlock_self (s : DBBCache w Op) (p : BlockPtr w) (b : Block w Op) :
    (s.setBlock p b).getBlock p = b := by
  cases p <;> simp [setBlock, getBlock]

theorem getBlock_setBlock_of_ne (s : DBBCache w Op) {p q : BlockPtr w} (b : Block w Op)
    (h : q ≠ p) : (s.setBlock p b).getBlock q = s.getBlock q := by
  cases p <;> cases q <;> simp_all [setBlock, getBlock]

/-- The fields other than the blocks do not change when a block is written. -/
theorem setBlock_fields (s : DBBCache w Op) (p : BlockPtr w) (b : Block w Op) :
    (s.setBlock p b).curBlock = s.curBlock ∧ (s.setBlock p b).curEntryIdx = s.curEntryIdx ∧
    (s.setBlock p b).fastEntry = s.fastEntry ∧ (s.setBlock p b).slowPath = s.slowPath ∧
    (s.setBlock p b).exception = s.exception ∧ (s.setBlock p b).enabled = s.enabled ∧
    (s.setBlock p b).trapLinkCache = s.trapLinkCache ∧
    (s.setBlock p b).coherenceCnt = s.coherenceCnt ∧
    (s.setBlock p b).cycleCounterRaw = s.cycleCounterRaw := by
  cases p <;> simp [setBlock]

@[simp] theorem setBlock_curBlock (s : DBBCache w Op) (p : BlockPtr w) (b : Block w Op) :
    (s.setBlock p b).curBlock = s.curBlock := (s.setBlock_fields p b).1

@[simp] theorem setBlock_curEntryIdx (s : DBBCache w Op) (p : BlockPtr w) (b : Block w Op) :
    (s.setBlock p b).curEntryIdx = s.curEntryIdx := (s.setBlock_fields p b).2.1

@[simp] theorem setBlock_fastEntry (s : DBBCache w Op) (p : BlockPtr w) (b : Block w Op) :
    (s.setBlock p b).fastEntry = s.fastEntry := (s.setBlock_fields p b).2.2.1

@[simp] theorem setBlock_slowPath (s : DBBCache w Op) (p : BlockPtr w) (b : Block w Op) :
    (s.setBlock p b).slowPath = s.slowPath := (s.setBlock_fields p b).2.2.2.1

@[simp] theorem setBlock_exception (s : DBBCache w Op) (p : BlockPtr w) (b : Block w Op) :
    (s.setBlock p b).exception = s.exception := (s.setBlock_fields p b).2.2.2.2.1

@[simp] theorem setBlock_enabled (s : DBBCache w Op) (p : BlockPtr w) (b : Block w Op) :
    (s.setBlock p b).enabled = s.enabled := (s.setBlock_fields p b).2.2.2.2.2.1

@[simp] theorem setBlock_trapLinkCache (s : DBBCache w Op) (p : BlockPtr w) (b : Block w Op) :
    (s.setBlock p b).trapLinkCache = s.trapLinkCache := (s.setBlock_fields p b).2.2.2.2.2.2.1

@[simp] theorem setBlock_coherenceCnt (s : DBBCache w Op) (p : BlockPtr w) (b : Block w Op) :
    (s.setBlock p b).coherenceCnt = s.coherenceCnt := (s.setBlock_fields p b).2.2.2.2.2.2.2.1

@[simp] theorem setBlock_cycleCounterRaw (s : DBBCache w Op) (p : BlockPtr w) (b : Block w Op) :
    (s.setBlock p b).cycleCounterRaw = s.cycleCounterRaw :=
  (s.setBlock_fields p b).2.2.2.2.2.2.2.2

@[simp] theorem setBlock_inFastPath (s : DBBCache w Op) (p : BlockPtr w) (b : Block w Op) :
    (s.setBlock p b).inFastPath = s.inFastPath := by
  rw [inFastPath, inFastPath, setBlock_fastEntry]

@[simp] theorem setBlock_lastEntry (s : DBBCache w Op) (p : BlockPtr w) (b : Block w Op) :
    (s.setBlock p b).lastEntry = s.lastEntry := by
  simp [lastEntry]

@[simp] theorem setBlock_heap_dummyBlock (s : DBBCache w Op) (k : BitVec w) (b : Block w Op) :
    (s.setBlock (.heap k) b).dummyBlock = s.dummyBlock := rfl

@[simp] theorem setBlock_heap_fastDisableBlock (s : DBBCache w Op) (k : BitVec w)
    (b : Block w Op) : (s.setBlock (.heap k) b).fastDisableBlock = s.fastDisableBlock := rfl

/-! ### Writing a block with the same code -/

/-- What the invariant asks of a block at `p`, given that its code has not changed. -/
def LinksOk (isa : Isa Op) (b : Block w Op) : BlockPtr w → Prop
  | .heap k => b.WF isa k
  | .dummyBlock => b.jumpDynLinkCache.WF
  | .fastDisableBlock => False

theorem sameCode_setBlock {p : BlockPtr w} {b : Block w Op} (hc : (s.getBlock p).SameCode b)
    (q : BlockPtr w) : (s.getBlock q).SameCode ((s.setBlock p b).getBlock q) := by
  by_cases hq : q = p
  · subst hq
    rw [getBlock_setBlock_self]
    exact hc
  · rw [getBlock_setBlock_of_ne s b hq]
    exact Block.SameCode.refl _

/-- Replacing a block by one with the same code keeps the invariant if its links are right. -/
theorem Inv.setBlock_sameCode (h : s.Inv isa all) {p : BlockPtr w} {b : Block w Op}
    (hc : (s.getBlock p).SameCode b) (hb : LinksOk isa b p) : (s.setBlock p b).Inv isa all := by
  -- what the invariant says of lengths, counters and entries, it reads off the code
  have hblock := sameCode_setBlock hc
  have hdummy : s.dummyBlock.SameCode (s.setBlock p b).dummyBlock := hblock .dummyBlock
  constructor
  · intro k
    by_cases hk : BlockPtr.heap k = p
    · subst hk
      rw [getBlock_setBlock_self]
      exact hb
    · rw [getBlock_setBlock_of_ne s b hk]
      exact h.heap k
  · intro k hl
    refine (hblock _).laid (h.laid k ?_)
    rw [Live, (hblock _).coherenceCnt, setBlock_coherenceCnt] at hl
    exact hl
  · rw [hdummy.cycleCounterRaw]
    exact h.dummyCycle
  · rw [hdummy.len]
    exact h.dummyLen
  · cases p with
    | dummyBlock => exact hb
    | fastDisableBlock => exact hb.elim
    | heap k => exact h.dummyDyn
  · rw [setBlock_trapLinkCache]
    exact h.trapLinks
  · cases p with
    | fastDisableBlock => exact hb.elim
    | dummyBlock => exact h.disable
    | heap k => exact h.disable
  · rw [setBlock_curBlock]
    exact h.cur
  · intro hf
    rw [setBlock_inFastPath] at hf
    rw [setBlock_fastEntry, setBlock_curBlock, Live, (hblock _).coherenceCnt,
      setBlock_coherenceCnt]
    exact h.fast hf
  · intro hd
    rw [setBlock_curBlock] at hd ⊢
    rw [setBlock_lastEntry, (hblock _).len]
    exact h.pos hd
  · intro hd
    rw [setBlock_curBlock] at hd
    rw [setBlock_lastEntry]
    exact h.posDummy hd
  · intro hd hi
    rw [setBlock_curBlock] at hd
    rw [setBlock_lastEntry] at hi
    rw [hdummy.cycleCounterRaw]
    exact h.dummyFresh hd hi

/-- The frame of such a write: all blocks keep their code, and the counters of the cache are not touched. -/
theorem Frame.setBlock_sameCode {p : BlockPtr w} {b : Block w Op}
    (hc : (s.getBlock p).SameCode b) : s.Frame (s.setBlock p b) :=
  ⟨by simp, by simp, fun _ => Or.inl (sameCode_setBlock hc _)⟩

/-- Links may be written after a transfer. -/
theorem Landed.setBlock_sameCode {pc : BitVec w} (hl : s.Landed isa all s' pc) {p : BlockPtr w}
    {b : Block w Op} (hc : (s'.getBlock p).SameCode b) (hb : LinksOk isa b p) :
    s.Landed isa all (s'.setBlock p b) pc := by
  have hinv := hl.inv.setBlock_sameCode hc hb
  refine ⟨hinv, ?_, ?_, ?_, hl.frame.trans (Frame.setBlock_sameCode hc)⟩
  · rw [setBlock_lastEntry]
    exact hl.idx
  · rw [setBlock_curBlock, (sameCode_setBlock hc _).pc]
    exact hl.first
  · rw [← hl.cycles, hinv.getCycles_eq, hl.inv.getCycles_eq, setBlock_curBlock, setBlock_lastEntry,
      (sameCode_setBlock hc _).cycleCounterRaw, setBlock_cycleCounterRaw]

/-- An empty heap block can be replaced by a fresh one. -/
theorem Inv.setBlock_init (h : s.Inv isa all) {k : BitVec w}
    (hlen : (s.getBlock (.heap k)).len = 0) :
    (s.setBlock (.heap k) (Block.init k s.coherenceCnt)).Inv isa all := by
  have hother : ∀ k', k' ≠ k →
      (s.setBlock (.heap k) (Block.init k s.coherenceCnt)).getBlock (.heap k') =
        s.getBlock (.heap k') :=
    fun k' hk => getBlock_setBlock_of_ne s _ (by simpa using hk)
  -- The current block keeps its length and, if it is the fresh one, becomes coherent.
  have hcur : ((s.setBlock (.heap k) (Block.init k s.coherenceCnt)).getBlock s.curBlock).len =
        (s.getBlock s.curBlock).len ∧
      (s.Live all (s.getBlock s.curBlock) → s.Live all
        ((s.setBlock (.heap k) (Block.init k s.coherenceCnt)).getBlock s.curBlock)) := by
    by_cases hk : s.curBlock = .heap k
    · rw [hk, getBlock_setBlock_self, hlen]
      exact ⟨rfl, fun _ => Or.inr rfl⟩
    · rw [getBlock_setBlock_of_ne s _ hk]
      exact ⟨rfl, id⟩
  constructor
  · intro k'
    by_cases hk : k' = k
    · subst hk
      rw [getBlock_setBlock_self]
      exact Block.wf_init isa k' _
    · rw [hother k' hk]
      exact h.heap k'
  · intro k' hl
    by_cases hk : k' = k
    · subst hk
      rw [getBlock_setBlock_self]
      exact Block.laid_of_len_zero rfl
    · rw [hother k' hk] at hl ⊢
      exact h.laid k' (by simpa [Live] using hl)
  · exact h.dummyCycle
  · exact h.dummyLen
  · exact h.dummyDyn
  · rw [setBlock_trapLinkCache]
    exact h.trapLinks
  · exact h.disable
  · rw [setBlock_curBlock]
    exact h.cur
  · intro hf
    rw [setBlock_inFastPath] at hf
    obtain ⟨h1, h2, h3⟩ := h.fast hf
    rw [setBlock_fastEntry, setBlock_curBlock]
    exact ⟨h1, h2, by simpa [Live] using hcur.2 h3⟩
  · intro hd
    rw [setBlock_curBlock] at hd ⊢
    rw [setBlock_lastEntry, hcur.1]
    exact h.pos hd
  · intro hd
    rw [setBlock_curBlock] at hd
    rw [setBlock_lastEntry]
    exact h.posDummy hd
  · intro hd hi
    rw [setBlock_curBlock] at hd
    rw [setBlock_lastEntry] at hi
    exact h.dummyFresh hd hi

/-! ### `switch_block` -/

/-- The fields that a switch to another block writes. -/
def moveTo (s : DBBCache w Op) (b : BlockPtr w) (f : EntryPtr w) (i : ℤ) (slow : Bool) :
    DBBCache w Op :=
  { s with
    cycleCounterRaw := s.getCycleCounterRaw
    curBlock := b
    fastEntry := f
    curEntryIdx := i
    slowPath := slow }

@[simp] theorem getBlock_moveTo (s : DBBCache w Op) (b : BlockPtr w) (f : EntryPtr w) (i : ℤ)
    (slow : Bool) (p : BlockPtr w) : (s.moveTo b f i slow).getBlock p = s.getBlock p :=
  getBlock_congr rfl rfl rfl p

/-- `switch_block` moves to the block, and turns the fast path on only for the current block, or
for another one that is coherent. -/
theorem switchBlock_eq (s : DBBCache w Op) (b : BlockPtr w) : ∃ f i slow,
    s.switchBlock b = s.moveTo b f i slow ∧
    ((f = ⟨b, -1⟩ ∧ (s.inFastPath = true ∨ s.slowPath = false) ∧
        (s.curBlock = b ∨ (s.getBlock b).coherenceCnt = s.coherenceCnt)) ∨
      (f = fastDisabled ∧ i = -1)) := by
  unfold switchBlock
  dsimp only
  have hfast : s.commitBlockCycles.inFastPath = s.inFastPath := rfl
  have hcur : s.commitBlockCycles.curBlock = s.curBlock := rfl
  have hslow : s.commitBlockCycles.slowPath = s.slowPath := rfl
  have hget : s.commitBlockCycles.getBlock b = s.getBlock b := getBlock_congr rfl rfl rfl b
  have hcnt : s.commitBlockCycles.coherenceCnt = s.coherenceCnt := rfl
  rw [hcur, hfast, hslow, hget, hcnt]
  by_cases hb : s.curBlock = b
  · rw [if_pos hb]
    by_cases hc : (s.inFastPath || !s.slowPath) = true
    · rw [if_pos hc]
      refine ⟨⟨b, -1⟩, s.curEntryIdx, s.slowPath, ?_, Or.inl ⟨rfl, by simpa using hc, Or.inl hb⟩⟩
      rw [← hb]
      rfl
    · rw [if_neg hc]
      refine ⟨s.fastEntry, -1, s.slowPath, ?_, Or.inr ⟨?_, rfl⟩⟩
      · rw [← hb]
        rfl
      · rw [← inFastPath_eq_false_iff]
        simp only [Bool.or_eq_true, not_or, Bool.not_eq_true] at hc
        exact hc.1
  · rw [if_neg hb]
    by_cases hc : (!s.slowPath && decide (0 < (s.getBlock b).len) &&
        s.coherenceCnt == (s.getBlock b).coherenceCnt) = true
    · refine ⟨⟨b, -1⟩, s.curEntryIdx, s.slowPath, ?_, Or.inl ⟨rfl, ?_⟩⟩
      · rw [if_pos hc]
        rfl
      · simp only [Bool.and_eq_true, Bool.not_eq_true', decide_eq_true_eq, beq_iff_eq] at hc
        exact ⟨Or.inr hc.1.1, Or.inr hc.2.symm⟩
    · refine ⟨fastDisabled, -1, false, ?_, Or.inr ⟨rfl, rfl⟩⟩
      rw [if_neg hc]
      rfl

/-- The position after a move to a heap block. -/
theorem lastEntry_moveTo {k : BitVec w} {f : EntryPtr w} {i : ℤ} {slow : Bool}
    (hf : f = ⟨.heap k, -1⟩ ∨ (f = fastDisabled ∧ i = -1)) :
    (s.moveTo (.heap k) f i slow).lastEntry = ⟨.heap k, -1⟩ := by
  rcases hf with rfl | ⟨rfl, rfl⟩
  · rw [lastEntry_of_fast]
    · rfl
    · rw [inFastPath_iff]
      simp [moveTo, fastDisabled]
  · rw [lastEntry_of_slow]
    · rfl
    · rw [inFastPath_eq_false_iff]
      rfl

/-- A move to a heap block lands at its start. -/
theorem Inv.landed_moveTo (h : s.Inv isa all) {k : BitVec w} {f : EntryPtr w} {i : ℤ} {slow : Bool}
    (hf : (f = ⟨.heap k, -1⟩ ∧ s.Live all (s.getBlock (.heap k))) ∨ (f = fastDisabled ∧ i = -1)) :
    s.Landed isa all (s.moveTo (.heap k) f i slow) k := by
  have hlast : (s.moveTo (.heap k) f i slow).lastEntry = ⟨.heap k, -1⟩ :=
    lastEntry_moveTo (hf.imp_left And.left)
  -- no block changes; only the position has to be shown legal
  have hinv : (s.moveTo (.heap k) f i slow).Inv isa all := by
    constructor
    · intro k'
      rw [getBlock_moveTo]
      exact h.heap k'
    · intro k' hl
      rw [getBlock_moveTo] at hl ⊢
      exact h.laid k' hl
    · exact h.dummyCycle
    · exact h.dummyLen
    · exact h.dummyDyn
    · exact h.trapLinks
    · exact h.disable
    · exact Or.inr ⟨k, rfl⟩
    · intro hfast
      rcases hf with ⟨rfl, hl⟩ | ⟨rfl, rfl⟩
      · rw [getBlock_moveTo]
        exact ⟨rfl, by simp [moveTo], hl⟩
      · rw [inFastPath_iff] at hfast
        exact absurd rfl hfast
    · intro _
      rw [hlast]
      exact ⟨le_rfl, by simp only; omega⟩
    · intro hd
      cases hd
    · intro hd
      cases hd
  refine ⟨hinv, by rw [hlast], ?_, ?_, ?_⟩
  · rw [getBlock_moveTo]
    exact (h.heap k).pcZero
  · -- the sum of the first entry is zero, so the move takes no cycles
    rw [hinv.getCycles_eq, hlast]
    show s.getCycleCounterRaw + (((s.moveTo (.heap k) f i slow).getBlock
      (.heap k)).entries (-1 + 1)).cycleCounterRaw.setWidth 64 = _
    rw [getBlock_moveTo, show (-1 : ℤ) + 1 = 0 from rfl, (h.heap k).cycleZero]
    simp
  · refine ⟨rfl, rfl, fun k' => Or.inl ?_⟩
    rw [getBlock_moveTo]
    exact Block.SameCode.refl _

/-- `switch_block` to the current block may turn the fast path on without looking at
`coherence_cnt`; the invariant survives if the block is live. -/
def SwitchOk (all : Bool) (s : DBBCache w Op) (k : BitVec w) : Prop :=
  s.curBlock = .heap k → s.slowPath = false → s.Live all (s.getBlock (.heap k))

theorem Inv.landed_switchBlock (h : s.Inv isa all) {k : BitVec w} (hok : s.SwitchOk all k) :
    s.Landed isa all (s.switchBlock (.heap k)) k ∧ (s.switchBlock (.heap k)).curBlock = .heap k := by
  obtain ⟨f, i, slow, heq, hf⟩ := s.switchBlock_eq (.heap k)
  rw [heq]
  refine ⟨h.landed_moveTo ?_, rfl⟩
  rcases hf with ⟨hf, hpath, hb⟩ | hf
  · refine Or.inl ⟨hf, ?_⟩
    rcases hb with hb | hb
    · rcases hpath with hp | hp
      · rw [← hb]
        exact (h.fast hp).2.2
      · exact hok hb hp
    · exact Or.inr hb
  · exact Or.inr hf

/-- The cycles do not depend on a fresh block. -/
theorem Inv.getCycles_setBlock_init (h : s.Inv isa all) {k : BitVec w}
    (hlen : (s.getBlock (.heap k)).len = 0) :
    (s.setBlock (.heap k) (Block.init k s.coherenceCnt)).getCycleCounterRaw =
      s.getCycleCounterRaw := by
  rw [(h.setBlock_init hlen).getCycles_eq, h.getCycles_eq]
  simp only [setBlock_cycleCounterRaw, setBlock_curBlock, setBlock_lastEntry]
  by_cases hk : s.curBlock = .heap k
  · have hidx : s.lastEntry.idx = -1 := by
      have hp := h.pos (by rw [hk]; simp)
      rw [hk, hlen] at hp
      omega
    rw [hk, getBlock_setBlock_self, hidx, show (-1 : ℤ) + 1 = 0 from rfl,
      (Block.wf_init isa k _).cycleZero, (h.heap k).cycleZero]
  · rw [getBlock_setBlock_of_ne s _ hk]

theorem Inv.landed_findCreateSwitchBlock (h : s.Inv isa all) {k : BitVec w}
    (hok : s.SwitchOk all k) :
    s.Landed isa all (s.findCreateSwitchBlock k) k ∧
      (s.findCreateSwitchBlock k).curBlock = .heap k := by
  unfold findCreateSwitchBlock
  cases hmap : s.blockmap k with
  | some b => exact h.landed_switchBlock hok
  | none =>
    have hlen : (s.getBlock (.heap k)).len = 0 := by
      rw [getBlock, hmap]
      rfl
    have hok' : (s.setBlock (.heap k) (Block.init k s.coherenceCnt)).SwitchOk all k := by
      intro _ _
      rw [getBlock_setBlock_self]
      exact Or.inr (by simp [Block.init])
    obtain ⟨hl, hcur⟩ := (h.setBlock_init hlen).landed_switchBlock hok'
    refine ⟨⟨hl.inv, hl.idx, hl.first, ?_, ?_⟩, hcur⟩
    · rw [hl.cycles, h.getCycles_setBlock_init hlen]
    · refine Frame.trans ⟨by simp, by simp, fun k' => ?_⟩ hl.frame
      by_cases hk : k' = k
      · subst hk
        rw [getBlock_setBlock_self]
        exact Or.inr ⟨hlen, Block.SameCode.refl _⟩
      · rw [getBlock_setBlock_of_ne s _ (by simpa using hk)]
        exact Or.inl (Block.SameCode.refl _)

/-! ### The dummy block -/

theorem lastEntry_switchBlockDummy (s : DBBCache w Op) (pc : BitVec w) :
    (s.switchBlockDummy pc).lastEntry = ⟨.dummyBlock, -1⟩ := by
  rw [lastEntry_of_slow]
  · rfl
  · rw [inFastPath_eq_false_iff]
    rfl

theorem dummyBlock_switchBlockDummy_zero (s : DBBCache w Op) (pc : BitVec w) :
    (s.switchBlockDummy pc).dummyBlock.entries 0 = { s.dummyBlock.entries 0 with pc := pc } := by
  simp [switchBlockDummy, Block.setEntry, commitBlockCycles]

theorem Inv.landed_switchBlockDummy (h : s.Inv isa all) (pc : BitVec w) :
    s.Landed isa all (s.switchBlockDummy pc) pc := by
  have hlast := s.lastEntry_switchBlockDummy pc
  have hzero := s.dummyBlock_switchBlockDummy_zero pc
  have hinv : (s.switchBlockDummy pc).Inv isa all := by
    constructor
    · exact h.heap
    · exact h.laid
    · rw [hzero]
      exact h.dummyCycle
    · exact h.dummyLen
    · exact h.dummyDyn
    · exact h.trapLinks
    · exact h.disable
    · exact Or.inl rfl
    · intro hf
      rw [inFastPath_iff] at hf
      exact absurd rfl hf
    · intro hd
      exact absurd rfl hd
    · intro _
      rw [hlast]
      exact Or.inl rfl
    · intro _ _
      simp [switchBlockDummy, Block.setEntry]
  refine ⟨hinv, by rw [hlast], ?_, ?_, rfl, rfl, fun _ => Or.inl (Block.SameCode.refl _)⟩
  · show ((s.switchBlockDummy pc).dummyBlock.entries 0).pc = pc
    rw [hzero]
  · rw [hinv.getCycles_eq, hlast]
    show s.getCycleCounterRaw +
      ((s.switchBlockDummy pc).dummyBlock.entries 0).cycleCounterRaw.setWidth 64 = _
    rw [hzero]
    simp [h.dummyCycle]

/-! ### Branches and jumps -/

/-- On the fast path `curEntryIdx` carries no information. -/
theorem Inv.setCurEntryIdx (h : s.Inv isa all) (hf : s.inFastPath = true) (i : ℤ) :
    { s with curEntryIdx := i }.Inv isa all := by
  have hlast : { s with curEntryIdx := i }.lastEntry = s.lastEntry := by
    rw [lastEntry_of_fast hf, lastEntry_of_fast (show { s with curEntryIdx := i }.inFastPath = true from hf)]
  refine ⟨h.heap, h.laid, h.dummyCycle, h.dummyLen, h.dummyDyn, h.trapLinks, h.disable, h.cur,
    h.fast, ?_, ?_, ?_⟩
  · rw [hlast]
    exact h.pos
  · rw [hlast]
    exact h.posDummy
  · rw [hlast]
    exact h.dummyFresh

/-- The stored index of the current entry. -/
theorem Inv.idx_deref (h : s.Inv isa all) (hd : s.curBlock ≠ .dummyBlock)
    (hi : 0 ≤ s.lastEntry.idx) : ((s.deref s.lastEntry).idx.toNat : ℤ) = s.lastEntry.idx := by
  obtain ⟨k, hk⟩ := h.exists_heap hd
  have hpos := (h.pos hd).2
  rw [h.deref_lastEntry]
  rw [hk] at hpos ⊢
  exact (h.heap k).idx _ hi hpos.le

/-- A link of the current entry leads to the target of its jump. -/
theorem Inv.link_deref (h : s.Inv isa all) (hd : s.curBlock ≠ .dummyBlock)
    (hi : 0 ≤ s.lastEntry.idx) {b : BlockPtr w} (hb : (s.deref s.lastEntry).link = some b) :
    b = .heap ((s.deref s.lastEntry).target isa) := by
  obtain ⟨k, hk⟩ := h.exists_heap hd
  have hpos := (h.pos hd).2
  rw [h.deref_lastEntry] at hb ⊢
  rw [hk] at hb hpos ⊢
  exact (h.heap k).link _ hi hpos b hb

/-- `branch_taken_sjump` after its lookups failed: a transfer to the target, which is then linked
from the current entry. -/
theorem Inv.landed_branchTakenMiss (h : s.Inv isa all) {off : BitVec 32}
    (hslow : (⟨s.curBlock, s.curEntryIdx⟩ : EntryPtr w) = s.lastEntry)
    (hi : 0 ≤ s.lastEntry.idx)
    (hoff : s.curBlock ≠ .dummyBlock →
      off = isa.labelOffset (s.deref s.lastEntry).opLabelPtr (s.deref s.lastEntry).instr)
    (hok : s.SwitchOk all ((s.deref s.lastEntry).pc + off.signExtend w)) :
    ∃ s', s.branchTakenMiss isa off = (.ok (), s') ∧
      s.Landed isa all s' ((s.deref s.lastEntry).pc + off.signExtend w) := by
  have hidx : s.curEntryIdx = s.lastEntry.idx := by rw [← hslow]
  have hentry : (s.getBlock s.curBlock).entries s.curEntryIdx = s.deref s.lastEntry := by
    rw [h.deref_lastEntry, hidx]
  unfold branchTakenMiss
  rw [hentry]
  generalize hpc : (s.deref s.lastEntry).pc + off.signExtend w = pc at hok ⊢
  have hcomp := isa.hasCompressed_eq_true
  simp only [hcomp, Bool.true_eq_false, and_false, if_false]
  cases s.enabled with
  | false => exact ⟨_, rfl, h.landed_switchBlockDummy pc⟩
  | true =>
    obtain ⟨hl, hcur⟩ := h.landed_findCreateSwitchBlock hok
    by_cases hd : s.curBlock = .dummyBlock
    · simp only [hd, ne_eq, not_true_eq_false, if_true, if_false]
      exact ⟨_, rfl, hl⟩
    · simp only [hd, ne_eq, not_false_eq_true, if_true]
      refine ⟨_, rfl, ?_⟩
      obtain ⟨k, hk⟩ := h.exists_heap hd
      have hpos := (h.pos hd).2
      rw [hk] at hpos ⊢
      have hsame : (s.getBlock (.heap k)).SameCode ((s.findCreateSwitchBlock pc).getBlock (.heap k)) :=
        hl.frame.sameCode_of_len (by omega)
      refine hl.setBlock_sameCode (Block.sameCode_setLink _ _ _) ((hl.inv.heap k).setLink _ ?_)
      rw [hcur, hsame.target, ← hk, hentry, Entry.target, ← hoff hd, hpc]

/-- A taken branch or static jump lands at the target of the instruction. -/
theorem Inv.landed_branchTakenSjump (h : s.Inv isa all) {off : BitVec 32}
    (hi : 0 ≤ s.lastEntry.idx)
    (hoff : s.curBlock ≠ .dummyBlock →
      off = isa.labelOffset (s.deref s.lastEntry).opLabelPtr (s.deref s.lastEntry).instr)
    (hok : s.SwitchOk all ((s.deref s.lastEntry).pc + off.signExtend w)) :
    ∃ s', s.branchTakenSjump isa off = (.ok (), s') ∧
      s.Landed isa all s' ((s.deref s.lastEntry).pc + off.signExtend w) := by
  have hhit : ∀ b, s.curBlock ≠ .dummyBlock → (s.deref s.lastEntry).link = some b →
      s.Landed isa all (s.switchBlock b) ((s.deref s.lastEntry).pc + off.signExtend w) := by
    intro b hd hb
    have htgt : (s.deref s.lastEntry).target isa =
        (s.deref s.lastEntry).pc + off.signExtend w := by rw [Entry.target, ← hoff hd]
    rw [h.link_deref hd hi hb, htgt]
    exact (h.landed_switchBlock hok).1
  unfold branchTakenSjump
  cases hf : s.inFastPath with
  | true =>
    have hlast := lastEntry_of_fast hf
    have hd := (h.fast hf).2.1
    simp only [if_true]
    cases hlink : (s.deref s.fastEntry).link with
    | some b =>
      rw [← hlast] at hlink
      exact ⟨_, rfl, hhit b hd hlink⟩
    | none =>
      simp only
      have hidx := h.idx_deref hd hi
      rw [hlast] at hidx
      rw [hidx]
      -- The entry looked at again is the fast entry, whose link is not valid.
      have hnone : ((s.getBlock s.curBlock).entries s.fastEntry.idx).link = none := by
        rw [← hlink, deref, (h.fast hf).1]
      have hget : { s with curEntryIdx := s.fastEntry.idx }.getBlock s.curBlock =
          s.getBlock s.curBlock := getBlock_congr rfl rfl rfl _
      simp only [hget, hnone, ite_self]
      have hlast' : { s with curEntryIdx := s.fastEntry.idx }.lastEntry = s.lastEntry := by
        rw [hlast]
        exact lastEntry_of_fast hf
      have hptr : (⟨s.curBlock, s.fastEntry.idx⟩ : EntryPtr w) = s.lastEntry := by
        rw [hlast, ← (h.fast hf).1]
      have hderef : { s with curEntryIdx := s.fastEntry.idx }.deref s.lastEntry =
          s.deref s.lastEntry := deref_congr rfl rfl rfl _
      have hmiss := @Inv.landed_branchTakenMiss _ _ _ _ _ (h.setCurEntryIdx hf s.fastEntry.idx) off
      rw [hlast', hderef] at hmiss
      obtain ⟨s', heq, hl⟩ := hmiss hptr hi hoff hok
      refine ⟨s', heq, hl.inv, hl.idx, hl.first, ?_, hl.frame.coherenceCnt, hl.frame.exception,
        hl.frame.blocks⟩
      rw [hl.cycles, getCycleCounterRaw, getCycleCounterRaw, hlast']
      rfl
  | false =>
    have hlast := lastEntry_of_slow hf
    have hentry : s.deref s.lastEntry = (s.getBlock s.curBlock).entries s.curEntryIdx := by
      rw [hlast, deref]
    simp only [Bool.false_eq_true, if_false]
    rw [← hentry]
    cases hb : (if s.curBlock ≠ .dummyBlock then (s.deref s.lastEntry).link else none) with
    | some b =>
      have hd : s.curBlock ≠ .dummyBlock := by
        intro hd
        simp [hd] at hb
      rw [if_pos hd] at hb
      exact ⟨_, rfl, hhit b hd hb⟩
    | none => exact h.landed_branchTakenMiss hlast.symm hi hoff hok

/-- A dynamic jump lands at its target. -/
theorem Inv.landed_jumpDyn (h : s.Inv isa all) {pc : BitVec w} (hpc : pc ≠ BitVec.allOnes w)
    (hok : s.SwitchOk all pc) : s.Landed isa all (s.jumpDyn pc) pc := by
  have hdyn : (s.getBlock s.curBlock).jumpDynLinkCache.WF := by
    rcases h.cur with hd | ⟨k, hk⟩
    · rw [hd]
      exact h.dummyDyn
    · rw [hk]
      exact (h.heap k).dyn
  unfold jumpDyn
  cases hfind : (s.getBlock s.curBlock).jumpDynLinkCache.find pc with
  | some b =>
    rw [hdyn.find hpc hfind]
    exact (h.landed_switchBlock hok).1
  | none =>
    cases s.enabled with
    | false => exact h.landed_switchBlockDummy pc
    | true =>
      obtain ⟨hl, hcur⟩ := h.landed_findCreateSwitchBlock hok
      simp only [if_true]
      rw [hcur]
      refine hl.setBlock_sameCode ⟨rfl, rfl, rfl, fun _ => rfl⟩ ?_
      rcases h.cur with hd | ⟨k, hk⟩
      · rw [hd]
        exact hl.inv.dummyDyn.add pc
      · rw [hk]
        exact (hl.inv.heap k).addDyn pc

/-! ### Traps -/

theorem Inv.setTrapLinkCache (h : s.Inv isa all) {c : BlockLinkCache w} (hc : c.WF) :
    { s with trapLinkCache := c }.Inv isa all :=
  ⟨h.heap, h.laid, h.dummyCycle, h.dummyLen, h.dummyDyn, hc, h.disable, h.cur, h.fast, h.pos,
    h.posDummy, h.dummyFresh⟩

/-- A trap lands at the address of the handler. -/
theorem Inv.landed_enterTrap (h : s.Inv isa all) {pc : BitVec w} (hpc : pc ≠ BitVec.allOnes w)
    (hok : s.SwitchOk all pc) : s.Landed isa all (s.enterTrap pc) pc := by
  unfold enterTrap
  cases hfind : s.trapLinkCache.find pc with
  | some b =>
    rw [h.trapLinks.find hpc hfind]
    exact (h.landed_switchBlock hok).1
  | none =>
    cases s.enabled with
    | false => exact h.landed_switchBlockDummy pc
    | true =>
      obtain ⟨hl, hcur⟩ := h.landed_findCreateSwitchBlock hok
      have hadd : ((s.findCreateSwitchBlock pc).trapLinkCache.add pc
          (s.findCreateSwitchBlock pc).curBlock).WF := by
        rw [hcur]
        exact hl.inv.trapLinks.add pc
      exact ⟨hl.inv.setTrapLinkCache hadd, hl.idx, hl.first, hl.cycles, hl.frame.coherenceCnt,
        hl.frame.exception, hl.frame.blocks⟩

/-- A return from a trap lands at its target. -/
theorem Inv.landed_retTrap (h : s.Inv isa all) (pc : BitVec w) :
    s.Landed isa all (s.retTrap pc) pc := h.landed_switchBlockDummy pc

/-! ### Requests that leave the position alone -/

/-- What a fence, a slow-path request or a change of `enabled` leaves: the position, the code and
the cycles. -/
structure Stayed (isa : Isa Op) (all : Bool) (s s' : DBBCache w Op) : Prop where
  inv : s'.Inv isa all
  last : s'.lastEntry = s.lastEntry
  cur : s'.curBlock = s.curBlock
  blocks : ∀ p, (s.getBlock p).SameCode (s'.getBlock p)
  cycleCounterRaw : s'.cycleCounterRaw = s.cycleCounterRaw
  exception : s'.exception = s.exception

namespace Stayed

variable (hs : s.Stayed isa all s')

include hs

/-- The current entry is the same, up to its link. -/
theorem deref_resetLink :
    (s'.deref s'.lastEntry).resetLink = (s.deref s.lastEntry).resetLink := by
  rw [deref, deref, hs.last]
  exact (hs.blocks _).entries _

theorem getCycles (h : s.Inv isa all) : s'.getCycleCounterRaw = s.getCycleCounterRaw := by
  rw [hs.inv.getCycles_eq, h.getCycles_eq, hs.last, hs.cur, hs.cycleCounterRaw,
    (hs.blocks _).cycleCounterRaw]

theorem getPc (h : s.Inv isa all) : s'.getPcMaybeAfterCallback = s.getPcMaybeAfterCallback := by
  rw [hs.inv.getPc_eq, h.getPc_eq, hs.inv.deref_lastEntry, h.deref_lastEntry, hs.last, hs.cur,
    (hs.blocks _).pc, (hs.blocks _).nextPc]

theorem trans {s'' : DBBCache w Op} (hs' : s'.Stayed isa all s'') : s.Stayed isa all s'' :=
  ⟨hs'.inv, hs'.last.trans hs.last, hs'.cur.trans hs.cur,
    fun p => (hs.blocks p).trans (hs'.blocks p), hs'.cycleCounterRaw.trans hs.cycleCounterRaw,
    hs'.exception.trans hs.exception⟩

end Stayed

/-- Writing links into a block leaves the cache where it stands, if the links lead to where they should. -/
theorem Inv.stayed_setBlock (h : s.Inv isa all) {p : BlockPtr w} {b : Block w Op}
    (hc : (s.getBlock p).SameCode b) (hb : LinksOk isa b p) : s.Stayed isa all (s.setBlock p b) :=
  ⟨h.setBlock_sameCode hc hb, by simp, by simp, sameCode_setBlock hc, by simp, by simp⟩

/-- Writing fields that the position does not depend on. -/
theorem Inv.stayed_setFields (h : s.Inv isa all) {c : BlockLinkCache w} (hc : c.WF)
    (enabled slow : Bool) : s.Stayed isa all
      { s with trapLinkCache := c, enabled := enabled, slowPath := slow } :=
  ⟨⟨h.heap, h.laid, h.dummyCycle, h.dummyLen, h.dummyDyn, hc, h.disable, h.cur, h.fast, h.pos,
    h.posDummy, h.dummyFresh⟩, rfl, rfl, fun p => by cases p <;> exact Block.SameCode.refl _, rfl, rfl⟩

/-- Turning the fast path off where it stands. -/
theorem Inv.stayed_leaveFast (h : s.Inv isa all) (slow : Bool) :
    s.Stayed isa all
      { s.fastPathRawDisable with curEntryIdx := s.lastEntry.idx, slowPath := slow } := by
  generalize hs' : { s.fastPathRawDisable with curEntryIdx := s.lastEntry.idx, slowPath := slow } = s'
  have hslow : s'.inFastPath = false := by
    rw [inFastPath_eq_false_iff, ← hs']
    rfl
  have hlast : s'.lastEntry = s.lastEntry := by
    rw [lastEntry_of_slow hslow, ← hs', h.lastEntry_eq]
    rfl
  have hget : ∀ p, s'.getBlock p = s.getBlock p := by
    intro p
    rw [← hs']
    exact getBlock_congr rfl rfl rfl p
  have hcur : s'.curBlock = s.curBlock := by
    rw [← hs']
    rfl
  refine ⟨?_, hlast, hcur, fun p => ?_, by rw [← hs']; rfl, by rw [← hs']; rfl⟩
  · -- the blocks stay, and `last_entry` is the same one, now found by its index
    constructor
    · intro k
      rw [hget]
      exact h.heap k
    · intro k hl
      rw [hget] at hl ⊢
      rw [← hs'] at hl
      exact h.laid k hl
    · rw [← hs']
      exact h.dummyCycle
    · rw [← hs']
      exact h.dummyLen
    · rw [← hs']
      exact h.dummyDyn
    · rw [← hs']
      exact h.trapLinks
    · rw [← hs']
      exact h.disable
    · rw [hcur]
      exact h.cur
    · intro hf'
      rw [hslow] at hf'
      cases hf'
    · intro hd
      rw [hcur] at hd ⊢
      rw [hlast, hget]
      exact h.pos hd
    · intro hd
      rw [hcur] at hd
      rw [hlast]
      exact h.posDummy hd
    · intro hd hi
      rw [hcur] at hd
      rw [hlast] at hi
      rw [← hs']
      exact h.dummyFresh hd hi
  · rw [hget]
    exact Block.SameCode.refl _

/-- `force_slow_path` finds the position whether the fast entry is still before the block or not. -/
theorem Inv.stayed_forceSlowPath (h : s.Inv isa all) : s.Stayed isa all s.forceSlowPath := by
  unfold forceSlowPath
  cases hf : s.inFastPath with
  | false =>
    have hf' : { s with slowPath := true }.inFastPath = false := hf
    simp only [hf', Bool.false_eq_true, if_false]
    exact h.stayed_setFields h.trapLinks s.enabled true
  | true =>
    have hf' : { s with slowPath := true }.inFastPath = true := hf
    obtain ⟨hblk, hd, -⟩ := h.fast hf
    have hlast := lastEntry_of_fast hf
    have hidx : (if s.fastEntry = ⟨s.curBlock, -1⟩ then (-1 : ℤ)
        else ((s.deref s.fastEntry).idx.toNat : ℤ)) = s.lastEntry.idx := by
      by_cases hp : s.fastEntry = ⟨s.curBlock, -1⟩
      · rw [if_pos hp, hlast, hp]
      · rw [if_neg hp, ← hlast]
        refine h.idx_deref hd ?_
        have hne : s.lastEntry.idx ≠ -1 := by
          intro he
          rw [hlast] at he
          exact hp (by rw [← hblk, ← he])
        have := h.idx_ge
        omega
    have hderef : { s with slowPath := true }.deref s.fastEntry = s.deref s.fastEntry :=
      deref_congr rfl rfl rfl _
    simp only [hf', hderef, hidx, if_true]
    exact h.stayed_leaveFast true

/-- With `all` no fence matters; without, a fence must leave no block coherent.  It does so unless
`coherence_cnt` has come back to the count of some block. -/
def FenceOk (all : Bool) (s : DBBCache w Op) : Prop :=
  all = true ∨ ∀ k, 0 < (s.getBlock (.heap k)).len →
    (s.getBlock (.heap k)).coherenceCnt ≠ s.coherenceCnt + 1

/-- `coherence_update` on an executing instruction: the count goes up by one, and the position stays. -/
theorem Inv.stayed_coherenceUpdate (h : s.Inv isa all) (hi : 0 ≤ s.lastEntry.idx)
    (hok : s.FenceOk all) : s.Stayed isa all s.coherenceUpdate := by
  -- The fast path is off afterwards, at the position it had.
  have hoff : ∃ s0, s.Stayed isa all s0 ∧ s0.inFastPath = false ∧ s0.coherenceCnt = s.coherenceCnt ∧
      (∀ p, s0.getBlock p = s.getBlock p) ∧
      s.coherenceUpdate = { s0 with coherenceCnt := s.coherenceCnt + 1 } := by
    unfold coherenceUpdate
    cases hf : s.inFastPath with
    | false =>
      have hf' : { s with coherenceCnt := s.coherenceCnt + 1 }.inFastPath = false := hf
      simp only [hf', Bool.false_eq_true, if_false]
      exact ⟨s, h.stayed_setFields h.trapLinks s.enabled s.slowPath, hf, rfl, fun _ => rfl, rfl⟩
    | true =>
      have hf' : { s with coherenceCnt := s.coherenceCnt + 1 }.inFastPath = true := hf
      have hderef : { s with coherenceCnt := s.coherenceCnt + 1 }.deref s.fastEntry =
          s.deref s.lastEntry := by
        rw [lastEntry_of_fast hf]
        exact deref_congr rfl rfl rfl _
      simp only [hf', hderef, h.idx_deref (h.fast hf).2.1 hi, if_true]
      refine ⟨_, h.stayed_leaveFast s.slowPath, ?_, rfl, ?_, rfl⟩
      · rw [inFastPath_eq_false_iff]
        rfl
      · exact fun p => getBlock_congr rfl rfl rfl p
  obtain ⟨s0, hs, hslow, hcnt, hget, heq⟩ := hoff
  have hget' : ∀ p, { s0 with coherenceCnt := s.coherenceCnt + 1 }.getBlock p = s.getBlock p := by
    intro p
    rw [← hget]
    exact getBlock_congr rfl rfl rfl p
  rw [heq]
  refine ⟨?_, hs.last, hs.cur, fun p => ?_, hs.cycleCounterRaw, hs.exception⟩
  · refine ⟨?_, ?_, hs.inv.dummyCycle, hs.inv.dummyLen, hs.inv.dummyDyn, hs.inv.trapLinks,
      hs.inv.disable, hs.inv.cur, ?_, ?_, hs.inv.posDummy, hs.inv.dummyFresh⟩
    · intro k
      rw [hget']
      exact h.heap k
    · intro k hl
      rw [hget'] at hl ⊢
      rcases hl with hall | hcoh
      · exact h.laid k (Or.inl hall)
      · rcases hok with hall | hne
        · exact h.laid k (Or.inl hall)
        · refine Block.laid_of_len_zero (Nat.eq_zero_of_not_pos fun hpos => ?_)
          exact hne k hpos hcoh
    · intro hf'
      exact absurd (hslow.symm.trans hf') Bool.false_ne_true
    · intro hd
      have hp := hs.inv.pos hd
      rw [hget] at hp
      rw [hget']
      exact hp
  · rw [hget']
    exact Block.SameCode.refl _

/-- `enable` only drops links.  What it switches takes effect at the next transfer of control. -/
theorem Inv.stayed_enable (h : s.Inv isa all) (ena : Bool) : s.Stayed isa all (s.enable ena) := by
  unfold enable
  by_cases he : ena = s.enabled
  · rw [if_pos he]
    exact h.stayed_setFields h.trapLinks s.enabled s.slowPath
  · rw [if_neg he]
    have hs1 := h.stayed_setFields h.trapLinks ena s.slowPath
    cases ena with
    | true => exact hs1
    | false =>
      have hlinks : LinksOk isa (s.getBlock s.curBlock).invalidateLinks s.curBlock := by
        rcases h.cur with hd | ⟨k, hk⟩
        · rw [hd]
          exact BlockLinkCache.WF.reset _
        · rw [hk]
          exact (h.heap k).invalidateLinks
      have hs2 := hs1.trans (hs1.inv.stayed_setBlock (Block.sameCode_invalidateLinks _) hlinks)
      have hs3 := hs2.trans (hs2.inv.stayed_setBlock (p := .dummyBlock)
        (Block.sameCode_invalidateLinks _) (BlockLinkCache.WF.reset _))
      exact hs3.trans (hs3.inv.stayed_setFields (BlockLinkCache.WF.reset _) _ _)

end RiscvVp.DBBCache
