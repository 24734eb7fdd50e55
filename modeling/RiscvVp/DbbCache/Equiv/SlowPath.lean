import RiscvVp.DbbCache.Equiv.Transfer

/-!
# Keeping the fast path off

What a request for the slow path can rely on in the cache.  `force_slow_path` turns the fast path
off and sets `slow_path` (`Held`); from there every callback leaves it off, and so does a
`fetch_decode` that reads or appends an entry.  `fetch_decode` turns it on, whatever `slow_path`
says, when it hits a coherent block or has repaired one (`TurnsFastOn`).

While the fast path is off, `fetch_decode_fast` finds the abort label, because nothing ever writes
the block that the disabled pointer stands in (`Guarded`).
-/

namespace RiscvVp

variable {w : ℕ} {Op : Type}

/-- No link of the block leads to the block of the disabled pointer. -/
structure Block.Detached (b : Block w Op) : Prop where
  link : ∀ i, (b.entries i).link ≠ some .fastDisableBlock
  dyn : ∀ i, (b.jumpDynLinkCache.slots i).2 ≠ .fastDisableBlock

namespace Block

theorem detached_init (pc : BitVec w) (cnt : BitVec 32) : (init pc cnt : Block w Op).Detached := by
  refine ⟨fun i => ?_, fun i => nofun⟩
  by_cases hi : i = 0
  · subst hi
    rw [init_entries_zero]
    nofun
  · simp [init, Function.update_of_ne hi, Entry.blank]

variable {b : Block w Op}

theorem Detached.setEntry (h : b.Detached) (i : ℤ) {e : Entry w Op}
    (he : e.link ≠ some .fastDisableBlock) : (b.setEntry i e).Detached := by
  refine ⟨fun j => ?_, h.dyn⟩
  by_cases hj : j = i
  · subst hj
    simpa [Block.setEntry] using he
  · simpa [Block.setEntry, Function.update_of_ne hj] using h.link j

/-- Writing an entry but not its link. -/
theorem Detached.keepLink (h : b.Detached) (i : ℤ) {e : Entry w Op}
    (he : e.link = (b.entries i).link) : (b.setEntry i e).Detached :=
  h.setEntry i (he ▸ h.link i)

theorem Detached.setLen (h : b.Detached) (n : ℕ) (cnt : BitVec 32) :
    { b with len := n, coherenceCnt := cnt }.Detached := ⟨h.link, h.dyn⟩

theorem Detached.invalidateLinks (h : b.Detached) : b.invalidateLinks.Detached := by
  refine ⟨fun i => ?_, h.dyn⟩
  unfold Block.invalidateLinks
  dsimp only
  split_ifs
  · nofun
  · exact h.link i

theorem Detached.decodeUpdateEntry (h : b.Detached) (isa : Isa Op) (i : ℤ) (pc : BitVec w)
    (word : Word) : (b.decodeUpdateEntry isa i pc word).Detached := by
  unfold Block.decodeUpdateEntry
  exact (h.keepLink (i + 1) (by rfl)).setEntry i (by nofun)

theorem Detached.addDyn (h : b.Detached) (pc : BitVec w) {p : BlockPtr w}
    (hp : p ≠ .fastDisableBlock) :
    { b with jumpDynLinkCache := b.jumpDynLinkCache.add pc p }.Detached := by
  refine ⟨h.link, fun i => ?_⟩
  by_cases hi : i = b.jumpDynLinkCache.curIdx
  · simpa [BlockLinkCache.add, hi] using hp
  · simpa [BlockLinkCache.add, Function.update_of_ne hi] using h.dyn i

theorem Detached.repairLoop (isa : Isa Op) (mem : InstrMem w) (n idx : ℕ) (addr : BitVec w)
    (once : Bool) (h : b.Detached) : (DBBCache.repairLoop isa mem n idx addr once b).1.Detached := by
  induction n generalizing idx addr once b with
  | zero => exact h
  | succ n ih =>
    unfold DBBCache.repairLoop
    split
    · exact h
    · dsimp only
      split_ifs
      · exact ih _ _ _ (h.invalidateLinks.decodeUpdateEntry isa _ _ _)
      · exact ih _ _ _ (h.decodeUpdateEntry isa _ _ _)
      · exact ih _ _ _ h

end Block

namespace DBBCache

variable {s : DBBCache w Op} {isa : Isa Op}

/-- Nothing points into the block of the disabled pointer, apart from that pointer. -/
structure Guarded (s : DBBCache w Op) : Prop where
  disable : (s.fastDisableBlock.entries 1).opLabelPtr = .fastAbort
  cur : s.curBlock ≠ .fastDisableBlock
  blocks : ∀ p, (s.getBlock p).Detached
  trap : ∀ i, (s.trapLinkCache.slots i).2 ≠ .fastDisableBlock

/-- A request for the slow path has reached the cache. -/
structure Held (s : DBBCache w Op) : Prop where
  slowPath : s.slowPath = true
  fast : s.inFastPath = false

theorem find_ne {c : BlockLinkCache w} (h : ∀ i, (c.slots i).2 ≠ .fastDisableBlock) {pc : BitVec w}
    {b : BlockPtr w} (hf : c.find pc = some b) : b ≠ .fastDisableBlock := by
  unfold BlockLinkCache.find at hf
  rw [Option.map_eq_some_iff] at hf
  obtain ⟨i, _, rfl⟩ := hf
  exact h i

/-! ### The guard -/

namespace Guarded

/-- The dummy block has no links, so that no transfer of control can leave it on the fast path. -/
theorem dummy (h : s.Guarded) : s.dummyBlock.Detached := h.blocks .dummyBlock

/-- The dummy block can be written, and the fields that the guard does not mention. -/
theorem congr {s' : DBBCache w Op} (h : s.Guarded) (h1 : s'.blockmap = s.blockmap)
    (h2 : s'.dummyBlock.Detached) (h3 : s'.fastDisableBlock = s.fastDisableBlock)
    (h4 : ∀ i, (s'.trapLinkCache.slots i).2 ≠ .fastDisableBlock) (h5 : s'.curBlock ≠ .fastDisableBlock) :
    s'.Guarded where
  disable := by
    rw [h3]
    exact h.disable
  cur := h5
  blocks := by
    intro p
    cases p with
    | dummyBlock => exact h2
    | fastDisableBlock =>
      rw [getBlock, h3]
      exact h.blocks .fastDisableBlock
    | heap k =>
      rw [getBlock, h1]
      exact h.blocks (.heap k)
  trap := h4

theorem setBlock (h : s.Guarded) {p : BlockPtr w} {b : Block w Op} (hp : p ≠ .fastDisableBlock)
    (hb : b.Detached) : (s.setBlock p b).Guarded where
  disable := by
    cases p with
    | fastDisableBlock => exact absurd rfl hp
    | dummyBlock => exact h.disable
    | heap k => exact h.disable
  cur := by
    rw [setBlock_curBlock]
    exact h.cur
  blocks := by
    intro q
    by_cases hq : q = p
    · subst hq
      rw [getBlock_setBlock_self]
      exact hb
    · rw [getBlock_setBlock_of_ne s b hq]
      exact h.blocks q
  trap := by
    rw [setBlock_trapLinkCache]
    exact h.trap

theorem switchBlock (h : s.Guarded) {b : BlockPtr w} (hb : b ≠ .fastDisableBlock) :
    (s.switchBlock b).Guarded := by
  obtain ⟨f, i, slow, he, _⟩ := s.switchBlock_eq b
  rw [he]
  exact h.congr rfl h.dummy rfl h.trap hb

theorem switchBlockDummy (h : s.Guarded) (pc : BitVec w) : (s.switchBlockDummy pc).Guarded := by
  refine h.congr rfl ?_ rfl h.trap nofun
  exact (h.dummy.keepLink 0 (by rfl)).keepLink 1 (by rfl)

theorem findCreateSwitchBlock (h : s.Guarded) (pc : BitVec w) :
    (s.findCreateSwitchBlock pc).Guarded := by
  unfold DBBCache.findCreateSwitchBlock
  split
  · exact h.switchBlock nofun
  · have hc : (s.setBlock (.heap pc) (Block.init pc s.coherenceCnt)).Guarded :=
      h.setBlock nofun (Block.detached_init pc _)
    exact hc.switchBlock nofun

theorem branchTakenMiss (h : s.Guarded) (off : BitVec 32) : (s.branchTakenMiss isa off).2.Guarded := by
  unfold DBBCache.branchTakenMiss
  dsimp only
  split_ifs with hmis hena hdummy
  · exact h
  · have hf := h.findCreateSwitchBlock
      (((s.getBlock s.curBlock).entries s.curEntryIdx).pc + off.signExtend w)
    refine hf.setBlock h.cur ((hf.blocks _).setEntry _ ?_)
    intro hlink
    exact hf.cur (Option.some.inj hlink)
  · exact h.findCreateSwitchBlock _
  · exact h.switchBlockDummy _

theorem branchTakenSjump (h : s.Guarded) (off : BitVec 32) :
    (s.branchTakenSjump isa off).2.Guarded := by
  have hlink : ∀ {p : EntryPtr w} {b : BlockPtr w}, (s.deref p).link = some b →
      b ≠ .fastDisableBlock := by
    intro p b hb hne
    subst hne
    exact (h.blocks p.block).link p.idx hb
  unfold DBBCache.branchTakenSjump
  split
  · next b hb =>
    split_ifs at hb
    exact h.switchBlock (hlink hb)
  · dsimp only
    have h' : (if s.inFastPath = true then
        { s with curEntryIdx := ((s.deref s.fastEntry).idx.toNat : ℤ) } else s).Guarded := by
      split_ifs
      · exact h.congr rfl h.dummy rfl h.trap h.cur
      · exact h
    generalize (if s.inFastPath = true then
        { s with curEntryIdx := ((s.deref s.fastEntry).idx.toNat : ℤ) } else s) = s' at h' ⊢
    split
    · next b hb =>
      split_ifs at hb
      refine h'.switchBlock fun hne => ?_
      subst hne
      exact (h'.blocks _).link _ hb
    · exact h'.branchTakenMiss off

theorem jumpDyn (h : s.Guarded) (pc : BitVec w) : (s.jumpDyn pc).Guarded := by
  unfold DBBCache.jumpDyn
  split
  · next b hb => exact h.switchBlock (find_ne (h.blocks _).dyn hb)
  · split_ifs
    · have hf := h.findCreateSwitchBlock pc
      exact hf.setBlock h.cur ((hf.blocks _).addDyn pc hf.cur)
    · exact h.switchBlockDummy pc

theorem enterTrap (h : s.Guarded) (pc : BitVec w) : (s.enterTrap pc).Guarded := by
  unfold DBBCache.enterTrap
  split
  · next b hb => exact h.switchBlock (find_ne h.trap hb)
  · split_ifs
    · have hf := h.findCreateSwitchBlock pc
      refine ⟨hf.disable, hf.cur, hf.blocks, fun i => ?_⟩
      by_cases hi : i = (s.findCreateSwitchBlock pc).trapLinkCache.curIdx
      · simpa [BlockLinkCache.add, hi] using hf.cur
      · simpa [BlockLinkCache.add, Function.update_of_ne hi] using hf.trap i
    · exact h.switchBlockDummy pc

theorem coherenceUpdate (h : s.Guarded) : s.coherenceUpdate.Guarded := by
  unfold DBBCache.coherenceUpdate
  dsimp only
  split_ifs
  · exact h.congr rfl h.dummy rfl h.trap h.cur
  · exact h.congr rfl h.dummy rfl h.trap h.cur

theorem enable (h : s.Guarded) (ena : Bool) : (s.enable ena).Guarded := by
  unfold DBBCache.enable
  dsimp only
  split_ifs
  · exact h
  · exact h.congr rfl h.dummy rfl h.trap h.cur
  · have h1 : ({ s with enabled := ena }.setBlock s.curBlock
        ({ s with enabled := ena }.getBlock s.curBlock).invalidateLinks).Guarded :=
      (h.congr rfl h.dummy rfl h.trap h.cur : { s with enabled := ena }.Guarded).setBlock h.cur
        (by
          rw [getBlock_congr rfl rfl rfl]
          exact (h.blocks s.curBlock).invalidateLinks)
    exact h1.congr rfl h1.dummy.invalidateLinks rfl h1.trap h1.cur

theorem forceSlowPath (h : s.Guarded) : s.forceSlowPath.Guarded := by
  unfold DBBCache.forceSlowPath
  dsimp only
  split_ifs
  all_goals exact h.congr rfl h.dummy rfl h.trap h.cur

end Guarded

/-! ### Fetching -/

/-- A part of `fetch_decode` keeps the guard and the flag, and the fast entry unless `on`. -/
structure Kept (on : Prop) (s s' : DBBCache w Op) : Prop where
  guarded : s'.Guarded
  slowPath : s'.slowPath = s.slowPath
  fastEntry : ¬on → s'.fastEntry = s.fastEntry

theorem Kept.trans {on : Prop} {s' s'' : DBBCache w Op} (h : s.Kept on s') (h' : s'.Kept on s'') :
    s.Kept on s'' :=
  ⟨h'.guarded, h'.slowPath.trans h.slowPath, fun ho => (h'.fastEntry ho).trans (h.fastEntry ho)⟩

theorem Kept.setBlock {on : Prop} {s' : DBBCache w Op} (h : s.Kept on s') {b : Block w Op}
    (hb : b.Detached) : s.Kept on (s'.setBlock s'.curBlock b) :=
  ⟨h.guarded.setBlock h.guarded.cur hb, (setBlock_slowPath _ _ _).trans h.slowPath,
    fun ho => (setBlock_fastEntry _ _ _).trans (h.fastEntry ho)⟩

theorem Kept.setCurEntryIdx {on : Prop} {s' : DBBCache w Op} (h : s.Kept on s') (i : ℤ) :
    s.Kept on { s' with curEntryIdx := i } :=
  ⟨h.guarded.congr rfl h.guarded.dummy rfl h.guarded.trap h.guarded.cur, h.slowPath, h.fastEntry⟩

theorem Kept.setDummyBlock {on : Prop} {s' : DBBCache w Op} (h : s.Kept on s') {d : Block w Op}
    (hd : d.Detached) (exc : Bool) : s.Kept on { s' with dummyBlock := d, exception := exc } :=
  ⟨h.guarded.congr rfl hd rfl h.guarded.trap h.guarded.cur, h.slowPath, h.fastEntry⟩

variable {on : Prop} {mem : InstrMem w} {pc : BitVec w}

theorem Guarded.kept_refl (h : s.Guarded) : s.Kept on s := ⟨h, rfl, fun _ => rfl⟩

theorem Guarded.kept_fetch (h : s.Guarded) : s.Kept on (s.fetch mem pc).2 := by
  unfold DBBCache.fetch
  dsimp only
  split
  · exact h.kept_refl.setDummyBlock h.dummy false
  · exact h.kept_refl.setDummyBlock (h.dummy.keepLink 0 (by rfl)) true

theorem Guarded.kept_fetchDecodeAddEntry (h : s.Guarded) :
    s.Kept on (s.fetchDecodeAddEntry isa mem pc).2 := by
  have hk : s.Kept on (s.fetch mem pc).2 := h.kept_fetch
  unfold DBBCache.fetchDecodeAddEntry
  split
  · next hf =>
    rw [hf] at hk
    exact hk
  · next word s' hf =>
    rw [hf] at hk
    have hb := (hk.guarded.blocks s'.curBlock).decodeUpdateEntry isa
      (s'.getBlock s'.curBlock).len pc word
    exact (hk.setBlock (((hb.keepLink _ (by rfl)).keepLink _ (by rfl)).setLen _ _)).setCurEntryIdx _

theorem Guarded.kept_fetchDecodeDummy (h : s.Guarded) :
    s.Kept on (s.fetchDecodeDummy isa mem pc).2 := by
  unfold DBBCache.fetchDecodeDummy
  dsimp only
  have h0 : s.Kept on { s with
      curEntryIdx := 0
      dummyBlock := s.dummyBlock.setEntry 0 { s.dummyBlock.entries 0 with pc := pc } } :=
    (h.kept_refl.setDummyBlock (h.dummy.keepLink 0 (by rfl)) s.exception).setCurEntryIdx 0
  have hk := h0.trans (@Guarded.kept_fetch _ _ _ _ mem pc h0.guarded)
  split
  · next hf =>
    rw [hf] at hk
    exact hk
  · next word s' hf =>
    rw [hf] at hk
    refine ⟨hk.guarded.congr rfl ?_ rfl hk.guarded.trap hk.guarded.cur, hk.slowPath, hk.fastEntry⟩
    exact (hk.guarded.dummy.keepLink 0 (by rfl)).keepLink 1 (by rfl)

/-- The block that `fetch_decode` is about to read from is turned on: it has the next entry, and is
coherent or can be repaired. -/
def TurnsFastOn (isa : Isa Op) (mem : InstrMem w) (s : DBBCache w Op) : Prop :=
  s.curBlock ≠ .dummyBlock ∧ s.curEntryIdx + 1 < (s.getBlock s.curBlock).len ∧
    ((s.getBlock s.curBlock).coherenceCnt = s.coherenceCnt ∨
      (repairLoop isa mem (s.getBlock s.curBlock).len 0 (s.getBlock s.curBlock).startAddr true
        (s.getBlock s.curBlock)).2 = none)

instance decidableTurnsFastOn (isa : Isa Op) (mem : InstrMem w) (s : DBBCache w Op) :
    Decidable (s.TurnsFastOn isa mem) :=
  have : Decidable ((repairLoop isa mem (s.getBlock s.curBlock).len 0
      (s.getBlock s.curBlock).startAddr true (s.getBlock s.curBlock)).2 = none) :=
    decidable_of_iff _ Option.isNone_iff_eq_none
  inferInstanceAs (Decidable (_ ∧ _ ∧ (_ ∨ _)))

theorem Guarded.kept_fetchDecodeRepair (h : s.Guarded) (i : ℤ) :
    s.Kept ((repairLoop isa mem (s.getBlock s.curBlock).len 0 (s.getBlock s.curBlock).startAddr true
        (s.getBlock s.curBlock)).2 = none)
      (s.fetchDecodeRepair isa mem pc i).2 := by
  have hb := Block.Detached.repairLoop isa mem (s.getBlock s.curBlock).len 0
    (s.getBlock s.curBlock).startAddr true (h.blocks s.curBlock)
  have hget : { s with exception := false }.getBlock s.curBlock = s.getBlock s.curBlock :=
    getBlock_congr rfl rfl rfl _
  unfold DBBCache.fetchDecodeRepair
  dsimp only
  rw [hget]
  generalize repairLoop isa mem (s.getBlock s.curBlock).len 0 (s.getBlock s.curBlock).startAddr true
    (s.getBlock s.curBlock) = r at hb
  obtain ⟨b, f⟩ := r
  have h0 : ∀ on : Prop, s.Kept on { s with exception := false } :=
    fun on => h.kept_refl.setDummyBlock h.dummy false
  cases f with
  | none =>
    dsimp only
    have hs := (h0 True).setBlock (hb.setLen b.len s.coherenceCnt)
    exact ⟨hs.guarded.congr rfl hs.guarded.dummy rfl hs.guarded.trap hs.guarded.cur, hs.slowPath,
      fun hno => absurd rfl hno⟩
  | some f =>
    dsimp only
    have hs : s.Kept False ({ s with exception := false }.setBlock s.curBlock b) :=
      (h0 False).setBlock hb
    generalize { s with exception := false }.setBlock s.curBlock b = s1 at hs ⊢
    split_ifs
    · exact hs.setDummyBlock (hs.guarded.dummy.keepLink 0 (by rfl)) true
    · have hk := hs.trans (@Guarded.kept_fetch _ _ _ _ mem pc hs.guarded)
      split
      · next hf =>
        rw [hf] at hk
        exact hk
      · next word s' hf =>
        rw [hf] at hk
        exact (hk.setBlock ((hk.guarded.blocks s'.curBlock).decodeUpdateEntry isa i pc word)
          ).setCurEntryIdx i
    · exact hs.setCurEntryIdx i

theorem Guarded.kept_fetchDecodeSlow (h : s.Guarded) :
    s.Kept (s.TurnsFastOn isa mem) (s.fetchDecodeSlow isa mem pc).2 := by
  unfold DBBCache.fetchDecodeSlow
  split_ifs with hd
  · exact h.kept_fetchDecodeDummy
  · dsimp only
    split_ifs with hlen hcoh
    · exact h.kept_fetchDecodeAddEntry
    · obtain ⟨hg, hs, hf⟩ := @Guarded.kept_fetchDecodeRepair _ _ _ isa mem pc h
        (s.curEntryIdx + 1)
      exact ⟨hg, hs, fun hno => hf fun hr => hno ⟨hd, not_le.mp hlen, Or.inr hr⟩⟩
    · refine ⟨h.congr rfl h.dummy rfl h.trap h.cur, rfl, fun hno => ?_⟩
      exact absurd ⟨hd, not_le.mp hlen, Or.inl (not_not.mp hcoh)⟩ hno

/-! ### The flag -/

theorem held_forceSlowPath (s : DBBCache w Op) : s.forceSlowPath.Held := by
  unfold DBBCache.forceSlowPath
  dsimp only
  split_ifs with hf hi
  · exact ⟨rfl, by simp [inFastPath, fastPathRawDisable]⟩
  · exact ⟨rfl, by simp [inFastPath, fastPathRawDisable]⟩
  · exact ⟨rfl, Bool.eq_false_iff.mpr hf⟩

/-- A fence leaves the fast path, since every block is stale after it. -/
theorem inFastPath_coherenceUpdate (s : DBBCache w Op) : s.coherenceUpdate.inFastPath = false := by
  unfold DBBCache.coherenceUpdate
  dsimp only
  split_ifs with hf
  · simp [inFastPath, fastPathRawDisable]
  · exact Bool.eq_false_iff.mpr hf

theorem slowPath_coherenceUpdate (s : DBBCache w Op) : s.coherenceUpdate.slowPath = s.slowPath := by
  unfold DBBCache.coherenceUpdate
  dsimp only
  split_ifs <;> rfl

theorem inFastPath_enable (s : DBBCache w Op) (ena : Bool) :
    (s.enable ena).inFastPath = s.inFastPath := by
  unfold DBBCache.enable
  dsimp only
  split_ifs
  · rfl
  · rfl
  · exact setBlock_inFastPath _ _ _

theorem slowPath_enable (s : DBBCache w Op) (ena : Bool) :
    (s.enable ena).slowPath = s.slowPath := by
  unfold DBBCache.enable
  dsimp only
  split_ifs
  · rfl
  · rfl
  · exact setBlock_slowPath _ _ _

namespace Held

theorem fetchDecode (hh : s.Held) (h : s.Guarded) (hno : ¬s.TurnsFastOn isa mem) :
    (s.fetchDecode isa mem pc).2.Held := by
  have hk := @Guarded.kept_fetchDecodeSlow _ _ _ isa mem pc h
  rw [DBBCache.fetchDecode, if_neg (Bool.eq_false_iff.mp hh.fast)]
  refine ⟨hk.slowPath.trans hh.slowPath, ?_⟩
  rw [inFastPath_eq_false_iff, hk.fastEntry hno, ← inFastPath_eq_false_iff]
  exact hh.fast

theorem coherenceUpdate (hh : s.Held) : s.coherenceUpdate.Held :=
  ⟨(slowPath_coherenceUpdate s).trans hh.slowPath, inFastPath_coherenceUpdate s⟩

theorem enable (hh : s.Held) (ena : Bool) : (s.enable ena).Held :=
  ⟨(slowPath_enable s ena).trans hh.slowPath, (inFastPath_enable s ena).trans hh.fast⟩

theorem switchBlock (hh : s.Held) (b : BlockPtr w) : (s.switchBlock b).inFastPath = false := by
  obtain ⟨f, i, slow, he, hcase⟩ := s.switchBlock_eq b
  rw [he, inFastPath_eq_false_iff]
  rcases hcase with ⟨_, hon, _⟩ | ⟨hf, _⟩
  · rw [hh.fast, hh.slowPath] at hon
    simp at hon
  · exact hf

theorem switchBlockDummy (s : DBBCache w Op) (pc : BitVec w) :
    (s.switchBlockDummy pc).inFastPath = false := by
  simp [DBBCache.switchBlockDummy, inFastPath]

theorem setBlock (hh : s.Held) (p : BlockPtr w) (b : Block w Op) : (s.setBlock p b).Held :=
  ⟨(setBlock_slowPath _ _ _).trans hh.slowPath, (setBlock_inFastPath _ _ _).trans hh.fast⟩

theorem findCreateSwitchBlock (hh : s.Held) (pc : BitVec w) :
    (s.findCreateSwitchBlock pc).inFastPath = false := by
  unfold DBBCache.findCreateSwitchBlock
  split
  · exact hh.switchBlock _
  · exact (hh.setBlock _ _).switchBlock _

theorem branchTakenSjump (hh : s.Held) (off : BitVec 32) :
    (s.branchTakenSjump isa off).2.inFastPath = false := by
  have hslow : ¬s.inFastPath = true := Bool.eq_false_iff.mp hh.fast
  unfold DBBCache.branchTakenSjump
  rw [if_neg hslow, if_neg hslow]
  dsimp only
  split
  · exact hh.switchBlock _
  · unfold DBBCache.branchTakenMiss
    dsimp only
    split_ifs
    · exact hh.fast
    · rw [setBlock_inFastPath]
      exact hh.findCreateSwitchBlock _
    · exact hh.findCreateSwitchBlock _
    · exact switchBlockDummy _ _

theorem jumpDyn (hh : s.Held) (pc : BitVec w) : (s.jumpDyn pc).inFastPath = false := by
  unfold DBBCache.jumpDyn
  split
  · exact hh.switchBlock _
  · split_ifs
    · rw [setBlock_inFastPath]
      exact hh.findCreateSwitchBlock _
    · exact switchBlockDummy _ _

end Held

/-- `abort_fetch_decode_fast` undoes `fetch_decode_fast`: the pointer goes one entry on and back again. -/
theorem abortFetchDecodeFast_fetchDecodeFast (s : DBBCache w Op) :
    s.fetchDecodeFast.2.2.abortFetchDecodeFast = s := by
  simp [fetchDecodeFast, abortFetchDecodeFast, EntryPtr.next, EntryPtr.prev]

/-- While the fast path is off, `fetch_decode_fast` finds the abort label. -/
theorem Guarded.fetchDecodeFast_of_slow (h : s.Guarded) (hf : s.inFastPath = false) :
    s.fetchDecodeFast.1 = .fastAbort := by
  rw [inFastPath_eq_false_iff] at hf
  show (s.deref s.fastEntry.next).opLabelPtr = .fastAbort
  rw [hf]
  exact h.disable

theorem Guarded.fetchDecodeFast (h : s.Guarded) : s.fetchDecodeFast.2.2.Guarded :=
  h.congr rfl h.dummy rfl h.trap h.cur

/-! ### The start -/

theorem guarded_init (enabled : Bool) (entrypoint : BitVec w) :
    (init enabled entrypoint : DBBCache w Op).Guarded := by
  unfold DBBCache.init
  dsimp only
  generalize hs : ({ enabled := enabled, memWord := 0, .. } : DBBCache w Op) = s0
  have h0 : s0.Guarded := by
    subst hs
    refine ⟨by simp [Block.setEntry], nofun, fun p => ?_, fun i => nofun⟩
    cases p with
    | dummyBlock => exact Block.detached_init 0 0
    | fastDisableBlock => exact (Block.detached_init 0 0).keepLink 1 (by rfl)
    | heap k => exact Block.detached_init k 0
  split_ifs
  · exact h0.findCreateSwitchBlock entrypoint
  · exact h0.switchBlockDummy entrypoint

end DBBCache

end RiscvVp
