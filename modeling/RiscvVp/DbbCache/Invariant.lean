import RiscvVp.DbbCache.Driver

/-!
# The invariant of the block graph

`DBBCache.Inv` ties the fast entry pointer, the current block and its index, the terminals and
the links to one plain program counter.

* `Block.WF` holds of every block at all times: indices, terminal, start address, decoded entries,
  and links that lead to the block of the static target.
* `Block.Laid` says that the entries lie one after the other in memory.  A block that has not been
  repaired since the last fence need not be laid out, so the invariant asks it of the blocks that
  are *live*: with `all` of every block, without of the blocks whose `coherence_cnt` is current.
* The fast path only ever walks a live block.
-/

namespace RiscvVp

variable {w : ℕ} {Op : Type}

/-! ### Link caches -/

/-- Every slot is invalid or links an address to the block that starts there. -/
def BlockLinkCache.WF (c : BlockLinkCache w) : Prop :=
  ∀ i, (c.slots i).1 = BitVec.allOnes w ∨ (c.slots i).2 = .heap (c.slots i).1

namespace BlockLinkCache

theorem wf_new (size : ℕ) : (new size : BlockLinkCache w).WF := fun _ => Or.inl rfl

theorem WF.reset (c : BlockLinkCache w) : c.reset.WF := fun _ => Or.inl rfl

theorem WF.add {c : BlockLinkCache w} (h : c.WF) (pc : BitVec w) : (c.add pc (.heap pc)).WF := by
  intro i
  by_cases hi : i = c.curIdx
  · right
    simp [BlockLinkCache.add, hi]
  · simpa [BlockLinkCache.add, Function.update_of_ne hi] using h i

/-- A link that is found leads to the block of the address looked up. -/
theorem WF.find {c : BlockLinkCache w} (h : c.WF) {pc : BitVec w} (hpc : pc ≠ BitVec.allOnes w)
    {b : BlockPtr w} (hf : c.find pc = some b) : b = .heap pc := by
  unfold BlockLinkCache.find at hf
  rw [Option.map_eq_some_iff] at hf
  obtain ⟨i, hi, rfl⟩ := hf
  have hslot : (c.slots i).1 = pc := by simpa using List.find?_some hi
  rcases h i with h1 | h2
  · exact absurd (hslot.symm.trans h1) hpc
  · rw [h2, hslot]

end BlockLinkCache

/-- An address with bit 0 clear is not `INVALID_PC`. -/
theorem ne_allOnes_of_getLsbD_zero (hw : 0 < w) {pc : BitVec w} (h : pc.getLsbD 0 = false) :
    pc ≠ BitVec.allOnes w := by
  rintro rfl
  simp [hw] at h

/-! ### Entries and blocks -/

/-- The target of the static jump in an entry. -/
def Entry.target (isa : Isa Op) (e : Entry w Op) : BitVec w :=
  e.pc + (isa.labelOffset e.opLabelPtr e.instr).signExtend w

/-- The address after an entry. -/
def Entry.nextPc (e : Entry w Op) : BitVec w := e.pc + BitVec.ofNat w e.pcIncrement

/-- The entry holds the decoding of its memory word. -/
structure Entry.IsDecoded (isa : Isa Op) (e : Entry w Op) : Prop where
  label : e.opLabelPtr = .op (isa.decode e.memWord).op
  instr : e.instr = (isa.decode e.memWord).instr
  pcIncrement : e.pcIncrement = (isa.decode e.memWord).pcIncrement

/-- Every index up to the terminal is stored in its entry; this is where a block of `2^16` entries
breaks. -/
def Block.Indexed (b : Block w Op) : Prop :=
  ∀ i : ℤ, 0 ≤ i → i ≤ b.len → ((b.entries i).idx.toNat : ℤ) = i

/-- What holds of every block, coherent or not. -/
structure Block.WF (isa : Isa Op) (k : BitVec w) (b : Block w Op) : Prop where
  startAddr : b.startAddr = k
  pcZero : (b.entries 0).pc = k
  cycleZero : (b.entries 0).cycleCounterRaw = 0
  idx : b.Indexed
  terminal : (b.entries b.len).opLabelPtr = .fastAbort
  decoded : ∀ i : ℤ, 0 ≤ i → i < b.len → (b.entries i).IsDecoded isa
  link : ∀ i : ℤ, 0 ≤ i → i < b.len → ∀ p, (b.entries i).link = some p →
    p = .heap ((b.entries i).target isa)
  dyn : b.jumpDynLinkCache.WF

/-- The entries lie one after the other. -/
def Block.Laid (b : Block w Op) : Prop :=
  ∀ i : ℤ, 0 ≤ i → i + 1 < b.len → (b.entries (i + 1)).pc = (b.entries i).nextPc

/-- The entries carry the instruction time summed up before them. -/
def Block.Timed (isa : Isa Op) (b : Block w Op) : Prop :=
  ∀ i : ℤ, 0 ≤ i → i < b.len → (b.entries (i + 1)).cycleCounterRaw =
    (b.entries i).cycleCounterRaw +
      (isa.instrTime (isa.decode (b.entries i).memWord).op).setWidth 32

/-- Every entry holds the word that memory has at its address. -/
def Block.Matches (mem : InstrMem w) (b : Block w Op) : Prop :=
  ∀ i : ℤ, 0 ≤ i → i < b.len → mem (b.entries i).pc = .ok (b.entries i).memWord

/-- Two blocks with the same code: they differ at most in their links. -/
structure Block.SameCode (b b' : Block w Op) : Prop where
  startAddr : b'.startAddr = b.startAddr
  len : b'.len = b.len
  coherenceCnt : b'.coherenceCnt = b.coherenceCnt
  entries : ∀ i, (b'.entries i).resetLink = (b.entries i).resetLink

namespace Block

theorem init_entries_zero (k : BitVec w) (c : BitVec 32) :
    ((init k c : Block w Op).entries 0) = { (Entry.blank : Entry w Op) with pc := k } := by
  simp [init, Entry.blank]

theorem wf_init (isa : Isa Op) (k : BitVec w) (c : BitVec 32) : (init k c : Block w Op).WF isa k where
  startAddr := rfl
  pcZero := by rw [init_entries_zero]
  cycleZero := by rw [init_entries_zero]; rfl
  idx := by
    intro i h0 h1
    obtain rfl : i = 0 := le_antisymm h1 h0
    rw [init_entries_zero]
    rfl
  terminal := by
    show ((init k c : Block w Op).entries 0).opLabelPtr = .fastAbort
    rw [init_entries_zero]
    rfl
  decoded := by
    intro i h0 h1
    exact absurd h1 (not_lt.mpr h0)
  link := by
    intro i h0 h1
    exact absurd h1 (not_lt.mpr h0)
  dyn := BlockLinkCache.wf_new _

theorem laid_of_len_zero {b : Block w Op} (h : b.len = 0) : b.Laid := by
  intro i h0 h1
  rw [h] at h1
  omega

namespace SameCode

theorem refl (b : Block w Op) : b.SameCode b := ⟨rfl, rfl, rfl, fun _ => rfl⟩

variable {b b' : Block w Op} (h : b.SameCode b') (i : ℤ)

include h

theorem trans {b'' : Block w Op} (h' : b'.SameCode b'') : b.SameCode b'' :=
  ⟨h'.startAddr.trans h.startAddr, h'.len.trans h.len, h'.coherenceCnt.trans h.coherenceCnt,
    fun i => (h'.entries i).trans (h.entries i)⟩

theorem pc : (b'.entries i).pc = (b.entries i).pc := (congrArg Entry.pc (h.entries i) :)

theorem memWord : (b'.entries i).memWord = (b.entries i).memWord :=
  (congrArg Entry.memWord (h.entries i) :)

theorem opLabelPtr : (b'.entries i).opLabelPtr = (b.entries i).opLabelPtr :=
  (congrArg Entry.opLabelPtr (h.entries i) :)

theorem instr : (b'.entries i).instr = (b.entries i).instr := (congrArg Entry.instr (h.entries i) :)

theorem pcIncrement : (b'.entries i).pcIncrement = (b.entries i).pcIncrement :=
  (congrArg Entry.pcIncrement (h.entries i) :)

theorem idx : (b'.entries i).idx = (b.entries i).idx := (congrArg Entry.idx (h.entries i) :)

theorem cycleCounterRaw : (b'.entries i).cycleCounterRaw = (b.entries i).cycleCounterRaw :=
  (congrArg Entry.cycleCounterRaw (h.entries i) :)

theorem nextPc : (b'.entries i).nextPc = (b.entries i).nextPc := by
  rw [Entry.nextPc, Entry.nextPc, h.pc, h.pcIncrement]

theorem target (isa : Isa Op) : (b'.entries i).target isa = (b.entries i).target isa := by
  rw [Entry.target, Entry.target, h.pc, h.opLabelPtr, h.instr]

omit i

theorem laid (hl : b.Laid) : b'.Laid := by
  intro i h0 h1
  rw [h.len] at h1
  rw [h.pc, h.nextPc]
  exact hl i h0 h1

theorem timed {isa : Isa Op} (ht : b.Timed isa) : b'.Timed isa := by
  intro i h0 h1
  rw [h.len] at h1
  rw [h.cycleCounterRaw, h.cycleCounterRaw, h.memWord]
  exact ht i h0 h1

theorem matches_ {mem : InstrMem w} (hm : b.Matches mem) : b'.Matches mem := by
  intro i h0 h1
  rw [h.len] at h1
  rw [h.pc, h.memWord]
  exact hm i h0 h1

/-- A block with the same code is well formed as soon as its links are. -/
theorem wf {isa : Isa Op} {k : BitVec w} (hwf : b.WF isa k)
    (hlink : ∀ i : ℤ, 0 ≤ i → i < b.len → ∀ p, (b'.entries i).link = some p →
      p = .heap ((b.entries i).target isa))
    (hdyn : b'.jumpDynLinkCache.WF) : b'.WF isa k where
  startAddr := h.startAddr.trans hwf.startAddr
  pcZero := (h.pc 0).trans hwf.pcZero
  cycleZero := (h.cycleCounterRaw 0).trans hwf.cycleZero
  idx := by
    intro i h0 h1
    rw [h.len] at h1
    rw [h.idx]
    exact hwf.idx i h0 h1
  terminal := by
    rw [h.len, h.opLabelPtr]
    exact hwf.terminal
  decoded := by
    intro i h0 h1
    rw [h.len] at h1
    obtain ⟨hl, hi, hp⟩ := hwf.decoded i h0 h1
    refine ⟨?_, ?_, ?_⟩
    · rw [h.opLabelPtr, h.memWord, hl]
    · rw [h.instr, h.memWord, hi]
    · rw [h.pcIncrement, h.memWord, hp]
  link := by
    intro i h0 h1 p hp
    rw [h.len] at h1
    rw [h.target]
    exact hlink i h0 h1 p hp
  dyn := hdyn

end SameCode

/-- `invalidate_links` keeps the code: words, addresses and sums of cycles are what they were. -/
theorem sameCode_invalidateLinks (b : Block w Op) : b.SameCode b.invalidateLinks where
  startAddr := rfl
  len := rfl
  coherenceCnt := rfl
  entries := by
    intro i
    unfold invalidateLinks
    dsimp only
    split_ifs <;> rfl

theorem WF.invalidateLinks {isa : Isa Op} {k : BitVec w} {b : Block w Op} (h : b.WF isa k) :
    b.invalidateLinks.WF isa k := by
  refine b.sameCode_invalidateLinks.wf h ?_ (BlockLinkCache.WF.reset _)
  intro i h0 h1 p hp
  have hnone : (b.invalidateLinks.entries i).link = none := by
    simp [Block.invalidateLinks, Entry.resetLink, h0, h1]
  rw [hnone] at hp
  cases hp

/-- Linking an entry keeps the code, the link being no part of it. -/
theorem sameCode_setLink (b : Block w Op) (i : ℤ) (p : Option (BlockPtr w)) :
    b.SameCode (b.setEntry i { b.entries i with link := p }) := by
  refine ⟨rfl, rfl, rfl, fun j => ?_⟩
  by_cases hj : j = i
  · subst hj
    simp [setEntry, Entry.resetLink]
  · simp [setEntry, Function.update_of_ne hj]

theorem WF.addDyn {isa : Isa Op} {k : BitVec w} {b : Block w Op} (h : b.WF isa k) (pc : BitVec w) :
    { b with jumpDynLinkCache := b.jumpDynLinkCache.add pc (.heap pc) }.WF isa k :=
  ⟨h.startAddr, h.pcZero, h.cycleZero, h.idx, h.terminal, h.decoded, h.link, h.dyn.add pc⟩

theorem WF.setLink {isa : Isa Op} {k : BitVec w} {b : Block w Op} (h : b.WF isa k) (i : ℤ)
    {p : BlockPtr w} (hp : p = .heap ((b.entries i).target isa)) :
    (b.setEntry i { b.entries i with link := some p }).WF isa k := by
  refine (b.sameCode_setLink i (some p)).wf h ?_ h.dyn
  intro j h0 h1 q hq
  by_cases hj : j = i
  · subst hj
    simp only [setEntry, Function.update_self, Option.some.injEq] at hq
    rw [← hq, hp]
  · simp only [setEntry, Function.update_of_ne hj] at hq
    exact h.link j h0 h1 q hq

end Block

/-! ### The state -/

namespace DBBCache

/-- A block the invariant knows to be laid out: any block, or a coherent one. -/
def Live (all : Bool) (s : DBBCache w Op) (b : Block w Op) : Prop :=
  all = true ∨ b.coherenceCnt = s.coherenceCnt

/-- The invariant of the cache: every block is well formed, links lead to the blocks they are for, and the
position lies within the current block. -/
structure Inv (isa : Isa Op) (all : Bool) (s : DBBCache w Op) : Prop where
  heap : ∀ k, (s.getBlock (.heap k)).WF isa k
  laid : ∀ k, s.Live all (s.getBlock (.heap k)) → (s.getBlock (.heap k)).Laid
  dummyCycle : (s.dummyBlock.entries 0).cycleCounterRaw = 0
  dummyLen : s.dummyBlock.len = 0
  dummyDyn : s.dummyBlock.jumpDynLinkCache.WF
  trapLinks : s.trapLinkCache.WF
  disable : (s.fastDisableBlock.entries 1).opLabelPtr = .fastAbort
  cur : s.curBlock = .dummyBlock ∨ ∃ k, s.curBlock = .heap k
  fast : s.inFastPath = true → s.fastEntry.block = s.curBlock ∧ s.curBlock ≠ .dummyBlock ∧
    s.Live all (s.getBlock s.curBlock)
  pos : s.curBlock ≠ .dummyBlock →
    -1 ≤ s.lastEntry.idx ∧ s.lastEntry.idx < (s.getBlock s.curBlock).len
  posDummy : s.curBlock = .dummyBlock → s.lastEntry.idx = -1 ∨ s.lastEntry.idx = 0
  dummyFresh : s.curBlock = .dummyBlock → s.lastEntry.idx = -1 →
    (s.dummyBlock.entries 1).cycleCounterRaw = 0

/-- The code of `s'` is that of `s`, apart from blocks that are new and still empty. -/
structure Frame (s s' : DBBCache w Op) : Prop where
  coherenceCnt : s'.coherenceCnt = s.coherenceCnt
  exception : s'.exception = s.exception
  blocks : ∀ k, (s.getBlock (.heap k)).SameCode (s'.getBlock (.heap k)) ∨
    ((s.getBlock (.heap k)).len = 0 ∧
      (Block.init k s.coherenceCnt).SameCode (s'.getBlock (.heap k)))

theorem Frame.refl (s : DBBCache w Op) : s.Frame s :=
  ⟨rfl, rfl, fun _ => Or.inl (Block.SameCode.refl _)⟩

theorem Frame.trans {s s' s'' : DBBCache w Op} (h : s.Frame s') (h' : s'.Frame s'') :
    s.Frame s'' := by
  refine ⟨h'.coherenceCnt.trans h.coherenceCnt, h'.exception.trans h.exception, fun k => ?_⟩
  rcases h.blocks k with h1 | ⟨h1, h2⟩
  · rcases h'.blocks k with h3 | ⟨h3, h4⟩
    · exact Or.inl (h1.trans h3)
    · rw [h.coherenceCnt] at h4
      exact Or.inr ⟨h1.len ▸ h3, h4⟩
  · refine Or.inr ⟨h1, ?_⟩
    rcases h'.blocks k with h3 | ⟨_, h4⟩
    · exact h2.trans h3
    · rw [h.coherenceCnt] at h4
      exact h4

/-- A block with entries keeps its code. -/
theorem Frame.sameCode_of_len {s s' : DBBCache w Op} (h : s.Frame s') {k : BitVec w}
    (hlen : (s.getBlock (.heap k)).len ≠ 0) :
    (s.getBlock (.heap k)).SameCode (s'.getBlock (.heap k)) :=
  (h.blocks k).resolve_right fun h' => hlen h'.1

/-- What a transfer of control to `pc` leaves: the position before the first entry of a block
that starts at `pc`, all cycles committed, and the code as it was. -/
structure Landed (isa : Isa Op) (all : Bool) (s s' : DBBCache w Op) (pc : BitVec w) : Prop where
  inv : s'.Inv isa all
  idx : s'.lastEntry.idx = -1
  first : ((s'.getBlock s'.curBlock).entries 0).pc = pc
  cycles : s'.getCycleCounterRaw = s.getCycleCounterRaw
  frame : s.Frame s'

/-! ### The position -/

@[simp] theorem lastEntry_of_fast {s : DBBCache w Op} (h : s.inFastPath = true) :
    s.lastEntry = s.fastEntry := by
  rw [lastEntry, h]
  rfl

@[simp] theorem lastEntry_of_slow {s : DBBCache w Op} (h : s.inFastPath = false) :
    s.lastEntry = ⟨s.curBlock, s.curEntryIdx⟩ := by
  rw [lastEntry, h]
  rfl

theorem inFastPath_iff (s : DBBCache w Op) : s.inFastPath = true ↔ s.fastEntry ≠ fastDisabled := by
  simp [inFastPath]

theorem inFastPath_eq_false_iff (s : DBBCache w Op) :
    s.inFastPath = false ↔ s.fastEntry = fastDisabled := by
  simp [inFastPath]

namespace Inv

variable {isa : Isa Op} {all : Bool} {s : DBBCache w Op} (h : s.Inv isa all)

include h

/-- The position is always in the current block. -/
theorem lastEntry_block : s.lastEntry.block = s.curBlock := by
  cases hf : s.inFastPath with
  | true => rw [lastEntry_of_fast hf, (h.fast hf).1]
  | false => rw [lastEntry_of_slow hf]

theorem lastEntry_eq : s.lastEntry = ⟨s.curBlock, s.lastEntry.idx⟩ := by
  rw [← h.lastEntry_block]

/-- Reading through the position reads an entry of the current block, on the fast path and off it. -/
theorem deref_lastEntry :
    s.deref s.lastEntry = (s.getBlock s.curBlock).entries s.lastEntry.idx := by
  rw [deref, h.lastEntry_block]

theorem deref_lastEntry_next :
    s.deref s.lastEntry.next = (s.getBlock s.curBlock).entries (s.lastEntry.idx + 1) := by
  rw [deref, EntryPtr.next, h.lastEntry_block]

theorem idx_ge : -1 ≤ s.lastEntry.idx := by
  by_cases hd : s.curBlock = .dummyBlock
  · rcases h.posDummy hd with h1 | h1 <;> omega
  · exact (h.pos hd).1

/-- The current block, when it is not the dummy block. -/
theorem exists_heap (hd : s.curBlock ≠ .dummyBlock) : ∃ k, s.curBlock = .heap k :=
  h.cur.resolve_left hd

/-- `get_pc_maybe_after_callback` in terms of the position: the start of the block in front of its first
entry, and the address behind the last entry otherwise. -/
theorem getPc_eq : s.getPcMaybeAfterCallback =
    if s.lastEntry.idx = -1 then ((s.getBlock s.curBlock).entries 0).pc
    else (s.deref s.lastEntry).nextPc := by
  unfold getPcMaybeAfterCallback
  cases hf : s.inFastPath with
  | true =>
    have hblk := (h.fast hf).1
    have hptr : s.fastEntry = ⟨s.curBlock, -1⟩ ↔ s.fastEntry.idx = -1 := by
      constructor
      · intro he
        rw [he]
      · intro he
        rw [← hblk, ← he]
    rw [lastEntry_of_fast hf]
    by_cases hi : s.fastEntry.idx = -1
    · rw [if_pos hi]
      simp only [↓reduceIte, hptr.mpr hi, ne_eq, not_true_eq_false]
      rfl
    · rw [if_neg hi]
      simp only [↓reduceIte, ne_eq, mt hptr.mp hi, not_false_eq_true]
      rfl
  | false =>
    rw [lastEntry_of_slow hf]
    by_cases hi : s.curEntryIdx = -1
    · simp [hi]
    · simp only [ne_eq, hi, not_false_eq_true, ↓reduceIte, Bool.false_eq_true]
      rfl

theorem getPc_of_idx_eq (hi : s.lastEntry.idx = -1) :
    s.getPcMaybeAfterCallback = ((s.getBlock s.curBlock).entries 0).pc := by
  rw [h.getPc_eq, if_pos hi]

theorem getPc_of_idx_nonneg (hi : 0 ≤ s.lastEntry.idx) :
    s.getPcMaybeAfterCallback = (s.deref s.lastEntry).nextPc := by
  rw [h.getPc_eq, if_neg (by omega)]

theorem getCycles_eq : s.getCycleCounterRaw = s.cycleCounterRaw +
    ((s.getBlock s.curBlock).entries (s.lastEntry.idx + 1)).cycleCounterRaw.setWidth 64 := by
  rw [getCycleCounterRaw, h.deref_lastEntry_next]

end Inv

end DBBCache

end RiscvVp
