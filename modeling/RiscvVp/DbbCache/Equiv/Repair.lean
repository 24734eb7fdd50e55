import RiscvVp.DbbCache.Equiv.Transfer

/-!
# The repair of a block after a fence

`repairLoop` re-reads a block from its start address.  Where the word has changed the entry is
decoded again; where it has not, address, link and the cycle count that follows are kept.  So the
loop is right about an unchanged entry only if the entry still lies at the address the loop has
reached, which is what `Block.AddrOk` says, and if the cycle count after it is still the sum up to
there (`Block.TimeOk`).
-/

namespace RiscvVp

variable {w : ℕ} {Op : Type} {isa : Isa Op} {mem : InstrMem w} {b₀ b : Block w Op} {m : ℕ}

/-- The address at which the loop reads for entry `i`: the words from `start` on laid end to end,
as far as they can be read. -/
def walk (isa : Isa Op) (mem : InstrMem w) (start : BitVec w) : ℕ → Option (BitVec w)
  | 0 => some start
  | i + 1 =>
    match walk isa mem start i with
    | none => none
    | some a =>
      match mem a with
      | .ok word => some (a + BitVec.ofNat w (isa.decode word).pcIncrement)
      | .error _ => none

theorem walk_succ {start a : BitVec w} {i : ℕ} {word : Word} (ha : walk isa mem start i = some a)
    (hw : mem a = .ok word) :
    walk isa mem start (i + 1) = some (a + BitVec.ofNat w (isa.decode word).pcIncrement) := by
  simp only [walk, ha, hw]

/-- The entry is the one from before, but for its link, which may be gone, and its cycles. -/
structure Entry.Kept (e₀ e : Entry w Op) : Prop where
  pc : e.pc = e₀.pc
  opLabelPtr : e.opLabelPtr = e₀.opLabelPtr
  memWord : e.memWord = e₀.memWord
  instr : e.instr = e₀.instr
  pcIncrement : e.pcIncrement = e₀.pcIncrement
  link : e.link = none ∨ e.link = e₀.link

namespace Entry

theorem Kept.refl (e : Entry w Op) : e.Kept e := ⟨rfl, rfl, rfl, rfl, rfl, Or.inr rfl⟩

theorem Kept.resetLink {e₀ e : Entry w Op} (h : e₀.Kept e) : e₀.Kept e.resetLink :=
  ⟨h.pc, h.opLabelPtr, h.memWord, h.instr, h.pcIncrement, Or.inl rfl⟩

theorem Kept.isDecoded {e₀ e : Entry w Op} (h : e₀.Kept e) (hd : e₀.IsDecoded isa) :
    e.IsDecoded isa := by
  refine ⟨?_, ?_, ?_⟩
  · rw [h.opLabelPtr, h.memWord, hd.label]
  · rw [h.instr, h.memWord, hd.instr]
  · rw [h.pcIncrement, h.memWord, hd.pcIncrement]

theorem Kept.target {e₀ e : Entry w Op} (h : e₀.Kept e) : e.target isa = e₀.target isa := by
  rw [Entry.target, Entry.target, h.pc, h.opLabelPtr, h.instr]

end Entry

/-- What the loop has done to entry `i`, which it read as `word` at `a`. -/
inductive Block.Read (isa : Isa Op) (b₀ b : Block w Op) (i : ℤ) (a : BitVec w) (word : Word) : Prop
  | changed (hne : word ≠ (b₀.entries i).memWord) (pc : (b.entries i).pc = a)
      (decoded : (b.entries i).IsDecoded isa) (link : (b.entries i).link = none)
      (cycle : (b.entries (i + 1)).cycleCounterRaw =
        (b.entries i).cycleCounterRaw + (isa.instrTime (isa.decode word).op).setWidth 32)
  | unchanged (heq : word = (b₀.entries i).memWord) (kept : (b₀.entries i).Kept (b.entries i))
      (cycle : (b.entries (i + 1)).cycleCounterRaw = (b₀.entries (i + 1)).cycleCounterRaw)

/-- `b` is `b₀` after the loop has dealt with its first `m` entries. -/
structure Block.Reread (isa : Isa Op) (mem : InstrMem w) (b₀ : Block w Op) (m : ℕ) (b : Block w Op) :
    Prop where
  startAddr : b.startAddr = b₀.startAddr
  len : b.len = b₀.len
  coherenceCnt : b.coherenceCnt = b₀.coherenceCnt
  dyn : b₀.jumpDynLinkCache.WF → b.jumpDynLinkCache.WF
  idx : ∀ i, (b.entries i).idx = (b₀.entries i).idx
  done : ∀ i : ℕ, i < m → ∃ a word, walk isa mem b₀.startAddr i = some a ∧ mem a = .ok word ∧
    (b.entries i).memWord = word ∧ Block.Read isa b₀ b i a word
  rest : ∀ i : ℤ, m ≤ i → (b₀.entries i).Kept (b.entries i)
  cycleZero : (b.entries 0).cycleCounterRaw = (b₀.entries 0).cycleCounterRaw
  cycleRest : ∀ i : ℤ, m < i → (b.entries i).cycleCounterRaw = (b₀.entries i).cycleCounterRaw

namespace Block

/-! ### One round of the loop -/

theorem Reread.refl (isa : Isa Op) (mem : InstrMem w) (b₀ : Block w Op) : b₀.Reread isa mem 0 b₀ where
  startAddr := rfl
  len := rfl
  coherenceCnt := rfl
  dyn := id
  idx _ := rfl
  done := by
    intro i hi
    omega
  rest _ _ := Entry.Kept.refl _
  cycleZero := rfl
  cycleRest _ _ := rfl

/-- `invalidate_links` undoes nothing that a repair has done: it only takes links away. -/
theorem Reread.invalidateLinks (h : b₀.Reread isa mem m b) :
    b₀.Reread isa mem m b.invalidateLinks := by
  -- only links are reset; `Kept` allows that and `changed` asks for it
  have hs := b.sameCode_invalidateLinks
  have hkept : ∀ i, (b₀.entries i).Kept (b.entries i) →
      (b₀.entries i).Kept (b.invalidateLinks.entries i) := by
    intro i hi
    unfold Block.invalidateLinks
    dsimp only
    split_ifs
    · exact hi.resetLink
    · exact hi
  have hlink : ∀ i, (b.entries i).link = none → (b.invalidateLinks.entries i).link = none := by
    intro i hi
    unfold Block.invalidateLinks
    dsimp only
    split_ifs
    · rfl
    · exact hi
  refine ⟨h.startAddr, h.len, h.coherenceCnt, fun _ => BlockLinkCache.WF.reset _, ?_, ?_, ?_, ?_, ?_⟩
  · intro i
    rw [hs.idx]
    exact h.idx i
  · intro i hi
    obtain ⟨a, word, ha, hword, hmem, hread⟩ := h.done i hi
    refine ⟨a, word, ha, hword, (hs.memWord _).trans hmem, ?_⟩
    cases hread with
    | changed hne pc decoded link cycle =>
      refine .changed hne ((hs.pc _).trans pc) ?_ (hlink _ link) ?_
      · obtain ⟨d1, d2, d3⟩ := decoded
        refine ⟨?_, ?_, ?_⟩
        · rw [hs.opLabelPtr, hs.memWord, d1]
        · rw [hs.instr, hs.memWord, d2]
        · rw [hs.pcIncrement, hs.memWord, d3]
      · rw [hs.cycleCounterRaw, hs.cycleCounterRaw]
        exact cycle
    | unchanged heq kept cycle =>
      exact .unchanged heq (hkept _ kept) ((hs.cycleCounterRaw _).trans cycle)
  · intro i hi
    exact hkept i (h.rest i hi)
  · rw [hs.cycleCounterRaw]
    exact h.cycleZero
  · intro i hi
    rw [hs.cycleCounterRaw]
    exact h.cycleRest i hi

/-- An entry that `decode_update_entry` does not write. -/
theorem decodeUpdateEntry_of_ne (isa : Isa Op) (b : Block w Op) {i j : ℤ} (pc : BitVec w)
    (word : Word) (h1 : j ≠ i) (h2 : j ≠ i + 1) :
    (b.decodeUpdateEntry isa i pc word).entries j = b.entries j := by
  simp [decodeUpdateEntry, setEntry, Function.update_of_ne h1, Function.update_of_ne h2]

/-- The entry that `decode_update_entry` decodes takes the word and all that the decoder makes of it, and
loses its link. -/
theorem decodeUpdateEntry_self (isa : Isa Op) (b : Block w Op) (i : ℤ) (pc : BitVec w) (word : Word) :
    (b.decodeUpdateEntry isa i pc word).entries i =
      { b.entries i with
        memWord := word
        pc := pc
        pcIncrement := (isa.decode word).pcIncrement
        opLabelPtr := .op (isa.decode word).op
        instr := (isa.decode word).instr
        link := none } := by
  simp [decodeUpdateEntry, setEntry]

/-- The entry after it is touched in one field: the sum of cycles up to it. -/
theorem decodeUpdateEntry_succ (isa : Isa Op) (b : Block w Op) (i : ℤ) (pc : BitVec w) (word : Word) :
    (b.decodeUpdateEntry isa i pc word).entries (i + 1) =
      { b.entries (i + 1) with
        cycleCounterRaw := (b.entries i).cycleCounterRaw +
          (isa.instrTime (isa.decode word).op).setWidth 32 } := by
  simp [decodeUpdateEntry, setEntry]

theorem isDecoded_decodeUpdateEntry (isa : Isa Op) (b : Block w Op) (i : ℤ) (pc : BitVec w)
    (word : Word) : ((b.decodeUpdateEntry isa i pc word).entries i).IsDecoded isa := by
  rw [decodeUpdateEntry_self]
  exact ⟨rfl, rfl, rfl⟩

/-- Indices are not touched, neither that of the entry nor that of the one after it. -/
theorem decodeUpdateEntry_idx (isa : Isa Op) (b : Block w Op) (i j : ℤ) (pc : BitVec w)
    (word : Word) : ((b.decodeUpdateEntry isa i pc word).entries j).idx = (b.entries j).idx := by
  by_cases h1 : j = i
  · rw [h1, decodeUpdateEntry_self]
  · by_cases h2 : j = i + 1
    · rw [h2, decodeUpdateEntry_succ]
    · rw [decodeUpdateEntry_of_ne isa b pc word h1 h2]

/-- A round on a word that is still the cached one. -/
theorem Reread.step_unchanged (h : b₀.Reread isa mem m b) {a : BitVec w} {word : Word}
    (ha : walk isa mem b₀.startAddr m = some a) (hw : mem a = .ok word)
    (heq : word = (b.entries m).memWord) : b₀.Reread isa mem (m + 1) b := by
  have hkept := h.rest m le_rfl
  refine ⟨h.startAddr, h.len, h.coherenceCnt, h.dyn, h.idx, ?_, ?_, h.cycleZero, ?_⟩
  · intro i hi
    rcases Nat.lt_succ_iff_lt_or_eq.mp hi with hi | rfl
    · exact h.done i hi
    · exact ⟨a, word, ha, hw, heq.symm,
        .unchanged (heq.trans hkept.memWord) hkept (h.cycleRest _ (by omega))⟩
  · intro i hi
    exact h.rest i (by push_cast at hi; omega)
  · intro i hi
    exact h.cycleRest i (by push_cast at hi; omega)

/-- A round on a word that has changed. -/
theorem Reread.step_changed (h : b₀.Reread isa mem m b) {a : BitVec w} {word : Word}
    (ha : walk isa mem b₀.startAddr m = some a) (hw : mem a = .ok word)
    (hne : word ≠ (b.entries m).memWord) :
    b₀.Reread isa mem (m + 1) (b.decodeUpdateEntry isa m a word) := by
  have hkept := h.rest m le_rfl
  refine ⟨h.startAddr, h.len, h.coherenceCnt, h.dyn, ?_, ?_, ?_, ?_, ?_⟩
  · intro i
    rw [decodeUpdateEntry_idx]
    exact h.idx i
  · intro i hi
    rcases Nat.lt_succ_iff_lt_or_eq.mp hi with hi | rfl
    · -- An earlier entry is not written, and of the one after it at most the text is.
      obtain ⟨a', word', ha', hword', hmem', hread⟩ := h.done i hi
      have hself : (b.decodeUpdateEntry isa m a word).entries i = b.entries i :=
        decodeUpdateEntry_of_ne isa b a word (by omega) (by omega)
      have hcyc : ((b.decodeUpdateEntry isa m a word).entries ((i : ℤ) + 1)).cycleCounterRaw =
          (b.entries ((i : ℤ) + 1)).cycleCounterRaw := by
        by_cases him : (i : ℤ) + 1 = m
        · rw [him, decodeUpdateEntry_self]
        · rw [decodeUpdateEntry_of_ne isa b a word him (by omega)]
      refine ⟨a', word', ha', hword', by rw [hself, hmem'], ?_⟩
      cases hread with
      | changed hne pc decoded link cycle =>
        refine .changed hne ?_ ?_ ?_ ?_
        · rw [hself, pc]
        · rw [hself]
          exact decoded
        · rw [hself, link]
        · rw [hcyc, hself, cycle]
      | unchanged heq kept cycle =>
        refine .unchanged heq ?_ ?_
        · rw [hself]
          exact kept
        · rw [hcyc, cycle]
    · -- this entry is decoded again and gets the cycles of the new operation
      refine ⟨a, word, ha, hw, by rw [decodeUpdateEntry_self], .changed ?_ ?_ ?_ ?_ ?_⟩
      · rw [← hkept.memWord]
        exact hne
      · rw [decodeUpdateEntry_self]
      · exact isDecoded_decodeUpdateEntry isa b _ a word
      · rw [decodeUpdateEntry_self]
      · rw [decodeUpdateEntry_succ, decodeUpdateEntry_self]
  · intro i hi
    push_cast at hi
    have hk := h.rest i (by omega)
    -- of the entries to come only the sum of the next one is written
    by_cases h2 : i = m + 1
    · rw [h2] at hk ⊢
      rw [decodeUpdateEntry_succ]
      exact ⟨hk.pc, hk.opLabelPtr, hk.memWord, hk.instr, hk.pcIncrement, hk.link⟩
    · rw [decodeUpdateEntry_of_ne isa b a word (by omega) h2]
      exact hk
  · by_cases h0 : (0 : ℤ) = m
    · rw [h0, decodeUpdateEntry_self, ← h0]
      exact h.cycleZero
    · rw [decodeUpdateEntry_of_ne isa b a word h0 (by omega)]
      exact h.cycleZero
  · intro i hi
    push_cast at hi
    rw [decodeUpdateEntry_of_ne isa b a word (by omega) (by omega)]
    exact h.cycleRest i (by omega)

/-! ### The whole loop -/

/-- The loop re-reads the entries it is asked for, or stops at the one whose read faults. -/
theorem Reread.repairLoop (hdec : ∀ i : ℤ, 0 ≤ i → i < b₀.len → (b₀.entries i).IsDecoded isa)
    (n : ℕ) : ∀ (m : ℕ) (a : BitVec w) (once : Bool) (b : Block w Op), b₀.Reread isa mem m b →
      m + n = b₀.len → walk isa mem b₀.startAddr m = some a →
      (∃ b', DBBCache.repairLoop isa mem n m a once b = (b', none) ∧
        b₀.Reread isa mem b₀.len b') ∨
      (∃ b' j t a', DBBCache.repairLoop isa mem n m a once b = (b', some (j, t)) ∧ j < b₀.len ∧
        b₀.Reread isa mem j b' ∧ walk isa mem b₀.startAddr j = some a' ∧ mem a' = .error t) := by
  induction n with
  | zero =>
    intro m a once b h hlen _
    refine Or.inl ⟨b, rfl, ?_⟩
    rw [← hlen]
    exact h
  | succ n ih =>
    intro m a once b h hlen ha
    cases hw : mem a with
    | error t =>
      refine Or.inr ⟨b, m, t, a, ?_, by omega, h, ha, hw⟩
      rw [DBBCache.repairLoop, hw]
    | ok word =>
      rw [DBBCache.repairLoop, hw]
      dsimp only
      have hwalk := walk_succ ha hw
      by_cases hne : word ≠ (b.entries m).memWord
      · rw [if_pos hne]
        refine ih (m + 1) _ false _ ?_ (by omega) hwalk
        cases once with
        | false => exact h.step_changed ha hw hne
        | true =>
          refine h.invalidateLinks.step_changed ha hw ?_
          rw [b.sameCode_invalidateLinks.memWord]
          exact hne
      · rw [if_neg hne]
        have heq : word = (b.entries m).memWord := not_not.mp hne
        have hkept := h.rest m le_rfl
        -- An unchanged entry advances the address by the length it was decoded with.
        have hinc : (b.entries m).pcIncrement = (isa.decode word).pcIncrement := by
          rw [heq]
          exact (hkept.isDecoded (hdec m (by omega) (by omega))).pcIncrement
        rw [hinc]
        exact ih (m + 1) _ once b (h.step_unchanged ha hw heq) (by omega) hwalk

/-! ### What the repaired block is -/

/-- A repaired block, wholly or in part, is well formed. -/
theorem Reread.wf (h : b₀.Reread isa mem m b) {k : BitVec w} (hwf : b₀.WF isa k)
    (hm : m ≤ b₀.len) : b.WF isa k := by
  -- an entry is kept from the old block or decoded from the word that is there now
  have hcases : ∀ i : ℤ, 0 ≤ i → (b₀.entries i).Kept (b.entries i) ∨
      ∃ a, walk isa mem b₀.startAddr i.toNat = some a ∧ (b.entries i).pc = a ∧
        (b.entries i).IsDecoded isa ∧ (b.entries i).link = none := by
    intro i h0
    by_cases hi : (m : ℤ) ≤ i
    · exact Or.inl (h.rest i hi)
    · obtain ⟨n, rfl⟩ := Int.eq_ofNat_of_zero_le h0
      obtain ⟨a, word, ha, -, -, hread⟩ := h.done n (by omega)
      cases hread with
      | changed hne pc decoded link cycle => exact Or.inr ⟨a, ha, pc, decoded, link⟩
      | unchanged heq kept cycle => exact Or.inl kept
  constructor
  · rw [h.startAddr]
    exact hwf.startAddr
  · rcases hcases 0 le_rfl with hk | ⟨a, ha, hpc, -, -⟩
    · rw [hk.pc]
      exact hwf.pcZero
    · have : a = b₀.startAddr := (Option.some.inj ha).symm
      rw [hpc, this, hwf.startAddr]
  · rw [h.cycleZero]
    exact hwf.cycleZero
  · intro i h0 h1
    rw [h.len] at h1
    rw [h.idx]
    exact hwf.idx i h0 h1
  · rw [h.len, (h.rest b₀.len (by omega)).opLabelPtr]
    exact hwf.terminal
  · intro i h0 h1
    rw [h.len] at h1
    rcases hcases i h0 with hk | ⟨-, -, -, hdec, -⟩
    · exact hk.isDecoded (hwf.decoded i h0 h1)
    · exact hdec
  · intro i h0 h1 p hp
    rw [h.len] at h1
    rcases hcases i h0 with hk | ⟨-, -, -, -, hnone⟩
    · rcases hk.link with hl | hl
      · rw [hl] at hp
        cases hp
      · rw [hl] at hp
        rw [hk.target]
        exact hwf.link i h0 h1 p hp
    · rw [hnone] at hp
      cases hp
  · exact h.dyn hwf.dyn

/-- Where the re-read word is the cached one, the entry is still at the address it is read from. -/
def AddrOk (isa : Isa Op) (mem : InstrMem w) (b : Block w Op) : Prop :=
  ∀ i : ℕ, i < b.len → ∀ a, walk isa mem b.startAddr i = some a →
    mem a = .ok (b.entries i).memWord → (b.entries i).pc = a

/-- Every re-read entry is the decoding of the word at its address, and the loop has found it
there. -/
theorem Reread.located (h : b₀.Reread isa mem m b) (hm : m ≤ b₀.len) (hok : b₀.AddrOk isa mem)
    {i : ℕ} (hi : i < m) : walk isa mem b₀.startAddr i = some (b.entries i).pc ∧
      mem (b.entries i).pc = .ok (b.entries i).memWord := by
  obtain ⟨a, word, ha, hword, hmem, hread⟩ := h.done i hi
  have hpc : (b.entries i).pc = a := by
    cases hread with
    | changed hne pc decoded link cycle => exact pc
    | unchanged heq kept cycle =>
      rw [kept.pc]
      exact hok i (by omega) a ha (heq ▸ hword)
  rw [hpc, hmem]
  exact ⟨ha, hword⟩

theorem Reread.matches_ (h : b₀.Reread isa mem b₀.len b) (hok : b₀.AddrOk isa mem) :
    b.Matches mem := by
  intro i h0 h1
  obtain ⟨n, rfl⟩ := Int.eq_ofNat_of_zero_le h0
  rw [h.len] at h1
  exact (h.located le_rfl hok (by omega)).2

theorem Reread.laid (h : b₀.Reread isa mem b₀.len b) {k : BitVec w} (hwf : b₀.WF isa k)
    (hok : b₀.AddrOk isa mem) : b.Laid := by
  intro i h0 h1
  obtain ⟨n, rfl⟩ := Int.eq_ofNat_of_zero_le h0
  rw [h.len] at h1
  obtain ⟨hw1, hm1⟩ := h.located le_rfl hok (i := n) (by omega)
  obtain ⟨hw2, -⟩ := h.located le_rfl hok (i := n + 1) (by omega)
  have hdec := (h.wf hwf le_rfl).decoded n h0 (by rw [h.len]; omega)
  rw [walk_succ hw1 hm1] at hw2
  have := Option.some.inj hw2
  push_cast at this
  rw [← this, Entry.nextPc, hdec.pcIncrement]

/-- In a block that matches memory and is laid out, the loop walks the addresses of the entries. -/
theorem Matches.walk_eq (hmt : b.Matches mem) (hl : b.Laid) {k : BitVec w} (hwf : b.WF isa k)
    {i : ℕ} (hi : i < b.len) : walk isa mem b.startAddr i = some (b.entries i).pc := by
  induction i with
  | zero =>
    rw [walk, hwf.startAddr]
    exact congrArg some hwf.pcZero.symm
  | succ i ih =>
    have hm := hmt i (by omega) (by omega)
    have hdec := hwf.decoded i (by omega) (by omega)
    have hnext := hl i (by omega) (by omega)
    rw [walk_succ (ih (by omega)) hm]
    push_cast
    rw [hnext, Entry.nextPc, hdec.pcIncrement]

/-- Such a block meets the condition on addresses. -/
theorem Matches.addrOk (hmt : b.Matches mem) (hl : b.Laid) {k : BitVec w} (hwf : b.WF isa k) :
    b.AddrOk isa mem := by
  intro i hi a ha _
  rw [hmt.walk_eq hl hwf hi] at ha
  exact Option.some.inj ha

/-- Re-reading such a block changes no text and no cycles. -/
theorem Reread.cycle_of_matches (h : b₀.Reread isa mem b₀.len b) (hmt : b₀.Matches mem)
    (hl : b₀.Laid) {k : BitVec w} (hwf : b₀.WF isa k) {i : ℤ} (h0 : 0 ≤ i) (h1 : i ≤ b₀.len) :
    (b.entries i).cycleCounterRaw = (b₀.entries i).cycleCounterRaw := by
  obtain ⟨n, rfl⟩ := Int.eq_ofNat_of_zero_le h0
  cases n with
  | zero => exact h.cycleZero
  | succ n =>
    obtain ⟨a, word, ha, hword, -, hread⟩ := h.done n (by omega)
    rw [hmt.walk_eq hl hwf (by omega)] at ha
    have hsame : word = (b₀.entries n).memWord := by
      have hm := hmt n (by omega) (by omega)
      rw [Option.some.inj ha, hword] at hm
      exact Except.ok.inj hm
    cases hread with
    | changed hne pc decoded link cycle => exact absurd hsame hne
    | unchanged heq kept cycle =>
      push_cast
      exact cycle

theorem Reread.timed_of_matches (h : b₀.Reread isa mem b₀.len b) (hmt : b₀.Matches mem)
    (hl : b₀.Laid) {k : BitVec w} (hwf : b₀.WF isa k) (ht : b₀.Timed isa) : b.Timed isa := by
  intro i h0 h1
  rw [h.len] at h1
  obtain ⟨n, rfl⟩ := Int.eq_ofNat_of_zero_le h0
  have hok := hmt.addrOk hl hwf
  obtain ⟨hw, hm⟩ := h.located le_rfl hok (i := n) (by omega)
  have hpc := Option.some.inj ((hmt.walk_eq hl hwf (i := n) (by omega)).symm.trans hw)
  have hword : (b.entries n).memWord = (b₀.entries n).memWord := by
    rw [← hpc, hmt n h0 h1] at hm
    exact (Except.ok.inj hm).symm
  rw [h.cycle_of_matches hmt hl hwf (by omega) (by omega),
    h.cycle_of_matches hmt hl hwf h0 h1.le, hword]
  exact ht n h0 h1

end Block

end RiscvVp
