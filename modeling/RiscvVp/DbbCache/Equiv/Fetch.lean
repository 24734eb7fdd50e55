import RiscvVp.DbbCache.Equiv.Repair

/-!
# Fetching keeps the invariant

`fetch_decode` moves the position by one entry.  `DBBCache.Advanced` says what a fetch that returns
leaves behind, whichever of its paths it took, and `DBBCache.Faulted` what a fetch that throws
does.  The repair of a block is right under `DBBCache.RepairOk`.
-/

namespace RiscvVp.DBBCache

variable {w : ℕ} {Op : Type} {isa : Isa Op} {all : Bool} {mem : InstrMem w}
  {s s' : DBBCache w Op} {pc : BitVec w} {r : Fetched w Op} {k : BitVec w} {b : Block w Op}

/-! ### Outcomes -/

/-- Every block the invariant knows to be laid out holds what memory has. -/
def Matching (all : Bool) (mem : InstrMem w) (s : DBBCache w Op) : Prop :=
  ∀ k, s.Live all (s.getBlock (.heap k)) → (s.getBlock (.heap k)).Matches mem

/-- Every block carries the right cycle counts. -/
def Timed (isa : Isa Op) (s : DBBCache w Op) : Prop := ∀ k, (s.getBlock (.heap k)).Timed isa

/-- What a fetch does to the coherence counts: a block keeps its own or takes the current one. -/
structure KeepsCounts (s s' : DBBCache w Op) : Prop where
  coherenceCnt : s'.coherenceCnt = s.coherenceCnt
  blocks : ∀ k, (s'.getBlock (.heap k)).coherenceCnt = (s.getBlock (.heap k)).coherenceCnt ∨
    (s'.getBlock (.heap k)).coherenceCnt = s.coherenceCnt

/-- What the ISS is handed for a word fetched at `pc`. -/
def fetchedOf (isa : Isa Op) (pc : BitVec w) (word : Word) : Fetched w Op :=
  ⟨.op (isa.decode word).op, (isa.decode word).instr,
    pc + BitVec.ofNat w (isa.decode word).pcIncrement⟩

/-- The state after a fetch at `pc` that returned `r`. -/
structure Advanced (isa : Isa Op) (all : Bool) (mem : InstrMem w) (s s' : DBBCache w Op)
    (pc : BitVec w) (r : Fetched w Op) : Prop where
  inv : s'.Inv isa all
  idx : 0 ≤ s'.lastEntry.idx
  entryPc : (s'.deref s'.lastEntry).pc = pc
  nextPc : (s'.deref s'.lastEntry).nextPc = r.pc
  result : r = fetchedOf isa pc s'.getMemWord
  text : s'.curBlock ≠ .dummyBlock →
    (s'.deref s'.lastEntry).opLabelPtr = r.label ∧ (s'.deref s'.lastEntry).instr = r.instr
  word : s.Matching all mem → mem pc = .ok s'.getMemWord
  matching : s.Matching all mem → s'.Matching all mem
  timed : all = true → s.Matching all mem → s.Timed isa → s'.Timed isa
  cycles : all = true → s.Matching all mem → s.Timed isa →
    s'.cycleCounterRaw = s.cycleCounterRaw ∧
    (s'.deref s'.lastEntry.next).cycleCounterRaw = (s.deref s.lastEntry.next).cycleCounterRaw +
      (isa.instrTime (isa.decode s'.getMemWord).op).setWidth 32
  exception : s'.exception = false ∨ s'.exception = s.exception
  counts : s.KeepsCounts s'

/-- The state after a fetch at `pc` that threw. -/
structure Faulted (isa : Isa Op) (all : Bool) (mem : InstrMem w) (s s' : DBBCache w Op)
    (pc : BitVec w) : Prop where
  inv : s'.Inv isa all
  exception : s'.exception = true
  saved : (s'.dummyBlock.entries 0).pc = pc
  matching : s.Matching all mem → s'.Matching all mem
  counts : s.KeepsCounts s'

/-! ### Writing the current block and the position -/

/-- The fields a fetch in a heap block writes. -/
def place (s : DBBCache w Op) (k : BitVec w) (b : Block w Op) (f : EntryPtr w) (i : ℤ)
    (exception : Bool) : DBBCache w Op :=
  { s.setBlock (.heap k) b with fastEntry := f, curEntryIdx := i, exception := exception }

theorem getBlock_place (s : DBBCache w Op) (k : BitVec w) (b : Block w Op) (f : EntryPtr w) (i : ℤ)
    (x : Bool) (p : BlockPtr w) :
    (s.place k b f i x).getBlock p = (s.setBlock (.heap k) b).getBlock p :=
  getBlock_congr rfl rfl rfl p

@[simp] theorem getBlock_place_self (s : DBBCache w Op) (k : BitVec w) (b : Block w Op)
    (f : EntryPtr w) (i : ℤ) (x : Bool) : (s.place k b f i x).getBlock (.heap k) = b := by
  rw [getBlock_place, getBlock_setBlock_self]

theorem getBlock_place_of_ne (s : DBBCache w Op) {k k' : BitVec w} (b : Block w Op) (f : EntryPtr w)
    (i : ℤ) (x : Bool) (h : k' ≠ k) :
    (s.place k b f i x).getBlock (.heap k') = s.getBlock (.heap k') := by
  rw [getBlock_place, getBlock_setBlock_of_ne s b (by simpa using h)]

theorem keepsCounts_place (hb : b.coherenceCnt = (s.getBlock (.heap k)).coherenceCnt ∨
    b.coherenceCnt = s.coherenceCnt) (f : EntryPtr w) (i : ℤ) (x : Bool) :
    s.KeepsCounts (s.place k b f i x) := by
  refine ⟨rfl, fun k' => ?_⟩
  by_cases hk : k' = k
  · rw [hk, getBlock_place_self]
    exact hb
  · rw [getBlock_place_of_ne s b f i x hk]
    exact Or.inl rfl

/-- The new position: on the fast path in a live block, or off it. -/
def Placed (all : Bool) (s : DBBCache w Op) (k : BitVec w) (b : Block w Op) (f : EntryPtr w)
    (i j : ℤ) : Prop :=
  (f = ⟨.heap k, j⟩ ∧ s.Live all b) ∨ (f = fastDisabled ∧ i = j)

theorem lastEntry_place {f : EntryPtr w} {i j : ℤ} (x : Bool) (hk : s.curBlock = .heap k)
    (hp : s.Placed all k b f i j) : (s.place k b f i x).lastEntry = ⟨.heap k, j⟩ := by
  rcases hp with ⟨rfl, -⟩ | ⟨rfl, rfl⟩
  · rw [lastEntry_of_fast]
    · rfl
    · rw [inFastPath_iff]
      simp [place, fastDisabled]
  · rw [lastEntry_of_slow]
    · rw [← hk]
      rfl
    · rw [inFastPath_eq_false_iff]
      rfl

theorem Inv.place (h : s.Inv isa all) (hk : s.curBlock = .heap k) (hwf : b.WF isa k)
    (hlaid : s.Live all b → b.Laid) {f : EntryPtr w} {i j : ℤ} (x : Bool)
    (hp : s.Placed all k b f i j) (hj : -1 ≤ j ∧ j < b.len) :
    (s.place k b f i x).Inv isa all := by
  have hlast := lastEntry_place x hk hp
  have hcur : (s.place k b f i x).curBlock = .heap k := hk
  -- only block `k` changes, and the position moves to its entry `j`
  constructor
  · intro k'
    by_cases hkk : k' = k
    · subst hkk
      rw [getBlock_place_self]
      exact hwf
    · rw [getBlock_place_of_ne s b f i x hkk]
      exact h.heap k'
  · intro k' hl
    by_cases hkk : k' = k
    · subst hkk
      rw [getBlock_place_self] at hl ⊢
      exact hlaid hl
    · rw [getBlock_place_of_ne s b f i x hkk] at hl ⊢
      exact h.laid k' hl
  · exact h.dummyCycle
  · exact h.dummyLen
  · exact h.dummyDyn
  · exact h.trapLinks
  · exact h.disable
  · exact Or.inr ⟨k, hk⟩
  · intro hf
    rw [inFastPath_iff] at hf
    rw [hcur, getBlock_place_self]
    rcases hp with ⟨rfl, hl⟩ | ⟨rfl, -⟩
    · exact ⟨rfl, by simp, hl⟩
    · exact absurd rfl hf
  · intro _
    rw [hlast, hcur, getBlock_place_self]
    exact hj
  · intro hd
    rw [hcur] at hd
    cases hd
  · intro hd
    rw [hcur] at hd
    cases hd

/-- The raw word of the current entry of a heap block. -/
theorem Inv.getMemWord_eq (h : s.Inv isa all) (hd : s.curBlock ≠ .dummyBlock) :
    s.getMemWord = (s.deref s.lastEntry).memWord := by
  unfold getMemWord
  cases hf : s.inFastPath with
  | true =>
    rw [lastEntry_of_fast hf]
    rfl
  | false =>
    have hpos := (h.pos hd).2
    rw [lastEntry_of_slow hf] at hpos ⊢
    simp only [Bool.false_eq_true, if_false]
    rw [if_pos hpos]
    rfl

/-- A fetch that ends at entry `j` of a heap block. -/
theorem Inv.advanced_place (h : s.Inv isa all) (hk : s.curBlock = .heap k) (hwf : b.WF isa k)
    (hlaid : s.Live all b → b.Laid) {f : EntryPtr w} {i j : ℤ} {x : Bool}
    (hx : x = false ∨ x = s.exception)
    (hcnt : b.coherenceCnt = (s.getBlock (.heap k)).coherenceCnt ∨ b.coherenceCnt = s.coherenceCnt)
    (hp : s.Placed all k b f i j) (h0 : 0 ≤ j) (hj : j < b.len) (hpc : (b.entries j).pc = pc)
    (hr : r = ⟨(b.entries j).opLabelPtr, (b.entries j).instr, (b.entries j).nextPc⟩)
    (hword : s.Matching all mem → mem pc = .ok (b.entries j).memWord)
    (hmatch : s.Matching all mem → s.Live all b → b.Matches mem)
    (htimed : all = true → s.Matching all mem → s.Timed isa → b.Timed isa ∧
      (b.entries (j + 1)).cycleCounterRaw = (s.deref s.lastEntry.next).cycleCounterRaw +
        (isa.instrTime (isa.decode (b.entries j).memWord).op).setWidth 32) :
    s.Advanced isa all mem (s.place k b f i x) pc r := by
  have hinv := h.place hk hwf hlaid x hp ⟨by omega, hj⟩
  have hlast := lastEntry_place x hk hp
  have hcur : (s.place k b f i x).curBlock = .heap k := hk
  have hderef : (s.place k b f i x).deref (s.place k b f i x).lastEntry = b.entries j := by
    rw [hlast, deref, getBlock_place_self]
  have hmem : (s.place k b f i x).getMemWord = (b.entries j).memWord := by
    rw [hinv.getMemWord_eq (by rw [hcur]; simp), hderef]
  -- the entry holds the word and what the decoder makes of it
  have hdec := hwf.decoded j h0 hj
  refine ⟨hinv, by rw [hlast]; exact h0, by rw [hderef, hpc], by rw [hderef, hr], ?_, ?_, ?_, ?_,
    ?_, ?_, hx, keepsCounts_place hcnt f i x⟩
  · rw [hr, hmem, fetchedOf, hdec.label, hdec.instr, Entry.nextPc, hpc, hdec.pcIncrement]
  · intro _
    rw [hderef, hr]
    exact ⟨rfl, rfl⟩
  · intro hm
    rw [hmem]
    exact hword hm
  · intro hm k' hl
    by_cases hkk : k' = k
    · subst hkk
      rw [getBlock_place_self] at hl ⊢
      exact hmatch hm hl
    · rw [getBlock_place_of_ne s b f i x hkk] at hl ⊢
      exact hm k' hl
  · intro ha hm ht k'
    by_cases hkk : k' = k
    · subst hkk
      rw [getBlock_place_self]
      exact (htimed ha hm ht).1
    · rw [getBlock_place_of_ne s b f i x hkk]
      exact ht k'
  · intro ha hm ht
    refine ⟨rfl, ?_⟩
    rw [hlast, hmem, EntryPtr.next, deref, getBlock_place_self]
    exact (htimed ha hm ht).2

/-- Only what `blockmap` holds for a block matters, not whether an empty block is in it. -/
theorem Advanced.congr_blockmap (h : s.Advanced isa all mem s' pc r)
    {m : BitVec w → Option (Block w Op)}
    (hm : ∀ k, { s' with blockmap := m }.getBlock (.heap k) = s'.getBlock (.heap k)) :
    s.Advanced isa all mem { s' with blockmap := m } pc r := by
  -- every reading of the cache goes through `getBlock`, which is the same
  have hget : ∀ p, { s' with blockmap := m }.getBlock p = s'.getBlock p := by
    intro p
    cases p with
    | heap k => exact hm k
    | dummyBlock => rfl
    | fastDisableBlock => rfl
  have hderef : ∀ p, { s' with blockmap := m }.deref p = s'.deref p := by
    intro p
    rw [deref, deref, hget]
  have hword : { s' with blockmap := m }.getMemWord = s'.getMemWord := by
    simp only [getMemWord, hget, hderef]
    rfl
  refine ⟨?_, h.idx, (congrArg Entry.pc (hderef _)).trans h.entryPc,
    (congrArg Entry.nextPc (hderef _)).trans h.nextPc, ?_, ?_, ?_, ?_, ?_, ?_, h.exception,
    h.counts.coherenceCnt, fun k => ?_⟩
  · have hi := h.inv
    refine ⟨?_, ?_, hi.dummyCycle, hi.dummyLen, hi.dummyDyn, hi.trapLinks, hi.disable, hi.cur, ?_,
      ?_, hi.posDummy, hi.dummyFresh⟩
    · intro k
      rw [hm]
      exact hi.heap k
    · intro k hl
      rw [hm] at hl ⊢
      exact hi.laid k hl
    · intro hf
      rw [hget]
      exact hi.fast hf
    · intro hd
      rw [hget]
      exact hi.pos hd
  · rw [hword]
    exact h.result
  · intro hd
    rw [hderef]
    exact h.text hd
  · intro hmt
    rw [hword]
    exact h.word hmt
  · intro hmt k hl
    rw [hm] at hl ⊢
    exact h.matching hmt k hl
  · intro ha hmt ht k
    rw [hm]
    exact h.timed ha hmt ht k
  · intro ha hmt ht
    rw [hderef, hword]
    exact h.cycles ha hmt ht
  · rw [hm]
    exact h.counts.blocks k

/-! ### A hit in a live block -/

/-- The entry after the position, in a live block, is the one at `get_pc_maybe_after_callback`. -/
theorem Inv.pc_next (h : s.Inv isa all) (hk : s.curBlock = .heap k)
    (hl : s.Live all (s.getBlock (.heap k)))
    (hlen : s.lastEntry.idx + 1 < (s.getBlock (.heap k)).len) :
    ((s.getBlock (.heap k)).entries (s.lastEntry.idx + 1)).pc = s.getPcMaybeAfterCallback := by
  by_cases hi : s.lastEntry.idx = -1
  · rw [h.getPc_of_idx_eq hi, hk, hi]
    rfl
  · have h0 : 0 ≤ s.lastEntry.idx := by
      have := h.idx_ge
      omega
    rw [h.getPc_of_idx_nonneg h0, h.deref_lastEntry, hk]
    exact h.laid k hl _ h0 hlen

/-- A hit: the next entry of the current block, which is live. -/
theorem Inv.advanced_hit (h : s.Inv isa all) (hk : s.curBlock = .heap k)
    (hl : s.Live all (s.getBlock (.heap k)))
    (hlen : s.lastEntry.idx + 1 < (s.getBlock (.heap k)).len)
    (hpc : pc = s.getPcMaybeAfterCallback) {f : EntryPtr w} {i : ℤ}
    (hp : s.Placed all k (s.getBlock (.heap k)) f i (s.lastEntry.idx + 1))
    (hr : r = ⟨((s.getBlock (.heap k)).entries (s.lastEntry.idx + 1)).opLabelPtr,
      ((s.getBlock (.heap k)).entries (s.lastEntry.idx + 1)).instr,
      pc + BitVec.ofNat w ((s.getBlock (.heap k)).entries (s.lastEntry.idx + 1)).pcIncrement⟩) :
    s.Advanced isa all mem { s with fastEntry := f, curEntryIdx := i } pc r := by
  have h0 : 0 ≤ s.lastEntry.idx + 1 := by
    have := h.idx_ge
    omega
  have hpcn := h.pc_next hk hl hlen
  rw [← hpc] at hpcn
  have hadv : s.Advanced isa all mem (s.place k (s.getBlock (.heap k)) f i s.exception) pc r := by
    refine h.advanced_place hk (h.heap k) (h.laid k) (Or.inr rfl) (Or.inl rfl) hp h0 hlen hpcn ?_ ?_ ?_ ?_
    · rw [hr, Entry.nextPc, hpcn]
    · intro hm
      rw [← hpcn]
      exact hm k hl _ h0 hlen
    · exact fun hm => hm k
    · intro _ _ ht
      refine ⟨ht k, ?_⟩
      rw [h.deref_lastEntry_next, hk]
      exact ht k _ h0 hlen
  refine hadv.congr_blockmap (m := s.blockmap) fun k' => ?_
  show s.getBlock (.heap k') = _
  by_cases hkk : k' = k
  · rw [hkk, getBlock_place_self]
  · rw [getBlock_place_of_ne s _ f i s.exception hkk]

/-! ### A miss -/

/-- The entry that `fetch_decode_add_entry` writes, and the terminal after it. -/
def addEntry (isa : Isa Op) (b : Block w Op) (pc : BitVec w) (word : Word) : Block w Op :=
  let i : ℤ := b.len
  let b := b.decodeUpdateEntry isa i pc word
  let b := b.setEntry i { b.entries i with idx := BitVec.ofInt 16 i }
  let b := b.setEntry (i + 1)
    { b.entries (i + 1) with idx := BitVec.ofInt 16 (i + 1), opLabelPtr := .fastAbort }
  { b with len := b.len + 1 }

theorem addEntry_of_lt (isa : Isa Op) (b : Block w Op) (pc : BitVec w) (word : Word) {i : ℤ}
    (hi : i < b.len) : (addEntry isa b pc word).entries i = b.entries i := by
  have h1 : i ≠ b.len := by omega
  have h2 : i ≠ b.len + 1 := by omega
  simp only [addEntry, Block.setEntry, Function.update_of_ne h1, Function.update_of_ne h2]
  exact Block.decodeUpdateEntry_of_ne isa b pc word h1 h2

theorem addEntry_len (isa : Isa Op) (b : Block w Op) (pc : BitVec w) (word : Word) :
    (addEntry isa b pc word).entries b.len =
      { b.entries b.len with
        memWord := word
        pc := pc
        pcIncrement := (isa.decode word).pcIncrement
        opLabelPtr := .op (isa.decode word).op
        instr := (isa.decode word).instr
        link := none
        idx := BitVec.ofInt 16 b.len } := by
  simp [addEntry, Block.setEntry, Block.decodeUpdateEntry]

theorem addEntry_terminal (isa : Isa Op) (b : Block w Op) (pc : BitVec w) (word : Word) :
    (addEntry isa b pc word).entries (b.len + 1) =
      { b.entries (b.len + 1) with
        cycleCounterRaw := (b.entries b.len).cycleCounterRaw +
          (isa.instrTime (isa.decode word).op).setWidth 32
        idx := BitVec.ofInt 16 (b.len + 1)
        opLabelPtr := .fastAbort } := by
  simp [addEntry, Block.setEntry, Block.decodeUpdateEntry]

/-- The cycles up to the new entry do not change. -/
theorem addEntry_cycle_of_le (isa : Isa Op) (b : Block w Op) (pc : BitVec w) (word : Word) {i : ℤ}
    (hi : i ≤ b.len) :
    ((addEntry isa b pc word).entries i).cycleCounterRaw = (b.entries i).cycleCounterRaw := by
  rcases lt_or_eq_of_le hi with hlt | rfl
  · rw [addEntry_of_lt isa b pc word hlt]
  · rw [addEntry_len]

/-- Adding an entry at the end of a well-formed block.  The index is stored in 16 bits. -/
theorem wf_addEntry (hwf : b.WF isa k) (hb : b.len = 0 → pc = k) (word : Word)
    (hlen : b.len + 1 < 2 ^ 16) : (addEntry isa b pc word).WF isa k := by
  -- an entry is an old one or the new one; behind the new one stands the terminal
  have hsplit : ∀ i : ℤ, i < (addEntry isa b pc word).len → i < b.len ∨ i = b.len := by
    intro i hi
    have : (addEntry isa b pc word).len = b.len + 1 := rfl
    omega
  constructor
  · exact hwf.startAddr
  · by_cases h0 : b.len = 0
    · have h := addEntry_len isa b pc word
      rw [h0] at h
      rw [show (0 : ℤ) = ((0 : ℕ) : ℤ) from rfl, h]
      exact hb h0
    · rw [addEntry_of_lt isa b pc word (by omega)]
      exact hwf.pcZero
  · rw [addEntry_cycle_of_le isa b pc word (by omega)]
    exact hwf.cycleZero
  · intro i h0 h1
    have h1' : i ≤ b.len + 1 := h1
    have htoNat : ∀ n : ℕ, n < 2 ^ 16 → ((BitVec.ofInt 16 (n : ℤ)).toNat : ℤ) = n := by
      intro n hn
      rw [BitVec.ofInt_natCast, BitVec.toNat_ofNat, Nat.mod_eq_of_lt hn]
    rcases lt_trichotomy i b.len with hlt | heq | hgt
    · rw [addEntry_of_lt isa b pc word hlt]
      exact hwf.idx i h0 hlt.le
    · rw [heq, addEntry_len]
      exact htoNat b.len (by omega)
    · obtain rfl : i = b.len + 1 := by omega
      rw [addEntry_terminal]
      exact_mod_cast htoNat (b.len + 1) hlen
  · show ((addEntry isa b pc word).entries ((b.len + 1 : ℕ) : ℤ)).opLabelPtr = .fastAbort
    push_cast
    rw [addEntry_terminal]
  · intro i h0 h1
    rcases hsplit i h1 with hlt | rfl
    · rw [addEntry_of_lt isa b pc word hlt]
      exact hwf.decoded i h0 hlt
    · rw [addEntry_len]
      exact ⟨rfl, rfl, rfl⟩
  · intro i h0 h1 p hp
    rcases hsplit i h1 with hlt | rfl
    · rw [addEntry_of_lt isa b pc word hlt] at hp ⊢
      exact hwf.link i h0 hlt p hp
    · rw [addEntry_len] at hp
      cases hp
  · exact hwf.dyn

/-- The new entry follows the last one. -/
theorem laid_addEntry (hl : b.Laid) (hpc : b.len ≠ 0 → pc = (b.entries (b.len - 1)).nextPc)
    (word : Word) : (addEntry isa b pc word).Laid := by
  intro i h0 h1
  have h1' : i + 1 < b.len + 1 := h1
  rw [addEntry_of_lt isa b pc word (show i < b.len by omega)]
  by_cases hi : i + 1 = b.len
  · rw [hi, addEntry_len, hpc (by omega), ← hi, add_sub_cancel_right]
  · rw [addEntry_of_lt isa b pc word (by omega)]
    exact hl i h0 (by omega)

theorem timed_addEntry (ht : b.Timed isa) (word : Word) : (addEntry isa b pc word).Timed isa := by
  intro i h0 h1
  have h1' : i < b.len + 1 := h1
  rw [addEntry_cycle_of_le isa b pc word (show i ≤ b.len by omega)]
  by_cases hi : i = b.len
  · rw [hi, addEntry_terminal, addEntry_len]
  · rw [addEntry_cycle_of_le isa b pc word (show i + 1 ≤ b.len by omega),
      addEntry_of_lt isa b pc word (by omega)]
    exact ht i h0 (by omega)

theorem matches_addEntry (hm : b.Matches mem) {word : Word} (hword : mem pc = .ok word) :
    (addEntry isa b pc word).Matches mem := by
  intro i h0 h1
  have h1' : i < b.len + 1 := h1
  by_cases hi : i = b.len
  · rw [hi, addEntry_len]
    exact hword
  · rw [addEntry_of_lt isa b pc word (by omega)]
    exact hm i h0 (by omega)

/-- At the end of a block the position is its last entry, or the block is empty. -/
theorem Inv.at_end (h : s.Inv isa all) (hk : s.curBlock = .heap k)
    (hlen : ((s.getBlock (.heap k)).len : ℤ) ≤ s.lastEntry.idx + 1)
    (hpc : pc = s.getPcMaybeAfterCallback) :
    s.lastEntry.idx = (s.getBlock (.heap k)).len - 1 ∧
    ((s.getBlock (.heap k)).len = 0 → pc = k) ∧
    ((s.getBlock (.heap k)).len ≠ 0 →
      pc = ((s.getBlock (.heap k)).entries ((s.getBlock (.heap k)).len - 1)).nextPc) := by
  have hpos := h.pos (by rw [hk]; simp)
  rw [hk] at hpos
  have hidx : s.lastEntry.idx = (s.getBlock (.heap k)).len - 1 := by omega
  refine ⟨hidx, fun h0 => ?_, fun h0 => ?_⟩
  · rw [hpc, h.getPc_of_idx_eq (by omega), hk]
    exact (h.heap k).pcZero
  · rw [hpc, h.getPc_of_idx_nonneg (by omega), h.deref_lastEntry, hk, hidx]

/-- A miss whose read succeeds appends the instruction to the block and goes on behind it, off the fast
path. -/
theorem Inv.advanced_addEntry (h : s.Inv isa all) (hk : s.curBlock = .heap k)
    (hlen : ((s.getBlock (.heap k)).len : ℤ) ≤ s.lastEntry.idx + 1)
    (hpc : pc = s.getPcMaybeAfterCallback) {word : Word} (hword : mem pc = .ok word)
    (hcap : (s.getBlock (.heap k)).len + 1 < 2 ^ 16) :
    s.Advanced isa all mem
      (s.place k (addEntry isa (s.getBlock (.heap k)) pc word) fastDisabled
        (s.lastEntry.idx + 1) false) pc (fetchedOf isa pc word) := by
  obtain ⟨hidx, hzero, hsucc⟩ := h.at_end hk hlen hpc
  have hj : s.lastEntry.idx + 1 = (s.getBlock (.heap k)).len := by omega
  have hentry := addEntry_len isa (s.getBlock (.heap k)) pc word
  rw [hj]
  refine h.advanced_place hk (wf_addEntry (h.heap k) hzero word hcap) ?_ (Or.inl rfl)
    (Or.inl rfl) (Or.inr ⟨rfl, rfl⟩)
    (by omega) ?_ ?_ ?_ ?_ ?_ ?_
  · exact fun hl => laid_addEntry (h.laid k hl) hsucc word
  · show ((s.getBlock (.heap k)).len : ℤ) < ((s.getBlock (.heap k)).len + 1 : ℕ)
    omega
  · rw [hentry]
  · rw [hentry]
    rfl
  · intro _
    rw [hentry]
    exact hword
  · exact fun hm hl => matches_addEntry (hm k hl) hword
  · intro _ _ ht
    refine ⟨timed_addEntry (ht k) word, ?_⟩
    rw [addEntry_terminal, h.deref_lastEntry_next, hk, hj, hentry]

/-! ### Faults -/

/-- The fields that a fault writes. -/
def savePc (s : DBBCache w Op) (pc : BitVec w) : DBBCache w Op :=
  { s with
    dummyBlock := s.dummyBlock.setEntry 0 { s.dummyBlock.entries 0 with pc := pc }
    exception := true }

theorem Inv.savePc (h : s.Inv isa all) (pc : BitVec w) : (s.savePc pc).Inv isa all := by
  have hother : ∀ i, i ≠ 0 → (s.savePc pc).dummyBlock.entries i = s.dummyBlock.entries i := by
    intro i hi
    simp [DBBCache.savePc, Block.setEntry, Function.update_of_ne hi]
  refine ⟨h.heap, h.laid, ?_, h.dummyLen, h.dummyDyn, h.trapLinks, h.disable, h.cur, ?_, ?_,
    h.posDummy, ?_⟩
  · simpa [DBBCache.savePc, Block.setEntry] using h.dummyCycle
  · intro hf
    obtain ⟨h1, h2, h3⟩ := h.fast hf
    refine ⟨h1, h2, ?_⟩
    obtain ⟨k, hk⟩ := h.exists_heap h2
    rw [hk] at h3
    rw [show (s.savePc pc).curBlock = .heap k from hk]
    exact h3
  · intro hd
    obtain ⟨k, hk⟩ := h.exists_heap hd
    have hp := h.pos hd
    rw [hk] at hp
    rw [show (s.savePc pc).curBlock = .heap k from hk]
    exact hp
  · intro hd hi
    rw [hother 1 (by omega)]
    exact h.dummyFresh hd hi

theorem Inv.faulted_savePc (h : s'.Inv isa all) (pc : BitVec w)
    (hm : s.Matching all mem → s'.Matching all mem) (hc : s.KeepsCounts s') :
    s.Faulted isa all mem (s'.savePc pc) pc :=
  ⟨h.savePc pc, rfl, by simp [DBBCache.savePc, Block.setEntry], fun hs => hm hs,
    hc.coherenceCnt, hc.blocks⟩

/-- `exception` and `curEntryIdx` in the dummy block may be written freely. -/
theorem Inv.setException (h : s.Inv isa all) (x : Bool) : { s with exception := x }.Inv isa all :=
  ⟨h.heap, h.laid, h.dummyCycle, h.dummyLen, h.dummyDyn, h.trapLinks, h.disable, h.cur, h.fast,
    h.pos, h.posDummy, h.dummyFresh⟩

/-! ### The dummy block -/

/-- The state after an instruction fetched without the cache. -/
def dummyFetched (isa : Isa Op) (s : DBBCache w Op) (pc : BitVec w) (word : Word) :
    DBBCache w Op :=
  let pc' := pc + BitVec.ofNat w (isa.decode word).pcIncrement
  let e₀ := { s.dummyBlock.entries 0 with pc := pc, pcIncrement := (pc' - pc).toNat % 2 ^ 16 }
  let e₁ := { s.dummyBlock.entries 1 with
    cycleCounterRaw := (s.dummyBlock.entries 1).cycleCounterRaw +
      (isa.instrTime (isa.decode word).op).setWidth 32 }
  { s with
    curEntryIdx := 0
    exception := false
    memWord := word
    dummyBlock := (s.dummyBlock.setEntry 0 e₀).setEntry 1 e₁ }

theorem fetchDecodeDummy_ok {word : Word} (hword : mem pc = .ok word) :
    s.fetchDecodeDummy isa mem pc = (.ok (fetchedOf isa pc word), s.dummyFetched isa pc word) := by
  simp [fetchDecodeDummy, fetch, hword, dummyFetched, fetchedOf, Block.setEntry]

theorem fetchDecodeDummy_error {t : SimulationTrap} (ht : mem pc = .error t) :
    s.fetchDecodeDummy isa mem pc = (.error t, { s with curEntryIdx := 0 }.savePc pc) := by
  simp [fetchDecodeDummy, fetch, ht, savePc, Block.setEntry]

/-- In the dummy block the position is off the fast path. -/
theorem Inv.slow_of_dummy (h : s.Inv isa all) (hd : s.curBlock = .dummyBlock) :
    s.inFastPath = false := by
  cases hf : s.inFastPath with
  | false => rfl
  | true => exact absurd hd (h.fast hf).2.1

theorem Inv.setCurEntryIdx_zero (h : s.Inv isa all) (hd : s.curBlock = .dummyBlock) :
    { s with curEntryIdx := 0 }.Inv isa all := by
  have hf := h.slow_of_dummy hd
  have hlast : { s with curEntryIdx := 0 }.lastEntry = ⟨s.curBlock, 0⟩ := lastEntry_of_slow hf
  refine ⟨h.heap, h.laid, h.dummyCycle, h.dummyLen, h.dummyDyn, h.trapLinks, h.disable, h.cur,
    ?_, ?_, ?_, ?_⟩
  · intro hf'
    exact absurd (hf.symm.trans hf') Bool.false_ne_true
  · intro hne
    exact absurd hd hne
  · intro _
    rw [hlast]
    exact Or.inr rfl
  · intro _ hi
    rw [hlast] at hi
    cases hi

/-- The length of an instruction survives its way through `pc_increment`. -/
theorem ofNat_dummyIncrement (pc : BitVec w) (word : Word) :
    BitVec.ofNat w ((pc + BitVec.ofNat w (isa.decode word).pcIncrement - pc).toNat % 2 ^ 16) =
      BitVec.ofNat w (isa.decode word).pcIncrement := by
  have hsub : pc + BitVec.ofNat w (isa.decode word).pcIncrement - pc =
      BitVec.ofNat w (isa.decode word).pcIncrement := by
    rw [add_comm, add_sub_cancel_right]
  have hle : (BitVec.ofNat w (isa.decode word).pcIncrement).toNat < 2 ^ 16 := by
    rw [BitVec.toNat_ofNat]
    have h4 : (isa.decode word).pcIncrement ≤ 4 := by
      rcases isa.decode_pcIncrement word with h | h <;> omega
    have := Nat.mod_le (isa.decode word).pcIncrement (2 ^ w)
    omega
  rw [hsub, Nat.mod_eq_of_lt hle, BitVec.ofNat_toNat, BitVec.setWidth_eq]

theorem Inv.advanced_dummyFetched (h : s.Inv isa all) (hd : s.curBlock = .dummyBlock) {word : Word}
    (hword : mem pc = .ok word) :
    s.Advanced isa all mem (s.dummyFetched isa pc word) pc (fetchedOf isa pc word) := by
  have hf := h.slow_of_dummy hd
  have hlast : (s.dummyFetched isa pc word).lastEntry = ⟨.dummyBlock, 0⟩ := by
    rw [← hd]
    exact lastEntry_of_slow hf
  have hzero : (s.dummyFetched isa pc word).dummyBlock.entries 0 =
      { s.dummyBlock.entries 0 with
        pc := pc
        pcIncrement := (pc + BitVec.ofNat w (isa.decode word).pcIncrement - pc).toNat % 2 ^ 16 } := by
    simp [dummyFetched, Block.setEntry]
  have hone : ((s.dummyFetched isa pc word).dummyBlock.entries 1).cycleCounterRaw =
      (s.dummyBlock.entries 1).cycleCounterRaw + (isa.instrTime (isa.decode word).op).setWidth 32 := by
    simp [dummyFetched, Block.setEntry]
  have hderef : (s.dummyFetched isa pc word).deref (s.dummyFetched isa pc word).lastEntry =
      (s.dummyFetched isa pc word).dummyBlock.entries 0 := by
    rw [hlast]
    rfl
  have hmem : (s.dummyFetched isa pc word).getMemWord = word := by
    have hlen : (s.dummyFetched isa pc word).dummyBlock.len = 0 := h.dummyLen
    unfold getMemWord
    rw [show (s.dummyFetched isa pc word).inFastPath = false from hf,
      show (s.dummyFetched isa pc word).curBlock = .dummyBlock from hd]
    simp only [Bool.false_eq_true, if_false, getBlock, hlen]
    rfl
  have hnext : s.deref s.lastEntry.next = s.dummyBlock.entries (s.lastEntry.idx + 1) := by
    rw [h.deref_lastEntry_next, hd]
    rfl
  refine ⟨?_, by rw [hlast], by rw [hderef, hzero], ?_, by rw [hmem], ?_, ?_, fun hm => hm,
    fun _ _ ht => ht, ?_, Or.inl rfl, rfl, fun _ => Or.inl rfl⟩
  · have h0 := h.setCurEntryIdx_zero hd
    refine ⟨h.heap, h.laid, ?_, h.dummyLen, h.dummyDyn, h.trapLinks, h.disable, h.cur, ?_, ?_,
      h0.posDummy, ?_⟩
    · rw [hzero]
      exact h.dummyCycle
    · intro hf'
      exact absurd (hf.symm.trans hf') Bool.false_ne_true
    · intro hne
      exact absurd hd hne
    · intro _ hi
      rw [hlast] at hi
      cases hi
  · rw [hderef, hzero, Entry.nextPc, fetchedOf, ofNat_dummyIncrement]
  · intro hne
    exact absurd hd hne
  · intro _
    rw [hmem]
    exact hword
  · intro _ _ _
    refine ⟨rfl, ?_⟩
    rw [hlast, hmem, hnext]
    show ((s.dummyFetched isa pc word).dummyBlock.entries 1).cycleCounterRaw = _
    rw [hone]
    -- The first instruction in the dummy block starts from zero, the others where the last ended.
    rcases h.posDummy hd with hi | hi
    · rw [h.dummyFresh hd hi, hi, show (-1 : ℤ) + 1 = 0 from rfl, h.dummyCycle]
    · rw [hi]
      rfl

/-! ### The repair -/

/-- Decoding an entry anew keeps a block well formed. -/
theorem wf_decodeUpdateEntry (hwf : b.WF isa k) {i : ℤ} (h0 : 0 < i) (h1 : i < b.len)
    (pc : BitVec w) (word : Word) : (b.decodeUpdateEntry isa i pc word).WF isa k := by
  have hlow : ∀ j, j < i → (b.decodeUpdateEntry isa i pc word).entries j = b.entries j :=
    fun j hj => Block.decodeUpdateEntry_of_ne isa b pc word (by omega) (by omega)
  -- Any other entry keeps its text; at most its cycles are written.
  have htext : ∀ j, j ≠ i → (b.entries j).Kept ((b.decodeUpdateEntry isa i pc word).entries j) := by
    intro j hj
    by_cases h2 : j = i + 1
    · rw [h2, Block.decodeUpdateEntry_succ]
      exact ⟨rfl, rfl, rfl, rfl, rfl, Or.inr rfl⟩
    · rw [Block.decodeUpdateEntry_of_ne isa b pc word hj h2]
      exact Entry.Kept.refl _
  constructor
  · exact hwf.startAddr
  · rw [hlow 0 h0]
    exact hwf.pcZero
  · rw [hlow 0 h0]
    exact hwf.cycleZero
  · intro j hj0 hj1
    rw [Block.decodeUpdateEntry_idx]
    exact hwf.idx j hj0 hj1
  · rw [(htext _ (show ((b.decodeUpdateEntry isa i pc word).len : ℤ) ≠ i from h1.ne')).opLabelPtr]
    exact hwf.terminal
  · intro j hj0 hj1
    by_cases hj : j = i
    · rw [hj]
      exact Block.isDecoded_decodeUpdateEntry isa b i pc word
    · exact (htext j hj).isDecoded (hwf.decoded j hj0 hj1)
  · intro j hj0 hj1 p hp
    by_cases hj : j = i
    · rw [hj, Block.decodeUpdateEntry_self] at hp
      cases hp
    · have hk := htext j hj
      rcases hk.link with hl | hl
      · rw [hl] at hp
        cases hp
      · rw [hl] at hp
        rw [hk.target]
        exact hwf.link j hj0 hj1 p hp
  · exact hwf.dyn

/-- The repair of the current block is right: an entry whose word is found again is still at the
address where it is found, and the instruction to be fetched is at the address the loop reaches
with its index. -/
def RepairOk (isa : Isa Op) (mem : InstrMem w) (s : DBBCache w Op) (pc : BitVec w) : Prop :=
  ∀ k, s.curBlock = .heap k → s.lastEntry.idx + 1 < (s.getBlock (.heap k)).len →
    (s.getBlock (.heap k)).coherenceCnt ≠ s.coherenceCnt →
    (s.getBlock (.heap k)).AddrOk isa mem ∧
      ∀ a, walk isa mem k (s.lastEntry.idx + 1).toNat = some a → a = pc

/-- Setting `coherence_cnt` once the repair is done. -/
theorem wf_setCoherenceCnt (hwf : b.WF isa k) (c : BitVec 32) :
    { b with coherenceCnt := c }.WF isa k :=
  ⟨hwf.startAddr, hwf.pcZero, hwf.cycleZero, hwf.idx, hwf.terminal, hwf.decoded, hwf.link, hwf.dyn⟩

section Repair

variable (h : s.Inv isa all) (hk : s.curBlock = .heap k)
  (hlen : s.lastEntry.idx + 1 < (s.getBlock (.heap k)).len)

include h hk hlen

/-- A repair that reads the whole block. -/
theorem Inv.advanced_repaired (haddr : (s.getBlock (.heap k)).AddrOk isa mem)
    (hres : ∀ a, walk isa mem k (s.lastEntry.idx + 1).toNat = some a → a = pc)
    (hb : (s.getBlock (.heap k)).Reread isa mem (s.getBlock (.heap k)).len b) :
    s.Advanced isa all mem
      (s.place k { b with coherenceCnt := s.coherenceCnt } ⟨.heap k, s.lastEntry.idx + 1⟩
        (s.lastEntry.idx + 1) false) pc
      ⟨(b.entries (s.lastEntry.idx + 1)).opLabelPtr, (b.entries (s.lastEntry.idx + 1)).instr,
        pc + BitVec.ofNat w (b.entries (s.lastEntry.idx + 1)).pcIncrement⟩ := by
  have hwf₀ := h.heap k
  have h0 : 0 ≤ s.lastEntry.idx + 1 := by
    have := h.idx_ge
    omega
  obtain ⟨n, hn⟩ := Int.eq_ofNat_of_zero_le h0
  rw [hn] at hlen hres ⊢
  obtain ⟨hwalk, hmem⟩ := hb.located le_rfl haddr (i := n) (by omega)
  rw [hwf₀.startAddr] at hwalk
  have hpc : (b.entries n).pc = pc := hres _ hwalk
  rw [hpc] at hmem
  refine h.advanced_place hk (wf_setCoherenceCnt (hb.wf hwf₀ le_rfl) s.coherenceCnt)
    (fun _ => hb.laid hwf₀ haddr) (Or.inl rfl) (Or.inr rfl) (Or.inl ⟨rfl, Or.inr rfl⟩) (by omega) ?_ hpc ?_ ?_ ?_ ?_
  · show (n : ℤ) < b.len
    rw [hb.len]
    exact hlen
  · simp only [Entry.nextPc, hpc]
  · exact fun _ => hmem
  · exact fun _ _ => hb.matches_ haddr
  · intro ha hm ht
    have hl₀ := h.laid k (Or.inl ha)
    have hm₀ := hm k (Or.inl ha)
    have htimed := hb.timed_of_matches hm₀ hl₀ hwf₀ (ht k)
    refine ⟨htimed, ?_⟩
    rw [h.deref_lastEntry_next, hk, hn, ← hb.cycle_of_matches hm₀ hl₀ hwf₀ (by omega) (by omega)]
    exact htimed n (by omega) (by rw [hb.len]; exact hlen)

variable (hcoh : ¬ s.Live all (s.getBlock (.heap k)))

include hcoh

/-- A repair that faults behind the entry to be fetched. -/
theorem Inv.advanced_cutShort (haddr : (s.getBlock (.heap k)).AddrOk isa mem)
    (hres : ∀ a, walk isa mem k (s.lastEntry.idx + 1).toNat = some a → a = pc) {j : ℕ}
    (hj : j < (s.getBlock (.heap k)).len) (hb : (s.getBlock (.heap k)).Reread isa mem j b)
    (hnext : s.lastEntry.idx + 1 < j) :
    s.Advanced isa all mem (s.place k b fastDisabled (s.lastEntry.idx + 1) false) pc
      ⟨(b.entries (s.lastEntry.idx + 1)).opLabelPtr, (b.entries (s.lastEntry.idx + 1)).instr,
        pc + BitVec.ofNat w (b.entries (s.lastEntry.idx + 1)).pcIncrement⟩ := by
  have hwf₀ := h.heap k
  have hdead : ¬ s.Live all b := by
    rw [Live, hb.coherenceCnt]
    exact hcoh
  have h0 : 0 ≤ s.lastEntry.idx + 1 := by
    have := h.idx_ge
    omega
  obtain ⟨n, hn⟩ := Int.eq_ofNat_of_zero_le h0
  rw [hn] at hlen hres hnext ⊢
  obtain ⟨hwalk, hmem⟩ := hb.located hj.le haddr (i := n) (by omega)
  rw [hwf₀.startAddr] at hwalk
  have hpc : (b.entries n).pc = pc := hres _ hwalk
  rw [hpc] at hmem
  refine h.advanced_place hk (hb.wf hwf₀ hj.le) (fun hl => absurd hl hdead) (Or.inl rfl)
    (Or.inl hb.coherenceCnt) (Or.inr ⟨rfl, rfl⟩) (by omega) ?_ hpc ?_ ?_ ?_ ?_
  · rw [hb.len]
    exact hlen
  · simp only [Entry.nextPc, hpc]
  · exact fun _ => hmem
  · exact fun _ hl => absurd hl hdead
  · exact fun ha => absurd (Or.inl ha) hdead

/-- A repair that faults before the entry to be fetched, which is then fetched by itself. -/
theorem Inv.advanced_refetched {j : ℕ} (hj : j < (s.getBlock (.heap k)).len)
    (hb : (s.getBlock (.heap k)).Reread isa mem j b) (hnext : j < s.lastEntry.idx + 1) {word : Word}
    (hword : mem pc = .ok word) :
    s.Advanced isa all mem
      (s.place k (b.decodeUpdateEntry isa (s.lastEntry.idx + 1) pc word) fastDisabled
        (s.lastEntry.idx + 1) false) pc (fetchedOf isa pc word) := by
  have hwf₀ := h.heap k
  have hdead : ¬ s.Live all (b.decodeUpdateEntry isa (s.lastEntry.idx + 1) pc word) := by
    rw [Live, show (b.decodeUpdateEntry isa (s.lastEntry.idx + 1) pc word).coherenceCnt =
      b.coherenceCnt from rfl, hb.coherenceCnt]
    exact hcoh
  have hlen' : s.lastEntry.idx + 1 < b.len := by
    rw [hb.len]
    exact hlen
  have hself := Block.decodeUpdateEntry_self isa b (s.lastEntry.idx + 1) pc word
  refine h.advanced_place hk (wf_decodeUpdateEntry (hb.wf hwf₀ hj.le) (by omega) hlen' pc word)
    (fun hl => absurd hl hdead) (Or.inl rfl) (Or.inl hb.coherenceCnt) (Or.inr ⟨rfl, rfl⟩) (by omega)
    hlen' ?_ ?_ ?_ ?_ ?_
  · rw [hself]
  · rw [hself]
    rfl
  · intro _
    rw [hself]
    exact hword
  · exact fun _ hl => absurd hl hdead
  · exact fun ha => absurd (Or.inl ha) hdead

/-- A repair that ends in a fault leaves the entries it has dealt with. -/
theorem Inv.faulted_repair {j : ℕ} (hj : j < (s.getBlock (.heap k)).len)
    (hb : (s.getBlock (.heap k)).Reread isa mem j b) (pc : BitVec w) :
    s.Faulted isa all mem
      ((s.place k b fastDisabled s.lastEntry.idx false).savePc pc) pc := by
  have hwf₀ := h.heap k
  have hdead : ¬ s.Live all b := by
    rw [Live, hb.coherenceCnt]
    exact hcoh
  have hinv : (s.place k b fastDisabled s.lastEntry.idx false).Inv isa all := by
    refine h.place hk (hb.wf hwf₀ hj.le) (fun hl => absurd hl hdead) false (Or.inr ⟨rfl, rfl⟩)
      ⟨h.idx_ge, ?_⟩
    rw [hb.len]
    omega
  refine hinv.faulted_savePc pc (fun hm k' hl => ?_)
    (keepsCounts_place (Or.inl hb.coherenceCnt) _ _ _)
  by_cases hkk : k' = k
  · subst hkk
    rw [getBlock_place_self] at hl
    exact absurd hl hdead
  · rw [getBlock_place_of_ne s b _ _ _ hkk] at hl ⊢
    exact hm k' hl

end Repair

/-! ### `fetch_decode` -/

/-- What a fetch may need: a block that is not full, and a repair that is right. -/
structure FetchOk (isa : Isa Op) (mem : InstrMem w) (s : DBBCache w Op) : Prop where
  room : ∀ k, s.curBlock = .heap k →
    ((s.getBlock (.heap k)).len : ℤ) ≤ s.lastEntry.idx + 1 → (s.getBlock (.heap k)).len + 1 < 2 ^ 16
  repair : s.RepairOk isa mem s.getPcMaybeAfterCallback

/-- A fetch returns and advances, or throws and saves the address. -/
def FetchSpec (isa : Isa Op) (all : Bool) (mem : InstrMem w) (s : DBBCache w Op) (pc : BitVec w)
    (res : Except SimulationTrap (Fetched w Op) × DBBCache w Op) : Prop :=
  (∃ r s', res = (.ok r, s') ∧ s.Advanced isa all mem s' pc r) ∨
    (∃ t s', res = (.error t, s') ∧ (∃ a, mem a = .error t) ∧ s.Faulted isa all mem s' pc)

/-- While the cache is switched off, a fetch overwrites the one entry of the dummy block. -/
theorem Inv.fetchDecodeDummy (h : s.Inv isa all) (hd : s.curBlock = .dummyBlock) (pc : BitVec w) :
    FetchSpec isa all mem s pc (s.fetchDecodeDummy isa mem pc) := by
  cases hw : mem pc with
  | ok word => exact Or.inl ⟨_, _, fetchDecodeDummy_ok hw, h.advanced_dummyFetched hd hw⟩
  | error t =>
    refine Or.inr ⟨t, _, fetchDecodeDummy_error hw, ⟨pc, hw⟩, ?_⟩
    exact (h.setCurEntryIdx_zero hd).faulted_savePc pc (fun hm => hm) ⟨rfl, fun _ => Or.inl rfl⟩

/-! The paths of `fetch_decode` in a heap block, as writes of `place`. -/

theorem fetchDecodeAddEntry_ok (hk : s.curBlock = .heap k) {word : Word} (hw : mem pc = .ok word) :
    s.fetchDecodeAddEntry isa mem pc = (.ok (fetchedOf isa pc word),
      s.place k (addEntry isa (s.getBlock (.heap k)) pc word) s.fastEntry (s.curEntryIdx + 1)
        false) := by
  cases s
  cases hk
  simp only [DBBCache.fetchDecodeAddEntry, fetch, hw]
  rfl

theorem fetchDecodeRepair_ok (hk : s.curBlock = .heap k) {i : ℤ}
    (hloop : repairLoop isa mem (s.getBlock (.heap k)).len 0 (s.getBlock (.heap k)).startAddr true
      (s.getBlock (.heap k)) = (b, none)) :
    s.fetchDecodeRepair isa mem pc i =
      (.ok ⟨(b.entries i).opLabelPtr, (b.entries i).instr,
        pc + BitVec.ofNat w (b.entries i).pcIncrement⟩,
      s.place k { b with coherenceCnt := s.coherenceCnt } ⟨.heap k, i⟩ i false) := by
  cases s
  cases hk
  simp only [getBlock] at hloop
  simp only [DBBCache.fetchDecodeRepair, getBlock, hloop]
  simp [slowHit, fastPathRawEnable, getBlock, setBlock, place]

theorem fetchDecodeRepair_cutShort (hk : s.curBlock = .heap k) {i : ℤ} {j : ℕ} {t : SimulationTrap}
    (hloop : repairLoop isa mem (s.getBlock (.heap k)).len 0 (s.getBlock (.heap k)).startAddr true
      (s.getBlock (.heap k)) = (b, some (j, t))) (hj : i < j) :
    s.fetchDecodeRepair isa mem pc i =
      (.ok ⟨(b.entries i).opLabelPtr, (b.entries i).instr,
        pc + BitVec.ofNat w (b.entries i).pcIncrement⟩, s.place k b s.fastEntry i false) := by
  cases s
  cases hk
  simp only [getBlock] at hloop
  simp only [DBBCache.fetchDecodeRepair, getBlock, hloop]
  simp only [if_neg hj.ne', if_neg hj.not_gt]
  simp [slowHit, getBlock, setBlock, place]

theorem fetchDecodeRepair_error (hk : s.curBlock = .heap k) {i : ℤ} {t : SimulationTrap} {j : ℕ}
    (hloop : repairLoop isa mem (s.getBlock (.heap k)).len 0 (s.getBlock (.heap k)).startAddr true
      (s.getBlock (.heap k)) = (b, some (j, t))) (hj : (j : ℤ) = i) :
    s.fetchDecodeRepair isa mem pc i =
      (.error t, (s.place k b s.fastEntry s.curEntryIdx false).savePc pc) := by
  cases s
  cases hk
  simp only [getBlock] at hloop
  simp only [DBBCache.fetchDecodeRepair, getBlock, hloop]
  simp only [if_pos hj]
  rfl

theorem fetchDecodeRepair_refetch (hk : s.curBlock = .heap k) {i : ℤ} {t : SimulationTrap} {j : ℕ}
    (hloop : repairLoop isa mem (s.getBlock (.heap k)).len 0 (s.getBlock (.heap k)).startAddr true
      (s.getBlock (.heap k)) = (b, some (j, t))) (hj : (j : ℤ) < i) {word : Word}
    (hw : mem pc = .ok word) :
    s.fetchDecodeRepair isa mem pc i = (.ok (fetchedOf isa pc word),
      s.place k (b.decodeUpdateEntry isa i pc word) s.fastEntry i false) := by
  cases s
  cases hk
  simp only [getBlock] at hloop
  simp only [DBBCache.fetchDecodeRepair, getBlock, hloop]
  simp only [if_neg hj.ne, if_pos hj, fetch, hw]
  simp [setBlock, place, fetchedOf]

theorem fetchDecodeRepair_refetch_error (hk : s.curBlock = .heap k) {i : ℤ} {t t' : SimulationTrap}
    {j : ℕ} (hloop : repairLoop isa mem (s.getBlock (.heap k)).len 0
      (s.getBlock (.heap k)).startAddr true (s.getBlock (.heap k)) = (b, some (j, t)))
    (hj : (j : ℤ) < i) (hw : mem pc = .error t') :
    s.fetchDecodeRepair isa mem pc i =
      (.error t', (s.place k b s.fastEntry s.curEntryIdx false).savePc pc) := by
  cases s
  cases hk
  simp only [getBlock] at hloop
  simp only [DBBCache.fetchDecodeRepair, getBlock, hloop]
  simp only [if_neg hj.ne, if_pos hj, fetch, hw]
  rfl

section Slow

variable (h : s.Inv isa all) (hslow : s.inFastPath = false) (hk : s.curBlock = .heap k)

include h hslow hk

/-- A miss: the word is read and appended, or the read fails and the fetch with it. -/
theorem Inv.fetchDecodeAddEntry (hpc : pc = s.getPcMaybeAfterCallback)
    (hlen : ((s.getBlock (.heap k)).len : ℤ) ≤ s.lastEntry.idx + 1)
    (hcap : (s.getBlock (.heap k)).len + 1 < 2 ^ 16) :
    FetchSpec isa all mem s pc (s.fetchDecodeAddEntry isa mem pc) := by
  have hlast := lastEntry_of_slow hslow
  have hfast : s.fastEntry = fastDisabled := (s.inFastPath_eq_false_iff).mp hslow
  cases hw : mem pc with
  | ok word =>
    refine Or.inl ⟨_, _, ?_, h.advanced_addEntry hk hlen hpc hw hcap⟩
    rw [fetchDecodeAddEntry_ok hk hw, hfast, hlast]
  | error t =>
    refine Or.inr ⟨t, { s with exception := false }.savePc pc, ?_, ⟨pc, hw⟩, ?_⟩
    · simp only [DBBCache.fetchDecodeAddEntry, fetch, hw]
      rfl
    · exact (h.setException false).faulted_savePc pc (fun hm => hm) ⟨rfl, fun _ => Or.inl rfl⟩

/-- A hit in a block that may have changed. -/
theorem Inv.fetchDecodeRepair (hlen : s.lastEntry.idx + 1 < (s.getBlock (.heap k)).len)
    (hcoh : (s.getBlock (.heap k)).coherenceCnt ≠ s.coherenceCnt)
    (hall : all = true → ∀ a, ∃ word, mem a = .ok word)
    (hok : s.RepairOk isa mem pc) :
    FetchSpec isa all mem s pc (s.fetchDecodeRepair isa mem pc (s.lastEntry.idx + 1)) := by
  have hidx : s.curEntryIdx = s.lastEntry.idx := by rw [lastEntry_of_slow hslow]
  have hfast : s.fastEntry = fastDisabled := (s.inFastPath_eq_false_iff).mp hslow
  obtain ⟨haddr, hres⟩ := hok k hk hlen hcoh
  rcases @Block.Reread.repairLoop _ _ _ mem _ (h.heap k).decoded (s.getBlock (.heap k)).len 0 _ true
    _ (Block.Reread.refl isa mem _) (by omega) rfl with
    ⟨b', hloop, hb⟩ | ⟨b', j, t, a, hloop, hj, hb, -, ht⟩
  · exact Or.inl ⟨_, _, fetchDecodeRepair_ok hk hloop, h.advanced_repaired hk hlen haddr hres hb⟩
  · have hdead : ¬ s.Live all (s.getBlock (.heap k)) := by
      rintro (hl | hl)
      · obtain ⟨word, hword⟩ := hall hl a
        rw [hword] at ht
        cases ht
      · exact hcoh hl
    have hfault := h.faulted_repair hk hlen hdead hj hb pc
    rcases lt_trichotomy (j : ℤ) (s.lastEntry.idx + 1) with hlt | heq | hgt
    · cases hw : mem pc with
      | ok word =>
        refine Or.inl ⟨_, _, ?_, h.advanced_refetched hk hlen hdead hj hb hlt hw⟩
        rw [fetchDecodeRepair_refetch hk hloop hlt hw, hfast]
      | error t' =>
        refine Or.inr ⟨t', _, ?_, ⟨pc, hw⟩, hfault⟩
        rw [fetchDecodeRepair_refetch_error hk hloop hlt hw, hfast, hidx]
    · refine Or.inr ⟨t, _, ?_, ⟨a, ht⟩, hfault⟩
      rw [fetchDecodeRepair_error hk hloop heq, hfast, hidx]
    · refine Or.inl ⟨_, _, ?_, h.advanced_cutShort hk hlen hdead haddr hres hj hb hgt⟩
      rw [fetchDecodeRepair_cutShort hk hloop hgt, hfast]

end Slow

/-- The part of `fetch_decode` off the fast path. -/
theorem Inv.fetchDecodeSlow (h : s.Inv isa all) (hslow : s.inFastPath = false)
    (hpc : pc = s.getPcMaybeAfterCallback) (hall : all = true → ∀ a, ∃ word, mem a = .ok word)
    (hok : s.FetchOk isa mem) : FetchSpec isa all mem s pc (s.fetchDecodeSlow isa mem pc) := by
  have hlast := lastEntry_of_slow hslow
  unfold DBBCache.fetchDecodeSlow
  by_cases hd : s.curBlock = .dummyBlock
  · rw [if_pos hd]
    exact h.fetchDecodeDummy hd pc
  · rw [if_neg hd]
    obtain ⟨k, hk⟩ := h.exists_heap hd
    have hidx : s.curEntryIdx = s.lastEntry.idx := by rw [hlast]
    simp only [hk, hidx]
    by_cases hlen : ((s.getBlock (.heap k)).len : ℤ) ≤ s.lastEntry.idx + 1
    · rw [if_pos hlen]
      exact h.fetchDecodeAddEntry hslow hk hpc hlen (hok.room k hk hlen)
    · rw [if_neg hlen]
      have hlt : s.lastEntry.idx + 1 < (s.getBlock (.heap k)).len := lt_of_not_ge hlen
      by_cases hcoh : (s.getBlock (.heap k)).coherenceCnt ≠ s.coherenceCnt
      · rw [if_pos hcoh]
        exact h.fetchDecodeRepair hslow hk hlt hcoh hall (hpc ▸ hok.repair)
      · rw [if_neg hcoh]
        have hl : s.Live all (s.getBlock (.heap k)) := Or.inr (not_not.mp hcoh)
        refine Or.inl ⟨_, _, rfl, h.advanced_hit hk hl hlt hpc (Or.inl ⟨rfl, hl⟩) ?_⟩
        rw [show (s.fastPathRawEnable ⟨.heap k, s.lastEntry.idx + 1⟩).curBlock = .heap k from hk]
        rfl

/-- A fetch from a state that differs in the position's representation only. -/
theorem FetchSpec.of_stayed {s₁ : DBBCache w Op}
    {res : Except SimulationTrap (Fetched w Op) × DBBCache w Op}
    (h : FetchSpec isa all mem s₁ pc res)
    (hget : ∀ k, s₁.getBlock (.heap k) = s.getBlock (.heap k))
    (hcnt : s₁.coherenceCnt = s.coherenceCnt) (hst : s.Stayed isa all s₁) (hinv : s.Inv isa all) :
    FetchSpec isa all mem s pc res := by
  have hmatch : s.Matching all mem → s₁.Matching all mem := by
    intro hm k hl
    rw [Live, hget, hcnt] at hl
    rw [hget]
    exact hm k hl
  have htimed : s.Timed isa → s₁.Timed isa := by
    intro ht k
    rw [hget]
    exact ht k
  have hcyc : (s₁.deref s₁.lastEntry.next).cycleCounterRaw =
      (s.deref s.lastEntry.next).cycleCounterRaw := by
    rw [hst.inv.deref_lastEntry_next, hinv.deref_lastEntry_next, hst.last, hst.cur,
      (hst.blocks _).cycleCounterRaw]
  have hcounts : ∀ s', s₁.KeepsCounts s' → s.KeepsCounts s' := by
    intro s' hc
    refine ⟨hc.coherenceCnt.trans hcnt, fun k => ?_⟩
    rw [← hget, ← hcnt]
    exact hc.blocks k
  rcases h with ⟨r, s', hres, ha⟩ | ⟨t, s', hres, ht, hf⟩
  · refine Or.inl ⟨r, s', hres, ha.inv, ha.idx, ha.entryPc, ha.nextPc, ha.result, ha.text,
      fun hm => ha.word (hmatch hm), fun hm => ha.matching (hmatch hm),
      fun hall hm ht => ha.timed hall (hmatch hm) (htimed ht), fun hall hm ht => ?_,
      ha.exception.imp_right fun hx => hx.trans hst.exception, hcounts _ ha.counts⟩
    rw [← hst.cycleCounterRaw, ← hcyc]
    exact ha.cycles hall (hmatch hm) (htimed ht)
  · exact Or.inr ⟨t, s', hres, ht, hf.inv, hf.exception, hf.saved, fun hm => hf.matching (hmatch hm),
      hcounts _ hf.counts⟩

/-- Where the fast path ends, `fetch_decode` goes on from the last entry of the block. -/
theorem Inv.fast_end (h : s.Inv isa all) (hf : s.inFastPath = true) (hk : s.curBlock = .heap k)
    (hterm : (s.deref s.fastEntry.next).isTerminal = true) :
    s.lastEntry.idx + 1 = (s.getBlock (.heap k)).len ∧
      ((s.deref s.fastEntry.next).idx.toNat : ℤ) - 1 = s.lastEntry.idx := by
  have hlast := lastEntry_of_fast hf
  have hnext := h.deref_lastEntry_next
  rw [hlast, hk] at hnext
  rw [hnext] at hterm ⊢
  have hpos := h.pos (h.fast hf).2.1
  rw [hlast, hk] at hpos
  rw [hlast]
  have hend : s.fastEntry.idx + 1 = (s.getBlock (.heap k)).len := by
    by_contra hne
    have hdec := (h.heap k).decoded (s.fastEntry.idx + 1) (by omega) (by omega)
    rw [Entry.isTerminal, hdec.label] at hterm
    cases hterm
  refine ⟨hend, ?_⟩
  rw [(h.heap k).idx _ (by omega) hend.le]
  omega

/-- On the fast path, or off it where `fastEntry` points to the abort label, an operation after the
fast entry is the next entry of a current block that is live. -/
theorem Inv.fast_hit (h : s.Inv isa all) (hop : (s.deref s.fastEntry.next).isTerminal = false) :
    ∃ k, s.curBlock = .heap k ∧ s.Live all (s.getBlock (.heap k)) ∧
      s.lastEntry.idx + 1 < (s.getBlock (.heap k)).len ∧
      s.fastEntry.next = ⟨.heap k, s.lastEntry.idx + 1⟩ := by
  have hf : s.inFastPath = true := by
    by_contra hslow
    rw [Bool.not_eq_true, inFastPath_eq_false_iff] at hslow
    have hd := h.disable
    rw [hslow, Entry.isTerminal,
      show s.deref (EntryPtr.next fastDisabled) = s.fastDisableBlock.entries 1 from rfl, hd] at hop
    cases hop
  obtain ⟨hblk, hd, hl⟩ := h.fast hf
  obtain ⟨k, hk⟩ := h.exists_heap hd
  rw [hk] at hl hblk
  have hlast := lastEntry_of_fast hf
  have hnext : s.fastEntry.next = ⟨.heap k, s.lastEntry.idx + 1⟩ := by
    rw [EntryPtr.next, hlast, hblk]
  refine ⟨k, hk, hl, ?_, hnext⟩
  have hpos := h.pos hd
  rw [hk] at hpos
  by_contra hge
  have hend : s.lastEntry.idx + 1 = (s.getBlock (.heap k)).len := by omega
  rw [hnext, deref, hend, Entry.isTerminal, (h.heap k).terminal] at hop
  cases hop

/-- **`fetch_decode` at the current program counter** keeps the invariant and moves by one entry. -/
theorem Inv.fetchDecode (h : s.Inv isa all) (hpc : pc = s.getPcMaybeAfterCallback)
    (hall : all = true → ∀ a, ∃ word, mem a = .ok word) (hok : s.FetchOk isa mem) :
    FetchSpec isa all mem s pc (s.fetchDecode isa mem pc) := by
  unfold DBBCache.fetchDecode
  cases hf : s.inFastPath with
  | false => exact h.fetchDecodeSlow hf hpc hall hok
  | true =>
    have hderef : { s with fastEntry := s.fastEntry.next }.deref s.fastEntry.next =
        s.deref s.fastEntry.next := deref_congr rfl rfl rfl _
    simp only [if_true, hderef]
    cases hterm : (s.deref s.fastEntry.next).isTerminal with
    | false =>
      simp only [Bool.not_false, if_true]
      -- the next entry holds an instruction: a hit without any check
      obtain ⟨k, hk, hl, hlt, hnext⟩ := h.fast_hit hterm
      refine Or.inl ⟨_, _, rfl, ?_⟩
      refine @Inv.advanced_hit _ _ _ _ mem _ _ _ _ h hk hl hlt hpc s.fastEntry.next s.curEntryIdx
        (Or.inl ⟨hnext, hl⟩) ?_
      rw [hnext]
      rfl
    | true =>
      simp only [Bool.not_true, Bool.false_eq_true, if_false]
      -- the block has ended: the fast path is left and the slow one goes on from there
      obtain ⟨k, hk⟩ := h.exists_heap (h.fast hf).2.1
      obtain ⟨hend, hidx⟩ := h.fast_end hf hk hterm
      rw [hidx]
      have hst := h.stayed_leaveFast s.slowPath
      refine FetchSpec.of_stayed (hst.inv.fetchDecodeSlow ?_ (hpc.trans (hst.getPc h).symm) hall ?_)
        (fun _ => rfl) rfl hst h
      · rw [inFastPath_eq_false_iff]
        rfl
      · have hroom := hok.room k hk (by omega)
        refine ⟨fun k' hk' _ => ?_, fun k' hk' hlt => ?_⟩
        · obtain rfl : k' = k := BlockPtr.heap.inj (hk'.symm.trans hk)
          exact hroom
        · obtain rfl : k' = k := BlockPtr.heap.inj (hk'.symm.trans hk)
          rw [hst.last, hend] at hlt
          exact absurd hlt (lt_irrefl _)

/-- `fetch_decode_fast` is a hit, or it is undone by `abort_fetch_decode_fast`. -/
theorem Inv.fetchDecodeFast (h : s.Inv isa all) (hpc : pc = s.getPcMaybeAfterCallback) :
    (∃ id r s', s.fetchDecodeFast = (.op id, r.instr, s') ∧ r.label = .op id ∧
      s.Advanced isa all mem s' pc r) ∨
    (∃ instr s', s.fetchDecodeFast = (.fastAbort, instr, s') ∧ s'.abortFetchDecodeFast = s) := by
  have hderef : { s with fastEntry := s.fastEntry.next }.deref s.fastEntry.next =
      s.deref s.fastEntry.next := deref_congr rfl rfl rfl _
  have habort : { s with fastEntry := s.fastEntry.next }.abortFetchDecodeFast = s := by
    cases s
    simp [abortFetchDecodeFast, EntryPtr.next, EntryPtr.prev]
  unfold DBBCache.fetchDecodeFast
  simp only [hderef]
  cases hlabel : (s.deref s.fastEntry.next).opLabelPtr with
  | fastAbort => exact Or.inr ⟨_, _, rfl, habort⟩
  | op id =>
    left
    have hop : (s.deref s.fastEntry.next).isTerminal = false := by
      rw [Entry.isTerminal, hlabel]
    obtain ⟨k, hk, hl, hlt, hnext⟩ := h.fast_hit hop
    have hadv := @Inv.advanced_hit _ _ _ _ mem _ _ _ _ h hk hl hlt hpc s.fastEntry.next
      s.curEntryIdx (Or.inl ⟨hnext, hl⟩) rfl
    have hentry : s.deref s.fastEntry.next =
        (s.getBlock (.heap k)).entries (s.lastEntry.idx + 1) := by rw [hnext, deref]
    rw [hentry] at hlabel ⊢
    exact ⟨id, _, _, rfl, hlabel, hadv⟩

/-! ### Initialisation -/

/-- The state in which `init` switches to the first block. -/
def boot (enabled : Bool) : DBBCache w Op :=
  { enabled
    memWord := 0
    blockmap := fun _ => none
    curBlock := .dummyBlock
    dummyBlock := Block.init 0 0
    curEntryIdx := -1
    slowPath := false
    fastDisableBlock :=
      (Block.init 0 0 : Block w Op).setEntry 1
        { (Block.init 0 0 : Block w Op).entries 1 with opLabelPtr := .fastAbort }
    fastEntry := fastDisabled
    exception := false
    trapLinkCache := .new trapLinkCacheSize
    coherenceCnt := 0
    cycleCounterRaw := 0 }

theorem init_eq (enabled : Bool) (entrypoint : BitVec w) :
    (init enabled entrypoint : DBBCache w Op) =
      if enabled then (boot enabled).findCreateSwitchBlock entrypoint
      else (boot enabled).switchBlockDummy entrypoint := rfl

theorem lastEntry_boot (enabled : Bool) :
    (boot enabled : DBBCache w Op).lastEntry = ⟨.dummyBlock, -1⟩ := rfl

theorem inv_boot (isa : Isa Op) (all enabled : Bool) :
    (boot enabled : DBBCache w Op).Inv isa all where
  heap k := Block.wf_init isa k 0
  laid k _ := Block.laid_of_len_zero rfl
  dummyCycle := (Block.wf_init isa (0 : BitVec w) 0).cycleZero
  dummyLen := rfl
  dummyDyn := BlockLinkCache.wf_new _
  trapLinks := BlockLinkCache.wf_new _
  disable := by simp [boot, Block.setEntry]
  cur := Or.inl rfl
  fast := by
    intro hf
    rw [inFastPath_iff] at hf
    exact absurd rfl hf
  pos hd := absurd rfl hd
  posDummy _ := Or.inl rfl
  dummyFresh _ _ := by simp [boot, Block.init, Entry.blank]

/-- `init` lands at the entry point, with no code and no cycles. -/
theorem landed_init (isa : Isa Op) (all enabled : Bool) (entrypoint : BitVec w) :
    (boot enabled).Landed isa all (init enabled entrypoint) entrypoint := by
  have h := inv_boot (w := w) isa all enabled
  rw [init_eq]
  cases enabled with
  | true =>
    refine (h.landed_findCreateSwitchBlock ?_).1
    intro hcur
    cases hcur
  | false => exact h.landed_switchBlockDummy entrypoint

theorem getCycles_boot (enabled : Bool) :
    (boot enabled : DBBCache w Op).getCycleCounterRaw = 0 := by
  rw [getCycleCounterRaw, lastEntry_boot]
  show 0 + ((Block.init 0 0 : Block w Op).entries 0).cycleCounterRaw.setWidth 64 = 0
  simp [Block.init]

/-- A transfer brings no code that does not match. -/
theorem Landed.matching {pc : BitVec w} (hl : s.Landed isa all s' pc) (hm : s.Matching all mem) :
    s'.Matching all mem := by
  intro k hlive
  rcases hl.frame.blocks k with hs | ⟨-, hs⟩
  · refine hs.matches_ (hm k ?_)
    rw [Live, hs.coherenceCnt, hl.frame.coherenceCnt] at hlive
    exact hlive
  · intro i h0 h1
    rw [hs.len] at h1
    exact absurd h1 (not_lt.mpr h0)

theorem Landed.timed {pc : BitVec w} (hl : s.Landed isa all s' pc) (ht : s.Timed isa) :
    s'.Timed isa := by
  intro k
  rcases hl.frame.blocks k with hs | ⟨-, hs⟩
  · exact hs.timed (ht k)
  · intro i h0 h1
    rw [hs.len] at h1
    exact absurd h1 (not_lt.mpr h0)

theorem Stayed.timed (hs : s.Stayed isa all s') (ht : s.Timed isa) : s'.Timed isa :=
  fun k => (hs.blocks _).timed (ht k)

theorem matching_boot (all enabled : Bool) : (boot enabled : DBBCache w Op).Matching all mem :=
  fun _ _ _ h0 h1 => absurd h1 (not_lt.mpr h0)

theorem timed_boot (isa : Isa Op) (enabled : Bool) : (boot enabled : DBBCache w Op).Timed isa :=
  fun _ _ h0 h1 => absurd h1 (not_lt.mpr h0)

end RiscvVp.DBBCache
