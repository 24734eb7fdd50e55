import RiscvVp.DbbCache.Equiv.Coherence

/-!
# The time that a fetch counts

`get_cycle_counter_raw` is the time committed so far and the sum that the entry after the position
carries.  A fetch is to move it by the time of the operation it returns, whichever path it takes:
`DBBCache.Inv.counts_fetchDecode` and `DBBCache.Inv.counts_fetchDecodeFast`.

The sums are right as long as they are only ever computed.  The repair of a block carries them over
where it finds a word again, so what it finds has to have been summed up to the same time
(`Block.SumsOk`), also before the position at which the block is entered again; and the sum of a
block has 32 bits (`DBBCache.CountOk`).
-/

namespace RiscvVp

variable {w : ℕ} {Op : Type} {isa : Isa Op} {mem : InstrMem w}

namespace Block

variable {b₀ b : Block w Op} {k : BitVec w} {m : ℕ}

/-- Where the re-read word is the cached one, the sum kept after it is that of the words that are
now in memory.  Unlike in `TimeOk` this goes for the sum after the last entry, too. -/
def SumsOk (isa : Isa Op) (mem : InstrMem w) (b : Block w Op) : Prop :=
  ∀ i : ℕ, i < b.len → ∀ a, walk isa mem b.startAddr i = some a →
    mem a = .ok (b.entries i).memWord →
    (b.entries ((i : ℤ) + 1)).cycleCounterRaw = walkTime isa mem b.startAddr (i + 1)

theorem walkTime_succ {start a : BitVec w} {i : ℕ} {word : Word}
    (ha : walk isa mem start i = some a) (hword : mem a = .ok word) :
    walkTime isa mem start (i + 1) =
      walkTime isa mem start i + (isa.instrTime (isa.decode word).op).setWidth 32 := by
  simp only [walkTime, ha, hword]

/-- Up to where the loop has come, the sums are those of the words it has read. -/
theorem Reread.cycle_eq_walkTime (h : b₀.Reread isa mem m b) (hwf : b₀.WF isa k)
    (hm : m ≤ b₀.len) (hok : b₀.SumsOk isa mem) {i : ℕ} (hi : i ≤ m) :
    (b.entries i).cycleCounterRaw = walkTime isa mem b₀.startAddr i := by
  induction i with
  | zero => exact h.cycleZero.trans hwf.cycleZero
  | succ i ih =>
    obtain ⟨a, word, ha, hword, -, hread⟩ := h.done i (by omega)
    push_cast
    cases hread with
    | changed hne pc decoded link cycle => rw [cycle, ih (by omega), walkTime_succ ha hword]
    | unchanged heq kept cycle => rw [cycle, hok i (by omega) a ha (heq ▸ hword)]

/-- The sum after an entry that the loop has read. -/
theorem Reread.cycle_succ (h : b₀.Reread isa mem m b) (hwf : b₀.WF isa k) (hm : m ≤ b₀.len)
    (hok : b₀.SumsOk isa mem) {i : ℕ} (hi : i < m) :
    (b.entries ((i : ℤ) + 1)).cycleCounterRaw = walkTime isa mem b₀.startAddr i +
      (isa.instrTime (isa.decode (b.entries i).memWord).op).setWidth 32 := by
  obtain ⟨a, word, ha, hword, hmem, -⟩ := h.done i hi
  have hsucc := h.cycle_eq_walkTime hwf hm hok (i := i + 1) hi
  push_cast at hsucc
  rw [hsucc, hmem, walkTime_succ ha hword]

/-- A block that has been repaired carries the right sums. -/
theorem Reread.timed (h : b₀.Reread isa mem b₀.len b) (hwf : b₀.WF isa k)
    (hok : b₀.SumsOk isa mem) : b.Timed isa := by
  intro i h0 h1
  obtain ⟨n, rfl⟩ := Int.eq_ofNat_of_zero_le h0
  rw [h.len] at h1
  rw [h.cycle_succ hwf le_rfl hok (by omega), h.cycle_eq_walkTime hwf le_rfl hok (by omega)]

theorem timed_of_len_zero (h : b.len = 0) : b.Timed isa := by
  intro i h0 h1
  rw [h] at h1
  omega

end Block

namespace DBBCache

variable {s s' : DBBCache w Op} {pc : BitVec w} {k : BitVec w} {b : Block w Op}

/-! ### The condition -/

theorem live_false (s : DBBCache w Op) (b : Block w Op) :
    s.Live false b ↔ b.coherenceCnt = s.coherenceCnt := by
  simp [Live]

/-- The blocks that are up to date carry the right sums. -/
def TimedLive (isa : Isa Op) (s : DBBCache w Op) : Prop :=
  ∀ k, s.Live false (s.getBlock (.heap k)) → (s.getBlock (.heap k)).Timed isa

/-- The time of the operation can be added to the sum of the block, which has 32 bits. -/
def SumFits (isa : Isa Op) (s : DBBCache w Op) (op : Op) : Prop :=
  (s.deref s.lastEntry.next).cycleCounterRaw.toNat + (isa.instrTime op).toNat < 2 ^ 32

/-- The operation that a fetch at the current program counter comes to: that of the next entry if
the block is up to date, else that of the word in memory. -/
def nextOp (isa : Isa Op) (mem : InstrMem w) (s : DBBCache w Op) : Option Op :=
  if s.curBlock ≠ .dummyBlock ∧ s.lastEntry.idx + 1 < (s.getBlock s.curBlock).len ∧
      (s.getBlock s.curBlock).coherenceCnt = s.coherenceCnt then
    match (s.deref s.lastEntry.next).opLabelPtr with
    | .op id => some id
    | .fastAbort => none
  else
    match mem s.getPcMaybeAfterCallback with
    | .ok word => some (isa.decode word).op
    | .error _ => none

/-- What the counting of a fetch needs: the sum has room for the operation, and where the block is
re-read the sums it keeps are those of the new code, with the one that has been counted among
them. -/
structure CountOk (isa : Isa Op) (mem : InstrMem w) (s : DBBCache w Op) : Prop where
  fits : ∀ op, s.nextOp isa mem = some op → s.SumFits isa op
  sums : ∀ k, s.curBlock = .heap k → s.lastEntry.idx + 1 < (s.getBlock (.heap k)).len →
    (s.getBlock (.heap k)).coherenceCnt ≠ s.coherenceCnt →
    (s.getBlock (.heap k)).SumsOk isa mem ∧
      ∀ a, walk isa mem k (s.lastEntry.idx + 1).toNat = some a →
        ((s.getBlock (.heap k)).entries (s.lastEntry.idx + 1)).cycleCounterRaw =
          Block.walkTime isa mem k (s.lastEntry.idx + 1).toNat

/-! ### Steps that count nothing -/

/-- No time is counted, and the sums stay right. -/
structure Quiet (isa : Isa Op) (s s' : DBBCache w Op) : Prop where
  timed : s.TimedLive isa → s'.TimedLive isa
  cycles : s'.getCycleCounterRaw = s.getCycleCounterRaw

theorem Quiet.refl (isa : Isa Op) (s : DBBCache w Op) : s.Quiet isa s := ⟨id, rfl⟩

theorem Quiet.trans {s'' : DBBCache w Op} (h : s.Quiet isa s') (h' : s'.Quiet isa s'') :
    s.Quiet isa s'' :=
  ⟨fun ht => h'.timed (h.timed ht), h'.cycles.trans h.cycles⟩

/-- A transfer of control commits what the block has counted. -/
theorem Landed.quiet (hl : s.Landed isa false s' pc) : s.Quiet isa s' := by
  refine ⟨fun ht k hlive => ?_, hl.cycles⟩
  rcases hl.frame.blocks k with hs | ⟨-, hs⟩
  · refine hs.timed (ht k ?_)
    rw [Live, hs.coherenceCnt, hl.frame.coherenceCnt] at hlive
    exact hlive
  · exact Block.timed_of_len_zero hs.len

/-- A request that stays where it is and is no fence changes nothing that the cycle count is made of. -/
theorem Stayed.quiet (hs : s.Stayed isa false s') (h : s.Inv isa false)
    (hcnt : s'.coherenceCnt = s.coherenceCnt) : s.Quiet isa s' := by
  refine ⟨fun ht k hlive => ?_, hs.getCycles h⟩
  refine (hs.blocks _).timed (ht k ?_)
  rw [Live, (hs.blocks _).coherenceCnt, hcnt] at hlive
  exact hlive

/-- After a fence only empty blocks are up to date. -/
theorem Stayed.quiet_of_fence (hs : s.Stayed isa false s') (h : s.Inv isa false)
    (hok : s.FenceOk false) (hcnt : s'.coherenceCnt = s.coherenceCnt + 1) : s.Quiet isa s' := by
  refine ⟨fun _ k hlive => ?_, hs.getCycles h⟩
  have hsame := hs.blocks (.heap k)
  rw [live_false, hsame.coherenceCnt, hcnt] at hlive
  refine Block.timed_of_len_zero ?_
  rw [hsame.len]
  by_contra hne
  rcases hok with hall | hok
  · cases hall
  · exact hok k (Nat.pos_of_ne_zero hne) hlive

/-! ### Paths of a fetch -/

/-- Below `2^32` it does not matter whether a time is added in 32 or in 64 bits. -/
theorem setWidth_add_time {c : BitVec 32} {t : BitVec 64} (h : c.toNat + t.toNat < 2 ^ 32) :
    (c + t.setWidth 32).setWidth 64 = c.setWidth 64 + t := by
  apply BitVec.eq_of_toNat_eq
  simp only [BitVec.toNat_setWidth, BitVec.toNat_add]
  omega

/-- The outcome of a fetch: it counts the time of its operation, or nothing if it throws. -/
def Counts (isa : Isa Op) (s : DBBCache w Op)
    (res : Except SimulationTrap (Fetched w Op) × DBBCache w Op) : Prop :=
  res.2.TimedLive isa ∧
    match res.1 with
    | .ok r => ∃ op, r.label = .op op ∧
      res.2.getCycleCounterRaw = s.getCycleCounterRaw + isa.instrTime op
    | .error _ => res.2.getCycleCounterRaw = s.getCycleCounterRaw

theorem timedLive_place (ht : s.TimedLive isa) (hb : s.Live false b → b.Timed isa) (f : EntryPtr w)
    (i : ℤ) (x : Bool) : (s.place k b f i x).TimedLive isa := by
  intro k' hl
  by_cases hkk : k' = k
  · subst hkk
    rw [getBlock_place_self] at hl ⊢
    exact hb hl
  · rw [getBlock_place_of_ne s b f i x hkk] at hl ⊢
    exact ht k' hl

theorem getCycles_place {f : EntryPtr w} {i j : ℤ} (x : Bool) (hk : s.curBlock = .heap k)
    (hp : s.Placed false k b f i j) : (s.place k b f i x).getCycleCounterRaw =
      s.cycleCounterRaw + (b.entries (j + 1)).cycleCounterRaw.setWidth 64 := by
  rw [getCycleCounterRaw, lastEntry_place x hk hp, EntryPtr.next, deref, getBlock_place_self]
  rfl

/-- The sums are not touched when a fault saves its address. -/
theorem getCycles_savePc (s : DBBCache w Op) (pc : BitVec w) :
    (s.savePc pc).getCycleCounterRaw = s.getCycleCounterRaw := by
  have hderef : ∀ p, ((s.savePc pc).deref p).cycleCounterRaw = (s.deref p).cycleCounterRaw := by
    rintro ⟨block, i⟩
    cases block with
    | heap k => rfl
    | fastDisableBlock => rfl
    | dummyBlock =>
      by_cases hi : i = 0
      · subst hi
        simp [deref, getBlock, savePc, Block.setEntry]
      · simp [deref, getBlock, savePc, Block.setEntry, Function.update_of_ne hi]
  have hlast : (s.savePc pc).lastEntry = s.lastEntry := rfl
  rw [getCycleCounterRaw, getCycleCounterRaw, hlast, hderef]
  rfl

section Heap

variable (h : s.Inv isa false) (hk : s.curBlock = .heap k)

include h hk

theorem Inv.deref_next_heap : s.deref s.lastEntry.next =
    (s.getBlock (.heap k)).entries (s.lastEntry.idx + 1) := by
  rw [h.deref_lastEntry_next, hk]

/-- An operation that comes to lie at `j` counts its time if the sum after it is the one so far with
that time added. -/
theorem Inv.getCycles_place_add {f : EntryPtr w} {i j : ℤ} (x : Bool) {op : Op}
    (hp : s.Placed false k b f i j) (hfits : s.SumFits isa op)
    (hcyc : (b.entries (j + 1)).cycleCounterRaw =
      ((s.getBlock (.heap k)).entries (s.lastEntry.idx + 1)).cycleCounterRaw +
        (isa.instrTime op).setWidth 32) :
    (s.place k b f i x).getCycleCounterRaw = s.getCycleCounterRaw + isa.instrTime op := by
  have hfits' := hfits
  rw [SumFits, h.deref_next_heap hk] at hfits'
  rw [getCycles_place x hk hp, hcyc, setWidth_add_time hfits', h.getCycles_eq, hk, add_assoc]

/-- A throwing fetch counts nothing if the sum at the position stays. -/
theorem Inv.getCycles_place_same {f : EntryPtr w} {i : ℤ} (x : Bool)
    (hp : s.Placed false k b f i s.lastEntry.idx)
    (hcyc : (b.entries (s.lastEntry.idx + 1)).cycleCounterRaw =
      ((s.getBlock (.heap k)).entries (s.lastEntry.idx + 1)).cycleCounterRaw) :
    (s.place k b f i x).getCycleCounterRaw = s.getCycleCounterRaw := by
  rw [getCycles_place x hk hp, hcyc, h.getCycles_eq, hk]

end Heap

/-- An operation that is fetched from memory. -/
theorem nextOp_of_read (hne : s.curBlock = .dummyBlock ∨
      ¬ s.lastEntry.idx + 1 < (s.getBlock s.curBlock).len ∨
      (s.getBlock s.curBlock).coherenceCnt ≠ s.coherenceCnt) {word : Word}
    (hword : mem s.getPcMaybeAfterCallback = .ok word) :
    s.nextOp isa mem = some (isa.decode word).op := by
  rw [nextOp, if_neg, hword]
  rintro ⟨h1, h2, h3⟩
  rcases hne with h | h | h
  · exact h1 h
  · exact h h2
  · exact h h3

/-- A hit in a block that is up to date. -/
theorem Inv.counts_hit (h : s.Inv isa false) (hk : s.curBlock = .heap k) (ht : s.TimedLive isa)
    (hl : s.Live false (s.getBlock (.heap k)))
    (hlen : s.lastEntry.idx + 1 < (s.getBlock (.heap k)).len)
    (hfits : ∀ op, (s.deref s.lastEntry.next).opLabelPtr = .op op → s.SumFits isa op) {f : EntryPtr w}
    {i : ℤ} (hp : s.Placed false k (s.getBlock (.heap k)) f i (s.lastEntry.idx + 1))
    {r : Fetched w Op}
    (hr : r.label = ((s.getBlock (.heap k)).entries (s.lastEntry.idx + 1)).opLabelPtr) :
    s.Counts isa (.ok r, { s with fastEntry := f, curEntryIdx := i }) := by
  have h0 : 0 ≤ s.lastEntry.idx + 1 := by
    have := h.idx_ge
    omega
  have hlabel := ((h.heap k).decoded _ h0 hlen).label
  have hget : ∀ p, { s with fastEntry := f, curEntryIdx := i }.getBlock p =
      (s.place k (s.getBlock (.heap k)) f i s.exception).getBlock p := by
    intro p
    rw [getBlock_place]
    by_cases hpk : p = .heap k
    · rw [hpk, getBlock_setBlock_self]
      rfl
    · rw [getBlock_setBlock_of_ne s _ hpk]
      rfl
  have hraw : { s with fastEntry := f, curEntryIdx := i }.getCycleCounterRaw =
      (s.place k (s.getBlock (.heap k)) f i s.exception).getCycleCounterRaw := by
    rw [getCycleCounterRaw, getCycleCounterRaw, deref, deref, hget]
    rfl
  refine ⟨fun k' hl' => ht k' hl', _, hr.trans hlabel, hraw.trans ?_⟩
  refine h.getCycles_place_add hk s.exception hp (hfits _ ?_) (ht k hl _ h0 hlen)
  rw [h.deref_next_heap hk, hlabel]

/-- The operation of a hit is the one of the entry. -/
theorem CountOk.fits_of_hit (hok : s.CountOk isa mem) (hk : s.curBlock = .heap k)
    (hl : s.Live false (s.getBlock (.heap k)))
    (hlen : s.lastEntry.idx + 1 < (s.getBlock (.heap k)).len) (op : Op)
    (hop : (s.deref s.lastEntry.next).opLabelPtr = .op op) : s.SumFits isa op := by
  have hlive := (live_false s _).mp hl
  refine hok.fits op ?_
  rw [nextOp, hop, hk, if_pos ⟨by simp, hlen, hlive⟩]

section Heap

variable (h : s.Inv isa false) (hk : s.curBlock = .heap k) (ht : s.TimedLive isa)
  (hok : s.CountOk isa mem)

include h hk ht hok

/-- A miss whose read succeeds counts the time of the instruction that it has just decoded. -/
theorem Inv.counts_addEntry (hlen : ((s.getBlock (.heap k)).len : ℤ) ≤ s.lastEntry.idx + 1)
    (hpc : pc = s.getPcMaybeAfterCallback) {word : Word} (hword : mem pc = .ok word) :
    s.Counts isa (.ok (fetchedOf isa pc word),
      s.place k (addEntry isa (s.getBlock (.heap k)) pc word) fastDisabled
        (s.lastEntry.idx + 1) false) := by
  have hj : s.lastEntry.idx + 1 = (s.getBlock (.heap k)).len := by
    have := (h.at_end hk hlen hpc).1
    omega
  have htimed : s.Live false (addEntry isa (s.getBlock (.heap k)) pc word) →
      (addEntry isa (s.getBlock (.heap k)) pc word).Timed isa := by
    intro hl
    exact timed_addEntry (ht k hl) word
  refine ⟨timedLive_place ht htimed _ _ _, (isa.decode word).op, rfl, ?_⟩
  refine h.getCycles_place_add hk false (Or.inr ⟨rfl, rfl⟩) (hok.fits _ ?_) ?_
  · exact nextOp_of_read (Or.inr (Or.inl (by rw [hk]; omega))) (hpc ▸ hword)
  · rw [hj, addEntry_terminal]

section Repair

variable (hlen : s.lastEntry.idx + 1 < (s.getBlock (.heap k)).len)
  (hcoh : (s.getBlock (.heap k)).coherenceCnt ≠ s.coherenceCnt)

include hlen hcoh

/-- An entry that has been re-read counts its time, if it is the one at the program counter. -/
theorem Inv.counts_reread (hpc : pc = s.getPcMaybeAfterCallback) {m : ℕ}
    (hm : m ≤ (s.getBlock (.heap k)).len) (hb : (s.getBlock (.heap k)).Reread isa mem m b)
    (hnext : s.lastEntry.idx + 1 < m)
    (hres : ∀ a, walk isa mem k (s.lastEntry.idx + 1).toNat = some a → a = pc) {d : Block w Op}
    (hentries : d.entries = b.entries) (htimed : s.Live false d → d.Timed isa) {f : EntryPtr w}
    {i : ℤ} {x : Bool} (hp : s.Placed false k d f i (s.lastEntry.idx + 1)) {r : Fetched w Op}
    (hr : r.label = (b.entries (s.lastEntry.idx + 1)).opLabelPtr) :
    s.Counts isa (.ok r, s.place k d f i x) := by
  obtain ⟨hsums, hpos⟩ := hok.sums k hk hlen hcoh
  have h0 : 0 ≤ s.lastEntry.idx + 1 := by
    have := h.idx_ge
    omega
  have hwf := h.heap k
  have hlabel := ((hb.wf hwf hm).decoded _ h0 (by rw [hb.len]; exact hlen)).label
  refine ⟨timedLive_place ht htimed _ _ _, _, hr.trans hlabel, ?_⟩
  refine h.getCycles_place_add hk x hp (hok.fits _ ?_) ?_
  · -- The word has been read where the walk comes with the index, and that is the program counter.
    obtain ⟨a, word, ha, hword, hmem, -⟩ := hb.done (s.lastEntry.idx + 1).toNat (by omega)
    rw [Int.toNat_of_nonneg h0] at hmem
    rw [hwf.startAddr] at ha
    rw [hmem]
    refine nextOp_of_read (Or.inr (Or.inr (by rw [hk]; exact hcoh))) ?_
    rw [← hpc, ← hres a ha, hword]
  · obtain ⟨n, hn⟩ := Int.eq_ofNat_of_zero_le h0
    rw [hn] at hpos hnext ⊢
    obtain ⟨a, -, ha, -⟩ := hb.done n (by omega)
    rw [hwf.startAddr] at ha
    rw [hentries, hb.cycle_succ hwf hm hsums (by omega), hwf.startAddr, hpos a ha]
    rfl

/-- A throwing repair counts nothing: the sum at the position is that of the new code already. -/
theorem Inv.counts_faulted {j : ℕ} (hj : j < (s.getBlock (.heap k)).len)
    (hb : (s.getBlock (.heap k)).Reread isa mem j b) (hle : (j : ℤ) ≤ s.lastEntry.idx + 1)
    {a : BitVec w} (ha : walk isa mem (s.getBlock (.heap k)).startAddr j = some a)
    (t : SimulationTrap) : s.Counts isa
      (.error t, (s.place k b fastDisabled s.lastEntry.idx false).savePc pc) := by
  obtain ⟨hsums, hpos⟩ := hok.sums k hk hlen hcoh
  have hdead : s.Live false b → b.Timed isa := by
    intro hl
    rw [live_false, hb.coherenceCnt] at hl
    exact absurd hl hcoh
  refine ⟨timedLive_place ht hdead fastDisabled s.lastEntry.idx false,
    (getCycles_savePc _ pc).trans ?_⟩
  refine h.getCycles_place_same hk false (Or.inr ⟨rfl, rfl⟩) ?_
  rcases lt_or_eq_of_le hle with hlt | heq
  · exact hb.cycleRest _ hlt
  · rw [← heq] at hpos ⊢
    rw [(h.heap k).startAddr] at ha
    rw [hb.cycle_eq_walkTime (h.heap k) hj.le hsums le_rfl, (h.heap k).startAddr, hpos a ha]
    rfl

/-- A hit in a block that may have changed. -/
theorem Inv.counts_fetchDecodeRepair (hslow : s.inFastPath = false)
    (hpc : pc = s.getPcMaybeAfterCallback) (hrepair : s.RepairOk isa mem pc) :
    s.Counts isa (s.fetchDecodeRepair isa mem pc (s.lastEntry.idx + 1)) := by
  obtain ⟨haddr, hres⟩ := hrepair k hk hlen hcoh
  have hidx : s.curEntryIdx = s.lastEntry.idx := by rw [lastEntry_of_slow hslow]
  have hfast : s.fastEntry = fastDisabled := (s.inFastPath_eq_false_iff).mp hslow
  have hsums := (hok.sums k hk hlen hcoh).1
  have hdead : ∀ b' : Block w Op, b'.coherenceCnt = (s.getBlock (.heap k)).coherenceCnt →
      s.Live false b' → b'.Timed isa := by
    intro b' hcnt hl
    rw [live_false, hcnt] at hl
    exact absurd hl hcoh
  rcases @Block.Reread.repairLoop _ _ _ mem _ (h.heap k).decoded (s.getBlock (.heap k)).len 0 _ true
    _ (Block.Reread.refl isa mem _) (by omega) rfl with
    ⟨b', hloop, hb⟩ | ⟨b', j, t, a, hloop, hj, hb, ha, -⟩
  · rw [fetchDecodeRepair_ok hk hloop]
    have htimed : b'.Timed isa := hb.timed (h.heap k) hsums
    exact h.counts_reread (d := { b' with coherenceCnt := s.coherenceCnt }) hk ht hok hlen hcoh hpc
      le_rfl hb hlen hres rfl (fun _ => htimed) (Or.inl ⟨rfl, (live_false s _).mpr rfl⟩) rfl
  · rcases lt_trichotomy (j : ℤ) (s.lastEntry.idx + 1) with hlt | heq | hgt
    · cases hw : mem pc with
      | ok word =>
        rw [fetchDecodeRepair_refetch hk hloop hlt hw, hfast]
        refine ⟨?_, _, rfl, ?_⟩
        · refine timedLive_place (b := b'.decodeUpdateEntry isa _ pc word) ht (hdead _ ?_) _ _ _
          exact hb.coherenceCnt
        refine h.getCycles_place_add hk false (Or.inr ⟨rfl, rfl⟩) (hok.fits _ ?_) ?_
        · exact nextOp_of_read (Or.inr (Or.inr (by rw [hk]; exact hcoh))) (hpc ▸ hw)
        · -- The loop has not come to this entry, which still carries what has been counted.
          rw [Block.decodeUpdateEntry_succ, hb.cycleRest _ hlt]
      | error t' =>
        rw [fetchDecodeRepair_refetch_error hk hloop hlt hw, hfast, hidx]
        exact h.counts_faulted hk ht hok hlen hcoh hj hb hlt.le ha t'
    · rw [fetchDecodeRepair_error hk hloop heq, hfast, hidx]
      exact h.counts_faulted hk ht hok hlen hcoh hj hb heq.le ha t
    · rw [fetchDecodeRepair_cutShort hk hloop hgt, hfast]
      exact h.counts_reread hk ht hok hlen hcoh hpc hj.le hb hgt hres rfl
        (hdead _ hb.coherenceCnt) (Or.inr ⟨rfl, rfl⟩) rfl

end Repair

end Heap

/-! ### The dummy block -/

/-- Without the cache the time is summed up in the dummy block. -/
theorem Inv.counts_fetchDecodeDummy (h : s.Inv isa false) (hd : s.curBlock = .dummyBlock)
    (ht : s.TimedLive isa) (hok : s.CountOk isa mem) (hpc : pc = s.getPcMaybeAfterCallback) :
    s.Counts isa (s.fetchDecodeDummy isa mem pc) := by
  have hf := h.slow_of_dummy hd
  -- What has been counted in the dummy block: nothing at first, then what entry 1 carries.
  have hsum : (s.deref s.lastEntry.next).cycleCounterRaw =
      (s.dummyBlock.entries 1).cycleCounterRaw := by
    rw [h.deref_lastEntry_next, hd]
    rcases h.posDummy hd with hi | hi
    · rw [h.dummyFresh hd hi, hi, show (-1 : ℤ) + 1 = 0 from rfl]
      exact h.dummyCycle
    · rw [hi]
      rfl
  have hcycles : ∀ s' : DBBCache w Op, s'.inFastPath = false → s'.curBlock = .dummyBlock →
      s'.curEntryIdx = 0 → s'.getCycleCounterRaw =
        s'.cycleCounterRaw + (s'.dummyBlock.entries 1).cycleCounterRaw.setWidth 64 := by
    intro s' h1 h2 h3
    rw [getCycleCounterRaw, lastEntry_of_slow h1, h2, h3]
    rfl
  have hraw : s.getCycleCounterRaw =
      s.cycleCounterRaw + (s.dummyBlock.entries 1).cycleCounterRaw.setWidth 64 := by
    rw [getCycleCounterRaw, hsum]
  cases hw : mem pc with
  | ok word =>
    have hfits := hok.fits _ (nextOp_of_read (Or.inl hd) (hpc ▸ hw))
    rw [SumFits, hsum] at hfits
    rw [fetchDecodeDummy_ok hw]
    refine ⟨fun k hl => ht k hl, _, rfl, ?_⟩
    rw [hraw, hcycles (s.dummyFetched isa pc word) hf hd rfl, add_assoc, ← setWidth_add_time hfits]
    simp [dummyFetched, Block.setEntry]
  | error t =>
    rw [fetchDecodeDummy_error hw]
    refine ⟨fun k hl => ht k hl, (getCycles_savePc _ pc).trans ?_⟩
    rw [hraw]
    exact hcycles { s with curEntryIdx := 0 } hf hd rfl

/-! ### `fetch_decode` -/

/-- The part of `fetch_decode` off the fast path. -/
theorem Inv.counts_fetchDecodeSlow (h : s.Inv isa false) (hslow : s.inFastPath = false)
    (hpc : pc = s.getPcMaybeAfterCallback) (hrepair : s.RepairOk isa mem pc)
    (ht : s.TimedLive isa) (hok : s.CountOk isa mem) :
    s.Counts isa (s.fetchDecodeSlow isa mem pc) := by
  have hlast := lastEntry_of_slow hslow
  unfold DBBCache.fetchDecodeSlow
  by_cases hd : s.curBlock = .dummyBlock
  · rw [if_pos hd]
    exact h.counts_fetchDecodeDummy hd ht hok hpc
  · rw [if_neg hd]
    obtain ⟨k, hk⟩ := h.exists_heap hd
    have hidx : s.curEntryIdx = s.lastEntry.idx := by rw [hlast]
    have hfast : s.fastEntry = fastDisabled := (s.inFastPath_eq_false_iff).mp hslow
    simp only [hk, hidx]
    by_cases hlen : ((s.getBlock (.heap k)).len : ℤ) ≤ s.lastEntry.idx + 1
    · rw [if_pos hlen]
      cases hw : mem pc with
      | ok word =>
        rw [fetchDecodeAddEntry_ok hk hw, hfast, hidx]
        exact h.counts_addEntry hk ht hok hlen hpc hw
      | error t =>
        simp only [DBBCache.fetchDecodeAddEntry, fetch, hw]
        exact ⟨fun k hl => ht k hl, getCycles_savePc { s with exception := false } pc⟩
    · rw [if_neg hlen]
      have hlt : s.lastEntry.idx + 1 < (s.getBlock (.heap k)).len := lt_of_not_ge hlen
      by_cases hcoh : (s.getBlock (.heap k)).coherenceCnt ≠ s.coherenceCnt
      · rw [if_pos hcoh]
        exact h.counts_fetchDecodeRepair hk ht hok hlt hcoh hslow hpc hrepair
      · rw [if_neg hcoh]
        have hl : s.Live false (s.getBlock (.heap k)) := (live_false s _).mpr (not_not.mp hcoh)
        refine h.counts_hit hk ht hl hlt (hok.fits_of_hit hk hl hlt) (Or.inl ⟨rfl, hl⟩) ?_
        rw [show (s.fastPathRawEnable ⟨.heap k, s.lastEntry.idx + 1⟩).curBlock = .heap k from hk]
        rfl

section Stayed

variable {s₁ : DBBCache w Op} (hst : s.Stayed isa false s₁) (h : s.Inv isa false)

include hst h

theorem deref_next_of_stayed : (s₁.deref s₁.lastEntry.next).resetLink =
    (s.deref s.lastEntry.next).resetLink := by
  rw [hst.inv.deref_lastEntry_next, h.deref_lastEntry_next, hst.last, hst.cur]
  exact (hst.blocks _).entries _

theorem fits_of_stayed (op : Op) : s₁.SumFits isa op ↔ s.SumFits isa op := by
  have hcyc : (s₁.deref s₁.lastEntry.next).cycleCounterRaw =
      (s.deref s.lastEntry.next).cycleCounterRaw :=
    (congrArg Entry.cycleCounterRaw (deref_next_of_stayed hst h) :)
  rw [SumFits, SumFits, hcyc]

theorem nextOp_of_stayed (hcnt : s₁.coherenceCnt = s.coherenceCnt) :
    s₁.nextOp isa mem = s.nextOp isa mem := by
  have hlabel : (s₁.deref s₁.lastEntry.next).opLabelPtr = (s.deref s.lastEntry.next).opLabelPtr :=
    (congrArg Entry.opLabelPtr (deref_next_of_stayed hst h) :)
  have hblock := hst.blocks s.curBlock
  rw [nextOp, nextOp, hlabel, hst.getPc h, hst.cur, hst.last, hblock.len, hblock.coherenceCnt, hcnt]

end Stayed

/-- A fetch from a state that differs in the position's representation only. -/
theorem Counts.of_stayed {s₁ : DBBCache w Op}
    {res : Except SimulationTrap (Fetched w Op) × DBBCache w Op} (hc : s₁.Counts isa res)
    (hst : s.Stayed isa false s₁) (h : s.Inv isa false) : s.Counts isa res := by
  unfold Counts at hc ⊢
  rw [hst.getCycles h] at hc
  exact hc

/-- **`fetch_decode` counts the time of what it returns**, and nothing if it throws. -/
theorem Inv.counts_fetchDecode (h : s.Inv isa false) (hpc : pc = s.getPcMaybeAfterCallback)
    (hrepair : s.RepairOk isa mem s.getPcMaybeAfterCallback) (ht : s.TimedLive isa)
    (hok : s.CountOk isa mem) : s.Counts isa (s.fetchDecode isa mem pc) := by
  unfold DBBCache.fetchDecode
  cases hf : s.inFastPath with
  | false => exact h.counts_fetchDecodeSlow hf hpc (hpc ▸ hrepair) ht hok
  | true =>
    have hderef : { s with fastEntry := s.fastEntry.next }.deref s.fastEntry.next =
        s.deref s.fastEntry.next := deref_congr rfl rfl rfl _
    simp only [if_true, hderef]
    cases hterm : (s.deref s.fastEntry.next).isTerminal with
    | false =>
      simp only [Bool.not_false, if_true]
      obtain ⟨k, hk, hl, hlt, hnext⟩ := h.fast_hit hterm
      refine h.counts_hit hk ht hl hlt (hok.fits_of_hit hk hl hlt) (f := s.fastEntry.next)
        (i := s.curEntryIdx) (Or.inl ⟨hnext, hl⟩) ?_
      rw [hnext, deref]
    | true =>
      simp only [Bool.not_true, Bool.false_eq_true, if_false]
      obtain ⟨k, hk⟩ := h.exists_heap (h.fast hf).2.1
      obtain ⟨hend, hidx⟩ := h.fast_end hf hk hterm
      rw [hidx]
      -- The position is the last entry of the block, so that nothing is re-read.
      have hst := h.stayed_leaveFast s.slowPath
      have hno : ∀ {P : Prop} k', s.curBlock = .heap k' →
          s.lastEntry.idx + 1 < (s.getBlock (.heap k')).len → P := by
        intro P k' hk' hlt
        obtain rfl : k' = k := BlockPtr.heap.inj (hk'.symm.trans hk)
        omega
      refine Counts.of_stayed ?_ hst h
      refine hst.inv.counts_fetchDecodeSlow ?_ (hpc.trans (hst.getPc h).symm) ?_
        (fun k' hl' => ht k' hl') ⟨?_, ?_⟩
      · rw [inFastPath_eq_false_iff]
        rfl
      · intro k' hk' hlt
        rw [hst.last] at hlt
        exact hno k' hk' hlt
      · intro op hop
        rw [nextOp_of_stayed hst h rfl] at hop
        exact (fits_of_stayed hst h op).mpr (hok.fits op hop)
      · intro k' hk' hlt
        rw [hst.last] at hlt
        exact hno k' hk' hlt

/-- **`fetch_decode_fast` counts the time of what it returns.** -/
theorem Inv.counts_fetchDecodeFast (h : s.Inv isa false) (ht : s.TimedLive isa) {op : Op}
    {instr : Word} (hres : s.fetchDecodeFast = (.op op, instr, s')) (hfits : s.SumFits isa op) :
    s'.TimedLive isa ∧ s'.getCycleCounterRaw = s.getCycleCounterRaw + isa.instrTime op := by
  have hderef : { s with fastEntry := s.fastEntry.next }.deref s.fastEntry.next =
      s.deref s.fastEntry.next := deref_congr rfl rfl rfl _
  unfold DBBCache.fetchDecodeFast at hres
  simp only [hderef] at hres
  obtain ⟨hlabel, hrest⟩ := Prod.mk.inj hres
  obtain ⟨-, rfl⟩ := Prod.mk.inj hrest
  have hop : (s.deref s.fastEntry.next).isTerminal = false := by
    rw [Entry.isTerminal, hlabel]
  obtain ⟨k, hk, hl, hlt, hnext⟩ := h.fast_hit hop
  have hentry : s.deref s.lastEntry.next = s.deref s.fastEntry.next := by
    rw [h.deref_next_heap hk, hnext, deref]
  have hfits' : ∀ id, (s.deref s.lastEntry.next).opLabelPtr = .op id → s.SumFits isa id := by
    intro id hid
    rw [hentry, hlabel] at hid
    cases hid
    exact hfits
  obtain ⟨htimed, id, hid, hraw⟩ := h.counts_hit (r := ⟨.op op, instr, 0⟩) hk ht hl hlt hfits'
    (f := s.fastEntry.next) (i := s.curEntryIdx) (Or.inl ⟨hnext, hl⟩) (by rw [← hlabel, hnext, deref])
  cases hid
  exact ⟨htimed, hraw⟩

/-! ### Initialisation -/

theorem timedLive_init (isa : Isa Op) (enabled : Bool) (entrypoint : BitVec w) :
    (init enabled entrypoint : DBBCache w Op).TimedLive isa :=
  (landed_init isa false enabled entrypoint).quiet.timed fun k _ => timed_boot isa enabled k

/-! ### Evaluating the condition -/

instance decidableSumsOk (isa : Isa Op) (mem : InstrMem w) (b : Block w Op) :
    Decidable (b.SumsOk isa mem) :=
  inferInstanceAs (Decidable (∀ i : ℕ, i < b.len → ∀ a, walk isa mem b.startAddr i = some a →
    mem a = .ok (b.entries i).memWord → (_ : BitVec 32) = _))

instance decidableSumFits (isa : Isa Op) (s : DBBCache w Op) (op : Op) : Decidable (s.SumFits isa op) :=
  inferInstanceAs (Decidable (_ < _))

instance decidableCountOk (isa : Isa Op) (mem : InstrMem w) (s : DBBCache w Op) :
    Decidable (s.CountOk isa mem) :=
  decidable_of_iff
    ((∀ op, s.nextOp isa mem = some op → s.SumFits isa op) ∧
      ∀ k, s.curBlock = .heap k → s.lastEntry.idx + 1 < (s.getBlock (.heap k)).len →
        (s.getBlock (.heap k)).coherenceCnt ≠ s.coherenceCnt →
        (s.getBlock (.heap k)).SumsOk isa mem ∧
          ∀ a, walk isa mem k (s.lastEntry.idx + 1).toNat = some a →
            ((s.getBlock (.heap k)).entries (s.lastEntry.idx + 1)).cycleCounterRaw =
              Block.walkTime isa mem k (s.lastEntry.idx + 1).toNat)
    ⟨fun h => ⟨h.1, h.2⟩, fun h => ⟨h.1, h.2⟩⟩

end DBBCache

end RiscvVp
