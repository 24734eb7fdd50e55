import RiscvVp.DbbCache.Equiv.Step
import Mathlib

/-!
# Self-modifying code

Instruction memory may be rewritten at any time; after a fence the ISS relies on fetching what
memory holds.  `Guest` is an ISS whose memory changes, and `Guest.FetchesCurrent` what the cache is
meant to guarantee for it: a fetch returns the decoding of the word that is now at the program
counter, and a block that `fetch_decode` repairs has the addresses and cycle sums of the new code.

The repair keeps address and cycle sum of every entry whose word it finds again, also when the code
before that entry has changed its length or its timing.  `Block.sound_iff` says exactly for which
blocks and memories this is right, and `Guest.fetchesCurrent_of_coherenceOk` that in a run which
stays clear of the other cases the guarantee holds throughout.
-/

namespace RiscvVp

variable {w : ℕ} {Op : Type} {isa : Isa Op} {mem : InstrMem w}

/-! ### The repaired block -/

/-- The time of an entry's operation. -/
def Entry.time (isa : Isa Op) (e : Entry w Op) : BitVec 32 :=
  match e.opLabelPtr with
  | .op id => (isa.instrTime id).setWidth 32
  | .fastAbort => 0

theorem Entry.IsDecoded.time_eq {e : Entry w Op} (h : e.IsDecoded isa) :
    e.time isa = (isa.instrTime (isa.decode e.memWord).op).setWidth 32 := by
  rw [Entry.time, h.label]

namespace Block

variable {b₀ b : Block w Op} {k : BitVec w}

/-- Addresses and cycles of all entries are those of the entries before them summed up. -/
def Sound (isa : Isa Op) (b : Block w Op) : Prop :=
  ∀ i : ℕ, i < b.len →
    (b.entries i).pc = b.startAddr +
      ∑ j ∈ Finset.range i, BitVec.ofNat w (b.entries j).pcIncrement ∧
    (b.entries i).cycleCounterRaw = ∑ j ∈ Finset.range i, (b.entries j).time isa

/-- The time of the words that the repair loop walks over. -/
def walkTime (isa : Isa Op) (mem : InstrMem w) (start : BitVec w) : ℕ → BitVec 32
  | 0 => 0
  | i + 1 => walkTime isa mem start i +
    match walk isa mem start i with
    | none => 0
    | some a =>
      match mem a with
      | .ok word => (isa.instrTime (isa.decode word).op).setWidth 32
      | .error _ => 0

/-- Where the re-read word is the cached one, the cycle count kept after it is still right. -/
def TimeOk (isa : Isa Op) (mem : InstrMem w) (b : Block w Op) : Prop :=
  ∀ i : ℕ, i + 1 < b.len → ∀ a, walk isa mem b.startAddr i = some a →
    mem a = .ok (b.entries i).memWord →
    (b.entries ((i : ℤ) + 1)).cycleCounterRaw = walkTime isa mem b.startAddr (i + 1)

/-- The loop advances by the lengths of the entries it leaves. -/
theorem Reread.walk_eq_sum (h : b₀.Reread isa mem b₀.len b) (hwf : b₀.WF isa k) {i : ℕ}
    (hi : i ≤ b₀.len) : walk isa mem b₀.startAddr i =
      some (b.startAddr + ∑ j ∈ Finset.range i, BitVec.ofNat w (b.entries j).pcIncrement) := by
  induction i with
  | zero => simp [walk, h.startAddr]
  | succ i ih =>
    obtain ⟨a, word, ha, hword, hmem, -⟩ := h.done i (by omega)
    have hdec := (h.wf hwf le_rfl).decoded i (by omega) (by rw [h.len]; omega)
    have hia := Option.some.inj ((ih (by omega)).symm.trans ha)
    rw [walk_succ ha hword, Finset.sum_range_succ, ← add_assoc, hia, hdec.pcIncrement, hmem]

/-- The loop spends the time of the entries it leaves. -/
theorem Reread.walkTime_eq_sum (h : b₀.Reread isa mem b₀.len b) (hwf : b₀.WF isa k) {i : ℕ}
    (hi : i ≤ b₀.len) :
    walkTime isa mem b₀.startAddr i = ∑ j ∈ Finset.range i, (b.entries j).time isa := by
  induction i with
  | zero => rfl
  | succ i ih =>
    obtain ⟨a, word, ha, hword, hmem, -⟩ := h.done i (by omega)
    have hdec := (h.wf hwf le_rfl).decoded i (by omega) (by rw [h.len]; omega)
    rw [Finset.sum_range_succ, ← ih (by omega), hdec.time_eq, hmem, walkTime, ha]
    simp only [hword]

/-- **A repaired block is sound exactly if** every entry that the loop took over unchanged is still
where the loop found it, with the cycle sum after it still right. -/
theorem Reread.sound_iff (h : b₀.Reread isa mem b₀.len b) (hwf : b₀.WF isa k) :
    b.Sound isa ↔ b₀.AddrOk isa mem ∧ b₀.TimeOk isa mem := by
  constructor
  · intro hs
    refine ⟨fun i hi a ha hm => ?_, fun i hi a ha hm => ?_⟩
    · obtain ⟨a', word, ha', hword, -, hread⟩ := h.done i hi
      obtain rfl : a = a' := Option.some.inj (ha.symm.trans ha')
      have hpc := (hs i (by rw [h.len]; exact hi)).1
      have hwalk := Option.some.inj ((h.walk_eq_sum hwf hi.le).symm.trans ha)
      cases hread with
      | changed hne pc decoded link cycle =>
        exact absurd (Except.ok.inj (hword.symm.trans hm)) hne
      | unchanged heq kept cycle => rw [← kept.pc, hpc, hwalk]
    · obtain ⟨a', word, ha', hword, -, hread⟩ := h.done i (by omega)
      obtain rfl : a = a' := Option.some.inj (ha.symm.trans ha')
      have hcyc := (hs (i + 1) (by rw [h.len]; exact hi)).2
      push_cast at hcyc
      cases hread with
      | changed hne pc decoded link cycle =>
        exact absurd (Except.ok.inj (hword.symm.trans hm)) hne
      | unchanged heq kept cycle => rw [← cycle, hcyc, h.walkTime_eq_sum hwf hi.le]
  · rintro ⟨haddr, htime⟩ i hi
    rw [h.len] at hi
    refine ⟨?_, ?_⟩
    · have hloc := (h.located le_rfl haddr hi).1
      exact Option.some.inj (hloc.symm.trans (h.walk_eq_sum hwf hi.le))
    · -- The sum before an entry is carried over, or computed from the entry before.
      induction i with
      | zero =>
        have hzero := h.cycleZero.trans hwf.cycleZero
        simpa using hzero
      | succ i ih =>
        obtain ⟨a, word, ha, hword, hmem, hread⟩ := h.done i (by omega)
        have hdec := (h.wf hwf le_rfl).decoded i (by omega) (by rw [h.len]; omega)
        push_cast
        cases hread with
        | changed hne pc decoded link cycle =>
          rw [cycle, ih (by omega), Finset.sum_range_succ, hdec.time_eq, hmem]
        | unchanged heq kept cycle =>
          rw [cycle, htime i hi a ha (heq ▸ hword), h.walkTime_eq_sum hwf hi.le]

end Block

namespace DBBCache

variable {s : DBBCache w Op} {k : BitVec w}

/-- A repair of the current block would leave the right cycle sums. -/
def RepairTimeOk (isa : Isa Op) (mem : InstrMem w) (s : DBBCache w Op) : Prop :=
  ∀ k, s.curBlock = .heap k → s.lastEntry.idx + 1 < (s.getBlock (.heap k)).len →
    (s.getBlock (.heap k)).coherenceCnt ≠ s.coherenceCnt → (s.getBlock (.heap k)).TimeOk isa mem

/-- The only way for a stale block to become coherent in a fetch is a complete repair. -/
theorem Inv.repaired_of_coherent {all : Bool} (h : s.Inv isa all) (hslow : s.inFastPath = false)
    (hk : s.curBlock = .heap k) (hcoh : (s.getBlock (.heap k)).coherenceCnt ≠ s.coherenceCnt)
    {pc : BitVec w}
    (hnew : ((s.fetchDecode isa mem pc).2.getBlock (.heap k)).coherenceCnt = s.coherenceCnt) :
    ∃ b, (s.getBlock (.heap k)).Reread isa mem (s.getBlock (.heap k)).len b ∧
      s.lastEntry.idx + 1 < (s.getBlock (.heap k)).len ∧
      (s.fetchDecode isa mem pc).2.getBlock (.heap k) =
        { b with coherenceCnt := s.coherenceCnt } := by
  have hidx : s.curEntryIdx = s.lastEntry.idx := by rw [lastEntry_of_slow hslow]
  have hsave : ∀ (s' : DBBCache w Op), ((s'.savePc pc).getBlock (.heap k)) = s'.getBlock (.heap k) :=
    fun _ => rfl
  unfold DBBCache.fetchDecode at hnew ⊢
  rw [hslow] at hnew ⊢
  simp only [Bool.false_eq_true, if_false] at hnew ⊢
  unfold DBBCache.fetchDecodeSlow at hnew ⊢
  simp only [hk, reduceCtorEq, if_false, hidx] at hnew ⊢
  by_cases hlen : ((s.getBlock (.heap k)).len : ℤ) ≤ s.lastEntry.idx + 1
  · rw [if_pos hlen] at hnew
    -- A miss adds an entry and leaves the count.
    cases hw : mem pc with
    | ok word =>
      rw [fetchDecodeAddEntry_ok hk hw, getBlock_place_self] at hnew
      exact absurd hnew hcoh
    | error t =>
      simp only [DBBCache.fetchDecodeAddEntry, fetch, hw] at hnew
      exact absurd hnew hcoh
  · rw [if_neg hlen, if_pos hcoh] at hnew ⊢
    rcases @Block.Reread.repairLoop _ _ _ mem _ (h.heap k).decoded (s.getBlock (.heap k)).len 0 _
      true _ (Block.Reread.refl isa mem _) (by omega) rfl with
      ⟨b', hloop, hb⟩ | ⟨b', j, t, a, hloop, hj, hb, -, ht⟩
    · rw [fetchDecodeRepair_ok hk hloop, getBlock_place_self]
      exact ⟨b', hb, lt_of_not_ge hlen, rfl⟩
    · -- A repair that a fault stops leaves the count, too.
      have hcnt := hb.coherenceCnt
      rcases lt_trichotomy (j : ℤ) (s.lastEntry.idx + 1) with hlt | heq | hgt
      · cases hw : mem pc with
        | ok word =>
          rw [fetchDecodeRepair_refetch hk hloop hlt hw, getBlock_place_self] at hnew
          exact absurd (hcnt.symm.trans hnew) hcoh
        | error t' =>
          rw [fetchDecodeRepair_refetch_error hk hloop hlt hw, hsave, getBlock_place_self] at hnew
          exact absurd (hcnt.symm.trans hnew) hcoh
      · rw [fetchDecodeRepair_error hk hloop heq, hsave, getBlock_place_self] at hnew
        exact absurd (hcnt.symm.trans hnew) hcoh
      · rw [fetchDecodeRepair_cutShort hk hloop hgt, getBlock_place_self] at hnew
        exact absurd (hcnt.symm.trans hnew) hcoh

end DBBCache

/-! ### An ISS whose memory changes -/

/-- A call of the ISS, or a change of instruction memory. -/
inductive Event (w : ℕ)
  | call (c : Call w)
  | rewrite (mem : InstrMem w)

/-- An ISS, its memory, and whether memory is as it was at the last fence. -/
structure Guest (w : ℕ) (Op : Type) where
  driver : Driver w Op (DBBCache w Op)
  mem : InstrMem w
  clean : Bool

namespace Guest

open DBBCache

/-- Before the first instruction. -/
def start (enabled : Bool) (entrypoint : BitVec w) (mem : InstrMem w) : Guest w Op :=
  { driver := .start (DBBCache.init enabled entrypoint) entrypoint, mem, clean := true }

/-- One event: a call of the cache, or a write to the instruction memory behind its back. -/
def step (isa : Isa Op) (g : Guest w Op) : Event w → Option (Obs w Op) × Guest w Op
  | .call c =>
    let r := g.driver.step (DBBCache.ops isa) isa g.mem c
    (some r.1, { g with driver := r.2, clean := g.clean || c == .fenceI || c == .fenceVma })
  | .rewrite mem => (none, { g with mem := mem, clean := false })

/-- Calls are those the ISS can make. -/
def Legal (isa : Isa Op) (g : Guest w Op) : Event w → Prop
  | .call c => g.driver.Legal isa c
  | .rewrite _ => True

/-- The guarantee at one event: a fetch that returns, with memory as it was at the last fence,
returns the decoding of the word at the program counter, and a block that the fetch makes coherent
is sound. -/
def FetchesCurrent (isa : Isa Op) (g : Guest w Op) : Event w → Prop
  | .call (.fetch fast) =>
    (g.clean = true → ∀ label instr lastPc pc cycles,
      (g.step isa (.call (.fetch fast))).1 = some (.fetched label instr lastPc pc cycles) →
      ∃ word, g.mem g.driver.cache.getPcMaybeAfterCallback = .ok word ∧
        label = .op (isa.decode word).op ∧ instr = (isa.decode word).instr ∧
        lastPc = g.driver.cache.getPcMaybeAfterCallback ∧
        pc = lastPc + BitVec.ofNat w (isa.decode word).pcIncrement) ∧
    ∀ k, g.driver.cache.curBlock = .heap k →
      (g.driver.cache.getBlock (.heap k)).coherenceCnt ≠ g.driver.cache.coherenceCnt →
      ((g.step isa (.call (.fetch fast))).2.driver.cache.getBlock (.heap k)).coherenceCnt =
        g.driver.cache.coherenceCnt →
      ((g.step isa (.call (.fetch fast))).2.driver.cache.getBlock (.heap k)).Sound isa
  | _ => True

/-- The condition at one event.  A fetch that repairs its block finds unchanged words only where
they were, with the cycle sums after them still right, and finds the instruction to be fetched at
its old index; blocks have room; a block is not re-entered from its own end while it is stale; a
fence does not bring `coherence_cnt` back to the count of a block. -/
def CoherenceOk (isa : Isa Op) (g : Guest w Op) : Event w → Prop
  | .call c => g.driver.StepOk isa false g.mem c ∧
    (c.isFetch = true → g.driver.cache.RepairTimeOk isa g.mem)
  | .rewrite _ => True

variable {g : Guest w Op} {e : Event w}

/-- The invariant: the cache is consistent in itself and, between a fence and the next change of
memory, with memory. -/
structure Inv (isa : Isa Op) (g : Guest w Op) : Prop where
  tracked : g.driver.Tracked isa false
  matching : g.clean = true → g.driver.cache.Matching false g.mem

/-- No block is live right after a fence, so none can be wrong about memory. -/
theorem matching_of_fence {s s' : DBBCache w Op} (hok : s.FenceOk false)
    (hs : s.Stayed isa false s') (hcnt : s'.coherenceCnt = s.coherenceCnt + 1) :
    s'.Matching false mem := by
  intro k hl i h0 h1
  have hcoh : (s'.getBlock (.heap k)).coherenceCnt = s'.coherenceCnt := hl.resolve_left nofun
  have hs' := hs.blocks (.heap k)
  rw [hs'.len] at h1
  exact absurd (by rw [← hs'.coherenceCnt, hcoh, hcnt])
    (hok.resolve_left nofun k (by omega))

/-- A request that is no fence keeps live blocks as they are. -/
theorem matching_of_stayed {s s' : DBBCache w Op} (hs : s.Stayed isa false s')
    (hcnt : s'.coherenceCnt = s.coherenceCnt) (hm : s.Matching false mem) :
    s'.Matching false mem := by
  intro k hl
  have hs' := hs.blocks (.heap k)
  refine hs'.matches_ (hm k ?_)
  rw [Live, hs'.coherenceCnt, hcnt] at hl
  exact hl

/-- One event keeps the invariant, a write to the instruction memory as well as a call of the cache. -/
theorem Inv.step (hw : 0 < w) (h : g.Inv isa) (hlegal : g.Legal isa e) (hok : g.CoherenceOk isa e) :
    (g.step isa e).2.Inv isa := by
  cases e with
  | rewrite mem => exact ⟨h.tracked, nofun⟩
  | call c =>
    have hspec := h.tracked.step hw hlegal nofun hok.1
    refine ⟨hspec.tracked h.tracked, fun hclean => ?_⟩
    have hclean' : (c ≠ .fenceI → c ≠ .fenceVma → g.clean = true) := by
      intro h1 h2
      simpa [Guest.step, h1, h2] using hclean
    show (g.driver.step (DBBCache.ops isa) isa g.mem c).2.cache.Matching false g.mem
    generalize g.driver.step (DBBCache.ops isa) isa g.mem c = res at hspec
    cases hspec with
    | fetched pc adv => exact adv.matching (h.matching (hclean' nofun nofun))
    | faulted flt => exact flt.matching (h.matching (hclean' nofun nofun))
    | landed obs pc hobs htgt lnd =>
      refine lnd.matching (h.matching (hclean' ?_ ?_))
      · rintro rfl
        cases htgt
      · rintro rfl
        cases htgt
    | stayed obs hobs htgt hfetch hraise hcnt hfence std =>
      by_cases hf : c = .fenceI ∨ c = .fenceVma
      · obtain ⟨hfok, hc⟩ := hfence hf
        exact matching_of_fence hfok std hc
      · rw [not_or] at hf
        exact matching_of_stayed std (hcnt hf.1 hf.2) (h.matching (hclean' hf.1 hf.2))
    | raised => exact h.matching (hclean' nofun nofun)

/-- In a stale block the fetch at the end of an operation goes straight to `fetch_decode`. -/
theorem cache_of_stale (h : g.driver.cache.Inv isa false) {k : BitVec w}
    (hk : g.driver.cache.curBlock = .heap k)
    (hcoh : (g.driver.cache.getBlock (.heap k)).coherenceCnt ≠ g.driver.cache.coherenceCnt)
    (fast : Bool) : g.driver.cache.inFastPath = false ∧
      (g.step isa (.call (.fetch fast))).2.driver.cache =
        (g.driver.cache.fetchDecode isa g.mem g.driver.cache.getPcMaybeAfterCallback).2 := by
  have hslow : g.driver.cache.inFastPath = false := by
    by_contra hf
    rw [Bool.not_eq_false] at hf
    have hl := (h.fast hf).2.2
    rw [hk] at hl
    exact hcoh (hl.resolve_left nofun)
  have hglobal : (g.driver.globalFetch (DBBCache.ops isa) g.mem).2.cache =
      (g.driver.cache.fetchDecode isa g.mem g.driver.cache.getPcMaybeAfterCallback).2 := by
    simp only [Driver.globalFetch, DBBCache.ops]
    split <;> rename_i heq <;> rw [heq] <;> rfl
  refine ⟨hslow, ?_⟩
  cases fast with
  | false => exact hglobal
  | true =>
    rcases @Inv.fetchDecodeFast _ _ _ _ g.mem _ _ h rfl with
      ⟨id, r, s', hres, -, -⟩ | ⟨instr, s', hres, habort⟩
    · -- Off the fast path the label is the abort label.
      have hfast := (g.driver.cache.inFastPath_eq_false_iff).mp hslow
      have hlabel : g.driver.cache.fetchDecodeFast.1 = .fastAbort := by
        show (g.driver.cache.deref g.driver.cache.fastEntry.next).opLabelPtr = .fastAbort
        rw [hfast]
        exact h.disable
      rw [hres] at hlabel
      cases hlabel
    · have heq : g.driver.fastFetch (DBBCache.ops isa) g.mem =
          g.driver.globalFetch (DBBCache.ops isa) g.mem := by
        simp only [Driver.fastFetch, DBBCache.ops, hres, habort]
      show (g.driver.fastFetch (DBBCache.ops isa) g.mem).2.cache = _
      rw [heq]
      exact hglobal

/-- The guarantee at one event, from the invariant before it.  Only a fetch has something to guarantee. -/
theorem Inv.fetchesCurrent (hw : 0 < w) (h : g.Inv isa) (hlegal : g.Legal isa e)
    (hok : g.CoherenceOk isa e) : g.FetchesCurrent isa e := by
  cases e with
  | rewrite mem => trivial
  | call c =>
    cases c with
    | fetch fast =>
      refine ⟨?_, ?_⟩
      · -- what a fetch returns while nothing is stale
        intro hclean label instr lastPc pc cycles hobs
        have hspec := h.tracked.step (c := .fetch fast) hw hlegal nofun hok.1
        have hobs' : (g.driver.step (DBBCache.ops isa) isa g.mem (.fetch fast)).1 =
            .fetched label instr lastPc pc cycles := Option.some.inj hobs
        generalize g.driver.step (DBBCache.ops isa) isa g.mem (.fetch fast) = res at hspec hobs'
        cases hspec with
        | fetched pc' adv =>
          rename_i s' r
          have hword := adv.word (h.matching hclean)
          have hlast : s'.getLastPcBeforeCallback = g.driver.cache.getPcMaybeAfterCallback :=
            adv.entryPc
          have hnext : s'.getPcMaybeAfterCallback = r.pc := by
            rw [adv.inv.getPc_of_idx_nonneg adv.idx, adv.nextPc]
          have hr := adv.result
          injection hobs' with h1 h2 h3 h4 h5
          refine ⟨s'.getMemWord, hword, ?_, ?_, ?_, ?_⟩
          · rw [← h1, hr, fetchedOf]
          · rw [← h2, hr, fetchedOf]
          · rw [← h3]
            exact hlast
          · rw [← h4, ← h3]
            show s'.getPcMaybeAfterCallback = s'.getLastPcBeforeCallback + _
            rw [hnext, hlast, hr, fetchedOf]
        | faulted flt => cases hobs'
        | landed obs pc hne htgt lnd => cases htgt
        | stayed obs hne htgt hfetch hraise hcnt hfence std => exact absurd rfl (hfetch fast)
      · -- what a repair leaves: a stale block is only ever left by the slow path
        intro k hk hcoh hnew
        obtain ⟨hslow, heq⟩ := cache_of_stale h.tracked.inv hk hcoh fast
        rw [heq] at hnew ⊢
        obtain ⟨b, hb, hlt, hblock⟩ := h.tracked.inv.repaired_of_coherent hslow hk hcoh hnew
        rw [hblock]
        have haddr := (hok.1.repair k hk hlt hcoh).1
        have htime := hok.2 rfl k hk hlt hcoh
        exact (hb.sound_iff (h.tracked.inv.heap k)).mpr ⟨haddr, htime⟩
    | _ => trivial

/-- **Fetches are current in every run that meets the condition.**  Memory may be written at any time: while
it is as it was at the last fence, a fetch returns the decoding of the word at the program counter, and a
block that a fetch makes coherent is sound. -/
theorem fetchesCurrent_of_coherenceOk (hw : 0 < w) (isa : Isa Op) (enabled : Bool)
    (entrypoint : BitVec w) (mem : InstrMem w) (events : List (Event w))
    (hlegal : Run.Along (Legal isa) (step isa) (start enabled entrypoint mem) events)
    (hok : Run.Along (CoherenceOk isa) (step isa) (start enabled entrypoint mem) events) :
    Run.Along (FetchesCurrent isa) (step isa) (start enabled entrypoint mem) events := by
  refine Run.Along.of_invariant (Inv isa) (fun g e h hc => ?_) ?_ (hlegal.and hok)
  · exact ⟨h.fetchesCurrent hw hc.1 hc.2, h.step hw hc.1 hc.2⟩
  · exact ⟨Driver.tracked_start isa false enabled entrypoint, fun _ =>
      (landed_init isa false enabled entrypoint).matching (matching_boot false enabled)⟩

/-! ### Runs with fewer than `2^32` fences -/

/-- No block is ahead of the global count. -/
def CountsLe (s : DBBCache w Op) : Prop :=
  ∀ k, (s.getBlock (.heap k)).coherenceCnt.toNat ≤ s.coherenceCnt.toNat

/-- A fence that does not overflow the count leaves no block coherent. -/
theorem CountsLe.fenceOk {s : DBBCache w Op} (h : CountsLe s)
    (hno : s.coherenceCnt ≠ BitVec.allOnes 32) : s.FenceOk false := by
  refine Or.inr fun k _ heq => ?_
  have hle := h k
  have hlt : s.coherenceCnt.toNat + 1 < 2 ^ 32 := by
    have hne : s.coherenceCnt.toNat ≠ 2 ^ 32 - 1 := by
      intro he
      exact hno (BitVec.eq_of_toNat_eq (by rw [he, BitVec.toNat_allOnes]))
    have := s.coherenceCnt.isLt
    omega
  rw [heq, BitVec.toNat_add] at hle
  simp at hle
  omega

theorem CountsLe.step {d : Driver w Op (DBBCache w Op)} {c : Call w}
    {res : Obs w Op × Driver w Op (DBBCache w Op)} (h : CountsLe d.cache)
    (hno : c = .fenceI ∨ c = .fenceVma → d.cache.coherenceCnt ≠ BitVec.allOnes 32)
    (hspec : d.StepSpec isa false mem c res) : CountsLe res.2.cache := by
  -- a fetch leaves the count of a block or sets it to the one of the cache
  have hfetch : ∀ s' : DBBCache w Op, d.cache.KeepsCounts s' → CountsLe s' := by
    intro s' hc k
    rw [hc.coherenceCnt]
    rcases hc.blocks k with hb | hb
    · rw [hb]
      exact h k
    · rw [hb]
  cases hspec with
  | fetched pc adv => exact hfetch _ adv.counts
  | faulted flt => exact hfetch _ flt.counts
  | landed obs pc hobs htgt lnd =>
    intro k
    rename_i s' tgt
    show (s'.getBlock (.heap k)).coherenceCnt.toNat ≤ s'.coherenceCnt.toNat
    rw [lnd.frame.coherenceCnt]
    rcases lnd.frame.blocks k with hb | ⟨-, hb⟩
    · rw [hb.coherenceCnt]
      exact h k
    · rw [hb.coherenceCnt]
      exact le_rfl
  | stayed obs hobs htgt hfetch hraise hcnt hfence std =>
    intro k
    rename_i s'
    have hk := h k
    show (s'.getBlock (.heap k)).coherenceCnt.toNat ≤ s'.coherenceCnt.toNat
    rw [(std.blocks (.heap k)).coherenceCnt]
    by_cases hf : c = .fenceI ∨ c = .fenceVma
    · -- the fence adds one, and not past the last value
      have hne : d.cache.coherenceCnt.toNat ≠ 2 ^ 32 - 1 := by
        intro he
        exact hno hf (BitVec.eq_of_toNat_eq (by rw [he, BitVec.toNat_allOnes]))
      have hlt := d.cache.coherenceCnt.isLt
      rw [(hfence hf).2, BitVec.toNat_add]
      simp
      omega
    · rw [not_or] at hf
      rw [hcnt hf.1 hf.2]
      exact hk
  | raised => exact h

/-- The condition with a plain bound for the fences, which can be evaluated. -/
def CoherenceOkNoWrap (isa : Isa Op) (g : Guest w Op) : Event w → Prop
  | .call .fenceI => g.driver.cache.coherenceCnt ≠ BitVec.allOnes 32
  | .call .fenceVma => g.driver.cache.coherenceCnt ≠ BitVec.allOnes 32
  | e => g.CoherenceOk isa e

theorem CoherenceOkNoWrap.coherenceOk (hc : CountsLe g.driver.cache)
    (h : g.CoherenceOkNoWrap isa e) : g.CoherenceOk isa e := by
  cases e with
  | rewrite mem => exact h
  | call c =>
    cases c with
    | fenceI => exact ⟨hc.fenceOk h, nofun⟩
    | fenceVma => exact ⟨hc.fenceOk h, nofun⟩
    | _ => exact h

/-- In a run whose fences do not overflow `coherence_cnt` the fences are in order. -/
theorem coherenceOk_of_noWrap (hw : 0 < w) (isa : Isa Op) (enabled : Bool) (entrypoint : BitVec w)
    (mem : InstrMem w) (events : List (Event w))
    (hlegal : Run.Along (Legal isa) (step isa) (start enabled entrypoint mem) events)
    (hok : Run.Along (CoherenceOkNoWrap isa) (step isa) (start enabled entrypoint mem) events) :
    Run.Along (CoherenceOk isa) (step isa) (start enabled entrypoint mem) events := by
  refine Run.Along.of_invariant (fun g => g.Inv isa ∧ CountsLe g.driver.cache)
    (fun g e h hc => ?_) ?_ (hlegal.and hok)
  · have hco := hc.2.coherenceOk h.2
    refine ⟨hco, h.1.step hw hc.1 hco, ?_⟩
    cases e with
    | rewrite mem => exact h.2
    | call c =>
      refine h.2.step ?_ (h.1.tracked.step hw hc.1 nofun hco.1)
      rintro (rfl | rfl)
      · exact hc.2
      · exact hc.2
  · have hl := landed_init isa false enabled entrypoint
    refine ⟨⟨Driver.tracked_start isa false enabled entrypoint, fun _ =>
      hl.matching (matching_boot false enabled)⟩, fun k => ?_⟩
    show ((DBBCache.init enabled entrypoint).getBlock (.heap k)).coherenceCnt.toNat ≤
      (DBBCache.init enabled entrypoint).coherenceCnt.toNat
    rw [hl.frame.coherenceCnt]
    rcases hl.frame.blocks k with hb | ⟨-, hb⟩
    · rw [hb.coherenceCnt]
      exact le_rfl
    · rw [hb.coherenceCnt]
      exact le_rfl

/-! ### Concrete runs -/

instance decidableLegal (isa : Isa Op) (g : Guest w Op) (e : Event w) :
    Decidable (g.Legal isa e) := by
  cases e <;> unfold Legal <;> infer_instance

section

variable (isa : Isa Op) (mem : InstrMem w)

instance decidableTimeOk (b : Block w Op) : Decidable (b.TimeOk isa mem) :=
  decidable_of_iff (∀ i : ℕ, i < b.len - 1 → ∀ a, walk isa mem b.startAddr i = some a →
      mem a = .ok (b.entries i).memWord →
      (b.entries ((i : ℤ) + 1)).cycleCounterRaw = Block.walkTime isa mem b.startAddr (i + 1))
    ⟨fun h i hi => h i (by omega), fun h i hi => h i (by omega)⟩

instance decidableRepairTimeOk (s : DBBCache w Op) : Decidable (s.RepairTimeOk isa mem) := by
  unfold RepairTimeOk
  infer_instance

end

instance decidableTargetOk (isa : Isa Op) (d : Driver w Op (DBBCache w Op)) (c : Call w) :
    Decidable (∀ pc, d.target isa d.cache.getLastPcBeforeCallback c = some pc →
      d.cache.SwitchOk false pc) :=
  inferInstance

instance decidableCoherenceOkNoWrap (isa : Isa Op) (g : Guest w Op) :
    (e : Event w) → Decidable (g.CoherenceOkNoWrap isa e)
  | .rewrite _ => instDecidableTrue
  | .call .fenceI => instDecidableNot
  | .call .fenceVma => instDecidableNot
  | .call (.retTrap _) => @instDecidableAnd _ _ instDecidableTrue inferInstance
  | .call (.fetch _) =>
    @instDecidableAnd _ _ (Driver.decidableFetchOk isa g.mem g.driver.cache) inferInstance
  | .call .branchNotTaken | .call .branchTaken | .call .jump | .call .jumpAndLink
  | .call (.jumpDyn _) | .call (.jumpDynAndLink _) | .call (.raise _) | .call (.enterTrap _)
  | .call .forceSlowPath | .call (.enable _) =>
    @instDecidableAnd _ _ (decidableTargetOk isa g.driver _) inferInstance

/-- Memory as a string of halfwords from `0x1000` and from `0x2000` on. -/
def halfwords (low high : List (BitVec 16)) (a : BitVec 64) : Except SimulationTrap Word :=
  let half (a : BitVec 64) : BitVec 16 :=
    if a < 0x2000 then low.getD ((a.toNat - 0x1000) / 2) 0
    else high.getD ((a.toNat - 0x2000) / 2) 0
  .ok (half (a + 2) ++ half a)

/-- `addi x0, x0, 0` twice, then `jr`; at `0x2000` a `fence.i` and a `jr`. -/
def codeBefore : InstrMem 64 :=
  halfwords [0x0013, 0x0000, 0x0013, 0x0000, 0x8067, 0x0000] [0x100f, 0x0000, 0x8067, 0x0000]

/-- The first `addi` has become a `c.nop`, which moves the rest down by two bytes. -/
def codeShifted : InstrMem 64 :=
  halfwords [0x0001, 0x0013, 0x0000, 0x8067, 0x0000] [0x100f, 0x0000, 0x8067, 0x0000]

/-- Run the code, rewrite it, fence, and come back to it. -/
def rewriteEvents (mem : InstrMem 64) : List (Event 64) :=
  [.call (.fetch false), .call (.fetch true), .call (.fetch true), .call (.jumpDyn 0x2000),
    .call (.fetch true), .rewrite mem, .call .fenceI, .call (.fetch true), .call (.jumpDyn 0x1000)]

/-- **The repair keeps stale addresses.**  After the rewrite the second entry of the block is the
`addi` at `0x1002`, but its word is the cached one, so it keeps the address `0x1004`. -/
theorem not_fetchesCurrent_codeShifted :
    Run.Along (Legal defaultIsa) (step defaultIsa) (start true 0x1000 codeBefore)
      (rewriteEvents codeShifted ++ [.call (.fetch false)]) ∧
    ¬ Run.Along (FetchesCurrent defaultIsa) (step defaultIsa) (start true 0x1000 codeBefore)
      (rewriteEvents codeShifted ++ [.call (.fetch false)]) := by
  refine ⟨by decide, fun h => ?_⟩
  have hsound := h.last.2 0x1000 (by decide) (by decide) (by decide) 1
    (by decide)
  exact absurd hsound.1 (by decide)

/-- The second `addi` has become a `lw`: no length changes. -/
def codeReplaced : InstrMem 64 :=
  halfwords [0x0013, 0x0000, 0x2003, 0x0000, 0x8067, 0x0000] [0x100f, 0x0000, 0x8067, 0x0000]

theorem fetchesCurrent_codeReplaced :
    Run.Along (FetchesCurrent defaultIsa) (step defaultIsa) (start true 0x1000 codeBefore)
      (rewriteEvents codeReplaced ++ [.call (.fetch false), .call (.fetch true)]) := by
  have hlegal : Run.Along (Legal defaultIsa) (step defaultIsa) (start true 0x1000 codeBefore)
      (rewriteEvents codeReplaced ++ [.call (.fetch false), .call (.fetch true)]) := by
    decide
  exact fetchesCurrent_of_coherenceOk (by decide) defaultIsa true 0x1000 codeBefore _ hlegal
    (coherenceOk_of_noWrap (by decide) defaultIsa true 0x1000 codeBefore _ hlegal (by decide))

end Guest

end RiscvVp
