import RiscvVp.DbbCache.Equiv.Step

/-!
# The cache refines the dummy implementation

On a memory that does not change and does not fault, an ISS cannot tell `DBBCache_T` from
`DBBCacheDummy_T`: `Driver.trace_eq_dummy`.  `Driver.Sim` relates the two, and `Driver.Sim.step`
carries it over every call.
-/

namespace RiscvVp

variable {w : ℕ} {Op : Type} {isa : Isa Op}

namespace DBBCache

/-- The proviso of the equivalence at a fetch: the block does not reach `2^16` entries, and the
time it has accumulated does not reach `2^32` with the instruction that is fetched. -/
structure Fits (isa : Isa Op) (code : BitVec w → Word) (s : DBBCache w Op) : Prop where
  len : ∀ k, s.curBlock = .heap k →
    ((s.getBlock (.heap k)).len : ℤ) ≤ s.lastEntry.idx + 1 → (s.getBlock (.heap k)).len + 1 < 2 ^ 16
  time : (s.deref s.lastEntry.next).cycleCounterRaw.toNat +
    (isa.instrTime (isa.decode (code s.getPcMaybeAfterCallback)).op).toNat < 2 ^ 32

instance decidableFits (isa : Isa Op) (code : BitVec w → Word) (s : DBBCache w Op) :
    Decidable (s.Fits isa code) :=
  decidable_of_iff
    ((∀ k, s.curBlock = .heap k →
      (((s.getBlock (.heap k)).len : ℤ) ≤ s.lastEntry.idx + 1 →
        (s.getBlock (.heap k)).len + 1 < 2 ^ 16)) ∧
      (s.deref s.lastEntry.next).cycleCounterRaw.toNat +
        (isa.instrTime (isa.decode (code s.getPcMaybeAfterCallback)).op).toNat < 2 ^ 32)
    ⟨fun h => ⟨h.1, h.2⟩, fun h => ⟨h.len, h.time⟩⟩

end DBBCache

namespace Driver

open DBBCache

variable {code : BitVec w → Word} {d : Driver w Op (DBBCache w Op)}
  {d' : Driver w Op (DBBCacheDummy w)}

/-- The proviso at a call: only fetches add to a block. -/
def Fits (isa : Isa Op) (code : BitVec w → Word) (d : Driver w Op (DBBCache w Op)) (c : Call w) :
    Prop :=
  match c with
  | .fetch _ => d.cache.Fits isa code
  | _ => True

instance decidableFits (isa : Isa Op) (code : BitVec w → Word)
    (d : Driver w Op (DBBCache w Op)) : (c : Call w) → Decidable (d.Fits isa code c)
  | .fetch _ => inferInstanceAs (Decidable (d.cache.Fits isa code))
  | .branchNotTaken | .branchTaken | .jump | .jumpAndLink | .jumpDyn _ | .jumpDynAndLink _ | .raise _
  | .enterTrap _ | .retTrap _ | .forceSlowPath | .enable _ | .fenceI | .fenceVma => instDecidableTrue

/-- The simulation: the invariant, and the same program counter, last address and cycles. -/
structure Sim (isa : Isa Op) (code : BitVec w → Word) (d : Driver w Op (DBBCache w Op))
    (d' : Driver w Op (DBBCacheDummy w)) : Prop where
  inv : d.cache.Inv isa true
  matching : d.cache.Matching true fun a => .ok (code a)
  timed : d.cache.Timed isa
  noException : d.cache.exception = false
  pc : d.cache.getPcMaybeAfterCallback = d'.cache.pc
  cycles : d.cache.getCycleCounterRaw = d'.cache.cycleCounterRaw
  lastPc : d.phase = .executing → d.cache.getLastPcBeforeCallback = d'.cache.lastPc
  idx : d.phase = .executing → 0 ≤ d.cache.lastEntry.idx
  text : d.phase = .executing → d.cache.curBlock ≠ .dummyBlock →
    (d.cache.deref d.cache.lastEntry).opLabelPtr = d.label ∧
      (d.cache.deref d.cache.lastEntry).instr = d.instr
  phase : d.phase = d'.phase
  label : d.label = d'.label
  instr : d.instr = d'.instr

/-- A switch of blocks never needs a check when every block is laid out. -/
theorem switchOk_all (s : DBBCache w Op) (k : BitVec w) : s.SwitchOk true k :=
  fun _ _ => Or.inl rfl

/-- While the blocks match a program that nobody writes to, a repair finds nothing to repair. -/
theorem fetchOk_of_matching {s : DBBCache w Op} (h : s.Inv isa true)
    (hm : s.Matching true fun a => .ok (code a)) (hfit : s.Fits isa code) :
    s.FetchOk isa fun a => .ok (code a) := by
  refine ⟨hfit.len, fun k hk hlt _ => ?_⟩
  have hwf := h.heap k
  have hlaid := h.laid k (Or.inl rfl)
  have hmt := hm k (Or.inl rfl)
  refine ⟨hmt.addrOk hlaid hwf, fun a ha => ?_⟩
  have h0 : 0 ≤ s.lastEntry.idx + 1 := by
    have := h.idx_ge
    omega
  obtain ⟨n, hn⟩ := Int.eq_ofNat_of_zero_le h0
  have hwalk := hmt.walk_eq hlaid hwf (i := n) (by omega)
  rw [hn, Int.toNat_natCast, ← hwf.startAddr, hwalk] at ha
  rw [← Option.some.inj ha, ← hn]
  exact h.pc_next hk (Or.inl rfl) hlt

/-- Cycle counts below `2^32` add up without loss. -/
theorem setWidth_add_of_lt {c : BitVec 32} {t : BitVec 64} (h : c.toNat + t.toNat < 2 ^ 32) :
    (c + t.setWidth 32).setWidth 64 = c.setWidth 64 + t := by
  apply BitVec.eq_of_toNat_eq
  simp only [BitVec.toNat_setWidth, BitVec.toNat_add]
  omega

/-! ### One call -/

namespace Sim

/-- A fetch that returns gives both drivers the same observation, and they go on in step. -/
theorem fetched (h : Sim isa code d d') (hfit : d.cache.Fits isa code) {s' : DBBCache w Op}
    {r : Fetched w Op}
    (hadv : d.cache.Advanced isa true (fun a => .ok (code a)) s' d.cache.getPcMaybeAfterCallback r)
    (pc : BitVec w) :
    let g := d'.globalFetch (DBBCacheDummy.ops isa) fun a => .ok (code a)
    let g₀ := { d with pc := pc }.dispatched (DBBCache.ops isa) s' r.label r.instr
    g₀.1 = g.1 ∧ Sim isa code g₀.2 g.2 := by
  -- the entry holds the word of the program, and its sum the time up to it
  have hword : code d.cache.getPcMaybeAfterCallback = s'.getMemWord :=
    Except.ok.inj (hadv.word h.matching)
  obtain ⟨hraw, hcyc⟩ := hadv.cycles rfl h.matching h.timed
  have hpc' : s'.getPcMaybeAfterCallback =
      d'.cache.pc + BitVec.ofNat w (isa.decode (code d'.cache.pc)).pcIncrement := by
    rw [hadv.inv.getPc_of_idx_nonneg hadv.idx, hadv.nextPc, hadv.result, fetchedOf, ← hword, h.pc]
  have hlast' : s'.getLastPcBeforeCallback = d'.cache.pc := by
    rw [getLastPcBeforeCallback, hadv.entryPc, h.pc]
  have hcycles' : s'.getCycleCounterRaw =
      d'.cache.cycleCounterRaw + isa.instrTime (isa.decode (code d'.cache.pc)).op := by
    -- the 32-bit sum of the block does not wrap
    have htime := hfit.time
    rw [hword] at htime
    rw [getCycleCounterRaw, hraw, hcyc, setWidth_add_of_lt htime, ← h.cycles, getCycleCounterRaw,
      ← h.pc, hword, add_assoc]
  have hlabel : r.label = .op (isa.decode (code d'.cache.pc)).op := by
    rw [hadv.result, fetchedOf, ← hword, h.pc]
  have hinstr : r.instr = (isa.decode (code d'.cache.pc)).instr := by
    rw [hadv.result, fetchedOf, ← hword, h.pc]
  have hexc : s'.exception = false := by
    rcases hadv.exception with hx | hx
    · exact hx
    · rw [hx, h.noException]
  refine ⟨?_, ?_⟩
  · simp only [dispatched, globalFetch, DBBCacheDummy.ops, DBBCacheDummy.fetchDecode, DBBCache.ops,
      hpc', hlast', hcycles', hlabel, hinstr]
  · exact
      { inv := hadv.inv
        matching := hadv.matching h.matching
        timed := hadv.timed rfl h.matching h.timed
        noException := hexc
        pc := hpc'
        cycles := hcycles'
        lastPc := fun _ => hlast'
        idx := fun _ => hadv.idx
        text := fun _ hd => hadv.text hd
        phase := rfl
        label := hlabel
        instr := hinstr }

/-- The global fetch: what the cache returns is what the dummy reads and decodes on the spot. -/
theorem globalFetch (h : Sim isa code d d') (hfit : d.cache.Fits isa code) :
    let g := d.globalFetch (DBBCache.ops isa) fun a => .ok (code a)
    let g' := d'.globalFetch (DBBCacheDummy.ops isa) fun a => .ok (code a)
    g.1 = g'.1 ∧ Sim isa code g.2 g'.2 := by
  have hspec := @DBBCache.Inv.fetchDecode _ _ _ _ (fun a => .ok (code a)) _ _ h.inv rfl (fun _ a => ⟨code a, rfl⟩)
    (fetchOk_of_matching h.inv h.matching hfit)
  rcases hspec with ⟨r, s', hres, hadv⟩ | ⟨t, s', -, ⟨a, ha⟩, -⟩
  · have hf := h.fetched hfit hadv r.pc
    simp only [Driver.globalFetch, DBBCache.ops] at hf ⊢
    rw [hres]
    exact hf
  · cases ha

/-- The fetch at the end of an operation. -/
theorem fastFetch (h : Sim isa code d d') (hfit : d.cache.Fits isa code) :
    let g := d.fastFetch (DBBCache.ops isa) fun a => .ok (code a)
    let g' := d'.fastFetch (DBBCacheDummy.ops isa) fun a => .ok (code a)
    g.1 = g'.1 ∧ Sim isa code g.2 g'.2 := by
  -- The dummy implementation always aborts.
  have hdummy : d'.fastFetch (DBBCacheDummy.ops isa) (fun a => .ok (code a)) =
      d'.globalFetch (DBBCacheDummy.ops isa) fun a => .ok (code a) := rfl
  simp only [hdummy]
  rcases @DBBCache.Inv.fetchDecodeFast _ _ _ _ (fun a => .ok (code a)) _ _ h.inv rfl with
    ⟨id, r, s', hres, hlabel, hadv⟩ | ⟨instr, s', hres, habort⟩
  · have hf := h.fetched hfit hadv d.pc
    simp only [Driver.fastFetch, DBBCache.ops] at hf ⊢
    rw [hres]
    rw [hlabel] at hf
    exact hf
  · simp only [Driver.fastFetch, DBBCache.ops]
    rw [hres]
    simp only [habort]
    exact h.globalFetch hfit

/-- A transfer of control: the cache lands at the start of a block, the dummy just takes the address. -/
theorem landed (h : Sim isa code d d') {s' : DBBCache w Op} {pc : BitVec w}
    (hl : d.cache.Landed isa true s' pc) {e : DBBCacheDummy w} (hpc : e.pc = pc)
    (hcyc : e.cycleCounterRaw = d'.cache.cycleCounterRaw) (pc₁ pc₂ : BitVec w) :
    s'.getPcMaybeAfterCallback = e.pc ∧ s'.getCycleCounterRaw = e.cycleCounterRaw ∧
    Sim isa code { d with cache := s', pc := pc₁, phase := .between }
      { d' with cache := e, pc := pc₂, phase := .between } := by
  have hpc' : s'.getPcMaybeAfterCallback = e.pc := by
    rw [hl.inv.getPc_of_idx_eq hl.idx, hl.first, hpc]
  have hcyc' : s'.getCycleCounterRaw = e.cycleCounterRaw := by rw [hl.cycles, h.cycles, hcyc]
  refine ⟨hpc', hcyc', ?_⟩
  exact
    { inv := hl.inv
      matching := hl.matching h.matching
      timed := hl.timed h.timed
      noException := hl.frame.exception.trans h.noException
      pc := hpc'
      cycles := hcyc'
      lastPc := nofun
      idx := nofun
      text := nofun
      phase := rfl
      label := h.label
      instr := h.instr }

/-- A request that leaves the position alone. -/
theorem stayed (h : Sim isa code d d') {s' : DBBCache w Op} (hs : d.cache.Stayed isa true s')
    {e : DBBCacheDummy w} (hpc : e.pc = d'.cache.pc) (hlast : e.lastPc = d'.cache.lastPc)
    (hcyc : e.cycleCounterRaw = d'.cache.cycleCounterRaw) :
    s'.getPcMaybeAfterCallback = e.pc ∧ s'.getCycleCounterRaw = e.cycleCounterRaw ∧
    Sim isa code { d with cache := s' } { d' with cache := e } := by
  have hpc' : s'.getPcMaybeAfterCallback = e.pc := by rw [hs.getPc h.inv, h.pc, hpc]
  have hcyc' : s'.getCycleCounterRaw = e.cycleCounterRaw := by
    rw [hs.getCycles h.inv, h.cycles, hcyc]
  have hderef := hs.deref_resetLink
  have hentry : (s'.deref s'.lastEntry).pc = (d.cache.deref d.cache.lastEntry).pc :=
    (congrArg Entry.pc hderef :)
  refine ⟨hpc', hcyc', ?_⟩
  exact
    { inv := hs.inv
      matching := fun k _ => (hs.blocks _).matches_ (h.matching k (Or.inl rfl))
      timed := hs.timed h.timed
      noException := hs.exception.trans h.noException
      pc := hpc'
      cycles := hcyc'
      lastPc := fun he => by
        rw [hlast, ← h.lastPc he]
        exact hentry
      idx := fun he => by
        rw [hs.last]
        exact h.idx he
      text := fun he hd => by
        rw [hs.cur] at hd
        obtain ⟨h1, h2⟩ := h.text he hd
        exact ⟨(congrArg Entry.opLabelPtr hderef :).trans h1,
          (congrArg Entry.instr hderef :).trans h2⟩
      phase := h.phase
      label := h.label
      instr := h.instr }

/-- A static jump: the target that the operation passes is the one the entry links to. -/
theorem branchTakenSjump (h : Sim isa code d d') (he : d.phase = .executing) :
    ∃ s', d.cache.branchTakenSjump isa (d.pcOffset isa) = (.ok (), s') ∧
      d.cache.Landed isa true s' (d'.cache.branchTakenSjump (d'.pcOffset isa)).pc := by
  have htracked : d.Tracked isa true := ⟨h.inv, h.idx, h.text⟩
  obtain ⟨s', hres, hl⟩ := htracked.branchTakenSjump he (switchOk_all _ _)
  refine ⟨s', hres, ?_⟩
  have hoff : d.pcOffset isa = d'.pcOffset isa := by
    rw [Driver.pcOffset, Driver.pcOffset, h.label, h.instr]
  rw [h.lastPc he, hoff] at hl
  exact hl

/-- The link value that a jump stores is the same: the address behind the instruction that executes. -/
theorem linkAddr (h : Sim isa code d d') (he : d.phase = .executing) :
    d.cache.linkAddr = d'.cache.pc := by
  rw [← h.pc, h.inv.getPc_of_idx_nonneg (h.idx he)]
  rfl

/-- **Every call** shows the same of both caches and keeps the simulation. -/
theorem step (hw : 0 < w) (h : Sim isa code d d') {c : Call w} (hlegal : d.Legal isa c)
    (hfit : d.Fits isa code c) :
    (d.step (DBBCache.ops isa) isa (fun a => .ok (code a)) c).1 =
        (d'.step (DBBCacheDummy.ops isa) isa (fun a => .ok (code a)) c).1 ∧
      Sim isa code (d.step (DBBCache.ops isa) isa (fun a => .ok (code a)) c).2
        (d'.step (DBBCacheDummy.ops isa) isa (fun a => .ok (code a)) c).2 := by
  cases c with
  | fetch fast =>
    cases fast with
    | true => exact h.fastFetch hfit
    | false => exact h.globalFetch hfit
  | branchNotTaken =>
    -- nothing happens but that the operation is being executed, as it was before
    have hphase : d.phase = .executing := hlegal.1
    have hd : { d with phase := .executing } = d := by rw [← hphase]
    have hd' : { d' with phase := .executing } = d' := by rw [← hphase, h.phase]
    have h3 : Sim isa code { d with phase := .executing } { d' with phase := .executing } := by
      rw [hd, hd']
      exact h
    exact ⟨congrArg₂ Obs.moved h.pc h.cycles, h3⟩
  | branchTaken =>
    -- the three static jumps land in the same way and differ in what they report
    obtain ⟨s', hres, hl⟩ := h.branchTakenSjump hlegal.1
    obtain ⟨h1, h2, h3⟩ := h.landed hl rfl rfl d.pc d'.pc
    simp only [Driver.step, DBBCache.ops, DBBCache.branchTaken, hres, DBBCacheDummy.ops, moved]
    exact ⟨congrArg₂ Obs.moved h1 h2, h3⟩
  | jump =>
    obtain ⟨s', hres, hl⟩ := h.branchTakenSjump hlegal.1
    obtain ⟨h1, h2, h3⟩ := h.landed hl rfl rfl d.pc d'.pc
    simp only [Driver.step, DBBCache.ops, DBBCache.jump, hres, DBBCacheDummy.ops, moved]
    exact ⟨congrArg₂ Obs.moved h1 h2, h3⟩
  | jumpAndLink =>
    obtain ⟨s', hres, hl⟩ := h.branchTakenSjump hlegal.1
    obtain ⟨h1, h2, h3⟩ := h.landed hl rfl rfl d.pc d'.pc
    simp only [Driver.step, DBBCache.ops, DBBCache.jumpAndLink, DBBCache.jump, hres,
      DBBCacheDummy.ops, linked, h.linkAddr hlegal.1]
    exact ⟨congrArg₂ (Obs.linked _) h1 h2, h3⟩
  | jumpDyn pc =>
    -- a target with bit 0 cleared is not the invalid program counter, all ones
    have hl := h.inv.landed_jumpDyn (ne_allOnes_of_getLsbD_zero hw hlegal.2.2) (switchOk_all _ pc)
    obtain ⟨h1, h2, h3⟩ := h.landed hl (e := { d'.cache with pc := pc }) rfl rfl d.pc d'.pc
    exact ⟨congrArg₂ Obs.moved h1 h2, h3⟩
  | jumpDynAndLink pc =>
    have hl := h.inv.landed_jumpDyn (ne_allOnes_of_getLsbD_zero hw hlegal.2.2) (switchOk_all _ pc)
    obtain ⟨h1, h2, h3⟩ := h.landed hl (e := { d'.cache with pc := pc }) rfl rfl d.pc d'.pc
    simp only [Driver.step, DBBCache.ops, DBBCache.jumpDynAndLink, DBBCacheDummy.ops, linked,
      h.linkAddr hlegal.1]
    exact ⟨congrArg₂ (Obs.linked _) h1 h2, h3⟩
  | raise t =>
    -- a trap reports the last program counter, which is that of the operation in both
    have hexc : d.cache.getLastPcExceptionSafe = d'.cache.lastPc := by
      rw [getLastPcExceptionSafe, h.noException, ← h.lastPc hlegal]
      rfl
    refine ⟨congrArg (Obs.trapped t) hexc, ?_⟩
    exact
      { h with
        lastPc := fun hph => by cases hph
        idx := fun hph => by cases hph
        text := fun hph => by cases hph
        phase := rfl }
  | enterTrap pc =>
    have hl := h.inv.landed_enterTrap (ne_allOnes_of_getLsbD_zero hw hlegal) (switchOk_all _ pc)
    obtain ⟨h1, h2, h3⟩ := h.landed hl (e := { d'.cache with pc := pc }) rfl rfl pc pc
    exact ⟨congrArg₂ Obs.moved h1 h2, h3⟩
  | retTrap pc =>
    have hl := h.inv.landed_retTrap pc
    obtain ⟨h1, h2, h3⟩ := h.landed hl (e := { d'.cache with pc := pc }) rfl rfl pc pc
    exact ⟨congrArg₂ Obs.moved h1 h2, h3⟩
  | forceSlowPath =>
    -- the rest moves neither of the caches
    obtain ⟨h1, h2, h3⟩ := h.stayed h.inv.stayed_forceSlowPath (e := d'.cache) rfl rfl rfl
    exact ⟨congrArg₂ Obs.moved h1 h2, h3⟩
  | enable ena =>
    obtain ⟨h1, h2, h3⟩ := h.stayed (h.inv.stayed_enable ena)
      (e := { d'.cache with enabled := ena }) rfl rfl rfl
    exact ⟨congrArg₂ Obs.moved h1 h2, h3⟩
  | fenceI =>
    have hs := h.inv.stayed_coherenceUpdate (h.idx hlegal) (Or.inl rfl)
    obtain ⟨h1, h2, h3⟩ := h.stayed hs (e := d'.cache) rfl rfl rfl
    exact ⟨congrArg₂ Obs.moved h1 h2, h3⟩
  | fenceVma =>
    have hs := h.inv.stayed_coherenceUpdate (h.idx hlegal) (Or.inl rfl)
    obtain ⟨h1, h2, h3⟩ := h.stayed hs (e := d'.cache) rfl rfl rfl
    exact ⟨congrArg₂ Obs.moved h1 h2, h3⟩

end Sim

/-! ### Whole runs -/

/-- Both caches start at the entry point with no cycles spent. -/
theorem sim_start (isa : Isa Op) (code : BitVec w → Word) (enabled : Bool)
    (entrypoint : BitVec w) :
    Sim isa code (start (DBBCache.init enabled entrypoint) entrypoint)
      (start (DBBCacheDummy.init enabled entrypoint) entrypoint) := by
  have hl := landed_init isa true enabled entrypoint
  exact
    { inv := hl.inv
      matching := hl.matching (matching_boot true enabled)
      timed := hl.timed (timed_boot isa enabled)
      noException := hl.frame.exception
      pc := by
        show (DBBCache.init enabled entrypoint).getPcMaybeAfterCallback = entrypoint
        rw [hl.inv.getPc_of_idx_eq hl.idx, hl.first]
      cycles := hl.cycles.trans (getCycles_boot enabled)
      lastPc := nofun
      idx := nofun
      text := nofun
      phase := rfl
      label := rfl
      instr := rfl }

/-- **The cache is transparent.**  For an instruction memory that neither changes nor faults, an
ISS that makes the same legal calls sees the same of `DBBCache_T` and of `DBBCacheDummy_T`: every
operation label, instruction, program counter, link value and cycle count, as long as no block
reaches `2^16` entries or accumulates `2^32` of instruction time. -/
theorem trace_eq_dummy (hw : 0 < w) (isa : Isa Op) (code : BitVec w → Word) (enabled : Bool)
    (entrypoint : BitVec w) (calls : List (Call w))
    (hlegal : (start (DBBCache.init enabled entrypoint) entrypoint).LegalRun (DBBCache.ops isa) isa
      (fun a => .ok (code a)) calls)
    (hfits : Run.Along (Fits isa code) (fun d c => d.step (DBBCache.ops isa) isa
      (fun a => .ok (code a)) c) (start (DBBCache.init enabled entrypoint) entrypoint) calls) :
    (start (DBBCache.init enabled entrypoint) entrypoint).trace (DBBCache.ops isa) isa
        (fun a => .ok (code a)) calls =
      (start (DBBCacheDummy.init enabled entrypoint) entrypoint).trace (DBBCacheDummy.ops isa) isa
        (fun a => .ok (code a)) calls := by
  refine Run.outputs_eq_of_sim (Sim isa code) ?_ (sim_start isa code enabled entrypoint)
    (Run.Along.and hlegal hfits)
  intro d d' c h hc
  exact h.step hw hc.1 hc.2

/-- A loop of an `addi` and a `beq` back to it, through the fast path, a fence and a trap. -/
def loopCode : BitVec 64 → Word
  | 0x1000 => 0x00150513
  | 0x1004 => 0xfe000ee3
  | 0x1008 => 0x0001
  | _ => 0x00000013

def loopCalls : List (Call 64) :=
  [.fetch false, .fetch true, .branchTaken, .fetch true, .fetch true, .branchNotTaken, .fetch true,
    .fenceI, .fetch true, .raise ⟨.illegalInstr, 0⟩, .enterTrap 0x1000, .fetch false, .fetch true,
    .forceSlowPath, .branchTaken, .fetch false]

theorem trace_eq_dummy_loopCode :
    (start (DBBCache.init true 0x1000) 0x1000).trace (DBBCache.ops defaultIsa) defaultIsa
        (fun a => .ok (loopCode a)) loopCalls =
      (start (DBBCacheDummy.init true 0x1000) 0x1000).trace (DBBCacheDummy.ops defaultIsa) defaultIsa
        (fun a => .ok (loopCode a)) loopCalls :=
  trace_eq_dummy (by decide) defaultIsa loopCode true 0x1000 loopCalls
    (by unfold LegalRun; decide) (by decide)

end Driver

end RiscvVp
