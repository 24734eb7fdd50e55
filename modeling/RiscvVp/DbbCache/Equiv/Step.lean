import RiscvVp.DbbCache.Equiv.Fetch

/-!
# What a call of the ISS does to the cache

`Driver.StepOk` collects what the calls need of the cache, and `Driver.Tracked.step` says once what
each of them does under it: the position advances by one entry, lands at a target, stays, or a trap
is caught (`Driver.StepSpec`).  `Driver.Tracked` is the part of the invariant that ties the
dispatched operation to the current entry.
-/

namespace RiscvVp.Driver

open DBBCache

variable {w : ℕ} {Op : Type} {isa : Isa Op} {all : Bool} {mem : InstrMem w}
  {d : Driver w Op (DBBCache w Op)} {c : Call w}

/-- The cache invariant, and that the operation being executed is the one of the current entry. -/
structure Tracked (isa : Isa Op) (all : Bool) (d : Driver w Op (DBBCache w Op)) : Prop where
  inv : d.cache.Inv isa all
  idx : d.phase = .executing → 0 ≤ d.cache.lastEntry.idx
  text : d.phase = .executing → d.cache.curBlock ≠ .dummyBlock →
    (d.cache.deref d.cache.lastEntry).opLabelPtr = d.label ∧
      (d.cache.deref d.cache.lastEntry).instr = d.instr

/-- Where a call transfers control to, given the address `last` of the operation. -/
def target (isa : Isa Op) (d : Driver w Op (DBBCache w Op)) (last : BitVec w) :
    Call w → Option (BitVec w)
  | .branchTaken => some (last + (d.pcOffset isa).signExtend w)
  | .jump => some (last + (d.pcOffset isa).signExtend w)
  | .jumpAndLink => some (last + (d.pcOffset isa).signExtend w)
  | .jumpDyn pc => some pc
  | .jumpDynAndLink pc => some pc
  | .enterTrap pc => some pc
  | .retTrap pc => some pc
  | _ => none

/-- What a call needs of the cache. -/
def StepOk (isa : Isa Op) (all : Bool) (mem : InstrMem w) (d : Driver w Op (DBBCache w Op))
    (c : Call w) : Prop :=
  match c with
  | .fetch _ => d.cache.FetchOk isa mem
  | .fenceI => d.cache.FenceOk all
  | .fenceVma => d.cache.FenceOk all
  | .retTrap _ => True
  | c => ∀ pc, d.target isa d.cache.getLastPcBeforeCallback c = some pc → d.cache.SwitchOk all pc

section

variable (isa : Isa Op) (mem : InstrMem w) (s : DBBCache w Op)

instance decidableAddrOk (b : Block w Op) : Decidable (b.AddrOk isa mem) := by
  unfold Block.AddrOk
  infer_instance

instance decidableRepairOk (pc : BitVec w) : Decidable (s.RepairOk isa mem pc) := by
  unfold RepairOk
  infer_instance

instance decidableFetchOk : Decidable (s.FetchOk isa mem) :=
  decidable_of_iff
    ((∀ k, s.curBlock = .heap k → ((s.getBlock (.heap k)).len : ℤ) ≤ s.lastEntry.idx + 1 →
      (s.getBlock (.heap k)).len + 1 < 2 ^ 16) ∧ s.RepairOk isa mem s.getPcMaybeAfterCallback)
    ⟨fun h => ⟨h.1, h.2⟩, fun h => ⟨h.room, h.repair⟩⟩

instance decidableSwitchOk (k : BitVec w) : Decidable (s.SwitchOk all k) := by
  unfold SwitchOk Live
  infer_instance

end

/-- What a call leaves: the driver `d'`, and what the ISS sees. -/
inductive StepSpec (isa : Isa Op) (all : Bool) (mem : InstrMem w) (d : Driver w Op (DBBCache w Op)) :
    Call w → Obs w Op × Driver w Op (DBBCache w Op) → Prop
  | fetched {fast : Bool} {s' : DBBCache w Op} {r : Fetched w Op} (pc : BitVec w)
      (adv : d.cache.Advanced isa all mem s' d.cache.getPcMaybeAfterCallback r) :
      StepSpec isa all mem d (.fetch fast)
        ({ d with pc := pc }.dispatched (DBBCache.ops isa) s' r.label r.instr)
  | faulted {fast : Bool} {s' : DBBCache w Op} {t : SimulationTrap}
      (flt : d.cache.Faulted isa all mem s' d.cache.getPcMaybeAfterCallback) :
      StepSpec isa all mem d (.fetch fast) (d.caught (DBBCache.ops isa) s' t)
  | landed {c : Call w} {s' : DBBCache w Op} {tgt : BitVec w} (obs : Obs w Op) (pc : BitVec w)
      (hobs : ∀ t lastPc, obs ≠ .trapped t lastPc)
      (htgt : d.target isa d.cache.getLastPcBeforeCallback c = some tgt)
      (lnd : d.cache.Landed isa all s' tgt) :
      StepSpec isa all mem d c (obs, { d with cache := s', pc := pc, phase := .between })
  | stayed {c : Call w} {s' : DBBCache w Op} (obs : Obs w Op)
      (hobs : ∀ t lastPc, obs ≠ .trapped t lastPc)
      (htgt : d.target isa d.cache.getLastPcBeforeCallback c = none)
      (hfetch : ∀ fast, c ≠ .fetch fast) (hraise : ∀ t, c ≠ .raise t)
      (hcnt : c ≠ .fenceI → c ≠ .fenceVma → s'.coherenceCnt = d.cache.coherenceCnt)
      (hfence : c = .fenceI ∨ c = .fenceVma → d.cache.FenceOk all ∧
        s'.coherenceCnt = d.cache.coherenceCnt + 1)
      (std : d.cache.Stayed isa all s') :
      StepSpec isa all mem d c (obs, { d with cache := s' })
  | raised {t : SimulationTrap} :
      StepSpec isa all mem d (.raise t) (d.caught (DBBCache.ops isa) d.cache t)

/-! ### The calls one by one -/

theorem globalFetch_spec (h : d.cache.Inv isa all)
    (hall : all = true → ∀ a, ∃ word, mem a = .ok word) (hok : d.cache.FetchOk isa mem)
    (fast : Bool) :
    StepSpec isa all mem d (.fetch fast) (d.globalFetch (DBBCache.ops isa) mem) := by
  rcases @DBBCache.Inv.fetchDecode _ _ _ _ mem _ _ h rfl hall hok with ⟨r, s', hres, hadv⟩ | ⟨t, s', hres, -, hflt⟩
  · have heq : d.globalFetch (DBBCache.ops isa) mem =
        { d with pc := r.pc }.dispatched (DBBCache.ops isa) s' r.label r.instr := by
      simp only [globalFetch, DBBCache.ops, hres]
    rw [heq]
    exact .fetched r.pc hadv
  · have heq : d.globalFetch (DBBCache.ops isa) mem = d.caught (DBBCache.ops isa) s' t := by
      simp only [globalFetch, DBBCache.ops, hres]
    rw [heq]
    exact .faulted hflt

theorem fastFetch_spec (h : d.cache.Inv isa all)
    (hall : all = true → ∀ a, ∃ word, mem a = .ok word) (hok : d.cache.FetchOk isa mem) :
    StepSpec isa all mem d (.fetch true) (d.fastFetch (DBBCache.ops isa) mem) := by
  rcases @DBBCache.Inv.fetchDecodeFast _ _ _ _ mem _ _ h rfl with
    ⟨id, r, s', hres, hlabel, hadv⟩ | ⟨instr, s', hres, habort⟩
  · have heq : d.fastFetch (DBBCache.ops isa) mem =
        { d with pc := d.pc }.dispatched (DBBCache.ops isa) s' r.label r.instr := by
      simp only [fastFetch, DBBCache.ops, hres, hlabel]
    rw [heq]
    exact .fetched d.pc hadv
  · have heq : d.fastFetch (DBBCache.ops isa) mem = d.globalFetch (DBBCache.ops isa) mem := by
      simp only [fastFetch, DBBCache.ops, hres, habort]
    rw [heq]
    exact globalFetch_spec h hall hok true

/-- A taken branch or static jump of the operation being executed. -/
theorem Tracked.branchTakenSjump (h : d.Tracked isa all) (he : d.phase = .executing)
    (hok : d.cache.SwitchOk all (d.cache.getLastPcBeforeCallback + (d.pcOffset isa).signExtend w)) :
    ∃ s', d.cache.branchTakenSjump isa (d.pcOffset isa) = (.ok (), s') ∧ d.cache.Landed isa all s'
      (d.cache.getLastPcBeforeCallback + (d.pcOffset isa).signExtend w) := by
  refine h.inv.landed_branchTakenSjump (h.idx he) (fun hd => ?_) hok
  obtain ⟨h1, h2⟩ := h.text he hd
  rw [pcOffset, h1, h2]

@[simp] theorem forceSlowPath_coherenceCnt (s : DBBCache w Op) :
    s.forceSlowPath.coherenceCnt = s.coherenceCnt := by
  unfold forceSlowPath
  dsimp only
  split_ifs <;> rfl

@[simp] theorem enable_coherenceCnt (s : DBBCache w Op) (ena : Bool) :
    (s.enable ena).coherenceCnt = s.coherenceCnt := by
  unfold enable
  dsimp only
  split_ifs
  · rfl
  · rfl
  · simp

@[simp] theorem coherenceUpdate_coherenceCnt (s : DBBCache w Op) :
    s.coherenceUpdate.coherenceCnt = s.coherenceCnt + 1 := by
  unfold coherenceUpdate
  dsimp only
  split_ifs <;> rfl

/-- **What a legal call does**, by the kind of call: it fetches, raises, lands at the start of a block, or
stays. -/
theorem Tracked.step (hw : 0 < w) (h : d.Tracked isa all) (hlegal : d.Legal isa c)
    (hall : all = true → ∀ a, ∃ word, mem a = .ok word) (hok : d.StepOk isa all mem c) :
    StepSpec isa all mem d c (d.step (DBBCache.ops isa) isa mem c) := by
  -- every call fetches, lands at the start of a block or stays where it is
  cases c with
  | fetch fast =>
    cases fast with
    | true => exact fastFetch_spec h.inv hall hok
    | false => exact globalFetch_spec h.inv hall hok false
  | branchNotTaken =>
    have hs := h.inv.stayed_setFields h.inv.trapLinks d.cache.enabled d.cache.slowPath
    obtain ⟨cache, pc, label, instr, phase⟩ := d
    obtain rfl : phase = .executing := hlegal.1
    exact .stayed _ nofun rfl nofun nofun (fun _ _ => rfl) nofun hs
  | branchTaken =>
    obtain ⟨s', hres, hl⟩ := h.branchTakenSjump hlegal.1 (hok _ rfl)
    simp only [Driver.step, DBBCache.ops, DBBCache.branchTaken, hres]
    exact .landed _ d.pc nofun rfl hl
  | jump =>
    obtain ⟨s', hres, hl⟩ := h.branchTakenSjump hlegal.1 (hok _ rfl)
    simp only [Driver.step, DBBCache.ops, DBBCache.jump, hres]
    exact .landed _ d.pc nofun rfl hl
  | jumpAndLink =>
    obtain ⟨s', hres, hl⟩ := h.branchTakenSjump hlegal.1 (hok _ rfl)
    simp only [Driver.step, DBBCache.ops, DBBCache.jumpAndLink, DBBCache.jump, hres]
    exact .landed _ d.pc nofun rfl hl
  | jumpDyn pc =>
    exact .landed _ d.pc nofun rfl
      (h.inv.landed_jumpDyn (ne_allOnes_of_getLsbD_zero hw hlegal.2.2) (hok pc rfl))
  | jumpDynAndLink pc =>
    exact .landed _ d.pc nofun rfl
      (h.inv.landed_jumpDyn (ne_allOnes_of_getLsbD_zero hw hlegal.2.2) (hok pc rfl))
  | raise t => exact .raised
  | enterTrap pc =>
    exact .landed _ pc nofun rfl
      (h.inv.landed_enterTrap (ne_allOnes_of_getLsbD_zero hw hlegal) (hok pc rfl))
  | retTrap pc => exact .landed _ pc nofun rfl (h.inv.landed_retTrap pc)
  | forceSlowPath =>
    exact .stayed _ nofun rfl nofun nofun (fun _ _ => forceSlowPath_coherenceCnt _) nofun
      h.inv.stayed_forceSlowPath
  | enable ena =>
    exact .stayed _ nofun rfl nofun nofun (fun _ _ => enable_coherenceCnt _ ena) nofun
      (h.inv.stayed_enable ena)
  | fenceI =>
    exact .stayed _ nofun rfl nofun nofun (fun hne => absurd rfl hne)
      (fun _ => ⟨hok, coherenceUpdate_coherenceCnt _⟩)
      (h.inv.stayed_coherenceUpdate (h.idx hlegal) hok)
  | fenceVma =>
    exact .stayed _ nofun rfl nofun nofun (fun _ hne => absurd rfl hne)
      (fun _ => ⟨hok, coherenceUpdate_coherenceCnt _⟩)
      (h.inv.stayed_coherenceUpdate (h.idx hlegal) hok)

/-- A driver whose cache has been left where it was is tracked as before. -/
theorem Tracked.of_stayed {d' : Driver w Op (DBBCache w Op)} (h : d.Tracked isa all)
    (hs : d.cache.Stayed isa all d'.cache) (hlabel : d'.label = d.label)
    (hinstr : d'.instr = d.instr) (hphase : d'.phase = d.phase) : d'.Tracked isa all := by
  refine ⟨hs.inv, fun he => ?_, fun he hd => ?_⟩
  · rw [hs.last]
    exact h.idx (hphase ▸ he)
  · obtain ⟨h1, h2⟩ := h.text (hphase ▸ he) (fun hd' => hd (hs.cur.trans hd'))
    rw [hlabel, hinstr]
    exact ⟨(congrArg Entry.opLabelPtr hs.deref_resetLink :).trans h1,
      (congrArg Entry.instr hs.deref_resetLink :).trans h2⟩

/-- The driver after a call is tracked again. -/
theorem StepSpec.tracked (h : d.Tracked isa all) {res : Obs w Op × Driver w Op (DBBCache w Op)}
    (hspec : StepSpec isa all mem d c res) : res.2.Tracked isa all := by
  cases hspec with
  | fetched pc adv => exact ⟨adv.inv, fun _ => adv.idx, fun _ hd => adv.text hd⟩
  | faulted flt => exact ⟨flt.inv, nofun, nofun⟩
  | landed obs pc hobs htgt lnd => exact ⟨lnd.inv, nofun, nofun⟩
  | stayed obs hobs htgt hfetch hraise hcnt hfence std => exact h.of_stayed std rfl rfl rfl
  | raised => exact ⟨h.inv, nofun, nofun⟩

/-- Before the first instruction: the cache stands on the dummy block, in front of the entry point. -/
theorem tracked_start (isa : Isa Op) (all enabled : Bool) (entrypoint : BitVec w) :
    (start (DBBCache.init enabled entrypoint) entrypoint : Driver w Op _).Tracked isa all :=
  ⟨(landed_init isa all enabled entrypoint).inv, nofun, nofun⟩

end RiscvVp.Driver
