import RiscvVp.Mem.Equiv.LsCache

/-!
# Page permissions behind the load/store cache

A hit in the load/store cache is not translated, and nothing but `fence_vma` flushes the cache: not a
trap, not a return from one, not a write of `mstatus` or `satp`.  The entries carry no mode, so an
access may be answered by an entry that was made in another mode.

`Privilege.mediated_of_fresh`: in every run in which an access that finds an entry, in the cache or in
the translation lookaside buffer, finds one that was made under the present translation regime, an
access completes only if the page walk allows it.

The machine of this module is the modelled one with a note beside each entry: the regime under which it
was made.
-/

namespace RiscvVp.Privilege

open Mmu Core

/-! ### Translation regimes -/

/-- What the translation of a data access depends on: the mode it is made in (`none` if it is not
translated), the registers, and the page tables without accessed and dirty bits. -/
structure Regime where
  mode : Option PrivilegeLevel
  satp : Satp
  sum : Bool
  mxr : Bool
  tables : Tables

variable {δ : Type}

/-- The regime of a state: the mode of translation, the tables it uses, and the status bits that it looks
at. -/
def regimeOf (bus : Bus δ) (c : Core δ) : Regime :=
  { mode := translationMode c.csrs c.prv .load
    satp := c.csrs.satp
    sum := c.csrs.mstatus.sum
    mxr := c.csrs.mstatus.mxr
    tables := (c.tables bus).mask }

/-- A mode may access an address under a regime. -/
def Regime.Grants (r : Regime) (mode : PrivilegeLevel) (va : BitVec 64) (type : MemoryAccessType) :
    Prop :=
  ∃ pa, r.tables.walk r.satp va type (mode == .supervisor) r.sum r.mxr = .ok pa

/-- The regime is that of a state: the same mode and registers, and the same contents of all page table
entries that walks reach. -/
def Regime.Agrees (r : Regime) (bus : Bus δ) (c : Core δ) : Prop :=
  r.mode = translationMode c.csrs c.prv .load ∧ r.satp = c.csrs.satp ∧
    r.sum = c.csrs.mstatus.sum ∧ r.mxr = c.csrs.mstatus.mxr ∧
    ∀ a, r.tables.Entry (decodeVmInfo r.satp) a → (c.tables bus).mask a = r.tables a

/-! ### The machine -/

/-- What happens to a hart: scalar loads and stores, translations for fetches, atomics and vector
accesses, traps, interrupts and returns, writes of `mstatus` and `satp`, fences, the switches of the
debug interface, and whatever is done to memory. -/
inductive Event (δ : Type)
  | load (op : LoadOp) (va : BitVec 64)
  | store (n : Width) (va value : BitVec 64)
  | translate (va : BitVec 64) (type : MemoryAccessType)
  | trap (e : SimulationTrap) (lastPc : BitVec 64)
  | interrupt (pc : BitVec 64)
  | xret (mode : PrivilegeLevel)
  | writeStatus (mstatus : Mstatus)
  | writeSatp (satp : Satp)
  | fenceVma
  | enable (ena : Bool)
  | enableDatadmi (ena : Bool)
  | other (f : World δ → World δ)

variable (bus : Bus δ) (hart : ℕ)

/-- One event. -/
def act (c : Core δ) : Event δ → LsCacheIf.Answer × Core δ
  | .load op va =>
    let r := (LsCacheIf.functional bus hart).load c op va
    (some (r.1.map some), r.2)
  | .store n va value =>
    let r := (LsCacheIf.functional bus hart).store c n va value
    (some (r.1.map fun _ => none), r.2)
  | .translate va type => (none, (c.v2p bus hart va type).2)
  | .trap e lastPc =>
    let r := c.csrs.handleTrap c.prv e lastPc
    (none, { c with prv := r.1, csrs := r.2.1 })
  | .interrupt pc =>
    match c.csrs.handleInterrupt c.prv pc with
    | some r => (none, { c with prv := r.1, csrs := r.2.1 })
    | none => (none, c)
  | .xret mode =>
    let r := c.csrs.returnFromTrapHandler mode
    (none, { c with prv := r.1, csrs := r.2.1 })
  | .writeStatus mstatus => (none, { c with csrs := { c.csrs with mstatus := mstatus } })
  | .writeSatp satp => (none, { c with csrs := { c.csrs with satp := satp } })
  | .fenceVma => (none, (LsCacheIf.functional bus hart).fenceVma c)
  | .enable ena => (none, (LsCacheIf.functional bus hart).enable c ena)
  | .enableDatadmi ena => (none, LsCacheIf.enableDatadmi (LsCacheIf.functional bus hart) c ena)
  | .other f => (none, { c with world := f c.world })

/-- The access is answered by the cache. -/
def fromCache (c : Core δ) (va : BitVec 64) (type : MemoryAccessType) : Bool :=
  !c.world.busLock.locked &&
    (if type = .store then c.lscache.tryGetFromCacheStore va else c.lscache.tryGetFromCacheLoad va) != 0

/-- The mode in whose part of the buffer `v2p` makes an entry. -/
def fillsTlb (c : Core δ) (va : BitVec 64) (type : MemoryAccessType) : Option PrivilegeLevel :=
  match translationMode c.csrs c.prv type with
  | none => none
  | some mode =>
    if (c.tlb mode type (tlbIdx (va >>> 12))).vpn = va >>> 12 then none
    else
      match ((Mmu.walk (c.memIf bus hart) c.csrs va type mode).run' c.world).1 with
      | .ok _ => some mode
      | .error _ => none

/-- The access makes an entry in the cache. -/
def fillsCache (c : Core δ) (last : Except SimulationTrap (Option HostAddr)) : Bool :=
  match last with
  | .ok last => !c.world.busLock.locked && c.lscache.enabled && last.getD 0 != 0
  | .error _ => false

/-- A hart with the regimes under which the entries of the cache and of the buffer were made. -/
structure Watched (δ : Type) where
  core : Core δ
  cacheRegime : BitVec 8 → Regime
  tlbRegime : PrivilegeLevel → MemoryAccessType → Fin tlbEntries → Regime

/-- Note the regime of an entry of the buffer. -/
def noteTlb (s : Watched δ) (va : BitVec 64) (type : MemoryAccessType) :
    PrivilegeLevel → MemoryAccessType → Fin tlbEntries → Regime :=
  match fillsTlb bus hart s.core va type with
  | none => s.tlbRegime
  | some mode => fun mode' type' i =>
      if mode' = mode ∧ type' = type ∧ i = tlbIdx (va >>> 12) then regimeOf bus s.core
      else s.tlbRegime mode' type' i

/-- Note the regime of an entry of the cache. -/
def noteCache (s : Watched δ) (va : BitVec 64) (last : Except SimulationTrap (Option HostAddr)) :
    BitVec 8 → Regime :=
  if fillsCache s.core last then
    Function.update s.cacheRegime (LsCache.idx va) (regimeOf bus s.core)
  else s.cacheRegime

/-- One event of the watched machine. -/
def step (s : Watched δ) (e : Event δ) : LsCacheIf.Answer × Watched δ :=
  let r := act bus hart s.core e
  match e with
  | .load op va =>
    if fromCache s.core va .load then (r.1, { s with core := r.2 })
    else (r.1,
      { core := r.2
        cacheRegime := noteCache bus s va ((s.core.loadData bus hart va op.width).1.map (·.2))
        tlbRegime := noteTlb bus hart s va .load })
  | .store n va value =>
    if fromCache s.core va .store then (r.1, { s with core := r.2 })
    else (r.1,
      { core := r.2
        cacheRegime := noteCache bus s va (s.core.storeData bus hart va n value).1
        tlbRegime := noteTlb bus hart s va .store })
  | .translate va type => (r.1, { s with core := r.2, tlbRegime := noteTlb bus hart s va type })
  | _ => (r.1, { s with core := r.2 })

/-! ### The property and its condition -/

/-- A load or store that completes is one that the page walk allows, in the mode, with the `SUM` and
the `MXR` of this moment. -/
def Mediated (s : Watched δ) (e : Event δ) : Prop :=
  match e with
  | .load _ va => (∃ v, (step bus hart s e).1 = some (.ok v)) →
      ∃ pa, (s.core.walked bus hart va .load).1 = .ok pa
  | .store _ va _ => (∃ v, (step bus hart s e).1 = some (.ok v)) →
      ∃ pa, (s.core.walked bus hart va .store).1 = .ok pa
  | _ => True

/-- An access that is translated, and finds an entry in the cache or else in the buffer, finds one of
the present regime. -/
def FreshAccess (s : Watched δ) (va : BitVec 64) (type : MemoryAccessType) : Prop :=
  ∀ mode, translationMode s.core.csrs s.core.prv type = some mode →
    if fromCache s.core va type then (s.cacheRegime (LsCache.idx va)).Agrees bus s.core
    else (s.core.tlb mode type (tlbIdx (va >>> 12))).vpn = va >>> 12 →
      (s.tlbRegime mode type (tlbIdx (va >>> 12))).Agrees bus s.core

/-- The page tables lie in memory, and loads and stores find entries of the present regime only. -/
def Fresh (s : Watched δ) (e : Event δ) : Prop :=
  s.core.TablesInRam bus ∧
    match e with
    | .load _ va => FreshAccess bus s va .load
    | .store _ va _ => FreshAccess bus s va .store
    | _ => True

/-- Every entry is one that the page walk allowed, under the regime that is noted. -/
structure Inv (s : Watched δ) : Prop where
  tlb : ∀ mode type (va : BitVec 64), (s.core.tlb mode type (tlbIdx (va >>> 12))).vpn = va >>> 12 →
    (s.tlbRegime mode type (tlbIdx (va >>> 12))).Grants mode va type
  cache : ∀ type va, type ≠ .fetch → s.core.lscache.hits type va →
    ∀ mode, (s.cacheRegime (LsCache.idx va)).mode = some mode →
      (s.cacheRegime (LsCache.idx va)).Grants mode va type

/-! ### Walks and regimes -/

variable {bus hart} {c : Core δ} {s : Watched δ} {va pa : BitVec 64} {type : MemoryAccessType}
  {mode : PrivilegeLevel}

/-- The answer of the walk under the present regime. -/
theorem walked_eq (hram : c.TablesInRam bus) (hmode : translationMode c.csrs c.prv type = some mode) :
    (c.walked bus hart va type).1 = (c.tables bus).mask.walk c.csrs.satp va type
      (mode == .supervisor) c.csrs.mstatus.sum c.csrs.mstatus.mxr := by
  unfold Core.walked
  rw [hmode]
  exact walk_run' (World.hasTables (hram (mode_ne_bare hmode))) va type mode rfl

theorem grants_regimeOf (hram : c.TablesInRam bus)
    (hmode : translationMode c.csrs c.prv type = some mode)
    (h : (c.walked bus hart va type).1 = .ok pa) : (regimeOf bus c).Grants mode va type := by
  rw [walked_eq hram hmode] at h
  exact ⟨pa, h⟩

/-- A regime that agrees with the present one allows what the page walk allows. -/
theorem Regime.Agrees.walked {r : Regime} (h : r.Agrees bus c) (hg : r.Grants mode va type)
    (hram : c.TablesInRam bus) (hmode : translationMode c.csrs c.prv type = some mode) :
    ∃ pa, (c.walked bus hart va type).1 = .ok pa := by
  obtain ⟨-, hsatp, hsum, hmxr, hent⟩ := h
  obtain ⟨pa, hpa⟩ := hg
  have hk : r.tables.Kept (decodeVmInfo r.satp) (c.tables bus).mask := fun a ha v hv =>
    ⟨v, (hent a ha).trans hv, .refl v⟩
  rw [walked_eq hram hmode, ← hsatp, ← hsum, ← hmxr]
  exact ⟨pa, hk.walk hpa⟩

theorem Regime.Grants.page {r : Regime} {va' : BitVec 64} (h : r.Grants mode va type)
    (hv : va >>> 12 = va' >>> 12) : r.Grants mode va' type := by
  obtain ⟨pa, hpa⟩ := h
  exact ⟨_, walk_page hv hpa⟩

/-! ### Accesses -/

theorem hits_of_fromCache (htype : type ≠ .fetch) (h : fromCache c va type = true) :
    c.lscache.hits type va := by
  unfold fromCache at h
  rw [Bool.and_eq_true, bne_iff_ne] at h
  cases type with
  | fetch => exact absurd rfl htype
  | load => exact (LsCache.tryGetFromCacheLoad_eq _ _ h.2).1
  | store => exact (LsCache.tryGetFromCacheStore_eq _ _ h.2).1

theorem translationMode_load (htype : type ≠ .fetch) (csrs : Csrs) (prv : PrivilegeLevel) :
    translationMode csrs prv .load = translationMode csrs prv type := by
  cases type with
  | fetch => exact absurd rfl htype
  | load => rfl
  | store => simp [translationMode]

/-- What is found in the cache is allowed. -/
theorem walked_of_fromCache (hi : Inv s) (hram : s.core.TablesInRam bus) (htype : type ≠ .fetch)
    (hf : FreshAccess bus s va type) (h : fromCache s.core va type = true) :
    ∃ pa, (s.core.walked bus hart va type).1 = .ok pa := by
  cases hmode : translationMode s.core.csrs s.core.prv type with
  | none =>
    unfold Core.walked
    rw [hmode]
    exact ⟨va, rfl⟩
  | some mode =>
    have hag := hf mode hmode
    rw [if_pos h] at hag
    have hm : (s.cacheRegime (LsCache.idx va)).mode = some mode := by
      rw [hag.1, translationMode_load htype, hmode]
    exact hag.walked (hi.cache type va htype (hits_of_fromCache htype h) mode hm) hram hmode

/-- What is translated is allowed: if the buffer gives an address, the page walk would give one too. -/
theorem walked_of_v2p (hi : Inv s) (hram : s.core.TablesInRam bus)
    (hf : FreshAccess bus s va type) (h : fromCache s.core va type = false)
    (hok : (s.core.v2p bus hart va type).1 = .ok pa) :
    ∃ pa, (s.core.walked bus hart va type).1 = .ok pa := by
  cases hmode : translationMode s.core.csrs s.core.prv type with
  | none =>
    unfold Core.walked
    rw [hmode]
    exact ⟨va, rfl⟩
  | some mode =>
    by_cases hv : (s.core.tlb mode type (tlbIdx (va >>> 12))).vpn = va >>> 12
    · have hag := hf mode hmode
      rw [if_neg (by simp [h])] at hag
      exact (hag hv).walked (hi.tlb mode type va hv) hram hmode
    · rw [v2p_miss hmode hv] at hok
      unfold Core.walked
      rw [hmode]
      rcases hw : (Mmu.walk (s.core.memIf bus hart) s.core.csrs va type mode).run' s.core.world with
        ⟨t | pa', w⟩
      · rw [hw] at hok
        cases hok
      · exact ⟨pa', congrArg Prod.fst hw⟩

/-- The buffer after `v2p`: the entry that was put in stands for a right that has just been checked. -/
theorem Inv.v2p (hi : Inv s) (hram : s.core.TablesInRam bus) (va : BitVec 64)
    (type : MemoryAccessType) (mode' : PrivilegeLevel) (type' : MemoryAccessType) (va' : BitVec 64)
    (hv : ((s.core.v2p bus hart va type).2.tlb mode' type' (tlbIdx (va' >>> 12))).vpn = va' >>> 12) :
    (noteTlb bus hart s va type mode' type' (tlbIdx (va' >>> 12))).Grants mode' va' type' := by
  unfold noteTlb fillsTlb
  cases hmode : translationMode s.core.csrs s.core.prv type with
  | none =>
    rw [v2p_none hmode] at hv
    exact hi.tlb mode' type' va' hv
  | some mode =>
    dsimp only
    split_ifs with hhit
    · rw [v2p_hit hmode hhit] at hv
      exact hi.tlb mode' type' va' hv
    · rw [v2p_miss hmode hhit] at hv
      rcases hw : (Mmu.walk (s.core.memIf bus hart) s.core.csrs va type mode).run' s.core.world with
        ⟨t | pa, w⟩
      · rw [hw] at hv
        exact hi.tlb mode' type' va' hv
      · rw [hw] at hv
        dsimp only at hv ⊢
        by_cases hsame : mode' = mode ∧ type' = type ∧ tlbIdx (va' >>> 12) = tlbIdx (va >>> 12)
        · rw [if_pos hsame]
          obtain ⟨rfl, rfl, hidx⟩ := hsame
          rw [hidx, tlb_set_self] at hv
          have hwalked : (s.core.walked bus hart va type').1 = .ok pa := by
            unfold Core.walked
            rw [hmode]
            exact congrArg Prod.fst hw
          exact (grants_regimeOf hram hmode hwalked).page hv
        · rw [if_neg hsame]
          rw [Tlb.set, if_neg hsame] at hv
          exact hi.tlb mode' type' va' hv

/-- The cache after an access to the data memory. -/
def cacheAfter (c : Core δ) (va : BitVec 64) (type : MemoryAccessType)
    (last : Except SimulationTrap (Option HostAddr)) : LsCache :=
  match last with
  | .ok p => if fillsCache c last then c.lscache.update va (p.getD 0) (LsCache.validBits type)
      else c.lscache
  | .error _ => c.lscache

/-- The invariant after an access that was not answered by the cache. -/
theorem Inv.access (hi : Inv s) (hram : s.core.TablesInRam bus) (htype : type ≠ .fetch)
    (hf : FreshAccess bus s va type) (h : fromCache s.core va type = false) {c' : Core δ}
    {last : Except SimulationTrap (Option HostAddr)}
    (hlast : ∀ p, last = .ok p → ∃ pa, (s.core.v2p bus hart va type).1 = .ok pa)
    (htlb : c'.tlb = (s.core.v2p bus hart va type).2.tlb)
    (hls : c'.lscache = cacheAfter s.core va type last) :
    Inv (⟨c', noteCache bus s va last, noteTlb bus hart s va type⟩ : Watched δ) := by
  refine ⟨fun mode' type' va' hv => hi.v2p hram va type mode' type' va' (htlb ▸ hv), ?_⟩
  intro type' va' htype' hhit mode hm
  dsimp only at hhit hm ⊢
  rw [hls] at hhit
  unfold cacheAfter at hhit
  unfold noteCache at hm ⊢
  cases last with
  | error t => exact hi.cache type' va' htype' hhit mode hm
  | ok p =>
    by_cases hfill : fillsCache s.core (.ok p) = true
    · dsimp only at hhit
      rw [if_pos hfill] at hhit hm ⊢
      rcases LsCache.hits_update hhit with ⟨hidx, hold⟩ | ⟨hidx, hpage, hst⟩
      · rw [Function.update_of_ne hidx] at hm ⊢
        exact hi.cache type' va' htype' hold mode hm
      · rw [hidx, Function.update_self] at hm ⊢
        obtain ⟨pa, hpa⟩ := hlast p rfl
        obtain ⟨pa', hwalked⟩ := walked_of_v2p hi hram hf h hpa
        have hmode : translationMode s.core.csrs s.core.prv type = some mode := by
          rw [← translationMode_load htype]
          exact hm
        have hg := (grants_regimeOf hram hmode hwalked).page hpage
        -- an entry for stores answers loads, too
        cases type' with
        | fetch => exact absurd rfl htype'
        | store =>
          cases hst rfl
          exact hg
        | load =>
          cases type with
          | fetch => exact absurd rfl htype
          | load => exact hg
          | store =>
            obtain ⟨pa'', hpa''⟩ := hg
            exact ⟨pa'', Tables.walk_load hpa''⟩
    · dsimp only at hhit
      rw [if_neg hfill] at hhit hm ⊢
      exact hi.cache type' va' htype' hhit mode hm

/-! ### Loads and stores of the cache -/

theorem tryAddToCache_eq (c c' : Core δ) (hfree : c.world.busLock.locked = false)
    (hls : c'.lscache = c.lscache) (va : BitVec 64) (type : MemoryAccessType) (last : Option HostAddr) :
    c'.lscache.tryAddToCache va last (LsCache.validBits type) = cacheAfter c va type (.ok last) := by
  rw [hls]
  unfold LsCache.tryAddToCache cacheAfter fillsCache
  cases h1 : c.lscache.enabled <;> by_cases h2 : last.getD 0 = 0 <;> simp [hfree]

/-- A load that is not answered by the cache. -/
theorem cachedLoad_miss (op : LoadOp) (h : fromCache c va .load = false) :
    LsCacheIf.cachedLoad bus hart c op va =
      ((c.loadData bus hart va op.width).1.map fun x => op.cast x.1,
        { (c.loadData bus hart va op.width).2 with
          lscache := cacheAfter c va .load ((c.loadData bus hart va op.width).1.map (·.2)) }) := by
  have hls : (c.loadData bus hart va op.width).2.lscache = c.lscache := by
    rw [loadData_eq, withPaddr_lscache, v2p_lscache]
  rw [LsCacheIf.cachedLoad, load_eq]
  unfold fromCache at h
  cases hlock : c.world.busLock.locked with
  | true =>
    rw [if_pos rfl]
    have hsame : cacheAfter c va .load ((c.loadData bus hart va op.width).1.map (·.2)) =
        (c.loadData bus hart va op.width).2.lscache := by
      rw [hls]
      unfold cacheAfter fillsCache
      cases (c.loadData bus hart va op.width).1 <;> simp [Except.map, hlock]
    rw [hsame]
    rcases c.loadData bus hart va op.width with ⟨t | x, c'⟩ <;> rfl
  | false =>
    have hmiss : c.lscache.tryGetFromCacheLoad va = 0 := by simpa [hlock] using h
    rw [if_neg (by simp)]
    dsimp only
    rw [if_pos hmiss]
    rcases hr : c.loadData bus hart va op.width with ⟨t | ⟨v, last⟩, c'⟩
    · rw [hr] at hls
      dsimp only [Except.map, cacheAfter]
      rw [← hls]
    · rw [hr] at hls
      dsimp only [Except.map]
      rw [op.cast_cast, ← tryAddToCache_eq c c' hlock hls]
      rfl

/-- A store that is not answered by the cache. -/
theorem cachedStore_miss (n : Width) (v : BitVec 64) (h : fromCache c va .store = false) :
    LsCacheIf.cachedStore bus hart c n va v =
      ((c.storeData bus hart va n v).1.map fun _ => (),
        { (c.storeData bus hart va n v).2 with
          lscache := cacheAfter c va .store (c.storeData bus hart va n v).1 }) := by
  have hls : (c.storeData bus hart va n v).2.lscache = c.lscache := by
    rw [storeData_eq, withPaddr_lscache, v2p_lscache]
  rw [LsCacheIf.cachedStore]
  unfold fromCache at h
  cases hlock : c.world.busLock.locked with
  | true =>
    rw [if_pos rfl]
    have hsame : cacheAfter c va .store (c.storeData bus hart va n v).1 =
        (c.storeData bus hart va n v).2.lscache := by
      rw [hls]
      unfold cacheAfter fillsCache
      cases (c.storeData bus hart va n v).1 <;> simp [hlock]
    rw [hsame]
  | false =>
    have hmiss : c.lscache.tryGetFromCacheStore va = 0 := by simpa [hlock] using h
    rw [if_neg (by simp)]
    dsimp only
    rw [if_pos hmiss]
    rcases hr : c.storeData bus hart va n v with ⟨t | last, c'⟩
    · rw [hr] at hls
      dsimp only [Except.map, cacheAfter]
      rw [← hls]
    · rw [hr] at hls
      dsimp only [Except.map]
      rw [← tryAddToCache_eq c c' hlock hls]
      rfl

/-- An access that is answered by the cache leaves its entries, and the buffer. -/
theorem cachedLoad_hit (op : LoadOp) (h : fromCache c va .load = true) :
    (LsCacheIf.cachedLoad bus hart c op va).2 = c := by
  unfold fromCache at h
  rw [Bool.and_eq_true, bne_iff_ne, Bool.not_eq_true'] at h
  rw [LsCacheIf.cachedLoad, if_neg (by simp [h.1])]
  dsimp only
  rw [if_neg (show c.lscache.tryGetFromCacheLoad va ≠ 0 from h.2)]

theorem cachedStore_hit (n : Width) (v : BitVec 64) (h : fromCache c va .store = true) :
    (LsCacheIf.cachedStore bus hart c n va v).2.tlb = c.tlb ∧
      (LsCacheIf.cachedStore bus hart c n va v).2.lscache = c.lscache := by
  unfold fromCache at h
  rw [Bool.and_eq_true, bne_iff_ne, Bool.not_eq_true'] at h
  rw [LsCacheIf.cachedStore, if_neg (by simp [h.1])]
  dsimp only
  rw [if_neg (show c.lscache.tryGetFromCacheStore va ≠ 0 from h.2)]
  exact ⟨rfl, rfl⟩

theorem withPaddr_ok {α : Type} {r : Except SimulationTrap (BitVec 64) × Core δ}
    {f : BitVec 64 → World δ → Except SimulationTrap α × World δ} {x : α}
    (h : (withPaddr r f).1 = .ok x) : ∃ pa, r.1 = .ok pa := by
  rcases r with ⟨t | pa, c⟩
  · cases h
  · exact ⟨pa, rfl⟩

theorem withPaddr_tlb {α : Type} {r : Except SimulationTrap (BitVec 64) × Core δ}
    {f : BitVec 64 → World δ → Except SimulationTrap α × World δ} :
    (withPaddr r f).2.tlb = r.2.tlb := by rw [withPaddr_frame]

/-! ### Steps and runs -/

/-- The invariant is about the buffer, the cache and the notes. -/
theorem Inv.congr {s' : Watched δ} (hi : Inv s) (htlb : s'.core.tlb = s.core.tlb)
    (hls : ∀ type va, s'.core.lscache.hits type va → s.core.lscache.hits type va)
    (hc : s'.cacheRegime = s.cacheRegime) (ht : s'.tlbRegime = s.tlbRegime) : Inv s' := by
  refine ⟨fun mode type va hv => ?_, fun type va htype hhit mode hm => ?_⟩
  · rw [htlb] at hv
    rw [ht]
    exact hi.tlb mode type va hv
  · rw [hc] at hm ⊢
    exact hi.cache type va htype (hls type va hhit) mode hm

theorem load_spec (hi : Inv s) (op : LoadOp) (hf : Fresh bus s (.load op va)) :
    Mediated bus hart s (.load op va) ∧ Inv (step bus hart s (.load op va)).2 := by
  obtain ⟨hram, hf⟩ := hf
  unfold Mediated step act
  dsimp only
  have hfun : (LsCacheIf.functional bus hart).load = LsCacheIf.cachedLoad bus hart := rfl
  rw [hfun]
  cases h : fromCache s.core va .load with
  | true =>
    refine ⟨fun _ => walked_of_fromCache hi hram (by decide) hf h, ?_⟩
    rw [if_pos rfl]
    dsimp only
    rw [cachedLoad_hit op h]
    exact hi
  | false =>
    rw [if_neg (by simp), cachedLoad_miss op h]
    have hv2p : ∀ x, (s.core.loadData bus hart va op.width).1 = .ok x →
        ∃ pa, (s.core.v2p bus hart va .load).1 = .ok pa := by
      intro x hx
      rw [loadData_eq] at hx
      exact withPaddr_ok hx
    constructor
    · rintro ⟨v, hv⟩
      cases hres : (s.core.loadData bus hart va op.width).1 with
      | error t =>
        rw [hres] at hv
        cases hv
      | ok x =>
        obtain ⟨pa, hpa⟩ := hv2p x hres
        exact walked_of_v2p hi hram hf h hpa
    · refine hi.access hram (by decide) hf h (fun p hp => ?_) ?_ rfl
      · cases hres : (s.core.loadData bus hart va op.width).1 with
        | error t =>
          rw [hres] at hp
          cases hp
        | ok x => exact hv2p x hres
      · dsimp only
        rw [loadData_eq, withPaddr_tlb]

theorem store_spec (hi : Inv s) (n : Width) (v : BitVec 64) (hf : Fresh bus s (.store n va v)) :
    Mediated bus hart s (.store n va v) ∧ Inv (step bus hart s (.store n va v)).2 := by
  obtain ⟨hram, hf⟩ := hf
  unfold Mediated step act
  dsimp only
  have hfun : (LsCacheIf.functional bus hart).store = LsCacheIf.cachedStore bus hart := rfl
  rw [hfun]
  cases h : fromCache s.core va .store with
  | true =>
    refine ⟨fun _ => walked_of_fromCache hi hram (by decide) hf h, ?_⟩
    rw [if_pos rfl]
    obtain ⟨h1, h2⟩ := @cachedStore_hit _ bus hart _ _ n v h
    exact hi.congr h1 (fun _ _ hhit => h2 ▸ hhit) rfl rfl
  | false =>
    rw [if_neg (by simp), cachedStore_miss n v h]
    have hv2p : ∀ x, (s.core.storeData bus hart va n v).1 = .ok x →
        ∃ pa, (s.core.v2p bus hart va .store).1 = .ok pa := by
      intro x hx
      rw [storeData_eq] at hx
      exact withPaddr_ok hx
    constructor
    · rintro ⟨x, hx⟩
      cases hres : (s.core.storeData bus hart va n v).1 with
      | error t =>
        rw [hres] at hx
        cases hx
      | ok y =>
        obtain ⟨pa, hpa⟩ := hv2p y hres
        exact walked_of_v2p hi hram hf h hpa
    · refine hi.access hram (by decide) hf h hv2p ?_ rfl
      dsimp only
      rw [storeData_eq, withPaddr_tlb]

theorem hits_enable {l : LsCache} {ena : Bool} (h : (l.enable ena).hits type va) : l.hits type va := by
  unfold LsCache.enable at h
  split_ifs at h
  · exact h
  · exact h
  · exact absurd h (LsCache.not_hits_flush _ _ _)

/-- One event is mediated, if the entry that it hits is fresh, and it keeps the invariant. -/
theorem step_spec (hi : Inv s) (e : Event δ) (hf : Fresh bus s e) :
    Mediated bus hart s e ∧ Inv (step bus hart s e).2 := by
  cases e with
  | load op va => exact load_spec hi op hf
  | store n va v => exact store_spec hi n v hf
  | translate va type =>
    refine ⟨trivial, fun mode' type' va' hv => hi.v2p hf.1 va type mode' type' va' hv, ?_⟩
    intro type' va' htype' hhit
    have hls : (s.core.v2p bus hart va type).2.lscache = s.core.lscache := v2p_lscache
    exact hi.cache type' va' htype' (hls ▸ hhit)
  | trap e lastPc => exact ⟨trivial, hi.congr rfl (fun _ _ h => h) rfl rfl⟩
  | interrupt pc =>
    refine ⟨trivial, ?_⟩
    unfold step act
    dsimp only
    cases s.core.csrs.handleInterrupt s.core.prv pc <;>
      exact hi.congr rfl (fun _ _ h => h) rfl rfl
  | xret mode => exact ⟨trivial, hi.congr rfl (fun _ _ h => h) rfl rfl⟩
  | writeStatus mstatus => exact ⟨trivial, hi.congr rfl (fun _ _ h => h) rfl rfl⟩
  | writeSatp satp => exact ⟨trivial, hi.congr rfl (fun _ _ h => h) rfl rfl⟩
  | fenceVma =>
    refine ⟨trivial, fun mode type va hv => ?_, fun type va _ hhit => ?_⟩
    · have hlsb := congrArg (fun v => BitVec.getLsbD v 63) hv
      simp [step, act, LsCacheIf.functional, flushTlb, Mmu.Tlb.flush] at hlsb
    · exact absurd hhit (LsCache.not_hits_flush _ _ _)
  | enable ena => exact ⟨trivial, hi.congr rfl (fun _ _ h => hits_enable h) rfl rfl⟩
  | enableDatadmi ena =>
    refine ⟨trivial, ?_⟩
    unfold step act LsCacheIf.enableDatadmi
    dsimp only
    split_ifs
    · exact hi.congr rfl (fun _ _ h => absurd h (LsCache.not_hits_flush _ _ _)) rfl rfl
    · exact hi.congr rfl (fun _ _ h => h) rfl rfl
  | other f => exact ⟨trivial, hi.congr rfl (fun _ _ h => h) rfl rfl⟩

/-- **In every run from a flush on, in which the page tables lie in memory and loads and stores find
entries of the present translation regime only, a load or store completes only if the page walk allows
it, whatever traps, returns and writes of `mstatus` and `satp` come in between.** -/
theorem mediated_of_fresh (bus : Bus δ) (hart : ℕ) (s : Watched δ)
    (htlb : s.core.tlb = Mmu.Tlb.flush) (hls : s.core.lscache = s.core.lscache.flush)
    (es : List (Event δ)) (hf : Run.Along (Fresh bus) (step bus hart) s es) :
    Run.Along (Mediated bus hart) (step bus hart) s es := by
  refine Run.Along.of_invariant Inv (fun s e hi hf => step_spec hi e hf) ⟨?_, ?_⟩ hf
  · intro mode type va hv
    rw [htlb] at hv
    have hlsb := congrArg (fun v => BitVec.getLsbD v 63) hv
    simp [Mmu.Tlb.flush] at hlsb
  · intro type va _ hhit
    rw [hls] at hhit
    exact absurd hhit (LsCache.not_hits_flush _ _ _)

/-! ### A page of the supervisor -/

namespace SupervisorPage

open LsCacheIf.Gigapage

/-- The notes at the start are about no entry. -/
def watch (c : Core Unit) : Watched Unit :=
  ⟨c, fun _ => regimeOf Bus.empty c, fun _ _ _ => regimeOf Bus.empty c⟩

/-- Two loads of the supervisor, a fence, and a load of the user after the return. -/
def fenced : List (Event Unit) :=
  [.load .half 0x2000, .load .ubyte 0x2001, .fenceVma, .xret .supervisor, .load .half 0x2000]

/-- A load in machine mode, and the same load of the user after the return. -/
def unfenced : List (Event Unit) :=
  [.load .word 0x2000, .xret .machine, .load .word 0x2000]

end SupervisorPage

open SupervisorPage LsCacheIf.Gigapage in
/-- The run with the fence. -/
theorem mediated_fenced :
    Run.Along (Mediated Bus.empty 0) (step Bus.empty 0) (watch start) fenced := by
  refine mediated_of_fresh Bus.empty 0 (watch start) rfl rfl fenced ?_
  refine ⟨⟨tablesInRam _ rfl, ?_⟩, ⟨tablesInRam _ rfl, ?_⟩, ⟨tablesInRam _ rfl, trivial⟩,
    ⟨tablesInRam _ rfl, trivial⟩, ⟨tablesInRam _ rfl, ?_⟩, trivial⟩
  · rintro mode hm
    rw [if_neg (by decide)]
    intro hv
    have hno : BitVec.allOnes 64 = (0x2000 : BitVec 64) >>> 12 := hv
    exact absurd hno (by decide)
  · rintro mode hm
    rw [if_pos (by decide)]
    exact ⟨rfl, rfl, rfl, rfl, fun a _ => rfl⟩
  · rintro mode hm
    rw [if_neg (by decide)]
    intro hv
    have hno : BitVec.allOnes 64 = (0x2000 : BitVec 64) >>> 12 := hv
    exact absurd hno (by decide)

open SupervisorPage LsCacheIf.Gigapage in
/-- Without it, the user reads a page of the supervisor. -/
theorem not_mediated_unfenced :
    let s := watch { start with prv := .machine }
    s.core.tlb = Mmu.Tlb.flush ∧ s.core.lscache = s.core.lscache.flush ∧
      ¬Run.Along (Mediated Bus.empty 0) (step Bus.empty 0) s unfenced := by
  refine ⟨rfl, rfl, ?_⟩
  rintro ⟨-, -, h, -⟩
  let s' := Run.final (step Bus.empty 0) (watch { start with prv := .machine }) (unfenced.take 2)
  have hok : (step Bus.empty 0 s' (.load .word 0x2000)).1 = some (.ok (some 0)) := by decide
  have hfault : (s'.core.walked Bus.empty 0 0x2000 .load).1 = .error ⟨.loadPageFault, 0x2000⟩ := by
    decide
  obtain ⟨pa, hpa⟩ := h ⟨some 0, hok⟩
  cases hfault.symm.trans hpa

end RiscvVp.Privilege
