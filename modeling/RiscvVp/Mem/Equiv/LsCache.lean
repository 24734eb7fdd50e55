import RiscvVp.Mem.LsCache
import RiscvVp.Mem.Equiv.Ram
import RiscvVp.Lib.Run

/-!
# The load/store cache against the interface without a cache

`LsCacheIf.functional_eq_dummy`: with a fixed translation regime between fences, page tables in which
accessed and dirty bits are only set, and DMI ranges of whole pages, the cache answers like the
interface without it and leaves the same memory.

Both machines have a translation lookaside buffer, and the two differ: a hit in the cache does not
translate.  What relates the machines is `Sim`: the same memory, and whatever a buffer or the cache has
kept is what a page walk answers now, without having to set a bit (`Core.Trans`).
-/

namespace RiscvVp

/-! ### Pages -/

section Pages

theorem pageOf_eq_shift (a : BitVec 64) : pageOf a = a >>> 12 <<< 12 := by
  apply BitVec.eq_of_getLsbD_eq
  intro i hi
  have hbit : ∀ j : Fin 64, (~~~(0xFFF : BitVec 64)).getLsbD j = !decide ((j : ℕ) < 12) := by decide
  rw [pageOf, BitVec.getLsbD_and, hbit ⟨i, hi⟩, BitVec.getLsbD_shiftLeft, BitVec.getLsbD_ushiftRight]
  by_cases h12 : i < 12
  · simp [h12]
  · have hadd : 12 + (i - 12) = i := by omega
    simp [h12, hi, hadd]

theorem toNat_pageOf (a : BitVec 64) : (pageOf a).toNat = a.toNat / 4096 * 4096 := by
  rw [pageOf_eq_shift, BitVec.toNat_shiftLeft, BitVec.toNat_ushiftRight, Nat.shiftRight_eq_div_pow,
    Nat.shiftLeft_eq]
  omega

theorem toNat_pageOffset (a : BitVec 64) : (pageOffset a).toNat = a.toNat % 4096 := by
  rw [pageOffset, BitVec.toNat_and]
  exact Nat.and_two_pow_sub_one_eq_mod _ 12

/-- An address is its page and its offset. -/
theorem pageOf_add_pageOffset (a : BitVec 64) : pageOf a + pageOffset a = a := by
  apply BitVec.eq_of_toNat_eq
  rw [BitVec.toNat_add, toNat_pageOf, toNat_pageOffset]
  omega

theorem pageOf_or_pageOffset (a : BitVec 64) : pageOf a ||| pageOffset a = a := by
  rw [pageOf, pageOffset, ← BitVec.and_or_distrib_left]
  have : ~~~(0xFFF : BitVec 64) ||| 0xFFF = BitVec.allOnes 64 := by decide
  rw [this, BitVec.and_allOnes]

/-- The parts of an address that is put together. -/
theorem pageOf_or (a b : BitVec 64) : pageOf (pageOf a ||| pageOffset b) = pageOf a := by
  rw [pageOf_eq_shift a, Mmu.pageOf_shift]

theorem pageOffset_or (a b : BitVec 64) : pageOffset (pageOf a ||| pageOffset b) = pageOffset b := by
  rw [pageOf, pageOffset, pageOffset, BitVec.and_or_distrib_right, BitVec.and_assoc, BitVec.and_assoc]
  have h0 : ~~~(0xFFF : BitVec 64) &&& 0xFFF = 0 := by decide
  have h1 : (0xFFF : BitVec 64) &&& 0xFFF = 0xFFF := by decide
  rw [h0, h1]
  simp

end Pages

namespace MemoryDMI

/-- The range starts and ends on a 4 KiB boundary. -/
def PageAligned (e : MemoryDMI) : Prop := pageOffset e.start = 0 ∧ pageOffset e.stop = 0

instance (e : MemoryDMI) : Decidable e.PageAligned := inferInstanceAs (Decidable (_ ∧ _))

theorem PageAligned.contains {e : MemoryDMI} (h : e.PageAligned) (a : BitVec 64) :
    e.contains (pageOf a) = e.contains a := by
  have h1 : e.start.toNat % 4096 = 0 := by
    rw [← toNat_pageOffset, h.1]
    rfl
  have h2 : e.stop.toNat % 4096 = 0 := by
    rw [← toNat_pageOffset, h.2]
    rfl
  have hle : e.start ≤ pageOf a ↔ e.start ≤ a := by
    rw [BitVec.le_def, BitVec.le_def, toNat_pageOf]
    omega
  have hlt : pageOf a < e.stop ↔ a < e.stop := by
    rw [BitVec.lt_def, BitVec.lt_def, toNat_pageOf]
    omega
  rw [MemoryDMI.contains, MemoryDMI.contains, decide_eq_decide.mpr hle, decide_eq_decide.mpr hlt]

/-- The range of an address is the range of its page. -/
theorem find?_pageOf {ranges : List MemoryDMI} (h : ∀ e ∈ ranges, e.PageAligned) (a : BitVec 64) :
    ranges.find? (fun e => e.contains (pageOf a)) = ranges.find? fun e => e.contains a := by
  induction ranges with
  | nil => rfl
  | cons e es ih =>
    rw [List.find?_cons, List.find?_cons, (h e (by simp)).contains,
      ih fun e' he' => h e' (List.mem_cons_of_mem _ he')]

/-- A host page and an offset: the cache keeps the page and adds the offset at each access. -/
theorem getMemPtrToGlobalAddr_page (e : MemoryDMI) (a : BitVec 64) :
    e.getMemPtrToGlobalAddr (pageOf a) + pageOffset a = e.getMemPtrToGlobalAddr a := by
  have h := pageOf_add_pageOffset a
  unfold getMemPtrToGlobalAddr
  generalize pageOf a = p, pageOffset a = o at h ⊢
  subst h
  bv_omega

end MemoryDMI

/-! ### Entries of the cache -/

namespace LsCache

/-- An entry answers for an access. -/
def hits (c : LsCache) (type : MemoryAccessType) (va : BitVec 64) : Prop :=
  match type with
  | .store => tag va ||| storeValidBits = (c.cache (idx va)).tagValid
  | _ => tag va ||| loadValidBits = (c.cache (idx va)).tagValid &&& ~~~2

theorem getLsbD_tag (va : BitVec 64) {i : ℕ} (h : 20 ≤ i) : (tag va).getLsbD i = va.getLsbD i := by
  by_cases hi : i < 64
  · have hbit : ∀ j : Fin 64, 20 ≤ (j : ℕ) → (~~~(0xFFFFF : BitVec 64)).getLsbD j = true := by decide
    rw [tag, BitVec.getLsbD_and, hbit ⟨i, hi⟩ h, Bool.and_true]
  · rw [BitVec.getLsbD_of_ge _ _ (not_lt.mp hi), BitVec.getLsbD_of_ge _ _ (not_lt.mp hi)]

theorem getLsbD_idx (va : BitVec 64) {i : ℕ} (h : i < 8) :
    (idx va).getLsbD i = va.getLsbD (12 + i) := by
  have hbit : ∀ j : Fin 8, (0xFF000 : BitVec 64).getLsbD (12 + j) = true := by decide
  rw [idx, BitVec.getLsbD_setWidth, BitVec.getLsbD_ushiftRight, BitVec.getLsbD_and, hbit ⟨i, h⟩]
  simp [h]

/-- Set and tag determine the page, so an entry is used for addresses of one page only. -/
theorem page_of_tag {va va' : BitVec 64} (hidx : idx va' = idx va)
    (htag : ∀ i, 20 ≤ i → (tag va').getLsbD i = (tag va).getLsbD i) : va >>> 12 = va' >>> 12 := by
  apply BitVec.eq_of_getLsbD_eq
  intro i hi
  rw [BitVec.getLsbD_ushiftRight, BitVec.getLsbD_ushiftRight]
  by_cases h8 : i < 8
  · rw [← getLsbD_idx va h8, ← getLsbD_idx va' h8, hidx]
  · rw [← getLsbD_tag va (by omega), ← getLsbD_tag va' (by omega), htag _ (by omega)]

theorem not_hits_flush (c : LsCache) (type : MemoryAccessType) (va : BitVec 64) :
    ¬c.flush.hits type va := by
  intro h
  have hbit : ((0 : BitVec 64) &&& ~~~2).getLsbD 0 = false := by decide
  cases type with
  | store =>
    have h0 := congrArg (BitVec.getLsbD · 0) (show tag va ||| storeValidBits = 0 from h)
    simp [storeValidBits, loadValidBits] at h0
  | load =>
    have h0 := congrArg (BitVec.getLsbD · 0) (show tag va ||| loadValidBits = 0 &&& ~~~2 from h)
    simp [loadValidBits] at h0
  | fetch =>
    have h0 := congrArg (BitVec.getLsbD · 0) (show tag va ||| loadValidBits = 0 &&& ~~~2 from h)
    simp [loadValidBits] at h0

/-- The bits that an access of a type adds. -/
def validBits : MemoryAccessType → BitVec 64
  | .store => storeValidBits
  | _ => loadValidBits

theorem getLsbD_validBits (type : MemoryAccessType) {i : ℕ} (h : 20 ≤ i) :
    (validBits type).getLsbD i = false := by
  by_cases hi : i < 64
  · have hbit : ∀ j : Fin 64, 20 ≤ (j : ℕ) → (validBits type).getLsbD j = false := by
      cases type <;> decide
    exact hbit ⟨i, hi⟩ h
  · exact BitVec.getLsbD_of_ge _ _ (not_lt.mp hi)

/-- After `update` an access hits an entry that was there, or an address of the page that was put in;
a store only if the entry is valid for stores. -/
theorem hits_update {c : LsCache} {va va' : BitVec 64} {h : HostAddr} {type filled : MemoryAccessType}
    (hh : (c.update va h (validBits filled)).hits type va') :
    (idx va' ≠ idx va ∧ c.hits type va') ∨
      (idx va' = idx va ∧ va >>> 12 = va' >>> 12 ∧ (type = .store → filled = .store)) := by
  by_cases hidx : idx va' = idx va
  · have hentry : (c.update va h (validBits filled)).cache (idx va') =
        ⟨tag va ||| validBits filled, h⟩ := by
      rw [hidx]
      exact Function.update_self _ _ _
    unfold hits at hh
    rw [hentry] at hh
    have htag : ∀ i, 20 ≤ i → (tag va').getLsbD i = (tag va).getLsbD i := by
      intro i hi
      by_cases h64 : i < 64
      · have hmask : ∀ j : Fin 64, 20 ≤ (j : ℕ) → (~~~(2 : BitVec 64)).getLsbD j = true := by decide
        have hv := getLsbD_validBits filled hi
        have hl : loadValidBits.getLsbD i = false := getLsbD_validBits .load hi
        have hs : storeValidBits.getLsbD i = false := getLsbD_validBits .store hi
        have hm := hmask ⟨i, h64⟩ hi
        cases type <;> simpa only [BitVec.getLsbD_or, BitVec.getLsbD_and, hv, hl, hs, hm,
          Bool.or_false, Bool.and_true] using congrArg (BitVec.getLsbD · i) hh
      · rw [BitVec.getLsbD_of_ge _ _ (not_lt.mp h64), BitVec.getLsbD_of_ge _ _ (not_lt.mp h64)]
    refine .inr ⟨hidx, page_of_tag hidx htag, ?_⟩
    rintro rfl
    -- bit 1 says that stores are allowed
    have h1 := congrArg (BitVec.getLsbD · 1) (show tag va' ||| storeValidBits = tag va ||| validBits filled
      from hh)
    cases filled with
    | store => rfl
    | load => simp [tag, validBits, storeValidBits, loadValidBits] at h1
    | fetch => simp [tag, validBits, storeValidBits, loadValidBits] at h1
  · refine .inl ⟨hidx, ?_⟩
    unfold hits update at hh
    unfold hits
    simp only [Function.update_of_ne hidx] at hh
    exact hh

theorem tryGetFromCacheLoad_eq (c : LsCache) (va : BitVec 64) (h : c.tryGetFromCacheLoad va ≠ 0) :
    c.hits .load va ∧
      c.tryGetFromCacheLoad va = (c.cache (idx va)).hostPageAddr + pageOffset va := by
  unfold tryGetFromCacheLoad at h ⊢
  dsimp only at h ⊢
  split at h
  · next hit =>
    rw [if_pos hit]
    exact ⟨hit, rfl⟩
  · exact absurd rfl h

theorem tryGetFromCacheStore_eq (c : LsCache) (va : BitVec 64) (h : c.tryGetFromCacheStore va ≠ 0) :
    c.hits .store va ∧
      c.tryGetFromCacheStore va = (c.cache (idx va)).hostPageAddr + pageOffset va := by
  unfold tryGetFromCacheStore at h ⊢
  dsimp only at h ⊢
  split at h
  · next hit =>
    rw [if_pos hit]
    exact ⟨hit, rfl⟩
  · exact absurd rfl h

end LsCache

/-! ### Translation -/

namespace Core

open Mmu

variable {δ : Type} (bus : Bus δ) (hart : ℕ)

/-- The words that the page walk reads. -/
def tables (c : Core δ) : Tables := c.world.word bus c.dmi.dmiRanges

/-- If addresses are translated, the page tables lie in memory. -/
def TablesInRam (c : Core δ) : Prop :=
  c.csrs.satp.mode ≠ .bare →
    World.RamTables bus c.dmi.dmiRanges (decodeVmInfo c.csrs.satp) (c.tables bus)

/-- If addresses are translated, accessed and dirty bits of the page tables of `c` have been set, and
nothing else has changed. -/
def TablesKept (c c' : Core δ) : Prop :=
  c.csrs.satp.mode ≠ .bare → (c.tables bus).Kept (decodeVmInfo c.csrs.satp) (c'.tables bus)

/-- An address is translated to `pa`, and the page tables have no bit to be set for it. -/
def Trans (c : Core δ) (va : BitVec 64) (type : MemoryAccessType) (pa : BitVec 64) : Prop :=
  match translationMode c.csrs c.prv type with
  | none => pa = va
  | some mode => (c.tables bus).Known c.csrs.satp va type (mode == .supervisor) c.csrs.mstatus.sum
      c.csrs.mstatus.mxr pa

/-- What the buffer has kept of the present mode is right. -/
def TlbOk (c : Core δ) : Prop :=
  ∀ mode type (va : BitVec 64), translationMode c.csrs c.prv type = some mode →
    (c.tlb mode type (tlbIdx (va >>> 12))).vpn = va >>> 12 →
    c.Trans bus va type ((c.tlb mode type (tlbIdx (va >>> 12))).ppn ||| pageOffset va)

/-- What the cache has kept is right: the host page of the page that is accessed. -/
def LsOk (c : Core δ) : Prop :=
  ∀ type va, type ≠ .fetch → c.lscache.hits type va → ∃ pa e, c.Trans bus va type pa ∧
    (c.dmi.dmiRanges.find? fun e => e.contains pa) = some e ∧
    (c.lscache.cache (LsCache.idx va)).hostPageAddr = e.getMemPtrToGlobalAddr (pageOf pa)

variable {bus hart} {c c' : Core δ} {va pa : BitVec 64} {type : MemoryAccessType}

theorem TablesKept.congr {d d' : Core δ} (h : d.TablesKept bus d') (hcsrs : c.csrs = d.csrs)
    (ht : c.tables bus = d.tables bus) (ht' : c'.tables bus = d'.tables bus) :
    c.TablesKept bus c' := by
  unfold TablesKept
  rw [hcsrs, ht, ht']
  exact h

theorem mode_ne_bare {mode : PrivilegeLevel} (h : translationMode c.csrs c.prv type = some mode) :
    c.csrs.satp.mode ≠ .bare := by
  intro hb
  rw [translationMode, if_pos hb] at h
  cases h

theorem Trans.kept (h : c.Trans bus va type pa) (hk : c.TablesKept bus c') (hcsrs : c'.csrs = c.csrs)
    (hprv : c'.prv = c.prv) : c'.Trans bus va type pa := by
  unfold Trans at h ⊢
  rw [hcsrs, hprv]
  cases hmode : translationMode c.csrs c.prv type with
  | none =>
    rw [hmode] at h
    exact h
  | some mode =>
    rw [hmode] at h
    exact h.kept (hk (mode_ne_bare hmode))

theorem Trans.page {va' : BitVec 64} (h : c.Trans bus va type pa) (hv : va >>> 12 = va' >>> 12) :
    c.Trans bus va' type (pageOf pa ||| pageOffset va') := by
  unfold Trans at h ⊢
  cases hmode : translationMode c.csrs c.prv type with
  | none =>
    rw [hmode] at h
    obtain rfl : pa = va := h
    show pageOf pa ||| pageOffset va' = va'
    rw [pageOf_eq_shift, hv, ← pageOf_eq_shift, pageOf_or_pageOffset]
  | some mode =>
    rw [hmode] at h
    exact h.page hv

/-- Loads and stores are translated in the same mode. -/
theorem Trans.load (h : c.Trans bus va .store pa) : c.Trans bus va .load pa := by
  have hmode : translationMode c.csrs c.prv .load = translationMode c.csrs c.prv .store := by
    simp [translationMode]
  unfold Trans at h ⊢
  rw [hmode]
  cases hm : translationMode c.csrs c.prv .store with
  | none =>
    rw [hm] at h
    exact h
  | some mode =>
    rw [hm] at h
    exact h.load

theorem TlbOk.kept (h : c.TlbOk bus) (hk : c.TablesKept bus c') (hcsrs : c'.csrs = c.csrs)
    (hprv : c'.prv = c.prv) (htlb : c'.tlb = c.tlb) : c'.TlbOk bus := by
  intro mode type va hmode hvpn
  rw [hcsrs, hprv] at hmode
  rw [htlb] at hvpn ⊢
  exact (h mode type va hmode hvpn).kept hk hcsrs hprv

theorem LsOk.kept (h : c.LsOk bus) (hk : c.TablesKept bus c') (hcsrs : c'.csrs = c.csrs)
    (hprv : c'.prv = c.prv) (hdmi : c'.dmi = c.dmi) (hls : c'.lscache = c.lscache) :
    c'.LsOk bus := by
  intro type va htype hhit
  rw [hls] at hhit
  obtain ⟨pa, e, htr, hf, hp⟩ := h type va htype hhit
  exact ⟨pa, e, htr.kept hk hcsrs hprv, by rw [hdmi]; exact hf, by rw [hls]; exact hp⟩

/-! ### `v2p` -/

/-- The answer of the page walk, and the world after it. -/
def walked (bus : Bus δ) (hart : ℕ) (c : Core δ) (va : BitVec 64) (type : MemoryAccessType) :
    Except SimulationTrap (BitVec 64) × World δ :=
  match translationMode c.csrs c.prv type with
  | none => (.ok va, c.world)
  | some mode => (Mmu.walk (c.memIf bus hart) c.csrs va type mode).run' c.world

theorem v2p_none (h : translationMode c.csrs c.prv type = none) :
    c.v2p bus hart va type = (.ok va, c) := by
  rw [v2p, Mmu.translate, h]
  rfl

theorem v2p_hit {mode : PrivilegeLevel} (h : translationMode c.csrs c.prv type = some mode)
    (hv : (c.tlb mode type (tlbIdx (va >>> 12))).vpn = va >>> 12) :
    c.v2p bus hart va type = (.ok ((c.tlb mode type (tlbIdx (va >>> 12))).ppn ||| pageOffset va), c) := by
  have htr : Mmu.translate (c.memIf bus hart) c.csrs c.prv c.tlb va type =
      pure ((c.tlb mode type (tlbIdx (va >>> 12))).ppn ||| pageOffset va, c.tlb) := by
    rw [Mmu.translate, h]
    exact if_pos hv
  rw [v2p, htr]
  rfl

theorem v2p_miss {mode : PrivilegeLevel} (h : translationMode c.csrs c.prv type = some mode)
    (hv : ¬(c.tlb mode type (tlbIdx (va >>> 12))).vpn = va >>> 12) :
    c.v2p bus hart va type =
      match (Mmu.walk (c.memIf bus hart) c.csrs va type mode).run' c.world with
      | (.ok pa, w) => (.ok pa, { c with
          world := w, tlb := c.tlb.set mode type (tlbIdx (va >>> 12)) ⟨pageOf pa, va >>> 12⟩ })
      | (.error t, w) => (.error t, { c with world := w }) := by
  have htr : Mmu.translate (c.memIf bus hart) c.csrs c.prv c.tlb va type = (do
      let pa ← Mmu.walk (c.memIf bus hart) c.csrs va type mode
      return (pa, c.tlb.set mode type (tlbIdx (va >>> 12)) ⟨pageOf pa, va >>> 12⟩)) := by
    rw [Mmu.translate, h]
    exact if_neg hv
  rw [v2p, htr, MemM.run'_bind]
  rcases (Mmu.walk (c.memIf bus hart) c.csrs va type mode).run' c.world with ⟨t | pa, w⟩ <;> rfl

/-- `v2p` writes the world and the buffer only. -/
theorem v2p_frame (bus : Bus δ) (hart : ℕ) (c : Core δ) (va : BitVec 64) (type : MemoryAccessType) :
    ∃ w tlb, (c.v2p bus hart va type).2 = { c with world := w, tlb := tlb } := by
  rw [v2p]
  split
  · exact ⟨_, _, rfl⟩
  · exact ⟨_, c.tlb, rfl⟩

theorem v2p_csrs : (c.v2p bus hart va type).2.csrs = c.csrs := by
  obtain ⟨w, tlb, h⟩ := v2p_frame bus hart c va type
  rw [h]

theorem v2p_prv : (c.v2p bus hart va type).2.prv = c.prv := by
  obtain ⟨w, tlb, h⟩ := v2p_frame bus hart c va type
  rw [h]

theorem v2p_dmi : (c.v2p bus hart va type).2.dmi = c.dmi := by
  obtain ⟨w, tlb, h⟩ := v2p_frame bus hart c va type
  rw [h]

theorem v2p_lscache : (c.v2p bus hart va type).2.lscache = c.lscache := by
  obtain ⟨w, tlb, h⟩ := v2p_frame bus hart c va type
  rw [h]

/-- Whatever the buffer holds, `v2p` answers like the page walk.  The worlds differ in that one of them
may have waited for the bus. -/
theorem v2p_walked (hram : c.TablesInRam bus) (htlb : c.TlbOk bus) (va : BitVec 64)
    (type : MemoryAccessType) :
    (c.v2p bus hart va type).1 = (c.walked bus hart va type).1 ∧
      (c.v2p bus hart va type).2.world.waitForAccessRights hart =
        (c.walked bus hart va type).2.waitForAccessRights hart ∧
      ∀ t, (c.walked bus hart va type).1 = .error t →
        (c.v2p bus hart va type).2.world = (c.walked bus hart va type).2 := by
  unfold walked
  cases hmode : translationMode c.csrs c.prv type with
  | none =>
    rw [v2p_none hmode]
    exact ⟨rfl, rfl, fun _ _ => rfl⟩
  | some mode =>
    by_cases hv : (c.tlb mode type (tlbIdx (va >>> 12))).vpn = va >>> 12
    · have hknown := htlb mode type va hmode hv
      unfold Trans at hknown
      rw [hmode] at hknown
      have hwalk := @World.walk_known _ _ hart _ _ _ _ _ _ _ (hram (mode_ne_bare hmode)) hknown
      rw [v2p_hit hmode hv]
      unfold memIf
      dsimp only
      rw [hwalk]
      exact ⟨rfl, (World.wait_wait _ _).symm, by nofun⟩
    · rw [v2p_miss hmode hv]
      dsimp only
      rcases (Mmu.walk (c.memIf bus hart) c.csrs va type mode).run' c.world with ⟨t | pa, w⟩
      · exact ⟨rfl, rfl, fun _ _ => rfl⟩
      · exact ⟨rfl, rfl, by nofun⟩

/-- After `v2p` the buffer is right, and so is the answer. -/
theorem TlbOk.v2p (hram : c.TablesInRam bus) (htlb : c.TlbOk bus)
    (hk : c.TablesKept bus (c.v2p bus hart va type).2) :
    (c.v2p bus hart va type).2.TlbOk bus ∧
      ∀ pa, (c.v2p bus hart va type).1 = .ok pa → (c.v2p bus hart va type).2.Trans bus va type pa := by
  cases hmode : translationMode c.csrs c.prv type with
  | none =>
    rw [v2p_none hmode] at hk ⊢
    refine ⟨htlb, fun pa hpa => ?_⟩
    unfold Trans
    rw [hmode]
    exact (Except.ok.inj hpa).symm
  | some mode =>
    by_cases hv : (c.tlb mode type (tlbIdx (va >>> 12))).vpn = va >>> 12
    · rw [v2p_hit hmode hv]
      refine ⟨htlb, fun pa hpa => ?_⟩
      cases hpa
      -- a hit: the entry is right by the invariant
      exact htlb mode type va hmode hv
    · rw [v2p_miss hmode hv] at hk ⊢
      rcases hw : (Mmu.walk (c.memIf bus hart) c.csrs va type mode).run' c.world with ⟨t | pa, w⟩
      · rw [hw] at hk
        exact ⟨htlb.kept hk rfl rfl rfl, by nofun⟩
      · rw [hw] at hk
        -- a miss that succeeds: the walk gives the address of the tables, which it did not change
        have hknown := World.walk_ok (hram (mode_ne_bare hmode)) hw (hk (mode_ne_bare hmode))
        have htrans : ({ c with
            world := w
            tlb := c.tlb.set mode type (tlbIdx (va >>> 12)) ⟨pageOf pa, va >>> 12⟩ } :
              Core δ).Trans bus va type pa := by
          unfold Trans
          dsimp only
          rw [hmode]
          exact hknown
        refine ⟨fun mode' type' va' hmode' hvpn => ?_, fun pa' hpa => ?_⟩
        · dsimp only at hmode' hvpn ⊢
          -- the new entry, for every address of its page, and the old ones
          by_cases hsame : mode' = mode ∧ type' = type ∧ tlbIdx (va' >>> 12) = tlbIdx (va >>> 12)
          · obtain ⟨rfl, rfl, hidx⟩ := hsame
            rw [hidx, tlb_set_self] at hvpn ⊢
            exact htrans.page hvpn
          · rw [Tlb.set, if_neg hsame] at hvpn ⊢
            exact (htlb mode' type' va' hmode' hvpn).kept hk rfl rfl
        · cases hpa
          exact htrans

/-! ### Accesses of two machines -/

/-- An access to the address that a translation gives. -/
def withPaddr {α : Type} (r : Except SimulationTrap (BitVec 64) × Core δ)
    (f : BitVec 64 → World δ → Except SimulationTrap α × World δ) :
    Except SimulationTrap α × Core δ :=
  match r with
  | (.ok pa, c) => ((f pa c.world).1, { c with world := (f pa c.world).2 })
  | (.error t, c) => (.error t, c)

/-- The access writes the world only; registers, buffers and caches of the core are those after the
translation. -/
theorem withPaddr_frame {α : Type} (r : Except SimulationTrap (BitVec 64) × Core δ)
    (f : BitVec 64 → World δ → Except SimulationTrap α × World δ) :
    (withPaddr r f).2 = { r.2 with world := (withPaddr r f).2.world } := by
  rcases r with ⟨t | pa, c⟩ <;> rfl

section Frame

variable {α : Type} {r : Except SimulationTrap (BitVec 64) × Core δ}
  {f : BitVec 64 → World δ → Except SimulationTrap α × World δ}

theorem withPaddr_csrs : (withPaddr r f).2.csrs = r.2.csrs := by rw [withPaddr_frame]

theorem withPaddr_prv : (withPaddr r f).2.prv = r.2.prv := by rw [withPaddr_frame]

theorem withPaddr_dmi : (withPaddr r f).2.dmi = r.2.dmi := by rw [withPaddr_frame]

theorem withPaddr_lscache : (withPaddr r f).2.lscache = r.2.lscache := by rw [withPaddr_frame]

end Frame

theorem loadData_eq (c : Core δ) (va : BitVec 64) (n : Width) :
    c.loadData bus hart va n = withPaddr (c.v2p bus hart va .load)
      fun pa w => (w.waitForAccessRights hart).loadNow bus c.dmi.dmiRanges pa n := by
  have h := @v2p_dmi _ bus hart c va .load
  unfold loadData withPaddr
  rcases hr : c.v2p bus hart va .load with ⟨t | pa, c'⟩
  · rfl
  · rw [hr] at h
    dsimp only at h ⊢
    rw [← h]
    rfl

theorem storeData_eq (c : Core δ) (va : BitVec 64) (n : Width) (v : BitVec 64) :
    c.storeData bus hart va n v = withPaddr (c.v2p bus hart va .store)
      fun pa w => (w.waitForAccessRights hart).storeNow bus hart c.dmi.dmiRanges pa n v := by
  have h := @v2p_dmi _ bus hart c va .store
  unfold storeData withPaddr
  rcases hr : c.v2p bus hart va .store with ⟨t | pa, c'⟩
  · rfl
  · rw [hr] at h
    dsimp only at h ⊢
    rw [← h]
    rfl

/-- The two machines: what they share, and what their buffers and the cache have kept. -/
structure Sim (bus : Bus δ) (c d : Core δ) : Prop where
  world : c.world = d.world
  csrs : c.csrs = d.csrs
  prv : c.prv = d.prv
  dmi : c.dmi = d.dmi
  tlb : c.TlbOk bus
  tlb' : d.TlbOk bus
  ls : c.LsOk bus
  aligned : ∀ e ∈ d.dmi.dmiRanges ++ d.dmi.dmiRangesDisabled, e.PageAligned

variable {d : Core δ}

theorem Sim.walked (h : Sim bus c d) (va : BitVec 64) (type : MemoryAccessType) :
    c.walked bus hart va type = d.walked bus hart va type := by
  unfold Core.walked memIf
  rw [h.world, h.csrs, h.prv, h.dmi]

theorem Sim.tables (h : Sim bus c d) : c.tables bus = d.tables bus := by
  unfold Core.tables
  rw [h.world, h.dmi]

theorem Sim.trans (h : Sim bus c d) (htr : c.Trans bus va type pa) : d.Trans bus va type pa := by
  unfold Trans at htr ⊢
  rw [← h.csrs, ← h.prv, ← h.tables]
  exact htr

theorem Sim.pageAligned (h : Sim bus c d) : ∀ e ∈ c.dmi.dmiRanges, e.PageAligned := by
  intro e he
  rw [h.dmi] at he
  exact h.aligned e (List.mem_append_left _ he)

theorem Sim.inRam (h : Sim bus c d) (hr : d.TablesInRam bus) : c.TablesInRam bus := by
  unfold TablesInRam
  rw [h.tables, h.csrs, h.dmi]
  exact hr

/-- Both machines translate alike: the answers agree, and so does the memory that the walks leave. -/
theorem Sim.v2p (h : Sim bus c d) (hr : d.TablesInRam bus) (va : BitVec 64)
    (type : MemoryAccessType) :
    (c.v2p bus hart va type).1 = (d.v2p bus hart va type).1 ∧
      (c.v2p bus hart va type).2.world.waitForAccessRights hart =
        (d.v2p bus hart va type).2.world.waitForAccessRights hart ∧
      ∀ t, (d.v2p bus hart va type).1 = .error t →
        (c.v2p bus hart va type).2.world = (d.v2p bus hart va type).2.world := by
  obtain ⟨hc1, hc2, hc3⟩ := @v2p_walked _ _ hart _ (h.inRam hr) h.tlb va type
  obtain ⟨hd1, hd2, hd3⟩ := @v2p_walked _ _ hart _ hr h.tlb' va type
  rw [h.walked] at hc1 hc2 hc3
  refine ⟨hc1.trans hd1.symm, hc2.trans hd2.symm, fun t ht => ?_⟩
  rw [hd1] at ht
  exact (hc3 t ht).trans (hd3 t ht).symm

/-- Both machines access alike: the same translation, and then the same access to the same memory. -/
theorem Sim.withPaddr {α : Type} (h : Sim bus c d) (hr : d.TablesInRam bus)
    (g : BitVec 64 → World δ → Except SimulationTrap α × World δ) (va : BitVec 64)
    (type : MemoryAccessType) :
    let f := fun pa w => g pa (w.waitForAccessRights hart)
    (Core.withPaddr (c.v2p bus hart va type) f).1 = (Core.withPaddr (d.v2p bus hart va type) f).1 ∧
      (Core.withPaddr (c.v2p bus hart va type) f).2.world =
        (Core.withPaddr (d.v2p bus hart va type) f).2.world := by
  obtain ⟨h1, h2, h3⟩ := @Sim.v2p _ _ hart _ _ h hr va type
  unfold Core.withPaddr
  generalize c.v2p bus hart va type = rc, d.v2p bus hart va type = rd at h1 h2 h3 ⊢
  rcases rc with ⟨t | pa, c'⟩ <;> rcases rd with ⟨t' | pa', d'⟩
  · cases h1
    exact ⟨rfl, h3 _ rfl⟩
  · cases h1
  · cases h1
  · cases h1
    dsimp only at h2 ⊢
    rw [h2]
    exact ⟨rfl, rfl⟩

/-- An access to the end: what was kept stays right, and the translation that was used is right. -/
theorem TlbOk.withPaddr {α : Type} {f : BitVec 64 → World δ → Except SimulationTrap α × World δ}
    (hram : c.TablesInRam bus) (htlb : c.TlbOk bus)
    (hk : c.TablesKept bus (c.v2p bus hart va type).2)
    (hk' : (c.v2p bus hart va type).2.TablesKept bus (Core.withPaddr (c.v2p bus hart va type) f).2) :
    (Core.withPaddr (c.v2p bus hart va type) f).2.TlbOk bus ∧
      ∀ x, (Core.withPaddr (c.v2p bus hart va type) f).1 = .ok x → ∃ pa,
        (Core.withPaddr (c.v2p bus hart va type) f).2.Trans bus va type pa ∧
        (f pa (c.v2p bus hart va type).2.world).1 = .ok x := by
  obtain ⟨h1, h2⟩ := htlb.v2p hram hk
  unfold Core.withPaddr at hk' ⊢
  generalize c.v2p bus hart va type = rc at h1 h2 hk' ⊢
  rcases rc with ⟨t | pa, c'⟩
  · exact ⟨h1, by nofun⟩
  · exact ⟨h1.kept hk' rfl rfl rfl, fun x hx => ⟨pa, (h2 pa rfl).kept hk' rfl rfl, hx⟩⟩

/-- The machines after an access of both to the data memory. -/
theorem Sim.access {α : Type} (h : Sim bus c d) (hr : d.TablesInRam bus)
    {g : BitVec 64 → World δ → Except SimulationTrap α × World δ}
    {f : BitVec 64 → World δ → Except SimulationTrap α × World δ}
    (hf : f = fun pa w => g pa (w.waitForAccessRights hart))
    (hk : d.TablesKept bus (d.v2p bus hart va type).2)
    (hk' : (d.v2p bus hart va type).2.TablesKept bus (Core.withPaddr (d.v2p bus hart va type) f).2) :
    (Core.withPaddr (c.v2p bus hart va type) f).1 = (Core.withPaddr (d.v2p bus hart va type) f).1 ∧
      Sim bus (Core.withPaddr (c.v2p bus hart va type) f).2
        (Core.withPaddr (d.v2p bus hart va type) f).2 ∧
      ∀ x, (Core.withPaddr (c.v2p bus hart va type) f).1 = .ok x → ∃ pa w,
        (Core.withPaddr (c.v2p bus hart va type) f).2.Trans bus va type pa ∧ (g pa w).1 = .ok x := by
  obtain ⟨h1, h2⟩ := @Sim.withPaddr _ _ hart _ _ _ h hr g va type
  obtain ⟨-, hwait, -⟩ := @Sim.v2p _ _ hart _ _ h hr va type
  rw [← hf] at h1 h2
  have hmid : (c.v2p bus hart va type).2.tables bus = (d.v2p bus hart va type).2.tables bus := by
    unfold Core.tables
    rw [World.word_eq_of_wait hwait, v2p_dmi, v2p_dmi, h.dmi]
  have hend : (Core.withPaddr (c.v2p bus hart va type) f).2.tables bus =
      (Core.withPaddr (d.v2p bus hart va type) f).2.tables bus := by
    unfold Core.tables
    rw [h2, withPaddr_dmi, withPaddr_dmi, v2p_dmi, v2p_dmi, h.dmi]
  -- the conditions hold of the first machine, too
  have hck : c.TablesKept bus (c.v2p bus hart va type).2 := hk.congr h.csrs h.tables hmid
  have hck' := hk'.congr (by rw [v2p_csrs, v2p_csrs, h.csrs]) hmid hend
  obtain ⟨htlb, hok⟩ := h.tlb.withPaddr (h.inRam hr) hck hck'
  refine ⟨h1, ?_, fun x hx => ?_⟩
  · refine ⟨h2, ?_, ?_, ?_, htlb, (h.tlb'.withPaddr hr hk hk').1, ?_, ?_⟩
    · rw [withPaddr_csrs, withPaddr_csrs, v2p_csrs, v2p_csrs, h.csrs]
    · rw [withPaddr_prv, withPaddr_prv, v2p_prv, v2p_prv, h.prv]
    · rw [withPaddr_dmi, withPaddr_dmi, v2p_dmi, v2p_dmi, h.dmi]
    · have hls := h.ls.kept hck v2p_csrs v2p_prv v2p_dmi v2p_lscache
      exact hls.kept hck' withPaddr_csrs withPaddr_prv withPaddr_dmi withPaddr_lscache
    · rw [withPaddr_dmi, v2p_dmi]
      exact h.aligned
  · obtain ⟨pa, htr, hx'⟩ := hok x hx
    exact ⟨pa, _, htr, by rw [← hx', hf]⟩

/-! ### What the cache keeps -/

theorem pageOffset_leafAddr (ppn va : BitVec 64) (ptshift : ℕ) :
    pageOffset (leafAddr ppn va ptshift) = pageOffset va := by
  unfold leafAddr
  dsimp only
  rw [← pageOf_shift _ va]
  exact pageOffset_or _ _

theorem Trans.offset (h : c.Trans bus va type pa) : pageOffset pa = pageOffset va := by
  unfold Trans at h
  cases hmode : translationMode c.csrs c.prv type with
  | none =>
    rw [hmode] at h
    rw [show pa = va from h]
  | some mode =>
    rw [hmode] at h
    obtain ⟨l, -, -, -, -, rfl⟩ := h
    exact pageOffset_leafAddr _ _ _

/-- `v2p` of an address that needs no update. -/
theorem v2p_of_trans (hram : c.TablesInRam bus) (htlb : c.TlbOk bus) (h : c.Trans bus va type pa) :
    (c.v2p bus hart va type).1 = .ok pa ∧
      (c.v2p bus hart va type).2.world.waitForAccessRights hart =
        c.world.waitForAccessRights hart := by
  obtain ⟨h1, h2, -⟩ := @v2p_walked _ _ hart _ hram htlb va type
  unfold walked at h1 h2
  unfold Trans at h
  cases hmode : translationMode c.csrs c.prv type with
  | none =>
    rw [hmode] at h h1 h2
    obtain rfl : pa = va := h
    exact ⟨h1, h2⟩
  | some mode =>
    rw [hmode] at h h1 h2
    unfold memIf at h1 h2
    dsimp only at h1 h2
    rw [World.walk_known (hram (mode_ne_bare hmode)) h] at h1 h2
    exact ⟨h1, h2.trans (World.wait_wait _ _)⟩

/-- Adding the host page of an access that has been made. -/
theorem LsOk.tryAddToCache (h : c.LsOk bus) (htype : type ≠ .fetch) (htr : c.Trans bus va type pa)
    (hal : ∀ e ∈ c.dmi.dmiRanges, e.PageAligned) {last : Option HostAddr}
    (hlast : ∀ p, last = some p → ∃ e, (c.dmi.dmiRanges.find? fun e => e.contains pa) = some e ∧
      p = e.getMemPtrToGlobalAddr (pageOf pa)) :
    ({ c with lscache := c.lscache.tryAddToCache va last (LsCache.validBits type) } :
      Core δ).LsOk bus := by
  unfold LsCache.tryAddToCache
  dsimp only
  split
  · next hne =>
    split
    · cases last with
      | none => exact absurd rfl hne
      | some p =>
        obtain ⟨e, hf, hp⟩ := hlast p rfl
        intro type' va' htype' hhit
        rcases LsCache.hits_update hhit with ⟨hidx, hold⟩ | ⟨hidx, hpage, hst⟩
        · obtain ⟨pa', e', htr', hf', hp'⟩ := h type' va' htype' hold
          refine ⟨pa', e', htr', hf', ?_⟩
          show (Function.update c.lscache.cache _ _ (LsCache.idx va')).hostPageAddr = _
          rw [Function.update_of_ne hidx]
          exact hp'
        · refine ⟨pageOf pa ||| pageOffset va', e, ?_, ?_, ?_⟩
          · -- an entry for stores answers loads, too
            have htr' := htr.page hpage
            cases type' with
            | fetch => exact absurd rfl htype'
            | store =>
              cases hst rfl
              exact htr'
            | load =>
              cases type with
              | fetch => exact absurd rfl htype
              | load => exact htr'
              | store => exact Trans.load htr'
          · dsimp only
            rw [← MemoryDMI.find?_pageOf hal, pageOf_or, MemoryDMI.find?_pageOf hal]
            exact hf
          · show (Function.update c.lscache.cache _ _ (LsCache.idx va')).hostPageAddr = _
            rw [hidx, Function.update_self, pageOf_or]
            exact hp
    · exact h
  · exact h

theorem loadNow_dmi {ranges : List MemoryDMI} {w : World δ} {n : Width} {e : MemoryDMI}
    (h : (ranges.find? fun e => e.contains pa) = some e) :
    w.loadNow bus ranges pa n = (.ok (w.host.load (e.getMemPtrToGlobalAddr pa) n.bytes,
      some (e.getMemPtrToGlobalAddr (pageOf pa))), w) := by
  rw [World.loadNow, h]

theorem storeNow_dmi {ranges : List MemoryDMI} {w : World δ} {n : Width} {v : BitVec 64}
    {e : MemoryDMI} (h : (ranges.find? fun e => e.contains pa) = some e) :
    w.storeNow bus hart ranges pa n v = (.ok (some (e.getMemPtrToGlobalAddr (pageOf pa))),
      { w with host := w.host.store (e.getMemPtrToGlobalAddr pa) n.bytes v }.unlock hart) := by
  rw [World.storeNow, h]

theorem host_of_loadNow {ranges : List MemoryDMI} {w : World δ} {n : Width} {v : BitVec 64}
    {last : Option HostAddr} (h : (w.loadNow bus ranges pa n).1 = .ok (v, last)) :
    ∀ p, last = some p → ∃ e, (ranges.find? fun e => e.contains pa) = some e ∧
      p = e.getMemPtrToGlobalAddr (pageOf pa) := by
  rintro p rfl
  cases hf : ranges.find? fun e => e.contains pa with
  | some e =>
    rw [loadNow_dmi hf] at h
    cases h
    exact ⟨e, rfl, rfl⟩
  | none =>
    unfold World.loadNow at h
    rw [hf] at h
    dsimp only at h
    split at h <;> cases h

theorem host_of_storeNow {ranges : List MemoryDMI} {w : World δ} {n : Width} {v : BitVec 64}
    {last : Option HostAddr} (h : (w.storeNow bus hart ranges pa n v).1 = .ok last) :
    ∀ p, last = some p → ∃ e, (ranges.find? fun e => e.contains pa) = some e ∧
      p = e.getMemPtrToGlobalAddr (pageOf pa) := by
  rintro p rfl
  cases hf : ranges.find? fun e => e.contains pa with
  | some e =>
    rw [storeNow_dmi hf] at h
    cases h
    exact ⟨e, rfl, rfl⟩
  | none =>
    unfold World.storeNow at h
    rw [hf] at h
    dsimp only at h
    split at h <;> cases h

theorem unlock_unlocked {w : World δ} (h : w.busLock.locked = false) : w.unlock hart = w := by
  rcases w with ⟨host, dev, ⟨locked, owner⟩⟩
  cases h
  rfl

/-- Both machines load from the data memory. -/
theorem Sim.loadData (h : Sim bus c d) (hr : d.TablesInRam bus) (n : Width)
    (hk : d.TablesKept bus (d.v2p bus hart va .load).2)
    (hk' : (d.v2p bus hart va .load).2.TablesKept bus (d.loadData bus hart va n).2) :
    (c.loadData bus hart va n).1 = (d.loadData bus hart va n).1 ∧
      Sim bus (c.loadData bus hart va n).2 (d.loadData bus hart va n).2 ∧
      ∀ v last, (c.loadData bus hart va n).1 = .ok (v, last) → ∃ pa,
        (c.loadData bus hart va n).2.Trans bus va .load pa ∧ ∀ p, last = some p →
          ∃ e, ((c.loadData bus hart va n).2.dmi.dmiRanges.find? fun e => e.contains pa) = some e ∧
            p = e.getMemPtrToGlobalAddr (pageOf pa) := by
  have hc := @loadData_eq _ bus hart c va n
  rw [h.dmi] at hc
  rw [loadData_eq d] at hk' ⊢
  rw [hc]
  obtain ⟨h1, hsim, hok⟩ :=
    h.access (g := fun pa w => w.loadNow bus d.dmi.dmiRanges pa n) hr rfl hk hk'
  refine ⟨h1, hsim, fun v last hv => ?_⟩
  obtain ⟨pa, w, htr, hw⟩ := hok _ hv
  refine ⟨pa, htr, ?_⟩
  rw [withPaddr_dmi, v2p_dmi, h.dmi]
  exact host_of_loadNow hw

/-- Both machines store to the data memory. -/
theorem Sim.storeData (h : Sim bus c d) (hr : d.TablesInRam bus) (n : Width) (v : BitVec 64)
    (hk : d.TablesKept bus (d.v2p bus hart va .store).2)
    (hk' : (d.v2p bus hart va .store).2.TablesKept bus (d.storeData bus hart va n v).2) :
    (c.storeData bus hart va n v).1 = (d.storeData bus hart va n v).1 ∧
      Sim bus (c.storeData bus hart va n v).2 (d.storeData bus hart va n v).2 ∧
      ∀ last, (c.storeData bus hart va n v).1 = .ok last → ∃ pa,
        (c.storeData bus hart va n v).2.Trans bus va .store pa ∧ ∀ p, last = some p →
          ∃ e, ((c.storeData bus hart va n v).2.dmi.dmiRanges.find? fun e => e.contains pa) = some e ∧
            p = e.getMemPtrToGlobalAddr (pageOf pa) := by
  have hc := @storeData_eq _ bus hart c va n v
  rw [h.dmi] at hc
  rw [storeData_eq d] at hk' ⊢
  rw [hc]
  obtain ⟨h1, hsim, hok⟩ :=
    h.access (g := fun pa w => w.storeNow bus hart d.dmi.dmiRanges pa n v) hr rfl hk hk'
  refine ⟨h1, hsim, fun last hv => ?_⟩
  obtain ⟨pa, w, htr, hw⟩ := hok _ hv
  refine ⟨pa, htr, ?_⟩
  rw [withPaddr_dmi, v2p_dmi, h.dmi]
  exact host_of_storeNow hw

/-- An access that needs no update, on a free bus: only the buffer changes before it. -/
theorem withPaddr_of_trans {α : Type} {f : BitVec 64 → World δ → Except SimulationTrap α × World δ}
    {g : BitVec 64 → World δ → Except SimulationTrap α × World δ}
    (hf : f = fun pa w => g pa (w.waitForAccessRights hart)) (hram : c.TablesInRam bus)
    (htlb : c.TlbOk bus) (hfree : c.world.busLock.locked = false) (htr : c.Trans bus va type pa) :
    (Core.withPaddr (c.v2p bus hart va type) f).1 = (g pa c.world).1 ∧
      (Core.withPaddr (c.v2p bus hart va type) f).2.world = (g pa c.world).2 := by
  obtain ⟨h1, h2⟩ := @v2p_of_trans _ _ hart _ _ _ _ hram htlb htr
  rw [World.wait_unlocked hfree] at h2
  generalize c.v2p bus hart va type = r at h1 h2 ⊢
  rcases r with ⟨t | pa', c'⟩
  · cases h1
  · cases h1
    subst hf
    dsimp only [Core.withPaddr] at h2 ⊢
    rw [h2]
    exact ⟨rfl, rfl⟩

theorem load_eq (c : Core δ) (op : LoadOp) (va : BitVec 64) :
    c.load bus hart op va = ((c.loadData bus hart va op.width).1.map fun x => (op.cast x.1, x.2),
      (c.loadData bus hart va op.width).2) := by
  rw [load]
  rcases c.loadData bus hart va op.width with ⟨t | ⟨v, h⟩, c'⟩ <;> rfl

end Core

/-! ### Runs -/

namespace LsCacheIf

open Core

variable {δ : Type}

/-- What happens to a hart: calls of the functions of the cache, `enable_datadmi`, and whatever other
harts and devices do, locking and unlocking the bus among it.  `fence_vma` comes with the changes of
the registers and of memory that software has made for a new translation regime. -/
inductive Event (δ : Type)
  | load (op : LoadOp) (addr : BitVec 64)
  | store (n : Width) (addr value : BitVec 64)
  | fenceVma (csrs : Csrs) (prv : PrivilegeLevel) (f : World δ → World δ)
  | enable (ena : Bool)
  | enableDatadmi (ena : Bool)
  | other (f : World δ → World δ)

/-- What a call answers: a trap, the value of a load, or nothing. -/
abbrev Answer := Option (Except SimulationTrap (Option (BitVec 64)))

/-- One event, with an implementation of the cache. -/
def step (ls : LsCacheIf δ) (c : Core δ) : Event δ → Answer × Core δ
  | .load op addr => let r := ls.load c op addr; (some (r.1.map some), r.2)
  | .store n addr value => let r := ls.store c n addr value; (some (r.1.map fun _ => none), r.2)
  | .fenceVma csrs prv f =>
    (none, ls.fenceVma { c with csrs := csrs, prv := prv, world := f c.world })
  | .enable ena => (none, ls.enable c ena)
  | .enableDatadmi ena => (none, ls.enableDatadmi c ena)
  | .other f => (none, { c with world := f c.world })

variable (bus : Bus δ) (hart : ℕ)

/-- The state between the translation of an access and the access. -/
def translated (c : Core δ) : Event δ → Core δ
  | .load _ addr => (c.v2p bus hart addr .load).2
  | .store _ addr _ => (c.v2p bus hart addr .store).2
  | _ => c

/-- The translation regime stays as it is: the page tables lie in memory, and neither the translation of
an access nor the access nor any other event but the fence changes them, except that accessed and dirty
bits are set. -/
def FixedRegime (c : Core δ) (e : Event δ) : Prop :=
  match e with
  | .fenceVma .. => True
  | e => c.TablesInRam bus ∧ c.TablesKept bus (translated bus hart c e) ∧
      (translated bus hart c e).TablesKept bus (step (dummy bus hart) c e).2

variable {bus hart} {c d : Core δ} {va : BitVec 64}

theorem dummy_load (d : Core δ) (op : LoadOp) (va : BitVec 64) :
    (dummy bus hart).load d op va = ((d.loadData bus hart va op.width).1.map fun x => op.cast x.1,
      (d.loadData bus hart va op.width).2) := by
  show (((d.load bus hart op va).1.map (·.1)), (d.load bus hart op va).2) = _
  rw [load_eq]
  rcases d.loadData bus hart va op.width with ⟨t | x, d'⟩ <;> rfl

/-- The answer and the machines after a load. -/
theorem sim_load (h : Sim bus c d) (op : LoadOp) (hfix : FixedRegime bus hart d (.load op va)) :
    (cachedLoad bus hart c op va).1 = ((dummy bus hart).load d op va).1 ∧
      Sim bus (cachedLoad bus hart c op va).2 ((dummy bus hart).load d op va).2 := by
  obtain ⟨hr, hk, hk'⟩ := hfix
  have hk'' : (d.v2p bus hart va .load).2.TablesKept bus (d.loadData bus hart va op.width).2 := by
    rw [← congrArg Prod.snd (dummy_load d op va)]
    exact hk'
  obtain ⟨h1, hsim, hok⟩ := h.loadData hr op.width hk hk''
  rw [dummy_load, cachedLoad]
  split
  · rw [load_eq]
    refine ⟨?_, hsim⟩
    dsimp only
    rw [h1]
    cases (d.loadData bus hart va op.width).1 <;> rfl
  next hlock =>
  have hfree : c.world.busLock.locked = false := by simpa using hlock
  dsimp only
  split
  · -- not found: the page is added after the access
    rw [load_eq]
    rw [← h1]
    rcases hres : c.loadData bus hart va op.width with ⟨t | ⟨v, last⟩, c'⟩
    · rw [hres] at hsim
      exact ⟨rfl, hsim⟩
    · rw [hres] at hsim hok
      obtain ⟨pa, htr, hlast⟩ := hok v last rfl
      have hls := hsim.ls.tryAddToCache (by decide) htr hsim.pageAligned hlast
      exact ⟨congrArg Except.ok (op.cast_cast v), { hsim with ls := hls, tlb := hsim.tlb }⟩
  · -- found: the host page is that of the translation
    next hne =>
    obtain ⟨hhit, haddr⟩ := LsCache.tryGetFromCacheLoad_eq _ _ hne
    obtain ⟨pa, e, htr, hf, hp⟩ := h.ls .load va (by decide) hhit
    have hfree' : d.world.busLock.locked = false := h.world ▸ hfree
    obtain ⟨g1, g2⟩ := @withPaddr_of_trans _ _ hart _ _ _ _ _ _
      (fun pa w => w.loadNow bus d.dmi.dmiRanges pa op.width) rfl hr h.tlb' hfree' (h.trans htr)
    rw [← loadData_eq, loadNow_dmi (h.dmi ▸ hf)] at g1 g2
    refine ⟨?_, { hsim with
      world := h.world.trans g2.symm, csrs := ?_, prv := ?_, dmi := ?_, tlb := h.tlb, ls := h.ls }⟩
    · rw [g1, haddr, hp, ← htr.offset, MemoryDMI.getMemPtrToGlobalAddr_page, h.world]
      rfl
    · rw [h.csrs, loadData_eq, withPaddr_csrs, v2p_csrs]
    · rw [h.prv, loadData_eq, withPaddr_prv, v2p_prv]
    · rw [h.dmi, loadData_eq, withPaddr_dmi, v2p_dmi]

/-- The answer and the machines after a store. -/
theorem sim_store (h : Sim bus c d) (n : Width) (v : BitVec 64)
    (hfix : FixedRegime bus hart d (.store n va v)) :
    (cachedStore bus hart c n va v).1 = ((dummy bus hart).store d n va v).1 ∧
      Sim bus (cachedStore bus hart c n va v).2 ((dummy bus hart).store d n va v).2 := by
  obtain ⟨hr, hk, hk'⟩ := hfix
  have hk'' : (d.v2p bus hart va .store).2.TablesKept bus (d.storeData bus hart va n v).2 := hk'
  obtain ⟨h1, hsim, hok⟩ := h.storeData hr n v hk hk''
  have hd : (dummy bus hart).store d n va v =
      ((d.storeData bus hart va n v).1.map fun _ => (), (d.storeData bus hart va n v).2) := rfl
  rw [hd, cachedStore]
  split
  · exact ⟨congrArg (Except.map fun _ => ()) h1, hsim⟩
  next hlock =>
  have hfree : c.world.busLock.locked = false := by simpa using hlock
  dsimp only
  split
  · -- not found: the page is added after the access
    rw [← h1]
    rcases hres : c.storeData bus hart va n v with ⟨t | last, c'⟩
    · rw [hres] at hsim
      exact ⟨rfl, hsim⟩
    · rw [hres] at hsim hok
      obtain ⟨pa, htr, hlast⟩ := hok last rfl
      have hls := hsim.ls.tryAddToCache (by decide) htr hsim.pageAligned hlast
      exact ⟨rfl, { hsim with ls := hls, tlb := hsim.tlb }⟩
  · -- found: the host page is that of the translation
    next hne =>
    obtain ⟨hhit, haddr⟩ := LsCache.tryGetFromCacheStore_eq _ _ hne
    obtain ⟨pa, e, htr, hf, hp⟩ := h.ls .store va (by decide) hhit
    have hfree' : d.world.busLock.locked = false := h.world ▸ hfree
    obtain ⟨g1, g2⟩ := @withPaddr_of_trans _ _ hart _ _ _ _ _ _
      (fun pa w => w.storeNow bus hart d.dmi.dmiRanges pa n v) rfl hr h.tlb' hfree' (h.trans htr)
    rw [← storeData_eq, storeNow_dmi (h.dmi ▸ hf)] at g1 g2
    have hworld : { c.world with
        host := c.world.host.store (c.lscache.tryGetFromCacheStore va) n.bytes v } =
        (d.storeData bus hart va n v).2.world := by
      rw [haddr, hp, ← htr.offset, MemoryDMI.getMemPtrToGlobalAddr_page, h.world]
      exact (g2.trans (unlock_unlocked hfree')).symm
    -- the tables are those before the translation, which changed nothing
    obtain ⟨-, hwait⟩ := @v2p_of_trans _ _ hart _ _ _ _ hr h.tlb' (h.trans htr)
    have hmid : c.tables bus = (d.v2p bus hart va .store).2.tables bus := by
      rw [h.tables]
      unfold Core.tables
      rw [World.word_eq_of_wait hwait, v2p_dmi]
    have hdmi : c.dmi = (d.storeData bus hart va n v).2.dmi := by
      rw [h.dmi, storeData_eq, withPaddr_dmi, v2p_dmi]
    have hkept := @TablesKept.congr _ _ c { c with world := { c.world with
      host := c.world.host.store (c.lscache.tryGetFromCacheStore va) n.bytes v } } _ _ hk''
      (by rw [h.csrs, v2p_csrs]) hmid (by unfold Core.tables; rw [hworld, hdmi])
    refine ⟨by rw [g1]; rfl, { hsim with
      world := hworld, csrs := ?_, prv := ?_, dmi := hdmi
      tlb := h.tlb.kept hkept rfl rfl rfl, ls := h.ls.kept hkept rfl rfl rfl rfl }⟩
    · show c.csrs = _
      rw [h.csrs, storeData_eq, withPaddr_csrs, v2p_csrs]
    · show c.prv = _
      rw [h.prv, storeData_eq, withPaddr_prv, v2p_prv]

theorem lsOk_flush (c : Core δ) : ({ c with lscache := c.lscache.flush } : Core δ).LsOk bus :=
  fun type va _ hhit => absurd hhit (LsCache.not_hits_flush _ type va)

theorem tlbOk_flush (c : Core δ) : c.flushTlb.TlbOk bus := by
  intro mode type va _ hv
  have hlsb := congrArg (fun v => BitVec.getLsbD v 63) hv
  simp [flushTlb, Mmu.Tlb.flush] at hlsb

/-- The machines after enabling or disabling the cache. -/
theorem sim_enable (h : Sim bus c d) (ena : Bool) :
    Sim bus ((functional bus hart).enable c ena) ((dummy bus hart).enable d ena) := by
  show Sim bus { c with lscache := c.lscache.enable ena }
    { d with lscache := { d.lscache with enabled := ena } }
  have hls : ({ c with lscache := c.lscache.enable ena } : Core δ).LsOk bus := by
    unfold LsCache.enable
    split
    · exact h.ls
    · split
      · exact fun type va htype hhit => h.ls type va htype hhit
      · exact fun type va _ hhit =>
          absurd hhit (LsCache.not_hits_flush { c.lscache with enabled := ena } type va)
  exact { h with ls := hls, tlb := h.tlb, tlb' := h.tlb' }

theorem mem_dmiEnable {d : DmiRanges} {ena : Bool} {e : MemoryDMI}
    (h : e ∈ (d.dmiEnable ena).dmiRanges ++ (d.dmiEnable ena).dmiRangesDisabled) :
    e ∈ d.dmiRanges ++ d.dmiRangesDisabled := by
  unfold DmiRanges.dmiEnable at h
  split at h
  · exact h
  · exact List.mem_append.mpr (List.mem_append.mp h).symm

theorem dmiEnable_dmiEnabled (d : DmiRanges) (ena : Bool) : (d.dmiEnable ena).dmiEnabled = ena := by
  unfold DmiRanges.dmiEnable
  split
  · next h => exact h.symm
  · rfl

/-- The machines after enabling or disabling DMI.  While it is disabled the cache is empty. -/
theorem sim_enableDatadmi (h : Sim bus c d) (ena : Bool)
    (hk : d.TablesKept bus (enableDatadmi (dummy bus hart) d ena)) :
    Sim bus (enableDatadmi (functional bus hart) c ena) (enableDatadmi (dummy bus hart) d ena) := by
  have hd : enableDatadmi (dummy bus hart) d ena = { d with dmi := d.dmi.dmiEnable ena } := by
    unfold enableDatadmi
    dsimp only
    split <;> rfl
  rw [hd] at hk ⊢
  have hal : ∀ e ∈ (d.dmi.dmiEnable ena).dmiRanges ++ (d.dmi.dmiEnable ena).dmiRangesDisabled,
      e.PageAligned := fun e he => h.aligned e (mem_dmiEnable he)
  have htlb' : ({ d with dmi := d.dmi.dmiEnable ena } : Core δ).TlbOk bus :=
    h.tlb'.kept hk rfl rfl rfl
  have hck : c.TablesKept bus ({ c with dmi := c.dmi.dmiEnable ena } : Core δ) := by
    refine hk.congr h.csrs h.tables ?_
    unfold Core.tables
    rw [h.world, h.dmi]
  have htlb : ({ c with dmi := c.dmi.dmiEnable ena } : Core δ).TlbOk bus :=
    h.tlb.kept hck rfl rfl rfl
  unfold enableDatadmi
  dsimp only
  split
  · exact ⟨h.world, h.csrs, h.prv, congrArg (·.dmiEnable ena) h.dmi, htlb, htlb',
      lsOk_flush { c with dmi := c.dmi.dmiEnable ena }, hal⟩
  · next hen =>
    rw [dmiEnable_dmiEnabled] at hen
    obtain rfl : ena = true := by simpa using hen
    refine ⟨h.world, h.csrs, h.prv, congrArg (·.dmiEnable true) h.dmi, htlb, htlb', ?_, hal⟩
    by_cases hold : c.dmi.dmiEnabled = true
    · have hsame : c.dmi.dmiEnable true = c.dmi := by
        rw [DmiRanges.dmiEnable, dif_pos hold.symm]
      rw [hsame]
      exact h.ls
    · -- it was disabled: there was no range, so there is no entry
      have hnil : c.dmi.dmiRanges = [] := by
        have := c.dmi.oneEmpty
        rwa [if_neg hold] at this
      intro type va htype hhit
      obtain ⟨pa, e, -, hf, -⟩ := h.ls type va htype hhit
      rw [hnil] at hf
      cases hf

/-- Every event gives the same answer and keeps the machines related. -/
theorem sim_step (h : Sim bus c d) (e : Event δ) (hfix : FixedRegime bus hart d e) :
    (step (functional bus hart) c e).1 = (step (dummy bus hart) d e).1 ∧
      Sim bus (step (functional bus hart) c e).2 (step (dummy bus hart) d e).2 := by
  cases e with
  | load op va =>
    obtain ⟨h1, h2⟩ := sim_load h op hfix
    exact ⟨congrArg (fun r : Except SimulationTrap (BitVec 64) => some (r.map some)) h1, h2⟩
  | store n va v =>
    obtain ⟨h1, h2⟩ := sim_store h n v hfix
    exact ⟨congrArg (fun r : Except SimulationTrap Unit => some (r.map fun _ => none)) h1, h2⟩
  | fenceVma csrs prv f =>
    refine ⟨rfl, congrArg f h.world, rfl, rfl, h.dmi, tlbOk_flush _, tlbOk_flush _, ?_, h.aligned⟩
    exact fun type va _ hhit => absurd hhit (LsCache.not_hits_flush _ type va)
  | enable ena => exact ⟨rfl, @sim_enable _ _ hart _ _ h ena⟩
  | enableDatadmi ena => exact ⟨rfl, sim_enableDatadmi h ena hfix.2.2⟩
  | other f =>
    have hk : d.TablesKept bus ({ d with world := f d.world } : Core δ) := hfix.2.2
    have hck : c.TablesKept bus ({ c with world := f c.world } : Core δ) := by
      refine hk.congr h.csrs h.tables ?_
      unfold Core.tables
      rw [h.world, h.dmi]
    exact ⟨rfl, congrArg f h.world, h.csrs, h.prv, h.dmi, h.tlb.kept hck rfl rfl rfl,
      h.tlb'.kept hk rfl rfl rfl, h.ls.kept hck rfl rfl rfl rfl, h.aligned⟩

/-- If addresses are translated, nothing but accessed and dirty bits of the page tables of `c` has
changed.  They may have been cleared. -/
def OnlyAD (bus : Bus δ) (c c' : Core δ) : Prop :=
  c.csrs.satp.mode ≠ .bare → ∀ a, (c.tables bus).Entry (decodeVmInfo c.csrs.satp) a → ∀ v,
    c.tables bus a = .ok v → ∃ w, c'.tables bus a = .ok w ∧ Mmu.maskAD w = Mmu.maskAD v

/-- `FixedRegime` for software that clears accessed and dirty bits without a fence. -/
def FixedRegimeAD (bus : Bus δ) (hart : ℕ) (c : Core δ) (e : Event δ) : Prop :=
  match e with
  | .fenceVma .. => True
  | e => c.TablesInRam bus ∧ OnlyAD bus c (translated bus hart c e) ∧
      OnlyAD bus (translated bus hart c e) (step (dummy bus hart) c e).2

/-! ### A gigabyte page that is mapped to itself -/

namespace Gigapage

/-- 16 KiB of memory at address zero. -/
def dmi : MemoryDMI := ⟨0x10000, 0, 0x4000, MemoryDMI.nonempty_16K⟩

/-- The table at `0x1000` has one leaf, whose low byte is given: the first gigabyte for supervisor mode,
readable and writable. -/
def host (flags : BitVec 8) : Host := fun a => if a = 0x11000 then flags else 0

/-- Supervisor mode on Sv39 after a fence, with the accessed and the dirty bit set. -/
def start : Core Unit :=
  { world := { host := host 0xC7, dev := (), busLock := ⟨false, 0⟩ }
    csrs := { Csrs.reset with satp := ⟨1, 0, .sv39⟩ }
    prv := .supervisor
    tlb := Mmu.Tlb.flush
    dmi := ⟨true, [dmi], [], rfl⟩
    lscache := ⟨true, fun _ => ⟨0, 0⟩⟩ }

/-- The words of the table. -/
def tableIs (leaf : BitVec 64) (h : Host) : Prop :=
  ∀ i : Fin 512, h.load (0x11000 + BitVec.ofNat 64 (8 * i)) 8 = if (i : ℕ) = 0 then leaf else 0

instance (leaf : BitVec 64) (h : Host) : Decidable (tableIs leaf h) :=
  inferInstanceAs (Decidable (∀ _ : Fin 512, _))

/-- The address of an entry. -/
def entry (i : Fin 512) : BitVec 64 := 0x1000 + BitVec.ofNat 64 (8 * i)

theorem word_entry (w : World Unit) (i : Fin 512) : w.word Bus.empty [dmi] (entry i) =
    .ok (w.host.load (0x11000 + BitVec.ofNat 64 (8 * i)) 8) := by
  have hdmi : ∀ i : Fin 512, dmi.contains (entry i) = true ∧
      dmi.getMemPtrToGlobalAddr (entry i) = 0x11000 + BitVec.ofNat 64 (8 * i) := by decide +kernel
  have hf : ([dmi].find? fun e => e.contains (entry i)) = some dmi := by
    rw [List.find?_cons, (hdmi i).1]
  unfold World.word
  rw [loadNow_dmi hf, (hdmi i).2]
  rfl

theorem ptePaddr_eq (vaddr : BitVec 64) : ∃ i, Mmu.ptePaddr 9 8 vaddr 2 0x1000 = entry i := by
  have hx : (vaddr >>> 30 &&& 511).toNat < 512 := by
    rw [BitVec.toNat_and]
    exact Nat.lt_succ_of_le Nat.and_le_right
  refine ⟨⟨_, hx⟩, ?_⟩
  show (0x1000 : BitVec 64) + (vaddr >>> 30 &&& 511) * 8 = _
  unfold entry
  generalize vaddr >>> 30 &&& 511 = x at hx ⊢
  bv_omega

/-- The only table is the root, so the walk of the example reads one entry. -/
theorem reach_root {w : World Unit} {leaf : BitVec 64} (h : tableIs leaf w.host)
    (hleaf : Mmu.isPointer ⟨leaf⟩ = false) {vm : VmInfo} (hvm : vm = ⟨3, 9, 8, 0x1000⟩) {n : ℕ}
    {base : BitVec 64} (hr : (w.word Bus.empty [dmi]).Reach vm n base) : n = 3 ∧ base = 0x1000 := by
  subst hvm
  induction hr with
  | root => exact ⟨rfl, rfl⟩
  | @next n base v vaddr hr hv hp ih =>
    obtain ⟨hn, rfl⟩ := ih
    obtain rfl : n = 2 := by omega
    obtain ⟨i, hi⟩ := ptePaddr_eq vaddr
    dsimp only at hv
    rw [hi, word_entry, h i] at hv
    cases hv
    split at hp
    · rw [hleaf] at hp
      cases hp
    · cases hp

theorem entry_of {w : World Unit} {leaf a : BitVec 64} (h : tableIs leaf w.host)
    (hleaf : Mmu.isPointer ⟨leaf⟩ = false) {vm : VmInfo} (hvm : vm = ⟨3, 9, 8, 0x1000⟩)
    (ha : (w.word Bus.empty [dmi]).Entry vm a) : ∃ i, a = entry i := by
  obtain ⟨n, base, vaddr, hr, rfl⟩ := ha
  obtain ⟨hn, rfl⟩ := reach_root h hleaf hvm hr
  obtain rfl : n = 2 := by omega
  subst hvm
  exact ptePaddr_eq vaddr

theorem tablesInRam (c : Core Unit) (hdmi : c.dmi.dmiRanges = [dmi]) : c.TablesInRam Bus.empty := by
  intro _ a _ v hv
  unfold Core.tables World.word World.loadNow at hv
  rw [hdmi] at hv ⊢
  cases hf : [dmi].find? fun e => e.contains a with
  | some e => exact .inl (by rw [hf]; rfl)
  | none =>
    rw [hf] at hv
    cases hv

section Kept

variable {c c' : Core Unit} {leaf leaf' : BitVec 64} (h : tableIs leaf c.world.host)
  (h' : tableIs leaf' c'.world.host) (hleaf : Mmu.isPointer ⟨leaf⟩ = false)
  (hsatp : decodeVmInfo c.csrs.satp = ⟨3, 9, 8, 0x1000⟩) (hdmi : c.dmi.dmiRanges = [dmi])
  (hdmi' : c'.dmi.dmiRanges = [dmi])

include h h' hleaf hsatp hdmi hdmi'

/-- The entries in two states with tables. -/
theorem tables_entry {a v : BitVec 64}
    (ha : (c.tables Bus.empty).Entry (decodeVmInfo c.csrs.satp) a) (hv : c.tables Bus.empty a = .ok v) :
    (v = leaf ∧ c'.tables Bus.empty a = .ok leaf') ∨ (v = 0 ∧ c'.tables Bus.empty a = .ok 0) := by
  unfold Core.tables at ha hv ⊢
  rw [hdmi] at ha hv
  rw [hdmi']
  obtain ⟨i, rfl⟩ := entry_of h hleaf hsatp ha
  rw [word_entry, h i] at hv
  rw [word_entry, h' i]
  cases hv
  split
  · exact .inl ⟨rfl, rfl⟩
  · exact .inr ⟨rfl, rfl⟩

/-- Between two states with the same table nothing changes. -/
theorem tablesKept (heq : leaf' = leaf) : c.TablesKept Bus.empty c' := by
  subst heq
  intro _ a ha v hv
  rcases tables_entry h h' hleaf hsatp hdmi hdmi' ha hv with ⟨rfl, hw⟩ | ⟨rfl, hw⟩
  · exact ⟨_, hw, .refl _⟩
  · exact ⟨_, hw, .refl _⟩

theorem onlyAD (hmask : Mmu.maskAD leaf' = Mmu.maskAD leaf) : OnlyAD Bus.empty c c' := by
  intro _ a ha v hv
  rcases tables_entry h h' hleaf hsatp hdmi hdmi' ha hv with ⟨rfl, hw⟩ | ⟨rfl, hw⟩
  · exact ⟨_, hw, hmask⟩
  · exact ⟨_, hw, rfl⟩

end Kept

/-- A store beyond the table leaves the entry of the example as it is. -/
theorem tableIs_store {leaf : BitVec 64} {h : Host} (ht : tableIs leaf h) {n : ℕ} (hn : n ≤ 8)
    (v : BitVec 64) : tableIs leaf (h.store 0x12000 n v) := by
  intro i
  rw [← ht i]
  apply Host.load_congr
  intro j hj
  apply Host.store_of_ne
  intro k hk
  have hi := i.isLt
  bv_omega

theorem load_of_zero {h : Host} {a : HostAddr} {n : ℕ} (hz : ∀ i < n, h (a + BitVec.ofNat 64 i) = 0) :
    h.load a n = 0 := by
  have hzeros (a : HostAddr) (n : ℕ) : Host.load (fun _ => 0) a n = 0 := by
    induction n generalizing a with
    | zero => rfl
    | succ n ih =>
      show Host.load (fun _ => 0) (a + 1) n <<< 8 ||| (0 : BitVec 8).setWidth 64 = 0
      rw [ih]
      rfl
  exact (Host.load_congr hz).trans (hzeros a n)

/-- A table of which only the first byte is set. -/
theorem tableIs_of_bytes {h : Host} (hz : ∀ i, 0 < i → i < 4096 → h (0x11000 + BitVec.ofNat 64 i) = 0) :
    tableIs ((h 0x11000).setWidth 64) h := by
  intro i
  have hi := i.isLt
  split_ifs with h0
  · have hrest : h.load (0x11000 + 1) 7 = 0 := load_of_zero fun j hj => by
      rw [Host.add_one_add]
      exact hz (j + 1) (by omega) (by omega)
    rw [h0]
    show h.load (0x11000 + 1) 7 <<< 8 ||| (h 0x11000).setWidth 64 = _
    rw [hrest]
    exact BitVec.zero_or
  · refine load_of_zero fun j hj => ?_
    rw [BitVec.add_assoc, ← BitVec.ofNat_add]
    exact hz _ (by omega) (by omega)

theorem tableIs_host (flags : BitVec 8) : tableIs (flags.setWidth 64) (host flags) := by
  refine tableIs_of_bytes fun i h0 hi => if_neg ?_
  bv_omega

/-- The walk sets the accessed bit of the leaf, and the table is then the one with the new leaf. -/
theorem tableIs_store_leaf : tableIs 0xC7 ((host 0x87).store 0x11000 4 0xC7) := by
  have hfirst : (host 0x87).store 0x11000 4 0xC7 0x11000 = 0xC7 := Host.store_word_self _ _ _
  have ht := tableIs_of_bytes (h := (host 0x87).store 0x11000 4 0xC7) fun i h0 hi => by
    have hsub : (0x11000 + BitVec.ofNat 64 i - 0x11000 : BitVec 64).toNat = i := by bv_omega
    rw [Host.store_apply _ _ _ (by decide), hsub]
    split_ifs with h4
    · interval_cases i <;> decide
    · exact if_neg (by bv_omega)
  rwa [hfirst] at ht

/-- A store, a load of the same page, and a load while another hart has locked the bus. -/
def events : List (Event Unit) :=
  [.store .word 0x2000 0x80FF, .load .half 0x2000, .other fun w => { w with busLock := ⟨true, 1⟩ },
    .load .ubyte 0x2001]

/-- A store, the accessed bit is cleared in memory, a load from the page of the store. -/
def clearing : List (Event Unit) :=
  [.store .byte 0x2000 0, .other fun w => { w with host := host 0x87 }, .load .byte 0x2000]

end Gigapage

end LsCacheIf

end RiscvVp
