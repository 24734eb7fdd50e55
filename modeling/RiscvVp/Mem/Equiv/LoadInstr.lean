import RiscvVp.Mem.Equiv.AdBits
import RiscvVp.Mem.LoadInstr

/-!
# When an instruction fetch is right

An instruction can be fetched if its halfwords can: one for a compressed instruction, two for the others;
and if one of them cannot, the trap is an instruction page fault at the first such halfword.  `load_instr`
reads 32 bits before it knows the length.  Within a page it reads them at once, and at the end of a page
in two halves, the second page first.  `fetchRight_iff` says where this makes no difference.
-/

namespace RiscvVp

open Cheri (Stop CheriM)
open Mmu

/-! ### Page tables whose accessed and dirty bits change -/

/-- The bus decodes addresses the same way all the time: whether a read is answered does not depend on
the contents of memories and devices. -/
def Bus.FixedMap {δ : Type} (bus : Bus δ) : Prop :=
  ∀ h d h' d' a n, (bus.read h d a n).1.isSome = (bus.read h' d' a n).1.isSome

/-- A later memory has other bits in places of accessed and dirty bits only: bits 6 and 7 of the first
byte of a double word. -/
def Host.SameButAD (h h' : Host) : Prop :=
  ∀ x, h' x &&& 0x3F = h x &&& 0x3F ∧ (x.toNat % 8 ≠ 0 → h' x = h x)

/-- An aligned double word is the same up to these bits. -/
theorem Host.SameButAD.load {h h' : Host} (had : h.SameButAD h') {p : HostAddr}
    (hp : p.toNat % 8 = 0) : maskAD (h'.load p 8) = maskAD (h.load p 8) := by
  have hrest : h'.load (p + 1) 7 = h.load (p + 1) 7 := by
    apply Host.load_congr
    intro i hi
    apply (had _).2
    have h8 : (p + 1 + BitVec.ofNat 64 i).toNat % 8 = i + 1 := by
      rw [BitVec.toNat_add, BitVec.toNat_add, BitVec.toNat_ofNat, show (1 : BitVec 64).toNat = 1 from rfl]
      omega
    omega
  have hbytes : ∀ m : Host, m.load p 8 = m.load (p + 1) 7 <<< 8 ||| (m p).setWidth 64 := fun _ => rfl
  rw [hbytes, hbytes, hrest]
  apply BitVec.eq_of_getLsbD_eq
  intro i hi
  by_cases h6 : i = 6 ∨ i = 7
  · unfold maskAD
    rcases h6 with rfl | rfl
    · simp
    · simp
  · rw [not_or] at h6
    rw [getLsbD_maskAD _ h6.1 h6.2, getLsbD_maskAD _ h6.1 h6.2]
    by_cases hlow : i < 6
    · -- a bit of the first byte
      have hbit := congrArg (fun b : BitVec 8 => b.getLsbD i) (had p).1
      have hmask : (0x3F : BitVec 8).getLsbD i = true := by
        interval_cases i <;> rfl
      simp only [BitVec.getLsbD_and, hmask, Bool.and_true] at hbit
      simp [hbit]
    · have h8 : 8 ≤ i := by omega
      simp [BitVec.getLsbD_of_ge _ i h8]

namespace World

variable {δ : Type} {bus : Bus δ} {hart : ℕ} {ranges : List MemoryDMI} {vm : VmInfo}

/-- Memory lies in the host as aligned as its addresses are. -/
def PlacesAligned (bus : Bus δ) (ranges : List MemoryDMI) : Prop :=
  ∀ a p, place bus ranges a = some p → p.toNat % 8 = a.toNat % 8

/-- The entries of page tables are aligned. -/
theorem ptePaddr_aligned (idxbits : ℕ) (va : BitVec 64) (n : ℕ) {base : BitVec 64}
    (hbase : base.toNat % 8 = 0) : (ptePaddr idxbits 8 va n base).toNat % 8 = 0 := by
  unfold ptePaddr
  rw [BitVec.toNat_add, BitVec.toNat_mul, show (8 : BitVec 64).toNat = 8 from rfl]
  omega

theorem shift_aligned (x : BitVec 64) : (x <<< 12).toNat % 8 = 0 := by
  rw [BitVec.toNat_shiftLeft, Nat.shiftLeft_eq]
  omega

theorem decodeVmInfo_ptesize (satp : Satp) : (decodeVmInfo satp).ptesize = 8 := by
  unfold decodeVmInfo
  split <;> rfl

theorem decodeVmInfo_ptbase (satp : Satp) :
    (decodeVmInfo satp).ptbase = satp.ppn.setWidth 64 <<< 12 := by
  unfold decodeVmInfo
  split <;> rfl

/-- The entries that walks reach are aligned. -/
theorem entry_aligned {satp : Satp} {T : Tables} {a : BitVec 64}
    (h : T.Entry (decodeVmInfo satp) a) : a.toNat % 8 = 0 := by
  obtain ⟨n, base, va, hreach, rfl⟩ := h
  rw [decodeVmInfo_ptesize]
  apply ptePaddr_aligned
  generalize n + 1 = k at hreach
  cases hreach with
  | root =>
    rw [decodeVmInfo_ptbase]
    exact shift_aligned _
  | next _ _ _ _ => exact shift_aligned _

/-- A walk visits tables at aligned addresses. -/
theorem Visits.aligned {satp : Satp} {va base : BitVec 64} {n : ℕ} {w w' : World δ}
    (h : Visits bus hart ranges (decodeVmInfo satp) va w n base w') : base.toNat % 8 = 0 := by
  cases h with
  | root =>
    rw [decodeVmInfo_ptbase]
    exact shift_aligned _
  | next _ _ _ => exact shift_aligned _

/-- What walks change, they change in places of accessed and dirty bits. -/
theorem OnlyAD.sameButAD (halign : PlacesAligned bus ranges) {satp : Satp} {V : Set (BitVec 64)}
    {w w' : World δ} (h : OnlyAD bus hart ranges (decodeVmInfo satp) V w w') :
    w.host.SameButAD w'.host := by
  intro x
  refine ⟨h.mask x, ?_⟩
  induction h with
  | same h =>
    intro _
    rw [h]
  | @setAD w1 w2 w3 va base n p type _ _ hv hp hw ih =>
    intro hx
    have hplace : p.toNat % 8 = 0 := by
      rw [halign _ _ hp, decodeVmInfo_ptesize]
      exact ptePaddr_aligned _ _ _ hv.aligned
    have hne : x ≠ p := by
      rintro rfl
      exact hx hplace
    rw [hw, Host.setBits, if_neg hne]
    exact ih hx

/-- An entry that can be read in memory, or not at all, is read the same up to these bits. -/
theorem word_maskAD (hmap : bus.FixedMap) (halign : PlacesAligned bus ranges) {w w' : World δ}
    (had : w.host.SameButAD w'.host) {a : BitVec 64} (ha : a.toNat % 8 = 0)
    (hram : ∀ v, w.word bus ranges a = .ok v → InRam bus ranges a) :
    (w'.word bus ranges a).map maskAD = (w.word bus ranges a).map maskAD := by
  have hplace := halign a
  unfold place at hplace
  unfold word loadNow at hram ⊢
  unfold InRam at hram
  cases hf : ranges.find? fun e => e.contains a with
  | some e =>
    rw [hf] at hplace
    have hp := hplace _ rfl
    exact congrArg Except.ok (had.load (hp.trans ha))
  | none =>
    rw [hf] at hplace hram
    cases hr : bus.ram a with
    | some p =>
      have hp := hplace p hr
      have htrunc : ∀ v : BitVec 64, Width.truncate .double v = v := fun v => by
        simp [Width.truncate, Width.bits, Width.bytes]
      simp only [bus.read_ram _ _ _ _ p hr, htrunc]
      exact congrArg Except.ok (had.load (hp.trans ha))
    | none =>
      -- nothing answers, then and now
      have hnone := hmap w.host w.dev w'.host w'.dev a .double
      simp only [hr] at hram
      rcases h1 : bus.read w.host w.dev a .double with ⟨_ | v, d⟩
      · rcases h2 : bus.read w'.host w'.dev a .double with ⟨_ | v', d'⟩
        · rfl
        · rw [h1, h2] at hnone
          cases hnone
      · rw [h1] at hram
        rcases hram _ rfl with h | h
        · cases h
        · cases h

/-- Page tables in memory are tables in the sense of `HasTables` while only accessed and dirty bits of
their entries change. -/
theorem hasTables_mask {T : Tables} (hT : RamTables bus ranges vm T) :
    HasTables (memIf bus hart ranges) vm T.mask
      (fun w => ∀ a, T.mask.Entry vm a → (w.word bus ranges a).map maskAD = T.mask a) := by
  -- an entry that can be read lies in memory
  have hram : ∀ {w : World δ} {a v}, T.mask.Entry vm a →
      (w.word bus ranges a).map maskAD = T.mask a → w.word bus ranges a = .ok v →
      InRam bus ranges a := by
    intro w a v ha hw hv
    rw [hv] at hw
    unfold Tables.mask at hw
    cases hTa : T a with
    | error t =>
      rw [hTa] at hw
      cases hw
    | ok u => exact hT a ha.of_mask u hTa
  constructor
  · intro w hw a ha
    have hfst := @rawLoad_fst _ bus hart ranges w a
    rcases hr : ((memIf bus hart ranges).rawLoad a .double).run' w with ⟨r, w'⟩
    rw [hr] at hfst
    refine ⟨r, w', rfl, ?_, fun x hx => ?_⟩
    · rw [← hw a ha, ← hfst]
      cases r <;> rfl
    · subst hx
      obtain ⟨v, last⟩ := x
      obtain ⟨h, hload⟩ := @rawLoad_ram _ _ hart _ _ _ _ (hram ha (hw a ha) hfst.symm) hfst.symm
      cases hr.symm.trans hload
      intro b hb
      rw [word_wait]
      exact hw b hb
  · intro w hw a ha v h w' type hload _
    have hfst := @rawLoad_fst _ bus hart ranges w a
    rw [hload] at hfst
    obtain ⟨r, w'', _, hst, -⟩ := @rawStore_ram _ _ hart _ w' _ (hram ha (hw a ha) hfst.symm)
      (v ||| Pte.ad type)
    exact ⟨r, w'', hst⟩

end World

namespace Core

variable {δ : Type} (bus : Bus δ) (hart : ℕ) (targetFits : BitVec 64 → Width → Bool)

/-! ### Halfwords of an instruction -/

/-- The halfword at an address lies in an executable mapping and in memory that answers. -/
def Fetchable (c : Core δ) (a : BitVec 64) : Prop :=
  ∃ v, ((fetchData bus hart targetFits a .half).run' c).1 = .ok v

/-- The 32 bits from an address on can be read at once. -/
def WordReadable (c : Core δ) (a : BitVec 64) : Prop :=
  ∃ v, ((fetchData bus hart targetFits a .word).run' c).1 = .ok v

/-- The page tables have no executable mapping for an address. -/
def Unmapped (c : Core δ) (a : BitVec 64) : Prop :=
  (c.v2p bus hart a .fetch).1 = .error ⟨.instrPageFault, a⟩

/-- The halfword at an address is there, and it begins an instruction of 32 bits. -/
def BeginsLong (c : Core δ) (a : BitVec 64) : Prop :=
  ∃ v, ((fetchData bus hart targetFits a .half).run' c).1 = .ok v ∧
    Instr.isCompressed (v.setWidth 32) = false

/-- The first halfword of the instruction at `pc` that cannot be fetched. -/
def missing (c : Core δ) (pc : BitVec 64) : Option (BitVec 64) :=
  match ((fetchData bus hart targetFits pc .half).run' c).1 with
  | .error _ => some pc
  | .ok lo =>
    if Instr.isCompressed (lo.setWidth 32) then none
    else
      match ((fetchData bus hart targetFits (pc + 2) .half).run' c).1 with
      | .error _ => some (pc + 2)
      | .ok _ => none

/-- What fetching and decoding is to do: it succeeds where no halfword is missing, and otherwise it
raises an instruction page fault at the first that is. -/
structure FetchRight {Op : Type} (isa : Isa Op) (c : Core δ) (pc : BitVec 64) : Prop where
  succeeds : (∃ r, ((fetchDecode bus hart targetFits isa pc).run' c).1 = .ok r) ↔
    c.missing bus hart targetFits pc = none
  traps : ∀ e, ((fetchDecode bus hart targetFits isa pc).run' c).1 = .error e →
    ∃ a, c.missing bus hart targetFits pc = some a ∧ e = .trap ⟨.instrPageFault, a⟩

/-- Where the fetch of 32 bits is that of the instruction.  At the end of a page: the second halfword
can be fetched, and the first can or is not mapped; or the second is not mapped, and the first begins an
instruction that needs it.  Elsewhere: the page is not mapped; or no halfword is missing, and the 32 bits
can be read at once. -/
def FetchesInstr (c : Core δ) (pc : BitVec 64) : Prop :=
  if pageOffset pc = 0xFFE then
    (c.Fetchable bus hart targetFits (pc + 2) ∧
        (c.Unmapped bus hart pc ∨ c.Fetchable bus hart targetFits pc)) ∨
      (c.Unmapped bus hart (pc + 2) ∧ c.BeginsLong bus hart targetFits pc)
  else
    c.Unmapped bus hart pc ∨
      (c.missing bus hart targetFits pc = none ∧ c.WordReadable bus hart targetFits pc)

/-! ### Errors -/

variable {bus hart targetFits} {c : Core δ}

/-- The page fault of a fetch at `a`, or something that is no page fault of a fetch. -/
def FetchFault (a : BitVec 64) (t : SimulationTrap) : Prop :=
  t = ⟨.instrPageFault, a⟩ ∨ t.reason ≠ .instrPageFault

/-- Translation for a fetch fails with the page fault of the fetch, or with one of another kind from an
access to a page table. -/
theorem v2p_fetch_error {a : BitVec 64} {t : SimulationTrap}
    (h : (c.v2p bus hart a .fetch).1 = .error t) : FetchFault a t := by
  unfold v2p at h
  split at h
  · cases h
  · next hr =>
    cases h
    have hload : ∀ b n, Throws (FetchFault a) ((c.memIf bus hart).rawLoad b n) :=
      fun b n => (World.throws_rawLoad bus hart _ b n).mono fun e he => .inr (by rw [he]; decide)
    have hstore : ∀ b n v, Throws (FetchFault a) ((c.memIf bus hart).rawStore b n v) :=
      fun b n v => (World.throws_rawStore bus hart _ b n v).mono fun e he => .inr (by rw [he]; decide)
    have hfault : FetchFault a (MemoryAccessType.fetch.pageFault a) := .inl rfl
    exact throws_translate hload hstore hfault c.csrs c.prv c.tlb c.world t (congrArg Prod.fst hr)

/-- A failed access is not reported as an instruction page fault. -/
theorem rawLoadInstr_error {a : BitVec 64} {n : Width} {t : SimulationTrap}
    (h : ((rawLoadInstr bus hart targetFits a n).run' c).1 = .error (.trap t)) :
    t.reason = .loadPageFault := by
  replace h : (rawLoadInstr bus hart targetFits a n c).1 = .error (.trap t) := h
  unfold rawLoadInstr at h
  split_ifs at h
  · split at h
    · cases h
    · next hr =>
      cases h
      exact World.throws_rawLoad bus hart _ a n c.world t (congrArg Prod.fst hr)
  · cases h

/-- A fetch of a halfword translates its address, with the access type of instructions, and then loads. -/
theorem run'_fetchData (a : BitVec 64) (n : Width) :
    (fetchData bus hart targetFits a n).run' c =
      match c.v2p bus hart a .fetch with
      | (.ok pa, c') => (rawLoadInstr bus hart targetFits pa n).run' c'
      | (.error t, c') => (.error (.trap t), c') := by
  rw [fetchData, CheriM.run'_bind]
  have haddr : (fetchAddr bus hart a).run' c =
      match c.v2p bus hart a .fetch with
      | (.ok pa, c') => (.ok pa, c')
      | (.error t, c') => (.error (.trap t), c') := rfl
  rw [haddr]
  rcases c.v2p bus hart a .fetch with ⟨t | pa, c'⟩
  · rfl
  · rfl

/-- The instruction page faults of a fetch come from its translation. -/
theorem fetchData_pageFault_iff (a b : BitVec 64) (n : Width) :
    ((fetchData bus hart targetFits a n).run' c).1 = .error (.trap ⟨.instrPageFault, b⟩) ↔
      c.Unmapped bus hart a ∧ b = a := by
  rw [run'_fetchData, Unmapped]
  rcases hv : c.v2p bus hart a .fetch with ⟨t | pa, c'⟩
  · dsimp only
    constructor
    · intro h
      cases h
      rcases v2p_fetch_error (congrArg Prod.fst hv) with heq | hne
      · cases heq
        exact ⟨rfl, rfl⟩
      · exact absurd rfl hne
    · rintro ⟨h, rfl⟩
      cases h
      rfl
  · dsimp only
    constructor
    · intro h
      cases rawLoadInstr_error h
    · rintro ⟨h, -⟩
      cases h

/-- `fetch_decode` fails where `load_instr` does, and otherwise decodes the word that it gives. -/
theorem fetchDecode_fst {Op : Type} (isa : Isa Op) (pc : BitVec 64) :
    ((fetchDecode bus hart targetFits isa pc).run' c).1 =
      ((loadInstr bus hart targetFits pc).run' c).1.map fun w =>
        (isa.decode w, pc + BitVec.ofNat 64 (isa.decode w).pcIncrement) := by
  rw [fetchDecode, CheriM.run'_bind]
  rcases (loadInstr bus hart targetFits pc).run' c with ⟨e | w, c'⟩
  · rfl
  · rfl

/-- A fetch that succeeds is right where no halfword is missing. -/
theorem fetchRight_iff_of_ok {Op : Type} {isa : Isa Op} {pc : BitVec 64} {w : Word}
    (h : ((loadInstr bus hart targetFits pc).run' c).1 = .ok w) :
    FetchRight bus hart targetFits isa c pc ↔ c.missing bus hart targetFits pc = none := by
  have hfst := @fetchDecode_fst _ bus hart targetFits c _ isa pc
  rw [h] at hfst
  constructor
  · intro hr
    exact hr.succeeds.1 ⟨_, hfst⟩
  · intro hm
    refine ⟨⟨fun _ => hm, fun _ => ⟨_, hfst⟩⟩, fun e he => ?_⟩
    rw [hfst] at he
    cases he

/-- A fetch that fails is right where its trap is an instruction page fault at the first halfword that
is missing. -/
theorem fetchRight_iff_of_error {Op : Type} {isa : Isa Op} {pc : BitVec 64} {e : Stop}
    (h : ((loadInstr bus hart targetFits pc).run' c).1 = .error e) :
    FetchRight bus hart targetFits isa c pc ↔
      ∃ a, c.missing bus hart targetFits pc = some a ∧ e = .trap ⟨.instrPageFault, a⟩ := by
  have hfst := @fetchDecode_fst _ bus hart targetFits c _ isa pc
  rw [h] at hfst
  constructor
  · intro hr
    exact hr.traps e hfst
  · rintro ⟨a, ha, rfl⟩
    refine ⟨⟨?_, fun hm => ?_⟩, fun e he => ⟨a, ha, ?_⟩⟩
    · rintro ⟨r, hr⟩
      rw [hfst] at hr
      cases hr
    · rw [ha] at hm
      cases hm
    · rw [hfst] at he
      cases he
      rfl

/-! ### The two halves of an instruction at the end of a page -/

/-- A translation fills no entry of the buffer but that of its page. -/
theorem v2p_tlb_of_ne {va va' : BitVec 64} (hne : tlbIdx (va' >>> 12) ≠ tlbIdx (va >>> 12))
    (type type' : MemoryAccessType) (mode : PrivilegeLevel) :
    (c.v2p bus hart va type).2.tlb mode type' (tlbIdx (va' >>> 12)) =
      c.tlb mode type' (tlbIdx (va' >>> 12)) := by
  cases hmode : translationMode c.csrs c.prv type with
  | none => rw [v2p_none hmode]
  | some mode' =>
    by_cases hv : (c.tlb mode' type (tlbIdx (va >>> 12))).vpn = va >>> 12
    · rw [v2p_hit hmode hv]
    · rw [v2p_miss hmode hv]
      rcases (Mmu.walk (c.memIf bus hart) c.csrs va type mode').run' c.world with ⟨t | pa, w⟩
      · rfl
      · exact if_neg fun h => hne h.2.2

/-- The page after the last halfword of a page has another entry of the buffer. -/
theorem tlbIdx_next_page {pc : BitVec 64} (hpc : pageOffset pc = 0xFFE) :
    tlbIdx (pc >>> 12) ≠ tlbIdx ((pc + 2) >>> 12) := by
  have hoff : pc.toNat % 4096 = 4094 := by
    rw [← toNat_pageOffset, hpc]
    rfl
  have hadd : (pc + 2).toNat = (pc.toNat + 2) % 2 ^ 64 := BitVec.toNat_add pc 2
  intro h
  have hmod := congrArg Fin.val h
  simp only [tlbIdx, tlbEntries, BitVec.toNat_ushiftRight, Nat.shiftRight_eq_div_pow, hadd] at hmod
  have hlt := pc.isLt
  omega

/-- The answer of a translation that walks. -/
theorem v2p_miss_fst {va : BitVec 64} {type : MemoryAccessType} {mode : PrivilegeLevel}
    (h : translationMode c.csrs c.prv type = some mode)
    (hv : ¬(c.tlb mode type (tlbIdx (va >>> 12))).vpn = va >>> 12) :
    (c.v2p bus hart va type).1 =
      ((Mmu.walk (c.memIf bus hart) c.csrs va type mode).run' c.world).1 := by
  rw [v2p_miss h hv]
  rcases (Mmu.walk (c.memIf bus hart) c.csrs va type mode).run' c.world with ⟨t | pa, w⟩
  · rfl
  · rfl

/-- Translation answers the same while the registers, the entry of the buffer and the page tables, up
to accessed and dirty bits, are the same. -/
theorem v2p_fst_congr {c' : Core δ} {va : BitVec 64} {type : MemoryAccessType}
    (hram : c.TablesInRam bus) (hcsrs : c'.csrs = c.csrs) (hprv : c'.prv = c.prv)
    (hdmi : c'.dmi = c.dmi)
    (htlb : ∀ mode, c'.tlb mode type (tlbIdx (va >>> 12)) = c.tlb mode type (tlbIdx (va >>> 12)))
    (htables : c.csrs.satp.mode ≠ .bare →
      ∀ a, (c.tables bus).mask.Entry (decodeVmInfo c.csrs.satp) a →
        (c'.world.word bus c.dmi.dmiRanges a).map maskAD = (c.tables bus).mask a) :
    (c'.v2p bus hart va type).1 = (c.v2p bus hart va type).1 := by
  cases hmode : translationMode c.csrs c.prv type with
  | none =>
    have hmode' : translationMode c'.csrs c'.prv type = none := by rw [hcsrs, hprv, hmode]
    rw [v2p_none hmode, v2p_none hmode']
  | some mode =>
    have hmode' : translationMode c'.csrs c'.prv type = some mode := by rw [hcsrs, hprv, hmode]
    have hentry := htlb mode
    by_cases hv : (c.tlb mode type (tlbIdx (va >>> 12))).vpn = va >>> 12
    · have hv' : (c'.tlb mode type (tlbIdx (va >>> 12))).vpn = va >>> 12 := by rw [hentry, hv]
      rw [v2p_hit hmode hv, v2p_hit hmode' hv', hentry]
    · have hv' : ¬(c'.tlb mode type (tlbIdx (va >>> 12))).vpn = va >>> 12 := by rwa [hentry]
      have hT := @World.hasTables_mask _ bus hart _ _ _ (hram (mode_ne_bare hmode))
      have hwalk := walk_run' hT va type mode (s := c.world) fun _ _ => rfl
      have hwalk' := walk_run' hT va type mode (htables (mode_ne_bare hmode))
      have hmem : c'.memIf bus hart = c.memIf bus hart := by
        unfold memIf
        rw [hdmi]
      rw [v2p_miss_fst hmode hv, v2p_miss_fst hmode' hv', hmem, hcsrs]
      exact hwalk'.trans hwalk.symm

/-- A fetch leaves what its translation leaves, up to what reading does to a device and to the lock. -/
theorem fetchData_frame (a : BitVec 64) (n : Width) :
    ∃ w, ((fetchData bus hart targetFits a n).run' c).2 =
        { (c.v2p bus hart a .fetch).2 with world := w } ∧
      w.host = (c.v2p bus hart a .fetch).2.world.host := by
  rw [run'_fetchData]
  rcases c.v2p bus hart a .fetch with ⟨t | pa, c'⟩
  · exact ⟨c'.world, rfl, rfl⟩
  · have hhost := @World.rawLoad_host _ bus hart c'.dmi.dmiRanges c'.world pa n
    show ∃ w, (rawLoadInstr bus hart targetFits pa n c').2 = _ ∧ _
    unfold rawLoadInstr
    split_ifs
    · unfold memIf
      rcases hr : ((World.memIf bus hart c'.dmi.dmiRanges).rawLoad pa n).run' c'.world with ⟨t | x, w⟩
      · rw [hr] at hhost
        exact ⟨w, rfl, hhost⟩
      · rw [hr] at hhost
        exact ⟨w, rfl, hhost⟩
    · exact ⟨c'.world, rfl, rfl⟩

/-- Whether a load succeeds depends on the map of physical addresses only. -/
theorem rawLoadInstr_ok_congr (hmap : bus.FixedMap) {c' : Core δ} (hdmi : c'.dmi = c.dmi)
    {a v : BitVec 64} {n : Width} (h : ((rawLoadInstr bus hart targetFits a n).run' c').1 = .ok v) :
    ∃ v, ((rawLoadInstr bus hart targetFits a n).run' c).1 = .ok v := by
  replace h : (rawLoadInstr bus hart targetFits a n c').1 = .ok v := h
  show ∃ v, (rawLoadInstr bus hart targetFits a n c).1 = .ok v
  unfold rawLoadInstr loadAsserts memIf at h ⊢
  rw [hdmi] at h
  split_ifs at h ⊢
  have hloads : ∀ w : World δ, ((World.memIf bus hart c.dmi.dmiRanges).rawLoad a n).run' w =
      (w.waitForAccessRights hart).loadNow bus c.dmi.dmiRanges a n := fun _ => rfl
  rw [hloads] at h ⊢
  unfold World.loadNow at h ⊢
  cases hf : c.dmi.dmiRanges.find? fun e => e.contains a with
  | some e => exact ⟨_, rfl⟩
  | none =>
    rw [hf] at h
    have hsome := hmap c.world.host c.world.dev c'.world.host c'.world.dev a n
    simp only [World.waitForAccessRights_host, World.waitForAccessRights_dev] at h ⊢
    rcases h1 : bus.read c.world.host c.world.dev a n with ⟨_ | u, d⟩
    · rcases h2 : bus.read c'.world.host c'.world.dev a n with ⟨_ | u', d'⟩
      · rw [h2] at h
        cases h
      · rw [h1, h2] at hsome
        cases hsome
    · exact ⟨_, rfl⟩

/-- So does whether a fetch succeeds, once the translation is the same. -/
theorem fetchable_congr (hmap : bus.FixedMap) {c' : Core δ} {a : BitVec 64}
    (hv : (c'.v2p bus hart a .fetch).1 = (c.v2p bus hart a .fetch).1) (hdmi : c'.dmi = c.dmi)
    (h : c'.Fetchable bus hart targetFits a) : c.Fetchable bus hart targetFits a := by
  obtain ⟨v, hok⟩ := h
  unfold Fetchable
  rw [run'_fetchData] at hok ⊢
  rcases h' : c'.v2p bus hart a .fetch with ⟨t' | pa', c1'⟩
  · rw [h'] at hok
    cases hok
  · rw [h'] at hok hv
    rcases h1 : c.v2p bus hart a .fetch with ⟨t | pa, c1⟩
    · rw [h1] at hv
      cases hv
    · rw [h1] at hv
      cases hv
      have hd : c1.dmi = c.dmi := by
        rw [← @v2p_dmi _ bus hart c a .fetch, h1]
      have hd' : c1'.dmi = c'.dmi := by
        rw [← @v2p_dmi _ bus hart c' a .fetch, h']
      exact rawLoadInstr_ok_congr hmap (hd'.trans (hdmi.trans hd.symm)) hok

section PageEnd

variable (hmap : bus.FixedMap) (hbus : bus.WritesRamOnly)
  (halign : World.PlacesAligned bus c.dmi.dmiRanges) (hram : c.TablesInRam bus) {pc : BitVec 64}
  (hpc : pageOffset pc = 0xFFE)
include hmap hbus halign hram hpc

/-- Fetching from the next page does not change the translation of this one. -/
theorem v2p_after_next :
    (((fetchData bus hart targetFits (pc + 2) .half).run' c).2.v2p bus hart pc .fetch).1 =
      (c.v2p bus hart pc .fetch).1 := by
  obtain ⟨w, hc, hhost⟩ := @fetchData_frame _ bus hart targetFits c (pc + 2) .half
  rw [hc]
  apply v2p_fst_congr hram
  · exact v2p_csrs
  · exact v2p_prv
  · exact v2p_dmi
  · intro mode
    exact v2p_tlb_of_ne (tlbIdx_next_page hpc) .fetch .fetch mode
  · intro hbare a ha
    have hsame : c.world.host.SameButAD w.host := by
      rw [hhost]
      exact World.OnlyAD.sameButAD halign
        (v2p_onlyAD (V := {pc + 2}) hbus (Set.mem_singleton _) .fetch)
    exact World.word_maskAD hmap halign hsame (World.entry_aligned ha)
      fun v hv => hram hbare a ha.of_mask v hv

theorem unmapped_after_next :
    ((fetchData bus hart targetFits (pc + 2) .half).run' c).2.Unmapped bus hart pc ↔
      c.Unmapped bus hart pc := by
  unfold Unmapped
  rw [v2p_after_next hmap hbus halign hram hpc]

theorem fetchable_after_next :
    ((fetchData bus hart targetFits (pc + 2) .half).run' c).2.Fetchable bus hart targetFits pc ↔
      c.Fetchable bus hart targetFits pc := by
  have hv := @v2p_after_next _ bus hart targetFits c hmap hbus halign hram pc hpc
  have hdmi : ((fetchData bus hart targetFits (pc + 2) .half).run' c).2.dmi = c.dmi := by
    obtain ⟨w, hc, -⟩ := @fetchData_frame _ bus hart targetFits c (pc + 2) .half
    rw [hc]
    exact v2p_dmi
  exact ⟨fetchable_congr hmap hv hdmi, fetchable_congr hmap hv.symm hdmi.symm⟩

end PageEnd

/-! ### The instruction -/

theorem missing_of_not_fetchable {pc : BitVec 64} (h : ¬c.Fetchable bus hart targetFits pc) :
    c.missing bus hart targetFits pc = some pc := by
  unfold missing
  split
  · rfl
  · next lo hlo => exact absurd ⟨lo, hlo⟩ h

/-- A compressed instruction has one halfword, so once this is there nothing is missing. -/
theorem missing_of_not_beginsLong {pc : BitVec 64} (h : c.Fetchable bus hart targetFits pc)
    (hshort : ¬c.BeginsLong bus hart targetFits pc) : c.missing bus hart targetFits pc = none := by
  obtain ⟨lo, hlo⟩ := h
  have hcompressed : Instr.isCompressed (lo.setWidth 32) = true := by
    by_contra hc
    exact hshort ⟨lo, hlo, by simpa using hc⟩
  unfold missing
  rw [hlo]
  exact if_pos hcompressed

theorem missing_of_fetchable {pc : BitVec 64} (h : c.Fetchable bus hart targetFits pc)
    (hnext : c.Fetchable bus hart targetFits (pc + 2)) :
    c.missing bus hart targetFits pc = none := by
  obtain ⟨lo, hlo⟩ := h
  obtain ⟨hi, hhi⟩ := hnext
  unfold missing
  rw [hlo, hhi]
  exact ite_self _

theorem missing_of_beginsLong {pc : BitVec 64} (h : c.BeginsLong bus hart targetFits pc)
    (hnext : ¬c.Fetchable bus hart targetFits (pc + 2)) :
    c.missing bus hart targetFits pc = some (pc + 2) := by
  obtain ⟨lo, hlo, hlong⟩ := h
  unfold missing
  rw [hlo]
  dsimp only
  rw [if_neg (by simp [hlong])]
  split
  · rfl
  · next hi hhi => exact absurd ⟨hi, hhi⟩ hnext

/-- A mapped page is not missing for want of a mapping. -/
theorem not_fetchable_of_unmapped {a : BitVec 64} (h : c.Unmapped bus hart a) :
    ¬c.Fetchable bus hart targetFits a := by
  rintro ⟨v, hv⟩
  rw [(fetchData_pageFault_iff a a .half).2 ⟨h, rfl⟩] at hv
  cases hv

/-- Within a page a fetch reads four bytes at once, and their one translation decides. -/
theorem fetchRight_iff_within {Op : Type} {isa : Isa Op} {pc : BitVec 64}
    (hpc : pageOffset pc ≠ 0xFFE) :
    FetchRight bus hart targetFits isa c pc ↔ c.Unmapped bus hart pc ∨
      (c.missing bus hart targetFits pc = none ∧ c.WordReadable bus hart targetFits pc) := by
  have hrun : ((loadInstr bus hart targetFits pc).run' c).1 =
      ((fetchData bus hart targetFits pc .word).run' c).1.map fun w => w.setWidth 32 := by
    rw [loadInstr, if_neg hpc, CheriM.run'_bind]
    rcases (fetchData bus hart targetFits pc .word).run' c with ⟨e | w, c'⟩
    · rfl
    · rfl
  rcases hw : ((fetchData bus hart targetFits pc .word).run' c).1 with e | w
  · rw [hw] at hrun
    rw [fetchRight_iff_of_error hrun]
    constructor
    · rintro ⟨a, -, rfl⟩
      exact .inl ((fetchData_pageFault_iff pc a .word).1 hw).1
    · rintro (hun | ⟨-, w, hw'⟩)
      · refine ⟨pc, missing_of_not_fetchable (not_fetchable_of_unmapped hun), ?_⟩
        rw [(fetchData_pageFault_iff pc pc .word).2 ⟨hun, rfl⟩] at hw
        cases hw
        rfl
      · rw [hw'] at hw
        cases hw
  · rw [hw] at hrun
    rw [fetchRight_iff_of_ok hrun]
    constructor
    · intro hm
      exact .inr ⟨hm, w, hw⟩
    · rintro (hun | ⟨hm, -⟩)
      · rw [(fetchData_pageFault_iff pc pc .word).2 ⟨hun, rfl⟩] at hw
        cases hw
      · exact hm

section PageEnd

variable (hmap : bus.FixedMap) (hbus : bus.WritesRamOnly)
  (halign : World.PlacesAligned bus c.dmi.dmiRanges) (hram : c.TablesInRam bus) {pc : BitVec 64}
include hmap hbus halign hram

/-- At the end of a page the code reads two halfwords, the upper one first, whether it needs it or not. -/
theorem fetchRight_iff_pageEnd {Op : Type} {isa : Isa Op} (hpc : pageOffset pc = 0xFFE) :
    FetchRight bus hart targetFits isa c pc ↔
      (c.Fetchable bus hart targetFits (pc + 2) ∧
        (c.Unmapped bus hart pc ∨ c.Fetchable bus hart targetFits pc)) ∨
      (c.Unmapped bus hart (pc + 2) ∧ c.BeginsLong bus hart targetFits pc) := by
  have hun := @unmapped_after_next _ bus hart targetFits c hmap hbus halign hram pc hpc
  have hfe := @fetchable_after_next _ bus hart targetFits c hmap hbus halign hram pc hpc
  have hrun : (loadInstr bus hart targetFits pc).run' c =
      ((fetchData bus hart targetFits (pc + 2) .half) >>= fun hi => do
        let lo ← fetchData bus hart targetFits pc .half
        pure (hi.setWidth 32 <<< 16 ||| lo.setWidth 32)).run' c := by
    rw [loadInstr, if_pos hpc]
  rw [CheriM.run'_bind] at hrun
  rcases hhi : (fetchData bus hart targetFits (pc + 2) .half).run' c with ⟨e | hi, c2⟩
  · -- the next page is read first, whether the instruction needs it or not
    rw [hhi] at hrun
    have hnext : ¬c.Fetchable bus hart targetFits (pc + 2) := by
      rintro ⟨v, hv⟩
      rw [hhi] at hv
      cases hv
    have herr := @fetchData_pageFault_iff _ bus hart targetFits c (pc + 2)
    rw [fetchRight_iff_of_error (congrArg Prod.fst hrun)]
    constructor
    · rintro ⟨a, ha, rfl⟩
      obtain ⟨hun', rfl⟩ := (herr a .half).1 (congrArg Prod.fst hhi)
      refine .inr ⟨hun', ?_⟩
      by_contra hshort
      by_cases hlo : c.Fetchable bus hart targetFits pc
      · rw [missing_of_not_beginsLong hlo hshort] at ha
        cases ha
      · rw [missing_of_not_fetchable hlo] at ha
        have hne : pc ≠ pc + 2 := by bv_omega
        exact hne (Option.some.inj ha)
    · rintro (⟨hnext', -⟩ | ⟨hun', hlong⟩)
      · exact absurd hnext' hnext
      · refine ⟨pc + 2, missing_of_beginsLong hlong hnext, ?_⟩
        have hfault := (herr (pc + 2) .half).2 ⟨hun', rfl⟩
        rw [hhi] at hfault
        cases hfault
        rfl
  · -- the upper half is there, so all depends on the lower one
    rw [hhi] at hrun hun hfe
    dsimp only at hrun hun hfe
    have hnext : c.Fetchable bus hart targetFits (pc + 2) := ⟨hi, congrArg Prod.fst hhi⟩
    have hnext' : ¬c.Unmapped bus hart (pc + 2) := fun h => not_fetchable_of_unmapped h hnext
    rw [CheriM.run'_bind] at hrun
    rcases hlo : (fetchData bus hart targetFits pc .half).run' c2 with ⟨e | lo, c3⟩
    · rw [hlo] at hrun
      have hnot : ¬c.Fetchable bus hart targetFits pc := by
        rw [← hfe]
        rintro ⟨v, hv⟩
        rw [hlo] at hv
        cases hv
      rw [fetchRight_iff_of_error (congrArg Prod.fst hrun), missing_of_not_fetchable hnot, ← hun]
      constructor
      · rintro ⟨a, -, rfl⟩
        exact .inl ⟨hnext, .inl ((fetchData_pageFault_iff pc a .half).1 (congrArg Prod.fst hlo)).1⟩
      · rintro (⟨-, hun' | hlo'⟩ | ⟨hun', -⟩)
        · have herr : ((fetchData bus hart targetFits pc .half).run' c2).1 =
              .error (.trap ⟨.instrPageFault, pc⟩) := (fetchData_pageFault_iff pc pc .half).2 ⟨hun', rfl⟩
          rw [hlo] at herr
          cases herr
          exact ⟨pc, rfl, rfl⟩
        · exact absurd hlo' hnot
        · exact absurd hun' hnext'
    · rw [hlo] at hrun
      have hlo' : c.Fetchable bus hart targetFits pc := hfe.1 ⟨lo, congrArg Prod.fst hlo⟩
      rw [fetchRight_iff_of_ok (congrArg Prod.fst hrun)]
      exact ⟨fun _ => .inl ⟨hnext, .inr hlo'⟩, fun _ => missing_of_fetchable hlo' hnext⟩

end PageEnd

/-- **When an instruction fetch is right**: for every page table in memory, every contents of memory and
of the buffer, and every program counter, exactly where the 32 bits that are read stand in for the
halfwords of the instruction. -/
theorem fetchRight_iff {Op : Type} (isa : Isa Op) (bus : Bus δ) (hart : ℕ)
    (targetFits : BitVec 64 → Width → Bool) (c : Core δ) (pc : BitVec 64) (hmap : bus.FixedMap)
    (hbus : bus.WritesRamOnly) (halign : World.PlacesAligned bus c.dmi.dmiRanges)
    (hram : c.TablesInRam bus) :
    FetchRight bus hart targetFits isa c pc ↔ c.FetchesInstr bus hart targetFits pc := by
  unfold FetchesInstr
  split_ifs with hpc
  · exact fetchRight_iff_pageEnd hmap hbus halign hram hpc
  · exact fetchRight_iff_within hpc

/-! ### A compressed instruction at the end of a page -/

/-- `C.NOP` in the last halfword of the first page, which is mapped to itself and executable; the entry
of the page after it has the given low byte.  The tables lie at `0x1000`, `0x2000` and `0x3000`. -/
def cNopAtPageEnd (next : BitVec 8) : Core Unit where
  world :=
    { host := fun a =>
        if a = 0xFFE then 0x01
        else if a = 0x1000 then 0x01 else if a = 0x1001 then 0x08
        else if a = 0x2000 then 0x01 else if a = 0x2001 then 0x0C
        else if a = 0x3000 then 0x49 else if a = 0x3008 then next
        else 0
      dev := ()
      busLock := ⟨false, 0⟩ }
  csrs := { Csrs.reset with satp := ⟨1, 0, .sv39⟩ }
  prv := .supervisor
  tlb := Mmu.Tlb.flush
  dmi := ⟨true, [⟨0, 0, 0x4000, MemoryDMI.nonempty_16K⟩], [], DmiRanges.oneEmpty_16K⟩
  lscache := ⟨true, fun _ => ⟨0, 0⟩⟩

theorem fixedMap_empty : Bus.empty.FixedMap := fun _ _ _ _ _ _ => rfl

theorem placesAligned_cNop (next : BitVec 8) :
    World.PlacesAligned Bus.empty (cNopAtPageEnd next).dmi.dmiRanges := by
  intro a p hp
  unfold World.place at hp
  split at hp
  · next e he =>
    obtain rfl : e = ⟨0, 0, 0x4000, MemoryDMI.nonempty_16K⟩ :=
      List.mem_singleton.1 (List.mem_of_find?_eq_some he)
    cases hp
    simp [MemoryDMI.getMemPtrToGlobalAddr]
  · cases hp

theorem tablesInRam_cNop (next : BitVec 8) : (cNopAtPageEnd next).TablesInRam Bus.empty := by
  intro _ a _ v hv
  unfold tables World.word World.loadNow at hv
  cases hf : (cNopAtPageEnd next).dmi.dmiRanges.find? fun e => e.contains a with
  | some e => exact .inl (by rw [hf]; rfl)
  | none =>
    rw [hf] at hv
    cases hv

/-- The page after it is mapped and executable: the instruction is fetched. -/
theorem fetchRight_iff_cNop :
    FetchRight Bus.empty 0 (fun _ _ => true) defaultIsa (cNopAtPageEnd 0x49) 0xFFE ∧
      ((fetchDecode Bus.empty 0 (fun _ _ => true) defaultIsa 0xFFE).run' (cNopAtPageEnd 0x49)).1
        = .ok (⟨.rdZero .add, 0x33, 2⟩, 0x1000) := by
  refine ⟨(fetchRight_iff defaultIsa Bus.empty 0 _ _ _ fixedMap_empty Bus.writesRamOnly_empty
    (placesAligned_cNop _) (tablesInRam_cNop _)).2 ?_, by decide⟩
  unfold FetchesInstr
  rw [if_pos (by decide)]
  have hnext : ((fetchData Bus.empty 0 (fun _ _ => true) (0xFFE + 2) .half).run'
      (cNopAtPageEnd 0x49)).1 = .ok 0 := by decide
  have hlo : ((fetchData Bus.empty 0 (fun _ _ => true) 0xFFE .half).run'
      (cNopAtPageEnd 0x49)).1 = .ok 1 := by decide
  exact .inl ⟨⟨0, hnext⟩, .inr ⟨1, hlo⟩⟩

/-- The page after it is not mapped: the compressed instruction is all there, and fetching it raises a
page fault. -/
theorem not_fetchRight :
    Instr.isCompressed 0x0001 = true ∧
      ((fetchData Bus.empty 0 (fun _ _ => true) 0xFFE .half).run' (cNopAtPageEnd 0)).1 = .ok 1 ∧
      ((fetchDecode Bus.empty 0 (fun _ _ => true) defaultIsa 0xFFE).run' (cNopAtPageEnd 0)).1
        = .error (.trap ⟨.instrPageFault, 0x1000⟩) ∧
      ¬FetchRight Bus.empty 0 (fun _ _ => true) defaultIsa (cNopAtPageEnd 0) 0xFFE := by
  have hlo : ((fetchData Bus.empty 0 (fun _ _ => true) 0xFFE .half).run'
      (cNopAtPageEnd 0)).1 = .ok 1 := by decide
  have htrap : ((fetchDecode Bus.empty 0 (fun _ _ => true) defaultIsa 0xFFE).run' (cNopAtPageEnd 0)).1
      = .error (.trap ⟨.instrPageFault, 0x1000⟩) := by decide
  refine ⟨by decide, hlo, htrap, fun hright => ?_⟩
  have hmissing : (cNopAtPageEnd 0).missing Bus.empty 0 (fun _ _ => true) 0xFFE = none := by
    unfold missing
    rw [hlo]
    rfl
  obtain ⟨a, ha, -⟩ := hright.traps _ htrap
  rw [hmissing] at ha
  cases ha

end Core

end RiscvVp
