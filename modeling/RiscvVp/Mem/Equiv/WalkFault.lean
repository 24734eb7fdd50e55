import RiscvVp.Mem.Equiv.Sv
import RiscvVp.Mem.Equiv.Ram

/-!
# Why a translation fails

The page walk reads its entries over the bus like any data, so it can fail in two ways: an entry is read and
gives no page for the access, or an entry cannot be read at all.  The memory interface has one exception for
every read that fails, `EXC_LOAD_PAGE_FAULT`, whatever the translation is for.

`Unreadable` and `NoPage` say of the page table, the DMI ranges and the bus when this happens;
`Core.v2p_loadPageFault_iff` and `Core.load_loadPageFault_iff` that a translation or a load throws a load page
fault exactly then.
-/

namespace RiscvVp

/-! ### Reads -/

namespace World

variable {δ : Type} (bus : Bus δ) (dmiRanges : List MemoryDMI) (w : World δ) (addr : BitVec 64) (n : Width)

/-- A read is answered: the address lies in a DMI range, or there is something on the bus that takes it. -/
def Answers : Prop := (∃ e ∈ dmiRanges, e.contains addr) ∨ (bus.read w.host w.dev addr n).1 ≠ none

/-- The value that is read: from host memory through the first range that contains the address, or from the
bus. -/
def valueAt : BitVec 64 :=
  match dmiRanges.find? fun e => e.contains addr with
  | some e => w.host.load (e.getMemPtrToGlobalAddr addr) n.bytes
  | none => n.truncate ((bus.read w.host w.dev addr n).1.getD 0)

/-- What is left after a read. -/
def afterRead : World δ :=
  match dmiRanges.find? fun e => e.contains addr with
  | some _ => w
  | none => { w with dev := (bus.read w.host w.dev addr n).2 }

variable {bus dmiRanges w addr n} (hart : ℕ)

theorem find?_eq_none_of_not_answers (h : ¬w.Answers bus dmiRanges addr n) :
    (dmiRanges.find? fun e => e.contains addr) = none := by
  rw [List.find?_eq_none]
  intro e he hcontains
  exact h (.inl ⟨e, he, hcontains⟩)

/-- A read that is answered gives the value that stands there, by DMI or by a transaction. -/
theorem rawLoad_of_answers (h : w.Answers bus dmiRanges addr n) :
    ∃ last, ((memIf bus hart dmiRanges).rawLoad addr n).run' w =
      (.ok (w.valueAt bus dmiRanges addr n, last),
        (w.waitForAccessRights hart).afterRead bus dmiRanges addr n) := by
  show ∃ last, (w.waitForAccessRights hart).loadNow bus dmiRanges addr n = _
  unfold loadNow valueAt afterRead
  cases hfind : dmiRanges.find? fun e => e.contains addr with
  | some e => exact ⟨_, rfl⟩
  | none =>
    have hread : (bus.read w.host w.dev addr n).1 ≠ none := by
      rcases h with ⟨e, he, hcontains⟩ | hread
      · exact absurd hcontains (List.find?_eq_none.1 hfind e he)
      · exact hread
    rcases hr : bus.read w.host w.dev addr n with ⟨_ | v, dev⟩
    · rw [hr] at hread
      exact absurd rfl hread
    · have hwait : bus.read (w.waitForAccessRights hart).host (w.waitForAccessRights hart).dev addr n =
          (some v, dev) := hr
      refine ⟨none, ?_⟩
      dsimp only
      rw [hwait]
      rfl

/-- A read that is not answered is a page fault of a load. -/
theorem rawLoad_of_not_answers (h : ¬w.Answers bus dmiRanges addr n) :
    (((memIf bus hart dmiRanges).rawLoad addr n).run' w).1 = .error ⟨.loadPageFault, addr⟩ := by
  have hnone : (bus.read w.host w.dev addr n).1 = none := by
    by_contra hread
    exact h (.inr hread)
  show ((w.waitForAccessRights hart).loadNow bus dmiRanges addr n).1 = _
  unfold loadNow
  rw [find?_eq_none_of_not_answers h]
  rcases hr : bus.read w.host w.dev addr n with ⟨_ | v, dev⟩
  · have hwait : bus.read (w.waitForAccessRights hart).host (w.waitForAccessRights hart).dev addr n =
        (none, dev) := hr
    dsimp only
    rw [hwait]
  · rw [hr] at hnone
    cases hnone

end World

/-! ### Walks -/

namespace Mmu

/-- What a walk looks at besides the entries. -/
structure WalkInfo where
  idxbits : ℕ
  ptesize : BitVec 64
  vaddr : BitVec 64
  sMode : Bool
  sum : Bool
  mxr : Bool

namespace WalkInfo

variable (i : WalkInfo)

/-- The address of the entry, with `n` more levels below it. -/
def entryAddr (n : ℕ) (base : BitVec 64) : BitVec 64 :=
  base + ((i.vaddr >>> (12 + n * i.idxbits)) &&& ((1 <<< i.idxbits) - 1)) * i.ptesize

/-- A leaf with `n` more levels below it is the page for an access. -/
def IsPage (type : MemoryAccessType) (n : ℕ) (pte : Pte) : Prop :=
  Sv.Allows pte type i.sMode i.sum i.mxr ∧ pte.ppn &&& ((1 <<< (n * i.idxbits)) - 1) = 0

end WalkInfo

section Walk

variable {δ : Type} (bus : Bus δ) (hart : ℕ) (dmiRanges : List MemoryDMI) (i : WalkInfo)

/-- The entry of a table. -/
def entryAt (n : ℕ) (base : BitVec 64) (w : World δ) : Pte :=
  ⟨w.valueAt bus dmiRanges (i.entryAddr n base) .double⟩

/-- What is left after the entry has been read. -/
def afterEntry (n : ℕ) (base : BitVec 64) (w : World δ) : World δ :=
  (w.waitForAccessRights hart).afterRead bus dmiRanges (i.entryAddr n base) .double

/-- Of the entries that a walk with `n` levels left needs, one cannot be read. -/
inductive Unreadable : ℕ → BitVec 64 → World δ → Prop
  | here {n : ℕ} {base : BitVec 64} {w : World δ}
      (h : ¬w.Answers bus dmiRanges (i.entryAddr n base) .double) : Unreadable (n + 1) base w
  | next {n : ℕ} {base : BitVec 64} {w : World δ}
      (hread : w.Answers bus dmiRanges (i.entryAddr n base) .double)
      (hpoints : Sv.Points (entryAt bus dmiRanges i n base w))
      (h : Unreadable n ((entryAt bus dmiRanges i n base w).ppn <<< 12)
        (afterEntry bus hart dmiRanges i n base w)) : Unreadable (n + 1) base w

/-- The entries can be read, and they give no page for the access: there is no level left, or the last of them
is not valid or a leaf that does not allow the access or a superpage that is not aligned. -/
inductive NoPage (type : MemoryAccessType) : ℕ → BitVec 64 → World δ → Prop
  | noLevel {base : BitVec 64} {w : World δ} : NoPage type 0 base w
  | invalid {n : ℕ} {base : BitVec 64} {w : World δ}
      (hread : w.Answers bus dmiRanges (i.entryAddr n base) .double)
      (h : Sv.Invalid (entryAt bus dmiRanges i n base w)) : NoPage type (n + 1) base w
  | leaf {n : ℕ} {base : BitVec 64} {w : World δ}
      (hread : w.Answers bus dmiRanges (i.entryAddr n base) .double)
      (hleaf : Sv.IsLeaf (entryAt bus dmiRanges i n base w))
      (h : ¬i.IsPage type n (entryAt bus dmiRanges i n base w)) : NoPage type (n + 1) base w
  | next {n : ℕ} {base : BitVec 64} {w : World δ}
      (hread : w.Answers bus dmiRanges (i.entryAddr n base) .double)
      (hpoints : Sv.Points (entryAt bus dmiRanges i n base w))
      (h : NoPage type n ((entryAt bus dmiRanges i n base w).ppn <<< 12)
        (afterEntry bus hart dmiRanges i n base w)) : NoPage type (n + 1) base w

end Walk

section Cases

variable {δ : Type} {bus : Bus δ} {hart : ℕ} {dmiRanges : List MemoryDMI} {i : WalkInfo}
  {type : MemoryAccessType} {n : ℕ} {base : BitVec 64} {w : World δ}

/-- How a walk ends. -/
inductive WalkEnds (bus : Bus δ) (hart : ℕ) (dmiRanges : List MemoryDMI) (i : WalkInfo)
    (type : MemoryAccessType) (n : ℕ) (base : BitVec 64) (w : World δ) :
    Except SimulationTrap (BitVec 64) → Prop
  | unreadable (h : Unreadable bus hart dmiRanges i n base w) (addr : BitVec 64) :
      WalkEnds bus hart dmiRanges i type n base w (.error ⟨.loadPageFault, addr⟩)
  | noPage (h : NoPage bus hart dmiRanges i type n base w) :
      WalkEnds bus hart dmiRanges i type n base w (.error (type.pageFault i.vaddr))
  /-- The accessed bit or the dirty bit cannot be set. -/
  | noUpdate (hread : ¬Unreadable bus hart dmiRanges i n base w)
      (hpage : ¬NoPage bus hart dmiRanges i type n base w) {t : SimulationTrap}
      (ht : t.reason = .storeAmoPageFault) : WalkEnds bus hart dmiRanges i type n base w (.error t)
  | page (hread : ¬Unreadable bus hart dmiRanges i n base w)
      (hpage : ¬NoPage bus hart dmiRanges i type n base w) (paddr : BitVec 64) :
      WalkEnds bus hart dmiRanges i type n base w (.ok paddr)

/-- One round of a walk whose entry points to the next table. -/
theorem WalkEnds.next (hread : w.Answers bus dmiRanges (i.entryAddr n base) .double)
    (hpoints : Sv.Points (entryAt bus dmiRanges i n base w)) {r : Except SimulationTrap (BitVec 64)}
    (h : WalkEnds bus hart dmiRanges i type n ((entryAt bus dmiRanges i n base w).ppn <<< 12)
      (afterEntry bus hart dmiRanges i n base w) r) :
    WalkEnds bus hart dmiRanges i type (n + 1) base w r := by
  have hunreadable : Unreadable bus hart dmiRanges i (n + 1) base w →
      Unreadable bus hart dmiRanges i n ((entryAt bus dmiRanges i n base w).ppn <<< 12)
        (afterEntry bus hart dmiRanges i n base w) := by
    intro hu
    cases hu with
    | here hno => exact absurd hread hno
    | next _ _ hu => exact hu
  have hnoPage : NoPage bus hart dmiRanges i type (n + 1) base w →
      NoPage bus hart dmiRanges i type n ((entryAt bus dmiRanges i n base w).ppn <<< 12)
        (afterEntry bus hart dmiRanges i n base w) := by
    intro hp
    cases hp with
    | invalid _ hinv => exact absurd hinv hpoints.1
    | leaf _ hleaf _ => exact absurd hleaf hpoints.2
    | next _ _ hp => exact hp
  cases h with
  | unreadable hu addr => exact .unreadable (.next hread hpoints hu) addr
  | noPage hp => exact .noPage (.next hread hpoints hp)
  | noUpdate hu hp ht => exact .noUpdate (hu ∘ hunreadable) (hp ∘ hnoPage) ht
  | page hu hp paddr => exact .page (hu ∘ hunreadable) (hp ∘ hnoPage) paddr

/-- Where there is no page, all entries have been read. -/
theorem NoPage.not_unreadable (h : NoPage bus hart dmiRanges i type n base w) :
    ¬Unreadable bus hart dmiRanges i n base w := by
  induction h with
  | noLevel =>
    intro hu
    cases hu
  | invalid hread hinv =>
    intro hu
    cases hu with
    | here hno => exact hno hread
    | next _ hpoints _ => exact hpoints.1 hinv
  | leaf hread hleaf _ =>
    intro hu
    cases hu with
    | here hno => exact hno hread
    | next _ hpoints _ => exact hpoints.2 hleaf
  | next hread _ _ ih =>
    intro hu
    cases hu with
    | here hno => exact hno hread
    | next _ _ hu => exact ih hu

/-- A walk ends at a leaf that is a page: only the update of its entry can fail. -/
theorem not_unreadable_of_isLeaf (hread : w.Answers bus dmiRanges (i.entryAddr n base) .double)
    (hleaf : Sv.IsLeaf (entryAt bus dmiRanges i n base w)) :
    ¬Unreadable bus hart dmiRanges i (n + 1) base w := by
  intro hu
  cases hu with
  | here hno => exact hno hread
  | next _ hpoints _ => exact hpoints.2 hleaf

theorem not_noPage_of_isPage (hvalid : ¬Sv.Invalid (entryAt bus dmiRanges i n base w))
    (hleaf : Sv.IsLeaf (entryAt bus dmiRanges i n base w))
    (hpage : i.IsPage type n (entryAt bus dmiRanges i n base w)) :
    ¬NoPage bus hart dmiRanges i type (n + 1) base w := by
  intro hp
  cases hp with
  | invalid _ hinv => exact hvalid hinv
  | leaf _ _ hno => exact hno hpage
  | next _ hpoints _ => exact hpoints.2 hleaf

/-- Setting the accessed bit or the dirty bit is a store. -/
theorem mmuStorePte32_error {addr value : BitVec 64} {t : SimulationTrap} {w' : World δ}
    (h : (mmuStorePte32 (World.memIf bus hart dmiRanges) addr value).run' w = (.error t, w')) :
    t.reason = .storeAmoPageFault :=
  ((World.throws_rawStore bus hart dmiRanges addr .word value).bind fun _ => .pure _) w t
    (congrArg Prod.fst h)

/-- One round of a walk, once the entry has been read. -/
theorem walkEntry_ends (hread : w.Answers bus dmiRanges (i.entryAddr n base) .double) {pte : Pte}
    (hpte : pte = entryAt bus dmiRanges i n base w)
    (hnext : WalkEnds bus hart dmiRanges i type n (pte.ppn <<< 12) (afterEntry bus hart dmiRanges i n base w)
      ((walkFrom (World.memIf bus hart dmiRanges) i.idxbits i.ptesize i.vaddr type i.sMode i.sum i.mxr n
        (pte.ppn <<< 12)).run' (afterEntry bus hart dmiRanges i n base w)).1) :
    WalkEnds bus hart dmiRanges i type (n + 1) base w
      (MemM.run'
        (if !pte.v || (!pte.r && pte.w) then throw (type.pageFault i.vaddr)
          else if !pte.r && !pte.x then
            walkFrom (World.memIf bus hart dmiRanges) i.idxbits i.ptesize i.vaddr type i.sMode i.sum i.mxr n
              (pte.ppn <<< 12)
          else if !pte.permits i.sMode i.sum i.mxr type then throw (type.pageFault i.vaddr)
          else if pte.ppn &&& ((1 <<< (n * i.idxbits)) - 1) ≠ 0 then throw (type.pageFault i.vaddr)
          else do
            if pte.value &&& Pte.ad type ≠ Pte.ad type then
              mmuStorePte32 (World.memIf bus hart dmiRanges) (i.entryAddr n base) (pte.value ||| Pte.ad type)
            return leafAddr pte.ppn i.vaddr (n * i.idxbits))
        (afterEntry bus hart dmiRanges i n base w)).1 := by
  have hinvalid : (!pte.v || (!pte.r && pte.w)) = true ↔ Sv.Invalid pte := by
    rw [Bool.or_eq_true, Bool.and_eq_true, Bool.not_eq_true', Bool.not_eq_true']
    rfl
  have hpointer : (!pte.r && !pte.x) = true ↔ ¬Sv.IsLeaf pte := by
    rw [Bool.and_eq_true, Bool.not_eq_true', Bool.not_eq_true', Sv.IsLeaf, not_or, Bool.not_eq_true,
      Bool.not_eq_true]
  by_cases hvalid : Sv.Invalid pte
  · rw [if_pos (hinvalid.mpr hvalid)]
    exact .noPage (.invalid hread (hpte ▸ hvalid))
  rw [if_neg (mt hinvalid.mp hvalid)]
  by_cases hleaf : Sv.IsLeaf pte
  swap
  · rw [if_pos (hpointer.mpr hleaf)]
    subst hpte
    exact hnext.next hread ⟨hvalid, hleaf⟩
  rw [if_neg (not_not.mpr hleaf ∘ hpointer.mp)]
  have hperm := @Sv.permits_iff type i.sMode _ hvalid i.sum i.mxr
  by_cases hallow : Sv.Allows pte type i.sMode i.sum i.mxr
  swap
  · rw [if_pos (by simpa using mt hperm.mp hallow)]
    subst hpte
    exact .noPage (.leaf hread hleaf fun hpage => hallow hpage.1)
  rw [if_neg (by simpa using hperm.mpr hallow)]
  by_cases halign : pte.ppn &&& ((1 <<< (n * i.idxbits)) - 1) = 0
  swap
  · rw [if_pos halign]
    subst hpte
    exact .noPage (.leaf hread hleaf fun hpage => halign hpage.2)
  rw [if_neg (not_not.mpr halign)]
  subst hpte
  -- the walk has found its page, and only the update of the entry is left
  have hu : ¬Unreadable bus hart dmiRanges i (n + 1) base w := not_unreadable_of_isLeaf hread hleaf
  have hp : ¬NoPage bus hart dmiRanges i type (n + 1) base w :=
    not_noPage_of_isPage hvalid hleaf ⟨hallow, halign⟩
  split_ifs with had
  · rw [MemM.run'_bind]
    rcases hstore : (mmuStorePte32 (World.memIf bus hart dmiRanges) (i.entryAddr n base)
      ((entryAt bus dmiRanges i n base w).value ||| Pte.ad type)).run'
        (afterEntry bus hart dmiRanges i n base w) with ⟨t | x, w'⟩
    · exact .noUpdate hu hp (mmuStorePte32_error hstore)
    · exact .page hu hp _
  · exact .page hu hp _

/-- A walk ends as the entries say. -/
theorem walkFrom_ends (n : ℕ) (base : BitVec 64) (w : World δ) :
    WalkEnds bus hart dmiRanges i type n base w
      ((walkFrom (World.memIf bus hart dmiRanges) i.idxbits i.ptesize i.vaddr type i.sMode i.sum i.mxr n
        base).run' w).1 := by
  induction n generalizing base w with
  | zero => exact .noPage .noLevel
  | succ n ih =>
    rw [walkFrom]
    dsimp only
    by_cases hread : w.Answers bus dmiRanges (i.entryAddr n base) .double
    · obtain ⟨last, hload⟩ := World.rawLoad_of_answers hart hread
      unfold WalkInfo.entryAddr at hload
      rw [MemM.run'_bind, run'_mmuLoadPte64, hload]
      exact walkEntry_ends hread rfl (ih _ _)
    · have hload := World.rawLoad_of_not_answers hart hread
      unfold WalkInfo.entryAddr at hload
      rw [MemM.run'_bind, run'_mmuLoadPte64, hload]
      exact .unreadable (.here hread) _

/-- A walk throws a load page fault if an entry cannot be read, or if it is for a load and finds no page. -/
theorem walkFrom_loadPageFault_iff (htype : type ≠ .fetch) :
    (∃ t, ((walkFrom (World.memIf bus hart dmiRanges) i.idxbits i.ptesize i.vaddr type i.sMode i.sum i.mxr n
        base).run' w).1 = .error t ∧ t.reason = .loadPageFault) ↔
      Unreadable bus hart dmiRanges i n base w ∨
        (type = .load ∧ NoPage bus hart dmiRanges i type n base w) := by
  have hends : WalkEnds bus hart dmiRanges i type n base w ((walkFrom (World.memIf bus hart dmiRanges)
      i.idxbits i.ptesize i.vaddr type i.sMode i.sum i.mxr n base).run' w).1 := walkFrom_ends n base w
  generalize ((walkFrom (World.memIf bus hart dmiRanges) i.idxbits i.ptesize i.vaddr type i.sMode i.sum i.mxr n
    base).run' w).1 = r at hends
  cases hends with
  | unreadable h addr => exact ⟨fun _ => .inl h, fun _ => ⟨_, rfl, rfl⟩⟩
  | noPage h =>
    cases type with
    | fetch => exact absurd rfl htype
    | load => exact ⟨fun _ => .inr ⟨rfl, h⟩, fun _ => ⟨_, rfl, rfl⟩⟩
    | store =>
      constructor
      · rintro ⟨t, ht, hreason⟩
        cases ht
        cases hreason
      · rintro (hu | ⟨hload, -⟩)
        · exact absurd hu h.not_unreadable
        · cases hload
  | noUpdate hu hp ht =>
    constructor
    · rintro ⟨t, hsame, hreason⟩
      cases hsame
      rw [ht] at hreason
      cases hreason
    · rintro (hu' | ⟨-, hp'⟩)
      · exact absurd hu' hu
      · exact absurd hp' hp
  | page hu hp paddr =>
    constructor
    · rintro ⟨t, ht, -⟩
      cases ht
    · rintro (hu' | ⟨-, hp'⟩)
      · exact absurd hu' hu
      · exact absurd hp' hp

end Cases

/-! ### Translations -/

/-- What the walk of `walk` looks at. -/
def walkInfo (csrs : Csrs) (vaddr : BitVec 64) (mode : PrivilegeLevel) : WalkInfo where
  idxbits := (decodeVmInfo csrs.satp).idxbits
  ptesize := (decodeVmInfo csrs.satp).ptesize
  vaddr := vaddr
  sMode := mode == .supervisor
  sum := csrs.mstatus.sum
  mxr := csrs.mstatus.mxr

/-- The levels of a walk: none for an address that is not canonical. -/
def walkLevels (csrs : Csrs) (vaddr : BitVec 64) : ℕ :=
  if checkVaddrExtension vaddr (decodeVmInfo csrs.satp) then (decodeVmInfo csrs.satp).levels else 0

theorem walk_eq_walkFrom {σ : Type} (mem : MemIf (MemM σ)) (csrs : Csrs) (va : BitVec 64)
    (type : MemoryAccessType) (mode : PrivilegeLevel) :
    walk mem csrs va type mode = walkFrom mem (walkInfo csrs va mode).idxbits (walkInfo csrs va mode).ptesize
      (walkInfo csrs va mode).vaddr type (walkInfo csrs va mode).sMode (walkInfo csrs va mode).sum
      (walkInfo csrs va mode).mxr (walkLevels csrs va) (decodeVmInfo csrs.satp).ptbase := rfl

end Mmu

namespace Core

open Mmu

variable {δ : Type} (bus : Bus δ) (hart : ℕ) (c : Core δ) (va : BitVec 64) (type : MemoryAccessType)

/-- An access has to walk the page table: its mode translates, and the entry of the buffer is for another
page. -/
def Walks (mode : PrivilegeLevel) : Prop :=
  translationMode c.csrs c.prv type = some mode ∧ (c.tlb mode type (tlbIdx (va >>> 12))).vpn ≠ va >>> 12

/-- A page table entry for the access cannot be read. -/
def EntryUnreadable : Prop :=
  ∃ mode, c.Walks va type mode ∧ Unreadable bus hart c.dmi.dmiRanges (walkInfo c.csrs va mode)
    (walkLevels c.csrs va) (decodeVmInfo c.csrs.satp).ptbase c.world

/-- The page table has no page for the access. -/
def HasNoPage : Prop :=
  ∃ mode, c.Walks va type mode ∧ NoPage bus hart c.dmi.dmiRanges (walkInfo c.csrs va mode) type
    (walkLevels c.csrs va) (decodeVmInfo c.csrs.satp).ptbase c.world

variable {bus hart c va type}

/-- **A translation throws a load page fault** if it walks, and an entry cannot be read, or the access is a load
and has no page. -/
theorem v2p_loadPageFault_iff (htype : type ≠ .fetch) :
    (∃ t c', c.v2p bus hart va type = (.error t, c') ∧ t.reason = .loadPageFault) ↔
      c.EntryUnreadable bus hart va type ∨ (type = .load ∧ c.HasNoPage bus hart va type) := by
  -- an access that does not walk throws nothing
  have hnone : ∀ {r : BitVec 64 × Tlb}, (∀ mode, ¬c.Walks va type mode) →
      Mmu.translate (c.memIf bus hart) c.csrs c.prv c.tlb va type = pure r →
      ((∃ t c', c.v2p bus hart va type = (.error t, c') ∧ t.reason = .loadPageFault) ↔
        c.EntryUnreadable bus hart va type ∨ (type = .load ∧ c.HasNoPage bus hart va type)) := by
    intro r hwalks hpure
    constructor
    · rintro ⟨t, c', hv, -⟩
      rw [v2p, hpure] at hv
      cases hv
    · rintro (⟨mode, hw, -⟩ | ⟨-, mode, hw, -⟩)
      · exact absurd hw (hwalks mode)
      · exact absurd hw (hwalks mode)
  cases hmode : translationMode c.csrs c.prv type with
  | none =>
    refine hnone (fun mode hw => ?_) (by rw [Mmu.translate, hmode])
    rw [hw.1] at hmode
    cases hmode
  | some mode =>
    by_cases hhit : (c.tlb mode type (tlbIdx (va >>> 12))).vpn = va >>> 12
    · refine hnone (fun mode' hw => ?_) (by rw [Mmu.translate, hmode]; exact if_pos hhit)
      rw [hw.1] at hmode
      cases hmode
      exact hw.2 hhit
    have hunique : ∀ {mode'}, c.Walks va type mode' → mode' = mode := fun hw =>
      Option.some.inj (hw.1.symm.trans hmode)
    have hwalk : (∃ t c', c.v2p bus hart va type = (.error t, c') ∧ t.reason = .loadPageFault) ↔
        ∃ t, ((Mmu.walk (c.memIf bus hart) c.csrs va type mode).run' c.world).1 = .error t ∧
          t.reason = .loadPageFault := by
      rw [v2p, Mmu.translate, hmode]
      dsimp only
      rw [if_neg hhit, MemM.run'_bind]
      rcases (Mmu.walk (c.memIf bus hart) c.csrs va type mode).run' c.world with ⟨t | pa, w⟩
      · constructor
        · rintro ⟨t', c', h, hreason⟩
          cases h
          exact ⟨_, rfl, hreason⟩
        · rintro ⟨t', h, hreason⟩
          cases h
          exact ⟨_, _, rfl, hreason⟩
      · constructor
        · rintro ⟨t', c', h, -⟩
          cases h
        · rintro ⟨t', h, -⟩
          cases h
    have hfrom : (∃ t, ((Mmu.walk (c.memIf bus hart) c.csrs va type mode).run' c.world).1 = .error t ∧
          t.reason = .loadPageFault) ↔
        Unreadable bus hart c.dmi.dmiRanges (walkInfo c.csrs va mode) (walkLevels c.csrs va)
            (decodeVmInfo c.csrs.satp).ptbase c.world ∨
          (type = .load ∧ NoPage bus hart c.dmi.dmiRanges (walkInfo c.csrs va mode) type
            (walkLevels c.csrs va) (decodeVmInfo c.csrs.satp).ptbase c.world) := by
      rw [memIf, Mmu.walk_eq_walkFrom]
      exact walkFrom_loadPageFault_iff htype
    rw [hwalk, hfrom]
    refine or_congr ?_ (and_congr_right fun _ => ?_)
    · constructor
      · exact fun h => ⟨mode, ⟨hmode, hhit⟩, h⟩
      · rintro ⟨mode', hw, h⟩
        rw [hunique hw] at h
        exact h
    · constructor
      · exact fun h => ⟨mode, ⟨hmode, hhit⟩, h⟩
      · rintro ⟨mode', hw, h⟩
        rw [hunique hw] at h
        exact h

variable (bus hart c va) in
/-- The address is translated, and neither a DMI range nor anything on the bus answers a load from there. -/
def LoadUnanswered (n : Width) : Prop :=
  ∃ paddr c', c.v2p bus hart va .load = (.ok paddr, c') ∧ ¬c'.world.Answers bus c'.dmi.dmiRanges paddr n

/-- **A load throws a load page fault** if an entry cannot be read, or there is no page, or nothing answers. -/
theorem load_loadPageFault_iff (op : LoadOp) :
    (∃ t c', c.load bus hart op va = (.error t, c') ∧ t.reason = .loadPageFault) ↔
      c.EntryUnreadable bus hart va .load ∨ c.HasNoPage bus hart va .load ∨
        c.LoadUnanswered bus hart va op.width := by
  have hv2p : (∃ t c', c.v2p bus hart va .load = (.error t, c') ∧ t.reason = .loadPageFault) ↔
      c.EntryUnreadable bus hart va .load ∨ c.HasNoPage bus hart va .load := by
    rw [v2p_loadPageFault_iff (by decide)]
    simp only [true_and]
  rw [← or_assoc, ← hv2p]
  rcases hv : c.v2p bus hart va .load with ⟨t | paddr, c₁⟩
  · -- the translation traps, and the load passes its trap on
    have hload : c.load bus hart op va = (.error t, c₁) := by rw [load, loadData, hv]
    rw [hload]
    constructor
    · rintro ⟨t', c', h, hreason⟩
      cases h
      exact .inl ⟨t, c₁, rfl, hreason⟩
    · rintro (⟨t', c', h, hreason⟩ | ⟨paddr, c', h, -⟩)
      · cases h
        exact ⟨t, c₁, rfl, hreason⟩
      · rw [hv] at h
        cases h
  · have hno : ¬∃ t c', ((.ok paddr, c₁) : Except SimulationTrap (BitVec 64) × Core δ) = (.error t, c') ∧
        t.reason = .loadPageFault := by
      rintro ⟨t, c', h, -⟩
      cases h
    have hunanswered : c.LoadUnanswered bus hart va op.width ↔
        ¬c₁.world.Answers bus c₁.dmi.dmiRanges paddr op.width := by
      constructor
      · rintro ⟨paddr', c', h, hno⟩
        rw [hv] at h
        cases h
        exact hno
      · exact fun h => ⟨paddr, c₁, hv, h⟩
    rw [hunanswered, or_iff_right hno]
    -- the translation succeeds, so that only the bus can refuse
    by_cases hread : c₁.world.Answers bus c₁.dmi.dmiRanges paddr op.width
    · obtain ⟨last, hload⟩ := World.rawLoad_of_answers hart hread
      have hok : ∃ x c', c.load bus hart op va = (.ok x, c') := by
        rw [load, loadData, hv]
        dsimp only
        rw [memIf, hload]
        exact ⟨_, _, rfl⟩
      obtain ⟨x, c', hok⟩ := hok
      rw [hok]
      constructor
      · rintro ⟨t, c'', h, -⟩
        cases h
      · exact fun h => absurd hread h
    · have hload := World.rawLoad_of_not_answers hart hread
      refine ⟨fun _ => hread, fun _ => ?_⟩
      rw [load, loadData, hv]
      dsimp only
      rw [memIf]
      rcases hr : ((World.memIf bus hart c₁.dmi.dmiRanges).rawLoad paddr op.width).run' c₁.world with ⟨t | x, w⟩
      · rw [hr] at hload
        cases hload
        exact ⟨_, _, rfl, rfl⟩
      · rw [hr] at hload
        cases hload

end Core

end RiscvVp
