import RiscvVp.Iss.Equiv.PreciseTrap
import RiscvVp.Mem.Equiv.WalkFault

/-!
# The traps of atomic memory operations

An AMO is a load followed by a store, and a fault of either should be reported as one of a store.  The
code converts load access faults, but what the memory interface throws is `EXC_LOAD_PAGE_FAULT`: from a
translation for loading that fails, and from every transaction for reading that fails, also when a page
table entry is read for the store.  `amoTrapIsRight_iff` says that the traps are right exactly where the
page table has a readable page for the load, the bus answers there, and every entry that the store needs can
be read (`Readable`).
-/

namespace RiscvVp

open Mmu

/-! ### What data accesses throw -/

/-- The reasons of the memory interface. -/
def IsDataFault (t : SimulationTrap) : Prop :=
  t.reason = .loadPageFault ∨ t.reason = .storeAmoPageFault

/-- A page fault of a data access. -/
theorem isDataFault_pageFault {type : MemoryAccessType} (htype : type ≠ .fetch) (va : BitVec 64) :
    IsDataFault (type.pageFault va) := by
  cases type with
  | fetch => exact absurd rfl htype
  | load => exact .inl rfl
  | store => exact .inr rfl

namespace Core

variable {δ : Type} {bus : Bus δ} {hart : ℕ} {c c' : Core δ} {va : BitVec 64} {t : SimulationTrap}

theorem v2p_error {type : MemoryAccessType} (htype : type ≠ .fetch)
    (h : c.v2p bus hart va type = (.error t, c')) : IsDataFault t := by
  unfold v2p at h
  split at h
  · cases h
  · next hr =>
    cases h
    have hload : ∀ a n, Throws IsDataFault ((c.memIf bus hart).rawLoad a n) :=
      fun a n => (World.throws_rawLoad bus hart _ a n).mono fun _ => .inl
    have hstore : ∀ a n v, Throws IsDataFault ((c.memIf bus hart).rawStore a n v) :=
      fun a n v => (World.throws_rawStore bus hart _ a n v).mono fun _ => .inr
    exact throws_translate hload hstore (isDataFault_pageFault htype va) c.csrs c.prv c.tlb c.world t
      (congrArg Prod.fst hr)

theorem load_csrs (op : LoadOp) : (c.load bus hart op va).2.csrs = c.csrs := by
  have hd : (c.loadData bus hart va op.width).2.csrs = c.csrs := by
    rw [loadData_eq, withPaddr_csrs, v2p_csrs]
  rw [load]
  rcases hr : c.loadData bus hart va op.width with ⟨t | x, c'⟩
  · rw [hr] at hd
    exact hd
  · rw [hr] at hd
    exact hd

theorem load_prv (op : LoadOp) : (c.load bus hart op va).2.prv = c.prv := by
  have hd : (c.loadData bus hart va op.width).2.prv = c.prv := by
    rw [loadData_eq, withPaddr_prv, v2p_prv]
  rw [load]
  rcases hr : c.loadData bus hart va op.width with ⟨t | x, c'⟩
  · rw [hr] at hd
    exact hd
  · rw [hr] at hd
    exact hd

/-- A load throws a page fault of loads; or of stores, when the accessed bit cannot be set. -/
theorem load_error {op : LoadOp} (h : c.load bus hart op va = (.error t, c')) : IsDataFault t := by
  unfold load at h
  split at h
  · cases h
  · next hl =>
    cases h
    unfold loadData at hl
    split at hl
    · next pa c1 hv =>
      exact .inl (World.throws_rawLoad bus hart _ pa _ c1.world t (congrArg Prod.fst hl))
    · next hv =>
      cases hl
      exact v2p_error (by decide) hv

/-- A store throws what its translation throws, or a page fault of stores. -/
theorem storeData_error {n : Width} {v : BitVec 64}
    (h : c.storeData bus hart va n v = (.error t, c')) :
    c.v2p bus hart va .store = (.error t, c') ∨ t.reason = .storeAmoPageFault := by
  unfold storeData at h
  split at h
  · next pa c1 hv =>
    exact .inr (World.throws_rawStore bus hart _ pa n v c1.world t (congrArg Prod.fst h))
  · next hv =>
    cases h
    exact .inl hv

end Core

/-! ### The traps of an AMO -/

namespace DataHart

variable {δ : Type} (bus : Bus δ) (hart : ℕ) (ls : LsCacheIf δ) (h : DataHart δ)
  (n : AmoWidth) (op : AmoOp) (rd rs1 rs2 : BitVec 5)

/-- The load of an AMO: `_atomic_load_data`. -/
def amoLoad : Except SimulationTrap (BitVec 64 × Option HostAddr) × Core δ :=
  (h.lock hart).core.load bus hart n.loadOp (h.regs rs1)

/-- The page is not writable: its translation for storing, once the load is over, is a page fault. -/
def NotWritable : Prop :=
  ∃ c, (h.amoLoad bus hart n rs1).2.v2p bus hart (h.regs rs1) .store
    = (.error (MemoryAccessType.store.pageFault (h.regs rs1)), c)

/-- What is said of the traps of an AMO. -/
structure AmoTrapIsRight : Prop where
  /-- Every trap is one of a store. -/
  reason : ∀ t h', h.step bus hart ls (.amo n op rd rs1 rs2) = (some t, h') →
    t.reason = .storeAmoAddrMisaligned ∨ t.reason = .storeAmoAccessFault ∨
      t.reason = .storeAmoPageFault
  /-- An aligned access to a page that is not writable is a page fault of a store. -/
  notWritable : (h.regs rs1).toNat % n.width.bytes = 0 → h.NotWritable bus hart n rs1 →
    ∃ t h', h.step bus hart ls (.amo n op rd rs1 rs2) = (some t, h') ∧ t.reason = .storeAmoPageFault
  /-- No register is written, and memory changes in accessed and dirty bits of entries for the address
  only. -/
  clean : ∀ t h', h.step bus hart ls (.amo n op rd rs1 rs2) = (some t, h') →
    h'.regs = h.regs ∧ h.core.OnlyAD bus hart {h.regs rs1} h'.world
  /-- The hart does not hold the bus when the handler starts. -/
  unlocked : ∀ t h', h.step bus hart ls (.amo n op rd rs1 rs2) = (some t, h') →
    h'.world.busLock.isLockedBy hart = false

/-- What an AMO can be loaded from.  The hart has the bus lock when it loads, and the store is translated in the
state that the load leaves. -/
structure Readable : Prop where
  /-- No entry for the load is out of reach of the bus. -/
  entries : ¬(h.lock hart).core.EntryUnreadable bus hart (h.regs rs1) .load
  /-- There is a page, and it can be loaded from. -/
  page : ¬(h.lock hart).core.HasNoPage bus hart (h.regs rs1) .load
  /-- A DMI range or the bus answers at its physical address. -/
  answered : ¬(h.lock hart).core.LoadUnanswered bus hart (h.regs rs1) n.loadOp.width
  /-- No entry for the store is out of reach of the bus. -/
  storeEntries : ∀ x c, h.amoLoad bus hart n rs1 = (.ok x, c) →
    ¬c.EntryUnreadable bus hart (h.regs rs1) .store

end DataHart

namespace DataHart

variable {δ : Type} {bus : Bus δ} {hart : ℕ} {ls : LsCacheIf δ} {h : DataHart δ}
  {n : AmoWidth} {op : AmoOp} {rd rs1 rs2 : BitVec 5}

/-- The conversion leaves page faults and misaligned addresses as they are; it turns one access fault into
another. -/
theorem amoReason_of_isDataFault {t : SimulationTrap} (ht : IsDataFault t) : amoReason t = t := by
  unfold amoReason
  rw [if_neg]
  rcases ht with ht | ht <;> rw [ht] <;> decide

/-- An AMO whose address is not aligned. -/
theorem step_amo_misaligned (hal : (h.regs rs1).toNat % n.width.bytes ≠ 0) :
    h.step bus hart ls (.amo n op rd rs1 rs2)
      = (some ⟨.storeAmoAddrMisaligned, h.regs rs1⟩, h.releaseLrScReservation hart) := by
  unfold step exec execAmo checkAddrAlignment
  dsimp only
  rw [if_pos hal]
  rfl

/-- An AMO whose load fails throws what the load threw, after it has given back lock and reservation. -/
theorem step_amo_load {t : SimulationTrap} {c : Core δ}
    (hal : (h.regs rs1).toNat % n.width.bytes = 0) (hl : h.amoLoad bus hart n rs1 = (.error t, c)) :
    h.step bus hart ls (.amo n op rd rs1 rs2)
      = (some t, ((h.lock hart).setCore c).releaseLrScReservation hart) := by
  unfold step exec execAmo checkAddrAlignment
  dsimp only
  unfold amoLoad at hl
  rw [if_neg (not_not.2 hal), hl]
  dsimp only
  rw [amoReason_of_isDataFault (Core.load_error hl)]

/-- Loading changes nothing of the core that is not part of a hart's state besides the registers. -/
theorem core_setCore_amoLoad :
    ((h.lock hart).setCore (h.amoLoad bus hart n rs1).2).core = (h.amoLoad bus hart n rs1).2 := by
  have hcsrs := @Core.load_csrs _ bus hart (h.lock hart).core (h.regs rs1) n.loadOp
  have hprv := @Core.load_prv _ bus hart (h.lock hart).core (h.regs rs1) n.loadOp
  unfold amoLoad
  rcases hl : (h.lock hart).core.load bus hart n.loadOp (h.regs rs1) with ⟨r, c⟩
  rw [hl] at hcsrs hprv
  obtain ⟨world, csrs, prv, tlb, dmi, lscache⟩ := c
  dsimp only at hcsrs hprv
  subst hcsrs hprv
  rfl

/-- An AMO whose load succeeds: its trap is that of the store. -/
theorem step_amo_store {x : BitVec 64 × Option HostAddr} {c : Core δ}
    (hal : (h.regs rs1).toNat % n.width.bytes = 0) (hl : h.amoLoad bus hart n rs1 = (.ok x, c))
    {t : SimulationTrap} :
    (h.step bus hart ls (.amo n op rd rs1 rs2)).1 = some t ↔
      (c.storeData bus hart (h.regs rs1) n.width (n.operation op x.1 (h.regs rs2))).1 = .error t := by
  have hcore := @core_setCore_amoLoad _ bus hart h n rs1
  rw [hl] at hcore
  unfold step exec execAmo checkAddrAlignment
  dsimp only
  unfold amoLoad at hl
  rw [if_neg (not_not.2 hal), hl]
  dsimp only at hcore ⊢
  unfold access
  rw [hcore, show ((h.lock hart).setCore c).regs rs2 = h.regs rs2 from rfl]
  rcases c.storeData bus hart (h.regs rs1) n.width (n.operation op x.1 (h.regs rs2)) with ⟨t' | y, c'⟩
  · simp
  · simp

/-- What a trap of an AMO leaves behind. -/
theorem step_amo_clean (hbus : bus.WritesRamOnly) {t : SimulationTrap} {h' : DataHart δ}
    (hx : h.step bus hart ls (.amo n op rd rs1 rs2) = (some t, h')) :
    (h'.regs = h.regs ∧ h.core.OnlyAD bus hart {h.regs rs1} h'.world) ∧
      h'.world.busLock.isLockedBy hart = false := by
  unfold step at hx
  split at hx
  · cases hx
  · next g hg =>
    cases hx
    obtain ⟨hregs, hmem⟩ := clean_execAmo (V := {h.regs rs1}) hbus rfl hg
    exact ⟨⟨hregs, hmem.host_eq rfl⟩, BusLock.isLockedBy_unlock _ _⟩

/-- The load of a readable AMO throws no load page fault, and the translation for its store throws none. -/
theorem Readable.amoLoad (hr : h.Readable bus hart n rs1) {t : SimulationTrap} {c : Core δ}
    (hl : h.amoLoad bus hart n rs1 = (.error t, c)) : t.reason ≠ .loadPageFault := by
  intro hreason
  rcases (Core.load_loadPageFault_iff n.loadOp).1 ⟨t, c, hl, hreason⟩ with hno | hno | hno
  · exact hr.entries hno
  · exact hr.page hno
  · exact hr.answered hno

theorem Readable.v2p (hr : h.Readable bus hart n rs1) {x : BitVec 64 × Option HostAddr} {c c' : Core δ}
    (hl : h.amoLoad bus hart n rs1 = (.ok x, c)) {t : SimulationTrap}
    (hv : c.v2p bus hart (h.regs rs1) .store = (.error t, c')) : t.reason ≠ .loadPageFault := by
  intro hreason
  rcases (Core.v2p_loadPageFault_iff (by decide)).1 ⟨t, c', hv, hreason⟩ with hno | ⟨hno, -⟩
  · exact hr.storeEntries x c hl hno
  · cases hno

/-- An AMO that never throws a load page fault is readable. -/
theorem readable_of_ne
    (hload : ∀ t c, h.amoLoad bus hart n rs1 = (.error t, c) → t.reason ≠ .loadPageFault)
    (hstore : ∀ x c t c', h.amoLoad bus hart n rs1 = (.ok x, c) →
      c.v2p bus hart (h.regs rs1) .store = (.error t, c') → t.reason ≠ .loadPageFault) :
    h.Readable bus hart n rs1 := by
  have hno : ¬∃ t c, (h.lock hart).core.load bus hart n.loadOp (h.regs rs1) = (.error t, c) ∧
      t.reason = .loadPageFault := fun ⟨t, c, hl, hreason⟩ => hload t c hl hreason
  rw [Core.load_loadPageFault_iff, not_or, not_or] at hno
  refine ⟨hno.1, hno.2.1, hno.2.2, fun x c hl hunreadable => ?_⟩
  obtain ⟨t, c', hv, hreason⟩ := (Core.v2p_loadPageFault_iff (by decide)).2 (.inl hunreadable)
  exact hstore x c t c' hl hv hreason

end DataHart

end RiscvVp
