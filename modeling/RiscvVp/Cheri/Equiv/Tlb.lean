import RiscvVp.Cheri.Mmu
import RiscvVp.Cheri.RawMem
import RiscvVp.Mem.Equiv.Tlb

/-!
# The translation lookaside buffer and the capability bits of a page

The buffer keeps page numbers.  What a page walk finds out about capabilities, beyond the address, is
lost on a hit: the flags for loads, and the fault of a tagged store.  `Mmu.sameAsCheriWalk_iff` says for
every call, in every run on fixed page tables, exactly when the answer is that of the walk.

The walk itself means to set `PTE_CD` for a tagged store, but writes back the lower half of the entry
only, so that no call ever sets the bit in memory (`walkFrom_run'`).
-/

namespace RiscvVp.Cheri.Mmu

open RiscvVp.Mmu (leafAddr mmuLoadPte64 mmuStorePte32 ptePaddr isPointer Tlb tlbIdx translationMode
  needsStatus)

/-! ### Page tables -/

/-- The contents of page tables: what is read at an address, without the bits `A`, `D` and `CD`. -/
abbrev Tables := BitVec 64 → Except Stop (BitVec 64)

/-- Clear `PTE_A`, `PTE_D` and `PTE_CD`, the bits that a walk may set. -/
def maskADC (v : BitVec 64) : BitVec 64 := v &&& ~~~0x20000000000000C0

/-- A word whose lower half has been written. -/
def setLow (v x : BitVec 64) : BitVec 64 := (v &&& 0xFFFFFFFF00000000) ||| (x &&& 0xFFFFFFFF)

namespace Tables

variable (T : Tables)

/-- The leaf that the loop of `walk` finds, with its level. -/
def leafFrom (idxbits : ℕ) (ptesize vaddr : BitVec 64) (type : MemoryAccessType) :
    ℕ → BitVec 64 → Except Stop (Pte × ℕ)
  | 0, _ => .error (.trap (type.pageFault vaddr))
  | n + 1, base =>
    match T (ptePaddr idxbits ptesize vaddr n base) with
    | .error e => .error e
    | .ok v =>
      let pte : Pte := ⟨v⟩
      if !pte.v || (!pte.r && pte.w) then .error (.trap (type.pageFault vaddr))
      else if !pte.r && !pte.x then leafFrom idxbits ptesize vaddr type n (pte.cheriPpn <<< 12)
      else .ok (pte, n * idxbits)

/-- The leaf of an address, with its level, or the page fault that the walk ends with. -/
def leaf (satp : Satp) (vaddr : BitVec 64) (type : MemoryAccessType) : Except Stop (Pte × ℕ) :=
  let vm := decodeVmInfo satp
  let levels := if checkVaddrExtension vaddr vm then vm.levels else 0
  T.leafFrom vm.idxbits vm.ptesize vaddr type levels vm.ptbase

end Tables

/-- What is done with a leaf. -/
def useLeaf (vaddr : BitVec 64) (type : MemoryAccessType) (sMode sum mxr tag : Bool)
    (flags : TagFlags) (l : Pte × ℕ) : Except Stop (BitVec 64 × TagFlags) :=
  if !l.1.permits sMode sum mxr type then .error (.trap (type.pageFault vaddr))
  else if tag ∧ type = .store ∧ l.1.cw = false then .error (.trap ⟨.cheriStoreFault, vaddr⟩)
  else if l.1.cheriPpn &&& ((1 <<< l.2) - 1) ≠ 0 then .error (.trap (type.pageFault vaddr))
  else .ok (leafAddr l.1.cheriPpn vaddr l.2, loadFlags type l.1 flags)

/-- The outcome of a walk on these tables. -/
def Tables.walk (T : Tables) (satp : Satp) (vaddr : BitVec 64) (type : MemoryAccessType)
    (sMode sum mxr tag : Bool) (flags : TagFlags) : Except Stop (BitVec 64 × TagFlags) :=
  (T.leaf satp vaddr type).bind (useLeaf vaddr type sMode sum mxr tag flags)

/-- The tables that walks reach: a table for `n` more levels at `base`. -/
inductive Tables.Reach (T : Tables) (vm : VmInfo) : ℕ → BitVec 64 → Prop
  | root : T.Reach vm vm.levels vm.ptbase
  | next {n : ℕ} {base v : BitVec 64} (vaddr : BitVec 64) (h : T.Reach vm (n + 1) base)
      (hv : T (ptePaddr vm.idxbits vm.ptesize vaddr n base) = .ok v) (hp : isPointer ⟨v⟩ = true) :
      T.Reach vm n ((⟨v⟩ : Pte).cheriPpn <<< 12)

/-- The addresses of entries of these tables. -/
def Tables.Entry (T : Tables) (vm : VmInfo) (a : BitVec 64) : Prop :=
  ∃ n base vaddr, T.Reach vm (n + 1) base ∧ a = ptePaddr vm.idxbits vm.ptesize vaddr n base

/-- `P` describes states of memory whose page tables have the contents `T`, where `word` is what
memory holds: the entries are read, and storing 32 bits that differ in accessed and dirty bits only
writes the lower half of the entry and nothing else. -/
structure PteMemory {σ : Type} (mem : MemIf (CheriM σ)) (vm : VmInfo) (T : Tables)
    (word : σ → Tables) (P : σ → Prop) : Prop where
  tables : ∀ s, P s → ∀ a, T.Entry vm a → (word s a).map maskADC = T a
  load : ∀ s, P s → ∀ a, T.Entry vm a → ∃ r s', (mem.rawLoad a .double).run' s = (r, s') ∧
    r.map (·.1) = word s a ∧ P s' ∧ ∀ b, T.Entry vm b → word s' b = word s b
  store : ∀ s, P s → ∀ a, T.Entry vm a → ∀ v x, word s a = .ok v →
    maskADC (setLow v x) = maskADC v → ∃ r s', (mem.rawStore a .word x).run' s = (.ok r, s') ∧
      P s' ∧ ∀ b, T.Entry vm b → word s' b = if b = a then .ok (setLow v x) else word s b

/-- The entries in memory have the same `PTE_CD`. -/
def SameCD {σ : Type} (T : Tables) (vm : VmInfo) (word : σ → Tables) (s s' : σ) : Prop :=
  ∀ a, T.Entry vm a → (word s' a).map (fun v => (⟨v⟩ : Pte).cd) =
    (word s a).map fun v => (⟨v⟩ : Pte).cd

/-! ### Masking -/

section Mask

theorem getLsbD_maskADC (v : BitVec 64) {i : ℕ} (h6 : i ≠ 6) (h7 : i ≠ 7) (h61 : i ≠ 61) :
    (maskADC v).getLsbD i = v.getLsbD i := by
  by_cases hi : i < 64
  · have hbit : ∀ j : Fin 64, (j : ℕ) ≠ 6 → (j : ℕ) ≠ 7 → (j : ℕ) ≠ 61 →
        (~~~(0x20000000000000C0 : BitVec 64)).getLsbD j = true := by
      decide
    rw [maskADC, BitVec.getLsbD_and, hbit ⟨i, hi⟩ h6 h7 h61, Bool.and_true]
  · rw [BitVec.getLsbD_of_ge _ _ (not_lt.mp hi), BitVec.getLsbD_of_ge _ _ (not_lt.mp hi)]

theorem maskADC_eq_iff {v v' : BitVec 64} : maskADC v = maskADC v' ↔
    ∀ i, i ≠ 6 → i ≠ 7 → i ≠ 61 → v.getLsbD i = v'.getLsbD i := by
  constructor
  · intro h i h6 h7 h61
    rw [← getLsbD_maskADC v h6 h7 h61, h, getLsbD_maskADC v' h6 h7 h61]
  · intro h
    apply BitVec.eq_of_getLsbD_eq
    intro i hi
    have hbit : ∀ j : Fin 64, (j : ℕ) = 6 ∨ (j : ℕ) = 7 ∨ (j : ℕ) = 61 →
        (~~~(0x20000000000000C0 : BitVec 64)).getLsbD j = false := by
      decide
    by_cases hj : i = 6 ∨ i = 7 ∨ i = 61
    · simp only [maskADC, BitVec.getLsbD_and, hbit ⟨i, hi⟩ hj, Bool.and_false]
    · obtain ⟨h6, h7, h61⟩ : i ≠ 6 ∧ i ≠ 7 ∧ i ≠ 61 := by omega
      rw [getLsbD_maskADC v h6 h7 h61, getLsbD_maskADC v' h6 h7 h61, h i h6 h7 h61]

variable {v v' : BitVec 64} (h : maskADC v = maskADC v')
include h

theorem pte_bits_eq : (⟨v⟩ : Pte).v = (⟨v'⟩ : Pte).v ∧ (⟨v⟩ : Pte).r = (⟨v'⟩ : Pte).r ∧
    (⟨v⟩ : Pte).w = (⟨v'⟩ : Pte).w ∧ (⟨v⟩ : Pte).x = (⟨v'⟩ : Pte).x ∧
    (⟨v⟩ : Pte).u = (⟨v'⟩ : Pte).u ∧ (⟨v⟩ : Pte).cw = (⟨v'⟩ : Pte).cw := by
  rw [maskADC_eq_iff] at h
  exact ⟨h 0 (by decide) (by decide) (by decide), h 1 (by decide) (by decide) (by decide),
    h 2 (by decide) (by decide) (by decide), h 3 (by decide) (by decide) (by decide),
    h 4 (by decide) (by decide) (by decide), h 63 (by decide) (by decide) (by decide)⟩

theorem permits_eq (sMode sum mxr : Bool) (type : MemoryAccessType) :
    (⟨v⟩ : Pte).permits sMode sum mxr type = (⟨v'⟩ : Pte).permits sMode sum mxr type := by
  obtain ⟨-, hr, hw, hx, hu, -⟩ := pte_bits_eq h
  simp only [Pte.permits, hr, hw, hx, hu]

theorem cheriLoadPerms_eq : cheriLoadPerms ⟨v⟩ = cheriLoadPerms ⟨v'⟩ := by
  rw [maskADC_eq_iff] at h
  simp only [cheriLoadPerms, Pte.cr, Pte.crm, Pte.crg, h 62 (by decide) (by decide) (by decide),
    h 60 (by decide) (by decide) (by decide), h 59 (by decide) (by decide) (by decide)]

theorem cheriPpn_eq : (⟨v⟩ : Pte).cheriPpn = (⟨v'⟩ : Pte).cheriPpn := by
  rw [maskADC_eq_iff] at h
  have hmask : Pte.cheriPermMask.getLsbD 61 = false := by decide
  apply BitVec.eq_of_getLsbD_eq
  intro i _
  simp only [Pte.cheriPpn, BitVec.getLsbD_ushiftRight, BitVec.getLsbD_and]
  by_cases h61 : 10 + i = 61
  · rw [h61, hmask, Bool.and_false, Bool.and_false]
  · rw [h (10 + i) (by omega) (by omega) h61]

end Mask

theorem maskADC_maskADC (v : BitVec 64) : maskADC (maskADC v) = maskADC v := by
  rw [maskADC, maskADC, BitVec.and_assoc, BitVec.and_self]

theorem getLsbD_setLow (v x : BitVec 64) (i : ℕ) :
    (setLow v x).getLsbD i = if i < 32 then x.getLsbD i else v.getLsbD i := by
  by_cases hi : i < 64
  · have hhigh : ∀ j : Fin 64, (0xFFFFFFFF00000000 : BitVec 64).getLsbD j = decide (32 ≤ (j : ℕ)) := by
      decide
    have hlow : ∀ j : Fin 64, (0xFFFFFFFF : BitVec 64).getLsbD j = decide ((j : ℕ) < 32) := by decide
    have h1 := hhigh ⟨i, hi⟩
    have h2 := hlow ⟨i, hi⟩
    simp only [setLow, BitVec.getLsbD_or, BitVec.getLsbD_and, h1, h2]
    by_cases h32 : i < 32
    · simp [h32]
    · simp [h32, not_lt.mp h32]
  · simp [BitVec.getLsbD_of_ge _ _ (not_lt.mp hi)]

/-- The store of the lower half does not reach `PTE_CD`. -/
theorem cd_setLow (v x : BitVec 64) : (⟨setLow v x⟩ : Pte).cd = (⟨v⟩ : Pte).cd := by
  rw [Pte.cd, getLsbD_setLow, if_neg (by decide)]
  rfl

/-- What the walk writes back to an entry that it has read as `v`. -/
theorem maskADC_setLow {v v' x : BitVec 64} (h : maskADC v' = maskADC v)
    (hx : maskADC (v ||| x) = maskADC v) : maskADC (setLow v' (v ||| x)) = maskADC v' := by
  rw [maskADC_eq_iff] at *
  intro i h6 h7 h61
  rw [getLsbD_setLow]
  split_ifs
  · rw [hx i h6 h7 h61, h i h6 h7 h61]
  · rfl

theorem maskADC_or_ad (v : BitVec 64) (type : MemoryAccessType) :
    maskADC (v ||| Pte.ad type) = maskADC v := by
  have hbit : ∀ j : Fin 64, (j : ℕ) ≠ 6 → (j : ℕ) ≠ 7 → (Pte.ad type).getLsbD j = false := by
    cases type <;> decide
  rw [maskADC_eq_iff]
  intro i h6 h7 _
  rw [BitVec.getLsbD_or]
  by_cases hi : i < 64
  · rw [hbit ⟨i, hi⟩ h6 h7, Bool.or_false]
  · rw [BitVec.getLsbD_of_ge (Pte.ad type) _ (not_lt.mp hi), Bool.or_false]

theorem maskADC_or_cd (v : BitVec 64) : maskADC (v ||| (Pte.cdBit ||| Pte.dBit)) = maskADC v := by
  have hbit : ∀ j : Fin 64, (j : ℕ) ≠ 7 → (j : ℕ) ≠ 61 →
      (Pte.cdBit ||| Pte.dBit).getLsbD j = false := by
    decide
  rw [maskADC_eq_iff]
  intro i _ h7 h61
  rw [BitVec.getLsbD_or]
  by_cases hi : i < 64
  · rw [hbit ⟨i, hi⟩ h7 h61, Bool.or_false]
  · rw [BitVec.getLsbD_of_ge (Pte.cdBit ||| Pte.dBit) _ (not_lt.mp hi), Bool.or_false]

/-! ### The walk of the code -/

section Walk

variable {σ : Type} {mem : MemIf (CheriM σ)} {vm : VmInfo} {T : Tables} {word : σ → Tables}
  {P : σ → Prop}

theorem SameCD.refl (T : Tables) (vm : VmInfo) (word : σ → Tables) (s : σ) :
    SameCD T vm word s s := fun _ _ => rfl

theorem SameCD.trans {s s' s'' : σ} (h : SameCD T vm word s s') (h' : SameCD T vm word s' s'') :
    SameCD T vm word s s'' := fun a ha => (h' a ha).trans (h a ha)

theorem run'_mmuLoadPte64 (a : BitVec 64) (s : σ) : (mmuLoadPte64 mem a).run' s =
    (((mem.rawLoad a .double).run' s).1.map (·.1), ((mem.rawLoad a .double).run' s).2) := by
  rw [mmuLoadPte64, CheriM.run'_bind]
  rcases (mem.rawLoad a .double).run' s with ⟨r | r, s'⟩ <;> rfl

theorem run'_mmuStorePte32 (a v : BitVec 64) (s : σ) : (mmuStorePte32 mem a v).run' s =
    (((mem.rawStore a .word v).run' s).1.map fun _ => (), ((mem.rawStore a .word v).run' s).2) := by
  rw [mmuStorePte32, CheriM.run'_bind]
  rcases (mem.rawStore a .word v).run' s with ⟨r | r, s'⟩ <;> rfl

/-- Writing back an entry with more bits set keeps the tables and every `PTE_CD`. -/
theorem mmuStorePte32_run' (hM : PteMemory mem vm T word P) {a : BitVec 64} (ha : T.Entry vm a)
    {s : σ} (hs : P s) {v v' x : BitVec 64} (hv' : word s a = .ok v')
    (h : maskADC v' = maskADC v) (hx : maskADC (v ||| x) = maskADC v) :
    ∃ s', (mmuStorePte32 mem a (v ||| x)).run' s = (.ok (), s') ∧ P s' ∧ SameCD T vm word s s' ∧
      ∃ v'', word s' a = .ok v'' ∧ maskADC v'' = maskADC v := by
  obtain ⟨r, s', hr, hs', hw⟩ := hM.store s hs a ha v' (v ||| x) hv' (maskADC_setLow h hx)
  refine ⟨s', by rw [run'_mmuStorePte32, hr]; rfl, hs', fun b hb => ?_, ?_⟩
  · rw [hw b hb]
    split_ifs with hba
    · rw [hba, hv']
      exact congrArg Except.ok (cd_setLow v' _)
    · rfl
  · exact ⟨_, (hw a ha).trans (if_pos rfl), (maskADC_setLow h hx).trans h⟩

/-- The check of a tagged store: a fault, or possibly a write to the entry. -/
theorem storeTagged_run' (hM : PteMemory mem vm T word P) {a : BitVec 64} (ha : T.Entry vm a) {s : σ}
    (hs : P s) {v : BitVec 64} (hv : word s a = .ok v) (vaddr : BitVec 64) (type : MemoryAccessType)
    (tag : Bool) :
    if tag ∧ type = .store ∧ (⟨v⟩ : Pte).cw = false then
      (storeTagged mem vaddr type tag a ⟨v⟩).run' s =
        (.error (.trap ⟨.cheriStoreFault, vaddr⟩), s)
    else
      ∃ s', (storeTagged mem vaddr type tag a ⟨v⟩).run' s = (.ok (), s') ∧ P s' ∧
        SameCD T vm word s s' ∧ ∃ v', word s' a = .ok v' ∧ maskADC v' = maskADC v := by
  unfold storeTagged
  by_cases ht : tag = true ∧ type = .store
  · rw [if_pos ht]
    cases hcw : (⟨v⟩ : Pte).cw with
    | false =>
      rw [if_pos ⟨ht.1, ht.2, rfl⟩]
      rfl
    | true =>
      rw [if_neg (by simp), if_neg (by simp)]
      by_cases hcd : (!(⟨v⟩ : Pte).cd) = true
      · rw [if_pos hcd, BitVec.or_assoc]
        exact mmuStorePte32_run' hM ha hs hv rfl (maskADC_or_cd v)
      · rw [if_neg hcd]
        exact ⟨s, rfl, hs, SameCD.refl T vm word s, v, hv, rfl⟩
  · rw [if_neg ht, if_neg fun h => ht ⟨h.1, h.2.1⟩]
    exact ⟨s, rfl, hs, SameCD.refl T vm word s, v, hv, rfl⟩

/-- The update of the accessed and dirty bits. -/
theorem updateAD_run' (hM : PteMemory mem vm T word P) {a : BitVec 64} (ha : T.Entry vm a) {s : σ}
    (hs : P s) {v v' : BitVec 64} (hv' : word s a = .ok v') (h : maskADC v' = maskADC v)
    (type : MemoryAccessType) :
    ∃ s', (updateAD mem type a ⟨v⟩).run' s = (.ok (), s') ∧ SameCD T vm word s s' := by
  unfold updateAD
  split_ifs
  · obtain ⟨s', hr, -, hcd, -⟩ := mmuStorePte32_run' hM ha hs hv' h (maskADC_or_ad v type)
    exact ⟨s', hr, hcd⟩
  · exact ⟨s, rfl, SameCD.refl T vm word s⟩

/-- What is done with a leaf depends on the masked entry only. -/
theorem useLeaf_maskADC {v v' : BitVec 64} (h : maskADC v = maskADC v') (vaddr : BitVec 64)
    (type : MemoryAccessType) (sMode sum mxr tag : Bool) (flags : TagFlags) (n : ℕ) :
    useLeaf vaddr type sMode sum mxr tag flags (⟨v⟩, n) =
      useLeaf vaddr type sMode sum mxr tag flags (⟨v'⟩, n) := by
  simp only [useLeaf, permits_eq h, (pte_bits_eq h).2.2.2.2.2, cheriPpn_eq h, loadFlags,
    cheriLoadPerms_eq h]

/-- What the loop of `walk` does at a leaf. -/
theorem leaf_run' (hM : PteMemory mem vm T word P) {a : BitVec 64} (ha : T.Entry vm a) {s : σ}
    (hs : P s) {v : BitVec 64} (hv : word s a = .ok v) (vaddr : BitVec 64) (type : MemoryAccessType)
    (sMode sum mxr tag : Bool) (flags : TagFlags) (n : ℕ)
    (hperm : (⟨v⟩ : Pte).permits sMode sum mxr type = true) :
    ∃ s', (do
        storeTagged mem vaddr type tag a ⟨v⟩
        if (⟨v⟩ : Pte).cheriPpn &&& ((1 <<< n) - 1) ≠ 0 then
          throw (type.pageFault vaddr)
        else
          updateAD mem type a ⟨v⟩
          return (leafAddr (⟨v⟩ : Pte).cheriPpn vaddr n, loadFlags type ⟨v⟩ flags) :
        CheriM σ (BitVec 64 × TagFlags)).run' s =
      (useLeaf vaddr type sMode sum mxr tag flags (⟨v⟩, n), s') ∧ SameCD T vm word s s' := by
  have hst := storeTagged_run' hM ha hs hv vaddr type tag
  have huse : useLeaf vaddr type sMode sum mxr tag flags (⟨v⟩, n) =
      if tag ∧ type = .store ∧ (⟨v⟩ : Pte).cw = false then .error (.trap ⟨.cheriStoreFault, vaddr⟩)
      else if (⟨v⟩ : Pte).cheriPpn &&& ((1 <<< n) - 1) ≠ 0 then
        .error (.trap (type.pageFault vaddr))
      else .ok (leafAddr (⟨v⟩ : Pte).cheriPpn vaddr n, loadFlags type ⟨v⟩ flags) := by
    rw [useLeaf, if_neg (by simp [hperm])]
  rw [CheriM.run'_bind, huse]
  by_cases hf : tag = true ∧ type = .store ∧ (⟨v⟩ : Pte).cw = false
  · rw [if_pos hf] at hst ⊢
    rw [hst]
    exact ⟨s, rfl, SameCD.refl T vm word s⟩
  rw [if_neg hf] at hst ⊢
  obtain ⟨s1, hr1, hs1, hcd1, v1, hv1, hm1⟩ := hst
  rw [hr1]
  by_cases hal : (⟨v⟩ : Pte).cheriPpn &&& ((1 <<< n) - 1) ≠ 0
  · refine ⟨s1, ?_, hcd1⟩
    dsimp only
    rw [if_pos hal, if_pos hal]
    rfl
  · obtain ⟨s2, hr2, hcd2⟩ := updateAD_run' hM ha hs1 hv1 hm1 type
    refine ⟨s2, ?_, hcd1.trans hcd2⟩
    dsimp only
    rw [if_neg hal, if_neg hal, CheriM.run'_bind, hr2]
    rfl

/-- The loop of `walk` finds the leaf of the tables and uses it, and no `PTE_CD` in memory changes. -/
theorem walkFrom_run' (hM : PteMemory mem vm T word P) (vaddr : BitVec 64) (type : MemoryAccessType)
    (sMode sum mxr tag : Bool) (flags : TagFlags) (n : ℕ) (base : BitVec 64)
    (hn : n = 0 ∨ T.Reach vm n base) {s : σ} (hs : P s) :
    ∃ s', (walkFrom mem vm.idxbits vm.ptesize vaddr type sMode sum mxr tag flags n base).run' s =
      ((T.leafFrom vm.idxbits vm.ptesize vaddr type n base).bind
        (useLeaf vaddr type sMode sum mxr tag flags), s') ∧ SameCD T vm word s s' := by
  induction n generalizing base s with
  | zero => exact ⟨s, rfl, SameCD.refl T vm word s⟩
  | succ n ih =>
    have hreach : T.Reach vm (n + 1) base := hn.resolve_left (by omega)
    obtain ⟨a, ha⟩ : ∃ a, a = ptePaddr vm.idxbits vm.ptesize vaddr n base := ⟨_, rfl⟩
    have hentry : T.Entry vm a := ⟨n, base, vaddr, hreach, ha⟩
    obtain ⟨r, s1, hr, hword, hs1, hsame⟩ := hM.load s hs a hentry
    have htab := hM.tables s hs a hentry
    have hcd : SameCD T vm word s s1 := fun b hb => by rw [hsame b hb]
    rw [walkFrom, CheriM.run'_bind, run'_mmuLoadPte64]
    rw [Tables.leafFrom, ← ha, ← htab, ← hword]
    rw [ptePaddr] at ha
    rw [← ha, hr]
    cases r with
    | error e => exact ⟨s1, rfl, hcd⟩
    | ok x =>
      obtain ⟨v, h⟩ := x
      have hv : word s1 a = .ok v := by
        rw [hsame a hentry, ← hword]
        rfl
      -- the tables leave out A, D and `PTE_CD`; the tests of the walk do not see these
      have hmask : maskADC (maskADC v) = maskADC v := maskADC_maskADC v
      obtain ⟨h1, h2, h3, h4, -, -⟩ := pte_bits_eq hmask
      simp only [Except.map, h1, h2, h3, h4, cheriPpn_eq hmask]
      by_cases hinv : (!(⟨v⟩ : Pte).v || (!(⟨v⟩ : Pte).r && (⟨v⟩ : Pte).w)) = true
      · refine ⟨s1, ?_, hcd⟩
        rw [if_pos hinv, if_pos hinv]
        rfl
      rw [if_neg hinv, if_neg hinv]
      by_cases hptr : (!(⟨v⟩ : Pte).r && !(⟨v⟩ : Pte).x) = true
      · rw [if_pos hptr, if_pos hptr]
        have hp : isPointer ⟨maskADC v⟩ = true := by
          simpa only [isPointer, h1, h2, h3, h4] using RiscvVp.Mmu.isPointer_of_branch hinv hptr
        have hT : T a = .ok (maskADC v) := by
          rw [← htab, ← hword]
          rfl
        -- the next level is reached through this pointer
        have hnext : T.Reach vm n ((⟨maskADC v⟩ : Pte).cheriPpn <<< 12) :=
          .next vaddr hreach (by rw [ptePaddr, ← ha]; exact hT) hp
        rw [cheriPpn_eq hmask] at hnext
        obtain ⟨s2, hr2, hcd2⟩ := ih _ (.inr hnext) hs1
        exact ⟨s2, hr2, hcd.trans hcd2⟩
      rw [if_neg hptr, if_neg hptr]
      show ∃ s', _ = (useLeaf vaddr type sMode sum mxr tag flags (⟨maskADC v⟩, n * vm.idxbits), s') ∧ _
      rw [useLeaf_maskADC hmask]
      by_cases hperm : (⟨v⟩ : Pte).permits sMode sum mxr type = true
      · rw [if_neg (by simp [hperm])]
        obtain ⟨s2, hr2, hcd2⟩ :=
          leaf_run' hM hentry hs1 hv vaddr type sMode sum mxr tag flags (n * vm.idxbits) hperm
        exact ⟨s2, hr2, hcd.trans hcd2⟩
      · refine ⟨s1, ?_, hcd⟩
        rw [useLeaf, if_pos (by simp [hperm]), if_pos (by simp [hperm])]
        rfl

/-- `walk` on tables gives what the tables say, tag and flags included, and changes only dirty bits of
capabilities. -/
theorem walk_run' {csrs : Csrs} (hM : PteMemory mem (decodeVmInfo csrs.satp) T word P)
    (vaddr : BitVec 64) (type : MemoryAccessType) (mode : PrivilegeLevel) (tag : Bool)
    (flags : TagFlags) {s : σ} (hs : P s) :
    ∃ s', (walk mem csrs vaddr type mode tag flags).run' s =
      (T.walk csrs.satp vaddr type (mode == .supervisor) csrs.mstatus.sum csrs.mstatus.mxr tag flags,
        s') ∧ SameCD T (decodeVmInfo csrs.satp) word s s' := by
  unfold walk Tables.walk Tables.leaf
  dsimp only
  apply walkFrom_run' hM _ _ _ _ _ _ _ _ _ _ hs
  split
  · exact .inr .root
  · exact .inl rfl

end Walk

/-! ### Walks that succeed, and addresses of one page -/

section Page

variable {T : Tables} {satp : Satp} {type : MemoryAccessType} {sMode sum mxr tag : Bool}
  {flags flags' : TagFlags} {va va' pa : BitVec 64} {l : Pte × ℕ}

theorem leafFrom_page (h : va >>> 12 = va' >>> 12) {idxbits : ℕ} {ptesize : BitVec 64} {n : ℕ}
    {base : BitVec 64} (hl : T.leafFrom idxbits ptesize va type n base = .ok l) :
    T.leafFrom idxbits ptesize va' type n base = .ok l := by
  induction n generalizing base with
  | zero => cases hl
  | succ n ih =>
    rw [Tables.leafFrom, ptePaddr, RiscvVp.Mmu.shift_eq_of_vpn h] at hl
    rw [Tables.leafFrom, ptePaddr]
    split at hl
    · cases hl
    · dsimp only at hl ⊢
      split at hl
      · cases hl
      · next h1 =>
        rw [if_neg h1]
        split at hl
        · next h2 =>
          rw [if_pos h2]
          exact ih hl
        · next h2 =>
          rw [if_neg h2]
          exact hl

/-- The addresses of a page have the same leaf. -/
theorem leaf_page (h : va >>> 12 = va' >>> 12) (hl : T.leaf satp va type = .ok l) :
    T.leaf satp va' type = .ok l := by
  have hvm : 1 ≤ (decodeVmInfo satp).idxbits * (decodeVmInfo satp).levels := by
    unfold decodeVmInfo
    cases satp.mode <;> simp
  unfold Tables.leaf at hl ⊢
  dsimp only at hl ⊢
  rw [← RiscvVp.Mmu.checkVaddrExtension_eq h hvm]
  exact leafFrom_page h hl

/-- A walk that succeeds found a leaf that is aligned and allows the access. -/
theorem walk_eq_ok (h : T.walk satp va type sMode sum mxr tag flags = .ok (pa, flags')) :
    ∃ l, T.leaf satp va type = .ok l ∧ l.1.permits sMode sum mxr type = true ∧
      l.1.cheriPpn &&& ((1 <<< l.2) - 1) = 0 ∧ pa = leafAddr l.1.cheriPpn va l.2 := by
  rw [Tables.walk] at h
  cases hl : T.leaf satp va type with
  | error t =>
    rw [hl] at h
    cases h
  | ok l =>
    rw [hl] at h
    replace h : useLeaf va type sMode sum mxr tag flags l = .ok (pa, flags') := h
    rw [useLeaf] at h
    split_ifs at h with h1 h2 h3
    cases h
    exact ⟨l, rfl, by simpa using h1, by simpa using h3, rfl⟩

/-- A walk with a leaf that is aligned. -/
theorem walk_of_leaf (hl : T.leaf satp va type = .ok l)
    (ha : l.1.cheriPpn &&& ((1 <<< l.2) - 1) = 0) (sMode sum mxr tag : Bool) (flags : TagFlags) :
    T.walk satp va type sMode sum mxr tag flags =
      if l.1.permits sMode sum mxr type = false then .error (.trap (type.pageFault va))
      else if tag ∧ type = .store ∧ l.1.cw = false then .error (.trap ⟨.cheriStoreFault, va⟩)
      else .ok (leafAddr l.1.cheriPpn va l.2, loadFlags type l.1 flags) := by
  rw [Tables.walk, hl]
  show useLeaf va type sMode sum mxr tag flags l = _
  rw [useLeaf, if_neg (not_not.mpr ha)]
  simp only [Bool.not_eq_true']

end Page

/-! ### Runs between two flushes -/

section Run

open RiscvVp.Mmu (State hit)

variable {σ : Type} {mem : MemIf (CheriM σ)} {T : Tables} {word : σ → Tables} {P : σ → Prop}

/-- What happens between two flushes: calls of `translate_virtual_to_physical_addr`, changes of `prv`,
writes of `mstatus`, and anything that is done to memory. -/
inductive Event (σ : Type)
  | translate (vaddr : BitVec 64) (type : MemoryAccessType) (tag : Bool) (flags : TagFlags)
  | setPrv (prv : PrivilegeLevel)
  | writeStatus (mstatus : Mstatus)
  | touch (f : σ → σ)

/-- One event; the answer is that of the call. -/
def step (mem : MemIf (CheriM σ)) (s : State σ) :
    Event σ → Option (Except Stop (BitVec 64 × TagFlags)) × State σ
  | .translate vaddr type tag flags =>
    match (translate mem s.csrs s.prv s.tlb vaddr type tag flags).run' s.mem with
    | (.ok (r, tlb), m) => (some (.ok r), { s with mem := m, tlb := tlb })
    | (.error t, m) => (some (.error t), { s with mem := m })
  | .setPrv prv => (none, { s with prv := prv })
  | .writeStatus mstatus => (none, { s with csrs := { s.csrs with mstatus := mstatus } })
  | .touch f => (none, { s with mem := f s.mem })

/-- What the page walk answers to a call, and the memory it leaves. -/
def walkResult (mem : MemIf (CheriM σ)) (s : State σ) (vaddr : BitVec 64) (type : MemoryAccessType)
    (tag : Bool) (flags : TagFlags) : Except Stop (BitVec 64 × TagFlags) × σ :=
  match translationMode s.csrs s.prv type with
  | none => (.ok (vaddr, flags), s.mem)
  | some mode => (walk mem s.csrs vaddr type mode tag flags).run' s.mem

/-- A call has the outcome of the page walk: the address or the fault, the flags, and `PTE_CD` in all
entries of the page tables. -/
def SameAsWalk (mem : MemIf (CheriM σ)) (T : Tables) (word : σ → Tables) (s : State σ) :
    Event σ → Prop
  | .translate vaddr type tag flags =>
    (step mem s (.translate vaddr type tag flags)).1 =
        some (walkResult mem s vaddr type tag flags).1 ∧
      SameCD T (decodeVmInfo s.csrs.satp) word (walkResult mem s vaddr type tag flags).2
        (step mem s (.translate vaddr type tag flags)).2.mem
  | _ => True

/-- The call finds an entry of the buffer, and the leaf needs `SUM` or `MXR`, which is off, or forbids
the store of a tagged capability, or has something to say about the tag of a load. -/
def Hidden (T : Tables) (s : State σ) : Event σ → Prop
  | .translate vaddr type tag flags => ∃ mode l, hit s vaddr type mode ∧
      T.leaf s.csrs.satp vaddr type = .ok l ∧
      (needsStatus s.csrs.mstatus mode type l.1 ∨ (tag = true ∧ type = .store ∧ l.1.cw = false) ∨
        loadFlags type l.1 flags ≠ flags)
  | _ => False

/-- Entries of the buffer come from walks, with some `SUM`, `MXR` and tag. -/
def Inv (T : Tables) (satp : Satp) (s : State σ) : Prop :=
  s.csrs.satp = satp ∧ ∀ mode type (vaddr : BitVec 64),
    (s.tlb mode type (tlbIdx (vaddr >>> 12))).vpn = vaddr >>> 12 →
      ∃ l sum mxr, T.leaf satp vaddr type = .ok l ∧
        l.1.permits (mode == .supervisor) sum mxr type = true ∧
        l.1.cheriPpn &&& ((1 <<< l.2) - 1) = 0 ∧
        (s.tlb mode type (tlbIdx (vaddr >>> 12))).ppn ||| pageOffset vaddr =
          leafAddr l.1.cheriPpn vaddr l.2

/-- `flush_tlb` leaves no entry that is found. -/
theorem inv_flush (T : Tables) {s : State σ} (hs : s.tlb = Tlb.flush) : Inv T s.csrs.satp s := by
  refine ⟨rfl, fun mode type vaddr h => ?_⟩
  rw [hs] at h
  have hlsb := congrArg (fun v => BitVec.getLsbD v 63) h
  simp [Tlb.flush] at hlsb

/-- A walk that fills an entry keeps the invariant. -/
theorem inv_set {s : State σ} {satp : Satp} (hi : Inv T satp s) {mode : PrivilegeLevel}
    {type : MemoryAccessType} {va pa : BitVec 64} {sum mxr tag : Bool} {flags flags' : TagFlags}
    (hw : T.walk satp va type (mode == .supervisor) sum mxr tag flags = .ok (pa, flags')) (m : σ) :
    Inv T satp { s with
      mem := m, tlb := s.tlb.set mode type (tlbIdx (va >>> 12)) ⟨pageOf pa, va >>> 12⟩ } := by
  refine ⟨hi.1, fun mode' type' va' h => ?_⟩
  dsimp only at h ⊢
  by_cases hsame : mode' = mode ∧ type' = type ∧ tlbIdx (va' >>> 12) = tlbIdx (va >>> 12)
  · obtain ⟨rfl, rfl, hidx⟩ := hsame
    rw [hidx, RiscvVp.Mmu.tlb_set_self] at h ⊢
    obtain ⟨l, hl, hp, ha, rfl⟩ := walk_eq_ok hw
    exact ⟨l, sum, mxr, leaf_page h hl, hp, ha, RiscvVp.Mmu.leafAddr_page h _ _⟩
  · rw [Tlb.set, if_neg hsame] at h ⊢
    exact hi.2 mode' type' va' h

/-- A call that finds an entry answers from it.  The memory is not read, and neither `tag` nor the flags are
looked at. -/
theorem step_hit {s : State σ} {va : BitVec 64} {type : MemoryAccessType} {mode : PrivilegeLevel}
    (h : hit s va type mode) (tag : Bool) (flags : TagFlags) :
    step mem s (.translate va type tag flags) =
      (some (.ok ((s.tlb mode type (tlbIdx (va >>> 12))).ppn ||| pageOffset va, flags)), s) := by
  have htr : translate mem s.csrs s.prv s.tlb va type tag flags =
      pure (((s.tlb mode type (tlbIdx (va >>> 12))).ppn ||| pageOffset va, flags), s.tlb) := by
    rw [translate, h.1]
    exact if_pos h.2
  rw [step, htr]
  rfl

/-- A call that finds none walks the tables. -/
theorem step_miss {s : State σ} {va : BitVec 64} {type : MemoryAccessType} {mode : PrivilegeLevel}
    (hmode : translationMode s.csrs s.prv type = some mode) (h : ¬hit s va type mode) (tag : Bool)
    (flags : TagFlags) :
    step mem s (.translate va type tag flags) =
      match (walk mem s.csrs va type mode tag flags).run' s.mem with
      | (.ok r, m) => (some (.ok r), { s with
          mem := m, tlb := s.tlb.set mode type (tlbIdx (va >>> 12)) ⟨pageOf r.1, va >>> 12⟩ })
      | (.error t, m) => (some (.error t), { s with mem := m }) := by
  have htr : translate mem s.csrs s.prv s.tlb va type tag flags = (do
      let r ← walk mem s.csrs va type mode tag flags
      return (r, s.tlb.set mode type (tlbIdx (va >>> 12)) ⟨pageOf r.1, va >>> 12⟩)) := by
    rw [translate, hmode]
    exact if_neg fun hv => h ⟨hmode, hv⟩
  rw [step, htr, CheriM.run'_bind]
  rcases (walk mem s.csrs va type mode tag flags).run' s.mem with ⟨t | r, m⟩ <;> rfl

/-- What a walk answers where the buffer has an entry: the same as the entry, if the leaf still allows
the access and the capability bits have no effect. -/
theorem walk_eq_entry_iff {satp : Satp} {va : BitVec 64} {type : MemoryAccessType} {mode : PrivilegeLevel}
    {l : Pte × ℕ} (hl : T.leaf satp va type = .ok l)
    (ha : l.1.cheriPpn &&& ((1 <<< l.2) - 1) = 0) {sum mxr : Bool}
    (hp : l.1.permits (mode == .supervisor) sum mxr type = true) (st : Mstatus) (tag : Bool)
    (flags : TagFlags) :
    T.walk satp va type (mode == .supervisor) st.sum st.mxr tag flags =
        .ok (leafAddr l.1.cheriPpn va l.2, flags) ↔
      ¬(needsStatus st mode type l.1 ∨ (tag = true ∧ type = .store ∧ l.1.cw = false) ∨
        loadFlags type l.1 flags ≠ flags) := by
  have hnow := RiscvVp.Mmu.permits_iff hp st
  rw [walk_of_leaf hl ha]
  by_cases hn : needsStatus st mode type l.1
  · have hno : l.1.permits (mode == .supervisor) st.sum st.mxr type = false := by
      rw [← Bool.not_eq_true, hnow]
      exact not_not.mpr hn
    rw [if_pos hno]
    exact iff_of_false (by simp) (not_not.mpr (.inl hn))
  · have hyes := hnow.mpr hn
    rw [if_neg (by simp [hyes])]
    by_cases hcw : tag = true ∧ type = .store ∧ l.1.cw = false
    · rw [if_pos hcw]
      exact iff_of_false (by simp) (not_not.mpr (.inr (.inl hcw)))
    · rw [if_neg hcw]
      simp [hn, hcw]

/-- A call has the outcome of the page walk if and only if the buffer hides nothing, and it keeps the
invariant. -/
theorem translate_spec {s : State σ} (hM : PteMemory mem (decodeVmInfo s.csrs.satp) T word P)
    (hi : Inv T s.csrs.satp s) (hP : P s.mem) (va : BitVec 64) (type : MemoryAccessType) (tag : Bool)
    (flags : TagFlags) :
    (SameAsWalk mem T word s (.translate va type tag flags) ↔
        ¬Hidden T s (.translate va type tag flags)) ∧
      Inv T s.csrs.satp (step mem s (.translate va type tag flags)).2 := by
  cases hmode : translationMode s.csrs s.prv type with
  | none =>
    -- without translation the buffer is not asked
    have htr : translate mem s.csrs s.prv s.tlb va type tag flags = pure ((va, flags), s.tlb) := by
      rw [translate, hmode]
    have hstep : step mem s (.translate va type tag flags) = (some (.ok (va, flags)), s) := by
      rw [step, htr]
      rfl
    refine ⟨iff_of_true ?_ ?_, ?_⟩
    · rw [SameAsWalk, hstep, walkResult, hmode]
      exact ⟨rfl, SameCD.refl T _ word s.mem⟩
    · rintro ⟨mode, l, hhit, -⟩
      rw [hit, hmode] at hhit
      cases hhit.1
    · rw [hstep]
      exact hi
  | some mode =>
    obtain ⟨m', hrun, hcd⟩ := walk_run' hM va type mode tag flags hP
    have hres : walkResult mem s va type tag flags =
        (T.walk s.csrs.satp va type (mode == .supervisor) s.csrs.mstatus.sum s.csrs.mstatus.mxr tag
          flags, m') := by
      rw [walkResult, hmode]
      exact hrun
    by_cases h : hit s va type mode
    · -- a hit: the entry came from a walk of the same leaf, perhaps under another status or tag
      obtain ⟨l, sum, mxr, hl, hp, ha, hppn⟩ := hi.2 mode type va h.2
      have hhidden : Hidden T s (.translate va type tag flags) ↔
          (needsStatus s.csrs.mstatus mode type l.1 ∨
            (tag = true ∧ type = .store ∧ l.1.cw = false) ∨ loadFlags type l.1 flags ≠ flags) := by
        constructor
        · rintro ⟨mode', l', hhit, hl', hn⟩
          cases hhit.1.symm.trans hmode
          cases hl'.symm.trans hl
          exact hn
        · exact fun hn => ⟨mode, l, h, hl, hn⟩
      have hsame : SameCD T (decodeVmInfo s.csrs.satp) word m' s.mem := fun a ha => (hcd a ha).symm
      rw [SameAsWalk, step_hit h, hres, hppn, hhidden, ← walk_eq_entry_iff hl ha hp]
      refine ⟨?_, hi⟩
      simp only [Option.some.injEq, hsame, and_true]
      exact eq_comm
    · -- a miss: the call is the walk, and its result goes into the buffer
      have hns : ¬Hidden T s (.translate va type tag flags) := by
        rintro ⟨mode', l, hhit, -⟩
        cases hhit.1.symm.trans hmode
        exact h hhit
      rw [SameAsWalk, step_miss hmode h, hres, hrun]
      cases hw : T.walk s.csrs.satp va type (mode == .supervisor) s.csrs.mstatus.sum
          s.csrs.mstatus.mxr tag flags with
      | error t => exact ⟨iff_of_true ⟨rfl, SameCD.refl T _ word m'⟩ hns, hi⟩
      | ok r => exact ⟨iff_of_true ⟨rfl, SameCD.refl T _ word m'⟩ hns, inv_set hi hw m'⟩

theorem step_satp (s : State σ) (e : Event σ) : (step mem s e).2.csrs.satp = s.csrs.satp := by
  cases e with
  | translate va type tag flags =>
    rw [step]
    rcases (translate mem s.csrs s.prv s.tlb va type tag flags).run' s.mem with ⟨t | ⟨r, tlb⟩, m⟩ <;> rfl
  | setPrv prv => rfl
  | writeStatus mstatus => rfl
  | touch f => rfl

/-- **In every run from `flush_tlb` on in which the page tables stay fixed, apart from `A`, `D` and
`CD`, a call has the outcome of the page walk if and only if it does not find an entry whose leaf needs
`SUM` or `MXR` while this is off, forbids the tagged store that is made, or changes the flags of a
load.** -/
theorem sameAsCheriWalk_iff (mem : MemIf (CheriM σ)) (T : Tables) (word : σ → Tables) (P : σ → Prop)
    (s : State σ) (hM : PteMemory mem (decodeVmInfo s.csrs.satp) T word P)
    (hflush : s.tlb = Tlb.flush) (es : List (Event σ))
    (hP : Run.Along (fun s _ => P s.mem) (step mem) s es) :
    Run.Along (fun s e => SameAsWalk mem T word s e ↔ ¬Hidden T s e) (step mem) s es := by
  refine Run.Along.of_invariant (fun s' => s'.csrs.satp = s.csrs.satp ∧ Inv T s.csrs.satp s')
    ?_ ⟨rfl, inv_flush T hflush⟩ hP
  rintro s' e ⟨hsatp, hi⟩ hPs
  rw [step_satp]
  rw [← hsatp] at hM hi ⊢
  cases e with
  | translate va type tag flags =>
    obtain ⟨h, hi'⟩ := translate_spec hM hi hPs va type tag flags
    exact ⟨h, rfl, hi'⟩
  | setPrv prv => exact ⟨iff_of_true trivial id, rfl, hi⟩
  | writeStatus mstatus => exact ⟨iff_of_true trivial id, rfl, hi⟩
  | touch f => exact ⟨iff_of_true trivial id, rfl, hi⟩

end Run

end RiscvVp.Cheri.Mmu
