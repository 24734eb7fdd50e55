import RiscvVp.Lib.Throws
import RiscvVp.Mem.Mmu

/-!
# The page walk as a function of the page tables

The walk reads entries one after the other and may write one.  Its outcome depends on the words of the
page tables without the accessed and dirty bits only (`Tables`), and addresses of one page have the
same outcome up to the offset.
-/

namespace RiscvVp.Mmu

/-! ### The walk as a function of the tables -/

/-- The contents of page tables: what is read at an address, without the bits `A` and `D`. -/
def Tables := BitVec 64 → Except SimulationTrap (BitVec 64)

/-- Clear `PTE_A` and `PTE_D`. -/
def maskAD (v : BitVec 64) : BitVec 64 := v &&& ~~~0xC0

/-- The address of the entry for a level. -/
def ptePaddr (idxbits : ℕ) (ptesize vaddr : BitVec 64) (n : ℕ) (base : BitVec 64) : BitVec 64 :=
  base + ((vaddr >>> (12 + n * idxbits)) &&& ((1 <<< idxbits) - 1)) * ptesize

/-- The leaf that the loop of `walk` finds, with its level. -/
def Tables.leafFrom (T : Tables) (idxbits : ℕ) (ptesize vaddr : BitVec 64)
    (type : MemoryAccessType) : ℕ → BitVec 64 → Except SimulationTrap (Pte × ℕ)
  | 0, _ => .error (type.pageFault vaddr)
  | n + 1, base =>
    match T (ptePaddr idxbits ptesize vaddr n base) with
    | .error t => .error t
    | .ok v =>
      let pte : Pte := ⟨v⟩
      if !pte.v || (!pte.r && pte.w) then .error (type.pageFault vaddr)
      else if !pte.r && !pte.x then
        T.leafFrom idxbits ptesize vaddr type n (pte.ppn <<< 12)
      else .ok (pte, n * idxbits)

/-- The leaf of an address. -/
def Tables.leaf (T : Tables) (satp : Satp) (vaddr : BitVec 64) (type : MemoryAccessType) :
    Except SimulationTrap (Pte × ℕ) :=
  let vm := decodeVmInfo satp
  let levels := if checkVaddrExtension vaddr vm then vm.levels else 0
  T.leafFrom vm.idxbits vm.ptesize vaddr type levels vm.ptbase

/-- What is done with a leaf. -/
def useLeaf (vaddr : BitVec 64) (type : MemoryAccessType) (sMode sum mxr : Bool) (l : Pte × ℕ) :
    Except SimulationTrap (BitVec 64) :=
  if !l.1.permits sMode sum mxr type then .error (type.pageFault vaddr)
  else if l.1.ppn &&& ((1 <<< l.2) - 1) ≠ 0 then .error (type.pageFault vaddr)
  else .ok (leafAddr l.1.ppn vaddr l.2)

/-- The outcome of a walk on these tables. -/
def Tables.walk (T : Tables) (satp : Satp) (vaddr : BitVec 64) (type : MemoryAccessType)
    (sMode sum mxr : Bool) : Except SimulationTrap (BitVec 64) :=
  (T.leaf satp vaddr type).bind (useLeaf vaddr type sMode sum mxr)

/-- A valid entry that points to the next table. -/
def isPointer (p : Pte) : Bool := p.v && !p.r && !p.w && !p.x

/-- The branch of the loop in which the walk goes on. -/
theorem isPointer_of_branch {v : BitVec 64}
    (h1 : ¬(!(⟨v⟩ : Pte).v || (!(⟨v⟩ : Pte).r && (⟨v⟩ : Pte).w)) = true)
    (h2 : (!(⟨v⟩ : Pte).r && !(⟨v⟩ : Pte).x) = true) : isPointer ⟨v⟩ = true := by
  revert h1 h2
  unfold isPointer
  cases (⟨v⟩ : Pte).v <;> cases (⟨v⟩ : Pte).r <;> cases (⟨v⟩ : Pte).w <;> simp

/-- The tables that walks reach: a table for `n` more levels at `base`. -/
inductive Tables.Reach (T : Tables) (vm : VmInfo) : ℕ → BitVec 64 → Prop
  | root : T.Reach vm vm.levels vm.ptbase
  | next {n : ℕ} {base v : BitVec 64} (vaddr : BitVec 64) (h : T.Reach vm (n + 1) base)
      (hv : T (ptePaddr vm.idxbits vm.ptesize vaddr n base) = .ok v) (hp : isPointer ⟨v⟩ = true) :
      T.Reach vm n ((⟨v⟩ : Pte).ppn <<< 12)

/-- The addresses of entries of these tables. -/
def Tables.Entry (T : Tables) (vm : VmInfo) (a : BitVec 64) : Prop :=
  ∃ n base vaddr, T.Reach vm (n + 1) base ∧ a = ptePaddr vm.idxbits vm.ptesize vaddr n base

/-- `P` describes states of memory whose page tables have the contents `T`: the entries are read as `T`,
reading keeps them, and accessed and dirty bits that are not set can be set. -/
structure HasTables {σ : Type} (mem : MemIf (MemM σ)) (vm : VmInfo) (T : Tables) (P : σ → Prop) :
    Prop where
  load : ∀ s, P s → ∀ a, T.Entry vm a → ∃ r s', (mem.rawLoad a .double).run' s = (r, s') ∧
    r.map (fun x => maskAD x.1) = T a ∧ ∀ x, r = .ok x → P s'
  store : ∀ s, P s → ∀ a, T.Entry vm a → ∀ v h s' type,
    (mem.rawLoad a .double).run' s = (.ok (v, h), s') → v &&& Pte.ad type ≠ Pte.ad type →
    ∃ r s'', (mem.rawStore a .word (v ||| Pte.ad type)).run' s' = (.ok r, s'')

/-! ### Masking -/

section Mask

variable (v : BitVec 64)

theorem getLsbD_maskAD {i : ℕ} (h6 : i ≠ 6) (h7 : i ≠ 7) :
    (maskAD v).getLsbD i = v.getLsbD i := by
  by_cases hi : i < 64
  · have hbit : ∀ j : Fin 64, (j : ℕ) ≠ 6 → (j : ℕ) ≠ 7 → (~~~(0xC0 : BitVec 64)).getLsbD j = true := by
      decide
    rw [maskAD, BitVec.getLsbD_and, hbit ⟨i, hi⟩ h6 h7, Bool.and_true]
  · rw [BitVec.getLsbD_of_ge _ _ (not_lt.mp hi), BitVec.getLsbD_of_ge _ _ (not_lt.mp hi)]

theorem ppn_maskAD : (⟨maskAD v⟩ : Pte).ppn = (⟨v⟩ : Pte).ppn := by
  apply BitVec.eq_of_getLsbD_eq
  intro i _
  simp only [Pte.ppn, BitVec.getLsbD_ushiftRight]
  exact getLsbD_maskAD v (by omega) (by omega)

@[simp] theorem v_maskAD : (⟨maskAD v⟩ : Pte).v = (⟨v⟩ : Pte).v :=
  getLsbD_maskAD v (by decide) (by decide)

@[simp] theorem r_maskAD : (⟨maskAD v⟩ : Pte).r = (⟨v⟩ : Pte).r :=
  getLsbD_maskAD v (by decide) (by decide)

@[simp] theorem w_maskAD : (⟨maskAD v⟩ : Pte).w = (⟨v⟩ : Pte).w :=
  getLsbD_maskAD v (by decide) (by decide)

@[simp] theorem x_maskAD : (⟨maskAD v⟩ : Pte).x = (⟨v⟩ : Pte).x :=
  getLsbD_maskAD v (by decide) (by decide)

@[simp] theorem u_maskAD : (⟨maskAD v⟩ : Pte).u = (⟨v⟩ : Pte).u :=
  getLsbD_maskAD v (by decide) (by decide)

@[simp] theorem permits_maskAD (sMode sum mxr : Bool) (type : MemoryAccessType) :
    (⟨maskAD v⟩ : Pte).permits sMode sum mxr type = (⟨v⟩ : Pte).permits sMode sum mxr type := by
  simp only [Pte.permits, r_maskAD, w_maskAD, x_maskAD, u_maskAD]

end Mask

/-! ### The walk of the code -/

variable {σ : Type} {mem : MemIf (MemM σ)} {vm : VmInfo} {T : Tables} {P : σ → Prop}

theorem run'_mmuLoadPte64 (a : BitVec 64) (s : σ) : (mmuLoadPte64 mem a).run' s =
    (((mem.rawLoad a .double).run' s).1.map (·.1), ((mem.rawLoad a .double).run' s).2) := by
  rw [mmuLoadPte64, MemM.run'_bind]
  rcases (mem.rawLoad a .double).run' s with ⟨r | r, s'⟩ <;> rfl

theorem run'_mmuStorePte32 (a v : BitVec 64) (s : σ) : (mmuStorePte32 mem a v).run' s =
    (((mem.rawStore a .word v).run' s).1.map fun _ => (), ((mem.rawStore a .word v).run' s).2) := by
  rw [mmuStorePte32, MemM.run'_bind]
  rcases (mem.rawStore a .word v).run' s with ⟨r | r, s'⟩ <;> rfl

/-- The loop of `walk` finds the leaf of the tables and uses it. -/
theorem walkFrom_run' (hT : HasTables mem vm T P) (vaddr : BitVec 64) (type : MemoryAccessType)
    (sMode sum mxr : Bool) (n : ℕ) (base : BitVec 64) (hn : n = 0 ∨ T.Reach vm n base) {s : σ}
    (hs : P s) :
    ((walkFrom mem vm.idxbits vm.ptesize vaddr type sMode sum mxr n base).run' s).1 =
      (T.leafFrom vm.idxbits vm.ptesize vaddr type n base).bind
        (useLeaf vaddr type sMode sum mxr) := by
  induction n generalizing base s with
  | zero => rfl
  | succ n ih =>
    have hreach : T.Reach vm (n + 1) base := hn.resolve_left (by omega)
    obtain ⟨a, ha⟩ : ∃ a, a = ptePaddr vm.idxbits vm.ptesize vaddr n base := ⟨_, rfl⟩
    have hentry : T.Entry vm a := ⟨n, base, vaddr, hreach, ha⟩
    obtain ⟨r, s', hr, hm, hs'⟩ := hT.load s hs a hentry
    rw [walkFrom, MemM.run'_bind, run'_mmuLoadPte64]
    rw [Tables.leafFrom, ← ha, ← hm]
    rw [ptePaddr] at ha
    rw [← ha, hr]
    cases r with
    | error t => rfl
    | ok x =>
      obtain ⟨v, h⟩ := x
      simp only [Except.map, v_maskAD, r_maskAD, w_maskAD, x_maskAD, ppn_maskAD]
      by_cases h1 : (!(⟨v⟩ : Pte).v || (!(⟨v⟩ : Pte).r && (⟨v⟩ : Pte).w)) = true
      · rw [if_pos h1, if_pos h1]
        rfl
      rw [if_neg h1, if_neg h1]
      by_cases h2 : (!(⟨v⟩ : Pte).r && !(⟨v⟩ : Pte).x) = true
      · rw [if_pos h2, if_pos h2]
        have hp : isPointer ⟨maskAD v⟩ = true := by
          simpa only [isPointer, v_maskAD, r_maskAD, w_maskAD, x_maskAD]
            using isPointer_of_branch h1 h2
        have hnext : T.Reach vm n ((⟨maskAD v⟩ : Pte).ppn <<< 12) :=
          .next vaddr hreach (by rw [ptePaddr, ← ha]; exact hm.symm) hp
        rw [ppn_maskAD] at hnext
        exact ih _ (.inr hnext) (hs' _ rfl)
      rw [if_neg h2, if_neg h2]
      show _ = useLeaf vaddr type sMode sum mxr (⟨maskAD v⟩, n * vm.idxbits)
      rw [useLeaf]
      simp only [permits_maskAD, ppn_maskAD]
      by_cases h3 : (!(⟨v⟩ : Pte).permits sMode sum mxr type) = true
      · rw [if_pos h3, if_pos h3]
        rfl
      rw [if_neg h3, if_neg h3]
      by_cases h4 : (⟨v⟩ : Pte).ppn &&& ((1 <<< (n * vm.idxbits)) - 1) ≠ 0
      · rw [if_pos h4, if_pos h4]
        rfl
      rw [if_neg h4, if_neg h4]
      -- the update of the accessed and dirty bits does not change the answer
      by_cases h5 : v &&& Pte.ad type ≠ Pte.ad type
      · obtain ⟨r', s'', hst⟩ := hT.store s hs a hentry v h s' type hr h5
        rw [if_pos h5, MemM.run'_bind, run'_mmuStorePte32, hst]
        rfl
      · rw [if_neg h5]
        rfl

/-- `walk` on tables gives what the tables say, for every mode and every setting of `SUM` and `MXR`. -/
theorem walk_run' {csrs : Csrs} (hT : HasTables mem (decodeVmInfo csrs.satp) T P)
    (vaddr : BitVec 64) (type : MemoryAccessType) (mode : PrivilegeLevel) {s : σ} (hs : P s) :
    ((walk mem csrs vaddr type mode).run' s).1 =
      T.walk csrs.satp vaddr type (mode == .supervisor) csrs.mstatus.sum csrs.mstatus.mxr := by
  unfold walk Tables.walk Tables.leaf
  dsimp only
  apply walkFrom_run' hT _ _ _ _ _ _ _ _ hs
  split
  · exact .inr .root
  · exact .inl rfl

/-! ### Addresses of one page -/

section Page

variable {va va' : BitVec 64}

theorem shift_eq_of_vpn (h : va >>> 12 = va' >>> 12) (n : ℕ) : va >>> (12 + n) = va' >>> (12 + n) := by
  rw [BitVec.shiftRight_add, BitVec.shiftRight_add, h]

theorem checkVaddrExtension_eq (h : va >>> 12 = va' >>> 12) {vm : VmInfo}
    (hvm : 1 ≤ vm.idxbits * vm.levels) :
    checkVaddrExtension va vm = checkVaddrExtension va' vm := by
  unfold checkVaddrExtension
  have hbit : vm.idxbits * vm.levels + 12 - 1 = 12 + (vm.idxbits * vm.levels - 1) := by omega
  dsimp only
  rw [hbit, shift_eq_of_vpn h]

theorem leafFrom_page (h : va >>> 12 = va' >>> 12) {idxbits : ℕ} {ptesize : BitVec 64}
    {type : MemoryAccessType} {n : ℕ} {base : BitVec 64} {l : Pte × ℕ}
    (hl : T.leafFrom idxbits ptesize va type n base = .ok l) :
    T.leafFrom idxbits ptesize va' type n base = .ok l := by
  induction n generalizing base with
  | zero => cases hl
  | succ n ih =>
    rw [Tables.leafFrom, ptePaddr, shift_eq_of_vpn h] at hl
    rw [Tables.leafFrom, ptePaddr]
    split at hl
    · cases hl
    · dsimp only at hl ⊢
      split at hl
      · cases hl
      · next h1 =>
        rw [if_neg h1]
        split at hl
        · next h2 =>
          rw [if_pos h2]
          exact ih hl
        · next h2 =>
          rw [if_neg h2]
          exact hl

/-- The addresses of a page have the same leaf. -/
theorem leaf_page (h : va >>> 12 = va' >>> 12) {satp : Satp} {type : MemoryAccessType}
    {l : Pte × ℕ} (hl : T.leaf satp va type = .ok l) : T.leaf satp va' type = .ok l := by
  have hvm : 1 ≤ (decodeVmInfo satp).idxbits * (decodeVmInfo satp).levels := by
    unfold decodeVmInfo
    cases satp.mode <;> simp
  unfold Tables.leaf at hl ⊢
  dsimp only at hl ⊢
  rw [← checkVaddrExtension_eq h hvm]
  exact leafFrom_page h hl

theorem pageOf_shift (x va : BitVec 64) : pageOf (x <<< 12 ||| pageOffset va) = x <<< 12 := by
  apply BitVec.eq_of_getLsbD_eq
  intro i hi
  have hbit : ∀ j : Fin 64, (0xFFF : BitVec 64).getLsbD j = decide ((j : ℕ) < 12) := by decide
  have hi' := hbit ⟨i, hi⟩
  simp only [pageOf, pageOffset, BitVec.getLsbD_and, BitVec.getLsbD_or, BitVec.getLsbD_not,
    BitVec.getLsbD_shiftLeft, hi'] at *
  by_cases h12 : i < 12 <;> simp [hi, h12]

/-- A page is translated as a whole: what the buffer keeps of one address answers for another. -/
theorem leafAddr_page (h : va >>> 12 = va' >>> 12) (ppn : BitVec 64) (ptshift : ℕ) :
    pageOf (leafAddr ppn va ptshift) ||| pageOffset va' = leafAddr ppn va' ptshift := by
  unfold leafAddr
  dsimp only
  rw [pageOf_shift, h]

end Page

/-- A walk that succeeds found a leaf that is aligned and allows the access. -/
theorem walk_eq_ok {satp : Satp} {vaddr pa : BitVec 64} {type : MemoryAccessType}
    {sMode sum mxr : Bool} (h : T.walk satp vaddr type sMode sum mxr = .ok pa) :
    ∃ l, T.leaf satp vaddr type = .ok l ∧ l.1.permits sMode sum mxr type = true ∧
      l.1.ppn &&& ((1 <<< l.2) - 1) = 0 ∧ pa = leafAddr l.1.ppn vaddr l.2 := by
  rw [Tables.walk] at h
  cases hl : T.leaf satp vaddr type with
  | error t =>
    rw [hl] at h
    cases h
  | ok l =>
    rw [hl] at h
    replace h : useLeaf vaddr type sMode sum mxr l = .ok pa := h
    rw [useLeaf] at h
    split at h
    · cases h
    · split at h
      · cases h
      · next h1 h2 =>
        cases h
        exact ⟨l, rfl, by simpa using h1, by simpa using h2, rfl⟩

/-- A walk with a leaf that is aligned and allows the access. -/
theorem walk_of_leaf {satp : Satp} {vaddr : BitVec 64} {type : MemoryAccessType}
    {l : Pte × ℕ} (hl : T.leaf satp vaddr type = .ok l) (ha : l.1.ppn &&& ((1 <<< l.2) - 1) = 0)
    (sMode sum mxr : Bool) :
    T.walk satp vaddr type sMode sum mxr =
      if l.1.permits sMode sum mxr type then .ok (leafAddr l.1.ppn vaddr l.2)
      else .error (type.pageFault vaddr) := by
  rw [Tables.walk, hl]
  show useLeaf vaddr type sMode sum mxr l = _
  rw [useLeaf]
  cases h : l.1.permits sMode sum mxr type with
  | false => rfl
  | true => rw [if_neg (by simp), if_neg (not_not.mpr ha), if_pos rfl]

/-- A successful walk, for another address of the page. -/
theorem walk_page {va va' : BitVec 64} (h : va >>> 12 = va' >>> 12) {satp : Satp} {pa : BitVec 64}
    {type : MemoryAccessType} {sMode sum mxr : Bool}
    (hw : T.walk satp va type sMode sum mxr = .ok pa) :
    T.walk satp va' type sMode sum mxr = .ok (pageOf pa ||| pageOffset va') := by
  obtain ⟨l, hl, hp, ha, rfl⟩ := walk_eq_ok hw
  rw [walk_of_leaf (leaf_page h hl) ha, if_pos hp, leafAddr_page h]

/-! ### Page tables that change in the accessed and dirty bits only -/

/-- Only accessed and dirty bits differ, and none of them has been cleared. -/
structure SetsAD (old new : BitVec 64) : Prop where
  mask : maskAD new = maskAD old
  bits : old &&& 0xC0 &&& ~~~new = 0

/-- The entries of `T` can be read in `T'`, where only accessed and dirty bits have been set. -/
def Tables.Kept (vm : VmInfo) (T T' : Tables) : Prop :=
  ∀ a, T.Entry vm a → ∀ v, T a = .ok v → ∃ w, T' a = .ok w ∧ SetsAD v w

/-- A walk to `pa` succeeds and finds the accessed and dirty bits set. -/
def Tables.Known (T : Tables) (satp : Satp) (vaddr : BitVec 64) (type : MemoryAccessType)
    (sMode sum mxr : Bool) (pa : BitVec 64) : Prop :=
  ∃ l, T.leaf satp vaddr type = .ok l ∧ l.1.permits sMode sum mxr type = true ∧
    l.1.ppn &&& ((1 <<< l.2) - 1) = 0 ∧ l.1.value &&& Pte.ad type = Pte.ad type ∧
    pa = leafAddr l.1.ppn vaddr l.2

section SetsAD

variable {old new : BitVec 64}

theorem SetsAD.refl (v : BitVec 64) : SetsAD v v where
  mask := rfl
  bits := by
    apply BitVec.eq_of_getLsbD_eq
    intro i hi
    simp only [BitVec.getLsbD_and, BitVec.getLsbD_not]
    cases v.getLsbD i <;> simp

theorem SetsAD.v (h : SetsAD old new) : (⟨new⟩ : Pte).v = (⟨old⟩ : Pte).v := by
  rw [← v_maskAD new, h.mask, v_maskAD]

theorem SetsAD.r (h : SetsAD old new) : (⟨new⟩ : Pte).r = (⟨old⟩ : Pte).r := by
  rw [← r_maskAD new, h.mask, r_maskAD]

theorem SetsAD.w (h : SetsAD old new) : (⟨new⟩ : Pte).w = (⟨old⟩ : Pte).w := by
  rw [← w_maskAD new, h.mask, w_maskAD]

theorem SetsAD.x (h : SetsAD old new) : (⟨new⟩ : Pte).x = (⟨old⟩ : Pte).x := by
  rw [← x_maskAD new, h.mask, x_maskAD]

theorem SetsAD.ppn (h : SetsAD old new) : (⟨new⟩ : Pte).ppn = (⟨old⟩ : Pte).ppn := by
  rw [← ppn_maskAD new, h.mask, ppn_maskAD]

theorem SetsAD.permits (h : SetsAD old new) (sMode sum mxr : Bool) (type : MemoryAccessType) :
    (⟨new⟩ : Pte).permits sMode sum mxr type = (⟨old⟩ : Pte).permits sMode sum mxr type := by
  rw [← permits_maskAD new, h.mask, permits_maskAD]

theorem SetsAD.ad (h : SetsAD old new) {type : MemoryAccessType}
    (hold : old &&& Pte.ad type = Pte.ad type) : new &&& Pte.ad type = Pte.ad type := by
  apply BitVec.eq_of_getLsbD_eq
  intro i _
  have hsub : Pte.ad type &&& 0xC0 = Pte.ad type := by cases type <;> decide
  have h1 := congrArg (BitVec.getLsbD · i) h.bits
  have h2 := congrArg (BitVec.getLsbD · i) hold
  have h3 := congrArg (BitVec.getLsbD · i) hsub
  simp only [BitVec.getLsbD_and, BitVec.getLsbD_not] at h1 h2 h3 ⊢
  revert h1 h2 h3
  cases (Pte.ad type).getLsbD i <;> cases new.getLsbD i <;> simp_all

end SetsAD

section Kept

variable {T' : Tables}

theorem Tables.Kept.reach (h : T.Kept vm T') {n : ℕ} {base : BitVec 64} (hr : T.Reach vm n base) :
    T'.Reach vm n base := by
  induction hr with
  | root => exact .root
  | @next n base v vaddr hr hv hp ih =>
    obtain ⟨w, hw, hvw⟩ := h _ ⟨n, base, vaddr, hr, rfl⟩ v hv
    rw [← hvw.ppn]
    refine .next vaddr ih hw ?_
    simpa only [isPointer, hvw.v, hvw.r, hvw.w, hvw.x] using hp

/-- The leaf stays, with more accessed and dirty bits. -/
theorem Tables.Kept.leafFrom (h : T.Kept vm T') {vaddr : BitVec 64} {type : MemoryAccessType} {n : ℕ}
    {base : BitVec 64} (hn : n = 0 ∨ T.Reach vm n base) {l : Pte × ℕ}
    (hl : T.leafFrom vm.idxbits vm.ptesize vaddr type n base = .ok l) :
    ∃ w, T'.leafFrom vm.idxbits vm.ptesize vaddr type n base = .ok (⟨w⟩, l.2) ∧
      SetsAD l.1.value w := by
  induction n generalizing base with
  | zero => cases hl
  | succ n ih =>
    have hr : T.Reach vm (n + 1) base := hn.resolve_left (by omega)
    rw [Tables.leafFrom] at hl ⊢
    split at hl
    · cases hl
    · next v hv =>
      obtain ⟨w, hw, hvw⟩ := h _ ⟨n, base, vaddr, hr, rfl⟩ v hv
      rw [hw]
      simp only [hvw.v, hvw.r, hvw.w, hvw.x, hvw.ppn] at hl ⊢
      split at hl
      · cases hl
      · next h1 =>
        rw [if_neg h1]
        split at hl
        · next h2 =>
          rw [if_pos h2]
          exact ih (.inr (.next vaddr hr hv (isPointer_of_branch h1 h2))) hl
        · next h2 =>
          rw [if_neg h2]
          cases hl
          exact ⟨w, rfl, hvw⟩

variable {satp : Satp} {vaddr pa : BitVec 64} {type : MemoryAccessType} {sMode sum mxr : Bool}

theorem Tables.Known.kept (h : T.Known satp vaddr type sMode sum mxr pa)
    (hk : T.Kept (decodeVmInfo satp) T') : T'.Known satp vaddr type sMode sum mxr pa := by
  obtain ⟨l, hl, hp, ha, had, hpa⟩ := h
  unfold Tables.leaf at hl
  dsimp only at hl
  obtain ⟨w, hw, hset⟩ := hk.leafFrom (by split <;> [exact .inr .root; exact .inl rfl]) hl
  refine ⟨(⟨w⟩, l.2), hw, ?_, ?_, hset.ad had, ?_⟩
  · rw [hset.permits]
    exact hp
  · rw [hset.ppn]
    exact ha
  · rw [hset.ppn]
    exact hpa

/-- What is known of an address is known of its page. -/
theorem Tables.Known.page {va' : BitVec 64} (h : T.Known satp vaddr type sMode sum mxr pa)
    (hv : vaddr >>> 12 = va' >>> 12) :
    T.Known satp va' type sMode sum mxr (pageOf pa ||| pageOffset va') := by
  obtain ⟨l, hl, hp, ha, had, rfl⟩ := h
  exact ⟨l, leaf_page hv hl, hp, ha, had, leafAddr_page hv _ _⟩

/-- The leaf does not depend on the type of the access. -/
theorem leafFrom_type {idxbits : ℕ} {ptesize : BitVec 64} {type' : MemoryAccessType} {n : ℕ}
    {base : BitVec 64} {l : Pte × ℕ} (hl : T.leafFrom idxbits ptesize vaddr type n base = .ok l) :
    T.leafFrom idxbits ptesize vaddr type' n base = .ok l := by
  induction n generalizing base with
  | zero => cases hl
  | succ n ih =>
    rw [Tables.leafFrom] at hl ⊢
    split at hl
    · cases hl
    · dsimp only at hl ⊢
      split at hl
      · cases hl
      · next h1 =>
        rw [if_neg h1]
        split at hl
        · next h2 =>
          rw [if_pos h2]
          exact ih hl
        · next h2 =>
          rw [if_neg h2]
          exact hl

theorem permits_load {p : Pte} (h : p.permits sMode sum mxr .store = true) :
    p.permits sMode sum mxr .load = true := by
  revert h
  simp only [Pte.permits]
  cases p.r <;> simp

/-- A page that can be stored to can be loaded from. -/
theorem Tables.Known.load (h : T.Known satp vaddr .store sMode sum mxr pa) :
    T.Known satp vaddr .load sMode sum mxr pa := by
  obtain ⟨l, hl, hp, ha, had, hpa⟩ := h
  refine ⟨l, leafFrom_type hl, permits_load hp, ha, ?_, hpa⟩
  have hsub : Pte.ad .store &&& Pte.ad .load = Pte.ad .load := by decide
  rw [← hsub, ← BitVec.and_assoc, had]

/-! ### Outcomes -/

/-- The tables without accessed and dirty bits. -/
def Tables.mask (T : Tables) : Tables := fun a => (T a).map maskAD

theorem Tables.Reach.of_mask {n : ℕ} {base : BitVec 64} (h : T.mask.Reach vm n base) :
    T.Reach vm n base := by
  induction h with
  | root => exact .root
  | @next n base v vaddr _ hv hp ih =>
    unfold Tables.mask at hv
    cases ha : T (ptePaddr vm.idxbits vm.ptesize vaddr n base) with
    | error t =>
      rw [ha] at hv
      cases hv
    | ok w =>
      rw [ha] at hv
      cases hv
      rw [ppn_maskAD]
      refine .next vaddr ih ha ?_
      simpa only [isPointer, v_maskAD, r_maskAD, w_maskAD, x_maskAD] using hp

theorem Tables.Entry.of_mask {a : BitVec 64} (h : T.mask.Entry vm a) : T.Entry vm a := by
  obtain ⟨n, base, vaddr, hr, ha⟩ := h
  exact ⟨n, base, vaddr, hr.of_mask, ha⟩

/-- A walk that succeeds still does while the tables are kept. -/
theorem Tables.Kept.walk (hk : T.Kept (decodeVmInfo satp) T')
    (h : T.walk satp vaddr type sMode sum mxr = .ok pa) :
    T'.walk satp vaddr type sMode sum mxr = .ok pa := by
  obtain ⟨l, hl, hp, ha, rfl⟩ := walk_eq_ok h
  unfold Tables.leaf at hl
  dsimp only at hl
  obtain ⟨w, hw, hset⟩ := hk.leafFrom (by split <;> [exact .inr .root; exact .inl rfl]) hl
  have hl' : T'.leaf satp vaddr type = .ok (⟨w⟩, l.2) := hw
  have ha' : (⟨w⟩ : Pte).ppn &&& ((1 <<< l.2) - 1) = 0 := hset.ppn ▸ ha
  rw [walk_of_leaf hl' ha', hset.permits, hset.ppn]
  exact if_pos hp

/-- If a store is allowed, a load is. -/
theorem Tables.walk_load (h : T.walk satp vaddr .store sMode sum mxr = .ok pa) :
    T.walk satp vaddr .load sMode sum mxr = .ok pa := by
  obtain ⟨l, hl, hp, ha, rfl⟩ := walk_eq_ok h
  rw [walk_of_leaf (leafFrom_type hl) ha]
  exact if_pos (permits_load hp)

end Kept

/-! ### What translation throws -/

section Throws

variable {σ : Type} {mem : MemIf (MemM σ)} {φ : SimulationTrap → Prop}
  (hload : ∀ a n, Throws φ (mem.rawLoad a n)) (hstore : ∀ a n v, Throws φ (mem.rawStore a n v))
  {type : MemoryAccessType} {va : BitVec 64} (hfault : φ (type.pageFault va))
include hload hstore hfault

/-- A walk throws the page fault of its access, and what reading and writing entries throws. -/
theorem throws_walkFrom (idxbits : ℕ) (ptesize : BitVec 64) (sMode sum mxr : Bool) (n : ℕ) :
    ∀ base, Throws φ (walkFrom mem idxbits ptesize va type sMode sum mxr n base) := by
  have hthrow : ∀ {α : Type}, Throws φ (throw (type.pageFault va) : MemM σ α) :=
    fun {_} => .throw hfault
  induction n with
  | zero => exact fun _ => hthrow
  | succ n ih =>
    intro base
    unfold walkFrom
    refine .bind ?_ fun pte => .ite (fun _ => hthrow) fun _ => .ite (fun _ => ih _) fun _ =>
      .ite (fun _ => hthrow) fun _ => .ite (fun _ => hthrow) fun _ =>
      .ite (fun _ => .bind ?_ fun _ => .pure _) fun _ => .pure _
    · exact (hload _ _).bind fun _ => .pure _
    · exact (hstore _ _ _).bind fun _ => .pure _

/-- Translation throws what the walk throws, since the buffer itself throws nothing. -/
theorem throws_translate (csrs : Csrs) (prv : PrivilegeLevel) (tlb : Tlb) :
    Throws φ (translate mem csrs prv tlb va type) := by
  unfold translate
  split
  · exact .pure _
  · exact .ite (fun _ => .pure _) fun _ =>
      (throws_walkFrom hload hstore hfault _ _ _ _ _ _ _).bind fun _ => .pure _

end Throws

end RiscvVp.Mmu
