import RiscvVp.Mem.Equiv.Walk

/-!
# Page tables in memory

Page tables lie in memory: reading an entry has no effect but waiting for the bus, and an entry that is
written is read back.  A walk of an address that is `Known` therefore changes nothing
(`World.walk_known`), and after a walk that succeeds the address is known (`World.walk_ok`).
-/

namespace RiscvVp

/-! ### Bytes -/

namespace Host

theorem load_low (m : Host) (a : HostAddr) (n : ℕ) {i : ℕ} (hi : i < 8) :
    (m.load a (n + 1)).getLsbD i = (m a).getLsbD i := by
  have h64 : i < 64 := by omega
  simp [load, hi, h64]

theorem add_one_add (a : HostAddr) (i : ℕ) :
    a + 1 + BitVec.ofNat 64 i = a + BitVec.ofNat 64 (i + 1) := by
  rw [BitVec.add_assoc, BitVec.ofNat_add, BitVec.add_comm (BitVec.ofNat 64 i)]
  rfl

theorem load_congr {m m' : Host} {a : HostAddr} {n : ℕ}
    (h : ∀ i < n, m' (a + BitVec.ofNat 64 i) = m (a + BitVec.ofNat 64 i)) :
    m'.load a n = m.load a n := by
  induction n generalizing a with
  | zero => rfl
  | succ n ih =>
    have h0 : m' a = m a := by simpa using h 0 (by omega)
    rw [load, load, h0, ih]
    intro i hi
    rw [add_one_add]
    exact h (i + 1) (by omega)

/-- A store keeps the bytes it does not write. -/
theorem store_of_ne {m : Host} {a b : HostAddr} {n : ℕ} {v : BitVec 64}
    (h : ∀ i < n, b ≠ a + BitVec.ofNat 64 i) : (m.store a n v) b = m b := by
  induction n generalizing m a v with
  | zero => rfl
  | succ n ih =>
    have h0 : b ≠ a := by simpa using h 0 (by omega)
    refine (ih fun i hi => ?_).trans (Function.update_of_ne h0 _ _)
    rw [add_one_add]
    exact h (i + 1) (by omega)

/-- A store copies the bytes of the value. -/
theorem store_apply (h : Host) (a : HostAddr) {n : ℕ} (v : BitVec 64) (hn : n < 2 ^ 64) (b : HostAddr) :
    h.store a n v b = if (b - a).toNat < n then (v >>> (8 * (b - a).toNat)).setWidth 8 else h b := by
  induction n generalizing h a v with
  | zero => rfl
  | succ n ih =>
    refine (ih _ (a + 1) (v >>> 8) (by omega)).trans ?_
    by_cases hba : b = a
    · -- the first byte is out of reach of the others
      subst hba
      rw [if_neg (by bv_omega), BitVec.sub_self, if_pos (by simp)]
      refine (Function.update_self b _ _).trans ?_
      simp
    · have hsub : (b - a).toNat = (b - (a + 1)).toNat + 1 := by bv_omega
      rw [hsub, Nat.mul_add, Nat.add_comm _ (8 * 1), BitVec.shiftRight_add]
      exact if_congr (by omega) rfl (Function.update_of_ne hba _ _)

theorem store_word_self (m : Host) (a : HostAddr) (v : BitVec 64) :
    (m.store a 4 v) a = v.setWidth 8 := by
  have h : (store (Function.update m a (v.setWidth 8)) (a + 1) 3 (v >>> 8)) a =
      Function.update m a (v.setWidth 8) a := by
    apply store_of_ne
    intro i hi
    bv_omega
  exact h.trans (Function.update_self _ _ _)

/-- The low byte of a word that has been stored. -/
theorem load_store_low (m : Host) (a : HostAddr) (v : BitVec 64) {i : ℕ} (hi : i < 8) :
    ((m.store a 4 v).load a 8).getLsbD i = v.getLsbD i := by
  rw [load_low _ _ _ hi, store_word_self, BitVec.getLsbD_setWidth]
  simp [hi]

end Host

namespace World

open Mmu

variable {δ : Type} (bus : Bus δ) (hart : ℕ) (ranges : List MemoryDMI)

/-! ### Waiting for the bus -/

section Wait

variable (w : World δ)

@[simp] theorem waitForAccessRights_host : (w.waitForAccessRights hart).host = w.host := rfl

@[simp] theorem waitForAccessRights_dev : (w.waitForAccessRights hart).dev = w.dev := rfl

theorem wait_wait (hart : ℕ) :
    (w.waitForAccessRights hart).waitForAccessRights hart = w.waitForAccessRights hart := by
  rcases w with ⟨host, dev, ⟨locked, owner⟩⟩
  cases locked <;> cases h : owner == hart <;>
    simp [waitForAccessRights, BusLock.waitForAccessRights, BusLock.isLockedBy,
      BusLock.waitUntilUnlocked, h]

theorem wait_unlocked {w : World δ} (h : w.busLock.locked = false) (hart : ℕ) :
    w.waitForAccessRights hart = w := by
  rcases w with ⟨host, dev, ⟨locked, owner⟩⟩
  cases h
  rfl

end Wait

/-! ### What raw accesses throw -/

theorem throws_rawLoad (a : BitVec 64) (n : Width) :
    Throws (fun t => t.reason = .loadPageFault) ((memIf bus hart ranges).rawLoad a n) := by
  intro w t h
  replace h : ((w.waitForAccessRights hart).loadNow bus ranges a n).1 = .error t := h
  unfold loadNow at h
  split at h
  · cases h
  · split at h
    · cases h
    · cases h
      rfl

theorem throws_rawStore (a : BitVec 64) (n : Width) (v : BitVec 64) :
    Throws (fun t => t.reason = .storeAmoPageFault) ((memIf bus hart ranges).rawStore a n v) := by
  intro w t h
  replace h : ((w.waitForAccessRights hart).storeNow bus hart ranges a n v).1 = .error t := h
  unfold storeNow at h
  split at h
  · cases h
  · split at h
    · cases h
    · cases h
      rfl

/-! ### Words of memory -/

/-- The words that are read at addresses. -/
def word (w : World δ) : Tables := fun a => (w.loadNow bus ranges a .double).1.map (·.1)

/-- There is memory at an address. -/
def InRam (a : BitVec 64) : Prop :=
  (ranges.find? fun e => e.contains a).isSome = true ∨ (bus.ram a).isSome = true

/-- The entries of the tables lie in memory. -/
def RamTables (vm : VmInfo) (T : Tables) : Prop :=
  ∀ a, T.Entry vm a → ∀ v, T a = .ok v → InRam bus ranges a

variable {bus hart ranges} {w w' : World δ}

/-- The lock does not matter for what the memory holds, and neither does anything but host memory and
devices. -/
theorem word_congr (hh : w'.host = w.host) (hd : w'.dev = w.dev) :
    w'.word bus ranges = w.word bus ranges := by
  funext a
  unfold word loadNow
  rw [hh, hd]
  split
  · rfl
  · rcases bus.read w.host w.dev a .double with ⟨v | v, d⟩ <;> rfl

theorem word_wait (w : World δ) (hart : ℕ) :
    (w.waitForAccessRights hart).word bus ranges = w.word bus ranges :=
  word_congr rfl rfl

theorem word_eq_of_wait (h : w'.waitForAccessRights hart = w.waitForAccessRights hart) :
    w'.word bus ranges = w.word bus ranges := by
  rw [← word_wait w' hart, h, word_wait]

/-- What a raw load of an entry answers. -/
theorem rawLoad_fst (w : World δ) (a : BitVec 64) :
    (((memIf bus hart ranges).rawLoad a .double).run' w).1.map (·.1) = w.word bus ranges a := by
  rw [← word_wait w hart]
  rfl

theorem rawLoad_ram {a v : BitVec 64} (hr : InRam bus ranges a) (hv : w.word bus ranges a = .ok v) :
    ∃ h, ((memIf bus hart ranges).rawLoad a .double).run' w =
      (.ok (v, h), w.waitForAccessRights hart) := by
  rw [← word_wait w hart] at hv
  show ∃ h, (w.waitForAccessRights hart).loadNow bus ranges a .double = _
  unfold word loadNow at hv
  unfold loadNow
  cases hf : ranges.find? fun e => e.contains a with
  | some e =>
    rw [hf] at hv
    cases hv
    exact ⟨_, rfl⟩
  | none =>
    obtain ⟨p, hp⟩ := Option.isSome_iff_exists.mp (hr.resolve_left (by simp [hf]))
    rw [hf, bus.read_ram _ _ _ _ p hp] at hv
    rw [bus.read_ram _ _ _ _ p hp]
    cases hv
    exact ⟨_, rfl⟩

/-- A word that is stored at an entry is read back. -/
theorem rawStore_ram {a : BitVec 64} (hr : InRam bus ranges a) (x : BitVec 64) :
    ∃ h w' v, ((memIf bus hart ranges).rawStore a .word x).run' w = (.ok h, w') ∧
      w'.word bus ranges a = .ok v ∧ ∀ i < 8, v.getLsbD i = x.getLsbD i := by
  show ∃ h w' v, (w.waitForAccessRights hart).storeNow bus hart ranges a .word x = _ ∧ _
  unfold word storeNow loadNow
  cases hf : ranges.find? fun e => e.contains a with
  | some e => exact ⟨_, _, _, rfl, rfl, fun i hi => Host.load_store_low _ _ _ hi⟩
  | none =>
    obtain ⟨p, hp⟩ := Option.isSome_iff_exists.mp (hr.resolve_left (by simp [hf]))
    simp only [bus.read_ram _ _ _ _ p hp, bus.write_ram _ _ _ _ _ p hp]
    refine ⟨_, _, _, rfl, rfl, fun i hi => ?_⟩
    have h64 : i < 64 := by omega
    have h32 : i < 32 := by omega
    simp only [Width.truncate, Width.bits, Width.bytes, BitVec.getLsbD_setWidth, h64, decide_true,
      Bool.true_and, unlock]
    rw [Host.load_store_low _ _ _ hi]
    simp [h64, h32]

/-! ### Walks -/

section Walk

variable {vm : VmInfo} {T : Tables} {vaddr pa : BitVec 64} {type : MemoryAccessType}
  {sMode sum mxr : Bool}

/-- The loop of `walk` when the bits of the leaf are set: the world only waits for the bus. -/
theorem walkFrom_known (hT : RamTables bus ranges vm T) {n : ℕ} {base : BitVec 64}
    (hn : n = 0 ∨ T.Reach vm n base) {l : Pte × ℕ}
    (hl : T.leafFrom vm.idxbits vm.ptesize vaddr type n base = .ok l)
    (hp : l.1.permits sMode sum mxr type = true) (ha : l.1.ppn &&& ((1 <<< l.2) - 1) = 0)
    (had : l.1.value &&& Pte.ad type = Pte.ad type) (hw : w.word bus ranges = T) :
    (walkFrom (memIf bus hart ranges) vm.idxbits vm.ptesize vaddr type sMode sum mxr n base).run' w =
      (.ok (leafAddr l.1.ppn vaddr l.2), w.waitForAccessRights hart) := by
  induction n generalizing base w with
  | zero => cases hl
  | succ n ih =>
    have hr : T.Reach vm (n + 1) base := hn.resolve_left (by omega)
    obtain ⟨a, hadr⟩ : ∃ a, a = ptePaddr vm.idxbits vm.ptesize vaddr n base := ⟨_, rfl⟩
    rw [Tables.leafFrom, ← hadr] at hl
    rw [walkFrom, MemM.run'_bind, run'_mmuLoadPte64]
    have hentry : T.Entry vm a := ⟨n, base, vaddr, hr, hadr⟩
    rw [ptePaddr] at hadr
    rw [← hadr]
    cases hv : T a with
    | error t =>
      rw [hv] at hl
      cases hl
    | ok v =>
      rw [hv] at hl
      obtain ⟨h, hload⟩ := @rawLoad_ram _ _ hart _ _ _ _ (hT a hentry v hv) (hw.symm ▸ hv)
      rw [hload]
      simp only [Except.map] at hl ⊢
      by_cases h1 : (!(⟨v⟩ : Pte).v || (!(⟨v⟩ : Pte).r && (⟨v⟩ : Pte).w)) = true
      · rw [if_pos h1] at hl
        cases hl
      rw [if_neg h1] at hl ⊢
      by_cases h2 : (!(⟨v⟩ : Pte).r && !(⟨v⟩ : Pte).x) = true
      · rw [if_pos h2] at hl ⊢
        have hnext : T.Reach vm n ((⟨v⟩ : Pte).ppn <<< 12) :=
          .next vaddr hr (by rw [ptePaddr, ← hadr]; exact hv) (isPointer_of_branch h1 h2)
        rw [ih (.inr hnext) hl ((word_wait w hart).trans hw), wait_wait]
      rw [if_neg h2] at hl ⊢
      cases hl
      rw [if_neg (by simp [hp]), if_neg (not_not.mpr ha), if_neg (not_not.mpr had)]
      rfl

/-- The loop of `walk` when it succeeds: afterwards the bits of the leaf are set. -/
theorem walkFrom_ok (hT : RamTables bus ranges vm T) {n : ℕ} {base : BitVec 64}
    (hn : n = 0 ∨ T.Reach vm n base) (hw : w.word bus ranges = T)
    (hrun : (walkFrom (memIf bus hart ranges) vm.idxbits vm.ptesize vaddr type sMode sum mxr n
      base).run' w = (.ok pa, w')) (hk : T.Kept vm (w'.word bus ranges)) :
    ∃ l, (w'.word bus ranges).leafFrom vm.idxbits vm.ptesize vaddr type n base = .ok l ∧
      l.1.permits sMode sum mxr type = true ∧ l.1.ppn &&& ((1 <<< l.2) - 1) = 0 ∧
      l.1.value &&& Pte.ad type = Pte.ad type ∧ pa = leafAddr l.1.ppn vaddr l.2 := by
  induction n generalizing base w with
  | zero => cases hrun
  | succ n ih =>
    have hr : T.Reach vm (n + 1) base := hn.resolve_left (by omega)
    obtain ⟨a, hadr⟩ : ∃ a, a = ptePaddr vm.idxbits vm.ptesize vaddr n base := ⟨_, rfl⟩
    have hentry : T.Entry vm a := ⟨n, base, vaddr, hr, hadr⟩
    rw [Tables.leafFrom, ← hadr]
    rw [walkFrom, MemM.run'_bind, run'_mmuLoadPte64] at hrun
    rw [ptePaddr] at hadr
    rw [← hadr] at hrun
    cases hv : T a with
    | error t =>
      have hfst := @rawLoad_fst _ bus hart ranges w a
      rw [hw, hv] at hfst
      rcases hload : ((memIf bus hart ranges).rawLoad a .double).run' w with ⟨t' | x, w₁⟩
      · rw [hload] at hrun
        cases hrun
      · rw [hload] at hfst
        cases hfst
    | ok v =>
      have hram := hT a hentry v hv
      obtain ⟨h, hload⟩ := @rawLoad_ram _ _ hart _ _ _ _ hram (hw.symm ▸ hv)
      obtain ⟨v', hv', hset⟩ := hk a hentry v hv
      rw [hload] at hrun
      rw [hv']
      simp only [Except.map] at hrun
      simp only [hset.v, hset.r, hset.w, hset.x, hset.ppn]
      by_cases h1 : (!(⟨v⟩ : Pte).v || (!(⟨v⟩ : Pte).r && (⟨v⟩ : Pte).w)) = true
      · rw [if_pos h1] at hrun
        cases hrun
      rw [if_neg h1] at hrun ⊢
      by_cases h2 : (!(⟨v⟩ : Pte).r && !(⟨v⟩ : Pte).x) = true
      · rw [if_pos h2] at hrun ⊢
        have hnext : T.Reach vm n ((⟨v⟩ : Pte).ppn <<< 12) :=
          .next vaddr hr (by rw [ptePaddr, ← hadr]; exact hv) (isPointer_of_branch h1 h2)
        exact ih (.inr hnext) ((word_wait w hart).trans hw) hrun
      rw [if_neg h2] at hrun ⊢
      by_cases h3 : (!(⟨v⟩ : Pte).permits sMode sum mxr type) = true
      · rw [if_pos h3] at hrun
        cases hrun
      rw [if_neg h3] at hrun
      by_cases h4 : (⟨v⟩ : Pte).ppn &&& ((1 <<< (n * vm.idxbits)) - 1) ≠ 0
      · rw [if_pos h4] at hrun
        cases hrun
      rw [if_neg h4] at hrun
      -- what is left: the answer is that of the leaf, and its bits are set in the end
      suffices hend : pa = leafAddr (⟨v⟩ : Pte).ppn vaddr (n * vm.idxbits) ∧
          v' &&& Pte.ad type = Pte.ad type by
        refine ⟨_, rfl, ?_, ?_, hend.2, ?_⟩
        · rw [hset.permits]
          simpa using h3
        · simpa only [hset.ppn, not_not] using h4
        · simpa only [hset.ppn] using hend.1
      by_cases h5 : v &&& Pte.ad type ≠ Pte.ad type
      · rw [if_pos h5, MemM.run'_bind, run'_mmuStorePte32] at hrun
        obtain ⟨h', w₂, x, hst, hx, hlow⟩ :=
          @rawStore_ram _ _ hart _ (w.waitForAccessRights hart) _ hram (v ||| Pte.ad type)
        rw [hst] at hrun
        cases hrun
        refine ⟨rfl, ?_⟩
        cases hx.symm.trans hv'
        apply BitVec.eq_of_getLsbD_eq
        intro i _
        by_cases hi : i < 8
        · rw [BitVec.getLsbD_and, hlow i hi, BitVec.getLsbD_or]
          cases (Pte.ad type).getLsbD i <;> simp
        · have hbit : ∀ j : Fin 64, ¬(j : ℕ) < 8 → (Pte.ad type).getLsbD j = false := by
            cases type <;> decide
          rw [BitVec.getLsbD_and, hbit ⟨i, by omega⟩ hi, Bool.and_false]
      · rw [if_neg h5] at hrun
        cases hrun
        exact ⟨rfl, hset.ad (not_not.mp h5)⟩

variable {csrs : Csrs} {mode : PrivilegeLevel}

/-- A walk of a known address gives that address and changes nothing but the lock, for which it waits. -/
theorem walk_known (hT : RamTables bus ranges (decodeVmInfo csrs.satp) (w.word bus ranges))
    (hk : (w.word bus ranges).Known csrs.satp vaddr type (mode == .supervisor) csrs.mstatus.sum
      csrs.mstatus.mxr pa) :
    (Mmu.walk (memIf bus hart ranges) csrs vaddr type mode).run' w =
      (.ok pa, w.waitForAccessRights hart) := by
  obtain ⟨l, hl, hp, ha, had, rfl⟩ := hk
  exact walkFrom_known hT (by split <;> [exact .inr .root; exact .inl rfl]) hl hp ha had rfl

/-- After a walk that succeeds the address is known. -/
theorem walk_ok (hT : RamTables bus ranges (decodeVmInfo csrs.satp) (w.word bus ranges))
    (hrun : (Mmu.walk (memIf bus hart ranges) csrs vaddr type mode).run' w = (.ok pa, w'))
    (hk : (w.word bus ranges).Kept (decodeVmInfo csrs.satp) (w'.word bus ranges)) :
    (w'.word bus ranges).Known csrs.satp vaddr type (mode == .supervisor) csrs.mstatus.sum
      csrs.mstatus.mxr pa :=
  walkFrom_ok hT (by split <;> [exact .inr .root; exact .inl rfl]) rfl hrun hk

/-- Page tables in memory are tables in the sense of `HasTables`. -/
theorem hasTables (hT : RamTables bus ranges vm T) :
    HasTables (memIf bus hart ranges) vm T.mask (fun w => w.word bus ranges = T) where
  load := by
    intro w hw a ha
    have hfst := @rawLoad_fst _ bus hart ranges w a
    rcases hr : ((memIf bus hart ranges).rawLoad a .double).run' w with ⟨r, w'⟩
    rw [hr, hw] at hfst
    refine ⟨r, w', rfl, ?_, fun x hx => ?_⟩
    · unfold Tables.mask
      rw [← hfst]
      cases r <;> rfl
    · subst hx
      obtain ⟨v, last⟩ := x
      obtain ⟨h, hload⟩ := @rawLoad_ram _ _ hart _ _ _ _ (hT a ha.of_mask v hfst.symm)
        (hw.symm ▸ hfst.symm)
      cases hr.symm.trans hload
      exact (word_wait w hart).trans hw
  store := by
    intro w hw a ha v h w' type hload _
    have hfst := @rawLoad_fst _ bus hart ranges w a
    rw [hload, hw] at hfst
    obtain ⟨r, w'', _, hst, -⟩ := @rawStore_ram _ _ hart _ w' _ (hT a ha.of_mask v hfst.symm)
      (v ||| Pte.ad type)
    exact ⟨r, w'', hst⟩

end Walk

end World

end RiscvVp
