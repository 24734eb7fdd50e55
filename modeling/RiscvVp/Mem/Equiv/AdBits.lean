import RiscvVp.Mem.Equiv.LsCache

/-!
# What a data access that throws leaves in memory

A page walk may set the accessed and dirty bits of the leaf it finds, and the access that follows it may
still throw.  `World.OnlyAD` says that memory has changed in such bits only, and the accesses of
`CombinedMemoryInterface_T` and of the load/store cache are shown to leave it so when they throw
(`Core.loadData_onlyAD`, `Core.storeData_onlyAD`).
-/

namespace RiscvVp

/-! ### Bytes -/

namespace Host

/-- Nothing is loaded above the bytes of the access. -/
theorem getLsbD_load_of_ge (m : Host) (a : HostAddr) (n : ℕ) {i : ℕ} (hi : 8 * n ≤ i) :
    (m.load a n).getLsbD i = false := by
  induction n generalizing a i with
  | zero => simp [load]
  | succ n ih =>
    rw [load, BitVec.getLsbD_or, BitVec.getLsbD_shiftLeft, BitVec.getLsbD_setWidth,
      BitVec.getLsbD_of_ge (m a) i (by omega), ih (a + 1) (by omega)]
    simp

/-- The bytes after the first are those that are loaded from the next address. -/
theorem load_succ_shiftRight (m : Host) (a : HostAddr) {n : ℕ} (hn : n ≤ 7) :
    m.load a (n + 1) >>> 8 = m.load (a + 1) n := by
  apply BitVec.eq_of_getLsbD_eq
  intro i hi
  rw [BitVec.getLsbD_ushiftRight, load, BitVec.getLsbD_or, BitVec.getLsbD_shiftLeft,
    BitVec.getLsbD_setWidth, BitVec.getLsbD_of_ge (m a) (8 + i) (by omega)]
  by_cases h56 : 8 + i < 64
  · simp [h56]
  · rw [getLsbD_load_of_ge m (a + 1) n (i := i) (by omega), decide_eq_false h56]
    simp

theorem setWidth_load_succ (m : Host) (a : HostAddr) (n : ℕ) :
    (m.load a (n + 1)).setWidth 8 = m a := by
  apply BitVec.eq_of_getLsbD_eq
  intro i hi
  rw [BitVec.getLsbD_setWidth, load_low m a n hi]
  simp [hi]

/-- Storing what has been loaded changes nothing. -/
theorem store_load_self (m : Host) (a : HostAddr) {k n : ℕ} (hk : k ≤ n) (hn : n ≤ 8) :
    m.store a k (m.load a n) = m := by
  induction k generalizing a n with
  | zero => rfl
  | succ k ih =>
    obtain ⟨n, rfl⟩ : ∃ n', n = n' + 1 := ⟨n - 1, by omega⟩
    have hself : Function.update m a (m a) = m := Function.update_eq_self a m
    rw [store, setWidth_load_succ, load_succ_shiftRight m a (by omega), hself]
    exact ih (a + 1) (by omega) (by omega)

/-- A store of `k` bytes does not depend on what lies above them. -/
theorem store_congr (m : Host) (a : HostAddr) {k : ℕ} {v v' : BitVec 64}
    (h : ∀ i < 8 * k, v.getLsbD i = v'.getLsbD i) : m.store a k v = m.store a k v' := by
  induction k generalizing m a v v' with
  | zero => rfl
  | succ k ih =>
    have hbyte : v.setWidth 8 = v'.setWidth 8 := by
      apply BitVec.eq_of_getLsbD_eq
      intro i hi
      rw [BitVec.getLsbD_setWidth, BitVec.getLsbD_setWidth, h i (by omega)]
    rw [store, store, hbyte]
    apply ih
    intro i hi
    rw [BitVec.getLsbD_ushiftRight, BitVec.getLsbD_ushiftRight]
    exact h (8 + i) (by omega)

/-- Set bits of one byte. -/
def setBits (m : Host) (a : HostAddr) (b : BitVec 8) : Host := fun x => if x = a then m x ||| b else m x

/-- A word that differs from memory in bits of its first byte. -/
theorem store_load_or (m : Host) (a : HostAddr) {n : ℕ} (h3 : 3 ≤ n) (h7 : n ≤ 7) {b : BitVec 64}
    (hb : b >>> 8 = 0#64) :
    m.store a 4 (m.load a (n + 1) ||| b) = m.setBits a (b.setWidth 8) := by
  have hupd : Function.update m a ((m.load a (n + 1) ||| b).setWidth 8) =
      m.setBits a (b.setWidth 8) := by
    funext x
    rw [BitVec.setWidth_or, setWidth_load_succ, setBits]
    by_cases hx : x = a
    · rw [if_pos hx, hx]
      exact Function.update_self _ _ _
    · rw [if_neg hx]
      exact Function.update_of_ne hx _ _
  have hrest : (m.load a (n + 1) ||| b) >>> 8 = m.load (a + 1) n := by
    rw [BitVec.ushiftRight_or_distrib, hb, BitVec.or_zero, load_succ_shiftRight m a h7]
  -- the first byte is not one of the others
  have hload : m.load (a + 1) n = (m.setBits a (b.setWidth 8)).load (a + 1) n := by
    apply load_congr
    intro i hi
    exact (if_neg (by bv_omega)).symm
  rw [store, hupd, hrest, hload]
  exact store_load_self _ _ (by omega) (by omega)

end Host

/-- A store of a word that the bus has truncated. -/
theorem Width.store_truncate (m : Host) (a : HostAddr) (n : Width) (v : BitVec 64) :
    m.store a n.bytes (n.truncate v) = m.store a n.bytes v := by
  apply Host.store_congr
  intro i hi
  have h64 : i < 64 := by cases n <;> simp only [Width.bytes] at hi <;> omega
  have hn : i < n.bits := hi
  simp [Width.truncate, h64, hn]

/-- What the bus promises of memory beyond `Bus.ram`: a transaction with an error response has not
written to it, and neither does a transaction to the registers of a device. -/
structure Bus.WritesRamOnly {δ : Type} (bus : Bus δ) : Prop where
  failed : ∀ h d a n v, (bus.write h d a n v).1 = none → (bus.write h d a n v).2.1 = h
  device : ∀ h d a, bus.ram a = none → (bus.read h d a .double).1 ≠ none →
    ∀ h' d' v, (bus.write h' d' a .word v).2.1 = h'

theorem Bus.writesRamOnly_empty : Bus.empty.WritesRamOnly where
  failed _ _ _ _ _ _ := rfl
  device _ _ _ _ hread := absurd rfl hread

namespace World

open Mmu

variable {δ : Type} (bus : Bus δ) (hart : ℕ) (ranges : List MemoryDMI)

/-! ### Changes of accessed and dirty bits -/

/-- Where the memory at a physical address lies. -/
def place (a : BitVec 64) : Option HostAddr :=
  match ranges.find? fun e => e.contains a with
  | some e => some (e.getMemPtrToGlobalAddr a)
  | none => bus.ram a

/-- A walk for `va` from `w` has come to the table at `base`, with `n` levels left. -/
inductive Visits (vm : VmInfo) (va : BitVec 64) (w : World δ) : ℕ → BitVec 64 → World δ → Prop
  | root : Visits vm va w vm.levels vm.ptbase w
  | next {n : ℕ} {base v : BitVec 64} {h : Option HostAddr} {w1 w2 : World δ}
      (hw : Visits vm va w (n + 1) base w1)
      (hr : ((memIf bus hart ranges).rawLoad (ptePaddr vm.idxbits vm.ptesize va n base)
        .double).run' w1 = (.ok (v, h), w2))
      (hp : isPointer ⟨v⟩ = true) : Visits vm va w n ((⟨v⟩ : Pte).ppn <<< 12) w2

/-- Host memory has changed in accessed and dirty bits only: bits have been set in the first byte of
entries that a walk for an address of `V` visits. -/
inductive OnlyAD (vm : VmInfo) (V : Set (BitVec 64)) (w : World δ) : World δ → Prop
  | same {w' : World δ} (h : w'.host = w.host) : OnlyAD vm V w w'
  | setAD {w1 w2 w' : World δ} {va base : BitVec 64} {n : ℕ} {p : HostAddr}
      {type : MemoryAccessType} (h : OnlyAD vm V w w1) (hva : va ∈ V)
      (hv : Visits bus hart ranges vm va w1 (n + 1) base w2)
      (hp : place bus ranges (ptePaddr vm.idxbits vm.ptesize va n base) = some p)
      (hw : w'.host = w1.host.setBits p ((Pte.ad type).setWidth 8)) :
      OnlyAD vm V w w'

section OnlyAD

variable {bus hart ranges} {vm : VmInfo} {V : Set (BitVec 64)} {w w1 w2 : World δ}

theorem OnlyAD.host_eq (h : OnlyAD bus hart ranges vm V w w1) (hw : w2.host = w1.host) :
    OnlyAD bus hart ranges vm V w w2 := by
  cases h with
  | same h => exact .same (hw.trans h)
  | setAD h hva hv hp h1 => exact .setAD h hva hv hp (hw.trans h1)

theorem OnlyAD.trans (h : OnlyAD bus hart ranges vm V w w1)
    (h' : OnlyAD bus hart ranges vm V w1 w2) : OnlyAD bus hart ranges vm V w w2 := by
  induction h' with
  | same hw => exact h.host_eq hw
  | setAD _ hva hv hp hw ih => exact .setAD ih hva hv hp hw

/-- Only the start of the relation has to have the same memory. -/
theorem OnlyAD.of_host {w0 : World δ} (h0 : w.host = w0.host)
    (h : OnlyAD bus hart ranges vm V w w1) : OnlyAD bus hart ranges vm V w0 w1 :=
  (OnlyAD.same h0).trans h

/-- All other bits of memory are as before. -/
theorem OnlyAD.mask (h : OnlyAD bus hart ranges vm V w w1) (x : HostAddr) :
    w1.host x &&& 0x3F = w.host x &&& 0x3F := by
  induction h with
  | same h => rw [h]
  | @setAD w1 _ w' _ _ _ p type _ _ _ _ hw ih =>
    rw [hw, Host.setBits]
    by_cases hx : x = p
    · have had : (Pte.ad type).setWidth 8 &&& 0x3F = 0#8 := by cases type <;> decide
      rw [if_pos hx, BitVec.and_or_distrib_right, had, BitVec.or_zero]
      exact ih
    · rw [if_neg hx]
      exact ih

end OnlyAD

/-! ### Raw accesses -/

variable {bus hart ranges}

theorem rawLoad_host (w : World δ) (a : BitVec 64) (n : Width) :
    (((memIf bus hart ranges).rawLoad a n).run' w).2.host = w.host := by
  show ((w.waitForAccessRights hart).loadNow bus ranges a n).2.host = w.host
  unfold loadNow
  split
  · rfl
  · split <;> rfl

/-- A store that throws has not written. -/
theorem rawStore_host (hbus : bus.WritesRamOnly) {w w' : World δ} {a v : BitVec 64} {n : Width}
    {t : SimulationTrap}
    (h : ((memIf bus hart ranges).rawStore a n v).run' w = (.error t, w')) : w'.host = w.host := by
  replace h : (w.waitForAccessRights hart).storeNow bus hart ranges a n v = (.error t, w') := h
  unfold storeNow at h
  split at h
  · cases h
  · split at h
    · cases h
    · next host dev hw =>
      cases h
      have hf := hbus.failed w.host w.dev a n (n.truncate v)
      rw [show bus.write w.host w.dev a n (n.truncate v) = (none, host, dev) from hw] at hf
      exact hf rfl

/-- What is written over an entry that has been read. -/
theorem rawStore_ad (hbus : bus.WritesRamOnly) {w w1 w2 : World δ} {a v : BitVec 64}
    {h : Option HostAddr} {r : Except SimulationTrap (Option HostAddr)} (type : MemoryAccessType)
    (hl : ((memIf bus hart ranges).rawLoad a .double).run' w = (.ok (v, h), w1))
    (hs : ((memIf bus hart ranges).rawStore a .word (v ||| Pte.ad type)).run' w1 = (r, w2)) :
    w2.host = w.host ∨ ∃ p, place bus ranges a = some p ∧
      w2.host = w.host.setBits p ((Pte.ad type).setWidth 8) := by
  have had : Pte.ad type >>> 8 = 0#64 := by cases type <;> decide
  have hw1 : w1.host = w.host := by
    have := @rawLoad_host _ bus hart ranges w a .double
    rwa [hl] at this
  replace hl : (w.waitForAccessRights hart).loadNow bus ranges a .double = (.ok (v, h), w1) := hl
  replace hs : (w1.waitForAccessRights hart).storeNow bus hart ranges a .word (v ||| Pte.ad type) =
    (r, w2) := hs
  unfold loadNow at hl
  unfold storeNow at hs
  unfold place
  cases hf : ranges.find? fun e => e.contains a with
  | some e =>
    simp only [hf] at hl hs
    cases hl
    cases hs
    right
    refine ⟨_, rfl, ?_⟩
    exact Host.store_load_or w.host _ (by omega) le_rfl had
  | none =>
    simp only [hf] at hl hs
    cases hram : bus.ram a with
    | some p =>
      rw [bus.read_ram _ _ _ _ p hram] at hl
      rw [bus.write_ram _ _ _ _ _ p hram] at hs
      cases hl
      cases hs
      right
      refine ⟨p, rfl, ?_⟩
      show Host.store w.host p (Width.bytes .word) _ = _
      have hv : (Width.truncate .double (w.host.load p 8)) = w.host.load p 8 := by
        simp [Width.truncate, Width.bits, Width.bytes]
      rw [Width.store_truncate]
      show Host.store w.host p 4 (Width.truncate .double (w.host.load p 8) ||| Pte.ad type) = _
      rw [hv]
      exact Host.store_load_or w.host _ (by omega) le_rfl had
    | none =>
      left
      -- the entry is a register of a device, since reading it has given a value
      have hread : (bus.read w.host w.dev a .double).1 ≠ none := by
        intro hnone
        rcases hr : bus.read w.host w.dev a .double with ⟨x, dev⟩
        rw [hr] at hnone
        cases hnone
        simp only [waitForAccessRights_host, waitForAccessRights_dev, hr] at hl
        cases hl
      have hwrite := hbus.device w.host w.dev a hram hread w1.host w1.dev
        (Width.truncate .word (v ||| Pte.ad type))
      rw [← hw1, ← hwrite]
      simp only [waitForAccessRights_host, waitForAccessRights_dev] at hs
      split at hs
      · next host dev hbw =>
        cases hs
        rw [hbw]
        rfl
      · next host dev hbw =>
        cases hs
        rw [hbw]

/-! ### The page walk -/

/-- The loop of `walk` changes nothing but the bits of the leaf. -/
theorem walkFrom_onlyAD (hbus : bus.WritesRamOnly) {vm : VmInfo} {V : Set (BitVec 64)}
    {va : BitVec 64} (hva : va ∈ V) (type : MemoryAccessType) (sMode sum mxr : Bool) {w w1 : World δ}
    (n : ℕ) (base : BitVec 64) (hw : w1.host = w.host)
    (hn : n = 0 ∨ Visits bus hart ranges vm va w n base w1) :
    OnlyAD bus hart ranges vm V w
      ((walkFrom (memIf bus hart ranges) vm.idxbits vm.ptesize va type sMode sum mxr n base).run'
        w1).2 := by
  induction n generalizing base w1 with
  | zero => exact .same hw
  | succ n ih =>
    have hvis : Visits bus hart ranges vm va w (n + 1) base w1 := hn.resolve_left (by omega)
    obtain ⟨a, ha⟩ : ∃ a, a = ptePaddr vm.idxbits vm.ptesize va n base := ⟨_, rfl⟩
    have hhost := @rawLoad_host _ bus hart ranges w1 a .double
    rw [walkFrom, MemM.run'_bind, run'_mmuLoadPte64, ← ptePaddr, ← ha]
    rcases hr : ((memIf bus hart ranges).rawLoad a .double).run' w1 with ⟨t | x, w2⟩
    · rw [hr] at hhost
      exact .same (hhost.trans hw)
    · rw [hr] at hhost
      obtain ⟨v, h⟩ := x
      have hw2 : w2.host = w.host := hhost.trans hw
      simp only [Except.map]
      by_cases h1 : (!(⟨v⟩ : Pte).v || (!(⟨v⟩ : Pte).r && (⟨v⟩ : Pte).w)) = true
      · rw [if_pos h1]
        exact .same hw2
      rw [if_neg h1]
      by_cases h2 : (!(⟨v⟩ : Pte).r && !(⟨v⟩ : Pte).x) = true
      · rw [if_pos h2]
        rw [ha] at hr
        exact ih _ hw2 (.inr (.next hvis hr (isPointer_of_branch h1 h2)))
      rw [if_neg h2]
      by_cases h3 : (!(⟨v⟩ : Pte).permits sMode sum mxr type) = true
      · rw [if_pos h3]
        exact .same hw2
      rw [if_neg h3]
      by_cases h4 : (⟨v⟩ : Pte).ppn &&& ((1 <<< (n * vm.idxbits)) - 1) ≠ 0
      · rw [if_pos h4]
        exact .same hw2
      rw [if_neg h4]
      by_cases h5 : v &&& Pte.ad type ≠ Pte.ad type
      · rw [if_pos h5, MemM.run'_bind, run'_mmuStorePte32]
        -- whether the store of the entry succeeds does not matter for memory
        have hend : ∀ w', (w'.host = w1.host ∨ ∃ p, place bus ranges a = some p ∧
            w'.host = w1.host.setBits p ((Pte.ad type).setWidth 8)) →
            OnlyAD bus hart ranges vm V w w' := by
          rintro w' (hsame | ⟨p, hp, hset⟩)
          · exact .same (hsame.trans hw)
          · rw [hw] at hset
            exact .setAD (.same rfl) hva hvis (ha ▸ hp) hset
        rcases hs : ((memIf bus hart ranges).rawStore a .word (v ||| Pte.ad type)).run' w2 with
          ⟨t | r, w3⟩
        · exact hend _ (rawStore_ad hbus type hr hs)
        · exact hend _ (rawStore_ad hbus type hr hs)
      · rw [if_neg h5]
        exact .same hw2

theorem walk_onlyAD (hbus : bus.WritesRamOnly) (csrs : Csrs) {V : Set (BitVec 64)} {va : BitVec 64}
    (hva : va ∈ V) (type : MemoryAccessType) (mode : PrivilegeLevel) (w : World δ) :
    OnlyAD bus hart ranges (decodeVmInfo csrs.satp) V w
      ((Mmu.walk (memIf bus hart ranges) csrs va type mode).run' w).2 := by
  unfold Mmu.walk
  dsimp only
  apply walkFrom_onlyAD hbus hva _ _ _ _ _ _ rfl
  split
  · exact .inr .root
  · exact .inl rfl

end World

namespace Core

open Mmu

variable {δ : Type} {bus : Bus δ} {hart : ℕ} {c : Core δ} {va : BitVec 64} {V : Set (BitVec 64)}

/-! ### Data accesses -/

/-- The relation of a hart's translation regime. -/
def OnlyAD (bus : Bus δ) (hart : ℕ) (c : Core δ) (V : Set (BitVec 64)) (w : World δ) : Prop :=
  World.OnlyAD bus hart c.dmi.dmiRanges (decodeVmInfo c.csrs.satp) V c.world w

theorem v2p_onlyAD (hbus : bus.WritesRamOnly) (hva : va ∈ V) (type : MemoryAccessType) :
    c.OnlyAD bus hart V (c.v2p bus hart va type).2.world := by
  cases hmode : translationMode c.csrs c.prv type with
  | none =>
    rw [v2p_none hmode]
    exact .same rfl
  | some mode =>
    by_cases hv : (c.tlb mode type (tlbIdx (va >>> 12))).vpn = va >>> 12
    · rw [v2p_hit hmode hv]
      exact .same rfl
    · have hwalk := @World.walk_onlyAD _ bus hart c.dmi.dmiRanges hbus c.csrs V va hva type mode c.world
      rw [v2p_miss hmode hv]
      unfold memIf
      rcases hr : (Mmu.walk (World.memIf bus hart c.dmi.dmiRanges) c.csrs va type mode).run'
        c.world with ⟨t | pa, w⟩
      · rw [hr] at hwalk
        exact hwalk
      · rw [hr] at hwalk
        exact hwalk

/-- A load changes nothing but accessed bits, whether it throws or not. -/
theorem loadData_onlyAD (hbus : bus.WritesRamOnly) (hva : va ∈ V) (n : Width) :
    c.OnlyAD bus hart V (c.loadData bus hart va n).2.world := by
  have hv := @v2p_onlyAD _ bus hart c va V hbus hva .load
  rw [loadData]
  rcases hr : c.v2p bus hart va .load with ⟨t | pa, c'⟩
  · rw [hr] at hv
    exact hv
  · rw [hr] at hv
    exact hv.host_eq (World.rawLoad_host c'.world pa n)

/-- A store that throws has changed nothing but accessed and dirty bits. -/
theorem storeData_onlyAD (hbus : bus.WritesRamOnly) (hva : va ∈ V) {n : Width} {v : BitVec 64}
    {t : SimulationTrap} {c' : Core δ} (h : c.storeData bus hart va n v = (.error t, c')) :
    c.OnlyAD bus hart V c'.world := by
  have hv := @v2p_onlyAD _ bus hart c va V hbus hva .store
  rw [storeData] at h
  rcases hr : c.v2p bus hart va .store with ⟨t' | pa, c1⟩
  · rw [hr] at hv h
    cases h
    exact hv
  · rw [hr] at hv h
    rcases hs : ((c1.memIf bus hart).rawStore pa n v).run' c1.world with ⟨t' | x, w⟩
    · simp only [hs] at h
      cases h
      exact hv.host_eq (World.rawStore_host hbus hs)
    · simp only [hs] at h
      cases h

theorem load_onlyAD (hbus : bus.WritesRamOnly) (hva : va ∈ V) (op : LoadOp) :
    c.OnlyAD bus hart V (c.load bus hart op va).2.world := by
  have hl := @loadData_onlyAD _ bus hart c va V hbus hva op.width
  rw [load]
  rcases hr : c.loadData bus hart va op.width with ⟨t | x, c'⟩
  · rw [hr] at hl
    exact hl
  · rw [hr] at hl
    exact hl

/-- Loads keep the DMI ranges, whether they end or throw. -/
theorem load_dmi (op : LoadOp) : (c.load bus hart op va).2.dmi = c.dmi := by
  have hd : (c.loadData bus hart va op.width).2.dmi = c.dmi := by
    rw [loadData_eq, withPaddr_dmi, v2p_dmi]
  rw [load]
  rcases hr : c.loadData bus hart va op.width with ⟨t | x, c'⟩
  · rw [hr] at hd
    exact hd
  · rw [hr] at hd
    exact hd

end Core

end RiscvVp
