import RiscvVp.Mem.Sv
import RiscvVp.Mem.Equiv.AdBits
import RiscvVp.Lib.BitField

/-!
# The page walk and the privileged specification

The algorithm of the privileged specification for virtual address translation, in its own terms: the
entries it visits (`Visits`), when it faults (`Faults`) and what it gives (`Translates`).
`Sv.walk_eq_iff`: the walk of the code on a physical memory gives what the algorithm gives, and leaves
the memory that the algorithm leaves.
-/

namespace RiscvVp.Sv

/-! ### The algorithm -/

/-- `LEVELS` of the specification: the number of tables that an address is looked up in. -/
def levels : SvMode → ℕ
  | .sv32 => 2
  | .sv39 => 3
  | .sv48 => 4

/-- The number of bits of `va.vpn[i]`. -/
def vpnBits : SvMode → ℕ
  | .sv32 => 10
  | _ => 9

/-- `PTESIZE` of the specification: the bytes of an entry. -/
def pteSize : SvMode → ℕ
  | .sv32 => 4
  | _ => 8

/-- The number of bits of `pte.ppn`. -/
def ppnBits : SvMode → ℕ
  | .sv32 => 22
  | _ => 44

/-- `va.vpn[i]`: the index into the table of level `i`. -/
def vpn (mode : SvMode) (va : BitVec 64) (i : ℕ) : ℕ :=
  va.toNat / 2 ^ (12 + i * vpnBits mode) % 2 ^ vpnBits mode

/-- The entry at an address of memory, by the size that the mode has for entries. -/
def pteAt (mode : SvMode) (mem : Host) (p : ℕ) : Pte := ⟨mem.load (BitVec.ofNat 64 p) (pteSize mode)⟩

/-- `pte.ppn`: the page number in an entry, without the bits above it. -/
def ppnOf (mode : SvMode) (pte : Pte) : ℕ := pte.value.toNat / 2 ^ 10 % 2 ^ ppnBits mode

/-- The address is canonical: the bits above the virtual address are equal to its highest bit.  A
virtual address of RV32 has no such bits. -/
def Canonical (mode : SvMode) (va : BitVec 64) : Prop :=
  mode ≠ .sv32 → ∀ j, levels mode * vpnBits mode + 12 ≤ j + 1 → j < 64 →
    va.getLsbD j = va.getLsbD (levels mode * vpnBits mode + 11)

/-- The entry is not valid: `V` is clear, or it could be written but not read. -/
def Invalid (pte : Pte) : Prop := pte.v = false ∨ (pte.r = false ∧ pte.w = true)

/-- The entry, if valid, is a leaf. -/
def IsLeaf (pte : Pte) : Prop := pte.r = true ∨ pte.x = true

/-- The entry points to the next table. -/
def Points (pte : Pte) : Prop := ¬Invalid pte ∧ ¬IsLeaf pte

/-- The leaf allows the access: the permission for its type, and the level with `SUM` and `MXR`. -/
structure Allows (pte : Pte) (type : MemoryAccessType) (sMode sum mxr : Bool) : Prop where
  fetch : type = .fetch → pte.x = true
  load : type = .load → pte.r = true ∨ (mxr = true ∧ pte.x = true)
  store : type = .store → pte.w = true
  user : sMode = false → pte.u = true
  supervisor : sMode = true → pte.u = true → sum = true ∧ type ≠ .fetch

/-- The accessed bit is set, and the dirty bit for a store. -/
def HasAD (pte : Pte) (type : MemoryAccessType) : Prop :=
  pte.value.getLsbD 6 = true ∧ (type = .store → pte.value.getLsbD 7 = true)

/-- Set the accessed bit of an entry, and the dirty bit for a store; both lie in its first byte. -/
def setAD (mem : Host) (p : ℕ) (type : MemoryAccessType) : Host :=
  mem.setBits (BitVec.ofNat 64 p) (if type = .store then 0xC0 else 0x40)

section Algorithm

variable (cfg : SvConfig) (mem : Host) (va : BitVec 64)

/-- The entries that are read, with their levels. -/
inductive Visits : ℕ → ℕ → Prop
  | root : Visits (levels cfg.mode - 1)
      (cfg.ppn.toNat * 4096 + vpn cfg.mode va (levels cfg.mode - 1) * pteSize cfg.mode)
  | next {i p : ℕ} (h : Visits (i + 1) p) (hp : Points (pteAt cfg.mode mem p)) :
      Visits i (ppnOf cfg.mode (pteAt cfg.mode mem p) * 4096 + vpn cfg.mode va i * pteSize cfg.mode)

variable (type : MemoryAccessType) (sMode : Bool)

/-- The leaf gives a translation: the walk gets there, and nothing about the leaf forbids the access. -/
structure Succeeds (i p : ℕ) : Prop where
  canonical : Canonical cfg.mode va
  visits : Visits cfg mem va i p
  valid : ¬Invalid (pteAt cfg.mode mem p)
  leaf : IsLeaf (pteAt cfg.mode mem p)
  allows : Allows (pteAt cfg.mode mem p) type sMode cfg.sum cfg.mxr
  aligned : ppnOf cfg.mode (pteAt cfg.mode mem p) % 2 ^ (i * vpnBits cfg.mode) = 0
  ad : cfg.pageFaultOnAD = true → HasAD (pteAt cfg.mode mem p) type

/-- The reasons for a page fault. -/
inductive Faults : Prop
  | notCanonical (h : ¬Canonical cfg.mode va)
  | invalid {i p : ℕ} (hv : Visits cfg mem va i p) (h : Invalid (pteAt cfg.mode mem p))
  | notAllowed {i p : ℕ} (hv : Visits cfg mem va i p) (hl : ¬Points (pteAt cfg.mode mem p))
      (h : ¬Allows (pteAt cfg.mode mem p) type sMode cfg.sum cfg.mxr)
  | misaligned {i p : ℕ} (hv : Visits cfg mem va i p) (hl : ¬Points (pteAt cfg.mode mem p))
      (h : ppnOf cfg.mode (pteAt cfg.mode mem p) % 2 ^ (i * vpnBits cfg.mode) ≠ 0)
  | needsAD {i p : ℕ} (hv : Visits cfg mem va i p) (hl : ¬Points (pteAt cfg.mode mem p))
      (hf : cfg.pageFaultOnAD = true) (h : ¬HasAD (pteAt cfg.mode mem p) type)
  | noLeaf {p : ℕ} (hv : Visits cfg mem va 0 p) (h : Points (pteAt cfg.mode mem p))

/-- The physical address: the page number of the leaf, with the low fields of the virtual page number in
a superpage, and the offset. -/
def physAddr (i p : ℕ) : ℕ :=
  (ppnOf cfg.mode (pteAt cfg.mode mem p) / 2 ^ (i * vpnBits cfg.mode) * 2 ^ (i * vpnBits cfg.mode) +
    va.toNat / 4096 % 2 ^ (i * vpnBits cfg.mode)) * 4096 + va.toNat % 4096

/-- What the algorithm gives, and the memory it leaves. -/
inductive Translates : Except SimulationTrap (BitVec 64) × Host → Prop
  | ok {i p : ℕ} (h : Succeeds cfg mem va type sMode i p) :
      Translates (.ok (BitVec.ofNat 64 (physAddr cfg mem va i p)), setAD mem p type)
  | fault (h : Faults cfg mem va type sMode) : Translates (.error (type.pageFault va), mem)

end Algorithm

/-! ### The algorithm is deterministic -/

section Deterministic

variable {cfg : SvConfig} {mem : Host} {va : BitVec 64} {type : MemoryAccessType} {sMode : Bool}

theorem Visits.lt {i p : ℕ} (h : Visits cfg mem va i p) : i < levels cfg.mode := by
  induction h with
  | root =>
    have hpos : 0 < levels cfg.mode := by cases cfg.mode <;> decide
    omega
  | next _ _ ih => omega

/-- One entry of each level is visited. -/
theorem Visits.unique {i p q : ℕ} (hp : Visits cfg mem va i p) (hq : Visits cfg mem va i q) :
    p = q := by
  -- from the root on; a visit below the root comes from the level above
  induction hp generalizing q with
  | root =>
    generalize hi : levels cfg.mode - 1 = i at hq
    cases hq with
    | root => rfl
    | next h _ =>
      have hlt := h.lt
      omega
  | @next i p h hpt ih =>
    have hlt := h.lt
    generalize hj : i = j at hq
    cases hq with
    | root => omega
    | next h' _ =>
      subst hj
      rw [ih h']

/-- The entries above one that is visited point to the next table. -/
theorem Visits.points {i j p q : ℕ} (hq : Visits cfg mem va j q) (hp : Visits cfg mem va i p)
    (hlt : j < i) : Points (pteAt cfg.mode mem p) := by
  induction hq with
  | root =>
    have := hp.lt
    omega
  | @next j q h hpt ih =>
    by_cases hji : j + 1 = i
    · subst hji
      rw [hp.unique h]
      exact hpt
    · exact ih (by omega)

/-- The walk ends at one entry: it goes on only from pointers, and each has one successor. -/
theorem Visits.eq_of_not_points {i j p q : ℕ} (hp : Visits cfg mem va i p)
    (hq : Visits cfg mem va j q) (hnp : ¬Points (pteAt cfg.mode mem p))
    (hnq : ¬Points (pteAt cfg.mode mem q)) : i = j ∧ p = q := by
  rcases lt_trichotomy i j with hlt | rfl | hlt
  · exact absurd (hp.points hq hlt) hnq
  · exact ⟨rfl, hp.unique hq⟩
  · exact absurd (hq.points hp hlt) hnp

theorem not_points_of_isLeaf {pte : Pte} (h : IsLeaf pte) : ¬Points pte := fun hp => hp.2 h

theorem not_points_of_invalid {pte : Pte} (h : Invalid pte) : ¬Points pte := fun hp => hp.1 h

/-- A leaf that gives a translation excludes a fault. -/
theorem Succeeds.not_faults {i p : ℕ} (hs : Succeeds cfg mem va type sMode i p) :
    ¬Faults cfg mem va type sMode := by
  have hnp := not_points_of_isLeaf hs.leaf
  intro hf
  cases hf with
  | notCanonical h => exact h hs.canonical
  | invalid hv h =>
    obtain ⟨-, rfl⟩ := hs.visits.eq_of_not_points hv hnp (not_points_of_invalid h)
    exact hs.valid h
  | notAllowed hv hl h =>
    obtain ⟨-, rfl⟩ := hs.visits.eq_of_not_points hv hnp hl
    exact h hs.allows
  | misaligned hv hl h =>
    obtain ⟨rfl, rfl⟩ := hs.visits.eq_of_not_points hv hnp hl
    exact h hs.aligned
  | needsAD hv hl hf h =>
    obtain ⟨-, rfl⟩ := hs.visits.eq_of_not_points hv hnp hl
    exact h (hs.ad hf)
  | noLeaf hv h =>
    -- the leaf is at level zero, or above it
    rcases Nat.eq_zero_or_pos i with rfl | hpos
    · rw [hs.visits.unique hv] at hnp
      exact hnp h
    · exact hnp (hv.points hs.visits hpos)

/-- **The algorithm gives one result**: level, entry and outcome are determined by the tables. -/
theorem Translates.unique {r r' : Except SimulationTrap (BitVec 64) × Host}
    (h : Translates cfg mem va type sMode r) (h' : Translates cfg mem va type sMode r') : r = r' := by
  cases h with
  | ok hs =>
    cases h' with
    | ok hs' =>
      obtain ⟨rfl, rfl⟩ := hs.visits.eq_of_not_points hs'.visits (not_points_of_isLeaf hs.leaf)
        (not_points_of_isLeaf hs'.leaf)
      rfl
    | fault hf => exact absurd hf hs.not_faults
  | fault hf =>
    cases h' with
    | ok hs => exact absurd hf hs.not_faults
    | fault _ => rfl

end Deterministic

/-! ### Masks -/

/-- `(uint64_t(1) << k) - 1` is the mask of the `k` lowest bits. -/
theorem ones_eq {k : ℕ} (hk : k < 64) : (1 <<< k - 1 : BitVec 64) = BitVec.ofNat 64 (2 ^ k - 1) := by
  have hlt : 2 ^ k < 2 ^ 64 := Nat.pow_lt_pow_right (by omega) hk
  have hpos := Nat.two_pow_pos k
  have hshift : (BitVec.ofNat 64 (1 <<< k)).toNat = 2 ^ k := by
    rw [Nat.one_shiftLeft, BitVec.toNat_ofNat, Nat.mod_eq_of_lt hlt]
  show BitVec.ofNat 64 (1 <<< k) - 1 = _
  apply BitVec.eq_of_toNat_eq
  rw [BitVec.toNat_sub_of_le, hshift, BitVec.toNat_ofNat, Nat.mod_eq_of_lt (by omega)]
  · rfl
  · rw [BitVec.le_def, hshift]
    exact hpos

theorem toNat_and_ones (x : BitVec 64) (k : ℕ) :
    (x &&& BitVec.ofNat 64 (2 ^ k - 1)).toNat = x.toNat % 2 ^ k := by
  have h : x &&& BitVec.ofNat 64 (2 ^ k - 1) = BitVec.ofNat 64 (x.toNat % 2 ^ k) := by
    apply BitVec.eq_of_getLsbD_eq
    intro i hi
    rw [BitVec.getLsbD_and, BitVec.getLsbD_ofNat, BitVec.getLsbD_ofNat, Nat.testBit_two_pow_sub_one,
      Nat.testBit_mod_two_pow, BitVec.testBit_toNat]
    simp [hi, Bool.and_comm]
  rw [h, BitVec.toNat_ofNat]
  exact Nat.mod_eq_of_lt ((Nat.mod_le _ _).trans_lt x.isLt)

/-- The bits from `h` on are equal. -/
theorem extension_iff (va : BitVec 64) {h : ℕ} (hh : h < 64) :
    ((va >>> h) &&& BitVec.ofNat 64 (2 ^ (64 - h) - 1) = 0 ∨
      (va >>> h) &&& BitVec.ofNat 64 (2 ^ (64 - h) - 1) = BitVec.ofNat 64 (2 ^ (64 - h) - 1)) ↔
    ∀ j, h ≤ j → j < 64 → va.getLsbD j = va.getLsbD h := by
  have hmask : ∀ i < 64, (BitVec.ofNat 64 (2 ^ (64 - h) - 1)).getLsbD i = decide (i < 64 - h) := by
    intro i hi
    rw [BitVec.getLsbD_ofNat, Nat.testBit_two_pow_sub_one, decide_eq_true hi, Bool.true_and]
  -- the masked word holds exactly the bits from `h` on
  have hbits : ∀ i < 64, ((va >>> h) &&& BitVec.ofNat 64 (2 ^ (64 - h) - 1)).getLsbD i =
      (va.getLsbD (h + i) && decide (i < 64 - h)) := by
    intro i hi
    rw [BitVec.getLsbD_and, hmask i hi, BitVec.getLsbD_ushiftRight]
  constructor
  · rintro (hz | ho) j hj hj64
    · have hfalse : ∀ i < 64 - h, va.getLsbD (h + i) = false := by
        intro i hi
        have := hbits i (by omega)
        rw [hz, decide_eq_true hi, Bool.and_true] at this
        exact this.symm.trans BitVec.getLsbD_zero
      have h1 := hfalse (j - h) (by omega)
      have h2 := hfalse 0 (by omega)
      rw [Nat.add_sub_cancel' hj] at h1
      rw [h1, ← h2]
      rfl
    · have htrue : ∀ i < 64 - h, va.getLsbD (h + i) = true := by
        intro i hi
        have := hbits i (by omega)
        rw [ho, hmask i (by omega), decide_eq_true hi, Bool.and_true] at this
        exact this.symm
      have h1 := htrue (j - h) (by omega)
      have h2 := htrue 0 (by omega)
      rw [Nat.add_sub_cancel' hj] at h1
      rw [h1, ← h2]
      rfl
  · intro hall
    cases hb : va.getLsbD h with
    | false =>
      left
      apply BitVec.eq_of_getLsbD_eq
      intro i hi
      show _ = (0#64).getLsbD i
      rw [hbits i hi, BitVec.getLsbD_zero]
      by_cases hlt : i < 64 - h
      · rw [hall (h + i) (by omega) (by omega), hb, Bool.false_and]
      · rw [decide_eq_false hlt, Bool.and_false]
    | true =>
      right
      apply BitVec.eq_of_getLsbD_eq
      intro i hi
      rw [hbits i hi, hmask i hi]
      by_cases hlt : i < 64 - h
      · rw [hall (h + i) (by omega) (by omega), hb, Bool.true_and]
      · rw [decide_eq_false hlt, Bool.and_false]

/-! ### The walk of the code -/

/-- `mmu_memory_if` on a physical memory. -/
def physMem : MemIf (MemM Host) where
  rawLoad addr n := fun mem => (.ok (mem.load addr n.bytes, none), mem)
  rawStore addr n v := fun mem => (.ok none, mem.store addr n.bytes v)

section Code

variable {cfg : SvConfig} {mem : Host} {va : BitVec 64} {type : MemoryAccessType} {sMode : Bool}

/-- The check of the source for the bits from `h` on. -/
theorem checkVaddrExtension_eq {vm : VmInfo} {x h : ℕ} (hh : vm.idxbits * vm.levels + 12 - 1 = h)
    (hx : x - h < 64) (va : BitVec 64) :
    checkVaddrExtension x va vm = true ↔
      (va >>> h) &&& BitVec.ofNat 64 (2 ^ (x - h) - 1) = 0 ∨
        (va >>> h) &&& BitVec.ofNat 64 (2 ^ (x - h) - 1) = BitVec.ofNat 64 (2 ^ (x - h) - 1) := by
  unfold checkVaddrExtension
  dsimp only
  rw [hh, ones_eq hx, Bool.or_eq_true, beq_iff_eq, beq_iff_eq]

theorem checkVaddrExtension_iff (cfg : SvConfig) (va : BitVec 64) :
    checkVaddrExtension (xlen cfg.mode) va (decodeVmInfo cfg) = true ↔ Canonical cfg.mode va := by
  have hvm : (decodeVmInfo cfg).idxbits * (decodeVmInfo cfg).levels + 12 - 1 =
      levels cfg.mode * vpnBits cfg.mode + 11 := by
    unfold decodeVmInfo
    cases cfg.mode <;> rfl
  have hx : xlen cfg.mode - (levels cfg.mode * vpnBits cfg.mode + 11) < 64 := by
    cases cfg.mode <;> decide
  rw [checkVaddrExtension_eq hvm hx]
  unfold Canonical
  by_cases hm : cfg.mode = .sv32
  · refine ⟨fun _ h => absurd hm h, fun _ => ?_⟩
    -- one bit is zero or one
    rw [hm]
    generalize va >>> (levels .sv32 * vpnBits .sv32 + 11) = b
    have hlt : (b &&& BitVec.ofNat 64 (2 ^ 1 - 1)).toNat < 2 := by
      rw [toNat_and_ones]
      exact Nat.mod_lt _ (by omega)
    rcases Nat.le_one_iff_eq_zero_or_eq_one.mp (Nat.lt_succ_iff.mp hlt) with h | h
    · exact Or.inl (BitVec.eq_of_toNat_eq h)
    · exact Or.inr (BitVec.eq_of_toNat_eq h)
  · have hxlen : xlen cfg.mode = 64 := by
      cases hmode : cfg.mode with
      | sv32 => exact absurd hmode hm
      | sv39 => rfl
      | sv48 => rfl
    have hlt : levels cfg.mode * vpnBits cfg.mode + 11 < 64 := by cases cfg.mode <;> decide
    rw [hxlen, extension_iff va hlt]
    constructor
    · intro h _ j hj
      exact h j (by omega)
    · intro h j hj
      exact h hm j (by omega)

/-- `decode_vm_info` in the terms of the specification. -/
theorem decodeVmInfo_eq (cfg : SvConfig) : decodeVmInfo cfg = ⟨levels cfg.mode, vpnBits cfg.mode,
    BitVec.ofNat 64 (pteSize cfg.mode), BitVec.ofNat 64 (cfg.ppn.toNat * 4096)⟩ := by
  have hbase : cfg.ppn.setWidth 64 <<< 12 = BitVec.ofNat 64 (cfg.ppn.toNat * 4096) := by
    apply BitVec.eq_of_toNat_eq
    rw [BitVec.toNat_shiftLeft, BitVec.toNat_setWidth_of_le (by omega), Nat.shiftLeft_eq,
      BitVec.toNat_ofNat]
  unfold decodeVmInfo
  rw [hbase]
  cases cfg.mode <;> rfl

/-- The address of an entry: the table, and the index of its level times the size of an entry. -/
theorem ptePaddr_eq (mode : SvMode) (va : BitVec 64) (i a : ℕ) :
    BitVec.ofNat 64 a + ((va >>> (12 + i * vpnBits mode)) &&& (1 <<< vpnBits mode - 1)) *
        BitVec.ofNat 64 (pteSize mode) =
      BitVec.ofNat 64 (a + vpn mode va i * pteSize mode) := by
  have hbits : vpnBits mode < 64 := by cases mode <;> decide
  have hfield : (va >>> (12 + i * vpnBits mode)) &&& (1 <<< vpnBits mode - 1) =
      BitVec.ofNat 64 (vpn mode va i) := by
    apply BitVec.eq_of_toNat_eq
    rw [ones_eq hbits, toNat_and_ones, BitVec.toNat_ushiftRight, Nat.shiftRight_eq_div_pow,
      BitVec.toNat_ofNat]
    refine (Nat.mod_eq_of_lt ?_).symm
    calc _ < 2 ^ vpnBits mode := Nat.mod_lt _ (Nat.two_pow_pos _)
      _ ≤ 2 ^ 64 := Nat.pow_le_pow_right (by omega) hbits.le
  rw [hfield, BitVec.ofNat_add, BitVec.ofNat_mul]

theorem permits_iff {pte : Pte} (hv : ¬Invalid pte) {sum mxr : Bool} :
    pte.permits sMode sum mxr type = true ↔ Allows pte type sMode sum mxr := by
  have hw : pte.w = true → pte.r = true := by
    intro hw
    by_contra hr
    exact hv (Or.inr ⟨Bool.eq_false_of_not_eq_true hr, hw⟩)
  have huser : (if pte.u then !(sMode && (type == .fetch || !sum)) else sMode) = true ↔
      (sMode = false → pte.u = true) ∧
        (sMode = true → pte.u = true → sum = true ∧ type ≠ .fetch) := by
    cases pte.u <;> cases sMode <;> cases sum <;> cases type <;> decide
  unfold Pte.permits
  rw [Bool.and_eq_true, huser]
  constructor
  · rintro ⟨hkind, hu, hs⟩
    cases type with
    | fetch => exact ⟨fun _ => hkind, by simp, by simp, hu, hs⟩
    | load =>
      rw [Bool.or_eq_true, Bool.and_eq_true] at hkind
      exact ⟨by simp, fun _ => hkind, by simp, hu, hs⟩
    | store =>
      rw [Bool.and_eq_true] at hkind
      exact ⟨by simp, by simp, fun _ => hkind.2, hu, hs⟩
  · intro h
    refine ⟨?_, h.user, h.supervisor⟩
    cases type with
    | fetch => exact h.fetch rfl
    | load =>
      rw [Bool.or_eq_true, Bool.and_eq_true]
      exact h.load rfl
    | store =>
      rw [Bool.and_eq_true]
      exact ⟨hw (h.store rfl), h.store rfl⟩

/-- All bits of a mask are set. -/
theorem and_eq_self_iff (x b : BitVec 64) :
    x &&& b = b ↔ ∀ i < 64, b.getLsbD i = true → x.getLsbD i = true := by
  constructor
  · intro h i _ hb
    rw [← h, BitVec.getLsbD_and, Bool.and_eq_true] at hb
    exact hb.1
  · intro h
    apply BitVec.eq_of_getLsbD_eq
    intro i hi
    rw [BitVec.getLsbD_and]
    cases hb : b.getLsbD i with
    | false => rw [Bool.and_false]
    | true => rw [h i hi hb, Bool.and_true]

theorem hasAD_iff (pte : Pte) (type : MemoryAccessType) :
    pte.value &&& Pte.ad type = Pte.ad type ↔ HasAD pte type := by
  have hbits : ∀ i < 64, (Pte.ad type).getLsbD i = true ↔ i = 6 ∨ (type = .store ∧ i = 7) := by
    cases type <;> decide
  rw [and_eq_self_iff]
  constructor
  · intro h
    exact ⟨h 6 (by omega) ((hbits 6 (by omega)).mpr (Or.inl rfl)),
      fun hs => h 7 (by omega) ((hbits 7 (by omega)).mpr (Or.inr ⟨hs, rfl⟩))⟩
  · rintro ⟨h6, h7⟩ i hi hb
    rcases (hbits i hi).mp hb with rfl | ⟨hs, rfl⟩
    · exact h6
    · exact h7 hs

/-- The page number of an entry whose high bits are zero. -/
theorem toNat_ppn {mode : SvMode} {p : ℕ} (hz : (pteAt mode mem p).value >>> 54 = 0) :
    (pteAt mode mem p).ppn.toNat = ppnOf mode (pteAt mode mem p) := by
  have hlt : (pteAt mode mem p).value.toNat < 2 ^ (10 + ppnBits mode) := by
    have h54 : (pteAt mode mem p).value.toNat < 2 ^ 54 := by
      have := congrArg BitVec.toNat hz
      rw [BitVec.toNat_ushiftRight, Nat.shiftRight_eq_div_pow] at this
      exact Nat.lt_of_div_eq_zero (Nat.two_pow_pos _) this
    cases mode with
    | sv32 =>
      -- four bytes are loaded
      apply Nat.lt_pow_two_of_testBit
      intro i hi
      exact Host.getLsbD_load_of_ge mem _ 4 hi
    | sv39 => exact h54
    | sv48 => exact h54
  rw [Pte.ppn, BitVec.toNat_ushiftRight, Nat.shiftRight_eq_div_pow, ppnOf]
  refine (Nat.mod_eq_of_lt ?_).symm
  rw [Nat.div_lt_iff_lt_mul (Nat.two_pow_pos _), ← Nat.pow_add, Nat.add_comm]
  exact hlt

/-- The physical address: the upper bits of the page number come from the leaf, the lower ones of a
superpage from the address. -/
theorem leafAddr_eq (ppn va : BitVec 64) {k : ℕ} (hk : k < 64) : Mmu.leafAddr ppn va k =
    BitVec.ofNat 64 ((ppn.toNat / 2 ^ k * 2 ^ k + va.toNat / 4096 % 2 ^ k) * 4096 +
      va.toNat % 4096) := by
  have hpage : ((ppn &&& ~~~BitVec.ofNat 64 (2 ^ k - 1)) |||
      ((va >>> 12) &&& BitVec.ofNat 64 (2 ^ k - 1))).toNat =
      ppn.toNat / 2 ^ k * 2 ^ k + va.toNat / 4096 % 2 ^ k := by
    rw [BitVec.toNat_or, BitField.toNat_and_not_ones, toNat_and_ones, BitVec.toNat_ushiftRight,
      Nat.shiftRight_eq_div_pow, Nat.mul_comm, Nat.two_pow_add_eq_or_of_lt]
    exact Nat.mod_lt _ (Nat.two_pow_pos k)
  have hoff : (pageOffset va).toNat = va.toNat % 4096 := toNat_and_ones va 12
  unfold Mmu.leafAddr
  dsimp only
  rw [ones_eq hk]
  apply BitVec.eq_of_toNat_eq
  rw [BitVec.toNat_or, BitVec.toNat_shiftLeft, hpage, hoff, BitVec.toNat_ofNat, Nat.shiftLeft_eq]
  generalize ppn.toNat / 2 ^ k * 2 ^ k + va.toNat / 4096 % 2 ^ k = n
  have hshift : n * 2 ^ 12 % 2 ^ 64 = 2 ^ 12 * (n % 2 ^ 52) := by omega
  rw [hshift, ← Nat.two_pow_add_eq_or_of_lt (by omega)]
  omega

/-! ### What a walk gives -/

theorem run'_mmuLoadPte (mode : SvMode) (p : ℕ) :
    (mmuLoadPte physMem (BitVec.ofNat 64 (pteSize mode)) (BitVec.ofNat 64 p)).run' mem =
      (.ok (pteAt mode mem p).value, mem) := by
  cases mode <;> rfl

/-- The store of the source writes one byte. -/
theorem store_eq_setAD (mode : SvMode) (p : ℕ) (type : MemoryAccessType) :
    mem.store (BitVec.ofNat 64 p) 4 ((pteAt mode mem p).value ||| Pte.ad type) = setAD mem p type := by
  have had : Pte.ad type >>> 8 = 0#64 := by cases type <;> decide
  have hbyte : (Pte.ad type).setWidth 8 = (if type = .store then 0xC0 else 0x40 : BitVec 8) := by
    cases type <;> decide
  rw [setAD, ← hbyte]
  cases mode with
  | sv32 => exact Host.store_load_or mem _ le_rfl (by omega) had
  | sv39 => exact Host.store_load_or mem _ (by omega) le_rfl had
  | sv48 => exact Host.store_load_or mem _ (by omega) le_rfl had

/-- Bits that are set already are not written again, and the memory stays as it is. -/
theorem setAD_of_hasAD {mode : SvMode} {p : ℕ} (h : HasAD (pteAt mode mem p) type) :
    setAD mem p type = mem := by
  have hor : (pteAt mode mem p).value ||| Pte.ad type = (pteAt mode mem p).value := by
    have hand := (hasAD_iff _ type).mpr h
    apply BitVec.eq_of_getLsbD_eq
    intro i _
    rw [BitVec.getLsbD_or, ← hand, BitVec.getLsbD_and]
    cases (pteAt mode mem p).value.getLsbD i <;> rfl
  have h48 : 4 ≤ pteSize mode ∧ pteSize mode ≤ 8 := by cases mode <;> decide
  rw [← store_eq_setAD mode, hor]
  exact Host.store_load_self mem _ h48.1 h48.2

/-- One round of the loop of `walk`, at an entry that the algorithm visits. -/
theorem walkFrom_succ (hc : Canonical cfg.mode va) {i a p : ℕ} (hv : Visits cfg mem va i p)
    (hp : p = a + vpn cfg.mode va i * pteSize cfg.mode)
    (hz : (pteAt cfg.mode mem p).value >>> 54 = 0)
    (hnext : Points (pteAt cfg.mode mem p) → Translates cfg mem va type sMode
      ((walkFrom physMem (decodeVmInfo cfg) va type sMode cfg.sum cfg.mxr cfg.pageFaultOnAD i
        (BitVec.ofNat 64 (ppnOf cfg.mode (pteAt cfg.mode mem p) * 4096))).run' mem)) :
    Translates cfg mem va type sMode ((walkFrom physMem (decodeVmInfo cfg) va type sMode cfg.sum
      cfg.mxr cfg.pageFaultOnAD (i + 1) (BitVec.ofNat 64 a)).run' mem) := by
  have hppn := toNat_ppn hz
  have hk : i * vpnBits cfg.mode < 64 := by
    have hlt := hv.lt
    cases hm : cfg.mode <;> rw [hm] at hlt <;> simp only [levels] at hlt <;> simp only [vpnBits] <;> omega
  rw [walkFrom]
  rw [decodeVmInfo_eq] at hnext ⊢
  dsimp only at hnext ⊢
  rw [ptePaddr_eq, ← hp, MemM.run'_bind, run'_mmuLoadPte]
  show Translates cfg mem va type sMode (MemM.run' (if _ then _ else _) mem)
  -- the code's tests, in the words of the specification
  have hinvalid : (!(pteAt cfg.mode mem p).v ||
      (!(pteAt cfg.mode mem p).r && (pteAt cfg.mode mem p).w)) = true ↔
      Invalid (pteAt cfg.mode mem p) := by
    rw [Bool.or_eq_true, Bool.and_eq_true, Bool.not_eq_true', Bool.not_eq_true']
    rfl
  have hpointer : (!(pteAt cfg.mode mem p).r && !(pteAt cfg.mode mem p).x) = true ↔
      ¬IsLeaf (pteAt cfg.mode mem p) := by
    rw [Bool.and_eq_true, Bool.not_eq_true', Bool.not_eq_true', IsLeaf, not_or,
      Bool.not_eq_true, Bool.not_eq_true]
  -- the round follows the steps of the specification: valid, leaf, allowed, aligned, accessed and dirty
  by_cases hinv : Invalid (pteAt cfg.mode mem p)
  · rw [if_pos (hinvalid.mpr hinv)]
    exact .fault (.invalid hv hinv)
  rw [if_neg (mt hinvalid.mp hinv)]
  by_cases hleaf : IsLeaf (pteAt cfg.mode mem p)
  swap
  · -- a pointer to the next level, which `hnext` is about
    have hbase : (pteAt cfg.mode mem p).ppn <<< 12 =
        BitVec.ofNat 64 (ppnOf cfg.mode (pteAt cfg.mode mem p) * 4096) := by
      apply BitVec.eq_of_toNat_eq
      rw [BitVec.toNat_shiftLeft, Nat.shiftLeft_eq, hppn, BitVec.toNat_ofNat]
    rw [if_pos (hpointer.mpr hleaf), hbase]
    exact hnext ⟨hinv, hleaf⟩
  rw [if_neg (not_not.mpr hleaf ∘ hpointer.mp)]
  have hnp := not_points_of_isLeaf hleaf
  have hperm := @permits_iff type sMode _ hinv cfg.sum cfg.mxr
  by_cases hallow : Allows (pteAt cfg.mode mem p) type sMode cfg.sum cfg.mxr
  swap
  · rw [if_pos (by simpa using mt hperm.mp hallow)]
    exact .fault (.notAllowed hv hnp hallow)
  rw [if_neg (by simpa using hperm.mpr hallow)]
  have hmask : ((pteAt cfg.mode mem p).ppn &&& (1 <<< (i * vpnBits cfg.mode) - 1) ≠ 0) ↔
      ppnOf cfg.mode (pteAt cfg.mode mem p) % 2 ^ (i * vpnBits cfg.mode) ≠ 0 := by
    rw [ones_eq hk, ← hppn, ← toNat_and_ones]
    exact not_congr BitVec.toNat_inj.symm
  by_cases halign : ppnOf cfg.mode (pteAt cfg.mode mem p) % 2 ^ (i * vpnBits cfg.mode) = 0
  swap
  · rw [if_pos (hmask.mpr halign)]
    exact .fault (.misaligned hv hnp halign)
  rw [if_neg (mt hmask.mp (not_not.mpr halign))]
  have haddr : Mmu.leafAddr (pteAt cfg.mode mem p).ppn va (i * vpnBits cfg.mode) =
      BitVec.ofNat 64 (physAddr cfg mem va i p) := by
    rw [leafAddr_eq _ _ hk, hppn]
    rfl
  rw [haddr]
  by_cases had : HasAD (pteAt cfg.mode mem p) type
  · rw [if_neg (not_not.mpr ((hasAD_iff _ type).mpr had))]
    have hok := Translates.ok (⟨hc, hv, hinv, hleaf, hallow, halign, fun _ => had⟩ :
      Succeeds cfg mem va type sMode i p)
    rw [setAD_of_hasAD had] at hok
    exact hok
  rw [if_pos (mt (hasAD_iff _ type).mp had)]
  by_cases hfault : cfg.pageFaultOnAD = true
  · rw [if_pos hfault]
    exact .fault (.needsAD hv hnp hfault had)
  · rw [if_neg hfault]
    -- the walk sets the bits itself
    have hstore : (Mmu.mmuStorePte32 physMem (BitVec.ofNat 64 p)
        ((pteAt cfg.mode mem p).value ||| Pte.ad type)).run' mem = (.ok (), setAD mem p type) := by
      rw [← store_eq_setAD cfg.mode]
      rfl
    rw [MemM.run'_bind, hstore]
    exact .ok ⟨hc, hv, hinv, hleaf, hallow, halign, fun h => absurd h hfault⟩

/-- The loop of `walk`, from an entry that the algorithm visits. -/
theorem walkFrom_translates (hc : Canonical cfg.mode va)
    (hz : ∀ i p, Visits cfg mem va i p → (pteAt cfg.mode mem p).value >>> 54 = 0) {i a p : ℕ}
    (hv : Visits cfg mem va i p) (hp : p = a + vpn cfg.mode va i * pteSize cfg.mode) :
    Translates cfg mem va type sMode ((walkFrom physMem (decodeVmInfo cfg) va type sMode cfg.sum
      cfg.mxr cfg.pageFaultOnAD (i + 1) (BitVec.ofNat 64 a)).run' mem) := by
  induction i generalizing a p with
  | zero =>
    apply walkFrom_succ hc hv hp (hz _ _ hv)
    intro hpt
    exact .fault (.noLeaf hv hpt)
  | succ i ih =>
    apply walkFrom_succ hc hv hp (hz _ _ hv)
    intro hpt
    exact ih (.next hv hpt) rfl

/-- **The walk is the algorithm of the privileged specification**, on page tables whose entries have no
bits above the page number. -/
theorem walk_eq_iff
    (hz : ∀ i p, Visits cfg mem va i p → (pteAt cfg.mode mem p).value >>> 54 = 0)
    {r : Except SimulationTrap (BitVec 64) × Host} :
    (walk physMem cfg va type sMode).run' mem = r ↔ Translates cfg mem va type sMode r := by
  have hwalk : Translates cfg mem va type sMode ((walk physMem cfg va type sMode).run' mem) := by
    have hpos : levels cfg.mode - 1 + 1 = levels cfg.mode := by cases cfg.mode <;> rfl
    have hcheck := checkVaddrExtension_iff cfg va
    unfold walk
    dsimp only
    by_cases hc : Canonical cfg.mode va
    · have hloop := @walkFrom_translates cfg mem va type sMode hc hz _ _ _ .root rfl
      rw [hpos] at hloop
      rw [if_pos (hcheck.mpr hc)]
      rw [decodeVmInfo_eq] at hloop ⊢
      exact hloop
    · rw [if_neg (mt hcheck.mp hc)]
      exact .fault (.notCanonical hc)
  constructor
  · rintro rfl
    exact hwalk
  · exact hwalk.unique

end Code

/-- Sv39 with the root table at `0x1000`. -/
def sv39Config : SvConfig := ⟨.sv39, 1, false, false, false, by decide⟩

/-- A root table that points to a table at `0x2000`, which has a leaf for two megabytes. -/
def superpageMem : Host := fun a =>
  if a = 0x1010 then 0x01 else if a = 0x1011 then 0x08
  else if a = 0x2008 then 0x0F else if a = 0x200A then 0x10 else 0

/-- A store to the superpage: the leaf becomes accessed and dirty. -/
theorem walk_eq_iff_superpage :
    ((walk physMem sv39Config 0x80200123 .store true).run' superpageMem).1 = .ok 0x400123 ∧
      ((walk physMem sv39Config 0x80200123 .store true).run' superpageMem).2 0x2008 = 0xCF ∧
      Translates sv39Config superpageMem 0x80200123 .store true
        ((walk physMem sv39Config 0x80200123 .store true).run' superpageMem) := by
  have hvisits : ∀ i p, Visits sv39Config superpageMem 0x80200123 i p →
      (i = 2 ∧ p = 0x1010) ∨ (i = 1 ∧ p = 0x2008) := by
    intro i p h
    induction h with
    | root => exact Or.inl ⟨rfl, by decide⟩
    | @next i p h hpt ih =>
      rcases ih with ⟨hi, rfl⟩ | ⟨hi, rfl⟩
      · obtain rfl : i = 1 := by omega
        exact Or.inr ⟨rfl, by decide⟩
      · exact absurd (Or.inl (by decide)) hpt.2
  have hz : ∀ i p, Visits sv39Config superpageMem 0x80200123 i p →
      (pteAt sv39Config.mode superpageMem p).value >>> 54 = 0 := by
    intro i p h
    rcases hvisits i p h with ⟨-, rfl⟩ | ⟨-, rfl⟩
    · decide
    · decide
  exact ⟨by rfl, by decide, (walk_eq_iff hz).mp rfl⟩

end RiscvVp.Sv
