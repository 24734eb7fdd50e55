import RiscvVp.Elf.Basic
import RiscvVp.Lib.BitField
import RiscvVp.Mem.Equiv.SimpleMemory

/-!
# What the loader puts into memory

Every byte of the segments in an area is put into its place, all other bytes are kept, and the heap starts
after the segments, if the area does not end with the address space (`File.loadsRight_iff`).  The end of an
area at the top of the address space wraps around to zero in an `addr_t`, so `in_area` holds of no address:
nothing is loaded, and no segment is seen when the start of the heap is chosen.
-/

namespace RiscvVp.Elf

variable {T : Types}

theorem Types.addrBits_le (T : Types) : T.addrBits ≤ 64 := by cases T <;> decide

theorem Types.three_le_addrBits (T : Types) : 3 ≤ T.addrBits := by cases T <;> decide

/-! ### Areas and segments -/

/-- A memory with its place in the address space. -/
structure Area (T : Types) where
  mem : SimpleMemory
  start : BitVec T.addrBits
  fits : start.toNat + mem.size.toNat ≤ 2 ^ T.addrBits

namespace Area

variable (a : Area T)

/-- What the platforms pass as `area_size`: `get_size()` as an `addr_t`. -/
def size : BitVec T.addrBits := a.mem.size.setWidth T.addrBits

/-- The first address after the area. -/
def stop : ℕ := a.start.toNat + a.mem.size.toNat

end Area

namespace Phdr

variable (p : Phdr T) (useVaddr : Bool) (a : Area T)

/-- The first address after the segment. -/
def stop : ℕ := (p.addr useVaddr).toNat + p.pMemsz.toNat

/-- The segment has a byte at an address. -/
def Covers (x : ℕ) : Prop := (p.addr useVaddr).toNat ≤ x ∧ x < p.stop useVaddr

/-- The segment is inside the area. -/
def Inside : Prop := a.start.toNat ≤ (p.addr useVaddr).toNat ∧ p.stop useVaddr ≤ a.stop

/-- The segment is outside the area. -/
def Outside : Prop := p.stop useVaddr ≤ a.start.toNat ∨ a.stop ≤ (p.addr useVaddr).toNat

instance : Decidable (p.Inside useVaddr a) := instDecidableAnd

instance : Decidable (p.Outside useVaddr a) := instDecidableOr

end Phdr

namespace File

variable (T) (elf : File)

/-- The `PT_LOAD` segments. -/
def segments : List (Phdr T) := (elf.phdrs T).filter fun p => decide (p.pType = T.ptLoad)

variable {T}

/-- A byte of a segment: one of the file, or zero beyond `p_filesz`. -/
def byteAt (p : Phdr T) (k : ℕ) : BitVec 8 :=
  if k < p.pFilesz.toNat then elf.data (p.pOffset.toNat + k) else 0

/-- An ELF file that can be loaded into an area. -/
structure Loadable (a : Area T) (useVaddr : Bool) : Prop where
  isElf : elf.init T = true
  table : ∀ i < elf.ePhnum T, elf.ePhoff T + elf.ePhentsize T * i + T.sizeofPhdr ≤ elf.bytes.length
  inFile : ∀ p ∈ elf.segments T, p.pOffset.toNat + p.pFilesz.toNat ≤ elf.bytes.length
  filesz_le : ∀ p ∈ elf.segments T, p.pFilesz ≤ p.pMemsz
  disjoint : (elf.segments T).Pairwise fun p q => ∀ x, p.Covers useVaddr x → ¬ q.Covers useVaddr x
  insideOrOutside : ∀ p ∈ elf.segments T, p.Inside useVaddr a ∨ p.Outside useVaddr a

/-- The bytes of the area that belong to a segment are loaded, all others are kept. -/
structure Loaded (a : Area T) (useVaddr : Bool) (h h' : Host) : Prop where
  covered : ∀ p ∈ elf.segments T, ∀ k < p.pMemsz.toNat, ∀ i < a.mem.size.toNat,
    (p.addr useVaddr).toNat + k = a.start.toNat + i →
      h' (a.mem.data + BitVec.ofNat 64 i) = elf.byteAt p k
  other : ∀ b, (∀ p ∈ elf.segments T, ∀ k < p.pMemsz.toNat, ∀ i < a.mem.size.toNat,
    (p.addr useVaddr).toNat + k = a.start.toNat + i → b ≠ a.mem.data + BitVec.ofNat 64 i) → h' b = h b

/-- An aligned address that is not below the end of a segment in the area, unless the segment ends less than
eight bytes before the area. -/
structure IsHeapAddr (a : Area T) (useVaddr : Bool) (heap : BitVec T.addrBits) : Prop where
  aligned : 8 ∣ heap.toNat
  stop_le : ∀ p ∈ elf.phdrs T, 0 < p.pMemsz.toNat → p.Inside useVaddr a →
    p.stop useVaddr + 8 ≤ a.stop → p.stop useVaddr ≤ heap.toNat

/-- The program is loaded, and the heap starts after it. -/
def LoadsRight (a : Area T) (useVaddr : Bool) (h : Host) : Prop :=
  (∃ h', elf.loadExecutableImage a.mem a.size a.start useVaddr h = some h' ∧ elf.Loaded a useVaddr h h') ∧
    ∃ heap, elf.getHeapAddr a.size a.start useVaddr = some heap ∧ elf.IsHeapAddr a useVaddr heap

end File

/-! ### `in_area` -/

namespace Area

variable {a : Area T}

theorem toNat_start_add_size (a : Area T) : (a.start + a.size).toNat = a.stop % 2 ^ T.addrBits := by
  rw [size, stop, BitVec.toNat_add, BitVec.toNat_setWidth, Nat.add_mod_mod]

theorem inArea_iff (hstop : a.stop < 2 ^ T.addrBits) (x : BitVec T.addrBits) :
    inArea x a.size a.start = true ↔ a.start.toNat ≤ x.toNat ∧ x.toNat < a.stop := by
  rw [inArea, Bool.and_eq_true, decide_eq_true_iff, decide_eq_true_iff, BitVec.le_def, BitVec.lt_def,
    a.toNat_start_add_size, Nat.mod_eq_of_lt hstop]

/-- No address is in an area that ends with the address space. -/
theorem inArea_of_top (hstop : a.stop = 2 ^ T.addrBits) (x : BitVec T.addrBits) :
    inArea x a.size a.start = false := by
  rw [inArea, Bool.and_eq_false_iff]
  right
  rw [decide_eq_false_iff_not, BitVec.lt_def, a.toNat_start_add_size, hstop, Nat.mod_self]
  exact Nat.not_lt_zero _

theorem stop_lt_or_eq (a : Area T) : a.stop < 2 ^ T.addrBits ∨ a.stop = 2 ^ T.addrBits :=
  Nat.lt_or_eq_of_le a.fits

theorem stop_lt_of_inArea (a : Area T) {x : BitVec T.addrBits} (h : inArea x a.size a.start = true) :
    a.stop < 2 ^ T.addrBits := by
  refine a.stop_lt_or_eq.resolve_right fun htop => ?_
  rw [inArea_of_top htop] at h
  cases h

end Area

/-! ### The image -/

/-- Bytes of the file and zeros after them are one block. -/
theorem put_put (c : Cells (BitVec 8)) (src : ℕ → BitVec 8) (offset : ℕ) {filesz memsz : ℕ}
    (hle : filesz ≤ memsz) :
    (c.put ⟨offset, filesz, src⟩).put ⟨offset + filesz, memsz - filesz, fun _ => 0⟩ =
      c.put ⟨offset, memsz, fun k => if k < filesz then src k else 0⟩ := by
  funext i
  rw [Cells.put_mk, Cells.put_mk, Cells.put_mk]
  by_cases hlow : offset ≤ i ∧ i < offset + filesz
  · rw [if_neg (by omega), if_pos hlow, if_pos (by omega), if_pos (by omega)]
  · by_cases hhigh : offset + filesz ≤ i ∧ i < offset + filesz + (memsz - filesz)
    · rw [if_pos hhigh, if_pos (by omega), if_neg (by omega)]
    · rw [if_neg hhigh, if_neg hlow, if_neg (by omega)]

namespace File

variable {elf : File} {a : Area T} {useVaddr : Bool} {h : Host} {p : Phdr T}

/-- What is put into the area for a segment. -/
def block (elf : File) (a : Area T) (useVaddr : Bool) (p : Phdr T) : Option (Cells.Block (BitVec 8)) :=
  if inArea (p.addr useVaddr) a.size a.start then
    some ⟨(p.addr useVaddr).toNat - a.start.toNat, p.pMemsz.toNat, elf.byteAt p⟩
  else none

theorem loadSection_of_block_none (hb : elf.block a useVaddr p = none) :
    elf.loadSection a.mem a.size a.start useVaddr h p = some h := by
  have hout : inArea (p.addr useVaddr) a.size a.start = false := by
    rw [block] at hb
    split_ifs at hb with hin
    exact eq_false_of_ne_true hin
  rw [loadSection]
  simp only [hout]
  rfl

/-- A segment in the area is put into it. -/
theorem loadSection_of_block_some {c : Cells (BitVec 8)} {x : Cells.Block (BitVec 8)}
    (hb : elf.block a useVaddr p = some x) (hle : p.pFilesz ≤ p.pMemsz) (hin : p.Inside useVaddr a)
    (hc : a.mem.HoldsAll h c) :
    ∃ h', elf.loadSection a.mem a.size a.start useVaddr h p = some h' ∧ a.mem.HoldsAll h' (c.put x) := by
  have hbits := T.addrBits_le
  have hpow : 2 ^ T.addrBits ≤ 2 ^ 64 := Nat.pow_le_pow_right (by omega) hbits
  have harea : inArea (p.addr useVaddr) a.size a.start = true := by
    rw [block] at hb
    split_ifs at hb with hin
    exact hin
  rw [block, if_pos harea, Option.some.injEq] at hb
  subst hb
  obtain ⟨hstart, hstop⟩ := hin
  have htop := a.stop_lt_of_inArea harea
  rw [Area.stop] at htop
  rw [Phdr.stop, Area.stop] at hstop
  have hle' := BitVec.le_def.mp hle
  have hmem := p.pMemsz.isLt
  -- the numbers that the integers stand for
  have hoff : (p.addr useVaddr - a.start).toNat = (p.addr useVaddr).toNat - a.start.toNat :=
    BitVec.toNat_sub_of_le (BitVec.le_def.mpr hstart)
  have hwide (x : BitVec T.addrBits) : (x.setWidth 64).toNat = x.toNat := by
    rw [BitVec.toNat_setWidth, Nat.mod_eq_of_lt (Nat.lt_of_lt_of_le x.isLt hpow)]
  have hoff' : (p.addr useVaddr - a.start + p.pFilesz).toNat =
      (p.addr useVaddr).toNat - a.start.toNat + p.pFilesz.toNat := by
    rw [BitVec.toNat_add, hoff, Nat.mod_eq_of_lt (by omega)]
  have hrest : (p.pMemsz - p.pFilesz).toNat = p.pMemsz.toNat - p.pFilesz.toNat :=
    BitVec.toNat_sub_of_le hle
  have hfile : ((p.addr useVaddr - a.start).setWidth 64).toNat + (p.pFilesz.setWidth 64).toNat ≤
      a.mem.size.toNat := by
    rw [hwide, hwide, hoff]
    omega
  have hbss : ((p.addr useVaddr - a.start + p.pFilesz).setWidth 64).toNat +
      ((p.pMemsz - p.pFilesz).setWidth 64).toNat ≤ a.mem.size.toNat := by
    rw [hwide, hwide, hoff', hrest]
    omega
  obtain ⟨h₁, hdata, hc₁⟩ :=
    SimpleMemory.loadData_spec hc (fun i => elf.data (p.pOffset.toNat + i)) hfile
  obtain ⟨h₂, hzero, hc₂⟩ := SimpleMemory.loadZero_spec hc₁ hbss
  refine ⟨h₂, ?_, ?_⟩
  · rw [loadSection]
    simp only [harea, Bool.not_true, Bool.false_eq_true, if_false, hdata, hle, guard, if_true,
      Option.bind_eq_bind, Option.bind_some]
    exact hzero
  · rw [hwide, hwide, hwide, hwide, hoff, hoff', hrest, put_put _ _ _ hle'] at hc₂
    exact hc₂

/-! ### The sections that are loaded -/

theorem mem_getLoadSections : p ∈ elf.getLoadSections T ↔
    p ∈ elf.segments T ∧ ¬ (p.pFilesz = 0 ∧ p.pMemsz = 0) := by
  rw [getLoadSections, segments, List.mem_filter, List.mem_filter, Bool.and_eq_true, Bool.not_eq_true',
    and_assoc, ← Bool.decide_and, decide_eq_false_iff_not]

theorem getLoadSections_sublist (elf : File) : (elf.getLoadSections T).Sublist (elf.segments T) := by
  have h : elf.getLoadSections T = (elf.segments T).filter
      fun p => !(decide (p.pFilesz = 0) && decide (p.pMemsz = 0)) := by
    rw [getLoadSections, segments, List.filter_filter]
    exact List.filter_congr fun p _ => Bool.and_comm _ _
  rw [h]
  exact List.filter_sublist

variable (hl : elf.Loadable a useVaddr)

include hl

theorem Loadable.pMemsz_pos (hp : p ∈ elf.getLoadSections T) : 0 < p.pMemsz.toNat := by
  obtain ⟨hseg, hne⟩ := mem_getLoadSections.mp hp
  have hle := BitVec.le_def.mp (hl.filesz_le p hseg)
  have hzero (x : BitVec T.addrBits) (hx : x.toNat = 0) : x = 0 :=
    BitVec.eq_of_toNat_eq (hx.trans BitVec.toNat_zero.symm)
  by_contra hpos
  exact hne ⟨hzero _ (by omega), hzero _ (by omega)⟩

/-- A segment with a byte in the area is inside it. -/
theorem Loadable.inside_of_covers (hp : p ∈ elf.segments T) {x : ℕ} (hx : p.Covers useVaddr x)
    (hstart : a.start.toNat ≤ x) (hstop : x < a.stop) : p.Inside useVaddr a := by
  refine (hl.insideOrOutside p hp).resolve_right fun hout => ?_
  obtain ⟨hfirst, hlast⟩ := hx
  rcases hout with hle | hle <;> omega

/-- The segments that are loaded are inside the area. -/
theorem Loadable.inside_of_block (hp : p ∈ elf.getLoadSections T) {x : Cells.Block (BitVec 8)}
    (hb : elf.block a useVaddr p = some x) : p.Inside useVaddr a := by
  have harea : inArea (p.addr useVaddr) a.size a.start = true := by
    rw [block] at hb
    split_ifs at hb with hin
    exact hin
  have hpos := hl.pMemsz_pos hp
  obtain ⟨hstart, hstop⟩ := (Area.inArea_iff (a.stop_lt_of_inArea harea) _).mp harea
  refine hl.inside_of_covers (mem_getLoadSections.mp hp).1 ⟨le_rfl, ?_⟩ hstart hstop
  rw [Phdr.stop]
  omega

/-- **The image.**  The loader puts the blocks of the segments into the memory. -/
theorem Loadable.load_eq_putAll (h : Host) :
    ∃ h', elf.loadExecutableImage a.mem a.size a.start useVaddr h = some h' ∧
      a.mem.HoldsAll h' ((a.mem.contents h).putAll
        ((elf.getLoadSections T).filterMap (elf.block a useVaddr))) := by
  rw [loadExecutableImage, if_pos hl.isElf]
  refine Cells.foldlM_eq_putAll _ _ a.mem.HoldsAll ?_ ?_ fun i _ => rfl
  · intro p _ hb h₁ c hc
    exact ⟨h₁, loadSection_of_block_none hb, hc⟩
  · intro p hp x hb h₁ c hc
    exact loadSection_of_block_some hb (hl.filesz_le p (mem_getLoadSections.mp hp).1)
      (hl.inside_of_block hp hb) hc

omit hl

theorem block_of_inside (hstop : a.stop < 2 ^ T.addrBits) (hin : p.Inside useVaddr a)
    (hpos : 0 < p.pMemsz.toNat) : elf.block a useVaddr p =
      some ⟨(p.addr useVaddr).toNat - a.start.toNat, p.pMemsz.toNat, elf.byteAt p⟩ := by
  refine if_pos ((Area.inArea_iff hstop _).mpr ⟨hin.1, ?_⟩)
  have hlast := hin.2
  rw [Phdr.stop] at hlast
  omega

/-- The block of a segment covers the places of its bytes. -/
theorem covers_of_block {x : Cells.Block (BitVec 8)} (hb : elf.block a useVaddr p = some x)
    (hin : p.Inside useVaddr a) {i : ℕ} : x.Covers i ↔ p.Covers useVaddr (a.start.toNat + i) := by
  rw [block] at hb
  split_ifs at hb
  rw [Option.some.injEq] at hb
  subst hb
  have hstart := hin.1
  show _ ∧ _ ↔ _ ∧ _
  dsimp only
  rw [Phdr.stop]
  omega

include hl

theorem Loadable.pairwise_blocks :
    ((elf.getLoadSections T).filterMap (elf.block a useVaddr)).Pairwise Cells.Block.Disjoint := by
  rw [List.pairwise_filterMap]
  refine (hl.disjoint.sublist elf.getLoadSections_sublist).imp_of_mem ?_
  intro p q hp hq hpq x hx y hy i hcx hcy
  rw [covers_of_block hx (hl.inside_of_block hp hx)] at hcx
  rw [covers_of_block hy (hl.inside_of_block hq hy)] at hcy
  exact hpq _ hcx hcy

/-- If the area does not end with the address space, the image is loaded. -/
theorem Loadable.loaded (hstop : a.stop < 2 ^ T.addrBits) {h h' : Host}
    (hput : a.mem.HoldsAll h' ((a.mem.contents h).putAll
      ((elf.getLoadSections T).filterMap (elf.block a useVaddr)))) : elf.Loaded a useVaddr h h' where
  covered p hp k hk i hi heq := by
    have hcov : p.Covers useVaddr (a.start.toNat + i) := by
      rw [Phdr.Covers, Phdr.stop]
      omega
    have hin := hl.inside_of_covers hp hcov (by omega) (by rw [Area.stop]; omega)
    have hsec : p ∈ elf.getLoadSections T := by
      refine mem_getLoadSections.mpr ⟨hp, fun hzero => ?_⟩
      rw [hzero.2] at hk
      exact absurd hk (by simp)
    have hb : elf.block a useVaddr p = some _ := block_of_inside hstop hin (by omega)
    have hmem := List.mem_filterMap.mpr ⟨p, hsec, hb⟩
    have hsize := a.mem.size.isLt
    refine (hput i (by omega)).trans ?_
    rw [Cells.putAll_of_covers hl.pairwise_blocks hmem ((covers_of_block hb hin).mpr hcov)]
    have hstart := hin.1
    rw [show i - ((p.addr useVaddr).toNat - a.start.toNat) = k by omega]
  other b hb := by
    have hplace : a.mem.data + BitVec.ofNat 64 (b - a.mem.data).toNat = b := by
      rw [BitVec.ofNat_toNat, BitVec.setWidth_eq, BitVec.add_comm, BitVec.sub_add_cancel]
    have hbyte := hput (b - a.mem.data).toNat (BitVec.isLt _)
    rw [Cells.putAll_of_not_covers, SimpleMemory.contents, SimpleMemory.contents, hplace] at hbyte
    · exact hbyte
    · intro x hx hcov
      obtain ⟨p, hp, hblock⟩ := List.mem_filterMap.mp hx
      have hin := hl.inside_of_block hp hblock
      obtain ⟨hfirst, hlast⟩ := (covers_of_block hblock hin).mp hcov
      have hle := hin.2
      rw [Area.stop] at hle
      refine hb p (mem_getLoadSections.mp hp).1
        (a.start.toNat + (b - a.mem.data).toNat - (p.addr useVaddr).toNat) ?_ (b - a.mem.data).toNat ?_ ?_
        hplace.symm
      · rw [Phdr.stop] at hlast
        omega
      · omega
      · omega

/-- If the area ends with the address space, nothing is loaded. -/
theorem Loadable.load_of_top (hstop : a.stop = 2 ^ T.addrBits) (h : Host) :
    elf.loadExecutableImage a.mem a.size a.start useVaddr h = some h := by
  obtain ⟨h', hload, hput⟩ := hl.load_eq_putAll h
  have hnil : (elf.getLoadSections T).filterMap (elf.block a useVaddr) = [] := by
    rw [List.filterMap_eq_nil_iff]
    intro p _
    rw [block, Area.inArea_of_top hstop, if_neg Bool.false_ne_true]
  have heq : h' = h := by
    funext b
    have hplace : a.mem.data + BitVec.ofNat 64 (b - a.mem.data).toNat = b := by
      rw [BitVec.ofNat_toNat, BitVec.setWidth_eq, BitVec.add_comm, BitVec.sub_add_cancel]
    have hbyte := hput (b - a.mem.data).toNat (BitVec.isLt _)
    rwa [hnil, Cells.putAll, List.foldl_nil, SimpleMemory.contents, SimpleMemory.contents, hplace] at hbyte
  rw [hload, heq]

omit hl

/-! ### The heap -/

/-- The first aligned address after the segment, as `get_heap_addr` computes it. -/
def heapStart (useVaddr : Bool) (p : Phdr T) : BitVec T.addrBits :=
  ((p.addr useVaddr + p.pMemsz - 1) &&& ~~~0x7) + 8

theorem toNat_roundUp (x : BitVec T.addrBits) :
    ((x &&& ~~~0x7) + 8).toNat = (x.toNat / 8 * 8 + 8) % 2 ^ T.addrBits := by
  have hclear : (x &&& ~~~0x7).toNat = x.toNat / 8 * 8 := BitField.toNat_and_not_ones x 3
  have h8 : (8 : BitVec T.addrBits).toNat = 8 % 2 ^ T.addrBits := BitVec.toNat_ofNat 8 _
  rw [BitVec.toNat_add, hclear, h8, Nat.add_mod_mod]

theorem dvd_roundUp (x : BitVec T.addrBits) : 8 ∣ ((x &&& ~~~0x7) + 8).toNat := by
  have hpow : 8 ∣ 2 ^ T.addrBits := Nat.pow_dvd_pow 2 T.three_le_addrBits
  rw [toNat_roundUp, Nat.dvd_mod_iff hpow]
  omega

/-- A segment that does not end with the address space ends at most seven bytes before its candidate. -/
theorem toNat_heapStart (hpos : 0 < p.pMemsz.toNat) (hle : p.stop useVaddr + 8 ≤ 2 ^ T.addrBits) :
    (heapStart useVaddr p).toNat = (p.stop useVaddr - 1) / 8 * 8 + 8 := by
  have hlast : (p.addr useVaddr + p.pMemsz - 1).toNat = p.stop useVaddr - 1 := by
    rw [Phdr.stop] at hle ⊢
    have h1 : (1 : BitVec T.addrBits).toNat = 1 := by
      rw [show (1 : BitVec T.addrBits).toNat = 1 % 2 ^ T.addrBits from BitVec.toNat_ofNat 1 _]
      exact Nat.mod_eq_of_lt (by omega)
    have hsum : (p.addr useVaddr + p.pMemsz).toNat = (p.addr useVaddr).toNat + p.pMemsz.toNat := by
      rw [BitVec.toNat_add, Nat.mod_eq_of_lt (by omega)]
    rw [BitVec.toNat_sub_of_le (by rw [BitVec.le_def, h1, hsum]; omega), h1, hsum]
  have hstop : 0 < p.stop useVaddr := by
    rw [Phdr.stop]
    omega
  rw [heapStart, toNat_roundUp, hlast, Nat.mod_eq_of_lt (by omega)]

theorem heapStep_eq (acc : BitVec T.addrBits) (p : Phdr T) :
    heapStep a.size a.start useVaddr acc p =
      if inArea (heapStart useVaddr p) a.size a.start = true ∧ acc < heapStart useVaddr p then
        heapStart useVaddr p
      else acc := by
  show (if !inArea (heapStart useVaddr p) a.size a.start then acc
    else if acc < heapStart useVaddr p then heapStart useVaddr p else acc) = _
  cases inArea (heapStart useVaddr p) a.size a.start <;> simp

theorem le_heapStep (acc : BitVec T.addrBits) (p : Phdr T) :
    acc ≤ heapStep a.size a.start useVaddr acc p := by
  rw [heapStep_eq]
  split_ifs with h
  · exact BitVec.le_of_lt h.2
  · exact BitVec.le_refl _

theorem heapStart_le_heapStep (acc : BitVec T.addrBits)
    (hin : inArea (heapStart useVaddr p) a.size a.start = true) :
    heapStart useVaddr p ≤ heapStep a.size a.start useVaddr acc p := by
  rw [heapStep_eq]
  split_ifs with h
  · exact BitVec.le_refl _
  · exact BitVec.not_lt.mp fun hlt => h ⟨hin, hlt⟩

theorem dvd_heapStep {acc : BitVec T.addrBits} (hacc : 8 ∣ acc.toNat) (p : Phdr T) :
    8 ∣ (heapStep a.size a.start useVaddr acc p).toNat := by
  rw [heapStep_eq]
  split_ifs
  · exact dvd_roundUp _
  · exact hacc

/-- The loop ends with an aligned address that is not below a candidate in the area. -/
theorem foldl_heapStep (ps : List (Phdr T)) {acc : BitVec T.addrBits} (hacc : 8 ∣ acc.toNat) :
    8 ∣ (ps.foldl (heapStep a.size a.start useVaddr) acc).toNat ∧
      acc ≤ ps.foldl (heapStep a.size a.start useVaddr) acc ∧
      ∀ p ∈ ps, inArea (heapStart useVaddr p) a.size a.start = true →
        heapStart useVaddr p ≤ ps.foldl (heapStep a.size a.start useVaddr) acc := by
  induction ps generalizing acc with
  | nil => exact ⟨hacc, BitVec.le_refl _, by simp⟩
  | cons q ps ih =>
    obtain ⟨hdvd, hle, hall⟩ := ih (dvd_heapStep hacc q)
    refine ⟨hdvd, BitVec.le_trans (le_heapStep acc q) hle, fun p hp hin => ?_⟩
    rcases List.mem_cons.mp hp with rfl | hp
    · exact BitVec.le_trans (heapStart_le_heapStep acc hin) hle
    · exact hall p hp hin

/-- If the area does not end with the address space, the heap starts after the segments. -/
theorem isHeapAddr_of_lt (hstop : a.stop < 2 ^ T.addrBits) :
    elf.IsHeapAddr a useVaddr
      ((elf.phdrs T).foldl (heapStep a.size a.start useVaddr) ((a.start &&& ~~~0x7) + 8)) := by
  obtain ⟨hdvd, -, hall⟩ := foldl_heapStep (a := a) (elf.phdrs T) (dvd_roundUp a.start)
  refine ⟨hdvd, fun p hp hpos hin hend => ?_⟩
  have hcand := toNat_heapStart hpos (Nat.le_of_lt (Nat.lt_of_le_of_lt hend hstop))
  have hfirst : p.stop useVaddr = (p.addr useVaddr).toNat + p.pMemsz.toNat := rfl
  have hstart := hin.1
  have hle := hall p hp ((Area.inArea_iff hstop _).mpr (by rw [hcand]; omega))
  rw [BitVec.le_def, hcand] at hle
  omega

/-- In an area that ends with the address space no candidate counts. -/
theorem foldl_heapStep_of_top (hstop : a.stop = 2 ^ T.addrBits) (ps : List (Phdr T))
    (acc : BitVec T.addrBits) : ps.foldl (heapStep a.size a.start useVaddr) acc = acc := by
  induction ps with
  | nil => rfl
  | cons p ps ih =>
    have hkeep : heapStep a.size a.start useVaddr acc p = acc := by
      rw [heapStep_eq, Area.inArea_of_top hstop, if_neg fun h => Bool.false_ne_true h.1]
    rw [List.foldl_cons, hkeep, ih]

/-! ### When the program is loaded -/

/-- Memory differs from a segment in the area. -/
def Missing (elf : File) (a : Area T) (useVaddr : Bool) (h : Host) : Prop :=
  ∃ p ∈ elf.segments T, p.Inside useVaddr a ∧ ∃ k < p.pMemsz.toNat,
    h (a.mem.data + BitVec.ofNat 64 ((p.addr useVaddr).toNat + k - a.start.toNat)) ≠ elf.byteAt p k

/-- A segment in the area ends after the first aligned address, and at least eight bytes before the area. -/
def Above (elf : File) (a : Area T) (useVaddr : Bool) : Prop :=
  ∃ p ∈ elf.phdrs T, 0 < p.pMemsz.toNat ∧ p.Inside useVaddr a ∧ p.stop useVaddr + 8 ≤ a.stop ∧
    a.start.toNat / 8 * 8 + 8 < p.stop useVaddr

/-- Nothing needs to be loaded if memory does not differ. -/
theorem Loadable.loaded_self_iff (hl : elf.Loadable a useVaddr) :
    elf.Loaded a useVaddr h h ↔ ¬ elf.Missing a useVaddr h := by
  constructor
  · rintro hloaded ⟨p, hp, hin, k, hk, hne⟩
    obtain ⟨hstart, hle⟩ := hin
    rw [Phdr.stop, Area.stop] at hle
    exact hne (hloaded.covered p hp k hk _ (by omega) (by omega))
  · refine fun hmissing => ⟨fun p hp k hk i hi heq => ?_, fun b _ => rfl⟩
    by_contra hne
    have hcov : p.Covers useVaddr (a.start.toNat + i) := by
      rw [Phdr.Covers, Phdr.stop]
      omega
    have hin := hl.inside_of_covers hp hcov (by omega) (by rw [Area.stop]; omega)
    refine hmissing ⟨p, hp, hin, k, hk, ?_⟩
    rwa [heq, Nat.add_sub_cancel_left]

/-- The first aligned address is an address for the heap if no segment ends after it. -/
theorem isHeapAddr_start_iff (hstop : a.stop = 2 ^ T.addrBits) :
    elf.IsHeapAddr a useVaddr ((a.start &&& ~~~0x7) + 8) ↔ ¬ elf.Above a useVaddr := by
  have hval := toNat_roundUp a.start
  constructor
  · rintro hheap ⟨p, hp, hpos, hin, hend, habove⟩
    have hle := hheap.stop_le p hp hpos hin hend
    have hmod := Nat.mod_le (a.start.toNat / 8 * 8 + 8) (2 ^ T.addrBits)
    omega
  · refine fun habove => ⟨dvd_roundUp _, fun p hp hpos hin hend => ?_⟩
    have hfirst : p.stop useVaddr = (p.addr useVaddr).toNat + p.pMemsz.toNat := rfl
    have hstart := hin.1
    have hle : p.stop useVaddr ≤ a.start.toNat / 8 * 8 + 8 := by
      by_contra hlt
      exact habove ⟨p, hp, hpos, hin, hend, by omega⟩
    rw [hval, Nat.mod_eq_of_lt (by omega)]
    exact hle

/-- **Loading.**  An ELF file is loaded and the heap starts after it, unless the area ends with the address
space, and either there is something to load or a segment ends after the first aligned address. -/
theorem loadsRight_iff (hl : elf.Loadable a useVaddr) (h : Host) :
    elf.LoadsRight a useVaddr h ↔
      ¬ (a.stop = 2 ^ T.addrBits ∧ (elf.Missing a useVaddr h ∨ elf.Above a useVaddr)) := by
  rw [LoadsRight, getHeapAddr, if_pos hl.isElf]
  rcases a.stop_lt_or_eq with hstop | hstop
  · refine iff_of_true ?_ fun hbad => Nat.ne_of_lt hstop hbad.1
    obtain ⟨h', hload, hput⟩ := hl.load_eq_putAll h
    exact ⟨⟨h', hload, hl.loaded hstop hput⟩, _, rfl, isHeapAddr_of_lt hstop⟩
  · rw [hl.load_of_top hstop, foldl_heapStep_of_top hstop]
    simp only [Option.some.injEq, exists_eq_left', hl.loaded_self_iff, isHeapAddr_start_iff hstop, hstop,
      true_and, not_or]

/-- The bytes of an `Elf32_Word`. -/
def wordBytes (x : BitVec 32) : List (BitVec 8) := (List.range 4).map fun i => (x >>> (8 * i)).setWidth 8

/-- A program with four bytes of code, twelve zeros after them, and eight more zeros in another segment. -/
def program (addr : BitVec 32) : File where
  bytes := [0x7f, 0x45, 0x4c, 0x46, 1, 1, 1, 0, 0, 0, 0, 0, 0, 0, 0, 0, 2, 0, 0xf3, 0, 1, 0, 0, 0] ++
    wordBytes addr ++ wordBytes 52 ++ wordBytes 0 ++ wordBytes 0 ++
    [52, 0, 32, 0, 2, 0, 0, 0, 0, 0, 0, 0] ++
    ([1, 116, addr, addr, 4, 16, 5, 4].flatMap wordBytes) ++
    ([1, 120, addr + 0x20, addr + 0x20, 0, 8, 6, 4].flatMap wordBytes) ++ [0x13, 1, 2, 3]

theorem fits_lowArea : (0x80000000 : BitVec 32).toNat + (0x100 : BitVec 64).toNat ≤ 2 ^ 32 := by decide

/-- An area of 256 bytes. -/
def lowArea : Area .elf32 where
  mem := ⟨0x10000, 0x100⟩
  start := 0x80000000
  fits := fits_lowArea

theorem fits_topArea : (0xffff0000 : BitVec 32).toNat + (0x10000 : BitVec 64).toNat ≤ 2 ^ 32 := by decide

/-- An area that ends with the address space. -/
def topArea : Area .elf32 where
  mem := ⟨0x10000, 0x10000⟩
  start := 0xffff0000
  fits := fits_topArea

/-- What is read of the program. -/
def HeaderRead (addr : BitVec 32) : Prop :=
  (program addr).init .elf32 = true ∧
    (∀ i < (program addr).ePhnum .elf32, (program addr).ePhoff .elf32 + (program addr).ePhentsize .elf32 * i +
      Types.elf32.sizeofPhdr ≤ (program addr).bytes.length) ∧
    (program addr).bytes.length = 120 ∧ (program addr).data 116 = 0x13 ∧
    (program addr).phdrs .elf32 =
      [⟨1, 116, addr, addr, 4, 16⟩, ⟨1, 120, (addr + 0x20 : BitVec 32), (addr + 0x20 : BitVec 32), 0, 8⟩]

instance (addr : BitVec 32) : Decidable (HeaderRead addr) := instDecidableAnd

theorem headerRead_program : HeaderRead 0x80000000 ∧ HeaderRead 0xffff0000 := by
  decide +kernel

theorem segments_program {addr : BitVec 32} (hread : HeaderRead addr) :
    (program addr).segments .elf32 =
      [⟨1, 116, addr, addr, 4, 16⟩, ⟨1, 120, (addr + 0x20 : BitVec 32), (addr + 0x20 : BitVec 32), 0, 8⟩] := by
  obtain ⟨-, -, -, -, hphdrs⟩ := hread
  rw [segments, hphdrs]
  rfl

theorem loadable_program {addr : BitVec 32} (hread : HeaderRead addr) {a : Area .elf32}
    (hstart : a.start = addr) (hsize : 0x28 ≤ a.mem.size.toNat) : (program addr).Loadable a true := by
  have hseg := segments_program hread
  obtain ⟨hinit, htable, hlen, -, -⟩ := hread
  have hs : a.start.toNat = addr.toNat := congrArg BitVec.toNat hstart
  have hfits : addr.toNat + a.mem.size.toNat ≤ 2 ^ 32 := hs ▸ a.fits
  have hadd : (addr + 0x20).toNat = addr.toNat + 0x20 := by bv_omega
  refine ⟨hinit, htable, ?_, ?_, ?_, ?_⟩
  · rw [hseg, hlen]
    intro p hp
    rcases List.mem_pair.mp hp with rfl | rfl
    · show (116 : BitVec 32).toNat + (4 : BitVec 32).toNat ≤ 120
      decide
    · show (120 : BitVec 32).toNat + (0 : BitVec 32).toNat ≤ 120
      decide
  · rw [hseg]
    intro p hp
    rcases List.mem_pair.mp hp with rfl | rfl
    · show (4 : BitVec 32) ≤ 16
      decide
    · show (0 : BitVec 32) ≤ 8
      decide
  · rw [hseg, List.pairwise_pair]
    rintro x ⟨-, hlast⟩ ⟨hfirst, -⟩
    change x < addr.toNat + 16 at hlast
    change (addr + 0x20 : BitVec 32).toNat ≤ x at hfirst
    omega
  · rw [hseg]
    intro p hp
    left
    rcases List.mem_pair.mp hp with rfl | rfl
    · refine ⟨hs.le, ?_⟩
      show addr.toNat + 16 ≤ a.start.toNat + a.mem.size.toNat
      omega
    · constructor
      · show a.start.toNat ≤ (addr + 0x20 : BitVec 32).toNat
        omega
      · show (addr + 0x20 : BitVec 32).toNat + 8 ≤ a.start.toNat + a.mem.size.toNat
        omega

theorem loadsRight_program : (program 0x80000000).LoadsRight lowArea true fun _ => 0xff := by
  have hl := loadable_program (a := lowArea) headerRead_program.1 rfl (by decide)
  exact (loadsRight_iff hl _).mpr fun htop => absurd htop.1 (by decide)

/-- A program in an area that ends with the address space is not loaded. -/
theorem not_loadsRight : ¬ ∀ (T : Types) (elf : File) (a : Area T) (useVaddr : Bool) (h : Host),
    elf.Loadable a useVaddr → elf.LoadsRight a useVaddr h := by
  intro hall
  have hread := headerRead_program.2
  have hl := loadable_program (a := topArea) hread rfl (by decide)
  obtain ⟨-, -, -, hbyte, -⟩ := hread
  obtain ⟨⟨h', hload, hloaded⟩, -⟩ := hall _ _ _ _ (fun _ => 0) hl
  have hkept := Option.some.inj ((hl.load_of_top (by decide) _).symm.trans hload)
  rw [← hkept] at hloaded
  refine hl.loaded_self_iff.mp hloaded ⟨⟨1, 116, 0xffff0000, 0xffff0000, 4, 16⟩, ?_, ?_, 0, ?_, ?_⟩
  · rw [segments_program headerRead_program.2]
    exact List.mem_cons_self
  · decide
  · decide
  · rw [byteAt, if_pos (by decide)]
    intro heq
    exact absurd (heq.trans hbyte) (by decide)

end File

end RiscvVp.Elf
