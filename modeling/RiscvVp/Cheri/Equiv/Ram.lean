import RiscvVp.Cheri.Equiv.Tlb

/-!
# Page tables in main memory

Main memory satisfies what `Mmu.PteMemory` asks of the memory that page tables are kept in, with the
direct window and without it.
-/

namespace RiscvVp.Cheri

/-! ### Bytes and integers -/

theorem getLsbD_ofBytes (b : Bytes) (n i : ℕ) :
    (ofBytes b n).getLsbD i = (decide (i < 8 * n) && (b (i / 8)).getLsbD (i % 8)) := by
  induction n generalizing b i with
  | zero => simp [ofBytes]
  | succ n ih =>
    rw [ofBytes]
    erw [BitVec.getLsbD_append]
    by_cases hi : i < 8
    · have h1 : i / 8 = 0 := by omega
      have h2 : i % 8 = i := by omega
      have h3 : i < 8 * (n + 1) := by omega
      simp [hi, h1, h2, h3]
    · have h1 : (i - 8) / 8 + 1 = i / 8 := by omega
      have h2 : (i - 8) % 8 = i % 8 := by omega
      have h3 : i - 8 < 8 * n ↔ i < 8 * (n + 1) := by omega
      simp [hi, ih, h1, h2, h3]

theorem ofBytes_congr {b b' : Bytes} {n : ℕ} (h : ∀ i, i < n → b i = b' i) :
    ofBytes b n = ofBytes b' n := by
  apply BitVec.eq_of_getLsbD_eq
  intro i hi
  rw [getLsbD_ofBytes, getLsbD_ofBytes, h (i / 8) (by omega)]

theorem getLsbD_bytesOf {w : ℕ} (v : BitVec w) (a : ℕ) {i : ℕ} (hi : i < 8) :
    (bytesOf v a).getLsbD i = v.getLsbD (8 * a + i) := by
  simp [bytesOf, hi]

/-! ### Accesses to main memory -/

/-- There is main memory of the given size at the `n` bytes from an address on, and a tag for it. -/
structure InRam {δ : Type} (p : Platform δ) (size : BitVec 32) (a : BitVec 64) (n : ℕ) : Prop where
  window : p.dmi.size = size.setWidth 64
  contains : p.dmi.contains a = true
  page : p.dmi.contains (pageOf a) = true
  pos : 0 < n
  fits : p.dmi.offset a + n ≤ clen * (size.toNat / clen)

namespace InRam

variable {δ : Type} {p : Platform δ} {size : BitVec 32} {a : BitVec 64} {n : ℕ}
  (h : InRam p size a n) {w : World δ}
include h

theorem le_size : p.dmi.offset a + n ≤ size.toNat :=
  le_trans h.fits (Nat.mul_div_le _ _)

/-- The window of main memory does not wrap around: its end is its start and its size, as numbers. -/
theorem stop_toNat : p.dmi.stop.toNat = p.dmi.start.toNat + size.toNat := by
  have hne := p.dmi.nonempty
  rw [BitVec.lt_def, BitVec.toNat_add, h.window, BitVec.toNat_setWidth] at hne
  rw [MemoryDMI.stop, BitVec.toNat_add, h.window, BitVec.toNat_setWidth]
  have h1 := size.isLt
  have h2 := p.dmi.start.isLt
  omega

theorem toNat_eq : a.toNat = p.dmi.start.toNat + p.dmi.offset a := by
  have hc := h.contains
  rw [MemoryDMI.contains, Bool.and_eq_true, decide_eq_true_iff, BitVec.le_def] at hc
  rw [MemoryDMI.offset, BitVec.toNat_sub]
  have h1 := a.isLt
  omega

theorem getMemPtr : p.dmi.getMemPtrToGlobalAddr a n = some (p.dmi.offset a) := by
  refine if_pos ⟨h.contains, ?_⟩
  have h1 := h.stop_toNat
  have h2 := h.toNat_eq
  have h3 := h.le_size
  have h4 := p.dmi.stop.isLt
  rw [BitVec.le_def, BitVec.toNat_add, BitVec.toNat_ofNat]
  omega

theorem dmiPageHostAddr : ∃ q, World.dmiPageHostAddr p a n = some q := by
  refine ⟨_, congrArg (Option.map _) (if_pos ⟨h.page, ?_⟩)⟩
  have h1 := h.stop_toNat
  have h2 := h.toNat_eq
  have h3 := h.le_size
  have h4 := p.dmi.stop.isLt
  have h5 : (pageOf a).toNat ≤ a.toNat := by
    rw [pageOf, BitVec.toNat_and]
    exact Nat.and_le_left
  rw [BitVec.le_def, BitVec.toNat_add, BitVec.toNat_ofNat]
  omega

theorem tag_index : p.dmi.offset a / clen < size.toNat / clen := by
  have h1 := h.fits
  have h2 := h.pos
  rw [Nat.div_lt_iff_lt_mul (by decide), mul_comm]
  omega

/-- The address that the memory behind the bus gets. -/
theorem local_toNat : ((a - p.dmi.start).setWidth 32).toNat = p.dmi.offset a := by
  have h1 := h.le_size
  have h2 := size.isLt
  rw [BitVec.toNat_setWidth]
  exact Nat.mod_eq_of_lt (by rw [MemoryDMI.offset] at h1; omega)

theorem local_lt : (a - p.dmi.start).setWidth 32 < size := by
  have h1 := h.le_size
  have h2 := h.pos
  rw [BitVec.lt_def, h.local_toNat]
  omega

theorem local_add_le : (a - p.dmi.start).setWidth 32 + BitVec.ofNat 32 n ≤ size := by
  have h1 := h.le_size
  have h2 := size.isLt
  rw [BitVec.le_def, BitVec.toNat_add, h.local_toNat, BitVec.toNat_ofNat]
  omega

/-- The length that the memory behind the bus gets. -/
theorem len_toNat : (BitVec.ofNat 32 n).toNat = n := by
  have h1 := h.le_size
  have h2 := size.isLt
  rw [BitVec.toNat_ofNat]
  exact Nat.mod_eq_of_lt (by omega)

/-- A load gives the bytes that memory holds. -/
theorem loadNow (hw : w.mem.size = size) : ∃ q, w.loadNow p a n =
    (.ok (ofBytes (fun i => w.mem.data (p.dmi.offset a + i)) n), { w with lastDmiPage := q }) := by
  obtain ⟨q, hq⟩ := h.dmiPageHostAddr
  by_cases hvia : w.viaDmi p a = true
  · rw [World.loadNow, if_pos hvia, h.getMemPtr, hq]
    exact ⟨_, rfl⟩
  · have htag : ∃ t, w.mem.getTag (p.dmi.offset a / clen) = some t :=
      ⟨_, Vector.getElem?_eq_getElem (by rw [hw]; exact h.tag_index)⟩
    obtain ⟨t, ht⟩ := htag
    have hread : w.mem.readData ((a - p.dmi.start).setWidth 32) (fun _ => 0) (BitVec.ofNat 32 n) =
        some (memcpy (fun _ => 0) 0 (fun i => w.mem.data (p.dmi.offset a + i)) n, t) := by
      rw [TaggedMemory.readData, if_neg (by rw [hw]; exact not_not.mpr h.local_add_le),
        h.local_toNat, ht, h.len_toNat]
      rfl
    rw [World.loadNow, if_neg hvia, World.doTransaction, World.bTransport, if_pos h.contains]
    simp only [TaggedMemory.transportDbg]
    rw [if_neg (by rw [hw]; exact not_not.mpr h.local_lt), hread]
    refine ⟨none, congrArg (fun v => (Except.ok v, { w with lastDmiPage := none })) ?_⟩
    apply ofBytes_congr
    intro i hi
    simp [memcpy, hi]

/-- A store copies the bytes of the value. -/
theorem storeNow (hw : w.mem.size = size) (v : BitVec (8 * n)) : ∃ w', w.storeNow p a n v =
    (.ok (), w') ∧ w'.mem.size = size ∧
      w'.mem.data = memcpy w.mem.data (p.dmi.offset a) (bytesOf v) n := by
  obtain ⟨q, hq⟩ := h.dmiPageHostAddr
  have hidx : p.dmi.offset a / clen < w.mem.size.toNat / clen := by rw [hw]; exact h.tag_index
  by_cases hvia : w.viaDmi p a = true
  · have hstore : p.dmi.store w.mem a n v =
        some { w.mem with
          data := memcpy w.mem.data (p.dmi.offset a) (bytesOf v) n
          tagBits := w.mem.tagBits.set (p.dmi.offset a / clen) false hidx } := by
      simp only [MemoryDMI.store, h.getMemPtr, Option.bind_eq_bind, Option.bind_some]
      exact dif_pos hidx
    rw [World.storeNow, if_pos hvia, hstore, hq]
    exact ⟨_, rfl, hw, rfl⟩
  · have hwrite : w.mem.writeData ((a - p.dmi.start).setWidth 32) (bytesOf v) (BitVec.ofNat 32 n)
        false = some { w.mem with
          data := memcpy w.mem.data (p.dmi.offset a) (bytesOf v) n
          tagBits := w.mem.tagBits.set (p.dmi.offset a / clen) false hidx } := by
      rw [TaggedMemory.writeData, if_neg (by simp), if_neg (by simp),
        if_neg (by rw [hw]; exact not_not.mpr h.local_add_le), h.local_toNat, h.len_toNat]
      exact dif_pos hidx
    rw [World.storeNow, if_neg hvia, World.doTransaction, World.bTransport, if_pos h.contains]
    simp only [TaggedMemory.transportDbg]
    rw [if_neg (by rw [hw]; exact not_not.mpr h.local_lt), hwrite]
    exact ⟨_, rfl, hw, rfl⟩

end InRam

/-! ### Entries of page tables -/

namespace Mmu

open RiscvVp.Mmu (ptePaddr)

section Entries

variable {δ : Type} {p : Platform δ} {size : BitVec 32} {T : Tables} {satp : Satp} {w : World δ}

/-- The words that memory holds. -/
def word (p : Platform δ) (w : World δ) : Tables :=
  fun a => (w.loadNow p a 8).1.map (·.setWidth 64)

/-- Main memory has the given size and its page tables the contents `T`. -/
def HoldsTables (p : Platform δ) (size : BitVec 32) (vm : VmInfo) (T : Tables) (w : World δ) : Prop :=
  w.mem.size = size ∧ ∀ a, T.Entry vm a → (word p w a).map maskADC = T a

theorem word_ram {a : BitVec 64} (h : InRam p size a 8) (hw : w.mem.size = size) :
    word p w a = .ok (ofBytes (fun i => w.mem.data (p.dmi.offset a + i)) 8) := by
  obtain ⟨q, hload⟩ := h.loadNow hw
  rw [word, hload]
  rfl

/-- The tables are those of the bytes of main memory. -/
theorem HoldsTables.congr (hram : ∀ a, T.Entry (decodeVmInfo satp) a → InRam p size a 8)
    {w' : World δ} (h : HoldsTables p size (decodeVmInfo satp) T w) (hm : w'.mem = w.mem) :
    HoldsTables p size (decodeVmInfo satp) T w' := by
  have hsize : w'.mem.size = size := by rw [hm]; exact h.1
  refine ⟨hsize, fun a ha => ?_⟩
  rw [← h.2 a ha, word_ram (hram a ha) hsize, word_ram (hram a ha) h.1, hm]

theorem reach_aligned {n : ℕ} {base : BitVec 64} (h : T.Reach (decodeVmInfo satp) n base) :
    base.toNat % 8 = 0 := by
  have hshift : ∀ x : BitVec 64, (x <<< 12).toNat % 8 = 0 := by
    intro x
    rw [BitVec.toNat_shiftLeft, Nat.shiftLeft_eq]
    omega
  cases h with
  | root =>
    unfold decodeVmInfo
    cases satp.mode <;> exact hshift _
  | next vaddr h hv hp => exact hshift _

/-- Entries are aligned to their size, so none of them lies across the end of main memory. -/
theorem entry_aligned {a : BitVec 64} (h : T.Entry (decodeVmInfo satp) a) : a.toNat % 8 = 0 := by
  obtain ⟨n, base, vaddr, hr, rfl⟩ := h
  have hsize : (decodeVmInfo satp).ptesize = 8 := by
    unfold decodeVmInfo
    cases satp.mode <;> rfl
  have hbase := reach_aligned hr
  rw [ptePaddr, hsize, BitVec.toNat_add, BitVec.toNat_mul]
  have h8 : (8 : BitVec 64).toNat = 8 := rfl
  rw [h8]
  omega

/-- The word at an entry after 32 bits have been stored at one. -/
theorem word_store {a b : BitVec 64} (ha : InRam p size a 8) (hb : InRam p size b 8)
    (hal : a.toNat % 8 = 0) (hbl : b.toNat % 8 = 0) {w' : World δ} (hw : w.mem.size = size)
    (hw' : w'.mem.size = size) {x : BitVec 64}
    (hdata : w'.mem.data = memcpy w.mem.data (p.dmi.offset a) (bytesOf (x.setWidth 32)) 4)
    {v : BitVec 64} (hv : word p w a = .ok v) :
    word p w' b = if b = a then .ok (setLow v x) else word p w b := by
  have h1 := ha.toNat_eq
  have h2 := hb.toNat_eq
  rw [word_ram hb hw', word_ram hb hw, hdata]
  split_ifs with hba
  · subst hba
    rw [word_ram ha hw] at hv
    obtain rfl := Except.ok.inj hv
    congr 1
    apply BitVec.eq_of_getLsbD_eq
    intro i hi
    rw [getLsbD_ofBytes, getLsbD_setLow, getLsbD_ofBytes]
    by_cases h32 : i < 32
    · have h4 : i / 8 < 4 := by omega
      rw [if_pos h32, memcpy, if_pos (by omega), Nat.add_sub_cancel_left,
        getLsbD_bytesOf _ _ (Nat.mod_lt i (by decide)), Nat.div_add_mod]
      simp [h32, show i < 64 by omega]
    · rw [if_neg h32, memcpy, if_neg (by omega)]
  · congr 1
    apply ofBytes_congr
    intro i hi
    -- the entries are different and aligned, so they do not overlap
    have hne : b.toNat ≠ a.toNat := fun h => hba (BitVec.eq_of_toNat_eq h)
    rw [memcpy, if_neg (by omega)]

/-- Page tables in main memory meet what the theorems about the walk ask of a memory. -/
theorem pteMemory (hram : ∀ a, T.Entry (decodeVmInfo satp) a → InRam p size a 8) :
    PteMemory (memIf p) (decodeVmInfo satp) T (word p)
      (HoldsTables p size (decodeVmInfo satp) T) where
  tables w hw a ha := hw.2 a ha
  load w hw a ha := by
    have hsize : (w.waitForAccessRights p).mem.size = size := hw.1
    obtain ⟨q, hload⟩ := (hram a ha).loadNow hsize
    refine ⟨.ok (ofBytes (fun i => w.mem.data (p.dmi.offset a + i)) 8, none),
      { w.waitForAccessRights p with lastDmiPage := q }, ?_, ?_, hw.congr hram rfl, fun b hb => ?_⟩
    · show CheriM.run' (rawLoadData p a 8 >>= fun v => pure (v.setWidth 64, none)) w = _
      rw [CheriM.run'_bind, CheriM.run', rawLoadData, hload]
      rfl
    · rw [word_ram (hram a ha) hw.1]
      rfl
    · rw [word_ram (hram b hb) hw.1]
      exact word_ram (hram b hb) hsize
  store w hw a ha v x hv hmask := by
    have hram4 : InRam p size a 4 :=
      { hram a ha with pos := by decide, fits := le_trans (by omega) (hram a ha).fits }
    obtain ⟨w', hrun, hsize, hdata⟩ :=
      hram4.storeNow (show (w.waitForAccessRights p).mem.size = size from hw.1) (x.setWidth 32)
    have hword : ∀ b, T.Entry (decodeVmInfo satp) b →
        word p w' b = if b = a then .ok (setLow v x) else word p w b := fun b hb =>
      word_store (hram a ha) (hram b hb) (entry_aligned ha) (entry_aligned hb) hw.1 hsize hdata hv
    refine ⟨none, w', ?_, ⟨hsize, fun b hb => ?_⟩, hword⟩
    · show CheriM.run' (rawStoreData p a 4 (x.setWidth 32) >>= fun _ => pure none) w = _
      rw [CheriM.run'_bind, CheriM.run', rawStoreData, hrun]
      rfl
    · rw [hword b hb]
      split_ifs with hba
      · subst hba
        rw [← hw.2 b hb, hv]
        exact congrArg Except.ok hmask
      · exact hw.2 b hb

end Entries

/-! ### A page whose tags are stripped -/

namespace StripPage

open RiscvVp.Mmu (Tlb State isPointer)

/-- 16 KiB of memory at address zero and nothing else. -/
def platform : Platform Unit where
  hartId := 0
  hasMmu := true
  dmi := ⟨0, 0x4000, MemoryDMI.nonempty_16K⟩
  hostData := 0x10000
  transport _ _ := (none, ())
  uninit := false

/-- The table at `0x1000` maps the first gigabyte to itself, readable and writable for the user; none
of the capability bits is set. -/
def world : World Unit where
  mem := { TaggedMemory.reset 0x4000 with data := fun a => if a = 0x1000 then 0xD7 else 0 }
  dev := ()
  busLock := ⟨false, 0⟩
  dmiEnabled := true
  lastDmiPage := none

/-- The table at `0x1000`. -/
def sv39 : Satp := ⟨1, 0, .sv39⟩

def tables : Tables := fun a => (word platform world a).map maskADC

/-- User mode on Sv39, after `flush_tlb`. -/
def start : State (World Unit) :=
  { mem := world, prv := .user, tlb := Tlb.flush, csrs := { Csrs.reset with satp := sv39 } }

/-- The same load of a capability, twice. -/
def events : List (Event (World Unit)) :=
  [.translate 0x2000 .load false ⟨false, false⟩, .translate 0x2000 .load false ⟨false, false⟩]

theorem inRam {a : BitVec 64} {vaddr : BitVec 64}
    (h : a = ptePaddr 9 8 vaddr 2 0x1000) : InRam platform 0x4000 a 8 := by
  have hle : (vaddr >>> (12 + 2 * 9) &&& ((1 <<< 9) - 1)).toNat ≤ 511 := by
    rw [BitVec.toNat_and]
    exact Nat.and_le_right
  have ha : 0x1000 ≤ a.toNat ∧ a.toNat ≤ 0x1FF8 := by
    rw [h, ptePaddr, BitVec.toNat_add, BitVec.toNat_mul]
    generalize (vaddr >>> (12 + 2 * 9) &&& ((1 <<< 9) - 1)).toNat = x at hle
    have h1 : (0x1000 : BitVec 64).toNat = 0x1000 := rfl
    have h2 : (8 : BitVec 64).toNat = 8 := rfl
    rw [h1, h2]
    omega
  have hoff : platform.dmi.offset a = a.toNat := by
    rw [MemoryDMI.offset]
    simp [platform]
  have hcontains : ∀ b : BitVec 64, b.toNat ≤ a.toNat → platform.dmi.contains b = true := by
    intro b hb
    rw [MemoryDMI.contains, Bool.and_eq_true, decide_eq_true_iff, decide_eq_true_iff, BitVec.le_def,
      BitVec.lt_def]
    have h1 : platform.dmi.start.toNat = 0 := rfl
    have h2 : platform.dmi.stop.toNat = 0x4000 := rfl
    omega
  refine ⟨rfl, hcontains a le_rfl, hcontains _ ?_, by decide, ?_⟩
  · rw [pageOf, BitVec.toNat_and]
    exact Nat.and_le_left
  · rw [hoff]
    have h1 : clen * ((0x4000 : BitVec 32).toNat / clen) = 0x4000 := rfl
    omega

/-- There is one table only in the example, the root: its one entry is a leaf. -/
theorem reach {n : ℕ} {base : BitVec 64} (h : tables.Reach (decodeVmInfo sv39) n base) :
    n = 3 ∧ base = 0x1000 := by
  induction h with
  | root => exact ⟨rfl, by decide⟩
  | @next n base v vaddr _ hv hp ih =>
    obtain ⟨hn, rfl⟩ := ih
    obtain rfl : n = 2 := by omega
    exfalso
    have hword := word_ram (inRam (rfl : _ = ptePaddr 9 8 vaddr 2 0x1000))
      (show world.mem.size = 0x4000 from rfl)
    replace hv : (word platform world (ptePaddr 9 8 vaddr 2 0x1000)).map maskADC = .ok v := hv
    rw [hword] at hv
    obtain rfl := Except.ok.inj hv
    -- every entry of the table is a leaf or invalid
    generalize platform.dmi.offset (ptePaddr 9 8 vaddr 2 0x1000) = off at hp
    have hbit : ∀ i, i < 2 → (maskADC (ofBytes (fun i => world.mem.data (off + i)) 8)).getLsbD i =
        (world.mem.data off).getLsbD i := by
      intro i hi
      rw [getLsbD_maskADC _ (by omega) (by omega) (by omega), getLsbD_ofBytes,
        Nat.div_eq_of_lt (by omega), Nat.mod_eq_of_lt (by omega)]
      simp [show i < 64 by omega]
    simp only [isPointer, Pte.v, Pte.r, hbit 0 (by decide), hbit 1 (by decide)] at hp
    by_cases hoff : off = 0x1000
    · simp [world, hoff] at hp
    · simp [world, hoff] at hp

theorem ram (a : BitVec 64) (ha : tables.Entry (decodeVmInfo sv39) a) :
    InRam platform 0x4000 a 8 := by
  obtain ⟨n, base, vaddr, hr, ha⟩ := ha
  obtain ⟨hn, rfl⟩ := reach hr
  obtain rfl : n = 2 := by omega
  exact inRam ha

theorem holdsTables : HoldsTables platform 0x4000 (decodeVmInfo sv39) tables world :=
  ⟨rfl, fun _ _ => rfl⟩

/-- The entries have their bits set, and memory stays as it is. -/
theorem along : Run.Along (fun s _ => HoldsTables platform 0x4000 (decodeVmInfo sv39) tables s.mem)
    (step (memIf platform)) start events := by
  have hmem : (step (memIf platform) start (.translate 0x2000 .load false ⟨false, false⟩)).2.mem.mem =
      world.mem := rfl
  exact ⟨holdsTables, holdsTables.congr ram hmem, trivial⟩

end StripPage

open StripPage in
/-- The run of the load that is repeated. -/
theorem sameAsCheriWalk_iff_stripPage :
    Run.Along (fun s e => SameAsWalk (memIf platform) tables (word platform) s e ↔ ¬Hidden tables s e)
      (step (memIf platform)) start events :=
  sameAsCheriWalk_iff (memIf platform) tables (word platform) _ start (pteMemory ram) rfl events along

open StripPage in
/-- There the walk tells to strip the tag, and the second call does not. -/
theorem not_sameAsCheriWalk_stripPage :
    PteMemory (memIf platform) (decodeVmInfo start.csrs.satp) tables (word platform)
      (HoldsTables platform 0x4000 (decodeVmInfo sv39) tables) ∧ start.tlb = RiscvVp.Mmu.Tlb.flush ∧
    Run.Along (fun s _ => HoldsTables platform 0x4000 (decodeVmInfo sv39) tables s.mem)
      (step (memIf platform)) start events ∧
    ¬Run.Along (SameAsWalk (memIf platform) tables (word platform)) (step (memIf platform)) start
      events := by
  refine ⟨pteMemory ram, rfl, along, ?_⟩
  rintro ⟨-, ⟨h, -⟩, -⟩
  have hne : (step (memIf platform) (Run.final (step (memIf platform)) start (events.take 1))
        (.translate 0x2000 .load false ⟨false, false⟩)).1 ≠
      some (walkResult (memIf platform) (Run.final (step (memIf platform)) start (events.take 1))
        0x2000 .load false ⟨false, false⟩).1 := by
    decide
  exact hne h

end Mmu

end RiscvVp.Cheri
