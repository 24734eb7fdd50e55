import RiscvVp.Mem.Equiv.Ram
import RiscvVp.Mem.SimpleMemory

/-!
# The two ways into a memory

Transactions and DMI accesses to one `SimpleMemory` read what was last written, by either of them, as long as
the offsets of the transactions are below `2 ^ 32` (`SimpleMemory.asOneArray`).  `transport_dbg` keeps the
offset in an `unsigned`, so a transaction with a greater offset goes to another place in the array than the
DMI access to the same byte.
-/

namespace RiscvVp

/-! ### Copying -/

namespace Host

variable (h : Host) (a : HostAddr) {off i n : ℕ}

/-- The distance of two bytes of an array. -/
theorem toNat_sub_of_le (hle : off ≤ i) (hi : i < 2 ^ 64) :
    (a + BitVec.ofNat 64 i - (a + BitVec.ofNat 64 off)).toNat = i - off := by
  have hsub : a + BitVec.ofNat 64 i - (a + BitVec.ofNat 64 off) = BitVec.ofNat 64 (i - off) := by
    bv_omega
  rw [hsub, BitVec.toNat_ofNat, Nat.mod_eq_of_lt (by omega)]

/-- The distance to a byte before the copied ones wraps around to a number beyond them. -/
theorem toNat_sub_of_lt (hlt : i < off) (hoff : off ≤ 2 ^ 64) :
    (a + BitVec.ofNat 64 i - (a + BitVec.ofNat 64 off)).toNat = 2 ^ 64 - (off - i) := by
  bv_omega

/-- The bytes that `memcpy` writes are those of the source, one after the other. -/
theorem memcpy_of_mem (src : ℕ → BitVec 8) (hle : off ≤ i) (hlt : i < off + n) (hi : i < 2 ^ 64) :
    h.memcpy (a + BitVec.ofNat 64 off) src n (a + BitVec.ofNat 64 i) = src (i - off) := by
  rw [memcpy, toNat_sub_of_le a hle hi, if_pos (by omega)]

/-- The bytes that `memcpy` keeps are those before and after the ones it writes. -/
theorem memcpy_of_not_mem (src : ℕ → BitVec 8) (hout : i < off ∨ off + n ≤ i) (hi : i < 2 ^ 64)
    (hn : off + n ≤ 2 ^ 64) :
    h.memcpy (a + BitVec.ofNat 64 off) src n (a + BitVec.ofNat 64 i) = h (a + BitVec.ofNat 64 i) := by
  rw [memcpy, if_neg]
  rcases hout with hlt | hle
  · rw [toNat_sub_of_lt a hlt (by omega)]
    omega
  · rw [toNat_sub_of_le a (by omega) hi]
    omega

/-- The bytes of an integer that has been loaded. -/
theorem load_shift (hn : n ≤ 8) (hi : i < n) :
    (h.load a n >>> (8 * i)).setWidth 8 = h (a + BitVec.ofNat 64 i) := by
  induction n generalizing a i with
  | zero => omega
  | succ n ih =>
    rcases i with - | i
    · apply BitVec.eq_of_getLsbD_eq
      intro k hk
      simp [load, hk]
    · have hrest := ih (a + 1) (by omega) (show i < n by omega)
      rw [add_one_add] at hrest
      rw [← hrest]
      apply BitVec.eq_of_getLsbD_eq
      intro k hk
      have h64 : 8 * (i + 1) + k < 64 := by omega
      have hk8 : ¬ 8 * (i + 1) + k < 8 := by omega
      have hsub : 8 * (i + 1) + k - 8 = 8 * i + k := by omega
      have hzero : (h a).getLsbD (8 * (i + 1) + k) = false := BitVec.getLsbD_of_ge _ _ (by omega)
      simp only [BitVec.getLsbD_setWidth, BitVec.getLsbD_ushiftRight, load, BitVec.getLsbD_or,
        BitVec.getLsbD_shiftLeft, hk, h64, hk8, hsub, hzero, decide_true, decide_false, Bool.true_and,
        Bool.not_false, Bool.or_false]

end Host

/-! ### The array -/

namespace SimpleMemory

variable {m : SimpleMemory} {d : MemoryDMI} {h : Host} {c : Cells (BitVec 8)}

/-- The bytes of the memory. -/
def contents (m : SimpleMemory) (h : Host) : Cells (BitVec 8) := fun i => h (m.data + BitVec.ofNat 64 i)

/-- The memory holds the cells of an array. -/
def Holds (m : SimpleMemory) (h : Host) (c : Cells (BitVec 8)) : Prop :=
  ∀ i < m.size.toNat, m.contents h i = c i

theorem holds_contents (m : SimpleMemory) (h : Host) : m.Holds h (m.contents h) := fun _ _ => rfl

/-- Copying bytes into the memory is a write to the array. -/
theorem Holds.memcpy (hc : m.Holds h c) {off : ℕ} {data : List (BitVec 8)} {src : ℕ → BitVec 8}
    (hsrc : ∀ i < data.length, src i = data.getD i 0) (hle : off + data.length ≤ m.size.toNat) :
    m.Holds (h.memcpy (m.data + BitVec.ofNat 64 off) src data.length) (c.write off data) := by
  intro i hi
  have hsize := m.size.isLt
  by_cases hin : off ≤ i ∧ i < off + data.length
  · rw [contents, Host.memcpy_of_mem h m.data src hin.1 hin.2 (by omega), hsrc _ (by omega),
      c.write_of_mem hin.1 hin.2 0]
  · rw [contents, Host.memcpy_of_not_mem h m.data src (by omega) (by omega) (by omega),
      c.write_of_not_mem (by omega)]
    exact hc i hi

/-- Copying bytes out of the memory is a read of the array. -/
theorem Holds.bytesAt (hc : m.Holds h c) {off n : ℕ} (hle : off + n ≤ m.size.toNat) :
    h.bytesAt (m.data + BitVec.ofNat 64 off) n = c.read off n := by
  refine List.map_congr_left fun i hi => ?_
  have hin : off + i < m.size.toNat := by
    have := List.mem_range.mp hi
    omega
  rw [BitVec.add_assoc, ← BitVec.ofNat_add]
  exact hc _ hin

/-! ### Transactions -/

theorem writeData_spec (hc : m.Holds h c) {addr : BitVec 64} {src : List (BitVec 8)}
    (hle : addr.toNat + src.length ≤ m.size.toNat) :
    ∃ h', m.writeData addr src h = some h' ∧ m.Holds h' (c.write addr.toNat src) := by
  have hsize := m.size.isLt
  have hcheck : addr + BitVec.ofNat 64 src.length ≤ m.size := by
    rw [BitVec.le_def, BitVec.toNat_add, BitVec.toNat_ofNat]
    omega
  refine ⟨_, if_pos hcheck, ?_⟩
  have hw := hc.memcpy (fun i _ => rfl) hle
  rwa [BitVec.ofNat_toNat, BitVec.setWidth_eq] at hw

theorem readData_spec (hc : m.Holds h c) {addr : BitVec 64} {n : ℕ}
    (hle : addr.toNat + n ≤ m.size.toNat) : m.readData addr n h = some (c.read addr.toNat n) := by
  have hsize := m.size.isLt
  have hcheck : addr + BitVec.ofNat 64 n ≤ m.size := by
    rw [BitVec.le_def, BitVec.toNat_add, BitVec.toNat_ofNat]
    omega
  rw [readData, if_pos hcheck, ← hc.bytesAt hle, BitVec.ofNat_toNat, BitVec.setWidth_eq]

namespace Payload

/-- The transaction with the offset that `transport_dbg` keeps of its own. -/
def truncated (p : Payload) : Payload := { p with address := (p.address.setWidth 32).setWidth 64 }

theorem toNat_truncated_address (p : Payload) :
    p.truncated.address.toNat = p.address.toNat % 2 ^ 32 := by
  rw [truncated, BitVec.toNat_setWidth, BitVec.toNat_setWidth]
  omega

theorem truncated_of_lt {p : Payload} (hp : p.address.toNat < 2 ^ 32) : p.truncated = p := by
  have haddr : p.truncated.address = p.address := by
    apply BitVec.eq_of_toNat_eq
    rw [toNat_truncated_address, Nat.mod_eq_of_lt hp]
  obtain ⟨command, address, data, lengthFits⟩ := p
  exact congrArg (fun x => Payload.mk command x data lengthFits) haddr

end Payload

/-! ### Loading -/

/-- All of host memory holds the cells of an array that begins with the memory. -/
def HoldsAll (m : SimpleMemory) (h : Host) (c : Cells (BitVec 8)) : Prop :=
  ∀ i < 2 ^ 64, m.contents h i = c i

theorem loadData_spec (hc : m.HoldsAll h c) (src : ℕ → BitVec 8) {dstAddr n : BitVec 64}
    (hle : dstAddr.toNat + n.toNat ≤ m.size.toNat) :
    ∃ h', m.loadData src dstAddr n h = some h' ∧ m.HoldsAll h' (c.put ⟨dstAddr.toNat, n.toNat, src⟩) := by
  have hsize := m.size.isLt
  have hcheck : dstAddr + n ≤ m.size := by
    rw [BitVec.le_def, BitVec.toNat_add]
    omega
  refine ⟨_, if_pos hcheck, fun i hi => ?_⟩
  have hdst : m.data + dstAddr = m.data + BitVec.ofNat 64 dstAddr.toNat := by
    rw [BitVec.ofNat_toNat, BitVec.setWidth_eq]
  rw [contents, hdst, Cells.put_mk]
  split_ifs with hin
  · exact Host.memcpy_of_mem h m.data src hin.1 hin.2 hi
  · rw [Host.memcpy_of_not_mem h m.data src (by omega) hi (by omega)]
    exact hc i hi

theorem loadZero_spec (hc : m.HoldsAll h c) {dstAddr n : BitVec 64}
    (hle : dstAddr.toNat + n.toNat ≤ m.size.toNat) :
    ∃ h', m.loadZero dstAddr n h = some h' ∧
      m.HoldsAll h' (c.put ⟨dstAddr.toNat, n.toNat, fun _ => 0⟩) :=
  loadData_spec hc _ hle

/-! ### DMI accesses -/

/-- The `MemoryDMI` has been created for the memory. -/
def MappedBy (m : SimpleMemory) (d : MemoryDMI) : Prop := d.mem = m.data ∧ d.size = m.size

/-- A mapping ends before the address space does. -/
theorem MappedBy.start_add_size_lt (hd : m.MappedBy d) : d.start.toNat + m.size.toNat < 2 ^ 64 := by
  have hne := BitVec.lt_def.mp d.nonempty
  have hs := d.start.isLt
  have hz := m.size.isLt
  rw [hd.2, BitVec.toNat_add] at hne
  omega

theorem memPtr_spec (hd : m.MappedBy d) {addr : BitVec 64} {n : Width} (hbase : d.start.toNat ≤ addr.toNat)
    (hle : addr.toNat - d.start.toNat + n.bytes ≤ m.size.toNat) :
    d.memPtr addr n = some (m.data + BitVec.ofNat 64 (addr.toNat - d.start.toNat)) := by
  have hend := hd.start_add_size_lt
  have hpos : 0 < n.bytes := by cases n <;> decide
  have hstop : d.stop.toNat = d.start.toNat + m.size.toNat := by
    rw [MemoryDMI.stop, hd.2, BitVec.toNat_add]
    omega
  have hcontains : d.contains addr = true := by
    rw [MemoryDMI.contains, Bool.and_eq_true, decide_eq_true_iff, decide_eq_true_iff, BitVec.le_def,
      BitVec.lt_def]
    omega
  have hlast : addr + BitVec.ofNat 64 n.bytes ≤ d.stop := by
    rw [BitVec.le_def, BitVec.toNat_add, BitVec.toNat_ofNat]
    omega
  have hsub : addr - d.start = BitVec.ofNat 64 (addr.toNat - d.start.toNat) := by bv_omega
  rw [MemoryDMI.memPtr, if_pos ⟨hcontains, hlast⟩, MemoryDMI.getMemPtrToGlobalAddr, hd.1, hsub]

theorem bytesOfValue_load (a : HostAddr) (n : Width) :
    bytesOfValue n.bytes (h.load a n.bytes) = h.bytesAt a n.bytes := by
  have hn : n.bytes ≤ 8 := by cases n <;> decide
  exact List.map_congr_left fun i hi => Host.load_shift h a hn (List.mem_range.mp hi)

theorem store_eq_memcpy (a : HostAddr) (n : Width) (v : BitVec 64) :
    h.store a n.bytes v = h.memcpy a (fun i => (v >>> (8 * i)).setWidth 8) n.bytes := by
  have hn : n.bytes < 2 ^ 64 := by cases n <;> decide
  funext b
  exact Host.store_apply h a v hn b

/-- A load reads the array at the offset of the address: the DMI pointer and the array agree. -/
theorem load_spec (hd : m.MappedBy d) (hc : m.Holds h c) {addr : BitVec 64} {n : Width}
    (hbase : d.start.toNat ≤ addr.toNat) (hle : addr.toNat - d.start.toNat + n.bytes ≤ m.size.toNat) :
    (d.load addr n h).map (bytesOfValue n.bytes) = some (c.read (addr.toNat - d.start.toNat) n.bytes) := by
  rw [MemoryDMI.load, memPtr_spec hd hbase hle, Option.map_some, Option.map_some, bytesOfValue_load,
    hc.bytesAt hle]

/-- A store writes the array at the offset of the address, and host memory holds the new array. -/
theorem store_spec (hd : m.MappedBy d) (hc : m.Holds h c) {addr : BitVec 64} {n : Width} (v : BitVec 64)
    (hbase : d.start.toNat ≤ addr.toNat) (hle : addr.toNat - d.start.toNat + n.bytes ≤ m.size.toNat) :
    ∃ h', d.store addr n v h = some h' ∧
      m.Holds h' (c.write (addr.toNat - d.start.toNat) (bytesOfValue n.bytes v)) := by
  have hlen : (bytesOfValue n.bytes v).length = n.bytes := by
    rw [bytesOfValue, List.length_map, List.length_range]
  have hsrc : ∀ i < (bytesOfValue n.bytes v).length,
      (v >>> (8 * i)).setWidth 8 = (bytesOfValue n.bytes v).getD i 0 := by
    intro i hi
    rw [List.getD_eq_getElem _ _ hi]
    simp [bytesOfValue]
  have hw := hc.memcpy hsrc (hlen.symm ▸ hle)
  rw [hlen, ← store_eq_memcpy] at hw
  refine ⟨_, ?_, hw⟩
  rw [MemoryDMI.store, memPtr_spec hd hbase hle, Option.map_some]

/-! ### Accesses as operations on the array -/

namespace Access

/-- What an access to a memory that is mapped at `base` does to the array. -/
def op (base : BitVec 64) : Access → Cells.Op (BitVec 8)
  | .tlm p =>
    if p.command = .write then .write p.address.toNat p.data else .read p.address.toNat p.data.length
  | .dmiLoad addr n => .read (addr.toNat - base.toNat) n.bytes
  | .dmiStore addr n value => .write (addr.toNat - base.toNat) (bytesOfValue n.bytes value)

/-- A read or a write within the memory. -/
def InRange (m : SimpleMemory) (base : BitVec 64) : Access → Prop
  | .tlm p =>
    p.command ≠ .ignore ∧ p.address.toNat < m.size.toNat ∧ p.address.toNat + p.data.length ≤ m.size.toNat
  | .dmiLoad addr n => base.toNat ≤ addr.toNat ∧ addr.toNat - base.toNat + n.bytes ≤ m.size.toNat
  | .dmiStore addr n _ => base.toNat ≤ addr.toNat ∧ addr.toNat - base.toNat + n.bytes ≤ m.size.toNat

/-- The offset of a transaction fits into an `unsigned`. -/
def Fits : Access → Prop
  | .tlm p => p.address.toNat < 2 ^ 32
  | .dmiLoad _ _ => True
  | .dmiStore _ _ _ => True

instance (m : SimpleMemory) (base : BitVec 64) : (a : Access) → Decidable (a.InRange m base)
  | .tlm _ => instDecidableAnd
  | .dmiLoad _ _ => instDecidableAnd
  | .dmiStore _ _ _ => instDecidableAnd

instance : (a : Access) → Decidable a.Fits
  | .tlm _ => Nat.decLt _ _
  | .dmiLoad _ _ => instDecidableTrue
  | .dmiStore _ _ _ => instDecidableTrue

end Access

theorem inRange_truncated {p : Payload} {base : BitVec 64} (hin : (Access.tlm p).InRange m base) :
    (Access.tlm p.truncated).InRange m base := by
  obtain ⟨hcmd, hlt, hle⟩ := hin
  have hmod := Nat.mod_le p.address.toNat (2 ^ 32)
  refine ⟨hcmd, ?_, ?_⟩
  · rw [p.toNat_truncated_address]
    omega
  · rw [p.toNat_truncated_address]
    show _ + p.data.length ≤ _
    omega

/-- A transaction is an operation on the array, at the offset that is left of its own. -/
theorem tlm_spec (hc : m.Holds h c) {p : Payload} {base : BitVec 64}
    (hin : (Access.tlm p).InRange m base) :
    ∃ h', m.access d (.tlm p) h = some ((c.apply ((Access.tlm p.truncated).op base)).1, h') ∧
      m.Holds h' (c.apply ((Access.tlm p.truncated).op base)).2 := by
  obtain ⟨hcmd, hlt, hle⟩ := inRange_truncated hin
  obtain ⟨command, address, data, lengthFits⟩ := p
  dsimp only [Payload.truncated] at hcmd hlt hle
  cases command with
  | read =>
    refine ⟨h, ?_, hc⟩
    simp only [access, transportDbg, BitVec.lt_def, if_pos hlt, readData_spec hc hle]
    rfl
  | write =>
    obtain ⟨h', hw, hc'⟩ := writeData_spec hc hle
    refine ⟨h', ?_, hc'⟩
    simp only [access, transportDbg, BitVec.lt_def, if_pos hlt, hw]
    rfl
  | ignore => exact absurd rfl hcmd

/-- An access whose offset fits is an operation on the array. -/
theorem access_spec (hd : m.MappedBy d) (hc : m.Holds h c) {a : Access} (hin : a.InRange m d.start)
    (hfit : a.Fits) :
    ∃ h', m.access d a h = some ((c.apply (a.op d.start)).1, h') ∧
      m.Holds h' (c.apply (a.op d.start)).2 := by
  cases a with
  | tlm p =>
    have hp := tlm_spec (d := d) hc hin
    rwa [Payload.truncated_of_lt hfit] at hp
  | dmiLoad addr n =>
    obtain ⟨v, hv, hread⟩ := Option.map_eq_some_iff.mp (load_spec hd hc hin.1 hin.2)
    refine ⟨h, ?_, hc⟩
    rw [access, hv, Option.map_some, hread]
    rfl
  | dmiStore addr n value =>
    obtain ⟨h', hs, hc'⟩ := store_spec hd hc value hin.1 hin.2
    refine ⟨h', ?_, hc'⟩
    rw [access, hs]
    rfl

/-! ### Whole runs -/

/-- Every read of a sequence of accesses returns what an array of bytes in place of the memory would. -/
def AsOneArray (m : SimpleMemory) (d : MemoryDMI) (h : Host) (accesses : List Access) : Prop :=
  ∃ h', m.run d accesses h = some ((m.contents h).run (accesses.map (Access.op d.start)), h')

theorem asOneArray_of_fits (hd : m.MappedBy d) {accesses : List Access}
    (hin : ∀ a ∈ accesses, a.InRange m d.start) (hfit : ∀ a ∈ accesses, a.Fits) :
    m.AsOneArray d h accesses := by
  refine Cells.runWith_eq_run (m.access d) (Access.op d.start) m.Holds ?_ (holds_contents m h)
  intro a ha h₁ c₁ hc
  exact access_spec hd hc (hin a ha) (hfit a ha)

/-- The offsets in a memory of at most `2 ^ 32` bytes fit into an `unsigned`. -/
theorem fits_of_size_le (hsize : m.size.toNat ≤ 2 ^ 32) {a : Access} {base : BitVec 64}
    (hin : a.InRange m base) : a.Fits := by
  cases a with
  | tlm p => exact lt_of_lt_of_le hin.2.1 hsize
  | dmiLoad addr n => trivial
  | dmiStore addr n value => trivial

/-- A transaction that writes a byte at offset `2 ^ 32`. -/
def highWrite : Payload where
  command := .write
  address := 1#64 <<< 32
  data := [1]
  lengthFits := by decide

/-- A write at offset `2 ^ 32`, and a load of the byte that should have been written. -/
def highAccesses (base : BitVec 64) : List Access := [.tlm highWrite, .dmiLoad (base + 1#64 <<< 32) .byte]

theorem toNat_add_high (hd : m.MappedBy d) (hsize : 2 ^ 32 < m.size.toNat) :
    (d.start + 1#64 <<< 32).toNat = d.start.toNat + 2 ^ 32 := by
  have hend := hd.start_add_size_lt
  rw [BitVec.toNat_add, show (1#64 <<< 32).toNat = 2 ^ 32 by decide]
  omega

theorem inRange_highAccesses (hd : m.MappedBy d) (hsize : 2 ^ 32 < m.size.toNat) :
    ∀ a ∈ highAccesses d.start, a.InRange m d.start := by
  have haddr : highWrite.address.toNat = 2 ^ 32 := by decide
  intro a ha
  rcases List.mem_pair.mp ha with rfl | rfl
  · refine ⟨by decide, ?_, ?_⟩
    · omega
    · show highWrite.address.toNat + 1 ≤ _
      omega
  · show _ ∧ _
    rw [toNat_add_high hd hsize]
    refine ⟨by omega, ?_⟩
    show _ + 1 ≤ _
    omega

/-- The transaction has written the first byte of the memory, so the load reads a zero. -/
theorem not_asOneArray_highAccesses (hd : m.MappedBy d) (hsize : 2 ^ 32 < m.size.toNat) :
    ¬ m.AsOneArray d (fun _ => 0) (highAccesses d.start) := by
  rintro ⟨h', hrun⟩
  have hin := inRange_highAccesses hd hsize
  obtain ⟨h₁, hwrite, hc₁⟩ :=
    tlm_spec (d := d) (holds_contents m fun _ => 0) (hin _ List.mem_cons_self)
  have hload : (Access.dmiLoad (d.start + 1#64 <<< 32) .byte).InRange m d.start :=
    hin _ (List.mem_cons_of_mem _ List.mem_cons_self)
  obtain ⟨h₂, hread, -⟩ := access_spec hd hc₁ hload trivial
  rw [run, highAccesses] at hrun
  simp only [Cells.runWith, hwrite, hread, Option.bind_some, Option.map_some, Option.some.injEq,
    Prod.mk.injEq, List.map, Cells.run, List.cons.injEq] at hrun
  have hoff : (d.start + 1#64 <<< 32).toNat - d.start.toNat + 0 = 2 ^ 32 := by
    rw [toNat_add_high hd hsize]
    omega
  have hsame : Cells.write (fun _ => 0) highWrite.truncated.address.toNat [(1 : BitVec 8)]
      ((d.start + 1#64 <<< 32).toNat - d.start.toNat + 0) =
      Cells.write (fun _ => 0) highWrite.address.toNat [(1 : BitVec 8)]
        ((d.start + 1#64 <<< 32).toNat - d.start.toNat + 0) := (List.cons.inj hrun.1.2.1).1
  rw [hoff, Cells.write_of_not_mem _ (Or.inr (by decide)),
    Cells.write_of_mem _ (by decide) (by decide) 0] at hsame
  exact absurd hsame (by decide)

/-- **Two ways into one array.**  In every sequence of accesses whose transactions have offsets below
`2 ^ 32`, every read returns the bytes that were last written, whichever way.  In every sequence this is so
exactly for the memories of at most `2 ^ 32` bytes. -/
theorem tlm_agrees_with_dmi (hd : m.MappedBy d) :
    (∀ h accesses, (∀ a ∈ accesses, a.InRange m d.start) → (∀ a ∈ accesses, a.Fits) →
      m.AsOneArray d h accesses) ∧
    (m.size.toNat ≤ 2 ^ 32 ↔
      ∀ h accesses, (∀ a ∈ accesses, a.InRange m d.start) → m.AsOneArray d h accesses) := by
  refine ⟨fun h accesses hin hfit => asOneArray_of_fits hd hin hfit, fun hsize h accesses hin => ?_,
    fun hall => ?_⟩
  · exact asOneArray_of_fits hd hin fun a ha => fits_of_size_le hsize (hin a ha)
  · by_contra hsize
    exact not_asOneArray_highAccesses hd (by omega) (hall _ _ (inRange_highAccesses hd (by omega)))

/-- A small memory. -/
def small : SimpleMemory where
  data := 0x10000
  size := 16

theorem nonempty_small : (0x80000000 : BitVec 64) < 0x80000000 + 16 := by decide

/-- The small memory, mapped. -/
def smallDMI : MemoryDMI where
  mem := 0x10000
  start := 0x80000000
  size := 16
  nonempty := nonempty_small

/-- Transactions and DMI accesses to the small memory. -/
def smallAccesses : List Access :=
  [.tlm ⟨.write, 4, [1, 2, 3], by decide⟩, .dmiLoad 0x80000004 .half, .dmiStore 0x80000005 .byte 9,
    .tlm ⟨.read, 3, [0, 0, 0, 0], by decide⟩]

theorem tlm_agrees_with_dmi_small :
    small.AsOneArray smallDMI (fun _ => 7) smallAccesses ∧
      (small.run smallDMI smallAccesses fun _ => 7).map (·.1) = some [[], [1, 2], [], [7, 1, 9, 3]] :=
  ⟨(tlm_agrees_with_dmi ⟨rfl, rfl⟩).1 _ _ (by decide) (by decide), by decide⟩

/-- A memory of `2 ^ 32 + 8` bytes. -/
def large : SimpleMemory where
  data := 0x10000
  size := 0x100000008

theorem nonempty_large : (0x80000000 : BitVec 64) < 0x80000000 + 0x100000008 := by decide

/-- The large memory, mapped. -/
def largeDMI : MemoryDMI where
  mem := 0x10000
  start := 0x80000000
  size := 0x100000008
  nonempty := nonempty_large

/-- In a large memory the two ways do not agree. -/
theorem not_tlm_agrees_with_dmi : ¬ ∀ (m : SimpleMemory) (d : MemoryDMI), m.MappedBy d →
    ∀ h accesses, (∀ a ∈ accesses, a.InRange m d.start) → m.AsOneArray d h accesses := by
  intro hall
  have hd : large.MappedBy largeDMI := ⟨rfl, rfl⟩
  have hsize : 2 ^ 32 < large.size.toNat := by decide
  exact not_asOneArray_highAccesses hd hsize (hall _ _ hd _ _ (inRange_highAccesses hd hsize))

end SimpleMemory

end RiscvVp
