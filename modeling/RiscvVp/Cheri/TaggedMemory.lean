import Mathlib

/-!
# Tagged memory

`TaggedMemory` of `platform/common/tagged_memory.h`, and the direct windows onto it, `MemoryDMI` of
`core/common_cheriv9/dmi.h`.  Both write the bytes of the array and the vector of tags, which has one
bit for each granule of sixteen bytes.

A failed assertion, `vector::at` beyond the end and an index beyond the end end the simulation: the
outcome is `none`.  Places beyond the array are bytes of the host like any other.  The three-argument
`write_data` has no caller and is left out, as is `load_if`, which fills the memory before the run.
-/

namespace RiscvVp.Cheri

/-- `CLEN`, in bytes: the size of a capability in memory, for which there is one tag. -/
def clen : ℕ := 16

/-- Bytes of the host from some pointer on. -/
abbrev Bytes := ℕ → BitVec 8

/-- `memcpy(data + dst, src, n)`. -/
def memcpy (data : Bytes) (dst : ℕ) (src : Bytes) (n : ℕ) : Bytes :=
  fun a => if dst ≤ a ∧ a < dst + n then src (a - dst) else data a

/-- The bytes of an integer in memory. -/
def bytesOf {w : ℕ} (v : BitVec w) : Bytes := fun a => (v >>> (8 * a)).setWidth 8

/-- `TaggedMemory`: the bytes, and a tag for each granule of them. -/
structure TaggedMemory where
  size : BitVec 32
  data : Bytes
  tagBits : Vector Bool (size.toNat / clen)

namespace TaggedMemory

/-- The constructor, and `reset`. -/
def reset (size : BitVec 32) : TaggedMemory := ⟨size, fun _ => 0, Vector.replicate _ false⟩

/-- The tag of a granule; there is none beyond the last full one. -/
def tagged (m : TaggedMemory) (i : ℕ) : Bool := m.tagBits[i]?.getD false

/-- `tag_bits[i]`: the tag of a granule; the vector has no element for a granule that is not whole. -/
def getTag (m : TaggedMemory) (i : ℕ) : Option Bool := m.tagBits[i]?

/-- `tag_bits[i] = tag`: one tag is written, if there is such a granule. -/
def setTag (m : TaggedMemory) (i : ℕ) (tag : Bool) : Option TaggedMemory :=
  if h : i < m.size.toNat / clen then some { m with tagBits := m.tagBits.set i tag h } else none

/-- `write_data`, with a tag. -/
def writeData (m : TaggedMemory) (addr : BitVec 32) (src : Bytes) (numBytes : BitVec 32)
    (tag : Bool) : Option TaggedMemory :=
  if tag ∧ numBytes.toNat ≠ clen then none
  else if tag ∧ addr.toNat % clen ≠ 0 then none
  else if ¬addr + numBytes ≤ m.size then none
  else { m with data := memcpy m.data addr.toNat src numBytes.toNat }.setTag (addr.toNat / clen) tag

/-- `read_data`: the bytes and the tag. -/
def readData (m : TaggedMemory) (addr : BitVec 32) (dst : Bytes) (numBytes : BitVec 32) :
    Option (Bytes × Bool) :=
  if ¬addr + numBytes ≤ m.size then none
  else
    (m.getTag (addr.toNat / clen)).map fun tag =>
      (memcpy dst 0 (fun a => m.data (addr.toNat + a)) numBytes.toNat, tag)

end TaggedMemory

/-! ### Transactions -/

/-- `tlm_command`: what a transaction asks for. -/
inductive TlmCommand
  | read
  | write
  | ignore
  deriving DecidableEq, Repr

/-- A `tlm_generic_payload`.  `ext` is the tag of its `tlm_ext_tag`, if it has one. -/
structure TlmPayload where
  command : TlmCommand
  address : BitVec 64
  data : Bytes
  length : BitVec 32
  ext : Option Bool

/-- `transport_dbg`, which `transport` calls; the address is truncated to `unsigned`. -/
def TaggedMemory.transportDbg (m : TaggedMemory) (trans : TlmPayload) :
    Option (TaggedMemory × TlmPayload) :=
  let addr := trans.address.setWidth 32
  match trans.ext with
  | none => none
  | some tag =>
    if ¬addr < m.size then none
    else
      match trans.command with
      | .write => (m.writeData addr trans.data trans.length tag).map fun m' => (m', trans)
      | .read =>
        (m.readData addr trans.data trans.length).map fun r =>
          (m, { trans with data := r.1, ext := some r.2 })
      | .ignore => none

/-! ### Direct access -/

/-- `MemoryDMI` on the array and the tags of a `TaggedMemory`; the constructors assert that the range is
not empty and does not wrap around. -/
structure MemoryDMI where
  start : BitVec 64
  size : BitVec 64
  nonempty : start < start + size

namespace MemoryDMI

/-- The member `end`: the first address behind the range. -/
def stop (d : MemoryDMI) : BitVec 64 := d.start + d.size

/-- `contains`: the address lies in the range; how far an access from there reaches is not looked at. -/
def contains (d : MemoryDMI) (addr : BitVec 64) : Bool :=
  decide (d.start ≤ addr) && decide (addr < d.stop)

/-- `addr - start`: where in the memory the address lies. -/
def offset (d : MemoryDMI) (addr : BitVec 64) : ℕ := (addr - d.start).toNat

/-- `get_mem_ptr_to_global_addr`, for `sizeof(T) = n`: an offset into the array. -/
def getMemPtrToGlobalAddr (d : MemoryDMI) (addr : BitVec 64) (n : ℕ) : Option ℕ :=
  if d.contains addr ∧ addr + BitVec.ofNat 64 n ≤ d.stop then some (d.offset addr) else none

/-- `get_tag_from_addr`: the tag of the granule that the address lies in. -/
def getTagFromAddr (d : MemoryDMI) (m : TaggedMemory) (addr : BitVec 64) : Option Bool :=
  m.getTag (d.offset addr / clen)

/-- `set_tag_for_addr`. -/
def setTagForAddr (d : MemoryDMI) (m : TaggedMemory) (addr : BitVec 64) (tag : Bool) :
    Option TaggedMemory :=
  m.setTag (d.offset addr / clen) tag

/-- `load(addr, p_data)`: the bytes and the tag. -/
def loadTagged (d : MemoryDMI) (m : TaggedMemory) (addr : BitVec 64) : Option (Bytes × Bool) := do
  let src ← d.getMemPtrToGlobalAddr addr clen
  let tag ← d.getTagFromAddr m addr
  return (fun a => m.data (src + a), tag)

/-- `store`, for an integral type with `sizeof(T) = n`. -/
def store (d : MemoryDMI) (m : TaggedMemory) (addr : BitVec 64) (n : ℕ) (value : BitVec (8 * n)) :
    Option TaggedMemory := do
  let dst ← d.getMemPtrToGlobalAddr addr n
  d.setTagForAddr { m with data := memcpy m.data dst (bytesOf value) n } addr false

/-- `store(addr, data, tag)`. -/
def storeTagged (d : MemoryDMI) (m : TaggedMemory) (addr : BitVec 64) (data : BitVec 128)
    (tag : Bool) : Option TaggedMemory := do
  let dst ← d.getMemPtrToGlobalAddr addr clen
  d.setTagForAddr { m with data := memcpy m.data dst (bytesOf data) clen } addr tag

end MemoryDMI

end RiscvVp.Cheri
