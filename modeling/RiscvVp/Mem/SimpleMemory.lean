import RiscvVp.Lib.Cells
import RiscvVp.Mem.Basic

/-!
# A memory of the platform

`SimpleMemory` (`platform/common/memory.h`), an array of host memory, with its two ways in: TLM
transactions, and the accesses of a `MemoryDMI` (`core/common/dmi.h`) that has been made for the same array.
A function whose assertion fails has no result.  `transport` does what `transport_dbg` does and adds a delay,
which is not part of the model.
-/

namespace RiscvVp

namespace Host

/-- `memcpy(dst, src, n)`, where the source is not in simulated memory. -/
def memcpy (m : Host) (dst : HostAddr) (src : ℕ → BitVec 8) (n : ℕ) : Host := fun a =>
  if (a - dst).toNat < n then src (a - dst).toNat else m a

/-- The bytes that `memcpy` copies from an address. -/
def bytesAt (m : Host) (src : HostAddr) (n : ℕ) : List (BitVec 8) :=
  (List.range n).map fun i => m (src + BitVec.ofNat 64 i)

end Host

/-! ### `SimpleMemory` -/

/-- `SimpleMemory`: the array `data` and its size. -/
structure SimpleMemory where
  data : HostAddr
  size : BitVec 64

namespace SimpleMemory

/-- `tlm_command`: what a transaction asks for. -/
inductive Command
  | read
  | write
  | ignore
  deriving DecidableEq, Repr

/-- What a transaction carries; the length of its data is an `unsigned`. -/
structure Payload where
  command : Command
  address : BitVec 64
  data : List (BitVec 8)
  lengthFits : data.length < 2 ^ 32

variable (m : SimpleMemory)

/-- `load_data`: bytes of an image are copied into the memory, if they fit. -/
def loadData (src : ℕ → BitVec 8) (dstAddr n : BitVec 64) (h : Host) : Option Host :=
  if dstAddr + n ≤ m.size then some (h.memcpy (m.data + dstAddr) src n.toNat) else none

/-- `load_zero`: bytes of the memory are set to zero, if they lie in it. -/
def loadZero (dstAddr n : BitVec 64) (h : Host) : Option Host :=
  if dstAddr + n ≤ m.size then some (h.memcpy (m.data + dstAddr) (fun _ => 0) n.toNat) else none

/-- `write_data`: the bytes of a transaction are copied into the memory; the assertion is on the end of the
range alone. -/
def writeData (addr : BitVec 64) (src : List (BitVec 8)) (h : Host) : Option Host :=
  if addr + BitVec.ofNat 64 src.length ≤ m.size then
    some (h.memcpy (m.data + addr) (fun i => src.getD i 0) src.length)
  else none

/-- `read_data`: bytes of the memory for a transaction, with the same assertion. -/
def readData (addr : BitVec 64) (numBytes : ℕ) (h : Host) : Option (List (BitVec 8)) :=
  if addr + BitVec.ofNat 64 numBytes ≤ m.size then some (h.bytesAt (m.data + addr) numBytes) else none

/-- `transport_dbg`: the data of the transaction afterwards, and host memory.  The address is kept in an
`unsigned`. -/
def transportDbg (trans : Payload) (h : Host) : Option (List (BitVec 8) × Host) :=
  let addr := (trans.address.setWidth 32).setWidth 64
  if addr < m.size then
    match trans.command with
    | .write => (m.writeData addr trans.data h).map fun h' => (trans.data, h')
    | .read => (m.readData addr trans.data.length h).map fun data => (data, h)
    | .ignore => none
  else none

end SimpleMemory

/-! ### `MemoryDMI` -/

namespace MemoryDMI

variable (d : MemoryDMI)

/-- `get_mem_ptr_to_global_addr<T>` with its assertions. -/
def memPtr (addr : BitVec 64) (n : Width) : Option HostAddr :=
  if d.contains addr ∧ addr + BitVec.ofNat 64 n.bytes ≤ d.stop then some (d.getMemPtrToGlobalAddr addr)
  else none

/-- `load<T>`: a value through the pointer to the memory, if all of it lies in the range. -/
def load (addr : BitVec 64) (n : Width) (h : Host) : Option (BitVec 64) :=
  (d.memPtr addr n).map fun src => h.load src n.bytes

/-- `store<T>`: a value is stored through this pointer. -/
def store (addr : BitVec 64) (n : Width) (value : BitVec 64) (h : Host) : Option Host :=
  (d.memPtr addr n).map fun dst => h.store dst n.bytes value

end MemoryDMI

/-! ### Runs -/

namespace SimpleMemory

/-- An access to the memory: a transaction, whose address is an offset, or a DMI access, whose address is
one of the bus. -/
inductive Access
  | tlm (trans : Payload)
  | dmiLoad (addr : BitVec 64) (n : Width)
  | dmiStore (addr : BitVec 64) (n : Width) (value : BitVec 64)

/-- The bytes of an integer in memory. -/
def bytesOfValue (n : ℕ) (v : BitVec 64) : List (BitVec 8) :=
  (List.range n).map fun i => (v >>> (8 * i)).setWidth 8

/-- The bytes that an access reads, and host memory after it. -/
def access (m : SimpleMemory) (d : MemoryDMI) : Access → Host → Option (List (BitVec 8) × Host)
  | .tlm p, h => (m.transportDbg p h).map fun r => (if p.command = .read then r.1 else [], r.2)
  | .dmiLoad addr n, h => (d.load addr n h).map fun v => (bytesOfValue n.bytes v, h)
  | .dmiStore addr n value, h => (d.store addr n value h).map fun h' => ([], h')

/-- A sequence of accesses: what each of them reads, and host memory at the end. -/
def run (m : SimpleMemory) (d : MemoryDMI) : List Access → Host → Option (List (List (BitVec 8)) × Host) :=
  Cells.runWith (m.access d)

end SimpleMemory

end RiscvVp
