import RiscvVp.Gdb.Server

/-!
# Memory behind the debug port

What `GDBServer` and `DebugMemoryInterface` find behind `transport_dbg` and `v2p`: a memory of bytes, and
for each hart the pages that its MMU maps, or no MMU.  `touched` lists the physical addresses of the bytes
that the debug transactions read or wrote, in the order of the data.
-/

namespace RiscvVp.Gdb

/-- The memory behind the debug port. -/
structure DbgMemory where
  ram : BitVec 64 → BitVec 8
  touched : List (BitVec 64)

/-- The addresses of the bytes of a transaction. -/
def addresses (addr : BitVec 64) (n : ℕ) : List (BitVec 64) :=
  (List.range n).map fun i => addr + BitVec.ofNat 64 i

/-- `transport_dbg` of a memory that covers the range. -/
def DbgMemory.transportDbg (addr : BitVec 64) (n : ℕ) (data : Option (List (BitVec 8)))
    (m : DbgMemory) : Except Fault DbgResponse × DbgMemory :=
  match data with
  | none => (.ok ⟨n, false, (addresses addr n).map m.ram⟩,
      { m with touched := m.touched ++ addresses addr n })
  | some bytes => (.ok ⟨n, false, []⟩,
      { ram := fun a => if (a - addr).toNat < n then bytes.getD (a - addr).toNat 0 else m.ram a
        touched := m.touched ++ addresses addr n })

/-- The pages that an MMU maps: physical pages for virtual ones, or none where the access faults. -/
abbrev PageMap := MemoryAccessType → BitVec 52 → Option (BitVec 52)

/-- The page of an address. -/
def pageNo (a : BitVec 64) : BitVec 52 := BitVec.ofNat 52 (a.toNat / 4096)

/-- An address in a page. -/
def inPage (page : BitVec 52) (a : BitVec 64) : BitVec 64 :=
  BitVec.ofNat 64 (page.toNat * 4096 + a.toNat % 4096)

/-- The physical address of a virtual one. -/
def PageMap.translate (pages : PageMap) (type : MemoryAccessType) (a : BitVec 64) :
    Option (BitVec 64) :=
  (pages type (pageNo a)).map fun page => inPage page a

/-- The physical address for a hart, which may have no MMU. -/
def physical (pages : ℕ → Option PageMap) (hart : ℕ) (type : MemoryAccessType) (a : BitVec 64) :
    Option (BitVec 64) :=
  match pages hart with
  | none => some a
  | some pg => pg.translate type a

/-- The target with this memory behind it. -/
def Target.withMemory (T : Target DbgMemory) (pages : ℕ → Option PageMap) : Target DbgMemory :=
  { T with
    v2p := fun hart => (pages hart).map fun pg a type m =>
      (match pg.translate type a with
        | some p => .ok p
        | none => .error (.exn .simulationTrap), m)
    transportDbg := DbgMemory.transportDbg }

end RiscvVp.Gdb
