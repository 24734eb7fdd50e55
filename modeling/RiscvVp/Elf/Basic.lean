import RiscvVp.Mem.SimpleMemory

/-!
# The ELF loader

`GenericElfLoader` (`core/common/elf_loader.h`) with the types of `core/rv32/elf_loader.h` and
`core/rv64/elf_loader.h`: it copies the segments of a program that lie in an area of the address space into
the memory of this area, and finds an address after the program where the heap can start.  A function whose
assertion fails has no result.  Symbols and sections are not part of the model.
-/

namespace RiscvVp.Elf

/-- `Elf32Types` and `Elf64Types`: the two classes of files, which differ in the widths and places of their
fields. -/
inductive Types
  | elf32
  | elf64
  deriving DecidableEq, Repr

namespace Types

/-- The width of an `addr_t`. -/
def addrBits : Types → ℕ
  | .elf32 => 32
  | .elf64 => 64

/-- `sizeof(Elf_Ehdr)`: the bytes of the header at the start of the file. -/
def sizeofEhdr : Types → ℕ
  | .elf32 => 52
  | .elf64 => 64

/-- `sizeof(Elf_Phdr)`: the bytes of a program header. -/
def sizeofPhdr : Types → ℕ
  | .elf32 => 32
  | .elf64 => 56

/-- `PT_LOAD`: the type of a segment that is to be loaded. -/
def ptLoad (_ : Types) : BitVec 32 := 1

end Types

/-- `Elf_Phdr`, without `p_flags` and `p_align`. -/
structure Phdr (T : Types) where
  pType : BitVec 32
  pOffset : BitVec T.addrBits
  pVaddr : BitVec T.addrBits
  pPaddr : BitVec T.addrBits
  pFilesz : BitVec T.addrBits
  pMemsz : BitVec T.addrBits
  deriving DecidableEq, Repr

/-- The address that `use_vaddr` chooses. -/
def Phdr.addr {T : Types} (p : Phdr T) (useVaddr : Bool) : BitVec T.addrBits :=
  if useVaddr then p.pVaddr else p.pPaddr

/-! ### The file -/

/-- `e_ident_magic`: the four bytes that a file begins with. -/
def eIdentMagic : List (BitVec 8) := [0x7f, 0x45, 0x4c, 0x46]

/-- The mapped file, byte by byte; what lies behind its end cannot be read. -/
structure File where
  bytes : List (BitVec 8)
  deriving DecidableEq, Repr

namespace File

variable (T : Types) (elf : File)

/-- A byte of `elf.data()`; the rest of the last page of a mapping is zero. -/
def data (i : ℕ) : BitVec 8 := elf.bytes.getD i 0

/-- The unsigned integer of `n` bytes at an offset; the host is little-endian. -/
def uintAt (elf : File) (offset : ℕ) : ℕ → ℕ
  | 0 => 0
  | n + 1 => (elf.data offset).toNat + 256 * elf.uintAt (offset + 1) n

/-- `init`: the file is long enough for a header and starts with the magic number. -/
def init : Bool := decide (T.sizeofEhdr ≤ elf.bytes.length) && (elf.bytes.take 4 == eIdentMagic)

/-- `hdr->e_phoff`: where the program headers begin. -/
def ePhoff : Types → ℕ
  | .elf32 => elf.uintAt 28 4
  | .elf64 => elf.uintAt 32 8

/-- `hdr->e_phentsize`: the distance from one program header to the next. -/
def ePhentsize : Types → ℕ
  | .elf32 => elf.uintAt 42 2
  | .elf64 => elf.uintAt 54 2

/-- `hdr->e_phnum`: how many program headers there are. -/
def ePhnum : Types → ℕ
  | .elf32 => elf.uintAt 44 2
  | .elf64 => elf.uintAt 56 2

/-- The program header at an offset of the file. -/
def phdrAt (offset : ℕ) : (T : Types) → Phdr T
  | .elf32 =>
    { pType := BitVec.ofNat _ (elf.uintAt offset 4)
      pOffset := BitVec.ofNat _ (elf.uintAt (offset + 4) 4)
      pVaddr := BitVec.ofNat _ (elf.uintAt (offset + 8) 4)
      pPaddr := BitVec.ofNat _ (elf.uintAt (offset + 12) 4)
      pFilesz := BitVec.ofNat _ (elf.uintAt (offset + 16) 4)
      pMemsz := BitVec.ofNat _ (elf.uintAt (offset + 20) 4) }
  | .elf64 =>
    { pType := BitVec.ofNat _ (elf.uintAt offset 4)
      pOffset := BitVec.ofNat _ (elf.uintAt (offset + 8) 8)
      pVaddr := BitVec.ofNat _ (elf.uintAt (offset + 16) 8)
      pPaddr := BitVec.ofNat _ (elf.uintAt (offset + 24) 8)
      pFilesz := BitVec.ofNat _ (elf.uintAt (offset + 32) 8)
      pMemsz := BitVec.ofNat _ (elf.uintAt (offset + 40) 8) }

/-- `get_elf_Phdr`: a program header by its number. -/
def getElfPhdr (idx : ℕ) : Option (Phdr T) :=
  if elf.ePhnum T ≤ idx then none else some (elf.phdrAt (elf.ePhoff T + elf.ePhentsize T * idx) T)

/-- The program headers that the loops `for (int i = 0; i < hdr->e_phnum; i++)` run over. -/
def phdrs : List (Phdr T) := (List.range (elf.ePhnum T)).filterMap (elf.getElfPhdr T)

/-- `get_load_sections`: the headers of the segments to be loaded that have any bytes, in the file or in
memory. -/
def getLoadSections : List (Phdr T) :=
  (elf.phdrs T).filter fun p => decide (p.pType = T.ptLoad) && !(decide (p.pFilesz = 0) && decide (p.pMemsz = 0))

end File

/-! ### The loader -/

/-- `in_area`: the address lies in the area.  The end of the area is computed in the width of an address and
may wrap. -/
def inArea {w : ℕ} (addr areaSize areaStart : BitVec w) : Bool :=
  decide (areaStart ≤ addr) && decide (addr < areaStart + areaSize)

namespace File

variable {T : Types} (elf : File)

/-- A round of the loop in `get_heap_addr`. -/
def heapStep (areaSize areaStart : BitVec T.addrBits) (useVaddr : Bool) (lastHeapStart : BitVec T.addrBits)
    (p : Phdr T) : BitVec T.addrBits :=
  -- first 8 byte aligned address after the segment
  let heapStart := ((p.addr useVaddr + p.pMemsz - 1) &&& ~~~0x7) + 8
  if !inArea heapStart areaSize areaStart then lastHeapStart
  else if lastHeapStart < heapStart then heapStart
  else lastHeapStart

/-- `get_heap_addr`: a multiple of eight behind the start of the area and behind all its segments. -/
def getHeapAddr (areaSize areaStart : BitVec T.addrBits) (useVaddr : Bool) : Option (BitVec T.addrBits) :=
  if elf.init T then
    some ((elf.phdrs T).foldl (heapStep areaSize areaStart useVaddr) ((areaStart &&& ~~~0x7) + 8))
  else none

/-- A round of the loop in `load_executable_image`. -/
def loadSection (loadIf : SimpleMemory) (areaSize areaStart : BitVec T.addrBits) (useVaddr : Bool) (h : Host)
    (p : Phdr T) : Option Host := do
  let addr := p.addr useVaddr
  if !inArea addr areaSize areaStart then return h
  let offset := addr - areaStart
  let h ← loadIf.loadData (fun i => elf.data (p.pOffset.toNat + i)) (offset.setWidth 64)
    (p.pFilesz.setWidth 64) h
  guard (p.pFilesz ≤ p.pMemsz)
  let offset := offset + p.pFilesz
  loadIf.loadZero (offset.setWidth 64) ((p.pMemsz - p.pFilesz).setWidth 64) h

/-- `load_executable_image`: the segments are loaded one after the other, and nothing is if the file is not
accepted. -/
def loadExecutableImage (loadIf : SimpleMemory) (areaSize areaStart : BitVec T.addrBits) (useVaddr : Bool)
    (h : Host) : Option Host :=
  if elf.init T then (elf.getLoadSections T).foldlM (elf.loadSection loadIf areaSize areaStart useVaddr) h
  else none

end File

end RiscvVp.Elf
