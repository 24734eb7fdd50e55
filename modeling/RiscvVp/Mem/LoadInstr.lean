import RiscvVp.Cheri.RawMem
import RiscvVp.Instr
import RiscvVp.Mem.LsCache

/-!
# Fetching instructions

`load_instr` of `CombinedMemoryInterface_T` (`core/common/mem.h`), with the assertions that an access of
the wrong size at the end of a memory fails, and `fetch_decode` of the instruction caches
(`core/common/dbbcache.h`) on top of it.

A failed assertion ends the simulation, which is the outcome `Stop.abort`.  The assertions of
`MemoryDMI` are part of the model for instructions only: the entries of page tables are aligned.  The
operands of `|` in `load_instr` are evaluated in the order in which they are written.
-/

namespace RiscvVp

open Cheri (Stop CheriM)

/-- The assertions of `get_mem_ptr_to_global_addr`. -/
def MemoryDMI.fits (d : MemoryDMI) (addr : BitVec 64) (n : Width) : Bool :=
  d.contains addr && decide (addr + BitVec.ofNat 64 n.bytes ≤ d.stop)

namespace Core

variable {δ : Type}

/-- The assertions that are checked when `_raw_load_data` reads a value of a given width: those of the
DMI range, for the address and for the start of its page, or that of the target on the bus, which is
a parameter: a memory asserts that the access ends within it. -/
def loadAsserts (c : Core δ) (targetFits : BitVec 64 → Width → Bool) (addr : BitVec 64) (n : Width) :
    Bool :=
  match c.dmi.dmiRanges.find? fun e => e.contains addr with
  | some e => e.fits addr n && e.fits (pageOf addr) n
  | none => targetFits addr n

variable (bus : Bus δ) (hart : ℕ) (targetFits : BitVec 64 → Width → Bool)

/-- `v2p` for a fetch. -/
def fetchAddr (vaddr : BitVec 64) : CheriM (Core δ) (BitVec 64) := fun c =>
  match c.v2p bus hart vaddr .fetch with
  | (.ok paddr, c) => (.ok paddr, c)
  | (.error t, c) => (.error (.trap t), c)

/-- `_raw_load_data`. -/
def rawLoadInstr (addr : BitVec 64) (n : Width) : CheriM (Core δ) (BitVec 64) := fun c =>
  if c.loadAsserts targetFits addr n then
    match ((c.memIf bus hart).rawLoad addr n).run' c.world with
    | (.ok (v, _), w) => (.ok v, { c with world := w })
    | (.error t, w) => (.error (.trap t), { c with world := w })
  else (.error .abort, c)

/-- `_raw_load_data(v2p(addr, FETCH))`. -/
def fetchData (addr : BitVec 64) (n : Width) : CheriM (Core δ) (BitVec 64) := do
  let paddr ← fetchAddr bus hart addr
  rawLoadInstr bus hart targetFits paddr n

/-- `load_instr`: four bytes at once, except at the end of a page, where two halfwords are read. -/
def loadInstr (addr : BitVec 64) : CheriM (Core δ) Word :=
  if pageOffset addr = 0xFFE then do
    let hi ← fetchData bus hart targetFits (addr + 2) .half
    let lo ← fetchData bus hart targetFits addr .half
    pure (hi.setWidth 32 <<< 16 ||| lo.setWidth 32)
  else do
    let w ← fetchData bus hart targetFits addr .word
    pure (w.setWidth 32)

/-- `fetch_decode`: what the word is decoded to, and the program counter after it. -/
def fetchDecode {Op : Type} (isa : Isa Op) (pc : BitVec 64) :
    CheriM (Core δ) (Decoded Op × BitVec 64) := do
  let memWord ← loadInstr bus hart targetFits pc
  let d := isa.decode memWord
  pure (d, pc + BitVec.ofNat 64 d.pcIncrement)

end Core

end RiscvVp
