import RiscvVp.Instr
import Mathlib

/-!
# The dynamic basic block cache

`DBBCache_T` of `core/common/dbbcache.h`: the blocks with their entries, the link caches, the
fast entry pointer, and every operation the ISS calls.

A heap block is only ever created by `find_create_switch_block`, which enters it in `blockmap`
under its start address and never removes it, so a `Block *` is represented by that key
(`BlockPtr.heap`).  An `Entry *` is a block together with an index (`EntryPtr`), and `entries`
is indexed by `ℤ` because the source forms `&entries[-1]` as the position before a block's first
entry.  Cells that the source leaves uninitialised hold `Entry.blank`.

Operations that can throw return the pair of their outcome and the state in which the exception
leaves the cache.
-/

namespace RiscvVp

/-! ### Blocks, entries and links -/

/-- `Block *`: one of the two member blocks, or a block of `blockmap`. -/
inductive BlockPtr (w : ℕ)
  | dummyBlock
  | fastDisableBlock
  | heap (pc : BitVec w)
  deriving DecidableEq, Repr

instance (priority := 1100) Option.decidableForallEqSome {α : Type*} (P : α → Prop) [DecidablePred P] :
    ∀ o : Option α, Decidable (∀ a, o = some a → P a)
  | none => isTrue nofun
  | some a => decidable_of_iff (P a) ⟨fun h _ ha => Option.some.inj ha ▸ h, fun h => h a rfl⟩

instance (priority := 1100) BlockPtr.decidableForallHeap {w : ℕ} (P : BitVec w → Prop) [DecidablePred P] :
    ∀ p : BlockPtr w, Decidable (∀ k, p = .heap k → P k)
  | .dummyBlock => isTrue nofun
  | .fastDisableBlock => isTrue nofun
  | .heap k => decidable_of_iff (P k)
      ⟨fun h _ hk => BlockPtr.heap.inj hk ▸ h, fun h => h k rfl⟩

/-- `Entry *`, as a block and an index into its `entries`. -/
structure EntryPtr (w : ℕ) where
  block : BlockPtr w
  idx : ℤ
  deriving DecidableEq, Repr

/-- Pointer increment: the next entry of the same block. -/
def EntryPtr.next {w : ℕ} (p : EntryPtr w) : EntryPtr w := { p with idx := p.idx + 1 }

/-- Pointer decrement: the entry before, which for the first one is the position in front of the block. -/
def EntryPtr.prev {w : ℕ} (p : EntryPtr w) : EntryPtr w := { p with idx := p.idx - 1 }

/-- `DBBCache_T::Entry`: an instruction that has been decoded, with its address, the word it was decoded
from, the cycles of the block up to it and the block that its jump leads to, if that is known. -/
structure Entry (w : ℕ) (Op : Type) where
  link : Option (BlockPtr w)
  opLabelPtr : Label Op
  pc : BitVec w
  cycleCounterRaw : BitVec 32
  memWord : Word
  instr : Word
  pcIncrement : ℕ
  idx : BitVec 16
  deriving DecidableEq

variable {w : ℕ} {Op : Type}

/-- The contents of a cell that has not been written. -/
def Entry.blank : Entry w Op where
  link := none
  opLabelPtr := .fastAbort
  pc := 0
  cycleCounterRaw := 0
  memWord := 0
  instr := 0
  pcIncrement := 0
  idx := 0

/-- `Entry::is_terminal`: the entry ends the block, so that the fast path has to be left. -/
def Entry.isTerminal (e : Entry w Op) : Bool :=
  match e.opLabelPtr with
  | .fastAbort => true
  | .op _ => false

/-- `Entry::resetLink`: forget where the jump of the instruction leads. -/
def Entry.resetLink (e : Entry w Op) : Entry w Op := { e with link := none }

/-- `BlockLinkCache_T<SIZE>`: a ring of `(pc, block)` pairs. -/
structure BlockLinkCache (w : ℕ) where
  size : ℕ
  slots : ℕ → BitVec w × BlockPtr w
  curIdx : ℕ

namespace BlockLinkCache

/-- `reset`: every `pc` becomes `INVALID_PC`, all bits set. -/
def reset (c : BlockLinkCache w) : BlockLinkCache w :=
  { c with slots := fun i => (BitVec.allOnes w, (c.slots i).2), curIdx := 0 }

/-- `find`: the block of the first slot that holds `pc`. -/
def find (c : BlockLinkCache w) (pc : BitVec w) : Option (BlockPtr w) :=
  ((List.range c.size).find? fun i => (c.slots i).1 == pc).map fun i => (c.slots i).2

/-- `add`: overwrite the slot at `curIdx` and advance, wrapping at `SIZE`. -/
def add (c : BlockLinkCache w) (pc : BitVec w) (b : BlockPtr w) : BlockLinkCache w :=
  { c with
    slots := Function.update c.slots c.curIdx (pc, b)
    curIdx := if c.curIdx + 1 = c.size then 0 else c.curIdx + 1 }

end BlockLinkCache

/-- `JUMPDYNLINKCACHE_SIZE`: the number of targets that a block remembers for its dynamic jump. -/
def jumpDynLinkCacheSize : ℕ := 16

/-- `TRAPLINKCACHE_SIZE`: the number of trap handlers whose blocks are remembered. -/
def trapLinkCacheSize : ℕ := 8

/-- A link cache right after its first `reset`. -/
def BlockLinkCache.new (size : ℕ) : BlockLinkCache w :=
  { size, slots := fun _ => (BitVec.allOnes w, .dummyBlock), curIdx := 0 }

/-- `DBBCache_T::Block`: a run of instructions that are executed one after the other, the targets of the
dynamic jump at its end, and the count of the last fence up to which it has been compared with memory. -/
structure Block (w : ℕ) (Op : Type) where
  startAddr : BitVec w
  len : ℕ
  entries : ℤ → Entry w Op
  jumpDynLinkCache : BlockLinkCache w
  coherenceCnt : BitVec 32

namespace Block

/-- `Block::init`: no instruction yet, and a terminal in front that already carries the start
address and a cycle count of zero. -/
def init (pc : BitVec w) (coherenceCnt : BitVec 32) : Block w Op where
  startAddr := pc
  len := 0
  entries := Function.update (fun _ => .blank) 0
    { (Entry.blank : Entry w Op) with
      pc := pc, opLabelPtr := .fastAbort, idx := 0, cycleCounterRaw := 0 }
  jumpDynLinkCache := .new jumpDynLinkCacheSize
  coherenceCnt := coherenceCnt

/-- Write one cell of `entries`; the cells before the first and after the last are there as well. -/
def setEntry (b : Block w Op) (i : ℤ) (e : Entry w Op) : Block w Op :=
  { b with entries := Function.update b.entries i e }

/-- `Block::invalidate_links`: all that the block knows of other blocks is forgotten. -/
def invalidateLinks (b : Block w Op) : Block w Op :=
  { b with
    jumpDynLinkCache := b.jumpDynLinkCache.reset
    entries := fun i =>
      if 0 ≤ i ∧ i < b.len then (b.entries i).resetLink else b.entries i }

/-- `decode_update_entry` on entry `i`, for the word `word` read at `pc`.  The cycle count after
the instruction goes to the following entry, which always exists: it may be the terminal. -/
def decodeUpdateEntry (isa : Isa Op) (b : Block w Op) (i : ℤ) (pc : BitVec w) (word : Word) :
    Block w Op :=
  let d := isa.decode word
  let e := b.entries i
  let b := b.setEntry (i + 1)
    { b.entries (i + 1) with
      cycleCounterRaw := e.cycleCounterRaw + (isa.instrTime d.op).setWidth 32 }
  b.setEntry i
    { e with
      memWord := word
      pc := pc
      pcIncrement := d.pcIncrement
      opLabelPtr := .op d.op
      instr := d.instr
      link := none }

end Block

/-- The cache: the members of `DBBCacheBase_T` and `DBBCache_T` that change at run time. -/
structure DBBCache (w : ℕ) (Op : Type) where
  enabled : Bool
  memWord : Word
  blockmap : BitVec w → Option (Block w Op)
  curBlock : BlockPtr w
  dummyBlock : Block w Op
  curEntryIdx : ℤ
  slowPath : Bool
  fastDisableBlock : Block w Op
  fastEntry : EntryPtr w
  exception : Bool
  trapLinkCache : BlockLinkCache w
  coherenceCnt : BitVec 32
  cycleCounterRaw : BitVec 64

namespace DBBCache

/-! ### Pointers -/

/-- `&fastDisableBlock.entries[0]`: the value of `fastEntry` when the fast path is off. -/
def fastDisabled : EntryPtr w := ⟨.fastDisableBlock, 0⟩

/-- `*p` for a `Block *`: one of the two blocks of the cache itself, or one of those in `blockmap`. -/
def getBlock (s : DBBCache w Op) : BlockPtr w → Block w Op
  | .dummyBlock => s.dummyBlock
  | .fastDisableBlock => s.fastDisableBlock
  | .heap pc => (s.blockmap pc).getD (Block.init pc 0)

/-- Store through a `Block *`. -/
def setBlock (s : DBBCache w Op) (p : BlockPtr w) (b : Block w Op) : DBBCache w Op :=
  match p with
  | .dummyBlock => { s with dummyBlock := b }
  | .fastDisableBlock => { s with fastDisableBlock := b }
  | .heap pc => { s with blockmap := Function.update s.blockmap pc (some b) }

/-- `*p` for an `Entry *`. -/
def deref (s : DBBCache w Op) (p : EntryPtr w) : Entry w Op := (s.getBlock p.block).entries p.idx

/-- `in_fast_path`: the pointer of the fast path is not the mark that it is off. -/
def inFastPath (s : DBBCache w Op) : Bool := s.fastEntry != fastDisabled

/-- `fast_path_raw_disable`: the pointer alone; the caller sets the index that takes its place. -/
def fastPathRawDisable (s : DBBCache w Op) : DBBCache w Op := { s with fastEntry := fastDisabled }

/-- `fast_path_raw_enable`: the pointer alone, to the entry that has been fetched last. -/
def fastPathRawEnable (s : DBBCache w Op) (p : EntryPtr w) : DBBCache w Op :=
  { s with fastEntry := p }

/-- The entry that the callbacks and getters start from: `fastEntry` on the fast path, else
`&curBlock->entries[curEntryIdx]`. -/
def lastEntry (s : DBBCache w Op) : EntryPtr w :=
  if s.inFastPath then s.fastEntry else ⟨s.curBlock, s.curEntryIdx⟩

/-! ### Switching blocks -/

/-- Add the cycles of the block that is left to the global counter. -/
def commitBlockCycles (s : DBBCache w Op) : DBBCache w Op :=
  { s with
    cycleCounterRaw :=
      s.cycleCounterRaw + (s.deref s.lastEntry.next).cycleCounterRaw.setWidth 64 }

/-- `switch_block_dummy`: leave the cache.  The dummy block gets the program counter and counts its cycles
from zero. -/
def switchBlockDummy (s : DBBCache w Op) (pc : BitVec w) : DBBCache w Op :=
  let s := s.commitBlockCycles
  let d := s.dummyBlock.setEntry 0 { s.dummyBlock.entries 0 with pc := pc }
  let d := d.setEntry 1 { d.entries 1 with cycleCounterRaw := 0 }
  { s with
    dummyBlock := d
    fastEntry := fastDisabled
    curBlock := .dummyBlock
    curEntryIdx := -1 }

/-- `switch_block`: go on in front of the first entry of a block.  The fast path is taken unless it has been
forced off, or the block is another one that is empty or has not been compared with memory since the last
fence. -/
def switchBlock (s : DBBCache w Op) (block : BlockPtr w) : DBBCache w Op :=
  let s := s.commitBlockCycles
  if s.curBlock = block then
    if s.inFastPath || !s.slowPath then
      s.fastPathRawEnable ⟨s.curBlock, -1⟩
    else
      { s with curEntryIdx := -1 }
  else
    let b := s.getBlock block
    let s := { s with curBlock := block }
    if !s.slowPath && 0 < b.len && s.coherenceCnt == b.coherenceCnt then
      s.fastPathRawEnable ⟨block, -1⟩
    else
      { s.fastPathRawDisable with curEntryIdx := -1, slowPath := false }

/-- `find_create_switch_block`: the block at an address, made empty if there is none yet, becomes the
current one. -/
def findCreateSwitchBlock (s : DBBCache w Op) (pc : BitVec w) : DBBCache w Op :=
  match s.blockmap pc with
  | some _ => s.switchBlock (.heap pc)
  | none => (s.setBlock (.heap pc) (Block.init pc s.coherenceCnt)).switchBlock (.heap pc)

/-! ### Control-flow callbacks -/

/-- `branch_taken_sjump` from the comment `taken miss -> link` on.  The `assert` on `pc_is_valid`
is not part of the model. -/
def branchTakenMiss (isa : Isa Op) (s : DBBCache w Op) (pcOffset : BitVec 32) :
    Except SimulationTrap Unit × DBBCache w Op :=
  let pc := ((s.getBlock s.curBlock).entries s.curEntryIdx).pc + pcOffset.signExtend w
  if pc &&& 0x3 ≠ 0 ∧ isa.hasCompressed = false then
    (.error ⟨.instrAddrMisaligned, pc.setWidth 64⟩, s)
  else if s.enabled then
    let lastBlock := s.curBlock
    let lastEntryIdx := s.curEntryIdx
    let s := s.findCreateSwitchBlock pc
    if lastBlock ≠ .dummyBlock then
      let b := s.getBlock lastBlock
      let e := { b.entries lastEntryIdx with link := some s.curBlock }
      (.ok (), s.setBlock lastBlock (b.setEntry lastEntryIdx e))
    else
      (.ok (), s)
  else
    (.ok (), s.switchBlockDummy pc)

/-- `branch_taken_sjump`: the link of the fast entry, else the link of the current entry (the
dummy block has none), else a miss. -/
def branchTakenSjump (isa : Isa Op) (s : DBBCache w Op) (pcOffset : BitVec 32) :
    Except SimulationTrap Unit × DBBCache w Op :=
  match if s.inFastPath then (s.deref s.fastEntry).link else none with
  | some b => (.ok (), s.switchBlock b)
  | none =>
    let s :=
      if s.inFastPath then { s with curEntryIdx := ((s.deref s.fastEntry).idx.toNat : ℤ) } else s
    let e := (s.getBlock s.curBlock).entries s.curEntryIdx
    match if s.curBlock ≠ .dummyBlock then e.link else none with
    | some b => (.ok (), s.switchBlock b)
    | none => s.branchTakenMiss isa pcOffset

/-- `branch_not_taken`: the next instruction follows in the same block. -/
def branchNotTaken (s : DBBCache w Op) : DBBCache w Op := s

/-- `branch_taken`: a static jump to the target of the branch. -/
def branchTaken (isa : Isa Op) (s : DBBCache w Op) (pcOffset : BitVec 32) :
    Except SimulationTrap Unit × DBBCache w Op :=
  s.branchTakenSjump isa pcOffset

/-- `jump`: a static jump. -/
def jump (isa : Isa Op) (s : DBBCache w Op) (pcOffset : BitVec 32) :
    Except SimulationTrap Unit × DBBCache w Op :=
  s.branchTakenSjump isa pcOffset

/-- The address after the entry the callbacks start from. -/
def linkAddr (s : DBBCache w Op) : BitVec w :=
  let e := s.deref s.lastEntry
  e.pc + BitVec.ofNat w e.pcIncrement

/-- `jump_and_link`: a static jump, with the return address as its result; a misaligned target gives the
trap instead. -/
def jumpAndLink (isa : Isa Op) (s : DBBCache w Op) (pcOffset : BitVec 32) :
    Except SimulationTrap (BitVec w) × DBBCache w Op :=
  let link := s.linkAddr
  match s.jump isa pcOffset with
  | (.ok (), s) => (.ok link, s)
  | (.error t, s) => (.error t, s)

/-- `jump_dyn`: a jump to an address that is not known before.  The block remembers its last targets. -/
def jumpDyn (s : DBBCache w Op) (pc : BitVec w) : DBBCache w Op :=
  match (s.getBlock s.curBlock).jumpDynLinkCache.find pc with
  | some b => s.switchBlock b
  | none =>
    if s.enabled then
      let lastBlock := s.curBlock
      let s := s.findCreateSwitchBlock pc
      let b := s.getBlock lastBlock
      s.setBlock lastBlock { b with jumpDynLinkCache := b.jumpDynLinkCache.add pc s.curBlock }
    else
      s.switchBlockDummy pc

/-- `jump_dyn_and_link`: the return address is taken before the jump. -/
def jumpDynAndLink (s : DBBCache w Op) (pc : BitVec w) : BitVec w × DBBCache w Op :=
  (s.linkAddr, s.jumpDyn pc)

/-- `enter_trap`: the block of the trap handler, which is looked up among the handlers of the last traps
first. -/
def enterTrap (s : DBBCache w Op) (pc : BitVec w) : DBBCache w Op :=
  match s.trapLinkCache.find pc with
  | some b => s.switchBlock b
  | none =>
    if s.enabled then
      let s := s.findCreateSwitchBlock pc
      { s with trapLinkCache := s.trapLinkCache.add pc s.curBlock }
    else
      s.switchBlockDummy pc

/-- `ret_trap`: the return from a handler, which always leaves the cache. -/
def retTrap (s : DBBCache w Op) (pc : BitVec w) : DBBCache w Op := s.switchBlockDummy pc

/-! ### Fences, enabling and the slow-path request -/

/-- `coherence_update`: from now on no block counts as compared with memory.  The current one is left only
with the next fetch. -/
def coherenceUpdate (s : DBBCache w Op) : DBBCache w Op :=
  let s := { s with coherenceCnt := s.coherenceCnt + 1 }
  if s.inFastPath then
    { s.fastPathRawDisable with curEntryIdx := ((s.deref s.fastEntry).idx.toNat : ℤ) }
  else
    s

/-- `fence_i`: what the instructions have written may change the code. -/
def fenceI (s : DBBCache w Op) : DBBCache w Op := s.coherenceUpdate

/-- `fence_vma`: what the addresses stand for may have changed. -/
def fenceVma (s : DBBCache w Op) : DBBCache w Op := s.coherenceUpdate

/-- `enable`: the cache is turned on or off at run time.  Turning it off forgets the links by which a jump
or a trap would lead back into it. -/
def enable (s : DBBCache w Op) (ena : Bool) : DBBCache w Op :=
  if ena = s.enabled then
    s
  else
    let s := { s with enabled := ena }
    if s.enabled then
      s
    else
      let s := s.setBlock s.curBlock (s.getBlock s.curBlock).invalidateLinks
      let s := { s with dummyBlock := s.dummyBlock.invalidateLinks }
      { s with trapLinkCache := s.trapLinkCache.reset }

/-- `force_slow_path`: the next fetch will leave the fast path, wherever the fast path stands now. -/
def forceSlowPath (s : DBBCache w Op) : DBBCache w Op :=
  let s := { s with slowPath := true }
  if s.inFastPath then
    let i := if s.fastEntry = ⟨s.curBlock, -1⟩ then -1 else ((s.deref s.fastEntry).idx.toNat : ℤ)
    { s.fastPathRawDisable with curEntryIdx := i }
  else
    s

/-! ### Fetching -/

/-- `fetch`: on a fault the address is saved for `get_last_pc_exception_safe`. -/
def fetch (mem : InstrMem w) (s : DBBCache w Op) (pc : BitVec w) :
    Except SimulationTrap Word × DBBCache w Op :=
  let s := { s with exception := false }
  match mem pc with
  | .ok word => (.ok word, s)
  | .error t =>
    (.error t,
      { s with
        dummyBlock := s.dummyBlock.setEntry 0 { s.dummyBlock.entries 0 with pc := pc }
        exception := true })

/-- `fetch_decode_fast`: the fast path, which takes the next entry as it is. -/
def fetchDecodeFast (s : DBBCache w Op) : Label Op × Word × DBBCache w Op :=
  let s := { s with fastEntry := s.fastEntry.next }
  let e := s.deref s.fastEntry
  (e.opLabelPtr, e.instr, s)

/-- `abort_fetch_decode_fast`: the fetch is undone where the entry has turned out to be the end of the
block. -/
def abortFetchDecodeFast (s : DBBCache w Op) : DBBCache w Op :=
  { s with fastEntry := s.fastEntry.prev }

/-- `fetch_decode_add_entry` and the return from the miss branch of `fetch_decode`. -/
def fetchDecodeAddEntry (isa : Isa Op) (mem : InstrMem w) (s : DBBCache w Op) (pc : BitVec w) :
    Except SimulationTrap (Fetched w Op) × DBBCache w Op :=
  match s.fetch mem pc with
  | (.error t, s) => (.error t, s)
  | (.ok word, s) =>
    let d := isa.decode word
    let b := s.getBlock s.curBlock
    let i : ℤ := b.len
    let b := b.decodeUpdateEntry isa i pc word
    let b := b.setEntry i { b.entries i with idx := BitVec.ofInt 16 i }
    let b := b.setEntry (i + 1)
      { b.entries (i + 1) with idx := BitVec.ofInt 16 (i + 1), opLabelPtr := .fastAbort }
    let s := s.setBlock s.curBlock { b with len := b.len + 1 }
    (.ok ⟨.op d.op, d.instr, pc + BitVec.ofNat w d.pcIncrement⟩,
      { s with curEntryIdx := s.curEntryIdx + 1 })

/-- The loop that re-reads a block after a fence: `n` entries are left, the next one is `idx` and
its instruction is at `addr`.  Returns the block and, if a read faulted, the index at which it
did. -/
def repairLoop (isa : Isa Op) (mem : InstrMem w) :
    ℕ → ℕ → BitVec w → Bool → Block w Op → Block w Op × Option (ℕ × SimulationTrap)
  | 0, _, _, _, b => (b, none)
  | n + 1, idx, addr, invalidateLinksOnce, b =>
    match mem addr with
    | .error t => (b, some (idx, t))
    | .ok word =>
      let e := b.entries idx
      if word ≠ e.memWord then
        let b := if invalidateLinksOnce then b.invalidateLinks else b
        let b := b.decodeUpdateEntry isa idx addr word
        repairLoop isa mem n (idx + 1) (addr + BitVec.ofNat w (isa.decode word).pcIncrement)
          false b
      else
        repairLoop isa mem n (idx + 1) (addr + BitVec.ofNat w e.pcIncrement)
          invalidateLinksOnce b

/-- The part of `fetch_decode` that returns an existing entry. -/
def slowHit (s : DBBCache w Op) (pc : BitVec w) (nextEntryIdx : ℤ) :
    Except SimulationTrap (Fetched w Op) × DBBCache w Op :=
  let e := (s.getBlock s.curBlock).entries nextEntryIdx
  (.ok ⟨e.opLabelPtr, e.instr, pc + BitVec.ofNat w e.pcIncrement⟩,
    { s with curEntryIdx := nextEntryIdx })

/-- The branch of `fetch_decode` for a block whose `coherence_cnt` is out of date. -/
def fetchDecodeRepair (isa : Isa Op) (mem : InstrMem w) (s : DBBCache w Op) (pc : BitVec w)
    (nextEntryIdx : ℤ) : Except SimulationTrap (Fetched w Op) × DBBCache w Op :=
  let s := { s with exception := false }
  let b := s.getBlock s.curBlock
  match repairLoop isa mem b.len 0 b.startAddr true b with
  | (b, none) =>
    let s := s.setBlock s.curBlock { b with coherenceCnt := s.coherenceCnt }
    (s.fastPathRawEnable ⟨s.curBlock, nextEntryIdx⟩).slowHit pc nextEntryIdx
  | (b, some (idx, t)) =>
    let s := s.setBlock s.curBlock b
    if (idx : ℤ) = nextEntryIdx then
      (.error t,
        { s with
          dummyBlock := s.dummyBlock.setEntry 0 { s.dummyBlock.entries 0 with pc := pc }
          exception := true })
    else if (idx : ℤ) < nextEntryIdx then
      match s.fetch mem pc with
      | (.error t, s) => (.error t, s)
      | (.ok word, s) =>
        let d := isa.decode word
        let b := (s.getBlock s.curBlock).decodeUpdateEntry isa nextEntryIdx pc word
        let s := s.setBlock s.curBlock b
        (.ok ⟨.op d.op, d.instr, pc + BitVec.ofNat w d.pcIncrement⟩,
          { s with curEntryIdx := nextEntryIdx })
    else
      s.slowHit pc nextEntryIdx

/-- The branch of `fetch_decode` that ignores the cache. -/
def fetchDecodeDummy (isa : Isa Op) (mem : InstrMem w) (s : DBBCache w Op) (pc : BitVec w) :
    Except SimulationTrap (Fetched w Op) × DBBCache w Op :=
  let s := { s with
    curEntryIdx := 0
    dummyBlock := s.dummyBlock.setEntry 0 { s.dummyBlock.entries 0 with pc := pc } }
  match s.fetch mem pc with
  | (.error t, s) => (.error t, s)
  | (.ok word, s) =>
    let d := isa.decode word
    let pc' := pc + BitVec.ofNat w d.pcIncrement
    let b := s.dummyBlock.setEntry 0
      { s.dummyBlock.entries 0 with pcIncrement := (pc' - pc).toNat % 2 ^ 16 }
    let b := b.setEntry 1
      { b.entries 1 with
        cycleCounterRaw := (b.entries 1).cycleCounterRaw + (isa.instrTime d.op).setWidth 32 }
    (.ok ⟨.op d.op, d.instr, pc'⟩, { s with memWord := word, dummyBlock := b })

/-- `fetch_decode` from the comment `SLOW PATH` on. -/
def fetchDecodeSlow (isa : Isa Op) (mem : InstrMem w) (s : DBBCache w Op) (pc : BitVec w) :
    Except SimulationTrap (Fetched w Op) × DBBCache w Op :=
  if s.curBlock = .dummyBlock then
    s.fetchDecodeDummy isa mem pc
  else
    let b := s.getBlock s.curBlock
    let nextEntryIdx := s.curEntryIdx + 1
    if (b.len : ℤ) ≤ nextEntryIdx then
      s.fetchDecodeAddEntry isa mem pc
    else if b.coherenceCnt ≠ s.coherenceCnt then
      s.fetchDecodeRepair isa mem pc nextEntryIdx
    else
      (s.fastPathRawEnable ⟨s.curBlock, nextEntryIdx⟩).slowHit pc nextEntryIdx

/-- `fetch_decode`: the next instruction, by the fast path as far as it goes, and else by the slow one,
which reads memory. -/
def fetchDecode (isa : Isa Op) (mem : InstrMem w) (s : DBBCache w Op) (pc : BitVec w) :
    Except SimulationTrap (Fetched w Op) × DBBCache w Op :=
  if s.inFastPath then
    let s := { s with fastEntry := s.fastEntry.next }
    let e := s.deref s.fastEntry
    if !e.isTerminal then
      (.ok ⟨e.opLabelPtr, e.instr, pc + BitVec.ofNat w e.pcIncrement⟩, s)
    else
      { s.fastPathRawDisable with curEntryIdx := (e.idx.toNat : ℤ) - 1 }.fetchDecodeSlow isa mem pc
  else
    s.fetchDecodeSlow isa mem pc

/-! ### Getters -/

/-- `get_last_pc_before_callback`: the address of the instruction that has been fetched last. -/
def getLastPcBeforeCallback (s : DBBCache w Op) : BitVec w := (s.deref s.lastEntry).pc

/-- `get_last_pc_exception_safe`: the same for the report of a trap.  If the fetch itself has failed, the
address it has failed for is in the dummy block. -/
def getLastPcExceptionSafe (s : DBBCache w Op) : BitVec w :=
  if s.exception then (s.dummyBlock.entries 0).pc else s.getLastPcBeforeCallback

/-- `get_pc_maybe_after_callback`: the address of the next instruction, where the callback of a jump may
have moved the cache already. -/
def getPcMaybeAfterCallback (s : DBBCache w Op) : BitVec w :=
  if s.inFastPath then
    if s.fastEntry ≠ ⟨s.curBlock, -1⟩ then
      (s.deref s.fastEntry).pc + BitVec.ofNat w (s.deref s.fastEntry).pcIncrement
    else
      (s.deref s.fastEntry.next).pc
  else
    let entries := (s.getBlock s.curBlock).entries
    if s.curEntryIdx ≠ -1 then
      (entries s.curEntryIdx).pc + BitVec.ofNat w (entries s.curEntryIdx).pcIncrement
    else
      (entries (s.curEntryIdx + 1)).pc

/-- `get_cycle_counter_raw`: the cycles of the blocks that have been left and those of the current one up to
its last instruction. -/
def getCycleCounterRaw (s : DBBCache w Op) : BitVec 64 :=
  s.cycleCounterRaw + (s.deref s.lastEntry.next).cycleCounterRaw.setWidth 64

/-- `get_mem_word`: the word that the last instruction has been decoded from. -/
def getMemWord (s : DBBCache w Op) : Word :=
  if s.inFastPath then
    (s.deref s.fastEntry).memWord
  else if s.curEntryIdx < (s.getBlock s.curBlock).len then
    ((s.getBlock s.curBlock).entries s.curEntryIdx).memWord
  else
    s.memWord

/-! ### Initialisation -/

/-- `init` with the cache enabled or not, starting at `entrypoint`.  The cycle counter is not
reset by `init`; it starts at its member initialiser. -/
def init (enabled : Bool) (entrypoint : BitVec w) : DBBCache w Op :=
  let s : DBBCache w Op :=
    { enabled
      memWord := 0
      blockmap := fun _ => none
      curBlock := .dummyBlock
      dummyBlock := Block.init 0 0
      curEntryIdx := -1
      slowPath := false
      fastDisableBlock :=
        (Block.init 0 0 : Block w Op).setEntry 1
          { (Block.init 0 0 : Block w Op).entries 1 with opLabelPtr := .fastAbort }
      fastEntry := fastDisabled
      exception := false
      trapLinkCache := .new trapLinkCacheSize
      coherenceCnt := 0
      cycleCounterRaw := 0 }
  if enabled then s.findCreateSwitchBlock entrypoint else s.switchBlockDummy entrypoint

end DBBCache

end RiscvVp
