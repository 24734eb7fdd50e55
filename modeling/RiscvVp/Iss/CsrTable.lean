import RiscvVp.Iss.Privileged

/-!
# The CSR table

`csr_table` of `rv64/csr.h` word by word, and `get_csr_value`, `set_csr_value` and
`is_invalid_csr_access` of `rv64/iss_ctemplate.cpp` on it.  The members of the table are objects of
one or more words of 64 bits; `register_mapping` maps addresses to pointers into them (`CsrPtr`),
which need not stay inside the object they are formed from.

What `maybe_interrupt_pending` asks for at the end of `set_csr_value` shows in no register.
-/

namespace RiscvVp

/-! ### Storage -/

/-- The members of `csr_table`, in the order of their declaration. -/
inductive CsrMember
  | cycle | time | instret
  | mvendorid | marchid | mimpid | mhartid
  | mstatus | misa | medeleg | mideleg | mie | mtvec | mcounteren | mcountinhibit
  | mscratch | mepc | mcause | mtval | mip
  | pmpaddr | pmpcfg
  | sedeleg | sideleg | stvec | scounteren | sscratch | sepc | scause | stval | satp
  | utvec | uscratch | uepc | ucause | utval
  | fcsr
  | vstart | vxsat | vxrm | vcsr | vtype | vl | vlenb
  deriving DecidableEq, Repr

/-- The number of words of a member: `std::array<csr_pmpaddr, 16>`, `std::array<csr_pmpcfg, 2>`. -/
def CsrMember.size : CsrMember → ℕ
  | .pmpaddr => 16
  | .pmpcfg => 2
  | _ => 1

/-- `&member[index].reg.val`: a pointer into the structure of the registers, which may leave the member that
it was made from. -/
structure CsrPtr where
  member : CsrMember
  index : ℕ
  deriving DecidableEq, Repr

namespace CsrPtr

/-- The pointer stays inside the object that it is formed from. -/
def InObject (p : CsrPtr) : Prop := p.index < p.member.size

instance decidableInObject (p : CsrPtr) : Decidable p.InObject :=
  inferInstanceAs (Decidable (_ < _))

/-- The word that a pointer leads to.  The members follow one another without padding, so that
`sedeleg` and `sideleg` lie where `pmpcfg[2]` and `pmpcfg[3]` would. -/
def word (p : CsrPtr) : CsrPtr :=
  if p = ⟨.pmpcfg, 2⟩ then ⟨.sedeleg, 0⟩
  else if p = ⟨.pmpcfg, 3⟩ then ⟨.sideleg, 0⟩
  else p

end CsrPtr

/-! ### Addresses -/

/-- The addresses that have a name in `csr.h`; `hpm` stands for all those of
`SWITCH_CASE_MATCH_ANY_HPMCOUNTER_RV64`. -/
inductive CsrAddr
  | cycle | time | instret | mcycle | mtime | minstret
  | mvendorid | marchid | mimpid | mhartid
  | mstatus | misa | medeleg | mideleg | mie | mtvec | mcounteren | mcountinhibit
  | mscratch | mepc | mcause | mtval | mip
  | pmpaddr (i : BitVec 4) | pmpcfg (i : BitVec 2)
  | sstatus | sedeleg | sideleg | sie | stvec | scounteren
  | sscratch | sepc | scause | stval | sip | satp
  | ustatus | uie | utvec | uscratch | uepc | ucause | utval | uip
  | fflags | frm | fcsr
  | vstart | vxsat | vxrm | vcsr | vl | vtype | vlenb
  | hpm
  deriving DecidableEq, Repr

/-- The addresses of `csr.h`. -/
def csrAddr (addr : BitVec 12) : Option CsrAddr :=
  match addr.toNat with
  | 0xC00 => some .cycle
  | 0xC01 => some .time
  | 0xC02 => some .instret
  | 0xB00 => some .mcycle
  | 0xB01 => some .mtime
  | 0xB02 => some .minstret
  | 0xF11 => some .mvendorid
  | 0xF12 => some .marchid
  | 0xF13 => some .mimpid
  | 0xF14 => some .mhartid
  | 0x300 => some .mstatus
  | 0x301 => some .misa
  | 0x302 => some .medeleg
  | 0x303 => some .mideleg
  | 0x304 => some .mie
  | 0x305 => some .mtvec
  | 0x306 => some .mcounteren
  | 0x320 => some .mcountinhibit
  | 0x340 => some .mscratch
  | 0x341 => some .mepc
  | 0x342 => some .mcause
  | 0x343 => some .mtval
  | 0x344 => some .mip
  | 0x100 => some .sstatus
  | 0x102 => some .sedeleg
  | 0x103 => some .sideleg
  | 0x104 => some .sie
  | 0x105 => some .stvec
  | 0x106 => some .scounteren
  | 0x140 => some .sscratch
  | 0x141 => some .sepc
  | 0x142 => some .scause
  | 0x143 => some .stval
  | 0x144 => some .sip
  | 0x180 => some .satp
  | 0x000 => some .ustatus
  | 0x004 => some .uie
  | 0x005 => some .utvec
  | 0x040 => some .uscratch
  | 0x041 => some .uepc
  | 0x042 => some .ucause
  | 0x043 => some .utval
  | 0x044 => some .uip
  | 0x001 => some .fflags
  | 0x002 => some .frm
  | 0x003 => some .fcsr
  | 0x008 => some .vstart
  | 0x009 => some .vxsat
  | 0x00A => some .vxrm
  | 0x00F => some .vcsr
  | 0xC20 => some .vl
  | 0xC21 => some .vtype
  | 0xC22 => some .vlenb
  | n =>
    if 0x3B0 ≤ n ∧ n ≤ 0x3BF then some (.pmpaddr (addr.setWidth 4))
    else if 0x3A0 ≤ n ∧ n ≤ 0x3A3 then some (.pmpcfg (addr.setWidth 2))
    -- `HPMCOUNTER3_ADDR` to `HPMCOUNTER31_ADDR`, then the machine's counters, then the events
    else if 0xC03 ≤ n ∧ n ≤ 0xC1F ∨ 0xB03 ≤ n ∧ n ≤ 0xB1F ∨ 0x323 ≤ n ∧ n ≤ 0x33F then some .hpm
    else none

/-- `register_mapping`, as the constructor of `csr_table` fills it. -/
def registerMapping : CsrAddr → Option CsrPtr
  | .cycle => some ⟨.cycle, 0⟩
  | .time => some ⟨.time, 0⟩
  | .instret => some ⟨.instret, 0⟩
  | .mcycle => some ⟨.cycle, 0⟩
  | .mtime => some ⟨.time, 0⟩
  | .minstret => some ⟨.instret, 0⟩
  | .mvendorid => some ⟨.mvendorid, 0⟩
  | .marchid => some ⟨.marchid, 0⟩
  | .mimpid => some ⟨.mimpid, 0⟩
  | .mhartid => some ⟨.mhartid, 0⟩
  | .mstatus => some ⟨.mstatus, 0⟩
  | .misa => some ⟨.misa, 0⟩
  | .medeleg => some ⟨.medeleg, 0⟩
  | .mideleg => some ⟨.mideleg, 0⟩
  | .mie => some ⟨.mie, 0⟩
  | .mtvec => some ⟨.mtvec, 0⟩
  | .mcounteren => some ⟨.mcounteren, 0⟩
  | .mcountinhibit => some ⟨.mcountinhibit, 0⟩
  | .mscratch => some ⟨.mscratch, 0⟩
  | .mepc => some ⟨.mepc, 0⟩
  | .mcause => some ⟨.mcause, 0⟩
  | .mtval => some ⟨.mtval, 0⟩
  | .mip => some ⟨.mip, 0⟩
  | .pmpaddr i => some ⟨.pmpaddr, i.toNat⟩
  | .pmpcfg i => some ⟨.pmpcfg, i.toNat⟩
  | .sedeleg => some ⟨.sedeleg, 0⟩
  | .sideleg => some ⟨.sideleg, 0⟩
  | .stvec => some ⟨.stvec, 0⟩
  | .scounteren => some ⟨.scounteren, 0⟩
  | .sscratch => some ⟨.sscratch, 0⟩
  | .sepc => some ⟨.sepc, 0⟩
  | .scause => some ⟨.scause, 0⟩
  | .stval => some ⟨.stval, 0⟩
  | .satp => some ⟨.satp, 0⟩
  | .utvec => some ⟨.utvec, 0⟩
  | .uscratch => some ⟨.uscratch, 0⟩
  | .uepc => some ⟨.uepc, 0⟩
  | .ucause => some ⟨.ucause, 0⟩
  | .utval => some ⟨.utval, 0⟩
  | .fcsr => some ⟨.fcsr, 0⟩
  | .vstart => some ⟨.vstart, 0⟩
  | .vxsat => some ⟨.vxsat, 0⟩
  | .vxrm => some ⟨.vxrm, 0⟩
  | .vcsr => some ⟨.vcsr, 0⟩
  | .vl => some ⟨.vl, 0⟩
  | .vtype => some ⟨.vtype, 0⟩
  | .vlenb => some ⟨.vlenb, 0⟩
  | .sstatus | .sie | .sip | .ustatus | .uie | .uip | .fflags | .frm | .hpm => none

/-! ### Masks that only the table uses -/

/-- `MSTATUS_READ_MASK`: the fields that a read of `mstatus` shows. -/
def mstatusReadMask : BitVec 64 :=
  0b1000000000000000000000000011111100000000011111111111111111111011

/-- `SSTATUS_READ_MASK`: the part of them for supervisor mode. -/
def sstatusReadMask : BitVec 64 :=
  0b1000000000000000000000000000001100000000000011011110011101110011

/-- `USTATUS_READ_MASK`: the part of them for user mode. -/
def ustatusReadMask : BitVec 64 :=
  0b0000000000000000000000000000000000000000000000000000000001010001

/-- `MCOUNTEREN_MASK`: the counters for cycles, time and instructions. -/
def mcounterenMask : BitVec 64 := 0b111

/-- `MCOUNTINHIBIT_MASK`: cycles and instructions; the time cannot be stopped. -/
def mcountinhibitMask : BitVec 64 := 0b101

/-- `SATP_MASK`: the mode and the page of the root table, without the address space. -/
def satpMask : BitVec 64 := 0b1111000000000000000011111111111111111111111111111111111111111111

/-- `SATP_MODE`, the field `mode` of `satp`. -/
def satpModeMask : BitVec 64 := 0b1111000000000000000000000000000000000000000000000000000000000000

/-- `FCSR_MASK`: the rounding mode and the flags. -/
def fcsrMask : BitVec 64 := 0b11111111

/-- The field `fflags` of `fcsr`. -/
def fflagsMask : BitVec 64 := 0b11111

/-- The field `frm` of `fcsr`. -/
def frmMask : BitVec 64 := 0b11100000

/-- The values of the field `frm`. -/
def frmValueMask : BitVec 64 := 0b111

/-- `VXSAT_MASK`, and the field `vxsat` of `vcsr`. -/
def vxsatMask : BitVec 64 := 0b1

/-- `VXRM_MASK`: the two bits of the fixed-point rounding mode. -/
def vxrmMask : BitVec 64 := 0b11

/-- The field `vxrm` of `vcsr`. -/
def vcsrVxrmMask : BitVec 64 := 0b110

/-- `VCSR_MASK`: that mode and the saturation flag. -/
def vcsrMask : BitVec 64 := 0b111

/-! ### The ISS as its CSR functions see it -/

/-- What the CSR functions read and write.  `mtime` is what `clint->update_and_get_mtime()` returns
and `cycleCounterRaw` what `dbbcache.get_cycle_counter_raw()` returns. -/
structure CsrFile where
  table : CsrPtr → BitVec 64
  prv : PrivilegeLevel
  instr : BitVec 32
  mtime : BitVec 64
  cycleCounterRaw : BitVec 64
  cycleCounterRawLast : BitVec 64
  cycleCounter : BitVec 64
  propClockCyclePeriod : BitVec 64

namespace CsrFile

/-- `*p`: the word that the pointer leads to. -/
def load (h : CsrFile) (p : CsrPtr) : BitVec 64 := h.table p.word

/-- `*p = value`: one word of the structure is written, whichever member it belongs to. -/
def store (h : CsrFile) (p : CsrPtr) (value : BitVec 64) : CsrFile :=
  { h with table := Function.update h.table p.word value }

/-- `csrs.member.reg.val`: a member by its name. -/
def reg (h : CsrFile) (m : CsrMember) : BitVec 64 := h.load ⟨m, 0⟩

/-- The `write` of `set_csr_value`, which an assignment to a bit-field amounts to as well. -/
def write (h : CsrFile) (m : CsrMember) (value mask : BitVec 64) : CsrFile :=
  h.store ⟨m, 0⟩ (writeMasked (h.reg m) value mask)

/-- `RAISE_ILLEGAL_INSTRUCTION`: a trap with the word of the instruction. -/
def raiseIllegal {α : Type} (h : CsrFile) : Except SimulationTrap α :=
  .error ⟨.illegalInstr, h.instr.setWidth 64⟩

/-- `mstatus.tvm`: supervisor mode may not change the translation. -/
def tvm (h : CsrFile) : Bool := (h.reg .mstatus).getLsbD 20

/-- `commit_cycles`: the cycles since the last commit are added to `mcycle`, unless it is inhibited. -/
def commitCycles (h : CsrFile) : CsrFile :=
  { h with
    cycleCounterRawLast := h.cycleCounterRaw
    cycleCounter :=
      if (h.reg .mcountinhibit).getLsbD 0 then h.cycleCounter
      else h.cycleCounter + (h.cycleCounterRaw - h.cycleCounterRawLast) }

/-- `pc_alignment_mask`: the low bits that an address of an instruction cannot have, one with compressed
instructions and else two. -/
def pcAlignmentMask (h : CsrFile) : BitVec 64 :=
  if (h.reg .misa).getLsbD 2 then ~~~0x1 else ~~~0x3

/-- `csr::is_bitset`; the `int` that is shifted is converted to 64 bits with its sign. -/
def isBitset (reg : BitVec 64) (bitpos : ℕ) : Bool :=
  reg &&& ((1 : BitVec 32) <<< bitpos).signExtend 64 != 0

/-- `validate_csr_counter_read_access_rights`: supervisor mode reads a counter only if machine mode allows
it, and user mode only if both do. -/
def validateCsrCounterReadAccessRights (h : CsrFile) (addr : BitVec 12) :
    Except SimulationTrap Unit :=
  if 0xC00 ≤ addr ∧ addr ≤ 0xC1F then
    let cnt := (addr &&& 0x1F).toNat
    if h.prv = .supervisor ∧ ¬ isBitset (h.reg .mcounteren) cnt then h.raiseIllegal
    else if h.prv = .user ∧
        (¬ isBitset (h.reg .mcounteren) cnt ∨ ¬ isBitset (h.reg .scounteren) cnt) then
      h.raiseIllegal
    else .ok ()
  else .ok ()

/-- `default_read64`, for an address that is in `register_mapping`. -/
def defaultRead64 (h : CsrFile) (a : CsrAddr) : Except SimulationTrap (BitVec 64 × CsrFile) :=
  match registerMapping a with
  | some p => .ok (h.load p, h)
  | none => h.raiseIllegal

/-- `default_write64`, for an address that is in `register_mapping`. -/
def defaultWrite64 (h : CsrFile) (a : CsrAddr) (value : BitVec 64) :
    Except SimulationTrap CsrFile :=
  match registerMapping a with
  | some p => .ok (h.store p value)
  | none => h.raiseIllegal

/-- The `switch` of `get_csr_value`. -/
def getNamed (h : CsrFile) (a : CsrAddr) : Except SimulationTrap (BitVec 64 × CsrFile) :=
  match a with
  | .time | .mtime =>
    let h := h.store ⟨.time, 0⟩ h.mtime
    .ok (h.reg .time, h)
  | .cycle | .mcycle =>
    let h := h.commitCycles
    let h := h.store ⟨.cycle, 0⟩ (h.cycleCounter / h.propClockCyclePeriod)
    .ok (h.reg .cycle, h)
  | .minstret => .ok (h.reg .instret, h)
  | .hpm => .ok (0, h)
  | .mstatus => .ok (h.reg .mstatus &&& mstatusReadMask, h)
  | .sstatus => .ok (h.reg .mstatus &&& sstatusReadMask, h)
  | .ustatus => .ok (h.reg .mstatus &&& ustatusReadMask, h)
  | .mip => .ok (h.reg .mip &&& mieMask, h)
  | .sip => .ok (h.reg .mip &&& sipMask, h)
  | .uip => .ok (h.reg .mip &&& uipMask, h)
  | .mie => .ok (h.reg .mie &&& mieMask, h)
  | .sie => .ok (h.reg .mie &&& sieMask, h)
  | .uie => .ok (h.reg .mie &&& uieMask, h)
  | .satp => if h.tvm then h.raiseIllegal else h.defaultRead64 .satp
  | .fcsr => .ok (h.reg .fcsr &&& fcsrMask, h)
  | .fflags => .ok (h.reg .fcsr &&& fflagsMask, h)
  | .frm => .ok ((h.reg .fcsr &&& frmMask) >>> 5, h)
  | .vcsr =>
    let h := h.write .vcsr (h.reg .vxrm <<< 1) vcsrVxrmMask
    let h := h.write .vcsr (h.reg .vxsat) vxsatMask
    .ok (h.reg .vcsr, h)
  | a => h.defaultRead64 a

/-- `get_csr_value`: the read of a register, which commits a counter before it is read.  An address without
a register is an illegal instruction. -/
def getCsrValue (h : CsrFile) (addr : BitVec 12) : Except SimulationTrap (BitVec 64 × CsrFile) :=
  match h.validateCsrCounterReadAccessRights addr with
  | .error t => .error t
  | .ok () =>
    match csrAddr addr with
    | some a => h.getNamed a
    | none => h.raiseIllegal

/-- Whether `set_csr_value` lets a value of `satp.mode` stay. -/
def isSatpMode (mode : BitVec 4) : Bool := mode == 0 || mode == 8 || mode == 9

/-- `set_csr_value` for `satp`, when it may be accessed. -/
def writeSatp (h : CsrFile) (value : BitVec 64) : CsrFile :=
  let mode := h.reg .satp
  let h := h.write .satp value satpMask
  if isSatpMode ((h.reg .satp).extractLsb' 60 4) then h else h.write .satp mode satpModeMask

/-- The `switch` of `set_csr_value`. -/
def setNamed (h : CsrFile) (a : CsrAddr) (value : BitVec 64) : Except SimulationTrap CsrFile :=
  match a with
  | .misa | .hpm => .ok h
  | .satp => if h.tvm then h.raiseIllegal else .ok (h.writeSatp value)
  | .mtvec => .ok (h.write .mtvec value mtvecMask)
  | .stvec => .ok (h.write .stvec value mtvecMask)
  | .utvec => .ok (h.write .utvec value mtvecMask)
  | .mepc => .ok (h.write .mepc value h.pcAlignmentMask)
  | .sepc => .ok (h.write .sepc value h.pcAlignmentMask)
  | .uepc => .ok (h.write .uepc value h.pcAlignmentMask)
  | .mstatus => .ok (h.write .mstatus value mstatusWriteMask)
  | .sstatus => .ok (h.write .mstatus value sstatusWriteMask)
  | .ustatus => .ok (h.write .mstatus value ustatusWriteMask)
  | .mip => .ok (h.write .mip value mipWriteMask)
  | .sip => .ok (h.write .mip value sipMask)
  | .uip => .ok (h.write .mip value uipMask)
  | .mie => .ok (h.write .mie value mieMask)
  | .sie => .ok (h.write .mie value sieMask)
  | .uie => .ok (h.write .mie value uieMask)
  | .mideleg => .ok (h.write .mideleg value mieMask)
  | .medeleg => .ok (h.write .medeleg value medelegMask)
  | .sideleg => .ok (h.write .sideleg value mieMask)
  | .sedeleg => .ok (h.write .sedeleg value sedelegMask)
  | .mcounteren => .ok (h.write .mcounteren value mcounterenMask)
  | .scounteren => .ok (h.write .scounteren value mcounterenMask)
  | .mcountinhibit => .ok (h.commitCycles.write .mcountinhibit value mcountinhibitMask)
  | .fcsr => .ok (h.write .fcsr value fcsrMask)
  | .fflags => .ok (h.write .fcsr value fflagsMask)
  | .frm => .ok (h.write .fcsr (value <<< 5) frmMask)
  | .vxsat =>
    let h := h.write .vxsat value vxsatMask
    .ok (h.write .vcsr (h.reg .vxsat) vxsatMask)
  | .vxrm =>
    let h := h.write .vxrm value vxrmMask
    .ok (h.write .vcsr (h.reg .vxrm <<< 1) vcsrVxrmMask)
  | .vcsr =>
    let h := h.write .vcsr value vcsrMask
    let h := h.write .vxrm (h.reg .vcsr >>> 1) vxrmMask
    .ok (h.write .vxsat (h.reg .vcsr) vxsatMask)
  | a => h.defaultWrite64 a value

/-- `set_csr_value`: the write of a register, as far as the masks of the register let it through. -/
def setCsrValue (h : CsrFile) (addr : BitVec 12) (value : BitVec 64) :
    Except SimulationTrap CsrFile :=
  match csrAddr addr with
  | some a => h.setNamed a value
  | none => h.raiseIllegal

/-- `is_invalid_csr_access`: `fp_require_not_off` and `v_ext.requireNotOff` look at `mstatus.fs` and
`mstatus.vs`. -/
def isInvalidCsrAccess (h : CsrFile) (addr : BitVec 12) (isWrite : Bool) :
    Except SimulationTrap Bool :=
  if addr ∈ [0x001, 0x002, 0x003] ∧ (h.reg .mstatus).extractLsb' 13 2 = 0 then h.raiseIllegal
  else if addr ∈ [0x008, 0x009, 0x00A, 0x00F, 0xC20, 0xC21, 0xC22] ∧
      (h.reg .mstatus).extractLsb' 9 2 = 0 then h.raiseIllegal
  else
    let csrPrv := (0x300 &&& addr) >>> 8
    let csrReadonly := (0xC00 &&& addr) >>> 10 == 3
    let sInvalid := csrPrv == 1 && !(h.reg .misa).getLsbD 18
    let uInvalid := csrPrv == 0 && !(h.reg .misa).getLsbD 20
    .ok ((isWrite && csrReadonly) || decide (h.prv.val < csrPrv.toNat) || sInvalid || uInvalid)

end CsrFile

end RiscvVp
