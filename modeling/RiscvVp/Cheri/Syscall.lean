import RiscvVp.Cheri.MemInstr

/-!
# System calls

`ECALL` of the CHERI ISS (`core/rv64_cheriv9/iss_ctemplate.cpp`).  A platform that intercepts system calls
sets the member `sys`, and `execute_syscall` (`core/common/syscall.h`, `core/rv64_cheriv9/syscall.cpp`)
serves the call on the host: it reads and writes the memory of the guest through a pointer of the host to
the array of main memory, and takes the addresses that the guest passes for addresses in that array.

What the host answers is a parameter.  The trace on the console, the statistics on the heap and the end of
the simulation after `exit` are not part of the model; a call that ends the process is one that does not
return.
-/

namespace RiscvVp.Cheri

/-! ### The host -/

/-- What the host answers to a call: the result, and the bytes that it hands over, as they lie in the
buffer of the guest. -/
structure HostAnswer where
  result : ℤ
  bytes : Bytes

/-- An `int`, as `execute_syscall` returns it. -/
def intResult (result : ℤ) : BitVec 64 := (BitVec.ofInt 32 result).signExtend 64

/-- The bytes of a string, without the zero at its end; `none` if there is no end. -/
def strlen (b : Bytes) : ℕ → Option ℕ
  | 0 => none
  | bound + 1 => if b 0 = 0 then some 0 else (strlen (fun a => b (a + 1)) bound).map (· + 1)

/-- `Syscall::Nr`, as far as `execute_syscall` serves it. -/
inductive SyscallNr
  | fstat
  | gettimeofday
  | brk
  | time
  | write
  | read
  | lseek
  | openFile
  | close
  | exit
  | hostError
  | hostTestPass
  | hostTestFail
  deriving DecidableEq, Repr

/-- The number of a system call. -/
def SyscallNr.ofNumber (n : BitVec 64) : Option SyscallNr :=
  match n.toNat with
  | 80 => some fstat
  | 169 => some gettimeofday
  | 214 => some brk
  | 1062 => some time
  | 64 => some write
  | 63 => some read
  | 62 => some lseek
  | 1024 => some openFile
  | 57 => some close
  | 93 => some exit
  | 1 => some hostError
  | 2 => some hostTestPass
  | 3 => some hostTestFail
  | _ => none

/-- The fields of `rv64_stat` that `sys_fstat` writes: offset and size.  It leaves the padding. -/
def statFields : List (ℕ × ℕ) :=
  [(0, 8), (8, 8), (16, 4), (20, 4), (24, 4), (28, 4), (32, 8), (48, 8), (56, 4), (64, 8), (72, 8), (80, 8),
    (88, 8), (96, 8), (104, 8), (112, 8)]

/-- `translateRVFlagsToHost` knows one of the flags, or there is none. -/
def flagsSupported (flags : BitVec 32) : Bool := flags == 0 || flags &&& 0x60B != 0

/-! ### The memory of the guest -/

namespace Hart

variable {δ : Type}

/-- Note the access to some bytes, if there are any. -/
def recordBytes (isLoad : Bool) (addr : BitVec 64) (n : ℕ) : HartM δ Unit :=
  if n = 0 then pure () else record isLoad addr n

/-- `guest_to_host_pointer`: an offset into main memory. -/
def guestToHostPointer (sys : SyscallHandler) (addr : BitVec 64) : ℕ := (addr - sys.memOffset).toNat

/-- The host writes to the memory of the guest.  No tag is cleared. -/
def hostWrite (sys : SyscallHandler) (addr : BitVec 64) (src : Bytes) (n : ℕ) : HartM δ Unit := do
  (fun h => (.ok (), { h with world := { h.world with mem := { h.world.mem with
    data := memcpy h.world.mem.data (guestToHostPointer sys addr) src n } } }) : HartM δ Unit)
  recordBytes false addr n

/-- The string that the guest points to. -/
def guestString (h : Hart δ) (sys : SyscallHandler) (addr : BitVec 64) : Option ℕ :=
  strlen (fun a => h.world.mem.data (guestToHostPointer sys addr + a)) (2 ^ 64)

end Hart

namespace Iss

variable {δ : Type} (sys : SyscallHandler) (host : HostAnswer)

/-! ### The calls -/

/-- `sys_fstat`: what the host knows of the file is written to the buffer field by field, if the host
succeeds. -/
def sysFstat (addr : BitVec 64) : IssM δ (BitVec 64) := do
  if host.result = 0 then
    statFields.forM fun f =>
      mem (Hart.hostWrite sys (addr + BitVec.ofNat 64 f.1) (fun a => host.bytes (f.1 + a)) f.2)
  else pure ()
  return intResult host.result

/-- `sys_gettimeofday`: seconds and microseconds are written to the buffer.  A time zone is not supported. -/
def sysGettimeofday (tp tzp : BitVec 64) : IssM δ (BitVec 64) :=
  if tzp ≠ 0 then CheriM.abort
  else do
    mem (Hart.hostWrite sys tp host.bytes 8)
    mem (Hart.hostWrite sys (tp + 8) (fun a => host.bytes (8 + a)) 8)
    return intResult host.result

/-- `sys_time`: `boost::lexical_cast` throws if the time is no `int`. -/
def sysTime (tloc : BitVec 64) : IssM δ (BitVec 64) := do
  if tloc ≠ 0 then mem (Hart.hostWrite sys tloc (bytesOf (BitVec.ofInt 64 host.result)) 8) else pure ()
  if host.result < -2 ^ 31 ∨ 2 ^ 31 ≤ host.result then CheriM.abort
  else return intResult host.result

/-- `sys_brk`: the end of the heap is moved, or asked for with the argument zero. -/
def sysBrk (addr : BitVec 64) : IssM δ (BitVec 64) :=
  if addr ≠ 0 then do
    modify fun s => { s with sys := some { sys with hp := addr } }
    return addr
  else return sys.hp

/-- `sys_write`: the host reads as many bytes of the buffer as it says. -/
def sysWrite (buf : BitVec 64) : IssM δ (BitVec 64) :=
  if host.result < 0 then CheriM.abort
  else do
    mem (Hart.recordBytes true buf host.result.toNat)
    return intResult host.result

/-- `sys_read`: what the host has read is written to the buffer. -/
def sysRead (buf : BitVec 64) : IssM δ (BitVec 64) :=
  if host.result < 0 then CheriM.abort
  else do
    mem (Hart.hostWrite sys buf host.bytes host.result.toNat)
    return intResult host.result

/-- `sys_open`: the host reads the name of the file with the zero at its end. -/
def sysOpen (pathname flags : BitVec 64) : IssM δ (BitVec 64) :=
  if !flagsSupported (flags.setWidth 32) then CheriM.abort
  else do
    let s ← get
    match s.hart.guestString sys pathname with
    | none => CheriM.abort
    | some n =>
      mem (Hart.recordBytes true pathname (n + 1))
      return intResult host.result

/-- `sys_close`: the standard streams stay open. -/
def sysClose (fd : BitVec 64) : IssM δ (BitVec 64) :=
  if (fd.setWidth 32).toNat < 3 then return 0 else return intResult host.result

/-- `SyscallHandler::execute_syscall`; an unsupported number is an exception that nobody catches. -/
def serveSyscall (a0 a1 : BitVec 64) : Option SyscallNr → IssM δ (BitVec 64)
  | some .fstat => sysFstat sys host a1
  | some .gettimeofday => sysGettimeofday sys host a0 a1
  | some .brk => sysBrk sys a0
  | some .time => sysTime sys host a0
  | some .write => sysWrite host a1
  | some .read => sysRead sys host a1
  | some .lseek => return intResult host.result
  | some .openFile => sysOpen sys host a0 a1
  | some .close => sysClose host a0
  | some .exit => if a0 ≠ 0 then CheriM.abort else return 0
  | some .hostTestPass | some .hostTestFail => return 0
  | some .hostError | none => CheriM.abort

/-! ### `ECALL` -/

/-- `get_syscall_register_index`: the register with the number of the call, which is another one with the
smaller register file. -/
def getSyscallRegisterIndex (s : Iss δ) : Fin 32 := if s.hasEBaseIsa then 15 else 17

/-- The system call that the registers name. -/
def syscallNr (s : Iss δ) : Option SyscallNr :=
  SyscallNr.ofNumber (s.regs s.getSyscallRegisterIndex).address

/-- `SyscallHandlerBase::execute_syscall`: the call is served with the registers of its arguments, and its
answer is written to the first of these. -/
def executeSyscall : IssM δ Unit := do
  let s ← get
  let ans ← serveSyscall sys host (s.regs 10).address (s.regs 11).address s.syscallNr
  setReg 10 (Capability.ofInt ans)

/-- The trap of `ECALL`; `raise_trap` is given the address of the instruction. -/
def ecallTrap (lastPc : BitVec 64) (prv : PrivilegeLevel) : IssM δ Unit :=
  match prv with
  | .machine => CheriM.raise ⟨.ecallMMode, lastPc⟩
  | .supervisor => CheriM.raise ⟨.ecallSMode, lastPc⟩
  | .user => CheriM.raise ⟨.ecallUMode, lastPc⟩
  | .hypervisor => CheriM.abort

/-- The case `ECALL`: a system call is intercepted if there is a handler for it, and is a trap else. -/
def ecall (lastPc : BitVec 64) : IssM δ Unit := do
  let s ← get
  match s.sys with
  | some sys => executeSyscall sys host
  | none => ecallTrap lastPc s.hart.prv

end Iss

end RiscvVp.Cheri
