import RiscvVp.Gdb.Command
import RiscvVp.Mem.Mmu

/-!
# The GDB server

`GDBServer` of `gdb_server.cpp` and `handler.cpp`, with `debug_memory.cpp` and `register_format.cpp`:
what the server does with one packet.

The harts, their MMUs and the memory are behind interfaces (`debug_target_if`, `mmu_memory_if` and a
TLM socket), which are the fields of `Target`; the connection takes what is written to it.  The union
of a command that has no argument is not initialised, so what its members hold is a parameter
(`Junk`).
-/

namespace RiscvVp.Gdb

/-- The exceptions that are thrown; `std::system_error` is a `std::runtime_error`. -/
inductive Exn
  | runtimeError
  | outOfRange
  | invalidArgument
  | simulationTrap
  deriving DecidableEq, Repr

/-- An aborted program or an exception. -/
inductive Fault
  | abort (a : Abort)
  | exn (e : Exn)
  deriving DecidableEq, Repr

/-- How the server stops to serve. -/
inductive Stop
  /-- The program is aborted, or an exception leaves `GDBServer::run`. -/
  | fault (f : Fault)
  /-- `exit`: the program ends as the debugger has asked for. -/
  | exit
  /-- The server waits for ever. -/
  | forever
  deriving DecidableEq, Repr

/-- `CoreExecStatus`: what a hart is doing, as the debugger sees it. -/
inductive CoreExecStatus
  | runnable
  | hitBreakpoint
  | terminated
  deriving DecidableEq, Repr

/-- `Architecture`, as far as there is an ISS for it. -/
inductive Architecture
  | rv32
  | rv64
  deriving DecidableEq, Repr

/-- What a debug transaction returns: the bytes that were served, an error flag, and the data. -/
structure DbgResponse where
  nbytes : ℕ
  isError : Bool
  data : List (BitVec 8)

/-- The interfaces that the server uses; `σ` is the state behind them. -/
structure Target (σ : Type) where
  arch : Architecture
  /-- `v2p` of the MMU of a hart that has one. -/
  v2p : ℕ → Option (BitVec 64 → MemoryAccessType → σ → Except Fault (BitVec 64) × σ)
  /-- `transport_dbg`; to read is to give no data. -/
  transportDbg : BitVec 64 → ℕ → Option (List (BitVec 8)) → σ → Except Fault DbgResponse × σ
  hartId : ℕ → BitVec 64
  getStatus : ℕ → σ → CoreExecStatus
  setStatus : ℕ → CoreExecStatus → σ → σ
  programCounter : ℕ → σ → BitVec 64
  getRegisters : ℕ → σ → List (BitVec 64)
  /-- `read_register`; there is no result for a register that is out of range. -/
  readRegister : ℕ → BitVec 32 → σ → Option (BitVec 64)
  insertBreakpoint : ℕ → BitVec 64 → σ → σ
  removeBreakpoint : ℕ → BitVec 64 → σ → σ
  /-- `run_all_harts`, given which harts run a single step; there is no result if no hart ever stops and
  the client does not interrupt. -/
  runAllHarts : List ℕ → (ℕ → Bool) → σ → Option σ

/-- The state of the server: the selected threads, the harts to be stepped, and the target behind it. -/
structure Server (σ : Type) where
  harts : ℕ
  threadOps : BitVec 8 → Option ℤ
  singleRun : ℕ → Bool
  target : σ

/-- The union of a command without argument. -/
structure Junk where
  op : BitVec 8
  id : GdbThread
  ival : ℤ
  mem : GdbMemory
  location : GdbMemory
  bval : GdbBreakpoint
  tval : GdbThread

/-- `UINT_MAX`: the greatest length that the server takes. -/
def uintMax : ℕ := 2 ^ 32 - 1

section Server

variable {σ α : Type} (T : Target σ)

/-! ### Threads -/

/-- `get_harts`; a hart is its place in the list, and no result is `std::out_of_range`. -/
def getHarts (harts : ℕ) (id : ℤ) : Option (List ℕ) :=
  let id := if id = threadAny then 1 else id
  if id = threadAll then some (List.range harts)
  else if id < 1 then none
  else if (id - 1).toNat < harts then some [(id - 1).toNat]
  else none

/-- The harts that `exec_thread` runs its function on. -/
def Server.selected (s : Server σ) : Option (List ℕ) :=
  getHarts s.harts ((s.threadOps (chr 'g')).getD threadAny)

/-- The loop of `exec_thread` over the selected harts. -/
def execLoop (fn : ℕ → σ → Except Fault α × σ) : List ℕ → σ → Except Fault (List α) × σ
  | [], t => (.ok [], t)
  | h :: hs, t =>
    match fn h t with
    | (.error e, t') => (.error e, t')
    | (.ok a, t') =>
      match execLoop fn hs t' with
      | (.error e, t'') => (.error e, t'')
      | (.ok as, t'') => (.ok (a :: as), t'')

/-- `exec_thread`: a function is called for each of the harts that the operation has been set to, in their
order. -/
def execThread (s : Server σ) (fn : ℕ → σ → Except Fault α × σ) : Except Fault (List α) × Server σ :=
  match s.selected with
  | none => (.error (.exn .outOfRange), s)
  | some hs => ((execLoop fn hs s.target).1, { s with target := (execLoop fn hs s.target).2 })

/-! ### Memory -/

/-- `translate_addr`: a virtual address of a hart, if the hart has an MMU. -/
def translateAddr (hart : ℕ) (addr : BitVec 64) (type : MemoryAccessType) (t : σ) :
    Except Fault (BitVec 64) × σ :=
  match T.v2p hart with
  | none => (.ok addr, t)
  | some v2p => v2p addr type t

/-- `_do_dbg_transaction`: an access for the debugger.  A response with an error is an exception. -/
def doDbgTransaction (addr : BitVec 64) (n : ℕ) (data : Option (List (BitVec 8))) (t : σ) :
    Except Fault DbgResponse × σ :=
  match T.transportDbg addr n data t with
  | (.error e, t') => (.error e, t')
  | (.ok r, t') => (if r.isError then .error (.exn .runtimeError) else .ok r, t')

/-- Two digits of each byte. -/
def hexDump (bytes : List (BitVec 8)) : List (BitVec 8) := bytes.flatMap fun b => formatHex 2 b.toNat

/-- `read_memory`: the bytes of a range as hexadecimal digits. -/
def readMemoryDbg (start : BitVec 64) (n : ℕ) (t : σ) : Except Fault (List (BitVec 8)) × σ :=
  match doDbgTransaction T start n none t with
  | (.error e, t') => (.error e, t')
  | (.ok r, t') => (.ok (hexDump r.data), t')

/-- The bytes that `write_memory` makes of the digits: the loop stops at half of them. -/
def writeBuf (nbytes : ℕ) (data : List (BitVec 8)) : List (BitVec 8) :=
  (List.range (data.length / 2)).map fun j =>
    if 2 * j + 1 < nbytes then BitVec.ofNat 8 (ofHex ((data.drop (2 * j)).take 2)) else 0

/-- `write_memory`: hexadecimal digits as the bytes of a range.  Their number has to fit, and so has that of
the bytes that have been written. -/
def writeMemoryDbg (start : BitVec 64) (nbytes : ℕ) (data : List (BitVec 8)) (t : σ) :
    Except Fault Unit × σ :=
  if data.length % 2 ≠ 0 ∨ data.length / 2 ≠ nbytes then (.error (.abort .xassert), t)
  else
    match doDbgTransaction T start nbytes (some (writeBuf nbytes data)) t with
    | (.error e, t') => (.error e, t')
    | (.ok r, t') => (if r.nbytes = nbytes then .ok () else .error (.abort .xassert), t')

/-- What `readMemory` does on one hart. -/
def readOn (mem : GdbMemory) (hart : ℕ) (t : σ) : Except Fault (List (BitVec 8)) × σ :=
  match translateAddr T hart mem.addr .load t with
  | (.error e, t') => (.error e, t')
  | (.ok addr, t') => readMemoryDbg T addr mem.length t'

/-- What `writeMemory` does on one hart; a command without argument has no data to point to. -/
def writeOn (loc : GdbMemory) (data : Option (List (BitVec 8))) (hart : ℕ) (t : σ) :
    Except Fault Unit × σ :=
  match translateAddr T hart loc.addr .store t with
  | (.error e, t') => (.error e, t')
  | (.ok addr, t') =>
    match data with
    | none => (.error (.abort .undefined), t')
    | some data => writeMemoryDbg T addr loc.length data t'

/-! ### Handlers

A handler gives the text of the packet that it sends. -/

/-- What a handler makes of its function's result: one kind of exception is answered with an error, and
everything else leaves the handler. -/
def catching (e : Exn) (r : Except Fault (List (BitVec 8)) × Server σ) :
    Except Stop (List (BitVec 8)) × Server σ :=
  match r with
  | (.ok text, s) => (.ok text, s)
  | (.error f, s) => if f = .exn e then (.ok (str "E01"), s) else (.error (.fault f), s)

/-- `readMemory`: the packet `m`.  An error of the bus is reported to the debugger, and any other exception
goes on. -/
def readMemory (mem : GdbMemory) (s : Server σ) : Except Stop (List (BitVec 8)) × Server σ :=
  if uintMax < mem.length then (.error (.fault (.abort .xassert)), s)
  else catching .runtimeError
    (let r := execThread s (readOn T mem)
     (r.1.map List.flatten, r.2))

/-- `writeMemory`: the packet `M`, for all harts of the operation. -/
def writeMemory (loc : GdbMemory) (data : Option (List (BitVec 8))) (s : Server σ) :
    Except Stop (List (BitVec 8)) × Server σ :=
  if uintMax < loc.length then (.error (.fault (.abort .xassert)), s)
  else catching .runtimeError
    (let r := execThread s (writeOn T loc data)
     (r.1.map fun _ => str "OK", r.2))

/-- `bswap_32` and `bswap_64`: the bytes of a word in the other order. -/
def byteSwap (n : ℕ) (v : BitVec 64) : ℕ :=
  (List.range n).foldl (fun acc i => acc * 256 + (v >>> (8 * i)).toNat % 256) 0

/-- `formatRegister`: a register as digits, the least significant byte first. -/
def formatRegister (v : BitVec 64) : List (BitVec 8) :=
  match T.arch with
  | .rv32 => formatHex 8 (byteSwap 4 v)
  | .rv64 => formatHex 16 (byteSwap 8 v)

/-- `getRegisters`: the packet `g`, with all registers of each hart. -/
def getRegisters (s : Server σ) : Except Stop (List (BitVec 8)) × Server σ :=
  match execThread s fun h t => (.ok ((T.getRegisters h t).flatMap (formatRegister T)), t) with
  | (.ok texts, s') => (.ok texts.flatten, s')
  | (.error f, s') => (.error (.fault f), s')

/-- `GDB_PC_REG`: the number of the program counter among the registers. -/
def pcReg : ℤ := 32

/-- What `readRegister` does on one hart. -/
def registerOn (reg : ℤ) (hart : ℕ) (t : σ) : Except Fault (List (BitVec 8)) × σ :=
  if reg = pcReg then (.ok (formatRegister T (T.programCounter hart t)), t)
  else
    match T.readRegister hart (BitVec.ofInt 32 reg) t with
    | none => (.error (.exn .outOfRange), t)
    | some v => (.ok (formatRegister T v), t)

/-- `readRegister`: the packet `p`.  A number that no register has is an error. -/
def readRegister (reg : ℤ) (s : Server σ) : Except Stop (List (BitVec 8)) × Server σ :=
  catching .outOfRange
    (let r := execThread s (registerOn T reg)
     (r.1.map List.flatten, r.2))

/-- `std::to_string`: the decimal digits of a number. -/
def decimal (n : ℕ) : List (BitVec 8) :=
  if n = 0 then [chr '0'] else (Nat.digits 10 n).reverse.map hexDigit

/-- `threadInfo`: the harts that are not terminated; the comma stands where another hart follows. -/
def threadInfo (s : Server σ) : List (BitVec 8) :=
  str "m" ++ (List.range s.harts).flatMap fun i =>
    if T.getStatus i s.target = .terminated then []
    else decimal (T.hartId i + 1).toNat ++ if i + 1 < s.harts then str "," else []

/-- `setThread`: the packet `H`; the thread holds for all later packets of the operation. -/
def setThread (op : BitVec 8) (id : GdbThread) (s : Server σ) : Server σ :=
  { s with threadOps := fun c => if c = op then some id.tid else s.threadOps c }

/-- `isAlive`: the packet `T`: whether there is such a thread. -/
def isAlive (thr : GdbThread) (s : Server σ) : List (BitVec 8) :=
  match getHarts s.harts thr.tid with
  | none => str "E01"
  | some _ => str "OK"

/-- `GDB_ZKIND_SOFT`: software breakpoints, the only kind that the server sets. -/
def zkindSoft : ℕ := 0

/-- `removeBreakpoint` and `setBreakpoint`, with what they do on each hart. -/
def changeBreakpoint (change : ℕ → BitVec 64 → σ → σ) (bpoint : GdbBreakpoint) (s : Server σ) :
    List (BitVec 8) × Server σ :=
  if bpoint.type ≠ zkindSoft then ([], s)
  else (str "OK", { s with
    target := (List.range s.harts).foldl (fun t h => change h bpoint.address t) s.target })

/-- The loop of `vCont` over the actions.  It ends with the harts to run, with a thread that does not
exist (no harts), or with the exception for an action that is not implemented. -/
def vcontLoop (harts : ℕ) :
    List GdbVcont → List ℕ → (ℕ → Bool) → Except Exn (Option (List ℕ)) × (ℕ → Bool)
  | [], allHarts, single => (.ok (some allHarts), single)
  | v :: vs, allHarts, single =>
    if v.action ≠ chr 's' ∧ v.action ≠ chr 'c' then (.error .invalidArgument, single)
    else
      match getHarts harts v.thread.tid with
      | none => (.ok none, single)
      | some hs =>
        let current := hs.filter (· ∉ allHarts)
        vcontLoop harts vs (allHarts ++ current)
          fun h => if h ∈ current then decide (v.action = chr 's') else single h

/-- What the loop of `vCont` over the stopped harts finds: the reason, the stopped thread, and the
state with the harts marked runnable again. -/
def vcontStopped : List ℕ → Option (List (BitVec 8)) × ℤ × σ → Option (List (BitVec 8)) × ℤ × σ
  | [], r => r
  | h :: hs, (reason, stopped, t) =>
    let thread : ℤ := ((T.hartId h + 1).setWidth 32).toInt
    match T.getStatus h t with
    | .hitBreakpoint => vcontStopped hs (some (str "05"), thread, T.setStatus h .runnable t)
    | .terminated => vcontStopped hs (some (str "03"), thread, t)
    | .runnable => vcontStopped hs (reason, stopped, t)

/-- `vCont`; a command without argument has no list to point to. -/
def vCont (vval : Option (List GdbVcont)) (s : Server σ) :
    Except Stop (List (BitVec 8)) × Server σ :=
  match vval with
  | none => (.error (.fault (.abort .undefined)), s)
  | some vs =>
    match vcontLoop s.harts vs [] s.singleRun with
    | (.error e, single) => (.error (.fault (.exn e)), { s with singleRun := single })
    | (.ok none, single) => (.ok (str "E01"), { s with singleRun := single })
    | (.ok (some hs), single) =>
      match (if hs = [] then some s.target else T.runAllHarts hs single s.target) with
      | none => (.error .forever, { s with singleRun := single })
      | some t =>
        let (reason, stopped, t) := vcontStopped T hs (none, -1, t)
        let msg := str "T" ++ reason.getD (str "02") ++
          if 1 ≤ stopped then str "thread:" ++ decimal stopped.toNat ++ str ";" else []
        (.ok msg, { s with
          singleRun := single
          target := t
          threadOps := fun c => if c = chr 'g' ∧ 1 ≤ stopped then some stopped else s.threadOps c })

/-! ### Dispatch -/

/-- The functions that `handlers` maps names to. -/
inductive Handler
  | haltReason | getRegisters | setThread | killServer | readMemory | writeMemory | readRegister
  | qAttached | qSupported | threadInfo | threadInfoEnd | isAlive | vCont | vContSupported
  | removeBreakpoint | setBreakpoint
  deriving DecidableEq, Repr

/-- `handlers`: the packets that the server knows, by their names.  To any other it answers with an empty
packet. -/
def handlers : List (List (BitVec 8) × Handler) :=
  [(str "?", .haltReason), (str "g", .getRegisters), (str "H", .setThread), (str "k", .killServer),
    (str "m", .readMemory), (str "M", .writeMemory), (str "p", .readRegister),
    (str "qAttached", .qAttached), (str "qSupported", .qSupported),
    (str "qfThreadInfo", .threadInfo), (str "qsThreadInfo", .threadInfoEnd), (str "T", .isAlive),
    (str "vCont", .vCont), (str "vCont?", .vContSupported), (str "z", .removeBreakpoint),
    (str "Z", .setBreakpoint)]

/-- A handler on a command: each reads its own member of the union. -/
def Handler.run (junk : Junk) (cmd : GdbCommand) (s : Server σ) :
    Handler → Except Stop (List (BitVec 8)) × Server σ
  | .haltReason => (.ok (str "S05"), s)
  | .getRegisters => Gdb.getRegisters T s
  | .setThread =>
    match cmd.arg with
    | .h op id => (.ok (str "OK"), Gdb.setThread op id s)
    | _ => (.ok (str "OK"), Gdb.setThread junk.op junk.id s)
  | .killServer => (.error .exit, s)
  | .readMemory =>
    match cmd.arg with
    | .memory mem => Gdb.readMemory T mem s
    | _ => Gdb.readMemory T junk.mem s
  | .writeMemory =>
    match cmd.arg with
    | .memoryw loc data => Gdb.writeMemory T loc (some data) s
    | _ => Gdb.writeMemory T junk.location none s
  | .readRegister =>
    match cmd.arg with
    | .int ival => Gdb.readRegister T ival s
    | _ => Gdb.readRegister T junk.ival s
  | .qAttached => (.ok (str "0"), s)
  | .qSupported => (.ok (str "vContSupported+;PacketSize=4096"), s)
  | .threadInfo => (.ok (Gdb.threadInfo T s), s)
  | .threadInfoEnd => (.ok (str "l"), s)
  | .isAlive =>
    match cmd.arg with
    | .thread tval => (.ok (Gdb.isAlive tval s), s)
    | _ => (.ok (Gdb.isAlive junk.tval s), s)
  | .vCont =>
    match cmd.arg with
    | .vcont vval => Gdb.vCont T (some vval) s
    | _ => Gdb.vCont T none s
  | .vContSupported => (.ok (str "vCont;c;C"), s)
  | .removeBreakpoint =>
    match cmd.arg with
    | .brk bval =>
      (.ok (changeBreakpoint T.removeBreakpoint bval s).1,
        (changeBreakpoint T.removeBreakpoint bval s).2)
    | _ =>
      (.ok (changeBreakpoint T.removeBreakpoint junk.bval s).1,
        (changeBreakpoint T.removeBreakpoint junk.bval s).2)
  | .setBreakpoint =>
    match cmd.arg with
    | .brk bval =>
      (.ok (changeBreakpoint T.insertBreakpoint bval s).1,
        (changeBreakpoint T.insertBreakpoint bval s).2)
    | _ =>
      (.ok (changeBreakpoint T.insertBreakpoint junk.bval s).1,
        (changeBreakpoint T.insertBreakpoint junk.bval s).2)

/-- A command: its handler, or the empty text for a name that has none. -/
def runCmd (junk : Junk) (cmd : GdbCommand) (s : Server σ) :
    Except Stop (List (BitVec 8)) × Server σ :=
  match handlers.lookup cmd.name with
  | none => (.ok [], s)
  | some handler => handler.run T junk cmd s

/-- `send_packet`: the answer as it goes over the line. -/
def sendPacket (kind : GdbKind) (data : Option (List (BitVec 8))) : Except Stop (List (BitVec 8)) :=
  match gdbSerialize kind data with
  | .ok serialized => .ok serialized
  | .error a => .error (.fault (.abort a))

/-- A round of `GDBServer::run` with a packet that is no acknowledgement: what is sent for it. -/
def servePacket (junk : Junk) (pkt : GdbPacket) (s : Server σ) :
    Except Stop (List (List (BitVec 8))) × Server σ :=
  match gdbParseCmd pkt with
  | .error a => (.error (.fault (.abort a)), s)
  | .ok none => (do return [← sendPacket .nack none], s)
  | .ok (some cmd) =>
    match runCmd T junk cmd s with
    | (.error e, s') => (.error e, s')
    | (.ok reply, s') =>
      (do
        let ack ← sendPacket .ack none
        let packet ← sendPacket .packet (some reply)
        return [ack, packet], s')

end Server

end RiscvVp.Gdb
