import RiscvVp.Gdb.Basic

/-!
# Commands of the GDB remote protocol

`parser2.c` of `libgdb`: the parser of the second stage, which makes a command of the text of a
packet.

Numbers are read as `strtol`, `strtoul` and `sscanf` read them: a value that is too large becomes the
largest one of the type it is read as, and a `long` loses its upper half when it is stored in an
`int`.  Backtracking is on in this stage.
-/

namespace RiscvVp.Gdb

/-! ### Commands -/

/-- `gdb_thread_t`: a process and a thread of it, with values of their own for any and for all. -/
structure GdbThread where
  pid : ℤ
  tid : ℤ
  deriving DecidableEq, Repr

/-- `GDB_THREAD_UNSET`: the packet names no process. -/
def threadUnset : ℤ := -2

/-- `GDB_THREAD_ANY`: the server may choose the thread. -/
def threadAny : ℤ := 0

/-- `GDB_THREAD_ALL`: every thread is meant. -/
def threadAll : ℤ := -1

/-- `gdb_memory_t`: a range of memory, by its address and the number of its bytes. -/
structure GdbMemory where
  addr : BitVec 64
  length : ℕ
  deriving DecidableEq, Repr

/-- `gdb_breakpoint_t`: a breakpoint as the packets `z` and `Z` name it. -/
structure GdbBreakpoint where
  type : ℕ
  address : BitVec 64
  kind : ℕ
  deriving DecidableEq, Repr

/-- One entry of a `gdb_vcont_t` list; a signal that is not set is -1. -/
structure GdbVcont where
  action : BitVec 8
  sig : ℤ
  thread : GdbThread
  deriving DecidableEq, Repr

/-- `gdb_argument_t` with the member of the union that it stands for. -/
inductive GdbArg
  | none
  | vcont (vval : List GdbVcont)
  | h (op : BitVec 8) (id : GdbThread)
  | int (ival : ℤ)
  | memory (mem : GdbMemory)
  | memoryw (location : GdbMemory) (data : List (BitVec 8))
  | brk (bval : GdbBreakpoint)
  | thread (tval : GdbThread)
  deriving DecidableEq, Repr

/-- `gdb_command_t`: a packet that has been parsed: the name by which its handler is found, and its
arguments. -/
structure GdbCommand where
  name : List (BitVec 8)
  arg : GdbArg
  deriving DecidableEq, Repr

/-! ### Numbers -/

/-- A character that `mpc_hexdigit` reads. -/
def isHexDigit (c : BitVec 8) : Bool := (str "0123456789ABCDEFabcdef").contains c

/-- The value of a digit in base 16. -/
def hexValue (c : BitVec 8) : ℕ :=
  if c ≤ chr '9' then c.toNat - 48 else if c ≤ chr 'F' then c.toNat - 55 else c.toNat - 87

/-- The number that digits in base 16 stand for. -/
def ofHex (digits : List (BitVec 8)) : ℕ := digits.foldl (fun v c => 16 * v + hexValue c) 0

/-- `sscanf` with `%lx` or `%zx`. -/
def scanHex (digits : List (BitVec 8)) : ℕ := min (ofHex digits) (2 ^ 64 - 1)

/-- `strtol` in base 16, stored in an `int`. -/
def strtolInt (digits : List (BitVec 8)) : ℤ :=
  (BitVec.ofNat 32 (min (ofHex digits) (2 ^ 63 - 1))).toInt

/-- `mpc_hexdigits`: hexadecimal digits, as many as there are and at least one. -/
def hexdigits : GdbParser (List (BitVec 8)) := Parser.many1 (Parser.satisfy isHexDigit)

/-- A parser followed by a function that does not fail. -/
def foldWith {α β : Type} (f : α → β) (p : GdbParser α) : GdbParser β := p.apply fun a => .ok (f a)

/-- `mpc_hex`: a hexadecimal number as `strtol` reads it, cut to the width of an `int`. -/
def mpcHex : GdbParser ℤ := foldWith strtolInt hexdigits

/-- `gdb_address`: a hexadecimal number of 64 bits; further digits push the first ones out. -/
def gdbAddress : GdbParser (BitVec 64) := foldWith (fun t => BitVec.ofNat 64 (scanHex t)) hexdigits

/-- `gdb_uhex`: a hexadecimal number without a sign, of any length. -/
def gdbUhex : GdbParser ℕ := foldWith scanHex hexdigits

/-- `gdb_memory`: an address, a comma and a length. -/
def gdbMemory : GdbParser GdbMemory :=
  gdbAddress.andThen fun addr => (char (chr ',')).andThen fun _ => foldWith (⟨addr, ·⟩) gdbUhex

/-- `gdb_hexid`: the number of a process or thread, where -1 stands for all of them. -/
def gdbHexid : GdbParser ℤ := mpcHex.orElse (foldWith (fun _ => -1) (Parser.word (str "-1")))

/-- The process of a thread id, which may be left out. -/
def gdbPid : GdbParser ℤ :=
  (char (chr 'p')).andThen fun _ => gdbHexid.andThen fun pid => foldWith (fun _ => pid) (char (chr '.'))

/-- `gdb_thread_id`: a thread, with a process before it if there is one. -/
def gdbThreadId : GdbParser GdbThread :=
  gdbPid.maybe.andThen fun pid => foldWith (⟨pid.getD threadUnset, ·⟩) gdbHexid

/-! ### Packets -/

/-- `gdb_packet_h`: the operation that the next packets of a kind are for, and its thread. -/
def gdbPacketH : GdbParser GdbCommand :=
  (char (chr 'H')).andThen fun _ => anyChar.andThen fun op =>
    foldWith (fun id => ⟨str "H", .h op id⟩) gdbThreadId

/-- `gdb_packet_p`: the number of a register to read. -/
def gdbPacketP : GdbParser GdbCommand :=
  (char (chr 'p')).andThen fun _ => foldWith (fun i => ⟨str "p", .int i⟩) mpcHex

/-- A signal after `C` or `S`.  The sequence is built without the destructor that it calls on the letter
when no digit follows. -/
def gdbSignal : GdbParser (List (BitVec 8)) := fun bt ts =>
  match hexdigits bt ts with
  | .ok sig rest => .ok sig rest
  | .fail _ => .abort .undefined
  | .abort e => .abort e

/-- `action0` and `action1`: the characters of an action. -/
def gdbActionText : GdbParser (List (BitVec 8)) :=
  Parser.orElse (foldWith (fun c => [c]) (oneof (str "cst"))) <|
    (oneof (str "CS")).andThen fun c => foldWith (fun sig => c :: sig) gdbSignal

/-- `gdbf_vcont_action`: an action of `vCont`, with a signal or without.  An action without a thread is one
for all. -/
def gdbfVcontAction (actstr : List (BitVec 8)) (thread : Option GdbThread) : Except Abort GdbVcont :=
  let thread := thread.getD ⟨threadUnset, threadAll⟩
  match actstr with
  | [action] => .ok ⟨action, -1, thread⟩
  | [action, s1, s2] => .ok ⟨action, strtolInt [s1, s2], thread⟩
  | _ => .error .xassert

/-- `action`: the letter of an action, its signal, and the thread after a colon. -/
def gdbAction : GdbParser GdbVcont :=
  Parser.apply (fun x => gdbfVcontAction x.1 x.2) <|
    gdbActionText.andThen fun actstr =>
      foldWith (fun thread => (actstr, thread))
        (Parser.maybe ((char (chr ':')).andThen fun _ => gdbThreadId))

/-- `gdb_packet_vcont`: at least one action, each after a semicolon. -/
def gdbPacketVcont : GdbParser GdbCommand :=
  (Parser.word (str "vCont")).andThen fun name =>
    foldWith (fun args => ⟨name, .vcont args⟩)
      (Parser.many1 ((char (chr ';')).andThen fun _ => gdbAction))

/-- `gdb_packet_m`: a range of memory to read. -/
def gdbPacketm : GdbParser GdbCommand :=
  (char (chr 'm')).andThen fun _ => foldWith (fun mem => ⟨str "m", .memory mem⟩) gdbMemory

/-- `gdb_packet_M`: a range of memory and the digits of the bytes to write to it. -/
def gdbPacketM : GdbParser GdbCommand :=
  (char (chr 'M')).andThen fun _ => gdbMemory.andThen fun loc => (char (chr ':')).andThen fun _ =>
    foldWith (fun data => ⟨str "M", .memoryw loc data⟩) hexdigits

/-- `gdb_arg`: an argument with the comma that ends it. -/
def gdbArg {α : Type} (p : GdbParser α) : GdbParser α :=
  p.andThen fun a => foldWith (fun _ => a) (char (chr ','))

/-- `gdb_packet_z`: a breakpoint to be set or removed, by the letter. -/
def gdbPacketZ : GdbParser GdbCommand :=
  (oneof (str "zZ")).andThen fun name =>
    (gdbArg (foldWith (fun c => c.toNat - 48) (oneof (str "01234")))).andThen fun type =>
      (gdbArg gdbAddress).andThen fun address =>
        foldWith (fun kind => ⟨[name], .brk ⟨type, address, kind⟩⟩) gdbUhex

/-- `gdb_packet_T`: a thread to ask after. -/
def gdbPacketT : GdbParser GdbCommand :=
  (char (chr 'T')).andThen fun _ => foldWith (fun id => ⟨str "T", .thread id⟩) gdbThreadId

/-- `gdbf_ignarg`: the text up to a colon, and no argument. -/
def gdbfIgnarg (text : List (BitVec 8)) : GdbCommand := ⟨text.takeWhile (· != chr ':'), .none⟩

/-- `gdb_any`: any other packet.  Its text up to a colon is its name. -/
def gdbAny : GdbParser GdbCommand := foldWith gdbfIgnarg (Parser.many1 anyChar)

/-- `gdb_cmd`: a packet that takes up all of the text. -/
def gdbCmd (p : GdbParser GdbCommand) : GdbParser GdbCommand :=
  p.andThen fun cmd => foldWith (fun _ => cmd) Parser.eoi

/-- `gdb_parse_stage2`: the packets with arguments in the order in which the source tries them, and any text
at the end.  The first that reads the whole text decides. -/
def gdbParseStage2 : GdbParser GdbCommand :=
  (gdbCmd gdbPacketH).orElse <| (gdbCmd gdbPacketP).orElse <| (gdbCmd gdbPacketVcont).orElse <|
    (gdbCmd gdbPacketm).orElse <| (gdbCmd gdbPacketM).orElse <| (gdbCmd gdbPacketZ).orElse <|
      (gdbCmd gdbPacketT).orElse gdbAny

/-- `mpc_parse` with the parser of the second stage; no result is the null pointer. -/
def parseText (text : List (BitVec 8)) : Except Abort (Option GdbCommand) :=
  match gdbParseStage2 true text with
  | .ok cmd _ => .ok (some cmd)
  | .fail _ => .ok none
  | .abort e => .error e

/-- `gdb_parse_cmd`; `mpc_parse` takes the unescaped text up to its first zero byte, which an escaped blank
makes. -/
def gdbParseCmd (pkt : GdbPacket) : Except Abort (Option GdbCommand) := do
  if pkt.kind ≠ .packet then return none
  if !(← gdbIsValid pkt) then return none
  match ← decodeText (pkt.data.getD []) with
  | none => return none
  | some text => parseText (cstr text)

end RiscvVp.Gdb
