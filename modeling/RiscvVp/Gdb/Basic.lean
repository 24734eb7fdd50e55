import RiscvVp.Lib.Parser

/-!
# Packets of the GDB remote protocol

`core/common/gdb-mc/libgdb`: `util.c` (checksums, run lengths and escapes), `response.c` (packets
that are sent) and `parser1.c` (packets that are received).

A `char` is eight bits and signed; a string is the list of its bytes up to the terminating zero.  An
`int` is 32 bits wide and wraps around.  `xassert` is an assertion that is compiled in.
-/

namespace RiscvVp.Gdb

/-- How a function of the library ends the program instead of returning. -/
inductive Abort
  /-- A failed `xassert` or `assert`. -/
  | xassert
  /-- `err` or `errx`: the program ends with a message. -/
  | err
  /-- The language gives no meaning to what is done. -/
  | undefined
  deriving DecidableEq, Repr

/-- `xassert`: an assertion that is never compiled away; where it fails, the program ends. -/
def xassert (c : Prop) [Decidable c] : Except Abort Unit := if c then .ok () else .error .xassert

/-- A character constant of the source, as a byte. -/
def chr (c : Char) : BitVec 8 := BitVec.ofNat 8 c.toNat

/-- A string constant of the source, as bytes and without the zero at its end. -/
def str (s : String) : List (BitVec 8) := s.toList.map chr

/-- The bytes of a buffer that belong to the string in it: `strlen` of them. -/
def cstr (buf : List (BitVec 8)) : List (BitVec 8) := buf.takeWhile (· != 0)

/-- `INT_MAX`: the bound of a length that `snprintf` can return. -/
def intMax : ℕ := 2 ^ 31 - 1

/-- `CHAR_MAX`: the greatest of the signed characters. -/
def charMax : ℤ := 127

/-- `GDB_CSUM_LEN`: the digits of a checksum. -/
def csumLen : ℕ := 2

/-! ### Checksums -/

/-- The `csum` of the loop of `calc_csum`: characters are added with their sign. -/
def csumLoop (data : List (BitVec 8)) : BitVec 32 :=
  data.foldl (fun csum c => csum + c.signExtend 32) 0

/-- `calc_csum`; the sign of a remainder is that of the dividend. -/
def calcCsum (data : List (BitVec 8)) : BitVec 32 := (csumLoop (cstr data)).srem 256

/-- One digit of a number in base 16. -/
def hexDigit (d : ℕ) : BitVec 8 := if d < 10 then BitVec.ofNat 8 (48 + d) else BitVec.ofNat 8 (87 + d)

/-- The digits that `%x` prints, at least `width` of them: `v` is read as an `unsigned`. -/
def formatHex (width : ℕ) (v : ℕ) : List (BitVec 8) :=
  ((Nat.digits 16 v).reverse.map hexDigit).leftpad width (chr '0')

/-- `%.2x` of a checksum. -/
def formatCsum (csum : BitVec 32) : List (BitVec 8) := formatHex csumLen csum.toNat

/-! ### Run lengths and escapes -/

/-- `GDB_RUNLEN_CHAR`: the asterisk, after which a count says how often the character before it is repeated. -/
def runlenChar : BitVec 8 := 0x2a

/-- `GDB_RUNLEN_OFF`: what is added to a count to make it a printable character. -/
def runlenOff : ℤ := 29

/-- `GDB_ESCAPE_CHAR`: the closing brace, after which one byte is changed. -/
def escapeChar : BitVec 8 := 0x7d

/-- `GDB_ESCAPE_BYTE`: what the byte after it is xored with. -/
def escapeByte : BitVec 8 := 0x20

/-- The loop of `gdb_decode_runlen`.  `prev` is `data[i - 1]`, which is not there in the first round,
and `ndat` what is written so far; no result is the null pointer. -/
def decodeRunlenLoop (prev : Option (BitVec 8)) (runlen : ℤ) (ndat : List (BitVec 8)) :
    List (BitVec 8) → Except Abort (Option (List (BitVec 8)))
  | [] => .ok (some ndat)
  | c :: rest =>
    if c = runlenChar then
      match prev with
      | none => .ok none
      | some p => decodeRunlenLoop (some c) p.toInt ndat rest
    else if runlen = -1 then do
      let runlen := c.toInt
      xassert (0 ≤ runlen ∧ runlen ≤ charMax)
      decodeRunlenLoop (some c) (-1) (ndat ++ [BitVec.ofInt 8 runlen]) rest
    else
      let rcount := c.toInt - runlenOff
      if rcount ≤ 0 then .ok none
      else do
        xassert (0 ≤ runlen ∧ runlen ≤ charMax)
        decodeRunlenLoop (some c) (-1)
          (ndat ++ List.replicate rcount.toNat (BitVec.ofInt 8 runlen)) rest

/-- `gdb_decode_runlen`: the repeated characters are written out.  An asterisk at the start, or a count that
is not positive, gives no result, and a character from 0x80 on ends the program. -/
def gdbDecodeRunlen (data : List (BitVec 8)) : Except Abort (Option (List (BitVec 8))) :=
  decodeRunlenLoop none (-1) [] (cstr data)

/-- The loop of `gdb_unescape`. -/
def unescapeLoop (esc : Bool) : List (BitVec 8) → List (BitVec 8)
  | [] => []
  | c :: rest =>
    if c = escapeChar then unescapeLoop true rest
    else (if esc then c ^^^ escapeByte else c) :: unescapeLoop false rest

/-- `gdb_unescape`: the escaped bytes are changed back, up to the first zero byte of the text. -/
def gdbUnescape (data : List (BitVec 8)) : List (BitVec 8) := unescapeLoop false (cstr data)

/-- The text of a payload: `gdb_decode_runlen` and then `gdb_unescape`, as `gdb_parse_cmd` calls
them. -/
def decodeText (data : List (BitVec 8)) : Except Abort (Option (List (BitVec 8))) := do
  match ← gdbDecodeRunlen data with
  | none => return none
  | some data => return some (gdbUnescape data)

/-! ### Packets -/

/-- `gdb_kind_t`: the kinds of messages, of which only the first two carry data. -/
inductive GdbKind
  | notify
  | packet
  | nack
  | ack
  | interrupt
  deriving DecidableEq, Repr

/-- `gdb_packet_t`; only packets and notifications have data. -/
structure GdbPacket where
  kind : GdbKind
  data : Option (List (BitVec 8))
  csum : List (BitVec 8)
  deriving DecidableEq, Repr

/-- `gdb_is_valid`; `snprintf` returns the number of digits whether they fit or not. -/
def gdbIsValid (pkt : GdbPacket) : Except Abort Bool :=
  match pkt.data with
  | none => .ok true
  | some data => do
    let strcsum := formatCsum (calcCsum data)
    xassert (strcsum.length = csumLen)
    return pkt.csum == strcsum.take csumLen

/-- `kind_to_char`: the character that a message of this kind begins with.  An interrupt is never sent. -/
def kindToChar : GdbKind → Except Abort (BitVec 8)
  | .notify => .ok (chr '#')
  | .packet => .ok (chr '$')
  | .nack => .ok (chr '-')
  | .ack => .ok (chr '+')
  | .interrupt => .error .xassert

/-- `gdb_serialize`; there is no data for an acknowledgement. -/
def gdbSerialize (kind : GdbKind) (data : Option (List (BitVec 8))) :
    Except Abort (List (BitVec 8)) := do
  let pktkind ← kindToChar kind
  if kind = .nack ∨ kind = .ack then
    xassert (data = none)
    return [pktkind]
  match data with
  | none => .error .undefined
  | some data =>
    let csum := calcCsum data
    -- the terminating zero, the delimiter of the checksum and the kind
    let pktlen := (cstr data).length + csumLen + 3
    let serialized := pktkind :: cstr data ++ chr '#' :: formatCsum csum
    -- `snprintf` fails on what is longer than an `int` can say
    if intMax < serialized.length then .error .err
    else if pktlen ≤ serialized.length then .error .err
    else return serialized

/-! ### The parser of the first stage -/

/-- A parser of the library. -/
abbrev GdbParser := Parser Abort (BitVec 8)

/-- `mpc_any`: any character, but not the end of the text. -/
def anyChar : GdbParser (BitVec 8) := Parser.satisfy fun _ => true

/-- `mpc_char`: one given character. -/
def char (c : BitVec 8) : GdbParser (BitVec 8) := Parser.satisfy (· == c)

/-- `mpc_oneof`: one of the given characters. -/
def oneof (cs : List (BitVec 8)) : GdbParser (BitVec 8) := Parser.satisfy (cs.contains ·)

/-- `mpc_noneof`: any character but the given ones. -/
def noneof (cs : List (BitVec 8)) : GdbParser (BitVec 8) := Parser.satisfy fun c => !cs.contains c

/-- `gdb_csum`, with the delimiter. -/
def gdbCsum : GdbParser (List (BitVec 8)) :=
  (char (chr '#')).andThen fun d => anyChar.andThen fun c1 => anyChar.andThen fun c2 =>
    .succeed [d, c1, c2]

/-- `gdbf_packet`: a packet made of its first character, its data and the sign and digits of its checksum. -/
def gdbfPacket (start : BitVec 8) (data csum : List (BitVec 8)) : Except Abort GdbPacket :=
  if start = chr '%' then .ok ⟨.notify, some data, (csum.drop 1).take csumLen⟩
  else if start = chr '$' then .ok ⟨.packet, some data, (csum.drop 1).take csumLen⟩
  else .error .xassert

/-- `gdb_packet` and `gdb_notification`: a first character, data without the characters of `stop`, and
a checksum. -/
def gdbFramed (start : BitVec 8) (stop : List (BitVec 8)) : GdbParser GdbPacket :=
  Parser.apply (fun x => gdbfPacket x.1 x.2.1 x.2.2) <|
    (char start).andThen fun c => (noneof stop).many.andThen fun data => gdbCsum.andThen fun csum =>
      .succeed (c, data, csum)

/-- `gdb_packet`: a packet between a dollar sign and a number sign; neither may be part of its data. -/
def gdbPacket : GdbParser GdbPacket := gdbFramed (chr '$') (str "#$")

/-- `gdb_notification`: the same after a percent sign, which may not be part of the data either. -/
def gdbNotification : GdbParser GdbPacket := gdbFramed (chr '%') (str "#$%")

/-- `gdbf_acknowledge`: plus acknowledges a packet, and minus asks for it again. -/
def gdbfAcknowledge (c : BitVec 8) : Except Abort GdbPacket :=
  if c = chr '+' then .ok ⟨.ack, none, [0, 0]⟩
  else if c = chr '-' then .ok ⟨.nack, none, [0, 0]⟩
  else .error .xassert

/-- `gdb_acknowledge`: one of these two characters. -/
def gdbAcknowledge : GdbParser GdbPacket := (oneof (str "+-")).apply gdbfAcknowledge

/-- `gdb_interrupt`: the byte 3, without any frame. -/
def gdbInterrupt : GdbParser GdbPacket :=
  (char 0x03).apply fun _ => .ok ⟨.interrupt, none, [0, 0]⟩

/-- `gdb_parse_stage1`: one message, of the kind that its first character tells. -/
def gdbParseStage1 : GdbParser GdbPacket :=
  gdbAcknowledge.orElse (gdbPacket.orElse (gdbNotification.orElse gdbInterrupt))

/-- `gdb_parse_pkt`: the next packet of the stream and what is left of it; no result is the null
pointer. -/
def gdbParsePkt (stream : List (BitVec 8)) :
    Except Abort (Option (GdbPacket × List (BitVec 8))) :=
  match Parser.predictive gdbParseStage1 true stream with
  | .ok pkt rest => .ok (some (pkt, rest))
  | .fail _ => .ok none
  | .abort e => .error e

end RiscvVp.Gdb
