import Mathlib

/-!
# The SD card

`SPI_SD_Card` of `platform/common/spi_sd_card.cpp`: an SDHC card behind SPI, with an image file.  A
transfer shifts one byte into `Receiver` and one byte out of `Transmitter`; these are two state
machines that share the block buffer and the position in the file.

Addresses and counters of bytes are natural numbers, since the largest address that a command can give is
below 2^41.  Messages on the console are not part of the model.
-/

namespace RiscvVp

/-! ### Checksums -/

/-- `crc7`; the bit below the seven bits of the checksum is zero. -/
def crc7 (data : List (BitVec 8)) : BitVec 8 :=
  let shift (crc : BitVec 8) : BitVec 8 :=
    if crc >>> 7 ≠ 0 then (crc <<< 1) ^^^ 0x12 else crc <<< 1
  data.foldl (fun crc b => shift (shift (shift (shift (shift (shift (shift (shift (crc ^^^ b))))))))) 0

/-- `crc16`: the checksum of a data block, byte by byte and without a table. -/
def crc16 (data : List (BitVec 8)) : BitVec 16 :=
  data.foldl (fun crc b =>
    let crc := (crc >>> 8) ||| (crc <<< 8)
    let crc := crc ^^^ b.setWidth 16
    let crc := crc ^^^ ((crc &&& 0xff) >>> 4)
    let crc := crc ^^^ (crc <<< 12)
    crc ^^^ ((crc &&& 0xff) <<< 5)) 0

/-- The two bytes of a checksum, as they are sent. -/
def crcBytes (crc : BitVec 16) : List (BitVec 8) := [(crc >>> 8).setWidth 8, crc.setWidth 8]

/-! ### The image -/

/-- `card_file`, a `std::fstream`: reads and writes share a position, and a stream that is not good stays
so.  The host fails to read or write at the positions in `faulty`. -/
structure CardFile where
  isOpen : Bool
  good : Bool
  pos : ℕ
  size : ℕ
  data : ℕ → BitVec 8
  faulty : ℕ → Bool

namespace CardFile

/-- `seekg`: the position of the stream.  A stream that has failed stays as it is, and one that is not open
fails. -/
def seekg (f : CardFile) (addr : ℕ) : CardFile :=
  if !f.good then f else if f.isOpen then { f with pos := addr } else { f with good := false }

/-- `read` of `n` bytes into a buffer.  At the end of the file it fills what it can. -/
def read (f : CardFile) (buffer : List (BitVec 8)) (n : ℕ) : List (BitVec 8) × CardFile :=
  if !f.good then (buffer, f)
  else if !f.isOpen || f.faulty f.pos then (buffer, { f with good := false })
  else
    let k := min n (f.size - f.pos)
    let bytes := (List.range k).map fun i => f.data (f.pos + i)
    (bytes ++ buffer.drop k, { f with pos := f.pos + k, good := decide (k = n) })

/-- `write` and `flush`: the bytes go to the position and the position moves behind them, if the file takes
them; the file may grow by that. -/
def write (f : CardFile) (bytes : List (BitVec 8)) : CardFile :=
  if !f.good then f
  else if !f.isOpen || f.faulty f.pos then { f with good := false }
  else { f with
    data := fun i => if f.pos ≤ i then bytes.getD (i - f.pos) (f.data i) else f.data i
    pos := f.pos + bytes.length
    size := max f.size (f.pos + bytes.length) }

/-- `is_open() && good()`: the test that the source makes after each access to the file. -/
def ok (f : CardFile) : Bool := f.isOpen && f.good

end CardFile

/-! ### The state of the card -/

/-- `Receiver::MODE`: whether the next bytes are those of a command or those of a data block. -/
inductive ReceiverMode
  | cmd
  | data
  deriving DecidableEq, Repr

/-- `Receiver`: its mode, whether more than one block is written, how many bytes it has seen and the bytes
themselves. -/
structure Receiver where
  mode : ReceiverMode
  mult : Bool
  state : ℕ
  data : List (BitVec 8)

/-- What `pdata` points to: the block, or one of the registers that are sent like a block. -/
inductive PayloadBuffer
  | block
  | sdStatus
  | scr
  | switchFunction
  | csd
  | cid
  deriving DecidableEq, Repr

/-- `Transmitter`; `pdata` is read only while `pdataLen` is not zero. -/
structure Transmitter where
  idle : Bool
  mult : Bool
  state : ℕ
  data : List (BitVec 8)
  dataLen : ℕ
  pdata : PayloadBuffer
  pdataLen : ℕ

/-- `SPI_SD_Card`: the card with its image file, its status registers, and the two state machines that
receive and send the bytes of the bus. -/
structure SpiSdCard where
  selected : Bool
  file : CardFile
  capacity : ℕ
  curAddr : ℕ
  numWrBlocks : BitVec 32
  block : List (BitVec 8)
  acmdEn : Bool
  crcEnabled : Bool
  statusR1 : BitVec 8
  statusR2 : BitVec 8
  rx : Receiver
  tx : Transmitter

/-- `block_size`: the bytes of a block, which is the unit of all addresses. -/
def blockSize : ℕ := 512

/-- `DRESP_TOKEN`: what the card answers to a data block. -/
inductive DrespToken
  | accepted
  | rejectedCrc
  | rejectedWriteError
  deriving DecidableEq, Repr

/-- The byte that is sent for a data response token. -/
def DrespToken.byte : DrespToken → BitVec 8
  | .accepted => 0b11100001 ||| (0b010 <<< 1)
  | .rejectedCrc => 0b11100001 ||| (0b101 <<< 1)
  | .rejectedWriteError => 0b11100001 ||| (0b110 <<< 1)

namespace SpiSdCard

variable (c : SpiSdCard)

/-! ### Registers -/

/-- `STATUS_R1_IDLE`: the card has been reset and not initialised yet. -/
def statusR1Idle : BitVec 8 := 1 <<< 0

/-- `STATUS_R1_ILLEGAL`: the command is not one of the card. -/
def statusR1Illegal : BitVec 8 := 1 <<< 2

/-- `STATUS_R1_PARA_ERROR`: the argument of the command is out of range, or the file refuses it. -/
def statusR1ParaError : BitVec 8 := 1 <<< 6

/-- `STATUS_R2_ERROR`: an error of a general kind, here of the position in the file. -/
def statusR2Error : BitVec 8 := 1 <<< 2

/-- `STATUS_R2_CC_ERROR`: an error of the controller inside the card. -/
def statusR2CcError : BitVec 8 := 1 <<< 3

/-- `STATUS_R2_CARD_ECC_FAILED`: the data could not be corrected. -/
def statusR2CardEccFailed : BitVec 8 := 1 <<< 4

/-- `STATUS_R2_OUT_OF_RANGE`: the block lies behind the end of the card. -/
def statusR2OutOfRange : BitVec 8 := 1 <<< 7

/-- The register OCR: powered up, of high capacity, and with all the voltages. -/
def ocr : BitVec 32 := 1 <<< 31 ||| 1 <<< 30 ||| 0b111111111 <<< 15

/-- The register CID: the identification of the card, with the checksum of its bytes and the stop bit at the
end. -/
def cid : List (BitVec 8) :=
  let id : List (BitVec 8) :=
    [0x91, 0x4D, 0x53, 0x52, 0x56, 0x56, 0x50, 0x32, 0x00, 0x3f, 0x31, 0x01, 0xa6, 0x01, 0x8C]
  id ++ [crc7 id ||| 1]

/-- The register CSD, which has the capacity. -/
def csd : List (BitVec 8) :=
  let cSize := BitVec.ofNat 32 (c.capacity / (blockSize * 1024)) - 1
  let csd : List (BitVec 8) := [0x40, 0x0e, 0x00, 0x32, 0x51, 0x59, 0x00, (cSize >>> 16).setWidth 8 &&& 0x3f,
    (cSize >>> 8).setWidth 8, cSize.setWidth 8, 0x5f, 0x80, 0x0a, 0x40, 0x00]
  csd ++ [crc7 csd ||| 1]

/-- The register SCR: the configuration of the card, which does not change. -/
def scr : List (BitVec 8) := [0x02, 0xb5, 0, 0, 0, 0, 0, 0]

/-- The bytes that `pdata` points to. -/
def buffer : PayloadBuffer → List (BitVec 8)
  | .block => c.block
  | .sdStatus => List.replicate 64 0
  | .scr => scr
  | .switchFunction => List.replicate 64 0 ++ crcBytes (crc16 (List.replicate 64 0))
  | .csd => c.csd
  | .cid => cid

/-- Set bits of the status registers after an error. -/
def error (r1 r2 : BitVec 8) : SpiSdCard :=
  { c with statusR1 := c.statusR1 ||| r1, statusR2 := c.statusR2 ||| r2 }

/-! ### Blocks -/

/-- `block_seek`: the position in the file for the block at an address.  A block that does not fit, or a
file that refuses, is an error of the parameter. -/
def blockSeek (addr : ℕ) : Bool × SpiSdCard :=
  if addr + blockSize > c.capacity then (false, c.error statusR1ParaError statusR2OutOfRange)
  else
    let c := { c with file := c.file.seekg addr }
    if !c.file.ok then (false, c.error statusR1ParaError statusR2Error)
    else (true, { c with curAddr := addr })

/-- `block_read_next`: the next block is read into the buffer, with its checksum behind it, or with two
bytes of ones where checksums are off. -/
def blockReadNext : Bool × SpiSdCard :=
  if c.curAddr + blockSize > c.capacity then (false, c.error statusR1ParaError statusR2OutOfRange)
  else
    let r := c.file.read c.block blockSize
    let c := { c with block := r.1, file := r.2 }
    if !c.file.ok then (false, c.error statusR1ParaError statusR2Error)
    else
      let crc := if c.crcEnabled then crcBytes (crc16 (c.block.take blockSize)) else [0xff, 0xff]
      (true, { c with
        curAddr := c.curAddr + blockSize
        block := c.block.take blockSize ++ crc })

/-- `block_write_next`: the block in the buffer is written to the file, and counted. -/
def blockWriteNext : Bool × SpiSdCard :=
  if c.curAddr + blockSize > c.capacity then (false, c.error statusR1ParaError statusR2OutOfRange)
  else
    let c := { c with file := c.file.write (c.block.take blockSize) }
    if !c.file.ok then (false, c.error statusR1ParaError statusR2Error)
    else (true, { c with curAddr := c.curAddr + blockSize, numWrBlocks := c.numWrBlocks + 1 })

/-! ### Responses -/

/-- `Transmitter::reset`: nothing is left to be sent. -/
def txReset : SpiSdCard :=
  { c with tx := { c.tx with idle := true, mult := false, dataLen := 0, pdataLen := 0, state := 0 } }

/-- `Transmitter::start`: what has been gathered is sent with the next bytes of the bus. -/
def txStart : SpiSdCard := { c with tx := { c.tx with idle := false } }

/-- Write bytes to `Transmitter::data`. -/
def txData (bytes : List (BitVec 8)) : SpiSdCard :=
  { c with tx := { c.tx with
      data := bytes ++ c.tx.data.drop bytes.length
      dataLen := bytes.length } }

/-- The card after `get_reset_status_R1`. -/
def resetStatusR1 : SpiSdCard :=
  { c with statusR1 := c.statusR1 &&& ~~~(statusR1Illegal ||| statusR1ParaError) }

/-- The card after `get_reset_status_R2`. -/
def resetStatusR2 : SpiSdCard := { c with statusR2 := 0 }

/-- `gen_R1`: the response of one byte, whose error bits are cleared after they have been sent. -/
def genR1 : SpiSdCard := c.resetStatusR1.txData [c.statusR1]

/-- `gen_R2`: the response of two bytes, both cleared after they have been sent. -/
def genR2 : SpiSdCard := c.resetStatusR1.resetStatusR2.txData [c.statusR1, c.statusR2]

/-- `gen_R3_R7`: the response of one byte and a word after it, the most significant byte first. -/
def genR3R7 (val : BitVec 32) : SpiSdCard :=
  c.resetStatusR1.txData [c.statusR1, (val >>> 24).setWidth 8, (val >>> 16).setWidth 8,
    (val >>> 8).setWidth 8, val.setWidth 8]

/-- `set_data_response_token`: the answer to a data block takes the place of what was to be sent. -/
def setDataResponseToken (status : DrespToken) : SpiSdCard := (c.txReset.txData [status.byte]).txStart

/-- `set_R1`: the response of one byte takes the place of what was to be sent. -/
def setR1 : SpiSdCard := c.txReset.genR1.txStart

/-- `set_R2`: the same for the response of two bytes. -/
def setR2 : SpiSdCard := c.txReset.genR2.txStart

/-- `set_R3` and `set_R7`: the same for the responses with a word. -/
def setR3R7 (val : BitVec 32) : SpiSdCard := (c.txReset.genR3R7 val).txStart

/-- The payload that follows the bytes of a response. -/
def txPayload (data : PayloadBuffer) (len : ℕ) (mult : Bool) : SpiSdCard :=
  { c with tx := { c.tx with pdata := data, pdataLen := len, mult } }

/-- `set_R1_payload`: a response of one byte, and a block of data with its token after it. -/
def setR1Payload (data : PayloadBuffer) (len : ℕ) (mult : Bool) : SpiSdCard :=
  (c.txReset.genR1.txPayload data len mult).txStart

/-- `set_R2_payload`: a response of two bytes, and a block of data with its token after it. -/
def setR2Payload (data : PayloadBuffer) (len : ℕ) : SpiSdCard :=
  (c.txReset.genR2.txPayload data len false).txStart

/-- `set_R1_block`: the response to a read: the block at the address, or the error alone if it cannot be
had. -/
def setR1Block (addr : ℕ) (mult : Bool) : SpiSdCard :=
  let seek := c.blockSeek addr
  if !seek.1 then seek.2.setR1
  else
    let read := seek.2.blockReadNext
    if !read.1 then read.2.setR1 else read.2.setR1Payload .block (blockSize + 2) mult

/-! ### Commands -/

/-- `Receiver::reset`: the next byte is the first one of a command. -/
def rxReset : SpiSdCard := { c with rx := { c.rx with mode := .cmd, state := 0 } }

/-- `switch_data_mode`: the next byte is the token of a data block. -/
def switchDataMode (mult : Bool) : SpiSdCard := { c with rx := { c.rx with mode := .data, state := 0, mult } }

/-- A command that is not allowed, or not implemented. -/
def illegal : SpiSdCard := setR1 { c with statusR1 := c.statusR1 ||| statusR1Illegal }

/-- `do_acmd`; none if the command is not handled. -/
def doAcmd : ℕ → Option SpiSdCard
  | 13 => some (c.setR2Payload .sdStatus 64)
  | 22 =>
    let num := [(c.numWrBlocks >>> 24).setWidth 8, (c.numWrBlocks >>> 16).setWidth 8,
      (c.numWrBlocks >>> 8).setWidth 8, c.numWrBlocks.setWidth 8]
    let crc := if c.crcEnabled then crcBytes (crc16 num) else [0xff, 0xff]
    some (setR1Payload { c with block := num ++ crc ++ c.block.drop 6 } .block 6 false)
  | 23 => some c.setR1
  | 41 => some c.setR1
  | 42 => some c.setR1
  | 51 => some (c.setR1Payload .scr 8 false)
  | _ => none

/-- The commands of `do_cmd`, by number; what is not listed is answered as illegal. -/
def doPlainCmd (cmd : ℕ) (arg : BitVec 32) : SpiSdCard :=
  match cmd with
  | 0 => setR1 { c with statusR1 := c.statusR1 ||| statusR1Idle, crcEnabled := false }
  | 6 => c.setR1Payload .switchFunction 66 false
  | 8 => setR3R7 { c with statusR1 := c.statusR1 &&& ~~~statusR1Idle } 0
  | 9 => c.setR1Payload .csd 16 false
  | 10 => c.setR1Payload .cid 16 false
  | 12 => c.setR1
  | 13 => c.setR2
  | 16 => if arg ≠ 512 then c.illegal else c.setR1
  | 17 => c.setR1Block (arg.toNat * blockSize) false
  | 18 => c.setR1Block (arg.toNat * blockSize) true
  | 24 | 25 =>
    let mult := cmd == 25
    let seek := blockSeek { c with numWrBlocks := 0 } (arg.toNat * blockSize)
    (if seek.1 then seek.2.switchDataMode mult else seek.2).setR1
  | 55 => setR1 { c with acmdEn := true }
  | 58 => c.setR3R7 ocr
  | 59 => setR1 { c with crcEnabled := true }
  | _ => c.illegal

/-- `do_cmd`: a command.  The one after `CMD55` is looked up among the application commands first. -/
def doCmd (cmd : ℕ) (arg : BitVec 32) : SpiSdCard :=
  if c.acmdEn then
    let c := { c with acmdEn := false }
    (c.doAcmd cmd).getD (c.doPlainCmd cmd arg)
  else c.doPlainCmd cmd arg

/-! ### The receiver -/

/-- The command of a frame. -/
def frameCmd (data : List (BitVec 8)) : ℕ := (data.getD 0 0 &&& 0b111111).toNat

/-- The argument of a frame. -/
def frameArg (data : List (BitVec 8)) : BitVec 32 :=
  data.getD 1 0 ++ data.getD 2 0 ++ data.getD 3 0 ++ data.getD 4 0

/-- `valid`: the end bit of a frame. -/
def frameValid (data : List (BitVec 8)) : Bool := (data.getD 5 0).getLsbD 0

/-- The checksum of a frame does not match. -/
def frameCrcError (data : List (BitVec 8)) : Bool := data.getD 5 0 &&& ~~~0b1 != crc7 (data.take 5)

/-- `sm_cmd`: one byte of a command frame.  A frame has six bytes, begins with the bits 01 and ends with its
checksum, after which the command is carried out. -/
def smCmd (mosi : BitVec 8) : SpiSdCard :=
  -- record data
  let data := c.rx.data.set c.rx.state mosi
  let c := { c with rx := { c.rx with data } }
  match c.rx.state with
  | 0 => if mosi >>> 6 = 0b01 then { c with rx := { c.rx with state := 1 } } else c
  | 1 | 2 | 3 | 4 => { c with rx := { c.rx with state := c.rx.state + 1 } }
  | 5 =>
    let cmd := frameCmd data
    let c := if !frameValid data then c.rxReset else c
    let c := if (cmd == 0 || c.crcEnabled) && frameCrcError data then c.rxReset else c
    -- handle cmd
    let c := c.doCmd cmd (frameArg data)
    { c with rx := { c.rx with state := 0 } }
  | _ => c.rxReset

/-- `data_len` of the receiver: the size of `block`. -/
def rxDataLen : ℕ := blockSize + 2

/-- The checksum of the block that has been received does not match. -/
def blockCrcError : Bool :=
  c.block.getD (rxDataLen - 2) 0 ++ c.block.getD (rxDataLen - 1) 0 != crc16 (c.block.take (rxDataLen - 2))

/-- `sm_data`, once a block is complete. -/
def blockReceived : SpiSdCard :=
  -- check crc
  let c := if c.crcEnabled && c.blockCrcError then
    (c.setDataResponseToken .rejectedCrc).rxReset else c
  let write := c.blockWriteNext
  let c := if !write.1 then (write.2.setDataResponseToken .rejectedWriteError).rxReset else write.2
  let c := c.setDataResponseToken .accepted
  { c with rx := { c.rx with state := 0 } }

/-- `sm_data`: one byte of a data block: the token, then the bytes of the block, then the two of its
checksum. -/
def smData (mosi : BitVec 8) : SpiSdCard :=
  if c.rx.state = 0 then
    -- wait for token
    if mosi = 0b11111110 then
      if c.rx.mult then (c.setDataResponseToken .rejectedWriteError).rxReset
      else { c with rx := { c.rx with state := c.rx.state + 1 } }
    else if mosi = 0b11111100 then
      if !c.rx.mult then (c.setDataResponseToken .rejectedWriteError).rxReset
      else { c with rx := { c.rx with state := c.rx.state + 1 } }
    else if mosi = 0b11111101 then c.rxReset
    else if mosi = 0xff then c
    else (c.setDataResponseToken .rejectedWriteError).rxReset
  else if c.rx.state < rxDataLen + 1 then
    { c with
      block := c.block.set (c.rx.state - 1) mosi
      rx := { c.rx with state := c.rx.state + 1 } }
  else c.blockReceived

/-- `Receiver::sm`: one byte from the host, which goes to the state machine of the mode. -/
def rxSm (mosi : BitVec 8) : SpiSdCard :=
  match c.rx.mode with
  | .cmd => c.smCmd mosi
  | .data => c.smData mosi

/-! ### The transmitter -/

/-- `IDLE_LEN`: the bytes of ones before a response. -/
def idleLen : ℕ := 2

/-- `TOKEN_LEN`: the byte that begins a data block. -/
def tokenLen : ℕ := 1

/-- The data error token, with one bit for each flag of the second status. -/
def derrToken : BitVec 8 :=
  (if c.statusR2 &&& statusR2Error ≠ 0 then 1 <<< 0 else 0) |||
  (if c.statusR2 &&& statusR2CcError ≠ 0 then 1 <<< 1 else 0) |||
  (if c.statusR2 &&& statusR2CardEccFailed ≠ 0 then 1 <<< 2 else 0) |||
  (if c.statusR2 &&& statusR2OutOfRange ≠ 0 then 1 <<< 3 else 0)

/-- The end of `Transmitter::sm`: `state++`, from the state that the branch leaves. -/
def txNext (state : ℕ) : SpiSdCard := { c with tx := { c.tx with state := state + 1 } }

/-- The branch of `Transmitter::sm` in which everything has been sent. -/
def txDone : BitVec 8 × SpiSdCard :=
  if c.tx.mult then
    -- read next block and transmit
    let read := c.blockReadNext
    if !read.1 then
      (read.2.derrToken, ({ read.2 with tx := { read.2.tx with idle := true } }).txNext 0)
    else
      -- restart at block token
      (0xff, read.2.txNext (idleLen + read.2.tx.dataLen - tokenLen))
  else (0xff, ({ c with tx := { c.tx with idle := true } }).txNext 0)

/-- `Transmitter::sm`: one byte to the host: idle bytes, the response, the token, the data.  What comes
after the last byte is decided by `tx_done`. -/
def txSm : BitVec 8 × SpiSdCard :=
  let t := c.tx
  if t.idle then (0xff, c)
  else if t.state < idleLen then (0xff, c.txNext t.state)
  else if t.state < idleLen + t.dataLen then (t.data.getD (t.state - idleLen) 0, c.txNext t.state)
  else if t.pdataLen ≠ 0 ∧ t.state < idleLen + t.dataLen + tokenLen then (0xfe, c.txNext t.state)
  else if t.pdataLen ≠ 0 ∧ t.state < idleLen + t.dataLen + tokenLen + t.pdataLen then
    ((c.buffer t.pdata).getD (t.state - (idleLen + t.dataLen + tokenLen)) 0, c.txNext t.state)
  else c.txDone

/-- `transfer`: one byte in each direction.  The byte that is sent may belong to the response to the byte
that has just been received. -/
def transfer (mosi : BitVec 8) : BitVec 8 × SpiSdCard :=
  if c.selected then (c.rxSm mosi).txSm else (0xff, c)

/-! ### The start -/

/-- A selected card after `insert` of a good image. -/
def inserted (size : ℕ) (data : ℕ → BitVec 8) : SpiSdCard where
  selected := true
  file := ⟨true, true, size, size, data, fun _ => false⟩
  capacity := size
  curAddr := 0
  numWrBlocks := 0
  block := List.replicate (blockSize + 2) 0
  acmdEn := false
  crcEnabled := false
  statusR1 := statusR1Idle
  statusR2 := 0
  rx := ⟨.cmd, false, 0, List.replicate 6 0⟩
  tx := ⟨true, false, 0, List.replicate 7 0, 0, .block, 0⟩

end SpiSdCard

end RiscvVp
