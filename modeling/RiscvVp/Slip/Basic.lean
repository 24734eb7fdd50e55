import Mathlib

/-!
# The SLIP channel

`Channel_SLIP` connects an UART to a tun device.  `t2s` turns a packet read from the device into the
bytes pushed to the UART; `s2t` takes the bytes the UART sends one at a time, collects them in a buffer
that grows on demand and writes each completed packet to the device.
-/

namespace RiscvVp.Slip

/-- `SLIP_S2T_BUFFER_STEP`: the bytes by which the buffer grows. -/
def SLIP_S2T_BUFFER_STEP : ℕ := 100

/-- `SLIP_END`: the end of a packet. -/
def SLIP_END : UInt8 := 0xC0

/-- `SLIP_ESC`: the next byte is one of the two below. -/
def SLIP_ESC : UInt8 := 0xDB

/-- `SLIP_ESC_END`: stands for a byte of a packet that looks like its end. -/
def SLIP_ESC_END : UInt8 := 0xDC

/-- `SLIP_ESC_ESC`: stands for a byte of a packet that looks like an escape. -/
def SLIP_ESC_ESC : UInt8 := 0xDD

/-! ### From the device to the UART -/

/-- What the loop of `t2s` pushes for one byte of the packet. -/
def t2sByte (byte : UInt8) : List UInt8 :=
  if byte = SLIP_END then [SLIP_ESC, SLIP_ESC_END]
  else if byte = SLIP_ESC then [SLIP_ESC, SLIP_ESC_ESC]
  else [byte]

/-- `Channel_SLIP::t2s`: the bytes pushed to the UART when `read` on the device finds `packet`, of which
it returns as much as the buffer takes, or fails (`none`). -/
def t2s (t2sBufferSize : ℕ) : Option (List UInt8) → List UInt8
  | none => []
  | some packet => (packet.take t2sBufferSize).flatMap t2sByte ++ [SLIP_END]

/-! ### From the UART to the device -/

/-- The `realloc` of the host: the buffer resized, its content kept as far as it fits and followed by
arbitrary bytes, or `none` where the host has no memory left. -/
structure Realloc where
  resize : List UInt8 → ℕ → Option (List UInt8)
  length_resize : ∀ {b b' n}, resize b n = some b' → b'.length = n
  take_resize : ∀ {b b' n m}, resize b n = some b' → m ≤ b.length → m ≤ n → b'.take m = b.take m

/-- A `realloc` that finds memory for every buffer. -/
def Realloc.Unlimited (mem : Realloc) : Prop := ∀ b n, (mem.resize b n).isSome

/-- The state of the channel.  `tun` is what has been written to the device so far, and `stores` the
index of every byte stored in the buffer with the size the buffer had then. -/
structure Channel where
  tunfd : ℤ
  s2tBuffer : List UInt8
  s2tBufferSize : ℕ
  s2tPacketSize : ℕ
  s2tStateEsc : Bool
  tun : List (List UInt8)
  stores : List (ℕ × ℕ)

/-- The state that `open_fd` sets up, with the descriptor that `open` returned. -/
def Channel.openFd (fd : ℕ) : Channel where
  tunfd := fd
  s2tBuffer := []
  s2tBufferSize := 0
  s2tPacketSize := 0
  s2tStateEsc := false
  tun := []
  stores := []

namespace Channel

/-- `Channel_SLIP::s2t_send_packet`.  A failed or short `write` is only reported. -/
def s2tSendPacket (c : Channel) : Channel :=
  if c.tunfd < 0 then { c with s2tPacketSize := 0 }
  else if c.s2tPacketSize = 0 then c
  else { c with tun := c.tun ++ [c.s2tBuffer.take c.s2tPacketSize] }

/-- The growth of the buffer in `s2t`; `none` is the exception thrown when there is no memory. -/
def s2tGrow (mem : Realloc) (c : Channel) : Option Channel :=
  if c.s2tPacketSize ≥ c.s2tBufferSize then
    (mem.resize c.s2tBuffer (c.s2tBufferSize + SLIP_S2T_BUFFER_STEP)).map fun b =>
      { c with s2tBuffer := b, s2tBufferSize := c.s2tBufferSize + SLIP_S2T_BUFFER_STEP }
  else some c

/-- `s2t_buffer[s2t_packet_size++] = byte`, which is recorded with the size of the buffer at that time. -/
def s2tStore (c : Channel) (byte : UInt8) : Channel :=
  { c with
    s2tBuffer := c.s2tBuffer.set c.s2tPacketSize byte
    s2tPacketSize := c.s2tPacketSize + 1
    stores := c.stores ++ [(c.s2tPacketSize, c.s2tBufferSize)] }

/-- The end of `s2t`: make room for the byte and add it to the buffer. -/
def s2tAdd (mem : Realloc) (c : Channel) (byte : UInt8) : Option Channel :=
  (c.s2tGrow mem).map fun c => c.s2tStore byte

/-- `Channel_SLIP::s2t`: one byte from the serial line: the end of a packet, an escape, the byte after one,
or a byte of the packet. -/
def s2t (mem : Realloc) (c : Channel) (byte : UInt8) : Option Channel :=
  if byte = SLIP_END then
    some { c.s2tSendPacket with s2tPacketSize := 0, s2tStateEsc := false }
  else if c.s2tStateEsc then
    if byte = SLIP_ESC_END then s2tAdd mem { c with s2tStateEsc := false } SLIP_END
    else if byte = SLIP_ESC_ESC then s2tAdd mem { c with s2tStateEsc := false } SLIP_ESC
    -- an invalid packet: what has been collected and the byte are dropped
    else some { c with s2tPacketSize := 0, s2tStateEsc := false }
  else if byte = SLIP_ESC then some { c with s2tStateEsc := true }
  else s2tAdd mem c byte

/-- The bytes the UART sends, one after another. -/
def s2tAll (mem : Realloc) (c : Channel) (bytes : List UInt8) : Option Channel :=
  bytes.foldlM (s2t mem) c

end Channel

end RiscvVp.Slip
