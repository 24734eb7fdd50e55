import Mathlib

/-!
# The channel of an UART

`Channel_IF` keeps a fifo for each direction between the simulation and a remote.  Three threads use it:
the simulation calls `txpush`, `rxpull` and the `get_..._fifo_size` methods, `transmitter_threadf` pulls
what is to be sent, and `main_threadf` pushes what is received, until `stop_handling` ends the two
threads.  A fifo is guarded by a mutex; the semaphore `txfull` counts the bytes to send and `rxempty` the
free places for received bytes.

The threads interleave between any two operations on a mutex, a semaphore, a fifo or the flag
`stop_flag`, so the place where a thread is stands in the state.
-/

namespace RiscvVp

/-- The two fifos of a channel, the one to the outside and the one from there. -/
inductive Fifo
  | tx
  | rx
  deriving DecidableEq, Repr

namespace ChannelIf

/-- Where the simulation is in the methods of the channel, one place for each point at which another thread
can come in between. -/
inductive SocPc
  /-- In none of the methods. -/
  | idle
  /-- `txpush`: waits for `txmtx`. -/
  | txLock (txdata : BitVec 8)
  /-- `txpush`: has `txmtx`. -/
  | txBody (txdata : BitVec 8)
  /-- `txpush`: the fifo is `full`, or has the byte. -/
  | txUnlock (full : Bool)
  /-- `txpush`: before `spost(&txfull)`. -/
  | txPost
  /-- `rxpull`: waits for `rcvmtx`. -/
  | rxLock
  /-- `rxpull`: has `rcvmtx`. -/
  | rxBody
  /-- `rxpull`: a byte is popped, before `spost(&rxempty)`. -/
  | rxPost
  /-- `rxpull`: before it releases `rcvmtx`. -/
  | rxUnlock
  /-- `get_tx_fifo_size` or `get_rx_fifo_size`: waits for the mutex. -/
  | sizeLock (fifo : Fifo)
  /-- `get_tx_fifo_size` or `get_rx_fifo_size`: has the mutex. -/
  | sizeBody (fifo : Fifo)
  /-- `get_tx_fifo_size` or `get_rx_fifo_size`: before it releases the mutex. -/
  | sizeUnlock (fifo : Fifo)
  /-- `stop_handling`: the flag is set and the pipe written, before `post_rxempty`. -/
  | stopPost
  /-- `stop_handling`: waits for the main thread. -/
  | join
  /-- `stop_handling` has returned. -/
  | stopped
  deriving DecidableEq, Repr

/-- Where `transmitter_threadf` is, the thread that writes the bytes of the simulation to the host. -/
inductive TxPc
  /-- Before the test of the loop. -/
  | test
  /-- `txpull`: waits for `txfull`. -/
  | wait
  /-- `txpull`: before the test of the size. -/
  | check
  /-- `txpull`: waits for `txmtx`. -/
  | lock
  /-- `txpull`: has `txmtx`. -/
  | pop
  /-- `txpull`: before it releases `txmtx`. -/
  | unlock (data : BitVec 8)
  /-- `txpull`: before it notifies `asyncEvent`. -/
  | notify (data : BitVec 8)
  /-- `txpull` has returned a byte of the fifo; before the test of the flag. -/
  | retest (data : BitVec 8)
  /-- `txpull` has found no byte and returned 0; before the test of the flag. -/
  | retestEmpty
  /-- Before `write_data`. -/
  | write (data : BitVec 8)
  /-- The thread has ended; the byte it then had is not written. -/
  | done (data : Option (BitVec 8))
  deriving DecidableEq, Repr

/-- Where `main_threadf` is, the thread that polls the host and reads from it. -/
inductive RxPc
  /-- Before the test of one of the loops. -/
  | loop
  /-- In `open_fd`, `poll` or `close_fd`. -/
  | poll
  /-- In `handle_input`, with these bytes left to push.  Before the first, `rxpush` waits for
  `rxempty`. -/
  | push (input : List (BitVec 8))
  /-- `rxpush`: waits for `rcvmtx`. -/
  | lock (data : BitVec 8) (input : List (BitVec 8))
  /-- `rxpush`: has `rcvmtx`. -/
  | body (data : BitVec 8) (input : List (BitVec 8))
  /-- `rxpush`: before it releases `rcvmtx`. -/
  | unlock (input : List (BitVec 8))
  /-- `rxpush`: before it notifies `asyncEvent`. -/
  | notify (input : List (BitVec 8))
  /-- The loops are left; before the flag is set. -/
  | setStop
  /-- Before `post_txfull`. -/
  | postTx
  /-- Waits for the transmitter thread. -/
  | join
  /-- The thread has ended. -/
  | done
  deriving DecidableEq, Repr

end ChannelIf

/-- The state of a channel and its threads. -/
structure ChannelIf where
  txFifoDepth : ℕ
  rxFifoDepth : ℕ
  txFifo : List (BitVec 8)
  txfull : ℕ
  rxFifo : List (BitVec 8)
  rxempty : ℕ
  /-- Whether `txmtx` is held. -/
  txmtx : Bool
  /-- Whether `rcvmtx` is held. -/
  rcvmtx : Bool
  stopFlag : Bool
  soc : ChannelIf.SocPc
  tx : ChannelIf.TxPc
  rx : ChannelIf.RxPc

namespace ChannelIf

/-- What can be seen of a step. -/
inductive Event
  /-- `txpush` has put the byte into the fifo. -/
  | accepted (txdata : BitVec 8)
  /-- `txpush` ignores the byte. -/
  | refused (txdata : BitVec 8)
  /-- `write_data`. -/
  | written (data : BitVec 8)
  /-- `handle_input` has found these bytes. -/
  | arrived (input : List (BitVec 8))
  /-- What `rxpull` returns. -/
  | pulled (ret : BitVec 32)
  /-- What a `get_..._fifo_size` method returns. -/
  | size (fifo : Fifo) (ret : ℕ)
  /-- `asyncEvent.notify()` -/
  | notified
  deriving DecidableEq, Repr

/-- A step: the simulation calls a method, a thread goes on, or the file descriptor has something for
the main thread. -/
inductive Act
  | txpush (txdata : BitVec 8)
  | rxpull
  | size (fifo : Fifo)
  | stop
  | soc
  | tx
  | rx
  /-- `poll` reports input. -/
  | input (input : List (BitVec 8))
  /-- `receiver` returns; the descriptor is closed. -/
  | close
  /-- `open_fd` fails. -/
  | openFails
  deriving DecidableEq, Repr

/-- `Channel_IF::start`: both queues are empty, and the semaphores say so. -/
def start (txFifoDepth rxFifoDepth : ℕ) : ChannelIf where
  txFifoDepth := txFifoDepth
  rxFifoDepth := rxFifoDepth
  txFifo := []
  txfull := 0
  rxFifo := []
  rxempty := rxFifoDepth
  txmtx := false
  rcvmtx := false
  stopFlag := false
  soc := .idle
  tx := .test
  rx := .loop

/-- Whether the mutex of a fifo is held. -/
def locked (c : ChannelIf) : Fifo → Bool
  | .tx => c.txmtx
  | .rx => c.rcvmtx

/-- Take or release the mutex of a fifo. -/
def setLocked (c : ChannelIf) (b : Bool) : Fifo → ChannelIf
  | .tx => { c with txmtx := b }
  | .rx => { c with rcvmtx := b }

/-- The bytes in a fifo. -/
def fifo (c : ChannelIf) : Fifo → List (BitVec 8)
  | .tx => c.txFifo
  | .rx => c.rxFifo

/-- A method of the channel is called. -/
def call (c : ChannelIf) (pc : SocPc) : Option (Option Event × ChannelIf) :=
  if c.soc = .idle then some (none, { c with soc := pc }) else none

/-- The simulation goes on by one step; `none` where it waits for a mutex, a semaphore or a thread. -/
def socStep (c : ChannelIf) : Option (Option Event × ChannelIf) :=
  match c.soc with
  | .idle => none
  | .txLock txdata =>
    if c.txmtx then none else some (none, { c with txmtx := true, soc := .txBody txdata })
  | .txBody txdata =>
    if c.txFifo.length ≥ c.txFifoDepth then
      some (some (.refused txdata), { c with soc := .txUnlock true })
    else
      some (some (.accepted txdata),
        { c with txFifo := c.txFifo ++ [txdata], soc := .txUnlock false })
  | .txUnlock full =>
    some (none, { c with txmtx := false, soc := if full then .idle else .txPost })
  | .txPost => some (none, { c with txfull := c.txfull + 1, soc := .idle })
  | .rxLock => if c.rcvmtx then none else some (none, { c with rcvmtx := true, soc := .rxBody })
  | .rxBody =>
    match c.rxFifo with
    | [] => some (some (.pulled (1 <<< 31)), { c with soc := .rxUnlock })
    | data :: rest =>
      some (some (.pulled (data.setWidth 32)), { c with rxFifo := rest, soc := .rxPost })
  | .rxPost => some (none, { c with rxempty := c.rxempty + 1, soc := .rxUnlock })
  | .rxUnlock => some (none, { c with rcvmtx := false, soc := .idle })
  | .sizeLock f =>
    if c.locked f then none else some (none, { c.setLocked true f with soc := .sizeBody f })
  | .sizeBody f => some (some (.size f (c.fifo f).length), { c with soc := .sizeUnlock f })
  | .sizeUnlock f => some (none, { c.setLocked false f with soc := .idle })
  | .stopPost => some (none, { c with rxempty := c.rxempty + 1, soc := .join })
  | .join => if c.rx = .done then some (none, { c with soc := .stopped }) else none
  | .stopped => none

/-- The transmitter thread goes on by one step; `none` where it waits. -/
def txStep (c : ChannelIf) : Option (Option Event × ChannelIf) :=
  match c.tx with
  | .test => some (none, { c with tx := if c.stopFlag then .done none else .wait })
  | .wait => if c.txfull = 0 then none else some (none, { c with txfull := c.txfull - 1, tx := .check })
  | .check => some (none, { c with tx := if c.txFifo.length = 0 then .retestEmpty else .lock })
  | .lock => if c.txmtx then none else some (none, { c with txmtx := true, tx := .pop })
  | .pop =>
    match c.txFifo with
    -- `front` and `pop` of an empty queue are undefined
    | [] => none
    | data :: rest => some (none, { c with txFifo := rest, tx := .unlock data })
  | .unlock data => some (none, { c with txmtx := false, tx := .notify data })
  | .notify data => some (some .notified, { c with tx := .retest data })
  | .retest data => some (none, { c with tx := if c.stopFlag then .done (some data) else .write data })
  | .retestEmpty => some (none, { c with tx := if c.stopFlag then .done none else .write 0 })
  | .write data => some (some (.written data), { c with tx := .test })
  | .done _ => none

/-- The main thread goes on by one step.  In `poll` and in `open_fd` it waits for the outside. -/
def rxStep (c : ChannelIf) : Option (Option Event × ChannelIf) :=
  match c.rx with
  | .loop => some (none, { c with rx := if c.stopFlag then .setStop else .poll })
  | .poll => none
  | .push [] => some (none, { c with rx := .loop })
  | .push (data :: input) =>
    if c.rxempty = 0 then none
    else some (none, { c with rxempty := c.rxempty - 1, rx := .lock data input })
  | .lock data input =>
    if c.rcvmtx then none else some (none, { c with rcvmtx := true, rx := .body data input })
  | .body data input => some (none, { c with rxFifo := c.rxFifo ++ [data], rx := .unlock input })
  | .unlock input => some (none, { c with rcvmtx := false, rx := .notify input })
  | .notify input => some (some .notified, { c with rx := .push input })
  | .setStop => some (none, { c with stopFlag := true, rx := .postTx })
  | .postTx => some (none, { c with txfull := c.txfull + 1, rx := .join })
  | .join =>
    match c.tx with
    | .done _ => some (none, { c with rx := .done })
    | _ => none
  | .done => none

/-- A step, if it is possible. -/
def step? (c : ChannelIf) : Act → Option (Option Event × ChannelIf)
  | .txpush txdata => c.call (.txLock txdata)
  | .rxpull => c.call .rxLock
  | .size f => c.call (.sizeLock f)
  | .stop => { c with stopFlag := true }.call .stopPost
  | .soc => c.socStep
  | .tx => c.txStep
  | .rx => c.rxStep
  | .input input => if c.rx = .poll then some (some (.arrived input), { c with rx := .push input }) else none
  | .close => if c.rx = .poll then some (none, { c with rx := .loop }) else none
  | .openFails => if c.rx = .poll then some (none, { c with rx := .setStop }) else none

/-- A step; what is not possible has no effect. -/
def step (c : ChannelIf) (a : Act) : Option Event × ChannelIf := (c.step? a).getD (none, c)

end ChannelIf

end RiscvVp
