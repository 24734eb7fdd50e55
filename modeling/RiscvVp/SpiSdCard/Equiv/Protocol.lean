import RiscvVp.SpiSdCard.Equiv.WellFormed

/-!
# Runs of the SD card protocol

A host that waits for what the card sends: reads and writes of one block and of several blocks, with fill
bytes in between.  `SpiSdCard.protocol_iff`: blocks are stored at their addresses and read back with their
checksums, and multiple reads are consecutive blocks with one start token each, in all runs without a
single-block write.  After a single-block write the receiver goes on waiting for a token, and takes the
next command for an invalid one.

`pending` is what the transmitter has yet to send.
-/

namespace RiscvVp.SpiSdCard

/-! ### Blocks -/

/-- A block of an image. -/
def blockAt (image : ℕ → BitVec 8) (a : ℕ) : List (BitVec 8) :=
  (List.range blockSize).map fun i => image (a * blockSize + i)

/-- The image after a block has been written. -/
def setBlock (image : ℕ → BitVec 8) (a : ℕ) (data : List (BitVec 8)) : ℕ → BitVec 8 := fun i =>
  if a * blockSize ≤ i then data.getD (i - a * blockSize) (image i) else image i

/-- A block with its checksum. -/
def withCrc (data : List (BitVec 8)) : List (BitVec 8) := data ++ crcBytes (crc16 data)

@[simp] theorem length_blockAt (image : ℕ → BitVec 8) (a : ℕ) : (blockAt image a).length = blockSize := by
  rw [blockAt, List.length_map, List.length_range]

theorem length_withCrc {data : List (BitVec 8)} (h : data.length = blockSize) :
    (withCrc data).length = blockSize + 2 := by
  rw [withCrc, List.length_append, h, length_crcBytes]

/-! ### The transmitter -/

/-- All that the transmitter sends of a response, from its start. -/
def response (c : SpiSdCard) : List (BitVec 8) :=
  [0xff, 0xff] ++ c.tx.data.take c.tx.dataLen ++
    (if c.tx.pdataLen = 0 then [] else 0xfe :: (c.buffer c.tx.pdata).take c.tx.pdataLen)

/-- What is left of the response, and nothing while the transmitter is idle. -/
def pending (c : SpiSdCard) : List (BitVec 8) := if c.tx.idle then [] else c.response.drop c.tx.state

section Transmitter

variable {c : SpiSdCard} {b : BitVec 8} {l : List (BitVec 8)}

theorem pending_cons (h : c.pending = b :: l) :
    c.tx.idle = false ∧ c.response[c.tx.state]? = some b ∧ c.response.drop (c.tx.state + 1) = l := by
  unfold pending at h
  split_ifs at h with hidle
  refine ⟨Bool.eq_false_of_not_eq_true hidle, ?_, ?_⟩
  · have := congrArg (fun l => l[0]?) h
    simpa using this
  · have := congrArg List.tail h
    simpa using this

/-- The bytes of a response, by the branches of `Transmitter::sm`. -/
theorem getElem?_response (hw : c.WellFormed) (s : ℕ) : c.response[s]? =
    if s < idleLen then some 0xff
    else if s < idleLen + c.tx.dataLen then some (c.tx.data.getD (s - idleLen) 0)
    else if c.tx.pdataLen ≠ 0 ∧ s < idleLen + c.tx.dataLen + tokenLen then some 0xfe
    else if c.tx.pdataLen ≠ 0 ∧ s < idleLen + c.tx.dataLen + tokenLen + c.tx.pdataLen then
      some ((c.buffer c.tx.pdata).getD (s - (idleLen + c.tx.dataLen + tokenLen)) 0)
    else none := by
  have hdata := hw.txData
  have hlen := hw.dataLen
  have hpdata := hw.pdataLen
  have htake : (c.tx.data.take c.tx.dataLen).length = c.tx.dataLen := by
    rw [List.length_take]
    omega
  have htwo : ([0xff, 0xff] : List (BitVec 8)).length = 2 := rfl
  unfold response idleLen tokenLen
  -- idle bytes, response, start token and block, in this order
  by_cases h2 : s < 2
  · rw [if_pos h2, List.append_assoc, List.getElem?_append_left (by simpa using h2)]
    interval_cases s <;> rfl
  rw [if_neg h2]
  by_cases hd : s < 2 + c.tx.dataLen
  · rw [if_pos hd, List.getElem?_append_left (by simp [htake]; omega),
      List.getElem?_append_right (by simp; omega), htwo, List.getElem?_take_of_lt (by omega),
      List.getD_eq_getElem?_getD, List.getElem?_eq_getElem (by omega)]
    rfl
  rw [if_neg hd, List.getElem?_append_right (by simp [htake]; omega), List.length_append, htake,
    htwo]
  by_cases hp : c.tx.pdataLen = 0
  · simp [hp]
  rw [if_neg hp]
  by_cases ht : s < 2 + c.tx.dataLen + 1
  · rw [if_pos ⟨hp, ht⟩, show s - (2 + c.tx.dataLen) = 0 by omega]
    rfl
  rw [if_neg fun h => ht h.2]
  have hsub : s - (2 + c.tx.dataLen) = s - (2 + c.tx.dataLen + 1) + 1 := by omega
  rw [hsub, List.getElem?_cons_succ]
  by_cases hb : s < 2 + c.tx.dataLen + 1 + c.tx.pdataLen
  · rw [if_pos ⟨hp, hb⟩, List.getElem?_take_of_lt (by omega), List.getD_eq_getElem?_getD,
      List.getElem?_eq_getElem (by omega)]
    rfl
  · rw [if_neg fun h => hb h.2, List.getElem?_eq_none]
    rw [List.length_take]
    omega

/-- The next byte is sent, and the one after it stands first in what is pending. -/
theorem txSm_of_pending (hw : c.WellFormed) (h : c.pending = b :: l) :
    c.txSm = (b, c.txNext c.tx.state) ∧ (c.txNext c.tx.state).pending = l := by
  obtain ⟨hidle, hget, hdrop⟩ := pending_cons h
  constructor
  · rw [getElem?_response hw] at hget
    unfold txSm
    dsimp only
    rw [hidle, if_neg (by decide)]
    split_ifs at hget ⊢ with h1 h2 h3 h4
    · rw [Option.some.inj hget]
    · rw [Option.some.inj hget]
    · rw [Option.some.inj hget]
    · rw [Option.some.inj hget]
  · unfold pending
    rw [if_neg (by simp [txNext, hidle])]
    exact hdrop

/-- Everything has been sent, and the transmitter asks for the next block or falls idle. -/
theorem txSm_of_pending_nil (hw : c.WellFormed) (hidle : c.tx.idle = false) (h : c.pending = []) :
    c.txSm = c.txDone := by
  have hget : c.response[c.tx.state]? = none := by
    unfold pending at h
    rw [hidle, if_neg (by decide), List.drop_eq_nil_iff] at h
    exact List.getElem?_eq_none h
  rw [getElem?_response hw] at hget
  unfold txSm
  dsimp only
  rw [hidle, if_neg (by decide)]
  split_ifs at hget ⊢
  rfl

end Transmitter

/-! ### A card that works -/

/-- The card works, and has this image. -/
structure Works (cap : ℕ) (image : ℕ → BitVec 8) (c : SpiSdCard) : Prop where
  wf : c.WellFormed
  selected : c.selected = true
  crcEnabled : c.crcEnabled = true
  acmdEn : c.acmdEn = false
  isOpen : c.file.isOpen = true
  good : c.file.good = true
  faulty : ∀ p, c.file.faulty p = false
  capacity : c.capacity = cap
  size : c.file.size = cap
  contents : c.file.data = image
  /-- while several blocks are sent, the next one is where the file is -/
  mult : c.tx.mult = true → ∃ a, c.curAddr = a * blockSize ∧ c.file.pos = a * blockSize

/-- The receiver waits for a command or for a token. -/
def Waits (c : SpiSdCard) : Prop := c.rx.state = 0

section Works

variable {cap : ℕ} {image : ℕ → BitVec 8} {c : SpiSdCard}

/-- What does not matter for a card that works. -/
theorem Works.of_eq (h : Works cap image c) {c' : SpiSdCard} (hwf : c'.WellFormed)
    (hsel : c'.selected = c.selected) (hfile : c'.file = c.file) (hcap : c'.capacity = c.capacity)
    (hcrc : c'.crcEnabled = c.crcEnabled) (hacmd : c'.acmdEn = c.acmdEn)
    (hmult : c'.tx.mult = true → ∃ a, c'.curAddr = a * blockSize ∧ c'.file.pos = a * blockSize) :
    Works cap image c' where
  wf := hwf
  selected := hsel.trans h.selected
  crcEnabled := hcrc.trans h.crcEnabled
  acmdEn := hacmd.trans h.acmdEn
  isOpen := by rw [hfile]; exact h.isOpen
  good := by rw [hfile]; exact h.good
  faulty := by rw [hfile]; exact h.faulty
  capacity := hcap.trans h.capacity
  size := by rw [hfile]; exact h.size
  contents := by rw [hfile]; exact h.contents
  mult := hmult

/-- A read in range, from where the file is. -/
theorem Works.blockReadNext (h : Works cap image c) {a : ℕ} (haddr : c.curAddr = a * blockSize)
    (hpos : c.file.pos = a * blockSize) (hle : (a + 1) * blockSize ≤ cap) :
    c.blockReadNext = (true, { c with
      file := { c.file with pos := (a + 1) * blockSize }
      curAddr := (a + 1) * blockSize
      block := withCrc (blockAt image a) }) := by
  have hnext : (a + 1) * blockSize = c.curAddr + blockSize := by rw [haddr, Nat.add_mul, Nat.one_mul]
  have hread : c.file.read c.block blockSize = (blockAt image a ++ c.block.drop blockSize,
      { c.file with pos := (a + 1) * blockSize }) := by
    have hmin : min blockSize (c.file.size - c.file.pos) = blockSize := by
      rw [h.size, hpos, ← haddr]
      omega
    unfold CardFile.read
    simp only [h.good, h.isOpen, h.faulty, Bool.not_true, Bool.false_eq_true, if_false, Bool.or_false,
      hmin, decide_true]
    rw [hpos, hnext, haddr, blockAt, h.contents]
  have htake : (blockAt image a ++ c.block.drop blockSize).take blockSize = blockAt image a := by
    rw [List.take_append_of_le_length (length_blockAt image a).ge, List.take_of_length_le]
    exact (length_blockAt image a).le
  have hok : CardFile.ok { c.file with pos := (a + 1) * blockSize } = true := by
    simp [CardFile.ok, h.isOpen, h.good]
  have hrange : ¬c.curAddr + blockSize > c.capacity := by
    rw [h.capacity]
    omega
  unfold SpiSdCard.blockReadNext
  rw [if_neg hrange, hread]
  dsimp only
  rw [hok, htake, h.crcEnabled, ← hnext]
  rfl

/-- A read beyond the end changes status registers only. -/
theorem blockReadNext_of_end (h : ¬c.curAddr + blockSize ≤ c.capacity) :
    c.blockReadNext = (false, c.error statusR1ParaError statusR2OutOfRange) := by
  unfold SpiSdCard.blockReadNext
  rw [if_pos (by omega)]

/-- A new place in the file, with the image and everything that the host sees unchanged. -/
theorem Works.seek (h : Works cap image c) {c' : SpiSdCard} (a : ℕ) (hwf : c'.WellFormed)
    (hsel : c'.selected = c.selected) (hfile : c'.file = { c.file with pos := a * blockSize })
    (haddr : c'.curAddr = a * blockSize) (hcap : c'.capacity = c.capacity)
    (hcrc : c'.crcEnabled = c.crcEnabled) (hacmd : c'.acmdEn = c.acmdEn) : Works cap image c' where
  wf := hwf
  selected := hsel.trans h.selected
  crcEnabled := hcrc.trans h.crcEnabled
  acmdEn := hacmd.trans h.acmdEn
  isOpen := by rw [hfile]; exact h.isOpen
  good := by rw [hfile]; exact h.good
  faulty := by rw [hfile]; exact h.faulty
  capacity := hcap.trans h.capacity
  size := by rw [hfile]; exact h.size
  contents := by rw [hfile]; exact h.contents
  mult := by
    rw [hfile]
    exact fun _ => ⟨a, haddr, rfl⟩

/-- The transmitter keeps a card working, and the receiver as it is. -/
theorem Works.txSm (h : Works cap image c) : Works cap image c.txSm.2 ∧ c.txSm.2.rx = c.rx ∧
    c.txSm.2.tx.mult = c.tx.mult ∧
    (c.tx.mult = false → c.txSm.2.file = c.file ∧ c.txSm.2.curAddr = c.curAddr ∧
      c.txSm.2.block = c.block) := by
  have hwf := h.wf.txSm
  have hnext : ∀ state, Works cap image (c.txNext state) := fun state =>
    h.of_eq (h.wf.txNext c.tx.idle state) rfl rfl rfl rfl rfl h.mult
  unfold SpiSdCard.txSm at hwf ⊢
  dsimp only at hwf ⊢
  split_ifs at hwf ⊢ with h1 h2 h3 h4 h5
  · exact ⟨h, rfl, rfl, fun _ => ⟨rfl, rfl, rfl⟩⟩
  · exact ⟨hnext _, rfl, rfl, fun _ => ⟨rfl, rfl, rfl⟩⟩
  · exact ⟨hnext _, rfl, rfl, fun _ => ⟨rfl, rfl, rfl⟩⟩
  · exact ⟨hnext _, rfl, rfl, fun _ => ⟨rfl, rfl, rfl⟩⟩
  · exact ⟨hnext _, rfl, rfl, fun _ => ⟨rfl, rfl, rfl⟩⟩
  · unfold txDone at hwf ⊢
    by_cases hm : c.tx.mult = true
    · obtain ⟨a, haddr, hpos⟩ := h.mult hm
      rw [if_pos hm] at hwf ⊢
      by_cases hle : (a + 1) * blockSize ≤ cap
      · rw [h.blockReadNext haddr hpos hle] at hwf ⊢
        refine ⟨h.seek (a + 1) hwf rfl rfl rfl rfl rfl rfl, rfl, rfl, fun hno => ?_⟩
        rw [hm] at hno
        cases hno
      · have hend : ¬c.curAddr + blockSize ≤ c.capacity := by
          rw [h.capacity, haddr]
          rw [Nat.add_mul, Nat.one_mul] at hle
          exact hle
        rw [blockReadNext_of_end hend] at hwf ⊢
        refine ⟨h.of_eq hwf rfl rfl rfl rfl rfl fun _ => ⟨a, haddr, hpos⟩, rfl, rfl, fun _ => ⟨rfl, rfl, rfl⟩⟩
    · rw [if_neg hm] at hwf ⊢
      exact ⟨h.of_eq hwf rfl rfl rfl rfl rfl h.mult, rfl, rfl, fun _ => ⟨rfl, rfl, rfl⟩⟩

theorem Works.transfer_eq (h : Works cap image c) (mosi : BitVec 8) :
    c.transfer mosi = (c.rxSm mosi).txSm := by
  unfold SpiSdCard.transfer
  rw [if_pos h.selected]

/-- A new state of the receiver, which the working of the card does not depend on. -/
theorem Works.of_rx (h : Works cap image c) {rx : Receiver} (hwf : WellFormed { c with rx }) :
    Works cap image { c with rx } :=
  h.of_eq hwf rfl rfl rfl rfl rfl h.mult

/-! ### Fill bytes -/

/-- A receiver that waits only records a fill byte. -/
theorem rxSm_fill (h : c.Waits) : ∃ data, c.rxSm 0xff = { c with rx := { c.rx with data } } := by
  unfold Waits at h
  unfold rxSm
  cases hm : c.rx.mode with
  | cmd =>
    refine ⟨c.rx.data.set 0 0xff, ?_⟩
    simp only [smCmd, h]
    rw [if_neg (by decide), hm]
  | data =>
    refine ⟨c.rx.data, ?_⟩
    dsimp only
    rw [smData, if_pos h, if_neg (by decide), if_neg (by decide), if_neg (by decide), if_pos rfl]

/-- A card that works, with a receiver that waits. -/
structure Ready (cap : ℕ) (image : ℕ → BitVec 8) (mode : ReceiverMode) (c : SpiSdCard) : Prop where
  works : Works cap image c
  waits : c.Waits
  mode : c.rx.mode = mode

/-- What a fill byte does to a card that waits. -/
theorem Ready.fill {mode : ReceiverMode} (h : Ready cap image mode c) :
    Ready cap image mode (c.transfer 0xff).2 ∧ (c.transfer 0xff).2.rx.mult = c.rx.mult ∧
      (c.transfer 0xff).2.tx.mult = c.tx.mult ∧
      (c.tx.mult = false → (c.transfer 0xff).2.file = c.file ∧
        (c.transfer 0xff).2.curAddr = c.curAddr) := by
  obtain ⟨data, hrx⟩ := rxSm_fill h.waits
  have hwf := h.works.wf.rxSm 0xff
  rw [h.works.transfer_eq, hrx] at *
  obtain ⟨hworks, hrx', hmult, hfile⟩ := (h.works.of_rx hwf).txSm
  refine ⟨⟨hworks, ?_, ?_⟩, ?_, hmult, fun hm => ⟨(hfile hm).1, (hfile hm).2.1⟩⟩
  · unfold Waits
    rw [hrx']
    exact h.waits
  · rw [hrx']
    exact h.mode
  · rw [hrx']

/-- What fill bytes do to a card that waits. -/
theorem Ready.fills {mode : ReceiverMode} (h : Ready cap image mode c) (n : ℕ) :
    let c' := Run.final SpiSdCard.transfer c (List.replicate n 0xff)
    Ready cap image mode c' ∧ c'.rx.mult = c.rx.mult ∧ c'.tx.mult = c.tx.mult ∧
      (c.tx.mult = false → c'.file = c.file ∧ c'.curAddr = c.curAddr) := by
  induction n generalizing c with
  | zero => exact ⟨h, rfl, rfl, fun _ => ⟨rfl, rfl⟩⟩
  | succ n ih =>
    obtain ⟨h1, hrx1, htx1, hfile1⟩ := h.fill
    obtain ⟨h2, hrx2, htx2, hfile2⟩ := ih h1
    refine ⟨h2, hrx2.trans hrx1, htx2.trans htx1, fun hm => ?_⟩
    obtain ⟨hf1, ha1⟩ := hfile1 hm
    obtain ⟨hf2, ha2⟩ := hfile2 (htx1.trans hm)
    exact ⟨hf2.trans hf1, ha2.trans ha1⟩

/-- Fill bytes bring out what is pending. -/
theorem Ready.pending {mode : ReceiverMode} (h : Ready cap image mode c) {n : ℕ}
    (hn : n ≤ c.pending.length) :
    Run.outputs SpiSdCard.transfer c (List.replicate n 0xff) = c.pending.take n ∧
      ∃ data state, Run.final SpiSdCard.transfer c (List.replicate n 0xff) =
        { c with rx := { c.rx with data }, tx := { c.tx with state } } ∧
        (Run.final SpiSdCard.transfer c (List.replicate n 0xff)).pending = c.pending.drop n := by
  induction n generalizing c with
  | zero => exact ⟨rfl, c.rx.data, c.tx.state, rfl, rfl⟩
  | succ n ih =>
    obtain ⟨data, hrx⟩ := rxSm_fill h.waits
    have hwf := h.works.wf.rxSm 0xff
    rw [hrx] at hwf
    cases hp : c.pending with
    | nil =>
      rw [hp] at hn
      exact absurd hn (by simp)
    | cons b l =>
      have hp' : SpiSdCard.pending { c with rx := { c.rx with data } } = b :: l := hp
      obtain ⟨htx, hrest⟩ := txSm_of_pending hwf hp'
      have hstep : c.transfer 0xff = (b, SpiSdCard.txNext { c with rx := { c.rx with data } } c.tx.state) := by
        rw [h.works.transfer_eq, hrx, htx]
      have h1 := h.fill.1
      rw [hstep] at h1
      rw [hp] at hn
      obtain ⟨hout, data', state', hfinal, hpend⟩ := ih h1 (by rw [hrest]; simpa using hn)
      rw [List.replicate_succ, Run.outputs, Run.final, hstep]
      refine ⟨?_, data', state', ?_, ?_⟩
      · rw [List.take_succ_cons, hout, hrest]
      · exact hfinal
      · rw [List.drop_succ_cons, ← hrest]
        exact hpend

/-! ### Frames -/

/-- A command frame: five bytes, and the byte with the checksum and the end bit. -/
def frameBytes (cmd : ℕ) (arg : BitVec 32) : List (BitVec 8) :=
  [0x40 ||| BitVec.ofNat 8 cmd, (arg >>> 24).setWidth 8, (arg >>> 16).setWidth 8,
    (arg >>> 8).setWidth 8, arg.setWidth 8]

/-- The last byte of a frame. -/
def frameEnd (cmd : ℕ) (arg : BitVec 32) : BitVec 8 := crc7 (frameBytes cmd arg) ||| 1

theorem take_set_succ {data : List (BitVec 8)} {k : ℕ} (hk : k < data.length) (b : BitVec 8) :
    (data.set k b).take (k + 1) = data.take k ++ [b] := by
  rw [List.take_add_one, List.take_set_of_le le_rfl, List.getElem?_set_self hk]
  rfl

/-- The receiver has recorded the first bytes of a frame. -/
structure InFrame (cap : ℕ) (image : ℕ → BitVec 8) (bytes : List (BitVec 8)) (c : SpiSdCard) : Prop where
  works : Works cap image c
  mode : c.rx.mode = .cmd
  state : c.rx.state = bytes.length
  data : c.rx.data.take bytes.length = bytes

/-- The first byte of a frame, recognised by its two highest bits. -/
theorem Ready.start (h : Ready cap image .cmd c) {b : BitVec 8} (hb : b >>> 6 = 0b01) :
    InFrame cap image [b] (c.transfer b).2 := by
  have hwf := h.works.wf.rxSm b
  have hstate : c.rx.state = 0 := h.waits
  have hrx : c.rxSm b = { c with rx := { c.rx with data := c.rx.data.set 0 b, state := 1 } } := by
    unfold rxSm
    rw [h.mode]
    simp only [smCmd, hstate]
    rw [if_pos hb, h.mode]
  rw [hrx] at hwf
  rw [h.works.transfer_eq, hrx]
  obtain ⟨hworks, hrx', -⟩ := (h.works.of_rx hwf).txSm
  refine ⟨hworks, ?_, ?_, ?_⟩
  · rw [hrx']
    exact h.mode
  · rw [hrx']
    rfl
  · rw [hrx']
    have hlen := h.works.wf.rxData
    exact @take_set_succ c.rx.data 0 (by omega) b

/-- A byte of the argument is collected behind those before it. -/
theorem InFrame.next {bytes : List (BitVec 8)} (h : InFrame cap image bytes c)
    (h1 : 1 ≤ bytes.length) (h4 : bytes.length ≤ 4) (b : BitVec 8) :
    InFrame cap image (bytes ++ [b]) (c.transfer b).2 := by
  have hwf := h.works.wf.rxSm b
  have hrx : c.rxSm b = { c with rx := { c.rx with
      data := c.rx.data.set bytes.length b, state := bytes.length + 1 } } := by
    unfold rxSm
    rw [h.mode]
    simp only [smCmd, h.state]
    generalize bytes.length = k at h1 h4
    interval_cases k <;> simp only [h.mode]
  rw [hrx] at hwf
  rw [h.works.transfer_eq, hrx]
  obtain ⟨hworks, hrx', -⟩ := (h.works.of_rx hwf).txSm
  refine ⟨hworks, ?_, ?_, ?_⟩
  · rw [hrx']
    exact h.mode
  · rw [hrx', List.length_append]
    rfl
  · have hlen := h.works.wf.rxData
    rw [hrx', List.length_append]
    refine (take_set_succ (by omega) b).trans ?_
    rw [h.data]

/-- Five bytes of a frame are collected.  The sixth, with the checksum, is the one that starts the command. -/
theorem Ready.frame (h : Ready cap image .cmd c) {b0 b1 b2 b3 b4 : BitVec 8} (hb : b0 >>> 6 = 0b01) :
    InFrame cap image [b0, b1, b2, b3, b4] (Run.final SpiSdCard.transfer c [b0, b1, b2, b3, b4]) := by
  have h1 := h.start hb
  have h2 := h1.next (by simp) (by simp) b1
  have h3 := h2.next (by simp) (by simp) b2
  have h4 := h3.next (by simp) (by simp) b3
  exact h4.next (by simp) (by simp) b4

/-- The checksum leaves the place of the end bit free. -/
theorem getLsbD_crc7 (data : List (BitVec 8)) : (crc7 data).getLsbD 0 = false := by
  have hshift : ∀ crc : BitVec 8,
      (if crc >>> 7 ≠ 0 then (crc <<< 1) ^^^ 0x12 else crc <<< 1).getLsbD 0 = false := by
    intro crc
    split_ifs <;> simp
  have hfold : ∀ init : BitVec 8, init.getLsbD 0 = false → (data.foldl (fun crc b =>
      let shift (crc : BitVec 8) : BitVec 8 :=
        if crc >>> 7 ≠ 0 then (crc <<< 1) ^^^ 0x12 else crc <<< 1
      shift (shift (shift (shift (shift (shift (shift (shift (crc ^^^ b))))))))) init).getLsbD 0 =
      false := by
    induction data with
    | nil => exact fun init h => h
    | cons b data ih => exact fun init _ => ih _ (hshift _)
  exact hfold 0 (by decide)

/-- A frame of the host passes the checks of the receiver. -/
theorem frame_ok {cmd : ℕ} (hcmd : cmd < 64) (arg : BitVec 32) :
    frameCmd (frameBytes cmd arg ++ [frameEnd cmd arg]) = cmd ∧
      frameArg (frameBytes cmd arg ++ [frameEnd cmd arg]) = arg ∧
      frameValid (frameBytes cmd arg ++ [frameEnd cmd arg]) = true ∧
      frameCrcError (frameBytes cmd arg ++ [frameEnd cmd arg]) = false := by
  have hcmds : ∀ cmd < 64, ((0x40 ||| BitVec.ofNat 8 cmd) &&& 0b111111).toNat = cmd := by decide
  -- the argument is sent byte by byte, the highest first
  have harg : (arg >>> 24).setWidth 8 ++ (arg >>> 16).setWidth 8 ++ (arg >>> 8).setWidth 8 ++
      arg.setWidth 8 = arg := by
    apply BitVec.eq_of_getLsbD_eq
    intro i hi
    simp only [BitVec.getLsbD_append, BitVec.getLsbD_setWidth, BitVec.getLsbD_ushiftRight]
    split_ifs with h0 h1 h2
    · simp [h0]
    · rw [show 8 + (i - 8) = i by omega]
      simp [h1]
    · rw [show 16 + (i - 8 - 8) = i by omega]
      simp [h2]
    · rw [show 24 + (i - 8 - 8 - 8) = i by omega]
      simp [show i - 8 - 8 - 8 < 8 by omega]
  -- the stop bit is the low bit, which the CRC leaves free
  have hend : frameEnd cmd arg &&& ~~~0b1 = crc7 (frameBytes cmd arg) := by
    have hcrc := getLsbD_crc7 (frameBytes cmd arg)
    unfold frameEnd
    apply BitVec.eq_of_getLsbD_eq
    intro i hi
    rw [BitVec.getLsbD_and, BitVec.getLsbD_or, BitVec.getLsbD_not]
    by_cases h0 : i = 0
    · rw [h0, hcrc]
      rfl
    · simp [h0, hi]
  refine ⟨hcmds cmd hcmd, harg, ?_, ?_⟩
  · show (frameEnd cmd arg).getLsbD 0 = true
    rw [frameEnd, BitVec.getLsbD_or]
    simp
  · show (frameEnd cmd arg &&& ~~~0b1 != crc7 (frameBytes cmd arg)) = false
    rw [hend]
    simp

/-- The card after the commands of a frame. -/
def afterCmd (c : SpiSdCard) (cmd : ℕ) (arg : BitVec 32) : SpiSdCard :=
  let c' := c.doPlainCmd cmd arg
  { c' with rx := { c'.rx with state := 0 } }

/-- A frame makes the card execute its command. -/
theorem Ready.command (h : Ready cap image .cmd c) {cmd : ℕ} (hcmd : cmd < 64) (arg : BitVec 32) :
    ∃ c', Works cap image c' ∧ c'.rx.mode = .cmd ∧
      Run.final SpiSdCard.transfer c (frameBytes cmd arg ++ [frameEnd cmd arg]) =
        (c'.afterCmd cmd arg).txSm.2 := by
  have hstart : ∀ cmd < 64, (0x40 ||| BitVec.ofNat 8 cmd) >>> 6 = (0b01 : BitVec 8) := by decide
  obtain ⟨hok, harg, hvalid, hcrc⟩ := frame_ok hcmd arg
  have hframe := @Ready.frame cap image c h _ ((arg >>> 24).setWidth 8) ((arg >>> 16).setWidth 8)
    ((arg >>> 8).setWidth 8) (arg.setWidth 8) (hstart cmd hcmd)
  rw [Run.final_append]
  change InFrame cap image (frameBytes cmd arg) (Run.final SpiSdCard.transfer c (frameBytes cmd arg))
    at hframe
  generalize Run.final SpiSdCard.transfer c (frameBytes cmd arg) = c5 at hframe
  have hdata : c5.rx.data.set 5 (frameEnd cmd arg) = frameBytes cmd arg ++ [frameEnd cmd arg] := by
    have hlen := hframe.works.wf.rxData
    have hset := @take_set_succ c5.rx.data 5 (by omega) (frameEnd cmd arg)
    rw [List.take_of_length_le (by rw [List.length_set, hlen])] at hset
    rw [hset]
    exact congrArg (· ++ _) hframe.data
  have hwf : WellFormed { c5 with rx := { c5.rx with data := c5.rx.data.set 5 (frameEnd cmd arg) } } :=
    hframe.works.wf.of_rx (by rw [List.length_set]; exact hframe.works.wf.rxData)
      hframe.works.wf.rxState
  refine ⟨_, hframe.works.of_rx hwf, hframe.mode, ?_⟩
  show (c5.transfer (frameEnd cmd arg)).2 = _
  rw [hframe.works.transfer_eq]
  have hstate : c5.rx.state = 5 := hframe.state
  unfold rxSm
  rw [hframe.mode]
  simp only [smCmd, hstate, hdata, hok, harg, hvalid, hcrc, Bool.not_true, Bool.false_eq_true,
    if_false, Bool.and_false, doCmd, hframe.works.acmdEn]
  rfl

/-! ### Reads -/

/-- A block is being sent after a response of one byte. -/
structure Sends (cap : ℕ) (image : ℕ → BitVec 8) (a : ℕ) (mult : Bool) (c : SpiSdCard) : Prop where
  ready : Ready cap image .cmd c
  idle : c.tx.idle = false
  mult : c.tx.mult = mult
  dataLen : c.tx.dataLen = 1
  pdata : c.tx.pdata = .block
  pdataLen : c.tx.pdataLen = blockSize + 2
  addr : c.curAddr = (a + 1) * blockSize
  pos : c.file.pos = (a + 1) * blockSize
  block : c.block = withCrc (blockAt image a)

theorem Sends.pending {a : ℕ} {mult : Bool} (h : Sends cap image a mult c) (hstate : c.tx.state = 1) :
    ∃ r1, c.pending = [0xff, r1] ++ 0xfe :: withCrc (blockAt image a) := by
  have hdata : ∃ r1, c.tx.data.take 1 = [r1] := by
    have hlen := h.ready.works.wf.txData
    cases hd : c.tx.data with
    | nil => rw [hd] at hlen; cases hlen
    | cons r1 rest => exact ⟨r1, rfl⟩
  obtain ⟨r1, hr1⟩ := hdata
  refine ⟨r1, ?_⟩
  have hlen := length_withCrc (length_blockAt image a)
  unfold SpiSdCard.pending response
  rw [h.idle, if_neg (by decide), hstate, h.dataLen, hr1, h.pdataLen, if_neg (by decide), h.pdata]
  show List.drop 1 ([0xff, 0xff] ++ [r1] ++ 0xfe :: c.block.take (blockSize + 2)) = _
  rw [h.block, List.take_of_length_le hlen.le]
  rfl

/-- A seek in range succeeds and moves the position to the start of the block. -/
theorem Works.blockSeek (h : Works cap image c) {a : ℕ} (hle : (a + 1) * blockSize ≤ cap) :
    c.blockSeek (a * blockSize) = (true, { c with
      file := { c.file with pos := a * blockSize }
      curAddr := a * blockSize }) := by
  have hrange : ¬a * blockSize + blockSize > c.capacity := by
    rw [h.capacity]
    rw [Nat.add_mul, Nat.one_mul] at hle
    omega
  have hseek : c.file.seekg (a * blockSize) = { c.file with pos := a * blockSize } := by
    simp [CardFile.seekg, h.good, h.isOpen]
  have hok : CardFile.ok { c.file with pos := a * blockSize } = true := by
    simp [CardFile.ok, h.isOpen, h.good]
  unfold SpiSdCard.blockSeek
  rw [if_neg hrange, hseek]
  dsimp only
  rw [hok]
  rfl

/-- A response that has been started comes after two idle bytes. -/
theorem txSm_of_start (hidle : c.tx.idle = false) (hstate : c.tx.state = 0) :
    c.txSm = (0xff, c.txNext 0) := by
  unfold SpiSdCard.txSm
  dsimp only
  rw [hidle, hstate]
  rfl

/-- The commands that read: the block is in range, so it is loaded and its response prepared. -/
theorem Works.setR1Block (h : Works cap image c) {a : ℕ} (hle : (a + 1) * blockSize ≤ cap)
    (mult : Bool) :
    c.setR1Block (a * blockSize) mult = SpiSdCard.setR1Payload { c with
      file := { c.file with pos := (a + 1) * blockSize }
      curAddr := (a + 1) * blockSize
      block := withCrc (blockAt image a) } .block (blockSize + 2) mult := by
  have hseek := h.blockSeek hle
  have hwf := h.wf.blockSeek (a * blockSize)
  rw [hseek] at hwf
  have hread := (h.seek a hwf rfl rfl rfl rfl rfl rfl).blockReadNext rfl rfl hle
  unfold SpiSdCard.setR1Block
  rw [hseek]
  dsimp only
  rw [hread]
  rfl

/-- The end of a command: the receiver starts again, and the first idle byte is sent. -/
theorem txSm_afterCmd (hwf : c.WellFormed) (hidle : c.tx.idle = false) (hstate : c.tx.state = 0) :
    (SpiSdCard.txSm { c with rx := { c.rx with state := 0 } }).2 =
        SpiSdCard.txNext { c with rx := { c.rx with state := 0 } } 0 ∧
      (SpiSdCard.txNext { c with rx := { c.rx with state := 0 } } 0).WellFormed := by
  have hwf' : WellFormed { c with rx := { c.rx with state := 0 } } :=
    hwf.of_rx hwf.rxData fun _ => Nat.zero_le _
  have htx : SpiSdCard.txSm { c with rx := { c.rx with state := 0 } } =
      (0xff, SpiSdCard.txNext { c with rx := { c.rx with state := 0 } } 0) :=
    txSm_of_start hidle hstate
  have hwf'' := hwf'.txSm
  rw [htx] at hwf'' ⊢
  exact ⟨rfl, hwf''⟩

/-- The transmitter, once it has started to send a block. -/
theorem Works.sends (h : Works cap image c) (hmode : c.rx.mode = .cmd) {a : ℕ}
    (hle : (a + 1) * blockSize ≤ cap) {mult : Bool} {c' : SpiSdCard}
    (hc' : c' = c.setR1Block (a * blockSize) mult) :
    Sends cap image a mult (SpiSdCard.txSm { c' with rx := { c'.rx with state := 0 } }).2 ∧
      (SpiSdCard.txSm { c' with rx := { c'.rx with state := 0 } }).2.tx.state = 1 := by
  have hwf := h.wf.setR1Block (a * blockSize) mult
  rw [h.setR1Block hle] at hc' hwf
  subst hc'
  obtain ⟨htx, hwf'⟩ := txSm_afterCmd hwf rfl rfl
  rw [htx]
  have hworks := h.seek (a + 1) hwf' rfl rfl rfl rfl rfl rfl
  exact ⟨⟨⟨hworks, rfl, hmode⟩, rfl, rfl, rfl, rfl, rfl, rfl, rfl, rfl⟩, rfl⟩

/-- The frame of a command. -/
def cmdFrame (cmd a : ℕ) : List (BitVec 8) :=
  frameBytes cmd (BitVec.ofNat 32 a) ++ [frameEnd cmd (BitVec.ofNat 32 a)]

/-- The number of the command that reads. -/
def readCmd (mult : Bool) : ℕ := if mult then 18 else 17

theorem Ready.read (h : Ready cap image .cmd c) {a : ℕ} (ha : a < 2 ^ 32)
    (hle : (a + 1) * blockSize ≤ cap) (mult : Bool) :
    Sends cap image a mult (Run.final SpiSdCard.transfer c (cmdFrame (readCmd mult) a)) ∧
      (Run.final SpiSdCard.transfer c (cmdFrame (readCmd mult) a)).tx.state = 1 := by
  have hcmd : readCmd mult < 64 := by cases mult <;> decide
  obtain ⟨c', hworks, hmode, hfinal⟩ := h.command hcmd (BitVec.ofNat 32 a)
  have harg : (BitVec.ofNat 32 a).toNat = a := Nat.mod_eq_of_lt ha
  have hdo : c'.doPlainCmd (readCmd mult) (BitVec.ofNat 32 a) = c'.setR1Block (a * blockSize) mult := by
    cases mult
    · show c'.setR1Block ((BitVec.ofNat 32 a).toNat * blockSize) false = _
      rw [harg]
    · show c'.setR1Block ((BitVec.ofNat 32 a).toNat * blockSize) true = _
      rw [harg]
  rw [cmdFrame, hfinal, afterCmd]
  exact hworks.sends hmode hle hdo

/-- Fill bytes bring out the block, and the card is as before. -/
theorem Sends.fills {a : ℕ} {mult : Bool} (h : Sends cap image a mult c) {n : ℕ}
    (hn : n ≤ c.pending.length) :
    Run.outputs SpiSdCard.transfer c (List.replicate n 0xff) = c.pending.take n ∧
      Sends cap image a mult (Run.final SpiSdCard.transfer c (List.replicate n 0xff)) ∧
      (Run.final SpiSdCard.transfer c (List.replicate n 0xff)).pending = c.pending.drop n := by
  obtain ⟨hout, data, state, hfinal, hpend⟩ := h.ready.pending hn
  refine ⟨hout, ?_, hpend⟩
  have hready := (h.ready.fills n).1
  rw [hfinal] at hready ⊢
  exact ⟨hready, h.idle, h.mult, h.dataLen, h.pdata, h.pdataLen, h.addr, h.pos, h.block⟩

/-- After a block the next one is fetched. -/
theorem Sends.next {a : ℕ} (h : Sends cap image a true c) (hp : c.pending = [])
    (hle : (a + 2) * blockSize ≤ cap) :
    (c.transfer 0xff).1 = 0xff ∧ Sends cap image (a + 1) true (c.transfer 0xff).2 ∧
      (c.transfer 0xff).2.pending = 0xfe :: withCrc (blockAt image (a + 1)) := by
  obtain ⟨data, hrx⟩ := rxSm_fill h.ready.waits
  have hwf := h.ready.works.wf.rxSm 0xff
  rw [hrx] at hwf
  have hworks := h.ready.works.of_rx hwf
  have hdone : SpiSdCard.txSm { c with rx := { c.rx with data } } =
      SpiSdCard.txDone { c with rx := { c.rx with data } } := txSm_of_pending_nil hwf h.idle hp
  have hread := hworks.blockReadNext h.addr h.pos hle
  have hready := h.ready.fill.1
  have hlen := length_withCrc (length_blockAt image (a + 1))
  have hdata : c.tx.data.length = 7 := h.ready.works.wf.txData
  rw [h.ready.works.transfer_eq, hrx, hdone] at hready ⊢
  unfold txDone at hready ⊢
  dsimp only at hready ⊢
  rw [h.mult, if_pos rfl, hread] at hready ⊢
  refine ⟨rfl, ⟨hready, h.idle, h.mult, h.dataLen, h.pdata, h.pdataLen, rfl, rfl, rfl⟩, ?_⟩
  unfold SpiSdCard.pending response
  simp only [Bool.not_true, Bool.false_eq_true, if_false, txNext, h.idle, h.dataLen, h.pdataLen,
    h.pdata, idleLen, tokenLen]
  rw [if_neg (by decide)]
  show List.drop 3 ([0xff, 0xff] ++ c.tx.data.take 1 ++
    0xfe :: (withCrc (blockAt image (a + 1))).take (blockSize + 2)) = _
  rw [List.take_of_length_le hlen.le]
  apply List.drop_left'
  simp [hdata]

/-- What a read of several blocks sends: one start token for each block. -/
def multStream (image : ℕ → BitVec 8) (a : ℕ) : ℕ → List (BitVec 8)
  | 0 => []
  | 1 => 0xfe :: withCrc (blockAt image a)
  | count + 2 => 0xfe :: withCrc (blockAt image a) ++ 0xff :: multStream image (a + 1) (count + 1)

/-- The rest of a block is sent. -/
theorem Sends.rest {a : ℕ} {mult : Bool} (h : Sends cap image a mult c) {pre : List (BitVec 8)}
    (hp : c.pending = pre ++ 0xfe :: withCrc (blockAt image a)) :
    Run.outputs SpiSdCard.transfer c (List.replicate (pre.length + 515) 0xff) =
        pre ++ 0xfe :: withCrc (blockAt image a) ∧
      Sends cap image a mult (Run.final SpiSdCard.transfer c (List.replicate (pre.length + 515) 0xff)) ∧
      (Run.final SpiSdCard.transfer c (List.replicate (pre.length + 515) 0xff)).pending = [] := by
  have hlen : c.pending.length = pre.length + 515 := by
    rw [hp, List.length_append, List.length_cons, length_withCrc (length_blockAt image a)]
    rfl
  obtain ⟨hout, hsends, hrest⟩ := h.fills hlen.ge
  rw [← hlen, List.take_length, hlen] at hout
  rw [← hlen, List.drop_length, hlen] at hrest
  exact ⟨hout.trans hp, hsends, hrest⟩

/-- Consecutive blocks are sent one after the other, each with its token and its checksum, by induction on
their number. -/
theorem Sends.stream {a count : ℕ} (h : Sends cap image a true c) {pre : List (BitVec 8)}
    (hp : c.pending = pre ++ 0xfe :: withCrc (blockAt image a))
    (hle : (a + (count + 1)) * blockSize ≤ cap) (n : ℕ) :
    pre ++ multStream image a (count + 1) <+: Run.outputs SpiSdCard.transfer c
      (List.replicate (pre.length + 515 + (516 * count + n)) 0xff) := by
  induction count generalizing c a pre with
  | zero =>
    obtain ⟨hout, -, -⟩ := h.rest hp
    rw [← List.replicate_append_replicate, Run.outputs_append, hout]
    exact List.prefix_append _ _
  | succ count ih =>
    obtain ⟨hout, hsends, hrest⟩ := h.rest hp
    have hnext : (a + 2) * blockSize ≤ cap := by
      refine le_trans (Nat.mul_le_mul_right _ ?_) hle
      omega
    -- one idle byte, then the next block
    obtain ⟨hff, hsends', hpend⟩ := hsends.next hrest hnext
    have hle' : (a + 1 + (count + 1)) * blockSize ≤ cap := by
      rw [show a + 1 + (count + 1) = a + (count + 1 + 1) by omega]
      exact hle
    have hind := @ih _ _ hsends' [] hpend hle'
    rw [List.nil_append] at hind
    have hsum : 516 * (count + 1) + n = ([] : List (BitVec 8)).length + 515 + (516 * count + n) + 1 := by
      rw [List.length_nil]
      omega
    rw [← List.replicate_append_replicate, Run.outputs_append, hout, hsum, multStream,
      ← List.append_assoc]
    show _ <+: _ ++ _ :: _
    rw [hff]
    exact (List.prefix_append_right_inj _).mpr ((List.prefix_cons_inj _).mpr hind)

/-! ### Writes -/

/-- The receiver takes a block for an address. -/
structure Receives (cap : ℕ) (image : ℕ → BitVec 8) (a : ℕ) (mult : Bool) (state : ℕ)
    (c : SpiSdCard) : Prop where
  works : Works cap image c
  mode : c.rx.mode = .data
  mult : c.rx.mult = mult
  state : c.rx.state = state
  addr : c.curAddr = a * blockSize
  pos : c.file.pos = a * blockSize
  txMult : c.tx.mult = false

/-- The number of the command that writes. -/
def writeCmd (mult : Bool) : ℕ := if mult then 25 else 24

theorem Ready.write (h : Ready cap image .cmd c) {a : ℕ} (ha : a < 2 ^ 32)
    (hle : (a + 1) * blockSize ≤ cap) (mult : Bool) :
    Receives cap image a mult 0 (Run.final SpiSdCard.transfer c (cmdFrame (writeCmd mult) a)) := by
  have hcmd : writeCmd mult < 64 := by cases mult <;> decide
  obtain ⟨c', hworks, hmode, hfinal⟩ := h.command hcmd (BitVec.ofNat 32 a)
  have harg : (BitVec.ofNat 32 a).toNat = a := Nat.mod_eq_of_lt ha
  have hflags : Works cap image { c' with numWrBlocks := 0 } :=
    hworks.of_eq (hworks.wf.of_flags rfl rfl rfl) rfl rfl rfl rfl rfl hworks.mult
  have hdo : c'.doPlainCmd (writeCmd mult) (BitVec.ofNat 32 a) =
      (SpiSdCard.switchDataMode { c' with
        numWrBlocks := 0
        file := { c'.file with pos := a * blockSize }
        curAddr := a * blockSize } mult).setR1 := by
    have hseek := hflags.blockSeek hle
    cases mult
    · simp only [writeCmd, Bool.false_eq_true, if_false, SpiSdCard.doPlainCmd, harg, hseek, if_true]
      rfl
    · simp only [writeCmd, if_true, SpiSdCard.doPlainCmd, harg, hseek]
      rfl
  have hwf := (hworks.wf.doPlainCmd (writeCmd mult) (BitVec.ofNat 32 a))
  rw [cmdFrame, hfinal, afterCmd]
  rw [hdo] at hwf ⊢
  obtain ⟨htx, hwf'⟩ := txSm_afterCmd hwf rfl rfl
  rw [htx]
  have hworks' := hworks.seek a hwf' rfl rfl rfl rfl rfl rfl
  exact ⟨hworks', rfl, rfl, rfl, rfl, rfl, rfl⟩

section Receives

variable {a : ℕ} {mult : Bool}

/-- The receiver moves on, and the transmitter with it. -/
theorem Receives.step {k k' : ℕ} (h : Receives cap image a mult k c) {mosi : BitVec 8}
    {block : List (BitVec 8)}
    (hrx : c.rxSm mosi = { c with block, rx := { c.rx with state := k' } }) :
    Receives cap image a mult k' (c.transfer mosi).2 ∧ (c.transfer mosi).2.block = block := by
  have hwf := h.works.wf.rxSm mosi
  rw [hrx] at hwf
  have hworks : Works cap image { c with block, rx := { c.rx with state := k' } } :=
    h.works.of_eq hwf rfl rfl rfl rfl rfl h.works.mult
  rw [h.works.transfer_eq, hrx]
  obtain ⟨hworks', hrx', hmult, hsame⟩ := hworks.txSm
  obtain ⟨hfile, haddr, hblock⟩ := hsame h.txMult
  refine ⟨⟨hworks', ?_, ?_, ?_, haddr.trans h.addr, ?_, hmult.trans h.txMult⟩, hblock⟩
  · rw [hrx']
    exact h.mode
  · rw [hrx']
    exact h.mult
  · rw [hrx']
  · rw [hfile]
    exact h.pos

/-- Fill bytes before a token are skipped: the receiver waits for the token as long as it takes. -/
theorem Receives.fills (h : Receives cap image a mult 0 c) (n : ℕ) :
    Receives cap image a mult 0 (Run.final SpiSdCard.transfer c (List.replicate n 0xff)) := by
  have hready : Ready cap image .data c := ⟨h.works, h.state, h.mode⟩
  obtain ⟨hr, hrx, htx, hfile⟩ := hready.fills n
  obtain ⟨hf, haddr⟩ := hfile h.txMult
  refine ⟨hr.works, hr.mode, hrx.trans h.mult, hr.waits, haddr.trans h.addr, ?_, htx.trans h.txMult⟩
  rw [hf]
  exact h.pos

/-- The start token. -/
def startToken (mult : Bool) : BitVec 8 := if mult then 0b11111100 else 0b11111110

theorem Receives.token (h : Receives cap image a mult 0 c) :
    Receives cap image a mult 1 (c.transfer (startToken mult)).2 := by
  have hrx : c.rxSm (startToken mult) =
      { c with block := c.block, rx := { c.rx with state := 1 } } := by
    unfold rxSm
    rw [h.mode]
    dsimp only
    rw [smData, if_pos h.state]
    have hmult := h.mult
    cases mult with
    | false =>
      rw [if_pos (show startToken false = 0b11111110 from rfl), if_neg (by simp [hmult]), h.state]
    | true =>
      rw [if_neg (by decide), if_pos (show startToken true = 0b11111100 from rfl),
        if_neg (by simp [hmult]), h.state]
  exact (h.step hrx).1

/-- A byte of a block is stored behind those before it. -/
theorem Receives.byte {k : ℕ} (h : Receives cap image a mult (k + 1) c) (hk : k < rxDataLen)
    {pre : List (BitVec 8)} (hpre : c.block.take k = pre) (b : BitVec 8) :
    Receives cap image a mult (k + 2) (c.transfer b).2 ∧
      (c.transfer b).2.block.take (k + 1) = pre ++ [b] := by
  have hrx : c.rxSm b = { c with block := c.block.set k b, rx := { c.rx with state := k + 2 } } := by
    unfold rxSm
    rw [h.mode]
    dsimp only
    rw [smData, if_neg (by rw [h.state]; omega), if_pos (by rw [h.state]; omega), h.state]
    rfl
  obtain ⟨hrec, hblock⟩ := h.step hrx
  refine ⟨hrec, ?_⟩
  rw [hblock, ← hpre]
  apply take_set_succ
  rw [h.works.wf.block]
  exact hk

/-- The bytes of a block are stored one after the other, by induction on what is left of the block. -/
theorem Receives.bytes {k : ℕ} (h : Receives cap image a mult (k + 1) c) {pre : List (BitVec 8)}
    (hpre : c.block.take k = pre) (l : List (BitVec 8)) (hl : k + l.length ≤ rxDataLen) :
    Receives cap image a mult (k + l.length + 1) (Run.final SpiSdCard.transfer c l) ∧
      (Run.final SpiSdCard.transfer c l).block.take (k + l.length) = pre ++ l := by
  induction l generalizing c k pre with
  | nil =>
    refine ⟨h, ?_⟩
    rw [List.append_nil]
    exact hpre
  | cons b l ih =>
    rw [List.length_cons] at hl ⊢
    obtain ⟨hrec, htake⟩ := h.byte (by omega) hpre b
    obtain ⟨hrec', htake'⟩ := ih hrec htake (by omega)
    rw [show k + (l.length + 1) = k + 1 + l.length by omega]
    refine ⟨hrec', ?_⟩
    rw [List.append_assoc] at htake'
    exact htake'

/-- The two bytes of a checksum are the checksum. -/
theorem append_crcBytes (crc : BitVec 16) : (crc >>> 8).setWidth 8 ++ crc.setWidth 8 = crc := by
  apply BitVec.eq_of_getLsbD_eq
  intro i hi
  rw [BitVec.getLsbD_append]
  split_ifs with h
  · simp [h]
  · rw [BitVec.getLsbD_setWidth, BitVec.getLsbD_ushiftRight, show 8 + (i - 8) = i by omega]
    simp [show i - 8 < 8 by omega]

/-- A block with its checksum passes the check. -/
theorem blockCrcError_withCrc {data : List (BitVec 8)} (hdata : data.length = blockSize)
    (hblock : c.block = withCrc data) : c.blockCrcError = false := by
  have htake : c.block.take blockSize = data := by
    rw [hblock, withCrc, ← hdata]
    exact List.take_left
  have hcrc : c.block.getD blockSize 0 ++ c.block.getD (blockSize + 1) 0 = crc16 data := by
    rw [← append_crcBytes (crc16 data), hblock, withCrc, ← hdata, List.getD_append_right _ _ _ _ le_rfl,
      List.getD_append_right _ _ _ _ (Nat.le_succ _)]
    simp [crcBytes]
  unfold SpiSdCard.blockCrcError rxDataLen
  show (c.block.getD blockSize 0 ++ c.block.getD (blockSize + 1) 0 != crc16 (c.block.take blockSize)) = false
  rw [hcrc, htake]
  simp

/-- A write in range, where the file is. -/
theorem Works.blockWriteNext (h : Works cap image c) {a : ℕ} (haddr : c.curAddr = a * blockSize)
    (hpos : c.file.pos = a * blockSize) (hle : (a + 1) * blockSize ≤ cap) {data : List (BitVec 8)}
    (hdata : data.length = blockSize) (hblock : c.block = withCrc data) :
    c.blockWriteNext = (true, { c with
      file := { c.file with data := setBlock image a data, pos := (a + 1) * blockSize }
      curAddr := (a + 1) * blockSize
      numWrBlocks := c.numWrBlocks + 1 }) := by
  have hnext : (a + 1) * blockSize = a * blockSize + blockSize := by rw [Nat.add_mul, Nat.one_mul]
  have htake : c.block.take blockSize = data := by
    rw [hblock, withCrc, ← hdata]
    exact List.take_left
  have hwrite : c.file.write data = { c.file with
      data := setBlock image a data, pos := (a + 1) * blockSize } := by
    have hsize : max c.file.size (c.file.pos + data.length) = c.file.size := by
      rw [h.size, hpos, hdata]
      omega
    unfold CardFile.write
    simp only [h.good, h.isOpen, h.faulty, Bool.not_true, Bool.false_eq_true, if_false, Bool.or_false,
      hsize]
    rw [hpos, hdata, hnext, h.contents]
    rfl
  have hok : CardFile.ok { c.file with data := setBlock image a data, pos := (a + 1) * blockSize } =
      true := by
    simp [CardFile.ok, h.isOpen, h.good]
  have hrange : ¬c.curAddr + blockSize > c.capacity := by
    rw [h.capacity, haddr]
    omega
  unfold SpiSdCard.blockWriteNext
  rw [if_neg hrange, htake, hwrite]
  dsimp only
  rw [hok, haddr, ← hnext]
  rfl

/-- A block is written and accepted at the byte after it. -/
theorem Receives.complete (h : Receives cap image a mult (rxDataLen + 1) c)
    (hle : (a + 1) * blockSize ≤ cap) {data : List (BitVec 8)} (hdata : data.length = blockSize)
    (hblock : c.block = withCrc data) (mosi : BitVec 8) :
    Receives cap (setBlock image a data) (a + 1) mult 0 (c.transfer mosi).2 ∧
      (c.transfer mosi).2.pending = [0xff, DrespToken.accepted.byte] := by
  have hwf := h.works.wf.blockWriteNext
  have hwrite := h.works.blockWriteNext h.addr h.pos hle hdata hblock
  rw [hwrite] at hwf
  have hrx : c.rxSm mosi = c.blockReceived := by
    unfold rxSm
    rw [h.mode]
    dsimp only
    rw [smData, if_neg (by rw [h.state]; omega), if_neg (by rw [h.state]; omega)]
  -- the CRC is right, so the block goes into the image and the token is `accepted`
  have hreceived : c.blockReceived =
      let d := SpiSdCard.setDataResponseToken { c with
        file := { c.file with data := setBlock image a data, pos := (a + 1) * blockSize }
        curAddr := (a + 1) * blockSize
        numWrBlocks := c.numWrBlocks + 1 } .accepted
      { d with rx := { d.rx with state := 0 } } := by
    unfold SpiSdCard.blockReceived
    rw [blockCrcError_withCrc hdata hblock, Bool.and_false, if_neg (by decide)]
    dsimp only
    rw [hwrite]
    rfl
  obtain ⟨htx, hwf'⟩ := txSm_afterCmd (hwf.setDataResponseToken .accepted) rfl rfl
  rw [h.works.transfer_eq, hrx, hreceived]
  dsimp only at htx hwf' ⊢
  rw [htx]
  have hworks : Works cap (setBlock image a data) (SpiSdCard.txNext
      { SpiSdCard.setDataResponseToken { c with
          file := { c.file with data := setBlock image a data, pos := (a + 1) * blockSize }
          curAddr := (a + 1) * blockSize
          numWrBlocks := c.numWrBlocks + 1 } .accepted with
        rx := { c.rx with state := 0 } } 0) :=
    ⟨hwf', h.works.selected, h.works.crcEnabled, h.works.acmdEn, h.works.isOpen, h.works.good,
      h.works.faulty, h.works.capacity, h.works.size, rfl, fun hm => by cases hm⟩
  exact ⟨⟨hworks, h.mode, h.mult, rfl, rfl, rfl, rfl⟩, rfl⟩

/-- A block on the wire: the token, the data and the checksum. -/
def blockFrame (mult : Bool) (data : List (BitVec 8)) : List (BitVec 8) :=
  startToken mult :: withCrc data

/-- A block is received and written, and the response is the third byte after it. -/
theorem Receives.frame (h : Receives cap image a mult 0 c) (hle : (a + 1) * blockSize ≤ cap)
    {data : List (BitVec 8)} (hdata : data.length = blockSize) (n : ℕ) :
    Receives cap (setBlock image a data) (a + 1) mult 0 (Run.final SpiSdCard.transfer c
      (blockFrame mult data ++ List.replicate (3 + n) 0xff)) ∧
    (Run.outputs SpiSdCard.transfer c (blockFrame mult data ++ List.replicate (3 + n) 0xff))[517]? =
      some DrespToken.accepted.byte := by
  have hlen := length_withCrc hdata
  obtain ⟨hrec, htake⟩ := h.token.bytes (k := 0) rfl (withCrc data) (by rw [hlen]; rfl)
  have hframe : Run.final SpiSdCard.transfer c (blockFrame mult data) =
      Run.final SpiSdCard.transfer (c.transfer (startToken mult)).2 (withCrc data) := rfl
  rw [hlen, Nat.zero_add, ← hframe] at hrec htake
  have hblock : (Run.final SpiSdCard.transfer c (blockFrame mult data)).block = withCrc data := by
    rw [List.take_of_length_le hrec.works.wf.block.le] at htake
    exact htake
  have hout : (Run.outputs SpiSdCard.transfer c (blockFrame mult data)).length = 515 := by
    rw [Run.length_outputs, blockFrame, List.length_cons, hlen]
    rfl
  rw [Run.final_append, Run.outputs_append]
  generalize Run.final SpiSdCard.transfer c (blockFrame mult data) = c1 at hrec hblock ⊢
  obtain ⟨hrec', hpend⟩ := hrec.complete hle hdata hblock 0xff
  rw [show 3 + n = 2 + n + 1 by omega, List.replicate_succ, Run.final]
  refine ⟨hrec'.fills (2 + n), ?_⟩
  -- the second of the two bytes that are pending
  have hready : Ready cap (setBlock image a data) .data (c1.transfer 0xff).2 :=
    ⟨hrec'.works, hrec'.state, hrec'.mode⟩
  obtain ⟨hout', -⟩ := hready.pending (n := 2) (by rw [hpend]; rfl)
  rw [List.getElem?_append_right (by omega), hout]
  show (_ :: Run.outputs SpiSdCard.transfer (c1.transfer 0xff).2 (List.replicate (2 + n) 0xff))[2]? = _
  rw [List.getElem?_cons_succ, ← List.replicate_append_replicate, Run.outputs_append, hout', hpend]
  rfl

/-- The stop token ends a write of several blocks. -/
theorem Receives.stop (h : Receives cap image a mult 0 c) :
    Ready cap image .cmd (c.transfer 0b11111101).2 := by
  have hwf := h.works.wf.rxSm 0b11111101
  have hrx : c.rxSm 0b11111101 = c.rxReset := by
    unfold rxSm
    rw [h.mode]
    dsimp only
    rw [smData, if_pos h.state, if_neg (by decide), if_neg (by decide), if_pos rfl]
  rw [hrx] at hwf
  rw [h.works.transfer_eq, hrx]
  have hworks : Works cap image c.rxReset :=
    h.works.of_eq hwf rfl rfl rfl rfl rfl h.works.mult
  obtain ⟨hworks', hrx', -⟩ := hworks.txSm
  refine ⟨hworks', ?_, ?_⟩
  · unfold Waits
    rw [hrx']
    rfl
  · rw [hrx']
    rfl

end Receives

/-- `STOP_TRANSMISSION` ends a read of several blocks. -/
theorem Ready.stopTransmission (h : Ready cap image .cmd c) :
    Ready cap image .cmd (Run.final SpiSdCard.transfer c (cmdFrame 12 0)) := by
  obtain ⟨c', hworks, hmode, hfinal⟩ :=
    @Ready.command cap image c h 12 (by omega) (BitVec.ofNat 32 0)
  have h1 : Works cap image c'.setR1 :=
    hworks.of_eq hworks.wf.setR1 rfl rfl rfl rfl rfl fun hm => by cases hm
  have hwf : WellFormed { c'.setR1 with rx := { c'.setR1.rx with state := 0 } } :=
    h1.wf.of_rx h1.wf.rxData fun _ => Nat.zero_le _
  obtain ⟨hworks', hrx, -⟩ := (h1.of_rx hwf).txSm
  rw [cmdFrame, hfinal, afterCmd]
  refine ⟨hworks', ?_, ?_⟩
  · show (SpiSdCard.txSm { c'.setR1 with rx := { c'.setR1.rx with state := 0 } }).2.rx.state = 0
    rw [hrx]
  · show (SpiSdCard.txSm { c'.setR1 with rx := { c'.setR1.rx with state := 0 } }).2.rx.mode = .cmd
    rw [hrx]
    exact hmode

end Works

/-! ### Hosts -/

/-- What a host does.  It waits for every response before it goes on, and may send more fill bytes than
it has to. -/
inductive HostOp
  | fill (n : ℕ)
  /-- `CMD17` -/
  | readSingle (a n : ℕ)
  /-- `CMD18`, ended by `CMD12` -/
  | readMultiple (a count n m : ℕ)
  /-- `CMD24` -/
  | writeSingle (a gap : ℕ) (data : List (BitVec 8)) (n : ℕ)
  /-- `CMD25`: blocks, each with the number of fill bytes after its response, and the stop token -/
  | writeMultiple (a gap : ℕ) (blocks : List (List (BitVec 8) × ℕ)) (n : ℕ)

namespace HostOp

/-- The bytes that the host shifts out. -/
def bytes : HostOp → List (BitVec 8)
  | fill n => List.replicate n 0xff
  | readSingle a n => cmdFrame 17 a ++ List.replicate (517 + n) 0xff
  | readMultiple a count n m =>
    cmdFrame 18 a ++ List.replicate (1 + 516 * count + n) 0xff ++
      (cmdFrame 12 0 ++ List.replicate (2 + m) 0xff)
  | writeSingle a gap data n =>
    cmdFrame 24 a ++ List.replicate (2 + gap) 0xff ++
      (blockFrame false data ++ List.replicate (3 + n) 0xff)
  | writeMultiple a gap blocks n =>
    cmdFrame 25 a ++ List.replicate (2 + gap) 0xff ++
      (blocks.flatMap (fun b => blockFrame true b.1 ++ List.replicate (3 + b.2) 0xff) ++
        0b11111101 :: List.replicate n 0xff)

/-- Addresses are in range, and blocks are blocks. -/
def Ok (cap : ℕ) : HostOp → Prop
  | fill _ => True
  | readSingle a _ => a < 2 ^ 32 ∧ (a + 1) * blockSize ≤ cap
  | readMultiple a count _ _ => 0 < count ∧ a < 2 ^ 32 ∧ (a + count) * blockSize ≤ cap
  | writeSingle a _ data _ => a < 2 ^ 32 ∧ (a + 1) * blockSize ≤ cap ∧ data.length = blockSize
  | writeMultiple a _ blocks _ => 0 < blocks.length ∧ a < 2 ^ 32 ∧
    (a + blocks.length) * blockSize ≤ cap ∧ ∀ b ∈ blocks, b.1.length = blockSize

/-- The image after consecutive blocks have been written. -/
def setBlocks (image : ℕ → BitVec 8) (a : ℕ) : List (List (BitVec 8) × ℕ) → ℕ → BitVec 8
  | [] => image
  | b :: bs => setBlocks (setBlock image a b.1) (a + 1) bs

/-- What should be in the image afterwards. -/
def effect (image : ℕ → BitVec 8) : HostOp → ℕ → BitVec 8
  | writeSingle a _ data _ => setBlock image a data
  | writeMultiple a _ blocks _ => setBlocks image a blocks
  | _ => image

/-- Each of several blocks is accepted: the response is the third byte after a block. -/
def BlocksAnswered : List (List (BitVec 8) × ℕ) → List (BitVec 8) → Prop
  | [], _ => True
  | b :: bs, out => out[517]? = some DrespToken.accepted.byte ∧ BlocksAnswered bs (out.drop (518 + b.2))

/-- What the card should send meanwhile.  The response to a frame ends with the second byte after it. -/
def Answered (image : ℕ → BitVec 8) (out : List (BitVec 8)) : HostOp → Prop
  | fill _ => True
  | readSingle a _ => 0xfe :: withCrc (blockAt image a) <+: out.drop 8
  | readMultiple a count _ _ => multStream image a count <+: out.drop 8
  | writeSingle _ gap _ _ => (out.drop (8 + gap))[517]? = some DrespToken.accepted.byte
  | writeMultiple _ gap blocks _ => BlocksAnswered blocks (out.drop (8 + gap))

/-- The operation is a write of one block. -/
def IsWriteSingle : HostOp → Prop
  | writeSingle .. => True
  | _ => False

end HostOp

/-- The next byte that starts a command is taken as such. -/
def TakesCommand (c : SpiSdCard) : Prop :=
  ∀ b : BitVec 8, b >>> 6 = 0b01 → (c.transfer b).2.rx.mode = .cmd ∧ (c.transfer b).2.rx.state = 1 ∧
    (c.transfer b).2.rx.data[0]? = some b

/-- A run is right: at every operation the card answers, stores and indexes as it should, and it takes a
command after a write of one block. -/
def RunRight (image : ℕ → BitVec 8) (c : SpiSdCard) : List HostOp → Prop
  | [] => True
  | op :: ops =>
    op.Answered image (Run.outputs transfer c op.bytes) ∧
    (Run.final transfer c op.bytes).file.data = op.effect image ∧
    Run.Along InRange transfer c op.bytes ∧
    (op.IsWriteSingle → (Run.final transfer c op.bytes).TakesCommand) ∧
    RunRight (op.effect image) (Run.final transfer c op.bytes) ops

section Host

variable {cap : ℕ} {image : ℕ → BitVec 8} {c : SpiSdCard}

@[simp] theorem length_cmdFrame (cmd a : ℕ) : (cmdFrame cmd a).length = 6 := rfl

theorem WellFormed.along_inRange (h : c.WellFormed) (bytes : List (BitVec 8)) :
    Run.Along InRange SpiSdCard.transfer c bytes := by
  induction bytes generalizing c with
  | nil => trivial
  | cons b bytes ih => exact ⟨h.inRange b, ih (h.transfer b)⟩

/-- What is sent after a frame is what the state after the frame sends. -/
theorem drop_outputs_cmdFrame (c : SpiSdCard) (cmd a : ℕ) (bytes : List (BitVec 8)) (k : ℕ) :
    (Run.outputs SpiSdCard.transfer c (cmdFrame cmd a ++ bytes)).drop (6 + k) =
      (Run.outputs SpiSdCard.transfer (Run.final SpiSdCard.transfer c (cmdFrame cmd a)) bytes).drop k := by
  have hlen : (Run.outputs SpiSdCard.transfer c (cmdFrame cmd a)).length = 6 :=
    Run.length_outputs _ _ _
  rw [Run.outputs_append, ← hlen]
  exact List.drop_length_add_append ..

/-- What comes after the two bytes that end the response to a frame. -/
theorem prefix_drop_two {r0 r1 : BitVec 8} {l out : List (BitVec 8)} (h : [r0, r1] ++ l <+: out)
    (rest : List (BitVec 8)) : l <+: (out ++ rest).drop 2 := by
  obtain ⟨t, rfl⟩ := h
  exact ⟨t ++ rest, by simp⟩

/-- A read of one block: the host finds the token, the data and the checksum, and the card is ready again. -/
theorem Ready.readSingle (h : Ready cap image .cmd c) {a : ℕ} (ha : a < 2 ^ 32)
    (hle : (a + 1) * blockSize ≤ cap) (n : ℕ) :
    Ready cap image .cmd (Run.final SpiSdCard.transfer c (HostOp.readSingle a n).bytes) ∧
      0xfe :: withCrc (blockAt image a) <+:
        (Run.outputs SpiSdCard.transfer c (HostOp.readSingle a n).bytes).drop 8 := by
  obtain ⟨hsends, hstate⟩ := h.read ha hle false
  obtain ⟨r1, hpend⟩ := hsends.pending hstate
  obtain ⟨hout, -, -⟩ := hsends.rest hpend
  unfold HostOp.bytes
  constructor
  · rw [Run.final_append]
    exact (hsends.ready.fills _).1
  · rw [drop_outputs_cmdFrame c 17 a _ 2, ← List.replicate_append_replicate, Run.outputs_append]
    exact prefix_drop_two ⟨[], (List.append_nil _).trans hout.symm⟩ _

/-- A read of several blocks: all of them in order, and after the stop command the card is ready again. -/
theorem Ready.readMultiple (h : Ready cap image .cmd c) {a count : ℕ} (ha : a < 2 ^ 32)
    (hle : (a + (count + 1)) * blockSize ≤ cap) (n m : ℕ) :
    Ready cap image .cmd
        (Run.final SpiSdCard.transfer c (HostOp.readMultiple a (count + 1) n m).bytes) ∧
      multStream image a (count + 1) <+:
        (Run.outputs SpiSdCard.transfer c (HostOp.readMultiple a (count + 1) n m).bytes).drop 8 := by
  have hle1 : (a + 1) * blockSize ≤ cap := le_trans (Nat.mul_le_mul_right _ (by omega)) hle
  obtain ⟨hsends, hstate⟩ := h.read ha hle1 true
  obtain ⟨r1, hpend⟩ := hsends.pending hstate
  have hout := hsends.stream hpend hle n
  have hsum : 1 + 516 * (count + 1) + n = ([0xff, r1] : List (BitVec 8)).length + 515 +
      (516 * count + n) := by
    show _ = 2 + 515 + _
    omega
  simp only [HostOp.bytes]
  constructor
  · rw [Run.final_append, Run.final_append, Run.final_append]
    have h1 := (hsends.ready.fills (1 + 516 * (count + 1) + n)).1
    exact (h1.stopTransmission.fills (2 + m)).1
  · rw [List.append_assoc, drop_outputs_cmdFrame c 18 a _ 2, Run.outputs_append, hsum]
    exact prefix_drop_two hout _

/-- What is sent after the response to a command that writes. -/
theorem drop_outputs_gap (c : SpiSdCard) (cmd a gap : ℕ) (bytes : List (BitVec 8)) :
    (Run.outputs SpiSdCard.transfer c
        (cmdFrame cmd a ++ List.replicate (2 + gap) 0xff ++ bytes)).drop (8 + gap) =
      Run.outputs SpiSdCard.transfer
        (Run.final SpiSdCard.transfer c (cmdFrame cmd a ++ List.replicate (2 + gap) 0xff)) bytes := by
  have hlen : (Run.outputs SpiSdCard.transfer c
      (cmdFrame cmd a ++ List.replicate (2 + gap) 0xff)).length = 8 + gap := by
    rw [Run.length_outputs, List.length_append, List.length_replicate, length_cmdFrame]
    omega
  rw [Run.outputs_append]
  exact List.drop_left' hlen

/-- A write of one block.  The receiver goes on waiting for a token. -/
theorem Ready.writeSingle (h : Ready cap image .cmd c) {a : ℕ} (ha : a < 2 ^ 32)
    (hle : (a + 1) * blockSize ≤ cap) (gap : ℕ) {data : List (BitVec 8)}
    (hdata : data.length = blockSize) (n : ℕ) :
    Receives cap (setBlock image a data) (a + 1) false 0
        (Run.final SpiSdCard.transfer c (HostOp.writeSingle a gap data n).bytes) ∧
      ((Run.outputs SpiSdCard.transfer c (HostOp.writeSingle a gap data n).bytes).drop
        (8 + gap))[517]? = some DrespToken.accepted.byte := by
  have hrec := (h.write ha hle false).fills (2 + gap)
  rw [← Run.final_append] at hrec
  obtain ⟨hrec', hout⟩ := hrec.frame hle hdata n
  unfold HostOp.bytes
  constructor
  · rw [Run.final_append]
    exact hrec'
  · rw [drop_outputs_gap]
    exact hout

/-- Blocks of a write of several blocks. -/
theorem Receives.blocks {a : ℕ} (blocks : List (List (BitVec 8) × ℕ))
    (h : Receives cap image a true 0 c) (hle : (a + blocks.length) * blockSize ≤ cap)
    (hdata : ∀ b ∈ blocks, b.1.length = blockSize) (rest : List (BitVec 8)) :
    Receives cap (HostOp.setBlocks image a blocks) (a + blocks.length) true 0
        (Run.final SpiSdCard.transfer c
          (blocks.flatMap fun b => blockFrame true b.1 ++ List.replicate (3 + b.2) 0xff)) ∧
      HostOp.BlocksAnswered blocks (Run.outputs SpiSdCard.transfer c
        ((blocks.flatMap fun b => blockFrame true b.1 ++ List.replicate (3 + b.2) 0xff) ++ rest)) := by
  induction blocks generalizing c image a with
  | nil => exact ⟨h, trivial⟩
  | cons b bs ih =>
    rw [List.length_cons] at hle ⊢
    have hb := hdata b List.mem_cons_self
    have hle1 : (a + 1) * blockSize ≤ cap := le_trans (Nat.mul_le_mul_right _ (by omega)) hle
    -- the first block leaves the card as it was before it, one address further
    obtain ⟨hrec, hout⟩ := h.frame hle1 hb b.2
    have hle' : (a + 1 + bs.length) * blockSize ≤ cap := by
      rw [show a + 1 + bs.length = a + (bs.length + 1) by omega]
      exact hle
    obtain ⟨hrec', hans⟩ := ih hrec hle' fun b' hb' => hdata b' (List.mem_cons_of_mem _ hb')
    have hlen : (Run.outputs SpiSdCard.transfer c
        (blockFrame true b.1 ++ List.replicate (3 + b.2) 0xff)).length = 518 + b.2 := by
      rw [Run.length_outputs, List.length_append, List.length_replicate, blockFrame, List.length_cons,
        length_withCrc hb]
      unfold blockSize
      omega
    rw [List.flatMap_cons]
    constructor
    · rw [Run.final_append, show a + (bs.length + 1) = a + 1 + bs.length by omega]
      exact hrec'
    · rw [List.append_assoc, Run.outputs_append]
      refine ⟨?_, ?_⟩
      · rw [List.getElem?_append_left (by omega)]
        exact hout
      · rw [List.drop_left' hlen]
        exact hans

/-- A write of several blocks: each is answered, all are in the image, and after the stop token the card is
ready again. -/
theorem Ready.writeMultiple (h : Ready cap image .cmd c) {a : ℕ} (ha : a < 2 ^ 32) (gap : ℕ)
    {blocks : List (List (BitVec 8) × ℕ)} (hpos : 0 < blocks.length)
    (hle : (a + blocks.length) * blockSize ≤ cap) (hdata : ∀ b ∈ blocks, b.1.length = blockSize)
    (n : ℕ) :
    Ready cap (HostOp.setBlocks image a blocks) .cmd
        (Run.final SpiSdCard.transfer c (HostOp.writeMultiple a gap blocks n).bytes) ∧
      HostOp.BlocksAnswered blocks ((Run.outputs SpiSdCard.transfer c
        (HostOp.writeMultiple a gap blocks n).bytes).drop (8 + gap)) := by
  have hle1 : (a + 1) * blockSize ≤ cap := le_trans (Nat.mul_le_mul_right _ (by omega)) hle
  have hrec := (h.write ha hle1 true).fills (2 + gap)
  rw [← Run.final_append] at hrec
  obtain ⟨hrec', hout⟩ := hrec.blocks blocks hle hdata (0b11111101 :: List.replicate n 0xff)
  unfold HostOp.bytes
  constructor
  · rw [Run.final_append, Run.final_append]
    exact (hrec'.stop.fills n).1
  · rw [drop_outputs_gap]
    exact hout

/-- After a write of one block the next command is not taken. -/
theorem Receives.not_takesCommand {a : ℕ} {mult : Bool} (h : Receives cap image a mult 0 c) :
    ¬c.TakesCommand := by
  intro htakes
  have hstate := (htakes 0x40 (by decide)).2.1
  have hrx : c.rxSm 0x40 = (c.setDataResponseToken .rejectedWriteError).rxReset := by
    unfold rxSm
    rw [h.mode]
    dsimp only
    rw [smData, if_pos h.state, if_neg (by decide), if_neg (by decide), if_neg (by decide),
      if_neg (by decide)]
  rw [h.works.transfer_eq, hrx, txSm_of_start rfl rfl] at hstate
  exact absurd hstate (by show ¬(0 = 1); omega)

/-- What an operation of the host does. -/
theorem Ready.op (h : Ready cap image .cmd c) {op : HostOp} (hok : op.Ok cap) :
    op.Answered image (Run.outputs SpiSdCard.transfer c op.bytes) ∧
      (Run.final SpiSdCard.transfer c op.bytes).file.data = op.effect image ∧
      (¬op.IsWriteSingle →
        Ready cap (op.effect image) .cmd (Run.final SpiSdCard.transfer c op.bytes)) ∧
      (op.IsWriteSingle → ¬(Run.final SpiSdCard.transfer c op.bytes).TakesCommand) := by
  cases op with
  | fill n =>
    have hr := (h.fills n).1
    exact ⟨trivial, hr.works.contents, fun _ => hr, fun hw => hw.elim⟩
  | readSingle a n =>
    obtain ⟨ha, hle⟩ := hok
    obtain ⟨hr, hout⟩ := h.readSingle ha hle n
    exact ⟨hout, hr.works.contents, fun _ => hr, fun hw => hw.elim⟩
  | readMultiple a count n m =>
    obtain ⟨hpos, ha, hle⟩ := hok
    obtain ⟨count, rfl⟩ : ∃ k, count = k + 1 := ⟨count - 1, by omega⟩
    obtain ⟨hr, hout⟩ := h.readMultiple ha hle n m
    exact ⟨hout, hr.works.contents, fun _ => hr, fun hw => hw.elim⟩
  | writeSingle a gap data n =>
    obtain ⟨ha, hle, hdata⟩ := hok
    obtain ⟨hr, hout⟩ := h.writeSingle ha hle gap hdata n
    exact ⟨hout, hr.works.contents, fun hno => absurd trivial hno, fun _ => hr.not_takesCommand⟩
  | writeMultiple a gap blocks n =>
    obtain ⟨hpos, ha, hle, hdata⟩ := hok
    obtain ⟨hr, hout⟩ := h.writeMultiple ha gap hpos hle hdata n
    exact ⟨hout, hr.works.contents, fun _ => hr, fun hw => hw.elim⟩

/-- **Runs of the protocol are right** iff they have no write of one block.  At each operation of a right
run the card answers and changes its image as it should, keeps its indices in range, and takes the next
command. -/
theorem protocol_iff (h : Ready cap image .cmd c) {ops : List HostOp}
    (hok : ∀ op ∈ ops, op.Ok cap) :
    RunRight image c ops ↔ ∀ op ∈ ops, ¬op.IsWriteSingle := by
  induction ops generalizing c image with
  | nil => exact ⟨fun _ op hop => absurd hop List.not_mem_nil, fun _ => trivial⟩
  | cons op ops ih =>
    obtain ⟨hans, hdata, hready, htakes⟩ := h.op (hok op List.mem_cons_self)
    have hok' : ∀ op ∈ ops, op.Ok cap := fun op' hop' => hok op' (List.mem_cons_of_mem _ hop')
    rw [List.forall_mem_cons]
    constructor
    · rintro ⟨-, -, -, htakes', hrest⟩
      have hno : ¬op.IsWriteSingle := fun hw => htakes hw (htakes' hw)
      exact ⟨hno, (ih (hready hno) hok').mp hrest⟩
    · rintro ⟨hno, hrest⟩
      exact ⟨hans, hdata, h.works.wf.along_inRange _, fun hw => absurd hw hno,
        (ih (hready hno) hok').mpr hrest⟩

/-- A card that has been inserted, after `CRC_ON_OFF`. -/
def crcCard (cap : ℕ) (image : ℕ → BitVec 8) : SpiSdCard :=
  Run.final SpiSdCard.transfer (inserted cap image) (cmdFrame 59 1)

/-- The receiver records a frame while the transmitter is idle. -/
theorem transfer_inserted (cap : ℕ) (image : ℕ → BitVec 8) {k : ℕ} (h1 : 1 ≤ k) (h4 : k ≤ 4)
    (data : List (BitVec 8)) (b : BitVec 8) :
    (SpiSdCard.transfer { inserted cap image with rx := ⟨.cmd, false, k, data⟩ } b).2 =
      { inserted cap image with rx := ⟨.cmd, false, k + 1, data.set k b⟩ } := by
  interval_cases k <;> rfl

theorem crcCard_eq (cap : ℕ) (image : ℕ → BitVec 8) : crcCard cap image =
    { inserted cap image with
      crcEnabled := true
      rx := ⟨.cmd, false, 0, cmdFrame 59 1⟩
      tx := ⟨false, false, 1, 1 :: List.replicate 6 0, 1, .block, 0⟩ } := by
  have h0 : (SpiSdCard.transfer (inserted cap image) 0x7b).2 =
      { inserted cap image with rx := ⟨.cmd, false, 1, [0x7b, 0, 0, 0, 0, 0]⟩ } := rfl
  have hfive : Run.final SpiSdCard.transfer (inserted cap image) [0x7b, 0, 0, 0, 1] =
      { inserted cap image with rx := ⟨.cmd, false, 5, [0x7b, 0, 0, 0, 1, 0]⟩ } := by
    simp only [Run.final]
    rw [h0, transfer_inserted _ _ le_rfl (by omega), transfer_inserted _ _ (by omega) (by omega),
      transfer_inserted _ _ (by omega) (by omega), transfer_inserted _ _ (by omega) le_rfl]
    rfl
  have hframe : cmdFrame 59 1 = [0x7b, 0, 0, 0, 1] ++ [0x83] := by decide +kernel
  rw [crcCard, hframe, Run.final_append, hfive]
  show (SpiSdCard.txSm (SpiSdCard.smCmd _ 0x83)).2 = _
  have hcmd : SpiSdCard.smCmd
      { inserted cap image with rx := ⟨.cmd, false, 5, [0x7b, 0, 0, 0, 1, 0]⟩ } 0x83 =
      { inserted cap image with
        crcEnabled := true
        rx := ⟨.cmd, false, 0, [0x7b, 0, 0, 0, 1, 0x83]⟩
        tx := ⟨false, false, 0, 1 :: List.replicate 6 0, 1, .block, 0⟩ } := by
    have hno : frameCmd [0x7b, 0, 0, 0, 1, 0x83] = 59 := by decide
    have hvalid : frameValid [0x7b, 0, 0, 0, 1, 0x83] = true := by decide
    have hstatus : statusR1Idle &&& ~~~(statusR1Illegal ||| statusR1ParaError) = statusR1Idle := by
      decide
    have hzero : (59 == 0) = false := rfl
    simp only [SpiSdCard.smCmd, inserted, List.set, hno, hvalid, hzero, Bool.not_true,
      Bool.false_eq_true, if_false, Bool.or_false, Bool.false_and, doCmd, SpiSdCard.doPlainCmd,
      SpiSdCard.setR1, genR1, SpiSdCard.txData, resetStatusR1, txReset, txStart, hstatus]
    rfl
  rw [hcmd, txSm_of_start rfl rfl]
  rfl

/-- The host can begin: the card that has been initialised waits for a command. -/
theorem ready_crcCard (cap : ℕ) (image : ℕ → BitVec 8) : Ready cap image .cmd (crcCard cap image) := by
  rw [crcCard_eq]
  have hwf : WellFormed { inserted cap image with
      crcEnabled := true
      rx := ⟨.cmd, false, 0, cmdFrame 59 1⟩
      tx := ⟨false, false, 1, 1 :: List.replicate 6 0, 1, .block, 0⟩ } := by
    refine ⟨?_, rfl, fun _ => Nat.zero_le _, rfl, ?_, Nat.zero_le _⟩
    · exact List.length_replicate
    · show 1 ≤ 5
      omega
  exact ⟨⟨hwf, rfl, rfl, rfl, rfl, rfl, fun _ => rfl, rfl, rfl, rfl, fun h => by cases h⟩, rfl, rfl⟩

/-- After a write of one block the card does not take the next command. -/
theorem not_runRight_writeSingle :
    ¬RunRight (fun _ => 0) (crcCard 1024 fun _ => 0)
      [.writeSingle 1 0 (List.replicate blockSize 0xab) 0] := by
  have hok : (HostOp.writeSingle 1 0 (List.replicate blockSize 0xab) 0).Ok 1024 :=
    ⟨by decide, by decide, List.length_replicate⟩
  rintro ⟨-, -, -, htakes, -⟩
  exact ((ready_crcCard 1024 fun _ => 0).op hok).2.2.2 trivial (htakes trivial)

/-- A block is written and read back, among its neighbours. -/
def writeRead : List HostOp :=
  [.writeMultiple 1 2 [(List.replicate blockSize 0xab, 3)] 0, .readSingle 1 5, .readMultiple 0 2 0 1]

theorem protocol_iff_writeRead : RunRight (fun _ => 0) (crcCard 1024 fun _ => 0) writeRead := by
  have hok : ∀ op ∈ writeRead, op.Ok 1024 := by
    intro op hop
    simp only [writeRead, List.mem_cons, List.not_mem_nil, or_false] at hop
    rcases hop with rfl | rfl | rfl
    · refine ⟨by decide, by decide, by decide, ?_⟩
      simp
    · exact ⟨by decide, by decide⟩
    · exact ⟨by decide, by decide, by decide⟩
  refine (protocol_iff (ready_crcCard 1024 fun _ => 0) hok).mpr ?_
  intro op hop
  simp only [writeRead, List.mem_cons, List.not_mem_nil, or_false] at hop
  rcases hop with rfl | rfl | rfl <;> exact id

end Host

end RiscvVp.SpiSdCard
