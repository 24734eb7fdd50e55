import RiscvVp.SpiSdCard.Basic
import RiscvVp.Lib.Run

/-!
# Rejected transfers of the SD card

A command frame without its end bit or with a wrong checksum, and a block with a wrong checksum or one
that cannot be written, should have no effect.  The receiver resets itself and goes on as if nothing had
happened: the command is executed, the block is written and accepted.  `SpiSdCard.rejected_iff` says in
which runs this does no harm.
-/

namespace RiscvVp.SpiSdCard

/-- What a rejected transfer must leave as it was. -/
structure CardState where
  idle : BitVec 8
  curAddr : ℕ
  acmdEn : Bool
  crcEnabled : Bool
  mode : ReceiverMode
  mult : Bool
  numWrBlocks : BitVec 32
  block : List (BitVec 8)
  contents : ℕ → BitVec 8

/-- The state of a card that a rejected command must not change. -/
def cardState (c : SpiSdCard) : CardState where
  idle := c.statusR1 &&& statusR1Idle
  curAddr := c.curAddr
  acmdEn := c.acmdEn
  crcEnabled := c.crcEnabled
  mode := c.rx.mode
  mult := c.rx.mult
  numWrBlocks := c.numWrBlocks
  block := c.block
  contents := c.file.data

/-! ### Rejections -/

/-- The frame that a byte completes. -/
def frame (c : SpiSdCard) (mosi : BitVec 8) : List (BitVec 8) := c.rx.data.set 5 mosi

/-- The byte completes a command frame that is rejected. -/
def RejectsCmd (c : SpiSdCard) (mosi : BitVec 8) : Prop :=
  c.selected = true ∧ c.rx.mode = .cmd ∧ c.rx.state = 5 ∧
    (frameValid (c.frame mosi) = false ∨
      ((frameCmd (c.frame mosi) = 0 ∨ c.crcEnabled = true) ∧ frameCrcError (c.frame mosi) = true))

/-- A block has been received, and the next byte makes the card write it. -/
def CompletesBlock (c : SpiSdCard) : Prop :=
  c.selected = true ∧ c.rx.mode = .data ∧ rxDataLen < c.rx.state

/-- The block is rejected for its checksum. -/
def RejectsCrc (c : SpiSdCard) : Prop :=
  c.CompletesBlock ∧ c.crcEnabled = true ∧ c.blockCrcError = true

/-- The next block can be written. -/
def WriteOk (c : SpiSdCard) : Prop :=
  c.curAddr + blockSize ≤ c.capacity ∧ c.file.isOpen = true ∧ c.file.good = true ∧
    c.file.faulty c.file.pos = false

/-- The block cannot be written: it is complete, and file or address do not allow it. -/
def RejectsWrite (c : SpiSdCard) : Prop := c.CompletesBlock ∧ ¬c.WriteOk

/-- The card is about to send a data response token. -/
def Answers (c : SpiSdCard) (token : DrespToken) : Prop :=
  c.tx.idle = false ∧ c.tx.state < idleLen ∧ c.tx.dataLen = 1 ∧ c.tx.pdataLen = 0 ∧
    c.tx.data.head? = some token.byte

/-- What a transfer should do when it rejects. -/
structure StepRight (c : SpiSdCard) (mosi : BitVec 8) : Prop where
  command : c.RejectsCmd mosi → (c.transfer mosi).2.cardState = c.cardState
  block : c.RejectsCrc ∨ c.RejectsWrite → (c.transfer mosi).2.file.data = c.file.data ∧
    (c.transfer mosi).2.numWrBlocks = c.numWrBlocks
  crc : c.RejectsCrc → (c.transfer mosi).2.Answers .rejectedCrc
  write : ¬c.RejectsCrc → c.RejectsWrite → (c.transfer mosi).2.Answers .rejectedWriteError

/-! ### Commands without effect -/

/-- A block can be looked up in the file. -/
def SeekOk (c : SpiSdCard) (addr : ℕ) : Prop :=
  addr + blockSize ≤ c.capacity ∧ c.file.isOpen = true ∧ c.file.good = true

/-- The address and the buffer are what a read of the block leaves. -/
def ReadDone (c : SpiSdCard) (addr : ℕ) : Prop :=
  let r := (c.file.seekg addr).read c.block blockSize
  if r.2.ok then
    c.curAddr = addr + blockSize ∧ c.block = r.1.take blockSize ++
      (if c.crcEnabled then crcBytes (crc16 (r.1.take blockSize)) else [0xff, 0xff])
  else c.curAddr = addr ∧ c.block = r.1

/-- The command does nothing to this card. -/
@[mk_iff]
structure Harmless (c : SpiSdCard) (cmd : ℕ) (arg : BitVec 32) : Prop where
  acmd : c.acmdEn = true ↔ cmd = 55
  goIdle : cmd = 0 → c.statusR1 &&& statusR1Idle = statusR1Idle ∧ c.crcEnabled = false
  ifCond : cmd = 8 → c.statusR1 &&& statusR1Idle = 0
  read : cmd = 17 ∨ cmd = 18 → c.SeekOk (arg.toNat * blockSize) → c.ReadDone (arg.toNat * blockSize)
  write : cmd = 24 ∨ cmd = 25 → c.numWrBlocks = 0 ∧ ¬c.SeekOk (arg.toNat * blockSize)
  crc : cmd = 59 → c.crcEnabled = true

/-- The receiver rejects nothing, or a command that does nothing. -/
def StepOk (c : SpiSdCard) (mosi : BitVec 8) : Prop :=
  (c.RejectsCmd mosi → c.Harmless (frameCmd (c.frame mosi)) (frameArg (c.frame mosi))) ∧
    ¬c.RejectsCrc ∧ ¬c.RejectsWrite

/-! ### Responses leave the state of the card -/

section Responses

variable (c : SpiSdCard)

theorem idle_resetStatusR1 (s : BitVec 8) :
    s &&& ~~~(statusR1Illegal ||| statusR1ParaError) &&& statusR1Idle = s &&& statusR1Idle := by
  rw [BitVec.and_assoc]
  rfl

theorem idle_error (s : BitVec 8) :
    (s ||| statusR1ParaError) &&& statusR1Idle = s &&& statusR1Idle := by
  rw [BitVec.and_or_distrib_right]
  exact BitVec.or_zero

theorem idle_illegal (s : BitVec 8) :
    (s ||| statusR1Illegal) &&& statusR1Idle = s &&& statusR1Idle := by
  rw [BitVec.and_or_distrib_right]
  exact BitVec.or_zero

@[simp] theorem cardState_setR1 : c.setR1.cardState = c.cardState := by
  simp only [setR1, genR1, txData, resetStatusR1, txStart, txReset, cardState, idle_resetStatusR1]

@[simp] theorem cardState_setR2 : c.setR2.cardState = c.cardState := by
  simp only [setR2, genR2, txData, resetStatusR1, resetStatusR2, txStart, txReset, cardState,
    idle_resetStatusR1]

@[simp] theorem cardState_setR3R7 (val : BitVec 32) : (c.setR3R7 val).cardState = c.cardState := by
  simp only [setR3R7, genR3R7, txData, resetStatusR1, txStart, txReset, cardState, idle_resetStatusR1]

@[simp] theorem cardState_setR1Payload (data : PayloadBuffer) (len : ℕ) (mult : Bool) :
    (c.setR1Payload data len mult).cardState = c.cardState := by
  simp only [setR1Payload, genR1, txData, resetStatusR1, txStart, txReset, txPayload, cardState,
    idle_resetStatusR1]

@[simp] theorem cardState_error (r2 : BitVec 8) :
    (c.error statusR1ParaError r2).cardState = c.cardState := by
  simp only [error, cardState, idle_error]

@[simp] theorem cardState_illegal : c.illegal.cardState = c.cardState := by
  rw [illegal, cardState_setR1]
  simp only [cardState, idle_illegal]

end Responses

/-! ### Blocks -/

theorem CardFile.seekg_data (f : CardFile) (addr : ℕ) : (f.seekg addr).data = f.data := by
  unfold CardFile.seekg
  split_ifs <;> rfl

theorem CardFile.read_data (f : CardFile) (buffer : List (BitVec 8)) (n : ℕ) :
    (f.read buffer n).2.data = f.data := by
  unfold CardFile.read
  split_ifs <;> rfl

section Blocks

variable {c : SpiSdCard} {addr : ℕ}

theorem blockSeek_of_seekOk (h : c.SeekOk addr) : c.blockSeek addr =
    (true, { c with file := c.file.seekg addr, curAddr := addr }) := by
  obtain ⟨hle, hopen, hgood⟩ := h
  have hok : (c.file.seekg addr).ok = true := by
    simp [CardFile.ok, CardFile.seekg, hopen, hgood]
  unfold blockSeek
  rw [if_neg (by omega)]
  dsimp only
  rw [hok]
  rfl

theorem blockSeek_of_not_seekOk (h : ¬c.SeekOk addr) :
    (c.blockSeek addr).1 = false ∧ (c.blockSeek addr).2.cardState = c.cardState := by
  unfold blockSeek
  dsimp only
  split_ifs with hle hok
  · exact ⟨rfl, cardState_error c _⟩
  · refine ⟨rfl, ?_⟩
    rw [cardState_error]
    simp only [cardState, CardFile.seekg_data]
  · -- the file is open and good
    exfalso
    rw [Bool.not_eq_true', Bool.not_eq_false, CardFile.ok, Bool.and_eq_true] at hok
    refine h ⟨by omega, ?_⟩
    cases hg : c.file.good with
    | false => simp [CardFile.seekg, hg] at hok
    | true =>
      cases ho : c.file.isOpen with
      | false => simp [CardFile.seekg, hg, ho] at hok
      | true => exact ⟨rfl, rfl⟩

/-- What `set_R1_block` does to the state of the card, once the block is found. -/
theorem cardState_setR1Block (h : c.SeekOk addr) (mult : Bool) :
    (c.setR1Block addr mult).cardState =
      let r := (c.file.seekg addr).read c.block blockSize
      if r.2.ok then
        { c.cardState with
          curAddr := addr + blockSize
          block := r.1.take blockSize ++
            (if c.crcEnabled then crcBytes (crc16 (r.1.take blockSize)) else [0xff, 0xff]) }
      else { c.cardState with curAddr := addr, block := r.1 } := by
  have hread : ¬addr + blockSize > c.capacity := by
    have := h.1
    omega
  have hdata : ((c.file.seekg addr).read c.block blockSize).2.data = c.file.data := by
    rw [CardFile.read_data, CardFile.seekg_data]
  unfold setR1Block
  rw [blockSeek_of_seekOk h]
  simp only [blockReadNext, if_neg hread, Bool.not_true, Bool.false_eq_true, if_false]
  cases hok : ((c.file.seekg addr).read c.block blockSize).2.ok with
  | true =>
    simp only [Bool.not_true, Bool.false_eq_true, if_false, if_true, cardState_setR1Payload]
    simp only [cardState, hdata]
  | false =>
    simp only [Bool.not_false, Bool.false_eq_true, if_false, if_true, cardState_setR1, cardState_error]
    simp only [cardState, hdata]

theorem cardState_update_iff {block : List (BitVec 8)} :
    { c.cardState with curAddr := addr, block } = c.cardState ↔
      c.curAddr = addr ∧ c.block = block := by
  simp only [cardState, CardState.mk.injEq, true_and, and_true, eq_comm]

/-- A read has no effect iff it has been done already. -/
theorem cardState_setR1Block_iff (mult : Bool) :
    (c.setR1Block addr mult).cardState = c.cardState ↔ (c.SeekOk addr → c.ReadDone addr) := by
  by_cases h : c.SeekOk addr
  · rw [cardState_setR1Block h, ReadDone, forall_prop_of_true h]
    by_cases hok : ((c.file.seekg addr).read c.block blockSize).2.ok = true
    · simp only [hok, if_true]
      exact cardState_update_iff
    · simp only [hok]
      exact cardState_update_iff
  · obtain ⟨hfalse, hstate⟩ := blockSeek_of_not_seekOk h
    simp only [setR1Block, hfalse, Bool.not_false, if_true, cardState_setR1, hstate, h,
      false_imp_iff]

end Blocks

/-! ### Commands -/

section Commands

variable {c : SpiSdCard} {cmd : ℕ} {arg : BitVec 32}

/-- A command starts a response. -/
def Started (c : SpiSdCard) : Prop := c.tx.idle = false ∧ c.tx.state = 0

theorem started_setR1Block (addr : ℕ) (mult : Bool) : (c.setR1Block addr mult).Started := by
  unfold setR1Block
  dsimp only
  split_ifs <;> exact ⟨rfl, rfl⟩

theorem started_doPlainCmd : (c.doPlainCmd cmd arg).Started := by
  unfold doPlainCmd
  split <;> try exact ⟨rfl, rfl⟩
  · split_ifs <;> exact ⟨rfl, rfl⟩
  · exact started_setR1Block _ _
  · exact started_setR1Block _ _

theorem started_doCmd : (c.doCmd cmd arg).Started := by
  unfold doCmd
  split_ifs
  · dsimp only
    cases h : doAcmd { c with acmdEn := false } cmd with
    | none => exact started_doPlainCmd
    | some c' =>
      rw [Option.getD_some]
      unfold doAcmd at h
      split at h <;> cases h <;> exact ⟨rfl, rfl⟩
  · exact started_doPlainCmd

/-- A write command ends the count of the blocks that were written, and may switch to data. -/
theorem cardState_write_iff (hmode : c.rx.mode = .cmd) (mult : Bool) (addr : ℕ) :
    (if (blockSeek { c with numWrBlocks := 0 } addr).1 then
      (blockSeek { c with numWrBlocks := 0 } addr).2.switchDataMode mult
      else (blockSeek { c with numWrBlocks := 0 } addr).2).cardState = c.cardState ↔
    c.numWrBlocks = 0 ∧ ¬c.SeekOk addr := by
  by_cases h : c.SeekOk addr
  · have hseek : SeekOk { c with numWrBlocks := 0 } addr := h
    rw [blockSeek_of_seekOk hseek, if_pos rfl]
    constructor
    · intro heq
      have := congrArg CardState.mode heq
      rw [show c.cardState.mode = .cmd from hmode] at this
      cases this
    · rintro ⟨-, hno⟩
      exact absurd h hno
  · have hseek : ¬SeekOk { c with numWrBlocks := 0 } addr := h
    obtain ⟨hfalse, hstate⟩ := blockSeek_of_not_seekOk hseek
    rw [hfalse, if_neg (by decide), hstate]
    simp only [cardState, CardState.mk.injEq, true_and, and_true, h, not_false_eq_true, eq_comm]

theorem cardState_goIdle_iff :
    cardState { c with statusR1 := c.statusR1 ||| statusR1Idle, crcEnabled := false } = c.cardState ↔
      c.statusR1 &&& statusR1Idle = statusR1Idle ∧ c.crcEnabled = false := by
  have hidle : (c.statusR1 ||| statusR1Idle) &&& statusR1Idle = statusR1Idle := by
    rw [BitVec.or_comm]
    apply BitVec.eq_of_getLsbD_eq
    intro i _
    rw [BitVec.getLsbD_and, BitVec.getLsbD_or]
    cases statusR1Idle.getLsbD i <;> simp
  simp only [cardState, hidle, CardState.mk.injEq, true_and, and_true, eq_comm]

theorem cardState_ifCond_iff :
    cardState { c with statusR1 := c.statusR1 &&& ~~~statusR1Idle } = c.cardState ↔
      c.statusR1 &&& statusR1Idle = 0 := by
  have hidle : c.statusR1 &&& ~~~statusR1Idle &&& statusR1Idle = 0 := by
    rw [BitVec.and_assoc]
    exact BitVec.and_zero
  simp only [cardState, hidle, CardState.mk.injEq, and_true, eq_comm]

/-- A command without an application command before it has no effect iff it is harmless. -/
theorem cardState_doPlainCmd_iff (hmode : c.rx.mode = .cmd) (hacmd : c.acmdEn = false) :
    (c.doPlainCmd cmd arg).cardState = c.cardState ↔ c.Harmless cmd arg := by
  rw [harmless_iff]
  unfold doPlainCmd
  split
  · rw [cardState_setR1, cardState_goIdle_iff]
    simp [hacmd]
  · simp [hacmd]
  · rw [cardState_setR3R7, cardState_ifCond_iff]
    simp [hacmd]
  · simp [hacmd]
  · simp [hacmd]
  · simp [hacmd]
  · simp [hacmd]
  · split_ifs <;> simp [hacmd]
  · rw [cardState_setR1Block_iff]
    simp [hacmd]
  · rw [cardState_setR1Block_iff]
    simp [hacmd]
  · dsimp only
    rw [cardState_setR1, cardState_write_iff hmode]
    simp [hacmd]
  · dsimp only
    rw [cardState_setR1, cardState_write_iff hmode]
    simp [hacmd]
  · rw [cardState_setR1]
    simp [cardState, hacmd]
  · simp [hacmd]
  · rw [cardState_setR1, eq_comm]
    simp [cardState, hacmd]
  · -- none of the commands above
    rw [cardState_illegal]
    refine ⟨fun _ => ?_, fun _ => rfl⟩
    grind

@[simp] theorem acmdEn_setR1 : c.setR1.acmdEn = c.acmdEn := rfl

@[simp] theorem acmdEn_setR1Payload (data : PayloadBuffer) (len : ℕ) (mult : Bool) :
    (c.setR1Payload data len mult).acmdEn = c.acmdEn := rfl

@[simp] theorem acmdEn_switchDataMode (mult : Bool) : (c.switchDataMode mult).acmdEn = c.acmdEn := rfl

@[simp] theorem acmdEn_blockSeek (addr : ℕ) : (c.blockSeek addr).2.acmdEn = c.acmdEn := by
  unfold blockSeek
  dsimp only
  split_ifs <;> rfl

@[simp] theorem acmdEn_blockReadNext : c.blockReadNext.2.acmdEn = c.acmdEn := by
  unfold blockReadNext
  dsimp only
  split_ifs <;> rfl

@[simp] theorem acmdEn_setR1Block (addr : ℕ) (mult : Bool) :
    (c.setR1Block addr mult).acmdEn = c.acmdEn := by
  unfold setR1Block
  dsimp only
  split_ifs <;> simp

/-- The flag that `do_cmd` has cleared stays so, except after `APP_CMD`. -/
theorem acmdEn_doPlainCmd (h : cmd ≠ 55) : (c.doPlainCmd cmd arg).acmdEn = c.acmdEn := by
  unfold doPlainCmd
  split
  · rfl
  · rfl
  · rfl
  · rfl
  · rfl
  · rfl
  · rfl
  · split_ifs <;> rfl
  · exact acmdEn_setR1Block _ _
  · exact acmdEn_setR1Block _ _
  · dsimp only
    split_ifs <;> simp
  · dsimp only
    split_ifs <;> simp
  · exact absurd rfl h
  · rfl
  · rfl
  · rfl

theorem acmdEn_doAcmd {c' : SpiSdCard} (h : c.doAcmd cmd = some c') : c'.acmdEn = c.acmdEn := by
  unfold doAcmd at h
  split at h <;> cases h <;> rfl

/-- **A command has no effect iff it is harmless.** -/
theorem cardState_doCmd_iff (hmode : c.rx.mode = .cmd) :
    (c.doCmd cmd arg).cardState = c.cardState ↔ c.Harmless cmd arg := by
  unfold doCmd
  by_cases hacmd : c.acmdEn = true
  · rw [if_pos hacmd]
    dsimp only
    by_cases h55 : cmd = 55
    · -- the flag is set again
      subst h55
      show (setR1 { c with acmdEn := true }).cardState = c.cardState ↔ _
      rw [harmless_iff, cardState_setR1]
      simp [cardState, hacmd]
    · -- the flag is lost
      have hlost : ((doAcmd { c with acmdEn := false } cmd).getD
          (doPlainCmd { c with acmdEn := false } cmd arg)).acmdEn = false := by
        cases h : doAcmd { c with acmdEn := false } cmd with
        | none => exact acmdEn_doPlainCmd h55
        | some c' => exact acmdEn_doAcmd h
      constructor
      · intro h
        have := congrArg CardState.acmdEn h
        rw [show CardState.acmdEn (cardState _) = false from hlost] at this
        rw [← show c.cardState.acmdEn = c.acmdEn from rfl, ← this] at hacmd
        cases hacmd
      · intro h
        exact absurd (h.acmd.mp hacmd) h55
  · rw [if_neg hacmd]
    exact cardState_doPlainCmd_iff hmode (Bool.eq_false_of_not_eq_true hacmd)

end Commands

/-- The receiver does not matter for whether a command is harmless. -/
theorem harmless_rx {c : SpiSdCard} (rx : Receiver) {cmd : ℕ} {arg : BitVec 32} :
    Harmless { c with rx } cmd arg ↔ c.Harmless cmd arg := by
  rw [harmless_iff, harmless_iff]
  exact Iff.rfl

/-! ### Transfers -/

section Transfers

variable {c : SpiSdCard} {mosi : BitVec 8}

/-- A response that has been started comes after two idle bytes. -/
theorem txSm_of_started (h : c.Started) : c.txSm = (0xff, c.txNext 0) := by
  unfold txSm
  dsimp only
  rw [h.1, h.2]
  rfl

/-- The receiver executes the command of a frame that it rejects. -/
theorem smCmd_of_rejects (h : c.RejectsCmd mosi) :
    c.smCmd mosi =
      let c' := doCmd { c with rx := { c.rx with data := c.frame mosi, mode := .cmd, state := 0 } }
        (frameCmd (c.frame mosi)) (frameArg (c.frame mosi))
      { c' with rx := { c'.rx with state := 0 } } := by
  obtain ⟨-, -, hstate, hrej⟩ := h
  have hdata : c.rx.data.set c.rx.state mosi = c.frame mosi := by rw [hstate, frame]
  unfold smCmd
  dsimp only
  rw [hdata, hstate]
  -- one of the two checks resets the receiver
  by_cases hvalid : frameValid (c.frame mosi) = true
  · have hcrc : ((frameCmd (c.frame mosi) == 0 || c.crcEnabled) && frameCrcError (c.frame mosi)) = true := by
      rcases hrej with hno | ⟨hcheck, herr⟩
      · rw [hvalid] at hno
        cases hno
      · rw [herr, Bool.and_true, Bool.or_eq_true, beq_iff_eq]
        exact hcheck
    simp only [hvalid, Bool.not_true, Bool.false_eq_true, if_false, hcrc, if_true, rxReset]
  · rw [Bool.not_eq_true] at hvalid
    simp only [hvalid, Bool.not_false, if_true, rxReset, ite_self]

/-- A frame that is rejected has no effect iff its command is harmless. -/
theorem cardState_rejected_iff (h : c.RejectsCmd mosi) :
    (c.transfer mosi).2.cardState = c.cardState ↔
      c.Harmless (frameCmd (c.frame mosi)) (frameArg (c.frame mosi)) := by
  have hmode := h.2.1
  have hrx : c.rxSm mosi = c.smCmd mosi := by
    unfold rxSm
    rw [hmode]
  have hstart : (c.smCmd mosi).Started := by
    rw [smCmd_of_rejects h]
    exact started_doCmd
  have hstate : (c.transfer mosi).2.cardState = (c.smCmd mosi).cardState := by
    unfold transfer
    rw [if_pos h.1, hrx, txSm_of_started hstart]
    rfl
  have hsame : c.cardState = cardState
      { c with rx := { c.rx with data := c.frame mosi, mode := .cmd, state := 0 } } := by
    simp only [cardState, hmode]
  rw [hstate, smCmd_of_rejects h]
  dsimp only
  rw [hsame]
  rw [← harmless_rx { c.rx with data := c.frame mosi, mode := .cmd, state := 0 }]
  refine Iff.trans (Eq.to_iff ?_) (cardState_doCmd_iff rfl)
  rfl

/-- Every block that is completed is answered as accepted, whatever came of its checksum and of the file. -/
theorem answers_of_completes (h : c.CompletesBlock) : (c.transfer mosi).2.Answers .accepted := by
  obtain ⟨hsel, hmode, hstate⟩ := h
  have hrx : c.rxSm mosi = c.blockReceived := by
    unfold rxSm
    rw [hmode]
    dsimp only
    unfold smData
    rw [if_neg (by omega), if_neg (by omega)]
  have hstart : c.blockReceived.Started := ⟨rfl, rfl⟩
  unfold transfer
  rw [if_pos hsel, hrx, txSm_of_started hstart]
  exact ⟨rfl, Nat.one_lt_two, rfl, rfl, rfl⟩

theorem Answers.unique {token token' : DrespToken} (h : c.Answers token) (h' : c.Answers token') :
    token = token' := by
  have hbyte := h.2.2.2.2.symm.trans h'.2.2.2.2
  revert hbyte
  cases token <;> cases token' <;> decide

/-- **A transfer treats rejections right iff it rejects nothing but harmless commands.** -/
theorem stepRight_iff : c.StepRight mosi ↔ c.StepOk mosi := by
  constructor
  · intro h
    have hcrc : ¬c.RejectsCrc := by
      intro hrej
      have := (h.crc hrej).unique (answers_of_completes hrej.1)
      cases this
    refine ⟨fun hrej => (cardState_rejected_iff hrej).mp (h.command hrej), hcrc, ?_⟩
    intro hrej
    have := (h.write hcrc hrej).unique (answers_of_completes hrej.1)
    cases this
  · rintro ⟨hcmd, hcrc, hwrite⟩
    exact ⟨fun hrej => (cardState_rejected_iff hrej).mpr (hcmd hrej),
      fun hrej => absurd hrej (not_or.mpr ⟨hcrc, hwrite⟩), fun hrej => absurd hrej hcrc,
      fun _ hrej => absurd hrej hwrite⟩

/-- **Rejected transfers have no effect** in the runs that reject nothing but harmless commands, and in
no others. -/
theorem rejected_iff (c : SpiSdCard) (bytes : List (BitVec 8)) :
    Run.Along StepRight transfer c bytes ↔ Run.Along StepOk transfer c bytes :=
  Run.Along.iff_of_invariant (I := fun _ => True) (fun _ _ _ => stepRight_iff) (fun _ _ _ _ => trivial)
    trivial

/-- `CMD55` without its end bit: the card expects an application command all the same. -/
theorem not_stepRight_app :
    ¬Run.Along StepRight transfer (inserted 512 fun _ => 0) [0x77, 0, 0, 0, 0, 0x64] := by
  rintro ⟨-, -, -, -, -, hright, -⟩
  have hacmd := ((stepRight_iff.mp hright).1 ⟨rfl, rfl, rfl, Or.inl (by decide)⟩).acmd
  exact absurd (hacmd.mpr (by decide)) (by decide)

end Transfers

end RiscvVp.SpiSdCard
