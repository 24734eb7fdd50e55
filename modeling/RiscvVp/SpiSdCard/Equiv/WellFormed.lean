import RiscvVp.SpiSdCard.Basic
import RiscvVp.Lib.Run

/-!
# Indices into the buffers of the SD card

The arrays of the card have fixed sizes, and the two state machines index them with `state`.
`SpiSdCard.WellFormed` is kept by every transfer (`WellFormed.transfer`), whatever is shifted in, and
says that no index is out of range (`WellFormed.inRange`).
-/

namespace RiscvVp.SpiSdCard

/-- The sizes of the buffers, and the bounds of the indices. -/
structure WellFormed (c : SpiSdCard) : Prop where
  block : c.block.length = blockSize + 2
  rxData : c.rx.data.length = 6
  rxState : c.rx.mode = .cmd → c.rx.state ≤ 5
  txData : c.tx.data.length = 7
  dataLen : c.tx.dataLen ≤ 5
  pdataLen : c.tx.pdataLen ≤ (c.buffer c.tx.pdata).length

/-- The index that the receiver uses is in range. -/
def RxInRange (c : SpiSdCard) : Prop :=
  match c.rx.mode with
  | .cmd => c.rx.state < c.rx.data.length
  | .data => 0 < c.rx.state → c.rx.state < rxDataLen + 1 → c.rx.state - 1 < c.block.length

/-- The index that the transmitter uses is in range. -/
def TxInRange (c : SpiSdCard) : Prop :=
  c.tx.idle = false → idleLen ≤ c.tx.state →
    (c.tx.state < idleLen + c.tx.dataLen → c.tx.state - idleLen < c.tx.data.length) ∧
    (idleLen + c.tx.dataLen + tokenLen ≤ c.tx.state →
      c.tx.state < idleLen + c.tx.dataLen + tokenLen + c.tx.pdataLen →
      c.tx.state - (idleLen + c.tx.dataLen + tokenLen) < (c.buffer c.tx.pdata).length)

/-- All indices of a transfer are in range. -/
def InRange (c : SpiSdCard) (mosi : BitVec 8) : Prop := c.RxInRange ∧ (c.rxSm mosi).TxInRange

section

variable {c : SpiSdCard}

theorem WellFormed.rxInRange (h : c.WellFormed) : c.RxInRange := by
  unfold RxInRange
  cases hm : c.rx.mode with
  | cmd =>
    have := h.rxState hm
    have := h.rxData
    dsimp only
    omega
  | data =>
    intro h0 hlt
    have := h.block
    unfold rxDataLen at hlt
    omega

theorem WellFormed.txInRange (h : c.WellFormed) : c.TxInRange := by
  intro _ hle
  have := h.txData
  have := h.dataLen
  have := h.pdataLen
  constructor
  · intro hlt
    omega
  · intro hge hlt
    omega

/-! ### Blocks -/

theorem length_read (f : CardFile) {buffer : List (BitVec 8)} {n : ℕ} (hn : n ≤ buffer.length) :
    (f.read buffer n).1.length = buffer.length := by
  unfold CardFile.read
  split_ifs
  · rfl
  · rfl
  · simp only [List.length_append, List.length_map, List.length_range, List.length_drop]
    omega

@[simp] theorem length_crcBytes (crc : BitVec 16) : (crcBytes crc).length = 2 := rfl

/-- The sizes of the buffers that `pdata` points to. -/
theorem length_buffer (c : SpiSdCard) (data : PayloadBuffer) :
    (c.buffer data).length = match data with
      | .block => c.block.length
      | .sdStatus => 64
      | .scr => 8
      | .switchFunction => 66
      | .csd => 16
      | .cid => 16 := by
  cases data <;> simp [buffer, scr, csd, cid]

theorem length_buffer_of_block {c' : SpiSdCard} (h : c'.block = c.block) (data : PayloadBuffer) :
    (c'.buffer data).length = (c.buffer data).length := by
  rw [length_buffer, length_buffer, h]

/-- What does not depend on the parts that blocks and status registers change. -/
theorem WellFormed.of_eq (h : c.WellFormed) {c' : SpiSdCard} (hblock : c'.block.length = blockSize + 2)
    (hrx : c'.rx = c.rx) (htx : c'.tx = c.tx) : c'.WellFormed := by
  refine ⟨hblock, ?_, ?_, ?_, ?_, ?_⟩
  · rw [hrx]
    exact h.rxData
  · rw [hrx]
    exact h.rxState
  · rw [htx]
    exact h.txData
  · rw [htx]
    exact h.dataLen
  · rw [htx]
    have hlen := h.pdataLen
    rw [length_buffer] at hlen ⊢
    rw [h.block] at hlen
    rw [hblock]
    exact hlen

theorem WellFormed.blockSeek (h : c.WellFormed) (addr : ℕ) : (c.blockSeek addr).2.WellFormed := by
  unfold SpiSdCard.blockSeek
  dsimp only
  split_ifs <;> exact h.of_eq h.block rfl rfl

theorem WellFormed.blockReadNext (h : c.WellFormed) : c.blockReadNext.2.WellFormed := by
  have hread : (c.file.read c.block blockSize).1.length = blockSize + 2 := by
    have hblock := h.block
    rw [length_read _ (by omega), hblock]
  unfold SpiSdCard.blockReadNext
  dsimp only
  split_ifs
  · exact h.of_eq h.block rfl rfl
  · exact h.of_eq hread rfl rfl
  all_goals
    refine h.of_eq ?_ rfl rfl
    simp only [List.length_append, List.length_take, hread, length_crcBytes, List.length_cons,
      List.length_nil]
    omega

theorem WellFormed.blockWriteNext (h : c.WellFormed) : c.blockWriteNext.2.WellFormed := by
  unfold SpiSdCard.blockWriteNext
  dsimp only
  split_ifs <;> exact h.of_eq h.block rfl rfl

/-! ### Responses -/

/-- A new state of the transmitter is well formed if it stays within its response and its buffer. -/
theorem WellFormed.of_tx (h : c.WellFormed) {c' : SpiSdCard} (hblock : c'.block = c.block)
    (hrx : c'.rx = c.rx) (hdata : c'.tx.data.length = 7) (hlen : c'.tx.dataLen ≤ 5)
    (hpdata : c'.tx.pdataLen ≤ (c'.buffer c'.tx.pdata).length) : c'.WellFormed := by
  refine ⟨?_, ?_, ?_, hdata, hlen, hpdata⟩
  · rw [hblock]
    exact h.block
  · rw [hrx]
    exact h.rxData
  · rw [hrx]
    exact h.rxState

theorem length_response (h : c.WellFormed) {bytes : List (BitVec 8)} (hb : bytes.length ≤ 7) :
    (bytes ++ c.tx.data.drop bytes.length).length = 7 := by
  rw [List.length_append, List.length_drop, h.txData]
  omega

theorem WellFormed.setDataResponseToken (h : c.WellFormed) (token : DrespToken) :
    (c.setDataResponseToken token).WellFormed :=
  h.of_tx rfl rfl (@length_response c h [token.byte] (by simp)) (show 1 ≤ 5 by omega)
    (Nat.zero_le _)

theorem WellFormed.setR1 (h : c.WellFormed) : c.setR1.WellFormed :=
  h.of_tx rfl rfl (@length_response c h [c.statusR1] (by simp)) (show 1 ≤ 5 by omega) (Nat.zero_le _)

theorem WellFormed.setR2 (h : c.WellFormed) : c.setR2.WellFormed :=
  h.of_tx rfl rfl (@length_response c h [c.statusR1, c.statusR2] (by simp)) (show 2 ≤ 5 by omega)
    (Nat.zero_le _)

theorem WellFormed.setR3R7 (h : c.WellFormed) (val : BitVec 32) : (c.setR3R7 val).WellFormed :=
  h.of_tx rfl rfl (@length_response c h [c.statusR1, (val >>> 24).setWidth 8,
    (val >>> 16).setWidth 8, (val >>> 8).setWidth 8, val.setWidth 8] (by simp)) le_rfl
    (Nat.zero_le _)

theorem WellFormed.setR1Payload (h : c.WellFormed) {data : PayloadBuffer} {len : ℕ}
    (hlen : len ≤ (c.buffer data).length) (mult : Bool) : (c.setR1Payload data len mult).WellFormed := by
  refine h.of_tx rfl rfl (@length_response c h [c.statusR1] (by simp)) (show 1 ≤ 5 by omega) ?_
  have hblock : (c.setR1Payload data len mult).block = c.block := rfl
  exact hlen.trans (length_buffer_of_block hblock data).ge

theorem WellFormed.setR2Payload (h : c.WellFormed) {data : PayloadBuffer} {len : ℕ}
    (hlen : len ≤ (c.buffer data).length) : (c.setR2Payload data len).WellFormed := by
  have hblock : (c.setR2Payload data len).block = c.block := by
    simp only [SpiSdCard.setR2Payload, genR2, SpiSdCard.txData, resetStatusR1, resetStatusR2, txStart,
      txReset, txPayload]
  have hrx : (c.setR2Payload data len).rx = c.rx := by
    simp only [SpiSdCard.setR2Payload, genR2, SpiSdCard.txData, resetStatusR1, resetStatusR2, txStart,
      txReset, txPayload]
  refine h.of_tx hblock hrx (@length_response c h [c.statusR1, c.statusR2] (by simp))
    (show 2 ≤ 5 by omega) ?_
  exact hlen.trans (length_buffer_of_block hblock data).ge

theorem WellFormed.setR1Block (h : c.WellFormed) (addr : ℕ) (mult : Bool) :
    (c.setR1Block addr mult).WellFormed := by
  have hseek := h.blockSeek addr
  have hread := hseek.blockReadNext
  unfold SpiSdCard.setR1Block
  dsimp only
  split_ifs
  · exact hseek.setR1
  · exact hread.setR1
  · refine hread.setR1Payload ?_ mult
    rw [length_buffer]
    exact hread.block.ge

/-! ### Commands -/

theorem WellFormed.rxReset (h : c.WellFormed) : c.rxReset.WellFormed :=
  ⟨h.block, h.rxData, fun _ => Nat.zero_le _, h.txData, h.dataLen, h.pdataLen⟩

theorem WellFormed.switchDataMode (h : c.WellFormed) (mult : Bool) :
    (c.switchDataMode mult).WellFormed :=
  ⟨h.block, h.rxData, fun _ => Nat.zero_le _, h.txData, h.dataLen, h.pdataLen⟩

/-- Flags and status registers do not matter. -/
theorem WellFormed.of_flags (h : c.WellFormed) {c' : SpiSdCard} (hblock : c'.block = c.block)
    (hrx : c'.rx = c.rx) (htx : c'.tx = c.tx) : c'.WellFormed :=
  h.of_eq (hblock ▸ h.block) hrx htx

theorem WellFormed.illegal (h : c.WellFormed) : c.illegal.WellFormed := by
  apply WellFormed.setR1
  exact h.of_flags rfl rfl rfl

theorem WellFormed.doPlainCmd (h : c.WellFormed) (cmd : ℕ) (arg : BitVec 32) :
    (c.doPlainCmd cmd arg).WellFormed := by
  have hwrite : ∀ mult addr, ((if (SpiSdCard.blockSeek { c with numWrBlocks := 0 } addr).1 then
      (SpiSdCard.blockSeek { c with numWrBlocks := 0 } addr).2.switchDataMode mult
      else (SpiSdCard.blockSeek { c with numWrBlocks := 0 } addr).2).setR1).WellFormed := by
    intro mult addr
    have hflags : WellFormed { c with numWrBlocks := 0 } := h.of_flags rfl rfl rfl
    have hseek := hflags.blockSeek addr
    split_ifs
    · exact (hseek.switchDataMode mult).setR1
    · exact hseek.setR1
  unfold SpiSdCard.doPlainCmd
  split
  · apply WellFormed.setR1
    exact h.of_flags rfl rfl rfl
  · exact h.setR1Payload (by rw [length_buffer]) false
  · apply WellFormed.setR3R7
    exact h.of_flags rfl rfl rfl
  · exact h.setR1Payload (by rw [length_buffer]) false
  · exact h.setR1Payload (by rw [length_buffer]) false
  · exact h.setR1
  · exact h.setR2
  · split_ifs
    · exact h.illegal
    · exact h.setR1
  · exact h.setR1Block _ _
  · exact h.setR1Block _ _
  · exact hwrite _ _
  · exact hwrite _ _
  · apply WellFormed.setR1
    exact h.of_flags rfl rfl rfl
  · exact h.setR3R7 _
  · apply WellFormed.setR1
    exact h.of_flags rfl rfl rfl
  · exact h.illegal

theorem WellFormed.doAcmd (h : c.WellFormed) {cmd : ℕ} {c' : SpiSdCard}
    (hc : c.doAcmd cmd = some c') : c'.WellFormed := by
  unfold SpiSdCard.doAcmd at hc
  split at hc
  · cases hc
    exact h.setR2Payload (by rw [length_buffer])
  · cases hc
    -- the count of blocks is sent from the block buffer
    have hwf : ∀ num crc : List (BitVec 8), num.length = 4 → crc.length = 2 →
        (SpiSdCard.setR1Payload { c with block := num ++ crc ++ c.block.drop 6 } .block 6
          false).WellFormed := by
      intro num crc hnum hcrc
      have hlen : (num ++ crc ++ c.block.drop 6).length = blockSize + 2 := by
        rw [List.length_append, List.length_append, List.length_drop, h.block, hnum, hcrc]
        decide
      have hblock : WellFormed { c with block := num ++ crc ++ c.block.drop 6 } :=
        h.of_eq hlen rfl rfl
      refine hblock.setR1Payload ?_ false
      rw [length_buffer]
      exact (show 6 ≤ blockSize + 2 by decide).trans hlen.ge
    apply hwf
    · rfl
    · split_ifs <;> rfl
  · cases hc
    exact h.setR1
  · cases hc
    exact h.setR1
  · cases hc
    exact h.setR1
  · cases hc
    exact h.setR1Payload (by rw [length_buffer]) false
  · cases hc

theorem WellFormed.doCmd (h : c.WellFormed) (cmd : ℕ) (arg : BitVec 32) :
    (c.doCmd cmd arg).WellFormed := by
  have hflag : WellFormed { c with acmdEn := false } := h.of_flags rfl rfl rfl
  unfold SpiSdCard.doCmd
  split_ifs
  · dsimp only
    cases hc : SpiSdCard.doAcmd { c with acmdEn := false } cmd with
    | none => exact hflag.doPlainCmd cmd arg
    | some c' => exact hflag.doAcmd hc
  · exact h.doPlainCmd cmd arg

/-! ### Transfers -/

/-- A new state of the receiver is well formed if it stays within its frame. -/
theorem WellFormed.of_rx (h : c.WellFormed) {rx : Receiver} (hdata : rx.data.length = 6)
    (hstate : rx.mode = .cmd → rx.state ≤ 5) : WellFormed { c with rx } :=
  ⟨h.block, hdata, hstate, h.txData, h.dataLen, h.pdataLen⟩

theorem WellFormed.smCmd (h : c.WellFormed) (mosi : BitVec 8) : (c.smCmd mosi).WellFormed := by
  have hdata : (c.rx.data.set c.rx.state mosi).length = 6 := by rw [List.length_set, h.rxData]
  have hrec : WellFormed { c with rx := { c.rx with data := c.rx.data.set c.rx.state mosi } } :=
    h.of_rx hdata h.rxState
  unfold SpiSdCard.smCmd
  dsimp only
  split
  · split_ifs
    · exact h.of_rx hdata fun _ => by simp
    · exact hrec
  · exact h.of_rx hdata fun _ => by simp_all
  · exact h.of_rx hdata fun _ => by simp_all
  · exact h.of_rx hdata fun _ => by simp_all
  · exact h.of_rx hdata fun _ => by simp_all
  · -- the checks reset the receiver or do nothing
    have hcmd : ∀ c', WellFormed c' → ∀ cmd arg,
        WellFormed { c'.doCmd cmd arg with rx := { (c'.doCmd cmd arg).rx with state := 0 } } := by
      intro c' hc' cmd arg
      exact (hc'.doCmd cmd arg).of_rx (hc'.doCmd cmd arg).rxData fun _ => Nat.zero_le _
    apply hcmd
    split_ifs
    · exact hrec.rxReset.rxReset
    · exact hrec.rxReset
    · exact hrec.rxReset
    · exact hrec
  · exact hrec.rxReset

theorem WellFormed.blockReceived (h : c.WellFormed) : c.blockReceived.WellFormed := by
  have hcrc : ∀ c', WellFormed c' → WellFormed
      (if c'.crcEnabled && c'.blockCrcError then (c'.setDataResponseToken .rejectedCrc).rxReset
        else c') := by
    intro c' hc'
    split_ifs
    · exact (hc'.setDataResponseToken _).rxReset
    · exact hc'
  have hwrite : ∀ c', WellFormed c' → WellFormed
      (if !c'.blockWriteNext.1 then
        (c'.blockWriteNext.2.setDataResponseToken .rejectedWriteError).rxReset
        else c'.blockWriteNext.2) := by
    intro c' hc'
    split_ifs
    · exact (hc'.blockWriteNext.setDataResponseToken _).rxReset
    · exact hc'.blockWriteNext
  have hall := (hwrite _ (hcrc c h)).setDataResponseToken .accepted
  exact hall.of_rx hall.rxData fun _ => Nat.zero_le _

theorem WellFormed.smData (h : c.WellFormed) (hmode : c.rx.mode = .data) (mosi : BitVec 8) :
    (c.smData mosi).WellFormed := by
  have hreject := (h.setDataResponseToken .rejectedWriteError).rxReset
  have hnext : WellFormed { c with rx := { c.rx with state := c.rx.state + 1 } } := by
    refine h.of_rx h.rxData fun hcmd => ?_
    rw [show c.rx.mode = .cmd from hcmd] at hmode
    cases hmode
  unfold SpiSdCard.smData
  split_ifs
  · exact hreject
  · exact hnext
  · exact hreject
  · exact hnext
  · exact h.rxReset
  · exact h
  · exact hreject
  · exact hnext.of_eq (by rw [List.length_set]; exact h.block) rfl rfl
  · exact h.blockReceived

theorem WellFormed.rxSm (h : c.WellFormed) (mosi : BitVec 8) : (c.rxSm mosi).WellFormed := by
  unfold SpiSdCard.rxSm
  cases hm : c.rx.mode with
  | cmd => exact h.smCmd mosi
  | data => exact h.smData hm mosi

theorem WellFormed.txNext (h : c.WellFormed) (idle : Bool) (state : ℕ) :
    (SpiSdCard.txNext { c with tx := { c.tx with idle } } state).WellFormed :=
  ⟨h.block, h.rxData, h.rxState, h.txData, h.dataLen, h.pdataLen⟩

theorem WellFormed.txSm (h : c.WellFormed) : c.txSm.2.WellFormed := by
  have hnext : ∀ state, (c.txNext state).WellFormed := fun state => h.txNext c.tx.idle state
  unfold SpiSdCard.txSm
  dsimp only
  split_ifs
  · exact h
  · exact hnext _
  · exact hnext _
  · exact hnext _
  · exact hnext _
  · unfold txDone
    dsimp only
    split_ifs
    · exact h.blockReadNext.txNext true 0
    · exact h.blockReadNext.txNext _ _
    · exact h.txNext true 0

/-- **No index of a transfer is out of range.** -/
theorem WellFormed.inRange (h : c.WellFormed) (mosi : BitVec 8) : c.InRange mosi :=
  ⟨h.rxInRange, (h.rxSm mosi).txInRange⟩

/-- **Every transfer keeps the bounds** of the buffers, whatever byte the host sends. -/
theorem WellFormed.transfer (h : c.WellFormed) (mosi : BitVec 8) : (c.transfer mosi).2.WellFormed := by
  unfold SpiSdCard.transfer
  split_ifs
  · exact (h.rxSm mosi).txSm
  · exact h

end

end RiscvVp.SpiSdCard
