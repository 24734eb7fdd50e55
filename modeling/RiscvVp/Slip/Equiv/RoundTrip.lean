import Mathlib
import RiscvVp.Lib.Run
import RiscvVp.Slip.Basic

/-!
# What the SLIP decoder sends

`Line` is the decoder without its buffer: the bytes of the packet so far and whether the last byte was an
escape.  As long as the host has memory the channel follows it byte by byte, so a result about what a
stream makes the channel write is a result about `Line`.  The first of them is that packets encoded by
`t2s` come out as they went in, whatever the decoder received before.
-/

namespace RiscvVp.Slip

/-! ### The decoder without its buffer -/

/-- The state of the decoder: the bytes of the packet so far, and whether the last byte was `SLIP_ESC`. -/
@[ext]
structure Line where
  pending : List UInt8
  esc : Bool

namespace Line

/-- The state at a packet boundary. -/
def idle : Line := ⟨[], false⟩

/-- The packets that a byte completes and the state after it. -/
def feed (l : Line) (byte : UInt8) : List (List UInt8) × Line :=
  if byte = SLIP_END then (if l.pending = [] then [] else [l.pending], idle)
  else if l.esc then
    if byte = SLIP_ESC_END then ([], ⟨l.pending ++ [SLIP_END], false⟩)
    else if byte = SLIP_ESC_ESC then ([], ⟨l.pending ++ [SLIP_ESC], false⟩)
    else ([], idle)
  else if byte = SLIP_ESC then ([], ⟨l.pending, true⟩)
  else ([], ⟨l.pending ++ [byte], false⟩)

/-- The packets that a stream completes. -/
def sent (l : Line) (bytes : List UInt8) : List (List UInt8) := (Run.outputs feed l bytes).flatten

/-- The state after a stream. -/
def after (l : Line) (bytes : List UInt8) : Line := Run.final feed l bytes

theorem sent_append (l : Line) (as bs : List UInt8) :
    l.sent (as ++ bs) = l.sent as ++ (l.after as).sent bs := by
  rw [sent, Run.outputs_append, List.flatten_append]
  rfl

theorem after_append (l : Line) (as bs : List UInt8) :
    l.after (as ++ bs) = (l.after as).after bs :=
  Run.final_append feed l as bs

theorem after_end (l : Line) : l.after [SLIP_END] = idle := by
  simp only [after, Run.final, feed, if_true]

theorem sent_end (l : Line) :
    l.sent [SLIP_END] = if l.pending = [] then [] else [l.pending] := by
  simp only [sent, Run.outputs, feed, if_true, List.flatten_cons, List.flatten_nil, List.append_nil]

/-- The code of a byte adds it to the packet and completes nothing. -/
theorem feed_t2sByte (pending : List UInt8) (byte : UInt8) :
    sent ⟨pending, false⟩ (t2sByte byte) = [] ∧
      after ⟨pending, false⟩ (t2sByte byte) = ⟨pending ++ [byte], false⟩ := by
  unfold t2sByte
  split_ifs with hend hesc
  · rw [hend]
    exact ⟨rfl, rfl⟩
  · rw [hesc]
    exact ⟨rfl, rfl⟩
  · simp [sent, after, Run.outputs, Run.final, feed, hend, hesc]

/-- So does the code of a packet with all its bytes. -/
theorem feed_flatMap_t2sByte (packet pending : List UInt8) :
    sent ⟨pending, false⟩ (packet.flatMap t2sByte) = [] ∧
      after ⟨pending, false⟩ (packet.flatMap t2sByte) = ⟨pending ++ packet, false⟩ := by
  induction packet generalizing pending with
  | nil =>
    refine ⟨rfl, ?_⟩
    rw [List.append_nil]
    rfl
  | cons byte packet ih =>
    obtain ⟨hsent, hafter⟩ := feed_t2sByte pending byte
    obtain ⟨hsents, hafters⟩ := ih (pending ++ [byte])
    rw [List.flatMap_cons, sent_append, after_append, hsent, hafter, hsents, hafters,
      List.append_assoc]
    exact ⟨rfl, rfl⟩

/-- A packet that fits the buffer of `t2s` is sent as it is, unless it is empty, and the decoder is at a
packet boundary again. -/
theorem feed_t2s {size : ℕ} {packet : List UInt8} (hsize : packet.length ≤ size) :
    idle.sent (t2s size (some packet)) = (if packet = [] then [] else [packet]) ∧
      idle.after (t2s size (some packet)) = idle := by
  obtain ⟨hsent, hafter⟩ := feed_flatMap_t2sByte packet []
  rw [t2s, List.take_of_length_le hsize, sent_append, after_append, after_end]
  refine ⟨?_, rfl⟩
  rw [show idle = ⟨[], false⟩ from rfl, hsent, hafter, sent_end, List.nil_append, List.nil_append]

/-- The packets of a list come out in order. -/
theorem feed_flatMap_t2s {size : ℕ} {packets : List (List UInt8)}
    (hsize : ∀ packet ∈ packets, packet.length ≤ size) :
    idle.sent (packets.flatMap fun packet => t2s size (some packet)) = packets.filter (· ≠ []) ∧
      idle.after (packets.flatMap fun packet => t2s size (some packet)) = idle := by
  induction packets with
  | nil => exact ⟨rfl, rfl⟩
  | cons packet packets ih =>
    obtain ⟨hsent, hafter⟩ := feed_t2s (hsize packet List.mem_cons_self)
    obtain ⟨hsents, hafters⟩ := ih fun q hq => hsize q (List.mem_cons_of_mem packet hq)
    rw [List.flatMap_cons, sent_append, after_append, hsent, hafter, hsents, hafters]
    refine ⟨?_, rfl⟩
    by_cases hnil : packet = [] <;> simp [hnil]

end Line

/-! ### The channel follows the decoder -/

namespace Channel

/-- What the decoder has, read off the buffer. -/
def line (c : Channel) : Line := ⟨c.s2tBuffer.take c.s2tPacketSize, c.s2tStateEsc⟩

/-- What holds of an open channel after every byte. -/
structure Sound (c : Channel) : Prop where
  tunfd_nonneg : 0 ≤ c.tunfd
  length_buffer : c.s2tBuffer.length = c.s2tBufferSize
  packetSize_le : c.s2tPacketSize ≤ c.s2tBufferSize
  stores_lt : ∀ s ∈ c.stores, s.1 < s.2

theorem sound_openFd (fd : ℕ) : (openFd fd).Sound where
  tunfd_nonneg := Int.natCast_nonneg fd
  length_buffer := rfl
  packetSize_le := le_rfl
  stores_lt := fun _ hs => absurd hs List.not_mem_nil

variable {mem : Realloc} {c : Channel}

theorem Sound.of_reset (h : c.Sound) (esc : Bool) :
    Sound { c with s2tPacketSize := 0, s2tStateEsc := esc } where
  tunfd_nonneg := h.tunfd_nonneg
  length_buffer := h.length_buffer
  packetSize_le := Nat.zero_le _
  stores_lt := h.stores_lt

/-- The growth of the buffer leaves room for a byte and what the buffer holds as it is. -/
theorem Sound.grow (h : c.Sound) (hmem : mem.Unlimited) :
    ∃ c', c.s2tGrow mem = some c' ∧ c'.Sound ∧ c'.s2tPacketSize < c'.s2tBufferSize ∧
      c'.line = c.line ∧ c'.tun = c.tun := by
  by_cases hfull : c.s2tPacketSize ≥ c.s2tBufferSize
  · obtain ⟨b, hb⟩ := Option.isSome_iff_exists.mp
      (hmem c.s2tBuffer (c.s2tBufferSize + SLIP_S2T_BUFFER_STEP))
    have hpacket : c.s2tPacketSize ≤ c.s2tBufferSize + SLIP_S2T_BUFFER_STEP :=
      h.packetSize_le.trans (Nat.le_add_right _ _)
    have htake : b.take c.s2tPacketSize = c.s2tBuffer.take c.s2tPacketSize :=
      mem.take_resize hb (h.length_buffer ▸ h.packetSize_le) hpacket
    have hlt : c.s2tPacketSize < c.s2tBufferSize + SLIP_S2T_BUFFER_STEP := by
      have hle := h.packetSize_le
      rw [SLIP_S2T_BUFFER_STEP]
      omega
    refine ⟨{ c with
        s2tBuffer := b
        s2tBufferSize := c.s2tBufferSize + SLIP_S2T_BUFFER_STEP },
      by rw [s2tGrow, if_pos hfull, hb, Option.map_some],
      ⟨h.tunfd_nonneg, mem.length_resize hb, hpacket, h.stores_lt⟩, hlt, ?_, rfl⟩
    rw [line, line, htake]
  · exact ⟨c, by rw [s2tGrow, if_neg hfull], h, not_le.mp hfull, rfl, rfl⟩

/-- A byte stored where there is room. -/
theorem Sound.store (h : c.Sound) (hroom : c.s2tPacketSize < c.s2tBufferSize) (byte : UInt8) :
    (c.s2tStore byte).Sound ∧
      (c.s2tStore byte).line = ⟨c.line.pending ++ [byte], c.s2tStateEsc⟩ := by
  have hlen : c.s2tPacketSize < c.s2tBuffer.length := h.length_buffer ▸ hroom
  refine ⟨⟨h.tunfd_nonneg, ?_, hroom, ?_⟩, ?_⟩
  · rw [s2tStore, List.length_set]
    exact h.length_buffer
  · intro s hs
    rcases List.mem_append.mp hs with hs | hs
    · exact h.stores_lt s hs
    · rw [List.mem_singleton.mp hs]
      exact hroom
  · ext1
    · show (c.s2tBuffer.set c.s2tPacketSize byte).take (c.s2tPacketSize + 1) = _
      rw [List.take_succ_eq_append_getElem (by rwa [List.length_set]), List.getElem_set_self,
        List.take_set_of_le le_rfl]
      rfl
    · rfl

theorem Sound.add (h : c.Sound) (hmem : mem.Unlimited) (byte : UInt8) :
    ∃ c', c.s2tAdd mem byte = some c' ∧ c'.Sound ∧
      c'.line = ⟨c.line.pending ++ [byte], c.s2tStateEsc⟩ ∧ c'.tun = c.tun := by
  obtain ⟨c', hgrow, hsound, hroom, hline, htun⟩ := h.grow hmem
  obtain ⟨hsound', hline'⟩ := hsound.store hroom byte
  have hesc : c'.s2tStateEsc = c.s2tStateEsc := congrArg Line.esc hline
  refine ⟨_, by rw [s2tAdd, hgrow, Option.map_some], hsound', ?_, htun⟩
  rw [hline', hline, hesc]

theorem Sound.sendPacket (h : c.Sound) :
    c.s2tSendPacket.Sound ∧ c.s2tSendPacket.tun = c.tun ++ c.line.sent [SLIP_END] := by
  have hopen : ¬c.tunfd < 0 := not_lt.mpr h.tunfd_nonneg
  have hlen : c.line.pending.length = c.s2tPacketSize := by
    rw [line, List.length_take, h.length_buffer]
    exact min_eq_left h.packetSize_le
  rw [Line.sent_end, s2tSendPacket, if_neg hopen]
  by_cases hzero : c.s2tPacketSize = 0
  · rw [if_pos hzero, if_pos (List.length_eq_zero_iff.mp (hlen.trans hzero)), List.append_nil]
    exact ⟨h, rfl⟩
  · rw [if_neg hzero, if_neg fun hnil => hzero (hlen.symm.trans (List.length_eq_zero_iff.mpr hnil))]
    exact ⟨⟨h.tunfd_nonneg, h.length_buffer, h.packetSize_le, h.stores_lt⟩, rfl⟩

/-- One byte: the channel writes what the decoder completes. -/
theorem Sound.s2t (h : c.Sound) (hmem : mem.Unlimited) (byte : UInt8) :
    ∃ c', c.s2t mem byte = some c' ∧ c'.Sound ∧ c'.line = (c.line.feed byte).2 ∧
      c'.tun = c.tun ++ (c.line.feed byte).1 := by
  have hesc : Sound { c with s2tStateEsc := false } :=
    ⟨h.tunfd_nonneg, h.length_buffer, h.packetSize_le, h.stores_lt⟩
  unfold Channel.s2t Line.feed
  by_cases hend : byte = SLIP_END
  · obtain ⟨hsound, htun⟩ := h.sendPacket
    rw [if_pos hend, if_pos hend]
    rw [Line.sent_end] at htun
    exact ⟨_, rfl, hsound.of_reset false, rfl, htun⟩
  rw [if_neg hend, if_neg hend, show c.line.esc = c.s2tStateEsc from rfl]
  by_cases hstate : c.s2tStateEsc = true
  · rw [if_pos hstate, if_pos hstate]
    -- after an escape: one of the two codes, or an invalid packet
    by_cases hEscEnd : byte = SLIP_ESC_END
    · rw [if_pos hEscEnd, if_pos hEscEnd, List.append_nil]
      exact hesc.add hmem SLIP_END
    by_cases hEscEsc : byte = SLIP_ESC_ESC
    · rw [if_neg hEscEnd, if_neg hEscEnd, if_pos hEscEsc, if_pos hEscEsc, List.append_nil]
      exact hesc.add hmem SLIP_ESC
    · rw [if_neg hEscEnd, if_neg hEscEnd, if_neg hEscEsc, if_neg hEscEsc, List.append_nil]
      exact ⟨_, rfl, h.of_reset false, rfl, rfl⟩
  rw [if_neg hstate, if_neg hstate]
  by_cases hEsc : byte = SLIP_ESC
  · rw [if_pos hEsc, if_pos hEsc, List.append_nil]
    exact ⟨_, rfl, ⟨h.tunfd_nonneg, h.length_buffer, h.packetSize_le, h.stores_lt⟩, rfl, rfl⟩
  · rw [if_neg hEsc, if_neg hEsc, List.append_nil]
    obtain ⟨c', hadd, hsound, hline, htun⟩ := h.add hmem byte
    rw [Bool.not_eq_true] at hstate
    rw [hstate] at hline
    exact ⟨c', hadd, hsound, hline, htun⟩

/-- A stream: the channel writes what the decoder completes, in order. -/
theorem Sound.s2tAll (h : c.Sound) (hmem : mem.Unlimited) (bytes : List UInt8) :
    ∃ c', c.s2tAll mem bytes = some c' ∧ c'.Sound ∧ c'.line = c.line.after bytes ∧
      c'.tun = c.tun ++ c.line.sent bytes := by
  induction bytes generalizing c with
  | nil =>
    refine ⟨c, rfl, h, rfl, ?_⟩
    rw [show c.line.sent [] = [] from rfl, List.append_nil]
  | cons byte bytes ih =>
    obtain ⟨c₁, hstep, hsound₁, hline₁, htun₁⟩ := h.s2t hmem byte
    obtain ⟨c₂, hrest, hsound₂, hline₂, htun₂⟩ := ih hsound₁
    refine ⟨c₂, ?_, hsound₂, ?_, ?_⟩
    · rw [Channel.s2tAll, List.foldlM_cons, hstep]
      exact hrest
    · rw [hline₂, hline₁]
      rfl
    · rw [htun₂, htun₁, hline₁, List.append_assoc]
      rfl

/-- **SLIP round trip.**  Whatever the channel received before, a `SLIP_END` resynchronises it: of the
packets encoded after it exactly the non-empty ones are written to the device, in order and unmodified,
and every byte that was stored on the way was stored inside the buffer. -/
theorem s2tAll_t2s (mem : Realloc) (hmem : mem.Unlimited) (fd size : ℕ) (p : List UInt8)
    (packets : List (List UInt8)) (hsize : ∀ packet ∈ packets, packet.length ≤ size) :
    ∃ before after : Channel,
      (openFd fd).s2tAll mem (p ++ [SLIP_END]) = some before ∧
      before.s2tAll mem (packets.flatMap fun packet => t2s size (some packet)) = some after ∧
      after.tun = before.tun ++ packets.filter (· ≠ []) ∧
      ∀ s ∈ after.stores, s.1 < s.2 := by
  obtain ⟨before, hbefore, hsound, hline, -⟩ := (sound_openFd fd).s2tAll hmem (p ++ [SLIP_END])
  rw [Line.after_append, Line.after_end] at hline
  obtain ⟨after, hafter, hsound', -, htun⟩ :=
    hsound.s2tAll hmem (packets.flatMap fun packet => t2s size (some packet))
  rw [hline, (Line.feed_flatMap_t2s hsize).1] at htun
  exact ⟨before, after, hbefore, hafter, htun, hsound'.stores_lt⟩

end Channel

/-- A host with unlimited memory that clears what it allocates. -/
def Realloc.zeroed : Realloc where
  resize b n := some ((b ++ List.replicate n 0).take n)
  length_resize h := by
    rw [← Option.some.inj h, List.length_take, List.length_append, List.length_replicate]
    omega
  take_resize h hb hn := by
    rw [← Option.some.inj h, List.take_take, min_eq_left hn, List.take_append_of_le_length hb]

theorem Realloc.unlimited_zeroed : Realloc.zeroed.Unlimited := fun _ _ => rfl

/-- A stream broken off within an escape, and then a packet of the two special bytes and an empty one. -/
theorem Channel.s2tAll_t2s_special :
    Realloc.zeroed.Unlimited ∧
      (∀ packet ∈ [[SLIP_END, SLIP_ESC], []], packet.length ≤ 1500) ∧
      ∃ before after : Channel,
        (openFd 3).s2tAll Realloc.zeroed ([0x41, SLIP_ESC] ++ [SLIP_END]) = some before ∧
        before.s2tAll Realloc.zeroed
          ([[SLIP_END, SLIP_ESC], []].flatMap fun packet => t2s 1500 (some packet)) = some after ∧
        after.tun = before.tun ++ [[SLIP_END, SLIP_ESC], []].filter (· ≠ []) ∧
        ∀ s ∈ after.stores, s.1 < s.2 :=
  ⟨Realloc.unlimited_zeroed, by decide,
    s2tAll_t2s Realloc.zeroed Realloc.unlimited_zeroed 3 1500 [0x41, SLIP_ESC]
      [[SLIP_END, SLIP_ESC], []] (by decide)⟩

end RiscvVp.Slip
