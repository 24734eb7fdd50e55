import Mathlib
import RiscvVp.Slip.Equiv.RoundTrip

/-!
# Invalid SLIP packets

The decoder forgets what it has collected when an escape is followed by a byte that is no code, but it
does not remember that the packet is invalid: what follows is collected again and sent with the next
`SLIP_END`.  `units` splits the bytes of a packet the way the decoder pairs them.
-/

namespace RiscvVp.Slip

/-! ### The units of a packet -/

/-- What the bytes between two `SLIP_END` consist of. -/
inductive Unit
  /-- A byte of the packet, as it is or as one of the two codes. -/
  | data (byte : UInt8)
  /-- An escape and a byte that is no code. -/
  | invalid (byte : UInt8)
  deriving DecidableEq, Repr

/-- What an escape and the byte after it are. -/
def escaped (byte : UInt8) : Unit :=
  if byte = SLIP_ESC_END then .data SLIP_END
  else if byte = SLIP_ESC_ESC then .data SLIP_ESC
  else .invalid byte

/-- The units of a byte sequence; an escape at its end is part of none. -/
def units : List UInt8 → List Unit
  | [] => []
  | [byte] => if byte = SLIP_ESC then [] else [.data byte]
  | byte :: next :: bytes =>
    if byte = SLIP_ESC then escaped next :: units bytes else .data byte :: units (next :: bytes)

/-- The byte sequence has an invalid escape. -/
def IsInvalid (bytes : List UInt8) : Prop := ∃ byte, Unit.invalid byte ∈ units bytes

/-- The last unit is an invalid escape. -/
def EndsInvalid (bytes : List UInt8) : Prop := ∃ byte, (units bytes).getLast? = some (.invalid byte)

/-- What is collected of the units. -/
def collect (pending : List UInt8) : List Unit → List UInt8
  | [] => pending
  | .data byte :: us => collect (pending ++ [byte]) us
  | .invalid _ :: us => collect [] us

/-- What an invalid last unit leaves: nothing. -/
theorem collect_eq_nil_iff (us : List Unit) (pending : List UInt8) (hus : us ≠ []) :
    collect pending us = [] ↔ ∃ byte, us.getLast? = some (.invalid byte) := by
  induction us generalizing pending with
  | nil => exact absurd rfl hus
  | cons u us ih =>
    by_cases hnil : us = []
    · subst hnil
      cases u <;> simp [collect]
    · obtain ⟨v, vs, rfl⟩ := List.exists_cons_of_ne_nil hnil
      rw [List.getLast?_cons_cons]
      cases u with
      | data byte => exact ih (pending ++ [byte]) hnil
      | invalid byte => exact ih [] hnil

/-! ### The decoder on a packet -/

namespace Line

/-- The byte after an escape is collected as what it stands for, or, if it stands for nothing, as an invalid
one. -/
theorem feed_escaped (pending : List UInt8) {byte : UInt8} (hend : byte ≠ SLIP_END) :
    feed ⟨pending, true⟩ byte = ([], ⟨collect pending [escaped byte], false⟩) := by
  unfold feed escaped
  rw [if_neg hend, if_pos rfl]
  split_ifs <;> rfl

/-- The bytes between two `SLIP_END` are collected unit by unit, and nothing is sent. -/
theorem feed_units (bytes pending : List UInt8) (hend : SLIP_END ∉ bytes) :
    sent ⟨pending, false⟩ bytes = [] ∧
      (after ⟨pending, false⟩ bytes).pending = collect pending (units bytes) := by
  induction bytes using units.induct generalizing pending with
  | case1 => exact ⟨rfl, rfl⟩
  | case2 =>
    -- an escape that is still open
    exact ⟨rfl, rfl⟩
  | case3 byte hesc =>
    have hne : byte ≠ SLIP_END := fun h => hend (h ▸ List.mem_singleton_self byte)
    simp [sent, after, Run.outputs, Run.final, feed, units, collect, hne, hesc]
  | case4 next bytes ih =>
    have hne : next ≠ SLIP_END := fun h => hend (by simp [h])
    have hrest : SLIP_END ∉ bytes := fun h => hend (by simp [h])
    have hsplit : SLIP_ESC :: next :: bytes = [SLIP_ESC, next] ++ bytes := rfl
    have hpair : sent ⟨pending, false⟩ [SLIP_ESC, next] = [] ∧
        after ⟨pending, false⟩ [SLIP_ESC, next] =
          ⟨collect pending [escaped next], false⟩ := by
      have hopen : feed ⟨pending, false⟩ SLIP_ESC = ([], ⟨pending, true⟩) := rfl
      simp only [sent, after, Run.outputs, Run.final, hopen, feed_escaped pending hne]
      exact ⟨rfl, trivial⟩
    obtain ⟨hsent, hpending⟩ := ih (collect pending [escaped next]) hrest
    rw [hsplit, sent_append, after_append, hpair.1, hpair.2, hsent, hpending]
    refine ⟨rfl, ?_⟩
    rw [← hsplit, units, if_pos rfl]
    cases escaped next <;> rfl
  | case5 byte next bytes hesc ih =>
    have hne : byte ≠ SLIP_END := fun h => hend (by simp [h])
    have hrest : SLIP_END ∉ next :: bytes := fun h => hend (List.mem_cons_of_mem byte h)
    have hbyte : sent ⟨pending, false⟩ [byte] = [] ∧
        after ⟨pending, false⟩ [byte] = ⟨pending ++ [byte], false⟩ := by
      simp [sent, after, Run.outputs, Run.final, feed, hne, hesc]
    obtain ⟨hsent, hpending⟩ := ih (pending ++ [byte]) hrest
    rw [← List.singleton_append, sent_append, after_append, hbyte.1, hbyte.2, hsent, hpending]
    refine ⟨rfl, ?_⟩
    rw [List.singleton_append, units, if_neg hesc]
    rfl

end Line

/-! ### The channel on an invalid packet -/

namespace Channel

/-- The channel is open and at a packet boundary. -/
def AtBoundary (c : Channel) : Prop := c.Sound ∧ c.s2tPacketSize = 0 ∧ c.s2tStateEsc = false

/-- The bytes and a `SLIP_END` make the channel write nothing and leave it at a packet boundary. -/
def DroppedWhole (mem : Realloc) (c : Channel) (bytes : List UInt8) : Prop :=
  ∃ c', c.s2tAll mem (bytes ++ [SLIP_END]) = some c' ∧ c'.AtBoundary ∧ c'.tun = c.tun

variable {mem : Realloc} {c : Channel}

theorem AtBoundary.line (h : c.AtBoundary) : c.line = Line.idle := by
  obtain ⟨-, hsize, hesc⟩ := h
  rw [Channel.line, hsize, hesc]
  rfl

/-- After a `SLIP_END` the channel is at a packet boundary. -/
theorem atBoundary_of_s2t_end (h : c.Sound) (hmem : mem.Unlimited) {c' : Channel}
    (hrun : c.s2t mem SLIP_END = some c') : c'.AtBoundary := by
  obtain ⟨c₁, hc₁, hsound, -, -⟩ := h.s2t hmem SLIP_END
  obtain rfl : c₁ = c' := Option.some.inj (hc₁.symm.trans hrun)
  have heq : c.s2t mem SLIP_END =
      some { c.s2tSendPacket with s2tPacketSize := 0, s2tStateEsc := false } := by
    rw [Channel.s2t, if_pos rfl]
  rw [heq] at hrun
  refine ⟨hsound, ?_, ?_⟩
  · rw [← Option.some.inj hrun]
  · rw [← Option.some.inj hrun]

/-- **When an invalid packet is dropped whole.**  A packet with an invalid escape is dropped exactly if
the invalid escape is its last unit: the bytes after it are sent otherwise. -/
theorem droppedWhole_iff (mem : Realloc) (hmem : mem.Unlimited) (c : Channel) (hc : c.AtBoundary)
    (bytes : List UInt8) (hend : SLIP_END ∉ bytes) (hinvalid : IsInvalid bytes) :
    c.DroppedWhole mem bytes ↔ EndsInvalid bytes := by
  have hunits : units bytes ≠ [] := by
    obtain ⟨byte, hbyte⟩ := hinvalid
    exact List.ne_nil_of_mem hbyte
  obtain ⟨c₁, hrun₁, hsound₁, hline₁, htun₁⟩ := hc.1.s2tAll hmem bytes
  obtain ⟨c₂, hrun₂, -, -, htun₂⟩ := hsound₁.s2t hmem SLIP_END
  have hrun : c.s2tAll mem (bytes ++ [SLIP_END]) = some c₂ := by
    rw [Channel.s2tAll, List.foldlM_append]
    show ((c.s2tAll mem bytes).bind fun c => [SLIP_END].foldlM (Channel.s2t mem) c) = some c₂
    rw [hrun₁, Option.bind_some, List.foldlM_cons, hrun₂]
    rfl
  obtain ⟨hsent, hpending⟩ := Line.feed_units bytes [] hend
  rw [hc.line] at hline₁ htun₁
  have hwrite : c₂.tun = c.tun ++ if collect [] (units bytes) = [] then []
      else [collect [] (units bytes)] := by
    rw [htun₂, htun₁, hline₁, show Line.idle = ⟨[], false⟩ from rfl, hsent, List.append_nil]
    rw [← hpending]
    rfl
  rw [EndsInvalid, ← collect_eq_nil_iff _ [] hunits]
  constructor
  · rintro ⟨c', hrun', -, htun'⟩
    rw [hrun] at hrun'
    rw [← Option.some.inj hrun', hwrite] at htun'
    by_contra hne
    rw [if_neg hne] at htun'
    exact List.cons_ne_nil _ _ (List.append_right_eq_self.mp htun')
  · intro hnil
    refine ⟨c₂, hrun, atBoundary_of_s2t_end hsound₁ hmem hrun₂, ?_⟩
    rw [hwrite, if_pos hnil, List.append_nil]

/-- A packet that ends in an invalid escape is dropped as a whole, and one that goes on after it is not. -/
theorem droppedWhole_iff_openFd :
    (openFd 3).DroppedWhole Realloc.zeroed [0x41, SLIP_ESC, 0x42] ∧
      ¬(openFd 3).DroppedWhole Realloc.zeroed [0x41, SLIP_ESC, 0x42, 0x43] := by
  have hc : (openFd 3).AtBoundary := ⟨sound_openFd 3, rfl, rfl⟩
  constructor
  · exact (droppedWhole_iff Realloc.zeroed Realloc.unlimited_zeroed (openFd 3) hc _ (by decide)
      ⟨0x42, by decide⟩).2 ⟨0x42, by decide⟩
  · rw [droppedWhole_iff Realloc.zeroed Realloc.unlimited_zeroed (openFd 3) hc _ (by decide)
      ⟨0x42, by decide⟩]
    rintro ⟨byte, hlast⟩
    have hdata : (units [0x41, SLIP_ESC, 0x42, 0x43]).getLast? = some (.data 0x43) := by decide
    rw [hdata] at hlast
    cases hlast

/-- The bytes after an invalid escape are written to the device as a packet of their own. -/
theorem not_droppedWhole :
    (openFd 3).AtBoundary ∧ SLIP_END ∉ [0x41, SLIP_ESC, 0x42, 0x43] ∧
      IsInvalid [0x41, SLIP_ESC, 0x42, 0x43] ∧
      ¬(openFd 3).DroppedWhole Realloc.zeroed [0x41, SLIP_ESC, 0x42, 0x43] := by
  refine ⟨⟨sound_openFd 3, rfl, rfl⟩, by decide, ⟨0x42, by decide⟩, ?_⟩
  rintro ⟨c', hrun, -, htun⟩
  have hwritten : ((openFd 3).s2tAll Realloc.zeroed
      ([0x41, SLIP_ESC, 0x42, 0x43] ++ [SLIP_END])).map Channel.tun = some [[0x43]] := by
    decide
  rw [hrun, Option.map_some, htun] at hwritten
  cases hwritten

end Channel

end RiscvVp.Slip
