import RiscvVp.Gdb.Basic

/-!
# Checksums and framing

What `gdb_serialize` makes of a payload and what the parser of the first stage makes of that.  The
checksum adds characters with their sign, so it has two digits only where the sum is not negative or
a multiple of 256 (`length_formatCsum_calcCsum`).
-/

namespace RiscvVp.Gdb

/-! ### Strings -/

theorem cstr_of_ne_zero {data : List (BitVec 8)} (h : ∀ c ∈ data, c ≠ 0) : cstr data = data := by
  rw [cstr, List.takeWhile_eq_self_iff]
  intro c hc
  simpa using h c hc

theorem cstr_append {pre : List (BitVec 8)} (h : ∀ c ∈ pre, c ≠ 0) (rest : List (BitVec 8)) :
    cstr (pre ++ rest) = pre ++ cstr rest := by
  rw [cstr, List.takeWhile_append_of_pos]
  · rfl
  · intro c hc
    simpa using h c hc

/-! ### Checksums -/

/-- The sum of a string's characters, each with its sign. -/
def signedSum (data : List (BitVec 8)) : ℤ := (data.map BitVec.toInt).sum

/-- The sum as an `int` is not negative, or leaves no remainder modulo 256. -/
def CsumOk (data : List (BitVec 8)) : Prop :=
  0 ≤ (signedSum data).bmod (2 ^ 32) ∨ 256 ∣ signedSum data

instance (data : List (BitVec 8)) : Decidable (CsumOk data) :=
  inferInstanceAs (Decidable (_ ∨ _))

theorem toInt_csumLoop (data : List (BitVec 8)) :
    (csumLoop data).toInt = (signedSum data).bmod (2 ^ 32) := by
  have hfold : ∀ (csum : BitVec 32), (data.foldl (fun csum c => csum + c.signExtend 32) csum).toInt =
      (csum.toInt + signedSum data).bmod (2 ^ 32) := by
    induction data with
    | nil =>
      intro csum
      rw [List.foldl_nil, signedSum, List.map_nil, List.sum_nil, add_zero, BitVec.toInt_bmod_cancel]
    | cons c data ih =>
      intro csum
      rw [List.foldl_cons, ih, BitVec.toInt_add, BitVec.toInt_signExtend_of_le (by decide),
        Int.bmod_add_bmod, signedSum, signedSum, List.map_cons, List.sum_cons, add_assoc]
  rw [csumLoop, hfold]
  simp

/-- The remainder of a C division is a number below 256 unless the dividend is negative. -/
theorem toNat_srem_lt_iff (csum : BitVec 32) :
    (csum.srem 256).toNat < 256 ↔ 0 ≤ csum.toInt ∨ 256 ∣ csum.toInt := by
  have hsrem : (csum.srem 256).toInt = csum.toInt.tmod 256 := BitVec.toInt_srem csum 256
  have hnat : (csum.srem 256).toNat < 256 ↔
      0 ≤ (csum.srem 256).toInt ∧ (csum.srem 256).toInt < 256 := by
    rw [BitVec.toInt_eq_toNat_cond]
    have := (csum.srem 256).isLt
    split_ifs <;> omega
  rw [hnat, hsrem]
  constructor
  · rintro ⟨hle, -⟩
    rcases le_or_gt 0 csum.toInt with h | h
    · exact Or.inl h
    · right
      have hneg : 0 ≤ (-csum.toInt).tmod 256 := Int.tmod_nonneg 256 (by omega)
      rw [Int.neg_tmod] at hneg
      exact Int.dvd_of_tmod_eq_zero (by omega)
  · rintro (h | h)
    · exact ⟨Int.tmod_nonneg 256 h, Int.tmod_lt_of_pos _ (by decide)⟩
    · rw [Int.tmod_eq_zero_of_dvd h]
      decide

theorem dvd_bmod_iff (n : ℤ) : 256 ∣ n.bmod (2 ^ 32) ↔ 256 ∣ n := by
  have hdvd : (256 : ℤ) ∣ n.bmod (2 ^ 32) - n := (by decide : (256 : ℤ) ∣ (2 ^ 32 : ℕ)).trans
    Int.dvd_bmod_sub_self
  exact (Int.dvd_iff_dvd_of_dvd_sub hdvd)

theorem toNat_calcCsum_lt_iff {data : List (BitVec 8)} (h : ∀ c ∈ data, c ≠ 0) :
    (calcCsum data).toNat < 256 ↔ CsumOk data := by
  rw [calcCsum, cstr_of_ne_zero h, toNat_srem_lt_iff, toInt_csumLoop, dvd_bmod_iff]
  rfl

/-- `%.2x` prints two digits of a number below 256, and more of any other. -/
theorem length_formatHex_two (v : ℕ) : (formatHex 2 v).length = max 2 (Nat.digits 16 v).length := by
  rw [formatHex, List.leftpad]
  simp
  omega

theorem length_formatCsum_eq_iff (csum : BitVec 32) :
    (formatCsum csum).length = csumLen ↔ csum.toNat < 256 := by
  have hlen := length_formatHex_two csum.toNat
  have hdig := Nat.digits_length_le_iff (b := 16) (k := 2) (by decide) csum.toNat
  rw [formatCsum, csumLen, hlen]
  omega

theorem two_le_length_formatCsum (csum : BitVec 32) : 2 ≤ (formatCsum csum).length := by
  rw [formatCsum, csumLen, length_formatHex_two]
  exact le_max_left _ _

/-! ### What is sent -/

/-- `gdb_serialize` of a payload: it gives a packet where the checksum has two digits and the packet is
not too long for `snprintf`. -/
theorem gdbSerialize_eq {kind : GdbKind} {start : BitVec 8} {data : List (BitVec 8)}
    (hkind : kind = .notify ∨ kind = .packet) (hstart : kindToChar kind = .ok start)
    (hdata : ∀ c ∈ data, c ≠ 0) :
    gdbSerialize kind (some data) =
      if data.length + 4 ≤ intMax ∧ CsumOk data then
        .ok (start :: data ++ chr '#' :: formatCsum (calcCsum data))
      else .error .err := by
  have hack : ¬ (kind = .nack ∨ kind = .ack) := by
    rcases hkind with rfl | rfl <;> decide
  have hcsum := (length_formatCsum_eq_iff (calcCsum data)).trans (toNat_calcCsum_lt_iff hdata)
  have htwo := two_le_length_formatCsum (calcCsum data)
  have hlen : (start :: data ++ chr '#' :: formatCsum (calcCsum data)).length =
      data.length + 2 + (formatCsum (calcCsum data)).length := by
    simp only [List.length_append, List.length_cons]
    omega
  have hred : gdbSerialize kind (some data) =
      if intMax < data.length + 2 + (formatCsum (calcCsum data)).length then .error .err
      else if data.length + 5 ≤ data.length + 2 + (formatCsum (calcCsum data)).length then .error .err
      else .ok (start :: data ++ chr '#' :: formatCsum (calcCsum data)) := by
    rw [gdbSerialize, hstart]
    show (if kind = .nack ∨ kind = .ack then _ else _) = _
    rw [if_neg hack, cstr_of_ne_zero hdata, hlen]
    rfl
  have hcl : csumLen = 2 := rfl
  rw [hred]
  by_cases hok : CsumOk data
  · have hfour := hcsum.mpr hok
    by_cases hmax : data.length + 4 ≤ intMax
    · rw [if_neg (by omega), if_neg (by omega), if_pos ⟨hmax, hok⟩]
    · rw [if_pos (by omega), if_neg fun h => hmax h.1]
  · have hfour := mt hcsum.mp hok
    rw [if_pos (by omega : data.length + 5 ≤ _), ite_self]
    rw [if_neg fun h => hok h.2]

/-! ### What is received -/

theorem many_noneof {stop data : List (BitVec 8)} (hstop : chr '#' ∈ stop)
    (hdata : ∀ c ∈ data, c ∉ stop) (bt : Bool) (rest : List (BitVec 8)) :
    (noneof stop).many bt (data ++ chr '#' :: rest) = .ok data (chr '#' :: rest) := by
  rw [noneof, Parser.many_satisfy]
  have hpos : ∀ c ∈ data, (!stop.contains c) = true := by
    intro c hc
    simpa using hdata c hc
  have hneg : stop.contains (chr '#') = true := by simpa using hstop
  rw [List.takeWhile_append_of_pos hpos, List.dropWhile_append_of_pos hpos, List.takeWhile_cons,
    List.dropWhile_cons, hneg]
  simp

/-- A framed packet is read up to its checksum. -/
theorem gdbFramed_ok {start : BitVec 8} {stop data : List (BitVec 8)} (hstop : chr '#' ∈ stop)
    (hdata : ∀ c ∈ data, c ∉ stop) (bt : Bool) (c1 c2 : BitVec 8) (rest : List (BitVec 8)) :
    gdbFramed start stop bt (start :: data ++ chr '#' :: c1 :: c2 :: rest) =
      match gdbfPacket start data [chr '#', c1, c2] with
      | .ok pkt => .ok pkt rest
      | .error e => .abort e := by
  have hmany := many_noneof hstop hdata bt (c1 :: c2 :: rest)
  have hstart : char start bt (start :: data ++ chr '#' :: c1 :: c2 :: rest) =
      .ok start (data ++ chr '#' :: c1 :: c2 :: rest) :=
    Parser.satisfy_cons_of_pos (beq_self_eq_true start)
  have hcsum : gdbCsum bt (chr '#' :: c1 :: c2 :: rest) = .ok [chr '#', c1, c2] rest := rfl
  rw [gdbFramed, Parser.apply, Parser.andThen_ok hstart, Parser.andThen_ok hmany,
    Parser.andThen_ok hcsum]
  dsimp only [Parser.succeed]
  cases gdbfPacket start data [chr '#', c1, c2] with
  | ok pkt => rfl
  | error e => rfl

/-- The first stage on a packet: the payload up to the number sign, and the two digits behind it, whatever
they are. -/
theorem gdbParsePkt_packet {data : List (BitVec 8)} (hdata : ∀ c ∈ data, c ∉ str "#$")
    (c1 c2 : BitVec 8) (rest : List (BitVec 8)) :
    gdbParsePkt (chr '$' :: data ++ chr '#' :: c1 :: c2 :: rest) =
      .ok (some (⟨.packet, some data, [c1, c2]⟩, rest)) := by
  have hframed := @gdbFramed_ok (chr '$') (str "#$") data (by decide) hdata false c1 c2 rest
  have hpacket : gdbPacket false (chr '$' :: data ++ chr '#' :: c1 :: c2 :: rest) =
      .ok ⟨.packet, some data, [c1, c2]⟩ rest := hframed
  have hack : gdbAcknowledge false (chr '$' :: data ++ chr '#' :: c1 :: c2 :: rest) =
      .fail (chr '$' :: data ++ chr '#' :: c1 :: c2 :: rest) := rfl
  rw [gdbParsePkt, Parser.predictive, gdbParseStage1, Parser.orElse, hack]
  dsimp only
  rw [Parser.orElse, hpacket]

/-- The first stage has no packet that starts with the delimiter of the checksum. -/
theorem gdbParsePkt_hash (rest : List (BitVec 8)) : gdbParsePkt (chr '#' :: rest) = .ok none := rfl

end RiscvVp.Gdb
