import RiscvVp.Gdb.Equiv.Grammar
import RiscvVp.Gdb.Equiv.RoundTrip

/-!
# Which payloads are decoded

A packet with the right checksum passes `gdb_is_valid` where the sum of its characters has two digits,
and `gdb_decode_runlen` fails its assertion exactly on a payload in which a byte from 0x80 on stands
before any malformed run (`RunlenSafe`).
-/

namespace RiscvVp.Gdb

/-! ### The checksum of the protocol -/

/-- The checksum of the protocol: two digits of the sum of the bytes modulo 256. -/
def rspCsum (payload : List (BitVec 8)) : List (BitVec 8) :=
  formatHex csumLen ((payload.map BitVec.toNat).sum % 256)

/-- Modulo 256 the sign of a character does not matter. -/
theorem dvd_signedSum_sub (data : List (BitVec 8)) :
    (256 : ℤ) ∣ signedSum data - ((data.map BitVec.toNat).sum : ℕ) := by
  induction data with
  | nil => exact dvd_zero _
  | cons c data ih =>
    have hc : (256 : ℤ) ∣ c.toInt - c.toNat := by
      rw [BitVec.toInt_eq_toNat_cond]
      split_ifs
      · rw [sub_self]
        exact dvd_zero _
      · exact ⟨-1, by norm_num⟩
    have hsum : signedSum (c :: data) - (((c :: data).map BitVec.toNat).sum : ℕ) =
        (c.toInt - c.toNat) + (signedSum data - ((data.map BitVec.toNat).sum : ℕ)) := by
      rw [signedSum, signedSum, List.map_cons, List.map_cons, List.sum_cons, List.sum_cons]
      push_cast
      ring
    rw [hsum]
    exact dvd_add hc ih

theorem toNat_calcCsum {data : List (BitVec 8)} (h : ∀ c ∈ data, c ≠ 0) (hok : CsumOk data) :
    (calcCsum data).toNat = (data.map BitVec.toNat).sum % 256 := by
  have hlt := (toNat_calcCsum_lt_iff h).mpr hok
  have hint : (calcCsum data).toInt = ((signedSum data).bmod (2 ^ 32)).tmod 256 := by
    rw [calcCsum, cstr_of_ne_zero h, ← toInt_csumLoop]
    exact BitVec.toInt_srem _ 256
  have hnat : (calcCsum data).toInt = (calcCsum data).toNat := by
    rw [BitVec.toInt_eq_toNat_cond, if_pos (by omega)]
  -- the remainder, the wrapped sum and the sums agree modulo 256
  have h1 : (256 : ℤ) ∣ (signedSum data).bmod (2 ^ 32) - ((signedSum data).bmod (2 ^ 32)).tmod 256 :=
    ⟨((signedSum data).bmod (2 ^ 32)).tdiv 256, by rw [Int.tmod_def]; ring⟩
  have h2 : (256 : ℤ) ∣ (signedSum data).bmod (2 ^ 32) - signedSum data :=
    (by decide : (256 : ℤ) ∣ (2 ^ 32 : ℕ)).trans Int.dvd_bmod_sub_self
  have h3 := dvd_signedSum_sub data
  omega

theorem gdbIsValid_rspCsum {payload : List (BitVec 8)} (h : ∀ c ∈ payload, c ≠ 0) :
    gdbIsValid ⟨.packet, some payload, rspCsum payload⟩ =
      if CsumOk payload then .ok true else .error .xassert := by
  have hlen := (length_formatCsum_eq_iff (calcCsum payload)).trans (toNat_calcCsum_lt_iff h)
  rw [gdbIsValid]
  dsimp only
  by_cases hok : CsumOk payload
  · rw [if_pos hok, xassert, if_pos (hlen.mpr hok)]
    have hcsum : rspCsum payload = formatCsum (calcCsum payload) := by
      rw [rspCsum, formatCsum, toNat_calcCsum h hok]
    show Except.ok (rspCsum payload == (formatCsum (calcCsum payload)).take csumLen) = _
    rw [hcsum, ← hlen.mpr hok, List.take_length, beq_self_eq_true]
  · rw [if_neg hok, xassert, if_neg (mt hlen.mp hok)]
    rfl

/-! ### Run lengths -/

/-- A run-length character that is followed by a character which is no repeat count. -/
def BrokenRun (l : List (BitVec 8)) : Prop :=
  ∃ a d b, l = a ++ runlenChar :: d :: b ∧ d ≠ runlenChar ∧ d.toInt ≤ runlenOff

/-- Every byte from 0x80 on stands after a broken run, or completes one. -/
def BytesSafe (l : List (BitVec 8)) : Prop :=
  ∀ pre c post, l = pre ++ c :: post → ¬ c < 0x80 → BrokenRun (pre ++ [c])

/-- Every byte from 0x80 on stands after a malformed run, or completes one; a run-length character
without anything before it is malformed too. -/
def RunlenSafe (payload : List (BitVec 8)) : Prop :=
  payload.head? = some runlenChar ∨ BytesSafe payload

theorem brokenRun_cons_of_ne {c : BitVec 8} (hc : c ≠ runlenChar) (l : List (BitVec 8)) :
    BrokenRun (c :: l) ↔ BrokenRun l := by
  constructor
  · rintro ⟨a, d, b, heq, hd, hle⟩
    cases a with
    | nil => exact absurd (List.cons.inj heq).1 hc
    | cons a0 a => exact ⟨a, d, b, (List.cons.inj heq).2, hd, hle⟩
  · rintro ⟨a, d, b, rfl, hd, hle⟩
    exact ⟨c :: a, d, b, rfl, hd, hle⟩

/-- A run-length character with a character after it that does not break the run. -/
theorem brokenRun_runlenChar {d : BitVec 8} (hd : d = runlenChar ∨ ¬ d.toInt ≤ runlenOff)
    (l : List (BitVec 8)) : BrokenRun (runlenChar :: d :: l) ↔ BrokenRun (d :: l) := by
  constructor
  · rintro ⟨a, e, b, heq, he, hle⟩
    cases a with
    | nil =>
      obtain ⟨rfl, -⟩ := List.cons.inj (List.cons.inj heq).2
      rcases hd with h | h
      · exact absurd h he
      · exact absurd hle h
    | cons a0 a => exact ⟨a, e, b, (List.cons.inj heq).2, he, hle⟩
  · rintro ⟨a, e, b, heq, he, hle⟩
    exact ⟨runlenChar :: a, e, b, by rw [heq]; rfl, he, hle⟩

/-- The bytes after the first one, which is below 0x80. -/
theorem bytesSafe_cons {x : BitVec 8} (hx : x < 0x80) (l : List (BitVec 8)) :
    BytesSafe (x :: l) ↔
      ∀ pre c post, l = pre ++ c :: post → ¬ c < 0x80 → BrokenRun (x :: (pre ++ [c])) := by
  constructor
  · rintro h pre c post rfl hc
    exact h (x :: pre) c post rfl hc
  · intro h pre c post heq hc
    cases pre with
    | nil => exact absurd hx ((List.cons.inj heq).1 ▸ hc)
    | cons p pre =>
      obtain ⟨rfl, hl⟩ := List.cons.inj heq
      exact h pre c post hl hc

theorem bytesSafe_cons_of_ne {x : BitVec 8} (hx : x < 0x80) (hne : x ≠ runlenChar)
    (l : List (BitVec 8)) : BytesSafe (x :: l) ↔ BytesSafe l := by
  rw [bytesSafe_cons hx]
  exact forall₅_congr fun pre c post _ _ => brokenRun_cons_of_ne hne (pre ++ [c])

theorem not_bytesSafe_cons {x : BitVec 8} (hx : ¬ x < 0x80) (l : List (BitVec 8)) :
    ¬ BytesSafe (x :: l) := by
  intro h
  obtain ⟨a, d, b, heq, -⟩ := h [] x l rfl hx
  have hlen := congrArg List.length heq
  simp only [List.nil_append, List.length_append, List.length_cons, List.length_nil] at hlen
  omega

/-- After a run-length character, one that does not break the run. -/
theorem bytesSafe_runlenChar {d : BitVec 8} (hd : d = runlenChar ∨ ¬ d.toInt ≤ runlenOff)
    (h80 : d < 0x80) (l : List (BitVec 8)) :
    BytesSafe (runlenChar :: d :: l) ↔ BytesSafe (d :: l) := by
  rw [bytesSafe_cons (by decide), bytesSafe_cons h80]
  constructor
  · rintro h pre c post rfl hc
    have hbroken := h (d :: pre) c post rfl hc
    rwa [List.cons_append, brokenRun_runlenChar hd] at hbroken
  · intro h pre c post heq hc
    cases pre with
    | nil => exact absurd h80 ((List.cons.inj heq).1 ▸ hc)
    | cons p pre =>
      obtain ⟨rfl, hl⟩ := List.cons.inj heq
      rw [List.cons_append, brokenRun_runlenChar hd]
      exact h pre c post hl hc

/-- A broken run at the start ends the decoding, so what stands behind it does not matter. -/
theorem bytesSafe_of_broken {d : BitVec 8} (hd : d ≠ runlenChar) (hle : d.toInt ≤ runlenOff)
    (l : List (BitVec 8)) : BytesSafe (runlenChar :: d :: l) := by
  rw [bytesSafe_cons (by decide)]
  intro pre c post heq _
  cases pre with
  | nil =>
    obtain ⟨rfl, -⟩ := List.cons.inj heq
    exact ⟨[], d, [], rfl, hd, hle⟩
  | cons p pre =>
    obtain ⟨rfl, -⟩ := List.cons.inj heq
    exact ⟨[], d, pre ++ [c], rfl, hd, hle⟩

theorem lt_of_not_toInt_le {d : BitVec 8} (hd : ¬ d.toInt ≤ runlenOff) : d < 0x80 := by
  refine (toInt_mem_iff d).mp ⟨?_, ?_⟩
  · rw [runlenOff] at hd
    omega
  · have := BitVec.toInt_lt (x := d)
    rw [charMax]
    omega

/-- The assertion in the loop, away from a run and inside one. -/
theorem decodeRunlenLoop_ok_iff (l : List (BitVec 8)) :
    (∀ (p : BitVec 8) ndat, p < 0x80 →
      ((∃ r, decodeRunlenLoop (some p) (-1) ndat l = .ok r) ↔ BytesSafe l)) ∧
      ∀ (x : BitVec 8) ndat, x < 0x80 →
        ((∃ r, decodeRunlenLoop (some runlenChar) x.toInt ndat l = .ok r) ↔
          BytesSafe (runlenChar :: l)) := by
  induction l with
  | nil =>
    have hnil : BytesSafe [] := by
      intro pre c post heq
      simp at heq
    have hstar : BytesSafe [runlenChar] := by
      rw [bytesSafe_cons (by decide)]
      intro pre c post heq
      simp at heq
    exact ⟨fun p ndat _ => ⟨fun _ => hnil, fun _ => ⟨_, rfl⟩⟩,
      fun x ndat _ => ⟨fun _ => hstar, fun _ => ⟨_, rfl⟩⟩⟩
  | cons c l ih =>
    by_cases hc : c = runlenChar
    · subst hc
      constructor
      · intro p ndat hp
        rw [decodeRunlenLoop_runlenChar]
        exact ih.2 p ndat hp
      · intro x ndat hx
        rw [decodeRunlenLoop_runlenChar, bytesSafe_runlenChar (Or.inl rfl) (by decide)]
        exact ih.2 runlenChar ndat (by decide)
    · constructor
      · intro p ndat hp
        by_cases h80 : c < 0x80
        · rw [decodeRunlenLoop_literal hc h80, bytesSafe_cons_of_ne h80 hc]
          exact ih.1 c _ h80
        · rw [decodeRunlenLoop_high h80]
          exact ⟨fun ⟨_, h⟩ => (by cases h), fun h => absurd h (not_bytesSafe_cons h80 l)⟩
      · intro x ndat hx
        rw [decodeRunlenLoop_count hx hc]
        -- inside a run `c` is the count: one of at most 29 ends the loop as malformed
        by_cases hle : c.toInt ≤ 29
        · rw [if_pos hle]
          exact ⟨fun _ => bytesSafe_of_broken hc hle l, fun _ => ⟨_, rfl⟩⟩
        · have h80 := lt_of_not_toInt_le hle
          rw [if_neg hle, bytesSafe_runlenChar (Or.inr hle) h80, bytesSafe_cons_of_ne h80 hc]
          exact ih.1 c _ h80

theorem gdbDecodeRunlen_ok_iff {payload : List (BitVec 8)} (h : ∀ c ∈ payload, c ≠ 0) :
    (∃ r, gdbDecodeRunlen payload = .ok r) ↔ RunlenSafe payload := by
  rw [gdbDecodeRunlen, cstr_of_ne_zero h, RunlenSafe]
  cases payload with
  | nil => exact ⟨fun _ => Or.inr fun pre c post heq => by simp at heq, fun _ => ⟨_, rfl⟩⟩
  | cons c l =>
    by_cases hc : c = runlenChar
    · rw [decodeRunlenLoop, if_pos hc]
      exact ⟨fun _ => Or.inl (by rw [hc]; rfl), fun _ => ⟨_, rfl⟩⟩
    · have hhead : ¬ (c :: l).head? = some runlenChar := by simpa using hc
      by_cases h80 : c < 0x80
      · rw [decodeRunlenLoop_literal hc h80, (decodeRunlenLoop_ok_iff l).1 c _ h80,
          bytesSafe_cons_of_ne h80 hc]
        exact ⟨Or.inr, fun h => h.resolve_left hhead⟩
      · rw [decodeRunlenLoop_high h80]
        refine ⟨?_, fun h => ?_⟩
        · rintro ⟨_, h⟩
          cases h
        · exact absurd (h.resolve_left hhead) (not_bytesSafe_cons h80 l)

theorem decodeText_ok_iff {payload : List (BitVec 8)} (h : ∀ c ∈ payload, c ≠ 0) :
    (∃ r, decodeText payload = .ok r) ↔ RunlenSafe payload := by
  rw [← gdbDecodeRunlen_ok_iff h, decodeText]
  cases hr : gdbDecodeRunlen payload with
  | error e =>
    constructor
    · rintro ⟨_, h⟩
      cases h
    · rintro ⟨_, h⟩
      cases h
  | ok r =>
    refine ⟨fun _ => ⟨r, rfl⟩, fun _ => ?_⟩
    cases r with
    | none => exact ⟨none, rfl⟩
    | some data => exact ⟨some (gdbUnescape data), rfl⟩

/-- `gdb_parse_cmd` of a packet with the right checksum. -/
theorem gdbParseCmd_rspCsum {payload : List (BitVec 8)} (h : ∀ c ∈ payload, c ≠ 0) :
    gdbParseCmd ⟨.packet, some payload, rspCsum payload⟩ =
      if CsumOk payload then
        match decodeText payload with
        | .ok none => .ok none
        | .ok (some text) => parseText (cstr text)
        | .error e => .error e
      else .error .xassert := by
  rw [gdbParseCmd, gdbIsValid_rspCsum h]
  by_cases hok : CsumOk payload
  · rw [if_pos hok, if_pos hok, Option.getD_some]
    cases decodeText payload with
    | error e => rfl
    | ok r =>
      cases r with
      | none => rfl
      | some text => rfl
  · rw [if_neg hok, if_neg hok]
    rfl

end RiscvVp.Gdb
