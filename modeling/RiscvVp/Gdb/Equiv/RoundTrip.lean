import RiscvVp.Gdb.Equiv.Framing

/-!
# Round trips of the framing

What the protocol lets a sender make of a string (`Form`): each byte as it is or escaped, and then any
run of equal characters as one of them with a repeat count.  `gdb_decode_runlen` and `gdb_unescape`
undo it for exactly the forms that are `Form.Clean`.  The run lengths are undone first: either they
come out right, or the two texts part at a place where the code has nothing or the run-length
character (`Parts`).  No such text unescapes to the string.
-/

namespace RiscvVp.Gdb

/-! ### Forms of a string -/

/-- One byte of a string, and whether it is sent escaped. -/
structure SentByte where
  byte : BitVec 8
  escaped : Bool
  deriving DecidableEq

/-- The characters that frame a packet or introduce a repeat count: no text of a payload has them. -/
def reserved : List (BitVec 8) := [chr '#', chr '$', runlenChar]

namespace SentByte

/-- The characters a byte is sent as. -/
def text (u : SentByte) : List (BitVec 8) :=
  if u.escaped then [escapeChar, u.byte ^^^ escapeByte] else [u.byte]

/-- What the protocol allows: the escape character and reserved characters have to be escaped. -/
def Conforms (u : SentByte) : Prop :=
  u.byte ≠ 0 ∧ if u.escaped then u.byte ^^^ escapeByte ∉ reserved
    else u.byte ∉ reserved ∧ u.byte ≠ escapeChar

instance (u : SentByte) : Decidable u.Conforms := inferInstanceAs (Decidable (_ ∧ _))

end SentByte

/-- A character and how often it is repeated after its first occurrence. -/
structure SentRun where
  char : BitVec 8
  repeats : ℕ
  deriving DecidableEq

namespace SentRun

/-- The characters a run stands for. -/
def expand (r : SentRun) : List (BitVec 8) := List.replicate (r.repeats + 1) r.char

/-- The characters a run is sent as: a repeat count `n` is the character with the code `n + 29`. -/
def wire (r : SentRun) : List (BitVec 8) :=
  if r.repeats = 0 then [r.char] else [r.char, runlenChar, BitVec.ofNat 8 (r.repeats + 29)]

/-- What the protocol allows: a count is a printable character up to 126 that frames no packet. -/
def Conforms (r : SentRun) : Prop :=
  r.repeats = 0 ∨ (3 ≤ r.repeats ∧ r.repeats ≤ 97 ∧ r.repeats ≠ 6 ∧ r.repeats ≠ 7)

instance (r : SentRun) : Decidable r.Conforms := inferInstanceAs (Decidable (_ ∨ _))

end SentRun

/-- An escaped and run-length-encoded form of a string of non-zero bytes. -/
structure Form where
  bytes : List SentByte
  runs : List SentRun
  bytes_conform : ∀ u ∈ bytes, u.Conforms
  runs_conform : ∀ r ∈ runs, r.Conforms
  expand_eq : runs.flatMap SentRun.expand = bytes.flatMap SentByte.text

namespace Form

/-- The string. -/
def string (f : Form) : List (BitVec 8) := f.bytes.map SentByte.byte

/-- The characters that are sent for it. -/
def wire (f : Form) : List (BitVec 8) := f.runs.flatMap SentRun.wire

/-- No byte from 0x80 on, no blank and no closing bracket escaped, and no repeat count 13, whose
character is the run-length character. -/
def Clean (f : Form) : Prop :=
  (∀ u ∈ f.bytes, u.byte < 0x80 ∧ (u.escaped → u.byte ≠ chr ' ' ∧ u.byte ≠ chr ']')) ∧
    ∀ r ∈ f.runs, r.repeats ≠ 13

end Form

/-! ### Run lengths -/

/-- Characters below 0x80 are the ones that are not negative. -/
theorem toInt_mem_iff (c : BitVec 8) : (0 ≤ c.toInt ∧ c.toInt ≤ charMax) ↔ c < 0x80 := by
  rw [BitVec.lt_def, BitVec.toInt_eq_toNat_cond, charMax]
  have := c.isLt
  have h80 : (0x80 : BitVec 8).toNat = 128 := rfl
  split_ifs <;> omega

section Loop

variable {prev : Option (BitVec 8)} {ndat rest : List (BitVec 8)} {c p : BitVec 8}

/-- A round that is not at the run-length character. -/
theorem decodeRunlenLoop_of_ne {runlen : ℤ} (hc : c ≠ runlenChar) :
    decodeRunlenLoop prev runlen ndat (c :: rest) =
      if runlen = -1 then
        xassert (0 ≤ c.toInt ∧ c.toInt ≤ charMax) >>= fun _ =>
          decodeRunlenLoop (some c) (-1) (ndat ++ [c]) rest
      else if c.toInt ≤ runlenOff then .ok none
      else xassert (0 ≤ runlen ∧ runlen ≤ charMax) >>= fun _ =>
        decodeRunlenLoop (some c) (-1)
          (ndat ++ List.replicate (c.toInt - runlenOff).toNat (BitVec.ofInt 8 runlen)) rest := by
  rw [decodeRunlenLoop.eq_def]
  dsimp only
  rw [if_neg hc, BitVec.ofInt_toInt]
  simp only [sub_nonpos]

/-- Away from a run, a character below 0x80 is written as it is. -/
theorem decodeRunlenLoop_literal (hc : c ≠ runlenChar) (h80 : c < 0x80) :
    decodeRunlenLoop prev (-1) ndat (c :: rest) =
      decodeRunlenLoop (some c) (-1) (ndat ++ [c]) rest := by
  rw [decodeRunlenLoop_of_ne hc, if_pos rfl, xassert, if_pos ((toInt_mem_iff c).mpr h80)]
  rfl

/-- Away from a run, the assertion stops at any other character. -/
theorem decodeRunlenLoop_high (h80 : ¬ c < 0x80) :
    decodeRunlenLoop prev (-1) ndat (c :: rest) = .error .xassert := by
  have hc : c ≠ runlenChar := by
    rintro rfl
    exact h80 (by decide)
  rw [decodeRunlenLoop_of_ne hc, if_pos rfl, xassert, if_neg (mt (toInt_mem_iff c).mp h80)]
  rfl

theorem decodeRunlenLoop_runlenChar {runlen : ℤ} :
    decodeRunlenLoop (some p) runlen ndat (runlenChar :: rest) =
      decodeRunlenLoop (some runlenChar) p.toInt ndat rest := by
  rw [decodeRunlenLoop, if_pos rfl]

/-- In a run of `p`, the next character is a repeat count. -/
theorem decodeRunlenLoop_count (hp : p < 0x80) (hc : c ≠ runlenChar) :
    decodeRunlenLoop prev p.toInt ndat (c :: rest) =
      if c.toInt ≤ 29 then .ok none
      else decodeRunlenLoop (some c) (-1)
        (ndat ++ List.replicate (c.toInt - 29).toNat p) rest := by
  have hrange := (toInt_mem_iff p).mpr hp
  rw [decodeRunlenLoop_of_ne hc, if_neg (by omega), xassert, if_pos hrange, BitVec.ofInt_toInt]
  rfl

end Loop

/-- What the loop of `gdb_decode_runlen` returns begins with what it has written. -/
theorem decodeRunlenLoop_extends {prev : Option (BitVec 8)} {runlen : ℤ} {ndat l u : List (BitVec 8)}
    (h : decodeRunlenLoop prev runlen ndat l = .ok (some u)) : ∃ w, u = ndat ++ w := by
  induction l generalizing prev runlen ndat with
  | nil =>
    rw [decodeRunlenLoop, Except.ok.injEq, Option.some.injEq] at h
    exact ⟨[], by rw [List.append_nil, h]⟩
  | cons c rest ih =>
    -- in every round that goes on, the rest is decoded with more written
    have hmore : ∀ {prev runlen} (x : List (BitVec 8)),
        decodeRunlenLoop prev runlen (ndat ++ x) rest = .ok (some u) → ∃ w, u = ndat ++ w := by
      intro prev runlen x hx
      obtain ⟨w, hw⟩ := ih hx
      exact ⟨x ++ w, by rw [hw, List.append_assoc]⟩
    by_cases hc : c = runlenChar
    · subst hc
      cases prev with
      | none =>
        rw [decodeRunlenLoop, if_pos rfl] at h
        cases h
      | some p =>
        rw [decodeRunlenLoop_runlenChar] at h
        exact ih h
    · rw [decodeRunlenLoop_of_ne hc, xassert, xassert] at h
      split_ifs at h
      · exact hmore _ h
      · cases h
      · cases h
      · exact hmore _ h
      · cases h

/-- A run that the code decodes: its character is one that the assertion lets through, and its count
is not the run-length character. -/
def SentRun.Good (r : SentRun) : Prop := r.char ≠ 0 ∧ r.char < 0x80 ∧ r.repeats ≠ 13

/-- The text `u` parts from the text `t`: after a common beginning, `t` goes on with `y`, and `u` ends
or goes on with the run-length character.  An escape character at that place is the second of two. -/
def Parts (u t : List (BitVec 8)) : Prop :=
  ∃ pre y t' w, t = pre ++ y :: t' ∧ u = pre ++ w ∧ (∀ c ∈ pre, c ≠ 0) ∧
    (w = [] ∨ ∃ w', w = runlenChar :: w') ∧ (y = escapeChar → pre.getLast? = some escapeChar)

theorem Parts.append {x u t : List (BitVec 8)} (hx : ∀ c ∈ x, c ≠ 0) (h : Parts u t) :
    Parts (x ++ u) (x ++ t) := by
  obtain ⟨pre, y, t', w, rfl, rfl, hpre, hw, hy⟩ := h
  refine ⟨x ++ pre, y, t', w, (List.append_assoc ..).symm, (List.append_assoc ..).symm, ?_, hw, ?_⟩
  · intro c hc
    rcases List.mem_append.mp hc with hc | hc
    · exact hx c hc
    · exact hpre c hc
  · intro he
    rw [List.getLast?_append, hy he]
    rfl

/-- The character of a repeat count is its number and 29. -/
theorem toInt_count {n : ℕ} (hn : n ≤ 97) : (BitVec.ofNat 8 (n + 29)).toInt = n + 29 := by
  rw [BitVec.toInt_eq_toNat_cond, BitVec.toNat_ofNat]
  split_ifs <;> omega

theorem count_eq_runlenChar_iff {n : ℕ} (hn : n ≤ 97) :
    BitVec.ofNat 8 (n + 29) = runlenChar ↔ n = 13 := by
  rw [← BitVec.toInt_inj, toInt_count hn, show runlenChar.toInt = 42 from rfl]
  omega

namespace SentRun

variable {r : SentRun} {prev : Option (BitVec 8)} {ndat rest : List (BitVec 8)}

theorem wire_ne_zero (hr : r.Conforms) (h0 : r.char ≠ 0) : ∀ c ∈ r.wire, c ≠ 0 := by
  intro c hc
  rw [wire] at hc
  split_ifs at hc with hz
  · rw [List.mem_singleton] at hc
    rwa [hc]
  · have hle : r.repeats ≤ 97 := by
      rcases hr with h | h <;> omega
    simp only [List.mem_cons, List.not_mem_nil, or_false] at hc
    rcases hc with rfl | rfl | rfl
    · exact h0
    · decide
    · intro h
      have := toInt_count hle
      rw [h, show (0 : BitVec 8).toInt = 0 from rfl] at this
      omega

/-- The loop decodes a good run: it ends behind the run with the bytes that the run stands for. -/
theorem decodeRunlenLoop_wire (hr : r.Conforms) (hgood : r.Good) (hc : r.char ≠ runlenChar) :
    ∃ last, decodeRunlenLoop prev (-1) ndat (r.wire ++ rest) =
      decodeRunlenLoop (some last) (-1) (ndat ++ r.expand) rest := by
  obtain ⟨-, h80, h13⟩ := hgood
  rw [wire, expand]
  by_cases hz : r.repeats = 0
  · rw [if_pos hz, hz, List.singleton_append, decodeRunlenLoop_literal hc h80]
    exact ⟨r.char, rfl⟩
  · have hle : r.repeats ≤ 97 := by
      rcases hr with h | h <;> omega
    have hcount : ¬ BitVec.ofNat 8 (r.repeats + 29) = runlenChar :=
      mt (count_eq_runlenChar_iff hle).mp h13
    rw [if_neg hz]
    show ∃ last, decodeRunlenLoop prev (-1) ndat
      (r.char :: runlenChar :: BitVec.ofNat 8 (r.repeats + 29) :: rest) = _
    rw [decodeRunlenLoop_literal hc h80, decodeRunlenLoop_runlenChar,
      decodeRunlenLoop_count h80 hcount, toInt_count hle, if_neg (by omega), List.append_assoc,
      List.singleton_append, ← List.replicate_succ, show ((r.repeats : ℤ) + 29 - 29).toNat = r.repeats by
        omega]
    exact ⟨_, rfl⟩

/-- After a run with count 13 the code has the first character of the run only, and takes the next
character for the count of a run of run-length characters. -/
theorem parts_of_thirteen {t u : List (BitVec 8)} (h0 : r.char ≠ 0) (h80 : r.char < 0x80)
    (hc : r.char ≠ runlenChar) (h13 : r.repeats = 13) (hrest : rest.head? ≠ some runlenChar)
    (h : decodeRunlenLoop prev (-1) ndat (r.wire ++ rest) = .ok (some u)) :
    ∃ v, u = ndat ++ v ∧ Parts v (r.expand ++ t) := by
  have hparts : ∀ w, (w = [] ∨ ∃ w', w = runlenChar :: w') →
      Parts ([r.char] ++ w) (r.expand ++ t) := by
    intro w hw
    refine ⟨[r.char], r.char, List.replicate 12 r.char ++ t, w, ?_, rfl, ?_, hw, ?_⟩
    · rw [expand, h13]
      rfl
    · intro c hcm
      rw [List.mem_singleton] at hcm
      rwa [hcm]
    · intro he
      rw [he]
      rfl
  have hwire : r.wire ++ rest = r.char :: runlenChar :: runlenChar :: rest := by
    rw [wire, h13]
    rfl
  rw [hwire, decodeRunlenLoop_literal hc h80, decodeRunlenLoop_runlenChar,
    decodeRunlenLoop_runlenChar] at h
  cases rest with
  | nil =>
    rw [decodeRunlenLoop, Except.ok.injEq, Option.some.injEq] at h
    exact ⟨[r.char] ++ [], by rw [← h, List.append_nil], hparts [] (Or.inl rfl)⟩
  | cons c rest =>
    rw [decodeRunlenLoop_count (by decide) fun hcr => hrest (by rw [hcr]; rfl)] at h
    split_ifs at h with hle
    · cases h
    · obtain ⟨w, hw⟩ := decodeRunlenLoop_extends h
      obtain ⟨n, hn⟩ : ∃ n, (c.toInt - 29).toNat = n + 1 := ⟨(c.toInt - 29).toNat - 1, by omega⟩
      rw [hn, List.replicate_succ] at hw
      refine ⟨[r.char] ++ runlenChar :: (List.replicate n runlenChar ++ w), ?_,
        hparts _ (Or.inr ⟨_, rfl⟩)⟩
      rw [hw, List.append_assoc, List.append_assoc]
      rfl

end SentRun

theorem head?_cstr_wires {runs : List SentRun} (hchar : ∀ r ∈ runs, r.char ≠ runlenChar) :
    (cstr (runs.flatMap SentRun.wire)).head? ≠ some runlenChar := by
  cases runs with
  | nil =>
    intro h
    cases h
  | cons r runs =>
    have hr := hchar r List.mem_cons_self
    obtain ⟨tail, htail⟩ : ∃ tail, (r :: runs).flatMap SentRun.wire = r.char :: tail := by
      rw [List.flatMap_cons, SentRun.wire]
      split_ifs
      · exact ⟨_, rfl⟩
      · exact ⟨_, rfl⟩
    rw [htail, cstr, List.takeWhile_cons]
    split_ifs
    · simpa using hr
    · intro h
      cases h

/-- **Run lengths.**  Good runs are decoded to their text; where another run is among them, what the
code returns, if it returns anything, parts from the text. -/
theorem decodeRunlenLoop_runs {runs : List SentRun} (hconf : ∀ r ∈ runs, r.Conforms)
    (hchar : ∀ r ∈ runs, r.char ≠ runlenChar) (prev : Option (BitVec 8)) (ndat : List (BitVec 8)) :
    ((∀ r ∈ runs, r.Good) → decodeRunlenLoop prev (-1) ndat (cstr (runs.flatMap SentRun.wire)) =
        .ok (some (ndat ++ runs.flatMap SentRun.expand))) ∧
      ((¬ ∀ r ∈ runs, r.Good) → ∀ u,
        decodeRunlenLoop prev (-1) ndat (cstr (runs.flatMap SentRun.wire)) = .ok (some u) →
          ∃ v, u = ndat ++ v ∧ Parts v (runs.flatMap SentRun.expand)) := by
  induction runs generalizing prev ndat with
  | nil =>
    refine ⟨fun _ => ?_, fun h => absurd (fun r hr => absurd hr List.not_mem_nil) h⟩
    rw [List.flatMap_nil, List.flatMap_nil, List.append_nil]
    rfl
  | cons r runs ih =>
    rw [List.forall_mem_cons] at hconf hchar
    rw [List.forall_mem_cons, List.flatMap_cons, List.flatMap_cons]
    by_cases h0 : r.char = 0
    · -- a zero ends the string
      have hcut : cstr (r.wire ++ runs.flatMap SentRun.wire) = [] := by
        rw [cstr, SentRun.wire, h0]
        split_ifs <;> rfl
      rw [hcut]
      refine ⟨fun h => absurd h0 h.1.1, fun _ u hu => ⟨[], ?_, ?_⟩⟩
      · rw [decodeRunlenLoop, Except.ok.injEq, Option.some.injEq] at hu
        rw [List.append_nil, hu]
      · refine ⟨[], 0, List.replicate r.repeats 0 ++ runs.flatMap SentRun.expand, [], ?_, rfl,
          by simp, Or.inl rfl, by decide⟩
        rw [SentRun.expand, h0, List.replicate_succ]
        rfl
    have hwire := r.wire_ne_zero hconf.1 h0
    rw [cstr_append hwire]
    -- thirteen repeats are sent as the count `*`, which the code takes for the start of another run
    by_cases h80 : r.char < 0x80
    · by_cases h13 : r.repeats = 13
      · refine ⟨fun h => absurd h13 h.1.2.2, fun _ u hu => ?_⟩
        exact SentRun.parts_of_thirteen h0 h80 hchar.1 h13 (head?_cstr_wires hchar.2) hu
      · have hgood : r.Good := ⟨h0, h80, h13⟩
        obtain ⟨last, hlast⟩ := @SentRun.decodeRunlenLoop_wire r prev ndat
          (cstr (runs.flatMap SentRun.wire)) hconf.1 hgood hchar.1
        obtain ⟨ihgood, ihbad⟩ := ih hconf.2 hchar.2 (some last) (ndat ++ r.expand)
        rw [hlast]
        constructor
        · rintro ⟨-, hruns⟩
          rw [ihgood hruns, List.append_assoc]
        · intro hbad u hu
          obtain ⟨v, hv, hparts⟩ := ihbad (fun hruns => hbad ⟨hgood, hruns⟩) u hu
          refine ⟨r.expand ++ v, by rw [hv, List.append_assoc], hparts.append fun c hc => ?_⟩
          rwa [List.eq_of_mem_replicate hc]
    · -- the assertion stops at the character
      have hstop : decodeRunlenLoop prev (-1) ndat (r.wire ++ cstr (runs.flatMap SentRun.wire)) =
          .error .xassert := by
        rw [SentRun.wire]
        split_ifs
        · exact decodeRunlenLoop_high h80
        · exact decodeRunlenLoop_high h80
      rw [hstop]
      refine ⟨fun h => absurd h.1.2.1 h80, fun _ u hu => ?_⟩
      cases hu

/-! ### Escapes -/

section Unescape

variable {c : BitVec 8} {rest : List (BitVec 8)}

/-- Escaping a byte twice gives the byte. -/
theorem xor_escapeByte (c : BitVec 8) : c ^^^ escapeByte ^^^ escapeByte = c := by
  rw [BitVec.xor_assoc, BitVec.xor_self, BitVec.xor_zero]

theorem unescapeLoop_escapeChar (esc : Bool) :
    unescapeLoop esc (escapeChar :: rest) = unescapeLoop true rest := by
  rw [unescapeLoop, if_pos rfl]

theorem unescapeLoop_plain (hc : c ≠ escapeChar) :
    unescapeLoop false (c :: rest) = c :: unescapeLoop false rest := by
  rw [unescapeLoop, if_neg hc]
  rfl

theorem unescapeLoop_escaped (hc : c ≠ escapeChar) :
    unescapeLoop true (c :: rest) = (c ^^^ escapeByte) :: unescapeLoop false rest := by
  rw [unescapeLoop, if_neg hc]
  rfl

/-- After an escape character the code never writes a closing bracket, which is what two escape
characters stand for. -/
theorem head?_unescapeLoop_true (l : List (BitVec 8)) :
    (unescapeLoop true l).head? ≠ some (chr ']') := by
  induction l with
  | nil => exact fun h => nomatch h
  | cons c l ih =>
    by_cases hc : c = escapeChar
    · rw [hc, unescapeLoop_escapeChar]
      exact ih
    · rw [unescapeLoop_escaped hc, List.head?_cons]
      intro h
      have hx : c ^^^ escapeByte = chr ']' := Option.some.inj h
      exact hc (by rw [← xor_escapeByte c, hx]; rfl)

end Unescape

/-- Bytes sent without a closing bracket escaped are unescaped; with one, they are not. -/
theorem unescapeLoop_text_iff {bytes : List SentByte} (hconf : ∀ u ∈ bytes, u.Conforms) :
    unescapeLoop false (bytes.flatMap SentByte.text) = bytes.map SentByte.byte ↔
      ∀ u ∈ bytes, u.escaped → u.byte ≠ chr ']' := by
  induction bytes with
  | nil => exact ⟨fun _ u hu => absurd hu List.not_mem_nil, fun _ => rfl⟩
  | cons u bytes ih =>
    rw [List.forall_mem_cons] at hconf
    rw [List.flatMap_cons, List.map_cons, List.forall_mem_cons, ← ih hconf.2, SentByte.text]
    obtain ⟨b, esc⟩ := u
    cases esc with
    | false =>
      have hb : b ≠ escapeChar := hconf.1.2.2
      show unescapeLoop false (b :: _) = _ ↔ _
      rw [unescapeLoop_plain hb, List.cons_inj_right]
      exact ⟨fun h => ⟨Bool.false_ne_true.elim, h⟩, fun h => h.2⟩
    | true =>
      show unescapeLoop false (escapeChar :: (b ^^^ escapeByte) :: bytes.flatMap SentByte.text) = _ ↔ _
      rw [unescapeLoop_escapeChar]
      by_cases hb : b = chr ']'
      · rw [hb, show chr ']' ^^^ escapeByte = escapeChar from rfl, unescapeLoop_escapeChar]
        refine ⟨fun h => ?_, fun h => absurd rfl (h.1 rfl)⟩
        have hhead := head?_unescapeLoop_true (bytes.flatMap SentByte.text)
        rw [h] at hhead
        exact absurd rfl hhead
      · have hx : b ^^^ escapeByte ≠ escapeChar := by
          intro h
          exact hb (by rw [← xor_escapeByte b, h]; rfl)
        rw [unescapeLoop_escaped hx, xor_escapeByte, List.cons_inj_right]
        exact ⟨fun h => ⟨fun _ => hb, h⟩, fun h => h.2⟩

/-- A text that parts from the text of a string does not unescape to the string. -/
theorem unescapeLoop_ne_of_parts {bytes : List SentByte} (hconf : ∀ u ∈ bytes, u.Conforms)
    {pre t' w : List (BitVec 8)} {y : BitVec 8}
    (ht : bytes.flatMap SentByte.text = pre ++ y :: t')
    (hw : w = [] ∨ ∃ w', w = runlenChar :: w')
    (hy : y = escapeChar → pre.getLast? = some escapeChar) :
    unescapeLoop false (pre ++ w) ≠ bytes.map SentByte.byte := by
  induction bytes generalizing pre with
  | nil => simp at ht
  | cons u bytes ih =>
    rw [List.forall_mem_cons] at hconf
    have hstep : ∀ {pre'}, bytes.flatMap SentByte.text = pre' ++ y :: t' →
        (y = escapeChar → pre'.getLast? = some escapeChar) →
        u.byte :: unescapeLoop false (pre' ++ w) ≠ (u :: bytes).map SentByte.byte := by
      intro pre' ht' hy' h
      exact ih hconf.2 ht' hy' (List.cons.inj h).2
    obtain ⟨b, esc⟩ := u
    cases esc with
    | false =>
      obtain ⟨hreserved, hb⟩ : b ∉ reserved ∧ b ≠ escapeChar := hconf.1.2
      change b :: bytes.flatMap SentByte.text = pre ++ y :: t' at ht
      cases pre with
      | nil =>
        -- `y` is the byte, and the code has nothing or the run-length character for it
        obtain ⟨rfl, -⟩ := List.cons.inj ht
        rcases hw with rfl | ⟨w', rfl⟩
        · exact fun h => nomatch h
        · rw [List.nil_append, unescapeLoop_plain (by decide)]
          intro h
          have hbyte : runlenChar = b := (List.cons.inj h).1
          exact hreserved (by rw [← hbyte]; decide)
      | cons c pre =>
        obtain ⟨rfl, ht'⟩ := List.cons.inj ht
        rw [List.cons_append, unescapeLoop_plain hb]
        refine hstep ht' fun he => ?_
        have hlast := hy he
        cases pre with
        | nil => exact absurd (Option.some.inj hlast) hb
        | cons d pre => rwa [List.getLast?_cons_cons] at hlast
    | true =>
      have hreserved : b ^^^ escapeByte ∉ reserved := hconf.1.2
      change escapeChar :: (b ^^^ escapeByte) :: bytes.flatMap SentByte.text = pre ++ y :: t' at ht
      cases pre with
      | nil => exact absurd (hy (List.cons.inj ht).1.symm) (fun h => nomatch h)
      | cons c pre =>
        obtain ⟨rfl, ht'⟩ := List.cons.inj ht
        rw [List.cons_append, unescapeLoop_escapeChar]
        cases pre with
        | nil =>
          -- the escape is open, and the code has nothing or the run-length character to end it
          rcases hw with rfl | ⟨w', rfl⟩
          · exact fun h => nomatch h
          · rw [List.nil_append, unescapeLoop_escaped (by decide)]
            intro h
            have hbyte : runlenChar ^^^ escapeByte = b := (List.cons.inj h).1
            exact hreserved (by rw [← hbyte, xor_escapeByte]; decide)
        | cons d pre =>
          obtain ⟨rfl, ht''⟩ := List.cons.inj ht'
          by_cases hd : b ^^^ escapeByte = escapeChar
          · -- the byte is a closing bracket
            rw [hd, List.cons_append, unescapeLoop_escapeChar]
            intro h
            have hhead := head?_unescapeLoop_true (pre ++ w)
            rw [h] at hhead
            have hb : b = chr ']' := by
              rw [← xor_escapeByte b, hd]
              rfl
            exact hhead (congrArg some hb)
          · rw [List.cons_append, unescapeLoop_escaped hd, xor_escapeByte]
            refine hstep ht'' fun he => ?_
            have hlast := hy he
            cases pre with
            | nil => exact absurd (Option.some.inj hlast) hd
            | cons e pre => rwa [List.getLast?_cons_cons, List.getLast?_cons_cons] at hlast

/-! ### Forms -/

namespace SentByte

variable {u : SentByte}

theorem text_ne_runlenChar (hu : u.Conforms) : ∀ c ∈ u.text, c ≠ runlenChar := by
  obtain ⟨b, esc⟩ := u
  cases esc with
  | false =>
    have hreserved : b ∉ reserved := hu.2.1
    intro c hc h
    rw [text, if_neg Bool.false_ne_true, List.mem_singleton] at hc
    exact hreserved (by rw [← show c = b from hc, h]; decide)
  | true =>
    have hreserved : b ^^^ escapeByte ∉ reserved := hu.2
    intro c hc h
    rw [text, if_pos rfl, List.mem_cons, List.mem_singleton] at hc
    rcases hc with rfl | rfl
    · exact absurd h (by decide)
    · exact hreserved (by rw [h]; decide)

/-- The characters of a byte are ones the code can handle. -/
theorem forall_text_iff (hu : u.Conforms) :
    (∀ c ∈ u.text, c ≠ 0 ∧ c < 0x80) ↔ u.byte < 0x80 ∧ (u.escaped → u.byte ≠ chr ' ') := by
  obtain ⟨b, esc⟩ := u
  have hb : b ≠ 0 := hu.1
  cases esc with
  | false =>
    rw [text, if_neg Bool.false_ne_true, List.forall_mem_singleton]
    exact ⟨fun h => ⟨h.2, Bool.false_ne_true.elim⟩, fun h => ⟨hb, h.1⟩⟩
  | true =>
    have hzero : b ^^^ escapeByte = 0 ↔ b = chr ' ' := by
      constructor
      · intro h
        rw [← xor_escapeByte b, h]
        rfl
      · rintro rfl
        rfl
    have hhigh : b ^^^ escapeByte < 0x80 ↔ b < 0x80 := by
      revert b
      decide
    have hesc : escapeChar ≠ 0 ∧ escapeChar < 0x80 := by decide
    rw [text, if_pos rfl, List.forall_mem_cons, List.forall_mem_singleton]
    constructor
    · rintro ⟨-, hne, hlt⟩
      exact ⟨hhigh.mp hlt, fun _ => mt hzero.mpr hne⟩
    · rintro ⟨hlt, hne⟩
      exact ⟨hesc, mt hzero.mp (hne rfl), hhigh.mpr hlt⟩

end SentByte

namespace Form

variable (f : Form)

/-- The characters of the runs are the characters of the text. -/
theorem forall_char_iff (P : BitVec 8 → Prop) :
    (∀ r ∈ f.runs, P r.char) ↔ ∀ u ∈ f.bytes, ∀ c ∈ u.text, P c := by
  have hruns : (∀ r ∈ f.runs, P r.char) ↔ ∀ c ∈ f.runs.flatMap SentRun.expand, P c := by
    simp only [List.mem_flatMap, SentRun.expand, List.mem_replicate]
    constructor
    · rintro h c ⟨r, hr, -, rfl⟩
      exact h r hr
    · intro h r hr
      exact h r.char ⟨r, hr, Nat.succ_ne_zero _, rfl⟩
  rw [hruns, f.expand_eq]
  simp only [List.mem_flatMap]
  exact ⟨fun h u hu c hc => h c ⟨u, hu, hc⟩, fun h c ⟨u, hu, hc⟩ => h u hu c hc⟩

theorem forall_good_iff :
    (∀ r ∈ f.runs, r.Good) ↔
      (∀ u ∈ f.bytes, u.byte < 0x80 ∧ (u.escaped → u.byte ≠ chr ' ')) ∧
        ∀ r ∈ f.runs, r.repeats ≠ 13 := by
  have hchars := f.forall_char_iff fun c => c ≠ 0 ∧ c < 0x80
  have hbytes : (∀ u ∈ f.bytes, ∀ c ∈ u.text, c ≠ 0 ∧ c < 0x80) ↔
      ∀ u ∈ f.bytes, u.byte < 0x80 ∧ (u.escaped → u.byte ≠ chr ' ') :=
    forall₂_congr fun u hu => SentByte.forall_text_iff (f.bytes_conform u hu)
  rw [← hbytes, ← hchars]
  constructor
  · intro h
    exact ⟨fun r hr => ⟨(h r hr).1, (h r hr).2.1⟩, fun r hr => (h r hr).2.2⟩
  · rintro ⟨h, h13⟩ r hr
    exact ⟨(h r hr).1, (h r hr).2, h13 r hr⟩

/-- **Decoding a form** gives the string exactly for the clean forms. -/
theorem decodeText_wire_iff : decodeText f.wire = .ok (some f.string) ↔ f.Clean := by
  have hchar : ∀ r ∈ f.runs, r.char ≠ runlenChar :=
    (f.forall_char_iff (· ≠ runlenChar)).mpr fun u hu =>
      SentByte.text_ne_runlenChar (f.bytes_conform u hu)
  have hruns := decodeRunlenLoop_runs f.runs_conform hchar none []
  -- the runs decide whether the run-length code gives the bytes, the escapes whether these give the string
  by_cases hgood : ∀ r ∈ f.runs, r.Good
  · have hrunlen : gdbDecodeRunlen f.wire = .ok (some (f.bytes.flatMap SentByte.text)) := by
      rw [← f.expand_eq]
      exact hruns.1 hgood
    obtain ⟨hbytes, h13⟩ := f.forall_good_iff.mp hgood
    -- no zero byte, so the unescaping reads to the end
    have hzero : ∀ c ∈ f.bytes.flatMap SentByte.text, c ≠ 0 := by
      intro c hc
      obtain ⟨u, hu, hcu⟩ := List.mem_flatMap.mp hc
      exact ((SentByte.forall_text_iff (f.bytes_conform u hu)).mpr (hbytes u hu) c hcu).1
    have htext : decodeText f.wire = .ok (some (unescapeLoop false (f.bytes.flatMap SentByte.text))) := by
      have hcut : gdbUnescape (f.bytes.flatMap SentByte.text) =
          unescapeLoop false (f.bytes.flatMap SentByte.text) := by
        rw [gdbUnescape, cstr_of_ne_zero hzero]
      rw [decodeText, hrunlen, ← hcut]
      rfl
    rw [htext, Except.ok.injEq, Option.some.injEq, string, unescapeLoop_text_iff f.bytes_conform]
    constructor
    · intro hbracket
      exact ⟨fun u hu => ⟨(hbytes u hu).1, fun he => ⟨(hbytes u hu).2 he, hbracket u hu he⟩⟩, h13⟩
    · intro hclean u hu he
      exact ((hclean.1 u hu).2 he).2
  · constructor
    · intro h
      exfalso
      have hdec : ∃ u, gdbDecodeRunlen f.wire = .ok (some u) ∧ gdbUnescape u = f.string := by
        rw [decodeText] at h
        match hrunlen : gdbDecodeRunlen f.wire with
        | .error e => rw [hrunlen] at h; cases h
        | .ok none => rw [hrunlen] at h; cases h
        | .ok (some u) =>
          rw [hrunlen] at h
          exact ⟨u, rfl, Option.some.inj (Except.ok.inj h)⟩
      obtain ⟨u, hu, hunesc⟩ := hdec
      -- a bad run leaves a byte that the string does not have
      obtain ⟨v, rfl, pre, y, t', w, ht, rfl, hpre, hw, hy⟩ := hruns.2 hgood u hu
      rw [f.expand_eq] at ht
      have hcut : cstr w = [] ∨ ∃ w', cstr w = runlenChar :: w' := by
        rcases hw with rfl | ⟨w', rfl⟩
        · exact Or.inl rfl
        · exact Or.inr ⟨_, rfl⟩
      have hne := unescapeLoop_ne_of_parts f.bytes_conform ht hcut hy
      rw [gdbUnescape, cstr_append hpre] at hunesc
      exact hne hunesc
    · intro hclean
      refine absurd (f.forall_good_iff.mpr ⟨fun u hu => ⟨(hclean.1 u hu).1, fun he => ?_⟩, hclean.2⟩)
        hgood
      exact ((hclean.1 u hu).2 he).1

end Form

/-! ### The round trips -/

/-- The characters that a payload is free of. -/
def special : List (BitVec 8) := [chr '#', chr '$', chr '%', escapeChar, runlenChar]

/-- The packet made of a payload is read back, as the same kind and payload, and is valid. -/
def RoundTrips (kind : GdbKind) (payload : List (BitVec 8)) : Prop :=
  ∃ out, gdbSerialize kind (some payload) = .ok out ∧
    ∀ rest, ∃ pkt, gdbParsePkt (out ++ rest) = .ok (some (pkt, rest)) ∧ pkt.kind = kind ∧
      pkt.data = some payload ∧ gdbIsValid pkt = .ok true

/-- A notification starts with a character that the parser has no packet for. -/
theorem not_roundTrips_of_notify {payload : List (BitVec 8)} (hzero : ∀ c ∈ payload, c ≠ 0) :
    ¬ RoundTrips .notify payload := by
  rintro ⟨out, hout, hparse⟩
  rw [gdbSerialize_eq (Or.inl rfl) rfl hzero] at hout
  split_ifs at hout
  obtain ⟨pkt, hpkt, -⟩ := hparse []
  rw [← Except.ok.inj hout, List.append_nil, List.cons_append, gdbParsePkt_hash] at hpkt
  cases hpkt

theorem roundTrips_packet_iff {payload : List (BitVec 8)} (hzero : ∀ c ∈ payload, c ≠ 0)
    (hspecial : ∀ c ∈ payload, c ∉ special) :
    RoundTrips .packet payload ↔ payload.length + 4 ≤ intMax ∧ CsumOk payload := by
  rw [RoundTrips, gdbSerialize_eq (Or.inr rfl) rfl hzero]
  constructor
  · rintro ⟨out, hout, -⟩
    split_ifs at hout with h
    exact h
  · intro h
    rw [if_pos h]
    refine ⟨_, rfl, fun rest => ?_⟩
    have hlen := (length_formatCsum_eq_iff _).mpr ((toNat_calcCsum_lt_iff hzero).mpr h.2)
    obtain ⟨c1, c2, hcsum⟩ := List.length_eq_two.mp hlen
    have hdata : ∀ c ∈ payload, c ∉ str "#$" := by
      intro c hc hmem
      exact hspecial c hc ((by decide : str "#$" ⊆ special) hmem)
    refine ⟨⟨.packet, some payload, [c1, c2]⟩, ?_, rfl, rfl, ?_⟩
    · have hparse := gdbParsePkt_packet hdata c1 c2 rest
      rw [hcsum, ← hparse]
      simp
    · rw [gdbIsValid]
      dsimp only
      rw [hcsum, xassert, if_pos (show [c1, c2].length = csumLen from rfl)]
      show Except.ok ([c1, c2] == [c1, c2]) = Except.ok true
      rw [beq_self_eq_true]

/-- **Framing.**  A payload without special characters is read back exactly where it is sent as a
packet, is not too long for `snprintf`, and the signed sum of its characters is not negative or a
multiple of 256; a form of a string is decoded exactly where it is clean. -/
theorem framing_iff {kind : GdbKind} {payload : List (BitVec 8)}
    (hkind : kind = .notify ∨ kind = .packet) (hzero : ∀ c ∈ payload, c ≠ 0)
    (hspecial : ∀ c ∈ payload, c ∉ special) (f : Form) :
    (RoundTrips kind payload ↔ kind = .packet ∧ payload.length + 4 ≤ intMax ∧ CsumOk payload) ∧
      (decodeText f.wire = .ok (some f.string) ↔ f.Clean) := by
  refine ⟨?_, f.decodeText_wire_iff⟩
  rcases hkind with rfl | rfl
  · exact ⟨fun h => absurd h (not_roundTrips_of_notify hzero), fun h => nomatch h.1⟩
  · rw [roundTrips_packet_iff hzero hspecial]
    exact ⟨fun h => ⟨rfl, h⟩, fun h => h.2⟩

/-- Zeros, sent as one zero and a repeat count. -/
def Form.zeros (n : ℕ) (hn : SentRun.Conforms ⟨chr '0', n⟩) : Form where
  bytes := List.replicate (n + 1) ⟨chr '0', false⟩
  runs := [⟨chr '0', n⟩]
  bytes_conform u hu := by
    rw [List.eq_of_mem_replicate hu]
    decide
  runs_conform r hr := by
    rw [List.mem_singleton.mp hr]
    exact hn
  expand_eq := by
    rw [List.flatMap_singleton, SentRun.expand, List.flatMap_replicate]
    show _ = (List.replicate (n + 1) [chr '0']).flatten
    rw [List.flatten_replicate_singleton]

/-- A reply of a stub, and four zeros. -/
theorem framing_iff_ok :
    RoundTrips .packet (str "OK") ∧
      decodeText (Form.zeros 3 (by decide)).wire = .ok (some (str "0000")) :=
  have h := @framing_iff .packet (str "OK") (Or.inr rfl) (by decide) (by decide)
    (Form.zeros 3 (by decide))
  ⟨h.1.mpr (by decide), h.2.mpr ⟨by decide, by decide⟩⟩

/-- A notification, a payload with a byte from 0x80 on, and fourteen zeros. -/
theorem not_framing :
    ¬ RoundTrips .notify (str "OK") ∧ ¬ RoundTrips .packet [0x80, 0x01] ∧
      decodeText (Form.zeros 13 (by decide)).wire ≠ .ok (some (Form.zeros 13 (by decide)).string) := by
  refine ⟨not_roundTrips_of_notify (by decide), ?_, ?_⟩
  · rw [roundTrips_packet_iff (by decide) (by decide)]
    decide
  · rw [Ne, Form.decodeText_wire_iff]
    exact fun h => h.2 ⟨chr '0', 13⟩ (by decide) rfl

end RiscvVp.Gdb
