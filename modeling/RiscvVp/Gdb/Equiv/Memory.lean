import Mathlib
import RiscvVp.Gdb.DebugMemory

/-!
# Memory over the debug port

`write_memory` stops its loop over the digits at half of them, so the second half of the bytes is written
as 0; and the handlers of `m` and `M` translate the first address of a range only, so they reach the right
bytes exactly where the pages of the range are mapped to consecutive ones.
-/

namespace RiscvVp.Gdb

/-! ### Lists made of pieces -/

/-- Lists made of pieces of the same lengths are equal exactly if the pieces are. -/
theorem flatMap_eq_flatMap_iff {α β : Type} {l : List α} {f g : α → List β}
    (hlen : ∀ a ∈ l, (f a).length = (g a).length) :
    l.flatMap f = l.flatMap g ↔ ∀ a ∈ l, f a = g a := by
  induction l with
  | nil => simp
  | cons a l ih =>
    rw [List.forall_mem_cons] at hlen ⊢
    rw [List.flatMap_cons, List.flatMap_cons]
    constructor
    · intro h
      obtain ⟨hhead, htail⟩ := List.append_inj h hlen.1
      exact ⟨hhead, (ih hlen.2).mp htail⟩
    · rintro ⟨hhead, htail⟩
      rw [hhead, (ih hlen.2).mpr htail]

/-- Digits in pairs: cut into pairs and put together again, an even number of digits is as it was. -/
theorem flatMap_pairs (n : ℕ) (digits : List (BitVec 8)) (hlen : digits.length = 2 * n) :
    (List.range n).flatMap (fun j => (digits.drop (2 * j)).take 2) = digits := by
  induction n generalizing digits with
  | zero => rw [List.eq_nil_of_length_eq_zero hlen]; rfl
  | succ n ih =>
    have hrest : (digits.drop 2).length = 2 * n := by
      rw [List.length_drop, hlen]
      omega
    rw [List.range_succ_eq_map, List.flatMap_cons, List.flatMap_map]
    have htail := ih (digits.drop 2) hrest
    simp only [List.drop_drop] at htail
    have hpieces : (List.range n).flatMap (fun j => (digits.drop (2 * (j + 1))).take 2) =
        digits.drop 2 := by
      rw [← htail]
      refine congrArg (fun f => (List.range n).flatMap f) (funext fun j => ?_)
      rw [Nat.mul_add, Nat.add_comm]
    rw [Nat.mul_zero, List.drop_zero]
    show digits.take 2 ++ (List.range n).flatMap (fun j => (digits.drop (2 * (j + 1))).take 2) = digits
    rw [hpieces, List.take_append_drop]

/-! ### Digits -/

/-- A digit in lower case. -/
def toLower (c : BitVec 8) : BitVec 8 := if chr 'A' ≤ c ∧ c ≤ chr 'F' then c + 32 else c

/-- The digits of numbers in base 16. -/
def hexDigits : List (BitVec 8) :=
  [0x30, 0x31, 0x32, 0x33, 0x34, 0x35, 0x36, 0x37, 0x38, 0x39, 0x41, 0x42, 0x43, 0x44, 0x45, 0x46, 0x61, 0x62,
    0x63, 0x64, 0x65, 0x66]

theorem mem_hexDigits {c : BitVec 8} (hc : isHexDigit c) : c ∈ hexDigits := by
  have heq : str "0123456789ABCDEFabcdef" = hexDigits := by decide
  rwa [isHexDigit, List.contains_iff_mem, heq] at hc

theorem hexDigit_hexValue {c : BitVec 8} (hc : isHexDigit c) :
    hexValue c < 16 ∧ hexDigit (hexValue c) = toLower c := by
  have hall : ∀ c ∈ hexDigits, hexValue c < 16 ∧ hexDigit (hexValue c) = toLower c := by decide
  exact hall c (mem_hexDigits hc)

theorem toLower_eq_zero_iff {c : BitVec 8} (hc : isHexDigit c) :
    toLower c = chr '0' ↔ c = chr '0' := by
  have hall : ∀ c ∈ hexDigits, (toLower c = chr '0' ↔ c = chr '0') := by decide
  exact hall c (mem_hexDigits hc)

/-- A number of two digits prints as these two, the higher one first. -/
theorem formatHex_two {a b : ℕ} (ha : a < 16) (hb : b < 16) :
    formatHex 2 (16 * a + b) = [hexDigit a, hexDigit b] := by
  rcases Nat.eq_zero_or_pos a with rfl | hpos
  · rcases Nat.eq_zero_or_pos b with rfl | hpos
    · decide
    · rw [formatHex, Nat.digits_of_lt 16 _ (by omega) (by omega), Nat.mul_zero, Nat.zero_add]
      rfl
  · have hdigits : Nat.digits 16 (16 * a + b) = [b, a] := by
      rw [Nat.digits_def' (by decide) (by omega), show (16 * a + b) % 16 = b by omega,
        show (16 * a + b) / 16 = a by omega, Nat.digits_of_lt 16 a (by omega) ha]
    rw [formatHex, hdigits]
    rfl

/-- Two digits that are read as a number and printed again come back in lower case. -/
theorem formatHex_ofHex {c d : BitVec 8} (hc : isHexDigit c) (hd : isHexDigit d) :
    formatHex 2 (BitVec.ofNat 8 (ofHex [c, d])).toNat = [toLower c, toLower d] := by
  obtain ⟨hclt, hceq⟩ := hexDigit_hexValue hc
  obtain ⟨hdlt, hdeq⟩ := hexDigit_hexValue hd
  have hval : ofHex [c, d] = 16 * hexValue c + hexValue d := by
    show 16 * (16 * 0 + hexValue c) + hexValue d = _
    rw [Nat.mul_zero, Nat.zero_add]
  rw [hval, BitVec.toNat_ofNat, Nat.mod_eq_of_lt (by omega), formatHex_two hclt hdlt, hceq, hdeq]

/-- The digits of byte `j`. -/
def pair (digits : List (BitVec 8)) (j : ℕ) : List (BitVec 8) := (digits.drop (2 * j)).take 2

theorem pair_eq {digits : List (BitVec 8)} {n j : ℕ} (hlen : digits.length = 2 * n) (hj : j < n) :
    ∃ c d, pair digits j = [c, d] ∧ c ∈ digits ∧ d ∈ digits := by
  have htwo : (pair digits j).length = 2 := by
    rw [pair, List.length_take, List.length_drop, hlen]
    omega
  obtain ⟨c, d, hcd⟩ := List.length_eq_two.mp htwo
  have hsub : ∀ e ∈ pair digits j, e ∈ digits := fun e he =>
    List.mem_of_mem_drop (List.mem_of_mem_take he)
  rw [hcd] at hsub
  exact ⟨c, d, hcd, hsub c (by simp), hsub d (by simp)⟩

/-- What is printed of byte `j` of the buffer: the digits it was made of if the loop came so far, and
zeros otherwise. -/
theorem formatHex_writeBuf {digits : List (BitVec 8)} {n j : ℕ} (hlen : digits.length = 2 * n)
    (hdigits : ∀ c ∈ digits, isHexDigit c) (hj : j < n) :
    formatHex 2 (if 2 * j + 1 < n then BitVec.ofNat 8 (ofHex (pair digits j)) else 0).toNat =
      if 2 * j + 1 < n then (pair digits j).map toLower else [chr '0', chr '0'] := by
  obtain ⟨c, d, hcd, hc, hd⟩ := pair_eq hlen hj
  split_ifs
  · rw [hcd, formatHex_ofHex (hdigits c hc) (hdigits d hd)]
    rfl
  · decide

/-- The digits that the loop does not reach are those from the middle on. -/
theorem forall_pair_iff {digits : List (BitVec 8)} {n : ℕ} (hlen : digits.length = 2 * n) :
    (∀ j < n, ¬2 * j + 1 < n → ∀ c ∈ pair digits j, c = chr '0') ↔
      ∀ c ∈ digits.drop (2 * (n / 2)), c = chr '0' := by
  have hrest : (digits.drop (2 * (n / 2))).length = 2 * (n - n / 2) := by
    rw [List.length_drop, hlen]
    omega
  have hshift : ∀ j, pair (digits.drop (2 * (n / 2))) j = pair digits (n / 2 + j) := by
    intro j
    rw [pair, pair, List.drop_drop, Nat.mul_add]
  rw [← flatMap_pairs _ _ hrest]
  simp only [List.mem_flatMap, List.mem_range]
  constructor
  · rintro h c ⟨j, hj, hc⟩
    have hc' : c ∈ pair digits (n / 2 + j) := by
      rw [← hshift]
      exact hc
    exact h (n / 2 + j) (by omega) (by omega) c hc'
  · intro h j hj hodd c hc
    refine h c ⟨j - n / 2, by omega, ?_⟩
    show c ∈ pair (digits.drop (2 * (n / 2))) (j - n / 2)
    rw [hshift, Nat.add_sub_cancel' (by omega)]
    exact hc

/-- The digits come back exactly if those from the middle on are zeros. -/
theorem hexDump_writeBuf_iff {digits : List (BitVec 8)} {n : ℕ} (hlen : digits.length = 2 * n)
    (hdigits : ∀ c ∈ digits, isHexDigit c) :
    hexDump (writeBuf n digits) = digits.map toLower ↔
      ∀ c ∈ digits.drop (2 * (n / 2)), c = chr '0' := by
  have hhalf : digits.length / 2 = n := by omega
  -- both sides are read in pairs of digits; the code fills only the first half of the buffer
  have hdump : hexDump (writeBuf n digits) = (List.range n).flatMap fun j =>
      formatHex 2 (if 2 * j + 1 < n then BitVec.ofNat 8 (ofHex (pair digits j)) else 0).toNat := by
    rw [hexDump, writeBuf, hhalf, List.flatMap_map]
    rfl
  have hmap : digits.map toLower = (List.range n).flatMap fun j => (pair digits j).map toLower := by
    conv_lhs => rw [← flatMap_pairs n digits hlen]
    rw [List.map_flatMap]
    rfl
  have hlength : ∀ j ∈ List.range n,
      (formatHex 2 (if 2 * j + 1 < n then BitVec.ofNat 8 (ofHex (pair digits j)) else 0).toNat).length =
        ((pair digits j).map toLower).length := by
    intro j hj
    have hj := List.mem_range.mp hj
    obtain ⟨c, d, hcd, -, -⟩ := pair_eq hlen hj
    rw [formatHex_writeBuf hlen hdigits hj, hcd]
    split_ifs <;> rfl
  rw [hdump, hmap, flatMap_eq_flatMap_iff hlength, ← forall_pair_iff hlen]
  refine forall_congr' fun j => ?_
  rw [List.mem_range]
  refine forall_congr' fun hj => ?_
  obtain ⟨c, d, hcd, hc, hd⟩ := pair_eq hlen hj
  rw [formatHex_writeBuf hlen hdigits hj]
  split_ifs with hodd
  · exact ⟨fun _ h => absurd hodd h, fun _ => rfl⟩
  · rw [hcd]
    have hc0 := toLower_eq_zero_iff (hdigits c hc)
    have hd0 := toLower_eq_zero_iff (hdigits d hd)
    constructor
    · intro h _ e he
      rw [List.map_cons, List.map_cons, List.map_nil, List.cons.injEq, List.cons.injEq] at h
      rcases List.mem_cons.mp he with rfl | he
      · exact hc0.mp h.1.symm
      · rw [List.mem_singleton.mp he]
        exact hd0.mp h.2.1.symm
    · intro h
      have hall := h hodd
      rw [hall c (by simp), hall d (by simp)]
      rfl

/-! ### The round trip -/

theorem toNat_add_sub {start : BitVec 64} {n i : ℕ} (hn : n ≤ uintMax) (hi : i < n) :
    (start + BitVec.ofNat 64 i - start).toNat = i := by
  have hbound : i < 2 ^ 64 := by
    rw [uintMax] at hn
    omega
  rw [BitVec.add_comm, BitVec.add_sub_cancel, BitVec.toNat_ofNat, Nat.mod_eq_of_lt hbound]

/-- A `write_memory` of the digits and a `read_memory` of the same range give the digits back, and no
other byte changes. -/
def MemoryRoundTrips (T : Target DbgMemory) (start : BitVec 64) (n : ℕ) (digits : List (BitVec 8))
    (m : DbgMemory) : Prop :=
  (writeMemoryDbg T start n digits m).1 = .ok () ∧
    (readMemoryDbg T start n (writeMemoryDbg T start n digits m).2).1 = .ok (digits.map toLower) ∧
    ∀ a, n ≤ (a - start).toNat → (writeMemoryDbg T start n digits m).2.ram a = m.ram a

theorem length_writeBuf {digits : List (BitVec 8)} {n : ℕ} (hlen : digits.length = 2 * n) :
    (writeBuf n digits).length = n := by
  rw [writeBuf, List.length_map, List.length_range, hlen]
  omega

/-- What a range holds after it was written. -/
theorem map_ram_write {start : BitVec 64} {n : ℕ} (hn : n ≤ uintMax) {bytes : List (BitVec 8)}
    (hbytes : bytes.length = n) (m : DbgMemory) :
    (addresses start n).map (DbgMemory.transportDbg start n (some bytes) m).2.ram = bytes := by
  apply List.ext_getElem
  · rw [List.length_map, addresses, List.length_map, List.length_range, hbytes]
  · intro i hi hi'
    have hin : i < n := hbytes ▸ hi'
    simp only [addresses, List.map_map, List.getElem_map, List.getElem_range, Function.comp_apply,
      DbgMemory.transportDbg, toNat_add_sub hn hin, if_pos hin]
    exact List.getD_eq_getElem bytes 0 hi'

theorem roundTrips_iff (T : Target DbgMemory) (pages : ℕ → Option PageMap) {start : BitVec 64} {n : ℕ}
    (hn : n ≤ uintMax) {digits : List (BitVec 8)} (hlen : digits.length = 2 * n)
    (hdigits : ∀ c ∈ digits, isHexDigit c) (m : DbgMemory) :
    MemoryRoundTrips (T.withMemory pages) start n digits m ↔
      ∀ c ∈ digits.drop (2 * (n / 2)), c = chr '0' := by
  have hcheck : ¬(digits.length % 2 ≠ 0 ∨ digits.length / 2 ≠ n) := by omega
  have hwrite : writeMemoryDbg (T.withMemory pages) start n digits m =
      (.ok (), (DbgMemory.transportDbg start n (some (writeBuf n digits)) m).2) := by
    rw [writeMemoryDbg, if_neg hcheck]
    show (if n = n then Except.ok () else _, _) = _
    rw [if_pos rfl]
    rfl
  rw [MemoryRoundTrips, hwrite, ← hexDump_writeBuf_iff hlen hdigits]
  have hread : (readMemoryDbg (T.withMemory pages) start n
      (DbgMemory.transportDbg start n (some (writeBuf n digits)) m).2).1 =
        .ok (hexDump (writeBuf n digits)) := by
    have hbytes := @map_ram_write start n hn _ (length_writeBuf hlen) m
    exact congrArg (fun bytes => Except.ok (hexDump bytes)) hbytes
  constructor
  · rintro ⟨-, h, -⟩
    exact Except.ok.inj (hread.symm.trans h)
  · intro h
    exact ⟨rfl, hread.trans (congrArg Except.ok h), fun a ha => if_neg (not_lt.mpr ha)⟩

/-! ### Ranges over several pages -/

/-- The pages of the range are mapped to consecutive pages. -/
def Consecutive (pages : ℕ → Option PageMap) (hart : ℕ) (type : MemoryAccessType) (addr : BitVec 64)
    (n : ℕ) : Prop :=
  n = 0 ∨ ∀ pg, pages hart = some pg → ∃ page : BitVec 52, ∀ k, 4096 * k < addr.toNat % 4096 + n →
    pg type (pageNo addr + BitVec.ofNat 52 k) = some (page + BitVec.ofNat 52 k)

/-- The address that the handlers translate takes all bytes of the range along. -/
def Contiguous (pages : ℕ → Option PageMap) (hart : ℕ) (type : MemoryAccessType) (addr : BitVec 64)
    (n : ℕ) : Prop :=
  n = 0 ∨ ∃ p : BitVec 64, ∀ i < n,
    physical pages hart type (addr + BitVec.ofNat 64 i) = some (p + BitVec.ofNat 64 i)

theorem pageNo_add {addr : BitVec 64} {i k : ℕ} (hk : k = (addr.toNat % 4096 + i) / 4096) :
    pageNo (addr + BitVec.ofNat 64 i) = pageNo addr + BitVec.ofNat 52 k := by
  apply BitVec.eq_of_toNat_eq
  simp only [pageNo, BitVec.toNat_ofNat, BitVec.toNat_add]
  omega

theorem inPage_add {addr : BitVec 64} {page : BitVec 52} {i k : ℕ}
    (hk : k = (addr.toNat % 4096 + i) / 4096) :
    inPage (page + BitVec.ofNat 52 k) (addr + BitVec.ofNat 64 i) =
      inPage page addr + BitVec.ofNat 64 i := by
  apply BitVec.eq_of_toNat_eq
  simp only [inPage, BitVec.toNat_ofNat, BitVec.toNat_add]
  omega

theorem inPage_inj {a : BitVec 64} {p q : BitVec 52} (h : inPage p a = inPage q a) : p = q := by
  have hnat := congrArg BitVec.toNat h
  have hp := p.isLt
  have hq := q.isLt
  simp only [inPage, BitVec.toNat_ofNat] at hnat
  apply BitVec.eq_of_toNat_eq
  omega

/-- Consecutive pages are what a range needs. -/
theorem contiguous_iff (pages : ℕ → Option PageMap) (hart : ℕ) (type : MemoryAccessType)
    (addr : BitVec 64) (n : ℕ) :
    Contiguous pages hart type addr n ↔ Consecutive pages hart type addr n := by
  unfold Contiguous Consecutive
  refine or_congr_right' fun hn => ?_
  have hphysical : ∀ pg a, pages hart = some pg →
      physical pages hart type a = (pg type (pageNo a)).map fun page => inPage page a := by
    intro pg a hpg
    rw [physical, hpg]
    rfl
  constructor
  · rintro ⟨p, hp⟩ pg hpg
    have hfirst := hp 0 (Nat.pos_of_ne_zero hn)
    rw [hphysical pg _ hpg, BitVec.add_zero, BitVec.add_zero, Option.map_eq_some_iff] at hfirst
    obtain ⟨page, hpage, hin⟩ := hfirst
    refine ⟨page, fun k hk => ?_⟩
    -- the first byte of the range that lies in page `k`
    have hi : 4096 * k - addr.toNat % 4096 < n := by omega
    have hpageNo : k = (addr.toNat % 4096 + (4096 * k - addr.toNat % 4096)) / 4096 := by omega
    have hbyte := hp (4096 * k - addr.toNat % 4096) hi
    rw [hphysical pg _ hpg, Option.map_eq_some_iff] at hbyte
    obtain ⟨page', hpage', hin'⟩ := hbyte
    rw [← hin, ← inPage_add hpageNo] at hin'
    rw [← pageNo_add hpageNo, hpage', inPage_inj hin']
  · intro h
    cases hpg : pages hart with
    | none =>
      refine ⟨addr, fun i _ => ?_⟩
      rw [physical, hpg]
    | some pg =>
      obtain ⟨page, hpage⟩ := h pg hpg
      refine ⟨inPage page addr, fun i hi => ?_⟩
      have hk := hpage ((addr.toNat % 4096 + i) / 4096) (by omega)
      rw [hphysical pg _ hpg, pageNo_add rfl, hk, Option.map_some, inPage_add rfl]

/-! ### The packets -/

/-- The physical addresses that the bytes of the range translate to, for one hart after the other. -/
def ownBytes (pages : ℕ → Option PageMap) (type : MemoryAccessType) (loc : GdbMemory)
    (harts : List ℕ) : List (Option (BitVec 64)) :=
  harts.flatMap fun hart => (List.range loc.length).map fun i =>
    physical pages hart type (loc.addr + BitVec.ofNat 64 i)

/-- The bytes that a handler reaches: it stops at the first hart whose address does not translate. -/
def reached (pages : ℕ → Option PageMap) (type : MemoryAccessType) (loc : GdbMemory) :
    List ℕ → List (BitVec 64)
  | [] => []
  | hart :: harts =>
    match physical pages hart type loc.addr with
    | none => []
    | some p => addresses p loc.length ++ reached pages type loc harts

theorem length_addresses (p : BitVec 64) (n : ℕ) : (addresses p n).length = n := by
  rw [addresses, List.length_map, List.length_range]

/-- A handler reaches the bytes of the range exactly if the range is contiguous for every hart. -/
theorem reached_eq_ownBytes_iff (pages : ℕ → Option PageMap) (type : MemoryAccessType)
    (loc : GdbMemory) (harts : List ℕ) :
    (reached pages type loc harts).map some = ownBytes pages type loc harts ↔
      ∀ hart ∈ harts, Contiguous pages hart type loc.addr loc.length := by
  by_cases hzero : loc.length = 0
  · -- without bytes to read, no address is asked for on either side
    have hreached : reached pages type loc harts = [] := by
      induction harts with
      | nil => rfl
      | cons hart harts ih =>
        rw [reached]
        split
        · rfl
        · rw [ih, hzero]
          rfl
    have hown : ownBytes pages type loc harts = [] := by
      simp [ownBytes, hzero]
    rw [hreached, hown]
    exact ⟨fun _ _ _ => .inl hzero, fun _ => rfl⟩
  induction harts with
  | nil => simp [reached, ownBytes]
  | cons hart harts ih =>
    -- the first hart and, by induction, the others: both lists are cut after the bytes of the first
    rw [List.forall_mem_cons, reached, ownBytes, List.flatMap_cons, ← ownBytes, ← ih]
    have hfirst : ∀ p, Contiguous pages hart type loc.addr loc.length →
        physical pages hart type loc.addr = p → ∃ q, p = some q ∧ ∀ i < loc.length,
          physical pages hart type (loc.addr + BitVec.ofNat 64 i) = some (q + BitVec.ofNat 64 i) := by
      rintro p (h0 | ⟨q, hq⟩) hp
      · exact absurd h0 hzero
      · have h0 := hq 0 (Nat.pos_of_ne_zero hzero)
        rw [BitVec.add_zero, BitVec.add_zero] at h0
        exact ⟨q, hp.symm.trans h0, hq⟩
    cases hp : physical pages hart type loc.addr with
    | none =>
      constructor
      · -- no page for the first byte: the handler stops and the lengths differ
        intro h
        have hlen := congrArg List.length h
        rw [List.length_append, List.length_map, List.length_map, List.length_range] at hlen
        exact absurd hlen (by rw [List.length_nil]; omega)
      · rintro ⟨h, -⟩
        obtain ⟨q, hq, -⟩ := hfirst none h hp
        cases hq
    | some p =>
      rw [List.map_append]
      constructor
      · intro h
        obtain ⟨hhead, htail⟩ := List.append_inj h (by
          rw [List.length_map, length_addresses, List.length_map, List.length_range])
        rw [addresses, List.map_map, List.map_inj_left] at hhead
        exact ⟨.inr ⟨p, fun i hi => (hhead i (List.mem_range.mpr hi)).symm⟩, htail⟩
      · rintro ⟨h, htail⟩
        obtain ⟨q, hq, hbytes⟩ := hfirst (some p) h hp
        rw [htail, Option.some.inj hq, addresses, List.map_map]
        refine congrArg (· ++ _) (List.map_congr_left fun i hi => ?_)
        exact (hbytes i (List.mem_range.mp hi)).symm

/-- What a function that `exec_thread` runs does to the memory: it touches the range at the address that
the first one translates to, or fails. -/
def TouchesRange {α : Type} (pages : ℕ → Option PageMap) (type : MemoryAccessType) (loc : GdbMemory)
    (fn : ℕ → DbgMemory → Except Fault α × DbgMemory) : Prop :=
  ∀ hart m, match physical pages hart type loc.addr with
    | none => ∃ e, fn hart m = (.error e, m)
    | some p => ∃ a m', fn hart m = (.ok a, m') ∧ m'.touched = m.touched ++ addresses p loc.length

/-- So the loop over the selected harts touches what is reached. -/
theorem touched_execLoop {α : Type} {pages : ℕ → Option PageMap} {type : MemoryAccessType}
    {loc : GdbMemory} {fn : ℕ → DbgMemory → Except Fault α × DbgMemory}
    (hfn : TouchesRange pages type loc fn) (harts : List ℕ) (m : DbgMemory) :
    (execLoop fn harts m).2.touched = m.touched ++ reached pages type loc harts := by
  induction harts generalizing m with
  | nil =>
    rw [reached, List.append_nil]
    rfl
  | cons hart harts ih =>
    have hstep := hfn hart m
    rw [execLoop, reached]
    cases hp : physical pages hart type loc.addr with
    | none =>
      rw [hp] at hstep
      obtain ⟨e, he⟩ := hstep
      rw [he, List.append_nil]
    | some p =>
      rw [hp] at hstep
      obtain ⟨a, m', hok, htouched⟩ := hstep
      have hrest := ih m'
      rw [hok]
      dsimp only
      rcases hloop : execLoop fn harts m' with ⟨e | as, m''⟩
      all_goals
        rw [hloop] at hrest
        dsimp only at hrest ⊢
        rw [hrest, htouched, List.append_assoc]

theorem translateAddr_withMemory (T : Target DbgMemory) (pages : ℕ → Option PageMap) (hart : ℕ)
    (addr : BitVec 64) (type : MemoryAccessType) (m : DbgMemory) :
    translateAddr (T.withMemory pages) hart addr type m =
      (match physical pages hart type addr with
        | some p => .ok p
        | none => .error (.exn .simulationTrap), m) := by
  unfold translateAddr physical Target.withMemory
  dsimp only
  cases pages hart with
  | none => rfl
  | some pg => rfl

theorem touchesRange_readOn (T : Target DbgMemory) (pages : ℕ → Option PageMap) (loc : GdbMemory) :
    TouchesRange pages .load loc (readOn (T.withMemory pages) loc) := by
  intro hart m
  unfold readOn
  rw [translateAddr_withMemory]
  cases physical pages hart .load loc.addr with
  | none => exact ⟨_, rfl⟩
  | some p => exact ⟨_, _, rfl, rfl⟩

theorem touchesRange_writeOn (T : Target DbgMemory) (pages : ℕ → Option PageMap) {loc : GdbMemory}
    {digits : List (BitVec 8)} (hlen : digits.length = 2 * loc.length) :
    TouchesRange pages .store loc (writeOn (T.withMemory pages) loc (some digits)) := by
  intro hart m
  have hcheck : ¬(digits.length % 2 ≠ 0 ∨ digits.length / 2 ≠ loc.length) := by omega
  unfold writeOn
  rw [translateAddr_withMemory]
  cases physical pages hart .store loc.addr with
  | none => exact ⟨_, rfl⟩
  | some p =>
    dsimp only
    rw [writeMemoryDbg, if_neg hcheck]
    refine ⟨(), (DbgMemory.transportDbg p loc.length (some (writeBuf loc.length digits)) m).2, ?_, rfl⟩
    show (if loc.length = loc.length then Except.ok () else _, _) = _
    rw [if_pos rfl]
    rfl

theorem target_catching {σ : Type} (e : Exn) (r : Except Fault (List (BitVec 8)) × Server σ) :
    (catching e r).2 = r.2 := by
  unfold catching
  split
  · rfl
  · split_ifs <;> rfl

/-- The bytes that the handler of a packet touches are those that the addresses of the range translate
to, each for itself, on every hart that the packet is for. -/
def TouchesOwn (pages : ℕ → Option PageMap) (type : MemoryAccessType) (loc : GdbMemory)
    (harts : List ℕ) (s s' : Server DbgMemory) : Prop :=
  s'.target.touched.map some = s.target.touched.map some ++ ownBytes pages type loc harts

/-- What a handler does that runs such a function. -/
theorem touchesOwn_iff {α : Type} {pages : ℕ → Option PageMap} {type : MemoryAccessType}
    {loc : GdbMemory} {fn : ℕ → DbgMemory → Except Fault α × DbgMemory}
    (hfn : TouchesRange pages type loc fn) {s : Server DbgMemory} {harts : List ℕ}
    (hselected : s.selected = some harts) :
    TouchesOwn pages type loc harts s (execThread s fn).2 ↔
      ∀ hart ∈ harts, Consecutive pages hart type loc.addr loc.length := by
  have htarget : (execThread s fn).2.target.touched =
      s.target.touched ++ reached pages type loc harts := by
    rw [execThread, hselected]
    exact touched_execLoop hfn harts s.target
  rw [TouchesOwn, htarget, List.map_append, List.append_right_inj, reached_eq_ownBytes_iff]
  exact forall₂_congr fun hart _ => contiguous_iff pages hart type loc.addr loc.length

/-- **Memory over the debug port.**  The digits of a write come back, with every other byte as it was,
exactly if those from the middle on are zeros.  An `m` or `M` packet touches the bytes that its range
translates to exactly if the pages of the range are mapped to consecutive ones on every hart that it is
for. -/
theorem debugMemory_iff (T : Target DbgMemory) (pages : ℕ → Option PageMap) :
    (∀ start n digits m, n ≤ uintMax → digits.length = 2 * n → (∀ c ∈ digits, isHexDigit c) →
      (MemoryRoundTrips (T.withMemory pages) start n digits m ↔
        ∀ c ∈ digits.drop (2 * (n / 2)), c = chr '0')) ∧
    (∀ loc (s : Server DbgMemory) harts, loc.length ≤ uintMax → s.selected = some harts →
      (TouchesOwn pages .load loc harts s (readMemory (T.withMemory pages) loc s).2 ↔
        ∀ hart ∈ harts, Consecutive pages hart .load loc.addr loc.length)) ∧
    (∀ loc digits (s : Server DbgMemory) harts, loc.length ≤ uintMax →
      digits.length = 2 * loc.length → s.selected = some harts →
      (TouchesOwn pages .store loc harts s (writeMemory (T.withMemory pages) loc (some digits) s).2 ↔
        ∀ hart ∈ harts, Consecutive pages hart .store loc.addr loc.length)) := by
  refine ⟨fun start n digits m hn hlen hdigits => roundTrips_iff T pages hn hlen hdigits m,
    fun loc s harts hn hselected => ?_, fun loc digits s harts hn hlen hselected => ?_⟩
  · rw [readMemory, if_neg (not_lt.mpr hn), target_catching]
    exact touchesOwn_iff (touchesRange_readOn T pages loc) hselected
  · rw [writeMemory, if_neg (not_lt.mpr hn), target_catching]
    exact touchesOwn_iff (touchesRange_writeOn T pages hlen) hselected

/-! ### One byte, and two pages -/

/-- A target of which only the memory matters. -/
def memoryTarget : Target DbgMemory where
  arch := .rv64
  v2p _ := none
  transportDbg := DbgMemory.transportDbg
  hartId _ := 0
  getStatus _ _ := .runnable
  setStatus _ _ m := m
  programCounter _ _ := 0
  getRegisters _ _ := []
  readRegister _ _ _ := none
  insertBreakpoint _ _ m := m
  removeBreakpoint _ _ m := m
  runAllHarts _ _ m := some m

/-- Two pages mapped the other way round. -/
def swapped : ℕ → Option PageMap := fun _ => some fun _ page =>
  if page = 0 then some 1 else if page = 1 then some 0 else none

/-- Memory full of `0x55`. -/
def filled : DbgMemory := ⟨fun _ => 0x55, []⟩

/-- A server with one hart. -/
def oneHart : Server DbgMemory := ⟨1, fun _ => none, fun _ => false, filled⟩

theorem debugMemory_iff_zeros :
    MemoryRoundTrips (memoryTarget.withMemory swapped) 0x80000000 2 (str "aB00") filled :=
  ((debugMemory_iff memoryTarget swapped).1 0x80000000 2 (str "aB00") filled (by decide) rfl
    (by decide)).mpr (by decide)

/-- The digits of one byte are not looked at, and a range over two pages is read from behind the first
one. -/
theorem not_debugMemory :
    ¬MemoryRoundTrips (memoryTarget.withMemory swapped) 0x80000000 1 (str "41") filled ∧
      ¬TouchesOwn swapped .load ⟨0xFFF, 2⟩ [0] oneHart
        (readMemory (memoryTarget.withMemory swapped) ⟨0xFFF, 2⟩ oneHart).2 := by
  constructor
  · rintro ⟨-, hread, -⟩
    have hzeros : (readMemoryDbg (memoryTarget.withMemory swapped) 0x80000000 1
        (writeMemoryDbg (memoryTarget.withMemory swapped) 0x80000000 1 (str "41") filled).2).1 =
          .ok (str "00") := by
      decide
    rw [hzeros] at hread
    revert hread
    decide
  · unfold TouchesOwn
    decide

end RiscvVp.Gdb
