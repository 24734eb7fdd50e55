import RiscvVp.Cheri.Equiv.Monotone
import RiscvVp.Cheri.Equiv.Window

/-!
# The fast representability check

`fastRepCheck` compares the middle bits of the increment with the distance to the end of the
representable window, in units of `2 ^ E`, and leaves a unit for a carry out of the bits below.  The
distance is taken modulo `2 ^ 14`, but the unit is taken off in a 64-bit word: with the address in the
lowest unit of its window the distance is zero, and every increment below the size of the window
passes.  The check is wrong there exactly for the increments whose carry leaves the window
(`repCheckSound_iff`).
-/

namespace RiscvVp

namespace Capability

/-! ### Where an address lies in its window -/

/-- The offset of an address in its window. -/
def windowOffset (c : Capability) (addr : BitVec 64) : ℕ :=
  (addr - BitVec.ofNat 64 (c.windowStart * 2 ^ c.exponent)).toNat % 2 ^ (c.exponent + 14)

/-- The distance from an address to the end of its window in units, modulo the size of the window. -/
def windowDiff (c : Capability) (addr : BitVec 64) : ℕ :=
  (2 ^ 14 + c.windowStart - addr.toNat / 2 ^ c.exponent % 2 ^ 14) % 2 ^ 14

/-- Adding less than a window to a position keeps it in its window when the offset says so. -/
theorem add_mod_div_eq_iff {D i W q : ℕ} (hW : 0 < W) (hq : 2 ≤ q) (hD : D < W * q) (hi : i < W) :
    (D + i) % (W * q) / W = D / W ↔ D % W + i < W := by
  have hdiv : (D + i) / W = D / W + (D % W + i) / W := by
    conv_lhs => rw [← Nat.div_add_mod D W, Nat.add_assoc, Nat.mul_add_div hW]
  have hk : D / W < q := (Nat.div_lt_iff_lt_mul hW).2 (by rw [Nat.mul_comm]; exact hD)
  have hlt := Nat.mod_lt D hW
  rw [Nat.mod_mul_right_div_self, hdiv]
  by_cases h : D % W + i < W
  · rw [Nat.div_eq_of_lt h, Nat.add_zero, Nat.mod_eq_of_lt hk]
    exact ⟨fun _ => h, fun _ => rfl⟩
  · have h1 : (D % W + i) / W = 1 := Nat.div_eq_of_lt_le (by omega) (by omega)
    rw [h1]
    by_cases hlast : D / W + 1 < q
    · rw [Nat.mod_eq_of_lt hlast]
      omega
    · rw [show D / W + 1 = q by omega, Nat.mod_self]
      omega

/-- Subtracting at most the offset from a position keeps it in its window. -/
theorem sub_mod_div_eq {D i W q : ℕ} (hW : 0 < W) (hD : D < W * q) (hi : i < W * q)
    (h : W * q ≤ D % W + i) : (D + i) % (W * q) / W = D / W := by
  have hk : D / W < q := (Nat.div_lt_iff_lt_mul hW).2 (by rw [Nat.mul_comm]; exact hD)
  have hlt := Nat.mod_lt D hW
  have hdiv : (D + i) / W = D / W + (D % W + i) / W := by
    conv_lhs => rw [← Nat.div_add_mod D W, Nat.add_assoc, Nat.mul_add_div hW]
  have h1 : (D % W + i) / W = q := by
    apply Nat.div_eq_of_lt_le
    · rw [Nat.mul_comm]
      exact h
    · rw [Nat.add_mul, Nat.mul_comm q, Nat.one_mul]
      omega
  rw [Nat.mod_mul_right_div_self, hdiv, h1, Nat.add_mod_right, Nat.mod_eq_of_lt hk]

section Narrow

variable {c : Capability}

/-- The address space is a number of windows. -/
theorem windows_mul (hE : c.exponent < 50) :
    2 ^ 64 = 2 ^ (c.exponent + 14) * 2 ^ (50 - c.exponent) := by
  rw [← Nat.pow_add]
  congr 1
  omega

theorem two_le_windows (hE : c.exponent < 50) : 2 ≤ 2 ^ (50 - c.exponent) := by
  calc 2 = 2 ^ 1 := rfl
    _ ≤ 2 ^ (50 - c.exponent) := Nat.pow_le_pow_right (by omega) (by omega)

/-- An increment of less than a window stays in the window when the offset leaves room for it. -/
theorem window_add_iff (hE : c.exponent < 50) {addr i : BitVec 64}
    (hi : i.toNat < 2 ^ (c.exponent + 14)) :
    c.window (addr + i) = c.window addr ↔ c.windowOffset addr + i.toNat < 2 ^ (c.exponent + 14) := by
  have hD := (addr - BitVec.ofNat 64 (c.windowStart * 2 ^ c.exponent)).isLt
  rw [windows_mul hE] at hD
  unfold window windowOffset
  rw [add_sub_right_comm, BitVec.toNat_add, windows_mul hE]
  exact add_mod_div_eq_iff (Nat.two_pow_pos _) (two_le_windows hE) hD hi

/-- A decrement by at most the offset stays in the window. -/
theorem window_sub (hE : c.exponent < 50) {addr i : BitVec 64}
    (h : 2 ^ 64 ≤ c.windowOffset addr + i.toNat) : c.window (addr + i) = c.window addr := by
  have hD := (addr - BitVec.ofNat 64 (c.windowStart * 2 ^ c.exponent)).isLt
  have hi := i.isLt
  unfold windowOffset at h
  rw [windows_mul hE] at hD hi h
  unfold window
  rw [add_sub_right_comm, BitVec.toNat_add, windows_mul hE]
  exact sub_mod_div_eq (Nat.two_pow_pos _) hD hi h

/-- The offset of an address in its window, in units and the bits below. -/
theorem windowOffset_eq (hE : c.exponent < 50) (addr : BitVec 64) :
    c.windowOffset addr = (2 ^ 14 - c.windowDiff addr) % 2 ^ 14 * 2 ^ c.exponent
      + addr.toNat % 2 ^ c.exponent := by
  have hR := c.windowStart_lt
  have hP := Nat.two_pow_pos c.exponent
  obtain ⟨Q, hQ⟩ : ∃ Q, 2 ^ 64 = (2 ^ 14 * Q) * 2 ^ c.exponent := by
    refine ⟨2 ^ (50 - c.exponent), ?_⟩
    rw [← Nat.pow_add, ← Nat.pow_add]
    congr 1
    omega
  have hQpos : 1 ≤ Q := by
    rcases Nat.eq_zero_or_pos Q with rfl | h
    · simp at hQ
    · exact h
  have hRQ : c.windowStart ≤ 2 ^ 14 * Q := by omega
  have hstart : c.windowStart * 2 ^ c.exponent < 2 ^ 64 := by
    rw [hQ]
    exact Nat.mul_lt_mul_of_pos_right (by omega) hP
  unfold windowOffset windowDiff
  rw [BitVec.toNat_sub, BitVec.toNat_ofNat, Nat.mod_eq_of_lt hstart]
  rw [Nat.mod_mod_of_dvd _ (Nat.pow_dvd_pow 2 (by omega))]
  have hsum : 2 ^ 64 - c.windowStart * 2 ^ c.exponent + addr.toNat
      = 2 ^ c.exponent * (2 ^ 14 * Q - c.windowStart + addr.toNat / 2 ^ c.exponent)
        + addr.toNat % 2 ^ c.exponent := by
    have hdm := Nat.div_add_mod addr.toNat (2 ^ c.exponent)
    rw [hQ, ← Nat.sub_mul, Nat.mul_add, Nat.mul_comm _ (2 ^ c.exponent)]
    omega
  rw [hsum, Nat.pow_add, Nat.mod_mul, Nat.mul_add_mod, Nat.mod_mod, Nat.mul_add_div hP,
    Nat.div_eq_of_lt (Nat.mod_lt _ hP), Nat.add_zero, Nat.mul_comm _ (2 ^ c.exponent), Nat.add_comm]
  congr 2
  omega

/-! ### The words of the check -/

/-- The middle bits of the increment. -/
def incMid (c : Capability) (i : BitVec 64) : ℕ := i.toNat / 2 ^ c.exponent % 2 ^ 14

/-- The sign bits of a small increment are zero, those of a small decrement one. -/
theorem sshiftRight_eq_iff {i : BitVec 64} {n : ℕ} (hn : n < 64) :
    (i.sshiftRight n = 0 ↔ i.toNat < 2 ^ n) ∧ (i.sshiftRight n = -1 ↔ 2 ^ 64 ≤ i.toNat + 2 ^ n) := by
  have hpow : (2 : ℕ) ^ n ≤ 2 ^ 63 := Nat.pow_le_pow_right (by omega) (by omega)
  have hpos : (0 : ℤ) < (2 ^ n : ℕ) := Int.natCast_pos.2 (Nat.two_pow_pos n)
  have hi := i.isLt
  have hint := BitVec.toInt_eq_toNat_cond i
  have hdiv : (i.sshiftRight n).toInt = i.toInt / (2 ^ n : ℕ) := by
    rw [BitVec.toInt_sshiftRight, Int.shiftRight_eq_div_pow]
  have h0 : (0 : BitVec 64).toInt = 0 := rfl
  have h1 : (-1 : BitVec 64).toInt = -1 := rfl
  rw [← BitVec.toInt_inj, ← BitVec.toInt_inj, hdiv, h0, h1, Int.ediv_eq_iff_of_pos hpos,
    Int.ediv_eq_iff_of_pos hpos, hint]
  generalize 2 ^ n = P at *
  constructor <;> split <;> omega

/-- The middle bits of a word, which the fast check cuts out by a shift and a truncation. -/
theorem toNat_mid (x : BitVec 64) (E : ℕ) :
    (((x >>> E).setWidth 14).setWidth 64 : BitVec 64).toNat = x.toNat / 2 ^ E % 2 ^ 14 := by
  rw [BitVec.toNat_setWidth, BitVec.toNat_setWidth, BitVec.toNat_ushiftRight,
    Nat.shiftRight_eq_div_pow]
  omega

/-- The mantissa that the window starts at, as the source computes it. -/
def startWord (c : Capability) : BitVec 64 :=
  (c.B.extractLsb' 11 3 - 1 : BitVec 3).setWidth 64 <<< (cCapMantissaWidth - 3)

theorem toNat_startWord (c : Capability) : c.startWord.toNat = c.windowStart := by
  have hB := c.B.isLt
  have h1 : (1 : BitVec 3).toNat = 1 := rfl
  rw [startWord, BitVec.toNat_shiftLeft, BitVec.toNat_setWidth, BitVec.toNat_sub,
    BitField.toNat_extractLsb', h1, Nat.shiftLeft_eq, windowStart]
  simp only [cCapMantissaWidth]
  omega

/-- The distance to the end of the window, as the source computes it. -/
def diffWord (c : Capability) : BitVec 64 :=
  ((c.startWord - ((c.address >>> c.E.toNat).setWidth 14).setWidth 64).setWidth 14).setWidth 64

/-- The exponent is not clamped when it is small. -/
theorem exponent_eq_of_lt (hE : c.E.toNat < 50) : c.exponent = c.E.toNat :=
  Nat.min_eq_right (by show _ ≤ 52; omega)

theorem toNat_diffWord (hE : c.E.toNat < 50) : c.diffWord.toNat = c.windowDiff c.address := by
  have hR := c.windowStart_lt
  rw [diffWord, BitVec.toNat_setWidth, BitVec.toNat_setWidth, BitVec.toNat_sub, toNat_mid,
    toNat_startWord, windowDiff, exponent_eq_of_lt hE]
  omega

/-- The distance is zero for an address in the lowest unit of its window. -/
theorem windowDiff_eq_zero_iff (c : Capability) (addr : BitVec 64) :
    c.windowDiff addr = 0 ↔ addr.toNat / 2 ^ c.exponent % 2 ^ 14 = c.windowStart := by
  have hR := c.windowStart_lt
  unfold windowDiff
  omega

/-- The check of a capability with a small exponent, on numbers. -/
theorem fastRepCheck_iff (hE : c.E.toNat < 50) (i : BitVec 64) :
    c.fastRepCheck i = true ↔
      (i.toNat < 2 ^ (c.exponent + 14) ∧
        (c.windowDiff c.address = 0 ∨ c.incMid i + 1 < c.windowDiff c.address)) ∨
      (2 ^ 64 ≤ i.toNat + 2 ^ (c.exponent + 14) ∧ c.windowDiff c.address ≠ 0 ∧
        c.windowDiff c.address ≤ c.incMid i) := by
  have hexp := exponent_eq_of_lt hE
  have hdiff := toNat_diffWord hE
  have hmid : (((i >>> c.E.toNat).setWidth 14).setWidth 64 : BitVec 64).toNat = c.incMid i := by
    rw [toNat_mid, incMid, hexp]
  have hmidlt : c.incMid i < 2 ^ 14 := Nat.mod_lt _ (by omega)
  have hdifflt : c.windowDiff c.address < 2 ^ 14 := Nat.mod_lt _ (by omega)
  have hne : c.startWord ≠ ((c.address >>> c.E.toNat).setWidth 14).setWidth 64 ↔
      c.windowDiff c.address ≠ 0 := by
    rw [ne_eq, ne_eq, windowDiff_eq_zero_iff, ← BitVec.toNat_inj, toNat_startWord, toNat_mid, hexp,
      eq_comm]
  obtain ⟨htop0, htop1⟩ := @sshiftRight_eq_iff i (c.exponent + 14) (by omega)
  have hW : 2 ^ (c.exponent + 14) ≤ 2 ^ 63 := Nat.pow_le_pow_right (by omega) (by omega)
  have hcheck : c.fastRepCheck i =
      if i.sshiftRight (c.exponent + 14) = 0 then
        decide (((i >>> c.E.toNat).setWidth 14).setWidth 64 < c.diffWord - 1)
      else if i.sshiftRight (c.exponent + 14) = -1 then
        decide (c.diffWord ≤ ((i >>> c.E.toNat).setWidth 14).setWidth 64 ∧
          c.startWord ≠ ((c.address >>> c.E.toNat).setWidth 14).setWidth 64)
      else false := by
    rw [hexp]
    exact if_neg (by show ¬ 52 - 2 ≤ c.E.toNat; omega)
  rw [hcheck]
  by_cases h0 : i.toNat < 2 ^ (c.exponent + 14)
  · have h1 : (1 : BitVec 64).toNat = 1 := rfl
    rw [if_pos (htop0.2 h0), decide_eq_true_iff, BitVec.lt_def, BitVec.toNat_sub, hdiff, hmid, h1]
    omega
  · rw [if_neg (fun h => h0 (htop0.1 h))]
    by_cases hm : 2 ^ 64 ≤ i.toNat + 2 ^ (c.exponent + 14)
    · rw [if_pos (htop1.2 hm), decide_eq_true_iff, BitVec.le_def, hdiff, hmid, hne]
      omega
    · rw [if_neg (fun h => hm (htop1.1 h))]
      simp only [h0, hm, false_and, or_self, Bool.false_eq_true]

/-! ### When the check is right -/

/-- The address lies in the lowest unit of its window and the increment, which is below the size of
the window, carries it past the end. -/
def LeavesAtTop (c : Capability) (i : BitVec 64) : Prop :=
  c.E.toNat < 50 ∧ c.address.toNat / 2 ^ c.E.toNat % 2 ^ 14 = c.windowStart ∧
    i.toNat < 2 ^ (c.E.toNat + 14) ∧
    2 ^ (c.E.toNat + 14) ≤ c.address.toNat % 2 ^ c.E.toNat + i.toNat

instance (c : Capability) (i : BitVec 64) : Decidable (c.LeavesAtTop i) :=
  inferInstanceAs (Decidable (_ ∧ _))

/-- The middle bits of an increment of less than a window. -/
theorem incMid_add_one_mul {i : BitVec 64} (hi : i.toNat < 2 ^ (c.exponent + 14)) :
    i.toNat < (c.incMid i + 1) * 2 ^ c.exponent := by
  have hP := Nat.two_pow_pos c.exponent
  have hlt : i.toNat / 2 ^ c.exponent < 2 ^ 14 := by
    rw [Nat.div_lt_iff_lt_mul hP, ← Nat.pow_add, Nat.add_comm]
    exact hi
  rw [incMid, Nat.mod_eq_of_lt hlt, Nat.add_mul, Nat.one_mul]
  exact Nat.lt_div_mul_add hP

/-- The middle bits of a decrement by at most a window. -/
theorem incMid_mul_le (hE : c.exponent < 50) {i : BitVec 64}
    (hi : 2 ^ 64 ≤ i.toNat + 2 ^ (c.exponent + 14)) :
    2 ^ 64 + c.incMid i * 2 ^ c.exponent ≤ i.toNat + 2 ^ (c.exponent + 14) := by
  have hlt := i.isLt
  have hmod : i.toNat % 2 ^ (c.exponent + 14) = i.toNat + 2 ^ (c.exponent + 14) - 2 ^ 64 := by
    obtain ⟨r, hr⟩ := Nat.exists_eq_add_of_le hi
    rw [← Nat.add_mod_right, hr, Nat.add_sub_cancel_left, windows_mul hE, Nat.mul_add_mod,
      Nat.mod_eq_of_lt (by omega)]
  have hmid : c.incMid i = i.toNat % 2 ^ (c.exponent + 14) / 2 ^ c.exponent := by
    rw [incMid, Nat.pow_add, Nat.mod_mul_right_div_self]
  have hle := Nat.div_mul_le_self (i.toNat % 2 ^ (c.exponent + 14)) (2 ^ c.exponent)
  rw [← hmid] at hle
  omega

/-- Whether the increment stays in the window, when the check passes. -/
theorem window_of_fastRepCheck (hE : c.E.toNat < 50) {i : BitVec 64}
    (h : c.fastRepCheck i = true) :
    c.window (c.address + i) = c.window c.address ↔ ¬ c.LeavesAtTop i := by
  have hexp := exponent_eq_of_lt hE
  have hoff := @windowOffset_eq c (by omega) c.address
  have hlo := Nat.mod_lt c.address.toNat (Nat.two_pow_pos c.exponent)
  have hdifflt : c.windowDiff c.address < 2 ^ 14 := Nat.mod_lt _ (by omega)
  have hW : 2 ^ (c.exponent + 14) = 2 ^ 14 * 2 ^ c.exponent := by rw [Nat.add_comm, Nat.pow_add]
  -- the distance to the end of the window, when it is not zero
  have hrest : c.windowDiff c.address ≠ 0 →
      c.windowOffset c.address + c.windowDiff c.address * 2 ^ c.exponent
        = 2 ^ (c.exponent + 14) + c.address.toNat % 2 ^ c.exponent := by
    intro h0
    rw [Nat.mod_eq_of_lt (by omega)] at hoff
    rw [hoff, hW, Nat.add_right_comm, ← Nat.add_mul, Nat.sub_add_cancel hdifflt.le]
  unfold LeavesAtTop
  rw [← hexp, ← windowDiff_eq_zero_iff]
  rcases (fastRepCheck_iff hE i).1 h with ⟨hi, hd⟩ | ⟨hi, hd0, hd⟩
  · rw [window_add_iff (by omega) hi]
    by_cases h0 : c.windowDiff c.address = 0
    · rw [h0, Nat.sub_zero, Nat.mod_self, Nat.zero_mul, Nat.zero_add] at hoff
      rw [hoff]
      omega
    · have hmid := incMid_add_one_mul hi
      have hle : (c.incMid i + 1 + 1) * 2 ^ c.exponent ≤ c.windowDiff c.address * 2 ^ c.exponent :=
        Nat.mul_le_mul_right _ (by omega)
      have hr := hrest h0
      rw [Nat.add_mul, Nat.one_mul] at hle
      exact ⟨fun _ hl => h0 hl.2.1, fun _ => by omega⟩
  · have hmid := incMid_mul_le (by omega) hi
    have hle : c.windowDiff c.address * 2 ^ c.exponent ≤ c.incMid i * 2 ^ c.exponent :=
      Nat.mul_le_mul_right _ hd
    have hr := hrest hd0
    exact ⟨fun _ hl => hd0 hl.2.1, fun _ => window_sub (by omega) (by omega)⟩

end Narrow

/-- **When the fast check is right**: a check that passes keeps the bounds exactly when the increment
does not leave the window from its lowest unit. -/
theorem getCapBounds_of_fastRepCheck (c : Capability) {i : BitVec 64}
    (h : c.fastRepCheck i = true) :
    (c.withAddr (c.address + i)).getCapBounds = c.getCapBounds ↔ ¬ c.LeavesAtTop i := by
  rw [getCapBounds_eq_iff]
  by_cases hE : c.E.toNat < 50
  · exact window_of_fastRepCheck hE h
  · have hexp : 50 ≤ c.exponent := le_min (by decide) (by omega)
    rw [window_eq_zero c _ hexp, window_eq_zero c _ hexp]
    exact ⟨fun _ hl => hE hl.1, fun _ => rfl⟩

/-- The check passes for every increment that leaves the window from its lowest unit. -/
theorem fastRepCheck_of_leavesAtTop {c : Capability} {i : BitVec 64} (h : c.LeavesAtTop i) :
    c.fastRepCheck i = true := by
  obtain ⟨hE, hmid, hi, -⟩ := h
  rw [← exponent_eq_of_lt hE] at hmid hi
  exact (fastRepCheck_iff hE i).2 (Or.inl ⟨hi, Or.inl ((windowDiff_eq_zero_iff c _).2 hmid)⟩)

end Capability

/-! ### The instructions that rely on the check -/

open Capability

/-- The instructions that move an address by the fast check, by their operand. -/
inductive MoveOp
  | incOffset (rs2 : BitVec 64)
  | incOffsetImm (imm : BitVec 12)
  | setOffset (rs2 : BitVec 64)
  | fromPtr (rs2 : BitVec 64)
  deriving DecidableEq, Repr

/-- The result of an instruction that moves an address. -/
def MoveOp.apply : MoveOp → Capability → Capability
  | .incOffset rs2, c => cIncOffset c rs2
  | .incOffsetImm imm, c => cIncOffsetImm c imm
  | .setOffset rs2, c => cSetOffset c rs2
  | .fromPtr rs2, c => cFromPtr c rs2

/-- What an instruction adds to the address. -/
def MoveOp.increment : MoveOp → Capability → BitVec 64
  | .incOffset rs2, _ => rs2
  | .incOffsetImm imm, _ => imm.signExtend 64
  | .setOffset rs2, c => c.getBase + rs2 - c.address
  | .fromPtr rs2, c => c.getBase + rs2 - c.address

/-- A tag that is left says that the check passed. -/
theorem Capability.of_clearTagIf_not_tag {c : Capability} {b : Bool}
    (h : (c.clearTagIf (!b)).tag = true) : b = true := by
  simpa using (of_clearTagIf_tag h).2

/-- A tagged result has the address moved, and the check passed. -/
theorem MoveOp.of_tag {op : MoveOp} {c : Capability} (h : (op.apply c).tag = true) :
    c.fastRepCheck (op.increment c) = true ∧
      (op.apply c).getCapBounds = (c.withAddr (c.address + op.increment c)).getCapBounds := by
  have hoffset : ∀ rs2 : BitVec 64, c.address + (c.getBase + rs2 - c.address) = c.getBase + rs2 :=
    fun rs2 => by rw [add_sub_cancel]
  cases op with
  | incOffset rs2 => exact ⟨of_clearTagIf_not_tag h, rfl⟩
  | incOffsetImm imm => exact ⟨of_clearTagIf_not_tag h, rfl⟩
  | setOffset rs2 =>
    refine ⟨of_clearTagIf_not_tag h, ?_⟩
    rw [MoveOp.increment, hoffset]
    rfl
  | fromPtr rs2 =>
    change (cFromPtr c rs2).tag = true at h
    show _ ∧ (cFromPtr c rs2).getCapBounds = _
    unfold cFromPtr at h ⊢
    by_cases h0 : rs2 = 0
    · rw [if_pos h0] at h
      exact absurd h (by decide)
    · rw [if_neg h0] at h ⊢
      refine ⟨of_clearTagIf_not_tag h, ?_⟩
      rw [MoveOp.increment, hoffset]
      rfl

/-- An increment is checked soundly: when the fast check passes the bounds stay, and no instruction
that adds it gives a tagged capability with other bounds. -/
def RepCheckSound (c : Capability) (i : BitVec 64) : Prop :=
  (c.fastRepCheck i = true → (c.withAddr (c.address + i)).getCapBounds = c.getCapBounds) ∧
  ∀ op : MoveOp, op.increment c = i → (op.apply c).tag = true →
    (op.apply c).getCapBounds = c.getCapBounds

/-- **The fast check is sound** for an increment unless the address lies in the lowest unit of its
window and the increment carries it past the end of the window. -/
theorem repCheckSound_iff (c : Capability) (i : BitVec 64) :
    RepCheckSound c i ↔ ¬ c.LeavesAtTop i := by
  constructor
  · intro h hl
    have hcheck := fastRepCheck_of_leavesAtTop hl
    exact (getCapBounds_of_fastRepCheck c hcheck).1 (h.1 hcheck) hl
  · intro hl
    refine ⟨fun hcheck => (getCapBounds_of_fastRepCheck c hcheck).2 hl, ?_⟩
    rintro op rfl htag
    obtain ⟨hcheck, hbounds⟩ := MoveOp.of_tag htag
    rw [hbounds]
    exact (getCapBounds_of_fastRepCheck c hcheck).2 hl

/-- A capability for `2 ^ 13` bytes, with its address moved to the second byte of its window. -/
def lowestUnit : Capability :=
  (cDefaultCap.setCapBounds 0x100000 0x102000).1.withAddr 0xFF001

/-- The check passes an increment by the size of the window less one, and `CIncOffset` then gives a
tagged capability whose bounds have moved by `2 ^ 15`. -/
theorem not_repCheckSound :
    lowestUnit.getCapBounds = (cDefaultCap.setCapBounds 0x100000 0x102000).1.getCapBounds ∧
    lowestUnit.fastRepCheck 0x7FFF = true ∧
    (cIncOffset lowestUnit 0x7FFF).tag = true ∧
    lowestUnit.getCapBounds = (0x100000, 0x102000) ∧
    (cIncOffset lowestUnit 0x7FFF).getCapBounds = (0x108000, 0x10A000) ∧
    ¬ RepCheckSound lowestUnit 0x7FFF := by
  refine ⟨by decide, by decide, by decide, by decide,
    by decide, ?_⟩
  intro h
  exact absurd (h.1 (by decide)) (by decide)

end RiscvVp
