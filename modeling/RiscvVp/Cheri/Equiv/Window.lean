import RiscvVp.Cheri.Equiv.Bounds

/-!
# Representable windows

The bounds are decoded relative to the address.  The addresses fall into windows of `2 ^ (E + 14)`
bytes, the first of which starts at `R * 2 ^ E` for the mantissa `R` an eighth below `B`, and which
wrap around at the end of the address space: two addresses give the same bounds exactly when they lie
in the same window (`getCapBounds_eq_iff`).  This holds of every capability, canonical or not, since
the last bit of the top is corrected from the base.
-/

namespace RiscvVp

namespace Capability

/-- The mantissa that the representable window starts at. -/
def windowStart (c : Capability) : ℕ := (c.B.toNat / 2 ^ 11 + 7) % 8 * 2 ^ 11

/-- The number of the representable window that an address lies in. -/
def window (c : Capability) (addr : BitVec 64) : ℕ :=
  (addr - BitVec.ofNat 64 (c.windowStart * 2 ^ c.exponent)).toNat / 2 ^ (c.exponent + 14)

/-- The window of a position of `x` units, before it wraps around. -/
def windowOf (x R : ℕ) : ℤ := ((x : ℤ) - R) / 2 ^ 14

theorem windowStart_lt (c : Capability) : c.windowStart < 2 ^ 14 := by
  unfold windowStart
  omega

/-- A mantissa is decoded into the window of the address. -/
theorem position_eq_windowOf (c : Capability) (x M : ℕ) :
    position x c.B.toNat M
      = (windowOf x c.windowStart
        + (decide (M / 2 ^ 11 < (c.B.toNat / 2 ^ 11 + 7) % 8)).toNat) * 2 ^ 14 + M := by
  unfold position block windowOf windowStart
  by_cases h : x / 2 ^ 11 % 8 < (c.B.toNat / 2 ^ 11 + 7) % 8 <;>
    simp only [h, decide_true, decide_false, Bool.toNat_true, Bool.toNat_false] <;> omega

/-- Dividing a remainder by a factor of the modulus. -/
theorem emod_mul_ediv (x : ℤ) {m q : ℤ} (hm : 0 < m) (hq : 0 < q) :
    x % (m * q) / m = x / m % q := by
  have hr := Int.emod_nonneg (x / m) hq.ne'
  have hrq := Int.emod_lt_of_pos (x / m) hq
  have h1 := Int.mul_ediv_add_emod x m
  have h2 := Int.mul_ediv_add_emod (x / m) q
  have hx0 := Int.emod_nonneg x hm.ne'
  have hxm := Int.emod_lt_of_pos x hm
  -- the remainder modulo the product keeps the low part of `x` and the low part of its quotient
  have hval : x % (m * q) = m * (x / m % q) + x % m := by
    have hx : x = m * (x / m % q) + x % m + m * q * (x / m / q) := by
      calc x = m * (x / m) + x % m := h1.symm
        _ = m * (q * (x / m / q) + x / m % q) + x % m := by rw [h2]
        _ = m * (x / m % q) + x % m + m * q * (x / m / q) := by ring
    rw [hx, Int.add_mul_emod_self_left, ← hx]
    apply Int.emod_eq_of_lt
    · exact Int.add_nonneg (Int.mul_nonneg hm.le hr) hx0
    · calc m * (x / m % q) + x % m < m * (x / m % q) + m := by omega
        _ = m * (x / m % q + 1) := by ring
        _ ≤ m * q := Int.mul_le_mul_of_nonneg_left (by omega) hm.le
  rw [hval, Int.add_comm, Int.add_mul_ediv_left _ _ hm.ne', Int.ediv_eq_zero_of_lt hx0 hxm,
    Int.zero_add]

/-- The window of an address is the window of its position, modulo the number of windows. -/
theorem window_eq (c : Capability) (addr : BitVec 64) (hE : c.exponent ≤ 50) :
    (c.window addr : ℤ)
      = windowOf (addr.toNat / 2 ^ c.exponent) c.windowStart % 2 ^ (50 - c.exponent) := by
  have hlt := c.windowStart_lt
  have hP := Nat.two_pow_pos c.exponent
  have hN : (2 ^ 64 : ℤ) = 2 ^ (c.exponent + 14) * 2 ^ (50 - c.exponent) := by
    rw [← pow_add]
    congr 1
    omega
  have hstart : c.windowStart * 2 ^ c.exponent < 2 ^ 64 := by
    calc c.windowStart * 2 ^ c.exponent < 2 ^ 14 * 2 ^ c.exponent :=
          Nat.mul_lt_mul_of_pos_right hlt hP
      _ ≤ 2 ^ 14 * 2 ^ 50 := Nat.mul_le_mul_left _ (Nat.pow_le_pow_right (by omega) hE)
      _ = 2 ^ 64 := rfl
  have hsub : ((addr - BitVec.ofNat 64 (c.windowStart * 2 ^ c.exponent)).toNat : ℤ)
      = ((addr.toNat : ℤ) - c.windowStart * (2 ^ c.exponent : ℕ)) % 2 ^ 64 := by
    have ha := addr.isLt
    rw [BitVec.toNat_sub, BitVec.toNat_ofNat, Nat.mod_eq_of_lt hstart, ← Int.natCast_mul]
    generalize c.windowStart * 2 ^ c.exponent = s at hstart ⊢
    omega
  unfold window windowOf
  push_cast
  rw [hsub, hN, emod_mul_ediv _ (by positivity) (by positivity), pow_add,
    ← Int.ediv_ediv_of_nonneg (by positivity), sub_eq_add_neg, ← Int.neg_mul]
  push_cast
  rw [Int.add_mul_ediv_right _ _ (by positivity), ← sub_eq_add_neg]

/-- With a wide exponent there is one window only. -/
theorem window_eq_zero (c : Capability) (addr : BitVec 64) (hE : 50 ≤ c.exponent) :
    c.window addr = 0 := by
  unfold window
  apply Nat.div_eq_of_lt
  calc (addr - BitVec.ofNat 64 (c.windowStart * 2 ^ c.exponent)).toNat < 2 ^ 64 := BitVec.isLt _
    _ ≤ 2 ^ (c.exponent + 14) := Nat.pow_le_pow_right (by omega) (by omega)

/-- The top after its last bit was corrected from the base. -/
def correctTop (b t : ℕ) : ℕ :=
  if 1 < (4 - b / 2 ^ 63 + t / 2 ^ 63) % 4 then
    (if t < 2 ^ 64 then t + 2 ^ 64 else t - 2 ^ 64) else t

theorem toNat_getTop_eq_correctTop {c : Capability} (hE : c.exponent ≤ 50) :
    c.getTop.toNat = correctTop c.baseWord.toNat c.topWord.toNat := by
  have htlt : c.topWord.toNat < 2 ^ 65 := by
    have := c.toNat_topWord
    omega
  have hE' : c.exponent < cCapMaxE - 1 := by
    simp only [cCapMaxE, cCapLenWidth, cCapMantissaWidth]
    omega
  rw [getTop, getCapBounds_eq, correctTop]
  by_cases hf : 1 < (4 - c.baseWord.toNat / 2 ^ 63 + c.topWord.toNat / 2 ^ 63) % 4
  · rw [if_pos ⟨hE', c.flips_iff.2 hf⟩, if_pos hf]
    exact toNat_xor_top htlt
  · rw [if_neg (fun h => hf (c.flips_iff.1 h.2)), if_neg hf]

/-- The corrected top does not depend on the bit that is corrected. -/
theorem correctTop_congr {b t t' : ℕ} (ht : t < 2 ^ 65) (ht' : t' < 2 ^ 65)
    (h : t % 2 ^ 64 = t' % 2 ^ 64) : correctTop b t = correctTop b t' := by
  unfold correctTop
  split_ifs <;> omega

/-! ### Moving the address -/

/-- The capability with its address moved. -/
def withAddr (c : Capability) (addr : BitVec 64) : Capability := { c with address := addr }

@[simp] theorem withAddr_address_self (c : Capability) : c.withAddr c.address = c := rfl

@[simp] theorem cursor_withAddr (c : Capability) (addr : BitVec 64) :
    (c.withAddr addr).cursor = addr.toNat / 2 ^ c.exponent := rfl

/-- The base with the address in a window. -/
theorem toNat_baseWord_withAddr (c : Capability) (addr : BitVec 64) :
    ((c.withAddr addr).baseWord.toNat : ℤ)
      = ((windowOf (addr.toNat / 2 ^ c.exponent) c.windowStart
          + (decide (c.B.toNat / 2 ^ 11 < (c.B.toNat / 2 ^ 11 + 7) % 8)).toNat) * 2 ^ 14
          + c.B.toNat) * 2 ^ c.exponent % 2 ^ 64 := by
  rw [← position_eq_windowOf]
  exact (c.withAddr addr).toNat_baseWord

/-- The top with the address in a window, before its last bit is corrected. -/
theorem toNat_topWord_withAddr (c : Capability) (addr : BitVec 64) :
    ((c.withAddr addr).topWord.toNat : ℤ)
      = ((windowOf (addr.toNat / 2 ^ c.exponent) c.windowStart
          + (decide (c.T.toNat / 2 ^ 11 < (c.B.toNat / 2 ^ 11 + 7) % 8)).toNat) * 2 ^ 14
          + c.T.toNat) * 2 ^ c.exponent % 2 ^ 65 := by
  rw [← position_eq_windowOf]
  exact (c.withAddr addr).toNat_topWord

/-- Positions in two windows are a whole number of address spaces apart when the windows are equal
modulo the number of windows, and only then. -/
theorem scaled_modEq_iff {w w' k m : ℤ} {E : ℕ} (hE : E ≤ 50) :
    ((w + k) * 2 ^ 14 + m) * 2 ^ E ≡ ((w' + k) * 2 ^ 14 + m) * 2 ^ E [ZMOD 2 ^ 64] ↔
      w % 2 ^ (50 - E) = w' % 2 ^ (50 - E) := by
  have hN : (2 ^ 64 : ℤ) = 2 ^ (50 - E) * 2 ^ (E + 14) := by
    rw [← pow_add]
    congr 1
    omega
  have hscale : ∀ v : ℤ,
      ((v + k) * 2 ^ 14 + m) * 2 ^ E = v * 2 ^ (E + 14) + (k * 2 ^ 14 + m) * 2 ^ E := by
    intro v
    rw [pow_add]
    ring
  rw [hscale, hscale, hN]
  constructor
  · intro h
    exact Int.ModEq.mul_right_cancel' (by positivity) (Int.ModEq.add_right_cancel' _ h)
  · intro h
    exact Int.ModEq.add_right _ (Int.ModEq.mul_right' h)

/-- Bounds are equal when their ends are. -/
theorem getCapBounds_eq_iff_ends (c d : Capability) :
    c.getCapBounds = d.getCapBounds ↔ c.getBase = d.getBase ∧ c.getTop = d.getTop :=
  Prod.ext_iff

/-- In windows that are equal the bounds are. -/
theorem ends_eq_of_windowOf {c : Capability} {addr addr' : BitVec 64} (hE : c.exponent ≤ 50)
    (h : windowOf (addr.toNat / 2 ^ c.exponent) c.windowStart % 2 ^ (50 - c.exponent)
      = windowOf (addr'.toNat / 2 ^ c.exponent) c.windowStart % 2 ^ (50 - c.exponent)) :
    (c.withAddr addr).getBase = (c.withAddr addr').getBase ∧
      (c.withAddr addr).getTop = (c.withAddr addr').getTop := by
  have hb : (c.withAddr addr).baseWord = (c.withAddr addr').baseWord := by
    apply BitVec.eq_of_toNat_eq
    apply Int.ofNat_inj.1
    rw [toNat_baseWord_withAddr, toNat_baseWord_withAddr]
    exact (scaled_modEq_iff hE).2 h
  have ht : (c.withAddr addr).topWord.toNat % 2 ^ 64 = (c.withAddr addr').topWord.toNat % 2 ^ 64 := by
    have hmod := (@scaled_modEq_iff _ _
      (decide (c.T.toNat / 2 ^ 11 < (c.B.toNat / 2 ^ 11 + 7) % 8)).toNat c.T.toNat _ hE).2 h
    have h1 := c.toNat_topWord_withAddr addr
    have h2 := c.toNat_topWord_withAddr addr'
    unfold Int.ModEq at hmod
    omega
  refine ⟨by rw [getBase_eq, getBase_eq, hb], BitVec.eq_of_toNat_eq ?_⟩
  have hlt : ∀ a, (c.withAddr a).topWord.toNat < 2 ^ 65 := by
    intro a
    have := (c.withAddr a).toNat_topWord
    omega
  rw [@toNat_getTop_eq_correctTop (c.withAddr addr) hE,
    @toNat_getTop_eq_correctTop (c.withAddr addr') hE, hb]
  exact correctTop_congr (hlt addr) (hlt addr') ht

/-- **The representable region**: the address of a capability may be moved without changing its
bounds exactly within its window. -/
theorem getCapBounds_eq_iff (c : Capability) (addr : BitVec 64) :
    (c.withAddr addr).getCapBounds = c.getCapBounds ↔ c.window addr = c.window c.address := by
  rw [getCapBounds_eq_iff_ends]
  by_cases hE : c.exponent ≤ 50
  · have hw : c.window addr = c.window c.address ↔
        windowOf (addr.toNat / 2 ^ c.exponent) c.windowStart % 2 ^ (50 - c.exponent)
          = windowOf (c.address.toNat / 2 ^ c.exponent) c.windowStart % 2 ^ (50 - c.exponent) := by
      rw [← c.window_eq addr hE, ← c.window_eq c.address hE, Int.ofNat_inj]
    rw [hw]
    constructor
    · rintro ⟨hb, -⟩
      rw [getBase_eq, getBase_eq] at hb
      have h1 := c.toNat_baseWord_withAddr addr
      have h2 := c.toNat_baseWord_withAddr c.address
      rw [hb] at h1
      rw [withAddr_address_self] at h2
      exact (scaled_modEq_iff hE).1 (h1.symm.trans h2)
    · intro h
      exact @ends_eq_of_windowOf c addr c.address hE h
  · -- with one window only the bounds do not depend on the address
    have h1 := @toNat_getCapBounds_wide (c.withAddr addr) (by show 51 ≤ c.exponent; omega)
    have h2 := @toNat_getCapBounds_wide c (by omega)
    rw [window_eq_zero c _ (by omega), window_eq_zero c _ (by omega)]
    simp only [iff_true]
    exact ⟨BitVec.eq_of_toNat_eq (h1.1.trans h2.1.symm), BitVec.eq_of_toNat_eq (h1.2.trans h2.2.symm)⟩

end Capability

end RiscvVp
