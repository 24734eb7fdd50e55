import RiscvVp.Cheri.Equiv.Encoding
import RiscvVp.Lib.Rounding
import Mathlib

/-!
# Decoding and setting bounds

`getCapBounds` finds the base and the top from the mantissas `B` and `T`, the exponent and the
address: both ends lie in the window of `2 ^ 14` units around the address that starts an eighth below
the base.  A position in units of the mantissa's last place is an integer here, since the window may
start below zero; the bounds are the positions scaled by the exponent, modulo the address space.

`setCapBounds` rounds the base down and the top up to multiples of `2 ^ (E + 3)`.  Its result is
canonical, and decoding it gives the rounded bounds.
-/

namespace RiscvVp

open BitField Rounding

namespace Capability

/-! ### Positions -/

/-- The exponent that the bounds are decoded with. -/
def exponent (c : Capability) : ℕ := min cCapMaxE c.E.toNat

/-- The address in units of the mantissa's last place. -/
def cursor (c : Capability) : ℕ := c.address.toNat / 2 ^ c.exponent

/-- The block of `2 ^ 14` units that the mantissa `M` is decoded into, for an address of `x` units. -/
def block (x B M : ℕ) : ℤ :=
  (x / 2 ^ 14 : ℕ)
    + ((decide (M / 2 ^ 11 < (B / 2 ^ 11 + 7) % 8)).toNat
      - (decide (x / 2 ^ 11 % 8 < (B / 2 ^ 11 + 7) % 8)).toNat : ℤ)

/-- The position that the mantissa `M` is decoded to. -/
def position (x B M : ℕ) : ℤ := block x B M * 2 ^ 14 + M

/-- The top is as far above the base as the length of the mantissa says. -/
theorem position_add {x B T : ℕ} (hB : B < 2 ^ 14) (hT : T < 2 ^ 14)
    (hlen : (2 ^ 14 - B + T) % 2 ^ 14 ≤ 2 ^ 13) :
    position x B T = position x B B + ((2 ^ 14 - B + T) % 2 ^ 14 : ℕ) := by
  unfold position block
  by_cases h1 : T / 2 ^ 11 < (B / 2 ^ 11 + 7) % 8 <;>
    by_cases h2 : B / 2 ^ 11 < (B / 2 ^ 11 + 7) % 8 <;>
    simp only [h1, h2, decide_true, decide_false, Bool.toNat_true, Bool.toNat_false] <;> omega

/-- A base just below the address is decoded to where it was. -/
theorem position_base {x B y : ℕ} (hy : y % 2 ^ 14 = B) (hle : y ≤ x) (hlt : x < y + 8) :
    position x B B = y := by
  unfold position block
  by_cases h1 : x / 2 ^ 11 % 8 < (B / 2 ^ 11 + 7) % 8 <;>
    by_cases h2 : B / 2 ^ 11 < (B / 2 ^ 11 + 7) % 8 <;>
    simp only [h1, h2, decide_true, decide_false, Bool.toNat_true, Bool.toNat_false] <;> omega

/-! ### The words of the source -/

/-- The corrected block, as the source computes it in 64 bits. -/
def blockWord (c : Capability) (M : BitVec 14) : BitVec 64 :=
  (if c.exponent + cCapMantissaWidth ≤ 63 then c.address >>> (c.exponent + cCapMantissaWidth)
      else 0) +
    ((BitVec.ofBool (M.extractLsb' 11 3 < c.B.extractLsb' 11 3 - 1)).setWidth 64
      - (BitVec.ofBool ((c.address >>> (c.exponent + 11)).setWidth 3
          < c.B.extractLsb' 11 3 - 1)).setWidth 64)

/-- The base, as the source computes it. -/
def baseWord (c : Capability) : BitVec 64 :=
  (if cCapMantissaWidth + c.exponent ≤ 63 then
      c.blockWord c.B <<< (cCapMantissaWidth + c.exponent) else 0)
    ||| c.B.setWidth 64 <<< c.exponent

/-- The top, before its last bit is corrected. -/
def topWord (c : Capability) : BitVec 128 :=
  (c.T.setWidth 128 <<< c.exponent
    + (c.blockWord c.T).setWidth 128 <<< (cCapMantissaWidth + c.exponent))
    &&& BitVec.ofNat 128 (2 ^ 65 - 1)

/-- `getCapBounds` by the words that it puts together: the top is corrected where it lies more than an
address space above the base. -/
theorem getCapBounds_eq (c : Capability) :
    c.getCapBounds =
      if c.exponent < cCapMaxE - 1 ∧
          1#128 < ((c.topWord >>> 63) - (c.baseWord >>> 63).setWidth 128) &&& 3#128 then
        (c.baseWord, c.topWord ^^^ (1#128 <<< 64))
      else (c.baseWord, c.topWord) := rfl

theorem getBase_eq (c : Capability) : c.getBase = c.baseWord := by
  rw [getBase, getCapBounds_eq]
  split <;> rfl

/-- A comparison with `R3`, three bits below the top of the mantissa. -/
theorem lt_R3 (x : BitVec 3) (B : BitVec 14) :
    decide (x < B.extractLsb' 11 3 - 1) = decide (x.toNat < (B.toNat / 2 ^ 11 + 7) % 8) := by
  have hB := B.isLt
  have h1 : (1 : BitVec 3).toNat = 1 := rfl
  rw [decide_eq_decide, BitVec.lt_def, BitVec.toNat_sub, toNat_extractLsb', h1]
  omega

/-- The three bits of the address at the top of the mantissa. -/
theorem toNat_a3 (c : Capability) :
    ((c.address >>> (c.exponent + 11)).setWidth 3).toNat = c.cursor / 2 ^ 11 % 8 := by
  rw [BitVec.toNat_setWidth, BitVec.toNat_ushiftRight, Nat.shiftRight_eq_div_pow, cursor,
    Nat.pow_add, Nat.div_div_eq_div_mul]

/-- The bits of the address above the mantissa. -/
theorem toNat_aTop (c : Capability) :
    (if c.exponent + cCapMantissaWidth ≤ 63 then c.address >>> (c.exponent + cCapMantissaWidth)
      else 0).toNat = c.cursor / 2 ^ 14 := by
  have ha := c.address.isLt
  rw [cursor, Nat.div_div_eq_div_mul, ← Nat.pow_add]
  split
  · rw [BitVec.toNat_ushiftRight, Nat.shiftRight_eq_div_pow]
    rfl
  · rename_i h
    have hE : 64 ≤ c.exponent + 14 := by
      simp only [cCapMantissaWidth] at h
      omega
    rw [Nat.div_eq_of_lt (Nat.lt_of_lt_of_le ha (Nat.pow_le_pow_right (by omega) hE))]
    rfl

/-- The corrected block is right modulo the word. -/
theorem blockWord_modEq (c : Capability) (M : BitVec 14) :
    ((c.blockWord M).toNat : ℤ) ≡ block c.cursor c.B.toNat M.toNat [ZMOD 2 ^ 64] := by
  have hM := M.isLt
  have hM3 : M.toNat / 2 ^ 11 % 2 ^ 3 = M.toNat / 2 ^ 11 := by omega
  unfold blockWord block
  rw [lt_R3, lt_R3, toNat_extractLsb', toNat_a3, hM3, BitVec.toNat_add, BitVec.toNat_sub,
    toNat_aTop, BitVec.toNat_setWidth, BitVec.toNat_setWidth, BitVec.toNat_ofBool,
    BitVec.toNat_ofBool]
  have h1 := (decide (M.toNat / 2 ^ 11 < (c.B.toNat / 2 ^ 11 + 7) % 8)).toNat_lt
  have h2 := (decide (c.cursor / 2 ^ 11 % 8 < (c.B.toNat / 2 ^ 11 + 7) % 8)).toNat_lt
  unfold Int.ModEq
  omega

/-- The base as a sum: its block lies above its mantissa. -/
theorem baseWord_eq (c : Capability) :
    c.baseWord = (c.blockWord c.B <<< 14 + c.B.setWidth 64) <<< c.exponent := by
  have hor : c.blockWord c.B <<< 14 + c.B.setWidth 64
      = c.blockWord c.B <<< 14 ||| c.B.setWidth 64 := by
    apply BitVec.add_eq_or_of_and_eq_zero
    apply BitVec.eq_of_getLsbD_eq
    intro i hi
    by_cases h : i < 14
    · simp [h]
    · have hB := c.B.getLsbD_of_ge i (by omega)
      simp [hB]
  have hif : (if cCapMantissaWidth + c.exponent ≤ 63 then
        c.blockWord c.B <<< (cCapMantissaWidth + c.exponent) else 0)
      = c.blockWord c.B <<< (cCapMantissaWidth + c.exponent) := by
    split
    · rfl
    · rw [BitVec.shiftLeft_eq_zero (by omega)]
      rfl
  rw [baseWord, hif, hor, BitVec.shiftLeft_or_distrib, BitVec.shiftLeft_add]
  rfl

/-- The base is the scaled position of `B`. -/
theorem toNat_baseWord (c : Capability) :
    (c.baseWord.toNat : ℤ) = position c.cursor c.B.toNat c.B.toNat * 2 ^ c.exponent % 2 ^ 64 := by
  have hw := c.blockWord_modEq c.B
  have hB := c.B.isLt
  rw [baseWord_eq, BitVec.toNat_shiftLeft, BitVec.toNat_add, BitVec.toNat_shiftLeft,
    BitVec.toNat_setWidth, Nat.shiftLeft_eq, Nat.shiftLeft_eq]
  have h : ((((c.blockWord c.B).toNat * 2 ^ 14 % 2 ^ 64 + c.B.toNat % 2 ^ 64) % 2 ^ 64 : ℕ) : ℤ)
      ≡ position c.cursor c.B.toNat c.B.toNat [ZMOD 2 ^ 64] := by
    unfold position
    unfold Int.ModEq at hw ⊢
    omega
  have h2 := h.mul_right (2 ^ c.exponent)
  push_cast at h2 ⊢
  exact h2

/-- The top is the scaled position of `T`, before its last bit is corrected. -/
theorem toNat_topWord (c : Capability) :
    (c.topWord.toNat : ℤ) = position c.cursor c.B.toNat c.T.toNat * 2 ^ c.exponent % 2 ^ 65 := by
  have hw := c.blockWord_modEq c.T
  have hT := c.T.isLt
  have hwlt := (c.blockWord c.T).isLt
  have h : (((c.blockWord c.T).toNat : ℤ) * 2 ^ 14 + c.T.toNat)
      ≡ position c.cursor c.B.toNat c.T.toNat [ZMOD 2 ^ 65] := by
    unfold position
    unfold Int.ModEq at hw ⊢
    omega
  have h2 := h.mul_right (2 ^ c.exponent)
  have hsum : (c.T.toNat % 2 ^ 128 * 2 ^ c.exponent % 2 ^ 128
      + (c.blockWord c.T).toNat % 2 ^ 128 * 2 ^ (cCapMantissaWidth + c.exponent) % 2 ^ 128)
        % 2 ^ 128 % 2 ^ 65
      = ((c.blockWord c.T).toNat * 2 ^ 14 + c.T.toNat) * 2 ^ c.exponent % 2 ^ 65 := by
    rw [Nat.mod_eq_of_lt (by omega : c.T.toNat < 2 ^ 128),
      Nat.mod_eq_of_lt (by omega : (c.blockWord c.T).toNat < 2 ^ 128), Nat.pow_add,
      ← Nat.mul_assoc, Nat.add_mul]
    simp only [cCapMantissaWidth]
    omega
  rw [topWord, BitVec.toNat_and, BitVec.toNat_ofNat, BitVec.toNat_add, BitVec.toNat_shiftLeft,
    BitVec.toNat_shiftLeft, BitVec.toNat_setWidth, BitVec.toNat_setWidth, Nat.shiftLeft_eq,
    Nat.shiftLeft_eq, Nat.mod_eq_of_lt (by omega : 2 ^ 65 - 1 < 2 ^ 128),
    Nat.and_two_pow_sub_one_eq_mod, hsum]
  push_cast
  exact h2

/-- When the last bit of the top is flipped. -/
theorem flips_iff (c : Capability) :
    1#128 < ((c.topWord >>> 63) - (c.baseWord >>> 63).setWidth 128) &&& 3#128 ↔
      1 < (4 - c.baseWord.toNat / 2 ^ 63 + c.topWord.toNat / 2 ^ 63) % 4 := by
  have hb := c.baseWord.isLt
  have ht := c.topWord.isLt
  have h3 : (3#128).toNat = 2 ^ 2 - 1 := rfl
  have h1 : (1#128).toNat = 1 := rfl
  rw [BitVec.lt_def, BitVec.toNat_and, BitVec.toNat_sub, BitVec.toNat_ushiftRight,
    BitVec.toNat_setWidth, BitVec.toNat_ushiftRight, Nat.shiftRight_eq_div_pow,
    Nat.shiftRight_eq_div_pow, h3, h1, Nat.and_two_pow_sub_one_eq_mod]
  omega

/-- Flipping the last bit of a top. -/
theorem toNat_xor_top {t : BitVec 128} (ht : t.toNat < 2 ^ 65) :
    (t ^^^ (1#128 <<< 64)).toNat
      = if t.toNat < 2 ^ 64 then t.toNat + 2 ^ 64 else t.toNat - 2 ^ 64 := by
  have h1 : (1#128 <<< 64).toNat = 2 ^ 64 := rfl
  rw [BitVec.toNat_xor, h1]
  have hlo : (t.toNat ^^^ 2 ^ 64) % 2 ^ 64 = t.toNat % 2 ^ 64 := by
    rw [Nat.xor_mod_two_pow, Nat.mod_self, Nat.xor_zero]
  have hhi : (t.toNat ^^^ 2 ^ 64) / 2 ^ 64 = t.toNat / 2 ^ 64 ^^^ 1 := by
    rw [Nat.xor_div_two_pow, Nat.div_self (by omega)]
  split
  · have hq : t.toNat / 2 ^ 64 = 0 := by omega
    rw [hq, Nat.zero_xor] at hhi
    omega
  · have hq : t.toNat / 2 ^ 64 = 1 := by omega
    rw [hq, Nat.xor_self] at hhi
    omega

/-- The last bit of the top is right after the correction: the bounds are at most half the address
space apart. -/
theorem corrected {Z : ℤ} {b t len : ℕ} (hb : (b : ℤ) = Z % 2 ^ 64)
    (ht : (t : ℤ) = (Z + len) % 2 ^ 65) (hlen : len ≤ 2 ^ 63) :
    b + len = if 1 < (4 - b / 2 ^ 63 + t / 2 ^ 63) % 4 then
      (if t < 2 ^ 64 then t + 2 ^ 64 else t - 2 ^ 64) else t := by
  split
  · split <;> omega
  · omega

/-! ### The bounds of a capability -/

/-- The top of a capability with an exponent of at most `50`: the length of the mantissa, scaled,
above the base. -/
theorem toNat_getTop {c : Capability} (hE : c.exponent ≤ 50) (hlen : c.mantissaLen ≤ 2 ^ 13) :
    c.getTop.toNat = c.getBase.toNat + c.mantissaLen * 2 ^ c.exponent := by
  have hb := c.toNat_baseWord
  have ht := c.toNat_topWord
  have htlt : c.topWord.toNat < 2 ^ 65 := by omega
  have hle : c.mantissaLen * 2 ^ c.exponent ≤ 2 ^ 63 := by
    calc c.mantissaLen * 2 ^ c.exponent ≤ 2 ^ 13 * 2 ^ 50 :=
          Nat.mul_le_mul hlen (Nat.pow_le_pow_right (by omega) hE)
      _ = 2 ^ 63 := rfl
  rw [position_add c.B.isLt c.T.isLt (by rw [← mantissaLen_eq]; exact hlen), ← mantissaLen_eq,
    Int.add_mul] at ht
  have h := @corrected _ _ _ (c.mantissaLen * 2 ^ c.exponent) hb (by push_cast; exact ht) hle
  have hE' : c.exponent < cCapMaxE - 1 := by
    simp only [cCapMaxE, cCapLenWidth, cCapMantissaWidth]
    omega
  rw [getBase_eq, h, getTop, getCapBounds_eq]
  by_cases hf : 1 < (4 - c.baseWord.toNat / 2 ^ 63 + c.topWord.toNat / 2 ^ 63) % 4
  · rw [if_pos ⟨hE', c.flips_iff.2 hf⟩, if_pos hf]
    exact toNat_xor_top htlt
  · rw [if_neg (fun h => hf (c.flips_iff.1 h.2)), if_neg hf]

/-- An end whose position is a multiple of eight is a multiple of the scaled eight. -/
theorem two_pow_dvd_of_emod {p : ℤ} {n E m : ℕ} (hp : p % 8 = 0) (hm : E + 3 ≤ m)
    (hn : (n : ℤ) = p * 2 ^ E % 2 ^ m) : 2 ^ (E + 3) ∣ n := by
  have h1 : (2 ^ (E + 3) : ℤ) ∣ p * 2 ^ E := by
    rw [pow_add, mul_comm]
    exact mul_dvd_mul (Int.dvd_of_emod_eq_zero hp) dvd_rfl
  have h2 : (2 ^ (E + 3) : ℤ) ∣ 2 ^ m := pow_dvd_pow 2 hm
  have h3 : (2 ^ (E + 3) : ℤ) ∣ n := by
    rw [hn, Int.emod_def]
    exact Int.dvd_sub h1 (h2.mul_right _)
  exact_mod_cast h3

theorem exponent_le (c : Capability) : c.exponent ≤ 52 := Nat.min_le_left _ _

/-- With the low bits of `B` zero the base is a multiple of the scaled eight. -/
theorem two_pow_dvd_getBase {c : Capability} (hB : c.B.toNat % 8 = 0) :
    2 ^ (c.exponent + 3) ∣ c.getBase.toNat := by
  have hE := c.exponent_le
  rw [getBase_eq]
  refine two_pow_dvd_of_emod ?_ (by omega) c.toNat_baseWord
  unfold position
  omega

/-- With the low bits of `T` zero the top is a multiple of the scaled eight. -/
theorem two_pow_dvd_getTop {c : Capability} (hT : c.T.toNat % 8 = 0) :
    2 ^ (c.exponent + 3) ∣ c.getTop.toNat := by
  have hE := c.exponent_le
  have ht := c.toNat_topWord
  have hdvd : 2 ^ (c.exponent + 3) ∣ c.topWord.toNat := by
    refine two_pow_dvd_of_emod ?_ (by omega) ht
    unfold position
    omega
  have h64 : 2 ^ (c.exponent + 3) ∣ 2 ^ 64 := Nat.pow_dvd_pow 2 (by omega)
  rw [getTop, getCapBounds_eq]
  split
  · rw [toNat_xor_top (by omega)]
    split
    · exact (Nat.dvd_add_iff_left h64).1 hdvd
    · exact Nat.dvd_sub hdvd h64
  · exact hdvd

/-- With an exponent of `51` or `52` the bounds do not depend on the address. -/
theorem toNat_getCapBounds_wide {c : Capability} (hE : 51 ≤ c.exponent) :
    c.getBase.toNat = c.B.toNat * 2 ^ c.exponent % 2 ^ 64 ∧
    c.getTop.toNat = c.T.toNat * 2 ^ c.exponent % 2 ^ 65 := by
  have hb := c.toNat_baseWord
  have ht := c.toNat_topWord
  have hle := c.exponent_le
  have hnf : ¬ c.exponent < cCapMaxE - 1 := by
    simp only [cCapMaxE, cCapLenWidth, cCapMantissaWidth]
    omega
  rw [getBase_eq, getTop, getCapBounds_eq, if_neg (fun h => hnf h.1)]
  show _ ∧ c.topWord.toNat = _
  unfold position at hb ht
  have hE' : c.exponent = 51 ∨ c.exponent = 52 := by omega
  rcases hE' with hE' | hE' <;> rw [hE'] at hb ht ⊢ <;> omega

/-! ### The exponent for a length -/

theorem boundsExponent_le (length : BitVec 128) : boundsExponent length ≤ 52 := Nat.sub_le _ _

/-- The exponent puts the top bit of the length second from the top of the mantissa. -/
theorem boundsExponent_spec {length : BitVec 128} (h : length.toNat ≤ 2 ^ 64) :
    length.toNat < 2 ^ (boundsExponent length + 13) ∧
    (boundsExponent length ≠ 0 → 2 ^ (boundsExponent length + 12) ≤ length.toNat) := by
  unfold boundsExponent
  simp only [cCapMaxE, cCapLenWidth, cCapMantissaWidth]
  have hbit := toNat_getLsbD length 64
  by_cases h64 : length.getLsbD 64 = true
  · rw [h64, Bool.toNat_true] at hbit
    rw [if_pos h64]
    simp only [Nat.zero_le, Nat.min_eq_left]
    omega
  · rw [Bool.eq_false_iff.2 h64, Bool.toNat_false] at hbit
    rw [if_neg h64]
    by_cases h0 : length = 0
    · simp [h0]
    · have hne : length.toNat ≠ 0 := by
        intro hz
        exact h0 (BitVec.eq_of_toNat_eq hz)
      rw [if_pos h0, clzll, BitVec.toNat_setWidth, Nat.mod_eq_of_lt (by omega)]
      have hlo := Nat.log2_self_le hne
      have hhi := Nat.lt_log2_self (n := length.toNat)
      have hk : length.toNat.log2 < 64 := (Nat.log2_lt hne).2 (by omega)
      generalize length.toNat.log2 = k at *
      by_cases hk12 : 12 ≤ k
      · have he : 52 - min (63 - k + 1) 52 = k - 12 := by omega
        rw [show 65 - 14 + 1 = 52 from rfl, he]
        constructor
        · rw [show k - 12 + 13 = k + 1 by omega]
          exact hhi
        · intro _
          rw [show k - 12 + 12 = k by omega]
          exact hlo
      · have he : 52 - min (63 - k + 1) 52 = 0 := by omega
        rw [show 65 - 14 + 1 = 52 from rfl, he]
        have : 2 ^ (k + 1) ≤ 2 ^ (0 + 13) := Nat.pow_le_pow_right (by omega) (by omega)
        omega

/-! ### Setting bounds -/

/-- The capability with its bounds moved outwards to multiples of `2 ^ (E + 3)`. -/
def rounded (c : Capability) (base : BitVec 64) (top : BitVec 128) (E : ℕ) : Capability :=
  { c with
    address := base, E := BitVec.ofNat 6 E
    B := BitVec.ofNat 14 (base.toNat / 2 ^ (E + 3) * 8)
    T := BitVec.ofNat 14 (top.toNat ⌈/⌉ 2 ^ (E + 3) * 8), internalE := true }

/-- The capability with bounds that fit the mantissa. -/
def unrounded (c : Capability) (base : BitVec 64) (top : BitVec 128) : Capability :=
  { c with
    address := base, E := 0, B := base.setWidth 14, T := top.setWidth 14, internalE := false }

/-- Whether the length overflows the mantissa when its ends are rounded with the exponent `e`. -/
def lengthGrows (base : BitVec 64) (top : BitVec 128) (e : ℕ) : Bool :=
  (((top >>> (e + 3)).setWidth 14).setWidth 16
    + (BitVec.ofBool (top % BitVec.ofNat 128 (2 ^ (e + 3)) ≠ 0)).setWidth 16
    - ((base >>> (e + 3)).setWidth 14).setWidth 16 : BitVec 16).getLsbD 10

/-- The exponent after rounding. -/
def roundedExponent (base : BitVec 64) (top : BitVec 128) (e : ℕ) : ℕ :=
  if lengthGrows base top e then e + 1 else e

/-- Whether the low bits of an end are lost. -/
theorem umod_ne_zero_iff {w k : ℕ} (x : BitVec w) (hk : k < w) :
    x % BitVec.ofNat w (2 ^ k) ≠ 0 ↔ x.toNat % 2 ^ k ≠ 0 := by
  have hlt : 2 ^ k < 2 ^ w := Nat.pow_lt_pow_right (by omega) hk
  have h : (x % BitVec.ofNat w (2 ^ k)).toNat = x.toNat % 2 ^ k := by
    rw [BitVec.toNat_umod, BitVec.toNat_ofNat, Nat.mod_eq_of_lt hlt]
  rw [← h]
  constructor
  · intro hne hz
    exact hne (BitVec.eq_of_toNat_eq hz)
  · intro hne hz
    rw [hz] at hne
    exact hne rfl

/-- The fourteen bits of an end above its last `k`. -/
theorem toNat_endBits {w : ℕ} (x : BitVec w) (k : ℕ) :
    (((x >>> k).setWidth 14).setWidth 16 : BitVec 16).toNat = x.toNat / 2 ^ k % 2 ^ 14 := by
  rw [BitVec.toNat_setWidth, BitVec.toNat_setWidth, BitVec.toNat_ushiftRight,
    Nat.shiftRight_eq_div_pow]
  omega

/-- The mantissa of a base, with the bits that are lent to the exponent zero. -/
theorem baseBits_shiftLeft (x : BitVec 64) (k : ℕ) :
    (((((x >>> k).setWidth 14).setWidth 16 : BitVec 16) <<< 3).setWidth 14 : BitVec 14)
      = BitVec.ofNat 14 (x.toNat / 2 ^ k * 8) := by
  apply BitVec.eq_of_toNat_eq
  rw [BitVec.toNat_setWidth, BitVec.toNat_shiftLeft, toNat_endBits, BitVec.toNat_ofNat,
    Nat.shiftLeft_eq]
  omega

/-- The mantissa of a top, which is rounded up when low bits are lost. -/
theorem topBits_shiftLeft (x : BitVec 128) (k : ℕ) {l : Bool}
    (hl : l = decide (x.toNat % 2 ^ k ≠ 0)) :
    (((((x >>> k).setWidth 14).setWidth 16 + (BitVec.ofBool l).setWidth 16 : BitVec 16)
      <<< 3).setWidth 14 : BitVec 14) = BitVec.ofNat 14 (x.toNat ⌈/⌉ 2 ^ k * 8) := by
  have hlt := l.toNat_lt
  rw [ceilDiv_eq_div_add _ (Nat.two_pow_pos k), ← hl]
  apply BitVec.eq_of_toNat_eq
  rw [BitVec.toNat_setWidth, BitVec.toNat_shiftLeft, BitVec.toNat_add, toNat_endBits,
    BitVec.toNat_setWidth, BitVec.toNat_ofBool, BitVec.toNat_ofNat, Nat.shiftLeft_eq]
  omega

/-- One more bit of an end is lost when the exponent is incremented. -/
theorem mod_two_pow_succ_ne_zero (n k : ℕ) :
    n % 2 ^ (k + 1) ≠ 0 ↔ n % 2 ^ k ≠ 0 ∨ n / 2 ^ k % 2 = 1 := by
  have hpos := Nat.two_pow_pos k
  rw [Nat.pow_succ, Nat.mod_mul]
  rcases Nat.mod_two_eq_zero_or_one (n / 2 ^ k) with h | h <;> rw [h] <;> omega

/-- The bits of an end that are lost with the exponent incremented: those that were lost before, and
the last bit `y` of what was kept. -/
theorem lost_iff {w k : ℕ} (x : BitVec w) (hk : k < w) {y : BitVec 16}
    (hy : x.toNat % 2 ^ k = 0 → y.toNat % 2 = x.toNat / 2 ^ k % 2) :
    (x % BitVec.ofNat w (2 ^ k) ≠ 0 ∨ y.getLsbD 0 = true) ↔ x.toNat % 2 ^ (k + 1) ≠ 0 := by
  have hbit := toNat_getLsbD y 0
  rw [Nat.pow_zero, Nat.div_one] at hbit
  rw [umod_ne_zero_iff x hk, mod_two_pow_succ_ne_zero]
  by_cases hl : x.toNat % 2 ^ k = 0
  · rw [← hy hl, ← hbit]
    cases y.getLsbD 0 <;> simp
  · simp only [ne_eq, hl, not_false_eq_true, true_or]

/-- The last bit of a top that was not rounded. -/
theorem topBits_mod_two {top : BitVec 128} {k : ℕ} (hk : k < 128) (h : top.toNat % 2 ^ k = 0) :
    (((top >>> k).setWidth 14).setWidth 16
      + (BitVec.ofBool (top % BitVec.ofNat 128 (2 ^ k) ≠ 0)).setWidth 16 : BitVec 16).toNat % 2
      = top.toNat / 2 ^ k % 2 := by
  have hl : ¬ top % BitVec.ofNat 128 (2 ^ k) ≠ 0 := fun hne => (umod_ne_zero_iff top hk).1 hne h
  rw [decide_eq_false hl, BitVec.toNat_add, toNat_endBits]
  have h0 : ((BitVec.ofBool false).setWidth 16 : BitVec 16).toNat = 0 := rfl
  rw [h0]
  omega

/-- **Setting bounds that need rounding** moves them outwards to multiples of `2 ^ (E + 3)`, for the
exponent of the length or, when the rounded length overflows, the next one; it is exact when they
are such multiples already. -/
theorem setCapBounds_of_ie (c : Capability) {base : BitVec 64} {top : BitVec 128} {e : ℕ}
    (he : boundsExponent (top - base.setWidth 128) = e)
    (hie : e ≠ 0 ∨ (top - base.setWidth 128).getLsbD 12 = true) :
    c.setCapBounds base top =
      (c.rounded base top (roundedExponent base top e),
        decide (2 ^ (roundedExponent base top e + 3) ∣ base.toNat ∧
          2 ^ (roundedExponent base top e + 3) ∣ top.toNat)) := by
  have hle := boundsExponent_le (top - base.setWidth 128)
  rw [he] at hle
  unfold setCapBounds
  dsimp only
  rw [he, if_pos hie]
  unfold roundedExponent
  cases hg : lengthGrows base top e with
  | false =>
    rw [if_neg (by unfold lengthGrows at hg; rw [hg]; decide), if_neg (by decide)]
    rw [topBits_shiftLeft top (e + 3) (decide_eq_decide.2 (umod_ne_zero_iff top (by omega))),
      baseBits_shiftLeft]
    refine Prod.ext rfl (decide_eq_decide.2 ?_)
    rw [umod_ne_zero_iff base (by omega), umod_ne_zero_iff top (by omega)]
    simp only [Nat.dvd_iff_mod_eq_zero]
    omega
  | true =>
    rw [if_pos (by unfold lengthGrows at hg; exact hg), if_pos rfl]
    have hlb := lost_iff base (k := e + 3) (by omega)
      (y := ((base >>> (e + 3)).setWidth 14).setWidth 16) (fun _ => by rw [toNat_endBits]; omega)
    have hlt := lost_iff top (by omega) (topBits_mod_two (k := e + 3) (by omega))
    rw [topBits_shiftLeft top (e + 4) (decide_eq_decide.2 hlt), baseBits_shiftLeft]
    refine Prod.ext rfl (decide_eq_decide.2 ?_)
    rw [hlb, hlt, show e + 3 + 1 = e + 1 + 3 by omega]
    simp only [Nat.dvd_iff_mod_eq_zero]
    omega

/-- **Setting bounds that fit the mantissa** is exact. -/
theorem setCapBounds_of_not_ie (c : Capability) {base : BitVec 64} {top : BitVec 128}
    (he : boundsExponent (top - base.setWidth 128) = 0)
    (hlen : (top - base.setWidth 128).getLsbD 12 = false) :
    c.setCapBounds base top = (c.unrounded base top, true) := by
  unfold setCapBounds
  dsimp only
  rw [he, if_neg (by rw [hlen]; simp)]
  rfl

/-- The length of the rounded bounds, in multiples of `2 ^ (E + 3)`. -/
def roundedLen (base : BitVec 64) (top : BitVec 128) (E : ℕ) : ℕ :=
  top.toNat ⌈/⌉ 2 ^ (E + 3) - base.toNat / 2 ^ (E + 3)

/-- Rounding leaves the base below the top. -/
theorem div_le_ceilDiv {base top m : ℕ} (hm : 0 < m) (h : base ≤ top) : base / m ≤ top ⌈/⌉ m := by
  rw [ceilDiv_eq_div_add _ hm]
  exact (Nat.div_le_div_right h).trans (Nat.le_add_right _ _)

/-- The overflow test looks at the length in units of `2 ^ (e + 3)`. -/
theorem lengthGrows_eq {base : BitVec 64} {top : BitVec 128} {e : ℕ} (he : e ≤ 52)
    (h : base.toNat ≤ top.toNat) (hlt : roundedLen base top e < 2 ^ 11) :
    lengthGrows base top e = decide (2 ^ 10 ≤ roundedLen base top e) := by
  have hpos := Nat.two_pow_pos (e + 3)
  have hle := div_le_ceilDiv hpos h
  have hl : (decide (top % BitVec.ofNat 128 (2 ^ (e + 3)) ≠ 0))
      = decide (top.toNat % 2 ^ (e + 3) ≠ 0) :=
    decide_eq_decide.2 (umod_ne_zero_iff top (by omega))
  have hl2 := (decide (top.toNat % 2 ^ (e + 3) ≠ 0)).toNat_lt
  unfold roundedLen at hlt ⊢
  unfold lengthGrows
  apply getLsbD_eq_of_toNat
  rw [hl, BitVec.toNat_sub, BitVec.toNat_add, toNat_endBits, toNat_endBits, BitVec.toNat_setWidth,
    BitVec.toNat_ofBool]
  rw [ceilDiv_eq_div_add _ hpos] at hle hlt ⊢
  by_cases hc : 2 ^ 10 ≤ top.toNat / 2 ^ (e + 3) + (decide (top.toNat % 2 ^ (e + 3) ≠ 0)).toNat
      - base.toNat / 2 ^ (e + 3)
  · rw [decide_eq_true hc, Bool.toNat_true]
    omega
  · rw [decide_eq_false hc, Bool.toNat_false]
    omega

/-- The rounded length fits the second quarter of the mantissa. -/
theorem roundedLen_bounds {base : BitVec 64} {top : BitVec 128} {e : ℕ} (he : e ≤ 52)
    (h : base.toNat ≤ top.toNat) (hlo : 2 ^ (e + 12) ≤ top.toNat - base.toNat)
    (hhi : top.toNat - base.toNat < 2 ^ (e + 13)) :
    2 ^ 9 ≤ roundedLen base top (roundedExponent base top e) ∧
      roundedLen base top (roundedExponent base top e) < 2 ^ 10 := by
  have hpos := Nat.two_pow_pos (e + 3)
  have hlo' : 2 ^ 9 ≤ roundedLen base top e :=
    le_ceilDiv_sub hpos h (by rw [← Nat.pow_add, show 9 + (e + 3) = e + 12 by omega]; exact hlo)
  have hhi' : roundedLen base top e < 2 ^ 10 + 2 :=
    ceilDiv_sub_lt hpos h (by rw [← Nat.pow_add, show 10 + (e + 3) = e + 13 by omega]; exact hhi)
  have hg := lengthGrows_eq he h (by omega)
  unfold roundedExponent
  by_cases hc : 2 ^ 10 ≤ roundedLen base top e
  · rw [hg, decide_eq_true hc, if_pos rfl]
    -- both ends are halved once more, rounding outwards
    have hceil : top.toNat ⌈/⌉ 2 ^ (e + 1 + 3) = (top.toNat ⌈/⌉ 2 ^ (e + 3)) ⌈/⌉ 2 := by
      rw [ceilDiv_ceilDiv _ hpos (by omega), ← Nat.pow_succ, show e + 1 + 3 = e + 3 + 1 by omega]
    have hfloor : base.toNat / 2 ^ (e + 1 + 3) = base.toNat / 2 ^ (e + 3) / 2 := by
      rw [Nat.div_div_eq_div_mul, ← Nat.pow_succ, show e + 1 + 3 = e + 3 + 1 by omega]
    have hle := div_le_ceilDiv hpos h
    unfold roundedLen at hc hhi' ⊢
    rw [hceil, hfloor, Nat.ceilDiv_eq_add_pred_div]
    omega
  · rw [hg, decide_eq_false hc, if_neg (by decide)]
    omega

/-- The length of the mantissa of rounded bounds. -/
theorem mantissaLen_rounded (c : Capability) {base : BitVec 64} {top : BitVec 128} {E : ℕ}
    (h : base.toNat ≤ top.toNat) (hlt : roundedLen base top E < 2 ^ 11) :
    (c.rounded base top E).mantissaLen = roundedLen base top E * 8 := by
  have hle := div_le_ceilDiv (Nat.two_pow_pos (E + 3)) h
  rw [mantissaLen_eq]
  unfold roundedLen at hlt ⊢
  simp only [rounded, BitVec.toNat_ofNat]
  omega

/-- The length of the mantissa of bounds that fit it. -/
theorem mantissaLen_unrounded (c : Capability) {base : BitVec 64} {top : BitVec 128}
    (h : base.toNat ≤ top.toNat) (hlt : top.toNat - base.toNat < 2 ^ 12) :
    (c.unrounded base top).mantissaLen = top.toNat - base.toNat := by
  rw [mantissaLen_eq]
  simp only [unrounded, BitVec.toNat_setWidth]
  omega

/-- The length that `setCapBounds` computes in 128 bits is the difference, since the range does not go
backwards. -/
theorem toNat_length {base : BitVec 64} {top : BitVec 128} (h : base.toNat ≤ top.toNat) :
    (top - base.setWidth 128).toNat = top.toNat - base.toNat := by
  have hb := base.isLt
  have ht := top.isLt
  rw [BitVec.toNat_sub, BitVec.toNat_setWidth]
  omega

/-- What `setCapBounds` does with ends in order and at most the address space apart: a short length
is kept as it is, and a longer one is rounded with an exponent that puts it in the second quarter of
the mantissa. -/
theorem setCapBounds_cases (c : Capability) {base : BitVec 64} {top : BitVec 128}
    (h : base.toNat ≤ top.toNat) (hlen : top.toNat - base.toNat ≤ 2 ^ 64) :
    (top.toNat - base.toNat < 2 ^ 12 ∧ c.setCapBounds base top = (c.unrounded base top, true)) ∨
    ∃ e ≤ 52, 2 ^ (e + 12) ≤ top.toNat - base.toNat ∧ top.toNat - base.toNat < 2 ^ (e + 13) ∧
      c.setCapBounds base top =
        (c.rounded base top (roundedExponent base top e),
          decide (2 ^ (roundedExponent base top e + 3) ∣ base.toNat ∧
            2 ^ (roundedExponent base top e + 3) ∣ top.toNat)) := by
  have hn := toNat_length h
  obtain ⟨hhi, hlo⟩ := @boundsExponent_spec (top - base.setWidth 128) (by omega)
  have hle := boundsExponent_le (top - base.setWidth 128)
  rw [hn] at hhi hlo
  have hbit := toNat_getLsbD (top - base.setWidth 128) 12
  rw [hn] at hbit
  by_cases hie : boundsExponent (top - base.setWidth 128) ≠ 0 ∨
      (top - base.setWidth 128).getLsbD 12 = true
  · refine Or.inr ⟨_, hle, ?_, hhi, setCapBounds_of_ie c rfl hie⟩
    by_cases he : boundsExponent (top - base.setWidth 128) = 0
    · rw [he] at hhi ⊢
      rw [hie.resolve_left (fun hne => hne he), Bool.toNat_true] at hbit
      omega
    · exact hlo he
  · rw [not_or, not_not, Bool.not_eq_true] at hie
    rw [hie.1] at hhi
    rw [hie.2, Bool.toNat_false] at hbit
    exact Or.inl ⟨by omega, setCapBounds_of_not_ie c hie.1 hie.2⟩

/-- The exponent stays in range when the length is the address space only for the address space. -/
theorem roundedExponent_le {base : BitVec 64} {top : BitVec 128} {e : ℕ} (he : e ≤ 52)
    (hlo : 2 ^ (e + 12) ≤ top.toNat - base.toNat)
    (hlen : top.toNat ≤ 2 ^ 64 ∨ top.toNat - base.toNat < 2 ^ 64) :
    roundedExponent base top e ≤ 52 := by
  have hpos := Nat.two_pow_pos (e + 12)
  unfold roundedExponent
  by_cases he52 : e = 52
  · subst he52
    have htop : base.toNat = 0 ∧ top.toNat = 2 ^ 64 := by omega
    have hr : roundedLen base top 52 = 2 ^ 9 := by
      unfold roundedLen
      rw [htop.1, htop.2]
      rfl
    rw [lengthGrows_eq le_rfl (by omega) (by omega), hr]
    rfl
  · split <;> omega

end Capability

end RiscvVp
