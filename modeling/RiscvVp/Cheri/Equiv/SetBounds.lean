import RiscvVp.Cheri.CapCommon
import RiscvVp.Cheri.Equiv.Monotone

/-!
# What bounds are granted

The bounds that are decoded after `setCapBounds` contain the ones asked for, and each end has moved by
less than the `2 ^ (E + 3)` that the ends are multiples of (`setCapBounds_grants`).  A range whose ends
are such multiples already is granted exactly, which is what `CRRL` and `CRAM` compute the length and
the alignment for (`representable_exact`).
-/

namespace RiscvVp

open Rounding

namespace Capability

/-! ### The bounds after rounding -/

/-- What a call of `setCapBounds` for the range from `base` to `top` has to give: the bounds cover the
range, they are exact when the call says so, and each end has moved by less than the unit of the
internal exponent. -/
structure Grants (r : Capability × Bool) (base : BitVec 64) (top : BitVec 128) : Prop where
  base_le : r.1.getBase.toNat ≤ base.toNat
  le_top : top.toNat ≤ r.1.getTop.toNat
  top_le : r.1.getTop.toNat ≤ 2 ^ 64
  exact_iff : r.2 = true ↔ r.1.getBase.toNat = base.toNat ∧ r.1.getTop.toNat = top.toNat
  internal : r.1.internalE = true →
    base.toNat - r.1.getBase.toNat < 2 ^ (r.1.E.toNat + 3) ∧
      r.1.getTop.toNat - top.toNat < 2 ^ (r.1.E.toNat + 3)
  external : r.1.internalE = false →
    base.toNat - r.1.getBase.toNat = 0 ∧ r.1.getTop.toNat - top.toNat = 0

/-- A number is rounded down to itself when it is a multiple. -/
theorem div_mul_eq_iff {a b : ℕ} : a / b * b = a ↔ b ∣ a :=
  ⟨fun h => ⟨a / b, by rw [Nat.mul_comm]; exact h.symm⟩, Nat.div_mul_cancel⟩

/-- A number is rounded up to itself when it is a multiple. -/
theorem ceilDiv_mul_eq_iff {a b : ℕ} (hb : 0 < b) : a ⌈/⌉ b * b = a ↔ b ∣ a := by
  constructor
  · intro h
    exact ⟨a ⌈/⌉ b, by rw [Nat.mul_comm]; exact h.symm⟩
  · rintro ⟨k, rfl⟩
    have hle : b * k ≤ b * ((b * k) ⌈/⌉ b) := (ceilDiv_le_iff_le_mul hb).1 le_rfl
    have hge := ceilDiv_mul_le hb (Nat.dvd_mul_right b k) le_rfl
    rw [Nat.mul_comm _ b] at hge ⊢
    omega

/-- Rounded bounds cover the range, and the flag says whether they cover nothing else. -/
theorem grants_rounded (c : Capability) {base : BitVec 64} {top : BitVec 128} {E : ℕ} (hE : E ≤ 52)
    (h : base.toNat ≤ top.toNat) (htop : top.toNat ≤ 2 ^ 64) (hlo : 2 ^ 9 ≤ roundedLen base top E)
    (hhi : roundedLen base top E < 2 ^ 10) :
    Grants (c.rounded base top E,
      decide (2 ^ (E + 3) ∣ base.toNat ∧ 2 ^ (E + 3) ∣ top.toNat)) base top := by
  have hpos := Nat.two_pow_pos (E + 3)
  have hb := @toNat_getBase_rounded c base top E hE
  have ht := toNat_getTop_rounded c hE h hlo hhi (fun _ => htop)
  have hfloor := Nat.div_mul_le_self base.toNat (2 ^ (E + 3))
  have hfloor' := Nat.lt_div_mul_add (a := base.toNat) hpos
  have hceil : top.toNat ≤ 2 ^ (E + 3) * (top.toNat ⌈/⌉ 2 ^ (E + 3)) :=
    (ceilDiv_le_iff_le_mul hpos).1 le_rfl
  have hceil' := ceilDiv_mul_lt top.toNat hpos
  rw [Nat.mul_comm] at hceil
  refine ⟨?_, ?_, ?_, ?_, fun _ => ?_, nofun⟩
  · rw [hb]
    exact hfloor
  · rw [ht]
    exact hceil
  · rw [ht]
    exact ceilDiv_mul_le hpos (Nat.pow_dvd_pow 2 (by omega)) htop
  · rw [decide_eq_true_iff, hb, ht, div_mul_eq_iff, ceilDiv_mul_eq_iff hpos]
  · rw [hb, ht, toNat_rounded_E c hE]
    omega

/-- Bounds that fit the mantissa are the range itself. -/
theorem grants_unrounded (c : Capability) {base : BitVec 64} {top : BitVec 128}
    (h : base.toNat ≤ top.toNat) (htop : top.toNat ≤ 2 ^ 64)
    (hlt : top.toNat - base.toNat < 2 ^ 12) : Grants (c.unrounded base top, true) base top := by
  obtain ⟨hb, ht⟩ := toNat_getCapBounds_unrounded c h hlt
  refine ⟨hb.le, ht.ge, ht.le.trans htop, ?_, nofun, fun _ => ?_⟩
  · simp only [hb, ht, and_self]
  · rw [hb, ht, Nat.sub_self, Nat.sub_self]
    exact ⟨rfl, rfl⟩

/-- **Setting bounds** on any capability grants bounds that cover the range asked for, exactly when
the call says so, and rounded by less than the unit of the exponent. -/
theorem setCapBounds_grants (c : Capability) (base : BitVec 64) (top : BitVec 128)
    (h : base.toNat ≤ top.toNat) (htop : top.toNat ≤ 2 ^ 64) :
    Grants (c.setCapBounds base top) base top := by
  rcases setCapBounds_cases c h (by omega) with ⟨hlt, heq⟩ | ⟨e, he, hlo, hhi, heq⟩
  · rw [heq]
    exact grants_unrounded c h htop hlt
  · obtain ⟨h1, h2⟩ := roundedLen_bounds he h hlo hhi
    rw [heq]
    exact grants_rounded c (roundedExponent_le he hlo (Or.inl htop)) h htop h1 h2

/-- A range whose length is one below a power of two, with odd ends. -/
theorem setCapBounds_grants_odd :
    ((0x1001 : BitVec 64).toNat ≤ (0x3000 : BitVec 128).toNat ∧
      (cNullCap.setCapBounds 0x1001 0x3000).2 = false) ∧
    Grants (cNullCap.setCapBounds 0x1001 0x3000) 0x1001 0x3000 :=
  ⟨by decide, setCapBounds_grants cNullCap 0x1001 0x3000 (by decide) (by decide)⟩

/-! ### Ranges that need no rounding -/

/-- The exponent is the one that the length asks for. -/
theorem exponent_unique {e E n : ℕ} (hlo : 2 ^ (e + 12) ≤ n) (hhi : n < 2 ^ (e + 13))
    (hlo' : 2 ^ (E + 12) ≤ n) (hhi' : n < 2 ^ (E + 13)) : e = E := by
  have h1 := (Nat.pow_lt_pow_iff_right (by omega : 1 < 2)).1 (hlo.trans_lt hhi')
  have h2 := (Nat.pow_lt_pow_iff_right (by omega : 1 < 2)).1 (hlo'.trans_lt hhi)
  omega

/-- **A range of aligned ends** is granted exactly, with the exponent of its length. -/
theorem setCapBounds_aligned (c : Capability) {base : BitVec 64} {top : BitVec 128} {E : ℕ}
    (h : base.toNat ≤ top.toNat) (hlen : top.toNat - base.toNat ≤ 2 ^ 64)
    (hlo : 2 ^ (E + 12) ≤ top.toNat - base.toNat) (hhi : top.toNat - base.toNat < 2 ^ (E + 13))
    (hb : 2 ^ (E + 3) ∣ base.toNat) (ht : 2 ^ (E + 3) ∣ top.toNat) :
    c.setCapBounds base top = (c.rounded base top E, true) := by
  have hpos := Nat.two_pow_pos (E + 3)
  rcases setCapBounds_cases c h hlen with ⟨hlt, -⟩ | ⟨e, he, hlo', hhi', heq⟩
  · have : 2 ^ 12 ≤ 2 ^ (E + 12) := Nat.pow_le_pow_right (by omega) (by omega)
    omega
  · obtain rfl := exponent_unique hlo' hhi' hlo hhi
    -- no end moves, so the rounded length is the length and does not overflow
    have hlen10 : roundedLen base top e < 2 ^ 10 := by
      refine Nat.lt_of_mul_lt_mul_right (a := 2 ^ (e + 3)) ?_
      rw [roundedLen, Nat.sub_mul, (ceilDiv_mul_eq_iff hpos).2 ht, div_mul_eq_iff.2 hb,
        ← Nat.pow_add, show 10 + (e + 3) = e + 13 by omega]
      exact hhi
    have hexp : roundedExponent base top e = e := by
      rw [roundedExponent, lengthGrows_eq he h (by omega), decide_eq_false (by omega)]
      rfl
    rw [heq, hexp, decide_eq_true ⟨hb, ht⟩]

/-- A short range is granted exactly: below 4 KiB the bounds need no exponent. -/
theorem setCapBounds_short (c : Capability) {base : BitVec 64} {top : BitVec 128}
    (h : base.toNat ≤ top.toNat) (hlt : top.toNat - base.toNat < 2 ^ 12) :
    c.setCapBounds base top = (c.unrounded base top, true) := by
  rcases setCapBounds_cases c h (by omega) with ⟨-, heq⟩ | ⟨e, -, hlo, -, -⟩
  · exact heq
  · have : 2 ^ 12 ≤ 2 ^ (e + 12) := Nat.pow_le_pow_right (by omega) (by omega)
    omega

end Capability

open Capability

/-! ### Representable lengths -/

/-- The number of low bits that the mask for a length clears. -/
def alignmentBits (len : BitVec 64) : ℕ :=
  let c := (cDefaultCap.setCapBounds 0 (len.setWidth 128)).1
  if c.internalE then min cCapMaxE c.E.toNat + 3 else 0

theorem alignmentBits_le (len : BitVec 64) : alignmentBits len ≤ 55 := by
  have h : ∀ n, min cCapMaxE n ≤ 52 := fun n => Nat.min_le_left _ _
  unfold alignmentBits
  dsimp only
  split
  · exact Nat.add_le_add_right (h _) 3
  · exact Nat.zero_le _

/-- A mask that clears `k` bits, as a number. -/
theorem toNat_allOnes_shiftLeft {k : ℕ} (hk : k < 64) :
    (BitVec.allOnes 64 <<< k).toNat = 2 ^ 64 - 2 ^ k := by
  have hP := Nat.two_pow_pos k
  have hlt : 2 ^ k < 2 ^ 64 := Nat.pow_lt_pow_right (by omega) hk
  have hmul : (2 ^ 64 - 1) * 2 ^ k = 2 ^ 64 * (2 ^ k - 1) + (2 ^ 64 - 2 ^ k) := by
    rw [Nat.sub_mul, Nat.mul_sub, Nat.one_mul]
    omega
  rw [BitVec.toNat_shiftLeft, BitVec.toNat_allOnes, Nat.shiftLeft_eq, hmul, Nat.mul_add_mod,
    Nat.mod_eq_of_lt (by omega)]

/-- The mask clears low bits and keeps the others. -/
theorem getRepresentableAlignmentMask_eq (len : BitVec 64) :
    getRepresentableAlignmentMask len = BitVec.allOnes 64 <<< alignmentBits len := by
  have hmin : ∀ n : ℕ, (if n < cCapMaxE then n else cCapMaxE) = min cCapMaxE n := by
    intro n
    rw [Nat.min_def]
    split <;> split <;> omega
  have hshape : getRepresentableAlignmentMask len =
      if alignmentBits len = 0 then 0xFFFFFFFFFFFFFFFF
      else ((1#64 <<< (64 - alignmentBits len)) - 1) <<< alignmentBits len := by
    unfold getRepresentableAlignmentMask alignmentBits
    dsimp only
    rw [hmin]
    rfl
  have hle := alignmentBits_le len
  rw [hshape]
  generalize alignmentBits len = k at hle ⊢
  by_cases hk : k = 0
  · subst hk
    rfl
  · rw [if_neg hk]
    apply BitVec.eq_of_toNat_eq
    have hP := Nat.two_pow_pos k
    have hQ : 2 ^ (64 - k) < 2 ^ 64 := Nat.pow_lt_pow_right (by omega) (by omega)
    have hQ1 := Nat.two_pow_pos (64 - k)
    have hPQ : 2 ^ (64 - k) * 2 ^ k = 2 ^ 64 := by rw [← Nat.pow_add, Nat.sub_add_cancel (by omega)]
    have h1 : (1#64).toNat = 1 := rfl
    have hone : (1#64 <<< (64 - k)).toNat = 2 ^ (64 - k) := by
      rw [BitVec.toNat_shiftLeft, Nat.shiftLeft_eq, h1, Nat.one_mul, Nat.mod_eq_of_lt hQ]
    have hsub : (1#64 <<< (64 - k) - 1).toNat = 2 ^ (64 - k) - 1 := by
      show (1#64 <<< (64 - k) - 1#64).toNat = _
      rw [BitVec.toNat_sub, hone, h1]
      omega
    rw [toNat_allOnes_shiftLeft (by omega), BitVec.toNat_shiftLeft, hsub, Nat.shiftLeft_eq,
      Nat.sub_mul, hPQ, Nat.one_mul, Nat.mod_eq_of_lt (by omega)]

/-- What a mask leaves of a word. -/
theorem toNat_and_mask (x : BitVec 64) (k : ℕ) :
    (x &&& BitVec.allOnes 64 <<< k).toNat = x.toNat / 2 ^ k * 2 ^ k := by
  have hx := x.isLt
  have heq : x &&& BitVec.allOnes 64 <<< k = (x >>> k) <<< k := by
    apply BitVec.eq_of_getLsbD_eq
    intro j hj
    rw [BitVec.getLsbD_and, BitVec.getLsbD_shiftLeft, BitVec.getLsbD_shiftLeft,
      BitVec.getLsbD_ushiftRight, BitVec.getLsbD_allOnes]
    by_cases hjk : j < k
    · simp [hjk]
    · have hsum : k + (j - k) = j := by omega
      have h64 : j - k < 64 := by omega
      simp only [hj, hjk, hsum, h64, decide_true, decide_false, Bool.not_false, Bool.true_and,
        Bool.and_true]
  have hle := Nat.div_mul_le_self x.toNat (2 ^ k)
  rw [heq, BitVec.toNat_shiftLeft, BitVec.toNat_ushiftRight, Nat.shiftRight_eq_div_pow,
    Nat.shiftLeft_eq, Nat.mod_eq_of_lt (by omega)]

/-- The words that a mask keeps are the multiples. -/
theorem and_mask_eq_iff (x : BitVec 64) (k : ℕ) :
    x &&& BitVec.allOnes 64 <<< k = x ↔ 2 ^ k ∣ x.toNat := by
  rw [← BitVec.toNat_inj, toNat_and_mask, div_mul_eq_iff]

/-- The alignment is what the mask lacks. -/
theorem two_pow_alignmentBits (len : BitVec 64) :
    2 ^ 64 - (getRepresentableAlignmentMask len).toNat = 2 ^ alignmentBits len := by
  have hle := alignmentBits_le len
  have hlt : 2 ^ alignmentBits len < 2 ^ 64 := Nat.pow_lt_pow_right (by omega) (by omega)
  rw [getRepresentableAlignmentMask_eq, toNat_allOnes_shiftLeft (by omega)]
  exact Nat.sub_sub_self hlt.le

/-- The representable length is the length rounded up, unless that is the address space. -/
theorem toNat_getRepresentableLength {len : BitVec 64}
    (h : len.toNat ⌈/⌉ 2 ^ alignmentBits len * 2 ^ alignmentBits len < 2 ^ 64) :
    (getRepresentableLength len).toNat
      = len.toNat ⌈/⌉ 2 ^ alignmentBits len * 2 ^ alignmentBits len := by
  have hle := alignmentBits_le len
  unfold getRepresentableLength
  dsimp only
  rw [getRepresentableAlignmentMask_eq, toNat_and_mask]
  generalize alignmentBits len = k at *
  have hP := Nat.two_pow_pos k
  have hlt : 2 ^ k < 2 ^ 64 := Nat.pow_lt_pow_right (by omega) (by omega)
  -- the multiple above the length leaves room for one more
  have hroom : len.toNat ⌈/⌉ 2 ^ k * 2 ^ k + 2 ^ k ≤ 2 ^ 64 := by
    have hdvd : 2 ^ k ∣ 2 ^ 64 := Nat.pow_dvd_pow 2 (by omega)
    obtain ⟨q, hq⟩ := hdvd
    rw [hq, Nat.mul_comm (2 ^ k)] at h
    have := Nat.lt_of_mul_lt_mul_right h
    calc len.toNat ⌈/⌉ 2 ^ k * 2 ^ k + 2 ^ k = (len.toNat ⌈/⌉ 2 ^ k + 1) * 2 ^ k := by
          rw [Nat.add_mul, Nat.one_mul]
      _ ≤ q * 2 ^ k := Nat.mul_le_mul_right _ this
      _ = 2 ^ 64 := by rw [hq, Nat.mul_comm]
  have hup : len.toNat ≤ 2 ^ k * (len.toNat ⌈/⌉ 2 ^ k) := (ceilDiv_le_iff_le_mul hP).1 le_rfl
  rw [Nat.mul_comm] at hup
  have hnot : (~~~(BitVec.allOnes 64 <<< k)).toNat = 2 ^ k - 1 := by
    rw [BitVec.toNat_not, toNat_allOnes_shiftLeft (by omega)]
    omega
  rw [BitVec.toNat_add, hnot, Nat.mod_eq_of_lt (by omega), Nat.ceilDiv_eq_add_pred_div,
    Nat.add_sub_assoc (by omega)]

/-- The alignment of bounds with an internal exponent. -/
theorem alignmentBits_of_rounded {len : BitVec 64} {E : ℕ} (hE : E ≤ 52)
    (h : (cDefaultCap.setCapBounds 0 (len.setWidth 128)).1
      = cDefaultCap.rounded 0 (len.setWidth 128) E) : alignmentBits len = E + 3 := by
  unfold alignmentBits
  dsimp only
  rw [h, toNat_rounded_E _ hE]
  show min 52 E + 3 = E + 3
  rw [Nat.min_eq_right hE]

/-- The range from zero to a length. -/
theorem toNat_setWidth_len (len : BitVec 64) :
    (len.setWidth 128).toNat - (0 : BitVec 64).toNat = len.toNat := by
  have hlt := len.isLt
  rw [BitVec.toNat_setWidth, Nat.mod_eq_of_lt (by omega)]
  rfl

/-- A short length needs no alignment, so that every range of that length is granted exactly. -/
theorem alignmentBits_of_short {len : BitVec 64} (h : len.toNat < 2 ^ 12) : alignmentBits len = 0 := by
  have heq := @setCapBounds_short cDefaultCap 0 (len.setWidth 128) (Nat.zero_le _)
    (by rw [toNat_setWidth_len]; exact h)
  unfold alignmentBits
  dsimp only
  rw [heq]
  rfl

/-- A length in the second quarter of the mantissa that needs no rounding keeps its alignment. -/
theorem alignmentBits_of_aligned {len : BitVec 64} {E : ℕ} (hE : E ≤ 52)
    (hlo : 2 ^ (E + 12) ≤ len.toNat) (hhi : len.toNat < 2 ^ (E + 13))
    (hdvd : 2 ^ (E + 3) ∣ len.toNat) : alignmentBits len = E + 3 := by
  have hlt := len.isLt
  have hlen := toNat_setWidth_len len
  have heq := @setCapBounds_aligned cDefaultCap 0 (len.setWidth 128) E (Nat.zero_le _)
    (by rw [hlen]; exact hlt.le) (by rw [hlen]; exact hlo) (by rw [hlen]; exact hhi)
    (Nat.dvd_zero _) (by rw [← hlen] at hdvd; exact hdvd)
  exact alignmentBits_of_rounded hE (by rw [heq])

/-- The alignment for a length: none when it fits the mantissa, and otherwise the one with which the
rounded length is in the second quarter of the mantissa. -/
theorem alignmentBits_cases (len : BitVec 64) :
    len.toNat < 2 ^ 12 ∨
    ∃ E ≤ 52, alignmentBits len = E + 3 ∧ 2 ^ 9 ≤ len.toNat ⌈/⌉ 2 ^ (E + 3) ∧
      len.toNat ⌈/⌉ 2 ^ (E + 3) < 2 ^ 10 := by
  have hlt := len.isLt
  have hlen := toNat_setWidth_len len
  have hle : (0 : BitVec 64).toNat ≤ (len.setWidth 128).toNat := Nat.zero_le _
  rcases setCapBounds_cases cDefaultCap hle (by omega) with ⟨hs, -⟩ | ⟨e, he, hlo, hhi, heq⟩
  · exact Or.inl (by omega)
  · have h64 : (len.setWidth 128).toNat ≤ 2 ^ 64 := by
      rw [show (0 : BitVec 64).toNat = 0 from rfl, Nat.sub_zero] at hlen
      omega
    have hE := roundedExponent_le he hlo (Or.inl h64)
    obtain ⟨h1, h2⟩ := roundedLen_bounds he hle hlo hhi
    refine Or.inr ⟨_, hE, alignmentBits_of_rounded hE (by rw [heq]), ?_⟩
    unfold roundedLen at h1 h2
    rw [show (0 : BitVec 64).toNat = 0 from rfl, Nat.sub_zero] at hlen
    rw [hlen, show (0 : BitVec 64).toNat = 0 from rfl, Nat.zero_div, Nat.sub_zero] at h1 h2
    exact ⟨h1, h2⟩

/-- A representable length keeps its alignment, and a range of it from an aligned base is granted
exactly. -/
theorem getRepresentableLength_spec {len : BitVec 64}
    (h : len.toNat ⌈/⌉ 2 ^ alignmentBits len * 2 ^ alignmentBits len < 2 ^ 64) :
    alignmentBits (getRepresentableLength len) = alignmentBits len ∧
    ∀ (c : Capability) {base : BitVec 64} {top : BitVec 128}, 2 ^ alignmentBits len ∣ base.toNat →
      top.toNat = base.toNat + (getRepresentableLength len).toNat →
      (c.setCapBounds base top).2 = true := by
  have hr := toNat_getRepresentableLength h
  rcases alignmentBits_cases len with hs | ⟨E, hE, hk, h9, h10⟩
  · rw [alignmentBits_of_short hs] at hr ⊢
    rw [Nat.pow_zero, Nat.mul_one, ceilDiv_one] at hr
    refine ⟨alignmentBits_of_short (by omega), ?_⟩
    intro c base top _ htop
    rw [setCapBounds_short c (by omega) (by omega)]
  · rw [hk] at hr ⊢
    have hlo : 2 ^ (E + 12) ≤ (getRepresentableLength len).toNat := by
      rw [hr, show E + 12 = 9 + (E + 3) by omega, Nat.pow_add]
      exact Nat.mul_le_mul_right _ h9
    have hhi : (getRepresentableLength len).toNat < 2 ^ (E + 13) := by
      rw [hr, show E + 13 = 10 + (E + 3) by omega, Nat.pow_add 2 10]
      exact Nat.mul_lt_mul_of_pos_right h10 (Nat.two_pow_pos _)
    have hdvd : 2 ^ (E + 3) ∣ (getRepresentableLength len).toNat := by
      rw [hr]
      exact Nat.dvd_mul_left _ _
    refine ⟨alignmentBits_of_aligned hE hlo hhi hdvd, ?_⟩
    intro c base top hb htop
    have hlt := (getRepresentableLength len).isLt
    rw [@setCapBounds_aligned c base top E (by omega) (by omega) (by omega) (by omega) hb
      (by rw [htop]; exact Nat.dvd_add hb hdvd)]

/-- **`CRRL` and `CRAM` agree with `CSetBounds`**: unless it rounds up to the address space, the
representable length is the least multiple of the alignment that is not below the length, every range
of it from an aligned base is granted exactly, and it is its own representable length with an
alignment that keeps the base. -/
theorem representable_exact (len : BitVec 64)
    (h : len.toNat ⌈/⌉ (2 ^ 64 - (getRepresentableAlignmentMask len).toNat)
      * (2 ^ 64 - (getRepresentableAlignmentMask len).toNat) < 2 ^ 64) :
    let m := getRepresentableAlignmentMask len
    let r := getRepresentableLength len
    IsLeast {k | 2 ^ 64 - m.toNat ∣ k ∧ len.toNat ≤ k} r.toNat ∧
    (∀ (c : Capability) (base : BitVec 64), base = base &&& m → base.toNat + r.toNat ≤ 2 ^ 64 →
      (c.setCapBounds base (base.setWidth 128 + r.setWidth 128)).2 = true) ∧
    getRepresentableLength r = r ∧
    ∀ base : BitVec 64, base = base &&& m → base = base &&& getRepresentableAlignmentMask r := by
  intro m r
  have hpow := two_pow_alignmentBits len
  have hP := Nat.two_pow_pos (alignmentBits len)
  rw [hpow] at h
  obtain ⟨hbits, hexact⟩ := getRepresentableLength_spec h
  have hr := toNat_getRepresentableLength h
  -- rounding the length up does not change its alignment
  have hmask : getRepresentableAlignmentMask r = m := by
    show getRepresentableAlignmentMask (getRepresentableLength len) = getRepresentableAlignmentMask len
    rw [getRepresentableAlignmentMask_eq, getRepresentableAlignmentMask_eq, hbits]
  have hkeep : ∀ base : BitVec 64, base = base &&& m → 2 ^ alignmentBits len ∣ base.toNat := by
    intro base hb
    rw [← and_mask_eq_iff, ← getRepresentableAlignmentMask_eq]
    exact hb.symm
  have hdvd : 2 ^ alignmentBits len ∣ r.toNat := by
    show _ ∣ (getRepresentableLength len).toNat
    rw [hr]
    exact Nat.dvd_mul_left _ _
  refine ⟨⟨⟨?_, ?_⟩, ?_⟩, ?_, ?_, ?_⟩
  · rw [hpow]
    exact hdvd
  · show len.toNat ≤ (getRepresentableLength len).toNat
    rw [hr, Nat.mul_comm]
    exact (ceilDiv_le_iff_le_mul hP).1 le_rfl
  · rintro k ⟨hk, hle⟩
    rw [hpow] at hk
    show (getRepresentableLength len).toNat ≤ k
    rw [hr]
    exact ceilDiv_mul_le hP hk hle
  · intro c base hb hsum
    apply hexact c (hkeep base hb)
    have hbase := base.isLt
    show _ = base.toNat + r.toNat
    rw [BitVec.toNat_add, BitVec.toNat_setWidth, BitVec.toNat_setWidth]
    omega
  · -- a multiple of the alignment is not rounded again
    have hself : r.toNat ⌈/⌉ 2 ^ alignmentBits r * 2 ^ alignmentBits r = r.toNat := by
      rw [hbits]
      exact (ceilDiv_mul_eq_iff hP).2 hdvd
    apply BitVec.eq_of_toNat_eq
    rw [toNat_getRepresentableLength (by rw [hself]; exact r.isLt), hself]
  · intro base hb
    rw [hmask]
    exact hb

/-- A length that is rounded up to the next power of two, so that its exponent is one larger. -/
theorem representable_exact_carry :
    getRepresentableLength 0x1FFF = 0x2000 ∧
    ((cNullCap.setCapBounds 0x7000 (BitVec.setWidth 128 (0x7000 : BitVec 64)
      + BitVec.setWidth 128 (getRepresentableLength 0x1FFF))).2 = true) :=
  ⟨by decide, (representable_exact 0x1FFF (by decide)).2.1 cNullCap 0x7000
    (by decide) (by decide)⟩

end RiscvVp
