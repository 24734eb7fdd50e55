import RiscvVp.Vec.Equiv.Rounding

/-!
# The 128-bit product

`multiply` puts the product of two 64-bit numbers together from products of 32-bit halves, with the
carries between the words added by hand.  The two words it gets are those of the exact product
(`mulWords_eq`), so shifting them to the right and adding the rounding increment rounds the exact product
(`multiply_spec`).
-/

namespace RiscvVp.Vec

/-- The two words of the product before the shift, of operands that may be signed or not. -/
def mulWords (op2Signed op1Signed : Bool) (op2 op1 : BitVec 64) : BitVec 64 × BitVec 64 :=
  let aHigh := shr op2Signed op2 32
  let aLow := op2 &&& 0xFFFFFFFF
  let bHigh := shr op1Signed op1 32
  let bLow := op1 &&& 0xFFFFFFFF
  let t0 := aLow * bLow
  let t1 := aLow * bHigh
  let t2 := aHigh * bLow
  let t3 := aHigh * bHigh
  let carry := (t0 >>> 32) + (t1 &&& 0xFFFFFFFF) + (t2 &&& 0xFFFFFFFF)
  (t3 + (shr op1Signed t1 32 + shr op2Signed t2 32 + shr op2Signed carry 32),
    (carry <<< 32) ||| (t0 &&& 0xFFFFFFFF))

theorem signExtend_64 (x : BitVec 64) : signExtend x 64 = x := by
  unfold signExtend
  simp

/-- `multiply` shifts the two words and rounds.  A signed `U` goes only with a signed `T`. -/
theorem multiply_eq {op2Signed op1Signed : Bool} (hsigns : op1Signed = true → op2Signed = true)
    (vxrm : BitVec 2) (op2 op1 : BitVec 64) (shift : ℕ) (round : Bool) :
    multiply op2Signed op1Signed vxrm op2 op1 shift round =
      let words := mulWords op2Signed op1Signed op2 op1
      let shifted := (if shift = 64 then 0 else words.2 >>> shift) |||
        (words.1 &&& getMask shift) <<< (64 - shift)
      (words.1 >>> shift,
        if round then shifted + getRoundingIncrement vxrm false words.2 shift else shifted) := by
  unfold multiply
  simp only [signExtend_64]
  cases op2Signed <;> cases op1Signed
  · rfl
  · exact absurd (hsigns rfl) (by decide)
  · rfl
  · rfl

/-! ### Words as numbers -/

theorem value_true_word (x : BitVec 64) : value true 64 x = x.toInt := by
  rw [value, if_pos rfl, BitVec.toInt_eq_toNat_bmod]

theorem value_false_word (x : BitVec 64) : value false 64 x = x.toNat := value_false_of_lt x.isLt

/-- A word is the residue of the number it stands for. -/
theorem toNat_eq_value_emod (signed : Bool) (x : BitVec 64) : (x.toNat : ℤ) = value signed 64 x % 2 ^ 64 := by
  have hlt := x.isLt
  cases signed
  · rw [value_false_word]
    omega
  · rw [value_true_word, BitVec.toInt_eq_toNat_cond]
    split_ifs <;> omega

/-- The numbers that a word can stand for. -/
def InWord (signed : Bool) (z : ℤ) : Prop :=
  if signed then -2 ^ 63 ≤ z ∧ z < 2 ^ 63 else 0 ≤ z ∧ z < 2 ^ 64

theorem inWord_value (signed : Bool) (x : BitVec 64) : InWord signed (value signed 64 x) := by
  unfold InWord
  cases signed
  · rw [value_false_word, if_neg (by decide)]
    have := x.isLt
    omega
  · rw [value_true_word, if_pos rfl]
    have hge := BitVec.le_toInt x
    have hlt := BitVec.toInt_lt (x := x)
    omega

/-- A number that a word can stand for is determined by its residue. -/
theorem value_eq_of_inWord {signed : Bool} {x : BitVec 64} {z : ℤ} (hz : InWord signed z)
    (hx : (x.toNat : ℤ) = z % 2 ^ 64) : value signed 64 x = z := by
  have hv := inWord_value signed x
  rw [toNat_eq_value_emod signed] at hx
  unfold InWord at hz hv
  split_ifs at hz hv <;> omega

/-! ### Halves of words -/

theorem and_low (x : BitVec 64) : (x &&& 0xFFFFFFFF).toNat = x.toNat % 2 ^ 32 := by
  rw [← toNat_and_getMask x (show 32 ≤ 64 by decide)]
  congr 2

/-- The upper half of a word, with its sign, is the quotient by `2 ^ 32`. -/
theorem value_high (signed : Bool) (x : BitVec 64) :
    value signed 64 (shr signed x 32) = value signed 64 x / 2 ^ 32 := by
  cases signed
  · rw [shr, if_neg (by decide), value_false_word, value_false_word, BitVec.toNat_ushiftRight,
      Nat.shiftRight_eq_div_pow, Int.natCast_ediv]
    rfl
  · rw [shr, if_pos rfl, value_true_word, value_true_word, BitVec.toInt_sshiftRight,
      Int.shiftRight_eq_div_pow]
    rfl

/-- The lower half of a word is the remainder by `2 ^ 32`, signed or not. -/
theorem toNat_low (signed : Bool) (x : BitVec 64) :
    ((x &&& 0xFFFFFFFF).toNat : ℤ) = value signed 64 x % 2 ^ 32 := by
  have h := toNat_eq_value_emod signed x
  rw [and_low]
  omega

/-- The range of the upper half of a word. -/
theorem high_range (signed : Bool) (x : BitVec 64) :
    if signed then -2 ^ 31 ≤ value signed 64 x / 2 ^ 32 ∧ value signed 64 x / 2 ^ 32 < 2 ^ 31
    else 0 ≤ value signed 64 x / 2 ^ 32 ∧ value signed 64 x / 2 ^ 32 < 2 ^ 32 := by
  have h := inWord_value signed x
  unfold InWord at h
  cases signed
  · rw [if_neg (by decide)] at h ⊢
    omega
  · rw [if_pos rfl] at h ⊢
    omega

/-- A product of words is the residue of the product of their numbers. -/
theorem toNat_mul_emod {x y : BitVec 64} {p q : ℤ} (hx : (x.toNat : ℤ) = p % 2 ^ 64)
    (hy : (y.toNat : ℤ) = q % 2 ^ 64) : ((x * y).toNat : ℤ) = p * q % 2 ^ 64 := by
  rw [BitVec.toNat_mul, Int.natCast_emod, Nat.cast_mul, hx, hy, Nat.cast_pow, Nat.cast_ofNat]
  exact (Int.mul_emod p q (2 ^ 64)).symm

/-- A product of a lower and an upper half fits into a word. -/
theorem inWord_half_mul {signed : Bool} {x y : ℤ} (hx : 0 ≤ x) (hx' : x < 2 ^ 32)
    (hy : if signed then -2 ^ 31 ≤ y ∧ y < 2 ^ 31 else 0 ≤ y ∧ y < 2 ^ 32) : InWord signed (x * y) := by
  unfold InWord
  split_ifs at hy ⊢
  · constructor <;> nlinarith
  · constructor <;> nlinarith

/-- The lower word: the middle products are added where they overlap the lowest one. -/
theorem toNat_lowerWord {carry t0 : BitVec 64} :
    ((carry <<< 32) ||| (t0 &&& 0xFFFFFFFF)).toNat = 2 ^ 32 * (carry.toNat % 2 ^ 32) + t0.toNat % 2 ^ 32 := by
  have hshift : (carry <<< 32).toNat = 2 ^ 32 * (carry.toNat % 2 ^ 32) := by
    rw [BitVec.toNat_shiftLeft, Nat.shiftLeft_eq]
    omega
  rw [BitVec.toNat_or, and_low, hshift,
    Nat.two_pow_add_eq_or_of_lt (Nat.mod_lt _ (Nat.two_pow_pos 32))]

/-- What is carried from the lower word into the upper. -/
theorem toNat_carry (s2 s1 : Bool) (t0 t1 t2 : BitVec 64) :
    (((t0 >>> 32) + (t1 &&& 0xFFFFFFFF) + (t2 &&& 0xFFFFFFFF)).toNat : ℤ)
      = t0.toNat / 2 ^ 32 + value s1 64 t1 % 2 ^ 32 + value s2 64 t2 % 2 ^ 32 := by
  have hlt := t0.isLt
  have hl1 := toNat_low s1 t1
  have hl2 := toNat_low s2 t2
  rw [BitVec.toNat_add, BitVec.toNat_add, BitVec.toNat_ushiftRight, Nat.shiftRight_eq_div_pow]
  generalize t1 &&& 0xFFFFFFFF = l1 at *
  generalize t2 &&& 0xFFFFFFFF = l2 at *
  omega

/-- The upper word collects the product of the upper halves and what the other three products carry into it. -/
theorem toNat_upperWord (s2 s1 : Bool) (t1 t2 t3 carry : BitVec 64) {p : ℤ}
    (hcarry : carry.toNat < 2 ^ 63) (ht3 : (t3.toNat : ℤ) = p % 2 ^ 64) :
    ((t3 + (shr s1 t1 32 + shr s2 t2 32 + shr s2 carry 32)).toNat : ℤ)
      = (p + (value s1 64 t1 / 2 ^ 32 + value s2 64 t2 / 2 ^ 32 + carry.toNat / 2 ^ 32)) % 2 ^ 64 := by
  -- a small number stands for itself, signed or not
  have hsmall : value s2 64 carry = carry.toNat := by
    refine value_eq_of_inWord ?_ (by omega)
    unfold InWord
    split_ifs <;> omega
  have h1 := toNat_eq_value_emod s1 (shr s1 t1 32)
  have h2 := toNat_eq_value_emod s2 (shr s2 t2 32)
  have hc := toNat_eq_value_emod s2 (shr s2 carry 32)
  rw [value_high] at h1 h2 hc
  rw [hsmall] at hc
  rw [BitVec.toNat_add, BitVec.toNat_add, BitVec.toNat_add]
  omega

/-- The words put together from the products of the halves. -/
theorem words_eq (s2 s1 : Bool) (t0 t1 t2 t3 : BitVec 64) {p h : ℤ} (ht3 : (t3.toNat : ℤ) = h % 2 ^ 64)
    (hp : p = 2 ^ 64 * h + 2 ^ 32 * (value s1 64 t1 + value s2 64 t2) + t0.toNat) :
    let carry := (t0 >>> 32) + (t1 &&& 0xFFFFFFFF) + (t2 &&& 0xFFFFFFFF)
    (((carry <<< 32) ||| (t0 &&& 0xFFFFFFFF)).toNat : ℤ) = p % 2 ^ 64 ∧
      ((t3 + (shr s1 t1 32 + shr s2 t2 32 + shr s2 carry 32)).toNat : ℤ) = p / 2 ^ 64 % 2 ^ 64 := by
  intro carry
  have hlt := t0.isLt
  have hcarry : (carry.toNat : ℤ) = _ := toNat_carry s2 s1 t0 t1 t2
  constructor
  · rw [toNat_lowerWord]
    push_cast
    rw [hcarry]
    omega
  · rw [toNat_upperWord s2 s1 _ _ _ _ (by omega) ht3, hcarry]
    omega

/-- **The product.**  The two words are those of the exact product. -/
theorem mulWords_eq (s2 s1 : Bool) (op2 op1 : BitVec 64) :
    ((mulWords s2 s1 op2 op1).2.toNat : ℤ) = value s2 64 op2 * value s1 64 op1 % 2 ^ 64 ∧
      ((mulWords s2 s1 op2 op1).1.toNat : ℤ) = value s2 64 op2 * value s1 64 op1 / 2 ^ 64 % 2 ^ 64 := by
  have hal := Int.emod_nonneg (value s2 64 op2) (show (2 : ℤ) ^ 32 ≠ 0 by norm_num)
  have hal' := Int.emod_lt_of_pos (value s2 64 op2) (show (0 : ℤ) < 2 ^ 32 by norm_num)
  have hbl := Int.emod_nonneg (value s1 64 op1) (show (2 : ℤ) ^ 32 ≠ 0 by norm_num)
  have hbl' := Int.emod_lt_of_pos (value s1 64 op1) (show (0 : ℤ) < 2 ^ 32 by norm_num)
  -- the residues of the halves
  have hlow (s : Bool) (x : BitVec 64) :
      ((x &&& 0xFFFFFFFF).toNat : ℤ) = value s 64 x % 2 ^ 32 % 2 ^ 64 := by
    rw [toNat_low s x]
    omega
  have hhigh (s : Bool) (x : BitVec 64) :
      ((shr s x 32).toNat : ℤ) = value s 64 x / 2 ^ 32 % 2 ^ 64 := by
    rw [toNat_eq_value_emod s, value_high]
  -- three of the four products of halves are exact
  have h0 : value false 64 ((op2 &&& 0xFFFFFFFF) * (op1 &&& 0xFFFFFFFF)) = _ :=
    value_eq_of_inWord (inWord_half_mul hal hal' ⟨hbl, hbl'⟩) (toNat_mul_emod (hlow s2 op2) (hlow s1 op1))
  have h1 : value s1 64 ((op2 &&& 0xFFFFFFFF) * shr s1 op1 32) = _ :=
    value_eq_of_inWord (inWord_half_mul hal hal' (high_range s1 op1))
      (toNat_mul_emod (hlow s2 op2) (hhigh s1 op1))
  have h2 : value s2 64 ((op1 &&& 0xFFFFFFFF) * shr s2 op2 32) = _ :=
    value_eq_of_inWord (inWord_half_mul hbl hbl' (high_range s2 op2))
      (toNat_mul_emod (hlow s1 op1) (hhigh s2 op2))
  have h3 := toNat_mul_emod (hhigh s2 op2) (hhigh s1 op1)
  unfold mulWords
  apply words_eq s2 s1 _ _ _ _ h3
  rw [value_false_word] at h0
  rw [h0, h1, BitVec.mul_comm (shr s2 op2 32), h2]
  have hA := Int.emod_add_mul_ediv (value s2 64 op2) (2 ^ 32)
  have hB := Int.emod_add_mul_ediv (value s1 64 op1) (2 ^ 32)
  generalize value s2 64 op2 % 2 ^ 32 = al at *
  generalize value s2 64 op2 / 2 ^ 32 = ah at *
  generalize value s1 64 op1 % 2 ^ 32 = bl at *
  generalize value s1 64 op1 / 2 ^ 32 = bh at *
  rw [← hA, ← hB]
  ring

/-! ### Shift and rounding -/

/-- Shifting two words to the right by `k` gives the quotient, as far as it fits into a word. -/
theorem toNat_shiftWords (upper lower : BitVec 64) {k : ℕ} (hk : k < 64) :
    (lower >>> k ||| (upper &&& getMask k) <<< (64 - k)).toNat
      = 2 ^ (64 - k) * (upper.toNat % 2 ^ k) + lower.toNat / 2 ^ k := by
  have hpow : 2 ^ (64 - k) * 2 ^ k = 2 ^ 64 := by
    rw [← Nat.pow_add, Nat.sub_add_cancel hk.le]
  have hlow : lower.toNat / 2 ^ k < 2 ^ (64 - k) := by
    rw [Nat.div_lt_iff_lt_mul (Nat.two_pow_pos k), hpow]
    exact lower.isLt
  have hhigh : 2 ^ (64 - k) * (upper.toNat % 2 ^ k) < 2 ^ 64 := by
    rw [← hpow]
    exact Nat.mul_lt_mul_of_pos_left (Nat.mod_lt _ (Nat.two_pow_pos k)) (Nat.two_pow_pos _)
  rw [BitVec.toNat_or, BitVec.toNat_ushiftRight, Nat.shiftRight_eq_div_pow, BitVec.toNat_shiftLeft,
    toNat_and_getMask upper hk.le, Nat.shiftLeft_eq, Nat.mul_comm (upper.toNat % 2 ^ k),
    Nat.mod_eq_of_lt hhigh, Nat.or_comm, Nat.two_pow_add_eq_or_of_lt hlow]

/-- The quotient of a number by a power of two, from its lower and its upper part. -/
theorem ediv_emod_words (p : ℤ) {k : ℕ} (hk : k < 64) :
    p / 2 ^ k % 2 ^ 64 = 2 ^ (64 - k) * (p / 2 ^ 64 % 2 ^ k) + p % 2 ^ 64 / 2 ^ k := by
  have hpow : (2 : ℤ) ^ (64 - k) * 2 ^ k = 2 ^ 64 := by
    rw [← pow_add, Nat.sub_add_cancel hk.le]
  have hpos : (0 : ℤ) < 2 ^ k := by positivity
  have hquot : p / 2 ^ k = p % 2 ^ 64 / 2 ^ k + 2 ^ (64 - k) * (p / 2 ^ 64) := by
    have hsplit : p = p % 2 ^ 64 + 2 ^ (64 - k) * (p / 2 ^ 64) * 2 ^ k := by
      have := Int.emod_add_mul_ediv p (2 ^ 64)
      linear_combination -this - (p / 2 ^ 64) * hpow
    conv_lhs => rw [hsplit]
    exact Int.add_mul_ediv_right _ _ hpos.ne'
  have hlow : p % 2 ^ 64 / 2 ^ k < 2 ^ (64 - k) := by
    rw [Int.ediv_lt_iff_lt_mul hpos, hpow]
    exact Int.emod_lt_of_pos _ (by norm_num)
  have hnonneg : 0 ≤ p % 2 ^ 64 / 2 ^ k :=
    Int.ediv_nonneg (Int.emod_nonneg _ (by norm_num)) hpos.le
  have hupper := Int.emod_add_mul_ediv (p / 2 ^ 64) (2 ^ k)
  have hlt := Int.emod_lt_of_pos (p / 2 ^ 64) hpos
  have hge := Int.emod_nonneg (p / 2 ^ 64) hpos.ne'
  generalize p % 2 ^ 64 / 2 ^ k = low at *
  generalize p / 2 ^ 64 % 2 ^ k = u at *
  rw [hquot, ← hupper, show low + 2 ^ (64 - k) * (u + 2 ^ k * (p / 2 ^ 64 / 2 ^ k))
    = 2 ^ (64 - k) * u + low + 2 ^ (64 - k) * 2 ^ k * (p / 2 ^ 64 / 2 ^ k) by ring, hpow,
    Int.add_mul_emod_self_left]
  apply Int.emod_eq_of_lt
  · positivity
  · have : 2 ^ (64 - k) * u + 2 ^ (64 - k) ≤ (2 : ℤ) ^ (64 - k) * 2 ^ k := by
      rw [← mul_add_one]
      exact mul_le_mul_of_nonneg_left hlt (by positivity)
    omega

/-- The shifted product without rounding, cut to a word. -/
theorem multiply_snd {s2 s1 : Bool} (hsigns : s1 = true → s2 = true) (vxrm : BitVec 2)
    (op2 op1 : BitVec 64) {k : ℕ} (hk : k ≤ 64) :
    ((multiply s2 s1 vxrm op2 op1 k false).2.toNat : ℤ)
      = value s2 64 op2 * value s1 64 op1 / 2 ^ k % 2 ^ 64 := by
  obtain ⟨hlower, hupper⟩ := mulWords_eq s2 s1 op2 op1
  rw [multiply_eq hsigns]
  simp only [Bool.false_eq_true, if_false]
  rcases Nat.lt_or_eq_of_le hk with hlt | rfl
  · have hdvd : (2 : ℤ) ^ k ∣ 2 ^ 64 := pow_dvd_pow 2 hlt.le
    rw [if_neg hlt.ne, toNat_shiftWords _ _ hlt]
    simp only [Int.natCast_emod, Nat.cast_add, Nat.cast_mul, Int.natCast_ediv, Nat.cast_pow, Nat.cast_ofNat]
    rw [hlower, hupper, Int.emod_emod_of_dvd _ hdvd, ← ediv_emod_words _ hlt]
  · -- the upper word takes the place of the lower
    have hall : getMask 64 = BitVec.allOnes 64 := rfl
    rw [if_pos rfl, hall, BitVec.and_allOnes, Nat.sub_self, BitVec.shiftLeft_zero, ← hupper]
    exact congrArg (fun x : BitVec 64 => (x.toNat : ℤ)) BitVec.zero_or

/-- Without a shift, the two words of the result are those of the product. -/
theorem multiply_zero {s2 s1 : Bool} (hsigns : s1 = true → s2 = true) (vxrm : BitVec 2)
    (op2 op1 : BitVec 64) :
    ((multiply s2 s1 vxrm op2 op1 0 false).1.toNat : ℤ) * 2 ^ 64
        + (multiply s2 s1 vxrm op2 op1 0 false).2.toNat
      = value s2 64 op2 * value s1 64 op1 % 2 ^ 128 := by
  have hlower := multiply_snd hsigns vxrm op2 op1 (Nat.zero_le 64)
  have hupper := (mulWords_eq s2 s1 op2 op1).2
  rw [hlower, multiply_eq hsigns]
  dsimp only
  rw [BitVec.ushiftRight_zero, hupper, pow_zero, Int.ediv_one]
  omega

/-- The lower word has the same remainder as the product, and its quotient the same parity. -/
theorem up_emod (m : RoundingMode) (p : ℤ) {k : ℕ} (hk : k < 64) :
    m.Up (p % 2 ^ 64 / 2 ^ k) (p % 2 ^ 64 % 2 ^ k) (2 ^ k) ↔ m.Up (p / 2 ^ k) (p % 2 ^ k) (2 ^ k) := by
  have hpow : (2 : ℤ) * 2 ^ (63 - k) * 2 ^ k = 2 ^ 64 := by
    rw [mul_assoc, ← pow_add, show 63 - k + k = 63 by omega]
    norm_num
  have hpos : (2 : ℤ) ^ k ≠ 0 := by positivity
  have hsplit : p = p % 2 ^ 64 + 2 * (2 ^ (63 - k) * (p / 2 ^ 64)) * 2 ^ k := by
    have := Int.emod_add_mul_ediv p (2 ^ 64)
    linear_combination -this - (p / 2 ^ 64) * hpow
  conv_rhs => rw [hsplit, Int.add_mul_ediv_right _ _ hpos, Int.add_mul_emod_self_right]
  exact (m.up_add_mul _ _ _ _).symm

/-- **The rounded product**: the exact one, shifted and rounded as the mode says, and cut to a word. -/
theorem multiply_spec (vxrm : BitVec 2) (op2 op1 : BitVec 64) {k : ℕ} (hk : k < 64) :
    ((multiply true true vxrm op2 op1 k true).2.toNat : ℤ)
      = (roundingMode vxrm).roundDiv (op2.toInt * op1.toInt) (2 ^ k) % 2 ^ 64 := by
  obtain ⟨hlower, hupper⟩ := mulWords_eq true true op2 op1
  rw [value_true_word, value_true_word] at hlower hupper
  have hdvd : (2 : ℤ) ^ k ∣ 2 ^ 64 := pow_dvd_pow 2 hk.le
  have hup := up_emod (roundingMode vxrm) (op2.toInt * op1.toInt) hk
  rw [multiply_eq fun _ => rfl]
  dsimp only
  rw [if_pos rfl, if_neg hk.ne, getRoundingIncrement_eq vxrm false _ hk, BitVec.toNat_add, toNat_bit,
    toNat_shiftWords _ _ hk, RoundingMode.roundDiv]
  simp only [Int.natCast_emod, Nat.cast_add, Nat.cast_mul, Int.natCast_ediv, Nat.cast_pow,
    Nat.cast_ofNat]
  rw [hlower, hupper, Int.emod_emod_of_dvd _ hdvd, ← ediv_emod_words _ hk, decide_eq_decide.2 hup,
    Int.emod_add_emod]
  split_ifs with h
  · rw [decide_eq_true h]
    rfl
  · rw [decide_eq_false h, Bool.toNat_false, Nat.cast_zero, add_zero]

end RiscvVp.Vec
