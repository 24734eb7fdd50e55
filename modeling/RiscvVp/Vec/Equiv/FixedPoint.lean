import RiscvVp.Vec.Equiv.Multiply

/-!
# Fixed-point instructions

A fixed-point instruction computes with numbers, rounds where it shifts, and either saturates to the range
of the destination or keeps the low bits.  The vector unit has only 64-bit words for this: the functions of
`v.h` look at sign bits to find out whether a sum or a difference has left the range, put the lost bit back
after a shift, and keep the two words of a product.  All of this gives the rounded result of the exact
operation, and `vxsat` is set when an active element is saturated (`fixedPoint`).
-/

namespace RiscvVp.Vec

open Cheri (VecState Operands)

/-! ### Sums and differences of residues -/

theorem bits_injective {p n : Width} (h : p.bits = n.bits) : p = n := by
  cases p <;> cases n <;> first | rfl | cases h

theorem two_pow_bits (n : Width) : 2 ^ n.bits = 2 * 2 ^ (n.bits - 1) := by
  cases n <;> rfl

theorem value_false (n : Width) (x : BitVec 64) :
    value false n.bits x = ((x.toNat % 2 ^ n.bits : ℕ) : ℤ) := rfl

/-- The signed number that a residue stands for. -/
theorem value_true_cases (n : Width) (x : BitVec 64) :
    x.toNat % 2 ^ n.bits < 2 ^ (n.bits - 1) ∧ value true n.bits x = ((x.toNat % 2 ^ n.bits : ℕ) : ℤ) ∨
      2 ^ (n.bits - 1) ≤ x.toNat % 2 ^ n.bits ∧
        value true n.bits x = ((x.toNat % 2 ^ n.bits : ℕ) : ℤ) - ((2 ^ n.bits : ℕ) : ℤ) := by
  have hhalf : ((2 ^ n.bits : ℕ) + 1) / 2 = 2 ^ (n.bits - 1) := by
    rw [two_pow_bits]
    omega
  have hcond : (x.toNat : ℤ) % ((2 ^ n.bits : ℕ) : ℤ) < (((2 ^ n.bits : ℕ) : ℤ) + 1) / 2 ↔
      x.toNat % 2 ^ n.bits < 2 ^ (n.bits - 1) := by
    rw [← hhalf]
    omega
  rw [value, if_pos rfl, Int.bmod_def, if_congr hcond rfl rfl, ← Int.natCast_emod]
  split_ifs with h
  · exact Or.inl ⟨h, rfl⟩
  · exact Or.inr ⟨by omega, rfl⟩

/-- A sum may lose a carry when it is cut to the width of an element. -/
theorem add_and_getMask_cases (n : Width) (x y : BitVec 64) :
    ((x + y) &&& getMask n.bits).toNat = x.toNat % 2 ^ n.bits + y.toNat % 2 ^ n.bits ∧
        x.toNat % 2 ^ n.bits + y.toNat % 2 ^ n.bits < 2 ^ n.bits ∨
      ((x + y) &&& getMask n.bits).toNat + 2 ^ n.bits
        = x.toNat % 2 ^ n.bits + y.toNat % 2 ^ n.bits := by
  rw [toNat_and_getMask _ (bits_le n), BitVec.toNat_add]
  cases n <;> simp only [Width.bits, Width.bytes] <;> omega

/-- A difference may lose a borrow when it is cut to the width of an element. -/
theorem sub_and_getMask_cases (n : Width) (x y : BitVec 64) :
    ((x - y) &&& getMask n.bits).toNat + y.toNat % 2 ^ n.bits = x.toNat % 2 ^ n.bits ∨
      ((x - y) &&& getMask n.bits).toNat + y.toNat % 2 ^ n.bits = x.toNat % 2 ^ n.bits + 2 ^ n.bits ∧
        x.toNat % 2 ^ n.bits < y.toNat % 2 ^ n.bits := by
  rw [toNat_and_getMask _ (bits_le n), BitVec.toNat_sub]
  cases n <;> simp only [Width.bits, Width.bytes] <;> omega

/-- The powers of two of a width, as multiples of one number. -/
theorem exists_half (n : Width) : ∃ m : ℕ, Even m ∧ 2 ^ (n.bits - 1) = m ∧ 2 ^ n.bits = 2 * m ∧
    (2 : ℤ) ^ (n.bits - 1) = m ∧ (2 : ℤ) ^ n.bits = 2 * m ∧ 0 < m := by
  refine ⟨2 ^ (n.bits - 1), ?_, rfl, two_pow_bits n, ?_, ?_, Nat.two_pow_pos _⟩
  · cases n <;> decide
  · push_cast
    rfl
  · exact_mod_cast two_pow_bits n

/-- A residue modulo `2 * m` of a number that differs from it by at most `2 * m`. -/
theorem eq_emod_of {m : ℕ} {t y : ℤ} (h0 : 0 ≤ t) (hlt : t < 2 * m)
    (h : y = t ∨ y = t - 2 * m ∨ y = t + 2 * m) : t = y % (2 * m) := by
  rcases h with rfl | rfl | rfl
  · exact (Int.emod_eq_of_lt h0 hlt).symm
  · rw [Int.sub_emod_right, Int.emod_eq_of_lt h0 hlt]
  · rw [Int.add_emod_right, Int.emod_eq_of_lt h0 hlt]

/-! ### Saturation -/

/-- The least number of the destination. -/
def lowest (signed : Bool) (w : ℕ) : ℤ := if signed then -2 ^ (w - 1) else 0

/-- The greatest number of the destination. -/
def highest (signed : Bool) (w : ℕ) : ℤ := if signed then 2 ^ (w - 1) - 1 else 2 ^ w - 1

/-- What a function that saturates gives for a number: the low bits of the result and what is ored into
`vxsat`. -/
def Saturated (n : Width) (signed : Bool) (z : ℤ) (r : BitVec 64 × Bool) : Prop :=
  ((n.truncate r.1).toNat : ℤ) = saturate (lowest signed n.bits) (highest signed n.bits) z % 2 ^ n.bits ∧
    (r.2 = true ↔ saturate (lowest signed n.bits) (highest signed n.bits) z ≠ z)

section Saturated

variable {n : Width} {signed : Bool} {z : ℤ} {x : BitVec 64}

theorem saturated_of_mem (hlo : lowest signed n.bits ≤ z) (hhi : z ≤ highest signed n.bits)
    (h : ((n.truncate x).toNat : ℤ) = z % 2 ^ n.bits) : Saturated n signed z (x, false) := by
  unfold Saturated
  rw [saturate_of_mem hlo hhi]
  exact ⟨h, by simp⟩

theorem saturated_of_lt (hlo : z < lowest signed n.bits)
    (h : ((n.truncate x).toNat : ℤ) = lowest signed n.bits % 2 ^ n.bits) :
    Saturated n signed z (x, true) := by
  unfold Saturated
  rw [saturate_of_lt hlo]
  exact ⟨h, by simp [hlo.ne']⟩

theorem saturated_of_gt (hhi : highest signed n.bits < z)
    (h : ((n.truncate x).toNat : ℤ) = highest signed n.bits % 2 ^ n.bits) :
    Saturated n signed z (x, true) := by
  have hle : lowest signed n.bits ≤ highest signed n.bits := by
    cases signed <;> cases n <;> decide
  unfold Saturated
  rw [saturate_of_gt hle hhi]
  exact ⟨h, by simp [hhi.ne]⟩

end Saturated

section Element

variable (n : Width) (op2 op1 : BitVec 64)

/-- The least signed number, as the functions of `v.h` write it. -/
theorem truncate_minVal :
    ((n.truncate (signExtend (msb n.bits) n.bits)).toNat : ℤ) = lowest true n.bits % 2 ^ n.bits := by
  cases n <;> decide

theorem truncate_maxVal :
    ((n.truncate (msb n.bits - 1)).toNat : ℤ) = highest true n.bits % 2 ^ n.bits := by
  cases n <;> decide

/-- A value that has been masked is stored as it is. -/
theorem toNat_truncate_and_getMask (x : BitVec 64) :
    (n.truncate (x &&& getMask n.bits)).toNat = (x &&& getMask n.bits).toNat := by
  rw [toNat_truncate, toNat_and_getMask _ (bits_le n), Nat.mod_mod]

theorem msbSet_and_getMask_iff (x : BitVec 64) :
    msbSet n.bits (x &&& getMask n.bits) = true ↔ 2 ^ (n.bits - 1) ≤ (x &&& getMask n.bits).toNat := by
  rw [msbSet_iff _ (bits_pos n) (bits_le n), toNat_and_getMask _ (bits_le n), Nat.mod_mod]

theorem adduSaturate_spec :
    Saturated n false (value false n.bits op2 + value false n.bits op1) (adduSaturate n.bits op2 op1) := by
  have hsum := add_and_getMask_cases n op2 op1
  have hstored := toNat_truncate_and_getMask n (op2 + op1)
  have hsat : ((op2 + op1) &&& getMask n.bits < op1 &&& getMask n.bits) ↔
      ((op2 + op1) &&& getMask n.bits).toNat < op1.toNat % 2 ^ n.bits := by
    rw [BitVec.lt_def, toNat_and_getMask op1 (bits_le n)]
  have hlt2 := Nat.mod_lt op2.toNat (Nat.two_pow_pos n.bits)
  have hlow : lowest false n.bits = 0 := rfl
  have hhigh : highest false n.bits = 2 ^ n.bits - 1 := rfl
  obtain ⟨m, -, -, hw, -, hwz, -⟩ := exists_half n
  simp only [adduSaturate, value_false]
  generalize (op2 + op1) &&& getMask n.bits = res at *
  generalize op2.toNat % 2 ^ n.bits = x at *
  generalize op1.toNat % 2 ^ n.bits = y at *
  rw [hw] at hsum hlt2
  rw [hwz] at hhigh
  by_cases h : res < op1 &&& getMask n.bits
  · -- the lost carry fills the result with ones
    have hones : res ||| -bit true = BitVec.allOnes 64 := by
      rw [show -bit true = BitVec.allOnes 64 by decide]
      exact BitVec.or_allOnes
    rw [decide_eq_true h, hones]
    rw [hsat] at h
    apply saturated_of_gt
    · omega
    · cases n <;> decide
  · rw [decide_eq_false h, show -bit false = 0#64 by decide, BitVec.or_zero]
    rw [hsat] at h
    apply saturated_of_mem
    · omega
    · omega
    · rw [hwz, hstored]
      exact eq_emod_of (by omega) (by omega) (by omega)

/-- The sign bits of a signed sum tell whether it is below or above the range. -/
theorem signed_add :
    ((msbSet n.bits op1 && msbSet n.bits op2 && !msbSet n.bits ((op2 + op1) &&& getMask n.bits)) = true ↔
        value true n.bits op2 + value true n.bits op1 < lowest true n.bits) ∧
      ((!msbSet n.bits op1 && !msbSet n.bits op2 && msbSet n.bits ((op2 + op1) &&& getMask n.bits)) = true ↔
        highest true n.bits < value true n.bits op2 + value true n.bits op1) ∧
      (((op2 + op1) &&& getMask n.bits).toNat : ℤ)
        = (value true n.bits op2 + value true n.bits op1) % 2 ^ n.bits := by
  have hsum := add_and_getMask_cases n op2 op1
  have h2 := msbSet_iff op2 (bits_pos n) (bits_le n)
  have h1 := msbSet_iff op1 (bits_pos n) (bits_le n)
  have hr := msbSet_and_getMask_iff n (op2 + op1)
  have hv2 := value_true_cases n op2
  have hv1 := value_true_cases n op1
  have hlt2 := Nat.mod_lt op2.toNat (Nat.two_pow_pos n.bits)
  have hlt1 := Nat.mod_lt op1.toNat (Nat.two_pow_pos n.bits)
  have hlow : lowest true n.bits = -2 ^ (n.bits - 1) := rfl
  have hhigh : highest true n.bits = 2 ^ (n.bits - 1) - 1 := rfl
  obtain ⟨m, -, hm, hw, hmz, hwz, -⟩ := exists_half n
  simp only [Bool.and_eq_true, Bool.not_eq_true', ← Bool.not_eq_true, h1, h2, hr]
  generalize (op2 + op1) &&& getMask n.bits = res at *
  generalize op2.toNat % 2 ^ n.bits = x at *
  generalize op1.toNat % 2 ^ n.bits = y at *
  rw [hm, hw] at hv1 hv2
  rw [hw] at hsum hlt1 hlt2
  rw [hlow, hhigh, hm, hmz, hwz]
  refine ⟨?_, ?_, ?_⟩
  · omega
  · omega
  · exact eq_emod_of (by omega) (by omega) (by omega)

/-- The same for a signed difference: overflow is told by three signs, those of the operands and of the
result. -/
theorem signed_sub :
    ((msbSet n.bits op2 && !msbSet n.bits op1 && !msbSet n.bits ((op2 - op1) &&& getMask n.bits)) = true ↔
        value true n.bits op2 - value true n.bits op1 < lowest true n.bits) ∧
      ((!msbSet n.bits op2 && msbSet n.bits op1 && msbSet n.bits ((op2 - op1) &&& getMask n.bits)) = true ↔
        highest true n.bits < value true n.bits op2 - value true n.bits op1) ∧
      (((op2 - op1) &&& getMask n.bits).toNat : ℤ)
        = (value true n.bits op2 - value true n.bits op1) % 2 ^ n.bits := by
  have hdiff := sub_and_getMask_cases n op2 op1
  have h2 := msbSet_iff op2 (bits_pos n) (bits_le n)
  have h1 := msbSet_iff op1 (bits_pos n) (bits_le n)
  have hr := msbSet_and_getMask_iff n (op2 - op1)
  have hv2 := value_true_cases n op2
  have hv1 := value_true_cases n op1
  have hlt2 := Nat.mod_lt op2.toNat (Nat.two_pow_pos n.bits)
  have hlt1 := Nat.mod_lt op1.toNat (Nat.two_pow_pos n.bits)
  have hlow : lowest true n.bits = -2 ^ (n.bits - 1) := rfl
  have hhigh : highest true n.bits = 2 ^ (n.bits - 1) - 1 := rfl
  obtain ⟨m, -, hm, hw, hmz, hwz, -⟩ := exists_half n
  simp only [Bool.and_eq_true, Bool.not_eq_true', ← Bool.not_eq_true, h1, h2, hr]
  generalize (op2 - op1) &&& getMask n.bits = res at *
  generalize op2.toNat % 2 ^ n.bits = x at *
  generalize op1.toNat % 2 ^ n.bits = y at *
  rw [hm, hw] at hv1 hv2
  rw [hw] at hdiff hlt1 hlt2
  rw [hlow, hhigh, hm, hmz, hwz]
  refine ⟨?_, ?_, ?_⟩
  · omega
  · omega
  · exact eq_emod_of (by omega) (by omega) (by omega)

/-- What the functions for signed numbers return. -/
theorem saturated_signed {below above : Bool} {z : ℤ} {x : BitVec 64}
    (hbelow : below = true ↔ z < lowest true n.bits) (habove : above = true ↔ highest true n.bits < z)
    (hx : ((x &&& getMask n.bits).toNat : ℤ) = z % 2 ^ n.bits) :
    Saturated n true z
      (if below then (signExtend (msb n.bits) n.bits, true)
        else if above then (msb n.bits - 1, true)
        else (x &&& getMask n.bits, false)) := by
  split_ifs with hb ha
  · exact saturated_of_lt (hbelow.1 hb) (truncate_minVal n)
  · exact saturated_of_gt (habove.1 ha) (truncate_maxVal n)
  · rw [hbelow, not_lt] at hb
    rw [habove, not_lt] at ha
    apply saturated_of_mem hb ha
    rw [toNat_truncate_and_getMask, hx]

theorem addSaturate_spec :
    Saturated n true (value true n.bits op2 + value true n.bits op1) (addSaturate op2 op1 n.bits) := by
  obtain ⟨hbelow, habove, hres⟩ := signed_add n op2 op1
  exact saturated_signed n hbelow habove hres

theorem vSsub_spec {e : SignedEew} (hvd : e.vdEew = n.bits) (hop2 : e.op2Eew = n.bits) :
    Saturated n true (value true n.bits op2 - value true n.bits op1) (vSsub e op2 op1) := by
  obtain ⟨hbelow, habove, hres⟩ := signed_sub n op2 op1
  simp only [vSsub, hvd, hop2]
  exact saturated_signed n hbelow habove hres

theorem vSsubu_spec (hlt : op2.toNat < 2 ^ n.bits) :
    Saturated n false (value false n.bits op2 - value false n.bits op1) (vSsubu n.bits op2 op1) := by
  have hdiff := sub_and_getMask_cases n op2 op1
  have hsat : ((op2 - op1) &&& getMask n.bits ≤ op2) ↔
      ((op2 - op1) &&& getMask n.bits).toNat ≤ op2.toNat % 2 ^ n.bits := by
    rw [BitVec.le_def, Nat.mod_eq_of_lt hlt]
  have hstored : (n.truncate (op2 - op1)).toNat = ((op2 - op1) &&& getMask n.bits).toNat := by
    rw [toNat_truncate, toNat_and_getMask _ (bits_le n)]
  have hlt2 := Nat.mod_lt op2.toNat (Nat.two_pow_pos n.bits)
  have hlt1 := Nat.mod_lt op1.toNat (Nat.two_pow_pos n.bits)
  have hlow : lowest false n.bits = 0 := rfl
  have hhigh : highest false n.bits = 2 ^ n.bits - 1 := rfl
  obtain ⟨m, -, -, hw, -, hwz, -⟩ := exists_half n
  simp only [vSsubu, value_false]
  generalize (op2 - op1) &&& getMask n.bits = res at *
  clear hlt
  generalize op2.toNat % 2 ^ n.bits = x at *
  generalize op1.toNat % 2 ^ n.bits = y at *
  rw [hw] at hdiff hlt1 hlt2
  rw [hwz] at hhigh
  by_cases h : res ≤ op2
  · rw [decide_eq_true h, show -bit true = BitVec.allOnes 64 by decide, BitVec.and_allOnes]
    rw [hsat] at h
    apply saturated_of_mem
    · omega
    · omega
    · rw [hwz, hstored]
      exact eq_emod_of (by omega) (by omega) (by omega)
  · -- the lost borrow clears the result
    rw [decide_eq_false h, show -bit false = 0#64 by decide, BitVec.and_zero]
    rw [hsat] at h
    apply saturated_of_lt
    · omega
    · cases n <;> decide

/-! ### Averages -/

/-- A word has the sign bit or it does not. -/
theorem and_msb (x : BitVec 64) : x &&& msb n.bits = 0#64 ∨ x &&& msb n.bits = msb n.bits := by
  have hand : (x &&& msb n.bits).toNat = (x.toNat.testBit (n.bits - 1)).toNat * 2 ^ (n.bits - 1) := by
    rw [BitVec.toNat_and, msb_toNat (bits_pos n) (bits_le n), Nat.and_two_pow]
  cases hb : x.toNat.testBit (n.bits - 1) with
  | false =>
    left
    apply BitVec.eq_of_toNat_eq
    rw [hand, hb, Bool.toNat_false, Nat.zero_mul]
    rfl
  | true =>
    right
    apply BitVec.eq_of_toNat_eq
    rw [hand, hb, Bool.toNat_true, Nat.one_mul, msb_toNat (bits_pos n) (bits_le n)]

/-- Flipping the sign bit adds it or takes it away. -/
theorem xor_msb (x : BitVec 64) :
    x ^^^ msb n.bits = x + msb n.bits ∨ x ^^^ msb n.bits = x - msb n.bits := by
  generalize hm : msb n.bits = m
  rcases hm ▸ and_msb n x with h | h
  · left
    rw [BitVec.add_eq_or_of_and_eq_zero _ _ h]
    apply BitVec.eq_of_getLsbD_eq
    intro i hi
    have hbit := congrArg (fun y => BitVec.getLsbD y i) h
    simp only [BitVec.getLsbD_and, BitVec.getLsbD_zero, Bool.and_eq_false_imp] at hbit
    rw [BitVec.getLsbD_xor, BitVec.getLsbD_or]
    cases hx : x.getLsbD i with
    | false => rw [Bool.false_xor, Bool.false_or]
    | true => rw [hbit hx, Bool.xor_false, Bool.or_false]
  · right
    have hbits (i : ℕ) : (x.getLsbD i && m.getLsbD i) = m.getLsbD i := by
      rw [← BitVec.getLsbD_and, h]
    have hand : (x ^^^ m) &&& m = 0#64 := by
      apply BitVec.eq_of_getLsbD_eq
      intro i hi
      have hbit := hbits i
      rw [BitVec.getLsbD_and, BitVec.getLsbD_xor, BitVec.getLsbD_zero]
      revert hbit
      cases x.getLsbD i <;> cases m.getLsbD i <;> decide
    have hor : (x ^^^ m) ||| m = x := by
      apply BitVec.eq_of_getLsbD_eq
      intro i hi
      have hbit := hbits i
      rw [BitVec.getLsbD_or, BitVec.getLsbD_xor]
      revert hbit
      cases x.getLsbD i <;> cases m.getLsbD i <;> decide
    have hadd := BitVec.add_eq_or_of_and_eq_zero _ _ hand
    rw [hor] at hadd
    rw [BitVec.eq_sub_iff_add_eq]
    exact hadd

/-- Flipping the sign bit adds half of the modulus. -/
theorem toNat_truncate_xor_msb (x : BitVec 64) :
    ((n.truncate (x ^^^ msb n.bits)).toNat : ℤ)
      = ((n.truncate x).toNat + 2 ^ (n.bits - 1)) % 2 ^ n.bits := by
  have hmsb := msb_toNat (bits_pos n) (bits_le n)
  rw [toNat_truncate, toNat_truncate]
  rcases xor_msb n x with h | h
  · rw [h, BitVec.toNat_add, hmsb]
    cases n <;> simp only [Width.bits, Width.bytes] <;> omega
  · rw [h, BitVec.toNat_sub, hmsb]
    cases n <;> simp only [Width.bits, Width.bytes] <;> omega

/-- Setting the sign bit where it is clear adds it. -/
theorem toNat_truncate_or_msb {x : BitVec 64} (hx : x.toNat < 2 ^ (n.bits - 1)) :
    ((n.truncate (x ||| msb n.bits)).toNat : ℤ) = (x.toNat + 2 ^ (n.bits - 1)) % 2 ^ n.bits := by
  have hor : (x ||| msb n.bits).toNat = x.toNat + 2 ^ (n.bits - 1) := by
    have h := Nat.two_pow_add_eq_or_of_lt hx 1
    rw [Nat.mul_one] at h
    rw [BitVec.toNat_or, msb_toNat (bits_pos n) (bits_le n), Nat.or_comm, ← h, Nat.add_comm]
  rw [toNat_truncate, hor]
  push_cast
  rfl

/-- Adding the modulus to a number adds half of it to the average. -/
theorem roundDiv_add_modulus (r : RoundingMode) {m : ℕ} (hm : Even m) (v : ℤ) :
    r.roundDiv (v + 2 * m) 2 = r.roundDiv v 2 + m := by
  obtain ⟨k, rfl⟩ := hm
  have h := r.roundDiv_add_mul v k (show 0 < 2 by decide)
  push_cast at h ⊢
  rw [show v + 2 * ((k : ℤ) + k) = v + 2 * k * 2 by ring, h]
  ring

theorem roundDiv_sub_modulus (r : RoundingMode) {m : ℕ} (hm : Even m) (v : ℤ) :
    r.roundDiv (v - 2 * m) 2 = r.roundDiv v 2 - m := by
  have h := roundDiv_add_modulus r hm (v - 2 * m)
  rw [sub_add_cancel] at h
  omega

/-- Adding and taking away half of a modulus is the same. -/
theorem add_half_emod (q : ℤ) (m : ℕ) : (q + m) % (2 * m) = (q - m) % (2 * m) := by
  rw [show q + m = q - m + 2 * m by ring, Int.add_emod_right]

/-- The average of signed numbers: where their sum has left the range, the sign bit is flipped. -/
theorem average_signed (vxrm : BitVec 2) {lost : Bool} {x : BitVec 64} {z : ℤ}
    (hx : ((x &&& getMask n.bits).toNat : ℤ) = z % 2 ^ n.bits)
    (hz : -2 ^ n.bits ≤ z ∧ z < 2 ^ n.bits)
    (hlost : lost = true ↔ z < lowest true n.bits ∨ highest true n.bits < z) :
    ((n.truncate (if lost then
        vRound vxrm true (signExtend (x &&& getMask n.bits) n.bits) 1 ^^^ msb n.bits
      else vRound vxrm true (signExtend (x &&& getMask n.bits) n.bits) 1)).toNat : ℤ)
      = (roundingMode vxrm).roundDiv z 2 % 2 ^ n.bits := by
  have hround := toInt_vRound vxrm (signExtend (x &&& getMask n.bits) n.bits) (show 1 < 64 by decide)
  have hv := value_true_cases n (x &&& getMask n.bits)
  have hlow : lowest true n.bits = -2 ^ (n.bits - 1) := rfl
  have hhigh : highest true n.bits = 2 ^ (n.bits - 1) - 1 := rfl
  obtain ⟨m, heven, hm, hw, hmz, hwz, hpos⟩ := exists_half n
  rw [← value_true, pow_one] at hround
  rw [toNat_and_getMask _ (bits_le n), Nat.mod_mod, ← toNat_and_getMask _ (bits_le n)] at hv
  rw [hm, hw] at hv
  rw [hlow, hhigh, hmz] at hlost
  rw [hwz] at hx hz ⊢
  generalize value true n.bits (x &&& getMask n.bits) = v at *
  -- the sum differs from its signed residue by a multiple of the modulus
  have hz' : z = v ∧ lost = false ∨ z = v + 2 * m ∧ lost = true ∨ z = v - 2 * m ∧ lost = true := by
    have hres : ((x &&& getMask n.bits).toNat : ℤ) = z ∨
        ((x &&& getMask n.bits).toNat : ℤ) = z + 2 * m ∧ z < 0 := by
      rcases le_or_gt 0 z with h | h
      · left
        rw [hx, Int.emod_eq_of_lt h hz.2]
      · right
        rw [hx, ← Int.add_emod_right, Int.emod_eq_of_lt (by omega) (by omega)]
        exact ⟨rfl, h⟩
    cases lost with
    | false =>
      simp only [Bool.false_eq_true, false_iff] at hlost
      exact Or.inl ⟨by omega, rfl⟩
    | true =>
      simp only [true_iff] at hlost
      have hv' : z = v + 2 * m ∨ z = v - 2 * m := by omega
      exact Or.inr (hv'.imp (fun h => ⟨h, rfl⟩) fun h => ⟨h, rfl⟩)
  rcases hz' with ⟨rfl, hl⟩ | ⟨rfl, hl⟩ | ⟨rfl, hl⟩
  · rw [hl, if_neg (by decide), toNat_truncate_toInt, hround, hwz]
  · rw [hl, if_pos rfl, toNat_truncate_xor_msb, toNat_truncate_toInt, hround, hwz, hmz,
      Int.emod_add_emod, roundDiv_add_modulus _ heven]
  · rw [hl, if_pos rfl, toNat_truncate_xor_msb, toNat_truncate_toInt, hround, hwz, hmz,
      Int.emod_add_emod, roundDiv_sub_modulus _ heven]
    exact add_half_emod _ m

/-- The sign bits of an unsigned sum tell whether it has a carry. -/
theorem unsigned_add :
    ((msbSet n.bits op1 && msbSet n.bits op2) ||
        (!msbSet n.bits op1 && msbSet n.bits op2 && !msbSet n.bits ((op2 + op1) &&& getMask n.bits)) ||
        (msbSet n.bits op1 && !msbSet n.bits op2 && !msbSet n.bits ((op2 + op1) &&& getMask n.bits)))
        = true ↔
      2 ^ n.bits ≤ op2.toNat % 2 ^ n.bits + op1.toNat % 2 ^ n.bits := by
  have hsum := add_and_getMask_cases n op2 op1
  have h2 := msbSet_iff op2 (bits_pos n) (bits_le n)
  have h1 := msbSet_iff op1 (bits_pos n) (bits_le n)
  have hr := msbSet_and_getMask_iff n (op2 + op1)
  have hlt2 := Nat.mod_lt op2.toNat (Nat.two_pow_pos n.bits)
  have hlt1 := Nat.mod_lt op1.toNat (Nat.two_pow_pos n.bits)
  obtain ⟨m, -, hm, hw, -⟩ := exists_half n
  simp only [Bool.or_eq_true, Bool.and_eq_true, Bool.not_eq_true', ← Bool.not_eq_true, h1, h2, hr]
  generalize (op2 + op1) &&& getMask n.bits = res at *
  generalize op2.toNat % 2 ^ n.bits = x at *
  generalize op1.toNat % 2 ^ n.bits = y at *
  rw [hw] at hsum hlt1 hlt2
  rw [hm, hw]
  omega

/-- The sign bits of an unsigned difference tell whether it has a borrow. -/
theorem unsigned_sub :
    ((!msbSet n.bits op1 && !msbSet n.bits op2 && msbSet n.bits ((op2 - op1) &&& getMask n.bits)) ||
        (msbSet n.bits op1 && !msbSet n.bits op2 && msbSet n.bits ((op2 - op1) &&& getMask n.bits)) ||
        (msbSet n.bits op1 && !msbSet n.bits op2 && !msbSet n.bits ((op2 - op1) &&& getMask n.bits)) ||
        (msbSet n.bits op1 && msbSet n.bits op2 && msbSet n.bits ((op2 - op1) &&& getMask n.bits)))
        = true ↔
      op2.toNat % 2 ^ n.bits < op1.toNat % 2 ^ n.bits := by
  have hdiff := sub_and_getMask_cases n op2 op1
  have h2 := msbSet_iff op2 (bits_pos n) (bits_le n)
  have h1 := msbSet_iff op1 (bits_pos n) (bits_le n)
  have hr := msbSet_and_getMask_iff n (op2 - op1)
  have hlt2 := Nat.mod_lt op2.toNat (Nat.two_pow_pos n.bits)
  have hlt1 := Nat.mod_lt op1.toNat (Nat.two_pow_pos n.bits)
  obtain ⟨m, -, hm, hw, -⟩ := exists_half n
  simp only [Bool.or_eq_true, Bool.and_eq_true, Bool.not_eq_true', ← Bool.not_eq_true, h1, h2, hr]
  generalize (op2 - op1) &&& getMask n.bits = res at *
  generalize op2.toNat % 2 ^ n.bits = x at *
  generalize op1.toNat % 2 ^ n.bits = y at *
  rw [hw] at hdiff hlt1 hlt2
  rw [hm]
  omega

variable {e : SignedEew} {n}

/-- `vAadd`: the rounded half of the sum. -/
theorem vAadd_spec (hvd : e.vdEew = n.bits) (vxrm : BitVec 2) :
    ((n.truncate (vAadd e vxrm op2 op1)).toNat : ℤ) =
      (roundingMode vxrm).roundDiv (value e.vdSigned n.bits op2 + value e.vdSigned n.bits op1) 2
        % 2 ^ n.bits := by
  cases hsigned : e.vdSigned with
  | true =>
    obtain ⟨hbelow, habove, hres⟩ := signed_add n op2 op1
    simp only [vAadd, hvd, hsigned, Bool.true_and, Bool.not_true, Bool.false_and, Bool.false_eq_true,
      if_true, if_false]
    apply average_signed n vxrm hres
    · obtain ⟨hlo2, hhi2⟩ := value_true_range n op2
      obtain ⟨hlo1, hhi1⟩ := value_true_range n op1
      obtain ⟨m, -, -, -, hmz, hwz, -⟩ := exists_half n
      omega
    · rw [Bool.or_eq_true, hbelow, habove]
  | false =>
    have hcarry := unsigned_add n op2 op1
    have hsum := add_and_getMask_cases n op2 op1
    have hround := toNat_vRound vxrm ((op2 + op1) &&& getMask n.bits) (show 1 < 64 by decide)
    have hlt2 := Nat.mod_lt op2.toNat (Nat.two_pow_pos n.bits)
    have hlt1 := Nat.mod_lt op1.toNat (Nat.two_pow_pos n.bits)
    obtain ⟨m, heven, hm, hw, hmz, hwz, -⟩ := exists_half n
    simp only [vAadd, hvd, hsigned, Bool.true_and, Bool.not_false, Bool.false_and, Bool.false_eq_true,
      if_false, value_false, hcarry]
    rw [pow_one] at hround
    generalize (op2 + op1) &&& getMask n.bits = res at *
    generalize op2.toNat % 2 ^ n.bits = x at *
    generalize op1.toNat % 2 ^ n.bits = y at *
    rw [hw] at hsum hlt1 hlt2
    rw [hw]
    split_ifs with h
    · -- the carry becomes the sign bit, which the average of the rest does not reach
      have hz : (x : ℤ) + y = res.toNat + 2 * m := by omega
      have hle : (roundingMode vxrm).roundDiv res.toNat 2 ≤ m - 1 := by
        apply RoundingMode.roundDiv_le _ (by decide)
        push_cast
        omega
      rw [toNat_truncate_or_msb n (by rw [hm]; omega), hround, hz, roundDiv_add_modulus _ heven, hmz]
    · have hz : (x : ℤ) + y = res.toNat := by omega
      rw [toNat_truncate, Int.natCast_emod, hround, hz]
      push_cast
      rfl

/-- `vAsub`: the rounded half of the difference. -/
theorem vAsub_spec (hvd : e.vdEew = n.bits) (vxrm : BitVec 2) :
    ((n.truncate (vAsub e vxrm op2 op1)).toNat : ℤ) =
      (roundingMode vxrm).roundDiv (value e.vdSigned n.bits op2 - value e.vdSigned n.bits op1) 2
        % 2 ^ n.bits := by
  cases hsigned : e.vdSigned with
  | true =>
    -- the difference has one bit more than an element: overflow both ways is told by the signs
    obtain ⟨hbelow, habove, hres⟩ := signed_sub n op2 op1
    simp only [vAsub, hvd, hsigned, Bool.true_and, Bool.not_true, Bool.false_and, Bool.false_eq_true,
      if_true, if_false]
    apply average_signed n vxrm hres
    · obtain ⟨hlo2, hhi2⟩ := value_true_range n op2
      obtain ⟨hlo1, hhi1⟩ := value_true_range n op1
      obtain ⟨m, -, -, -, hmz, hwz, -⟩ := exists_half n
      omega
    · rw [← hbelow, ← habove, Bool.or_eq_true, Bool.and_comm (msbSet n.bits op2),
        Bool.and_comm (!msbSet n.bits op2)]
  | false =>
    -- without signs a borrow stands for `2 ^ sew`, which the code puts back into the top bit
    have hborrow := unsigned_sub n op2 op1
    have hdiff := sub_and_getMask_cases n op2 op1
    have hround := toNat_vRound vxrm ((op2 - op1) &&& getMask n.bits) (show 1 < 64 by decide)
    have hlt2 := Nat.mod_lt op2.toNat (Nat.two_pow_pos n.bits)
    obtain ⟨m, heven, -, hw, hmz, hwz, -⟩ := exists_half n
    simp only [vAsub, hvd, hsigned, Bool.true_and, Bool.not_false, Bool.false_and, Bool.false_eq_true,
      if_false, value_false, hborrow]
    rw [pow_one] at hround
    generalize (op2 - op1) &&& getMask n.bits = res at *
    generalize op2.toNat % 2 ^ n.bits = x at *
    generalize op1.toNat % 2 ^ n.bits = y at *
    rw [hw] at hdiff hlt2
    split_ifs with h
    · have hz : (x : ℤ) - y = res.toNat - 2 * m := by omega
      rw [toNat_truncate_xor_msb, toNat_truncate, Int.natCast_emod, hround, hz,
        roundDiv_sub_modulus _ heven, hmz, hwz, hw, Nat.cast_mul, Nat.cast_ofNat, Int.emod_add_emod]
      exact add_half_emod _ m
    · have hz : (x : ℤ) - y = res.toNat := by omega
      rw [toNat_truncate, Int.natCast_emod, hround, hz]
      push_cast
      rfl

/-! ### Multiplication -/

/-- The least number is the one of which only the sign bit is set. -/
theorem and_getMask_eq_msb_iff (x : BitVec 64) :
    x &&& getMask n.bits = msb n.bits ↔ value true n.bits x = -2 ^ (n.bits - 1) := by
  have hmsb := msb_toNat (bits_pos n) (bits_le n)
  have hand := toNat_and_getMask x (bits_le n)
  have hv := value_true_cases n x
  have hlt := Nat.mod_lt x.toNat (Nat.two_pow_pos n.bits)
  obtain ⟨m, -, hm, hw, hmz, -, hpos⟩ := exists_half n
  rw [← BitVec.toNat_inj, hand, hmsb, hmz]
  generalize x.toNat % 2 ^ n.bits = r at *
  rw [hm, hw] at hv
  rw [hw] at hlt
  rw [hm]
  omega

/-- Products of signed numbers: only that of the least number with itself leaves the range. -/
theorem mul_bounds {m a b : ℤ} (ha : -m ≤ a ∧ a < m) (hb : -m ≤ b ∧ b < m)
    (hne : ¬(a = -m ∧ b = -m)) : -m * m ≤ a * b ∧ a * b ≤ (m - 1) * m := by
  have hm : 0 ≤ m := by omega
  have ha' : |a| ≤ m := abs_le.2 ⟨ha.1, ha.2.le⟩
  have hb' : |b| ≤ m := abs_le.2 ⟨hb.1, hb.2.le⟩
  have hle : |a * b| ≤ m * m := by
    rw [abs_mul]
    exact mul_le_mul ha' hb' (abs_nonneg b) hm
  constructor
  · have := (abs_le.1 hle).1
    linarith
  · refine (le_abs_self _).trans ?_
    rw [abs_mul]
    by_cases h : a = -m
    · have hb'' : |b| ≤ m - 1 := abs_le.2 ⟨by omega, by omega⟩
      rw [mul_comm]
      exact mul_le_mul hb'' ha' (abs_nonneg a) (by omega)
    · have ha'' : |a| ≤ m - 1 := abs_le.2 ⟨by omega, by omega⟩
      exact mul_le_mul ha'' hb' (abs_nonneg b) (by omega)

/-- What is stored of the rounded product of two fractions. -/
theorem truncate_multiply (vxrm : BitVec 2) :
    ((n.truncate (multiply true true vxrm (signExtend op2 n.bits) (signExtend op1 n.bits)
        (n.bits - 1) true).2).toNat : ℤ)
      = (roundingMode vxrm).roundDiv (value true n.bits op2 * value true n.bits op1) (2 ^ (n.bits - 1))
        % 2 ^ n.bits := by
  have hdvd : (2 : ℤ) ^ n.bits ∣ 2 ^ 64 := pow_dvd_pow 2 (bits_le n)
  have hshift : n.bits - 1 < 64 := by
    have := bits_le n
    omega
  rw [toNat_truncate, Int.natCast_emod, multiply_spec _ _ _ hshift, Nat.cast_pow, Nat.cast_ofNat,
    Int.emod_emod_of_dvd _ hdvd, ← value_true, ← value_true]

/-- `vSmul`: the rounded product of two fractions. -/
theorem vSmul_spec (hvd : e.vdEew = n.bits) (hop2 : e.op2Eew = n.bits) (hop1 : e.op1Eew = n.bits)
    (vxrm : BitVec 2) :
    Saturated n true
      ((roundingMode vxrm).roundDiv (value true n.bits op2 * value true n.bits op1) (2 ^ (n.bits - 1)))
      (vSmul e vxrm op2 op1) := by
  have hrange2 := value_true_range n op2
  have hrange1 := value_true_range n op1
  have hlow : lowest true n.bits = -2 ^ (n.bits - 1) := rfl
  have hhigh : highest true n.bits = 2 ^ (n.bits - 1) - 1 := rfl
  have hpos : 0 < 2 ^ (n.bits - 1) := Nat.two_pow_pos _
  have hcast : ((2 ^ (n.bits - 1) : ℕ) : ℤ) = 2 ^ (n.bits - 1) := by push_cast; rfl
  simp only [vSmul, hvd, hop2, hop1, and_getMask_eq_msb_iff]
  split_ifs with h
  · rw [h.1, h.2]
    have hone : (2 : ℤ) ^ (n.bits - 1) ≤ (roundingMode vxrm).roundDiv
        (-2 ^ (n.bits - 1) * -2 ^ (n.bits - 1)) (2 ^ (n.bits - 1)) := by
      apply RoundingMode.le_roundDiv _ hpos
      rw [hcast, neg_mul_neg]
    apply saturated_of_gt
    · rw [hhigh]
      omega
    · cases n <;> decide
  · obtain ⟨hlo, hhi⟩ := mul_bounds hrange2 hrange1 h
    apply saturated_of_mem
    · rw [hlow]
      apply RoundingMode.le_roundDiv _ hpos
      rw [hcast]
      exact hlo
    · rw [hhigh]
      apply RoundingMode.roundDiv_le _ hpos
      rw [hcast]
      exact hhi
    · exact truncate_multiply op2 op1 vxrm

/-! ### Shifts -/

/-- The shift amount is taken modulo the width of what is shifted. -/
theorem toNat_and_shiftMask {p : Width} {vsew : BitVec 3} (hsew : 2 ^ (vsew.toNat + 3) = n.bits)
    (hp : p.bits = n.bits ∨ p.bits = 2 * n.bits) :
    (op1 &&& getMask (vsew.toNat + 2 + p.bits / n.bits)).toNat = op1.toNat % p.bits := by
  have hn := bits_pos n
  have hpow : 2 ^ (vsew.toNat + 2 + p.bits / n.bits) = p.bits := by
    rcases hp with hp | hp
    · rw [hp, Nat.div_self hn]
      exact hsew
    · rw [hp, Nat.mul_div_cancel _ hn, ← hsew, ← Nat.pow_succ']
  have hle : vsew.toNat + 2 + p.bits / n.bits ≤ 64 := by
    have hlt := Nat.lt_two_pow_self (n := vsew.toNat + 2 + p.bits / n.bits)
    have := bits_le p
    omega
  rw [toNat_and_getMask _ hle, hpow]

/-- A number that fits is not changed by extending its sign. -/
theorem signExtend_of_mem {p : Width} {x : BitVec 64} (hlo : -2 ^ (p.bits - 1) ≤ x.toInt)
    (hhi : x.toInt < 2 ^ (p.bits - 1)) : signExtend x p.bits = x := by
  have hmod : (x.toNat : ℤ) % ((2 ^ p.bits : ℕ) : ℤ) = x.toInt % ((2 ^ p.bits : ℕ) : ℤ) := by
    have h := toNat_truncate_toInt p x
    rw [toNat_truncate, Int.natCast_emod] at h
    rw [h]
    push_cast
    rfl
  obtain ⟨m, -, -, hw, hmz, -⟩ := exists_half p
  rw [← BitVec.toInt_inj, toInt_signExtend x (bits_pos p) (bits_le p), ← Int.emod_bmod, hmod,
    Int.emod_bmod, hw]
  apply Int.bmod_eq_of_le
  · omega
  · omega

/-- The bounds of `clampSigned` are the lowest and the highest number of the width. -/
theorem toInt_clampBounds (n : Width) :
    (-msb n.bits).toInt = lowest true n.bits ∧ (msb n.bits - 1).toInt = highest true n.bits := by
  cases n <;> decide

theorem clampSigned_spec {p : Width} {x : BitVec 64} (hlo : -2 ^ (p.bits - 1) ≤ x.toInt)
    (hhi : x.toInt < 2 ^ (p.bits - 1)) : Saturated n true x.toInt (clampSigned x p.bits n.bits) := by
  obtain ⟨hlower, hupper⟩ := toInt_clampBounds n
  have hne {y : BitVec 64} (h : y.toInt ≠ x.toInt) : (y != x) = true := by
    rw [bne_iff_ne]
    rintro rfl
    exact h rfl
  simp only [clampSigned, signExtend_of_mem hlo hhi, BitVec.slt_iff_toInt_lt, hlower, hupper]
  split_ifs with hb ha
  · rw [hne (by omega)]
    apply saturated_of_lt hb
    rw [toNat_truncate_toInt, hlower]
  · rw [hne (by omega)]
    apply saturated_of_gt ha
    rw [toNat_truncate_toInt, hupper]
  · rw [bne_self_eq_false]
    exact saturated_of_mem (not_lt.1 hb) (not_lt.1 ha) (toNat_truncate_toInt n x)

/-- A signed number shifted to the right stays in its range. -/
theorem roundDiv_signed_range (r : RoundingMode) (p : Width) (x : BitVec 64) (d : ℕ) :
    -2 ^ (p.bits - 1) ≤ r.roundDiv (value true p.bits x) (2 ^ d) ∧
      r.roundDiv (value true p.bits x) (2 ^ d) < 2 ^ (p.bits - 1) := by
  obtain ⟨hlo, hhi⟩ := value_true_range p x
  have hd : (1 : ℤ) ≤ ((2 ^ d : ℕ) : ℤ) := by exact_mod_cast Nat.one_le_two_pow
  have hm : (0 : ℤ) < 2 ^ (p.bits - 1) := by positivity
  constructor
  · apply r.le_roundDiv (Nat.two_pow_pos d)
    nlinarith
  · have : r.roundDiv (value true p.bits x) (2 ^ d) ≤ 2 ^ (p.bits - 1) - 1 := by
      apply r.roundDiv_le (Nat.two_pow_pos d)
      nlinarith
    omega

section Shift

variable {p : Width} {vsew : BitVec 3} (vxrm : BitVec 2)

/-- `vShiftRight` without clipping: the quotient by a power of two. -/
theorem vShiftRight_spec (hvd : e.vdEew = n.bits) (hop2 : e.op2Eew = p.bits)
    (hsew : 2 ^ (vsew.toNat + 3) = n.bits) (hp : p.bits = n.bits ∨ p.bits = 2 * n.bits)
    (hlt : op2.toNat < 2 ^ p.bits) :
    ((n.truncate (vShiftRight false e vsew vxrm op2 op1).1).toNat : ℤ) =
        (roundingMode vxrm).roundDiv (value e.vdSigned p.bits op2) (2 ^ (op1.toNat % p.bits)) % 2 ^ n.bits ∧
      (vShiftRight false e vsew vxrm op2 op1).2 = false := by
  have hshift : op1.toNat % p.bits < 64 := by
    have := Nat.mod_lt op1.toNat (bits_pos p)
    have := bits_le p
    omega
  simp only [vShiftRight, hvd, hop2, toNat_and_shiftMask op1 hsew hp, Bool.false_eq_true, if_false]
  refine ⟨?_, trivial⟩
  cases hsigned : e.vdSigned with
  | true => rw [if_pos rfl, toNat_truncate_toInt, toInt_vRound _ _ hshift, value_true]
  | false =>
    rw [if_neg (by decide), toNat_truncate, Int.natCast_emod, toNat_vRound _ _ hshift,
      value_false_of_lt hlt]
    push_cast
    rfl

/-- `vShiftRight` with clipping: the quotient is rounded and then saturated, signed or not. -/
theorem vShiftRight_clip_spec (hvd : e.vdEew = n.bits) (hop2 : e.op2Eew = p.bits)
    (hsew : 2 ^ (vsew.toNat + 3) = n.bits) (hp : p.bits = n.bits ∨ p.bits = 2 * n.bits)
    (hlt : op2.toNat < 2 ^ p.bits) :
    Saturated n e.vdSigned
      ((roundingMode vxrm).roundDiv (value e.vdSigned p.bits op2) (2 ^ (op1.toNat % p.bits)))
      (vShiftRight true e vsew vxrm op2 op1) := by
  have hshift : op1.toNat % p.bits < 64 := by
    have := Nat.mod_lt op1.toNat (bits_pos p)
    have := bits_le p
    omega
  simp only [vShiftRight, hvd, hop2, toNat_and_shiftMask op1 hsew hp, if_true]
  cases hsigned : e.vdSigned with
  | true =>
    have hround := toInt_vRound vxrm (signExtend op2 p.bits) hshift
    rw [← value_true] at hround
    obtain ⟨hlo, hhi⟩ := roundDiv_signed_range (roundingMode vxrm) p op2 (op1.toNat % p.bits)
    rw [← hround] at hlo hhi ⊢
    rw [if_neg (by decide), if_pos rfl]
    exact clampSigned_spec hlo hhi
  | false =>
    have hround := toNat_vRound vxrm op2 hshift
    have hmask : getMask n.bits < vRound vxrm false op2 (op1.toNat % p.bits) ↔
        highest false n.bits < (vRound vxrm false op2 (op1.toNat % p.bits)).toNat := by
      have hpos := Nat.two_pow_pos n.bits
      have hcast : ((2 ^ n.bits : ℕ) : ℤ) = 2 ^ n.bits := by push_cast; rfl
      rw [BitVec.lt_def, getMask_toNat (bits_le n), highest, if_neg (by decide), ← hcast]
      omega
    rw [value_false_of_lt hlt, ← hround]
    simp only [Bool.not_false, if_true, Bool.false_eq_true, if_false, hmask]
    split_ifs with h
    · apply saturated_of_gt h
      cases n <;> decide
    · apply saturated_of_mem
      · exact Int.natCast_nonneg _
      · exact not_lt.1 h
      · rw [toNat_truncate]
        push_cast
        rfl

end Shift

end Element

/-! ### The instructions -/

namespace FixedOp

/-- Whether the numbers are signed. -/
def signed : FixedOp → Bool
  | saddu | ssubu | aaddu | asubu | ssrl | nclipu => false
  | sadd | ssub | aadd | asub | smul | ssra | nclip => true

/-- Whether the result is moved into the range of the destination; otherwise its low bits are kept. -/
def saturates : FixedOp → Bool
  | saddu | sadd | ssubu | ssub | smul | nclipu | nclip => true
  | aaddu | aadd | asubu | asub | ssrl | ssra => false

/-- The width of the elements of `vs2`. -/
def op2Width (op : FixedOp) (sew : ℕ) : ℕ :=
  match op with
  | nclipu | nclip => 2 * sew
  | _ => sew

/-- The result before it is rounded. -/
def exactResult (op : FixedOp) (sew : ℕ) (a b : ℤ) (shift : ℕ) : ℚ :=
  match op with
  | saddu | sadd => a + b
  | ssubu | ssub => a - b
  | aaddu | aadd => (a + b) / 2
  | asubu | asub => (a - b) / 2
  | smul => a * b / 2 ^ (sew - 1)
  | ssrl | ssra | nclipu | nclip => a / 2 ^ shift

/-- The result that is stored, modulo `2 ^ sew`. -/
def destResult (op : FixedOp) (sew : ℕ) (z : ℤ) : ℤ :=
  if op.saturates then saturate (lowest op.signed sew) (highest op.signed sew) z else z

/-- The members that an instruction sets. -/
def members (op : FixedOp) (param : ParamSel) : Members :=
  { elemSel := op.elemSel param, paramSel := param }

/-- The rounded result for an element. -/
def rounded (op : FixedOp) (param : ParamSel) (o : Operands) (s : VecIss) (i : ℕ) : ℤ :=
  let sew := s.vec.getIntVSew
  let source1 := source1 (op.members param) o s i
  let source2 := source2 (op.members param) o s i
  (roundingMode s.vxrm).round <|
    op.exactResult sew (value op.signed (op.op2Width sew) source2) (value op.signed sew source1)
      (source1.toNat % op.op2Width sew)

section

variable {op : FixedOp} {param : ParamSel} {o : Operands} {s : VecIss} {n : Width}

variable (op param) in
/-- The widths and signs of the instructions. -/
theorem getSignedEew_members (hsew : s.vec.getIntVSew = n.bits) :
    (getSignedEew (op.members param) s.vec).vdEew = n.bits ∧
      (getSignedEew (op.members param) s.vec).vdSigned = op.signed ∧
      (getSignedEew (op.members param) s.vec).op2Eew = op.op2Width n.bits ∧
      (getSignedEew (op.members param) s.vec).op1Eew = n.bits := by
  unfold getSignedEew members
  rw [hsew]
  cases op <;> cases param <;> exact ⟨rfl, rfl, rfl, rfl⟩

theorem members_vd : (op.elemSel param).getLsbD 5 = false := by
  cases op <;> cases param <;> rfl

theorem members_op1 : (op.elemSel param).getLsbD 3 = false := by
  cases op <;> cases param <;> rfl

/-- What the function of an instruction gives for a number. -/
def Stored (op : FixedOp) (n : Width) (z : ℤ) (r : BitVec 64 × Bool) : Prop :=
  ((n.truncate r.1).toNat : ℤ) = op.destResult n.bits z % 2 ^ n.bits ∧
    (r.2 = true ↔ op.destResult n.bits z ≠ z)

theorem Stored.of_saturated {z : ℤ} {r : BitVec 64 × Bool} (hop : op.saturates = true)
    (h : Saturated n op.signed z r) : Stored op n z r := by
  unfold Stored destResult
  rw [if_pos hop]
  exact h

theorem Stored.of_wrapped {z : ℤ} {r : BitVec 64 × Bool} (hop : op.saturates = false)
    (h : ((n.truncate r.1).toNat : ℤ) = z % 2 ^ n.bits) (hr : r.2 = false) : Stored op n z r := by
  unfold Stored destResult
  rw [if_neg (by rw [hop]; decide)]
  exact ⟨h, by simp [hr]⟩

/-- The function of an instruction rounds the exact result and stores it. -/
theorem func_spec {e : SignedEew} {p : Width} (hvd : e.vdEew = n.bits) (hsigned : e.vdSigned = op.signed)
    (hop2 : e.op2Eew = p.bits) (hop1 : e.op1Eew = n.bits) (hp : p.bits = op.op2Width n.bits)
    (hsew : s.vec.getIntVSew = n.bits) {op2 : BitVec 64} (op1 : BitVec 64) (hlt : op2.toNat < 2 ^ p.bits) :
    Stored op n
      ((roundingMode s.vxrm).round (op.exactResult n.bits (value op.signed p.bits op2)
        (value op.signed n.bits op1) (op1.toNat % p.bits)))
      (op.func e s op2 op1) := by
  -- rounding a whole number, a half and a quotient by a power of two
  have hint (a : ℤ) : (roundingMode s.vxrm).round a = a := RoundingMode.round_intCast _ a
  have htwo (a : ℤ) : (roundingMode s.vxrm).round ((a : ℚ) / 2) = (roundingMode s.vxrm).roundDiv a 2 :=
    RoundingMode.round_div _ a (show 0 < 2 by decide)
  have hpow (a : ℤ) (d : ℕ) : (roundingMode s.vxrm).round ((a : ℚ) / 2 ^ d)
      = (roundingMode s.vxrm).roundDiv a (2 ^ d) := by
    have h := RoundingMode.round_div (roundingMode s.vxrm) a (Nat.two_pow_pos d)
    push_cast at h
    exact h
  have hvsew : 2 ^ (s.vec.vsew.toNat + 3) = n.bits := hsew
  cases op with
  -- sums and differences are exact and saturate
  | saddu =>
    obtain rfl := bits_injective hp
    simp only [exactResult, ← Int.cast_add, hint, func, hsew]
    exact .of_saturated rfl (adduSaturate_spec p op2 op1)
  | sadd =>
    obtain rfl := bits_injective hp
    simp only [exactResult, ← Int.cast_add, hint, func, hvd]
    exact .of_saturated rfl (addSaturate_spec p op2 op1)
  | ssubu =>
    obtain rfl := bits_injective hp
    simp only [exactResult, ← Int.cast_sub, hint, func, hsew]
    exact .of_saturated rfl (vSsubu_spec p op2 op1 hlt)
  | ssub =>
    obtain rfl := bits_injective hp
    simp only [exactResult, ← Int.cast_sub, hint, func]
    exact .of_saturated rfl (vSsub_spec p op2 op1 hvd hop2)
  -- averages are rounded and always fit
  | aaddu | aadd =>
    obtain rfl := bits_injective hp
    simp only [exactResult, ← Int.cast_add, htwo, func]
    rw [← hsigned]
    exact .of_wrapped rfl (vAadd_spec op2 op1 hvd _) rfl
  | asubu | asub =>
    obtain rfl := bits_injective hp
    simp only [exactResult, ← Int.cast_sub, htwo, func]
    rw [← hsigned]
    exact .of_wrapped rfl (vAsub_spec op2 op1 hvd _) rfl
  | smul =>
    obtain rfl := bits_injective hp
    simp only [exactResult, ← Int.cast_mul, hpow, func]
    exact .of_saturated rfl (vSmul_spec op2 op1 hvd hop2 hop1 _)
  -- a shift of an element of the same width fits, one of twice the width is clipped
  | ssrl | ssra =>
    obtain ⟨hres, hsat⟩ := vShiftRight_spec op2 op1 s.vxrm hvd hop2 hvsew (Or.inl hp) hlt
    simp only [exactResult, hpow, func]
    rw [← hsigned]
    exact .of_wrapped rfl hres hsat
  | nclipu | nclip =>
    have hres := vShiftRight_clip_spec op2 op1 s.vxrm hvd hop2 hvsew (Or.inr hp) hlt
    simp only [exactResult, hpow, func]
    rw [hsigned] at hres
    exact .of_saturated rfl hres

/-- The function of an instruction for an element of a state. -/
theorem loopResult_spec (hacc : Accepted (op.members param) o s) (hsew : s.vec.getIntVSew = n.bits)
    (i : ℕ) :
    ∃ r, loopResult (fun e s op2 op1 => some (op.func e s op2 op1)) (op.elemSel param) param o s i
        = some r ∧ Stored op n (op.rounded param o s i) r := by
  obtain ⟨hvd, hsigned, hop2, hop1⟩ := getSignedEew_members op param hsew
  obtain ⟨p, hp⟩ := hacc.exists_op2Eew
  refine ⟨_, rfl, ?_⟩
  have hlt : (source2 (op.members param) o s i).toNat < 2 ^ p.bits := by
    unfold source2
    rw [hp]
    exact toNat_getSewSingleOperand_lt _ _ _ _
  have h := func_spec hvd hsigned hp hop1 (hp.symm.trans hop2) hsew
    (getOperands (op.members param) o s i).1 hlt
  -- the operands stand for the same numbers as what they come from
  have hmod := toNat_getOperands_fst_mod (o := o) (i := i) hop1
  have hshift : (getOperands (op.members param) o s i).1.toNat % p.bits
      = (source1 (op.members param) o s i).toNat % p.bits := by
    have hdvd : p.bits ∣ 2 ^ n.bits := by cases p <;> cases n <;> decide
    rw [← Nat.mod_mod_of_dvd _ hdvd, hmod, Nat.mod_mod_of_dvd _ hdvd]
  rw [value_congr hmod, hshift] at h
  simp only [rounded, hsew, ← hop2, hp]
  exact h

end

end FixedOp

/-- **Fixed-point instructions.**  For every width, rounding mode and form of the operands, the active
elements are the results of the exact operations, rounded and then saturated or reduced modulo `2 ^ sew`;
`vxsat` is set if it was set before or an active element was saturated. -/
theorem fixedPoint {op : FixedOp} {param : ParamSel} {o : Operands} {s : VecIss}
    (hacc : Accepted (op.members param) o s) :
    ∃ s', (op.exec param o).run' s = (.ok (), s') ∧
      (∀ i, s.vec.vInactive o s.vec.vl i = false →
        let sew := s.vec.getIntVSew
        ((s'.vec.getSewSingleOperand sew o.rd.val i).toNat : ℤ)
          = op.destResult sew (op.rounded param o s i) % 2 ^ sew) ∧
      (s'.vxsat = true ↔ s.vxsat = true ∨ ∃ i, s.vec.vInactive o s.vec.vl i = false ∧
        op.destResult s.vec.getIntVSew (op.rounded param o s i) ≠ op.rounded param o s i) := by
  obtain ⟨n, hsew⟩ := hacc.exists_sew op.members_vd
  have hstored := fun i => op.loopResult_spec hacc hsew i
  obtain ⟨s', hrun, hw⟩ := run'_vLoop (fun e s op2 op1 => some (op.func e s op2 op1))
    (op.elemSel param) param hacc hsew op.members_vd op.members_op1
    (fun s' hvxrm hvsew e => by
      funext op2 op1
      cases op <;> simp only [FixedOp.func, VecState.getIntVSew, hvxrm, hvsew])
    fun i hact hnone => by
      obtain ⟨r, hr, -⟩ := hstored i
      rw [hr] at hnone
      cases hnone
  refine ⟨_, hrun, fun i hact => ?_, ?_⟩
  · -- the elements
    obtain ⟨r, hr, hres, -⟩ := hstored i
    have hvalue := hw.elems i (lt_vl_of_active hact)
    rw [loopEff_of_active hact, hr] at hvalue
    simp only [hsew]
    rw [← hres]
    exact congrArg (fun x : BitVec 64 => (x.toNat : ℤ)) hvalue
  · show s'.vxsat = true ↔ _
    -- `vxsat` is only ever set, by the iteration of an active element
    rw [hw.vxsat, Bool.or_eq_true, List.any_eq_true, hsew]
    refine or_congr_right ⟨?_, ?_⟩
    · rintro ⟨i, -, hsat⟩
      cases hact : s.vec.vInactive o s.vec.vl i with
      | true =>
        rw [loopEff_of_inactive hact] at hsat
        cases hsat
      | false =>
        obtain ⟨r, hr, -, hflag⟩ := hstored i
        rw [loopEff_of_active hact, hr] at hsat
        exact ⟨i, hact, hflag.1 hsat⟩
    · rintro ⟨i, hact, hne⟩
      obtain ⟨r, hr, -, hflag⟩ := hstored i
      refine ⟨i, List.mem_range.2 (lt_vl_of_active hact), ?_⟩
      rw [loopEff_of_active hact, hr]
      exact hflag.2 hne

/-- `vsmul.vv v8, v16, v24`. -/
def vsmulOperands : Operands := ⟨0x9F0C0457, 8, 24, 16, 0, 0, true⟩

/-- The fractions -1 and 1/2, with 64 bits each, in `v16` and in `v24`. -/
def fractions : VecIss where
  regs _ := 0
  vs := 1
  vec := ((((⟨fun _ => 0, 2, 0, false, 3, 0⟩ : VecState).writeSewSingleOperand 64 16 0 int64Min)
    |>.writeSewSingleOperand 64 24 0 int64Min)
    |>.writeSewSingleOperand 64 16 1 (msb 63))
    |>.writeSewSingleOperand 64 24 1 (msb 63)
  vxrm := 0
  vxsat := false

unseal Rat.mul Rat.inv Rat.add Rat.sub

theorem accepted_fractions : Accepted (FixedOp.smul.members .vv) vsmulOperands fractions := by
  have hzero : Accepted (FixedOp.smul.members .vv) vsmulOperands
      ⟨fun _ => 0, 1, ⟨fun _ => 0, 2, 0, false, 3, 0⟩, 0, false⟩ := by
    refine ⟨by decide, rfl, by decide, ?_⟩
    unfold VecState.VlInRange
    decide
  exact hzero.of_vRegs rfl ⟨_, rfl⟩

/-- The square of -1 is saturated to the greatest fraction, and that of 1/2 is 1/4. -/
theorem fixedPoint_fractions :
    ∃ s', (FixedOp.smul.exec .vv vsmulOperands).run' fractions = (.ok (), s') ∧
      ((s'.vec.getSewSingleOperand 64 8 0).toNat : ℤ) = 2 ^ 63 - 1 ∧
      ((s'.vec.getSewSingleOperand 64 8 1).toNat : ℤ) = 2 ^ 61 ∧ s'.vxsat = true := by
  have hact (i : Fin 2) : fractions.vec.vInactive vsmulOperands fractions.vec.vl i = false := by
    fin_cases i <;> decide
  have hone : FixedOp.smul.rounded .vv vsmulOperands fractions 0 = 2 ^ 63 := by decide
  have hquarter : FixedOp.smul.rounded .vv vsmulOperands fractions 1 = 2 ^ 61 := by decide
  obtain ⟨s', hrun, hres, hsat⟩ := fixedPoint accepted_fractions
  refine ⟨s', hrun, ?_, ?_, hsat.2 (Or.inr ⟨0, hact 0, ?_⟩)⟩
  · have h := hres 0 (hact 0)
    rw [hone] at h
    exact h
  · have h := hres 1 (hact 1)
    rw [hquarter] at h
    exact h
  · rw [hone]
    decide

end RiscvVp.Vec
