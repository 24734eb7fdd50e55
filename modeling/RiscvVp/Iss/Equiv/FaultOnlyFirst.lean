import RiscvVp.Cheri.Equiv.Ram
import RiscvVp.Iss.VLoadStore

/-!
# Fault-only-first loads

A fault-only-first load traps where element 0 faults, and where a later element is the first to fault
it does not trap but shortens the vector length to the elements that were loaded.  The handler of
`vLoadStore` stands around the write to the vector register, which cannot throw, and not around the
load, so every fault is a trap: the instruction behaves as it should exactly where no element but
element 0 is the first to fault.
-/

namespace RiscvVp

open Cheri (VecState VecIss Operands LoadStoreType elemWidth memcpy ofBytes bytesOf getLsbD_ofBytes
  getLsbD_bytesOf ofBytes_congr)

/-! ### Elements in the vector registers -/

@[simp] theorem Width.bits_div (n : Width) : n.bits / 8 = n.bytes := by
  cases n <;> rfl

@[simp] theorem elemWidth_bits (n : Width) : elemWidth n.bits = some n := by
  cases n <;> rfl

namespace Cheri.VecState

variable (v : VecState) (n : Width)

/-- Where an element lies, that is what is read there. -/
theorem getSewSingleOperand_congr {v v' : VecState} {addr index : ℕ}
    (h : ∀ a, a < n.bytes →
      v.vRegs (addr * 64 + index * n.bytes + a) = v'.vRegs (addr * 64 + index * n.bytes + a)) :
    v.getSewSingleOperand n.bits addr index = v'.getSewSingleOperand n.bits addr index := by
  unfold getSewSingleOperand
  congr 1
  apply ofBytes_congr
  intro a ha
  rw [Width.bits_div] at ha ⊢
  exact h a ha

/-- An element that has been written is read back, however its place is spelled. -/
theorem getSewSingleOperand_write {addr index addr' index' : ℕ} (x : BitVec 64)
    (h : addr' * 64 + index' * n.bytes = addr * 64 + index * n.bytes) :
    (v.writeSewSingleOperand n.bits addr index x).getSewSingleOperand n.bits addr' index'
      = n.truncate x := by
  unfold getSewSingleOperand writeSewSingleOperand Width.truncate
  apply BitVec.eq_of_getLsbD_eq
  intro i hi
  have hbits : 8 * (n.bits / 8) = n.bits := by cases n <;> rfl
  rw [BitVec.getLsbD_setWidth, BitVec.getLsbD_setWidth, getLsbD_ofBytes, BitVec.getLsbD_setWidth,
    hbits, Width.bits_div]
  by_cases hin : i < n.bits
  · have hlt : i / 8 < n.bytes := by
      have := hbits
      rw [Width.bits_div] at this
      omega
    dsimp only [memcpy]
    rw [h]
    have hmem : addr * 64 + index * n.bytes ≤ addr * 64 + index * n.bytes + i / 8 ∧
        addr * 64 + index * n.bytes + i / 8 < addr * 64 + index * n.bytes + n.bytes := by omega
    rw [if_pos hmem, Nat.add_sub_cancel_left, getLsbD_bytesOf _ _ (by omega)]
    have hi8 : 8 * (i / 8) + i % 8 = i := by omega
    rw [hi8]
  · simp [hin]

/-- Bytes outside the element that is written stay. -/
theorem vRegs_write_of_disjoint {addr index : ℕ} (x : BitVec 64) {a : ℕ}
    (h : a < addr * 64 + index * n.bytes ∨ addr * 64 + index * n.bytes + n.bytes ≤ a) :
    (v.writeSewSingleOperand n.bits addr index x).vRegs a = v.vRegs a := by
  unfold writeSewSingleOperand memcpy
  simp only [Width.bits_div]
  rw [if_neg (by omega)]

@[simp] theorem effectiveMulIdx_write (type : LoadStoreType) (sew addr index eew : ℕ)
    (x : BitVec 64) :
    (v.writeSewSingleOperand sew addr index x).effectiveMulIdx type eew = v.effectiveMulIdx type eew :=
  rfl

/-- An element counts from the first register of its group. -/
theorem vIndices_fofl (o : Operands) (idx i field : ℕ) :
    (vIndices o .fofl n.bits idx i field).1 * 64 + (vIndices o .fofl n.bits idx i field).2 * n.bytes
      = (o.rd.val + field * idx) * 64 + i * n.bytes := by
  cases n <;> simp only [vIndices, Width.bits, Width.bytes] <;> omega

/-- A register group holds as many elements as there are. -/
theorem vl_mul_le (hvl : v.VlInRange) :
    v.vl * n.bytes ≤ 64 * v.effectiveMulIdx .fofl n.bits := by
  have hsew : (0 : ℚ) < v.getIntVSew := by
    unfold getIntVSew
    positivity
  -- the number of bytes is at most what `EMUL` registers hold
  have hemul : (v.vl * n.bytes : ℚ) ≤ 64 * (n.bits / v.getIntVSew * v.getVlmul) := by
    have hbits : (n.bits : ℚ) = 8 * n.bytes := by
      unfold Width.bits
      push_cast
      ring
    calc (v.vl * n.bytes : ℚ) ≤ v.getVlmul * 512 / v.getIntVSew * n.bytes :=
          mul_le_mul_of_nonneg_right hvl (Nat.cast_nonneg _)
      _ = 64 * (n.bits / v.getIntVSew * v.getVlmul) := by
          rw [hbits]
          ring
  -- `EMUL` is a power of two, so it is whole where it is at least one
  obtain ⟨z, hz⟩ : ∃ z : ℤ, (n.bits / v.getIntVSew * v.getVlmul : ℚ) = 2 ^ z := by
    obtain ⟨b, hb⟩ : ∃ b : ℕ, n.bits = 2 ^ b := by
      cases n
      · exact ⟨3, rfl⟩
      · exact ⟨4, rfl⟩
      · exact ⟨5, rfl⟩
      · exact ⟨6, rfl⟩
    refine ⟨b - (v.vsew.toNat + 3 : ℕ) + v.vlmul.toInt, ?_⟩
    rw [zpow_add₀ two_ne_zero, zpow_sub₀ two_ne_zero, zpow_natCast, zpow_natCast, hb]
    simp [getIntVSew, getVlmul]
  have hcast : (v.vl * n.bytes : ℚ) = (v.vl * n.bytes : ℕ) := by push_cast; rfl
  unfold effectiveMulIdx
  simp only
  rw [hz, hcast] at hemul
  rw [hz]
  split_ifs with hone
  · have hlt : ((v.vl * n.bytes : ℕ) : ℚ) ≤ (64 : ℕ) := by
      push_cast at hemul ⊢
      linarith
    have := Nat.cast_le.1 hlt
    omega
  · have hnonneg : 0 ≤ z := by
      by_contra hneg
      exact hone (zpow_lt_one_of_neg₀ one_lt_two (not_le.1 hneg))
    obtain ⟨k, rfl⟩ := Int.eq_ofNat_of_zero_le hnonneg
    have hfloor : ⌊((2 : ℚ) ^ (k : ℤ))⌋.toNat = 2 ^ k := by
      rw [zpow_natCast, ← Nat.cast_ofNat, ← Nat.cast_pow, Int.floor_natCast, Int.toNat_natCast]
    rw [hfloor]
    rw [zpow_natCast] at hemul
    exact_mod_cast hemul

end Cheri.VecState

namespace VecHart

variable {σ : Type} (m : VecMem σ) (o : Operands) (n : Width)

/-! ### The loads of the elements -/

/-- The address of a field of an element. -/
def foflAddr (s : VecHart σ) (i field : ℕ) : BitVec 64 :=
  s.regs o.rs1 + BitVec.ofNat 64 ((i * (o.nf + 1) + field) * n.bytes)

/-- The loads of some fields of an element, one after the other. -/
def loadFields (s : VecHart σ) (i : ℕ) : List ℕ → MemM σ (List (BitVec 64))
  | [] => pure []
  | field :: fields => do
    let x ← m.load n (s.foflAddr o n i field)
    let xs ← loadFields s i fields
    pure (x :: xs)

/-- The element is active: below the vector length, not skipped by `vstart` and not masked. -/
def Active (s : VecHart σ) (i : ℕ) : Bool := !s.vec.vInactive o s.vec.vl i

/-- The loads of the active elements below `k`, one after the other. -/
def loadElements (s : VecHart σ) : ℕ → MemM σ (List (List (BitVec 64)))
  | 0 => pure []
  | k + 1 => do
    let rows ← loadElements s k
    let row ← if s.Active o k then loadFields m o n s k (List.range (o.nf + 1)) else pure []
    pure (rows ++ [row])

/-- Element `i` is active, the elements before it can be loaded, and then a field of it cannot. -/
def FirstToFault (s : VecHart σ) (i : ℕ) (t : SimulationTrap) : Prop :=
  s.Active o i = true ∧ ∃ rows w, (loadElements m o n s i).run' s.mem = (.ok rows, w) ∧
    ((loadFields m o n s i (List.range (o.nf + 1))).run' w).1 = .error t

/-- The active elements below `k` can be loaded, and a later state holds their values: field `f` of
element `i` is element `i` of the register group of `f`. -/
def HoldsLoaded (s s' : VecHart σ) (k : ℕ) : Prop :=
  ∃ rows w, (loadElements m o n s k).run' s.mem = (.ok rows, w) ∧
    ∀ i field row x, rows[i]? = some row → row[field]? = some x →
      s'.vec.getSewSingleOperand n.bits
        (o.rd.val + field * s.vec.effectiveMulIdx .fofl n.bits) i = n.truncate x

/-- The instruction. -/
def vleff : VecM σ Unit := (iss m).vLoadStoreInstr o true n.bits .fofl

/-- What a fault-only-first load is for: it traps where element 0 faults; where a later element is the
first to fault it shortens the vector length to the elements before, which are loaded; and otherwise
all elements are loaded and the vector length stays. -/
structure FaultOnlyFirst (s : VecHart σ) : Prop where
  trap : (∃ t, ((vleff m o n).run' s).1 = .error t) ↔ ∃ t, FirstToFault m o n s 0 t
  shorten : ∀ i t, 0 < i → FirstToFault m o n s i t →
    ∃ s', (vleff m o n).run' s = (.ok (), s') ∧ s'.vec.vl = i ∧ HoldsLoaded m o n s s' i
  whole : (∀ i t, ¬FirstToFault m o n s i t) →
    ∃ s', (vleff m o n).run' s = (.ok (), s') ∧ s'.vec.vl = s.vec.vl ∧
      HoldsLoaded m o n s s' s.vec.vl

/-- The checks of the instruction pass, and `v_set_operation` has chosen the vector length. -/
structure Legal (s : VecHart σ) : Prop where
  notOff : s.vs ≠ 0
  notVill : s.vec.vill = false
  loadReqs : s.vec.vLoadReqs o .fofl n.bits = true
  loadStoreReqs : s.vec.vLoadStoreReqs o true .fofl n.bits = true
  vlInRange : s.vec.VlInRange

/-! ### The inner loop -/

/-- The unit after the fields of an element have been written. -/
def writeFields (v : VecState) (i : ℕ) : List ℕ → List (BitVec 64) → VecState
  | field :: fields, x :: xs =>
    let idx := VecState.vIndices o .fofl n.bits (v.effectiveMulIdx .fofl n.bits) i field
    writeFields (v.writeSewSingleOperand n.bits idx.1 idx.2 x) i fields xs
  | _, _ => v

/-- One field: the load is all that can throw. -/
theorem run'_vField (s : VecHart σ) (i field : ℕ) :
    ((iss m).vField o true .fofl n.bits i field).run' s =
      match (m.load n (s.foflAddr o n i field)).run' s.mem with
      | (.ok x, w) => (.ok false, { s with mem := w, vec := writeFields o n s.vec i [field] [x] })
      | (.error t, w) => (.error t, { s with mem := w }) := by
  have haddr : s.regs o.rs1 + s.vec.getShiftWidth o (s.regs o.rs2) .fofl n.bits i field
      = s.foflAddr o n i field := by
    simp only [VecState.getShiftWidth, foflAddr, Width.bits_div]
  unfold VecIss.vField
  rw [MemM.run'_bind, run'_vec]
  dsimp only
  rw [MemM.run'_bind, run'_reg]
  dsimp only
  rw [MemM.run'_bind, run'_reg]
  simp only [VecState.switchElem, reduceCtorEq, if_false, elemWidth_bits, if_true, haddr]
  rw [MemM.run'_bind, run'_load]
  rcases (m.load n (s.foflAddr o n i field)).run' s.mem with ⟨t | x, w⟩
  · rfl
  · rfl

theorem foflAddr_congr {s s' : VecHart σ} (h : s'.regs = s.regs) :
    s'.foflAddr o n = s.foflAddr o n := by
  unfold foflAddr
  rw [h]

/-- The loads depend on the integer registers only. -/
theorem loadFields_congr {s s' : VecHart σ} (h : s'.regs = s.regs) (i : ℕ) (fields : List ℕ) :
    loadFields m o n s' i fields = loadFields m o n s i fields := by
  induction fields with
  | nil => rfl
  | cons field fields ih => rw [loadFields, loadFields, foflAddr_congr o n h, ih]

/-- The inner loop loads the fields and writes them; where a load throws, so does the loop. -/
theorem run'_vFields (s : VecHart σ) (i : ℕ) (fields : List ℕ) :
    match (loadFields m o n s i fields).run' s.mem with
    | (.ok xs, w) => ((iss m).vFields o true .fofl n.bits i fields).run' s
        = (.ok false, { s with mem := w, vec := writeFields o n s.vec i fields xs })
    | (.error t, _) => (((iss m).vFields o true .fofl n.bits i fields).run' s).1 = .error t := by
  induction fields generalizing s with
  | nil => rfl
  | cons field fields ih =>
    rw [loadFields, VecIss.vFields, MemM.run'_bind, MemM.run'_bind, run'_vField]
    rcases (m.load n (s.foflAddr o n i field)).run' s.mem with ⟨t | x, w⟩
    · rfl
    · dsimp only
      -- the state after the first field has the same registers, so the other loads are the same
      have hload : loadFields m o n
          { s with mem := w, vec := writeFields o n s.vec i [field] [x] } i fields
            = loadFields m o n s i fields := by
        apply loadFields_congr
        rfl
      have ih' := ih { s with mem := w, vec := writeFields o n s.vec i [field] [x] }
      rw [hload] at ih'
      rw [MemM.run'_bind]
      rcases hrest : (loadFields m o n s i fields).run' w with ⟨t | xs, w'⟩
      · rw [hrest] at ih'
        exact ih'
      · rw [hrest] at ih'
        exact ih'

/-! ### What the writes of an element change -/

/-- Two elements of register groups of `mul` registers do not overlap. -/
theorem elem_disjoint (rd : ℕ) {mul b i j f g : ℕ} (hi : i * b + b ≤ 64 * mul) (hj : j * b + b ≤ 64 * mul)
    (hne : f ≠ g ∨ i ≠ j) :
    (rd + f * mul) * 64 + i * b + b ≤ (rd + g * mul) * 64 + j * b ∨
      (rd + g * mul) * 64 + j * b + b ≤ (rd + f * mul) * 64 + i * b := by
  rcases Nat.lt_trichotomy f g with hlt | rfl | hlt
  · obtain ⟨d, rfl⟩ := Nat.exists_eq_add_of_lt hlt
    have hmul : (f + d + 1) * mul = f * mul + d * mul + mul := by ring
    left
    omega
  · rcases Nat.lt_or_gt_of_ne (hne.resolve_left fun h => h rfl) with hlt | hlt
    · obtain ⟨d, rfl⟩ := Nat.exists_eq_add_of_lt hlt
      have hmul : (i + d + 1) * b = i * b + d * b + b := by ring
      left
      omega
    · obtain ⟨d, rfl⟩ := Nat.exists_eq_add_of_lt hlt
      have hmul : (j + d + 1) * b = j * b + d * b + b := by ring
      right
      omega
  · obtain ⟨d, rfl⟩ := Nat.exists_eq_add_of_lt hlt
    have hmul : (g + d + 1) * mul = g * mul + d * mul + mul := by ring
    right
    omega

section Writes

variable {o n} {i : ℕ} {fields : List ℕ}

/-- Only registers of the unit are written. -/
theorem writeFields_eq (v : VecState) (i : ℕ) (fields : List ℕ) (xs : List (BitVec 64)) :
    ∃ vRegs, writeFields o n v i fields xs = { v with vRegs } := by
  induction fields generalizing v xs with
  | nil => exact ⟨v.vRegs, rfl⟩
  | cons field fields ih =>
    cases xs with
    | nil => exact ⟨v.vRegs, rfl⟩
    | cons x xs =>
      obtain ⟨vRegs, h⟩ := ih (v.writeSewSingleOperand n.bits _ _ x) xs
      exact ⟨vRegs, h⟩

/-- Bytes outside the fields stay: a write of one element touches the bytes of its fields and no others. -/
theorem vRegs_writeFields_of_disjoint {v : VecState} {xs : List (BitVec 64)} {a : ℕ}
    (h : ∀ f ∈ fields,
      a < (o.rd.val + f * v.effectiveMulIdx .fofl n.bits) * 64 + i * n.bytes ∨
        (o.rd.val + f * v.effectiveMulIdx .fofl n.bits) * 64 + i * n.bytes + n.bytes ≤ a) :
    (writeFields o n v i fields xs).vRegs a = v.vRegs a := by
  induction fields generalizing v xs with
  | nil => rfl
  | cons field fields ih =>
    cases xs with
    | nil => rfl
    | cons x xs =>
      rw [writeFields]
      rw [ih]
      · apply VecState.vRegs_write_of_disjoint
        rw [VecState.vIndices_fofl]
        exact h field List.mem_cons_self
      · intro f hf
        exact h f (List.mem_cons_of_mem _ hf)

/-- A field that has been written holds its value. -/
theorem getSewSingleOperand_writeFields {v : VecState} {xs : List (BitVec 64)} (hnodup : fields.Nodup)
    (hfit : i * n.bytes + n.bytes ≤ 64 * v.effectiveMulIdx .fofl n.bits) {k f : ℕ} {x : BitVec 64}
    (hf : fields[k]? = some f) (hx : xs[k]? = some x) :
    (writeFields o n v i fields xs).getSewSingleOperand n.bits
      (o.rd.val + f * v.effectiveMulIdx .fofl n.bits) i = n.truncate x := by
  induction fields generalizing v xs k with
  | nil => simp at hf
  | cons field fields ih =>
    obtain ⟨hnot, hnodup⟩ := List.nodup_cons.1 hnodup
    cases xs with
    | nil => simp at hx
    | cons y xs =>
      cases k with
      | succ k => exact ih hnodup hfit (by simpa using hf) (by simpa using hx)
      | zero =>
        obtain rfl : field = f := by simpa using hf
        obtain rfl : y = x := by simpa using hx
        -- the fields that are written later lie elsewhere
        rw [writeFields]
        rw [← VecState.getSewSingleOperand_write v n y
          (VecState.vIndices_fofl n o (v.effectiveMulIdx .fofl n.bits) i field).symm]
        apply VecState.getSewSingleOperand_congr
        intro a ha
        apply vRegs_writeFields_of_disjoint
        intro g hg
        have hne : field ≠ g := fun h => hnot (h ▸ hg)
        have := elem_disjoint o.rd.val hfit hfit (Or.inl hne)
        rw [VecState.effectiveMulIdx_write]
        omega

end Writes

/-! ### The outer loop -/

theorem length_of_loadFields {s : VecHart σ} {i : ℕ} {fields : List ℕ} {w w' : σ}
    {xs : List (BitVec 64)} (h : (loadFields m o n s i fields).run' w = (.ok xs, w')) :
    xs.length = fields.length := by
  induction fields generalizing w xs with
  | nil =>
    cases h
    rfl
  | cons field fields ih =>
    rw [loadFields, MemM.run'_bind] at h
    rcases hx : (m.load n (s.foflAddr o n i field)).run' w with ⟨t | x, w₁⟩
    · rw [hx] at h
      cases h
    · rw [hx] at h
      dsimp only at h
      rw [MemM.run'_bind] at h
      rcases hrest : (loadFields m o n s i fields).run' w₁ with ⟨t | ys, w₂⟩
      · rw [hrest] at h
        cases h
      · rw [hrest] at h
        cases h
        simp [ih hrest]

/-- The loads of one more element: those of the elements before it and, if it is active, those of its
fields. -/
theorem run'_loadElements_succ (s : VecHart σ) (k : ℕ) :
    (loadElements m o n s (k + 1)).run' s.mem =
      match (loadElements m o n s k).run' s.mem with
      | (.ok rows, w) =>
        if s.Active o k then
          match (loadFields m o n s k (List.range (o.nf + 1))).run' w with
          | (.ok row, w') => (.ok (rows ++ [row]), w')
          | (.error t, w') => (.error t, w')
        else (.ok (rows ++ [[]]), w)
      | (.error t, w) => (.error t, w) := by
  rw [loadElements, MemM.run'_bind]
  rcases (loadElements m o n s k).run' s.mem with ⟨t | rows, w⟩
  · rfl
  · dsimp only
    cases s.Active o k with
    | false => rfl
    | true =>
      simp only [if_true]
      rw [MemM.run'_bind]
      rcases (loadFields m o n s k (List.range (o.nf + 1))).run' w with ⟨t | row, w'⟩ <;> rfl

theorem length_of_loadElements {s : VecHart σ} {k : ℕ} {w : σ} {rows : List (List (BitVec 64))}
    (h : (loadElements m o n s k).run' s.mem = (.ok rows, w)) : rows.length = k := by
  induction k generalizing w rows with
  | zero =>
    cases h
    rfl
  | succ k ih =>
    rw [run'_loadElements_succ] at h
    rcases hrows : (loadElements m o n s k).run' s.mem with ⟨t | rows', w'⟩
    · rw [hrows] at h
      cases h
    · rw [hrows] at h
      dsimp only at h
      split_ifs at h
      · split at h
        · cases h
          simp [ih hrows]
        · cases h
      · cases h
        simp [ih hrows]

/-- The state before element `k` in a run from `s₀`: the elements below are loaded and held, and what
says which elements are active has not changed. -/
structure LoopInv (s₀ : VecHart σ) (k : ℕ) (rows : List (List (BitVec 64))) (s : VecHart σ) : Prop where
  loads : (loadElements m o n s₀ k).run' s₀.mem = (.ok rows, s.mem)
  regs : s.regs = s₀.regs
  vl : s.vec.vl = s₀.vec.vl
  mul : s.vec.effectiveMulIdx .fofl n.bits = s₀.vec.effectiveMulIdx .fofl n.bits
  vstart : ∀ i, k ≤ i → (i < s.vec.vstart ↔ i < s₀.vec.vstart)
  mask : o.vm = false → ∀ a < 64, s.vec.vRegs a = s₀.vec.vRegs a
  held : ∀ i field row x, rows[i]? = some row → row[field]? = some x →
    s.vec.getSewSingleOperand n.bits
      (o.rd.val + field * s₀.vec.effectiveMulIdx .fofl n.bits) i = n.truncate x

theorem loopInv_zero (s : VecHart σ) (vs : BitVec 2) : LoopInv m o n s 0 [] { s with vs } where
  loads := rfl
  regs := rfl
  vl := rfl
  mul := rfl
  vstart _ _ := Iff.rfl
  mask _ _ _ := rfl
  held i field row x h := by simp at h

section Legal

variable {m o n} {s₀ s : VecHart σ} {k : ℕ} {rows : List (List (BitVec 64))}

/-- The mask of an element lies in the first register. -/
theorem Legal.vl_le (hl : Legal o n s₀) : s₀.vec.vl ≤ 512 := by
  have hmul := s₀.vec.vl_mul_le n hl.vlInRange
  have hreqs := hl.loadReqs
  simp only [VecState.vLoadReqs, Bool.or_eq_true, beq_iff_eq, reduceCtorEq, false_or,
    Bool.and_eq_true, decide_eq_true_eq] at hreqs
  have hidx : s₀.vec.effectiveMulIdx .fofl n.bits ≤ 8 :=
    le_trans (Nat.le_mul_of_pos_right _ (Nat.succ_pos _)) hreqs.1.2
  have hbytes : s₀.vec.vl ≤ s₀.vec.vl * n.bytes := Nat.le_mul_of_pos_right _ (by cases n <;> decide)
  omega

/-- A masked load does not write the mask. -/
theorem Legal.rd_pos (hl : Legal o n s₀) (hvm : o.vm = false) : 0 < o.rd.val := by
  have hreqs := hl.loadStoreReqs
  simp only [VecState.vLoadStoreReqs, hvm, Bool.not_true, Bool.false_or, Bool.and_eq_true,
    bne_iff_ne] at hreqs
  exact Nat.pos_of_ne_zero fun h => hreqs.1 (Fin.ext h)

/-- An element fits into its register group. -/
theorem Legal.fits (hl : Legal o n s₀) (hk : k < s₀.vec.vl) :
    k * n.bytes + n.bytes ≤ 64 * s₀.vec.effectiveMulIdx .fofl n.bits := by
  have hmul := s₀.vec.vl_mul_le n hl.vlInRange
  have hle : (k + 1) * n.bytes ≤ s₀.vec.vl * n.bytes := Nat.mul_le_mul_right _ hk
  rw [Nat.succ_mul] at hle
  omega

/-- The loop finds the elements active that were so at the start. -/
theorem LoopInv.vInactive (hi : LoopInv m o n s₀ k rows s) (hl : Legal o n s₀) (hk : k < s₀.vec.vl) :
    s.vec.vInactive o s₀.vec.vl k = s₀.vec.vInactive o s₀.vec.vl k := by
  unfold VecState.vInactive
  have hstart := hi.vstart k (le_refl k)
  cases hvm : o.vm with
  | true => simp [hstart]
  | false =>
    have hvl := hl.vl_le
    have hmask : s.vec.getSewSingleOperand 64 0 (k / 64) = s₀.vec.getSewSingleOperand 64 0 (k / 64) := by
      apply VecState.getSewSingleOperand_congr .double
      intro a ha
      apply hi.mask hvm
      simp only [Width.bytes] at ha ⊢
      omega
    rw [hmask]
    simp [hstart]

/-- An inactive element is skipped: nothing is loaded and nothing is written for it. -/
theorem LoopInv.skip (hi : LoopInv m o n s₀ k rows s) (hk : s₀.Active o k = false) :
    LoopInv m o n s₀ (k + 1) (rows ++ [[]]) s where
  loads := by
    rw [run'_loadElements_succ, hi.loads, hk]
    rfl
  regs := hi.regs
  vl := hi.vl
  mul := hi.mul
  vstart i h := hi.vstart i (by omega)
  mask := hi.mask
  held i field row x hrow hx := by
    rw [List.getElem?_append] at hrow
    split_ifs at hrow with hlt
    · exact hi.held i field row x hrow hx
    · obtain rfl : [] = row := by
        rw [List.getElem?_singleton] at hrow
        split_ifs at hrow
        simpa using hrow
      simp at hx

/-- An active element is loaded and written, and the elements before it stay. -/
theorem LoopInv.write (hi : LoopInv m o n s₀ k rows s) (hl : Legal o n s₀)
    (hk : s₀.Active o k = true) {row : List (BitVec 64)} {w : σ}
    (hrow : (loadFields m o n s₀ k (List.range (o.nf + 1))).run' s.mem = (.ok row, w)) :
    LoopInv m o n s₀ (k + 1) (rows ++ [row])
      { s with
        mem := w
        vec := writeFields o n { s.vec with vstart := k } k (List.range (o.nf + 1)) row } := by
  have hact := hk
  simp only [Active, VecState.vInactive, Bool.not_eq_true', Bool.or_eq_false_iff,
    decide_eq_false_iff_not, not_lt, not_le] at hact
  have hfit := hl.fits hact.1.2
  have hmul : ({ s.vec with vstart := k } : VecState).effectiveMulIdx .fofl n.bits
      = s₀.vec.effectiveMulIdx .fofl n.bits := hi.mul
  obtain ⟨vRegs, hvec⟩ := writeFields_eq (o := o) (n := n) { s.vec with vstart := k } k
    (List.range (o.nf + 1)) row
  constructor
  · rw [run'_loadElements_succ, hi.loads]
    simp only [hk, if_true, hrow]
  · exact hi.regs
  · simp only [hvec]
    exact hi.vl
  · simp only [hvec]
    exact hi.mul
  · intro i hik
    simp only [hvec]
    omega
  · -- the mask register lies below the destination
    intro hvm a ha
    rw [← hi.mask hvm a ha]
    apply vRegs_writeFields_of_disjoint
    intro f _
    have := hl.rd_pos hvm
    left
    omega
  · intro i field row' x hrow' hx
    rw [List.getElem?_append] at hrow'
    split_ifs at hrow' with hlt
    · -- an element that was there before
      rw [← hi.held i field row' x hrow' hx]
      apply VecState.getSewSingleOperand_congr
      intro a ha
      apply vRegs_writeFields_of_disjoint
      intro f _
      have hik : i < k := by
        rwa [length_of_loadElements m o n hi.loads] at hlt
      have := elem_disjoint o.rd.val (f := f) (g := field) hfit
        (hl.fits (lt_trans hik hact.1.2)) (Or.inr hik.ne')
      rw [hmul]
      omega
    · -- the element itself
      rw [List.getElem?_singleton, length_of_loadElements m o n hi.loads] at hrow'
      rw [length_of_loadElements m o n hi.loads] at hlt
      split_ifs at hrow' with hzero
      obtain rfl : row = row' := by simpa using hrow'
      obtain rfl : i = k := by omega
      have hlen := length_of_loadFields m o n hrow
      have hfield : field < o.nf + 1 := by
        rw [List.length_range] at hlen
        rw [← hlen]
        exact (List.getElem?_eq_some_iff.1 hx).1
      rw [← hmul]
      exact getSewSingleOperand_writeFields List.nodup_range (hmul ▸ hfit)
        (List.getElem?_range hfield) hx

/-- **One iteration.**  It ends with the invariant for the next element, or the element is the first
to fault and the loop throws. -/
theorem LoopInv.step (hi : LoopInv m o n s₀ k rows s) (hl : Legal o n s₀) (hk : k < s₀.vec.vl)
    (is : List ℕ) :
    (∃ row s', LoopInv m o n s₀ (k + 1) (rows ++ [row]) s' ∧
      ((iss m).vElements o true .fofl n.bits s₀.vec.vl (k :: is)).run' s
        = ((iss m).vElements o true .fofl n.bits s₀.vec.vl is).run' s') ∨
    ∃ t, FirstToFault m o n s₀ k t ∧
      (((iss m).vElements o true .fofl n.bits s₀.vec.vl (k :: is)).run' s).1 = .error t := by
  have hin := hi.vInactive hl hk
  rw [VecIss.vElements, MemM.run'_bind, run'_vec]
  dsimp only
  rw [hin]
  cases hact : s₀.Active o k with
  | false =>
    left
    -- masked off or before `vstart`: nothing is loaded
    rw [if_pos (by simpa [Active] using hact)]
    exact ⟨[], s, hi.skip hact, rfl⟩
  | true =>
    rw [if_neg (by simpa [Active] using hact), MemM.run'_bind, run'_modifyVec]
    dsimp only
    rw [MemM.run'_bind]
    have hfields := run'_vFields m o n { s with vec := { s.vec with vstart := k } } k
      (List.range (o.nf + 1))
    -- the load does not look at `vstart`, which was just written
    have hload : loadFields m o n { s with vec := { s.vec with vstart := k } } k
        (List.range (o.nf + 1)) = loadFields m o n s₀ k (List.range (o.nf + 1)) := by
      apply loadFields_congr
      exact hi.regs
    rw [hload] at hfields
    rcases hrow : (loadFields m o n s₀ k (List.range (o.nf + 1))).run' s.mem with ⟨t | row, w⟩
    · right
      rw [hrow] at hfields
      -- the element faults, and all before it were loaded
      refine ⟨t, ⟨hact, rows, s.mem, hi.loads, by rw [hrow]⟩, ?_⟩
      rcases hrun : ((iss m).vFields o true .fofl n.bits k (List.range (o.nf + 1))).run'
        { s with vec := { s.vec with vstart := k } } with ⟨t' | b, s'⟩
      · rw [hrun] at hfields
        cases hfields
        rfl
      · rw [hrun] at hfields
        cases hfields
    · left
      rw [hrow] at hfields
      exact ⟨row, _, hi.write hl hact hrow, by rw [hfields]; rfl⟩

/-- **The outer loop.**  All elements are loaded, or one is the first to fault and its exception is
thrown. -/
theorem LoopInv.run (hl : Legal o n s₀) (d : ℕ) (hi : LoopInv m o n s₀ k rows s)
    (hd : k + d = s₀.vec.vl) :
    (∃ rows' s', LoopInv m o n s₀ s₀.vec.vl rows' s' ∧
      ((iss m).vElements o true .fofl n.bits s₀.vec.vl (List.range' k d)).run' s = (.ok (), s')) ∨
    ∃ i t, FirstToFault m o n s₀ i t ∧
      (((iss m).vElements o true .fofl n.bits s₀.vec.vl (List.range' k d)).run' s).1 = .error t := by
  induction d generalizing k rows s with
  | zero =>
    left
    rw [Nat.add_zero] at hd
    exact ⟨rows, s, hd ▸ hi, rfl⟩
  | succ d ih =>
    rw [List.range'_succ]
    obtain ⟨row, s', hi', hrun⟩ | ⟨t, hfault, hrun⟩ := hi.step hl (by omega) (List.range' (k + 1) d)
    · rw [hrun]
      exact ih hi' (by omega)
    · exact Or.inr ⟨k, t, hfault, hrun⟩

end Legal

/-! ### The instruction -/

/-- An active element is below the vector length. -/
theorem lt_vl_of_active {s : VecHart σ} {i : ℕ} (h : s.Active o i = true) : i < s.vec.vl := by
  simp only [Active, VecState.vInactive, Bool.not_eq_true', Bool.or_eq_false_iff,
    decide_eq_false_iff_not, not_lt, not_le] at h
  exact h.1.2

/-- Once an element is the first to fault, no more elements can be loaded. -/
theorem loadElements_of_firstToFault {s : VecHart σ} {i : ℕ} {t : SimulationTrap}
    (h : FirstToFault m o n s i t) {k : ℕ} (hk : i < k) :
    ((loadElements m o n s k).run' s.mem).1 = .error t := by
  obtain ⟨hact, rows, w, hrows, hfault⟩ := h
  induction k, hk using Nat.le_induction with
  | base =>
    rw [run'_loadElements_succ, hrows]
    simp only [hact, if_true]
    rcases hrow : (loadFields m o n s i (List.range (o.nf + 1))).run' w with ⟨t' | row, w'⟩
    · rw [hrow] at hfault
      cases hfault
      rfl
    · rw [hrow] at hfault
      cases hfault
  | succ k _ ih =>
    rw [run'_loadElements_succ]
    rcases hrec : (loadElements m o n s k).run' s.mem with ⟨t' | rows', w'⟩
    · rw [hrec] at ih
      exact ih
    · rw [hrec] at ih
      cases ih

/-- `prepInstr` passes where the unit is switched on and the vector type is legal. -/
theorem run'_prepInstr {s : VecHart σ} (hvs : (s.vs != 0) = true) (hvill : s.vec.vill = false)
    (requireVill : Bool) :
    ((iss m).prepInstr o requireVill).run' s = (.ok (), { s with vs := 3 }) := by
  unfold VecIss.prepInstr VecIss.vAssert
  rw [MemM.run'_bind, run'_vs]
  simp only [hvs, if_true, pure_bind]
  rw [MemM.run'_bind, run'_setVs]
  dsimp only
  rw [MemM.run'_bind, run'_vec]
  simp only [hvill, Bool.not_false, Bool.or_true, if_true]
  rfl

/-- An instruction whose checks pass is the loop, and `vstart` is cleared after it. -/
theorem run'_vleff_of_legal {s : VecHart σ} (hl : Legal o n s) :
    (vleff m o n).run' s =
      match ((iss m).vElements o true .fofl n.bits s.vec.vl (List.range' 0 s.vec.vl)).run'
        { s with vs := 3 } with
      | (.ok (), s') => (.ok (), { s' with vec := { s'.vec with vstart := 0 } })
      | (.error t, s') => (.error t, s') := by
  have hvs : (s.vs != 0) = true := by simpa using hl.notOff
  have hevl : s.vec.evl .fofl n.bits = s.vec.vl := rfl
  unfold vleff VecIss.vLoadStoreInstr
  rw [MemM.run'_bind, run'_prepInstr m o hvs hl.notVill]
  dsimp only
  rw [MemM.run'_bind]
  unfold VecIss.vLoadStore VecIss.vAssert
  rw [MemM.run'_bind, run'_vec]
  simp only [hl.loadReqs, hl.loadStoreReqs, if_true, pure_bind, hevl, List.range_eq_range']
  rcases ((iss m).vElements o true .fofl n.bits s.vec.vl (List.range' 0 s.vec.vl)).run'
    { s with vs := 3 } with ⟨t | ⟨⟩, s'⟩
  · rfl
  · rfl

/-- **Every fault is a trap.**  Where no element faults, all are loaded and the vector length stays;
where one is the first to fault, whichever it is, the instruction throws. -/
theorem run'_vleff {s : VecHart σ} (hl : Legal o n s) :
    (∃ s', (vleff m o n).run' s = (.ok (), s') ∧ s'.vec.vl = s.vec.vl ∧
      HoldsLoaded m o n s s' s.vec.vl ∧ ∀ i t, ¬FirstToFault m o n s i t) ∨
    ∃ i t, FirstToFault m o n s i t ∧ ((vleff m o n).run' s).1 = .error t := by
  rw [run'_vleff_of_legal m o n hl]
  obtain ⟨rows, s', hi, hrun⟩ | ⟨i, t, hfault, hrun⟩ :=
    LoopInv.run hl s.vec.vl (loopInv_zero m o n s 3) (Nat.zero_add _)
  · left
    rw [hrun]
    refine ⟨_, rfl, hi.vl, ⟨rows, s'.mem, hi.loads, hi.held⟩, fun i t hfault => ?_⟩
    have herr := loadElements_of_firstToFault m o n hfault (lt_vl_of_active o hfault.1)
    rw [hi.loads] at herr
    cases herr
  · right
    refine ⟨i, t, hfault, ?_⟩
    rcases hloop : ((iss m).vElements o true .fofl n.bits s.vec.vl (List.range' 0 s.vec.vl)).run'
      { s with vs := 3 } with ⟨t' | u, s'⟩
    · rw [hloop] at hrun
      cases hrun
      rfl
    · rw [hloop] at hrun
      cases hrun

/-- **When a fault-only-first load is one**: exactly where no element but element 0 is the first to
fault. -/
theorem faultOnlyFirst_iff {s : VecHart σ} (hl : Legal o n s) :
    FaultOnlyFirst m o n s ↔ ∀ i t, FirstToFault m o n s i t → i = 0 := by
  constructor
  · intro hright i t hfault
    by_contra hne
    obtain ⟨s', hok, -⟩ := hright.shorten i t (Nat.pos_of_ne_zero hne) hfault
    obtain ⟨_, _, _, _, hnone⟩ | ⟨_, _, _, herr⟩ := run'_vleff m o n hl
    · exact hnone i t hfault
    · rw [hok] at herr
      cases herr
  · intro honly
    obtain ⟨s', hok, hvl, hholds, hnone⟩ | ⟨i, t, hfault, herr⟩ := run'_vleff m o n hl
    · constructor
      · constructor
        · rintro ⟨t, ht⟩
          rw [hok] at ht
          cases ht
        · rintro ⟨t, ht⟩
          exact absurd ht (hnone 0 t)
      · intro i t _ hfault
        exact absurd hfault (hnone i t)
      · intro _
        exact ⟨s', hok, hvl, hholds⟩
    · obtain rfl := honly i t hfault
      constructor
      · exact ⟨fun _ => ⟨t, hfault⟩, fun _ => ⟨t, herr⟩⟩
      · intro j u hj hfault'
        exact absurd (honly j u hfault') hj.ne'
      · intro hnone
        exact absurd hfault (hnone 0 t)

/-- `vle8ff.v v8, (t1)`. -/
def vle8ff : Operands := ⟨0x03030407, 8, 6, 16, 0, 0, true⟩

/-- A hart with 16 KiB of memory that loads `vl` bytes from `addr` on. -/
def atAddr (addr : BitVec 64) (vl : ℕ) : VecHart (Core Unit) where
  mem :=
    { world := ⟨fun _ => 0, (), ⟨false, 0⟩⟩
      csrs := .reset
      prv := .machine
      tlb := .flush
      dmi := ⟨true, [⟨0, 0, 0x4000, MemoryDMI.nonempty_16K⟩], [], DmiRanges.oneEmpty_16K⟩
      lscache := ⟨true, fun _ => ⟨0, 0⟩⟩ }
  regs _ := addr
  vs := 1
  vec := ⟨fun _ => 0, vl, 0, false, 0, 0⟩

unseal Rat.mul Rat.inv Rat.add Rat.sub

theorem legal_atAddr (addr : BitVec 64) {vl : ℕ} (h : vl ≤ 64) : Legal vle8ff .byte (atAddr addr vl) where
  notOff := show (1 : BitVec 2) ≠ 0 by decide
  notVill := rfl
  loadReqs := show (atAddr 0 0).vec.vLoadReqs vle8ff .fofl 8 = true by decide
  loadStoreReqs := show (atAddr 0 0).vec.vLoadStoreReqs vle8ff true .fofl 8 = true by decide
  vlInRange := by
    have hmax : (atAddr addr vl).vec.getVlmul * 512 / (atAddr addr vl).vec.getIntVSew = 64 :=
      show (atAddr 0 0).vec.getVlmul * 512 / (atAddr 0 0).vec.getIntVSew = 64 by decide
    unfold VecState.VlInRange
    rw [hmax]
    exact_mod_cast h

/-- The last two bytes of memory are loaded, and of 64 bytes behind them it is the first that faults. -/
theorem faultOnlyFirst_iff_lastByte :
    (FaultOnlyFirst (Core.vecMem Bus.empty 0) vle8ff .byte (atAddr 0x3FFE 2) ∧
      ((vleff (Core.vecMem Bus.empty 0) vle8ff .byte).run' (atAddr 0x3FFE 2)).1 = .ok ()) ∧
    (FaultOnlyFirst (Core.vecMem Bus.empty 0) vle8ff .byte (atAddr 0x4000 64) ∧
      FirstToFault (Core.vecMem Bus.empty 0) vle8ff .byte (atAddr 0x4000 64) 0 ⟨.loadPageFault, 0x4000⟩) := by
  have hlast := legal_atAddr 0x3FFE (show 2 ≤ 64 by decide)
  have hbehind := legal_atAddr 0x4000 (show 64 ≤ 64 by decide)
  have hok : ((vleff (Core.vecMem Bus.empty 0) vle8ff .byte).run' (atAddr 0x3FFE 2)).1 = .ok () := by decide
  have hfirst : FirstToFault (Core.vecMem Bus.empty 0) vle8ff .byte (atAddr 0x4000 64) 0
      ⟨.loadPageFault, 0x4000⟩ := ⟨by decide, _, _, rfl, by decide⟩
  refine ⟨⟨(faultOnlyFirst_iff _ _ _ hlast).2 fun i t hfault => ?_, hok⟩,
    (faultOnlyFirst_iff _ _ _ hbehind).2 fun i t hfault => ?_, hfirst⟩
  · -- an instruction that does not throw has no element that faults
    obtain ⟨_, _, _, _, hnone⟩ | ⟨_, _, _, herr⟩ := run'_vleff (Core.vecMem Bus.empty 0) _ _ hlast
    · exact absurd hfault (hnone i t)
    · rw [hok] at herr
      cases herr
  · by_contra hne
    -- element 0 would have been loaded before element `i`
    obtain ⟨-, _, _, hrows, -⟩ := hfault
    have herr := loadElements_of_firstToFault (Core.vecMem Bus.empty 0) _ _ hfirst (Nat.pos_of_ne_zero hne)
    rw [hrows] at herr
    cases herr

/-- From the last byte of memory on: of two elements the second is the first to fault, and the instruction
traps. -/
theorem not_faultOnlyFirst :
    Legal vle8ff .byte (atAddr 0x3FFF 2) ∧
      ((vleff (Core.vecMem Bus.empty 0) vle8ff .byte).run' (atAddr 0x3FFF 2)).1
        = .error ⟨.loadPageFault, 0x4000⟩ ∧
      ¬FaultOnlyFirst (Core.vecMem Bus.empty 0) vle8ff .byte (atAddr 0x3FFF 2) := by
  have htrap : ((vleff (Core.vecMem Bus.empty 0) vle8ff .byte).run' (atAddr 0x3FFF 2)).1
      = .error ⟨.loadPageFault, 0x4000⟩ := by decide
  have hrows : ((loadElements (Core.vecMem Bus.empty 0) vle8ff .byte (atAddr 0x3FFF 2) 1).run'
      (atAddr 0x3FFF 2).mem).1 = .ok [[0]] := by decide
  have hfault : FirstToFault (Core.vecMem Bus.empty 0) vle8ff .byte (atAddr 0x3FFF 2) 1
      ⟨.loadPageFault, 0x4000⟩ :=
    ⟨by decide, _, _, Prod.ext hrows rfl, by decide⟩
  refine ⟨legal_atAddr 0x3FFF (by decide), htrap, fun hright => ?_⟩
  obtain ⟨s', hok, -⟩ := hright.shorten 1 _ one_pos hfault
  rw [hok] at htrap
  cases htrap

end VecHart

end RiscvVp
