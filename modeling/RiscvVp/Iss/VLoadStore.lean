import RiscvVp.Cheri.MemInstr
import RiscvVp.Mem.LsCache

/-!
# Vector loads and stores

The vector unit on an RV64 hart.  The unit (`core/common/v.h`) is a template over the ISS, and
`Cheri.VecIss.vLoadStore` is its `vLoadStore`, with the loops and the exception handler of the
fault-only-first loads; here are `v_set_operation`, which chooses the vector length, and the ISS that the
template is instantiated with.  The functions `load_*` and `store_*` of the data memory stay a parameter;
`Core.vecMem` is the data memory of an RV64 hart.
-/

namespace RiscvVp

open Cheri (VecState VecIss Operands LoadStoreType elemWidth)

/-! ### The vector length -/

namespace Cheri.VecState

/-- `v_set_operation`: the unit after a new `vtype`; `avl` is the length that the instruction asks
for. -/
def vSetOperation (v : VecState) (vtypeNew : BitVec 64) (avl : ℕ) : VecState :=
  let vlmul := vtypeNew.extractLsb' 0 3
  let vsew := vtypeNew.extractLsb' 3 3
  let intVSew : ℕ := 2 ^ (vsew.toNat + 3)
  let lmul : ℚ := (2 : ℚ) ^ vlmul.toInt
  let vlmax := ⌊lmul * 512 / intVSew⌋.toNat
  if lmul * 64 < 8 ∨ vtypeNew &&& ~~~0xff ≠ 0 ∨ 64 < intVSew ∨ vlmul = 4 ∨ 64 < intVSew / lmul then
    { v with vl := 0, vsew := 0, vlmul := 0, vill := true }
  else
    { v with vl := if avl ≤ vlmax then avl else vlmax, vsew := vsew, vlmul := vlmul, vill := false }

/-- The vector length is at most `VLMAX`. -/
def VlInRange (v : VecState) : Prop := (v.vl : ℚ) ≤ v.getVlmul * 512 / v.getIntVSew

/-- Whatever is asked for, the length that `v_set_operation` chooses is at most `VLMAX`. -/
theorem vlInRange_vSetOperation (v : VecState) (vtypeNew : BitVec 64) (avl : ℕ) :
    (v.vSetOperation vtypeNew avl).VlInRange := by
  unfold vSetOperation
  simp only
  split_ifs with hvill havl
  · simp only [VlInRange, getVlmul, getIntVSew, Nat.cast_zero]
    positivity
  all_goals
    have hpos : (0 : ℚ) ≤ 2 ^ (vtypeNew.extractLsb' 0 3).toInt * 512 /
        (2 ^ ((vtypeNew.extractLsb' 3 3).toNat + 3) : ℕ) := by positivity
    have hfloor := Int.toNat_of_nonneg (Int.floor_nonneg.2 hpos)
    have hle := Int.floor_le (2 ^ (vtypeNew.extractLsb' 0 3).toInt * 512 /
      (2 ^ ((vtypeNew.extractLsb' 3 3).toNat + 3) : ℕ) : ℚ)
    rw [← hfloor] at hle
    unfold VlInRange getVlmul getIntVSew
    refine le_trans (Nat.cast_le.2 ?_) (by exact_mod_cast hle)
  · exact havl
  · exact le_refl _

end Cheri.VecState

/-! ### The ISS as the vector unit sees it -/

/-- The functions of `iss.mem`, on a state of type `σ`. -/
structure VecMem (σ : Type) where
  load : Width → BitVec 64 → MemM σ (BitVec 64)
  store : Width → BitVec 64 → BitVec 64 → MemM σ Unit

/-- The data memory of an RV64 hart; vector accesses bypass the load/store cache. -/
def Core.vecMem {δ : Type} (bus : Bus δ) (hart : ℕ) : VecMem (Core δ) where
  load n addr := fun c =>
    let r := c.load bus hart (.signed n) addr
    (r.1.map (·.1), r.2)
  store n addr value := fun c =>
    let r := c.storeData bus hart addr n value
    (r.1.map fun _ => (), r.2)

/-- What vector loads and stores read and write; `vs` is the field of `mstatus`. -/
structure VecHart (σ : Type) where
  mem : σ
  regs : Fin 32 → BitVec 64
  vs : BitVec 2
  vec : VecState

/-- A computation of the vector unit. -/
abbrev VecM (σ : Type) := MemM (VecHart σ)

namespace VecHart

variable {σ : Type}

/-- An access to memory. -/
def access {α : Type} (x : MemM σ α) : VecM σ α :=
  fun s => ((x.run' s.mem).1, { s with mem := (x.run' s.mem).2 })

/-- The vector unit on a data memory. -/
def iss (m : VecMem σ) : VecIss (VecM σ) where
  vec := fun s => (.ok s.vec, s)
  modifyVec f := fun s => (.ok (), { s with vec := f s.vec })
  reg i := fun s => (.ok (s.regs i), s)
  vs := fun s => (.ok s.vs, s)
  setVs value := fun s => (.ok (), { s with vs := value })
  load n addr := access (m.load n addr)
  store n addr value := access (m.store n addr value)

@[simp] theorem run'_modifyVec (m : VecMem σ) (f : VecState → VecState) (s : VecHart σ) :
    ((iss m).modifyVec f).run' s = (.ok (), { s with vec := f s.vec }) := rfl

theorem run'_load (m : VecMem σ) (n : Width) (addr : BitVec 64) (s : VecHart σ) :
    ((iss m).load n addr).run' s =
      (((m.load n addr).run' s.mem).1, { s with mem := ((m.load n addr).run' s.mem).2 }) := rfl

@[simp] theorem run'_vec (m : VecMem σ) (s : VecHart σ) : (iss m).vec.run' s = (.ok s.vec, s) := rfl

@[simp] theorem run'_reg (m : VecMem σ) (i : Fin 32) (s : VecHart σ) :
    ((iss m).reg i).run' s = (.ok (s.regs i), s) := rfl

@[simp] theorem run'_vs (m : VecMem σ) (s : VecHart σ) : (iss m).vs.run' s = (.ok s.vs, s) := rfl

@[simp] theorem run'_setVs (m : VecMem σ) (value : BitVec 2) (s : VecHart σ) :
    ((iss m).setVs value).run' s = (.ok (), { s with vs := value }) := rfl

end VecHart

end RiscvVp
