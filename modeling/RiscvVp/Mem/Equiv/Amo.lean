import RiscvVp.Mem.Amo
import RiscvVp.Lib.Run

/-!
# The bus stays locked during an atomic memory operation

Every `_raw_store_data` gives the lock back, and the page walk writes accessed and dirty bits with it.
`System.held_of_noPteStore`: for any number of harts and any interleaving, as long as no translation
of an AMO writes a page table entry, the bus is locked by the hart from the atomic load to the atomic
store, the check of `_atomic_store_data` finds it locked, and nobody else changes memory in between.
-/

namespace RiscvVp.System

variable {δ : Type} {bus : Bus δ} {s : System δ}

/-- Whoever is in an AMO has locked the bus. -/
def LockInv (s : System δ) : Prop :=
  ∀ i, (s.harts i).task.inAmo = true → s.world.busLock.isLockedBy i = true

/-- The step is not one in which the translation of an AMO writes a page table entry
(`mmu_store_pte32`). -/
def NoPteStore (s : System δ) (e : SysEvent δ) : Prop :=
  match e with
  | .resume i =>
    match (s.harts i).task with
    | .translating a (.rawStore ..) => a.isAmo = false
    | _ => True
  | _ => True

instance (s : System δ) (e : SysEvent δ) : Decidable (NoPteStore s e) := by
  unfold NoPteStore
  split
  · split <;> infer_instance
  · infer_instance

/-- The bus is locked by the hart that is in an AMO, `_atomic_store_data` does not warn, and a step of
anyone else does not change the world. -/
def Held (bus : Bus δ) (s : System δ) (e : SysEvent δ) : Prop :=
  LockInv s ∧ (step bus s e).1 = false ∧
    ∀ i, (s.harts i).task.inAmo = true → hartOf e ≠ some i → (step bus s e).2.world = s.world

/-! ### The lock -/

section Lock

variable {l : BusLock} {i j : ℕ}

theorem isLockedBy_of_ne (h : l.isLockedBy i = true) (hij : j ≠ i) : l.isLockedBy j = false := by
  unfold BusLock.isLockedBy at h ⊢
  rw [Bool.and_eq_true, beq_iff_eq] at h
  rw [h.2]
  simp [Ne.symm hij]

theorem blocked_of_ne (h : l.isLockedBy i = true) (hij : j ≠ i) : blocked l j = true := by
  unfold blocked
  rw [isLockedBy_of_ne h hij]
  unfold BusLock.isLockedBy at h
  rw [Bool.and_eq_true] at h
  rw [h.1]
  rfl

theorem locked_of_isLockedBy (h : l.isLockedBy i = true) : l.locked = true := by
  unfold BusLock.isLockedBy at h
  rw [Bool.and_eq_true] at h
  exact h.1

theorem isLockedBy_lock : (l.lock i).isLockedBy i = true := by
  simp [BusLock.lock, BusLock.isLockedBy]

/-- Nobody gives back the lock of another. -/
theorem unlock_of_ne {w : World δ} (h : w.busLock.isLockedBy i = true) (hij : j ≠ i) :
    w.unlock j = w := by
  unfold World.unlock BusLock.unlock
  rw [isLockedBy_of_ne h hij]
  rfl

end Lock

theorem loadNow_busLock (w : World δ) (ranges : List MemoryDMI) (pa : BitVec 64) (n : Width) :
    (w.loadNow bus ranges pa n).2.busLock = w.busLock := by
  unfold World.loadNow
  split
  · rfl
  · split <;> rfl

/-! ### Steps of others -/

/-- While a hart holds the lock, no step of anyone else changes the world. -/
theorem world_of_ne {i : ℕ} (h : s.world.busLock.isLockedBy i = true) (e : SysEvent δ)
    (he : hartOf e ≠ some i) : (step bus s e).2.world = s.world ∧ (step bus s e).1 = false := by
  have hlock := locked_of_isLockedBy h
  cases e with
  | begin j op =>
    have hij : j ≠ i := fun hji => he (congrArg some hji)
    have hb := blocked_of_ne h hij
    refine ⟨?_, rfl⟩
    show (s.begin j op).world = s.world
    unfold begin
    dsimp only
    split
    · -- without the lock no fast access is made, and nobody else can take or give back the lock
      cases op with
      | load op va direct =>
        dsimp only
        rw [hlock, Bool.or_true, if_pos rfl]
        rfl
      | store n va v direct =>
        dsimp only
        rw [hlock, Bool.or_true, if_pos rfl]
        rfl
      | fetch n va => rfl
      | amo n va f =>
        dsimp only
        rw [hb, if_pos rfl]
      | lr n va =>
        dsimp only
        rw [hb, if_pos rfl]
      | sc n va v =>
        dsimp only
        rw [isLockedBy_of_ne h hij, if_neg (by simp)]
      | release => exact unlock_of_ne h hij
    · rfl
  | resume j =>
    have hij : j ≠ i := fun hji => he (congrArg some hji)
    have hb := blocked_of_ne h hij
    show (s.resume bus j).2.world = s.world ∧ (s.resume bus j).1 = false
    unfold resume
    dsimp only
    split
    · exact ⟨rfl, rfl⟩
    · exact ⟨rfl, rfl⟩
    · exact ⟨rfl, rfl⟩
    · -- a raw access, of the walk or of the operation, waits for the lock
      rw [hb, if_pos rfl]
      exact ⟨rfl, rfl⟩
    · rw [hb, if_pos rfl]
      exact ⟨rfl, rfl⟩
    · rw [hb, if_pos rfl]
      exact ⟨rfl, rfl⟩
  | change j csrs prv tlb dmi lscache =>
    show (step bus s (.change j csrs prv tlb dmi lscache)).2.world = _ ∧ _
    unfold step
    dsimp only
    split <;> exact ⟨rfl, rfl⟩
  | peripheral f =>
    unfold step
    dsimp only
    rw [hlock, if_pos rfl]
    exact ⟨rfl, rfl⟩

section Harts

variable {i j : ℕ}

@[simp] theorem setHart_self (h : Hart) : (s.setHart i h).harts i = h := Function.update_self _ _ _

@[simp] theorem setHart_world (h : Hart) : (s.setHart i h).world = s.world := rfl

@[simp] theorem setWorld_harts (w : World δ) : (s.setWorld w).harts = s.harts := rfl

@[simp] theorem setWorld_world (w : World δ) : (s.setWorld w).world = w := rfl

theorem setHart_of_ne (h : Hart) (hij : i ≠ j) : (s.setHart j h).harts i = s.harts i :=
  Function.update_of_ne hij _ _

theorem begin_of_ne (op : Op) (hij : i ≠ j) : (s.begin j op).harts i = s.harts i := by
  unfold begin
  dsimp only
  split
  · cases op with
    | fetch n va => exact setHart_of_ne _ hij
    | release => rfl
    | _ => dsimp only; split_ifs <;> simp [setHart_of_ne _ hij]
  · rfl

theorem resume_of_ne (hij : i ≠ j) : (s.resume bus j).2.harts i = s.harts i := by
  unfold resume
  dsimp only
  split
  · rfl
  · exact setHart_of_ne _ hij
  · exact setHart_of_ne _ hij
  · split_ifs
    · rfl
    · split <;> exact setHart_of_ne _ hij
  · split_ifs
    · rfl
    · split <;> exact setHart_of_ne _ hij
  · split_ifs
    · rfl
    · split <;> exact setHart_of_ne _ hij

/-- A step writes no other hart than the one that takes it. -/
theorem harts_of_ne (e : SysEvent δ) (he : hartOf e ≠ some i) :
    (step bus s e).2.harts i = s.harts i := by
  cases e with
  | begin j op => exact begin_of_ne op fun hij => he (congrArg some hij.symm)
  | resume j => exact resume_of_ne fun hij => he (congrArg some hij.symm)
  | change j csrs prv tlb dmi lscache =>
    unfold step
    dsimp only
    split
    · exact setHart_of_ne _ fun hij => he (congrArg some hij.symm)
    · rfl
  | peripheral f =>
    unfold step
    dsimp only
    split_ifs <;> rfl

end Harts

/-! ### Steps of the hart itself -/

/-- A hart that begins an AMO has the lock. -/
theorem begin_inAmo {i : ℕ} (op : Op) (hi : LockInv s)
    (h : ((s.begin i op).harts i).task.inAmo = true) :
    (s.begin i op).world.busLock.isLockedBy i = true := by
  cases htask : (s.harts i).task with
  | translating a p =>
    have hs : s.begin i op = s := by
      unfold begin
      dsimp only
      rw [htask]
    rw [hs] at h ⊢
    exact hi i h
  | accessing a pa =>
    have hs : s.begin i op = s := by
      unfold begin
      dsimp only
      rw [htask]
    rw [hs] at h ⊢
    exact hi i h
  | idle =>
    -- a hart that begins another operation than an AMO is not in one
    have hidle : ¬(s.harts i).task.inAmo = true := by
      rw [htask]
      exact Bool.false_ne_true
    unfold begin at h ⊢
    dsimp only at h ⊢
    rw [htask] at h ⊢
    cases op with
    | amo n va f =>
      dsimp only at h ⊢
      split_ifs at h ⊢
      · exact absurd h hidle
      · exact isLockedBy_lock (l := s.world.busLock)
    | load op va direct =>
      dsimp only at h
      split_ifs at h
      · simp [Hart.v2p, Task.inAmo, Access.isAmo] at h
      · simp [Hart.v2p, Task.inAmo, Access.isAmo] at h
      · exact absurd h hidle
    | store n va v direct =>
      dsimp only at h
      split_ifs at h
      · simp [Hart.v2p, Task.inAmo, Access.isAmo] at h
      · simp [Hart.v2p, Task.inAmo, Access.isAmo] at h
      · exact absurd h hidle
    | fetch n va => simp [Hart.v2p, Task.inAmo, Access.isAmo] at h
    | lr n va =>
      dsimp only at h
      split_ifs at h
      · exact absurd h hidle
      · simp [Hart.v2p, Task.inAmo, Access.isAmo] at h
    | sc n va v =>
      dsimp only at h
      split_ifs at h
      · simp [Hart.v2p, Task.inAmo, Access.isAmo] at h
      · exact absurd h hidle
      · exact absurd h hidle
    | release => exact absurd h hidle

/-- After its access only the first half of an AMO goes on. -/
theorem inAmo_finish {h : Hart} {a : Access} {v : BitVec 64} {last : Option HostAddr}
    (hf : (h.finish a v last).task.inAmo = true) : ∃ n va f, a = .amoLoad n va f := by
  unfold Hart.finish at hf
  split at hf
  · cases hf
  · cases hf
  · exact ⟨_, _, _, rfl⟩
  · cases hf

/-- A hart that goes on with an AMO keeps the lock, unless it writes a page table entry. -/
theorem resume_inAmo {i : ℕ} (hi : LockInv s) (hno : NoPteStore s (.resume i)) :
    (s.resume bus i).1 = false ∧ (((s.resume bus i).2.harts i).task.inAmo = true →
      (s.resume bus i).2.world.busLock.isLockedBy i = true) := by
  have hinv := hi i
  unfold NoPteStore at hno
  unfold resume
  dsimp only at hno ⊢
  split
  · next htask =>
    rw [htask] at hinv
    exact ⟨rfl, fun h => by rw [htask] at h; cases h⟩
  · next a pa tlb htask =>
    rw [htask] at hinv
    refine ⟨rfl, fun h => hinv ?_⟩
    rw [setHart_self] at h
    exact h
  · next a t htask =>
    refine ⟨rfl, fun h => ?_⟩
    rw [setHart_self] at h
    cases h
  · -- a load of the page table walk does not touch the lock
    next a addr n k htask =>
    rw [htask] at hinv
    split_ifs
    · exact ⟨rfl, fun h => hinv (by rw [htask] at h; exact h)⟩
    · rcases hl : s.world.loadNow bus (s.harts i).dmi.dmiRanges addr n with ⟨t | x, w⟩
      · refine ⟨rfl, fun h => ?_⟩
        rw [setHart_self] at h
        cases h
      · refine ⟨rfl, fun h => ?_⟩
        rw [setHart_self] at h
        have hw := @loadNow_busLock _ bus s.world (s.harts i).dmi.dmiRanges addr n
        rw [hl] at hw
        show w.busLock.isLockedBy i = true
        rw [hw]
        exact hinv h
  · -- a store of the walk would give it back; `hno` excludes that during an AMO
    next a addr n v k htask =>
    rw [htask] at hinv hno
    split_ifs
    · exact ⟨rfl, fun h => hinv (by rw [htask] at h; exact h)⟩
    · rcases s.world.storeNow bus i (s.harts i).dmi.dmiRanges addr n v with ⟨t | x, w⟩
      · refine ⟨rfl, fun h => ?_⟩
        rw [setHart_self] at h
        cases h
      · refine ⟨rfl, fun h => ?_⟩
        rw [setHart_self] at h
        have hno' : a.isAmo = false := hno
        rw [show a.isAmo = true from h] at hno'
        cases hno'
  · next a pa htask =>
    rw [htask] at hinv
    split_ifs
    · exact ⟨rfl, fun h => hinv (by rw [htask] at h; exact h)⟩
    · rcases hr : rawAccess bus s.world i (s.harts i).dmi.dmiRanges a pa with ⟨t | ⟨v, last⟩, w⟩
      · refine ⟨rfl, fun h => ?_⟩
        rw [setHart_self] at h
        cases h
      · -- only the load of an AMO matters; it does not touch the lock
        have hamo : ∀ n va f, a = .amoLoad n va f → w.busLock.isLockedBy i = true := by
          rintro n va f rfl
          have hw := @loadNow_busLock _ bus s.world (s.harts i).dmi.dmiRanges pa n
          have hr' : s.world.loadNow bus (s.harts i).dmi.dmiRanges pa n = (.ok (v, last), w) := hr
          rw [hr'] at hw
          rw [show w.busLock = s.world.busLock from hw]
          exact hinv rfl
        refine ⟨?_, fun h => ?_⟩
        · dsimp only
          split
          · next n va f => rw [hamo n va f rfl]; rfl
          · rfl
        · rw [setHart_self] at h
          obtain ⟨n, va, f, ha⟩ := inAmo_finish h
          exact hamo n va f ha

/-- One step, of any hart or device, leaves the lock with the hart that holds it for an AMO. -/
theorem step_spec (hi : LockInv s) (e : SysEvent δ) (hno : NoPteStore s e) :
    Held bus s e ∧ LockInv (step bus s e).2 := by
  have hown : (step bus s e).1 = false ∧ ∀ i, hartOf e = some i →
      ((step bus s e).2.harts i).task.inAmo = true →
        (step bus s e).2.world.busLock.isLockedBy i = true := by
    cases e with
    | begin j op =>
      refine ⟨rfl, fun i hji h => ?_⟩
      cases hji
      exact begin_inAmo op hi h
    | resume j =>
      obtain ⟨h1, h2⟩ := @resume_inAmo _ bus _ _ hi hno
      refine ⟨h1, fun i hji h => ?_⟩
      cases hji
      exact h2 h
    | change j csrs prv tlb dmi lscache =>
      unfold step
      dsimp only
      split
      · next htask =>
        refine ⟨rfl, fun i hji h => ?_⟩
        cases hji
        rw [setHart_self] at h
        dsimp only at h
        rw [htask] at h
        cases h
      · exact ⟨rfl, fun i _ h => hi i h⟩
    | peripheral f =>
      unfold step
      dsimp only
      split_ifs <;> exact ⟨rfl, by nofun⟩
  refine ⟨⟨hi, hown.1, fun i h he => (world_of_ne (hi i h) e he).1⟩, fun i h => ?_⟩
  by_cases he : hartOf e = some i
  · exact hown.2 i he h
  · rw [harts_of_ne e he] at h
    rw [(world_of_ne (hi i h) e he).1]
    exact hi i h

/-- **For any number of harts and every interleaving of their memory operations: if no translation of an
AMO writes a page table entry, then the bus is locked by the hart without interruption from the atomic
load to the atomic store, `_atomic_store_data` finds it locked, and nobody else changes memory in
between.** -/
theorem held_of_noPteStore (bus : Bus δ) (s : System δ)
    (hidle : ∀ i, (s.harts i).task.inAmo = false) (es : List (SysEvent δ))
    (hno : Run.Along NoPteStore (step bus) s es) : Run.Along (Held bus) (step bus) s es := by
  refine Run.Along.of_invariant LockInv (fun s e hi hno => step_spec hi e hno) ?_ hno
  intro i h
  rw [hidle i] at h
  cases h

/-! ### An increment -/

namespace Increment

/-- Sv39 in supervisor mode: the table at `0x1000` maps the first gigabyte to itself, readable and
writable.  The accessed and dirty bits of the leaf are given. -/
def start (ad : BitVec 8) : System Unit where
  world :=
    { host := fun a => if a = 0x11000 then 0x07 ||| ad else 0, dev := (), busLock := ⟨false, 0⟩ }
  harts _ :=
    { csrs := { Csrs.reset with satp := ⟨1, 0, .sv39⟩ }
      prv := .supervisor
      tlb := Mmu.Tlb.flush
      dmi := ⟨true, [⟨0x10000, 0, 0x4000, MemoryDMI.nonempty_16K⟩], [], rfl⟩
      lscache := ⟨true, fun _ => ⟨0, 0⟩⟩
      lrAddr := 0
      task := .idle }

/-- Hart 0 increments the word at `0x2000`, and hart 1 wants to store there all the time. -/
def contended : List (SysEvent Unit) :=
  [.begin 0 (.amo .word 0x2000 (· + 1)), .begin 1 (.store .word 0x2000 7 false), .resume 1, .resume 0,
    .resume 1, .resume 0, .resume 0, .resume 1, .resume 0, .resume 0, .resume 1, .resume 0, .resume 1,
    .resume 1, .resume 1]

/-- Hart 0 increments the word alone. -/
def alone : List (SysEvent Unit) :=
  .begin 0 (.amo .word 0x2000 (· + 1)) :: List.replicate 8 (.resume 0)

end Increment

open Increment in
/-- With the bits set, the run of both harts. -/
theorem held_increment : Run.Along (Held Bus.empty) (step Bus.empty) (start 0xC0) contended :=
  held_of_noPteStore Bus.empty (start 0xC0) (fun _ => rfl) contended (by decide)

open Increment in
/-- With the bits clear, the AMO completes, but the bus is not locked all the time, and
`_atomic_store_data` warns. -/
theorem not_held_increment :
    (∀ i, ((start 0).harts i).task.inAmo = false) ∧
      ((Run.final (step Bus.empty) (start 0) alone).harts 0).task.inAmo = false ∧
      (Run.final (step Bus.empty) (start 0) alone).world.host 0x12000 = 1 ∧
      true ∈ Run.outputs (step Bus.empty) (start 0) alone ∧
      ¬Run.Along (Held Bus.empty) (step Bus.empty) (start 0) alone := by
  refine ⟨fun _ => rfl, by decide, by decide, by decide, ?_⟩
  rintro ⟨-, -, -, -, ⟨-, h, -⟩, -⟩
  have hwarn : (step Bus.empty (Run.final (step Bus.empty) (start 0) (alone.take 4)) (.resume 0)).1 =
      true := by decide
  cases hwarn.symm.trans h

end RiscvVp.System
