import RiscvVp.Iss.DataInstr
import RiscvVp.Mem.Equiv.AdBits

/-!
# What an instruction that traps leaves behind

`DataHart.step_precise`: when a load, a store, an instruction of the A extension or a CSR instruction
traps, the registers are as before and memory has changed in accessed and dirty bits of page table
entries only.  The one exception is made on purpose: `SC_W` and `SC_D` write 1 to the destination
before they try the store.
-/

namespace RiscvVp

open Mmu

/-! ### The interface of the load/store cache -/

namespace LsCacheIf

variable {δ : Type} {bus : Bus δ} {hart : ℕ}

/-- Accesses that throw have changed memory in accessed and dirty bits only. -/
structure ThrowsClean (bus : Bus δ) (hart : ℕ) (ls : LsCacheIf δ) : Prop where
  load : ∀ {c c' : Core δ} {op : LoadOp} {va : BitVec 64} {V : Set (BitVec 64)}
    {t : SimulationTrap}, va ∈ V → ls.load c op va = (.error t, c') →
    c.OnlyAD bus hart V c'.world
  store : ∀ {c c' : Core δ} {n : Width} {va v : BitVec 64} {V : Set (BitVec 64)}
    {t : SimulationTrap}, va ∈ V → ls.store c n va v = (.error t, c') →
    c.OnlyAD bus hart V c'.world

/-- The interface without a cache writes nothing before it throws, if the bus is clean. -/
theorem throwsClean_dummy (hbus : bus.WritesRamOnly) : (dummy bus hart).ThrowsClean bus hart where
  load {c c' op va V t} hva h := by
    have hl := @Core.load_onlyAD _ bus hart c va V hbus hva op
    replace h : ((c.load bus hart op va).1.map (·.1), (c.load bus hart op va).2) = (.error t, c') := h
    rw [Prod.mk.injEq] at h
    rw [← h.2]
    exact hl
  store {c c' n va v V t} hva h := by
    replace h : ((c.storeData bus hart va n v).1.map fun _ => (),
      (c.storeData bus hart va n v).2) = (.error t, c') := h
    rcases hs : c.storeData bus hart va n v with ⟨t' | x, c1⟩
    · rw [hs] at h
      cases h
      exact Core.storeData_onlyAD hbus hva hs
    · rw [hs] at h
      cases h

/-- The cache: an access that it answers itself does not throw. -/
theorem throwsClean_functional (hbus : bus.WritesRamOnly) :
    (functional bus hart).ThrowsClean bus hart where
  load {c c' op va V t} hva h := by
    have hl := @Core.load_onlyAD _ bus hart c va V hbus hva op
    replace h : cachedLoad bus hart c op va = (.error t, c') := h
    unfold cachedLoad at h
    split at h
    · exact (throwsClean_dummy hbus).load hva h
    · dsimp only at h
      split at h
      · rcases hr : c.load bus hart op va with ⟨t' | x, c1⟩
        · rw [hr] at h hl
          cases h
          exact hl
        · rw [hr] at h
          cases h
      · cases h
  store {c c' n va v V t} hva h := by
    replace h : cachedStore bus hart c n va v = (.error t, c') := h
    unfold cachedStore at h
    split at h
    · exact (throwsClean_dummy hbus).store hva h
    · dsimp only at h
      split at h
      · rcases hs : c.storeData bus hart va n v with ⟨t' | x, c1⟩
        · rw [hs] at h
          cases h
          exact Core.storeData_onlyAD hbus hva hs
        · rw [hs] at h
          cases h
      · cases h

end LsCacheIf

/-! ### CSR instructions -/

namespace CsrFile

/-- `set_csr_value` raises an exception in one case only. -/
theorem setNamed_error {h : CsrFile} {a : CsrAddr} {v : BitVec 64} {t : SimulationTrap}
    (hset : h.setNamed a v = .error t) : a = .satp ∧ h.tvm = true := by
  cases a with
  | satp =>
    rw [setNamed] at hset
    split at hset
    · next htvm => exact ⟨rfl, htvm⟩
    · cases hset
  | _ => cases hset

/-- A register that could be read can be written. -/
theorem setCsrValue_of_getCsrValue {h f : CsrFile} {addr : BitVec 12} {x : BitVec 64}
    (hget : h.getCsrValue addr = .ok (x, f)) (v : BitVec 64) :
    ∃ f', f.setCsrValue addr v = .ok f' := by
  unfold getCsrValue at hget
  split at hget
  · cases hget
  · cases ha : csrAddr addr with
    | none =>
      rw [ha] at hget
      cases hget
    | some a =>
      rw [ha] at hget
      replace hget : h.getNamed a = .ok (x, f) := hget
      have hset : f.setCsrValue addr v = f.setNamed a v := by
        unfold setCsrValue
        rw [ha]
      rw [hset]
      cases hr : f.setNamed a v with
      | ok f' => exact ⟨f', rfl⟩
      | error t =>
        obtain ⟨rfl, htvm⟩ := setNamed_error hr
        rw [getNamed] at hget
        split at hget
        · cases hget
        · next hn =>
          -- reading `satp` changes nothing
          cases hget
          exact absurd htvm hn

end CsrFile

/-! ### Instructions -/

namespace DataInstr

/-- The address of an access, from the registers before the instruction; CSR instructions have none. -/
def vaddr (i : DataInstr) (regs : BitVec 5 → BitVec 64) : Option (BitVec 64) :=
  match i with
  | .load _ _ rs1 imm | .store _ rs1 _ imm | .fload _ rs1 imm | .fstore _ rs1 imm _ =>
    some (regs rs1 + imm)
  | .lr _ _ rs1 | .sc _ _ rs1 _ | .amo _ _ _ rs1 _ => some (regs rs1)
  | .csr .. => none

/-- The destination of an `SC_W` or `SC_D` whose address is aligned. -/
def scDest (i : DataInstr) (regs : BitVec 5 → BitVec 64) : Option (BitVec 5) :=
  match i with
  | .sc n rd rs1 _ => if (regs rs1).toNat % n.width.bytes = 0 then some rd else none
  | _ => none

end DataInstr

namespace DataHart

variable {δ : Type} {bus : Bus δ} {hart : ℕ} {ls : LsCacheIf δ} {h h' : DataHart δ}
  {t : SimulationTrap}

/-- What an exception has left: registers as given, and memory with changes in accessed and dirty bits
of the entries for the addresses of `V`. -/
structure Clean (bus : Bus δ) (hart : ℕ) (h : DataHart δ) (regs : BitVec 5 → BitVec 64)
    (V : Set (BitVec 64)) (h' : DataHart δ) : Prop where
  regs_eq : h'.regs = regs
  mem : h.core.OnlyAD bus hart V h'.world

variable {V : Set (BitVec 64)} {regs : BitVec 5 → BitVec 64}

/-- Nothing has been accessed, nothing changed: every state is clean with respect to itself. -/
theorem Clean.refl (h : DataHart δ) : h.Clean bus hart h.regs V h := ⟨rfl, .same rfl⟩

/-- A check of the alignment, and an instruction that is clean after it. -/
theorem clean_checkAddrAlignment {n : Width} {isLoad : Bool} {addr : BitVec 64} {k : Outcome δ}
    (hx : h.checkAddrAlignment n isLoad addr k = (.error t, h'))
    (hk : k = (.error t, h') → h.Clean bus hart h.regs V h') : h.Clean bus hart h.regs V h' := by
  unfold checkAddrAlignment at hx
  split at hx
  · cases hx
    exact .refl h
  · exact hk hx

theorem clean_fpPrepareInstr {k : Outcome δ} (hx : h.fpPrepareInstr k = (.error t, h'))
    (hk : k = (.error t, h') → h.Clean bus hart h.regs V h') : h.Clean bus hart h.regs V h' := by
  unfold fpPrepareInstr at hx
  split at hx
  · cases hx
    exact .refl h
  · exact hk hx

/-- An access after which nothing can throw. -/
theorem access_error {α : Type} {r : Except SimulationTrap α × Core δ}
    {k : α → DataHart δ → Outcome δ} (hx : h.access r k = (.error t, h'))
    (hk : ∀ a g, (k a g).1 = .ok ()) : ∃ c, r = (.error t, c) ∧ h' = h.setCore c := by
  rcases r with ⟨t' | a, c⟩
  · cases hx
    exact ⟨c, rfl, rfl⟩
  · replace hx : k a (h.setCore c) = (.error t, h') := hx
    have hok := hk a (h.setCore c)
    rw [hx] at hok
    cases hok

/-- The load of `lscache` and what follows it. -/
theorem clean_access_load (hls : ls.ThrowsClean bus hart) {op : LoadOp} {va : BitVec 64}
    (hva : va ∈ V) {k : BitVec 64 → DataHart δ → Outcome δ}
    (hx : h.access (ls.load h.core op va) k = (.error t, h')) (hk : ∀ a g, (k a g).1 = .ok ()) :
    h.Clean bus hart h.regs V h' := by
  obtain ⟨c, hr, rfl⟩ := access_error hx hk
  exact ⟨rfl, hls.load hva hr⟩

/-- The store of `lscache` and what follows it. -/
theorem clean_access_store (hls : ls.ThrowsClean bus hart) {n : Width} {va v : BitVec 64}
    (hva : va ∈ V) {k : Unit → DataHart δ → Outcome δ}
    (hx : h.access (ls.store h.core n va v) k = (.error t, h')) (hk : ∀ a g, (k a g).1 = .ok ()) :
    h.Clean bus hart h.regs V h' := by
  obtain ⟨c, hr, rfl⟩ := access_error hx hk
  exact ⟨rfl, hls.store hva hr⟩

/-- `LR_W` and `LR_D` that throw have taken the lock by then, and written no register. -/
theorem clean_execLr (hbus : bus.WritesRamOnly) {n : AmoWidth} {rd rs1 : BitVec 5}
    (hva : h.regs rs1 ∈ V) (hx : h.execLr bus hart n rd rs1 = (.error t, h')) :
    h.Clean bus hart h.regs V h' := by
  refine clean_checkAddrAlignment hx fun hx => ?_
  obtain ⟨c, hr, rfl⟩ := access_error hx (by intro a g; rfl)
  refine ⟨rfl, ?_⟩
  have hl := @Core.load_onlyAD _ bus hart { h.lock hart with lrAddr := h.regs rs1 }.core _ V hbus hva
    n.loadOp
  rw [hr] at hl
  exact World.OnlyAD.of_host (w := (h.lock hart).world) rfl hl

/-- `SC_W` and `SC_D`: the destination has been written when the store is tried. -/
theorem clean_execSc (hbus : bus.WritesRamOnly) {n : AmoWidth} {rd rs1 rs2 : BitVec 5}
    (hva : h.regs rs1 ∈ V) (hx : h.execSc bus hart n rd rs1 rs2 = (.error t, h')) :
    h.Clean bus hart
      (if (h.regs rs1).toNat % n.width.bytes = 0 then Function.update h.regs rd 1 else h.regs)
      V h' := by
  unfold execSc checkAddrAlignment at hx
  dsimp only at hx
  by_cases hal : (h.regs rs1).toNat % n.width.bytes = 0
  · rw [if_neg (not_not.mpr hal)] at hx
    rw [if_pos hal]
    split at hx
    · split at hx
      · obtain ⟨c, hr, rfl⟩ := access_error hx (by intro a g; rfl)
        exact ⟨rfl, Core.storeData_onlyAD hbus hva hr⟩
      · cases hx
    · cases hx
  · rw [if_pos hal] at hx
    rw [if_neg hal]
    cases hx
    exact .refl h

/-- `execute_amo_w` and `execute_amo_d`: the load may have set the accessed bit when the store throws. -/
theorem clean_execAmo (hbus : bus.WritesRamOnly) {n : AmoWidth} {op : AmoOp} {rd rs1 rs2 : BitVec 5}
    (hva : h.regs rs1 ∈ V) (hx : h.execAmo bus hart n op rd rs1 rs2 = (.error t, h')) :
    h.Clean bus hart h.regs V h' := by
  refine clean_checkAddrAlignment hx fun hx => ?_
  have hl := @Core.load_onlyAD _ bus hart (h.lock hart).core _ V hbus hva n.loadOp
  have hdmi := @Core.load_dmi _ bus hart (h.lock hart).core (h.regs rs1) n.loadOp
  dsimp only at hx
  rcases hr : (h.lock hart).core.load bus hart n.loadOp (h.regs rs1) with ⟨t' | ⟨data, p⟩, c⟩
  · rw [hr] at hx hl
    cases hx
    exact ⟨rfl, World.OnlyAD.of_host (w := (h.lock hart).world) rfl hl⟩
  · rw [hr] at hx hl hdmi
    obtain ⟨c', hs, rfl⟩ := access_error hx (by intro a g; rfl)
    refine ⟨rfl, ?_⟩
    have hst := Core.storeData_onlyAD hbus hva hs
    have hload : h.core.OnlyAD bus hart V c.world :=
      World.OnlyAD.of_host (w := (h.lock hart).world) rfl hl
    unfold Core.OnlyAD at hst
    rw [show ((h.lock hart).setCore c).core.dmi = h.dmi from hdmi] at hst
    exact hload.trans hst

/-- The CSR instructions: what has been read can be written. -/
theorem clean_execCsr {op : CsrOp} {addr : BitVec 12} {rd : BitVec 5} {operand : CsrOperand}
    (hx : h.execCsr op addr rd operand = (.error t, h')) : h.Clean bus hart h.regs V h' := by
  have hwrite : ∀ {g : DataHart δ} {v : BitVec 64}, g.csrWrite addr v = (.error t, h') →
      (∃ f', g.csrFile.setCsrValue addr v = .ok f') → False := by
    intro g v hg ⟨f', hf⟩
    unfold csrWrite at hg
    rw [hf] at hg
    cases hg
  unfold execCsr at hx
  dsimp only at hx
  split at hx
  · cases hx
    exact .refl h
  · cases hx
    exact .refl h
  · split at hx
    · split at hx
      · cases hx
        exact .refl h
      · next csrVal f hget =>
        split at hx
        · refine (hwrite hx ?_).elim
          split
          · exact CsrFile.setCsrValue_of_getCsrValue hget _
          · exact CsrFile.setCsrValue_of_getCsrValue hget _
        · cases hx
    · -- nothing has been read, so nothing has been written either
      unfold csrWrite at hx
      split at hx
      · cases hx
      · cases hx
        exact .refl h

/-- An instruction that throws has written no register, except that a store-conditional leaves its failure
code. -/
theorem clean_exec (hbus : bus.WritesRamOnly) (hls : ls.ThrowsClean bus hart) {i : DataInstr}
    (hx : h.exec bus hart ls i = (.error t, h')) :
    h.Clean bus hart
      (match i.scDest h.regs with
        | some rd => Function.update h.regs rd 1
        | none => h.regs)
      {va | i.vaddr h.regs = some va} h' := by
  cases i with
  | load op rd rs1 imm =>
    refine clean_checkAddrAlignment hx fun hx => ?_
    exact clean_access_load hls rfl hx (by intro a g; rfl)
  | store n rs1 rs2 imm =>
    refine clean_checkAddrAlignment hx fun hx => ?_
    exact clean_access_store hls rfl hx (by intro a g; rfl)
  | fload op rs1 imm =>
    refine clean_fpPrepareInstr hx fun hx => ?_
    refine clean_checkAddrAlignment hx fun hx => ?_
    exact clean_access_load hls rfl hx (by intro a g; rfl)
  | fstore n rs1 imm value =>
    refine clean_fpPrepareInstr hx fun hx => ?_
    refine clean_checkAddrAlignment hx fun hx => ?_
    exact clean_access_store hls rfl hx (by intro a g; rfl)
  | lr n rd rs1 => exact clean_execLr hbus rfl hx
  | sc n rd rs1 rs2 =>
    have hsc := clean_execSc (V := {va | some (h.regs rs1) = some va}) hbus rfl hx
    dsimp only [DataInstr.scDest]
    by_cases hal : (h.regs rs1).toNat % n.width.bytes = 0
    · rw [if_pos hal] at hsc ⊢
      exact hsc
    · rw [if_neg hal] at hsc ⊢
      exact hsc
  | amo n op rd rs1 rs2 => exact clean_execAmo hbus rfl hx
  | csr op addr rd operand => exact clean_execCsr hx

/-- **An instruction that traps has written no register**, but for the destination of an `SC_W` or `SC_D`
whose store was tried, which holds 1 (what is left in `x0` then is not said), **and has changed memory
in accessed and dirty bits of the page table entries for its address only.** -/
theorem step_precise (hbus : bus.WritesRamOnly)
    (hls : ls = .functional bus hart ∨ ls = .dummy bus hart) {i : DataInstr}
    (hx : h.step bus hart ls i = (some t, h')) :
    (∀ r, i.scDest h.regs ≠ some r → h'.regs r = h.regs r) ∧
      (∀ r, r ≠ 0 → i.scDest h.regs = some r → h'.regs r = 1) ∧
      h.core.OnlyAD bus hart {va | i.vaddr h.regs = some va} h'.world ∧
      ∀ x, h'.world.host x &&& 0x3F = h.world.host x &&& 0x3F := by
  have hclean : ls.ThrowsClean bus hart := by
    rcases hls with rfl | rfl
    · exact LsCacheIf.throwsClean_functional hbus
    · exact LsCacheIf.throwsClean_dummy hbus
  unfold step at hx
  split at hx
  · cases hx
  · next t' g hg =>
    cases hx
    obtain ⟨hregs, hmem⟩ := clean_exec hbus hclean hg
    have hregs' : (g.releaseLrScReservation hart).regs = g.regs := rfl
    refine ⟨?_, ?_, hmem.host_eq rfl, fun x => hmem.mask x⟩
    · intro r hr
      rw [hregs', hregs]
      cases hd : i.scDest h.regs with
      | none => rfl
      | some rd => exact Function.update_of_ne (by rintro rfl; exact hr hd) _ _
    · intro r _ hr
      rw [hregs', hregs, hr]
      exact Function.update_self _ _ _

/-! ### A page that can be loaded from and not stored to -/

/-- A hart in supervisor mode with an entry for the first GiB of its addresses. -/
def onePage (entry : BitVec 8) : DataHart Unit where
  regs _ := 0
  world := ⟨fun a => if a = 0x1000 then entry else 0, (), ⟨false, 0⟩⟩
  tlb := .flush
  dmi := ⟨true, [⟨0, 0, 0x4000, MemoryDMI.nonempty_16K⟩], [], DmiRanges.oneEmpty_16K⟩
  lscache := ⟨true, fun _ => ⟨0, 0⟩⟩
  lrAddr := 0
  lrScCounter := 0
  csrFile :=
    { table := fun p => if p = ⟨.satp, 0⟩ then 0x8000000000000001 else 0
      prv := .supervisor
      instr := 0
      mtime := 0
      cycleCounterRaw := 0
      cycleCounterRawLast := 0
      cycleCounter := 0
      propClockCyclePeriod := 1 }

/-- The reservation can be made, and the store page fault finds 1 in the destination. -/
theorem not_precise_sc :
    let ls := LsCacheIf.functional Bus.empty 0
    let h := ((onePage 0x43).step Bus.empty 0 ls (.lr .word 7 6)).2
    ((onePage 0x43).step Bus.empty 0 ls (.lr .word 7 6)).1 = none ∧
      (h.step Bus.empty 0 ls (.sc .word 5 6 6)).1 = some ⟨.storeAmoPageFault, 0⟩ ∧
      h.regs 5 = 0 ∧ (h.step Bus.empty 0 ls (.sc .word 5 6 6)).2.regs 5 = 1 := by
  decide

/-- The load of an atomic addition sets the accessed bit before the store faults. -/
theorem step_precise_amo :
    let ls := LsCacheIf.functional Bus.empty 0
    let h' := ((onePage 0x03).step Bus.empty 0 ls (.amo .word .add 5 6 7)).2
    (onePage 0x03).step Bus.empty 0 ls (.amo .word .add 5 6 7) = (some ⟨.storeAmoPageFault, 0⟩, h') ∧
      h'.world.host 0x1000 = 0x43 ∧ (∀ r, h'.regs r = 0) ∧
      (onePage 0x03).core.OnlyAD Bus.empty 0 {va | some 0 = some va} h'.world := by
  have htrap : ((onePage 0x03).step Bus.empty 0 (.functional Bus.empty 0)
      (.amo .word .add 5 6 7)).1 = some ⟨.storeAmoPageFault, 0⟩ := by decide
  have h := step_precise Bus.writesRamOnly_empty (.inl rfl) (Prod.ext htrap rfl)
  exact ⟨Prod.ext htrap rfl, by decide, fun r => h.1 r (by simp [DataInstr.scDest]), h.2.2.1⟩

end DataHart

end RiscvVp
