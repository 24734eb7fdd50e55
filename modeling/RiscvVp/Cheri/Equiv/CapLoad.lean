import RiscvVp.Cheri.MemInstr
import RiscvVp.Cheri.Equiv.Ram

/-!
# Loads of capabilities

A capability that is loaded should have its tag only if the granule in memory has one, the authorising
capability has the permission to load capabilities and the page does not say that tags are stripped.
The code has three gaps: only `AMOSWAP_C` looks at the permission, the translation lookaside buffer
forgets what the page says, and outside of main memory the tag is whatever the transaction leaves.
`tagIsRight_iff` says exactly when an instruction goes through one of them.
-/

namespace RiscvVp.Cheri

/-! ### Computations that succeed -/

namespace Hart

variable {δ : Type} {p : Platform δ} {h h' : Hart δ}

theorem check_eq_ok {ok : Bool} {t : SimulationTrap} {u : Unit} :
    (check ok t).run' h = (.ok u, h') ↔ ok = true ∧ h' = h := by
  cases ok with
  | false => simp [check]
  | true => simp [check, eq_comm]

theorem check_bind_eq_ok {α : Type} {ok : Bool} {t : SimulationTrap} {f : Unit → HartM δ α} {a : α} :
    (check ok t >>= f).run' h = (.ok a, h') ↔ ok = true ∧ (f ()).run' h = (.ok a, h') := by
  cases ok with
  | false => simp [check, CheriM.run'_bind]
  | true => simp [check]

theorem trapCheckAddrAlignment_eq_ok {isLoad : Bool} {addr : BitVec 64} {n : ℕ} {u : Unit} :
    (trapCheckAddrAlignment isLoad addr n).run' h = (.ok u, h') ↔ addr.toNat % n = 0 ∧ h' = h := by
  rw [trapCheckAddrAlignment, check_eq_ok, beq_iff_eq]

/-- A capability passes the checks of an access to `n` bytes. -/
structure Authorises (isLoad : Bool) (auth : Capability) (addr : BitVec 64) (n : ℕ) : Prop where
  tag : auth.tag = true
  isUnsealed : auth.isSealed = false
  load : isLoad = true → auth.permitLoad = true
  store : isLoad = false → auth.permitStore = true
  bounds : auth.inCapBounds addr (BitVec.ofNat 64 n) = true

theorem doCheriChecks_eq_ok {isLoad : Bool} {idx : BitVec 64} {auth : Capability} {addr : BitVec 64}
    {n : ℕ} {u : Unit} : (doCheriChecks isLoad idx auth addr n).run' h = (.ok u, h') ↔
      (Authorises isLoad auth addr n ∧ addr.toNat % n = 0) ∧ h' = h := by
  simp only [doCheriChecks, check_bind_eq_ok, trapCheckAddrAlignment_eq_ok]
  constructor
  · rintro ⟨h1, h2, h3, h4, h5, h6, rfl⟩
    refine ⟨⟨⟨h1, by simpa using h2, fun hl => ?_, fun hl => ?_, h5⟩, h6⟩, rfl⟩
    · simpa [hl] using h3
    · simpa [hl] using h4
  · rintro ⟨⟨⟨h1, h2, h3, h4, h5⟩, h6⟩, rfl⟩
    refine ⟨h1, by simpa using h2, ?_, ?_, h5, h6, rfl⟩
    · cases isLoad with
      | false => rfl
      | true => exact h3 rfl
    · cases isLoad with
      | false => exact h4 rfl
      | true => rfl

theorem raw_eq_ok {α : Type} {x : CheriM (World δ) α} {a : α} :
    (raw x).run' h = (.ok a, h') ↔
      ∃ w, x.run' h.world = (.ok a, w) ∧ h' = { h with world := w } := by
  show ((x.run' h.world).1, { h with world := (x.run' h.world).2 }) = _ ↔ _
  rcases x.run' h.world with ⟨r, w⟩
  simp only [Prod.mk.injEq]
  constructor
  · rintro ⟨rfl, rfl⟩
    exact ⟨w, ⟨rfl, rfl⟩, rfl⟩
  · rintro ⟨w', ⟨rfl, rfl⟩, rfl⟩
    exact ⟨rfl, rfl⟩

theorem record_eq_ok {isLoad : Bool} {vaddr : BitVec 64} {n : ℕ} {u : Unit} :
    (record isLoad vaddr n).run' h = (.ok u, h') ↔
      h' = { h with accesses := h.accesses ++ [⟨isLoad, vaddr, n⟩] } := by
  show (Except.ok (), _) = _ ↔ _
  simp [eq_comm]

theorem useFlags_eq_ok {flags : TagFlags} {tag t : Bool} {addr : BitVec 64} :
    (useFlags flags tag addr).run' h = (.ok t, h') ↔
      flags.trapIfCap = false ∧ t = (!flags.stripTag && tag) ∧ h' = h := by
  simp only [useFlags, check_bind_eq_ok, CheriM.run'_pure, Prod.mk.injEq, Except.ok.injEq]
  constructor
  · rintro ⟨h1, rfl, rfl⟩
    refine ⟨by simpa using h1, ?_, rfl⟩
    cases flags.stripTag <;> rfl
  · rintro ⟨h1, rfl, rfl⟩
    refine ⟨by simpa using h1, ?_, rfl⟩
    cases flags.stripTag <;> rfl

/-- What a successful load of a capability has done. -/
theorem loadTagged_eq_ok {addr : BitVec 64} {c : Capability} :
    (loadTagged p addr).run' h = (.ok c, h') ↔ ∃ pa flags h1 d w,
      (v2p p addr .load false).run' h = (.ok (pa, flags), h1) ∧
      (rawLoadTaggedData p pa).run' h1.world = (.ok d, w) ∧ flags.trapIfCap = false ∧
      c = Capability.ofUint128 d.1 (!flags.stripTag && d.2) ∧
      h' = { h1 with world := w, accesses := h1.accesses ++ [⟨true, addr, clen⟩] } := by
  simp only [loadTagged, CheriM.run'_bind_eq_ok, raw_eq_ok, record_eq_ok, useFlags_eq_ok,
    CheriM.run'_pure, Prod.mk.injEq, Except.ok.injEq]
  constructor
  · rintro ⟨⟨pa, flags⟩, h1, hv, d, _, ⟨w, hd, rfl⟩, _, _, rfl, _, _, ⟨ht, rfl, rfl⟩, rfl, rfl⟩
    exact ⟨pa, flags, h1, d, w, hv, hd, ht, rfl, rfl⟩
  · rintro ⟨pa, flags, h1, d, w, hv, hd, ht, rfl, rfl⟩
    exact ⟨⟨pa, flags⟩, h1, hv, d, _, ⟨w, hd, rfl⟩, (), _, rfl, _, _, ⟨ht, rfl, rfl⟩, rfl, rfl⟩

theorem lock_run' : (lock p).run' h =
    (.ok (), { h with world := { h.world with busLock := h.world.busLock.lock p.hartId } }) := rfl

theorem setLrAddr_run' {addr : BitVec 64} :
    (setLrAddr addr).run' h = (.ok (), { h with lrAddr := addr }) := rfl

theorem handleLoadCapViaCap_eq_ok {idx : BitVec 64} {auth : Capability} {addr : BitVec 64}
    {c : Capability} : (handleLoadCapViaCap p idx auth addr).run' h = (.ok c, h') ↔
      (Authorises true auth addr clen ∧ addr.toNat % clen = 0) ∧
        (loadTagged p addr).run' h = (.ok c, h') := by
  simp only [handleLoadCapViaCap, CheriM.run'_bind_eq_ok, doCheriChecks_eq_ok]
  constructor
  · rintro ⟨_, _, ⟨ha, rfl⟩, hl⟩
    exact ⟨ha, hl⟩
  · rintro ⟨ha, hl⟩
    exact ⟨(), h, ⟨ha, rfl⟩, hl⟩

theorem atomicLoadReservedCapViaCap_eq_ok {idx : BitVec 64} {auth : Capability} {addr : BitVec 64}
    {c : Capability} : (atomicLoadReservedCapViaCap p idx auth addr).run' h = (.ok c, h') ↔
      (Authorises true auth addr clen ∧ addr.toNat % clen = 0) ∧
        (loadTagged p addr).run' { h with
          world := { h.world with busLock := h.world.busLock.lock p.hartId }, lrAddr := addr } =
          (.ok c, h') := by
  simp only [atomicLoadReservedCapViaCap, CheriM.run'_bind_eq_ok, doCheriChecks_eq_ok]
  constructor
  · rintro ⟨_, _, ⟨ha, rfl⟩, _, _, h1, _, _, h2, hl⟩
    cases h1
    cases h2
    exact ⟨ha, hl⟩
  · rintro ⟨ha, hl⟩
    exact ⟨(), h, ⟨ha, rfl⟩, (), _, lock_run', (), _, setLrAddr_run', hl⟩

end Hart

namespace Iss

variable {δ : Type} {p : Platform δ} {o : Operands} {s s' : Iss δ}

theorem mem_eq_ok {α : Type} {x : HartM δ α} {a : α} : (mem x).run' s = (.ok a, s') ↔
    ∃ h, x.run' s.hart = (.ok a, h) ∧ s' = { s with hart := h } := by
  show ((x.run' s.hart).1, { s with hart := (x.run' s.hart).2 }) = _ ↔ _
  rcases x.run' s.hart with ⟨r, h⟩
  simp only [Prod.mk.injEq]
  constructor
  · rintro ⟨rfl, rfl⟩
    exact ⟨h, ⟨rfl, rfl⟩, rfl⟩
  · rintro ⟨h', ⟨rfl, rfl⟩, rfl⟩
    exact ⟨rfl, rfl⟩

theorem get_run' : (get : IssM δ (Iss δ)).run' s = (.ok s, s) := rfl

/-- A computation that starts by looking at the state. -/
theorem get_bind_run' {α : Type} (f : Iss δ → IssM δ α) : (get >>= f).run' s = (f s).run' s := by
  rw [CheriM.run'_bind, get_run']

theorem modify_eq_ok {f : Iss δ → Iss δ} {u : Unit} :
    (modify f).run' s = (.ok u, s') ↔ s' = f s := by
  show (Except.ok (), _) = _ ↔ _
  simp [eq_comm]

theorem setReg_eq_ok {i : Fin 32} {c : Capability} {u : Unit} : (setReg i c).run' s = (.ok u, s') ↔
    s' = { s with regs := Function.update s.regs i c } := modify_eq_ok

theorem check_bind_eq_ok {α : Type} {ok : Bool} {t : SimulationTrap} {f : Unit → IssM δ α} {a : α} :
    (check ok t >>= f).run' s = (.ok a, s') ↔ ok = true ∧ (f ()).run' s = (.ok a, s') := by
  cases ok with
  | false => simp [check, CheriM.run'_bind]
  | true => simp [check]

theorem mem_bind_eq_ok {α β : Type} {x : HartM δ α} {f : α → IssM δ β} {b : β} :
    (mem x >>= f).run' s = (.ok b, s') ↔
      ∃ a h, x.run' s.hart = (.ok a, h) ∧ (f a).run' { s with hart := h } = (.ok b, s') := by
  simp only [CheriM.run'_bind_eq_ok, mem_eq_ok]
  constructor
  · rintro ⟨a, _, ⟨h, hx, rfl⟩, hf⟩
    exact ⟨a, h, hx, hf⟩
  · rintro ⟨a, h, hx, hf⟩
    exact ⟨a, _, ⟨h, hx, rfl⟩, hf⟩

/-- The handler of an AMO changes traps only. -/
theorem amoTrap_eq_ok {α : Type} {x : HartM δ α} {h h' : Hart δ} {a : α} :
    (amoTrap x).run' h = (.ok a, h') ↔ x.run' h = (.ok a, h') := by
  unfold amoTrap
  conv_lhs => rw [CheriM.run']
  rcases x.run' h with ⟨(t | _) | b, h''⟩ <;> simp

end Iss

/-! ### The instructions -/

/-- The instructions that load a capability. -/
inductive CapLoad
  | lc
  | lcDdc
  | lcCap
  | lrC
  | lrCDdc
  | lrCCap
  | amoswapC
  deriving DecidableEq, Repr

namespace CapLoad

variable {δ : Type} (p : Platform δ) (o : Operands) (s : Iss δ)

/-- The instruction of the instruction set that the case stands for. -/
def instr : CapLoad → MemInstr
  | lc => .loadC
  | lcDdc => .loadCDdc
  | lcCap => .loadCCap
  | lrC => .loadReservedC
  | lrCDdc => .loadReservedCDdc
  | lrCCap => .loadReservedCCap
  | amoswapC => .amoswapC

/-- The register that is named in a trap, the authorising capability and the address. -/
def access : CapLoad → BitVec 64 × Capability × BitVec 64
  | lc => s.getCheriModeCapAddr o.rs1 o.imm
  | lcDdc | lrCDdc => (cDdcIdx, s.ddc, (s.regs o.rs1).address)
  | lcCap | lrCCap => (BitVec.ofNat 64 o.rs1, s.regs o.rs1, (s.regs o.rs1).address)
  | lrC | amoswapC => s.getCheriModeCapAddr o.rs1 0

/-- The authorising capability: `ddc`, `pcc` or the one in a register, by the form of the instruction. -/
def auth (i : CapLoad) : Capability := (i.access o s).2.1

/-- The address that is loaded from, relative to the authorising capability where the form says so. -/
def vaddr (i : CapLoad) : BitVec 64 := (i.access o s).2.2

/-- The hart when it turns to memory: a load-reserved and an AMO have locked the bus. -/
def ready (i : CapLoad) : Hart δ :=
  match i with
  | lc | lcDdc | lcCap => s.hart
  | lrC | lrCDdc | lrCCap => { s.hart with
      world := { s.hart.world with busLock := s.hart.world.busLock.lock p.hartId }
      lrAddr := i.vaddr o s }
  | amoswapC => { s.hart with
      world := { s.hart.world with busLock := s.hart.world.busLock.lock p.hartId } }

/-- The access passes the checks that are made. -/
def Allowed (i : CapLoad) : Prop :=
  Hart.Authorises true (i.auth o s) (i.vaddr o s) clen ∧ (i.vaddr o s).toNat % clen = 0 ∧
    (i = amoswapC → (i.auth o s).permitStore = true ∧
      ((i.auth o s).permitStoreCap = true ∨ (s.regs o.rs2).tag = false) ∧
      ((i.auth o s).permitStoreLocalCap = true ∨ (s.regs o.rs2).tag = false ∨
        (s.regs o.rs2).global = true))

/-- The tag of the loaded capability is left in the register, where `h` is the hart after the load: a
load-reserved resets register zero, and an AMO has a store to make and looks at the permission. -/
def Kept (i : CapLoad) (h : Hart δ) : Prop :=
  match i with
  | lc | lcDdc | lcCap => True
  | lrC | lrCDdc | lrCCap => o.rd ≠ 0
  | amoswapC => (i.auth o s).permitLoadCap = true ∧
      ∃ h', (Hart.atomicStoreCap p (i.vaddr o s) (s.regs o.rs2)).run' h = (.ok (), h')

end CapLoad

/-! ### When the register ends with a tag -/

namespace Iss

variable {δ : Type} {p : Platform δ} {o : Operands} {s : Iss δ}

/-- A load that is written to the register. -/
theorem load_tagged_iff (x : HartM δ Capability) :
    (∃ s', (mem x >>= fun c => setReg o.rd c).run' s = (.ok (), s') ∧ (s'.regs o.rd).tag = true) ↔
      ∃ c h, x.run' s.hart = (.ok c, h) ∧ c.tag = true := by
  simp only [mem_bind_eq_ok, setReg_eq_ok]
  constructor
  · rintro ⟨_, ⟨c, h, hx, rfl⟩, ht⟩
    dsimp only at ht
    rw [Function.update_self] at ht
    exact ⟨c, h, hx, ht⟩
  · rintro ⟨c, h, hx, ht⟩
    refine ⟨_, ⟨c, h, hx, rfl⟩, ?_⟩
    dsimp only
    rw [Function.update_self]
    exact ht

theorem afterLr_eq_ok {s s' : Iss δ} {u : Unit} (h : afterLr.run' s = (.ok u, s')) :
    s'.regs = s.regs := by
  rw [afterLr, modify_eq_ok] at h
  rw [h]
  split_ifs <;> rfl

/-- A load-reserved: the zero register is reset. -/
theorem lrC_tagged_iff (x : HartM δ Capability) :
    (∃ s', (lrCInstr o x).run' s = (.ok (), s') ∧ (s'.regs o.rd).tag = true) ↔
      ∃ c h, x.run' s.hart = (.ok c, h) ∧ c.tag = true ∧ o.rd ≠ 0 := by
  simp only [lrCInstr, mem_bind_eq_ok]
  simp only [CheriM.run'_bind_eq_ok, setReg_eq_ok, resetRegZero]
  constructor
  · rintro ⟨_, ⟨c, h, hx, _, _, rfl, _, s1, hlr, rfl⟩, ht⟩
    dsimp only at ht
    by_cases hrd : o.rd = 0
    · rw [hrd, Function.update_self] at ht
      exact nomatch ht
    · have hregs : s1.regs = Function.update s.regs o.rd c := afterLr_eq_ok hlr
      rw [Function.update_of_ne hrd, hregs, Function.update_self] at ht
      exact ⟨c, h, hx, ht, hrd⟩
  · rintro ⟨c, h, hx, ht, hrd⟩
    refine ⟨_, ⟨c, h, hx, (), _, rfl, (), _, rfl, rfl⟩, ?_⟩
    dsimp only
    rw [Function.update_of_ne hrd, apply_ite Iss.regs, ite_self]
    dsimp only
    rw [Function.update_self]
    exact ht

/-- The checks of `AMOSWAP_C`, the load, the store and the permission. -/
theorem amoswapC_tagged_iff :
    (∃ s', (amoswapC p o).run' s = (.ok (), s') ∧ (s'.regs o.rd).tag = true) ↔
      CapLoad.amoswapC.Allowed o s ∧ ∃ c h,
        (Hart.loadTagged p (CapLoad.amoswapC.vaddr o s)).run' (CapLoad.amoswapC.ready p o s) =
          (.ok c, h) ∧ c.tag = true ∧ CapLoad.amoswapC.Kept p o s h := by
  have hload : ∀ (a : BitVec 64) (h h' : Hart δ) (c : Capability),
      (Hart.atomicLoadCap p a).run' h = (.ok c, h') ↔ (Hart.loadTagged p a).run'
        { h with world := { h.world with busLock := h.world.busLock.lock p.hartId } } =
          (.ok c, h') := by
    intro a h h' c
    rw [Hart.atomicLoadCap, CheriM.run'_bind, Hart.lock_run']
  simp only [amoswapC, get_bind_run', check_bind_eq_ok, mem_bind_eq_ok, amoTrap_eq_ok,
    Hart.trapCheckAddrAlignment_eq_ok, setReg_eq_ok, hload, CapLoad.Allowed, CapLoad.Kept,
    CapLoad.auth, CapLoad.vaddr, CapLoad.access]
  constructor
  · rintro ⟨_, ⟨h1, h2, h3, h4, h5, h6, h7, _, _, ⟨h8, rfl⟩, c, h, hl, _, h', hst, rfl⟩, ht⟩
    dsimp only at ht
    rw [Function.update_self, Capability.clearTagIf, Bool.and_eq_true, Bool.not_not] at ht
    refine ⟨⟨⟨h1, by simpa using h2, fun _ => h3, fun hl => (nomatch hl), h7⟩, h8,
      fun _ => ⟨h4, by simpa using h5, by simpa [or_assoc] using h6⟩⟩, c, h, hl, ht.1, ht.2, h', hst⟩
  · rintro ⟨⟨⟨h1, h2, h3, -, h7⟩, h8, hamo⟩, c, h, hl, ht, hp, h', hst⟩
    obtain ⟨h4, h5, h6⟩ := hamo trivial
    refine ⟨_, ⟨h1, by simpa using h2, h3 rfl, h4, by simpa using h5, by simpa [or_assoc] using h6, h7,
      (), _, ⟨h8, rfl⟩, c, h, hl, (), h', hst, rfl⟩, ?_⟩
    dsimp only
    rw [Function.update_self, Capability.clearTagIf, Bool.and_eq_true, Bool.not_not]
    exact ⟨ht, hp⟩

end Iss

namespace CapLoad

variable {δ : Type} {p : Platform δ} {o : Operands} {s : Iss δ}

/-- The register ends with a tag if and only if the access is allowed, the load gives a tag and the tag
is kept. -/
theorem exec_tagged_iff (i : CapLoad) :
    (∃ s', (Iss.exec p o i.instr).run' s = (.ok (), s') ∧ (s'.regs o.rd).tag = true) ↔
      i.Allowed o s ∧ ∃ c h, (Hart.loadTagged p (i.vaddr o s)).run' (i.ready p o s) = (.ok c, h) ∧
        c.tag = true ∧ i.Kept p o s h := by
  have hlc : ∀ idx auth addr, (∃ c h, (Hart.handleLoadCapViaCap p idx auth addr).run' s.hart =
      (.ok c, h) ∧ c.tag = true) ↔ (Hart.Authorises true auth addr clen ∧ addr.toNat % clen = 0) ∧
        ∃ c h, (Hart.loadTagged p addr).run' s.hart = (.ok c, h) ∧ c.tag = true := by
    intro idx auth addr
    simp only [Hart.handleLoadCapViaCap_eq_ok, and_assoc, exists_and_left]
  have hlr : ∀ idx auth addr, (∃ c h, (Hart.atomicLoadReservedCapViaCap p idx auth addr).run' s.hart =
      (.ok c, h) ∧ c.tag = true ∧ o.rd ≠ 0) ↔
        (Hart.Authorises true auth addr clen ∧ addr.toNat % clen = 0) ∧
          ∃ c h, (Hart.loadTagged p addr).run' { s.hart with
            world := { s.hart.world with busLock := s.hart.world.busLock.lock p.hartId }
            lrAddr := addr } = (.ok c, h) ∧ c.tag = true ∧ o.rd ≠ 0 := by
    intro idx auth addr
    simp only [Hart.atomicLoadReservedCapViaCap_eq_ok, and_assoc, exists_and_left]
  -- the forms differ in the capability that allows the access and in the reservation
  cases i with
  | lc =>
    rw [instr, Iss.exec, Iss.get_bind_run', Iss.load_tagged_iff, hlc]
    simp [Allowed, Kept, ready, auth, vaddr, access]
  | lcDdc =>
    rw [instr, Iss.exec, Iss.get_bind_run', Iss.load_tagged_iff, hlc]
    simp [Allowed, Kept, ready, auth, vaddr, access]
  | lcCap =>
    rw [instr, Iss.exec, Iss.get_bind_run', Iss.load_tagged_iff, hlc]
    simp [Allowed, Kept, ready, auth, vaddr, access]
  | lrC =>
    rw [instr, Iss.exec, Iss.get_bind_run', Iss.lrC_tagged_iff, hlr]
    simp [Allowed, Kept, ready, auth, vaddr, access]
  | lrCDdc =>
    rw [instr, Iss.exec, Iss.get_bind_run', Iss.lrC_tagged_iff, hlr]
    simp [Allowed, Kept, ready, auth, vaddr, access]
  | lrCCap =>
    rw [instr, Iss.exec, Iss.get_bind_run', Iss.lrC_tagged_iff, hlr]
    simp [Allowed, Kept, ready, auth, vaddr, access]
  | amoswapC => exact Iss.amoswapC_tagged_iff

end CapLoad

/-! ### Tags in main memory -/

section Tags

variable {δ : Type} {p : Platform δ}

/-- A physical address of main memory. -/
def InMemory (p : Platform δ) (w : World δ) (pa : BitVec 64) : Prop :=
  p.dmi.contains pa = true ∧ p.dmi.offset pa < w.mem.size.toNat

/-- The granule at a physical address has a tag. -/
def GranuleTagged (p : Platform δ) (w : World δ) (pa : BitVec 64) : Prop :=
  InMemory p w pa ∧ w.mem.tagged (p.dmi.offset pa / clen) = true

/-- What a load from main memory reads as the tag. -/
theorem rawLoadTaggedData_tag {w w' : World δ} {pa : BitVec 64} {d : BitVec 128 × Bool}
    (hin : InMemory p w pa) (hd : (rawLoadTaggedData p pa).run' w = (.ok d, w')) :
    d.2 = w.mem.tagged (p.dmi.offset pa / clen) := by
  obtain ⟨hc, hlt⟩ := hin
  have hlocal : ((pa - p.dmi.start).setWidth 32).toNat = p.dmi.offset pa := by
    have hsize := w.mem.size.isLt
    rw [BitVec.toNat_setWidth]
    exact Nat.mod_eq_of_lt (lt_trans hlt hsize)
  replace hd : (w.waitForAccessRights p).loadTaggedNow p pa = (.ok d, w') := hd
  -- the pointer to the page and the transaction read the same tag bit
  by_cases hvia : (w.waitForAccessRights p).viaDmi p pa = true
  · rw [World.loadTaggedNow, if_pos hvia] at hd
    simp only [MemoryDMI.loadTagged, MemoryDMI.getTagFromAddr, TaggedMemory.getTag] at hd
    rw [TaggedMemory.tagged]
    cases hptr : p.dmi.getMemPtrToGlobalAddr pa clen with
    | none => simp [hptr] at hd
    | some src =>
      have hmem : (w.waitForAccessRights p).mem = w.mem := rfl
      rw [hmem] at hd
      cases htag : w.mem.tagBits[p.dmi.offset pa / clen]? with
      | none => simp [hptr, htag] at hd
      | some tag =>
        cases hpage : World.dmiPageHostAddr p pa clen with
        | none => simp [hptr, htag, hpage] at hd
        | some page =>
          simp only [hptr, htag, hpage, Option.bind_eq_bind, Option.bind_some, Option.pure_def,
            Prod.mk.injEq, Except.ok.injEq] at hd
          rw [← hd.1]
          rfl
  · rw [World.loadTaggedNow, if_neg hvia, World.doTransaction, World.bTransport, if_pos hc] at hd
    simp only [TaggedMemory.transportDbg, TaggedMemory.readData, TaggedMemory.getTag, hlocal] at hd
    have hmem : (w.waitForAccessRights p).mem = w.mem := rfl
    rw [hmem] at hd
    rw [TaggedMemory.tagged]
    have hin : (pa - p.dmi.start).setWidth 32 < w.mem.size := by
      rw [BitVec.lt_def, hlocal]
      exact hlt
    rw [if_neg (not_not.mpr hin)] at hd
    cases htag : w.mem.tagBits[p.dmi.offset pa / clen]? with
    | none =>
      rw [htag] at hd
      split_ifs at hd
      · simp at hd
      · simp at hd
    | some tag =>
      rw [htag] at hd
      split_ifs at hd
      · simp only [Option.map_some, Prod.mk.injEq, Except.ok.injEq] at hd
        rw [← hd.1]
      · simp at hd

end Tags

/-! ### When the tag is right -/

namespace CapLoad

variable {δ : Type} (p : Platform δ) (o : Operands) (s : Iss δ) (i : CapLoad)

/-- The address is translated by a page walk or by the buffer in front of it. -/
def Translated (mode : PrivilegeLevel) : Prop :=
  p.hasMmu = true ∧
    RiscvVp.Mmu.translationMode (i.ready p o s).csrs (i.ready p o s).prv .load = some mode

/-- A page walk tells to strip the tag. -/
def PageStrips : Prop :=
  ∃ mode pa flags w, i.Translated p o s mode ∧
    (Mmu.walk (memIf p) (i.ready p o s).csrs (i.vaddr o s) .load mode false ⟨false, false⟩).run'
      (i.ready p o s).world = (.ok (pa, flags), w) ∧ flags.stripTag = true

/-- The buffer has an entry for the page. -/
def TlbHit : Prop :=
  ∃ mode, i.Translated p o s mode ∧
    ((i.ready p o s).tlb mode .load (RiscvVp.Mmu.tlbIdx (i.vaddr o s >>> 12))).vpn = i.vaddr o s >>> 12

/-- The address is translated to `pa`, without the order to trap or to strip the tag; `h` is the hart
after that. -/
def TranslatesTo (pa : BitVec 64) (h : Hart δ) : Prop :=
  (Hart.v2p p (i.vaddr o s) .load false).run' (i.ready p o s) = (.ok (pa, ⟨false, false⟩), h)

/-- If the instruction leaves a tagged capability in its register, then the granule has a tag, the
authorising capability may load capabilities, and the page does not strip tags. -/
def TagIsRight : Prop :=
  ∀ s', (Iss.exec p o i.instr).run' s = (.ok (), s') → (s'.regs o.rd).tag = true →
    (∀ pa flags h, (Hart.v2p p (i.vaddr o s) .load false).run' (i.ready p o s) =
      (.ok (pa, flags), h) → GranuleTagged p h.world pa) ∧
    (i.auth o s).permitLoadCap = true ∧ ¬i.PageStrips p o s

/-- The three gaps: a missing permission, a page that strips tags and is in the TLB, and an address outside
main memory. -/
def Gap (pa : BitVec 64) (h : Hart δ) : Prop :=
  (i ≠ amoswapC ∧ (i.auth o s).permitLoadCap = false) ∨ (i.TlbHit p o s ∧ i.PageStrips p o s) ∨
    ¬InMemory p h.world pa

/-- The access is allowed, a tag is read at the address that it is translated to and kept, and there is
a gap. -/
def Leaks : Prop :=
  i.Allowed o s ∧ ∃ pa h d w, i.TranslatesTo p o s pa h ∧
    (rawLoadTaggedData p pa).run' h.world = (.ok (d, true), w) ∧
    i.Kept p o s { h with world := w, accesses := h.accesses ++ [⟨true, i.vaddr o s, clen⟩] } ∧
    i.Gap p o s pa h

variable {p o s i}

/-- Without an entry in the buffer the address and the flags are those of the page walk. -/
theorem v2p_of_walk {mode : PrivilegeLevel} {r : BitVec 64 × TagFlags} {w : World δ}
    (htr : i.Translated p o s mode) (hmiss : ¬i.TlbHit p o s)
    (hwalk : (Mmu.walk (memIf p) (i.ready p o s).csrs (i.vaddr o s) .load mode false
      ⟨false, false⟩).run' (i.ready p o s).world = (.ok r, w)) :
    ((Hart.v2p p (i.vaddr o s) .load false).run' (i.ready p o s)).1 = .ok r := by
  have hmiss' : ¬((i.ready p o s).tlb mode .load
      (RiscvVp.Mmu.tlbIdx (i.vaddr o s >>> 12))).vpn = i.vaddr o s >>> 12 :=
    fun hv => hmiss ⟨mode, htr, hv⟩
  have htrans : (Mmu.translate (memIf p) (i.ready p o s).csrs (i.ready p o s).prv
      (i.ready p o s).tlb (i.vaddr o s) .load false ⟨false, false⟩).run' (i.ready p o s).world =
        (.ok (r, (i.ready p o s).tlb.set mode .load
          (RiscvVp.Mmu.tlbIdx (i.vaddr o s >>> 12)) ⟨pageOf r.1, i.vaddr o s >>> 12⟩), w) := by
    rw [Mmu.translate, htr.2]
    dsimp only
    rw [if_neg hmiss', CheriM.run'_bind, hwalk]
    rfl
  rw [CheriM.run', Hart.v2p, if_neg (by simp [htr.1]), htrans]

/-- With an entry in the buffer there are no flags. -/
theorem v2p_of_hit (hhit : i.TlbHit p o s) :
    ∃ pa, ((Hart.v2p p (i.vaddr o s) .load false).run' (i.ready p o s)).1
      = .ok (pa, ⟨false, false⟩) := by
  obtain ⟨mode, htr, hvpn⟩ := hhit
  refine ⟨((i.ready p o s).tlb mode .load (RiscvVp.Mmu.tlbIdx (i.vaddr o s >>> 12))).ppn
    ||| pageOffset (i.vaddr o s), ?_⟩
  have htrans : (Mmu.translate (memIf p) (i.ready p o s).csrs (i.ready p o s).prv
      (i.ready p o s).tlb (i.vaddr o s) .load false ⟨false, false⟩).run' (i.ready p o s).world =
        (.ok ((((i.ready p o s).tlb mode .load (RiscvVp.Mmu.tlbIdx (i.vaddr o s >>> 12))).ppn
          ||| pageOffset (i.vaddr o s), ⟨false, false⟩), (i.ready p o s).tlb),
          (i.ready p o s).world) := by
    rw [Mmu.translate, htr.2]
    dsimp only
    rw [if_pos hvpn]
    rfl
  rw [CheriM.run', Hart.v2p, if_neg (by simp [htr.1]), htrans]

/-- Without an entry in the buffer the page does not strip tags when the flags do not say so. -/
theorem not_pageStrips {pa : BitVec 64} {h : Hart δ} (ht : i.TranslatesTo p o s pa h)
    (hhit : ¬i.TlbHit p o s) : ¬i.PageStrips p o s := by
  rintro ⟨mode, pa', flags, w, htr, hwalk, hstrip⟩
  have hv2p := v2p_of_walk htr hhit hwalk
  rw [TranslatesTo] at ht
  rw [ht] at hv2p
  simp only [Except.ok.injEq, Prod.mk.injEq] at hv2p
  rw [← hv2p.2] at hstrip
  cases hstrip

/-- A capability that is loaded with its tag. -/
theorem loadTagged_tagged_iff {c : Capability} {h' : Hart δ} :
    (Hart.loadTagged p (i.vaddr o s)).run' (i.ready p o s) = (.ok c, h') ∧ c.tag = true ↔
      ∃ pa h d w, i.TranslatesTo p o s pa h ∧
        (rawLoadTaggedData p pa).run' h.world = (.ok (d, true), w) ∧
        c = Capability.ofUint128 d true ∧
        h' = { h with world := w, accesses := h.accesses ++ [⟨true, i.vaddr o s, clen⟩] } := by
  rw [Hart.loadTagged_eq_ok]
  constructor
  · rintro ⟨⟨pa, ⟨trap, strip⟩, h, ⟨d, t⟩, w, hv, hd, ht, rfl, rfl⟩, htag⟩
    dsimp only at ht htag
    replace htag : (!strip && t) = true := htag
    rw [Bool.and_eq_true, Bool.not_eq_true'] at htag
    obtain ⟨rfl, rfl⟩ := htag
    subst ht
    exact ⟨pa, h, d, w, hv, hd, rfl, rfl⟩
  · rintro ⟨pa, h, d, w, hv, hd, rfl, rfl⟩
    exact ⟨⟨pa, _, h, (d, true), w, hv, hd, rfl, rfl, rfl⟩, rfl⟩

/-- **An instruction that loads a capability leaves a tag in its register only if the granule has one,
the authorising capability has `permit_load_cap` and the page does not strip tags, unless the access
goes through one of three gaps: a capability without the permission at any instruction but `AMOSWAP_C`,
an entry of the buffer for a page that strips tags, or an address outside of main memory.** -/
theorem tagIsRight_iff (p : Platform δ) (o : Operands) (s : Iss δ) (i : CapLoad) :
    i.TagIsRight p o s ↔ ¬i.Leaks p o s := by
  have htagged := i.exec_tagged_iff (p := p) (o := o) (s := s)
  constructor
  · rintro hright ⟨hallowed, pa, h, d, w, ht, hd, hkept, hgap⟩
    obtain ⟨s', hs', htag⟩ := htagged.mpr ⟨hallowed, _, _, (loadTagged_tagged_iff.mpr
      ⟨pa, h, d, w, ht, hd, rfl, rfl⟩).1, rfl, hkept⟩
    obtain ⟨hgranule, hperm, hpage⟩ := hright s' hs' htag
    rcases hgap with ⟨-, hno⟩ | ⟨-, hstrips⟩ | hout
    · rw [hperm] at hno
      exact nomatch hno
    · exact hpage hstrips
    · exact hout (hgranule pa _ h ht).1
  · intro hleak s' hs' htag
    obtain ⟨hallowed, c, h', hl, hc, hkept⟩ := htagged.mp ⟨s', hs', htag⟩
    obtain ⟨pa, h, d, w, ht, hd, -, rfl⟩ := loadTagged_tagged_iff.mp ⟨hl, hc⟩
    have hgap : ¬i.Gap p o s pa h := fun hgap =>
      hleak ⟨hallowed, pa, h, d, w, ht, hd, hkept, hgap⟩
    rw [Gap, not_or, not_or, not_not] at hgap
    obtain ⟨hperm, hpage, hin⟩ := hgap
    refine ⟨fun pa' flags h' hv => ?_, ?_, ?_⟩
    · obtain ⟨⟨rfl, rfl⟩, rfl⟩ : (pa' = pa ∧ flags = ⟨false, false⟩) ∧ h' = h := by
        rw [TranslatesTo, hv] at ht
        simpa using ht
      exact ⟨hin, (rawLoadTaggedData_tag hin hd).symm⟩
    · by_cases hamo : i = amoswapC
      · subst hamo
        exact hkept.1
      · by_contra hno
        exact hperm ⟨hamo, by simpa using hno⟩
    · by_cases hhit : i.TlbHit p o s
      · exact fun hstrips => hpage ⟨hhit, hstrips⟩
      · exact not_pageStrips ht hhit

/-! ### A capability without the permission -/

namespace NoLoadCap

/-- 16 KiB of memory at address zero and nothing else, and no MMU. -/
def platform : Platform Unit := { Mmu.StripPage.platform with hasMmu := false }

/-- The default capability without `permit_load_cap`. -/
def readOnlyData : Capability := { cDefaultCap with permitLoadCap := false }

/-- There is a tag on the first granule; `ddc` has no `permit_load_cap`. -/
def start : Iss Unit where
  hart :=
    { world :=
        { mem := { TaggedMemory.reset 0x4000 with
            tagBits := (Vector.replicate _ false).set 0 true (by decide) }
          dev := ()
          busLock := ⟨false, 0⟩
          dmiEnabled := true
          lastDmiPage := none }
      csrs := Csrs.reset
      prv := .machine
      tlb := RiscvVp.Mmu.Tlb.flush
      lrAddr := 0
      useLscache := false
      lscache := ⟨false, fun _ => ⟨0, 0⟩⟩
      accesses := [] }
  regs _ := cNullCap
  pcc := cDefaultCap
  ddc := readOnlyData
  fpRegs _ := 0
  fs := 0
  vs := 0
  vec := ⟨fun _ => 0, 0, 0, true, 0, 0⟩
  lrScCounter := 0

/-- `LC x5, 0(x6)`. -/
def operands : Operands := ⟨0, 5, 6, 0, 0, 0, true⟩

end NoLoadCap

open NoLoadCap in
/-- There `LC` gives a tagged capability. -/
theorem not_tagIsRight_noLoadCap : ¬lc.TagIsRight platform operands start := by
  intro h
  have htag : (((Iss.exec platform operands lc.instr).run' start).2.regs operands.rd).tag = true := by
    decide
  have hok : ((Iss.exec platform operands lc.instr).run' start).1 = .ok () := by rfl
  obtain ⟨-, hperm, -⟩ := h _ (Prod.ext hok rfl) htag
  exact nomatch hperm

end CapLoad

end RiscvVp.Cheri
