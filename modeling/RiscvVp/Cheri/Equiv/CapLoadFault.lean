import RiscvVp.Cheri.Equiv.CapLoad
import RiscvVp.Lib.Throws

/-!
# Capability loads from pages that fault

A page table entry can say that a load of a tagged capability faults.  The page walk does not know the
tag and passes the order on in the flag `trap_if_cap`, but none of the three functions that load a
capability looks at the tag before it follows the order, and the translation lookaside buffer forgets
it.  So a load faults if and only if the buffer has no entry for the page
(`capLoad_faultIsRight_iff`).  The fault itself is clean: no register is written, and the bus lock that
a load-reserved or an AMO has taken is given back when the trap is taken.
-/

namespace RiscvVp.Cheri

/-! ### What memory can throw -/

/-- The reason for which a computation stopped is not one of those that the callers of the memory
interface check for themselves. -/
def MemoryStop (e : Stop) : Prop :=
  ∀ t, e = .trap t → t.reason ∉ [ExceptionCode.cheriLoadFault, .cheriFault, .loadAddrMisaligned]

section Throws

variable {δ : Type} {p : Platform δ}

theorem memoryStop_abort : MemoryStop .abort := fun _ h => nomatch h

theorem memoryStop_trap {r : ExceptionCode}
    (hr : r ∉ [ExceptionCode.cheriLoadFault, .cheriFault, .loadAddrMisaligned]) (mtval : BitVec 64) :
    MemoryStop (.trap ⟨r, mtval⟩) := by
  intro t h
  cases h
  exact hr

/-- A transaction fails with an access fault. -/
theorem doTransaction_error {w w' : World δ} {cmd : TlmCommand} {addr : BitVec 64} {data : Bytes}
    {tag : Bool} {n : ℕ} {e : Stop} (h : w.doTransaction p cmd addr data tag n = (.error e, w')) :
    MemoryStop e := by
  unfold World.doTransaction at h
  split at h
  · cases h
  · cases h
    split
    · exact memoryStop_trap (by decide) _
    · exact memoryStop_trap (by decide) _
  · rename_i hb
    cases h
    unfold World.bTransport at hb
    split at hb
    · split at hb
      · cases hb
      · cases hb
        exact memoryStop_abort
    · cases hb

theorem throws_rawLoadData (addr : BitVec 64) (n : ℕ) :
    Throws MemoryStop (rawLoadData p addr n) := by
  intro w e h
  replace h : ((w.waitForAccessRights p).loadNow p addr n).1 = .error e := h
  unfold World.loadNow at h
  split at h
  · split at h
    · cases h
    · cases h
      exact memoryStop_abort
  · split at h
    · cases h
    · rename_i hd
      cases h
      exact doTransaction_error hd

theorem throws_rawStoreData (addr : BitVec 64) (n : ℕ) (value : BitVec (8 * n)) :
    Throws MemoryStop (rawStoreData p addr n value) := by
  intro w e h
  replace h : ((w.waitForAccessRights p).storeNow p addr n value).1 = .error e := h
  unfold World.storeNow at h
  split at h
  · split at h
    · cases h
    · cases h
      exact memoryStop_abort
  · split at h
    · cases h
    · rename_i hd
      cases h
      exact doTransaction_error hd

theorem throws_rawStoreTaggedData (addr : BitVec 64) (data : BitVec 128) (tag : Bool) :
    Throws MemoryStop (rawStoreTaggedData p addr data tag) := by
  intro w e h
  replace h : ((w.waitForAccessRights p).storeTaggedNow p addr data tag).1 = .error e := h
  unfold World.storeTaggedNow at h
  split at h
  · split at h
    · cases h
    · cases h
      exact memoryStop_abort
  · split at h
    · cases h
    · rename_i hd
      cases h
      exact doTransaction_error hd

theorem memoryStop_pageFault (type : MemoryAccessType) (vaddr : BitVec 64) :
    MemoryStop (.trap (type.pageFault vaddr)) := by
  cases type <;> exact memoryStop_trap (by decide) _

theorem throws_mmuLoadPte64 (addr : BitVec 64) :
    Throws MemoryStop (RiscvVp.Mmu.mmuLoadPte64 (memIf p) addr) :=
  ((throws_rawLoadData addr _).bind fun _ => .pure _).bind fun _ => .pure _

theorem throws_mmuStorePte32 (addr value : BitVec 64) :
    Throws MemoryStop (RiscvVp.Mmu.mmuStorePte32 (memIf p) addr value) :=
  ((throws_rawStoreData addr _ _).bind fun _ => .pure _).bind fun _ => .pure _

/-- The page walk throws page faults, faults for stores of capabilities, and access faults. -/
theorem throws_walkFrom (idxbits : ℕ) (ptesize vaddr : BitVec 64) (type : MemoryAccessType)
    (sMode sum mxr tag : Bool) (flags : TagFlags) (n : ℕ) :
    ∀ base, Throws MemoryStop
      (Mmu.walkFrom (memIf p) idxbits ptesize vaddr type sMode sum mxr tag flags n base) := by
  have hfault : ∀ {α : Type}, Throws MemoryStop
      (throw (type.pageFault vaddr) : CheriM (World δ) α) :=
    fun {_} => .throw (memoryStop_pageFault type vaddr)
  induction n with
  | zero => exact fun _ => hfault
  | succ n ih =>
    intro base
    unfold Mmu.walkFrom
    refine (throws_mmuLoadPte64 _).bind fun pte => .ite (fun _ => hfault) fun _ =>
      .ite (fun _ => ih _) fun _ => .ite (fun _ => hfault) fun _ => .bind ?_ fun _ =>
      .ite (fun _ => hfault) fun _ => .bind ?_ fun _ => .pure _
    · unfold Mmu.storeTagged
      refine .ite (fun _ => .ite (fun _ => ?_) fun _ => .ite (fun _ => ?_) fun _ => .pure _)
        fun _ => .pure _
      · exact .throw (memoryStop_trap (by decide) _)
      · exact throws_mmuStorePte32 _ _
    · exact .ite (fun _ => throws_mmuStorePte32 _ _) fun _ => .pure _

/-- Translation leaves a capability load fault to its caller. -/
theorem throws_v2p (vaddr : BitVec 64) (type : MemoryAccessType) (tag : Bool) :
    Throws MemoryStop (Hart.v2p p vaddr type tag) := by
  intro h e he
  have htr : Throws MemoryStop
      (Mmu.translate (memIf p) h.csrs h.prv h.tlb vaddr type tag ⟨false, false⟩) := by
    unfold Mmu.translate
    split
    · exact .pure _
    · refine .ite (fun _ => .pure _) fun _ => .bind ?_ fun _ => .pure _
      exact throws_walkFrom _ _ _ _ _ _ _ _ _ _ _
  unfold Hart.v2p at he
  split at he
  · cases he
  · split at he
    · cases he
    · rename_i hrun
      cases he
      exact htr h.world e (by rw [CheriM.run'] at hrun; rw [hrun])

/-- A load of data throws what memory throws. -/
theorem throws_loadData (addr : BitVec 64) (n : Width) :
    Throws MemoryStop (Hart.loadData p addr n) := by
  refine (throws_v2p _ _ _).bind fun r => .bind ?_ fun _ => .bind ?_ fun _ => .pure _
  · intro h e he
    exact throws_rawLoadData _ _ h.world e he
  · exact fun _ _ he => nomatch he

/-- So does a store of a capability. -/
theorem throws_atomicStoreCap (addr : BitVec 64) (value : Capability) :
    Throws MemoryStop (Hart.atomicStoreCap p addr value) := by
  refine (throws_v2p _ _ _).bind fun r => .bind ?_ fun _ => ?_
  · intro h e he
    exact throws_rawStoreTaggedData _ _ _ h.world e he
  · exact fun _ _ he => nomatch he

end Throws

/-! ### The outcome of an instruction from the outcome of its load -/

section Outcome

variable {δ : Type} {p : Platform δ} {o : Operands} {s : Iss δ}

/-- The checks pass for an access that is authorised and aligned. -/
theorem Hart.doCheriChecks_run' {h : Hart δ} {isLoad : Bool} {idx : BitVec 64} {auth : Capability}
    {addr : BitVec 64} {n : ℕ} (ha : Authorises isLoad auth addr n) (hal : addr.toNat % n = 0) :
    (doCheriChecks isLoad idx auth addr n).run' h = (.ok (), h) :=
  doCheriChecks_eq_ok.2 ⟨⟨ha, hal⟩, rfl⟩

/-- A call of the memory interface that succeeds, and what follows it. -/
theorem Iss.mem_bind_of_ok {α β : Type} {x : HartM δ α} {f : α → IssM δ β} {a : α} {h : Hart δ}
    (hx : x.run' s.hart = (.ok a, h)) :
    (mem x >>= f).run' s = (f a).run' { s with hart := h } := by
  rw [CheriM.run'_bind, Iss.mem_eq_ok.2 ⟨h, hx, rfl⟩]

/-- A call of the memory interface that fails. -/
theorem Iss.mem_bind_of_error {α β : Type} {x : HartM δ α} {f : α → IssM δ β} {e : Stop}
    {h : Hart δ} (hx : x.run' s.hart = (.error e, h)) :
    (mem x >>= f).run' s = (.error e, { s with hart := h }) := by
  have hmem : (mem x).run' s = (.error e, { s with hart := h }) := by
    show ((x.run' s.hart).1, { s with hart := (x.run' s.hart).2 }) = _
    rw [hx]
  rw [CheriM.run'_bind, hmem]

/-- A check that passes leaves the state alone and goes on with what stands behind it. -/
theorem Iss.check_bind_run' {β : Type} {ok : Bool} (hok : ok = true) (t : SimulationTrap)
    (f : Unit → IssM δ β) : (check ok t >>= f).run' s = (f ()).run' s := by
  rw [check, if_pos hok]
  rfl

namespace CapLoad

/-- What follows the load, given the capability. -/
def rest (p : Platform δ) (o : Operands) (s : Iss δ) (i : CapLoad) (c : Capability) : IssM δ Unit :=
  match i with
  | lc | lcDdc | lcCap => Iss.setReg o.rd c
  | lrC | lrCDdc | lrCCap => do
    Iss.setReg o.rd c
    Iss.afterLr
    Iss.resetRegZero
  | amoswapC => do
    Iss.mem (Hart.atomicStoreCap p (i.vaddr o s) (s.regs o.rs2))
    Iss.setReg o.rd (c.clearTagIf !(i.auth o s).permitLoadCap)

/-- What an instruction makes of an error of its load. -/
def onError (i : CapLoad) (e : Stop) : Stop :=
  match i, e with
  | amoswapC, .trap t =>
    .trap { t with reason := if t.reason = .loadAccessFault then .storeAmoAccessFault else t.reason }
  | _, e => e

/-- `AMOSWAP_C` once its checks have passed: one atomic load whose faults are converted, and the rest of the
instruction. -/
theorem amoswapC_run' (hallowed : amoswapC.Allowed o s) :
    (Iss.amoswapC p o).run' s =
      (Iss.mem (Iss.amoTrap (Hart.atomicLoadCap p (amoswapC.vaddr o s))) >>=
        amoswapC.rest p o s).run' s := by
  obtain ⟨ha, hal, hamo⟩ := hallowed
  obtain ⟨hst, hsc, hsl⟩ := hamo rfl
  have hsealed : (!(amoswapC.auth o s).isSealed) = true := by
    rw [ha.isUnsealed]
    rfl
  have hsc' : ((amoswapC.auth o s).permitStoreCap || !(s.regs o.rs2).tag) = true := by
    simpa using hsc
  have hsl' : ((amoswapC.auth o s).permitStoreLocalCap || !(s.regs o.rs2).tag
      || (s.regs o.rs2).global) = true := by
    simpa [or_assoc] using hsl
  rw [Iss.amoswapC, Iss.get_bind_run']
  refine (Iss.check_bind_run' ha.tag _ _).trans ?_
  refine (Iss.check_bind_run' hsealed _ _).trans ?_
  refine (Iss.check_bind_run' (ha.load rfl) _ _).trans ?_
  refine (Iss.check_bind_run' hst _ _).trans ?_
  refine (Iss.check_bind_run' hsc' _ _).trans ?_
  refine (Iss.check_bind_run' hsl' _ _).trans ?_
  refine (Iss.check_bind_run' ha.bounds _ _).trans ?_
  exact Iss.mem_bind_of_ok (a := ()) (Hart.trapCheckAddrAlignment_eq_ok.2 ⟨hal, rfl⟩)

/-- **One load and what follows it**: the outcome of an instruction whose checks pass. -/
theorem exec_run' (i : CapLoad) (hallowed : i.Allowed o s) :
    (Iss.exec p o i.instr).run' s =
      match (Hart.loadTagged p (i.vaddr o s)).run' (i.ready p o s) with
      | (.ok c, h) => (i.rest p o s c).run' { s with hart := h }
      | (.error e, h) => (.error (i.onError e), { s with hart := h }) := by
  obtain ⟨ha, hal, hamo⟩ := hallowed
  -- all seven instructions come down to one `loadTagged`, after the lock and the reservation
  have hlc : ∀ idx, (Hart.handleLoadCapViaCap p idx (i.auth o s) (i.vaddr o s)).run' s.hart
      = (Hart.loadTagged p (i.vaddr o s)).run' s.hart := by
    intro idx
    rw [Hart.handleLoadCapViaCap, CheriM.run'_bind, Hart.doCheriChecks_run' ha hal]
  have hlr : ∀ idx, (Hart.atomicLoadReservedCapViaCap p idx (i.auth o s) (i.vaddr o s)).run' s.hart
      = (Hart.loadTagged p (i.vaddr o s)).run' { s.hart with
          world := { s.hart.world with busLock := s.hart.world.busLock.lock p.hartId }
          lrAddr := i.vaddr o s } := by
    intro idx
    rw [Hart.atomicLoadReservedCapViaCap, CheriM.run'_bind, Hart.doCheriChecks_run' ha hal]
    rfl
  have hatomic : (Hart.atomicLoadCap p (i.vaddr o s)).run' s.hart
      = (Hart.loadTagged p (i.vaddr o s)).run' { s.hart with
          world := { s.hart.world with busLock := s.hart.world.busLock.lock p.hartId } } := rfl
  rcases hl : (Hart.loadTagged p (i.vaddr o s)).run' (i.ready p o s) with ⟨e | c, h⟩
  · cases i with
    | lc | lcDdc | lcCap =>
      rw [instr, Iss.exec, Iss.get_bind_run']
      exact Iss.mem_bind_of_error ((hlc _).trans hl)
    | lrC | lrCDdc | lrCCap =>
      rw [instr, Iss.exec, Iss.get_bind_run']
      exact Iss.mem_bind_of_error ((hlr _).trans hl)
    | amoswapC =>
      refine (amoswapC_run' ⟨ha, hal, hamo⟩).trans (Iss.mem_bind_of_error ?_)
      show Iss.amoTrap _ _ = _
      unfold Iss.amoTrap
      rw [hatomic.trans hl]
      cases e <;> rfl
  · cases i with
    | lc | lcDdc | lcCap =>
      rw [instr, Iss.exec, Iss.get_bind_run']
      exact Iss.mem_bind_of_ok ((hlc _).trans hl)
    | lrC | lrCDdc | lrCCap =>
      rw [instr, Iss.exec, Iss.get_bind_run']
      exact Iss.mem_bind_of_ok ((hlr _).trans hl)
    | amoswapC =>
      refine (amoswapC_run' ⟨ha, hal, hamo⟩).trans (Iss.mem_bind_of_ok ?_)
      exact Iss.amoTrap_eq_ok.2 (hatomic.trans hl)

/-- What follows the load throws nothing but what memory throws. -/
theorem throws_rest (i : CapLoad) (c : Capability) : Throws MemoryStop (i.rest p o s c) := by
  have hset : ∀ r v, Throws MemoryStop (Iss.setReg r v : IssM δ Unit) := fun _ _ _ _ h => nomatch h
  have hlr : Throws MemoryStop (Iss.afterLr : IssM δ Unit) := fun _ _ h => nomatch h
  cases i with
  | lc | lcDdc | lcCap => exact hset _ _
  | lrC | lrCDdc | lrCCap => exact (hset _ _).bind fun _ => hlr.bind fun _ => hset _ _
  | amoswapC =>
    refine .bind (fun t e he => ?_) fun _ => hset _ _
    exact throws_atomicStoreCap _ _ t.hart e he

end CapLoad

end Outcome

/-! ### When the fault is right -/

namespace CapLoad

variable {δ : Type} (p : Platform δ) (o : Operands) (s : Iss δ) (i : CapLoad)

/-- A page walk tells to fault if a tagged capability is loaded. -/
def PageFaults : Prop :=
  ∃ mode pa flags w, i.Translated p o s mode ∧
    (Mmu.walk (memIf p) (i.ready p o s).csrs (i.vaddr o s) .load mode false ⟨false, false⟩).run'
      (i.ready p o s).world = (.ok (pa, flags), w) ∧ flags.trapIfCap = true

/-- The granule that is loaded can be read and has this tag. -/
def LoadsGranule (tag : Bool) : Prop :=
  ∃ pa flags h d w, (Hart.v2p p (i.vaddr o s) .load false).run' (i.ready p o s) =
      (.ok (pa, flags), h) ∧
    (rawLoadTaggedData p pa).run' h.world = (.ok (d, tag), w)

/-- The instruction raises `EXC_CHERI_LOAD_FAULT`. -/
def Faults : Prop :=
  ∃ mtval, ((Iss.exec p o i.instr).run' s).1 = .error (.trap ⟨.cheriLoadFault, mtval⟩)

end CapLoad

/-- `release_lr_sc_reservation`, which `switch_to_trap_handler` calls before anything else. -/
def Iss.releaseLrScReservation {δ : Type} (p : Platform δ) (s : Iss δ) : Iss δ :=
  { s with lrScCounter := 0, hart := { s.hart with world := s.hart.world.unlock p } }

namespace CapLoad

variable {δ : Type} {p : Platform δ} {o : Operands} {s : Iss δ}

/-- The instruction faults if and only if the granule has a tag, and when it faults no register is
written and the hart does not hold the bus when the trap is taken. -/
structure FaultIsRight (p : Platform δ) (o : Operands) (s : Iss δ) (i : CapLoad) (tag : Bool) :
    Prop where
  iff_tag : i.Faults p o s ↔ tag = true
  regs : i.Faults p o s → ((Iss.exec p o i.instr).run' s).2.regs = s.regs
  unlocked : i.Faults p o s → (((Iss.exec p o i.instr).run' s).2.releaseLrScReservation
    p).hart.world.busLock.isLockedBy p.hartId = false

/-- An AMO changes no capability load fault, and makes none. -/
theorem onError_eq_iff (i : CapLoad) (e : Stop) (mtval : BitVec 64) :
    i.onError e = .trap ⟨.cheriLoadFault, mtval⟩ ↔ e = .trap ⟨.cheriLoadFault, mtval⟩ := by
  cases i with
  | amoswapC =>
    cases e with
    | abort => exact Iff.rfl
    | trap t =>
      obtain ⟨reason, m⟩ := t
      by_cases hr : reason = .loadAccessFault
      · subst hr
        simp [onError]
      · simp [onError, hr]
  | _ => exact Iff.rfl

/-- When the checks pass, an instruction faults if and only if its load does, and then it has changed
nothing but the hart. -/
theorem faults_iff {i : CapLoad} (hallowed : i.Allowed o s) :
    i.Faults p o s ↔ ∃ mtval h, (Hart.loadTagged p (i.vaddr o s)).run' (i.ready p o s)
      = (.error (.trap ⟨.cheriLoadFault, mtval⟩), h) := by
  unfold Faults
  rw [exec_run' i hallowed]
  rcases hl : (Hart.loadTagged p (i.vaddr o s)).run' (i.ready p o s) with ⟨e | c, h⟩
  · simp only [Except.error.injEq, onError_eq_iff, Prod.mk.injEq]
    exact ⟨fun ⟨mtval, he⟩ => ⟨mtval, h, he, rfl⟩, fun ⟨mtval, _, he, _⟩ => ⟨mtval, he⟩⟩
  · constructor
    · rintro ⟨mtval, hm⟩
      exact absurd List.mem_cons_self (throws_rest i c _ _ hm _ rfl)
    · rintro ⟨mtval, h', hm⟩
      cases hm

/-- The load of a granule that can be read faults exactly when the translation says so, whatever the
tag. -/
theorem loadTagged_faults_iff {addr pa : BitVec 64} {flags : TagFlags} {h h1 : Hart δ}
    {d : BitVec 128 × Bool} {w : World δ}
    (hv : (Hart.v2p p addr .load false).run' h = (.ok (pa, flags), h1))
    (hd : (rawLoadTaggedData p pa).run' h1.world = (.ok d, w)) :
    (∃ mtval h', (Hart.loadTagged p addr).run' h
      = (.error (.trap ⟨.cheriLoadFault, mtval⟩), h')) ↔ flags.trapIfCap = true := by
  have hraw : (Hart.raw (rawLoadTaggedData p pa)).run' h1 = (.ok d, { h1 with world := w }) :=
    Hart.raw_eq_ok.2 ⟨w, hd, rfl⟩
  have hload : (Hart.loadTagged p addr).run' h = ((do
      let tag ← Hart.useFlags flags d.2 addr
      return Capability.ofUint128 d.1 tag : HartM δ Capability)).run'
        { h1 with world := w, accesses := h1.accesses ++ [⟨true, addr, clen⟩] } := by
    rw [Hart.loadTagged, CheriM.run'_bind, hv]
    dsimp only
    rw [CheriM.run'_bind, hraw]
    rfl
  rw [hload, Hart.useFlags]
  cases ht : flags.trapIfCap with
  | false =>
    simp only [Bool.false_eq_true, iff_false]
    rintro ⟨mtval, h', he⟩
    cases he
  | true =>
    simp only [iff_true]
    exact ⟨addr, _, rfl⟩

/-- When the checks pass and the granule can be read, the instruction faults exactly when the buffer
has no entry for the page that says so. -/
theorem faults_iff_not_tlbHit {i : CapLoad} {tag : Bool} (hallowed : i.Allowed o s)
    (hpage : i.PageFaults p o s) (hgranule : i.LoadsGranule p o s tag) :
    i.Faults p o s ↔ ¬i.TlbHit p o s := by
  obtain ⟨pa, flags, h, d, w, hv, hd⟩ := hgranule
  rw [faults_iff hallowed, loadTagged_faults_iff hv hd]
  by_cases hhit : i.TlbHit p o s
  · obtain ⟨pa', hpa⟩ := v2p_of_hit hhit
    rw [hv] at hpa
    cases hpa
    simp [hhit]
  · obtain ⟨mode, pa', flags', w', htr, hwalk, htrap⟩ := hpage
    have hv' := v2p_of_walk htr hhit hwalk
    rw [hv] at hv'
    cases hv'
    simp [hhit, htrap]

/-- **A capability load from a page that faults** is right about the fault exactly when the buffer has
no entry for the page and the granule has a tag, or it has one and the granule has none. -/
theorem capLoad_faultIsRight_iff (p : Platform δ) (o : Operands) (s : Iss δ) (i : CapLoad)
    (tag : Bool) (hallowed : i.Allowed o s) (hpage : i.PageFaults p o s)
    (hgranule : i.LoadsGranule p o s tag) :
    i.FaultIsRight p o s tag ↔ (i.TlbHit p o s ↔ tag = false) := by
  have hiff := faults_iff_not_tlbHit hallowed hpage hgranule
  have hclean : i.Faults p o s → ((Iss.exec p o i.instr).run' s).2.regs = s.regs := by
    intro hf
    obtain ⟨mtval, h, hl⟩ := (faults_iff hallowed).1 hf
    rw [exec_run' i hallowed, hl]
  constructor
  · intro hright
    have := hright.iff_tag
    rw [hiff] at this
    rw [← not_iff_not, this, Bool.not_eq_false]
  · intro hcond
    refine ⟨?_, hclean, fun _ => BusLock.isLockedBy_unlock _ _⟩
    rw [hiff, hcond, Bool.not_eq_false]

/-! ### A page that faults -/

namespace FaultPage

open Mmu.StripPage (platform sv39)

/-- The table at `0x1000` maps the first gigabyte to itself, with the bit for faults set; the granule at
`0x2000` has the given tag. -/
def memory (tag : Bool) : TaggedMemory :=
  { TaggedMemory.reset 0x4000 with
    data := fun a => if a = 0x1000 then 0xD7 else if a = 0x1007 then 0x10 else 0
    tagBits := (Vector.replicate _ false).set 0x200 tag (by decide) }

/-- User mode on Sv39 after `flush_tlb`, with the default capability as `ddc` and `0x2000` in every
register. -/
def start (tag : Bool) : Iss Unit :=
  { NoLoadCap.start with
    hart := { NoLoadCap.start.hart with
      world := { NoLoadCap.start.hart.world with mem := memory tag }
      csrs := { Csrs.reset with satp := sv39 }
      prv := .user }
    regs := fun _ => Capability.ofInt 0x2000
    ddc := cDefaultCap }

open NoLoadCap (operands)

theorem allowed (tag : Bool) : lc.Allowed operands (start tag) := by
  refine ⟨⟨rfl, rfl, fun _ => rfl, nofun, ?_⟩, ?_, nofun⟩
  · show cDefaultCap.inCapBounds 0x2000 16 = true
    decide
  · show (0x2000 : BitVec 64).toNat % 16 = 0
    rfl

/-- The page walk, which marks the entry as accessed. -/
theorem walk_eq (tag : Bool) :
    ((Mmu.walk (memIf platform) (start tag).hart.csrs 0x2000 .load .user false ⟨false, false⟩).run'
      (start tag).hart.world).1 = .ok (0x2000, ⟨true, false⟩) := by
  cases tag <;> rfl

theorem pageFaults (tag : Bool) : lc.PageFaults platform operands (start tag) :=
  ⟨.user, 0x2000, ⟨true, false⟩, _, ⟨rfl, rfl⟩, Prod.ext (walk_eq tag) rfl, rfl⟩

theorem not_tlbHit (tag : Bool) : ¬lc.TlbHit platform operands (start tag) := by
  rintro ⟨mode, -, hv⟩
  replace hv : BitVec.allOnes 64 = (0x2000 : BitVec 64) >>> 12 := hv
  exact absurd hv (by decide)

theorem loadsGranule (tag : Bool) : lc.LoadsGranule platform operands (start tag) tag := by
  have hv := v2p_of_walk (⟨rfl, rfl⟩ : lc.Translated platform operands (start tag) .user)
    (not_tlbHit tag) (Prod.ext (walk_eq tag) rfl)
  refine ⟨0x2000, ⟨true, false⟩, _, 0, _, Prod.ext hv rfl, Prod.ext ?_ rfl⟩
  cases tag <;> decide +kernel

end FaultPage

open FaultPage in
open Mmu.StripPage (platform) in
open NoLoadCap (operands) in
/-- With a tag on the granule the fault is right. -/
theorem capLoad_faultIsRight_iff_tagged :
    lc.LoadsGranule platform operands (start true) true ∧
      lc.FaultIsRight platform operands (start true) true :=
  ⟨loadsGranule true, (capLoad_faultIsRight_iff platform operands (start true) lc true (allowed true)
    (pageFaults true) (loadsGranule true)).2 ⟨fun h => absurd h (not_tlbHit true), nofun⟩⟩

open FaultPage in
open Mmu.StripPage (platform) in
open NoLoadCap (operands) in
/-- Without a tag on the granule `LC` faults all the same. -/
theorem not_capLoad_faultIsRight :
    lc.Allowed operands (start false) ∧ lc.PageFaults platform operands (start false) ∧
    lc.LoadsGranule platform operands (start false) false ∧
    ((Iss.exec platform operands lc.instr).run' (start false)).1
      = .error (.trap ⟨.cheriLoadFault, 0x2000⟩) ∧
    ¬lc.FaultIsRight platform operands (start false) false := by
  refine ⟨allowed false, pageFaults false, loadsGranule false, by rfl, ?_⟩
  intro h
  exact nomatch h.iff_tag.1 ⟨0x2000, by rfl⟩

end CapLoad

end RiscvVp.Cheri
