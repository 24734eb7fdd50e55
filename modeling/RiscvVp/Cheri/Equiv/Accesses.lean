import RiscvVp.Cheri.Equiv.CapLoad
import RiscvVp.Cheri.Equiv.Monotone
import RiscvVp.Lib.Log

/-!
# The accesses of an instruction to data memory

`MemInstr.mediated_of_covered`: every access of an instruction that completes is authorised by the
capability that ought to authorise it.  The scalar instructions, the AMOs and the instructions of the
extension check that capability first, and what has been checked covers every byte.  The loads and stores
of floats and the vector unit check nothing; for them `MemInstr.Covered` asks that the bytes happen to lie
in the capability.
-/

namespace RiscvVp

open Cheri

/-! ### What a capability covers -/

/-- A capability authorises an access: it is tagged and not sealed, has the permission, and its bounds
contain the bytes. -/
structure Capability.Covers (c : Capability) (a : Access) : Prop where
  tag : c.tag = true
  isUnsealed : c.isSealed = false
  load : a.isLoad = true → c.permitLoad = true
  store : a.isLoad = false → c.permitStore = true
  base : c.getBase.toNat ≤ a.vaddr.toNat
  top : a.vaddr.toNat + a.bytes ≤ c.getTop.toNat

theorem Width.bytes_lt (n : Width) : n.bytes < 2 ^ 64 := by
  cases n <;> decide

namespace Cheri

/-- What has been checked authorises every access to a part of the range. -/
theorem Hart.Authorises.covers {isLoad : Bool} {auth : Capability} {addr : BitVec 64} {n : ℕ}
    (h : Hart.Authorises isLoad auth addr n) (hn : n < 2 ^ 64) {vaddr : BitVec 64} {m : ℕ}
    (hlo : addr.toNat ≤ vaddr.toNat) (hhi : vaddr.toNat + m ≤ addr.toNat + n) :
    auth.Covers ⟨isLoad, vaddr, m⟩ := by
  have hb := (auth.inCapBounds_iff _ _).mp h.bounds
  rw [BitVec.toNat_ofNat, Nat.mod_eq_of_lt hn] at hb
  exact ⟨h.tag, h.isUnsealed, h.load, h.store, le_trans hb.1 hlo, le_trans hhi hb.2⟩

/-! ### Accesses of the memory interface -/

namespace Hart

variable {δ : Type} {p : Platform δ} {φ : Access → Prop} {α : Type}

/-- Every access that a computation makes satisfies `φ`. -/
abbrev Emits (φ : Access → Prop) (x : HartM δ α) : Prop :=
  Log.Appends Hart.accesses (fun _ => True) φ x

theorem emits_of_eq {x : HartM δ α} (h : ∀ s, (x.run' s).2.accesses = s.accesses) : Emits φ x := by
  refine Log.Appends.of_log_eq fun s _ a s' hx => ⟨trivial, ?_⟩
  have hs := h s
  rw [CheriM.run', hx] at hs
  exact hs

theorem emits_raw (x : CheriM (World δ) α) : Emits φ (raw x) := emits_of_eq fun _ => rfl

theorem emits_v2p (vaddr : BitVec 64) (type : MemoryAccessType) (tag : Bool) :
    Emits φ (v2p p vaddr type tag) := by
  refine emits_of_eq fun h => ?_
  show (if !p.hasMmu then _ else _ : Except Stop (BitVec 64 × TagFlags) × Hart δ).2.accesses = _
  split_ifs
  · rfl
  · rcases (Mmu.translate (memIf p) h.csrs h.prv h.tlb vaddr type tag ⟨false, false⟩).run' h.world with
      ⟨e | ⟨r, tlb⟩, w⟩ <;> rfl

theorem emits_record {isLoad : Bool} {vaddr : BitVec 64} {n : ℕ} (h : φ ⟨isLoad, vaddr, n⟩) :
    Emits φ (record (δ := δ) isLoad vaddr n) := by
  intro s _ a s' hx
  obtain rfl := record_eq_ok.mp hx
  refine ⟨trivial, _, rfl, fun e he => ?_⟩
  rw [List.mem_singleton.mp he]
  exact h

theorem emits_check {ok : Bool} {t : SimulationTrap} : Emits φ (check (δ := δ) ok t) := by
  cases ok <;> exact emits_of_eq fun _ => rfl

/-- What has been checked holds afterwards: behind the checks the capability may be taken to authorise the
access. -/
theorem emits_doCheriChecks_bind {isLoad : Bool} {idx : BitVec 64} {auth : Capability}
    {addr : BitVec 64} {n : ℕ} {f : Unit → HartM δ α}
    (hf : Authorises isLoad auth addr n → Emits φ (f ())) :
    Emits φ (doCheriChecks isLoad idx auth addr n >>= f) := by
  intro s hs a s' hx
  obtain ⟨_, s1, hc, hf'⟩ := CheriM.run'_bind_eq_ok.mp hx
  obtain ⟨⟨ha, -⟩, rfl⟩ := doCheriChecks_eq_ok.mp hc
  exact hf ha s1 hs a s' hf'

theorem emits_doCheriStoreChecks_bind {idx : BitVec 64} {auth : Capability} {addr : BitVec 64} {n : ℕ}
    {cs2 : Capability} {f : Unit → HartM δ α} (hf : Authorises false auth addr n → Emits φ (f ())) :
    Emits φ (doCheriStoreChecks idx auth addr n cs2 >>= f) := by
  rw [doCheriStoreChecks, bind_assoc]
  refine emits_doCheriChecks_bind fun ha => ?_
  rw [bind_assoc]
  exact emits_check.bind fun _ => emits_check.bind fun _ => hf ha

theorem emits_amoChecks_bind {isLoad : Bool} {idx : BitVec 64} {auth : Capability} {addr : BitVec 64}
    {n : ℕ} {f : Unit → HartM δ α} (hf : Authorises isLoad auth addr n → Emits φ (f ())) :
    Emits φ (amoChecks isLoad idx auth addr n >>= f) := by
  intro s hs a s' hx
  obtain ⟨_, s1, hc, hf'⟩ := CheriM.run'_bind_eq_ok.mp hx
  cases isLoad with
  | false =>
    simp only [amoChecks, check_bind_eq_ok, check_eq_ok, Bool.false_eq_true, if_false] at hc
    obtain ⟨h1, h2, h3, h4, rfl⟩ := hc
    exact hf ⟨h1, by simpa using h2, fun hl => (nomatch hl), fun _ => h3, h4⟩ s1 hs a s' hf'
  | true =>
    simp only [amoChecks, check_bind_eq_ok, check_eq_ok, if_true] at hc
    obtain ⟨h1, h2, h3, h4, rfl⟩ := hc
    exact hf ⟨h1, by simpa using h2, fun _ => h3, fun hl => (nomatch hl), h4⟩ s1 hs a s' hf'

theorem emits_loadData {addr : BitVec 64} {n : Width} (h : φ ⟨true, addr, n.bytes⟩) :
    Emits φ (loadData p addr n) :=
  (emits_v2p addr .load false).bind fun _ => (emits_raw _).bind fun _ =>
    (emits_record h).bind fun _ => Log.Appends.pure _

theorem emits_load {addr : BitVec 64} {op : LoadOp} (h : φ ⟨true, addr, op.width.bytes⟩) :
    Emits φ (load p op addr) :=
  (emits_loadData h).bind fun _ => Log.Appends.pure _

theorem emits_storeData {addr value : BitVec 64} {n : Width} (h : φ ⟨false, addr, n.bytes⟩) :
    Emits φ (storeData p addr n value) :=
  (emits_v2p addr .store false).bind fun _ => (emits_raw _).bind fun _ => emits_record h

theorem emits_loadTagged {addr : BitVec 64} (h : φ ⟨true, addr, clen⟩) :
    Emits φ (loadTagged p addr) :=
  (emits_v2p addr .load false).bind fun _ => (emits_raw _).bind fun _ =>
    (emits_record h).bind fun _ =>
      Log.Appends.bind (emits_check.bind fun _ => Log.Appends.pure _) fun _ => Log.Appends.pure _

theorem emits_storeTagged {addr : BitVec 64} {value : Capability} (h : φ ⟨false, addr, clen⟩) :
    Emits φ (storeTagged p addr value) :=
  (emits_v2p addr .store value.tag).bind fun _ => (emits_raw _).bind fun _ => emits_record h

theorem emits_storeConditional {addr : BitVec 64} {store : HartM δ Unit} (h : Emits φ store) :
    Emits φ (storeConditional p addr store) := by
  have hlocked : Emits φ (isLocked p) := emits_of_eq fun _ => rfl
  have haddr : Emits φ (getLrAddr (δ := δ)) := emits_of_eq fun _ => rfl
  have hunlock : Emits φ (atomicUnlock p) := emits_of_eq fun _ => rfl
  refine hlocked.bind fun locked => .ite (fun _ => ?_) fun _ => .pure _
  refine haddr.bind fun a => .ite (fun _ => ?_) fun _ => ?_
  · exact h.bind fun _ => .pure _
  · exact hunlock.bind fun _ => .pure _

theorem emits_lock : Emits φ (lock p) := emits_of_eq fun _ => rfl

theorem emits_setLrAddr {addr : BitVec 64} : Emits φ (setLrAddr (δ := δ) addr) :=
  emits_of_eq fun _ => rfl

/-- The four reads of `load_tags` lie in the 64 bytes from the address on. -/
theorem emits_loadTags {addr : BitVec 64}
    (h : ∀ i < 4, φ ⟨true, addr + BitVec.ofNat 64 (i * 16), clen⟩) : Emits φ (loadTags p addr) := by
  have hone : ∀ pa i, i < 4 → Emits φ (loadTagAt p addr pa i) := fun pa i hi =>
    (emits_raw _).bind fun _ => (emits_record (h i hi)).bind fun _ => .pure _
  exact (emits_v2p addr .load false).bind fun r => (hone r.1 0 (by decide)).bind fun _ =>
    (hone r.1 1 (by decide)).bind fun _ => (hone r.1 2 (by decide)).bind fun _ =>
      (hone r.1 3 (by decide)).bind fun _ => .pure _

theorem emits_lscacheLoad {addr : BitVec 64} {op : LoadOp} (h : φ ⟨true, addr, op.width.bytes⟩) :
    Emits φ (lscacheLoad p op addr) := by
  have hadd : ∀ bits, Emits φ (tryAddToCache (δ := δ) addr bits) :=
    fun bits => emits_of_eq fun _ => rfl
  intro s hs a s' hx
  replace hx : (if !s.useLscache || s.world.busLock.locked then (load p op addr).run' s
    else if s.lscache.tryGetFromCacheLoad addr = 0 then _ else _) = _ := hx
  split_ifs at hx
  · exact emits_load h s hs a s' hx
  · exact ((emits_load h).bind fun _ => (hadd _).bind fun _ => .pure _) s hs a s' hx
  · exact ((emits_record h).bind fun _ => .pure _) s hs a s' hx

theorem emits_lscacheStore {addr value : BitVec 64} {n : Width} (h : φ ⟨false, addr, n.bytes⟩) :
    Emits φ (lscacheStore p n addr value) := by
  have hadd : ∀ bits, Emits φ (tryAddToCache (δ := δ) addr bits) :=
    fun bits => emits_of_eq fun _ => rfl
  have hhost : ∀ haddr, Emits φ (storeHost p haddr n value) := fun haddr => emits_of_eq fun _ => rfl
  intro s hs a s' hx
  replace hx : (if !s.useLscache || s.world.busLock.locked then (storeData p addr n value).run' s
    else if s.lscache.tryGetFromCacheStore addr = 0 then _ else _) = _ := hx
  split_ifs at hx
  · exact emits_storeData h s hs a s' hx
  · exact ((emits_storeData h).bind fun _ => hadd _) s hs a s' hx
  · exact ((hhost _).bind fun _ => emits_record h) s hs a s' hx

/-! ### Accesses through a capability -/

section ViaCap

variable {idx : BitVec 64} {auth rs2 : Capability} {addr value : BitVec 64} {op : LoadOp} {n : Width}

theorem Authorises.covers_self {isLoad : Bool} {n : ℕ} (h : Authorises isLoad auth addr n)
    (hn : n < 2 ^ 64) : auth.Covers ⟨isLoad, addr, n⟩ := h.covers hn le_rfl le_rfl

theorem emits_handleLoadCapViaCap : Emits auth.Covers (handleLoadCapViaCap p idx auth addr) :=
  emits_doCheriChecks_bind fun ha => emits_loadTagged (ha.covers_self (by decide))

theorem emits_handleLoadDataViaCap : Emits auth.Covers (handleLoadDataViaCap p idx auth addr op) :=
  emits_doCheriChecks_bind fun ha => emits_load (ha.covers_self op.width.bytes_lt)

theorem emits_handleStoreDataViaCap :
    Emits auth.Covers (handleStoreDataViaCap p rs2 idx auth addr n) :=
  emits_doCheriChecks_bind fun ha => emits_storeData (ha.covers_self n.bytes_lt)

theorem emits_handleStoreCapViaCap : Emits auth.Covers (handleStoreCapViaCap p rs2 idx auth addr) :=
  emits_doCheriStoreChecks_bind fun ha => emits_storeTagged (ha.covers_self (by decide))

theorem emits_atomicLoadReservedDataViaCap :
    Emits auth.Covers (atomicLoadReservedDataViaCap p idx auth addr op) :=
  emits_doCheriChecks_bind fun ha => emits_lock.bind fun _ => emits_setLrAddr.bind fun _ =>
    emits_load (ha.covers_self op.width.bytes_lt)

theorem emits_atomicLoadReservedCapViaCap :
    Emits auth.Covers (atomicLoadReservedCapViaCap p idx auth addr) :=
  emits_doCheriChecks_bind fun ha => emits_lock.bind fun _ => emits_setLrAddr.bind fun _ =>
    emits_loadTagged (ha.covers_self (by decide))

theorem emits_atomicStoreConditionalDataViaCap :
    Emits auth.Covers (atomicStoreConditionalDataViaCap p rs2 idx auth addr n) :=
  emits_doCheriChecks_bind fun ha =>
    emits_storeConditional (emits_storeData (ha.covers_self n.bytes_lt))

theorem emits_atomicStoreConditionalCapViaCap :
    Emits auth.Covers (atomicStoreConditionalCapViaCap p rs2 idx auth addr) :=
  emits_doCheriStoreChecks_bind fun ha =>
    emits_storeConditional (emits_storeTagged (ha.covers_self (by decide)))

theorem emits_atomicLoadViaCap : Emits auth.Covers (atomicLoadViaCap p op addr auth idx) :=
  emits_amoChecks_bind fun ha => emits_lock.bind fun _ =>
    emits_load (ha.covers_self op.width.bytes_lt)

theorem emits_atomicStoreViaCap : Emits auth.Covers (atomicStoreViaCap p n addr value auth idx) :=
  emits_amoChecks_bind fun ha => emits_storeData (ha.covers_self n.bytes_lt)

end ViaCap

end Hart

/-! ### Accesses of instructions -/

namespace Iss

variable {δ : Type} {p : Platform δ} {o : Operands} {I : Iss δ → Prop} {φ : Access → Prop} {α : Type}

/-- Every access that a computation makes satisfies `φ`, and the invariant is kept. -/
abbrev Emits (I : Iss δ → Prop) (φ : Access → Prop) (x : IssM δ α) : Prop :=
  Log.Appends (fun s => s.hart.accesses) I φ x

/-- The accesses of a computation that has succeeded. -/
theorem accesses_of {x : IssM δ α} {s s' : Iss δ} {a : α} (h : x.run' s = (.ok a, s'))
    (hx : Emits I φ x) (hs : I s) :
    ∃ new, s'.hart.accesses = s.hart.accesses ++ new ∧ ∀ e ∈ new, φ e :=
  (hx s hs a s' h).2

theorem emits_mem_of {x : HartM δ α} (hx : Hart.Emits φ x)
    (hI : ∀ s h, I s → I { s with hart := h }) : Emits I φ (mem x) := by
  intro s hs a s' h
  obtain ⟨h', hrun, rfl⟩ := mem_eq_ok.mp h
  exact ⟨hI s h' hs, (hx s.hart trivial a h' hrun).2⟩

theorem emits_modify_of {f : Iss δ → Iss δ} (hf : ∀ s, (f s).hart = s.hart)
    (hI : ∀ s, I s → I (f s)) : Emits I φ (modify f) := by
  refine Log.Appends.of_log_eq fun s hs a s' h => ?_
  obtain rfl := modify_eq_ok.mp h
  exact ⟨hI s hs, by rw [hf]⟩

/-- The same for a computation of the whole instruction set simulator, where no invariant is carried along. -/
theorem emits_mem {x : HartM δ α} (hx : Hart.Emits φ x) : Emits (fun _ => True) φ (mem x) :=
  emits_mem_of hx fun _ _ _ => trivial

theorem emits_modify {f : Iss δ → Iss δ} (hf : ∀ s, (f s).hart = s.hart) :
    Emits (fun _ => True) φ (modify f) :=
  emits_modify_of hf fun _ _ => trivial

theorem emits_get_bind {f : Iss δ → IssM δ α} (hf : ∀ s, I s → Emits I φ (f s)) :
    Emits I φ (get >>= f) :=
  fun s hs a s' h => hf s hs s hs a s' ((get_bind_run' f).symm.trans h)

theorem emits_check {ok : Bool} {t : SimulationTrap} : Emits I φ (check ok t) := by
  cases ok with
  | false => exact Log.Appends.of_log_eq fun _ _ _ _ h => nomatch h
  | true => exact Log.Appends.pure ()

theorem emits_check_bind {ok : Bool} {t : SimulationTrap} {f : Unit → IssM δ α}
    (hf : ok = true → Emits I φ (f ())) : Emits I φ (check ok t >>= f) := by
  intro s hs a s' h
  obtain ⟨hok, hrun⟩ := check_bind_eq_ok.mp h
  exact hf hok s hs a s' hrun

theorem emits_amoTrap {x : HartM δ α} (hx : Hart.Emits φ x) : Hart.Emits φ (amoTrap x) :=
  fun h hh a h' hrun => hx h hh a h' (amoTrap_eq_ok.mp hrun)

theorem emits_setReg {i : Fin 32} {c : Capability} : Emits (fun _ => True) φ (setReg (δ := δ) i c) :=
  emits_modify fun _ => rfl

theorem emits_afterLr : Emits (fun _ => True) φ (afterLr (δ := δ)) :=
  emits_modify fun s => by split_ifs <;> rfl

theorem emits_afterSc : Emits (fun _ => True) φ (afterSc (δ := δ)) := emits_modify fun _ => rfl

theorem emits_lrInstr {x : HartM δ (BitVec 64)} (hx : Hart.Emits φ x) :
    Emits (fun _ => True) φ (lrInstr o x) :=
  (emits_mem hx).bind fun _ => emits_setReg.bind fun _ =>
    emits_afterLr.bind fun _ => emits_setReg

theorem emits_lrCInstr {x : HartM δ Capability} (hx : Hart.Emits φ x) :
    Emits (fun _ => True) φ (lrCInstr o x) :=
  (emits_mem hx).bind fun _ => emits_setReg.bind fun _ =>
    emits_afterLr.bind fun _ => emits_setReg

theorem emits_scInstr {dst : Fin 32} {x : HartM δ Bool} (hx : Hart.Emits φ x) :
    Emits (fun _ => True) φ (scInstr dst x) :=
  (emits_mem hx).bind fun _ => emits_setReg.bind fun _ =>
    emits_afterSc.bind fun _ => emits_setReg

/-- A load and a store, both through the same capability. -/
theorem emits_executeAmo (s : Iss δ) (n : Width) (f : AmoOp) {s' : Iss δ}
    (h : (executeAmo p o n f).run' s = (.ok (), s')) :
    ∃ new, s'.hart.accesses = s.hart.accesses ++ new ∧
      ∀ e ∈ new, (s.getCheriModeCapAddr o.rs1 0).2.1.Covers e := by
  rw [executeAmo, get_bind_run'] at h
  refine accesses_of h (Log.Appends.bind (emits_mem ?_) fun _ => Log.Appends.bind (emits_mem ?_)
    fun data => Log.Appends.bind (emits_mem ?_) fun _ => ?_) trivial
  · exact Hart.emits_check
  · exact emits_amoTrap Hart.emits_atomicLoadViaCap
  · exact Hart.emits_atomicStoreViaCap
  · exact .ite (fun _ => emits_setReg) fun _ => .pure ()

/-- The checks of `AMOSWAP_C` cover its load and its store. -/
theorem emits_amoswapC (s : Iss δ) {s' : Iss δ} (h : (amoswapC p o).run' s = (.ok (), s')) :
    ∃ new, s'.hart.accesses = s.hart.accesses ++ new ∧
      ∀ e ∈ new, (s.getCheriModeCapAddr o.rs1 0).2.1.Covers e := by
  rw [amoswapC, get_bind_run'] at h
  refine accesses_of h (emits_check_bind fun h1 => emits_check_bind fun h2 => emits_check_bind fun h3 =>
    emits_check_bind fun h4 => emits_check_bind fun _ => emits_check_bind fun _ =>
    emits_check_bind fun h5 => Log.Appends.bind (emits_mem Hart.emits_check) fun _ =>
    Log.Appends.bind (emits_mem ?_) fun data => Log.Appends.bind (emits_mem ?_) fun _ =>
    emits_setReg) trivial
  all_goals
    have ha : ∀ isLoad, Hart.Authorises isLoad (s.getCheriModeCapAddr o.rs1 0).2.1
        (s.getCheriModeCapAddr o.rs1 0).2.2 clen :=
      fun _ => ⟨h1, by simpa using h2, fun _ => h3, fun _ => h4, h5⟩
  · exact emits_amoTrap (Hart.emits_lock.bind fun _ =>
      Hart.emits_loadTagged ((ha true).covers_self (by decide)))
  · exact Hart.emits_storeTagged ((ha false).covers_self (by decide))

theorem emits_loadTagsInstr (s : Iss δ) {s' : Iss δ}
    (h : (loadTagsInstr p o).run' s = (.ok (), s')) :
    ∃ new, s'.hart.accesses = s.hart.accesses ++ new ∧ ∀ e ∈ new, (s.regs o.rs1).Covers e := by
  rw [loadTagsInstr, get_bind_run'] at h
  refine accesses_of h (emits_check_bind fun h1 => emits_check_bind fun h2 => emits_check_bind fun h3 =>
    emits_check_bind fun _ => emits_check_bind fun h4 => emits_check_bind fun h5 =>
    Log.Appends.bind (emits_mem (Hart.emits_loadTags fun i hi => ?_)) fun _ => emits_setReg) trivial
  have ha : Hart.Authorises true (s.regs o.rs1) (s.regs o.rs1).address 64 :=
    ⟨h1, by simpa using h2, fun _ => h3, fun hl => (nomatch hl), h4⟩
  -- the address is aligned to 64 bytes, so the additions do not wrap around
  have halign : (s.regs o.rs1).address.toNat % 64 = 0 := by simpa using h5
  have hlt := (s.regs o.rs1).address.isLt
  have hsum : ((s.regs o.rs1).address + BitVec.ofNat 64 (i * 16)).toNat =
      (s.regs o.rs1).address.toNat + i * 16 := by
    rw [BitVec.toNat_add, BitVec.toNat_ofNat]
    omega
  have hclen : clen = 16 := rfl
  exact ha.covers (by decide) (by omega) (by omega)

end Iss

/-! ### The capability that ought to authorise -/

/-- The capability that ought to authorise the accesses of an instruction. -/
def MemInstr.authority {δ : Type} (o : Operands) (s : Iss δ) : MemInstr → Capability
  | .loadDdc _ | .loadCDdc | .storeDdc _ | .storeCDdc | .loadReservedDdc _ | .loadReservedCDdc
  | .storeConditionalDdc _ | .storeConditionalCDdc => s.ddc
  | .loadTags | .loadCap _ | .loadCCap | .storeCap _ | .storeCCap | .loadReservedCap _
  | .loadReservedCCap | .storeConditionalCap _ | .storeConditionalCCap => s.regs o.rs1
  | _ => if s.pcc.flagCapMode then s.regs o.rs1 else s.ddc

/-- The instructions that check no capability stay within the one that ought to authorise them.  For a
vector instruction with an index, this is about every content of the vector registers. -/
def MemInstr.Covered {δ : Type} (o : Operands) (s : Iss δ) (i : MemInstr) : Prop :=
  match i with
  | .fLoad op => s.fs ≠ 0 → ((s.regs o.rs1).address + o.imm).toNat % op.width.bytes = 0 →
      (i.authority o s).Covers ⟨true, (s.regs o.rs1).address + o.imm, op.width.bytes⟩
  | .fStore n => s.fs ≠ 0 → ((s.regs o.rs1).address + o.imm).toNat % n.bytes = 0 →
      (i.authority o s).Covers ⟨false, (s.regs o.rs1).address + o.imm, n.bytes⟩
  | .vLoadStore isLoad numBits type => s.vs ≠ 0 → type = .whole ∨ s.vec.vill = false →
      ∀ j < s.vec.evl type numBits, ∀ field ≤ o.nf, ∀ (vRegs : Bytes) (n : Width),
        elemWidth (s.vec.switchElem type numBits) = some n →
          (i.authority o s).Covers ⟨isLoad, (s.regs o.rs1).address +
            { s.vec with vRegs := vRegs }.getShiftWidth o (s.regs o.rs2).address type numBits j field,
            n.bytes⟩
  | _ => True

/-- If an instruction completes, the capability that ought to authorise it authorises every access it
has made. -/
def MemInstr.Mediated {δ : Type} (p : Platform δ) (o : Operands) (s : Iss δ) (i : MemInstr) : Prop :=
  ∀ s', (Iss.exec p o i).run' s = (.ok (), s') → ∃ new,
    s'.hart.accesses = s.hart.accesses ++ new ∧ ∀ a ∈ new, (i.authority o s).Covers a

namespace Iss

variable {δ : Type} {p : Platform δ} {o : Operands} {s : Iss δ}

/-- In capability mode the base register authorises, else `ddc`. -/
theorem ite_eq_getCheriModeCapAddr (rs1 : Fin 32) (offset : BitVec 64) :
    (if s.pcc.flagCapMode then s.regs rs1 else s.ddc) = (s.getCheriModeCapAddr rs1 offset).2.1 := by
  rw [getCheriModeCapAddr]
  split_ifs <;> rfl

/-- What a vector instruction leaves: the integer registers, the width of elements and the length. -/
def SameBase (s s' : Iss δ) : Prop :=
  s'.regs = s.regs ∧ s'.vec.vsew = s.vec.vsew ∧ s'.vec.vl = s.vec.vl

theorem getShiftWidth_congr {v v' : VecState} (h : v'.vsew = v.vsew) (stride : BitVec 64)
    (type : LoadStoreType) (numBits j field : ℕ) :
    v'.getShiftWidth o stride type numBits j field =
      { v with vRegs := v'.vRegs }.getShiftWidth o stride type numBits j field := by
  cases type with
  | indexed =>
    simp only [VecState.getShiftWidth, VecState.getIntVSew, h]
    rfl
  | standard => rfl
  | standardReg => rfl
  | masked => rfl
  | fofl => rfl
  | whole => rfl

theorem emits_vec_bind {f : VecState → IssM δ α} {I : Iss δ → Prop} {φ : Access → Prop}
    (hf : ∀ s, I s → Emits I φ (f s.vec)) : Emits I φ ((vecIss p).vec >>= f) :=
  emits_get_bind (f := fun s => f s.vec) hf

/-- The unit changes no integer register, and a change that keeps `vsew` and `vl` keeps the base of the
access. -/
theorem emits_modifyVec {f : VecState → VecState} {φ : Access → Prop}
    (hf : ∀ v, (f v).vsew = v.vsew ∧ (f v).vl = v.vl) :
    Emits (SameBase s) φ ((vecIss p).modifyVec f) := by
  refine emits_modify_of ?_ ?_
  · exact fun _ => rfl
  · exact fun s1 hs1 => ⟨hs1.1, (hf s1.vec).1.trans hs1.2.1, (hf s1.vec).2.trans hs1.2.2⟩

/-- One field of one element: the one access of the vector unit, at the address that its type and indices
give. -/
theorem emits_vField {isLoad : Bool} {type : LoadStoreType} {numBits j field : ℕ}
    {φ : Access → Prop} (hφ : ∀ (vRegs : Bytes) (n : Width),
      elemWidth (s.vec.switchElem type numBits) = some n → φ ⟨isLoad, (s.regs o.rs1).address +
        { s.vec with vRegs := vRegs }.getShiftWidth o (s.regs o.rs2).address type numBits j field,
        n.bytes⟩) :
    Emits (SameBase s) φ ((vecIss p).vField o isLoad type numBits j field) := by
  rw [vField_eq]
  refine emits_get_bind fun s1 hs1 => ?_
  have hswitch : s1.vec.switchElem type numBits = s.vec.switchElem type numBits := by
    rw [VecState.switchElem, VecState.switchElem, VecState.getIntVSew, VecState.getIntVSew, hs1.2.1]
  have hφ1 : ∀ n, elemWidth (s.vec.switchElem type numBits) = some n →
      φ ⟨isLoad, (s1.regs o.rs1).address +
        s1.vec.getShiftWidth o (s1.regs o.rs2).address type numBits j field, n.bytes⟩ := by
    intro n hn
    rw [hs1.1, getShiftWidth_congr hs1.2.1]
    exact hφ s1.vec.vRegs n hn
  dsimp only
  rw [hswitch]
  cases hw : elemWidth (s.vec.switchElem type numBits) with
  | none => exact Log.Appends.pure _
  | some n =>
    cases isLoad with
    | false =>
      refine (emits_mem_of (Hart.emits_storeData (hφ1 n hw)) ?_).bind fun _ => .pure _
      exact fun _ _ h => h
    | true =>
      refine (emits_mem_of (Hart.emits_load ?_) ?_).bind fun _ =>
        (emits_modify_of ?_ ?_).bind fun _ => .pure _
      · rw [LoadOp.width_signed]
        exact hφ1 n hw
      · exact fun _ _ h => h
      · exact fun _ => rfl
      · exact fun _ h => h

/-- The inner loop; the induction is on the fields that are left. -/
theorem emits_vFields {isLoad : Bool} {type : LoadStoreType} {numBits j : ℕ} {φ : Access → Prop}
    (fields : List ℕ)
    (hφ : ∀ field ∈ fields, Emits (SameBase s) φ ((vecIss p).vField o isLoad type numBits j field)) :
    Emits (SameBase s) φ ((vecIss p).vFields o isLoad type numBits j fields) := by
  induction fields with
  | nil => exact Log.Appends.pure _
  | cons field fields ih =>
    refine (hφ field List.mem_cons_self).bind fun breakLoop => .ite (fun _ => .pure _) fun _ => ?_
    exact ih fun f hf => hφ f (List.mem_cons_of_mem _ hf)

/-- The outer loop, over the elements.  Each of them may have been reached only after all before it. -/
theorem emits_vElements {isLoad : Bool} {type : LoadStoreType} {numBits evl : ℕ} {φ : Access → Prop}
    (js : List ℕ)
    (hφ : ∀ j ∈ js, ∀ field ≤ o.nf,
      Emits (SameBase s) φ ((vecIss p).vField o isLoad type numBits j field)) :
    Emits (SameBase s) φ ((vecIss p).vElements o isLoad type numBits evl js) := by
  induction js with
  | nil => exact Log.Appends.pure _
  | cons j js ih =>
    have hrest := ih fun k hk => hφ k (List.mem_cons_of_mem _ hk)
    refine emits_vec_bind fun s1 _ => .ite (fun _ => hrest) fun _ => ?_
    refine Log.Appends.bind (emits_modifyVec ?_) fun _ => ?_
    · exact fun _ => ⟨rfl, rfl⟩
    refine (emits_vFields _ fun field hfield => ?_).bind fun breakLoop =>
      .ite (fun _ => .pure _) fun _ => hrest
    exact hφ j List.mem_cons_self field (Nat.lt_succ_iff.mp (List.mem_range.mp hfield))

/-- The accesses of `vLoadStore` are for elements below the effective length. -/
theorem emits_vLoadStore {isLoad : Bool} {type : LoadStoreType} {numBits : ℕ} {φ : Access → Prop}
    (hφ : ∀ j < s.vec.evl type numBits, ∀ field ≤ o.nf, ∀ (vRegs : Bytes) (n : Width),
      elemWidth (s.vec.switchElem type numBits) = some n → φ ⟨isLoad, (s.regs o.rs1).address +
        { s.vec with vRegs := vRegs }.getShiftWidth o (s.regs o.rs2).address type numBits j field,
        n.bytes⟩) :
    Emits (SameBase s) φ ((vecIss p).vLoadStore o isLoad numBits type) := by
  refine emits_vec_bind fun s1 hs1 => emits_check.bind fun _ => emits_check.bind fun _ => ?_
  have hevl : s1.vec.evl type numBits = s.vec.evl type numBits := by
    simp only [VecState.evl, hs1.2.2]
  rw [hevl]
  exact emits_vElements _ fun j hj field hfield => emits_vField (hφ j (List.mem_range.mp hj) field hfield)

theorem check_eq_ok {ok : Bool} {t : SimulationTrap} {u : Unit} {s' : Iss δ} :
    (check ok t).run' s = (.ok u, s') ↔ ok = true ∧ s' = s := by
  cases ok with
  | false => simp [check]
  | true => simp [check, eq_comm]

/-- `prepInstr` passes when the unit is on and, where that is asked for, `vtype` is legal. -/
theorem prepInstr_eq_ok {requireVill : Bool} {s' : Iss δ} :
    ((vecIss p).prepInstr o requireVill).run' s = (.ok (), s') ↔
      (s.vs != 0) = true ∧ (!requireVill || !s.vec.vill) = true ∧ s' = { s with vs := 3 } := by
  have hprep : (vecIss p).prepInstr o requireVill =
      get >>= fun s => check (s.vs != 0) ⟨.illegalInstr, o.data.setWidth 64⟩ >>= fun _ =>
        modify (fun s => { s with vs := 3 }) >>= fun _ =>
          get >>= fun s => check (!requireVill || !s.vec.vill) ⟨.illegalInstr, o.data.setWidth 64⟩ := rfl
  rw [hprep, get_bind_run', check_bind_eq_ok, CheriM.run'_bind_eq_ok]
  constructor
  · rintro ⟨hvs, _, s1, hmodify, hvill⟩
    obtain rfl := modify_eq_ok.mp hmodify
    rw [get_bind_run'] at hvill
    exact ⟨hvs, check_eq_ok.mp hvill⟩
  · rintro ⟨hvs, hvill⟩
    exact ⟨hvs, (), _, modify_eq_ok.mpr rfl, (get_bind_run' _).trans (check_eq_ok.mpr hvill)⟩

theorem emits_vLoadStoreInstr {isLoad : Bool} {numBits : ℕ} {type : LoadStoreType}
    (hc : (MemInstr.vLoadStore isLoad numBits type).Covered o s) {s' : Iss δ}
    (h : ((vecIss p).vLoadStoreInstr o isLoad numBits type).run' s = (.ok (), s')) :
    ∃ new, s'.hart.accesses = s.hart.accesses ++ new ∧
      ∀ e ∈ new, ((MemInstr.vLoadStore isLoad numBits type).authority o s).Covers e := by
  obtain ⟨_, s1, hprep, h1⟩ := CheriM.run'_bind_eq_ok.mp h
  obtain ⟨hvs, hvill, rfl⟩ := prepInstr_eq_ok.mp hprep
  -- the assertion on `vill` has passed, or was not made
  have hlegal : type = .whole ∨ s.vec.vill = false := by
    rcases Bool.or_eq_true_iff.mp hvill with hwhole | hlegal
    · exact .inl (by simpa using hwhole)
    · exact .inr (by simpa using hlegal)
  have hemits := emits_vLoadStore (p := p) (hc (by simpa using hvs) hlegal)
  show ∃ new, s'.hart.accesses = ({ s with vs := 3 } : Iss δ).hart.accesses ++ new ∧ _
  exact accesses_of h1 (Log.Appends.bind hemits fun _ => emits_modifyVec fun _ => ⟨rfl, rfl⟩) ⟨rfl, rfl, rfl⟩

theorem emits_fLoadInstr {op : LoadOp} (hc : (MemInstr.fLoad op).Covered o s) {s' : Iss δ}
    (h : (fLoadInstr p o op).run' s = (.ok (), s')) :
    ∃ new, s'.hart.accesses = s.hart.accesses ++ new ∧
      ∀ e ∈ new, ((MemInstr.fLoad op).authority o s).Covers e := by
  rw [fLoadInstr, fpPrepareInstr, bind_assoc, get_bind_run'] at h
  obtain ⟨hfs, h1⟩ := check_bind_eq_ok.mp h
  rw [get_bind_run'] at h1
  obtain ⟨_, h', halign, h2⟩ := mem_bind_eq_ok.mp h1
  obtain ⟨ha, rfl⟩ := Hart.trapCheckAddrAlignment_eq_ok.mp halign
  have hcovers := hc (by simpa using hfs) ha
  refine accesses_of h2 (Log.Appends.bind (emits_mem (Hart.emits_lscacheLoad hcovers)) fun v =>
    Log.Appends.bind (emits_modify ?_) fun _ => emits_modify ?_) trivial
  · exact fun _ => rfl
  · exact fun _ => rfl

theorem emits_fStoreInstr {n : Width} (hc : (MemInstr.fStore n).Covered o s) {s' : Iss δ}
    (h : (fStoreInstr p o n).run' s = (.ok (), s')) :
    ∃ new, s'.hart.accesses = s.hart.accesses ++ new ∧
      ∀ e ∈ new, ((MemInstr.fStore n).authority o s).Covers e := by
  rw [fStoreInstr, fpPrepareInstr, bind_assoc, get_bind_run'] at h
  obtain ⟨hfs, h1⟩ := check_bind_eq_ok.mp h
  rw [get_bind_run'] at h1
  obtain ⟨_, h', halign, h2⟩ := mem_bind_eq_ok.mp h1
  obtain ⟨ha, rfl⟩ := Hart.trapCheckAddrAlignment_eq_ok.mp halign
  have hcovers := hc (by simpa using hfs) ha
  refine accesses_of h2 (Log.Appends.bind (emits_mem (Hart.emits_lscacheStore hcovers)) fun _ =>
    emits_modify ?_) trivial
  exact fun _ => rfl

/-- A load of data that is written to the register. -/
theorem emits_loadTo {x : HartM δ (BitVec 64)} {φ : Access → Prop} (hx : Hart.Emits φ x) :
    Emits (fun _ => True) φ (mem x >>= fun v => setReg o.rd (Capability.ofInt v)) :=
  (emits_mem hx).bind fun _ => emits_setReg

end Iss

/-! ### By cases of the instruction -/

variable {δ : Type} {p : Platform δ} {o : Operands} {s : Iss δ}

/-- The accesses of one instruction, by cases of the instruction. -/
theorem MemInstr.mediated_of_covered {i : MemInstr} (hc : i.Covered o s) : i.Mediated p o s := by
  intro s' h
  have hmode := Iss.ite_eq_getCheriModeCapAddr (s := s) o.rs1
  cases i with
  -- in integer mode `ddc` is the authority, in capability mode the address register (`hmode`)
  | load op =>
    rw [Iss.exec, Iss.get_bind_run'] at h
    simp only [authority, hmode o.imm]
    exact Iss.accesses_of h ((Iss.emits_mem Hart.emits_handleLoadDataViaCap).bind fun _ =>
      Iss.emits_setReg.bind fun _ => Iss.emits_setReg) trivial
  | store n =>
    rw [Iss.exec, Iss.get_bind_run'] at h
    simp only [authority, hmode o.imm]
    exact Iss.accesses_of h (Iss.emits_mem Hart.emits_handleStoreDataViaCap) trivial
  | loadC =>
    rw [Iss.exec, Iss.get_bind_run'] at h
    simp only [authority, hmode o.imm]
    exact Iss.accesses_of h ((Iss.emits_mem Hart.emits_handleLoadCapViaCap).bind fun _ =>
      Iss.emits_setReg) trivial
  | storeC =>
    rw [Iss.exec, Iss.get_bind_run'] at h
    simp only [authority, hmode o.imm]
    exact Iss.accesses_of h (Iss.emits_mem Hart.emits_handleStoreCapViaCap) trivial
  -- the rest of the plain accesses name their authority: `ddc` or the address register
  | loadTags => exact Iss.emits_loadTagsInstr s h
  | loadDdc op =>
    rw [Iss.exec, Iss.get_bind_run'] at h
    exact Iss.accesses_of h (Iss.emits_loadTo Hart.emits_handleLoadDataViaCap) trivial
  | loadCDdc =>
    rw [Iss.exec, Iss.get_bind_run'] at h
    exact Iss.accesses_of h ((Iss.emits_mem Hart.emits_handleLoadCapViaCap).bind fun _ =>
      Iss.emits_setReg) trivial
  | loadCap op =>
    rw [Iss.exec, Iss.get_bind_run'] at h
    exact Iss.accesses_of h (Iss.emits_loadTo Hart.emits_handleLoadDataViaCap) trivial
  | loadCCap =>
    rw [Iss.exec, Iss.get_bind_run'] at h
    exact Iss.accesses_of h ((Iss.emits_mem Hart.emits_handleLoadCapViaCap).bind fun _ =>
      Iss.emits_setReg) trivial
  | storeDdc n =>
    rw [Iss.exec, Iss.get_bind_run'] at h
    exact Iss.accesses_of h (Iss.emits_mem Hart.emits_handleStoreDataViaCap) trivial
  | storeCDdc =>
    rw [Iss.exec, Iss.get_bind_run'] at h
    exact Iss.accesses_of h (Iss.emits_mem Hart.emits_handleStoreCapViaCap) trivial
  | storeCap n =>
    rw [Iss.exec, Iss.get_bind_run'] at h
    exact Iss.accesses_of h (Iss.emits_mem Hart.emits_handleStoreDataViaCap) trivial
  | storeCCap =>
    rw [Iss.exec, Iss.get_bind_run'] at h
    exact Iss.accesses_of h (Iss.emits_mem Hart.emits_handleStoreCapViaCap) trivial
  -- the LR of a word or doubleword checks the alignment first, which accesses nothing
  | loadReserved n =>
    rw [Iss.exec, Iss.get_bind_run'] at h
    simp only [authority, hmode 0]
    refine Iss.accesses_of (I := fun _ => True) h (Log.Appends.ite (fun _ => ?_) fun _ => ?_) trivial
    · exact (Iss.emits_mem Hart.emits_check).bind fun _ =>
        Iss.emits_lrInstr Hart.emits_atomicLoadReservedDataViaCap
    · exact Iss.emits_lrInstr Hart.emits_atomicLoadReservedDataViaCap
  | loadReservedC =>
    rw [Iss.exec, Iss.get_bind_run'] at h
    simp only [authority, hmode 0]
    exact Iss.accesses_of h (Iss.emits_lrCInstr Hart.emits_atomicLoadReservedCapViaCap) trivial
  | loadReservedDdc n =>
    rw [Iss.exec, Iss.get_bind_run'] at h
    exact Iss.accesses_of h (Iss.emits_lrInstr Hart.emits_atomicLoadReservedDataViaCap) trivial
  | loadReservedCDdc =>
    rw [Iss.exec, Iss.get_bind_run'] at h
    exact Iss.accesses_of h (Iss.emits_lrCInstr Hart.emits_atomicLoadReservedCapViaCap) trivial
  | loadReservedCap n =>
    rw [Iss.exec, Iss.get_bind_run'] at h
    exact Iss.accesses_of h (Iss.emits_lrInstr Hart.emits_atomicLoadReservedDataViaCap) trivial
  | loadReservedCCap =>
    rw [Iss.exec, Iss.get_bind_run'] at h
    exact Iss.accesses_of h (Iss.emits_lrCInstr Hart.emits_atomicLoadReservedCapViaCap) trivial
  -- SC_W and SC_D write the destination before the store; nothing is accessed by that
  | storeConditional n =>
    rw [Iss.exec, Iss.get_bind_run'] at h
    simp only [authority, hmode 0]
    refine Iss.accesses_of (I := fun _ => True) h (Log.Appends.ite (fun _ => ?_) fun _ => ?_) trivial
    · exact (Iss.emits_mem Hart.emits_check).bind fun _ => Iss.emits_setReg.bind fun _ =>
        Iss.emits_get_bind fun _ _ => Iss.emits_scInstr Hart.emits_atomicStoreConditionalDataViaCap
    · exact Iss.emits_get_bind fun _ _ =>
        Iss.emits_scInstr Hart.emits_atomicStoreConditionalDataViaCap
  | storeConditionalC =>
    rw [Iss.exec, Iss.get_bind_run'] at h
    simp only [authority, hmode 0]
    exact Iss.accesses_of h (Iss.emits_scInstr Hart.emits_atomicStoreConditionalCapViaCap) trivial
  | storeConditionalDdc n =>
    rw [Iss.exec, Iss.get_bind_run'] at h
    exact Iss.accesses_of h (Iss.emits_scInstr Hart.emits_atomicStoreConditionalDataViaCap) trivial
  | storeConditionalCDdc =>
    rw [Iss.exec, Iss.get_bind_run'] at h
    exact Iss.accesses_of h (Iss.emits_scInstr Hart.emits_atomicStoreConditionalCapViaCap) trivial
  | storeConditionalCap n =>
    rw [Iss.exec, Iss.get_bind_run'] at h
    exact Iss.accesses_of h (Iss.emits_scInstr Hart.emits_atomicStoreConditionalDataViaCap) trivial
  | storeConditionalCCap =>
    rw [Iss.exec, Iss.get_bind_run'] at h
    exact Iss.accesses_of h (Iss.emits_scInstr Hart.emits_atomicStoreConditionalCapViaCap) trivial
  -- both accesses of an AMO have the same authority
  | amoW f =>
    simp only [authority, hmode 0]
    exact Iss.emits_executeAmo s .word f h
  | amoD f =>
    simp only [authority, hmode 0]
    exact Iss.emits_executeAmo s .double f h
  | amoswapC =>
    simp only [authority, hmode 0]
    exact Iss.emits_amoswapC s h
  -- here `Covered` asks for something, and `hc` is used
  | fLoad op => exact Iss.emits_fLoadInstr hc h
  | fStore n => exact Iss.emits_fStoreInstr hc h
  | vLoadStore isLoad numBits type => exact Iss.emits_vLoadStoreInstr hc h

end Cheri

end RiscvVp
