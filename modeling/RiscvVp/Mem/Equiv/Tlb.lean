import RiscvVp.Mem.Equiv.Walk
import RiscvVp.Lib.Run

/-!
# The translation lookaside buffer against the page walk

The buffer is indexed by mode, access type and page.  Whether an access is allowed depends on `SUM` and
`MXR`, too, and software writes these without a fence.  `Mmu.sameAsWalk_iff` says for every call, in
every run on fixed page tables, that the answer is that of the page walk if and only if the call does
not hit an entry whose leaf needs a bit that is off now.
-/

namespace RiscvVp.Mmu

variable {σ : Type} {mem : MemIf (MemM σ)} {vm : VmInfo} {T : Tables} {P : σ → Prop}

/-! ### Runs between two flushes -/

/-- The state that translation reads and writes. -/
structure State (σ : Type) where
  mem : σ
  csrs : Csrs
  prv : PrivilegeLevel
  tlb : Tlb

/-- What happens between two flushes: calls of `translate_virtual_to_physical_addr`, changes of `prv`,
writes of `mstatus`, and anything that is done to memory. -/
inductive Event (σ : Type)
  | translate (vaddr : BitVec 64) (type : MemoryAccessType)
  | setPrv (prv : PrivilegeLevel)
  | writeStatus (mstatus : Mstatus)
  | touch (f : σ → σ)

/-- One event; the answer is that of the call. -/
def step (mem : MemIf (MemM σ)) (s : State σ) :
    Event σ → Option (Except SimulationTrap (BitVec 64)) × State σ
  | .translate vaddr type =>
    match (translate mem s.csrs s.prv s.tlb vaddr type).run' s.mem with
    | (.ok (paddr, tlb), m) => (some (.ok paddr), { s with mem := m, tlb := tlb })
    | (.error t, m) => (some (.error t), { s with mem := m })
  | .setPrv prv => (none, { s with prv := prv })
  | .writeStatus mstatus => (none, { s with csrs := { s.csrs with mstatus := mstatus } })
  | .touch f => (none, { s with mem := f s.mem })

/-- What the page walk answers to a call: for the current mode, `SUM` and `MXR`. -/
def walkAnswer (mem : MemIf (MemM σ)) (s : State σ) (vaddr : BitVec 64) (type : MemoryAccessType) :
    Except SimulationTrap (BitVec 64) :=
  match translationMode s.csrs s.prv type with
  | none => .ok vaddr
  | some mode => ((walk mem s.csrs vaddr type mode).run' s.mem).1

/-- The answer to a call is that of the page walk. -/
def SameAsWalk (mem : MemIf (MemM σ)) (s : State σ) : Event σ → Prop
  | .translate vaddr type => (step mem s (.translate vaddr type)).1 = some (walkAnswer mem s vaddr type)
  | _ => True

/-- The call finds an entry in the buffer. -/
def hit (s : State σ) (vaddr : BitVec 64) (type : MemoryAccessType) (mode : PrivilegeLevel) : Prop :=
  translationMode s.csrs s.prv type = some mode ∧
    (s.tlb mode type (tlbIdx (vaddr >>> 12))).vpn = vaddr >>> 12

/-- `SUM` or `MXR` is off and a leaf needs it: a page of the user is accessed from supervisor mode, or
an executable page that is not readable is loaded from. -/
def needsStatus (st : Mstatus) (mode : PrivilegeLevel) (type : MemoryAccessType) (pte : Pte) : Prop :=
  (mode = .supervisor ∧ type ≠ .fetch ∧ pte.u = true ∧ st.sum = false) ∨
    (type = .load ∧ pte.r = false ∧ st.mxr = false)

/-- The call finds an entry whose leaf needs `SUM` or `MXR`, which is off. -/
def Stale (T : Tables) (s : State σ) : Event σ → Prop
  | .translate vaddr type => ∃ mode l, hit s vaddr type mode ∧ T.leaf s.csrs.satp vaddr type = .ok l ∧
      needsStatus s.csrs.mstatus mode type l.1
  | _ => False

/-- Entries of the buffer come from walks, with some `SUM` and `MXR`. -/
def Inv (T : Tables) (satp : Satp) (s : State σ) : Prop :=
  s.csrs.satp = satp ∧ ∀ mode type (vaddr : BitVec 64),
    (s.tlb mode type (tlbIdx (vaddr >>> 12))).vpn = vaddr >>> 12 → ∃ sum mxr, T.walk satp vaddr type (mode == .supervisor) sum mxr =
        .ok ((s.tlb mode type (tlbIdx (vaddr >>> 12))).ppn ||| pageOffset vaddr)

/-- `flush_tlb` leaves no entry that is found. -/
theorem inv_flush (T : Tables) {s : State σ} (hs : s.tlb = Tlb.flush) : Inv T s.csrs.satp s := by
  refine ⟨rfl, fun mode type vaddr h => ?_⟩
  rw [hs] at h
  have hlsb := congrArg (fun v => BitVec.getLsbD v 63) h
  simp [Tlb.flush] at hlsb

/-- If a leaf allows an access with some `SUM` and `MXR`, it does now unless it needs what is off. -/
theorem permits_iff {pte : Pte} {type : MemoryAccessType} {mode : PrivilegeLevel} {sum mxr : Bool}
    (h : pte.permits (mode == .supervisor) sum mxr type = true) (st : Mstatus) :
    pte.permits (mode == .supervisor) st.sum st.mxr type = true ↔
      ¬needsStatus st mode type pte := by
  have hmode : (mode == PrivilegeLevel.supervisor) = decide (mode = .supervisor) := by
    cases mode <;> rfl
  rw [hmode] at h ⊢
  unfold needsStatus
  unfold Pte.permits at h ⊢
  revert h
  cases type <;> cases pte.r <;> cases pte.u <;> cases pte.x <;> cases pte.w <;>
    cases st.sum <;> cases st.mxr <;> by_cases hm : mode = .supervisor <;> simp [hm]

/-- A walk that fills an entry keeps the invariant. -/
theorem inv_set {s : State σ} {satp : Satp} (hi : Inv T satp s) {mode : PrivilegeLevel}
    {type : MemoryAccessType} {va pa : BitVec 64} {sum mxr : Bool}
    (hw : T.walk satp va type (mode == .supervisor) sum mxr = .ok pa) (m : σ) :
    Inv T satp { s with
      mem := m, tlb := s.tlb.set mode type (tlbIdx (va >>> 12)) ⟨pageOf pa, va >>> 12⟩ } := by
  refine ⟨hi.1, fun mode' type' va' h => ?_⟩
  dsimp only at h ⊢
  by_cases hsame : mode' = mode ∧ type' = type ∧ tlbIdx (va' >>> 12) = tlbIdx (va >>> 12)
  · obtain ⟨rfl, rfl, hidx⟩ := hsame
    rw [hidx, tlb_set_self] at h ⊢
    exact ⟨sum, mxr, walk_page h hw⟩
  · rw [Tlb.set, if_neg hsame] at h ⊢
    exact hi.2 mode' type' va' h

/-- A call that finds an entry answers from it, whatever the tables say by now. -/
theorem step_hit {s : State σ} {va : BitVec 64} {type : MemoryAccessType} {mode : PrivilegeLevel}
    (h : hit s va type mode) : step mem s (.translate va type) =
      (some (.ok ((s.tlb mode type (tlbIdx (va >>> 12))).ppn ||| pageOffset va)), s) := by
  have htr : translate mem s.csrs s.prv s.tlb va type =
      pure ((s.tlb mode type (tlbIdx (va >>> 12))).ppn ||| pageOffset va, s.tlb) := by
    rw [translate, h.1]
    exact if_pos h.2
  rw [step, htr]
  rfl

/-- A call that finds none walks the tables. -/
theorem step_miss {s : State σ} {va : BitVec 64} {type : MemoryAccessType} {mode : PrivilegeLevel}
    (hmode : translationMode s.csrs s.prv type = some mode) (h : ¬hit s va type mode) :
    step mem s (.translate va type) =
      match (walk mem s.csrs va type mode).run' s.mem with
      | (.ok pa, m) => (some (.ok pa), { s with
          mem := m, tlb := s.tlb.set mode type (tlbIdx (va >>> 12)) ⟨pageOf pa, va >>> 12⟩ })
      | (.error t, m) => (some (.error t), { s with mem := m }) := by
  have htr : translate mem s.csrs s.prv s.tlb va type = (do
      let pa ← walk mem s.csrs va type mode
      return (pa, s.tlb.set mode type (tlbIdx (va >>> 12)) ⟨pageOf pa, va >>> 12⟩)) := by
    rw [translate, hmode]
    exact if_neg fun hv => h ⟨hmode, hv⟩
  rw [step, htr, MemM.run'_bind]
  rcases (walk mem s.csrs va type mode).run' s.mem with ⟨t | pa, m⟩ <;> rfl

/-- A call answers like the page walk if and only if it does not hit a stale entry, and it keeps the
invariant. -/
theorem translate_spec {s : State σ} (hT : HasTables mem (decodeVmInfo s.csrs.satp) T P)
    (hi : Inv T s.csrs.satp s) (hP : P s.mem) (va : BitVec 64) (type : MemoryAccessType) :
    (SameAsWalk mem s (.translate va type) ↔ ¬Stale T s (.translate va type)) ∧
      Inv T s.csrs.satp (step mem s (.translate va type)).2 := by
  cases hmode : translationMode s.csrs s.prv type with
  | none =>
    have htr : translate mem s.csrs s.prv s.tlb va type = pure (va, s.tlb) := by
      rw [translate, hmode]
    have hstep : step mem s (.translate va type) = (some (.ok va), s) := by
      rw [step, htr]
      rfl
    refine ⟨iff_of_true ?_ ?_, ?_⟩
    · rw [SameAsWalk, hstep, walkAnswer, hmode]
    · rintro ⟨mode, l, hhit, -⟩
      rw [hit, hmode] at hhit
      exact nomatch hhit.1
    · rw [hstep]
      exact hi
  | some mode =>
    have hwalk : walkAnswer mem s va type = T.walk s.csrs.satp va type (mode == .supervisor)
        s.csrs.mstatus.sum s.csrs.mstatus.mxr := by
      rw [walkAnswer, hmode]
      exact walk_run' hT va type mode hP
    by_cases h : hit s va type mode
    · rw [SameAsWalk, step_hit h]
      refine ⟨?_, hi⟩
      -- a hit: the entry came from a walk of the same leaf under some value of SUM and MXR
      obtain ⟨sum, mxr, hw⟩ := hi.2 mode type va h.2
      obtain ⟨l, hl, hp, ha, hpa⟩ := walk_eq_ok hw
      have hstale : Stale T s (.translate va type) ↔ needsStatus s.csrs.mstatus mode type l.1 := by
        constructor
        · rintro ⟨mode', l', hhit, hl', hn⟩
          cases hhit.1.symm.trans hmode
          cases hl'.symm.trans hl
          exact hn
        · exact fun hn => ⟨mode, l, h, hl, hn⟩
      rw [hstale, ← permits_iff hp, hwalk, walk_of_leaf hl ha, hpa]
      cases hnow : l.1.permits (mode == .supervisor) s.csrs.mstatus.sum s.csrs.mstatus.mxr type <;> simp
    · -- a miss: the call is the walk, and what it gives is put into the buffer
      have hns : ¬Stale T s (.translate va type) := by
        rintro ⟨mode', l, hhit, -⟩
        cases hhit.1.symm.trans hmode
        exact h hhit
      have hrun := walk_run' hT va type mode hP
      rw [SameAsWalk, step_miss hmode h, hwalk]
      cases hr : (walk mem s.csrs va type mode).run' s.mem with
      | mk r m =>
        rw [hr] at hrun
        cases r with
        | error t => exact ⟨iff_of_true (congrArg some hrun) hns, hi⟩
        | ok pa => exact ⟨iff_of_true (congrArg some hrun) hns, inv_set hi hrun.symm m⟩

/-- No event of a run writes `satp`: a new one would go with a flush, which begins another run. -/
theorem step_satp (s : State σ) (e : Event σ) : (step mem s e).2.csrs.satp = s.csrs.satp := by
  cases e with
  | translate va type =>
    rw [step]
    rcases (translate mem s.csrs s.prv s.tlb va type).run' s.mem with ⟨t | ⟨pa, tlb⟩, m⟩ <;> rfl
  | setPrv prv => rfl
  | writeStatus mstatus => rfl
  | touch f => rfl

/-- **In every run from `flush_tlb` on in which the page tables stay fixed, apart from the accessed and
dirty bits, a call answers like the page walk for the current mode, `SUM` and `MXR` if and only if it
does not find an entry whose leaf needs `SUM` or `MXR` while this is off.** -/
theorem sameAsWalk_iff (mem : MemIf (MemM σ)) (T : Tables) (P : σ → Prop) (s : State σ)
    (hT : HasTables mem (decodeVmInfo s.csrs.satp) T P) (hflush : s.tlb = Tlb.flush)
    (es : List (Event σ)) (hP : Run.Along (fun s _ => P s.mem) (step mem) s es) :
    Run.Along (fun s e => SameAsWalk mem s e ↔ ¬Stale T s e) (step mem) s es := by
  refine Run.Along.of_invariant (fun s' => s'.csrs.satp = s.csrs.satp ∧ Inv T s.csrs.satp s')
    ?_ ⟨rfl, inv_flush T hflush⟩ hP
  rintro s' e ⟨hsatp, hi⟩ hPs
  rw [step_satp]
  rw [← hsatp] at hT hi ⊢
  cases e with
  | translate va type =>
    obtain ⟨h, hi'⟩ := translate_spec hT hi hPs va type
    exact ⟨h, rfl, hi'⟩
  | setPrv prv => exact ⟨iff_of_true trivial id, rfl, hi⟩
  | writeStatus mstatus => exact ⟨iff_of_true trivial id, rfl, hi⟩
  | touch f => exact ⟨iff_of_true trivial id, rfl, hi⟩

/-! ### A page of the user seen from supervisor mode -/

namespace UserPage

/-- 16 KiB of memory at address zero and nothing else. -/
def dmi : MemoryDMI := ⟨0, 0, 0x4000, MemoryDMI.nonempty_16K⟩

/-- The accesses of the only hart. -/
def hart0 : MemIf (MemM (World Unit)) := World.memIf Bus.empty 0 [dmi]

/-- The table at `0x1000` maps the first gigabyte to itself, readable and writable for the user. -/
def world : World Unit :=
  { host := fun a => if a = 0x1000 then 0xD7 else 0, dev := (), busLock := ⟨false, 0⟩ }

def tables : Tables := fun a => ((hart0.rawLoad a .double).run' world).1.map fun x => maskAD x.1

/-- Supervisor mode on Sv39 with `SUM`, after `flush_tlb`. -/
def start : State (World Unit) :=
  { mem := world, prv := .supervisor, tlb := Tlb.flush
    csrs := { Csrs.reset with
      mstatus := { Csrs.reset.mstatus with sum := true }, satp := ⟨1, 0, .sv39⟩ } }

/-- A load, `SUM` off, the same load. -/
def events : List (Event (World Unit)) :=
  [.translate 0x2000 .load, .writeStatus Csrs.reset.mstatus, .translate 0x2000 .load]

theorem rawLoad_world (a : BitVec 64) :
    ∃ r, (hart0.rawLoad a .double).run' world = (r, world) := by
  show ∃ r, World.loadNow Bus.empty [dmi] (world.waitForAccessRights 0) a .double = (r, world)
  unfold World.loadNow
  split <;> exact ⟨_, rfl⟩

theorem rawStore_world {a v : BitVec 64} {h : Option HostAddr} {s : World Unit}
    (hload : (hart0.rawLoad a .double).run' world = (.ok (v, h), s)) (v' : BitVec 64) :
    ∃ r s', (hart0.rawStore a .word v').run' s = (.ok r, s') := by
  replace hload : World.loadNow Bus.empty [dmi] (world.waitForAccessRights 0) a .double = (.ok (v, h), s) :=
    hload
  show ∃ r s', World.storeNow Bus.empty 0 [dmi] (s.waitForAccessRights 0) a .word v' = (.ok r, s')
  unfold World.loadNow at hload
  unfold World.storeNow
  split at hload
  · exact ⟨_, _, rfl⟩
  · cases hload

theorem hasTables (vm : VmInfo) : HasTables hart0 vm tables (· = world) where
  load := by
    rintro s rfl a -
    obtain ⟨r, hr⟩ := rawLoad_world a
    exact ⟨r, world, hr, by rw [tables, hr], fun _ _ => rfl⟩
  store := by
    rintro s rfl a - v h s' type hload -
    exact rawStore_world hload _

end UserPage

open UserPage in
/-- The run of the load that is repeated without `SUM`. -/
theorem sameAsWalk_iff_userPage :
    Run.Along (fun s e => SameAsWalk hart0 s e ↔ ¬Stale tables s e) (step hart0) start events :=
  sameAsWalk_iff hart0 tables (· = world) start (hasTables _) rfl events ⟨rfl, rfl, rfl, trivial⟩

open UserPage in
/-- There the second load gets an address, and the walk a page fault. -/
theorem not_sameAsWalk_userPage :
    HasTables hart0 (decodeVmInfo start.csrs.satp) tables (· = world) ∧ start.tlb = Tlb.flush ∧
    Run.Along (fun s _ => s.mem = world) (step hart0) start events ∧
    ¬Run.Along (SameAsWalk hart0) (step hart0) start events := by
  refine ⟨hasTables _, rfl, ⟨rfl, rfl, rfl, trivial⟩, ?_⟩
  rintro ⟨-, -, h, -⟩
  have hne : (step hart0 (Run.final (step hart0) start (events.take 2)) (.translate 0x2000 .load)).1 ≠
      some (walkAnswer hart0 (Run.final (step hart0) start (events.take 2)) 0x2000 .load) := by
    decide
  exact hne h

end RiscvVp.Mmu
