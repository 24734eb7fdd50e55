import RiscvVp.Iss.CsrTable

/-!
# A write to a CSR changes that register

Each word of `csr_table` belongs to one architectural register (`CsrPtr.owner`), and each address is
a view of one (`CsrAddr.register`).  `set_csr_value` writes only words of the register that its address
is a view of, and what `get_csr_value` returns depends on no others, apart from the fields that
decide whether the register may be read at all.  `CsrFile.setCsrValue_law` draws the conclusion.

`register_mapping` leaves the table in one place: `pmpcfg` has two elements, and four addresses.  These
two addresses are left out.
-/

namespace RiscvVp

/-- The register that an address is a view of, named by one of its addresses. -/
def CsrAddr.register : CsrAddr → CsrAddr
  | .sstatus | .ustatus => .mstatus
  | .sip | .uip => .mip
  | .sie | .uie => .mie
  | .fflags | .frm => .fcsr
  | .vxsat | .vxrm => .vcsr
  | .cycle => .mcycle
  | .instret => .minstret
  | a => a

/-- The register that a word of the table belongs to. -/
def CsrPtr.owner (p : CsrPtr) : CsrAddr :=
  match p.member with
  | .cycle => .mcycle
  | .time => .mtime
  | .instret => .minstret
  | .mvendorid => .mvendorid
  | .marchid => .marchid
  | .mimpid => .mimpid
  | .mhartid => .mhartid
  | .mstatus => .mstatus
  | .misa => .misa
  | .medeleg => .medeleg
  | .mideleg => .mideleg
  | .mie => .mie
  | .mtvec => .mtvec
  | .mcounteren => .mcounteren
  | .mcountinhibit => .mcountinhibit
  | .mscratch => .mscratch
  | .mepc => .mepc
  | .mcause => .mcause
  | .mtval => .mtval
  | .mip => .mip
  | .pmpaddr => .pmpaddr (BitVec.ofNat 4 p.index)
  | .pmpcfg => .pmpcfg (BitVec.ofNat 2 p.index)
  | .sedeleg => .sedeleg
  | .sideleg => .sideleg
  | .stvec => .stvec
  | .scounteren => .scounteren
  | .sscratch => .sscratch
  | .sepc => .sepc
  | .scause => .scause
  | .stval => .stval
  | .satp => .satp
  | .utvec => .utvec
  | .uscratch => .uscratch
  | .uepc => .uepc
  | .ucause => .ucause
  | .utval => .utval
  | .fcsr => .fcsr
  | .vstart => .vstart
  | .vxsat | .vxrm | .vcsr => .vcsr
  | .vtype => .vtype
  | .vl => .vl
  | .vlenb => .vlenb

/-- The addresses whose pointer leaves its object. -/
def CsrAddr.IsOutside (a : CsrAddr) : Prop := a = .pmpcfg 2 ∨ a = .pmpcfg 3

instance decidableIsOutside (a : CsrAddr) : Decidable a.IsOutside :=
  inferInstanceAs (Decidable (_ ∨ _))

variable {a b : CsrAddr} {p : CsrPtr}

/-- Pointers stay inside their objects, with two exceptions. -/
theorem inObject_iff (hp : registerMapping a = some p) : p.InObject ↔ ¬a.IsOutside := by
  cases a with
  | pmpaddr i =>
    obtain rfl := Option.some.inj hp
    have hi : i.toNat < 16 := i.isLt
    exact iff_of_true hi (by rintro (h | h) <;> cases h)
  | pmpcfg i =>
    obtain rfl := Option.some.inj hp
    revert i
    decide
  | sstatus | sie | sip | ustatus | uie | uip | fflags | frm | hpm => cases hp
  | _ =>
    obtain rfl := Option.some.inj hp
    decide

/-- A pointer that stays inside its object leads to a word of the register. -/
theorem owner_word (hp : registerMapping a = some p) (ha : ¬a.IsOutside) (ht : a ≠ .time) :
    p.word.owner = a.register := by
  cases a with
  | pmpaddr i =>
    obtain rfl := Option.some.inj hp
    simp [CsrPtr.word, CsrPtr.owner, CsrAddr.register]
  | pmpcfg i =>
    obtain rfl := Option.some.inj hp
    revert i
    decide
  | time => exact absurd rfl ht
  | sstatus | sie | sip | ustatus | uie | uip | fflags | frm | hpm => cases hp
  | _ =>
    obtain rfl := Option.some.inj hp
    rfl

namespace CsrFile

variable {h h' h'' : CsrFile} {r : CsrAddr} {m m' : CsrMember} {v mask : BitVec 64}
  {addr : BitVec 12}

/-! ### Words -/

@[simp] theorem word_zero (m : CsrMember) : (⟨m, 0⟩ : CsrPtr).word = ⟨m, 0⟩ := by
  simp [CsrPtr.word]

theorem load_store_self (h : CsrFile) (p : CsrPtr) (v : BitVec 64) : (h.store p v).load p = v :=
  Function.update_self _ _ _

theorem reg_store_self (h : CsrFile) (m : CsrMember) (v : BitVec 64) :
    (h.store ⟨m, 0⟩ v).reg m = v :=
  load_store_self h _ v

theorem reg_write_self (h : CsrFile) (m : CsrMember) (v mask : BitVec 64) :
    (h.write m v mask).reg m = writeMasked (h.reg m) v mask :=
  load_store_self h _ _

theorem reg_write_of_ne (h : CsrFile) (hm : m' ≠ m) (v mask : BitVec 64) :
    (h.write m v mask).reg m' = h.reg m' := by
  refine Function.update_of_ne ?_ _ _
  rw [word_zero, word_zero]
  intro heq
  exact hm (congrArg CsrPtr.member heq)

/-! ### What a write changes -/

/-- What `mcycle` shows, before it is divided by the period. -/
def cyclesNow (h : CsrFile) : BitVec 64 := h.commitCycles.cycleCounter

/-- Only words of the register `r` differ, and the clock shows the same time. -/
structure ChangesOnly (r : CsrAddr) (h h' : CsrFile) : Prop where
  table : ∀ w : CsrPtr, w.owner ≠ r → h'.table w = h.table w
  prv : h'.prv = h.prv
  instr : h'.instr = h.instr
  mtime : h'.mtime = h.mtime
  period : h'.propClockCyclePeriod = h.propClockCyclePeriod
  cycles : h'.cyclesNow = h.cyclesNow

namespace ChangesOnly

theorem refl (r : CsrAddr) (h : CsrFile) : ChangesOnly r h h :=
  ⟨fun _ _ => rfl, rfl, rfl, rfl, rfl, rfl⟩

theorem trans (h₁ : ChangesOnly r h h') (h₂ : ChangesOnly r h' h'') : ChangesOnly r h h'' where
  table w hw := (h₂.table w hw).trans (h₁.table w hw)
  prv := h₂.prv.trans h₁.prv
  instr := h₂.instr.trans h₁.instr
  mtime := h₂.mtime.trans h₁.mtime
  period := h₂.period.trans h₁.period
  cycles := h₂.cycles.trans h₁.cycles

theorem load (hc : ChangesOnly r h h') {p : CsrPtr} (hp : p.word.owner ≠ r) :
    h'.load p = h.load p :=
  hc.table _ hp

theorem reg (hc : ChangesOnly r h h') (hm : (⟨m, 0⟩ : CsrPtr).owner ≠ r) : h'.reg m = h.reg m := by
  refine hc.load ?_
  rwa [word_zero]

/-- A store to a word of the register.  The clock looks at `mcountinhibit`. -/
theorem store (h : CsrFile) {p : CsrPtr} (hp : p.word.owner = r) (hr : r ≠ .mcountinhibit)
    (v : BitVec 64) : ChangesOnly r h (h.store p v) where
  table w hw := by
    refine Function.update_of_ne ?_ _ _
    rintro rfl
    exact hw hp
  prv := rfl
  instr := rfl
  mtime := rfl
  period := rfl
  cycles := by
    have hreg : (h.store p v).reg .mcountinhibit = h.reg .mcountinhibit := by
      refine Function.update_of_ne ?_ _ _
      rw [word_zero]
      rintro heq
      rw [← heq] at hp
      exact hr hp.symm
    rw [cyclesNow, commitCycles, hreg]
    rfl

theorem write (h : CsrFile) (hm : (⟨m, 0⟩ : CsrPtr).owner = r) (hr : r ≠ .mcountinhibit)
    (v mask : BitVec 64) : ChangesOnly r h (h.write m v mask) := by
  refine store h ?_ hr _
  rwa [word_zero]

/-- `mcountinhibit` is written after the cycles have been committed. -/
theorem writeMcountinhibit (h : CsrFile) (v mask : BitVec 64) :
    ChangesOnly .mcountinhibit h (h.commitCycles.write .mcountinhibit v mask) where
  table w hw := by
    refine Function.update_of_ne ?_ _ _
    rw [word_zero]
    rintro rfl
    exact hw rfl
  prv := rfl
  instr := rfl
  mtime := rfl
  period := rfl
  cycles := by
    show (if _ then h.cyclesNow else h.cyclesNow + (h.cycleCounterRaw - h.cycleCounterRaw)) =
      h.cyclesNow
    simp

end ChangesOnly

theorem changesOnly_writeSatp (h : CsrFile) (v : BitVec 64) :
    ChangesOnly .satp h (h.writeSatp v) := by
  have hw : ChangesOnly .satp h (h.write .satp v satpMask) := .write h (by rfl) (by decide) _ _
  unfold writeSatp
  dsimp only
  split_ifs
  · exact hw
  · exact hw.trans (.write _ (by rfl) (by decide) _ _)

/-- **What `set_csr_value` writes** belongs to the register that its address is a view of. -/
theorem changesOnly_setNamed (ha : ¬a.IsOutside) (ht : a ≠ .time) (hset : h.setNamed a v = .ok h') :
    ChangesOnly a.register h h' := by
  cases a with
  | misa | hpm =>
    obtain rfl := Except.ok.inj hset
    exact .refl _ h
  | satp =>
    unfold setNamed at hset
    split_ifs at hset
    · cases hset
    · obtain rfl := Except.ok.inj hset
      exact changesOnly_writeSatp h v
  | mcountinhibit =>
    obtain rfl := Except.ok.inj hset
    exact .writeMcountinhibit h _ _
  | vxsat =>
    obtain rfl := Except.ok.inj hset
    exact (ChangesOnly.write h (by rfl) (by decide) _ _).trans (.write _ (by rfl) (by decide) _ _)
  | vxrm =>
    obtain rfl := Except.ok.inj hset
    exact (ChangesOnly.write h (by rfl) (by decide) _ _).trans (.write _ (by rfl) (by decide) _ _)
  | vcsr =>
    obtain rfl := Except.ok.inj hset
    exact ((ChangesOnly.write h (by rfl) (by decide) _ _).trans (.write _ (by rfl) (by decide) _ _)).trans
      (.write _ (by rfl) (by decide) _ _)
  | mtvec | stvec | utvec | mepc | sepc | uepc | mstatus | sstatus | ustatus | mip | sip | uip | mie
  | sie | uie | mideleg | medeleg | sideleg | sedeleg | mcounteren | scounteren | fcsr | fflags | frm =>
    obtain rfl := Except.ok.inj hset
    exact .write h (by rfl) (by decide) _ _
  | _ =>
    -- the others are written by `default_write64`
    obtain rfl := Except.ok.inj hset
    exact .store h (owner_word rfl ha ht) (by rintro ⟨⟩) _

/-! ### What a read depends on -/

/-- What `get_csr_value` returns. -/
def value (h : CsrFile) (addr : BitVec 12) : Except SimulationTrap (BitVec 64) :=
  (h.getCsrValue addr).map Prod.fst

/-- What the `switch` of `get_csr_value` returns. -/
def namedValue (h : CsrFile) (a : CsrAddr) : Except SimulationTrap (BitVec 64) :=
  (h.getNamed a).map Prod.fst

theorem namedValue_vcsr (h : CsrFile) : h.namedValue .vcsr =
    .ok (writeMasked (writeMasked (h.reg .vcsr) (h.reg .vxrm <<< 1) vcsrVxrmMask) (h.reg .vxsat)
      vxsatMask) := by
  have hsat : (h.write .vcsr (h.reg .vxrm <<< 1) vcsrVxrmMask).reg .vxsat = h.reg .vxsat :=
    reg_write_of_ne h (by decide) _ _
  simp only [namedValue, getNamed, Except.map, reg_write_self, hsat]

theorem namedValue_mcycle (h : CsrFile) :
    h.namedValue .mcycle = .ok (h.cyclesNow / h.propClockCyclePeriod) :=
  congrArg Except.ok (reg_store_self h.commitCycles .cycle _)

theorem namedValue_time (h : CsrFile) : h.namedValue .time = .ok h.mtime :=
  congrArg Except.ok (reg_store_self h .time _)

/-- **What `get_csr_value` returns** depends on the register that its address is a view of, and for
`satp` on `mstatus.tvm`. -/
theorem ChangesOnly.namedValue_eq (hc : ChangesOnly r h h') (hb : ¬b.IsOutside) (hr : b.register ≠ r)
    (htvm : b = .satp → h'.tvm = h.tvm) : h'.namedValue b = h.namedValue b := by
  cases b with
  | time | mtime =>
    refine (namedValue_time h').trans (.trans ?_ (namedValue_time h).symm)
    rw [hc.mtime]
  | cycle | mcycle =>
    refine (namedValue_mcycle h').trans (.trans ?_ (namedValue_mcycle h).symm)
    rw [hc.cycles, hc.period]
  | hpm => rfl
  | vcsr =>
    rw [namedValue_vcsr, namedValue_vcsr, hc.reg (m := .vcsr) hr, hc.reg (m := .vxrm) hr,
      hc.reg (m := .vxsat) hr]
  | satp =>
    have hsatp : h'.load ⟨.satp, 0⟩ = h.load ⟨.satp, 0⟩ := hc.reg (m := .satp) hr
    simp only [namedValue, getNamed, defaultRead64, registerMapping, raiseIllegal, htvm rfl, hsatp,
      hc.instr]
    split_ifs <;> rfl
  | minstret => exact congrArg Except.ok (hc.reg (m := .instret) hr)
  | mstatus | sstatus | ustatus =>
    exact congrArg (fun x => Except.ok (x &&& _)) (hc.reg (m := .mstatus) hr)
  | mip | sip | uip => exact congrArg (fun x => Except.ok (x &&& _)) (hc.reg (m := .mip) hr)
  | mie | sie | uie => exact congrArg (fun x => Except.ok (x &&& _)) (hc.reg (m := .mie) hr)
  | fcsr | fflags => exact congrArg (fun x => Except.ok (x &&& _)) (hc.reg (m := .fcsr) hr)
  | frm => exact congrArg (fun x => Except.ok ((x &&& frmMask) >>> 5)) (hc.reg (m := .fcsr) hr)
  | _ =>
    -- the others are read by `default_read64`
    refine congrArg Except.ok (hc.load ?_)
    rw [owner_word rfl hb (by rintro ⟨⟩)]
    exact hr

/-! ### Whether a register may be read -/

/-- The write decides whether the other register may be read: `mstatus.tvm`, and the fields of
`mcounteren` and `scounteren`. -/
def Gates (a b : CsrAddr) : Prop :=
  a = .mstatus ∧ b = .satp ∨
    (a = .mcounteren ∨ a = .scounteren) ∧ (b = .cycle ∨ b = .time ∨ b = .instret)

theorem validate_eq (hprv : h'.prv = h.prv) (hinstr : h'.instr = h.instr)
    (hm : isBitset (h'.reg .mcounteren) (addr &&& 0x1F).toNat =
      isBitset (h.reg .mcounteren) (addr &&& 0x1F).toNat)
    (hs : isBitset (h'.reg .scounteren) (addr &&& 0x1F).toNat =
      isBitset (h.reg .scounteren) (addr &&& 0x1F).toNat) :
    h'.validateCsrCounterReadAccessRights addr = h.validateCsrCounterReadAccessRights addr := by
  simp only [validateCsrCounterReadAccessRights, raiseIllegal, hprv, hinstr, hm, hs]

/-- Bits outside the mask of a write read as before it. -/
theorem and_writeMasked {old v mask x : BitVec 64} (hx : mask &&& x = 0) :
    writeMasked old v mask &&& x = old &&& x := by
  apply BitVec.eq_of_getLsbD_eq
  intro i hi
  have hbit := congrArg (fun y => BitVec.getLsbD y i) hx
  simp only [BitVec.getLsbD_and] at hbit
  simp only [writeMasked, BitVec.getLsbD_and, BitVec.getLsbD_or, BitVec.getLsbD_not, hi,
    decide_true, Bool.true_and]
  revert hbit
  cases mask.getLsbD i <;> cases x.getLsbD i <;> simp

/-- Only the first three of the user counters have a bit in `MCOUNTEREN_MASK`. -/
theorem counterBit_of_ne (hlo : 0xC00 ≤ addr) (hhi : addr ≤ 0xC1F)
    (hb : csrAddr addr ≠ some .cycle ∧ csrAddr addr ≠ some .time ∧ csrAddr addr ≠ some .instret) :
    mcounterenMask &&& ((1 : BitVec 32) <<< (addr &&& 0x1F).toNat).signExtend 64 = 0 := by
  have hbits : ∀ cnt < 32, 3 ≤ cnt →
      mcounterenMask &&& ((1 : BitVec 32) <<< cnt).signExtend 64 = 0 := by decide
  have hne : ∀ {n : BitVec 12} {c : CsrAddr}, csrAddr n = some c → csrAddr addr ≠ some c →
      addr.toNat ≠ n.toNat := by
    intro n c hn hc heq
    rw [BitVec.eq_of_toNat_eq heq] at hc
    exact hc hn
  have h0 : addr.toNat ≠ 0xC00 := hne (n := 0xC00) (by decide) hb.1
  have h1 : addr.toNat ≠ 0xC01 := hne (n := 0xC01) (by decide) hb.2.1
  have h2 : addr.toNat ≠ 0xC02 := hne (n := 0xC02) (by decide) hb.2.2
  have hlo : 0xC00 ≤ addr.toNat := hlo
  have hhi : addr.toNat ≤ 0xC1F := hhi
  have hcnt : (addr &&& 0x1F).toNat = addr.toNat % 32 := by
    rw [BitVec.toNat_and]
    exact Nat.and_two_pow_sub_one_eq_mod addr.toNat 5
  apply hbits
  · omega
  · omega

/-- A write changes whether the counter at an address may be read only if the address is that of
`cycle`, `time` or `instret`. -/
theorem isBitset_write (hb : csrAddr addr ≠ some .cycle ∧ csrAddr addr ≠ some .time ∧
      csrAddr addr ≠ some .instret) (hlo : 0xC00 ≤ addr) (hhi : addr ≤ 0xC1F) (h : CsrFile)
    (m : CsrMember) (v : BitVec 64) :
    isBitset ((h.write m v mcounterenMask).reg m) (addr &&& 0x1F).toNat =
      isBitset (h.reg m) (addr &&& 0x1F).toNat := by
  rw [reg_write_self, isBitset, isBitset, and_writeMasked (counterBit_of_ne hlo hhi hb)]

theorem tvm_setNamed (ha : ¬a.IsOutside) (ht : a ≠ .time) (hset : h.setNamed a v = .ok h')
    (hne : a ≠ .mstatus) : h'.tvm = h.tvm := by
  have hc := changesOnly_setNamed ha ht hset
  have hbit : ∀ mask : BitVec 64, mask.getLsbD 20 = false →
      (h.write .mstatus v mask).tvm = h.tvm := by
    intro mask hmask
    rw [tvm, reg_write_self, writeMasked, tvm, BitVec.getLsbD_or, BitVec.getLsbD_and,
      BitVec.getLsbD_and, BitVec.getLsbD_not, hmask]
    simp
  by_cases hs : a = .sstatus ∨ a = .ustatus
  · rcases hs with rfl | rfl
    · obtain rfl := Except.ok.inj hset
      exact hbit _ (by decide)
    · obtain rfl := Except.ok.inj hset
      exact hbit _ (by decide)
  · rw [not_or] at hs
    have hreg : (⟨.mstatus, 0⟩ : CsrPtr).owner ≠ a.register := by
      cases a with
      | mstatus => exact absurd rfl hne
      | sstatus => exact absurd rfl hs.1
      | ustatus => exact absurd rfl hs.2
      | _ => rintro ⟨⟩
    rw [tvm, hc.reg hreg, tvm]

/-- The check of the counters, when it does not depend on what is written. -/
theorem validate_setNamed (ha : ¬a.IsOutside) (ht : a ≠ .time) (hset : h.setNamed a v = .ok h')
    (hgate : (a = .mcounteren ∨ a = .scounteren) →
      csrAddr addr ≠ some .cycle ∧ csrAddr addr ≠ some .time ∧ csrAddr addr ≠ some .instret) :
    h'.validateCsrCounterReadAccessRights addr = h.validateCsrCounterReadAccessRights addr := by
  have hc := changesOnly_setNamed ha ht hset
  by_cases hrange : 0xC00 ≤ addr ∧ addr ≤ 0xC1F
  · by_cases hm : a = .mcounteren
    · obtain rfl := hm
      obtain rfl := Except.ok.inj hset
      refine validate_eq rfl rfl ?_ ?_
      · exact isBitset_write (hgate (Or.inl rfl)) hrange.1 hrange.2 h _ v
      · rw [hc.reg (m := .scounteren) (by decide)]
    · by_cases hs : a = .scounteren
      · obtain rfl := hs
        obtain rfl := Except.ok.inj hset
        refine validate_eq rfl rfl ?_ ?_
        · rw [hc.reg (m := .mcounteren) (by decide)]
        · exact isBitset_write (hgate (Or.inr rfl)) hrange.1 hrange.2 h _ v
      · have hreg : a.register ≠ .mcounteren ∧ a.register ≠ .scounteren := by
          cases a with
          | mcounteren => exact absurd rfl hm
          | scounteren => exact absurd rfl hs
          | _ => exact ⟨by rintro ⟨⟩, by rintro ⟨⟩⟩
        refine validate_eq hc.prv hc.instr ?_ ?_
        · rw [hc.reg (m := .mcounteren) hreg.1.symm]
        · rw [hc.reg (m := .scounteren) hreg.2.symm]
  · rw [validateCsrCounterReadAccessRights, if_neg hrange, validateCsrCounterReadAccessRights,
      if_neg hrange]

theorem value_of_valid (hval : h.validateCsrCounterReadAccessRights addr = .ok ())
    (hb : csrAddr addr = some b) : h.value addr = h.namedValue b := by
  simp only [value, getCsrValue, hval, hb, namedValue]

/-- A value is read only if the access is valid. -/
theorem valid_of_value {x : BitVec 64} (hx : h.value addr = .ok x) :
    h.validateCsrCounterReadAccessRights addr = .ok () := by
  unfold value getCsrValue at hx
  cases hval : h.validateCsrCounterReadAccessRights addr with
  | error t =>
    rw [hval] at hx
    cases hx
  | ok u => rfl

/-- Values that are read agree, whatever decides whether they may be read. -/
theorem ChangesOnly.value_unique (hc : ChangesOnly r h h') (hb : csrAddr addr = some b)
    (hout : ¬b.IsOutside) (hr : b.register ≠ r) {x y : BitVec 64} (hx : h.value addr = .ok x)
    (hy : h'.value addr = .ok y) : x = y := by
  rw [value_of_valid (valid_of_value hx) hb] at hx
  rw [value_of_valid (valid_of_value hy) hb] at hy
  -- `satp` has been read, so that `tvm` is clear before and after
  have htvm : b = .satp → h'.tvm = h.tvm := by
    rintro rfl
    have hclear : ∀ {g : CsrFile} {z : BitVec 64}, g.namedValue .satp = .ok z → g.tvm = false := by
      intro g z hz
      by_contra hne
      rw [Bool.not_eq_false] at hne
      rw [namedValue, getNamed, if_pos hne] at hz
      cases hz
    rw [hclear hx, hclear hy]
  rw [hc.namedValue_eq hout hr htvm, hx] at hy
  exact Except.ok.inj hy

/-- A write that does not decide whether the other register may be read. -/
theorem value_eq_of_not_gates (ha : ¬a.IsOutside) (ht : a ≠ .time)
    (hset : h.setNamed a v = .ok h') (hb : csrAddr addr = some b) (hout : ¬b.IsOutside)
    (hr : b.register ≠ a.register) (hgate : ¬Gates a b) : h'.value addr = h.value addr := by
  have hc := changesOnly_setNamed ha ht hset
  have hval := @validate_setNamed _ _ _ _ addr ha ht hset fun hcnt => by
    rw [hb]
    refine ⟨?_, ?_, ?_⟩
    all_goals
      intro heq
      obtain rfl := Option.some.inj heq
      exact hgate (Or.inr ⟨hcnt, by simp⟩)
  have hnamed : h'.namedValue b = h.namedValue b := by
    refine hc.namedValue_eq hout hr fun hsatp => tvm_setNamed ha ht hset fun hm => ?_
    exact hgate (Or.inl ⟨hm, hsatp⟩)
  cases hv : h.validateCsrCounterReadAccessRights addr with
  | error t => simp only [value, getCsrValue, hval, hv]
  | ok u => rw [value_of_valid (hval.trans hv) hb, value_of_valid hv hb, hnamed]

/-! ### Reading back -/

/-- The write mask of an address. -/
def writeMask (h : CsrFile) : CsrAddr → BitVec 64
  | .misa | .hpm => 0
  | .satp => satpMask
  | .mtvec | .stvec | .utvec => mtvecMask
  | .mepc | .sepc | .uepc => h.pcAlignmentMask
  | .mstatus => mstatusWriteMask
  | .sstatus => sstatusWriteMask
  | .ustatus => ustatusWriteMask
  | .mip => mipWriteMask
  | .sip => sipMask
  | .uip => uipMask
  | .mie | .mideleg | .sideleg => mieMask
  | .sie => sieMask
  | .uie => uieMask
  | .medeleg => medelegMask
  | .sedeleg => sedelegMask
  | .mcounteren | .scounteren => mcounterenMask
  | .mcountinhibit => mcountinhibitMask
  | .fcsr => fcsrMask
  | .fflags => fflagsMask
  | .frm => frmValueMask
  | .vxsat => vxsatMask
  | .vxrm => vxrmMask
  | .vcsr => vcsrMask
  | _ => BitVec.allOnes 64

/-- The bits that a write takes over: those of the write mask, but not the field `mode` of `satp` if
the mode is not supported. -/
def writtenBits (h : CsrFile) (a : CsrAddr) (v : BitVec 64) : BitVec 64 :=
  if a = .satp ∧ isSatpMode (v.extractLsb' 60 4) = false then satpMask &&& ~~~satpModeMask
  else h.writeMask a

/-- The bits of a masked write: new where the mask has a one, and old elsewhere. -/
theorem getLsbD_writeMasked {i : ℕ} (hi : i < 64) (old v mask : BitVec 64) :
    (writeMasked old v mask).getLsbD i =
      if mask.getLsbD i then v.getLsbD i else old.getLsbD i := by
  simp only [writeMasked, BitVec.getLsbD_or, BitVec.getLsbD_and, BitVec.getLsbD_not, hi,
    decide_true, Bool.true_and]
  cases mask.getLsbD i <;> simp

/-- A masked write is the new value merged with the old bits. -/
theorem writeMasked_comm (old v mask : BitVec 64) :
    writeMasked old v mask = (v &&& mask) ||| (old &&& ~~~mask) :=
  BitVec.or_comm _ _

/-- What is read through a mask that shows all that can be written. -/
theorem writeMasked_and {read : BitVec 64} (hsub : mask &&& read = mask) (old v : BitVec 64) :
    writeMasked old v mask &&& read = (v &&& mask) ||| ((old &&& read) &&& ~~~mask) := by
  rw [writeMasked_comm, BitVec.and_or_distrib_right, BitVec.and_assoc, hsub]
  congr 1
  ac_rfl

/-- `frm` is five bits further up in `fcsr`. -/
theorem frm_readBack (old v : BitVec 64) :
    (writeMasked old (v <<< 5) frmMask &&& frmMask) >>> 5 =
      (v &&& frmValueMask) ||| (((old &&& frmMask) >>> 5) &&& ~~~frmValueMask) := by
  apply BitVec.eq_of_getLsbD_eq
  intro i hi
  have hmask : ∀ i : Fin 64, frmMask.getLsbD (5 + i) = decide (i.val < 3) ∧
      frmValueMask.getLsbD i = decide (i.val < 3) := by decide
  obtain ⟨h1, h2⟩ := hmask ⟨i, hi⟩
  dsimp only at h1 h2
  simp only [BitVec.getLsbD_ushiftRight, BitVec.getLsbD_and, BitVec.getLsbD_or, BitVec.getLsbD_not,
    h1, h2, hi, decide_true, Bool.true_and]
  by_cases h3 : i < 3
  · rw [getLsbD_writeMasked (by omega), h1]
    simp only [BitVec.getLsbD_shiftLeft, h3, decide_true, ↓reduceIte, show 5 + i < 64 by omega,
      show ¬5 + i < 5 by omega, Nat.add_sub_cancel_left]
    simp
  · simp [h3]

/-- `vcsr` is read from its mirrors, which have been written with it. -/
theorem vcsr_readBack (vcsr vxrm vxsat v : BitVec 64) :
    writeMasked (writeMasked (writeMasked vcsr v vcsrMask)
      (writeMasked vxrm (writeMasked vcsr v vcsrMask >>> 1) vxrmMask <<< 1) vcsrVxrmMask)
      (writeMasked vxsat (writeMasked vcsr v vcsrMask) vxsatMask) vxsatMask =
      (v &&& vcsrMask) ||| (writeMasked (writeMasked vcsr (vxrm <<< 1) vcsrVxrmMask) vxsat
        vxsatMask &&& ~~~vcsrMask) := by
  apply BitVec.eq_of_getLsbD_eq
  intro i hi
  have hmask : ∀ i : Fin 64, vcsrMask.getLsbD i = decide (i.val < 3) ∧
      vcsrVxrmMask.getLsbD i = decide (i.val = 1 ∨ i.val = 2) ∧
      vxrmMask.getLsbD (i - 1) = decide (i.val < 3) ∧
      vxsatMask.getLsbD i = decide (i.val = 0) := by decide
  obtain ⟨h1, h2, h3, h4⟩ := hmask ⟨i, hi⟩
  dsimp only at h1 h2 h3 h4
  simp only [getLsbD_writeMasked hi, getLsbD_writeMasked (show i - 1 < 64 by omega),
    BitVec.getLsbD_or, BitVec.getLsbD_and, BitVec.getLsbD_not, BitVec.getLsbD_shiftLeft,
    BitVec.getLsbD_ushiftRight, h1, h2, h3, h4]
  -- bit 0 comes from `vxsat`, bits 1 and 2 from `vxrm`, and the others from `vcsr` itself
  by_cases hlt : i < 3
  · by_cases h0 : i = 0
    · simp [h0]
    · have hback : 1 + (i - 1) = i := by omega
      have hbits : i = 1 ∨ i = 2 := by omega
      rw [hback]
      simp only [getLsbD_writeMasked hi, h1, h0, hbits, hlt, show ¬i < 1 by omega]
      simp [hi]
  · simp [hlt, hi, show i ≠ 0 by omega, show i ≠ 1 by omega, show i ≠ 2 by omega]

/-- A masked write that is undone for some bits. -/
theorem writeMasked_undo (old v mask undo : BitVec 64) :
    writeMasked (writeMasked old v mask) old undo = writeMasked old v (mask &&& ~~~undo) := by
  apply BitVec.eq_of_getLsbD_eq
  intro i hi
  simp only [getLsbD_writeMasked hi, BitVec.getLsbD_and, BitVec.getLsbD_not, hi, decide_true,
    Bool.true_and]
  cases undo.getLsbD i <;> cases mask.getLsbD i <;> rfl

/-- The mode that is written is the one of the value. -/
theorem satpMode_writeMasked (old v : BitVec 64) :
    (writeMasked old v satpMask).extractLsb' 60 4 = v.extractLsb' 60 4 := by
  apply BitVec.eq_of_getLsbD_eq
  intro i hi
  have hmask : ∀ i : Fin 4, satpMask.getLsbD (60 + i) = true := by decide
  have hbit := hmask ⟨i, hi⟩
  dsimp only at hbit
  rw [BitVec.getLsbD_extractLsb', BitVec.getLsbD_extractLsb', getLsbD_writeMasked (by omega), hbit,
    if_pos rfl]

theorem reg_writeSatp (h : CsrFile) (v : BitVec 64) :
    (h.writeSatp v).reg .satp = writeMasked (h.reg .satp) v (h.writtenBits .satp v) := by
  unfold writeSatp writtenBits
  dsimp only
  rw [reg_write_self, satpMode_writeMasked]
  by_cases hmode : isSatpMode (v.extractLsb' 60 4) = true
  · rw [if_pos hmode, if_neg (by simp [hmode]), reg_write_self]
    rfl
  · rw [if_neg hmode, if_pos (by simpa using hmode), reg_write_self, reg_write_self,
      writeMasked_undo]

theorem writtenBits_of_ne (hne : a ≠ .satp) (h : CsrFile) (v : BitVec 64) :
    h.writtenBits a v = h.writeMask a :=
  if_neg fun hsatp => hne hsatp.1

/-- A register that is read as it is. -/
theorem readBack_raw (hget : ∀ g : CsrFile, g.namedValue a = .ok (g.reg m)) (h : CsrFile)
    (v mask : BitVec 64) : ∃ old, h.namedValue a = .ok old ∧
      (h.write m v mask).namedValue a = .ok ((v &&& mask) ||| (old &&& ~~~mask)) := by
  refine ⟨_, hget h, ?_⟩
  rw [hget, reg_write_self, writeMasked_comm]

/-- A register that is read through a mask. -/
theorem readBack_masked {read : BitVec 64}
    (hget : ∀ g : CsrFile, g.namedValue a = .ok (g.reg m &&& read)) (hsub : mask &&& read = mask)
    (h : CsrFile) (v : BitVec 64) : ∃ old, h.namedValue a = .ok old ∧
      (h.write m v mask).namedValue a = .ok ((v &&& mask) ||| (old &&& ~~~mask)) := by
  refine ⟨_, hget h, ?_⟩
  rw [hget, reg_write_self, writeMasked_and hsub]

/-- A register that is not written is one whose mask is empty, so it reads back as it was. -/
theorem readBack_kept (v old : BitVec 64) : old = (v &&& 0) ||| (old &&& ~~~0) := by
  show old = (v &&& 0#64) ||| (old &&& BitVec.allOnes 64)
  rw [BitVec.and_zero, BitVec.zero_or, BitVec.and_allOnes]

/-- A register that is read and written as it is. -/
theorem readBack_stored (hget : ∀ g : CsrFile, g.namedValue a = .ok (g.load p)) (h : CsrFile)
    (v : BitVec 64) : ∃ old, h.namedValue a = .ok old ∧ (h.store p v).namedValue a =
      .ok ((v &&& BitVec.allOnes 64) ||| (old &&& ~~~BitVec.allOnes 64)) := by
  refine ⟨_, hget h, ?_⟩
  rw [hget, load_store_self, BitVec.and_allOnes, BitVec.not_allOnes, BitVec.and_zero,
    BitVec.or_zero]

/-- **Reading back.**  A register shows the bits that the write has taken over, and its old ones. -/
theorem readBack_setNamed (hset : h.setNamed a v = .ok h') (hcyc : a ≠ .cycle ∧ a ≠ .mcycle)
    (htime : a ≠ .time ∧ a ≠ .mtime) :
    ∃ old, h.namedValue a = .ok old ∧ h'.namedValue a =
      .ok ((v &&& h.writtenBits a v) ||| (old &&& ~~~h.writtenBits a v)) := by
  cases a with
  | cycle => exact absurd rfl hcyc.1
  | mcycle => exact absurd rfl hcyc.2
  | time => exact absurd rfl htime.1
  | mtime => exact absurd rfl htime.2
  | satp =>
    unfold setNamed at hset
    split_ifs at hset with htvm
    · cases hset
    · obtain rfl := Except.ok.inj hset
      have htvm' : (h.writeSatp v).tvm = h.tvm := by
        rw [tvm, (changesOnly_writeSatp h v).reg (by decide), tvm]
      refine ⟨h.reg .satp, ?_, ?_⟩
      · rw [namedValue, getNamed, if_neg htvm]
        rfl
      · rw [namedValue, getNamed, if_neg (by rwa [htvm']), ← writeMasked_comm, ← reg_writeSatp]
        rfl
  | misa | hpm =>
    obtain rfl := Except.ok.inj hset
    rw [writtenBits_of_ne (by decide)]
    exact ⟨_, rfl, congrArg Except.ok (readBack_kept v _)⟩
  | mtvec | stvec | utvec | mepc | sepc | uepc | mideleg | medeleg | sideleg | sedeleg | mcounteren
  | scounteren =>
    obtain rfl := Except.ok.inj hset
    rw [writtenBits_of_ne (by decide)]
    exact readBack_raw (fun _ => rfl) h v _
  | mcountinhibit =>
    obtain rfl := Except.ok.inj hset
    rw [writtenBits_of_ne (by decide)]
    exact readBack_raw (a := .mcountinhibit) (m := .mcountinhibit) (fun _ => rfl) h.commitCycles v _
  | mstatus | sstatus | ustatus | mip | sip | uip | mie | sie | uie | fcsr | fflags =>
    obtain rfl := Except.ok.inj hset
    rw [writtenBits_of_ne (by decide)]
    exact readBack_masked (fun _ => rfl) (by decide) h v
  | frm =>
    obtain rfl := Except.ok.inj hset
    rw [writtenBits_of_ne (by decide)]
    refine ⟨_, rfl, congrArg Except.ok (.trans ?_ (frm_readBack (h.reg .fcsr) v))⟩
    exact congrArg (fun x => (x &&& frmMask) >>> 5) (reg_write_self h .fcsr _ _)
  | vxsat =>
    obtain rfl := Except.ok.inj hset
    have hget : ∀ g : CsrFile, g.namedValue .vxsat = .ok (g.reg .vxsat) := fun _ => rfl
    rw [writtenBits_of_ne (by decide), hget (CsrFile.write _ _ _ _),
      @reg_write_of_ne .vcsr .vxsat _ (by decide), ← hget]
    exact readBack_raw hget h v _
  | vxrm =>
    obtain rfl := Except.ok.inj hset
    have hget : ∀ g : CsrFile, g.namedValue .vxrm = .ok (g.reg .vxrm) := fun _ => rfl
    rw [writtenBits_of_ne (by decide), hget (CsrFile.write _ _ _ _),
      @reg_write_of_ne .vcsr .vxrm _ (by decide), ← hget]
    exact readBack_raw hget h v _
  | vcsr =>
    obtain rfl := Except.ok.inj hset
    rw [writtenBits_of_ne (by decide)]
    refine ⟨_, namedValue_vcsr h, ?_⟩
    rw [namedValue_vcsr, @reg_write_of_ne .vxsat .vcsr _ (by decide),
      @reg_write_of_ne .vxrm .vcsr _ (by decide),
      @reg_write_of_ne .vxsat .vxrm _ (by decide), reg_write_self, reg_write_self,
      reg_write_self, @reg_write_of_ne .vcsr .vxrm _ (by decide),
      @reg_write_of_ne .vxrm .vxsat _ (by decide),
      @reg_write_of_ne .vcsr .vxsat _ (by decide)]
    exact congrArg Except.ok (vcsr_readBack _ _ _ v)
  | _ =>
    -- the others are written by `default_write64`
    obtain rfl := Except.ok.inj hset
    rw [writtenBits_of_ne (by rintro ⟨⟩)]
    exact readBack_stored (fun _ => rfl) h v

/-! ### Accepted writes -/

/-- Addresses from `0xC00` on cannot be written. -/
theorem addr_lt_of_accepted (hacc : h.isInvalidCsrAccess addr true = .ok false) : addr < 0xC00 := by
  by_contra hge
  have hhigh : addr.toNat / 2 ^ 10 = 3 := by
    have hle : 0xC00 ≤ addr.toNat := BitVec.not_lt.mp hge
    omega
  have hro : (0xC00 &&& addr) >>> 10 = 3 := by
    apply BitVec.eq_of_toNat_eq
    rw [BitVec.toNat_ushiftRight, BitVec.toNat_and, Nat.shiftRight_and_distrib,
      Nat.shiftRight_eq_div_pow addr.toNat, hhigh]
    rfl
  unfold isInvalidCsrAccess at hacc
  split_ifs at hacc
  · cases hacc
  · cases hacc
  · have hfalse := Except.ok.inj hacc
    rw [hro] at hfalse
    cases hfalse

/-- The addresses of `cycle` and `time` lie among those that can only be read. -/
theorem le_of_csrAddr (ha : csrAddr addr = some a) (hct : a = .cycle ∨ a = .time) :
    0xC00 ≤ addr := by
  unfold csrAddr at ha
  split at ha
  case h_1 heq => simp [BitVec.le_def, heq]
  case h_2 heq => simp [BitVec.le_def, heq]
  all_goals
    (try split_ifs at ha)
    all_goals
      cases ha
      rcases hct with hct | hct <;> cases hct

/-- Below the addresses that can only be read there is neither `cycle` nor `time`. -/
theorem ne_of_lt (hlt : addr < 0xC00) (ha : csrAddr addr = some a) : a ≠ .cycle ∧ a ≠ .time := by
  refine ⟨fun hc => ?_, fun ht => ?_⟩
  · exact absurd (le_of_csrAddr ha (Or.inl hc)) (BitVec.not_le.mpr hlt)
  · exact absurd (le_of_csrAddr ha (Or.inr ht)) (BitVec.not_le.mpr hlt)

theorem validate_of_lt (hlt : addr < 0xC00) (h : CsrFile) :
    h.validateCsrCounterReadAccessRights addr = .ok () := by
  refine if_neg fun hrange => ?_
  exact absurd hrange.1 (BitVec.not_le.mpr hlt)

/-- Two addresses are views of one register. -/
def SameRegister (addr addr' : BitVec 12) : Prop :=
  (csrAddr addr).map CsrAddr.register = (csrAddr addr').map CsrAddr.register

instance decidableSameRegister (addr addr' : BitVec 12) : Decidable (SameRegister addr addr') :=
  inferInstanceAs (Decidable (_ = _))

/-- **A write to a CSR.**  For every accepted write, at an address whose pointer stays inside its
object: what is read at an address that is no view of the same register does not change, and whether
it may be read changes only by way of `mstatus.tvm`, `mcounteren` and `scounteren`; the register's own
pointer stays inside its object; and the register reads back the bits the write has taken over. -/
theorem setCsrValue_law (ha : csrAddr addr = some a) (hout : ¬a.IsOutside)
    (hacc : h.isInvalidCsrAccess addr true = .ok false) (hset : h.setCsrValue addr v = .ok h') :
    (∀ addr' b, csrAddr addr' = some b → ¬b.IsOutside → ¬SameRegister addr addr' →
      (¬Gates a b → h'.value addr' = h.value addr') ∧
      ∀ x y, h.value addr' = .ok x → h'.value addr' = .ok y → x = y) ∧
    (∀ addr', csrAddr addr' = none → h'.value addr' = h.value addr') ∧
    (∀ p, registerMapping a = some p → p.InObject) ∧
    (a ≠ .mcycle → a ≠ .mtime → ∃ old, h.value addr = .ok old ∧
      h'.value addr = .ok ((v &&& h.writtenBits a v) ||| (old &&& ~~~h.writtenBits a v))) := by
  have hlt := addr_lt_of_accepted hacc
  obtain ⟨hcycle, htime⟩ := ne_of_lt hlt ha
  have hnamed : h.setNamed a v = .ok h' := by
    rw [← hset, setCsrValue, ha]
  have hc := changesOnly_setNamed hout htime hnamed
  refine ⟨fun addr' b hb hbout hview => ?_, fun addr' hnone => ?_, fun p hp => ?_, fun hmc hmt => ?_⟩
  · have hr : b.register ≠ a.register := by
      intro heq
      rw [SameRegister, ha, hb] at hview
      exact hview (congrArg some heq.symm)
    refine ⟨value_eq_of_not_gates hout htime hnamed hb hbout hr, fun x y hx hy => ?_⟩
    exact hc.value_unique hb hbout hr hx hy
  · have hval := @validate_setNamed _ _ _ _ addr' hout htime hnamed fun _ => by simp [hnone]
    simp only [value, getCsrValue, hval, hnone, raiseIllegal, hc.instr]
  · exact (inObject_iff hp).mpr hout
  · rw [value_of_valid (validate_of_lt hlt h) ha, value_of_valid (validate_of_lt hlt h') ha]
    exact readBack_setNamed hnamed ⟨hcycle, hmc⟩ ⟨htime, hmt⟩

/-! ### Concrete writes -/

/-- A hart in machine mode with the extensions `C`, `S` and `U`, and all other registers zero. -/
def machine : CsrFile :=
  { table := fun p => if p = ⟨.misa, 0⟩ then 0x8000000000140004 else 0
    prv := .machine
    instr := 0x18051073
    mtime := 0
    cycleCounterRaw := 0
    cycleCounterRawLast := 0
    cycleCounter := 0
    propClockCyclePeriod := 10000 }

/-- **`satp` keeps its mode.**  Mode 1 is within `SATP_MASK`, but is not taken over. -/
theorem not_readBack_satp :
    ¬∀ (h h' : CsrFile) (addr : BitVec 12) (a : CsrAddr) (v : BitVec 64), csrAddr addr = some a →
      h.isInvalidCsrAccess addr true = .ok false → h.setCsrValue addr v = .ok h' →
      ∃ old, h.value addr = .ok old ∧
        h'.value addr = .ok ((v &&& h.writeMask a) ||| (old &&& ~~~h.writeMask a)) := by
  intro hall
  obtain ⟨old, hold, hnew⟩ := hall machine (machine.writeSatp 0x1000000000000000) 0x180 .satp
    0x1000000000000000 (by decide) (by decide) rfl
  have hzero : machine.value 0x180 = .ok 0 := by decide
  obtain rfl := Except.ok.inj (hzero.symm.trans hold)
  exact absurd hnew (by decide)

theorem setCsrValue_law_mstatus :
    (machine.write .mstatus 0x1800 mstatusWriteMask).value 0x302 = machine.value 0x302 ∧
      ∃ old, machine.value 0x300 = .ok old ∧
        (machine.write .mstatus 0x1800 mstatusWriteMask).value 0x300 =
          .ok ((0x1800 &&& machine.writtenBits .mstatus 0x1800) |||
            (old &&& ~~~machine.writtenBits .mstatus 0x1800)) := by
  obtain ⟨hframe, -, -, hback⟩ := @setCsrValue_law .mstatus machine
    (machine.write .mstatus 0x1800 mstatusWriteMask) 0x1800 0x300 (by decide) (by decide) (by decide) rfl
  refine ⟨(hframe 0x302 .medeleg (by decide) (by decide) (by decide)).1 ?_,
    hback (by decide) (by decide)⟩
  rintro (⟨-, hb⟩ | ⟨hb | hb, -⟩)
  · cases hb
  · cases hb
  · cases hb

end CsrFile

end RiscvVp
