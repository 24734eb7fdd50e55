import RiscvVp.Cheri.Equiv.CapLoadFault
import RiscvVp.Cheri.Equiv.Monotone

/-!
# Load-reserved and store-conditional of data

Three forms of each instruction: through the capability that the mode selects, through `ddc`, and
through an explicit capability.  A load-reserved of `n` bytes should check the capability and the
alignment for `n` bytes and sign-extend `n` bytes of memory into its register (`LrOutcome`), and a
store-conditional should store the low bytes of its operand (`ScStores`).  Two slips break this: the
explicit form of the load-reserved passes the width one in all its four cases, and `SC_W` and `SC_D`
write the failure code to `rd` before they read `rs2`.  `lrSc_right_iff` says when they do not show.
-/

namespace RiscvVp.Cheri

/-! ### The checks -/

/-- The first check of `_do_cheri_checks` that a capability fails, but for the alignment. -/
def violation (isLoad : Bool) (auth : Capability) (addr : BitVec 64) (n : ℕ) : Option CapEx :=
  if !auth.tag then some .tagViolation
  else if auth.isSealed then some .sealViolation
  else if isLoad && !auth.permitLoad then some .permitLoadViolation
  else if !isLoad && !auth.permitStore then some .permitStoreViolation
  else if !auth.inCapBounds addr (BitVec.ofNat 64 n) then some .lengthViolation
  else none

section Checks

variable {δ : Type} {h : Hart δ}

/-- The checks fail at the first violation, and look at the alignment last. -/
theorem doCheriChecks_run'_eq (isLoad : Bool) (idx : BitVec 64) (auth : Capability)
    (addr : BitVec 64) (n : ℕ) :
    (Hart.doCheriChecks isLoad idx auth addr n).run' h =
      match violation isLoad auth addr n with
      | some e => (.error (.trap (capException e idx)), h)
      | none => (Hart.trapCheckAddrAlignment isLoad addr n).run' h := by
  unfold Hart.doCheriChecks violation
  cases auth.tag with
  | false => rfl
  | true =>
    cases auth.isSealed with
    | true => rfl
    | false =>
      cases isLoad with
      | true =>
        cases auth.permitLoad with
        | false => rfl
        | true => cases auth.inCapBounds addr (BitVec.ofNat 64 n) <;> rfl
      | false =>
        cases auth.permitStore with
        | false => rfl
        | true => cases auth.inCapBounds addr (BitVec.ofNat 64 n) <;> rfl

/-- A violation for one byte is one for more bytes. -/
theorem violation_of_byte {isLoad : Bool} {auth : Capability} {addr : BitVec 64} {n : Width}
    {e : CapEx} (hv : violation isLoad auth addr 1 = some e) :
    violation isLoad auth addr n.bytes = some e := by
  have hbounds : auth.inCapBounds addr (BitVec.ofNat 64 1) = false →
      auth.inCapBounds addr (BitVec.ofNat 64 n.bytes) = false := by
    intro h1
    have hle : (BitVec.ofNat 64 1).toNat ≤ (BitVec.ofNat 64 n.bytes).toNat := by
      cases n <;> decide
    by_contra hn
    rw [Bool.not_eq_false, Capability.inCapBounds_iff] at hn
    have : auth.inCapBounds addr (BitVec.ofNat 64 1) = true :=
      (auth.inCapBounds_iff _ _).2 ⟨hn.1, by omega⟩
    rw [this] at h1
    cases h1
  unfold violation at hv ⊢
  cases hb : auth.inCapBounds addr (BitVec.ofNat 64 1) with
  | false =>
    rw [hb] at hv
    rw [hbounds hb]
    exact hv
  | true =>
    -- an earlier check has failed, which does not look at the width
    rw [hb, Bool.not_true, if_neg Bool.false_ne_true] at hv
    split_ifs at hv ⊢
    all_goals exact hv

end Checks

/-! ### The instructions -/

/-- Where an instruction takes its authority from. -/
inductive AuthForm
  /-- what `get_cheri_mode_cap_addr` says -/
  | mode
  /-- the instructions `*_DDC` -/
  | ddc
  /-- the instructions `*_CAP` -/
  | cap
  deriving DecidableEq, Repr

/-- The instructions, by the form of the address and by the width in their names. -/
inductive LrSc
  | lr (f : AuthForm) (n : Width)
  | sc (f : AuthForm) (n : Width)
  deriving DecidableEq, Repr

/-- The case of `exec_steps` that an instruction is dispatched to. -/
def LrSc.instr : LrSc → MemInstr
  | lr .mode n => .loadReserved n
  | lr .ddc n => .loadReservedDdc n
  | lr .cap n => .loadReservedCap n
  | sc .mode n => .storeConditional n
  | sc .ddc n => .storeConditionalDdc n
  | sc .cap n => .storeConditionalCap n

section Right

variable {δ : Type} (p : Platform δ) (o : Operands) (s : Iss δ)

/-- The register that is named in a trap, the authorising capability and the address. -/
def AuthForm.access : AuthForm → BitVec 64 × Capability × BitVec 64
  | mode => s.getCheriModeCapAddr o.rs1 0
  | ddc => (cDdcIdx, s.ddc, (s.regs o.rs1).address)
  | cap => (BitVec.ofNat 64 o.rs1, s.regs o.rs1, (s.regs o.rs1).address)

/-- The hart with the bus locked and the reservation set. -/
def reserved (addr : BitVec 64) : Hart δ :=
  { s.hart with
    world := { s.hart.world with busLock := s.hart.world.busLock.lock p.hartId }
    lrAddr := addr }

/-- The registers after a value is written to `rd` and register zero is reset. -/
def written (v : BitVec 64) : Fin 32 → Capability :=
  Function.update (Function.update s.regs o.rd (Capability.ofInt v)) 0 (Capability.ofInt 0)

/-- What a load-reserved of `n` bytes is to do.  When the capability does not authorise an access to
`n` bytes or the address is not aligned to them it traps for that reason and changes nothing.
Otherwise it takes the reservation and loads `n` bytes, and what it loads is written to `rd`,
sign-extended; or the load fails. -/
def LrOutcome (n : Width) (a : BitVec 64 × Capability × BitVec 64)
    (x : Except Stop Unit × Iss δ) : Prop :=
  if violation true a.2.1 a.2.2 n.bytes = none ∧ a.2.2.toNat % n.bytes = 0 then
    match (Hart.loadData p a.2.2 n).run' (reserved p s a.2.2) with
    | (.ok v, h) =>
      x.1 = .ok () ∧ x.2.regs = written o s ((v.setWidth (8 * n.bytes)).signExtend 64) ∧
        x.2.hart.world = h.world
    | (.error e, h) => x.1 = .error e ∧ x.2.regs = s.regs ∧ x.2.hart.world = h.world
  else
    x.2 = s ∧
      ((∃ e, violation true a.2.1 a.2.2 n.bytes = some e ∧
          x.1 = .error (.trap (capException e a.1))) ∨
        (a.2.2.toNat % n.bytes ≠ 0 ∧ x.1 = .error (.trap ⟨.loadAddrMisaligned, a.2.2⟩)))

/-- A store-conditional that completes with the reservation held has stored the low bytes of the value
that `rs2` had before. -/
def ScStores (n : Width) (a : BitVec 64 × Capability × BitVec 64)
    (x : Except Stop Unit × Iss δ) : Prop :=
  x.1 = .ok () → s.hart.world.busLock.isLockedBy p.hartId = true → a.2.2 = s.hart.lrAddr →
    x.2.hart = ((Hart.storeData p a.2.2 n (s.regs o.rs2).address).run' s.hart).2

/-- A trap without the number of the register in its `mtval`. -/
def eraseIdx : Except Stop Unit → Except Stop Unit
  | .error (.trap ⟨.cheriFault, mtval⟩) => .error (.trap ⟨.cheriFault, mtval &&& 0x1F⟩)
  | r => r

/-- Two forms of an instruction agree: they end alike, but for the register that a trap names, with
the same registers and the same memory and devices. -/
def Agree (x y : Except Stop Unit × Iss δ) : Prop :=
  eraseIdx x.1 = eraseIdx y.1 ∧ x.2.regs = y.2.regs ∧ x.2.hart.world = y.2.hart.world

/-- What an instruction is to do, and that its explicit form agrees with the form through `ddc` when
the capability is `ddc`. -/
def LrSc.Right : LrSc → Prop
  | lr f n =>
    LrOutcome p o s n (f.access o s) ((Iss.exec p o (lr f n).instr).run' s) ∧
    (f = .cap → s.regs o.rs1 = s.ddc →
      Agree ((Iss.exec p o (lr .ddc n).instr).run' s) ((Iss.exec p o (lr .cap n).instr).run' s))
  | sc f n =>
    ScStores p o s n (f.access o s) ((Iss.exec p o (sc f n).instr).run' s) ∧
    (f = .cap → s.regs o.rs1 = s.ddc →
      Agree ((Iss.exec p o (sc .ddc n).instr).run' s) ((Iss.exec p o (sc .cap n).instr).run' s))

end Right

/-! ### What the code does -/

section Runs

variable {δ : Type} (p : Platform δ) (o : Operands) (s : Iss δ)

/-- A load-reserved as it is coded, with the load `op`. -/
def lrRun (op : LoadOp) (a : BitVec 64 × Capability × BitVec 64) : Except Stop Unit × Iss δ :=
  match violation true a.2.1 a.2.2 op.width.bytes with
  | some e => (.error (.trap (capException e a.1)), s)
  | none =>
    if a.2.2.toNat % op.width.bytes = 0 then
      match (Hart.loadData p a.2.2 op.width).run' (reserved p s a.2.2) with
      | (.ok v, h) => (.ok (), { s with
          hart := h
          regs := written o s (op.cast v)
          lrScCounter := if s.lrScCounter = 0 then 17 else s.lrScCounter })
      | (.error e, h) => (.error e, { s with hart := h })
    else (.error (.trap ⟨.loadAddrMisaligned, a.2.2⟩), s)

/-- A store-conditional as it is coded, which stores `value` and writes its result to `dst`. -/
def scRun (dst : Fin 32) (value : BitVec 64) (n : Width) (a : BitVec 64 × Capability × BitVec 64) :
    Except Stop Unit × Iss δ :=
  let done := fun (h : Hart δ) (success : Bool) => ({ s with
    hart := h
    regs := Function.update (Function.update s.regs dst (Iss.scResult success)) 0 (Capability.ofInt 0)
    lrScCounter := 0 } : Iss δ)
  match violation false a.2.1 a.2.2 n.bytes with
  | some e => (.error (.trap (capException e a.1)), s)
  | none =>
    if a.2.2.toNat % n.bytes = 0 then
      if s.hart.world.busLock.isLockedBy p.hartId then
        if a.2.2 = s.hart.lrAddr then
          match (Hart.storeData p a.2.2 n value).run' s.hart with
          | (.ok _, h) => (.ok (), done h true)
          | (.error e, h) => (.error e, { s with hart := h })
        else (.ok (), done { s.hart with world := s.hart.world.unlock p } false)
      else (.ok (), done s.hart false)
    else (.error (.trap ⟨.storeAmoAddrMisaligned, a.2.2⟩), s)

end Runs

section RunEqs

variable {δ : Type} {p : Platform δ} {o : Operands} {s : Iss δ}

/-- A computation that begins with a check of the alignment. -/
theorem alignment_bind_run' {isLoad : Bool} {addr : BitVec 64} {n : ℕ} {β : Type}
    (f : Unit → IssM δ β) :
    (Iss.mem (Hart.trapCheckAddrAlignment isLoad addr n) >>= f).run' s =
      if addr.toNat % n = 0 then (f ()).run' s
      else (.error (.trap ⟨if isLoad then .loadAddrMisaligned else .storeAmoAddrMisaligned, addr⟩), s) := by
  by_cases hal : addr.toNat % n = 0
  · rw [if_pos hal]
    exact Iss.mem_bind_of_ok (a := ()) (Hart.trapCheckAddrAlignment_eq_ok.2 ⟨hal, rfl⟩)
  · rw [if_neg hal]
    refine Iss.mem_bind_of_error (h := s.hart) ?_
    rw [Hart.trapCheckAddrAlignment, Hart.check, if_neg (by simpa using hal)]
    rfl

/-- Only the outcome of a call of the memory interface matters. -/
theorem mem_bind_congr {α β : Type} {x y : HartM δ α} (h : x.run' s.hart = y.run' s.hart)
    (f : α → IssM δ β) : (Iss.mem x >>= f).run' s = (Iss.mem y >>= f).run' s := by
  have hmem : (Iss.mem x).run' s = (Iss.mem y).run' s := by
    show ((x.run' s.hart).1, { s with hart := (x.run' s.hart).2 })
      = ((y.run' s.hart).1, { s with hart := (y.run' s.hart).2 })
    rw [h]
  rw [CheriM.run'_bind, CheriM.run'_bind, hmem]

/-- A call of the memory interface that begins with the checks. -/
theorem checked_bind_run' {isLoad : Bool} {idx : BitVec 64} {auth : Capability} {addr : BitVec 64}
    {n : ℕ} {α β : Type} (x : Unit → HartM δ α) (f : α → IssM δ β) :
    (Iss.mem (Hart.doCheriChecks isLoad idx auth addr n >>= x) >>= f).run' s =
      match violation isLoad auth addr n with
      | some e => (.error (.trap (capException e idx)), s)
      | none =>
        if addr.toNat % n = 0 then (Iss.mem (x ()) >>= f).run' s
        else (.error (.trap
          ⟨if isLoad then .loadAddrMisaligned else .storeAmoAddrMisaligned, addr⟩), s) := by
  have hchecks := doCheriChecks_run'_eq (h := s.hart) isLoad idx auth addr n
  cases hv : violation isLoad auth addr n with
  | some e =>
    rw [hv] at hchecks
    refine Iss.mem_bind_of_error (h := s.hart) ?_
    rw [CheriM.run'_bind, hchecks]
  | none =>
    rw [hv] at hchecks
    dsimp only at hchecks ⊢
    by_cases hal : addr.toNat % n = 0
    · rw [if_pos hal]
      refine mem_bind_congr ?_ f
      rw [CheriM.run'_bind, hchecks, Hart.trapCheckAddrAlignment_eq_ok.2 ⟨hal, rfl⟩]
    · rw [if_neg hal]
      refine Iss.mem_bind_of_error (h := s.hart) ?_
      rw [CheriM.run'_bind, hchecks, Hart.trapCheckAddrAlignment, Hart.check,
        if_neg (by simpa using hal)]
      rfl

theorem afterLr_run' : (Iss.afterLr : IssM δ Unit).run' s
    = (.ok (), { s with lrScCounter := if s.lrScCounter = 0 then 17 else s.lrScCounter }) := by
  show (Except.ok (), if s.lrScCounter = 0 then { s with lrScCounter := 17 } else s) = _
  by_cases hc : s.lrScCounter = 0
  · rw [if_pos hc, if_pos hc]
  · rw [if_neg hc, if_neg hc]

/-- A load-reserved ends with its outcome in the register. -/
theorem lrInstr_run' (op : LoadOp) (a : BitVec 64 × Capability × BitVec 64) :
    (Iss.lrInstr o (Hart.atomicLoadReservedDataViaCap p a.1 a.2.1 a.2.2 op)).run' s
      = lrRun p o s op a := by
  rw [Iss.lrInstr, Hart.atomicLoadReservedDataViaCap, checked_bind_run', lrRun]
  cases violation true a.2.1 a.2.2 op.width.bytes with
  | some e => rfl
  | none =>
    dsimp only
    refine ite_congr rfl (fun _ => ?_) fun _ => rfl
    -- the bus is locked and the address noted before the load
    have hload : (Hart.lock p >>= fun _ => Hart.setLrAddr a.2.2 >>= fun _ =>
          Hart.load p op a.2.2).run' s.hart
        = (Hart.loadData p a.2.2 op.width >>= fun v => pure (op.cast v)).run'
          (reserved p s a.2.2) := rfl
    replace hload := hload.trans (CheriM.run'_bind _ _ _)
    rcases hl : (Hart.loadData p a.2.2 op.width).run' (reserved p s a.2.2) with ⟨e | v, h⟩
    · rw [hl] at hload
      exact Iss.mem_bind_of_error hload
    · rw [hl] at hload
      refine (Iss.mem_bind_of_ok hload).trans ?_
      show (Iss.afterLr >>= fun _ => Iss.resetRegZero).run' { s with
        hart := h, regs := Function.update s.regs o.rd (Capability.ofInt (op.cast v)) } = _
      rw [CheriM.run'_bind, afterLr_run']
      rfl

/-- `_atomic_store_conditional_data` in its three cases: no lock, another address than the reserved one, or
the store. -/
theorem storeConditional_run' {h : Hart δ} (addr : BitVec 64) (store : HartM δ Unit) :
    (Hart.storeConditional p addr store).run' h =
      if h.world.busLock.isLockedBy p.hartId then
        if addr = h.lrAddr then (store >>= fun _ => pure true).run' h
        else (.ok false, { h with world := h.world.unlock p })
      else (.ok false, h) := by
  have hlocked : (Hart.isLocked p).run' h = (.ok (h.world.busLock.isLockedBy p.hartId), h) := rfl
  have haddr : (Hart.getLrAddr : HartM δ (BitVec 64)).run' h = (.ok h.lrAddr, h) := rfl
  rw [Hart.storeConditional, CheriM.run'_bind, hlocked]
  dsimp only
  cases h.world.busLock.isLockedBy p.hartId with
  | false => rfl
  | true =>
    rw [if_pos rfl, if_pos rfl, CheriM.run'_bind, haddr]
    dsimp only
    by_cases heq : addr = h.lrAddr
    · rw [if_pos heq, if_pos heq]
    · rw [if_neg heq, if_neg heq]
      rfl

/-- A store-conditional stores if the reservation holds. -/
theorem scInstr_run' (dst : Fin 32) (rs2 : Capability) (n : Width)
    (a : BitVec 64 × Capability × BitVec 64) :
    (Iss.scInstr dst (Hart.atomicStoreConditionalDataViaCap p rs2 a.1 a.2.1 a.2.2 n)).run' s
      = scRun p s dst rs2.address n a := by
  rw [Iss.scInstr, Hart.atomicStoreConditionalDataViaCap, checked_bind_run', scRun]
  cases violation false a.2.1 a.2.2 n.bytes with
  | some e => rfl
  | none =>
    dsimp only
    refine ite_congr rfl (fun _ => ?_) fun _ => rfl
    have hsc := storeConditional_run' (p := p) (h := s.hart) a.2.2
      (Hart.storeData p a.2.2 n rs2.address)
    cases hlock : s.hart.world.busLock.isLockedBy p.hartId with
    | false =>
      rw [hlock, if_neg Bool.false_ne_true] at hsc
      exact Iss.mem_bind_of_ok hsc
    | true =>
      rw [hlock, if_pos rfl] at hsc
      rw [if_pos rfl]
      by_cases haddr : a.2.2 = s.hart.lrAddr
      · rw [if_pos haddr, CheriM.run'_bind] at hsc
        rw [if_pos haddr]
        rcases hst : (Hart.storeData p a.2.2 n rs2.address).run' s.hart with ⟨e | u, h⟩
        · rw [hst] at hsc
          exact Iss.mem_bind_of_error hsc
        · rw [hst] at hsc
          exact Iss.mem_bind_of_ok hsc
      · rw [if_neg haddr] at hsc
        rw [if_neg haddr]
        exact Iss.mem_bind_of_ok hsc

/-- The load-reserved instructions.  Only the form without a suffix checks the alignment, and only that of a
word or double word; the `CAP` forms load a byte. -/
theorem exec_lr_run' (f : AuthForm) (n : Width) :
    (Iss.exec p o (LrSc.lr f n).instr).run' s =
      match f with
      | .mode =>
        if (n = .word ∨ n = .double) ∧ ((AuthForm.mode.access o s).2.2.toNat % n.bytes ≠ 0) then
          (.error (.trap ⟨.loadAddrMisaligned, (AuthForm.mode.access o s).2.2⟩), s)
        else lrRun p o s (.signed n) (AuthForm.mode.access o s)
      | .ddc => lrRun p o s (.signed n) (AuthForm.ddc.access o s)
      | .cap => lrRun p o s .byte (AuthForm.cap.access o s) := by
  cases f with
  | ddc =>
    rw [LrSc.instr, Iss.exec, Iss.get_bind_run']
    exact lrInstr_run' _ (AuthForm.ddc.access o s)
  | cap =>
    rw [LrSc.instr, Iss.exec, Iss.get_bind_run']
    exact lrInstr_run' _ (AuthForm.cap.access o s)
  | mode =>
    rw [LrSc.instr, Iss.exec, Iss.get_bind_run']
    dsimp only
    by_cases hn : n = .word ∨ n = .double
    · simp only [hn, true_and, ne_eq, ite_not, if_true]
      refine (alignment_bind_run' _).trans ?_
      refine ite_congr rfl (fun _ => ?_) fun _ => rfl
      exact lrInstr_run' _ (AuthForm.mode.access o s)
    · simp only [hn, false_and, if_false]
      exact lrInstr_run' _ (AuthForm.mode.access o s)

/-- The store-conditional instructions.  `SC_W` and `SC_D` write `rd` before they try the store, the others
after it. -/
theorem exec_sc_run' (f : AuthForm) (n : Width) :
    (Iss.exec p o (LrSc.sc f n).instr).run' s =
      match f with
      | .mode =>
        if n = .word ∨ n = .double then
          if (AuthForm.mode.access o s).2.2.toNat % n.bytes = 0 then
            scRun p { s with regs := Function.update s.regs o.rd (Capability.ofInt 1) } o.rd
              (if o.rd = o.rs2 then 1 else (s.regs o.rs2).address) n (AuthForm.mode.access o s)
          else (.error (.trap ⟨.storeAmoAddrMisaligned, (AuthForm.mode.access o s).2.2⟩), s)
        else scRun p s o.rd (s.regs o.rs2).address n (AuthForm.mode.access o s)
      | .ddc => scRun p s o.rs2 (s.regs o.rs2).address n (AuthForm.ddc.access o s)
      | .cap => scRun p s o.rs2 (s.regs o.rs2).address n (AuthForm.cap.access o s) := by
  cases f with
  | ddc =>
    rw [LrSc.instr, Iss.exec, Iss.get_bind_run']
    exact scInstr_run' _ _ _ (AuthForm.ddc.access o s)
  | cap =>
    rw [LrSc.instr, Iss.exec, Iss.get_bind_run']
    exact scInstr_run' _ _ _ (AuthForm.cap.access o s)
  | mode =>
    rw [LrSc.instr, Iss.exec, Iss.get_bind_run']
    dsimp only
    by_cases hn : n = .word ∨ n = .double
    · simp only [if_pos hn]
      refine (alignment_bind_run' _).trans ?_
      refine ite_congr rfl (fun _ => ?_) fun _ => rfl
      -- `rs2` is read after the failure code is written to `rd`
      have hrs2 : (Function.update s.regs o.rd (Capability.ofInt 1) o.rs2).address
          = if o.rd = o.rs2 then 1 else (s.regs o.rs2).address := by
        by_cases heq : o.rd = o.rs2
        · rw [heq, Function.update_self, if_pos rfl]
          rfl
        · rw [Function.update_of_ne (Ne.symm heq), if_neg heq]
      rw [← hrs2, CheriM.run'_bind, (Iss.setReg_eq_ok (u := ())).2 rfl]
      dsimp only
      rw [Iss.get_bind_run']
      exact scInstr_run' _ _ _ (AuthForm.mode.access o s)
    · simp only [if_neg hn]
      rw [Iss.get_bind_run']
      exact scInstr_run' _ _ _ (AuthForm.mode.access o s)

end RunEqs

/-! ### Where the slips do not show -/

section Meets

variable {δ : Type} (p : Platform δ) (o : Operands) (s : Iss δ)

/-- Loading one byte does the same as loading `n` bytes: both fail for the same reason, or both give
the same value when it is sign-extended, unless register zero is the destination. -/
def SameLoad (n : Width) (addr : BitVec 64) : Prop :=
  match (Hart.loadData p addr .byte).run' (reserved p s addr),
    (Hart.loadData p addr n).run' (reserved p s addr) with
  | (.ok v, h), (.ok v', h') =>
    (o.rd = 0 ∨ (v.setWidth 8).signExtend 64 = (v'.setWidth (8 * n.bytes)).signExtend 64) ∧
      h.world = h'.world
  | (.error e, h), (.error e', h') => e = e' ∧ h.world = h'.world
  | _, _ => False

/-- A store-conditional passes the checks and holds the reservation. -/
def Reaches (n : Width) (a : BitVec 64 × Capability × BitVec 64) : Prop :=
  violation false a.2.1 a.2.2 n.bytes = none ∧ a.2.2.toNat % n.bytes = 0 ∧
    s.hart.world.busLock.isLockedBy p.hartId = true ∧ a.2.2 = s.hart.lrAddr

/-- When an instruction does what it is to do.  The explicit form of a load-reserved of more than a byte:
when already an access to one byte is not authorised, or the access to `n` bytes is authorised, aligned
and gives the same as one byte.  `SC_W` and `SC_D`: when `rd` is not `rs2`, nothing is stored, or storing
one is the same as storing `rs2`. -/
def LrSc.Meets : LrSc → Prop
  | lr .cap n =>
    let a := AuthForm.cap.access o s
    n = .byte ∨ violation true a.2.1 a.2.2 1 ≠ none ∨
      (violation true a.2.1 a.2.2 n.bytes = none ∧ a.2.2.toNat % n.bytes = 0 ∧ SameLoad p o s n a.2.2)
  | sc .mode n =>
    let a := AuthForm.mode.access o s
    n = .byte ∨ n = .half ∨ o.rd ≠ o.rs2 ∨
      (Reaches p s n a → ∀ h, (Hart.storeData p a.2.2 n 1).run' s.hart = (.ok (), h) →
        h = ((Hart.storeData p a.2.2 n (s.regs o.rs2).address).run' s.hart).2)
  | _ => True

end Meets

section Iff

variable {δ : Type} {p : Platform δ} {o : Operands} {s : Iss δ}

/-- Different values leave different registers, unless they are written to register zero. -/
theorem written_inj {u v : BitVec 64} : written o s u = written o s v ↔ o.rd = 0 ∨ u = v := by
  constructor
  · intro h
    by_cases hrd : o.rd = 0
    · exact .inl hrd
    · refine .inr ?_
      have := congrFun h o.rd
      simp only [written, Function.update_of_ne hrd, Function.update_self] at this
      exact congrArg Capability.address this
  · rintro (hrd | rfl)
    · simp only [written, hrd, Function.update_idem]
    · rfl

/-- A load-reserved as it is coded is right for the width that it loads. -/
theorem lrOutcome_lrRun (n : Width) (a : BitVec 64 × Capability × BitVec 64) :
    LrOutcome p o s n a (lrRun p o s (.signed n) a) := by
  unfold LrOutcome lrRun
  rw [LoadOp.width_signed]
  cases hv : violation true a.2.1 a.2.2 n.bytes with
  | some e =>
    rw [if_neg (by simp)]
    exact ⟨rfl, .inl ⟨e, rfl, rfl⟩⟩
  | none =>
    by_cases hal : a.2.2.toNat % n.bytes = 0
    · rw [if_pos ⟨rfl, hal⟩]
      dsimp only
      rw [if_pos hal]
      rcases (Hart.loadData p a.2.2 n).run' (reserved p s a.2.2) with ⟨e | v, h⟩
      · exact ⟨rfl, rfl, rfl⟩
      · refine ⟨rfl, ?_, rfl⟩
        dsimp only
        rw [LoadOp.cast_signed]
    · rw [if_neg (fun h => hal h.2)]
      dsimp only
      rw [if_neg hal]
      exact ⟨rfl, .inr ⟨hal, rfl⟩⟩

/-- The low bits of `mtval` do not depend on the register. -/
theorem eraseIdx_capException (e : CapEx) (i j : BitVec 64) :
    eraseIdx (.error (.trap (capException e i))) = eraseIdx (.error (.trap (capException e j))) := by
  have hlow : ∀ i : BitVec 64, (i <<< 5 + e.code) &&& 0x1F = e.code := by
    intro i
    have hcode : e.code.toNat < 32 := by cases e <;> decide
    apply BitVec.eq_of_toNat_eq
    rw [BitVec.toNat_and, show (0x1F : BitVec 64).toNat = 2 ^ 5 - 1 from rfl,
      Nat.and_two_pow_sub_one_eq_mod, BitVec.toNat_add, BitVec.toNat_shiftLeft, Nat.shiftLeft_eq]
    omega
  simp only [eraseIdx, capException, hlow]

/-- The explicit form when one byte is authorised: it loads one byte. -/
theorem lrRun_byte {a : BitVec 64 × Capability × BitVec 64}
    (hv : violation true a.2.1 a.2.2 1 = none) :
    lrRun p o s .byte a =
      match (Hart.loadData p a.2.2 .byte).run' (reserved p s a.2.2) with
      | (.ok v, h) => (.ok (), { s with
          hart := h
          regs := written o s ((v.setWidth 8).signExtend 64)
          lrScCounter := if s.lrScCounter = 0 then 17 else s.lrScCounter })
      | (.error e, h) => (.error e, { s with hart := h }) := by
  unfold lrRun
  rw [show LoadOp.byte.width.bytes = 1 from rfl, hv]
  dsimp only
  rw [if_pos (Nat.mod_one _)]
  rfl

/-- A load-reserved of one byte is a load-reserved of `n` bytes only where the width does not show. -/
theorem lrOutcome_byte_iff (n : Width) (a : BitVec 64 × Capability × BitVec 64) :
    LrOutcome p o s n a (lrRun p o s .byte a) ↔
      n = .byte ∨ violation true a.2.1 a.2.2 1 ≠ none ∨
        (violation true a.2.1 a.2.2 n.bytes = none ∧ a.2.2.toNat % n.bytes = 0 ∧
          SameLoad p o s n a.2.2) := by
  cases hv : violation true a.2.1 a.2.2 1 with
  | some e =>
    simp only [ne_eq, reduceCtorEq, not_false_eq_true, true_or, or_true, iff_true]
    have hn : violation true a.2.1 a.2.2 n.bytes = some e := violation_of_byte hv
    unfold LrOutcome lrRun
    rw [if_neg (by simp [hn]), show LoadOp.byte.width.bytes = 1 from rfl, hv]
    exact ⟨rfl, .inl ⟨e, hn, rfl⟩⟩
  | none =>
    rw [lrRun_byte hv]
    simp only [ne_eq, not_true_eq_false, false_or]
    have hthrows := throws_loadData (p := p) a.2.2 .byte (reserved p s a.2.2)
    unfold LrOutcome
    by_cases hall : violation true a.2.1 a.2.2 n.bytes = none ∧ a.2.2.toNat % n.bytes = 0
    · rw [if_pos hall]
      have hsame : n = .byte → SameLoad p o s n a.2.2 := by
        rintro rfl
        unfold SameLoad
        rcases (Hart.loadData p a.2.2 .byte).run' (reserved p s a.2.2) with ⟨e | v, h⟩
        · exact ⟨rfl, rfl⟩
        · exact ⟨.inr rfl, rfl⟩
      have hgoal : (n = .byte ∨ violation true a.2.1 a.2.2 n.bytes = none ∧
          a.2.2.toNat % n.bytes = 0 ∧ SameLoad p o s n a.2.2) ↔ SameLoad p o s n a.2.2 :=
        ⟨fun h => h.elim hsame fun h => h.2.2, fun h => .inr ⟨hall.1, hall.2, h⟩⟩
      rw [hgoal]
      unfold SameLoad
      rcases (Hart.loadData p a.2.2 .byte).run' (reserved p s a.2.2) with ⟨e | v, h⟩
      · rcases (Hart.loadData p a.2.2 n).run' (reserved p s a.2.2) with ⟨e' | v', h'⟩
        · simp
        · simp
      · rcases (Hart.loadData p a.2.2 n).run' (reserved p s a.2.2) with ⟨e' | v', h'⟩
        · simp
        · simp [written_inj]
    · rw [if_neg hall]
      -- the code goes on to the load, which does not fail for a reason of the checks
      constructor
      · rintro ⟨-, ⟨e, -, hx⟩ | ⟨-, hx⟩⟩
        · rcases hl : (Hart.loadData p a.2.2 .byte).run' (reserved p s a.2.2) with ⟨e' | v, h⟩
          · rw [hl] at hx
            cases hx
            exact absurd (by simp [capException]) (hthrows _ (congrArg Prod.fst hl) _ rfl)
          · rw [hl] at hx
            cases hx
        · rcases hl : (Hart.loadData p a.2.2 .byte).run' (reserved p s a.2.2) with ⟨e' | v, h⟩
          · rw [hl] at hx
            cases hx
            exact absurd (by simp) (hthrows _ (congrArg Prod.fst hl) _ rfl)
          · rw [hl] at hx
            cases hx
      · rintro (rfl | ⟨h1, h2, -⟩)
        · exact absurd ⟨hv, Nat.mod_one _⟩ hall
        · exact absurd ⟨h1, h2⟩ hall

/-- The register that a trap names is the only difference between two forms with one authority. -/
theorem agree_lrRun {a b : BitVec 64 × Capability × BitVec 64} (hab : a.2 = b.2) (op : LoadOp) :
    Agree (lrRun p o s op a) (lrRun p o s op b) := by
  unfold lrRun
  rw [hab]
  cases violation true b.2.1 b.2.2 op.width.bytes with
  | some e => exact ⟨eraseIdx_capException e _ _, rfl, rfl⟩
  | none => exact ⟨rfl, rfl, rfl⟩

theorem agree_scRun {a b : BitVec 64 × Capability × BitVec 64} (hab : a.2 = b.2) (dst : Fin 32)
    (value : BitVec 64) (n : Width) : Agree (scRun p s dst value n a) (scRun p s dst value n b) := by
  unfold scRun
  rw [hab]
  cases violation false b.2.1 b.2.2 n.bytes with
  | some e => exact ⟨eraseIdx_capException e _ _, rfl, rfl⟩
  | none => exact ⟨rfl, rfl, rfl⟩

/-- Two load-reserved of an authorised and aligned access that are right agree. -/
theorem LrOutcome.agree {n : Width} {a b : BitVec 64 × Capability × BitVec 64}
    {x y : Except Stop Unit × Iss δ} (hab : a.2 = b.2)
    (hall : violation true b.2.1 b.2.2 n.bytes = none ∧ b.2.2.toNat % n.bytes = 0)
    (hx : LrOutcome p o s n a x) (hy : LrOutcome p o s n b y) : Agree x y := by
  unfold LrOutcome at hx hy
  rw [hab, if_pos hall] at hx
  rw [if_pos hall] at hy
  rcases hl : (Hart.loadData p b.2.2 n).run' (reserved p s b.2.2) with ⟨e | v, h⟩
  · rw [hl] at hx hy
    exact ⟨by rw [hx.1, hy.1], hx.2.1.trans hy.2.1.symm, hx.2.2.trans hy.2.2.symm⟩
  · rw [hl] at hx hy
    exact ⟨by rw [hx.1, hy.1], hx.2.1.trans hy.2.1.symm, hx.2.2.trans hy.2.2.symm⟩

/-- A store-conditional that completes with the reservation held has stored. -/
theorem scRun_eq_ok {dst : Fin 32} {value : BitVec 64} {n : Width}
    {a : BitVec 64 × Capability × BitVec 64}
    (hlock : s.hart.world.busLock.isLockedBy p.hartId = true) (haddr : a.2.2 = s.hart.lrAddr)
    (hok : (scRun p s dst value n a).1 = .ok ()) :
    Reaches p s n a ∧ (Hart.storeData p a.2.2 n value).run' s.hart
      = (.ok (), (scRun p s dst value n a).2.hart) := by
  unfold scRun at hok ⊢
  cases hv : violation false a.2.1 a.2.2 n.bytes with
  | some e =>
    rw [hv] at hok
    cases hok
  | none =>
    rw [hv] at hok
    dsimp only at hok ⊢
    by_cases hal : a.2.2.toNat % n.bytes = 0
    · rw [if_pos hal, if_pos hlock, if_pos haddr] at hok ⊢
      refine ⟨⟨hv, hal, hlock, haddr⟩, ?_⟩
      rcases hst : (Hart.storeData p a.2.2 n value).run' s.hart with ⟨e | u, h⟩
      · rw [hst] at hok
        cases hok
      · rfl
    · rw [if_neg hal] at hok
      cases hok

/-- A store-conditional that passes the checks and holds the reservation stores. -/
theorem scRun_of_reaches (dst : Fin 32) {value : BitVec 64} {n : Width}
    {a : BitVec 64 × Capability × BitVec 64} {h : Hart δ} (hr : Reaches p s n a)
    (hst : (Hart.storeData p a.2.2 n value).run' s.hart = (.ok (), h)) :
    (scRun p s dst value n a).1 = .ok () ∧ (scRun p s dst value n a).2.hart = h := by
  obtain ⟨hv, hal, hlock, haddr⟩ := hr
  unfold scRun
  rw [hv]
  dsimp only
  rw [if_pos hal, if_pos hlock, if_pos haddr, hst]
  exact ⟨rfl, rfl⟩

/-- A store-conditional that reads `rs2` first is right. -/
theorem scStores_scRun (dst : Fin 32) (n : Width) (a : BitVec 64 × Capability × BitVec 64) :
    ScStores p o s n a (scRun p s dst (s.regs o.rs2).address n a) := by
  intro hok hlock haddr
  rw [(scRun_eq_ok hlock haddr hok).2]

/-- `SC_W` and `SC_D` store what they should exactly if the state before them meets the condition of their
form. -/
theorem scStores_mode_iff {n : Width} (hn : n = .word ∨ n = .double) :
    ScStores p o s n (AuthForm.mode.access o s) ((Iss.exec p o (LrSc.sc .mode n).instr).run' s) ↔
      (LrSc.sc .mode n).Meets p o s := by
  have hbytes : n ≠ .byte ∧ n ≠ .half := by
    rcases hn with rfl | rfl
    · exact ⟨nofun, nofun⟩
    · exact ⟨nofun, nofun⟩
  rw [exec_sc_run']
  dsimp only [LrSc.Meets]
  simp only [if_pos hn, hbytes.1, hbytes.2, false_or]
  generalize AuthForm.mode.access o s = a
  by_cases hal : a.2.2.toNat % n.bytes = 0
  · rw [if_pos hal]
    by_cases hrd : o.rd = o.rs2
    · simp only [hrd, if_true, ne_eq, not_true_eq_false, false_or]
      constructor
      · intro hsc hr h hst
        obtain ⟨hok, hhart⟩ := scRun_of_reaches (s := { s with
          regs := Function.update s.regs o.rs2 (Capability.ofInt 1) }) o.rs2 hr hst
        rw [← hhart]
        exact hsc hok hr.2.2.1 hr.2.2.2
      · intro hsame hok hlock haddr
        obtain ⟨hr, hst⟩ := scRun_eq_ok (s := { s with
          regs := Function.update s.regs o.rs2 (Capability.ofInt 1) }) hlock haddr hok
        exact hsame hr _ hst
    · simp only [hrd, if_false, ne_eq, not_false_eq_true, true_or, iff_true]
      intro hok hlock haddr
      exact congrArg Prod.snd (scRun_eq_ok (s := { s with
        regs := Function.update s.regs o.rd (Capability.ofInt 1) }) hlock haddr hok).2.symm
  · rw [if_neg hal]
    refine iff_of_true (fun hok => nomatch hok) (.inr fun hr => absurd hr.2.1 hal)

/-- **Widths and operands of load-reserved and store-conditional**: an instruction does what it is to do
exactly where the two slips do not show. -/
theorem lrSc_right_iff (p : Platform δ) (o : Operands) (s : Iss δ) (i : LrSc) :
    i.Right p o s ↔ i.Meets p o s := by
  match i with
  | .lr .mode n =>
    refine iff_of_true ⟨?_, nofun⟩ trivial
    rw [exec_lr_run']
    dsimp only
    split_ifs with hmis
    · unfold LrOutcome
      rw [if_neg fun h => hmis.2 h.2]
      exact ⟨rfl, .inr ⟨hmis.2, rfl⟩⟩
    · exact lrOutcome_lrRun n _
  | .lr .ddc n =>
    refine iff_of_true ⟨?_, nofun⟩ trivial
    rw [exec_lr_run']
    exact lrOutcome_lrRun n _
  | .lr .cap n =>
    -- `LR_*_CAP` hands over the width of a byte, `LR_*_DDC` its own
    have hiff := lrOutcome_byte_iff (p := p) (o := o) (s := s) n (AuthForm.cap.access o s)
    rw [LrSc.Right, exec_lr_run', exec_lr_run']
    refine ⟨fun h => hiff.1 h.1, fun hmeets => ⟨hiff.2 hmeets, fun _ hddc => ?_⟩⟩
    have hab : (AuthForm.ddc.access o s).2 = (AuthForm.cap.access o s).2 := by
      simp only [AuthForm.access, hddc]
    rcases hmeets with rfl | hbyte | hall
    · exact agree_lrRun hab _
    · -- both forms stop at the violation for one byte
      obtain ⟨e, he⟩ := Option.ne_none_iff_exists'.1 hbyte
      have hn : violation true (AuthForm.ddc.access o s).2.1 (AuthForm.ddc.access o s).2.2
          (LoadOp.signed n).width.bytes = some e := by
        rw [LoadOp.width_signed, hab]
        exact violation_of_byte he
      simp only [lrRun, hn]
      rw [show LoadOp.byte.width.bytes = 1 from rfl, he]
      exact ⟨eraseIdx_capException e _ _, rfl, rfl⟩
    · exact LrOutcome.agree hab ⟨hall.1, hall.2.1⟩ (lrOutcome_lrRun n _) (hiff.2 (.inr (.inr hall)))
  | .sc .mode n =>
    simp only [LrSc.Right, reduceCtorEq, false_imp_iff, and_true]
    -- SC_W and SC_D read the value to be stored after they have written the destination
    by_cases hn : n = .word ∨ n = .double
    · exact scStores_mode_iff hn
    · have hbytes : n = .byte ∨ n = .half := by
        cases n <;> simp_all
      refine iff_of_true ?_ (hbytes.imp_right .inl)
      rw [exec_sc_run']
      dsimp only
      rw [if_neg hn]
      exact scStores_scRun _ _ _
  | .sc .ddc n =>
    refine iff_of_true ⟨?_, nofun⟩ trivial
    rw [exec_sc_run']
    exact scStores_scRun _ _ _
  | .sc .cap n =>
    refine iff_of_true ?_ trivial
    rw [LrSc.Right, exec_sc_run', exec_sc_run']
    refine ⟨scStores_scRun _ _ _, fun _ hddc => agree_scRun ?_ _ _ _⟩
    simp only [AuthForm.access, hddc]

end Iff

/-! ### Where they show -/

namespace LrScSlips

open CapLoad.NoLoadCap (platform)

/-- `rd` and `rs2` are `x5`, `rs1` is `x6`. -/
def operands : Operands := ⟨0, 5, 6, 5, 0, 0, true⟩

/-- The default capability with the given address in `x6`, seven in the other registers, the default
capability in `ddc`, and the reservation at that address. -/
def start (addr : BitVec 64) : Iss Unit :=
  { CapLoad.NoLoadCap.start with
    hart := { CapLoad.NoLoadCap.start.hart with
      world := { CapLoad.NoLoadCap.start.hart.world with
        busLock := CapLoad.NoLoadCap.start.hart.world.busLock.lock platform.hartId }
      lrAddr := addr }
    regs := fun i => if i = 6 then { cDefaultCap with address := addr } else Capability.ofInt 7
    ddc := cDefaultCap }

end LrScSlips

open LrScSlips in
open CapLoad.NoLoadCap (platform) in
/-- `LR_W_CAP` loads from an address that is not aligned to four bytes, and `SC_D` with `rd` and `rs2`
the same register, which holds seven, stores one. -/
theorem not_lrSc_right :
    ((Iss.exec platform operands (LrSc.lr .cap .word).instr).run' (start 1)).1 = .ok () ∧
    ¬(LrSc.lr .cap .word).Right platform operands (start 1) ∧
    ((Iss.exec platform operands (LrSc.sc .mode .double).instr).run' (start 0)).2.hart.world.mem.data 0
      = 1 ∧
    ¬(LrSc.sc .mode .double).Right platform operands (start 0) := by
  have hlr : ((Iss.exec platform operands (LrSc.lr .cap .word).instr).run' (start 1)).1 = .ok () := by
    rfl
  have hsc : ((Iss.exec platform operands (LrSc.sc .mode .double).instr).run' (start 0)).1
      = .ok () := by
    rfl
  have hone : ((Iss.exec platform operands (LrSc.sc .mode .double).instr).run'
      (start 0)).2.hart.world.mem.data 0 = 1 := by
    decide
  have hseven : ((Hart.storeData platform 0 .double 7).run' (start 0).hart).2.world.mem.data 0 = 7 := by
    decide
  refine ⟨hlr, ?_, hone, ?_⟩
  · rintro ⟨hout, -⟩
    unfold LrOutcome at hout
    rw [if_neg fun h => absurd h.2 (by decide)] at hout
    obtain ⟨-, ⟨e, -, hx⟩ | ⟨-, hx⟩⟩ := hout
    · exact nomatch hlr.symm.trans hx
    · exact nomatch hlr.symm.trans hx
  · rintro ⟨hstores, -⟩
    have h := congrArg (fun h : Hart Unit => h.world.mem.data 0) (hstores hsc rfl rfl)
    exact absurd (hone.symm.trans (h.trans hseven)) (by decide)

end RiscvVp.Cheri
