import RiscvVp.Cheri.Equiv.Accesses
import RiscvVp.Cheri.ExecSteps
import RiscvVp.Lib.Run

/-!
# Mediation

Every access to data memory should be authorised by a capability.  The loads and stores of floats and the
vector unit check none, and neither does the host when it serves a system call.  `mediated_along` says that
in every run of instructions, whatever happens between them, all accesses are authorised as long as those
operations happen to stay within the capability that ought to authorise them.
-/

namespace RiscvVp.Cheri

variable {δ : Type} {p : Platform δ} {o : Operands} {s : Iss δ}

/-! ### System calls -/

namespace SyscallNr

/-- The register that points to the buffer. -/
def pointer : SyscallNr → Fin 32
  | .fstat | .write | .read => 11
  | _ => 10

/-- The host reads the buffer. -/
def isLoad : SyscallNr → Bool
  | .write | .openFile => true
  | _ => false

/-- The parts of the buffer that a call reads or writes if it returns: offset and number of bytes. -/
def ranges (s : Iss δ) (sys : SyscallHandler) (host : HostAnswer) : SyscallNr → List (ℕ × ℕ)
  | .fstat => if host.result = 0 then statFields else []
  | .gettimeofday => if (s.regs 11).address = 0 then [(0, 8), (8, 8)] else []
  | .time => if (s.regs 10).address = 0 then [] else [(0, 8)]
  | .write | .read => if host.result = 0 then [] else [(0, host.result.toNat)]
  | .openFile =>
    match s.hart.guestString sys (s.regs 10).address with
    | some n => [(0, n + 1)]
    | none => []
  | _ => []

end SyscallNr

/-- The capability that ought to authorise the accesses of an operation: for a system call, the one in the
register that points to the buffer, or `ddc`. -/
def Op.authority (o : Operands) (s : Iss δ) : Op → Capability
  | .mem i => i.authority o s
  | .ecall =>
    if s.pcc.flagCapMode then s.regs (s.syscallNr.elim 10 SyscallNr.pointer) else s.ddc
  | _ => s.ddc

/-- An intercepted system call stays within the capability that ought to authorise it. -/
def SyscallCovered (o : Operands) (host : HostAnswer) (s : Iss δ) : Prop :=
  ∀ sys nr, s.sys = some sys → s.syscallNr = some nr → ∀ r ∈ nr.ranges s sys host,
    (Op.ecall.authority o s).Covers
      ⟨nr.isLoad, (s.regs nr.pointer).address + BitVec.ofNat 64 r.1, r.2⟩

/-- The operations that check no capability stay within the one that ought to authorise them. -/
def Op.Covered (o : Operands) (rest : Rest) (s : Iss δ) : Op → Prop
  | .mem i => i.Covered o s
  | .ecall => SyscallCovered o rest.host s
  | _ => True

/-- If an operation completes, the capability that ought to authorise it authorises every access it has
made. -/
def Op.Mediated (p : Platform δ) (o : Operands) (rest : Rest) (s : Iss δ) (op : Op) : Prop :=
  ∀ s', (Iss.execOp p rest o op).run' s = (.ok (), s') → ∃ new,
    s'.hart.accesses = s.hart.accesses ++ new ∧ ∀ a ∈ new, (op.authority o s).Covers a

namespace Hart

variable {φ : Access → Prop}

theorem emits_recordBytes {isLoad : Bool} {addr : BitVec 64} {n : ℕ}
    (h : n ≠ 0 → φ ⟨isLoad, addr, n⟩) : Emits φ (recordBytes (δ := δ) isLoad addr n) :=
  .ite (fun _ => .pure _) fun hn => emits_record (h hn)

theorem emits_hostWrite {sys : SyscallHandler} {addr : BitVec 64} {src : Bytes} {n : ℕ}
    (h : n ≠ 0 → φ ⟨false, addr, n⟩) : Emits φ (hostWrite (δ := δ) sys addr src n) :=
  Log.Appends.bind (emits_of_eq fun _ => rfl) fun _ => emits_recordBytes h

end Hart

namespace Iss

variable {sys : SyscallHandler} {host : HostAnswer} {nr : SyscallNr} {φ : Access → Prop}

theorem emits_abort {α : Type} : Emits (fun _ => True) φ (CheriM.abort : IssM δ α) :=
  Log.Appends.of_log_eq fun _ _ _ _ h => nomatch h

theorem emits_mem_pure {x : HartM δ Unit} {v : BitVec 64} (hx : Hart.Emits φ x) :
    Emits (fun _ => True) φ (mem x >>= fun _ => pure v) := (emits_mem hx).bind fun _ => .pure _

/-- The accesses of a system call lie in the parts of the buffer. -/
theorem accesses_serveSyscall {ans : BitVec 64} {s' : Iss δ}
    (h : (serveSyscall sys host (s.regs 10).address (s.regs 11).address (some nr)).run' s = (.ok ans, s'))
    (hφ : ∀ r ∈ nr.ranges s sys host,
      φ ⟨nr.isLoad, (s.regs nr.pointer).address + BitVec.ofNat 64 r.1, r.2⟩) :
    ∃ new, s'.hart.accesses = s.hart.accesses ++ new ∧ ∀ e ∈ new, φ e := by
  have hstart : ∀ {b : Bool} {a : BitVec 64} {n : ℕ}, φ ⟨b, a + BitVec.ofNat 64 0, n⟩ → φ ⟨b, a, n⟩ := by
    intro b a n hφ
    rwa [show a + BitVec.ofNat 64 0 = a from BitVec.add_zero a] at hφ
  cases nr with
  -- each call writes or reads just the parts of the buffer that `ranges` lists for its answer
  | fstat =>
    refine accesses_of h (I := fun _ => True) (.ite (fun hres => ?_) fun _ => .pure _) trivial
    refine (Log.Appends.forM fun f hf => emits_mem (Hart.emits_hostWrite fun _ => ?_)).bind fun _ => .pure _
    exact hφ f (by rwa [SyscallNr.ranges, if_pos hres])
  | gettimeofday =>
    refine accesses_of h (.ite (fun _ => emits_abort) fun htzp => ?_) trivial
    have hmem : (0, 8) ∈ SyscallNr.gettimeofday.ranges s sys host ∧
        (8, 8) ∈ SyscallNr.gettimeofday.ranges s sys host := by
      rw [SyscallNr.ranges, if_pos (not_not.mp htzp)]
      exact ⟨List.mem_cons_self, List.mem_cons_of_mem _ List.mem_cons_self⟩
    exact (emits_mem (Hart.emits_hostWrite fun _ => hstart (hφ _ hmem.1))).bind fun _ =>
      emits_mem_pure (Hart.emits_hostWrite fun _ => hφ _ hmem.2)
  | time =>
    refine accesses_of h (I := fun _ => True) (.ite (fun htloc => ?_) fun _ => ?_) trivial
    · have hmem : (0, 8) ∈ SyscallNr.time.ranges s sys host := by
        rw [SyscallNr.ranges, if_neg htloc]
        exact List.mem_cons_self
      exact (emits_mem (Hart.emits_hostWrite fun _ => hstart (hφ _ hmem))).bind fun _ =>
        .ite (fun _ => emits_abort) fun _ => .pure _
    · exact .ite (fun _ => emits_abort) fun _ => .pure _
  | write =>
    refine accesses_of h (.ite (fun _ => emits_abort) fun hres => ?_) trivial
    refine emits_mem_pure (Hart.emits_recordBytes fun hn => hstart (hφ (0, host.result.toNat) ?_))
    rw [SyscallNr.ranges, if_neg (by omega)]
    exact List.mem_cons_self
  | read =>
    refine accesses_of h (.ite (fun _ => emits_abort) fun hres => ?_) trivial
    refine emits_mem_pure (Hart.emits_hostWrite fun hn => hstart (hφ (0, host.result.toNat) ?_))
    rw [SyscallNr.ranges, if_neg (by omega)]
    exact List.mem_cons_self
  -- the name is read to its terminating zero
  | openFile =>
    rw [serveSyscall, sysOpen] at h
    split_ifs at h with hflags
    · exact accesses_of h emits_abort trivial
    rw [get_bind_run'] at h
    cases hname : s.hart.guestString sys (s.regs 10).address with
    | none =>
      rw [hname] at h
      exact accesses_of h emits_abort trivial
    | some n =>
      rw [hname] at h
      refine accesses_of h (emits_mem_pure (Hart.emits_recordBytes fun _ => ?_)) trivial
      refine hstart (hφ (0, n + 1) ?_)
      rw [SyscallNr.ranges, hname]
      exact List.mem_cons_self
  -- the other calls access no guest memory
  | brk =>
    refine accesses_of h (I := fun _ => True) (.ite (fun _ => ?_) fun _ => .pure _) trivial
    refine Log.Appends.bind (emits_modify ?_) fun _ => .pure _
    exact fun _ => rfl
  | close => exact accesses_of h (I := fun _ => True) (.ite (fun _ => .pure _) fun _ => .pure _) trivial
  | exit => exact accesses_of h (.ite (fun _ => emits_abort) fun _ => .pure _) trivial
  | hostError => exact accesses_of h emits_abort trivial
  | lseek | hostTestPass | hostTestFail => exact accesses_of h (I := fun _ => True) (.pure _) trivial

/-- A trap of `ECALL` makes no access; a call that is intercepted makes those of the host. -/
theorem mediated_ecall {rest : Rest} (hc : SyscallCovered o rest.host s) :
    Op.ecall.Mediated p o rest s := by
  intro s' h
  replace h : (ecall rest.host rest.lastPc).run' s = (.ok (), s') := h
  rw [ecall, get_bind_run'] at h
  cases hsys : s.sys with
  | none =>
    rw [hsys] at h
    cases hprv : s.hart.prv <;> · rw [hprv] at h; cases h
  | some sys =>
    rw [hsys] at h
    replace h : (executeSyscall sys rest.host).run' s = (.ok (), s') := h
    rw [executeSyscall, get_bind_run'] at h
    obtain ⟨ans, s1, hserve, hreg⟩ := CheriM.run'_bind_eq_ok.mp h
    obtain rfl := setReg_eq_ok.mp hreg
    cases hnr : s.syscallNr with
    | none =>
      rw [hnr] at hserve
      cases hserve
    | some nr =>
      rw [hnr] at hserve
      obtain ⟨new, hnew, hcovers⟩ := accesses_serveSyscall hserve (hc sys nr hsys hnr)
      exact ⟨new, hnew, hcovers⟩

/-! ### Operations that access no data -/

variable {rest : Rest}

theorem emits_ask : Emits (fun _ => True) φ (ask rest : IssM δ Capability) := by
  unfold ask
  cases rest.value with
  | ok value => exact .pure value
  | error t => exact Log.Appends.of_log_eq fun _ _ _ _ h => nomatch h

theorem emits_askLate : Emits (fun _ => True) φ (askLate rest : IssM δ Unit) := by
  unfold askLate
  cases rest.late with
  | none => exact .pure ()
  | some t => exact Log.Appends.of_log_eq fun _ _ _ _ h => nomatch h

theorem emits_executeCJalr : Emits (fun _ => True) φ (executeCJalr rest o : IssM δ Unit) :=
  emits_ask.bind fun _ => emits_setReg.bind fun _ => emits_setReg

theorem emits_writeUnlessZero {rd : Fin 32} {value : Capability} :
    Emits (fun _ => True) φ (writeUnlessZero rd value : IssM δ Unit) :=
  .ite (fun _ => emits_setReg) fun _ => .pure ()

theorem emits_cClear : Emits (fun _ => True) φ (cClear o : IssM δ Unit) := by
  refine Log.Appends.forM fun i _ => .ite (fun _ => .ite (fun _ => emits_modify ?_) fun _ => ?_) fun _ => ?_
  · exact fun _ => rfl
  · exact emits_setReg
  · exact .pure ()

/-- What is no instruction that accesses memory and no system call makes no access at all. -/
theorem emits_execOp {op : Op} (hmem : ∀ i, op ≠ .mem i) (hecall : op ≠ .ecall) :
    Emits (fun _ => True) φ (execOp p rest o op) := by
  cases op with
  | mem i => exact absurd rfl (hmem i)
  | ecall => exact absurd rfl hecall
  | illegal => exact Log.Appends.of_log_eq fun _ _ _ _ h => nomatch h
  | nop => exact .pure ()
  | int op => exact emits_get_bind fun _ _ => emits_setReg
  | auipc => exact emits_get_bind fun _ _ => emits_setReg
  | j => exact emits_ask.bind fun _ => .pure ()
  | jal => exact emits_ask.bind fun _ => emits_setReg
  | jr =>
    refine emits_get_bind fun s _ => .ite (fun _ => emits_executeCJalr) fun _ => ?_
    exact emits_ask.bind fun _ => .pure ()
  | jalr =>
    refine emits_get_bind fun s _ => .ite (fun _ => emits_executeCJalr) fun _ => ?_
    exact emits_ask.bind fun _ => emits_setReg
  | jalrCap => exact emits_executeCJalr
  | cap op =>
    refine emits_get_bind fun s _ => ?_
    cases op.result s.regs s.ddc o with
    | none => exact emits_abort
    | some value => exact emits_setReg.bind fun _ => .ite (fun _ => emits_setReg) fun _ => .pure ()
  | cInvoke =>
    exact emits_get_bind fun _ _ => emits_ask.bind fun _ => emits_setReg.bind fun _ =>
      emits_modify fun _ => rfl
  | cSpecialRW => exact emits_ask.bind fun _ => emits_setReg.bind fun _ => emits_setReg
  | cClear => exact emits_cClear
  | csr => exact emits_ask.bind fun _ => emits_writeUnlessZero.bind fun _ => emits_askLate
  | floatToInt => exact emits_ask.bind fun _ => emits_setReg.bind fun _ => emits_setReg
  | vectorToInt => exact emits_ask.bind fun _ => emits_writeUnlessZero.bind fun _ => emits_askLate
  | other => exact emits_ask.bind fun _ => .pure ()

end Iss

/-- The accesses of an operation that is covered: each lies within what a valid capability of the state
before it allows. -/
theorem Op.mediated_of_covered {rest : Rest} {op : Op} (hc : op.Covered o rest s) :
    op.Mediated p o rest s := by
  by_cases hmem : ∃ i, op = .mem i
  · obtain ⟨i, rfl⟩ := hmem
    exact MemInstr.mediated_of_covered hc
  by_cases hecall : op = .ecall
  · subst hecall
    exact Iss.mediated_ecall hc
  intro s' h
  exact Iss.accesses_of h (Iss.emits_execOp (fun i hi => hmem ⟨i, hi⟩) hecall) trivial

/-! ### Runs -/

/-- What happens to a hart: an instruction, or whatever else changes the state between two instructions, such
as a trap that is taken, an interrupt, or another hart. -/
inductive MemEvent (δ : Type)
  | instr (op : Op) (o : Operands) (rest : Rest)
  | outside (f : Iss δ → Iss δ)

/-- One step of a run, with the outcome of the instruction. -/
def memStep (p : Platform δ) (s : Iss δ) : MemEvent δ → Except Stop Unit × Iss δ
  | .instr op o rest => (Iss.execOp p rest o op).run' s
  | .outside f => (.ok (), f s)

/-- The condition on a step: an instruction is covered in the state before it; what happens outside needs no
cover. -/
def CoveredStep (s : Iss δ) : MemEvent δ → Prop
  | .instr op o rest => op.Covered o rest s
  | .outside _ => True

/-- The accesses of an instruction that completes are authorised. -/
def MediatedStep (p : Platform δ) (s : Iss δ) : MemEvent δ → Prop
  | .instr op o rest => op.Mediated p o rest s
  | .outside _ => True

/-- **In every run whose loads and stores of floats and of vectors and whose system calls stay within the
capability that ought to authorise them, every access of an instruction that completes is authorised by a
capability that is tagged, not sealed, has the permission and contains the bytes.** -/
theorem mediated_along (p : Platform δ) (s : Iss δ) (es : List (MemEvent δ))
    (hc : Run.Along CoveredStep (memStep p) s es) :
    Run.Along (MediatedStep p) (memStep p) s es := by
  refine hc.mono fun s e he => ?_
  cases e with
  | instr op o rest => exact Op.mediated_of_covered he
  | outside f => trivial

/-! ### A load of a float -/

namespace FloatLoad

/-- 16 KiB of memory at address zero and nothing else, and no MMU. -/
abbrev platform : Platform Unit := CapLoad.NoLoadCap.platform

/-- Both units are on, `vtype` is illegal as after a reset, and system calls are intercepted; `a7` names
`gettimeofday`. -/
def start (ddc : Capability) : Iss Unit :=
  { CapLoad.NoLoadCap.start with
    regs := fun i => if i = 17 then .ofInt 169 else cNullCap
    ddc := ddc
    fs := 1
    vs := 1
    sys := some ⟨0, 0⟩ }

/-- An instruction with the operands `x5`, or `f5` or `v5`, and `0(x6)`. -/
def instr (op : Op) : MemEvent Unit :=
  .instr op CapLoad.NoLoadCap.operands { lastPc := 0, value := .ok cNullCap, late := none }

/-- `LC x5, 0(x6)`, `FLW f5, 0(x6)`, `ECALL` and `VL1RE64_V v5, (x6)`, in integer mode. -/
def events : List (MemEvent Unit) :=
  [instr (.mem .loadC), instr (.mem (.fLoad .word)), instr .ecall, instr (.mem (.vLoadStore true 64 .whole))]

theorem covers {isLoad : Bool} {vaddr : BitVec 64} {n : ℕ} (h : vaddr.toNat + n ≤ 2 ^ 64) :
    cDefaultCap.Covers ⟨isLoad, vaddr, n⟩ := by
  have hbase : cDefaultCap.getBase.toNat = 0 := by decide
  have htop : cDefaultCap.getTop.toNat = 2 ^ 64 := by decide
  exact ⟨rfl, by decide, fun _ => rfl, fun _ => rfl, hbase ▸ Nat.zero_le _, htop ▸ h⟩

/-- Every step of the example run is covered as long as the default capability stands in `ddc`. -/
theorem covered_along : Run.Along CoveredStep (memStep platform) (start cDefaultCap) events := by
  refine ⟨trivial, fun _ _ => covers (by decide), ?_, ?_, trivial⟩
  · intro sys nr hsys hnr r hr
    replace hsys : some (⟨0, 0⟩ : SyscallHandler) = some sys := hsys
    replace hnr : some SyscallNr.gettimeofday = some nr := hnr
    cases hsys
    cases hnr
    replace hr : r ∈ [(0, 8), (8, 8)] := hr
    rcases List.mem_cons.mp hr with rfl | hr
    · exact covers (by decide)
    · obtain rfl := List.mem_singleton.mp hr
      exact covers (by decide)
  · rintro - - j hj field hfield vRegs n hn
    replace hj : j < 8 := hj
    replace hfield : field ≤ 0 := hfield
    replace hn : some Width.double = some n := hn
    cases hn
    show cDefaultCap.Covers ⟨true, 0 + BitVec.ofNat 64 ((j * (0 + 1) + field) * 8), 8⟩
    refine covers ?_
    rw [zero_add, BitVec.toNat_ofNat]
    omega

end FloatLoad

open FloatLoad in
theorem mediated_along_floatLoad :
    Run.Along (MediatedStep platform) (memStep platform) (start cDefaultCap) events :=
  mediated_along _ _ _ covered_along

open FloatLoad in
/-- Without any capability in `ddc` the load of the float completes. -/
theorem not_mediated_floatLoad :
    ¬Run.Along (MediatedStep platform) (memStep platform) (start cNullCap)
      [instr (.mem (.fLoad .word))] := by
  rintro ⟨h, -⟩
  have hrun : memStep platform (start cNullCap) (instr (.mem (.fLoad .word))) =
      (.ok (), (memStep platform (start cNullCap) (instr (.mem (.fLoad .word)))).2) := Prod.ext (by rfl) rfl
  have hone : (memStep platform (start cNullCap) (instr (.mem (.fLoad .word)))).2.hart.accesses =
      [⟨true, 0, 4⟩] := by
    decide
  obtain ⟨new, hnew, hcovers⟩ := h _ hrun
  have hmem : (⟨true, 0, 4⟩ : Access) ∈ new := by
    rw [hone] at hnew
    have hnil : (start cNullCap).hart.accesses = [] := rfl
    rw [hnil, List.nil_append] at hnew
    rw [← hnew]
    exact List.mem_singleton_self _
  exact nomatch (hcovers _ hmem).tag

end RiscvVp.Cheri
