import RiscvVp.Iss.LrSc
import RiscvVp.Mem.Equiv.Amo

/-!
# A successful `SC` and the stores of others

`LrScSystem.lrSc_atomic`: in every interleaving of any number of harts and peripherals, no store of
another hart or of a peripheral stands between a successful `SC` and the hart's last `LR`, which was to
the same address; at most one hart holds the bus lock; and between two instructions a hart holds it
only while its counter is positive.

The invariant `HartInv` is stated for one hart and the labels of the run so far.  While a hart holds the
lock, nobody else makes a store (`System.world_of_ne`).  An `SC` that sets a dirty bit gives the lock
back before its own store, but from then on the hart has control until it is done.
-/

namespace RiscvVp

/-- Nothing that matters to a reservation of the hart: no `LR` of the hart, no store of anyone else. -/
def LrScLabel.Undisturbed (i : ℕ) (l : LrScLabel) : Prop :=
  (∀ va, l ≠ .lr i va) ∧ ∀ initiator, l.storedBy = some initiator → initiator = some i

/-- The last `LR` of the hart was to the address, and nobody else has made a store since. -/
def Reserved (labels : List LrScLabel) (i : ℕ) (va : BitVec 64) : Prop :=
  ∃ before after, labels = before ++ .lr i va :: after ∧ ∀ l ∈ after, l.Undisturbed i

/-- Every successful `SC` is one of a reservation. -/
def Atomic (labels : List LrScLabel) : Prop :=
  ∀ before after i va, labels = before ++ .scSucceeds i va :: after → Reserved before i va

section Labels

variable {labels : List LrScLabel} {l : LrScLabel} {i : ℕ} {va : BitVec 64}

theorem LrScLabel.undisturbed_quiet : LrScLabel.quiet.Undisturbed i := by
  refine ⟨fun va h => ?_, fun initiator h => ?_⟩ <;> cases h

theorem Reserved.snoc (h : Reserved labels i va) (hl : l.Undisturbed i) :
    Reserved (labels ++ [l]) i va := by
  obtain ⟨before, after, rfl, hafter⟩ := h
  refine ⟨before, after ++ [l], by simp, fun l' hl' => ?_⟩
  rw [List.mem_append, List.mem_singleton] at hl'
  rcases hl' with hl' | rfl
  · exact hafter l' hl'
  · exact hl

theorem reserved_lr : Reserved (labels ++ [.lr i va]) i va :=
  ⟨labels, [], rfl, fun _ hl => by cases hl⟩

theorem Atomic.snoc (h : Atomic labels) (hl : ∀ i va, l = .scSucceeds i va → Reserved labels i va) :
    Atomic (labels ++ [l]) := by
  intro before after i va heq
  rcases List.append_eq_append_iff.mp heq with ⟨mid, hbefore, hmid⟩ | ⟨mid, hlabels, hmid⟩
  · -- the `SC` is the new label
    rw [eq_comm, List.append_eq_singleton_iff] at hmid
    rcases hmid with ⟨rfl, hmid⟩ | ⟨rfl, hmid⟩
    · rw [List.append_nil] at hbefore
      rw [List.cons.injEq] at hmid
      rw [hbefore]
      exact hl i va hmid.1.symm
    · cases hmid
  · cases mid with
    | nil =>
      rw [List.nil_append, List.cons.injEq] at hmid
      rw [List.append_nil] at hlabels
      rw [← hlabels]
      exact hl i va hmid.1.symm
    | cons l' mid =>
      rw [List.cons_append, List.cons.injEq] at hmid
      rw [← hmid.1] at hlabels
      exact h before mid i va hlabels

end Labels

namespace System

variable {δ : Type} {bus : Bus δ} {s : System δ} {i j : ℕ}

/-! ### The lock after a step -/

theorem isLockedBy_of_unlock {l : BusLock} (h : (l.unlock j).isLockedBy i = true) :
    l.isLockedBy i = true := by
  unfold BusLock.unlock at h
  split_ifs at h with hj
  · simp [BusLock.isLockedBy] at h
  · exact h

theorem not_locked_unlock {l : BusLock} (h : l.isLockedBy i = true ∨ l.locked = false) :
    (l.unlock i).locked = false := by
  unfold BusLock.unlock
  split_ifs with hi
  · rfl
  · exact h.resolve_left hi

theorem eq_of_isLockedBy {l : BusLock} (hi : l.isLockedBy i = true) (hj : l.isLockedBy j = true) :
    i = j := by
  by_contra hne
  rw [isLockedBy_of_ne hi (Ne.symm hne)] at hj
  cases hj

theorem eq_of_isLockedBy_lock {l : BusLock} (h : (l.lock j).isLockedBy i = true) : i = j :=
  eq_of_isLockedBy h isLockedBy_lock

theorem storeNow_busLock {w w' : World δ} {ranges : List MemoryDMI} {addr v : BitVec 64} {n : Width}
    {r : Except SimulationTrap (Option HostAddr)} (h : w.storeNow bus i ranges addr n v = (r, w')) :
    w'.busLock = if r.isOk then w.busLock.unlock i else w.busLock := by
  unfold World.storeNow at h
  split at h
  · cases h
    rfl
  · split at h
    · cases h
      rfl
    · cases h
      rfl

theorem rawAccess_busLock {w w' : World δ} {ranges : List MemoryDMI} {a : Access} {pa : BitVec 64}
    {r : Except SimulationTrap (BitVec 64 × Option HostAddr)}
    (h : rawAccess bus w i ranges a pa = (r, w')) :
    w'.busLock = if a.type = .store ∧ r.isOk then w.busLock.unlock i else w.busLock := by
  have hload : ∀ n, w.loadNow bus ranges pa n = (r, w') → w'.busLock = w.busLock := by
    intro n hl
    have hw := @loadNow_busLock _ bus w ranges pa n
    rw [hl] at hw
    exact hw
  have hstore : ∀ n v, (((w.storeNow bus i ranges pa n v).1.map fun last => ((0 : BitVec 64), last)),
      (w.storeNow bus i ranges pa n v).2) = (r, w') →
        w'.busLock = if r.isOk then w.busLock.unlock i else w.busLock := by
    intro n v hs
    rcases hst : w.storeNow bus i ranges pa n v with ⟨r', w''⟩
    rw [hst] at hs
    cases hs
    rw [storeNow_busLock hst]
    cases r' <;> rfl
  cases a with
  | load op va add => exact hload _ h
  | store n va v add => simpa [Access.type] using hstore n v h
  | fetch n va => exact hload _ h
  | amoLoad n va f => exact hload _ h
  | amoStore n va v => simpa [Access.type] using hstore n v h
  | lr n va => exact hload _ h
  | sc n va v => simpa [Access.type] using hstore n v h

/-! ### A hart that goes on -/

theorem resume_of_waiting (h : s.waiting i = true) : (s.resume bus i).2 = s := by
  unfold waiting at h
  unfold resume
  dsimp only
  split at h
  · next a addr n k htask =>
    rw [htask]
    dsimp only
    rw [if_pos h]
  · next a addr n v k htask =>
    rw [htask]
    dsimp only
    rw [if_pos h]
  · next a pa htask =>
    rw [htask]
    dsimp only
    rw [if_pos h]
  · cases h

/-- A trap ends the operation and does not touch the lock. -/
theorem resume_of_trapped (h : s.trapped bus i = true) :
    ((s.resume bus i).2.harts i).task = .idle ∧
      (s.resume bus i).2.world.busLock = s.world.busLock := by
  unfold trapped waiting at h
  unfold resume
  dsimp only at h ⊢
  -- which accesses can trap: a raw access of the walk, or the access of the operation itself
  cases htask : (s.harts i).task with
  | idle =>
    rw [htask] at h
    cases h
  | translating a p =>
    cases p with
    | pure r =>
      rw [htask] at h
      cases h
    | throw t => exact ⟨by rw [setHart_self], rfl⟩
    | rawLoad addr n k =>
      rw [htask] at h
      dsimp only at h ⊢
      rw [Bool.and_eq_true, Bool.not_eq_true'] at h
      rw [if_neg (by rw [h.1]; exact Bool.false_ne_true)]
      rcases hl : s.world.loadNow bus (s.harts i).dmi.dmiRanges addr n with ⟨t | x, w⟩
      · have hw := @loadNow_busLock _ bus s.world (s.harts i).dmi.dmiRanges addr n
        rw [hl] at hw
        exact ⟨by rw [setHart_self], hw⟩
      · rw [hl] at h
        cases h.2
    | rawStore addr n v k =>
      rw [htask] at h
      dsimp only at h ⊢
      rw [Bool.and_eq_true, Bool.not_eq_true'] at h
      rw [if_neg (by rw [h.1]; exact Bool.false_ne_true)]
      rcases hl : s.world.storeNow bus i (s.harts i).dmi.dmiRanges addr n v with ⟨t | x, w⟩
      · exact ⟨by rw [setHart_self], storeNow_busLock hl⟩
      · rw [hl] at h
        cases h.2
  | accessing a pa =>
    rw [htask] at h
    dsimp only at h ⊢
    rw [Bool.and_eq_true, Bool.not_eq_true'] at h
    rw [if_neg (by rw [h.1]; exact Bool.false_ne_true)]
    rcases hl : rawAccess bus s.world i (s.harts i).dmi.dmiRanges a pa with ⟨t | x, w⟩
    · refine ⟨by rw [setHart_self], ?_⟩
      have hw := rawAccess_busLock hl
      rw [if_neg (fun hok => by cases hok.2)] at hw
      exact hw
    · rw [hl] at h
      cases h.2

/-- What a hart does that neither waits nor traps. -/
inductive Resumed (s : System δ) (i : ℕ) (s' : System δ) : Prop
  | idle (htask : (s.harts i).task = .idle) (hs : s' = s)
  | translated (a : Access) (p : Prog (BitVec 64 × Mmu.Tlb))
      (htask : (s.harts i).task = .translating a p) (hnext : (s'.harts i).task.access = some a)
      (hlr : (s'.harts i).lrAddr = (s.harts i).lrAddr)
      (hlock : s'.world.busLock = s.world.busLock ∨
        s'.world.busLock = s.world.busLock.unlock i)
  | stored (a : Access) (pa : BitVec 64) (htask : (s.harts i).task = .accessing a pa)
      (hnext : (s'.harts i).task = .idle)
      (hlock : s'.world.busLock = s.world.busLock.unlock i)
  | loaded (a : Access) (pa : BitVec 64) (htask : (s.harts i).task = .accessing a pa)
      (htype : a.type ≠ .store) (hamo : a.isAmo = false) (hnext : (s'.harts i).task = .idle)
      (hlr : (s'.harts i).lrAddr = (s.harts i).lrAddr) (hlock : s'.world.busLock = s.world.busLock)
  | amoLoaded (n : Width) (va v : BitVec 64) (hnext : (s'.harts i).task.access = some (.amoStore n va v))
      (hlock : s'.world.busLock = s.world.busLock)

theorem resumed (hw : s.waiting i = false) (ht : s.trapped bus i = false) :
    Resumed s i (s.resume bus i).2 := by
  unfold trapped at ht
  rw [hw] at ht
  unfold waiting at hw
  unfold resume
  dsimp only at ht ⊢
  cases htask : (s.harts i).task with
  | idle => exact .idle htask rfl
  -- the raw accesses of the page table walk: only a store of it gives the lock back
  | translating a p =>
    cases p with
    | pure r =>
      refine .translated a _ htask ?_ ?_ (Or.inl rfl)
      · rw [setHart_self]
        rfl
      · rw [setHart_self]
    | throw t =>
      rw [htask] at ht
      cases ht
    | rawLoad addr n k =>
      rw [htask] at ht hw
      dsimp only at ht hw ⊢
      rw [if_neg (by rw [hw]; exact Bool.false_ne_true)]
      rcases hl : s.world.loadNow bus (s.harts i).dmi.dmiRanges addr n with ⟨t | x, w⟩
      · rw [hl] at ht
        cases ht
      · have hlock := @loadNow_busLock _ bus s.world (s.harts i).dmi.dmiRanges addr n
        rw [hl] at hlock
        refine .translated a _ htask ?_ ?_ (Or.inl hlock)
        · rw [setHart_self]
          rfl
        · rw [setHart_self]
    | rawStore addr n v k =>
      rw [htask] at ht hw
      dsimp only at ht hw ⊢
      rw [if_neg (by rw [hw]; exact Bool.false_ne_true)]
      rcases hl : s.world.storeNow bus i (s.harts i).dmi.dmiRanges addr n v with ⟨t | x, w⟩
      · rw [hl] at ht
        cases ht
      · refine .translated a _ htask ?_ ?_ (Or.inr (storeNow_busLock hl))
        · rw [setHart_self]
          rfl
        · rw [setHart_self]
  | accessing a pa =>
    rw [htask] at ht hw
    dsimp only at ht hw ⊢
    rw [if_neg (by rw [hw]; exact Bool.false_ne_true)]
    rcases hl : rawAccess bus s.world i (s.harts i).dmi.dmiRanges a pa with ⟨t | ⟨v, last⟩, w⟩
    · rw [hl] at ht
      cases ht
    · -- the access itself: a store gives the lock back, and an AMO goes on to its store
      have hlock := rawAccess_busLock hl
      simp only [Except.isOk, Except.toBool, and_true] at hlock
      have hne : MemoryAccessType.load ≠ .store := by decide
      have hne' : MemoryAccessType.fetch ≠ .store := by decide
      cases a with
      | load op va add =>
        refine .loaded _ pa htask hne rfl ?_ ?_ hlock <;> rw [setHart_self] <;> cases add <;> rfl
      | store n va v add =>
        refine .stored _ pa htask ?_ hlock
        rw [setHart_self]
        cases add <;> rfl
      | fetch n va => refine .loaded _ pa htask hne' rfl ?_ ?_ hlock <;> rw [setHart_self] <;> rfl
      | amoLoad n va f =>
        refine .amoLoaded n va (f v) ?_ hlock
        rw [setHart_self]
        rfl
      | amoStore n va v =>
        refine .stored _ pa htask ?_ hlock
        rw [setHart_self]
        rfl
      | lr n va => refine .loaded _ pa htask hne rfl ?_ ?_ hlock <;> rw [setHart_self] <;> rfl
      | sc n va v =>
        refine .stored _ pa htask ?_ hlock
        rw [setHart_self]
        rfl

/-- Only the hart's own lock changes, and only by being given back. -/
theorem resume_busLock : (s.resume bus i).2.world.busLock = s.world.busLock ∨
    (s.resume bus i).2.world.busLock = s.world.busLock.unlock i := by
  cases hw : s.waiting i with
  | true => exact Or.inl (by rw [resume_of_waiting hw])
  | false =>
    cases ht : s.trapped bus i with
    | true => exact Or.inl (resume_of_trapped ht).2
    | false =>
      cases resumed hw ht with
      | idle htask hs => exact Or.inl (by rw [hs])
      | translated a p htask hnext hlr hlock => exact hlock
      | stored a pa htask hnext hlock => exact Or.inr hlock
      | loaded a pa htask htype hamo hnext hlr hlock => exact Or.inl hlock
      | amoLoaded n va v hnext hlock => exact Or.inl hlock

/-- A hart that begins an operation takes the lock or gives its own back, if it changes it at all. -/
theorem begin_busLock (op : Op) : (s.begin i op).world.busLock = s.world.busLock ∨
    (s.begin i op).world.busLock = s.world.busLock.lock i ∨
      (s.begin i op).world.busLock = s.world.busLock.unlock i := by
  unfold begin
  dsimp only
  split
  · cases op with
    | load op va direct =>
      dsimp only
      split_ifs <;> exact Or.inl rfl
    | store n va v direct =>
      dsimp only
      split_ifs <;> exact Or.inl rfl
    | fetch n va => exact Or.inl rfl
    | amo n va f =>
      dsimp only
      split_ifs
      · exact Or.inl rfl
      · exact Or.inr (Or.inl rfl)
    | lr n va =>
      dsimp only
      split_ifs
      · exact Or.inl rfl
      · exact Or.inr (Or.inl rfl)
    | sc n va v =>
      dsimp only
      split_ifs
      · exact Or.inl rfl
      · exact Or.inr (Or.inr rfl)
      · exact Or.inl rfl
    | release => exact Or.inr (Or.inr rfl)
  · exact Or.inl rfl

theorem isLockedBy_of_begin {op : Op} (hij : i ≠ j)
    (h : (s.begin j op).world.busLock.isLockedBy i = true) : s.world.busLock.isLockedBy i = true := by
  rcases begin_busLock (s := s) (i := j) op with hl | hl | hl
  · rwa [hl] at h
  · rw [hl] at h
    exact absurd (eq_of_isLockedBy_lock h) hij
  · rw [hl] at h
    exact isLockedBy_of_unlock h

theorem isLockedBy_of_resume (h : (s.resume bus j).2.world.busLock.isLockedBy i = true) :
    s.world.busLock.isLockedBy i = true := by
  rcases @resume_busLock _ bus s j with hl | hl
  · rwa [hl] at h
  · rw [hl] at h
    exact isLockedBy_of_unlock h

/-- While another hart holds the lock, a hart that goes on does not store. -/
theorem resumeLabel_of_ne (h : s.world.busLock.isLockedBy i = true) (hij : j ≠ i) :
    s.resumeLabel bus j = .quiet := by
  have hb := blocked_of_ne h hij
  unfold resumeLabel waiting
  cases htask : (s.harts j).task with
  | idle => rfl
  | translating a p => cases p <;> simp [hb]
  | accessing a pa => simp [hb]

theorem beginLabel_of_ne (h : s.world.busLock.isLockedBy i = true) (hij : j ≠ i) (op : Op) :
    s.beginLabel j op = .quiet := by
  unfold beginLabel
  cases op with
  | lr n va => exact if_pos (blocked_of_ne h hij)
  | store n va v direct =>
    dsimp only
    rw [locked_of_isLockedBy h]
    simp
  | _ => rfl

end System

namespace LrScSystem

variable {δ : Type} {bus : Bus δ} {s : LrScSystem δ} {labels : List LrScLabel} {i : ℕ}

/-- The hart holds the bus lock. -/
def Holds (s : LrScSystem δ) (i : ℕ) : Prop := s.sys.world.busLock.isLockedBy i = true

/-- The accesses that take the lock at their start. -/
def takesLock : Access → Bool
  | .amoLoad .. | .amoStore .. | .lr .. => true
  | _ => false

/-- The invariant of one hart.

* A hart that holds the lock, and not for an AMO, has a reservation for `lr_addr`.
* A hart that holds the lock, and is not in an `LR` or AMO, has a positive counter.
* An `SC` that has passed its check is one of a reservation.  The hart holds the lock or has control of a
  bus that is free. -/
structure HartInv (labels : List LrScLabel) (s : LrScSystem δ) (i : ℕ) : Prop where
  reserved : s.Holds i → (s.sys.harts i).task.inAmo = false →
    Reserved labels i (s.sys.harts i).lrAddr
  counter : s.Holds i → (∀ a, (s.sys.harts i).task.access = some a → takesLock a = false) →
    0 < s.lrScCounter i
  sc : ∀ n va v, (s.sys.harts i).task.access = some (.sc n va v) →
    va = (s.sys.harts i).lrAddr ∧ Reserved labels i va ∧
      (s.Holds i ∨ s.current = some i ∧ s.sys.world.busLock.locked = false)

/-! ### Steps of others -/

/-- While a hart holds the lock, the steps of others are of no concern to it. -/
theorem stepCurrent_of_holds (h : s.Holds i) {e : LrScEvent δ} (he : e.hart ≠ some i) :
    (s.stepCurrent bus e).1 = .quiet ∧ (s.stepCurrent bus e).2.sys.world = s.sys.world ∧
      (s.stepCurrent bus e).2.sys.harts i = s.sys.harts i ∧
        (s.stepCurrent bus e).2.lrScCounter i = s.lrScCounter i := by
  have hunlock : ∀ j, j ≠ i → s.sys.world.unlock j = s.sys.world := fun j hj =>
    System.unlock_of_ne h hj
  cases e with
  -- `j` may release a reservation, but `unlock` does nothing for a hart without the lock
  | slowPath j =>
    have hij : j ≠ i := fun hji => he (congrArg some hji)
    unfold stepCurrent
    dsimp only
    split
    · unfold slowPath
      dsimp only
      split_ifs
      · exact ⟨rfl, hunlock j hij, rfl, by simp [release, setCounter, hij.symm]⟩
      · exact ⟨rfl, rfl, rfl, by simp [setCounter, hij.symm]⟩
      · exact ⟨rfl, rfl, rfl, rfl⟩
    · exact ⟨rfl, rfl, rfl, rfl⟩
  | sys e =>
    have hworld := @System.world_of_ne _ bus _ _ h e he
    have hharts := @System.harts_of_ne _ bus s.sys _ e he
    cases e with
    | begin j op =>
      have hij : j ≠ i := fun hji => he (congrArg some hji)
      unfold stepCurrent
      dsimp only
      split
      · cases op with
        | release =>
          exact ⟨rfl, hunlock j hij, rfl, by simp [begin, release, setCounter, hij.symm]⟩
        | sc n va v =>
          unfold begin
          dsimp only
          split
          · exact ⟨rfl, hworld.1, hharts, by simp [setCounter, hij.symm]⟩
          · exact ⟨rfl, hworld.1, hharts, rfl⟩
        | load op va direct =>
          exact ⟨System.beginLabel_of_ne h hij (.load op va direct), hworld.1, hharts, rfl⟩
        | store n va v direct =>
          exact ⟨System.beginLabel_of_ne h hij (.store n va v direct), hworld.1, hharts, rfl⟩
        | fetch n va => exact ⟨rfl, hworld.1, hharts, rfl⟩
        | amo n va f => exact ⟨rfl, hworld.1, hharts, rfl⟩
        | lr n va => exact ⟨System.beginLabel_of_ne h hij (.lr n va), hworld.1, hharts, rfl⟩
      · exact ⟨rfl, rfl, rfl, rfl⟩
    -- a raw access of `j` waits for the lock, and a trap of `j` releases only its own reservation
    | resume j =>
      have hij : j ≠ i := fun hji => he (congrArg some hji)
      have hlabel := @System.resumeLabel_of_ne _ bus _ _ _ h hij
      unfold stepCurrent resume
      dsimp only
      split_ifs
      · exact ⟨rfl, rfl, rfl, rfl⟩
      · refine ⟨hlabel, ?_, hharts, by simp [release, setCounter, hij.symm]⟩
        show (s.sys.resume bus j).2.world.unlock j = _
        rw [show (s.sys.resume bus j).2.world = s.sys.world from hworld.1]
        exact hunlock j hij
      · exact ⟨hlabel, hworld.1, hharts, by simp [setCounter, hij.symm]⟩
    | change j csrs prv tlb dmi lscache => exact ⟨rfl, hworld.1, hharts, rfl⟩
    | peripheral f => exact ⟨if_pos (System.locked_of_isLockedBy h), hworld.1, hharts, rfl⟩

/-- Nobody gets the lock by a step of another, and a step writes no other hart. -/
theorem stepCurrent_of_ne {e : LrScEvent δ} (he : e.hart ≠ some i) :
    ((s.stepCurrent bus e).2.Holds i → s.Holds i) ∧
      (s.stepCurrent bus e).2.sys.harts i = s.sys.harts i := by
  -- the lock can be given back by another hart only if that hart holds it
  cases e with
  | slowPath j =>
    unfold stepCurrent
    dsimp only
    split
    · unfold slowPath
      dsimp only
      split_ifs
      · exact ⟨System.isLockedBy_of_unlock, rfl⟩
      · exact ⟨id, rfl⟩
      · exact ⟨id, rfl⟩
    · exact ⟨id, rfl⟩
  | sys e =>
    have hharts := @System.harts_of_ne _ bus s.sys _ e he
    cases e with
    | begin j op =>
      have hij : i ≠ j := fun hji => he (congrArg some hji.symm)
      unfold stepCurrent
      dsimp only
      split
      · cases op with
        | release => exact ⟨System.isLockedBy_of_unlock, rfl⟩
        | sc n va v =>
          unfold begin
          dsimp only
          split
          · exact ⟨System.isLockedBy_of_begin hij, hharts⟩
          · exact ⟨System.isLockedBy_of_begin hij, hharts⟩
        | _ => exact ⟨System.isLockedBy_of_begin hij, hharts⟩
      · exact ⟨id, rfl⟩
    | resume j =>
      unfold stepCurrent resume
      dsimp only
      split_ifs
      · exact ⟨id, rfl⟩
      · refine ⟨fun h => ?_, hharts⟩
        exact System.isLockedBy_of_resume (System.isLockedBy_of_unlock h)
      · exact ⟨System.isLockedBy_of_resume, hharts⟩
    | change j csrs prv tlb dmi lscache =>
      refine ⟨?_, hharts⟩
      unfold stepCurrent System.step Holds
      dsimp only
      split <;> exact id
    | peripheral f =>
      refine ⟨?_, hharts⟩
      unfold stepCurrent System.step Holds
      dsimp only
      split_ifs <;> exact id

/-- A step of another keeps the invariant of a hart. -/
theorem HartInv.step_of_ne (hi : HartInv labels s i) {e : LrScEvent δ} (he : e.hart ≠ some i)
    (hcur : s.current ≠ some i) :
    HartInv (labels ++ [(s.stepCurrent bus e).1]) (s.stepCurrent bus e).2 i := by
  obtain ⟨hback, hharts⟩ := @stepCurrent_of_ne _ bus s _ _ he
  by_cases h : s.Holds i
  · obtain ⟨hlabel, hworld, -, hcounter⟩ := @stepCurrent_of_holds _ bus _ _ h _ he
    have hholds : (s.stepCurrent bus e).2.Holds i := by
      rw [Holds, hworld]
      exact h
    rw [hlabel]
    refine ⟨fun _ hamo => ?_, fun _ hno => ?_, fun n va v hsc => ?_⟩
    · rw [hharts] at hamo ⊢
      exact (hi.reserved h hamo).snoc LrScLabel.undisturbed_quiet
    · rw [hharts] at hno
      rw [hcounter]
      exact hi.counter h hno
    · rw [hharts] at hsc ⊢
      obtain ⟨hva, hres, -⟩ := hi.sc n va v hsc
      exact ⟨hva, hres.snoc LrScLabel.undisturbed_quiet, Or.inl hholds⟩
  · refine ⟨fun h' => absurd (hback h') h, fun h' => absurd (hback h') h, fun n va v hsc => ?_⟩
    rw [hharts] at hsc
    obtain ⟨-, -, h' | ⟨h', -⟩⟩ := hi.sc n va v hsc
    · exact absurd h' h
    · exact absurd h' hcur

/-! ### Steps of the hart itself -/

section Self

variable {s' : LrScSystem δ} {l : LrScLabel}

/-- A step that does not disturb a reservation and does not begin or end an operation that takes the
lock. -/
theorem HartInv.keep (hi : HartInv labels s i) (hl : l.Undisturbed i)
    (hholds : s'.Holds i → s.Holds i)
    (hlr : (s'.sys.harts i).lrAddr = (s.sys.harts i).lrAddr)
    (hcounter : 0 < s.lrScCounter i → s'.Holds i → 0 < s'.lrScCounter i)
    (hamo : (s'.sys.harts i).task.inAmo = false → (s.sys.harts i).task.inAmo = false)
    (htakes : (∀ a, (s'.sys.harts i).task.access = some a → takesLock a = false) →
      ∀ a, (s.sys.harts i).task.access = some a → takesLock a = false)
    (hsc : ∀ n va v, (s'.sys.harts i).task.access = some (.sc n va v) →
      (s.sys.harts i).task.access = some (.sc n va v) ∧
        (s'.Holds i ∨ s'.current = some i ∧ s'.sys.world.busLock.locked = false)) :
    HartInv (labels ++ [l]) s' i := by
  refine ⟨fun h ha => ?_, fun h ht => ?_, fun n va v h => ?_⟩
  · rw [hlr]
    exact (hi.reserved (hholds h) (hamo ha)).snoc hl
  · exact hcounter (hi.counter (hholds h) (htakes ht)) h
  · obtain ⟨hbefore, hafter⟩ := hsc n va v h
    obtain ⟨hva, hres, -⟩ := hi.sc n va v hbefore
    exact ⟨by rw [hlr]; exact hva, hres.snoc hl, hafter⟩

/-- A hart that does not hold the lock and is not in an `SC`. -/
theorem hartInv_of_not_holds (h : ¬s'.Holds i)
    (hsc : ∀ n va v, (s'.sys.harts i).task.access ≠ some (.sc n va v)) : HartInv labels s' i :=
  ⟨fun h' => absurd h' h, fun h' => absurd h' h, fun n va v h' => absurd h' (hsc n va v)⟩

theorem undisturbed_store : (LrScLabel.store (some i)).Undisturbed i := by
  refine ⟨fun va h => ?_, fun initiator h => ?_⟩
  · cases h
  · cases h
    rfl

theorem HartInv.release (h : (s.sys.harts i).task = .idle) :
    HartInv labels (s.release i) i := by
  refine hartInv_of_not_holds ?_ fun n va v hsc => ?_
  · rw [Holds]
    exact Bool.eq_false_iff.mp (BusLock.isLockedBy_unlock _ _)
  · rw [show ((s.release i).sys.harts i).task = .idle from h] at hsc
    cases hsc

theorem HartInv.slowPath (hi : HartInv labels s i) (h : (s.sys.harts i).task = .idle) :
    HartInv (labels ++ [.quiet]) (s.slowPath i) i := by
  have hquiet := @LrScLabel.undisturbed_quiet i
  unfold LrScSystem.slowPath
  dsimp only
  split_ifs with h0 h1
  · exact HartInv.release h
  · refine hi.keep hquiet id rfl (fun _ _ => Nat.pos_of_ne_zero h1) id id fun n va v hsc => ?_
    rw [show ((s.setCounter i (s.lrScCounter i - 1)).sys.harts i).task = .idle from h] at hsc
    cases hsc
  · refine hi.keep hquiet id rfl (fun hc _ => hc) id id fun n va v hsc => ?_
    rw [h] at hsc
    cases hsc

/-- The hart begins an operation that does not take the lock, or only stores. -/
theorem HartInv.keep_begin (hi : HartInv labels s i) (h : (s.sys.harts i).task = .idle)
    (hl : l.Undisturbed i) (hholds : s'.Holds i → s.Holds i)
    (hlr : (s'.sys.harts i).lrAddr = (s.sys.harts i).lrAddr)
    (hcounter : s'.lrScCounter i = s.lrScCounter i)
    (hsc : ∀ n va v, (s'.sys.harts i).task.access ≠ some (.sc n va v)) :
    HartInv (labels ++ [l]) s' i := by
  refine hi.keep hl hholds hlr (fun hc _ => by rw [hcounter]; exact hc) (fun _ => by rw [h]; rfl) ?_ ?_
  · intro _ a ha
    rw [h] at ha
    cases ha
  · intro n va v hsc'
    exact absurd hsc' (hsc n va v)

/-- The hart begins the translation of an access other than that of an `SC`. -/
theorem HartInv.keep_v2p (hi : HartInv labels s i) (h : (s.sys.harts i).task = .idle)
    (hl : l.Undisturbed i) {a : Access} (ha : ∀ n va v, a ≠ .sc n va v) (current : Option ℕ) :
    HartInv (labels ++ [l])
      { s with sys := s.sys.setHart i ((s.sys.harts i).v2p a), current := current } i := by
  refine hi.keep_begin h hl id ?_ rfl fun n va v hsc => ?_
  · rw [System.setHart_self]
    rfl
  · rw [System.setHart_self] at hsc
    cases hsc
    exact ha n va v rfl

/-- An operation that has to wait for the bus is not begun yet. -/
theorem HartInv.keep_control (hi : HartInv labels s i) (h : (s.sys.harts i).task = .idle) :
    HartInv (labels ++ [.quiet]) { s with current := s.sys.control i } i := by
  refine hi.keep_begin h LrScLabel.undisturbed_quiet id rfl rfl fun n va v hsc => ?_
  rw [h] at hsc
  cases hsc

theorem HartInv.begin_load (hi : HartInv labels s i) (h : (s.sys.harts i).task = .idle) (op : LoadOp)
    (va : BitVec 64) (direct : Bool) :
    HartInv (labels ++ [(s.begin i (.load op va direct)).1]) (s.begin i (.load op va direct)).2 i := by
  have hquiet := @LrScLabel.undisturbed_quiet i
  unfold LrScSystem.begin System.begin
  dsimp only
  rw [h]
  dsimp only
  split_ifs
  · exact hi.keep_v2p h hquiet (fun n va v hsc => by cases hsc) _
  · exact hi.keep_v2p h hquiet (fun n va v hsc => by cases hsc) _
  · exact hi.keep_control h

/-- A store whose host address is cached is done at once: the label names the hart as its initiator. -/
theorem HartInv.begin_store (hi : HartInv labels s i) (h : (s.sys.harts i).task = .idle) (n : Width)
    (va v : BitVec 64) (direct : Bool) :
    HartInv (labels ++ [(s.begin i (.store n va v direct)).1]) (s.begin i (.store n va v direct)).2 i := by
  have hl : (s.sys.beginLabel i (.store n va v direct)).Undisturbed i := by
    unfold System.beginLabel
    dsimp only
    split_ifs
    · exact LrScLabel.undisturbed_quiet
    · exact undisturbed_store
  unfold LrScSystem.begin System.begin
  dsimp only
  rw [h]
  dsimp only
  split_ifs
  · exact hi.keep_v2p h hl (fun n va v hsc => by cases hsc) _
  · exact hi.keep_v2p h hl (fun n va v hsc => by cases hsc) _
  · refine hi.keep_begin h hl id rfl rfl fun n va v hsc => ?_
    rw [System.setWorld_harts, h] at hsc
    cases hsc

/-- An AMO takes the lock at its start, for itself. -/
theorem HartInv.begin_amo (hi : HartInv labels s i) (h : (s.sys.harts i).task = .idle) (n : Width)
    (va : BitVec 64) (f : BitVec 64 → BitVec 64) :
    HartInv (labels ++ [(s.begin i (.amo n va f)).1]) (s.begin i (.amo n va f)).2 i := by
  unfold LrScSystem.begin System.begin
  dsimp only
  rw [h]
  dsimp only
  split_ifs
  · exact hi.keep_control h
  · refine ⟨fun _ hamo => ?_, fun _ htakes => ?_, fun n va v hsc => ?_⟩
    · rw [System.setHart_self] at hamo
      cases hamo
    · rw [System.setHart_self] at htakes
      cases htakes _ rfl
    · rw [System.setHart_self] at hsc
      cases hsc

/-- An `LR` takes the lock at its start, and its label makes the reservation. -/
theorem HartInv.begin_lr (hi : HartInv labels s i) (h : (s.sys.harts i).task = .idle) (n : Width)
    (va : BitVec 64) :
    HartInv (labels ++ [(s.begin i (.lr n va)).1]) (s.begin i (.lr n va)).2 i := by
  unfold LrScSystem.begin System.beginLabel System.begin
  dsimp only
  rw [h]
  dsimp only
  split_ifs
  · exact hi.keep_control h
  · refine ⟨fun _ _ => ?_, fun _ htakes => ?_, fun n va v hsc => ?_⟩
    · rw [System.setHart_self]
      exact reserved_lr
    · rw [System.setHart_self] at htakes
      cases htakes _ rfl
    · rw [System.setHart_self] at hsc
      cases hsc

/-- An `SC` that passes its check is one of the reservation; one that fails gives the lock back. -/
theorem HartInv.begin_sc (hi : HartInv labels s i) (h : (s.sys.harts i).task = .idle) (n : Width)
    (va v : BitVec 64) :
    HartInv (labels ++ [(s.begin i (.sc n va v)).1]) (s.begin i (.sc n va v)).2 i := by
  unfold LrScSystem.begin System.begin
  dsimp only
  rw [h]
  dsimp only
  by_cases hlocked : s.sys.world.busLock.isLockedBy i = true
  · rw [if_pos hlocked]
    by_cases hva : va = (s.sys.harts i).lrAddr
    · -- the lock and the address fit: both clauses of the reservation carry over
      rw [if_pos hva, System.setHart_self]
      show HartInv (labels ++ [.quiet])
        ⟨s.sys.setHart i ((s.sys.harts i).v2p (.sc n va v)), s.lrScCounter, some i⟩ i
      have hres := (hi.reserved hlocked (by rw [h]; rfl)).snoc LrScLabel.undisturbed_quiet
      refine ⟨fun _ _ => ?_, fun _ _ => ?_, fun n' va' v' hsc => ?_⟩
      · rw [System.setHart_self]
        exact hres
      · refine hi.counter hlocked fun a ha => ?_
        rw [h] at ha
        cases ha
      · rw [System.setHart_self] at hsc ⊢
        cases hsc
        exact ⟨hva, by rw [hva]; exact hres, Or.inl hlocked⟩
    · rw [if_neg hva, System.setWorld_harts, h]
      refine hartInv_of_not_holds ?_ fun n va v hsc => ?_
      · exact Bool.eq_false_iff.mp (BusLock.isLockedBy_unlock _ _)
      · rw [System.setWorld_harts, h] at hsc
        cases hsc
  · rw [if_neg hlocked, h]
    refine hartInv_of_not_holds hlocked fun n va v hsc => ?_
    rw [h] at hsc
    cases hsc

theorem HartInv.begin (hi : HartInv labels s i) (h : (s.sys.harts i).task = .idle) (op : Op) :
    HartInv (labels ++ [(s.begin i op).1]) (s.begin i op).2 i := by
  cases op with
  | release => exact HartInv.release h
  | load op va direct => exact hi.begin_load h op va direct
  | store n va v direct => exact hi.begin_store h n va v direct
  | fetch n va =>
    unfold LrScSystem.begin System.begin
    dsimp only
    rw [h]
    exact hi.keep_v2p h LrScLabel.undisturbed_quiet (fun n va v hsc => by cases hsc) _
  | amo n va f => exact hi.begin_amo h n va f
  | lr n va => exact hi.begin_lr h n va
  | sc n va v => exact hi.begin_sc h n va v

/-- A trap ends the operation and the reservation. -/
theorem HartInv.trap (h : s.sys.trapped bus i = true) :
    HartInv labels (({ s with sys := (s.sys.resume bus i).2, current := none }).release i) i :=
  HartInv.release (System.resume_of_trapped h).1

/-- The bus is free or the hart's own during an `SC`, so the hart does not wait. -/
theorem HartInv.not_waiting (hi : HartInv labels s i) {n : Width} {va v : BitVec 64}
    (h : (s.sys.harts i).task.access = some (.sc n va v)) : s.sys.waiting i = false := by
  have hb : System.blocked s.sys.world.busLock i = false := by
    unfold System.blocked
    obtain ⟨-, -, hl | ⟨-, hl⟩⟩ := hi.sc n va v h
    · rw [show s.sys.world.busLock.isLockedBy i = true from hl]
      simp
    · rw [hl]
      rfl
  unfold System.waiting
  split
  · exact hb
  · exact hb
  · exact hb
  · rfl

theorem resumeLabel_undisturbed : (s.sys.resumeLabel bus i).Undisturbed i := by
  have hquiet := @LrScLabel.undisturbed_quiet i
  unfold System.resumeLabel
  by_cases hw : s.sys.waiting i = true
  · rw [if_pos hw]
    exact hquiet
  · rw [if_neg hw]
    split
    · exact undisturbed_store
    · split_ifs
      · exact undisturbed_store
      · refine ⟨fun va h => ?_, fun initiator h => ?_⟩
        · cases h
        · cases h
          rfl
    · split_ifs
      · exact undisturbed_store
      · exact hquiet
    · exact hquiet

/-- The state after a raw access that is neither refused nor a trap. -/
def resumedWith (s : LrScSystem δ) (i : ℕ) (sys : System δ) : LrScSystem δ :=
  { s.setCounter i (s.counterAfter i) with sys := sys, current := sys.control i }

/-- A hart that is still in an access has control. -/
theorem control_of_access {sys : System δ} {a : Access} (h : (sys.harts i).task.access = some a) :
    sys.control i = some i := by
  unfold System.control
  cases htask : (sys.harts i).task with
  | idle =>
    rw [htask] at h
    cases h
  | _ => rfl

/-- A raw access of the page table walk: the access goes on.  The lock may have been given back, and then
the bus is free. -/
theorem HartInv.resume_translated (hi : HartInv labels s i) (hl : l.Undisturbed i) {sys : System δ}
    {a : Access} {p : Prog (BitVec 64 × Mmu.Tlb)} (htask : (s.sys.harts i).task = .translating a p)
    (hnext : (sys.harts i).task.access = some a)
    (hlr : (sys.harts i).lrAddr = (s.sys.harts i).lrAddr)
    (hlock : sys.world.busLock = s.sys.world.busLock ∨
      sys.world.busLock = s.sys.world.busLock.unlock i) :
    HartInv (labels ++ [l]) (s.resumedWith i sys) i := by
  have haccess : (s.sys.harts i).task.access = some a := by rw [htask]; rfl
  have hamo : ∀ t : Task, t.access = some a → t.inAmo = a.isAmo := by
    intro t ha
    cases t <;> cases ha <;> rfl
  have hcounter : s.counterAfter i = s.lrScCounter i := by rw [counterAfter, htask]
  refine hi.keep hl ?_ hlr (fun hc _ => ?_) ?_ ?_ ?_
  · rcases hlock with hlock | hlock
    · rw [Holds, resumedWith, hlock]
      exact id
    · rw [Holds, resumedWith, hlock]
      exact System.isLockedBy_of_unlock
  · simpa [resumedWith, setCounter, hcounter] using hc
  · show (sys.harts i).task.inAmo = false → _
    rw [hamo _ hnext, hamo _ haccess]
    exact id
  · intro hno b hb
    rw [haccess] at hb
    exact hno b (hnext.trans hb)
  · intro n va v hsc
    cases hnext.symm.trans hsc
    refine ⟨haccess, ?_⟩
    obtain ⟨-, -, hbus⟩ := hi.sc n va v haccess
    rcases hlock with hlock | hlock
    · rcases hbus with hbus | ⟨-, hbus⟩
      · left
        rw [Holds, resumedWith, hlock]
        exact hbus
      · right
        exact ⟨control_of_access hnext, by rw [resumedWith, hlock]; exact hbus⟩
    · right
      refine ⟨control_of_access hnext, ?_⟩
      rw [resumedWith, hlock]
      exact System.not_locked_unlock (hbus.imp_right fun h => h.2)

/-- A load, a fetch or an `LR` that is done.  Only that of an `LR` sets the counter, and then to a positive
number. -/
theorem HartInv.resume_loaded (hi : HartInv labels s i) (hl : l.Undisturbed i) {sys : System δ}
    {a : Access} {pa : BitVec 64} (htask : (s.sys.harts i).task = .accessing a pa)
    (htype : a.type ≠ .store) (hamo : a.isAmo = false) (hnext : (sys.harts i).task = .idle)
    (hlr : (sys.harts i).lrAddr = (s.sys.harts i).lrAddr)
    (hlock : sys.world.busLock = s.sys.world.busLock) :
    HartInv (labels ++ [l]) (s.resumedWith i sys) i := by
  have haccess : (s.sys.harts i).task.access = some a := by rw [htask]; rfl
  refine ⟨fun h _ => ?_, fun h _ => ?_, fun n va v hsc => ?_⟩
  · rw [Holds, resumedWith, hlock] at h
    rw [resumedWith, hlr]
    exact (hi.reserved h (by rw [htask]; exact hamo)).snoc hl
  · rw [Holds, resumedWith, hlock] at h
    have hothers : takesLock a = false → 0 < s.lrScCounter i := by
      intro hno
      refine hi.counter h fun b hb => ?_
      cases haccess.symm.trans hb
      exact hno
    show 0 < Function.update s.lrScCounter i (s.counterAfter i) i
    rw [Function.update_self, counterAfter, htask]
    cases a with
    | lr n va =>
      dsimp only
      split_ifs <;> omega
    | sc n va v => exact absurd rfl htype
    | load op va add => exact hothers rfl
    | store n va v add => exact absurd rfl htype
    | fetch n va => exact hothers rfl
    | amoLoad n va f => cases hamo
    | amoStore n va v => cases hamo
  · rw [resumedWith, hnext] at hsc
    cases hsc

/-- The load of an AMO: the store comes next, under the same lock. -/
theorem hartInv_amoLoaded {sys : System δ} {n : Width} {va v : BitVec 64}
    (hnext : (sys.harts i).task.access = some (.amoStore n va v)) :
    HartInv labels (s.resumedWith i sys) i := by
  refine ⟨fun _ hamo => ?_, fun _ hno => ?_, fun n va v hsc => ?_⟩
  · have hin : (sys.harts i).task.inAmo = true := by
      cases htask : (sys.harts i).task <;> rw [htask] at hnext <;> cases hnext <;> rfl
    rw [resumedWith, hin] at hamo
    cases hamo
  · cases hno _ hnext
  · cases hnext.symm.trans hsc

theorem HartInv.resume (hi : HartInv labels s i) :
    HartInv (labels ++ [(s.resume bus i).1]) (s.resume bus i).2 i := by
  have hl := @resumeLabel_undisturbed δ bus s i
  unfold LrScSystem.resume
  dsimp only
  by_cases hw : s.sys.waiting i = true
  · rw [if_pos hw]
    refine hi.keep LrScLabel.undisturbed_quiet id rfl (fun hc _ => hc) id id fun n va v hsc => ?_
    rw [hi.not_waiting hsc] at hw
    cases hw
  rw [if_neg hw]
  by_cases ht : s.sys.trapped bus i = true
  · rw [if_pos ht]
    exact HartInv.trap ht
  rw [if_neg ht]
  rw [Bool.not_eq_true] at hw ht
  -- from here on the hart makes a raw access, which is one of those of `Resumed`
  have hres := @System.resumed _ bus _ _ hw ht
  generalize (s.sys.resume bus i).2 = sys at hres ⊢
  generalize s.sys.resumeLabel bus i = l at hl ⊢
  cases hres with
  | idle htask hs =>
    subst hs
    refine hi.keep hl id rfl (fun hc _ => ?_) id id fun n va v hsc => ?_
    · simpa [setCounter, counterAfter, htask] using hc
    · rw [htask] at hsc
      cases hsc
  | translated a p htask hnext hlr hlock => exact hi.resume_translated hl htask hnext hlr hlock
  | stored a pa htask hnext hlock =>
    refine hartInv_of_not_holds ?_ fun n va v hsc => ?_
    · rw [Holds, hlock]
      exact Bool.eq_false_iff.mp (BusLock.isLockedBy_unlock _ _)
    · rw [hnext] at hsc
      cases hsc
  | loaded a pa htask htype hamo hnext hlr hlock =>
    exact hi.resume_loaded hl htask htype hamo hnext hlr hlock
  | amoLoaded n va v hnext hlock => exact hartInv_amoLoaded hnext

theorem HartInv.change (hi : HartInv labels s i) (csrs : Csrs) (prv : PrivilegeLevel) (tlb : Mmu.Tlb)
    (dmi : DmiRanges) (lscache : LsCache) :
    HartInv (labels ++ [.quiet])
      { s with sys := (s.sys.step bus (.change i csrs prv tlb dmi lscache)).2 } i := by
  have hquiet := @LrScLabel.undisturbed_quiet i
  unfold System.step
  dsimp only
  cases htask : (s.sys.harts i).task with
  | idle =>
    refine hi.keep_begin htask hquiet id ?_ rfl fun n va v hsc => ?_
    · rw [System.setHart_self]
    · rw [System.setHart_self] at hsc
      cases hsc
  | translating a p =>
    exact hi.keep hquiet id rfl (fun hc _ => hc) id id fun n va v hsc => ⟨hsc, (hi.sc n va v hsc).2.2⟩
  | accessing a pa =>
    exact hi.keep hquiet id rfl (fun hc _ => hc) id id fun n va v hsc => ⟨hsc, (hi.sc n va v hsc).2.2⟩

theorem HartInv.quiet (hi : HartInv labels s i) : HartInv (labels ++ [.quiet]) s i :=
  hi.keep LrScLabel.undisturbed_quiet id rfl (fun hc _ => hc) id id fun n va v hsc =>
    ⟨hsc, (hi.sc n va v hsc).2.2⟩

/-- A step of the hart itself keeps its invariant. -/
theorem HartInv.step_self (hi : HartInv labels s i) {e : LrScEvent δ} (he : e.hart = some i) :
    HartInv (labels ++ [(s.stepCurrent bus e).1]) (s.stepCurrent bus e).2 i := by
  cases e with
  | slowPath j =>
    cases he
    unfold stepCurrent
    dsimp only
    split
    · next htask => exact hi.slowPath htask
    · exact hi.quiet
  | sys e =>
    cases e with
    | begin j op =>
      cases he
      unfold stepCurrent
      dsimp only
      split
      · next htask => exact hi.begin htask op
      · exact hi.quiet
    | resume j =>
      cases he
      exact hi.resume
    | change j csrs prv tlb dmi lscache =>
      cases he
      exact hi.change csrs prv tlb dmi lscache
    | peripheral f => cases he

end Self

/-! ### One step and whole runs -/

/-- Only a hart that is in an `SC` succeeds with one. -/
theorem access_of_scSucceeds {e : LrScEvent δ} {va : BitVec 64}
    (h : (s.stepCurrent bus e).1 = .scSucceeds i va) :
    ∃ n v, (s.sys.harts i).task.access = some (.sc n va v) := by
  cases e with
  | slowPath j =>
    unfold stepCurrent at h
    dsimp only at h
    split at h <;> cases h
  -- the label is made only where a hart goes on with the raw access of an `SC`
  | sys e =>
    cases e with
    | begin j op =>
      unfold stepCurrent at h
      dsimp only at h
      split at h
      · cases op with
        | sc n va v =>
          unfold begin at h
          dsimp only at h
          split at h <;> cases h
        | store n va v direct =>
          unfold begin System.beginLabel at h
          dsimp only at h
          split_ifs at h
        | lr n va =>
          unfold begin System.beginLabel at h
          dsimp only at h
          split_ifs at h
        | _ => cases h
      · cases h
    | resume j =>
      have hlabel : s.sys.resumeLabel bus j = .scSucceeds i va := by
        unfold stepCurrent resume at h
        dsimp only at h
        split_ifs at h
        · exact h
        · exact h
      unfold System.resumeLabel at hlabel
      by_cases hw : s.sys.waiting j = true
      · rw [if_pos hw] at hlabel
        cases hlabel
      · rw [if_neg hw] at hlabel
        split at hlabel
        · cases hlabel
        · next n va' v pa htask =>
          split_ifs at hlabel
          cases hlabel
          exact ⟨n, v, by rw [htask]; rfl⟩
        · split_ifs at hlabel
        · cases hlabel
    | change j csrs prv tlb dmi lscache => cases h
    | peripheral f =>
      unfold stepCurrent at h
      dsimp only at h
      split_ifs at h

/-- One step keeps the invariant of every hart, and an `SC` succeeds only with a reservation. -/
theorem step_spec (hi : ∀ i, HartInv labels s i) (e : LrScEvent δ) :
    (∀ i va, (s.step bus e).1 = .scSucceeds i va → Reserved labels i va) ∧
      ∀ i, HartInv (labels ++ [(s.step bus e).1]) (s.step bus e).2 i := by
  unfold step
  split_ifs with hcur
  · refine ⟨fun i va h => ?_, fun i => ?_⟩
    · obtain ⟨n, v, hsc⟩ := access_of_scSucceeds h
      exact ((hi i).sc n va v hsc).2.1
    · by_cases he : e.hart = some i
      · exact (hi i).step_self he
      · refine (hi i).step_of_ne he fun hc => ?_
        rcases hcur with hcur | hcur
        · rw [hcur] at hc
          cases hc
        · exact he (hcur.symm.trans hc)
  · refine ⟨fun i va h => ?_, fun i => (hi i).quiet⟩
    cases h

/-- **Reservations are atomic.**  In every run of any number of harts and peripherals: between a
successful `SC` and the last `LR` of the hart, which was to the same address, no store of another hart
or a peripheral takes effect; at most one hart holds the bus lock; and a hart that is between two
instructions holds it only while its `lr_sc_counter` is positive. -/
theorem lrSc_atomic (bus : Bus δ) (world : World δ) (harts : ℕ → Hart)
    (events : List (LrScEvent δ)) :
    Atomic (Run.outputs (step bus) (start world harts) events) ∧
      let s := Run.final (step bus) (start world harts) events
      (∀ i j, s.Holds i → s.Holds j → i = j) ∧
        ∀ i, (s.sys.harts i).task = .idle → s.Holds i → 0 < s.lrScCounter i := by
  have hrun := Run.history_of_invariant
    (fun labels s => Atomic labels ∧ ∀ i, HartInv labels s i)
    (fun labels s e h => ⟨h.1.snoc (@step_spec _ bus _ _ h.2 e).1, (step_spec h.2 e).2⟩)
    (s := start world harts) (h := []) ⟨fun before after i va h => ?_, fun i => ?_⟩ events
  · refine ⟨hrun.1, fun i j => System.eq_of_isLockedBy, fun i hidle h => ?_⟩
    refine (hrun.2 i).counter h fun a ha => ?_
    rw [hidle] at ha
    cases ha
  · simp at h
  · refine hartInv_of_not_holds (fun h => ?_) fun n va v h => ?_
    · cases h
    · cases h

open System.Increment in
/-- An `SC` that sets the dirty bit of the page gives the lock back, and succeeds before hart 1 can
store. -/
example : Run.outputs (step Bus.empty) ⟨System.Increment.start 0x40, fun _ => 0, none⟩
    ([.begin 0 (.lr .word 0x2000), .resume 0, .resume 0, .resume 0,
      .begin 1 (.store .word 0x2000 7 false), .resume 1, .begin 0 (.sc .word 0x2000 1), .resume 0,
      .resume 0, .resume 1, .resume 0, .resume 0, .resume 0].map LrScEvent.sys) =
    [.lr 0 0x2000, .quiet, .quiet, .quiet, .quiet, .quiet, .quiet, .quiet, .store (some 0), .quiet,
      .quiet, .scSucceeds 0 0x2000, .quiet] := by
  decide

end LrScSystem

end RiscvVp
