import RiscvVp.Cheri.TaggedMemory
import Mathlib

/-!
# Where tags come from

A tag says that its granule holds a capability that was stored there as one.  Each of the write
functions sets one tag, that of the granule its first byte lies in, however many granules it writes
to.  `TaggedMemory.tagIntegrity_iff` says that this is harmless exactly as long as the granules after
the first are untagged and no tagged store is misaligned.
-/

namespace RiscvVp.Cheri.TaggedMemory

/-! ### Writes -/

/-- A write to memory: a transaction, or a store through a window. -/
inductive Write
  | transport (address : BitVec 64) (data : Bytes) (length : BitVec 32) (tag : Bool)
  | store (addr : BitVec 64) (n : ℕ) (value : BitVec (8 * n))
  | storeTagged (addr : BitVec 64) (data : BitVec 128) (tag : Bool)

namespace Write

variable (d : MemoryDMI)

/-- The place of the first byte that is written. -/
def first : Write → ℕ
  | transport address _ _ _ => (address.setWidth 32).toNat
  | store addr _ _ => d.offset addr
  | storeTagged addr _ _ => d.offset addr

/-- The number of bytes that are written. -/
def len : Write → ℕ
  | transport _ _ length _ => length.toNat
  | store _ n _ => n
  | storeTagged _ _ _ => clen

/-- The tag that is written: that of the payload or of the argument, and none for a store of data. -/
def tag : Write → Bool
  | transport _ _ _ tag => tag
  | store _ _ _ => false
  | storeTagged _ _ tag => tag

/-- The write modifies a byte of the granule. -/
def Touches (w : Write) (i : ℕ) : Prop :=
  ∃ a, w.first d ≤ a ∧ a < w.first d + w.len ∧ a / clen = i

/-- A tagged store of sixteen aligned bytes that are the granule. -/
def IsCapStore (w : Write) (i : ℕ) : Prop :=
  w.tag = true ∧ w.len = clen ∧ w.first d = i * clen

/-- What keeps the tags right: a tagged store is aligned, and the granules after the first one that the
write touches are not tagged. -/
def Clean (w : Write) (m : TaggedMemory) : Prop :=
  (w.tag = true → w.first d % clen = 0) ∧
    ∀ i, w.Touches d i → i ≠ w.first d / clen → m.tagged i = false

end Write

/-- One write to main memory, over the bus or through the pointer; `none` where the source stops the
simulation. -/
def write (d : MemoryDMI) (m : TaggedMemory) : Write → Option TaggedMemory
  | .transport address data length tag =>
    (m.transportDbg ⟨.write, address, data, length, some tag⟩).map Prod.fst
  | .store addr n value => d.store m addr n value
  | .storeTagged addr data tag => d.storeTagged m addr data tag

variable {d : MemoryDMI} {m m' : TaggedMemory} {w : Write} {ws : List Write}

/-- A tag is right: the last write to its granule was a capability store, or there was none and the tag
is as it was. -/
def Justified (d : MemoryDMI) (m : TaggedMemory) (ws : List Write) (i : ℕ) : Prop :=
  (∃ us w vs, ws = us ++ w :: vs ∧ w.IsCapStore d i ∧ ∀ v ∈ vs, ¬v.Touches d i) ∨
    ((∀ w ∈ ws, ¬w.Touches d i) ∧ m.tagged i = true)

/-- In every state of a run, all tags that are set are right. -/
def TagIntegrity (d : MemoryDMI) (m : TaggedMemory) (ws : List Write) : Prop :=
  ∀ us, us <+: ws → ∀ m', us.foldlM (write d) m = some m' →
    ∀ i, m'.tagged i = true → Justified d m us i

/-- Every write of a run that is done is clean in the state before it. -/
def AllClean (d : MemoryDMI) (m : TaggedMemory) (ws : List Write) : Prop :=
  ∀ us w, us ++ [w] <+: ws → ∀ m' m'', us.foldlM (write d) m = some m' →
    write d m' w = some m'' → w.Clean d m'

/-! ### What one write does to the tags -/

theorem tagged_setTag {i : ℕ} {tag : Bool} (h : m.setTag i tag = some m') (j : ℕ) :
    m'.tagged j = if j = i then tag else m.tagged j := by
  unfold setTag at h
  split_ifs at h with hi
  obtain rfl := Option.some.inj h
  by_cases hj : j = i
  · subst hj
    simp [tagged, hi]
  · rw [if_neg hj, tagged, tagged, Vector.getElem?_set_ne hi (Ne.symm hj)]

/-- The tag of the first granule is set or cleared, and no other changes. -/
theorem tagged_write (h : write d m w = some m') (i : ℕ) :
    m'.tagged i = if i = w.first d / clen then w.tag else m.tagged i := by
  cases w with
  | transport address data length tag =>
    simp only [write, transportDbg, Option.map_eq_some_iff] at h
    obtain ⟨⟨m'', t⟩, h, rfl⟩ := h
    split_ifs at h
    rw [Option.map_eq_some_iff] at h
    obtain ⟨mw, h, hm⟩ := h
    cases hm
    unfold writeData at h
    split_ifs at h
    exact tagged_setTag h i
  | store addr n value =>
    simp only [write, MemoryDMI.store, Option.bind_eq_bind, Option.bind_eq_some_iff] at h
    obtain ⟨dst, -, h⟩ := h
    exact tagged_setTag h i
  | storeTagged addr data tag =>
    simp only [write, MemoryDMI.storeTagged, Option.bind_eq_bind, Option.bind_eq_some_iff] at h
    obtain ⟨dst, -, h⟩ := h
    exact tagged_setTag h i

/-- A tagged write that is done has the length of a capability. -/
theorem len_eq_of_tag (h : write d m w = some m') (htag : w.tag = true) : w.len = clen := by
  cases w with
  | transport address data length tag =>
    simp only [write, transportDbg, Option.map_eq_some_iff] at h
    obtain ⟨⟨m'', t⟩, h, rfl⟩ := h
    split_ifs at h
    rw [Option.map_eq_some_iff] at h
    obtain ⟨mw, h, -⟩ := h
    unfold writeData at h
    split_ifs at h with hlen
    by_contra hne
    exact hlen ⟨htag, hne⟩
  | store addr n value => exact nomatch htag
  | storeTagged addr data tag => rfl

namespace Write

theorem touches_first (hlen : w.len ≠ 0) : w.Touches d (w.first d / clen) :=
  ⟨w.first d, Nat.le_refl _, by omega, rfl⟩

theorem IsCapStore.first_div {i : ℕ} (h : w.IsCapStore d i) : w.first d / clen = i := by
  rw [h.2.2]
  exact Nat.mul_div_cancel i (by decide)

theorem isCapStore_of_aligned (htag : w.tag = true) (hlen : w.len = clen)
    (hal : w.first d % clen = 0) : w.IsCapStore d (w.first d / clen) :=
  ⟨htag, hlen, (Nat.div_mul_cancel (Nat.dvd_of_mod_eq_zero hal)).symm⟩

end Write

/-! ### One more write -/

/-- A granule that the next write does not touch stays justified. -/
theorem Justified.append {i : ℕ} (h : Justified d m ws i) (hw : ¬w.Touches d i) :
    Justified d m (ws ++ [w]) i := by
  rcases h with ⟨us, v, vs, rfl, hv, hvs⟩ | ⟨hnone, hm⟩
  · refine Or.inl ⟨us, v, vs ++ [w], by simp, hv, ?_⟩
    intro x hx
    rcases List.mem_append.mp hx with hx | hx
    · exact hvs x hx
    · rwa [List.mem_singleton.mp hx]
  · refine Or.inr ⟨?_, hm⟩
    intro x hx
    rcases List.mem_append.mp hx with hx | hx
    · exact hnone x hx
    · rwa [List.mem_singleton.mp hx]

/-- A granule that the last write touches is justified only by this write. -/
theorem isCapStore_of_justified {i : ℕ} (h : Justified d m (ws ++ [w]) i) (hw : w.Touches d i) :
    w.IsCapStore d i := by
  rcases h with ⟨us, v, vs, heq, hv, hvs⟩ | ⟨hnone, -⟩
  · rcases List.eq_nil_or_concat vs with rfl | ⟨vs', x, rfl⟩
    · have hlast := congrArg List.getLast? heq
      simp only [List.getLast?_append, List.getLast?_singleton, Option.some_or] at hlast
      rwa [Option.some.inj hlast]
    · have hlast := congrArg List.getLast? heq
      rw [List.concat_eq_append, ← List.cons_append, ← List.append_assoc] at hlast
      simp only [List.getLast?_append, List.getLast?_singleton, Option.some_or] at hlast
      obtain rfl := Option.some.inj hlast
      exact absurd hw (hvs w (by simp))
  · exact absurd hw (hnone w (by simp))

/-- The tags after a write are right if and only if the write is clean, provided that those before it
are. -/
theorem justified_write_iff (h : write d m' w = some m'')
    (hbefore : ∀ i, m'.tagged i = true → Justified d m ws i) :
    (∀ i, m''.tagged i = true → Justified d m (ws ++ [w]) i) ↔ w.Clean d m' := by
  constructor
  · intro hafter
    refine ⟨fun htag => ?_, fun i hi hne => ?_⟩
    · have hlen := len_eq_of_tag h htag
      have hfirst := hafter (w.first d / clen) (by rw [tagged_write h, if_pos rfl, htag])
      have hcap := isCapStore_of_justified hfirst
        (Write.touches_first (by rw [hlen]; decide))
      rw [hcap.2.2]
      exact Nat.mul_mod_left _ _
    · by_contra htagged
      rw [Bool.not_eq_false] at htagged
      have hright := hafter i (by rw [tagged_write h, if_neg hne, htagged])
      exact hne (isCapStore_of_justified hright hi).first_div.symm
  · rintro ⟨hal, hothers⟩ i hi
    rw [tagged_write h] at hi
    split_ifs at hi with hfirst
    · subst hfirst
      have hcap := Write.isCapStore_of_aligned hi (len_eq_of_tag h hi) (hal hi)
      exact Or.inl ⟨ws, w, [], rfl, hcap, by simp⟩
    · refine (hbefore i hi).append fun ht => ?_
      rw [hothers i ht hfirst] at hi
      exact nomatch hi

/-! ### Runs -/

/-- A run with one more write: the run before it, and the write on what it left. -/
theorem foldlM_append_singleton (us : List Write) :
    (us ++ [w]).foldlM (write d) m = (us.foldlM (write d) m).bind fun m' => write d m' w := by
  simp [List.foldlM_append]

/-- **Tags are right in every state of a run, from any memory, if and only if every write of the run
touches no tagged granule beyond its first one, and every tagged store is aligned.** -/
theorem tagIntegrity_iff (d : MemoryDMI) (m : TaggedMemory) (ws : List Write) :
    TagIntegrity d m ws ↔ AllClean d m ws := by
  constructor
  · intro h us w hpre m' m'' hm' hm''
    refine (justified_write_iff hm'' (h us ((List.prefix_append us [w]).trans hpre) m' hm')).mp ?_
    exact h (us ++ [w]) hpre m'' (by rw [foldlM_append_singleton, hm', Option.bind_some, hm''])
  · intro h us
    induction us using List.reverseRecOn with
    | nil =>
      intro _ m' hm' i hi
      obtain rfl : m = m' := Option.some.inj hm'
      exact Or.inr ⟨by simp, hi⟩
    | append_singleton us w ih =>
      intro hpre m'' hm''
      rw [foldlM_append_singleton, Option.bind_eq_some_iff] at hm''
      obtain ⟨m', hm', hw⟩ := hm''
      have hbefore := ih ((List.prefix_append us [w]).trans hpre) m' hm'
      exact (justified_write_iff hw hbefore).mpr (h us w hpre m' m'' hm' hw)

/-! ### A transaction over two granules -/

namespace Overwrite

/-- Sixty-four bytes at `0x80000000`. -/
def dmi : MemoryDMI := ⟨0x80000000, 64, by decide⟩

/-- A capability is stored at the second granule; then a transaction writes thirty-two bytes from the
first one on. -/
def writes : List Write :=
  [.storeTagged 0x80000010 0 true, .transport 0 (fun _ => 0xFF) 32 false]

end Overwrite

open Overwrite in
/-- The tag of the second granule is still set after the transaction. -/
theorem not_tagIntegrity_transport : ¬TagIntegrity dmi (reset 64) writes := by
  intro h
  have hright : Justified dmi (reset 64)
      ([.storeTagged 0x80000010 0 true] ++ [.transport 0 (fun _ => 0xFF) 32 false]) 1 :=
    h writes (List.prefix_refl writes) _ rfl 1 (by decide)
  have hcap := isCapStore_of_justified hright ⟨16, by decide, by decide, by decide⟩
  exact nomatch hcap.1

end RiscvVp.Cheri.TaggedMemory
