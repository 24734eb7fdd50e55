import Mathlib

/-!
# Computations that keep a log

A computation on a state of type `σ` may fail.  The state has a log, which a computation may append to.
`Log.Appends log I φ x` says that `x`, started where the invariant `I` holds, keeps `I` and appends only
entries that satisfy `φ`, if it succeeds.  The rules below follow the structure of `x`.
-/

namespace RiscvVp.Log

variable {E σ ε α β : Type}

/-- A computation that keeps `I` and appends entries satisfying `φ` only, if it succeeds. -/
def Appends (log : σ → List ε) (I : σ → Prop) (φ : ε → Prop) (x : ExceptT E (StateM σ) α) : Prop :=
  ∀ s, I s → ∀ a s', x s = (.ok a, s') → I s' ∧ ∃ new, log s' = log s ++ new ∧ ∀ e ∈ new, φ e

namespace Appends

variable {log : σ → List ε} {I : σ → Prop} {φ ψ : ε → Prop} {x : ExceptT E (StateM σ) α}

/-- A computation that leaves the log as it is. -/
theorem of_log_eq (h : ∀ s, I s → ∀ a s', x s = (.ok a, s') → I s' ∧ log s' = log s) :
    Appends log I φ x := by
  intro s hs a s' hx
  obtain ⟨hI, hlog⟩ := h s hs a s' hx
  exact ⟨hI, [], by rw [hlog, List.append_nil], fun _ he => nomatch he⟩

theorem pure (a : α) : Appends log I φ (Pure.pure a : ExceptT E (StateM σ) α) :=
  of_log_eq fun _ hs _ _ hx => by
    cases hx
    exact ⟨hs, rfl⟩

theorem bind {f : α → ExceptT E (StateM σ) β} (hx : Appends log I φ x)
    (hf : ∀ a, Appends log I φ (f a)) : Appends log I φ (x >>= f) := by
  intro s hs b s'' h
  replace h : (ExceptT.bind x f) s = (.ok b, s'') := h
  simp only [ExceptT.bind, ExceptT.mk, Bind.bind, StateT.bind] at h
  rcases hrun : x s with ⟨e | a, s'⟩
  · rw [hrun] at h
    cases h
  · rw [hrun] at h
    obtain ⟨hs', new, hlog, hnew⟩ := hx s hs a s' hrun
    obtain ⟨hs'', new', hlog', hnew'⟩ := hf a s' hs' b s'' h
    refine ⟨hs'', new ++ new', by rw [hlog', hlog, List.append_assoc], fun e he => ?_⟩
    rcases List.mem_append.mp he with he | he
    · exact hnew e he
    · exact hnew' e he

theorem mono (hx : Appends log I φ x) (h : ∀ e, φ e → ψ e) : Appends log I ψ x := by
  intro s hs a s' hrun
  obtain ⟨hs', new, hlog, hnew⟩ := hx s hs a s' hrun
  exact ⟨hs', new, hlog, fun e he => h e (hnew e he)⟩

theorem ite {c : Prop} [Decidable c] {y : ExceptT E (StateM σ) α} (hx : c → Appends log I φ x)
    (hy : ¬c → Appends log I φ y) : Appends log I φ (if c then x else y) := by
  split_ifs with h
  · exact hx h
  · exact hy h

/-- A loop whose body appends such entries. -/
theorem forM {l : List α} {f : α → ExceptT E (StateM σ) PUnit}
    (hf : ∀ a ∈ l, Appends log I φ (f a)) : Appends log I φ (l.forM f) := by
  induction l with
  | nil => exact pure _
  | cons a l ih =>
    exact (hf a List.mem_cons_self).bind fun _ => ih fun b hb => hf b (List.mem_cons_of_mem a hb)

end Appends

end RiscvVp.Log
