import Mathlib

/-!
# Computations that keep an invariant

A computation on a state of type `σ` may fail.  `Keeps I x` says that the invariant `I` holds after `x` if it
holds before, whether `x` succeeds or fails.  The rules below follow the structure of `x`.
-/

namespace RiscvVp

variable {E σ α β : Type}

/-- A computation that keeps `I`, also when it fails. -/
def Keeps (I : σ → Prop) (x : ExceptT E (StateM σ) α) : Prop := ∀ s, I s → I (x s).2

namespace Keeps

variable {I : σ → Prop} {x : ExceptT E (StateM σ) α}

theorem pure (a : α) : Keeps I (Pure.pure a : ExceptT E (StateM σ) α) := fun _ hs => hs

/-- What comes after the first computation is only reached where the invariant holds. -/
theorem bind {f : α → ExceptT E (StateM σ) β} (hx : Keeps I x) (hf : ∀ a, Keeps I (f a)) :
    Keeps I (x >>= f) := by
  intro s hs
  show I ((ExceptT.bind x f) s).2
  have hs' := hx s hs
  simp only [ExceptT.bind, ExceptT.mk, Bind.bind, StateT.bind]
  rcases hrun : x s with ⟨e | a, s'⟩
  · rw [hrun] at hs'
    exact hs'
  · rw [hrun] at hs'
    exact hf a s' hs'

theorem ite {c : Prop} [Decidable c] {y : ExceptT E (StateM σ) α} (hx : c → Keeps I x)
    (hy : ¬c → Keeps I y) : Keeps I (if c then x else y) := by
  split_ifs with h
  · exact hx h
  · exact hy h

/-- A loop whose body keeps the invariant. -/
theorem forM {l : List α} {f : α → ExceptT E (StateM σ) PUnit} (hf : ∀ a ∈ l, Keeps I (f a)) :
    Keeps I (l.forM f) := by
  induction l with
  | nil => exact pure _
  | cons a l ih =>
    exact (hf a List.mem_cons_self).bind fun _ => ih fun b hb => hf b (List.mem_cons_of_mem a hb)

end Keeps

end RiscvVp
