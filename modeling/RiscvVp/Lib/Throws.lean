import Mathlib

/-!
# What a computation can throw

`Throws φ x` says that every error of the computation `x` satisfies `φ`, from whatever state it is run.
The rules below follow the structure of `x`.
-/

namespace RiscvVp

variable {E σ α β : Type}

/-- A computation whose errors satisfy `φ`. -/
def Throws (φ : E → Prop) (x : ExceptT E (StateM σ) α) : Prop :=
  ∀ s e, (x s).1 = .error e → φ e

namespace Throws

variable {φ : E → Prop} {x : ExceptT E (StateM σ) α}

theorem mono {ψ : E → Prop} (h : ∀ e, φ e → ψ e) (hx : Throws φ x) : Throws ψ x :=
  fun s e he => h e (hx s e he)

theorem pure (a : α) : Throws φ (Pure.pure a : ExceptT E (StateM σ) α) := fun _ _ h => nomatch h

/-- A computation that always ends with the error `e`. -/
theorem throw {e : E} (he : φ e) : Throws φ (throwThe E e : ExceptT E (StateM σ) α) := by
  intro s e' h
  cases h
  exact he

/-- An error comes from the first computation or from what follows it. -/
theorem bind {f : α → ExceptT E (StateM σ) β} (hx : Throws φ x) (hf : ∀ a, Throws φ (f a)) :
    Throws φ (x >>= f) := by
  intro s e h
  replace h : ((ExceptT.bind x f) s).1 = .error e := h
  simp only [ExceptT.bind, ExceptT.mk, Bind.bind, StateT.bind] at h
  rcases hrun : x s with ⟨e' | a, s'⟩
  · rw [hrun] at h
    cases h
    exact hx s e (by rw [hrun])
  · rw [hrun] at h
    exact hf a s' e h

theorem ite {c : Prop} [Decidable c] {y : ExceptT E (StateM σ) α} (hx : c → Throws φ x)
    (hy : ¬c → Throws φ y) : Throws φ (if c then x else y) := by
  split_ifs with h
  · exact hx h
  · exact hy h

end Throws

end RiscvVp
