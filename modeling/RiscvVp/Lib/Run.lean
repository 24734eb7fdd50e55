import Mathlib

/-!
# Runs of a machine that answers its inputs

A machine is a function `step : σ → α → β × σ`.  `Run.outputs` is what it answers to a list of
inputs, `Run.final` the state it ends in, and `Run.Along P` says that `P` holds of every state of
the run together with the input it is given.  The rules below turn a fact about one step into a
fact about whole runs.
-/

namespace RiscvVp.Run

variable {σ τ α β : Type*}

/-- The answers to a list of inputs. -/
def outputs (step : σ → α → β × σ) (s : σ) : List α → List β
  | [] => []
  | a :: as => (step s a).1 :: outputs step (step s a).2 as

/-- The state after a list of inputs. -/
def final (step : σ → α → β × σ) (s : σ) : List α → σ
  | [] => s
  | a :: as => final step (step s a).2 as

theorem final_append (step : σ → α → β × σ) (s : σ) (as bs : List α) :
    final step s (as ++ bs) = final step (final step s as) bs := by
  induction as generalizing s with
  | nil => rfl
  | cons a as ih => exact ih (step s a).2

theorem outputs_append (step : σ → α → β × σ) (s : σ) (as bs : List α) :
    outputs step s (as ++ bs) = outputs step s as ++ outputs step (final step s as) bs := by
  induction as generalizing s with
  | nil => rfl
  | cons a as ih => exact congrArg _ (ih (step s a).2)

theorem length_outputs (step : σ → α → β × σ) (s : σ) (as : List α) :
    (outputs step s as).length = as.length := by
  induction as generalizing s with
  | nil => rfl
  | cons a as ih => exact congrArg _ (ih (step s a).2)

/-- `P` holds at every step of the run. -/
def Along (P : σ → α → Prop) (step : σ → α → β × σ) (s : σ) : List α → Prop
  | [] => True
  | a :: as => P s a ∧ Along P step (step s a).2 as

instance Along.decidable (P : σ → α → Prop) [∀ s a, Decidable (P s a)] (step : σ → α → β × σ) :
    ∀ (as : List α) (s : σ), Decidable (Along P step s as)
  | [], _ => isTrue trivial
  | a :: as, s =>
    have := Along.decidable P step as (step s a).2
    inferInstanceAs (Decidable (P s a ∧ Along P step (step s a).2 as))

variable {step : σ → α → β × σ} {P Q : σ → α → Prop}

theorem Along.mono (hPQ : ∀ s a, P s a → Q s a) {s : σ} {as : List α} (hP : Along P step s as) :
    Along Q step s as := by
  induction as generalizing s with
  | nil => trivial
  | cons a as ih => exact ⟨hPQ s a hP.1, ih hP.2⟩

theorem Along.and {s : σ} {as : List α} (hP : Along P step s as) (hQ : Along Q step s as) :
    Along (fun s a => P s a ∧ Q s a) step s as := by
  induction as generalizing s with
  | nil => trivial
  | cons a as ih => exact ⟨⟨hP.1, hQ.1⟩, ih hP.2 hQ.2⟩

theorem Along.of_forall {R : α → Prop} {as : List α} (h : ∀ a ∈ as, R a) (s : σ) :
    Along (fun _ a => R a) step s as := by
  induction as generalizing s with
  | nil => trivial
  | cons a as ih =>
    exact ⟨h a List.mem_cons_self, ih (fun b hb => h b (List.mem_cons_of_mem a hb)) (step s a).2⟩

/-- The last step of a run meets what every step of the run meets. -/
theorem Along.last {s : σ} {as : List α} {a : α} (h : Along P step s (as ++ [a])) :
    P (final step s as) a := by
  induction as generalizing s with
  | nil => exact h.1
  | cons b as ih => exact ih h.2

/-- An invariant that steps meeting `P` preserve gives `Q` at every step of such a run. -/
theorem Along.of_invariant (I : σ → Prop)
    (hstep : ∀ s a, I s → P s a → Q s a ∧ I (step s a).2) {s : σ} {as : List α} (hI : I s)
    (hP : Along P step s as) : Along Q step s as := by
  induction as generalizing s with
  | nil => trivial
  | cons a as ih =>
    obtain ⟨hQ, hI'⟩ := hstep s a hI hP.1
    exact ⟨hQ, ih hI' hP.2⟩

/-- Two properties of steps that agree as long as an invariant holds, which the first one keeps. -/
theorem Along.iff_of_invariant {I : σ → Prop} (hiff : ∀ s a, I s → (P s a ↔ Q s a))
    (hstep : ∀ s a, I s → P s a → I (step s a).2) {s : σ} {as : List α} (hI : I s) :
    Along P step s as ↔ Along Q step s as := by
  induction as generalizing s with
  | nil => exact Iff.rfl
  | cons a as ih =>
    constructor
    · rintro ⟨hP, hrest⟩
      exact ⟨(hiff s a hI).mp hP, (ih (hstep s a hI hP)).mp hrest⟩
    · rintro ⟨hQ, hrest⟩
      have hP := (hiff s a hI).mpr hQ
      exact ⟨hP, (ih (hstep s a hI hP)).mpr hrest⟩

/-- The invariant holds of the state a run ends in. -/
theorem final_of_invariant (I : σ → Prop) (hstep : ∀ s a, I s → P s a → I (step s a).2) {s : σ}
    {as : List α} (hI : I s) (hP : Along P step s as) : I (final step s as) := by
  induction as generalizing s with
  | nil => exact hI
  | cons a as ih => exact ih (hstep s a hI hP.1) hP.2

/-- An invariant of the answers so far and the state. -/
theorem history_of_invariant (I : List β → σ → Prop)
    (hstep : ∀ h s a, I h s → I (h ++ [(step s a).1]) (step s a).2) {h : List β} {s : σ}
    (hI : I h s) (as : List α) : I (h ++ outputs step s as) (final step s as) := by
  induction as generalizing h s with
  | nil =>
    rw [outputs, List.append_nil]
    exact hI
  | cons a as ih =>
    have hrest := ih (hstep h s a hI)
    rw [List.append_assoc, List.singleton_append] at hrest
    exact hrest

/-- If no step turns a clock back and the values that steps answer are what the clock shows then, the
values are in order. -/
theorem pairwise_of_clock (clock : σ → ℕ) (value : β → Option ℕ)
    (hstep : ∀ s a, P s a → clock s ≤ clock (step s a).2 ∧
      ∀ v, value (step s a).1 = some v → v = clock (step s a).2)
    {s : σ} {as : List α} (hP : Along P step s as) :
    ((outputs step s as).filterMap value).Pairwise (· ≤ ·) ∧
      ∀ v ∈ (outputs step s as).filterMap value, clock s ≤ v := by
  induction as generalizing s with
  | nil => exact ⟨List.Pairwise.nil, fun v hv => absurd hv List.not_mem_nil⟩
  | cons a as ih =>
    obtain ⟨hle, hvalue⟩ := hstep s a hP.1
    obtain ⟨hsorted, hge⟩ := ih hP.2
    rw [outputs]
    cases hv : value (step s a).1 with
    | none =>
      rw [List.filterMap_cons_none hv]
      exact ⟨hsorted, fun w hw => hle.trans (hge w hw)⟩
    | some v =>
      rw [List.filterMap_cons_some hv, List.pairwise_cons]
      have hclock := hvalue v hv
      refine ⟨⟨fun w hw => hclock ▸ hge w hw, hsorted⟩, fun w hw => ?_⟩
      rcases List.mem_cons.mp hw with rfl | hw
      · exact hclock ▸ hle
      · exact hle.trans (hge w hw)

/-- Two machines that a simulation relates give the same answers. -/
theorem outputs_eq_of_sim {step' : τ → α → β × τ} (R : σ → τ → Prop)
    (hstep : ∀ s t a, R s t → P s a →
      (step s a).1 = (step' t a).1 ∧ R (step s a).2 (step' t a).2)
    {s : σ} {t : τ} {as : List α} (hR : R s t) (hP : Along P step s as) :
    outputs step s as = outputs step' t as := by
  induction as generalizing s t with
  | nil => rfl
  | cons a as ih =>
    obtain ⟨hout, hR'⟩ := hstep s t a hR hP.1
    rw [outputs, outputs, hout, ih hR' hP.2]

/-- Two machines that a simulation relates end in related states. -/
theorem final_of_sim {step' : τ → α → β × τ} (R : σ → τ → Prop)
    (hstep : ∀ s t a, R s t → P s a →
      (step s a).1 = (step' t a).1 ∧ R (step s a).2 (step' t a).2)
    {s : σ} {t : τ} {as : List α} (hR : R s t) (hP : Along P step s as) :
    R (final step s as) (final step' t as) := by
  induction as generalizing s t with
  | nil => exact hR
  | cons a as ih => exact ih (hstep s t a hR hP.1).2 hP.2

end RiscvVp.Run
