import Mathlib

/-!
# Loops that select the first of the best

A loop runs over the numbers from one on and keeps the candidate with the highest priority seen so far;
of several candidates with the same priority it keeps the first.  Zero is kept as long as there is none.
`Select.foldl_pick` says what such a loop ends with.
-/

namespace RiscvVp.Select

variable {α : Type*} [LT α] [DecidableLT α]

/-- One round: the number that is kept, with its priority. -/
def pick (cand : ℕ → Bool) (prio : ℕ → α) (sel : ℕ × α) (i : ℕ) : ℕ × α :=
  if cand i = true ∧ sel.2 < prio i then (i, prio i) else sel

/-- The lowest of the numbers with `P` whose value is highest. -/
structure IsFirstMax (P : ℕ → Prop) (value : ℕ → ℕ) (i : ℕ) : Prop where
  mem : P i
  highest : ∀ j, P j → value j ≤ value i
  lowest : ∀ j, P j → value j = value i → i ≤ j

variable {P : ℕ → Prop} {value : ℕ → ℕ} {i j : ℕ}

/-- There is at most one first maximum, so a selection by it is a function. -/
theorem IsFirstMax.unique (hi : IsFirstMax P value i) (hj : IsFirstMax P value j) : i = j := by
  have hle := hj.highest i hi.mem
  have hge := hi.highest j hj.mem
  have hij := hi.lowest j hj.mem (by omega)
  have hji := hj.lowest i hi.mem (by omega)
  omega

/-- **What the loop ends with**: zero if no candidate has a positive value, and else the first of the
best. -/
theorem foldl_pick (cand : ℕ → Bool) (prio : ℕ → α) (bot : α) {val : α → ℕ}
    (hlt : ∀ a b, a < b ↔ val a < val b) (hbot : val bot = 0) (n : ℕ) :
    let r := (List.range' 1 n).foldl (pick cand prio) (0, bot)
    let Q : ℕ → Prop := fun i => 0 < i ∧ i ≤ n ∧ cand i = true ∧ 0 < val (prio i)
    (r = (0, bot) ∧ ∀ i, ¬Q i) ∨ r.2 = prio r.1 ∧ IsFirstMax Q (fun i => val (prio i)) r.1 := by
  -- induction on the number of candidates, of which the loop looks at the last one last
  induction n with
  | zero =>
    left
    refine ⟨rfl, ?_⟩
    rintro i ⟨hpos, hle, -⟩
    omega
  | succ n ih =>
    have hone : 1 + 1 * n = n + 1 := by omega
    rw [List.range'_concat, List.foldl_append, hone]
    dsimp only [List.foldl_cons, List.foldl_nil] at ih ⊢
    set r := (List.range' 1 n).foldl (pick cand prio) (0, bot)
    by_cases hnew : cand (n + 1) = true ∧ r.2 < prio (n + 1)
    · -- the last number is better than all before it
      right
      have hpick : pick cand prio r (n + 1) = (n + 1, prio (n + 1)) := if_pos hnew
      have hval := (hlt _ _).mp hnew.2
      rw [hpick]
      refine ⟨rfl, ⟨⟨by omega, le_refl _, hnew.1, Nat.zero_lt_of_lt hval⟩, ?_, ?_⟩⟩
      · rintro j ⟨hj0, hjn, hjc, hjv⟩
        rcases Nat.lt_or_eq_of_le hjn with hlt' | rfl
        · rcases ih with ⟨-, hnone⟩ | ⟨hr2, hmax⟩
          · exact absurd ⟨hj0, by omega, hjc, hjv⟩ (hnone j)
          · have hle := hmax.highest j ⟨hj0, by omega, hjc, hjv⟩
            rw [hr2] at hval
            dsimp only at hle ⊢
            omega
        · exact le_refl _
      · rintro j ⟨hj0, hjn, hjc, hjv⟩ heq
        dsimp only at heq ⊢
        rcases Nat.lt_or_eq_of_le hjn with hlt' | rfl
        · exfalso
          rcases ih with ⟨-, hnone⟩ | ⟨hr2, hmax⟩
          · exact hnone j ⟨hj0, by omega, hjc, hjv⟩
          · have hle := hmax.highest j ⟨hj0, by omega, hjc, hjv⟩
            rw [hr2] at hval
            omega
        · exact le_refl _
    · -- the last number is no candidate, or not better than the best before it
      have hpick : pick cand prio r (n + 1) = r := if_neg hnew
      rw [hpick]
      have hnot : ∀ {v}, r.2 = v → cand (n + 1) = true → val (prio (n + 1)) ≤ val v := by
        rintro v rfl hc
        have hle := mt (hlt r.2 (prio (n + 1))).mpr fun hv => hnew ⟨hc, hv⟩
        omega
      rcases ih with ⟨hr, hnone⟩ | ⟨hr2, hmax⟩
      · left
        refine ⟨hr, ?_⟩
        rintro j ⟨hj0, hjn, hjc, hjv⟩
        rcases Nat.lt_or_eq_of_le hjn with hlt' | rfl
        · exact hnone j ⟨hj0, by omega, hjc, hjv⟩
        · have hle := hnot rfl hjc
          rw [hr] at hle
          dsimp only at hle
          omega
      · right
        obtain ⟨hm0, hmn, hmc, hmv⟩ := hmax.mem
        refine ⟨hr2, ⟨⟨hm0, by omega, hmc, hmv⟩, ?_, ?_⟩⟩
        · rintro j ⟨hj0, hjn, hjc, hjv⟩
          rcases Nat.lt_or_eq_of_le hjn with hlt' | rfl
          · exact hmax.highest j ⟨hj0, by omega, hjc, hjv⟩
          · exact hnot hr2 hjc
        · rintro j ⟨hj0, hjn, hjc, hjv⟩ heq
          rcases Nat.lt_or_eq_of_le hjn with hlt' | rfl
          · exact hmax.lowest j ⟨hj0, by omega, hjc, hjv⟩ heq
          · omega

end RiscvVp.Select
