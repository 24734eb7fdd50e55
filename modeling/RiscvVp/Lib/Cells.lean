import Mathlib

/-!
# Arrays of cells

An array of cells with reads and writes of several cells at once, and what a sequence of these reads.  A
machine whose steps simulate reads and writes of one array behaves over a whole sequence of steps as if there
were this array (`Cells.runWith_eq_run`).  A machine that puts blocks into an array, none over another, ends
with each of them in its place (`Cells.foldlM_eq_putAll`, `Cells.putAll_of_covers`).
-/

namespace RiscvVp

/-- An array of cells. -/
abbrev Cells (α : Type) := ℕ → α

namespace Cells

variable {α β σ : Type}

/-- An operation on an array. -/
inductive Op (α : Type)
  | read (offset length : ℕ)
  | write (offset : ℕ) (data : List α)

/-- The cells from `offset` on. -/
def read (c : Cells α) (offset length : ℕ) : List α := (List.range length).map fun i => c (offset + i)

/-- The array after cells from `offset` on have been overwritten. -/
def write (c : Cells α) (offset : ℕ) (data : List α) : Cells α := fun i =>
  if offset ≤ i then data.getD (i - offset) (c i) else c i

/-- What an operation reads, and the array after it. -/
def apply (c : Cells α) : Op α → List α × Cells α
  | .read offset length => (c.read offset length, c)
  | .write offset data => ([], c.write offset data)

/-- What each operation of a sequence reads. -/
def run (c : Cells α) : List (Op α) → List (List α)
  | [] => []
  | op :: ops => (c.apply op).1 :: run (c.apply op).2 ops

/-- The cells before and after the data that is written are not overwritten. -/
theorem write_of_not_mem (c : Cells α) {offset i : ℕ} {data : List α}
    (h : i < offset ∨ offset + data.length ≤ i) : c.write offset data i = c i := by
  unfold write
  split_ifs with hle
  · rw [List.getD_eq_default _ _ (by omega)]
  · rfl

/-- The cells that are overwritten hold the data, element by element. -/
theorem write_of_mem (c : Cells α) {offset i : ℕ} {data : List α} (hle : offset ≤ i)
    (hlt : i < offset + data.length) (x : α) : c.write offset data i = data.getD (i - offset) x := by
  have hi : i - offset < data.length := by omega
  rw [write, if_pos hle, List.getD_eq_getElem _ _ hi, List.getD_eq_getElem _ _ hi]

/-! ### Machines -/

/-- What each step of a machine that may fail reads, and the state after them. -/
def runWith (step : β → σ → Option (List α × σ)) : List β → σ → Option (List (List α) × σ)
  | [], s => some ([], s)
  | b :: bs, s => (step b s).bind fun r => (runWith step bs r.2).map fun rs => (r.1 :: rs.1, rs.2)

/-- **Simulation.**  If every step simulates an operation on the array, the steps read what the operations
read. -/
theorem runWith_eq_run (step : β → σ → Option (List α × σ)) (op : β → Op α) (R : σ → Cells α → Prop)
    {bs : List β}
    (hstep : ∀ b ∈ bs, ∀ s c, R s c →
      ∃ s', step b s = some ((c.apply (op b)).1, s') ∧ R s' (c.apply (op b)).2)
    {s : σ} {c : Cells α} (h : R s c) : ∃ s', runWith step bs s = some (c.run (bs.map op), s') := by
  induction bs generalizing s c with
  | nil => exact ⟨s, rfl⟩
  | cons b bs ih =>
    obtain ⟨s₁, hb, h₁⟩ := hstep b List.mem_cons_self s c h
    obtain ⟨s', hbs⟩ := ih (fun b' hb' => hstep b' (List.mem_cons_of_mem _ hb')) h₁
    refine ⟨s', ?_⟩
    rw [runWith, hb, Option.bind_some, hbs]
    rfl

/-! ### Blocks -/

/-- A block of cells with its place. -/
structure Block (α : Type) where
  offset : ℕ
  length : ℕ
  cell : ℕ → α

namespace Block

/-- The block has a cell at a place. -/
def Covers (b : Block α) (i : ℕ) : Prop := b.offset ≤ i ∧ i < b.offset + b.length

instance (b : Block α) (i : ℕ) : Decidable (b.Covers i) := instDecidableAnd

/-- No place has a cell of both blocks. -/
def Disjoint (b b' : Block α) : Prop := ∀ i, b.Covers i → ¬ b'.Covers i

end Block

/-- The array with a block put into it. -/
def put (c : Cells α) (b : Block α) : Cells α := fun i => if b.Covers i then b.cell (i - b.offset) else c i

theorem put_mk (c : Cells α) (offset length : ℕ) (cell : ℕ → α) (i : ℕ) :
    c.put ⟨offset, length, cell⟩ i = if offset ≤ i ∧ i < offset + length then cell (i - offset) else c i := rfl

/-- The array with several blocks put into it, one after the other. -/
def putAll (c : Cells α) (bs : List (Block α)) : Cells α := bs.foldl put c

/-- The places that no block covers keep what they held. -/
theorem putAll_of_not_covers {c : Cells α} {bs : List (Block α)} {i : ℕ} (h : ∀ b ∈ bs, ¬ b.Covers i) :
    c.putAll bs i = c i := by
  induction bs generalizing c with
  | nil => rfl
  | cons b bs ih =>
    refine (ih fun b' hb' => h b' (List.mem_cons_of_mem _ hb')).trans ?_
    exact if_neg (h b List.mem_cons_self)

/-- The places with a block, when no block is put over another. -/
theorem putAll_of_covers {c : Cells α} {bs : List (Block α)} (hdisj : bs.Pairwise Block.Disjoint)
    {b : Block α} (hb : b ∈ bs) {i : ℕ} (hi : b.Covers i) : c.putAll bs i = b.cell (i - b.offset) := by
  induction bs generalizing c with
  | nil => cases hb
  | cons b₀ bs ih =>
    obtain ⟨hhead, htail⟩ := List.pairwise_cons.mp hdisj
    rcases List.mem_cons.mp hb with rfl | hb
    · refine (putAll_of_not_covers fun b' hb' => hhead b' hb' i hi).trans ?_
      exact if_pos hi
    · exact ih htail hb

/-- **Simulation.**  If every step of a machine puts a block into the array or leaves it alone, the machine
puts all the blocks into the array. -/
theorem foldlM_eq_putAll (step : σ → β → Option σ) (block : β → Option (Block α)) (R : σ → Cells α → Prop)
    {bs : List β}
    (hnone : ∀ b ∈ bs, block b = none → ∀ s c, R s c → ∃ s', step s b = some s' ∧ R s' c)
    (hsome : ∀ b ∈ bs, ∀ x, block b = some x → ∀ s c, R s c → ∃ s', step s b = some s' ∧ R s' (c.put x))
    {s : σ} {c : Cells α} (h : R s c) :
    ∃ s', bs.foldlM step s = some s' ∧ R s' (c.putAll (bs.filterMap block)) := by
  induction bs generalizing s c with
  | nil => exact ⟨s, rfl, h⟩
  | cons b bs ih =>
    have hrest : ∀ b' ∈ bs, b' ∈ b :: bs := fun b' hb' => List.mem_cons_of_mem _ hb'
    have ih' : ∀ s₁ c₁, R s₁ c₁ → ∃ s', bs.foldlM step s₁ = some s' ∧ R s' (c₁.putAll (bs.filterMap block)) :=
      fun s₁ c₁ h₁ => ih (fun b' hb' => hnone b' (hrest b' hb')) (fun b' hb' => hsome b' (hrest b' hb')) h₁
    cases hx : block b with
    | none =>
      obtain ⟨s₁, hb, h₁⟩ := hnone b List.mem_cons_self hx s c h
      obtain ⟨s', hbs, h'⟩ := ih' s₁ c h₁
      refine ⟨s', ?_, ?_⟩
      · rw [List.foldlM_cons, hb]
        exact hbs
      · rwa [List.filterMap_cons_none hx]
    | some x =>
      obtain ⟨s₁, hb, h₁⟩ := hsome b List.mem_cons_self x hx s c h
      obtain ⟨s', hbs, h'⟩ := ih' s₁ (c.put x) h₁
      refine ⟨s', ?_, ?_⟩
      · rw [List.foldlM_cons, hb]
        exact hbs
      · rwa [List.filterMap_cons_some hx]

end Cells

end RiscvVp
