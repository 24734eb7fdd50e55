import Mathlib

/-!
# Parser combinators with explicit backtracking

A parser reads a list of tokens, with backtracking on or off.  It ends with a value and the tokens
that are left, with a failure and the tokens that are left, or with an abort: the functions applied
to what was read may give up altogether.  With backtracking on, a sequence that fails gives back
what it has read; with backtracking off it does not.
-/

namespace RiscvVp

/-- How a parser ends: with a value and the rest, by failing at the rest, or by giving up altogether. -/
inductive ParseResult (ε τ α : Type*)
  | ok (value : α) (rest : List τ)
  | fail (rest : List τ)
  | abort (e : ε)
  deriving DecidableEq, Repr

/-- A parser, given whether backtracking is on and the tokens. -/
def Parser (ε τ α : Type*) := Bool → List τ → ParseResult ε τ α

namespace Parser

variable {ε τ α β : Type*}

/-- One token that meets `p`. -/
def satisfy (p : τ → Bool) : Parser ε τ τ
  | _, [] => .fail []
  | _, t :: ts => if p t then .ok t ts else .fail (t :: ts)

/-- The end of the input. -/
def eoi : Parser ε τ Unit
  | _, [] => .ok () []
  | _, t :: ts => .fail (t :: ts)

/-- A value that is there without reading anything. -/
def succeed (a : α) : Parser ε τ α := fun _ ts => .ok a ts

/-- One parser after the other, where the second may depend on what the first one read. -/
def andThen (p : Parser ε τ α) (q : α → Parser ε τ β) : Parser ε τ β := fun bt ts =>
  match p bt ts with
  | .ok a rest =>
    match q a bt rest with
    | .ok b rest' => .ok b rest'
    | .fail rest' => .fail (if bt then ts else rest')
    | .abort e => .abort e
  | .fail rest => .fail (if bt then ts else rest)
  | .abort e => .abort e

/-- A function applied to what was read. -/
def apply (f : α → Except ε β) (p : Parser ε τ α) : Parser ε τ β := fun bt ts =>
  match p bt ts with
  | .ok a rest =>
    match f a with
    | .ok b => .ok b rest
    | .error e => .abort e
  | .fail rest => .fail rest
  | .abort e => .abort e

/-- The first parser that succeeds.  The second one starts where the first has left off, as in the library. -/
def orElse (p q : Parser ε τ α) : Parser ε τ α := fun bt ts =>
  match p bt ts with
  | .ok a rest => .ok a rest
  | .fail rest => q bt rest
  | .abort e => .abort e

/-- A parser or nothing: where it fails, no value, and the rest that it failed at. -/
def maybe (p : Parser ε τ α) : Parser ε τ (Option α) := fun bt ts =>
  match p bt ts with
  | .ok a rest => .ok (some a) rest
  | .fail rest => .ok none rest
  | .abort e => .abort e

/-- At most `n` rounds of `p`. -/
def manyLoop (p : Parser ε τ α) (bt : Bool) : ℕ → List τ → ParseResult ε τ (List α)
  | 0, ts => .ok [] ts
  | n + 1, ts =>
    match p bt ts with
    | .ok a rest =>
      match manyLoop p bt n rest with
      | .ok as rest' => .ok (a :: as) rest'
      | .fail rest' => .fail rest'
      | .abort e => .abort e
    | .fail rest => .ok [] rest
    | .abort e => .abort e

/-- A parser as often as it succeeds.  A parser that reads at least one token in each round is out of
tokens before it is out of rounds. -/
def many (p : Parser ε τ α) : Parser ε τ (List α) := fun bt ts => manyLoop p bt (ts.length + 1) ts

/-- A parser as often as it succeeds, and at least once. -/
def many1 (p : Parser ε τ α) : Parser ε τ (List α) := fun bt ts =>
  match many p bt ts with
  | .ok [] rest => .fail rest
  | .ok (a :: as) rest => .ok (a :: as) rest
  | .fail rest => .fail rest
  | .abort e => .abort e

/-- A parser run with backtracking off. -/
def predictive (p : Parser ε τ α) : Parser ε τ α := fun _ ts => p false ts

/-- The tokens of a word, in order. -/
def word [DecidableEq τ] : List τ → Parser ε τ (List τ)
  | [] => succeed []
  | c :: cs => andThen (satisfy (· == c)) fun _ => apply (fun ts => .ok (c :: ts)) (word cs)

/-! ### What the combinators do -/

section Spec

variable {bt : Bool} {t : τ} {ts rest : List τ} {p : Parser ε τ α}

@[simp] theorem satisfy_cons_of_pos {f : τ → Bool} (h : f t = true) :
    satisfy f bt (t :: ts) = (.ok t ts : ParseResult ε τ τ) := by
  rw [satisfy, if_pos h]

@[simp] theorem satisfy_cons_of_neg {f : τ → Bool} (h : f t = false) :
    satisfy f bt (t :: ts) = (.fail (t :: ts) : ParseResult ε τ τ) := by
  rw [satisfy, if_neg (by simp [h])]

theorem andThen_ok {a : α} {q : α → Parser ε τ β} (h : p bt ts = .ok a rest) :
    andThen p q bt ts = match q a bt rest with
      | .ok b rest' => .ok b rest'
      | .fail rest' => .fail (if bt then ts else rest')
      | .abort e => .abort e := by
  rw [andThen, h]

theorem andThen_fail {q : α → Parser ε τ β} (h : p bt ts = .fail ts) :
    andThen p q bt ts = .fail ts := by
  rw [andThen, h]
  exact congrArg _ (ite_self ts)

theorem orElse_fail {q : Parser ε τ α} (h : p bt ts = .fail ts) : orElse p q bt ts = q bt ts := by
  rw [orElse, h]

/-- `many` of single tokens reads the longest stretch of them. -/
theorem many_satisfy (f : τ → Bool) :
    many (satisfy f) bt ts = (.ok (ts.takeWhile f) (ts.dropWhile f) : ParseResult ε τ (List τ)) := by
  have hloop : ∀ n, ts.length < n → manyLoop (satisfy f) bt n ts =
      (.ok (ts.takeWhile f) (ts.dropWhile f) : ParseResult ε τ (List τ)) := by
    induction ts with
    | nil =>
      intro n hn
      obtain ⟨m, rfl⟩ : ∃ m, n = m + 1 := ⟨n - 1, by omega⟩
      rfl
    | cons t ts ih =>
      intro n hn
      rw [List.length_cons] at hn
      obtain ⟨m, rfl⟩ : ∃ m, n = m + 1 := ⟨n - 1, by omega⟩
      rw [manyLoop]
      by_cases ht : f t = true
      · rw [satisfy_cons_of_pos ht, List.takeWhile_cons_of_pos ht, List.dropWhile_cons_of_pos ht]
        dsimp only
        rw [ih m (by omega)]
      · rw [satisfy_cons_of_neg (by simpa using ht), List.takeWhile_cons_of_neg ht,
          List.dropWhile_cons_of_neg ht]
  exact hloop _ (Nat.lt_succ_self _)

theorem many1_satisfy_eq (f : τ → Bool) :
    many1 (satisfy f) bt ts = if ts.takeWhile f = [] then .fail ts
      else (.ok (ts.takeWhile f) (ts.dropWhile f) : ParseResult ε τ (List τ)) := by
  rw [many1, many_satisfy]
  cases htake : ts.takeWhile f with
  | nil =>
    rw [if_pos rfl]
    have happ := List.takeWhile_append_dropWhile (p := f) (l := ts)
    rw [htake, List.nil_append] at happ
    exact congrArg _ happ
  | cons c cs => rw [if_neg (List.cons_ne_nil c cs)]

/-- `maybe` of a parser that does not abort succeeds. -/
theorem maybe_ok (h : ∀ e, p bt ts ≠ .abort e) : ∃ o rest, p.maybe bt ts = .ok o rest := by
  rw [maybe]
  cases hp : p bt ts with
  | ok a rest => exact ⟨some a, rest, rfl⟩
  | fail rest => exact ⟨none, rest, rfl⟩
  | abort e => exact absurd hp (h e)

theorem stops_dropWhile (f : τ → Bool) (ts : List τ) : ∀ t ∈ (ts.dropWhile f).head?, f t = false := by
  intro t ht
  have := List.head?_dropWhile_not f ts
  rw [Option.mem_def.mp ht] at this
  simpa using this

end Spec

/-! ### Grammars

`Reads p G F B` describes a parser with backtracking by a grammar: `G a t` says that the tokens `t`
stand for the value `a`, `F` what may follow them, and `B` on which input the parser aborts. -/

structure Reads (p : Parser ε τ α) (G : α → List τ → Prop) (F B : List τ → Prop) : Prop where
  sound : ∀ {ts a rest}, p true ts = .ok a rest → ∃ t, ts = t ++ rest ∧ G a t
  complete : ∀ {a t rest}, G a t → F rest → p true (t ++ rest) = .ok a rest
  fails : ∀ {ts rest}, p true ts = .fail rest → rest = ts
  aborts : ∀ {ts}, (∃ e, p true ts = .abort e) ↔ B ts

/-- Nothing: the input on which a parser without aborts gives up. -/
def Never : List τ → Prop := fun _ => False

/-- Anything may follow. -/
def Always : List τ → Prop := fun _ => True

/-- The next token, if there is one, does not meet `f`. -/
def Stops (f : τ → Bool) (ts : List τ) : Prop := ∀ t ∈ ts.head?, f t = false

namespace Reads

variable {p : Parser ε τ α} {G : α → List τ → Prop} {F B : List τ → Prop}

theorem congr {G' : α → List τ → Prop} {B' : List τ → Prop} (h : Reads p G F B)
    (hG : ∀ a t, G a t ↔ G' a t) (hB : ∀ ts, B ts ↔ B' ts) : Reads p G' F B' := by
  have hGG : G = G' := by
    funext a t
    exact propext (hG a t)
  have hBB : B = B' := by
    funext ts
    exact propext (hB ts)
  rwa [← hGG, ← hBB]

/-- What may follow can be restricted: a parser that reads in every context reads in fewer. -/
theorem follow {F' : List τ → Prop} (h : Reads p G F B) (hF : ∀ {rest}, F' rest → F rest) :
    Reads p G F' B :=
  ⟨h.sound, fun hG hrest => h.complete hG (hF hrest), h.fails, h.aborts⟩

theorem satisfy (f : τ → Bool) :
    Reads (Parser.satisfy f : Parser ε τ τ) (fun a t => t = [a] ∧ f a = true) Always Never where
  sound := by
    intro ts a rest h
    cases ts with
    | nil => cases h
    | cons t ts =>
      by_cases ht : f t = true
      · rw [satisfy_cons_of_pos ht] at h
        cases h
        exact ⟨[a], rfl, rfl, ht⟩
      · rw [satisfy_cons_of_neg (by simpa using ht)] at h
        cases h
  complete := by
    rintro a t rest ⟨rfl, ha⟩ -
    exact satisfy_cons_of_pos ha
  fails := by
    intro ts rest h
    cases ts with
    | nil => cases h; rfl
    | cons t ts =>
      by_cases ht : f t = true
      · rw [satisfy_cons_of_pos ht] at h
        cases h
      · rw [satisfy_cons_of_neg (by simpa using ht)] at h
        cases h
        rfl
  aborts := by
    intro ts
    refine ⟨?_, False.elim⟩
    rintro ⟨e, h⟩
    cases ts with
    | nil => cases h
    | cons t ts =>
      rw [Parser.satisfy] at h
      split_ifs at h

/-- The longest stretch of tokens that meet `f`, which must not be empty. -/
theorem many1_satisfy (f : τ → Bool) :
    Reads (Parser.many1 (Parser.satisfy f) : Parser ε τ (List τ))
      (fun a t => a = t ∧ t ≠ [] ∧ ∀ c ∈ t, f c = true) (Stops f) Never := by
  constructor
  · intro ts a rest h
    rw [many1_satisfy_eq] at h
    split_ifs at h with hnil
    cases h
    refine ⟨ts.takeWhile f, (List.takeWhile_append_dropWhile ..).symm, rfl, hnil, ?_⟩
    exact fun c hc => List.mem_takeWhile_imp hc
  · rintro a t rest ⟨rfl, hnil, hf⟩ hstop
    have htake : rest.takeWhile f = [] ∧ rest.dropWhile f = rest := by
      cases rest with
      | nil => exact ⟨rfl, rfl⟩
      | cons c rest =>
        have hc : ¬ f c = true := by rw [hstop c rfl]; decide
        exact ⟨List.takeWhile_cons_of_neg hc, List.dropWhile_cons_of_neg hc⟩
    rw [many1_satisfy_eq, List.takeWhile_append_of_pos hf, List.dropWhile_append_of_pos hf, htake.1, htake.2,
      List.append_nil, if_neg hnil]
  · intro ts rest h
    rw [many1_satisfy_eq] at h
    split_ifs at h
    cases h
    rfl
  · intro ts
    refine ⟨?_, False.elim⟩
    rintro ⟨e, h⟩
    rw [many1_satisfy_eq] at h
    split_ifs at h

theorem map (f : α → β) (h : Reads p G F B) :
    Reads (p.apply fun a => .ok (f a)) (fun b t => ∃ a, b = f a ∧ G a t) F B where
  sound := by
    intro ts b rest hok
    rw [Parser.apply] at hok
    cases hp : p true ts with
    | ok a mid =>
      rw [hp] at hok
      cases hok
      obtain ⟨t, rfl, hG⟩ := h.sound hp
      exact ⟨t, rfl, a, rfl, hG⟩
    | fail mid => rw [hp] at hok; cases hok
    | abort e => rw [hp] at hok; cases hok
  complete := by
    rintro b t rest ⟨a, rfl, hG⟩ hF
    rw [Parser.apply, h.complete hG hF]
  fails := by
    intro ts rest hfail
    rw [Parser.apply] at hfail
    split at hfail
    · cases hfail
    · cases hfail
      rename_i hp
      exact h.fails hp
    · cases hfail
  aborts := by
    intro ts
    rw [← h.aborts, Parser.apply]
    cases p true ts with
    | ok a rest => exact ⟨fun ⟨_, he⟩ => (by cases he), fun ⟨_, he⟩ => (by cases he)⟩
    | fail rest => exact ⟨fun ⟨_, he⟩ => (by cases he), fun ⟨_, he⟩ => (by cases he)⟩
    | abort e => exact ⟨fun _ => ⟨e, rfl⟩, fun _ => ⟨e, rfl⟩⟩

/-- One parser after the other: what the second one reads, and what it aborts on, may follow the
first one. -/
theorem andThen {q : α → Parser ε τ β} {G' : α → β → List τ → Prop} {F' : List τ → Prop}
    {B' : α → List τ → Prop} (hp : Reads p G F B) (hq : ∀ a, Reads (q a) (G' a) F' (B' a))
    (hF : ∀ {a b t rest}, G' a b t → F' rest → F (t ++ rest))
    (hB : ∀ {a rest}, B' a rest → F rest) :
    Reads (p.andThen q) (fun b t => ∃ a t1 t2, t = t1 ++ t2 ∧ G a t1 ∧ G' a b t2) F'
      (fun ts => B ts ∨ ∃ a t rest, ts = t ++ rest ∧ G a t ∧ B' a rest) where
  sound := by
    intro ts b rest h
    -- both parsers have read their part
    cases hpts : p true ts with
    | ok a mid =>
      rw [andThen_ok hpts] at h
      cases hqmid : q a true mid with
      | ok b' rest' =>
        rw [hqmid] at h
        cases h
        obtain ⟨t1, rfl, hG⟩ := hp.sound hpts
        obtain ⟨t2, rfl, hG'⟩ := (hq a).sound hqmid
        exact ⟨t1 ++ t2, (List.append_assoc ..).symm, a, t1, t2, rfl, hG, hG'⟩
      | fail rest' => rw [hqmid] at h; cases h
      | abort e => rw [hqmid] at h; cases h
    | fail mid => rw [Parser.andThen, hpts] at h; cases h
    | abort e => rw [Parser.andThen, hpts] at h; cases h
  complete := by
    rintro b t rest ⟨a, t1, t2, rfl, hG, hG'⟩ hrest
    rw [List.append_assoc, andThen_ok (hp.complete hG (hF hG' hrest)), (hq a).complete hG' hrest]
  fails := by
    intro ts rest h
    rw [Parser.andThen] at h
    split at h
    · split at h
      · cases h
      · exact (ParseResult.fail.inj h).symm
      · cases h
    · exact (ParseResult.fail.inj h).symm
    · cases h
  -- the whole aborts with the first parser, or with the second after a text of the first
  aborts := by
    intro ts
    constructor
    · rintro ⟨e, h⟩
      cases hpts : p true ts with
      | ok a mid =>
        rw [andThen_ok hpts] at h
        obtain ⟨t1, rfl, hG⟩ := hp.sound hpts
        cases hqmid : q a true mid with
        | ok b' rest' => rw [hqmid] at h; cases h
        | fail rest' => rw [hqmid] at h; cases h
        | abort e => exact Or.inr ⟨a, t1, mid, rfl, hG, (hq a).aborts.mp ⟨e, hqmid⟩⟩
      | fail mid => rw [Parser.andThen, hpts] at h; cases h
      | abort e => exact Or.inl (hp.aborts.mp ⟨e, hpts⟩)
    · rintro (h | ⟨a, t, rest, rfl, hG, hB'⟩)
      · obtain ⟨e, he⟩ := hp.aborts.mpr h
        exact ⟨e, by rw [Parser.andThen, he]⟩
      · obtain ⟨e, he⟩ := (hq a).aborts.mpr hB'
        exact ⟨e, by rw [andThen_ok (hp.complete hG (hB hB')), he]⟩

/-- Two parsers that do not abort, the first of which fails on what the second one reads. -/
theorem orElse {q : Parser ε τ α} {G' : α → List τ → Prop} (hp : Reads p G F Never)
    (hq : Reads q G' F Never)
    (hdis : ∀ {a t rest}, G' a t → F rest → p true (t ++ rest) = .fail (t ++ rest)) :
    Reads (p.orElse q) (fun a t => G a t ∨ G' a t) F Never where
  sound := by
    intro ts a rest h
    rw [Parser.orElse] at h
    split at h
    · cases h
      rename_i hpts
      obtain ⟨t, rfl, hG⟩ := hp.sound hpts
      exact ⟨t, rfl, Or.inl hG⟩
    · rename_i hpts
      -- a failing parser has read nothing, so the second one starts at the same place
      rw [hp.fails hpts] at h
      obtain ⟨t, rfl, hG⟩ := hq.sound h
      exact ⟨t, rfl, Or.inr hG⟩
    · cases h
  complete := by
    rintro a t rest (hG | hG) hF
    · rw [Parser.orElse, hp.complete hG hF]
    · rw [Parser.orElse, hdis hG hF]
      exact hq.complete hG hF
  fails := by
    intro ts rest h
    rw [Parser.orElse] at h
    split at h
    · cases h
    · rename_i hpts
      rw [hp.fails hpts] at h
      exact hq.fails h
    · cases h
  aborts := by
    intro ts
    refine ⟨?_, False.elim⟩
    rintro ⟨e, h⟩
    rw [Parser.orElse] at h
    split at h
    · cases h
    · rename_i hpts
      rw [hp.fails hpts] at h
      exact hq.aborts.mp ⟨e, h⟩
    · rename_i hpts
      exact hp.aborts.mp ⟨_, hpts⟩

/-- A parser or nothing, where it fails on what may follow. -/
theorem maybe {F' : List τ → Prop} (h : Reads p G F B)
    (hend : ∀ {rest}, F' rest → F rest ∧ p true rest = .fail rest) :
    Reads p.maybe (fun o t => (o = none ∧ t = []) ∨ ∃ a, o = some a ∧ G a t) F' B where
  sound := by
    intro ts o rest hok
    rw [Parser.maybe] at hok
    cases hp : p true ts with
    | ok a mid =>
      rw [hp] at hok
      cases hok
      obtain ⟨t, rfl, hG⟩ := h.sound hp
      exact ⟨t, rfl, Or.inr ⟨a, rfl, hG⟩⟩
    | fail mid =>
      rw [hp] at hok
      cases hok
      exact ⟨[], (h.fails hp).symm, Or.inl ⟨rfl, rfl⟩⟩
    | abort e => rw [hp] at hok; cases hok
  complete := by
    rintro o t rest (⟨rfl, rfl⟩ | ⟨a, rfl, hG⟩) hF
    · rw [List.nil_append, Parser.maybe, (hend hF).2]
    · rw [Parser.maybe, h.complete hG (hend hF).1]
  fails := by
    intro ts rest hfail
    rw [Parser.maybe] at hfail
    split at hfail <;> cases hfail
  aborts := by
    intro ts
    rw [← h.aborts, Parser.maybe]
    cases p true ts with
    | ok a rest => exact ⟨fun ⟨_, he⟩ => (by cases he), fun ⟨_, he⟩ => (by cases he)⟩
    | fail rest => exact ⟨fun ⟨_, he⟩ => (by cases he), fun ⟨_, he⟩ => (by cases he)⟩
    | abort e => exact ⟨fun _ => ⟨e, rfl⟩, fun _ => ⟨e, rfl⟩⟩

/-- The texts of a list of values, one after the other. -/
inductive Seq (G : α → List τ → Prop) : List α → List τ → Prop
  | nil : Seq G [] []
  | cons {a as t u} (ha : G a t) (has : Seq G as u) : Seq G (a :: as) (t ++ u)

section Many

variable {F' : List τ → Prop} (h : Reads p G F B) (hne : ∀ {a t}, G a t → t ≠ [])
  (hnext : ∀ {a t rest}, G a t → F (t ++ rest)) (hB : ∀ {ts}, B ts → F ts)
  (hend : ∀ {rest}, F' rest → F rest ∧ p true rest = .fail rest)

include h in
theorem manyLoop_sound {n : ℕ} {ts rest : List τ} {as : List α}
    (hok : p.manyLoop true n ts = .ok as rest) : ∃ t, ts = t ++ rest ∧ Seq G as t := by
  induction n generalizing ts as with
  | zero =>
    cases hok
    exact ⟨[], rfl, Seq.nil⟩
  | succ n ih =>
    rw [Parser.manyLoop] at hok
    cases hp : p true ts with
    | ok a mid =>
      rw [hp] at hok
      dsimp only at hok
      cases hloop : p.manyLoop true n mid with
      | ok bs rest' =>
        rw [hloop] at hok
        cases hok
        obtain ⟨t, rfl, hG⟩ := h.sound hp
        obtain ⟨u, rfl, hseq⟩ := ih hloop
        exact ⟨t ++ u, (List.append_assoc ..).symm, Seq.cons hG hseq⟩
      | fail rest' => rw [hloop] at hok; cases hok
      | abort e => rw [hloop] at hok; cases hok
    | fail mid =>
      rw [hp] at hok
      cases hok
      exact ⟨[], (h.fails hp).symm, Seq.nil⟩
    | abort e => rw [hp] at hok; cases hok

include h hne hnext hend in
theorem manyLoop_complete {n : ℕ} {t rest : List τ} {as : List α} (hseq : Seq G as t)
    (hrest : F' rest) (hn : (t ++ rest).length < n) :
    p.manyLoop true n (t ++ rest) = .ok as rest := by
  induction hseq generalizing n with
  | nil =>
    obtain ⟨m, rfl⟩ : ∃ m, n = m + 1 := ⟨n - 1, by omega⟩
    rw [List.nil_append, Parser.manyLoop, (hend hrest).2]
  | @cons a as t u hG hseq ih =>
    obtain ⟨m, rfl⟩ : ∃ m, n = m + 1 := ⟨n - 1, by omega⟩
    have hlen : 0 < t.length := List.length_pos_iff.mpr (hne hG)
    have hF : F (u ++ rest) := by
      cases hseq with
      | nil => exact (hend hrest).1
      | cons hG' _ =>
        rw [List.append_assoc]
        exact hnext hG'
    rw [List.append_assoc, Parser.manyLoop, h.complete hG hF]
    dsimp only
    rw [ih]
    simp only [List.length_append] at hn ⊢
    omega

include h hne hnext hB in
theorem manyLoop_aborts_of_seq {n : ℕ} {t rest : List τ} {as : List α} (hseq : Seq G as t)
    (hrest : B rest) (hn : (t ++ rest).length < n) :
    ∃ e, p.manyLoop true n (t ++ rest) = .abort e := by
  induction hseq generalizing n with
  | nil =>
    obtain ⟨m, rfl⟩ : ∃ m, n = m + 1 := ⟨n - 1, by omega⟩
    obtain ⟨e, he⟩ := h.aborts.mpr hrest
    exact ⟨e, by rw [List.nil_append, Parser.manyLoop, he]⟩
  | @cons a as t u hG hseq ih =>
    obtain ⟨m, rfl⟩ : ∃ m, n = m + 1 := ⟨n - 1, by omega⟩
    have hlen : 0 < t.length := List.length_pos_iff.mpr (hne hG)
    have hF : F (u ++ rest) := by
      cases hseq with
      | nil => exact hB hrest
      | cons hG' _ =>
        rw [List.append_assoc]
        exact hnext hG'
    obtain ⟨e, he⟩ := @ih m (by simp only [List.length_append] at hn ⊢; omega)
    refine ⟨e, ?_⟩
    rw [List.append_assoc, Parser.manyLoop, h.complete hG hF]
    dsimp only
    rw [he]

include h in
theorem seq_of_manyLoop_aborts {n : ℕ} {ts : List τ} {e : ε}
    (habort : p.manyLoop true n ts = .abort e) :
    ∃ as t rest, ts = t ++ rest ∧ Seq G as t ∧ B rest := by
  induction n generalizing ts with
  | zero => cases habort
  | succ n ih =>
    rw [Parser.manyLoop] at habort
    cases hp : p true ts with
    | ok a mid =>
      rw [hp] at habort
      dsimp only at habort
      cases hloop : p.manyLoop true n mid with
      | ok bs rest' => rw [hloop] at habort; cases habort
      | fail rest' => rw [hloop] at habort; cases habort
      | abort e' =>
        rw [hloop] at habort
        cases habort
        obtain ⟨t, rfl, hG⟩ := h.sound hp
        obtain ⟨as, u, rest, rfl, hseq, hrest⟩ := ih hloop
        exact ⟨a :: as, t ++ u, rest, (List.append_assoc ..).symm, Seq.cons hG hseq, hrest⟩
    | fail mid => rw [hp] at habort; cases habort
    | abort e' => exact ⟨[], [], ts, rfl, Seq.nil, h.aborts.mp ⟨e', hp⟩⟩

theorem manyLoop_ne_fail {n : ℕ} {ts rest : List τ} : p.manyLoop true n ts ≠ .fail rest := by
  induction n generalizing ts rest with
  | zero => exact fun hfail => by cases hfail
  | succ n ih =>
    intro hfail
    rw [Parser.manyLoop] at hfail
    cases hp : p true ts with
    | ok a mid =>
      rw [hp] at hfail
      dsimp only at hfail
      cases hloop : p.manyLoop true n mid with
      | ok bs rest' => rw [hloop] at hfail; cases hfail
      | fail rest' => exact ih hloop
      | abort e' => rw [hloop] at hfail; cases hfail
    | fail mid => rw [hp] at hfail; cases hfail
    | abort e' => rw [hp] at hfail; cases hfail

include h hne hnext hB hend in
/-- A parser as often as it succeeds: each round reads something, and what a round reads, or aborts on,
may follow the round before. -/
theorem many1 : Reads p.many1 (fun as t => as ≠ [] ∧ Seq G as t) F'
    (fun ts => ∃ as t rest, ts = t ++ rest ∧ Seq G as t ∧ B rest) where
  sound := by
    intro ts as rest hok
    rw [Parser.many1, Parser.many] at hok
    split at hok
    · cases hok
    · rename_i hloop
      cases hok
      obtain ⟨t, rfl, hseq⟩ := h.manyLoop_sound hloop
      exact ⟨t, rfl, List.cons_ne_nil _ _, hseq⟩
    · cases hok
    · cases hok
  complete := by
    rintro as t rest ⟨has, hseq⟩ hrest
    have hloop := h.manyLoop_complete hne hnext hend hseq hrest (Nat.lt_succ_self _)
    rw [Parser.many1, Parser.many, hloop]
    cases as with
    | nil => exact absurd rfl has
    | cons a as => rfl
  fails := by
    intro ts rest hfail
    rw [Parser.many1, Parser.many] at hfail
    split at hfail
    · rename_i hloop
      cases hfail
      obtain ⟨t, rfl, hseq⟩ := h.manyLoop_sound hloop
      cases hseq
      rfl
    · cases hfail
    · rename_i hloop
      exact absurd hloop manyLoop_ne_fail
    · cases hfail
  aborts := by
    intro ts
    constructor
    · rintro ⟨e, habort⟩
      rw [Parser.many1, Parser.many] at habort
      split at habort
      · cases habort
      · cases habort
      · cases habort
      · rename_i hloop
        exact h.seq_of_manyLoop_aborts hloop
    · rintro ⟨as, t, rest, rfl, hseq, hrest⟩
      obtain ⟨e, he⟩ := h.manyLoop_aborts_of_seq hne hnext hB hseq hrest (Nat.lt_succ_self _)
      exact ⟨e, by rw [Parser.many1, Parser.many, he]⟩

end Many

section Tokens

variable [DecidableEq τ]

/-- A token and then a parser: the text is the token in front of what the parser reads. -/
theorem tokenThen (c : τ) (h : Reads p G F B) :
    Reads (Parser.andThen (Parser.satisfy (· == c)) fun _ => p) (fun a t => ∃ u, t = c :: u ∧ G a u) F
      (fun ts => ∃ u, ts = c :: u ∧ B u) := by
  have hseq := andThen (@satisfy ε τ (· == c)) (fun _ => h) (fun _ _ => trivial) fun _ => trivial
  refine hseq.congr (fun a t => ?_) fun ts => ?_
  · constructor
    · rintro ⟨d, t1, t2, rfl, ⟨rfl, hd⟩, hG⟩
      rw [beq_iff_eq] at hd
      exact ⟨t2, by rw [hd]; rfl, hG⟩
    · rintro ⟨u, rfl, hG⟩
      exact ⟨c, [c], u, rfl, ⟨rfl, beq_self_eq_true c⟩, hG⟩
  · constructor
    · rintro (h | ⟨d, t, rest, rfl, ⟨rfl, hd⟩, hB⟩)
      · exact h.elim
      · rw [beq_iff_eq] at hd
        exact ⟨rest, by rw [hd]; rfl, hB⟩
    · rintro ⟨u, rfl, hB⟩
      exact Or.inr ⟨c, [c], u, rfl, ⟨rfl, beq_self_eq_true c⟩, hB⟩

/-- A parser without aborts and then a token, which may follow it. -/
theorem thenToken (c : τ) (h : Reads p G F Never) (hF : ∀ rest, F (c :: rest)) :
    Reads (Parser.andThen p fun a => (Parser.satisfy (· == c)).apply fun _ => .ok a)
      (fun a t => ∃ u, t = u ++ [c] ∧ G a u) Always Never := by
  have hseq := andThen h (fun a => (@satisfy ε τ (· == c)).map fun _ => a)
    (fun {a b t rest} hG _ => by
      obtain ⟨d, -, rfl, hd⟩ := hG
      rw [beq_iff_eq] at hd
      rw [hd]
      exact hF rest) fun hB => hB.elim
  refine hseq.congr (fun a t => ?_) fun ts => ?_
  · constructor
    · rintro ⟨b, t1, t2, rfl, hG, d, rfl, rfl, hd⟩
      rw [beq_iff_eq] at hd
      exact ⟨t1, by rw [hd], hG⟩
    · rintro ⟨u, rfl, hG⟩
      exact ⟨a, u, [c], rfl, hG, c, rfl, rfl, beq_self_eq_true c⟩
  · constructor
    · rintro (h | ⟨d, t, rest, -, -, hB⟩)
      · exact h
      · exact hB
    · exact False.elim

/-- A word is read as itself, token by token, and a parser for it aborts on nothing. -/
theorem word (w : List τ) :
    Reads (Parser.word w : Parser ε τ (List τ)) (fun a t => a = w ∧ t = w) Always Never := by
  induction w with
  | nil =>
    constructor
    · intro ts a rest h
      cases h
      exact ⟨[], rfl, rfl, rfl⟩
    · rintro a t rest ⟨rfl, rfl⟩ -
      rfl
    · intro ts rest h
      cases h
    · exact ⟨fun ⟨_, h⟩ => (by cases h), False.elim⟩
  | cons c cs ih =>
    refine (tokenThen c (ih.map fun ts => c :: ts)).congr (fun a t => ?_) fun ts => ?_
    · constructor
      · rintro ⟨u, rfl, b, rfl, rfl, rfl⟩
        exact ⟨rfl, rfl⟩
      · rintro ⟨rfl, rfl⟩
        exact ⟨cs, rfl, cs, rfl, rfl, rfl⟩
    · exact ⟨fun ⟨_, _, hB⟩ => hB, False.elim⟩

end Tokens

end Reads

end Parser

end RiscvVp
