import RiscvVp.Gdb.Command

/-!
# The grammar of commands

The texts that the parser of the second stage takes for a command with an argument (`Denotes`), and
the texts on which it aborts (`BadSignal`).  Every other text that is not empty is a command without
argument (`parseText_eq`).
-/

namespace RiscvVp.Gdb

open RiscvVp.Parser

/-! ### Numbers and threads -/

/-- Digits in base 16, at least one. -/
def IsHex (t : List (BitVec 8)) : Prop := t ≠ [] ∧ ∀ c ∈ t, isHexDigit c = true

/-- A process or a thread: a number, or -1 for all of them. -/
inductive HexId : ℤ → List (BitVec 8) → Prop
  | hex {t} (ht : IsHex t) : HexId (strtolInt t) t
  | all : HexId (-1) (str "-1")

/-- A thread id, with or without a process. -/
inductive ThreadId : GdbThread → List (BitVec 8) → Prop
  | thread {v t} (ht : HexId v t) : ThreadId ⟨threadUnset, v⟩ t
  | process {p v t u} (ht : HexId p t) (hu : HexId v u) :
    ThreadId ⟨p, v⟩ (chr 'p' :: (t ++ [chr '.']) ++ u)

/-- An address and a length. -/
inductive MemoryText : GdbMemory → List (BitVec 8) → Prop
  | mk {t u} (ht : IsHex t) (hu : IsHex u) :
    MemoryText ⟨BitVec.ofNat 64 (scanHex t), scanHex u⟩ (t ++ chr ',' :: u)

/-- What follows is no digit. -/
abbrev NoHex : List (BitVec 8) → Prop := Stops isHexDigit

theorem noHex_cons {c : BitVec 8} (hc : isHexDigit c = false) (rest : List (BitVec 8)) :
    NoHex (c :: rest) := by
  intro d hd
  rw [List.head?_cons, Option.mem_def, Option.some.injEq] at hd
  rwa [← hd]

theorem reads_anyChar : Reads anyChar (fun a t => t = [a] ∧ true = true) Always Never :=
  Reads.satisfy _

theorem reads_oneof (cs : List (BitVec 8)) :
    Reads (oneof cs) (fun a t => t = [a] ∧ cs.contains a = true) Always Never :=
  Reads.satisfy _

theorem reads_hexdigits : Reads hexdigits (fun a t => a = t ∧ IsHex t) NoHex Never :=
  Reads.many1_satisfy isHexDigit

theorem reads_mpcHex : Reads mpcHex (fun v t => IsHex t ∧ v = strtolInt t) NoHex Never := by
  refine (reads_hexdigits.map strtolInt).congr (fun v t => ?_) fun _ => Iff.rfl
  constructor
  · rintro ⟨_, rfl, rfl, ht⟩
    exact ⟨ht, rfl⟩
  · rintro ⟨ht, rfl⟩
    exact ⟨t, rfl, rfl, ht⟩

theorem reads_gdbHexid : Reads gdbHexid HexId NoHex Never := by
  have hall : Reads (foldWith (fun _ => (-1 : ℤ)) (Parser.word (str "-1")))
      (fun v t => v = -1 ∧ t = str "-1") NoHex Never := by
    refine (((Reads.word (str "-1")).map fun _ => (-1 : ℤ)).follow fun _ => trivial).congr
      (fun v t => ?_) fun _ => Iff.rfl
    exact ⟨fun ⟨_, hv, _, ht⟩ => ⟨hv, ht⟩, fun ⟨hv, ht⟩ => ⟨_, hv, rfl, ht⟩⟩
  refine (reads_mpcHex.orElse hall ?_).congr (fun v t => ?_) fun _ => Iff.rfl
  · rintro v t rest ⟨rfl, rfl⟩ -
    rfl
  · constructor
    · rintro (⟨ht, rfl⟩ | ⟨rfl, rfl⟩)
      · exact HexId.hex ht
      · exact HexId.all
    · rintro (ht | _)
      · exact Or.inl ⟨ht, rfl⟩
      · exact Or.inr ⟨rfl, rfl⟩

/-- A process or a thread does not start with the letter of a process. -/
theorem HexId.head {v : ℤ} {t : List (BitVec 8)} (h : HexId v t) :
    ∃ c u, t = c :: u ∧ c ≠ chr 'p' := by
  cases h with
  | hex ht =>
    cases t with
    | nil => exact absurd rfl ht.1
    | cons c u =>
      refine ⟨c, u, rfl, ?_⟩
      rintro rfl
      exact absurd (ht.2 _ List.mem_cons_self) (by decide)
  | all => exact ⟨chr '-', str "1", rfl, by decide⟩

theorem reads_gdbPid : Reads gdbPid
    (fun p t => ∃ u, t = chr 'p' :: u ∧ ∃ w, u = w ++ [chr '.'] ∧ HexId p w) Always Never := by
  have hdot := reads_gdbHexid.thenToken (chr '.') (noHex_cons (by decide))
  exact (hdot.tokenThen (chr 'p')).congr (fun _ _ => Iff.rfl)
    fun _ => ⟨fun ⟨_, _, h⟩ => h, False.elim⟩

theorem reads_gdbThreadId : Reads gdbThreadId ThreadId NoHex Never := by
  -- what follows the process is a number, which does not start like a process
  have hmaybe : Reads gdbPid.maybe _ (fun rest => ∃ v t u, rest = t ++ u ∧ HexId v t) Never :=
    reads_gdbPid.maybe
      (by
        rintro rest ⟨v, t, u, rfl, hid⟩
        obtain ⟨c, w, rfl, hc⟩ := hid.head
        refine ⟨trivial, andThen_fail ?_⟩
        exact satisfy_cons_of_neg (by simpa using hc))
  have hseq := hmaybe.andThen
    (fun pid => reads_gdbHexid.map fun tid => (⟨pid.getD threadUnset, tid⟩ : GdbThread))
    (by
      rintro pid id t rest ⟨v, rfl, hid⟩ -
      exact ⟨v, t, rest, rfl, hid⟩) (fun h => h.elim)
  refine hseq.congr (fun id t => ?_) fun ts => ?_
  · constructor
    · rintro ⟨pid, t1, t2, rfl, ⟨rfl, rfl⟩ | ⟨p, rfl, u, rfl, w, rfl, hp⟩, v, rfl, hv⟩
      · exact ThreadId.thread hv
      · exact ThreadId.process hp hv
    · rintro (hv | ⟨hp, hv⟩)
      · exact ⟨none, [], t, rfl, Or.inl ⟨rfl, rfl⟩, _, rfl, hv⟩
      · exact ⟨some _, _, _, rfl, Or.inr ⟨_, rfl, _, rfl, _, rfl, hp⟩, _, rfl, hv⟩
  · exact ⟨fun h => h.elim id fun ⟨_, _, _, _, _, h⟩ => h, False.elim⟩

theorem reads_gdbMemory : Reads gdbMemory MemoryText NoHex Never := by
  have haddr := reads_hexdigits.map fun t => BitVec.ofNat 64 (scanHex t)
  have hlen := fun addr : BitVec 64 =>
    ((reads_hexdigits.map scanHex).map (GdbMemory.mk addr)).tokenThen (chr ',')
  have hseq := haddr.andThen hlen
    (by
      rintro a b t rest ⟨u, rfl, -⟩ -
      exact noHex_cons (by decide) _) (fun ⟨_, _, h⟩ => h.elim)
  refine hseq.congr (fun m t => ?_) fun ts => ?_
  · constructor
    · rintro ⟨_, t1, _, rfl, ⟨_, rfl, rfl, h1⟩, u, rfl, _, rfl, _, rfl, rfl, h2⟩
      exact MemoryText.mk h1 h2
    · rintro ⟨h1, h2⟩
      exact ⟨_, _, _, rfl, ⟨_, rfl, rfl, h1⟩, _, rfl, _, rfl, _, rfl, rfl, h2⟩
  · exact ⟨fun h => h.elim id fun ⟨_, _, _, _, _, _, _, h⟩ => h, False.elim⟩

/-! ### Actions -/

/-- The characters of an action and its signal: a letter, or one of the letters that take a signal and
two digits. -/
inductive ActionLetters : BitVec 8 → ℤ → List (BitVec 8) → Prop
  | plain {c} (hc : c ∈ str "cst") : ActionLetters c (-1) [c]
  | signal {c s1 s2} (hc : c ∈ str "CS") (h1 : isHexDigit s1 = true) (h2 : isHexDigit s2 = true) :
    ActionLetters c (strtolInt [s1, s2]) [c, s1, s2]

/-- The thread of an action; without one, the action is for all threads. -/
inductive ActionThread : GdbThread → List (BitVec 8) → Prop
  | all : ActionThread ⟨threadUnset, threadAll⟩ []
  | one {id t} (ht : ThreadId id t) : ActionThread id (chr ':' :: t)

/-- An action of `vCont`, with the semicolon before it. -/
inductive Action : GdbVcont → List (BitVec 8) → Prop
  | mk {c sig id t u} (ht : ActionLetters c sig t) (hu : ActionThread id u) :
    Action ⟨c, sig, id⟩ (chr ';' :: (t ++ u))

/-- A letter that takes a signal, with a number of digits other than two. -/
def BadAction (ts : List (BitVec 8)) : Prop :=
  ∃ c sig rest, ts = c :: (sig ++ rest) ∧ c ∈ str "CS" ∧ (∀ d ∈ sig, isHexDigit d = true) ∧
    NoHex rest ∧ sig.length ≠ 2

/-- The end of an action: the end of the text or the next semicolon. -/
def ActionEnd (ts : List (BitVec 8)) : Prop := ∀ c ∈ ts.head?, c = chr ';'

theorem ActionEnd.noHex {ts : List (BitVec 8)} (h : ActionEnd ts) : NoHex ts := by
  intro c hc
  rw [h c hc]
  decide

theorem reads_actionThread :
    Reads (Parser.maybe ((char (chr ':')).andThen fun _ => gdbThreadId))
      (fun o t => (o = none ∧ t = []) ∨ ∃ id, o = some id ∧ ∃ u, t = chr ':' :: u ∧ ThreadId id u)
      ActionEnd Never := by
  have htok := reads_gdbThreadId.tokenThen (chr ':')
  have hmaybe : Reads (Parser.maybe ((char (chr ':')).andThen fun _ => gdbThreadId)) _ ActionEnd _ :=
    htok.maybe (by
      intro rest hend
      refine ⟨hend.noHex, andThen_fail ?_⟩
      cases rest with
      | nil => rfl
      | cons c rest =>
        rw [hend c rfl]
        rfl)
  exact hmaybe.congr (fun _ _ => Iff.rfl) fun _ => ⟨fun ⟨_, _, h⟩ => h, False.elim⟩

/-- The letters of an action, by the first of them. -/
theorem gdbActionText_plain {c : BitVec 8} (hc : c ∈ str "cst") (ts : List (BitVec 8)) :
    gdbActionText true (c :: ts) = .ok [c] ts := by
  have hsat : oneof (str "cst") true (c :: ts) = .ok c ts :=
    satisfy_cons_of_pos (by simpa using hc)
  rw [gdbActionText, Parser.orElse, foldWith, Parser.apply, hsat]

theorem gdbActionText_signal {c : BitVec 8} (hc : c ∈ str "CS") (ts : List (BitVec 8)) :
    gdbActionText true (c :: ts) =
      if ts.takeWhile isHexDigit = [] then .abort .undefined
      else .ok (c :: ts.takeWhile isHexDigit) (ts.dropWhile isHexDigit) := by
  have hplain : oneof (str "cst") true (c :: ts) = .fail (c :: ts) := by
    refine satisfy_cons_of_neg ?_
    revert hc
    revert c
    decide
  have hsat : oneof (str "CS") true (c :: ts) = .ok c ts :=
    satisfy_cons_of_pos (by simpa using hc)
  have hsig : gdbSignal true ts = if ts.takeWhile isHexDigit = [] then .abort .undefined
      else .ok (ts.takeWhile isHexDigit) (ts.dropWhile isHexDigit) := by
    rw [gdbSignal, hexdigits, many1_satisfy_eq]
    split_ifs <;> rfl
  rw [gdbActionText, Parser.orElse, foldWith, Parser.apply, hplain]
  dsimp only
  rw [andThen_ok hsat, foldWith, Parser.apply, hsig]
  split_ifs <;> rfl

theorem gdbActionText_other {c : BitVec 8} (hc : c ∉ str "cst") (hc' : c ∉ str "CS")
    (ts : List (BitVec 8)) : gdbActionText true (c :: ts) = .fail (c :: ts) := by
  have hplain : oneof (str "cst") true (c :: ts) = .fail (c :: ts) :=
    satisfy_cons_of_neg (by simpa using hc)
  have hsat : oneof (str "CS") true (c :: ts) = .fail (c :: ts) :=
    satisfy_cons_of_neg (by simpa using hc')
  rw [gdbActionText, Parser.orElse, foldWith, Parser.apply, hplain]
  dsimp only
  rw [andThen_fail hsat]

/-- The thread after the letters is read before the letters are looked at. -/
theorem gdbAction_of_text {ts mid actstr : List (BitVec 8)}
    (h : gdbActionText true ts = .ok actstr mid) :
    ∃ o rest, Parser.maybe ((char (chr ':')).andThen fun _ => gdbThreadId) true mid = .ok o rest ∧
      gdbAction true ts = match gdbfVcontAction actstr o with
        | .ok v => .ok v rest
        | .error e => .abort e := by
  have hnever : ∀ e, ((char (chr ':')).andThen fun _ => gdbThreadId) true mid ≠ .abort e := by
    intro e he
    obtain ⟨_, _, h⟩ := (reads_gdbThreadId.tokenThen (chr ':')).aborts.mp ⟨e, he⟩
    exact h
  obtain ⟨o, rest, ho⟩ := maybe_ok hnever
  refine ⟨o, rest, ho, ?_⟩
  rw [gdbAction, Parser.apply, andThen_ok h, foldWith, Parser.apply, ho]
  dsimp only
  cases gdbfVcontAction actstr o with
  | ok v => rfl
  | error e => rfl

theorem gdbAction_of_fail {ts : List (BitVec 8)} (h : gdbActionText true ts = .fail ts) :
    gdbAction true ts = .fail ts := by
  rw [gdbAction, Parser.apply, andThen_fail h]

theorem gdbAction_of_abort {ts : List (BitVec 8)} {e : Abort} (h : gdbActionText true ts = .abort e) :
    gdbAction true ts = .abort e := by
  rw [gdbAction, Parser.apply, Parser.andThen, h]

theorem actionThread_getD {o : Option GdbThread} {t : List (BitVec 8)}
    (h : (o = none ∧ t = []) ∨ ∃ id, o = some id ∧ ∃ u, t = chr ':' :: u ∧ ThreadId id u) :
    ActionThread (o.getD ⟨threadUnset, threadAll⟩) t := by
  rcases h with ⟨rfl, rfl⟩ | ⟨id, rfl, u, rfl, hid⟩
  · exact ActionThread.all
  · exact ActionThread.one hid

theorem ActionThread.exists_option {id : GdbThread} {t : List (BitVec 8)} (h : ActionThread id t) :
    ∃ o : Option GdbThread, o.getD ⟨threadUnset, threadAll⟩ = id ∧
      ((o = none ∧ t = []) ∨ ∃ id, o = some id ∧ ∃ u, t = chr ':' :: u ∧ ThreadId id u) := by
  cases h with
  | all => exact ⟨none, rfl, Or.inl ⟨rfl, rfl⟩⟩
  | one hid => exact ⟨some _, rfl, Or.inr ⟨_, rfl, _, rfl, hid⟩⟩

/-- What may follow the letters of an action: its thread, or its end. -/
theorem ActionThread.noHex {id : GdbThread} {t rest : List (BitVec 8)} (h : ActionThread id t)
    (hrest : ActionEnd rest) : NoHex (t ++ rest) := by
  cases h with
  | all => exact hrest.noHex
  | one hid => exact noHex_cons (by decide) _

theorem takeWhile_append_noHex {t rest : List (BitVec 8)} (ht : ∀ c ∈ t, isHexDigit c = true)
    (hrest : NoHex rest) :
    (t ++ rest).takeWhile isHexDigit = t ∧ (t ++ rest).dropWhile isHexDigit = rest := by
  rw [List.takeWhile_append_of_pos ht, List.dropWhile_append_of_pos ht]
  cases rest with
  | nil => exact ⟨List.append_nil t, rfl⟩
  | cons c rest =>
    have hc : ¬ isHexDigit c = true := by
      rw [hrest c rfl]
      decide
    rw [List.takeWhile_cons_of_neg hc, List.dropWhile_cons_of_neg hc, List.append_nil]
    exact ⟨rfl, rfl⟩

/-- A letter that takes a signal: two digits and a thread, or an abort. -/
theorem gdbAction_signal {c : BitVec 8} (hc : c ∈ str "CS") (ts : List (BitVec 8)) :
    (∃ s1 s2 o rest, ts.takeWhile isHexDigit = [s1, s2] ∧
        Parser.maybe ((char (chr ':')).andThen fun _ => gdbThreadId) true
          (ts.dropWhile isHexDigit) = .ok o rest ∧
        gdbAction true (c :: ts) =
          .ok ⟨c, strtolInt [s1, s2], o.getD ⟨threadUnset, threadAll⟩⟩ rest) ∨
      ((ts.takeWhile isHexDigit).length ≠ 2 ∧ ∃ e, gdbAction true (c :: ts) = .abort e) := by
  have htext := gdbActionText_signal hc ts
  by_cases hnil : ts.takeWhile isHexDigit = []
  · rw [if_pos hnil] at htext
    exact Or.inr ⟨by rw [hnil]; decide, _, gdbAction_of_abort htext⟩
  · rw [if_neg hnil] at htext
    obtain ⟨o, rest, ho, hact⟩ := gdbAction_of_text htext
    by_cases hlen : (ts.takeWhile isHexDigit).length = 2
    · obtain ⟨s1, s2, hsig⟩ := List.length_eq_two.mp hlen
      rw [hsig] at hact
      exact Or.inl ⟨s1, s2, o, rest, hsig, ho, hact⟩
    · refine Or.inr ⟨hlen, Abort.xassert, ?_⟩
      rw [hact]
      match hsig : ts.takeWhile isHexDigit with
      | [] => exact absurd hsig hnil
      | [s1] => rfl
      | [s1, s2] => exact absurd (by rw [hsig]; rfl) hlen
      | s1 :: s2 :: s3 :: sig => rfl

/-- An action without its semicolon. -/
def ActionBody (v : GdbVcont) (t : List (BitVec 8)) : Prop :=
  ∃ t1 t2, t = t1 ++ t2 ∧ ActionLetters v.action v.sig t1 ∧ ActionThread v.thread t2

/-- A character of an action takes no signal, or takes one, or there is no such action. -/
theorem actionLetter_cases (c : BitVec 8) :
    c ∈ str "cst" ∨ c ∈ str "CS" ∨ (c ∉ str "cst" ∧ c ∉ str "CS") := by
  by_cases h1 : c ∈ str "cst"
  · exact Or.inl h1
  · by_cases h2 : c ∈ str "CS"
    · exact Or.inr (Or.inl h2)
    · exact Or.inr (Or.inr ⟨h1, h2⟩)

theorem reads_gdbAction : Reads gdbAction ActionBody ActionEnd BadAction where
  sound := by
    intro ts v rest h
    cases ts with
    | nil => cases h
    | cons c ts =>
      -- an action is a plain letter, a letter with a signal of two digits, or none at all
      rcases actionLetter_cases c with hc | hc | ⟨hc, hc'⟩
      · obtain ⟨o, rest', ho, hact⟩ := gdbAction_of_text (gdbActionText_plain hc ts)
        rw [hact] at h
        cases h
        obtain ⟨t, rfl, ht⟩ := reads_actionThread.sound ho
        exact ⟨[c] ++ t, rfl, [c], t, rfl, ActionLetters.plain hc, actionThread_getD ht⟩
      · rcases gdbAction_signal hc ts with ⟨s1, s2, o, rest', hsig, ho, hact⟩ | ⟨-, e, he⟩
        · rw [hact] at h
          cases h
          obtain ⟨t, ht, hthread⟩ := reads_actionThread.sound ho
          have happ := List.takeWhile_append_dropWhile (p := isHexDigit) (l := ts)
          have hhex : ∀ d ∈ [s1, s2], isHexDigit d = true := by
            intro d hd
            rw [← hsig] at hd
            exact List.mem_takeWhile_imp hd
          rw [hsig, ht] at happ
          refine ⟨[c, s1, s2] ++ t, by rw [← happ]; simp, [c, s1, s2], t, rfl, ?_,
            actionThread_getD hthread⟩
          exact ActionLetters.signal hc (hhex s1 (by simp)) (hhex s2 (by simp))
        · -- a signal of another length aborts, which is no result
          rw [he] at h
          cases h
      · rw [gdbAction_of_fail (gdbActionText_other hc hc' ts)] at h
        cases h
  -- what the grammar derives is what the parser reads, as the thread ends where the parser stops
  complete := by
    rintro ⟨c, sig, id⟩ _ rest ⟨t1, t2, rfl, hletters, hthread⟩ hend
    obtain ⟨o, rfl, ho⟩ := hthread.exists_option
    have hmaybe := reads_actionThread.complete ho hend
    rw [List.append_assoc]
    cases hletters with
    | plain hc =>
      obtain ⟨o', rest', ho', hact⟩ := gdbAction_of_text (gdbActionText_plain hc (t2 ++ rest))
      rw [hmaybe] at ho'
      cases ho'
      exact hact
    | @signal s1 s2 hc h1 h2 =>
      have hhex : ∀ d ∈ [s1, s2], isHexDigit d = true := by
        simp only [List.mem_cons, List.not_mem_nil, or_false]
        rintro d (rfl | rfl)
        · exact h1
        · exact h2
      obtain ⟨htake, hdrop⟩ := takeWhile_append_noHex hhex (hthread.noHex hend)
      have htext := gdbActionText_signal hc ([s1, s2] ++ (t2 ++ rest))
      rw [htake, hdrop, if_neg (by simp)] at htext
      obtain ⟨o', rest', ho', hact⟩ := gdbAction_of_text htext
      rw [hmaybe] at ho'
      cases ho'
      exact hact
  fails := by
    intro ts rest h
    cases ts with
    | nil =>
      have hnil : gdbAction true [] = .fail [] := rfl
      rw [hnil] at h
      exact (ParseResult.fail.inj h).symm
    | cons c ts =>
      rcases actionLetter_cases c with hc | hc | ⟨hc, hc'⟩
      · obtain ⟨o, rest', ho, hact⟩ := gdbAction_of_text (gdbActionText_plain hc ts)
        rw [hact] at h
        cases h
      · rcases gdbAction_signal hc ts with ⟨s1, s2, o, rest', -, -, hact⟩ | ⟨-, e, he⟩
        · rw [hact] at h
          cases h
        · rw [he] at h
          cases h
      · rw [gdbAction_of_fail (gdbActionText_other hc hc' ts)] at h
        exact (ParseResult.fail.inj h).symm
  -- the only abort is that of a signal letter without exactly two digits
  aborts := by
    intro ts
    constructor
    · rintro ⟨e, h⟩
      cases ts with
      | nil => cases h
      | cons c ts =>
        rcases actionLetter_cases c with hc | hc | ⟨hc, hc'⟩
        · obtain ⟨o, rest', ho, hact⟩ := gdbAction_of_text (gdbActionText_plain hc ts)
          rw [hact] at h
          cases h
        · rcases gdbAction_signal hc ts with ⟨s1, s2, o, rest', -, -, hact⟩ | ⟨hlen, e, he⟩
          · rw [hact] at h
            cases h
          · refine ⟨c, ts.takeWhile isHexDigit, ts.dropWhile isHexDigit, ?_, hc, ?_, ?_, hlen⟩
            · rw [List.takeWhile_append_dropWhile]
            · exact fun d hd => List.mem_takeWhile_imp hd
            · exact stops_dropWhile isHexDigit ts
        · rw [gdbAction_of_fail (gdbActionText_other hc hc' ts)] at h
          cases h
    · rintro ⟨c, sig, rest, rfl, hc, hsig, hrest, hlen⟩
      obtain ⟨htake, -⟩ := takeWhile_append_noHex hsig hrest
      rcases gdbAction_signal hc (sig ++ rest) with ⟨s1, s2, o, rest', htake', -, -⟩ | ⟨-, h⟩
      · rw [htake] at htake'
        exact absurd (by rw [htake']; rfl) hlen
      · exact h

theorem Action.iff_body {v : GdbVcont} {t : List (BitVec 8)} :
    Action v t ↔ ∃ u, t = chr ';' :: u ∧ ActionBody v u := by
  constructor
  · rintro ⟨ht, hu⟩
    exact ⟨_, rfl, _, _, rfl, ht, hu⟩
  · rintro ⟨u, rfl, t1, t2, rfl, ht, hu⟩
    exact Action.mk ht hu

/-- Actions one after the other, with their semicolons. -/
theorem reads_gdbActions :
    Reads (Parser.many1 ((char (chr ';')).andThen fun _ => gdbAction))
      (fun vs t => vs ≠ [] ∧ Reads.Seq Action vs t) (· = [])
      (fun ts => ∃ vs t u, ts = t ++ chr ';' :: u ∧ Reads.Seq Action vs t ∧ BadAction u) := by
  have hone : Reads ((char (chr ';')).andThen fun _ => gdbAction) Action ActionEnd
      (fun ts => ∃ u, ts = chr ';' :: u ∧ BadAction u) :=
    (reads_gdbAction.tokenThen (chr ';')).congr (fun _ _ => Action.iff_body.symm) fun _ => Iff.rfl
  have hsemi : ∀ u : List (BitVec 8), ActionEnd (chr ';' :: u) := by
    intro u c hc
    exact (Option.some.inj hc).symm
  have hmany : Reads (Parser.many1 ((char (chr ';')).andThen fun _ => gdbAction)) _ (· = []) _ :=
    hone.many1
      (by
        rintro v t ⟨-, -⟩
        exact List.cons_ne_nil _ _)
      (by
        rintro v t rest ⟨-, -⟩
        exact hsemi _)
      (by
        rintro ts ⟨u, rfl, -⟩
        exact hsemi u)
      (by
        rintro rest rfl
        exact ⟨by simp [ActionEnd], rfl⟩)
  refine hmany.congr (fun _ _ => Iff.rfl) fun ts => ?_
  constructor
  · rintro ⟨vs, t, rest, rfl, hseq, u, rfl, hbad⟩
    exact ⟨vs, t, u, rfl, hseq, hbad⟩
  · rintro ⟨vs, t, u, rfl, hseq, hbad⟩
    exact ⟨vs, t, _, rfl, hseq, u, rfl, hbad⟩

/-! ### Commands -/

/-- The text of a command with an argument. -/
inductive Denotes : GdbCommand → List (BitVec 8) → Prop
  | h {op id t} (ht : ThreadId id t) : Denotes ⟨str "H", .h op id⟩ (chr 'H' :: op :: t)
  | p {t} (ht : IsHex t) : Denotes ⟨str "p", .int (strtolInt t)⟩ (chr 'p' :: t)
  | vcont {vs t} (hvs : vs ≠ []) (ht : Reads.Seq Action vs t) :
    Denotes ⟨str "vCont", .vcont vs⟩ (str "vCont" ++ t)
  | m {mem t} (ht : MemoryText mem t) : Denotes ⟨str "m", .memory mem⟩ (chr 'm' :: t)
  | M {loc t u} (ht : MemoryText loc t) (hu : IsHex u) :
    Denotes ⟨str "M", .memoryw loc u⟩ (chr 'M' :: (t ++ chr ':' :: u))
  | z {c type t u} (hc : c ∈ str "zZ") (htype : type ∈ str "01234") (ht : IsHex t) (hu : IsHex u) :
    Denotes ⟨[c], .brk ⟨type.toNat - 48, BitVec.ofNat 64 (scanHex t), scanHex u⟩⟩
      (c :: type :: chr ',' :: (t ++ chr ',' :: u))
  | T {id t} (ht : ThreadId id t) : Denotes ⟨str "T", .thread id⟩ (chr 'T' :: t)

/-- Actions of `vCont` of which one has a signal with a number of digits other than two. -/
def BadSignal (ts : List (BitVec 8)) : Prop :=
  ∃ vs t u, ts = str "vCont" ++ (t ++ chr ';' :: u) ∧ Reads.Seq Action vs t ∧ BadAction u

/-- A packet up to the end of the text. -/
theorem reads_gdbCmd {p : GdbParser GdbCommand} {G : GdbCommand → List (BitVec 8) → Prop}
    {F B : List (BitVec 8) → Prop} (h : Reads p G F B) (hF : F []) {ts : List (BitVec 8)} :
    (∀ cmd, G cmd ts → gdbCmd p true ts = .ok cmd []) ∧
      (B ts → ∃ e, gdbCmd p true ts = .abort e) ∧
      ((∀ cmd, ¬ G cmd ts) → ¬ B ts → gdbCmd p true ts = .fail ts) := by
  refine ⟨fun cmd hG => ?_, fun hB => ?_, fun hG hB => ?_⟩
  · have hok := h.complete hG hF
    rw [List.append_nil] at hok
    rw [gdbCmd, andThen_ok hok]
    rfl
  · obtain ⟨e, he⟩ := h.aborts.mpr hB
    exact ⟨e, by rw [gdbCmd, Parser.andThen, he]⟩
  · cases hp : p true ts with
    | ok cmd rest =>
      obtain ⟨t, rfl, hGt⟩ := h.sound hp
      rw [gdbCmd, andThen_ok hp]
      cases rest with
      | nil =>
        rw [List.append_nil] at hG
        exact absurd hGt (hG cmd)
      | cons c rest => rfl
    | fail rest =>
      rw [gdbCmd, Parser.andThen, hp]
      rfl
    | abort e => exact absurd (h.aborts.mp ⟨e, hp⟩) hB

theorem reads_gdbPacketH : Reads gdbPacketH
    (fun cmd t => ∃ op id u, t = chr 'H' :: op :: u ∧ ThreadId id u ∧ cmd = ⟨str "H", .h op id⟩)
    NoHex Never := by
  have hop := reads_anyChar.andThen
    (fun op => reads_gdbThreadId.map fun id => (⟨str "H", .h op id⟩ : GdbCommand))
    (fun _ _ => trivial) (fun h => h.elim)
  refine (hop.tokenThen (chr 'H')).congr (fun cmd t => ?_) fun ts => ?_
  · constructor
    · rintro ⟨_, rfl, op, _, u, rfl, ⟨rfl, -⟩, id, rfl, hid⟩
      exact ⟨op, id, u, rfl, hid, rfl⟩
    · rintro ⟨op, id, u, rfl, hid, rfl⟩
      exact ⟨_, rfl, op, [op], u, rfl, ⟨rfl, rfl⟩, id, rfl, hid⟩
  · exact ⟨fun ⟨_, _, h⟩ => h.elim id fun ⟨_, _, _, _, _, h⟩ => h, False.elim⟩

theorem reads_gdbPacketP : Reads gdbPacketP
    (fun cmd t => ∃ u, t = chr 'p' :: u ∧ IsHex u ∧ cmd = ⟨str "p", .int (strtolInt u)⟩)
    NoHex Never := by
  refine ((reads_mpcHex.map fun i => (⟨str "p", .int i⟩ : GdbCommand)).tokenThen (chr 'p')).congr
    (fun cmd t => ?_) fun ts => ⟨fun ⟨_, _, h⟩ => h, False.elim⟩
  constructor
  · rintro ⟨u, rfl, _, rfl, hu, rfl⟩
    exact ⟨u, rfl, hu, rfl⟩
  · rintro ⟨u, rfl, hu, rfl⟩
    exact ⟨u, rfl, _, rfl, hu, rfl⟩

theorem reads_gdbPacketVcont : Reads gdbPacketVcont
    (fun cmd t => ∃ vs u, t = str "vCont" ++ u ∧ vs ≠ [] ∧ Reads.Seq Action vs u ∧
      cmd = ⟨str "vCont", .vcont vs⟩) (· = []) BadSignal := by
  have hword : Reads (Parser.word (str "vCont") : GdbParser (List (BitVec 8))) _ Always Never :=
    Reads.word (str "vCont")
  have hseq := hword.andThen
    (fun name => reads_gdbActions.map fun args => (⟨name, .vcont args⟩ : GdbCommand))
    (fun _ _ => trivial) (fun _ => trivial)
  refine hseq.congr (fun cmd t => ?_) fun ts => ?_
  · constructor
    · rintro ⟨_, _, u, rfl, ⟨rfl, rfl⟩, vs, rfl, hvs, hseq⟩
      exact ⟨vs, u, rfl, hvs, hseq, rfl⟩
    · rintro ⟨vs, u, rfl, hvs, hseq, rfl⟩
      exact ⟨_, _, u, rfl, ⟨rfl, rfl⟩, vs, rfl, hvs, hseq⟩
  · constructor
    · rintro (h | ⟨_, _, _, rfl, ⟨rfl, rfl⟩, vs, t, u, rfl, hseq, hbad⟩)
      · exact h.elim
      · exact ⟨vs, t, u, rfl, hseq, hbad⟩
    · rintro ⟨vs, t, u, rfl, hseq, hbad⟩
      exact Or.inr ⟨_, _, _, rfl, ⟨rfl, rfl⟩, vs, t, u, rfl, hseq, hbad⟩

theorem reads_gdbPacketm : Reads gdbPacketm
    (fun cmd t => ∃ mem u, t = chr 'm' :: u ∧ MemoryText mem u ∧ cmd = ⟨str "m", .memory mem⟩)
    NoHex Never := by
  refine ((reads_gdbMemory.map fun mem => (⟨str "m", .memory mem⟩ : GdbCommand)).tokenThen
    (chr 'm')).congr (fun cmd t => ?_) fun ts => ⟨fun ⟨_, _, h⟩ => h, False.elim⟩
  constructor
  · rintro ⟨u, rfl, mem, rfl, hu⟩
    exact ⟨mem, u, rfl, hu, rfl⟩
  · rintro ⟨mem, u, rfl, hu, rfl⟩
    exact ⟨u, rfl, mem, rfl, hu⟩

theorem reads_gdbPacketM : Reads gdbPacketM
    (fun cmd t => ∃ loc u w, t = chr 'M' :: (u ++ chr ':' :: w) ∧ MemoryText loc u ∧ IsHex w ∧
      cmd = ⟨str "M", .memoryw loc w⟩) NoHex Never := by
  have hseq := reads_gdbMemory.andThen
    (fun loc => (reads_hexdigits.map fun data =>
      (⟨str "M", .memoryw loc data⟩ : GdbCommand)).tokenThen (chr ':'))
    (by
      rintro loc cmd _ rest ⟨u, rfl, -⟩ -
      exact noHex_cons (by decide) _) (fun ⟨_, _, h⟩ => h.elim)
  refine (hseq.tokenThen (chr 'M')).congr (fun cmd t => ?_) fun ts => ?_
  · constructor
    · rintro ⟨_, rfl, loc, u, _, rfl, hloc, w, rfl, _, rfl, rfl, hw⟩
      exact ⟨loc, u, _, rfl, hloc, hw, rfl⟩
    · rintro ⟨loc, u, w, rfl, hloc, hw, rfl⟩
      exact ⟨_, rfl, loc, u, _, rfl, hloc, w, rfl, _, rfl, rfl, hw⟩
  · exact ⟨fun ⟨_, _, h⟩ => h.elim id fun ⟨_, _, _, _, _, _, _, h⟩ => h, False.elim⟩

theorem reads_gdbPacketT : Reads gdbPacketT
    (fun cmd t => ∃ id u, t = chr 'T' :: u ∧ ThreadId id u ∧ cmd = ⟨str "T", .thread id⟩)
    NoHex Never := by
  refine ((reads_gdbThreadId.map fun id => (⟨str "T", .thread id⟩ : GdbCommand)).tokenThen
    (chr 'T')).congr (fun cmd t => ?_) fun ts => ⟨fun ⟨_, _, h⟩ => h, False.elim⟩
  constructor
  · rintro ⟨u, rfl, id, rfl, hu⟩
    exact ⟨id, u, rfl, hu, rfl⟩
  · rintro ⟨id, u, rfl, hu, rfl⟩
    exact ⟨u, rfl, id, rfl, hu⟩

theorem reads_gdbPacketZ : Reads gdbPacketZ
    (fun cmd t => ∃ c type u w, t = c :: type :: chr ',' :: (u ++ chr ',' :: w) ∧ c ∈ str "zZ" ∧
      type ∈ str "01234" ∧ IsHex u ∧ IsHex w ∧
      cmd = ⟨[c], .brk ⟨type.toNat - 48, BitVec.ofNat 64 (scanHex u), scanHex w⟩⟩) NoHex Never := by
  have htype := ((reads_oneof (str "01234")).map
    fun c => c.toNat - 48).thenToken (chr ',') (fun _ => trivial)
  have haddr := (reads_hexdigits.map fun t => BitVec.ofNat 64 (scanHex t)).thenToken (chr ',')
    (noHex_cons (by decide))
  have hkind := fun (c : BitVec 8) (type : ℕ) (address : BitVec 64) =>
    (reads_hexdigits.map scanHex).map fun kind =>
      (⟨[c], .brk ⟨type, address, kind⟩⟩ : GdbCommand)
  have hseq := (reads_oneof (str "zZ")).andThen
    (fun c => htype.andThen
      (fun type => haddr.andThen (fun address => hkind c type address)
        (fun _ _ => trivial) (fun h => h.elim))
      (fun _ _ => trivial) (fun _ => trivial))
    (fun _ _ => trivial) (fun _ => trivial)
  refine hseq.congr (fun cmd t => ?_) fun ts => ?_
  · constructor
    · rintro ⟨c, _, _, rfl, ⟨rfl, hc⟩, _, _, _, rfl, ⟨_, rfl, d, rfl, rfl, hd⟩, _, _, _, rfl,
        ⟨u, rfl, _, rfl, rfl, hu⟩, _, rfl, w, rfl, rfl, hw⟩
      refine ⟨c, d, _, _, ?_, by simpa using hc, by simpa using hd, hu, hw, rfl⟩
      simp
    · rintro ⟨c, d, u, w, rfl, hc, hd, hu, hw, rfl⟩
      refine ⟨c, [c], _, rfl, ⟨rfl, by simpa using hc⟩, _, [d, chr ','], _, rfl,
        ⟨[d], rfl, d, rfl, rfl, by simpa using hd⟩, _, u ++ [chr ','], w, ?_,
        ⟨u, rfl, u, rfl, rfl, hu⟩, _, rfl, w, rfl, rfl, hw⟩
      simp
  · refine ⟨?_, False.elim⟩
    rintro (h | ⟨_, _, _, _, _, h | ⟨_, _, _, _, _, h | ⟨_, _, _, _, _, h⟩⟩⟩)
    all_goals exact h

/-! ### The second stage -/

theorem gdbParseStage2_ok {cmd : GdbCommand} {ts : List (BitVec 8)} (h : Denotes cmd ts) :
    gdbParseStage2 true ts = .ok cmd [] := by
  have hend : NoHex [] := fun c hc => nomatch hc
  -- the packets before the one that is meant fail on the first character
  cases h with
  | @h op id t ht =>
    have hok := (reads_gdbCmd reads_gdbPacketH hend).1 _ ⟨op, id, t, rfl, ht, rfl⟩
    rw [gdbParseStage2, Parser.orElse, hok]
  | @p t ht =>
    have hok := (reads_gdbCmd reads_gdbPacketP hend).1 _ ⟨t, rfl, ht, rfl⟩
    have hfail : gdbCmd gdbPacketH true (chr 'p' :: t) = .fail (chr 'p' :: t) := rfl
    rw [gdbParseStage2, orElse_fail hfail, Parser.orElse, hok]
  | @vcont vs t hvs ht =>
    have hok := (reads_gdbCmd reads_gdbPacketVcont rfl).1 _ ⟨vs, t, rfl, hvs, ht, rfl⟩
    rw [gdbParseStage2, orElse_fail rfl, orElse_fail rfl, Parser.orElse, hok]
  | @m mem t ht =>
    have hok := (reads_gdbCmd reads_gdbPacketm hend).1 _ ⟨mem, t, rfl, ht, rfl⟩
    rw [gdbParseStage2, orElse_fail rfl, orElse_fail rfl, orElse_fail rfl, Parser.orElse, hok]
  | @M loc t u ht hu =>
    have hok := (reads_gdbCmd reads_gdbPacketM hend).1 _ ⟨loc, t, u, rfl, ht, hu, rfl⟩
    rw [gdbParseStage2, orElse_fail rfl, orElse_fail rfl, orElse_fail rfl, orElse_fail rfl,
      Parser.orElse, hok]
  | @z c type t u hc htype ht hu =>
    have hok := (reads_gdbCmd reads_gdbPacketZ hend).1 _
      ⟨c, type, t, u, rfl, hc, htype, ht, hu, rfl⟩
    have hzZ : ∀ c ∈ str "zZ", c = chr 'z' ∨ c = chr 'Z' := by decide
    rcases hzZ c hc with rfl | rfl <;>
      rw [gdbParseStage2, orElse_fail rfl, orElse_fail rfl, orElse_fail rfl, orElse_fail rfl,
        orElse_fail rfl, Parser.orElse, hok]
  | @T id t ht =>
    have hok := (reads_gdbCmd reads_gdbPacketT hend).1 _ ⟨id, t, rfl, ht, rfl⟩
    rw [gdbParseStage2, orElse_fail rfl, orElse_fail rfl, orElse_fail rfl, orElse_fail rfl,
      orElse_fail rfl, orElse_fail rfl, Parser.orElse, hok]

theorem gdbParseStage2_abort {ts : List (BitVec 8)} (h : BadSignal ts) :
    ∃ e, gdbParseStage2 true ts = .abort e := by
  obtain ⟨e, he⟩ := (reads_gdbCmd reads_gdbPacketVcont rfl).2.1 h
  obtain ⟨vs, t, u, rfl, -⟩ := h
  refine ⟨e, ?_⟩
  rw [gdbParseStage2, orElse_fail rfl, orElse_fail rfl, Parser.orElse, he]

/-- A text that is no command with an argument is a command without one. -/
theorem gdbParseStage2_any {ts : List (BitVec 8)} (hden : ∀ cmd, ¬ Denotes cmd ts)
    (hbad : ¬ BadSignal ts) (hnil : ts ≠ []) : gdbParseStage2 true ts = .ok (gdbfIgnarg ts) [] := by
  have hend : NoHex [] := fun c hc => nomatch hc
  have hH := (reads_gdbCmd reads_gdbPacketH hend).2.2
    (fun _ ⟨_, _, _, hts, ht, _⟩ => hden _ (hts ▸ Denotes.h ht)) fun h => h
  have hP := (reads_gdbCmd reads_gdbPacketP hend).2.2
    (fun _ ⟨_, hts, ht, _⟩ => hden _ (hts ▸ Denotes.p ht)) fun h => h
  have hV := (reads_gdbCmd reads_gdbPacketVcont rfl).2.2
    (fun _ ⟨_, _, hts, hvs, ht, _⟩ => hden _ (hts ▸ Denotes.vcont hvs ht)) hbad
  have hm := (reads_gdbCmd reads_gdbPacketm hend).2.2
    (fun _ ⟨_, _, hts, ht, _⟩ => hden _ (hts ▸ Denotes.m ht)) fun h => h
  have hM := (reads_gdbCmd reads_gdbPacketM hend).2.2
    (fun _ ⟨_, _, _, hts, ht, hu, _⟩ => hden _ (hts ▸ Denotes.M ht hu)) fun h => h
  have hZ := (reads_gdbCmd reads_gdbPacketZ hend).2.2
    (fun _ ⟨_, _, _, _, hts, hc, htype, ht, hu, _⟩ => hden _ (hts ▸ Denotes.z hc htype ht hu))
    fun h => h
  have hT := (reads_gdbCmd reads_gdbPacketT hend).2.2
    (fun _ ⟨_, _, hts, ht, _⟩ => hden _ (hts ▸ Denotes.T ht)) fun h => h
  have hany : Parser.many1 anyChar true ts = .ok ts [] := by
    have hreads : Reads (Parser.many1 anyChar) _ _ _ := Reads.many1_satisfy fun _ => true
    have hall : Parser.many1 anyChar true (ts ++ []) = .ok ts [] :=
      hreads.complete ⟨rfl, hnil, fun _ _ => rfl⟩ (by simp [Stops])
    rwa [List.append_nil] at hall
  rw [gdbParseStage2, orElse_fail hH, orElse_fail hP, orElse_fail hV, orElse_fail hm,
    orElse_fail hM, orElse_fail hZ, orElse_fail hT, gdbAny, foldWith, Parser.apply, hany]

/-- **The second stage.**  A text is the command that it denotes, aborts the program, or is a command
without argument. -/
theorem parseText_eq (ts : List (BitVec 8)) :
    (∃ cmd, Denotes cmd ts ∧ parseText ts = .ok (some cmd)) ∨
      (BadSignal ts ∧ ∃ e, parseText ts = .error e) ∨
      ((∀ cmd, ¬ Denotes cmd ts) ∧ ¬ BadSignal ts ∧
        parseText ts = .ok (if ts = [] then none else some (gdbfIgnarg ts))) := by
  by_cases hden : ∃ cmd, Denotes cmd ts
  · obtain ⟨cmd, hcmd⟩ := hden
    exact Or.inl ⟨cmd, hcmd, by rw [parseText, gdbParseStage2_ok hcmd]⟩
  · by_cases hbad : BadSignal ts
    · obtain ⟨e, he⟩ := gdbParseStage2_abort hbad
      exact Or.inr (Or.inl ⟨hbad, e, by rw [parseText, he]⟩)
    · rw [not_exists] at hden
      refine Or.inr (Or.inr ⟨hden, hbad, ?_⟩)
      by_cases hnil : ts = []
      · rw [if_pos hnil, hnil]
        rfl
      · rw [if_neg hnil, parseText, gdbParseStage2_any hden hbad hnil]

theorem Denotes.unique {cmd cmd' : GdbCommand} {ts : List (BitVec 8)} (h : Denotes cmd ts)
    (h' : Denotes cmd' ts) : cmd = cmd' := by
  have hok := gdbParseStage2_ok h
  rw [gdbParseStage2_ok h'] at hok
  exact (ParseResult.ok.inj hok).1.symm

theorem Denotes.not_badSignal {cmd : GdbCommand} {ts : List (BitVec 8)} (h : Denotes cmd ts) :
    ¬ BadSignal ts := by
  intro hbad
  obtain ⟨e, he⟩ := gdbParseStage2_abort hbad
  rw [gdbParseStage2_ok h] at he
  cases he

end RiscvVp.Gdb
