import Mathlib
import RiscvVp.Gdb.Server
import RiscvVp.Gdb.Equiv.Grammar

/-!
# Thread ids

`threadInfo` and the stop reply of `vCont` print the id of a hart plus one in decimal; a packet that is
sent back has its thread id read in base 16, and `get_harts` takes it for a position in the list of harts.
The two agree as long as the ids are positions and have one digit, and where they do is made exact here.
The list of `threadInfo` puts its commas by position, too, so it ends in one if the last hart has
terminated.
-/

namespace RiscvVp.Gdb

/-! ### Numbers printed in decimal and read in base 16 -/

/-- The number that the decimal digits of `m` stand for in base 16. -/
def readBack (m : ℕ) : ℕ := Nat.ofDigits 16 (Nat.digits 10 m)

theorem isHex_decimal (m : ℕ) : IsHex (decimal m) := by
  have hdigit : ∀ d < 10, isHexDigit (hexDigit d) = true := by decide
  rw [decimal]
  split_ifs with hm
  · exact ⟨List.cons_ne_nil _ _, by decide⟩
  · refine ⟨?_, fun c hc => ?_⟩
    · rw [ne_eq, List.map_eq_nil_iff, List.reverse_eq_nil_iff, Nat.digits_eq_nil_iff_eq_zero]
      exact hm
    · obtain ⟨d, hd, rfl⟩ := List.mem_map.mp hc
      exact hdigit d (Nat.digits_lt_base (by decide) (List.mem_reverse.mp hd))

theorem ofHex_map_hexDigit {digits : List ℕ} (h : ∀ d ∈ digits, d < 10) :
    ofHex (digits.reverse.map hexDigit) = Nat.ofDigits 16 digits := by
  have hvalue : ∀ d < 10, hexValue (hexDigit d) = d := by decide
  rw [ofHex, List.foldl_map, List.foldl_reverse]
  induction digits with
  | nil => rfl
  | cons d digits ih =>
    rw [List.forall_mem_cons] at h
    rw [List.foldr_cons, ih h.2, Nat.ofDigits_cons, hvalue d h.1, Nat.add_comm]

theorem ofHex_decimal (m : ℕ) : ofHex (decimal m) = readBack m := by
  rw [decimal, readBack]
  split_ifs with hm
  · rw [hm]
    decide
  · exact ofHex_map_hexDigit fun d hd => Nat.digits_lt_base (by decide) hd

/-- The thread that a client gets who sends `m` back: a `long`, stored in an `int`. -/
def sentBack (m : ℕ) : ℤ := (BitVec.ofNat 32 (min (readBack m) (2 ^ 63 - 1))).toInt

theorem strtolInt_decimal (m : ℕ) : strtolInt (decimal m) = sentBack m := by
  rw [strtolInt, ofHex_decimal, sentBack]

/-! ### Thread ids that are sent back -/

/-- The thread id in an `H`, a `T` or a `vCont` packet is resolved to the hart. -/
def ResolvesTo (harts : ℕ) (id : List (BitVec 8)) (hart : ℕ) : Prop :=
  (∀ op, ∃ thr, parseText (chr 'H' :: op :: id) = .ok (some ⟨str "H", .h op thr⟩) ∧
      getHarts harts thr.tid = some [hart]) ∧
    (∃ thr, parseText (chr 'T' :: id) = .ok (some ⟨str "T", .thread thr⟩) ∧
      getHarts harts thr.tid = some [hart]) ∧
    ∀ c ∈ str "cst", ∃ thr,
      parseText (str "vCont" ++ (chr ';' :: c :: chr ':' :: id)) =
          .ok (some ⟨str "vCont", .vcont [⟨c, -1, thr⟩]⟩) ∧
        getHarts harts thr.tid = some [hart]

/-- `m` sent back names the hart at position `hart`. -/
def Names (harts m hart : ℕ) : Prop :=
  sentBack m = hart + 1 ∨ hart = 0 ∧ (sentBack m = 0 ∨ sentBack m = -1 ∧ harts = 1)

theorem getHarts_eq_singleton_iff {harts hart : ℕ} (h : hart < harts) (id : ℤ) :
    getHarts harts id = some [hart] ↔
      id = hart + 1 ∨ hart = 0 ∧ (id = 0 ∨ id = -1 ∧ harts = 1) := by
  have hall : (some (List.range harts) = some [hart]) ↔ hart = 0 ∧ harts = 1 := by
    rw [Option.some.injEq]
    constructor
    · intro heq
      have hlen := congrArg List.length heq
      rw [List.length_range, List.length_singleton] at hlen
      omega
    · rintro ⟨rfl, rfl⟩
      rfl
  have hany : threadAny = 0 := rfl
  have hthreads : threadAll = -1 := rfl
  unfold getHarts
  dsimp only
  by_cases h0 : id = threadAny
  · rw [if_pos h0, if_neg (by decide), if_neg (by decide), if_pos (by omega), Option.some.injEq,
      List.singleton_inj]
    omega
  · rw [if_neg h0]
    by_cases h1 : id = threadAll
    · rw [if_pos h1, hall]
      omega
    · rw [if_neg h1]
      split_ifs
      · simp only [false_iff]
        omega
      · rw [Option.some.injEq, List.singleton_inj]
        omega
      · simp only [false_iff]
        omega

theorem parseText_of_denotes {cmd : GdbCommand} {ts : List (BitVec 8)} (h : Denotes cmd ts) :
    parseText ts = .ok (some cmd) := by
  rw [parseText, gdbParseStage2_ok h]

/-- A printed number is resolved to a hart exactly if it names it. -/
theorem resolvesTo_decimal_iff {harts hart : ℕ} (h : hart < harts) (m : ℕ) :
    ResolvesTo harts (decimal m) hart ↔ Names harts m hart := by
  have hid : ThreadId ⟨threadUnset, sentBack m⟩ (decimal m) := by
    rw [← strtolInt_decimal]
    exact .thread (.hex (isHex_decimal m))
  rw [Names, ← getHarts_eq_singleton_iff h]
  constructor
  · rintro ⟨-, ⟨thr, hparse, hharts⟩, -⟩
    have hdenotes := parseText_of_denotes (Denotes.T hid)
    rw [hparse, Except.ok.injEq, Option.some.injEq, GdbCommand.mk.injEq, GdbArg.thread.injEq] at hdenotes
    rw [hdenotes.2] at hharts
    exact hharts
  · intro hharts
    refine ⟨fun op => ⟨_, parseText_of_denotes (.h hid), hharts⟩,
      ⟨_, parseText_of_denotes (.T hid), hharts⟩,
      fun c hc => ⟨⟨threadUnset, sentBack m⟩, ?_, hharts⟩⟩
    have haction : Action ⟨c, -1, ⟨threadUnset, sentBack m⟩⟩ (chr ';' :: c :: chr ':' :: decimal m) :=
      .mk (.plain hc) (.one hid)
    have hseq := Parser.Reads.Seq.cons haction .nil
    rw [List.append_nil] at hseq
    exact parseText_of_denotes (.vcont (List.cons_ne_nil _ _) hseq)

/-! ### The list of threads -/

section Server

variable {σ : Type} (T : Target σ)

/-- The harts that have not terminated. -/
def running (s : Server σ) (n : ℕ) : List ℕ :=
  (List.range n).filter fun i => T.getStatus i s.target ≠ .terminated

/-- The id that `threadInfo` prints for a hart. -/
def listedId (i : ℕ) : List (BitVec 8) := decimal (T.hartId i + 1).toNat

/-- The list that names the running harts, separated by commas. -/
def threadList (s : Server σ) : List (BitVec 8) :=
  str "m" ++ (str ",").intercalate ((running T s s.harts).map (listedId T))

theorem intercalate_concat {α : Type} (sep x : List α) (l : List (List α)) :
    sep.intercalate (l ++ [x]) = l.flatMap (· ++ sep) ++ x := by
  induction l with
  | nil => simp [List.intercalate]
  | cons y l ih =>
    cases l with
    | nil => simp [List.intercalate]
    | cons z l =>
      have hstep : sep.intercalate (y :: z :: l ++ [x]) =
          y ++ sep ++ sep.intercalate (z :: l ++ [x]) := by
        simp [List.intercalate, List.intersperse]
      rw [hstep, ih]
      simp only [List.flatMap_cons, List.append_assoc]

theorem running_succ (s : Server σ) (n : ℕ) :
    running T s (n + 1) =
      running T s n ++ if T.getStatus n s.target ≠ .terminated then [n] else [] := by
  rw [running, List.range_succ, List.filter_append, ← running, List.filter_singleton]
  by_cases hterm : T.getStatus n s.target = .terminated <;> simp [hterm]

/-- What the loop of `threadInfo` prints for the harts before the last one. -/
theorem flatMap_range_listedId (s : Server σ) {n : ℕ} (hn : n < s.harts) :
    ((List.range n).flatMap fun i =>
        if T.getStatus i s.target = .terminated then []
        else listedId T i ++ if i + 1 < s.harts then str "," else []) =
      ((running T s n).map (listedId T)).flatMap (· ++ str ",") := by
  induction n with
  | zero => rfl
  | succ n ih =>
    rw [List.range_succ, List.flatMap_append, ih (by omega), running_succ, List.map_append,
      List.flatMap_append, List.flatMap_singleton]
    by_cases hterm : T.getStatus n s.target = .terminated
    · rw [if_pos hterm, if_neg (not_not.mpr hterm)]
      rfl
    · rw [if_neg hterm, if_pos hterm, if_pos hn, List.map_singleton, List.flatMap_singleton]

/-- The list of threads, and a comma too many if the last hart has terminated and another has not. -/
theorem threadInfo_eq (s : Server σ) :
    threadInfo T s = threadList T s ++
      if running T s s.harts ≠ [] ∧ T.getStatus (s.harts - 1) s.target = .terminated
        then str "," else [] := by
  have hunfold : threadInfo T s = str "m" ++ (List.range s.harts).flatMap fun i =>
      if T.getStatus i s.target = .terminated then []
      else listedId T i ++ if i + 1 < s.harts then str "," else [] := rfl
  rw [hunfold, threadList, List.append_assoc]
  refine congrArg (str "m" ++ ·) ?_
  rcases Nat.eq_zero_or_pos s.harts with hzero | hpos
  · rw [hzero]
    simp [running]
  obtain ⟨n, hn⟩ : ∃ n, s.harts = n + 1 := ⟨s.harts - 1, by omega⟩
  have hbefore := flatMap_range_listedId T s (show n < s.harts by omega)
  have hlast : s.harts - 1 = n := by omega
  rw [hlast]
  conv_lhs => rw [show List.range s.harts = List.range n ++ [n] by rw [hn, List.range_succ]]
  rw [List.flatMap_append, List.flatMap_singleton, hbefore, show running T s s.harts = _ from
    hn ▸ running_succ T s n]
  by_cases hterm : T.getStatus n s.target = .terminated
  · rw [if_pos hterm, if_neg (not_not.mpr hterm), List.append_nil, List.append_nil]
    rcases List.eq_nil_or_concat (running T s n) with hnil | ⟨l, i, hi⟩
    · rw [hnil]
      simp
    · rw [List.concat_eq_append] at hi
      rw [hi, if_pos ⟨by simp, hterm⟩, List.map_append, List.map_singleton, intercalate_concat,
        List.flatMap_append, List.flatMap_singleton, List.append_assoc]
  · have hcomma : ¬n + 1 < s.harts := by omega
    rw [if_neg hterm, if_pos hterm, if_neg hcomma, if_neg fun h => hterm h.2, List.append_nil,
      List.append_nil, List.map_append, List.map_singleton, intercalate_concat]

/-- The list is in order exactly if no hart runs or the last one does. -/
theorem threadInfo_eq_threadList_iff (s : Server σ) :
    threadInfo T s = threadList T s ↔
      (∀ i < s.harts, T.getStatus i s.target = .terminated) ∨
        T.getStatus (s.harts - 1) s.target ≠ .terminated := by
  have hnil : running T s s.harts = [] ↔ ∀ i < s.harts, T.getStatus i s.target = .terminated := by
    simp [running, List.filter_eq_nil_iff]
  rw [threadInfo_eq, List.append_right_eq_self, ← hnil]
  split_ifs with h
  · exact ⟨fun hcomma => absurd hcomma (by decide), fun hor => (hor.elim h.1 fun hn => hn h.2).elim⟩
  · refine ⟨fun _ => ?_, fun _ => rfl⟩
    by_contra hnot
    rw [not_or, not_not] at hnot
    exact h hnot

/-! ### Stop replies -/

/-- The number of a hart in a stop reply, an `int`. -/
def stopNumber (ids : ℕ → BitVec 64) (hart : ℕ) : ℤ := ((ids hart + 1).setWidth 32).toInt

/-- The hart that the loop of `vCont` over the stopped harts finds last. -/
def reportedHart : List ℕ → Option ℕ → σ → Option ℕ
  | [], r, _ => r
  | h :: hs, r, t =>
    match T.getStatus h t with
    | .hitBreakpoint => reportedHart hs (some h) (T.setStatus h .runnable t)
    | .terminated => reportedHart hs (some h) t
    | .runnable => reportedHart hs r t

/-- The hart that the stop reply to `vCont` is about. -/
def vContReported (vs : List GdbVcont) (s : Server σ) : Option ℕ :=
  match vcontLoop s.harts vs [] s.singleRun with
  | (.ok (some hs), single) =>
    match (if hs = [] then some s.target else T.runAllHarts hs single s.target) with
    | some t => reportedHart T hs none t
    | none => none
  | _ => none

/-- The thread that a client reads in a stop reply, after the letter and the signal. -/
def replyThread (text : List (BitVec 8)) : Option (List (BitVec 8)) :=
  if (str "thread:").isPrefixOf (text.drop 3) then
    some ((text.drop 10).takeWhile (· != chr ';'))
  else none

/-- The loop over the stopped harts: the number is that of the hart it reports, and the reason has two
digits. -/
theorem vcontStopped_number (hs : List ℕ) (reason : Option (List (BitVec 8))) (r : Option ℕ) (t : σ)
    (hreason : ∀ text ∈ reason, text.length = 2) :
    (vcontStopped T hs (reason, (r.map (stopNumber T.hartId)).getD (-1), t)).2.1 =
        ((reportedHart T hs r t).map (stopNumber T.hartId)).getD (-1) ∧
      ∀ text ∈ (vcontStopped T hs (reason, (r.map (stopNumber T.hartId)).getD (-1), t)).1,
        text.length = 2 := by
  induction hs generalizing reason r t with
  | nil => exact ⟨rfl, hreason⟩
  | cons h hs ih =>
    have htwo : ∀ c : List (BitVec 8), c.length = 2 → ∀ text ∈ some c, text.length = 2 := by
      intro c hc text htext
      rw [← Option.some.inj htext]
      exact hc
    rw [vcontStopped, reportedHart]
    cases T.getStatus h t with
    | hitBreakpoint => exact ih _ (some h) _ (htwo _ rfl)
    | terminated => exact ih _ (some h) _ (htwo _ rfl)
    | runnable => exact ih reason r t hreason

/-- The text of a stop reply names the thread by the decimal digits of its number. -/
theorem replyThread_text {reason : List (BitVec 8)} (hreason : reason.length = 2) (m : ℕ) :
    replyThread (str "T" ++ reason ++ (str "thread:" ++ decimal m ++ str ";")) = some (decimal m) := by
  obtain ⟨c, d, rfl⟩ := List.length_eq_two.mp hreason
  have hnosemi : ∀ e ∈ decimal m, (e != chr ';') = true := by
    intro e he
    have hhex := (isHex_decimal m).2 e he
    rw [bne_iff_ne]
    rintro rfl
    exact absurd hhex (by decide)
  have hdrop : (str "T" ++ [c, d] ++ (str "thread:" ++ decimal m ++ str ";")).drop 10 =
      decimal m ++ str ";" := rfl
  have hprefix : (str "thread:").isPrefixOf
      ((str "T" ++ [c, d] ++ (str "thread:" ++ decimal m ++ str ";")).drop 3) = true := rfl
  have htake : (decimal m ++ str ";").takeWhile (· != chr ';') = decimal m := by
    rw [List.takeWhile_append_of_pos hnosemi]
    show decimal m ++ [] = decimal m
    rw [List.append_nil]
  rw [replyThread, if_pos hprefix, hdrop, htake]

theorem replyThread_short {reason : List (BitVec 8)} (hreason : reason.length = 2) :
    replyThread (str "T" ++ reason ++ []) = none := by
  obtain ⟨c, d, rfl⟩ := List.length_eq_two.mp hreason
  rfl

/-- A reply that is about a hart has its number, if that is one. -/
theorem replyThread_vCont {vs : List GdbVcont} {s : Server σ} {h : ℕ}
    (hreported : vContReported T vs s = some h) :
    ∃ text, (vCont T (some vs) s).1 = .ok text ∧
      replyThread text = if 1 ≤ stopNumber T.hartId h then
        some (decimal (stopNumber T.hartId h).toNat) else none := by
  unfold vContReported at hreported
  unfold vCont
  dsimp only
  rcases hloop : vcontLoop s.harts vs [] s.singleRun with ⟨e | hs, single⟩
  · rw [hloop] at hreported
    cases hreported
  rw [hloop] at hreported
  cases hs with
  | none => cases hreported
  | some hs =>
    dsimp only at hreported ⊢
    cases hrun : (if hs = [] then some s.target else T.runAllHarts hs single s.target) with
    | none =>
      rw [hrun] at hreported
      cases hreported
    | some t =>
      rw [hrun] at hreported
      dsimp only at hreported ⊢
      obtain ⟨hnumber, hlength⟩ := vcontStopped_number T hs none none t fun _ h => absurd h (by simp)
      rw [hreported] at hnumber
      replace hnumber : (vcontStopped T hs (none, -1, t)).2.1 = stopNumber T.hartId h := hnumber
      replace hlength : ∀ text ∈ (vcontStopped T hs (none, -1, t)).1, text.length = 2 := hlength
      rcases hfound : vcontStopped T hs (none, -1, t) with ⟨reason, stopped, t'⟩
      rw [hfound] at hnumber hlength
      have htwo : (reason.getD (str "02")).length = 2 := by
        cases reason with
        | none => rfl
        | some text => exact hlength text rfl
      dsimp only at hnumber ⊢
      refine ⟨_, rfl, ?_⟩
      rw [hnumber]
      split_ifs
      · exact replyThread_text htwo _
      · exact replyThread_short htwo

end Server

/-! ### Both directions -/

/-- The thread ids agree for a number of harts with these ids, of which some have terminated: whatever
the harts and the server are like otherwise, the list names the running harts and is in order, and each id
in it and in a stop reply is resolved to the hart that it stands for. -/
def ThreadIdsAgree (harts : ℕ) (ids : ℕ → BitVec 64) (terminated : ℕ → Bool) : Prop :=
  ∀ (σ : Type) (T : Target σ) (s : Server σ), T.hartId = ids → s.harts = harts →
    (∀ i, T.getStatus i s.target = .terminated ↔ terminated i = true) →
    threadInfo T s = threadList T s ∧
      (∀ i ∈ running T s harts, ResolvesTo harts (listedId T i) i) ∧
      ∀ vs i text id, vContReported T vs s = some i → i < harts → (vCont T (some vs) s).1 = .ok text →
        replyThread text = some id → ResolvesTo harts id i

/-- The condition on the ids: no hart runs or the last one does, and the numbers that are printed for a
hart name it when they are read in base 16. -/
def IdsReadable (harts : ℕ) (ids : ℕ → BitVec 64) (terminated : ℕ → Bool) : Prop :=
  ((∀ i < harts, terminated i = true) ∨ terminated (harts - 1) = false) ∧
    ∀ i < harts, (terminated i = false → Names harts (ids i + 1).toNat i) ∧
      (1 ≤ stopNumber ids i → Names harts (stopNumber ids i).toNat i)

/-- A target of which only the ids and the status of harts matter; when one hart is run it stops at a
breakpoint, unless it has terminated. -/
def statusTarget (ids : ℕ → BitVec 64) (terminated : ℕ → Bool) : Target Bool where
  arch := .rv64
  v2p _ := none
  transportDbg _ n _ t := (.ok ⟨n, false, []⟩, t)
  hartId := ids
  getStatus i t := if terminated i then .terminated else if t then .hitBreakpoint else .runnable
  setStatus _ _ t := t
  programCounter _ _ := 0
  getRegisters _ _ := []
  readRegister _ _ _ := none
  insertBreakpoint _ _ t := t
  removeBreakpoint _ _ t := t
  runAllHarts _ _ _ := some true

/-- The server before any hart has run. -/
def statusServer (harts : ℕ) : Server Bool := ⟨harts, fun _ => none, fun _ => false, false⟩

theorem getStatus_statusTarget (ids : ℕ → BitVec 64) (terminated : ℕ → Bool) (i : ℕ) :
    (statusTarget ids terminated).getStatus i false = .terminated ↔ terminated i = true := by
  unfold statusTarget
  dsimp only
  cases terminated i <;> simp

/-- Any hart can be made to stop and be reported. -/
theorem vContReported_statusTarget (ids : ℕ → BitVec 64) (terminated : ℕ → Bool) {harts i : ℕ}
    (hi : i < harts) :
    vContReported (statusTarget ids terminated) [⟨chr 'c', -1, ⟨threadUnset, i + 1⟩⟩]
      (statusServer harts) = some i := by
  have hharts : getHarts harts (i + 1) = some [i] := (getHarts_eq_singleton_iff hi _).mpr (.inl rfl)
  have hloop : vcontLoop harts [⟨chr 'c', -1, ⟨threadUnset, i + 1⟩⟩] [] (fun _ => false) =
      (.ok (some [i]), fun h => if h ∈ [i] then decide (chr 'c' = chr 's') else false) := by
    rw [vcontLoop, if_neg (show ¬(chr 'c' ≠ chr 's' ∧ chr 'c' ≠ chr 'c') by decide)]
    dsimp only
    rw [hharts]
    rfl
  have hreported : ∀ t, t = true → reportedHart (statusTarget ids terminated) [i] none t = some i := by
    intro t ht
    rw [reportedHart, ht]
    unfold statusTarget
    dsimp only
    cases terminated i <;> rfl
  rw [vContReported, show (statusServer harts).harts = harts from rfl,
    show (statusServer harts).singleRun = fun _ => false from rfl, hloop]
  exact hreported true rfl

/-- **Thread ids.**  They agree in both directions exactly if no hart runs or the last one does, and the
numbers printed for each hart, which are decimal, name it in base 16. -/
theorem threadIdsAgree_iff (harts : ℕ) (ids : ℕ → BitVec 64) (terminated : ℕ → Bool) :
    ThreadIdsAgree harts ids terminated ↔ IdsReadable harts ids terminated := by
  constructor
  · intro h
    obtain ⟨hlist, hlisted, hstop⟩ := h Bool (statusTarget ids terminated) (statusServer harts) rfl rfl
      (getStatus_statusTarget ids terminated)
    rw [threadInfo_eq_threadList_iff] at hlist
    have hstatus := getStatus_statusTarget ids terminated
    refine ⟨?_, fun i hi => ⟨fun hrun => ?_, fun hnumber => ?_⟩⟩
    · refine hlist.imp (fun hall i hi => (hstatus i).mp (hall i hi)) fun hlast => ?_
      rw [← Bool.not_eq_true]
      exact fun hterm => hlast ((hstatus (harts - 1)).mpr hterm)
    · rw [← resolvesTo_decimal_iff hi]
      refine hlisted i (List.mem_filter.mpr ⟨List.mem_range.mpr hi, ?_⟩)
      rw [decide_eq_true_eq]
      exact fun hterm => Bool.false_ne_true (hrun.symm.trans ((hstatus i).mp hterm))
    · rw [← resolvesTo_decimal_iff hi]
      have hreported := vContReported_statusTarget ids terminated hi
      obtain ⟨text, htext, hthread⟩ := replyThread_vCont _ hreported
      exact hstop _ i text _ hreported hi htext (hthread.trans (if_pos hnumber))
  · rintro ⟨hlast, hnames⟩ σ T s rfl rfl hstatus
    refine ⟨?_, fun i hi => ?_, fun vs i text id hreported hi htext hid => ?_⟩
    · rw [threadInfo_eq_threadList_iff]
      refine hlast.imp (fun hall i hi => (hstatus i).mpr (hall i hi)) fun hrun hterm => ?_
      exact Bool.false_ne_true (hrun.symm.trans ((hstatus _).mp hterm))
    · obtain ⟨hmem, hrun⟩ := List.mem_filter.mp hi
      rw [decide_eq_true_eq] at hrun
      have hlt := List.mem_range.mp hmem
      rw [listedId, resolvesTo_decimal_iff hlt]
      refine (hnames i hlt).1 ?_
      rw [← Bool.not_eq_true]
      exact fun hterm => hrun ((hstatus i).mpr hterm)
    · obtain ⟨text', htext', hthread⟩ := replyThread_vCont T hreported
      rw [htext] at htext'
      rw [← Except.ok.inj htext', hid] at hthread
      split_ifs at hthread with hnumber
      rw [Option.some.inj hthread, resolvesTo_decimal_iff hi]
      exact (hnames i hi).2 hnumber

/-- Ten harts whose ids are their positions: the tenth is printed as `10`, which is read as 16. -/
theorem not_threadIdsAgree : ¬ThreadIdsAgree 10 (fun i => BitVec.ofNat 64 i) fun _ => false := by
  intro h
  obtain ⟨-, hlisted, -⟩ := h Bool (statusTarget (fun i => BitVec.ofNat 64 i) fun _ => false)
    (statusServer 10) rfl rfl (getStatus_statusTarget _ _)
  have hresolved := hlisted 9 (by decide)
  rw [listedId, resolvesTo_decimal_iff (by decide)] at hresolved
  revert hresolved
  unfold Names sentBack readBack
  decide

end RiscvVp.Gdb
