import RiscvVp.Gdb.Server
import RiscvVp.Gdb.Equiv.Decode

/-!
# Which packets the server survives

A round of the server with one packet ends with an answer exactly where the packet is decoded without
a failed assertion and its command meets the needs of its handler (`HandlerSafe`).
-/

namespace RiscvVp.Gdb

/-! ### Texts that can be sent -/

/-- A text that `gdb_serialize` can make a packet of. -/
def Sendable (text : List (BitVec 8)) : Prop := text.length + 4 ≤ intMax ∧ CsumOk text

instance (text : List (BitVec 8)) : Decidable (Sendable text) := inferInstanceAs (Decidable (_ ∧ _))

theorem sendPacket_ok_iff {text : List (BitVec 8)} (h : ∀ c ∈ text, c ≠ 0) :
    (∃ out, sendPacket .packet (some text) = .ok out) ↔ Sendable text := by
  rw [sendPacket, gdbSerialize_eq (Or.inr rfl) rfl h]
  by_cases hs : text.length + 4 ≤ intMax ∧ CsumOk text
  · rw [if_pos hs]
    exact ⟨fun _ => hs, fun _ => ⟨_, rfl⟩⟩
  · rw [if_neg hs]
    exact ⟨fun ⟨_, h⟩ => (by cases h), fun h => absurd h hs⟩

/-- A character of a text of the server. -/
def Printable (c : BitVec 8) : Prop := c ≠ 0 ∧ c < 0x80

instance (c : BitVec 8) : Decidable (Printable c) := inferInstanceAs (Decidable (_ ∧ _))

theorem signedSum_bounds {text : List (BitVec 8)} (h : ∀ c ∈ text, Printable c) :
    0 ≤ signedSum text ∧ signedSum text ≤ 127 * text.length := by
  induction text with
  | nil => exact ⟨le_rfl, le_rfl⟩
  | cons c text ih =>
    rw [List.forall_mem_cons] at h
    have hc := (toInt_mem_iff c).mpr h.1.2
    obtain ⟨h0, h1⟩ := ih h.2
    have hsum : signedSum (c :: text) = c.toInt + signedSum text := by
      rw [signedSum, List.map_cons, List.sum_cons]
      rfl
    rw [hsum, List.length_cons]
    rw [charMax] at hc
    push_cast
    omega

/-- A short text of printable characters can be sent. -/
theorem sendable_of_short {text : List (BitVec 8)} (h : ∀ c ∈ text, Printable c)
    (hlen : text.length ≤ 1000) : Sendable text := by
  obtain ⟨h0, h1⟩ := signedSum_bounds h
  refine ⟨by rw [intMax]; omega, Or.inl ?_⟩
  rw [Int.bmod_eq_of_le (by omega) (by omega)]
  exact h0

theorem printable_hexDigit {d : ℕ} (hd : d < 16) : Printable (hexDigit d) := by
  revert d
  decide

theorem printable_formatHex (width v : ℕ) : ∀ c ∈ formatHex width v, Printable c := by
  intro c hc
  rw [formatHex, List.leftpad, List.mem_append] at hc
  rcases hc with hc | hc
  · rw [List.eq_of_mem_replicate hc]
    decide
  · obtain ⟨d, hd, rfl⟩ := List.mem_map.mp hc
    exact printable_hexDigit (Nat.digits_lt_base (by decide) (List.mem_reverse.mp hd))

theorem printable_decimal (n : ℕ) : ∀ c ∈ decimal n, Printable c := by
  intro c hc
  rw [decimal] at hc
  split_ifs at hc
  · rw [List.mem_singleton.mp hc]
    decide
  · obtain ⟨d, hd, rfl⟩ := List.mem_map.mp hc
    have := Nat.digits_lt_base (by decide) (List.mem_reverse.mp hd)
    exact printable_hexDigit (by omega)

theorem length_decimal_le {n : ℕ} (hn : n < 10 ^ 20) : (decimal n).length ≤ 20 := by
  rw [decimal]
  split_ifs
  · decide
  · rw [List.length_map, List.length_reverse]
    exact (Nat.digits_length_le_iff (by decide) n).mpr hn

section Server

variable {σ : Type} (T : Target σ)

theorem printable_formatRegister (v : BitVec 64) : ∀ c ∈ formatRegister T v, Printable c := by
  rw [formatRegister]
  split
  · exact printable_formatHex 8 _
  · exact printable_formatHex 16 _

theorem printable_hexDump (bytes : List (BitVec 8)) : ∀ c ∈ hexDump bytes, Printable c := by
  intro c hc
  obtain ⟨b, -, hb⟩ := List.mem_flatMap.mp hc
  exact printable_formatHex 2 _ c hb

theorem printable_threadInfo (s : Server σ) : ∀ c ∈ threadInfo T s, Printable c := by
  intro c hc
  rw [threadInfo, List.mem_append] at hc
  rcases hc with hc | hc
  · exact (by decide : ∀ c ∈ str "m", Printable c) c hc
  · obtain ⟨i, -, hi⟩ := List.mem_flatMap.mp hc
    split_ifs at hi
    · cases hi
    · rcases List.mem_append.mp hi with hi | hi
      · exact printable_decimal _ c hi
      · exact (by decide : ∀ c ∈ str ",", Printable c) c hi
    · rw [List.append_nil] at hi
      exact printable_decimal _ c hi

/-! ### What a handler needs -/

/-- On the harts one after the other, no access ends with anything but a result or, on the first hart
where it does not, a `std::runtime_error`. -/
def AccessSafe {α : Type} (fn : ℕ → σ → Except Fault α × σ) : List ℕ → σ → Prop
  | [], _ => True
  | h :: hs, t =>
    match fn h t with
    | (.ok _, t') => AccessSafe fn hs t'
    | (.error f, _) => f = .exn .runtimeError

/-- Reading memory: the length is an `unsigned`, the selected thread exists, the accesses are safe, and
what is read can be sent. -/
def ReadSafe (mem : GdbMemory) (s : Server σ) : Prop :=
  mem.length ≤ uintMax ∧ ∃ hs, s.selected = some hs ∧ AccessSafe (readOn T mem) hs s.target ∧
    ∀ texts, (execLoop (readOn T mem) hs s.target).1 = .ok texts → Sendable texts.flatten

/-- Writing memory is safe: the length is one that the code can handle, threads are selected, and each can
access the range. -/
def WriteSafe (loc : GdbMemory) (data : Option (List (BitVec 8))) (s : Server σ) : Prop :=
  loc.length ≤ uintMax ∧ ∃ hs, s.selected = some hs ∧ AccessSafe (writeOn T loc data) hs s.target

/-- The registers of the selected harts. -/
def registersText (hs : List ℕ) (t : σ) : List (BitVec 8) :=
  hs.flatMap fun h => (T.getRegisters h t).flatMap (formatRegister T)

/-- Actions: each one up to the first with a thread that does not exist is a step or a continue, and
without such a thread the harts that are run stop or the client interrupts. -/
def ActionsSafe (vs : List GdbVcont) (s : Server σ) : Prop :=
  (∀ pre v post, vs = pre ++ v :: post → (∀ u ∈ pre, getHarts s.harts u.thread.tid ≠ none) →
    v.action = chr 's' ∨ v.action = chr 'c') ∧
  ∀ hs single, vcontLoop s.harts vs [] s.singleRun = (.ok (some hs), single) → hs ≠ [] →
    T.runAllHarts hs single s.target ≠ none

/-- What each handler needs to end with an answer. -/
def HandlerSafe (junk : Junk) (cmd : GdbCommand) (s : Server σ) : Handler → Prop
  | .getRegisters => ∃ hs, s.selected = some hs ∧ Sendable (registersText T hs s.target)
  | .threadInfo => Sendable (threadInfo T s)
  | .readMemory =>
    match cmd.arg with
    | .memory mem => ReadSafe T mem s
    | _ => ReadSafe T junk.mem s
  | .writeMemory =>
    match cmd.arg with
    | .memoryw loc data => WriteSafe T loc (some data) s
    | _ => WriteSafe T junk.location none s
  | .readRegister =>
    ∀ hs texts, s.selected = some hs →
      (execLoop (registerOn T (match cmd.arg with | .int ival => ival | _ => junk.ival)) hs s.target).1 =
        .ok texts → Sendable texts.flatten
  | .vCont =>
    match cmd.arg with
    | .vcont vs => ActionsSafe T vs s
    | _ => False
  | _ => True

/-- A command without a handler needs nothing. -/
def CommandSafe (junk : Junk) (cmd : GdbCommand) (s : Server σ) : Prop :=
  ∀ handler, handlers.lookup cmd.name = some handler → HandlerSafe T junk cmd s handler

/-! ### Handlers -/

/-- A handler's result is an answer that can be sent, or the end of the program on request. -/
def Answers (r : Except Stop (List (BitVec 8)) × Server σ) : Prop :=
  (∃ text, r.1 = .ok text ∧ (∃ out, sendPacket .packet (some text) = .ok out)) ∨ r.1 = .error .exit

theorem answers_ok_iff {text : List (BitVec 8)} (h : ∀ c ∈ text, Printable c) (s : Server σ) :
    Answers (.ok text, s) ↔ Sendable text := by
  rw [← sendPacket_ok_iff fun c hc => (h c hc).1]
  constructor
  · rintro (⟨text', heq, hout⟩ | heq)
    · cases heq
      exact hout
    · cases heq
  · intro hout
    exact Or.inl ⟨text, rfl, hout⟩

theorem answers_of_fixed {text : List (BitVec 8)} (s : Server σ)
    (h : (∀ c ∈ text, Printable c) ∧ text.length ≤ 1000) : Answers (.ok text, s) :=
  (answers_ok_iff h.1 s).mpr (sendable_of_short h.1 h.2)

theorem not_answers_fault (f : Fault) (s : Server σ) : ¬ Answers (.error (.fault f), s) := by
  rintro (⟨_, h, -⟩ | h) <;> cases h

/-- A handler that catches one kind of exception. -/
theorem answers_catching_iff {e : Exn} {r : Except Fault (List (BitVec 8))} {s : Server σ}
    (hprint : ∀ text, r = .ok text → ∀ c ∈ text, Printable c) :
    Answers (catching e (r, s)) ↔
      (∀ text, r = .ok text → Sendable text) ∧ ∀ f, r = .error f → f = .exn e := by
  cases r with
  | ok text =>
    rw [catching, answers_ok_iff (hprint text rfl)]
    constructor
    · intro h
      exact ⟨fun text' heq => (by cases heq; exact h), fun f hf => (by cases hf)⟩
    · exact fun h => h.1 text rfl
  | error f =>
    rw [catching]
    by_cases hf : f = .exn e
    · rw [if_pos hf]
      refine ⟨fun _ => ⟨fun text ht => (by cases ht), fun f' hf' => (by cases hf'; exact hf)⟩, fun _ => ?_⟩
      exact answers_of_fixed s (by decide)
    · rw [if_neg hf]
      exact ⟨fun h => absurd h (not_answers_fault f s), fun h => absurd (h.2 f rfl) hf⟩

/-- The accesses are safe where the loop ends with results or with a `std::runtime_error`. -/
theorem accessSafe_iff {α : Type} (fn : ℕ → σ → Except Fault α × σ) (hs : List ℕ) (t : σ) :
    AccessSafe fn hs t ↔ ∀ f, (execLoop fn hs t).1 = .error f → f = .exn .runtimeError := by
  induction hs generalizing t with
  | nil => exact ⟨fun _ f hf => (by cases hf), fun _ => trivial⟩
  | cons h hs ih =>
    rw [AccessSafe, execLoop]
    rcases hfn : fn h t with ⟨f | a, t'⟩
    · dsimp only
      exact ⟨fun hf f' hf' => (by cases hf'; exact hf), fun h => h f rfl⟩
    · dsimp only
      rw [ih t']
      rcases execLoop fn hs t' with ⟨f | as, t''⟩
      · dsimp only
        exact ⟨fun h f' hf' => (by cases hf'; exact h f rfl),
          fun h f' hf' => (by cases hf'; exact h f rfl)⟩
      · dsimp only
        exact ⟨fun h f' hf' => (by cases hf'), fun h f' hf' => (by cases hf')⟩

/-- What holds of the result on each hart holds of all results of the loop. -/
theorem execLoop_forall {α : Type} {fn : ℕ → σ → Except Fault α × σ} {P : α → Prop}
    (hfn : ∀ h t a, (fn h t).1 = .ok a → P a) {hs : List ℕ} {t : σ} {as : List α}
    (hok : (execLoop fn hs t).1 = .ok as) : ∀ a ∈ as, P a := by
  induction hs generalizing t as with
  | nil =>
    cases hok
    exact fun a ha => absurd ha List.not_mem_nil
  | cons h hs ih =>
    rw [execLoop] at hok
    rcases hone : fn h t with ⟨f | a, t'⟩
    · rw [hone] at hok
      cases hok
    · rw [hone] at hok
      dsimp only at hok
      rcases hrest : execLoop fn hs t' with ⟨f | bs, t''⟩
      · rw [hrest] at hok
        cases hok
      · rw [hrest] at hok
        cases hok
        rw [List.forall_mem_cons]
        exact ⟨hfn h t a (by rw [hone]), ih (by rw [hrest])⟩

/-- A handler that runs its function on the selected harts and answers with a text of the results. -/
theorem answers_execThread_iff {α : Type} {e : Exn} {fn : ℕ → σ → Except Fault α × σ}
    {render : List α → List (BitVec 8)} (s : Server σ)
    (hprint : ∀ hs as, (execLoop fn hs s.target).1 = .ok as → ∀ c ∈ render as, Printable c) :
    Answers (catching e ((execThread s fn).1.map render, (execThread s fn).2)) ↔
      (s.selected = none → e = .outOfRange) ∧ ∀ hs, s.selected = some hs →
        (∀ as, (execLoop fn hs s.target).1 = .ok as → Sendable (render as)) ∧
          ∀ f, (execLoop fn hs s.target).1 = .error f → f = .exn e := by
  rw [execThread]
  cases hsel : s.selected with
  | none =>
    -- no thread is selected: `std::out_of_range`, which one of the handlers catches
    rw [answers_catching_iff fun text h => by cases h]
    constructor
    · intro h
      exact ⟨fun _ => (by cases h.2 _ rfl; rfl), fun hs h => (by cases h)⟩
    · rintro ⟨h, -⟩
      exact ⟨fun text h => (by cases h), fun f hf => (by cases hf; rw [h rfl])⟩
  | some hs =>
    dsimp only
    cases hrun : (execLoop fn hs s.target).1 with
    | error f =>
      rw [answers_catching_iff fun text h => by cases h]
      constructor
      · intro h
        refine ⟨fun h => (by cases h), fun hs' heq => ?_⟩
        cases heq
        rw [hrun]
        exact ⟨fun as h => (by cases h), fun f' hf' => (by cases hf'; exact h.2 f rfl)⟩
      · rintro ⟨-, h⟩
        exact ⟨fun text h => (by cases h), fun f' hf' => (by cases hf'; exact (h hs rfl).2 f hrun)⟩
    | ok as =>
      rw [answers_catching_iff fun text h => by cases h; exact hprint hs as hrun]
      constructor
      · intro h
        refine ⟨fun h => (by cases h), fun hs' heq => ?_⟩
        cases heq
        rw [hrun]
        exact ⟨fun as' h' => (by cases h'; exact h.1 _ rfl), fun f' hf' => (by cases hf')⟩
      · rintro ⟨-, h⟩
        exact ⟨fun text ht => (by cases ht; exact (h hs rfl).1 as hrun), fun f' hf' => (by cases hf')⟩

theorem printable_flatten {fn : ℕ → σ → Except Fault (List (BitVec 8)) × σ}
    (hfn : ∀ h t text, (fn h t).1 = .ok text → ∀ c ∈ text, Printable c) {hs : List ℕ} {t : σ}
    {texts : List (List (BitVec 8))} (hrun : (execLoop fn hs t).1 = .ok texts) :
    ∀ c ∈ texts.flatten, Printable c := by
  intro c hc
  obtain ⟨text, ht, hct⟩ := List.mem_flatten.mp hc
  exact execLoop_forall hfn hrun text ht c hct

theorem printable_readOn (mem : GdbMemory) (h : ℕ) (t : σ) (text : List (BitVec 8))
    (hok : (readOn T mem h t).1 = .ok text) : ∀ c ∈ text, Printable c := by
  rw [readOn] at hok
  rcases htr : translateAddr T h mem.addr .load t with ⟨f | addr, t'⟩
  · rw [htr] at hok
    cases hok
  · rw [htr] at hok
    dsimp only at hok
    rw [readMemoryDbg] at hok
    rcases hdo : doDbgTransaction T addr mem.length none t' with ⟨f | r, t''⟩
    · rw [hdo] at hok
      cases hok
    · rw [hdo] at hok
      cases hok
      exact printable_hexDump r.data

/-- A memory handler: the length, the thread and the accesses have to be right. -/
theorem answers_memory_iff {α : Type} {fn : ℕ → σ → Except Fault α × σ}
    {render : List α → List (BitVec 8)} (n : ℕ) (s : Server σ)
    (hprint : ∀ hs as, (execLoop fn hs s.target).1 = .ok as → ∀ c ∈ render as, Printable c) :
    Answers (if uintMax < n then (.error (.fault (.abort .xassert)), s)
        else catching .runtimeError ((execThread s fn).1.map render, (execThread s fn).2)) ↔
      n ≤ uintMax ∧ ∃ hs, s.selected = some hs ∧ AccessSafe fn hs s.target ∧
        ∀ as, (execLoop fn hs s.target).1 = .ok as → Sendable (render as) := by
  by_cases hlen : uintMax < n
  · rw [if_pos hlen]
    exact ⟨fun h => absurd h (not_answers_fault _ s), fun h => absurd h.1 (by omega)⟩
  · rw [if_neg hlen, answers_execThread_iff s hprint]
    constructor
    · rintro ⟨hnone, hsome⟩
      cases hsel : s.selected with
      | none => cases hnone hsel
      | some hs =>
        obtain ⟨hsend, hfault⟩ := hsome hs hsel
        exact ⟨by omega, hs, rfl, (accessSafe_iff _ hs s.target).mpr hfault, hsend⟩
    · rintro ⟨-, hs, hsel, hsafe, hsend⟩
      rw [hsel]
      refine ⟨fun h => (by cases h), fun hs' heq => ?_⟩
      cases heq
      exact ⟨hsend, (accessSafe_iff _ hs s.target).mp hsafe⟩

theorem answers_readMemory_iff (mem : GdbMemory) (s : Server σ) :
    Answers (readMemory T mem s) ↔ ReadSafe T mem s :=
  answers_memory_iff mem.length s fun _ _ => printable_flatten (printable_readOn T mem)

theorem answers_writeMemory_iff (loc : GdbMemory) (data : Option (List (BitVec 8))) (s : Server σ) :
    Answers (writeMemory T loc data s) ↔ WriteSafe T loc data s := by
  have hok : (∀ c ∈ str "OK", Printable c) ∧ (str "OK").length ≤ 1000 := by decide
  have hsend := sendable_of_short hok.1 hok.2
  rw [writeMemory, answers_memory_iff loc.length s fun _ _ _ => hok.1, WriteSafe]
  constructor
  · rintro ⟨hlen, hs, hsel, hsafe, -⟩
    exact ⟨hlen, hs, hsel, hsafe⟩
  · rintro ⟨hlen, hs, hsel, hsafe⟩
    exact ⟨hlen, hs, hsel, hsafe, fun _ _ => hsend⟩

theorem execLoop_ok {α : Type} (f : ℕ → σ → α) (hs : List ℕ) (t : σ) :
    execLoop (fun h t => (.ok (f h t), t)) hs t = (.ok (hs.map fun h => f h t), t) := by
  induction hs with
  | nil => rfl
  | cons h hs ih =>
    rw [execLoop]
    dsimp only
    rw [ih]
    rfl

theorem answers_getRegisters_iff (s : Server σ) :
    Answers (getRegisters T s) ↔
      ∃ hs, s.selected = some hs ∧ Sendable (registersText T hs s.target) := by
  rw [getRegisters, execThread]
  cases hsel : s.selected with
  | none => exact ⟨fun h => absurd h (not_answers_fault _ s), fun ⟨_, h, _⟩ => (by cases h)⟩
  | some hs =>
    dsimp only
    rw [execLoop_ok]
    dsimp only
    rw [← List.flatMap_def]
    have hprint : ∀ c ∈ registersText T hs s.target, Printable c := by
      intro c hc
      obtain ⟨h, -, hc⟩ := List.mem_flatMap.mp hc
      obtain ⟨v, -, hc⟩ := List.mem_flatMap.mp hc
      exact printable_formatRegister T v c hc
    refine (answers_ok_iff hprint _).trans ⟨fun h => ⟨hs, rfl, h⟩, ?_⟩
    rintro ⟨hs', heq, h⟩
    cases heq
    exact h

theorem printable_registerOn (reg : ℤ) (h : ℕ) (t : σ) (text : List (BitVec 8))
    (hok : (registerOn T reg h t).1 = .ok text) : ∀ c ∈ text, Printable c := by
  rw [registerOn] at hok
  split_ifs at hok
  · cases hok
    exact printable_formatRegister T _
  · split at hok
    · cases hok
    · cases hok
      exact printable_formatRegister T _

/-- The only exception on a hart is the one that `readRegister` catches. -/
theorem execLoop_registerOn_error {reg : ℤ} {hs : List ℕ} {t : σ} {f : Fault}
    (h : (execLoop (registerOn T reg) hs t).1 = .error f) : f = .exn .outOfRange := by
  induction hs generalizing t with
  | nil => cases h
  | cons hart hs ih =>
    rw [execLoop] at h
    rcases hone : registerOn T reg hart t with ⟨f' | a, t'⟩
    · rw [hone] at h
      cases h
      rw [registerOn] at hone
      split_ifs at hone
      · cases hone
      · split at hone
        · cases hone
          rfl
        · cases hone
    · rw [hone] at h
      dsimp only at h
      rcases hrest : execLoop (registerOn T reg) hs t' with ⟨f' | bs, t''⟩
      · rw [hrest] at h
        cases h
        exact ih (by rw [hrest])
      · rw [hrest] at h
        cases h

theorem answers_readRegister_iff (reg : ℤ) (s : Server σ) :
    Answers (readRegister T reg s) ↔ ∀ hs texts, s.selected = some hs →
      (execLoop (registerOn T reg) hs s.target).1 = .ok texts → Sendable texts.flatten := by
  have hprint : ∀ hs texts, (execLoop (registerOn T reg) hs s.target).1 = .ok texts →
      ∀ c ∈ texts.flatten, Printable c := fun _ _ => printable_flatten (printable_registerOn T reg)
  refine (answers_execThread_iff s hprint).trans ?_
  constructor
  · intro h hs texts hsel hok
    exact (h.2 hs hsel).1 texts hok
  · intro h
    exact ⟨fun _ => rfl, fun hs hsel => ⟨fun texts => h hs texts hsel,
      fun f hf => execLoop_registerOn_error T hf⟩⟩

/-- The loop over the actions throws at an action that is not implemented, unless a thread before it
does not exist. -/
theorem vcontLoop_error_iff (harts : ℕ) (vs : List GdbVcont) (hs : List ℕ) (single : ℕ → Bool) :
    (∃ e, (vcontLoop harts vs hs single).1 = .error e) ↔
      ¬ ∀ pre v post, vs = pre ++ v :: post → (∀ u ∈ pre, getHarts harts u.thread.tid ≠ none) →
        v.action = chr 's' ∨ v.action = chr 'c' := by
  induction vs generalizing hs single with
  | nil =>
    refine ⟨fun ⟨_, h⟩ => (by cases h), fun h => absurd ?_ h⟩
    intro pre v post heq
    simp at heq
  | cons v vs ih =>
    rw [vcontLoop]
    by_cases hact : v.action ≠ chr 's' ∧ v.action ≠ chr 'c'
    · rw [if_pos hact]
      -- the first action throws
      refine ⟨fun _ h => ?_, fun _ => ⟨_, rfl⟩⟩
      rcases h [] v vs rfl (fun u hu => absurd hu List.not_mem_nil) with h | h
      · exact hact.1 h
      · exact hact.2 h
    · rw [if_neg hact]
      have hgood : v.action = chr 's' ∨ v.action = chr 'c' := by tauto
      cases hget : getHarts harts v.thread.tid with
      | none =>
        -- no such thread: the loop ends, and no action behind this one is looked at
        refine ⟨fun ⟨_, h⟩ => (by cases h), fun h => absurd ?_ h⟩
        intro pre w post heq hpre
        cases pre with
        | nil =>
          obtain ⟨rfl, -⟩ := List.cons.inj heq
          exact hgood
        | cons p pre =>
          obtain ⟨rfl, -⟩ := List.cons.inj heq
          exact absurd hget (hpre v List.mem_cons_self)
      | some cur =>
        dsimp only
        -- the loop goes on with the next action
        rw [ih, not_iff_not]
        constructor
        · intro h pre w post heq hpre
          cases pre with
          | nil =>
            obtain ⟨rfl, -⟩ := List.cons.inj heq
            exact hgood
          | cons p pre =>
            obtain ⟨rfl, hvs⟩ := List.cons.inj heq
            exact h pre w post hvs fun u hu => hpre u (List.mem_cons_of_mem v hu)
        · rintro h pre w post rfl hpre
          refine h (v :: pre) w post rfl ?_
          rw [List.forall_mem_cons]
          exact ⟨by rw [hget]; exact Option.some_ne_none cur, hpre⟩

/-- The reason of a stop, and the thread, which is an `int`. -/
theorem vcontStopped_spec (hs : List ℕ) (r : Option (List (BitVec 8)) × ℤ × σ)
    (hreason : r.1 ∈ [none, some (str "05"), some (str "03")]) (hstopped : r.2.1 < 2 ^ 31) :
    (vcontStopped T hs r).1 ∈ [none, some (str "05"), some (str "03")] ∧
      (vcontStopped T hs r).2.1 < 2 ^ 31 := by
  induction hs generalizing r with
  | nil => exact ⟨hreason, hstopped⟩
  | cons h hs ih =>
    obtain ⟨reason, stopped, t⟩ := r
    have hthread : ((T.hartId h + 1).setWidth 32).toInt < 2 ^ 31 := BitVec.toInt_lt
    rw [vcontStopped]
    cases T.getStatus h t with
    | hitBreakpoint => exact ih _ (by simp) hthread
    | terminated => exact ih _ (by simp) hthread
    | runnable => exact ih _ hreason hstopped

/-- The answer of `vCont` can be sent. -/
theorem sendable_stopReply {reason : Option (List (BitVec 8))} {stopped : ℤ}
    (hreason : reason ∈ [none, some (str "05"), some (str "03")]) (hstopped : stopped < 2 ^ 31) :
    (∀ c ∈ str "T" ++ reason.getD (str "02") ++
        (if 1 ≤ stopped then str "thread:" ++ decimal stopped.toNat ++ str ";" else []), Printable c) ∧
      (str "T" ++ reason.getD (str "02") ++
        (if 1 ≤ stopped then str "thread:" ++ decimal stopped.toNat ++ str ";" else [])).length ≤ 1000 := by
  have hhead : ∀ r ∈ [none, some (str "05"), some (str "03")],
      (∀ c ∈ str "T" ++ Option.getD r (str "02"), Printable c) ∧
        (str "T" ++ Option.getD r (str "02")).length = 3 := by decide
  obtain ⟨hprint, hlen⟩ := hhead reason hreason
  have hdec := length_decimal_le (n := stopped.toNat) (by omega)
  have htail : (∀ c ∈ (if 1 ≤ stopped then str "thread:" ++ decimal stopped.toNat ++ str ";" else []),
      Printable c) ∧
      (if 1 ≤ stopped then str "thread:" ++ decimal stopped.toNat ++ str ";" else []).length ≤ 28 := by
    split_ifs
    · constructor
      · intro c hc
        rcases List.mem_append.mp hc with hc | hc
        · rcases List.mem_append.mp hc with hc | hc
          · exact (by decide : ∀ c ∈ str "thread:", Printable c) c hc
          · exact printable_decimal _ c hc
        · exact (by decide : ∀ c ∈ str ";", Printable c) c hc
      · rw [List.length_append, List.length_append, show (str "thread:").length = 7 from rfl,
          show (str ";").length = 1 from rfl]
        omega
    · exact ⟨fun c hc => absurd hc List.not_mem_nil, by decide⟩
  constructor
  · intro c hc
    rcases List.mem_append.mp hc with hc | hc
    · exact hprint c hc
    · exact htail.1 c hc
  · rw [List.length_append, hlen]
    have := htail.2
    omega

theorem answers_vCont_iff (vs : List GdbVcont) (s : Server σ) :
    Answers (vCont T (some vs) s) ↔ ActionsSafe T vs s := by
  have herr := vcontLoop_error_iff s.harts vs [] s.singleRun
  rw [vCont, ActionsSafe]
  dsimp only
  rcases hloop : vcontLoop s.harts vs [] s.singleRun with ⟨e | r, single⟩
  · rw [hloop] at herr
    refine ⟨fun h => absurd h (not_answers_fault _ _), fun h => absurd h.1 (herr.mp ⟨e, rfl⟩)⟩
  · rw [hloop] at herr
    have hacts := not_not.mp (mt herr.mpr fun ⟨_, h⟩ => (by cases h))
    cases r with
    | none =>
      refine ⟨fun _ => ⟨hacts, fun hs single' heq => (by cases heq)⟩, fun _ => ?_⟩
      exact answers_of_fixed _ (by decide)
    | some hs =>
      dsimp only
      cases hrun : (if hs = [] then some s.target else T.runAllHarts hs single s.target) with
      | none =>
        have hne : hs ≠ [] := by
          intro hnil
          rw [if_pos hnil] at hrun
          cases hrun
        rw [if_neg hne] at hrun
        refine ⟨?_, fun h => absurd hrun (h.2 hs single rfl hne)⟩
        rintro (⟨_, h, -⟩ | h) <;> cases h
      | some t =>
        obtain ⟨hreason, hstopped⟩ := vcontStopped_spec T hs (none, -1, t) (by simp) (by simp)
        refine ⟨fun _ => ⟨hacts, fun hs' single' heq hne => ?_⟩, fun _ => ?_⟩
        · cases heq
          rw [if_neg hne] at hrun
          rw [hrun]
          exact Option.some_ne_none t
        · exact answers_of_fixed _ (sendable_stopReply hreason hstopped)

/-- **Handlers.**  A handler ends with an answer exactly where it has what it needs. -/
theorem answers_run_iff (junk : Junk) (cmd : GdbCommand) (s : Server σ) (handler : Handler) :
    Answers (handler.run T junk cmd s) ↔ HandlerSafe T junk cmd s handler := by
  have hfixed : ∀ {text : List (BitVec 8)} {s' : Server σ},
      (∀ c ∈ text, Printable c) ∧ text.length ≤ 1000 → (Answers (.ok text, s') ↔ True) :=
    fun h => ⟨fun _ => trivial, fun _ => answers_of_fixed _ h⟩
  have hbp : ∀ (change : ℕ → BitVec 64 → σ → σ) (b : GdbBreakpoint) (s' : Server σ),
      Answers (.ok (changeBreakpoint change b s).1, s') ↔ True := by
    intro change b s'
    rw [changeBreakpoint]
    split_ifs
    · dsimp only
      exact hfixed (by decide)
    · dsimp only
      exact hfixed (by decide)
  have halive : ∀ id : GdbThread, Answers (.ok (isAlive id s), s) ↔ True := by
    intro id
    rw [isAlive]
    split
    · exact hfixed (by decide)
    · exact hfixed (by decide)
  -- each handler reads one member of the union, whatever the command's argument is
  obtain ⟨name, arg⟩ := cmd
  cases handler with
  | haltReason => exact hfixed (by decide)
  | getRegisters => exact answers_getRegisters_iff T s
  | setThread => cases arg <;> exact hfixed (by decide)
  | killServer => exact ⟨fun _ => trivial, fun _ => Or.inr rfl⟩
  | readMemory => cases arg <;> exact answers_readMemory_iff T _ s
  | writeMemory => cases arg <;> exact answers_writeMemory_iff T _ _ s
  | readRegister => cases arg <;> exact answers_readRegister_iff T _ s
  | qAttached => exact hfixed (by decide)
  | qSupported => exact hfixed (by decide)
  | threadInfo => exact answers_ok_iff (printable_threadInfo T s) s
  | threadInfoEnd => exact hfixed (by decide)
  | isAlive => cases arg <;> exact halive _
  | vCont =>
    cases arg with
    | vcont vs => exact answers_vCont_iff T vs s
    | _ => exact ⟨fun h => not_answers_fault _ _ h, False.elim⟩
  | vContSupported => exact hfixed (by decide)
  | removeBreakpoint => cases arg <;> exact hbp _ _ _
  | setBreakpoint => cases arg <;> exact hbp _ _ _

theorem answers_runCmd_iff (junk : Junk) (cmd : GdbCommand) (s : Server σ) :
    Answers (runCmd T junk cmd s) ↔ CommandSafe T junk cmd s := by
  rw [runCmd, CommandSafe]
  cases hlook : handlers.lookup cmd.name with
  | none =>
    exact ⟨fun _ handler h => (by cases h), fun _ => answers_of_fixed s (by decide)⟩
  | some handler =>
    rw [answers_run_iff]
    exact ⟨fun h handler' heq => (by cases heq; exact h), fun h => h handler rfl⟩

/-! ### The server -/

/-- A packet with this payload and the right checksum is answered, or ends the program on request. -/
def Survives (junk : Junk) (payload : List (BitVec 8)) (s : Server σ) : Prop :=
  let r := servePacket T junk ⟨.packet, some payload, rspCsum payload⟩ s
  (∃ sent, r.1 = .ok sent) ∨ r.1 = .error .exit

/-- A text that the server can handle: no signal in it has a number of digits other than two, and the
command it is meets the needs of its handler. -/
def TextSafe (junk : Junk) (text : List (BitVec 8)) (s : Server σ) : Prop :=
  ¬ BadSignal text ∧ (∀ cmd, Denotes cmd text → CommandSafe T junk cmd s) ∧
    ((∀ cmd, ¬ Denotes cmd text) → text ≠ [] → CommandSafe T junk (gdbfIgnarg text) s)

/-- What is sent for a command: the acknowledgement and the answer, unless the handler or the sending fails. -/
theorem answers_iff_of_runCmd {junk : Junk} {cmd : GdbCommand} {pkt : GdbPacket} {s : Server σ}
    (h : gdbParseCmd pkt = .ok (some cmd)) :
    ((∃ sent, (servePacket T junk pkt s).1 = .ok sent) ∨
      (servePacket T junk pkt s).1 = .error .exit) ↔ CommandSafe T junk cmd s := by
  rw [← answers_runCmd_iff, servePacket, h, Answers]
  dsimp only
  rcases runCmd T junk cmd s with ⟨e | text, s'⟩
  · dsimp only
    constructor
    · rintro (⟨_, h⟩ | h)
      · cases h
      · exact Or.inr (congrArg _ (Except.error.inj h))
    · rintro (⟨_, h, -⟩ | h)
      · cases h
      · exact Or.inr (congrArg _ (Except.error.inj h))
  · dsimp only
    cases hsend : sendPacket .packet (some text) with
    | error e =>
      have hserve : (do
          let ack ← sendPacket .ack none
          let packet ← (Except.error e : Except Stop (List (BitVec 8)))
          return [ack, packet]) = (.error e : Except Stop (List (List (BitVec 8)))) := rfl
      -- the answer cannot be sent: that is an abort and not the regular end
      have he : e ≠ .exit := by
        rintro rfl
        rw [sendPacket] at hsend
        split at hsend <;> cases hsend
      rw [hserve]
      constructor
      · rintro (⟨_, h⟩ | h)
        · cases h
        · exact absurd (Except.error.inj h) he
      · rintro (⟨text', h, out, hout⟩ | h)
        · cases h
          rw [hsend] at hout
          cases hout
        · cases h
    | ok out =>
      exact ⟨fun _ => Or.inl ⟨text, rfl, out, hsend⟩, fun _ => Or.inl ⟨_, rfl⟩⟩

/-- **The server survives** a packet exactly where the sum of the payload's characters has two digits, no
byte from 0x80 on stands before a malformed run, and the server can handle the decoded text up to its first zero
byte. -/
theorem survives_iff (junk : Junk) {payload : List (BitVec 8)} (hzero : ∀ c ∈ payload, c ≠ 0)
    (s : Server σ) :
    Survives T junk payload s ↔
      CsumOk payload ∧ RunlenSafe payload ∧
        ∀ text, decodeText payload = .ok (some text) → TextSafe T junk (cstr text) s := by
  -- what `gdb_parse_cmd` makes of the payload decides: it aborts, drops the packet or finds a command
  have hparse := gdbParseCmd_rspCsum hzero
  have habort : ∀ a, gdbParseCmd ⟨.packet, some payload, rspCsum payload⟩ = .error a →
      ¬ Survives T junk payload s := by
    intro a ha
    rw [Survives, servePacket, ha]
    rintro (⟨_, h⟩ | h) <;> cases h
  have hnull : gdbParseCmd ⟨.packet, some payload, rspCsum payload⟩ = .ok none →
      Survives T junk payload s := by
    intro hnone
    rw [Survives, servePacket, hnone]
    exact Or.inl ⟨_, rfl⟩
  by_cases hcsum : CsumOk payload
  · rw [if_pos hcsum] at hparse
    rw [← decodeText_ok_iff hzero]
    cases hdec : decodeText payload with
    | error e =>
      rw [hdec] at hparse
      exact ⟨fun h => absurd h (habort e hparse), fun ⟨_, ⟨_, h⟩, _⟩ => (by cases h)⟩
    | ok r =>
      rw [hdec] at hparse
      cases r with
      | none => exact ⟨fun _ => ⟨hcsum, ⟨_, rfl⟩, fun text h => (by cases h)⟩, fun _ => hnull hparse⟩
      | some text =>
        have htext : (∀ text', (Except.ok (some text) : Except Abort (Option (List (BitVec 8)))) =
            .ok (some text') → TextSafe T junk (cstr text') s) ↔ TextSafe T junk (cstr text) s :=
          ⟨fun h => h text rfl, fun h text' heq => (by cases heq; exact h)⟩
        rw [htext]
        -- the checksum and the run-length code are right, so only the text is left
        suffices hsuff : Survives T junk payload s ↔ TextSafe T junk (cstr text) s from
          hsuff.trans ⟨fun h => ⟨hcsum, ⟨_, rfl⟩, h⟩, fun h => h.2.2⟩
        dsimp only at hparse
        -- a command, a malformed signal or text that no command begins with
        rcases parseText_eq (cstr text) with ⟨cmd, hden, hcmd⟩ | ⟨hbad, e, he⟩ | ⟨hden, hbad, hany⟩
        · rw [hcmd] at hparse
          refine (answers_iff_of_runCmd T hparse).trans ⟨fun h => ?_, fun h => h.2.1 cmd hden⟩
          refine ⟨hden.not_badSignal, fun cmd' hden' => ?_, fun h => absurd hden (h cmd)⟩
          rw [hden'.unique hden]
          exact h
        · rw [he] at hparse
          exact ⟨fun h => absurd h (habort e hparse), fun h => absurd hbad h.1⟩
        · rw [hany] at hparse
          by_cases hnil : cstr text = []
          · rw [if_pos hnil] at hparse
            exact ⟨fun _ => ⟨hbad, fun cmd h => absurd h (hden cmd), fun _ h => absurd hnil h⟩,
              fun _ => hnull hparse⟩
          · rw [if_neg hnil] at hparse
            refine (answers_iff_of_runCmd T hparse).trans ⟨fun h => ?_, fun h => h.2.2 hden hnil⟩
            exact ⟨hbad, fun cmd hc => absurd hc (hden cmd), fun _ _ => h⟩
  · rw [if_neg hcsum] at hparse
    exact ⟨fun h => absurd h (habort _ hparse), fun h => absurd h.1 hcsum⟩

end Server

/-! ### One hart and a small memory -/

/-- A hart without an MMU and sixteen bytes of `SimpleMemory` at address zero; beyond its end the memory
fails an assertion, and there is nothing else on the bus. -/
def Target.small : Target Unit where
  arch := .rv32
  v2p _ := none
  transportDbg addr n _ t :=
    if addr.toNat < 16 then
      if addr.toNat + n ≤ 16 then (.ok ⟨n, false, List.replicate n 0⟩, t)
      else (.error (.abort .xassert), t)
    else (.ok ⟨0, true, []⟩, t)
  hartId _ := 0
  getStatus _ _ := .runnable
  setStatus _ _ t := t
  programCounter _ _ := 0
  getRegisters _ _ := List.replicate 32 0
  readRegister _ idx _ := if idx.toNat ≤ 31 then some 0 else none
  insertBreakpoint _ _ t := t
  removeBreakpoint _ _ t := t
  runAllHarts _ _ t := some t

/-- A server before the first packet. -/
def Server.small : Server Unit := ⟨1, fun _ => none, fun _ => false, ()⟩

/-- A union of zeros. -/
def Junk.zeros : Junk := ⟨0, ⟨0, 0⟩, 0, ⟨0, 0⟩, ⟨0, 0⟩, ⟨0, 0, 0⟩, ⟨0, 0⟩⟩

/-- Four bytes of memory are read. -/
theorem survives_iff_read :
    (servePacket Target.small Junk.zeros ⟨.packet, some (str "m0,4"), rspCsum (str "m0,4")⟩
        Server.small).1 = .ok [str "+", str "$00000000#80"] ∧
      ∀ text, decodeText (str "m0,4") = .ok (some text) →
        TextSafe Target.small Junk.zeros (cstr text) Server.small :=
  have hserve : (servePacket Target.small Junk.zeros
      ⟨.packet, some (str "m0,4"), rspCsum (str "m0,4")⟩ Server.small).1 =
        .ok [str "+", str "$00000000#80"] := by decide +kernel
  ⟨hserve, ((survives_iff Target.small Junk.zeros (by decide) Server.small).mp
    (Or.inl ⟨_, hserve⟩)).2.2⟩

/-- A signal with one digit, an action that is not implemented, data that does not fit its length, a read
beyond the end of memory, a byte from 0x80 on, and the same read with an escaped blank after it: the parser does
not see the zero byte that the blank becomes. -/
theorem not_survives :
    ¬ Survives Target.small Junk.zeros (str "vCont;C5") Server.small ∧
      ¬ Survives Target.small Junk.zeros (str "vCont;t") Server.small ∧
      ¬ Survives Target.small Junk.zeros (str "M0,2:00") Server.small ∧
      ¬ Survives Target.small Junk.zeros (str "m8,10") Server.small ∧
      ¬ Survives Target.small Junk.zeros [0x41, 0x80] Server.small ∧
      ¬ Survives Target.small Junk.zeros (str "m8,10" ++ [escapeChar, chr ' ']) Server.small := by
  have hfault : ∀ (payload : List (BitVec 8)) (f : Fault), (servePacket Target.small Junk.zeros
      ⟨.packet, some payload, rspCsum payload⟩ Server.small).1 = .error (.fault f) →
        ¬ Survives Target.small Junk.zeros payload Server.small := by
    rintro payload f hf (⟨_, h⟩ | h)
    · rw [hf] at h
      cases h
    · rw [hf] at h
      cases h
  refine ⟨hfault _ (.abort .xassert) ?_, hfault _ (.exn .invalidArgument) ?_,
    hfault _ (.abort .xassert) ?_, hfault _ (.abort .xassert) ?_, hfault _ (.abort .xassert) ?_,
    hfault _ (.abort .xassert) ?_⟩
  all_goals decide +kernel

end RiscvVp.Gdb
