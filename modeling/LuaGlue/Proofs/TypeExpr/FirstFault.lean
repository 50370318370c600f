import LuaGlue.Proofs.TypeExpr.RoundTrip

/-!
# Where reading a type fails

Reading fails at the first token that no type goes on with, and at the end of the text only if more text
could make it a type.

- **Completions** (`State.completion`): every state of the reader has one. A name or a parameter makes the
  current place a type, then what is open is closed from the inside out. So the lexemes that the reader has
  taken are the start of a type (`viable_iff_steps`).
- **Failures** (`State.run_eq_error_iff`): a run fails in a step, at the token of that step, or at the end.
- **The first fault** (`parse_error_first`): the two together, on texts. A character that starts no token
  is reported before anything else.
-/

namespace LuaGlue

namespace TypeExpr

/-- The lexemes of a text that spells a type: the words among them are names. -/
def Accepted (ls : List Lexeme) : Prop :=
  (∀ w, .word w ∈ ls → isName w) ∧ ∃ t, Derives ls (.type t)

/-- Some type starts with the lexemes. -/
def Viable (ls : List Lexeme) : Prop := ∃ rest, Accepted (ls ++ rest)

namespace State

/-! ## Completions -/

/-- What makes the part at the current place a type. -/
def filler : Mode → List Lexeme
  | .start | .lead | .scope .. => [.word "a"]
  | .name .. | .base _ | .reference _ | .qualifiers .. => []
  | .opened => [.punct .rparen]
  | .between _ => [.word "a", .punct .colon, .word "a", .punct .rparen]
  | .paramName .. => [.punct .colon, .word "a", .punct .rparen]

/-- What closes the open constructs. A function type ends with its result. -/
def closers : List Frame → List Lexeme
  | [] => []
  | .argument .. :: rest => .punct .rangle :: closers rest
  | .param .. :: rest => .punct .rparen :: closers rest
  | .result .. :: rest => closers rest

/-- What makes all that has been read a type. -/
def completion (s : State) : List Lexeme := filler s.mode ++ closers s.stack

theorem holds_named (stack : List Frame) (lead : Bool) (n : String) :
    Holds ⟨stack, .name lead n⟩ stack (underLead lead (.named n)) :=
  (holdsBase_name stack lead n).holds

theorem steps_filler (s : State) :
    ∃ s' t, s.steps (filler s.mode) = .ok s' ∧ Holds s' s.stack t := by
  obtain ⟨stack, mode⟩ := s
  cases mode with
  | start => exact ⟨_, _, rfl, holds_named stack false "a"⟩
  | lead => exact ⟨_, _, rfl, holds_named stack true "a"⟩
  | name lead n => exact ⟨_, _, rfl, holds_named stack lead n⟩
  | scope lead n => exact ⟨_, _, rfl, holds_named stack lead (n ++ "::" ++ "a")⟩
  | base t => exact ⟨_, _, rfl, (holdsBase_base stack t).holds⟩
  | reference t => exact ⟨_, _, rfl, holds_reference stack t⟩
  | opened => exact ⟨_, _, rfl, holds_qualifiers stack [] {}⟩
  | between done => exact ⟨_, _, rfl, holds_qualifiers stack (done ++ [("a", .named "a")]) {}⟩
  | paramName done x => exact ⟨_, _, rfl, holds_qualifiers stack (done ++ [(x, .named "a")]) {}⟩
  | qualifiers params quals => exact ⟨_, _, rfl, holds_qualifiers stack params quals⟩

theorem steps_closers {s : State} {stack : List Frame} {t : TypeExpr} (h : Holds s stack t) :
    ∃ s' u, s.steps (closers stack) = .ok s' ∧ s'.finish = .ok u := by
  -- the type that is complete grows as the constructs around it are closed
  induction stack generalizing s t with
  | nil => exact ⟨s, t, rfl, h.finish⟩
  | cons f stack ih =>
    cases f with
    | argument lead n done =>
      obtain ⟨s', u, hs', hu⟩ :=
        ih (holdsBase_base stack (underLead lead (.template n (done ++ [t])))).holds
      refine ⟨s', u, ?_, hu⟩
      rw [closers, steps_cons, h.close _ (.inr (.inl rfl))]
      exact hs'
    | param done x =>
      obtain ⟨s', u, hs', hu⟩ := ih (holds_qualifiers stack (done ++ [(x, t)]) {})
      refine ⟨s', u, ?_, hu⟩
      rw [closers, steps_cons, h.close _ (.inr (.inr rfl))]
      exact hs'
    | result params quals => exact ih h.result

/-- **Completions.** What has been read up to any state goes on to a type. -/
theorem steps_completion (s : State) :
    ∃ s' t, s.steps s.completion = .ok s' ∧ s'.finish = .ok t := by
  obtain ⟨s₁, t, h₁, ht⟩ := s.steps_filler
  obtain ⟨s₂, u, h₂, hu⟩ := steps_closers ht
  exact ⟨s₂, u, by rw [completion, steps_append_of h₁, h₂], hu⟩

theorem isName_of_mem_completion {s : State} {w : String} (h : .word w ∈ s.completion) :
    isName w := by
  have hclosers : ∀ stack : List Frame, .word w ∉ closers stack := by
    intro stack
    induction stack with
    | nil => simp [closers]
    | cons f stack ih => cases f <;> simp [closers, ih]
  have hfiller : .word w ∈ filler s.mode := by
    rcases List.mem_append.mp h with h | h
    · exact h
    · exact absurd h (hclosers s.stack)
  have hw : w = "a" := by cases hmode : s.mode <;> simp_all [filler]
  rw [hw]
  decide

/-! ## Failures -/

theorem run_eq_error_iff {s : State} {toks : List Token} {cause : SyntaxCause}
    {span : Option (Nat × Nat)} :
    s.run toks = .error (cause, span) ↔
      (∃ s', s.steps (toks.map (·.lexeme)) = .ok s' ∧ s'.finish = .error cause ∧ span = none) ∨
      ∃ before tok after s', toks = before ++ tok :: after ∧
        s.steps (before.map (·.lexeme)) = .ok s' ∧ s'.step tok.lexeme = .error cause ∧
        span = some (tok.start, tok.stop) := by
  induction toks generalizing s with
  | nil =>
    rw [run]
    cases hfinish : s.finish <;> simp [Except.mapError, hfinish, eq_comm (b := span)]
  | cons tok toks ih =>
    rw [run, List.map_cons, steps_cons]
    cases hstep : s.step tok.lexeme with
    | ok s₁ =>
      simp only [ih, Except.ok_bind]
      refine or_congr_right ⟨?_, ?_⟩
      · rintro ⟨before, tok', after, s', rfl, hs, hfail⟩
        refine ⟨tok :: before, tok', after, s', rfl, ?_, hfail⟩
        rw [List.map_cons, steps_cons, hstep, Except.ok_bind, hs]
      · rintro ⟨before, tok', after, s', hsplit, hs, hfail⟩
        rcases List.cons_eq_append_iff.mp hsplit with ⟨rfl, h⟩ | ⟨before', rfl, h⟩
        · -- the step that succeeds is not the one that fails
          cases h
          cases hs
          rw [hstep] at hfail
          cases hfail.1
        · rw [List.map_cons, steps_cons, hstep, Except.ok_bind] at hs
          exact ⟨before', tok', after, s', h, hs, hfail⟩
    | error cause' =>
      simp only [Except.error_bind, reduceCtorEq, false_and, exists_false, false_or]
      constructor
      · intro h
        cases h
        exact ⟨[], tok, toks, s, rfl, rfl, hstep, rfl⟩
      · rintro ⟨before, tok', after, s', hsplit, hs, hfail, rfl⟩
        rcases List.cons_eq_append_iff.mp hsplit with ⟨rfl, h⟩ | ⟨before', rfl, -⟩
        · cases h
          cases hs
          rw [hstep] at hfail
          cases hfail
          rfl
        · rw [List.map_cons, steps_cons, hstep] at hs
          cases hs

/-! The reader itself never reports a character that starts no token. -/

theorem close_ne_stray (t : TypeExpr) (lex : Lexeme) (stack : List Frame) (c : Char) :
    close t lex stack ≠ .error (.stray c) := by
  induction stack generalizing t with
  | nil => simp [close]
  | cons f stack ih =>
    cases f with
    | argument => simp only [close]; split <;> simp
    | param => simp only [close]; split <;> simp
    | result params quals => exact ih _

theorem closeAll_ne_stray (t : TypeExpr) (stack : List Frame) (c : Char) :
    closeAll t stack ≠ .error (.stray c) := by
  induction stack generalizing t with
  | nil => simp [closeAll]
  | cons f stack ih =>
    cases f with
    | argument => simp [closeAll]
    | param => simp [closeAll]
    | result params quals => exact ih _

theorem stepBase_ne_stray (stack : List Frame) (t : TypeExpr) (lex : Lexeme) (c : Char) :
    stepBase stack t lex ≠ .error (.stray c) := by
  unfold stepBase
  split
  case h_5 => exact close_ne_stray _ _ _ c
  all_goals simp

theorem stepQualifier_ne_stray (stack : List Frame) (params : List (String × TypeExpr))
    (quals : Qualifiers) (lex : Lexeme) (q : Qualifier) (c : Char) :
    stepQualifier stack params quals lex q ≠ .error (.stray c) := by
  unfold stepQualifier
  split <;> simp

theorem step_ne_stray (s : State) (lex : Lexeme) (c : Char) : s.step lex ≠ .error (.stray c) := by
  obtain ⟨stack, mode⟩ := s
  cases mode with
  | base t => exact stepBase_ne_stray _ _ _ c
  | name lead n =>
    simp only [step]
    split
    case h_3 => exact stepBase_ne_stray _ _ _ c
    all_goals simp
  | reference t =>
    simp only [step]
    split
    case h_5 => exact close_ne_stray _ _ _ c
    all_goals simp
  | qualifiers params quals =>
    simp only [step]
    split
    case h_4 | h_5 => simp
    case h_6 => exact close_ne_stray _ _ _ c
    all_goals exact stepQualifier_ne_stray _ _ _ _ _ c
  | start | lead | scope | opened | between | paramName => simp only [step]; split <;> simp

theorem finish_ne_stray (s : State) (c : Char) : s.finish ≠ .error (.stray c) := by
  obtain ⟨stack, mode⟩ := s
  cases mode with
  | name | base | reference | qualifiers => exact closeAll_ne_stray _ _ c
  | start | lead | scope | opened | between | paramName => simp [finish]

theorem run_ne_stray (s : State) (toks : List Token) (c : Char) (span : Option (Nat × Nat)) :
    s.run toks ≠ .error (.stray c, span) := by
  rw [Ne, run_eq_error_iff]
  rintro (⟨s', -, hfinish, -⟩ | ⟨before, tok, after, s', -, -, hstep, -⟩)
  · exact finish_ne_stray s' c hfinish
  · exact step_ne_stray s' tok.lexeme c hstep

end State

/-! ## Viable prefixes -/

/-- The reader takes exactly the lexemes that some type starts with. -/
theorem viable_iff_steps {ls : List Lexeme} (hw : ∀ w, .word w ∈ ls → isName w) :
    Viable ls ↔ ∃ s, State.init.steps ls = .ok s := by
  constructor
  · rintro ⟨rest, -, t, ht⟩
    obtain ⟨s, hs, -⟩ := State.steps_of_derives ht
    rw [State.steps_append] at hs
    obtain ⟨s', hs', -⟩ := Except.bind_eq_ok.mp hs
    exact ⟨s', hs'⟩
  · rintro ⟨s, hs⟩
    obtain ⟨s', t, hs', ht⟩ := s.steps_completion
    refine ⟨s.completion, fun w hmem => ?_, t, State.derives_of_steps (s := s') ?_ ht⟩
    · rcases List.mem_append.mp hmem with hmem | hmem
      · exact hw w hmem
      · exact State.isName_of_mem_completion hmem
    · rw [State.steps_append_of hs, hs']

theorem accepted_iff_steps {ls : List Lexeme} (hw : ∀ w, .word w ∈ ls → isName w) :
    Accepted ls ↔ ∃ s t, State.init.steps ls = .ok s ∧ s.finish = .ok t := by
  constructor
  · rintro ⟨-, t, ht⟩
    obtain ⟨s, hs, hfinish⟩ := State.steps_of_derives ht
    exact ⟨s, t, hs, hfinish⟩
  · rintro ⟨s, t, hs, hfinish⟩
    exact ⟨hw, t, State.derives_of_steps hs hfinish⟩

/-- A run fails in a step exactly at the first token with which the text stops being the start of a
type. -/
theorem viable_of_step_error {before : List Token} {tok : Token} {s : State} {cause : SyntaxCause}
    (hw : ∀ w, .word w ∈ (before ++ [tok]).map (·.lexeme) → isName w)
    (hs : State.init.steps (before.map (·.lexeme)) = .ok s)
    (hstep : s.step tok.lexeme = .error cause) :
    Viable (before.map (·.lexeme)) ∧ ¬Viable ((before ++ [tok]).map (·.lexeme)) := by
  refine ⟨(viable_iff_steps fun w hmem => hw w ?_).mpr ⟨s, hs⟩, ?_⟩
  · rw [List.map_append]
    exact List.mem_append_left _ hmem
  · rw [viable_iff_steps hw, List.map_append]
    rintro ⟨s', hs'⟩
    rw [List.map_singleton, State.steps_snoc hs, hstep] at hs'
    cases hs'

/-- A run fails at the end exactly when more lexemes would make a type. -/
theorem accepted_of_finish_error {ls : List Lexeme} {s : State} {cause : SyntaxCause}
    (hw : ∀ w, .word w ∈ ls → isName w) (hs : State.init.steps ls = .ok s)
    (hfinish : s.finish = .error cause) :
    (∃ rest, rest ≠ [] ∧ Accepted (ls ++ rest)) ∧ ¬Accepted ls := by
  have hnot : ¬Accepted ls := by
    rw [accepted_iff_steps hw]
    rintro ⟨s', t, hs', ht⟩
    rw [hs] at hs'
    cases hs'
    rw [hfinish] at ht
    cases ht
  obtain ⟨rest, hrest⟩ := (viable_iff_steps hw).mpr ⟨s, hs⟩
  refine ⟨⟨rest, ?_, hrest⟩, hnot⟩
  rintro rfl
  rw [List.append_nil] at hrest
  exact hnot hrest

/-! ## The first fault -/

theorem parse_eq_error_iff {text : String} {toks : List Token} {e : SyntaxError}
    (htoks : tokenize text = .ok toks) :
    parse text = .error e ↔ State.init.run toks = .error (e.cause, e.span) ∧ e.text = text := by
  obtain ⟨cause, text', span⟩ := e
  rw [parse, htoks, Except.ok_bind]
  cases State.init.run toks with
  | ok t => simp [Except.mapError]
  | error err =>
    obtain ⟨cause', span'⟩ := err
    simp only [Except.mapError, Except.error.injEq, SyntaxError.mk.injEq, Prod.mk.injEq]
    constructor
    · rintro ⟨rfl, rfl, rfl⟩; exact ⟨⟨rfl, rfl⟩, rfl⟩
    · rintro ⟨⟨rfl, rfl⟩, rfl⟩; exact ⟨rfl, rfl, rfl⟩

theorem isStray_of_tokenize {text : String} {e : SyntaxError} (h : tokenize text = .error e) :
    e.isStray := by
  unfold tokenize at h
  cases hscan : Token.scan 0 text.toList with
  | ok toks => rw [hscan] at h; cases h
  | error s => rw [hscan] at h; cases h; rfl

/-- A text that does not split into tokens is reported as such, and no other text is. -/
theorem tokenize_eq_error_iff {text : String} {e : SyntaxError} :
    tokenize text = .error e ↔ parse text = .error e ∧ e.isStray := by
  constructor
  · intro h
    exact ⟨by rw [parse, h, Except.error_bind], isStray_of_tokenize h⟩
  · rintro ⟨hparse, hstray⟩
    cases htoks : tokenize text with
    | error e' =>
      rw [parse, htoks, Except.error_bind] at hparse
      cases hparse
      rfl
    | ok toks =>
      obtain ⟨hrun, -⟩ := (parse_eq_error_iff htoks).mp hparse
      obtain ⟨cause, text', span⟩ := e
      cases cause with
      | stray c => exact absurd hrun (State.run_ne_stray _ _ c _)
      | _ => cases hstray

/-- **The first fault.** A text that splits into tokens but spells no type is reported at the first token
with which it stops being the start of a type. It is reported at its end exactly when it is the start of a
type without being one. A text that does not split into tokens is reported for that. -/
theorem parse_error_first (text : String) :
    (∀ e, tokenize text = .error e ↔ parse text = .error e ∧ e.isStray) ∧
    ∀ toks e, tokenize text = .ok toks → parse text = .error e →
      (∀ span, e.span = some span → ∃ before tok after, toks = before ++ tok :: after ∧
        span = (tok.start, tok.stop) ∧ Viable (before.map (·.lexeme)) ∧
        ¬Viable ((before ++ [tok]).map (·.lexeme))) ∧
      (e.span = none ↔ (∃ rest, rest ≠ [] ∧ Accepted (toks.map (·.lexeme) ++ rest)) ∧
        ¬Accepted (toks.map (·.lexeme))) := by
  refine ⟨fun e => tokenize_eq_error_iff, fun toks e htoks hparse => ?_⟩
  have hw := isName_of_scan (Except.mapError_eq_ok.mp htoks)
  obtain ⟨hrun, -⟩ := (parse_eq_error_iff htoks).mp hparse
  rcases State.run_eq_error_iff.mp hrun with
    ⟨s, hs, hfinish, hspan⟩ | ⟨before, tok, after, s, rfl, hs, hstep, hspan⟩
  · rw [hspan]
    exact ⟨nofun, iff_of_true rfl (accepted_of_finish_error hw hs hfinish)⟩
  · have hw' : ∀ w, .word w ∈ (before ++ [tok]).map (·.lexeme) → isName w := by
      intro w hmem
      refine hw w ?_
      rw [List.append_cons, List.map_append]
      exact List.mem_append_left _ hmem
    obtain ⟨hviable, hnot⟩ := viable_of_step_error hw' hs hstep
    rw [hspan]
    refine ⟨fun span h => ?_, iff_of_false nofun ?_⟩
    · cases h
      exact ⟨before, tok, after, rfl, rfl, hviable, hnot⟩
    · -- a type that starts with all tokens starts with those up to the fault
      rintro ⟨⟨rest, -, hrest⟩, -⟩
      rw [List.append_cons, List.map_append, List.append_assoc] at hrest
      exact hnot ⟨_, hrest⟩

/-- A modifier after a reference inside two open constructs, a text that ends inside them, and a character
that starts no token. -/
theorem parse_error_first_nested :
    (∃ before tok after, [(⟨.word "f", 0, 1⟩ : Token), ⟨.punct .langle, 1, 2⟩, ⟨.punct .lparen, 2, 3⟩,
        ⟨.word "x", 3, 4⟩, ⟨.punct .colon, 4, 5⟩, ⟨.word "a", 6, 7⟩, ⟨.punct .amp, 7, 8⟩,
        ⟨.const, 9, 14⟩, ⟨.punct .rparen, 14, 15⟩] = before ++ tok :: after ∧
      (9, 14) = (tok.start, tok.stop) ∧ Viable (before.map (·.lexeme)) ∧
      ¬Viable ((before ++ [tok]).map (·.lexeme))) ∧
    ((∃ rest, rest ≠ [] ∧
        Accepted ([.word "f", .punct .langle, .punct .lparen, .word "x"] ++ rest)) ∧
      ¬Accepted [.word "f", .punct .langle, .punct .lparen, .word "x"]) ∧
    parse "f<(x: %" = .error ⟨.stray '%', "f<(x: %", some (6, 7)⟩ := by
  have hnested : tokenize "f<(x: a& const)" = .ok [⟨.word "f", 0, 1⟩, ⟨.punct .langle, 1, 2⟩,
      ⟨.punct .lparen, 2, 3⟩, ⟨.word "x", 3, 4⟩, ⟨.punct .colon, 4, 5⟩, ⟨.word "a", 6, 7⟩,
      ⟨.punct .amp, 7, 8⟩, ⟨.const, 9, 14⟩, ⟨.punct .rparen, 14, 15⟩] := by
    decide +kernel
  have hopen : tokenize "f<(x" = .ok [⟨.word "f", 0, 1⟩, ⟨.punct .langle, 1, 2⟩,
      ⟨.punct .lparen, 2, 3⟩, ⟨.word "x", 3, 4⟩] := by
    decide +kernel
  have hstray : tokenize "f<(x: %" = .error ⟨.stray '%', "f<(x: %", some (6, 7)⟩ := by
    decide +kernel
  have hnested' : parse "f<(x: a& const)" =
      .error ⟨.afterReference .const, "f<(x: a& const)", some (9, 14)⟩ :=
    (parse_eq_error_iff hnested).mpr ⟨rfl, rfl⟩
  have hopen' : parse "f<(x" = .error ⟨.expected (.punct .colon) none, "f<(x", none⟩ :=
    (parse_eq_error_iff hopen).mpr ⟨rfl, rfl⟩
  exact ⟨((parse_error_first _).2 _ _ hnested hnested').1 _ rfl,
    ((parse_error_first _).2 _ _ hopen hopen').2.mp rfl, ((parse_error_first _).1 _).mp hstray |>.1⟩

end TypeExpr

end LuaGlue
