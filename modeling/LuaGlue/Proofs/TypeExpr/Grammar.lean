import LuaGlue.Proofs.Except
import LuaGlue.TypeExpr.Parser

/-!
# The grammar of type expressions

`Derives ls p`: the grammar spells the phrase `p` by the lexemes `ls`. A phrase is a nonterminal with
its value, so one relation covers all of them.

The reader is compared with the grammar through what its states have read.

- **Soundness** (`derives_of_steps`): a state spells the lexemes that lead to it (`State.Spells`): each
  open construct and the current place account for a stretch of them. One step keeps this
  (`Spells.step`), so a run keeps it, and at the end the whole list is a type.
- **Completeness** (`steps_of_derives`): reading a phrase inside any open constructs ends in a state
  that takes a closing lexeme, or the end of the text, as the complete phrase would (`State.Holds`).
  No lexeme of a derivation is taken by a construct that does not own it.
- **The reader and the grammar** (`parse_iff_derives`): the two together, on texts.
-/

namespace LuaGlue

/-- The lexeme of a qualifier. -/
def Qualifier.lexeme : Qualifier → Lexeme
  | .const => .const
  | .noexcept => .noexcept
  | .offThread => .word "off_thread"

/-- The qualifiers that a list names. -/
def Qualifiers.ofList (qs : List Qualifier) : Qualifiers :=
  ⟨qs.contains .const, qs.contains .noexcept, qs.contains .offThread⟩

namespace TypeExpr

/-- A nonterminal of the grammar, with the value of what it spells. -/
inductive Phrase where
  | type (t : TypeExpr)
  /-- Anything but a function type. -/
  | reference (t : TypeExpr)
  /-- A type with no reference around it. -/
  | base (t : TypeExpr)
  /-- A name or an instance of a template. -/
  | core (t : TypeExpr)
  /-- Names joined by `::`. -/
  | scopedName (name : String)
  /-- One or more template arguments. -/
  | arguments (args : List TypeExpr)
  | function (sig : Signature TypeExpr)
  /-- The parenthesized parameters of a function type. -/
  | header (params : List (String × TypeExpr))
  /-- One or more parameters. -/
  | params (params : List (String × TypeExpr))
  | param (name : String) (t : TypeExpr)

/-- The grammar spells a phrase by a list of lexemes. -/
inductive Derives : List Lexeme → Phrase → Prop
  | ofFunction {ls sig} : Derives ls (.function sig) → Derives ls (.type (.func sig))
  | ofReference {ls t} : Derives ls (.reference t) → Derives ls (.type t)
  | ofBase {ls t} : Derives ls (.base t) → Derives ls (.reference t)
  | ref {ls t} : Derives ls (.base t) → Derives (ls ++ [.punct .amp]) (.reference (.modified .ref t))
  | rref {ls t} :
      Derives ls (.base t) → Derives (ls ++ [.punct .ampAmp]) (.reference (.modified .rref t))
  | ofCore {ls t} : Derives ls (.core t) → Derives ls (.base t)
  -- A const in front wraps the core, before anything that follows it does.
  | lead {ls t} : Derives ls (.core t) → Derives (.const :: ls) (.base (.modified .const t))
  | const {ls t} : Derives ls (.base t) → Derives (ls ++ [.const]) (.base (.modified .const t))
  | pointer {ls t} :
      Derives ls (.base t) → Derives (ls ++ [.punct .star]) (.base (.modified .pointer t))
  | named {ls n} : Derives ls (.scopedName n) → Derives ls (.core (.named n))
  | template {ns ls n args} : Derives ns (.scopedName n) → Derives ls (.arguments args) →
      Derives (ns ++ .punct .langle :: ls ++ [.punct .rangle]) (.core (.template n args))
  | name {n} : Derives [.word n] (.scopedName n)
  | scope {ls n m} : Derives ls (.scopedName n) →
      Derives (ls ++ [.punct .scope, .word m]) (.scopedName (n ++ "::" ++ m))
  | argument {ls t} : Derives ls (.type t) → Derives ls (.arguments [t])
  | moreArguments {ls ls' args t} : Derives ls (.arguments args) → Derives ls' (.type t) →
      Derives (ls ++ .punct .comma :: ls') (.arguments (args ++ [t]))
  -- A function type that names no result gives none; each qualifier stands at most once.
  | procedure {hs params} (qs : List Qualifier) : Derives hs (.header params) → qs.Nodup →
      Derives (hs ++ qs.map Qualifier.lexeme) (.function ⟨params, .void, .ofList qs⟩)
  | function {hs params ls t} (qs : List Qualifier) : Derives hs (.header params) → qs.Nodup →
      Derives ls (.type t) →
      Derives (hs ++ qs.map Qualifier.lexeme ++ .punct .arrow :: ls)
        (.function ⟨params, t, .ofList qs⟩)
  | noParams : Derives [.punct .lparen, .punct .rparen] (.header [])
  | someParams {ls params} : Derives ls (.params params) →
      Derives (.punct .lparen :: ls ++ [.punct .rparen]) (.header params)
  | firstParam {ls x t} : Derives ls (.param x t) → Derives ls (.params [(x, t)])
  | moreParams {ls ls' params x t} : Derives ls (.params params) → Derives ls' (.param x t) →
      Derives (ls ++ .punct .comma :: ls') (.params (params ++ [(x, t)]))
  | param {ls x t} : Derives ls (.type t) →
      Derives (.word x :: .punct .colon :: ls) (.param x t)

/-! ## Runs of the reader -/

namespace State

/-- The state after a list of lexemes. -/
def steps (s : State) (ls : List Lexeme) : Except SyntaxCause State := ls.foldlM step s

@[simp] theorem steps_nil (s : State) : s.steps [] = .ok s := rfl

@[simp] theorem steps_cons (s : State) (lex : Lexeme) (ls : List Lexeme) :
    s.steps (lex :: ls) = s.step lex >>= fun s' => s'.steps ls := rfl

theorem steps_append (s : State) (ls ls' : List Lexeme) :
    s.steps (ls ++ ls') = s.steps ls >>= fun s' => s'.steps ls' :=
  List.foldlM_append

theorem steps_append_of {s s' : State} {ls : List Lexeme} (h : s.steps ls = .ok s')
    (ls' : List Lexeme) : s.steps (ls ++ ls') = s'.steps ls' := by
  rw [steps_append, h, Except.ok_bind]

/-- A run succeeds when every step does and the text may end in the last state. Positions, which only errors
need, are gone here. -/
theorem run_eq_ok_iff {s : State} {toks : List Token} {t : TypeExpr} :
    s.run toks = .ok t ↔
      ∃ s', s.steps (toks.map (·.lexeme)) = .ok s' ∧ s'.finish = .ok t := by
  induction toks generalizing s with
  | nil => simp [run]
  | cons tok toks ih =>
    rw [run, List.map_cons, steps_cons]
    cases h : s.step tok.lexeme with
    | ok s' => simp [ih]
    | error cause => simp

/-! ## Completeness -/

/-- The lexeme ends an argument or a parameter. -/
def Closing (lex : Lexeme) : Prop :=
  lex = .punct .comma ∨ lex = .punct .rangle ∨ lex = .punct .rparen

/-- The state has read the type `t` inside the constructs of `stack`: what ends an argument or a
parameter, and the end of the text, find it complete. -/
structure Holds (s : State) (stack : List Frame) (t : TypeExpr) : Prop where
  finish : s.finish = closeAll t stack
  close : ∀ lex, Closing lex → s.step lex = State.close t lex stack

/-- The state has read the type `t` inside the constructs of `stack`, and modifiers may follow. A
name may also go on, with `::` or with template arguments. -/
structure HoldsBase (s : State) (stack : List Frame) (t : TypeExpr) : Prop where
  finish : s.finish = closeAll t stack
  step : ∀ lex, lex ≠ .punct .scope → lex ≠ .punct .langle → s.step lex = stepBase stack t lex

theorem HoldsBase.holds {s : State} {stack : List Frame} {t : TypeExpr} (h : HoldsBase s stack t) :
    Holds s stack t := by
  refine ⟨h.finish, ?_⟩
  rintro lex (rfl | rfl | rfl) <;> rw [h.step _ (by decide) (by decide)] <;> rfl

theorem holdsBase_base (stack : List Frame) (t : TypeExpr) : HoldsBase ⟨stack, .base t⟩ stack t :=
  ⟨rfl, fun _ _ _ => rfl⟩

/-- A name is a complete type, with the leading const around it, if neither `::` nor template arguments follow.
-/
theorem holdsBase_name (stack : List Frame) (lead : Bool) (n : String) :
    HoldsBase ⟨stack, .name lead n⟩ stack (underLead lead (.named n)) := by
  refine ⟨rfl, fun lex hs hl => ?_⟩
  rcases lex with w | - | - | p
  · rfl
  · rfl
  · rfl
  · cases p <;> first | rfl | contradiction

theorem holds_reference (stack : List Frame) (t : TypeExpr) :
    Holds ⟨stack, .reference t⟩ stack t := by
  refine ⟨rfl, ?_⟩
  rintro lex (rfl | rfl | rfl) <;> rfl

/-- Behind its parameters and qualifiers a function is complete, with `void` for the result that was left out.
-/
theorem holds_qualifiers (stack : List Frame) (params : List (String × TypeExpr))
    (quals : Qualifiers) :
    Holds ⟨stack, .qualifiers params quals⟩ stack (.func ⟨params, .void, quals⟩) := by
  refine ⟨rfl, ?_⟩
  rintro lex (rfl | rfl | rfl) <;> rfl

/-- A function type is complete when its result is: closing the result closes the function as well. -/
theorem Holds.result {s : State} {stack : List Frame} {params : List (String × TypeExpr)}
    {quals : Qualifiers} {t : TypeExpr} (h : Holds s (.result params quals :: stack) t) :
    Holds s stack (.func ⟨params, t, quals⟩) :=
  ⟨h.finish, h.close⟩

/-- The mode in front of a core. -/
def coreMode (lead : Bool) : Mode := if lead then .lead else .start

/-- The mode awaits a parameter that follows those in `done`. -/
def AwaitsParam (done : List (String × TypeExpr)) : Mode → Prop
  | .opened => done = []
  | .between ps => done = ps
  | _ => False

/-- A parameter starts with its name and a colon, which open a frame that holds the parameters `done` before it.
-/
theorem steps_word_param {mode : Mode} {done : List (String × TypeExpr)}
    (h : AwaitsParam done mode) (stack : List Frame) (x : String) (ls : List Lexeme) :
    steps ⟨stack, mode⟩ (.word x :: .punct .colon :: ls) =
      steps ⟨.param done x :: stack, .start⟩ ls := by
  cases mode with
  | opened => cases h; rfl
  | between ps => cases h; rfl
  | _ => exact h.elim

/-- Qualifiers that are not there yet are taken one after the other; one that comes twice is refused by the
reader and not derived by the grammar. -/
theorem steps_qualifiers (stack : List Frame) (params : List (String × TypeExpr))
    {qs done : List Qualifier} (h : (done ++ qs).Nodup) :
    steps ⟨stack, .qualifiers params (.ofList done)⟩ (qs.map Qualifier.lexeme) =
      .ok ⟨stack, .qualifiers params (.ofList (done ++ qs))⟩ := by
  induction qs generalizing done with
  | nil => simp
  | cons q qs ih =>
    have hq : q ∉ done := fun hq => (List.nodup_append.mp h).2.2 q hq q (by simp) rfl
    have hstep : step ⟨stack, .qualifiers params (.ofList done)⟩ q.lexeme =
        .ok ⟨stack, .qualifiers params (.ofList (done ++ [q]))⟩ := by
      cases q <;>
        simp [Qualifier.lexeme, step, stepQualifier, Qualifiers.ofList, Qualifiers.has,
          Qualifiers.insert, hq]
    rw [List.map_cons, steps_cons, hstep, Except.ok_bind, ih (by simpa using h)]
    simp

/-- How the reader takes the lexemes of a phrase, whatever constructs are open around it. -/
def Reads (ls : List Lexeme) : Phrase → Prop
  | .type t | .reference t =>
    ∀ stack, ∃ s, steps ⟨stack, .start⟩ ls = .ok s ∧ Holds s stack t
  | .base t => ∀ stack, ∃ s, steps ⟨stack, .start⟩ ls = .ok s ∧ HoldsBase s stack t
  | .core t => ∀ stack lead,
    ∃ s, steps ⟨stack, coreMode lead⟩ ls = .ok s ∧ HoldsBase s stack (underLead lead t)
  | .scopedName n => ∀ stack lead, steps ⟨stack, coreMode lead⟩ ls = .ok ⟨stack, .name lead n⟩
  | .arguments args => ∀ stack lead n, ∃ s done t, args = done ++ [t] ∧
    steps ⟨.argument lead n [] :: stack, .start⟩ ls = .ok s ∧
      Holds s (.argument lead n done :: stack) t
  | .function sig => ∀ stack, ∃ s, steps ⟨stack, .start⟩ ls = .ok s ∧ Holds s stack (.func sig)
  | .header params =>
    ∀ stack, steps ⟨stack, .start⟩ ls = .ok ⟨stack, .qualifiers params (.ofList [])⟩
  | .params params => ∀ stack, ∃ s done x t, params = done ++ [(x, t)] ∧
    steps ⟨stack, .opened⟩ ls = .ok s ∧ Holds s (.param done x :: stack) t
  | .param x t => ∀ stack done mode, AwaitsParam done mode →
    ∃ s, steps ⟨stack, mode⟩ ls = .ok s ∧ Holds s (.param done x :: stack) t

/-- Reading one more lexeme after `ls`. -/
theorem steps_snoc {s s' : State} {ls : List Lexeme} (h : s.steps ls = .ok s') (lex : Lexeme) :
    s.steps (ls ++ [lex]) = s'.step lex := by
  rw [steps_append_of h, steps_cons]
  cases s'.step lex <;> rfl

/-- The reader takes what the grammar derives. The induction is on the derivation; only a complete
part is handed to the construct around it, by a lexeme that the part cannot go on with. -/
theorem reads_of_derives {ls : List Lexeme} {p : Phrase} (h : Derives ls p) : Reads ls p := by
  induction h with
  | ofFunction _ ih => exact ih
  | ofReference _ ih => exact ih
  | ofBase _ ih =>
    intro stack
    obtain ⟨s, hs, hb⟩ := ih stack
    exact ⟨s, hs, hb.holds⟩
  -- a base stays open for modifiers, so the lexeme behind it is taken as one of them
  | ref _ ih | rref _ ih =>
    intro stack
    obtain ⟨s, hs, hb⟩ := ih stack
    refine ⟨_, ?_, holds_reference stack _⟩
    rw [steps_snoc hs, hb.step _ (by decide) (by decide)]; rfl
  | ofCore _ ih => intro stack; exact ih stack false
  | lead _ ih => intro stack; exact ih stack true
  | const _ ih | pointer _ ih =>
    intro stack
    obtain ⟨s, hs, hb⟩ := ih stack
    refine ⟨_, ?_, holdsBase_base stack _⟩
    rw [steps_snoc hs, hb.step _ (by decide) (by decide)]; rfl
  | named _ ih => intro stack lead; exact ⟨_, ih stack lead, holdsBase_name stack lead _⟩
  -- the arguments are read inside a frame of their own, which only the closing bracket takes off the stack
  | template _ _ ihn iha =>
    intro stack lead
    obtain ⟨s, done, t, rfl, hs, ht⟩ := iha stack lead _
    refine ⟨_, ?_, holdsBase_base stack _⟩
    rw [List.append_assoc, steps_append_of (ihn stack lead), List.cons_append, steps_cons]
    show steps ⟨.argument lead _ [] :: stack, .start⟩ _ = _
    rw [steps_snoc hs, ht.close _ (.inr (.inl rfl))]; rfl
  | name => intro stack lead; cases lead <;> rfl
  | scope _ ih =>
    intro stack lead
    rw [steps_append_of (ih stack lead)]; rfl
  | argument _ ih =>
    intro stack lead n
    obtain ⟨s, hs, ht⟩ := ih (.argument lead n [] :: stack)
    exact ⟨s, [], _, rfl, hs, ht⟩
  -- the comma closes the last argument and puts it into the frame of the next one
  | moreArguments _ _ iha iht =>
    intro stack lead n
    obtain ⟨s, done, t, rfl, hs, ht⟩ := iha stack lead n
    obtain ⟨s', hs', ht'⟩ := iht (.argument lead n (done ++ [t]) :: stack)
    refine ⟨s', _, _, rfl, ?_, ht'⟩
    rw [steps_append_of hs, steps_cons, ht.close _ (.inl rfl)]
    exact hs'
  | procedure qs _ hqs ih =>
    intro stack
    refine ⟨_, ?_, holds_qualifiers stack _ _⟩
    rw [steps_append_of (ih stack), steps_qualifiers stack _ (by simpa using hqs), List.nil_append]
  -- the result is read inside the frame of the function and stays open at the end: what closes it closes both
  | function qs _ hqs _ ihh iht =>
    intro stack
    obtain ⟨s, hs, ht⟩ := iht (.result _ (.ofList qs) :: stack)
    refine ⟨s, ?_, ht.result⟩
    rw [List.append_assoc, steps_append_of (ihh stack),
      steps_append_of (steps_qualifiers stack _ (by simpa using hqs)), List.nil_append]
    exact hs
  | noParams => intro stack; rfl
  | someParams _ ih =>
    intro stack
    obtain ⟨s, done, x, t, rfl, hs, ht⟩ := ih stack
    rw [List.cons_append, steps_cons]
    show steps ⟨stack, .opened⟩ _ = _
    rw [steps_snoc hs, ht.close _ (.inr (.inr rfl))]; rfl
  | firstParam _ ih =>
    intro stack
    obtain ⟨s, hs, ht⟩ := ih stack [] .opened rfl
    exact ⟨s, [], _, _, rfl, hs, ht⟩
  -- as for arguments, but between parameters the reader awaits a name and not a type
  | moreParams _ _ ihs ih =>
    intro stack
    obtain ⟨s, done, x, t, rfl, hs, ht⟩ := ihs stack
    obtain ⟨s', hs', ht'⟩ := ih stack (done ++ [(x, t)]) (.between _) rfl
    refine ⟨s', _, _, _, rfl, ?_, ht'⟩
    rw [steps_append_of hs, steps_cons, ht.close _ (.inl rfl)]
    exact hs'
  | param _ ih =>
    intro stack done mode hmode
    obtain ⟨s, hs, ht⟩ := ih (.param done _ :: stack)
    exact ⟨s, by rw [steps_word_param hmode]; exact hs, ht⟩

/-- Completeness: the reader accepts a type that the grammar derives, and gives that type. -/
theorem steps_of_derives {ls : List Lexeme} {t : TypeExpr} (h : Derives ls (.type t)) :
    ∃ s, init.steps ls = .ok s ∧ s.finish = .ok t := by
  obtain ⟨s, hs, ht⟩ := reads_of_derives h []
  exact ⟨s, hs, ht.finish⟩

/-! ## Soundness -/

/-- A leading const, if there is one. -/
def leadLexemes (lead : Bool) : List Lexeme := if lead then [.const] else []

/-- The arguments in front of the current one, with the comma after the last of them. -/
inductive ArgumentsBefore : List Lexeme → List TypeExpr → Prop
  | none : ArgumentsBefore [] []
  | some {ls done} : Derives ls (.arguments done) → ArgumentsBefore (ls ++ [.punct .comma]) done

/-- The parameters in front of the current one, with the comma after the last of them. -/
inductive ParamsBefore : List Lexeme → List (String × TypeExpr) → Prop
  | none : ParamsBefore [] []
  | some {ls done} : Derives ls (.params done) → ParamsBefore (ls ++ [.punct .comma]) done

/-- The parameters of a function type and the qualifiers so far. -/
inductive Qualified : List Lexeme → List (String × TypeExpr) → Qualifiers → Prop
  | intro {hs params} (qs : List Qualifier) : Derives hs (.header params) → qs.Nodup →
      Qualified (hs ++ qs.map Qualifier.lexeme) params (.ofList qs)

/-- The lexemes by which an open construct has been read, up to its part that is still being read. -/
inductive FrameSpells : List Lexeme → Frame → Prop
  | argument {ns ls lead n done} : Derives ns (.scopedName n) → ArgumentsBefore ls done →
      FrameSpells (leadLexemes lead ++ ns ++ .punct .langle :: ls) (.argument lead n done)
  | param {ls done x} : ParamsBefore ls done →
      FrameSpells (.punct .lparen :: ls ++ [.word x, .punct .colon]) (.param done x)
  | result {ls params quals} : Qualified ls params quals →
      FrameSpells (ls ++ [.punct .arrow]) (.result params quals)

/-- The lexemes by which the open constructs have been read, outermost first. -/
inductive StackSpells : List Lexeme → List Frame → Prop
  | nil : StackSpells [] []
  | cons {ls ls' f stack} : StackSpells ls stack → FrameSpells ls' f →
      StackSpells (ls ++ ls') (f :: stack)

/-- The lexemes that have been read at the current place. -/
inductive ModeSpells : List Lexeme → Mode → Prop
  | start : ModeSpells [] .start
  | lead : ModeSpells [.const] .lead
  | name {ns n} (lead : Bool) : Derives ns (.scopedName n) →
      ModeSpells (leadLexemes lead ++ ns) (.name lead n)
  | scope {ns lead n} : Derives ns (.scopedName n) →
      ModeSpells (leadLexemes lead ++ ns ++ [.punct .scope]) (.scope lead n)
  | base {ls t} : Derives ls (.base t) → ModeSpells ls (.base t)
  | reference {ls t} : Derives ls (.reference t) → ModeSpells ls (.reference t)
  | opened : ModeSpells [.punct .lparen] .opened
  | between {ls done} : Derives ls (.params done) →
      ModeSpells (.punct .lparen :: ls ++ [.punct .comma]) (.between done)
  | paramName {ls done x} : ParamsBefore ls done →
      ModeSpells (.punct .lparen :: ls ++ [.word x]) (.paramName done x)
  | qualifiers {ls params quals} : Qualified ls params quals →
      ModeSpells ls (.qualifiers params quals)

/-- The lexemes that lead to a state: those of the open constructs, then those of the current place. -/
def Spells (ls : List Lexeme) (s : State) : Prop :=
  ∃ outer inner, StackSpells outer s.stack ∧ ModeSpells inner s.mode ∧ ls = outer ++ inner

/-- `Spells` from its parts, with the lexemes given in any grouping. -/
theorem Spells.of {ls outer inner : List Lexeme} {stack : List Frame} {mode : Mode}
    (ho : StackSpells outer stack) (hi : ModeSpells inner mode) (h : ls = outer ++ inner) :
    Spells ls ⟨stack, mode⟩ :=
  ⟨outer, inner, ho, hi, h⟩

/-- A construct is opened: what has been read at the current place becomes its frame. -/
theorem Spells.opens {ls outer inner : List Lexeme} {stack : List Frame} {f : Frame}
    (ho : StackSpells outer stack) (hf : FrameSpells inner f) (h : ls = outer ++ inner) :
    Spells ls ⟨f :: stack, .start⟩ :=
  ⟨_, [], .cons ho hf, .start, by rw [List.append_nil, h]⟩

/-- The current argument behind those before it, when it is complete. -/
theorem ArgumentsBefore.snoc {ls ls' : List Lexeme} {done : List TypeExpr} {t : TypeExpr}
    (h : ArgumentsBefore ls done) (ht : Derives ls' (.type t)) :
    Derives (ls ++ ls') (.arguments (done ++ [t])) := by
  cases h with
  | none => exact .argument ht
  | some hd => simpa using Derives.moreArguments hd ht

theorem ParamsBefore.snoc {ls ls' : List Lexeme} {done : List (String × TypeExpr)} {x : String}
    {t : TypeExpr} (h : ParamsBefore ls done) (ht : Derives ls' (.param x t)) :
    Derives (ls ++ ls') (.params (done ++ [(x, t)])) := by
  cases h with
  | none => exact .firstParam ht
  | some hd => simpa using Derives.moreParams hd ht

/-- A core under a leading const, if there is one, is a base. -/
theorem derives_underLead {ls : List Lexeme} {t : TypeExpr} (lead : Bool)
    (h : Derives ls (.core t)) : Derives (leadLexemes lead ++ ls) (.base (underLead lead t)) := by
  cases lead with
  | false => exact .ofCore h
  | true => exact .lead h

theorem Qualified.result {ls ls' : List Lexeme} {params : List (String × TypeExpr)}
    {quals : Qualifiers} {t : TypeExpr} (h : Qualified ls params quals)
    (ht : Derives ls' (.type t)) :
    Derives (ls ++ .punct .arrow :: ls') (.type (.func ⟨params, t, quals⟩)) := by
  cases h with
  | intro qs hh hqs => exact .ofFunction (.function qs hh hqs ht)

theorem Qualified.procedure {ls : List Lexeme} {params : List (String × TypeExpr)}
    {quals : Qualifiers} (h : Qualified ls params quals) :
    Derives ls (.type (.func ⟨params, .void, quals⟩)) := by
  cases h with
  | intro qs hh hqs => exact .ofFunction (.procedure qs hh hqs)

/-- One more qualifier, which was not there, so the list of qualifiers stays without repetition. -/
theorem Qualified.insert {ls : List Lexeme} {params : List (String × TypeExpr)}
    {quals : Qualifiers} {q : Qualifier} (h : Qualified ls params quals)
    (hq : quals.has q = false) : Qualified (ls ++ [q.lexeme]) params (quals.insert q) := by
  cases h with
  | intro qs hh hqs =>
    have hmem : q ∉ qs := by
      intro hm; cases q <;> simp [Qualifiers.has, Qualifiers.ofList, hm] at hq
    have hof : (Qualifiers.ofList qs).insert q = .ofList (qs ++ [q]) := by
      cases q <;> simp [Qualifiers.ofList, Qualifiers.insert]
    have hnd : (qs ++ [q]).Nodup := by
      rw [List.nodup_append]
      refine ⟨hqs, by simp, fun a ha b hb => ?_⟩
      rw [List.mem_singleton.mp hb]
      exact fun h => hmem (h ▸ ha)
    rw [hof]
    simpa using Qualified.intro (qs ++ [q]) hh hnd

/-- A complete type is closed by a comma or a bracket: what it becomes depends on the construct around it. By
induction over the stack, since results are closed along with their function. -/
theorem spells_close {outer inner : List Lexeme} {stack : List Frame} {t : TypeExpr} {lex : Lexeme}
    {s : State} (ho : StackSpells outer stack) (ht : Derives inner (.type t))
    (h : close t lex stack = .ok s) : Spells (outer ++ inner ++ [lex]) s := by
  induction ho generalizing inner t with
  | nil => simp [close] at h
  | cons ho hf ih =>
    cases hf with
    -- a comma goes on to the next argument, a bracket completes the template
    | argument hn ha =>
      have hargs := ha.snoc ht
      simp only [close] at h
      split at h
      · cases h
        refine .opens ho (.argument hn (.some hargs)) ?_
        simp
      · cases h
        refine .of ho (.base (derives_underLead _ (.template hn hargs))) ?_
        simp
      · cases h
    | @param _ _ x hp =>
      have hparams := hp.snoc (.param (x := x) ht)
      simp only [close] at h
      split at h
      · cases h
        refine .of ho (.qualifiers (.intro [] (.someParams hparams) List.nodup_nil)) ?_
        simp
      · cases h
        refine .of ho (.between hparams) ?_
        simp
      · cases h
    -- the same lexeme closes the function around its result
    | result hq =>
      have := ih (hq.result ht) h
      simpa using this

/-- The text ends after a complete type: the whole is a type if only results are open. -/
theorem derives_closeAll {outer inner : List Lexeme} {stack : List Frame} {t u : TypeExpr}
    (ho : StackSpells outer stack) (ht : Derives inner (.type t)) (h : closeAll t stack = .ok u) :
    Derives (outer ++ inner) (.type u) := by
  induction ho generalizing inner t with
  | nil => cases h; exact ht
  | cons ho hf ih =>
    cases hf with
    | argument => cases h
    | param => cases h
    | result hq =>
      have := ih (hq.result ht) h
      simpa using this

/-- A modifier or a closing lexeme behind a base. -/
theorem spells_stepBase {outer inner : List Lexeme} {stack : List Frame} {t : TypeExpr}
    {lex : Lexeme} {s : State} (ho : StackSpells outer stack) (ht : Derives inner (.base t))
    (h : stepBase stack t lex = .ok s) : Spells (outer ++ inner ++ [lex]) s := by
  unfold stepBase at h
  split at h
  · cases h; exact .of ho (.base (.const ht)) (List.append_assoc ..)
  · cases h; exact .of ho (.base (.pointer ht)) (List.append_assoc ..)
  · cases h; exact .of ho (.reference (.ref ht)) (List.append_assoc ..)
  · cases h; exact .of ho (.reference (.rref ht)) (List.append_assoc ..)
  · exact spells_close ho (.ofReference (.ofBase ht)) h

/-- A qualifier behind the parameters of a function, if the reader takes it. -/
theorem spells_stepQualifier {outer inner : List Lexeme} {stack : List Frame}
    {params : List (String × TypeExpr)} {quals : Qualifiers} {lex : Lexeme} {q : Qualifier}
    {s : State} (ho : StackSpells outer stack) (hq : Qualified inner params quals)
    (hlex : lex = q.lexeme) (h : stepQualifier stack params quals lex q = .ok s) :
    Spells (outer ++ inner ++ [lex]) s := by
  subst hlex
  unfold stepQualifier at h
  split at h
  · cases h
  · rename_i hnew
    cases h
    exact .of ho (.qualifiers (hq.insert (by simpa using hnew))) (List.append_assoc ..)

/-- One step keeps what a state says of the lexemes that led to it: one case for each `Mode` and each lexeme
that is taken there. -/
theorem Spells.step {ls : List Lexeme} {lex : Lexeme} {s s' : State} (hs : Spells ls s)
    (h : s.step lex = .ok s') : Spells (ls ++ [lex]) s' := by
  obtain ⟨stack, mode⟩ := s
  -- the current place decides which lexemes are taken; the open constructs change only where one is opened or
  -- closed
  obtain ⟨outer, inner, ho, hi, rfl⟩ := hs
  cases hi with
  | start =>
    simp only [State.step] at h
    split at h <;> cases h
    · exact .of ho .opened (by simp)
    · exact .of ho .lead (by simp)
    · exact .of ho (.name false .name) (by simp [leadLexemes])
  | lead =>
    simp only [State.step] at h
    split at h <;> cases h
    exact .of ho (.name true .name) (by simp [leadLexemes])
  -- a name may go on, be instantiated, or be a complete core
  | name lead hn =>
    simp only [State.step] at h
    split at h
    · cases h; exact .of ho (.scope hn) (by simp)
    · cases h; exact .opens ho (.argument hn .none) (by simp)
    · exact spells_stepBase ho (derives_underLead lead (.named hn)) h
  | scope hn =>
    simp only [State.step] at h
    split at h <;> cases h
    exact .of ho (.name _ (.scope hn)) (by simp)
  | base ht => exact spells_stepBase ho ht h
  | reference ht =>
    simp only [State.step] at h
    split at h
    any_goals cases h
    exact spells_close ho (.ofReference ht) h
  | opened =>
    simp only [State.step] at h
    split at h <;> cases h
    · exact .of ho (.qualifiers (.intro [] .noParams List.nodup_nil)) (by simp)
    · exact .of ho (.paramName .none) (by simp)
  | between hp =>
    simp only [State.step] at h
    split at h <;> cases h
    exact .of ho (.paramName (.some hp)) (by simp)
  | paramName hp =>
    simp only [State.step] at h
    split at h <;> cases h
    exact .opens ho (.param hp) (by simp)
  -- the three qualifiers, a qualifier that cannot follow, the arrow of a result, and the end of a function
  -- without one
  | qualifiers hq =>
    simp only [State.step] at h
    split at h
    · exact spells_stepQualifier ho hq rfl h
    · exact spells_stepQualifier ho hq rfl h
    · exact spells_stepQualifier ho hq rfl h
    · cases h
    · cases h; exact .opens ho (.result hq) (by simp)
    · exact spells_close ho hq.procedure h

/-- A run of steps keeps it too, by induction over the lexemes. -/
theorem Spells.steps {ls ls' : List Lexeme} {s s' : State} (hs : Spells ls s)
    (h : s.steps ls' = .ok s') : Spells (ls ++ ls') s' := by
  induction ls' generalizing ls s with
  | nil => cases h; rwa [List.append_nil]
  | cons lex ls' ih =>
    obtain ⟨s₁, h₁, h₂⟩ := Except.bind_eq_ok.mp h
    have := ih (hs.step h₁) h₂
    rwa [List.append_assoc] at this

/-- A state in which the text may end has read a type, by the same cases as in `Spells.step`. -/
theorem Spells.finish {ls : List Lexeme} {s : State} {t : TypeExpr} (hs : Spells ls s)
    (h : s.finish = .ok t) : Derives ls (.type t) := by
  obtain ⟨stack, mode⟩ := s
  obtain ⟨outer, inner, ho, hi, rfl⟩ := hs
  cases hi with
  | start | lead | scope | opened | between | paramName => cases h
  | name lead hn =>
    exact derives_closeAll ho (.ofReference (.ofBase (derives_underLead lead (.named hn)))) h
  | base ht => exact derives_closeAll ho (.ofReference (.ofBase ht)) h
  | reference ht => exact derives_closeAll ho (.ofReference ht) h
  | qualifiers hq => exact derives_closeAll ho hq.procedure h

/-- Soundness: the grammar derives what the reader accepts. The first state has read nothing. -/
theorem derives_of_steps {ls : List Lexeme} {s : State} {t : TypeExpr}
    (h : init.steps ls = .ok s) (ht : s.finish = .ok t) : Derives ls (.type t) :=
  have hinit : Spells [] init := .of .nil .start rfl
  (hinit.steps h).finish ht

end State

/-! ## The reader and the grammar -/

/-- A text spells the types that the grammar derives from its tokens. -/
theorem parse_iff_derives {text : String} {t : TypeExpr} :
    parse text = .ok t ↔
      ∃ toks, tokenize text = .ok toks ∧ Derives (toks.map (·.lexeme)) (.type t) := by
  unfold parse
  rw [Except.bind_eq_ok]
  refine exists_congr fun toks => and_congr_right fun _ => ?_
  rw [Except.mapError_eq_ok, State.run_eq_ok_iff]
  constructor
  · rintro ⟨s, hs, ht⟩; exact State.derives_of_steps hs ht
  · exact State.steps_of_derives

/-- The reader takes one way through a list of lexemes, so they spell one type at most. -/
theorem derives_unique {ls : List Lexeme} {t u : TypeExpr} (ht : Derives ls (.type t))
    (hu : Derives ls (.type u)) : t = u := by
  obtain ⟨s, hs, hst⟩ := State.steps_of_derives ht
  obtain ⟨s', hs', hsu⟩ := State.steps_of_derives hu
  rw [hs] at hs'; cases hs'
  rw [hst] at hsu; cases hsu; rfl

/-- **The reader and the grammar.** A text is read as a type exactly when it splits into tokens and
the grammar derives all of them as that type. The grammar is unambiguous. -/
theorem parse_exact :
    (∀ (text : String) (t : TypeExpr), parse text = .ok t ↔
      ∃ toks, tokenize text = .ok toks ∧ Derives (toks.map (·.lexeme)) (.type t)) ∧
    ∀ (ls : List Lexeme) (t u : TypeExpr),
      Derives ls (.type t) → Derives ls (.type u) → t = u :=
  ⟨fun _ _ => parse_iff_derives, fun _ _ _ => derives_unique⟩

theorem parse_exact_template :
    parse "const a<() noexcept>&" = .ok (.modified .ref (.modified .const
      (.template "a" [.func ⟨[], .void, ⟨false, true, false⟩⟩]))) ∧
    ∀ u, Derives [.const, .word "a", .punct .langle, .punct .lparen, .punct .rparen, .noexcept,
      .punct .rangle, .punct .amp] (.type u) →
      .modified .ref (.modified .const
        (.template "a" [.func ⟨[], .void, ⟨false, true, false⟩⟩])) = u := by
  have d := Derives.ofReference (.ref (.lead (.template (.name (n := "a"))
    (.argument (.ofFunction (.procedure [.noexcept] .noParams (by decide)))))))
  have htoks : tokenize "const a<() noexcept>&" = .ok
      [⟨.const, 0, 5⟩, ⟨.word "a", 6, 7⟩, ⟨.punct .langle, 7, 8⟩, ⟨.punct .lparen, 8, 9⟩,
        ⟨.punct .rparen, 9, 10⟩, ⟨.noexcept, 11, 19⟩, ⟨.punct .rangle, 19, 20⟩,
        ⟨.punct .amp, 20, 21⟩] := by
    decide +kernel
  exact ⟨(parse_exact.1 _ _).mpr ⟨_, htoks, d⟩, fun u hu => parse_exact.2 _ _ u d hu⟩

end TypeExpr

end LuaGlue
