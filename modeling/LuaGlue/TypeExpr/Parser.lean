import LuaGlue.TypeExpr.Basic
import LuaGlue.TypeExpr.Token
import LuaGlue.Text.Quoted

/-!
# Reading type expressions

The grammar of types, in tokens:

    Type      := Function | Reference
    Reference := Base [ & | && ]
    Base      := [ const ] Core { const | * }
    Core      := Name { :: Name } [ < Type { , Type } > ]
    Function  := ( [ Param { , Param } ] ) { Qualifier } [ -> Type ]
    Param     := Name : Type
    Qualifier := const | noexcept | off_thread            each at most once

The reader is a machine that takes one token at a time. A `State` holds the constructs that are open
around the current place, innermost first, and a `Mode` that says what has been read there and so what
may follow. `State.step` takes a token, `State.finish` the end of the text. The first token that no
type goes on with is where reading fails, so the failure of a step is located at its token.

* `parse`: the type that a text spells, or a `SyntaxError`.
-/

namespace LuaGlue

/-- What a text is expected to go on with. -/
inductive Expected where
  | typeName
  | scopedName
  | paramName
  | punct (p : Punct)
  deriving DecidableEq, Repr

/-- The words that messages use for it. -/
def Expected.text : Expected → String
  | .typeName => "a type name"
  | .scopedName => "a name after '::'"
  | .paramName => "an argument name"
  | .punct p => "'" ++ p.text ++ "'"

/-- Why a text spells no type. -/
inductive SyntaxCause where
  /-- A character starts no token. -/
  | stray (c : Char)
  /-- Something else stands at this place, or the text ends. -/
  | expected (what : Expected) (got : Option Lexeme)
  /-- A token follows a type that is complete. -/
  | trailing (got : Lexeme)
  /-- A modifier follows a reference. -/
  | afterReference (got : Lexeme)
  | unknownQualifier (got : Lexeme)
  | duplicateQualifier (got : Lexeme)
  deriving DecidableEq, Repr

/-- The words of a cause. -/
def SyntaxCause.message : SyntaxCause → String
  | .stray c => "Unexpected character " ++ Text.quoted (String.singleton c)
  | .expected what none => "Expected " ++ what.text
  | .expected what (some got) => "Expected " ++ what.text ++ " but got '" ++ got.text ++ "'"
  | .trailing got => "Unexpected '" ++ got.text ++ "' after complete type"
  | .afterReference got => "Modifier '" ++ got.text ++ "' is not allowed after a reference"
  | .unknownQualifier got => "Unknown function modifier '" ++ got.text ++ "'"
  | .duplicateQualifier got => "Duplicate function modifier '" ++ got.text ++ "'"

/-- A text that spells no type, why, and the characters at fault; none when the text ends early. -/
structure SyntaxError where
  cause : SyntaxCause
  text : String
  span : Option (Nat × Nat)
  deriving DecidableEq, Repr

namespace SyntaxError

/-- The text holds a character that starts no token. -/
def isStray (e : SyntaxError) : Bool :=
  match e.cause with
  | .stray _ => true
  | _ => false

/-- The words of the cause, the text, and marks under the characters at fault. -/
def message (e : SyntaxError) : String :=
  let blanks (n : Nat) := String.ofList (List.replicate n ' ')
  match e.span with
  | none =>
    e.cause.message ++ " AT END\n    " ++ e.text ++ "\n    " ++ blanks e.text.length ++ "^"
  | some (start, stop) =>
    e.cause.message ++ "\n    " ++ e.text ++ "\n    " ++ blanks start
      ++ String.ofList (List.replicate (max 1 (stop - start)) '^')

end SyntaxError

namespace TypeExpr

/-- A construct that is open around the current place. -/
inductive Frame where
  /-- A template with the arguments in front of the current one; `lead` tells of a leading const. -/
  | argument (lead : Bool) (name : String) (done : List TypeExpr)
  /-- A function type with the parameters in front of the current one, and its name. -/
  | param (done : List (String × TypeExpr)) (name : String)
  /-- A function type whose result is being read. -/
  | result (params : List (String × TypeExpr)) (quals : Qualifiers)

/-- What has been read at the current place. -/
inductive Mode where
  /-- Nothing of a type. -/
  | start
  /-- A leading const. -/
  | lead
  /-- A name. -/
  | name (lead : Bool) (name : String)
  /-- A name and `::`. -/
  | scope (lead : Bool) (name : String)
  /-- A type that modifiers may follow. -/
  | base (t : TypeExpr)
  /-- A reference, which nothing may modify. -/
  | reference (t : TypeExpr)
  /-- The opening parenthesis of a function type. -/
  | opened
  /-- Parameters and a comma. -/
  | between (done : List (String × TypeExpr))
  /-- The name of a parameter. -/
  | paramName (done : List (String × TypeExpr)) (name : String)
  /-- A parameter list and qualifiers. -/
  | qualifiers (params : List (String × TypeExpr)) (quals : Qualifiers)

/-- The open constructs, innermost first, and what has been read inside them. -/
structure State where
  stack : List Frame
  mode : Mode

namespace State

/-- The state before the first token. -/
def init : State := ⟨[], .start⟩

/-- A core under a leading const, if there is one. -/
def underLead (lead : Bool) (t : TypeExpr) : TypeExpr :=
  if lead then .modified .const t else t

/-- The type `t` is complete and `lex` follows it, so that `lex` goes to the innermost construct. A
function type whose result is complete is itself complete. -/
def close (t : TypeExpr) (lex : Lexeme) : List Frame → Except SyntaxCause State
  | [] => .error (.trailing lex)
  | .argument lead name done :: rest =>
    match lex with
    | .punct .comma => .ok ⟨.argument lead name (done ++ [t]) :: rest, .start⟩
    | .punct .rangle => .ok ⟨rest, .base (underLead lead (.template name (done ++ [t])))⟩
    | _ => .error (.expected (.punct .rangle) (some lex))
  | .param done name :: rest =>
    match lex with
    | .punct .rparen => .ok ⟨rest, .qualifiers (done ++ [(name, t)]) {}⟩
    | .punct .comma => .ok ⟨rest, .between (done ++ [(name, t)])⟩
    | _ => .error (.expected (.punct .comma) (some lex))
  | .result params quals :: rest => close (.func ⟨params, t, quals⟩) lex rest

/-- The type `t` is complete and the text ends. -/
def closeAll (t : TypeExpr) : List Frame → Except SyntaxCause TypeExpr
  | [] => .ok t
  | .argument .. :: _ => .error (.expected (.punct .rangle) none)
  | .param .. :: _ => .error (.expected (.punct .comma) none)
  | .result params quals :: rest => closeAll (.func ⟨params, t, quals⟩) rest

/-- The token `lex` follows a type that modifiers may follow. -/
def stepBase (stack : List Frame) (t : TypeExpr) (lex : Lexeme) : Except SyntaxCause State :=
  match lex with
  | .const => .ok ⟨stack, .base (.modified .const t)⟩
  | .punct .star => .ok ⟨stack, .base (.modified .pointer t)⟩
  | .punct .amp => .ok ⟨stack, .reference (.modified .ref t)⟩
  | .punct .ampAmp => .ok ⟨stack, .reference (.modified .rref t)⟩
  | _ => close t lex stack

/-- A qualifier follows a parameter list; each may stand there once. -/
def stepQualifier (stack : List Frame) (params : List (String × TypeExpr)) (quals : Qualifiers)
    (lex : Lexeme) (q : Qualifier) : Except SyntaxCause State :=
  if quals.has q then .error (.duplicateQualifier lex)
  else .ok ⟨stack, .qualifiers params (quals.insert q)⟩

/-- The state after one more token. -/
def step (s : State) (lex : Lexeme) : Except SyntaxCause State :=
  let ⟨stack, mode⟩ := s
  match mode with
  | .start =>
    match lex with
    | .punct .lparen => .ok ⟨stack, .opened⟩
    | .const => .ok ⟨stack, .lead⟩
    | .word n => .ok ⟨stack, .name false n⟩
    | _ => .error (.expected .typeName (some lex))
  | .lead =>
    match lex with
    | .word n => .ok ⟨stack, .name true n⟩
    | _ => .error (.expected .typeName (some lex))
  | .name lead n =>
    match lex with
    | .punct .scope => .ok ⟨stack, .scope lead n⟩
    | .punct .langle => .ok ⟨.argument lead n [] :: stack, .start⟩
    | _ => stepBase stack (underLead lead (.named n)) lex
  | .scope lead n =>
    match lex with
    | .word m => .ok ⟨stack, .name lead (n ++ "::" ++ m)⟩
    | _ => .error (.expected .scopedName (some lex))
  | .base t => stepBase stack t lex
  | .reference t =>
    match lex with
    | .const | .punct .star | .punct .amp | .punct .ampAmp => .error (.afterReference lex)
    | _ => close t lex stack
  | .opened =>
    match lex with
    | .punct .rparen => .ok ⟨stack, .qualifiers [] {}⟩
    | .word n => .ok ⟨stack, .paramName [] n⟩
    | _ => .error (.expected .paramName (some lex))
  | .between done =>
    match lex with
    | .word n => .ok ⟨stack, .paramName done n⟩
    | _ => .error (.expected .paramName (some lex))
  | .paramName done n =>
    match lex with
    | .punct .colon => .ok ⟨.param done n :: stack, .start⟩
    | _ => .error (.expected (.punct .colon) (some lex))
  | .qualifiers params quals =>
    match lex with
    | .const => stepQualifier stack params quals lex .const
    | .noexcept => stepQualifier stack params quals lex .noexcept
    | .word "off_thread" => stepQualifier stack params quals lex .offThread
    | .word _ => .error (.unknownQualifier lex)
    | .punct .arrow => .ok ⟨.result params quals :: stack, .start⟩
    | _ => close (.func ⟨params, .void, quals⟩) lex stack

/-- The type that has been read when the text ends. -/
def finish (s : State) : Except SyntaxCause TypeExpr :=
  let ⟨stack, mode⟩ := s
  match mode with
  | .start | .lead => .error (.expected .typeName none)
  | .name lead n => closeAll (underLead lead (.named n)) stack
  | .scope _ _ => .error (.expected .scopedName none)
  | .base t | .reference t => closeAll t stack
  | .opened | .between _ => .error (.expected .paramName none)
  | .paramName _ _ => .error (.expected (.punct .colon) none)
  | .qualifiers params quals => closeAll (.func ⟨params, .void, quals⟩) stack

/-- Reads the tokens to the end. A failure comes with the characters of its token, or with none at
the end of the text. -/
def run (s : State) : List Token → Except (SyntaxCause × Option (Nat × Nat)) TypeExpr
  | [] => s.finish.mapError (·, none)
  | tok :: rest =>
    match s.step tok.lexeme with
    | .ok s' => run s' rest
    | .error cause => .error (cause, some (tok.start, tok.stop))

end State

end TypeExpr

/-- The tokens of a text. -/
def tokenize (text : String) : Except SyntaxError (List Token) :=
  (Token.scan 0 text.toList).mapError fun s => ⟨.stray s.char, text, some (s.pos, s.pos + 1)⟩

/-- The type that a text spells. -/
def parse (text : String) : Except SyntaxError TypeExpr := do
  let tokens ← tokenize text
  (TypeExpr.State.init.run tokens).mapError fun (cause, span) => ⟨cause, text, span⟩

end LuaGlue
