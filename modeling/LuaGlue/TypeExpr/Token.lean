import LuaGlue.Text.Blank
import LuaGlue.Text.Name

/-!
# Tokens of type expressions

`Token.scan` splits a text into words and punctuation. Blanks separate tokens and belong to none. A
word takes every letter, digit and underscore that follows it, and two-character punctuation wins over
its first character. Positions count characters from the start of the text.
-/

namespace LuaGlue

/-- The punctuation of type expressions. -/
inductive Punct where
  | scope | arrow | ampAmp | colon | dash | amp | star | lparen | rparen | langle | rangle | comma
  deriving DecidableEq, Repr

namespace Punct

def text : Punct → String
  | .scope => "::"
  | .arrow => "->"
  | .ampAmp => "&&"
  | .colon => ":"
  | .dash => "-"
  | .amp => "&"
  | .star => "*"
  | .lparen => "("
  | .rparen => ")"
  | .langle => "<"
  | .rangle => ">"
  | .comma => ","

/-- The number of characters. -/
def width : Punct → Nat
  | .scope | .arrow | .ampAmp => 2
  | _ => 1

/-- The longest punctuation that starts with `c` and goes on with `rest`, and what follows it. -/
def read? (c : Char) (rest : List Char) : Option (Punct × List Char) :=
  match c, rest with
  | ':', ':' :: r => some (.scope, r)
  | '-', '>' :: r => some (.arrow, r)
  | '&', '&' :: r => some (.ampAmp, r)
  | ':', r => some (.colon, r)
  | '-', r => some (.dash, r)
  | '&', r => some (.amp, r)
  | '*', r => some (.star, r)
  | '(', r => some (.lparen, r)
  | ')', r => some (.rparen, r)
  | '<', r => some (.langle, r)
  | '>', r => some (.rangle, r)
  | ',', r => some (.comma, r)
  | _, _ => none

theorem read?_length_le {c : Char} {rest r : List Char} {p : Punct}
    (h : read? c rest = some (p, r)) : r.length ≤ rest.length := by
  unfold read? at h
  split at h <;> simp_all

end Punct

/-- What a token says. -/
inductive Lexeme where
  | word (s : String)
  | const
  | noexcept
  | punct (p : Punct)
  deriving DecidableEq, Repr

namespace Lexeme

/-- Two words are keywords; every other one is a name. -/
def ofWord (s : String) : Lexeme :=
  if s == "const" then .const else if s == "noexcept" then .noexcept else .word s

def text : Lexeme → String
  | .word s => s
  | .const => "const"
  | .noexcept => "noexcept"
  | .punct p => p.text

/-- The name of the kind of token. -/
def kindName : Lexeme → String
  | .word _ => "ident"
  | .const => "const"
  | .noexcept => "noexcept"
  | .punct _ => "punct"

end Lexeme

/-- A lexeme at the characters from `start` up to, not including, `stop`. -/
structure Token where
  lexeme : Lexeme
  start : Nat
  stop : Nat
  deriving DecidableEq, Repr

namespace Token

/-- A word starts with an ASCII letter or an underscore. -/
def isWordStart (c : Char) : Bool := Text.isCapital c || Text.isSmall c || c == '_'

/-- A word goes on with ASCII letters, digits and underscores. -/
def isWordChar (c : Char) : Bool := isWordStart c || Text.isDigit c

/-- A character that starts no token, and its position. -/
structure Stray where
  char : Char
  pos : Nat
  deriving DecidableEq, Repr

/-- The tokens of the characters from position `pos` on, or the first character that starts none. -/
def scan (pos : Nat) : List Char → Except Stray (List Token)
  | [] => .ok []
  | c :: cs =>
    if Text.isBlank c then scan (pos + 1) cs
    else if isWordStart c then
      let word := c :: cs.takeWhile isWordChar
      let stop := pos + word.length
      (scan stop (cs.dropWhile isWordChar)).map
        (⟨Lexeme.ofWord (String.ofList word), pos, stop⟩ :: ·)
    else
      match _h : Punct.read? c cs with
      | some (p, rest) =>
        (scan (pos + p.width) rest).map (⟨.punct p, pos, pos + p.width⟩ :: ·)
      | none => .error ⟨c, pos⟩
termination_by cs => cs.length
decreasing_by
  · simp
  · have := (List.dropWhile_suffix isWordChar (l := cs)).length_le
    simp only [List.length_cons]
    omega
  · have := Punct.read?_length_le _h
    simp only [List.length_cons]
    omega

end Token

end LuaGlue
