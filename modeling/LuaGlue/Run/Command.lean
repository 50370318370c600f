import LuaGlue.Error

/-!
# Words of a command

`commandWords` splits a command into words as a shell does: blanks separate words, quotes keep them
together, and a backslash takes the next character as it is. Between double quotes a backslash does so
only in front of a double quote or another backslash, and between single quotes never.
-/

namespace LuaGlue.Run

/-- What the next character belongs to. -/
inductive CommandMode where
  | between
  | word
  | single
  | double
  /-- A backslash in a word. -/
  | escape
  /-- A backslash between double quotes. -/
  | doubleEscape
  deriving DecidableEq, Repr

/-- Blanks between words. -/
def isCommandBlank (c : Char) : Bool := c == ' ' || c == '\t' || c == '\r' || c == '\n'

/-- The words from here on, where `word` holds what has been read of the current one. -/
def wordsFrom : CommandMode → List Char → List Char → Except Misfit (List String)
  | .between, _, [] => .ok []
  | .between, _, c :: cs =>
    if isCommandBlank c then wordsFrom .between [] cs
    else if c == '\\' then wordsFrom .escape [] cs
    else if c == '\'' then wordsFrom .single [] cs
    else if c == '"' then wordsFrom .double [] cs
    else wordsFrom .word [c] cs
  | .word, word, [] => .ok [String.ofList word]
  | .word, word, c :: cs =>
    if isCommandBlank c then (wordsFrom .between [] cs).map (String.ofList word :: ·)
    else if c == '\\' then wordsFrom .escape word cs
    else if c == '\'' then wordsFrom .single word cs
    else if c == '"' then wordsFrom .double word cs
    else wordsFrom .word (word ++ [c]) cs
  | .single, _, [] => .error .openQuotation
  | .single, word, c :: cs =>
    if c == '\'' then wordsFrom .word word cs else wordsFrom .single (word ++ [c]) cs
  | .double, _, [] => .error .openQuotation
  | .double, word, c :: cs =>
    if c == '"' then wordsFrom .word word cs
    else if c == '\\' then wordsFrom .doubleEscape word cs
    else wordsFrom .double (word ++ [c]) cs
  | .escape, _, [] => .error .danglingEscape
  | .escape, word, c :: cs => wordsFrom .word (word ++ [c]) cs
  | .doubleEscape, _, [] => .error .danglingEscape
  | .doubleEscape, word, c :: cs =>
    if c == '"' || c == '\\' then wordsFrom .double (word ++ [c]) cs
    else wordsFrom .double (word ++ ['\\', c]) cs

/-- The words of a command. -/
def commandWords (command : String) : Except Misfit (List String) :=
  wordsFrom .between [] command.toList

end LuaGlue.Run
