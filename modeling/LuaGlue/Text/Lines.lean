/-!
# Lines of a text
-/

namespace LuaGlue.Text

/-- The parts between line breaks; there is always at least one. -/
def splitLines : List Char → List (List Char)
  | [] => [[]]
  | c :: cs =>
    if c == '\n' then [] :: splitLines cs
    else
      match splitLines cs with
      | line :: rest => (c :: line) :: rest
      | [] => [[c]]

/-- The lines of a text, without their breaks. -/
def lines (s : String) : List String := (splitLines s.toList).map String.ofList

end LuaGlue.Text
