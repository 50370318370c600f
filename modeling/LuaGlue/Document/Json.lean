import LuaGlue.Document.Value

/-!
# Values as JSON text

`Value.json?` writes a value on one line in ASCII: items are separated by a comma and a blank, keys
and values by a colon and a blank, and every other character is escaped by its UTF-16 units. Keys that
are not texts are written as texts. Days, moments, bytes and sets have no JSON text, and neither has a value
that holds one of them.
-/

namespace LuaGlue.Document

/-- The escape of a UTF-16 unit. -/
def escapeUnit (n : Nat) : List Char := '\\' :: 'u' :: Text.hex 4 n

/-- A character between JSON quotes. -/
def jsonChar (c : Char) : List Char :=
  if c == '"' || c == '\\' then ['\\', c]
  else if c == '\n' then ['\\', 'n']
  else if c == '\r' then ['\\', 'r']
  else if c == '\t' then ['\\', 't']
  else if c == '\x08' then ['\\', 'b']
  else if c == '\x0c' then ['\\', 'f']
  else if ' ' ≤ c && c ≤ '~' then [c]
  else if c.toNat < 0x10000 then escapeUnit c.toNat
  else
    let n := c.toNat - 0x10000
    escapeUnit (0xd800 + n / 0x400) ++ escapeUnit (0xdc00 + n % 0x400)

/-- A text between JSON quotes. -/
def jsonString (s : String) : String :=
  String.ofList ('"' :: s.toList.flatMap jsonChar ++ ['"'])

/-- The JSON text of a floating point number. -/
def jsonFloat (text : String) : String :=
  if text == "nan" then "NaN"
  else if text == "inf" then "Infinity"
  else if text == "-inf" then "-Infinity"
  else text

namespace Value

/-- A key of a mapping as a text. -/
def jsonKey? : Value → Option String
  | .null => some "null"
  | .bool b => some (if b then "true" else "false")
  | .int n => some (toString n)
  | .float text => some (jsonFloat text)
  | .str s => some s
  | _ => none

mutual

/-- The JSON text of a value. -/
def json? : Value → Option String
  | .null => some "null"
  | .bool b => some (if b then "true" else "false")
  | .int n => some (toString n)
  | .float text => some (jsonFloat text)
  | .str s => some (jsonString s)
  | .list items => (jsonItems? items).map fun texts => "[" ++ ", ".intercalate texts ++ "]"
  | .map entries => (jsonEntries? entries).map fun texts => "\x7b" ++ ", ".intercalate texts ++ "\x7d"
  | .day _ | .moment _ | .bytes _ | .set _ => none

/-- The JSON texts of the items of a list. -/
def jsonItems? : List Value → Option (List String)
  | [] => some []
  | v :: vs => do
    return (← json? v) :: (← jsonItems? vs)

/-- The JSON texts of the entries of a mapping. -/
def jsonEntries? : List (Value × Value) → Option (List String)
  | [] => some []
  | (k, v) :: es => do
    return (jsonString (← k.jsonKey?) ++ ": " ++ (← json? v)) :: (← jsonEntries? es)

end

end Value

end LuaGlue.Document
