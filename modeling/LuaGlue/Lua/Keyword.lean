/-!
# Keywords of Lua
-/

namespace LuaGlue.Lua

/-- The words that cannot be names in Lua. -/
def keywords : List String := [
  "and", "break", "do", "else", "elseif", "end", "false", "for", "function", "goto", "if", "in",
  "local", "nil", "not", "or", "repeat", "return", "then", "true", "until", "while"]

/-- A name that is no keyword. -/
def safeName (name : String) : String := if keywords.contains name then name ++ "_" else name

end LuaGlue.Lua
