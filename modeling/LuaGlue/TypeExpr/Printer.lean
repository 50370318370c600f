import LuaGlue.TypeExpr.Basic

/-!
# Type expressions as text

`TypeExpr.render` spells a tree so that reading the text gives the tree again, for every tree that
some text spells.
-/

namespace LuaGlue.TypeExpr

mutual

/-- The text of a type expression. -/
def render : TypeExpr → String
  | .named name => name
  | .template name args => name ++ "<" ++ ", ".intercalate (renderArgs args) ++ ">"
  | .func ⟨params, ret, quals⟩ =>
    "(" ++ ", ".intercalate (renderParams params) ++ ")" ++ quals.render ++ " -> " ++ render ret
  | .modified m inner => render inner ++ m.suffix
  | .missing => ""

/-- The texts of the arguments of a template. -/
def renderArgs : List TypeExpr → List String
  | [] => []
  | t :: ts => render t :: renderArgs ts

/-- The texts of parameters, each a name and a type. -/
def renderParams : List (String × TypeExpr) → List String
  | [] => []
  | (name, t) :: ps => (name ++ ": " ++ render t) :: renderParams ps

end

/-- The text of a tree of which no part was left out. -/
def print? (t : TypeExpr) : Option String :=
  if t.isComplete then some t.render else none

end LuaGlue.TypeExpr
