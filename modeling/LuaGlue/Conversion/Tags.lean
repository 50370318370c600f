import LuaGlue.Conversion.Basic

/-!
# A vocabulary of tags

The plainest vocabulary: a conversion wraps its expression in a tag. It shows which rules a type needs
and in which order they apply. `Tags` lists the primitives and templates that have a tag.
-/

namespace LuaGlue

/-- The tagged primitives and templates; the latest tag of a name counts. -/
structure Tags where
  /-- The tag of key types. -/
  key : String := "key"
  primitives : List (String × String) := []
  templates : List (String × String) := []

namespace Tags

/-- Wraps an expression in a tag, or in the mark of its way back. -/
def wrap (tag : String) : Conversion where
  toHost e := .ok (tag ++ "(" ++ e ++ ")")
  fromHost e := .ok ("un_" ++ tag ++ "(" ++ e ++ ")")

/-- Converts the expression for each argument in turn and wraps the last result. -/
def wrapArgs (tag : String) (args : List (Ty × Conversion)) : Conversion where
  toHost e := do
    (wrap tag).toHost (← args.foldlM (fun inner a => a.2.toHost inner) e)
  fromHost e := do
    (wrap tag).fromHost (← args.foldlM (fun inner a => a.2.fromHost inner) e)

/-- The rules before any primitive or template has a tag. -/
def baseRules (key : String) : Rules where
  primitive _ := none
  template _ := none
  pointer inner := {
    toHost := fun e => inner.toHost ("*" ++ e)
    fromHost := fun e => return "&" ++ (← inner.fromHost e) }
  object _ := wrap "class"
  record _ := wrap "struct"
  enumeration _ := wrap "enum"
  opaqueType _ := wrap "opaque"
  keyType _ := wrap key
  func _ := wrap "func"

/-- The rules that the tags stand for. -/
def rules (t : Tags) : Rules :=
  let withPrimitives := t.primitives.foldl (fun r e => r.setPrimitive e.1 (wrap e.2)) (baseRules t.key)
  t.templates.foldl (fun r e => r.setTemplate e.1 (wrapArgs e.2)) withPrimitives

/-- Names in ascending order, each once. -/
def sortedNames (tags : List (String × String)) : List String :=
  (tags.map (·.1)).eraseDups.mergeSort (· ≤ ·)

end Tags

end LuaGlue
