import LuaGlue.Annotations.Type

/-!
# The annotation file of a module

`render` writes the definitions that editors read: a class for errors, one for each record, a table for
each enumeration, and for each class its properties and the heads of its methods.
-/

namespace LuaGlue.Annotations

/-- The lines of a record: one field each. -/
def recordLines (module : String) (model : Model) (r : Record) : Except Error (List String) := do
  let fields ← r.fields.mapM fun f => do
    let name ← f.displayName
    let type ← spellType module model f.type
    return "---@field " ++ name ++ (if f.required then "" else "?") ++ " " ++ type
      ++ (match f.default with
        | some text => " Default: " ++ text
        | none => "")
  return ("---@class " ++ module ++ "." ++ r.ref.name) :: fields

/-- The lines of an enumeration: one name each. -/
def enumLines (module : String) (e : Enumeration) : List String :=
  let name := module ++ "." ++ e.ref.name
  ["---@enum " ++ name, name ++ " = \x7b"]
    ++ e.enumerators.map (fun x => "    " ++ x.1.text ++ " = " ++ x.2.text ++ ",")
    ++ ["\x7d"]

/-- What the host receives from a call: what an asynchronous result holds, or the result. -/
def receivedType : Ty → Except Error Ty
  | .template name args =>
    if name == asyncResultName then Ty.firstArg args else .ok (.template name args)
  | t => .ok t

/-- The lines of a method; an asynchronous one shows what it resumes with. -/
def methodLines (module : String) (model : Model) (owner : String) (m : Method) :
    Except Error (List String) := do
  let async ← m.sig.async?
  let sig := async.getD m.sig
  let params ← sig.visible.mapM fun p => do
    return "---@param " ++ Lua.safeName p.1 ++ " " ++ (← spellType module model p.2)
  let received ← receivedType sig.ret
  let results ←
    if received.isVoid then .ok []
    else (spellType module model received).map fun type => ["---@return " ++ type]
  let names := sig.visible.map fun p => Lua.safeName p.1
  return (if async.isSome then ["---@async"] else []) ++ params ++ results
    ++ ["function " ++ owner ++ (if m.isStatic then "." else ":") ++ m.displayName ++ "("
      ++ ", ".intercalate names ++ ") end"]

/-- The lines of a class: its properties, its methods and its iterator. -/
def classLines (module : String) (model : Model) (c : Class) : Except Error (List String) := do
  let name := module ++ "." ++ c.name
  let header := "---@class " ++ name
    ++ match c.base with
      | some b => " : " ++ module ++ "." ++ b.name
      | none => ""
  let properties ← (c.methods.filter (·.isProperty)).mapM fun m => do
    return "---@field " ++ m.displayName ++ " " ++ (← spellType module model m.sig.ret)
  let methods ← (c.methods.filter (!·.isProperty)).mapM fun m => do
    return "" :: (← methodLines module model name m)
  let iterator ← match c.iterable with
    | some t => do
      let type ← spellType module model t
      .ok ["", "---@return fun(): " ++ type, "function " ++ name ++ ":iter() end"]
    | none => .ok []
  return header :: properties ++ [name ++ " = \x7b\x7d"] ++ methods.flatten ++ iterator

/-- The lines of the annotation file. -/
def moduleLines (module : String) (model : Model) : Except Error (List String) := do
  let records ← model.records.mapM (recordLines module model)
  let classes ← model.classes.mapM (classLines module model)
  let spaced (groups : List (List String)) := groups.flatMap (· ++ [""])
  return [
      "---@meta",
      "-- LuaCATS type definitions for " ++ module,
      "-- Auto-generated, do not edit",
      "",
      "---@class " ++ module ++ ".Error",
      "---@field message string",
      "---@field code integer",
      ""]
    ++ spaced records
    ++ ["local " ++ module ++ " = \x7b\x7d", ""]
    ++ spaced (model.enums.map (enumLines module))
    ++ spaced classes
    ++ ["return " ++ module]

/-- The text of the annotation file. -/
def render (module : String) (model : Model) : Except Error String := do
  return "\n".intercalate (← moduleLines module model) ++ "\n"

end LuaGlue.Annotations
