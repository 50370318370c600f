import LuaGlue.Lua.Keyword
import LuaGlue.Model.Basic

/-!
# Types in annotations

`spellType` writes a resolved type in the annotation language of Lua editors. Constness, pointers and
references are not seen by the host, and a key type is written as the type behind it.
-/

namespace LuaGlue.Annotations

/-- An error as the host sees it. -/
def isErrorPrimitive (name : String) : Bool :=
  name == "AppError" || name == "Status" || name == "std::error_code" || name == "std::exception_ptr"

/-- What a primitive is to the host. -/
def primitiveType (module : String) (name : String) : String :=
  if isErrorPrimitive name then module ++ ".Error"
  else
    match name with
    | "void" => "nil"
    | "bool" => "boolean"
    | "int" | "int32_t" | "uint32_t" | "int64_t" | "uint64_t" | "count_t" => "integer"
    | "double" | "float" => "number"
    | "std::string" | "std::string_view" | "StringData" | "EJson" | "EJsonObj" | "EJsonArray"
    | "BinaryData" | "OwnedBinaryData" => "string"
    | _ => "any"

/-- How a template is written. -/
inductive Shape where
  /-- As its argument. -/
  | transparent
  /-- As its argument or nil. -/
  | optional
  | array
  | tuple
  | table
  deriving DecidableEq, Repr

def Shape.ofTemplate? : String → Option Shape
  | "std::shared_ptr" | "util::UniqueFunction" | "std::function" | "AsyncCallback"
  | "IgnoreArgument" | "AsyncResult" => some .transparent
  | "util::Optional" | "Nullable" => some .optional
  | "std::vector" => some .array
  | "std::pair" | "std::tuple" => some .tuple
  | "std::map" | "std::unordered_map" => some .table
  | _ => none

/-- The type or nil; a type that includes nil stays as it is. -/
def orNil (inner : String) : String :=
  if inner.toList.getLast? == some '?' || inner == "any" then inner else inner ++ "?"

/-- An array of the type, in parentheses where the type is more than a word. -/
def arrayOf (inner : String) : String :=
  if inner.toList.contains ' ' || inner.toList.contains '?' then "(" ++ inner ++ ")[]"
  else inner ++ "[]"

section

variable (module : String) (keyType : String → Except Error String)

mutual

/-- The type in annotations, given how key types are written. -/
def spell : Ty → Except Error String
  | .modified _ t => spell t
  | .primitive name => .ok (primitiveType module name)
  | .template name args =>
    match Shape.ofTemplate? name with
    | some .transparent =>
      match args with
      | t :: _ => spell t
      | [] => .error (.misfit .argumentExpected)
    | some .optional =>
      match args with
      | t :: _ => do
        return orNil (← spell t)
      | [] => .error (.misfit .argumentExpected)
    | some .array =>
      match args with
      | t :: _ => do
        return arrayOf (← spell t)
      | [] => .error (.misfit .argumentExpected)
    | some .tuple => do
      return "[" ++ ", ".intercalate (← spellArgs args) ++ "]"
    | some .table =>
      match args with
      | [key, value] => do
        let key ← spell key
        let value ← spell value
        return "table<" ++ key ++ ", " ++ value ++ ">"
      | _ => .error (.misfit .pairExpected)
    | none => .error (.conversion (.unannotated name))
  | .func ⟨params, ret, _⟩ => do
    let params ← spellParams params
    let head := "fun(" ++ ", ".intercalate params ++ ")"
    if ret.isVoid then .ok head
    else do
      return head ++ ": " ++ (← spell ret)
  | .object c => .ok (module ++ "." ++ c.name)
  | .record r => .ok (module ++ "." ++ r.name)
  | .enumeration e => .ok (module ++ "." ++ e.name)
  | .opaqueType _ => .ok "lightuserdata"
  | .keyType name => keyType name

/-- The types of components. -/
def spellArgs : List Ty → Except Error (List String)
  | [] => .ok []
  | t :: ts => do
    let t ← spell t
    return t :: (← spellArgs ts)

/-- The parameters that the host supplies, each with its type. -/
def spellParams : List (String × Ty) → Except Error (List String)
  | [] => .ok []
  | (name, t) :: ps =>
    if t.isIgnored then spellParams ps
    else do
      let t ← spell t
      return (Lua.safeName name ++ ": " ++ t) :: (← spellParams ps)

end

end

/-- The type in annotations, at most `depth` key types deep. -/
def spellTo (module : String) (model : Model) : Nat → Ty → Except Error String
  | 0, _ => .error (.misfit .endlessType)
  | depth + 1, t =>
    spell module
      (fun name =>
        match model.keyType? name with
        | some u => spellTo module model depth u
        | none => .error (.misfit .endlessType)) t

/-- The type in annotations. A way through more key types than there are goes in a circle. -/
def spellType (module : String) (model : Model) (t : Ty) : Except Error String :=
  spellTo module model (model.keyTypes.length + 1) t

end LuaGlue.Annotations
