import LuaGlue.Model.Ty

/-!
# C++ spellings

`Ty.cpp` spells a resolved type in C++. Marker templates are spelled as their argument, and a callback as
the function wrapper that holds it. A declared entity is spelled by its native name, which is whatever
value the specification gives: it can stand alone or inside a spelling, but a list of arguments takes
texts only.
-/

namespace LuaGlue

open Document (Value)

/-- Primitives whose C++ spelling is not their name. -/
def primitiveCpp : String → String
  | "count_t" => "size_t"
  | "EncryptionKey" => "std::vector<char>"
  | "AppError" => "app::AppError"
  | "EJson" => "std::string"
  | "EJsonObj" => "std::string"
  | "EJsonArray" => "std::string"
  | name => name

/-- Templates whose C++ spelling is not their name. -/
def templateCpp : String → String
  | "AsyncCallback" => "util::UniqueFunction"
  | name => name

/-- A template that says something about its argument and is spelled as it. -/
def isMarker (template : String) : Bool :=
  template == nullableName || template == ignoreArgumentName

/-- A C++ template around a function signature. -/
def isFunctionWrapper (template : String) : Bool :=
  template == "util::UniqueFunction" || template == "std::function"

/-- Spellings separated by commas; all of them must be texts. -/
def joinSpellings (vs : List Value) : Except Error String := do
  let texts ← vs.mapM fun
    | .str s => .ok s
    | _ => .error (.misfit .spellingExpected)
  return ", ".intercalate texts

namespace Ty

mutual

/-- The C++ spelling of a type. -/
def cpp : Ty → Except Error Value
  | .modified m t => do
    return .str ((← cpp t).text ++ m.suffix)
  | .template name args =>
    if name == asyncResultName then .error (.conversion .asyncResult)
    else if isMarker name then
      match args with
      | [] => .error (.misfit .argumentExpected)
      | t :: _ => cpp t
    else if isFunctionWrapper (templateCpp name) then
      match args with
      | [.func ⟨params, ret, _⟩] => do
        let ret ← cpp ret
        let params ← joinSpellings (← cppParams params)
        return .str (templateCpp name ++ "<" ++ ret.text ++ "(" ++ params ++ ")>")
      | _ => .error (.conversion (.wrapsNoFunction (Ty.template name args).spelling))
    else do
      let args ← joinSpellings (← cppArgs args)
      return .str (templateCpp name ++ "<" ++ args ++ ">")
  | .primitive name => .ok (.str (primitiveCpp name))
  | .object c => .ok c.native
  | .record r => .ok r.native
  | .enumeration e => .ok e.native
  | .opaqueType name => .ok (.str name)
  | .keyType name => .ok (.str name)
  | .func sig => .error (.conversion (.functionSpelling (Ty.func sig).spelling))

/-- The C++ spellings of template arguments. -/
def cppArgs : List Ty → Except Error (List Value)
  | [] => .ok []
  | t :: ts => do
    let t ← cpp t
    return t :: (← cppArgs ts)

/-- The C++ spellings of the types of parameters. -/
def cppParams : List (String × Ty) → Except Error (List Value)
  | [] => .ok []
  | (_, t) :: ps => do
    let t ← cpp t
    return t :: (← cppParams ps)

end

/-- The C++ spelling of a type inside other text. -/
def cppText (t : Ty) : Except Error String := do
  return (← t.cpp).text

end Ty

/-- The C++ type of a function: the result and, in parentheses, the parameter types. -/
def Signature.cpp (sig : Signature Ty) : Except Error String := do
  let ret ← sig.ret.cppText
  let params ← joinSpellings (← Ty.cppParams sig.params)
  return ret ++ "(" ++ params ++ ")"

/-- Parameter declarations, separated by commas. -/
def declareParams (params : List (String × Ty)) : Except Error String := do
  let decls ← params.mapM fun p => do
    return (← p.2.cppText) ++ " " ++ p.1
  return ", ".intercalate decls

end LuaGlue
