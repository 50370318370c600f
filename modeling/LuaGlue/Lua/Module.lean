import LuaGlue.Lua.Call
import LuaGlue.Lua.Record
import LuaGlue.Lua.Wrapper

/-!
# The C++ unit of a Lua module

`render` writes the whole unit: headers, checks of enumerations, the functions of records and classes,
the tables of methods, their registration, and the function that Lua calls to open the module. Every
function stands before its uses.
-/

namespace LuaGlue.Lua

open Code (Step)
open Document (Value)

/-! ## Head -/

/-- The directive that includes a header. -/
def includeHeader : Value → Except Error Step
  | .str header =>
    .ok (.line (if header.toList.head? == some '<' then "#include " ++ header
      else "#include \"" ++ header ++ "\""))
  | _ => .error (.misfit .headerExpected)

/-- The start of the unit up to the mark of exported functions. -/
def unitHead (headers : List Value) : Except Error (List Step) := do
  let includes ← headers.mapM includeHeader
  return [
      .line "// machine generated, do not edit",
      .line "#include <cstring>",
      .line "#include <lua.hpp>",
      Code.blank]
    ++ includes
    ++ [
      .line "#include \"bindgen_lua.hpp\"",
      Code.blank,
      .line "#ifndef BINDGEN_API",
      .line "  #ifdef _WIN32",
      .line "    #define BINDGEN_API extern \"C\" __declspec(dllexport)",
      .line "  #else",
      .line "    #define BINDGEN_API extern \"C\"",
      .line "  #endif",
      .line "#endif",
      Code.blank]

/-! ## Enumerations -/

/-- Checks that the declared values are the native ones. -/
def enumChecks (e : Enumeration) : List Step :=
  let checks := e.enumerators.map fun x =>
    Step.line ("static_assert(int64_t(" ++ e.ref.native.text ++ "::" ++ x.1.text ++ ") == "
      ++ x.2.text ++ ", \"" ++ e.ref.name ++ "." ++ x.1.text ++ " has an unexpected value\");")
  if checks.isEmpty then [] else checks ++ [Code.blank]

/-- The name of the function that registers an enumeration. -/
def enumRegistration (e : Enumeration) : String := "register_enum_" ++ e.ref.name

/-- The function that adds the table of an enumeration to the module on top of the stack. -/
def registerEnum (e : Enumeration) : List Step :=
  Code.block ("static void " ++ enumRegistration e ++ "(lua_State* L) \x7b")
      (.line (Call.createTable 0 e.enumerators.length).text ::
        e.enumerators.flatMap (fun x => [
          .line ("lua_pushinteger(L, " ++ x.2.text ++ ");"),
          .line (Call.setField (-2) x.1.text).text])
        ++ [.line (Call.setField (-2) e.ref.name).text])
    ++ [Code.blank]

/-! ## Tables of methods -/

/-- The name of the array of the methods of instances. -/
def methodsName (c : ClassRef) : String := c.name ++ "_methods"

/-- The name of the array of functions without an instance. -/
def staticsName (c : ClassRef) : String := c.name ++ "_statics"

/-- An array of functions with their names in the host. -/
def functionArray (name : String) (functions : List (String × String)) : List Step :=
  .openBlock ("static const luaL_Reg " ++ name ++ "[] = \x7b") "\x7d;" ::
    functions.map (fun f => .line ("\x7b\"" ++ f.1 ++ "\", " ++ f.2 ++ "\x7d,"))
    ++ [.line "\x7bNULL, NULL\x7d", .closeBlock, Code.blank]

/-- The methods of instances with their wrappers, and the iterator. -/
def instanceFunctions (c : Class) : List (String × String) :=
  (c.methods.filter fun m => !m.isStatic && !m.isProperty).map
      (fun m => (m.displayName, wrapperName m))
    ++ if c.iterable.isSome then [("iter", iteratorName c.ref)] else []

/-- The functions without an instance with their wrappers. -/
def staticFunctions (c : Class) : List (String × String) :=
  (c.methods.filter (·.isStatic)).map fun m => (m.displayName, wrapperName m)

/-- Both arrays of a class. -/
def methodTables (c : Class) : List Step :=
  functionArray (methodsName c.ref) (instanceFunctions c)
    ++ functionArray (staticsName c.ref) (staticFunctions c)

/-! ## Registration -/

/-- The C++ type that instances of a class are stored as. -/
def storedType (c : ClassRef) : String :=
  if c.shared then "std::shared_ptr<" ++ c.native.text ++ ">" else c.native.text

/-- Looks methods that a table lacks up in the method table of the base. -/
def chainToBase (module : String) (base : ClassRef) : List Call := [
  .createTable 0 1,
  .getMetatable (metatable module base.name),
  .getField (-1) "__methods",
  .setField (-3) "__index",
  .pop 1,
  .setMetatable (-2)]

/-- The calls that register the metatable of a class. The metatable of its base is registered
already. -/
def registerClass (module : String) (c : Class) : List Call :=
  [.newMetatable (metatable module c.name), .newLib (methodsName c.ref)]
    ++ (match c.base with
      | some base => chainToBase module base
      | none => [])
    ++ [
      .setField (-2) "__methods",
      .pushFunction (indexName c.ref),
      .setField (-2) "__index",
      .pushFunction ("bindgen_lua::destroy<" ++ storedType c.ref ++ ">"),
      .setField (-2) "__gc"]
    ++ (match c.base with
      | some base => [.getMetatable (metatable module base.name), .setField (-2) "__base"]
      | none => [])
    ++ [.pop 1]

/-- The function that registers the metatables of all classes, bases first. -/
def registerMetatables (module : String) (classes : List Class) : List Step :=
  Code.block "static void register_metatables(lua_State* L) \x7b"
      (classes.flatMap fun c =>
        (registerClass module c).map (fun call => .line call.text) ++ [Code.blank])
    ++ [Code.blank]

/-- The function that opens the module. -/
def openModule (module : String) (model : Model) : List Step :=
  Code.block ("BINDGEN_API int luaopen_" ++ Text.identifier module ++ "(lua_State* L) \x7b")
    ([.line "register_metatables(L);",
        .line (Call.createTable 0 (model.classes.length + model.enums.length)).text]
      ++ model.classes.flatMap (fun c => [
        .line (Call.newLib (staticsName c.ref)).text,
        .line (Call.setField (-2) c.name).text])
      ++ model.enums.map (fun e => .line (enumRegistration e ++ "(L);"))
      ++ [.line "return 1;"])

/-! ## The unit -/

/-- The steps that write the unit. -/
def unit (module : String) (model : Model) : Except Error (List Step) := do
  let c : Converter := { module, model }
  let head ← unitHead model.headers
  let records ← model.records.mapM (recordFunctions c)
  let classes ← model.classes.mapM (classFunctions c)
  return head
    ++ model.enums.flatMap enumChecks
    ++ model.records.flatMap declareRecord
    ++ (if model.records.isEmpty then [] else [Code.blank])
    ++ records.flatten
    ++ classes.flatten
    ++ model.enums.flatMap registerEnum
    ++ model.classes.flatMap methodTables
    ++ registerMetatables module model.classes
    ++ openModule module model

/-- The text of the unit. -/
def render (module : String) (model : Model) : Except Error String := do
  return Code.render (← unit module model) ++ "\n"

end LuaGlue.Lua
