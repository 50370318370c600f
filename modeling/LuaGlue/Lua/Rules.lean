import LuaGlue.Conversion.Basic
import LuaGlue.Cpp.Spelling
import LuaGlue.Model.Basic

/-!
# Conversion rules for Lua

The vocabulary of the Lua C interface, in C++ with `lua_State* L` in scope.

* To the host: an expression that pushes exactly one Lua value.
* From the host: an expression that reads the value at a stack index.

Names in `bindgen_lua` belong to the runtime header of the generated module.
-/

namespace LuaGlue.Lua

open Document (Value)

/-- A lambda with the given head and body, applied to an expression. -/
def applied (head body e : String) : String :=
  "[&] " ++ head ++ " \x7b" ++ body ++ "\x7d(" ++ e ++ ")"

/-- What follows the head of a lambda that reads a table. -/
def checkTable : String :=
  "\nidx = lua_absindex(L, idx);\nluaL_checktype(L, idx, LUA_TTABLE);\n"

/-- The registry name of a class's metatable. -/
def metatable (module name : String) : String := module ++ "." ++ name

/-! ## Primitives -/

/-- How a primitive lives in Lua. -/
inductive PrimitiveKind where
  | void
  | bool
  | integer
  | number
  /-- A string; an owned one is copied out of Lua. -/
  | text (owned : Bool)
  | binary (owned : Bool)
  | mixed
  /-- An error, which only ever goes from native code to Lua. -/
  | error
  deriving DecidableEq, Repr

/-- The kind of a primitive. -/
def PrimitiveKind.ofName? : String → Option PrimitiveKind
  | "void" => some .void
  | "bool" => some .bool
  | "int" | "int32_t" | "uint32_t" | "int64_t" | "uint64_t" | "count_t" => some .integer
  | "double" | "float" => some .number
  | "std::string" | "EJson" | "EJsonObj" | "EJsonArray" => some (.text true)
  | "std::string_view" | "StringData" => some (.text false)
  | "BinaryData" => some (.binary false)
  | "OwnedBinaryData" => some (.binary true)
  | "Mixed" => some .mixed
  | "AppError" | "Status" | "std::error_code" | "std::exception_ptr" => some .error
  | _ => none

/-- What the rules of one module go by. -/
structure Scope where
  /-- The name of the Lua module. -/
  module : String
  /-- The alternatives of `Mixed`, where they are known. -/
  mixed : Option MixedInfo
  /-- The type behind a key type. -/
  keyType? : String → Option Ty
  /-- How the types behind key types and alternatives are converted. -/
  convert : Ty → Conversion

/-- Pushes the alternative that a `Mixed` holds. -/
def pushMixed (s : Scope) (info : MixedInfo) (e : String) : Except Error String := do
  let cases ← info.getters.mapM fun g => do
    let push ← (s.convert g.type).toHost ("m." ++ g.getter ++ "()")
    return "case DataType::Type::" ++ g.dataType.text ++ ": " ++ push ++ "; return;\n"
  return applied "(const Mixed& m)"
    ("\nif (m.is_null()) \x7b lua_pushnil(L); return; \x7d\nswitch (m.get_type()) \x7b\n"
      ++ String.join cases
      ++ "default: break;\n\x7d\n"
      ++ "luaL_error(L, \"unsupported Mixed type %d\", int(m.get_type()));\n") e

/-- The class that a type stands for, itself or behind a shared handle. -/
def instanceOf (t : Ty) : Except Error (Option ClassRef) :=
  match t.bare with
  | .template name args =>
    if name == sharedPtrName then
      match args with
      | [] => .error (.misfit .argumentExpected)
      | .object c :: _ => .ok (some c)
      | _ => .ok none
    else .ok none
  | .object c => .ok (some c)
  | _ => .ok none

/-- Takes an instance of one class that a `Mixed` can be made from. -/
def takeMixedInstance (s : Scope) (t : Ty) : Except Error String := do
  match ← instanceOf t with
  | some c =>
    return "if (bindgen_lua::is_instance(L, idx, \"" ++ metatable s.module c.name
      ++ "\")) return Mixed(" ++ (← (s.convert t).fromHost "idx") ++ ");\n"
  | none => return ""

/-- Makes a `Mixed` of a Lua value, by its Lua type and then by its class. -/
def takeMixed (s : Scope) (info : MixedInfo) (e : String) : Except Error String := do
  let instances ← info.ctors.mapM (takeMixedInstance s)
  return applied "(int idx) -> Mixed"
    ("\nswitch (lua_type(L, idx)) \x7b\n"
      ++ "case LUA_TNIL: return Mixed();\n"
      ++ "case LUA_TBOOLEAN: return Mixed(bool(lua_toboolean(L, idx)));\n"
      ++ "case LUA_TNUMBER: return lua_isinteger(L, idx) "
      ++ "? Mixed(int64_t(lua_tointeger(L, idx))) : Mixed(double(lua_tonumber(L, idx)));\n"
      ++ "case LUA_TSTRING: return Mixed(StringData(bindgen_lua::check_string_view(L, idx)));\n"
      ++ "default: break;\n\x7d\n"
      ++ String.join instances
      ++ "luaL_error(L, \"value cannot be stored in a Mixed\");\n"
      ++ "return Mixed();\n") e

/-- The string at a stack index. -/
def stringView (e : String) : String := "bindgen_lua::check_string_view(L, " ++ e ++ ")"

/-- The rule of a primitive. -/
def PrimitiveKind.conversion (s : Scope) (name : String) : PrimitiveKind → Conversion
  | .void => {
      toHost := fun e => .ok ("((void)(" ++ e ++ "), lua_pushnil(L))")
      fromHost := fun e => .ok ("((void)(" ++ e ++ "))") }
  | .bool => {
      toHost := fun e => .ok ("lua_pushboolean(L, " ++ e ++ ")")
      fromHost := fun e => .ok ("bool(lua_toboolean(L, " ++ e ++ "))") }
  | .integer => {
      toHost := fun e => .ok ("lua_pushinteger(L, lua_Integer(" ++ e ++ "))")
      fromHost := fun e => .ok (primitiveCpp name ++ "(luaL_checkinteger(L, " ++ e ++ "))") }
  | .number => {
      toHost := fun e => .ok ("lua_pushnumber(L, lua_Number(" ++ e ++ "))")
      fromHost := fun e => .ok (primitiveCpp name ++ "(luaL_checknumber(L, " ++ e ++ "))") }
  | .text owned => {
      toHost := fun e => .ok (applied "(auto&& s)" " lua_pushlstring(L, s.data(), s.size()); " e)
      fromHost := fun e =>
        .ok ((if owned then "std::string" else primitiveCpp name) ++ "(" ++ stringView e ++ ")") }
  | .binary owned => {
      toHost := fun e =>
        .ok (applied "(BinaryData bd)" " lua_pushlstring(L, bd.data(), bd.size()); "
          (if owned then "(" ++ e ++ ").get()" else e))
      fromHost := fun e =>
        .ok ((if owned then "OwnedBinaryData" else "BinaryData") ++ "(" ++ stringView e ++ ".data(), "
          ++ stringView e ++ ".size())") }
  | .mixed =>
    match s.mixed with
    | some info => { toHost := pushMixed s info, fromHost := takeMixed s info }
    | none => .fail (.conversion .mixedNeedsModel)
  | .error => {
      toHost := fun e => .ok ("bindgen_lua::push_error(L, " ++ e ++ ")")
      fromHost := fun _ => .error (.conversion (.notFromHost name)) }

/-! ## Templates -/

/-- How a template lives in Lua. -/
inductive TemplateKind where
  | sharedPtr
  | optional
  | nullable
  | vector
  /-- A sequence of fixed length, made by the named function. -/
  | tuple (make : String)
  | map
  | function
  | ignored
  deriving DecidableEq, Repr

/-- The kind of a template. -/
def TemplateKind.ofName? : String → Option TemplateKind
  | "std::shared_ptr" => some .sharedPtr
  | "util::Optional" => some .optional
  | "Nullable" => some .nullable
  | "std::vector" => some .vector
  | "std::pair" => some (.tuple "std::make_pair")
  | "std::tuple" => some (.tuple "std::make_tuple")
  | "std::map" | "std::unordered_map" => some .map
  | "util::UniqueFunction" | "std::function" | "AsyncCallback" => some .function
  | "IgnoreArgument" => some .ignored
  | _ => none

/-- A rule that needs the first argument of its template. -/
def onFirst (args : List (Ty × Conversion)) (rule : Ty → Conversion → Conversion) : Conversion :=
  match args with
  | (t, c) :: _ => rule t c
  | [] => .fail (.misfit .argumentExpected)

/-- A shared handle of a class that has them, or else a pointer to a copy. -/
def sharedPtrRule (module : String) (t : Ty) (inner : Conversion) : Conversion :=
  let pointee : Conversion := {
    toHost := fun e => inner.toHost ("*(" ++ e ++ ")")
    fromHost := fun e =>
      return "std::make_shared<" ++ (← t.cppText) ++ ">(" ++ (← inner.fromHost e) ++ ")" }
  match t with
  | .object c =>
    if c.shared then {
      toHost := fun e => .ok ("bindgen_lua::push_shared<" ++ c.native.text ++ ">(L, " ++ e ++ ", \""
        ++ metatable module c.name ++ "\")")
      fromHost := fun e => .ok ("bindgen_lua::check_shared<" ++ c.native.text ++ ">(L, " ++ e
        ++ ", \"" ++ metatable module c.name ++ "\")") }
    else pointee
  | _ => pointee

/-- An optional value is nil when it is absent. -/
def optionalRule (type : Ty) (inner : Conversion) : Conversion where
  toHost e := do
    let push ← inner.toHost "*opt"
    return applied "(auto&& opt)" (" if (!opt) lua_pushnil(L); else " ++ push ++ "; ") e
  fromHost e := do
    let opt ← type.cppText
    let value ← inner.fromHost "idx"
    return applied "(int idx)"
      (" return lua_isnoneornil(L, idx) ? " ++ opt ++ "() : " ++ opt ++ "(" ++ value ++ "); ") e

/-- A nullable value is nil when it is null. -/
def nullableRule (t : Ty) (inner : Conversion) : Conversion where
  toHost e := do
    let push ← inner.toHost "v"
    return applied "(auto&& v)" (" if (!v) lua_pushnil(L); else " ++ push ++ "; ") e
  fromHost e := do
    let cpp ← t.cppText
    let value ← inner.fromHost "idx"
    return applied ("(int idx) -> " ++ cpp)
      (" return lua_isnoneornil(L, idx) ? " ++ cpp ++ "\x7b\x7d : " ++ cpp ++ "(" ++ value ++ "); ") e

/-- A vector is a sequence. -/
def vectorRule (t : Ty) (inner : Conversion) : Conversion where
  toHost e := do
    let push ← inner.toHost "e"
    return applied "(auto&& vec)"
      ("\nlua_createtable(L, int(vec.size()), 0);\nlua_Integer i = 1;\nfor (auto&& e : vec) \x7b\n"
        ++ push ++ ";\nlua_rawseti(L, -2, i++);\n\x7d\n") e
  fromHost e := do
    let cpp ← t.cppText
    let value ← inner.fromHost "-1"
    return applied "(int idx)"
      (checkTable ++ "auto out = std::vector<" ++ cpp ++ ">();\n"
        ++ "const lua_Integer len = luaL_len(L, idx);\nout.reserve(size_t(len));\n"
        ++ "for (lua_Integer i = 1; i <= len; i++) \x7b\nlua_rawgeti(L, idx, i);\n"
        ++ "out.push_back(" ++ value ++ ");\nlua_pop(L, 1);\n\x7d\nreturn out;\n") e

/-- A pair or tuple is a sequence of its components. -/
def tupleRule (make : String) (args : List (Ty × Conversion)) : Conversion where
  toHost e := do
    let items ← args.zipIdx.mapM fun (a, i) => do
      let push ← a.2.toHost ("std::get<" ++ toString i ++ ">(tup)")
      return push ++ ";\nlua_rawseti(L, -2, " ++ toString (i + 1) ++ ");\n"
    return applied "(auto&& tup)"
      ("\nlua_createtable(L, " ++ toString args.length ++ ", 0);\n" ++ String.join items) e
  fromHost e := do
    let reads ← args.zipIdx.mapM fun (a, i) => do
      let value ← a.2.fromHost "-1"
      return "lua_rawgeti(L, idx, " ++ toString (i + 1) ++ ");\nauto e" ++ toString i ++ " = " ++ value
        ++ ";\nlua_pop(L, 1);\n"
    let names := (List.range args.length).map fun i => "std::move(e" ++ toString i ++ ")"
    return applied "(int idx)"
      (checkTable ++ String.join reads ++ "return " ++ make ++ "(" ++ ", ".intercalate names
        ++ ");\n") e

/-- A map is a table; it has a key type and a value type. -/
def mapRule (type : Ty) (args : List (Ty × Conversion)) : Conversion :=
  match args with
  | [key, value] => {
      toHost := fun e => do
        let k ← key.2.toHost "k"
        let v ← value.2.toHost "v"
        return applied "(auto&& map)"
          ("\nlua_createtable(L, 0, int(map.size()));\nfor (auto&& [k, v] : map) \x7b\n" ++ k ++ ";\n"
            ++ v ++ ";\nlua_rawset(L, -3);\n\x7d\n") e
      fromHost := fun e => do
        let cpp ← type.cppText
        let k ← key.2.fromHost "-2"
        let v ← value.2.fromHost "-1"
        return applied "(int idx)"
          (checkTable ++ cpp ++ " out;\nlua_pushnil(L);\nwhile (lua_next(L, idx)) \x7b\nout.emplace("
            ++ k ++ ", " ++ v ++ ");\nlua_pop(L, 1);\n\x7d\nreturn out;\n") e }
  | _ => .fail (.misfit .pairExpected)

/-- A wrapper around a function is a Lua function. -/
def functionRule (type : Ty) (args : List (Ty × Conversion)) : Conversion where
  toHost e := (onFirst args fun _ inner => inner).toHost e
  fromHost e := do
    let cpp ← type.cppText
    return cpp ++ "(" ++ (← (onFirst args fun _ inner => inner).fromHost e) ++ ")"

/-- An argument that the host never supplies has its default value. -/
def ignoredRule (t : Ty) (inner : Conversion) : Conversion where
  toHost := inner.toHost
  fromHost _ := return (← t.cppText) ++ "\x7b\x7d"

/-- The rule of a template. -/
def TemplateKind.conversion (s : Scope) (name : String) (args : List (Ty × Conversion)) :
    TemplateKind → Conversion
  | .sharedPtr => onFirst args (sharedPtrRule s.module)
  | .optional => onFirst args fun _ inner => optionalRule (.template name (args.map (·.1))) inner
  | .nullable => onFirst args nullableRule
  | .vector => onFirst args vectorRule
  | .tuple make => tupleRule make args
  | .map => mapRule (.template name (args.map (·.1))) args
  | .function => functionRule (.template name (args.map (·.1))) args
  | .ignored => onFirst args ignoredRule

/-! ## Entities -/

/-- An unmarked pointer is never null. -/
def pointerRule (inner : Conversion) : Conversion where
  toHost e := inner.toHost ("*(" ++ e ++ ")")
  fromHost e := return "&(" ++ (← inner.fromHost e) ++ ")"

/-- An instance of a class; one that is owned through shared handles is only ever read through
them. -/
def objectRule (module : String) (c : ClassRef) : Conversion where
  toHost e :=
    if c.shared then .error (.conversion (.bareShared c.name))
    else .ok ("bindgen_lua::push_class<" ++ c.native.text ++ ">(L, " ++ e ++ ", \""
      ++ metatable module c.name ++ "\")")
  fromHost e :=
    let value (check : String) := "bindgen_lua::" ++ check ++ "<" ++ c.native.text ++ ">(L, " ++ e
      ++ ", \"" ++ metatable module c.name ++ "\")"
    if c.shared then .ok ("*" ++ value "check_shared")
    else if c.needsDeref then .ok ("(*" ++ value "check_class" ++ ")")
    else .ok (value "check_class")

/-- A class value is moved out of an rvalue reference. -/
def rrefFromHost (t : Ty) (inner : Conversion) (e : String) : Except Error String := do
  let value ← inner.fromHost e
  match t.bare with
  | .object c => return if c.shared then value else "std::move(" ++ value ++ ")"
  | _ => return value

def recordRule (r : EntityRef) : Conversion where
  toHost e := .ok ("push_struct_" ++ r.name ++ "(L, " ++ e ++ ")")
  fromHost e := .ok ("to_struct_" ++ r.name ++ "(L, " ++ e ++ ")")

def enumerationRule (r : EntityRef) : Conversion where
  toHost e := .ok ("lua_pushinteger(L, lua_Integer(" ++ e ++ "))")
  fromHost e := .ok (r.native.text ++ "(luaL_checkinteger(L, " ++ e ++ "))")

def opaqueRule (name : String) : Conversion where
  toHost e := .ok ("lua_pushlightuserdata(L, const_cast<void*>(static_cast<const void*>(&(" ++ e
    ++ "))))")
  fromHost e := .ok ("*static_cast<" ++ name ++ "*>(lua_touserdata(L, " ++ e ++ "))")

/-- A key type is converted as the type behind it. -/
def keyTypeRule (s : Scope) (name : String) : Conversion :=
  match s.keyType? name with
  | some t => {
      toHost := fun e => (s.convert t).toHost ("(" ++ e ++ ").value")
      fromHost := fun e => return name ++ "(" ++ (← (s.convert t).fromHost e) ++ ")" }
  | none => .fail (.misfit .endlessType)

/-! ## Functions -/

/-- Wraps a native callable in a Lua function. -/
def pushFunction (sig : Signature (Ty × Conversion)) (e : String) : Except Error String := do
  let args ← sig.params.zipIdx.mapM fun (p, i) => p.2.2.fromHost (toString (i + 1))
  let call := "cb(" ++ ", ".intercalate args ++ ")"
  let body ←
    if sig.ret.1.isVoid then .ok (call ++ ";\nreturn 0;")
    else (sig.ret.2.toHost call).map (· ++ ";\nreturn 1;")
  return applied "(auto&& cb)"
    ("\nbindgen_lua::push_function(L, [cb = std::move(cb)] (lua_State* L) -> int \x7b\n" ++ body
      ++ "\n\x7d);\n") e

/-- Wraps a Lua function in a native callable. -/
def takeFunction (sig : Signature (Ty × Conversion)) (e : String) : Except Error String := do
  let params ← declareParams (sig.params.map fun p => (p.1, p.2.1))
  let pushes ← sig.params.mapM fun p => do
    return (← p.2.2.toHost p.1) ++ ";\n"
  let results := if sig.ret.1.isVoid then "0" else "1"
  let call := "bindgen_lua::call(L, " ++ toString sig.params.length ++ ", " ++ results ++ ");\n"
  let ret ←
    if sig.ret.1.isVoid then .ok ""
    else (sig.ret.2.fromHost "-1").map fun value =>
      "auto _ret = " ++ value ++ ";\nlua_pop(L, 1);\nreturn _ret;\n"
  let cpp ← sig.ret.1.cppText
  return "[_ref = std::make_shared<bindgen_lua::LuaRef>(L, " ++ e ++ ")] (" ++ params ++ ") -> " ++ cpp
    ++ " \x7b\nlua_State* L = _ref->state();\n_ref->push();\n" ++ String.join pushes ++ call ++ ret
    ++ "\x7d"

/-! ## The rules -/

/-- The rules of a Lua module. -/
def rules (s : Scope) : Rules where
  primitive name := (PrimitiveKind.ofName? name).map fun k => k.conversion s name
  template name := (TemplateKind.ofName? name).map fun k args => k.conversion s name args
  pointer := pointerRule
  rrefFromHost := rrefFromHost
  object := objectRule s.module
  record := recordRule
  enumeration := enumerationRule
  opaqueType := opaqueRule
  keyType := keyTypeRule s
  func sig := { toHost := pushFunction sig, fromHost := takeFunction sig }

/-- What conversions go by apart from the type: the module and the model, and whether the alternatives
of `Mixed` are known. -/
structure Converter where
  module : String
  model : Model
  knowsMixed : Bool := true

namespace Converter

/-- The rules, given how the types behind key types and alternatives are converted. -/
def rulesOver (c : Converter) (sub : Ty → Conversion) : Rules :=
  rules {
    module := c.module
    mixed := if c.knowsMixed then some c.model.mixed else none
    keyType? := c.model.keyType?
    convert := sub }

/-- The conversion of a type, which may go at most `depth` times through key types and alternatives of
`Mixed`. -/
def convertTo (c : Converter) : Nat → Ty → Conversion
  | 0, _ => .fail (.misfit .endlessType)
  | depth + 1, t => (c.rulesOver (c.convertTo depth)).convert t

/-- The conversion of a type. Each key type, and `Mixed`, may be gone through once to the host and once
from it, because parameters of functions turn the direction around; a longer way goes in a circle. -/
def convert (c : Converter) (t : Ty) : Conversion :=
  c.convertTo (2 * (c.model.keyTypes.length + 1) + 1) t

/-- A primitive or template has a rule. -/
def hasRule (c : Converter) (t : Ty) : Bool := (c.rulesOver (c.convertTo 0)).hasRule t

end Converter

end LuaGlue.Lua
