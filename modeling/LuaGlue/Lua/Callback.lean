import LuaGlue.Code.Builder
import LuaGlue.Lua.Rules

/-!
# Callbacks

A record field that holds a callable is read through an adapter function of its own. An asynchronous
method is given a completion handler, which resumes the calling coroutine with the result or the error.
-/

namespace LuaGlue.Lua

open Code (Step)

/-- The name of the adapter of a record field. -/
def adapterName (r : Record) (f : Field) : String :=
  "callback_from_lua_" ++ r.ref.name ++ "_" ++ f.name.text

/-- The function that makes the callable of a field out of the Lua value at `idx`. -/
def fieldAdapter (c : Converter) (r : Record) (f : Field) : Except Error (List Step) := do
  let type ← f.type.bare.cppText
  let value ← (c.convert f.type).fromHost "idx"
  return Code.block ("static " ++ type ++ " " ++ adapterName r f ++ "(lua_State* L, int idx) \x7b")
      [.line ("return " ++ value ++ ";")]
    ++ [Code.blank]

/-- The type that the template a method takes last wraps. -/
def lastWrapped (m : Method) : Except Error Ty :=
  match m.sig.params.getLast? with
  | some (_, t) =>
    match t.bare with
    | .template _ args => Ty.firstArg args
    | _ => .error (.misfit .argumentExpected)
  | none => .error (.misfit .argumentExpected)

/-- The lines that resume the coroutine with the value that the callback receives, if it receives
one besides the error. -/
def resumeLines (c : Converter) : List (String × Ty) → Except Error (List String)
  | [value, _] => do
    let push ← (c.convert value.2).toHost ("std::move(" ++ value.1 ++ ")")
    return [push ++ ";", "_thread->resume(1);"]
  | _ => .ok ["_thread->resume(0);"]

/-- The completion handler of a method that takes a callback last. -/
def completionHandler (c : Converter) (m : Method) : Except Error String := do
  match ← lastWrapped m with
  | .func cb =>
    let params ← declareParams cb.params
    match cb.params.getLast? with
    | none => .error (.misfit .argumentExpected)
    | some err =>
      let push ← (c.convert err.2).toHost err.1
      let resume ← resumeLines c cb.params
      return "\n".intercalate ([
          "[_thread = bindgen_lua::current_thread(L)] (" ++ params ++ ") \x7b",
          "lua_State* L = _thread->state();",
          "if (bindgen_lua::is_error(" ++ err.1 ++ ")) \x7b",
          push ++ ";",
          "_thread->resume_error();",
          "return;",
          "\x7d"]
        ++ resume ++ ["\x7d"])
  | _ => .error (.conversion (.callbackWrapsNoFunction m.id))

end LuaGlue.Lua
