import LuaGlue.Lua.Callback

/-!
# Records as Lua tables

A record travels as a plain table. One function builds the table field by field, the other reads it back
and raises an error when a required field is missing. Callables are only ever read from Lua.
-/

namespace LuaGlue.Lua

open Code (Step)

/-- The head of the function that builds the table of a record. -/
def pushHead (r : Record) : String :=
  "static void push_struct_" ++ r.ref.name ++ "(lua_State* L, const " ++ r.ref.native.text
    ++ "& value)"

/-- The head of the function that reads the table of a record. -/
def readHead (r : Record) : String :=
  "static " ++ r.ref.native.text ++ " to_struct_" ++ r.ref.name ++ "(lua_State* L, int idx)"

/-- The declarations of both functions; records may refer to each other in any order. -/
def declareRecord (r : Record) : List Step :=
  [.line (pushHead r ++ ";"), .line (readHead r ++ ";")]

/-- Sets one field of the table. -/
def pushField (c : Converter) (f : Field) : Except Error (List Step) := do
  let push ← (c.convert f.type).toHost ("value." ++ f.native.text)
  let name ← f.displayName
  return Code.lines (push ++ ";") ++ [.line ("lua_setfield(L, -2, \"" ++ name ++ "\");")]

/-- The function that builds the table of a record. -/
def pushRecord (c : Converter) (r : Record) : Except Error (List Step) := do
  let fields := r.fields.filter (!·.type.isFunction)
  let pushes ← fields.mapM (pushField c)
  return Code.block (pushHead r ++ " \x7b")
      (.line ("lua_createtable(L, 0, " ++ toString fields.length ++ ");") :: pushes.flatten)
    ++ [Code.blank]

/-- Reads one field of the table. -/
def readField (c : Converter) (r : Record) (f : Field) : Except Error (List Step) := do
  let name ← f.displayName
  let value ←
    if f.type.isFunction then .ok (adapterName r f ++ "(L, -1)")
    else (c.convert f.type).fromHost "-1"
  return [.line ("lua_getfield(L, idx, \"" ++ name ++ "\");"),
      .line "if (!lua_isnil(L, -1)) \x7b", .indent]
    ++ Code.lines ("out." ++ f.native.text ++ " = " ++ value ++ ";") ++ [.dedent]
    ++ (if f.required then
        [.line "\x7d else \x7b", .indent,
          .line ("luaL_error(L, \"" ++ r.ref.name ++ "." ++ name ++ " is required\");"), .dedent]
      else [])
    ++ [.line "\x7d", .line "lua_pop(L, 1);"]

/-- The function that reads the table of a record. -/
def readRecord (c : Converter) (r : Record) : Except Error (List Step) := do
  let reads ← r.fields.mapM (readField c r)
  return Code.block (readHead r ++ " \x7b")
      ([.line "idx = lua_absindex(L, idx);",
          .line "luaL_checktype(L, idx, LUA_TTABLE);",
          .line (r.ref.native.text ++ " out;")]
        ++ reads.flatten ++ [.line "return out;"])
    ++ [Code.blank]

/-- The functions of a record: the adapters of its callables, then both ways. -/
def recordFunctions (c : Converter) (r : Record) : Except Error (List Step) := do
  let adapters ← (r.fields.filter (·.type.isFunction)).mapM (fieldAdapter c r)
  let push ← pushRecord c r
  let read ← readRecord c r
  return adapters.flatten ++ push ++ read

end LuaGlue.Lua
