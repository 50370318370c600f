/-!
# Calls of the Lua C interface

The calls that set up the tables of a module, as data: what each does to the stack can be followed apart
from how it is written.
-/

namespace LuaGlue.Lua

/-- A call of the Lua C interface. Negative indices count from the top of the stack. -/
inductive Call where
  /-- Pushes a new metatable and registers it. -/
  | newMetatable (name : String)
  /-- Pushes a table of the functions in an array. -/
  | newLib (array : String)
  | createTable (sequence fields : Nat)
  /-- Pushes the metatable registered under a name. -/
  | getMetatable (name : String)
  | getField (index : Int) (key : String)
  | setField (index : Int) (key : String)
  | setMetatable (index : Int)
  | pushFunction (function : String)
  | pop (count : Nat)
  deriving DecidableEq, Repr

/-- The call as a statement. -/
def Call.text : Call → String
  | .newMetatable name => "luaL_newmetatable(L, \"" ++ name ++ "\");"
  | .newLib array => "luaL_newlib(L, " ++ array ++ ");"
  | .createTable sequence fields =>
    "lua_createtable(L, " ++ toString sequence ++ ", " ++ toString fields ++ ");"
  | .getMetatable name => "luaL_getmetatable(L, \"" ++ name ++ "\");"
  | .getField index key => "lua_getfield(L, " ++ toString index ++ ", \"" ++ key ++ "\");"
  | .setField index key => "lua_setfield(L, " ++ toString index ++ ", \"" ++ key ++ "\");"
  | .setMetatable index => "lua_setmetatable(L, " ++ toString index ++ ");"
  | .pushFunction function => "lua_pushcfunction(L, " ++ function ++ ");"
  | .pop count => "lua_pop(L, " ++ toString count ++ ");"

end LuaGlue.Lua
