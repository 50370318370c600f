import LuaGlue.Lua.Callback

/-!
# Wrapper functions

Every method, constructor and property becomes a C function that reads its arguments from the Lua stack
and calls the native one. An asynchronous method yields the calling coroutine until its completion
handler resumes it. A class has an index function, which serves properties before methods, and an
iterable class an iterator.
-/

namespace LuaGlue.Lua

open Code (Step)

/-- The name of the wrapper of a method. -/
def wrapperName (m : Method) : String := "l_" ++ m.id

/-- Reads the arguments, the next one at stack index `idx`, and gives the expressions that pass them on.
An ignored parameter takes no index. -/
def readParams (c : Converter) : Nat → List (String × Ty) → Except Error (List Step × List String)
  | _, [] => .ok ([], [])
  | idx, (name, t) :: ps => do
    let value ← (c.convert t).fromHost (if t.isIgnored then "0" else toString idx)
    let (steps, args) ← readParams c (if t.isIgnored then idx else idx + 1) ps
    let arg := match t with
      | .modified .rref _ => "std::move(" ++ name ++ ")"
      | _ => name
    return (Code.lines ("auto&& " ++ name ++ " = " ++ value ++ ";") ++ steps, arg :: args)

/-- Reads the instance that a method is called on. -/
def readSelf (c : Converter) (owner : ClassRef) : Except Error (List Step) := do
  return Code.lines ("auto&& _self = " ++ (← (c.convert (.object owner)).fromHost "1") ++ ";")

/-- Calls the native method and hands its result to Lua. -/
def callNative (c : Converter) (m : Method) (isAsync : Bool) (args : List String) :
    Except Error (List Step) := do
  if isAsync then
    let handler ← completionHandler c m
    return Code.lines (m.call "_self" (args ++ [handler]) ++ ";")
      ++ [.line "return lua_yield(L, 0);"]
  else if m.sig.ret.isVoid then
    return Code.lines (m.call "_self" args ++ ";") ++ [.line "return 0;"]
  else
    let push ← (c.convert m.sig.ret).toHost (m.call "_self" args)
    return Code.lines (push ++ ";") ++ [.line "return 1;"]

/-- The wrapper of a method. -/
def wrapper (c : Converter) (m : Method) : Except Error (List Step) := do
  let async ← m.sig.async?
  let guardYield :=
    if async.isSome then
      Code.block "if (!lua_isyieldable(L)) \x7b" [
        .line ("return luaL_error(L, \"" ++ m.owner.name ++ "." ++ m.displayName
          ++ " must be called from a coroutine\");")]
    else []
  let self ← if m.isStatic then .ok [] else readSelf c m.owner
  let (reads, args) ← readParams c (if m.isStatic then 1 else 2) (async.getD m.sig).params
  let call ← callNative c m async.isSome args
  return Code.block ("static int " ++ wrapperName m ++ "(lua_State* L) \x7b")
      (guardYield ++ self ++ reads ++ call)
    ++ [Code.blank]

/-- The name of the iterator of a class. -/
def iteratorName (c : ClassRef) : String := "l_" ++ c.name ++ "__iter"

/-- The iterator over a snapshot of the elements of an instance. -/
def iterator (c : Converter) (owner : ClassRef) (element : Ty) : Except Error (List Step) := do
  let self ← readSelf c owner
  let push ← (c.convert element).toHost "_elem"
  return Code.block ("static int " ++ iteratorName owner ++ "(lua_State* L) \x7b")
      (self
        ++ [.line "lua_newtable(L);", .line "lua_Integer _i = 1;"]
        ++ Code.block "for (auto&& _elem : _self) \x7b"
          (Code.lines (push ++ ";") ++ [.line "lua_rawseti(L, -2, _i++);"])
        ++ [
          .line "lua_pushinteger(L, 0);",
          .line "lua_pushcclosure(L, bindgen_lua::next_in_sequence, 2);",
          .line "return 1;"])
    ++ [Code.blank]

/-- The name of the index function of a class. -/
def indexName (c : ClassRef) : String := "l_" ++ c.name ++ "__index"

/-- The index function: the properties of the class and its bases, then the method table. -/
def indexFunction (model : Model) (c : Class) : List Step :=
  let properties := (model.lineage c).flatMap fun owner => owner.methods.filter (·.isProperty)
  Code.block ("static int " ++ indexName c.ref ++ "(lua_State* L) \x7b")
      (.line "const char* key = luaL_checkstring(L, 2);" ::
        properties.map (fun m =>
          .line ("if (strcmp(key, \"" ++ m.displayName ++ "\") == 0) return " ++ wrapperName m
            ++ "(L);"))
        ++ [
          .line "luaL_getmetafield(L, 1, \"__methods\");",
          .line "lua_getfield(L, -1, key);",
          .line "return 1;"])
    ++ [Code.blank]

/-- The functions of a class. -/
def classFunctions (c : Converter) (cls : Class) : Except Error (List Step) := do
  let wrappers ← cls.methods.mapM (wrapper c)
  let iterators ← match cls.iterable with
    | some element => iterator c cls.ref element
    | none => .ok []
  return wrappers.flatten ++ iterators ++ indexFunction c.model cls

end LuaGlue.Lua
