import LuaGlue.Model.Basic

/-!
# Class order

`orderClasses` lists classes so that each base stands before the classes that derive from it: depth
first from the base-less classes, the classes with the same base in the order of their declaration. A
class that no base-less class leads to derives from a loop, which is an error.
-/

namespace LuaGlue

/-- Visits a class and then the classes below it. `seen` lists the classes visited so far, in order;
no class is visited twice. The search goes at most `depth` levels down. -/
def visitClass (declared : List Class) : Nat → List Class → Class → Except BindError (List Class)
  | 0, _, c => .error (.baseLoop [c.name])
  | depth + 1, seen, c =>
    if seen.any (·.name == c.name) then .error (.baseLoop [c.name])
    else
      (declared.filter fun d => d.base.any (·.name == c.name)).foldlM
        (visitClass declared depth) (seen ++ [c])

/-- The declared classes, each base before the classes that derive from it. -/
def orderClasses (declared : List Class) : Except BindError (List Class) := do
  let ordered ← (declared.filter (·.base.isNone)).foldlM (visitClass declared declared.length) []
  match declared.filter fun c => !ordered.any (·.name == c.name) with
  | [] => .ok ordered
  | unreached => .error (.baseLoop (unreached.map (·.name)))

end LuaGlue
