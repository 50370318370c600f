import LuaGlue.Document.Merge
import LuaGlue.Model.Ty
import LuaGlue.Spec.Basic

/-!
# Declared names

A `Registry` holds the templates and the named types of a specification in the order in which they were
declared.

* `Registry.add`: declares a type under a name that is not taken.
* `Registry.resolve`: looks up every name of a type expression.
-/

namespace LuaGlue

open Document (Value)

/-- The declared templates, and the declared types under their names. -/
structure Registry where
  templates : Spec.Table Spec.Arity := []
  types : List (Value × Ty) := []

namespace Registry

/-- The type that a key names. -/
def find? (r : Registry) (key : Value) : Option Ty :=
  (r.types.find? fun e => e.1.sameKey key).map (·.2)

/-- The arity of a template. -/
def arity? (r : Registry) (name : String) : Option Spec.Arity :=
  (r.templates.find? fun e => e.1.sameKey (.str name)).map (·.2)

/-- Declares a type under a name that is not taken. -/
def add (r : Registry) (key : Value) (t : Ty) : Except Error Registry :=
  if !key.isKey then .error (.misfit .keyExpected)
  else if (r.find? key).isSome then .error (.bind (.duplicateType key.text))
  else .ok { r with types := r.types ++ [(key, t)] }

/-- The name starts with the mark of names that generated code uses. -/
def isReserved (name : String) : Bool := name.toList.head? == some '_'

/-- A template takes the given number of arguments. -/
def checkArity (name : String) (got : Nat) : Option Spec.Arity → Except BindError Unit
  | none => .error (.unknownTemplate name)
  | some .any => .ok ()
  | some (.exact n) => if got == n then .ok () else .error (.wrongArity name n got)

mutual

/-- The type that an expression stands for. The result of a function type is looked up before its
parameters, and the arity of a template is checked before its arguments. -/
def resolve (r : Registry) : TypeExpr → Except BindError Ty
  | .named name =>
    match r.find? (.str name) with
    | some t => .ok t
    | none => .error (.unknownType name)
  | .template name args => do
    checkArity name args.length (r.arity? name)
    return .template name (← resolveArgs r args)
  | .func ⟨params, ret, quals⟩ => do
    let ret ← resolve r ret
    return .func ⟨← resolveParams r params, ret, quals⟩
  | .modified m inner => do
    return .modified m (← resolve r inner)
  | .missing => .error .missingType

/-- The types that template arguments stand for. -/
def resolveArgs (r : Registry) : List TypeExpr → Except BindError (List Ty)
  | [] => .ok []
  | t :: ts => do
    let t ← resolve r t
    return t :: (← resolveArgs r ts)

/-- The parameters with their types looked up; no parameter may have a reserved name. -/
def resolveParams (r : Registry) : List (String × TypeExpr) → Except BindError (List (String × Ty))
  | [] => .ok []
  | (name, t) :: ps => do
    let t ← resolve r t
    if isReserved name then .error (.reservedParam name)
    return (name, t) :: (← resolveParams r ps)

end

/-- The signature that a function type stands for. -/
def resolveSignature (r : Registry) (sig : Signature TypeExpr) :
    Except BindError (Signature Ty) := do
  let ret ← r.resolve sig.ret
  return ⟨← r.resolveParams sig.params, ret, sig.quals⟩

/-- The type that an expression of the named part of a specification stands for. -/
def resolveAt (r : Registry) (part : String) (t : TypeExpr) : Except Error Ty :=
  (r.resolve t).mapError fun e => .bind (.within part e)

/-- The signature of the named part of a specification. -/
def resolveSignatureAt (r : Registry) (part : String) (sig : Signature TypeExpr) :
    Except Error (Signature Ty) :=
  (r.resolveSignature sig).mapError fun e => .bind (.within part e)

end Registry

end LuaGlue
