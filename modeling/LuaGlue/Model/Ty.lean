import LuaGlue.Error
import LuaGlue.TypeExpr.Basic

/-!
# Resolved types

A `Ty` is a type whose names have been looked up. Declared entities stand in it by what other code
needs to know of them; the type behind a key type is looked up in the model, because key types may
refer to each other.

* `Ty.spelling`: the type as a specification would write it, aliases expanded.
* `Ty.bare`: the type without the constness and references around it.
* `Ty.isFunction`: a function type, or something that wraps one.
-/

namespace LuaGlue

open Document (Value)

/-! ## Names with a meaning of their own -/

def optionalName : String := "util::Optional"
def nullableName : String := "Nullable"
def sharedPtrName : String := "std::shared_ptr"
def asyncCallbackName : String := "AsyncCallback"
def asyncResultName : String := "AsyncResult"
def ignoreArgumentName : String := "IgnoreArgument"

/-- A declared entity: its name, and its name in native code. -/
structure EntityRef where
  name : String
  native : Value

/-- A declared class or interface. -/
structure ClassRef extends EntityRef where
  /-- Instances are owned through shared handles. -/
  shared : Bool
  /-- Stored instances are dereferenced before use. -/
  needsDeref : Bool

/-- A resolved type. -/
inductive Ty where
  | primitive (name : String)
  | template (name : String) (args : List Ty)
  | func (sig : Signature Ty)
  | modified (m : Modifier) (inner : Ty)
  | object (c : ClassRef)
  | record (r : EntityRef)
  | enumeration (e : EntityRef)
  | opaqueType (name : String)
  | keyType (name : String)

namespace Ty

/-- The type `void`. -/
def void : Ty := .primitive "void"

/-- The name of the kind of a type, as messages give it. -/
def kindName : Ty → String
  | .primitive _ => "Primitive"
  | .template _ _ => "Template"
  | .func _ => "Func"
  | .modified .const _ => "Const"
  | .modified .pointer _ => "Pointer"
  | .modified .ref _ => "Ref"
  | .modified .rref _ => "RRef"
  | .object _ => "Class"
  | .record _ => "Struct"
  | .enumeration _ => "Enum"
  | .opaqueType _ => "Opaque"
  | .keyType _ => "KeyType"

/-- The name of a type that has one. -/
def name? : Ty → Option String
  | .primitive name => some name
  | .template name _ => some name
  | .func _ => none
  | .modified _ _ => none
  | .object c => some c.name
  | .record r => some r.name
  | .enumeration e => some e.name
  | .opaqueType name => some name
  | .keyType name => some name

/-- The name of a declared entity, which is also its name in the host. -/
def entityName? : Ty → Option String
  | .object c => some c.name
  | .record r => some r.name
  | .enumeration e => some e.name
  | .opaqueType name => some name
  | .keyType name => some name
  | _ => none

/-- An instance of the named template. -/
def isTemplate (t : Ty) (template : String) : Bool :=
  match t with
  | .template name _ => name == template
  | _ => false

/-- The primitive `void`. -/
def isVoid : Ty → Bool
  | .primitive name => name == "void"
  | _ => false

def isOptional (t : Ty) : Bool := t.isTemplate optionalName

def isNullable (t : Ty) : Bool := t.isTemplate nullableName

/-- A parameter type that the host never supplies a value for. -/
def isIgnored (t : Ty) : Bool := t.isTemplate ignoreArgumentName

/-- The type without the constness and references around it. -/
def bare : Ty → Ty
  | .modified .const t => t.bare
  | .modified .ref t => t.bare
  | .modified .rref t => t.bare
  | t => t

mutual

/-- A function type, or a pointer, reference or template around one. -/
def isFunction : Ty → Bool
  | .func _ => true
  | .modified _ t => isFunction t
  | .template _ args => anyFunction args
  | _ => false

/-- Some of the types is or wraps a function type. -/
def anyFunction : List Ty → Bool
  | [] => false
  | t :: ts => isFunction t || anyFunction ts

end

mutual

/-- The type as a specification would write it. -/
def spelling : Ty → String
  | .primitive name => name
  | .template name args => name ++ "<" ++ ", ".intercalate (spellings args) ++ ">"
  | .func ⟨params, ret, quals⟩ =>
    "(" ++ ", ".intercalate (paramSpellings params) ++ ")" ++ quals.render ++ " -> " ++ spelling ret
  | .modified m t => spelling t ++ m.suffix
  | .object c => c.name
  | .record r => r.name
  | .enumeration e => e.name
  | .opaqueType name => name
  | .keyType name => name

/-- The spellings of template arguments. -/
def spellings : List Ty → List String
  | [] => []
  | t :: ts => spelling t :: spellings ts

/-- The spellings of parameters, each a name and a type. -/
def paramSpellings : List (String × Ty) → List String
  | [] => []
  | (name, t) :: ps => (name ++ ": " ++ spelling t) :: paramSpellings ps

end

end Ty

namespace Signature

/-- The signature as a specification would write it. -/
def spelling (sig : Signature Ty) : String := (Ty.func sig).spelling

/-- The parameters that the host supplies. -/
def visible (sig : Signature Ty) : List (String × Ty) := sig.params.filter (!·.2.isIgnored)

end Signature

end LuaGlue
