/-!
# Type expressions

A `TypeExpr` is the tree of a type as a specification writes it: names are not looked up yet. A
`Signature` is what a function type says, over any kind of type, so that type expressions and
resolved types share it.
-/

namespace LuaGlue

/-- A word that may follow the parameters of a function type. -/
inductive Qualifier where
  | const
  | noexcept
  | offThread
  deriving DecidableEq, Repr

/-- The qualifiers of a function type. -/
structure Qualifiers where
  const : Bool := false
  noexcept : Bool := false
  offThread : Bool := false
  deriving DecidableEq, Repr

namespace Qualifiers

/-- The qualifier is among them. -/
def has (qs : Qualifiers) : Qualifier → Bool
  | .const => qs.const
  | .noexcept => qs.noexcept
  | .offThread => qs.offThread

/-- The qualifiers with one more. -/
def insert (qs : Qualifiers) : Qualifier → Qualifiers
  | .const => { qs with const := true }
  | .noexcept => { qs with noexcept := true }
  | .offThread => { qs with offThread := true }

/-- The qualifiers as they follow a parameter list, each after a blank. -/
def render (qs : Qualifiers) : String :=
  (if qs.const then " const" else "") ++ (if qs.noexcept then " noexcept" else "")
    ++ (if qs.offThread then " off_thread" else "")

end Qualifiers

/-- A function type over the types `α`: named parameters, a result and qualifiers. -/
structure Signature (α : Type) where
  params : List (String × α)
  ret : α
  quals : Qualifiers := {}

/-- What may be written after a type. -/
inductive Modifier where
  | const
  | pointer
  | ref
  | rref
  deriving DecidableEq, Repr

/-- The text of a modifier, as it follows its type. -/
def Modifier.suffix : Modifier → String
  | .const => " const"
  | .pointer => "*"
  | .ref => "&"
  | .rref => "&&"

/-- A type as a specification writes it. -/
inductive TypeExpr where
  /-- A possibly qualified name. -/
  | named (name : String)
  /-- A template with its arguments. -/
  | template (name : String) (args : List TypeExpr)
  | func (sig : Signature TypeExpr)
  | modified (m : Modifier) (inner : TypeExpr)
  /-- The place of a type that was left out; no text spells it. -/
  | missing
  deriving Inhabited

namespace TypeExpr

/-- The type `void`, the result of a function type that names none. -/
def void : TypeExpr := .named "void"

mutual

/-- The two trees are equal. -/
def beq : TypeExpr → TypeExpr → Bool
  | .named a, .named b => a == b
  | .template a as, .template b bs => a == b && beqArgs as bs
  | .func ⟨ps, r, q⟩, .func ⟨ps', r', q'⟩ => beqParams ps ps' && beq r r' && q == q'
  | .modified m a, .modified n b => m == n && beq a b
  | .missing, .missing => true
  | _, _ => false

/-- The two lists of trees are equal. -/
def beqArgs : List TypeExpr → List TypeExpr → Bool
  | [], [] => true
  | a :: as, b :: bs => beq a b && beqArgs as bs
  | _, _ => false

/-- The two parameter lists are equal. -/
def beqParams : List (String × TypeExpr) → List (String × TypeExpr) → Bool
  | [], [] => true
  | (x, a) :: ps, (y, b) :: qs => x == y && beq a b && beqParams ps qs
  | _, _ => false

end

instance : BEq TypeExpr := ⟨beq⟩

mutual

/-- No part of the tree was left out. -/
def isComplete : TypeExpr → Bool
  | .named _ => true
  | .template _ args => argsComplete args
  | .func ⟨params, ret, _⟩ => paramsComplete params && isComplete ret
  | .modified _ inner => isComplete inner
  | .missing => false

/-- No part of any of the trees was left out. -/
def argsComplete : List TypeExpr → Bool
  | [] => true
  | a :: as => isComplete a && argsComplete as

/-- No part of any parameter's type was left out. -/
def paramsComplete : List (String × TypeExpr) → Bool
  | [] => true
  | (_, t) :: ps => isComplete t && paramsComplete ps

end

end TypeExpr

end LuaGlue
