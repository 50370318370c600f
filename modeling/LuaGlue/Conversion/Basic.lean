import LuaGlue.Model.Ty

/-!
# Conversions between native code and a host

A `Conversion` gives, for an expression, the expression that carries its value to the host, and the one
that carries it back. A `Rules` value is the vocabulary of one host: what to write for each primitive,
template and kind of entity, given how their parts are converted. `Rules.convert` applies the rules to a
whole type.

Constness and references do not change what is written, but for a host that moves out of rvalue
references. A primitive or template without a rule cannot be converted.
-/

namespace LuaGlue

/-- How a value of some type is carried to the host and back. -/
structure Conversion where
  /-- From an expression for the native value to one that hands it to the host. -/
  toHost : String → Except Error String
  /-- From an expression for the host's value to one for the native value. -/
  fromHost : String → Except Error String

/-- Neither way is possible. -/
def Conversion.fail (e : Error) : Conversion := ⟨fun _ => .error e, fun _ => .error e⟩

/-- The vocabulary of a host. -/
structure Rules where
  primitive : String → Option Conversion
  /-- The rule of a template takes its arguments with their conversions. -/
  template : String → Option (List (Ty × Conversion) → Conversion)
  pointer : Conversion → Conversion
  /-- How an rvalue reference to a type is taken from the host. -/
  rrefFromHost : Ty → Conversion → String → Except Error String :=
    fun _ inner => inner.fromHost
  object : ClassRef → Conversion
  record : EntityRef → Conversion
  enumeration : EntityRef → Conversion
  opaqueType : String → Conversion
  keyType : String → Conversion
  func : Signature (Ty × Conversion) → Conversion

namespace Rules

/-- The rules with another rule for a primitive. -/
def setPrimitive (r : Rules) (name : String) (rule : Conversion) : Rules :=
  { r with primitive := fun n => if n == name then some rule else r.primitive n }

/-- The rules with another rule for a template. -/
def setTemplate (r : Rules) (name : String) (rule : List (Ty × Conversion) → Conversion) : Rules :=
  { r with template := fun n => if n == name then some rule else r.template n }

/-- A primitive or template has a rule; any other type needs none. -/
def hasRule (r : Rules) : Ty → Bool
  | .primitive name => (r.primitive name).isSome
  | .template name _ => (r.template name).isSome
  | _ => true

mutual

/-- The conversion of a type. -/
def convert (r : Rules) : Ty → Conversion
  | .modified .const t => convert r t
  | .modified .ref t => convert r t
  | .modified .rref t =>
    let inner := convert r t
    { toHost := inner.toHost, fromHost := r.rrefFromHost t inner }
  | .modified .pointer t => r.pointer (convert r t)
  | .primitive name =>
    match r.primitive name with
    | some c => c
    | none => .fail (.conversion (.unexpectedPrimitive name))
  | .template name args =>
    match r.template name with
    | some rule => rule (convertArgs r args)
    | none => .fail (.conversion (.unknownTemplate name))
  | .func ⟨params, ret, quals⟩ => r.func ⟨convertParams r params, (ret, convert r ret), quals⟩
  | .object c => r.object c
  | .record e => r.record e
  | .enumeration e => r.enumeration e
  | .opaqueType name => r.opaqueType name
  | .keyType name => r.keyType name

/-- Template arguments with their conversions. -/
def convertArgs (r : Rules) : List Ty → List (Ty × Conversion)
  | [] => []
  | t :: ts => (t, convert r t) :: convertArgs r ts

/-- Parameters with their conversions. -/
def convertParams (r : Rules) : List (String × Ty) → List (String × Ty × Conversion)
  | [] => []
  | (name, t) :: ps => (name, t, convert r t) :: convertParams r ps

end

end Rules

end LuaGlue
