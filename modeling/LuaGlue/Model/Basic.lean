import LuaGlue.Model.Async
import LuaGlue.Model.Registry
import LuaGlue.Text.Name

/-!
# The bound model

A `Model` is a specification with every name looked up: classes with their members and bases, records,
enumerations, key types and the alternatives of `Mixed`. Bases stand before the classes that derive from
them.
-/

namespace LuaGlue

open Document (Value)

/-! ## Members -/

inductive MethodKind where
  | onInstance
  | onClass
  | ctor
  | property
  deriving DecidableEq, Repr

/-- A method, constructor or property of a class. -/
structure Method where
  owner : ClassRef
  kind : MethodKind
  name : Value
  /-- The name that tells overloads apart. -/
  uniqueName : String
  native : Value
  sig : Signature Ty

namespace Method

/-- Called without an instance. -/
def isStatic (m : Method) : Bool := m.kind == .onClass || m.kind == .ctor

def isConstructor (m : Method) : Bool := m.kind == .ctor

def isProperty (m : Method) : Bool := m.kind == .property

/-- An identifier that no other method of any class has. -/
def id (m : Method) : String := m.owner.name ++ "_" ++ m.uniqueName

/-- The name of the method in the host. -/
def displayName (m : Method) : String := Text.snakeCase m.uniqueName

/-- The native expression that calls the method on `self`. -/
def call (m : Method) (self : String) (args : List String) : String :=
  let arguments := "(" ++ ", ".intercalate args ++ ")"
  match m.kind with
  | .onInstance | .property => self ++ "." ++ m.native.text ++ arguments
  | .onClass => m.owner.native.text ++ "::" ++ m.native.text ++ arguments
  | .ctor =>
    if m.owner.shared then "std::make_shared<" ++ m.owner.native.text ++ ">" ++ arguments
    else m.owner.native.text ++ arguments

/-- A member whose name is a text that is not reserved. -/
def make (owner : ClassRef) (kind : MethodKind) (name uniqueName native : Value)
    (sig : Signature Ty) : Except Error Method :=
  match uniqueName with
  | .str unique =>
    if Registry.isReserved unique then .error (.bind (.reservedMethod owner.name unique))
    else .ok { owner, kind, name, uniqueName := unique, native, sig }
  | _ => .error (.misfit .memberNameExpected)

end Method

/-! ## Entities -/

/-- A class or interface with its members. -/
structure Class where
  ref : ClassRef
  isInterface : Bool
  isAbstract : Bool
  base : Option ClassRef
  /-- The type of the elements, if instances can be iterated over. -/
  iterable : Option Ty
  methods : List Method

def Class.name (c : Class) : String := c.ref.name

structure Field where
  name : Value
  native : Value
  type : Ty
  /-- A host table without the field is no such record. -/
  required : Bool
  default : Option String

/-- The name of the field in the host. -/
def Field.displayName (f : Field) : Except Error String :=
  match f.name with
  | .str name => .ok (Text.snakeCase name)
  | _ => .error (.misfit .spellingExpected)

structure Record where
  ref : EntityRef
  fields : List Field

structure Enumeration where
  ref : EntityRef
  /-- The names and their values. -/
  enumerators : List (Value × Value)

/-- How a `Mixed` gives access to one of its alternatives. -/
structure MixedGetter where
  dataType : Value
  getter : String
  type : Ty

structure MixedInfo where
  getters : List MixedGetter
  unused : List Value
  /-- The types that a `Mixed` can be made from. -/
  ctors : List Ty

/-! ## The model -/

/-- A specification with every name looked up. -/
structure Model where
  headers : List Value
  /-- The classes and interfaces, each base before the classes that derive from it. -/
  classes : List Class
  records : List Record
  keyTypes : List (String × Ty)
  enums : List Enumeration
  opaqueTypes : List String
  mixed : MixedInfo
  /-- The names of the primitives. -/
  primitives : List Value
  registry : Registry

namespace Model

/-- The class of the given name. -/
def class? (m : Model) (name : String) : Option Class := m.classes.find? (·.name == name)

/-- The type behind a key type. -/
def keyType? (m : Model) (name : String) : Option Ty := m.keyTypes.lookup name

/-- The classes that derive from the named one directly. -/
def subclasses (m : Model) (name : String) : List Class :=
  m.classes.filter fun c => c.base.any (·.name == name)

/-- The classes below the named one, at most `depth` levels down, each before those below it. -/
def descendantsTo (m : Model) : Nat → String → List Class
  | 0, _ => []
  | depth + 1, name =>
    (m.subclasses name).flatMap fun c => c :: m.descendantsTo depth c.name

/-- The classes below a class, each before those below it. -/
def descendants (m : Model) (c : Class) : List Class := m.descendantsTo m.classes.length c.name

/-- A class and its bases, nearest first, at most `depth` of them. -/
def lineageTo (m : Model) : Nat → Class → List Class
  | 0, _ => []
  | depth + 1, c =>
    c :: match c.base.bind fun b => m.class? b.name with
      | some b => m.lineageTo depth b
      | none => []

/-- A class and its bases, nearest first. -/
def lineage (m : Model) (c : Class) : List Class := m.lineageTo m.classes.length c

/-- The base-less class that a class derives from. -/
def rootBase (m : Model) (c : Class) : Class := (m.lineage c).getLast?.getD c

/-- The declared names with the spellings of their types. A primitive whose name is no text has
none. -/
def typeSpellings (m : Model) : Except Error (List (Value × String)) :=
  if m.primitives.all fun | .str _ => true | _ => false then
    .ok (m.registry.types.map fun (key, t) => (key, t.spelling))
  else .error (.misfit .spellingExpected)

end Model

end LuaGlue
