import LuaGlue.Model.Order

/-!
# Binding a specification

`Model.ofSpec` makes the model of a specification. First every name is declared, so that entities may
refer to each other in any order; aliases see the names before them. Then records, key types and classes
are filled in, the classes ordered and checked, and the alternatives of `Mixed` looked up. The first rule
that is broken in this order is the one reported.
-/

namespace LuaGlue

open Document (Value)

namespace Spec

/-- An interface as a class without state of its own. -/
def Surface.toClass (s : Surface) : ClassDecl := { s with }

/-- The classes and then the interfaces; true marks an interface. -/
def allClasses (s : Spec) : Table (ClassDecl × Bool) :=
  s.classes.map (fun e => (e.1, e.2, false))
    ++ s.interfaces.map fun e => (e.1, e.2.toClass, true)

/-- What types know of a class. -/
def ClassDecl.ref (d : ClassDecl) (name : String) : ClassRef :=
  { name, native := d.native, shared := d.handle.truthy, needsDeref := d.needsDeref }

end Spec

/-! ## Declared names -/

/-- A name that a specification declares. -/
inductive Declaration where
  | primitive (name : Value)
  /-- An entity whose name must be a text without underscores. -/
  | entity (name : Value) (type : String → Ty)
  /-- The name of the shared handles of a class. -/
  | handle (name : Value) (type : Ty)

/-- A class and, if it is owned through shared handles, their name. -/
def classDeclarations (name : Value) (d : Spec.ClassDecl) : List Declaration :=
  .entity name (fun n => .object (d.ref n)) ::
    if d.handle.truthy then
      [.handle d.handle (.template sharedPtrName [.object (d.ref name.text)])]
    else []

/-- All names but the aliases, in the order of their declaration. -/
def Spec.declarations (s : Spec) : List Declaration :=
  s.primitives.map .primitive
    ++ s.allClasses.flatMap (fun e => classDeclarations e.1 e.2.1)
    ++ s.enums.map (fun e => .entity e.1 fun n => .enumeration ⟨n, e.2.native⟩)
    ++ s.records.map (fun e => .entity e.1 fun n => .record ⟨n, e.2.native⟩)
    ++ s.keyTypes.map (fun e => .entity e.1 .keyType)
    ++ s.opaqueTypes.map fun name => .entity name .opaqueType

/-- The name of an entity: a text without underscores. -/
def checkEntityName : Value → Except Error String
  | .str s => if s.toList.contains '_' then .error (.bind (.illegalName s)) else .ok s
  | .list items =>
    if items.any (·.sameKey (.str "_")) then .error (.bind (.illegalName (Value.list items).text))
    else .error (.misfit .keyExpected)
  | .map entries =>
    if entries.any (·.1.sameKey (.str "_")) then
      .error (.bind (.illegalName (Value.map entries).text))
    else .error (.misfit .keyExpected)
  | _ => .error (.misfit .nameExpected)

namespace Registry

/-- Declares one name. -/
def declare (r : Registry) : Declaration → Except Error Registry
  | .primitive name => r.add name (.primitive name.text)
  | .entity name type => do
    r.add name (type (← checkEntityName name))
  | .handle name type => r.add name type

/-- Declares an alias of a type made of names declared before it. -/
def declareAlias (r : Registry) (e : Value × TypeExpr) : Except Error Registry := do
  r.add e.1 (← r.resolveAt ("typeAliases." ++ e.1.text) e.2)

/-- All names of a specification. -/
def ofSpec (s : Spec) : Except Error Registry := do
  let r ← s.declarations.foldlM declare { templates := s.templates }
  s.aliases.foldlM declareAlias r

end Registry

/-! ## Records, key types and enumerations -/

/-- A field is required unless it has a default or may be absent by its type. -/
def bindField (r : Registry) (record : String) (name : Value) (d : Spec.FieldDecl) :
    Except Error Field := do
  let type ← r.resolveAt (record ++ ".fields." ++ name.text) d.type
  return {
    name, native := d.native, type
    required := d.default.isNone && !(type.isOptional || type.isNullable)
    default := d.default }

def bindRecord (r : Registry) (name : Value) (d : Spec.RecordDecl) : Except Error Record := do
  return {
    ref := ⟨name.text, d.native⟩
    fields := ← d.fields.mapM fun e => bindField r name.text e.1 e.2 }

def bindKeyType (r : Registry) (name : Value) (t : TypeExpr) : Except Error (String × Ty) := do
  return (name.text, ← r.resolveAt ("keyTypes." ++ name.text) t)

/-! ## Classes -/

/-- The name that tells an overload apart. -/
def overloadName (name suffix : Value) : Value :=
  if suffix.truthy then .str (name.text ++ "_" ++ suffix.text) else name

def bindOverload (r : Registry) (owner : ClassRef) (kind : MethodKind) (table : String)
    (name : Value) (d : Spec.MethodDecl) : Except Error Method := do
  let unique := overloadName name d.suffix
  let sig ← r.resolveSignatureAt (owner.name ++ "." ++ table ++ "." ++ unique.text) d.sig
  Method.make owner kind name unique (if d.native.truthy then d.native else name) sig

/-- The overloads of a table of methods, one after the other. -/
def bindMethods (r : Registry) (owner : ClassRef) (kind : MethodKind) (table : String)
    (methods : Spec.Table (List Spec.MethodDecl)) : Except Error (List Method) :=
  (methods.flatMap fun e => e.2.map fun d => (e.1, d)).mapM fun e =>
    bindOverload r owner kind table e.1 e.2

/-- The base of a class; a value that counts as absent is none. -/
def bindBase (r : Registry) (owner : String) (base : Value) : Except Error (Option ClassRef) :=
  if !base.truthy then .ok none
  else if !base.isKey then .error (.misfit .keyExpected)
  else
    match r.find? base with
    | none => .error (.bind (.unknownBase owner base.text))
    | some (.object c) => .ok (some c)
    | some t => .error (.bind (.baseNotClass owner base.text t.kindName))

/-- What constructors of the class give: an instance, or a shared handle to one. -/
def ClassRef.constructed (c : ClassRef) : Ty :=
  if c.shared then .template sharedPtrName [.object c] else .object c

def bindConstructor (r : Registry) (owner : ClassRef) (name : Value) (sig : Signature TypeExpr) :
    Except Error Method := do
  let part := owner.name ++ ".constructors." ++ name.text
  let sig ← r.resolveSignatureAt part sig
  if sig.ret.isVoid then
    Method.make owner .ctor name name owner.native { sig with ret := owner.constructed }
  else .error (.bind (.within part .resultNotAllowed))

def bindProperty (r : Registry) (owner : ClassRef) (name : Value) (t : TypeExpr) :
    Except Error Method := do
  let type ← r.resolveAt (owner.name ++ ".properties." ++ name.text) t
  Method.make owner .property name name name ⟨[], type, { const := true }⟩

def bindClass (r : Registry) (name : Value) (d : Spec.ClassDecl) (isInterface : Bool) :
    Except Error Class := do
  let ref := d.ref name.text
  let methods ← bindMethods r ref .onInstance "methods" d.methods
  let statics ← bindMethods r ref .onClass "staticMethods" d.statics
  let base ← bindBase r ref.name d.base
  let iterable ← d.iterable.mapM fun t => r.resolveAt (ref.name ++ ".iterable") t
  let constructors ← d.constructors.mapM fun e => bindConstructor r ref e.1 e.2
  let properties ← d.properties.mapM fun e => bindProperty r ref e.1 e.2
  return {
    ref, isInterface, isAbstract := d.isAbstract, base, iterable
    methods := methods ++ statics ++ constructors ++ properties }

/-! ## Checks -/

/-- The name of the method that iterable classes have in the host. -/
def iterName : String := "iter"

/-- The asynchronous form of a method exists or is not needed. -/
def checkAsync (m : Method) : Except Error Unit :=
  match m.sig.async? with
  | .ok _ => .ok ()
  | .error (.bind e) => .error (.bind (.within m.id e))
  | .error e => .error e

/-- No method has the name of one in `seen` or before it, or that of the iterator. -/
def checkMethods (c : Class) (seen : List String) : List Method → Except Error Unit
  | [] => .ok ()
  | m :: ms => do
    if seen.contains m.uniqueName then .error (.bind (.duplicateMethod c.name m.uniqueName))
    else if c.iterable.isSome && !m.isStatic && m.displayName == iterName then
      .error (.bind (.iterTaken c.name))
    else
      checkAsync m
      checkMethods c (m.uniqueName :: seen) ms

/-- The methods of a class are told apart, and shared ownership goes without inheritance. -/
def checkClass (classes : List Class) (c : Class) : Except Error Unit := do
  checkMethods c [] c.methods
  if c.ref.shared && (c.base.isSome || classes.any (·.base.any (·.name == c.name))) then
    .error (.bind (.sharedInheritance c.name))
  else .ok ()

/-! ## The model -/

def bindMixed (r : Registry) (d : Spec.MixedInfo) : Except Error MixedInfo := do
  let getters ← d.types.mapM fun e => do
    let type ← r.resolveAt ("mixedInfo.dataTypes." ++ e.1.text) e.2.type
    return { dataType := e.1, getter := e.2.getter, type : MixedGetter }
  let extra ← d.extra.zipIdx.mapM fun e =>
    r.resolveAt ("mixedInfo.extraCtors[" ++ toString e.2 ++ "]") e.1
  return { getters, unused := d.unused, ctors := extra ++ getters.map (·.type) }

namespace Model

/-- The model of a specification. -/
def ofSpec (s : Spec) : Except Error Model := do
  let registry ← Registry.ofSpec s
  let records ← s.records.mapM fun e => bindRecord registry e.1 e.2
  let keyTypes ← s.keyTypes.mapM fun e => bindKeyType registry e.1 e.2
  let declared ← s.allClasses.mapM fun e => bindClass registry e.1 e.2.1 e.2.2
  let classes ← (orderClasses declared).mapError .bind
  classes.forM (checkClass classes)
  let mixed ← bindMixed registry s.mixed
  return {
    headers := s.headers
    classes, records, keyTypes
    enums := s.enums.map fun e => ⟨⟨e.1.text, e.2.native⟩, e.2.values⟩
    opaqueTypes := s.opaqueTypes.map (·.text)
    mixed
    primitives := s.primitives
    registry }

end Model

end LuaGlue
