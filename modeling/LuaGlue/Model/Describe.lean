import LuaGlue.Model.Basic

/-!
# A model as a document

`Model.describe` gives plain nested data for the whole model, in table order: what a tool needs to see how
a specification was understood.
-/

namespace LuaGlue

open Document (Value)

namespace Model

/-- A mapping with texts as keys. -/
def mapping (entries : List (String × Value)) : Value :=
  .map (entries.map fun e => (.str e.1, e.2))

/-- A text, or null for none. -/
def textOrNull : Option String → Value
  | some s => .str s
  | none => .null

/-- The word for a kind of method. -/
def kindWord : MethodKind → String
  | .onInstance => "instance"
  | .onClass => "static"
  | .ctor => "constructor"
  | .property => "property"

def describeMethod (m : Method) : Except Error Value := do
  let async ← m.sig.async?
  return mapping ([
      ("name", m.name),
      ("unique_name", .str m.uniqueName),
      ("native_name", m.native),
      ("kind", .str (kindWord m.kind)),
      ("sig", .str m.sig.spelling)]
    ++ match async with
      | some sig => [("async", .str sig.spelling)]
      | none => [])

def describeClass (model : Model) (c : Class) : Except Error Value := do
  return mapping [
    ("name", .str c.name),
    ("native_name", c.ref.native),
    ("interface", .bool c.isInterface),
    ("abstract", .bool c.isAbstract),
    ("base", textOrNull (c.base.map (·.name))),
    ("subclasses", .list ((model.subclasses c.name).map fun d => .str d.name)),
    ("shared_ptr_wrapped", .bool c.ref.shared),
    ("needs_deref", .bool c.ref.needsDeref),
    ("iterable", textOrNull (c.iterable.map (·.spelling))),
    ("methods", .list (← c.methods.mapM describeMethod))]

def describeField (f : Field) : Value :=
  mapping [
    ("name", f.name),
    ("native_name", f.native),
    ("type", .str f.type.spelling),
    ("required", .bool f.required),
    ("default", textOrNull f.default)]

def describeRecord (r : Record) : Value :=
  mapping [
    ("name", .str r.ref.name),
    ("native_name", r.ref.native),
    ("fields", .list (r.fields.map describeField))]

def describeEnum (e : Enumeration) : Value :=
  mapping [
    ("name", .str e.ref.name),
    ("native_name", e.ref.native),
    ("enumerators", .list (e.enumerators.map fun x => .list [x.1, x.2]))]

def describeMixed (m : MixedInfo) : Value :=
  mapping [
    ("getters", .list (m.getters.map fun g => mapping [
      ("data_type", g.dataType), ("getter", .str g.getter), ("type", .str g.type.spelling)])),
    ("unused_data_types", .list m.unused),
    ("ctors", .list (m.ctors.map fun t => .str t.spelling))]

/-- The whole model as plain data. -/
def describe (m : Model) : Except Error Value := do
  let classes ← m.classes.mapM (describeClass m)
  let types ← m.typeSpellings
  return mapping [
    ("headers", .list m.headers),
    ("classes", .list classes),
    ("records", .list (m.records.map describeRecord)),
    ("key_types", .list (m.keyTypes.map fun k =>
      mapping [("name", .str k.1), ("type", .str k.2.spelling)])),
    ("enums", .list (m.enums.map describeEnum)),
    ("opaque_types", .list (m.opaqueTypes.map .str)),
    ("mixed_info", describeMixed m.mixed),
    ("types", .map (types.map fun e => (e.1, .str e.2)))]

end Model

end LuaGlue
