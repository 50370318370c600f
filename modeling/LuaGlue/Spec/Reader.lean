import LuaGlue.Document.Json
import LuaGlue.Document.Merge
import LuaGlue.Spec.Basic

/-!
# Reading a specification from a document

`Spec.ofDocument` takes the tables of a document in a fixed order and each table entry by entry, so the
first malformed entry in that order is the one reported, with the dotted path that leads to it. A value
that counts as absent stands for an empty table or option.
-/

namespace LuaGlue.Spec

open Document (Value Entries)

/-- Reports the entry at a dotted path. -/
def malformed {α : Type} (path : String) (cause : EntryCause) : Except Error α :=
  .error (.entry (.str path) cause)

/-! ## Tables and sequences -/

/-- A table of the document that must be a list; null stands for none. -/
def listTable (doc : Entries) (key : String) : Except Error (List Value) :=
  match doc.field key with
  | .null => .ok []
  | .list items => .ok items
  | _ => malformed key .listExpected

/-- A table of the document that must be a mapping; null stands for none. -/
def mapTable (doc : Entries) (key : String) : Except Error Entries :=
  match doc.field key with
  | .null => .ok []
  | .map entries => .ok entries
  | _ => malformed key .tableExpected

/-- The entries of a nested table, which may be absent. -/
def entriesOf (v : Value) : Except Error Entries :=
  if v.truthy then
    match v with
    | .map entries => .ok entries
    | _ => .error (.misfit .tableExpected)
  else .ok []

/-- The items of a nested sequence, which may be absent: the items of a list or a set, the characters of a
text, the numbers of bytes, the keys of a mapping. -/
def itemsOf (v : Value) : Except Error (List Value) :=
  if v.truthy then
    match v with
    | .list items => .ok items
    | .set items => .ok items
    | .str s => .ok (s.toList.map fun c => .str (String.singleton c))
    | .bytes bs => .ok (bs.map fun b => .int b.toNat)
    | .map entries => .ok (entries.map (·.1))
    | _ => .error (.misfit .sequenceExpected)
  else .ok []

/-- An entry made of options; null stands for none. -/
def entryOptions (path : String) : Value → Except Error Entries
  | .null => .ok []
  | .map entries => .ok entries
  | v => malformed path (.entryExpected v)

/-- Reads each entry of a table at its own path. -/
def readTable {α : Type} (path : String) (entries : Entries)
    (read : String → Value → Value → Except Error α) : Except Error (Table α) :=
  entries.mapM fun e => (read (path ++ "." ++ e.1.text) e.1 e.2).map (e.1, ·)

/-! ## Types -/

/-- The type that a text spells. -/
def readType (path : String) : Value → Except Error TypeExpr
  | .str text =>
    match parse text with
    | .ok t => .ok t
    | .error e => malformed path (.malformedType e)
  | v => malformed path (.typeExpected v)

/-- The function type that a text spells. -/
def readSignature (path : String) (v : Value) : Except Error (Signature TypeExpr) := do
  match ← readType path v with
  | .func sig => .ok sig
  | _ => malformed path (.functionExpected v)

/-- A constructor's function type, which names no result. -/
def readConstructor (path : String) (v : Value) : Except Error (Signature TypeExpr) := do
  let sig ← readSignature path v
  match sig.ret with
  | .named "void" => .ok sig
  | _ => malformed path .resultNotAllowed

/-! ## Entities -/

/-- A count, or a mark for any number of arguments. -/
def readArity (path : String) : Value → Except Error Arity
  | .str "*" => .ok .any
  | .str "any" => .ok .any
  | .int (.ofNat n) => .ok (.exact n)
  | v => malformed path (.badArity v)

/-- Numbers the listed names from zero. A name that comes again keeps its place and takes the later
number. -/
def numberNames (names : List Value) : Except Error Entries :=
  names.zipIdx.foldlM
    (fun es (name, i) =>
      if !name.isKey then .error (.misfit .keyExpected)
      else if es.has name then .ok (es.replace name (.int i))
      else .ok (es ++ [(name, .int i)]))
    []

def readEnum (path : String) (name raw : Value) : Except Error EnumDecl := do
  let options ← entryOptions path raw
  let values ← match options.field "values" with
    | .list names => numberNames names
    | .map entries => .ok entries
    | _ => malformed path .valuesExpected
  return { native := options.fieldD "cppName" name, values }

/-- The text of a default: a text as it is, any other value as JSON. -/
def defaultText : Value → Except Error String
  | .str s => .ok s
  | v =>
    match v.json? with
    | some text => .ok text
    | none => .error (.misfit .jsonExpected)

/-- A field, given by its type or by options. -/
def readField (path : String) (name : Value) : Value → Except Error FieldDecl
  | .str text => do
    let type ← readType path (.str text)
    return { type, native := name, default := none }
  | raw => do
    let options ← entryOptions path raw
    let type ← readType path (options.field "type")
    let default ← (options.find? (.str "default")).mapM defaultText
    return { type, native := options.fieldD "cppName" name, default }

def readRecord (path : String) (name raw : Value) : Except Error RecordDecl := do
  let options ← entryOptions path raw
  let fields ← readTable (path ++ ".fields") (← entriesOf (options.field "fields")) readField
  return { native := options.fieldD "cppName" name, fields }

/-- One overload, given by its function type or by options. -/
def readOverload (path : String) : Value → Except Error MethodDecl
  | .str text => do
    return { sig := ← readSignature path (.str text) }
  | .map options => do
    let sig ← readSignature path (Entries.field options "sig")
    return {
      sig
      native := Entries.field options "cppName"
      suffix := Entries.field options "suffix" }
  | _ => malformed path .signatureExpected

/-- The overloads of a method, given as one or as a list. The overloads of a list of other than one
are told apart by their index in the path. -/
def readMethod (path : String) (_name : Value) : Value → Except Error (List MethodDecl)
  | .list [raw] => do
    return [← readOverload path raw]
  | .list raws =>
    raws.zipIdx.mapM fun (raw, i) => readOverload (path ++ "[" ++ toString i ++ "]") raw
  | raw => do
    return [← readOverload path raw]

/-- A table of methods, which may be absent. -/
def readMethods (path : String) (raw : Value) : Except Error (Table (List MethodDecl)) := do
  readTable path (← entriesOf raw) readMethod

def readClass (path : String) (name raw : Value) : Except Error ClassDecl := do
  let options ← entryOptions path raw
  let iterable ←
    if (options.field "iterable").truthy then
      some <$> readType (path ++ ".iterable") (options.field "iterable")
    else .ok none
  let constructors ← readTable (path ++ ".constructors")
    (← entriesOf (options.field "constructors")) fun path _ v => readConstructor path v
  let methods ← readMethods (path ++ ".methods") (options.field "methods")
  let statics ← readMethods (path ++ ".staticMethods") (options.field "staticMethods")
  let properties ← readTable (path ++ ".properties")
    (← entriesOf (options.field "properties")) fun path _ v => readType path v
  let handle := options.field "sharedPtrWrapped"
  return {
    native := options.fieldD "cppName" name
    base := options.field "base"
    handle, methods, statics
    isAbstract := (options.field "abstract").truthy
    needsDeref := (options.field "needsDeref").truthy || handle.truthy
    iterable, constructors, properties }

def readInterface (path : String) (name raw : Value) : Except Error Surface := do
  let options ← entryOptions path raw
  let methods ← readMethods (path ++ ".methods") (options.field "methods")
  let statics ← readMethods (path ++ ".staticMethods") (options.field "staticMethods")
  return {
    native := options.fieldD "cppName" name
    base := options.field "base"
    handle := options.field "sharedPtrWrapped"
    methods, statics }

def readMixedDecl (path : String) (_name raw : Value) : Except Error MixedDecl := do
  let options ← entryOptions path raw
  match options.field "getter" with
  | .str getter => return { type := ← readType path (options.field "type"), getter }
  | _ => malformed path .getterExpected

def readMixedInfo (raw : Entries) : Except Error MixedInfo := do
  let types ← readTable "mixedInfo.dataTypes" (← entriesOf (raw.field "dataTypes")) readMixedDecl
  let unused ← itemsOf (raw.field "unusedDataTypes")
  let extra ← (← itemsOf (raw.field "extraCtors")).zipIdx.mapM fun (v, i) =>
    readType ("mixedInfo.extraCtors[" ++ toString i ++ "]") v
  return { types, unused, extra }

/-- The specification that a document describes. -/
def ofDocument (doc : Entries) : Except Error Spec := do
  let headers ← listTable doc "headers"
  let primitives ← listTable doc "primitives"
  let templates ← readTable "templates" (← mapTable doc "templates") fun path _ v =>
    readArity path v
  let aliases ← readTable "typeAliases" (← mapTable doc "typeAliases") fun path _ v =>
    readType path v
  let enums ← readTable "enums" (← mapTable doc "enums") readEnum
  let opaqueTypes ← listTable doc "opaqueTypes"
  let keyTypes ← readTable "keyTypes" (← mapTable doc "keyTypes") fun path _ v =>
    readType path v
  let records ← readTable "records" (← mapTable doc "records") readRecord
  let classes ← readTable "classes" (← mapTable doc "classes") readClass
  let interfaces ← readTable "interfaces" (← mapTable doc "interfaces") readInterface
  let mixed ← readMixedInfo (← mapTable doc "mixedInfo")
  return {
    headers, primitives, templates, aliases, enums, opaqueTypes, keyTypes, records, classes,
    interfaces, mixed }

end LuaGlue.Spec
