import LuaGlue.Proofs.Spec.Expressions
import LuaGlue.TypeExpr.Printer
import Mathlib.Control.Traversable.Instances
import Mathlib.Data.List.Permutation

/-!
# Canonical documents

`Spec.toDocument` writes a specification in one way out of the many that a document has: every type is
spelled by `TypeExpr.render`, every method is a list of overloads, every field and every overload a mapping,
and every option is written out, those that are null or false too.

- **What documents describe** (`readable_of_ofDocument`): the types are well formed, constructors name no
  result and a class with a shared handle is dereferenced.
- **Reading it back** (`Readable.ofDocument_toDocument`): such a specification is the one that its canonical
  document describes.
-/

namespace LuaGlue.Spec

open Document (Value Entries)

/-! ## Writing -/

/-- A table of which each entry is written by `write`. -/
def tableValue {α : Type} (write : α → Value) (table : Table α) : Value :=
  .map (table.map fun e => (e.1, write e.2))

/-- A type, as its text. -/
def typeValue (t : TypeExpr) : Value := .str t.render

/-- A function type, as its text. -/
def signatureValue (sig : Signature TypeExpr) : Value := typeValue (.func sig)

def Arity.toValue : Arity → Value
  | .exact n => .int n
  | .any => .str "*"

def EnumDecl.toValue (d : EnumDecl) : Value :=
  .map [(.str "cppName", d.native), (.str "values", .map d.values)]

/-- The default of a field is written only if the field has one. -/
def FieldDecl.toValue (d : FieldDecl) : Value :=
  .map ([(.str "type", typeValue d.type), (.str "cppName", d.native)]
    ++ d.default.toList.map fun text => (.str "default", .str text))

def RecordDecl.toValue (d : RecordDecl) : Value :=
  .map [(.str "cppName", d.native), (.str "fields", tableValue FieldDecl.toValue d.fields)]

def MethodDecl.toValue (d : MethodDecl) : Value :=
  .map [(.str "sig", signatureValue d.sig), (.str "cppName", d.native), (.str "suffix", d.suffix)]

/-- A table of methods, each a list of its overloads. -/
def methodsValue (table : Table (List MethodDecl)) : Value :=
  tableValue (fun ds => .list (ds.map MethodDecl.toValue)) table

/-- The options that a class and an interface both have. -/
def Surface.options (d : Surface) : Entries :=
  [(.str "cppName", d.native), (.str "base", d.base), (.str "sharedPtrWrapped", d.handle),
    (.str "methods", methodsValue d.methods), (.str "staticMethods", methodsValue d.statics)]

def Surface.toValue (d : Surface) : Value := .map d.options

/-- The element type of a class; null when it has none. -/
def iterableValue : Option TypeExpr → Value
  | some t => typeValue t
  | none => .null

def ClassDecl.toValue (d : ClassDecl) : Value :=
  .map (d.toSurface.options ++ [(.str "abstract", .bool d.isAbstract), (.str "needsDeref", .bool d.needsDeref),
    (.str "iterable", iterableValue d.iterable),
    (.str "constructors", tableValue signatureValue d.constructors),
    (.str "properties", tableValue typeValue d.properties)])

def MixedDecl.toValue (d : MixedDecl) : Value :=
  .map [(.str "type", typeValue d.type), (.str "getter", .str d.getter)]

def MixedInfo.toValue (d : MixedInfo) : Value :=
  .map [(.str "dataTypes", tableValue MixedDecl.toValue d.types), (.str "unusedDataTypes", .list d.unused),
    (.str "extraCtors", .list (d.extra.map typeValue))]

/-- The canonical document of a specification. -/
def toDocument (s : Spec) : Entries :=
  [(.str "headers", .list s.headers), (.str "primitives", .list s.primitives),
    (.str "templates", tableValue Arity.toValue s.templates), (.str "typeAliases", tableValue typeValue s.aliases),
    (.str "enums", tableValue EnumDecl.toValue s.enums), (.str "opaqueTypes", .list s.opaqueTypes),
    (.str "keyTypes", tableValue typeValue s.keyTypes), (.str "records", tableValue RecordDecl.toValue s.records),
    (.str "classes", tableValue ClassDecl.toValue s.classes),
    (.str "interfaces", tableValue Surface.toValue s.interfaces), (.str "mixedInfo", s.mixed.toValue)]

/-! ## What documents describe -/

/-- A class that some document describes, but for its types. -/
structure ClassDecl.Readable (d : ClassDecl) : Prop where
  constructors : ∀ c ∈ d.constructors, c.2.ret = .void
  deref : d.handle.truthy → d.needsDeref

/-- A specification that some document describes. -/
structure Readable (s : Spec) : Prop where
  aliases : ∀ a ∈ s.aliases, a.2.WellFormed
  expressions : ∀ e ∈ s.expressions, e.WellFormed
  classes : ∀ c ∈ s.classes, c.2.Readable

theorem readable_of_readClass {path : String} {name raw : Value} {d : ClassDecl}
    (h : readClass path name raw = .ok d) : d.Readable := by
  obtain ⟨options, -, hd⟩ := readClass_eq_ok.mp h
  refine ⟨hd.constructors.forall fun h => (readConstructor_eq_ok.mp h).2, fun hhandle => ?_⟩
  rw [hd.needsDeref, hhandle, Bool.or_true]

/-- What a document describes is `Readable`: reading refuses other results of constructors and reads types from
texts. -/
theorem readable_of_ofDocument {doc : Entries} {s : Spec} (h : ofDocument doc = .ok s) : s.Readable := by
  obtain ⟨haliases, hexpressions⟩ := wellFormed_of_ofDocument h
  exact ⟨haliases, hexpressions, (ofDocument_eq_ok.mp h).classes.forall readable_of_readClass⟩

/-! ## Reading back -/

section ReadingBack

variable {α : Type} {path : String} {name : Value}

theorem entriesOf_map (es : Entries) : entriesOf (.map es) = .ok es := by
  cases es <;> rfl

theorem itemsOf_list (items : List Value) : itemsOf (.list items) = .ok items := by
  cases items <;> rfl

/-- A table is read back if each of its entries is, whatever the paths are that errors would name. -/
theorem readTable_write {read : String → Value → Value → Except Error α} {write : α → Value} {t : Table α}
    (h : ∀ e ∈ t, ∀ path, read path e.1 (write e.2) = .ok e.2) :
    readTable path (t.map fun e => (e.1, write e.2)) read = .ok t := by
  refine Except.mapM_eq_ok.mpr (List.forall₂_map_left_iff.mpr (List.forall₂_same.mpr fun e he => ?_))
  exact Except.map_eq_ok.mpr ⟨e.2, h e he _, rfl⟩

theorem readsNested_tableValue {v : Value} {read : String → Value → Value → Except Error α} {write : α → Value}
    {t : Table α} (hv : v = tableValue write t)
    (h : ∀ e ∈ t, ∀ path, read path e.1 (write e.2) = .ok e.2) :
    ReadsNested path v read t := by
  rw [hv]
  exact ⟨_, entriesOf_map _, readTable_write h⟩

theorem readsTable_tableValue {doc : Entries} {key : String} {read : String → Value → Value → Except Error α}
    {write : α → Value} {t : Table α} (hdoc : doc.field key = tableValue write t)
    (h : ∀ e ∈ t, ∀ path, read path e.1 (write e.2) = .ok e.2) : ReadsTable doc key read t :=
  ⟨_, mapTable_eq_ok.mpr (.inr hdoc), readTable_write h⟩

/-- A type is read back from its text by the round trip of type expressions, which needs it to be well formed.
-/
theorem readType_typeValue {t : TypeExpr} (h : t.WellFormed) : readType path (typeValue t) = .ok t :=
  readType_eq_ok.mpr ⟨_, rfl, TypeExpr.parse_render_of_wellFormed h⟩

/-- No type is spelled by the empty text, so the text of an element type does not count as absent. -/
theorem truthy_typeValue {t : TypeExpr} (h : t.WellFormed) : (typeValue t).truthy := by
  rw [typeValue, Value.truthy, bne_iff_ne]
  intro hrender
  have hparse := TypeExpr.parse_render_of_wellFormed h
  rw [hrender] at hparse
  cbv at hparse
  cases hparse

theorem readSignature_signatureValue {sig : Signature TypeExpr} (h : (TypeExpr.func sig).WellFormed) :
    readSignature path (signatureValue sig) = .ok sig :=
  readSignature_eq_ok.mpr (readType_typeValue h)

theorem readArity_toValue (a : Arity) : readArity path a.toValue = .ok a := by
  cases a <;> rfl

theorem readEnum_toValue (d : EnumDecl) : readEnum path name d.toValue = .ok d := rfl

/-- A default is written as the text that it was read as, and a text is its own default text. -/
theorem readField_toValue {d : FieldDecl} (h : d.type.WellFormed) : readField path name d.toValue = .ok d := by
  obtain ⟨type, native, default⟩ := d
  have htype : readType path (typeValue type) = .ok type := readType_typeValue h
  cases default with
  | none =>
    show (readType path (typeValue type) >>= fun t => pure (FieldDecl.mk t native none)) = _
    rw [htype]
    rfl
  | some text =>
    show (readType path (typeValue type) >>= fun t => pure (FieldDecl.mk t native (some text))) = _
    rw [htype]
    rfl

theorem readRecord_toValue {d : RecordDecl} (h : ∀ f ∈ d.fields, f.2.type.WellFormed) :
    readRecord path name d.toValue = .ok d :=
  readRecord_eq_ok.mpr ⟨_, rfl, readsNested_tableValue rfl fun f hf _ => readField_toValue (h f hf), rfl⟩

theorem readOverload_toValue {d : MethodDecl} (h : (TypeExpr.func d.sig).WellFormed) :
    readOverload path d.toValue = .ok d := by
  show (readSignature path (signatureValue d.sig) >>= fun sig => pure (MethodDecl.mk sig d.native d.suffix)) = _
  rw [readSignature_signatureValue h]
  rfl

/-- Overloads are written as a list, also if there is only one, and a list is read item by item. -/
theorem readMethod_write {ds : List MethodDecl} (h : ∀ d ∈ ds, (TypeExpr.func d.sig).WellFormed) :
    readMethod path name (.list (ds.map MethodDecl.toValue)) = .ok ds := by
  match ds with
  | [] => rfl
  | [d] =>
    -- a single overload is read at the path of the method itself
    show (readOverload path d.toValue >>= fun d => pure [d]) = _
    rw [readOverload_toValue (h d (by simp))]
    rfl
  | d :: d' :: ds => exact Except.mapM_zipIdx_map fun d hd i => readOverload_toValue (h d hd)

theorem readsNested_methodsValue {t : Table (List MethodDecl)}
    (h : ∀ o ∈ overloads t, (TypeExpr.func o.2.sig).WellFormed) :
    ReadsNested path (methodsValue t) readMethod t := by
  refine readsNested_tableValue rfl fun e he path => readMethod_write fun d hd => ?_
  exact h (e.1, d) (List.mem_flatMap.mpr ⟨e, he, List.mem_map.mpr ⟨d, hd, rfl⟩⟩)

theorem Surface.readFrom_options {d : Surface} (more : Entries)
    (hm : ∀ o ∈ overloads d.methods, (TypeExpr.func o.2.sig).WellFormed)
    (hs : ∀ o ∈ overloads d.statics, (TypeExpr.func o.2.sig).WellFormed) :
    d.ReadFrom path name (d.options ++ more) :=
  ⟨rfl, rfl, rfl, readsNested_methodsValue hm, readsNested_methodsValue hs⟩

theorem readInterface_toValue {d : Surface} (h : ∀ e ∈ d.toClass.expressions, e.WellFormed) :
    readInterface path name d.toValue = .ok d := by
  obtain ⟨hmethods, hstatics, -⟩ := ClassDecl.forall_mem_expressions.mp h
  exact readInterface_eq_ok.mpr ⟨_, rfl, Surface.readFrom_options [] hmethods hstatics⟩

/-- An element type is a text that is truthy by `truthy_typeValue`, and none is written as null, which is not.
-/
theorem readsIterable_iterableValue {iterable : Option TypeExpr} (h : ∀ t ∈ iterable, t.WellFormed) :
    ReadsIterable path (iterableValue iterable) iterable := by
  cases iterable with
  | none => rfl
  | some t =>
    unfold ReadsIterable iterableValue
    rw [if_pos (truthy_typeValue (h t rfl)), readType_typeValue (h t rfl)]
    rfl

/-- Every option of a class is written out, so nothing is left to a default. A class with a handle is
dereferenced by `ClassDecl.Readable`. -/
theorem readClass_toValue {d : ClassDecl} (hd : d.Readable) (h : ∀ e ∈ d.expressions, e.WellFormed) :
    readClass path name d.toValue = .ok d := by
  obtain ⟨hmethods, hstatics, hiterable, hconstructors, hproperties⟩ := ClassDecl.forall_mem_expressions.mp h
  refine readClass_eq_ok.mpr ⟨_, rfl, {
    surface := Surface.readFrom_options _ hmethods hstatics
    isAbstract := rfl
    needsDeref := ?_
    iterable := readsIterable_iterableValue hiterable
    constructors := readsNested_tableValue rfl fun c hc path => readConstructor_eq_ok.mpr
      ⟨readSignature_signatureValue (hconstructors c hc), hd.constructors c hc⟩
    properties := readsNested_tableValue rfl fun p hp _ => readType_typeValue (hproperties p hp) }⟩
  -- what is written is what the class needs already, so that the handle adds nothing to it
  show d.needsDeref = (d.needsDeref || d.handle.truthy)
  cases hhandle : d.handle.truthy with
  | true => rw [hd.deref hhandle, Bool.or_true]
  | false => rw [Bool.or_false]

theorem readMixedDecl_toValue {d : MixedDecl} (h : d.type.WellFormed) :
    readMixedDecl path name d.toValue = .ok d := by
  show (readType path (typeValue d.type) >>= fun t => pure (MixedDecl.mk t d.getter)) = _
  rw [readType_typeValue h]
  rfl

theorem MixedInfo.readFrom_toValue {d : MixedInfo} (htypes : ∀ e ∈ d.types, e.2.type.WellFormed)
    (hextra : ∀ t ∈ d.extra, t.WellFormed) : ∃ es, d.toValue = .map es ∧ d.ReadFrom es :=
  ⟨_, rfl, readsNested_tableValue rfl fun e he _ => readMixedDecl_toValue (htypes e he), itemsOf_list _, _,
    itemsOf_list _, Except.mapM_zipIdx_map fun t ht _ => readType_typeValue (hextra t ht)⟩

/-- **Reading back.** A specification that some document describes is described by its canonical document, table
by table. -/
theorem Readable.ofDocument_toDocument {s : Spec} (h : s.Readable) : ofDocument s.toDocument = .ok s := by
  obtain ⟨hrecords, hkeyTypes, hclasses, htypes, hextra⟩ := forall_mem_expressions.mp h.expressions
  rw [allClasses, List.forall_mem_append, List.forall_mem_map, List.forall_mem_map] at hclasses
  obtain ⟨hclasses, hinterfaces⟩ := hclasses
  obtain ⟨es, hes, hmixed⟩ := MixedInfo.readFrom_toValue htypes hextra
  exact ofDocument_eq_ok.mpr {
    headers := rfl
    primitives := rfl
    templates := readsTable_tableValue rfl fun e _ _ => readArity_toValue e.2
    aliases := readsTable_tableValue rfl fun e he _ => readType_typeValue (h.aliases e he)
    enums := readsTable_tableValue rfl fun e _ _ => readEnum_toValue e.2
    opaqueTypes := rfl
    keyTypes := readsTable_tableValue rfl fun e he _ => readType_typeValue (hkeyTypes e he)
    records := readsTable_tableValue rfl fun e he _ => readRecord_toValue (hrecords e he)
    classes := readsTable_tableValue rfl fun e he _ => readClass_toValue (h.classes e he) (hclasses e he)
    interfaces := readsTable_tableValue rfl fun e he _ => readInterface_toValue (hinterfaces e he)
    mixed := ⟨es, mapTable_eq_ok.mpr (.inr hes), hmixed⟩ }

end ReadingBack

/-- **Canonical documents.** The canonical document of what a document describes describes the same, so
`toDocument` picks one document for each specification that can be read. -/
theorem ofDocument_canonical {doc : Entries} {s : Spec} (h : ofDocument doc = .ok s) :
    ofDocument s.toDocument = .ok s :=
  (readable_of_ofDocument h).ofDocument_toDocument

/-- A document in which everything is written in its short form. -/
def sceneDocument : Entries :=
  [(.str "templates", .map [(.str "Array", .str "any")]),
    (.str "enums", .map [(.str "Side", .map [(.str "values", .list [.str "Left", .str "Right"])])]),
    (.str "records", .map [(.str "Point", .map [(.str "fields", .map [(.str "x", .str "float"),
      (.str "y", .map [(.str "type", .str "float"), (.str "default", .int 1)])])])]),
    (.str "classes", .map [(.str "Scene", .map [(.str "sharedPtrWrapped", .str "Handle"),
      (.str "iterable", .str "Point"), (.str "constructors", .map [(.str "new", .str "()")]),
      (.str "methods", .map [(.str "points", .str "() const -> Array<Point>"), (.str "old", .list [])])])])]

/-- What it describes. -/
def scene : Spec where
  templates := [(.str "Array", .any)]
  enums := [(.str "Side", ⟨.str "Side", [(.str "Left", .int 0), (.str "Right", .int 1)]⟩)]
  records := [(.str "Point", ⟨.str "Point",
    [(.str "x", ⟨.named "float", .str "x", none⟩), (.str "y", ⟨.named "float", .str "y", some "1"⟩)]⟩)]
  classes := [(.str "Scene", {
    native := .str "Scene"
    base := .null
    handle := .str "Handle"
    methods := [(.str "points", [{ sig := ⟨[], .template "Array" [.named "Point"], { const := true }⟩ }]),
      (.str "old", [])]
    statics := []
    needsDeref := true
    iterable := some (.named "Point")
    constructors := [(.str "new", ⟨[], .void, {}⟩)] })]

/-- The short forms of `sceneDocument` and the long ones of its canonical document describe the same. -/
theorem ofDocument_canonical_scene :
    ofDocument sceneDocument = .ok scene ∧ ofDocument scene.toDocument = .ok scene := by
  have hread : ofDocument sceneDocument = .ok scene := by cbv
  exact ⟨hread, ofDocument_canonical hread⟩

end LuaGlue.Spec
