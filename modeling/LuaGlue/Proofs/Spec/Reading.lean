import LuaGlue.Proofs.Except
import LuaGlue.Spec.Reader

/-!
# When reading succeeds

What each reader makes of its entry, read off once: a reader succeeds with a declaration exactly when
every part of the declaration is what the entry gives for it (`readClass_eq_ok`, `readMixedInfo_eq_ok`,
`ofDocument_eq_ok`).
-/

namespace LuaGlue.Spec

open Document (Value Entries)

variable {α : Type} {path : String} {name raw v : Value}

/-! ## Tables -/

/-- A table that is missing or null is empty; any other is a list. -/
theorem listTable_eq_ok {doc : Entries} {key : String} {items : List Value} :
    listTable doc key = .ok items ↔
      doc.field key = .null ∧ items = [] ∨ doc.field key = .list items := by
  unfold listTable
  cases doc.field key <;> simp [malformed, eq_comm]

theorem mapTable_eq_ok {doc : Entries} {key : String} {entries : Entries} :
    mapTable doc key = .ok entries ↔
      doc.field key = .null ∧ entries = [] ∨ doc.field key = .map entries := by
  unfold mapTable
  cases doc.field key <;> simp [malformed, eq_comm]

/-- A table of a document, read entry by entry. -/
def ReadsTable (doc : Entries) (key : String) (read : String → Value → Value → Except Error α)
    (t : Table α) : Prop :=
  ∃ es, mapTable doc key = .ok es ∧ readTable key es read = .ok t

/-- A table inside an entry, read entry by entry. -/
def ReadsNested (path : String) (v : Value) (read : String → Value → Value → Except Error α)
    (t : Table α) : Prop :=
  ∃ es, entriesOf v = .ok es ∧ readTable path es read = .ok t

/-! ## Types -/

theorem readType_eq_ok {t : TypeExpr} :
    readType path v = .ok t ↔ ∃ text, v = .str text ∧ parse text = .ok t := by
  cases v with
  | str text =>
    rw [readType]
    split <;> rename_i hparse <;> simp [hparse, malformed]
  | _ => simp [readType, malformed]

/-- A signature is a type that is a function. -/
theorem readSignature_eq_ok {sig : Signature TypeExpr} :
    readSignature path v = .ok sig ↔ readType path v = .ok (.func sig) := by
  rw [readSignature, Except.bind_eq_ok]
  constructor
  · rintro ⟨t, ht, h⟩
    split at h
    · cases h
      exact ht
    · cases h
  · intro h
    exact ⟨_, h, rfl⟩

/-- A constructor is a signature that names `void` for its result. -/
theorem readConstructor_eq_ok {sig : Signature TypeExpr} :
    readConstructor path v = .ok sig ↔
      readSignature path v = .ok sig ∧ sig.ret = .named "void" := by
  rw [readConstructor, Except.bind_eq_ok]
  constructor
  · rintro ⟨sig', hsig, h⟩
    split at h
    · rename_i hret
      cases h
      exact ⟨hsig, hret⟩
    · cases h
  · rintro ⟨hsig, hret⟩
    exact ⟨sig, hsig, by simp [hret]⟩

/-! ## Entities -/

theorem readRecord_eq_ok {d : RecordDecl} :
    readRecord path name raw = .ok d ↔ ∃ options, entryOptions path raw = .ok options ∧
      ReadsNested (path ++ ".fields") (options.field "fields") readField d.fields ∧
      d.native = options.fieldD "cppName" name := by
  simp only [readRecord, Except.bind_eq_ok, Except.pure_eq_ok_iff]
  constructor
  · rintro ⟨options, hoptions, es, hes, fields, hfields, rfl⟩
    exact ⟨options, hoptions, ⟨es, hes, hfields⟩, rfl⟩
  · rintro ⟨options, hoptions, ⟨es, hes, hfields⟩, hnative⟩
    exact ⟨options, hoptions, es, hes, _, hfields, by rw [← hnative]⟩

theorem readMethods_eq_ok {t : Table (List MethodDecl)} :
    readMethods path raw = .ok t ↔ ReadsNested path raw readMethod t := by
  rw [readMethods, Except.bind_eq_ok, ReadsNested]

/-- What the options of a class or an interface say of what both declare. -/
structure Surface.ReadFrom (path : String) (name : Value) (options : Entries) (d : Surface) : Prop where
  native : d.native = options.fieldD "cppName" name
  base : d.base = options.field "base"
  handle : d.handle = options.field "sharedPtrWrapped"
  methods : ReadsNested (path ++ ".methods") (options.field "methods") readMethod d.methods
  statics : ReadsNested (path ++ ".staticMethods") (options.field "staticMethods") readMethod d.statics

/-- The element type of a class, if its options give one. -/
def ReadsIterable (path : String) (v : Value) (t : Option TypeExpr) : Prop :=
  (if v.truthy then some <$> readType path v else .ok none) = .ok t

/-- What the options of a class say of it. -/
structure ClassDecl.ReadFrom (path : String) (name : Value) (options : Entries) (d : ClassDecl) : Prop where
  surface : d.toSurface.ReadFrom path name options
  isAbstract : d.isAbstract = (options.field "abstract").truthy
  needsDeref : d.needsDeref = ((options.field "needsDeref").truthy || d.handle.truthy)
  iterable : ReadsIterable (path ++ ".iterable") (options.field "iterable") d.iterable
  constructors : ReadsNested (path ++ ".constructors") (options.field "constructors")
    (fun path _ v => readConstructor path v) d.constructors
  properties : ReadsNested (path ++ ".properties") (options.field "properties")
    (fun path _ v => readType path v) d.properties

/-- Reading a class reads its options one by one; `ClassDecl.ReadFrom` has a field for each. -/
theorem readClass_eq_ok {d : ClassDecl} :
    readClass path name raw = .ok d ↔
      ∃ options, entryOptions path raw = .ok options ∧ d.ReadFrom path name options := by
  rw [readClass, Except.bind_eq_ok]
  simp only [Except.ite_bind_eq_ok]
  simp only [Except.bind_eq_ok, Except.pure_eq_ok_iff, readMethods_eq_ok]
  constructor
  · rintro ⟨options, hoptions, iterable, hiterable, cs, hcs, constructors, hconstructors, methods, hmethods,
      statics, hstatics, ps, hps, properties, hproperties, rfl⟩
    exact ⟨options, hoptions, ⟨rfl, rfl, rfl, hmethods, hstatics⟩, rfl, rfl, hiterable,
      ⟨cs, hcs, hconstructors⟩, ps, hps, hproperties⟩
  · rintro ⟨options, hoptions, ⟨⟨hnative, hbase, hhandle, hmethods, hstatics⟩, habstract, hderef, hiterable,
      ⟨cs, hcs, hconstructors⟩, ps, hps, hproperties⟩⟩
    exact ⟨options, hoptions, _, hiterable, cs, hcs, _, hconstructors, _, hmethods, _, hstatics, ps, hps, _,
      hproperties, by rw [← hnative, ← hbase, ← hhandle, ← habstract, ← hderef]⟩

theorem readInterface_eq_ok {d : Surface} :
    readInterface path name raw = .ok d ↔
      ∃ options, entryOptions path raw = .ok options ∧ d.ReadFrom path name options := by
  simp only [readInterface, Except.bind_eq_ok, Except.pure_eq_ok_iff, readMethods_eq_ok]
  constructor
  · rintro ⟨options, hoptions, methods, hmethods, statics, hstatics, rfl⟩
    exact ⟨options, hoptions, rfl, rfl, rfl, hmethods, hstatics⟩
  · rintro ⟨options, hoptions, hnative, hbase, hhandle, hmethods, hstatics⟩
    exact ⟨options, hoptions, _, hmethods, _, hstatics, by rw [← hnative, ← hbase, ← hhandle]⟩

/-- What the mixed information of a document says. -/
structure MixedInfo.ReadFrom (raw : Entries) (d : MixedInfo) : Prop where
  types : ReadsNested "mixedInfo.dataTypes" (raw.field "dataTypes") readMixedDecl d.types
  unused : itemsOf (raw.field "unusedDataTypes") = .ok d.unused
  extra : ∃ items, itemsOf (raw.field "extraCtors") = .ok items ∧ items.zipIdx.mapM (fun (v, i) =>
    readType ("mixedInfo.extraCtors[" ++ toString i ++ "]") v) = .ok d.extra

theorem readMixedInfo_eq_ok {raw : Entries} {d : MixedInfo} :
    readMixedInfo raw = .ok d ↔ d.ReadFrom raw := by
  simp only [readMixedInfo, Except.bind_eq_ok, Except.pure_eq_ok_iff]
  constructor
  · rintro ⟨es, hes, types, htypes, unused, hunused, items, hitems, extra, hextra, rfl⟩
    exact ⟨⟨es, hes, htypes⟩, hunused, items, hitems, hextra⟩
  · rintro ⟨⟨es, hes, htypes⟩, hunused, items, hitems, hextra⟩
    exact ⟨es, hes, _, htypes, _, hunused, items, hitems, _, hextra, rfl⟩

/-! ## Documents -/

/-- The mixed information of a document. -/
def ReadsMixedInfo (doc : Entries) (m : MixedInfo) : Prop :=
  ∃ es, mapTable doc "mixedInfo" = .ok es ∧ m.ReadFrom es

/-- What the tables of a document say. -/
structure ReadFrom (doc : Entries) (s : Spec) : Prop where
  headers : listTable doc "headers" = .ok s.headers
  primitives : listTable doc "primitives" = .ok s.primitives
  templates : ReadsTable doc "templates" (fun path _ v => readArity path v) s.templates
  aliases : ReadsTable doc "typeAliases" (fun path _ v => readType path v) s.aliases
  enums : ReadsTable doc "enums" readEnum s.enums
  opaqueTypes : listTable doc "opaqueTypes" = .ok s.opaqueTypes
  keyTypes : ReadsTable doc "keyTypes" (fun path _ v => readType path v) s.keyTypes
  records : ReadsTable doc "records" readRecord s.records
  classes : ReadsTable doc "classes" readClass s.classes
  interfaces : ReadsTable doc "interfaces" readInterface s.interfaces
  mixed : ReadsMixedInfo doc s.mixed

/-- Reading a document reads its tables one by one; `ReadFrom` has a field for each. Other modules start from
this and never unfold `ofDocument`. -/
theorem ofDocument_eq_ok {doc : Entries} {s : Spec} : ofDocument doc = .ok s ↔ s.ReadFrom doc := by
  simp only [ofDocument, Except.bind_eq_ok, Except.pure_eq_ok_iff, readMixedInfo_eq_ok]
  constructor
  · rintro ⟨headers, hheaders, primitives, hprimitives, ts, hts, templates, htemplates, as, has, aliases,
      haliases, es, hes, enums, henums, opaqueTypes, hopaqueTypes, ks, hks, keyTypes, hkeyTypes, rs, hrs,
      records, hrecords, cs, hcs, classes, hclasses, is, his, interfaces, hinterfaces, ms, hms, mixed, hmixed,
      rfl⟩
    exact ⟨hheaders, hprimitives, ⟨ts, hts, htemplates⟩, ⟨as, has, haliases⟩, ⟨es, hes, henums⟩, hopaqueTypes,
      ⟨ks, hks, hkeyTypes⟩, ⟨rs, hrs, hrecords⟩, ⟨cs, hcs, hclasses⟩, ⟨is, his, hinterfaces⟩, ms, hms, hmixed⟩
  · rintro ⟨hheaders, hprimitives, ⟨ts, hts, htemplates⟩, ⟨as, has, haliases⟩, ⟨es, hes, henums⟩, hopaqueTypes,
      ⟨ks, hks, hkeyTypes⟩, ⟨rs, hrs, hrecords⟩, ⟨cs, hcs, hclasses⟩, ⟨is, his, hinterfaces⟩, ms, hms, hmixed⟩
    exact ⟨_, hheaders, _, hprimitives, ts, hts, _, htemplates, as, has, _, haliases, es, hes, _, henums, _,
      hopaqueTypes, ks, hks, _, hkeyTypes, rs, hrs, _, hrecords, cs, hcs, _, hclasses, is, his, _, hinterfaces,
      ms, hms, _, hmixed, rfl⟩

end LuaGlue.Spec
