import LuaGlue.Model.Bind
import LuaGlue.Proofs.Spec.Reading
import LuaGlue.Proofs.TypeExpr.RoundTrip

/-!
# The type expressions of a specification

- **Where they stand** (`expressions`): in records, key types, classes and the alternatives of `Mixed`;
  the aliases are apart, because their order matters.
- **Read from a document** (`wellFormed_of_ofDocument`): every type expression of a specification, the
  aliases included, is one that a text spells.
-/

namespace LuaGlue.Spec

open Document (Value Entries)

/-- The overloads of a table of methods, each with its name. -/
def overloads (table : Table (List MethodDecl)) : List (Value × MethodDecl) :=
  table.flatMap fun e => e.2.map fun d => (e.1, d)

/-- The methods of a class, those on instances first. -/
def ClassDecl.overloads (d : ClassDecl) : List (Value × MethodDecl) :=
  Spec.overloads d.methods ++ Spec.overloads d.statics

/-- The type expressions of a class. -/
def ClassDecl.expressions (d : ClassDecl) : List TypeExpr :=
  d.overloads.map (fun o => .func o.2.sig) ++ d.iterable.toList
    ++ d.constructors.map (fun c => .func c.2) ++ d.properties.map (·.2)

/-- The type expressions of a specification but its aliases. -/
def expressions (s : Spec) : List TypeExpr :=
  s.records.flatMap (fun e => e.2.fields.map (·.2.type)) ++ s.keyTypes.map (·.2)
    ++ s.allClasses.flatMap (·.2.1.expressions)
    ++ s.mixed.types.map (·.2.type) ++ s.mixed.extra

theorem ClassDecl.forall_mem_expressions {P : TypeExpr → Prop} {d : ClassDecl} :
    (∀ e ∈ d.expressions, P e) ↔ (∀ o ∈ Spec.overloads d.methods, P (.func o.2.sig)) ∧
      (∀ o ∈ Spec.overloads d.statics, P (.func o.2.sig)) ∧ (∀ t ∈ d.iterable, P t) ∧
      (∀ c ∈ d.constructors, P (.func c.2)) ∧ ∀ p ∈ d.properties, P p.2 := by
  simp only [expressions, ClassDecl.overloads, List.map_append, List.forall_mem_append,
    List.forall_mem_map, Option.mem_toList, Option.mem_def, and_assoc]

/-- A statement about all expressions of a specification, taken apart into the tables where they stand. -/
theorem forall_mem_expressions {P : TypeExpr → Prop} {s : Spec} :
    (∀ e ∈ s.expressions, P e) ↔ (∀ e ∈ s.records, ∀ f ∈ e.2.fields, P f.2.type) ∧
      (∀ e ∈ s.keyTypes, P e.2) ∧ (∀ e ∈ s.allClasses, ∀ t ∈ e.2.1.expressions, P t) ∧
      (∀ e ∈ s.mixed.types, P e.2.type) ∧ ∀ t ∈ s.mixed.extra, P t := by
  simp only [expressions, List.forall_mem_append, List.forall_mem_flatMap, List.forall_mem_map,
    and_assoc]

/-! ## Reading -/

/-- What holds of every entry that is read holds of the table. -/
theorem forall_of_readTable {α : Type} {P : α → Prop} {path : String} {entries : Entries}
    {read : String → Value → Value → Except Error α} {table : Table α}
    (hread : ∀ {path key v a}, read path key v = .ok a → P a)
    (h : readTable path entries read = .ok table) : ∀ e ∈ table, P e.2 := by
  intro e he
  obtain ⟨entry, -, hentry⟩ := Except.exists_of_mem_mapM h he
  obtain ⟨a, ha, rfl⟩ := Except.map_eq_ok.mp hentry
  exact hread ha

theorem ReadsTable.forall {α : Type} {P : α → Prop} {doc : Entries} {key : String}
    {read : String → Value → Value → Except Error α} {table : Table α} (h : ReadsTable doc key read table)
    (hread : ∀ {path key v a}, read path key v = .ok a → P a) : ∀ e ∈ table, P e.2 := by
  obtain ⟨entries, -, h⟩ := h
  exact forall_of_readTable hread h

theorem ReadsNested.forall {α : Type} {P : α → Prop} {path : String} {v : Value}
    {read : String → Value → Value → Except Error α} {table : Table α} (h : ReadsNested path v read table)
    (hread : ∀ {path key v a}, read path key v = .ok a → P a) : ∀ e ∈ table, P e.2 := by
  obtain ⟨entries, -, h⟩ := h
  exact forall_of_readTable hread h

/-- A type is read from a text, and what `parse` gives is well formed. -/
theorem wellFormed_of_readType {path : String} {v : Value} {t : TypeExpr}
    (h : readType path v = .ok t) : t.WellFormed := by
  obtain ⟨text, -, hparse⟩ := readType_eq_ok.mp h
  exact TypeExpr.wellFormed_of_parse hparse

theorem wellFormed_of_readSignature {path : String} {v : Value} {sig : Signature TypeExpr}
    (h : readSignature path v = .ok sig) : (TypeExpr.func sig).WellFormed :=
  wellFormed_of_readType (readSignature_eq_ok.mp h)

theorem wellFormed_of_readConstructor {path : String} {v : Value} {sig : Signature TypeExpr}
    (h : readConstructor path v = .ok sig) : (TypeExpr.func sig).WellFormed :=
  wellFormed_of_readSignature (readConstructor_eq_ok.mp h).1

theorem wellFormed_of_readField {path : String} {name v : Value} {d : FieldDecl}
    (h : readField path name v = .ok d) : d.type.WellFormed := by
  unfold readField at h
  split at h
  · obtain ⟨t, ht, h⟩ := Except.bind_eq_ok.mp h
    cases h
    exact wellFormed_of_readType ht
  · obtain ⟨options, -, h⟩ := Except.bind_eq_ok.mp h
    obtain ⟨t, ht, h⟩ := Except.bind_eq_ok.mp h
    obtain ⟨default, -, h⟩ := Except.bind_eq_ok.mp h
    cases h
    exact wellFormed_of_readType ht

theorem wellFormed_of_readRecord {path : String} {name v : Value} {d : RecordDecl}
    (h : readRecord path name v = .ok d) : ∀ f ∈ d.fields, f.2.type.WellFormed := by
  obtain ⟨options, -, hfields, -⟩ := readRecord_eq_ok.mp h
  exact hfields.forall wellFormed_of_readField

theorem wellFormed_of_readOverload {path : String} {v : Value} {d : MethodDecl}
    (h : readOverload path v = .ok d) : (TypeExpr.func d.sig).WellFormed := by
  unfold readOverload at h
  split at h
  · obtain ⟨sig, hsig, h⟩ := Except.bind_eq_ok.mp h
    cases h
    exact wellFormed_of_readSignature hsig
  · obtain ⟨sig, hsig, h⟩ := Except.bind_eq_ok.mp h
    cases h
    exact wellFormed_of_readSignature hsig
  · cases h

/-- The three forms of a method, a signature, an entry and a list of overloads, all end in `readOverload`. -/
theorem wellFormed_of_readMethod {path : String} {name v : Value} {ds : List MethodDecl}
    (h : readMethod path name v = .ok ds) : ∀ d ∈ ds, (TypeExpr.func d.sig).WellFormed := by
  intro d hd
  unfold readMethod at h
  split at h
  · obtain ⟨d', hd', h⟩ := Except.bind_eq_ok.mp h
    cases h
    rw [List.mem_singleton.mp hd]
    exact wellFormed_of_readOverload hd'
  · obtain ⟨raw, -, hraw⟩ := Except.exists_of_mem_mapM h hd
    exact wellFormed_of_readOverload hraw
  · obtain ⟨d', hd', h⟩ := Except.bind_eq_ok.mp h
    cases h
    rw [List.mem_singleton.mp hd]
    exact wellFormed_of_readOverload hd'

theorem ReadsNested.wellFormed_overloads {path : String} {v : Value} {table : Table (List MethodDecl)}
    (h : ReadsNested path v readMethod table) :
    ∀ o ∈ overloads table, (TypeExpr.func o.2.sig).WellFormed := by
  intro o ho
  obtain ⟨e, he, ho⟩ := List.mem_flatMap.mp ho
  obtain ⟨d, hd, rfl⟩ := List.mem_map.mp ho
  exact h.forall wellFormed_of_readMethod e he d hd

theorem wellFormed_of_readInterface {path : String} {name v : Value} {d : Surface}
    (h : readInterface path name v = .ok d) : ∀ e ∈ d.toClass.expressions, e.WellFormed := by
  obtain ⟨options, -, hd⟩ := readInterface_eq_ok.mp h
  refine ClassDecl.forall_mem_expressions.mpr
    ⟨hd.methods.wellFormed_overloads, hd.statics.wellFormed_overloads, ?_, ?_, ?_⟩
  · rintro t ⟨⟩
  · rintro c ⟨⟩
  · rintro p ⟨⟩

theorem ReadsIterable.wellFormed {path : String} {v : Value} {iterable : Option TypeExpr}
    (h : ReadsIterable path v iterable) : ∀ t ∈ iterable, t.WellFormed := by
  intro t ht
  cases ht
  unfold ReadsIterable at h
  split at h
  · obtain ⟨u, hu, ⟨⟩⟩ := Except.map_eq_ok.mp h
    exact wellFormed_of_readType hu
  · cases h

/-- All expressions of a class come from readers of types, signatures and constructors. -/
theorem wellFormed_of_readClass {path : String} {name v : Value} {d : ClassDecl}
    (h : readClass path name v = .ok d) : ∀ e ∈ d.expressions, e.WellFormed := by
  obtain ⟨options, -, hd⟩ := readClass_eq_ok.mp h
  exact ClassDecl.forall_mem_expressions.mpr ⟨hd.surface.methods.wellFormed_overloads,
    hd.surface.statics.wellFormed_overloads, hd.iterable.wellFormed,
    hd.constructors.forall wellFormed_of_readConstructor, hd.properties.forall wellFormed_of_readType⟩

theorem wellFormed_of_readMixedDecl {path : String} {name v : Value} {d : MixedDecl}
    (h : readMixedDecl path name v = .ok d) : d.type.WellFormed := by
  obtain ⟨options, -, h⟩ := Except.bind_eq_ok.mp h
  split at h
  · obtain ⟨t, ht, h⟩ := Except.bind_eq_ok.mp h
    cases h
    exact wellFormed_of_readType ht
  · cases h

theorem MixedInfo.ReadFrom.wellFormed {raw : Entries} {d : MixedInfo} (h : d.ReadFrom raw) :
    (∀ e ∈ d.types, e.2.type.WellFormed) ∧ ∀ t ∈ d.extra, t.WellFormed := by
  refine ⟨h.types.forall wellFormed_of_readMixedDecl, fun t ht => ?_⟩
  obtain ⟨items, -, hextra⟩ := h.extra
  obtain ⟨item, -, hitem⟩ := Except.exists_of_mem_mapM hextra ht
  exact wellFormed_of_readType hitem

/-- **Read expressions are well formed.** Every type expression of a specification that is read from a
document is one that a text spells. -/
theorem wellFormed_of_ofDocument {doc : Entries} {s : Spec} (h : ofDocument doc = .ok s) :
    (∀ a ∈ s.aliases, a.2.WellFormed) ∧ ∀ e ∈ s.expressions, e.WellFormed := by
  have hs := ofDocument_eq_ok.mp h
  obtain ⟨raw, -, hmixed⟩ := hs.mixed
  refine ⟨hs.aliases.forall wellFormed_of_readType, forall_mem_expressions.mpr
    ⟨hs.records.forall wellFormed_of_readRecord, hs.keyTypes.forall wellFormed_of_readType, ?_,
      hmixed.wellFormed⟩⟩
  rw [allClasses, List.forall_mem_append, List.forall_mem_map, List.forall_mem_map]
  exact ⟨hs.classes.forall wellFormed_of_readClass, hs.interfaces.forall wellFormed_of_readInterface⟩

end LuaGlue.Spec
