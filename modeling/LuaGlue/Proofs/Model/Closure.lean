import LuaGlue.Proofs.Model.Bindable
import LuaGlue.Proofs.Model.ClassOrder

/-!
# The graph of a model is closed

The types of a model refer to its entities by name. Nothing that they refer to is missing.

- **Nodes** (`Model.Reachable`): the types that a model mentions in aliases, fields, key types, members,
  bases and the alternatives of `Mixed`, and all that these are made of.
- **References** (`Model.Bound`): an entity is the one that the registry holds under its name and stands
  once in its list; a template is declared and takes its arguments, or is a shared handle.
- **Closure** (`Model.Closed`): the names of the registry are those of the specification, table after
  table, and every node of the graph is bound.
-/

namespace LuaGlue

open Document (Value)
open Document.Value (Distinct)

/-! ## Nodes -/

/-- The type `u` is the given one or stands in it. -/
inductive Ty.Within (u : Ty) : Ty → Prop
  | self : Within u u
  | arg {n args a} : a ∈ args → Within u a → Within u (.template n args)
  | param {params ret quals p} : p ∈ params → Within u p.2 → Within u (.func ⟨params, ret, quals⟩)
  | ret {params ret quals} : Within u ret → Within u (.func ⟨params, ret, quals⟩)
  | inner {m t} : Within u t → Within u (.modified m t)

namespace Model

/-- The type stands in the model by itself. The registry holds the aliases after all other names. -/
inductive Mentions (m : Model) (s : Spec) : Ty → Prop
  | aliased {e} : e ∈ m.registry.types.drop s.entityNames.length → Mentions m s e.2
  | field {r f} : r ∈ m.records → f ∈ r.fields → Mentions m s f.type
  | keyType {k} : k ∈ m.keyTypes → Mentions m s k.2
  | method {c x} : c ∈ m.classes → x ∈ c.methods → Mentions m s (.func x.sig)
  | owner {c x} : c ∈ m.classes → x ∈ c.methods → Mentions m s (.object x.owner)
  | base {c b} : c ∈ m.classes → c.base = some b → Mentions m s (.object b)
  | iterable {c t} : c ∈ m.classes → c.iterable = some t → Mentions m s t
  | getter {g} : g ∈ m.mixed.getters → Mentions m s g.type
  | ctor {t} : t ∈ m.mixed.ctors → Mentions m s t

/-- The type is a node of the graph. What belongs to a class, a record or a key type is mentioned by the
model itself, so no step leads from an entity to its parts. -/
def Reachable (m : Model) (s : Spec) (u : Ty) : Prop := ∃ t, m.Mentions s t ∧ u.Within t

/-- What the node refers to is there: an entity under its name and once in its list, a template that is
declared with so many arguments. The handle of a shared class needs no declared template. -/
def Bound (m : Model) (s : Spec) : Ty → Prop
  | .primitive n => m.registry.find? (.str n) = some (.primitive n)
  | .object c => m.registry.find? (.str c.name) = some (.object c) ∧
      ∃ x, m.classes.filter (·.name == c.name) = [x] ∧ x.ref = c
  | .record r => m.registry.find? (.str r.name) = some (.record r) ∧
      ∃ x, m.records.filter (·.ref.name == r.name) = [x] ∧ x.ref = r
  | .enumeration e => m.registry.find? (.str e.name) = some (.enumeration e) ∧
      ∃ x, m.enums.filter (·.ref.name == e.name) = [x] ∧ x.ref = e
  | .opaqueType n => m.registry.find? (.str n) = some (.opaqueType n) ∧
      m.opaqueTypes.filter (· == n) = [n]
  | .keyType n => m.registry.find? (.str n) = some (.keyType n) ∧
      ∃ t, m.keyTypes.filter (·.1 == n) = [(n, t)] ∧ m.keyType? n = some t
  | .template n args => (∃ arity, s.arity? n = some arity ∧ arity.Accepts args.length) ∨
      n = sharedPtrName ∧ ∃ c, args = [.object c] ∧ c.shared
  | .func _ => True
  | .modified _ _ => True

/-- Every node in the type is bound. -/
def BoundWithin (m : Model) (s : Spec) (t : Ty) : Prop := ∀ u, u.Within t → m.Bound s u

end Model

/-! ## Names of entities -/

namespace Spec

variable {s : Spec} {r : Registry}

/-- Values that are texts differ as texts if they differ as values; for other values `Value.text` could make
them equal. -/
theorem nodup_texts {names : List Value} (hd : Distinct names)
    (h : ∀ v ∈ names, ∃ n, v = .str n) : (names.map Value.text).Nodup := by
  rw [List.Nodup, List.pairwise_map]
  refine hd.imp_of_mem fun {a b} ha hb hne heq => ?_
  obtain ⟨n, rfl⟩ := h a ha
  obtain ⟨k, rfl⟩ := h b hb
  have hnk : n = k := heq
  exact hne (by simp [hnk])

/-- The names of enumerations, records, key types and opaque types. -/
def dataNames (s : Spec) : List Value :=
  s.enums.map (·.1) ++ s.records.map (·.1) ++ s.keyTypes.map (·.1) ++ s.opaqueTypes

theorem dataNames_sublist : s.dataNames.Sublist s.names := by
  have hentities : s.dataNames.Sublist s.entityNames := by
    have hsplit : s.entityNames = s.primitives ++ s.allClasses.flatMap classNames ++ s.dataNames := by
      simp [entityNames, dataNames]
    rw [hsplit]
    exact List.sublist_append_right _ _
  exact hentities.trans (List.sublist_append_left _ _)

/-- Within a table the names of the entities are texts without repetition, since no name is declared twice in
all of `s.names`. -/
theorem nodup_tables (h : Registry.ofSpec s = .ok r) :
    (s.enums.map (·.1.text)).Nodup ∧ (s.records.map (·.1.text)).Nodup ∧
      (s.keyTypes.map (·.1.text)).Nodup ∧ (s.opaqueTypes.map Value.text).Nodup := by
  obtain ⟨hlegal, -, hd, -⟩ := ofSpec_ok_iff.mp ⟨r, h⟩
  have hplain := forall_legal.mp fun d hd => (hlegal d hd).1
  have htexts : (s.dataNames.map Value.text).Nodup := by
    refine nodup_texts (hd.sublist dataNames_sublist) fun v hv => ?_
    have hsplit : s.plainNames = s.allClasses.map (·.1) ++ s.dataNames := by
      simp [plainNames, dataNames]
    obtain ⟨n, hn, -⟩ := hplain v (hsplit ▸ List.mem_append_right _ hv)
    exact ⟨n, hn⟩
  simp only [dataNames, List.map_append, List.map_map, List.nodup_append] at htexts
  exact ⟨htexts.1.1.1, htexts.1.1.2.1, htexts.1.2.1, htexts.2.1⟩

end Spec

/-- In a list without repeated names, an item is the only one of its name. -/
theorem filter_name_eq {α : Type} {name : α → String} {l : List α} (h : (l.map name).Nodup) {x : α}
    (hx : x ∈ l) : l.filter (fun y => name y == name x) = [x] := by
  refine ClassForest.filter_eq_of_sublist (List.Nodup.of_map name h) (by simpa using hx) fun y hy => ?_
  rw [List.mem_singleton, beq_iff_eq]
  exact ⟨fun heq => List.inj_on_of_nodup_map h hy hx heq, fun heq => by rw [heq]⟩

theorem Model.keyType?_eq_find? {m : Model} {n : String} :
    m.keyType? n = (m.keyTypes.find? (·.1 == n)).map (·.2) := by
  rw [Model.keyType?]
  induction m.keyTypes with
  | nil => rfl
  | cons k ks ih =>
    by_cases hk : k.1 = n
    · rw [← hk, List.lookup_cons_self, List.find?_cons_of_pos (by simp), Option.map_some]
    · have hne : (n == k.1) = false := by simpa using Ne.symm hk
      rw [List.lookup_cons, hne, List.find?_cons_of_neg (by simpa using hk), ih]

theorem Model.mem_of_keyType? {m : Model} {n : String} {t : Ty} (h : m.keyType? n = some t) :
    (n, t) ∈ m.keyTypes := by
  obtain ⟨before, after, hsplit, -⟩ := List.lookup_eq_some_iff.mp h
  simp [hsplit]

namespace Model.BoundFrom

variable {s : Spec} {m : Model} {declared : List Class}

theorem registered (h : BoundFrom s declared m) : s.Registered m.registry :=
  Spec.registered_of_ofSpec h.registry

/-! ## Entities -/

/-- The registry has the type of a declaration under its key, by the uniqueness of names. -/
theorem find?_declared (h : BoundFrom s declared m) {d : Declaration} (hd : d ∈ s.declarations)
    {n : String} (hn : d.key = .str n) : m.registry.find? (.str n) = some d.type :=
  h.registered.find?_of_mem (by simp [hn]) (h.registered.declared d hd)

/-- The name of an entity is a text: `Registry.ofSpec` refuses any other value. -/
theorem text_of_entity (h : BoundFrom s declared m) {name : Value} {type : String → Ty}
    (hd : .entity name type ∈ s.declarations) : name = .str name.text := by
  obtain ⟨hlegal, -⟩ := Spec.ofSpec_ok_iff.mp ⟨_, h.registry⟩
  obtain ⟨n, rfl, -⟩ := (hlegal _ hd).1
  rfl

theorem find?_entity (h : BoundFrom s declared m) {name : Value} {type : String → Ty}
    (hd : .entity name type ∈ s.declarations) :
    m.registry.find? (.str name.text) = some (type name.text) :=
  h.find?_declared hd (h.text_of_entity hd)

/-! Within each list of the model the names differ. -/

theorem nodup_enums (h : BoundFrom s declared m) : (m.enums.map (·.ref.name)).Nodup := by
  rw [h.enums, List.map_map]
  exact (Spec.nodup_tables h.registry).1

theorem nodup_records (h : BoundFrom s declared m) : (m.records.map (·.ref.name)).Nodup := by
  have hnames : m.records.map (·.ref.name) = s.records.map (·.1.text) :=
    Except.map_of_mapM (fun he => by rw [(bindRecord_eq_ok.mp he).1]) h.records
  rw [hnames]
  exact (Spec.nodup_tables h.registry).2.1

theorem nodup_keyTypes (h : BoundFrom s declared m) : (m.keyTypes.map (·.1)).Nodup := by
  have hnames : m.keyTypes.map (·.1) = s.keyTypes.map (·.1.text) :=
    Except.map_of_mapM (fun he => (bindKeyType_eq_ok.mp he).1) h.keyTypes
  rw [hnames]
  exact (Spec.nodup_tables h.registry).2.2.1

theorem nodup_opaqueTypes (h : BoundFrom s declared m) : m.opaqueTypes.Nodup := by
  rw [h.opaqueTypes]
  exact (Spec.nodup_tables h.registry).2.2.2

/-- A declared class is found under its name, and ordering the classes keeps it as the only one of the name. -/
theorem bound_class (h : BoundFrom s declared m) {e : Value × Spec.ClassDecl × Bool}
    (he : e ∈ s.allClasses) : m.Bound s (.object (e.2.1.ref e.1.text)) := by
  obtain ⟨c, hc, hbind⟩ := h.declares.exists_class he
  have href : c.ref = e.2.1.ref e.1.text := Spec.ref_of_bindClass hbind
  refine ⟨h.find?_entity (Spec.class_mem_declarations he), c, ?_, href⟩
  rw [← href]
  exact filter_name_eq h.nodup_classes (h.mem_classes.mpr hc)

/-- As in `bound_class`; enumerations are taken over from the specification in their order. -/
theorem bound_enum (h : BoundFrom s declared m) {e : Value × Spec.EnumDecl} (he : e ∈ s.enums) :
    m.Bound s (.enumeration ⟨e.1.text, e.2.native⟩) := by
  have hd : .entity e.1 (fun n => .enumeration ⟨n, e.2.native⟩) ∈ s.declarations := by
    have hmem := List.mem_map_of_mem
      (f := fun e => Declaration.entity e.1 fun n => .enumeration ⟨n, e.2.native⟩) he
    simp [Spec.declarations, hmem]
  have hx : ⟨⟨e.1.text, e.2.native⟩, e.2.values⟩ ∈ m.enums := by
    rw [h.enums]
    exact List.mem_map_of_mem (f := fun e => Enumeration.mk ⟨e.1.text, e.2.native⟩ e.2.values) he
  exact ⟨h.find?_entity hd, _, filter_name_eq h.nodup_enums hx, rfl⟩

/-- A record is bound under its own name, so the list of the model has the names of the specification. -/
theorem bound_record (h : BoundFrom s declared m) {e : Value × Spec.RecordDecl} (he : e ∈ s.records) :
    m.Bound s (.record ⟨e.1.text, e.2.native⟩) := by
  have hd : .entity e.1 (fun n => .record ⟨n, e.2.native⟩) ∈ s.declarations := by
    have hmem := List.mem_map_of_mem
      (f := fun e => Declaration.entity e.1 fun n => .record ⟨n, e.2.native⟩) he
    simp [Spec.declarations, hmem]
  obtain ⟨x, hx, hbind⟩ := Except.exists_of_mapM h.records he
  have href := (bindRecord_eq_ok.mp hbind).1
  refine ⟨h.find?_entity hd, x, ?_, href⟩
  have hfilter := filter_name_eq h.nodup_records hx
  rwa [href] at hfilter

/-- The type behind a key type is the one that the model has for it, as its name comes once. -/
theorem bound_keyType (h : BoundFrom s declared m) {e : Value × TypeExpr} (he : e ∈ s.keyTypes) :
    m.Bound s (.keyType e.1.text) := by
  have hd : .entity e.1 .keyType ∈ s.declarations := by
    have hmem := List.mem_map_of_mem (f := fun e => Declaration.entity e.1 .keyType) he
    simp [Spec.declarations, hmem]
  obtain ⟨⟨n, t⟩, hx, hbind⟩ := Except.exists_of_mapM h.keyTypes he
  obtain ⟨hname, -⟩ := bindKeyType_eq_ok.mp hbind
  have hname : n = e.1.text := hname
  subst hname
  have hfilter := filter_name_eq h.nodup_keyTypes hx
  refine ⟨h.find?_entity hd, t, hfilter, ?_⟩
  rw [Model.keyType?_eq_find?, ← List.head?_filter, hfilter]
  rfl

theorem bound_opaqueType (h : BoundFrom s declared m) {name : Value} (hname : name ∈ s.opaqueTypes) :
    m.Bound s (.opaqueType name.text) := by
  have hd : .entity name .opaqueType ∈ s.declarations := by
    have hmem := List.mem_map_of_mem (f := fun name => Declaration.entity name .opaqueType) hname
    simp [Spec.declarations, hmem]
  have hx : name.text ∈ m.opaqueTypes := by
    rw [h.opaqueTypes]
    exact List.mem_map_of_mem hname
  have hnodup : (m.opaqueTypes.map id).Nodup := by simpa using h.nodup_opaqueTypes
  exact ⟨h.find?_entity hd, filter_name_eq hnodup hx⟩

/-! ## Types -/

/-- What a shared class gives to its users: a handle is a template that need not be declared, around a class
that is `Bound`. -/
theorem boundWithin_handle (h : BoundFrom s declared m) {e : Value × Spec.ClassDecl × Bool}
    (he : e ∈ s.allClasses) (hshared : e.2.1.handle.truthy) :
    m.BoundWithin s (.template sharedPtrName [.object (e.2.1.ref e.1.text)]) := by
  intro u hu
  cases hu with
  | self => exact .inr ⟨rfl, _, rfl, hshared⟩
  | arg ha hu =>
    rw [List.mem_singleton.mp ha] at hu
    cases hu
    exact h.bound_class he

theorem boundWithin_class (h : BoundFrom s declared m) {e : Value × Spec.ClassDecl × Bool}
    (he : e ∈ s.allClasses) : m.BoundWithin s (.object (e.2.1.ref e.1.text)) := by
  intro u hu
  cases hu
  exact h.bound_class he

/-- The type of a declared name is bound, whichever table the name stands in: one case for each kind of
`Declaration`. -/
theorem boundWithin_declared (h : BoundFrom s declared m) {d : Declaration} (hd : d ∈ s.declarations)
    {n : String} (hn : d.key = .str n) : m.BoundWithin s d.type := by
  have hfind := h.find?_declared hd hn
  simp only [Spec.declarations, List.mem_append, List.mem_map, List.mem_flatMap] at hd
  rcases hd with ((((⟨v, -, rfl⟩ | ⟨e, he, hd⟩) | ⟨e, he, rfl⟩) | ⟨e, he, rfl⟩) | ⟨e, he, rfl⟩) |
    ⟨v, hv, rfl⟩
  · intro u hu
    cases hu
    have hv : v = .str n := hn
    subst hv
    exact hfind
  · rw [classDeclarations] at hd
    split at hd
    · rename_i hshared
      simp only [List.mem_cons, List.not_mem_nil, or_false] at hd
      rcases hd with rfl | rfl
      · exact h.boundWithin_class he
      · exact h.boundWithin_handle he hshared
    · rw [List.mem_singleton.mp hd]
      exact h.boundWithin_class he
  · intro u hu; cases hu; exact h.bound_enum he
  · intro u hu; cases hu; exact h.bound_record he
  · intro u hu; cases hu; exact h.bound_keyType he
  · intro u hu; cases hu; exact h.bound_opaqueType hv

/-- What an expression in scope stands for is bound, by induction over `Denotes`. -/
theorem boundWithin_of_denotes (h : BoundFrom s declared m) {e : TypeExpr} {t : Ty}
    (hd : s.Denotes e t) (hs : s.InScope s.names e) : m.BoundWithin s t := by
  -- an alias is looked up where its body is in scope, so the induction follows the meaning of `e`
  induction hd with
  | declared hd hn => exact h.boundWithin_declared hd hn
  | aliased ha _ ih =>
    obtain ⟨t, ht, -⟩ := h.registered.aliases _ ha
    exact ih (h.registered.resolve_ok_iff.mp ⟨t, ht⟩)
  | template hlen _ ih =>
    cases hs with
    | template harity haccepts hscoped =>
      have hargs := List.forall₂_iff_zip.mpr
        ⟨hlen, fun {a t} hat => ih hat (hscoped a (List.of_mem_zip hat).1)⟩
      intro u hu
      cases hu with
      | self => exact .inl ⟨_, harity, hlen ▸ haccepts⟩
      | arg ht hu =>
        obtain ⟨a, -, hbound⟩ := hargs.exists_of_mem_right ht
        exact hbound u hu
  | func hlen _ _ _ ihp ihr =>
    cases hs with
    | func _ hp hr =>
      have hparams := List.forall₂_iff_zip.mpr
        ⟨hlen, fun {p q} hpq => ihp hpq (hp p (List.of_mem_zip hpq).1)⟩
      intro u hu
      cases hu with
      | self => trivial
      | param hq hu =>
        obtain ⟨p, -, hbound⟩ := hparams.exists_of_mem_right hq
        exact hbound u hu
      | ret hu => exact ihr hr u hu
  | modified _ ih =>
    cases hs with
    | modified hs =>
      intro u hu
      cases hu with
      | self => trivial
      | inner hu => exact ih hs u hu

/-- Resolving gives what `Denotes` relates, so the types of all declared expressions are bound. -/
theorem boundWithin_of_resolve (h : BoundFrom s declared m) {e : TypeExpr} {t : Ty}
    (ht : m.registry.resolve e = .ok t) : m.BoundWithin s t := by
  obtain ⟨hs, hd⟩ := h.registered.resolve_iff.mp ht
  exact h.boundWithin_of_denotes hd hs

/-! ## What the model mentions -/

/-- The names behind those of entities are aliases, and each stands for what its expression resolves to. -/
theorem boundWithin_alias (h : BoundFrom s declared m) {e : Value × Ty}
    (he : e ∈ m.registry.types.drop s.entityNames.length) : m.BoundWithin s e.2 := by
  obtain ⟨added, htypes, hall⟩ := Spec.types_of_ofSpec h.registry
  have hlen : s.entityNames.length = s.entities.types.length := by
    rw [← Spec.keys_entities, Registry.keys, List.length_map]
  rw [htypes, hlen, List.drop_left] at he
  obtain ⟨a, -, -, ht⟩ := hall.exists_of_mem_right he
  exact h.boundWithin_of_resolve ht

/-- The type of a field is resolved from an expression. -/
theorem boundWithin_field (h : BoundFrom s declared m) {r : Record} {f : Field} (hr : r ∈ m.records)
    (hf : f ∈ r.fields) : m.BoundWithin s f.type := by
  obtain ⟨e, -, hbind⟩ := Except.exists_of_mem_mapM h.records hr
  obtain ⟨d, -, hfield⟩ := Except.exists_of_mem_mapM (bindRecord_eq_ok.mp hbind).2 hf
  obtain ⟨t, ht, rfl⟩ := bindField_eq_ok.mp hfield
  exact h.boundWithin_of_resolve ht

theorem boundWithin_underlying (h : BoundFrom s declared m) {k : String × Ty} (hk : k ∈ m.keyTypes) :
    m.BoundWithin s k.2 := by
  obtain ⟨e, -, hbind⟩ := Except.exists_of_mem_mapM h.keyTypes hk
  exact h.boundWithin_of_resolve (bindKeyType_eq_ok.mp hbind).2

/-- A function type refers to nothing itself, so its parts decide. -/
theorem boundWithin_func {params : List (String × Ty)} {ret : Ty} {quals : Qualifiers}
    (hparams : ∀ p ∈ params, m.BoundWithin s p.2) (hret : m.BoundWithin s ret) :
    m.BoundWithin s (.func ⟨params, ret, quals⟩) := by
  intro u hu
  cases hu with
  | self => trivial
  | param hp hu => exact hparams _ hp u hu
  | ret hu => exact hret u hu

/-- A constructor gives an instance of its class or a handle to one, which no expression spells:
`boundWithin_of_resolve` says nothing of it. -/
theorem boundWithin_constructed (h : BoundFrom s declared m) {e : Value × Spec.ClassDecl × Bool}
    (he : e ∈ s.allClasses) : m.BoundWithin s (e.2.1.ref e.1.text).constructed := by
  rw [ClassRef.constructed]
  split
  · rename_i hshared
    exact h.boundWithin_handle he hshared
  · exact h.boundWithin_class he

/-- The owner of an overload is the class that it was bound for, and its signature is resolved. -/
theorem boundWithin_overload (h : BoundFrom s declared m) {owner : ClassRef} {kind : MethodKind}
    {table : String} {name : Value} {d : Spec.MethodDecl} {x : Method}
    (howner : m.BoundWithin s (.object owner))
    (hx : bindOverload m.registry owner kind table name d = .ok x) :
    m.BoundWithin s (.object x.owner) ∧ m.BoundWithin s (.func x.sig) := by
  obtain ⟨σ, u, hσ, -, -, rfl⟩ := bindOverload_eq_ok.mp hx
  exact ⟨howner, h.boundWithin_of_resolve hσ⟩

/-- The class that a member belongs to and the signature of the member are bound, for each of the four kinds of
members. -/
theorem boundWithin_member (h : BoundFrom s declared m) {c : Class} (hc : c ∈ m.classes) :
    ∀ x ∈ c.methods, m.BoundWithin s (.object x.owner) ∧ m.BoundWithin s (.func x.sig) := by
  obtain ⟨e, he, hbind⟩ := h.declares.exists_declaration (h.mem_classes.mp hc)
  obtain ⟨-, -, ms, ss, cs, ps, hclass⟩ := bindClass_eq_ok.mp hbind
  refine hclass.forall_mem_methods.mpr ⟨fun x hx => ?_, fun x hx => ?_, fun x hx => ?_, fun x hx => ?_⟩
  · obtain ⟨o, -, ho⟩ := Except.exists_of_mem_mapM hclass.methods hx
    exact h.boundWithin_overload (h.boundWithin_class he) ho
  · obtain ⟨o, -, ho⟩ := Except.exists_of_mem_mapM hclass.statics hx
    exact h.boundWithin_overload (h.boundWithin_class he) ho
  · obtain ⟨o, -, ho⟩ := Except.exists_of_mem_mapM hclass.constructors hx
    obtain ⟨σ, u, hσ, -, -, -, rfl⟩ := bindConstructor_eq_ok.mp ho
    refine ⟨h.boundWithin_class he, boundWithin_func (fun p hp u hu => ?_) (h.boundWithin_constructed he)⟩
    exact h.boundWithin_of_resolve hσ u (.param hp hu)
  · obtain ⟨o, -, ho⟩ := Except.exists_of_mem_mapM hclass.properties hx
    obtain ⟨t, u, ht, -, -, rfl⟩ := bindProperty_eq_ok.mp ho
    refine ⟨h.boundWithin_class he, boundWithin_func (fun p hp => ?_) (h.boundWithin_of_resolve ht)⟩
    cases hp

/-- A base was found in the registry when it was bound, so it is a declared class. -/
theorem boundWithin_base (h : BoundFrom s declared m) {c : Class} {b : ClassRef} (hc : c ∈ m.classes)
    (hb : c.base = some b) : m.BoundWithin s (.object b) := by
  obtain ⟨p, hp, rfl⟩ := h.exists_base hc hb
  obtain ⟨e, he, hbind⟩ := h.declares.exists_declaration (h.mem_classes.mp hp)
  rw [Spec.ref_of_bindClass hbind]
  exact h.boundWithin_class he

theorem boundWithin_iterable (h : BoundFrom s declared m) {c : Class} {t : Ty} (hc : c ∈ m.classes)
    (ht : c.iterable = some t) : m.BoundWithin s t := by
  obtain ⟨e, -, hbind⟩ := h.declares.exists_declaration (h.mem_classes.mp hc)
  obtain ⟨-, -, ms, ss, cs, ps, hclass⟩ := bindClass_eq_ok.mp hbind
  have hrel := hclass.iterable
  rw [ht] at hrel
  rcases hd : e.2.1.iterable with _ | expr
  · rw [hd] at hrel; cases hrel
  · rw [hd] at hrel
    cases hrel with
    | some hresolve => exact h.boundWithin_of_resolve hresolve

theorem boundWithin_getter (h : BoundFrom s declared m) {g : MixedGetter} (hg : g ∈ m.mixed.getters) :
    m.BoundWithin s g.type := by
  obtain ⟨hgetters, -⟩ := bindMixed_eq_ok.mp h.mixed
  obtain ⟨e, -, -, -, ht⟩ := hgetters.exists_of_mem_right hg
  exact h.boundWithin_of_resolve ht

/-- `Mixed` is made from the extra types and from the types of its getters, and both are resolved. -/
theorem boundWithin_ctor (h : BoundFrom s declared m) {t : Ty} (ht : t ∈ m.mixed.ctors) :
    m.BoundWithin s t := by
  obtain ⟨-, -, extra, hextra, hctors⟩ := bindMixed_eq_ok.mp h.mixed
  rw [hctors, List.mem_append, List.mem_map] at ht
  rcases ht with ht | ⟨g, hg, rfl⟩
  · obtain ⟨e, -, hresolve⟩ := hextra.exists_of_mem_right ht
    exact h.boundWithin_of_resolve hresolve
  · exact h.boundWithin_getter hg

/-- Whatever the model mentions is bound: one case for each constructor of `Mentions`. -/
theorem boundWithin_of_mentions (h : BoundFrom s declared m) {t : Ty} (ht : m.Mentions s t) :
    m.BoundWithin s t := by
  cases ht with
  | aliased he => exact h.boundWithin_alias he
  | field hr hf => exact h.boundWithin_field hr hf
  | keyType hk => exact h.boundWithin_underlying hk
  | method hc hx => exact (h.boundWithin_member hc _ hx).2
  | owner hc hx => exact (h.boundWithin_member hc _ hx).1
  | base hc hb => exact h.boundWithin_base hc hb
  | iterable hc ht => exact h.boundWithin_iterable hc ht
  | getter hg => exact h.boundWithin_getter hg
  | ctor ht => exact h.boundWithin_ctor ht

end Model.BoundFrom

/-! ## Closure -/

namespace Model

variable {s : Spec} {m : Model}

/-- The graph of the model is closed. -/
structure Closed (m : Model) (s : Spec) : Prop where
  /-- The names are those of the specification, table after table; a class is followed by the name of its
  shared handles, if it has one. -/
  names : m.registry.types.map (·.1) = s.primitives
    ++ (s.classes.flatMap fun e => e.1 :: if e.2.handle.truthy then [e.2.handle] else [])
    ++ (s.interfaces.flatMap fun e => e.1 :: if e.2.handle.truthy then [e.2.handle] else [])
    ++ s.enums.map (·.1) ++ s.records.map (·.1) ++ s.keyTypes.map (·.1) ++ s.opaqueTypes
    ++ s.aliases.map (·.1)
  distinct : Distinct (m.registry.types.map (·.1))
  bound : ∀ t, m.Reachable s t → m.Bound s t

/-- **The graph of a model is closed.** Every type that can be reached in a model that `Model.ofSpec` gives
refers to entities of the model, each found under its name and standing once in its list. -/
theorem closed_of_ofSpec (h : Model.ofSpec s = .ok m) : m.Closed s := by
  obtain ⟨declared, hbound⟩ := Model.ofSpec_eq_ok.mp h
  have hkeys : m.registry.types.map (·.1) = s.names := hbound.registered.keys
  constructor
  case names =>
    rw [hkeys, Spec.names, Spec.entityNames, Spec.allClasses]
    simp only [List.flatMap_append, List.flatMap_map, List.append_assoc]
    rfl
  case distinct =>
    rw [hkeys]
    exact hbound.registered.distinct
  case bound =>
    rintro u ⟨t, ht, hu⟩
    exact hbound.boundWithin_of_mentions ht u hu

/-- Entities of every kind that refer to each other against the order of their declaration, one of them a
class with shared handles but no template for them. -/
def workshop : Spec where
  primitives := [.str "void", .str "Int"]
  templates := [(.str "List", .exact 1), (.str "Map", .any)]
  aliases := [(.str "Jobs", .template "List" [.named "JobRef"]), (.str "Batch", .named "Jobs")]
  enums := [(.str "State", ⟨.str "State", [(.str "idle", .int 0), (.str "busy", .int 1)]⟩)]
  opaqueTypes := [.str "Handle"]
  keyTypes := [(.str "JobId", .named "Int")]
  records := [(.str "Options", ⟨.str "Options", [(.str "state", ⟨.named "State", .str "state", none⟩),
    (.str "batch", ⟨.named "Batch", .str "batch", none⟩)]⟩)]
  classes :=
    [(.str "Queue", { memberless "Queue" (.str "Source") .null with iterable := some (.named "JobId") }),
      (.str "Job", { memberless "Job" .null (.str "JobRef") with
        methods := [(.str "run", [{ sig := ⟨[("options", .named "Options")], .named "Handle", {}⟩ }])]
        constructors := [(.str "make", ⟨[("state", .named "State")], .named "void", {}⟩)]
        properties := [(.str "next", .named "JobRef")] }),
      (.str "Clock", { memberless "Clock" .null .null with })]
  interfaces := [(.str "Source", memberless "Source" .null .null)]
  mixed := { types := [(.str "Jobs", ⟨.named "Batch", "jobs"⟩)], extra := [.named "JobId"] }

/-- The names of `workshop` in the registry, table after table, with the handle `JobRef` behind its class `Job`.
-/
theorem closed_workshop :
    ∃ m, Model.ofSpec workshop = .ok m ∧ m.Closed workshop ∧
      m.registry.types.map (·.1.text) = ["void", "Int", "Queue", "Job", "JobRef", "Clock", "Source",
        "State", "Options", "JobId", "Handle", "Jobs", "Batch"] :=
  ⟨_, rfl, closed_of_ofSpec rfl, rfl⟩

end Model

end LuaGlue
