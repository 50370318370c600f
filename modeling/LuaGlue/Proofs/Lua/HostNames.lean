import LuaGlue.Lua.Module
import LuaGlue.Proofs.Lua.FunctionNames
import LuaGlue.Proofs.Text.SnakeCase

/-!
# Names in the host

Members and fields have their snake case as their name in the host, while a specification tells them apart
by the names themselves.

- **Instances** (`BoundFrom.nodup_instanceHostNames`): the iterator keeps its name to itself, so methods and
  properties are told apart in the host if their snake cases are.
- **Members and fields** (`nodup_hostNames_iff`): the names in the host are different exactly when no two
  names have the same snake case; nothing else makes them meet.
-/

namespace LuaGlue

open Document (Value)
open Text (Unambiguous snakeCase isPlain camelCase)

/-- The fields of each record are named by texts, no two by the same one. -/
def Spec.NamesFields (s : Spec) : Prop :=
  ∀ e ∈ s.records, ∃ names : List String, names.Nodup ∧ e.2.fields.map (·.1) = names.map .str

namespace Class

/-- The names of the methods and properties of instances. -/
def instanceNames (c : Class) : List String := (c.methods.filter (!·.isStatic)).map (·.uniqueName)

/-- The names of the methods without an instance and of the constructors. -/
def staticNames (c : Class) : List String := (c.methods.filter (·.isStatic)).map (·.uniqueName)

/-- The names in the method table of instances, and those of the properties. -/
def instanceHostNames (c : Class) : List String :=
  (Lua.instanceFunctions c).map (·.1) ++ (c.methods.filter (·.isProperty)).map (·.displayName)

/-- The names in the table of functions without an instance. -/
def staticHostNames (c : Class) : List String := (Lua.staticFunctions c).map (·.1)

theorem staticHostNames_eq (c : Class) : c.staticHostNames = c.staticNames.map snakeCase := by
  simp [staticHostNames, staticNames, Lua.staticFunctions, Method.displayName]

/-- A property is no static method, so methods and properties are all that instances have. -/
theorem instanceHostNames_perm (c : Class) :
    c.instanceHostNames.Perm
      (c.instanceNames.map snakeCase ++ if c.iterable.isSome then [iterName] else []) := by
  have hproperties : c.methods.filter (·.isProperty) =
      (c.methods.filter (!·.isStatic)).filter (·.isProperty) := by
    rw [List.filter_filter]
    refine List.filter_congr fun x _ => ?_
    cases hkind : x.kind <;> simp [Method.isProperty, Method.isStatic, hkind]
  have hmethods : c.methods.filter (fun x => !x.isStatic && !x.isProperty) =
      (c.methods.filter (!·.isStatic)).filter (!·.isProperty) := by
    rw [List.filter_filter]
    exact List.filter_congr fun x _ => Bool.and_comm _ _
  have hnames : c.instanceNames.map snakeCase = (c.methods.filter (!·.isStatic)).map (·.displayName) := by
    rw [instanceNames, List.map_map]
    rfl
  have hiter : ((if c.iterable.isSome then [("iter", Lua.iteratorName c.ref)] else []).map (·.1)) =
      if c.iterable.isSome then [iterName] else [] := by
    split <;> rfl
  rw [instanceHostNames, Lua.instanceFunctions, hproperties, hmethods, List.map_append, List.map_map, hiter,
    hnames]
  generalize c.methods.filter (!·.isStatic) = members
  generalize (if c.iterable.isSome then [iterName] else []) = iter
  -- the iterator goes behind the properties, and these back among the methods
  have hsplit := (List.filter_append_perm (·.isProperty) members).map (·.displayName)
  rw [List.map_append] at hsplit
  refine List.perm_append_comm.trans ?_
  rw [← List.append_assoc]
  exact hsplit.append_right iter

end Class

namespace Model

variable {s : Spec} {m : Model} {declared : List Class}

namespace BoundFrom

theorem displayName_ne_iterName (h : BoundFrom s declared m) {c : Class} (hc : c ∈ m.classes)
    (hi : c.iterable.isSome) {x : Method} (hx : x ∈ c.methods) (hstatic : ¬x.isStatic) :
    x.displayName ≠ iterName :=
  (checkMethods_eq_ok.mp (checkClass_eq_ok.mp (h.checked c hc)).1).2.2.1 hi x hx hstatic

theorem nodup_staticHostNames (h : BoundFrom s declared m) {c : Class} (hc : c ∈ m.classes) :
    c.staticHostNames.Nodup ↔ Unambiguous c.staticNames := by
  have hnodup : c.staticNames.Nodup := (h.nodup_uniqueNames hc).sublist (List.filter_sublist.map _)
  rw [Class.staticHostNames_eq]
  exact List.nodup_map_iff_inj_on hnodup

theorem nodup_instanceHostNames (h : BoundFrom s declared m) {c : Class} (hc : c ∈ m.classes) :
    c.instanceHostNames.Nodup ↔ Unambiguous c.instanceNames := by
  have hnodup : c.instanceNames.Nodup := (h.nodup_uniqueNames hc).sublist (List.filter_sublist.map _)
  have hfree : ∀ n ∈ c.instanceNames.map snakeCase, c.iterable.isSome → n ≠ iterName := by
    intro n hn hi
    obtain ⟨_, hunique, rfl⟩ := List.mem_map.mp hn
    obtain ⟨x, hx, rfl⟩ := List.mem_map.mp hunique
    obtain ⟨hmem, hstatic⟩ := List.mem_filter.mp hx
    exact h.displayName_ne_iterName hc hi hmem (by simpa using hstatic)
  rw [c.instanceHostNames_perm.nodup_iff, Unambiguous, ← List.nodup_map_iff_inj_on hnodup]
  split
  · rename_i hi
    rw [List.nodup_append_comm, List.singleton_append, List.nodup_cons]
    exact and_iff_right fun hmem => hfree _ hmem hi rfl
  · rw [List.append_nil]

/-- The fields of a record keep the names of its table. -/
theorem exists_field_names (h : BoundFrom s declared m) (hfields : s.NamesFields) {r : Record} (hr : r ∈ m.records) :
    ∃ names : List String, names.Nodup ∧ r.fields.map (·.name) = names.map .str := by
  obtain ⟨e, he, hbind⟩ := Except.exists_of_mem_mapM h.records hr
  obtain ⟨names, hnodup, hnames⟩ := hfields e he
  refine ⟨names, hnodup, ?_⟩
  rw [← hnames]
  refine Except.map_of_mapM (fun {f x} hf => ?_) (bindRecord_eq_ok.mp hbind).2
  obtain ⟨t, -, rfl⟩ := bindField_eq_ok.mp hf
  rfl

end BoundFrom

end Model

/-- Fields with texts as their names have their snake cases in the host. -/
theorem Field.mapM_displayName {fields : List Field} {names : List String}
    (h : fields.map (·.name) = names.map .str) :
    fields.mapM Field.displayName = .ok (names.map snakeCase) := by
  induction fields generalizing names with
  | nil =>
    cases names with
    | nil => rfl
    | cons n names => cases h
  | cons f fields ih =>
    cases names with
    | nil => cases h
    | cons n names =>
      obtain ⟨hname, hrest⟩ := List.cons.inj h
      have hf : f.displayName = .ok (snakeCase n) := by
        rw [Field.displayName, show f.name = .str n from hname]
      rw [List.mapM_cons, hf, ih hrest]
      rfl

/-- **Names in the host.** For every bound specification, the names that methods, properties and the iterator
have on instances, those of the functions without an instance, and those of the fields of a record are each
different exactly when no two of the names that the specification gives have the same snake case. Words in
camel case that are joined by underscores have it exactly when they have the same camel case. -/
theorem nodup_hostNames_iff {s : Spec} {m : Model} (h : Model.ofSpec s = .ok m)
    (hfields : s.NamesFields) :
    (∀ c ∈ m.classes, (c.instanceHostNames.Nodup ↔ Unambiguous c.instanceNames) ∧
        (c.staticHostNames.Nodup ↔ Unambiguous c.staticNames)) ∧
      (∀ r ∈ m.records, ∃ names shown, r.fields.map (·.name) = names.map .str ∧
        r.fields.mapM Field.displayName = .ok shown ∧ (shown.Nodup ↔ Unambiguous names)) ∧
      ∀ names, (∀ n ∈ names, isPlain n) →
        (Unambiguous names ↔ ∀ a ∈ names, ∀ b ∈ names, camelCase a = camelCase b → a = b) := by
  obtain ⟨declared, hm⟩ := Model.ofSpec_eq_ok.mp h
  refine ⟨fun c hc => ⟨hm.nodup_instanceHostNames hc, hm.nodup_staticHostNames hc⟩, fun r hr => ?_,
    fun names => Text.unambiguous_iff⟩
  obtain ⟨names, hnodup, hnames⟩ := hm.exists_field_names hfields hr
  exact ⟨names, _, hnames, Field.mapM_displayName hnames, List.nodup_map_iff_inj_on hnodup⟩

/-- A class that can be iterated over, with overloads, a property and a constructor, and a record. -/
def indexed : Spec where
  primitives := [.str "void", .str "Int"]
  classes := [(.str "Index", { Model.memberless "Index" .null .null with
    methods := [(.str "insertAny", [{ sig := ⟨[], .named "void", {}⟩ },
      { sig := ⟨[("n", .named "Int")], .named "void", {}⟩, suffix := .str "withIndex" }])]
    constructors := [(.str "withSize", ⟨[("n", .named "Int")], .named "void", {}⟩)]
    properties := [(.str "sizeHint", .named "Int")]
    iterable := some (.named "Int") })]
  records := [(.str "Entry", ⟨.str "Entry",
    [(.str "rowIndex", ⟨.named "Int", .str "rowIndex", none⟩), (.str "row", ⟨.named "Int", .str "row", none⟩)]⟩)]

theorem nodup_hostNames_indexed :
    ∃ m, Model.ofSpec indexed = .ok m ∧
      m.classes.map Class.instanceHostNames =
        [["insert_any", "insert_any_with_index", "iter", "size_hint"]] ∧
      ∀ c ∈ m.classes, c.instanceHostNames.Nodup ∧ c.staticHostNames.Nodup := by
  have hnames : (Model.ofSpec indexed).toOption.map (fun m => (m.classes.map Class.instanceHostNames,
      decide (∀ c ∈ m.classes, Unambiguous c.instanceNames ∧ Unambiguous c.staticNames))) =
        some ([["insert_any", "insert_any_with_index", "iter", "size_hint"]], true) := by
    decide +kernel
  have hfields : indexed.NamesFields := by
    intro e he
    rw [List.mem_singleton.mp he]
    exact ⟨["rowIndex", "row"], by decide, rfl⟩
  cases hm : Model.ofSpec indexed with
  | error e => rw [hm] at hnames; cases hnames
  | ok m =>
    rw [hm] at hnames
    obtain ⟨hshown, hapart⟩ := Prod.mk.inj (Option.some.inj hnames)
    refine ⟨m, rfl, hshown, fun c hc => ?_⟩
    obtain ⟨hinstance, hstatic⟩ := (nodup_hostNames_iff hm hfields).1 c hc
    obtain ⟨hi, hs⟩ := of_decide_eq_true hapart c hc
    exact ⟨hinstance.mpr hi, hstatic.mpr hs⟩

/-- Names that meet in snake case: those of an overload with its suffix and of a method, those of two
functions that write an initialism in two ways, and those of two fields. -/
def colliding : Spec where
  primitives := [.str "void", .str "Int"]
  classes := [(.str "Store", { Model.memberless "Store" .null .null with
    methods := [(.str "insertAny", [{ sig := ⟨[], .named "void", {}⟩, suffix := .str "withIndex" }]),
      (.str "insertAnyWithIndex", [{ sig := ⟨[], .named "void", {}⟩ }])]
    statics := [(.str "readURL", [{ sig := ⟨[], .named "void", {}⟩ }]),
      (.str "readUrl", [{ sig := ⟨[], .named "void", {}⟩ }])] })]
  records := [(.str "Entry", ⟨.str "Entry",
    [(.str "rowIndex", ⟨.named "Int", .str "rowIndex", none⟩),
      (.str "row_index", ⟨.named "Int", .str "row_index", none⟩)]⟩)]

theorem hostNames_collide :
    ∃ m, Model.ofSpec colliding = .ok m ∧
      (∃ c ∈ m.classes, ¬c.instanceHostNames.Nodup ∧ ¬c.staticHostNames.Nodup) ∧
      ∃ r ∈ m.records, ∃ shown, r.fields.mapM Field.displayName = .ok shown ∧ ¬shown.Nodup := by
  have hnames : (Model.ofSpec colliding).toOption.map (fun m =>
      (m.classes.map fun c => (c.instanceHostNames, c.staticHostNames),
        m.records.map fun r => (r.fields.mapM Field.displayName).toOption)) =
      some ([(["insert_any_with_index", "insert_any_with_index"], ["read_url", "read_url"])],
        [some ["row_index", "row_index"]]) := by
    decide +kernel
  cases hm : Model.ofSpec colliding with
  | error e => rw [hm] at hnames; cases hnames
  | ok m =>
    rw [hm] at hnames
    obtain ⟨hclasses, hrecords⟩ := Prod.mk.inj (Option.some.inj hnames)
    obtain ⟨c, hc, hshown⟩ := List.mem_map.mp (hclasses ▸ List.mem_singleton_self _)
    obtain ⟨hinstance, hstatic⟩ := Prod.mk.inj hshown
    obtain ⟨r, hr, hfields⟩ := List.mem_map.mp (hrecords ▸ List.mem_singleton_self _)
    refine ⟨m, rfl, ⟨c, hc, by rw [hinstance]; decide, by rw [hstatic]; decide⟩, r, hr, ?_⟩
    cases hshown : r.fields.mapM Field.displayName with
    | error e => rw [hshown] at hfields; cases hfields
    | ok shown =>
      rw [hshown] at hfields
      cases hfields
      exact ⟨_, rfl, by decide⟩

end LuaGlue
