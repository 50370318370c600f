import LuaGlue.Lua.Wrapper
import LuaGlue.Proofs.Model.ClassOrder

/-!
# Names of generated functions

Every function of a class is named by the class, an underscore and a name of its own: that of a member, or
one that starts with an underscore, which no member has.

- **Reading names back** (`memberText_inj`): the name of a class holds no underscore, so the first one ends it.
- **Members** (`BoundFrom.owner_eq`, `BoundFrom.not_isReserved`, `BoundFrom.nodup_uniqueNames`): a member
  belongs to its class, its name is not reserved, and no other member of the class has it.
- **No collisions** (`nodup_functionNames`): the wrappers, iterators and index functions of all classes have
  different names.
-/

theorem List.append_cons_inj_of_notMem_left {α : Type} {sep : α} {a b x y : List α} (ha : sep ∉ a)
    (hb : sep ∉ b) (h : a ++ sep :: x = b ++ sep :: y) : a = b ∧ x = y := by
  induction a generalizing b with
  | nil =>
    cases b with
    | nil => exact ⟨rfl, (List.cons.inj h).2⟩
    | cons d b => exact absurd (by simp [(List.cons.inj h).1]) hb
  | cons c a ih =>
    cases b with
    | nil => exact absurd (by simp [(List.cons.inj h).1]) ha
    | cons d b =>
      obtain ⟨rfl, htail⟩ := List.cons.inj h
      obtain ⟨rfl, rfl⟩ :=
        ih (List.not_mem_of_not_mem_cons ha) (List.not_mem_of_not_mem_cons hb) htail
      exact ⟨rfl, rfl⟩

namespace LuaGlue

/-! ## Reading names back -/

/-- The name of a class and one of its own make the name of a function. -/
def memberText (p : String × String) : String := p.1 ++ "_" ++ p.2

/-- The name of a class holds no underscore, so it ends at the first one and both parts can be read back. -/
theorem memberText_inj {p q : String × String} (hp : '_' ∉ p.1.toList) (hq : '_' ∉ q.1.toList)
    (h : memberText p = memberText q) : p = q := by
  have hlists := congrArg String.toList h
  simp only [memberText, String.toList_append, List.append_assoc] at hlists
  obtain ⟨hfirst, hsecond⟩ := List.append_cons_inj_of_notMem_left hp hq hlists
  exact Prod.ext (String.toList_inj.mp hfirst) (String.toList_inj.mp hsecond)

/-- Names of functions differ when their classes or their own names do. -/
theorem nodup_map_memberText {l : List (String × String)} (hplain : ∀ p ∈ l, '_' ∉ p.1.toList)
    (h : l.Nodup) : (l.map memberText).Nodup :=
  h.map_on fun p hp q hq heq => memberText_inj (hplain p hp) (hplain q hq) heq

/-! ## Members -/

namespace BoundClass

variable {r : Registry} {name : Document.Value} {d : Spec.ClassDecl} {c : Class}
  {ms ss cs ps : List Method}

/-- A member of a bound class belongs to it and has a name that is not reserved: one case for each of the four
kinds. -/
theorem member (h : BoundClass r name d c ms ss cs ps) :
    ∀ x ∈ c.methods, x.owner = c.ref ∧ ¬Registry.isReserved x.uniqueName := by
  rw [h.ref_eq]
  refine h.forall_mem_methods.mpr ⟨fun x hx => ?_, fun x hx => ?_, fun x hx => ?_, fun x hx => ?_⟩
  · obtain ⟨o, -, ho⟩ := Except.exists_of_mem_mapM h.methods hx
    obtain ⟨σ, u, -, -, hu, rfl⟩ := bindOverload_eq_ok.mp ho
    exact ⟨rfl, hu⟩
  · obtain ⟨o, -, ho⟩ := Except.exists_of_mem_mapM h.statics hx
    obtain ⟨σ, u, -, -, hu, rfl⟩ := bindOverload_eq_ok.mp ho
    exact ⟨rfl, hu⟩
  · obtain ⟨e, -, he⟩ := Except.exists_of_mem_mapM h.constructors hx
    obtain ⟨σ, u, -, -, -, hu, rfl⟩ := bindConstructor_eq_ok.mp he
    exact ⟨rfl, hu⟩
  · obtain ⟨e, -, he⟩ := Except.exists_of_mem_mapM h.properties hx
    obtain ⟨t, u, -, -, hu, rfl⟩ := bindProperty_eq_ok.mp he
    exact ⟨rfl, hu⟩

end BoundClass

namespace Model

variable {s : Spec} {m : Model} {declared : List Class}

namespace BoundFrom

theorem boundClass (h : BoundFrom s declared m) {c : Class} (hc : c ∈ m.classes) :
    ∃ e ∈ s.allClasses, ∃ ms ss cs ps, BoundClass m.registry e.1 e.2.1 c ms ss cs ps := by
  obtain ⟨e, he, hbind⟩ := h.declares.exists_declaration (h.mem_classes.mp hc)
  obtain ⟨-, -, hbound⟩ := bindClass_eq_ok.mp hbind
  exact ⟨e, he, hbound⟩

theorem owner_eq (h : BoundFrom s declared m) {c : Class} (hc : c ∈ m.classes) {x : Method}
    (hx : x ∈ c.methods) : x.owner = c.ref := by
  obtain ⟨e, -, ms, ss, cs, ps, hbound⟩ := h.boundClass hc
  exact (hbound.member x hx).1

theorem not_isReserved (h : BoundFrom s declared m) {c : Class} (hc : c ∈ m.classes) {x : Method}
    (hx : x ∈ c.methods) : ¬Registry.isReserved x.uniqueName := by
  obtain ⟨e, -, ms, ss, cs, ps, hbound⟩ := h.boundClass hc
  exact (hbound.member x hx).2

theorem nodup_uniqueNames (h : BoundFrom s declared m) {c : Class} (hc : c ∈ m.classes) :
    (c.methods.map (·.uniqueName)).Nodup :=
  (checkMethods_eq_ok.mp (checkClass_eq_ok.mp (h.checked c hc)).1).2.1

theorem underscore_notMem (h : BoundFrom s declared m) {c : Class} (hc : c ∈ m.classes) :
    '_' ∉ c.name.toList := by
  obtain ⟨e, he, hbind⟩ := h.declares.exists_declaration (h.mem_classes.mp hc)
  obtain ⟨n, hn, hplain⟩ := Spec.class_names_of_ofSpec h.registry e he
  rw [Spec.name_of_bindClass hbind, hn]
  exact hplain

end BoundFrom

/-! ## No collisions -/

/-- The members of all classes, each by its class and its own name. -/
def memberKeys (m : Model) : List (String × String) :=
  m.classes.flatMap fun c => c.methods.map fun x => (c.name, x.uniqueName)

/-- The functions that classes have besides their members. -/
def reservedKeys (m : Model) : List (String × String) :=
  (m.classes.filter (·.iterable.isSome)).map (fun c => (c.name, "_iter"))
    ++ m.classes.map fun c => (c.name, "_index")

namespace BoundFrom

/-- The identifiers of methods are the texts of `memberKeys`. -/
theorem map_id (h : BoundFrom s declared m) :
    (m.classes.flatMap (·.methods)).map Method.id = m.memberKeys.map memberText := by
  rw [memberKeys, List.map_flatMap, List.map_flatMap]
  refine List.flatMap_congr fun c hc => ?_
  rw [List.map_map]
  refine List.map_congr_left fun x hx => ?_
  rw [Method.id, h.owner_eq hc hx]
  rfl

/-- Members of one class have different names, and those of different classes differ by the class. -/
theorem nodup_memberKeys (h : BoundFrom s declared m) : m.memberKeys.Nodup := by
  refine List.nodup_flatMap.mpr ⟨fun c hc => ?_, ?_⟩
  · refine List.Nodup.of_map Prod.snd ?_
    rw [List.map_map]
    exact h.nodup_uniqueNames hc
  · have hnames := h.nodup_classes
    rw [List.Nodup, List.pairwise_map] at hnames
    refine hnames.imp fun {c d} hne => ?_
    rintro p hp hq
    obtain ⟨x, -, rfl⟩ := List.mem_map.mp hp
    obtain ⟨y, -, heq⟩ := List.mem_map.mp hq
    exact hne (Prod.mk.inj heq).1.symm

theorem nodup_reservedKeys (h : BoundFrom s declared m) : m.reservedKeys.Nodup := by
  have hkeys {l : List Class} (hl : l.Sublist m.classes) (own : String) :
      (l.map fun c => (c.name, own)).Nodup := by
    refine List.Nodup.of_map Prod.fst ?_
    rw [List.map_map]
    exact h.nodup_classes.sublist (hl.map _)
  refine List.nodup_append.mpr ⟨hkeys List.filter_sublist _, hkeys (.refl _) _, ?_⟩
  rintro _ hp _ hq rfl
  obtain ⟨c, -, rfl⟩ := List.mem_map.mp hp
  obtain ⟨d, -, heq⟩ := List.mem_map.mp hq
  exact absurd (Prod.mk.inj heq).2 (by decide)

/-- No member has a name that starts with an underscore, as those of `reservedKeys` do. -/
theorem nodup_keys (h : BoundFrom s declared m) : (m.memberKeys ++ m.reservedKeys).Nodup := by
  refine List.nodup_append.mpr ⟨h.nodup_memberKeys, h.nodup_reservedKeys, ?_⟩
  rintro _ hp _ hq rfl
  obtain ⟨c, hc, hp⟩ := List.mem_flatMap.mp hp
  obtain ⟨x, hx, rfl⟩ := List.mem_map.mp hp
  have hfree := h.not_isReserved hc hx
  rcases List.mem_append.mp hq with hq | hq
  · obtain ⟨d, -, heq⟩ := List.mem_map.mp hq
    rw [← (Prod.mk.inj heq).2] at hfree
    exact hfree (by decide)
  · obtain ⟨d, -, heq⟩ := List.mem_map.mp hq
    rw [← (Prod.mk.inj heq).2] at hfree
    exact hfree (by decide)

theorem plain_keys (h : BoundFrom s declared m) :
    ∀ p ∈ m.memberKeys ++ m.reservedKeys, '_' ∉ p.1.toList := by
  simp only [memberKeys, reservedKeys, List.forall_mem_append, List.forall_mem_flatMap,
    List.forall_mem_map]
  refine ⟨fun c hc _ _ => h.underscore_notMem hc, fun c hc => ?_, fun c hc => h.underscore_notMem hc⟩
  exact h.underscore_notMem (List.mem_filter.mp hc).1

end BoundFrom

/-- **No collisions.** The identifiers of all methods of all classes differ, and so do the names of the
wrappers of all methods, the iterators of all iterable classes and the index functions of all classes. -/
theorem nodup_functionNames (h : Model.ofSpec s = .ok m) :
    ((m.classes.flatMap (·.methods)).map Method.id).Nodup ∧
    ((m.classes.flatMap (·.methods)).map Lua.wrapperName
      ++ (m.classes.filter (·.iterable.isSome)).map (fun c => Lua.iteratorName c.ref)
      ++ m.classes.map (fun c => Lua.indexName c.ref)).Nodup := by
  obtain ⟨declared, hbound⟩ := Model.ofSpec_eq_ok.mp h
  have hall := nodup_map_memberText hbound.plain_keys hbound.nodup_keys
  have hids : ((m.classes.flatMap (·.methods)).map Method.id).Nodup := by
    rw [hbound.map_id]
    rw [List.map_append] at hall
    exact (List.nodup_append.mp hall).1
  refine ⟨hids, ?_⟩
  -- all names are an `l_` in front of what the keys are written as
  have hnames : (m.classes.flatMap (·.methods)).map Lua.wrapperName
      ++ (m.classes.filter (·.iterable.isSome)).map (fun c => Lua.iteratorName c.ref)
      ++ m.classes.map (fun c => Lua.indexName c.ref)
      = ((m.memberKeys ++ m.reservedKeys).map memberText).map ("l_" ++ ·) := by
    rw [List.map_append, ← hbound.map_id, reservedKeys]
    simp only [List.map_append, List.map_map, List.append_assoc]
    refine congrArg₂ _ rfl (congrArg₂ _ ?_ ?_)
    · refine List.map_congr_left fun c _ => ?_
      simp [Lua.iteratorName, memberText, Class.name, String.append_assoc]
    · refine List.map_congr_left fun c _ => ?_
      simp [Lua.indexName, memberText, Class.name, String.append_assoc]
  rw [hnames]
  refine hall.map fun a b hab => ?_
  simpa using hab

/-- A class with an overload whose suffix follows an underscore, a member named like a class, and an
iterable class derived from it. -/
def overloaded : Spec where
  primitives := [.str "void", .str "Int"]
  classes :=
    [(.str "Node", { memberless "Node" .null .null with
        methods := [(.str "add", [{ sig := ⟨[], .named "void", {}⟩ },
          { sig := ⟨[("n", .named "Int")], .named "void", {}⟩, suffix := .str "_iter" }])]
        statics := [(.str "Leaf_add", [{ sig := ⟨[], .named "void", {}⟩ }])]
        properties := [(.str "index", .named "Int")] }),
      (.str "Leaf", { memberless "Leaf" (.str "Node") .null with
        methods := [(.str "add", [{ sig := ⟨[], .named "void", {}⟩ }])]
        iterable := some (.named "Int") })]

theorem nodup_functionNames_overloaded :
    ∃ m, Model.ofSpec overloaded = .ok m ∧
      ((m.classes.flatMap (·.methods)).map Method.id).Nodup ∧
      ((m.classes.flatMap (·.methods)).map Lua.wrapperName
        ++ (m.classes.filter (·.iterable.isSome)).map (fun c => Lua.iteratorName c.ref)
        ++ m.classes.map (fun c => Lua.indexName c.ref)).Nodup ∧
      (m.classes.flatMap (·.methods)).map Method.id =
        ["Node_add", "Node_add__iter", "Node_Leaf_add", "Node_index", "Leaf_add"] := by
  have hids : (Model.ofSpec overloaded).toOption.map
      (fun m => (m.classes.flatMap (·.methods)).map Method.id) =
        some ["Node_add", "Node_add__iter", "Node_Leaf_add", "Node_index", "Leaf_add"] := by
    decide +kernel
  cases hm : Model.ofSpec overloaded with
  | error e => rw [hm] at hids; cases hids
  | ok m =>
    rw [hm] at hids
    exact ⟨m, rfl, (nodup_functionNames hm).1, (nodup_functionNames hm).2, Option.some.inj hids⟩

end Model

end LuaGlue
