import LuaGlue.Proofs.Model.Classes

/-!
# The order of the classes of a model

- **Subclasses and descendants** (`subclasses_eq`, `descendants_eq`): in the model they are those of the
  declared classes, in the order of their declaration.
- **Roots** (`rootBase_root`, `rootBase_step`): following the bases of a class ends at a base-less one.
- **The order** (`Model.DepthFirst`): the classes of a model are the declared ones,
  depth first, each with all that is below it right behind it.
-/

namespace LuaGlue

open Document (Value)
open ClassForest (Level below derived forest)

namespace Model

variable {s : Spec} {m : Model} {declared : List Class}

/-- The descendants of a class in a model are what the search of `ClassForest` finds below it, at every depth.
-/
theorem descendantsTo_eq_below (depth : Nat) (name : String) :
    m.descendantsTo depth name = below m.classes depth name := by
  induction depth generalizing name with
  | zero => rfl
  | succ depth ih =>
    rw [descendantsTo, below]
    refine List.flatMap_congr fun c _ => ?_
    rw [ih]

namespace BoundFrom

theorem declares (h : BoundFrom s declared m) : s.Declares m.registry declared :=
  Spec.declares_of_mapM h.registry h.bound

/-- The classes of a model are the `forest` of the declared ones, by `orderClasses_eq_ok_iff`. -/
theorem classes_eq (h : BoundFrom s declared m) : m.classes = forest declared :=
  ((ClassForest.orderClasses_eq_ok_iff h.declares.nodup_names).mp h.ordered).1

/-- Every declared class has a level, since ordering has succeeded. -/
theorem levels (h : BoundFrom s declared m) : ∀ c ∈ declared, ∃ k, Level declared c k :=
  ((ClassForest.orderClasses_eq_ok_iff h.declares.nodup_names).mp h.ordered).2

theorem mem_classes (h : BoundFrom s declared m) {c : Class} : c ∈ m.classes ↔ c ∈ declared := by
  rw [h.classes_eq]
  exact ClassForest.mem_forest_iff h.declares.nodup_names h.levels

/-- Ordering only permutes: no class is lost or doubled. -/
theorem perm_classes (h : BoundFrom s declared m) : m.classes.Perm declared := by
  have hnd := h.declares.nodup_names
  have hforest : m.classes.Nodup := h.classes_eq ▸ ClassForest.nodup_forest hnd
  exact (List.perm_ext_iff_of_nodup hforest (List.Nodup.of_map _ hnd)).mpr fun _ => h.mem_classes

theorem eq_of_name (h : BoundFrom s declared m) {c d : Class} (hc : c ∈ m.classes)
    (hd : d ∈ m.classes) (hname : c.name = d.name) : c = d :=
  ClassForest.eq_of_name h.declares.nodup_names (h.mem_classes.mp hc) (h.mem_classes.mp hd) hname

/-- The depth that the model searches to is enough for each of its classes. -/
theorem shallow (h : BoundFrom s declared m) {c : Class} (hc : c ∈ m.classes) :
    ClassForest.Shallow declared (declared.length - 1) c.name := by
  obtain ⟨k, hk⟩ := h.levels c (h.mem_classes.mp hc)
  exact hk.shallow h.declares.nodup_names

/-! ## Subclasses and descendants -/

/-- The subclasses of a class stand in the model in the order of their declaration. -/
theorem subclasses_eq (h : BoundFrom s declared m) {c : Class} (hc : c ∈ m.classes) :
    m.subclasses c.name = derived declared c.name := by
  have hderived : m.subclasses c.name = derived m.classes c.name := rfl
  rw [h.classes_eq] at hc hderived
  rw [hderived, ClassForest.derived_forest h.declares.nodup_names hc]

theorem mem_subclasses (h : BoundFrom s declared m) {c d : Class} (hc : c ∈ m.classes) :
    d ∈ m.subclasses c.name ↔ d ∈ m.classes ∧ ∃ b, d.base = some b ∧ b.name = c.name := by
  rw [h.subclasses_eq hc, ClassForest.mem_derived, h.mem_classes]

/-- The descendants of a class are those among the declared classes. The model searches to a greater depth,
which adds nothing. -/
theorem descendants_eq (h : BoundFrom s declared m) {c : Class} (hc : c ∈ m.classes) :
    m.descendants c = below declared (declared.length - 1) c.name := by
  have hpos : 0 < declared.length := List.length_pos_of_mem (h.mem_classes.mp hc)
  rw [descendants, descendantsTo_eq_below, h.perm_classes.length_eq]
  have hshallow := h.shallow hc
  rw [h.classes_eq] at hc ⊢
  -- one level less reaches all classes too, since the class itself takes one
  rw [ClassForest.below_forest h.declares.nodup_names hc, ← ClassForest.below_succ hshallow]
  congr 1
  omega

/-- The descendants of a class, unfolded once: each subclass, followed by its own descendants. -/
theorem descendants_cons (h : BoundFrom s declared m) {c : Class} (hc : c ∈ m.classes) :
    m.descendants c = (m.subclasses c.name).flatMap fun d => d :: m.descendants d := by
  rw [h.descendants_eq hc, ClassForest.below_eq_flatMap (h.shallow hc), ← h.subclasses_eq hc]
  refine List.flatMap_congr fun d hd => ?_
  rw [h.descendants_eq ((h.mem_subclasses hc).mp hd).1]

/-- A class and its descendants stand in the model side by side, by `block_infix_forest`. -/
theorem block (h : BoundFrom s declared m) {c : Class} (hc : c ∈ m.classes) :
    c :: m.descendants c <:+: m.classes := by
  rw [h.descendants_eq hc]
  rw [h.classes_eq] at hc ⊢
  exact ClassForest.block_infix_forest h.declares.nodup_names hc

theorem mem_descendants (h : BoundFrom s declared m) {c d : Class} (hc : c ∈ m.classes)
    (hd : d ∈ m.subclasses c.name) : d ∈ m.descendants c := by
  rw [h.descendants_cons hc]
  exact List.mem_flatMap.mpr ⟨d, hd, by simp⟩

/-- A descendant of a descendant is a descendant. -/
theorem descendants_trans (h : BoundFrom s declared m) {c d x : Class} (hc : c ∈ m.classes)
    (hd : d ∈ c :: m.descendants c) (hx : x ∈ m.descendants d) : x ∈ m.descendants c := by
  rcases List.mem_cons.mp hd with rfl | hd
  · exact hx
  · have hmem : d ∈ m.classes := (h.block hc).subset (List.mem_cons_of_mem _ hd)
    rw [h.descendants_eq hmem] at hx
    rw [h.descendants_eq hc] at hd ⊢
    exact (ClassForest.block_infix_below (h.shallow hc) hd).subset (List.mem_cons_of_mem _ hx)

/-- A class stands after the one it derives from, because it is in the block of its base. -/
theorem after_base (h : BoundFrom s declared m) {c d : Class} (hc : c ∈ m.classes)
    (hd : d ∈ m.subclasses c.name) :
    ∃ pre mid post, m.classes = pre ++ c :: mid ++ d :: post := by
  obtain ⟨pre, post, hsplit⟩ := h.block hc
  obtain ⟨mid, rest, hmid⟩ := List.append_of_mem (h.mem_descendants hc hd)
  exact ⟨pre, mid, rest ++ post, by rw [← hsplit, hmid]; simp⟩

/-! ## Declaration order -/

open Classical in
/-- The subclasses of a class are the declarations whose base leads to it, which `Spec.HasBase` says of the
specification alone. -/
theorem map_subclasses (h : BoundFrom s declared m) {c : Class} (hc : c ∈ m.classes) :
    (m.subclasses c.name).map Class.ref =
      (s.allClasses.filter fun e => s.HasBase e.2.1 c.ref).map fun e => e.2.1.ref e.1.text := by
  rw [h.subclasses_eq hc]
  refine Except.map_filter_of_mapM (fun he => Spec.ref_of_bindClass he) (fun {e d} he => ?_) h.bound
  rw [Bool.eq_iff_iff, decide_eq_true_iff, Option.any_eq_true]
  constructor
  · rintro ⟨b, hb, hname⟩
    have hbase := (h.declares.base_eq_some he).mp hb
    obtain ⟨p, hp, rfl⟩ := h.declares.exists_of_hasBase hbase
    rwa [← h.eq_of_name (h.mem_classes.mpr hp) hc (eq_of_beq hname)]
  · intro hbase
    exact ⟨c.ref, (h.declares.base_eq_some he).mpr hbase, by simp [Class.name]⟩

/-- The base-less classes are the declarations whose base counts as absent. -/
theorem map_roots (h : BoundFrom s declared m) :
    (m.classes.filter (·.base.isNone)).map Class.ref =
      (s.allClasses.filter fun e => !e.2.1.base.truthy).map fun e => e.2.1.ref e.1.text := by
  have hroots : m.classes.filter (·.base.isNone) = ClassForest.roots declared := by
    rw [h.classes_eq]
    exact ClassForest.roots_forest h.declares.nodup_names
  rw [hroots]
  refine Except.map_filter_of_mapM (fun he => Spec.ref_of_bindClass he) (fun {e d} he => ?_) h.bound
  rw [Bool.eq_iff_iff, Option.isNone_iff_eq_none, Spec.Declares.base_eq_none he]
  simp

/-! ## Roots -/

/-- A class is found under its name, as no other class of the model has the name. -/
theorem class?_name (h : BoundFrom s declared m) {c : Class} (hc : c ∈ m.classes) :
    m.class? c.name = some c := by
  rcases hfind : m.class? c.name with _ | d
  · have hnone := List.find?_eq_none.mp hfind c hc
    simp at hnone
  · have hname : d.name = c.name := by simpa using List.find?_some hfind
    rw [h.eq_of_name (List.mem_of_find?_eq_some hfind) hc hname]

/-- The base of a class is a class of the model. -/
theorem exists_base (h : BoundFrom s declared m) {c : Class} {b : ClassRef} (hc : c ∈ m.classes)
    (hb : c.base = some b) : ∃ p ∈ m.classes, p.ref = b := by
  obtain ⟨p, hp, href⟩ := h.declares.exists_base (h.mem_classes.mp hc) hb
  exact ⟨p, h.mem_classes.mpr hp, href⟩

theorem base_eq_ref (h : BoundFrom s declared m) {c p : Class} {b : ClassRef} (hc : c ∈ declared)
    (hb : c.base = some b) (hp : p ∈ declared) (hname : p.name = b.name) : c.base = some p.ref := by
  obtain ⟨q, hq, rfl⟩ := h.declares.exists_base hc hb
  rwa [ClassForest.eq_of_name h.declares.nodup_names hp hq hname]

theorem lineageTo_root {c : Class} (hb : c.base = none) (depth : Nat) :
    m.lineageTo (depth + 1) c = [c] := by
  rw [lineageTo, hb]
  rfl

/-- The lineage of a class is the class with the lineage of its base, one level less deep. -/
theorem lineageTo_step (h : BoundFrom s declared m) {c p : Class} (hp : p ∈ m.classes)
    (hb : c.base = some p.ref) (depth : Nat) :
    m.lineageTo (depth + 1) c = c :: m.lineageTo depth p := by
  have hfind : (c.base.bind fun b => m.class? b.name) = some p := by
    rw [hb]
    exact h.class?_name hp
  rw [lineageTo, hfind]

/-- The lineage of a class ends at one class, at any depth beyond the level of the class. So the depth that
`rootBase` searches to does not matter. -/
theorem getLast?_lineageTo (h : BoundFrom s declared m) {c : Class} {k : Nat}
    (hk : Level declared c k) :
    ∃ r, ∀ depth, k < depth → (m.lineageTo depth c).getLast? = some r := by
  -- the last class is fixed before the depth, which one step lowers as it does the level
  induction hk with
  | @root c _ hb =>
    refine ⟨c, fun depth hdepth => ?_⟩
    obtain ⟨depth, rfl⟩ := Nat.exists_eq_add_one.mpr hdepth
    rw [lineageTo_root hb]
    rfl
  | @step c p b k hc hb hname hp ih =>
    obtain ⟨r, hr⟩ := ih
    refine ⟨r, fun depth hdepth => ?_⟩
    obtain ⟨depth, rfl⟩ := Nat.exists_eq_add_one.mpr (Nat.zero_lt_of_lt hdepth)
    rw [h.lineageTo_step (h.mem_classes.mpr hp.mem) (h.base_eq_ref hc hb hp.mem hname),
      List.getLast?_cons, hr depth (by omega)]
    rfl

theorem rootBase_root {c : Class} (hc : c ∈ m.classes) (hb : c.base = none) :
    m.rootBase c = c := by
  obtain ⟨depth, hdepth⟩ := Nat.exists_eq_add_one.mpr (List.length_pos_of_mem hc)
  rw [rootBase, lineage, hdepth, lineageTo_root hb]
  rfl

/-- A class and its base have the same root, by `getLast?_lineageTo` at both. -/
theorem rootBase_step (h : BoundFrom s declared m) {c p : Class} (hc : c ∈ m.classes)
    (hp : p ∈ m.classes) (hb : c.base = some p.ref) : m.rootBase c = m.rootBase p := by
  obtain ⟨k, hk⟩ := h.levels p (h.mem_classes.mp hp)
  have hstep : Level declared c (k + 1) := .step (h.mem_classes.mp hc) hb rfl hk
  have hlength := hstep.lt_length h.declares.nodup_names
  rw [← h.perm_classes.length_eq] at hlength
  obtain ⟨depth, hdepth⟩ := Nat.exists_eq_add_one.mpr (Nat.zero_lt_of_lt hlength)
  obtain ⟨r, hr⟩ := h.getLast?_lineageTo hk
  rw [rootBase, rootBase, lineage, lineage, hr _ (by omega), hdepth, h.lineageTo_step hp hb,
    List.getLast?_cons, hr depth (by omega)]
  rfl

/-- The root of a class is a base-less class that has the class in its block. By induction over the level. -/
theorem rootBase_of_level (h : BoundFrom s declared m) {c : Class} {k : Nat}
    (hk : Level declared c k) :
    m.rootBase c ∈ m.classes ∧ (m.rootBase c).base = none ∧
      c ∈ m.rootBase c :: m.descendants (m.rootBase c) := by
  induction hk with
  | @root c hc hb =>
    have hmem := h.mem_classes.mpr hc
    rw [rootBase_root hmem hb]
    exact ⟨hmem, hb, by simp⟩
  | @step c p b k hc hb hname hp ih =>
    -- the root is that of the base, and its block holds the block of the base
    obtain ⟨hroot, hnone, hblock⟩ := ih
    have hmem := h.mem_classes.mpr hp.mem
    have hsub : c ∈ m.subclasses p.name :=
      (h.mem_subclasses hmem).mpr ⟨h.mem_classes.mpr hc, b, hb, hname.symm⟩
    rw [h.rootBase_step (h.mem_classes.mpr hc) hmem (h.base_eq_ref hc hb hp.mem hname)]
    refine ⟨hroot, hnone, List.mem_cons_of_mem _ ?_⟩
    exact h.descendants_trans hroot hblock (h.mem_descendants hmem hsub)

/-! ## Shared classes -/

/-- A class with shared handles stands by itself, as `checkClass` makes sure. -/
theorem shared (h : BoundFrom s declared m) {c : Class} (hc : c ∈ m.classes)
    (hshared : c.ref.shared) : c.base = none ∧ m.subclasses c.name = [] := by
  obtain ⟨hbase, hderived⟩ := (checkClass_eq_ok.mp (h.checked c hc)).2 hshared
  refine ⟨hbase, List.eq_nil_iff_forall_not_mem.mpr fun d hd => ?_⟩
  obtain ⟨hmem, b, hb, hname⟩ := (h.mem_subclasses hc).mp hd
  exact hderived d hmem b hb hname

/-! ## Every declared class -/

theorem perm_declared (h : BoundFrom s declared m) :
    (m.classes.map fun c => (c.ref, c.isInterface)).Perm
      (s.allClasses.map fun e => (e.2.1.ref e.1.text, e.2.2)) := by
  have hdeclared : (declared.map fun c => (c.ref, c.isInterface)) =
      s.allClasses.map fun e => (e.2.1.ref e.1.text, e.2.2) := by
    refine Except.map_of_mapM (fun {e c} he => ?_) h.bound
    rw [Spec.ref_of_bindClass he, (bindClass_eq_ok.mp he).1]
  rw [← hdeclared]
  exact h.perm_classes.map _

theorem nodup_classes (h : BoundFrom s declared m) : (m.classes.map Class.name).Nodup :=
  (h.perm_classes.map Class.name).nodup_iff.mpr h.declares.nodup_names

end BoundFrom

/-! ## The order -/

open Classical in
/-- The classes of the model are those of the specification, depth first: every class, then all that
is below it, subclasses and base-less classes each in the order of their declaration. -/
structure DepthFirst (m : Model) (s : Spec) : Prop where
  /-- Every declared class and interface is there, once. -/
  declared : (m.classes.map fun c => (c.ref, c.isInterface)).Perm
    (s.allClasses.map fun e => (e.2.1.ref e.1.text, e.2.2))
  distinct : (m.classes.map Class.name).Nodup
  after_base : ∀ d ∈ m.classes, ∀ b, d.base = some b →
    ∃ c pre mid post, m.classes = pre ++ c :: mid ++ d :: post ∧ c.ref = b
  /-- Right behind a class stand its descendants. -/
  block : ∀ c ∈ m.classes, ∃ pre post, m.classes = pre ++ c :: m.descendants c ++ post
  descendants : ∀ c ∈ m.classes,
    m.descendants c = (m.subclasses c.name).flatMap fun d => d :: m.descendants d
  subclasses : ∀ c ∈ m.classes, (m.subclasses c.name).map Class.ref =
    (s.allClasses.filter fun e => s.HasBase e.2.1 c.ref).map fun e => e.2.1.ref e.1.text
  roots : (m.classes.filter (·.base.isNone)).map Class.ref =
    (s.allClasses.filter fun e => !e.2.1.base.truthy).map fun e => e.2.1.ref e.1.text
  root_self : ∀ c ∈ m.classes, c.base = none → m.rootBase c = c
  root_base : ∀ c ∈ m.classes, ∀ p ∈ m.classes, c.base = some p.ref → m.rootBase c = m.rootBase p
  root : ∀ c ∈ m.classes, m.rootBase c ∈ m.classes ∧ (m.rootBase c).base = none ∧
    c ∈ m.rootBase c :: m.descendants (m.rootBase c)
  shared : ∀ c ∈ m.classes, c.ref.shared → c.base = none ∧ m.subclasses c.name = []

/-- **The order of the classes.** The classes of a bound specification stand depth first, each before its
descendants, which follow it without a gap. -/
theorem depthFirst_of_ofSpec (h : Model.ofSpec s = .ok m) : m.DepthFirst s := by
  obtain ⟨declared, hbound⟩ := Model.ofSpec_eq_ok.mp h
  constructor
  case declared => exact hbound.perm_declared
  case distinct => exact hbound.nodup_classes
  case after_base =>
    intro d hd b hb
    obtain ⟨c, hc, rfl⟩ := hbound.exists_base hd hb
    have hsub := (hbound.mem_subclasses hc).mpr ⟨hd, c.ref, hb, rfl⟩
    obtain ⟨pre, mid, post, hsplit⟩ := hbound.after_base hc hsub
    exact ⟨c, pre, mid, post, hsplit, rfl⟩
  case block =>
    intro c hc
    obtain ⟨pre, post, hsplit⟩ := hbound.block hc
    exact ⟨pre, post, hsplit.symm⟩
  case descendants => exact fun c hc => hbound.descendants_cons hc
  case subclasses => exact fun c hc => hbound.map_subclasses hc
  case roots => exact hbound.map_roots
  case root_self => exact fun c hc hb => BoundFrom.rootBase_root hc hb
  case root_base => exact fun c hc p hp hb => hbound.rootBase_step hc hp hb
  case root =>
    intro c hc
    obtain ⟨k, hk⟩ := hbound.levels c (hbound.mem_classes.mp hc)
    exact hbound.rootBase_of_level hk
  case shared => exact fun c hc hshared => hbound.shared hc hshared

/-- A class or interface without members. -/
def memberless (name : String) (base handle : Value) : Spec.Surface where
  native := .str name
  base := base
  handle := handle
  methods := []
  statics := []

/-- Classes declared before their bases, one of them derived through an alias of an interface. -/
def scattered : Spec where
  aliases := [(.str "Inner", .named "Mid")]
  classes :=
    [(.str "Leaf", { memberless "Leaf" (.str "Inner") .null with }),
      (.str "Side", { memberless "Side" (.str "Base") .null with }),
      (.str "Pool", { memberless "Pool" .null (.str "PoolRef") with }),
      (.str "Base", { memberless "Base" .null .null with })]
  interfaces := [(.str "Mid", memberless "Mid" (.str "Base") .null)]

/-- The classes of `scattered` are declared bottom up, and the model has them top down. -/
theorem depthFirst_scattered :
    ∃ m, Model.ofSpec scattered = .ok m ∧ m.DepthFirst scattered ∧
      m.classes.map Class.name = ["Pool", "Base", "Side", "Mid", "Leaf"] :=
  ⟨_, rfl, depthFirst_of_ofSpec rfl, rfl⟩

end Model

end LuaGlue
