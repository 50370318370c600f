import LuaGlue.Proofs.Model.Classes
import Mathlib.Data.List.Permutation

/-!
# Which specifications have a model

- **The rules** (`Spec.Bindable`): names are told apart, type expressions are in scope, bases are classes
  without infinite chains, members can be told apart and called from the host, and shared ownership goes
  without inheritance. The rules are stated on the specification.
- **The check of a class** (`checkClass_iff`): what it comes to on the declaration.
- **Exactness** (`bindable_of_model`, `model_of_bindable`): a specification read from a
  document, with texts for names, has a model exactly when it keeps the rules.
-/

namespace LuaGlue

open Document (Value)
open Document.Value (Distinct)

namespace Spec

variable {s : Spec} {r : Registry}

/-! ## The rules -/

/-- The names of the specification are texts, and so is every base that is given. -/
structure TextNames (s : Spec) : Prop where
  names : ∀ v ∈ s.names, ∃ n, v = .str n
  methods : ∀ e ∈ s.allClasses, ∀ o ∈ e.2.1.overloads, ∃ n, o.1 = .str n
  constructors : ∀ e ∈ s.allClasses, ∀ c ∈ e.2.1.constructors, ∃ n, c.1 = .str n
  properties : ∀ e ∈ s.allClasses, ∀ p ∈ e.2.1.properties, ∃ n, p.1 = .str n
  bases : ∀ e ∈ s.allClasses, e.2.1.base = .null ∨ ∃ n, e.2.1.base = .str n

/-- The names in which no underscore may stand. -/
def plainNames (s : Spec) : List Value :=
  s.allClasses.map (·.1) ++ s.enums.map (·.1) ++ s.records.map (·.1) ++ s.keyTypes.map (·.1)
    ++ s.opaqueTypes

/-- The specification keeps the rules of the bound model. -/
structure Bindable (s : Spec) : Prop where
  /-- No name is declared twice. -/
  distinct : s.names.Nodup
  plain : ∀ v ∈ s.plainNames, '_' ∉ v.text.toList
  /-- An alias mentions names that are no aliases, and earlier aliases. -/
  aliases : ∀ pre a post, s.aliases = pre ++ a :: post →
    s.InScope (s.entityNames ++ pre.map (·.1)) a.2
  /-- All other expressions may mention all names. -/
  expressions : ∀ e ∈ s.expressions, s.InScope s.names e
  bases : ∀ e ∈ s.allClasses, e.2.1.base.truthy → ∃ c, s.HasBase e.2.1 c
  /-- No chain of bases is infinite. -/
  chains : WellFounded s.IsBase
  members : ∀ e ∈ s.allClasses, e.2.1.memberNames.Nodup
  unreserved : ∀ e ∈ s.allClasses, ∀ v ∈ e.2.1.memberNames, ¬Registry.isReserved v.text
  /-- An iterable class leaves the name of the iterator to the host. -/
  iterators : ∀ e ∈ s.allClasses, e.2.1.iterable.isSome →
    ∀ v ∈ e.2.1.instanceNames, Text.snakeCase v.text ≠ iterName
  /-- Constructors name no result. -/
  constructors : ∀ e ∈ s.allClasses, ∀ c ∈ e.2.1.constructors, s.Denotes c.2.ret .void
  /-- The callbacks of asynchronous methods take an outcome. -/
  callbacks : ∀ e ∈ s.allClasses, ∀ o ∈ e.2.1.overloads, ∃ σ,
    s.Denotes (.func o.2.sig) (.func σ) ∧ σ.Awaitable
  /-- A class with shared handles has no base and is no base. -/
  shared : ∀ e ∈ s.allClasses, e.2.1.handle.truthy →
    ¬e.2.1.base.truthy ∧ ∀ n, ¬s.IsBase e.1.text n

/-! ## Names -/

theorem distinct_iff_nodup {names : List Value} (h : ∀ v ∈ names, ∃ n, v = .str n) :
    Distinct names ↔ names.Nodup := by
  refine ⟨fun hd => hd.imp_of_mem fun {a b} ha _ hne heq => ?_,
    fun hd => hd.imp_of_mem fun {a b} _ hb hne hsame => ?_⟩
  · obtain ⟨n, rfl⟩ := h a ha
    exact hne (by simp [← heq])
  · obtain ⟨n, rfl⟩ := h b hb
    exact hne (Document.Value.sameKey_str.mp hsame)

theorem forall_legal : (∀ d ∈ s.declarations, d.Legal) ↔
    ∀ v ∈ s.plainNames, ∃ n, v = .str n ∧ '_' ∉ n.toList := by
  have hclass (e : Value × ClassDecl × Bool) : (∀ d ∈ classDeclarations e.1 e.2.1, d.Legal) ↔
      ∃ n, e.1 = .str n ∧ '_' ∉ n.toList := by
    rw [classDeclarations, List.forall_mem_cons]
    split <;> simp [Declaration.Legal]
  simp only [declarations, plainNames, List.forall_mem_append, List.forall_mem_map,
    List.forall_mem_flatMap, hclass]
  simp [Declaration.Legal]

theorem isKey_of_text {v : Value} (h : ∃ n, v = .str n) : v.isKey := by
  obtain ⟨n, rfl⟩ := h
  rfl

theorem plainNames_subset : s.plainNames ⊆ s.names := by
  intro v hv
  simp only [plainNames, List.mem_append] at hv
  simp only [names, entityNames, List.mem_append, List.mem_flatMap]
  rcases hv with (((hv | hv) | hv) | hv) | hv
  · obtain ⟨e, he, rfl⟩ := List.mem_map.mp hv
    have hclass : ∃ e' ∈ s.allClasses, e.1 ∈ classNames e' := ⟨e, he, by simp [classNames]⟩
    simp [hclass]
  all_goals simp [hv]

/-- Declaring the names of a specification, if they are texts. -/
theorem ofSpec_ok_iff_of_texts (h : ∀ v ∈ s.names, ∃ n, v = .str n) :
    (∃ r, Registry.ofSpec s = .ok r) ↔ s.names.Nodup ∧ (∀ v ∈ s.plainNames, '_' ∉ v.text.toList) ∧
      ∀ pre a post, s.aliases = pre ++ a :: post →
        s.InScope (s.entityNames ++ pre.map (·.1)) a.2 := by
  have hdeclared : ∀ d ∈ s.declarations, d.key.isKey := by
    intro d hd
    refine isKey_of_text (h d.key (List.mem_append_left _ ?_))
    rw [← map_key_declarations]
    exact List.mem_map_of_mem hd
  have haliases : ∀ a ∈ s.aliases, a.1.isKey := by
    intro a ha
    exact isKey_of_text (h a.1 (List.mem_append_right _ (List.mem_map_of_mem ha)))
  have hplain : (∀ v ∈ s.plainNames, ∃ n, v = .str n ∧ '_' ∉ n.toList) ↔
      ∀ v ∈ s.plainNames, '_' ∉ v.text.toList := by
    refine forall₂_congr fun v hv => ?_
    obtain ⟨n, rfl⟩ := h v (plainNames_subset hv)
    simp [Document.Value.text]
  rw [ofSpec_ok_iff, distinct_iff_nodup h, ← hplain, ← forall_legal]
  constructor
  · rintro ⟨hlegal, -, hd, hscope⟩; exact ⟨hd, fun d hd => (hlegal d hd).1, hscope⟩
  · rintro ⟨hd, hlegal, hscope⟩
    exact ⟨fun d hd => ⟨hlegal d hd, hdeclared d hd⟩, haliases, hd, hscope⟩

/-! ## Members -/

theorem TextNames.memberNames (h : s.TextNames) {e : Value × ClassDecl × Bool}
    (he : e ∈ s.allClasses) : ∀ v ∈ e.2.1.memberNames, ∃ n, v = .str n := by
  have hoverload {o : Value × MethodDecl} (ho : o ∈ e.2.1.overloads) :
      ∃ n, overloadName o.1 o.2.suffix = .str n := by
    obtain ⟨n, hn⟩ := h.methods e he o ho
    rw [overloadName, hn]
    split
    · exact ⟨_, rfl⟩
    · exact ⟨n, rfl⟩
  refine ClassDecl.forall_mem_memberNames.mpr ⟨fun o ho => ?_, fun o ho => ?_,
    h.constructors e he, h.properties e he⟩
  · exact hoverload (List.mem_append_left _ ho)
  · exact hoverload (List.mem_append_right _ ho)

theorem bindBase_ok_iff (h : s.Registered r) {owner : String} {d : ClassDecl}
    (hbase : d.base = .null ∨ ∃ n, d.base = .str n) :
    (∃ b, bindBase r owner d.base = .ok b) ↔ (d.base.truthy → ∃ c, s.HasBase d c) := by
  have hkey : d.base.isKey := by
    rcases hbase with hnull | ⟨n, hn⟩
    · rw [hnull]; rfl
    · rw [hn]; rfl
  simp only [bindBase_eq_ok, HasBase, ← h.find?_eq_some]
  by_cases htruthy : d.base.truthy <;> simp [htruthy, hkey]

/-- Binding a class whose names are texts. -/
theorem bindClass_ok_iff_of_texts (h : s.Registered r) (htexts : s.TextNames)
    {e : Value × ClassDecl × Bool} (he : e ∈ s.allClasses) :
    (∃ c, bindClass r e.1 e.2.1 e.2.2 = .ok c) ↔
      (∀ t ∈ e.2.1.expressions, s.InScope s.names t) ∧
      (∀ v ∈ e.2.1.memberNames, ¬Registry.isReserved v.text) ∧
      (e.2.1.base.truthy → ∃ c, s.HasBase e.2.1 c) ∧
      ∀ c ∈ e.2.1.constructors, s.Denotes c.2.ret .void := by
  have hmembers : (∀ v ∈ e.2.1.memberNames, ∃ u, v = .str u ∧ ¬Registry.isReserved u) ↔
      ∀ v ∈ e.2.1.memberNames, ¬Registry.isReserved v.text := by
    refine forall₂_congr fun v hv => ?_
    obtain ⟨n, rfl⟩ := htexts.memberNames he v hv
    simp [Document.Value.text]
  rw [bindClass_ok_iff, hmembers, bindBase_ok_iff h (htexts.bases e he)]
  simp only [h.resolve_ok_iff]
  refine and_congr_right fun hscope => and_congr_right fun _ => and_congr_right fun _ => ?_
  refine forall₂_congr fun c hc => ?_
  -- the result is in scope with the whole function type
  have hsig := (ClassDecl.forall_mem_expressions.mp hscope).2.2.2.1 c hc
  rw [h.resolve_iff]
  obtain ⟨name, params, ret, quals⟩ := c
  cases hsig with
  | func _ _ hret => exact and_iff_right hret

/-! ## Checks -/

/-- What a class is checked for. -/
structure Passes (s : Spec) (e : Value × ClassDecl × Bool) : Prop where
  members : e.2.1.memberNames.Nodup
  iterators : e.2.1.iterable.isSome →
    ∀ v ∈ e.2.1.instanceNames, Text.snakeCase v.text ≠ iterName
  callbacks : ∀ o ∈ e.2.1.overloads, ∃ σ, s.Denotes (.func o.2.sig) (.func σ) ∧ σ.Awaitable
  shared : e.2.1.handle.truthy → ¬e.2.1.base.truthy ∧ ∀ n, ¬s.IsBase e.1.text n

namespace Declares

variable {declared classes : List Class} {e : Value × ClassDecl × Bool} {c : Class}

theorem nodup_uniqueNames {ms ss cs ps : List Method}
    (h : BoundClass r e.1 e.2.1 c ms ss cs ps) :
    (c.methods.map (·.uniqueName)).Nodup ↔ e.2.1.memberNames.Nodup := by
  have hinj : Function.Injective Value.str := fun a b hab => by cases hab; rfl
  rw [← h.memberNames, ← List.nodup_map_iff hinj, List.map_map]
  rfl

theorem iterator_free {ms ss cs ps : List Method} (h : BoundClass r e.1 e.2.1 c ms ss cs ps) :
    (c.iterable.isSome → ∀ m ∈ c.methods, ¬m.isStatic → m.displayName ≠ iterName) ↔
      (e.2.1.iterable.isSome → ∀ v ∈ e.2.1.instanceNames, Text.snakeCase v.text ≠ iterName) := by
  have hsome {t : Option TypeExpr} {u : Option Ty}
      (hrel : Option.Rel (fun t u => r.resolve t = .ok u) t u) : u.isSome = t.isSome := by
    cases hrel <;> rfl
  rw [hsome h.iterable, ← h.instanceNames]
  simp only [List.forall_mem_map, List.mem_filter, and_imp]
  simp [Method.displayName, Document.Value.text]

theorem callbacks_iff (h : s.Declares r declared) (hscope : ∀ t ∈ e.2.1.expressions,
      s.InScope s.names t) {ms ss cs ps : List Method}
    (hbound : BoundClass r e.1 e.2.1 c ms ss cs ps)
    (hfilled : ∀ t ∈ e.2.1.expressions, ∀ u, s.Denotes t u → u.Filled) :
    (∀ m ∈ c.methods, ∃ form, m.sig.async? = .ok form) ↔ ∀ o ∈ e.2.1.overloads, ∃ σ,
      s.Denotes (.func o.2.sig) (.func σ) ∧ σ.Awaitable := by
  have hparams := hbound.filled_params fun t ht u hu => hfilled t ht u (h.registered.resolve_iff.mp hu).2
  have hasync : (∀ m ∈ c.methods, ∃ form, m.sig.async? = .ok form) ↔
      ∀ m ∈ c.methods, m.sig.Awaitable :=
    forall₂_congr fun m hm => Signature.async_ok_iff (hparams m hm)
  rw [hasync, hbound.forall_awaitable]
  refine forall₂_congr fun o ho => ?_
  have hsig : s.InScope s.names (.func o.2.sig) := by
    refine hscope _ ?_
    simp only [ClassDecl.expressions, List.mem_append]
    exact .inl (.inl (.inl (List.mem_map_of_mem ho)))
  obtain ⟨t, ht⟩ := h.registered.resolve_ok_iff.mpr hsig
  obtain ⟨σ, -, rfl⟩ := Registry.resolve_func.mp ht
  constructor
  · intro hall
    exact ⟨σ, (h.registered.resolve_iff.mp ht).2, hall σ ht⟩
  · rintro ⟨σ', hσ', hawait⟩ τ hτ
    have heq := h.registered.resolve_iff.mpr ⟨hsig, hσ'⟩
    rw [hτ] at heq; cases heq
    exact hawait

theorem shared_iff (h : s.Declares r declared) (hclasses : ∀ d, d ∈ classes ↔ d ∈ declared)
    (hc : bindClass r e.1 e.2.1 e.2.2 = .ok c) :
    (c.ref.shared → c.base = none ∧ ∀ d ∈ classes, ∀ b, d.base = some b → b.name ≠ c.name) ↔
      (e.2.1.handle.truthy → ¬e.2.1.base.truthy ∧ ∀ n, ¬s.IsBase e.1.text n) := by
  have hshared : c.ref.shared = e.2.1.handle.truthy := by rw [ref_of_bindClass hc]; rfl
  rw [hshared, base_eq_none hc, name_of_bindClass hc]
  refine imp_congr_right fun _ => and_congr_right fun _ => ?_
  simp only [h.isBase_iff, hclasses]
  constructor
  · rintro hall n ⟨d, hd, -, b, hb, hname⟩; exact hall d hd b hb hname
  · intro hall d hd b hb hname; exact hall d.name ⟨d, hd, rfl, b, hb, hname⟩

/-- The check of a bound class, on its declaration. -/
theorem checkClass_iff (h : s.Declares r declared) (hclasses : ∀ d, d ∈ classes ↔ d ∈ declared)
    (hc : bindClass r e.1 e.2.1 e.2.2 = .ok c)
    (hfilled : ∀ t ∈ e.2.1.expressions, ∀ u, s.Denotes t u → u.Filled) :
    checkClass classes c = .ok () ↔ s.Passes e := by
  obtain ⟨-, -, ms, ss, cs, ps, hbound⟩ := bindClass_eq_ok.mp hc
  have hscope : ∀ t ∈ e.2.1.expressions, s.InScope s.names t := fun t ht =>
    h.registered.resolve_ok_iff.mp ((bindClass_ok_iff.mp ⟨c, hc⟩).1 t ht)
  rw [checkClass_eq_ok, checkMethods_eq_ok, h.shared_iff hclasses hc, nodup_uniqueNames hbound,
    iterator_free hbound, h.callbacks_iff hscope hbound hfilled]
  constructor
  · rintro ⟨⟨-, hmembers, hiterators, hcallbacks⟩, hshared⟩
    exact ⟨hmembers, hiterators, hcallbacks, hshared⟩
  · rintro ⟨hmembers, hiterators, hcallbacks, hshared⟩
    exact ⟨⟨by simp, hmembers, hiterators, hcallbacks⟩, hshared⟩

end Declares

/-! ## Exactness -/

theorem class_expressions_subset {e : Value × ClassDecl × Bool} (he : e ∈ s.allClasses) :
    e.2.1.expressions ⊆ s.expressions := by
  intro t ht
  obtain ⟨-, -, hclasses, -⟩ := forall_mem_expressions.mp fun t (ht : t ∈ s.expressions) => ht
  exact hclasses e he t ht

theorem filled_of_ofDocument {doc : Document.Entries} (h : ofDocument doc = .ok s)
    {e : Value × ClassDecl × Bool} (he : e ∈ s.allClasses) :
    ∀ t ∈ e.2.1.expressions, ∀ u, s.Denotes t u → u.Filled := by
  obtain ⟨haliases, hexpressions⟩ := wellFormed_of_ofDocument h
  intro t ht u hu
  exact filled_of_denotes haliases (hexpressions t (class_expressions_subset he ht)) hu

theorem bindable_of_model {doc : Document.Entries} (hdoc : ofDocument doc = .ok s)
    (htexts : s.TextNames) {m : Model} (hm : Model.ofSpec s = .ok m) : s.Bindable := by
  obtain ⟨r, declared, classes, hr, hexpr, hbound, hord, hcheck⟩ := Model.ofSpec_ok_iff.mp ⟨m, hm⟩
  obtain ⟨hdistinct, hplain, haliases⟩ := (ofSpec_ok_iff_of_texts htexts.names).mp ⟨r, hr⟩
  have hdecl := declares_of_mapM hr hbound
  obtain ⟨rfl, hlevels⟩ := (ClassForest.orderClasses_eq_ok_iff hdecl.nodup_names).mp hord
  have hclasses := fun d => ClassForest.mem_forest_iff hdecl.nodup_names hlevels (c := d)
  have hclass {e : Value × ClassDecl × Bool} (he : e ∈ s.allClasses) :=
    (bindClass_ok_iff_of_texts hdecl.registered htexts he).mp (Except.mapM_ok_iff.mp ⟨_, hbound⟩ e he)
  -- every declared class is among the ordered ones, so its check has been made
  have hpasses : ∀ e ∈ s.allClasses, s.Passes e := by
    intro e he
    obtain ⟨c, hc, hbind⟩ := hdecl.exists_class he
    refine (hdecl.checkClass_iff hclasses hbind (filled_of_ofDocument hdoc he)).mp ?_
    exact hcheck c ((hclasses c).mpr hc)
  exact {
    distinct := hdistinct
    plain := hplain
    aliases := haliases
    expressions := fun t ht => hdecl.registered.resolve_ok_iff.mp (hexpr t ht)
    bases := fun e he => (hclass he).2.2.1
    chains := hdecl.levels_iff.mp hlevels
    members := fun e he => (hpasses e he).members
    unreserved := fun e he => (hclass he).2.1
    iterators := fun e he => (hpasses e he).iterators
    constructors := fun e he => (hclass he).2.2.2
    callbacks := fun e he => (hpasses e he).callbacks
    shared := fun e he => (hpasses e he).shared }

theorem model_of_bindable {doc : Document.Entries} (hdoc : ofDocument doc = .ok s)
    (htexts : s.TextNames) (h : s.Bindable) : ∃ m, Model.ofSpec s = .ok m := by
  obtain ⟨r, hr⟩ := (ofSpec_ok_iff_of_texts htexts.names).mpr ⟨h.distinct, h.plain, h.aliases⟩
  have hreg := registered_of_ofSpec hr
  obtain ⟨declared, hbound⟩ : ∃ declared,
      s.allClasses.mapM (fun e => bindClass r e.1 e.2.1 e.2.2) = .ok declared := by
    refine Except.mapM_ok_iff.mpr fun e he => (bindClass_ok_iff_of_texts hreg htexts he).mpr ?_
    exact ⟨fun t ht => h.expressions t (class_expressions_subset he ht), h.unreserved e he, h.bases e he,
      h.constructors e he⟩
  have hdecl := declares_of_mapM hr hbound
  have hlevels := hdecl.levels_iff.mpr h.chains
  have hclasses := fun d => ClassForest.mem_forest_iff hdecl.nodup_names hlevels (c := d)
  refine Model.ofSpec_ok_iff.mpr ⟨r, declared, ClassForest.forest declared, hr, ?_, hbound, ?_, ?_⟩
  · intro t ht
    exact hreg.resolve_ok_iff.mpr (h.expressions t ht)
  · exact (ClassForest.orderClasses_eq_ok_iff hdecl.nodup_names).mpr ⟨rfl, hlevels⟩
  · intro c hc
    obtain ⟨e, he, hbind⟩ := hdecl.exists_declaration ((hclasses c).mp hc)
    refine (hdecl.checkClass_iff hclasses hbind (filled_of_ofDocument hdoc he)).mpr ?_
    exact ⟨h.members e he, h.iterators e he, h.callbacks e he, h.shared e he⟩

/-- **Exactness of binding.** A specification read from a document, with texts for names, has a model
exactly when it keeps the rules. -/
theorem ofSpec_ok_iff_bindable {doc : Document.Entries} (hdoc : ofDocument doc = .ok s)
    (htexts : s.TextNames) : (∃ m, Model.ofSpec s = .ok m) ↔ s.Bindable :=
  ⟨fun ⟨_, hm⟩ => bindable_of_model hdoc htexts hm, model_of_bindable hdoc htexts⟩

/-- A class with an asynchronous method, derived through an alias from a class declared after it. -/
def aliasedBase : Spec where
  primitives := [.str "void", .str "Status"]
  templates := [(.str "AsyncCallback", .any)]
  aliases := [(.str "Root", .named "Base")]
  classes :=
    [(.str "Leaf", {
        native := .str "Leaf"
        base := .str "Root"
        handle := .null
        methods := [(.str "open", [{ sig := ⟨[("done", .template "AsyncCallback"
          [.func ⟨[("err", .named "Status")], .named "void", {}⟩])], .named "void", {}⟩ }])]
        statics := [] }),
      (.str "Base", {
        native := .str "Base"
        base := .null
        handle := .null
        methods := []
        statics := []
        constructors := [(.str "make", ⟨[], .named "void", {}⟩)] })]

/-- A document that describes it. -/
def aliasedBaseDocument : Document.Entries :=
  [(.str "primitives", .list [.str "void", .str "Status"]),
    (.str "templates", .map [(.str "AsyncCallback", .str "*")]),
    (.str "typeAliases", .map [(.str "Root", .str "Base")]),
    (.str "classes", .map [
      (.str "Leaf", .map [(.str "base", .str "Root"), (.str "methods", .map
        [(.str "open", .str "(done: AsyncCallback<(err: Status) -> void>)")])]),
      (.str "Base", .map [(.str "constructors", .map [(.str "make", .str "()")])])])]

/-- The rules hold of a class that is derived through an alias. -/
theorem bindable_aliasedBase :
    ofDocument aliasedBaseDocument = .ok aliasedBase ∧ aliasedBase.TextNames ∧
      aliasedBase.Bindable := by
  have hdoc : ofDocument aliasedBaseDocument = .ok aliasedBase := by cbv
  have hnames : aliasedBase.names =
      [.str "void", .str "Status", .str "Leaf", .str "Base", .str "Root"] := rfl
  have htexts : aliasedBase.TextNames := by
    refine ⟨by simp [hnames], ?_, ?_, ?_, ?_⟩
    all_goals simp [aliasedBase, allClasses, ClassDecl.overloads, overloads]
  exact ⟨hdoc, htexts, (ofSpec_ok_iff_bindable hdoc htexts).mp ⟨_, rfl⟩⟩

end Spec

end LuaGlue
