import LuaGlue.Proofs.Model.Closure

/-!
# Aliases are transparent

A specification can be written without its aliases: wherever one is mentioned, the type that it stands for
can stand instead. The same goes for the names of shared handles, if the template of handles is declared.

- **Expansion** (`TypeExpr.expand`, `Spec.expand`): every mention of an alias is replaced by its body, which
  is expanded before it, and every mention of a handle by the template. Declarations stay.
- **What remains** (`Spec.Ultimate`): an expanded specification mentions no aliases, and no handles that it
  could spell (`BoundFrom.scoped_expressions`).
- **Transparency** (`BoundFrom.expand`): it has the same model.
-/

namespace LuaGlue

open Document (Value)
open Document.Value (Distinct)

/-! ## Expansion -/

mutual

/-- The expression with the names of the table replaced by what stands there. -/
def TypeExpr.expand (table : Spec.Table TypeExpr) : TypeExpr → TypeExpr
  | .named n =>
    match table.find? fun e => e.1.sameKey (.str n) with
    | some e => e.2
    | none => .named n
  | .template n args => .template n (TypeExpr.expandArgs table args)
  | .func ⟨params, ret, quals⟩ =>
    .func ⟨TypeExpr.expandParams table params, TypeExpr.expand table ret, quals⟩
  | .modified m inner => .modified m (TypeExpr.expand table inner)
  | .missing => .missing

/-- The template arguments, each expanded. -/
def TypeExpr.expandArgs (table : Spec.Table TypeExpr) : List TypeExpr → List TypeExpr
  | [] => []
  | e :: es => TypeExpr.expand table e :: TypeExpr.expandArgs table es

/-- The parameters with their types expanded. -/
def TypeExpr.expandParams (table : Spec.Table TypeExpr) :
    List (String × TypeExpr) → List (String × TypeExpr)
  | [] => []
  | (x, e) :: ps => (x, TypeExpr.expand table e) :: TypeExpr.expandParams table ps

end

namespace TypeExpr

variable {table : Spec.Table TypeExpr}

theorem expandArgs_eq_map (args : List TypeExpr) : expandArgs table args = args.map (expand table) := by
  induction args with
  | nil => rfl
  | cons e es ih => rw [expandArgs, ih, List.map_cons]

theorem expandParams_eq_map (params : List (String × TypeExpr)) :
    expandParams table params = params.map fun p => (p.1, expand table p.2) := by
  induction params with
  | nil => rfl
  | cons p ps ih => rw [expandParams, ih, List.map_cons]

end TypeExpr

/-- The signature with its types expanded. -/
def Signature.expand (table : Spec.Table TypeExpr) (sig : Signature TypeExpr) : Signature TypeExpr :=
  ⟨sig.params.map fun p => (p.1, p.2.expand table), sig.ret.expand table, sig.quals⟩

theorem TypeExpr.expand_func {table : Spec.Table TypeExpr} (sig : Signature TypeExpr) :
    TypeExpr.expand table (.func sig) = .func (sig.expand table) := by
  rw [TypeExpr.expand, TypeExpr.expandParams_eq_map, Signature.expand]

namespace Spec

/-- The methods with their signatures expanded. -/
def expandMethods (table : Table TypeExpr) (methods : Table (List MethodDecl)) :
    Table (List MethodDecl) :=
  methods.map fun e => (e.1, e.2.map fun d => { d with sig := d.sig.expand table })

def Surface.expand (table : Table TypeExpr) (d : Surface) : Surface := { d with
  methods := expandMethods table d.methods
  statics := expandMethods table d.statics }

def ClassDecl.expand (table : Table TypeExpr) (d : ClassDecl) : ClassDecl := { d with
  methods := expandMethods table d.methods
  statics := expandMethods table d.statics
  iterable := d.iterable.map (·.expand table)
  constructors := d.constructors.map fun e => (e.1, e.2.expand table)
  properties := d.properties.map fun e => (e.1, e.2.expand table) }

def RecordDecl.expand (table : Table TypeExpr) (d : RecordDecl) : RecordDecl := { d with
  fields := d.fields.map fun e => (e.1, { e.2 with type := e.2.type.expand table }) }

def MixedInfo.expand (table : Table TypeExpr) (d : MixedInfo) : MixedInfo := { d with
  types := d.types.map fun e => (e.1, { e.2 with type := e.2.type.expand table })
  extra := d.extra.map (·.expand table) }

/-- The names of shared handles, each with the template that it stands for. There are none if the template
of handles is not declared with one argument, because no expression could spell them. -/
def handles (s : Spec) : Table TypeExpr :=
  match s.arity? sharedPtrName with
  | some .any | some (.exact 1) =>
    (s.allClasses.filter (·.2.1.handle.truthy)).map fun e =>
      (e.2.1.handle, .template sharedPtrName [.named e.1.text])
  | _ => []

/-- The aliases with their bodies expanded, each seeing the table and the aliases before it. -/
def expandAliases (table : Table TypeExpr) : Table TypeExpr → Table TypeExpr
  | [] => []
  | a :: aliases =>
    (a.1, a.2.expand table) :: expandAliases (table ++ [(a.1, a.2.expand table)]) aliases

/-- All names that are replaced, and what replaces them. -/
def expansions (s : Spec) : Table TypeExpr := s.handles ++ expandAliases s.handles s.aliases

/-- The specification with all its type expressions expanded. -/
def expand (s : Spec) : Spec := { s with
  aliases := expandAliases s.handles s.aliases
  keyTypes := s.keyTypes.map fun e => (e.1, e.2.expand s.expansions)
  records := s.records.map fun e => (e.1, e.2.expand s.expansions)
  classes := s.classes.map fun e => (e.1, e.2.expand s.expansions)
  interfaces := s.interfaces.map fun e => (e.1, e.2.expand s.expansions)
  mixed := s.mixed.expand s.expansions }

/-- The name is declared, and neither as an alias nor as a handle that can be spelled. -/
def Ultimate (s : Spec) (n : String) : Prop :=
  .str n ∈ s.names ∧ .str n ∉ s.aliases.map (·.1) ∧ .str n ∉ s.handles.map (·.1)

variable {s : Spec} {table : Table TypeExpr}

theorem map_fst_expandAliases (aliases : Table TypeExpr) :
    (expandAliases table aliases).map (·.1) = aliases.map (·.1) := by
  induction aliases generalizing table with
  | nil => rfl
  | cons a aliases ih => rw [expandAliases, List.map_cons, List.map_cons, ih]

theorem allClasses_expand :
    s.expand.allClasses = s.allClasses.map fun e => (e.1, e.2.1.expand s.expansions, e.2.2) := by
  simp only [allClasses, expand, List.map_append, List.map_map]
  rfl

theorem overloads_expandMethods (methods : Table (List MethodDecl)) :
    overloads (expandMethods table methods) =
      (overloads methods).map fun o => (o.1, { o.2 with sig := o.2.sig.expand table }) := by
  simp only [overloads, expandMethods, List.flatMap_map, List.map_flatMap, List.map_map]
  rfl

theorem ClassDecl.expressions_expand (d : ClassDecl) :
    (d.expand table).expressions = d.expressions.map (·.expand table) := by
  simp only [ClassDecl.expressions, ClassDecl.overloads, ClassDecl.expand, overloads_expandMethods,
    List.map_append, List.map_map, Option.toList_map, Function.comp_def, TypeExpr.expand_func]

/-- The expanded specification has the expanded expressions, in the same order. -/
theorem expressions_expand : s.expand.expressions = s.expressions.map (·.expand s.expansions) := by
  simp only [expressions, allClasses_expand, List.map_append, List.flatMap_map, List.map_flatMap,
    ClassDecl.expressions_expand]
  simp only [expand, List.map_map, List.flatMap_map, RecordDecl.expand, MixedInfo.expand]
  rfl

/-- Expanding changes expressions only, so the entities that are declared stay the same. -/
theorem declarations_expand : s.expand.declarations = s.declarations := by
  simp only [declarations, allClasses_expand, List.flatMap_map]
  simp only [expand, List.map_map]
  rfl

end Spec

/-! ## What remains -/

/-- An expression made of known names is expanded to one made of those that remain, if the others are in the
table and what replaces them is made of names that remain. By induction over `Scoped`. -/
theorem Scoped.expand {arity? : String → Option Spec.Arity} {known remains : String → Prop}
    {table : Spec.Table TypeExpr} (hknown : ∀ n, known n → remains n ∨ .str n ∈ table.map (·.1))
    (htable : ∀ e ∈ table, Scoped arity? remains e.2) {e : TypeExpr} (h : Scoped arity? known e) :
    Scoped arity? remains (e.expand table) := by
  induction h with
  | @named n hn =>
    rw [TypeExpr.expand]
    split
    · rename_i e he
      exact htable e (List.mem_of_find?_eq_some he)
    · rename_i hnone
      rcases hknown n hn with hremains | hmem
      · exact .named hremains
      · obtain ⟨e, he, heq⟩ := List.mem_map.mp hmem
        exact absurd (by simp [heq]) (List.find?_eq_none.mp hnone e he)
  | template hn haccepts _ ih =>
    rw [TypeExpr.expand, TypeExpr.expandArgs_eq_map]
    exact .template hn (by rwa [List.length_map]) (List.forall_mem_map.mpr ih)
  | func hx _ _ ihp ihr =>
    rw [TypeExpr.expand, TypeExpr.expandParams_eq_map]
    exact .func (List.forall_mem_map.mpr hx) (List.forall_mem_map.mpr ihp) ihr
  | modified _ ih =>
    rw [TypeExpr.expand]
    exact .modified ih

/-- Expanded aliases are made of names that remain, if each sees only names before it. The table grows by one
alias at a time, as in `expandAliases`. -/
theorem Spec.scoped_expandAliases {arity? : String → Option Arity} {remains : String → Prop}
    {table aliases : Table TypeExpr} (names : List Value)
    (hknown : ∀ n, .str n ∈ names → remains n ∨ .str n ∈ table.map (·.1))
    (htable : ∀ e ∈ table, Scoped arity? remains e.2)
    (hscope : ∀ pre a post, aliases = pre ++ a :: post →
      Scoped arity? (fun n => .str n ∈ names ++ pre.map (·.1)) a.2) :
    ∀ e ∈ expandAliases table aliases, Scoped arity? remains e.2 := by
  induction aliases generalizing names table with
  | nil => intro e he; cases he
  | cons a aliases ih =>
    have hbody : Scoped arity? remains (a.2.expand table) :=
      Scoped.expand hknown htable (by simpa using hscope [] a aliases rfl)
    rw [expandAliases, List.forall_mem_cons]
    refine ⟨hbody, ih (names ++ [a.1]) (fun n hn => ?_) ?_ fun pre b post hsplit => ?_⟩
    · rw [List.mem_append, List.mem_singleton] at hn
      rw [List.map_append, List.mem_append]
      rcases hn with hn | hn
      · exact (hknown n hn).imp_right .inl
      · exact .inr (.inr (by simp [hn]))
    · exact List.forall_mem_append.mpr ⟨htable, List.forall_mem_singleton.mpr hbody⟩
    · have hb := hscope (a :: pre) b post (by rw [hsplit]; rfl)
      simpa using hb

/-! ## The same types -/

/-- In the registry, every name of the table stands for what the expression next to it stands for. -/
def Registry.Sound (r : Registry) (table : Spec.Table TypeExpr) : Prop :=
  ∀ e ∈ table, ∃ t, (e.1, t) ∈ r.types ∧ r.resolve e.2 = .ok t

namespace Registry

variable {r : Registry} {table : Spec.Table TypeExpr}

/-- Expanding does not change what an expression stands for, if the table is `Registry.Sound`. By induction over
the expression. -/
theorem resolve_expand (hd : Distinct r.keys) (hs : r.Sound table) {e : TypeExpr} {t : Ty}
    (h : r.resolve e = .ok t) : r.resolve (e.expand table) = .ok t := by
  induction e using TypeExpr.inductOn generalizing t with
  | named n =>
    rw [TypeExpr.expand]
    split
    · rename_i e he
      -- the table is sound: what replaces the name stands for the type of the name
      obtain ⟨u, hmem, hu⟩ := hs e (List.mem_of_find?_eq_some he)
      have hkey := List.find?_some he
      have hfind := find?_of_mem hd hmem hkey
      rw [resolve_named.mp h] at hfind
      cases hfind
      exact hu
    · exact h
  | template n args ih =>
    rw [TypeExpr.expand, TypeExpr.expandArgs_eq_map]
    obtain ⟨harity, ts, hts, rfl⟩ := resolve_template.mp h
    refine resolve_template.mpr ⟨by rwa [List.length_map], ts, ?_, rfl⟩
    exact Except.mapM_map (fun a ha t ht => ih a ha ht) hts
  | func params ret quals ihp ihr =>
    obtain ⟨σ, hσ, rfl⟩ := resolve_func.mp h
    obtain ⟨hret, hparams, hquals⟩ := resolveSignature_eq_ok.mp hσ
    rw [TypeExpr.expand_func]
    refine resolve_func.mpr ⟨σ, resolveSignature_eq_ok.mpr ⟨ihr hret, ?_, hquals⟩, rfl⟩
    refine Except.mapM_map (fun p hp q hq => ?_) hparams
    obtain ⟨hx, hname, ht⟩ := resolveParam_eq_ok.mp hq
    exact resolveParam_eq_ok.mpr ⟨hx, hname, ihp p hp ht⟩
  | modified m inner ih =>
    obtain ⟨u, hu, rfl⟩ := resolve_modified.mp h
    rw [TypeExpr.expand]
    exact resolve_modified.mpr ⟨u, ih hu, rfl⟩
  | missing => exact absurd h resolve_missing

/-- A sound table stays sound in a registry with more names, since resolved expressions keep their types. -/
theorem Sound.mono {r' : Registry} (hext : Extends r r') (hsub : r.types ⊆ r'.types)
    (h : r.Sound table) : r'.Sound table := by
  intro e he
  obtain ⟨t, hmem, ht⟩ := h e he
  exact ⟨t, hsub hmem, resolve_mono hext ht⟩

/-- Declaring expanded aliases gives the same registry, in which they stand for their bodies. -/
theorem foldlM_expandAliases {aliases : Spec.Table TypeExpr} {q : Registry} (hd : Distinct r.keys)
    (hs : r.Sound table) (h : aliases.foldlM declareAlias r = .ok q) :
    (Spec.expandAliases table aliases).foldlM declareAlias r = .ok q ∧
      q.Sound (table ++ Spec.expandAliases table aliases) := by
  induction aliases generalizing r table with
  | nil =>
    rw [List.foldlM_nil, Except.pure_eq_ok_iff] at h
    subst h
    exact ⟨rfl, by rwa [Spec.expandAliases, List.append_nil]⟩
  | cons a aliases ih =>
    rw [List.foldlM_cons, Except.bind_eq_ok] at h
    obtain ⟨mid, hmid, hrest⟩ := h
    obtain ⟨t, ht, hadd⟩ := declareAlias_eq_ok.mp hmid
    -- the alias and its expanded body stand for the same type, so both loops go on from the same registry
    have hbody := resolve_expand hd hs ht
    obtain ⟨hkey, hfresh, rfl⟩ := add_eq_ok.mp hadd
    have hd' : Distinct (r.push a.1 t).keys := by
      rw [keys_push]
      exact Document.Value.distinct_snoc.mpr ⟨hd, hfresh⟩
    have hsub : r.types ⊆ (r.push a.1 t).types := List.subset_append_left _ _
    have hext : Extends r (r.push a.1 t) := extends_of_subset rfl hd' hsub
    have hs' : (r.push a.1 t).Sound (table ++ [(a.1, a.2.expand table)]) := by
      refine List.forall_mem_append.mpr ⟨hs.mono hext hsub, List.forall_mem_singleton.mpr ?_⟩
      exact ⟨t, List.mem_append_right _ (by simp), resolve_mono hext hbody⟩
    obtain ⟨hfold, hsound⟩ := ih hd' hs' hrest
    rw [Spec.expandAliases, List.foldlM_cons, Except.bind_eq_ok]
    refine ⟨⟨r.push a.1 t, declareAlias_eq_ok.mpr ⟨t, hbody, hadd⟩, hfold⟩, ?_⟩
    rwa [List.append_cons]

end Registry

namespace Spec

variable {s : Spec} {r : Registry}

/-- A replaced handle belongs to a class that has one, and the template of handles takes one argument. -/
theorem mem_handles {e : Value × TypeExpr} (h : e ∈ s.handles) :
    (∃ arity, s.arity? sharedPtrName = some arity ∧ arity.Accepts 1) ∧ ∃ c ∈ s.allClasses,
      c.2.1.handle.truthy ∧ e = (c.2.1.handle, .template sharedPtrName [.named c.1.text]) := by
  have hclass (h : e ∈ (s.allClasses.filter (·.2.1.handle.truthy)).map fun c =>
      (c.2.1.handle, .template sharedPtrName [.named c.1.text])) : ∃ c ∈ s.allClasses,
        c.2.1.handle.truthy ∧ e = (c.2.1.handle, .template sharedPtrName [.named c.1.text]) := by
    obtain ⟨c, hc, rfl⟩ := List.mem_map.mp h
    obtain ⟨hmem, htruthy⟩ := List.mem_filter.mp hc
    exact ⟨c, hmem, htruthy, rfl⟩
  unfold handles at h
  split at h
  · rename_i harity
    exact ⟨⟨_, harity, trivial⟩, hclass h⟩
  · rename_i harity
    exact ⟨⟨_, harity, rfl⟩, hclass h⟩
  · cases h

theorem handle_mem_declarations {c : Value × ClassDecl × Bool} (hc : c ∈ s.allClasses)
    (htruthy : c.2.1.handle.truthy) :
    .handle c.2.1.handle (.template sharedPtrName [.object (c.2.1.ref c.1.text)]) ∈ s.declarations := by
  have hmem : .handle c.2.1.handle (.template sharedPtrName [.object (c.2.1.ref c.1.text)]) ∈
      s.allClasses.flatMap fun e => classDeclarations e.1 e.2.1 :=
    List.mem_flatMap.mpr ⟨c, hc, by simp [classDeclarations, htruthy]⟩
  simp [declarations, hmem]

/-- A handle stands for the template, already before the aliases are declared: classes and their handles are
declared first. -/
theorem sound_handles (hlegal : ∀ d ∈ s.declarations, d.Legal) (hd : Distinct s.entityNames) :
    s.entities.Sound s.handles := by
  intro e he
  obtain ⟨harity, c, hc, htruthy, rfl⟩ := mem_handles he
  have hmem {d : Declaration} (hd : d ∈ s.declarations) : (d.key, d.type) ∈ s.entities.types :=
    List.mem_map_of_mem hd
  obtain ⟨n, hn, -⟩ := hlegal _ (class_mem_declarations hc)
  have hfind : s.entities.find? (.str c.1.text) = some (.object (c.2.1.ref c.1.text)) := by
    refine Registry.find?_of_mem (by rwa [keys_entities]) (hmem (class_mem_declarations hc)) ?_
    rw [hn]
    exact Document.Value.sameKey_str.mpr rfl
  refine ⟨_, hmem (handle_mem_declarations hc htruthy), Registry.resolve_template.mpr ⟨harity, _, ?_, rfl⟩⟩
  exact Except.mapM_eq_ok.mpr (.cons (Registry.resolve_named.mpr hfind) .nil)

/-- The expanded specification declares the same names for the same types, and its table of `expansions` is
sound in the registry. -/
theorem registry_expand (h : Registry.ofSpec s = .ok r) :
    Registry.ofSpec s.expand = .ok r ∧ r.Sound s.expansions := by
  obtain ⟨r₀, hr₀, haliases⟩ := Except.bind_eq_ok.mp h
  have hdecl := hr₀
  obtain ⟨hlegal, hd, rfl⟩ := foldlM_declarations.mp hr₀
  obtain ⟨hfold, hsound⟩ := Registry.foldlM_expandAliases (r := s.entities) (by rwa [keys_entities])
    (sound_handles (fun d hd => (hlegal d hd).1) hd) haliases
  refine ⟨Except.bind_eq_ok.mpr ⟨s.entities, ?_, hfold⟩, hsound⟩
  rw [declarations_expand]
  exact hdecl

end Spec

/-! ## The same entities -/

section Bind

variable {r : Registry} {table : Spec.Table TypeExpr} (hd : Distinct r.keys) (hs : r.Sound table)

include hd hs

theorem resolve_expand_func {sig : Signature TypeExpr} {σ : Signature Ty}
    (h : r.resolve (.func sig) = .ok (.func σ)) :
    r.resolve (.func (sig.expand table)) = .ok (.func σ) := by
  rw [← TypeExpr.expand_func]
  exact Registry.resolve_expand hd hs h

/-- Binding looks at an expression only through `resolve`, so with `resolve_expand` it gives the same record. -/
theorem bindRecord_expand {name : Value} {d : Spec.RecordDecl} {x : Record}
    (h : bindRecord r name d = .ok x) : bindRecord r name (d.expand table) = .ok x := by
  obtain ⟨href, hfields⟩ := bindRecord_eq_ok.mp h
  refine bindRecord_eq_ok.mpr ⟨href, Except.mapM_map (fun e _ f hf => ?_) hfields⟩
  obtain ⟨t, ht, rfl⟩ := bindField_eq_ok.mp hf
  exact bindField_eq_ok.mpr ⟨t, Registry.resolve_expand hd hs ht, rfl⟩

theorem bindKeyType_expand {name : Value} {e : TypeExpr} {x : String × Ty}
    (h : bindKeyType r name e = .ok x) : bindKeyType r name (e.expand table) = .ok x := by
  obtain ⟨hname, ht⟩ := bindKeyType_eq_ok.mp h
  exact bindKeyType_eq_ok.mpr ⟨hname, Registry.resolve_expand hd hs ht⟩

/-- Each overload is bound as before: its names stay, and its signature resolves to the same one. -/
theorem mapM_bindOverload_expand {owner : ClassRef} {kind : MethodKind} {part : String}
    {methods : Spec.Table (List Spec.MethodDecl)} {ms : List Method}
    (h : (Spec.overloads methods).mapM (fun o => bindOverload r owner kind part o.1 o.2) = .ok ms) :
    (Spec.overloads (Spec.expandMethods table methods)).mapM
      (fun o => bindOverload r owner kind part o.1 o.2) = .ok ms := by
  rw [Spec.overloads_expandMethods]
  refine Except.mapM_map (fun o _ m hm => ?_) h
  obtain ⟨σ, u, hσ, hu, hres, rfl⟩ := bindOverload_eq_ok.mp hm
  exact bindOverload_eq_ok.mpr ⟨σ, u, resolve_expand_func hd hs hσ, hu, hres, rfl⟩

theorem rel_expand {e : Option TypeExpr} {t : Option Ty}
    (h : Option.Rel (fun e t => r.resolve e = .ok t) e t) :
    Option.Rel (fun e t => r.resolve e = .ok t) (e.map (·.expand table)) t := by
  cases h with
  | none => exact .none
  | some ht => exact .some (Registry.resolve_expand hd hs ht)

/-- All parts of a class are bound as before, by the lemmas for its members. This is the part of transparency
that has most cases. -/
theorem bindClass_expand {name : Value} {d : Spec.ClassDecl} {isInterface : Bool} {c : Class}
    (h : bindClass r name d isInterface = .ok c) :
    bindClass r name (d.expand table) isInterface = .ok c := by
  obtain ⟨hinterface, habstract, ms, ss, cs, ps, hclass⟩ := bindClass_eq_ok.mp h
  refine bindClass_eq_ok.mpr ⟨hinterface, habstract, ms, ss, cs, ps, ?_⟩
  constructor
  case methods => exact mapM_bindOverload_expand hd hs hclass.methods
  case statics => exact mapM_bindOverload_expand hd hs hclass.statics
  case constructors =>
    refine Except.mapM_map (fun e _ m hm => ?_) hclass.constructors
    obtain ⟨σ, u, hσ, hvoid, hu, hres, rfl⟩ := bindConstructor_eq_ok.mp hm
    exact bindConstructor_eq_ok.mpr ⟨σ, u, resolve_expand_func hd hs hσ, hvoid, hu, hres, rfl⟩
  case properties =>
    refine Except.mapM_map (fun e _ m hm => ?_) hclass.properties
    obtain ⟨t, u, ht, hu, hres, rfl⟩ := bindProperty_eq_ok.mp hm
    exact bindProperty_eq_ok.mpr ⟨t, u, Registry.resolve_expand hd hs ht, hu, hres, rfl⟩
  case base => exact hclass.base
  case iterable => exact rel_expand hd hs hclass.iterable
  case ref_eq => exact hclass.ref_eq
  case methods_eq => exact hclass.methods_eq

theorem bindMixed_expand {d : Spec.MixedInfo} {x : MixedInfo} (h : bindMixed r d = .ok x) :
    bindMixed r (d.expand table) = .ok x := by
  obtain ⟨hgetters, hunused, extra, hextra, hctors⟩ := bindMixed_eq_ok.mp h
  refine bindMixed_eq_ok.mpr ⟨?_, hunused, extra, ?_, hctors⟩
  · refine List.forall₂_map_left_iff.mpr (hgetters.imp fun e g hg => ?_)
    exact ⟨hg.1, hg.2.1, Registry.resolve_expand hd hs hg.2.2⟩
  · refine List.forall₂_map_left_iff.mpr (hextra.imp fun e t ht => ?_)
    exact Registry.resolve_expand hd hs ht

end Bind

/-! ## Transparency -/

namespace Model

variable {s : Spec} {m : Model} {declared : List Class}

/-- The expanded specification is bound to the same model, part by part, from the same declared classes. -/
theorem BoundFrom.expand (h : BoundFrom s declared m) : BoundFrom s.expand declared m := by
  obtain ⟨hregistry, hs⟩ := Spec.registry_expand h.registry
  have hd : Distinct m.registry.keys := h.registered.keys ▸ h.registered.distinct
  constructor
  case registry => exact hregistry
  case records => exact Except.mapM_map (fun e _ x hx => bindRecord_expand hd hs hx) h.records
  case keyTypes => exact Except.mapM_map (fun e _ x hx => bindKeyType_expand hd hs hx) h.keyTypes
  case bound =>
    rw [Spec.allClasses_expand]
    exact Except.mapM_map (fun e _ c hc => bindClass_expand hd hs hc) h.bound
  case ordered => exact h.ordered
  case checked => exact h.checked
  case mixed => exact bindMixed_expand hd hs h.mixed
  case headers => exact h.headers
  case enums => exact h.enums
  case opaqueTypes => exact h.opaqueTypes
  case primitives => exact h.primitives

/-! The names that remain. -/

theorem map_fst_expansions : s.expansions.map (·.1) = s.handles.map (·.1) ++ s.aliases.map (·.1) := by
  rw [Spec.expansions, List.map_append, Spec.map_fst_expandAliases]

/-- A declared name remains or is replaced. There is no third kind. -/
theorem ultimate_or_mem {n : String} (hn : .str n ∈ s.names) :
    s.Ultimate n ∨ .str n ∈ s.expansions.map (·.1) := by
  rw [map_fst_expansions, List.mem_append]
  by_cases hhandle : .str n ∈ s.handles.map (·.1)
  · exact .inr (.inl hhandle)
  · by_cases halias : .str n ∈ s.aliases.map (·.1)
    · exact .inr (.inr halias)
    · exact .inl ⟨hn, halias, hhandle⟩

/-- The name of an entity is not declared again as an alias, because all declared names differ. -/
theorem not_alias_of_entity (hd : Distinct s.names) {n : String} (hn : .str n ∈ s.entityNames) :
    .str n ∉ s.aliases.map (·.1) := by
  intro hmem
  have hne := (List.pairwise_append.mp hd).2.2 _ hn _ hmem
  exact hne (by simp)

/-- A class is not the handle of any, so its name remains in the expansion of a handle. -/
theorem BoundFrom.ultimate_class (h : BoundFrom s declared m) {c : Value × Spec.ClassDecl × Bool}
    (hc : c ∈ s.allClasses) : s.Ultimate c.1.text := by
  have hmem := Spec.class_mem_declarations hc
  have htext := h.text_of_entity hmem
  have hentity : .str c.1.text ∈ s.entityNames := by
    rw [← Spec.map_key_declarations, ← htext]
    exact List.mem_map_of_mem (f := Declaration.key) hmem
  refine ⟨List.mem_append_left _ hentity, not_alias_of_entity h.registered.distinct hentity, ?_⟩
  intro hhandle
  obtain ⟨e, he, hkey⟩ := List.mem_map.mp hhandle
  obtain ⟨-, d, hd, htruthy, rfl⟩ := Spec.mem_handles he
  have hfind := h.find?_declared (Spec.handle_mem_declarations hd htruthy) hkey
  rw [h.find?_entity hmem] at hfind
  cases hfind

/-- A handle is replaced by a template around the name of its class, which remains by
`BoundFrom.ultimate_class`. -/
theorem BoundFrom.scoped_handles (h : BoundFrom s declared m) :
    ∀ e ∈ s.handles, Scoped s.arity? s.Ultimate e.2 := by
  intro e he
  obtain ⟨⟨arity, harity, haccepts⟩, c, hc, -, rfl⟩ := Spec.mem_handles he
  exact .template harity haccepts (List.forall_mem_singleton.mpr (.named (h.ultimate_class hc)))

theorem BoundFrom.scoped_aliases (h : BoundFrom s declared m) :
    ∀ a ∈ s.expand.aliases, Scoped s.arity? s.Ultimate a.2 := by
  obtain ⟨-, -, hd, hscope⟩ := Spec.ofSpec_ok_iff.mp ⟨_, h.registry⟩
  refine Spec.scoped_expandAliases s.entityNames (fun n hn => ?_) h.scoped_handles hscope
  by_cases hhandle : .str n ∈ s.handles.map (·.1)
  · exact .inr hhandle
  · exact .inl ⟨List.mem_append_left _ hn, not_alias_of_entity hd hn, hhandle⟩

/-- No expression of an expanded specification mentions a name that was replaced. -/
theorem BoundFrom.scoped_expressions (h : BoundFrom s declared m) :
    ∀ e ∈ s.expand.expressions, Scoped s.arity? s.Ultimate e := by
  obtain ⟨r, -, -, hr, hresolve, -⟩ := Model.ofSpec_ok_iff.mp ⟨m, Model.ofSpec_eq_ok.mpr ⟨declared, h⟩⟩
  rw [Spec.expressions_expand, List.forall_mem_map]
  intro e he
  have hscope : s.InScope s.names e := (Spec.registered_of_ofSpec hr).resolve_ok_iff.mp (hresolve e he)
  refine Scoped.expand (fun n hn => ultimate_or_mem hn) ?_ hscope
  exact List.forall_mem_append.mpr ⟨h.scoped_handles, h.scoped_aliases⟩

/-- **Aliases are transparent.** With every alias and every handle that can be spelled expanded, a
specification declares the same names and has the same model, and mentions none of them any more. -/
theorem ofSpec_expand (h : Model.ofSpec s = .ok m) :
    Model.ofSpec s.expand = .ok m ∧ s.expand.declarations = s.declarations ∧
      s.expand.aliases.map (·.1) = s.aliases.map (·.1) ∧
      (∀ e ∈ s.expand.expressions, Scoped s.arity? s.Ultimate e) ∧
      ∀ a ∈ s.expand.aliases, Scoped s.arity? s.Ultimate a.2 := by
  obtain ⟨declared, hbound⟩ := Model.ofSpec_eq_ok.mp h
  exact ⟨Model.ofSpec_eq_ok.mpr ⟨declared, hbound.expand⟩, Spec.declarations_expand,
    Spec.map_fst_expandAliases _, hbound.scoped_expressions, hbound.scoped_aliases⟩

/-- The workshop, with the template of handles. -/
def spelledWorkshop : Spec :=
  { workshop with templates := (.str sharedPtrName, .exact 1) :: workshop.templates }

/-- An alias of an alias of a list of handles is expanded in one go, down to the class behind the handle. -/
theorem ofSpec_expand_spelledWorkshop :
    ∃ m, Model.ofSpec spelledWorkshop = .ok m ∧ Model.ofSpec spelledWorkshop.expand = .ok m ∧
      spelledWorkshop.expand.aliases =
        [(.str "Jobs", .template "List" [.template sharedPtrName [.named "Job"]]),
          (.str "Batch", .template "List" [.template sharedPtrName [.named "Job"]])] :=
  ⟨_, rfl, (ofSpec_expand rfl).1, rfl⟩

end Model

end LuaGlue
