import LuaGlue.Proofs.Model.Closure
import Mathlib.Data.List.Pairwise

/-!
# The order of declarations does not matter

A specification may list its entities in any order: names are looked up when all of them are declared.
Aliases are the exception, since each sees only the names before it.

- **Registries** (`Registry.Reordered`): with the same entries in any order, every name and every
  expression stands for the same type (`resolve_eq`), so all that is bound in one is bound in the other.
- **Models** (`Model.SameContent`): specifications that list the same declarations either both have a
  model or neither does, and a name has the same content in both models.
-/

namespace List.Perm

variable {α : Type} {l l' : List α}

/-- The order of a list does not matter for a search that one member at most can end. -/
theorem find?_eq {p : α → Bool} (h : l.Perm l')
    (hunique : ∀ a ∈ l, ∀ b ∈ l, p a → p b → a = b) : l'.find? p = l.find? p := by
  rcases hfind : l.find? p with _ | a
  · rw [List.find?_eq_none] at hfind ⊢
    exact fun b hb => hfind b (h.mem_iff.mpr hb)
  · have ha := List.mem_of_find?_eq_some hfind
    have hpa := List.find?_some hfind
    obtain ⟨b, hb⟩ := Option.isSome_iff_exists.mp (List.find?_isSome.mpr ⟨a, h.mem_iff.mp ha, hpa⟩)
    have hmem := h.mem_iff.mpr (List.mem_of_find?_eq_some hb)
    rw [hb, hunique b hmem a ha (List.find?_some hb) hpa]

theorem find?_name_eq {name : α → String} (h : l.Perm l') (hnodup : (l.map name).Nodup) (n : String) :
    l'.find? (name · == n) = l.find? (name · == n) := by
  refine h.find?_eq fun a ha b hb hna hnb => List.inj_on_of_nodup_map hnodup ha hb ?_
  rw [eq_of_beq hna, eq_of_beq hnb]

end List.Perm

/-- A loop over a list in another order gives its results in another order. -/
theorem Except.perm_of_mapM {ε α β : Type} {f : α → Except ε β} {l l' : List α} {bs bs' : List β}
    (hp : l.Perm l') (h : l.mapM f = .ok bs) (h' : l'.mapM f = .ok bs') : bs.Perm bs' := by
  obtain ⟨cs, hall, hperm⟩ := List.perm_comp_forall₂ hp.symm (mapM_eq_ok.mp h)
  have hcs := mapM_eq_ok.mpr hall
  rw [h'] at hcs
  cases hcs
  exact hperm.symm

namespace LuaGlue

open Document (Value)
open Document.Value (Distinct)

/-! ## Keys -/

namespace Document.Value

theorem Distinct.perm {keys keys' : List Value} (h : Distinct keys) (hp : keys.Perm keys') :
    Distinct keys' :=
  (hp.pairwise_iff fun hne hsame => hne (sameKey_comm.mp hsame)).mp h

/-- In a table with distinct keys, in any order, a key leads to the same entry: `sameKey` relates it to one key
at most. -/
theorem find?_sameKey_eq {α : Type} {l l' : List (Value × α)} (hp : l.Perm l')
    (hd : Distinct (l.map (·.1))) (key : Value) :
    l'.find? (fun e => e.1.sameKey key) = l.find? (fun e => e.1.sameKey key) := by
  refine hp.find?_eq fun a ha b hb hka hkb => ?_
  by_contra hne
  have hpair : l.Pairwise fun a b => ¬a.1.sameKey b.1 := List.pairwise_map.mp hd
  have : Std.Symm fun a b : Value × α => ¬a.1.sameKey b.1 :=
    ⟨fun _ _ h hsame => h (sameKey_comm.mp hsame)⟩
  exact hpair.forall ha hb hne (sameKey_of_common hka hkb)

end Document.Value

/-! ## Registries -/

namespace Registry

/-- The registries hold the same declarations, each name once. -/
structure Reordered (r r' : Registry) : Prop where
  types : r.types.Perm r'.types
  templates : r.templates.Perm r'.templates
  distinct : Distinct r.keys
  distinct_templates : Distinct (r.templates.map (·.1))

namespace Reordered

variable {r r' : Registry}

theorem keys (h : Reordered r r') : r.keys.Perm r'.keys := h.types.map _

theorem find?_eq (h : Reordered r r') (key : Value) : r'.find? key = r.find? key := by
  rw [find?, find?, Document.Value.find?_sameKey_eq h.types h.distinct]

theorem arity?_eq (h : Reordered r r') (n : String) : r'.arity? n = r.arity? n := by
  rw [arity?, arity?, Document.Value.find?_sameKey_eq h.templates h.distinct_templates]

/-- Every expression stands for the same type, or fails in the same way. By induction over the expression, with
`find?_eq` at names and `arity?_eq` at templates. -/
theorem resolve_eq (h : Reordered r r') (e : TypeExpr) : r'.resolve e = r.resolve e := by
  induction e using TypeExpr.inductOn with
  | named n => rw [resolve, resolve, h.find?_eq]
  | template n args ih =>
    have hargs : args.mapM r'.resolve = args.mapM r.resolve := Except.mapM_congr ih
    rw [resolve, resolve, resolveArgs_eq_mapM, resolveArgs_eq_mapM, h.arity?_eq, hargs]
  | func params ret quals ihp ihr =>
    have hparams : params.mapM r'.resolveParam = params.mapM r.resolveParam :=
      Except.mapM_congr fun p hp => by rw [resolveParam, resolveParam, ihp p hp]
    rw [resolve, resolve, resolveParams_eq_mapM, resolveParams_eq_mapM, ihr, hparams]
  | modified m inner ih => rw [resolve, resolve, ih]
  | missing => rw [resolve, resolve]

theorem resolveAt_eq (h : Reordered r r') (part : String) (e : TypeExpr) :
    r'.resolveAt part e = r.resolveAt part e := by
  rw [resolveAt, resolveAt, h.resolve_eq]

theorem resolveSignatureAt_eq (h : Reordered r r') (part : String) (sig : Signature TypeExpr) :
    r'.resolveSignatureAt part sig = r.resolveSignatureAt part sig := by
  have hparam : r'.resolveParam = r.resolveParam := by
    funext p
    rw [resolveParam, resolveParam, h.resolve_eq]
  rw [resolveSignatureAt, resolveSignatureAt, resolveSignature, resolveSignature, h.resolve_eq,
    resolveParams_eq_mapM, resolveParams_eq_mapM, hparam]

/-- One more name is added to both, which keeps them reordered if the name is new. -/
theorem push (h : Reordered r r') {key : Value} {t : Ty} (hfresh : ∀ k ∈ r.keys, ¬k.sameKey key) :
    Reordered (r.push key t) (r'.push key t) where
  types := h.types.append_right _
  templates := h.templates
  distinct := by
    rw [keys_push]
    exact Document.Value.distinct_snoc.mpr ⟨h.distinct, hfresh⟩
  distinct_templates := h.distinct_templates

/-- An alias can be declared in the one when it can in the other, and stands for the same type in both. -/
theorem declareAlias (h : Reordered r r') {a : Value × TypeExpr} {q : Registry}
    (ha : r.declareAlias a = .ok q) : ∃ q', r'.declareAlias a = .ok q' ∧ Reordered q q' := by
  obtain ⟨t, ht, hadd⟩ := declareAlias_eq_ok.mp ha
  obtain ⟨hkey, hfresh, rfl⟩ := add_eq_ok.mp hadd
  have hfresh' : ∀ k ∈ r'.keys, ¬k.sameKey a.1 := fun k hk => hfresh k (h.keys.mem_iff.mpr hk)
  refine ⟨r'.push a.1 t, declareAlias_eq_ok.mpr ⟨t, ?_, ?_⟩, h.push hfresh⟩
  · rw [h.resolve_eq, ht]
  · exact add_eq_ok.mpr ⟨hkey, hfresh', rfl⟩

/-- So can all aliases in their order, by induction over the list. -/
theorem foldlM_declareAlias (h : Reordered r r') {aliases : Spec.Table TypeExpr} {q : Registry}
    (ha : aliases.foldlM Registry.declareAlias r = .ok q) :
    ∃ q', aliases.foldlM Registry.declareAlias r' = .ok q' ∧ Reordered q q' := by
  induction aliases generalizing r r' with
  | nil =>
    rw [List.foldlM_nil, Except.pure_eq_ok_iff] at ha
    exact ⟨r', rfl, ha ▸ h⟩
  | cons a aliases ih =>
    rw [List.foldlM_cons, Except.bind_eq_ok] at ha
    obtain ⟨mid, hmid, hrest⟩ := ha
    obtain ⟨mid', hmid', hreordered⟩ := h.declareAlias hmid
    obtain ⟨q', hq', hq⟩ := ih hreordered hrest
    exact ⟨q', by rw [List.foldlM_cons, hmid', Except.ok_bind, hq'], hq⟩

/-! ## What is bound -/

theorem bindRecord_eq (h : Reordered r r') (name : Value) (d : Spec.RecordDecl) :
    bindRecord r' name d = bindRecord r name d := by
  simp only [bindRecord, bindField, h.resolveAt_eq]

theorem bindKeyType_eq (h : Reordered r r') (name : Value) (e : TypeExpr) :
    bindKeyType r' name e = bindKeyType r name e := by
  simp only [bindKeyType, h.resolveAt_eq]

/-- Binding a class goes through the registry only by looking up names and expressions, so it gives the same in
both, errors included. -/
theorem bindClass_eq (h : Reordered r r') (name : Value) (d : Spec.ClassDecl) (isInterface : Bool) :
    bindClass r' name d isInterface = bindClass r name d isInterface := by
  simp only [bindClass, bindMethods, bindOverload, bindConstructor, bindProperty, bindBase,
    h.resolveAt_eq, h.resolveSignatureAt_eq, h.find?_eq]

theorem bindMixed_eq (h : Reordered r r') (d : Spec.MixedInfo) : bindMixed r' d = bindMixed r d := by
  simp only [bindMixed, h.resolveAt_eq]

end Reordered

end Registry

/-! ## Specifications -/

/-- The specifications list the same declarations in any order, and the same aliases in one order. -/
structure Spec.Reordered (s s' : Spec) : Prop where
  primitives : s.primitives.Perm s'.primitives
  templates : s.templates.Perm s'.templates
  classes : s.classes.Perm s'.classes
  interfaces : s.interfaces.Perm s'.interfaces
  enums : s.enums.Perm s'.enums
  records : s.records.Perm s'.records
  keyTypes : s.keyTypes.Perm s'.keyTypes
  opaqueTypes : s.opaqueTypes.Perm s'.opaqueTypes
  aliases : s.aliases = s'.aliases
  mixed : s.mixed = s'.mixed
  headers : s.headers = s'.headers

namespace Spec.Reordered

variable {s s' : Spec} {r : Registry}

theorem symm (h : s.Reordered s') : s'.Reordered s where
  primitives := h.primitives.symm
  templates := h.templates.symm
  classes := h.classes.symm
  interfaces := h.interfaces.symm
  enums := h.enums.symm
  records := h.records.symm
  keyTypes := h.keyTypes.symm
  opaqueTypes := h.opaqueTypes.symm
  aliases := h.aliases.symm
  mixed := h.mixed.symm
  headers := h.headers.symm

theorem allClasses (h : s.Reordered s') : s.allClasses.Perm s'.allClasses :=
  (h.classes.map _).append (h.interfaces.map _)

theorem declarations (h : s.Reordered s') : s.declarations.Perm s'.declarations :=
  (((((h.primitives.map _).append (h.allClasses.flatMap_right _)).append (h.enums.map _)).append
    (h.records.map _)).append (h.keyTypes.map _)).append (h.opaqueTypes.map _)

theorem entityNames (h : s.Reordered s') : s.entityNames.Perm s'.entityNames := by
  rw [← map_key_declarations, ← map_key_declarations]
  exact h.declarations.map _

theorem expressions (h : s.Reordered s') : s.expressions.Perm s'.expressions := by
  rw [Spec.expressions, Spec.expressions, h.mixed]
  refine List.Perm.append_right _ (List.Perm.append_right _ ?_)
  exact ((h.records.flatMap_right _).append (h.keyTypes.map _)).append (h.allClasses.flatMap_right _)

/-- Both specifications declare the same names: the entities in another order, and then the aliases, which must
be in one order. -/
theorem registry (h : s.Reordered s') (hkeys : Distinct (s.templates.map (·.1)))
    (hr : Registry.ofSpec s = .ok r) :
    ∃ r', Registry.ofSpec s' = .ok r' ∧ Registry.Reordered r r' := by
  obtain ⟨r₀, hr₀, haliases⟩ := Except.bind_eq_ok.mp hr
  obtain ⟨hlegal, hd, rfl⟩ := foldlM_declarations.mp hr₀
  have hentities : Registry.Reordered s.entities s'.entities :=
    { types := h.declarations.map _
      templates := h.templates
      distinct := by rwa [keys_entities]
      distinct_templates := hkeys }
  obtain ⟨r', hr', hreordered⟩ := hentities.foldlM_declareAlias haliases
  refine ⟨r', Except.bind_eq_ok.mpr ⟨s'.entities, foldlM_declarations.mpr ?_, ?_⟩, hreordered⟩
  · exact ⟨fun d hd => hlegal d (h.declarations.mem_iff.mpr hd), hd.perm h.entityNames, rfl⟩
  · rw [← h.aliases]
    exact hr'

end Spec.Reordered

/-! ## Classes -/

/-- A level is a chain of bases, and the chain is there among more classes too. -/
theorem ClassForest.Level.mono {declared declared' : List Class} (h : declared ⊆ declared') {c : Class}
    {k : Nat} (hk : Level declared c k) : Level declared' c k := by
  induction hk with
  | root hc hb => exact .root (h hc) hb
  | step hc hb hname _ ih => exact .step (h hc) hb hname ih

/-- What is checked of a class against others holds against fewer of them. -/
theorem checkClass_of_subset {classes classes' : List Class} (h : classes' ⊆ classes) {c : Class}
    (hc : checkClass classes c = .ok ()) : checkClass classes' c = .ok () := by
  obtain ⟨hmethods, hshared⟩ := checkClass_eq_ok.mp hc
  refine checkClass_eq_ok.mpr ⟨hmethods, fun hs => ⟨(hshared hs).1, fun d hd => ?_⟩⟩
  exact (hshared hs).2 d (h hd)

/-! ## Models -/

namespace Model

/-- The models hold the same entities, and a name has the same content in both. -/
structure SameContent (m m' : Model) : Prop where
  names : (m.registry.types.map (·.1)).Perm (m'.registry.types.map (·.1))
  types : ∀ key, m'.registry.find? key = m.registry.find? key
  arities : ∀ n, m'.registry.arity? n = m.registry.arity? n
  classes : m.classes.Perm m'.classes
  class? : ∀ n, m'.class? n = m.class? n
  subclasses : ∀ n, (m.subclasses n).Perm (m'.subclasses n)
  records : m.records.Perm m'.records
  record : ∀ n, m'.records.find? (·.ref.name == n) = m.records.find? (·.ref.name == n)
  enums : m.enums.Perm m'.enums
  enum : ∀ n, m'.enums.find? (·.ref.name == n) = m.enums.find? (·.ref.name == n)
  keyTypes : m.keyTypes.Perm m'.keyTypes
  keyType? : ∀ n, m'.keyType? n = m.keyType? n
  opaqueTypes : m.opaqueTypes.Perm m'.opaqueTypes
  primitives : m.primitives.Perm m'.primitives
  mixed : m'.mixed = m.mixed
  headers : m'.headers = m.headers

variable {s s' : Spec} {m m' : Model} {declared declared' : List Class}

/-- A specification in another order has a model too: its expressions are in scope, its classes have their
levels and pass their checks. -/
theorem exists_reordered (hs : s.Reordered s') (hkeys : Distinct (s.templates.map (·.1)))
    (h : ∃ m, Model.ofSpec s = .ok m) : ∃ m', Model.ofSpec s' = .ok m' := by
  obtain ⟨r, declared, classes, hr, hexprs, hbound, hordered, hchecked⟩ := Model.ofSpec_ok_iff.mp h
  obtain ⟨r', hr', hreg⟩ := hs.registry hkeys hr
  have hdeclares := Spec.declares_of_mapM hr hbound
  obtain ⟨declared', hbound'⟩ : ∃ declared',
      s'.allClasses.mapM (fun e => bindClass r' e.1 e.2.1 e.2.2) = .ok declared' := by
    refine Except.mapM_ok_iff.mpr fun e he => ?_
    rw [hreg.bindClass_eq]
    exact Except.mapM_ok_iff.mp ⟨declared, hbound⟩ e (hs.allClasses.mem_iff.mpr he)
  have hdeclares' := Spec.declares_of_mapM hr' hbound'
  have hperm : declared.Perm declared' := by
    simp only [hreg.bindClass_eq] at hbound'
    exact Except.perm_of_mapM hs.allClasses hbound hbound'
  obtain ⟨rfl, hlevels⟩ := (ClassForest.orderClasses_eq_ok_iff hdeclares.nodup_names).mp hordered
  -- ordering asks for levels only, and a chain of bases does not depend on the order
  have hlevels' : ∀ c ∈ declared', ∃ k, ClassForest.Level declared' c k := by
    intro c hc
    obtain ⟨k, hk⟩ := hlevels c (hperm.mem_iff.mpr hc)
    exact ⟨k, hk.mono hperm.subset⟩
  -- the checks of a class are against the others, which are the same classes
  have hforest : ClassForest.forest declared' ⊆ ClassForest.forest declared := by
    intro c hc
    have hmem := hperm.mem_iff.mpr (ClassForest.mem_declared_of_mem_forest hc)
    exact (ClassForest.mem_forest_iff hdeclares.nodup_names hlevels).mpr hmem
  refine Model.ofSpec_ok_iff.mpr ⟨r', declared', ClassForest.forest declared', hr', ?_, hbound', ?_, ?_⟩
  · intro e he
    rw [hreg.resolve_eq]
    exact hexprs e (hs.expressions.mem_iff.mpr he)
  · exact (ClassForest.orderClasses_eq_ok_iff hdeclares'.nodup_names).mpr ⟨rfl, hlevels'⟩
  · exact fun c hc => checkClass_of_subset hforest (hchecked c (hforest hc))

/-- Both models are bound from reordered registries, so each table of the one is a permutation of that of the
other; names are distinct, so lookups agree. -/
theorem BoundFrom.sameContent (h : BoundFrom s declared m) (h' : BoundFrom s' declared' m')
    (hs : s.Reordered s') (hkeys : Distinct (s.templates.map (·.1))) : m.SameContent m' := by
  obtain ⟨r', hr', hreg⟩ := hs.registry hkeys h.registry
  obtain rfl : r' = m'.registry := Except.ok.inj (hr'.symm.trans h'.registry)
  -- binding in the one registry is binding in the other, so the loops run over permuted lists
  have hbound' := h'.bound
  have hrecords' := h'.records
  have hkeyTypes' := h'.keyTypes
  simp only [hreg.bindClass_eq] at hbound'
  simp only [hreg.bindRecord_eq] at hrecords'
  simp only [hreg.bindKeyType_eq] at hkeyTypes'
  have hdeclared := Except.perm_of_mapM hs.allClasses h.bound hbound'
  have hclasses := (h.perm_classes.trans hdeclared).trans h'.perm_classes.symm
  have hrecords := Except.perm_of_mapM hs.records h.records hrecords'
  have hkeyTypes := Except.perm_of_mapM hs.keyTypes h.keyTypes hkeyTypes'
  have henums : m.enums.Perm m'.enums := by
    rw [h.enums, h'.enums]
    exact hs.enums.map _
  constructor
  case names => exact hreg.keys
  case types => exact hreg.find?_eq
  case arities => exact hreg.arity?_eq
  case classes => exact hclasses
  -- names are distinct, so a lookup does not depend on the order
  case class? => exact hclasses.find?_name_eq h.nodup_classes
  case subclasses => exact fun n => hclasses.filter _
  case records => exact hrecords
  case record => exact hrecords.find?_name_eq h.nodup_records
  case enums => exact henums
  case enum => exact henums.find?_name_eq h.nodup_enums
  case keyTypes => exact hkeyTypes
  case keyType? =>
    intro n
    rw [keyType?_eq_find?, keyType?_eq_find?, hkeyTypes.find?_name_eq h.nodup_keyTypes]
  case opaqueTypes =>
    rw [h.opaqueTypes, h'.opaqueTypes]
    exact hs.opaqueTypes.map _
  case primitives =>
    rw [h.primitives, h'.primitives]
    exact hs.primitives
  case mixed =>
    have hmixed := h'.mixed
    rw [hreg.bindMixed_eq, ← hs.mixed, h.mixed] at hmixed
    exact (Except.ok.inj hmixed).symm
  case headers => rw [h'.headers, h.headers, hs.headers]

/-- **Binding does not depend on the order of declarations**, aliases apart: both specifications have a model or
neither does, and the models have the `SameContent`. The templates of a specification have distinct names. -/
theorem sameContent_of_reordered (hs : s.Reordered s') (hkeys : Distinct (s.templates.map (·.1))) :
    ((∃ m, Model.ofSpec s = .ok m) ↔ ∃ m', Model.ofSpec s' = .ok m') ∧
      ∀ m m', Model.ofSpec s = .ok m → Model.ofSpec s' = .ok m' → m.SameContent m' := by
  have hkeys' : Distinct (s'.templates.map (·.1)) := hkeys.perm (hs.templates.map _)
  refine ⟨⟨exists_reordered hs hkeys, exists_reordered hs.symm hkeys'⟩, fun m m' h h' => ?_⟩
  obtain ⟨declared, hbound⟩ := Model.ofSpec_eq_ok.mp h
  obtain ⟨declared', hbound'⟩ := Model.ofSpec_eq_ok.mp h'
  exact hbound.sameContent hbound' hs hkeys

/-- The same declarations, the last ones first. -/
def backwards (s : Spec) : Spec := { s with
  primitives := s.primitives.reverse
  templates := s.templates.reverse
  classes := s.classes.reverse
  interfaces := s.interfaces.reverse
  enums := s.enums.reverse
  records := s.records.reverse
  keyTypes := s.keyTypes.reverse
  opaqueTypes := s.opaqueTypes.reverse }

/-- In the reverse order the classes of a model stand in another order, but each is the same. -/
theorem sameContent_backwards :
    workshop.Reordered (backwards workshop) ∧ Distinct (workshop.templates.map (·.1)) ∧
      ∃ m m', Model.ofSpec workshop = .ok m ∧ Model.ofSpec (backwards workshop) = .ok m' ∧
        m.classes.map Class.name = ["Job", "Clock", "Source", "Queue"] ∧
        m'.classes.map Class.name = ["Clock", "Job", "Source", "Queue"] ∧ m.SameContent m' := by
  have hs : workshop.Reordered (backwards workshop) :=
    { primitives := (List.reverse_perm _).symm
      templates := (List.reverse_perm _).symm
      classes := (List.reverse_perm _).symm
      interfaces := (List.reverse_perm _).symm
      enums := (List.reverse_perm _).symm
      records := (List.reverse_perm _).symm
      keyTypes := (List.reverse_perm _).symm
      opaqueTypes := (List.reverse_perm _).symm
      aliases := rfl
      mixed := rfl
      headers := rfl }
  have hkeys : Distinct (workshop.templates.map (·.1)) := by
    simp [Distinct, workshop, Document.Value.sameKey]
  exact ⟨hs, hkeys, _, _, rfl, rfl, rfl, rfl, (sameContent_of_reordered hs hkeys).2 _ _ rfl rfl⟩

end Model

end LuaGlue
