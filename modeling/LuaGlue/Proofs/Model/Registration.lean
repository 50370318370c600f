import LuaGlue.Model.Bind
import LuaGlue.Proofs.Model.Resolution

/-!
# Declaring the names of a specification

`Registry.ofSpec` declares every name of a specification, the aliases last and in their order.

- **Success** (`ofSpec_ok_iff`): it succeeds exactly when the names are distinct keys, those of entities
  are texts without underscores, and each alias mentions names declared before it.
- **Meaning** (`Spec.Denotes s e t`): the expression `e` stands for the type `t` by the declarations of `s`,
  however many aliases lie between. In the registry of `s`, `Registry.resolve` gives that type
  (`denotes_of_resolve`) and no other has it (`Registered.resolve_iff`).
-/

namespace LuaGlue

open Document (Value)

/-! ## Keys -/

namespace Document.Value

/-- Keys are equal as texts, as null or as numbers. A number may be written as an integer, a decimal or a truth
value, which `magnitude?` compares. -/
theorem sameKey_iff {a b : Value} :
    a.sameKey b ↔ (∃ n, a = .str n ∧ b = .str n) ∨ (a = .null ∧ b = .null) ∨
      ∃ m, a.magnitude? = some m ∧ b.magnitude? = some m := by
  unfold sameKey
  split
  · rename_i n n'
    constructor
    · intro h; exact .inl ⟨n, rfl, by rw [beq_iff_eq.mp h]⟩
    · rintro (⟨m, hn, hn'⟩ | ⟨hn, -⟩ | ⟨m, hn, -⟩)
      · cases hn; cases hn'; simp
      · cases hn
      · cases hn
  · simp
  · rename_i hstr hnull
    constructor
    · intro h
      split at h
      · rename_i m m' hm hm'
        rw [beq_iff_eq.mp h] at hm
        exact .inr (.inr ⟨m', hm, hm'⟩)
      · cases h
    · rintro (⟨n, rfl, rfl⟩ | ⟨rfl, rfl⟩ | ⟨m, hm, hm'⟩)
      · exact absurd rfl (hstr n n rfl)
      · exact absurd rfl (hnull rfl)
      · simp [hm, hm']

@[simp] theorem sameKey_str {a : Value} {n : String} : a.sameKey (.str n) ↔ a = .str n := by
  rw [sameKey_iff]
  constructor
  · rintro (⟨m, rfl, hm⟩ | ⟨-, h⟩ | ⟨m, -, h⟩)
    · exact hm.symm
    · cases h
    · cases h
  · rintro rfl; exact .inl ⟨n, rfl, rfl⟩

theorem sameKey_comm {a b : Value} : a.sameKey b ↔ b.sameKey a := by
  have hsymm {a b : Value} (h : a.sameKey b) : b.sameKey a := by
    rcases sameKey_iff.mp h with ⟨n, rfl, rfl⟩ | ⟨rfl, rfl⟩ | ⟨m, ha, hb⟩
    · exact h
    · exact h
    · exact sameKey_iff.mpr (.inr (.inr ⟨m, hb, ha⟩))
  exact ⟨hsymm, hsymm⟩

/-- Two keys that address the entry of a third address the same entry: `sameKey` is symmetric and transitive. -/
theorem sameKey_of_common {a b key : Value} (ha : a.sameKey key) (hb : b.sameKey key) :
    a.sameKey b := by
  rw [sameKey_iff] at *
  rcases ha with ⟨n, rfl, rfl⟩ | ⟨rfl, rfl⟩ | ⟨m, ha, hm⟩
  · simpa [magnitude?] using hb
  · simpa [magnitude?] using hb
  · rcases hb with ⟨n, -, rfl⟩ | ⟨-, rfl⟩ | ⟨m', hb, hm'⟩
    · cases hm
    · cases hm
    · rw [hm] at hm'; cases hm'
      exact .inr (.inr ⟨m, ha, hb⟩)

/-- No two of the keys address the same entry. -/
def Distinct (keys : List Value) : Prop := keys.Pairwise fun a b => ¬a.sameKey b

theorem distinct_snoc {keys : List Value} {key : Value} :
    Distinct (keys ++ [key]) ↔ Distinct keys ∧ ∀ k ∈ keys, ¬k.sameKey key := by
  simp [Distinct, List.pairwise_append]

end Document.Value

open Document.Value (Distinct)

namespace Registry

variable {r r' : Registry}

/-- The declared names. -/
def keys (r : Registry) : List Value := r.types.map (·.1)

theorem find?_eq_none {key : Value} : r.find? key = none ↔ ∀ k ∈ r.keys, ¬k.sameKey key := by
  simp [find?, keys]

theorem isSome_find?_str {n : String} : (r.find? (.str n)).isSome ↔ .str n ∈ r.keys := by
  simp [find?, keys, List.find?_isSome]

theorem mem_of_find? {key : Value} {t : Ty} (h : r.find? key = some t) :
    ∃ k, k.sameKey key ∧ (k, t) ∈ r.types := by
  obtain ⟨⟨k, u⟩, hfind, rfl⟩ := Option.map_eq_some_iff.mp h
  have hk := List.find?_some hfind
  exact ⟨k, hk, List.mem_of_find?_eq_some hfind⟩

/-- With distinct names, any declaration under a key is the one that is found, not just the first. -/
theorem find?_of_mem (hd : Distinct r.keys) {k key : Value} {t : Ty} (hmem : (k, t) ∈ r.types)
    (hk : k.sameKey key) : r.find? key = some t := by
  rw [find?]
  obtain ⟨pre, post, hsplit⟩ := List.append_of_mem hmem
  rw [keys, hsplit, List.map_append, Distinct, List.pairwise_append] at hd
  have hpre : pre.find? (fun e => e.1.sameKey key) = none := by
    rw [List.find?_eq_none]
    intro e he hek
    exact hd.2.2 e.1 (List.mem_map_of_mem he) k (by simp) (Document.Value.sameKey_of_common hek hk)
  simp [hsplit, List.find?_append, hpre, hk]

/-- A registry with more names, all distinct, finds what the smaller one found. -/
theorem extends_of_subset (ht : r'.templates = r.templates) (hd : Distinct r'.keys)
    (h : r.types ⊆ r'.types) : Extends r r' := by
  refine ⟨ht, fun {key t} hfind => ?_⟩
  obtain ⟨k, hk, hmem⟩ := mem_of_find? hfind
  exact find?_of_mem hd (h hmem) hk

/-- The registry with one more type. -/
def push (r : Registry) (key : Value) (t : Ty) : Registry := { r with types := r.types ++ [(key, t)] }

@[simp] theorem keys_push (key : Value) (t : Ty) : (r.push key t).keys = r.keys ++ [key] := by
  simp [keys, push]

/-- Declaring succeeds for a key that is not taken, and appends the type. -/
theorem add_eq_ok {key : Value} {t : Ty} :
    r.add key t = .ok r' ↔
      key.isKey ∧ (∀ k ∈ r.keys, ¬k.sameKey key) ∧ r' = r.push key t := by
  rw [add, ← find?_eq_none]
  cases key.isKey <;> cases r.find? key <;> simp [push, eq_comm]

end Registry

/-! ## Declarations -/

namespace Declaration

/-- The name that is declared. -/
def key : Declaration → Value
  | .primitive name => name
  | .entity name _ => name
  | .handle name _ => name

/-- The type that the name stands for. -/
def type : Declaration → Ty
  | .primitive name => .primitive name.text
  | .entity name type => type name.text
  | .handle _ type => type

/-- The name of an entity is a text without underscores. -/
def Legal : Declaration → Prop
  | .entity name _ => ∃ n, name = .str n ∧ '_' ∉ n.toList
  | _ => True

end Declaration

/-- Entities are named by texts without underscores, since generated names join them by underscores. -/
theorem checkEntityName_eq_ok {name : Value} {n : String} :
    checkEntityName name = .ok n ↔ name = .str n ∧ '_' ∉ n.toList := by
  unfold checkEntityName
  split
  · rename_i m
    split
    · rename_i hm
      have hm : '_' ∈ m.toList := by simpa using hm
      constructor
      · intro h; cases h
      · rintro ⟨h, hn⟩; cases h; exact absurd hm hn
    · rename_i hm
      have hm : '_' ∉ m.toList := by simpa using hm
      constructor
      · intro h; cases h; exact ⟨rfl, hm⟩
      · rintro ⟨h, -⟩; cases h; rfl
  · split <;> simp
  · split <;> simp
  · rename_i hstr _ _
    constructor
    · intro h; cases h
    · rintro ⟨rfl, -⟩; exact absurd rfl (hstr n)

namespace Registry

variable {r r' : Registry}

/-- Declaring is one check and one `add` for all kinds of names; only entities have a name that is checked. -/
theorem declare_eq_ok {d : Declaration} :
    r.declare d = .ok r' ↔ d.Legal ∧ r.add d.key d.type = .ok r' := by
  cases d with
  | primitive name => simp [declare, Declaration.Legal, Declaration.key, Declaration.type]
  | handle name type => simp [declare, Declaration.Legal, Declaration.key, Declaration.type]
  | entity name type =>
    simp only [declare, Except.bind_eq_ok, checkEntityName_eq_ok, Declaration.Legal, Declaration.key,
      Declaration.type]
    constructor
    · rintro ⟨n, ⟨rfl, hn⟩, h⟩; exact ⟨⟨n, rfl, hn⟩, h⟩
    · rintro ⟨⟨n, rfl, hn⟩, h⟩; exact ⟨n, ⟨rfl, hn⟩, h⟩

theorem declareAlias_eq_ok {a : Value × TypeExpr} :
    r.declareAlias a = .ok r' ↔ ∃ t, r.resolve a.2 = .ok t ∧ r.add a.1 t = .ok r' := by
  simp only [declareAlias, Except.bind_eq_ok, resolveAt_eq_ok]

/-- Declaring names that are not aliases, one after the other: it succeeds if they are distinct keys and legal,
and appends them in order. -/
theorem foldlM_declare {ds : List Declaration} (hd : Distinct r.keys) :
    ds.foldlM declare r = .ok r' ↔ (∀ d ∈ ds, d.Legal ∧ d.key.isKey) ∧
      Distinct (r.keys ++ ds.map (·.key)) ∧
      r' = { r with types := r.types ++ ds.map fun d => (d.key, d.type) } := by
  induction ds generalizing r with
  | nil =>
    simp only [List.foldlM_nil, Except.pure_eq_ok_iff, List.map_nil, List.append_nil]
    constructor
    · rintro rfl; exact ⟨by simp, hd, rfl⟩
    · rintro ⟨-, -, rfl⟩; rfl
  | cons d ds ih =>
    rw [List.foldlM_cons, Except.bind_eq_ok, List.map_cons, List.forall_mem_cons,
      List.append_cons r.keys]
    constructor
    · rintro ⟨mid, hmid, hrest⟩
      obtain ⟨hlegal, hadd⟩ := declare_eq_ok.mp hmid
      obtain ⟨hkey, hfresh, rfl⟩ := add_eq_ok.mp hadd
      rw [ih (by rw [keys_push]; exact Document.Value.distinct_snoc.mpr ⟨hd, hfresh⟩)] at hrest
      obtain ⟨hall, hdist, rfl⟩ := hrest
      exact ⟨⟨⟨hlegal, hkey⟩, hall⟩, by simpa using hdist, by simp [push]⟩
    · rintro ⟨⟨⟨hlegal, hkey⟩, hall⟩, hdist, rfl⟩
      have hsnoc : Distinct (r.keys ++ [d.key]) := (List.pairwise_append.mp hdist).1
      obtain ⟨-, hfresh⟩ := Document.Value.distinct_snoc.mp hsnoc
      refine ⟨r.push d.key d.type, declare_eq_ok.mpr ⟨hlegal, add_eq_ok.mpr ⟨hkey, hfresh, rfl⟩⟩, ?_⟩
      rw [ih (by rwa [keys_push]), keys_push]
      exact ⟨hall, hdist, by simp [push]⟩

/-- The expression is in scope where the keys are known. -/
def KnownIn (r : Registry) (keys : List Value) : TypeExpr → Prop :=
  Scoped r.arity? fun n => .str n ∈ keys

theorem resolve_ok_iff_knownIn {e : TypeExpr} :
    (∃ t, r.resolve e = .ok t) ↔ r.KnownIn r.keys e := by
  rw [resolve_ok_iff, KnownIn]
  simp only [isSome_find?_str]

/-- Declaring aliases succeeds when each is made of names before it. The registry grows by one name for each. -/
theorem foldlM_declareAlias_ok {aliases : Spec.Table TypeExpr} (hd : Distinct r.keys) :
    (∃ r', aliases.foldlM declareAlias r = .ok r') ↔ (∀ a ∈ aliases, a.1.isKey) ∧
      Distinct (r.keys ++ aliases.map (·.1)) ∧
      ∀ pre a post, aliases = pre ++ a :: post → r.KnownIn (r.keys ++ pre.map (·.1)) a.2 := by
  induction aliases generalizing r with
  | nil => simp [hd, pure, Except.pure]
  | cons a aliases ih =>
    rw [List.forall_mem_cons, List.map_cons, List.append_cons r.keys]
    simp only [List.foldlM_cons, Except.bind_eq_ok]
    constructor
    · rintro ⟨r', mid, hmid, hrest⟩
      obtain ⟨t, ht, hadd⟩ := declareAlias_eq_ok.mp hmid
      obtain ⟨hkey, hfresh, rfl⟩ := add_eq_ok.mp hadd
      have hsnoc : Distinct (r.push a.1 t).keys := by
        rw [keys_push]; exact Document.Value.distinct_snoc.mpr ⟨hd, hfresh⟩
      obtain ⟨hall, hdist, hknown⟩ := (ih hsnoc).mp ⟨r', hrest⟩
      refine ⟨⟨hkey, hall⟩, by simpa using hdist, fun pre b post hsplit => ?_⟩
      -- the first alias sees the names of the registry; a later one also sees those declared by then
      rcases List.cons_eq_append_iff.mp hsplit with ⟨rfl, h⟩ | ⟨pre', rfl, h⟩
      · cases h
        simpa using resolve_ok_iff_knownIn.mp ⟨t, ht⟩
      · have hb : r.KnownIn ((r.push a.1 t).keys ++ pre'.map (·.1)) b.2 := hknown pre' b post h
        simpa using hb
    · rintro ⟨⟨hkey, hall⟩, hdist, hknown⟩
      have hsnoc : Distinct (r.keys ++ [a.1]) := (List.pairwise_append.mp hdist).1
      obtain ⟨-, hfresh⟩ := Document.Value.distinct_snoc.mp hsnoc
      obtain ⟨t, ht⟩ := resolve_ok_iff_knownIn.mpr (by simpa using hknown [] a aliases rfl)
      have hrest := (ih (r := r.push a.1 t) (by rwa [keys_push])).mpr
        ⟨hall, by rwa [keys_push], fun pre b post h => ?_⟩
      · obtain ⟨r', hr'⟩ := hrest
        exact ⟨r', _, declareAlias_eq_ok.mpr ⟨t, ht, add_eq_ok.mpr ⟨hkey, hfresh, rfl⟩⟩, hr'⟩
      · have hb := hknown (a :: pre) b post (by rw [h]; rfl)
        rw [keys_push, List.append_assoc]
        exact hb

/-- Declaring aliases appends one entry for each, with the type that the alias stands for in the registry that
holds them all; names that come later do not change it. -/
theorem foldlM_declareAlias {aliases : Spec.Table TypeExpr} (hd : Distinct r.keys)
    (h : aliases.foldlM declareAlias r = .ok r') :
    r'.templates = r.templates ∧ Distinct r'.keys ∧ ∃ added, r'.types = r.types ++ added ∧
      List.Forall₂ (fun a e => e.1 = a.1 ∧ r'.resolve a.2 = .ok e.2) aliases added := by
  induction aliases generalizing r with
  | nil =>
    rw [List.foldlM_nil, Except.pure_eq_ok_iff] at h
    subst h
    exact ⟨rfl, hd, [], by simp, .nil⟩
  | cons a aliases ih =>
    rw [List.foldlM_cons, Except.bind_eq_ok] at h
    obtain ⟨mid, hmid, hrest⟩ := h
    obtain ⟨t, ht, hadd⟩ := declareAlias_eq_ok.mp hmid
    obtain ⟨hkey, hfresh, rfl⟩ := add_eq_ok.mp hadd
    have hsnoc : Distinct (r.push a.1 t).keys := by
      rw [keys_push]; exact Document.Value.distinct_snoc.mpr ⟨hd, hfresh⟩
    obtain ⟨htemplates, hdist, added, htypes, hall⟩ := ih hsnoc hrest
    have hsplit : r'.types = r.types ++ (a.1, t) :: added := by simp [htypes, push]
    have hext : Extends r r' := extends_of_subset htemplates hdist (by simp [hsplit])
    exact ⟨htemplates, hdist, (a.1, t) :: added, hsplit, .cons ⟨rfl, resolve_mono hext ht⟩ hall⟩

end Registry

/-! ## Meaning -/

namespace Spec

variable {s : Spec} {r : Registry}

/-- The names that a class declares: its own and, if it has one, that of its shared handles. -/
def classNames (e : Value × ClassDecl × Bool) : List Value :=
  e.1 :: if e.2.1.handle.truthy then [e.2.1.handle] else []

/-- The names that are no aliases. -/
def entityNames (s : Spec) : List Value :=
  s.primitives ++ s.allClasses.flatMap classNames ++ s.enums.map (·.1) ++ s.records.map (·.1)
    ++ s.keyTypes.map (·.1) ++ s.opaqueTypes

/-- The declarations have the names that are no aliases, table after table. -/
theorem map_key_declarations : s.declarations.map (·.key) = s.entityNames := by
  have hclass : (fun e : Value × ClassDecl × Bool =>
      (classDeclarations e.1 e.2.1).map (·.key)) = classNames := by
    funext e
    rw [classDeclarations, classNames]
    split <;> rfl
  simp only [declarations, entityNames, List.map_append, List.map_map, List.map_flatMap, hclass]
  simp [Function.comp_def, Declaration.key]

/-- All names. -/
def names (s : Spec) : List Value := s.entityNames ++ s.aliases.map (·.1)

/-- The arity that a template is declared with. -/
def arity? (s : Spec) (name : String) : Option Arity :=
  (s.templates.find? fun e => e.1.sameKey (.str name)).map (·.2)

/-- The expression is in scope where the given names are known. -/
def InScope (s : Spec) (names : List Value) : TypeExpr → Prop :=
  Scoped s.arity? fun n => .str n ∈ names

/-- The expression stands for the type by the declarations of the specification. -/
inductive Denotes (s : Spec) : TypeExpr → Ty → Prop
  | declared {d n} : d ∈ s.declarations → d.key = .str n → Denotes s (.named n) d.type
  | aliased {n e t} : (.str n, e) ∈ s.aliases → Denotes s e t → Denotes s (.named n) t
  | template {n args ts} : args.length = ts.length →
      (∀ {a t}, (a, t) ∈ args.zip ts → Denotes s a t) →
      Denotes s (.template n args) (.template n ts)
  | func {params ps ret t quals} : params.length = ps.length →
      (∀ {p q}, (p, q) ∈ params.zip ps → q.1 = p.1) →
      (∀ {p q}, (p, q) ∈ params.zip ps → Denotes s p.2 q.2) → Denotes s ret t →
      Denotes s (.func ⟨params, ret, quals⟩) (.func ⟨ps, t, quals⟩)
  | modified {m e t} : Denotes s e t → Denotes s (.modified m e) (.modified m t)

/-- The name, whatever value it is, stands for the type. -/
def Names (s : Spec) (key : Value) (t : Ty) : Prop :=
  (∃ d ∈ s.declarations, d.key = key ∧ d.type = t) ∨ ∃ a ∈ s.aliases, a.1 = key ∧ s.Denotes a.2 t

theorem denotes_named {n : String} {t : Ty} : s.Denotes (.named n) t ↔ s.Names (.str n) t := by
  constructor
  · intro h
    cases h with
    | declared hd hkey => exact .inl ⟨_, hd, hkey, rfl⟩
    | aliased ha h => exact .inr ⟨_, ha, rfl, h⟩
  · rintro (⟨d, hd, hkey, rfl⟩ | ⟨⟨key, e⟩, ha, rfl, h⟩)
    · exact .declared hd hkey
    · exact .aliased ha h

/-- In a registry whose names stand for their types, so do the expressions made of them. By induction over the
expression. -/
theorem denotes_of_resolve (hr : ∀ entry ∈ r.types, s.Names entry.1 entry.2) {e : TypeExpr} {t : Ty}
    (h : r.resolve e = .ok t) : s.Denotes e t := by
  induction e using TypeExpr.inductOn generalizing t with
  | named n =>
    obtain ⟨k, hk, hmem⟩ := Registry.mem_of_find? (Registry.resolve_named.mp h)
    rw [Document.Value.sameKey_str.mp hk] at hmem
    exact denotes_named.mpr (hr _ hmem)
  | template n args ih =>
    obtain ⟨-, ts, hts, rfl⟩ := Registry.resolve_template.mp h
    obtain ⟨hlen, hzip⟩ := List.forall₂_iff_zip.mp (Except.mapM_eq_ok.mp hts)
    exact .template hlen fun hat => ih _ (List.of_mem_zip hat).1 (hzip hat)
  | func params ret quals ihp ihr =>
    obtain ⟨⟨ps, u, quals'⟩, hσ, rfl⟩ := Registry.resolve_func.mp h
    obtain ⟨hret, hps, rfl⟩ := Registry.resolveSignature_eq_ok.mp hσ
    obtain ⟨hlen, hzip⟩ := List.forall₂_iff_zip.mp (Except.mapM_eq_ok.mp hps)
    refine .func hlen (fun hpq => ?_) (fun hpq => ?_) (ihr hret)
    · exact (Registry.resolveParam_eq_ok.mp (hzip hpq)).2.1
    · exact ihp _ (List.of_mem_zip hpq).1 (Registry.resolveParam_eq_ok.mp (hzip hpq)).2.2
  | modified m inner ih =>
    obtain ⟨u, hu, rfl⟩ := Registry.resolve_modified.mp h
    exact .modified (ih hu)
  | missing => exact absurd h Registry.resolve_missing

/-- What the registry of a specification holds. -/
structure Registered (s : Spec) (r : Registry) : Prop where
  templates : r.templates = s.templates
  keys : r.keys = s.names
  distinct : Distinct s.names
  declared : ∀ d ∈ s.declarations, (d.key, d.type) ∈ r.types
  aliases : ∀ a ∈ s.aliases, ∃ t, r.resolve a.2 = .ok t ∧ (a.1, t) ∈ r.types
  named : ∀ entry ∈ r.types, s.Names entry.1 entry.2

/-- The registry of the names that are no aliases. -/
def entities (s : Spec) : Registry :=
  { templates := s.templates, types := s.declarations.map fun d => (d.key, d.type) }

@[simp] theorem keys_entities : s.entities.keys = s.entityNames := by
  rw [← map_key_declarations]
  simp [entities, Registry.keys]

theorem foldlM_declarations :
    s.declarations.foldlM Registry.declare { templates := s.templates } = .ok r ↔
      (∀ d ∈ s.declarations, d.Legal ∧ d.key.isKey) ∧ Distinct s.entityNames ∧ r = s.entities := by
  have hnil : Distinct ({ templates := s.templates } : Registry).keys := .nil
  rw [Registry.foldlM_declare hnil, map_key_declarations]
  rfl

/-- **Declaring the names of a specification.** It succeeds exactly when they are distinct keys, those
of entities are texts without underscores, and each alias is made of names before it. -/
theorem ofSpec_ok_iff :
    (∃ r, Registry.ofSpec s = .ok r) ↔ (∀ d ∈ s.declarations, d.Legal ∧ d.key.isKey) ∧
      (∀ a ∈ s.aliases, a.1.isKey) ∧ Distinct s.names ∧
      ∀ pre a post, s.aliases = pre ++ a :: post →
        s.InScope (s.entityNames ++ pre.map (·.1)) a.2 := by
  simp only [Registry.ofSpec, Except.bind_eq_ok, foldlM_declarations]
  have halias (hd : Distinct s.entityNames) :
      (∃ r, s.aliases.foldlM Registry.declareAlias s.entities = .ok r) ↔ _ :=
    Registry.foldlM_declareAlias_ok (by rwa [keys_entities])
  rw [keys_entities] at halias
  constructor
  · rintro ⟨r, _, ⟨hlegal, hd, rfl⟩, h⟩
    obtain ⟨hkeys, hdist, hscope⟩ := (halias hd).mp ⟨r, h⟩
    exact ⟨hlegal, hkeys, hdist, hscope⟩
  · rintro ⟨hlegal, hkeys, hdist, hscope⟩
    have hd : Distinct s.entityNames := (List.pairwise_append.mp hdist).1
    obtain ⟨r, h⟩ := (halias hd).mpr ⟨hkeys, hdist, hscope⟩
    exact ⟨r, _, ⟨hlegal, hd, rfl⟩, h⟩

/-- The registry of a specification holds the names that are no aliases, then one entry for each alias. -/
theorem types_of_ofSpec (h : Registry.ofSpec s = .ok r) :
    ∃ added, r.types = s.entities.types ++ added ∧
      List.Forall₂ (fun a e => e.1 = a.1 ∧ r.resolve a.2 = .ok e.2) s.aliases added := by
  obtain ⟨r₀, hr₀, h⟩ := Except.bind_eq_ok.mp h
  obtain ⟨-, hd, rfl⟩ := foldlM_declarations.mp hr₀
  exact (Registry.foldlM_declareAlias (r := s.entities) (by rwa [keys_entities]) h).2.2

/-- What later modules use of `Registry.ofSpec`: all that it holds, said of the finished registry and not of the
order in which names were declared. -/
theorem registered_of_ofSpec (h : Registry.ofSpec s = .ok r) : s.Registered r := by
  obtain ⟨added, htypes, hall⟩ := types_of_ofSpec h
  obtain ⟨r₀, hr₀, h⟩ := Except.bind_eq_ok.mp h
  obtain ⟨-, hd, rfl⟩ := foldlM_declarations.mp hr₀
  obtain ⟨htemplates, hdist, -⟩ :=
    Registry.foldlM_declareAlias (r := s.entities) (by rwa [keys_entities]) h
  have hkeys : r.keys = s.names := by
    rw [Registry.keys, htypes, List.map_append, names, ← keys_entities, Registry.keys,
      List.append_cancel_left_eq]
    exact hall.map_eq fun he => he.1
  refine ⟨htemplates, hkeys, hkeys ▸ hdist, fun d hmem => ?_, fun a ha => ?_, ?_⟩
  · rw [htypes]
    exact List.mem_append_left _ (List.mem_map_of_mem hmem)
  · obtain ⟨e, he, hname, hresolve⟩ := hall.exists_of_mem_left ha
    refine ⟨e.2, hresolve, ?_⟩
    rw [htypes, ← hname]
    exact List.mem_append_right _ he
  · -- aliases are declared after what they are made of
    refine Except.foldlM_invariant (P := fun r => ∀ entry ∈ r.types, s.Names entry.1 entry.2)
      (fun r r' a ha hr hstep => ?_) ?_ h
    · obtain ⟨t, ht, hadd⟩ := Registry.declareAlias_eq_ok.mp hstep
      obtain ⟨-, -, rfl⟩ := Registry.add_eq_ok.mp hadd
      intro entry hentry
      rcases List.mem_append.mp hentry with hentry | hentry
      · exact hr entry hentry
      · rw [List.mem_singleton.mp hentry]
        exact .inr ⟨a, ha, rfl, denotes_of_resolve hr ht⟩
    · intro entry hentry
      obtain ⟨d, hmem, rfl⟩ := List.mem_map.mp hentry
      exact .inl ⟨d, hmem, rfl, rfl⟩

namespace Registered

/-- Which expressions can be resolved depends only on the declared names and the arities of templates. -/
theorem resolve_ok_iff (h : s.Registered r) {e : TypeExpr} :
    (∃ t, r.resolve e = .ok t) ↔ s.InScope s.names e := by
  rw [Registry.resolve_ok_iff_knownIn, h.keys, Registry.KnownIn, InScope]
  have harity : r.arity? = s.arity? := by
    funext n
    rw [Registry.arity?, h.templates, arity?]
  rw [harity]

theorem find?_of_mem (h : s.Registered r) {k key : Value} {t : Ty} (hk : k.sameKey key)
    (hmem : (k, t) ∈ r.types) : r.find? key = some t :=
  Registry.find?_of_mem (h.keys ▸ h.distinct) hmem hk

/-- What an expression stands for is what it is resolved to. By induction over `Denotes`, which goes through
aliases. -/
theorem resolve_of_denotes (h : s.Registered r) {e : TypeExpr} {t : Ty} (hd : s.Denotes e t)
    (hs : s.InScope s.names e) : r.resolve e = .ok t := by
  induction hd with
  | declared hmem hkey =>
    refine Registry.resolve_named.mpr (h.find?_of_mem ?_ (h.declared _ hmem))
    simp [hkey]
  -- the alias was resolved when it was declared; by the induction to the type that its body stands for
  | aliased ha _ ih =>
    obtain ⟨u, hu, hmem⟩ := h.aliases _ ha
    have hut := ih (h.resolve_ok_iff.mp ⟨u, hu⟩)
    rw [hu] at hut; cases hut
    exact Registry.resolve_named.mpr (h.find?_of_mem (by simp) hmem)
  | template hlen _ ih =>
    obtain ⟨t', ht'⟩ := h.resolve_ok_iff.mpr hs
    obtain ⟨harity, -⟩ := Registry.resolve_template.mp ht'
    cases hs with
    | template _ _ hargs =>
      refine Registry.resolve_template.mpr ⟨harity, _, ?_, rfl⟩
      refine Except.mapM_eq_ok.mpr (List.forall₂_iff_zip.mpr ⟨hlen, fun hat => ?_⟩)
      exact ih hat (hargs _ (List.of_mem_zip hat).1)
  | func hlen hname _ _ ihp ihr =>
    cases hs with
    | func hx hp hr =>
      refine Registry.resolve_func.mpr ⟨_, Registry.resolveSignature_eq_ok.mpr ⟨ihr hr, ?_, rfl⟩, rfl⟩
      refine Except.mapM_eq_ok.mpr (List.forall₂_iff_zip.mpr ⟨hlen, fun hpq => ?_⟩)
      have hmem := (List.of_mem_zip hpq).1
      exact Registry.resolveParam_eq_ok.mpr ⟨hx _ hmem, hname hpq, ihp hpq (hp _ hmem)⟩
  | modified _ ih =>
    cases hs with
    | modified hs => exact Registry.resolve_modified.mpr ⟨_, ih hs, rfl⟩

/-- **Looking up in the registry of a specification** gives what an expression in scope stands for. -/
theorem resolve_iff (h : s.Registered r) {e : TypeExpr} {t : Ty} :
    r.resolve e = .ok t ↔ s.InScope s.names e ∧ s.Denotes e t :=
  ⟨fun ht => ⟨h.resolve_ok_iff.mp ⟨t, ht⟩, denotes_of_resolve h.named ht⟩,
    fun ⟨hs, hd⟩ => h.resolve_of_denotes hd hs⟩

/-- Every name of the specification stands in the registry with its type. -/
theorem mem_of_names (h : s.Registered r) {key : Value} {t : Ty} (hn : s.Names key t) :
    (key, t) ∈ r.types := by
  rcases hn with ⟨d, hd, rfl, rfl⟩ | ⟨a, ha, rfl, hdenotes⟩
  · exact h.declared d hd
  · obtain ⟨u, hu, hmem⟩ := h.aliases a ha
    have hut := h.resolve_of_denotes hdenotes (h.resolve_ok_iff.mp ⟨u, hu⟩)
    rw [hu] at hut; cases hut
    exact hmem

/-- A key is found under the names that address its entry, and the type is the one that such a name stands for.
-/
theorem find?_eq_some (h : s.Registered r) {key : Value} {t : Ty} :
    r.find? key = some t ↔ ∃ k, k.sameKey key ∧ s.Names k t := by
  constructor
  · intro hfind
    obtain ⟨k, hk, hmem⟩ := Registry.mem_of_find? hfind
    exact ⟨k, hk, h.named _ hmem⟩
  · rintro ⟨k, hk, hn⟩
    exact h.find?_of_mem hk (h.mem_of_names hn)

end Registered

end Spec

end LuaGlue
