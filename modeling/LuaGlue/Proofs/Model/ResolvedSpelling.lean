import LuaGlue.Proofs.Model.Expansion
import LuaGlue.Proofs.TypeExpr.RoundTrip

/-!
# Resolved types as text

A resolved type is written by `Ty.spelling`, a type expression by `TypeExpr.render`. The two go together:
what an expression stands for is written as the expression with its aliases and handles replaced.

- **Mentions** (`TypeExpr.Within`, `Spec.Provides`): the expressions that stand in an expression, and what
  the names in them need.
- **Trees** (`Ty.expr`): the expression that a resolved type spells (`spelling_eq_render`).
- **Replacements** (`Spec.replacements`): the aliases and handles declared so far, each with the tree that
  it comes to. Looking up an expression gives a type with the tree of the replaced expression
  (`Registry.Expands.expr_of_resolve`).
- **States** (`Registry.Reached`): the registries that declaring the names of a specification goes through.
  Each step keeps the replacements in order (`Expands.push`, `Expands.push_replaced`), so all states have
  them (`Reached.expands`).
-/

namespace LuaGlue

open Document (Value)
open Document.Value (Distinct)

/-! ## Mentions -/

/-- The expression `u` is the given one or stands in it. -/
inductive TypeExpr.Within (u : TypeExpr) : TypeExpr → Prop
  | self : Within u u
  | arg {n args a} : a ∈ args → Within u a → Within u (.template n args)
  | param {params ret quals p} : p ∈ params → Within u p.2 → Within u (.func ⟨params, ret, quals⟩)
  | ret {params ret quals} : Within u ret → Within u (.func ⟨params, ret, quals⟩)
  | inner {m e} : Within u e → Within u (.modified m e)

/-- What the expression mentions is there when the given names are declared: every type name is one of
them, every template takes its arguments, and no parameter has a reserved name. -/
structure Spec.Provides (s : Spec) (names : List Value) (e : TypeExpr) : Prop where
  types : ∀ n, (TypeExpr.named n).Within e → .str n ∈ names
  templates : ∀ n args, (TypeExpr.template n args).Within e →
    ∃ arity, s.arity? n = some arity ∧ arity.Accepts args.length
  params : ∀ sig, (TypeExpr.func sig).Within e → ∀ p ∈ sig.params, ¬Registry.isReserved p.1

namespace TypeExpr.Within

theorem trans {u v e : TypeExpr} (huv : Within u v) (hve : Within v e) : Within u e := by
  induction hve with
  | self => exact huv
  | arg hmem _ ih => exact .arg hmem ih
  | param hmem _ ih => exact .param hmem ih
  | ret _ ih => exact .ret ih
  | inner _ ih => exact .inner ih

end TypeExpr.Within

namespace Spec

variable {s : Spec} {names : List Value} {e u : TypeExpr}

theorem Provides.of_within (h : s.Provides names e) (hu : u.Within e) : s.Provides names u where
  types n hn := h.types n (hn.trans hu)
  templates n args hn := h.templates n args (hn.trans hu)
  params sig hsig := h.params sig (hsig.trans hu)

/-- What stands in an expression in scope is in scope, by induction over `Within`. -/
theorem InScope.of_within (h : s.InScope names e) (hu : u.Within e) : s.InScope names u := by
  induction hu with
  | self => exact h
  | arg hmem _ ih =>
    cases h with
    | template _ _ hargs => exact ih (hargs _ hmem)
  | param hmem _ ih =>
    cases h with
    | func _ hparams _ => exact ih (hparams _ hmem)
  | ret _ ih =>
    cases h with
    | func _ _ hret => exact ih hret
  | inner _ ih =>
    cases h with
    | modified hinner => exact ih hinner

/-- An expression in scope mentions nothing that is not there: each mention is an expression in scope of its own
by `InScope.of_within`. -/
theorem InScope.provides (h : s.InScope names e) : s.Provides names e := by
  constructor
  case types =>
    intro n hn
    cases h.of_within hn with
    | named hknown => exact hknown
  case templates =>
    intro n args hn
    cases h.of_within hn with
    | template harity haccepts _ => exact ⟨_, harity, haccepts⟩
  case params =>
    intro sig hsig
    cases h.of_within hsig with
    | func hreserved _ _ => exact hreserved

theorem InScope.isComplete (h : s.InScope names e) : e.isComplete := by
  induction h with
  | named => rfl
  | template _ _ _ ih => exact TypeExpr.isComplete_template.mpr ih
  | func _ _ _ ihp ihr => exact TypeExpr.isComplete_func.mpr ⟨ihp, ihr⟩
  | modified _ ih => simpa [TypeExpr.isComplete] using ih

/-- The converse, by induction over the expression. A template without arguments is not complete and would be
missed otherwise. -/
theorem Provides.inScope (hc : e.isComplete) (h : s.Provides names e) : s.InScope names e := by
  induction e using TypeExpr.inductOn with
  | named n => exact .named (h.types n .self)
  | template n args ih =>
    obtain ⟨arity, harity, haccepts⟩ := h.templates n args .self
    have hargs := TypeExpr.isComplete_template.mp hc
    exact .template harity haccepts fun a ha => ih a ha (hargs a ha) (h.of_within (.arg ha .self))
  | func params ret quals ihp ihr =>
    obtain ⟨hparams, hret⟩ := TypeExpr.isComplete_func.mp hc
    exact .func (h.params _ .self) (fun p hp => ihp p hp (hparams p hp) (h.of_within (.param hp .self)))
      (ihr hret (h.of_within (.ret .self)))
  | modified m inner ih =>
    exact .modified (ih (by simpa [TypeExpr.isComplete] using hc) (h.of_within (.inner .self)))
  | missing => cases hc

/-- An expression is in scope when no part of it was left out and all that it mentions is there. `InScope` is
inductive over the expression; `Provides` speaks of its mentions alone. -/
theorem inScope_iff : s.InScope names e ↔ e.isComplete ∧ s.Provides names e :=
  ⟨fun h => ⟨h.isComplete, h.provides⟩, fun ⟨hc, h⟩ => h.inScope hc⟩

end Spec

/-! ## Trees -/

namespace Ty

mutual

/-- The expression that the type spells. -/
def expr : Ty → TypeExpr
  | .primitive name => .named name
  | .template name args => .template name (exprs args)
  | .func ⟨params, ret, quals⟩ => .func ⟨paramExprs params, expr ret, quals⟩
  | .modified m t => .modified m (expr t)
  | .object c => .named c.name
  | .record r => .named r.name
  | .enumeration e => .named e.name
  | .opaqueType name => .named name
  | .keyType name => .named name

/-- The expressions that template arguments spell. -/
def exprs : List Ty → List TypeExpr
  | [] => []
  | t :: ts => expr t :: exprs ts

/-- The parameters with the expressions that their types spell. -/
def paramExprs : List (String × Ty) → List (String × TypeExpr)
  | [] => []
  | (name, t) :: ps => (name, expr t) :: paramExprs ps

end

theorem exprs_eq_map (args : List Ty) : exprs args = args.map expr := by
  induction args with
  | nil => rfl
  | cons t ts ih => rw [exprs, ih, List.map_cons]

theorem paramExprs_eq_map (params : List (String × Ty)) :
    paramExprs params = params.map fun p => (p.1, p.2.expr) := by
  induction params with
  | nil => rfl
  | cons p ps ih => rw [paramExprs, ih, List.map_cons]

theorem spellings_eq_map (args : List Ty) : spellings args = args.map spelling := by
  induction args with
  | nil => rfl
  | cons t ts ih => rw [spellings, ih, List.map_cons]

theorem paramSpellings_eq_map (params : List (String × Ty)) :
    paramSpellings params = params.map fun p => p.1 ++ ": " ++ p.2.spelling := by
  induction params with
  | nil => rfl
  | cons p ps ih => rw [paramSpellings, ih, List.map_cons]

/-- **The two ways to write a type agree**: a resolved type is written as the expression `Ty.expr` is printed.
-/
theorem spelling_eq_render (t : Ty) : t.spelling = t.expr.render := by
  induction t using Ty.inductOn with
  | primitive | object | record | enumeration | opaqueType | keyType =>
    rw [spelling, expr, TypeExpr.render]
  | template n args ih =>
    have hargs : args.map spelling = (args.map expr).map TypeExpr.render := by
      rw [List.map_map]
      exact List.map_congr_left ih
    rw [spelling, expr, TypeExpr.render, spellings_eq_map, exprs_eq_map, TypeExpr.renderArgs_eq_map, hargs]
  | func params ret quals ihp ihr =>
    have hparams : (params.map fun p => p.1 ++ ": " ++ p.2.spelling) =
        (params.map fun p => (p.1, p.2.expr)).map fun p => p.1 ++ ": " ++ p.2.render := by
      rw [List.map_map]
      refine List.map_congr_left fun p hp => ?_
      rw [ihp p hp]
      rfl
    rw [spelling, expr, TypeExpr.render, paramSpellings_eq_map, paramExprs_eq_map,
      TypeExpr.renderParams_eq_map, hparams, ihr]
  | modified m inner ih => rw [spelling, expr, TypeExpr.render, ih]

theorem isComplete_expr (t : Ty) : t.expr.isComplete := by
  induction t using Ty.inductOn with
  | primitive | object | record | enumeration | opaqueType | keyType => rfl
  | template n args ih =>
    rw [expr, exprs_eq_map]
    exact TypeExpr.isComplete_template.mpr (List.forall_mem_map.mpr ih)
  | func params ret quals ihp ihr =>
    rw [expr, paramExprs_eq_map]
    exact TypeExpr.isComplete_func.mpr ⟨List.forall_mem_map.mpr ihp, ihr⟩
  | modified m inner ih => exact ih

end Ty

/-! ## Replacements -/

/-- What the name of shared handles is replaced by. -/
def Declaration.replacement? : Declaration → Option (Value × TypeExpr)
  | .handle name type => some (name, type.expr)
  | _ => none

/-- The handles among the declared names and the declared aliases, each with what it is replaced by. An alias
is replaced by its body, in which the names before it are replaced. -/
def Spec.replacements (ds : List Declaration) (as : Spec.Table TypeExpr) : Spec.Table TypeExpr :=
  let handles := ds.filterMap Declaration.replacement?
  handles ++ Spec.expandAliases handles as

namespace TypeExpr

variable {table : Spec.Table TypeExpr} {n : String}

theorem expand_named_of_notMem (h : .str n ∉ table.map (·.1)) : (named n).expand table = .named n := by
  have hnone : table.find? (fun e => e.1.sameKey (.str n)) = none := by
    rw [List.find?_eq_none]
    intro e he hkey
    exact h (List.mem_map.mpr ⟨e, he, Document.Value.sameKey_str.mp hkey⟩)
  rw [expand, hnone]

/-- A replacement under another name, put last, does not matter. -/
theorem expand_named_snoc_other {key : Value} (u : TypeExpr) (h : key ≠ .str n) :
    (named n).expand (table ++ [(key, u)]) = (named n).expand table := by
  have hlast : [(key, u)].find? (fun e => e.1.sameKey (.str n)) = none := by simpa using h
  rw [expand, expand, List.find?_append, hlast, Option.or_none]

/-- A replacement counts if no earlier one has its name. -/
theorem expand_named_snoc_self (u : TypeExpr) (h : .str n ∉ table.map (·.1)) :
    (named n).expand (table ++ [(.str n, u)]) = u := by
  have hnone : table.find? (fun e => e.1.sameKey (.str n)) = none := by
    rw [List.find?_eq_none]
    intro e he hkey
    exact h (List.mem_map.mpr ⟨e, he, Document.Value.sameKey_str.mp hkey⟩)
  have hlast : [((.str n : Value), u)].find? (fun e => e.1.sameKey (.str n)) = some (.str n, u) := by simp
  rw [expand, List.find?_append, hnone, hlast]
  rfl

/-- An expression that mentions no name of the table stays as it is. -/
theorem expand_of_notMem {e : TypeExpr} (h : ∀ n, (named n).Within e → .str n ∉ table.map (·.1)) :
    e.expand table = e := by
  induction e using TypeExpr.inductOn with
  | named n => exact expand_named_of_notMem (h n .self)
  | template n args ih =>
    have hargs : args.map (expand table) = args := by
      refine (List.map_congr_left fun a ha => ?_).trans (List.map_id args)
      exact ih a ha fun m hm => h m (.arg ha hm)
    rw [expand, expandArgs_eq_map, hargs]
  | func params ret quals ihp ihr =>
    have hparams : (params.map fun p => (p.1, expand table p.2)) = params := by
      refine (List.map_congr_left fun p hp => ?_).trans (List.map_id params)
      rw [ihp p hp fun m hm => h m (.param hp hm)]
      rfl
    rw [expand, expandParams_eq_map, hparams, ihr fun m hm => h m (.ret hm)]
  | modified m inner ih => rw [expand, ih fun n hn => h n (.inner hn)]
  | missing => rfl

end TypeExpr

namespace Spec

/-- The last alias sees all that were expanded before it. -/
theorem expandAliases_snoc (table as : Table TypeExpr) (a : Value × TypeExpr) :
    expandAliases table (as ++ [a]) =
      expandAliases table as ++ [(a.1, a.2.expand (table ++ expandAliases table as))] := by
  induction as generalizing table with
  | nil => simp [expandAliases]
  | cons b as ih => simp [expandAliases, ih]

theorem replacements_declare (ds : List Declaration) (d : Declaration) :
    replacements (ds ++ [d]) [] = replacements ds [] ++ d.replacement?.toList := by
  cases hd : d.replacement? <;> simp [replacements, expandAliases, hd]

/-- One more alias adds one replacement: its body, in which everything before it has been replaced. -/
theorem replacements_alias (ds : List Declaration) (as : Table TypeExpr) (a : Value × TypeExpr) :
    replacements ds (as ++ [a]) = replacements ds as ++ [(a.1, a.2.expand (replacements ds as))] := by
  simp [replacements, expandAliases_snoc]

/-- A name that is not that of handles is the tree of its type: entities are written by their names. -/
theorem expr_type_of_declared {s : Spec} {d : Declaration} {n : String} (hd : d ∈ s.declarations)
    (hkey : d.key = .str n) (hplain : d.replacement? = none) : d.type.expr = .named n := by
  simp only [declarations, List.mem_append, List.mem_map, List.mem_flatMap] at hd
  rcases hd with ((((⟨v, -, rfl⟩ | ⟨⟨v, e⟩, -, h⟩) | ⟨⟨v, e⟩, -, rfl⟩) | ⟨⟨v, e⟩, -, rfl⟩) | ⟨⟨v, e⟩, -, rfl⟩) |
    ⟨v, -, rfl⟩
  · cases hkey; rfl
  · rw [classDeclarations] at h
    rcases List.mem_cons.mp h with rfl | h
    · cases hkey; rfl
    · split at h
      · rw [List.mem_singleton.mp h] at hplain
        cases hplain
      · cases h
  all_goals cases hkey; rfl

end Spec

namespace Registry

/-- Every name of the registry has the tree that the table replaces it by. -/
structure Expands (r : Registry) (table : Spec.Table TypeExpr) : Prop where
  names : ∀ e ∈ table, e.1 ∈ r.keys
  named : ∀ {n t}, r.find? (.str n) = some t → (TypeExpr.named n).expand table = t.expr

variable {r : Registry} {table : Spec.Table TypeExpr}

/-- Looking up an expression gives a type with the tree of the replaced expression. By induction over the
expression, with `Expands.named` at names. -/
theorem Expands.expr_of_resolve (h : r.Expands table) {e : TypeExpr} {t : Ty} (ht : r.resolve e = .ok t) :
    e.expand table = t.expr := by
  induction e using TypeExpr.inductOn generalizing t with
  | named n => exact h.named (resolve_named.mp ht)
  | template n args ih =>
    obtain ⟨-, ts, hts, rfl⟩ := resolve_template.mp ht
    have hall := (List.forall₂_and_left _ _).mpr ⟨fun a ha t => ih a ha (t := t), Except.mapM_eq_ok.mp hts⟩
    have hexprs : ts.map Ty.expr = args.map (TypeExpr.expand table) :=
      hall.map_eq fun h => (h.1 _ h.2).symm
    rw [TypeExpr.expand, Ty.expr, TypeExpr.expandArgs_eq_map, Ty.exprs_eq_map, hexprs]
  | func params ret quals ihp ihr =>
    obtain ⟨⟨ps, u, quals'⟩, hσ, rfl⟩ := resolve_func.mp ht
    obtain ⟨hret, hps, rfl⟩ := resolveSignature_eq_ok.mp hσ
    have hall := (List.forall₂_and_left _ _).mpr ⟨fun p hp t => ihp p hp (t := t), Except.mapM_eq_ok.mp hps⟩
    have hexprs : (ps.map fun q => (q.1, q.2.expr)) = params.map fun p => (p.1, p.2.expand table) := by
      refine hall.map_eq fun h => ?_
      obtain ⟨-, hname, ht⟩ := resolveParam_eq_ok.mp h.2
      rw [hname, h.1 _ ht]
    rw [TypeExpr.expand, Ty.expr, TypeExpr.expandParams_eq_map, Ty.paramExprs_eq_map, hexprs, ihr hret]
  | modified m inner ih =>
    obtain ⟨u, hu, rfl⟩ := resolve_modified.mp ht
    rw [TypeExpr.expand, Ty.expr, ih hu]
  | missing => exact absurd ht resolve_missing

/-- What is found after one more declaration was there before, or was declared last. -/
theorem find?_push_str {key : Value} {t u : Ty} {n : String} (h : (r.push key t).find? (.str n) = some u) :
    r.find? (.str n) = some u ∨ key = .str n ∧ u = t := by
  rw [find?, push, List.find?_append, Option.map_or, Option.or_eq_some_iff] at h
  rcases h with h | ⟨-, h⟩
  · exact .inl h
  · obtain ⟨e, he, rfl⟩ := Option.map_eq_some_iff.mp h
    have hkey := List.find?_some he
    obtain rfl := List.mem_singleton.mp (List.mem_of_find?_eq_some he)
    exact .inr ⟨Document.Value.sameKey_str.mp hkey, rfl⟩

/-- A name that is not declared yet has no replacement. -/
theorem Expands.notMem (h : r.Expands table) {n : String} (hfresh : ∀ k ∈ r.keys, ¬k.sameKey (.str n)) :
    .str n ∉ table.map (·.1) := by
  intro hmem
  obtain ⟨e, he, hen⟩ := List.mem_map.mp hmem
  exact hfresh e.1 (h.names e he) (Document.Value.sameKey_str.mpr hen)

/-- A name that is its own tree needs no replacement. -/
theorem Expands.push (h : r.Expands table) {key : Value} {t : Ty} (hfresh : ∀ k ∈ r.keys, ¬k.sameKey key)
    (ht : ∀ n, key = .str n → t.expr = .named n) : (r.push key t).Expands table where
  names e he := by simp [h.names e he]
  named {n u} hu := by
    rcases find?_push_str hu with hold | ⟨rfl, rfl⟩
    · exact h.named hold
    · rw [ht n rfl]
      exact TypeExpr.expand_named_of_notMem (h.notMem hfresh)

/-- Any other name is replaced by the tree of its type, which goes into the table with it. -/
theorem Expands.push_replaced (h : r.Expands table) {key : Value} {t : Ty}
    (hfresh : ∀ k ∈ r.keys, ¬k.sameKey key) : (r.push key t).Expands (table ++ [(key, t.expr)]) where
  names e he := by
    rcases List.mem_append.mp he with he | he
    · simp [h.names e he]
    · simp [List.mem_singleton.mp he]
  named {n u} hu := by
    rcases find?_push_str hu with hold | ⟨rfl, rfl⟩
    · rw [TypeExpr.expand_named_snoc_other, h.named hold]
      rintro rfl
      have hmem := isSome_find?_str.mp (Option.isSome_iff_exists.mpr ⟨u, hold⟩)
      exact hfresh _ hmem (Document.Value.sameKey_str.mpr rfl)
    · exact TypeExpr.expand_named_snoc_self _ (h.notMem hfresh)

/-! ## States -/

/-- The registry in which these declarations and aliases of the specification have been made, and no
others. -/
inductive Reached (s : Spec) : List Declaration → Spec.Table TypeExpr → Registry → Prop
  | start : Reached s [] [] { templates := s.templates }
  | declare {ds d r r'} : ds ++ [d] <+: s.declarations → Reached s ds [] r → r.declare d = .ok r' →
      Reached s (ds ++ [d]) [] r'
  | declareAlias {as a r r'} : as ++ [a] <+: s.aliases → Reached s s.declarations as r →
      r.declareAlias a = .ok r' → Reached s s.declarations (as ++ [a]) r'

namespace Reached

variable {s : Spec} {ds : List Declaration} {as : Spec.Table TypeExpr}

theorem templates (h : Reached s ds as r) : r.templates = s.templates := by
  induction h with
  | start => rfl
  | declare _ _ hd ih =>
    obtain ⟨-, -, rfl⟩ := add_eq_ok.mp (declare_eq_ok.mp hd).2
    exact ih
  | declareAlias _ _ ha ih =>
    obtain ⟨t, -, hadd⟩ := declareAlias_eq_ok.mp ha
    obtain ⟨-, -, rfl⟩ := add_eq_ok.mp hadd
    exact ih

/-- A state has the names of what was declared in it, in order. -/
theorem keys (h : Reached s ds as r) : r.keys = ds.map (·.key) ++ as.map (·.1) := by
  induction h with
  | start => rfl
  | declare _ _ hd ih =>
    obtain ⟨-, -, rfl⟩ := add_eq_ok.mp (declare_eq_ok.mp hd).2
    simp [ih]
  | declareAlias _ _ ha ih =>
    obtain ⟨t, -, hadd⟩ := declareAlias_eq_ok.mp ha
    obtain ⟨-, -, rfl⟩ := add_eq_ok.mp hadd
    simp [ih]

/-- **Every state has the trees of its names.** By induction over `Reached`: a handle or an alias brings its
replacement, any other name is its own tree. -/
theorem expands (h : Reached s ds as r) : r.Expands (Spec.replacements ds as) := by
  -- a step that declares handles or an alias adds its tree to the replacements, any other leaves them
  induction h with
  | start => exact ⟨fun e he => absurd he List.not_mem_nil, fun h => by cases h⟩
  | @declare ds d r r' hdone _ hd ih =>
    obtain ⟨-, hfresh, rfl⟩ := add_eq_ok.mp (declare_eq_ok.mp hd).2
    rw [Spec.replacements_declare]
    cases hplain : d.replacement? with
    | none =>
      have hmem : d ∈ s.declarations := hdone.subset (by simp)
      simpa using ih.push hfresh fun n hkey => Spec.expr_type_of_declared hmem hkey hplain
    | some e =>
      obtain rfl : e = (d.key, d.type.expr) := by
        cases d <;> simp_all [Declaration.replacement?, Declaration.key, Declaration.type]
      exact ih.push_replaced hfresh
  | declareAlias _ _ ha ih =>
    obtain ⟨t, ht, hadd⟩ := declareAlias_eq_ok.mp ha
    obtain ⟨-, hfresh, rfl⟩ := add_eq_ok.mp hadd
    rw [Spec.replacements_alias, ih.expr_of_resolve ht]
    exact ih.push_replaced hfresh

theorem of_foldlM_declare (hds : ds <+: s.declarations)
    (h : ds.foldlM Registry.declare { templates := s.templates } = .ok r) : Reached s ds [] r := by
  induction ds using List.reverseRecOn generalizing r with
  | nil => cases h; exact .start
  | append_singleton ds d ih =>
    obtain ⟨mid, hmid, hlast⟩ := Except.foldlM_snoc.mp h
    exact .declare hds (ih ((List.prefix_append ds [d]).trans hds) hmid) hlast

theorem of_foldlM_declareAlias {r₀ : Registry} (h₀ : Reached s s.declarations [] r₀) (has : as <+: s.aliases)
    (h : as.foldlM Registry.declareAlias r₀ = .ok r) : Reached s s.declarations as r := by
  induction as using List.reverseRecOn generalizing r with
  | nil => cases h; exact h₀
  | append_singleton as a ih =>
    obtain ⟨mid, hmid, hlast⟩ := Except.foldlM_snoc.mp h
    exact .declareAlias has (ih ((List.prefix_append as [a]).trans has) hmid) hlast

/-- The registry of the whole specification is the last state, with all declarations and aliases made. -/
theorem of_ofSpec (h : Registry.ofSpec s = .ok r) : Reached s s.declarations s.aliases r := by
  obtain ⟨mid, hmid, hlast⟩ := Except.bind_eq_ok.mp h
  exact of_foldlM_declareAlias (of_foldlM_declare (List.prefix_refl _) hmid) (List.prefix_refl _) hlast

/-- **Looking up types is exact, and types are written as their expressions.** In every state, looking up an
expression succeeds exactly when nothing in it was left out and all that it mentions is declared. What it
stands for is then written as the expression with its aliases and handles replaced. If the expression was
read from a text and mentions neither, reading what is written gives it back, and with it the same type. -/
theorem resolve_exact (h : Reached s ds as r) (e : TypeExpr) :
    ((∃ t, r.resolve e = .ok t) ↔
      e.isComplete ∧ s.Provides (ds.map (·.key) ++ as.map (·.1)) e) ∧
    (∀ t, r.resolve e = .ok t → (e.expand (Spec.replacements ds as)).print? = some t.spelling) ∧
    ∀ text t, parse text = .ok e →
      (∀ n, (TypeExpr.named n).Within e → .str n ∉ (Spec.replacements ds as).map (·.1)) →
      r.resolve e = .ok t → ∃ u, parse t.spelling = .ok u ∧ u = e ∧ r.resolve u = .ok t := by
  refine ⟨?_, fun t ht => ?_, fun text t htext hfree ht => ?_⟩
  · have harity : r.arity? = s.arity? := by
      funext n
      rw [arity?, Spec.arity?, h.templates]
    rw [resolve_ok_iff_knownIn, ← Spec.inScope_iff, KnownIn, Spec.InScope, h.keys, harity]
  · rw [h.expands.expr_of_resolve ht, TypeExpr.print?, t.isComplete_expr, t.spelling_eq_render]
    rfl
  · -- nothing is replaced, so the expression is the tree of its type
    have hexpr : e = t.expr := (TypeExpr.expand_of_notMem hfree).symm.trans (h.expands.expr_of_resolve ht)
    refine ⟨e, ?_, rfl, ht⟩
    rw [t.spelling_eq_render, ← hexpr]
    exact TypeExpr.parse_render_of_wellFormed (TypeExpr.wellFormed_of_parse htext)

/-- With everything declared, a function over an alias of an alias and a handle is written without them. Before
the first alias the same function is unknown, and a list of jobs is written as it was read. -/
theorem resolve_exact_workshop :
    (∃ r t, Reached Model.workshop Model.workshop.declarations Model.workshop.aliases r ∧
      r.resolve (.func ⟨[("jobs", .named "Batch")], .named "JobRef", {}⟩) = .ok t ∧
      t.spelling = "(jobs: List<std::shared_ptr<Job>>) -> std::shared_ptr<Job>" ∧
      ((TypeExpr.func ⟨[("jobs", .named "Batch")], .named "JobRef", {}⟩).expand
        (Spec.replacements Model.workshop.declarations Model.workshop.aliases)).print? = some t.spelling) ∧
    ∃ r t, Reached Model.workshop Model.workshop.declarations [] r ∧
      (¬∃ u, r.resolve (.func ⟨[("jobs", .named "Batch")], .named "JobRef", {}⟩) = .ok u) ∧
      r.resolve (.template "List" [.named "Job"]) = .ok t ∧
      ∃ u, parse t.spelling = .ok u ∧ u = .template "List" [.named "Job"] ∧ r.resolve u = .ok t := by
  constructor
  · exact ⟨_, _, of_ofSpec rfl, rfl, rfl, (resolve_exact (of_ofSpec rfl) _).2.1 _ rfl⟩
  · have hstate : Reached Model.workshop Model.workshop.declarations [] Model.workshop.entities :=
      of_foldlM_declare (List.prefix_refl _) rfl
    refine ⟨_, _, hstate, fun hu => ?_, rfl, ?_⟩
    · have hbatch := ((resolve_exact hstate _).1.mp hu).2.types "Batch" (.param (List.mem_singleton_self _) .self)
      revert hbatch
      show ¬Value.str "Batch" ∈ ["void", "Int", "Queue", "Job", "JobRef", "Clock", "Source", "State", "Options",
        "JobId", "Handle"].map Value.str
      simp
    · have hname (n : String) (h : isName n) : IsScopedName n := ⟨[n], by simp, by simpa using h, by simp⟩
      have hlist : (TypeExpr.template "List" [.named "Job"]).WellFormed :=
        .template (hname _ rfl) (by simp) (by simpa using TypeExpr.WellFormed.named (hname "Job" rfl))
      refine (resolve_exact hstate _).2.2 _ _ (TypeExpr.parse_render_of_wellFormed hlist) (fun n hn => ?_) rfl
      obtain rfl : n = "Job" := by
        cases hn with
        | arg hmem hn =>
          rw [List.mem_singleton.mp hmem] at hn
          cases hn
          rfl
      show Value.str "Job" ∉ [Value.str "JobRef"]
      simp

end Reached

end Registry

end LuaGlue
