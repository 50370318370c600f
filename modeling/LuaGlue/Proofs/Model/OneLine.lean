import LuaGlue.Proofs.Cpp.Spelling
import LuaGlue.Proofs.Model.Closure
import LuaGlue.Proofs.Text.Lines

/-!
# Types written on one line

- **Types** (`Ty.OneLine`): no name in the type holds a line break, and so its C++ spelling holds none
  (`Ty.OneLine.cppText`).
- **Models** (`Model.OneLine`): no text of the model that code is made of holds a line break.
- **From a document** (`BoundFrom.oneLine_of_resolve`): the names in a type expression that a text spells are
  on one line, so in such a model are the types of fields, key types and alternatives of `Mixed`.
-/

namespace LuaGlue

open Document (Value)

/-! ## Types -/

/-- No name in the type, and no native name of an entity in it, holds a line break. -/
inductive Ty.OneLine : Ty → Prop
  | primitive {n} : Text.OneLine n → OneLine (.primitive n)
  | template {n args} : Text.OneLine n → (∀ a ∈ args, OneLine a) → OneLine (.template n args)
  | func {params ret quals} : (∀ p ∈ params, Text.OneLine p.1) → (∀ p ∈ params, OneLine p.2) →
      OneLine ret → OneLine (.func ⟨params, ret, quals⟩)
  | modified {m t} : OneLine t → OneLine (.modified m t)
  | object {c} : Text.OneLine c.name → Text.OneLine c.native.text → OneLine (.object c)
  | record {r} : Text.OneLine r.name → Text.OneLine r.native.text → OneLine (.record r)
  | enumeration {e} : Text.OneLine e.name → Text.OneLine e.native.text → OneLine (.enumeration e)
  | opaqueType {n} : Text.OneLine n → OneLine (.opaqueType n)
  | keyType {n} : Text.OneLine n → OneLine (.keyType n)

theorem Ty.OneLine.bare {t : Ty} (h : t.OneLine) : t.bare.OneLine := by
  induction h with
  | @modified m t h ih =>
    cases m with
    | const | ref | rref => exact ih
    | pointer => exact .modified h
  | primitive hn => exact .primitive hn
  | template hn hargs => exact .template hn hargs
  | func hnames hp hr => exact .func hnames hp hr
  | object hn hnative => exact .object hn hnative
  | record hn hnative => exact .record hn hnative
  | enumeration hn hnative => exact .enumeration hn hnative
  | opaqueType hn => exact .opaqueType hn
  | keyType hn => exact .keyType hn

/-! ## C++ spellings -/

theorem oneLine_primitiveCpp {n : String} (h : Text.OneLine n) : Text.OneLine (primitiveCpp n) := by
  unfold primitiveCpp
  split
  all_goals first | decide | exact h

theorem oneLine_templateCpp {n : String} (h : Text.OneLine n) : Text.OneLine (templateCpp n) := by
  unfold templateCpp
  split
  · decide
  · exact h

theorem oneLine_suffix (m : Modifier) : Text.OneLine m.suffix := by
  cases m <;> decide

theorem oneLine_keptBySpelling : KeptBySpelling Text.OneLine where
  primitive := oneLine_primitiveCpp
  template := oneLine_templateCpp
  modified m ht := Text.oneLine_append.mpr ⟨ht, oneLine_suffix m⟩
  list := Text.oneLine_intercalate (by decide)
  arguments hn hargs := by
    simp only [Text.oneLine_append]
    exact ⟨⟨⟨hn, by decide⟩, hargs⟩, by decide⟩
  wrapper hn hret hparams := by
    simp only [Text.oneLine_append]
    exact ⟨⟨⟨⟨⟨hn, by decide⟩, hret⟩, by decide⟩, hparams⟩, by decide⟩
  param ht hn := by
    simp only [Text.oneLine_append]
    exact ⟨⟨ht, by decide⟩, hn⟩

namespace Ty

/-- `Ty.OneLine` asks for more than `Ty.Named`: names that are not spelled in C++ are to be on one line as well.
-/
theorem OneLine.named {t : Ty} (h : t.OneLine) : t.Named Text.OneLine := by
  induction h with
  | primitive hn => exact .primitive hn
  | template hn _ ih => exact .template hn ih
  | func hnames _ _ ihp ihr => exact .func hnames ihp ihr
  | modified _ ih => exact .modified ih
  | object hn hnative => exact .object hn hnative
  | record hn hnative => exact .record hn hnative
  | enumeration hn hnative => exact .enumeration hn hnative
  | opaqueType hn => exact .opaqueType hn
  | keyType hn => exact .keyType hn

theorem OneLine.cppText {t : Ty} (h : t.OneLine) {text : String} (htext : t.cppText = .ok text) :
    Text.OneLine text :=
  h.named.cppText oneLine_keptBySpelling htext

end Ty

theorem oneLine_declareParams {params : List (String × Ty)} {text : String}
    (hnames : ∀ p ∈ params, Text.OneLine p.1) (htypes : ∀ p ∈ params, p.2.OneLine)
    (h : declareParams params = .ok text) : Text.OneLine text :=
  declareParams_of_named oneLine_keptBySpelling hnames (fun p hp => (htypes p hp).named) h

/-! ## Models -/

/-- No text of the model that code is made of holds a line break. -/
structure Model.OneLine (m : Model) : Prop where
  headers : ∀ h ∈ m.headers, Text.OneLine h.text
  classes : ∀ c ∈ m.classes, Text.OneLine c.name ∧ Text.OneLine c.ref.native.text
  members : ∀ c ∈ m.classes, ∀ x ∈ c.methods, Text.OneLine x.uniqueName ∧ Text.OneLine x.native.text
  records : ∀ r ∈ m.records, Text.OneLine r.ref.name ∧ Text.OneLine r.ref.native.text
  fields : ∀ r ∈ m.records, ∀ f ∈ r.fields, Text.OneLine f.name.text ∧ Text.OneLine f.native.text
  enums : ∀ e ∈ m.enums, Text.OneLine e.ref.name ∧ Text.OneLine e.ref.native.text
  enumerators : ∀ e ∈ m.enums, ∀ x ∈ e.enumerators, Text.OneLine x.1.text ∧ Text.OneLine x.2.text
  keyTypes : ∀ k ∈ m.keyTypes, Text.OneLine k.1
  opaqueTypes : ∀ n ∈ m.opaqueTypes, Text.OneLine n
  alternatives : ∀ g ∈ m.mixed.getters, Text.OneLine g.dataType.text ∧ Text.OneLine g.getter

theorem oneLine_of_isName {n : String} (h : isName n) : Text.OneLine n := by
  obtain ⟨c, cs, hlist, hc, hcs, -⟩ := isName_iff.mp h
  rw [Text.OneLine, hlist, List.mem_cons, not_or]
  refine ⟨fun heq => ?_, fun hmem => ?_⟩
  · rw [← heq] at hc
    exact absurd hc (by decide)
  · exact absurd (hcs _ hmem) (by decide)

theorem oneLine_of_isScopedName {n : String} (h : IsScopedName n) : Text.OneLine n := by
  obtain ⟨names, -, hnames, rfl⟩ := h
  exact Text.oneLine_intercalate (by decide) fun n hn => oneLine_of_isName (hnames n hn)

namespace Model.BoundFrom

variable {s : Spec} {m : Model} {declared : List Class}

/-- The type of a declared name is on one line if the name is one that a text spells. -/
theorem oneLine_declared (h : BoundFrom s declared m) (hm : m.OneLine) {d : Declaration}
    (hd : d ∈ s.declarations) {n : String} (hkey : d.key = .str n) (hn : IsScopedName n) :
    d.type.OneLine := by
  have hmem {α : Type} {l : List α} {p : α → Bool} {x : α} (hx : l.filter p = [x]) : x ∈ l :=
    (List.mem_filter.mp (hx ▸ List.mem_singleton_self x)).1
  -- the class in the model is the declared one, so its names are on one line
  have hclass {e : Value × Spec.ClassDecl × Bool} (he : e ∈ s.allClasses) :
      (Ty.object (e.2.1.ref e.1.text)).OneLine := by
    obtain ⟨-, c, hc, href⟩ := h.bound_class he
    rw [← href]
    exact .object (hm.classes c (hmem hc)).1 (hm.classes c (hmem hc)).2
  simp only [Spec.declarations, List.mem_append, List.mem_map, List.mem_flatMap] at hd
  rcases hd with ((((⟨v, -, rfl⟩ | ⟨e, he, hd⟩) | ⟨e, he, rfl⟩) | ⟨e, he, rfl⟩) | ⟨e, he, rfl⟩) |
    ⟨v, hv, rfl⟩
  · have hv : v = .str n := hkey
    subst hv
    exact .primitive (oneLine_of_isScopedName hn)
  · rw [classDeclarations] at hd
    split at hd
    · simp only [List.mem_cons, List.not_mem_nil, or_false] at hd
      rcases hd with rfl | rfl
      · exact hclass he
      -- a handle is spelled with its class as the argument
      · refine .template (by decide) fun a ha => ?_
        rw [List.mem_singleton.mp ha]
        exact hclass he
    · rw [List.mem_singleton.mp hd]
      exact hclass he
  · obtain ⟨-, x, hx, href⟩ := h.bound_enum he
    exact .enumeration (href ▸ (hm.enums x (hmem hx)).1) (href ▸ (hm.enums x (hmem hx)).2)
  · obtain ⟨-, x, hx, href⟩ := h.bound_record he
    exact .record (href ▸ (hm.records x (hmem hx)).1) (href ▸ (hm.records x (hmem hx)).2)
  · obtain ⟨-, t, hx, -⟩ := h.bound_keyType he
    exact .keyType (hm.keyTypes _ (hmem hx))
  · obtain ⟨-, hx⟩ := h.bound_opaqueType hv
    exact .opaqueType (hm.opaqueTypes _ (hmem hx))

/-- The names in an expression are those that a text spells, and native names are on one line by `hm`. By
induction over `Denotes`. -/
theorem oneLine_of_denotes (h : BoundFrom s declared m) (hm : m.OneLine)
    (haliases : ∀ a ∈ s.aliases, a.2.WellFormed) {e : TypeExpr} {t : Ty} (hd : s.Denotes e t)
    (he : e.WellFormed) : t.OneLine := by
  induction hd with
  | declared hd hkey =>
    cases he with
    | named hn => exact h.oneLine_declared hm hd hkey hn
  | aliased ha _ ih => exact ih (haliases _ ha)
  | template hlen _ ih =>
    cases he with
    | template hn _ hargs =>
      -- the arguments are related one by one, so a member of the one list has a partner in the other
      have hall := List.forall₂_iff_zip.mpr
        ⟨hlen, fun {a t} hat => ih hat (hargs a (List.of_mem_zip hat).1)⟩
      refine .template (oneLine_of_isScopedName hn) fun t ht => ?_
      obtain ⟨a, -, hline⟩ := hall.exists_of_mem_right ht
      exact hline
  | func hlen hsame _ _ ihp ihr =>
    cases he with
    | func hnames hp hr =>
      have hall := List.forall₂_iff_zip.mpr ⟨hlen, fun {p q} hpq =>
        And.intro (hsame hpq) (ihp hpq (hp p (List.of_mem_zip hpq).1))⟩
      refine .func (fun q hq => ?_) (fun q hq => ?_) (ihr hr)
      · obtain ⟨p, hpmem, hname, -⟩ := hall.exists_of_mem_right hq
        rw [hname]
        exact oneLine_of_isName (hnames p hpmem)
      · obtain ⟨p, -, -, hline⟩ := hall.exists_of_mem_right hq
        exact hline
  | modified _ ih =>
    cases he with
    | modified _ he => exact .modified (ih he)

theorem oneLine_of_resolve (h : BoundFrom s declared m) (hm : m.OneLine)
    (haliases : ∀ a ∈ s.aliases, a.2.WellFormed) {e : TypeExpr} (he : e.WellFormed) {t : Ty}
    (ht : m.registry.resolve e = .ok t) : t.OneLine :=
  h.oneLine_of_denotes hm haliases (h.registered.resolve_iff.mp ht).2 he

end Model.BoundFrom

/-- The types that a conversion can come to from a field: those of fields, and behind them those of key
types and alternatives of `Mixed`. -/
structure Model.OneLineTypes (m : Model) : Prop where
  fields : ∀ r ∈ m.records, ∀ f ∈ r.fields, f.type.OneLine
  keyTypes : ∀ k ∈ m.keyTypes, k.2.OneLine
  getters : ∀ g ∈ m.mixed.getters, g.type.OneLine
  ctors : ∀ t ∈ m.mixed.ctors, t.OneLine

/-- All types that a conversion can come to from a field are resolved from expressions of the document. -/
theorem Model.BoundFrom.oneLineTypes {s : Spec} {m : Model} {declared : List Class}
    (h : BoundFrom s declared m) (hm : m.OneLine) {doc : Document.Entries}
    (hdoc : Spec.ofDocument doc = .ok s) : m.OneLineTypes := by
  obtain ⟨haliases, hexpressions⟩ := Spec.wellFormed_of_ofDocument hdoc
  obtain ⟨hfields, hkeys, -, hmixed, hextra⟩ := Spec.forall_mem_expressions.mp hexpressions
  obtain ⟨hgetters, -, extra, hextras, hctors⟩ := bindMixed_eq_ok.mp h.mixed
  have hgetter : ∀ g ∈ m.mixed.getters, g.type.OneLine := by
    intro g hg
    obtain ⟨e, he, -, -, ht⟩ := hgetters.exists_of_mem_right hg
    exact h.oneLine_of_resolve hm haliases (hmixed e he) ht
  refine ⟨fun r hr f hf => ?_, fun k hk => ?_, hgetter, fun t ht => ?_⟩
  · obtain ⟨e, he, hbind⟩ := Except.exists_of_mem_mapM h.records hr
    obtain ⟨d, hd, hfield⟩ := Except.exists_of_mem_mapM (bindRecord_eq_ok.mp hbind).2 hf
    obtain ⟨t, ht, rfl⟩ := bindField_eq_ok.mp hfield
    exact h.oneLine_of_resolve hm haliases (hfields e he d hd) ht
  · obtain ⟨e, he, hbind⟩ := Except.exists_of_mem_mapM h.keyTypes hk
    exact h.oneLine_of_resolve hm haliases (hkeys e he) (bindKeyType_eq_ok.mp hbind).2
  · rw [hctors, List.mem_append, List.mem_map] at ht
    rcases ht with ht | ⟨g, hg, rfl⟩
    · obtain ⟨e, he, hresolve⟩ := hextras.exists_of_mem_right ht
      exact h.oneLine_of_resolve hm haliases (hextra e he) hresolve
    · exact hgetter g hg

end LuaGlue
