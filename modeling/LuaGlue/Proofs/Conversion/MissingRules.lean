import LuaGlue.Conversion.Tags
import LuaGlue.Proofs.Conversion.Induction
import LuaGlue.Proofs.Except
import LuaGlue.Proofs.Model.Resolution
import Mathlib.Data.List.Induction

/-!
# Rules that are missing

With a vocabulary of tags a conversion fails for one reason only: a primitive or template without a rule.

- **Tags one by one** (`Tags.add`): giving names their tags in any order gives the rules of a table of primitive
  tags and one of template tags (`Tags.exists_ofTables`).
- **Nodes** (`Ty.Reaches`, `Ty.preorder`): the types that a conversion comes to, as a relation and as a list in
  the order in which it comes to them.
- **Outcomes** (`Rules.Answers`): what a walk over nodes ends with. Outcomes of walks one after the other are
  joined by `Answers.bind`, and every conversion is such a walk (`Tags.walked_convert`).
- **Qualifying** (`Ty.Qualifies`): constness or a reference around any part of a type changes nothing
  (`Tags.convert_of_qualifies`).
-/

namespace LuaGlue

/-! ## The nodes of a type -/

namespace Ty

/-- The conversion of the first type comes to the second: it goes through constness, references, pointers and
the arguments of templates, and stops at functions and key types. -/
inductive Reaches : Ty → Ty → Prop
  | self {t} : Reaches t t
  | modified {m t u} : Reaches t u → Reaches (.modified m t) u
  | argument {name args a u} : a ∈ args → Reaches a u → Reaches (.template name args) u

mutual

/-- The types that a conversion comes to: each before those inside it, arguments from left to right. -/
def preorder : Ty → List Ty
  | .modified m t => .modified m t :: preorder t
  | .template name args => .template name args :: preorderArgs args
  | .primitive name => [.primitive name]
  | .func sig => [.func sig]
  | .object c => [.object c]
  | .record r => [.record r]
  | .enumeration e => [.enumeration e]
  | .opaqueType name => [.opaqueType name]
  | .keyType name => [.keyType name]

/-- The types that the conversions of arguments come to. -/
def preorderArgs : List Ty → List Ty
  | [] => []
  | t :: ts => preorder t ++ preorderArgs ts

end

theorem mem_preorderArgs_iff {u : Ty} {args : List Ty} :
    u ∈ preorderArgs args ↔ ∃ a ∈ args, u ∈ a.preorder := by
  induction args with
  | nil => simp [preorderArgs]
  | cons a args ih => simp [preorderArgs, ih]

theorem self_mem_preorder (t : Ty) : t ∈ t.preorder := by
  cases t <;> simp [preorder]

theorem reaches_of_mem_preorder {t u : Ty} (h : u ∈ t.preorder) : t.Reaches u := by
  induction t using Ty.inductOn with
  | modified m t ih =>
    rcases List.mem_cons.mp h with rfl | h
    · exact .self
    · exact .modified (ih h)
  | template name args ih =>
    rcases List.mem_cons.mp h with rfl | h
    · exact .self
    · obtain ⟨a, ha, hu⟩ := mem_preorderArgs_iff.mp h
      exact .argument ha (ih a ha hu)
  | primitive | func | object | record | enumeration | opaqueType | keyType =>
    rw [List.mem_singleton.mp h]
    exact .self

/-- The list and the relation hold the same nodes, so a claim about `Reaches` can be proved along the walk. -/
theorem mem_preorder_iff {t u : Ty} : u ∈ t.preorder ↔ t.Reaches u := by
  refine ⟨reaches_of_mem_preorder, fun h => ?_⟩
  induction h with
  | self => exact self_mem_preorder _
  | modified _ ih => exact List.mem_cons_of_mem _ ih
  | argument ha _ ih => exact List.mem_cons_of_mem _ (mem_preorderArgs_iff.mpr ⟨_, ha, ih⟩)

/-- The error that names a primitive or template without a rule. -/
inductive Lacks : Ty → ConversionError → Prop
  | primitive (name) : Lacks (.primitive name) (.unexpectedPrimitive name)
  | template (name args) : Lacks (.template name args) (.unknownTemplate name)

theorem Lacks.unique {u : Ty} {err err' : ConversionError} (h : u.Lacks err) (h' : u.Lacks err') : err = err' := by
  cases h <;> cases h' <;> rfl

/-- The second type is the first with constness or a reference around one part of it, be it in the signature of
a function. -/
inductive Qualifies : Ty → Ty → Prop
  | here {m t} : m ≠ .pointer → Qualifies t (.modified m t)
  | modified {m t t'} : Qualifies t t' → Qualifies (.modified m t) (.modified m t')
  | argument {name before t t' after} : Qualifies t t' →
      Qualifies (.template name (before ++ t :: after)) (.template name (before ++ t' :: after))
  | param {before p t t' after ret quals} : Qualifies t t' →
      Qualifies (.func ⟨before ++ (p, t) :: after, ret, quals⟩) (.func ⟨before ++ (p, t') :: after, ret, quals⟩)
  | ret {params t t' quals} : Qualifies t t' → Qualifies (.func ⟨params, t, quals⟩) (.func ⟨params, t', quals⟩)

end Ty

/-! ## Outcomes -/

namespace Rules

variable {r : Rules} {nodes later : List Ty} {u : Ty} {x : Except Error String}

/-- The outcome of a walk over nodes: it gives a text if all of them have rules, and otherwise ends at the first
one that has none, with the error that names it. -/
inductive Answers (r : Rules) (nodes : List Ty) : Except Error String → Prop
  | text (v : String) : (∀ u ∈ nodes, r.hasRule u) → Answers r nodes (.ok v)
  | missing {u err} : nodes.find? (!r.hasRule ·) = some u → u.Lacks err →
      Answers r nodes (.error (.conversion err))

namespace Answers

/-- Walks in sequence: the second is made only if the first gives a text, and then none of the first nodes lacks
a rule. -/
theorem bind {f : String → Except Error String} (h : r.Answers nodes x) (hf : ∀ v, r.Answers later (f v)) :
    r.Answers (nodes ++ later) (x >>= f) := by
  cases h with
  | missing hfind hlacks => exact .missing (by rw [List.find?_append, hfind, Option.some_or]) hlacks
  | text v hall =>
    rw [Except.ok_bind]
    have hthen := hf v
    generalize f v = y at hthen ⊢
    cases hthen with
    | text v' hlater => exact .text v' (List.forall_mem_append.mpr ⟨hall, hlater⟩)
    | missing hfind hlacks =>
      have hnone : nodes.find? (!r.hasRule ·) = none := by simpa using hall
      exact .missing (by rw [List.find?_append, hnone, Option.none_or, hfind]) hlacks

/-- A node with a rule in front of a walk does not change its outcome. -/
theorem cons (hu : r.hasRule u) (h : r.Answers nodes x) : r.Answers (u :: nodes) x := by
  cases h with
  | text v hall => exact .text v (List.forall_mem_cons.mpr ⟨hu, hall⟩)
  | missing hfind hlacks => exact .missing (by simpa [hu] using hfind) hlacks

theorem single (hu : r.hasRule u) (v : String) : r.Answers [u] (.ok v) := .text v (by simpa using hu)

theorem map {g : String → String} (h : r.Answers nodes x) :
    r.Answers nodes (x >>= fun v => pure (g v)) := by
  rw [← List.append_nil nodes]
  exact h.bind fun v => .text (g v) (by simp)

/-- A walk gives a text exactly if all its nodes have rules. -/
theorem ok_iff (h : r.Answers nodes x) : (∃ v, x = .ok v) ↔ ∀ u ∈ nodes, r.hasRule u := by
  cases h with
  | text v hall => exact iff_of_true ⟨v, rfl⟩ hall
  | missing hfind =>
    refine iff_of_false (by simp) fun hall => ?_
    have hnone : nodes.find? (!r.hasRule ·) = none := by simpa using hall
    rw [hnone] at hfind
    cases hfind

/-- Otherwise the walk ends with the error of the first node without a rule. -/
theorem of_missing (h : r.Answers nodes x) (hmissing : ¬∀ u ∈ nodes, r.hasRule u) :
    ∃ u err, nodes.find? (!r.hasRule ·) = some u ∧ u.Lacks err ∧ x = .error (.conversion err) := by
  cases h with
  | text v hall => exact absurd hall hmissing
  | missing hfind hlacks => exact ⟨_, _, hfind, hlacks, rfl⟩

/-- Arguments that are converted in turn are walked over in turn, by induction over the list with `bind`. -/
theorem foldlM {go : Conversion → String → Except Error String} {args : List (Ty × Conversion)}
    (h : ∀ a ∈ args, ∀ e, r.Answers a.1.preorder (go a.2 e)) (e : String) :
    r.Answers (Ty.preorderArgs (args.map (·.1))) (args.foldlM (fun inner a => go a.2 inner) e) := by
  induction args generalizing e with
  | nil => exact .text e (by simp [Ty.preorderArgs])
  | cons a args ih =>
    obtain ⟨ha, hargs⟩ := List.forall_mem_cons.mp h
    rw [List.foldlM_cons, List.map_cons, Ty.preorderArgs]
    exact (ha e).bind (ih hargs)

end Answers

end Rules

/-! ## Tags -/

/-- A primitive or template is given a tag. -/
inductive Tagging where
  | primitive (name tag : String)
  | template (name tag : String)

namespace Tags

/-- The tags with one more. -/
def add (t : Tags) : Tagging → Tags
  | .primitive name tag => { t with primitives := t.primitives ++ [(name, tag)] }
  | .template name tag => { t with templates := t.templates ++ [(name, tag)] }

/-- The rules with a rule for one more tag. -/
def register (r : Rules) : Tagging → Rules
  | .primitive name tag => r.setPrimitive name (wrap tag)
  | .template name tag => r.setTemplate name (wrapArgs tag)

/-- Rules for primitives and templates are kept apart, so the order of setting them does not matter. -/
theorem setPrimitive_foldl (templates : List (String × String)) (r : Rules) (name : String) (rule : Conversion) :
    templates.foldl (fun r e => r.setTemplate e.1 (wrapArgs e.2)) (r.setPrimitive name rule) =
      (templates.foldl (fun r e => r.setTemplate e.1 (wrapArgs e.2)) r).setPrimitive name rule := by
  induction templates generalizing r with
  | nil => rfl
  | cons e templates ih => exact ih (r.setTemplate e.1 (wrapArgs e.2))

/-- One more tag is one more rule, whatever was tagged before: `Tags.rules` sets all primitives first, which
`setPrimitive_foldl` undoes. -/
theorem rules_add (t : Tags) (s : Tagging) : (t.add s).rules = register t.rules s := by
  cases s with
  | primitive name tag =>
    simp only [add, register, rules, List.foldl_append, List.foldl_cons, List.foldl_nil]
    exact setPrimitive_foldl ..
  | template name tag => simp only [add, register, rules, List.foldl_append, List.foldl_cons, List.foldl_nil]

/-- The rules with the tags of two tables. -/
def ofTables (key : String) (primitive template : String → Option String) : Rules :=
  { baseRules key with
    primitive := fun name => (primitive name).map wrap
    template := fun name => (template name).map wrapArgs }

variable {key : String} {primitive template : String → Option String}

theorem register_primitive (name tag : String) :
    register (ofTables key primitive template) (.primitive name tag) =
      ofTables key (fun n => if n == name then some tag else primitive n) template := by
  simp only [register, Rules.setPrimitive, ofTables, Rules.mk.injEq, and_true]
  funext n
  split <;> rfl

theorem register_template (name tag : String) :
    register (ofTables key primitive template) (.template name tag) =
      ofTables key primitive (fun n => if n == name then some tag else template n) := by
  simp only [register, Rules.setTemplate, ofTables, Rules.mk.injEq, true_and, and_true]
  funext n
  split <;> rfl

/-- The rules after any number of taggings are those of two tables, which have tags for the names that were
given one. By induction over the taggings. -/
theorem exists_ofTables (key : String) (steps : List Tagging) :
    ∃ primitive template, (steps.foldl add { key }).rules = ofTables key primitive template ∧
      (∀ n, (primitive n).isSome ↔ ∃ tag, .primitive n tag ∈ steps) ∧
      ∀ n, (template n).isSome ↔ ∃ tag, .template n tag ∈ steps := by
  induction steps using List.reverseRecOn with
  | nil => exact ⟨fun _ => none, fun _ => none, rfl, by simp, by simp⟩
  | append_singleton steps s ih =>
    obtain ⟨primitive, template, hrules, hprimitive, htemplate⟩ := ih
    rw [List.foldl_append, List.foldl_cons, List.foldl_nil, rules_add, hrules]
    cases s with
    | primitive name tag =>
      refine ⟨_, _, register_primitive name tag, fun n => ?_, fun n => by simp [htemplate]⟩
      by_cases hn : n = name <;> simp [hn, hprimitive]
    | template name tag =>
      refine ⟨_, _, register_template name tag, fun n => by simp [hprimitive], fun n => ?_⟩
      by_cases hn : n = name <;> simp [hn, htemplate]

/-! ## Conversions -/

/-- The outcomes of both ways are those of a walk over the nodes of a type. -/
structure Walked (r : Rules) (t : Ty) (c : Conversion) : Prop where
  toHost (e) : r.Answers t.preorder (c.toHost e)
  fromHost (e) : r.Answers t.preorder (c.fromHost e)

namespace Walked

variable {r : Rules} {t : Ty}

theorem wrap (ht : t.preorder = [t]) (hr : r.hasRule t) (tag : String) : Walked r t (wrap tag) where
  toHost _ := ht ▸ .single hr _
  fromHost _ := ht ▸ .single hr _

/-- The conversion of a tagged template walks over the template and then over its arguments. -/
theorem wrapArgs {name : String} {args : List (Ty × Conversion)} (hr : r.hasRule (.template name (args.map (·.1))))
    (h : ∀ a ∈ args, Walked r a.1 a.2) (tag : String) :
    Walked r (.template name (args.map (·.1))) (wrapArgs tag args) where
  toHost e := ((Rules.Answers.foldlM (fun a ha => (h a ha).toHost) e).map).cons hr
  fromHost e := ((Rules.Answers.foldlM (fun a ha => (h a ha).fromHost) e).map).cons hr

/-- A type without a rule ends the walk at its first node. -/
theorem fail {err : ConversionError} (hr : ¬r.hasRule t) (ht : t.preorder.head? = some t) (h : t.Lacks err) :
    Walked r t (.fail (.conversion err)) := by
  have hfind : t.preorder.find? (!r.hasRule ·) = some t := by
    obtain ⟨later, hlater⟩ := List.head?_eq_some_iff.mp ht
    rw [hlater, List.find?_cons_of_pos]
    simpa using hr
  exact ⟨fun _ => .missing hfind h, fun _ => .missing hfind h⟩

end Walked

theorem walked_primitive (name : String) :
    Walked (ofTables key primitive template) (.primitive name)
      ((ofTables key primitive template).convert (.primitive name)) := by
  rw [Rules.convert]
  cases h : primitive name with
  | some tag =>
    have hrule : (ofTables key primitive template).primitive name = some (wrap tag) := by simp [ofTables, h]
    rw [hrule]
    exact .wrap rfl (by simp [Rules.hasRule, hrule]) tag
  | none =>
    have hrule : (ofTables key primitive template).primitive name = none := by simp [ofTables, h]
    rw [hrule]
    exact .fail (by simp [Rules.hasRule, hrule]) rfl (.primitive name)

/-- With a rule, the arguments are walked over; without one, the walk ends at the template itself. -/
theorem walked_template (name : String) {args : List Ty}
    (hargs : ∀ a ∈ args, Walked (ofTables key primitive template) a ((ofTables key primitive template).convert a)) :
    Walked (ofTables key primitive template) (.template name args)
      ((ofTables key primitive template).convert (.template name args)) := by
  rw [Rules.convert]
  cases h : template name with
  | some tag =>
    have hrule : (ofTables key primitive template).template name = some (wrapArgs tag) := by simp [ofTables, h]
    have hwalked : Walked _ (.template name (Rules.convertArgs _ args |>.map (·.1))) _ :=
      .wrapArgs (by simp [Rules.hasRule, hrule]) (Rules.convertArgs_eq_map _ args ▸ List.forall_mem_map.mpr hargs) tag
    rw [hrule]
    rwa [Rules.types_convertArgs] at hwalked
  | none =>
    have hrule : (ofTables key primitive template).template name = none := by simp [ofTables, h]
    rw [hrule]
    exact .fail (by simp [Rules.hasRule, hrule]) rfl (.template name args)

/-- Every conversion is a walk over the nodes of its type. By induction over the type: functions, key types and
entities are single nodes with rules. -/
theorem walked_convert (t : Ty) :
    Walked (ofTables key primitive template) t ((ofTables key primitive template).convert t) := by
  induction t using Ty.inductOn with
  | modified m t ih =>
    cases m with
    | const | ref | rref => exact ⟨fun e => (ih.toHost e).cons rfl, fun e => (ih.fromHost e).cons rfl⟩
    | pointer => exact ⟨fun e => (ih.toHost ("*" ++ e)).cons rfl, fun e => (ih.fromHost e).map.cons rfl⟩
  | primitive name => exact walked_primitive name
  | template name args ih => exact walked_template name ih
  | func => exact .wrap rfl rfl "func"
  | object => exact .wrap rfl rfl "class"
  | record => exact .wrap rfl rfl "struct"
  | enumeration => exact .wrap rfl rfl "enum"
  | opaqueType => exact .wrap rfl rfl "opaque"
  | keyType => exact .wrap rfl rfl _

/-! ## Qualifying -/

theorem convert_modified {m : Modifier} (hm : m ≠ .pointer) (t : Ty) :
    (ofTables key primitive template).convert (.modified m t) = (ofTables key primitive template).convert t := by
  cases m with
  | pointer => exact absurd rfl hm
  | const | ref | rref => rfl

/-- The rule of a tag looks at the conversions of arguments alone. -/
theorem wrapArgs_congr {args args' : List (Ty × Conversion)} (h : args.map (·.2) = args'.map (·.2)) (tag : String) :
    wrapArgs tag args = wrapArgs tag args' := by
  have hfold (go : Conversion → String → Except Error String) (e : String) :
      args.foldlM (fun inner a => go a.2 inner) e = args'.foldlM (fun inner a => go a.2 inner) e := by
    have hmap := congrArg (fun l => List.foldlM (fun inner c => go c inner) e l) h
    simpa only [List.foldlM_map] using hmap
  simp only [wrapArgs, hfold Conversion.toHost, hfold Conversion.fromHost]

/-- Constness or a reference around a part of a type changes nothing, by induction over `Ty.Qualifies`. -/
theorem convert_of_qualifies {t t' : Ty} (h : t.Qualifies t') :
    (ofTables key primitive template).convert t' = (ofTables key primitive template).convert t := by
  induction h with
  | here hm => exact convert_modified hm _
  | @modified m t t' _ ih =>
    cases m with
    | const | ref | rref => exact ih
    | pointer => rw [Rules.convert, Rules.convert, ih]
  | @argument name before t t' after _ ih =>
    rw [Rules.convert, Rules.convert]
    cases h : template name with
    | none => simp [ofTables, h]
    | some tag =>
      have hrule : (ofTables key primitive template).template name = some (wrapArgs tag) := by simp [ofTables, h]
      rw [hrule]
      exact wrapArgs_congr (by simp [Rules.convertArgs_eq_map, ih]) tag
  | param _ _ | ret _ _ => rfl

/-- **Missing rules.** Whatever the tag of key types is, and after any taggings, both ways of converting a type
succeed exactly if all primitives and templates that the conversion comes to have rules. Otherwise both fail with
the error that names the first one without a rule. Constness or a reference around any part of the type changes
neither result. -/
theorem convert_exact (key : String) (steps : List Tagging) (t : Ty) (e : String) :
    let r := (steps.foldl add { key }).rules
    (∀ n, r.hasRule (.primitive n) ↔ ∃ tag, .primitive n tag ∈ steps) ∧
    (∀ n args, r.hasRule (.template n args) ↔ ∃ tag, .template n tag ∈ steps) ∧
    ((∃ v, (r.convert t).toHost e = .ok v) ↔ ∀ u, t.Reaches u → r.hasRule u) ∧
    ((∃ v, (r.convert t).fromHost e = .ok v) ↔ ∀ u, t.Reaches u → r.hasRule u) ∧
    ((¬∀ u, t.Reaches u → r.hasRule u) →
      ∃ u err, t.preorder.find? (!r.hasRule ·) = some u ∧ u.Lacks err ∧
        (r.convert t).toHost e = .error (.conversion err) ∧
        (r.convert t).fromHost e = .error (.conversion err)) ∧
    ∀ t', t.Qualifies t' →
      (r.convert t').toHost e = (r.convert t).toHost e ∧
      (r.convert t').fromHost e = (r.convert t).fromHost e := by
  intro r
  obtain ⟨primitive, template, hrules, hprimitive, htemplate⟩ := exists_ofTables key steps
  have hr : r = ofTables key primitive template := hrules
  have hwalked : Walked r t (r.convert t) := hr ▸ walked_convert t
  simp only [← Ty.mem_preorder_iff]
  refine ⟨fun n => ?_, fun n args => ?_, (hwalked.toHost e).ok_iff, (hwalked.fromHost e).ok_iff, fun hmissing => ?_,
    fun t' ht' => ?_⟩
  · rw [← hprimitive, hr]
    simp [Rules.hasRule, ofTables]
  · rw [← htemplate, hr]
    simp [Rules.hasRule, ofTables]
  · obtain ⟨u, err, hfind, hlacks, hto⟩ := (hwalked.toHost e).of_missing hmissing
    obtain ⟨u', err', hfind', hlacks', hfrom⟩ := (hwalked.fromHost e).of_missing hmissing
    -- both ways end at the same node
    obtain rfl : u = u' := Option.some.inj (hfind.symm.trans hfind')
    obtain rfl := hlacks.unique hlacks'
    exact ⟨u, err, hfind, hlacks, hto, hfrom⟩
  · rw [hr, convert_of_qualifies ht']
    exact ⟨rfl, rfl⟩

/-- A pointer to integers and a truth value, where only the integers have a tag. -/
theorem convert_exact_pair :
    let r := (List.foldl add {} [.template "std::pair" "Pair", .primitive "int" "Int"]).rules
    let t : Ty := .template "std::pair" [.modified .pointer (.primitive "int"), .primitive "bool"]
    (¬∀ u, t.Reaches u → r.hasRule u) ∧
    (r.convert t).toHost "v" = .error (.conversion (.unexpectedPrimitive "bool")) ∧
    (r.convert t).fromHost "v" = .error (.conversion (.unexpectedPrimitive "bool")) ∧
    let t' : Ty :=
      .template "std::pair" [.modified .pointer (.modified .const (.primitive "int")), .primitive "bool"]
    (r.convert t').toHost "v" = (r.convert t).toHost "v" := by
  intro r t
  have hmissing : ¬∀ u, t.Reaches u → r.hasRule u :=
    fun h => absurd (h (.primitive "bool") (.argument (by simp) .self)) (by decide)
  obtain ⟨-, -, -, -, hfail, hqualifies⟩ :=
    convert_exact "key" [.template "std::pair" "Pair", .primitive "int" "Int"] t "v"
  obtain ⟨u, err, hfind, hlacks, hto, hfrom⟩ := hfail hmissing
  obtain rfl : .primitive "bool" = u := Option.some.inj hfind
  cases hlacks
  refine ⟨hmissing, hto, hfrom, (hqualifies _ ?_).1⟩
  exact @Ty.Qualifies.argument "std::pair" [] _ _ _ (.modified (.here (by decide)))

end Tags

end LuaGlue
