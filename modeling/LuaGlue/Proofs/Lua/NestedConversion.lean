import LuaGlue.Lua.Rules
import LuaGlue.Proofs.Conversion.Induction
import LuaGlue.Proofs.Cpp.Spelling
import LuaGlue.Proofs.Model.Closure
import LuaGlue.Proofs.Text.Nesting

/-!
# Conversions of nested expressions

What is written for a nested expression is nested, if the names that it is made of are.

- **Spellings** (`nested_keptBySpelling`): the C++ spelling of a type with nested names is nested.
- **Rules** (`Lua.keeps_nested`): each rule writes fixed texts around nested ones.
- **Models** (`Lua.Converter.Nested.convert`): in a model with nested texts the same goes for every type,
  through key types and alternatives of `Mixed`.
-/

namespace LuaGlue

open Text (Leads Nested)

/-! ## C++ spellings -/

theorem nested_primitiveCpp {n : String} (h : Nested n) : Nested (primitiveCpp n) := by
  unfold primitiveCpp
  split
  case h_7 => exact h
  all_goals exact .literal (by decide)

/-- Spelling puts brackets around lists and writes names beside each other, and both keep texts nested.
`KeptBySpelling` carries this to every type. -/
theorem nested_keptBySpelling : KeptBySpelling Nested where
  primitive := nested_primitiveCpp
  template h := by
    unfold templateCpp
    split
    · exact .literal (by decide)
    · exact h
  modified m ht := by
    refine ht.append ?_
    cases m <;> exact .literal (by decide)
  list := .intercalate (.literal (by decide))
  arguments hn hargs := Leads.of_nested hn |>.text.insert hargs |>.text.nested (by decide)
  wrapper hn hret hparams :=
    Leads.of_nested hn |>.text.insert hret |>.text.insert hparams |>.text.nested (by decide)
  param ht hn := Leads.of_nested ht |>.text.insert hn |>.nested (by decide)

/-! ## Conversions -/

/-- Nested expressions are converted to nested ones. -/
structure Conversion.Nested (c : Conversion) : Prop where
  toHost {e v} : Text.Nested e → c.toHost e = .ok v → Text.Nested v
  fromHost {e v} : Text.Nested e → c.fromHost e = .ok v → Text.Nested v

theorem Conversion.nested_fail (err : Error) : (Conversion.fail err).Nested :=
  ⟨fun _ h => (by cases h), fun _ h => (by cases h)⟩

/-- A conversion that never fails and writes nested texts, as those of most primitives and entities do. -/
theorem Conversion.Nested.of_ok {f g : String → String} (hf : ∀ {e}, Text.Nested e → Text.Nested (f e))
    (hg : ∀ {e}, Text.Nested e → Text.Nested (g e)) :
    Conversion.Nested ⟨fun e => .ok (f e), fun e => .ok (g e)⟩ := by
  constructor
  · intro e v he hv
    cases hv
    exact hf he
  · intro e v he hv
    cases hv
    exact hg he

namespace Lua

variable {s : Scope} {inner : Conversion} {args : List (Ty × Conversion)} {t : Ty} {module e v : String}

/-- The names and conversions that the rules go by are nested. -/
structure Scope.Nested (s : Scope) : Prop where
  module : Text.Nested s.module
  keyType {n t} : s.keyType? n = some t → (s.convert t).Nested
  getter {info g} : s.mixed = some info → g ∈ info.getters →
    Text.Nested g.dataType.text ∧ Text.Nested g.getter ∧ (s.convert g.type).Nested
  ctor {info t} : s.mixed = some info → t ∈ info.ctors → t.Named Text.Nested ∧ (s.convert t).Nested

/-- A lambda has its body in braces and is applied to the expression in round brackets. -/
theorem nested_applied {head body : String} (hhead : Nested head) (hbody : Nested body) (he : Nested e) :
    Nested (applied head body e) :=
  Leads.literal.insert hhead |>.text.insert hbody |>.text.insert he |>.text.nested (by decide)

theorem nested_metatable {name : String} (hmodule : Nested module) (hname : Nested name) :
    Nested (metatable module name) :=
  Leads.of_nested hmodule |>.text.insert hname |>.nested (by decide)

/-! ### Primitives -/

/-- Each alternative writes its own case around the conversion of its getter, which is nested by `Scope.Nested`.
-/
theorem nested_pushMixed (hs : s.Nested) {info : MixedInfo} (hinfo : s.mixed = some info) (he : Nested e)
    (h : pushMixed s info e = .ok v) : Nested v := by
  obtain ⟨cases', hcases, h⟩ := Except.bind_eq_ok.mp h
  cases h
  have hall : Nested (String.join cases') := by
    refine .join fun text htext => ?_
    obtain ⟨g, hg, htext⟩ := Except.exists_of_mem_mapM hcases htext
    obtain ⟨push, hpush, htext⟩ := Except.bind_eq_ok.mp htext
    cases htext
    obtain ⟨hdata, hgetter, hconvert⟩ := hs.getter hinfo hg
    have hvalue : Nested ("m." ++ g.getter ++ "()") := Leads.literal.insert hgetter |>.text.nested (by decide)
    have hpush := hconvert.toHost hvalue hpush
    exact Leads.literal.insert hdata |>.text.insert hpush |>.text.nested (by decide)
  refine nested_applied (.literal (by decide)) ?_ he
  exact Leads.literal.insert hall |>.text.text.nested (by decide)

/-- The class of an instance is one that the type names, behind references, pointers and handles. -/
theorem named_of_instanceOf (ht : t.Named Nested) {c : ClassRef} (h : instanceOf t = .ok (some c)) :
    Nested c.name := by
  have hbare := ht.bare
  unfold instanceOf at h
  split at h
  · rename_i name args heq
    rw [heq] at hbare
    split at h
    · split at h
      · cases h
      · cases h
        cases hbare with
        | template _ hargs =>
          have hobject := hargs (.object c) (by simp)
          cases hobject with
          | object hn _ => exact hn
      · cases h
    · cases h
  · rename_i c' heq
    rw [heq] at hbare
    cases h
    cases hbare with
    | object hn _ => exact hn
  · cases h

/-- The tests for classes and the cases of plain values are nested one by one, and so is the text that joins
them. -/
theorem nested_takeMixed (hs : s.Nested) {info : MixedInfo} (hinfo : s.mixed = some info) (he : Nested e)
    (h : takeMixed s info e = .ok v) : Nested v := by
  obtain ⟨instances, hinstances, h⟩ := Except.bind_eq_ok.mp h
  cases h
  have hall : Nested (String.join instances) := by
    refine .join fun text htext => ?_
    obtain ⟨t, ht, htext⟩ := Except.exists_of_mem_mapM hinstances htext
    obtain ⟨hnamed, hconvert⟩ := hs.ctor hinfo ht
    obtain ⟨c, hc, htext⟩ := Except.bind_eq_ok.mp htext
    split at htext
    · obtain ⟨value, hvalue, htext⟩ := Except.bind_eq_ok.mp htext
      cases htext
      have hmeta := nested_metatable hs.module (named_of_instanceOf hnamed hc)
      have hvalue := hconvert.fromHost (.literal (by decide)) hvalue
      exact Leads.literal.insert hmeta |>.text.insert hvalue |>.text.nested (by decide)
    · cases htext
      exact .literal (by decide)
  refine nested_applied (.literal (by decide)) ?_ he
  exact Leads.literal.text.text.text.text.text.text.insert hall |>.text.text.nested (by decide)

theorem nested_stringView (he : Nested e) : Nested (stringView e) :=
  Leads.literal.insert he |>.text.nested (by decide)

/-- The fixed texts of a primitive are scanned by `decide`. A text that opens a bracket is closed behind the
expression. -/
theorem nested_primitive (hs : s.Nested) {name : String} (hname : Nested name) (k : PrimitiveKind) :
    (k.conversion s name).Nested := by
  have hcpp := nested_primitiveCpp hname
  cases k with
  | void =>
    exact .of_ok (fun he => Leads.literal.insert he |>.text.nested (by decide))
      fun he => Leads.literal.insert he |>.text.nested (by decide)
  | bool =>
    exact .of_ok (fun he => Leads.literal.insert he |>.text.nested (by decide))
      fun he => Leads.literal.insert he |>.text.nested (by decide)
  | integer =>
    exact .of_ok (fun he => Leads.literal.insert he |>.text.nested (by decide))
      fun he => Leads.of_nested hcpp |>.text.insert he |>.text.nested (by decide)
  | number =>
    exact .of_ok (fun he => Leads.literal.insert he |>.text.nested (by decide))
      fun he => Leads.of_nested hcpp |>.text.insert he |>.text.nested (by decide)
  -- what is pushed is a function applied to the expression; what is read wraps a view of the text
  | text owned =>
    refine .of_ok (nested_applied (.literal (by decide)) (.literal (by decide))) fun he => ?_
    have htype : Nested (if owned then "std::string" else primitiveCpp name) := by
      split
      · exact .literal (by decide)
      · exact hcpp
    exact Leads.of_nested htype |>.text.insert (nested_stringView he) |>.text.nested (by decide)
  | binary owned =>
    refine .of_ok (fun {e} he => ?_) fun {e} he => ?_
    · refine nested_applied (.literal (by decide)) (.literal (by decide)) ?_
      split
      · exact Leads.literal.insert he |>.text.nested (by decide)
      · exact he
    · have htype : Nested (if owned then "OwnedBinaryData" else "BinaryData") := by
        split <;> exact .literal (by decide)
      -- the view is written twice, for its data and for its size
      have hview := nested_stringView he
      exact Leads.of_nested htype |>.text.insert hview |>.text.insert hview |>.text.nested (by decide)
  | mixed =>
    rw [PrimitiveKind.conversion]
    split
    · rename_i info hinfo
      exact ⟨nested_pushMixed hs hinfo, nested_takeMixed hs hinfo⟩
    · exact Conversion.nested_fail _
  | error =>
    constructor
    · intro e v he hv
      cases hv
      exact Leads.literal.insert he |>.text.nested (by decide)
    · intro e v _ hv
      cases hv

/-! ### Templates -/

/-- A rule for the first argument writes nested texts if it does for every nested conversion; without an
argument it writes none. -/
theorem nested_onFirst {rule : Ty → Conversion → Conversion}
    (hargs : ∀ a ∈ args, a.1.Named Nested ∧ a.2.Nested)
    (hrule : ∀ {t c}, t.Named Nested → c.Nested → (rule t c).Nested) : (onFirst args rule).Nested := by
  cases args with
  | nil => exact Conversion.nested_fail _
  | cons a rest =>
    obtain ⟨hnamed, hconvert⟩ := hargs a (by simp)
    exact hrule hnamed hconvert

/-- A handle of a class is written with the name of the class, any other around the conversion of what it points
to. -/
theorem nested_sharedPtrRule (hmodule : Nested module) (ht : t.Named Nested) (h : inner.Nested) :
    (sharedPtrRule module t inner).Nested := by
  have hpointee : Conversion.Nested {
      toHost := fun e => inner.toHost ("*(" ++ e ++ ")")
      fromHost := fun e =>
        return "std::make_shared<" ++ (← t.cppText) ++ ">(" ++ (← inner.fromHost e) ++ ")" } := by
    constructor
    · intro e v he hv
      exact h.toHost (Leads.literal.insert he |>.text.nested (by decide)) hv
    · intro e v he hv
      obtain ⟨cpp, hcpp, hv⟩ := Except.bind_eq_ok.mp hv
      obtain ⟨value, hvalue, hv⟩ := Except.bind_eq_ok.mp hv
      cases hv
      have hcpp := ht.cppText nested_keptBySpelling hcpp
      exact Leads.literal.insert hcpp |>.text.insert (h.fromHost he hvalue) |>.text.nested (by decide)
  unfold sharedPtrRule
  split
  · rename_i c
    cases ht with
    | object hname hnative =>
      split
      · have hmeta := nested_metatable hmodule hname
        exact .of_ok
          (fun he => Leads.literal.insert hnative |>.text.insert he |>.text.insert hmeta |>.text.nested (by decide))
          fun he => Leads.literal.insert hnative |>.text.insert he |>.text.insert hmeta |>.text.nested (by decide)
      · exact hpointee
  · exact hpointee

/-- Both directions apply a lambda with the conversion of the value inside, so `nested_applied` reduces them to
its body. -/
theorem nested_optionalRule (ht : t.Named Nested) (h : inner.Nested) : (optionalRule t inner).Nested := by
  constructor
  · intro e v he hv
    obtain ⟨push, hpush, hv⟩ := Except.bind_eq_ok.mp hv
    cases hv
    have hpush := h.toHost (.literal (by decide)) hpush
    refine nested_applied (.literal (by decide)) ?_ he
    exact Leads.literal.insert hpush |>.text.nested (by decide)
  · intro e v he hv
    obtain ⟨opt, hopt, hv⟩ := Except.bind_eq_ok.mp hv
    obtain ⟨value, hvalue, hv⟩ := Except.bind_eq_ok.mp hv
    cases hv
    have hopt := ht.cppText nested_keptBySpelling hopt
    have hvalue := h.fromHost (.literal (by decide)) hvalue
    refine nested_applied (.literal (by decide)) ?_ he
    exact Leads.literal.insert hopt |>.text.insert hopt |>.text.insert hvalue |>.text.nested (by decide)

/-- As in `nested_optionalRule`. The spelling of the type stands in the head of the lambda as well. -/
theorem nested_nullableRule (ht : t.Named Nested) (h : inner.Nested) : (nullableRule t inner).Nested := by
  constructor
  · intro e v he hv
    obtain ⟨push, hpush, hv⟩ := Except.bind_eq_ok.mp hv
    cases hv
    have hpush := h.toHost (.literal (by decide)) hpush
    refine nested_applied (.literal (by decide)) ?_ he
    exact Leads.literal.insert hpush |>.text.nested (by decide)
  · intro e v he hv
    obtain ⟨cpp, hcpp, hv⟩ := Except.bind_eq_ok.mp hv
    obtain ⟨value, hvalue, hv⟩ := Except.bind_eq_ok.mp hv
    cases hv
    have hcpp := ht.cppText nested_keptBySpelling hcpp
    have hvalue := h.fromHost (.literal (by decide)) hvalue
    refine nested_applied (Leads.literal.insert hcpp |>.nested (by decide)) ?_ he
    exact Leads.literal.insert hcpp |>.text.insert hcpp |>.text.insert hvalue |>.text.nested (by decide)

/-- The braces of the loop are fixed text on both sides of the conversion of an item. -/
theorem nested_vectorRule (ht : t.Named Nested) (h : inner.Nested) : (vectorRule t inner).Nested := by
  constructor
  · intro e v he hv
    obtain ⟨push, hpush, hv⟩ := Except.bind_eq_ok.mp hv
    cases hv
    have hpush := h.toHost (.literal (by decide)) hpush
    refine nested_applied (.literal (by decide)) ?_ he
    exact Leads.literal.insert hpush |>.text.nested (by decide)
  · intro e v he hv
    obtain ⟨cpp, hcpp, hv⟩ := Except.bind_eq_ok.mp hv
    obtain ⟨value, hvalue, hv⟩ := Except.bind_eq_ok.mp hv
    cases hv
    have hcpp := ht.cppText nested_keptBySpelling hcpp
    have hvalue := h.fromHost (.literal (by decide)) hvalue
    refine nested_applied (.literal (by decide)) ?_ he
    exact Leads.literal.text.insert hcpp |>.text.text.text.text.insert hvalue |>.text.nested (by decide)

/-- Both directions have rows for each item, which are nested one by one and so when they are joined. -/
theorem nested_tupleRule {make : String} (hmake : Nested make) (h : ∀ a ∈ args, a.2.Nested) :
    (tupleRule make args).Nested := by
  constructor
  · intro e v he hv
    obtain ⟨items, hitems, hv⟩ := Except.bind_eq_ok.mp hv
    cases hv
    have hall : Nested (String.join items) := by
      refine .join fun item hitem => ?_
      obtain ⟨⟨a, i⟩, ha, hitem⟩ := Except.exists_of_mem_mapM hitems hitem
      obtain ⟨push, hpush, hitem⟩ := Except.bind_eq_ok.mp hitem
      cases hitem
      have hget : Nested ("std::get<" ++ toString i ++ ">(tup)") :=
        Leads.literal.insert (Text.nested_toString i) |>.text.nested (by decide)
      have hpush := (h a (List.fst_mem_of_mem_zipIdx ha)).toHost hget hpush
      exact Leads.of_nested hpush |>.text.insert (Text.nested_toString _) |>.text.nested (by decide)
    refine nested_applied (.literal (by decide)) ?_ he
    exact Leads.literal.insert (Text.nested_toString _) |>.text.insert hall |>.nested (by decide)
  · intro e v he hv
    obtain ⟨reads, hreads, hv⟩ := Except.bind_eq_ok.mp hv
    cases hv
    have hall : Nested (String.join reads) := by
      refine .join fun read hread => ?_
      obtain ⟨⟨a, i⟩, ha, hread⟩ := Except.exists_of_mem_mapM hreads hread
      obtain ⟨value, hvalue, hread⟩ := Except.bind_eq_ok.mp hread
      cases hread
      have hvalue := (h a (List.fst_mem_of_mem_zipIdx ha)).fromHost (.literal (by decide)) hvalue
      exact Leads.literal.insert (Text.nested_toString _) |>.text.insert (Text.nested_toString _)
        |>.text.insert hvalue |>.text.nested (by decide)
    have hnames : Nested (", ".intercalate
        ((List.range args.length).map fun i => "std::move(e" ++ toString i ++ ")")) := by
      refine .intercalate (.literal (by decide)) (List.forall_mem_map.mpr fun i _ => ?_)
      exact Leads.literal.insert (Text.nested_toString i) |>.text.nested (by decide)
    refine nested_applied (.literal (by decide)) ?_ he
    exact Leads.literal.insert hall |>.text.insert hmake |>.text.insert hnames |>.text.nested (by decide)

/-- The braces of the loop are fixed text around the conversions of key and value. -/
theorem nested_mapRule (ht : t.Named Nested) (h : ∀ a ∈ args, a.2.Nested) : (mapRule t args).Nested := by
  unfold mapRule
  split
  · rename_i key value
    have hkey := h key (by simp)
    have hvalue := h value (by simp)
    constructor
    · intro e v he hv
      obtain ⟨k, hk, hv⟩ := Except.bind_eq_ok.mp hv
      obtain ⟨w, hw, hv⟩ := Except.bind_eq_ok.mp hv
      cases hv
      have hk := hkey.toHost (.literal (by decide)) hk
      have hw := hvalue.toHost (.literal (by decide)) hw
      refine nested_applied (.literal (by decide)) ?_ he
      exact Leads.literal.insert hk |>.text.insert hw |>.text.nested (by decide)
    · intro e v he hv
      obtain ⟨cpp, hcpp, hv⟩ := Except.bind_eq_ok.mp hv
      obtain ⟨k, hk, hv⟩ := Except.bind_eq_ok.mp hv
      obtain ⟨w, hw, hv⟩ := Except.bind_eq_ok.mp hv
      cases hv
      have hcpp := ht.cppText nested_keptBySpelling hcpp
      have hk := hkey.fromHost (.literal (by decide)) hk
      have hw := hvalue.fromHost (.literal (by decide)) hw
      refine nested_applied (.literal (by decide)) ?_ he
      exact Leads.literal.insert hcpp |>.text.insert hk |>.text.insert hw |>.text.nested (by decide)
  · exact Conversion.nested_fail _

theorem nested_functionRule (ht : t.Named Nested) (hargs : ∀ a ∈ args, a.1.Named Nested ∧ a.2.Nested) :
    (functionRule t args).Nested := by
  have hfirst := nested_onFirst hargs fun {_ c} _ (h : c.Nested) => h
  constructor
  · intro e v he hv
    exact hfirst.toHost he hv
  · intro e v he hv
    obtain ⟨cpp, hcpp, hv⟩ := Except.bind_eq_ok.mp hv
    obtain ⟨value, hvalue, hv⟩ := Except.bind_eq_ok.mp hv
    cases hv
    have hcpp := ht.cppText nested_keptBySpelling hcpp
    exact Leads.of_nested hcpp |>.text.insert (hfirst.fromHost he hvalue) |>.text.nested (by decide)

theorem nested_ignoredRule (ht : t.Named Nested) (h : inner.Nested) : (ignoredRule t inner).Nested := by
  refine ⟨h.toHost, fun {e v} _ hv => ?_⟩
  obtain ⟨cpp, hcpp, hv⟩ := Except.bind_eq_ok.mp hv
  cases hv
  exact Leads.of_nested (ht.cppText nested_keptBySpelling hcpp) |>.text.nested (by decide)

/-- One case for each kind of template, by the lemma of its rule. -/
theorem nested_template (hs : s.Nested) {name : String} {k : TemplateKind}
    (hk : TemplateKind.ofName? name = some k) (ht : (Ty.template name (args.map (·.1))).Named Nested)
    (h : ∀ a ∈ args, a.1.Named Nested ∧ a.2.Nested) : (k.conversion s name args).Nested := by
  cases k with
  | sharedPtr => exact nested_onFirst h fun ht h => nested_sharedPtrRule hs.module ht h
  | optional => exact nested_onFirst h fun _ h => nested_optionalRule ht h
  | nullable => exact nested_onFirst h nested_nullableRule
  | vector => exact nested_onFirst h nested_vectorRule
  | tuple make =>
    have hmake : Nested make := by
      unfold TemplateKind.ofName? at hk
      split at hk
      all_goals cases hk
      all_goals exact .literal (by decide)
    exact nested_tupleRule hmake fun a ha => (h a ha).2
  | map => exact nested_mapRule ht fun a ha => (h a ha).2
  | function => exact nested_functionRule ht h
  | ignored => exact nested_onFirst h nested_ignoredRule

/-! ### Entities -/

theorem nested_pointerRule (h : inner.Nested) : (pointerRule inner).Nested := by
  constructor
  · intro e v he hv
    exact h.toHost (Leads.literal.insert he |>.text.nested (by decide)) hv
  · intro e v he hv
    obtain ⟨value, hvalue, hv⟩ := Except.bind_eq_ok.mp hv
    cases hv
    exact Leads.literal.insert (h.fromHost he hvalue) |>.text.nested (by decide)

/-- The value is put into `std::move(..)` or not, and is nested either way. -/
theorem nested_rrefFromHost (h : inner.Nested) (he : Nested e) (hv : rrefFromHost t inner e = .ok v) :
    Nested v := by
  obtain ⟨value, hvalue, hv⟩ := Except.bind_eq_ok.mp hv
  have hvalue := h.fromHost he hvalue
  split at hv
  · cases hv
    split
    · exact hvalue
    · exact Leads.literal.insert hvalue |>.text.nested (by decide)
  · cases hv
    exact hvalue

/-- A class is written with its native name and, in quotes, the name of its metatable, which are nested. -/
theorem nested_objectRule (hmodule : Nested module) {c : ClassRef} (hname : Nested c.name)
    (hnative : Nested c.native.text) : (objectRule module c).Nested := by
  have hmeta := nested_metatable hmodule hname
  constructor
  · intro e v he hv
    unfold objectRule at hv
    split at hv
    · cases hv
    · cases hv
      exact Leads.literal.insert hnative |>.text.insert he |>.text.insert hmeta |>.text.nested (by decide)
  · intro e v he hv
    have hvalue {check : String} (hcheck : Nested check) : Nested ("bindgen_lua::" ++ check ++ "<"
        ++ c.native.text ++ ">(L, " ++ e ++ ", \"" ++ metatable module c.name ++ "\")") :=
      Leads.literal.insert hcheck |>.text.insert hnative |>.text.insert he |>.text.insert hmeta
        |>.text.nested (by decide)
    unfold objectRule at hv
    dsimp only at hv
    split at hv
    · cases hv
      exact Leads.literal.insert (hvalue (.literal (by decide))) |>.nested (by decide)
    · split at hv
      · cases hv
        exact Leads.literal.insert (hvalue (.literal (by decide))) |>.text.nested (by decide)
      · cases hv
        exact hvalue (.literal (by decide))

theorem nested_recordRule {r : EntityRef} (hname : Nested r.name) : (recordRule r).Nested :=
  .of_ok (fun he => Leads.literal.insert hname |>.text.insert he |>.text.nested (by decide))
    fun he => Leads.literal.insert hname |>.text.insert he |>.text.nested (by decide)

theorem nested_enumerationRule {r : EntityRef} (hnative : Nested r.native.text) :
    (enumerationRule r).Nested :=
  .of_ok (fun he => Leads.literal.insert he |>.text.nested (by decide))
    fun he => Leads.of_nested hnative |>.text.insert he |>.text.nested (by decide)

theorem nested_opaqueRule {name : String} (hname : Nested name) : (opaqueRule name).Nested :=
  .of_ok (fun he => Leads.literal.insert he |>.text.nested (by decide))
    fun he => Leads.literal.insert hname |>.text.insert he |>.text.nested (by decide)

/-- The conversion behind a key type comes from the scope, where `Scope.Nested` says that it is nested. -/
theorem nested_keyTypeRule (hs : s.Nested) {name : String} (hname : Nested name) :
    (keyTypeRule s name).Nested := by
  unfold keyTypeRule
  split
  · rename_i t ht
    constructor
    · intro e v he hv
      exact (hs.keyType ht).toHost (Leads.literal.insert he |>.text.nested (by decide)) hv
    · intro e v he hv
      obtain ⟨value, hvalue, hv⟩ := Except.bind_eq_ok.mp hv
      cases hv
      have hvalue := (hs.keyType ht).fromHost he hvalue
      exact Leads.of_nested hname |>.text.insert hvalue |>.text.nested (by decide)
  · exact Conversion.nested_fail _

/-! ### Functions -/

variable {params : List (String × Ty × Conversion)} {ret : Ty} {quals : Qualifiers}

/-- The arguments of the Lua function are read one by one by index, which is a number, and the result is pushed.
-/
theorem nested_pushFunction (hparams : ∀ p ∈ params, p.2.2.Nested) (hret : inner.Nested) (he : Nested e)
    (h : pushFunction ⟨params, (ret, inner), quals⟩ e = .ok v) : Nested v := by
  obtain ⟨args, hargs, h⟩ := Except.bind_eq_ok.mp h
  obtain ⟨body, hbody, h⟩ := Except.ite_bind_eq_ok.mp h
  cases h
  have hall : Nested (", ".intercalate args) := by
    refine .intercalate (.literal (by decide)) fun arg harg => ?_
    obtain ⟨⟨p, i⟩, hp, harg⟩ := Except.exists_of_mem_mapM hargs harg
    exact (hparams p (List.fst_mem_of_mem_zipIdx hp)).fromHost (Text.nested_toString _) harg
  have hcall : Nested ("cb(" ++ ", ".intercalate args ++ ")") :=
    Leads.literal.insert hall |>.text.nested (by decide)
  have hbody : Nested body := by
    split at hbody
    · cases hbody
      exact Leads.of_nested hcall |>.text.nested (by decide)
    · obtain ⟨push, hpush, rfl⟩ := Except.map_eq_ok.mp hbody
      exact Leads.of_nested (hret.toHost hcall hpush) |>.text.nested (by decide)
  refine nested_applied (.literal (by decide)) ?_ he
  exact Leads.literal.insert hbody |>.text.nested (by decide)

/-- The head of the lambda has the spellings and names of the parameters, its body the pushes of the arguments
and the reading of the result. -/
theorem nested_takeFunction (hnames : ∀ p ∈ params, Nested p.1) (htypes : ∀ p ∈ params, p.2.1.Named Nested)
    (hparams : ∀ p ∈ params, p.2.2.Nested) (hrettype : ret.Named Nested) (hret : inner.Nested)
    (he : Nested e) (h : takeFunction ⟨params, (ret, inner), quals⟩ e = .ok v) : Nested v := by
  obtain ⟨declared, hdeclared, h⟩ := Except.bind_eq_ok.mp h
  obtain ⟨pushes, hpushes, h⟩ := Except.bind_eq_ok.mp h
  obtain ⟨rest, hrest, h⟩ := Except.ite_bind_eq_ok.mp h
  obtain ⟨cpp, hcpp, h⟩ := Except.bind_eq_ok.mp h
  cases h
  have hdeclared : Nested declared := by
    refine declareParams_of_named nested_keptBySpelling (fun p hp => ?_) (fun p hp => ?_) hdeclared <;>
      obtain ⟨q, hq, rfl⟩ := List.mem_map.mp hp
    · exact hnames q hq
    · exact htypes q hq
  have hpushes : Nested (String.join pushes) := by
    refine .join fun push hpush => ?_
    obtain ⟨p, hp, hpush⟩ := Except.exists_of_mem_mapM hpushes hpush
    obtain ⟨text, htext, hpush⟩ := Except.bind_eq_ok.mp hpush
    cases hpush
    exact Leads.of_nested ((hparams p hp).toHost (hnames p hp) htext) |>.text.nested (by decide)
  have hcall : Nested ("bindgen_lua::call(L, " ++ toString params.length ++ ", "
      ++ (if ret.isVoid then "0" else "1") ++ ");\n") := by
    have hresults : Nested (if ret.isVoid then "0" else "1") := by split <;> exact .literal (by decide)
    exact Leads.literal.insert (Text.nested_toString _) |>.text.insert hresults |>.text.nested (by decide)
  have hrest : Nested rest := by
    split at hrest
    · cases hrest
      exact .literal (by decide)
    · obtain ⟨value, hvalue, rfl⟩ := Except.map_eq_ok.mp hrest
      exact Leads.literal.insert (hret.fromHost (.literal (by decide)) hvalue) |>.text.nested (by decide)
  have hcpp := hrettype.cppText nested_keptBySpelling hcpp
  exact Leads.literal.insert he |>.text.insert hdeclared |>.text.insert hcpp |>.text.insert hpushes
    |>.insert hcall |>.insert hrest |>.text.nested (by decide)

/-! ### Every type -/

/-- **Each rule writes nested texts**, for types with nested names: one case for each rule of `rules`, with the
names that the type is made of taken from `Ty.Named`. -/
theorem keeps_nested (hs : s.Nested) : (rules s).Keeps fun t c => t.Named Nested → c.Nested where
  const h ht := by
    cases ht with
    | modified ht => exact h ht
  ref h ht := by
    cases ht with
    | modified ht => exact h ht
  -- only what is read is moved; what is pushed goes through the rule as it is
  rref h ht := by
    cases ht with
    | modified ht => exact ⟨(h ht).toHost, nested_rrefFromHost (h ht)⟩
  pointer h ht := by
    cases ht with
    | modified ht => exact nested_pointerRule (h ht)
  primitive hrule ht := by
    obtain ⟨k, -, rfl⟩ := Option.map_eq_some_iff.mp hrule
    cases ht with
    | primitive hn => exact nested_primitive hs hn k
  -- the names of the arguments are part of those of the template, so their conversions are nested too
  template hrule hargs ht := by
    obtain ⟨k, hk, rfl⟩ := Option.map_eq_some_iff.mp hrule
    refine nested_template hs hk ht fun a ha => ?_
    cases ht with
    | template _ hall =>
      have hnamed := hall a.1 (List.mem_map_of_mem ha)
      exact ⟨hnamed, hargs a ha hnamed⟩
  -- both ways convert the parameters one by one, and only the way from the host declares them by name
  func hparams hret ht := by
    cases ht with
    | func hnames htypes hrettype =>
      have hconvert := fun p hp => hparams p hp (htypes _ (List.mem_map_of_mem hp))
      constructor
      · intro e v he hv
        exact nested_pushFunction hconvert (hret hrettype) he hv
      · intro e v he hv
        exact nested_takeFunction (fun p hp => hnames _ (List.mem_map_of_mem hp))
          (fun p hp => htypes _ (List.mem_map_of_mem hp)) hconvert hrettype (hret hrettype) he hv
  object c ht := by
    cases ht with
    | object hn hnative => exact nested_objectRule hs.module hn hnative
  record r ht := by
    cases ht with
    | record hn _ => exact nested_recordRule hn
  enumeration r ht := by
    cases ht with
    | enumeration _ hnative => exact nested_enumerationRule hnative
  opaqueType name ht := by
    cases ht with
    | opaqueType hn => exact nested_opaqueRule hn
  keyType name ht := by
    cases ht with
    | keyType hn => exact nested_keyTypeRule hs hn
  -- without a rule nothing is written
  noPrimitive _ _ := Conversion.nested_fail _
  noTemplate _ _ _ := Conversion.nested_fail _

end Lua

/-! ## Models -/

/-- The texts of a member are nested. -/
structure Method.Nested (x : Method) : Prop where
  owner : Text.Nested x.owner.name ∧ Text.Nested x.owner.native.text
  uniqueName : Text.Nested x.uniqueName
  native : Text.Nested x.native.text
  sig : (Ty.func x.sig).Named Text.Nested

structure Class.Nested (c : Class) : Prop where
  ref : Text.Nested c.ref.name ∧ Text.Nested c.ref.native.text
  base : ∀ b ∈ c.base, Text.Nested b.name
  iterable : ∀ t ∈ c.iterable, t.Named Text.Nested
  methods : ∀ x ∈ c.methods, x.Nested

structure Field.Nested (f : Field) : Prop where
  name : Text.Nested f.name.text
  native : Text.Nested f.native.text
  type : f.type.Named Text.Nested

structure Record.Nested (r : Record) : Prop where
  ref : Text.Nested r.ref.name ∧ Text.Nested r.ref.native.text
  fields : ∀ f ∈ r.fields, f.Nested

/-- The names of an enumeration are nested, and its values are whole numbers. -/
structure Enumeration.Nested (e : Enumeration) : Prop where
  ref : Text.Nested e.ref.name ∧ Text.Nested e.ref.native.text
  names : ∀ x ∈ e.enumerators, Text.Nested x.1.text
  values : ∀ x ∈ e.enumerators, ∃ i, x.2 = .int i

structure MixedGetter.Nested (g : MixedGetter) : Prop where
  dataType : Text.Nested g.dataType.text
  getter : Text.Nested g.getter
  type : g.type.Named Text.Nested

/-- Every text of the model that code is made of is nested. -/
structure Model.Nested (m : Model) : Prop where
  headers : ∀ h ∈ m.headers, Text.Nested h.text
  classes : ∀ c ∈ m.classes, c.Nested
  records : ∀ r ∈ m.records, r.Nested
  keyTypes : ∀ k ∈ m.keyTypes, k.2.Named Text.Nested
  enums : ∀ e ∈ m.enums, e.Nested
  getters : ∀ g ∈ m.mixed.getters, g.Nested
  ctors : ∀ t ∈ m.mixed.ctors, t.Named Text.Nested

namespace Lua.Converter

variable {c : Converter} {t : Ty}

/-- The module and the model that are written for are nested. -/
structure Nested (c : Converter) : Prop where
  module : Text.Nested c.module
  model : c.model.Nested

/-- By induction over `depth`. The scope at a depth has nested names by `hc` and nested conversions one level
lower. -/
theorem nested_convertTo (hc : c.Nested) (depth : Nat) (ht : t.Named Text.Nested) :
    (c.convertTo depth t).Nested := by
  induction depth generalizing t with
  | zero => exact Conversion.nested_fail _
  | succ depth ih =>
    refine (keeps_nested ⟨hc.module, ?_, ?_, ?_⟩).convert t ht
    · intro n u hu
      exact ih (hc.model.keyTypes _ (Model.mem_of_keyType? hu))
    · intro info g hinfo hg
      cases (Option.ite_none_right_eq_some.mp hinfo).2
      have hgetter := hc.model.getters g hg
      exact ⟨hgetter.dataType, hgetter.getter, ih hgetter.type⟩
    · intro info u hinfo hu
      cases (Option.ite_none_right_eq_some.mp hinfo).2
      exact ⟨hc.model.ctors u hu, ih (hc.model.ctors u hu)⟩

/-- **Conversions of a model** take nested expressions to nested ones, at the depth that `Converter.convert`
allows. -/
theorem Nested.convert (hc : c.Nested) (ht : t.Named Text.Nested) : (c.convert t).Nested :=
  nested_convertTo hc _ ht

end Lua.Converter

end LuaGlue
