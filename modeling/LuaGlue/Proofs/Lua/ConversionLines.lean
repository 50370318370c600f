import LuaGlue.Lua.Rules
import LuaGlue.Proofs.Conversion.Induction
import LuaGlue.Proofs.Model.OneLine
import LuaGlue.Proofs.Text.LineStart

/-!
# No conversion begins a line like a definition

What a conversion writes may go over several lines, and an adapter writes it as it is. Definitions begin
with the word `static`; no later line of a conversion does.

- **Texts** (`Flows`): the reader of `Reads` looks for the word. Fixed texts are run; names stand inside a
  line.
- **Conversions** (`Conversion.Quiet`): what goes to the host may stand at the start of a line, what comes
  from it inside one.
- **Every type** (`Converter.quiet_convert`): each rule keeps this where names hold no line break.
-/

namespace LuaGlue

open Text (Cursor Reads)

namespace Lua

/-- The word that definitions begin with. -/
def mark : List Char := ['s', 't', 'a', 't', 'i', 'c', ' ']

/-- The start of a line. -/
def start : Cursor := .expects mark

/-- The text leads from one position to another, and no line in it begins like a definition. -/
abbrev Flows (k : Cursor) (s : String) (k' : Cursor) : Prop := Reads mark k s k'

/-- The text stays inside its line, or goes on to others that do not begin like a definition. -/
abbrev Calm (s : String) : Prop := Flows .inside s .inside

end Lua

open Lua (Flows Calm start)

/-- What goes to the host may stand at the start of a line, what comes from it inside one. -/
structure Conversion.Quiet (c : Conversion) : Prop where
  toHost {e v} : Calm e → c.toHost e = .ok v → Flows start v .inside
  fromHost {e v} : Calm e → c.fromHost e = .ok v → Calm v

namespace Conversion

theorem quiet_fail (err : Error) : (fail err).Quiet :=
  ⟨fun _ h => (by cases h), fun _ h => (by cases h)⟩

/-- What may stand at the start of a line may stand inside one: `Flows start` is the stronger property. -/
theorem Quiet.toHost_calm {c : Conversion} (h : c.Quiet) {e v : String} (he : Calm e)
    (hv : c.toHost e = .ok v) : Calm v :=
  (h.toHost he hv).toInside

end Conversion

namespace Lua

open Text (OneLine)

theorem calm (s : String) (h : OneLine s) : Calm s := .of_oneLine h

namespace Flows

variable {k k' : Cursor} {s t : String}

/-- One text after another, in the same line. -/
theorem on (h : Flows k s .inside) (h' : Flows .inside t k') : Flows k (s ++ t) k' := h.append h'

/-- One text after another, in a new line. -/
theorem below (h : Flows k s start) (h' : Flows start t k') : Flows k (s ++ t) k' := h.append h'

/-- A call around an expression, where only the expression may hold line breaks. The head is run, since a line
may begin with it. -/
theorem around {pre e post : String} (hpre : Flows k pre .inside) (he : Calm e) (hpost : OneLine post) :
    Flows k (pre ++ e ++ post) .inside :=
  (hpre.on he).on (calm post hpost)

/-- An applied lambda, whose body may end with a line. -/
theorem lambda {head body e : String} (hhead : Calm head) (hbody : Flows .inside body k)
    (hend : Flows k "\x7d(" .inside) (he : Calm e) : Flows start (applied head body e) .inside := by
  have hopen : Flows start ("[&] " ++ head ++ " \x7b") .inside :=
    .around (.literal (by decide)) hhead (.literal (by decide))
  exact .around (Reads.append (hopen.on hbody) hend) he (.literal (by decide))

theorem lambdaOfLines {head body e : String} (hhead : Calm head) (hbody : Flows .inside body start)
    (he : Calm e) : Flows start (applied head body e) .inside :=
  lambda hhead hbody (.literal (by decide)) he

theorem lambdaOfLine {head body e : String} (hhead : Calm head) (hbody : Calm body) (he : Calm e) :
    Flows start (applied head body e) .inside :=
  lambda hhead hbody (.literal (by decide)) he

end Flows

theorem calm_stringView {e : String} (he : Calm e) : Calm (stringView e) :=
  .around (.literal (by decide)) he (.literal (by decide))

theorem oneLine_metatable {module name : String} (hmodule : OneLine module) (hname : OneLine name) :
    OneLine (metatable module name) :=
  Text.oneLine_append.mpr ⟨Text.oneLine_append.mpr ⟨hmodule, by decide⟩, hname⟩

/-! ## Primitives -/

/-- The names that the rules of a module go by hold no line break, and the conversions that they go on to
are quiet. -/
structure Scope.Quiet (s : Scope) : Prop where
  module : OneLine s.module
  getters {info g} : s.mixed = some info → g ∈ info.getters →
    OneLine g.dataType.text ∧ OneLine g.getter ∧ (s.convert g.type).Quiet
  ctors {info t} : s.mixed = some info → t ∈ info.ctors → t.OneLine ∧ (s.convert t).Quiet
  keyTypes {name t} : s.keyType? name = some t → (s.convert t).Quiet

variable {s : Scope}

/-- The cases of a `Mixed` value stand in lines of their own, each with the conversion of its getter, which is
quiet by `Scope.Quiet`. -/
theorem flows_pushMixed (hs : s.Quiet) {info : MixedInfo} (hinfo : s.mixed = some info) {e v : String}
    (he : Calm e) (hv : pushMixed s info e = .ok v) : Flows start v .inside := by
  obtain ⟨cases, hcases, hv⟩ := Except.bind_eq_ok.mp hv
  cases hv
  have hrows : Flows start (String.join cases) start := by
    refine .join fun row hrow => ?_
    obtain ⟨g, hg, hrow⟩ := Except.exists_of_mem_mapM hcases hrow
    obtain ⟨push, hpush, hrow⟩ := Except.bind_eq_ok.mp hrow
    cases hrow
    obtain ⟨htype, hgetter, hquiet⟩ := hs.getters hinfo hg
    have hexpr : Calm ("m." ++ g.getter ++ "()") :=
      .around (.literal (by decide)) (calm _ hgetter) (.literal (by decide))
    have hcase : Flows start ("case DataType::Type::" ++ g.dataType.text ++ ": ") .inside :=
      .around (.literal (by decide)) (calm _ htype) (.literal (by decide))
    exact Flows.on (.on hcase (hquiet.toHost_calm hexpr hpush)) (.literal (by decide))
  refine .lambdaOfLines (.literal (by decide)) ?_ he
  exact .below (.below (.below (.literal (by decide)) hrows) (.literal (by decide))) (.literal (by decide))

/-- The class that a type is an instance of is named in the type, behind references, pointers and handles. -/
theorem oneLine_of_instanceOf {t : Ty} (ht : t.OneLine) {c : ClassRef}
    (hc : instanceOf t = .ok (some c)) : OneLine c.name := by
  have hbare := ht.bare
  rw [instanceOf] at hc
  split at hc
  case h_1 name args heq =>
    rw [heq] at hbare
    cases hbare with
    | template _ hargs =>
      split at hc
      · split at hc
        · cases hc
        · cases hc
          cases hargs (.object c) (by simp) with
          | object hname => exact hname
        · cases hc
      · cases hc
  case h_2 c' heq =>
    rw [heq] at hbare
    cases hc
    cases hbare with
    | object hname => exact hname
  case h_3 => cases hc

/-- The test for one class is made of whole lines: it begins at the start of one and ends there. -/
theorem flows_takeMixedInstance (hs : s.Quiet) {info : MixedInfo} (hinfo : s.mixed = some info) {t : Ty}
    (ht : t ∈ info.ctors) {v : String} (hv : takeMixedInstance s t = .ok v) : Flows start v start := by
  obtain ⟨hline, hquiet⟩ := hs.ctors hinfo ht
  obtain ⟨found, hfound, hv⟩ := Except.bind_eq_ok.mp hv
  cases found with
  | none => cases hv; exact .empty
  | some c =>
    obtain ⟨value, hvalue, hv⟩ := Except.bind_eq_ok.mp hv
    cases hv
    have htable := calm _ (oneLine_metatable hs.module (oneLine_of_instanceOf hline hfound))
    have htest : Flows start ("if (bindgen_lua::is_instance(L, idx, \"" ++ metatable s.module c.name
        ++ "\")) return Mixed(") .inside := .around (.literal (by decide)) htable (.literal (by decide))
    exact .on (.on htest (hquiet.fromHost (.literal (by decide)) hvalue)) (.literal (by decide))

/-- Tests for classes come first, one for each constructor, and then the cases of plain values. The text ends
inside a line. -/
theorem calm_takeMixed (hs : s.Quiet) {info : MixedInfo} (hinfo : s.mixed = some info) {e v : String}
    (he : Calm e) (hv : takeMixed s info e = .ok v) : Calm v := by
  obtain ⟨instances, hinstances, hv⟩ := Except.bind_eq_ok.mp hv
  cases hv
  have hrows : Flows start (String.join instances) start := by
    refine .join fun row hrow => ?_
    obtain ⟨t, ht, hrow⟩ := Except.exists_of_mem_mapM hinstances hrow
    exact flows_takeMixedInstance hs hinfo ht hrow
  refine (Flows.lambdaOfLines (.literal (by decide)) ?_ he).toInside
  refine .below (.below (.below ?_ hrows) ?_) ?_
  · refine .below (.below (.on (.below (.below (.below ?_ ?_) ?_) ?_) ?_) ?_) ?_ <;>
      exact .literal (by decide)
  · exact .literal (by decide)
  · exact .literal (by decide)

/-- Primitives are fixed texts around the expression, which `decide` runs, except for `Mixed`, whose
alternatives are read from the scope. -/
theorem quiet_primitive (hs : s.Quiet) {name : String} (hname : OneLine name) (k : PrimitiveKind) :
    (k.conversion s name).Quiet := by
  have hcpp := calm _ (oneLine_primitiveCpp hname)
  cases k with
  | void | bool =>
    refine ⟨fun he hv => ?_, fun he hv => ?_⟩ <;> cases hv
    · exact .around (.literal (by decide)) he (.literal (by decide))
    · exact .around (.literal (by decide)) he (.literal (by decide))
  | integer | number =>
    refine ⟨fun he hv => ?_, fun he hv => ?_⟩ <;> cases hv
    · exact .around (.literal (by decide)) he (.literal (by decide))
    · exact .around (.on hcpp (.literal (by decide))) he (.literal (by decide))
  | text owned =>
    refine ⟨fun he hv => ?_, fun he hv => ?_⟩ <;> cases hv
    · exact .lambdaOfLine (.literal (by decide)) (.literal (by decide)) he
    · have htype : Calm (if owned then "std::string" else primitiveCpp name) := by
        split
        · exact .literal (by decide)
        · exact hcpp
      exact .around (.on htype (.literal (by decide))) (calm_stringView he) (.literal (by decide))
  | binary owned =>
    refine ⟨fun he hv => ?_, fun he hv => ?_⟩ <;> cases hv
    · refine .lambdaOfLine (.literal (by decide)) (.literal (by decide)) ?_
      split
      · exact .around (.literal (by decide)) he (.literal (by decide))
      · exact he
    · have htype : Calm (if owned then "OwnedBinaryData" else "BinaryData") := by
        split <;> exact .literal (by decide)
      have hview := calm_stringView he
      exact .around (.around (.on htype (.literal (by decide))) hview (by decide)) hview
        (.literal (by decide))
  -- the only primitive that goes on to other conversions
  | mixed =>
    rw [PrimitiveKind.conversion]
    split
    case h_1 info hinfo => exact ⟨flows_pushMixed hs hinfo, calm_takeMixed hs hinfo⟩
    case h_2 => exact Conversion.quiet_fail _
  | error =>
    refine ⟨fun he hv => ?_, fun he hv => ?_⟩ <;> cases hv
    exact .around (.literal (by decide)) he (.literal (by decide))

/-! ## Templates -/

section Templates

variable {args : List (Ty × Conversion)}

/-- A rule for the first argument is quiet if it is for every quiet conversion; without an argument it fails. -/
theorem quiet_onFirst {rule : Ty → Conversion → Conversion}
    (hargs : ∀ a ∈ args, a.1.OneLine ∧ a.2.Quiet)
    (hrule : ∀ t c, t.OneLine → c.Quiet → (rule t c).Quiet) : (onFirst args rule).Quiet := by
  cases args with
  | nil => exact Conversion.quiet_fail _
  | cons a rest =>
    obtain ⟨ht, hc⟩ := hargs a (by simp)
    exact hrule a.1 a.2 ht hc

/-- An expression and the metatable that it is checked against. -/
theorem flows_checked {k : Cursor} {pre e table : String} (hpre : Flows k pre .inside) (he : Calm e)
    (htable : OneLine table) : Flows k (pre ++ e ++ ", \"" ++ table ++ "\")") .inside :=
  .around (.around hpre he (by decide)) (calm _ htable) (.literal (by decide))

/-- A handle of a class is written with the name of the class, and any other with the conversion of what it
points to. -/
theorem quiet_sharedPtrRule {module : String} (hmodule : OneLine module) {t : Ty} (ht : t.OneLine)
    {inner : Conversion} (h : inner.Quiet) : (sharedPtrRule module t inner).Quiet := by
  have hpointee : Conversion.Quiet {
      toHost := fun e => inner.toHost ("*(" ++ e ++ ")")
      fromHost := fun e => return "std::make_shared<" ++ (← t.cppText) ++ ">("
        ++ (← inner.fromHost e) ++ ")" } := by
    refine ⟨fun he hv => h.toHost (.around (.literal (by decide)) he (by decide)) hv, fun he hv => ?_⟩
    obtain ⟨cpp, hcpp, hv⟩ := Except.bind_eq_ok.mp hv
    obtain ⟨value, hvalue, hv⟩ := Except.bind_eq_ok.mp hv
    cases hv
    have htype := calm _ (ht.cppText hcpp)
    exact .around (.around (.literal (by decide)) htype (by decide)) (h.fromHost he hvalue)
      (.literal (by decide))
  simp only [sharedPtrRule]
  split
  case h_1 c =>
    split
    · cases ht with
      | object hname hnative =>
        have htable := oneLine_metatable hmodule hname
        have hnative := calm _ hnative
        refine ⟨fun he hv => ?_, fun he hv => ?_⟩ <;> cases hv
        · exact flows_checked (.around (.literal (by decide)) hnative (by decide)) he htable
        · exact flows_checked (.around (.literal (by decide)) hnative (by decide)) he htable
    · exact hpointee
  case h_2 => exact hpointee

/-- Both directions are lambdas around the conversion of the value, which stands inside a line. -/
theorem quiet_optionalRule {type : Ty} (htype : type.OneLine) {inner : Conversion} (h : inner.Quiet) :
    (optionalRule type inner).Quiet := by
  refine ⟨fun he hv => ?_, fun he hv => ?_⟩
  · obtain ⟨push, hpush, hv⟩ := Except.bind_eq_ok.mp hv
    cases hv
    have hpush := h.toHost_calm (.literal (by decide)) hpush
    exact .lambdaOfLine (.literal (by decide)) (.around (.literal (by decide)) hpush (by decide)) he
  · obtain ⟨opt, hopt, hv⟩ := Except.bind_eq_ok.mp hv
    obtain ⟨value, hvalue, hv⟩ := Except.bind_eq_ok.mp hv
    cases hv
    have hopt := calm _ (htype.cppText hopt)
    have hvalue := h.fromHost (.literal (by decide)) hvalue
    refine (Flows.lambdaOfLine (.literal (by decide)) ?_ he).toInside
    exact .around (.around (.around (.literal (by decide)) hopt (by decide)) hopt (by decide)) hvalue
      (.literal (by decide))

/-- As in `quiet_optionalRule`, with a test against null. -/
theorem quiet_nullableRule {t : Ty} (ht : t.OneLine) {inner : Conversion} (h : inner.Quiet) :
    (nullableRule t inner).Quiet := by
  refine ⟨fun he hv => ?_, fun he hv => ?_⟩
  · obtain ⟨push, hpush, hv⟩ := Except.bind_eq_ok.mp hv
    cases hv
    have hpush := h.toHost_calm (.literal (by decide)) hpush
    exact .lambdaOfLine (.literal (by decide)) (.around (.literal (by decide)) hpush (by decide)) he
  · obtain ⟨cpp, hcpp, hv⟩ := Except.bind_eq_ok.mp hv
    obtain ⟨value, hvalue, hv⟩ := Except.bind_eq_ok.mp hv
    cases hv
    have hcpp := calm _ (ht.cppText hcpp)
    have hvalue := h.fromHost (.literal (by decide)) hvalue
    refine (Flows.lambdaOfLine (.on (.literal (by decide)) hcpp) ?_ he).toInside
    exact .around (.around (.around (.literal (by decide)) hcpp (by decide)) hcpp (by decide)) hvalue
      (.literal (by decide))

/-- The loop over the items has the conversion of an item at the start of a line and its reading inside one. -/
theorem quiet_vectorRule {t : Ty} (ht : t.OneLine) {inner : Conversion} (h : inner.Quiet) :
    (vectorRule t inner).Quiet := by
  refine ⟨fun he hv => ?_, fun he hv => ?_⟩
  · obtain ⟨push, hpush, hv⟩ := Except.bind_eq_ok.mp hv
    cases hv
    have hpush := h.toHost (.literal (by decide)) hpush
    refine .lambdaOfLines (.literal (by decide)) ?_ he
    exact .on (.below (.literal (by decide)) hpush) (.literal (by decide))
  · obtain ⟨cpp, hcpp, hv⟩ := Except.bind_eq_ok.mp hv
    obtain ⟨value, hvalue, hv⟩ := Except.bind_eq_ok.mp hv
    cases hv
    have hcpp := calm _ (ht.cppText hcpp)
    have hvalue := h.fromHost (.literal (by decide)) hvalue
    refine (Flows.lambdaOfLines (.literal (by decide)) ?_ he).toInside
    have hout : Flows .inside (checkTable ++ "auto out = std::vector<" ++ cpp) .inside :=
      .on (.below (.literal (by decide)) (.literal (by decide))) hcpp
    exact .on (.on (.below (.below (.below (.on hout (.literal (by decide))) (.literal (by decide)))
      (.literal (by decide))) (.literal (by decide))) hvalue) (.literal (by decide))

theorem calm_toString (n : Nat) : Calm (toString n) := calm _ (Text.oneLine_toString n)

/-- Both directions have lines of their own for each item, so the rows are joined from start to start. What is
made of the items is one line of names. -/
theorem quiet_tupleRule {make : String} (hmake : OneLine make) (hargs : ∀ a ∈ args, a.2.Quiet) :
    (tupleRule make args).Quiet := by
  have hmem {p : (Ty × Conversion) × Nat} (hp : p ∈ args.zipIdx) : p.1.2.Quiet :=
    hargs p.1 (List.fst_mem_of_mem_zipIdx hp)
  refine ⟨fun he hv => ?_, fun he hv => ?_⟩
  · obtain ⟨items, hitems, hv⟩ := Except.bind_eq_ok.mp hv
    cases hv
    have hrows : Flows start (String.join items) start := by
      refine .join fun row hrow => ?_
      obtain ⟨p, hp, hrow⟩ := Except.exists_of_mem_mapM hitems hrow
      obtain ⟨push, hpush, hrow⟩ := Except.bind_eq_ok.mp hrow
      cases hrow
      -- the expression of an item is a call with its index, so the conversion of the item may begin the line
      have hexpr : Calm ("std::get<" ++ toString p.2 ++ ">(tup)") :=
        .around (.literal (by decide)) (calm_toString _) (.literal (by decide))
      have hpush := (hmem hp).toHost hexpr hpush
      exact Flows.on (.on (.on hpush (.literal (by decide))) (calm_toString _)) (.literal (by decide))
    have hopen : Flows .inside ("\nlua_createtable(L, " ++ toString args.length ++ ", 0);\n") start :=
      .on (.on (.literal (by decide)) (calm_toString _)) (.literal (by decide))
    exact .lambdaOfLines (.literal (by decide)) (hopen.below hrows) he
  · obtain ⟨reads, hreads, hv⟩ := Except.bind_eq_ok.mp hv
    cases hv
    have hrows : Flows start (String.join reads) start := by
      refine .join fun row hrow => ?_
      obtain ⟨p, hp, hrow⟩ := Except.exists_of_mem_mapM hreads hrow
      obtain ⟨value, hvalue, hrow⟩ := Except.bind_eq_ok.mp hrow
      cases hrow
      -- an item is read behind `auto e.. = `, so its conversion stands inside the line
      have hvalue := (hmem hp).fromHost (.literal (by decide)) hvalue
      have hget : Flows start ("lua_rawgeti(L, idx, " ++ toString (p.2 + 1) ++ ");\nauto e") .inside :=
        .on (.on (.literal (by decide)) (calm_toString _)) (.literal (by decide))
      exact Flows.on (.on (.on (.on hget (calm_toString _)) (.literal (by decide))) hvalue)
        (.literal (by decide))
    have hnames : Calm (", ".intercalate
        ((List.range args.length).map fun i => "std::move(e" ++ toString i ++ ")")) := by
      refine .intercalate (.literal (by decide)) fun name hname => ?_
      obtain ⟨i, -, rfl⟩ := List.mem_map.mp hname
      exact Flows.around (.literal (by decide)) (calm_toString i) (.literal (by decide))
    have htable : Flows .inside (checkTable ++ String.join reads) start :=
      .below (.literal (by decide)) hrows
    refine (Flows.lambdaOfLines (.literal (by decide)) ?_ he).toInside
    exact .on (.on (.on (.on (.below htable (.literal (by decide))) (calm _ hmake)) (.literal (by decide)))
      hnames) (.literal (by decide))

/-- The spelling of a map begins with the name of its template, so it is not the word `static`. -/
theorem flows_cppText_map {name : String} {ts : List Ty} (hname : TemplateKind.ofName? name = some .map)
    (hts : (Ty.template name ts).OneLine) {cpp : String} (hcpp : (Ty.template name ts).cppText = .ok cpp) :
    Flows start cpp .inside := by
  have hcases : name = "std::map" ∨ name = "std::unordered_map" := by
    unfold TemplateKind.ofName? at hname
    split at hname <;> simp_all
  have hspelled : ∃ text, cpp = name ++ "<" ++ text ++ ">" := by
    obtain ⟨v, hv, htext⟩ := Except.bind_eq_ok.mp hcpp
    cases htext
    unfold Ty.cpp at hv
    rcases hcases with rfl | rfl
    all_goals
      obtain ⟨vs, -, hv⟩ := Except.bind_eq_ok.mp hv
      obtain ⟨text, -, hv⟩ := Except.bind_eq_ok.mp hv
      cases hv
      exact ⟨text, rfl⟩
  obtain ⟨text, rfl⟩ := hspelled
  have hline := hts.cppText hcpp
  simp only [Text.oneLine_append] at hline
  have hname : Flows start name .inside := by
    rcases hcases with rfl | rfl <;> exact .literal (by decide)
  exact .around (.on hname (.literal (by decide))) (calm _ hline.1.2) (.literal (by decide))

/-- The spelling of the map stands at the start of a line, which is why `htype` asks for more than `OneLine`. -/
theorem quiet_mapRule {type : Ty} (htype : ∀ {cpp}, type.cppText = .ok cpp → Flows start cpp .inside)
    (hargs : ∀ a ∈ args, a.2.Quiet) : (mapRule type args).Quiet := by
  simp only [mapRule]
  split
  case h_1 key value =>
    have hkey := hargs key (by simp)
    have hvalue := hargs value (by simp)
    refine ⟨fun he hv => ?_, fun he hv => ?_⟩
    · obtain ⟨k, hk, hv⟩ := Except.bind_eq_ok.mp hv
      obtain ⟨v, hvpush, hv⟩ := Except.bind_eq_ok.mp hv
      cases hv
      have hk := hkey.toHost (.literal (by decide)) hk
      have hvpush := hvalue.toHost (.literal (by decide)) hvpush
      refine .lambdaOfLines (.literal (by decide)) ?_ he
      exact .on (.below (.on (.below (.literal (by decide)) hk) (.literal (by decide))) hvpush)
        (.literal (by decide))
    · obtain ⟨cpp, hcpp, hv⟩ := Except.bind_eq_ok.mp hv
      obtain ⟨k, hk, hv⟩ := Except.bind_eq_ok.mp hv
      obtain ⟨v, hvread, hv⟩ := Except.bind_eq_ok.mp hv
      cases hv
      have hk := hkey.fromHost (.literal (by decide)) hk
      have hvread := hvalue.fromHost (.literal (by decide)) hvread
      refine (Flows.lambdaOfLines (.literal (by decide)) ?_ he).toInside
      have hout : Flows .inside (checkTable ++ cpp) .inside := .below (.literal (by decide)) (htype hcpp)
      exact .on (.on (.on (.on (.on hout (.literal (by decide))) hk) (.literal (by decide))) hvread)
        (.literal (by decide))
  case h_2 => exact Conversion.quiet_fail _

/-- A wrapper around a function hands on to the conversion of the function, with its own spelling around it. -/
theorem quiet_functionRule {type : Ty} (htype : type.OneLine)
    (hargs : ∀ a ∈ args, a.1.OneLine ∧ a.2.Quiet) : (functionRule type args).Quiet := by
  have hinner : (onFirst args fun _ inner => inner).Quiet := quiet_onFirst hargs fun _ _ _ h => h
  refine ⟨hinner.toHost, fun he hv => ?_⟩
  obtain ⟨cpp, hcpp, hv⟩ := Except.bind_eq_ok.mp hv
  obtain ⟨value, hvalue, hv⟩ := Except.bind_eq_ok.mp hv
  cases hv
  exact .around (.on (calm _ (htype.cppText hcpp)) (.literal (by decide))) (hinner.fromHost he hvalue)
    (.literal (by decide))

theorem quiet_ignoredRule {t : Ty} (ht : t.OneLine) {inner : Conversion} (h : inner.Quiet) :
    (ignoredRule t inner).Quiet := by
  refine ⟨h.toHost, fun he hv => ?_⟩
  obtain ⟨cpp, hcpp, hv⟩ := Except.bind_eq_ok.mp hv
  cases hv
  exact .on (calm _ (ht.cppText hcpp)) (.literal (by decide))

/-- One case for each kind of template, by the lemma of its rule. -/
theorem quiet_template (hs : s.Quiet) {name : String} {k : TemplateKind}
    (hk : TemplateKind.ofName? name = some k) (htype : (Ty.template name (args.map (·.1))).OneLine)
    (hargs : ∀ a ∈ args, a.1.OneLine ∧ a.2.Quiet) : (k.conversion s name args).Quiet := by
  have hquiet : ∀ a ∈ args, a.2.Quiet := fun a ha => (hargs a ha).2
  cases k with
  | sharedPtr => exact quiet_onFirst hargs fun _ _ ht h => quiet_sharedPtrRule hs.module ht h
  | optional => exact quiet_onFirst hargs fun _ _ _ h => quiet_optionalRule htype h
  | nullable => exact quiet_onFirst hargs fun _ _ ht h => quiet_nullableRule ht h
  | vector => exact quiet_onFirst hargs fun _ _ ht h => quiet_vectorRule ht h
  | tuple make =>
    have hmake : OneLine make := by
      unfold TemplateKind.ofName? at hk
      split at hk <;> simp_all
      all_goals (subst hk; decide)
    exact quiet_tupleRule hmake hquiet
  | map => exact quiet_mapRule (flows_cppText_map hk htype) hquiet
  | function => exact quiet_functionRule htype hargs
  | ignored => exact quiet_onFirst hargs fun _ _ ht h => quiet_ignoredRule ht h

end Templates

/-! ## Entities and functions -/

theorem quiet_pointerRule {inner : Conversion} (h : inner.Quiet) : (pointerRule inner).Quiet := by
  refine ⟨fun he hv => h.toHost (.around (.literal (by decide)) he (by decide)) hv, fun he hv => ?_⟩
  obtain ⟨value, hvalue, hv⟩ := Except.bind_eq_ok.mp hv
  cases hv
  exact .around (.literal (by decide)) (h.fromHost he hvalue) (.literal (by decide))

/-- What is read is moved where the type asks for it, which only puts a call around the text. -/
theorem calm_rrefFromHost {t : Ty} {inner : Conversion} (h : inner.Quiet) {e v : String} (he : Calm e)
    (hv : rrefFromHost t inner e = .ok v) : Calm v := by
  obtain ⟨value, hvalue, hv⟩ := Except.bind_eq_ok.mp hv
  have hvalue := h.fromHost he hvalue
  split at hv
  · cases hv
    split
    · exact hvalue
    · exact .around (.literal (by decide)) hvalue (.literal (by decide))
  · cases hv
    exact hvalue

/-- A class is written by its name in the metatable and by its native name, both on one line. -/
theorem quiet_objectRule {module : String} (hmodule : OneLine module) {c : ClassRef}
    (hname : OneLine c.name) (hnative : OneLine c.native.text) : (objectRule module c).Quiet := by
  have htable := oneLine_metatable hmodule hname
  have hnative := calm _ hnative
  have hvalue (check : String) (hcheck : OneLine check) {e : String} (he : Calm e) :
      Calm ("bindgen_lua::" ++ check ++ "<" ++ c.native.text ++ ">(L, " ++ e ++ ", \""
        ++ metatable module c.name ++ "\")") := by
    refine flows_checked (.around (.around ?_ (calm _ hcheck) ?_) hnative ?_) he htable <;>
      exact .literal (by decide)
  refine ⟨fun he hv => ?_, fun he hv => ?_⟩
  · simp only [objectRule] at hv
    split at hv
    · cases hv
    · cases hv
      exact flows_checked (.around (.literal (by decide)) hnative (by decide)) he htable
  · simp only [objectRule] at hv
    split at hv
    · cases hv
      exact .on (.literal (by decide)) (hvalue "check_shared" (.literal (by decide)) he)
    · split at hv
      · cases hv
        have hvalue := hvalue "check_class" (.literal (by decide)) he
        exact .around (.literal (by decide)) hvalue (.literal (by decide))
      · cases hv
        exact hvalue "check_class" (.literal (by decide)) he

theorem quiet_recordRule {r : EntityRef} (hname : OneLine r.name) : (recordRule r).Quiet := by
  have hname := calm _ hname
  refine ⟨fun he hv => ?_, fun he hv => ?_⟩ <;> cases hv
  · exact .around (.around (.literal (by decide)) hname (by decide)) he (.literal (by decide))
  · exact .around (.around (.literal (by decide)) hname (by decide)) he (.literal (by decide))

theorem quiet_enumerationRule {r : EntityRef} (hnative : OneLine r.native.text) :
    (enumerationRule r).Quiet := by
  refine ⟨fun he hv => ?_, fun he hv => ?_⟩ <;> cases hv
  · exact .around (.literal (by decide)) he (.literal (by decide))
  · exact .around (.on (calm _ hnative) (.literal (by decide))) he (.literal (by decide))

theorem quiet_opaqueRule {name : String} (hname : OneLine name) : (opaqueRule name).Quiet := by
  refine ⟨fun he hv => ?_, fun he hv => ?_⟩ <;> cases hv
  · exact .around (.literal (by decide)) he (.literal (by decide))
  · exact .around (.around (.literal (by decide)) (calm _ hname) (by decide)) he (.literal (by decide))

/-- The conversion behind a key type comes from the scope, where `Scope.Quiet` says that it is quiet. -/
theorem quiet_keyTypeRule (hs : s.Quiet) {name : String} (hname : OneLine name) :
    (keyTypeRule s name).Quiet := by
  rw [keyTypeRule]
  split
  case h_1 t ht =>
    have hquiet := hs.keyTypes ht
    refine ⟨fun he hv => hquiet.toHost (.around (.literal (by decide)) he (by decide)) hv,
      fun he hv => ?_⟩
    obtain ⟨value, hvalue, hv⟩ := Except.bind_eq_ok.mp hv
    cases hv
    exact .around (.on (calm _ hname) (.literal (by decide))) (hquiet.fromHost he hvalue)
      (.literal (by decide))
  case h_2 => exact Conversion.quiet_fail _

section Functions

variable {sig : Signature (Ty × Conversion)}

/-- The arguments of the Lua function are read inside one line, and the result is pushed at the start of
another. -/
theorem flows_pushFunction (hparams : ∀ p ∈ sig.params, p.2.2.Quiet) (hret : sig.ret.2.Quiet)
    {e v : String} (he : Calm e) (hv : pushFunction sig e = .ok v) : Flows start v .inside := by
  obtain ⟨args, hargs, hv⟩ := Except.bind_eq_ok.mp hv
  rw [Except.ite_bind_eq_ok] at hv
  obtain ⟨body, hbody, hv⟩ := hv
  cases hv
  have hlist : Calm (", ".intercalate args) := by
    refine .intercalate (.literal (by decide)) fun a ha => ?_
    obtain ⟨p, hp, ha⟩ := Except.exists_of_mem_mapM hargs ha
    exact (hparams p.1 (List.fst_mem_of_mem_zipIdx hp)).fromHost (calm_toString _) ha
  have hcall : Flows start ("cb(" ++ ", ".intercalate args ++ ")") .inside :=
    .around (.literal (by decide)) hlist (.literal (by decide))
  have hbody : Flows start body .inside := by
    split at hbody
    · cases hbody
      exact .on hcall (.literal (by decide))
    · obtain ⟨push, hpush, rfl⟩ := Except.map_eq_ok.mp hbody
      exact .on (hret.toHost hcall.toInside hpush) (.literal (by decide))
  refine .lambdaOfLines (.literal (by decide)) ?_ he
  exact .on (.below (.literal (by decide)) hbody) (.literal (by decide))

/-- The lambda that calls back has its arguments pushed in lines of their own. Its head has the names and
spellings of the parameters, which hold no line break. -/
theorem calm_takeFunction (hnames : ∀ p ∈ sig.params, OneLine p.1)
    (htypes : ∀ p ∈ sig.params, p.2.1.OneLine) (hparams : ∀ p ∈ sig.params, p.2.2.Quiet)
    (hret : sig.ret.1.OneLine) (hquiet : sig.ret.2.Quiet) {e v : String} (he : Calm e)
    (hv : takeFunction sig e = .ok v) : Calm v := by
  obtain ⟨params, hdeclared, hv⟩ := Except.bind_eq_ok.mp hv
  obtain ⟨pushes, hpushes, hv⟩ := Except.bind_eq_ok.mp hv
  rw [Except.ite_bind_eq_ok] at hv
  obtain ⟨ret, hvalue, hv⟩ := hv
  obtain ⟨cpp, hcpp, hv⟩ := Except.bind_eq_ok.mp hv
  cases hv
  have hdeclared : Calm params := by
    refine calm _ (oneLine_declareParams (fun p hp => ?_) (fun p hp => ?_) hdeclared) <;>
      obtain ⟨q, hq, rfl⟩ := List.mem_map.mp hp
    · exact hnames q hq
    · exact htypes q hq
  -- the pushes, the call and the reading of the result are whole lines each
  have hrows : Flows start (String.join pushes) start := by
    refine .join fun row hrow => ?_
    obtain ⟨p, hp, hrow⟩ := Except.exists_of_mem_mapM hpushes hrow
    obtain ⟨push, hpush, hrow⟩ := Except.bind_eq_ok.mp hrow
    cases hrow
    exact Flows.on ((hparams p hp).toHost (calm _ (hnames p hp)) hpush) (.literal (by decide))
  have hresults : Calm (if sig.ret.1.isVoid then "0" else "1") := by split <;> exact .literal (by decide)
  have hcall : Flows start ("bindgen_lua::call(L, " ++ toString sig.params.length ++ ", "
      ++ (if sig.ret.1.isVoid then "0" else "1") ++ ");\n") start :=
    .on (.on (.around (.literal (by decide)) (calm_toString _) (by decide)) hresults) (.literal (by decide))
  have hend : Flows start ret start := by
    split at hvalue
    · cases hvalue
      exact .empty
    · obtain ⟨value, hread, rfl⟩ := Except.map_eq_ok.mp hvalue
      have hread := hquiet.fromHost (.literal (by decide)) hread
      exact .on (.on (.literal (by decide)) hread) (.literal (by decide))
  -- the head is one line up to its brace; only `e` may break it
  have hhead : Calm ("[_ref = std::make_shared<bindgen_lua::LuaRef>(L, " ++ e ++ ")] (" ++ params
      ++ ") -> ") :=
    .around (.around (.literal (by decide)) he (by decide)) hdeclared (.literal (by decide))
  exact .below (.below (.below (.below (.on (.on hhead (calm _ (hret.cppText hcpp))) (.literal (by decide)))
    hrows) hcall) hend) (.literal (by decide))

end Functions

/-! ## Every type -/

/-- Each rule is quiet on types whose names hold no line break; this is the case for `rules` by the lemmas
above. -/
theorem keeps_quiet (hs : s.Quiet) : (rules s).Keeps fun t c => t.OneLine → c.Quiet where
  const hc ht := by
    cases ht with
    | modified ht => exact hc ht
  ref hc ht := by
    cases ht with
    | modified ht => exact hc ht
  rref hc ht := by
    cases ht with
    | modified ht => exact ⟨(hc ht).toHost, calm_rrefFromHost (hc ht)⟩
  pointer hc ht := by
    cases ht with
    | modified ht => exact quiet_pointerRule (hc ht)
  primitive hrule ht := by
    obtain ⟨k, -, rfl⟩ := Option.map_eq_some_iff.mp hrule
    cases ht with
    | primitive hname => exact quiet_primitive hs hname k
  template hrule hargs ht := by
    obtain ⟨k, hk, rfl⟩ := Option.map_eq_some_iff.mp hrule
    -- the rule spells the whole template, so its property is kept beside that of the arguments
    have htype := ht
    cases ht with
    | template _ hts =>
      rw [List.forall_mem_map] at hts
      exact quiet_template hs hk htype fun a ha => ⟨hts a ha, hargs a ha (hts a ha)⟩
  -- the names of parameters only matter to the lambda that is read, which declares them
  func hparams hret ht := by
    cases ht with
    | func hnames htypes hline =>
      rw [List.forall_mem_map] at hnames htypes
      have hquiet := fun p hp => hparams p hp (htypes p hp)
      exact ⟨flows_pushFunction hquiet (hret hline),
        calm_takeFunction hnames htypes hquiet hline (hret hline)⟩
  object c ht := by
    cases ht with
    | object hname hnative => exact quiet_objectRule hs.module hname hnative
  record e ht := by
    cases ht with
    | record hname => exact quiet_recordRule hname
  enumeration e ht := by
    cases ht with
    | enumeration _ hnative => exact quiet_enumerationRule hnative
  opaqueType name ht := by
    cases ht with
    | opaqueType hname => exact quiet_opaqueRule hname
  keyType name ht := by
    cases ht with
    | keyType hname => exact quiet_keyTypeRule hs hname
  noPrimitive _ _ := Conversion.quiet_fail _
  noTemplate _ _ _ := Conversion.quiet_fail _

namespace Converter

variable {c : Converter}

/-- By induction over `depth`: the scope of a conversion has the conversions of the depth below it. -/
theorem quiet_convertTo (hmodule : OneLine c.module) (hmodel : c.model.OneLine)
    (htypes : c.model.OneLineTypes) (depth : Nat) {t : Ty} (ht : t.OneLine) :
    (c.convertTo depth t).Quiet := by
  induction depth generalizing t with
  | zero => exact Conversion.quiet_fail _
  | succ depth ih =>
    refine (keeps_quiet ⟨hmodule, fun hinfo hg => ?_, fun hinfo hu => ?_, fun hu => ?_⟩).convert t ht
    · obtain ⟨-, ⟨⟩⟩ := Option.ite_none_right_eq_some.mp hinfo
      exact ⟨(hmodel.alternatives _ hg).1, (hmodel.alternatives _ hg).2, ih (htypes.getters _ hg)⟩
    · obtain ⟨-, ⟨⟩⟩ := Option.ite_none_right_eq_some.mp hinfo
      exact ⟨htypes.ctors _ hu, ih (htypes.ctors _ hu)⟩
    · exact ih (htypes.keyTypes _ (Model.mem_of_keyType? hu))

/-- The conversion of a type on one line is quiet, for a model whose names and types are on one line. -/
theorem quiet_convert (hmodule : OneLine c.module) (hmodel : c.model.OneLine)
    (htypes : c.model.OneLineTypes) {t : Ty} (ht : t.OneLine) : (c.convert t).Quiet :=
  quiet_convertTo hmodule hmodel htypes _ ht

end Converter

end Lua

end LuaGlue
