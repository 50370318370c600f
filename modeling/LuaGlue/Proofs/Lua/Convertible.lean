import LuaGlue.Proofs.Cpp.Spellable
import LuaGlue.Proofs.Lua.LinearConversion
import LuaGlue.Proofs.Model.Async

/-!
# Types that can be converted

Whether the rules of Lua convert a type is decided part by part, from the ways in which its parts are
converted and from their C++ spellings. The expression that is converted does not matter.

- **Ways** (`Way`, `Conversion.Goes`): to the host and from it.
- **Templates** (`Scope.converts_template_iff`): each kind of template goes by the same way into its arguments,
  and what is made from the host is spelled in C++.
- **Functions** (`Scope.converts_func_iff`): the way turns around at parameters.
- **Entities**: an error only goes to the host (`Scope.converts_error_iff`), a shared class outside of a handle
  only comes from it (`Scope.converts_object_iff`).
- **Levels** (`Converter.scope`, `Converter.carries_iff`): what the rules go by at each depth of key types.
-/

namespace LuaGlue

/-! ## Ways -/

/-- A way to convert values. -/
inductive Way where
  | toHost
  | fromHost
  deriving DecidableEq, Repr

/-- The other way. -/
def Way.turn : Way → Way
  | .toHost => .fromHost
  | .fromHost => .toHost

namespace Conversion

/-- The conversion by one way. -/
def go (c : Conversion) : Way → String → Except Error String
  | .toHost => c.toHost
  | .fromHost => c.fromHost

/-- The conversion gives a text for every expression. -/
def Goes (c : Conversion) (w : Way) : Prop := ∀ e, ∃ v, c.go w e = .ok v

/-- One expression tells whether the conversion gives a text: a `Regular` conversion fails for every expression
or for none. -/
theorem Regular.goes_iff {c : Conversion} (h : c.Regular) (w : Way) (e : String) :
    (∃ v, c.go w e = .ok v) ↔ c.Goes w := by
  refine ⟨fun ⟨v, hv⟩ e' => ?_, fun hall => hall e⟩
  cases w with
  | toHost =>
    rcases h.toHost with ⟨err, herr⟩ | ⟨pre, post, hok⟩
    · exact absurd (hv.symm.trans (herr e)) (by simp)
    · exact ⟨_, hok e'⟩
  | fromHost =>
    rcases h.fromHost with ⟨err, herr⟩ | hok
    · exact absurd (hv.symm.trans (herr e)) (by simp)
    · exact hok e'

theorem not_goes_fail {err : Error} {w : Way} : ¬(Conversion.fail err).Goes w := by
  intro h
  obtain ⟨v, hv⟩ := h ""
  cases w <;> cases hv

end Conversion

theorem Rules.convertParams_eq_map (r : Rules) (params : List (String × Ty)) :
    r.convertParams params = params.map fun p => (p.1, p.2, r.convert p.2) := by
  induction params with
  | nil => rfl
  | cons p ps ih => rw [convertParams, List.map_cons, ih]

/-- The type is a class whose instances are owned through shared handles. -/
def Ty.IsShared (t : Ty) : Prop := ∃ c, t = .object c ∧ c.shared

namespace Lua

variable {s : Scope} {w : Way} {t : Ty} {c inner : Conversion}

/-! ## Templates -/

/-- A rule that converts one part, and spells a type where it makes a value from the host. Three rules for
templates are of this form. -/
theorem goes_spelled (hc : c.Regular) (hinner : inner.Regular) {e e' : String}
    (hto : (∃ v, c.toHost "" = .ok v) ↔ ∃ v, inner.toHost e = .ok v)
    (hfrom : (∃ v, c.fromHost "" = .ok v) ↔
      (∃ x, t.cppText = .ok x) ∧ ∃ v, inner.fromHost e' = .ok v) :
    c.Goes w ↔ inner.Goes w ∧ (w = .fromHost → t.Spellable) := by
  rw [← hc.goes_iff w ""]
  cases w with
  | toHost =>
    rw [← hinner.goes_iff .toHost e]
    exact hto.trans (and_iff_left nofun).symm
  | fromHost =>
    rw [← hinner.goes_iff .fromHost e', and_comm, forall_prop_of_true rfl, ← Ty.cppText_ok_iff]
    exact hfrom

/-- A handle of a shared class is converted both ways without its class, any other as what it points to. -/
theorem goes_sharedPtrRule (module : String) (h : inner.Regular) :
    (sharedPtrRule module t inner).Goes w ↔ t.IsShared ∨ inner.Goes w ∧ (w = .fromHost → t.Spellable) := by
  have hregular := regular_sharedPtrRule module t h
  by_cases hshared : t.IsShared
  · obtain ⟨cls, rfl, hcls⟩ := hshared
    refine iff_of_true (fun e => ?_) (.inl ⟨cls, rfl, hcls⟩)
    simp only [sharedPtrRule, hcls, if_true]
    cases w <;> exact ⟨_, rfl⟩
  · rw [or_iff_right hshared]
    have hpointee : sharedPtrRule module t inner = {
        toHost := fun e => inner.toHost ("*(" ++ e ++ ")")
        fromHost := fun e =>
          return "std::make_shared<" ++ (← t.cppText) ++ ">(" ++ (← inner.fromHost e) ++ ")" } := by
      unfold sharedPtrRule
      split
      · rename_i cls
        rw [if_neg fun hcls => hshared ⟨cls, rfl, hcls⟩]
      · rfl
    rw [hpointee] at hregular ⊢
    exact goes_spelled hregular h Iff.rfl Except.bind_bind_pure_ok_iff

theorem goes_optionalRule (h : inner.Regular) :
    (optionalRule t inner).Goes w ↔ inner.Goes w ∧ (w = .fromHost → t.Spellable) :=
  goes_spelled (regular_optionalRule t inner) h Except.bind_pure_ok_iff Except.bind_bind_pure_ok_iff

theorem goes_nullableRule (h : inner.Regular) :
    (nullableRule t inner).Goes w ↔ inner.Goes w ∧ (w = .fromHost → t.Spellable) :=
  goes_spelled (regular_nullableRule t inner) h Except.bind_pure_ok_iff Except.bind_bind_pure_ok_iff

theorem goes_vectorRule (h : inner.Regular) :
    (vectorRule t inner).Goes w ↔ inner.Goes w ∧ (w = .fromHost → t.Spellable) :=
  goes_spelled (regular_vectorRule t inner) h Except.bind_pure_ok_iff Except.bind_bind_pure_ok_iff

theorem exists_mapM_zipIdx_iff {α β : Type} {l : List α} {f : α × Nat → Except Error β} {Q : α → Prop}
    (h : ∀ a ∈ l, ∀ i, (∃ b, f (a, i) = .ok b) ↔ Q a) :
    (∃ bs, l.zipIdx.mapM f = .ok bs) ↔ ∀ a ∈ l, Q a := by
  rw [Except.mapM_ok_iff]
  constructor
  · intro hall a ha
    obtain ⟨i, hi⟩ := List.mem_iff_getElem?.mp ha
    exact (h a ha i).mp (hall (a, i) (List.mk_mem_zipIdx_iff_getElem?.mpr hi))
  · intro hall p hp
    have ha := List.fst_mem_of_mem_zipIdx hp
    exact (h p.1 ha p.2).mpr (hall p.1 ha)

variable {args : List (Ty × Conversion)}

/-- A tuple is converted if its items are; its spelling is not needed, as it is made by a call. -/
theorem goes_tupleRule (make : String) (h : ∀ a ∈ args, a.2.Regular) :
    (tupleRule make args).Goes w ↔ ∀ a ∈ args, a.2.Goes w := by
  rw [← (regular_tupleRule make args).goes_iff w ""]
  cases w with
  | toHost =>
    refine Except.bind_pure_ok_iff.trans (exists_mapM_zipIdx_iff fun a ha i => ?_)
    exact Except.bind_pure_ok_iff.trans ((h a ha).goes_iff .toHost _)
  | fromHost =>
    refine Except.bind_pure_ok_iff.trans (exists_mapM_zipIdx_iff fun a ha i => ?_)
    exact Except.bind_pure_ok_iff.trans ((h a ha).goes_iff .fromHost _)

/-- A map needs its key, its value and, from the host, its own spelling. -/
theorem goes_mapRule {key value : Ty × Conversion} (hkey : key.2.Regular) (hvalue : value.2.Regular) :
    (mapRule t [key, value]).Goes w ↔
      key.2.Goes w ∧ value.2.Goes w ∧ (w = .fromHost → t.Spellable) := by
  rw [← (regular_mapRule t [key, value]).goes_iff w ""]
  cases w with
  | toHost =>
    rw [← hkey.goes_iff .toHost "k", ← hvalue.goes_iff .toHost "v"]
    refine Except.bind_bind_pure_ok_iff.trans (and_congr_right' ?_)
    exact (and_iff_left nofun).symm
  | fromHost =>
    rw [← hkey.goes_iff .fromHost "-2", ← hvalue.goes_iff .fromHost "-1", forall_prop_of_true rfl,
      ← Ty.cppText_ok_iff]
    constructor
    · rintro ⟨v, hv⟩
      obtain ⟨x, hx, hv⟩ := Except.bind_eq_ok.mp hv
      obtain ⟨hk, hval⟩ := Except.bind_bind_pure_ok_iff.mp ⟨v, hv⟩
      exact ⟨hk, hval, x, hx⟩
    · rintro ⟨hk, hval, x, hx⟩
      obtain ⟨v, hv⟩ := Except.bind_bind_pure_ok_iff.mpr ⟨hk, hval⟩
      exact ⟨v, Except.bind_eq_ok.mpr ⟨x, hx, hv⟩⟩

theorem goes_functionRule {a : Ty × Conversion} {rest : List (Ty × Conversion)}
    (h : ∀ b ∈ a :: rest, b.2.Regular) :
    (functionRule t (a :: rest)).Goes w ↔ a.2.Goes w ∧ (w = .fromHost → t.Spellable) :=
  goes_spelled (regular_functionRule t h) (h a (by simp)) Iff.rfl Except.bind_bind_pure_ok_iff

theorem not_goes_functionRule_nil : ¬(functionRule t []).Goes w := by
  intro h
  obtain ⟨v, hv⟩ := h ""
  cases w with
  | toHost => cases hv
  | fromHost =>
    obtain ⟨x, -, hv⟩ := Except.bind_eq_ok.mp hv
    cases hv

/-- From the host an ignored argument is not converted but made, so only its spelling is needed. -/
theorem goes_ignoredRule (h : inner.Regular) :
    (ignoredRule t inner).Goes w ↔ if w = .toHost then inner.Goes w else t.Spellable := by
  rw [← (regular_ignoredRule t h).goes_iff w ""]
  cases w with
  | toHost => exact h.goes_iff .toHost ""
  | fromHost => exact Except.bind_pure_ok_iff.trans Ty.cppText_ok_iff

theorem name_of_sharedPtr {n : String} (h : TemplateKind.ofName? n = some .sharedPtr) : n = sharedPtrName := by
  unfold TemplateKind.ofName? at h
  split at h <;> cases h
  rfl

/-- What a template of the kind needs to be converted, given which types are. From the host, the type that is
made is spelled: the template itself, or its first argument. -/
def TemplateKind.Needs (w : Way) (n : String) (args : List Ty) (converts : Ty → Prop) :
    TemplateKind → Prop
  | .sharedPtr => ∃ a rest, args = a :: rest ∧
      (a.IsShared ∨ converts a ∧ (w = .fromHost → a.Spellable))
  | .optional | .function => ∃ a rest, args = a :: rest ∧
      converts a ∧ (w = .fromHost → (Ty.template n args).Spellable)
  | .nullable | .vector => ∃ a rest, args = a :: rest ∧ converts a ∧ (w = .fromHost → a.Spellable)
  | .tuple _ => ∀ a ∈ args, converts a
  | .map => ∃ key value, args = [key, value] ∧
      converts key ∧ converts value ∧ (w = .fromHost → (Ty.template n args).Spellable)
  | .ignored => ∃ a rest, args = a :: rest ∧ if w = .toHost then converts a else a.Spellable

namespace Scope

/-- The types behind key types and alternatives use their expression as they should. -/
def IsRegular (s : Scope) : Prop := ∀ t, (s.convert t).Regular

theorem IsRegular.convert (h : s.IsRegular) (t : Ty) : ((rules s).convert t).Regular :=
  (keeps_rules h).convert t

/-- The rules convert the type by the given way. -/
def Converts (s : Scope) (w : Way) (t : Ty) : Prop := ((rules s).convert t).Goes w

variable {n : String} {args : List Ty}

/-- A rule for the first argument needs that there is one. Its other arguments do not matter. -/
theorem goes_onFirst_iff {rule : Ty → Conversion → Conversion} :
    (onFirst ((rules s).convertArgs args) rule).Goes w ↔
      ∃ a rest, args = a :: rest ∧ (rule a ((rules s).convert a)).Goes w := by
  cases args with
  | nil => exact iff_of_false Conversion.not_goes_fail (by simp)
  | cons a rest => simp [Rules.convertArgs, onFirst]

/-- What each kind of template needs, collected in `TemplateKind.Needs`: one case for each kind, by the lemma of
its rule. -/
theorem goes_template_iff (h : s.IsRegular) (k : TemplateKind) :
    (k.conversion s n ((rules s).convertArgs args)).Goes w ↔ k.Needs w n args (s.Converts w) := by
  have hregular : ∀ a ∈ (rules s).convertArgs args, a.2.Regular := by
    rw [Rules.convertArgs_eq_map]
    exact List.forall_mem_map.mpr fun a _ => h.convert a
  cases k with
  | tuple make =>
    refine (goes_tupleRule make hregular).trans ?_
    rw [Rules.convertArgs_eq_map, List.forall_mem_map]
    rfl
  | map =>
    rw [TemplateKind.conversion, Rules.types_convertArgs]
    match args with
    | [key, value] =>
      rw [Rules.convertArgs_eq_map]
      refine (goes_mapRule (h.convert key) (h.convert value)).trans ?_
      constructor
      · exact fun hgoes => ⟨key, value, rfl, hgoes⟩
      · rintro ⟨key, value, heq, hgoes⟩
        cases heq
        exact hgoes
    -- no other number of arguments makes a map
    | [] | [_] | _ :: _ :: _ :: _ =>
      refine iff_of_false Conversion.not_goes_fail ?_
      rintro ⟨key, value, heq, -⟩
      cases heq
  | sharedPtr => simp only [TemplateKind.conversion, goes_onFirst_iff, goes_sharedPtrRule, h.convert]; rfl
  | nullable => simp only [TemplateKind.conversion, goes_onFirst_iff, goes_nullableRule, h.convert]; rfl
  | vector => simp only [TemplateKind.conversion, goes_onFirst_iff, goes_vectorRule, h.convert]; rfl
  | ignored => simp only [TemplateKind.conversion, goes_onFirst_iff, goes_ignoredRule, h.convert]; rfl
  | optional =>
    rw [TemplateKind.conversion, Rules.types_convertArgs, goes_onFirst_iff]
    simp only [goes_optionalRule, h.convert]
    rfl
  -- the rule itself takes the first argument, not `onFirst`, since it spells the whole template as well
  | function =>
    rw [TemplateKind.conversion, Rules.types_convertArgs]
    cases args with
    | nil => exact iff_of_false not_goes_functionRule_nil (by simp [TemplateKind.Needs])
    | cons a rest =>
      refine (goes_functionRule hregular).trans ?_
      simp [TemplateKind.Needs, Converts]

/-- **Templates.** A template without a kind is not converted. -/
theorem converts_template_iff (h : s.IsRegular) : s.Converts w (.template n args) ↔
    ∃ k, TemplateKind.ofName? n = some k ∧ k.Needs w n args (s.Converts w) := by
  rw [Converts, Rules.convert]
  cases hk : TemplateKind.ofName? n with
  | none =>
    simp only [rules, hk, Option.map_none, reduceCtorEq, false_and, exists_false, iff_false]
    exact Conversion.not_goes_fail
  | some k =>
    simp only [rules, hk, Option.map_some, Option.some.injEq, exists_eq_left']
    exact goes_template_iff h k

/-! ## Constness, references and pointers -/

/-- Moving what is read does not change whether it is read. -/
theorem goes_rref :
    (Conversion.mk inner.toHost (rrefFromHost t inner)).Goes w ↔ inner.Goes w := by
  cases w with
  | toHost => exact Iff.rfl
  | fromHost =>
    refine forall_congr' fun e => ?_
    show (∃ v, rrefFromHost t inner e = .ok v) ↔ ∃ v, inner.fromHost e = .ok v
    constructor
    · rintro ⟨v, hv⟩
      obtain ⟨u, hu, -⟩ := Except.bind_eq_ok.mp hv
      exact ⟨u, hu⟩
    · rintro ⟨u, hu⟩
      rw [rrefFromHost, hu, Except.ok_bind]
      split <;> exact ⟨_, rfl⟩

/-- Constness, references and pointers are converted as what they are put on. -/
theorem converts_modified_iff (h : s.IsRegular) {m : Modifier} :
    s.Converts w (.modified m t) ↔ s.Converts w t := by
  cases m with
  | const | ref => exact Iff.rfl
  | rref => exact goes_rref
  | pointer =>
    have hinner := h.convert t
    show (pointerRule ((rules s).convert t)).Goes w ↔ _
    rw [← (regular_pointerRule hinner).goes_iff w ""]
    cases w with
    | toHost => exact hinner.goes_iff .toHost _
    | fromHost => exact Except.bind_pure_ok_iff.trans (hinner.goes_iff .fromHost "")

/-! ## Functions -/

theorem converts_void : s.Converts w .void := by
  intro e
  cases w <;> exact ⟨_, rfl⟩

variable {params : List (String × Ty × Conversion)} {ret : Ty} {quals : Qualifiers}

/-- The result of a function is left out if it is `void`, which could be converted too. -/
theorem exists_result_iff {α : Type} (hinner : inner.Regular) (hvoid : ret.isVoid → inner.Goes w) {a : α}
    {f : String → α} {e : String} :
    (∃ x, (if ret.isVoid then .ok a else (inner.go w e).map f) = .ok x) ↔ inner.Goes w := by
  by_cases hret : ret.isVoid
  · simp [hret, hvoid hret]
  · rw [← hinner.goes_iff w e, if_neg hret]
    simp [Except.map_eq_ok]

/-- A native callable goes to the host by reading its arguments from there. The result of a `void` function is
not pushed, but could be by `hvoid`. -/
theorem pushFunction_ok_iff (hparams : ∀ p ∈ params, p.2.2.Regular) (hinner : inner.Regular)
    (hvoid : ret.isVoid → inner.Goes .toHost) {e : String} :
    (∃ v, pushFunction ⟨params, (ret, inner), quals⟩ e = .ok v) ↔
      (∀ p ∈ params, p.2.2.Goes .fromHost) ∧ inner.Goes .toHost := by
  have hreads : (∃ args, (params.zipIdx.mapM fun a => a.1.2.2.fromHost (toString (a.2 + 1))) = .ok args) ↔
      ∀ p ∈ params, p.2.2.Goes .fromHost :=
    exists_mapM_zipIdx_iff fun p hp i => (hparams p hp).goes_iff .fromHost _
  constructor
  · rintro ⟨v, hv⟩
    obtain ⟨args, hargs, hv⟩ := Except.bind_eq_ok.mp hv
    obtain ⟨body, hbody, -⟩ := Except.ite_bind_eq_ok.mp hv
    exact ⟨hreads.mp ⟨args, hargs⟩, (exists_result_iff hinner hvoid).mp ⟨body, hbody⟩⟩
  · rintro ⟨hall, hgoes⟩
    obtain ⟨args, hargs⟩ := hreads.mpr hall
    obtain ⟨body, hbody⟩ := (exists_result_iff hinner hvoid).mpr hgoes
    exact ⟨_, Except.bind_eq_ok.mpr ⟨args, hargs, Except.ite_bind_eq_ok.mpr ⟨body, hbody, rfl⟩⟩⟩

/-- A Lua function is made native by pushing its arguments and reading its result, and by spelling all types of
the lambda. -/
theorem takeFunction_ok_iff (hparams : ∀ p ∈ params, p.2.2.Regular) (hinner : inner.Regular)
    (hvoid : ret.isVoid → inner.Goes .fromHost) {e : String} :
    (∃ v, takeFunction ⟨params, (ret, inner), quals⟩ e = .ok v) ↔
      (∀ p ∈ params, p.2.2.Goes .toHost) ∧ inner.Goes .fromHost ∧
        (∀ p ∈ params, p.2.1.Spellable) ∧ ret.Spellable := by
  have hdeclare : (∃ decls, declareParams (params.map fun p => (p.1, p.2.1)) = .ok decls) ↔
      ∀ p ∈ params, p.2.1.Spellable := by
    rw [declareParams_ok_iff, List.forall_mem_map]
  have hpushes : (∃ pushes, (params.mapM fun p => do return (← p.2.2.toHost p.1) ++ ";\n") = .ok pushes) ↔
      ∀ p ∈ params, p.2.2.Goes .toHost :=
    Except.mapM_ok_iff.trans (forall₂_congr fun p hp =>
      Except.bind_pure_ok_iff.trans ((hparams p hp).goes_iff .toHost p.1))
  constructor
  · rintro ⟨v, hv⟩
    obtain ⟨decls, hdecls, hv⟩ := Except.bind_eq_ok.mp hv
    obtain ⟨pushes, hpushed, hv⟩ := Except.bind_eq_ok.mp hv
    obtain ⟨result, hresult, hv⟩ := Except.ite_bind_eq_ok.mp hv
    obtain ⟨cpp, hcpp, -⟩ := Except.bind_eq_ok.mp hv
    exact ⟨hpushes.mp ⟨pushes, hpushed⟩, (exists_result_iff hinner hvoid).mp ⟨result, hresult⟩,
      hdeclare.mp ⟨decls, hdecls⟩, Ty.cppText_ok_iff.mp ⟨cpp, hcpp⟩⟩
  · rintro ⟨hall, hgoes, hspelled, hret⟩
    obtain ⟨decls, hdecls⟩ := hdeclare.mpr hspelled
    obtain ⟨pushes, hpushed⟩ := hpushes.mpr hall
    obtain ⟨result, hresult⟩ := (exists_result_iff hinner hvoid).mpr hgoes
    obtain ⟨cpp, hcpp⟩ := Ty.cppText_ok_iff.mpr hret
    exact ⟨_, Except.bind_eq_ok.mpr ⟨decls, hdecls, Except.bind_eq_ok.mpr ⟨pushes, hpushed,
      Except.ite_bind_eq_ok.mpr ⟨result, hresult, Except.bind_eq_ok.mpr ⟨cpp, hcpp, rfl⟩⟩⟩⟩⟩

/-- **Functions.** The parameters go the other way. From the host, all that a native function is declared by is
spelled. -/
theorem converts_func_iff (h : s.IsRegular) {params : List (String × Ty)} :
    s.Converts w (.func ⟨params, ret, quals⟩) ↔
      (∀ p ∈ params, s.Converts w.turn p.2) ∧ s.Converts w ret ∧
        (w = .fromHost → (∀ p ∈ params, p.2.Spellable) ∧ ret.Spellable) := by
  have hregular : ∀ p ∈ (rules s).convertParams params, p.2.2.Regular := by
    rw [Rules.convertParams_eq_map]
    exact List.forall_mem_map.mpr fun p _ => h.convert p.2
  have hvoid (w : Way) (hret : ret.isVoid) : s.Converts w ret := Ty.isVoid_iff.mp hret ▸ converts_void
  rw [Converts, ← (h.convert _).goes_iff w "", Rules.convert]
  cases w with
  | toHost =>
    refine (pushFunction_ok_iff hregular (h.convert ret) (hvoid .toHost)).trans ?_
    rw [Rules.convertParams_eq_map, List.forall_mem_map]
    exact and_congr_right' (and_iff_left nofun).symm
  | fromHost =>
    refine (takeFunction_ok_iff hregular (h.convert ret) (hvoid .fromHost)).trans ?_
    rw [Rules.convertParams_eq_map, List.forall_mem_map, List.forall_mem_map, forall_prop_of_true rfl]
    exact Iff.rfl

/-! ## Entities -/

/-- A class goes to the host unless it is shared, and always comes from it. -/
theorem converts_object_iff {c : ClassRef} :
    s.Converts w (.object c) ↔ (w = .toHost → ¬c.shared) := by
  have hrule : (rules s).convert (.object c) = objectRule s.module c := by
    rw [Rules.convert]; rfl
  rw [Converts, hrule]
  by_cases hc : c.shared
  · cases w with
    | toHost =>
      refine iff_of_false (fun h => ?_) fun h => h rfl hc
      obtain ⟨v, hv⟩ := h ""
      cases (if_pos hc).symm.trans hv
    | fromHost => exact iff_of_true (fun e => ⟨_, if_pos hc⟩) nofun
  · refine iff_of_true (fun e => ?_) fun _ => hc
    cases w with
    | toHost => exact ⟨_, if_neg hc⟩
    | fromHost =>
      by_cases hderef : c.needsDeref
      · exact ⟨_, (if_neg hc).trans (if_pos hderef)⟩
      · exact ⟨_, (if_neg hc).trans (if_neg hderef)⟩

/-- A key type is converted as the type behind it, one level lower. -/
theorem converts_keyType_iff (h : s.IsRegular) :
    s.Converts w (.keyType n) ↔ ∃ t, s.keyType? n = some t ∧ (s.convert t).Goes w := by
  have hrule : (rules s).convert (.keyType n) = keyTypeRule s n := by
    rw [Rules.convert]; rfl
  rw [Converts, hrule, keyTypeRule]
  cases hkey : s.keyType? n with
  | none => simp [Conversion.not_goes_fail]
  | some t =>
    simp only [Option.some.injEq, exists_eq_left']
    cases w with
    | toHost => exact ⟨fun hgoes => ((h t).goes_iff .toHost _).mp (hgoes ""), fun hgoes e => hgoes _⟩
    | fromHost => exact forall_congr' fun e => Except.bind_pure_ok_iff

/-- An error is raised when it goes to the host, and there is no rule to read one. -/
theorem converts_error_iff (hn : PrimitiveKind.ofName? n = some .error) :
    s.Converts w (.primitive n) ↔ w = .toHost := by
  have hrule : (rules s).convert (.primitive n) = PrimitiveKind.error.conversion s n := by
    rw [Rules.convert]
    simp only [rules, hn, Option.map_some]
  rw [Converts, hrule]
  cases w with
  | toHost => exact iff_of_true (fun _ => ⟨_, rfl⟩) rfl
  | fromHost =>
    refine iff_of_false (fun h => ?_) nofun
    obtain ⟨v, hv⟩ := h ""
    cases hv

end Scope

/-! ## Levels -/

namespace Converter

variable {c : Converter} {depth : Nat}

/-- What the rules go by one level above the given depth. -/
def scope (c : Converter) (depth : Nat) : Scope where
  module := c.module
  mixed := if c.knowsMixed then some c.model.mixed else none
  keyType? := c.model.keyType?
  convert := c.convertTo depth

theorem isRegular_scope : (c.scope depth).IsRegular := c.regular_convertTo depth

/-- The expression is converted as one of the type. -/
def Carries (c : Converter) (w : Way) (t : Ty) (e : String) : Prop := ∃ v, (c.convert t).go w e = .ok v

/-- A type is converted by the rules at the highest level, which is the one that `Converter.convert` starts
from. -/
theorem carries_iff {e : String} :
    c.Carries w t e ↔ (c.scope (2 * (c.model.keyTypes.length + 1))).Converts w t :=
  (c.regular_convertTo _ t).goes_iff w e

end Converter

end Lua

end LuaGlue
