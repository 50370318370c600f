import LuaGlue.Lua.Module
import LuaGlue.Proofs.Annotations.Type
import LuaGlue.Proofs.Conversion.Induction
import LuaGlue.Proofs.Lua.CallingConvention

/-!
# What can be converted can be annotated

Conversions and annotations have rules of their own for the same types. Annotations write every type that
can be converted in either direction, as long as `IgnoreArgument` stands around parameters only: from the
host its argument is not converted, and annotations leave no other place out.

- **Ignored arguments** (`Ty.IgnoresOnlyParams`): where `IgnoreArgument` may stand.
- **Types** (`Covered`): each rule for Lua keeps that what it converts is annotatable
  (`Lua.keeps_covered`), and so does each level of key types.
- **Modules** (`annotated_of_converted`): every type of the annotation file is one that the C++ unit converts.
-/

namespace LuaGlue

open Annotations (Annotatable Shape keyTypesTo)
open Code (Step)

/-! ## Ignored arguments -/

namespace Ty

mutual

/-- `IgnoreArgument` stands in the type only as the whole type of a parameter of a function. -/
inductive IgnoresOnlyParams : Ty → Prop
  | primitive {n} : IgnoresOnlyParams (.primitive n)
  | template {n args} : n ≠ ignoreArgumentName → (∀ a ∈ args, IgnoresOnlyParams a) →
      IgnoresOnlyParams (.template n args)
  | func {params ret quals} : (∀ p ∈ params, IgnorableParam p.2) → IgnoresOnlyParams ret →
      IgnoresOnlyParams (.func ⟨params, ret, quals⟩)
  | modified {m t} : IgnoresOnlyParams t → IgnoresOnlyParams (.modified m t)
  | object {c} : IgnoresOnlyParams (.object c)
  | record {r} : IgnoresOnlyParams (.record r)
  | enumeration {e} : IgnoresOnlyParams (.enumeration e)
  | opaqueType {n} : IgnoresOnlyParams (.opaqueType n)
  | keyType {n} : IgnoresOnlyParams (.keyType n)

/-- The type of a parameter, which may be ignored as a whole. -/
inductive IgnorableParam : Ty → Prop
  | ignored {args} : (∀ a ∈ args, IgnoresOnlyParams a) →
      IgnorableParam (.template ignoreArgumentName args)
  | supplied {t} : IgnoresOnlyParams t → IgnorableParam t

end

theorem IgnoresOnlyParams.inner {m : Modifier} {t : Ty} (h : (Ty.modified m t).IgnoresOnlyParams) :
    t.IgnoresOnlyParams := by
  cases h with
  | modified h => exact h

/-- Constness and references are no place for `IgnoreArgument`, so what lies behind them has the property if the
whole type has it. -/
theorem IgnoresOnlyParams.bare : ∀ {t : Ty}, t.IgnoresOnlyParams → t.bare.IgnoresOnlyParams
  | .modified .const _, h | .modified .ref _, h | .modified .rref _, h => h.inner.bare
  | .modified .pointer _, h | .primitive _, h | .template _ _, h | .func _, h | .object _, h | .record _, h
  | .enumeration _, h | .opaqueType _, h | .keyType _, h => h

theorem IgnoresOnlyParams.args {n : String} {args : List Ty} (h : (Ty.template n args).IgnoresOnlyParams) :
    ∀ a ∈ args, a.IgnoresOnlyParams := by
  cases h with
  | template _ hargs => exact hargs

theorem IgnoresOnlyParams.params {sig : Signature Ty} (h : (Ty.func sig).IgnoresOnlyParams) :
    ∀ p ∈ sig.params, p.2.IgnorableParam := by
  cases h with
  | func hparams _ => exact hparams

theorem IgnoresOnlyParams.ret {sig : Signature Ty} (h : (Ty.func sig).IgnoresOnlyParams) :
    sig.ret.IgnoresOnlyParams := by
  cases h with
  | func _ hret => exact hret

/-- A parameter that is modified is not ignored as a whole. -/
theorem IgnorableParam.inner {m : Modifier} {t : Ty} (h : (Ty.modified m t).IgnorableParam) :
    t.IgnoresOnlyParams := by
  cases h with
  | supplied h => exact h.inner

theorem IgnorableParam.args {n : String} {args : List Ty} (h : (Ty.template n args).IgnorableParam) :
    ∀ a ∈ args, a.IgnoresOnlyParams := by
  cases h with
  | ignored hargs => exact hargs
  | supplied h => exact h.args

theorem IgnorableParam.func {sig : Signature Ty} (h : (Ty.func sig).IgnorableParam) :
    (Ty.func sig).IgnoresOnlyParams := by
  cases h with
  | supplied h => exact h

/-- A parameter that annotations do not leave out is one that the host supplies. -/
theorem IgnorableParam.of_not_ignored {t : Ty} (h : t.IgnorableParam) (ht : ¬t.isIgnored) :
    t.IgnoresOnlyParams := by
  cases h with
  | ignored _ => exact absurd rfl ht
  | supplied h => exact h

end Ty

/-- `IgnoreArgument` stands in the types of the model only around parameters. -/
structure Model.IgnoresOnlyParams (m : Model) : Prop where
  field {r f} : r ∈ m.records → f ∈ r.fields → f.type.IgnoresOnlyParams
  keyType {k} : k ∈ m.keyTypes → k.2.IgnoresOnlyParams
  method {c x} : c ∈ m.classes → x ∈ c.methods → (Ty.func x.sig).IgnoresOnlyParams
  iterable {c t} : c ∈ m.classes → c.iterable = some t → t.IgnoresOnlyParams

/-! ## Rules -/

/-- The type is annotatable if some value of it can be carried to the host or from it. -/
structure Covered (known : String → Prop) (t : Ty) (c : Conversion) : Prop where
  toHost : t.IgnorableParam → ∀ {e v}, c.toHost e = .ok v → Annotatable known t
  fromHost : t.IgnoresOnlyParams → ∀ {e v}, c.fromHost e = .ok v → Annotatable known t

theorem Covered.of_annotatable {known : String → Prop} {t : Ty} (c : Conversion)
    (h : Annotatable known t) : Covered known t c :=
  ⟨fun _ _ _ _ => h, fun _ _ _ _ => h⟩

theorem Covered.fail {known : String → Prop} (t : Ty) (e : Error) : Covered known t (.fail e) :=
  ⟨fun _ _ _ => nofun, fun _ _ _ => nofun⟩

namespace Lua

variable {known : String → Prop}

/-- How annotations write a template that lives in Lua in this way. -/
def TemplateKind.shape : TemplateKind → Shape
  | .sharedPtr | .function | .ignored => .transparent
  | .optional | .nullable => .optional
  | .vector => .array
  | .tuple _ => .tuple
  | .map => .table

/-- Annotations know every template that conversions know, with the `TemplateKind.shape` of its kind. -/
theorem shape_of_ofName? {n : String} {k : TemplateKind} (h : TemplateKind.ofName? n = some k) :
    Shape.ofTemplate? n = some k.shape := by
  unfold TemplateKind.ofName? at h
  split at h <;> cases h <;> rfl

theorem name_of_ignored {n : String} (h : TemplateKind.ofName? n = some .ignored) :
    n = ignoreArgumentName := by
  unfold TemplateKind.ofName? at h
  split at h <;> cases h
  rfl

/-- A rule for the first argument covers a template that is written by it, if what the rule converts is
annotatable. Annotations look at the first argument too. -/
theorem covered_onFirst {n : String} {k : TemplateKind} {args : List (Ty × Conversion)}
    {rule : Ty → Conversion → Conversion} (hname : TemplateKind.ofName? n = some k)
    (hunary : k.shape.isUnary) (hargs : ∀ a ∈ args, Covered known a.1 a.2)
    (hto : ∀ {t c e v}, Covered known t c → t.IgnoresOnlyParams → (rule t c).toHost e = .ok v →
      Annotatable known t)
    (hfrom : ∀ {t c e v}, Covered known t c → t.IgnoresOnlyParams →
      (Ty.template n (args.map (·.1))).IgnoresOnlyParams → (rule t c).fromHost e = .ok v →
      Annotatable known t) :
    Covered known (.template n (args.map (·.1))) (onFirst args rule) := by
  cases args with
  | nil => exact .fail _ _
  | cons a args =>
    have hcovered := hargs a (by simp)
    constructor
    · intro h e v hv
      exact .unary (shape_of_ofName? hname) hunary (hto hcovered (h.args a.1 (by simp)) hv)
    · intro h e v hv
      exact .unary (shape_of_ofName? hname) hunary (hfrom hcovered (h.args a.1 (by simp)) h hv)

/-- A handle of a class is converted without the conversion of the class, but a class is always annotatable; for
any other type, `hc` decides. -/
theorem annotatable_of_sharedPtrRule {module : String} {t : Ty} {c : Conversion} {e v : String}
    (hc : Covered known t c) (ht : t.IgnoresOnlyParams)
    (h : (sharedPtrRule module t c).toHost e = .ok v ∨ (sharedPtrRule module t c).fromHost e = .ok v) :
    Annotatable known t := by
  have hpointee : (∀ e v, c.toHost e = .ok v → Annotatable known t) ∧
      ∀ e v, (do return "std::make_shared<" ++ (← t.cppText) ++ ">(" ++ (← c.fromHost e) ++ ")" :
        Except Error String) = .ok v → Annotatable known t := by
    refine ⟨fun e v hv => hc.toHost (.supplied ht) hv, fun e v hv => ?_⟩
    obtain ⟨_, -, hv⟩ := Except.bind_eq_ok.mp hv
    obtain ⟨value, hvalue, -⟩ := Except.bind_eq_ok.mp hv
    exact hc.fromHost ht hvalue
  cases t with
  | object _ => exact .object
  | _ => exact h.elim (hpointee.1 _ _) (hpointee.2 _ _)

/-- Every item of a tuple is converted, and every one is written. -/
theorem covered_tupleRule {n make : String} {args : List (Ty × Conversion)}
    (hname : TemplateKind.ofName? n = some (.tuple make)) (hargs : ∀ a ∈ args, Covered known a.1 a.2) :
    Covered known (.template n (args.map (·.1))) (tupleRule make args) := by
  constructor
  · intro h e v hv
    obtain ⟨items, hitems, -⟩ := Except.bind_eq_ok.mp hv
    refine .tuple (shape_of_ofName? hname) (List.forall_mem_map.mpr fun a ha => ?_)
    obtain ⟨i, _, hitem⟩ := Except.exists_of_mapM_zipIdx hitems ha
    obtain ⟨push, hpush, -⟩ := Except.bind_eq_ok.mp hitem
    exact (hargs a ha).toHost (.supplied (h.args a.1 (List.mem_map_of_mem ha))) hpush
  · intro h e v hv
    obtain ⟨reads, hreads, -⟩ := Except.bind_eq_ok.mp hv
    refine .tuple (shape_of_ofName? hname) (List.forall_mem_map.mpr fun a ha => ?_)
    obtain ⟨i, _, hread⟩ := Except.exists_of_mapM_zipIdx hreads ha
    obtain ⟨value, hvalue, -⟩ := Except.bind_eq_ok.mp hread
    exact (hargs a ha).fromHost (h.args a.1 (List.mem_map_of_mem ha)) hvalue

/-- Only a map of two arguments is converted, which is what annotations ask for. -/
theorem covered_mapRule {n : String} {type : Ty} {args : List (Ty × Conversion)}
    (hname : TemplateKind.ofName? n = some .map) (hargs : ∀ a ∈ args, Covered known a.1 a.2) :
    Covered known (.template n (args.map (·.1))) (mapRule type args) := by
  match args with
  | [key, value] =>
    have hkey := hargs key (by simp)
    have hvalue := hargs value (by simp)
    constructor
    · intro h e v hv
      obtain ⟨k, hk, hv⟩ := Except.bind_eq_ok.mp hv
      obtain ⟨w, hw, -⟩ := Except.bind_eq_ok.mp hv
      exact .table (shape_of_ofName? hname) (hkey.toHost (.supplied (h.args _ (by simp))) hk)
        (hvalue.toHost (.supplied (h.args _ (by simp))) hw)
    · intro h e v hv
      obtain ⟨_, -, hv⟩ := Except.bind_eq_ok.mp hv
      obtain ⟨k, hk, hv⟩ := Except.bind_eq_ok.mp hv
      obtain ⟨w, hw, -⟩ := Except.bind_eq_ok.mp hv
      exact .table (shape_of_ofName? hname) (hkey.fromHost (h.args _ (by simp)) hk)
        (hvalue.fromHost (h.args _ (by simp)) hw)
  | [] => exact .fail _ _
  | [_] => exact .fail _ _
  | _ :: _ :: _ :: _ => exact .fail _ _

/-- One case for each kind of template. An ignored argument is not converted from the host, so
`IgnoresOnlyParams` rules it out there. -/
theorem covered_template {s : Scope} {n : String} {k : TemplateKind} {args : List (Ty × Conversion)}
    (hname : TemplateKind.ofName? n = some k) (hargs : ∀ a ∈ args, Covered known a.1 a.2) :
    Covered known (.template n (args.map (·.1))) (k.conversion s n args) := by
  cases k with
  | sharedPtr =>
    refine covered_onFirst hname rfl hargs ?_ ?_
    · exact fun hc ht hv => annotatable_of_sharedPtrRule hc ht (.inl hv)
    · exact fun hc ht _ hv => annotatable_of_sharedPtrRule hc ht (.inr hv)
  | optional | nullable | vector =>
    refine covered_onFirst hname rfl hargs ?_ ?_
    · intro t c e v hc ht hv
      obtain ⟨push, hpush, -⟩ := Except.bind_eq_ok.mp hv
      exact hc.toHost (.supplied ht) hpush
    · intro t c e v hc ht _ hv
      obtain ⟨_, -, hv⟩ := Except.bind_eq_ok.mp hv
      obtain ⟨value, hvalue, -⟩ := Except.bind_eq_ok.mp hv
      exact hc.fromHost ht hvalue
  | tuple make => exact covered_tupleRule hname hargs
  | map => exact covered_mapRule hname hargs
  | function =>
    have hinner : Covered known (.template n (args.map (·.1))) (onFirst args fun _ inner => inner) :=
      covered_onFirst hname rfl hargs (fun hc ht hv => hc.toHost (.supplied ht) hv)
        fun hc ht _ hv => hc.fromHost ht hv
    refine ⟨hinner.toHost, fun h e v hv => ?_⟩
    obtain ⟨_, -, hv⟩ := Except.bind_eq_ok.mp hv
    obtain ⟨value, hvalue, -⟩ := Except.bind_eq_ok.mp hv
    exact hinner.fromHost h hvalue
  | ignored =>
    -- from the host the argument is not converted, but then the template stands around a parameter
    refine covered_onFirst hname rfl hargs (fun hc ht hv => hc.toHost (.supplied ht) hv) ?_
    intro t c e v _ _ h _
    cases h with
    | template hne _ => exact absurd (name_of_ignored hname) hne

/-- Parameters go the other way than the result. An ignored parameter is left out in annotations, so it need not
be covered. -/
theorem covered_func {params : List (String × Ty × Conversion)} {ret : Ty} {c : Conversion}
    {quals : Qualifiers} (hparams : ∀ p ∈ params, Covered known p.2.1 p.2.2)
    (hret : Covered known ret c) :
    Covered known (.func ⟨params.map fun p => (p.1, p.2.1), ret, quals⟩)
      ⟨pushFunction ⟨params, (ret, c), quals⟩, takeFunction ⟨params, (ret, c), quals⟩⟩ := by
  constructor
  · intro h e v hv
    obtain ⟨args, hargs, hv⟩ := Except.bind_eq_ok.mp hv
    obtain ⟨body, hbody, -⟩ := Except.ite_bind_eq_ok.mp hv
    refine .func (List.forall_mem_map.mpr fun p hp hsupplied => ?_) fun hvoid => ?_
    · obtain ⟨i, value, hvalue⟩ := Except.exists_of_mapM_zipIdx hargs hp
      have hignorable := h.func.params _ (List.mem_map_of_mem hp)
      exact (hparams p hp).fromHost (hignorable.of_not_ignored hsupplied) hvalue
    · rw [if_neg hvoid] at hbody
      obtain ⟨push, hpush, -⟩ := Except.map_eq_ok.mp hbody
      exact hret.toHost (.supplied h.func.ret) hpush
  · intro h e v hv
    obtain ⟨_, -, hv⟩ := Except.bind_eq_ok.mp hv
    obtain ⟨pushes, hpushes, hv⟩ := Except.bind_eq_ok.mp hv
    obtain ⟨value, hvalue, -⟩ := Except.ite_bind_eq_ok.mp hv
    refine .func (List.forall_mem_map.mpr fun p hp _ => ?_) fun hvoid => ?_
    · obtain ⟨_, -, hpush⟩ := Except.exists_of_mapM hpushes hp
      obtain ⟨push, hpush, -⟩ := Except.bind_eq_ok.mp hpush
      exact (hparams p hp).toHost (h.params _ (List.mem_map_of_mem hp)) hpush
    · rw [if_neg hvoid] at hvalue
      obtain ⟨result, hresult, -⟩ := Except.map_eq_ok.mp hvalue
      exact hret.fromHost h.ret hresult

theorem fromHost_of_rrefFromHost {t : Ty} {inner : Conversion} {e v : String}
    (h : rrefFromHost t inner e = .ok v) : ∃ value, inner.fromHost e = .ok value := by
  obtain ⟨value, hvalue, -⟩ := Except.bind_eq_ok.mp h
  exact ⟨value, hvalue⟩

/-- Each rule covers its type, if the key types whose underlying type can be converted are `known`. -/
theorem keeps_covered {s : Scope} (hkey : ∀ {n u e v}, s.keyType? n = some u →
      (s.convert u).toHost e = .ok v ∨ (s.convert u).fromHost e = .ok v → known n) :
    (rules s).Keeps (Covered known) where
  -- a modifier is transparent to both; a parameter that is modified is one that the host supplies
  const h := ⟨fun ht _ _ hv => .modified (h.toHost (.supplied ht.inner) hv),
    fun ht _ _ hv => .modified (h.fromHost ht.inner hv)⟩
  ref h := ⟨fun ht _ _ hv => .modified (h.toHost (.supplied ht.inner) hv),
    fun ht _ _ hv => .modified (h.fromHost ht.inner hv)⟩
  rref h := by
    refine ⟨fun ht _ _ hv => .modified (h.toHost (.supplied ht.inner) hv), fun ht e v hv => ?_⟩
    obtain ⟨value, hvalue⟩ := fromHost_of_rrefFromHost hv
    exact .modified (h.fromHost ht.inner hvalue)
  pointer h := by
    refine ⟨fun ht _ _ hv => .modified (h.toHost (.supplied ht.inner) hv), fun ht e v hv => ?_⟩
    obtain ⟨value, hvalue, -⟩ := Except.bind_eq_ok.mp hv
    exact .modified (h.fromHost ht.inner hvalue)
  primitive _ := .of_annotatable _ .primitive
  template hrule hargs := by
    obtain ⟨k, hname, rfl⟩ := Option.map_eq_some_iff.mp hrule
    exact covered_template hname hargs
  func hparams hret := covered_func hparams hret
  object _ := .of_annotatable _ .object
  record _ := .of_annotatable _ .record
  enumeration _ := .of_annotatable _ .enumeration
  opaqueType _ := .of_annotatable _ .opaqueType
  -- the type behind a key type was converted, so the key type is known
  keyType name := by
    cases hu : s.keyType? name with
    | none => simp only [rules, keyTypeRule, hu]; exact .fail _ _
    | some u =>
      simp only [rules, keyTypeRule, hu]
      refine ⟨fun _ e v hv => .keyType (hkey hu (.inl hv)), fun _ e v hv => ?_⟩
      obtain ⟨value, hvalue, -⟩ := Except.bind_eq_ok.mp hv
      exact .keyType (hkey hu (.inr hvalue))
  noPrimitive _ := .fail _ _
  noTemplate _ _ := .fail _ _

namespace Converter

variable {c : Converter}

/-- What a conversion through so many key types can carry is annotatable through as many. By induction over the
depth. -/
theorem covered_convertTo (hkeys : ∀ k ∈ c.model.keyTypes, k.2.IgnoresOnlyParams) (depth : Nat) (t : Ty) :
    Covered (keyTypesTo c.model depth) t (c.convertTo depth t) := by
  induction depth generalizing t with
  | zero => exact .fail _ _
  | succ depth ih =>
    refine (keeps_covered fun {n u e v} hu hv => ?_).convert t
    have hignores := hkeys _ (Model.mem_of_keyType? hu)
    refine ⟨u, hu, ?_⟩
    rcases hv with hv | hv
    · exact (ih u).toHost (.supplied hignores) hv
    · exact (ih u).fromHost hignores hv

/-- Conversions may go through more levels than annotations: key types that are `known` at the greater depth are
bounded by their number. -/
theorem covered_convert (hkeys : ∀ k ∈ c.model.keyTypes, k.2.IgnoresOnlyParams) (t : Ty) :
    Covered (keyTypesTo c.model (2 * (c.model.keyTypes.length + 1) + 1)) t (c.convert t) :=
  covered_convertTo hkeys _ t

end Converter

/-- A completion handler hands the value that its callback receives to the host, by the lines of `resumeLines`.
-/
theorem toHost_of_completionHandler {c : Converter} {m : Method} {cb : Signature Ty} {rest : List Ty}
    {value err : String × Ty} {handler : String}
    (hcall : m.sig.asyncCallback? = some (.func cb :: rest)) (hparams : cb.params = [value, err])
    (h : completionHandler c m = .ok handler) :
    ∃ push, (c.convert value.2).toHost ("std::move(" ++ value.1 ++ ")") = .ok push := by
  rw [completionHandler, lastWrapped_of_asyncCallback? hcall, Except.ok_bind] at h
  obtain ⟨_, -, h⟩ := Except.bind_eq_ok.mp h
  rw [hparams] at h
  obtain ⟨_, -, h⟩ := Except.bind_eq_ok.mp h
  obtain ⟨resume, hresume, -⟩ := Except.bind_eq_ok.mp h
  obtain ⟨push, hpush, -⟩ := Except.bind_eq_ok.mp hresume
  exact ⟨push, hpush⟩

end Lua

/-! ## Modules -/

namespace Annotations

open Lua (Converter)

variable {module : String} {c : Converter}

theorem spellType_of_toHost (hm : c.model.IgnoresOnlyParams) {t : Ty} (ht : t.IgnoresOnlyParams)
    {e v : String} (h : (c.convert t).toHost e = .ok v) :
    ∃ text, spellType module c.model t = .ok text :=
  spellType_ok ((Converter.covered_convert (fun _ => hm.keyType) t).toHost (.supplied ht) h)

theorem spellType_of_fromHost (hm : c.model.IgnoresOnlyParams) {t : Ty} (ht : t.IgnoresOnlyParams)
    {e v : String} (h : (c.convert t).fromHost e = .ok v) :
    ∃ text, spellType module c.model t = .ok text :=
  spellType_ok ((Converter.covered_convert (fun _ => hm.keyType) t).fromHost ht h)

/-- A callable is converted by its adapter, and any other field where it is read, so each field of a record is
converted from the host. -/
theorem recordLines_ok (hm : c.model.IgnoresOnlyParams) {r : Record} (hr : r ∈ c.model.records)
    {steps : List Step} (h : Lua.recordFunctions c r = .ok steps) :
    ∃ lines, recordLines module c.model r = .ok lines := by
  obtain ⟨adapters, hadapters, h⟩ := Except.bind_eq_ok.mp h
  obtain ⟨_, -, h⟩ := Except.bind_eq_ok.mp h
  obtain ⟨_, hread, -⟩ := Except.bind_eq_ok.mp h
  obtain ⟨reads, hreads, -⟩ := Except.bind_eq_ok.mp hread
  refine Except.bind_pure_ok_iff.mpr (Except.mapM_ok_iff.mpr fun f hf => ?_)
  obtain ⟨_, -, hfield⟩ := Except.exists_of_mapM hreads hf
  obtain ⟨name, hname, hfield⟩ := Except.bind_eq_ok.mp hfield
  obtain ⟨value, hvalue, -⟩ := Except.ite_bind_eq_ok.mp hfield
  refine Except.bind_bind_pure_ok_iff.mpr ⟨⟨name, hname⟩, ?_⟩
  by_cases hfunction : f.type.isFunction
  · obtain ⟨_, -, hadapter⟩ := Except.exists_of_mapM hadapters (List.mem_filter.mpr ⟨hf, hfunction⟩)
    obtain ⟨_, -, hadapter⟩ := Except.bind_eq_ok.mp hadapter
    obtain ⟨callable, hcallable, -⟩ := Except.bind_eq_ok.mp hadapter
    exact spellType_of_fromHost hm (hm.field hr hf) hcallable
  · rw [if_neg hfunction] at hvalue
    exact spellType_of_fromHost hm (hm.field hr hf) hvalue

section

variable {m : Method} {steps : List Step}

/-- A value that a method gives was handed to the host by `callNative`. -/
theorem spellType_ret (hm : c.model.IgnoresOnlyParams) (hsig : (Ty.func m.sig).IgnoresOnlyParams)
    (h : Lua.wrapper c m = .ok steps) : ∃ text, spellType module c.model m.sig.ret = .ok text := by
  by_cases hvoid : m.sig.ret.isVoid
  · rw [Ty.isVoid_iff.mp hvoid]
    exact spellType_ok (.primitive : Annotatable (keyTypesTo c.model 0) _)
  obtain ⟨async, _, _, args, call, hasync, -, -, hcall, -⟩ := Lua.exists_of_wrapper h
  cases async with
  | none =>
    unfold Lua.callNative at hcall
    simp only [Option.isSome_none, Bool.false_eq_true, if_false, hvoid] at hcall
    obtain ⟨push, hpush, -⟩ := Except.bind_eq_ok.mp hcall
    exact spellType_of_toHost hm hsig.ret hpush
  | some sig =>
    obtain ⟨_, _, _, hsome, -⟩ := Signature.async?_eq_some hasync
    have hret := (Signature.asyncCallback?_eq_some.mp hsome).1
    exact absurd (Ty.isVoid_iff.mpr hret) hvoid

/-- What an asynchronous method resumes with was handed to the host by its completion handler. -/
theorem spellType_resumed (hm : c.model.IgnoresOnlyParams) (hsig : (Ty.func m.sig).IgnoresOnlyParams)
    {cb : Signature Ty} {rest : List Ty} {result : Ty} {args : List String}
    (hsome : m.sig.asyncCallback? = some (.func cb :: rest))
    (hresult : callbackResult (.func cb) cb.params = .ok result)
    (hcall : Lua.callNative c m true args = .ok steps) :
    ∃ text, spellType module c.model result = .ok text := by
  rcases callbackResult_eq_ok hresult with ⟨err, -, rfl⟩ | ⟨value, err, hparams, hresumed⟩
  · exact spellType_ok (.primitive : Annotatable (keyTypesTo c.model 0) _)
  · obtain ⟨handler, hhandler, -⟩ := Except.bind_eq_ok.mp hcall
    obtain ⟨push, hpush⟩ := Lua.toHost_of_completionHandler hsome hparams hhandler
    -- the callback stands in the last parameter, which is not ignored
    obtain ⟨-, p, hlast, hbare⟩ := Signature.asyncCallback?_eq_some.mp hsome
    have hp : p.2.IgnoresOnlyParams := by
      refine (hsig.params p (List.mem_of_getLast? hlast)).of_not_ignored fun hignored => ?_
      cases ht : p.2 with
      | template n ts =>
        rw [ht] at hbare hignored
        cases hbare
        cases hignored
      | _ => rw [ht] at hignored; cases hignored
    have hcb : (Ty.func cb).IgnoresOnlyParams := by
      have hcallback := hp.bare
      rw [hbare] at hcallback
      exact hcallback.args _ (by simp)
    have hvalue := hcb.params value (by simp [hparams])
    have hcovered := Converter.covered_convert (fun _ => hm.keyType) value.2
    exact spellType_ok ((hcovered.toHost hvalue hpush).resumedWith hresumed)

/-- The wrapper of a method reads each argument that the host supplies. -/
theorem spellType_visible (hm : c.model.IgnoresOnlyParams) (hsig : (Ty.func m.sig).IgnoresOnlyParams)
    {async : Option (Signature Ty)} (hasync : m.sig.async? = .ok async) {idx : Nat} {reads : List Step}
    {args : List String} (hreads : Lua.readParams c idx (async.getD m.sig).params = .ok (reads, args))
    {p : String × Ty} (hp : p ∈ (async.getD m.sig).visible) :
    ∃ text, spellType module c.model p.2 = .ok text := by
  obtain ⟨hp, hsupplied⟩ := List.mem_filter.mp hp
  have hsupplied : ¬p.2.isIgnored := by simpa using hsupplied
  have hmem : p ∈ m.sig.params := by
    cases async with
    | none => exact hp
    | some sig =>
      obtain ⟨_, _, _, -, -, rfl⟩ := Signature.async?_eq_some hasync
      exact List.mem_of_mem_dropLast hp
  have htype := (hsig.params p hmem).of_not_ignored hsupplied
  obtain ⟨xs, hparams, hvalid, -⟩ := Lua.readParams_eq_ok hreads
  obtain ⟨x, hx, rfl⟩ := List.mem_map.mp (hparams ▸ hp)
  have hread := hvalid x hx
  unfold Lua.Read.Valid at hread
  split at hread
  · obtain ⟨-, text, -, hok, -⟩ := hread
    exact spellType_of_fromHost hm htype (hok "")
  · exact absurd hread.1 hsupplied

/-- Whether the method is asynchronous decides which conversion covers the type that the host receives. -/
theorem exists_received (hm : c.model.IgnoresOnlyParams) (hsig : (Ty.func m.sig).IgnoresOnlyParams)
    (h : Lua.wrapper c m = .ok steps) {async : Option (Signature Ty)} (hasync : m.sig.async? = .ok async)
    {args : List String} {call : List Step} (hcall : Lua.callNative c m async.isSome args = .ok call) :
    ∃ received, receivedType (async.getD m.sig).ret = .ok received ∧
      ∃ text, spellType module c.model received = .ok text := by
  cases async with
  | none =>
    have hnone := Signature.async?_eq_none.mp hasync
    exact ⟨_, receivedType_of_not_async (Lua.ret_of_wrapper h hnone), spellType_ret hm hsig h⟩
  | some sig =>
    obtain ⟨cb, rest, result, hsome, hresult, rfl⟩ := Signature.async?_eq_some hasync
    exact ⟨result, rfl, spellType_resumed hm hsig hsome hresult hcall⟩

/-- A method is written with its visible parameters and what the host receives, and the wrapper converts each of
them. -/
theorem methodLines_ok (hm : c.model.IgnoresOnlyParams) (hsig : (Ty.func m.sig).IgnoresOnlyParams)
    (h : Lua.wrapper c m = .ok steps) (owner : String) :
    ∃ lines, methodLines module c.model owner m = .ok lines := by
  obtain ⟨async, _, _, args, call, hasync, -, hreads, hcall, -⟩ := Lua.exists_of_wrapper h
  obtain ⟨params, hparams⟩ : ∃ lines, (async.getD m.sig).visible.mapM (fun p => do
      return "---@param " ++ Lua.safeName p.1 ++ " " ++ (← spellType module c.model p.2)) = .ok lines :=
    Except.mapM_ok_iff.mpr fun p hp =>
      Except.bind_pure_ok_iff.mpr (spellType_visible hm hsig hasync hreads hp)
  obtain ⟨received, hreceived, text, htext⟩ := exists_received hm hsig h hasync hcall
  simp only [methodLines, hasync, Except.ok_bind, hparams, hreceived]
  split
  · exact ⟨_, rfl⟩
  · rw [htext]
    exact ⟨_, rfl⟩

end

/-- The lines of a class are those of its members and its element type; the functions of the class convert all
of these. -/
theorem classLines_ok (hm : c.model.IgnoresOnlyParams) {cls : Class} (hcls : cls ∈ c.model.classes)
    {steps : List Step} (h : Lua.classFunctions c cls = .ok steps) :
    ∃ lines, classLines module c.model cls = .ok lines := by
  obtain ⟨wrappers, hwrappers, h⟩ := Except.bind_eq_ok.mp h
  obtain ⟨properties, hproperties⟩ : ∃ lines, (cls.methods.filter (·.isProperty)).mapM (fun m => do
      return "---@field " ++ m.displayName ++ " " ++ (← spellType module c.model m.sig.ret)) =
        .ok lines := by
    refine Except.mapM_ok_iff.mpr fun m hmem => Except.bind_pure_ok_iff.mpr ?_
    have hmem := (List.mem_filter.mp hmem).1
    obtain ⟨_, -, hwrapper⟩ := Except.exists_of_mapM hwrappers hmem
    exact spellType_ret hm (hm.method hcls hmem) hwrapper
  obtain ⟨methods, hmethods⟩ : ∃ lines, (cls.methods.filter (!·.isProperty)).mapM (fun m => do
      return "" :: (← methodLines module c.model (module ++ "." ++ cls.name) m)) = .ok lines := by
    refine Except.mapM_ok_iff.mpr fun m hmem => Except.bind_pure_ok_iff.mpr ?_
    have hmem := (List.mem_filter.mp hmem).1
    obtain ⟨_, -, hwrapper⟩ := Except.exists_of_mapM hwrappers hmem
    exact methodLines_ok hm (hm.method hcls hmem) hwrapper _
  simp only [classLines, hproperties, hmethods, Except.ok_bind]
  cases hiterable : cls.iterable with
  | none => exact ⟨_, rfl⟩
  | some t =>
    simp only [hiterable] at h
    obtain ⟨_, hiterator, -⟩ := Except.bind_eq_ok.mp h
    obtain ⟨_, -, hiterator⟩ := Except.bind_eq_ok.mp hiterator
    obtain ⟨push, hpush, -⟩ := Except.bind_eq_ok.mp hiterator
    exact Except.bind_pure_ok_iff.mpr (spellType_of_toHost hm (hm.iterable hcls hiterable) hpush)

theorem render_ok (hm : c.model.IgnoresOnlyParams) {records classes : List (List Step)}
    (hrecords : c.model.records.mapM (Lua.recordFunctions c) = .ok records)
    (hclasses : c.model.classes.mapM (Lua.classFunctions c) = .ok classes) :
    ∃ text, render module c.model = .ok text := by
  refine Except.bind_pure_ok_iff.mpr (Except.bind_bind_pure_ok_iff.mpr ⟨?_, ?_⟩)
  · refine Except.mapM_ok_iff.mpr fun r hr => ?_
    obtain ⟨_, -, hsteps⟩ := Except.exists_of_mapM hrecords hr
    exact recordLines_ok hm hr hsteps
  · refine Except.mapM_ok_iff.mpr fun cls hcls => ?_
    obtain ⟨_, -, hsteps⟩ := Except.exists_of_mapM hclasses hcls
    exact classLines_ok hm hcls hsteps

end Annotations

/-- **What can be converted can be annotated.** If the C++ unit of a model can be written, so can its
annotations, and a type that can be carried to the host or from it can be written in them. -/
theorem annotated_of_converted {model : Model} (hm : model.IgnoresOnlyParams) (module : String) :
    (∀ unit, Lua.render module model = .ok unit → ∃ text, Annotations.render module model = .ok text) ∧
      ∀ (c : Lua.Converter) (t : Ty) (e v : String), c.model = model → t.IgnoresOnlyParams →
        (c.convert t).toHost e = .ok v ∨ (c.convert t).fromHost e = .ok v →
        ∃ text, Annotations.spellType module model t = .ok text := by
  constructor
  · intro unit h
    obtain ⟨steps, hunit, -⟩ := Except.bind_eq_ok.mp h
    obtain ⟨_, -, hunit⟩ := Except.bind_eq_ok.mp hunit
    obtain ⟨records, hrecords, hunit⟩ := Except.bind_eq_ok.mp hunit
    obtain ⟨classes, hclasses, -⟩ := Except.bind_eq_ok.mp hunit
    exact Annotations.render_ok (c := ⟨module, model, true⟩) hm hrecords hclasses
  · rintro c t e v rfl ht (h | h)
    · exact Annotations.spellType_of_toHost hm ht h
    · exact Annotations.spellType_of_fromHost hm ht h

/-- A class whose asynchronous method takes a key and an argument that the host does not supply, with a
record that holds such a callable. -/
def ledger : Spec where
  primitives := [.str "void", .str "int", .str "Status"]
  templates := [(.str "AsyncCallback", .exact 1), (.str "std::function", .exact 1),
    (.str "IgnoreArgument", .exact 1), (.str "util::Optional", .exact 1)]
  keyTypes := [(.str "Ref", .named "Key"), (.str "Key", .named "int")]
  records := [(.str "Options", {
    native := .str "Options"
    fields := [(.str "onEntry", {
      type := .template "std::function"
        [.func ⟨[("flags", .template "IgnoreArgument" [.named "int"]), ("at", .named "Ref")], .named "void", {}⟩]
      native := .str "onEntry"
      default := none })] })]
  classes := [(.str "Ledger", {
    native := .str "Ledger"
    base := .null
    handle := .null
    methods := [(.str "find", [{
      sig := ⟨[("flags", .template "IgnoreArgument" [.named "int"]), ("at", .named "Ref"),
        ("done", .template "AsyncCallback"
          [.func ⟨[("value", .template "util::Optional" [.named "int"]), ("err", .named "Status")],
            .named "void", {}⟩])], .named "void", {}⟩ }])]
    statics := [] })]

/-- Annotations leave the ignored arguments out and write the key behind two key types. -/
theorem annotated_of_converted_ledger :
    ∃ model unit text, Model.ofSpec ledger = .ok model ∧ model.IgnoresOnlyParams ∧
      Lua.render "app" model = .ok unit ∧ Annotations.render "app" model = .ok text := by
  have hflags : (Ty.template ignoreArgumentName [.primitive "int"]).IgnorableParam :=
    .ignored (List.forall_mem_singleton.mpr .primitive)
  have hunary {n : String} {t : Ty} (hn : n ≠ ignoreArgumentName) (ht : t.IgnoresOnlyParams) :
      (Ty.template n [t]).IgnoresOnlyParams := .template hn (List.forall_mem_singleton.mpr ht)
  have hcallback : (Ty.template "AsyncCallback" [.func ⟨[("value", .template "util::Optional"
      [.primitive "int"]), ("err", .primitive "Status")], .void, {}⟩]).IgnoresOnlyParams :=
    hunary (by decide) (.func (List.forall_mem_cons.mpr ⟨.supplied (hunary (by decide) .primitive),
      List.forall_mem_singleton.mpr (.supplied .primitive)⟩) .primitive)
  obtain ⟨model, hmodel, hm⟩ : ∃ model, Model.ofSpec ledger = .ok model ∧ model.IgnoresOnlyParams := by
    refine ⟨_, rfl, ?_, ?_, ?_, ?_⟩
    · intro r f hr hf
      cases List.mem_singleton.mp hr
      cases List.mem_singleton.mp hf
      exact hunary (by decide) (.func (List.forall_mem_cons.mpr ⟨hflags,
        List.forall_mem_singleton.mpr (.supplied .keyType)⟩) .primitive)
    · intro k hk
      rcases List.mem_pair.mp hk with rfl | rfl
      · exact .keyType
      · exact .primitive
    · intro c x hc hx
      cases List.mem_singleton.mp hc
      cases List.mem_singleton.mp hx
      exact .func (List.forall_mem_cons.mpr ⟨hflags, List.forall_mem_cons.mpr ⟨.supplied .keyType,
        List.forall_mem_singleton.mpr (.supplied hcallback)⟩⟩) .primitive
    · intro c t hc ht
      cases List.mem_singleton.mp hc
      cases ht
  obtain ⟨unit, hunit⟩ : ∃ unit, Lua.render "app" model = .ok unit := by
    cases hmodel
    exact ⟨_, rfl⟩
  obtain ⟨text, htext⟩ := (annotated_of_converted hm "app").1 unit hunit
  exact ⟨model, unit, text, hmodel, hm, hunit, htext⟩

end LuaGlue
