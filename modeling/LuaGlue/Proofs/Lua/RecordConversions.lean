import LuaGlue.Lua.Record
import LuaGlue.Proofs.Model.Closure

/-!
# Records that conversions call

The conversion of a record calls the functions of that record. What else a conversion comes to is followed
by exchanging these functions for others.

- **Declared functions** (`CallsDeclared`): the rule for a record calls the functions that `pushHead` and
  `readHead` declare.
- **Other functions** (`Converter.convertWith`): conversions over any rule for records.
- **Dependence** (`Rules.convert_record_congr`, `rules_convert_congr`): the conversion of a type depends on
  that rule at the records in the type, and at those behind key types and alternatives of `Mixed`.
- **Closed models** (`Converter.convertWith_eq_convert`): all of these are records of the model, so no other
  record's functions are called.
- **Converted types** (`Converted`): those that the functions of records and classes convert are all bound.
-/

namespace LuaGlue

/-! ## Dependence -/

namespace Rules

variable {r : Rules} {ρ ρ' : EntityRef → Conversion}

mutual

/-- The conversion of a type depends on the rule for records at the records in it. -/
theorem convert_record_congr : ∀ {t : Ty}, (∀ e, (Ty.record e).Within t → ρ e = ρ' e) →
    { r with record := ρ }.convert t = { r with record := ρ' }.convert t
  | .modified .const t, h => by
    rw [convert, convert, convert_record_congr fun e he => h e (.inner he)]
  | .modified .ref t, h => by
    rw [convert, convert, convert_record_congr fun e he => h e (.inner he)]
  | .modified .rref t, h => by
    rw [convert, convert, convert_record_congr fun e he => h e (.inner he)]
  | .modified .pointer t, h => by
    rw [convert, convert, convert_record_congr fun e he => h e (.inner he)]
  | .primitive name, _ => rfl
  | .template name args, h => by
    rw [convert, convert, convertArgs_record_congr fun a ha e he => h e (.arg ha he)]
  | .func ⟨params, ret, quals⟩, h => by
    rw [convert, convert, convertParams_record_congr fun p hp e he => h e (.param hp he),
      convert_record_congr fun e he => h e (.ret he)]
  | .object c, _ => rfl
  | .record e, h => h e .self
  | .enumeration e, _ => rfl
  | .opaqueType name, _ => rfl
  | .keyType name, _ => rfl

theorem convertArgs_record_congr : ∀ {args : List Ty},
    (∀ a ∈ args, ∀ e, (Ty.record e).Within a → ρ e = ρ' e) →
      { r with record := ρ }.convertArgs args = { r with record := ρ' }.convertArgs args
  | [], _ => rfl
  | t :: ts, h => by
    rw [List.forall_mem_cons] at h
    rw [convertArgs, convertArgs, convert_record_congr h.1, convertArgs_record_congr h.2]

theorem convertParams_record_congr : ∀ {params : List (String × Ty)},
    (∀ p ∈ params, ∀ e, (Ty.record e).Within p.2 → ρ e = ρ' e) →
      { r with record := ρ }.convertParams params = { r with record := ρ' }.convertParams params
  | [], _ => rfl
  | (name, t) :: ps, h => by
    rw [List.forall_mem_cons] at h
    rw [convertParams, convertParams, convert_record_congr h.1, convertParams_record_congr h.2]

end

end Rules

namespace Lua

variable {s : Scope} {f : Ty → Conversion}

/-- The conversions are those of the scope where the rules ask for them. -/
structure Scope.Agrees (s : Scope) (f : Ty → Conversion) : Prop where
  getters {info g} : s.mixed = some info → g ∈ info.getters → f g.type = s.convert g.type
  ctors {info t} : s.mixed = some info → t ∈ info.ctors → f t = s.convert t
  keyTypes {name t} : s.keyType? name = some t → f t = s.convert t

theorem pushMixed_congr (h : s.Agrees f) {info : MixedInfo} (hinfo : s.mixed = some info) :
    pushMixed { s with convert := f } info = pushMixed s info := by
  funext e
  rw [pushMixed, pushMixed, Except.mapM_congr fun g hg => ?_]
  simp only [h.getters hinfo hg]

theorem takeMixed_congr (h : s.Agrees f) {info : MixedInfo} (hinfo : s.mixed = some info) :
    takeMixed { s with convert := f } info = takeMixed s info := by
  funext e
  rw [takeMixed, takeMixed, Except.mapM_congr fun t ht => ?_]
  simp only [takeMixedInstance, h.ctors hinfo ht]

/-- The rules depend on the conversions at key types and alternatives of `Mixed`. -/
theorem rules_convert_congr (h : s.Agrees f) : rules { s with convert := f } = rules s := by
  have hprimitive (k : PrimitiveKind) (name : String) :
      k.conversion { s with convert := f } name = k.conversion s name := by
    cases k with
    | mixed =>
      simp only [PrimitiveKind.conversion]
      split
      case h_1 info hinfo => rw [pushMixed_congr h hinfo, takeMixed_congr h hinfo]
      case h_2 => rfl
    | _ => rfl
  have htemplate (k : TemplateKind) (name : String) (args : List (Ty × Conversion)) :
      k.conversion { s with convert := f } name args = k.conversion s name args := by
    cases k <;> rfl
  have hkeyType (name : String) : keyTypeRule { s with convert := f } name = keyTypeRule s name := by
    rw [keyTypeRule, keyTypeRule]
    cases ht : s.keyType? name with
    | none => rfl
    | some t => simp only [h.keyTypes ht]
  simp only [rules, hprimitive, htemplate, funext hkeyType]

/-! ## Declared functions -/

/-- The conversion calls the functions whose names stand in `pushHead` and `readHead`, which declare them. -/
structure CallsDeclared (r : Record) (c : Conversion) : Prop where
  push : ∃ name, pushHead r = "static void " ++ name ++ "(lua_State* L, const " ++ r.ref.native.text ++ "& value)" ∧
    ∀ e, c.toHost e = .ok (name ++ "(L, " ++ e ++ ")")
  read : ∃ name, readHead r = "static " ++ r.ref.native.text ++ " " ++ name ++ "(lua_State* L, int idx)" ∧
    ∀ e, c.fromHost e = .ok (name ++ "(L, " ++ e ++ ")")

/-- The name of the declared function stands between its type and its parameters. -/
theorem pushHead_eq (r : Record) : pushHead r =
    "static void " ++ ("push_struct_" ++ r.ref.name) ++ "(lua_State* L, const " ++ r.ref.native.text ++ "& value)" := by
  have hword : "static void push_struct_" = "static void " ++ "push_struct_" := by simp
  unfold pushHead
  rw [hword]
  simp only [String.append_assoc]

theorem readHead_eq (r : Record) : readHead r =
    "static " ++ r.ref.native.text ++ " " ++ ("to_struct_" ++ r.ref.name) ++ "(lua_State* L, int idx)" := by
  have hword : " to_struct_" = " " ++ "to_struct_" := by simp
  unfold readHead
  rw [hword]
  simp only [String.append_assoc]

/-- The rule for a record is the one conversion that calls its declared functions. -/
theorem callsDeclared_iff {r : Record} {c : Conversion} : CallsDeclared r c ↔ c = recordRule r.ref := by
  constructor
  · rintro ⟨⟨push, hpush, hto⟩, read, hread, hfrom⟩
    rw [pushHead_eq] at hpush
    rw [readHead_eq] at hread
    simp only [String.append_assoc, String.append_right_inj] at hpush hread
    simp only [← String.append_assoc, String.append_left_inj] at hpush hread
    subst hpush hread
    cases c
    rw [recordRule, Conversion.mk.injEq]
    exact ⟨funext hto, funext hfrom⟩
  · rintro rfl
    exact ⟨⟨_, pushHead_eq r, fun _ => rfl⟩, _, readHead_eq r, fun _ => rfl⟩

/-! ## Other functions for records -/

namespace Converter

/-- The conversion of a type over a rule for records, which may go at most `depth` times through key types
and alternatives of `Mixed`. -/
def convertWithTo (c : Converter) (ρ : EntityRef → Conversion) : Nat → Ty → Conversion
  | 0, _ => .fail (.misfit .endlessType)
  | depth + 1, t => { c.rulesOver (c.convertWithTo ρ depth) with record := ρ }.convert t

/-- The conversion of a type over a rule for records. -/
def convertWith (c : Converter) (ρ : EntityRef → Conversion) (t : Ty) : Conversion :=
  c.convertWithTo ρ (2 * (c.model.keyTypes.length + 1) + 1) t

variable {c : Converter} {ρ ρ' : EntityRef → Conversion}

theorem convertWithTo_recordRule (depth : Nat) (t : Ty) :
    c.convertWithTo recordRule depth t = c.convertTo depth t := by
  induction depth generalizing t with
  | zero => rfl
  | succ depth ih =>
    rw [convertWithTo, convertTo, funext ih]
    rfl

/-! ## Closed models -/

/-- In a closed model the rule matters at the records of the model only. -/
theorem convertWithTo_congr {spec : Spec} {declared : List Class}
    (h : Model.BoundFrom spec declared c.model) (hρ : ∀ x ∈ c.model.records, ρ x.ref = ρ' x.ref)
    (depth : Nat) {t : Ty} (ht : c.model.BoundWithin spec t) :
    c.convertWithTo ρ depth t = c.convertWithTo ρ' depth t := by
  induction depth generalizing t with
  | zero => rfl
  | succ depth ih =>
    have hrules : c.rulesOver (c.convertWithTo ρ depth) = c.rulesOver (c.convertWithTo ρ' depth) := by
      rw [rulesOver, rulesOver]
      refine rules_convert_congr (s := ⟨_, _, _, c.convertWithTo ρ' depth⟩)
        ⟨fun hinfo hg => ?_, fun hinfo hu => ?_, fun hu => ?_⟩
      · obtain ⟨-, ⟨⟩⟩ := Option.ite_none_right_eq_some.mp hinfo
        exact ih (h.boundWithin_getter hg)
      · obtain ⟨-, ⟨⟩⟩ := Option.ite_none_right_eq_some.mp hinfo
        exact ih (h.boundWithin_ctor hu)
      · exact ih (h.boundWithin_underlying (Model.mem_of_keyType? hu))
    rw [convertWithTo, convertWithTo, hrules]
    refine Rules.convert_record_congr fun e he => ?_
    obtain ⟨-, x, hx, rfl⟩ := ht _ he
    exact hρ x (List.mem_filter.mp (hx ▸ List.mem_singleton_self x)).1

/-- The conversion of a type whose references are bound calls no functions of records but those of the
model. -/
theorem convertWith_eq_convert {spec : Spec} {declared : List Class}
    (h : Model.BoundFrom spec declared c.model) (hρ : ∀ x ∈ c.model.records, ρ x.ref = recordRule x.ref)
    {t : Ty} (ht : c.model.BoundWithin spec t) : c.convertWith ρ t = c.convert t := by
  rw [convertWith, convertWithTo_congr h hρ _ ht, convertWithTo_recordRule, convert]

end Converter

/-! ## Converted types -/

/-- The types that the functions of records and classes convert, one case for each place. -/
inductive Converted (m : Model) : Ty → Prop
  | field {r f} : r ∈ m.records → f ∈ r.fields → Converted m f.type
  | self {c} : c ∈ m.classes → Converted m (.object c.ref)
  -- an asynchronous method reads all but the last
  | param {c x p} : c ∈ m.classes → x ∈ c.methods → p ∈ x.sig.params → Converted m p.2
  | result {c x} : c ∈ m.classes → x ∈ c.methods → Converted m x.sig.ret
  | handler {c x cb p} : c ∈ m.classes → x ∈ c.methods → lastWrapped x = .ok (.func cb) → p ∈ cb.params →
      Converted m p.2
  | element {c t} : c ∈ m.classes → c.iterable = some t → Converted m t

theorem within_of_within_bare {u t : Ty} (h : u.Within t.bare) : u.Within t := by
  fun_induction Ty.bare t with
  | case1 t ih | case2 t ih | case3 t ih => exact .inner (ih h)
  | case4 => exact h

/-- What a completion handler receives stands in the signature of its method. -/
theorem within_of_lastWrapped {x : Method} {u w : Ty} (hw : lastWrapped x = .ok w) (hu : u.Within w) :
    u.Within (.func x.sig) := by
  unfold lastWrapped at hw
  split at hw
  · rename_i name t hlast
    split at hw
    · rename_i n args hbare
      cases args with
      | nil => cases hw
      | cons a args =>
        cases hw
        have hwithin : u.Within t := within_of_within_bare (hbare ▸ .arg List.mem_cons_self hu)
        exact .param (List.mem_of_getLast? hlast) hwithin
    · cases hw
  · cases hw

theorem boundWithin_of_converted {spec : Spec} {declared : List Class} {m : Model}
    (h : Model.BoundFrom spec declared m) {t : Ty} (ht : Converted m t) : m.BoundWithin spec t := by
  cases ht with
  | field hr hf => exact h.boundWithin_field hr hf
  | self hc =>
    obtain ⟨e, he, hbind⟩ := h.declares.exists_declaration (h.mem_classes.mp hc)
    rw [Spec.ref_of_bindClass hbind]
    exact h.boundWithin_class he
  | param hc hx hp => exact fun u hu => (h.boundWithin_member hc _ hx).2 u (.param hp hu)
  | result hc hx => exact fun u hu => (h.boundWithin_member hc _ hx).2 u (.ret hu)
  | handler hc hx hcb hp =>
    exact fun u hu => (h.boundWithin_member hc _ hx).2 u (within_of_lastWrapped hcb (.param hp hu))
  | element hc ht => exact h.boundWithin_iterable hc ht

end Lua

end LuaGlue
