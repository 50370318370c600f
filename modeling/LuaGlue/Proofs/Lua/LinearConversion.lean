import LuaGlue.Lua.Rules
import LuaGlue.Proofs.Conversion.Induction
import LuaGlue.Proofs.Except

/-!
# Conversions use their expression once

What is written for a type does not depend on the expression that is converted, but for the place where
the expression stands.

- **To the host** (`Linear`): the same error for every expression, or the expression between two fixed
  texts. A native call that is converted is neither dropped nor made twice.
- **From the host** (`Uniform`): the same error for every expression, or none for any.
- **Every type** (`Converter.regular_convert`): each rule keeps both (`keeps_rules`), and so does each
  level of key types and alternatives of `Mixed`.
-/

namespace LuaGlue

/-! ## Texts around an expression -/

/-- The same error for every expression, or the expression between two fixed texts. -/
def Linear (f : String → Except Error String) : Prop :=
  (∃ err, ∀ e, f e = .error err) ∨ ∃ pre post, ∀ e, f e = .ok (pre ++ e ++ post)

/-- The same error for every expression, or a text for every expression. -/
def Uniform (f : String → Except Error String) : Prop :=
  (∃ err, ∀ e, f e = .error err) ∨ ∀ e, ∃ v, f e = .ok v

namespace Linear

variable {f g : String → Except Error String}

theorem error (err : Error) : Linear fun _ => .error err := .inl ⟨err, fun _ => rfl⟩

theorem ok {g : String → String} (pre post : String) (h : ∀ e, g e = pre ++ e ++ post) :
    Linear fun e => .ok (g e) :=
  .inr ⟨pre, post, fun e => congrArg _ (h e)⟩

/-- Text around the expression is text around what it is converted to, so a rule that hands on `"*(" ++ e ++
")"` stays `Linear`. -/
theorem around (h : Linear f) (before after : String) : Linear fun e => f (before ++ e ++ after) := by
  rcases h with ⟨err, herr⟩ | ⟨pre, post, hok⟩
  · exact .inl ⟨err, fun e => herr _⟩
  · refine .inr ⟨pre ++ before, after ++ post, fun e => ?_⟩
    simp only [hok, String.append_assoc]

/-- A step that does not use the expression fails for all of them or for none. -/
theorem after {α : Type} {g : α → String → Except Error String} (x : Except Error α)
    (h : ∀ a, Linear (g a)) : Linear fun e => x >>= fun a => g a e := by
  cases x with
  | error err => exact error err
  | ok a => exact h a

theorem ite {p : Prop} [Decidable p] (hf : Linear f) (hg : Linear g) :
    Linear fun e => if p then f e else g e := by
  split
  · exact hf
  · exact hg

end Linear

namespace Uniform

variable {f g : String → Except Error String}

theorem error (err : Error) : Uniform fun _ => .error err := .inl ⟨err, fun _ => rfl⟩

theorem ok (g : String → String) : Uniform fun e => .ok (g e) := .inr fun e => ⟨g e, rfl⟩

/-- What is made of a text cannot fail: a rule that writes around the text of another one fails exactly where
that one does. -/
theorem write (h : Uniform f) (g : String → String → String) :
    Uniform fun e => f e >>= fun v => pure (g e v) := by
  rcases h with ⟨err, herr⟩ | hok
  · exact .inl ⟨err, fun e => by simp only [herr, Except.error_bind]⟩
  · refine .inr fun e => ?_
    obtain ⟨v, hv⟩ := hok e
    exact ⟨g e v, Except.bind_eq_ok.mpr ⟨v, hv, rfl⟩⟩

theorem after {α : Type} {g : α → String → Except Error String} (x : Except Error α)
    (h : ∀ a, Uniform (g a)) : Uniform fun e => x >>= fun a => g a e := by
  cases x with
  | error err => exact error err
  | ok a => exact h a

theorem ite {p : Prop} [Decidable p] (hf : Uniform f) (hg : Uniform g) :
    Uniform fun e => if p then f e else g e := by
  split
  · exact hf
  · exact hg

end Uniform

/-- Both ways use the expression as they should. -/
structure Conversion.Regular (c : Conversion) : Prop where
  toHost : Linear c.toHost
  fromHost : Uniform c.fromHost

theorem Conversion.regular_fail (err : Error) : (Conversion.fail err).Regular :=
  ⟨.error err, .error err⟩

namespace Lua

/-- An applied lambda evaluates its argument once, whatever its body. -/
theorem linear_applied (head body : String) : Linear fun e => .ok (applied head body e) :=
  .ok ("[&] " ++ head ++ " \x7b" ++ body ++ "\x7d(") ")" fun _ => rfl

/-! ## Primitives -/

theorem linear_pushMixed (s : Scope) (info : MixedInfo) : Linear (pushMixed s info) :=
  .after _ fun _ => linear_applied _ _

theorem uniform_takeMixed (s : Scope) (info : MixedInfo) : Uniform (takeMixed s info) :=
  .after _ fun _ => .ok _

/-- Every primitive has its expression at one place. `Mixed` fails for all expressions if its alternatives are
not known. -/
theorem regular_primitive (s : Scope) (name : String) (k : PrimitiveKind) :
    (k.conversion s name).Regular := by
  cases k with
  | void => exact ⟨.ok "((void)(" "), lua_pushnil(L))" fun _ => rfl, .ok _⟩
  | bool => exact ⟨.ok "lua_pushboolean(L, " ")" fun _ => rfl, .ok _⟩
  | integer => exact ⟨.ok "lua_pushinteger(L, lua_Integer(" "))" fun _ => rfl, .ok _⟩
  | number => exact ⟨.ok "lua_pushnumber(L, lua_Number(" "))" fun _ => rfl, .ok _⟩
  | text owned => exact ⟨linear_applied _ _, .ok _⟩
  | binary owned =>
    refine ⟨?_, .ok _⟩
    cases owned with
    | true => exact (linear_applied _ _).around "(" ").get()"
    | false => exact linear_applied _ _
  | mixed =>
    rw [PrimitiveKind.conversion]
    split
    · exact ⟨linear_pushMixed _ _, uniform_takeMixed _ _⟩
    · exact Conversion.regular_fail _
  | error => exact ⟨.ok "bindgen_lua::push_error(L, " ")" fun _ => rfl, .error _⟩

/-! ## Templates -/

/-- A rule that needs the first argument of its template keeps what the conversion of this argument has, and
fails for every expression without one. -/
theorem regular_onFirst {args : List (Ty × Conversion)} {rule : Ty → Conversion → Conversion}
    (hargs : ∀ a ∈ args, a.2.Regular) (hrule : ∀ t c, c.Regular → (rule t c).Regular) :
    (onFirst args rule).Regular := by
  cases args with
  | nil => exact Conversion.regular_fail _
  | cons a rest => exact hrule a.1 a.2 (hargs a (by simp))

/-- A shared handle is pushed as it is. Any other pointer is dereferenced first, and the expression stands once
inside `*(..)`. -/
theorem regular_sharedPtrRule (module : String) (t : Ty) {inner : Conversion} (h : inner.Regular) :
    (sharedPtrRule module t inner).Regular := by
  have hpointee : Conversion.Regular {
      toHost := fun e => inner.toHost ("*(" ++ e ++ ")")
      fromHost := fun e => return "std::make_shared<" ++ (← t.cppText) ++ ">("
        ++ (← inner.fromHost e) ++ ")" } :=
    ⟨h.toHost.around "*(" ")", .after _ fun _ => h.fromHost.write _⟩
  simp only [sharedPtrRule]
  split
  case h_1 c =>
    split
    · exact ⟨.ok ("bindgen_lua::push_shared<" ++ c.native.text ++ ">(L, ")
        (", \"" ++ metatable module c.name ++ "\")") fun e => by simp only [String.append_assoc], .ok _⟩
    · exact hpointee
  case h_2 => exact hpointee

theorem regular_optionalRule (type : Ty) (inner : Conversion) : (optionalRule type inner).Regular :=
  ⟨.after _ fun _ => linear_applied _ _, .after _ fun _ => .after _ fun _ => .ok _⟩

theorem regular_nullableRule (t : Ty) (inner : Conversion) : (nullableRule t inner).Regular :=
  ⟨.after _ fun _ => linear_applied _ _, .after _ fun _ => .after _ fun _ => .ok _⟩

theorem regular_vectorRule (t : Ty) (inner : Conversion) : (vectorRule t inner).Regular :=
  ⟨.after _ fun _ => linear_applied _ _, .after _ fun _ => .after _ fun _ => .ok _⟩

theorem regular_tupleRule (make : String) (args : List (Ty × Conversion)) :
    (tupleRule make args).Regular :=
  ⟨.after _ fun _ => linear_applied _ _, .after _ fun _ => .ok _⟩

theorem regular_mapRule (type : Ty) (args : List (Ty × Conversion)) :
    (mapRule type args).Regular := by
  simp only [mapRule]
  split
  · exact ⟨.after _ fun _ => .after _ fun _ => linear_applied _ _,
      .after _ fun _ => .after _ fun _ => .after _ fun _ => .ok _⟩
  · exact Conversion.regular_fail _

theorem regular_functionRule (type : Ty) {args : List (Ty × Conversion)}
    (hargs : ∀ a ∈ args, a.2.Regular) : (functionRule type args).Regular := by
  have hinner : (onFirst args fun _ inner => inner).Regular := regular_onFirst hargs fun _ _ h => h
  exact ⟨hinner.toHost, .after _ fun _ => hinner.fromHost.write _⟩

theorem regular_ignoredRule (t : Ty) {inner : Conversion} (h : inner.Regular) :
    (ignoredRule t inner).Regular :=
  ⟨h.toHost, .after _ fun _ => .ok _⟩

/-- Each kind of template keeps the property of its arguments. Containers pass their arguments other
expressions, so only the outermost place counts. -/
theorem regular_template (s : Scope) (name : String) {args : List (Ty × Conversion)}
    (hargs : ∀ a ∈ args, a.2.Regular) (k : TemplateKind) : (k.conversion s name args).Regular := by
  cases k with
  | sharedPtr => exact regular_onFirst hargs fun t _ h => regular_sharedPtrRule _ t h
  | optional => exact regular_onFirst hargs fun _ inner _ => regular_optionalRule _ inner
  | nullable => exact regular_onFirst hargs fun t inner _ => regular_nullableRule t inner
  | vector => exact regular_onFirst hargs fun t inner _ => regular_vectorRule t inner
  | tuple make => exact regular_tupleRule make args
  | map => exact regular_mapRule _ args
  | function => exact regular_functionRule _ hargs
  | ignored => exact regular_onFirst hargs fun t _ h => regular_ignoredRule t h

/-! ## Entities and functions -/

theorem regular_pointerRule {inner : Conversion} (h : inner.Regular) : (pointerRule inner).Regular :=
  ⟨h.toHost.around "*(" ")", h.fromHost.write _⟩

/-- What is read is moved or not by the type alone, so `rrefFromHost` fails for an expression if the conversion
behind it does. -/
theorem uniform_rrefFromHost (t : Ty) {inner : Conversion} (h : inner.Regular) :
    Uniform (rrefFromHost t inner) := by
  obtain ⟨g, hg⟩ : ∃ g : String → String, ∀ e,
      rrefFromHost t inner e = inner.fromHost e >>= fun v => pure (g v) := by
    unfold rrefFromHost
    generalize t.bare = u
    cases u with
    | object c => exact ⟨fun v => if c.shared then v else "std::move(" ++ v ++ ")", fun _ => rfl⟩
    | _ => exact ⟨id, fun _ => rfl⟩
  rw [funext hg]
  exact h.fromHost.write fun _ v => g v

/-- A class that lives in shared handles cannot be pushed, whatever the expression; any other is, with the
expression at one place. -/
theorem regular_objectRule (module : String) (c : ClassRef) : (objectRule module c).Regular := by
  constructor
  · simp only [objectRule]
    split
    · exact .error _
    · exact .ok ("bindgen_lua::push_class<" ++ c.native.text ++ ">(L, ")
        (", \"" ++ metatable module c.name ++ "\")") fun e => by simp only [String.append_assoc]
  · simp only [objectRule]
    split
    · exact .ok _
    · split <;> exact .ok _

theorem regular_recordRule (r : EntityRef) : (recordRule r).Regular :=
  ⟨.ok ("push_struct_" ++ r.name ++ "(L, ") ")" fun _ => rfl, .ok _⟩

theorem regular_enumerationRule (r : EntityRef) : (enumerationRule r).Regular :=
  ⟨.ok "lua_pushinteger(L, lua_Integer(" "))" fun _ => rfl, .ok _⟩

theorem regular_opaqueRule (name : String) : (opaqueRule name).Regular :=
  ⟨.ok "lua_pushlightuserdata(L, const_cast<void*>(static_cast<const void*>(&(" "))))" fun _ => rfl,
    .ok _⟩

/-- A key type is converted as the type behind it, with the expression inside `(..).value`. -/
theorem regular_keyTypeRule {s : Scope} (h : ∀ t, (s.convert t).Regular) (name : String) :
    (keyTypeRule s name).Regular := by
  rw [keyTypeRule]
  split
  case h_1 t _ => exact ⟨(h t).toHost.around "(" ").value", (h t).fromHost.write _⟩
  case h_2 => exact Conversion.regular_fail _

/-- The callable is captured once. The arguments of the Lua function are read from the stack and do not mention
the expression. -/
theorem linear_pushFunction (sig : Signature (Ty × Conversion)) : Linear (pushFunction sig) :=
  .after _ fun _ => .ite (.after _ fun _ => linear_applied _ _) (.after _ fun _ => linear_applied _ _)

theorem uniform_takeFunction (sig : Signature (Ty × Conversion)) : Uniform (takeFunction sig) :=
  .after _ fun _ => .after _ fun _ => .ite (.after _ fun _ => .after _ fun _ => .ok _)
    (.after _ fun _ => .after _ fun _ => .ok _)

/-! ## Every type -/

/-- Each rule of `rules` uses its expression once if the conversions of key types and alternatives, which it
goes on to, do. -/
theorem keeps_rules {s : Scope} (h : ∀ t, (s.convert t).Regular) :
    (rules s).Keeps fun _ c => c.Regular where
  const hc := hc
  ref hc := hc
  rref hc := ⟨hc.toHost, uniform_rrefFromHost _ hc⟩
  pointer hc := regular_pointerRule hc
  primitive hrule := by
    obtain ⟨k, -, rfl⟩ := Option.map_eq_some_iff.mp hrule
    exact regular_primitive s _ k
  template hrule hargs := by
    obtain ⟨k, -, rfl⟩ := Option.map_eq_some_iff.mp hrule
    exact regular_template s _ hargs k
  func _ _ := ⟨linear_pushFunction _, uniform_takeFunction _⟩
  object c := regular_objectRule _ c
  record e := regular_recordRule e
  enumeration e := regular_enumerationRule e
  opaqueType name := regular_opaqueRule name
  keyType name := regular_keyTypeRule h name
  noPrimitive _ := Conversion.regular_fail _
  noTemplate _ _ := Conversion.regular_fail _

namespace Converter

/-- By induction over `depth`, the number of key types and alternatives that may still be gone through; at zero
the conversion fails for every expression. -/
theorem regular_convertTo (c : Converter) (depth : Nat) (t : Ty) : (c.convertTo depth t).Regular := by
  induction depth generalizing t with
  | zero => exact Conversion.regular_fail _
  | succ depth ih => exact (keeps_rules ih).convert t

/-- **A conversion uses its expression once.** To the host, a type gives the same error for every
expression, or each expression between the same two texts. From the host, whether there is an error, and
which, does not depend on the expression. -/
theorem regular_convert (c : Converter) (t : Ty) :
    Linear (c.convert t).toHost ∧ Uniform (c.convert t).fromHost :=
  ⟨(c.regular_convertTo _ t).toHost, (c.regular_convertTo _ t).fromHost⟩

/-- A module of a model without entities of its own. -/
def plain : Converter where
  module := "app"
  model :=
    { headers := [], classes := [], records := [], keyTypes := [], enums := [], opaqueTypes := []
      mixed := { getters := [], unused := [], ctors := [] }, primitives := [], registry := {} }

/-- An optional number: what is pushed for its value does not mention the call that gives it. -/
example :
    (plain.convert (.template "util::Optional" [.primitive "double"])).toHost "f()" =
      .ok ("[&] (auto&& opt) \x7b if (!opt) lua_pushnil(L); else lua_pushnumber(L, lua_Number(*opt)); \x7d("
        ++ "f()" ++ ")") := by
  rfl

end Converter

end Lua

end LuaGlue
