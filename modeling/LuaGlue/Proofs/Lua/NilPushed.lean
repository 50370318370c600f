import LuaGlue.Lua.Rules
import LuaGlue.Proofs.Conversion.Induction
import LuaGlue.Proofs.Except
import Mathlib.Data.List.Infix
import Mathlib.Logic.Relation

/-!
# Types that nil stands for

A value that is absent goes to the host as nil. Whether it may is written at the start of the code that pushes
it: a test, and nil where the test holds.

- **Code** (`Lua.PushesNil`): the code of a push leaves nil by itself, not within a table that it builds.
- **Types** (`Ty.Layer`, `Ty.ShowsNil`): seen through constness, references, pointers, key types, handles and
  other wrappers, the type is optional, nullable, `Mixed` or `void`.
- **Conversions** (`Converter.pushesNil_iff`): the code of a type pushes nil if the type shows it.
-/

namespace LuaGlue

/-! ## Types -/

namespace Ty

/-- A template that is converted to the host as its argument. -/
def isWrapper (template : String) : Bool :=
  template ∈ ["std::shared_ptr", "IgnoreArgument", "std::function", "util::UniqueFunction", "AsyncCallback"]

/-- The first type goes to the host as the second one does. -/
inductive Layer (m : Model) : Ty → Ty → Prop
  | modified {q u} : Layer m (.modified q u) u
  | wrapped {n u rest} : isWrapper n → Layer m (.template n (u :: rest)) u
  | behind {n u} : m.keyType? n = some u → Layer m (.keyType n) u

/-- A value of the type may be absent. -/
def MayBeNil : Ty → Prop
  | .template n _ => n = optionalName ∨ n = nullableName
  | .primitive n => n = "Mixed" ∨ n = "void"
  | _ => False

/-- Below its layers, the type is one whose values may be absent. -/
def ShowsNil (m : Model) (t : Ty) : Prop := ∃ u, Relation.ReflTransGen (Layer m) t u ∧ u.MayBeNil

variable {m : Model} {t u v : Ty}

/-- A type has at most one layer, as in annotations; only which templates are layers differs. -/
theorem Layer.unique (hu : Layer m t u) (hv : Layer m t v) : u = v := by
  cases hu with
  | modified => cases hv; rfl
  | wrapped => cases hv; rfl
  | behind hu =>
    cases hv with
    | behind hv => exact Option.some.inj (hu.symm.trans hv)

/-- No type that is a layer says itself that its values may be absent. -/
theorem Layer.not_mayBeNil (h : Layer m t u) : ¬t.MayBeNil := by
  cases h with
  | modified => exact id
  | behind => exact id
  | wrapped hn =>
    rintro (rfl | rfl)
    · cases hn
    · cases hn

/-- What lies below the layers of a type lies below those of the type behind its first one, unless it is the
type itself. -/
theorem Layer.exists_below_iff {P : Ty → Prop} (h : Layer m t u) (ht : ¬P t) :
    (∃ v, Relation.ReflTransGen (Layer m) t v ∧ P v) ↔ ∃ v, Relation.ReflTransGen (Layer m) u v ∧ P v := by
  constructor
  · rintro ⟨v, hv, hP⟩
    rcases hv.cases_head with rfl | ⟨u', hu', hv⟩
    · exact absurd hP ht
    · exact ⟨v, h.unique hu' ▸ hv, hP⟩
  · rintro ⟨v, hv, hP⟩
    exact ⟨v, hv.head h, hP⟩

/-- Below a type without layers lies the type alone, which `Relation.ReflTransGen` gives as its first case. -/
theorem exists_below_iff_of_forall_not_layer {P : Ty → Prop} (h : ∀ u, ¬Layer m t u) :
    (∃ v, Relation.ReflTransGen (Layer m) t v ∧ P v) ↔ P t := by
  constructor
  · rintro ⟨v, hv, hP⟩
    rcases hv.cases_head with rfl | ⟨u, hu, -⟩
    · exact hP
    · exact absurd hu (h u)
  · exact fun hP => ⟨t, .refl, hP⟩

/-- A layer does not show: `ShowsNil` is decided by the type behind it. -/
theorem Layer.showsNil_iff (h : Layer m t u) : t.ShowsNil m ↔ u.ShowsNil m := h.exists_below_iff h.not_mayBeNil

end Ty

namespace Lua

/-! ## Code -/

/-- The text starts with the given characters. -/
def Starts (cs : List Char) (s : String) : Prop := cs <+: s.toList

/-- The code drops its value and pushes nil, or it applies a function that first tests the value and pushes nil
where the test holds. -/
def PushesNil (code : String) : Prop :=
  (∃ e, code = "((void)(" ++ e ++ "), lua_pushnil(L))") ∨
    ∃ head test body e, code = applied head body e ∧ '\x7b' ∉ head.toList ∧
      (Starts (" if (" ++ test ++ ") lua_pushnil(L); else ").toList body ∨
        Starts ("\nif (" ++ test ++ ") \x7b lua_pushnil(L); return; \x7d\n").toList body)

namespace Starts

variable {cs : List Char} {s t : String}

theorem literal {ds : List Char} (h : cs <+: ds) : Starts cs (String.ofList ds) := by
  rwa [Starts, String.toList_ofList]

theorem one {c : Char} {ds : List Char} : Starts [c] (String.ofList (c :: ds)) := .literal ⟨ds, rfl⟩

theorem two {a b : Char} {ds : List Char} : Starts [a, b] (String.ofList (a :: b :: ds)) := .literal ⟨ds, rfl⟩

theorem append (h : Starts cs s) (t : String) : Starts cs (s ++ t) := by
  rw [Starts, String.toList_append]
  exact h.trans (List.prefix_append _ _)

/-- Two beginnings of one text are equal if they are of one length. This tells codes apart by their first
characters. -/
theorem eq_of_length {ds : List Char} (h : Starts cs s) (h' : Starts ds s) (hlen : cs.length = ds.length) :
    cs = ds :=
  (List.prefix_of_prefix_length_le h h' hlen.le).eq_of_length hlen

end Starts

theorem starts_applied {head body e : String} : Starts ['['] (applied head body e) := by
  have hopen : Starts ['['] "[&] " := .literal (by decide)
  exact ((((hopen.append _).append _).append _).append _).append _ |>.append _

/-- What stands behind the first brace. -/
def behindBrace (code : String) : String := String.ofList ((code.toList.dropWhile (· != '\x7b')).drop 1)

/-- The body of a function that is applied stands behind the first brace. -/
theorem starts_behindBrace {head body e : String} (hhead : '\x7b' ∉ head.toList) {cs : List Char}
    (h : Starts cs body) : Starts cs (behindBrace (applied head body e)) := by
  have happlied : (applied head body e).toList =
      ("[&] ".toList ++ head.toList ++ [' ']) ++ '\x7b' :: (body.toList ++ ("\x7d(" ++ e ++ ")").toList) := by
    simp [applied, String.toList_append]
  have hopen : ∀ c ∈ "[&] ".toList ++ head.toList ++ [' '], c != '\x7b' := by
    intro c hc
    rw [bne_iff_ne]
    rintro rfl
    simp [hhead] at hc
  rw [behindBrace, happlied, List.dropWhile_append_of_pos hopen, List.dropWhile_cons_of_neg (by decide),
    List.drop_one, List.tail_cons, Starts, String.toList_ofList]
  exact h.trans (List.prefix_append _ _)

/-- Code that pushes nil has brackets around it, or its body starts with a test. Only these first characters are
used to refute `PushesNil`. -/
theorem PushesNil.starts {code : String} (h : PushesNil code) :
    Starts ['('] code ∨ Starts ['['] code ∧ ∃ c, Starts [c, 'i'] (behindBrace code) := by
  rcases h with ⟨e, rfl⟩ | ⟨head, test, body, e, rfl, hhead, hbody | hbody⟩
  · have hopen : Starts ['('] "((void)(" := .literal (by decide)
    exact .inl ((hopen.append _).append _)
  · have htest : Starts [' ', 'i'] " if (" := .literal (by decide)
    exact .inr ⟨starts_applied, ' ', starts_behindBrace hhead (((htest.append _).append _).trans hbody)⟩
  · have htest : Starts ['\n', 'i'] "\nif (" := .literal (by decide)
    exact .inr ⟨starts_applied, '\n', starts_behindBrace hhead (((htest.append _).append _).trans hbody)⟩

/-- Code that starts with a letter or another sign is a plain call, which leaves a value. -/
theorem not_pushesNil_of_starts {c : Char} {code : String} (h : Starts [c] code) (hround : c ≠ '(')
    (hsquare : c ≠ '[') : ¬PushesNil code := by
  intro hnil
  rcases hnil.starts with hnil | ⟨hnil, -⟩
  · exact hround (List.singleton_inj.mp (h.eq_of_length hnil rfl))
  · exact hsquare (List.singleton_inj.mp (h.eq_of_length hnil rfl))

/-- An applied function whose body does not start with a test pushes something else; the second character tells,
as the first may be a blank or a line break. -/
theorem not_pushesNil_applied {head body e : String} (hhead : '\x7b' ∉ head.toList) {a b : Char}
    (h : Starts [a, b] body) (hb : b ≠ 'i') : ¬PushesNil (applied head body e) := by
  intro hnil
  rcases hnil.starts with hnil | ⟨-, c, hnil⟩
  · cases starts_applied.eq_of_length hnil rfl
  · cases (starts_behindBrace hhead h).eq_of_length hnil rfl
    exact hb rfl

/-! ## Names -/

variable {s : Scope} {m : Model} {t u : Ty} {n : String} {c c' : Conversion}

theorem TemplateKind.isWrapper_iff {k : TemplateKind} (h : TemplateKind.ofName? n = some k) :
    Ty.isWrapper n ↔ k = .sharedPtr ∨ k = .function ∨ k = .ignored := by
  unfold TemplateKind.ofName? at h
  split at h <;> cases h <;> decide

theorem TemplateKind.mayBeNil_iff {k : TemplateKind} (h : TemplateKind.ofName? n = some k) (args : List Ty) :
    (Ty.template n args).MayBeNil ↔ k = .optional ∨ k = .nullable := by
  show n = optionalName ∨ n = nullableName ↔ _
  unfold TemplateKind.ofName? at h
  split at h <;> cases h <;> decide

theorem PrimitiveKind.mayBeNil_iff {k : PrimitiveKind} (h : PrimitiveKind.ofName? n = some k) :
    (Ty.primitive n).MayBeNil ↔ k = .mixed ∨ k = .void := by
  show n = "Mixed" ∨ n = "void" ↔ _
  unfold PrimitiveKind.ofName? at h
  split at h <;> cases h <;> decide

/-! ## Conversions -/

/-- Whatever code the conversion writes pushes nil if the type shows it. -/
def NilAsShown (m : Model) (t : Ty) (c : Conversion) : Prop :=
  ∀ e v, c.toHost e = .ok v → (PushesNil v ↔ t.ShowsNil m)

namespace NilAsShown

theorem fail (err : Error) : NilAsShown m t (.fail err) := nofun

theorem onFirst {args : List (Ty × Conversion)} {rule : Ty → Conversion → Conversion}
    (h : ∀ a rest, args = a :: rest → NilAsShown m t (rule a.1 a.2)) :
    NilAsShown m t (onFirst args rule) := by
  cases args with
  | nil => exact fail _
  | cons a rest => exact h a rest rfl

/-- A rule that hands on the code of another conversion shows nil as that one does, if its type is a `Ty.Layer`
around the other type. -/
theorem layer (hlayer : Ty.Layer m t u) (h : NilAsShown m u c)
    (hcode : ∀ e v, c'.toHost e = .ok v → ∃ e', c.toHost e' = .ok v) : NilAsShown m t c' := by
  intro e v hv
  obtain ⟨e', hv⟩ := hcode e v hv
  exact (h e' v hv).trans hlayer.showsNil_iff.symm

/-- A type whose values may be absent, and code that pushes nil for all expressions. -/
theorem pushes (ht : t.MayBeNil) (hcode : ∀ e v, c.toHost e = .ok v → PushesNil v) : NilAsShown m t c :=
  fun e v hv => iff_of_true (hcode e v hv) ⟨t, .refl, ht⟩

/-- A type without layers whose values are always there, and code that never pushes nil. -/
theorem never (hlayer : ∀ u, ¬Ty.Layer m t u) (ht : ¬t.MayBeNil)
    (hcode : ∀ e v, c.toHost e = .ok v → ¬PushesNil v) : NilAsShown m t c :=
  fun e v hv => iff_of_false (hcode e v hv) fun h => ht ((Ty.exists_below_iff_of_forall_not_layer hlayer).mp h)

end NilAsShown

/-- The code for `Mixed` starts with the test for an empty value. -/
theorem pushesNil_pushMixed {info : MixedInfo} {e v : String} (h : pushMixed s info e = .ok v) :
    PushesNil v := by
  obtain ⟨cases, -, h⟩ := Except.bind_eq_ok.mp h
  cases h
  refine .inr ⟨_, "m.is_null()", _, e, rfl, by decide, .inr ?_⟩
  exact (((Starts.literal (by decide)).append _).append _).append _

/-- `Mixed` and `void` push nil; the code of any other primitive is a call, which starts with a letter. -/
theorem nilAsShown_primitive {k : PrimitiveKind} (h : PrimitiveKind.ofName? n = some k) :
    NilAsShown m (.primitive n) (k.conversion s n) := by
  have hnil := PrimitiveKind.mayBeNil_iff h
  cases k with
  | void =>
    refine .pushes (hnil.mpr (.inr rfl)) fun e v hv => ?_
    cases hv
    exact .inl ⟨e, rfl⟩
  | mixed =>
    unfold PrimitiveKind.conversion
    cases hmixed : s.mixed with
    | none => exact .fail _
    | some info => exact .pushes (hnil.mpr (.inl rfl)) fun e v hv => pushesNil_pushMixed hv
  | text owned | binary owned =>
    refine .never nofun (by simp [hnil]) fun e v hv => ?_
    cases hv
    exact not_pushesNil_applied (by decide) .two (by decide)
  | bool | integer | number | error =>
    refine .never nofun (by simp [hnil]) fun e v hv => ?_
    cases hv
    exact not_pushesNil_of_starts ((Starts.one.append _).append _) (by decide) (by decide)

/-- An instance is pushed by a call with its type, its value and its metatable. Whatever these are, the call starts
with the name of the function. -/
theorem not_pushesNil_pushInstance {head : String} (h : Starts ['b'] head) (type e table : String) :
    ¬PushesNil (head ++ type ++ ">(L, " ++ e ++ ", \"" ++ table ++ "\")") :=
  not_pushesNil_of_starts ((((((h.append _).append _).append _).append _).append _).append _) (by decide) (by decide)

/-- A handle pushes what it shares, or a copy of what it points to. -/
theorem nilAsShown_sharedPtrRule (hn : Ty.isWrapper n) (module : String) (rest : List Ty)
    (h : NilAsShown m t c) : NilAsShown m (.template n (t :: rest)) (sharedPtrRule module t c) := by
  have hpointee (e v : String) (hv : c.toHost ("*(" ++ e ++ ")") = .ok v) : ∃ e', c.toHost e' = .ok v :=
    ⟨_, hv⟩
  unfold sharedPtrRule
  split
  · rename_i cls
    split
    · intro e v hv
      cases hv
      have hobject : ¬(Ty.object cls).ShowsNil m :=
        (Ty.exists_below_iff_of_forall_not_layer (t := .object cls) nofun).mp
      rw [(Ty.Layer.wrapped hn).showsNil_iff]
      exact iff_of_false (not_pushesNil_pushInstance .one _ _ _) hobject
    · exact .layer (.wrapped hn) h hpointee
  · exact .layer (.wrapped hn) h hpointee

theorem pushesNil_optionalRule {e v : String} (h : (optionalRule t c).toHost e = .ok v) : PushesNil v := by
  obtain ⟨push, -, h⟩ := Except.bind_eq_ok.mp h
  cases h
  exact .inr ⟨_, "!opt", _, e, rfl, by decide, .inl (((Starts.literal (by decide)).append _).append _)⟩

theorem pushesNil_nullableRule {e v : String} (h : (nullableRule t c).toHost e = .ok v) : PushesNil v := by
  obtain ⟨push, -, h⟩ := Except.bind_eq_ok.mp h
  cases h
  exact .inr ⟨_, "!v", _, e, rfl, by decide, .inl (((Starts.literal (by decide)).append _).append _)⟩

/-! What makes a table starts with the table, and any nil is pushed within it. -/

section

variable {args : List (Ty × Conversion)} {e v : String}

theorem not_pushesNil_vectorRule (h : (vectorRule t c).toHost e = .ok v) : ¬PushesNil v := by
  obtain ⟨push, -, h⟩ := Except.bind_eq_ok.mp h
  cases h
  exact not_pushesNil_applied (by decide) ((Starts.two.append _).append _) (by decide)

theorem not_pushesNil_tupleRule {make : String} (h : (tupleRule make args).toHost e = .ok v) :
    ¬PushesNil v := by
  obtain ⟨items, -, h⟩ := Except.bind_eq_ok.mp h
  cases h
  exact not_pushesNil_applied (by decide) (((Starts.two.append _).append _).append _) (by decide)

theorem not_pushesNil_mapRule (h : (mapRule t args).toHost e = .ok v) : ¬PushesNil v := by
  simp only [mapRule] at h
  split at h
  · obtain ⟨k, -, h⟩ := Except.bind_eq_ok.mp h
    obtain ⟨x, -, h⟩ := Except.bind_eq_ok.mp h
    cases h
    exact not_pushesNil_applied (by decide) ((((Starts.two.append _).append _).append _).append _) (by decide)
  · cases h

end

/-- Wrappers hand on, optional and nullable templates test first, and containers build a table. -/
theorem nilAsShown_template {args : List (Ty × Conversion)} {k : TemplateKind}
    (h : TemplateKind.ofName? n = some k) (hargs : ∀ a ∈ args, NilAsShown m a.1 a.2) :
    NilAsShown m (.template n (args.map (·.1))) (k.conversion s n args) := by
  have hnil := TemplateKind.mayBeNil_iff h (args.map (·.1))
  have hwrapper := TemplateKind.isWrapper_iff h
  -- for a template the only layer is that of a wrapper
  have hlayer (hk : ¬Ty.isWrapper n) (u : Ty) : ¬Ty.Layer m (.template n (args.map (·.1))) u := by
    generalize args.map (·.1) = types
    rintro ⟨⟩
    contradiction
  cases k with
  | sharedPtr =>
    refine .onFirst fun a rest hcons => ?_
    subst hcons
    exact nilAsShown_sharedPtrRule (hwrapper.mpr (.inl rfl)) _ _ (hargs a List.mem_cons_self)
  | function =>
    cases args with
    | nil => exact nofun
    | cons a rest =>
      have hn := hwrapper.mpr (.inr (.inl rfl))
      exact .layer (.wrapped hn) (hargs a List.mem_cons_self) fun e v hv => ⟨e, hv⟩
  | ignored =>
    refine .onFirst fun a rest hcons => ?_
    subst hcons
    have hn := hwrapper.mpr (.inr (.inr rfl))
    exact .layer (.wrapped hn) (hargs a List.mem_cons_self) fun e v hv => ⟨e, hv⟩
  | optional =>
    exact .onFirst fun _ _ _ => .pushes (hnil.mpr (.inl rfl)) fun _ _ => pushesNil_optionalRule
  | nullable =>
    exact .onFirst fun _ _ _ => .pushes (hnil.mpr (.inr rfl)) fun _ _ => pushesNil_nullableRule
  | vector =>
    refine .onFirst fun _ _ _ => ?_
    exact .never (hlayer (by simp [hwrapper])) (by simp [hnil]) fun _ _ => not_pushesNil_vectorRule
  | tuple make =>
    exact .never (hlayer (by simp [hwrapper])) (by simp [hnil]) fun _ _ => not_pushesNil_tupleRule
  | map => exact .never (hlayer (by simp [hwrapper])) (by simp [hnil]) fun _ _ => not_pushesNil_mapRule

/-- The code for a callable captures it and pushes a closure, so its body starts with no test. -/
theorem not_pushesNil_pushFunction {sig : Signature (Ty × Conversion)} {e v : String}
    (h : pushFunction sig e = .ok v) : ¬PushesNil v := by
  obtain ⟨args, -, h⟩ := Except.bind_eq_ok.mp h
  obtain ⟨body, -, h⟩ := Except.ite_bind_eq_ok.mp h
  cases h
  exact not_pushesNil_applied (by decide) ((Starts.two.append _).append _) (by decide)

/-- Each rule writes code for a type that pushes nil if the type shows it: one case for each rule of `rules`. -/
theorem keeps_nilAsShown (hkeys : s.keyType? = m.keyType?) (h : ∀ t, NilAsShown m t (s.convert t)) :
    (rules s).Keeps (NilAsShown m) where
  const hc := .layer .modified hc fun e _ hv => ⟨e, hv⟩
  ref hc := .layer .modified hc fun e _ hv => ⟨e, hv⟩
  rref hc := .layer .modified hc fun e _ hv => ⟨e, hv⟩
  pointer hc := .layer .modified hc fun _ _ hv => ⟨_, hv⟩
  primitive hrule := by
    obtain ⟨k, hk, rfl⟩ := Option.map_eq_some_iff.mp hrule
    exact nilAsShown_primitive hk
  template hrule hargs := by
    obtain ⟨k, hk, rfl⟩ := Option.map_eq_some_iff.mp hrule
    exact nilAsShown_template hk hargs
  func _ _ := .never nofun id fun _ _ => not_pushesNil_pushFunction
  -- a class that is held in handles alone has no code for a bare value
  object c := .never nofun id fun e v hv => by
    simp only [rules, objectRule] at hv
    split at hv
    · cases hv
    · cases hv
      exact not_pushesNil_pushInstance .one _ _ _
  record e := .never nofun id fun e v hv => by
    cases hv
    exact not_pushesNil_of_starts ((((Starts.one.append _).append _).append _).append _) (by decide) (by decide)
  enumeration e := .never nofun id fun e v hv => by
    cases hv
    exact not_pushesNil_of_starts ((Starts.one.append _).append _) (by decide) (by decide)
  opaqueType name := .never nofun id fun e v hv => by
    cases hv
    exact not_pushesNil_of_starts ((Starts.one.append _).append _) (by decide) (by decide)
  -- the code of a key type is that of the type behind it, for another expression
  keyType name := by
    simp only [rules, keyTypeRule]
    split
    · rename_i u hu
      exact .layer (.behind (hkeys ▸ hu)) (h u) fun e v hv => ⟨_, hv⟩
    · exact .fail _
  noPrimitive _ := .fail _
  noTemplate _ _ := .fail _

namespace Converter

/-- By induction over `depth`, with the conversions of key types one level lower. -/
theorem nilAsShown_convertTo (c : Converter) (depth : Nat) (t : Ty) :
    NilAsShown c.model t (c.convertTo depth t) := by
  induction depth generalizing t with
  | zero => exact .fail _
  | succ depth ih => exact (keeps_nilAsShown rfl ih).convert t

/-- **Conversions.** The code for a type pushes nil if the type shows it, whatever the expression. -/
theorem pushesNil_iff {c : Converter} {t : Ty} {e v : String} (h : (c.convert t).toHost e = .ok v) :
    PushesNil v ↔ t.ShowsNil c.model :=
  c.nilAsShown_convertTo _ t e v h

end Converter

end Lua

end LuaGlue
