import LuaGlue.Proofs.Annotations.Coverage
import LuaGlue.Proofs.Lua.Convertible
import Mathlib.Algebra.Ring.Parity

/-!
# Errors go to the host, shared classes come from it

Native code hands errors to the host and never takes them back, and it takes the instances of a shared class
out of their handles and never pushes them without one. Which of the two a place in a type allows depends on
how many parameter positions it stands under, because each of them turns the way around.

- **Places** (`Ty.Part`, `Ty.ExposedIn`): one step into a type, and all places with the number of parameter
  positions above them. Key types are seen through, and what a handle owns or the host ignores is left out.
- **One step** (`converts_part`): what is converted has its parts converted, a parameter by the other way.
- **All places** (`Converter.exists_converts_exposed`): a type that is converted has every place converted by
  the way that its depth leaves.
- **Polarity** (`Converter.polarity_convert`): errors stand at even depth in what goes to the host and at odd
  depth in what comes from it, bare shared classes the other way around.
-/

namespace LuaGlue

open Annotations (isErrorPrimitive)

namespace Way

theorem ne_toHost_iff {w : Way} : w ≠ .toHost ↔ w = .fromHost := by
  cases w <;> simp

theorem involutive_turn : Function.Involutive turn
  | .toHost => rfl
  | .fromHost => rfl

theorem turn_ne_self {w : Way} : w.turn ≠ w := by
  cases w <;> simp [turn]

/-- An odd number of turns leaves the other way, an even number the same. -/
theorem turn_iterate_eq_self_iff {w : Way} {d : Nat} : turn^[d] w = w ↔ Even d := by
  rcases Nat.even_or_odd d with hd | hd
  · simp [involutive_turn.iterate_even hd, hd]
  · simp [involutive_turn.iterate_odd hd, turn_ne_self, hd]

theorem turn_iterate_eq_turn_iff {w : Way} {d : Nat} : turn^[d] w = w.turn ↔ Odd d := by
  rcases Nat.even_or_odd d with hd | hd
  · simp [involutive_turn.iterate_even hd, turn_ne_self.symm, hd]
  · simp [involutive_turn.iterate_odd hd, hd]

end Way

/-! ## Places -/

namespace Ty

/-- The type `u` is a part of the given one, under so many parameter positions. The class that a handle shares
and the arguments that the host ignores are no parts. -/
inductive Part (m : Model) : Ty → Nat → Ty → Prop
  | inner {q u} : Part m (.modified q u) 0 u
  | arg {n args u} : u ∈ args → n ≠ ignoreArgumentName → ¬(n = sharedPtrName ∧ u.IsShared) →
      Part m (.template n args) 0 u
  | param {params ret quals x u} : (x, u) ∈ params → Part m (.func ⟨params, ret, quals⟩) 1 u
  | ret {params ret quals} : Part m (.func ⟨params, ret, quals⟩) 0 ret
  | behind {n u} : m.keyType? n = some u → Part m (.keyType n) 0 u

/-- The type `u` stands in the given one, under so many parameter positions. -/
inductive ExposedIn (m : Model) (u : Ty) : Ty → Nat → Prop
  | self : ExposedIn m u u 0
  | part {t k v d} : t.Part m k v → ExposedIn m u v d → ExposedIn m u t (k + d)

end Ty

namespace Lua

/-- Of all its arguments, a template of the kind converts the first. -/
def TemplateKind.takesFirst : TemplateKind → Bool
  | .sharedPtr | .optional | .nullable | .vector | .function | .ignored => true
  | .tuple _ | .map => false

/-- A template that converts its first argument has no other. -/
def SingleArgument (t : Ty) : Prop :=
  ∀ n args k, t = .template n args → TemplateKind.ofName? n = some k → k.takesFirst → ∃ a, args = [a]

/-- Every template that the type exposes has one argument if it converts only its first. -/
def SingleArguments (m : Model) (t : Ty) : Prop := ∀ ⦃u d⦄, u.ExposedIn m t d → SingleArgument u

theorem SingleArguments.intro {m : Model} {t : Ty} (ht : SingleArgument t)
    (hparts : ∀ k u, t.Part m k u → SingleArguments m u) : SingleArguments m t
  | _, _, .self => ht
  | _, _, .part hpart hu => hparts _ _ hpart hu

theorem SingleArguments.func {m : Model} {params : List (String × Ty)} {ret : Ty} {quals : Qualifiers}
    (hparams : ∀ p ∈ params, SingleArguments m p.2) (hret : SingleArguments m ret) :
    SingleArguments m (.func ⟨params, ret, quals⟩) := by
  refine .intro nofun fun k u hpart => ?_
  cases hpart with
  | param hp => exact hparams _ hp
  | ret => exact hret

variable {c : Converter} {s : Scope} {m : Model} {w : Way} {t u : Ty} {k d : Nat}

theorem kind_of_isErrorPrimitive {n : String} (h : isErrorPrimitive n) :
    PrimitiveKind.ofName? n = some .error := by
  simp only [isErrorPrimitive, Bool.or_eq_true, beq_iff_eq] at h
  rcases h with ((rfl | rfl) | rfl) | rfl <;> rfl

/-! ## One step -/

/-- An argument of a template goes the way of the template. -/
theorem converts_arg (h : s.IsRegular) {n : String} {args : List Ty}
    (hsingle : SingleArgument (.template n args)) (ht : s.Converts w (.template n args)) (hu : u ∈ args)
    (hn : n ≠ ignoreArgumentName) (hshared : ¬(n = sharedPtrName ∧ u.IsShared)) : s.Converts w u := by
  obtain ⟨k, hk, hneeds⟩ := (Scope.converts_template_iff h).mp ht
  have hfirst (hkind : k.takesFirst) {a : Ty} {rest : List Ty} (hargs : args = a :: rest) : u = a := by
    obtain ⟨b, hb⟩ := hsingle n args k rfl hk hkind
    cases hb.symm.trans hargs
    exact List.mem_singleton.mp (hb ▸ hu)
  cases k with
  | tuple make => exact hneeds u hu
  | map =>
    obtain ⟨key, value, rfl, hkey, hvalue, -⟩ := hneeds
    rcases List.mem_pair.mp hu with rfl | rfl
    · exact hkey
    · exact hvalue
  | sharedPtr =>
    obtain ⟨a, rest, hargs, ha⟩ := hneeds
    cases hfirst rfl hargs
    exact (ha.resolve_left fun hu => hshared ⟨name_of_sharedPtr hk, hu⟩).1
  | ignored => exact absurd (name_of_ignored hk) hn
  | optional | nullable | vector | function =>
    obtain ⟨a, rest, hargs, ha, -⟩ := hneeds
    cases hfirst rfl hargs
    exact ha

/-- **One step.** What the rules convert has each part converted, a parameter by the other way. What stands
behind a key type is converted a level below. -/
theorem converts_part (h : s.IsRegular) (hkeys : s.keyType? = m.keyType?) (hsingle : SingleArgument t)
    (ht : s.Converts w t) (hpart : t.Part m k u) :
    s.Converts (Way.turn^[k] w) u ∨ (s.convert u).Goes (Way.turn^[k] w) := by
  cases hpart with
  | inner => exact .inl ((Scope.converts_modified_iff h).mp ht)
  | arg hu hn hshared => exact .inl (converts_arg h hsingle ht hu hn hshared)
  | param hp => exact .inl (((Scope.converts_func_iff h).mp ht).1 _ hp)
  | ret => exact .inl ((Scope.converts_func_iff h).mp ht).2.1
  | behind hkey =>
    obtain ⟨v, hv, hgoes⟩ := (Scope.converts_keyType_iff h).mp ht
    cases (hkeys ▸ hkey).symm.trans hv
    exact .inr hgoes

namespace Converter

/-- Behind a key type stands a type that the level below converts. -/
theorem exists_converts_part {depth : Nat} (hsingle : SingleArgument t) (ht : (c.scope depth).Converts w t)
    (hpart : t.Part c.model k u) : ∃ depth', (c.scope depth').Converts (Way.turn^[k] w) u := by
  rcases converts_part isRegular_scope rfl hsingle ht hpart with hsame | hbelow
  · exact ⟨depth, hsame⟩
  · cases depth with
    | zero => exact absurd hbelow Conversion.not_goes_fail
    | succ depth => exact ⟨depth, hbelow⟩

/-! ## All places -/

/-- **All places.** Each place is converted by the way that its depth leaves. -/
theorem exists_converts_exposed {depth : Nat} (hsingle : SingleArguments c.model t)
    (ht : (c.scope depth).Converts w t) (hu : u.ExposedIn c.model t d) :
    ∃ depth', (c.scope depth').Converts (Way.turn^[d] w) u := by
  induction hu generalizing w depth with
  | self => exact ⟨depth, ht⟩
  | part hpart _ ih =>
    obtain ⟨depth', hv⟩ := exists_converts_part (hsingle .self) ht hpart
    obtain ⟨depth', hu⟩ := ih (fun _ _ hu' => hsingle (.part hpart hu')) hv
    rw [Nat.add_comm, Function.iterate_add_apply]
    exact ⟨depth', hu⟩

theorem way_of_error {e : String} (hsingle : SingleArguments c.model t) (ht : c.Carries w t e) {n : String}
    (hn : isErrorPrimitive n) (hu : (Ty.primitive n).ExposedIn c.model t d) : Way.turn^[d] w = .toHost := by
  obtain ⟨depth, hgoes⟩ := exists_converts_exposed hsingle (carries_iff.mp ht) hu
  exact (Scope.converts_error_iff (kind_of_isErrorPrimitive hn)).mp hgoes

theorem way_of_shared {e : String} (hsingle : SingleArguments c.model t) (ht : c.Carries w t e)
    {cls : ClassRef} (hcls : cls.shared) (hu : (Ty.object cls).ExposedIn c.model t d) :
    Way.turn^[d] w = .fromHost := by
  obtain ⟨depth, hgoes⟩ := exists_converts_exposed hsingle (carries_iff.mp ht) hu
  exact Way.ne_toHost_iff.mp fun hto => Scope.converts_object_iff.mp hgoes hto hcls

/-- **Polarity.** Only errors at even depth go to the host, and only those at odd depth come from it. For a
shared class outside of its handle it is the other way around. -/
theorem polarity_convert (c : Converter) (t : Ty) (hsingle : SingleArguments c.model t) (e : String) :
    ((∃ v, (c.convert t).toHost e = .ok v) →
      (∀ n d, isErrorPrimitive n → (Ty.primitive n).ExposedIn c.model t d → Even d) ∧
      ∀ cls d, cls.shared → (Ty.object cls).ExposedIn c.model t d → Odd d) ∧
    ((∃ v, (c.convert t).fromHost e = .ok v) →
      (∀ n d, isErrorPrimitive n → (Ty.primitive n).ExposedIn c.model t d → Odd d) ∧
      ∀ cls d, cls.shared → (Ty.object cls).ExposedIn c.model t d → Even d) := by
  refine ⟨fun (hok : c.Carries .toHost t e) => ?_, fun (hok : c.Carries .fromHost t e) => ?_⟩
  · refine ⟨fun n d hn hu => ?_, fun cls d hcls hu => ?_⟩
    · exact Way.turn_iterate_eq_self_iff.mp (way_of_error hsingle hok hn hu)
    · exact Way.turn_iterate_eq_turn_iff.mp (way_of_shared hsingle hok hcls hu)
  · refine ⟨fun n d hn hu => ?_, fun cls d hcls hu => ?_⟩
    · exact Way.turn_iterate_eq_turn_iff.mp (way_of_error hsingle hok hn hu)
    · exact Way.turn_iterate_eq_self_iff.mp (way_of_shared hsingle hok hcls hu)

/-- A model in which a failure is known by a key type, and which is `plain` apart from it. -/
def watching : Converter :=
  { plain with model := { plain.model with keyTypes := [("Failure", .primitive "Status")] } }

/-- A class that lives in shared handles. -/
def store : ClassRef := ⟨⟨"Store", .str "Store"⟩, true, false⟩

/-- A callback that is told of a failure. -/
def callback : Ty := .func ⟨[("failure", .keyType "Failure")], .void, {}⟩

/-- A function that takes a store and a callback for failures. -/
def watch : Ty :=
  .func ⟨[("store", .modified .ref (.object store)), ("done", .template "std::function" [callback])],
    .primitive "std::error_code", {}⟩

theorem singleArguments_watch : SingleArguments watching.model watch := by
  have hprimitive (n : String) : SingleArguments watching.model (.primitive n) := .intro nofun nofun
  have hfailure : SingleArguments watching.model (.keyType "Failure") :=
    .intro nofun fun k u hpart => by
      obtain ⟨⟩ | ⟨⟩ | ⟨⟩ | ⟨⟩ | hkey := hpart
      cases hkey
      exact hprimitive "Status"
  have hcallback : SingleArguments watching.model callback :=
    .func (List.forall_mem_singleton.mpr hfailure) (hprimitive "void")
  refine .func (List.forall_mem_cons.mpr ⟨?_, List.forall_mem_singleton.mpr ?_⟩) (hprimitive "std::error_code")
  · exact .intro nofun fun k u hpart => by
      cases hpart
      exact .intro nofun nofun
  · refine .intro (fun _ _ _ heq _ _ => ?_) fun k u hpart => ?_
    · cases heq
      exact ⟨_, rfl⟩
    · cases hpart with
      | arg hu => exact List.mem_singleton.mp hu ▸ hcallback

/-- The error that is returned stands at depth 0, the store at depth 1 and the failure at depth 2. -/
theorem polarity_convert_watch :
    SingleArguments watching.model watch ∧ (∃ v, (watching.convert watch).toHost "f" = .ok v) ∧
      (Ty.object store).ExposedIn watching.model watch 1 ∧
      (Ty.primitive "Status").ExposedIn watching.model watch 2 ∧
      (∀ n d, isErrorPrimitive n → (Ty.primitive n).ExposedIn watching.model watch d → Even d) ∧
      ∀ cls d, cls.shared → (Ty.object cls).ExposedIn watching.model watch d → Odd d := by
  have hok : ∃ v, (watching.convert watch).toHost "f" = .ok v := ⟨_, rfl⟩
  have hpolarity := (polarity_convert watching watch singleArguments_watch "f").1 hok
  refine ⟨singleArguments_watch, hok, ?_, ?_, hpolarity⟩
  · exact .part (.param (.head _)) (.part .inner .self)
  · have hstatus : (Ty.primitive "Status").ExposedIn watching.model callback 1 :=
      .part (.param (List.mem_singleton_self _)) (.part (.behind rfl) .self)
    have hdone : (Ty.primitive "Status").ExposedIn watching.model (.template "std::function" [callback]) 1 :=
      .part (.arg (List.mem_singleton_self _) (by decide) fun h => absurd h.1 (by decide)) hstatus
    exact .part (.param (.tail _ (.head _))) hdone

end Converter

end Lua

end LuaGlue
