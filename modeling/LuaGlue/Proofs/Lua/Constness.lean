import LuaGlue.Model.Bind
import LuaGlue.Proofs.Lua.Convertible

/-!
# Constness and convertibility

Constness is written in C++ and not seen by the host. Making a part of a type `const` changes whether the type
can be converted in two cases only: the part is a class that stands in its shared handle, or its C++ spelling
is not a text.

- **Replacement** (`Ty.Swap`): one occurrence of a type stands for another.
- **Spellings** (`Ty.Swap.spells`): a replacement that can be spelled wherever the replaced type can keeps the
  spelling of the whole.
- **Conversions** (`Scope.converts_swap`): the same for conversions, by one step for each place in a type.
- **Constness** (`Converter.constness_convert`): what it keeps, and the handle of a class that is `const`,
  which comes from the host and does not go to it.
-/

namespace LuaGlue

/-! ## Replacement -/

namespace Ty

/-- The second type is the first one, where one occurrence of `a` is replaced by `b`. -/
inductive Swap (a b : Ty) : Ty → Ty → Prop
  | here : Swap a b a b
  | inner {m t t'} : Swap a b t t' → Swap a b (.modified m t) (.modified m t')
  | arg {n before t t' after} : Swap a b t t' →
      Swap a b (.template n (before ++ t :: after)) (.template n (before ++ t' :: after))
  | param {before x t t' after ret quals} : Swap a b t t' →
      Swap a b (.func ⟨before ++ (x, t) :: after, ret, quals⟩) (.func ⟨before ++ (x, t') :: after, ret, quals⟩)
  | ret {params t t' quals} : Swap a b t t' →
      Swap a b (.func ⟨params, t, quals⟩) (.func ⟨params, t', quals⟩)

variable {a b t t' : Ty}

theorem Swap.first {n : String} {rest : List Ty} (h : Swap a b t t') :
    Swap a b (.template n (t :: rest)) (.template n (t' :: rest)) :=
  @arg a b n [] t t' rest h

theorem Swap.symm (h : Swap a b t t') : Swap b a t' t := by
  induction h with
  | here => exact .here
  | inner _ ih => exact .inner ih
  | arg _ ih => exact .arg ih
  | param _ ih => exact .param ih
  | ret _ ih => exact .ret ih

/-! ## Spellings -/

/-- The second type is spelled wherever the first one is. -/
structure Spells (a b : Ty) : Prop where
  spellable : a.Spellable → b.Spellable
  listable : a.Listable → b.Listable
  wrappable : a.Wrappable → b.Wrappable

theorem Spells.refl (t : Ty) : t.Spells t := ⟨id, id, id⟩

end Ty

theorem forall₂_replace {α : Type} {R : α → α → Prop} (hrefl : ∀ x, R x x) {x y : α} (h : R x y)
    (before after : List α) : List.Forall₂ R (before ++ x :: after) (before ++ y :: after) := by
  induction before with
  | nil => exact .cons h (List.forall₂_same.mpr fun z _ => hrefl z)
  | cons z zs ih => exact .cons (hrefl z) ih

namespace Ty

variable {a b t t' : Ty} {n : String} {args args' : List Ty} {P : Document.Value → Prop}

theorem forall_mem_of_forall₂ {Q : Ty → Prop} {R : Ty → Ty → Prop} (hR : ∀ {a b}, R a b → Q a → Q b)
    (h : List.Forall₂ R args args') (hQ : ∀ a ∈ args, Q a) : ∀ b ∈ args', Q b := by
  induction h with
  | nil => simp
  | cons hab _ ih =>
    rw [List.forall_mem_cons] at hQ ⊢
    exact ⟨hR hab hQ.1, ih hQ.2⟩

/-- The spelling of a template depends on the spellings of its arguments. -/
theorem spelledBy_template (hP : ∀ x, P (.str x))
    (hspells : ∀ {a b : Ty}, a.Spells b → a.SpelledBy P → b.SpelledBy P)
    (hargs : List.Forall₂ Spells args args') (h : (Ty.template n args).SpelledBy P) :
    (Ty.template n args').SpelledBy P := by
  by_cases hasync : n = asyncResultName
  · exact absurd (hasync ▸ h) not_spelledBy_asyncResult
  by_cases hmarker : isMarker n
  · obtain ⟨a, rest, rfl, ha⟩ := (spelledBy_marker_iff hmarker).mp h
    obtain ⟨b, rest', hab, -, rfl⟩ := List.forall₂_cons_left_iff.mp hargs
    exact (spelledBy_marker_iff hmarker).mpr ⟨b, rest', rfl, hspells hab ha⟩
  by_cases hwrapper : isFunctionWrapper (templateCpp n)
  · obtain ⟨a, rfl, ha⟩ := (spelledBy_wrapper_iff hP hwrapper).mp h
    obtain ⟨b, rest', hab, hrest, rfl⟩ := List.forall₂_cons_left_iff.mp hargs
    cases hrest
    exact (spelledBy_wrapper_iff hP hwrapper).mpr ⟨b, rfl, hab.wrappable ha⟩
  · rw [spelledBy_listed_iff hP hasync hmarker hwrapper] at h ⊢
    exact forall_mem_of_forall₂ Spells.listable hargs h

theorem Spells.template (h : List.Forall₂ Spells args args') :
    (Ty.template n args).Spells (.template n args') where
  spellable := spelledBy_template (fun _ => trivial) spellable h
  listable := spelledBy_template (fun x => ⟨x, rfl⟩) listable h
  wrappable h := absurd h (not_wrappable nofun)

theorem Spells.modified {m : Modifier} (h : t.Spells t') : (Ty.modified m t).Spells (.modified m t') := by
  have hspells {P : Document.Value → Prop} (hP : ∀ x, P (.str x)) (ht : (Ty.modified m t).SpelledBy P) :
      (Ty.modified m t').SpelledBy P :=
    (spelledBy_modified_iff hP).mpr (h.spellable ((spelledBy_modified_iff hP).mp ht))
  exact ⟨hspells fun _ => trivial, hspells fun x => ⟨x, rfl⟩, fun h => absurd h (not_wrappable nofun)⟩

/-- A function type has no spelling of its own. -/
theorem Spells.func {params params' : List (String × Ty)} {ret ret' : Ty} {quals : Qualifiers}
    (hret : ret.Spellable → ret'.Spellable)
    (hparams : (∀ p ∈ params, p.2.Listable) → ∀ p ∈ params', p.2.Listable) :
    (Ty.func ⟨params, ret, quals⟩).Spells (.func ⟨params', ret', quals⟩) where
  spellable h := absurd h not_spelledBy_func
  listable h := absurd h not_spelledBy_func
  wrappable := by
    rintro ⟨_, _, _, heq, hret₀, hparams₀⟩
    cases heq
    exact ⟨_, _, _, rfl, hret hret₀, hparams hparams₀⟩

/-- **Spellings.** What is spelled wherever the replaced type is keeps the spelling of the whole. -/
theorem Swap.spells (hab : a.Spells b) (h : Swap a b t t') : t.Spells t' := by
  induction h with
  | here => exact hab
  | inner _ ih => exact ih.modified
  | arg _ ih => exact .template (forall₂_replace Spells.refl ih _ _)
  | param _ ih =>
    refine .func id fun hparams => ?_
    simp only [List.forall_mem_append, List.forall_mem_cons] at hparams ⊢
    exact ⟨hparams.1, ih.listable hparams.2.1, hparams.2.2⟩
  | ret _ ih => exact .func ih.spellable id

/-- What is `const` is spelled by a text. -/
theorem Spells.const (ha : ∀ sig, a ≠ .func sig) : a.Spells (.modified .const a) where
  spellable h := (spelledBy_modified_iff fun _ => trivial).mpr h
  listable h := (spelledBy_modified_iff fun x => ⟨x, rfl⟩).mpr h.spellable
  wrappable h := absurd h (not_wrappable ha)

theorem Spells.of_const (ha : a.Spellable → a.Listable) : (Ty.modified .const a).Spells a where
  spellable h := (spelledBy_modified_iff fun _ => trivial).mp h
  listable h := ha ((spelledBy_modified_iff fun x => ⟨x, rfl⟩).mp h)
  wrappable h := absurd h (not_wrappable nofun)

end Ty

namespace Lua

variable {s : Scope} {w : Way} {a b t t' : Ty}

/-! ## Conversions -/

/-- A template of a kind is converted if each argument is that takes the place of one that is. -/
theorem TemplateKind.Needs.mono {k : TemplateKind} {n : String} {args args' : List Ty} {converts : Ty → Prop}
    (hargs : List.Forall₂ (fun a b => (converts a → converts b) ∧ a.Spells b) args args')
    (hshared : k = .sharedPtr →
      ∀ a rest b rest', args = a :: rest → args' = b :: rest' → a.IsShared → b.IsShared)
    (h : k.Needs w n args converts) : k.Needs w n args' converts := by
  -- the template itself is spelled like the other, for the kinds that spell it
  have hspells : (Ty.template n args).Spells (.template n args') := .template (hargs.imp fun _ _ h => h.2)
  cases k with
  | tuple make => exact Ty.forall_mem_of_forall₂ And.left hargs h
  | map =>
    obtain ⟨key, value, rfl, hkey, hvalue, hcpp⟩ := h
    obtain ⟨key', _, hkeys, hrest, rfl⟩ := List.forall₂_cons_left_iff.mp hargs
    obtain ⟨value', _, hvalues, hnil, rfl⟩ := List.forall₂_cons_left_iff.mp hrest
    cases hnil
    exact ⟨key', value', rfl, hkeys.1 hkey, hvalues.1 hvalue, fun hw => hspells.spellable (hcpp hw)⟩
  | sharedPtr =>
    obtain ⟨a, rest, rfl, ha⟩ := h
    obtain ⟨b, rest', hab, -, rfl⟩ := List.forall₂_cons_left_iff.mp hargs
    refine ⟨b, rest', rfl, ha.imp (hshared rfl a rest b rest' rfl rfl) ?_⟩
    exact fun ⟨ha, hcpp⟩ => ⟨hab.1 ha, fun hw => hab.2.spellable (hcpp hw)⟩
  | nullable | vector =>
    obtain ⟨a, rest, rfl, ha, hcpp⟩ := h
    obtain ⟨b, rest', hab, -, rfl⟩ := List.forall₂_cons_left_iff.mp hargs
    exact ⟨b, rest', rfl, hab.1 ha, fun hw => hab.2.spellable (hcpp hw)⟩
  | optional | function =>
    obtain ⟨a, rest, rfl, ha, hcpp⟩ := h
    obtain ⟨b, rest', hab, -, rfl⟩ := List.forall₂_cons_left_iff.mp hargs
    exact ⟨b, rest', rfl, hab.1 ha, fun hw => hspells.spellable (hcpp hw)⟩
  | ignored =>
    obtain ⟨a, rest, rfl, ha⟩ := h
    obtain ⟨b, rest', hab, -, rfl⟩ := List.forall₂_cons_left_iff.mp hargs
    refine ⟨b, rest', rfl, ?_⟩
    split at ha
    · rw [if_pos ‹_›]
      exact hab.1 ha
    · rw [if_neg ‹_›]
      exact hab.2.spellable ha

namespace Scope

/-- **Conversions.** What is converted and spelled wherever the replaced type is keeps the conversion of the
whole, unless a class is taken out of its shared handle. -/
theorem converts_swap (h : s.IsRegular) (hconverts : ∀ w, s.Converts w a → s.Converts w b) (hab : a.Spells b)
    (hswap : Ty.Swap a b t t')
    (hhandle : a.IsShared → ∀ rest, ¬Ty.Swap (.template sharedPtrName (a :: rest))
      (.template sharedPtrName (b :: rest)) t t') :
    s.Converts w t → s.Converts w t' := by
  induction hswap generalizing w with
  | here => exact hconverts w
  | inner _ ih =>
    rw [converts_modified_iff h, converts_modified_iff h]
    exact ih fun hshared rest hin => hhandle hshared rest (.inner hin)
  | @arg n before t t' after hin ih =>
    have ih' (w : Way) : s.Converts w t → s.Converts w t' :=
      ih fun hshared rest hin => hhandle hshared rest (.arg hin)
    simp only [converts_template_iff h]
    rintro ⟨k, hk, hneeds⟩
    refine ⟨k, hk, hneeds.mono (forall₂_replace (fun t => ⟨id, .refl t⟩) ⟨ih' w, hin.spells hab⟩ _ _) ?_⟩
    rintro rfl u rest u' rest' hu hu' hshared
    cases before with
    | nil =>
      -- a class has no parts, so it is the replaced type itself
      obtain ⟨c, rfl, hc⟩ := hshared
      cases hu
      cases hin
      cases name_of_sharedPtr hk
      exact absurd .here (hhandle ⟨c, rfl, hc⟩ after)
    | cons v vs =>
      cases hu
      cases hu'
      exact hshared
  | param hin ih =>
    have ih' := fun w => @ih w fun hshared rest hin => hhandle hshared rest (.param hin)
    simp only [converts_func_iff h, List.forall_mem_append, List.forall_mem_cons]
    rintro ⟨⟨hbefore, ht, hafter⟩, hret, hcpp⟩
    refine ⟨⟨hbefore, ih' _ ht, hafter⟩, hret, fun hw => ?_⟩
    obtain ⟨⟨hbefore, ht, hafter⟩, hret⟩ := hcpp hw
    exact ⟨⟨hbefore, (hin.spells hab).spellable ht, hafter⟩, hret⟩
  | ret hin ih =>
    have ih' := fun w => @ih w fun hshared rest hin => hhandle hshared rest (.ret hin)
    simp only [converts_func_iff h]
    rintro ⟨hparams, hret, hcpp⟩
    exact ⟨hparams, ih' _ hret, fun hw => ⟨(hcpp hw).1, (hin.spells hab).spellable (hcpp hw).2⟩⟩

end Scope

namespace Converter

variable {c : Converter} {e : String}

/-! ## Constness -/

theorem carries_handle (ha : a.IsShared) (rest : List Ty) :
    c.Carries w (.template sharedPtrName (a :: rest)) e :=
  carries_iff.mpr ((Scope.converts_template_iff isRegular_scope).mpr
    ⟨.sharedPtr, rfl, a, rest, rfl, .inl ha⟩)

/-- A class that is `const` is converted in its handle as it is outside. -/
theorem carries_constHandle_iff (ha : a.IsShared) (rest : List Ty) :
    c.Carries w (.template sharedPtrName (.modified .const a :: rest)) e ↔ w = .fromHost := by
  obtain ⟨cls, rfl, hcls⟩ := ha
  have hconst (s : Scope) (h : s.IsRegular) :
      s.Converts w (.modified .const (.object cls)) ↔ (w = .toHost → ¬cls.shared) :=
    (Scope.converts_modified_iff h).trans Scope.converts_object_iff
  rw [carries_iff, Scope.converts_template_iff isRegular_scope]
  constructor
  · rintro ⟨k, hk, hneeds⟩
    cases Option.some.inj (hk.symm.trans rfl : some k = some .sharedPtr)
    obtain ⟨b, rest', heq, ⟨_, hobject, -⟩ | ⟨hb, -⟩⟩ := hneeds
    · cases heq
      cases hobject
    · cases heq
      cases w with
      | toHost => exact absurd hcls ((hconst _ isRegular_scope).mp hb rfl)
      | fromHost => rfl
  · rintro rfl
    refine ⟨.sharedPtr, rfl, _, rest, rfl, .inr ⟨(hconst _ isRegular_scope).mpr nofun, fun _ => ?_⟩⟩
    exact (Ty.spelledBy_modified_iff fun _ => trivial).mpr ⟨cls.native, rfl, trivial⟩

/-- The type that the host ignores is spelled and not converted. -/
theorem carries_ignored_iff :
    c.Carries .fromHost (.template ignoreArgumentName [.template optionalName [a]]) e ↔ a.Listable := by
  have hspelled : (Ty.template optionalName [a]).Spellable ↔ ∀ b ∈ [a], b.Listable :=
    Ty.spelledBy_listed_iff (fun _ => trivial) (by decide) (by decide) (by decide)
  rw [carries_iff, Scope.converts_template_iff isRegular_scope, ← List.forall_mem_singleton (p := Ty.Listable),
    ← hspelled]
  constructor
  · rintro ⟨k, hk, hneeds⟩
    cases Option.some.inj (hk.symm.trans rfl : some k = some .ignored)
    obtain ⟨b, rest, heq, hb⟩ := hneeds
    cases heq
    exact hb
  · exact fun h => ⟨.ignored, rfl, _, [], rfl, h⟩

/-- **Constness.** A type that can be converted when a part of it is `const` can also be converted without, if
the spelling of the part is a text. A type that can be converted can also be when a part is `const`, except
for a class in its shared handle. Neither condition can be left out: the handle of a shared class goes to the
host and that of the `const` class does not, and a spelling that is no text can stand in a list only when it is
made `const`. -/
theorem constness_convert (c : Converter) (s : Ty) (hs : ∀ sig, s ≠ .func sig) (w : Way) (e : String) :
    (∀ t t', Ty.Swap s (.modified .const s) t t' →
      ((s.Spellable → s.Listable) → c.Carries w t' e → c.Carries w t e) ∧
      ((s.IsShared → ∀ rest, ¬Ty.Swap (.template sharedPtrName (s :: rest))
        (.template sharedPtrName (.modified .const s :: rest)) t t') → c.Carries w t e → c.Carries w t' e)) ∧
    (s.IsShared → ∀ rest, c.Carries w (.template sharedPtrName (s :: rest)) e ∧
      (c.Carries w (.template sharedPtrName (.modified .const s :: rest)) e ↔ w = .fromHost)) ∧
    (s.Spellable → ¬s.Listable →
      c.Carries .fromHost (.template ignoreArgumentName [.template optionalName [.modified .const s]]) e ∧
      ¬c.Carries .fromHost (.template ignoreArgumentName [.template optionalName [s]]) e) := by
  refine ⟨fun t t' hswap => ⟨fun htext => ?_, fun hhandle => ?_⟩, fun hshared rest => ?_,
    fun hspelled htext => ?_⟩
  · rw [carries_iff, carries_iff]
    refine Scope.converts_swap isRegular_scope (fun w => (Scope.converts_modified_iff isRegular_scope).mp)
      (.of_const htext) hswap.symm ?_
    rintro ⟨_, heq, -⟩
    cases heq
  · rw [carries_iff, carries_iff]
    exact Scope.converts_swap isRegular_scope (fun w => (Scope.converts_modified_iff isRegular_scope).mpr)
      (.const hs) hswap hhandle
  · exact ⟨carries_handle hshared rest, carries_constHandle_iff hshared rest⟩
  · rw [carries_ignored_iff, carries_ignored_iff]
    exact ⟨(Ty.spelledBy_modified_iff fun x => ⟨x, rfl⟩).mpr hspelled, htext⟩

/-- A callback for numbers, and the same for numbers that are `const`. -/
def listener (t : Ty) : Ty :=
  .template "std::function" [.func ⟨[("xs", .template "std::vector" [t])], .void, {}⟩]

/-- A callback for `const` numbers comes from the host since the one for numbers does. -/
theorem constness_convert_listener :
    (∀ sig, Ty.primitive "int" ≠ .func sig) ∧
      Ty.Swap (.primitive "int") (.modified .const (.primitive "int")) (listener (.primitive "int"))
        (listener (.modified .const (.primitive "int"))) ∧
      (Ty.primitive "int").Listable ∧ ¬(Ty.primitive "int").IsShared ∧
      plain.Carries .fromHost (listener (.primitive "int")) "1" ∧
      plain.Carries .fromHost (listener (.modified .const (.primitive "int"))) "1" := by
  have hint (sig : Signature Ty) : Ty.primitive "int" ≠ .func sig := nofun
  have hshared : ¬(Ty.primitive "int").IsShared := by
    rintro ⟨_, heq, -⟩
    cases heq
  have hswap : Ty.Swap (.primitive "int") (.modified .const (.primitive "int")) (listener (.primitive "int"))
      (listener (.modified .const (.primitive "int"))) :=
    .first (@Ty.Swap.param _ _ [] "xs" _ _ [] .void {} (.first .here))
  have hcarries : plain.Carries .fromHost (listener (.primitive "int")) "1" := ⟨_, rfl⟩
  obtain ⟨hparts, -⟩ := constness_convert plain (.primitive "int") hint .fromHost "1"
  exact ⟨hint, hswap, ⟨_, rfl, _, rfl⟩, hshared, hcarries,
    (hparts _ _ hswap).2 (fun h => absurd h hshared) hcarries⟩

/-- A class that lives in shared handles. -/
def shelves : Spec where
  templates := [(.str "std::shared_ptr", .exact 1)]
  classes := [(.str "Shelf",
    { native := .str "Shelf", base := .null, handle := .str "ShelfHandle", methods := [], statics := [] })]

/-- The handle of the class that `shelves` declares goes to the host. That of the `const` class is refused, as if
there were none. -/
theorem constness_lost_in_handle :
    ∃ model cls, Model.ofSpec shelves = .ok model ∧ cls ∈ model.classes ∧
      let c : Converter := { module := "app", model := model }
      let shelf : Ty := .object cls.ref
      Ty.Swap shelf (.modified .const shelf) (.template sharedPtrName [shelf])
        (.template sharedPtrName [.modified .const shelf]) ∧
      c.Carries .toHost (.template sharedPtrName [shelf]) "v" ∧
      (c.convert (.template sharedPtrName [.modified .const shelf])).toHost "v" =
        .error (.conversion (.bareShared "Shelf")) :=
  ⟨_, _, rfl, List.mem_singleton.mpr rfl, .first .here, ⟨_, rfl⟩, rfl⟩

end Converter

end Lua

end LuaGlue
