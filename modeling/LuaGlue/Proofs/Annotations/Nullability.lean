import LuaGlue.Proofs.Annotations.Type
import Mathlib.Logic.Relation

/-!
# Nil in annotations

An optional type is written with a question mark at its end, unless the text ends with one already. A text can
end so without being that of an optional type, and then the two are written alike.

- **Layers** (`Layer`, `Core`): what annotations do not write around a type, and the type that is left.
- **Marks** (`Untyped`, `EndsInNil`): the types that are written as `any`, and those whose text ends with a
  question mark. `marks_of_spellType` says that the text shows exactly this.
- **Optional types** (`spellType_optional`): `orNil` adds the question mark, so it is missing for functions
  whose result ends with one, and for entities whose name does.
-/

namespace LuaGlue.Annotations

/-! ## Layers -/

/-- The first type is written as the second, which is a part of it or stands behind it. -/
inductive Layer (model : Model) : Ty → Ty → Prop
  | modified {m t} : Layer model (.modified m t) t
  | keyType {n t} : model.keyType? n = some t → Layer model (.keyType n) t
  | transparent {n t args} : Shape.ofTemplate? n = some .transparent → Layer model (.template n (t :: args)) t

/-- What is left of the type without its layers. -/
def Core (model : Model) (t u : Ty) : Prop :=
  Relation.ReflTransGen (Layer model) t u ∧ ∀ v, ¬Layer model u v

variable {model : Model}

/-- A type has at most one layer, so peeling layers is deterministic. -/
theorem Layer.unique {t u v : Ty} (hu : Layer model t u) (hv : Layer model t v) : u = v := by
  cases hu with
  | modified => cases hv; rfl
  | keyType hn =>
    cases hv with
    | keyType hm => exact Option.some.inj (hn.symm.trans hm)
  | transparent _ => cases hv; rfl

/-- What is left of a type is what is left of the type behind its first layer. -/
theorem Layer.core_iff {t u v : Ty} (h : Layer model t u) : Core model t v ↔ Core model u v := by
  constructor
  · rintro ⟨hreach, hend⟩
    rcases Relation.ReflTransGen.cases_head hreach with rfl | ⟨w, hw, hrest⟩
    · exact absurd h (hend u)
    · rw [h.unique hw]
      exact ⟨hrest, hend⟩
  · rintro ⟨hreach, hend⟩
    exact ⟨hreach.head h, hend⟩

/-- A type without a layer is all that is left of itself. -/
theorem core_self_iff {t v : Ty} (h : ∀ u, ¬Layer model t u) : Core model t v ↔ v = t := by
  constructor
  · rintro ⟨hreach, -⟩
    rcases Relation.ReflTransGen.cases_head hreach with rfl | ⟨w, hw, -⟩
    · rfl
    · exact absurd hw (h w)
  · rintro rfl
    exact ⟨.refl, h⟩

/-! ## The question mark -/

/-- The text ends with a question mark. -/
def Marked (text : String) : Prop := text.toList.getLast? = some '?'

instance (text : String) : Decidable (Marked text) := inferInstanceAs (Decidable (_ = _))

theorem getLast?_append_of_ne (s : String) {text : String} (h : text ≠ "") :
    (s ++ text).toList.getLast? = text.toList.getLast? := by
  have hne : text.toList ≠ [] := by simpa using h
  rw [String.toList_append, List.getLast?_append_of_ne_nil _ hne]

theorem getLast?_arrayOf (inner : String) : (arrayOf inner).toList.getLast? = some ']' := by
  unfold arrayOf
  split
  · exact getLast?_append_of_ne _ (by decide)
  · exact getLast?_append_of_ne _ (by decide)

theorem marked_append_of_ne {s text : String} (h : text ≠ "") : Marked (s ++ text) ↔ Marked text := by
  rw [Marked, Marked, getLast?_append_of_ne s h]

/-- A text that does not end with a question mark decides nothing: it is the text behind it that counts, if
there is one. -/
theorem marked_append_iff {s text : String} (h : ¬Marked s) : Marked (s ++ text) ↔ Marked text := by
  by_cases htext : text = ""
  · rw [htext, String.append_empty]
    exact iff_of_false h (by decide)
  · exact marked_append_of_ne htext

theorem not_marked_any : ¬Marked "any" := by decide

/-- `orNil` adds no second question mark. This is what makes an optional type and the type itself look alike. -/
theorem orNil_of_marked {text : String} (h : Marked text) : orNil text = text := by
  rw [Marked] at h
  simp [orNil, h]

theorem orNil_of_not_marked {text : String} (h : ¬Marked text) (hany : text ≠ "any") :
    orNil text = text ++ "?" := by
  rw [Marked] at h
  simp [orNil, h, hany]

theorem orNil_any : orNil "any" = "any" := by decide

/-- Behind `orNil` every text ends with a question mark, except for `any`, which includes nil. -/
theorem marked_orNil {text : String} : Marked (orNil text) ↔ text ≠ "any" := by
  by_cases hany : text = "any"
  · simp [hany, orNil_any, not_marked_any]
  · by_cases h : Marked text
    · simp [orNil_of_marked h, h, hany]
    · rw [orNil_of_not_marked h hany, marked_append_of_ne (by decide)]
      exact ⟨fun _ => hany, fun _ => by decide⟩

theorem orNil_eq_any {text : String} : orNil text = "any" ↔ text = "any" := by
  constructor
  · intro h
    by_contra hany
    exact not_marked_any (h ▸ marked_orNil.mpr hany)
  · rintro rfl
    exact orNil_any

/-! ## Marks -/

/-- The name that a class, a record or an enumeration is written with. -/
def writtenName? : Ty → Option String
  | .object c => some c.name
  | .record r => some r.name
  | .enumeration e => some e.name
  | _ => none

/-- The type is written as `any`. -/
inductive Untyped (module : String) (model : Model) : Ty → Prop
  | primitive {t n} : Core model t (.primitive n) → primitiveType module n = "any" → Untyped module model t
  | optional {t n a args} : Core model t (.template n (a :: args)) → Shape.ofTemplate? n = some .optional →
      Untyped module model a → Untyped module model t

/-- What is written for the type ends with a question mark: it is an optional type, a function with a result
for which this holds, or an entity with such a name. -/
inductive EndsInNil (module : String) (model : Model) : Ty → Prop
  | optional {t n a args} : Core model t (.template n (a :: args)) → Shape.ofTemplate? n = some .optional →
      ¬Untyped module model a → EndsInNil module model t
  | result {t params ret quals} : Core model t (.func ⟨params, ret, quals⟩) → ¬ret.isVoid →
      EndsInNil module model ret → EndsInNil module model t
  | named {t u n} : Core model t u → writtenName? u = some n → Marked n → EndsInNil module model t

/-- The text shows whether the type is written as `any`, and whether it ends with a question mark. -/
structure Marks (module : String) (model : Model) (t : Ty) (text : String) : Prop where
  any : text = "any" ↔ Untyped module model t
  nil : Marked text ↔ EndsInNil module model t

section

variable {module : String} {t u : Ty} {text : String}

/-- `Untyped` looks at what is left of a type only. -/
theorem Untyped.of_core (ht : Untyped module model t) (h : ∀ v, Core model t v → Core model u v) :
    Untyped module model u := by
  cases ht with
  | primitive hcore hn => exact .primitive (h _ hcore) hn
  | optional hcore hn ha => exact .optional (h _ hcore) hn ha

/-- So does `EndsInNil`, through each of its three ways. -/
theorem EndsInNil.of_core (ht : EndsInNil module model t) (h : ∀ v, Core model t v → Core model u v) :
    EndsInNil module model u := by
  cases ht with
  | optional hcore hn ha => exact .optional (h _ hcore) hn ha
  | result hcore hret hr => exact .result (h _ hcore) hret hr
  | named hcore hname hmark => exact .named (h _ hcore) hname hmark

/-- A layer does not show: what is written for the type behind it has the `Marks` of both. -/
theorem Layer.marks (h : Layer model t u) (hu : Marks module model u text) : Marks module model t text where
  any := hu.any.trans ⟨fun hu => hu.of_core fun _ => h.core_iff.mpr, fun ht => ht.of_core fun _ => h.core_iff.mp⟩
  nil := hu.nil.trans ⟨fun hu => hu.of_core fun _ => h.core_iff.mpr, fun ht => ht.of_core fun _ => h.core_iff.mp⟩

/-- For a type without layers, `Untyped` can be read off the type itself. -/
theorem untyped_iff (ht : ∀ v, ¬Layer model t v) :
    Untyped module model t ↔ (∃ n, t = .primitive n ∧ primitiveType module n = "any") ∨
      ∃ n a args, t = .template n (a :: args) ∧ Shape.ofTemplate? n = some .optional ∧
        Untyped module model a := by
  constructor
  · rintro (⟨hcore, hn⟩ | ⟨hcore, hn, ha⟩)
    · exact .inl ⟨_, ((core_self_iff ht).mp hcore).symm, hn⟩
    · exact .inr ⟨_, _, _, ((core_self_iff ht).mp hcore).symm, hn, ha⟩
  · rintro (⟨n, rfl, hn⟩ | ⟨n, a, args, rfl, hn, ha⟩)
    · exact .primitive ⟨.refl, ht⟩ hn
    · exact .optional ⟨.refl, ht⟩ hn ha

/-- For a type without layers, `EndsInNil` can be read off the type itself: an optional type, a function or an
entity. -/
theorem endsInNil_iff (ht : ∀ v, ¬Layer model t v) :
    EndsInNil module model t ↔
      (∃ n a args, t = .template n (a :: args) ∧ Shape.ofTemplate? n = some .optional ∧
        ¬Untyped module model a) ∨
      (∃ params ret quals, t = .func ⟨params, ret, quals⟩ ∧ ¬ret.isVoid ∧ EndsInNil module model ret) ∨
      ∃ n, writtenName? t = some n ∧ Marked n := by
  constructor
  · rintro (⟨hcore, hn, ha⟩ | ⟨hcore, hret, hr⟩ | ⟨hcore, hname, hmark⟩)
    · exact .inl ⟨_, _, _, ((core_self_iff ht).mp hcore).symm, hn, ha⟩
    · exact .inr (.inl ⟨_, _, _, ((core_self_iff ht).mp hcore).symm, hret, hr⟩)
    · rw [(core_self_iff ht).mp hcore] at hname
      exact .inr (.inr ⟨_, hname, hmark⟩)
  · rintro (⟨n, a, args, rfl, hn, ha⟩ | ⟨params, ret, quals, rfl, hret, hr⟩ | ⟨n, hname, hmark⟩)
    · exact .optional ⟨.refl, ht⟩ hn ha
    · exact .result ⟨.refl, ht⟩ hret hr
    · exact .named ⟨.refl, ht⟩ hname hmark

/-! ## One step -/

/-- The last character tells that a text is not `any` and has no question mark. -/
theorem ne_any_and_not_marked {c : Char} (h : text.toList.getLast? = some c) (hc : c ≠ 'y' ∧ c ≠ '?') :
    text ≠ "any" ∧ ¬Marked text := by
  refine ⟨?_, ?_⟩
  · rintro rfl
    exact hc.1 (Option.some.inj h).symm
  · rw [Marked, h]
    exact fun heq => hc.2 (Option.some.inj heq)

/-- What is written for a primitive is `any` or the name of a type of Lua, which ends with a letter. -/
theorem marks_primitive (n : String) : Marks module model (.primitive n) (primitiveType module n) := by
  have hlayer (v : Ty) : ¬Layer model (.primitive n) v := nofun
  constructor
  case any => simp [untyped_iff hlayer]
  case nil =>
    have hmark : ¬Marked (primitiveType module n) := by
      unfold primitiveType
      split
      · rw [marked_append_of_ne (by decide)]
        decide
      · split <;> decide
    simp [endsInNil_iff hlayer, writtenName?, hmark]

/-- The step for optional types: `orNil` leaves `any` as it is and marks every other text. -/
theorem Marks.optional {n : String} {args : List Ty} (hn : Shape.ofTemplate? n = some .optional)
    (h : Marks module model t text) : Marks module model (.template n (t :: args)) (orNil text) := by
  have hlayer (v : Ty) : ¬Layer model (.template n (t :: args)) v := by
    rintro (_ | _ | htransparent)
    rw [hn] at htransparent
    cases htransparent
  constructor
  case any => simp [orNil_eq_any, h.any, untyped_iff hlayer, hn]
  case nil => simp [marked_orNil, h.any, endsInNil_iff hlayer, hn, writtenName?]

/-- A template of any other shape ends with a bracket, so it is neither `any` nor marked. -/
theorem marks_bracketed {n : String} {args : List Ty} {shape : Shape} {c : Char}
    (hn : Shape.ofTemplate? n = some shape) (hshape : shape ≠ .transparent ∧ shape ≠ .optional)
    (h : text.toList.getLast? = some c) (hc : c ≠ 'y' ∧ c ≠ '?') :
    Marks module model (.template n args) text := by
  have hlayer (v : Ty) : ¬Layer model (.template n args) v := by
    rintro (_ | _ | htransparent)
    rw [hn] at htransparent
    exact hshape.1 (Option.some.inj htransparent)
  obtain ⟨hany, hmark⟩ := ne_any_and_not_marked h hc
  constructor
  case any => simp [hany, untyped_iff hlayer, hn, hshape.2]
  case nil => simp [hmark, endsInNil_iff hlayer, hn, hshape.2, writtenName?]

theorem not_layer_func (sig : Signature Ty) (v : Ty) : ¬Layer model (.func sig) v := nofun

/-- A function is written with its result at the end, so it is marked if the result is; the bracket before it is
not. -/
theorem Marks.func {params : List (String × Ty)} {quals : Qualifiers} {s : String}
    (h : Marks module model t text) (ht : ¬t.isVoid) :
    Marks module model (.func ⟨params, t, quals⟩) ("fun(" ++ s ++ ")" ++ ": " ++ text) := by
  have hlayer : ∀ v, ¬Layer model (.func ⟨params, t, quals⟩) v := not_layer_func _
  have hany : "fun(" ++ s ++ ")" ++ ": " ++ text ≠ "any" := by
    intro h
    simpa using congrArg (fun text => text.toList.head?) h
  have hhead : ¬Marked ("fun(" ++ s ++ ")" ++ ": ") := by
    rw [marked_append_of_ne (by decide)]
    decide
  constructor
  case any => simp [hany, untyped_iff hlayer]
  case nil =>
    rw [marked_append_iff hhead, h.nil, endsInNil_iff hlayer]
    simp [ht, writtenName?]

theorem marks_func_of_isVoid {params : List (String × Ty)} {quals : Qualifiers} {s : String}
    (ht : t.isVoid) : Marks module model (.func ⟨params, t, quals⟩) ("fun(" ++ s ++ ")") := by
  have hlayer : ∀ v, ¬Layer model (.func ⟨params, t, quals⟩) v := not_layer_func _
  have hlast : ("fun(" ++ s ++ ")").toList.getLast? = some ')' := getLast?_append_of_ne _ (by decide)
  obtain ⟨hany, hmark⟩ := ne_any_and_not_marked hlast (by decide)
  constructor
  case any => simp [hany, untyped_iff hlayer]
  case nil => simp [hmark, endsInNil_iff hlayer, ht, writtenName?]

theorem not_layer_of_writtenName {n : String} (ht : writtenName? t = some n) (v : Ty) : ¬Layer model t v := by
  rintro (_ | _ | _) <;> cases ht

/-- An entity is written with its name at the end, behind the module. An empty name leaves the dot there. -/
theorem marks_of_writtenName {n : String} (ht : writtenName? t = some n) :
    Marks module model t (module ++ "." ++ n) := by
  have hlayer : ∀ v, ¬Layer model t v := not_layer_of_writtenName ht
  -- the dot in front of the name tells the text from `any`
  have hany : module ++ "." ++ n ≠ "any" := by
    intro h
    have hdot : '.' ∈ (module ++ "." ++ n).toList := by simp
    rw [h] at hdot
    revert hdot
    decide
  have hhead : ¬Marked (module ++ ".") := by
    rw [marked_append_of_ne (by decide)]
    decide
  constructor
  case any =>
    refine iff_of_false hany ?_
    rw [untyped_iff hlayer]
    rintro (⟨_, rfl, -⟩ | ⟨_, _, _, rfl, -⟩) <;> cases ht
  case nil =>
    rw [marked_append_iff hhead, endsInNil_iff hlayer]
    constructor
    · exact fun hmark => .inr (.inr ⟨n, ht, hmark⟩)
    · rintro (⟨_, _, _, rfl, -⟩ | ⟨_, _, _, rfl, -⟩ | ⟨m, hm, hmark⟩)
      · cases ht
      · cases ht
      · rw [ht] at hm
        cases hm
        exact hmark

theorem marks_opaqueType (n : String) : Marks module model (.opaqueType n) "lightuserdata" := by
  have hlayer (v : Ty) : ¬Layer model (.opaqueType n) v := nofun
  have hmark : ¬Marked "lightuserdata" := by decide
  constructor
  case any => simp [untyped_iff hlayer]
  case nil => simp [endsInNil_iff hlayer, writtenName?, hmark]

/-! ## Whole types -/

/-- One case for each `Shape` of a template: optional, transparent, or one that ends with a bracket. -/
theorem marks_template {keyType : String → Except Error String} {n : String} {args : List Ty}
    (hargs : ∀ a ∈ args, ∀ text, spell module keyType a = .ok text → Marks module model a text)
    (h : spell module keyType (.template n args) = .ok text) :
    Marks module model (.template n args) text := by
  unfold spell at h
  -- in the order of `Shape`: transparent and optional templates look at their first argument, the others end
  -- with a bracket
  split at h
  · rename_i hn
    split at h
    · exact (Layer.transparent hn).marks (hargs _ (by simp) _ h)
    · cases h
  · rename_i hn
    split at h
    · obtain ⟨inner, hinner, htext⟩ := Except.bind_eq_ok.mp h
      cases htext
      exact (hargs _ (by simp) _ hinner).optional hn
    · cases h
  · rename_i hn
    split at h
    · obtain ⟨inner, -, htext⟩ := Except.bind_eq_ok.mp h
      cases htext
      exact marks_bracketed hn (by decide) (getLast?_arrayOf inner) (by decide)
    · cases h
  · rename_i hn
    obtain ⟨inner, -, htext⟩ := Except.bind_eq_ok.mp h
    cases htext
    exact marks_bracketed hn (by decide) (getLast?_append_of_ne _ (by decide)) (by decide)
  · rename_i hn
    split at h
    · obtain ⟨key, -, h⟩ := Except.bind_eq_ok.mp h
      obtain ⟨value, -, htext⟩ := Except.bind_eq_ok.mp h
      cases htext
      exact marks_bracketed hn (by decide) (getLast?_append_of_ne _ (by decide)) (by decide)
    · cases h
  · cases h

/-- What is written shows the marks of the type if what is written for key types does. By induction over the
type. -/
theorem marks_of_spell {keyType : String → Except Error String}
    (hkey : ∀ n text, keyType n = .ok text →
      ∃ u, model.keyType? n = some u ∧ Marks module model u text)
    (h : spell module keyType t = .ok text) : Marks module model t text := by
  induction t using Ty.inductOn generalizing text with
  | primitive n =>
    rw [spell] at h
    cases h
    exact marks_primitive n
  | template n args ih => exact marks_template (fun a ha _ => ih a ha) h
  | func params ret quals ihp ihr =>
    rw [spell] at h
    obtain ⟨ps, -, h⟩ := Except.bind_eq_ok.mp h
    -- the result is written last, unless there is none to write
    split at h
    · rename_i hret
      cases h
      exact marks_func_of_isVoid hret
    · rename_i hret
      obtain ⟨result, hresult, htext⟩ := Except.bind_eq_ok.mp h
      cases htext
      exact (ihr hresult).func hret
  | modified m t ih =>
    rw [spell] at h
    exact Layer.modified.marks (ih h)
  | object | record | enumeration =>
    rw [spell] at h
    cases h
    exact marks_of_writtenName rfl
  | opaqueType n =>
    rw [spell] at h
    cases h
    exact marks_opaqueType n
  | keyType n =>
    rw [spell] at h
    obtain ⟨u, hu, hmarks⟩ := hkey n text h
    exact (Layer.keyType hu).marks hmarks

/-- By induction over `depth`, the number of key types that may still be gone through. -/
theorem marks_of_spellTo {depth : Nat} (h : spellTo module model depth t = .ok text) :
    Marks module model t text := by
  induction depth generalizing t text with
  | zero => cases h
  | succ depth ih =>
    -- the type behind a key type is written with one level less
    rw [spellTo] at h
    refine marks_of_spell (fun n text hn => ?_) h
    split at hn
    · rename_i u hu
      exact ⟨u, hu, ih hn⟩
    · cases hn

/-- **What the end of a text shows.** The text is `any` if the type is `Untyped`, and ends with a question mark
if the type is `EndsInNil`. -/
theorem marks_of_spellType (h : spellType module model t = .ok text) : Marks module model t text :=
  marks_of_spellTo h

/-- The optional templates are the two that `Ty.isOptional` and `Ty.isNullable` know. -/
theorem ofTemplate?_eq_optional {n : String} :
    Shape.ofTemplate? n = some .optional ↔ n = optionalName ∨ n = nullableName := by
  constructor
  · intro h
    unfold Shape.ofTemplate? at h
    split at h <;> cases h
    · exact .inl rfl
    · exact .inr rfl
  · rintro (rfl | rfl) <;> rfl

/-- An optional type is written as its first argument with `orNil`, at the depth that `spellType` allows for
both. -/
theorem spellType_optional {n : String} {args : List Ty} (hn : n = optionalName ∨ n = nullableName)
    (h : spellType module model t = .ok text) :
    spellType module model (.template n (t :: args)) = .ok (orNil text) := by
  rw [spellType, spellTo] at h ⊢
  rw [spell, ofTemplate?_eq_optional.mpr hn]
  simp only [h]
  rfl

/-- **Nil is lost behind another question mark.** Take a type that is written, not as `any`, and is no optional
type under its layers. Making it optional shows in what is written, by a question mark at the end, unless the
type is a function whose result ends with one or an entity whose name does. -/
theorem spellType_optional_eq_iff {n : String} (hn : n = optionalName ∨ n = nullableName)
    (h : spellType module model t = .ok text) (hany : text ≠ "any")
    (hcore : ∀ m args, Core model t (.template m args) → m ≠ optionalName ∧ m ≠ nullableName) :
    ∃ text', spellType module model (.template n [t]) = .ok text' ∧
      (text' = text ↔
        (∃ params ret quals, Core model t (.func ⟨params, ret, quals⟩) ∧ ¬ret.isVoid ∧
          EndsInNil module model ret) ∨
        ∃ u name, Core model t u ∧ writtenName? u = some name ∧ Marked name) ∧
      (text' ≠ text → text' = text ++ "?") := by
  refine ⟨orNil text, spellType_optional hn h, ?_, ?_⟩
  · -- a text that is not `any` stays as it is exactly if it ends with a question mark
    have hself : orNil text = text ↔ EndsInNil module model t := by
      rw [← (marks_of_spellType h).nil]
      constructor
      · intro heq
        rw [← heq]
        exact marked_orNil.mpr hany
      · exact orNil_of_marked
    rw [hself]
    constructor
    · intro hends
      cases hends with
      | optional hopt hm _ => exact absurd (ofTemplate?_eq_optional.mp hm) (not_or.mpr (hcore _ _ hopt))
      | result hfunc hret hr => exact .inl ⟨_, _, _, hfunc, hret, hr⟩
      | named hu hname hmark => exact .inr ⟨_, _, hu, hname, hmark⟩
    · rintro (⟨params, ret, quals, hfunc, hret, hr⟩ | ⟨u, name, hu, hname, hmark⟩)
      · exact .result hfunc hret hr
      · exact .named hu hname hmark
  · intro hne
    refine orNil_of_not_marked (fun hmark => ?_) hany
    exact hne (orNil_of_marked hmark)

end

/-- A class with shared handles, and a key type for functions that may give no number. -/
def kiosk : Spec where
  primitives := [.str "void", .str "int"]
  templates := [(.str "util::Optional", .exact 1), (.str "std::function", .exact 1)]
  keyTypes := [(.str "Poll", .template "std::function" [.func ⟨[], .template "util::Optional" [.named "int"], {}⟩])]
  classes := [(.str "Store", { Model.memberless "Store" .null (.str "StoreRef") with })]

/-- A handle shows that it may be null, a key type for a function does not. -/
theorem spellType_optional_eq_iff_kiosk :
    ∃ m t, Model.ofSpec kiosk = .ok m ∧ m.registry.resolve (.named "StoreRef") = .ok t ∧
      (∃ text, spellType "app" m (.template nullableName [t]) = .ok text ∧ text ≠ "app.Store") ∧
      ∃ text, spellType "app" m (.template optionalName [.keyType "Poll"]) = .ok text ∧
        text = "fun(): integer?" := by
  obtain ⟨m, hm, hresolve, hstore, hpoll, hkey⟩ : ∃ m, Model.ofSpec kiosk = .ok m ∧
      m.registry.resolve (.named "StoreRef") =
        .ok (.template sharedPtrName [.object ⟨⟨"Store", .str "Store"⟩, true, false⟩]) ∧
      spellType "app" m (.template sharedPtrName [.object ⟨⟨"Store", .str "Store"⟩, true, false⟩]) =
        .ok "app.Store" ∧
      spellType "app" m (.keyType "Poll") = .ok "fun(): integer?" ∧
      m.keyType? "Poll" = some (.template "std::function"
        [.func ⟨[], .template optionalName [.primitive "int"], {}⟩]) := ⟨_, rfl, rfl, rfl, rfl, rfl⟩
  refine ⟨m, _, hm, hresolve, ?_, ?_⟩
  · have hcore {v : Ty} : Core m (.template sharedPtrName [.object ⟨⟨"Store", .str "Store"⟩, true, false⟩]) v ↔
        v = .object ⟨⟨"Store", .str "Store"⟩, true, false⟩ :=
      (Layer.transparent rfl).core_iff.trans (core_self_iff (not_layer_of_writtenName rfl))
    obtain ⟨text, htext, hiff, -⟩ := spellType_optional_eq_iff (.inr rfl) hstore (by decide)
      fun n args h => by cases hcore.mp h
    refine ⟨text, htext, fun heq => ?_⟩
    rcases hiff.mp heq with ⟨_, _, _, h, -⟩ | ⟨u, name, h, hname, hmark⟩
    · cases hcore.mp h
    · cases hcore.mp h
      cases hname
      revert hmark
      decide
  · have hcore {v : Ty} : Core m (.keyType "Poll") v ↔
        v = .func ⟨[], .template optionalName [.primitive "int"], {}⟩ :=
      (Layer.keyType hkey).core_iff.trans
        ((Layer.transparent rfl).core_iff.trans (core_self_iff (not_layer_func _)))
    obtain ⟨text, htext, hiff, -⟩ := spellType_optional_eq_iff (.inl rfl) hpoll (by decide)
      fun n args h => by cases hcore.mp h
    refine ⟨text, htext, hiff.mpr (.inl ⟨_, _, _, hcore.mpr rfl, by decide, ?_⟩)⟩
    have hint : Marks "app" m (.template optionalName [.primitive "int"]) "integer?" :=
      (marks_primitive "int").optional rfl
    exact hint.nil.mp (by decide)

/-- The function that may give no number and the optional function of this kind are written alike. -/
theorem spellType_optional_poll :
    ∃ m t, Model.ofSpec kiosk = .ok m ∧
      m.registry.resolve (.func ⟨[], .template "util::Optional" [.named "int"], {}⟩) = .ok t ∧
      spellType "app" m t = .ok "fun(): integer?" ∧
      (∀ n args, Core m t (.template n args) → n ≠ optionalName ∧ n ≠ nullableName) ∧
      spellType "app" m (.template optionalName [t]) = .ok "fun(): integer?" := by
  refine ⟨_, .func ⟨[], .template optionalName [.primitive "int"], {}⟩, rfl, rfl, rfl, fun n args hcore => ?_, rfl⟩
  cases (core_self_iff (not_layer_func _)).mp hcore

end LuaGlue.Annotations
