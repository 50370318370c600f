import LuaGlue.Proofs.Cpp.Spelling

/-!
# Types that have a C++ spelling

Whether a type has a C++ spelling is decided part by part. A spelling may be any value, but only a text can
stand in a list of template arguments or parameter types.

- **Spellings** (`Ty.SpelledBy`): the type has a spelling with a given property; `Ty.Spellable` if any will do,
  `Ty.Listable` if it is a text.
- **Signatures** (`Ty.Wrappable`): a function type has no spelling, but a wrapper can spell its signature.
- **Templates**: a marker is spelled as its argument (`Ty.spelledBy_marker_iff`), a wrapper by a signature
  (`Ty.spelledBy_wrapper_iff`), any other template by a list of its arguments (`Ty.spelledBy_listed_iff`).
-/

namespace LuaGlue

open Document (Value)

variable {P : Value → Prop}

namespace Ty

/-- The type has a C++ spelling with the property. -/
def SpelledBy (P : Value → Prop) (t : Ty) : Prop := ∃ v, t.cpp = .ok v ∧ P v

/-- The type has a C++ spelling. -/
def Spellable (t : Ty) : Prop := t.SpelledBy fun _ => True

/-- The type has a C++ spelling that can stand in a list. -/
def Listable (t : Ty) : Prop := t.SpelledBy fun v => ∃ x, v = .str x

/-- A function type whose result and parameters a wrapper can spell. -/
def Wrappable (t : Ty) : Prop :=
  ∃ params ret quals, t = .func ⟨params, ret, quals⟩ ∧ ret.Spellable ∧ ∀ p ∈ params, p.2.Listable

theorem not_wrappable {t : Ty} (h : ∀ sig, t ≠ .func sig) : ¬t.Wrappable := by
  rintro ⟨_, _, _, heq, -⟩
  exact h _ heq

theorem spellable_iff_cpp {t : Ty} : t.Spellable ↔ ∃ v, t.cpp = .ok v := by
  simp [Spellable, SpelledBy]

theorem cppText_ok_iff {t : Ty} : (∃ text, t.cppText = .ok text) ↔ t.Spellable :=
  Except.bind_pure_ok_iff.trans spellable_iff_cpp.symm

theorem Listable.spellable {t : Ty} (h : t.Listable) : t.Spellable := by
  obtain ⟨v, hv, -⟩ := h
  exact ⟨v, hv, trivial⟩

end Ty

/-! ## Lists -/

theorem joinSpellings_ok_iff {vs : List Value} :
    (∃ text, joinSpellings vs = .ok text) ↔ ∀ v ∈ vs, ∃ x, v = .str x := by
  refine Except.bind_pure_ok_iff.trans (Except.mapM_ok_iff.trans (forall₂_congr fun v _ => ?_))
  cases v <;> simp

/-- Items with spellings can be listed if all the spellings are texts. -/
theorem exists_list_iff {α : Type} {l : List α} {type : α → Ty} :
    (∃ text, (l.mapM fun a => (type a).cpp) >>= joinSpellings = .ok text) ↔
      ∀ a ∈ l, (type a).Listable := by
  constructor
  · rintro ⟨text, h⟩ a ha
    obtain ⟨vs, hvs, htext⟩ := Except.bind_eq_ok.mp h
    obtain ⟨v, hv, hcpp⟩ := Except.exists_of_mapM hvs ha
    exact ⟨v, hcpp, joinSpellings_ok_iff.mp ⟨text, htext⟩ v hv⟩
  · intro h
    obtain ⟨vs, hvs⟩ := Except.mapM_ok_iff.mpr fun a ha => Ty.spellable_iff_cpp.mp (h a ha).spellable
    obtain ⟨text, htext⟩ := joinSpellings_ok_iff.mpr fun v hv => by
      obtain ⟨a, ha, hcpp⟩ := Except.exists_of_mem_mapM hvs hv
      obtain ⟨v', hcpp', hx⟩ := h a ha
      rw [hcpp] at hcpp'
      cases hcpp'
      exact hx
    exact ⟨text, Except.bind_eq_ok.mpr ⟨vs, hvs, htext⟩⟩

theorem declareParams_ok_iff {params : List (String × Ty)} :
    (∃ text, declareParams params = .ok text) ↔ ∀ p ∈ params, p.2.Spellable := by
  refine Except.bind_pure_ok_iff.trans (Except.mapM_ok_iff.trans (forall₂_congr fun p _ => ?_))
  exact Except.bind_pure_ok_iff.trans Ty.cppText_ok_iff

namespace Ty

/-! ## Types -/

/-- What is written around the parts of a spelling makes a text. -/
theorem exists_text_iff (hP : ∀ x, P (.str x)) {α : Type} {x : Except Error α} {f : α → String} :
    (∃ v, (x >>= fun a => pure (Value.str (f a))) = .ok v ∧ P v) ↔ ∃ a, x = .ok a := by
  constructor
  · rintro ⟨v, hv, -⟩
    obtain ⟨a, ha, -⟩ := Except.bind_eq_ok.mp hv
    exact ⟨a, ha⟩
  · rintro ⟨a, ha⟩
    exact ⟨_, Except.bind_eq_ok.mpr ⟨a, ha, rfl⟩, hP _⟩

theorem spelledBy_modified_iff (hP : ∀ x, P (.str x)) {m : Modifier} {t : Ty} :
    (Ty.modified m t).SpelledBy P ↔ t.Spellable := by
  rw [spellable_iff_cpp, SpelledBy, cpp]
  exact exists_text_iff hP

theorem not_spelledBy_func {sig : Signature Ty} : ¬(Ty.func sig).SpelledBy P := by
  rintro ⟨v, hv, -⟩
  cases hv

/-! ## Templates -/

variable {n : String} {args : List Ty}

theorem not_spelledBy_asyncResult : ¬(Ty.template asyncResultName args).SpelledBy P := by
  rintro ⟨v, hv, -⟩
  unfold cpp at hv
  rw [if_pos (beq_self_eq_true _)] at hv
  cases hv

theorem ne_asyncResult_of_isMarker (h : isMarker n) : n ≠ asyncResultName := by
  rintro rfl
  revert h
  decide

/-- A marker is spelled as its argument. -/
theorem spelledBy_marker_iff (h : isMarker n) :
    (Ty.template n args).SpelledBy P ↔ ∃ a rest, args = a :: rest ∧ a.SpelledBy P := by
  have hne : ¬(n == asyncResultName) := by simpa using ne_asyncResult_of_isMarker h
  cases args with
  | nil =>
    refine iff_of_false ?_ (by simp)
    rintro ⟨v, hv, -⟩
    unfold cpp at hv
    rw [if_neg hne, if_pos h] at hv
    cases hv
  | cons a rest =>
    have hcpp : (Ty.template n (a :: rest)).cpp = a.cpp := by
      conv_lhs => unfold cpp
      rw [if_neg hne, if_pos h]
    simp [SpelledBy, hcpp]

theorem ne_of_isFunctionWrapper (h : isFunctionWrapper (templateCpp n)) :
    n ≠ asyncResultName ∧ ¬isMarker n := by
  have hnames : n ≠ "AsyncResult" ∧ n ≠ "Nullable" ∧ n ≠ "IgnoreArgument" := by
    refine ⟨?_, ?_, ?_⟩ <;>
    · rintro rfl
      revert h
      decide
  simpa [isMarker, asyncResultName, nullableName, ignoreArgumentName] using hnames

/-- A wrapper spells the signature of the one function that it wraps. -/
theorem spelledBy_wrapper_iff (hP : ∀ x, P (.str x)) (h : isFunctionWrapper (templateCpp n)) :
    (Ty.template n args).SpelledBy P ↔ ∃ a, args = [a] ∧ a.Wrappable := by
  obtain ⟨hasync, hmarker⟩ := ne_of_isFunctionWrapper h
  rw [SpelledBy]
  unfold cpp
  rw [if_neg (by simpa using hasync), if_neg hmarker, if_pos h]
  split
  · rename_i params ret quals
    -- what the wrapper spells of the function is what `Wrappable` asks for
    have hparts : (Ty.func ⟨params, ret, quals⟩).Wrappable ↔
        (∃ v, ret.cpp = .ok v) ∧ ∃ text, (cppParams params >>= joinSpellings) = .ok text := by
      rw [cppParams_eq_mapM, exists_list_iff, ← spellable_iff_cpp]
      constructor
      · rintro ⟨params, ret, quals, heq, hparts⟩
        cases heq
        exact hparts
      · exact fun hparts => ⟨params, ret, quals, rfl, hparts⟩
    simp only [List.cons.injEq, and_true, exists_eq_left', hparts]
    constructor
    · rintro ⟨v, hv, -⟩
      obtain ⟨r, hr, hv⟩ := Except.bind_eq_ok.mp hv
      obtain ⟨vs, hvs, hv⟩ := Except.bind_eq_ok.mp hv
      obtain ⟨text, htext, -⟩ := Except.bind_eq_ok.mp hv
      exact ⟨⟨r, hr⟩, text, Except.bind_eq_ok.mpr ⟨vs, hvs, htext⟩⟩
    · rintro ⟨⟨r, hr⟩, text, htext⟩
      obtain ⟨vs, hvs, htext⟩ := Except.bind_eq_ok.mp htext
      simp only [hr, hvs, htext, Except.ok_bind]
      exact ⟨_, rfl, hP _⟩
  -- around anything else the wrapper is not spelled
  · rename_i hne
    refine iff_of_false (by simp) ?_
    rintro ⟨a, rfl, params, ret, quals, rfl, -⟩
    exact hne params ret quals rfl

/-- Any other template is spelled by the list of its arguments. -/
theorem spelledBy_listed_iff (hP : ∀ x, P (.str x)) (hasync : n ≠ asyncResultName) (hmarker : ¬isMarker n)
    (hwrapper : ¬isFunctionWrapper (templateCpp n)) :
    (Ty.template n args).SpelledBy P ↔ ∀ a ∈ args, a.Listable := by
  rw [SpelledBy]
  unfold cpp
  rw [if_neg (by simpa using hasync), if_neg hmarker, if_neg hwrapper, cppArgs_eq_mapM, ← exists_list_iff,
    ← exists_text_iff hP (f := fun text => templateCpp n ++ "<" ++ text ++ ">")]
  simp only [bind_assoc]

end Ty

end LuaGlue
