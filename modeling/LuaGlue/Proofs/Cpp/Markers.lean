import LuaGlue.Proofs.Cpp.Spellable
import LuaGlue.Proofs.Model.Resolution

/-!
# Markers in C++ spellings

Marker templates say something about a type and leave no trace in its C++ spelling.

- **The walk** (`Ty.walk`, `Ty.walkInduct`): the types that spelling comes to, in the order in which it is done
  with them, and the induction along it.
- **Without markers** (`Ty.unmarked`): the type with every marker replaced by its argument and every callback
  by the wrapper that holds it. A spelling is also the spelling of the type without markers (`Ty.cpp_unmarked`).
- **Faults** (`Ty.Unspellable`, `Ty.Misfitting`): what can be wrong with a type itself. Spelling ends with the
  first fault that the walk meets (`Ty.outcome_cpp`), so a conversion error is missed only where something
  misfitting comes first (`Ty.cpp_walk`).
-/

namespace LuaGlue

open Document (Value)

/-! ## Templates -/

/-- The templates around a function that are spelled by its signature. -/
def wrapperNames : List String := [asyncCallbackName, "util::UniqueFunction", "std::function"]

/-- A template that is spelled by the list of its arguments. -/
def IsListed (n : String) : Prop := n ≠ asyncResultName ∧ ¬isMarker n ∧ n ∉ wrapperNames

/-- Spelling tests the C++ name of a template. As a test of its name in the specification, this is membership in
`wrapperNames`. -/
theorem isFunctionWrapper_templateCpp_iff {n : String} :
    isFunctionWrapper (templateCpp n) ↔ n ∈ wrapperNames := by
  unfold templateCpp
  split
  · decide
  · simp_all [isFunctionWrapper, wrapperNames, asyncCallbackName]

theorem ne_of_wrapper {n : String} (h : n ∈ wrapperNames) : n ≠ asyncResultName ∧ ¬isMarker n :=
  Ty.ne_of_isFunctionWrapper (isFunctionWrapper_templateCpp_iff.mpr h)

/-- The value is no text. -/
def Document.Value.isNoText : Value → Bool
  | .str _ => false
  | _ => true

namespace Ty

/-! ## The walk -/

mutual

/-- The types that spelling comes to, each after those inside it: through modifiers, into the first argument of a
marker, into the signature that a wrapper wraps, result first, and into all arguments of other templates. -/
def walk : Ty → List Ty
  | .modified m t => walk t ++ [.modified m t]
  | .template n args =>
    (if n == asyncResultName then []
      else if isMarker n then
        match args with
        | [] => []
        | t :: _ => walk t
      else if wrapperNames.contains n then
        match args with
        | [.func ⟨params, ret, _⟩] => walk ret ++ walkParams params
        | _ => []
      else walkArgs args)
    ++ [.template n args]
  | .func sig => [.func sig]
  | .primitive name => [.primitive name]
  | .object c => [.object c]
  | .record r => [.record r]
  | .enumeration e => [.enumeration e]
  | .opaqueType name => [.opaqueType name]
  | .keyType name => [.keyType name]

/-- The types that spelling comes to in template arguments. -/
def walkArgs : List Ty → List Ty
  | [] => []
  | t :: ts => walk t ++ walkArgs ts

/-- The types that spelling comes to in parameters. -/
def walkParams : List (String × Ty) → List Ty
  | [] => []
  | (_, t) :: ps => walk t ++ walkParams ps

end

/-- The spelling of a type without parts. -/
def leafCpp? : Ty → Option Value
  | .primitive name => some (.str (primitiveCpp name))
  | .object c => some c.native
  | .record r => some r.native
  | .enumeration e => some e.native
  | .opaqueType name | .keyType name => some (.str name)
  | .modified .. | .template .. | .func _ => none

/-- Induction along the walk, with one case for each way to spell a type. A function type is met only where no
wrapper spells it. -/
@[elab_as_elim]
theorem walkInduct {P : Ty → Prop} (t : Ty)
    (leaf : ∀ t v, t.leafCpp? = some v → P t)
    (modified : ∀ m t, P t → P (.modified m t))
    (func : ∀ sig, P (.func sig))
    (asyncResult : ∀ args, P (.template asyncResultName args))
    (bareMarker : ∀ n, isMarker n → P (.template n []))
    (marker : ∀ n t rest, isMarker n → P t → P (.template n (t :: rest)))
    (wrapper : ∀ n params ret quals, n ∈ wrapperNames → (∀ p ∈ params, P p.2) → P ret →
      P (.template n [.func ⟨params, ret, quals⟩]))
    (misused : ∀ n args, n ∈ wrapperNames → (∀ sig, args ≠ [.func sig]) → P (.template n args))
    (listed : ∀ n args, IsListed n → (∀ a ∈ args, P a) → P (.template n args)) : P t := by
  -- the parts of a function type are carried along for the wrapper around it
  suffices h : P t ∧ ∀ params ret quals, t = .func ⟨params, ret, quals⟩ → (∀ p ∈ params, P p.2) ∧ P ret from h.1
  induction t using Ty.inductOn with
  | primitive | object | record | enumeration | opaqueType | keyType => exact ⟨leaf _ _ rfl, by simp⟩
  | modified m t ih => exact ⟨modified m t ih.1, by simp⟩
  | func params ret quals ihp ihr =>
    refine ⟨func _, fun params' ret' quals' heq => ?_⟩
    cases heq
    exact ⟨fun p hp => (ihp p hp).1, ihr.1⟩
  | template n args ih =>
    refine ⟨?_, by simp⟩
    by_cases hasync : n = asyncResultName
    · exact hasync ▸ asyncResult args
    by_cases hmarker : isMarker n
    · cases args with
      | nil => exact bareMarker n hmarker
      | cons t rest => exact marker n t rest hmarker (ih t List.mem_cons_self).1
    by_cases hwrapper : n ∈ wrapperNames
    · by_cases hfunc : ∃ sig, args = [.func sig]
      · obtain ⟨⟨params, ret, quals⟩, rfl⟩ := hfunc
        obtain ⟨hparams, hret⟩ := (ih _ List.mem_cons_self).2 params ret quals rfl
        exact wrapper n params ret quals hwrapper hparams hret
      · exact misused n args hwrapper (not_exists.mp hfunc)
    · exact listed n args ⟨hasync, hmarker, hwrapper⟩ fun a ha => (ih a ha).1

/-! ## Spellings along the walk -/

section Cpp

variable {n : String}

theorem cpp_leaf {t : Ty} {v : Value} (h : t.leafCpp? = some v) : t.cpp = .ok v := by
  cases t <;> cases h <;> rfl

theorem cpp_asyncResult (args : List Ty) :
    (Ty.template asyncResultName args).cpp = .error (.conversion .asyncResult) := by
  unfold cpp
  rw [if_pos (beq_self_eq_true _)]

theorem cpp_bareMarker (h : isMarker n) : (Ty.template n []).cpp = .error (.misfit .argumentExpected) := by
  unfold cpp
  rw [if_neg (by simpa using ne_asyncResult_of_isMarker h), if_pos h]

/-- A marker is spelled as its first argument, and the others are not looked at. -/
theorem cpp_marker (h : isMarker n) (t : Ty) (rest : List Ty) : (Ty.template n (t :: rest)).cpp = t.cpp := by
  conv => lhs; unfold cpp
  rw [if_neg (by simpa using ne_asyncResult_of_isMarker h), if_pos h]

/-- A wrapper around a function is spelled by the signature, result first. The names of the parameters are left
out. -/
theorem cpp_wrapper (h : n ∈ wrapperNames) (params : List (String × Ty)) (ret : Ty) (quals : Qualifiers) :
    (Ty.template n [.func ⟨params, ret, quals⟩]).cpp = (do
      let ret ← ret.cpp
      let params ← joinSpellings (← params.mapM fun p => p.2.cpp)
      return .str (templateCpp n ++ "<" ++ ret.text ++ "(" ++ params ++ ")>")) := by
  rw [← cppParams_eq_mapM]
  conv => lhs; unfold cpp
  rw [if_neg (by simpa using (ne_of_wrapper h).1), if_neg (ne_of_wrapper h).2,
    if_pos (isFunctionWrapper_templateCpp_iff.mpr h)]

/-- A template of `wrapperNames` around anything but one function fails before any of its arguments is spelled.
-/
theorem cpp_misused (h : n ∈ wrapperNames) {args : List Ty} (hargs : ∀ sig, args ≠ [.func sig]) :
    (Ty.template n args).cpp = .error (.conversion (.wrapsNoFunction (Ty.template n args).spelling)) := by
  unfold cpp
  rw [if_neg (by simpa using (ne_of_wrapper h).1), if_neg (ne_of_wrapper h).2,
    if_pos (isFunctionWrapper_templateCpp_iff.mpr h)]
  split
  · exact absurd rfl (hargs _)
  · rfl

/-- Any other template is spelled with the list of its arguments, which `joinSpellings` checks to be texts. -/
theorem cpp_listed (h : IsListed n) (args : List Ty) :
    (Ty.template n args).cpp = (do
      let args ← joinSpellings (← args.mapM cpp)
      return .str (templateCpp n ++ "<" ++ args ++ ">")) := by
  conv => lhs; unfold cpp
  rw [if_neg (by simpa using h.1), if_neg h.2.1, if_neg (mt isFunctionWrapper_templateCpp_iff.mp h.2.2),
    cppArgs_eq_mapM]

end Cpp

section Walk

variable {n : String}

/-- `walk` goes through arguments by a recursion of its own; this is the same as walking each in turn. -/
theorem walkArgs_eq_flatMap (args : List Ty) : walkArgs args = args.flatMap walk := by
  induction args with
  | nil => rfl
  | cons t ts ih => rw [walkArgs, List.flatMap_cons, ih]

theorem walkParams_eq_flatMap (params : List (String × Ty)) : walkParams params = params.flatMap (·.2.walk) := by
  induction params with
  | nil => rfl
  | cons p ps ih => rw [walkParams, List.flatMap_cons, ih]

theorem walk_leaf {t : Ty} {v : Value} (h : t.leafCpp? = some v) : t.walk = [t] := by
  cases t <;> cases h <;> rfl

theorem walk_asyncResult (args : List Ty) :
    (Ty.template asyncResultName args).walk = [.template asyncResultName args] := by
  unfold walk
  rw [if_pos (beq_self_eq_true _), List.nil_append]

theorem walk_bareMarker (h : isMarker n) : (Ty.template n []).walk = [.template n []] := by
  unfold walk
  rw [if_neg (by simpa using ne_asyncResult_of_isMarker h), if_pos h, List.nil_append]

theorem walk_marker (h : isMarker n) (t : Ty) (rest : List Ty) :
    (Ty.template n (t :: rest)).walk = t.walk ++ [.template n (t :: rest)] := by
  conv => lhs; unfold walk
  rw [if_neg (by simpa using ne_asyncResult_of_isMarker h), if_pos h]

/-- The walk through a wrapper is in the order of spelling: the result, the parameters, and the wrapper itself
behind them. -/
theorem walk_wrapper (h : n ∈ wrapperNames) (params : List (String × Ty)) (ret : Ty) (quals : Qualifiers) :
    (Ty.template n [.func ⟨params, ret, quals⟩]).walk =
      ret.walk ++ (params.flatMap (·.2.walk) ++ [.template n [.func ⟨params, ret, quals⟩]]) := by
  rw [← walkParams_eq_flatMap, ← List.append_assoc]
  conv => lhs; unfold walk
  rw [if_neg (by simpa using (ne_of_wrapper h).1), if_neg (ne_of_wrapper h).2, if_pos (by simpa using h)]

/-- Where a wrapper wraps no function, the walk stops at it, as spelling does in `cpp_misused`. -/
theorem walk_misused (h : n ∈ wrapperNames) {args : List Ty} (hargs : ∀ sig, args ≠ [.func sig]) :
    (Ty.template n args).walk = [.template n args] := by
  unfold walk
  rw [if_neg (by simpa using (ne_of_wrapper h).1), if_neg (ne_of_wrapper h).2, if_pos (by simpa using h)]
  split
  · exact absurd rfl (hargs _)
  · rfl

theorem walk_listed (h : IsListed n) (args : List Ty) :
    (Ty.template n args).walk = args.flatMap walk ++ [.template n args] := by
  conv => lhs; unfold walk
  rw [if_neg (by simpa using h.1), if_neg h.2.1, if_neg (by simpa using h.2.2), walkArgs_eq_flatMap]

end Walk

/-! ## Without markers -/

mutual

/-- The type with every marker replaced by its argument and every callback by its wrapper. -/
def unmarked : Ty → Ty
  | .modified m t => .modified m (unmarked t)
  | .template n args =>
    if isMarker n then
      match args with
      | [] => .template n []
      | t :: _ => unmarked t
    else .template (if n == asyncCallbackName then "util::UniqueFunction" else n) (unmarkedArgs args)
  | .func ⟨params, ret, quals⟩ => .func ⟨unmarkedParams params, unmarked ret, quals⟩
  | .primitive name => .primitive name
  | .object c => .object c
  | .record r => .record r
  | .enumeration e => .enumeration e
  | .opaqueType name => .opaqueType name
  | .keyType name => .keyType name

/-- Template arguments without markers. -/
def unmarkedArgs : List Ty → List Ty
  | [] => []
  | t :: ts => unmarked t :: unmarkedArgs ts

/-- Parameters without markers in their types. -/
def unmarkedParams : List (String × Ty) → List (String × Ty)
  | [] => []
  | (name, t) :: ps => (name, unmarked t) :: unmarkedParams ps

end

theorem unmarkedArgs_eq_map (args : List Ty) : unmarkedArgs args = args.map unmarked := by
  induction args with
  | nil => rfl
  | cons t ts ih => rw [unmarkedArgs, List.map_cons, ih]

theorem unmarkedParams_eq_map (params : List (String × Ty)) :
    unmarkedParams params = params.map fun p => (p.1, p.2.unmarked) := by
  induction params with
  | nil => rfl
  | cons p ps ih => rw [unmarkedParams, List.map_cons, ih]

theorem unmarked_marker {n : String} (h : isMarker n) (t : Ty) (rest : List Ty) :
    (Ty.template n (t :: rest)).unmarked = t.unmarked := by
  rw [unmarked, if_pos h]

/-- A template that is no marker keeps its arguments, without their markers. Only the name of a callback
changes. -/
theorem unmarked_template {n : String} (h : ¬isMarker n) (args : List Ty) :
    (Ty.template n args).unmarked =
      .template (if n == asyncCallbackName then "util::UniqueFunction" else n) (args.map unmarked) := by
  conv => lhs; unfold unmarked
  rw [if_neg h, unmarkedArgs_eq_map]

/-- A callback becomes the wrapper that it is spelled as, `util::UniqueFunction`; other wrappers stay. -/
theorem unmarked_wrapper {n : String} (h : n ∈ wrapperNames) (args : List Ty) :
    ∃ n' ∈ wrapperNames, templateCpp n' = templateCpp n ∧
      (Ty.template n args).unmarked = .template n' (args.map unmarked) := by
  rw [unmarked_template (ne_of_wrapper h).2]
  refine ⟨_, ?_, ?_, rfl⟩
  all_goals
    simp only [wrapperNames, List.mem_cons, List.not_mem_nil, or_false] at h
    rcases h with rfl | rfl | rfl <;> decide

/-- A template that `IsListed` is no callback, so it keeps its name. -/
theorem unmarked_listed {n : String} (h : IsListed n) (args : List Ty) :
    (Ty.template n args).unmarked = .template n (args.map unmarked) := by
  have hasync : n ≠ asyncCallbackName := by
    rintro rfl
    exact h.2.2 (by decide)
  rw [unmarked_template h.2.1, if_neg (by simpa using hasync)]

/-- A spelling is also the spelling of the type without markers, by `walkInduct`: a marker is spelled as its
argument, and other templates have the same C++ name. -/
theorem cpp_unmarked (t : Ty) : ∀ v, t.cpp = .ok v → t.unmarked.cpp = .ok v := by
  induction t using walkInduct with
  | leaf t v hv =>
    have hleaf : t.unmarked = t := by cases t <;> cases hv <;> rfl
    rw [hleaf]
    exact fun _ h => h
  | modified m t ih =>
    intro v h
    obtain ⟨u, hu, h⟩ := Except.bind_eq_ok.mp h
    exact Except.bind_eq_ok.mpr ⟨u, ih u hu, h⟩
  | func sig => exact fun _ h => by cases h
  | asyncResult args => simp [cpp_asyncResult]
  | bareMarker n hn => simp [cpp_bareMarker hn]
  | marker n t rest hn ih =>
    rw [cpp_marker hn, unmarked_marker hn]
    exact ih
  | wrapper n params ret quals hn ihp ihr =>
    intro v h
    -- a callback is spelled as the wrapper that it becomes, so the C++ names agree
    obtain ⟨n', hn', hname, hunmarked⟩ := unmarked_wrapper hn [.func ⟨params, ret, quals⟩]
    rw [cpp_wrapper hn] at h
    obtain ⟨r, hr, h⟩ := Except.bind_eq_ok.mp h
    obtain ⟨vs, hvs, h⟩ := Except.bind_eq_ok.mp h
    have hparams : (unmarkedParams params).mapM (fun p => p.2.cpp) = .ok vs := by
      rw [unmarkedParams_eq_map]
      exact Except.mapM_map ihp hvs
    rw [hunmarked, List.map_singleton, unmarked, cpp_wrapper hn', ihr r hr, hparams, hname]
    exact h
  | misused n args hn hargs => simp [cpp_misused hn hargs]
  | listed n args hn ih =>
    intro v h
    rw [cpp_listed hn] at h
    obtain ⟨vs, hvs, h⟩ := Except.bind_eq_ok.mp h
    rw [unmarked_listed hn, cpp_listed hn, Except.mapM_map ih hvs]
    exact h

/-! ## Faults -/

/-- The spelling is the native name of an entity, which is no text. -/
def isNameless : Ty → Bool
  | .template n (t :: _) => isMarker n && isNameless t
  | .object c => c.native.isNoText
  | .record r => r.native.isNoText
  | .enumeration e => e.native.isNoText
  | _ => false

/-- The type has no C++ spelling, whatever its parts are. -/
inductive Unspellable : Ty → ConversionError → Prop
  | asyncResult {args} : Unspellable (.template asyncResultName args) .asyncResult
  | func {sig} : Unspellable (.func sig) (.functionSpelling (Ty.func sig).spelling)
  | wrapper {n args} : n ∈ wrapperNames → (∀ sig, args ≠ [.func sig]) →
      Unspellable (.template n args) (.wrapsNoFunction (Ty.template n args).spelling)

/-- The type is not made as a specification of texts makes it: a marker marks nothing, or a name that is no text
stands in a list. -/
inductive Misfitting : Ty → Misfit → Prop
  | marker {n} : isMarker n → Misfitting (.template n []) .argumentExpected
  | argument {n args a} : IsListed n → a ∈ args → a.isNameless →
      Misfitting (.template n args) .spellingExpected
  | param {n params ret quals p} : n ∈ wrapperNames → p ∈ params → p.2.isNameless →
      Misfitting (.template n [.func ⟨params, ret, quals⟩]) .spellingExpected

/-- What is wrong with a type itself. -/
inductive Fault : Ty → Error → Prop
  | unspellable {t err} : Unspellable t err → Fault t (.conversion err)
  | misfit {t m} : Misfitting t m → Fault t (.misfit m)

/-- No type has faults of both kinds, so which of them a walk meets first decides the error. -/
theorem Unspellable.not_misfitting {t : Ty} {err : ConversionError} {m : Misfit} (h : t.Unspellable err) :
    ¬t.Misfitting m := by
  intro hm
  cases h with
  | asyncResult =>
    cases hm with
    | marker hmarker => exact ne_asyncResult_of_isMarker hmarker rfl
    | argument hlisted => exact hlisted.1 rfl
    | param hwrapper => exact (ne_of_wrapper hwrapper).1 rfl
  | func => cases hm
  | wrapper hwrapper hargs =>
    cases hm with
    | marker hmarker => exact (ne_of_wrapper hwrapper).2 hmarker
    | argument hlisted => exact hlisted.2.2 hwrapper
    | param => exact hargs _ rfl

/-- Nothing is wrong with any of the types themselves. -/
def Sound (ts : List Ty) : Prop := ∀ t ∈ ts, ∀ e, ¬t.Fault e

theorem not_fault_modified {m : Modifier} {t : Ty} {e : Error} : ¬(Ty.modified m t).Fault e := by
  rintro (h | h) <;> cases h

theorem not_fault_leaf {t : Ty} {v : Value} (ht : t.leafCpp? = some v) {e : Error} : ¬t.Fault e := by
  rintro (h | h) <;> cases h <;> cases ht

/-- Nothing is wrong with a marker that marks something; what it marks has been walked over before. -/
theorem not_fault_marker {n : String} (hn : isMarker n) {t : Ty} {rest : List Ty} {e : Error} :
    ¬(Ty.template n (t :: rest)).Fault e := by
  rintro (h | h)
  · cases h with
    | asyncResult => exact ne_asyncResult_of_isMarker hn rfl
    | wrapper hwrapper => exact (ne_of_wrapper hwrapper).2 hn
  · cases h with
    | argument hlisted => exact hlisted.2.1 hn
    | param hwrapper => exact (ne_of_wrapper hwrapper).2 hn

/-- A wrapper around a function is at fault only by a parameter whose spelling is no text. -/
theorem not_fault_wrapper {n : String} (hn : n ∈ wrapperNames) {params : List (String × Ty)} {ret : Ty}
    {quals : Qualifiers} (hparams : ∀ p ∈ params, ¬p.2.isNameless) {e : Error} :
    ¬(Ty.template n [.func ⟨params, ret, quals⟩]).Fault e := by
  rintro (h | h)
  · cases h with
    | asyncResult => exact (ne_of_wrapper hn).1 rfl
    | wrapper _ hargs => exact hargs _ rfl
  · cases h with
    | argument hlisted => exact hlisted.2.2 hn
    | param _ hp hnameless => exact hparams _ hp hnameless

/-- A list of arguments is at fault only by one whose spelling is no text. -/
theorem not_fault_listed {n : String} (hn : IsListed n) {args : List Ty} (hargs : ∀ a ∈ args, ¬a.isNameless)
    {e : Error} : ¬(Ty.template n args).Fault e := by
  rintro (h | h)
  · cases h with
    | asyncResult => exact hn.1 rfl
    | wrapper hwrapper => exact hn.2.2 hwrapper
  · cases h with
    | marker hmarker => exact hn.2.1 hmarker
    | argument _ ha hnameless => exact hargs _ ha hnameless
    | param hwrapper => exact hn.2.2 hwrapper

/-! ## Outcomes -/

/-- The outcome of a walk: a value if it meets no fault, and otherwise the first fault that it meets. -/
inductive Outcome {α : Type} (walk : List Ty) : Except Error α → Prop
  | ok (a : α) : Sound walk → Outcome walk (.ok a)
  | error {before t after e} : walk = before ++ t :: after → Sound before → t.Fault e → Outcome walk (.error e)

namespace Outcome

variable {α β : Type} {first later : List Ty} {x : Except Error α}

/-- Computations in sequence walk over their types in sequence: the second is walked over only if the first
meets no fault. -/
theorem bind {f : α → Except Error β} (h : Outcome first x) (hf : ∀ a, x = .ok a → Outcome later (f a)) :
    Outcome (first ++ later) (x >>= f) := by
  cases h with
  | error hwalk hbefore hfault => exact .error (by rw [hwalk, List.append_assoc, List.cons_append]) hbefore hfault
  | ok a hfirst =>
    rw [Except.ok_bind]
    have hthen := hf a rfl
    generalize f a = y at hthen ⊢
    cases hthen with
    | ok b hlater => exact .ok b (List.forall_mem_append.mpr ⟨hfirst, hlater⟩)
    | error hwalk hbefore hfault =>
      exact .error (by rw [hwalk, List.append_assoc]) (List.forall_mem_append.mpr ⟨hfirst, hbefore⟩) hfault

theorem single {t : Ty} {e : Error} (h : t.Fault e) : Outcome [t] (.error e : Except Error α) :=
  .error (List.nil_append [t]).symm (by simp [Sound]) h

/-- A walk that goes on past a type with no fault of its own has the same outcome. This adds the type that the
walk ends with. -/
theorem snoc {t : Ty} (h : Outcome first x) (ht : ∀ e, ¬t.Fault e) : Outcome (first ++ [t]) x := by
  rw [← bind_pure x]
  exact h.bind fun a _ => .ok a (by simpa [Sound] using ht)

/-- Items that are spelled in turn are walked over in turn, by induction over the list with `bind`. -/
theorem mapM {f : α → Except Error β} {type : α → Ty} {l : List α} (h : ∀ a ∈ l, Outcome (type a).walk (f a)) :
    Outcome (l.flatMap fun a => (type a).walk) (l.mapM f) := by
  induction l with
  | nil => exact .ok [] (by simp [Sound])
  | cons a l ih =>
    obtain ⟨ha, hl⟩ := List.forall_mem_cons.mp h
    rw [List.mapM_cons, List.flatMap_cons]
    refine ha.bind fun b _ => ?_
    rw [← List.append_nil (l.flatMap _)]
    exact (ih hl).bind fun bs _ => .ok _ (by simp [Sound])

/-- A type without a spelling, with nothing misfitting before it, leads to a conversion error: whatever fault
comes first is then a conversion error too. -/
theorem of_unspellable {walk before after : List Ty} {u : Ty} {err : ConversionError} (h : Outcome walk x)
    (hwalk : walk = before ++ u :: after) (hu : u.Unspellable err) (hbefore : ∀ w ∈ before, ∀ m, ¬w.Misfitting m) :
    ∃ err, x = .error (.conversion err) := by
  cases h with
  | ok a hsound => exact absurd (.unspellable hu) (hsound u (by simp [hwalk]) _)
  | @error before' t after' e hwalk' hsound hfault =>
    cases hfault with
    | unspellable _ => exact ⟨_, rfl⟩
    | misfit ht =>
      -- the misfit stands behind the type without a spelling, which would have been met first
      exfalso
      rcases List.append_eq_append_iff.mp (hwalk.symm.trans hwalk') with ⟨mid, hmid, hrest⟩ | ⟨mid, hmid, hrest⟩
      · cases mid with
        | nil =>
          cases hrest
          exact hu.not_misfitting ht
        | cons w mid =>
          cases hrest
          exact hsound u (by simp [hmid]) _ (.unspellable hu)
      · cases mid with
        | nil =>
          cases hrest
          exact hu.not_misfitting ht
        | cons w mid =>
          cases hrest
          exact hbefore t (by simp [hmid]) _ ht

end Outcome

/-- Whether a spelling is a text can be told from the type: `isNameless` follows markers to the entity that
gives its native name. -/
theorem isNoText_of_cpp {t : Ty} {v : Value} (h : t.cpp = .ok v) : v.isNoText = t.isNameless := by
  induction t using walkInduct generalizing v with
  | leaf t w ht =>
    rw [cpp_leaf ht] at h
    cases h
    cases t <;> cases ht <;> rfl
  | modified m t =>
    obtain ⟨u, -, h⟩ := Except.bind_eq_ok.mp h
    cases h
    rfl
  | func sig => cases h
  | asyncResult args => cases (cpp_asyncResult args).symm.trans h
  | bareMarker n hn => cases (cpp_bareMarker hn).symm.trans h
  -- a marker hands its argument's value on, text or not; every other template makes a text
  | marker n t rest hn ih =>
    rw [cpp_marker hn] at h
    rw [ih h, isNameless, hn, Bool.true_and]
  | wrapper n params ret quals hn =>
    rw [cpp_wrapper hn] at h
    obtain ⟨_, -, h⟩ := Except.bind_eq_ok.mp h
    obtain ⟨_, -, h⟩ := Except.bind_eq_ok.mp h
    obtain ⟨_, -, h⟩ := Except.bind_eq_ok.mp h
    cases h
    rw [isNameless, (Bool.not_eq_true _).mp (ne_of_wrapper hn).2]
    rfl
  | misused n args hn hargs => cases (cpp_misused hn hargs).symm.trans h
  | listed n args hn =>
    rw [cpp_listed hn] at h
    obtain ⟨_, -, h⟩ := Except.bind_eq_ok.mp h
    obtain ⟨_, -, h⟩ := Except.bind_eq_ok.mp h
    cases h
    cases args with
    | nil => rfl
    | cons t rest =>
      rw [isNameless, (Bool.not_eq_true _).mp hn.2.1]
      rfl

end Ty

/-- One spelling that is no text is enough for the list to fail, by induction over the spellings before it. -/
theorem joinSpellings_of_noText {vs : List Value} (h : ∃ v ∈ vs, v.isNoText) :
    joinSpellings vs = .error (.misfit .spellingExpected) := by
  induction vs with
  | nil => simp at h
  | cons v vs ih =>
    rw [joinSpellings, List.mapM_cons]
    cases v with
    | str s =>
      have hrest := ih (by simpa [Value.isNoText] using h)
      rw [joinSpellings] at hrest
      rw [Except.ok_bind]
      generalize (List.mapM _ vs : Except Error (List String)) = texts at hrest ⊢
      cases texts with
      | ok _ => cases hrest
      | error e => exact hrest
    | null | bool _ | int _ | float _ | day _ | moment _ | bytes _ | list _ | set _ | map _ => rfl

namespace Ty

/-- A list of spellings is checked by `joinSpellings` after all of them are made, so a fault inside any of the
items comes first. -/
theorem outcome_joinSpellings {α β : Type} {type : α → Ty} {l : List α} {vs : List Value}
    (hvs : l.mapM (fun a => (type a).cpp) = .ok vs) {t : Ty} (f : String → β)
    (hfault : ∀ a ∈ l, (type a).isNameless → t.Fault (.misfit .spellingExpected))
    (hsound : (∀ a ∈ l, ¬(type a).isNameless) → ∀ e, ¬t.Fault e) :
    Outcome [t] (joinSpellings vs >>= fun text => pure (f text)) := by
  by_cases h : ∃ a ∈ l, (type a).isNameless
  · obtain ⟨a, ha, hnameless⟩ := h
    obtain ⟨v, hv, hcpp⟩ := Except.exists_of_mapM hvs ha
    rw [joinSpellings_of_noText ⟨v, hv, (isNoText_of_cpp hcpp).trans hnameless⟩]
    exact .single (hfault a ha hnameless)
  · have hnamed : ∀ a ∈ l, ¬(type a).isNameless := fun a ha hnameless => h ⟨a, ha, hnameless⟩
    obtain ⟨text, htext⟩ := joinSpellings_ok_iff.mpr fun v hv => by
      obtain ⟨a, ha, hcpp⟩ := Except.exists_of_mem_mapM hvs hv
      have hv := hnamed a ha
      rw [← isNoText_of_cpp hcpp] at hv
      cases v <;> simp_all [Value.isNoText]
    rw [htext]
    exact .ok _ (by simpa [Sound] using hsound hnamed)

/-- Spelling a type fails with the first fault that its walk meets, by `walkInduct` with the equations of `cpp`
and `walk` for each case. -/
theorem outcome_cpp (t : Ty) : Outcome t.walk t.cpp := by
  induction t using walkInduct with
  | leaf t v ht =>
    rw [walk_leaf ht, cpp_leaf ht]
    exact .ok v (by simpa [Sound] using fun e => not_fault_leaf ht)
  | modified m t ih =>
    have hcpp : Outcome t.walk (do return .str ((← t.cpp).text ++ m.suffix) : Except Error Value) := by
      rw [← List.append_nil t.walk]
      exact ih.bind fun v _ => .ok _ (by simp [Sound])
    exact hcpp.snoc fun e => not_fault_modified
  | func sig => exact .single (.unspellable .func)
  | asyncResult args =>
    rw [walk_asyncResult, cpp_asyncResult]
    exact .single (.unspellable .asyncResult)
  | bareMarker n hn =>
    rw [walk_bareMarker hn, cpp_bareMarker hn]
    exact .single (.misfit (.marker hn))
  | marker n t rest hn ih =>
    rw [walk_marker hn, cpp_marker hn]
    exact ih.snoc fun e => not_fault_marker hn
  -- the result is spelled first, then the parameters, and their texts are checked last, in the order of the
  -- walk
  | wrapper n params ret quals hn ihp ihr =>
    rw [walk_wrapper hn, cpp_wrapper hn]
    exact ihr.bind fun r _ => (Outcome.mapM ihp).bind fun vs hvs =>
      outcome_joinSpellings hvs _ (fun p hp hnameless => .misfit (.param hn hp hnameless))
        fun hparams e => not_fault_wrapper hn hparams
  | misused n args hn hargs =>
    rw [walk_misused hn hargs, cpp_misused hn hargs]
    exact .single (.unspellable (.wrapper hn hargs))
  | listed n args hn ih =>
    rw [walk_listed hn, cpp_listed hn]
    exact (Outcome.mapM ih).bind fun vs hvs =>
      outcome_joinSpellings hvs _ (fun a ha hnameless => .misfit (.argument hn ha hnameless))
        fun hargs e => not_fault_listed hn hargs

/-- **Markers leave no trace.** A spelling is also the spelling of the type without markers. Spelling fails by a
conversion error exactly if its walk meets a type that has no spelling before any that is not made as types are. -/
theorem cpp_walk (t : Ty) :
    (∀ v, t.cpp = .ok v → t.unmarked.cpp = .ok v) ∧
    ((∃ err, t.cpp = .error (.conversion err)) ↔
      ∃ before u after err, t.walk = before ++ u :: after ∧ u.Unspellable err ∧
        ∀ w ∈ before, ∀ m, ¬w.Misfitting m) := by
  refine ⟨cpp_unmarked t, ?_⟩
  have houtcome := outcome_cpp t
  constructor
  · rintro ⟨err, hcpp⟩
    rw [hcpp] at houtcome
    cases houtcome with
    | error hwalk hsound hfault =>
      cases hfault with
      | unspellable h => exact ⟨_, _, _, err, hwalk, h, fun w hw m hm => hsound w hw _ (.misfit hm)⟩
  · rintro ⟨before, u, after, err, hwalk, hu, hbefore⟩
    exact houtcome.of_unspellable hwalk hu hbefore

/-- A marked callback with a marked parameter, which is spelled as a `util::UniqueFunction` over the parameter's
own type. -/
theorem cpp_walk_callback :
    let t : Ty := .template nullableName [.template asyncCallbackName
      [.func ⟨[("value", .template ignoreArgumentName [.modified .pointer (.primitive "int")])], .void, {}⟩]]
    let plain : Ty := .template "util::UniqueFunction"
      [.func ⟨[("value", .modified .pointer (.primitive "int"))], .void, {}⟩]
    t.cpp = .ok (.str "util::UniqueFunction<void(int*)>") ∧ t.unmarked = plain ∧
      plain.cpp = .ok (.str "util::UniqueFunction<void(int*)>") := by
  intro t plain
  have hcpp : t.cpp = .ok (.str "util::UniqueFunction<void(int*)>") := rfl
  exact ⟨hcpp, rfl, (cpp_walk t).1 _ hcpp⟩

/-- A native name that is no text is met before the wrapper that wraps no function. -/
theorem no_conversionError_nameless :
    let store : ClassRef := { name := "Store", native := .null, shared := false, needsDeref := false }
    let t : Ty := .template "std::pair" [.template "std::vector" [.object store],
      .template "std::function" [.primitive "int"]]
    ¬((∃ err, t.cpp = .error (.conversion err)) ↔ ∃ u ∈ t.walk, ∃ err, u.Unspellable err) := by
  intro store t h
  have hmisused : t.walk[2]? = some (.template "std::function" [.primitive "int"]) := rfl
  have hcpp : t.cpp = .error (.misfit .spellingExpected) := rfl
  obtain ⟨err, herr⟩ := h.mpr ⟨_, List.mem_of_getElem? hmisused, _, .wrapper (by decide) (by simp)⟩
  cases hcpp.symm.trans herr

end Ty

end LuaGlue
