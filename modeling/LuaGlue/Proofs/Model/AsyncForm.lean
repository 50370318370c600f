import LuaGlue.Proofs.Model.Async

/-!
# The asynchronous form of a signature

What `Signature.async?` makes of a signature whose templates have arguments, said by the shape of the
signature alone.

- **Layers** (`Ty.Strips`): taking all constness and references off a type.
- **Values** (`Ty.Yields`): what a value given to a callback is a result of, out of one optional or nullable.
- **Results** (`Ty.Delivers`): the result that a callback hands over, `void` if it takes only an error.
- **Three outcomes** (`Signature.async?_exact`): no asynchronous form, a broken rule, or a form with the
  result of the callback. A form is not asynchronous again.
-/

namespace LuaGlue

namespace Ty

/-! ## Layers -/

/-- The type is a constant or a reference. -/
def isQualified : Ty → Bool
  | .modified .const _ => true
  | .modified .ref _ => true
  | .modified .rref _ => true
  | _ => false

/-- All constness and references taken off `t`, `u` is left. -/
inductive Strips : Ty → Ty → Prop
  | done {t} : ¬t.isQualified → Strips t t
  | layer {m t u} : m ≠ .pointer → Strips t u → Strips (.modified m t) u

theorem strips_bare : ∀ t : Ty, t.Strips t.bare
  | .modified .const t => .layer (by decide) (strips_bare t)
  | .modified .ref t => .layer (by decide) (strips_bare t)
  | .modified .rref t => .layer (by decide) (strips_bare t)
  | .modified .pointer _ => .done Bool.false_ne_true
  | .primitive _ => .done Bool.false_ne_true
  | .template _ _ => .done Bool.false_ne_true
  | .func _ => .done Bool.false_ne_true
  | .object _ => .done Bool.false_ne_true
  | .record _ => .done Bool.false_ne_true
  | .enumeration _ => .done Bool.false_ne_true
  | .opaqueType _ => .done Bool.false_ne_true
  | .keyType _ => .done Bool.false_ne_true

theorem Strips.bare_eq {t u : Ty} (h : t.Strips u) : t.bare = u := by
  induction h with
  | @done t h =>
    cases t with
    | modified m t =>
      cases m with
      | pointer => rfl
      | const | ref | rref => exact absurd rfl h
    | _ => rfl
  | @layer m t u hm _ ih =>
    cases m with
    | pointer => exact absurd rfl hm
    | const | ref | rref => exact ih

/-- `Ty.bare` takes off all layers. -/
theorem bare_eq_iff {t u : Ty} : t.bare = u ↔ t.Strips u :=
  ⟨fun h => h ▸ strips_bare t, Strips.bare_eq⟩

/-! ## Results -/

/-- A value of type `t` given to a callback is a result of type `r`: all layers are taken off, and then at
most one optional or nullable. -/
inductive Yields (t : Ty) : Ty → Prop
  | held {n r rest} : t.Strips (.template n (r :: rest)) → n = optionalName ∨ n = nullableName → Yields t r
  | itself {r} : t.Strips r → ¬r.isOptional → ¬r.isNullable → Yields t r

theorem resumedWith_eq_ok {t r : Ty} : t.resumedWith = .ok r ↔ t.Yields r := by
  constructor
  · intro h
    unfold resumedWith at h
    split at h
    · rename_i n args hbare
      rw [bare_eq_iff] at hbare
      split at h
      · rename_i hn
        cases args with
        | nil => cases h
        | cons a rest =>
          cases h
          -- the value is optional or nullable, and what it holds is handed on
          exact .held hbare (by simpa using hn)
      · rename_i hn
        cases h
        rw [Bool.or_eq_true, not_or] at hn
        exact .itself hbare hn.1 hn.2
    · rename_i hne
      cases h
      -- what is no template is neither optional nor nullable
      have hplain (name : String) : ¬t.bare.isTemplate name := by
        cases hbare : t.bare with
        | template n args => exact absurd hbare (hne n args)
        | _ => exact Bool.false_ne_true
      exact .itself (strips_bare t) (hplain _) (hplain _)
  · intro h
    cases h with
    | held hstrips hn =>
      rw [resumedWith, hstrips.bare_eq]
      simp [hn, firstArg]
    | itself hstrips hopt hnull =>
      rw [resumedWith, hstrips.bare_eq]
      split
      · rename_i n args
        have hn : ¬(n == optionalName || n == nullableName) := by
          rw [Bool.or_eq_true, not_or]
          exact ⟨hopt, hnull⟩
        rw [if_neg hn]
      · rfl

/-- The callback hands over a result of type `r`. -/
inductive Delivers : Ty → Ty → Prop
  | error {x err quals} : err.CarriesError → Delivers (.func ⟨[(x, err)], .void, quals⟩) .void
  | value {x t y err quals r} : err.CarriesError → t.Yields r →
      Delivers (.func ⟨[(x, t), (y, err)], .void, quals⟩) r

end Ty

theorem callbackResult_eq_ok_iff {callback r : Ty} {params : List (String × Ty)}
    (h : ∀ p ∈ params, p.2.Filled) :
    callbackResult callback params = .ok r ↔
      (∃ x err, params = [(x, err)] ∧ err.CarriesError ∧ r = .void) ∨
        ∃ x t y err, params = [(x, t), (y, err)] ∧ err.CarriesError ∧ t.Yields r := by
  match params with
  | [] => simp [callbackResult]
  | [(x, err)] =>
    obtain ⟨carries, hcarries, hiff⟩ := Ty.isErrorCarrier_ok (h (x, err) (by simp))
    have hvoid : callbackResult callback [(x, err)] = .ok r ↔ carries = true ∧ .void = r := by
      rw [callbackResult, hcarries, Except.ok_bind]
      cases carries <;> simp
    rw [hvoid, hiff]
    simp [eq_comm]
  | [(x, t), (y, err)] =>
    obtain ⟨carries, hcarries, hiff⟩ := Ty.isErrorCarrier_ok (h (y, err) (by simp))
    have hvalue : callbackResult callback [(x, t), (y, err)] = .ok r ↔
        carries = true ∧ t.resumedWith = .ok r := by
      rw [callbackResult, hcarries, Except.ok_bind]
      cases carries <;> simp
    rw [hvalue, hiff, Ty.resumedWith_eq_ok]
    simp
  | _ :: _ :: _ :: _ => simp [callbackResult]

theorem asyncResultOf_eq_ok_iff {callback r : Ty} (h : callback.Filled) :
    asyncResultOf callback = .ok r ↔ callback.Delivers r := by
  constructor
  · intro hr
    cases callback with
    | func σ =>
      obtain ⟨params, ret, quals⟩ := σ
      cases h with
      | func hparams _ =>
        rw [asyncResultOf] at hr
        split at hr
        · rename_i hvoid
          rw [Ty.isVoid_iff] at hvoid
          subst hvoid
          -- the two shapes of callbacks, with an error only or with a value in front of it
          rcases (callbackResult_eq_ok_iff hparams).mp hr with
            ⟨x, err, rfl, herr, rfl⟩ | ⟨x, t, y, err, rfl, herr, hyields⟩
          · exact .error herr
          · exact .value herr hyields
        · cases hr
    | _ => cases hr
  · intro hr
    cases hr with
    | error herr =>
      cases h with
      | func hparams _ =>
        rw [asyncResultOf, if_pos (Ty.isVoid_iff.mpr rfl)]
        exact (callbackResult_eq_ok_iff hparams).mpr (.inl ⟨_, _, rfl, herr, rfl⟩)
    | value herr hyields =>
      cases h with
      | func hparams _ =>
        rw [asyncResultOf, if_pos (Ty.isVoid_iff.mpr rfl)]
        exact (callbackResult_eq_ok_iff hparams).mpr (.inr ⟨_, _, _, _, rfl, herr, hyields⟩)

theorem callbackResult_error {callback : Ty} {params : List (String × Ty)} {e : Error}
    (h : ∀ p ∈ params, p.2.Filled) (he : callbackResult callback params = .error e) : ∃ b, e = .bind b := by
  -- an error other than one of binding could only come from looking at the types, which are filled
  match params with
  | [] =>
    cases he
    exact ⟨_, rfl⟩
  | [(x, err)] =>
    obtain ⟨carries, hcarries, -⟩ := Ty.isErrorCarrier_ok (h (x, err) (by simp))
    rw [callbackResult, hcarries, Except.ok_bind] at he
    cases carries with
    | true => cases he
    | false =>
      cases he
      exact ⟨_, rfl⟩
  | [(x, t), (y, err)] =>
    obtain ⟨carries, hcarries, -⟩ := Ty.isErrorCarrier_ok (h (y, err) (by simp))
    obtain ⟨u, hu⟩ := Ty.resumedWith_ok (h (x, t) (by simp))
    rw [callbackResult, hcarries, Except.ok_bind] at he
    cases carries with
    | true =>
      rw [if_pos rfl, hu] at he
      cases he
    | false =>
      cases he
      exact ⟨_, rfl⟩
  | _ :: _ :: _ :: _ =>
    cases he
    exact ⟨_, rfl⟩

/-- A callback whose templates have arguments is only ever refused by a rule. -/
theorem asyncResultOf_error {callback : Ty} {e : Error} (h : callback.Filled)
    (he : asyncResultOf callback = .error e) : ∃ b, e = .bind b := by
  cases callback with
  | func σ =>
    obtain ⟨params, ret, quals⟩ := σ
    cases h with
    | func hparams _ =>
      rw [asyncResultOf] at he
      split at he
      · exact callbackResult_error hparams he
      · cases he
        exact ⟨_, rfl⟩
  | _ => cases he; exact ⟨_, rfl⟩

namespace Signature

variable {σ : Signature Ty} {init : List (String × Ty)} {p : String × Ty} {callback : Ty} {rest : List Ty}

/-! ## Three outcomes -/

theorem asyncCallback?_of_last (hret : σ.ret = .void) (hparams : σ.params = init ++ [p])
    (hlast : p.2.Strips (.template asyncCallbackName rest)) : σ.asyncCallback? = some rest :=
  asyncCallback?_eq_some.mpr ⟨hret, p, by simp [hparams], hlast.bare_eq⟩

theorem asyncCallback?_eq_none_iff : σ.asyncCallback? = none ↔ σ.ret ≠ .void ∨ σ.params = [] ∨
    ∃ init p u, σ.params = init ++ [p] ∧ p.2.Strips u ∧ ¬u.isTemplate asyncCallbackName := by
  rw [← not_iff_not, ← ne_eq, Option.ne_none_iff_exists']
  simp only [asyncCallback?_eq_some, not_or, not_not]
  constructor
  · rintro ⟨args, hret, p, hlast, hbare⟩
    refine ⟨hret, fun hnil => by simp [hnil] at hlast, ?_⟩
    rintro ⟨init, q, u, hparams, hstrips, hu⟩
    rw [hparams, List.getLast?_concat, Option.some.injEq] at hlast
    rw [← hstrips.bare_eq, hlast, hbare] at hu
    exact hu (by simp [Ty.isTemplate])
  · rintro ⟨hret, hne, hall⟩
    obtain ⟨init, p, hparams⟩ := (List.eq_nil_or_concat' σ.params).resolve_left hne
    have htemplate : p.2.bare.isTemplate asyncCallbackName := by
      by_contra hnot
      exact hall ⟨init, p, _, hparams, Ty.strips_bare p.2, hnot⟩
    cases hbare : p.2.bare with
    | template n args =>
      rw [hbare, Ty.isTemplate, beq_iff_eq] at htemplate
      exact ⟨args, hret, p, by simp [hparams], by rw [hbare, htemplate]⟩
    | _ => rw [hbare] at htemplate; cases htemplate

/-- The callback decides what becomes of an asynchronous function. -/
theorem async?_of_last (hret : σ.ret = .void) (hparams : σ.params = init ++ [p])
    (hlast : p.2.Strips (.template asyncCallbackName (callback :: rest))) :
    σ.async? = (asyncResultOf callback).map
      fun r => some ⟨init, .template asyncResultName [r], σ.quals⟩ := by
  rw [async?, asyncCallback?_of_last hret hparams hlast, hparams, List.dropLast_concat]
  simp only [Ty.firstArg, Except.ok_bind]
  cases asyncResultOf callback <;> rfl

theorem async?_of_ret {ret : Ty} {params : List (String × Ty)} {quals : Qualifiers} (h : ret ≠ .void) :
    (⟨params, ret, quals⟩ : Signature Ty).async? = .ok none :=
  async?_eq_none.mpr (asyncCallback?_eq_none_iff.mpr (.inl h))

theorem async?_of_async? {g : Signature Ty} (h : σ.async? = .ok (some g)) : g.async? = .ok none := by
  obtain ⟨cb, rest, result, -, -, rfl⟩ := async?_eq_some h
  exact async?_of_ret (by simp [Ty.void])

/-- Making the asynchronous form twice is making it once. -/
theorem effective_of_effective {g : Signature Ty} (h : σ.effective = .ok g) : g.effective = .ok g := by
  obtain ⟨async, hasync, h⟩ := Except.bind_eq_ok.mp h
  cases h
  cases async with
  | none => exact effective_of_async? hasync
  | some g => exact effective_of_async? (async?_of_async? hasync)

/-- **The asynchronous form of a signature.** There is none exactly if the function has a result, takes
nothing, or takes something other than an `AsyncCallback` last. Else a rule is broken exactly if the callback
is not a function without a result that takes an error, or a value and an error; and if it is one, the form
has the other parameters in their order, the same qualifiers, and an `AsyncResult` of what the callback hands
over. A form is not asynchronous, so making the form of a form changes nothing. -/
theorem async?_exact (h : (Ty.func σ).Filled) :
    (σ.async? = .ok none ↔ σ.ret ≠ .void ∨ σ.params = [] ∨
      ∃ init p u, σ.params = init ++ [p] ∧ p.2.Strips u ∧ ¬u.isTemplate asyncCallbackName) ∧
    (∀ init p callback rest, σ.ret = .void → σ.params = init ++ [p] →
      p.2.Strips (.template asyncCallbackName (callback :: rest)) →
      ((∃ e, σ.async? = .error (.bind e)) ↔ ¬callback.TakesOutcome) ∧
      (callback.TakesOutcome → ∃ g, σ.async? = .ok (some g)) ∧
      ∀ g, σ.async? = .ok (some g) ↔
        ∃ r, callback.Delivers r ∧ g = ⟨init, .template asyncResultName [r], σ.quals⟩) ∧
    (∀ g, σ.async? = .ok (some g) → g.async? = .ok none) ∧
    ∀ g, σ.effective = .ok g → g.effective = .ok g := by
  refine ⟨async?_eq_none.trans asyncCallback?_eq_none_iff, ?_, fun _ => async?_of_async?,
    fun _ => effective_of_effective⟩
  intro init p callback rest hret hparams hlast
  -- the callback is an argument of a type of the signature, so its own templates have arguments
  have hfilled : callback.Filled := by
    have hp := (h.params p (hparams ▸ List.mem_concat_self)).bare
    rw [hlast.bare_eq] at hp
    obtain ⟨a, args, hargs, ha⟩ := hp.firstArg
    cases hargs
    exact ha
  rw [async?_of_last hret hparams hlast]
  refine ⟨?_, fun houtcome => ?_, fun g => ?_⟩
  · rw [← asyncResultOf_ok_iff hfilled]
    cases hresult : asyncResultOf callback with
    | ok r => simp [Except.map]
    | error e =>
      obtain ⟨b, rfl⟩ := asyncResultOf_error hfilled hresult
      simp [Except.map]
  · obtain ⟨r, hr⟩ := (asyncResultOf_ok_iff hfilled).mpr houtcome
    exact ⟨_, by rw [hr]; rfl⟩
  · simp only [Except.map_eq_ok, asyncResultOf_eq_ok_iff hfilled, Option.some.injEq, @eq_comm _ g]

/-- A function that takes an amount and calls back with an optional nullable number and a status. -/
def download : Signature Ty where
  params := [
    ("amount", .primitive "int64_t"),
    ("done", .modified .ref (.modified .const (.template asyncCallbackName [.func {
      params := [
        ("value", .modified .const (.template optionalName [.template nullableName [.primitive "int"]])),
        ("err", .primitive "Status")]
      ret := .void }])))]
  ret := .void
  quals := { const := true, offThread := true }

theorem filled_download : (Ty.func download).Filled := by
  have hvalue : Ty.Filled (.template optionalName [.template nullableName [.primitive "int"]]) := by
    refine .template (by simp) (List.forall_mem_singleton.mpr (.template (by simp) ?_))
    exact List.forall_mem_singleton.mpr .primitive
  refine .func (fun p hp => ?_) .primitive
  rcases List.mem_pair.mp hp with rfl | rfl
  · exact .primitive
  · refine .modified (.modified (.template (by simp) (List.forall_mem_singleton.mpr ?_)))
    refine .func (fun p hp => ?_) .primitive
    rcases List.mem_pair.mp hp with rfl | rfl
    · exact .modified hvalue
    · exact .primitive

/-- Out of the optional nullable number only the optional is taken. -/
theorem async?_exact_download : (Ty.func download).Filled ∧
    download.async? = .ok (some {
      params := [("amount", .primitive "int64_t")]
      ret := .template asyncResultName [.template nullableName [.primitive "int"]]
      quals := { const := true, offThread := true } }) := by
  obtain ⟨-, hasync, -, -⟩ := async?_exact filled_download
  have hconst {n : String} {args : List Ty} :
      (Ty.modified .const (.template n args)).Strips (.template n args) :=
    .layer (by decide) (.done Bool.false_ne_true)
  obtain ⟨-, -, hform⟩ := hasync [_] _ _ [] rfl rfl (.layer (by decide) hconst)
  have hvalue := Ty.Yields.held (@hconst optionalName [.template nullableName [.primitive "int"]]) (.inl rfl)
  exact ⟨filled_download, (hform _).mpr ⟨_, .value (.inr (.inr (.inl rfl))) hvalue, rfl⟩⟩

end Signature

end LuaGlue
