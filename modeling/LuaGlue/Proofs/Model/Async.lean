import LuaGlue.Proofs.Model.Registration
import LuaGlue.Proofs.TypeExpr.RoundTrip

/-!
# Callbacks of asynchronous functions

- **Error carriers** (`Ty.CarriesError`): the types by which a callback is told of an error.
- **Outcomes** (`Ty.TakesOutcome`): a function without a result that takes an error, or a value and an
  error, is what an `AsyncCallback` may wrap.
- **Asynchronous forms** (`async_ok_iff`): `Signature.async?` succeeds exactly when the function is not
  asynchronous or its callback takes an outcome.
- **Templates have arguments** (`filled_of_denotes`): in the types that well-formed expressions stand for.
-/

namespace LuaGlue

namespace Ty

/-- Every template in the type has an argument. -/
inductive Filled : Ty → Prop
  | primitive {n} : Filled (.primitive n)
  | template {n args} : args ≠ [] → (∀ a ∈ args, Filled a) → Filled (.template n args)
  | func {params ret quals} : (∀ p ∈ params, Filled p.2) → Filled ret →
      Filled (.func ⟨params, ret, quals⟩)
  | modified {m t} : Filled t → Filled (.modified m t)
  | object {c} : Filled (.object c)
  | record {r} : Filled (.record r)
  | enumeration {e} : Filled (.enumeration e)
  | opaqueType {n} : Filled (.opaqueType n)
  | keyType {n} : Filled (.keyType n)

theorem isVoid_iff {t : Ty} : t.isVoid ↔ t = .void := by
  cases t <;> simp [isVoid, void]

/-- Constness and references can be taken off a filled type. -/
theorem Filled.bare {t : Ty} (h : t.Filled) : t.bare.Filled := by
  induction h with
  | @modified m t h ih =>
    cases m with
    | const | ref | rref => exact ih
    | pointer => exact .modified h
  | primitive => exact .primitive
  | template hne hargs => exact .template hne hargs
  | func hp hr => exact .func hp hr
  | object => exact .object
  | record => exact .record
  | enumeration => exact .enumeration
  | opaqueType => exact .opaqueType
  | keyType => exact .keyType

/-- A filled template has a first argument, the one that callbacks, handles and optional types look at. -/
theorem Filled.firstArg {n : String} {args : List Ty} (h : (Ty.template n args).Filled) :
    ∃ a rest, args = a :: rest ∧ a.Filled := by
  cases h with
  | template hne hargs =>
    obtain ⟨a, rest, rfl⟩ := List.exists_cons_of_ne_nil hne
    exact ⟨a, rest, rfl, hargs a (by simp)⟩

theorem Filled.params {sig : Signature Ty} (h : (Ty.func sig).Filled) : ∀ p ∈ sig.params, p.2.Filled := by
  cases h with
  | func hparams _ => exact hparams

theorem Filled.ret {sig : Signature Ty} (h : (Ty.func sig).Filled) : sig.ret.Filled := by
  cases h with
  | func _ hret => exact hret

/-! ## Error carriers -/

/-- An instance of the template whose first argument has the given name. -/
def Wraps (t : Ty) (template arg : String) : Prop :=
  ∃ a rest, t = .template template (a :: rest) ∧ a.name? = some arg

/-- A callback is told of an error by a value of the type. -/
def CarriesError (t : Ty) : Prop :=
  t.Wraps optionalName "AppError" ∨ t.Wraps optionalName "Status" ∨ t = .primitive "Status" ∨
    t.Wraps nullableName "std::error_code" ∨ t.Wraps nullableName "std::exception_ptr"

/-- The test that the model makes, as the relation `Wraps`. -/
theorem wrapsNamed_eq_true {t : Ty} {template arg : String} :
    t.wrapsNamed template arg = .ok true ↔ t.Wraps template arg := by
  cases t with
  | template n args =>
    cases args with
    | nil => by_cases h : n = template <;> simp [wrapsNamed, Wraps, h, firstArg, Except.map]
    | cons a rest =>
      by_cases h : n = template <;> simp [wrapsNamed, Wraps, h, firstArg, Except.map]
  | _ => simp [wrapsNamed, Wraps]

/-- Only an instance of the template itself can lack the argument that is looked at, which a `Filled` one does
not. -/
theorem wrapsNamed_ok {t : Ty} (h : t.Filled) (template arg : String) :
    ∃ b, t.wrapsNamed template arg = .ok b := by
  cases t with
  | template n args =>
    obtain ⟨a, rest, rfl, -⟩ := h.firstArg
    by_cases hn : n = template <;> simp [wrapsNamed, hn, firstArg, Except.map]
  | _ => exact ⟨false, rfl⟩

/-- For a filled type the test for error carriers gives an answer, and it is that of `CarriesError`. -/
theorem isErrorCarrier_ok {t : Ty} (h : t.Filled) :
    ∃ b, t.isErrorCarrier = .ok b ∧ (b ↔ t.CarriesError) := by
  obtain ⟨b₁, h₁⟩ := wrapsNamed_ok h optionalName "AppError"
  obtain ⟨b₂, h₂⟩ := wrapsNamed_ok h optionalName "Status"
  obtain ⟨b₃, h₃⟩ := wrapsNamed_ok h nullableName "std::error_code"
  obtain ⟨b₄, h₄⟩ := wrapsNamed_ok h nullableName "std::exception_ptr"
  have hstatus : t.isStatus ↔ t = .primitive "Status" := by cases t <;> simp [isStatus]
  refine ⟨b₁ || b₂ || t.isStatus || b₃ || b₄, ?_, ?_⟩
  · rw [isErrorCarrier, h₁, h₂, h₃, h₄]
    cases b₁ <;> cases b₂ <;> cases t.isStatus <;> cases b₃ <;> rfl
  · simp only [CarriesError, ← wrapsNamed_eq_true, h₁, h₂, h₃, h₄, ← hstatus, Except.ok.injEq,
      Bool.or_eq_true, or_assoc]

theorem resumedWith_ok {t : Ty} (h : t.Filled) : ∃ u, t.resumedWith = .ok u := by
  unfold resumedWith
  split
  · rename_i n args hbare
    obtain ⟨a, rest, rfl, -⟩ := (hbare ▸ h.bare).firstArg
    split
    · exact ⟨a, rfl⟩
    · exact ⟨_, rfl⟩
  · exact ⟨_, rfl⟩

/-! ## Outcomes -/

/-- A function without a result that takes an error, or a value and an error. -/
inductive TakesOutcome : Ty → Prop
  | error {x err quals} : err.CarriesError → TakesOutcome (.func ⟨[(x, err)], .void, quals⟩)
  | value {p x err quals} : err.CarriesError → TakesOutcome (.func ⟨[p, (x, err)], .void, quals⟩)

end Ty

/-- The parameters of a callback are an error, or a value and an error; any other list is refused. -/
theorem callbackResult_ok_iff {callback : Ty} {params : List (String × Ty)}
    (h : ∀ p ∈ params, p.2.Filled) :
    (∃ u, callbackResult callback params = .ok u) ↔
      (∃ x err, params = [(x, err)] ∧ err.CarriesError) ∨
        ∃ p x err, params = [p, (x, err)] ∧ err.CarriesError := by
  match params with
  | [] => simp [callbackResult]
  | [(x, err)] =>
    obtain ⟨b, hb, hcarries⟩ := Ty.isErrorCarrier_ok (h (x, err) (by simp))
    simp only [callbackResult, hb, Except.ok_bind]
    cases b <;> simp_all
  | [p, (x, err)] =>
    obtain ⟨b, hb, hcarries⟩ := Ty.isErrorCarrier_ok (h (x, err) (by simp))
    obtain ⟨u, hu⟩ := Ty.resumedWith_ok (h p (by simp))
    simp only [callbackResult, hb, Except.ok_bind]
    cases b <;> simp_all
  | _ :: _ :: _ :: _ => simp [callbackResult]

/-- What a callback resumes with: nothing, or what its value holds. -/
theorem callbackResult_eq_ok {callback u : Ty} {params : List (String × Ty)}
    (h : callbackResult callback params = .ok u) :
    (∃ err, params = [err] ∧ u = .void) ∨
      ∃ value err, params = [value, err] ∧ value.2.resumedWith = .ok u := by
  match params with
  | [] => cases h
  | [err] =>
    obtain ⟨carries, -, h⟩ := Except.bind_eq_ok.mp h
    cases carries with
    | true => cases h; exact .inl ⟨err, rfl, rfl⟩
    | false => cases h
  | [value, err] =>
    obtain ⟨carries, -, h⟩ := Except.bind_eq_ok.mp h
    cases carries with
    | true => exact .inr ⟨value, err, rfl, h⟩
    | false => cases h
  | _ :: _ :: _ :: _ => cases h

/-- A callback is accepted if it is a function without a result that takes an outcome. -/
theorem asyncResultOf_ok_iff {callback : Ty} (h : callback.Filled) :
    (∃ u, asyncResultOf callback = .ok u) ↔ callback.TakesOutcome := by
  cases callback with
  | func σ =>
    obtain ⟨params, ret, quals⟩ := σ
    cases h with
    | func hparams hret =>
      unfold asyncResultOf
      by_cases hvoid : ret.isVoid
      · simp only [hvoid, if_true, callbackResult_ok_iff hparams]
        rw [Ty.isVoid_iff] at hvoid
        subst hvoid
        constructor
        · rintro (⟨x, err, rfl, herr⟩ | ⟨p, x, err, rfl, herr⟩)
          · exact .error herr
          · exact .value herr
        · intro h
          cases h with
          | error herr => exact .inl ⟨_, _, rfl, herr⟩
          | value herr => exact .inr ⟨_, _, _, rfl, herr⟩
      · simp only [hvoid]
        constructor
        · rintro ⟨u, hu⟩; cases hu
        · intro h; cases h <;> exact absurd rfl hvoid
  | _ =>
    constructor
    · rintro ⟨u, hu⟩; cases hu
    · intro h; cases h

namespace Signature

/-- If the function is asynchronous, having no result and an `AsyncCallback` as its last parameter, the
callback takes an outcome. -/
def Awaitable (σ : Signature Ty) : Prop :=
  ∀ p callback rest, σ.ret = .void → σ.params.getLast? = some p →
    p.2.bare = .template asyncCallbackName (callback :: rest) → callback.TakesOutcome

/-- A function is asynchronous if it has no result and its last parameter is an `AsyncCallback` behind constness
and references. -/
theorem asyncCallback?_eq_some {σ : Signature Ty} {args : List Ty} :
    σ.asyncCallback? = some args ↔ σ.ret = .void ∧
      ∃ p, σ.params.getLast? = some p ∧ p.2.bare = .template asyncCallbackName args := by
  rw [asyncCallback?, ← Ty.isVoid_iff]
  cases σ.ret.isVoid with
  | false => simp
  | true =>
    cases σ.params.getLast? with
    | none => simp
    | some p =>
      obtain ⟨x, last⟩ := p
      cases hbare : last.bare with
      | template n ts => by_cases hn : n = asyncCallbackName <;> simp [hbare, hn]
      | _ => simp [hbare]

/-- **Asynchronous forms.** A signature whose templates have arguments has one if it needs one, that is, if it
is `Awaitable`. -/
theorem async_ok_iff {σ : Signature Ty} (h : ∀ p ∈ σ.params, p.2.Filled) :
    (∃ form, σ.async? = .ok form) ↔ σ.Awaitable := by
  rw [async?]
  cases hcall : σ.asyncCallback? with
  | none =>
    refine iff_of_true ⟨none, rfl⟩ fun p callback rest hret hlast hbare => ?_
    have := asyncCallback?_eq_some.mpr ⟨hret, p, hlast, hbare⟩
    rw [hcall] at this; cases this
  | some args =>
    obtain ⟨hret, p, hlast, hbare⟩ := asyncCallback?_eq_some.mp hcall
    have hfilled := (h p (List.mem_of_getLast? hlast)).bare
    rw [hbare] at hfilled
    obtain ⟨callback, rest, rfl, hcallback⟩ := hfilled.firstArg
    have hresult := asyncResultOf_ok_iff hcallback
    simp only [Ty.firstArg, Except.ok_bind]
    constructor
    · rintro ⟨form, hform⟩ p' callback' rest' - hlast' hbare'
      obtain ⟨u, hu, -⟩ := Except.bind_eq_ok.mp hform
      rw [hlast] at hlast'; cases hlast'
      rw [hbare] at hbare'; cases hbare'
      exact hresult.mp ⟨u, hu⟩
    · intro hawait
      obtain ⟨u, hu⟩ := hresult.mpr (hawait p callback rest hret hlast hbare)
      exact ⟨_, by rw [hu]; rfl⟩

/-- A function without a callback has no asynchronous form, and this is no error. -/
theorem async?_eq_none {σ : Signature Ty} : σ.async? = .ok none ↔ σ.asyncCallback? = none := by
  rw [async?]
  cases σ.asyncCallback? with
  | none => simp
  | some args =>
    refine iff_of_false (fun h => ?_) (by simp)
    obtain ⟨callback, -, h⟩ := Except.bind_eq_ok.mp h
    obtain ⟨result, -, h⟩ := Except.bind_eq_ok.mp h
    cases h

/-- The host sees an asynchronous function without its callback, and with what the callback resumes
with. -/
theorem async?_eq_some {σ sig : Signature Ty} (h : σ.async? = .ok (some sig)) :
    ∃ cb rest result, σ.asyncCallback? = some (.func cb :: rest) ∧
      callbackResult (.func cb) cb.params = .ok result ∧
      sig = ⟨σ.params.dropLast, .template asyncResultName [result], σ.quals⟩ := by
  rw [async?] at h
  rcases hcall : σ.asyncCallback? with _ | args
  · rw [hcall] at h; cases h
  · rw [hcall] at h
    obtain ⟨callback, hfirst, h⟩ := Except.bind_eq_ok.mp h
    obtain ⟨result, hresult, h⟩ := Except.bind_eq_ok.mp h
    cases h
    cases args with
    | nil => cases hfirst
    | cons a rest =>
      cases hfirst
      cases callback with
      | func cb =>
        rw [asyncResultOf] at hresult
        split at hresult
        · exact ⟨cb, rest, result, rfl, hresult, rfl⟩
        · cases hresult
      | _ => cases hresult

theorem isSome_async? {σ : Signature Ty} {async : Option (Signature Ty)} (h : σ.async? = .ok async) :
    async.isSome = σ.asyncCallback?.isSome := by
  cases async with
  | none => rw [async?_eq_none.mp h]; rfl
  | some sig =>
    obtain ⟨cb, rest, result, hsome, -⟩ := async?_eq_some h
    rw [hsome]
    rfl

theorem effective_of_async? {σ : Signature Ty} {async : Option (Signature Ty)} (h : σ.async? = .ok async) :
    σ.effective = .ok (async.getD σ) := by
  rw [effective, h]
  rfl

end Signature

/-! ## Templates have arguments -/

namespace Spec

variable {s : Spec}

/-- Declared names stand for entities, which have no arguments, or for handles, which have one. -/
theorem filled_of_declared {d : Declaration} (h : d ∈ s.declarations) : d.type.Filled := by
  simp only [declarations, List.mem_append, List.mem_map, List.mem_flatMap] at h
  rcases h with ((((⟨n, -, rfl⟩ | ⟨c, -, h⟩) | ⟨e, -, rfl⟩) | ⟨e, -, rfl⟩) | ⟨e, -, rfl⟩) | ⟨n, -, rfl⟩
  · exact .primitive
  · rw [classDeclarations] at h
    split at h
    · simp only [List.mem_cons, List.not_mem_nil, or_false] at h
      rcases h with rfl | rfl
      · exact .object
      · exact .template (by simp) (by simpa using Ty.Filled.object)
    · rw [List.mem_singleton.mp h]
      exact .object
  · exact .enumeration
  · exact .record
  · exact .keyType
  · exact .opaqueType

theorem exists_mem_zip {α β : Type} {l : List α} {l' : List β} (hlen : l.length = l'.length) {b : β}
    (hb : b ∈ l') : ∃ a, (a, b) ∈ l.zip l' := by
  rw [← List.map_snd_zip (Nat.le_of_eq hlen.symm)] at hb
  obtain ⟨⟨a, b⟩, hmem, rfl⟩ := List.mem_map.mp hb
  exact ⟨a, hmem⟩

/-- In the types that well-formed expressions stand for, every template has an argument. By induction over
`Denotes`, where aliases are well formed too. -/
theorem filled_of_denotes (ha : ∀ a ∈ s.aliases, a.2.WellFormed) {e : TypeExpr} {t : Ty}
    (he : e.WellFormed) (h : s.Denotes e t) : t.Filled := by
  induction h with
  | declared hd => exact filled_of_declared hd
  | aliased hmem _ ih => exact ih (ha _ hmem)
  | @template n args ts hlen _ ih =>
    cases he with
    | template _ hne hargs =>
      refine .template ?_ fun t ht => ?_
      · rintro rfl
        exact hne (List.length_eq_zero_iff.mp hlen)
      · obtain ⟨a, hat⟩ := exists_mem_zip hlen ht
        exact ih hat (hargs a (List.of_mem_zip hat).1)
  | @func params ps ret u quals hlen _ _ _ ihp ihr =>
    cases he with
    | func _ hp hr =>
      refine .func (fun q hq => ?_) (ihr hr)
      obtain ⟨p, hpq⟩ := exists_mem_zip hlen hq
      exact ihp hpq (hp p (List.of_mem_zip hpq).1)
  | modified _ ih =>
    cases he with
    | modified _ he => exact .modified (ih he)

end Spec

end LuaGlue
