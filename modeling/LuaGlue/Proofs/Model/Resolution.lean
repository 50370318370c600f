import LuaGlue.Model.Registry
import LuaGlue.Proofs.Except

/-!
# Looking up type expressions

`Registry.resolve` succeeds exactly on the expressions that are in scope, and what it gives does not
change when more names are declared.

- **One step** (`resolve_named`, `resolve_template`, `resolve_func`, `resolve_modified`): what looking up
  an expression does with its parts.
- **Scope** (`Scoped`): the expression mentions known names only, and templates with as many arguments as
  they take; no parameter has a reserved name. `resolve_ok_iff` says that this is when it succeeds.
- **More names** (`resolve_mono`): the type of an expression stays the same in a greater registry.
-/

namespace LuaGlue

/-- Induction over a type expression, with the parts of a template or a function type as members, as in
`Ty.inductOn`. -/
@[elab_as_elim]
theorem TypeExpr.inductOn {P : TypeExpr → Prop} (e : TypeExpr)
    (named : ∀ n, P (.named n))
    (template : ∀ n args, (∀ a ∈ args, P a) → P (.template n args))
    (func : ∀ params ret quals, (∀ p ∈ params, P p.2) → P ret → P (.func ⟨params, ret, quals⟩))
    (modified : ∀ m inner, P inner → P (.modified m inner))
    (missing : P .missing) : P e :=
  match e with
  | .named n => named n
  | .template n args =>
    template n args fun a _ => inductOn a named template func modified missing
  | .func ⟨params, ret, quals⟩ =>
    func params ret quals (fun p _ => inductOn p.2 named template func modified missing)
      (inductOn ret named template func modified missing)
  | .modified m inner => modified m inner (inductOn inner named template func modified missing)
  | .missing => missing
termination_by e
decreasing_by
  · rename_i ha
    have := List.sizeOf_lt_of_mem ha
    simp only [TypeExpr.template.sizeOf_spec]
    omega
  · rename_i hp
    have := List.sizeOf_lt_of_mem hp
    have : sizeOf p = 1 + sizeOf p.1 + sizeOf p.2 := by cases p; rfl
    simp only [TypeExpr.func.sizeOf_spec, Signature.mk.sizeOf_spec]
    omega
  · simp only [TypeExpr.func.sizeOf_spec, Signature.mk.sizeOf_spec]
    omega
  · simp only [TypeExpr.modified.sizeOf_spec]
    omega

/-- Induction over a type, with the parts of a template or a function type as members. The recursor of `Ty` has
motives for its lists instead. -/
@[elab_as_elim]
theorem Ty.inductOn {P : Ty → Prop} (t : Ty)
    (primitive : ∀ n, P (.primitive n))
    (template : ∀ n args, (∀ a ∈ args, P a) → P (.template n args))
    (func : ∀ params ret quals, (∀ p ∈ params, P p.2) → P ret → P (.func ⟨params, ret, quals⟩))
    (modified : ∀ m inner, P inner → P (.modified m inner))
    (object : ∀ c, P (.object c)) (record : ∀ r, P (.record r)) (enumeration : ∀ e, P (.enumeration e))
    (opaqueType : ∀ n, P (.opaqueType n)) (keyType : ∀ n, P (.keyType n)) : P t :=
  match t with
  | .primitive n => primitive n
  | .template n args => template n args fun a _ =>
    inductOn a primitive template func modified object record enumeration opaqueType keyType
  | .func ⟨params, ret, quals⟩ =>
    func params ret quals
      (fun p _ => inductOn p.2 primitive template func modified object record enumeration opaqueType keyType)
      (inductOn ret primitive template func modified object record enumeration opaqueType keyType)
  | .modified m inner => modified m inner
    (inductOn inner primitive template func modified object record enumeration opaqueType keyType)
  | .object c => object c
  | .record r => record r
  | .enumeration e => enumeration e
  | .opaqueType n => opaqueType n
  | .keyType n => keyType n
termination_by t
decreasing_by
  · rename_i ha
    have := List.sizeOf_lt_of_mem ha
    simp only [Ty.template.sizeOf_spec]
    omega
  · rename_i hp
    have := List.sizeOf_lt_of_mem hp
    have : sizeOf p = 1 + sizeOf p.1 + sizeOf p.2 := by cases p; rfl
    simp only [Ty.func.sizeOf_spec, Signature.mk.sizeOf_spec]
    omega
  · simp only [Ty.func.sizeOf_spec, Signature.mk.sizeOf_spec]
    omega
  · simp only [Ty.modified.sizeOf_spec]
    omega

/-! ## Scope -/

/-- A template of this arity takes so many arguments. -/
def Spec.Arity.Accepts : Spec.Arity → Nat → Prop
  | .any, _ => True
  | .exact n, got => got = n

/-- The expression mentions known names, and templates with as many arguments as they take; no parameter
has a reserved name. -/
inductive Scoped (arity? : String → Option Spec.Arity) (known : String → Prop) : TypeExpr → Prop
  | named {n} : known n → Scoped arity? known (.named n)
  | template {n arity args} : arity? n = some arity → arity.Accepts args.length →
      (∀ a ∈ args, Scoped arity? known a) → Scoped arity? known (.template n args)
  | func {params ret quals} : (∀ p ∈ params, ¬Registry.isReserved p.1) →
      (∀ p ∈ params, Scoped arity? known p.2) → Scoped arity? known ret →
      Scoped arity? known (.func ⟨params, ret, quals⟩)
  | modified {m inner} : Scoped arity? known inner → Scoped arity? known (.modified m inner)

namespace Registry

variable {r r' : Registry}

theorem checkArity_eq_ok {n : String} {got : Nat} {arity? : Option Spec.Arity} :
    checkArity n got arity? = .ok () ↔ ∃ arity, arity? = some arity ∧ arity.Accepts got := by
  rcases arity? with _ | _ | _ <;> simp [checkArity, Spec.Arity.Accepts]

/-! ## One step -/

theorem resolve_named {n : String} {t : Ty} :
    r.resolve (.named n) = .ok t ↔ r.find? (.str n) = some t := by
  rw [resolve]
  cases r.find? (.str n) <;> simp

theorem resolveArgs_eq_mapM (args : List TypeExpr) : r.resolveArgs args = args.mapM r.resolve := by
  induction args with
  | nil => rfl
  | cons a args ih => rw [resolveArgs, List.mapM_cons, ih]

/-- The parameter with its type looked up. -/
def resolveParam (r : Registry) (p : String × TypeExpr) : Except BindError (String × Ty) := do
  let t ← r.resolve p.2
  if isReserved p.1 then .error (.reservedParam p.1)
  return (p.1, t)

theorem resolveParams_eq_mapM (params : List (String × TypeExpr)) :
    r.resolveParams params = params.mapM r.resolveParam := by
  induction params with
  | nil => rfl
  | cons p params ih =>
    rw [resolveParams, List.mapM_cons, ih, resolveParam]
    cases r.resolve p.2 with
    | error e => rfl
    | ok t => cases isReserved p.1 <;> rfl

/-- A parameter keeps its name, which must not be reserved. -/
theorem resolveParam_eq_ok {p : String × TypeExpr} {q : String × Ty} :
    r.resolveParam p = .ok q ↔
      ¬isReserved p.1 ∧ q.1 = p.1 ∧ r.resolve p.2 = .ok q.2 := by
  obtain ⟨x, u⟩ := q
  rw [resolveParam]
  cases r.resolve p.2 with
  | error e => simp
  | ok t => cases isReserved p.1 <;> simp [Prod.ext_iff, eq_comm]

/-- A template is checked against its arity, and its arguments are looked up in order. -/
theorem resolve_template {n : String} {args : List TypeExpr} {t : Ty} :
    r.resolve (.template n args) = .ok t ↔
      (∃ arity, r.arity? n = some arity ∧ arity.Accepts args.length) ∧
        ∃ ts, args.mapM r.resolve = .ok ts ∧ t = .template n ts := by
  rw [resolve, resolveArgs_eq_mapM, ← checkArity_eq_ok (n := n)]
  simp only [Except.bind_eq_ok, Except.pure_eq_ok_iff]
  constructor
  · rintro ⟨_, harity, ts, hts, rfl⟩; exact ⟨harity, ts, hts, rfl⟩
  · rintro ⟨harity, ts, hts, rfl⟩; exact ⟨(), harity, ts, hts, rfl⟩

theorem resolveSignature_eq_ok {sig : Signature TypeExpr} {σ : Signature Ty} :
    r.resolveSignature sig = .ok σ ↔ r.resolve sig.ret = .ok σ.ret ∧
      sig.params.mapM r.resolveParam = .ok σ.params ∧ σ.quals = sig.quals := by
  obtain ⟨params, ret, quals⟩ := σ
  rw [resolveSignature, resolveParams_eq_mapM]
  simp only [Except.bind_eq_ok, Except.pure_eq_ok_iff, Signature.mk.injEq]
  constructor
  · rintro ⟨t, ht, ps, hps, rfl, rfl, rfl⟩; exact ⟨ht, hps, rfl⟩
  · rintro ⟨ht, hps, hq⟩; exact ⟨ret, ht, params, hps, rfl, rfl, hq.symm⟩

/-- The result is looked up before the parameters, but success does not depend on the order. -/
theorem resolve_func {sig : Signature TypeExpr} {t : Ty} :
    r.resolve (.func sig) = .ok t ↔ ∃ σ, r.resolveSignature sig = .ok σ ∧ t = .func σ := by
  obtain ⟨params, ret, quals⟩ := sig
  rw [resolve, resolveSignature]
  simp only [Except.bind_eq_ok, Except.pure_eq_ok_iff]
  constructor
  · rintro ⟨u, hu, ps, hps, rfl⟩; exact ⟨_, ⟨u, hu, ps, hps, rfl⟩, rfl⟩
  · rintro ⟨σ, ⟨u, hu, ps, hps, rfl⟩, rfl⟩; exact ⟨u, hu, ps, hps, rfl⟩

theorem resolve_modified {m : Modifier} {inner : TypeExpr} {t : Ty} :
    r.resolve (.modified m inner) = .ok t ↔
      ∃ u, r.resolve inner = .ok u ∧ t = .modified m u := by
  rw [resolve]
  simp only [Except.bind_eq_ok, Except.pure_eq_ok_iff]
  constructor
  · rintro ⟨u, hu, rfl⟩; exact ⟨u, hu, rfl⟩
  · rintro ⟨u, hu, rfl⟩; exact ⟨u, hu, rfl⟩

theorem resolve_missing {t : Ty} : r.resolve .missing ≠ .ok t := by
  rw [resolve]
  simp

theorem resolveAt_eq_ok {part : String} {e : TypeExpr} {t : Ty} :
    r.resolveAt part e = .ok t ↔ r.resolve e = .ok t :=
  Except.mapError_eq_ok

theorem resolveSignatureAt_eq_ok {part : String} {sig : Signature TypeExpr} {σ : Signature Ty} :
    r.resolveSignatureAt part sig = .ok σ ↔ r.resolve (.func sig) = .ok (.func σ) := by
  rw [resolveSignatureAt, Except.mapError_eq_ok, resolve_func]
  simp

/-! ## Success -/

/-- Looking up succeeds exactly on the expressions in scope. By induction over the expression, with one lemma
for each of its forms. -/
theorem resolve_ok_iff {e : TypeExpr} :
    (∃ t, r.resolve e = .ok t) ↔ Scoped r.arity? (fun n => (r.find? (.str n)).isSome) e := by
  induction e using TypeExpr.inductOn with
  | named n =>
    simp only [resolve_named, ← Option.isSome_iff_exists]
    constructor
    · intro h; exact .named h
    · intro h
      cases h with
      | named h => exact h
  | template n args ih =>
    -- a loop over arguments succeeds if each of its rounds does, and the rounds are covered by the induction
    have hargs : (∃ ts, args.mapM r.resolve = .ok ts) ↔
        ∀ a ∈ args, Scoped r.arity? (fun n => (r.find? (.str n)).isSome) a :=
      Except.mapM_ok_iff.trans (forall₂_congr ih)
    constructor
    · rintro ⟨t, ht⟩
      obtain ⟨⟨arity, hn, hacc⟩, ts, hts, -⟩ := resolve_template.mp ht
      exact .template hn hacc (hargs.mp ⟨ts, hts⟩)
    · intro h
      cases h with
      | template hn hacc h =>
        obtain ⟨ts, hts⟩ := hargs.mpr h
        exact ⟨_, resolve_template.mpr ⟨⟨_, hn, hacc⟩, ts, hts, rfl⟩⟩
  | func params ret quals ihp ihr =>
    -- a round for a parameter also refuses reserved names
    have hparams : (∃ ps, params.mapM r.resolveParam = .ok ps) ↔ ∀ p ∈ params,
        ¬isReserved p.1 ∧ Scoped r.arity? (fun n => (r.find? (.str n)).isSome) p.2 := by
      refine Except.mapM_ok_iff.trans (forall₂_congr fun p hp => ?_)
      simp only [resolveParam_eq_ok, ← ihp p hp]
      constructor
      · rintro ⟨q, hx, -, hq⟩; exact ⟨hx, _, hq⟩
      · rintro ⟨hx, t, ht⟩; exact ⟨(p.1, t), hx, rfl, ht⟩
    constructor
    · rintro ⟨t, ht⟩
      obtain ⟨σ, hσ, -⟩ := resolve_func.mp ht
      obtain ⟨hret, hps, -⟩ := resolveSignature_eq_ok.mp hσ
      have hall := hparams.mp ⟨_, hps⟩
      exact .func (fun p hp => (hall p hp).1) (fun p hp => (hall p hp).2) (ihr.mp ⟨_, hret⟩)
    · intro h
      cases h with
      | func hx hp hr =>
        obtain ⟨ps, hps⟩ := hparams.mpr fun p h => ⟨hx p h, hp p h⟩
        obtain ⟨u, hu⟩ := ihr.mpr hr
        exact ⟨_, resolve_func.mpr ⟨⟨ps, u, quals⟩, resolveSignature_eq_ok.mpr ⟨hu, hps, rfl⟩, rfl⟩⟩
  | modified m inner ih =>
    simp only [resolve_modified]
    constructor
    · rintro ⟨t, u, hu, -⟩; exact .modified (ih.mp ⟨u, hu⟩)
    · intro h
      cases h with
      | modified h =>
        obtain ⟨u, hu⟩ := ih.mpr h
        exact ⟨_, u, hu, rfl⟩
  | missing => exact ⟨fun ⟨_, h⟩ => absurd h resolve_missing, fun h => by cases h⟩

/-! ## More names -/

/-- The greater registry has the same templates, and every name of the smaller one with its type. -/
structure Extends (r r' : Registry) : Prop where
  templates : r'.templates = r.templates
  find? : ∀ {key t}, r.find? key = some t → r'.find? key = some t

/-- The type of an expression stays the same when more names are declared. This is why an alias may be resolved
once, where it is declared. -/
theorem resolve_mono (hext : Extends r r') {e : TypeExpr} {t : Ty} (h : r.resolve e = .ok t) :
    r'.resolve e = .ok t := by
  induction e using TypeExpr.inductOn generalizing t with
  | named n => exact resolve_named.mpr (hext.find? (resolve_named.mp h))
  | template n args ih =>
    obtain ⟨⟨arity, hn, hacc⟩, ts, hts, rfl⟩ := resolve_template.mp h
    refine resolve_template.mpr ⟨⟨arity, ?_, hacc⟩, ts, Except.mapM_mono (fun a ha t => ih a ha) hts, rfl⟩
    rw [Registry.arity?, hext.templates]
    exact hn
  | func params ret quals ihp ihr =>
    obtain ⟨σ, hσ, rfl⟩ := resolve_func.mp h
    obtain ⟨hret, hps, hq⟩ := resolveSignature_eq_ok.mp hσ
    refine resolve_func.mpr ⟨σ, resolveSignature_eq_ok.mpr ⟨ihr hret, ?_, hq⟩, rfl⟩
    refine Except.mapM_mono (fun p hp q hq => ?_) hps
    obtain ⟨hx, hname, hr⟩ := resolveParam_eq_ok.mp hq
    exact resolveParam_eq_ok.mpr ⟨hx, hname, ihp p hp hr⟩
  | modified m inner ih =>
    obtain ⟨u, hu, rfl⟩ := resolve_modified.mp h
    exact resolve_modified.mpr ⟨u, ih hu, rfl⟩
  | missing => exact absurd h resolve_missing

end Registry

end LuaGlue
