import LuaGlue.Proofs.Model.Async
import LuaGlue.Proofs.Spec.Expressions

/-!
# Binding classes

What binding and checking a class come to, said of the declaration.

- **Members** (`bindOverload_eq_ok`, `bindConstructor_eq_ok`, `bindProperty_eq_ok`): the signature is in
  scope and the name is a text that is not reserved.
- **Classes** (`bindClass_ok_iff`): every expression of the class is in scope, its members have names, its
  base is a class and its constructors name no result. The members of the bound class carry the names of
  the declared ones (`BoundClass.memberNames`).
- **Checks** (`checkMethods_eq_ok`, `checkClass_eq_ok`): names are told apart, none is that of the iterator
  of an iterable class, and asynchronous methods have their form.
-/

namespace LuaGlue

open Document (Value)

variable {r : Registry}

/-! ## Members -/

/-- A member is made if its name is a text that is not reserved, and it carries what it was made from. -/
theorem Method.make_eq_ok {owner : ClassRef} {kind : MethodKind} {name unique native : Value}
    {σ : Signature Ty} {m : Method} :
    Method.make owner kind name unique native σ = .ok m ↔ ∃ u, unique = .str u ∧
      ¬Registry.isReserved u ∧ m = ⟨owner, kind, name, u, native, σ⟩ := by
  cases unique with
  | str u =>
    rw [Method.make]
    constructor
    · intro h
      split at h
      · cases h
      · rename_i hu
        cases h
        exact ⟨u, rfl, hu, rfl⟩
    · rintro ⟨v, hv, hu, rfl⟩
      cases hv
      rw [if_neg hu]
  | _ => simp [Method.make]

/-- The parts of an overload are its resolved signature and its name with the suffix. The native name is the
name itself unless one is given. -/
theorem bindOverload_eq_ok {owner : ClassRef} {kind : MethodKind} {table : String} {name : Value}
    {d : Spec.MethodDecl} {m : Method} :
    bindOverload r owner kind table name d = .ok m ↔ ∃ σ u,
      r.resolve (.func d.sig) = .ok (.func σ) ∧ overloadName name d.suffix = .str u ∧
      ¬Registry.isReserved u ∧
      m = ⟨owner, kind, name, u, if d.native.truthy then d.native else name, σ⟩ := by
  simp only [bindOverload, Except.bind_eq_ok, Registry.resolveSignatureAt_eq_ok, Method.make_eq_ok]
  constructor
  · rintro ⟨σ, hσ, u, hu, hres, rfl⟩; exact ⟨σ, u, hσ, hu, hres, rfl⟩
  · rintro ⟨σ, u, hσ, hu, hres, rfl⟩; exact ⟨σ, hσ, u, hu, hres, rfl⟩

theorem member_of_bindOverload {owner : ClassRef} {kind : MethodKind} {table : String} {name : Value}
    {d : Spec.MethodDecl} {m : Method} (h : bindOverload r owner kind table name d = .ok m) :
    m.kind = kind ∧ .str m.uniqueName = overloadName name d.suffix ∧
      r.resolve (.func d.sig) = .ok (.func m.sig) := by
  obtain ⟨σ, u, hσ, hu, -, rfl⟩ := bindOverload_eq_ok.mp h
  exact ⟨rfl, hu.symm, hσ⟩

/-- Binding an overload can fail in two ways only: by an expression out of scope or by its name. -/
theorem bindOverload_ok_iff {owner : ClassRef} {kind : MethodKind} {table : String} {name : Value}
    {d : Spec.MethodDecl} :
    (∃ m, bindOverload r owner kind table name d = .ok m) ↔
      (∃ t, r.resolve (.func d.sig) = .ok t) ∧
        ∃ u, overloadName name d.suffix = .str u ∧ ¬Registry.isReserved u := by
  simp only [bindOverload_eq_ok]
  constructor
  · rintro ⟨m, σ, u, hσ, hu, hres, -⟩; exact ⟨⟨_, hσ⟩, u, hu, hres⟩
  · rintro ⟨⟨t, ht⟩, u, hu, hres⟩
    obtain ⟨σ, -, rfl⟩ := Registry.resolve_func.mp ht
    exact ⟨_, σ, u, ht, hu, hres, rfl⟩

/-- A constructor is declared with `void` for its result and bound with `owner.constructed`, an instance of its
class or a handle to one. -/
theorem bindConstructor_eq_ok {owner : ClassRef} {name : Value} {sig : Signature TypeExpr}
    {m : Method} :
    bindConstructor r owner name sig = .ok m ↔ ∃ σ u,
      r.resolve (.func sig) = .ok (.func σ) ∧ σ.ret = .void ∧ name = .str u ∧
      ¬Registry.isReserved u ∧
      m = ⟨owner, .ctor, name, u, owner.native, { σ with ret := owner.constructed }⟩ := by
  simp only [bindConstructor, Except.bind_eq_ok, Registry.resolveSignatureAt_eq_ok]
  constructor
  · rintro ⟨σ, hσ, h⟩
    split at h
    · rename_i hvoid
      obtain ⟨u, hu, hres, rfl⟩ := Method.make_eq_ok.mp h
      exact ⟨σ, u, hσ, Ty.isVoid_iff.mp hvoid, hu, hres, rfl⟩
    · cases h
  · rintro ⟨σ, u, hσ, hvoid, hu, hres, rfl⟩
    refine ⟨σ, hσ, ?_⟩
    rw [if_pos (Ty.isVoid_iff.mpr hvoid)]
    exact Method.make_eq_ok.mpr ⟨u, hu, hres, rfl⟩

/-- What later proofs need of a bound constructor, without its other parts. -/
theorem member_of_bindConstructor {owner : ClassRef} {name : Value} {sig : Signature TypeExpr}
    {m : Method} (h : bindConstructor r owner name sig = .ok m) :
    m.kind = .ctor ∧ .str m.uniqueName = name ∧ m.sig.ret = owner.constructed ∧
      ∃ σ, r.resolve (.func sig) = .ok (.func σ) ∧ m.sig.params = σ.params := by
  obtain ⟨σ, u, hσ, -, hu, -, rfl⟩ := bindConstructor_eq_ok.mp h
  exact ⟨rfl, hu.symm, rfl, σ, hσ, rfl⟩

/-- The result is resolved as part of the signature; that it is `void` can be said of the expression `sig.ret`
alone. -/
theorem bindConstructor_ok_iff {owner : ClassRef} {name : Value} {sig : Signature TypeExpr} :
    (∃ m, bindConstructor r owner name sig = .ok m) ↔ (∃ t, r.resolve (.func sig) = .ok t) ∧
      r.resolve sig.ret = .ok .void ∧ ∃ u, name = .str u ∧ ¬Registry.isReserved u := by
  simp only [bindConstructor_eq_ok]
  constructor
  · rintro ⟨m, σ, u, hσ, hvoid, hu, hres, -⟩
    obtain ⟨σ', hσ', hfunc⟩ := Registry.resolve_func.mp hσ
    cases hfunc
    obtain ⟨hret, -⟩ := Registry.resolveSignature_eq_ok.mp hσ'
    exact ⟨⟨_, hσ⟩, hvoid ▸ hret, u, hu, hres⟩
  · rintro ⟨⟨t, ht⟩, hvoid, u, hu, hres⟩
    obtain ⟨σ, hσ, rfl⟩ := Registry.resolve_func.mp ht
    obtain ⟨hret, -⟩ := Registry.resolveSignature_eq_ok.mp hσ
    rw [hret] at hvoid
    exact ⟨_, σ, u, ht, Except.ok.inj hvoid, hu, hres, rfl⟩

/-- A property is bound as a constant method without parameters. -/
theorem bindProperty_eq_ok {owner : ClassRef} {name : Value} {e : TypeExpr} {m : Method} :
    bindProperty r owner name e = .ok m ↔ ∃ t u, r.resolve e = .ok t ∧ name = .str u ∧
      ¬Registry.isReserved u ∧
      m = ⟨owner, .property, name, u, name, ⟨[], t, { const := true }⟩⟩ := by
  simp only [bindProperty, Except.bind_eq_ok, Registry.resolveAt_eq_ok, Method.make_eq_ok]
  constructor
  · rintro ⟨t, ht, u, hu, hres, rfl⟩; exact ⟨t, u, ht, hu, hres, rfl⟩
  · rintro ⟨t, u, ht, hu, hres, rfl⟩; exact ⟨t, ht, u, hu, hres, rfl⟩

theorem member_of_bindProperty {owner : ClassRef} {name : Value} {e : TypeExpr} {m : Method}
    (h : bindProperty r owner name e = .ok m) :
    m.kind = .property ∧ .str m.uniqueName = name ∧ m.sig.params = [] := by
  obtain ⟨t, u, -, hu, -, rfl⟩ := bindProperty_eq_ok.mp h
  exact ⟨rfl, hu.symm, rfl⟩

theorem bindProperty_ok_iff {owner : ClassRef} {name : Value} {e : TypeExpr} :
    (∃ m, bindProperty r owner name e = .ok m) ↔
      (∃ t, r.resolve e = .ok t) ∧ ∃ u, name = .str u ∧ ¬Registry.isReserved u := by
  simp only [bindProperty_eq_ok]
  constructor
  · rintro ⟨m, t, u, ht, hu, hres, -⟩; exact ⟨⟨t, ht⟩, u, hu, hres⟩
  · rintro ⟨⟨t, ht⟩, u, hu, hres⟩; exact ⟨_, t, u, ht, hu, hres, rfl⟩

/-- A base that counts as absent gives none. Any other is a key under which the registry has a class. -/
theorem bindBase_eq_ok {owner : String} {base : Value} {b : Option ClassRef} :
    bindBase r owner base = .ok b ↔ (¬base.truthy ∧ b = none) ∨
      (base.truthy ∧ base.isKey ∧ ∃ c, r.find? base = some (.object c) ∧ b = some c) := by
  unfold bindBase
  by_cases htruthy : base.truthy
  · by_cases hkey : base.isKey
    · rcases hfind : r.find? base with _ | t
      · simp [htruthy, hkey]
      · cases t <;> simp [htruthy, hkey, eq_comm (a := b)]
    · simp [htruthy, hkey]
  · simp [htruthy, eq_comm (a := b)]

/-! ## Classes -/

namespace Spec.ClassDecl

/-- The names of the members on instances. -/
def instanceNames (d : ClassDecl) : List Value :=
  (Spec.overloads d.methods).map (fun o => overloadName o.1 o.2.suffix) ++ d.properties.map (·.1)

/-- The names of all members. -/
def memberNames (d : ClassDecl) : List Value :=
  d.overloads.map (fun o => overloadName o.1 o.2.suffix) ++ d.constructors.map (·.1)
    ++ d.properties.map (·.1)

end Spec.ClassDecl

/-- The class is bound from the declaration, with the methods `ms`, static methods `ss`, constructors
`cs` and properties `ps`. -/
structure BoundClass (r : Registry) (name : Value) (d : Spec.ClassDecl) (c : Class)
    (ms ss cs ps : List Method) : Prop where
  methods : (Spec.overloads d.methods).mapM
    (fun o => bindOverload r (d.ref name.text) .onInstance "methods" o.1 o.2) = .ok ms
  statics : (Spec.overloads d.statics).mapM
    (fun o => bindOverload r (d.ref name.text) .onClass "staticMethods" o.1 o.2) = .ok ss
  constructors : d.constructors.mapM (fun e => bindConstructor r (d.ref name.text) e.1 e.2) = .ok cs
  properties : d.properties.mapM (fun e => bindProperty r (d.ref name.text) e.1 e.2) = .ok ps
  base : bindBase r name.text d.base = .ok c.base
  iterable : Option.Rel (fun e t => r.resolve e = .ok t) d.iterable c.iterable
  ref_eq : c.ref = d.ref name.text
  methods_eq : c.methods = ms ++ ss ++ cs ++ ps

/-- The optional element type of a class as a relation between declared and bound, which does not mention where
an error is reported. -/
theorem mapM_resolveAt {part : String} {e : Option TypeExpr} {t : Option Ty} :
    e.mapM (fun e => r.resolveAt part e) = .ok t ↔
      Option.Rel (fun e t => r.resolve e = .ok t) e t := by
  cases e with
  | none =>
    constructor
    · intro h; cases h; exact .none
    · intro h; cases h; rfl
  | some e =>
    rw [Option.mapM_some]
    refine Except.map_eq_ok.trans ⟨?_, ?_⟩
    · rintro ⟨u, hu, rfl⟩; exact .some (Registry.resolveAt_eq_ok.mp hu)
    · intro h
      cases h with
      | some hu => exact ⟨_, Registry.resolveAt_eq_ok.mpr hu, rfl⟩

/-- A class is bound part by part. `BoundClass` names the lists of its members, which `c.methods` has joined. -/
theorem bindClass_eq_ok {name : Value} {d : Spec.ClassDecl} {isInterface : Bool} {c : Class} :
    bindClass r name d isInterface = .ok c ↔
      c.isInterface = isInterface ∧ c.isAbstract = d.isAbstract ∧
        ∃ ms ss cs ps, BoundClass r name d c ms ss cs ps := by
  simp only [bindClass, bindMethods, Except.bind_eq_ok, Except.pure_eq_ok_iff, mapM_resolveAt]
  constructor
  · rintro ⟨ms, hms, ss, hss, base, hbase, iterable, hiterable, cs, hcs, ps, hps, rfl⟩
    exact ⟨rfl, rfl, ms, ss, cs, ps, hms, hss, hcs, hps, hbase, hiterable, rfl, rfl⟩
  · rintro ⟨rfl, habstract, ms, ss, cs, ps, h⟩
    obtain ⟨ref, isInterface, isAbstract, base, iterable, methods⟩ := c
    obtain ⟨hms, hss, hcs, hps, hbase, hiterable, rfl, rfl⟩ := h
    exact ⟨ms, hms, ss, hss, base, hbase, iterable, hiterable, cs, hcs, ps, hps, by rw [← habstract]⟩

/-- A statement about all names of members, taken apart into the four tables of a declaration. -/
theorem Spec.ClassDecl.forall_mem_memberNames {P : Value → Prop} {d : Spec.ClassDecl} :
    (∀ v ∈ d.memberNames, P v) ↔
      (∀ o ∈ Spec.overloads d.methods, P (overloadName o.1 o.2.suffix)) ∧
      (∀ o ∈ Spec.overloads d.statics, P (overloadName o.1 o.2.suffix)) ∧
      (∀ c ∈ d.constructors, P c.1) ∧ ∀ p ∈ d.properties, P p.1 := by
  simp only [memberNames, ClassDecl.overloads, List.map_append, List.forall_mem_append,
    List.forall_mem_map, and_assoc]

theorem exists_iterable_iff {e : Option TypeExpr} :
    (∃ t, Option.Rel (fun e t => r.resolve e = .ok t) e t) ↔ ∀ e' ∈ e, ∃ t, r.resolve e' = .ok t := by
  cases e with
  | none =>
    refine iff_of_true ⟨none, .none⟩ ?_
    rintro e' ⟨⟩
  | some e =>
    constructor
    · rintro ⟨_, ⟨h⟩⟩ e' he
      cases he
      exact ⟨_, h⟩
    · intro h
      obtain ⟨t, ht⟩ := h e rfl
      exact ⟨some t, .some ht⟩

/-- **Binding a class** succeeds exactly when its expressions are in scope, its members have names that
are not reserved, its base is a class and its constructors name no result. -/
theorem bindClass_ok_iff {name : Value} {d : Spec.ClassDecl} {isInterface : Bool} :
    (∃ c, bindClass r name d isInterface = .ok c) ↔
      (∀ e ∈ d.expressions, ∃ t, r.resolve e = .ok t) ∧
      (∀ v ∈ d.memberNames, ∃ u, v = .str u ∧ ¬Registry.isReserved u) ∧
      (∃ b, bindBase r name.text d.base = .ok b) ∧
      ∀ c ∈ d.constructors, r.resolve c.2.ret = .ok .void := by
  rw [Spec.ClassDecl.forall_mem_expressions, Spec.ClassDecl.forall_mem_memberNames]
  simp only [bindClass_eq_ok]
  constructor
  · rintro ⟨c, -, -, ms, ss, cs, ps, h⟩
    -- each loop over members gives, for each of them, a resolved expression and a name
    have hms := fun o ho => bindOverload_ok_iff.mp (Except.mapM_ok_iff.mp ⟨_, h.methods⟩ o ho)
    have hss := fun o ho => bindOverload_ok_iff.mp (Except.mapM_ok_iff.mp ⟨_, h.statics⟩ o ho)
    have hcs := fun o ho => bindConstructor_ok_iff.mp (Except.mapM_ok_iff.mp ⟨_, h.constructors⟩ o ho)
    have hps := fun o ho => bindProperty_ok_iff.mp (Except.mapM_ok_iff.mp ⟨_, h.properties⟩ o ho)
    exact ⟨⟨fun o ho => (hms o ho).1, fun o ho => (hss o ho).1,
        exists_iterable_iff.mp ⟨_, h.iterable⟩, fun o ho => (hcs o ho).1, fun o ho => (hps o ho).1⟩,
      ⟨fun o ho => (hms o ho).2, fun o ho => (hss o ho).2, fun o ho => (hcs o ho).2.2,
        fun o ho => (hps o ho).2⟩, ⟨_, h.base⟩, fun o ho => (hcs o ho).2.1⟩
  · rintro ⟨⟨hms, hss, hiterable, hcs, hps⟩, ⟨hms', hss', hcs', hps'⟩, ⟨base, hbase⟩, hvoid⟩
    -- and the other way round each loop succeeds
    obtain ⟨ms, hms⟩ : ∃ ms, (Spec.overloads d.methods).mapM (fun o =>
        bindOverload r (d.ref name.text) .onInstance "methods" o.1 o.2) = .ok ms :=
      Except.mapM_ok_iff.mpr fun o ho => bindOverload_ok_iff.mpr ⟨hms o ho, hms' o ho⟩
    obtain ⟨ss, hss⟩ : ∃ ss, (Spec.overloads d.statics).mapM (fun o =>
        bindOverload r (d.ref name.text) .onClass "staticMethods" o.1 o.2) = .ok ss :=
      Except.mapM_ok_iff.mpr fun o ho => bindOverload_ok_iff.mpr ⟨hss o ho, hss' o ho⟩
    obtain ⟨cs, hcs⟩ : ∃ cs, d.constructors.mapM (fun e =>
        bindConstructor r (d.ref name.text) e.1 e.2) = .ok cs :=
      Except.mapM_ok_iff.mpr fun e he => bindConstructor_ok_iff.mpr ⟨hcs e he, hvoid e he, hcs' e he⟩
    obtain ⟨ps, hps⟩ : ∃ ps, d.properties.mapM (fun e =>
        bindProperty r (d.ref name.text) e.1 e.2) = .ok ps :=
      Except.mapM_ok_iff.mpr fun e he => bindProperty_ok_iff.mpr ⟨hps e he, hps' e he⟩
    obtain ⟨iterable, hiterable⟩ := exists_iterable_iff.mpr hiterable
    exact ⟨⟨d.ref name.text, isInterface, d.isAbstract, base, iterable, ms ++ ss ++ cs ++ ps⟩,
      rfl, rfl, ms, ss, cs, ps, hms, hss, hcs, hps, hbase, hiterable, rfl, rfl⟩

namespace BoundClass

variable {name : Value} {d : Spec.ClassDecl} {c : Class} {ms ss cs ps : List Method}

theorem forall_mem_methods {P : Method → Prop} (h : BoundClass r name d c ms ss cs ps) :
    (∀ m ∈ c.methods, P m) ↔
      (∀ m ∈ ms, P m) ∧ (∀ m ∈ ss, P m) ∧ (∀ m ∈ cs, P m) ∧ ∀ m ∈ ps, P m := by
  simp only [h.methods_eq, List.forall_mem_append, and_assoc]

theorem memberNames_methods (h : BoundClass r name d c ms ss cs ps) :
    ms.map (fun m => Value.str m.uniqueName) =
      (Spec.overloads d.methods).map fun o => overloadName o.1 o.2.suffix :=
  Except.map_of_mapM (fun ho => (member_of_bindOverload ho).2.1) h.methods

theorem memberNames_properties (h : BoundClass r name d c ms ss cs ps) :
    ps.map (fun m => Value.str m.uniqueName) = d.properties.map (·.1) :=
  Except.map_of_mapM (fun he => (member_of_bindProperty he).2.1) h.properties

/-- The members of a bound class have the names of the declared ones, in the same order: methods, statics,
constructors and properties. -/
theorem memberNames (h : BoundClass r name d c ms ss cs ps) :
    c.methods.map (fun m => Value.str m.uniqueName) = d.memberNames := by
  have hss : ss.map (fun m => Value.str m.uniqueName) =
      (Spec.overloads d.statics).map fun o => overloadName o.1 o.2.suffix :=
    Except.map_of_mapM (fun ho => (member_of_bindOverload ho).2.1) h.statics
  have hcs : cs.map (fun m => Value.str m.uniqueName) = d.constructors.map (·.1) :=
    Except.map_of_mapM (fun he => (member_of_bindConstructor he).2.1) h.constructors
  simp only [h.methods_eq, List.map_append, h.memberNames_methods, hss, hcs, h.memberNames_properties,
    Spec.ClassDecl.memberNames, Spec.ClassDecl.overloads]

/-- The members on instances are the methods and the properties, in the order of `Spec.ClassDecl.instanceNames`.
-/
theorem instanceNames (h : BoundClass r name d c ms ss cs ps) :
    (c.methods.filter (!·.isStatic)).map (fun m => Value.str m.uniqueName) = d.instanceNames := by
  have hms : ms.filter (!·.isStatic) = ms := by
    refine List.filter_eq_self.mpr fun m hm => ?_
    obtain ⟨o, -, ho⟩ := Except.exists_of_mem_mapM h.methods hm
    simp [Method.isStatic, (member_of_bindOverload ho).1]
  have hss : ss.filter (!·.isStatic) = [] := by
    refine List.filter_eq_nil_iff.mpr fun m hm => ?_
    obtain ⟨o, -, ho⟩ := Except.exists_of_mem_mapM h.statics hm
    simp [Method.isStatic, (member_of_bindOverload ho).1]
  have hcs : cs.filter (!·.isStatic) = [] := by
    refine List.filter_eq_nil_iff.mpr fun m hm => ?_
    obtain ⟨e, -, he⟩ := Except.exists_of_mem_mapM h.constructors hm
    simp [Method.isStatic, (member_of_bindConstructor he).1]
  have hps : ps.filter (!·.isStatic) = ps := by
    refine List.filter_eq_self.mpr fun m hm => ?_
    obtain ⟨e, -, he⟩ := Except.exists_of_mem_mapM h.properties hm
    simp [Method.isStatic, (member_of_bindProperty he).1]
  simp only [h.methods_eq, List.filter_append, hms, hss, hcs, hps, List.append_nil, List.map_append,
    h.memberNames_methods, h.memberNames_properties, Spec.ClassDecl.instanceNames]

/-- Only methods can be asynchronous: a constructor has a result and a property no parameter. -/
theorem forall_awaitable (h : BoundClass r name d c ms ss cs ps) :
    (∀ m ∈ c.methods, m.sig.Awaitable) ↔ ∀ o ∈ d.overloads, ∀ σ,
      r.resolve (.func o.2.sig) = .ok (.func σ) → σ.Awaitable := by
  have hoverloads {kind : MethodKind} {table : String} {os : List (Value × Spec.MethodDecl)}
      {ms : List Method} (h : os.mapM (fun o => bindOverload r (d.ref name.text) kind table o.1 o.2)
        = .ok ms) : (∀ m ∈ ms, m.sig.Awaitable) ↔ ∀ o ∈ os, ∀ σ,
          r.resolve (.func o.2.sig) = .ok (.func σ) → σ.Awaitable := by
    constructor
    · intro hall o ho σ hσ
      obtain ⟨m, hm, hbind⟩ := Except.exists_of_mapM h ho
      have hsig := (member_of_bindOverload hbind).2.2
      rw [hσ] at hsig; cases hsig
      exact hall m hm
    · intro hall m hm
      obtain ⟨o, ho, hbind⟩ := Except.exists_of_mem_mapM h hm
      exact hall o ho _ (member_of_bindOverload hbind).2.2
  -- a constructor gives an instance, so it is never asynchronous
  have hcs : ∀ m ∈ cs, m.sig.Awaitable := by
    intro m hm p callback rest hret
    obtain ⟨e, -, he⟩ := Except.exists_of_mem_mapM h.constructors hm
    rw [(member_of_bindConstructor he).2.2.1, ClassRef.constructed] at hret
    split at hret <;> cases hret
  have hps : ∀ m ∈ ps, m.sig.Awaitable := by
    intro m hm p callback rest _ hlast
    obtain ⟨e, -, he⟩ := Except.exists_of_mem_mapM h.properties hm
    rw [(member_of_bindProperty he).2.2] at hlast
    cases hlast
  rw [h.forall_mem_methods, Spec.ClassDecl.overloads, List.forall_mem_append,
    hoverloads h.methods, hoverloads h.statics]
  constructor
  · rintro ⟨hms, hss, -⟩; exact ⟨hms, hss⟩
  · rintro ⟨hms, hss⟩; exact ⟨hms, hss, hcs, hps⟩

/-- If expressions of the class stand for types whose templates have arguments, so do the parameters of all its
members. -/
theorem filled_params (h : BoundClass r name d c ms ss cs ps)
    (hfilled : ∀ e ∈ d.expressions, ∀ t, r.resolve e = .ok t → t.Filled) :
    ∀ m ∈ c.methods, ∀ p ∈ m.sig.params, p.2.Filled := by
  obtain ⟨hmethods, hstatics, -, hconstructors, -⟩ := Spec.ClassDecl.forall_mem_expressions.mp hfilled
  have hparams {σ : Signature Ty} (hσ : (Ty.func σ).Filled) : ∀ p ∈ σ.params, p.2.Filled := by
    cases hσ; assumption
  refine h.forall_mem_methods.mpr ⟨fun m hm => ?_, fun m hm => ?_, fun m hm => ?_, fun m hm => ?_⟩
  · obtain ⟨o, ho, hbind⟩ := Except.exists_of_mem_mapM h.methods hm
    exact hparams (hmethods o ho _ (member_of_bindOverload hbind).2.2)
  · obtain ⟨o, ho, hbind⟩ := Except.exists_of_mem_mapM h.statics hm
    exact hparams (hstatics o ho _ (member_of_bindOverload hbind).2.2)
  · obtain ⟨e, he, hbind⟩ := Except.exists_of_mem_mapM h.constructors hm
    obtain ⟨-, -, -, σ, hσ, hp⟩ := member_of_bindConstructor hbind
    rw [hp]
    exact hparams (hconstructors e he _ hσ)
  · obtain ⟨e, -, hbind⟩ := Except.exists_of_mem_mapM h.properties hm
    rw [(member_of_bindProperty hbind).2.2]
    intro p hp
    cases hp

end BoundClass

/-! ## Checks -/

theorem checkAsync_eq_ok {m : Method} :
    checkAsync m = .ok () ↔ ∃ form, m.sig.async? = .ok form := by
  unfold checkAsync
  split <;> simp_all

/-- One member of the check: its name is new, does not shadow the iterator, and its form is fine. The rest is
checked with the name among those `seen`. -/
theorem checkMethods_cons {c : Class} {seen : List String} {m : Method} {methods : List Method} :
    checkMethods c seen (m :: methods) = .ok () ↔ m.uniqueName ∉ seen ∧
      (c.iterable.isSome → ¬m.isStatic → m.displayName ≠ iterName) ∧
      (∃ form, m.sig.async? = .ok form) ∧ checkMethods c (m.uniqueName :: seen) methods = .ok () := by
  rw [checkMethods, ← checkAsync_eq_ok]
  by_cases hseen : m.uniqueName ∈ seen
  · simp [hseen]
  · by_cases hiter : c.iterable.isSome && !m.isStatic && m.displayName == iterName
    · have htaken : c.iterable.isSome ∧ ¬m.isStatic ∧ m.displayName = iterName := by
        simpa [and_assoc] using hiter
      rw [if_neg (by simpa using hseen), if_pos hiter]
      refine iff_of_false (by simp) ?_
      rintro ⟨-, hfree, -⟩
      exact hfree htaken.1 htaken.2.1 htaken.2.2
    · have hfree : c.iterable.isSome → ¬m.isStatic → m.displayName ≠ iterName := by
        simpa using hiter
      rw [if_neg (by simpa using hseen), if_neg hiter, Except.bind_eq_ok]
      constructor
      · rintro ⟨_, hasync, hrest⟩; exact ⟨hseen, hfree, hasync, hrest⟩
      · rintro ⟨-, -, hasync, hrest⟩; exact ⟨(), hasync, hrest⟩

/-- The methods pass when their names differ from each other and from those `seen` before, none has the name of
the iterator that an iterable class has, and the asynchronous ones have their form. -/
theorem checkMethods_eq_ok {c : Class} {seen : List String} {methods : List Method} :
    checkMethods c seen methods = .ok () ↔ (∀ m ∈ methods, m.uniqueName ∉ seen) ∧
      (methods.map (·.uniqueName)).Nodup ∧
      (c.iterable.isSome → ∀ m ∈ methods, ¬m.isStatic → m.displayName ≠ iterName) ∧
      ∀ m ∈ methods, ∃ form, m.sig.async? = .ok form := by
  induction methods generalizing seen with
  | nil => simp [checkMethods]
  | cons m methods ih =>
    simp only [checkMethods_cons, ih, List.map_cons, List.nodup_cons, List.forall_mem_cons]
    constructor
    · rintro ⟨hseen, hfree, hasync, hfresh, hnodup, hfrees, hasyncs⟩
      refine ⟨⟨hseen, fun n hn hmem => hfresh n hn (by simp [hmem])⟩, ⟨?_, hnodup⟩,
        fun hi => ⟨hfree hi, hfrees hi⟩, hasync, hasyncs⟩
      intro hmem
      obtain ⟨n, hn, hname⟩ := List.mem_map.mp hmem
      exact hfresh n hn (by simp [hname])
    · rintro ⟨⟨hseen, hfresh⟩, ⟨hname, hnodup⟩, hfrees, hasync, hasyncs⟩
      refine ⟨hseen, fun hi => (hfrees hi).1, hasync, fun n hn hmem => ?_, hnodup,
        fun hi => (hfrees hi).2, hasyncs⟩
      rcases List.mem_cons.mp hmem with heq | hmem
      · exact hname (List.mem_map.mpr ⟨n, hn, heq⟩)
      · exact hfresh n hn hmem

/-- A class with shared handles takes no part in inheritance: it has no base, and no class names it as one. -/
theorem checkClass_eq_ok {classes : List Class} {c : Class} :
    checkClass classes c = .ok () ↔ checkMethods c [] c.methods = .ok () ∧
      (c.ref.shared → c.base = none ∧ ∀ d ∈ classes, ∀ b, d.base = some b → b.name ≠ c.name) := by
  rw [checkClass, Except.bind_eq_ok]
  by_cases hshared : c.ref.shared && (c.base.isSome || classes.any (·.base.any (·.name == c.name)))
  · rw [if_pos hshared]
    refine iff_of_false (by simp) ?_
    rintro ⟨-, h⟩
    simp only [Bool.and_eq_true, Bool.or_eq_true, List.any_eq_true, Option.any_eq_true, beq_iff_eq]
      at hshared
    obtain ⟨hs, hbase | ⟨d, hd, b, hb, hname⟩⟩ := hshared
    · rw [(h hs).1] at hbase; cases hbase
    · exact (h hs).2 d hd b hb hname
  · rw [if_neg hshared]
    have h : c.ref.shared →
        c.base = none ∧ ∀ d ∈ classes, ∀ b, d.base = some b → b.name ≠ c.name := by
      simpa [Option.any_eq_true] using hshared
    exact ⟨fun ⟨_, hmethods, _⟩ => ⟨hmethods, h⟩, fun ⟨hmethods, _⟩ => ⟨(), hmethods, rfl⟩⟩

/-! ## Records, key types and alternatives -/

/-- A field is required if it has no default and its type is neither optional nor nullable. -/
theorem bindField_eq_ok {record : String} {name : Value} {d : Spec.FieldDecl} {x : Field} :
    bindField r record name d = .ok x ↔ ∃ t, r.resolve d.type = .ok t ∧
      x = ⟨name, d.native, t, d.default.isNone && !(t.isOptional || t.isNullable), d.default⟩ := by
  simp only [bindField, Except.bind_eq_ok, Registry.resolveAt_eq_ok, Except.pure_eq_ok_iff,
    eq_comm (a := x)]

theorem bindRecord_eq_ok {name : Value} {d : Spec.RecordDecl} {x : Record} :
    bindRecord r name d = .ok x ↔ x.ref = ⟨name.text, d.native⟩ ∧
      d.fields.mapM (fun e => bindField r name.text e.1 e.2) = .ok x.fields := by
  simp only [bindRecord, Except.bind_eq_ok, Except.pure_eq_ok_iff]
  constructor
  · rintro ⟨fields, hfields, rfl⟩; exact ⟨rfl, hfields⟩
  · rintro ⟨href, hfields⟩; exact ⟨x.fields, hfields, by rw [← href]⟩

theorem bindKeyType_eq_ok {name : Value} {e : TypeExpr} {x : String × Ty} :
    bindKeyType r name e = .ok x ↔ x.1 = name.text ∧ r.resolve e = .ok x.2 := by
  simp only [bindKeyType, Except.bind_eq_ok, Registry.resolveAt_eq_ok, Except.pure_eq_ok_iff]
  constructor
  · rintro ⟨t, ht, rfl⟩; exact ⟨rfl, ht⟩
  · rintro ⟨hname, ht⟩; exact ⟨x.2, ht, by rw [← hname]⟩

/-- The alternatives of `Mixed` are looked up one by one; it is made from the extra types and from those of
`getters`. -/
theorem bindMixed_eq_ok {d : Spec.MixedInfo} {x : MixedInfo} :
    bindMixed r d = .ok x ↔
      List.Forall₂ (fun e g => g.dataType = e.1 ∧ g.getter = e.2.getter ∧
        r.resolve e.2.type = .ok g.type) d.types x.getters ∧
      x.unused = d.unused ∧ ∃ extra, List.Forall₂ (fun e t => r.resolve e = .ok t) d.extra extra ∧
        x.ctors = extra ++ x.getters.map (·.type) := by
  have hgetter {e : Value × Spec.MixedDecl} {g : MixedGetter} :
      (do let type ← r.resolveAt ("mixedInfo.dataTypes." ++ e.1.text) e.2.type
          return { dataType := e.1, getter := e.2.getter, type : MixedGetter }) = .ok g ↔
        g.dataType = e.1 ∧ g.getter = e.2.getter ∧ r.resolve e.2.type = .ok g.type := by
    simp only [Except.bind_eq_ok, Registry.resolveAt_eq_ok, Except.pure_eq_ok_iff]
    constructor
    · rintro ⟨t, ht, rfl⟩; exact ⟨rfl, rfl, ht⟩
    · rintro ⟨hname, hget, ht⟩; exact ⟨g.type, ht, by rw [← hname, ← hget]⟩
  have hextra {extra : List Ty} : d.extra.zipIdx.mapM (fun e =>
      r.resolveAt ("mixedInfo.extraCtors[" ++ toString e.2 ++ "]") e.1) = .ok extra ↔
        List.Forall₂ (fun e t => r.resolve e = .ok t) d.extra extra := by
    conv_rhs => rw [← List.zipIdx_map_fst 0 d.extra]
    rw [Except.mapM_eq_ok, List.forall₂_map_left_iff]
    simp only [Registry.resolveAt_eq_ok]
  simp only [bindMixed, Except.bind_eq_ok, Except.pure_eq_ok_iff, hextra, Except.mapM_eq_ok, hgetter]
  constructor
  · rintro ⟨getters, hgetters, extra, hextra, rfl⟩
    exact ⟨hgetters, rfl, extra, hextra, rfl⟩
  · rintro ⟨hgetters, hunused, extra, hextra, hctors⟩
    exact ⟨x.getters, hgetters, extra, hextra, by rw [← hunused, ← hctors]⟩

theorem bindField_ok_iff {record : String} {name : Value} {d : Spec.FieldDecl} :
    (∃ x, bindField r record name d = .ok x) ↔ ∃ t, r.resolve d.type = .ok t := by
  rw [bindField, Except.bind_pure_ok_iff]
  simp only [Registry.resolveAt_eq_ok]

theorem bindRecord_ok_iff {name : Value} {d : Spec.RecordDecl} :
    (∃ x, bindRecord r name d = .ok x) ↔ ∀ f ∈ d.fields, ∃ t, r.resolve f.2.type = .ok t := by
  rw [bindRecord, Except.bind_pure_ok_iff, Except.mapM_ok_iff]
  simp only [bindField_ok_iff]

theorem bindKeyType_ok_iff {name : Value} {e : TypeExpr} :
    (∃ x, bindKeyType r name e = .ok x) ↔ ∃ t, r.resolve e = .ok t := by
  rw [bindKeyType, Except.bind_pure_ok_iff]
  simp only [Registry.resolveAt_eq_ok]

theorem bindMixed_ok_iff {d : Spec.MixedInfo} :
    (∃ x, bindMixed r d = .ok x) ↔ (∀ e ∈ d.types, ∃ t, r.resolve e.2.type = .ok t) ∧
      ∀ e ∈ d.extra, ∃ t, r.resolve e = .ok t := by
  have hextra : (∀ e ∈ d.extra, ∃ t, r.resolve e = .ok t) ↔
      ∀ e ∈ d.extra.zipIdx, ∃ t, r.resolve e.1 = .ok t := by
    conv_lhs => rw [← List.zipIdx_map_fst 0 d.extra]
    rw [List.forall_mem_map]
  rw [bindMixed, Except.bind_bind_pure_ok_iff, Except.mapM_ok_iff, Except.mapM_ok_iff, hextra]
  simp only [Except.bind_pure_ok_iff, Registry.resolveAt_eq_ok]

/-! ## The model -/

/-- The parts of a model, and what they are made from. -/
structure Model.BoundFrom (s : Spec) (declared : List Class) (m : Model) : Prop where
  registry : Registry.ofSpec s = .ok m.registry
  records : s.records.mapM (fun e => bindRecord m.registry e.1 e.2) = .ok m.records
  keyTypes : s.keyTypes.mapM (fun e => bindKeyType m.registry e.1 e.2) = .ok m.keyTypes
  bound : s.allClasses.mapM (fun e => bindClass m.registry e.1 e.2.1 e.2.2) = .ok declared
  ordered : orderClasses declared = .ok m.classes
  checked : ∀ c ∈ m.classes, checkClass m.classes c = .ok ()
  mixed : bindMixed m.registry s.mixed = .ok m.mixed
  headers : m.headers = s.headers
  enums : m.enums = s.enums.map fun e => ⟨⟨e.1.text, e.2.native⟩, e.2.values⟩
  opaqueTypes : m.opaqueTypes = s.opaqueTypes.map (·.text)
  primitives : m.primitives = s.primitives

/-- Binding a specification, step by step: `Model.BoundFrom` has one field for each step. Other modules start
from this and never unfold `Model.ofSpec`. -/
theorem Model.ofSpec_eq_ok {s : Spec} {m : Model} :
    Model.ofSpec s = .ok m ↔ ∃ declared, Model.BoundFrom s declared m := by
  simp only [Model.ofSpec, Except.bind_eq_ok, Except.mapError_eq_ok, Except.pure_eq_ok_iff]
  constructor
  · rintro ⟨registry, hr, records, hrec, keyTypes, hkey, declared, hdecl, classes, hord, _, hcheck,
      mixed, hmixed, rfl⟩
    exact ⟨declared, hr, hrec, hkey, hdecl, hord, Except.forM_eq_ok.mp hcheck, hmixed, rfl, rfl, rfl,
      rfl⟩
  · rintro ⟨declared, h⟩
    refine ⟨_, h.registry, _, h.records, _, h.keyTypes, declared, h.bound, _, h.ordered, (),
      Except.forM_eq_ok.mpr h.checked, _, h.mixed, ?_⟩
    rw [← h.headers, ← h.enums, ← h.opaqueTypes, ← h.primitives]

/-- **When a model exists.** The expressions are in scope, and the classes can be bound, ordered and
pass their checks. -/
theorem Model.ofSpec_ok_iff {s : Spec} :
    (∃ m, Model.ofSpec s = .ok m) ↔ ∃ r declared classes, Registry.ofSpec s = .ok r ∧
      (∀ e ∈ s.expressions, ∃ t, r.resolve e = .ok t) ∧
      s.allClasses.mapM (fun e => bindClass r e.1 e.2.1 e.2.2) = .ok declared ∧
      orderClasses declared = .ok classes ∧ ∀ c ∈ classes, checkClass classes c = .ok () := by
  simp only [Spec.forall_mem_expressions]
  constructor
  · rintro ⟨m, hm⟩
    obtain ⟨declared, h⟩ := Model.ofSpec_eq_ok.mp hm
    obtain ⟨htypes, hextra⟩ := bindMixed_ok_iff.mp ⟨_, h.mixed⟩
    refine ⟨m.registry, declared, m.classes, h.registry, ⟨fun e he => ?_, fun e he => ?_, fun e he => ?_,
      htypes, hextra⟩, h.bound, h.ordered, h.checked⟩
    · exact bindRecord_ok_iff.mp (Except.mapM_ok_iff.mp ⟨_, h.records⟩ e he)
    · exact bindKeyType_ok_iff.mp (Except.mapM_ok_iff.mp ⟨_, h.keyTypes⟩ e he)
    · exact (bindClass_ok_iff.mp (Except.mapM_ok_iff.mp ⟨_, h.bound⟩ e he)).1
  · rintro ⟨r, declared, classes, hr, ⟨hrecords, hkeyTypes, -, htypes, hextra⟩, hbound, hord, hcheck⟩
    obtain ⟨records, hrecords⟩ := Except.mapM_ok_iff.mpr fun e he =>
      bindRecord_ok_iff.mpr (hrecords e he)
    obtain ⟨keyTypes, hkeyTypes⟩ := Except.mapM_ok_iff.mpr fun e he =>
      bindKeyType_ok_iff.mpr (hkeyTypes e he)
    obtain ⟨mixed, hmixed⟩ := bindMixed_ok_iff.mpr ⟨htypes, hextra⟩
    exact ⟨⟨s.headers, classes, records, keyTypes, s.enums.map fun e => ⟨⟨e.1.text, e.2.native⟩,
        e.2.values⟩, s.opaqueTypes.map (·.text), mixed, s.primitives, r⟩,
      Model.ofSpec_eq_ok.mpr ⟨declared, hr, hrecords, hkeyTypes, hbound, hord, hcheck, hmixed, rfl, rfl,
        rfl, rfl⟩⟩

end LuaGlue
