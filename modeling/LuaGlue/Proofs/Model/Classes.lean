import LuaGlue.Proofs.Model.Binding
import LuaGlue.Proofs.Model.ClassForest

/-!
# Declared classes

The classes that a specification declares, beside the ones that binding makes of them.

- **Bases** (`Spec.HasBase`): the base of a class is the class that its base stands for, whatever aliases
  lie between. A bound class has that base (`Declares.base_eq_some`).
- **Finite chains** (`Spec.IsBase`, `Declares.levels_iff`): the bound classes have levels exactly when no
  chain of bases is infinite.
-/

namespace LuaGlue

open Document (Value)
open Document.Value (Distinct)

namespace Spec

variable {s : Spec} {r : Registry}

/-! ## Classes among the declarations -/

theorem class_mem_declarations {e : Value × ClassDecl × Bool} (h : e ∈ s.allClasses) :
    .entity e.1 (fun n => .object (e.2.1.ref n)) ∈ s.declarations := by
  have hmem : .entity e.1 (fun n => .object (e.2.1.ref n)) ∈
      s.allClasses.flatMap fun e => classDeclarations e.1 e.2.1 :=
    List.mem_flatMap.mpr ⟨e, h, by simp [classDeclarations]⟩
  simp [declarations, hmem]

/-- A declaration of a class type is that of a class. -/
theorem class_of_declared {d : Declaration} {c : ClassRef} (h : d ∈ s.declarations)
    (hc : d.type = .object c) : ∃ e ∈ s.allClasses, c = e.2.1.ref e.1.text := by
  simp only [declarations, List.mem_append, List.mem_map, List.mem_flatMap] at h
  rcases h with ((((⟨n, -, rfl⟩ | ⟨e, he, h⟩) | ⟨e, -, rfl⟩) | ⟨e, -, rfl⟩) | ⟨e, -, rfl⟩) | ⟨n, -, rfl⟩
  · cases hc
  · refine ⟨e, he, ?_⟩
    rw [classDeclarations] at h
    split at h
    · simp only [List.mem_cons, List.not_mem_nil, or_false] at h
      rcases h with rfl | rfl
      · cases hc; rfl
      · cases hc
    · rw [List.mem_singleton.mp h] at hc
      cases hc; rfl
  all_goals cases hc

theorem class_of_denotes {e : TypeExpr} {c : ClassRef} (h : s.Denotes e (.object c)) :
    ∃ e ∈ s.allClasses, c = e.2.1.ref e.1.text := by
  generalize ht : Ty.object c = t at h
  induction h with
  | declared hd => exact class_of_declared hd ht.symm
  | aliased _ _ ih => exact ih ht
  | template | func | modified => cases ht

theorem class_of_names {key : Value} {c : ClassRef} (h : s.Names key (.object c)) :
    ∃ e ∈ s.allClasses, c = e.2.1.ref e.1.text := by
  rcases h with ⟨d, hd, -, hc⟩ | ⟨a, -, -, hc⟩
  · exact class_of_declared hd hc
  · exact class_of_denotes hc

/-- Classes with distinct names are told apart. -/
theorem distinct_classes (h : Distinct s.names) :
    s.allClasses.Pairwise fun e f => ¬e.1.sameKey f.1 := by
  have hclasses : Distinct (s.allClasses.flatMap classNames) := by
    refine List.Pairwise.sublist ?_ h
    simp only [names, entityNames, List.append_assoc]
    exact (List.sublist_append_left _ _).trans (List.sublist_append_right _ _)
  refine (List.pairwise_flatMap.mp hclasses).2.imp fun {e f} hef => ?_
  exact hef e.1 (by simp [classNames]) f.1 (by simp [classNames])

/-! ## Bases -/

/-- The base of the class stands for the class `c`. -/
def HasBase (s : Spec) (d : ClassDecl) (c : ClassRef) : Prop :=
  d.base.truthy ∧ ∃ key, key.sameKey d.base ∧ s.Names key (.object c)

/-- The class named `m` is the base of the one named `n`. -/
def IsBase (s : Spec) (m n : String) : Prop :=
  ∃ e ∈ s.allClasses, e.1.text = n ∧ ∃ c, s.HasBase e.2.1 c ∧ c.name = m

/-! ## Bound classes -/

/-- The classes are bound from those of the specification, whose names are texts. -/
structure Declares (s : Spec) (r : Registry) (declared : List Class) : Prop where
  registered : s.Registered r
  texts : ∀ e ∈ s.allClasses, ∃ n, e.1 = .str n
  bound : s.allClasses.mapM (fun e => bindClass r e.1 e.2.1 e.2.2) = .ok declared

theorem ref_of_bindClass {e : Value × ClassDecl × Bool} {c : Class}
    (h : bindClass r e.1 e.2.1 e.2.2 = .ok c) : c.ref = e.2.1.ref e.1.text := by
  obtain ⟨-, -, ms, ss, cs, ps, hbound⟩ := bindClass_eq_ok.mp h
  exact hbound.ref_eq

theorem name_of_bindClass {e : Value × ClassDecl × Bool} {c : Class}
    (h : bindClass r e.1 e.2.1 e.2.2 = .ok c) : c.name = e.1.text := by
  rw [Class.name, ref_of_bindClass h]
  rfl

namespace Declares

variable {declared : List Class}

theorem exists_class (h : s.Declares r declared) {e : Value × ClassDecl × Bool}
    (he : e ∈ s.allClasses) : ∃ c ∈ declared, bindClass r e.1 e.2.1 e.2.2 = .ok c :=
  Except.exists_of_mapM h.bound he

theorem exists_declaration (h : s.Declares r declared) {c : Class} (hc : c ∈ declared) :
    ∃ e ∈ s.allClasses, bindClass r e.1 e.2.1 e.2.2 = .ok c :=
  Except.exists_of_mem_mapM h.bound hc

theorem map_name (h : s.Declares r declared) :
    declared.map Class.name = s.allClasses.map (·.1.text) :=
  Except.map_of_mapM (fun he => name_of_bindClass he) h.bound

theorem nodup_names (h : s.Declares r declared) : (declared.map Class.name).Nodup := by
  rw [h.map_name, List.Nodup, List.pairwise_map]
  refine (distinct_classes h.registered.distinct).imp_of_mem fun {e f} he hf hne heq => ?_
  obtain ⟨n, hn⟩ := h.texts e he
  obtain ⟨m, hm⟩ := h.texts f hf
  rw [hn, hm] at hne heq
  have hnm : n = m := heq
  exact hne (by simp [hnm])

theorem base_eq_some (h : s.Declares r declared) {e : Value × ClassDecl × Bool} {c : Class}
    {b : ClassRef} (hc : bindClass r e.1 e.2.1 e.2.2 = .ok c) :
    c.base = some b ↔ s.HasBase e.2.1 b := by
  obtain ⟨-, -, ms, ss, cs, ps, hbound⟩ := bindClass_eq_ok.mp hc
  rw [HasBase, ← h.registered.find?_eq_some]
  rcases bindBase_eq_ok.mp hbound.base with ⟨hfalsy, hnone⟩ | ⟨htruthy, -, c', hfind, hsome⟩
  · simp [hnone, hfalsy]
  · simp [hsome, htruthy, hfind]

theorem base_eq_none {e : Value × ClassDecl × Bool} {c : Class}
    (hc : bindClass r e.1 e.2.1 e.2.2 = .ok c) : c.base = none ↔ ¬e.2.1.base.truthy := by
  obtain ⟨-, -, ms, ss, cs, ps, hbound⟩ := bindClass_eq_ok.mp hc
  rcases bindBase_eq_ok.mp hbound.base with ⟨hfalsy, hnone⟩ | ⟨htruthy, -, c', -, hsome⟩
  · simp [hnone, hfalsy]
  · simp [hsome, htruthy]

theorem exists_of_hasBase (h : s.Declares r declared) {d : ClassDecl} {b : ClassRef}
    (hb : s.HasBase d b) : ∃ p ∈ declared, p.ref = b := by
  obtain ⟨-, key, -, hnames⟩ := hb
  obtain ⟨f, hf, rfl⟩ := class_of_names hnames
  obtain ⟨p, hp, hbind⟩ := h.exists_class hf
  exact ⟨p, hp, ref_of_bindClass hbind⟩

/-- The base of a bound class is bound too. -/
theorem exists_base (h : s.Declares r declared) {c : Class} {b : ClassRef} (hc : c ∈ declared)
    (hb : c.base = some b) : ∃ p ∈ declared, p.ref = b := by
  obtain ⟨e, -, hbind⟩ := h.exists_declaration hc
  exact h.exists_of_hasBase ((h.base_eq_some hbind).mp hb)

theorem isBase_iff (h : s.Declares r declared) {m n : String} :
    s.IsBase m n ↔ ∃ c ∈ declared, c.name = n ∧ ∃ b, c.base = some b ∧ b.name = m := by
  constructor
  · rintro ⟨e, he, rfl, b, hb, rfl⟩
    obtain ⟨c, hc, hbind⟩ := h.exists_class he
    exact ⟨c, hc, name_of_bindClass hbind, b, (h.base_eq_some hbind).mpr hb, rfl⟩
  · rintro ⟨c, hc, rfl, b, hb, rfl⟩
    obtain ⟨e, he, hbind⟩ := h.exists_declaration hc
    exact ⟨e, he, (name_of_bindClass hbind).symm, b, (h.base_eq_some hbind).mp hb, rfl⟩

open ClassForest (Level)

theorem acc_of_level (h : s.Declares r declared) {c : Class} {k : Nat} (hk : Level declared c k) :
    Acc s.IsBase c.name := by
  induction hk with
  | @root c hc hb =>
    refine ⟨_, fun m hm => ?_⟩
    obtain ⟨c', hc', hname, b, hb', -⟩ := h.isBase_iff.mp hm
    rw [ClassForest.eq_of_name h.nodup_names hc' hc hname, hb] at hb'
    cases hb'
  | @step c p b k hc hb hp _ ih =>
    refine ⟨_, fun m hm => ?_⟩
    obtain ⟨c', hc', hname, b', hb', rfl⟩ := h.isBase_iff.mp hm
    rw [ClassForest.eq_of_name h.nodup_names hc' hc hname, hb] at hb'
    cases hb'
    rwa [← hp]

theorem level_of_acc (h : s.Declares r declared) {n : String} (hn : Acc s.IsBase n) {c : Class}
    (hc : c ∈ declared) (hname : c.name = n) : ∃ k, Level declared c k := by
  induction hn generalizing c with
  | intro n _ ih =>
    rcases hb : c.base with _ | b
    · exact ⟨0, .root hc hb⟩
    · obtain ⟨p, hp, rfl⟩ := h.exists_base hc hb
      obtain ⟨k, hk⟩ := ih p.name (h.isBase_iff.mpr ⟨c, hc, hname, _, hb, rfl⟩) hp rfl
      exact ⟨k + 1, .step hc hb rfl hk⟩

/-- The bound classes have levels exactly when no chain of bases is infinite. -/
theorem levels_iff (h : s.Declares r declared) :
    (∀ c ∈ declared, ∃ k, Level declared c k) ↔ WellFounded s.IsBase := by
  constructor
  · intro hlevels
    refine ⟨fun n => ⟨n, fun m hm => ?_⟩⟩
    obtain ⟨c, hc, -, b, hb, rfl⟩ := h.isBase_iff.mp hm
    obtain ⟨p, hp, rfl⟩ := h.exists_base hc hb
    obtain ⟨k, hk⟩ := hlevels p hp
    exact h.acc_of_level hk
  · intro hwf c hc
    exact h.level_of_acc (hwf.apply c.name) hc rfl

end Declares

/-- The names of the classes of a specification with a registry are texts without underscores. -/
theorem class_names_of_ofSpec (h : Registry.ofSpec s = .ok r) :
    ∀ e ∈ s.allClasses, ∃ n, e.1 = .str n ∧ '_' ∉ n.toList := by
  intro e he
  obtain ⟨hlegal, -⟩ := ofSpec_ok_iff.mp ⟨r, h⟩
  exact (hlegal _ (class_mem_declarations he)).1

theorem declares_of_mapM {declared : List Class} (h : Registry.ofSpec s = .ok r)
    (hbound : s.allClasses.mapM (fun e => bindClass r e.1 e.2.1 e.2.2) = .ok declared) :
    s.Declares r declared := by
  refine ⟨registered_of_ofSpec h, fun e he => ?_, hbound⟩
  obtain ⟨n, hn, -⟩ := class_names_of_ofSpec h e he
  exact ⟨n, hn⟩

end Spec

end LuaGlue
