import LuaGlue.Proofs.Model.ClassOrder
import Mathlib.Data.Fintype.Card
import Mathlib.Data.Set.Finite.List
import Mathlib.Logic.Relation

/-!
# Loops of bases

A class with a base leads to another class, so following bases ends at a base-less class or runs into a
loop. `orderClasses` looks for the classes of the second kind by visiting all of the first.

- **Rooted classes** (`Rooted`): those whose chain of bases ends. They are the ones with a level
  (`rooted_iff_level`), and the ones that the search visits (`mem_forest_iff_rooted`).
- **Loops** (`OnLoop`): a class that is a base of its bases. A class that is not rooted is one of these
  or derives from one (`not_rooted_iff`).
- **The search** (`foldlM_roots_of_le`): it ends without meeting a class twice, whatever its bound.
- **The report** (`orderClasses_eq`): the classes that are not rooted, in the order of declaration.
-/

namespace LuaGlue

namespace ClassForest

/-- The classes are told apart by their names, and the base of each is one of them. -/
structure Linked (declared : List Class) : Prop where
  distinct : (declared.map Class.name).Nodup
  bases : ∀ c ∈ declared, ∀ b, c.base = some b → ∃ p ∈ declared, p.ref = b

/-- The chain of bases of the class ends at a base-less one. -/
def Rooted (declared : List Class) (c : Class) : Prop := ∃ d, Above declared d c ∧ d.base = none

/-- `p` is the base of `c`. -/
def IsBaseOf (declared : List Class) (p c : Class) : Prop :=
  p ∈ declared ∧ ∃ b, c.base = some b ∧ p.name = b.name

/-- Following bases from the class leads back to it. -/
def OnLoop (declared : List Class) (c : Class) : Prop := Relation.TransGen (IsBaseOf declared) c c

variable {declared : List Class}

/-! ## Rooted classes -/

theorem rooted_of_level {c : Class} {k : Nat} (h : Level declared c k) : Rooted declared c := by
  induction h with
  | root _ hb => exact ⟨_, .refl, hb⟩
  | step _ hb hp hl ih =>
    obtain ⟨d, habove, hd⟩ := ih
    exact ⟨d, .step hb hp hl.mem habove, hd⟩

theorem level_of_above {c d : Class} (h : Above declared d c) (hd : d.base = none) (hc : c ∈ declared) :
    ∃ k, Level declared c k := by
  induction h with
  | refl => exact ⟨0, .root hc hd⟩
  | step hb hp hmem _ ih =>
    obtain ⟨k, hk⟩ := ih hmem
    exact ⟨k + 1, .step hc hb hp hk⟩

theorem rooted_iff_level {c : Class} (hc : c ∈ declared) :
    Rooted declared c ↔ ∃ k, Level declared c k := by
  constructor
  · rintro ⟨d, habove, hd⟩
    exact level_of_above habove hd hc
  · rintro ⟨k, hk⟩
    exact rooted_of_level hk

theorem Rooted.of_base {p c : Class} (h : IsBaseOf declared p c) (hp : Rooted declared p) :
    Rooted declared c := by
  obtain ⟨hmem, b, hb, hname⟩ := h
  obtain ⟨d, habove, hd⟩ := hp
  exact ⟨d, .step hb hname hmem habove, hd⟩

theorem mem_forest_iff_rooted (hnd : (declared.map Class.name).Nodup) {c : Class} :
    c ∈ forest declared ↔ c ∈ declared ∧ Rooted declared c := by
  constructor
  · intro h
    obtain ⟨k, hk⟩ := level_of_mem_forest h
    exact ⟨mem_declared_of_mem_forest h, rooted_of_level hk⟩
  · rintro ⟨hc, hrooted⟩
    obtain ⟨k, hk⟩ := (rooted_iff_level hc).mp hrooted
    exact hk.mem_forest hnd

/-! ## Loops -/

section Loops

variable (hnd : (declared.map Class.name).Nodup)
include hnd

/-- The bases of a class have lower levels. -/
theorem level_of_transGen {p c : Class} {k : Nat} (h : Relation.TransGen (IsBaseOf declared) p c)
    (hc : Level declared c k) : ∃ j < k, Level declared p j := by
  induction h generalizing k with
  | single hbase =>
    obtain ⟨hmem, b, hb, hname⟩ := hbase
    obtain ⟨j, rfl, hj⟩ := hc.pred hnd hb hname hmem
    exact ⟨j, by omega, hj⟩
  | tail _ hbase ih =>
    obtain ⟨hmem, b, hb, hname⟩ := hbase
    obtain ⟨j, rfl, hj⟩ := hc.pred hnd hb hname hmem
    obtain ⟨i, hi, hlevel⟩ := ih hj
    exact ⟨i, by omega, hlevel⟩

theorem level_of_above_level {d c : Class} {k : Nat} (h : Above declared d c) (hc : Level declared c k) :
    ∃ j, Level declared d j := by
  induction h generalizing k with
  | refl => exact ⟨k, hc⟩
  | step hb hp hmem _ ih =>
    obtain ⟨j, -, hj⟩ := hc.pred hnd hb hp hmem
    exact ih hj

/-- A class on a loop has no level: it would be below itself. -/
theorem not_level_of_onLoop {c : Class} {k : Nat} (h : OnLoop declared c) : ¬Level declared c k := by
  intro hk
  obtain ⟨j, hj, hlevel⟩ := level_of_transGen hnd h hk
  have := hk.unique hnd hlevel
  omega

end Loops

/-- Where no loop is above a class, its chain of bases ends: there are only finitely many classes. -/
theorem rooted_of_no_loop (hbases : ∀ c ∈ declared, ∀ b, c.base = some b → ∃ p ∈ declared, p.ref = b)
    {c : Class} (hc : c ∈ declared) (h : ∀ d ∈ declared, Above declared d c → ¬OnLoop declared d) :
    Rooted declared c := by
  -- the classes above `c`, ordered by "is a base of"
  let below (x y : {d // d ∈ declared}) : Prop :=
    Above declared y.1 c ∧ Relation.TransGen (IsBaseOf declared) x.1 y.1
  have hfinite : Finite {d // d ∈ declared} := (List.finite_toSet declared).to_subtype
  have htrans : IsTrans {d // d ∈ declared} below := ⟨fun x y z hxy hyz => ⟨hyz.1, hxy.2.trans hyz.2⟩⟩
  have hirrefl : Std.Irrefl below := ⟨fun x hx => h x.1 x.2 hx.1 hx.2⟩
  have hwf := Finite.wellFounded_of_trans_of_irrefl below
  suffices hall : ∀ x : {d // d ∈ declared}, Above declared x.1 c → Rooted declared x.1 from
    hall ⟨c, hc⟩ .refl
  intro x
  induction x using hwf.induction with
  | _ x ih =>
    intro hx
    rcases hb : x.1.base with _ | b
    · exact ⟨x.1, .refl, hb⟩
    · obtain ⟨p, hp, rfl⟩ := hbases x.1 x.2 b hb
      have hbase : IsBaseOf declared p x.1 := ⟨hp, _, hb, rfl⟩
      have habove : Above declared p c := Above.trans (.step hb rfl hp .refl) hx
      exact .of_base hbase (ih ⟨p, hp⟩ ⟨hx, .single hbase⟩ habove)

/-- **Classes without a root** are those on a loop and all that derive from one. -/
theorem not_rooted_iff (h : Linked declared) {c : Class} (hc : c ∈ declared) :
    ¬Rooted declared c ↔ ∃ d ∈ declared, OnLoop declared d ∧ Above declared d c := by
  constructor
  · intro hrooted
    by_contra hnone
    refine hrooted (rooted_of_no_loop h.bases hc fun d hd habove hloop => ?_)
    exact hnone ⟨d, hd, hloop, habove⟩
  · rintro ⟨d, hd, hloop, habove⟩ hrooted
    obtain ⟨k, hk⟩ := (rooted_iff_level hc).mp hrooted
    obtain ⟨j, hj⟩ := level_of_above_level h.distinct habove hk
    exact not_level_of_onLoop h.distinct hloop hj

/-! ## The search -/

theorem below_of_le {depth depth' : Nat} {name : String} (h : Shallow declared depth name)
    (hle : depth ≤ depth') : below declared depth' name = below declared depth name := by
  have hboth : Shallow declared depth' name ∧ below declared depth' name = below declared depth name := by
    induction hle with
    | refl => exact ⟨h, rfl⟩
    | step _ ih => exact ⟨shallow_succ ih.1, (below_succ ih.1).trans ih.2⟩
  exact hboth.2

/-- The search from the base-less classes ends without meeting a class twice, whatever its bound. -/
theorem foldlM_roots_of_le (hnd : (declared.map Class.name).Nodup) {depth : Nat}
    (hle : declared.length ≤ depth) :
    (roots declared).foldlM (visitClass declared depth) [] = .ok (forest declared) := by
  cases depth with
  | zero =>
    have hnil : declared = [] := List.length_eq_zero_iff.mp (by omega)
    subst hnil
    rfl
  | succ depth =>
    have hroot {c : Class} (hc : c ∈ roots declared) : Level declared c 0 := by
      obtain ⟨hmem, hb⟩ := mem_roots.mp hc
      exact .root hmem hb
    refine (foldlM_visit_succ visitClass_eq_ok_iff (by simp)).mpr ⟨?_, nodup_names_forest hnd, ?_⟩
    · intro c hc
      exact shallow_of_level hnd (hroot hc) (by omega)
    · rw [forest, List.nil_append]
      refine List.flatMap_congr fun c hc => ?_
      have hdepth : declared.length - 1 ≤ depth := by omega
      rw [below_of_le ((hroot hc).shallow hnd) hdepth]

open Classical in
/-- The classes that are not rooted, in the order of declaration. -/
noncomputable def unrooted (declared : List Class) : List Class :=
  declared.filter fun c => ¬Rooted declared c

open Classical in
/-- **The report.** Ordering gives the forest, or names the classes that are not rooted. -/
theorem orderClasses_eq (hnd : (declared.map Class.name).Nodup) :
    orderClasses declared = if unrooted declared = [] then .ok (forest declared)
      else .error (.baseLoop ((unrooted declared).map Class.name)) := by
  have hsearch := foldlM_roots_of_le hnd (Nat.le_refl declared.length)
  have hunreached : (declared.filter fun c => !(forest declared).any (·.name == c.name)) =
      unrooted declared := by
    refine List.filter_congr fun c hc => ?_
    have hmem : (forest declared).any (·.name == c.name) ↔ Rooted declared c := by
      rw [List.any_eq_true]
      constructor
      · rintro ⟨d, hd, hname⟩
        obtain ⟨hdecl, hrooted⟩ := (mem_forest_iff_rooted hnd).mp hd
        rwa [eq_of_name hnd hc hdecl (beq_iff_eq.mp hname).symm]
      · intro hrooted
        exact ⟨c, (mem_forest_iff_rooted hnd).mpr ⟨hc, hrooted⟩, by simp⟩
    by_cases hrooted : Rooted declared c
    · simp [hrooted, hmem.mpr hrooted]
    · have hany : (forest declared).any (·.name == c.name) = false := by
        simpa using mt hmem.mp hrooted
      simp [hrooted, hany]
  rw [orderClasses]
  change ((roots declared).foldlM _ _ >>= _) = _
  rw [hsearch, Except.ok_bind, hunreached]
  cases unrooted declared <;> simp

/-- What the search for loops finds out: `visited` are the classes that it visits. -/
structure FindsLoops (declared visited : List Class) : Prop where
  /-- However deep the search may go, it ends, and meets no class that it has visited. -/
  ends : ∀ depth, declared.length ≤ depth →
    (roots declared).foldlM (visitClass declared depth) [] = .ok visited
  once : (visited.map Class.name).Nodup
  visits : ∀ c, c ∈ visited ↔ c ∈ declared ∧ Rooted declared c
  orders : ∀ ordered, orderClasses declared = .ok ordered → ordered = visited
  fails : (∃ e, orderClasses declared = .error e) ↔ ∃ c ∈ declared, ¬Rooted declared c
  reports : ∀ e, orderClasses declared = .error e → e.message =
    "base class loop detected on " ++ ", ".intercalate ((unrooted declared).map Class.name)
  loops : ∀ c ∈ declared, ¬Rooted declared c ↔
    ∃ d ∈ declared, OnLoop declared d ∧ Above declared d c

/-- **Loops are found exactly.** The search visits every class whose chain of bases ends, once. Ordering
fails exactly when there are others, which are the classes on loops and those derived from them, and names
them in the order of their declaration. -/
theorem findsLoops_of_linked (h : Linked declared) : ∃ visited, FindsLoops declared visited := by
  -- all parts are read off the one equation for `orderClasses`
  have heq := orderClasses_eq h.distinct
  have hnil : unrooted declared = [] ↔ ¬∃ c ∈ declared, ¬Rooted declared c := by
    simp [unrooted, List.filter_eq_nil_iff]
  refine ⟨forest declared, ?_⟩
  constructor
  case ends => exact fun depth hle => foldlM_roots_of_le h.distinct hle
  case once => exact nodup_names_forest h.distinct
  case visits => exact fun c => mem_forest_iff_rooted h.distinct
  case orders =>
    intro ordered hordered
    rw [heq] at hordered
    split at hordered
    · cases hordered
      rfl
    · cases hordered
  case fails =>
    rw [heq]
    by_cases hun : unrooted declared = []
    · simp [hun, hnil.mp hun]
    · simpa [hun] using not_not.mp (mt hnil.mpr hun)
  case reports =>
    intro e he
    rw [heq] at he
    split at he
    · cases he
    · cases he
      rfl
  case loops => exact fun c hc => not_rooted_iff h hc

/-- Classes bound from a specification are linked. -/
theorem linked_of_declares {s : Spec} {r : Registry} (h : s.Declares r declared) : Linked declared :=
  ⟨h.nodup_names, fun _ hc _ hb => h.exists_base hc hb⟩

/-- A class and an interface that derive from each other and a class from one of them, beside two classes
whose bases end. -/
def entangled : Spec where
  aliases := [(.str "First", .named "Ring")]
  classes :=
    [(.str "Tail", { Model.memberless "Tail" (.str "First") .null with }),
      (.str "Leaf", { Model.memberless "Leaf" (.str "Stem") .null with }),
      (.str "Ring", { Model.memberless "Ring" (.str "Back") .null with }),
      (.str "Stem", { Model.memberless "Stem" .null .null with })]
  interfaces := [(.str "Back", Model.memberless "Back" (.str "Ring") .null)]

theorem findsLoops_entangled :
    ∃ r declared visited, Registry.ofSpec entangled = .ok r ∧
      entangled.allClasses.mapM (fun e => bindClass r e.1 e.2.1 e.2.2) = .ok declared ∧
      Linked declared ∧ FindsLoops declared visited ∧
      orderClasses declared = .error (.baseLoop ["Tail", "Ring", "Back"]) := by
  have hlinked := linked_of_declares (Spec.declares_of_mapM (s := entangled) rfl rfl)
  obtain ⟨visited, hfinds⟩ := findsLoops_of_linked hlinked
  exact ⟨_, _, visited, rfl, rfl, hlinked, hfinds, rfl⟩

end ClassForest

end LuaGlue
