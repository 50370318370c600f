import LuaGlue.Model.Order
import LuaGlue.Proofs.Except
import Mathlib.Data.List.Nodup
import Mathlib.Data.List.Perm.Subperm

/-!
# The forest of classes

Classes and their bases form a forest when every chain of bases ends. `orderClasses` searches it depth
first with a bound on the depth and a list of what it has seen.

- **What a visit does** (`visitClass_eq_ok_iff`): it succeeds when the depth suffices (`Shallow`) and no
  name comes twice, and then it appends the class and all that is `below` it.
- **Levels** (`Level declared c k`): `c` is `k` bases away from a base-less class. A level is below the
  number of classes (`Level.lt_length`), since the classes of a chain differ.
- **The order** (`orderClasses_eq_ok_iff`): ordering succeeds exactly when every class has a level, and
  gives the `forest`: the base-less classes, each followed by all that is below it.
- **Blocks** (`block_infix_forest`): in the forest, the classes below a class follow it directly.
-/

namespace LuaGlue.ClassForest

/-- The classes of the list that derive from the named one directly. -/
def derived (declared : List Class) (name : String) : List Class :=
  declared.filter fun d => d.base.any (·.name == name)

/-- The classes below the named one, at most `depth` levels down, each before those below it. -/
def below (declared : List Class) : Nat → String → List Class
  | 0, _ => []
  | depth + 1, name => (derived declared name).flatMap fun c => c :: below declared depth c.name

/-- No class is more than `depth` levels below the named one. -/
def Shallow (declared : List Class) : Nat → String → Prop
  | 0, name => derived declared name = []
  | depth + 1, name => ∀ c ∈ derived declared name, Shallow declared depth c.name

variable {declared : List Class}

theorem mem_derived {c : Class} {name : String} :
    c ∈ derived declared name ↔ c ∈ declared ∧ ∃ b, c.base = some b ∧ b.name = name := by
  simp [derived, Option.any_eq_true]

/-! ## Visits -/

/-- With no depth left every visit fails, so only the empty list is gone through. -/
theorem foldlM_visit_zero {l seen out : List Class} :
    l.foldlM (visitClass declared 0) seen = .ok out ↔ l = [] ∧ out = seen := by
  cases l with
  | nil => rw [List.foldlM_nil, Except.pure_eq_ok_iff, eq_comm]; simp
  | cons c l => simp [visitClass]

/-- Going through a list succeeds when every visit does, and appends their results. -/
theorem foldlM_visit_succ {depth : Nat}
    (hvisit : ∀ {seen out : List Class} {c : Class}, (seen.map Class.name).Nodup →
      (visitClass declared (depth + 1) seen c = .ok out ↔ Shallow declared depth c.name ∧
        (out.map Class.name).Nodup ∧ out = seen ++ c :: below declared depth c.name))
    {l seen out : List Class} (hseen : (seen.map Class.name).Nodup) :
    l.foldlM (visitClass declared (depth + 1)) seen = .ok out ↔
      (∀ c ∈ l, Shallow declared depth c.name) ∧ (out.map Class.name).Nodup ∧
        out = seen ++ l.flatMap fun c => c :: below declared depth c.name := by
  induction l generalizing seen with
  | nil =>
    simp only [List.foldlM_nil, Except.pure_eq_ok_iff, List.flatMap_nil, List.append_nil]
    constructor
    · rintro rfl; exact ⟨by simp, hseen, rfl⟩
    · rintro ⟨-, -, rfl⟩; rfl
  | cons c l ih =>
    rw [List.foldlM_cons, Except.bind_eq_ok]
    constructor
    · rintro ⟨mid, hmid, hrest⟩
      obtain ⟨hc, hnd, rfl⟩ := (hvisit hseen).mp hmid
      obtain ⟨hl, hout, rfl⟩ := (ih hnd).mp hrest
      refine ⟨?_, hout, by simp⟩
      rintro d hd
      rcases List.mem_cons.mp hd with rfl | hd
      · exact hc
      · exact hl d hd
    · rintro ⟨hl, hout, rfl⟩
      -- names do not come twice in all that is visited, and so not in a first part of it
      have hnd : ((seen ++ c :: below declared depth c.name).map Class.name).Nodup := by
        refine List.Nodup.sublist (List.Sublist.map _ ?_) hout
        simp
      refine ⟨_, (hvisit hseen).mpr ⟨hl c (by simp), hnd, rfl⟩, ?_⟩
      exact (ih hnd).mpr ⟨fun d hd => hl d (by simp [hd]), hout, by simp⟩

/-- A class that was seen before is a loop, and it is the one that is named in the error. -/
theorem visitClass_seen {depth : Nat} {seen : List Class} {c : Class}
    (h : c.name ∈ seen.map Class.name) :
    visitClass declared (depth + 1) seen c = .error (.baseLoop [c.name]) := by
  obtain ⟨d, hd, hname⟩ := List.mem_map.mp h
  rw [visitClass, if_pos (List.any_eq_true.mpr ⟨d, hd, by simp [hname]⟩)]

/-- A class that is new is appended, and the classes derived from it are visited with one level less. -/
theorem visitClass_fresh {depth : Nat} {seen : List Class} {c : Class}
    (h : c.name ∉ seen.map Class.name) :
    visitClass declared (depth + 1) seen c =
      (derived declared c.name).foldlM (visitClass declared depth) (seen ++ [c]) := by
  rw [visitClass, if_neg]
  · rfl
  · rw [List.any_eq_true]
    rintro ⟨d, hd, hname⟩
    exact h (List.mem_map.mpr ⟨d, hd, by simpa using hname⟩)

theorem nodup_names_snoc {seen : List Class} {c : Class} (hseen : (seen.map Class.name).Nodup)
    (h : c.name ∉ seen.map Class.name) : ((seen ++ [c]).map Class.name).Nodup := by
  rw [List.map_append, List.nodup_append]
  refine ⟨hseen, by simp, ?_⟩
  rintro n hn m hm rfl
  have hnc : n = c.name := by simpa using hm
  exact h (hnc ▸ hn)

/-- A name that was seen and comes again is a duplicate, whatever stands between. This is why a visit fails
where `visitClass_seen` does. -/
theorem not_nodup_names {seen l : List Class} {c : Class} (h : c.name ∈ seen.map Class.name) :
    ¬((seen ++ c :: l).map Class.name).Nodup := by
  intro hnd
  rw [List.map_append, List.nodup_append] at hnd
  exact hnd.2.2 _ h _ (by simp) rfl

/-- **What a visit does.** It succeeds when the depth suffices and no name comes twice, and appends
the class and all that is below it. -/
theorem visitClass_eq_ok_iff {depth : Nat} {seen out : List Class} {c : Class}
    (hseen : (seen.map Class.name).Nodup) :
    visitClass declared (depth + 1) seen c = .ok out ↔ Shallow declared depth c.name ∧
      (out.map Class.name).Nodup ∧ out = seen ++ c :: below declared depth c.name := by
  induction depth generalizing seen out c with
  | zero =>
    by_cases hc : c.name ∈ seen.map Class.name
    · rw [visitClass_seen hc]
      refine ⟨by simp, ?_⟩
      rintro ⟨-, hnd, rfl⟩
      exact absurd hnd (not_nodup_names hc)
    · rw [visitClass_fresh hc, foldlM_visit_zero, Shallow, below]
      constructor
      · rintro ⟨hd, rfl⟩; exact ⟨hd, nodup_names_snoc hseen hc, rfl⟩
      · rintro ⟨hd, -, rfl⟩; exact ⟨hd, rfl⟩
  | succ depth ih =>
    by_cases hc : c.name ∈ seen.map Class.name
    · rw [visitClass_seen hc]
      refine ⟨by simp, ?_⟩
      rintro ⟨-, hnd, rfl⟩
      exact absurd hnd (not_nodup_names hc)
    · rw [visitClass_fresh hc, foldlM_visit_succ ih (nodup_names_snoc hseen hc), Shallow, below]
      simp

/-! ## Depth -/

/-- A depth that suffices for a class still does with one more level. -/
theorem shallow_succ {depth : Nat} {name : String} (h : Shallow declared depth name) :
    Shallow declared (depth + 1) name := by
  induction depth generalizing name with
  | zero =>
    intro c hc
    rw [show derived declared name = [] from h] at hc
    cases hc
  | succ depth ih => exact fun c hc => ih (h c hc)

/-- A depth that suffices gives the same classes as any greater one. -/
theorem below_succ {depth : Nat} {name : String} (h : Shallow declared depth name) :
    below declared (depth + 1) name = below declared depth name := by
  induction depth generalizing name with
  | zero =>
    rw [below, below, show derived declared name = [] from h, List.flatMap_nil]
  | succ depth ih =>
    rw [below, below]
    refine List.flatMap_congr fun c hc => ?_
    rw [ih (h c hc)]

/-- The classes below a class, unfolded once. -/
theorem below_eq_flatMap {depth : Nat} {name : String} (h : Shallow declared depth name) :
    below declared depth name =
      (derived declared name).flatMap fun c => c :: below declared depth c.name := by
  cases depth with
  | zero => rw [show derived declared name = [] from h]; rfl
  | succ depth =>
    rw [below]
    refine List.flatMap_congr fun c hc => ?_
    rw [below_succ (h c hc)]

theorem derived_subset_below {depth : Nat} {name : String} (h : Shallow declared depth name) {c : Class}
    (hc : c ∈ derived declared name) : c ∈ below declared depth name := by
  rw [below_eq_flatMap h]
  exact List.mem_flatMap.mpr ⟨c, hc, by simp⟩

/-- The search finds declared classes alone, at every depth. -/
theorem mem_declared_of_mem_below {depth : Nat} {name : String} {c : Class}
    (h : c ∈ below declared depth name) : c ∈ declared := by
  induction depth generalizing name with
  | zero => cases h
  | succ depth ih =>
    obtain ⟨d, hd, hc⟩ := List.mem_flatMap.mp h
    rcases List.mem_cons.mp hc with rfl | hc
    · exact (mem_derived.mp hd).1
    · exact ih hc

/-- A depth that suffices for a class suffices for every class below it, which is nearer to the end. -/
theorem shallow_of_mem_below {depth : Nat} {name : String} (h : Shallow declared depth name)
    {c : Class} (hc : c ∈ below declared depth name) : Shallow declared depth c.name := by
  induction depth generalizing name with
  | zero => cases hc
  | succ depth ih =>
    obtain ⟨d, hd, hcd⟩ := List.mem_flatMap.mp hc
    rcases List.mem_cons.mp hcd with rfl | hcd
    · exact shallow_succ (h c hd)
    · exact shallow_succ (ih (h d hd) hcd)

/-- The classes below a class follow it directly wherever it stands among the classes `below` another one. -/
theorem block_infix_below {depth : Nat} {name : String} (h : Shallow declared depth name)
    {c : Class} (hc : c ∈ below declared depth name) :
    c :: below declared depth c.name <:+: below declared depth name := by
  induction depth generalizing name with
  | zero => cases hc
  | succ depth ih =>
    obtain ⟨d, hd, hcd⟩ := List.mem_flatMap.mp hc
    have hblock : d :: below declared depth d.name <:+: below declared (depth + 1) name :=
      List.infix_flatMap_of_mem hd fun c => c :: below declared depth c.name
    rcases List.mem_cons.mp hcd with rfl | hcd
    · rwa [below_succ (h c hd)]
    · rw [below_succ (shallow_of_mem_below (h d hd) hcd)]
      exact ((ih (h d hd) hcd).trans (List.suffix_cons d _).isInfix).trans hblock

/-! ## Levels -/

/-- `c` is `k` bases away from a base-less class. -/
inductive Level (declared : List Class) : Class → Nat → Prop
  | root {c} : c ∈ declared → c.base = none → Level declared c 0
  | step {c p b k} : c ∈ declared → c.base = some b → p.name = b.name → Level declared p k →
      Level declared c (k + 1)

theorem Level.mem {c : Class} {k : Nat} (h : Level declared c k) : c ∈ declared := by
  cases h <;> assumption

/-- A class derived from one of level `k` has the level `k + 1`. -/
theorem Level.derived {p c : Class} {k : Nat} (h : Level declared p k)
    (hc : c ∈ derived declared p.name) : Level declared c (k + 1) := by
  obtain ⟨hmem, b, hb, hname⟩ := mem_derived.mp hc
  exact .step hmem hb hname.symm h

/-- Classes below a class have greater levels, so none of them is the class itself. -/
theorem level_of_mem_below {p c : Class} {k depth : Nat} (h : Level declared p k)
    (hc : c ∈ below declared depth p.name) : ∃ j, k < j ∧ Level declared c j := by
  induction depth generalizing p k with
  | zero => cases hc
  | succ depth ih =>
    obtain ⟨d, hd, hcd⟩ := List.mem_flatMap.mp hc
    rcases List.mem_cons.mp hcd with rfl | hcd
    · exact ⟨k + 1, by omega, h.derived hd⟩
    · obtain ⟨j, hj, hl⟩ := ih (h.derived hd) hcd
      exact ⟨j, by omega, hl⟩

section Distinct

variable (hnd : (declared.map Class.name).Nodup)
include hnd

theorem eq_of_name {c d : Class} (hc : c ∈ declared) (hd : d ∈ declared) (h : c.name = d.name) :
    c = d :=
  List.inj_on_of_nodup_map hnd hc hd h

/-- A class has one level: names are those of one class each, so its chain of bases is unique. -/
theorem Level.unique {c : Class} {j k : Nat} (hj : Level declared c j) (hk : Level declared c k) :
    j = k := by
  induction hj generalizing k with
  | root _ hb =>
    cases hk with
    | root => rfl
    | step _ hb' => rw [hb] at hb'; cases hb'
  | step _ hb hp hl ih =>
    cases hk with
    | root _ hb' => rw [hb] at hb'; cases hb'
    | step _ hb' hp' hl' =>
      rw [hb] at hb'; cases hb'
      have := eq_of_name hnd hl.mem hl'.mem (hp.trans hp'.symm)
      subst this
      rw [ih hl']

/-- The chain of bases of a class, all of different levels: a class of level `k` has `k + 1` classes in it. -/
theorem Level.chain {c : Class} {k : Nat} (h : Level declared c k) :
    ∃ chain : List Class, chain.length = k + 1 ∧ chain ⊆ declared ∧ chain.Nodup ∧
      ∀ d ∈ chain, ∃ j ≤ k, Level declared d j := by
  induction h with
  | @root c hc hb =>
    refine ⟨[c], rfl, by simpa using hc, by simp, fun d hd => ?_⟩
    rw [List.mem_singleton.mp hd]
    exact ⟨0, Nat.le_refl 0, .root hc hb⟩
  | @step c p b k hc hb hp hl ih =>
    obtain ⟨chain, hlen, hsub, hchain, hlevels⟩ := ih
    have hlevel : Level declared c (k + 1) := .step hc hb hp hl
    have hfresh : c ∉ chain := by
      intro hmem
      obtain ⟨j, hj, hl'⟩ := hlevels c hmem
      have := Level.unique hnd hlevel hl'
      omega
    refine ⟨c :: chain, by simp [hlen], by simp [hc, hsub], by simp [hfresh, hchain], ?_⟩
    intro d hd
    rcases List.mem_cons.mp hd with rfl | hd
    · exact ⟨k + 1, Nat.le_refl _, hlevel⟩
    · obtain ⟨j, hj, hl'⟩ := hlevels d hd
      exact ⟨j, by omega, hl'⟩

/-- A chain of bases is no longer than the list of classes, as `Level.chain` has no class twice. -/
theorem Level.lt_length {c : Class} {k : Nat} (h : Level declared c k) : k < declared.length := by
  obtain ⟨chain, hlen, hsub, hchain, -⟩ := h.chain hnd
  have := (List.subperm_of_subset hchain hsub).length_le
  omega

/-- At the level `j`, a depth that makes up the number of classes suffices: a class further down would have a
level that `Level.lt_length` rules out. -/
theorem shallow_of_level {c : Class} {j depth : Nat} (h : Level declared c j)
    (hdepth : declared.length ≤ j + depth + 1) : Shallow declared depth c.name := by
  induction depth generalizing c j with
  | zero =>
    refine List.eq_nil_iff_forall_not_mem.mpr fun d hd => ?_
    have := (h.derived hd).lt_length hnd
    omega
  | succ depth ih => exact fun d hd => ih (h.derived hd) (by omega)

end Distinct

/-! ## Disjoint blocks -/

/-- `d` is `c` or one of the bases above it. -/
inductive Above (declared : List Class) (d : Class) : Class → Prop
  | refl : Above declared d d
  | step {c p b} : c.base = some b → p.name = b.name → p ∈ declared → Above declared d p →
      Above declared d c

theorem Above.trans {c d e : Class} (hde : Above declared e d) (hdc : Above declared d c) :
    Above declared e c := by
  induction hdc with
  | refl => exact hde
  | step hb hp hmem _ ih => exact .step hb hp hmem ih

/-- What the search finds below a class has this class `Above` it. -/
theorem above_of_mem_below {p c : Class} {depth : Nat} (hp : p ∈ declared)
    (hc : c ∈ below declared depth p.name) : Above declared p c := by
  induction depth generalizing p with
  | zero => cases hc
  | succ depth ih =>
    obtain ⟨d, hd, hcd⟩ := List.mem_flatMap.mp hc
    obtain ⟨hmem, b, hb, hname⟩ := mem_derived.mp hd
    have hpd : Above declared p d := .step hb hname.symm hp .refl
    rcases List.mem_cons.mp hcd with rfl | hcd
    · exact hpd
    · exact hpd.trans (ih hmem hcd)

theorem above_of_mem_block {p c : Class} {depth : Nat} (hp : p ∈ declared)
    (hc : c ∈ p :: below declared depth p.name) : Above declared p c := by
  rcases List.mem_cons.mp hc with rfl | hc
  · exact .refl
  · exact above_of_mem_below hp hc

section Disjoint

variable (hnd : (declared.map Class.name).Nodup)
include hnd

/-- A class with a base has the level after that of its base, by the uniqueness of names. -/
theorem Level.pred {c p : Class} {b : ClassRef} {k : Nat} (h : Level declared c k)
    (hb : c.base = some b) (hp : p.name = b.name) (hmem : p ∈ declared) :
    ∃ j, k = j + 1 ∧ Level declared p j := by
  cases h with
  | root _ hb' => rw [hb] at hb'; cases hb'
  | step _ hb' hp' hl =>
    rw [hb] at hb'; cases hb'
    have := eq_of_name hnd hmem hl.mem (hp.trans hp'.symm)
    subst this
    exact ⟨_, rfl, hl⟩

/-- Going up through bases, levels do not grow. -/
theorem Above.level_le {c d : Class} {j k : Nat} (h : Above declared d c) (hd : Level declared d j)
    (hc : Level declared c k) : j ≤ k := by
  induction h generalizing k with
  | refl => exact Nat.le_of_eq (hd.unique hnd hc)
  | step hb hp hmem _ ih =>
    obtain ⟨k', rfl, hl⟩ := hc.pred hnd hb hp hmem
    have := ih hl
    omega

/-- Only one class of a level is above a given class. So the blocks of two classes of one level have nothing in
common. -/
theorem Above.eq_of_level {c d e : Class} {j k : Nat} (hd : Above declared d c)
    (he : Above declared e c) (hdj : Level declared d j) (hej : Level declared e j)
    (hc : Level declared c k) : d = e := by
  induction hd generalizing k with
  | refl =>
    cases he with
    | refl => rfl
    | step hb hp hmem hep =>
      obtain ⟨j', rfl, hl⟩ := hdj.pred hnd hb hp hmem
      have := hep.level_le hnd hej hl
      omega
  | step hb hp hmem hdp ih =>
    obtain ⟨k', rfl, hl⟩ := hc.pred hnd hb hp hmem
    cases he with
    | refl =>
      have := hdp.level_le hnd hdj hl
      have := hc.unique hnd hej
      omega
    | step hb' hp' hmem' hep =>
      rw [hb] at hb'; cases hb'
      have := eq_of_name hnd hmem hmem' (hp.trans hp'.symm)
      subst this
      exact ih hep hl

/-- Classes of one level, each followed by all that is below it, if no name comes twice below each. -/
theorem nodup_blocks {l : List Class} {j depth : Nat} (hl : l.Nodup)
    (hlevel : ∀ c ∈ l, Level declared c j) (hbelow : ∀ c ∈ l, (below declared depth c.name).Nodup) :
    (l.flatMap fun c => c :: below declared depth c.name).Nodup := by
  rw [List.nodup_flatMap]
  constructor
  · intro c hc
    refine List.nodup_cons.mpr ⟨fun hmem => ?_, hbelow c hc⟩
    obtain ⟨k, hk, hlk⟩ := level_of_mem_below (hlevel c hc) hmem
    have := (hlevel c hc).unique hnd hlk
    omega
  · refine hl.imp_of_mem ?_
    intro c d hc hd hne x hxc hxd
    have habove := above_of_mem_block (hlevel c hc).mem hxc
    have habove' := above_of_mem_block (hlevel d hd).mem hxd
    obtain ⟨k, hk⟩ : ∃ k, Level declared x k := by
      rcases List.mem_cons.mp hxc with rfl | hx
      · exact ⟨j, hlevel x hc⟩
      · obtain ⟨k, -, hk⟩ := level_of_mem_below (hlevel c hc) hx
        exact ⟨k, hk⟩
    exact hne (habove.eq_of_level hnd habove' (hlevel c hc) (hlevel d hd) hk)

/-- No class comes twice below a class that has a level, by induction over the depth with `nodup_blocks`. -/
theorem nodup_below {c : Class} {j depth : Nat} (h : Level declared c j) :
    (below declared depth c.name).Nodup := by
  induction depth generalizing c j with
  | zero => exact List.nodup_nil
  | succ depth ih =>
    have hderived : (derived declared c.name).Nodup := (List.Nodup.of_map _ hnd).filter _
    exact nodup_blocks hnd hderived (fun d hd => h.derived hd) fun d hd => ih (h.derived hd)

end Disjoint

/-! ## The forest -/

/-- The base-less classes. -/
def roots (declared : List Class) : List Class := declared.filter (·.base.isNone)

/-- The base-less classes, each followed by all that is below it. -/
def forest (declared : List Class) : List Class :=
  (roots declared).flatMap fun c => c :: below declared (declared.length - 1) c.name

theorem mem_roots {c : Class} : c ∈ roots declared ↔ c ∈ declared ∧ c.base = none := by
  simp [roots]

theorem mem_declared_of_mem_forest {c : Class} (h : c ∈ forest declared) : c ∈ declared := by
  obtain ⟨r, hr, hc⟩ := List.mem_flatMap.mp h
  rcases List.mem_cons.mp hc with rfl | hc
  · exact (mem_roots.mp hr).1
  · exact mem_declared_of_mem_below hc

/-- Every class of the forest has a level: it is base-less or below a class that is. -/
theorem level_of_mem_forest {c : Class} (h : c ∈ forest declared) : ∃ k, Level declared c k := by
  obtain ⟨r, hr, hc⟩ := List.mem_flatMap.mp h
  obtain ⟨hmem, hb⟩ := mem_roots.mp hr
  rcases List.mem_cons.mp hc with rfl | hc
  · exact ⟨0, .root hmem hb⟩
  · obtain ⟨k, -, hk⟩ := level_of_mem_below (.root hmem hb) hc
    exact ⟨k, hk⟩

/-- Ordering visits the base-less classes in turn. By `visitClass_eq_ok_iff` this succeeds when the depth
suffices and no name comes twice in the forest. -/
theorem foldlM_roots {ordered : List Class} :
    (roots declared).foldlM (visitClass declared declared.length) [] = .ok ordered ↔
      (∀ c ∈ roots declared, Shallow declared (declared.length - 1) c.name) ∧
        (ordered.map Class.name).Nodup ∧ ordered = forest declared := by
  rcases hlen : declared.length with _ | n
  · have hnil : declared = [] := List.length_eq_zero_iff.mp hlen
    subst hnil
    rw [forest, show roots [] = [] from rfl, List.foldlM_nil, Except.pure_eq_ok_iff]
    constructor
    · rintro rfl; simp
    · rintro ⟨-, -, rfl⟩; rfl
  · rw [foldlM_visit_succ visitClass_eq_ok_iff (by simp), forest, hlen]
    rfl

/-- No declared class is missing among the ordered ones if and only if all of them are in the list. -/
theorem unreached_eq_nil {ordered : List Class} :
    (declared.filter fun c => !ordered.any (·.name == c.name)) = [] ↔
      ∀ c ∈ declared, c.name ∈ ordered.map Class.name := by
  simp [List.filter_eq_nil_iff]

/-- Ordering, step by step. -/
theorem orderClasses_eq_ok_steps {ordered : List Class} :
    orderClasses declared = .ok ordered ↔
      (∀ c ∈ roots declared, Shallow declared (declared.length - 1) c.name) ∧
        (ordered.map Class.name).Nodup ∧ ordered = forest declared ∧
        ∀ c ∈ declared, c.name ∈ ordered.map Class.name := by
  rw [orderClasses, Except.bind_eq_ok]
  constructor
  · rintro ⟨o, ho, h⟩
    split at h
    · rename_i hnil
      cases h
      obtain ⟨hs, hn, hf⟩ := foldlM_roots.mp ho
      exact ⟨hs, hn, hf, unreached_eq_nil.mp hnil⟩
    · cases h
  · rintro ⟨hs, hn, hf, hall⟩
    refine ⟨ordered, foldlM_roots.mpr ⟨hs, hn, hf⟩, ?_⟩
    rw [unreached_eq_nil.mpr hall]

section Order

variable (hnd : (declared.map Class.name).Nodup)
include hnd

/-- The depth of the search suffices for every class that has a level, by `shallow_of_level` at the level of the
class. -/
theorem Level.shallow {c : Class} {k : Nat} (h : Level declared c k) :
    Shallow declared (declared.length - 1) c.name :=
  shallow_of_level hnd h (by omega)

/-- In the forest, the classes below a class follow it directly, since each block of a base-less class has this
property. -/
theorem block_infix_forest {c : Class} (h : c ∈ forest declared) :
    c :: below declared (declared.length - 1) c.name <:+: forest declared := by
  obtain ⟨r, hr, hc⟩ := List.mem_flatMap.mp h
  obtain ⟨hmem, hb⟩ := mem_roots.mp hr
  have hblock : r :: below declared (declared.length - 1) r.name <:+: forest declared :=
    List.infix_flatMap_of_mem hr fun c => c :: below declared (declared.length - 1) c.name
  rcases List.mem_cons.mp hc with rfl | hc
  · exact hblock
  · have hshallow := Level.shallow hnd (.root hmem hb)
    exact ((block_infix_below hshallow hc).trans (List.suffix_cons r _).isInfix).trans hblock

/-- A class with a level stands in the forest: its base does, and its base's block holds it. -/
theorem Level.mem_forest {c : Class} {k : Nat} (h : Level declared c k) : c ∈ forest declared := by
  induction h with
  | root hmem hb => exact List.mem_flatMap.mpr ⟨_, mem_roots.mpr ⟨hmem, hb⟩, by simp⟩
  | step hmem hb hp hl ih =>
    have hderived := mem_derived.mpr ⟨hmem, _, hb, hp.symm⟩
    refine (block_infix_forest hnd ih).subset (List.mem_cons_of_mem _ ?_)
    exact derived_subset_below (hl.shallow hnd) hderived

/-- If every class has a level, the forest has the declared classes and no others. -/
theorem mem_forest_iff (hlevels : ∀ c ∈ declared, ∃ k, Level declared c k) {c : Class} :
    c ∈ forest declared ↔ c ∈ declared := by
  refine ⟨mem_declared_of_mem_forest, fun hc => ?_⟩
  obtain ⟨k, hk⟩ := hlevels c hc
  exact hk.mem_forest hnd

/-- No class stands in the forest twice: the base-less classes are of level zero, so `nodup_blocks` applies to
them. -/
theorem nodup_forest : (forest declared).Nodup := by
  have hroots : ∀ c ∈ roots declared, Level declared c 0 := by
    intro c hc
    obtain ⟨hmem, hb⟩ := mem_roots.mp hc
    exact .root hmem hb
  exact nodup_blocks hnd ((List.Nodup.of_map _ hnd).filter _) hroots
    fun c hc => nodup_below hnd (hroots c hc)

theorem nodup_names_forest : ((forest declared).map Class.name).Nodup := by
  refine List.Nodup.map_on (fun c hc d hd h => ?_) (nodup_forest hnd)
  exact eq_of_name hnd (mem_declared_of_mem_forest hc) (mem_declared_of_mem_forest hd) h

/-- **The order of classes.** Ordering succeeds exactly when the chain of bases of every class ends,
and gives the forest. -/
theorem orderClasses_eq_ok_iff {ordered : List Class} :
    orderClasses declared = .ok ordered ↔
      ordered = forest declared ∧ ∀ c ∈ declared, ∃ k, Level declared c k := by
  rw [orderClasses_eq_ok_steps]
  constructor
  · rintro ⟨-, -, rfl, hall⟩
    refine ⟨rfl, fun c hc => ?_⟩
    obtain ⟨d, hd, hname⟩ := List.mem_map.mp (hall c hc)
    have := eq_of_name hnd (mem_declared_of_mem_forest hd) hc hname
    exact this ▸ level_of_mem_forest hd
  · rintro ⟨rfl, hall⟩
    refine ⟨fun c hc => ?_, nodup_names_forest hnd, rfl, fun c hc => ?_⟩
    · obtain ⟨hmem, hb⟩ := mem_roots.mp hc
      exact Level.shallow hnd (.root hmem hb)
    · obtain ⟨k, hk⟩ := hall c hc
      exact List.mem_map_of_mem (hk.mem_forest hnd)

end Order

/-! ## The classes of the forest -/

theorem filter_eq_of_sublist {α : Type} {p : α → Bool} {l l' : List α} (hnd : l.Nodup)
    (hsub : l'.Sublist l) (h : ∀ x ∈ l, p x ↔ x ∈ l') : l.filter p = l' := by
  have hself : l'.filter p = l' := List.filter_eq_self.mpr fun x hx => (h x (hsub.subset hx)).mpr hx
  have hle : l'.Sublist (l.filter p) := hself ▸ hsub.filter p
  have hperm : l'.Perm (l.filter p) := by
    refine (List.perm_ext_iff_of_nodup (hnd.sublist hsub) (hnd.filter p)).mpr fun x => ?_
    rw [List.mem_filter]
    exact ⟨fun hx => ⟨hsub.subset hx, (h x (hsub.subset hx)).mpr hx⟩, fun ⟨hx, hp⟩ => (h x hx).mp hp⟩
  exact (hle.eq_of_length hperm.length_eq).symm

theorem sublist_flatMap_cons {α : Type} (f : α → List α) (l : List α) :
    l.Sublist (l.flatMap fun a => a :: f a) := by
  induction l with
  | nil => exact List.Sublist.slnil
  | cons a l ih =>
    rw [List.flatMap_cons, List.cons_append]
    exact (ih.trans (List.sublist_append_right _ _)).cons_cons a

section Forest

variable (hnd : (declared.map Class.name).Nodup)
include hnd

/-- Ordering again begins with the same classes in the same order. -/
theorem roots_forest : roots (forest declared) = roots declared := by
  refine filter_eq_of_sublist (nodup_forest hnd) (sublist_flatMap_cons _ _) fun c hc => ?_
  rw [mem_roots, Option.isNone_iff_eq_none]
  exact (and_iff_right (mem_declared_of_mem_forest hc)).symm

/-- The classes derived from a class stand in the forest in the order of their declaration, as the search goes
through `derived` in that order. -/
theorem derived_forest {c : Class} (hc : c ∈ forest declared) :
    derived (forest declared) c.name = derived declared c.name := by
  obtain ⟨k, hk⟩ := level_of_mem_forest hc
  have hbelow :
      (derived declared c.name).Sublist (below declared (declared.length - 1) c.name) := by
    rw [below_eq_flatMap (hk.shallow hnd)]
    exact sublist_flatMap_cons _ _
  have hsub : (derived declared c.name).Sublist (forest declared) :=
    (hbelow.trans (List.sublist_cons_self c _)).trans (block_infix_forest hnd hc).sublist
  refine filter_eq_of_sublist (nodup_forest hnd) hsub fun d hd => ?_
  rw [mem_derived, Option.any_eq_true]
  simp [mem_declared_of_mem_forest hd]

theorem mem_forest_of_derived {c d : Class} (hc : c ∈ forest declared)
    (hd : d ∈ derived declared c.name) : d ∈ forest declared := by
  obtain ⟨k, hk⟩ := level_of_mem_forest hc
  exact (hk.derived hd).mem_forest hnd

/-- The search finds the same classes in the forest as in the declared list, so ordering is idempotent. -/
theorem below_forest {c : Class} (hc : c ∈ forest declared) (depth : Nat) :
    below (forest declared) depth c.name = below declared depth c.name := by
  induction depth generalizing c with
  | zero => rfl
  | succ depth ih =>
    rw [below, below, derived_forest hnd hc]
    refine List.flatMap_congr fun d hd => ?_
    rw [ih (mem_forest_of_derived hnd hc hd)]

end Forest

end LuaGlue.ClassForest
