import LuaGlue.Proofs.Model.ClassOrder
import Mathlib.Data.List.Basic
import Mathlib.Logic.Relation

/-!
# The lineage of a class

- **Ancestors** (`BoundFrom.mem_lineage_iff`): the lineage of a class is the class and all that it derives
  from.
- **Order** (`BoundFrom.mem_before_of_derives`): in the list of classes these stand before the class.
-/

namespace LuaGlue.Model

/-- The second class is the base of the first. -/
def BaseOf (m : Model) (c p : Class) : Prop := p ∈ m.classes ∧ c.base = some p.ref

/-- The first class is the second or derives from it. -/
def Derives (m : Model) : Class → Class → Prop := Relation.ReflTransGen m.BaseOf

theorem Derives.mem_classes {m : Model} {c owner : Class} (h : m.Derives c owner) (hc : c ∈ m.classes) :
    owner ∈ m.classes := by
  induction h with
  | refl => exact hc
  | tail _ hq => exact hq.1

namespace BoundFrom

variable {s : Spec} {m : Model} {declared : List Class}

theorem eq_of_baseOf (h : BoundFrom s declared m) {c p q : Class} (hp : m.BaseOf c p) (hq : m.BaseOf c q) :
    p = q := by
  have href : p.ref = q.ref := Option.some.inj (hp.2.symm.trans hq.2)
  exact h.eq_of_name hp.1 hq.1 (congrArg (·.name) href)

/-- At any depth beyond the level of a class, its lineage is complete. -/
theorem mem_lineageTo_iff (h : BoundFrom s declared m) {c : Class} {k : Nat}
    (hk : ClassForest.Level declared c k) {depth : Nat} (hdepth : k < depth) {owner : Class} :
    owner ∈ m.lineageTo depth c ↔ m.Derives c owner := by
  induction hk generalizing depth with
  | @root c _ hb =>
    obtain ⟨depth, rfl⟩ := Nat.exists_eq_add_one.mpr hdepth
    rw [lineageTo_root hb, List.mem_singleton]
    constructor
    · rintro rfl
      exact .refl
    · intro howner
      rcases Relation.ReflTransGen.cases_head howner with rfl | ⟨p, hp, -⟩
      · rfl
      · rw [BaseOf, hb] at hp
        cases hp.2
  | @step c p b k hc hb hname hp ih =>
    obtain ⟨depth, rfl⟩ := Nat.exists_eq_add_one.mpr (Nat.zero_lt_of_lt hdepth)
    have hbase : m.BaseOf c p := ⟨h.mem_classes.mpr hp.mem, h.base_eq_ref hc hb hp.mem hname⟩
    rw [h.lineageTo_step hbase.1 hbase.2, List.mem_cons, ih (by omega)]
    constructor
    · rintro (rfl | howner)
      · exact .refl
      · exact .head hbase howner
    · intro howner
      -- a class has one base, so the first step up is the one to `p`
      rcases Relation.ReflTransGen.cases_head howner with rfl | ⟨q, hq, howner⟩
      · exact .inl rfl
      · rw [h.eq_of_baseOf hbase hq]
        exact .inr howner

/-- The lineage of a class is the class and all that it derives from. -/
theorem mem_lineage_iff (h : BoundFrom s declared m) {c : Class} (hc : c ∈ m.classes) {owner : Class} :
    owner ∈ m.lineage c ↔ m.Derives c owner := by
  obtain ⟨k, hk⟩ := h.levels c (h.mem_classes.mp hc)
  have hlength := hk.lt_length h.declares.nodup_names
  rw [← h.perm_classes.length_eq] at hlength
  exact h.mem_lineageTo_iff hk hlength

/-- A base stands before the classes that derive from it. -/
theorem mem_before_of_baseOf (h : BoundFrom s declared m) {c p : Class} {before after : List Class}
    (hsplit : m.classes = before ++ c :: after) (hb : m.BaseOf c p) : p ∈ before := by
  have hc : c ∈ m.classes := by simp [hsplit]
  have hsub : c ∈ m.subclasses p.name := (h.mem_subclasses hb.1).mpr ⟨hc, p.ref, hb.2, rfl⟩
  obtain ⟨pre, mid, post, hclasses⟩ := h.after_base hb.1 hsub
  -- the class stands at one place only
  have hnodup : (before ++ c :: after).Nodup := hsplit ▸ List.Nodup.of_map _ h.nodup_classes
  rw [List.nodup_middle, List.nodup_cons, List.mem_append, not_or] at hnodup
  obtain ⟨rfl, -⟩ := (List.append_cons_inj_of_notMem hnodup.1.1 hnodup.1.2).mp (hsplit.symm.trans hclasses)
  simp

theorem mem_before_of_derives (h : BoundFrom s declared m) {c owner : Class} {before after : List Class}
    (hsplit : m.classes = before ++ c :: after) (howner : m.Derives c owner) :
    owner ∈ before ++ [c] := by
  induction howner with
  | refl => simp
  | @tail p q _ hq ih =>
    refine List.mem_append_left _ ?_
    rcases List.mem_append.mp ih with hp | hp
    · obtain ⟨pre, mid, rfl⟩ := List.append_of_mem hp
      have hpre := h.mem_before_of_baseOf (by simpa using hsplit) hq
      exact List.mem_append_left _ hpre
    · rw [List.mem_singleton.mp hp] at hq
      exact h.mem_before_of_baseOf hsplit hq

end BoundFrom

end LuaGlue.Model
