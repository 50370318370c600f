import LuaGlue.Proofs.Document.MergedTables

/-!
# Merging documents in groups

Documents may be merged all at once or group by group. Grouping changes which tables are compared and when,
but not what comes out.

- **Tables** (`mergeTable_assoc`): joining three values is joining the first two or the last two first.
- **One table** (`addTable_comm`, `addTable_addTable`): a table that joins one already there may be added
  before tables of other keys, and two tables of one key may be joined before they are added.
- **Groups** (`foldlM_addTable_regroup`): tables can be added one by one, or merged among themselves first.
  `merge_append` says this of documents.
-/

namespace LuaGlue.Document

open Value (Distinct sameKey_comm sameKey_of_common distinct_snoc)

/-! ## Replaced entries -/

namespace Entries

variable {es : Entries} {key key' v w : Value}

theorem keys_snoc (e : Value × Value) : keys (es ++ [e]) = es.keys ++ [e.1] := by
  simp [keys]

@[simp] theorem keys_replace : (es.replace key v).keys = es.keys := by
  unfold keys replace
  rw [List.map_map]
  apply List.map_congr_left
  intro e _
  by_cases h : e.1.sameKey key <;> simp [h]

theorem replace_of_find?_eq_none (h : es.find? key = none) : es.replace key v = es := by
  have hid : es.replace key v = es.map id := by
    apply List.map_congr_left
    intro e he
    have hother : ¬e.1.sameKey key := find?_eq_none.mp h e.1 (List.mem_map_of_mem he)
    simp [hother]
  rw [hid, List.map_id]

theorem replace_append (more : Entries) :
    replace (es ++ more) key v = es.replace key v ++ more.replace key v := by
  simp [replace]

/-- The later of two values under one key counts. -/
theorem replace_replace (h : key.sameKey key') : (es.replace key v).replace key' w = es.replace key w := by
  unfold replace
  rw [List.map_map]
  apply List.map_congr_left
  intro e _
  have hsame : e.1.sameKey key ↔ e.1.sameKey key' :=
    ⟨fun he => sameKey_of_common he (sameKey_comm.mp h), fun he => sameKey_of_common he h⟩
  by_cases he : e.1.sameKey key
  · simp [he, hsame.mp he]
  · simp [he, mt hsame.mpr he]

theorem replace_comm (h : ¬key.sameKey key') :
    (es.replace key v).replace key' w = (es.replace key' w).replace key v := by
  unfold replace
  rw [List.map_map, List.map_map]
  apply List.map_congr_left
  intro e _
  by_cases he : e.1.sameKey key
  · have hother : ¬e.1.sameKey key' := fun he' =>
      h (sameKey_comm.mp (sameKey_of_common (sameKey_comm.mp he') (sameKey_comm.mp he)))
    simp [he, hother]
  · by_cases he' : e.1.sameKey key' <;> simp [he, he']

end Entries

/-! ## Three values under one key -/

/-- Two mappings can be joined when the names of the second are new and differ from each other. -/
theorem mergeTable_map_eq_ok {key u : Value} {es more : Entries} :
    mergeTable key (.map es) (.map more) = .ok u ↔
      isMixedInfo key = false ∧ (∀ e ∈ es, ∀ f ∈ more, ¬e.1.sameKey f.1) ∧ Distinct more.keys ∧
        u = .map (es ++ more) := by
  rw [mergeTable]
  cases isMixedInfo key with
  | true => simp
  | false =>
    have hnames : (∃ es', more.foldlM (appendEntry key) es = .ok es') ↔ _ := foldlM_appendEntry_ok_iff
    simp only [Bool.false_eq_true, if_false, Except.map_eq_ok, true_and, ← and_assoc, ← hnames]
    constructor
    · rintro ⟨es', hes, rfl⟩
      exact ⟨⟨es', hes⟩, by rw [foldlM_appendEntry hes]⟩
    · rintro ⟨⟨es', hes⟩, rfl⟩
      exact ⟨es', hes, by rw [foldlM_appendEntry hes]⟩

theorem mergeTable_map_assoc {key u : Value} {ps vs ws : Entries} :
    (∃ y, mergeTable key (.map ps) (.map vs) = .ok y ∧ mergeTable key y (.map ws) = .ok u) ↔
      ∃ z, mergeTable key (.map vs) (.map ws) = .ok z ∧ mergeTable key (.map ps) z = .ok u := by
  -- both sides ask that no name comes twice among `vs` and `ws` or is one of `ps`
  have hleft : (∃ y, mergeTable key (.map ps) (.map vs) = .ok y ∧ mergeTable key y (.map ws) = .ok u) ↔
      isMixedInfo key = false ∧ (∀ e ∈ ps, ∀ f ∈ vs, ¬e.1.sameKey f.1) ∧ Distinct vs.keys ∧
        (∀ e ∈ ps ++ vs, ∀ f ∈ ws, ¬e.1.sameKey f.1) ∧ Distinct ws.keys ∧ u = .map (ps ++ vs ++ ws) := by
    simp only [mergeTable_map_eq_ok]
    constructor
    · rintro ⟨_, ⟨hmixed, hfresh, hvs, rfl⟩, hu⟩
      exact ⟨hmixed, hfresh, hvs, (mergeTable_map_eq_ok.mp hu).2⟩
    · rintro ⟨hmixed, hfresh, hvs, hu⟩
      exact ⟨_, ⟨hmixed, hfresh, hvs, rfl⟩, mergeTable_map_eq_ok.mpr ⟨hmixed, hu⟩⟩
  have hright : (∃ z, mergeTable key (.map vs) (.map ws) = .ok z ∧ mergeTable key (.map ps) z = .ok u) ↔
      isMixedInfo key = false ∧ (∀ e ∈ vs, ∀ f ∈ ws, ¬e.1.sameKey f.1) ∧ Distinct ws.keys ∧
        (∀ e ∈ ps, ∀ f ∈ vs ++ ws, ¬e.1.sameKey f.1) ∧ Distinct (vs ++ ws).keys ∧
        u = .map (ps ++ (vs ++ ws)) := by
    simp only [mergeTable_map_eq_ok]
    constructor
    · rintro ⟨_, ⟨hmixed, hfresh, hws, rfl⟩, hu⟩
      exact ⟨hmixed, hfresh, hws, (mergeTable_map_eq_ok.mp hu).2⟩
    · rintro ⟨hmixed, hfresh, hws, hu⟩
      exact ⟨_, ⟨hmixed, hfresh, hws, rfl⟩, mergeTable_map_eq_ok.mpr ⟨hmixed, hu⟩⟩
  rw [hleft, hright, List.append_assoc]
  simp only [Entries.keys, Distinct, List.map_append, List.pairwise_append, List.forall_mem_append,
    List.forall_mem_map, forall_and]
  tauto

/-- **Joining is associative.** Of three values under one key, the last two may be joined first. -/
theorem mergeTable_assoc {key p v w u : Value} :
    (∃ y, mergeTable key p v = .ok y ∧ mergeTable key y w = .ok u) ↔
      ∃ z, mergeTable key v w = .ok z ∧ mergeTable key p z = .ok u := by
  constructor
  · rintro ⟨y, hy, hu⟩
    obtain ⟨ps, vs, rfl, rfl, rfl⟩ | ⟨ps, vs, rfl, rfl, rfl, -⟩ := mergeTable_eq_ok hy
    · obtain ⟨_, ws, ⟨⟩, rfl, rfl⟩ | ⟨_, _, ⟨⟩, -⟩ := mergeTable_eq_ok hu
      exact ⟨.list (vs ++ ws), rfl, by simp [mergeTable]⟩
    · obtain ⟨_, _, ⟨⟩, -⟩ | ⟨_, ws, ⟨⟩, rfl, -⟩ := mergeTable_eq_ok hu
      exact mergeTable_map_assoc.mp ⟨_, hy, hu⟩
  · rintro ⟨z, hz, hu⟩
    obtain ⟨vs, ws, rfl, rfl, rfl⟩ | ⟨vs, ws, rfl, rfl, rfl, -⟩ := mergeTable_eq_ok hz
    · obtain ⟨ps, _, rfl, ⟨⟩, rfl⟩ | ⟨_, _, -, ⟨⟩, -⟩ := mergeTable_eq_ok hu
      exact ⟨.list (ps ++ vs), rfl, by simp [mergeTable]⟩
    · obtain ⟨_, _, -, ⟨⟩, -⟩ | ⟨ps, _, rfl, ⟨⟩, -⟩ := mergeTable_eq_ok hu
      exact mergeTable_map_assoc.mpr ⟨_, hz, hu⟩

theorem mergeTable_congr {key key' v w u : Value} (h : key.sameKey key') :
    mergeTable key v w = .ok u ↔ mergeTable key' v w = .ok u := by
  constructor
  · intro hu
    obtain ⟨vs, ws, rfl, rfl, rfl⟩ | ⟨vs, ws, rfl, rfl, rfl, -⟩ := mergeTable_eq_ok hu
    · rfl
    · rwa [mergeTable_map_eq_ok, isMixedInfo_congr h, ← mergeTable_map_eq_ok] at hu
  · intro hu
    obtain ⟨vs, ws, rfl, rfl, rfl⟩ | ⟨vs, ws, rfl, rfl, rfl, -⟩ := mergeTable_eq_ok hu
    · rfl
    · rwa [mergeTable_map_eq_ok, ← isMixedInfo_congr h, ← mergeTable_map_eq_ok] at hu

/-! ## One table -/

section OneTable

variable {merged m : Entries} {e f : Value × Value}

theorem addTable_of_none (h : merged.find? e.1 = none) : addTable merged e = .ok (merged ++ [e]) := by
  simp [addTable, h]

theorem addTable_eq_ok_of_some {p : Value} (h : merged.find? e.1 = some p) :
    addTable merged e = .ok m ↔ ∃ u, mergeTable e.1 p e.2 = .ok u ∧ merged.replace e.1 u = m := by
  simp [addTable, h, Except.map_eq_ok]

/-- A table that joins one already there may be added before a table of another key. -/
theorem addTable_comm (he : (merged.find? e.1).isSome) (hother : ¬f.1.sameKey e.1) :
    (∃ mid, addTable merged f = .ok mid ∧ addTable mid e = .ok m) ↔
      ∃ mid, addTable merged e = .ok mid ∧ addTable mid f = .ok m := by
  obtain ⟨p, hp⟩ := Option.isSome_iff_exists.mp he
  have hother' : ¬e.1.sameKey f.1 := mt sameKey_comm.mp hother
  have hreplaced (u : Value) : (merged.replace e.1 u).find? f.1 = merged.find? f.1 := by
    rw [Entries.find?_replace, if_neg hother']
  cases hf : merged.find? f.1 with
  -- `f` is new and comes last, where replacing the table under the other key does not reach
  | none =>
    have hsnoc : Entries.find? (merged ++ [f]) e.1 = some p := by
      rw [Entries.find?_append, hp]
      rfl
    have hkept (u : Value) : Entries.replace (merged ++ [f]) e.1 u = merged.replace e.1 u ++ [f] := by
      have hnone : Entries.find? [f] e.1 = none := by simp [Entries.find?, hother]
      rw [Entries.replace_append, Entries.replace_of_find?_eq_none hnone]
    simp only [addTable_of_none hf, Except.ok.injEq, exists_eq_left', addTable_eq_ok_of_some hsnoc, hkept,
      addTable_eq_ok_of_some hp]
    constructor
    · rintro ⟨u, hu, rfl⟩
      exact ⟨_, ⟨u, hu, rfl⟩, addTable_of_none ((hreplaced u).trans hf)⟩
    · rintro ⟨_, ⟨u, hu, rfl⟩, hm⟩
      rw [addTable_of_none ((hreplaced u).trans hf)] at hm
      cases hm
      exact ⟨u, hu, rfl⟩
  -- both keys are there, and replacing one table does not change what is found under the other
  | some q =>
    have hreplaced' (v : Value) : (merged.replace f.1 v).find? e.1 = some p := by
      rw [Entries.find?_replace, if_neg hother, hp]
    simp only [addTable_eq_ok_of_some hf, addTable_eq_ok_of_some hp]
    constructor
    · rintro ⟨_, ⟨v, hv, rfl⟩, hm⟩
      obtain ⟨u, hu, rfl⟩ := (addTable_eq_ok_of_some (hreplaced' v)).mp hm
      refine ⟨_, ⟨u, hu, rfl⟩, (addTable_eq_ok_of_some ((hreplaced u).trans hf)).mpr ⟨v, hv, ?_⟩⟩
      exact Entries.replace_comm hother'
    · rintro ⟨_, ⟨u, hu, rfl⟩, hm⟩
      obtain ⟨v, hv, rfl⟩ := (addTable_eq_ok_of_some ((hreplaced u).trans hf)).mp hm
      refine ⟨_, ⟨v, hv, rfl⟩, (addTable_eq_ok_of_some (hreplaced' v)).mpr ⟨u, hu, ?_⟩⟩
      exact Entries.replace_comm hother

/-- Two tables of one key may be joined before they are added. -/
theorem addTable_addTable (h : f.1.sameKey e.1) :
    (∃ mid, addTable merged f = .ok mid ∧ addTable mid e = .ok m) ↔
      ∃ u, mergeTable e.1 f.2 e.2 = .ok u ∧ addTable merged (f.1, u) = .ok m := by
  cases hf : merged.find? f.1 with
  -- the first table is put last, and the second one is merged into it there
  | none =>
    have hsnoc : Entries.find? (merged ++ [f]) e.1 = some f.2 := by
      rw [Entries.find?_append, ← Entries.find?_congr h, hf, Entries.find?_cons, if_pos h]
      rfl
    have hkept (u : Value) : Entries.replace (merged ++ [f]) e.1 u = merged ++ [(f.1, u)] := by
      rw [Entries.replace_append, Entries.replace_of_find?_eq_none ((Entries.find?_congr h).symm.trans hf)]
      simp [Entries.replace, h]
    have hadd (u : Value) : addTable merged (f.1, u) = .ok (merged ++ [(f.1, u)]) := addTable_of_none hf
    simp only [addTable_of_none hf, Except.ok.injEq, exists_eq_left', addTable_eq_ok_of_some hsnoc, hkept,
      hadd]
  -- both are merged into a table that is there, and merging is associative
  | some q =>
    have hreplaced (y : Value) : (merged.replace f.1 y).find? e.1 = some y := by
      rw [Entries.find?_replace, if_pos h, ← Entries.find?_congr h, hf]
      rfl
    have hlast (y z : Value) : (merged.replace f.1 y).replace e.1 z = merged.replace f.1 z :=
      Entries.replace_replace h
    have hadd (u : Value) : addTable merged (f.1, u) = .ok m ↔
        ∃ z, mergeTable f.1 q u = .ok z ∧ merged.replace f.1 z = m := addTable_eq_ok_of_some hf
    simp only [addTable_eq_ok_of_some hf, hadd]
    constructor
    · rintro ⟨_, ⟨y, hy, rfl⟩, hm⟩
      obtain ⟨z, hz, rfl⟩ := (addTable_eq_ok_of_some (hreplaced y)).mp hm
      obtain ⟨u, hu, hjoined⟩ := mergeTable_assoc.mp ⟨y, hy, (mergeTable_congr h).mpr hz⟩
      exact ⟨u, (mergeTable_congr h).mp hu, z, hjoined, (hlast y z).symm⟩
    · rintro ⟨u, hu, z, hz, rfl⟩
      obtain ⟨y, hy, hjoined⟩ := mergeTable_assoc.mpr ⟨u, (mergeTable_congr h).mpr hu, hz⟩
      refine ⟨_, ⟨y, hy, rfl⟩, (addTable_eq_ok_of_some (hreplaced y)).mpr ⟨z, ?_, hlast y z⟩⟩
      exact (mergeTable_congr h).mp hjoined

theorem Joined.isSome_iff {key : Value} {v w u : Option Value} (h : Joined key v w u) :
    u.isSome ↔ v.isSome ∨ w.isSome := by
  cases h <;> simp

/-- Adding a table takes no key away, and its own key is there then. -/
theorem isSome_find?_addTable {key : Value} (h : addTable merged f = .ok m)
    (hkey : (merged.find? key).isSome ∨ f.1.sameKey key) : (m.find? key).isSome := by
  rw [(joined_of_addTable h key).isSome_iff]
  apply hkey.imp_right
  intro hsame
  simp [hsame]

/-- A table that joins one already there may be added before tables of other keys. -/
theorem foldlM_addTable_comm {b : Entries} (he : (merged.find? e.1).isSome)
    (hother : ∀ f ∈ b, ¬f.1.sameKey e.1) :
    (∃ mid, b.foldlM addTable merged = .ok mid ∧ addTable mid e = .ok m) ↔
      ∃ mid, addTable merged e = .ok mid ∧ b.foldlM addTable mid = .ok m := by
  induction b generalizing merged with
  | nil => simp [pure, Except.pure]
  | cons f b ih =>
    obtain ⟨hf, hb⟩ := List.forall_mem_cons.mp hother
    simp only [List.foldlM_cons, Except.bind_eq_ok]
    constructor
    · rintro ⟨mid, ⟨first, hfirst, hmid⟩, hm⟩
      obtain ⟨second, hsecond, hm⟩ := (ih (isSome_find?_addTable hfirst (.inl he)) hb).mp ⟨mid, hmid, hm⟩
      obtain ⟨first', hfirst', hsecond'⟩ := (addTable_comm he hf).mp ⟨first, hfirst, hsecond⟩
      exact ⟨first', hfirst', second, hsecond', hm⟩
    · rintro ⟨first', hfirst', second, hsecond', hm⟩
      obtain ⟨first, hfirst, hsecond⟩ := (addTable_comm he hf).mpr ⟨first', hfirst', hsecond'⟩
      obtain ⟨mid, hmid, hm⟩ := (ih (isSome_find?_addTable hfirst (.inl he)) hb).mpr ⟨second, hsecond, hm⟩
      exact ⟨mid, ⟨first, hfirst, hmid⟩, hm⟩

end OneTable

/-! ## Groups -/

section Groups

variable {a b m : Entries} {e : Value × Value}

theorem foldlM_addTable_replace {w : Value} (hb : Distinct b.keys) (h : b.find? e.1 = some w) :
    (∃ mid, b.foldlM addTable a = .ok mid ∧ addTable mid e = .ok m) ↔
      ∃ u, mergeTable e.1 w e.2 = .ok u ∧ (b.replace e.1 u).foldlM addTable a = .ok m := by
  induction b generalizing a with
  | nil => cases h
  | cons f b ih =>
    obtain ⟨hfresh, hb⟩ := List.pairwise_cons.mp hb
    have hcons (u : Value) : Entries.replace (f :: b) e.1 u =
        (if f.1.sameKey e.1 then (f.1, u) else f) :: Entries.replace b e.1 u := rfl
    rw [Entries.find?_cons] at h
    simp only [hcons, List.foldlM_cons, Except.bind_eq_ok]
    by_cases hf : f.1.sameKey e.1
    · -- `e` passes the tables behind `f` and then joins it
      rw [if_pos hf] at h
      cases h
      have hother : ∀ g ∈ b, ¬g.1.sameKey e.1 := fun g hg hsame =>
        hfresh g.1 (List.mem_map_of_mem hg) (sameKey_of_common hf hsame)
      have hnone : Entries.find? b e.1 = none :=
        Entries.find?_eq_none.mpr (List.forall_mem_map.mpr hother)
      have hthere {first : Entries} (hfirst : addTable a f = .ok first) : (first.find? e.1).isSome :=
        isSome_find?_addTable hfirst (.inr hf)
      simp only [if_pos hf, Entries.replace_of_find?_eq_none hnone]
      constructor
      · rintro ⟨mid, ⟨first, hfirst, hmid⟩, hm⟩
        obtain ⟨second, hsecond, hm⟩ := (foldlM_addTable_comm (hthere hfirst) hother).mp ⟨mid, hmid, hm⟩
        obtain ⟨u, hu, hadd⟩ := (addTable_addTable hf).mp ⟨first, hfirst, hsecond⟩
        exact ⟨u, hu, second, hadd, hm⟩
      · rintro ⟨u, hu, second, hadd, hm⟩
        obtain ⟨first, hfirst, hsecond⟩ := (addTable_addTable hf).mpr ⟨u, hu, hadd⟩
        obtain ⟨mid, hmid, hm⟩ := (foldlM_addTable_comm (hthere hfirst) hother).mpr ⟨second, hsecond, hm⟩
        exact ⟨mid, ⟨first, hfirst, hmid⟩, hm⟩
    · rw [if_neg hf] at h
      simp only [if_neg hf]
      constructor
      · rintro ⟨mid, ⟨first, hfirst, hmid⟩, hm⟩
        obtain ⟨u, hu, hm⟩ := (ih hb h).mp ⟨mid, hmid, hm⟩
        exact ⟨u, hu, first, hfirst, hm⟩
      · rintro ⟨u, hu, first, hfirst, hm⟩
        obtain ⟨mid, hmid, hm⟩ := (ih hb h).mpr ⟨u, hu, hm⟩
        exact ⟨mid, ⟨first, hfirst, hmid⟩, hm⟩

/-- A table may be added behind a document, or to the document first. -/
theorem foldlM_addTable_addTable (hb : Distinct b.keys) :
    (∃ mid, b.foldlM addTable a = .ok mid ∧ addTable mid e = .ok m) ↔
      ∃ b', addTable b e = .ok b' ∧ b'.foldlM addTable a = .ok m := by
  cases hfind : b.find? e.1 with
  | none => simp only [addTable_of_none hfind, Except.ok.injEq, exists_eq_left', Except.foldlM_snoc]
  | some w =>
    rw [foldlM_addTable_replace hb hfind]
    simp only [addTable_eq_ok_of_some hfind]
    constructor
    · rintro ⟨u, hu, hm⟩
      exact ⟨_, ⟨u, hu, rfl⟩, hm⟩
    · rintro ⟨_, ⟨u, hu, rfl⟩, hm⟩
      exact ⟨u, hu, hm⟩

theorem distinct_addTable (hb : Distinct b.keys) (h : addTable b e = .ok m) : Distinct m.keys := by
  cases hfind : b.find? e.1 with
  | none =>
    rw [addTable_of_none hfind] at h
    cases h
    rw [Entries.keys_snoc, distinct_snoc]
    exact ⟨hb, Entries.find?_eq_none.mp hfind⟩
  | some w =>
    obtain ⟨u, -, rfl⟩ := (addTable_eq_ok_of_some hfind).mp h
    rwa [Entries.keys_replace]

theorem distinct_foldlM_addTable {bs : Entries} (h : bs.foldlM addTable [] = .ok b) :
    Distinct b.keys := by
  have hempty : Distinct (Entries.keys []) := .nil
  refine Except.foldlM_invariant (P := fun b : Entries => Distinct b.keys) ?_ hempty h
  exact fun _ _ _ _ hb hadd => distinct_addTable hb hadd

/-- Tables can be added one by one, or merged among themselves first. -/
theorem foldlM_addTable_regroup {bs : Entries} :
    bs.foldlM addTable a = .ok m ↔
      ∃ b, bs.foldlM addTable [] = .ok b ∧ b.foldlM addTable a = .ok m := by
  -- the last table is added to what the ones before it come to
  induction bs using List.reverseRecOn generalizing m with
  | nil => simp [pure, Except.pure]
  | append_singleton bs e ih =>
    simp only [Except.foldlM_snoc]
    constructor
    · rintro ⟨mid, hmid, hm⟩
      obtain ⟨b, hb, hmid⟩ := ih.mp hmid
      obtain ⟨b', hb', hm⟩ := (foldlM_addTable_addTable (distinct_foldlM_addTable hb)).mp ⟨mid, hmid, hm⟩
      exact ⟨b', ⟨b, hb, hb'⟩, hm⟩
    · rintro ⟨b', ⟨b, hb, hb'⟩, hm⟩
      obtain ⟨mid, hmid, hm⟩ := (foldlM_addTable_addTable (distinct_foldlM_addTable hb)).mpr ⟨b', hb', hm⟩
      exact ⟨mid, ih.mpr ⟨b, hb, hmid⟩, hm⟩

/-- A document whose keys differ is what it comes to. -/
theorem foldlM_addTable_self (h : Distinct a.keys) : a.foldlM addTable [] = .ok a := by
  induction a using List.reverseRecOn with
  | nil => rfl
  | append_singleton a e ih =>
    rw [Entries.keys_snoc, distinct_snoc] at h
    rw [Except.foldlM_snoc]
    exact ⟨a, ih h.1, addTable_of_none (Entries.find?_eq_none.mpr h.2)⟩

/-- **Merging in groups.** Documents can be merged exactly when two groups of them can, and what the groups
come to, and then give the same: the same tables with the same entries in the same order. -/
theorem merge_append (xs ys : List Entries) (m : Entries) :
    merge (xs ++ ys) = .ok m ↔
      ∃ a b, merge xs = .ok a ∧ merge ys = .ok b ∧ merge [a, b] = .ok m := by
  have hpair {a b : Entries} (ha : xs.flatten.foldlM addTable [] = .ok a) :
      merge [a, b] = .ok m ↔ b.foldlM addTable a = .ok m := by
    simp [merge_eq_foldlM, List.foldlM_append, foldlM_addTable_self (distinct_foldlM_addTable ha)]
  rw [merge_eq_foldlM, List.flatten_append, List.foldlM_append, Except.bind_eq_ok, merge_eq_foldlM xs,
    merge_eq_foldlM ys]
  constructor
  · rintro ⟨a, ha, hm⟩
    obtain ⟨b, hb, hm⟩ := foldlM_addTable_regroup.mp hm
    exact ⟨a, b, ha, hb, (hpair ha).mpr hm⟩
  · rintro ⟨a, b, ha, hb, hm⟩
    exact ⟨a, ha, foldlM_addTable_regroup.mpr ⟨b, hb, (hpair ha).mp hm⟩⟩

end Groups

end LuaGlue.Document
