import LuaGlue.Proofs.Document.Merge
import Mathlib.Data.List.Induction
import Mathlib.Data.List.Pairwise

/-!
# What merged documents hold

Merging goes through the tables of all documents one by one and compares each with what it has put
together so far. What comes out can be said without the order of these comparisons.

- **Clashes** (`Clash`): two values under one key that are not one table, whatever else is given.
- **Groups** (`Entries.groups`): the keys in the order in which they first occur, each with the values
  given under it. `Entries.tables` joins the values of each group.
- **One table** (`addTable_tables`): adding a table to the tables of `es` succeeds when it clashes with
  none of the values under its key, and gives the tables of `es` with that one behind them.
- **All documents** (`merge_eq_ok_iff`): merging succeeds when no two documents clash.
-/

namespace LuaGlue.Document

open Value (Distinct sameKey_comm sameKey_of_common)

/-! ## Clashes -/

/-- Two values under a key cannot be one table: two mappings if they share a name or give the mixed
information, lists never, and other values always. -/
def Clash (key : Value) : Value → Value → Prop
  | .map es, .map more => isMixedInfo key ∨ ∃ e ∈ es, ∃ f ∈ more, e.1.sameKey f.1
  | .list _, .list _ => False
  | _, _ => True

/-- Two of the documents give values under one key that clash. -/
def Conflicting (docs : List Entries) : Prop :=
  ∃ d d', [d, d'].Sublist docs ∧ ∃ e ∈ d, ∃ f ∈ d', e.1.sameKey f.1 ∧ Clash e.1 e.2 f.2

/-- No key comes twice, neither in the document nor in any of its tables. -/
structure Entries.Keyed (doc : Entries) : Prop where
  distinct : Distinct doc.keys
  tables : ∀ key (es : Entries), (key, .map es) ∈ doc → Distinct es.keys

theorem isMixedInfo_congr {key key' : Value} (h : key.sameKey key') :
    isMixedInfo key = isMixedInfo key' := by
  rw [Bool.eq_iff_iff]
  constructor
  · intro hk
    exact sameKey_of_common (sameKey_comm.mp h) (sameKey_comm.mp hk)
  · intro hk
    exact sameKey_of_common h (sameKey_comm.mp hk)

/-- Which of two equal keys is written does not matter to `Clash`: only whether it is the key of the mixed
information. -/
theorem clash_congr {key key' v w : Value} (h : key.sameKey key') : Clash key v w ↔ Clash key' v w := by
  unfold Clash
  rw [isMixedInfo_congr h]

theorem exists_map_of_not_clash {key w : Value} {es : Entries} (h : ¬Clash key (.map es) w) :
    ∃ more, w = .map more := by
  cases w <;> simp_all [Clash]

theorem exists_list_of_not_clash {key w : Value} {items : List Value} (h : ¬Clash key (.list items) w) :
    ∃ more, w = .list more := by
  cases w <;> simp_all [Clash]

/-! ## Groups -/

/-- The values given under the key, in their order. -/
def Entries.given (es : Entries) (key : Value) : List Value :=
  (es.filter fun e => e.1.sameKey key).map (·.2)

/-- A key with the values given under it, the first one and those after it. -/
structure Group where
  key : Value
  first : Value
  more : List Value

namespace Group

/-- All values of the group. -/
def values (g : Group) : List Value := g.first :: g.more

/-- The group with one more value. -/
def add (g : Group) (v : Value) : Group := { g with more := g.more ++ [v] }

/-- The group with the value of the entry, if it has its key. -/
def put (e : Value × Value) (g : Group) : Group := if g.key.sameKey e.1 then g.add e.2 else g

@[simp] theorem key_put (e : Value × Value) (g : Group) : (put e g).key = g.key := by
  unfold put
  split <;> rfl

/-- The entries of a mapping. -/
def entriesOf : Value → Entries
  | .map es => es
  | _ => []

/-- The items of a list. -/
def itemsOf : Value → List Value
  | .list items => items
  | _ => []

/-- The values of the group as one: a single value as it is, mappings and lists one after the other. -/
def joined : Group → Value
  | ⟨_, v, []⟩ => v
  | ⟨_, .map es, more⟩ => .map (es ++ more.flatMap entriesOf)
  | ⟨_, .list items, more⟩ => .list (items ++ more.flatMap itemsOf)
  | ⟨_, v, _⟩ => v

theorem joined_map {key : Value} {es : Entries} (more : List Value) :
    joined ⟨key, .map es, more⟩ = .map (es ++ more.flatMap entriesOf) := by
  cases more <;> simp [joined]

theorem joined_list {key : Value} {items : List Value} (more : List Value) :
    joined ⟨key, .list items, more⟩ = .list (items ++ more.flatMap itemsOf) := by
  cases more <;> simp [joined]

end Group

namespace Entries

/-- The keys in the order in which they first occur, each with the values given under it. -/
def groups : Entries → List Group
  | [] => []
  | e :: es => ⟨e.1, e.2, given es e.1⟩ :: (groups es).filter fun g => !e.1.sameKey g.key

/-- The entries with all values under a key joined. -/
def tables (es : Entries) : Entries := (groups es).map fun g => (g.key, g.joined)

variable {es : Entries} {key key' : Value} {e : Value × Value}

/-- Equal keys have the same values given under them, as `sameKey` is transitive. -/
theorem given_congr (h : key.sameKey key') : given es key = given es key' := by
  have hsame (k : Value) : k.sameKey key = k.sameKey key' := by
    rw [Bool.eq_iff_iff]
    exact ⟨fun hk => sameKey_of_common hk (sameKey_comm.mp h), fun hk => sameKey_of_common hk h⟩
  simp only [given, hsame]

theorem mem_given {v : Value} : v ∈ given es key ↔ ∃ e ∈ es, e.1.sameKey key ∧ e.2 = v := by
  simp only [given, List.mem_map, List.mem_filter, and_assoc]

theorem given_cons_same (h : e.1.sameKey key) : given (e :: es) key = e.2 :: given es key := by
  simp [given, h]

theorem given_cons_other (h : ¬e.1.sameKey key) : given (e :: es) key = given es key := by
  simp [given, h]

/-- Looking for a key passes over what a group before it took away, if that group is one of another key. -/
theorem find?_groups_filter (h : ¬e.1.sameKey key) :
    ((groups es).filter fun g => !e.1.sameKey g.key).find? (·.key.sameKey key) =
      (groups es).find? (·.key.sameKey key) := by
  rw [List.find?_filter]
  congr 1
  funext g
  have hother : g.key.sameKey key → ¬e.1.sameKey g.key := by
    intro hg he
    exact h (sameKey_comm.mp (sameKey_of_common (sameKey_comm.mp hg) he))
  by_cases hg : g.key.sameKey key <;> simp_all

/-- The group of a key holds the values given under it, first one first. -/
theorem values_of_find? {g : Group} (h : (groups es).find? (·.key.sameKey key) = some g) :
    g.values = given es key := by
  induction es with
  | nil => cases h
  | cons e es ih =>
    rw [groups, List.find?_cons] at h
    by_cases he : e.1.sameKey key
    · simp only [he] at h
      cases h
      rw [given_cons_same he, Group.values, given_congr he]
    · simp only [he] at h
      rw [find?_groups_filter he] at h
      rw [given_cons_other he, ih h]

/-- Without a group of the key nothing is given under it. -/
theorem given_of_find?_eq_none (h : (groups es).find? (·.key.sameKey key) = none) :
    given es key = [] := by
  induction es with
  | nil => rfl
  | cons e es ih =>
    rw [groups, List.find?_cons] at h
    by_cases he : e.1.sameKey key
    · simp only [he] at h
      cases h
    · simp only [he] at h
      rw [find?_groups_filter he] at h
      rw [given_cons_other he, ih h]

/-- Each key has one group: those with an equal key are filtered out where the first is put. -/
theorem distinct_groups (es : Entries) : Distinct ((groups es).map (·.key)) := by
  induction es with
  | nil => exact .nil
  | cons e es ih =>
    rw [groups, List.map_cons, Distinct, List.pairwise_cons]
    constructor
    · intro key hkey
      obtain ⟨g, hg, rfl⟩ := List.mem_map.mp hkey
      simpa using (List.mem_filter.mp hg).2
    · exact ih.sublist (List.filter_sublist.map _)

/-! ### One more entry -/

theorem given_snoc (es : Entries) (e : Value × Value) (key : Value) :
    given (es ++ [e]) key = given es key ++ if e.1.sameKey key then [e.2] else [] := by
  by_cases h : e.1.sameKey key <;> simp [given, h]

/-- An entry under a new key comes last, as a group with nothing more. -/
theorem groups_snoc_fresh (h : given es e.1 = []) :
    groups (es ++ [e]) = groups es ++ [⟨e.1, e.2, []⟩] := by
  induction es with
  | nil => simp [groups, given]
  | cons f es ih =>
    have hf : ¬f.1.sameKey e.1 := by
      intro hf
      rw [given_cons_same hf] at h
      cases h
    have hcomm : ¬e.1.sameKey f.1 := fun he => hf (sameKey_comm.mp he)
    rw [given_cons_other hf] at h
    rw [List.cons_append, groups, ih h, given_snoc, groups]
    simp [hf, hcomm]

theorem filter_map_put (gs : List Group) :
    (gs.map (Group.put e)).filter (fun g => !key.sameKey g.key) =
      (gs.filter fun g => !key.sameKey g.key).map (Group.put e) := by
  rw [List.filter_map]
  congr 2
  funext g
  simp

/-- Groups of other keys stay as they are. -/
theorem map_put_filter (h : key.sameKey e.1) (gs : List Group) :
    (gs.filter fun g => !key.sameKey g.key).map (Group.put e) =
      gs.filter fun g => !key.sameKey g.key := by
  refine List.map_congr_left (fun g hg => ?_) |>.trans (List.map_id _)
  have hother : ¬key.sameKey g.key := by simpa using (List.mem_filter.mp hg).2
  have hne : ¬g.key.sameKey e.1 := fun hg => hother (sameKey_of_common h hg)
  simp [Group.put, hne]

/-- An entry under a key that occurs joins its group, which `Group.put` finds by the key; the other groups stay.
-/
theorem groups_snoc_same (h : given es e.1 ≠ []) :
    groups (es ++ [e]) = (groups es).map (Group.put e) := by
  induction es with
  | nil => exact absurd rfl h
  | cons f es ih =>
    rw [List.cons_append, groups, groups, List.map_cons, given_snoc]
    by_cases hf : f.1.sameKey e.1
    · -- the group of `f` takes the value, and all others of its key are gone
      have htail : (groups (es ++ [e])).filter (fun g => !f.1.sameKey g.key) =
          (groups es).filter fun g => !f.1.sameKey g.key := by
        by_cases hes : given es e.1 = []
        · rw [groups_snoc_fresh hes]
          simp [hf]
        · rw [ih hes, filter_map_put, map_put_filter hf]
      rw [htail, map_put_filter hf]
      simp [Group.put, Group.add, hf, sameKey_comm.mp hf]
    · have hcomm : ¬e.1.sameKey f.1 := fun he => hf (sameKey_comm.mp he)
      rw [given_cons_other hf] at h
      rw [ih h, filter_map_put]
      simp [Group.put, hf, hcomm]

end Entries

/-! ## Two values under one key -/

/-- An entry is appended to a table if no name in it is equal to its own. -/
theorem appendEntry_eq_ok {table : Value} {es es' : Entries} {e : Value × Value} :
    appendEntry table es e = .ok es' ↔ (∀ f ∈ es, ¬f.1.sameKey e.1) ∧ es' = es ++ [e] := by
  have hhas : es.has e.1 ↔ ∃ f ∈ es, f.1.sameKey e.1 := List.any_eq_true
  unfold appendEntry
  split
  · rename_i h
    obtain ⟨f, hf, hsame⟩ := hhas.mp h
    constructor
    · intro hok; cases hok
    · rintro ⟨hfresh, -⟩; exact absurd hsame (hfresh f hf)
  · rename_i h
    constructor
    · intro hok
      cases hok
      exact ⟨fun f hf hsame => h (hhas.mpr ⟨f, hf, hsame⟩), rfl⟩
    · rintro ⟨-, rfl⟩; rfl

/-- Entries can be appended when their names are new and differ from each other. -/
theorem foldlM_appendEntry_ok_iff {table : Value} {es more : Entries} :
    (∃ es', more.foldlM (appendEntry table) es = .ok es') ↔
      (∀ e ∈ es, ∀ f ∈ more, ¬e.1.sameKey f.1) ∧ Distinct more.keys := by
  induction more generalizing es with
  | nil => simp [Entries.keys, Distinct, pure, Except.pure]
  | cons f more ih =>
    have hstep : (∃ es', (f :: more).foldlM (appendEntry table) es = .ok es') ↔
        (∀ e ∈ es, ¬e.1.sameKey f.1) ∧ ∃ es', more.foldlM (appendEntry table) (es ++ [f]) = .ok es' := by
      simp only [List.foldlM_cons, Except.bind_eq_ok, appendEntry_eq_ok]
      constructor
      · rintro ⟨es', mid, ⟨hfresh, rfl⟩, h⟩; exact ⟨hfresh, es', h⟩
      · rintro ⟨hfresh, es', h⟩; exact ⟨es', _, ⟨hfresh, rfl⟩, h⟩
    rw [hstep, ih]
    simp only [Entries.keys, Distinct, List.map_cons, List.pairwise_cons, List.forall_mem_append,
      List.forall_mem_singleton, List.forall_mem_cons, List.forall_mem_map, forall_and]
    tauto

/-- Two values become one table exactly when they do not `Clash`, and the table is what their group comes to. -/
theorem mergeTable_eq_ok_iff {key v w u : Value} (hw : ∀ es : Entries, w = .map es → Distinct es.keys) :
    mergeTable key v w = .ok u ↔ ¬Clash key v w ∧ u = Group.joined ⟨key, v, [w]⟩ := by
  -- what comes out, if anything does, is fixed; so it remains to say when something does
  have hjoined {u : Value} (h : mergeTable key v w = .ok u) : u = Group.joined ⟨key, v, [w]⟩ := by
    obtain ⟨items, more, rfl, rfl, rfl⟩ | ⟨es, more, rfl, rfl, rfl, -⟩ := mergeTable_eq_ok h
    · simp [Group.joined, Group.itemsOf]
    · simp [Group.joined, Group.entriesOf]
  have hclash : (∃ u, mergeTable key v w = .ok u) ↔ ¬Clash key v w := by
    unfold mergeTable
    split
    · rename_i es more
      have hnames : (∃ es', more.foldlM (appendEntry key) es = .ok es') ↔ _ :=
        foldlM_appendEntry_ok_iff
      -- the names of one mapping differ, so only names of the two can meet
      have hdistinct : Distinct (Entries.keys more) := hw more rfl
      by_cases hmixed : isMixedInfo key
      · simp [Clash, hmixed]
      · simp only [hmixed, Bool.false_eq_true, if_false, Except.map_eq_ok, Clash, false_or]
        rw [exists_comm]
        simp_all
    · simp [Clash]
    · rename_i hmap hlist
      have hclash : Clash key v w := by
        unfold Clash
        split
        · exact (hmap _ _ rfl rfl).elim
        · exact (hlist _ _ rfl rfl).elim
        · trivial
      simp [hclash]
  constructor
  · intro h
    exact ⟨hclash.mp ⟨u, h⟩, hjoined h⟩
  · rintro ⟨h, rfl⟩
    obtain ⟨u, hu⟩ := hclash.mpr h
    rwa [← hjoined hu]

namespace Group

variable {g : Group} {key w : Value}

/-- A value joins a group as it joins what the group comes to: `Group.joined` can be taken step by step. -/
theorem joined_add (g : Group) (key w : Value) : joined ⟨key, g.joined, [w]⟩ = (g.add w).joined := by
  obtain ⟨k, v, more⟩ := g
  cases v with
  | map es => simp [add, joined_map]
  | list items => simp [add, joined_list]
  | null | bool | int | float | str | day | moment | bytes | set => cases more <;> rfl

/-- A value clashes with what a group comes to when it does with one of its values. The values of a group do not
clash, so they are all mappings or all lists, unless there is only one. -/
theorem clash_joined (hg : ∀ v ∈ g.more, ¬Clash key g.first v) :
    Clash key g.joined w ↔ ∃ v ∈ g.values, Clash key v w := by
  obtain ⟨k, first, more⟩ := g
  cases first with
  | map es =>
    -- nothing in the group clashes with its first value, so all of them are mappings like that one
    have hmaps : ∀ v ∈ more, ∃ fs, v = .map fs := fun v hv => exists_map_of_not_clash (hg v hv)
    rw [joined_map]
    cases w with
    | map ws =>
      constructor
      · rintro (hmixed | ⟨e, he, f, hf, hsame⟩)
        · exact ⟨.map es, by simp [values], .inl hmixed⟩
        · rcases List.mem_append.mp he with he | he
          · exact ⟨.map es, by simp [values], .inr ⟨e, he, f, hf, hsame⟩⟩
          · obtain ⟨v, hv, he⟩ := List.mem_flatMap.mp he
            obtain ⟨fs, rfl⟩ := hmaps v hv
            exact ⟨.map fs, by simp [values, hv], .inr ⟨e, he, f, hf, hsame⟩⟩
      · rintro ⟨v, hv, hclash⟩
        rcases List.mem_cons.mp hv with rfl | hv
        · refine hclash.imp_right fun ⟨e, he, f, hf, hsame⟩ => ⟨e, ?_, f, hf, hsame⟩
          exact List.mem_append_left _ he
        · obtain ⟨fs, rfl⟩ := hmaps v hv
          refine hclash.imp_right fun ⟨e, he, f, hf, hsame⟩ => ⟨e, ?_, f, hf, hsame⟩
          exact List.mem_append_right _ (List.mem_flatMap.mpr ⟨.map fs, hv, he⟩)
    | null | bool | int | float | str | day | moment | bytes | list | set => simp [values, Clash]
  -- lists never clash with lists and always with anything else, and so does their concatenation
  | list items =>
    have hlists : ∀ v ∈ more, ∃ fs, v = .list fs := fun v hv => exists_list_of_not_clash (hg v hv)
    rw [joined_list]
    cases w with
    | list ws =>
      refine ⟨False.elim, ?_⟩
      rintro ⟨v, hv, hclash⟩
      rcases List.mem_cons.mp hv with rfl | hv
      · exact hclash
      · obtain ⟨fs, rfl⟩ := hlists v hv
        exact hclash
    | null | bool | int | float | str | day | moment | bytes | set | map => simp [values, Clash]
  | null | bool | int | float | str | day | moment | bytes | set =>
    -- any other value stands alone, as it clashes with all that could follow it
    cases more <;> simp [joined, values, Clash]

end Group

/-! ## One more table -/

/-- The entries may stand in one document, or in two that are merged. -/
def Compatible (e f : Value × Value) : Prop := e.1.sameKey f.1 → ¬Clash e.1 e.2 f.2

namespace Entries

variable {es : Entries} {e : Value × Value}

/-- Values that came under one key without a clash are all compatible with the first of them. -/
theorem not_clash_of_mem_groups (h : es.Pairwise Compatible) {g : Group} (hg : g ∈ groups es) :
    ∀ v ∈ g.more, ¬Clash g.key g.first v := by
  induction es with
  | nil => cases hg
  | cons e es ih =>
    obtain ⟨hfirst, hrest⟩ := List.pairwise_cons.mp h
    rcases List.mem_cons.mp hg with rfl | hg
    · intro v hv
      obtain ⟨f, hf, hkey, rfl⟩ := mem_given.mp hv
      exact hfirst f hf (sameKey_comm.mp hkey)
    · exact ih hrest (List.mem_of_mem_filter hg)

/-- `Compatible` with all entries is a statement about the values given under the key of the new one. -/
theorem compatible_iff_given : (∀ f ∈ es, Compatible f e) ↔ ∀ v ∈ given es e.1, ¬Clash e.1 v e.2 := by
  constructor
  · intro h v hv hclash
    obtain ⟨f, hf, hkey, rfl⟩ := mem_given.mp hv
    exact h f hf hkey ((clash_congr hkey).mpr hclash)
  · intro h f hf hkey hclash
    exact h f.2 (mem_given.mpr ⟨f, hf, hkey, rfl⟩) ((clash_congr hkey).mp hclash)

theorem find?_tables (key : Value) :
    (tables es).find? key = ((groups es).find? (·.key.sameKey key)).map Group.joined := by
  rw [tables, find?, List.find?_map, Option.map_map]
  rfl

theorem eq_of_sameKey {g g' : Group} (hg : g ∈ groups es) (hg' : g' ∈ groups es)
    (h : g.key.sameKey g'.key) : g = g' := by
  have hpairwise := List.pairwise_map.mp (distinct_groups es)
  have hsymm : Std.Symm fun a b : Group => ¬a.key.sameKey b.key :=
    ⟨fun _ _ hab hba => hab (sameKey_comm.mp hba)⟩
  by_contra hne
  exact hpairwise.forall hg hg' hne h

/-- Replacing the table of a group makes the group one value longer, and no other group has its key. -/
theorem replace_tables {g : Group} (hg : g ∈ groups es) (hkey : g.key.sameKey e.1)
    (hgiven : given es e.1 ≠ []) :
    (tables es).replace e.1 (g.add e.2).joined = tables (es ++ [e]) := by
  rw [tables, tables, groups_snoc_same hgiven, replace, List.map_map, List.map_map]
  refine List.map_congr_left fun g' hg' => ?_
  by_cases hsame : g'.key.sameKey e.1
  · rw [eq_of_sameKey hg' hg (sameKey_of_common hsame hkey)]
    simp [Group.put, Group.add, hkey]
  · simp [Group.put, hsame]

/-- **One more table.** It can be added when it clashes with none of the values under its key, and the
tables are then those of the entries with this one behind them. -/
theorem addTable_tables (hes : es.Pairwise Compatible)
    (he : ∀ fs : Entries, e.2 = .map fs → Distinct fs.keys) {merged : Entries} :
    addTable (tables es) e = .ok merged ↔ (∀ f ∈ es, Compatible f e) ∧ merged = tables (es ++ [e]) := by
  rw [compatible_iff_given, addTable, find?_tables]
  rcases hfind : (groups es).find? (·.key.sameKey e.1) with _ | g
  · have hgiven := given_of_find?_eq_none hfind
    have htables : tables (es ++ [e]) = tables es ++ [e] := by
      simp [tables, groups_snoc_fresh hgiven, Group.joined]
    simp [hfind, hgiven, htables, eq_comm]
  · have hmem := List.mem_of_find?_eq_some hfind
    have hkey : g.key.sameKey e.1 := by simpa using List.find?_some hfind
    have hvalues := values_of_find? hfind
    have hmore : ∀ v ∈ g.more, ¬Clash e.1 g.first v := fun v hv hclash =>
      not_clash_of_mem_groups hes hmem v hv ((clash_congr hkey).mpr hclash)
    have hgiven : given es e.1 ≠ [] := by
      rw [← hvalues]
      exact List.cons_ne_nil _ _
    simp only [hfind, Option.map_some, Except.map_eq_ok, mergeTable_eq_ok_iff he, Group.clash_joined hmore,
      Group.joined_add, hvalues]
    constructor
    · rintro ⟨u, ⟨hclash, rfl⟩, rfl⟩
      exact ⟨fun v hv h => hclash ⟨v, hv, h⟩, replace_tables hmem hkey hgiven⟩
    · rintro ⟨hclash, rfl⟩
      exact ⟨_, ⟨fun ⟨v, hv, h⟩ => hclash v hv h, rfl⟩, replace_tables hmem hkey hgiven⟩

/-- Tables can be added one by one when each two of them are compatible. -/
theorem foldlM_addTable (hes : ∀ key (fs : Entries), (key, .map fs) ∈ es → Distinct fs.keys)
    {merged : Entries} :
    es.foldlM addTable [] = .ok merged ↔ es.Pairwise Compatible ∧ merged = tables es := by
  induction es using List.reverseRecOn generalizing merged with
  | nil =>
    rw [List.foldlM_nil, Except.pure_eq_ok_iff, eq_comm]
    simp [tables, groups]
  | append_singleton es e ih =>
    have hbefore (mid : Entries) :
        es.foldlM addTable [] = .ok mid ↔ es.Pairwise Compatible ∧ mid = tables es :=
      ih fun key fs h => hes key fs (List.mem_append_left _ h)
    have he (fs : Entries) (h : e.2 = .map fs) : Distinct fs.keys :=
      hes e.1 fs (by rw [← h]; simp)
    rw [Except.foldlM_snoc, List.pairwise_append]
    constructor
    · rintro ⟨mid, hmid, hlast⟩
      obtain ⟨hes, rfl⟩ := (hbefore mid).mp hmid
      obtain ⟨hcompatible, rfl⟩ := (addTable_tables hes he).mp hlast
      exact ⟨⟨hes, by simp, by simpa using hcompatible⟩, rfl⟩
    · rintro ⟨⟨hes, -, hcompatible⟩, rfl⟩
      refine ⟨_, (hbefore _).mpr ⟨hes, rfl⟩, (addTable_tables hes he).mpr ⟨?_, rfl⟩⟩
      simpa using hcompatible

end Entries

/-! ## All documents -/

/-- Where one document ends and the next begins does not matter to merging: all tables are added in sequence. -/
theorem merge_eq_foldlM (docs : List Entries) : merge docs = docs.flatten.foldlM addTable [] := by
  have hall (merged : Entries) : docs.foldlM mergeInto merged = docs.flatten.foldlM addTable merged := by
    induction docs generalizing merged with
    | nil => rfl
    | cons doc docs ih =>
      rw [List.foldlM_cons, List.flatten_cons, List.foldlM_append, mergeInto]
      congr 1
      funext mid
      exact ih mid
  exact hall []

/-- Inside one document no two tables meet, so only those of different documents matter. -/
theorem pairwise_compatible_iff {docs : List Entries} (h : ∀ doc ∈ docs, doc.Keyed) :
    docs.flatten.Pairwise Compatible ↔ ¬Conflicting docs := by
  have hsingle : ∀ doc ∈ docs, doc.Pairwise Compatible := by
    intro doc hdoc
    exact (List.pairwise_map.mp (h doc hdoc).distinct).imp fun hother hsame => absurd hsame hother
  rw [List.pairwise_flatten, List.pairwise_iff_forall_sublist]
  constructor
  · rintro ⟨-, hpairs⟩ ⟨d, d', hsub, e, he, f, hf, hkey, hclash⟩
    exact hpairs hsub e he f hf hkey hclash
  · intro hnone
    refine ⟨hsingle, fun {d d'} hsub e he f hf hkey hclash => ?_⟩
    exact hnone ⟨d, d', hsub, e, he, f, hf, hkey, hclash⟩

/-- **Merging documents.** It succeeds exactly when no two of them clash, and gives each key once with
all that stands under it. -/
theorem merge_eq_ok_iff {docs : List Entries} (h : ∀ doc ∈ docs, doc.Keyed) {merged : Entries} :
    merge docs = .ok merged ↔ ¬Conflicting docs ∧ merged = Entries.tables docs.flatten := by
  rw [merge_eq_foldlM, Entries.foldlM_addTable, pairwise_compatible_iff h]
  intro key fs hmem
  obtain ⟨doc, hdoc, hmem⟩ := List.mem_flatten.mp hmem
  exact (h doc hdoc).tables key fs hmem

/-! ### Failures -/

/-- The error is that of a malformed entry. -/
def IsEntryError (err : Error) : Prop := ∃ path cause, err = .entry path cause

/-- Whatever way two values fail to be one table, the error names an entry. -/
theorem isEntryError_mergeTable {key v w : Value} {err : Error} (h : mergeTable key v w = .error err) :
    IsEntryError err := by
  unfold mergeTable at h
  split at h
  · split at h
    · cases h
      exact ⟨_, _, rfl⟩
    · refine Except.error_of_foldlM (fun es f _ e he => ?_) (Except.map_eq_error.mp h)
      unfold appendEntry at he
      split at he
      · cases he
        exact ⟨_, _, rfl⟩
      · cases he
  · cases h
  · cases h
    exact ⟨_, _, rfl⟩

theorem isEntryError_merge {docs : List Entries} {err : Error} (h : merge docs = .error err) :
    IsEntryError err := by
  rw [merge_eq_foldlM] at h
  refine Except.error_of_foldlM (fun merged e _ err he => ?_) h
  unfold addTable at he
  split at he
  · cases he
  · exact isEntryError_mergeTable (Except.map_eq_error.mp he)

/-- **Merging loses and duplicates nothing.** It fails with the error of an entry exactly when two of the
documents clash under a key. Otherwise every key stands in the result once, in the order in which the keys
first occur, with the one value given under it or all its mappings or lists one after the other. -/
theorem merge_tables {docs : List Entries} (h : ∀ doc ∈ docs, doc.Keyed) :
    ((∃ path cause, merge docs = .error (.entry path cause)) ↔ Conflicting docs) ∧
      (¬Conflicting docs → merge docs = .ok (Entries.tables docs.flatten)) ∧
      Distinct (Entries.tables docs.flatten).keys := by
  have hok : ¬Conflicting docs → merge docs = .ok (Entries.tables docs.flatten) := fun hnone =>
    (merge_eq_ok_iff h).mpr ⟨hnone, rfl⟩
  refine ⟨⟨?_, ?_⟩, hok, ?_⟩
  · rintro ⟨path, cause, herr⟩
    by_contra hnone
    rw [hok hnone] at herr
    cases herr
  · intro hconflict
    cases hmerge : merge docs with
    | ok merged => exact absurd hconflict ((merge_eq_ok_iff h).mp hmerge).1
    | error err =>
      obtain ⟨path, cause, rfl⟩ := isEntryError_merge hmerge
      exact ⟨path, cause, rfl⟩
  · have hkeys : (Entries.tables docs.flatten).keys = (Entries.groups docs.flatten).map (·.key) := by
      simp [Entries.keys, Entries.tables]
    rw [hkeys]
    exact Entries.distinct_groups _

/-- Three documents that share tables. -/
def menagerie : List Entries :=
  [[(.str "primitives", .list [.str "void"]), (.str "classes", .map [(.str "Dog", .null)])],
    [(.str "classes", .map [(.str "Cat", .null)]), (.str "mixedInfo", .map [(.str "extraCtors", .null)])],
    [(.str "primitives", .list [.str "int"]), (.str "classes", .map [(.str "Bird", .null), (.int 1, .null)])]]

/-- The tables of `menagerie` come together in the order in which their keys first occur. A name that is a
number stands beside texts. -/
theorem merge_tables_menagerie :
    (∀ doc ∈ menagerie, doc.Keyed) ∧ ¬Conflicting menagerie ∧ merge menagerie = .ok
      [(.str "primitives", .list [.str "void", .str "int"]),
        (.str "classes", .map [(.str "Dog", .null), (.str "Cat", .null), (.str "Bird", .null), (.int 1, .null)]),
        (.str "mixedInfo", .map [(.str "extraCtors", .null)])] := by
  have hkeyed : ∀ doc ∈ menagerie, doc.Keyed := by
    simp only [menagerie, List.forall_mem_cons, List.not_mem_nil, false_imp_iff, implies_true, and_true]
    refine ⟨⟨?_, ?_⟩, ⟨?_, ?_⟩, ⟨?_, ?_⟩⟩ <;>
      simp [Entries.keys, Distinct, Value.sameKey, Value.magnitude?]
    rintro - es (⟨-, rfl⟩ | ⟨-, rfl⟩) <;> simp
  have hnone : ¬Conflicting menagerie := by
    intro hconflict
    obtain ⟨path, cause, herr⟩ := (merge_tables hkeyed).1.mpr hconflict
    cases herr
  exact ⟨hkeyed, hnone, (merge_tables hkeyed).2.1 hnone⟩

end LuaGlue.Document
