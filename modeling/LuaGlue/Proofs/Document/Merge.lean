import LuaGlue.Proofs.Model.Registration

/-!
# The tables of merged documents

- **Lookups** (`Entries.find?_replace`): what a key addresses after an entry was added or replaced.
- **Joined tables** (`mergeTable_eq_ok`): two lists or two mappings, one appended to the other.
- **Merged documents** (`joined_of_merge`): under each key stands the table of the document that gives it,
  or both tables joined.
-/

namespace LuaGlue.Document

open Value (Distinct sameKey_comm sameKey_of_common)

/-! ## Lookups -/

namespace Entries

/-- The keys of the entries. -/
def keys (es : Entries) : List Value := es.map (·.1)

variable {es more : Entries} {key key' value : Value}

theorem find?_cons (e : Value × Value) :
    find? (e :: es) key = if e.1.sameKey key then some e.2 else find? es key := by
  unfold find?
  rw [List.find?_cons]
  split <;> simp_all

theorem find?_append : find? (es ++ more) key = (find? es key).or (find? more key) := by
  unfold find?
  rw [List.find?_append, Option.map_or]

theorem find?_eq_none : es.find? key = none ↔ ∀ k ∈ es.keys, ¬k.sameKey key := by
  simp [find?, keys]

theorem has_iff : es.has key ↔ (es.find? key).isSome := by
  simp [has, find?]

theorem find?_congr (h : key.sameKey key') : es.find? key = es.find? key' := by
  have hsame (k : Value) : k.sameKey key = k.sameKey key' := by
    rw [Bool.eq_iff_iff]
    exact ⟨fun hk => sameKey_of_common hk (sameKey_comm.mp h), fun hk => sameKey_of_common hk h⟩
  simp only [find?, hsame]

/-- A key addresses the entry that was replaced, or what it addressed before. -/
theorem find?_replace : find? (es.replace key value) key' =
    if key.sameKey key' then (es.find? key').map fun _ => value else es.find? key' := by
  induction es with
  | nil => simp [replace, find?]
  | cons e es ih =>
    have hcons : replace (e :: es) key value =
        (if e.1.sameKey key then (e.1, value) else e) :: replace es key value := rfl
    rw [hcons, find?_cons, find?_cons, ih]
    by_cases he : e.1.sameKey key'
    · by_cases hkey : e.1.sameKey key
      · have hsame : key.sameKey key' :=
          sameKey_comm.mp (sameKey_of_common (sameKey_comm.mp he) (sameKey_comm.mp hkey))
        simp [he, hkey, hsame]
      · have hother : ¬key.sameKey key' := fun h => hkey (sameKey_of_common he h)
        simp [he, hkey, hother]
    · by_cases hkey : e.1.sameKey key <;> simp [he, hkey]

end Entries

/-! ## Joined tables -/

theorem foldlM_appendEntry {table : Value} {es more es' : Entries}
    (h : more.foldlM (appendEntry table) es = .ok es') : es' = es ++ more := by
  induction more generalizing es with
  | nil => cases h; simp
  | cons e more ih =>
    rw [List.foldlM_cons] at h
    obtain ⟨mid, hmid, h⟩ := Except.bind_eq_ok.mp h
    unfold appendEntry at hmid
    split at hmid
    · cases hmid
    · cases hmid
      simpa using ih h

/-- Tables that can be joined are two lists or two mappings, and not mixed information. -/
theorem mergeTable_eq_ok {table v w u : Value} (h : mergeTable table v w = .ok u) :
    (∃ items more, v = .list items ∧ w = .list more ∧ u = .list (items ++ more)) ∨
      ∃ es more, v = .map es ∧ w = .map more ∧ u = .map (es ++ more) ∧ isMixedInfo table = false := by
  unfold mergeTable at h
  split at h
  · rename_i es more
    split at h
    · cases h
    · rename_i hmixed
      obtain ⟨es', hes, rfl⟩ := Except.map_eq_ok.mp h
      exact .inr ⟨es, more, rfl, rfl, by rw [foldlM_appendEntry hes], by simpa using hmixed⟩
  · rename_i items more
    cases h
    exact .inl ⟨items, more, rfl, rfl, rfl⟩
  · cases h

/-- What a merged document holds under a key, given what its documents do. -/
inductive Joined (key : Value) : Option Value → Option Value → Option Value → Prop
  | left {v} : Joined key v none v
  | right {w} : Joined key none (some w) (some w)
  | both {table v w u} : table.sameKey key → mergeTable table v w = .ok u →
      Joined key (some v) (some w) (some u)

theorem Joined.eq_left {key : Value} {v u : Option Value} (h : Joined key v none u) : u = v := by
  cases h
  rfl

theorem Joined.eq_right {key : Value} {w u : Option Value} (h : Joined key none w u) : u = w := by
  cases h <;> rfl

/-! ## Merged documents -/

/-- One table changes what its key addresses, and no other key. -/
theorem joined_of_addTable {merged mid : Entries} {e : Value × Value} (h : addTable merged e = .ok mid)
    (key : Value) :
    Joined key (merged.find? key) (if e.1.sameKey key then some e.2 else none) (mid.find? key) := by
  unfold addTable at h
  split at h
  · rename_i hnone
    cases h
    rw [Entries.find?_append, Entries.find?_cons]
    by_cases he : e.1.sameKey key
    · rw [if_pos he, if_pos he, ← Entries.find?_congr he, hnone]
      exact .right
    · rw [if_neg he, if_neg he]
      simpa [Entries.find?] using Joined.left
  · rename_i present hsome
    obtain ⟨u, hu, rfl⟩ := Except.map_eq_ok.mp h
    rw [Entries.find?_replace]
    by_cases he : e.1.sameKey key
    · rw [if_pos he, if_pos he, ← Entries.find?_congr he, hsome]
      exact .both he hu
    · rw [if_neg he, if_neg he]
      exact .left

/-- Adding a document joins its tables to those that are there. -/
theorem joined_of_mergeInto {merged doc merged' : Entries} (hd : Distinct doc.keys)
    (h : mergeInto merged doc = .ok merged') (key : Value) :
    Joined key (merged.find? key) (doc.find? key) (merged'.find? key) := by
  induction doc generalizing merged with
  | nil =>
    cases h
    exact .left
  | cons e doc ih =>
    rw [mergeInto, List.foldlM_cons] at h
    obtain ⟨mid, hmid, h⟩ := Except.bind_eq_ok.mp h
    obtain ⟨hfresh, hd⟩ := List.pairwise_cons.mp hd
    have hfirst := joined_of_addTable hmid key
    have hrest := ih hd h
    rw [Entries.find?_cons]
    by_cases he : e.1.sameKey key
    · -- no other table of the document has the key
      have hnone : Entries.find? doc key = none :=
        Entries.find?_eq_none.mpr fun k hk hsame => hfresh k hk (sameKey_of_common he hsame)
      rw [if_pos he] at hfirst ⊢
      rw [hnone] at hrest
      rwa [hrest.eq_left]
    · rw [if_neg he] at hfirst ⊢
      rwa [← hfirst.eq_left]

/-- **The tables of two merged documents.** Under each key stands what one of them gives, or what they
give joined. -/
theorem joined_of_merge {d₁ d₂ d : Entries} (h₁ : Distinct d₁.keys) (h₂ : Distinct d₂.keys)
    (h : merge [d₁, d₂] = .ok d) (key : Value) : Joined key (d₁.find? key) (d₂.find? key) (d.find? key) := by
  rw [merge, List.foldlM_cons] at h
  obtain ⟨first, hfirst, h⟩ := Except.bind_eq_ok.mp h
  rw [List.foldlM_cons] at h
  obtain ⟨second, hsecond, h⟩ := Except.bind_eq_ok.mp h
  cases h
  have hsame : first.find? key = d₁.find? key := (joined_of_mergeInto h₁ hfirst key).eq_right
  exact hsame ▸ joined_of_mergeInto h₂ hsecond key

end LuaGlue.Document
