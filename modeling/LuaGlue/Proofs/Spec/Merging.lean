import LuaGlue.Proofs.Document.Merge
import LuaGlue.Proofs.Spec.Reading
import Mathlib.Data.List.Permutation

/-!
# The specification of merged documents

Every entry is read by itself, so reading goes along with merging:

- **Tables** (`appends_listTable`, `appends_readsTable`): a table of the merged document is read exactly
  when the tables of both documents are, as the one after the other.
- **Mixed information** (`readsMixedInfo_joined`): read from the one document that gives it.
- **Specifications** (`ofDocument_merge`): the specification of two merged documents is that of the first
  followed by that of the second.
-/

namespace LuaGlue.Spec

open Document (Value Entries Joined merge mergeTable mergeTable_eq_ok joined_of_merge isMixedInfo)
open Document.Value (Distinct)

/-- What satisfies `P` is something that satisfies `P₁` followed by something that satisfies `P₂`. -/
def Appends {α : Type} (P P₁ P₂ : List α → Prop) : Prop :=
  ∀ l, P l ↔ ∃ l₁ l₂, P₁ l₁ ∧ P₂ l₂ ∧ l = l₁ ++ l₂

theorem Appends.split {α : Type} {P P₁ P₂ : List α → Prop} {l : List α} (h : Appends P P₁ P₂) (hl : P l) :
    ∃ l₁ l₂, P₁ l₁ ∧ P₂ l₂ ∧ l = l₁ ++ l₂ :=
  (h l).mp hl

theorem Appends.append {α : Type} {P P₁ P₂ : List α → Prop} {l₁ l₂ : List α} (h : Appends P P₁ P₂)
    (h₁ : P₁ l₁) (h₂ : P₂ l₂) : P (l₁ ++ l₂) :=
  (h _).mpr ⟨l₁, l₂, h₁, h₂, rfl⟩

/-! ## Tables -/

section Tables

variable {α : Type} {key : String} {d₁ d₂ d : Entries}
  (h : Joined (.str key) (d₁.find? (.str key)) (d₂.find? (.str key)) (d.find? (.str key)))

include h

/-- Tables are taken from the joined values as they are from the two, if null is an empty table and two
tables are joined into one after the other. -/
theorem Appends.of_joined {P : Value → List α → Prop} (hnull : ∀ l, P .null l ↔ l = [])
    (htables : ∀ {table v w u}, mergeTable table v w = .ok u → Appends (P u) (P v) (P w)) :
    Appends (P (d.field key)) (P (d₁.field key)) (P (d₂.field key)) := by
  unfold Entries.field
  generalize d₁.find? (.str key) = v, d₂.find? (.str key) = w, d.find? (.str key) = u at h
  cases h with
  | left => intro l; simp [hnull]
  | right => intro l; simp [hnull]
  | both hkey hu => exact htables hu

theorem appends_listTable :
    Appends (listTable d key = .ok ·) (listTable d₁ key = .ok ·) (listTable d₂ key = .ok ·) := by
  simp only [listTable_eq_ok]
  refine Appends.of_joined h (P := fun v l => v = .null ∧ l = [] ∨ v = .list l) (by simp) fun hu => ?_
  obtain ⟨items, more, rfl, rfl, rfl⟩ | ⟨es, more, rfl, rfl, rfl, -⟩ := mergeTable_eq_ok hu
  · intro l
    simp [eq_comm]
  · intro l
    simp

theorem appends_mapTable :
    Appends (mapTable d key = .ok ·) (mapTable d₁ key = .ok ·) (mapTable d₂ key = .ok ·) := by
  simp only [mapTable_eq_ok]
  refine Appends.of_joined h (P := fun v l => v = .null ∧ l = [] ∨ v = .map l) (by simp) fun hu => ?_
  obtain ⟨items, more, rfl, rfl, rfl⟩ | ⟨es, more, rfl, rfl, rfl, -⟩ := mergeTable_eq_ok hu
  · intro l
    simp
  · intro l
    simp [eq_comm]

omit h in
theorem readTable_append {path : String} {es₁ es₂ : Entries}
    {read : String → Value → Value → Except Error α} {t : Table α} :
    readTable path (es₁ ++ es₂) read = .ok t ↔
      ∃ t₁ t₂, readTable path es₁ read = .ok t₁ ∧ readTable path es₂ read = .ok t₂ ∧ t = t₁ ++ t₂ := by
  simp only [readTable, List.mapM_append, Except.bind_eq_ok, Except.pure_eq_ok_iff]
  constructor
  · rintro ⟨t₁, h₁, t₂, h₂, rfl⟩
    exact ⟨t₁, t₂, h₁, h₂, rfl⟩
  · rintro ⟨t₁, t₂, h₁, h₂, rfl⟩
    exact ⟨t₁, h₁, t₂, h₂, rfl⟩

theorem appends_readsTable (read : String → Value → Value → Except Error α) :
    Appends (ReadsTable d key read) (ReadsTable d₁ key read) (ReadsTable d₂ key read) := by
  intro t
  constructor
  · rintro ⟨es, hes, ht⟩
    obtain ⟨es₁, es₂, hes₁, hes₂, rfl⟩ := (appends_mapTable h).split hes
    obtain ⟨t₁, t₂, ht₁, ht₂, rfl⟩ := readTable_append.mp ht
    exact ⟨t₁, t₂, ⟨es₁, hes₁, ht₁⟩, ⟨es₂, hes₂, ht₂⟩, rfl⟩
  · rintro ⟨t₁, t₂, ⟨es₁, hes₁, ht₁⟩, ⟨es₂, hes₂, ht₂⟩, rfl⟩
    exact ⟨es₁ ++ es₂, (appends_mapTable h).append hes₁ hes₂,
      readTable_append.mpr ⟨t₁, t₂, ht₁, ht₂, rfl⟩⟩

end Tables

/-! ## Mixed information -/

theorem readsMixedInfo_congr {d d' : Entries} {m : MixedInfo}
    (h : d.find? (.str "mixedInfo") = d'.find? (.str "mixedInfo")) :
    ReadsMixedInfo d m ↔ ReadsMixedInfo d' m := by
  simp only [ReadsMixedInfo, mapTable_eq_ok, Entries.field, h]

theorem readsMixedInfo_of_none {d : Entries} {m : MixedInfo} (h : d.find? (.str "mixedInfo") = none) :
    ReadsMixedInfo d m ↔ m = {} := by
  have hsame : d.find? (.str "mixedInfo") = Entries.find? [] (.str "mixedInfo") := h
  rw [readsMixedInfo_congr hsame]
  have hempty : readMixedInfo [] = .ok {} := rfl
  constructor
  · rintro ⟨es, ⟨⟩, hm⟩
    rw [← readMixedInfo_eq_ok, hempty] at hm
    cases hm
    rfl
  · rintro rfl
    exact ⟨[], rfl, readMixedInfo_eq_ok.mp hempty⟩

/-- A list is no mixed information. -/
theorem not_readsMixedInfo_of_list {d : Entries} {m : MixedInfo} {items : List Value}
    (h : d.find? (.str "mixedInfo") = some (.list items)) : ¬ReadsMixedInfo d m := by
  rintro ⟨es, hes, -⟩
  simp [mapTable_eq_ok, Entries.field, h] at hes

/-- The mixed information of joined documents is that of the one that gives it. -/
theorem readsMixedInfo_joined {d₁ d₂ d : Entries} {m : MixedInfo}
    (h : Joined (.str "mixedInfo") (d₁.find? (.str "mixedInfo")) (d₂.find? (.str "mixedInfo"))
      (d.find? (.str "mixedInfo"))) :
    ReadsMixedInfo d m ↔ ∃ m₁ m₂, ReadsMixedInfo d₁ m₁ ∧ ReadsMixedInfo d₂ m₂ ∧
      m = if d₁.has (.str "mixedInfo") then m₁ else if d₂.has (.str "mixedInfo") then m₂ else {} := by
  simp only [Entries.has_iff]
  cases hw : d₂.find? (.str "mixedInfo") with
  | none =>
    rw [hw] at h
    simp only [readsMixedInfo_congr h.eq_left, readsMixedInfo_of_none hw]
    cases hv : d₁.find? (.str "mixedInfo") with
    | none => simp [readsMixedInfo_of_none hv]
    | some v => simp
  | some w =>
    rw [hw] at h
    cases hv : d₁.find? (.str "mixedInfo") with
    | none =>
      rw [hv] at h
      simp [readsMixedInfo_congr (h.eq_right.trans hw.symm), readsMixedInfo_of_none hv]
    | some v =>
      -- two mappings are not joined under this key, and two lists are no mixed information
      rw [hv] at h
      generalize hu : d.find? (.str "mixedInfo") = u at h
      cases h with | both hkey hjoin =>
      obtain ⟨items, more, rfl, rfl, rfl⟩ | ⟨es, more, rfl, rfl, rfl, hmixed⟩ := mergeTable_eq_ok hjoin
      · simp [not_readsMixedInfo_of_list hu, not_readsMixedInfo_of_list hv]
      · rw [isMixedInfo, hkey] at hmixed
        cases hmixed

/-! ## Specifications -/

/-- The tables of two specifications, one after the other, with the mixed information given. -/
def append (s₁ s₂ : Spec) (mixed : MixedInfo) : Spec where
  headers := s₁.headers ++ s₂.headers
  primitives := s₁.primitives ++ s₂.primitives
  templates := s₁.templates ++ s₂.templates
  aliases := s₁.aliases ++ s₂.aliases
  enums := s₁.enums ++ s₂.enums
  opaqueTypes := s₁.opaqueTypes ++ s₂.opaqueTypes
  keyTypes := s₁.keyTypes ++ s₂.keyTypes
  records := s₁.records ++ s₂.records
  classes := s₁.classes ++ s₂.classes
  interfaces := s₁.interfaces ++ s₂.interfaces
  mixed := mixed

/-- **Merging and reading.** Two documents that can be merged are read as one exactly when each of them is
read by itself. Every table of the specification is that of the first followed by that of the second, and
the mixed information is that of the document that gives it, or empty. -/
theorem ofDocument_merge {d₁ d₂ d : Entries} {s : Spec} (h₁ : Distinct d₁.keys) (h₂ : Distinct d₂.keys)
    (h : merge [d₁, d₂] = .ok d) :
    ofDocument d = .ok s ↔ ∃ s₁ s₂, ofDocument d₁ = .ok s₁ ∧ ofDocument d₂ = .ok s₂ ∧
      s = s₁.append s₂ (if d₁.has (.str "mixedInfo") then s₁.mixed
        else if d₂.has (.str "mixedInfo") then s₂.mixed else {}) := by
  -- under every key the merged document has what the two give, one behind the other
  have hjoined (key : String) := joined_of_merge h₁ h₂ h (.str key)
  have hlist (key : String) := appends_listTable (hjoined key)
  have htable {α : Type} (key : String) (read : String → Value → Value → Except Error α) :=
    appends_readsTable (hjoined key) read
  simp only [ofDocument_eq_ok]
  constructor
  -- each table of the merged document is read in two parts, one for each document
  · intro hs
    obtain ⟨headers₁, headers₂, hh₁, hh₂, hheaders⟩ := (hlist _).split hs.headers
    obtain ⟨primitives₁, primitives₂, hp₁, hp₂, hprimitives⟩ := (hlist _).split hs.primitives
    obtain ⟨templates₁, templates₂, ht₁, ht₂, htemplates⟩ := (htable _ _).split hs.templates
    obtain ⟨aliases₁, aliases₂, ha₁, ha₂, haliases⟩ := (htable _ _).split hs.aliases
    obtain ⟨enums₁, enums₂, he₁, he₂, henums⟩ := (htable _ _).split hs.enums
    obtain ⟨opaques₁, opaques₂, ho₁, ho₂, hopaques⟩ := (hlist _).split hs.opaqueTypes
    obtain ⟨keyTypes₁, keyTypes₂, hk₁, hk₂, hkeyTypes⟩ := (htable _ _).split hs.keyTypes
    obtain ⟨records₁, records₂, hr₁, hr₂, hrecords⟩ := (htable _ _).split hs.records
    obtain ⟨classes₁, classes₂, hc₁, hc₂, hclasses⟩ := (htable _ _).split hs.classes
    obtain ⟨interfaces₁, interfaces₂, hi₁, hi₂, hinterfaces⟩ := (htable _ _).split hs.interfaces
    obtain ⟨mixed₁, mixed₂, hm₁, hm₂, hmixed⟩ := (readsMixedInfo_joined (hjoined _)).mp hs.mixed
    refine ⟨⟨headers₁, primitives₁, templates₁, aliases₁, enums₁, opaques₁, keyTypes₁, records₁, classes₁,
      interfaces₁, mixed₁⟩, ⟨headers₂, primitives₂, templates₂, aliases₂, enums₂, opaques₂, keyTypes₂,
      records₂, classes₂, interfaces₂, mixed₂⟩, ⟨hh₁, hp₁, ht₁, ha₁, he₁, ho₁, hk₁, hr₁, hc₁, hi₁, hm₁⟩,
      ⟨hh₂, hp₂, ht₂, ha₂, he₂, ho₂, hk₂, hr₂, hc₂, hi₂, hm₂⟩, ?_⟩
    rw [append, ← hheaders, ← hprimitives, ← htemplates, ← haliases, ← henums, ← hopaques, ← hkeyTypes,
      ← hrecords, ← hclasses, ← hinterfaces, ← hmixed]
  · rintro ⟨s₁, s₂, hs₁, hs₂, rfl⟩
    exact {
      headers := (hlist _).append hs₁.headers hs₂.headers
      primitives := (hlist _).append hs₁.primitives hs₂.primitives
      templates := (htable _ _).append hs₁.templates hs₂.templates
      aliases := (htable _ _).append hs₁.aliases hs₂.aliases
      enums := (htable _ _).append hs₁.enums hs₂.enums
      opaqueTypes := (hlist _).append hs₁.opaqueTypes hs₂.opaqueTypes
      keyTypes := (htable _ _).append hs₁.keyTypes hs₂.keyTypes
      records := (htable _ _).append hs₁.records hs₂.records
      classes := (htable _ _).append hs₁.classes hs₂.classes
      interfaces := (htable _ _).append hs₁.interfaces hs₂.interfaces
      mixed := (readsMixedInfo_joined (hjoined _)).mpr ⟨_, _, hs₁.mixed, hs₂.mixed, rfl⟩ }

/-- A document with an alias and without mixed information. -/
def shapes : Entries :=
  [(.str "headers", .list [.str "<shapes.h>"]), (.str "opaqueTypes", .null),
    (.str "typeAliases", .map [(.str "Size", .str "Array<int>")])]

/-- A document with another alias and mixed information. -/
def sounds : Entries :=
  [(.str "typeAliases", .map [(.str "Gain", .str "float")]), (.str "headers", .list [.str "<sounds.h>"]),
    (.str "mixedInfo", .map [(.str "unusedDataTypes", .list [.str "Nil"])])]

theorem ofDocument_merge_shapes_sounds :
    ∃ d, merge [shapes, sounds] = .ok d ∧ ofDocument d = .ok {
      headers := [.str "<shapes.h>", .str "<sounds.h>"]
      aliases := [(.str "Size", .template "Array" [.named "int"]), (.str "Gain", .named "float")]
      mixed := { unused := [.str "Nil"] } } := by
  have hshapes : Distinct shapes.keys := by unfold Distinct; decide
  have hsounds : Distinct sounds.keys := by unfold Distinct; decide
  have hreadShapes : ofDocument shapes = .ok {
      headers := [.str "<shapes.h>"]
      aliases := [(.str "Size", .template "Array" [.named "int"])] } := by cbv
  have hreadSounds : ofDocument sounds = .ok {
      headers := [.str "<sounds.h>"]
      aliases := [(.str "Gain", .named "float")]
      mixed := { unused := [.str "Nil"] } } := by cbv
  exact ⟨_, rfl, (ofDocument_merge hshapes hsounds rfl).mpr ⟨_, _, hreadShapes, hreadSounds, rfl⟩⟩

end LuaGlue.Spec
