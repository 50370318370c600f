import LuaGlue.Proofs.Document.MergedTables
import LuaGlue.Proofs.Model.Binding
import LuaGlue.Proofs.Spec.Reading

/-!
# The enumerators of listed names

An enumeration may list its names alone, and they are numbered from zero.

- **Numbering** (`numberNames_eq_ok`): every name comes once, at its first place, with the number of its
  last place (`numbered`).
- **No loss** (`numbered_eq_listed_iff`, `length_numbered_eq_iff`): each listed name has its own place and
  number exactly when no name comes twice.
- **Models** (`enumerators_of_ofSpec`): the same of the enumerations of a model.
-/

namespace LuaGlue

open Document (Value Entries Group)
open Document.Value (Distinct)

/-- The value that came last under the key. -/
def Document.Group.last (g : Group) : Value := g.more.getLastD g.first

theorem Document.Group.last_put (e : Value × Value) (g : Group) :
    (g.put e).last = if g.key.sameKey e.1 then e.2 else g.last := by
  unfold put
  split
  · simp [last, add]
  · rfl

/-- Grouping leaves the keys in their order. -/
theorem Document.Entries.keys_groups_sublist (es : Entries) : (es.groups.map (·.key)).Sublist es.keys := by
  induction es with
  | nil => exact .slnil
  | cons e es ih =>
    rw [groups, List.map_cons]
    exact ((List.filter_sublist.map _).trans ih).cons_cons e.1

namespace Spec

/-! ## Listed names -/

/-- The names with their places. -/
def listed (names : List Value) : Entries := names.zipIdx.map fun e => (e.1, .int e.2)

/-- The names in the order in which they first occur, each with the place at which it occurs last. -/
def numbered (names : List Value) : Entries := (listed names).groups.map fun g => (g.key, g.last)

variable {names : List Value} {name : Value}

theorem listed_snoc : listed (names ++ [name]) = listed names ++ [(name, .int names.length)] := by
  simp [listed, List.zipIdx_append]

@[simp] theorem keys_listed : (listed names).keys = names := by
  simp [Entries.keys, listed, Function.comp_def]

theorem keys_numbered : (numbered names).keys = (listed names).groups.map (·.key) := by
  simp [Entries.keys, numbered]

theorem has_numbered : (numbered names).has name ↔ (listed names).given name ≠ [] := by
  have hany : (numbered names).has name = (listed names).groups.any (·.key.sameKey name) := by
    simp [Entries.has, numbered, Function.comp_def]
  rw [hany, List.any_eq_true, ← List.find?_isSome]
  cases hfind : (listed names).groups.find? (·.key.sameKey name) with
  | none => simp [Entries.given_of_find?_eq_none hfind]
  | some g => simp [← Entries.values_of_find? hfind, Group.values]

/-- One more name takes the next number, in the place it has or at the end. -/
theorem numbered_snoc : numbered (names ++ [name]) =
    if (numbered names).has name then (numbered names).replace name (.int names.length)
    else numbered names ++ [(name, .int names.length)] := by
  rw [numbered, listed_snoc]
  split
  · rename_i h
    rw [Entries.groups_snoc_same (has_numbered.mp h), numbered, Entries.replace, List.map_map, List.map_map]
    refine List.map_congr_left fun g _ => ?_
    by_cases hg : g.key.sameKey name <;> simp [Group.last_put, hg]
  · rename_i h
    -- no group takes the name, so it opens one of its own
    have hfresh : (listed names).given name = [] := by
      by_contra hne
      exact h (has_numbered.mpr hne)
    rw [Entries.groups_snoc_fresh hfresh, List.map_append]
    rfl

/-! ## Numbering -/

theorem numberNames_snoc {es : Entries} : numberNames (names ++ [name]) = .ok es ↔
    ∃ before, numberNames names = .ok before ∧ name.isKey ∧
      es = if before.has name then before.replace name (.int names.length)
        else before ++ [(name, .int names.length)] := by
  have hzip : (names ++ [name]).zipIdx = names.zipIdx ++ [(name, names.length)] := by
    simp [List.zipIdx_append]
  rw [numberNames, hzip, Except.foldlM_snoc]
  refine exists_congr fun before => and_congr_right fun _ => ?_
  cases hkey : name.isKey with
  | false => simp [hkey]
  | true =>
    by_cases hhas : before.has name
    · simp [hkey, hhas, eq_comm (a := es)]
    · simp [hkey, hhas, eq_comm (a := es)]

/-- Names are numbered if they can be keys. -/
theorem numberNames_eq_ok {es : Entries} :
    numberNames names = .ok es ↔ (∀ n ∈ names, n.isKey) ∧ es = numbered names := by
  induction names using List.reverseRecOn generalizing es with
  | nil =>
    have hempty : numberNames [] = .ok (numbered []) := rfl
    simp [hempty, eq_comm (a := es)]
  | append_singleton names name ih =>
    simp only [numberNames_snoc, numbered_snoc, ih, List.forall_mem_append, List.forall_mem_singleton]
    constructor
    · rintro ⟨before, ⟨hkeys, rfl⟩, hkey, hes⟩
      exact ⟨⟨hkeys, hkey⟩, hes⟩
    · rintro ⟨⟨hkeys, hkey⟩, hes⟩
      exact ⟨_, ⟨hkeys, rfl⟩, hkey, hes⟩

/-- Numbering fails for a name that is no key, and for nothing else. -/
theorem exists_of_numberNames_error {err : Error} (h : numberNames names = .error err) :
    err = .misfit .keyExpected ∧ ∃ n ∈ names, ¬n.isKey := by
  refine ⟨?_, ?_⟩
  · rw [numberNames] at h
    refine Except.error_of_foldlM (P := (· = .misfit .keyExpected)) (fun es e _ err hstep => ?_) h
    obtain ⟨name, i⟩ := e
    dsimp only at hstep
    split at hstep
    · cases hstep
      rfl
    · split at hstep <;> cases hstep
  · by_contra hkeys
    push Not at hkeys
    rw [numberNames_eq_ok.mpr ⟨hkeys, rfl⟩] at h
    cases h

/-! ## Repeated names -/

theorem numbered_of_distinct (h : Distinct names) : numbered names = listed names := by
  induction names using List.reverseRecOn with
  | nil => rfl
  | append_singleton names name ih =>
    obtain ⟨hnames, hfresh⟩ := Value.distinct_snoc.mp h
    have hnew : ¬(numbered names).has name := by
      rw [ih hnames, Entries.has_iff, Option.isSome_iff_ne_none, not_not, Entries.find?_eq_none, keys_listed]
      exact hfresh
    rw [numbered_snoc, if_neg hnew, listed_snoc, ih hnames]

theorem keys_numbered_sublist : (numbered names).keys.Sublist names := by
  have hkeys := Entries.keys_groups_sublist (listed names)
  rwa [keys_listed, ← keys_numbered] at hkeys

theorem length_numbered_eq_iff : (numbered names).length = names.length ↔ Distinct names := by
  constructor
  · intro hlength
    -- as many names as were listed, in their order, are all of them
    have hkeys : (numbered names).keys = names :=
      keys_numbered_sublist.eq_of_length (by simpa [Entries.keys] using hlength)
    rw [← hkeys, keys_numbered]
    exact Entries.distinct_groups _
  · intro h
    rw [numbered_of_distinct h]
    simp [listed]

theorem numbered_eq_listed_iff : numbered names = listed names ↔ Distinct names := by
  constructor
  · intro h
    rw [← length_numbered_eq_iff, h]
    simp [listed]
  · exact numbered_of_distinct

theorem values_of_readEnum {path : String} {options : Entries} {d : EnumDecl}
    (h : readEnum path name (.map options) = .ok d) (hvalues : options.field "values" = .list names) :
    d.values = numbered names := by
  rw [readEnum, entryOptions, Except.ok_bind, hvalues] at h
  obtain ⟨es, hes, hd⟩ := Except.bind_eq_ok.mp h
  cases hd
  exact (numberNames_eq_ok.mp hes).2

end Spec

/-! ## Models -/

/-- An entry of a table that is read gives the entry of the same place. -/
theorem Spec.getElem?_of_readTable {α : Type} {path : String} {es : Entries}
    {read : String → Value → Value → Except Error α} {t : Spec.Table α}
    (h : Spec.readTable path es read = .ok t) {i : Nat} {e : Value × Value} (he : es[i]? = some e) :
    ∃ a, t[i]? = some (e.1, a) ∧ read (path ++ "." ++ e.1.text) e.1 e.2 = .ok a := by
  have hall := Except.mapM_eq_ok.mp h
  obtain ⟨hi, rfl⟩ := List.getElem?_eq_some_iff.mp he
  have hi' : i < t.length := hall.length_eq ▸ hi
  obtain ⟨a, hread, ha⟩ := Except.map_eq_ok.mp (hall.get hi hi')
  exact ⟨a, List.getElem?_eq_some_iff.mpr ⟨hi', ha.symm⟩, hread⟩

/-- **Enumerators.** An enumeration of a document that lists its names is bound to these names in the order
in which they first occur, each with the place at which it occurs last. So there are as many enumerators as
names, each name at its place and with its number, exactly if no name is listed twice. -/
theorem Model.enumerators_of_ofSpec {doc : Entries} {s : Spec} {m : Model}
    (hdoc : Spec.ofDocument doc = .ok s) (hm : Model.ofSpec s = .ok m) {entries options : Entries}
    (henums : doc.field "enums" = .map entries) {i : Nat} {name : Value}
    (hentry : entries[i]? = some (name, .map options)) {names : List Value}
    (hvalues : options.field "values" = .list names) :
    ∃ e, m.enums[i]? = some e ∧ e.ref.name = name.text ∧ e.enumerators = Spec.numbered names ∧
      (e.enumerators = Spec.listed names ↔ Distinct names) ∧
      (e.enumerators.length = names.length ↔ Distinct names) := by
  obtain ⟨es, hes, hread⟩ := (Spec.ofDocument_eq_ok.mp hdoc).enums
  have hsame : es = entries := by
    rw [Spec.mapTable, henums] at hes
    exact (Except.ok.inj hes).symm
  subst hsame
  obtain ⟨d, hd, hdecl⟩ := Spec.getElem?_of_readTable hread hentry
  obtain ⟨declared, hbound⟩ := Model.ofSpec_eq_ok.mp hm
  have hnumbered := Spec.values_of_readEnum hdecl hvalues
  refine ⟨⟨⟨name.text, d.native⟩, d.values⟩, ?_, rfl, hnumbered, ?_, ?_⟩
  · rw [hbound.enums, List.getElem?_map, hd]
    rfl
  · rw [hnumbered]
    exact Spec.numbered_eq_listed_iff
  · rw [hnumbered]
    exact Spec.length_numbered_eq_iff

/-- Two enumerations, of which the second lists a name again. -/
def listedDocument : Entries :=
  [(.str "enums", .map [
    (.str "Color", .map [(.str "values", .list [.str "Red", .str "Green"])]),
    (.str "Step", .map [(.str "values", .list [.str "Up", .str "Down", .str "Up"])])])]

/-- What the document declares. -/
def listedSpec : Spec where
  enums := [
    (.str "Color", ⟨.str "Color", [(.str "Red", .int 0), (.str "Green", .int 1)]⟩),
    (.str "Step", ⟨.str "Step", [(.str "Up", .int 2), (.str "Down", .int 1)]⟩)]

/-- The first enumeration keeps its names and their places. -/
theorem Model.enumerators_color :
    ∃ m e, Spec.ofDocument listedDocument = .ok listedSpec ∧ Model.ofSpec listedSpec = .ok m ∧
      m.enums[0]? = some e ∧ e.ref.name = "Color" ∧
      Distinct [.str "Red", .str "Green"] ∧ e.enumerators = Spec.listed [.str "Red", .str "Green"] ∧
      e.enumerators.length = 2 := by
  have hdoc : Spec.ofDocument listedDocument = .ok listedSpec := rfl
  obtain ⟨m, hm⟩ : ∃ m, Model.ofSpec listedSpec = .ok m := ⟨_, rfl⟩
  obtain ⟨e, he, hname, -, hlisted, hlength⟩ :=
    Model.enumerators_of_ofSpec hdoc hm rfl (i := 0) rfl rfl
  have hdistinct : Distinct [.str "Red", .str "Green"] := List.pairwise_pair.mpr (by decide)
  exact ⟨m, e, hdoc, hm, he, hname, hdistinct, hlisted.mpr hdistinct, hlength.mpr hdistinct⟩

/-- Of three listed names two are left, and the first one has the number of the third. -/
theorem Model.enumerators_step :
    ∃ m e, Spec.ofDocument listedDocument = .ok listedSpec ∧ Model.ofSpec listedSpec = .ok m ∧
      m.enums[1]? = some e ∧ e.ref.name = "Step" ∧
      e.enumerators = [(.str "Up", .int 2), (.str "Down", .int 1)] ∧
      e.enumerators ≠ Spec.listed [.str "Up", .str "Down", .str "Up"] :=
  ⟨_, _, rfl, rfl, rfl, rfl, rfl, nofun⟩

end LuaGlue
