import LuaGlue.Proofs.Document.JsonText
import LuaGlue.Proofs.Spec.Enumerators
import Mathlib.Control.Traversable.Instances
import Mathlib.Data.List.Permutation

/-!
# Where reading a document fails

A document whose nested tables have the shapes that reading goes through is read, or one of its entries is
reported with the path that leads to it. Two values are not reported: a default without a JSON text, and a set
among the names of an enumeration.

- **Paths** (`Stands`): the value that stands in a document at a dotted path.
- **Faults** (`Faulty`): what is wrong with the entry at the end of the path. The fault lies in the entry
  itself, in the value of one of its options, or in an option that is missing.
- **Errors** (`Explained`): an error that names such an entry, or one without words for which the document has
  such a value.
- **Readers** (`Attributed`): a reader fails with explained errors alone, and so does a reader made of others.
  `ofDocument_attributed` says this of whole documents.
-/

namespace LuaGlue.Spec

open Document (Value Entries)

/-! ## Paths -/

/-- The item of a sequence: of a list, a character of a text, a key of a mapping. -/
inductive ItemAt : Value → Nat → Value → Prop
  | list {items : List Value} {i : Nat} {v : Value} : items[i]? = some v → ItemAt (.list items) i v
  | text {s : String} {i : Nat} {c : Char} :
      s.toList[i]? = some c → ItemAt (.str s) i (.str (String.singleton c))
  | key {es : Entries} {i : Nat} {e : Value × Value} : es[i]? = some e → ItemAt (.map es) i e.1

/-- The place of the additional constructors. -/
def extraCtorsPath : String := "mixedInfo.extraCtors"

/-- The value stands in the document at the path: the keys that lead to it joined by dots. Overloads have
their index in the path if there are other than one, and additional constructors always. -/
inductive Stands (doc : Entries) : String → Value → Prop
  | table {name v : Value} : (name, v) ∈ doc → Stands doc name.text v
  | entry {path : String} {es : Entries} {name v : Value} :
      Stands doc path (.map es) → (name, v) ∈ es → Stands doc (path ++ "." ++ name.text) v
  | overload {path : String} {items : List Value} {i : Nat} {v : Value} :
      Stands doc path (.list items) → items.length ≠ 1 → items[i]? = some v →
      Stands doc (path ++ "[" ++ toString i ++ "]") v
  | extraCtor {items : Value} {i : Nat} {v : Value} :
      Stands doc extraCtorsPath items → ItemAt items i v →
      Stands doc (extraCtorsPath ++ "[" ++ toString i ++ "]") v

/-! ## Faults -/

/-- The value does not spell the type that is asked for; none when it is missing. -/
inductive Misspelt : Option Value → EntryCause → Prop
  | notText {o : Option Value} : (∀ text, o ≠ some (.str text)) → Misspelt o (.typeExpected (o.getD .null))
  | unreadable {text : String} {e : SyntaxError} :
      parse text = .error e → Misspelt (some (.str text)) (.malformedType e)
  | noFunction {text : String} {t : TypeExpr} :
      parse text = .ok t → (∀ sig, t ≠ .func sig) →
      Misspelt (some (.str text)) (.functionExpected (.str text))
  | result {text : String} {sig : Signature TypeExpr} :
      parse text = .ok (.func sig) → sig.ret ≠ .named "void" →
      Misspelt (some (.str text)) .resultNotAllowed

/-- The entry is made of the options; null has none. -/
inductive HasOptions : Value → Entries → Prop
  | null : HasOptions .null []
  | map (options : Entries) : HasOptions (.map options) options

/-- Something is wrong with an entry: its own shape, an option that is missing or has a wrong value, or the
only overload that it lists. -/
inductive Faulty : Value → EntryCause → Prop
  | notList {v : Value} : v ≠ .null → (∀ items, v ≠ .list items) → Faulty v .listExpected
  | notTable {v : Value} : v ≠ .null → (∀ es, v ≠ .map es) → Faulty v .tableExpected
  | notEntry {v : Value} : v ≠ .null → (∀ es, v ≠ .map es) → Faulty v (.entryExpected v)
  | arity {v : Value} : v ≠ .str "*" → v ≠ .str "any" → (∀ n : Nat, v ≠ .int n) → Faulty v (.badArity v)
  | notOverload {v : Value} :
      (∀ text, v ≠ .str text) → (∀ es, v ≠ .map es) → Faulty v .signatureExpected
  | noValues {v : Value} {options : Entries} : HasOptions v options →
      (∀ names, options.field "values" ≠ .list names) → (∀ es, options.field "values" ≠ .map es) →
      Faulty v .valuesExpected
  | noGetter {v : Value} {options : Entries} : HasOptions v options →
      (∀ text, options.field "getter" ≠ .str text) → Faulty v .getterExpected
  | type {v : Value} {cause : EntryCause} : Misspelt (some v) cause → Faulty v cause
  | option {v : Value} {options : Entries} {key : String} {cause : EntryCause} : HasOptions v options →
      key = "type" ∨ key = "sig" → Misspelt (options.find? (.str key)) cause → Faulty v cause
  | sole {v : Value} {cause : EntryCause} : Faulty v cause → Faulty (.list [v]) cause

/-! ## Errors -/

/-- The place of a field of a record. -/
def fieldPath (record field : Value) : String := "records" ++ "." ++ record.text ++ ".fields" ++ "." ++ field.text

/-- The document has what the error is about: an entry at the path with the fault, the default of a field that
has no JSON text, or a set among the names that an enumeration lists. The last two are not reported but end the
run. -/
inductive Explained (doc : Entries) : Error → Prop
  | entry {path : String} {v : Value} {cause : EntryCause} :
      Stands doc path v → Faulty v cause → Explained doc (.entry (.str path) cause)
  | default {record field v : Value} : Stands doc (fieldPath record field ++ ".default") v → v.NoJson →
      Explained doc (.misfit .jsonExpected)
  | name {enumeration : Value} {names items : List Value} :
      Stands doc ("enums" ++ "." ++ enumeration.text ++ ".values") (.list names) → .set items ∈ names →
      Explained doc (.misfit .keyExpected)

/-! ## Readers -/

/-- If the computation fails, then with an error that the document explains. -/
def Attributed {α : Type} (doc : Entries) (x : Except Error α) : Prop := ∀ err, x = .error err → Explained doc err

namespace Attributed

variable {α β : Type} {doc : Entries}

theorem ok (a : α) : Attributed doc (.ok a) := by
  rintro err ⟨⟩

/-- Reporting an entry at a path is explained by a value with the fault that stands there. -/
theorem malformed {path : String} {cause : EntryCause} {v : Value} (hpath : Stands doc path v)
    (hfault : Faulty v cause) : Attributed doc (malformed (α := α) path cause) := by
  rintro _ ⟨⟩
  exact .entry hpath hfault

/-- What comes next need be `Attributed` for the value that the first part gives, so a reader may rely on what
was checked before it. -/
theorem bind {x : Except Error α} {f : α → Except Error β} (hx : Attributed doc x)
    (hf : ∀ a, x = .ok a → Attributed doc (f a)) : Attributed doc (x >>= f) := by
  cases x with
  | error err =>
    rintro _ ⟨⟩
    exact hx err rfl
  | ok a => exact hf a rfl

/-- The same with the binds grouped to the right, the form that a `do` block unfolds to. -/
theorem bind_bind {γ : Type} {x : Except Error α} {f : α → Except Error β} {k : β → Except Error γ}
    (h : Attributed doc (x >>= f)) (hk : ∀ b, Attributed doc (k b)) :
    Attributed doc (x >>= fun a => f a >>= k) := by
  rw [← bind_assoc]
  exact h.bind fun b _ => hk b

theorem map {x : Except Error α} {f : α → β} (hx : Attributed doc x) : Attributed doc (x.map f) :=
  fun err herr => hx err (Except.map_eq_error.mp herr)

/-- Entries are read in order, and the first that fails decides the error. -/
theorem mapM {f : α → Except Error β} {l : List α} (h : ∀ a ∈ l, Attributed doc (f a)) :
    Attributed doc (l.mapM f) := by
  induction l with
  | nil => exact ok []
  | cons a l ih =>
    obtain ⟨ha, hl⟩ := List.forall_mem_cons.mp h
    rw [List.mapM_cons]
    exact ha.bind fun b _ => (ih hl).bind fun bs _ => ok (b :: bs)

end Attributed

section Readers

variable {doc : Entries} {path : String} {raw : Value}

/-! ### Types -/

section Types

variable {o : Option Value} {err : Error}

/-- A type is read, or the value is `Misspelt`: it is no text, or its text does not parse. -/
theorem misspelt_of_readType (h : readType path (o.getD .null) = .error err) :
    ∃ cause, err = .entry (.str path) cause ∧ Misspelt o cause := by
  by_cases htext : ∃ text, o = some (.str text)
  · obtain ⟨text, rfl⟩ := htext
    rw [Option.getD_some, readType] at h
    split at h
    · cases h
    · rename_i e hparse
      cases h
      exact ⟨_, rfl, .unreadable hparse⟩
  · have hnot : ∀ text, o ≠ some (.str text) := fun text ho => htext ⟨text, ho⟩
    refine ⟨_, ?_, .notText hnot⟩
    unfold readType at h
    split at h
    · rename_i text hv
      cases o with
      | none => cases hv
      | some v => exact absurd (congrArg some hv) (hnot text)
    · cases h
      rfl

/-- A type was read from a text. What else is wrong with the value is wrong with that text. -/
theorem exists_text_of_readType {t : TypeExpr} (h : readType path (o.getD .null) = .ok t) :
    ∃ text, o = some (.str text) ∧ parse text = .ok t := by
  obtain ⟨text, hv, hparse⟩ := readType_eq_ok.mp h
  cases o with
  | none => cases hv
  | some v => exact ⟨text, congrArg some hv, hparse⟩

/-- A signature is read as a type first, so it fails in the ways of `misspelt_of_readType` or because the type
is no function. -/
theorem misspelt_of_readSignature (h : readSignature path (o.getD .null) = .error err) :
    ∃ cause, err = .entry (.str path) cause ∧ Misspelt o cause := by
  rw [readSignature] at h
  cases hread : readType path (o.getD .null) with
  | error e =>
    rw [hread] at h
    cases h
    exact misspelt_of_readType hread
  | ok t =>
    obtain ⟨text, rfl, hparse⟩ := exists_text_of_readType hread
    rw [hread, Except.ok_bind] at h
    split at h
    · cases h
    · rename_i hfunc
      cases h
      exact ⟨_, rfl, .noFunction hparse hfunc⟩

/-- A constructor is a signature whose result is `void`; any other result is the last way to be `Misspelt`. -/
theorem misspelt_of_readConstructor (h : readConstructor path (o.getD .null) = .error err) :
    ∃ cause, err = .entry (.str path) cause ∧ Misspelt o cause := by
  rw [readConstructor] at h
  cases hread : readSignature path (o.getD .null) with
  | error e =>
    rw [hread] at h
    cases h
    exact misspelt_of_readSignature hread
  | ok sig =>
    obtain ⟨text, rfl, hparse⟩ := exists_text_of_readType (readSignature_eq_ok.mp hread)
    rw [hread, Except.ok_bind] at h
    split at h
    · cases h
    · rename_i hret
      cases h
      exact ⟨_, rfl, .result hparse hret⟩

end Types

/-- The value at the path is read as a type, and what is `Misspelt` there is a fault of this value. -/
theorem attributed_readType (hpath : Stands doc path raw) : Attributed doc (readType path raw) := by
  intro err h
  obtain ⟨cause, rfl, hfault⟩ := misspelt_of_readType (o := some raw) h
  exact .entry hpath (.type hfault)

theorem attributed_readConstructor (hpath : Stands doc path raw) :
    Attributed doc (readConstructor path raw) := by
  intro err h
  obtain ⟨cause, rfl, hfault⟩ := misspelt_of_readConstructor (o := some raw) h
  exact .entry hpath (.type hfault)

/-- The number of arguments of a template is `*`, `any` or a natural number, and any other value is at fault
itself. -/
theorem attributed_readArity (hpath : Stands doc path raw) : Attributed doc (readArity path raw) := by
  unfold readArity
  split
  · exact .ok _
  · exact .ok _
  · exact .ok _
  · rename_i hstar hany hcount
    refine .malformed hpath (.arity ?_ ?_ ?_)
    · exact hstar
    · exact hany
    · exact hcount

/-! ### Entries and nested tables -/

/-- An entry with options is null or a mapping; anything else is reported as the entry itself. -/
theorem attributed_entryOptions (hpath : Stands doc path raw) :
    Attributed doc (entryOptions path raw) := by
  unfold entryOptions
  split
  · exact .ok _
  · exact .ok _
  · rename_i hnull hmap
    exact .malformed hpath (.notEntry hnull hmap)

/-- The options that are read are those that `HasOptions` finds in the entry, none for null. -/
theorem hasOptions_of_entryOptions {options : Entries} (h : entryOptions path raw = .ok options) :
    HasOptions raw options := by
  unfold entryOptions at h
  split at h
  · cases h
    exact .null
  · cases h
    exact .map options
  · cases h

theorem mem_of_find?_str {es : Entries} {key : String} {v : Value} (h : es.find? (.str key) = some v) :
    (.str key, v) ∈ es := by
  obtain ⟨e, he, rfl⟩ := Option.map_eq_some_iff.mp h
  have hkey : e.1 = .str key := by simpa using List.find?_some he
  exact hkey ▸ List.mem_of_find?_eq_some he

/-- `Entries.field` gives null for a missing option. A value other than null was found in the entry. -/
theorem find?_of_field {es : Entries} {key : String} {v : Value} (h : es.field key = v) (hv : v ≠ .null) :
    es.find? (.str key) = some v := by
  unfold Entries.field at h
  cases hfind : es.find? (.str key) with
  | none =>
    rw [hfind] at h
    exact absurd h.symm hv
  | some w =>
    rw [hfind] at h
    exact congrArg some h

/-- A value that an entry gives for an option stands below the entry, at the path with the name of the option
behind a dot. -/
theorem Stands.option {options : Entries} {key : String} {v : Value} (hpath : Stands doc path raw)
    (hoptions : HasOptions raw options) (h : options.find? (.str key) = some v) :
    Stands doc (path ++ "." ++ key) v := by
  cases hoptions with
  | null => cases h
  | map => exact hpath.entry (mem_of_find?_str h)

/-- The value counts as absent or is a mapping. -/
def IsTable (v : Value) : Prop := v.truthy → ∃ es, v = .map es

/-- The value counts as absent or is a list, a text or a mapping. -/
def IsSequence (v : Value) : Prop :=
  v.truthy → (∃ items, v = .list items) ∨ (∃ text, v = .str text) ∨ ∃ es, v = .map es

/-- A table is read entry by entry, and each entry stands at the path of the table with the name of the entry.
-/
theorem attributed_readTable {α : Type} {es : Entries} {read : String → Value → Value → Except Error α}
    (hpath : es ≠ [] → Stands doc path (.map es))
    (hread : ∀ name v, (name, v) ∈ es → Stands doc (path ++ "." ++ name.text) v →
      Attributed doc (read (path ++ "." ++ name.text) name v)) :
    Attributed doc (readTable path es read) := by
  apply Attributed.mapM
  intro e he
  have hentry : Stands doc (path ++ "." ++ e.1.text) e.2 :=
    (hpath (List.ne_nil_of_mem he)).entry he
  exact (hread _ _ he hentry).map

/-- A table inside an entry is read entry by entry. A table that counts as absent has no entries, and `IsTable`
rules out the other shapes. -/
theorem attributed_nested {α : Type} {options : Entries} {key path' : String}
    {read : String → Value → Value → Except Error α} (hpath : Stands doc path raw)
    (hoptions : HasOptions raw options) (hpath' : path' = path ++ ("." ++ key))
    (htable : IsTable (options.field key))
    (hread : ∀ name v, Stands doc (path' ++ "." ++ name.text) v →
      Attributed doc (read (path' ++ "." ++ name.text) name v)) :
    Attributed doc (entriesOf (options.field key) >>= fun es => readTable path' es read) := by
  rw [← String.append_assoc] at hpath'
  subst hpath'
  unfold entriesOf
  split
  · rename_i htruthy
    obtain ⟨es, hes⟩ := htable htruthy
    have htable := hpath.option hoptions (find?_of_field hes nofun)
    rw [hes]
    exact attributed_readTable (fun _ => htable) fun name v _ => hread name v
  · -- what counts as absent has no entries, whatever stands at the path
    exact attributed_readTable (fun hne => absurd rfl hne) fun name v _ => hread name v

/-- The option of an entry is read as a type, and an option that is missing counts as `Misspelt` too. -/
theorem attributed_readType_option {options : Entries} (hpath : Stands doc path raw)
    (hoptions : HasOptions raw options) : Attributed doc (readType path (options.field "type")) := by
  intro err h
  obtain ⟨cause, rfl, hfault⟩ := misspelt_of_readType (o := options.find? (.str "type")) h
  exact .entry hpath (.option hoptions (.inl rfl) hfault)

/-! ### Entities -/

/-- A list has names that are no lists and no mappings. -/
def ListsNames (v : Value) : Prop :=
  ∀ names, v = .list names → ∀ n ∈ names, (∀ items, n ≠ .list items) ∧ ∀ es, n ≠ .map es

/-- Of the values that are no keys, lists and mappings are ruled out by `ListsNames`. Sets are left. -/
theorem exists_set_of_not_isKey {n : Value} (hlist : ∀ items, n ≠ .list items) (hmap : ∀ es, n ≠ .map es)
    (h : ¬n.isKey) : ∃ items, n = .set items := by
  cases n with
  | set items => exact ⟨items, rfl⟩
  | list items => exact absurd rfl (hlist items)
  | map es => exact absurd rfl (hmap es)
  | null | bool | int | float | str | day | moment | bytes => exact absurd rfl h

/-- The names of an enumeration come from a list or from a mapping. Only in a list can one be no key, which ends
the run without a report. -/
theorem attributed_readEnum {name : Value} (hpath : Stands doc ("enums" ++ "." ++ name.text) raw)
    (hnames : ∀ options, HasOptions raw options → ListsNames (options.field "values")) :
    Attributed doc (readEnum ("enums" ++ "." ++ name.text) name raw) := by
  unfold readEnum
  refine (attributed_entryOptions hpath).bind fun options hok => ?_
  have hoptions := hasOptions_of_entryOptions hok
  split
  · rename_i names hvalues
    refine Attributed.bind (fun err herr => ?_) fun _ _ => .ok _
    obtain ⟨rfl, n, hn, hkey⟩ := exists_of_numberNames_error herr
    obtain ⟨hlist, hmap⟩ := hnames options hoptions names hvalues n hn
    obtain ⟨items, rfl⟩ := exists_set_of_not_isKey hlist hmap hkey
    have hstands := hpath.option hoptions (find?_of_field hvalues nofun)
    rw [String.append_assoc] at hstands
    exact .name hstands hn
  · exact .ok _
  · rename_i hlist hmap
    have hfault : Faulty raw .valuesExpected := .noValues hoptions hlist hmap
    exact (Attributed.malformed hpath hfault).bind fun _ _ => .ok _

/-- A default is written as JSON, or it is one of the values that `NoJson` lists and the run ends with
`jsonExpected`. -/
theorem noJson_of_defaultText {v : Value} {err : Error} (h : defaultText v = .error err) :
    err = .misfit .jsonExpected ∧ v.NoJson := by
  unfold defaultText at h
  split at h
  · cases h
  · split at h
    · cases h
    · rename_i hnone
      cases h
      exact ⟨rfl, (Value.json?_eq_none_iff _).mp hnone⟩

/-- The default of a field stands below the field by `Stands.option`, which is where `Explained.default` looks
for it. -/
theorem attributed_defaultText {record field : Value} {options : Entries}
    (hpath : Stands doc (fieldPath record field) raw) (hoptions : HasOptions raw options) :
    Attributed doc ((options.find? (.str "default")).mapM defaultText) := by
  cases hdefault : options.find? (.str "default") with
  | none => exact .ok none
  | some v =>
    intro err h
    obtain ⟨rfl, hnone⟩ := noJson_of_defaultText (Except.map_eq_error.mp h)
    have hstands := hpath.option hoptions hdefault
    rw [String.append_assoc] at hstands
    exact .default hstands hnone

/-- A field has a type, which is reported if it is missing or misspelt, and a default, which is not reported. -/
theorem attributed_readField {record field : Value} (hpath : Stands doc (fieldPath record field) raw) :
    Attributed doc (readField (fieldPath record field) field raw) := by
  unfold readField
  split
  · exact (attributed_readType hpath).bind fun _ _ => .ok _
  · refine (attributed_entryOptions hpath).bind fun options hok => ?_
    have hoptions := hasOptions_of_entryOptions hok
    refine (attributed_readType_option hpath hoptions).bind fun _ _ => ?_
    exact (attributed_defaultText hpath hoptions).bind fun _ _ => .ok _

/-- The fields of a record are a table inside the entry of the record, so they are read by `attributed_nested`.
-/
theorem attributed_readRecord {record : Value} (hpath : Stands doc ("records" ++ "." ++ record.text) raw)
    (hfields : ∀ options, HasOptions raw options → IsTable (options.field "fields")) :
    Attributed doc (readRecord ("records" ++ "." ++ record.text) record raw) := by
  unfold readRecord
  refine (attributed_entryOptions hpath).bind fun options hok => ?_
  have hoptions := hasOptions_of_entryOptions hok
  refine Attributed.bind_bind ?_ fun _ => .ok _
  exact attributed_nested hpath hoptions rfl (hfields options hoptions) fun _ _ h => attributed_readField h

/-- An overload is read, or something is wrong with it: it is a signature, or an entry with one in its option
`sig`. -/
theorem faulty_of_readOverload {err : Error} (h : readOverload path raw = .error err) :
    ∃ cause, err = .entry (.str path) cause ∧ Faulty raw cause := by
  unfold readOverload at h
  split at h
  · rename_i text
    cases hsig : readSignature path (.str text) with
    | ok sig => rw [hsig] at h; cases h
    | error e =>
      rw [hsig] at h
      cases h
      obtain ⟨cause, rfl, hfault⟩ := misspelt_of_readSignature (o := some (.str text)) hsig
      exact ⟨cause, rfl, .type hfault⟩
  · rename_i options
    cases hsig : readSignature path (Entries.field options "sig") with
    | ok sig => rw [hsig] at h; cases h
    | error e =>
      rw [hsig] at h
      cases h
      obtain ⟨cause, rfl, hfault⟩ :=
        misspelt_of_readSignature (o := Entries.find? options (.str "sig")) hsig
      exact ⟨cause, rfl, .option (.map options) (.inr rfl) hfault⟩
  · rename_i htext hmap
    cases h
    exact ⟨_, rfl, .notOverload htext hmap⟩

theorem attributed_readOverload (hpath : Stands doc path raw) : Attributed doc (readOverload path raw) := by
  intro err h
  obtain ⟨cause, rfl, hfault⟩ := faulty_of_readOverload h
  exact .entry hpath hfault

/-- A method with one overload is reported at its own path, with several at the index of the overload. Both are
faults of values that `Stands` finds. -/
theorem attributed_readMethod {name : Value} (hpath : Stands doc path raw) :
    Attributed doc (readMethod path name raw) := by
  unfold readMethod
  split
  · rename_i v
    -- the only overload has the path of its list
    refine Attributed.bind ?_ fun _ _ => .ok _
    intro err h
    obtain ⟨cause, rfl, hfault⟩ := faulty_of_readOverload h
    exact .entry hpath (.sole hfault)
  · rename_i items hsole
    apply Attributed.mapM
    rintro ⟨v, i⟩ hv
    have hitem : items[i]? = some v := List.mk_mem_zipIdx_iff_getElem?.mp hv
    have hlength : items.length ≠ 1 := by
      intro h
      obtain ⟨x, rfl⟩ := List.length_eq_one_iff.mp h
      exact hsole x rfl
    exact attributed_readOverload (hpath.overload hlength hitem)
  · exact (attributed_readOverload hpath).bind fun _ _ => .ok _

theorem attributed_readMethods {options : Entries} {key path' : String} (hpath : Stands doc path raw)
    (hoptions : HasOptions raw options) (hpath' : path' = path ++ ("." ++ key))
    (htable : IsTable (options.field key)) : Attributed doc (readMethods path' (options.field key)) :=
  attributed_nested hpath hoptions hpath' htable fun _ _ h => attributed_readMethod h

/-- An element type is only read if the option is truthy, so it is not null and stands below the class. -/
theorem attributed_readIterable {options : Entries} (hpath : Stands doc path raw)
    (hoptions : HasOptions raw options) (htruthy : (options.field "iterable").truthy) :
    Attributed doc (readType (path ++ ".iterable") (options.field "iterable")) := by
  have hne : options.field "iterable" ≠ .null := by
    intro h
    rw [h] at htruthy
    cases htruthy
  have hstands := hpath.option hoptions (find?_of_field rfl hne)
  rw [String.append_assoc] at hstands
  exact attributed_readType hstands

/-- A class is read table by table and ends with its element type. The four tables are mappings by `hshape`. -/
theorem attributed_readClass {name : Value} (hpath : Stands doc path raw)
    (hshape : ∀ options, HasOptions raw options →
      ∀ key ∈ ["methods", "staticMethods", "constructors", "properties"], IsTable (options.field key)) :
    Attributed doc (readClass path name raw) := by
  unfold readClass
  refine (attributed_entryOptions hpath).bind fun options hok => ?_
  have hoptions := hasOptions_of_entryOptions hok
  have htables := hshape options hoptions
  extract_lets handle members
  -- the tables are read in the same way whether instances can be iterated over or not
  have hmembers : ∀ iterable, Attributed doc (members iterable) := by
    intro iterable
    refine Attributed.bind_bind ?_ fun constructors => ?_
    · exact attributed_nested hpath hoptions rfl (htables _ (by simp)) fun _ _ h =>
        attributed_readConstructor h
    refine (attributed_readMethods hpath hoptions rfl (htables _ (by simp))).bind fun methods _ => ?_
    refine (attributed_readMethods hpath hoptions rfl (htables _ (by simp))).bind fun statics _ => ?_
    refine Attributed.bind_bind ?_ fun properties => .ok _
    exact attributed_nested hpath hoptions rfl (htables _ (by simp)) fun _ _ h => attributed_readType h
  split
  · rename_i htruthy
    exact (attributed_readIterable hpath hoptions htruthy).map.bind fun iterable _ => hmembers iterable
  · exact hmembers none

/-- As in `attributed_readClass`, with the two tables that an interface has. -/
theorem attributed_readInterface {name : Value} (hpath : Stands doc path raw)
    (hshape : ∀ options, HasOptions raw options →
      ∀ key ∈ ["methods", "staticMethods"], IsTable (options.field key)) :
    Attributed doc (readInterface path name raw) := by
  unfold readInterface
  refine (attributed_entryOptions hpath).bind fun options hok => ?_
  have hoptions := hasOptions_of_entryOptions hok
  have htables := hshape options hoptions
  refine (attributed_readMethods hpath hoptions rfl (htables _ (by simp))).bind fun methods _ => ?_
  exact (attributed_readMethods hpath hoptions rfl (htables _ (by simp))).bind fun statics _ => .ok _

/-- An alternative of `Mixed` is an entry with a getter and a type; without either of them the entry is
reported. -/
theorem attributed_readMixedDecl {name : Value} (hpath : Stands doc path raw) :
    Attributed doc (readMixedDecl path name raw) := by
  unfold readMixedDecl
  refine (attributed_entryOptions hpath).bind fun options hok => ?_
  have hoptions := hasOptions_of_entryOptions hok
  split
  · exact (attributed_readType_option hpath hoptions).bind fun _ _ => .ok _
  · rename_i hgetter
    exact .malformed hpath (.noGetter hoptions hgetter)

/-- A sequence has its items, and each is an `ItemAt` of it: this is how its index gets into a path. -/
theorem exists_itemsOf (h : IsSequence raw) :
    ∃ items, itemsOf raw = .ok items ∧ ∀ i v, items[i]? = some v → ItemAt raw i v := by
  unfold itemsOf
  split
  · rename_i htruthy
    obtain ⟨items, rfl⟩ | ⟨text, rfl⟩ | ⟨es, rfl⟩ := h htruthy
    · exact ⟨items, rfl, fun i v hv => .list hv⟩
    · refine ⟨_, rfl, fun i v hv => ?_⟩
      rw [List.getElem?_map] at hv
      obtain ⟨c, hc, rfl⟩ := Option.map_eq_some_iff.mp hv
      exact .text hc
    · refine ⟨_, rfl, fun i v hv => ?_⟩
      rw [List.getElem?_map] at hv
      obtain ⟨e, he, rfl⟩ := Option.map_eq_some_iff.mp hv
      exact .key he
  · exact ⟨[], rfl, fun i v hv => by cases hv⟩

/-- The alternatives are read as a table. The other types are only listed, and the additional constructors are
read at their indices. -/
theorem attributed_readMixedInfo {options : Entries} (hpath : Stands doc "mixedInfo" (.map options))
    (htypes : IsTable (options.field "dataTypes")) (hunused : IsSequence (options.field "unusedDataTypes"))
    (hextra : IsSequence (options.field "extraCtors")) : Attributed doc (readMixedInfo options) := by
  unfold readMixedInfo
  refine Attributed.bind_bind ?_ fun types => ?_
  · exact attributed_nested hpath (.map options) rfl htypes fun _ _ h => attributed_readMixedDecl h
  obtain ⟨unused, hunused, -⟩ := exists_itemsOf hunused
  obtain ⟨items, hitems, hat⟩ := exists_itemsOf hextra
  rw [hunused, Except.ok_bind, hitems, Except.ok_bind]
  refine (Attributed.mapM ?_).bind fun _ _ => .ok _
  rintro ⟨v, i⟩ hv
  have hitem : ItemAt (options.field "extraCtors") i v := hat i v (List.mk_mem_zipIdx_iff_getElem?.mp hv)
  -- null has no items, so the list is there
  have hne : options.field "extraCtors" ≠ .null := by
    intro hnull
    rw [hnull] at hitem
    cases hitem
  have hstands : Stands doc extraCtorsPath (options.field "extraCtors") :=
    hpath.option (.map options) (find?_of_field rfl hne)
  exact attributed_readType (.extraCtor hstands hitem)

/-! ### Tables of a document -/

theorem stands_field {key : String} {v : Value} (h : doc.field key = v) (hv : v ≠ .null) :
    Stands doc key v :=
  .table (mem_of_find?_str (find?_of_field h hv))

/-- A table of names is null or a list, and any other value is reported under the name of the table. -/
theorem attributed_listTable (key : String) : Attributed doc (listTable doc key) := by
  unfold listTable
  split
  · exact .ok _
  · exact .ok _
  · rename_i hnull hlist
    exact .malformed (stands_field rfl hnull) (.notList hnull hlist)

/-- A table of entries is null or a mapping, and any other value is reported under the name of the table. -/
theorem attributed_mapTable (key : String) : Attributed doc (mapTable doc key) := by
  unfold mapTable
  split
  · exact .ok _
  · exact .ok _
  · rename_i hnull hmap
    exact .malformed (stands_field rfl hnull) (.notTable hnull hmap)

/-- A table of the document is read entry by entry, by `attributed_mapTable` and `attributed_readTable`. -/
theorem attributed_table {α : Type} {key : String} {read : String → Value → Value → Except Error α}
    (hread : ∀ es, doc.field key = .map es → ∀ name v, (name, v) ∈ es →
      Stands doc (key ++ "." ++ name.text) v → Attributed doc (read (key ++ "." ++ name.text) name v)) :
    Attributed doc (mapTable doc key >>= fun es => readTable key es read) := by
  refine (attributed_mapTable key).bind fun es hes => ?_
  obtain ⟨-, rfl⟩ | hfield := mapTable_eq_ok.mp hes
  · exact .ok []
  · exact attributed_readTable (fun _ => stands_field hfield nofun) (hread es hfield)

end Readers

/-! ## Documents -/

/-- The entries of the table have values of the shape for the option. -/
def EachOption (doc : Entries) (table key : String) (P : Value → Prop) : Prop :=
  ∀ es, doc.field table = .map es → ∀ name (options : Entries), (name, .map options) ∈ es →
    P (options.field key)

/-- The shapes that reading takes for granted. Whatever else a document holds is checked. -/
structure Shaped (doc : Entries) : Prop where
  enums : EachOption doc "enums" "values" ListsNames
  records : EachOption doc "records" "fields" IsTable
  classes : ∀ key ∈ ["methods", "staticMethods", "constructors", "properties"],
    EachOption doc "classes" key IsTable
  interfaces : ∀ key ∈ ["methods", "staticMethods"], EachOption doc "interfaces" key IsTable
  mixed : ∀ options : Entries, doc.field "mixedInfo" = .map options →
    IsTable (options.field "dataTypes") ∧ IsSequence (options.field "unusedDataTypes") ∧
      IsSequence (options.field "extraCtors")

section Documents

variable {doc : Entries}

/-- An entry without options has the shape if null has it, since `Entries.field` gives null there. -/
theorem EachOption.of_hasOptions {table key : String} {P : Value → Prop} (h : EachOption doc table key P)
    (hnull : P .null) {es options : Entries} {name v : Value} (hes : doc.field table = .map es)
    (hmem : (name, v) ∈ es) (hoptions : HasOptions v options) : P (options.field key) := by
  cases hoptions with
  | null => exact hnull
  | map => exact h es hes name options hmem

theorem isTable_null : IsTable .null := nofun

theorem listsNames_null : ListsNames .null := nofun

theorem attributed_mixed (h : Shaped doc) :
    Attributed doc (mapTable doc "mixedInfo" >>= readMixedInfo) := by
  refine (attributed_mapTable "mixedInfo").bind fun options hok => ?_
  obtain ⟨-, rfl⟩ | hfield := mapTable_eq_ok.mp hok
  · exact .ok ({} : MixedInfo)
  · obtain ⟨htypes, hunused, hextra⟩ := h.mixed options hfield
    exact attributed_readMixedInfo (stands_field hfield nofun) htypes hunused hextra

/-- The tables of a document are read in turn, and each is `Attributed` with what `Shaped` says of it. -/
theorem attributed_ofDocument (h : Shaped doc) : Attributed doc (ofDocument doc) := by
  unfold ofDocument
  refine (attributed_listTable "headers").bind fun _ _ => ?_
  refine (attributed_listTable "primitives").bind fun _ _ => ?_
  refine Attributed.bind_bind (attributed_table fun _ _ _ _ _ => attributed_readArity) fun _ => ?_
  refine Attributed.bind_bind (attributed_table fun _ _ _ _ _ => attributed_readType) fun _ => ?_
  refine Attributed.bind_bind (attributed_table fun es hes name v hmem hpath => ?_) fun _ => ?_
  · exact attributed_readEnum hpath fun _ hoptions => h.enums.of_hasOptions listsNames_null hes hmem hoptions
  refine (attributed_listTable "opaqueTypes").bind fun _ _ => ?_
  refine Attributed.bind_bind (attributed_table fun _ _ _ _ _ => attributed_readType) fun _ => ?_
  refine Attributed.bind_bind (attributed_table fun es hes name v hmem hpath => ?_) fun _ => ?_
  · exact attributed_readRecord hpath fun _ hoptions =>
      h.records.of_hasOptions isTable_null hes hmem hoptions
  refine Attributed.bind_bind (attributed_table fun es hes name v hmem hpath => ?_) fun _ => ?_
  · exact attributed_readClass hpath fun _ hoptions key hkey =>
      (h.classes key hkey).of_hasOptions isTable_null hes hmem hoptions
  refine Attributed.bind_bind (attributed_table fun es hes name v hmem hpath => ?_) fun _ => ?_
  · exact attributed_readInterface hpath fun _ hoptions key hkey =>
      (h.interfaces key hkey).of_hasOptions isTable_null hes hmem hoptions
  exact Attributed.bind_bind (attributed_mixed h) fun _ => .ok _

/-- **Reading ends.** A document of the shape is read, or an entry is reported: its path leads to a value of the
document, and that value has the fault which is reported. There are two ways for it to end without a report: the
default of a field has no JSON text, or an enumeration lists a set among its names. -/
theorem ofDocument_attributed (h : Shaped doc) :
    (∃ s, ofDocument doc = .ok s) ∨
    (∃ path cause v, ofDocument doc = .error (.entry (.str path) cause) ∧ Stands doc path v ∧ Faulty v cause) ∨
    (∃ record field v, ofDocument doc = .error (.misfit .jsonExpected) ∧
      Stands doc (fieldPath record field ++ ".default") v ∧ v.NoJson) ∨
    ∃ enumeration names items, ofDocument doc = .error (.misfit .keyExpected) ∧
      Stands doc ("enums" ++ "." ++ Value.text enumeration ++ ".values") (.list names) ∧ .set items ∈ names := by
  cases hread : ofDocument doc with
  | ok s => exact .inl ⟨s, rfl⟩
  | error err =>
    refine .inr ?_
    cases attributed_ofDocument h err hread with
    | entry hpath hfault => exact .inl ⟨_, _, _, rfl, hpath, hfault⟩
    | default hpath hnone => exact .inr (.inl ⟨_, _, _, rfl, hpath, hnone⟩)
    | name hpath hset => exact .inr (.inr ⟨_, _, _, rfl, hpath, hset⟩)

end Documents

/-- A class with two overloads of a method, of which the first gives a number for its type. -/
def overloaded : Entries :=
  [(.str "classes", .map [(.str "Store", .map [(.str "methods", .map [
    (.str "put", .list [.map [(.str "sig", .int 5)], .str "() -> void"])])])])]

/-- The first overload is reported at its index: the path is `classes.Store.methods.put[0]`. -/
theorem attributed_overloaded :
    Shaped overloaded ∧
      ofDocument overloaded =
        .error (.entry (.str "classes.Store.methods.put[0]") (.typeExpected (.int 5))) ∧
      ∃ v, Stands overloaded "classes.Store.methods.put[0]" v ∧ Faulty v (.typeExpected (.int 5)) := by
  have hshape : Shaped overloaded := by
    refine ⟨nofun, nofun, fun key hkey es hes name options hmem htruthy => ?_, nofun, nofun⟩
    cases hes
    cases List.mem_singleton.mp hmem
    simp only [List.mem_cons, List.not_mem_nil, or_false] at hkey
    obtain rfl | rfl | rfl | rfl := hkey
    · exact ⟨_, rfl⟩
    · cases htruthy
    · cases htruthy
    · cases htruthy
  have herror : ofDocument overloaded =
      .error (.entry (.str "classes.Store.methods.put[0]") (.typeExpected (.int 5))) := rfl
  rcases ofDocument_attributed hshape with ⟨s, hread⟩ | ⟨path, cause, v, hread, hpath, hfault⟩ |
    ⟨record, field, v, hread, -⟩ | ⟨enumeration, names, items, hread, -⟩
  · rw [herror] at hread
    cases hread
  · rw [herror] at hread
    cases hread
    exact ⟨hshape, herror, v, hpath, hfault⟩
  · rw [herror] at hread
    cases hread
  · rw [herror] at hread
    cases hread

/-- A record with a field whose default is a day. -/
def dated : Entries :=
  [(.str "records", .map [(.str "Log", .map [(.str "fields", .map [
    (.str "since", .map [(.str "type", .str "int"), (.str "default", .day ⟨2020, 1, 1⟩)])])])])]

/-- The document has the shape, and reading it ends without naming an entry. -/
theorem dated_not_reported :
    Shaped dated ∧ ofDocument dated = .error (.misfit .jsonExpected) ∧
      ¬((∃ s, ofDocument dated = .ok s) ∨ ∃ path cause v,
        ofDocument dated = .error (.entry (.str path) cause) ∧ Stands dated path v ∧ Faulty v cause) := by
  have hshape : Shaped dated := by
    refine ⟨nofun, fun es hes name options hmem _ => ?_, fun _ _ => nofun, fun _ _ => nofun, nofun⟩
    cases hes
    cases List.mem_singleton.mp hmem
    exact ⟨_, rfl⟩
  have herror : ofDocument dated = .error (.misfit .jsonExpected) := by cbv
  refine ⟨hshape, herror, ?_⟩
  rintro (⟨s, hread⟩ | ⟨path, cause, v, hread, -⟩)
  · rw [herror] at hread
    cases hread
  · rw [herror] at hread
    cases hread

end LuaGlue.Spec
