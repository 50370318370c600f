import LuaGlue.Proofs.Lua.RecordConversions
import LuaGlue.Proofs.Lua.UnitSymbols
import LuaGlue.Proofs.Model.Lineage

/-!
# A unit defines before it uses

The text of a unit, line by line, around each of its parts that use others.

- **Around a part** (`exists_around`): steps that define symbols fall apart around any part of them, and so
  does their text.
- **Parts** (`Parts`): the steps of a unit, with what each part defines and shows (`Prepared`).
- **Uses** (`Placed`): the symbols that a part uses are defined once, before the part.
- **The unit** (`DefinedBeforeUse`): index functions, arrays of functions, their registration, the function
  that opens the module, the functions that read records, and the declarations that conversions rely on.
- **Texts of several lines** (`brokenModules`): any text that a line break can enter may repeat a definition,
  so all of them are asked to be on one line (`Writable`).
-/

namespace LuaGlue.Lua

open Code (Step writtenLines indented)
open Text (OneLine)

/-! ## Around a part -/

section Around

variable {A P B : List Step} {σA σP σB : List Symbol} {declared shown : List String}

/-- The text of steps around a part of them that writes something. -/
theorem exists_around (hA : Shows A σA declared) (hP : Shows P σP shown) (hB : Defines B σB)
    (hne : σP ≠ [] ∨ shown ≠ []) :
    ∃ before after, writtenLines (A ++ P ++ B) = before ++ writtenLines P ++ after ∧
      Listed before σA ∧ (∀ l ∈ declared, l ∈ before) ∧ (∀ l ∈ shown, l ∈ writtenLines P) ∧
      Listed (before ++ writtenLines P ++ after) (σA ++ σP ++ σB) := by
  obtain ⟨before, hbefore, hlistA, hdeclared⟩ := hA
  obtain ⟨piece, hpiece, hlistP, hshown⟩ := hP
  obtain ⟨after, hafter, hlistB⟩ := hB
  have hpieceNe : piece ≠ [] := by
    rintro rfl
    rcases hne with hne | hne
    · cases hlistP
      exact hne rfl
    · obtain ⟨l, hl⟩ := List.exists_mem_of_ne_nil _ hne
      cases hshown l hl
  have hwhole := ((hbefore.append hpiece).append hafter).writtenLines_eq (by simp [hpieceNe])
  rw [hpiece.writtenLines_eq hpieceNe]
  exact ⟨before, after, hwhole, hlistA, hdeclared, hshown, (hlistA.append hlistP).append hlistB⟩

end Around

/-- The lines have the piece in them. Each line that uses a symbol stands in the piece, and the symbol is
defined by one line only, which stands before the piece. -/
def Placed (ls piece : List String) (uses : List (String × Symbol)) : Prop :=
  ∃ before after, ls = before ++ piece ++ after ∧
    ∀ u ∈ uses, u.1 ∈ piece ∧ (∃ l ∈ before, u.2.Opens l) ∧
      ls.Pairwise fun a b => ¬(u.2.Opens a ∧ u.2.Opens b)

/-- The lines have the piece in them, and before it the declarations of the functions of all records. -/
def Declared (m : Model) (ls piece : List String) : Prop :=
  ∃ before after, ls = before ++ piece ++ after ∧
    ∀ r ∈ m.records, pushHead r ++ ";" ∈ before ∧ readHead r ++ ";" ∈ before

/-! ## Parts -/

/-- The steps in front of all functions: headers, checks of enumerations and declarations of records. -/
def preamble (m : Model) (head : List Step) : List Step :=
  head ++ m.enums.flatMap enumChecks ++ m.records.flatMap declareRecord
    ++ (if m.records.isEmpty then [] else [Code.blank])

/-- A model whose texts can be written, and the name of its module. -/
structure Prepared (s : Spec) (declared : List Class) (module : String) (m : Model) : Prop where
  bound : Model.BoundFrom s declared m
  module : OneLine module
  writable : Writable m
  types : m.OneLineTypes

namespace Prepared

variable {s : Spec} {declared : List Class} {module : String} {m : Model}

/-- The names that a wrapper's name is made of are on one line: those of classes by `Writable`, those of members
because they come from a text that is. -/
theorem oneLine_member (h : Prepared s declared module m) {c : Class} (hc : c ∈ m.classes) :
    ∀ x ∈ c.methods, OneLine x.owner.name ∧ OneLine x.uniqueName := by
  intro x hx
  rw [h.bound.owner_eq hc hx]
  exact ⟨(h.writable.oneLine.classes c hc).1, (h.writable.oneLine.members c hc x hx).1⟩

/-- The steps in front of all functions define nothing, and show the declarations of both functions of each
record. -/
theorem shows_preamble (h : Prepared s declared module m) {head : List Step}
    (hhead : unitHead m.headers = .ok head) :
    Shows (preamble m head) [] (m.records.flatMap fun r => [pushHead r ++ ";", readHead r ++ ";"]) := by
  have hm := h.writable.oneLine
  have hhead : Defines head [] := defines_unitHead hm.headers hhead
  have hchecks : Defines (m.enums.flatMap enumChecks) (m.enums.flatMap fun _ => []) := .flatMap fun e he =>
    defines_enumChecks (hm.enums e he).1 (hm.enums e he).2 (hm.enumerators e he)
  have hrecords : Shows (m.records.flatMap declareRecord) (m.records.flatMap fun _ => [])
      (m.records.flatMap fun r => [pushHead r ++ ";", readHead r ++ ";"]) := .flatMap fun r hr =>
    shows_declareRecord (hm.records r hr).1 (hm.records r hr).2
  have hblank : Defines (if m.records.isEmpty then [] else [Code.blank]) [] := by
    split
    · exact .nil
    · exact .blank
  have hnone {α : Type} (l : List α) : l.flatMap (fun _ => ([] : List Symbol)) = [] := by simp
  rw [hnone] at hchecks hrecords
  have hall := ((hhead.append hchecks).shows.append hrecords).append hblank.shows
  simp only [List.nil_append, List.append_nil] at hall
  exact hall

/-- The functions of a record define its adapters. Its conversions may go over several lines, none of which
begins like a definition. -/
theorem defines_record (h : Prepared s declared module m) {r : Record} (hr : r ∈ m.records)
    {part : List Step} (hpart : recordFunctions { module, model := m } r = .ok part) :
    Defines part (recordSymbols r) := by
  have hm := h.writable.oneLine
  obtain ⟨own, read, rfl, hown, hread⟩ := exists_of_recordFunctions h.module h.writable h.types hr hpart
  exact hown.append (shows_readRecord (h.writable.records r hr) (hm.records r hr).1 (hm.records r hr).2
    (hm.fields r hr) hread).defines

theorem defines_records (h : Prepared s declared module m) {l : List Record} (hl : ∀ r ∈ l, r ∈ m.records)
    {parts : List (List Step)} (hparts : l.mapM (recordFunctions { module, model := m }) = .ok parts) :
    Defines parts.flatten (l.flatMap recordSymbols) :=
  .mapM hparts fun r hr _ hpart => h.defines_record (hl r hr) hpart

/-- The index function of a class defines its own name and shows the call of each property that it serves. -/
theorem shows_index (h : Prepared s declared module m) {c : Class} (hc : c ∈ m.classes) :
    Shows (indexFunction m c) [.function (indexName c.ref)]
      ((servedProperties m c).map fun x => indented 1 (propertyCall x)) := by
  refine shows_indexFunction (h.writable.oneLine.classes c hc).1 fun x hx => ?_
  obtain ⟨owner, howner, hx⟩ := List.mem_flatMap.mp hx
  have hmem := ((h.bound.mem_lineage_iff hc).mp howner).mem_classes hc
  exact h.oneLine_member hmem x (List.mem_filter.mp hx).1

/-- The functions of a class define its wrappers, its iterator and its index function, with the names of
`classSymbols`. -/
theorem defines_class (h : Prepared s declared module m) {c : Class} (hc : c ∈ m.classes)
    {part : List Step} (hpart : classFunctions { module, model := m } c = .ok part) :
    Defines part (classSymbols c) := by
  obtain ⟨own, rfl, hown⟩ := exists_of_classFunctions (h.writable.oneLine.classes c hc).1
    (h.oneLine_member hc) hpart
  exact hown.append (h.shows_index hc).defines

theorem defines_classes (h : Prepared s declared module m) {l : List Class} (hl : ∀ c ∈ l, c ∈ m.classes)
    {parts : List (List Step)} (hparts : l.mapM (classFunctions { module, model := m }) = .ok parts) :
    Defines parts.flatten (l.flatMap classSymbols) :=
  .mapM hparts fun c hc _ hpart => h.defines_class (hl c hc) hpart

theorem defines_enums (h : Prepared s declared module m) :
    Defines (m.enums.flatMap registerEnum) (m.enums.map fun e => .registration (enumRegistration e)) := by
  have hm := h.writable.oneLine
  rw [List.map_eq_flatMap]
  exact .flatMap fun e he => defines_registerEnum (hm.enums e he).1 (hm.enumerators e he)

/-- The array of the methods of a class defines its name and shows one entry for each function. -/
theorem shows_methods (h : Prepared s declared module m) {c : Class} (hc : c ∈ m.classes) :
    Shows (functionArray (methodsName c.ref) (instanceFunctions c)) [.array (methodsName c.ref)]
      ((instanceFunctions c).map fun f => indented 1 (functionEntry f)) := by
  have hname := (h.writable.oneLine.classes c hc).1
  refine shows_functionArray (Text.oneLine_append.mpr ⟨hname, .literal (by decide)⟩) ?_
  unfold instanceFunctions
  simp only [List.forall_mem_append, List.forall_mem_map]
  refine ⟨fun x hx => ?_, fun f hf => ?_⟩
  · obtain ⟨howner, hunique⟩ := h.oneLine_member hc x (List.mem_filter.mp hx).1
    exact ⟨Text.oneLine_snakeCase hunique, oneLine_wrapperName howner hunique⟩
  · split at hf
    · cases List.mem_singleton.mp hf
      unfold iteratorName
      simp only [Text.oneLine_append]
      exact ⟨.literal (by decide), ⟨.literal (by decide), hname⟩, .literal (by decide)⟩
    · cases hf

/-- As in `shows_methods`, for the functions of the class itself. -/
theorem shows_statics (h : Prepared s declared module m) {c : Class} (hc : c ∈ m.classes) :
    Shows (functionArray (staticsName c.ref) (staticFunctions c)) [.array (staticsName c.ref)]
      ((staticFunctions c).map fun f => indented 1 (functionEntry f)) := by
  have hname := (h.writable.oneLine.classes c hc).1
  refine shows_functionArray (Text.oneLine_append.mpr ⟨hname, .literal (by decide)⟩) ?_
  refine List.forall_mem_map.mpr fun x hx => ?_
  obtain ⟨howner, hunique⟩ := h.oneLine_member hc x (List.mem_filter.mp hx).1
  exact ⟨Text.oneLine_snakeCase hunique, oneLine_wrapperName howner hunique⟩

theorem defines_tables (h : Prepared s declared module m) {l : List Class} (hl : ∀ c ∈ l, c ∈ m.classes) :
    Defines (l.flatMap methodTables) (l.flatMap tableSymbols) :=
  .flatMap fun c hc => (h.shows_methods (hl c hc)).defines.append (h.shows_statics (hl c hc)).defines

/-- Every call that registers a class is written in one line: its argument is a number, a fixed key, or a name
of the class, its base or the module. -/
theorem oneLine_argument (h : Prepared s declared module m) {c : Class} (hc : c ∈ m.classes) :
    ∀ call ∈ registerClass module c, OneLine call.argument := by
  obtain ⟨hname, hnative⟩ := h.writable.oneLine.classes c hc
  have hmetatable := oneLine_metatable h.module hname
  have hmethods : OneLine (methodsName c.ref) := Text.oneLine_append.mpr ⟨hname, .literal (by decide)⟩
  have hindex : OneLine (indexName c.ref) := by
    unfold indexName
    simp only [Text.oneLine_append]
    exact ⟨⟨.literal (by decide), hname⟩, .literal (by decide)⟩
  have hdestroy : OneLine ("bindgen_lua::destroy<" ++ storedType c.ref ++ ">") := by
    unfold storedType
    split <;> simpa [OneLine] using hnative
  have hbase : ∀ b, c.base = some b → OneLine (metatable module b.name) := by
    intro b hb
    obtain ⟨p, hp, rfl⟩ := h.bound.exists_base hc hb
    exact oneLine_metatable h.module (h.writable.oneLine.classes p hp).1
  have hkeys : OneLine "" ∧ OneLine "__methods" ∧ OneLine "__index" ∧ OneLine "__gc" ∧ OneLine "__base" := by
    decide
  unfold registerClass
  cases hb : c.base with
  | none => simp [Call.argument, hmetatable, hmethods, hindex, hdestroy, hkeys]
  | some b => simp [chainToBase, Call.argument, hmetatable, hmethods, hindex, hdestroy, hkeys, hbase b hb]

/-- The function that registers the metatables shows the calls of each class in order and defines nothing but
itself. -/
theorem shows_metatables (h : Prepared s declared module m) :
    Shows (registerMetatables module m.classes) [.registration "register_metatables"]
      (m.classes.flatMap (registrationLines module)) := by
  have hinner : ∀ l ∈ m.classes.flatMap (registrationLines module), Code.Inner l := by
    refine List.forall_mem_flatMap.mpr fun c _ => ?_
    exact List.forall_mem_map.mpr fun t _ => Code.inner_indented 0 t
  have hopens : Listed ["static void register_metatables(lua_State* L) \x7b"]
      [.registration "register_metatables"] := .opens trivial rfl .nil
  refine ⟨_, writes_registerMetatables fun c hc => h.oneLine_argument hc, hopens.block (.of_inner hinner), ?_⟩
  exact fun l hl => List.mem_append_left _ (List.mem_cons_of_mem _ hl)

theorem shows_opening (h : Prepared s declared module m) :
    Shows (openModule module m) [] ((openingTexts m).map (indented 1)) :=
  shows_openModule h.module h.writable.oneLine

end Prepared

/-- The steps after the functions of classes. -/
def closing (module : String) (m : Model) : List Step :=
  m.enums.flatMap registerEnum ++ m.classes.flatMap methodTables ++ registerMetatables module m.classes
    ++ openModule module m

/-- What the steps after the functions of classes define. -/
def closingSymbols (m : Model) : List Symbol :=
  m.enums.map (fun e => .registration (enumRegistration e)) ++ m.classes.flatMap tableSymbols
    ++ [.registration "register_metatables"]

/-- Behind the functions of classes come registrations of enumerations, arrays and the registration of
metatables; the function that opens the module is no static one and defines no symbol. -/
theorem Prepared.defines_closing {s : Spec} {declared : List Class} {module : String} {m : Model}
    (h : Prepared s declared module m) : Defines (closing module m) (closingSymbols m) := by
  have hall := ((h.defines_enums.append (h.defines_tables fun _ hc => hc)).append
    h.shows_metatables.defines).append h.shows_opening.defines
  rwa [List.append_nil] at hall

/-- The parts that the unit of a model is put together from. -/
structure Parts (module : String) (m : Model) where
  head : List Step
  records : List (List Step)
  classes : List (List Step)
  head_eq : unitHead m.headers = .ok head
  records_eq : m.records.mapM (recordFunctions { module, model := m }) = .ok records
  classes_eq : m.classes.mapM (classFunctions { module, model := m }) = .ok classes

/-- The steps of the unit. -/
def Parts.steps {module : String} {m : Model} (p : Parts module m) : List Step :=
  preamble m p.head ++ p.records.flatten ++ p.classes.flatten ++ closing module m

/-- The lines of the unit. The text ends with a line break, so the last one is empty. -/
def Parts.lines {module : String} {m : Model} (p : Parts module m) : List String :=
  writtenLines p.steps ++ [""]

theorem lines_render (steps : List Step) :
    Text.lines (Code.render steps ++ "\n") = writtenLines steps ++ [""] := by
  rw [← String.append_empty (s := _ ++ "\n"), Text.lines_append_break]
  rfl

/-- A text that is rendered comes from the parts of a unit, none of which failed. -/
theorem exists_parts {module text : String} {m : Model} (h : render module m = .ok text) :
    ∃ p : Parts module m, Text.lines text = p.lines := by
  obtain ⟨steps, hunit, h⟩ := Except.bind_eq_ok.mp h
  cases h
  obtain ⟨head, hhead, hunit⟩ := Except.bind_eq_ok.mp hunit
  obtain ⟨records, hrecords, hunit⟩ := Except.bind_eq_ok.mp hunit
  obtain ⟨classes, hclasses, hunit⟩ := Except.bind_eq_ok.mp hunit
  cases hunit
  refine ⟨⟨head, records, classes, hhead, hrecords, hclasses⟩, ?_⟩
  simp only [lines_render, Parts.lines, Parts.steps, preamble, closing, List.append_assoc]

/-! ## Uses -/

namespace Prepared

variable {s : Spec} {declared : List Class} {module : String} {m : Model}

section Places

variable {p : Parts module m} {A P B : List Step} {σA σP σB : List Symbol} {shown : List String}

/-- A part of the unit that uses what the steps before it define. The symbols of the whole unit differ, so each
is opened by one line. -/
theorem placed (h : Prepared s declared module m) {uses : List (String × Symbol)}
    (hsteps : p.steps = A ++ P ++ B) (hσ : unitSymbols m = σA ++ σP ++ σB) (hA : Defines A σA)
    (hP : Shows P σP shown) (hB : Defines B σB) (hne : σP ≠ [] ∨ shown ≠ [])
    (huses : ∀ u ∈ uses, u.1 ∈ shown ∧ u.2 ∈ σA) : Placed p.lines (writtenLines P) uses := by
  obtain ⟨before, after, hlines, hbefore, -, hshown, hlisted⟩ := exists_around hA.shows hP hB hne
  have hall : Listed p.lines (unitSymbols m) := by
    have hlast : Listed [""] [] := .of_not_marked (by simp [mark])
    rw [Parts.lines, hsteps, hlines, hσ]
    simpa using hlisted.append hlast
  refine ⟨before, after ++ [""], by rw [Parts.lines, hsteps, hlines, List.append_assoc _ after], fun u hu => ?_⟩
  obtain ⟨hline, hsymbol⟩ := huses u hu
  have hplain : u.2.Plain := hbefore.plain u.2 hsymbol
  exact ⟨hshown _ hline, hbefore.exists_of_mem hsymbol,
    hall.once (nodup_unitSymbols h.bound h.writable) hplain⟩

/-- A part of the unit behind the preamble, which has the declarations of all records. -/
theorem declared_before (h : Prepared s declared module m)
    (hsteps : p.steps = preamble m p.head ++ A ++ P ++ B) (hA : Defines A σA) (hP : Defines P σP)
    (hB : Defines B σB) (hne : σP ≠ []) : Declared m p.lines (writtenLines P) := by
  obtain ⟨before, after, hlines, -, hdeclared, -⟩ :=
    exists_around ((h.shows_preamble p.head_eq).append hA.shows) hP.shows hB (.inl hne)
  refine ⟨before, after ++ [""], by rw [Parts.lines, hsteps, hlines, List.append_assoc _ after], fun r hr => ⟨?_, ?_⟩⟩
  · exact hdeclared _ (List.mem_append_left _ (List.mem_flatMap.mpr ⟨r, hr, by simp⟩))
  · exact hdeclared _ (List.mem_append_left _ (List.mem_flatMap.mpr ⟨r, hr, by simp⟩))

end Places

variable (h : Prepared s declared module m) (p : Parts module m)
include h

/-- The functions of all records, behind the preamble. -/
theorem defines_front : Defines (preamble m p.head ++ p.records.flatten) (m.records.flatMap recordSymbols) :=
  (h.shows_preamble p.head_eq).defines.append (h.defines_records (fun _ hr => hr) p.records_eq)

/-- The functions of all records and classes. -/
theorem defines_functions : Defines (preamble m p.head ++ p.records.flatten ++ p.classes.flatten)
    (m.records.flatMap recordSymbols ++ m.classes.flatMap classSymbols) :=
  (h.defines_front p).append (h.defines_classes (fun _ hc => hc) p.classes_eq)

/-- The parts around the functions of a class. -/
theorem exists_of_class {c : Class} (hc : c ∈ m.classes) : ∃ before after firsts part lasts,
    m.classes = before ++ c :: after ∧ p.classes = firsts ++ part :: lasts ∧
    classFunctions { module, model := m } c = .ok part ∧
    Defines firsts.flatten (before.flatMap classSymbols) ∧
    Defines lasts.flatten (after.flatMap classSymbols) := by
  obtain ⟨before, after, hsplit⟩ := List.append_of_mem hc
  have hclasses := p.classes_eq
  rw [hsplit] at hclasses
  obtain ⟨firsts, part, lasts, hparts, hfirsts, hpart, hlasts⟩ := Except.mapM_split hclasses
  refine ⟨before, after, firsts, part, lasts, hsplit, hparts, hpart, ?_, ?_⟩
  · exact h.defines_classes (fun d hd => by simp [hsplit, hd]) hfirsts
  · exact h.defines_classes (fun d hd => by simp [hsplit, hd]) hlasts

/-- The parts around the functions of a record. -/
theorem exists_of_record {r : Record} (hr : r ∈ m.records) : ∃ before after firsts part lasts,
    m.records = before ++ r :: after ∧ p.records = firsts ++ part :: lasts ∧
    recordFunctions { module, model := m } r = .ok part ∧
    Defines firsts.flatten (before.flatMap recordSymbols) ∧
    Defines lasts.flatten (after.flatMap recordSymbols) := by
  obtain ⟨before, after, hsplit⟩ := List.append_of_mem hr
  have hrecords := p.records_eq
  rw [hsplit] at hrecords
  obtain ⟨firsts, part, lasts, hparts, hfirsts, hpart, hlasts⟩ := Except.mapM_split hrecords
  refine ⟨before, after, firsts, part, lasts, hsplit, hparts, hpart, ?_, ?_⟩
  · exact h.defines_records (fun d hd => by simp [hsplit, hd]) hfirsts
  · exact h.defines_records (fun d hd => by simp [hsplit, hd]) hlasts

/-- The properties that an index function serves belong to the class or to classes before it, whose wrappers
stand before the index function. -/
theorem placed_index {c : Class} (hc : c ∈ m.classes) :
    Placed p.lines (writtenLines (indexFunction m c)) ((servedProperties m c).map fun x =>
      (indented 1 (propertyCall x), .function (wrapperName x))) := by
  obtain ⟨before, after, firsts, part, lasts, hsplit, hparts, hpart, hfirsts, hlasts⟩ :=
    h.exists_of_class p hc
  obtain ⟨own, rfl, hown⟩ := exists_of_classFunctions (h.writable.oneLine.classes c hc).1
    (h.oneLine_member hc) hpart
  refine h.placed ?_ ?_ (((h.defines_front p).append hfirsts).append hown) (h.shows_index hc)
    (hlasts.append h.defines_closing) (.inl (by simp)) ?_
  · simp [Parts.steps, hparts]
  · simp [unitSymbols, closingSymbols, hsplit, classSymbols]
  · refine List.forall_mem_map.mpr fun x hx => ⟨List.mem_map_of_mem hx, ?_⟩
    -- the property is one of the class itself or of a class before it
    obtain ⟨owner, howner, hx⟩ := List.mem_flatMap.mp hx
    have hmember : Symbol.function (wrapperName x) ∈ memberSymbols owner :=
      List.mem_append_left _ (List.mem_map_of_mem (List.mem_filter.mp hx).1)
    have hbefore := h.bound.mem_before_of_derives hsplit ((h.bound.mem_lineage_iff hc).mp howner)
    rcases List.mem_append.mp hbefore with howner | howner
    · refine List.mem_append_left _ (List.mem_append_right _ (List.mem_flatMap.mpr ⟨owner, howner, ?_⟩))
      exact List.mem_append_left _ hmember
    · rw [List.mem_singleton.mp howner] at hmember
      exact List.mem_append_right _ hmember

/-- All functions of classes stand before the arrays, so an array finds the wrappers and the iterator of its
class defined. -/
theorem placed_methods {c : Class} (hc : c ∈ m.classes) :
    Placed p.lines (writtenLines (functionArray (methodsName c.ref) (instanceFunctions c)))
      ((instanceFunctions c).map fun f => (indented 1 (functionEntry f), .function f.2)) := by
  obtain ⟨before, after, hsplit⟩ := List.append_of_mem hc
  have hbefore := h.defines_tables (l := before) fun d hd => by simp [hsplit, hd]
  have hafter := h.defines_tables (l := after) fun d hd => by simp [hsplit, hd]
  refine h.placed ?_ ?_ (((h.defines_functions p).append h.defines_enums).append hbefore)
    (h.shows_methods hc) ((((h.shows_statics hc).defines.append hafter).append
      h.shows_metatables.defines).append h.shows_opening.defines) (.inl (by simp)) ?_
  · simp [Parts.steps, closing, hsplit, methodTables]
  · simp [unitSymbols, hsplit, tableSymbols]
  · refine List.forall_mem_map.mpr fun f hf => ⟨List.mem_map_of_mem hf, ?_⟩
    have hmember : Symbol.function f.2 ∈ memberSymbols c := by
      unfold instanceFunctions at hf
      rcases List.mem_append.mp hf with hf | hf
      · obtain ⟨x, hx, rfl⟩ := List.mem_map.mp hf
        exact List.mem_append_left _ (List.mem_map_of_mem (List.mem_filter.mp hx).1)
      · refine List.mem_append_right _ ?_
        split at hf
        · cases List.mem_singleton.mp hf
          simp [*]
        · cases hf
    have hfunction : Symbol.function f.2 ∈ m.classes.flatMap classSymbols :=
      List.mem_flatMap.mpr ⟨c, hc, List.mem_append_left _ hmember⟩
    simp only [List.mem_append]
    exact .inl (.inl (.inr hfunction))

/-- As in `placed_methods`: the arrays of a class stand side by side, behind all functions. -/
theorem placed_statics {c : Class} (hc : c ∈ m.classes) :
    Placed p.lines (writtenLines (functionArray (staticsName c.ref) (staticFunctions c)))
      ((staticFunctions c).map fun f => (indented 1 (functionEntry f), .function f.2)) := by
  obtain ⟨before, after, hsplit⟩ := List.append_of_mem hc
  have hbefore := h.defines_tables (l := before) fun d hd => by simp [hsplit, hd]
  have hafter := h.defines_tables (l := after) fun d hd => by simp [hsplit, hd]
  refine h.placed ?_ ?_ ((((h.defines_functions p).append h.defines_enums).append hbefore).append
      (h.shows_methods hc).defines)
    (h.shows_statics hc) ((hafter.append h.shows_metatables.defines).append h.shows_opening.defines)
    (.inl (by simp)) ?_
  · simp [Parts.steps, closing, hsplit, methodTables]
  · simp [unitSymbols, hsplit, tableSymbols]
  · refine List.forall_mem_map.mpr fun f hf => ⟨List.mem_map_of_mem hf, ?_⟩
    obtain ⟨x, hx, rfl⟩ := List.mem_map.mp hf
    have hmember : Symbol.function (wrapperName x) ∈ memberSymbols c :=
      List.mem_append_left _ (List.mem_map_of_mem (List.mem_filter.mp hx).1)
    have hfunction : Symbol.function (wrapperName x) ∈ m.classes.flatMap classSymbols :=
      List.mem_flatMap.mpr ⟨c, hc, List.mem_append_left _ hmember⟩
    simp only [List.mem_append]
    exact .inl (.inl (.inl (.inr hfunction)))

/-- The registration of metatables stands behind all arrays and uses, for each class, the array of its methods
and its index function. -/
theorem placed_metatables :
    Placed p.lines (writtenLines (registerMetatables module m.classes)) (m.classes.flatMap fun c =>
      [(indented 1 (Call.newLib (methodsName c.ref)).text, .array (methodsName c.ref)),
        (indented 1 (Call.pushFunction (indexName c.ref)).text, .function (indexName c.ref))]) := by
  refine h.placed ?_ ?_ (((h.defines_functions p).append h.defines_enums).append
      (h.defines_tables fun _ hc => hc)) h.shows_metatables h.shows_opening.defines (.inl (by simp)) ?_
  · simp [Parts.steps, closing]
  · simp [unitSymbols]
  · refine List.forall_mem_flatMap.mpr fun c hc => ?_
    have hline {call : Call} (hcall : call ∈ registerClass module c) :
        indented 1 call.text ∈ m.classes.flatMap (registrationLines module) := by
      refine List.mem_flatMap.mpr ⟨c, hc, List.mem_map_of_mem (List.mem_append_left _ ?_)⟩
      exact List.mem_map_of_mem hcall
    have hindex : Symbol.function (indexName c.ref) ∈ m.classes.flatMap classSymbols :=
      List.mem_flatMap.mpr ⟨c, hc, by simp [classSymbols]⟩
    have harray : Symbol.array (methodsName c.ref) ∈ m.classes.flatMap tableSymbols :=
      List.mem_flatMap.mpr ⟨c, hc, by simp [tableSymbols]⟩
    simp only [List.forall_mem_cons, List.mem_append]
    refine ⟨⟨hline (by simp [registerClass]), .inr harray⟩, ⟨hline (by simp [registerClass]), ?_⟩, by simp⟩
    exact .inl (.inl (.inr hindex))

/-- The function that opens the module is the last of the unit and uses the registrations and the arrays of
functions without an instance. -/
theorem placed_opening :
    Placed p.lines (writtenLines (openModule module m))
      ((indented 1 "register_metatables(L);", .registration "register_metatables") ::
        m.classes.map (fun c =>
          (indented 1 (Call.newLib (staticsName c.ref)).text, .array (staticsName c.ref)))
        ++ m.enums.map fun e =>
          (indented 1 (enumRegistration e ++ "(L);"), .registration (enumRegistration e))) := by
  refine h.placed ?_ ?_ ((((h.defines_functions p).append h.defines_enums).append
      (h.defines_tables fun _ hc => hc)).append h.shows_metatables.defines) h.shows_opening .nil
    (.inr (by simp [openingTexts])) ?_
  · simp [Parts.steps, closing]
  · simp [unitSymbols]
  · simp only [List.cons_append, List.forall_mem_cons, List.forall_mem_append, List.forall_mem_map]
    refine ⟨⟨by simp [openingTexts], by simp⟩, fun c hc => ⟨List.mem_map_of_mem ?_, ?_⟩,
      fun e he => ⟨List.mem_map_of_mem ?_, ?_⟩⟩
    · simp only [openingTexts, List.mem_append, List.mem_flatMap]
      exact .inl (.inl (.inr ⟨c, hc, by simp⟩))
    · have harray : Symbol.array (staticsName c.ref) ∈ m.classes.flatMap tableSymbols :=
        List.mem_flatMap.mpr ⟨c, hc, by simp [tableSymbols]⟩
      simp only [List.mem_append]
      exact .inl (.inr harray)
    · simp only [openingTexts, List.mem_append]
      exact .inl (.inr (List.mem_map_of_mem he))
    · simp only [List.mem_append]
      exact .inl (.inl (.inr (List.mem_map_of_mem he)))

/-- The adapters of the callables of a record stand directly before the function that reads the record. -/
theorem placed_adapters {r : Record} (hr : r ∈ m.records) :
    ∃ read, readRecord { module, model := m } r = .ok read ∧
      Placed p.lines (writtenLines read) ((r.fields.filter (·.type.isFunction)).map fun f =>
        (indented 2 (adapterCall r f), .reader (adapterName r f))) := by
  have hm := h.writable.oneLine
  obtain ⟨before, after, firsts, part, lasts, hsplit, hparts, hpart, hfirsts, hlasts⟩ :=
    h.exists_of_record p hr
  obtain ⟨own, read, rfl, hown, hread⟩ := exists_of_recordFunctions h.module h.writable h.types hr hpart
  have hshows := shows_readRecord (h.writable.records r hr) (hm.records r hr).1 (hm.records r hr).2
    (hm.fields r hr) hread
  have hrest : Defines p.classes.flatten (m.classes.flatMap classSymbols) :=
    h.defines_classes (fun _ hc => hc) p.classes_eq
  refine ⟨read, hread, h.placed ?_ ?_ (((h.shows_preamble p.head_eq).defines.append hfirsts).append hown)
    hshows ((hlasts.append hrest).append h.defines_closing) (.inl (by simp)) ?_⟩
  · simp [Parts.steps, hparts]
  · simp [unitSymbols, closingSymbols, hsplit, recordSymbols]
  · refine List.forall_mem_map.mpr fun f hf => ⟨List.mem_map_of_mem hf, ?_⟩
    exact List.mem_append_right _ (List.mem_map_of_mem hf)

/-- The functions of a record come behind the preamble, with all declarations before them. -/
theorem declared_record {r : Record} (hr : r ∈ m.records) :
    ∃ part, recordFunctions { module, model := m } r = .ok part ∧ Declared m p.lines (writtenLines part) := by
  obtain ⟨before, after, firsts, part, lasts, -, hparts, hpart, hfirsts, hlasts⟩ := h.exists_of_record p hr
  have hrest : Defines p.classes.flatten (m.classes.flatMap classSymbols) :=
    h.defines_classes (fun _ hc => hc) p.classes_eq
  refine ⟨part, hpart, h.declared_before ?_ hfirsts (h.defines_record hr hpart)
    ((hlasts.append hrest).append h.defines_closing) (by simp [recordSymbols])⟩
  simp [Parts.steps, hparts]

/-- The functions of a class come behind the preamble too, so a conversion in a wrapper finds every record
declared. -/
theorem declared_class {c : Class} (hc : c ∈ m.classes) :
    ∃ part, classFunctions { module, model := m } c = .ok part ∧ Declared m p.lines (writtenLines part) := by
  obtain ⟨before, after, firsts, part, lasts, -, hparts, hpart, hfirsts, hlasts⟩ := h.exists_of_class p hc
  have hrecords : Defines p.records.flatten (m.records.flatMap recordSymbols) :=
    h.defines_records (fun _ hr => hr) p.records_eq
  refine ⟨part, hpart, h.declared_before ?_ (hrecords.append hfirsts) (h.defines_class hc hpart)
    (hlasts.append h.defines_closing) (by simp [classSymbols])⟩
  simp [Parts.steps, hparts]

omit p in
/-- The metatable of a base is made before it is looked up, because `m.classes` has bases first. -/
theorem exists_of_base {c : Class} (hc : c ∈ m.classes) {b : ClassRef} (hb : c.base = some b) :
    ∃ before after, writtenLines (registerMetatables module m.classes) =
        before ++ registrationLines module c ++ after ∧
      indented 1 (Call.newMetatable (metatable module b.name)).text ∈ before ∧
      indented 1 (Call.getMetatable (metatable module b.name)).text ∈ registrationLines module c := by
  have hlines := (writes_registerMetatables fun c hc => h.oneLine_argument hc).writtenLines_eq (by simp)
  have hline {d : Class} {call : Call} (hcall : call ∈ registerClass module d) :
      indented 1 call.text ∈ registrationLines module d :=
    List.mem_map_of_mem (List.mem_append_left _ (List.mem_map_of_mem hcall))
  obtain ⟨d, hd, rfl⟩ := h.bound.exists_base hc hb
  obtain ⟨before, after, hsplit⟩ := List.append_of_mem hc
  have hbefore : d ∈ before := h.bound.mem_before_of_baseOf hsplit ⟨hd, hb⟩
  refine ⟨"static void register_metatables(lua_State* L) \x7b" :: before.flatMap (registrationLines module),
    after.flatMap (registrationLines module) ++ ["\x7d", ""], ?_, ?_, ?_⟩
  · rw [hlines, hsplit]
    simp
  · refine List.mem_cons_of_mem _ (List.mem_flatMap.mpr ⟨d, hbefore, hline ?_⟩)
    simp [registerClass, Class.name]
  · exact hline (by simp [registerClass, hb])

end Prepared

/-! ## The unit -/

/-- The lines of a unit define before they use. -/
structure DefinedBeforeUse (module : String) (m : Model) (ls : List String) : Prop where
  /-- An index function serves the properties of its class and of all that the class derives from. -/
  served : ∀ c ∈ m.classes, ∀ x, x ∈ servedProperties m c ↔
    ∃ owner, m.Derives c owner ∧ x ∈ owner.methods ∧ x.isProperty
  index : ∀ c ∈ m.classes, Placed ls (writtenLines (indexFunction m c)) ((servedProperties m c).map fun x =>
    (indented 1 (propertyCall x), .function (wrapperName x)))
  methods : ∀ c ∈ m.classes,
    Placed ls (writtenLines (functionArray (methodsName c.ref) (instanceFunctions c)))
      ((instanceFunctions c).map fun f => (indented 1 (functionEntry f), .function f.2))
  statics : ∀ c ∈ m.classes,
    Placed ls (writtenLines (functionArray (staticsName c.ref) (staticFunctions c)))
      ((staticFunctions c).map fun f => (indented 1 (functionEntry f), .function f.2))
  metatables : Placed ls (writtenLines (registerMetatables module m.classes)) (m.classes.flatMap fun c =>
    [(indented 1 (Call.newLib (methodsName c.ref)).text, .array (methodsName c.ref)),
      (indented 1 (Call.pushFunction (indexName c.ref)).text, .function (indexName c.ref))])
  /-- The metatable of a base is made before the lines of the class that look it up. -/
  bases : ∀ c ∈ m.classes, ∀ b, c.base = some b →
    ∃ before after, writtenLines (registerMetatables module m.classes) =
        before ++ registrationLines module c ++ after ∧
      indented 1 (Call.newMetatable (metatable module b.name)).text ∈ before ∧
      indented 1 (Call.getMetatable (metatable module b.name)).text ∈ registrationLines module c
  opening : Placed ls (writtenLines (openModule module m))
    ((indented 1 "register_metatables(L);", .registration "register_metatables") ::
      m.classes.map (fun c =>
        (indented 1 (Call.newLib (staticsName c.ref)).text, .array (staticsName c.ref)))
      ++ m.enums.map fun e =>
        (indented 1 (enumRegistration e ++ "(L);"), .registration (enumRegistration e)))
  adapters : ∀ r ∈ m.records, ∃ read, readRecord { module, model := m } r = .ok read ∧
    Placed ls (writtenLines read) ((r.fields.filter (·.type.isFunction)).map fun f =>
      (indented 2 (adapterCall r f), .reader (adapterName r f)))
  /-- Conversions stand in the functions of records and classes only. -/
  recordsDeclared : ∀ r ∈ m.records, ∃ part, recordFunctions { module, model := m } r = .ok part ∧
    Declared m ls (writtenLines part)
  classesDeclared : ∀ c ∈ m.classes, ∃ part, classFunctions { module, model := m } c = .ok part ∧
    Declared m ls (writtenLines part)
  /-- The functions that a record is converted by are the declared ones. -/
  recordCalls : ∀ r ∈ m.records, CallsDeclared r (Converter.convert { module, model := m } (.record r.ref))
  /-- A conversion stays the same over any rule for records that calls the declared functions of those of the
  model. So it calls these, and no functions of other records. -/
  conversions : ∀ t, Converted m t → ∀ ρ : EntityRef → Conversion,
    (∀ r ∈ m.records, CallsDeclared r (ρ r.ref)) →
      Converter.convertWith { module, model := m } ρ t = Converter.convert { module, model := m } t

/-- **A unit defines before it uses.** The lines that `render` writes for a bound document with texts of one line
are `DefinedBeforeUse`: each part finds what it uses defined by exactly one line before it, and each conversion
finds the functions of records declared. -/
theorem definedBeforeUse {doc : Document.Entries} {s : Spec} {m : Model} {module text : String}
    (hdoc : Spec.ofDocument doc = .ok s) (hmodel : Model.ofSpec s = .ok m) (hmodule : OneLine module)
    (hwritable : Writable m) (htext : render module m = .ok text) :
    DefinedBeforeUse module m (Text.lines text) := by
  obtain ⟨declared, hbound⟩ := Model.ofSpec_eq_ok.mp hmodel
  have h : Prepared s declared module m :=
    ⟨hbound, hmodule, hwritable, hbound.oneLineTypes hwritable.oneLine hdoc⟩
  obtain ⟨p, hlines⟩ := exists_parts htext
  rw [hlines]
  exact {
    served := fun c hc x => by simp [servedProperties, hbound.mem_lineage_iff hc]
    index := fun c hc => h.placed_index p hc
    methods := fun c hc => h.placed_methods p hc
    statics := fun c hc => h.placed_statics p hc
    metatables := h.placed_metatables p
    bases := fun c hc b hb => h.exists_of_base hc hb
    opening := h.placed_opening p
    adapters := fun r hr => h.placed_adapters p hr
    recordsDeclared := fun r hr => h.declared_record p hr
    classesDeclared := fun c hc => h.declared_class p hc
    recordCalls := fun r _ => callsDeclared_iff.mpr rfl
    conversions := fun t ht ρ hρ =>
      Converter.convertWith_eq_convert hbound (fun r hr => callsDeclared_iff.mp (hρ r hr))
        (boundWithin_of_converted hbound ht) }

instance (m : Model) : Decidable m.OneLine :=
  decidable_of_iff ((∀ h ∈ m.headers, OneLine h.text) ∧
      (∀ c ∈ m.classes, OneLine c.name ∧ OneLine c.ref.native.text) ∧
      (∀ c ∈ m.classes, ∀ x ∈ c.methods, OneLine x.uniqueName ∧ OneLine x.native.text) ∧
      (∀ r ∈ m.records, OneLine r.ref.name ∧ OneLine r.ref.native.text) ∧
      (∀ r ∈ m.records, ∀ f ∈ r.fields, OneLine f.name.text ∧ OneLine f.native.text) ∧
      (∀ e ∈ m.enums, OneLine e.ref.name ∧ OneLine e.ref.native.text) ∧
      (∀ e ∈ m.enums, ∀ x ∈ e.enumerators, OneLine x.1.text ∧ OneLine x.2.text) ∧
      (∀ k ∈ m.keyTypes, OneLine k.1) ∧ (∀ n ∈ m.opaqueTypes, OneLine n) ∧
      ∀ g ∈ m.mixed.getters, OneLine g.dataType.text ∧ OneLine g.getter)
    ⟨fun ⟨h₁, h₂, h₃, h₄, h₅, h₆, h₇, h₈, h₉, h₁₀⟩ => ⟨h₁, h₂, h₃, h₄, h₅, h₆, h₇, h₈, h₉, h₁₀⟩,
      fun ⟨h₁, h₂, h₃, h₄, h₅, h₆, h₇, h₈, h₉, h₁₀⟩ => ⟨h₁, h₂, h₃, h₄, h₅, h₆, h₇, h₈, h₉, h₁₀⟩⟩

instance (m : Model) : Decidable (Writable m) :=
  decidable_of_iff (m.OneLine ∧ (∀ r ∈ m.records, ' ' ∉ r.ref.name.toList) ∧
      (∀ r ∈ m.records, ∀ f ∈ r.fields, ' ' ∉ f.name.text.toList) ∧
      ∀ r ∈ m.records, (r.fields.map (·.name.text)).Nodup)
    ⟨fun ⟨h₁, h₂, h₃, h₄⟩ => ⟨h₁, h₂, h₃, h₄⟩, fun ⟨h₁, h₂, h₃, h₄⟩ => ⟨h₁, h₂, h₃, h₄⟩⟩

/-- The document has a unit, and its model and steps pass the check. -/
def passes (module : String) (doc : Document.Entries) (check : Model → List Step → Bool) : Bool :=
  match Spec.ofDocument doc with
  | .error _ => false
  | .ok s =>
    match Model.ofSpec s with
    | .error _ => false
    | .ok m =>
      match unit module m with
      | .error _ => false
      | .ok steps => check m steps

/-- What `passes` runs is what the theorem is about: the document is read and bound, and its unit rendered. So
one evaluation gives all three equations. -/
theorem exists_of_passes {module : String} {doc : Document.Entries} {check : Model → List Step → Bool}
    (h : passes module doc check = true) :
    ∃ s m steps, Spec.ofDocument doc = .ok s ∧ Model.ofSpec s = .ok m ∧
      render module m = .ok (Code.render steps ++ "\n") ∧ check m steps = true := by
  unfold passes at h
  split at h
  · cases h
  · rename_i s hs
    split at h
    · cases h
    · rename_i m hm
      split at h
      · cases h
      · rename_i steps hsteps
        exact ⟨s, m, steps, hs, hm, Except.bind_eq_ok.mpr ⟨steps, hsteps, rfl⟩, h⟩

/-- A document with what a unit can hold: a class, an iterable one derived from it, members of each kind, a
record with a callable and one that holds it, and an enumeration. -/
def journal : Document.Entries := [
  (.str "headers", .list [.str "<journal.hpp>"]),
  (.str "primitives", .list [.str "void", .str "int"]),
  (.str "templates", .map [(.str "std::function", .int 1)]),
  (.str "enums", .map [(.str "Level", .map [(.str "values", .list [.str "low", .str "high"])])]),
  (.str "records", .map [
    (.str "Options", .map [(.str "fields", .map [
      (.str "limit", .str "int"), (.str "onEntry", .str "std::function<(n: int) -> void>")])]),
    (.str "Setup", .map [(.str "fields", .map [(.str "options", .str "Options")])])]),
  (.str "classes", .map [
    (.str "Diary", .map [(.str "base", .str "Journal"), (.str "iterable", .str "Options"),
      (.str "properties", .map [(.str "owner", .str "int")])]),
    (.str "Journal", .map [
      (.str "methods", .map [(.str "append", .str "(setup: Setup) -> void")]),
      (.str "staticMethods", .map [(.str "open", .str "(level: Level) -> int")]),
      (.str "properties", .map [(.str "size", .str "int")])])])]

/-- The unit of `journal` defines before it uses, with all its parts. -/
theorem definedBeforeUse_journal :
    ∃ s m text, Spec.ofDocument journal = .ok s ∧ Model.ofSpec s = .ok m ∧ OneLine "app" ∧ Writable m ∧
      render "app" m = .ok text ∧ DefinedBeforeUse "app" m (Text.lines text) := by
  have hpasses : passes "app" journal (fun m _ => decide (Writable m)) = true := by decide +kernel
  obtain ⟨s, m, steps, hdoc, hmodel, htext, hcheck⟩ := exists_of_passes hpasses
  have hwritable : Writable m := of_decide_eq_true hcheck
  have hmodule : OneLine "app" := by decide
  exact ⟨s, m, _, hdoc, hmodel, hmodule, hwritable, htext,
    definedBeforeUse hdoc hmodel hmodule hwritable htext⟩

/-! ## Texts of several lines -/

/-- Names are identifiers, and differ within a record; native names hold no line break. -/
structure Named (m : Model) : Prop where
  classes : ∀ c ∈ m.classes, isName c.name ∧ OneLine c.ref.native.text
  members : ∀ c ∈ m.classes, ∀ x ∈ c.methods, isName x.name.text ∧ OneLine x.native.text
  records : ∀ r ∈ m.records, isName r.ref.name ∧ OneLine r.ref.native.text
  fields : ∀ r ∈ m.records, ∀ f ∈ r.fields, isName f.name.text ∧ OneLine f.native.text
  distinct : ∀ r ∈ m.records, (r.fields.map (·.name.text)).Nodup
  enums : ∀ e ∈ m.enums, isName e.ref.name ∧ OneLine e.ref.native.text
  keyTypes : ∀ k ∈ m.keyTypes, isName k.1
  opaqueTypes : ∀ n ∈ m.opaqueTypes, isName n

instance (m : Model) : Decidable (Named m) :=
  decidable_of_iff ((∀ c ∈ m.classes, isName c.name ∧ OneLine c.ref.native.text) ∧
      (∀ c ∈ m.classes, ∀ x ∈ c.methods, isName x.name.text ∧ OneLine x.native.text) ∧
      (∀ r ∈ m.records, isName r.ref.name ∧ OneLine r.ref.native.text) ∧
      (∀ r ∈ m.records, ∀ f ∈ r.fields, isName f.name.text ∧ OneLine f.native.text) ∧
      (∀ r ∈ m.records, (r.fields.map (·.name.text)).Nodup) ∧
      (∀ e ∈ m.enums, isName e.ref.name ∧ OneLine e.ref.native.text) ∧
      (∀ k ∈ m.keyTypes, isName k.1) ∧ ∀ n ∈ m.opaqueTypes, isName n)
    ⟨fun ⟨h₁, h₂, h₃, h₄, h₅, h₆, h₇, h₈⟩ => ⟨h₁, h₂, h₃, h₄, h₅, h₆, h₇, h₈⟩,
      fun ⟨h₁, h₂, h₃, h₄, h₅, h₆, h₇, h₈⟩ => ⟨h₁, h₂, h₃, h₄, h₅, h₆, h₇, h₈⟩⟩

/-- The line that opens the index function of a class. -/
def indexLine (c : Class) : String := "static int " ++ indexName c.ref ++ "(lua_State* L) \x7b"

/-- Where two lines open an index function, its definition does not occur once, which `Placed` would ask for. -/
theorem not_definedBeforeUse {module : String} {m : Model} {ls : List String} {c : Class}
    (hc : c ∈ m.classes) (hcount : 2 ≤ ls.count (indexLine c)) : ¬DefinedBeforeUse module m ls := by
  intro h
  obtain ⟨before, after, -, huses⟩ := h.metatables
  have honce := (huses (indented 1 (Call.pushFunction (indexName c.ref)).text, .function (indexName c.ref))
    (List.mem_flatMap.mpr ⟨c, hc, by simp⟩)).2.2
  have htwice : [indexLine c, indexLine c].Sublist ls := List.replicate_sublist_iff.mpr hcount
  have hpair := List.rel_of_pairwise_cons (honce.sublist htwice) List.mem_cons_self
  exact hpair ⟨rfl, rfl⟩

/-- A text that ends with a line like the one that opens the index function of a class `A`. -/
def broken (text : String) : String := text ++ "\nstatic int l_A__index(lua_State* L) \x7b\n"

/-- A document with a class `A` behind other tables. -/
def boxed (tables members : Document.Entries) : Document.Entries :=
  tables ++ [(.str "classes", .map [(.str "A", .map members)])]

/-- A document with a record whose callable takes a `Mixed` of one alternative. -/
def boxedMixed (dataType getter : String) : Document.Entries :=
  boxed [
    (.str "primitives", .list [.str "void", .str "int", .str "Mixed"]),
    (.str "templates", .map [(.str "std::function", .int 1)]),
    (.str "records", .map [(.str "R", .map [
      (.str "fields", .map [(.str "f", .str "std::function<(m: Mixed) -> void>")])])]),
    (.str "mixedInfo", .map [(.str "dataTypes", .map [(.str dataType, .map [
      (.str "type", .str "int"), (.str "getter", .str getter)])])])] []

/-- Modules with a line break in a header, the name of the module, the name or the value of an enumerator,
the suffix of an overload, and the name or the getter of an alternative of `Mixed`. -/
def brokenModules : List (String × Document.Entries) := [
  ("app", boxed [(.str "headers", .list [.str (broken "<a.hpp>")])] []),
  (broken "app", boxed [] []),
  ("app", boxed [(.str "enums", .map [(.str "E", .map [
    (.str "values", .map [(.str (broken "x"), .int 0)])])])] []),
  ("app", boxed [(.str "enums", .map [(.str "E", .map [
    (.str "values", .map [(.str "x", .str (broken "0"))])])])] []),
  ("app", boxed [(.str "primitives", .list [.str "void"])] [(.str "methods", .map [(.str "f", .map [
    (.str "sig", .str "() -> void"), (.str "suffix", .str (broken "x"))])])]),
  ("app", boxedMixed (broken "Int") "get_int"),
  ("app", boxedMixed "Int" (broken "get_int"))]

/-- The characters of an ASCII text, which are its bytes; to decode them is slow. -/
def asciiChars (s : String) : List Char := s.toByteArray.data.toList.map fun b => Char.ofNat b.toNat

/-- The text is ASCII and holds the line. -/
def asciiHolds (l t : String) : Bool :=
  decide (l.toList ∈ Text.splitLines (asciiChars t) ∧ String.ofList (asciiChars t) = t)

theorem mem_lines_of_asciiHolds {l t : String} (h : asciiHolds l t) : l ∈ Text.lines t := by
  obtain ⟨hmem, hascii⟩ := of_decide_eq_true h
  have hchars : t.toList = asciiChars t := by
    rw [← String.toList_ofList (l := asciiChars t), hascii]
  have hline : String.ofList l.toList ∈ Text.lines t := by
    rw [Text.lines, hchars]
    exact List.mem_map_of_mem hmem
  rwa [String.ofList_toList] at hline

/-- Texts that hold the line are counted one by one, although a text may hold it more than once; a lower bound
is enough here. -/
theorem countP_asciiHolds_le (l : String) (ts : List String) :
    ts.countP (asciiHolds l) ≤ (ts.flatMap Text.lines).count l := by
  induction ts with
  | nil => exact Nat.le_refl _
  | cons t ts ih =>
    rw [List.countP_cons, List.flatMap_cons, List.count_append, Nat.add_comm]
    refine Nat.add_le_add ?_ ih
    split
    · rename_i hholds
      exact List.one_le_count_iff.mpr (mem_lines_of_asciiHolds hholds)
    · exact Nat.zero_le _

/-- Each document of `brokenModules` has a unit with two lines that open the index function of its class. This
is checked by evaluation. -/
theorem passes_broken : ∀ d ∈ brokenModules, passes d.1 d.2 (fun m steps => decide (Named m ∧
    ∃ c ∈ m.classes, 2 ≤ (Code.Builder.run {} steps).lines.toList.countP (asciiHolds (indexLine c)))) = true := by
  decide +kernel

/-- Every hypothesis on texts of one line is needed: for each text that a line break can enter, `brokenModules`
has a document with identifiers for names whose unit is not `DefinedBeforeUse`. -/
theorem not_definedBeforeUse_broken :
    brokenModules.Forall fun d => ∃ s m text, Spec.ofDocument d.2 = .ok s ∧ Model.ofSpec s = .ok m ∧
      Named m ∧ render d.1 m = .ok text ∧ ¬DefinedBeforeUse d.1 m (Text.lines text) := by
  refine List.forall_iff_forall_mem.mpr fun d hd => ?_
  obtain ⟨s, m, steps, hdoc, hmodel, htext, hcheck⟩ := exists_of_passes (passes_broken d hd)
  obtain ⟨hnamed, c, hc, htwice⟩ := of_decide_eq_true hcheck
  have hlines : (Code.Builder.run {} steps).lines.toList ≠ [] := by
    intro hnil
    simp [hnil] at htwice
  have hcount := htwice.trans (countP_asciiHolds_le _ _)
  rw [← Code.writtenLines_eq_flatMap hlines] at hcount
  refine ⟨s, m, _, hdoc, hmodel, hnamed, htext, not_definedBeforeUse hc (hcount.trans ?_)⟩
  rw [lines_render, List.count_append]
  exact Nat.le_add_right _ _

end LuaGlue.Lua
