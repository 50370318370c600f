import LuaGlue.Lua.Module
import LuaGlue.Proofs.Lua.CallingConvention
import LuaGlue.Proofs.Lua.Symbols

/-!
# The definitions of a unit

What each function of the unit defines, in names that hold no line break, and the lines of it that use what
others define.

- **Records** (`exists_of_recordFunctions`, `shows_readRecord`): the adapters of its callables, then the
  function that reads it and calls them.
- **Classes** (`exists_of_classFunctions`, `shows_indexFunction`): the wrappers of its members and the
  iterator, then the index function, which calls those of properties.
- **Tables** (`shows_functionArray`, `writes_registerMetatables`, `shows_openModule`): arrays of functions,
  their registration, and the function that opens the module.
-/

namespace LuaGlue.Lua

open Code (Step Inside)
open Document (Value)
open Text (OneLine)

theorem oneLine_displayName {f : Field} (hf : OneLine f.name.text) {name : String}
    (h : f.displayName = .ok name) : OneLine name := by
  rw [Field.displayName] at h
  split at h
  case h_1 text heq =>
    cases h
    rw [heq] at hf
    exact Text.oneLine_snakeCase hf
  case h_2 => cases h

/-! ## Head -/

/-- The head of the unit defines nothing: its lines are directives and comments, and a header on one line does
not change this. -/
theorem defines_unitHead {headers : List Value} (hheaders : ∀ h ∈ headers, OneLine h.text)
    {steps : List Step} (h : unitHead headers = .ok steps) : Defines steps [] := by
  obtain ⟨includes, hincludes, h⟩ := Except.bind_eq_ok.mp h
  cases h
  refine .lines ?_
  simp only [List.forall_mem_append, List.forall_mem_cons, List.not_mem_nil, false_imp_iff, implies_true,
    and_true]
  refine ⟨⟨⟨.line ?_, .line ?_, .line ?_, .blank⟩, fun st hst => ?_⟩, .line ?_, .blank, .line ?_, .line ?_,
    .line ?_, .line ?_, .line ?_, .line ?_, .line ?_, .blank⟩
  case refine_4 =>
    obtain ⟨header, hheader, hst⟩ := Except.exists_of_mem_mapM hincludes hst
    have hline := calm _ (hheaders header hheader)
    unfold includeHeader at hst
    split at hst
    · cases hst
      split
      · exact .line (.on (.literal (by decide)) hline)
      · exact .line (.around (.literal (by decide)) hline (.literal (by decide)))
    · cases hst
  all_goals exact .literal (by decide)

/-! ## Enumerations -/

/-- The word `static_assert` begins like `static` and goes on differently, so a check is no definition. -/
theorem defines_enumChecks {e : Enumeration} (hname : OneLine e.ref.name)
    (hnative : OneLine e.ref.native.text)
    (hvalues : ∀ x ∈ e.enumerators, OneLine x.1.text ∧ OneLine x.2.text) : Defines (enumChecks e) [] := by
  have hchecks : Defines (e.enumerators.map fun x =>
      Step.line ("static_assert(int64_t(" ++ e.ref.native.text ++ "::" ++ x.1.text ++ ") == "
        ++ x.2.text ++ ", \"" ++ e.ref.name ++ "." ++ x.1.text ++ " has an unexpected value\");")) [] := by
    refine .lines (List.forall_mem_map.mpr fun x hx => .line ?_)
    obtain ⟨hkey, hvalue⟩ := hvalues x hx
    refine .around (.around (.around (.around (.around ?_ (calm _ hnative) ?_) (calm _ hkey) ?_)
      (calm _ hvalue) ?_) (calm _ hname) ?_) (calm _ hkey) ?_ <;> exact .literal (by decide)
  simp only [enumChecks]
  split
  · exact .nil
  · exact hchecks.append .blank

/-- The text that a call is given. -/
def Call.argument : Call → String
  | .newMetatable name => name
  | .newLib array => array
  | .createTable _ _ => ""
  | .getMetatable name => name
  | .getField _ key => key
  | .setField _ key => key
  | .setMetatable _ => ""
  | .pushFunction function => function
  | .pop _ => ""

/-- The text of a call is fixed but for its `argument` and numbers. -/
theorem Call.oneLine_text {call : Call} (h : OneLine call.argument) : OneLine call.text := by
  have hnat (n : Nat) := Text.oneLine_toString n
  have hint (i : Int) := Text.oneLine_toString_int i
  unfold Call.text
  cases call <;> simp only [Text.oneLine_append]
  case newMetatable name => refine ⟨⟨?_, h⟩, ?_⟩ <;> exact .literal (by decide)
  case newLib array => refine ⟨⟨?_, h⟩, ?_⟩ <;> exact .literal (by decide)
  case createTable sequence fields =>
    refine ⟨⟨⟨⟨?_, hnat _⟩, ?_⟩, hnat _⟩, ?_⟩ <;> exact .literal (by decide)
  case getMetatable name => refine ⟨⟨?_, h⟩, ?_⟩ <;> exact .literal (by decide)
  case getField index key => refine ⟨⟨⟨⟨?_, hint _⟩, ?_⟩, h⟩, ?_⟩ <;> exact .literal (by decide)
  case setField index key => refine ⟨⟨⟨⟨?_, hint _⟩, ?_⟩, h⟩, ?_⟩ <;> exact .literal (by decide)
  case setMetatable index => refine ⟨⟨?_, hint _⟩, ?_⟩ <;> exact .literal (by decide)
  case pushFunction function => refine ⟨⟨?_, h⟩, ?_⟩ <;> exact .literal (by decide)
  case pop count => refine ⟨⟨?_, hnat _⟩, ?_⟩ <;> exact .literal (by decide)

/-- The function that registers an enumeration opens its own definition, and what is inside is indented. -/
theorem defines_registerEnum {e : Enumeration} (hname : OneLine e.ref.name)
    (hvalues : ∀ x ∈ e.enumerators, OneLine x.1.text ∧ OneLine x.2.text) :
    Defines (registerEnum e) [.registration (enumRegistration e)] := by
  refine .block (.opens trivial rfl .nil) ?_ ?_
  · simpa [enumRegistration, OneLine] using hname
  · refine .cons (Call.oneLine_text (.literal (by decide))) (.append (.flatMap fun x hx => ?_) (.line ?_))
    · obtain ⟨hkey, hvalue⟩ := hvalues x hx
      refine .cons ?_ (.line (Call.oneLine_text hkey))
      simpa [OneLine] using hvalue
    · exact Call.oneLine_text hname

/-! ## Records -/

section Records

variable {c : Converter} {r : Record} {f : Field}

/-- The name of the function that reads the table of a record. -/
def readerName (r : Record) : String := "to_struct_" ++ r.ref.name

theorem oneLine_pushHead (hname : OneLine r.ref.name) (hnative : OneLine r.ref.native.text) :
    OneLine (pushHead r) := by
  unfold pushHead
  simp only [Text.oneLine_append]
  refine ⟨⟨⟨⟨?_, hname⟩, ?_⟩, hnative⟩, ?_⟩ <;> exact .literal (by decide)

theorem oneLine_readHead (hname : OneLine r.ref.name) (hnative : OneLine r.ref.native.text) :
    OneLine (readHead r) := by
  unfold readHead
  simp only [Text.oneLine_append]
  refine ⟨⟨⟨⟨?_, hnative⟩, ?_⟩, hname⟩, ?_⟩ <;> exact .literal (by decide)

/-- A line with an ending of its own opens nothing, since definitions end with a brace. -/
theorem listed_of_ending {l : String} (cs : List Char) (hsuffix : cs <:+ l.toList)
    (hlen : cs.length = 4) (hcs : ∀ σ : Symbol, σ.ending ≠ cs) : Listed [l] [] :=
  .other (fun σ hσ => hcs σ (hσ.ending_eq hsuffix hlen)) .nil

/-- Declarations begin like definitions and end with a semicolon, so they define nothing by `listed_of_ending`.
-/
theorem shows_declareRecord (hname : OneLine r.ref.name) (hnative : OneLine r.ref.native.text) :
    Shows (declareRecord r) [] [pushHead r ++ ";", readHead r ++ ";"] := by
  have hpush : Listed [pushHead r ++ ";"] [] := by
    unfold pushHead
    refine listed_of_ending ['u', 'e', ')', ';'] ?_ rfl fun σ => ?_
    · exact ⟨("static void push_struct_" ++ r.ref.name ++ "(lua_State* L, const " ++ r.ref.native.text
        ++ "& val").toList, by simp⟩
    · cases σ <;> simp [Symbol.ending]
  have hread : Listed [readHead r ++ ";"] [] := by
    unfold readHead
    refine listed_of_ending ['d', 'x', ')', ';'] ?_ rfl fun σ => ?_
    · exact ⟨("static " ++ r.ref.native.text ++ " to_struct_" ++ r.ref.name
        ++ "(lua_State* L, int i").toList, by simp⟩
    · cases σ <;> simp [Symbol.ending]
  have hpushLine : OneLine (pushHead r ++ ";") :=
    Text.oneLine_append.mpr ⟨oneLine_pushHead hname hnative, by decide⟩
  have hreadLine : OneLine (readHead r ++ ";") :=
    Text.oneLine_append.mpr ⟨oneLine_readHead hname hnative, by decide⟩
  refine ⟨[pushHead r ++ ";"] ++ [readHead r ++ ";"], ?_, hpush.append hread, fun _ hl => hl⟩
  simpa [declareRecord] using (Code.Writes.line (k := 0) hpushLine).append (.line hreadLine)

/-- What an adapter returns may go over several lines, but none of them opens anything, by `Conversion.Quiet`.
-/
theorem not_marked_of_calm {t : String} (h : Calm t) :
    ∀ l ∈ Text.lines (Code.indented 1 t), ¬mark <+: l.toList := by
  unfold Code.indented
  split
  · simp [Text.lines, Text.splitLines, mark]
  · exact Text.not_prefix_of_reads (Flows.on (.literal (by decide)) h) (by decide)

/-- The adapter of a callable is a definition whose name holds no blank, so it can be told from the spelling of
the type in front of it. -/
theorem defines_fieldAdapter (hrecord : ' ' ∉ r.ref.name.toList ∧ OneLine r.ref.name)
    (hfield : ' ' ∉ f.name.text.toList ∧ OneLine f.name.text) (htype : f.type.OneLine)
    (hquiet : (c.convert f.type).Quiet) {steps : List Step} (h : fieldAdapter c r f = .ok steps) :
    Defines steps [.reader (adapterName r f)] := by
  obtain ⟨type, hcpp, h⟩ := Except.bind_eq_ok.mp h
  obtain ⟨value, hvalue, h⟩ := Except.bind_eq_ok.mp h
  cases h
  have hplain : (Symbol.reader (adapterName r f)).Plain := by
    unfold Symbol.Plain adapterName
    simp [hrecord.1, hfield.1]
  have hline : OneLine ("static " ++ type ++ " " ++ adapterName r f ++ "(lua_State* L, int idx) \x7b") := by
    unfold adapterName
    simp only [Text.oneLine_append]
    refine ⟨⟨⟨⟨?_, htype.bare.cppText hcpp⟩, ?_⟩, ⟨⟨?_, hrecord.2⟩, ?_⟩, hfield.2⟩, ?_⟩ <;>
      exact .literal (by decide)
  have hreturn : Calm ("return " ++ value ++ ";") :=
    .around (.literal (by decide)) (hquiet.fromHost (.literal (by decide)) hvalue) (.literal (by decide))
  refine ⟨_, writes_block hline (.text _), .block (.opens hplain ⟨type, rfl⟩ .nil) ?_⟩
  exact .of_not_marked (not_marked_of_calm hreturn)

/-- The lines that push a field are written inside a function and are indented, whatever the conversion gives.
-/
theorem inside_pushField (hf : OneLine f.name.text) {steps : List Step} (h : pushField c f = .ok steps) :
    Inside steps := by
  obtain ⟨push, -, h⟩ := Except.bind_eq_ok.mp h
  obtain ⟨name, hname, h⟩ := Except.bind_eq_ok.mp h
  cases h
  refine .append (.lines _) (.line ?_)
  simpa [OneLine] using oneLine_displayName hf hname

/-- The function that pushes a record is not static and defines no symbol. -/
theorem defines_pushRecord (hname : OneLine r.ref.name) (hnative : OneLine r.ref.native.text)
    (hfields : ∀ f ∈ r.fields, OneLine f.name.text) {steps : List Step} (h : pushRecord c r = .ok steps) :
    Defines steps [] := by
  obtain ⟨pushes, hpushes, h⟩ := Except.bind_eq_ok.mp h
  cases h
  refine .block ?_ (Text.oneLine_append.mpr ⟨oneLine_pushHead hname hnative, by decide⟩) ?_
  · unfold pushHead
    refine listed_of_ending ['e', ')', ' ', '\x7b'] ?_ rfl fun σ => ?_
    · exact ⟨("static void push_struct_" ++ r.ref.name ++ "(lua_State* L, const " ++ r.ref.native.text
        ++ "& valu").toList, by simp⟩
    · cases σ <;> simp [Symbol.ending]
  · refine .cons ?_ (.flatten fun part hpart => ?_)
    · simpa [OneLine] using Text.oneLine_toString _
    · obtain ⟨f, hf, hpush⟩ := Except.exists_of_mem_mapM hpushes hpart
      exact inside_pushField (hfields f (List.mem_filter.mp hf).1) hpush

/-- The statement that reads a callable through its adapter. -/
def adapterCall (r : Record) (f : Field) : String :=
  "out." ++ f.native.text ++ " = " ++ (adapterName r f ++ "(L, -1)") ++ ";"

theorem oneLine_adapterCall (hname : OneLine r.ref.name)
    (hfield : OneLine f.name.text ∧ OneLine f.native.text) : OneLine (adapterCall r f) := by
  unfold adapterCall adapterName
  simp only [Text.oneLine_append]
  refine ⟨⟨⟨⟨?_, hfield.2⟩, ?_⟩, ⟨⟨⟨?_, hname⟩, ?_⟩, hfield.1⟩, ?_⟩, ?_⟩ <;> exact .literal (by decide)

/-- Reading a field takes inner lines; a callable is read by a call of its adapter, the `adapterCall`. -/
theorem writes_readField (hname : OneLine r.ref.name)
    (hfield : OneLine f.name.text ∧ OneLine f.native.text) {steps : List Step}
    (h : readField c r f = .ok steps) :
    ∃ ls, Code.Writes 1 steps ls ∧ (∀ l ∈ ls, Code.Inner l) ∧
      (f.type.isFunction → Code.indented 2 (adapterCall r f) ∈ ls) := by
  obtain ⟨name, hdisplay, h⟩ := Except.bind_eq_ok.mp h
  obtain ⟨value, hvalue, h⟩ := Except.ite_bind_eq_ok.mp h
  cases h
  have hdisplay := oneLine_displayName hfield.1 hdisplay
  -- the lines around the assignment do not depend on how the field is read
  obtain ⟨before, hbefore, hopen⟩ : ∃ ls, Code.Writes 1
      [.line ("lua_getfield(L, idx, \"" ++ name ++ "\");"), .line "if (!lua_isnil(L, -1)) \x7b"] ls ∧
        ∀ l ∈ ls, Code.Inner l := by
    refine Inside.cons ?_ (.line (.literal (by decide))) 0
    simpa [OneLine] using hdisplay
  obtain ⟨after, hafter, hclose⟩ : ∃ ls, Code.Writes 1
      ((if f.required then
          [.line "\x7d else \x7b"] ++ (.indent ::
            [.line ("luaL_error(L, \"" ++ r.ref.name ++ "." ++ name ++ " is required\");")] ++ [.dedent])
        else [])
      ++ [.line "\x7d", .line "lua_pop(L, 1);"]) ls ∧ ∀ l ∈ ls, Code.Inner l := by
    refine Inside.append ?_ (.cons ?_ (.line ?_)) 0
    · split
      · refine .append (.line (.literal (by decide))) (.deeper (.line ?_))
        simp only [Text.oneLine_append]
        refine ⟨⟨⟨⟨?_, hname⟩, ?_⟩, hdisplay⟩, ?_⟩ <;> exact .literal (by decide)
      · exact .nil
    · exact .literal (by decide)
    · exact .literal (by decide)
  have hread := Code.Writes.deeper (k := 1) (.lines ("out." ++ f.native.text ++ " = " ++ value ++ ";"))
  refine ⟨before ++ (Text.lines ("out." ++ f.native.text ++ " = " ++ value ++ ";")).map (Code.indented 2)
    ++ after, by simpa using (hbefore.append hread).append hafter, ?_, fun hfunction => ?_⟩
  · simp only [List.forall_mem_append, List.forall_mem_map]
    exact ⟨⟨hopen, fun l _ => Code.inner_indented 1 l⟩, hclose⟩
  -- a callable is not converted here, so the assignment is a single line
  · rw [if_pos hfunction] at hvalue
    cases hvalue
    have hcall : Text.lines ("out." ++ f.native.text ++ " = " ++ (adapterName r f ++ "(L, -1)") ++ ";") =
        [adapterCall r f] := Text.lines_of_oneLine (oneLine_adapterCall hname hfield)
    simp [hcall]

/-- Reading the fields takes inner lines, with a call for each callable. -/
theorem writes_readFields (hname : OneLine r.ref.name) {fields : List Field}
    (hfields : ∀ f ∈ fields, OneLine f.name.text ∧ OneLine f.native.text) {reads : List (List Step)}
    (h : fields.mapM (readField c r) = .ok reads) :
    ∃ ls, Code.Writes 1 reads.flatten ls ∧ (∀ l ∈ ls, Code.Inner l) ∧
      ∀ f ∈ fields, f.type.isFunction → Code.indented 2 (adapterCall r f) ∈ ls := by
  have hall := Except.mapM_eq_ok.mp h
  clear h
  induction hall with
  | nil => exact ⟨[], .nil, by simp, by simp⟩
  | cons hread _ ih =>
    rw [List.forall_mem_cons] at hfields
    obtain ⟨first, hfirst, hinner, hcall⟩ := writes_readField hname hfields.1 hread
    obtain ⟨rest, hrest, hinner', hcalls⟩ := ih hfields.2
    refine ⟨first ++ rest, hfirst.append hrest, List.forall_mem_append.mpr ⟨hinner, hinner'⟩, ?_⟩
    refine List.forall_mem_cons.mpr ⟨fun hf => ?_, fun f hf hfunction => ?_⟩
    · exact List.mem_append_left _ (hcall hf)
    · exact List.mem_append_right _ (hcalls f hf hfunction)

/-- The function that reads a record, with the calls of its adapters. -/
theorem shows_readRecord (hrecord : ' ' ∉ r.ref.name.toList) (hname : OneLine r.ref.name)
    (hnative : OneLine r.ref.native.text)
    (hfields : ∀ f ∈ r.fields, OneLine f.name.text ∧ OneLine f.native.text) {steps : List Step}
    (h : readRecord c r = .ok steps) :
    Shows steps [.reader (readerName r)]
      ((r.fields.filter (·.type.isFunction)).map fun f => Code.indented 2 (adapterCall r f)) := by
  obtain ⟨reads, hreads, h⟩ := Except.bind_eq_ok.mp h
  cases h
  obtain ⟨inner, hinner, hlines, hcalls⟩ := writes_readFields hname hfields hreads
  obtain ⟨before, hbefore, hopen⟩ : ∃ ls, Code.Writes 1 [.line "idx = lua_absindex(L, idx);",
      .line "luaL_checktype(L, idx, LUA_TTABLE);", .line (r.ref.native.text ++ " out;")] ls ∧
        ∀ l ∈ ls, Code.Inner l := by
    refine Inside.cons ?_ (.cons ?_ (.line ?_)) 0
    · exact .literal (by decide)
    · exact .literal (by decide)
    · exact Text.oneLine_append.mpr ⟨hnative, by decide⟩
  obtain ⟨after, hafter, hclose⟩ : ∃ ls, Code.Writes 1 [.line "return out;"] ls ∧ ∀ l ∈ ls, Code.Inner l :=
    Inside.line (.literal (by decide)) 0
  have hhead : OneLine (readHead r ++ " \x7b") :=
    Text.oneLine_append.mpr ⟨oneLine_readHead hname hnative, by decide⟩
  -- the head gives the native type of the record, in front of a name without blanks
  have hopens : (Symbol.reader (readerName r)).Opens (readHead r ++ " \x7b") := by
    refine ⟨r.ref.native.text, ?_⟩
    unfold readHead readerName
    simp [← String.toList_inj]
  refine ⟨_, writes_block hhead ((hbefore.append hinner).append hafter), ?_, ?_⟩
  · refine Listed.block (.opens ?_ hopens .nil) (.of_inner ?_)
    · unfold Symbol.Plain readerName
      simp [hrecord]
    · simp only [List.forall_mem_append]
      exact ⟨⟨hopen, hlines⟩, hclose⟩
  · refine List.forall_mem_map.mpr fun f hf => ?_
    obtain ⟨hf, hfunction⟩ := List.mem_filter.mp hf
    simp [hcalls f hf hfunction]

/-- What a record defines before it is read: the adapters of its callables. -/
def adapterSymbols (r : Record) : List Symbol :=
  (r.fields.filter (·.type.isFunction)).map fun f => .reader (adapterName r f)

end Records

/-- What the unit of a model is written from: texts of one line each, and names of records and fields that
hold no blank and differ. -/
structure Writable (m : Model) : Prop where
  oneLine : m.OneLine
  records : ∀ r ∈ m.records, ' ' ∉ r.ref.name.toList
  fields : ∀ r ∈ m.records, ∀ f ∈ r.fields, ' ' ∉ f.name.text.toList
  distinct : ∀ r ∈ m.records, (r.fields.map (·.name.text)).Nodup

section Unit

variable {module : String} {m : Model}

/-- The functions of a record fall apart into those that define its `adapterSymbols` and, behind them, the
function that reads the record. -/
theorem exists_of_recordFunctions (hmodule : OneLine module) (hm : Writable m) (htypes : m.OneLineTypes)
    {r : Record} (hr : r ∈ m.records) {steps : List Step}
    (h : recordFunctions { module, model := m } r = .ok steps) :
    ∃ own read, steps = own ++ read ∧ Defines own (adapterSymbols r) ∧
      readRecord { module, model := m } r = .ok read := by
  obtain ⟨adapters, hadapters, h⟩ := Except.bind_eq_ok.mp h
  obtain ⟨push, hpush, h⟩ := Except.bind_eq_ok.mp h
  obtain ⟨read, hread, h⟩ := Except.bind_eq_ok.mp h
  cases h
  obtain ⟨hname, hnative⟩ := hm.oneLine.records r hr
  refine ⟨adapters.flatten ++ push, read, rfl, ?_, hread⟩
  have hdefines : Defines adapters.flatten (adapterSymbols r) := by
    refine .mapM_map hadapters fun f hf part hpart => ?_
    have hf := (List.mem_filter.mp hf).1
    have htype := htypes.fields r hr f hf
    exact defines_fieldAdapter ⟨hm.records r hr, hname⟩
      ⟨hm.fields r hr f hf, (hm.oneLine.fields r hr f hf).1⟩ htype
      (Converter.quiet_convert hmodule hm.oneLine htypes htype) hpart
  have hpushed : Defines push [] :=
    defines_pushRecord hname hnative (fun f hf => (hm.oneLine.fields r hr f hf).1) hpush
  simpa using hdefines.append hpushed

/-! ## Classes -/

/-- All that a wrapper does with its method stands inside the function and is indented. -/
theorem inside_callNative {c : Converter} {x : Method} {isAsync : Bool} {args : List String}
    {steps : List Step} (h : callNative c x isAsync args = .ok steps) : Inside steps := by
  unfold callNative at h
  split at h
  · obtain ⟨handler, -, h⟩ := Except.bind_eq_ok.mp h
    cases h
    exact .append (.lines _) (.line (.literal (by decide)))
  · split at h
    · cases h
      exact .append (.lines _) (.line (.literal (by decide)))
    · obtain ⟨push, -, h⟩ := Except.bind_eq_ok.mp h
      cases h
      exact .append (.lines _) (.line (.literal (by decide)))

theorem inside_readSelf {c : Converter} {owner : ClassRef} {steps : List Step}
    (h : readSelf c owner = .ok steps) : Inside steps := by
  obtain ⟨self, -, h⟩ := Except.bind_eq_ok.mp h
  cases h
  exact .lines _

theorem oneLine_functionHead {name : String} (h : OneLine name) :
    OneLine ("static int " ++ name ++ "(lua_State* L) \x7b") := by
  simp only [Text.oneLine_append]
  refine ⟨⟨?_, h⟩, ?_⟩ <;> exact .literal (by decide)

theorem oneLine_wrapperName {x : Method} (howner : OneLine x.owner.name) (hname : OneLine x.uniqueName) :
    OneLine (wrapperName x) := by
  unfold wrapperName Method.id
  simp only [Text.oneLine_append]
  exact ⟨by decide, ⟨howner, by decide⟩, hname⟩

/-- The wrapper of a member is one definition: its head, inner lines and a brace at the end. -/
theorem defines_wrapper {c : Converter} {x : Method} (howner : OneLine x.owner.name)
    (hname : OneLine x.uniqueName) {steps : List Step} (h : wrapper c x = .ok steps) :
    Defines steps [.function (wrapperName x)] := by
  obtain ⟨async, self, statements, args, call, -, hself, hreads, hcall, rfl⟩ := exists_of_wrapper h
  obtain ⟨reads, -, -, -, rfl, -⟩ := readParams_eq_ok hreads
  refine .block (.opens trivial rfl .nil) (oneLine_functionHead (oneLine_wrapperName howner hname)) ?_
  refine .append (.append (.append ?_ ?_) (.flatMap fun y _ => .lines _)) (inside_callNative hcall)
  · split
    · refine .block (.literal (by decide)) (.line ?_)
      simp only [Text.oneLine_append]
      refine ⟨⟨⟨⟨?_, howner⟩, ?_⟩, Text.oneLine_snakeCase hname⟩, ?_⟩ <;> exact .literal (by decide)
    · exact .nil
  · split at hself
    · cases hself
      exact .nil
    · exact inside_readSelf hself

/-- As in `defines_wrapper`, with the loop over the elements inside. -/
theorem defines_iterator {c : Converter} {owner : ClassRef} (howner : OneLine owner.name) {element : Ty}
    {steps : List Step} (h : iterator c owner element = .ok steps) :
    Defines steps [.function (iteratorName owner)] := by
  obtain ⟨self, hself, h⟩ := Except.bind_eq_ok.mp h
  obtain ⟨push, -, h⟩ := Except.bind_eq_ok.mp h
  cases h
  refine .block (.opens trivial rfl .nil) (oneLine_functionHead ?_) ?_
  · unfold iteratorName
    simp only [Text.oneLine_append]
    exact ⟨⟨by decide, howner⟩, by decide⟩
  · refine .append (.append (.append (inside_readSelf hself) ?_) (.block ?_ ?_)) ?_
    · refine .cons ?_ (.line ?_) <;> exact .literal (by decide)
    · exact .literal (by decide)
    · exact .append (.lines _) (.line (.literal (by decide)))
    · refine .cons ?_ (.cons ?_ (.line ?_)) <;> exact .literal (by decide)

/-- The statement that serves a property. -/
def propertyCall (x : Method) : String :=
  "if (strcmp(key, \"" ++ x.displayName ++ "\") == 0) return " ++ wrapperName x ++ "(L);"

/-- The properties that the index function of a class serves. -/
def servedProperties (m : Model) (c : Class) : List Method :=
  (m.lineage c).flatMap fun owner => owner.methods.filter (·.isProperty)

/-- The index function is one definition and shows the line of each property that it serves, in the order of the
lineage. -/
theorem shows_indexFunction {c : Class} (hname : OneLine c.name)
    (hserved : ∀ x ∈ servedProperties m c, OneLine x.owner.name ∧ OneLine x.uniqueName) :
    Shows (indexFunction m c) [.function (indexName c.ref)]
      ((servedProperties m c).map fun x => Code.indented 1 (propertyCall x)) := by
  -- the function as a block of plain lines, as in `shows_openModule`
  have hsteps : indexFunction m c =
      Code.block ("static int " ++ indexName c.ref ++ "(lua_State* L) \x7b")
        (("const char* key = luaL_checkstring(L, 2);" :: (servedProperties m c).map propertyCall ++
          ["luaL_getmetafield(L, 1, \"__methods\");", "lua_getfield(L, -1, key);", "return 1;"]).map .line)
        ++ [Code.blank] := by
    unfold indexFunction servedProperties propertyCall
    simp [Function.comp_def]
  have hopens : Listed ["static int " ++ indexName c.ref ++ "(lua_State* L) \x7b"]
      [.function (indexName c.ref)] := .opens trivial rfl .nil
  rw [hsteps]
  refine (Shows.block hopens (oneLine_functionHead ?_) ?_).mono ?_
  · unfold indexName
    simp only [Text.oneLine_append]
    exact ⟨⟨by decide, hname⟩, by decide⟩
  · simp only [List.cons_append, List.forall_mem_cons, List.forall_mem_append, List.forall_mem_map,
      List.not_mem_nil, false_imp_iff, implies_true, and_true]
    refine ⟨.literal (by decide), fun x hx => ?_, ?_, ?_, ?_⟩
    · obtain ⟨howner, hunique⟩ := hserved x hx
      unfold propertyCall
      simp only [Text.oneLine_append]
      refine ⟨⟨⟨⟨?_, Text.oneLine_snakeCase hunique⟩, ?_⟩, oneLine_wrapperName howner hunique⟩, ?_⟩ <;>
        exact .literal (by decide)
    all_goals exact .literal (by decide)
  · refine List.forall_mem_map.mpr fun x hx => List.mem_map_of_mem ?_
    simp [List.mem_map_of_mem hx]

/-- What a class defines before its index function: the wrappers of its members and the iterator. -/
def memberSymbols (c : Class) : List Symbol :=
  c.methods.map (fun x => .function (wrapperName x))
    ++ if c.iterable.isSome then [.function (iteratorName c.ref)] else []

/-- The functions of a class fall apart into the wrappers and the iterator, which define `memberSymbols`, and
the index function. -/
theorem exists_of_classFunctions {c : Class} (hname : OneLine c.name)
    (hmembers : ∀ x ∈ c.methods, OneLine x.owner.name ∧ OneLine x.uniqueName) {steps : List Step}
    (h : classFunctions { module, model := m } c = .ok steps) :
    ∃ own, steps = own ++ indexFunction m c ∧ Defines own (memberSymbols c) := by
  obtain ⟨wrappers, hwrappers, h⟩ := Except.bind_eq_ok.mp h
  have hdefines : Defines wrappers.flatten (c.methods.map fun x => .function (wrapperName x)) :=
    .mapM_map hwrappers fun x hx _ hpart => defines_wrapper (hmembers x hx).1 (hmembers x hx).2 hpart
  cases hiterable : c.iterable with
  | none =>
    rw [hiterable] at h
    cases h
    refine ⟨wrappers.flatten, by simp, ?_⟩
    simpa [memberSymbols, hiterable] using hdefines
  | some element =>
    rw [hiterable] at h
    obtain ⟨iterators, hiterators, h⟩ := Except.bind_eq_ok.mp h
    cases h
    refine ⟨wrappers.flatten ++ iterators, rfl, ?_⟩
    simpa [memberSymbols, hiterable] using hdefines.append (defines_iterator hname hiterators)

/-! ## Tables -/

/-- The entry of a function in an array. -/
def functionEntry (f : String × String) : String := "\x7b\"" ++ f.1 ++ "\", " ++ f.2 ++ "\x7d,"

/-- The definition of an array: its head, an entry for each function and the mark of its end. -/
def arrayDefinition (name : String) (functions : List (String × String)) : List Step :=
  (.openBlock ("static const luaL_Reg " ++ name ++ "[] = \x7b") "\x7d;" ::
    (functions.map functionEntry ++ ["\x7bNULL, NULL\x7d"]).map .line ++ [.closeBlock]) ++ [Code.blank]

theorem functionArray_eq (name : String) (functions : List (String × String)) :
    functionArray name functions = arrayDefinition name functions := by
  unfold functionArray arrayDefinition functionEntry
  simp [Function.comp_def]

/-- An array is one definition and shows the entry of each of its functions. -/
theorem shows_functionArray {name : String} {functions : List (String × String)} (hname : OneLine name)
    (hfunctions : ∀ f ∈ functions, OneLine f.1 ∧ OneLine f.2) :
    Shows (functionArray name functions) [.array name]
      (functions.map fun f => Code.indented 1 (functionEntry f)) := by
  have hhead : OneLine ("static const luaL_Reg " ++ name ++ "[] = \x7b") := by
    simp only [Text.oneLine_append]
    refine ⟨⟨?_, hname⟩, ?_⟩ <;> exact .literal (by decide)
  have hentries : ∀ t ∈ functions.map functionEntry ++ ["\x7bNULL, NULL\x7d"], OneLine t := by
    simp only [List.forall_mem_append, List.forall_mem_map, List.forall_mem_singleton]
    refine ⟨fun f hf => ?_, .literal (by decide)⟩
    unfold functionEntry
    simp only [Text.oneLine_append]
    refine ⟨⟨⟨⟨?_, (hfunctions f hf).1⟩, ?_⟩, (hfunctions f hf).2⟩, ?_⟩ <;> exact .literal (by decide)
  have hblank : Code.Writes 0 [Code.blank] [""] := .line (by decide)
  have hfoot : Listed (["\x7d;"] ++ [""]) [] := .of_not_marked (by simp [mark])
  rw [functionArray_eq, arrayDefinition]
  refine ⟨_, (Code.Writes.openBlock hhead (by decide) (.map_line hentries)).append hblank, ?_, ?_⟩
  · simp only [Code.indented_zero, List.cons_append, List.append_assoc]
    exact .opens trivial rfl (.append (.of_indented _) hfoot)
  · refine List.forall_mem_map.mpr fun f hf => ?_
    have hentry := List.mem_map_of_mem (f := Code.indented 1)
      (List.mem_append_left ["\x7bNULL, NULL\x7d"] (List.mem_map_of_mem (f := functionEntry) hf))
    exact List.mem_append_left _ (List.mem_append_left _ (List.mem_cons_of_mem _ hentry))

/-- The lines that register a class. -/
def registrationLines (module : String) (c : Class) : List String :=
  ((registerClass module c).map Call.text ++ [""]).map (Code.indented 1)

/-- The lines of the registration are those of each class between its head and its brace; every call takes one
line. -/
theorem writes_registerMetatables {classes : List Class}
    (h : ∀ c ∈ classes, ∀ call ∈ registerClass module c, OneLine call.argument) :
    Code.Writes 0 (registerMetatables module classes)
      ("static void register_metatables(lua_State* L) \x7b" :: classes.flatMap (registrationLines module)
        ++ ["\x7d", ""]) := by
  refine writes_block (.literal (by decide)) (.flatMap fun c hc => ?_)
  have hlines : (registerClass module c).map (fun call => Step.line call.text) ++ [Code.blank] =
      ((registerClass module c).map Call.text ++ [""]).map .line := by
    simp [Code.blank, Function.comp_def]
  rw [hlines]
  refine .map_line (List.forall_mem_append.mpr ⟨?_, by simp [OneLine]⟩)
  exact List.forall_mem_map.mpr fun call hcall => Call.oneLine_text (h c hc call hcall)

/-- The statements that open the module. -/
def openingTexts (m : Model) : List String :=
  ["register_metatables(L);", (Call.createTable 0 (m.classes.length + m.enums.length)).text]
    ++ m.classes.flatMap (fun c => [(Call.newLib (staticsName c.ref)).text, (Call.setField (-2) c.name).text])
    ++ m.enums.map (fun e => enumRegistration e ++ "(L);")
    ++ ["return 1;"]

/-- The function that opens the module is exported, not static, so it defines nothing that a line of the unit
could use. -/
theorem shows_openModule (hmodule : OneLine module) (hm : m.OneLine) :
    Shows (openModule module m) [] ((openingTexts m).map (Code.indented 1)) := by
  -- the function as a block of plain lines, whose texts are then checked one by one
  have hsteps : openModule module m =
      Code.block ("BINDGEN_API int luaopen_" ++ Text.identifier module ++ "(lua_State* L) \x7b")
        ((openingTexts m).map .line) := by
    unfold openModule openingTexts
    simp [List.map_flatMap, Function.comp_def]
  have htexts : ∀ t ∈ openingTexts m, OneLine t := by
    unfold openingTexts
    simp only [List.forall_mem_append, List.forall_mem_cons, List.forall_mem_flatMap, List.forall_mem_map,
      List.not_mem_nil, false_imp_iff, implies_true, and_true]
    refine ⟨⟨⟨⟨.literal (by decide), Call.oneLine_text (.literal (by decide))⟩, fun c hc => ⟨?_, ?_⟩⟩,
      fun e he => ?_⟩, .literal (by decide)⟩
    · refine Call.oneLine_text (Text.oneLine_append.mpr ⟨(hm.classes c hc).1, .literal (by decide)⟩)
    · exact Call.oneLine_text (hm.classes c hc).1
    · unfold enumRegistration
      simp only [Text.oneLine_append]
      exact ⟨⟨.literal (by decide), (hm.enums e he).1⟩, .literal (by decide)⟩
  have hhead : OneLine ("BINDGEN_API int luaopen_" ++ Text.identifier module ++ "(lua_State* L) \x7b") := by
    simp only [Text.oneLine_append]
    refine ⟨⟨?_, Text.oneLine_identifier hmodule⟩, ?_⟩ <;> exact .literal (by decide)
  rw [hsteps]
  refine ⟨_, .block hhead (.map_line htexts), ?_, fun l hl => ?_⟩
  · have hopen : Listed ["BINDGEN_API int luaopen_" ++ Text.identifier module ++ "(lua_State* L) \x7b"] [] :=
      .of_not_marked (by simp [mark])
    have hfoot : Listed ["\x7d"] [] := .of_not_marked (by simp [mark])
    rw [Code.indented_zero]
    exact (hopen.append (.of_indented _)).append hfoot
  · exact List.mem_append_left _ (List.mem_cons_of_mem _ hl)

end Unit

end LuaGlue.Lua
