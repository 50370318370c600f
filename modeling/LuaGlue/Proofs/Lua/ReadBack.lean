import LuaGlue.Lua.Module
import LuaGlue.Proofs.Lua.NilPushed
import LuaGlue.Proofs.Model.Binding

/-!
# Reading back a record

The table that is built of a native record can be read back as far as its fields allow it. Reading raises an
error for a field that is required and absent. Callables are never in the table, and nil is the same as no
value.

- **Reading** (`fetches_readField`, `requires_iff`): a field is looked up by its name and stored, and the error
  is written for the fields that are required.
- **Setting** (`sets_pushRecord`): each field that is not callable is set, under the name by which it is read.
- **Both** (`Travels`, `travels_of_unit`): a required field that is set has nil for its value only if it is
  `Mixed` or `void` behind its layers, unless an optional is hidden there.
-/

namespace LuaGlue.Lua

open Code (Step)

variable {c : Converter} {r : Record} {f : Field} {steps : List Step}

/-! ## Reading -/

/-- The steps that look up a field by its name in the table and store its value in the native field. -/
def fetchField (name target value : String) : List Step :=
  [.line ("lua_getfield(L, idx, \"" ++ name ++ "\");"), .line "if (!lua_isnil(L, -1)) \x7b", .indent]
    ++ Code.lines ("out." ++ target ++ " = " ++ value ++ ";") ++ [.dedent]

/-- The steps that raise the error for a field that is absent. -/
def missingField (r : Record) (name : String) : List Step :=
  [.line "\x7d else \x7b", .indent,
    .line ("luaL_error(L, \"" ++ r.ref.name ++ "." ++ name ++ " is required\");"), .dedent]

/-- A field is read from the top of the stack, by its adapter if it is callable, after it is looked up there. -/
theorem fetches_readField (h : readField c r f = .ok steps) {name : String} (hname : f.displayName = .ok name) :
    ∃ value, (if f.type.isFunction then .ok (adapterName r f ++ "(L, -1)") else (c.convert f.type).fromHost "-1")
        = .ok value ∧ fetchField name f.native.text value <+: steps := by
  unfold readField at h
  rw [hname, Except.ok_bind] at h
  obtain ⟨value, hvalue, h⟩ := Except.ite_bind_eq_ok.mp h
  cases h
  exact ⟨value, hvalue, (List.prefix_append _ _).trans (List.prefix_append _ _)⟩

theorem indent_notMem_lines (text : String) : Step.indent ∉ Code.lines text := by
  simp [Code.lines]

/-- Where there is one indentation, the line before it is known. -/
theorem eq_of_indent {x y : Step} (pre : List Step) {rest : List Step} (hpre : .indent ∉ pre ++ [y])
    (hrest : .indent ∉ rest) (h : [x, .indent] <:+: pre ++ [y] ++ .indent :: rest) : x = y := by
  obtain ⟨s, t, h⟩ := h
  have hsplit : pre ++ [y] ++ .indent :: rest = (s ++ [x]) ++ .indent :: t := by simpa using h.symm
  have hfront := ((List.append_cons_inj_of_notMem hpre hrest).mp hsplit).1
  exact (List.singleton_inj.mp (List.append_inj' hfront rfl).2).symm

theorem requires_iff (h : readField c r f = .ok steps) :
    ∃ name, f.displayName = .ok name ∧ (missingField r name <:+: steps ↔ f.required) := by
  obtain ⟨name, hname, h⟩ := Except.bind_eq_ok.mp h
  obtain ⟨value, -, h⟩ := Except.ite_bind_eq_ok.mp h
  cases h
  refine ⟨name, hname, fun hmissing => ?_, fun hrequired => ?_⟩
  · by_contra hrequired
    have hstart : [Step.line "\x7d else \x7b", .indent] <:+: missingField r name := ⟨[], _, rfl⟩
    have hindent := hstart.trans hmissing
    rw [if_neg hrequired, List.append_nil, List.append_assoc, List.append_assoc] at hindent
    refine absurd (eq_of_indent [_] ?_ ?_ hindent) (by decide)
    · simp
    · simp [indent_notMem_lines]
  · rw [if_pos hrequired]
    exact ⟨_, _, rfl⟩

/-! ## Setting -/

/-- The steps that push a value and set a field to it. -/
def setField (push name : String) : List Step :=
  Code.lines (push ++ ";") ++ [.line ("lua_setfield(L, -2, \"" ++ name ++ "\");")]

theorem infix_block {header : String} {body : List Step} (h : steps <:+: body) :
    steps <:+: Code.block header body ++ [Code.blank] :=
  h.trans (List.IsInfix.trans ⟨[_], [_], rfl⟩ (List.prefix_append _ _).isInfix)

theorem sets_pushRecord (h : pushRecord c r = .ok steps) (hf : f ∈ r.fields) (hcallable : ¬f.type.isFunction)
    {name : String} (hname : f.displayName = .ok name) :
    ∃ push, (c.convert f.type).toHost ("value." ++ f.native.text) = .ok push ∧
      setField push name <:+: steps := by
  obtain ⟨pushes, hpushes, h⟩ := Except.bind_eq_ok.mp h
  cases h
  have hmem : f ∈ r.fields.filter (!·.type.isFunction) := List.mem_filter.mpr ⟨hf, by simpa using hcallable⟩
  obtain ⟨set, hset, hfield⟩ := Except.exists_of_mapM hpushes hmem
  obtain ⟨push, hpush, hrest⟩ := Except.bind_eq_ok.mp hfield
  rw [hname, Except.ok_bind] at hrest
  cases hrest
  have hwithin : setField push name <:+: pushes.flatten := List.infix_of_mem_flatten hset
  exact ⟨push, hpush, infix_block (List.infix_cons hwithin)⟩

/-- The table is built as if there were no callables. -/
theorem pushRecord_filter (c : Converter) (r : Record) :
    pushRecord c { r with fields := r.fields.filter (!·.type.isFunction) } = pushRecord c r := by
  have hfilter : (r.fields.filter (!·.type.isFunction)).filter (!·.type.isFunction) =
      r.fields.filter (!·.type.isFunction) := by
    rw [List.filter_filter]
    simp only [Bool.and_self]
  unfold pushRecord
  rw [hfilter]
  rfl

theorem reads_readRecord (h : readRecord c r = .ok steps) (hf : f ∈ r.fields) :
    ∃ read, readField c r f = .ok read ∧ read <:+: steps := by
  obtain ⟨reads, hreads, h⟩ := Except.bind_eq_ok.mp h
  cases h
  obtain ⟨read, hread, hfield⟩ := Except.exists_of_mapM hreads hf
  have hwithin : read <:+: reads.flatten := List.infix_of_mem_flatten hread
  exact ⟨read, hfield, infix_block (hwithin.trans ⟨_, _, rfl⟩)⟩

/-! ## Both -/

/-- A field is required if it has no default and its type is no optional as it stands. -/
theorem required_of_ofSpec {spec : Spec} {m : Model} (hm : Model.ofSpec spec = .ok m) (hr : r ∈ m.records)
    (hf : f ∈ r.fields) : f.required ↔ f.default = none ∧ ¬f.type.isOptional ∧ ¬f.type.isNullable := by
  obtain ⟨declared, hbound⟩ := Model.ofSpec_eq_ok.mp hm
  obtain ⟨e, -, hbind⟩ := Except.exists_of_mem_mapM hbound.records hr
  obtain ⟨d, -, hfield⟩ := Except.exists_of_mem_mapM (bindRecord_eq_ok.mp hbind).2 hf
  obtain ⟨t, -, rfl⟩ := bindField_eq_ok.mp hfield
  simp

/-- An optional stands below the layers of the type. -/
def HidesOptional (m : Model) (t : Ty) : Prop :=
  ∃ u, Relation.TransGen (Ty.Layer m) t u ∧ (u.isOptional ∨ u.isNullable)

/-- Without an optional in the type or below its layers, nil stands for `Mixed` and `void`. -/
theorem showsNil_iff_of_not_optional {m : Model} {t : Ty} (ht : ¬t.isOptional ∧ ¬t.isNullable)
    (hhidden : ¬HidesOptional m t) :
    t.ShowsNil m ↔ ∃ u, Relation.ReflTransGen (Ty.Layer m) t u ∧ (u = .primitive "Mixed" ∨ u = .void) := by
  have hnone {u : Ty} (hu : Relation.ReflTransGen (Ty.Layer m) t u) : ¬(u.isOptional ∨ u.isNullable) := by
    rcases Relation.reflTransGen_iff_eq_or_transGen.mp hu with rfl | hu
    · exact not_or.mpr ht
    · exact fun hoptional => hhidden ⟨u, hu, hoptional⟩
  constructor
  · rintro ⟨u, hu, hnil⟩
    refine ⟨u, hu, ?_⟩
    cases u with
    | template n args => exact absurd (hnil.imp beq_iff_eq.mpr beq_iff_eq.mpr) (hnone hu)
    | primitive n => exact hnil.imp (congrArg _) (congrArg _)
    | _ => cases hnil
  · rintro ⟨u, hu, rfl | rfl⟩
    · exact ⟨_, hu, .inl rfl⟩
    · exact ⟨_, hu, .inr rfl⟩

theorem infix_unit {module : String} {m : Model} (h : unit module m = .ok steps) (hr : r ∈ m.records) :
    ∃ functions, recordFunctions { module, model := m } r = .ok functions ∧ functions <:+: steps := by
  obtain ⟨head, -, h⟩ := Except.bind_eq_ok.mp h
  obtain ⟨records, hrecords, h⟩ := Except.bind_eq_ok.mp h
  obtain ⟨classes, -, h⟩ := Except.bind_eq_ok.mp h
  cases h
  obtain ⟨functions, hfunctions, hrender⟩ := Except.exists_of_mapM hrecords hr
  refine ⟨functions, hrender, ?_⟩
  have hwithin : functions <:+: records.flatten := List.infix_of_mem_flatten hfunctions
  have hafter {a b : List Step} (h : functions <:+: a) : functions <:+: a ++ b :=
    h.trans (List.prefix_append _ _).isInfix
  exact hafter (hafter (hafter (hafter (hafter (hwithin.trans (List.suffix_append _ _).isInfix)))))

/-- What happens to a field that is built into a table by the first steps and read by the second: `name` is the
name that it is set by and looked up by, and `own` are the steps that read it. Of optionals that a type hides
nothing is said. -/
structure Travels (c : Converter) (r : Record) (body read : List Step) (f : Field) (name : String)
    (own : List Step) : Prop where
  named : f.displayName = .ok name
  reads : readField c r f = .ok own
  within : own <:+: read
  fetches : ∃ value, (if f.type.isFunction then .ok (adapterName r f ++ "(L, -1)")
      else (c.convert f.type).fromHost "-1") = .ok value ∧ fetchField name f.native.text value <+: own
  required : ¬HidesOptional c.model f.type →
    (missingField r name <:+: own ↔ f.default = none ∧ ¬f.type.isOptional ∧ ¬f.type.isNullable)
  sets : ¬f.type.isFunction → ∃ push, (c.convert f.type).toHost ("value." ++ f.native.text) = .ok push ∧
    setField push name <:+: body ∧
    (¬HidesOptional c.model f.type → missingField r name <:+: own →
      (PushesNil push ↔
        ∃ u, Relation.ReflTransGen (Ty.Layer c.model) f.type u ∧ (u = .primitive "Mixed" ∨ u = .void)))

/-- **A record can be read back** as far as its fields allow it: in the unit of a bound specification, `pushRecord`
sets each field that is not callable by the name that `readRecord` looks it up by (`Travels`). -/
theorem travels_of_unit {spec : Spec} {m : Model} {module : String} (hm : Model.ofSpec spec = .ok m)
    (hunit : unit module m = .ok steps) (hr : r ∈ m.records) :
    ∃ body read, pushRecord { module, model := m } r = .ok body ∧
      readRecord { module, model := m } r = .ok read ∧ body ++ read <:+: steps ∧
      pushRecord { module, model := m } { r with fields := r.fields.filter (!·.type.isFunction) } = .ok body ∧
      ∀ f ∈ r.fields, ∃ name own, Travels { module, model := m } r body read f name own := by
  obtain ⟨functions, hfunctions, hsteps⟩ := infix_unit hunit hr
  obtain ⟨adapters, -, hfunctions⟩ := Except.bind_eq_ok.mp hfunctions
  obtain ⟨body, hbody, hfunctions⟩ := Except.bind_eq_ok.mp hfunctions
  obtain ⟨read, hread, hfunctions⟩ := Except.bind_eq_ok.mp hfunctions
  cases hfunctions
  rw [List.append_assoc] at hsteps
  refine ⟨body, read, hbody, hread, (List.suffix_append _ _).isInfix.trans hsteps,
    (pushRecord_filter _ r).trans hbody, fun f hf => ?_⟩
  obtain ⟨own, hown, hwithin⟩ := reads_readRecord hread hf
  obtain ⟨name, hname, hmissing⟩ := requires_iff hown
  have hrequired := hmissing.trans (required_of_ofSpec hm hr hf)
  refine ⟨name, own, hname, hown, hwithin, fetches_readField hown hname, fun _ => hrequired,
    fun hcallable => ?_⟩
  obtain ⟨push, hpush, hset⟩ := sets_pushRecord hbody hf hcallable hname
  refine ⟨push, hpush, hset, fun hhidden hmissing => ?_⟩
  exact (Converter.pushesNil_iff hpush).trans (showsNil_iff_of_not_optional (hrequired.mp hmissing).2 hhidden)

/-- A record with a number and a value that may be anything. -/
def reading : Spec where
  primitives := [.str "void", .str "int", .str "Mixed"]
  records := [(.str "Reading", {
    native := .str "Reading"
    fields := [
      (.str "sensorId", {
        type := .modified .const (.named "int"), native := .str "sensor_id", default := none }),
      (.str "value", { type := .named "Mixed", native := .str "value", default := none })] })]

/-- The number is required. `pushRecord` sets it by code that does not push nil, and `readRecord` looks it up by
the name it is set by. -/
theorem travels_reading :
    ∃ m steps r f body read own push value, Model.ofSpec reading = .ok m ∧ unit "app" m = .ok steps ∧
      r ∈ m.records ∧ f ∈ r.fields ∧ pushRecord { module := "app", model := m } r = .ok body ∧
      readRecord { module := "app", model := m } r = .ok read ∧ body ++ read <:+: steps ∧
      setField push "sensor_id" <:+: body ∧ ¬PushesNil push ∧
      own <:+: read ∧ fetchField "sensor_id" "sensor_id" value <+: own ∧ missingField r "sensor_id" <:+: own := by
  have hsnake : Text.snakeCase "sensorId" = "sensor_id" := by decide +kernel
  have hint (m : Model) (u : Ty) : ¬Ty.Layer m (.primitive "int") u := nofun
  obtain ⟨m, r, f, hm, hr, hf, hname, hnative, htype, hdefault⟩ : ∃ m r f, Model.ofSpec reading = .ok m ∧
      r ∈ m.records ∧ f ∈ r.fields ∧ f.displayName = .ok "sensor_id" ∧ f.native.text = "sensor_id" ∧
      f.type = .modified .const (.primitive "int") ∧ f.default = none :=
    ⟨_, _, _, rfl, List.mem_cons_self, List.mem_cons_self, congrArg _ hsnake, rfl, rfl, rfl⟩
  obtain ⟨steps, hsteps⟩ : ∃ steps, unit "app" m = .ok steps := by
    cases hm
    exact ⟨_, rfl⟩
  -- below the constness of the field lies a plain number, which hides nothing
  have hbelow {u : Ty} (hu : Relation.TransGen (Ty.Layer m) f.type u) : u = .primitive "int" := by
    rw [htype] at hu
    obtain ⟨v, ⟨⟩, hu⟩ := Relation.TransGen.head'_iff.mp hu
    rcases hu.cases_head with rfl | ⟨w, hw, -⟩
    · rfl
    · exact absurd hw (hint m w)
  have hhidden : ¬HidesOptional m f.type := by
    rintro ⟨u, hu, hoptional⟩
    cases hbelow hu
    exact absurd hoptional (by decide)
  -- what the theorem gives for the unit, at the one field of the record
  obtain ⟨body, read, hbody, hread, hunit, -, htravels⟩ := travels_of_unit hm hsteps hr
  obtain ⟨name, own, htravels⟩ := htravels f hf
  cases htravels.named.symm.trans hname
  have hplain : ¬f.type.isOptional ∧ ¬f.type.isNullable := by
    rw [htype]
    decide
  have hmissing := (htravels.required hhidden).mpr ⟨hdefault, hplain⟩
  obtain ⟨push, -, hset, hnil⟩ := htravels.sets (by simp [htype, Ty.isFunction])
  -- a required field is pushed without a nil, as its type shows none
  have hpush : ¬PushesNil push := by
    rw [hnil hhidden hmissing]
    rintro ⟨u, hu, hnil⟩
    rcases Relation.reflTransGen_iff_eq_or_transGen.mp hu with rfl | hu
    · simp [htype, Ty.void] at hnil
    · cases hbelow hu
      simp [Ty.void] at hnil
  obtain ⟨value, -, hfetch⟩ := htravels.fetches
  rw [hnative] at hfetch
  exact ⟨m, steps, r, f, body, read, own, push, value, hm, hsteps, hr, hf, hbody, hread, hunit, hset, hpush,
    htravels.within, hfetch, hmissing⟩

/-- A record with a callable. -/
def listening : Spec where
  primitives := [.str "void"]
  templates := [(.str "std::function", .exact 1)]
  records := [(.str "Listener", {
    native := .str "Listener"
    fields := [(.str "onDone", {
      type := .template "std::function" [.func ⟨[], .void, {}⟩]
      native := .str "on_done"
      default := none })] })]

/-- A callable is required and is not in the table. -/
theorem callable_required_not_set :
    ∃ m r f own, Model.ofSpec listening = .ok m ∧ r ∈ m.records ∧ f ∈ r.fields ∧
      readField { module := "app", model := m } r f = .ok own ∧
      fetchField "on_done" "on_done" (adapterName r f ++ "(L, -1)") <+: own ∧ missingField r "on_done" <:+: own ∧
      pushRecord { module := "app", model := m } r =
        .ok (Code.block (pushHead r ++ " \x7b") [.line "lua_createtable(L, 0, 0);"] ++ [Code.blank]) := by
  have hsnake : Text.snakeCase "onDone" = "on_done" := by decide +kernel
  obtain ⟨m, r, f, own, hm, hr, hf, hown, hname, hnative, hcallable, hrequired, hbody⟩ : ∃ m r f own,
      Model.ofSpec listening = .ok m ∧ r ∈ m.records ∧ f ∈ r.fields ∧
      readField { module := "app", model := m } r f = .ok own ∧ f.displayName = .ok "on_done" ∧
      f.native.text = "on_done" ∧ f.type.isFunction ∧ f.required ∧
      pushRecord { module := "app", model := m } r =
        .ok (Code.block (pushHead r ++ " \x7b") [.line "lua_createtable(L, 0, 0);"] ++ [Code.blank]) :=
    ⟨_, _, _, _, rfl, List.mem_cons_self, List.mem_cons_self, rfl, congrArg _ hsnake, rfl, rfl, rfl, rfl⟩
  obtain ⟨value, hvalue, hfetch⟩ := fetches_readField hown hname
  rw [if_pos hcallable] at hvalue
  cases hvalue
  rw [hnative] at hfetch
  obtain ⟨name, hname', hmissing⟩ := requires_iff hown
  cases hname'.symm.trans hname
  exact ⟨m, r, f, own, hm, hr, hf, hown, hfetch, hmissing.mpr hrequired, hbody⟩

end LuaGlue.Lua
