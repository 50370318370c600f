import LuaGlue.Proofs.Lua.HostNames
import LuaGlue.Proofs.Lua.Machine
import LuaGlue.Proofs.Lua.Statements
import LuaGlue.Proofs.Lua.UnitSymbols
import LuaGlue.Proofs.Model.Lineage

/-!
# The metatables of the classes

What the statements of `registerMetatables`, read as calls, leave behind, from any stack and any state of Lua
that has none of the metatables yet.

- **One class** (`Machine.run_registerClass`): its calls stay above the values that they find, and end where
  they began. They add tables and a name of the registry, and change nothing else.
- **A registered class** (`Machine.Registers`): the metatable with its fields, the methods that the class has
  itself, and those of the base for what it lacks.
- **All classes** (`run_registration`): bases come first, so every class finds its base registered.
- **Looking up** (`Machine.Registers.finds_iff`): a name leads to the nearest class of the lineage that has it.
- **The unit** (`metatables_of_ofSpec`): the calls are those that `Call.ofText?` reads in the text. Of two methods
  with one name in the host the first is lost (`metatables_colliding`).
-/

namespace LuaGlue.Lua

open Code (Step)

variable {s : Spec} {m : Model} {declared : List Class} {module : String} {c : Class}

theorem metatable_inj {name name' : String} : metatable module name = metatable module name' ↔ name = name' := by
  simp [metatable]

/-! ## Arrays -/

/-- The arrays of a class with their names. -/
def arraysOf (c : Class) : List (String × List (String × String)) :=
  [(methodsName c.ref, instanceFunctions c), (staticsName c.ref, staticFunctions c)]

/-- The functions in an array of the unit. -/
def functionsOf (m : Model) (array : String) : List (String × String) :=
  ((m.classes.flatMap arraysOf).lookup array).getD []

/-- The unit defines both arrays of a class, and each definition lists the functions that `arraysOf` pairs with
the name of the array. -/
theorem methodTables_eq (c : Class) : methodTables c = (arraysOf c).flatMap fun a => arrayDefinition a.1 a.2 := by
  simp [methodTables, arraysOf, functionArray_eq]

/-- No two arrays of a unit have one name, because classes have different names and `_methods` and `_statics`
tell the two arrays of a class apart. -/
theorem nodup_arraysOf (h : Model.BoundFrom s declared m) : ((m.classes.flatMap arraysOf).map Prod.fst).Nodup := by
  have hsymbols : ((m.classes.flatMap arraysOf).map Prod.fst).map Symbol.array = m.classes.flatMap tableSymbols := by
    simp only [List.map_flatMap]
    rfl
  exact List.Nodup.of_map _ (hsymbols ▸ nodup_arrays h)

/-- The array that `luaL_newlib` is given for a class has the functions of its instances: `functionsOf` finds
the first array of the name, and there is no other. -/
theorem functionsOf_methodsName (h : Model.BoundFrom s declared m) (hc : c ∈ m.classes) :
    functionsOf m (methodsName c.ref) = instanceFunctions c := by
  have hmem : (methodsName c.ref, instanceFunctions c) ∈ m.classes.flatMap arraysOf :=
    List.mem_flatMap.mpr ⟨c, hc, by simp [arraysOf]⟩
  obtain ⟨before, after, hsplit⟩ := List.append_of_mem hmem
  have hnodup := nodup_arraysOf h
  rw [hsplit, List.map_append, List.map_cons, List.nodup_middle, List.nodup_cons] at hnodup
  have hfirst : ∀ a ∈ before, (methodsName c.ref != a.1) = true := fun a ha => by
    refine bne_iff_ne.mpr fun heq => hnodup.1 (List.mem_append_left _ ?_)
    exact List.mem_map.mpr ⟨a, ha, heq.symm⟩
  rw [functionsOf, List.lookup_eq_some_iff.mpr ⟨before, after, hsplit, hfirst⟩]
  rfl

/-- The function of instances that a class itself has under a name: of several, the last. -/
def ownFunction? (c : Class) (key : String) : Option String := (instanceFunctions c).reverse.lookup key

/-- A function, or nil. -/
def Datum.ofFunction? (function : Option String) : Datum := function.elim .nil .function

/-- Functions are registered in order, so under each name the last of them stays. The list is looked up from its
end. -/
theorem fields_foldl_set (functions : List (String × String)) (t : Table) (key : String) :
    (functions.foldl (fun t f => t.set f.1 (.function f.2)) t).fields key =
      (functions.reverse.lookup key).elim (t.fields key) .function := by
  induction functions generalizing t with
  | nil => rfl
  | cons f functions ih =>
    rw [List.foldl_cons, ih, List.reverse_cons, List.lookup_append, List.lookup_cons, Table.set_fields]
    cases functions.reverse.lookup key with
    | some function => rfl
    | none =>
      by_cases hkey : key = f.1
      · simp [hkey]
      · have hne : (key == f.1) = false := beq_false_of_ne hkey
        rw [if_neg hkey, hne]
        rfl

/-- The table of an array holds under each name the function that comes last in the array, and nil under every
other name. -/
theorem Table.fields_ofArray (functions : List (String × String)) (key : String) :
    (Table.ofArray functions).fields key = .ofFunction? (functions.reverse.lookup key) :=
  fields_foldl_set functions {} key

theorem Table.metatable_ofArray (functions : List (String × String)) :
    (Table.ofArray functions).metatable = none := by
  have hfold (t : Table) : (functions.foldl (fun t f => t.set f.1 (.function f.2)) t).metatable = t.metatable := by
    induction functions generalizing t with
    | nil => rfl
    | cons f functions ih => exact ih _
  exact hfold {}

/-! ## The calls of one class -/

/-- The function that destroys the instances of a class. -/
def destructor (c : ClassRef) : String := "bindgen_lua::destroy<" ++ storedType c ++ ">"

/-- A table with the fields that the metatable of every class has. -/
def setFields (t : Table) (c : Class) (methods : Nat) : Table :=
  ((t.set "__methods" (.table methods)).set "__index" (.function (indexName c.ref))).set "__gc"
    (.function (destructor c.ref))

/-- The metatable of a class without a base. -/
def metatableOf (module : String) (c : Class) (methods : Nat) : Table :=
  setFields (Table.set {} "__name" (.text (metatable module c.name))) c methods

/-- The tables of a class without a base, from an address on: the metatable and the methods. -/
def rootTables (module : String) (c : Class) (functions : List (String × String)) (address : Nat) : List Table :=
  [metatableOf module c (address + 1), .ofArray functions]

/-- The tables of a class with a base that has its metatable at `pa` and its methods at `pb`. The third one
makes the methods of the base those that the second looks into. -/
def derivedTables (module : String) (c : Class) (functions : List (String × String)) (address pa pb : Nat) :
    List Table :=
  [(metatableOf module c (address + 1)).set "__base" (.table pa),
    { Table.ofArray functions with metatable := some (address + 2) },
    Table.set {} "__index" (.table pb)]

namespace Machine

/-- The machine with new tables, the first of them registered. -/
def register (m : Machine) (name : String) (new : List Table) : Machine where
  stack := m.stack
  tables := m.tables ++ new
  registry := fun n => if n = name then .table m.tables.length else m.registry n

section Class

variable {arrays : String → List (String × String)} {base top : List Datum} {tables : List Table}
  {registry : String → Datum}

theorem getElem?_first (first : Table) (rest : List Table) :
    (tables ++ first :: rest)[tables.length]? = some first := by
  rw [List.getElem?_append_right le_rfl, Nat.sub_self, List.getElem?_cons_zero]

theorem set_first (first t : Table) (rest : List Table) :
    (tables ++ first :: rest).set tables.length t = tables ++ t :: rest := by
  rw [List.set_append_right _ _ le_rfl, Nat.sub_self, List.set_cons_zero]

/-- The first two calls push the new metatable and above it the table of the functions of instances, which are
the tables at the next two addresses. -/
theorem run_newTables (hfresh : registry (metatable module c.name) = .nil) :
    run arrays base.length ⟨[] ++ base, tables, registry⟩
        [.newMetatable (metatable module c.name), .newLib (methodsName c.ref)] =
      some ⟨[.table (tables.length + 1), .table tables.length] ++ base,
        tables ++ [Table.set {} "__name" (.text (metatable module c.name)), .ofArray (arrays (methodsName c.ref))],
        fun n => if n = metatable module c.name then .table tables.length else registry n⟩ := by
  refine run_cons (step_newMetatable _ hfresh) (run_cons (step_newLib _ _) ?_)
  simp

/-- The calls of `chainToBase` give the table on top a metatable of its own, whose `__index` is the table of
methods of the base. The stack is the same before and after them. -/
theorem run_chainToBase {ref : ClassRef} {first methods parent : Table} {pa pb : Nat}
    (hregistered : registry (metatable module ref.name) = .table pa) (hparent : tables[pa]? = some parent)
    (hmethods : parent.fields "__methods" = .table pb) :
    run arrays base.length ⟨[.table (tables.length + 1), .table tables.length] ++ base,
        tables ++ [first, methods], registry⟩ (chainToBase module ref) =
      some ⟨[.table (tables.length + 1), .table tables.length] ++ base,
        tables ++ [first, { methods with metatable := some (tables.length + 2) },
          Table.set {} "__index" (.table pb)], registry⟩ := by
  -- the table of the base is older than the tables of this class, so it stays where it is
  have hold (new : List Table) : (tables ++ new)[pa]? = some parent := by
    rw [List.getElem?_append_left (List.getElem?_eq_some_iff.mp hparent).1, hparent]
  have hraw : parent.isRaw "__methods" := isRaw_of_ne_nil (by simp [hmethods])
  have hlink : (tables ++ [first, methods, ({} : Table)])[tables.length + 2]? = some {} := by simp
  have hown (link : Table) : (tables ++ [first, methods, link])[tables.length + 1]? = some methods := by simp
  rw [chainToBase]
  refine run_cons (step_createTable _ 0 1) ?_
  refine run_cons (step_getMetatable _ _) ?_
  rw [hregistered, List.append_assoc, List.length_append]
  refine run_cons (step_getField (i := 0) rfl (hold _) hraw) ?_
  rw [hmethods]
  refine run_cons (step_setField (i := 1) rfl hlink (isRaw_of_plain rfl _)) ?_
  refine run_cons (step_pop _) ?_
  rw [List.set_append_right _ _ (by omega), Nat.add_sub_cancel_left]
  refine run_cons (step_setMetatable (i := 0) rfl (hown _)) ?_
  rw [List.set_append_right _ _ (by omega), Nat.add_sub_cancel_left]
  rfl

/-- The table on top becomes the field `__methods` of the metatable below it, which gets its `__index` and
`__gc` as well and is left on top. -/
theorem run_setFields (b : Nat) {first : Table} {rest : List Table} (hplain : first.metatable = none) :
    run arrays base.length ⟨[.table b, .table tables.length] ++ base, tables ++ first :: rest, registry⟩ [
        .setField (-2) "__methods",
        .pushFunction (indexName c.ref),
        .setField (-2) "__index",
        .pushFunction (destructor c.ref),
        .setField (-2) "__gc"] =
      some ⟨[.table tables.length] ++ base, tables ++ setFields first c b :: rest, registry⟩ := by
  refine run_cons (step_setField (i := 0) rfl (getElem?_first _ _) (isRaw_of_plain hplain _)) ?_
  rw [set_first]
  refine run_cons (step_pushFunction _ _) ?_
  refine run_cons (step_setField (i := 0) rfl (getElem?_first _ _) (isRaw_of_plain hplain _)) ?_
  rw [set_first]
  refine run_cons (step_pushFunction _ _) ?_
  refine run_cons (step_setField (i := 0) rfl (getElem?_first _ _) (isRaw_of_plain hplain _)) ?_
  rw [set_first]
  rfl

/-- The metatable on top gets the registered metatable of the base as its field `__base`. -/
theorem run_linkBase {ref : ClassRef} {first : Table} {rest : List Table} {pa : Nat}
    (hregistered : registry (metatable module ref.name) = .table pa) (hplain : first.metatable = none) :
    run arrays base.length ⟨[.table tables.length] ++ base, tables ++ first :: rest, registry⟩
        [.getMetatable (metatable module ref.name), .setField (-2) "__base"] =
      some ⟨[.table tables.length] ++ base, tables ++ first.set "__base" (.table pa) :: rest, registry⟩ := by
  refine run_cons (step_getMetatable _ _) ?_
  rw [hregistered]
  refine run_cons (step_setField (i := 0) rfl (getElem?_first _ _) (isRaw_of_plain hplain _)) ?_
  rw [set_first]
  rfl

/-- The calls of a class without a base add the metatable and the methods of `rootTables`, register the first,
and leave the stack as it was. -/
theorem run_registerClass_root (hbase : c.base = none) (hfresh : registry (metatable module c.name) = .nil) :
    run arrays base.length ⟨base, tables, registry⟩ (registerClass module c) =
      some (register ⟨base, tables, registry⟩ (metatable module c.name)
        (rootTables module c (arrays (methodsName c.ref)) tables.length)) := by
  rw [registerClass, hbase, List.append_nil, List.append_nil, List.append_assoc]
  refine run_append (run_newTables hfresh) ?_
  refine run_append (run_setFields _ rfl) ?_
  exact run_cons (step_pop _) rfl

/-- The calls of a derived class add the three tables of `derivedTables`. They need the base to be registered
with its methods, at `pa` and `pb`. -/
theorem run_registerClass_derived {ref : ClassRef} {pa pb : Nat} {parent : Table} (hbase : c.base = some ref)
    (hfresh : registry (metatable module c.name) = .nil)
    (hregistered : registry (metatable module ref.name) = .table pa) (hparent : tables[pa]? = some parent)
    (hmethods : parent.fields "__methods" = .table pb) :
    run arrays base.length ⟨base, tables, registry⟩ (registerClass module c) =
      some (register ⟨base, tables, registry⟩ (metatable module c.name)
        (derivedTables module c (arrays (methodsName c.ref)) tables.length pa pb)) := by
  -- the base is registered under another name, since nothing is yet under the name of the class
  have hregistered' : (if metatable module ref.name = metatable module c.name then .table tables.length
      else registry (metatable module ref.name)) = .table pa := by
    rw [if_neg fun heq => by simp [heq, hfresh] at hregistered, hregistered]
  simp only [registerClass, hbase, List.append_assoc]
  refine run_append (run_newTables hfresh) ?_
  refine run_append (run_chainToBase hregistered' hparent hmethods) ?_
  refine run_append (run_setFields _ rfl) ?_
  refine run_append (run_linkBase hregistered' rfl) ?_
  exact run_cons (step_pop _) rfl

end Class

/-! ## A registered class -/

/-- The metatable of a class stands at an address and its methods at another. -/
structure Registers (k : Machine) (module : String) (c : Class) (a b : Nat) : Prop where
  registered : k.registry (metatable module c.name) = .table a
  index : k.Holds a "__index" (.function (indexName c.ref))
  destroy : k.Holds a "__gc" (.function (destructor c.ref))
  methods : k.Holds a "__methods" (.table b)
  /-- The methods have the functions of the class itself, and nothing else. -/
  own : ∀ key, k.Holds b key (.ofFunction? (ownFunction? c key))
  root : c.base = none → k.Holds a "__base" .nil ∧ k.Delegates b none
  /-- What the methods lack is looked up in those of the base. -/
  derived : ∀ ref, c.base = some ref → ∃ pa pb, k.registry (metatable module ref.name) = .table pa ∧
    k.Holds pa "__methods" (.table pb) ∧ k.Holds a "__base" (.table pa) ∧ k.Delegates b (some pb)

variable {k k' : Machine}

/-- A registered class stays registered when the machine `Grows`, with the same addresses for its metatable and
its methods. -/
theorem Registers.grows {a b : Nat} (h : k.Registers module c a b) (hgrows : k.Grows k') :
    k'.Registers module c a b where
  registered := by rw [hgrows.registry _ (by simp [h.registered]), h.registered]
  index := h.index.grows hgrows
  destroy := h.destroy.grows hgrows
  methods := h.methods.grows hgrows
  own key := (h.own key).grows hgrows
  root hbase := ⟨(h.root hbase).1.grows hgrows, (h.root hbase).2.grows hgrows⟩
  derived ref hbase := by
    obtain ⟨pa, pb, hparent, hmethods, hlink, hdelegates⟩ := h.derived ref hbase
    refine ⟨pa, pb, ?_, hmethods.grows hgrows, hlink.grows hgrows, hdelegates.grows hgrows⟩
    rw [hgrows.registry _ (by simp [hparent]), hparent]

/-- Registering a new name only adds to the machine: the tables keep their addresses, and no registered name is
given to another table. -/
theorem grows_register {name : String} (hfresh : k.registry name = .nil) (new : List Table) :
    k.Grows (k.register name new) where
  tables := List.prefix_append _ _
  registry n hne := by
    have hname : n ≠ name := by
      rintro rfl
      exact hne hfresh
    exact if_neg hname

theorem table_register {name : String} {new : List Table} {i : Nat} {t : Table} (hnew : new[i]? = some t) :
    (k.register name new).tables[k.tables.length + i]? = some t := by
  rw [register, List.getElem?_append_right (by omega), Nat.add_sub_cancel_left, hnew]

/-- The tables of a class with or without a base are those that `Registers` asks for, up to what they say of the
base, which `hroot` and `hderived` give. -/
theorem registers_register {new : List Table} {first own : Table} (hfirst : new[0]? = some first)
    (hown : new[1]? = some own)
    (hfields : ∀ key, key ≠ "__base" → first.fields key = (metatableOf module c (k.tables.length + 1)).fields key)
    (hfunctions : own.fields = (Table.ofArray (instanceFunctions c)).fields)
    (hroot : c.base = none → first.fields "__base" = .nil ∧ own.metatable = none)
    (hderived : ∀ ref, c.base = some ref → ∃ pa pb,
      (k.register (metatable module c.name) new).registry (metatable module ref.name) = .table pa ∧
      (k.register (metatable module c.name) new).Holds pa "__methods" (.table pb) ∧
      first.fields "__base" = .table pa ∧
      (k.register (metatable module c.name) new).Delegates (k.tables.length + 1) (some pb)) :
    (k.register (metatable module c.name) new).Registers module c k.tables.length (k.tables.length + 1) where
  registered := if_pos rfl
  index := ⟨_, table_register hfirst, by simp [hfields, metatableOf, setFields]⟩
  destroy := ⟨_, table_register hfirst, by simp [hfields, metatableOf, setFields]⟩
  methods := ⟨_, table_register hfirst, by simp [hfields, metatableOf, setFields]⟩
  own key := ⟨_, table_register hown, by rw [hfunctions, Table.fields_ofArray, ownFunction?]⟩
  root hbase := ⟨⟨_, table_register hfirst, (hroot hbase).1⟩, .plain (table_register hown) (hroot hbase).2⟩
  derived ref hbase := by
    obtain ⟨pa, pb, hparent, hmethods, hlink, hdelegates⟩ := hderived ref hbase
    exact ⟨pa, pb, hparent, hmethods, ⟨_, table_register hfirst, hlink⟩, hdelegates⟩

/-- The tables of `rootTables` register a class without a base, whose methods delegate to no other table. -/
theorem registers_root (hbase : c.base = none) :
    (k.register (metatable module c.name)
      (rootTables module c (instanceFunctions c) k.tables.length)).Registers module c
      k.tables.length (k.tables.length + 1) := by
  refine registers_register rfl rfl (fun _ _ => rfl) rfl (fun _ => ⟨?_, Table.metatable_ofArray _⟩) ?_
  · simp [metatableOf, setFields]
  · simp [hbase]

/-- The tables of `derivedTables` register a class with a base, if the base is registered before it. -/
theorem registers_derived {ref : ClassRef} {pa pb : Nat} (hbase : c.base = some ref)
    (hfresh : k.registry (metatable module c.name) = .nil)
    (hregistered : k.registry (metatable module ref.name) = .table pa)
    (hmethods : k.Holds pa "__methods" (.table pb)) :
    (k.register (metatable module c.name)
      (derivedTables module c (instanceFunctions c) k.tables.length pa pb)).Registers module c
      k.tables.length (k.tables.length + 1) := by
  have hgrows := grows_register hfresh (derivedTables module c (instanceFunctions c) k.tables.length pa pb)
  refine registers_register rfl rfl (fun key hkey => if_neg hkey) rfl (by simp [hbase]) fun ref' hsome => ?_
  obtain rfl : ref = ref' := Option.some.inj (hbase.symm.trans hsome)
  refine ⟨pa, pb, ?_, hmethods.grows hgrows, by simp, ?_⟩
  · rw [hgrows.registry _ (by simp [hregistered]), hregistered]
  · exact .indexed (table_register (i := 1) rfl) rfl ⟨_, table_register (i := 2) rfl, by simp⟩

/-- The base of a class, if it has one, is registered with its methods. -/
def BaseReady (k : Machine) (module : String) (c : Class) : Prop :=
  ∀ ref, c.base = some ref → ∃ pa pb, k.registry (metatable module ref.name) = .table pa ∧
    k.Holds pa "__methods" (.table pb)

/-- **One class.** From any machine in which the base is ready and the name is free, the calls of
`registerClass` end with the stack that they began with, and the class is registered. -/
theorem run_registerClass {arrays : String → List (String × String)} (k : Machine)
    (harrays : arrays (methodsName c.ref) = instanceFunctions c)
    (hfresh : k.registry (metatable module c.name) = .nil) (hready : k.BaseReady module c) :
    ∃ new, k.run arrays k.stack.length (registerClass module c) =
        some (k.register (metatable module c.name) new) ∧
      ∃ a b, (k.register (metatable module c.name) new).Registers module c a b := by
  cases hbase : c.base with
  | none =>
    have hrun := @run_registerClass_root module c arrays k.stack k.tables k.registry hbase hfresh
    rw [harrays] at hrun
    exact ⟨_, hrun, _, _, registers_root hbase⟩
  | some ref =>
    obtain ⟨pa, pb, hregistered, hmethods⟩ := hready ref hbase
    obtain ⟨parent, hparent, hfield⟩ := hmethods
    have hrun := @run_registerClass_derived module c arrays k.stack k.tables k.registry ref pa pb parent hbase hfresh
      hregistered hparent hfield
    rw [harrays] at hrun
    exact ⟨_, hrun, _, _, registers_derived hbase hfresh hregistered ⟨parent, hparent, hfield⟩⟩

/-! ## The calls of all classes -/

/-- The machine after the calls of some classes, from a machine without their metatables. -/
structure Progress (start k : Machine) (module : String) (classes : List Class) : Prop where
  stack : k.stack = start.stack
  grows : start.Grows k
  /-- No other name is registered. -/
  frame : ∀ name, (∀ c ∈ classes, name ≠ metatable module c.name) → k.registry name = start.registry name
  registers : ∀ c ∈ classes, ∃ a b, k.Registers module c a b

variable {start : Machine}

theorem Progress.nil (start : Machine) (module : String) : start.Progress start module [] where
  stack := rfl
  grows := .refl start
  frame _ _ := rfl
  registers c hc := by cases hc

/-- One more class: its name is new, so what `Progress` says of the classes before it still holds. -/
theorem Progress.snoc {classes : List Class} {new : List Table} {a b : Nat}
    (h : start.Progress k module classes) (hfresh : k.registry (metatable module c.name) = .nil)
    (hregisters : (k.register (metatable module c.name) new).Registers module c a b) :
    start.Progress (k.register (metatable module c.name) new) module (classes ++ [c]) where
  stack := h.stack
  grows := h.grows.trans (grows_register hfresh new)
  frame name hname := by
    have hne : name ≠ metatable module c.name := hname c (by simp)
    rw [← h.frame name fun d hd => hname d (List.mem_append_left _ hd)]
    exact if_neg hne
  registers d hd := by
    rcases List.mem_append.mp hd with hd | hd
    · obtain ⟨a', b', hd⟩ := h.registers d hd
      exact ⟨a', b', hd.grows (grows_register hfresh new)⟩
    · rw [List.mem_singleton.mp hd]
      exact ⟨a, b, hregisters⟩

/-- The base of the next class is among those that are registered, because `Model.ofSpec` puts bases before the
classes derived from them. -/
theorem Progress.baseReady {before after : List Class} (h : start.Progress k module before)
    (hbound : Model.BoundFrom s declared m) (hsplit : m.classes = before ++ c :: after) : k.BaseReady module c := by
  intro ref hbase
  obtain ⟨p, hp, rfl⟩ := hbound.exists_base (by simp [hsplit]) hbase
  -- the order of the classes puts the base among those registered already
  obtain ⟨pa, pb, hregisters⟩ := h.registers p (hbound.mem_before_of_baseOf hsplit ⟨hp, hbase⟩)
  exact ⟨pa, pb, hregisters.registered, hregisters.methods⟩

end Machine

/-- The calls that register the metatables of classes. -/
def registration (module : String) (classes : List Class) : List Call := classes.flatMap (registerClass module)

/-- **All classes.** The calls of a first part of the classes succeed, by induction over that part: each class
finds its base ready and its own name free. -/
theorem run_registration (h : Model.BoundFrom s declared m) {start : Machine}
    (hfresh : ∀ c ∈ m.classes, start.registry (metatable module c.name) = .nil) {before after : List Class}
    (hsplit : m.classes = before ++ after) :
    ∃ k, start.run (functionsOf m) start.stack.length (registration module before) = some k ∧
      start.Progress k module before := by
  induction before using List.reverseRecOn generalizing after with
  | nil => exact ⟨start, rfl, .nil start module⟩
  | append_singleton before c ih =>
    rw [List.append_assoc, List.singleton_append] at hsplit
    obtain ⟨k, hrun, hprogress⟩ := ih hsplit
    have hc : c ∈ m.classes := by simp [hsplit]
    have hnodup := h.nodup_classes
    rw [hsplit, List.map_append, List.map_cons, List.nodup_middle, List.nodup_cons] at hnodup
    have hfresh' : k.registry (metatable module c.name) = .nil := by
      rw [hprogress.frame _ fun d hd heq => ?_, hfresh c hc]
      refine hnodup.1 (List.mem_append_left _ (List.mem_map.mpr ⟨d, hd, ?_⟩))
      exact (metatable_inj.mp heq).symm
    obtain ⟨new, hstep, a, b, hregisters⟩ := k.run_registerClass (functionsOf_methodsName h hc) hfresh'
      (hprogress.baseReady h hsplit)
    rw [hprogress.stack] at hstep
    refine ⟨_, ?_, hprogress.snoc hfresh' hregisters⟩
    rw [registration, List.flatMap_append, List.flatMap_singleton]
    exact Machine.run_append hrun hstep

/-! ## Looking up methods -/

/-- The function under a name in a class or the nearest of its bases that has one. -/
def nearestFunction? (m : Model) (c : Class) (key : String) : Option String :=
  (m.lineage c).findSome? (ownFunction? · key)

namespace Machine

variable {k : Machine}

/-- A class that has the function itself is not passed over: `Finds` stops at its own methods. -/
theorem Registers.finds_own {a b : Nat} {key function : String} (h : k.Registers module c a b)
    (hown : ownFunction? c key = some function) (v : Datum) : k.Finds key b v ↔ v = .function function := by
  have hholds := h.own key
  rw [hown] at hholds
  exact finds_iff_of_holds hholds Datum.noConfusion

theorem Registers.holds_nil {a b : Nat} {key : String} (h : k.Registers module c a b)
    (hown : ownFunction? c key = none) : k.Holds b key .nil := by
  have hholds := h.own key
  rwa [hown] at hholds

/-- Looking up goes along the lineage, by induction over the `ClassForest.Level` of the class: a table that
lacks the name leads to that of the base. -/
theorem Registers.finds_iff_lineageTo (hbound : Model.BoundFrom s declared m)
    (hall : ∀ c ∈ m.classes, ∃ a b, k.Registers module c a b) {level : Nat}
    (hlevel : ClassForest.Level declared c level) {depth a b : Nat} (hdepth : level < depth)
    (h : k.Registers module c a b) (key : String) (v : Datum) :
    k.Finds key b v ↔ v = .ofFunction? ((m.lineageTo depth c).findSome? (ownFunction? · key)) := by
  induction hlevel generalizing depth a b with
  | @root c _ hbase =>
    obtain ⟨depth, rfl⟩ := Nat.exists_eq_add_one.mpr hdepth
    rw [Model.BoundFrom.lineageTo_root hbase, List.findSome?_singleton]
    cases hown : ownFunction? c key with
    | some function => exact h.finds_own hown v
    | none => exact finds_iff_of_missing (h.holds_nil hown) (h.root hbase).2
  | @step c p ref level hc hbase hname hp ih =>
    obtain ⟨depth, rfl⟩ := Nat.exists_eq_add_one.mpr (Nat.zero_lt_of_lt hdepth)
    have hmem : p ∈ m.classes := hbound.mem_classes.mpr hp.mem
    have hbase' := hbound.base_eq_ref hc hbase hp.mem hname
    rw [hbound.lineageTo_step hmem hbase', List.findSome?_cons]
    cases hown : ownFunction? c key with
    | some function => exact h.finds_own hown v
    | none =>
      obtain ⟨pa, pb, hparent, hmethods, -, hdelegates⟩ := h.derived _ hbase'
      obtain ⟨pa', pb', hregisters⟩ := hall p hmem
      -- the methods that are looked into are those of the base
      obtain rfl : pa = pa' := Datum.table.inj (hparent.symm.trans hregisters.registered)
      obtain rfl : pb = pb' := Datum.table.inj (hmethods.eq hregisters.methods)
      rw [finds_iff_of_delegated (h.holds_nil hown) hdelegates]
      exact ih (by omega) hregisters

/-- **Looking up.** What `Finds` gives for a name in the methods of a class is the function of the nearest class
of its lineage that has one, and nil if there is none. -/
theorem Registers.finds_iff (hbound : Model.BoundFrom s declared m)
    (hall : ∀ c ∈ m.classes, ∃ a b, k.Registers module c a b) (hc : c ∈ m.classes) {a b : Nat}
    (h : k.Registers module c a b) (key : String) (v : Datum) :
    k.Finds key b v ↔ v = .ofFunction? (nearestFunction? m c key) := by
  obtain ⟨level, hlevel⟩ := hbound.levels c (hbound.mem_classes.mp hc)
  have hlength := hlevel.lt_length hbound.declares.nodup_names
  rw [← hbound.perm_classes.length_eq] at hlength
  exact h.finds_iff_lineageTo hbound hall hlevel hlength key v

end Machine

/-! ## The function of the unit -/

theorem Call.text_ne_empty (call : Call) : call.text ≠ "" := by
  unfold Call.text
  cases call <;> simp [String.append_eq_empty_iff]

/-- The function that registers the metatables makes these calls and no others: apart from empty lines, its body
is the statement of each call of `registration` in order. -/
theorem registerMetatables_filter (module : String) (classes : List Class) :
    (registerMetatables module classes).filter (· ≠ Code.blank) =
      Code.block "static void register_metatables(lua_State* L) \x7b"
        ((registration module classes).map fun call => .line call.text) := by
  have hcalls (calls : List Call) : (calls.map fun call => Step.line call.text).filter (· ≠ Code.blank) =
      calls.map fun call => Step.line call.text := by
    refine List.filter_eq_self.mpr fun step hstep => ?_
    obtain ⟨call, -, rfl⟩ := List.mem_map.mp hstep
    simp [Code.blank, call.text_ne_empty]
  have hbody : (classes.flatMap fun c => (registerClass module c).map (fun call => Step.line call.text)
      ++ [Code.blank]).filter (· ≠ Code.blank) = (registration module classes).map fun call => .line call.text := by
    rw [registration, List.filter_flatMap, List.map_flatMap]
    refine List.flatMap_congr fun c _ => ?_
    rw [List.filter_append, hcalls]
    simp
  rw [registerMetatables, Code.block, Code.block, List.filter_append, List.cons_append, List.filter_cons_of_pos,
    List.filter_append, hbody]
  · simp [Code.blank]
  · simp [Code.blank]

/-- The statements of the function that registers the metatables, read as calls by `Call.ofText?`. -/
def EmittedCalls (module : String) (classes : List Class) (calls : List Call) : Prop :=
  ∃ statements : List String,
    (registerMetatables module classes).filter (· ≠ Code.blank) =
      Code.block "static void register_metatables(lua_State* L) \x7b" (statements.map .line) ∧
    statements.mapM Call.ofText? = some calls

/-- The statements of the unit are read as the calls of `registration`, by the round trip `Call.ofText?_text` of
each of them. -/
theorem emittedCalls_registration (module : String) (classes : List Class) :
    EmittedCalls module classes (registration module classes) := by
  refine ⟨(registration module classes).map Call.text, ?_, Call.mapM_ofText?_text _⟩
  rw [registerMetatables_filter, List.map_map]
  rfl

/-- **Registration.** The calls that stand in the text of the unit register every class of a bound specification.
They never reach below the stack that they find and leave it as it was, and a method that is looked up in the
methods of a class is that of the nearest class of its lineage (`nearestFunction?`). -/
theorem metatables_of_ofSpec (h : Model.ofSpec s = .ok m) (module : String) (start : Machine)
    (hfresh : ∀ c ∈ m.classes, start.registry (metatable module c.name) = .nil) :
    m.classes.flatMap methodTables = (m.classes.flatMap arraysOf).flatMap (fun a => arrayDefinition a.1 a.2) ∧
      ∃ calls k, EmittedCalls module m.classes calls ∧
        start.run (functionsOf m) start.stack.length calls = some k ∧
        start.Progress k module m.classes ∧
        ∀ c ∈ m.classes, ∀ a b, k.Registers module c a b →
          ∀ key v, k.Finds key b v ↔ v = .ofFunction? (nearestFunction? m c key) := by
  obtain ⟨declared, hbound⟩ := Model.ofSpec_eq_ok.mp h
  obtain ⟨k, hrun, hprogress⟩ := run_registration hbound hfresh (List.append_nil m.classes).symm
  refine ⟨?_, _, k, emittedCalls_registration module m.classes, hrun, hprogress, fun c hc a b hregisters => ?_⟩
  · rw [List.flatMap_assoc]
    exact List.flatMap_congr fun c _ => methodTables_eq c
  · exact hregisters.finds_iff hbound hprogress.registers hc

/-- A class, one derived from it that has a method of the same name, and one derived from that. -/
def fleet : Spec where
  primitives := [.str "void"]
  classes :=
    [(.str "Launch", { Model.memberless "Launch" (.str "Ferry") .null with
        methods := [(.str "hoist", [{ sig := ⟨[], .named "void", {}⟩ }])] }),
      (.str "Ferry", { Model.memberless "Ferry" (.str "Ship") .null with
        methods := [(.str "dock", [{ sig := ⟨[], .named "void", {}⟩ }])] }),
      (.str "Ship", { Model.memberless "Ship" .null .null with
        methods := [(.str "dock", [{ sig := ⟨[], .named "void", {}⟩ }]),
          (.str "signal", [{ sig := ⟨[], .named "void", {}⟩ }])] })]

/-- A machine in use. -/
def busy : Machine where
  stack := [.text "port", .foreign 0]
  tables := [{}]
  registry := fun name => if name = "FILE*" then .table 0 else .nil

/-- In the fleet, `Launch` finds `dock` in `Ferry` before `Ship`, and `signal` two classes up. -/
theorem metatables_fleet :
    ∃ m, Model.ofSpec fleet = .ok m ∧
      m.classes.map (fun c => (c.name, ["dock", "signal", "hoist"].map (nearestFunction? m c))) =
        [("Ship", [some "l_Ship_dock", some "l_Ship_signal", none]),
          ("Ferry", [some "l_Ferry_dock", some "l_Ship_signal", none]),
          ("Launch", [some "l_Ferry_dock", some "l_Ship_signal", some "l_Launch_hoist"])] ∧
      ∃ calls k, EmittedCalls "port" m.classes calls ∧
        busy.run (functionsOf m) busy.stack.length calls = some k ∧ busy.Progress k "port" m.classes ∧
        ∀ c ∈ m.classes, ∀ a b, k.Registers "port" c a b →
          ∀ key v, k.Finds key b v ↔ v = .ofFunction? (nearestFunction? m c key) := by
  have hfound : (Model.ofSpec fleet).toOption.map (fun m =>
      (m.classes.map (fun c => (c.name, ["dock", "signal", "hoist"].map (nearestFunction? m c))),
        m.classes.all fun c => busy.registry (metatable "port" c.name) = .nil)) =
      some ([("Ship", [some "l_Ship_dock", some "l_Ship_signal", none]),
        ("Ferry", [some "l_Ferry_dock", some "l_Ship_signal", none]),
        ("Launch", [some "l_Ferry_dock", some "l_Ship_signal", some "l_Launch_hoist"])], true) := by
    decide +kernel
  cases hm : Model.ofSpec fleet with
  | error e => rw [hm] at hfound; cases hfound
  | ok m =>
    rw [hm] at hfound
    obtain ⟨hnearest, hfresh⟩ := Prod.mk.inj (Option.some.inj hfound)
    have hnil : ∀ c ∈ m.classes, busy.registry (metatable "port" c.name) = .nil := fun c hc =>
      of_decide_eq_true (List.all_eq_true.mp hfresh c hc)
    exact ⟨m, rfl, hnearest, (metatables_of_ofSpec hm "port" busy hnil).2⟩

/-- The methods of the class `Store` have no entry with the wrapper of `insertAny`, one of its own: that of
`insertAnyWithIndex` stands in its place. -/
theorem metatables_colliding :
    ∃ m c x calls k a b, Model.ofSpec colliding = .ok m ∧ c ∈ m.classes ∧ x ∈ c.methods ∧
      x.kind = .onInstance ∧ EmittedCalls "app" m.classes calls ∧
      busy.run (functionsOf m) busy.stack.length calls = some k ∧
      k.registry (metatable "app" c.name) = .table a ∧ k.Holds a "__methods" (.table b) ∧
      ∀ key, ¬k.Holds b key (.function (wrapperName x)) := by
  have hsnake : Text.snakeCase "insertAny_withIndex" = Text.snakeCase "insertAnyWithIndex" := by decide +kernel
  obtain ⟨m, c, x, later, hm, hc, hx, hkind, hnames, hlater, hfunctions⟩ : ∃ m c x later,
      Model.ofSpec colliding = .ok m ∧ c ∈ m.classes ∧ x ∈ c.methods ∧ x.kind = .onInstance ∧
      (∀ d ∈ m.classes, d.name = "Store") ∧ later ≠ wrapperName x ∧
      instanceFunctions c = [(Text.snakeCase "insertAny_withIndex", wrapperName x),
        (Text.snakeCase "insertAnyWithIndex", later)] := by
    refine ⟨_, _, _, _, rfl, List.mem_singleton.mpr rfl, List.mem_cons_self, rfl, ?_, ?_, rfl⟩
    · exact List.forall_mem_singleton.mpr rfl
    · decide
  obtain ⟨declared, hbound⟩ := Model.ofSpec_eq_ok.mp hm
  have hfresh : ∀ d ∈ m.classes, busy.registry (metatable "app" d.name) = .nil := by
    intro d hd
    rw [hnames d hd]
    decide
  obtain ⟨k, hrun, hprogress⟩ := run_registration hbound hfresh (List.append_nil m.classes).symm
  obtain ⟨a, b, hregisters⟩ := hprogress.registers c hc
  refine ⟨m, c, x, _, k, a, b, hm, hc, hx, hkind, emittedCalls_registration _ _, hrun, hregisters.registered,
    hregisters.methods, fun key hholds => ?_⟩
  -- of two entries with one name, the last is the one that the table keeps
  have hown := hholds.eq (hregisters.own key)
  rw [ownFunction?, hfunctions, hsnake] at hown
  by_cases hkey : key = Text.snakeCase "insertAnyWithIndex"
  · rw [hkey] at hown
    exact hlater (by simpa [Datum.ofFunction?] using hown.symm)
  · have hne : (key == Text.snakeCase "insertAnyWithIndex") = false := beq_false_of_ne hkey
    simp [Datum.ofFunction?, List.lookup_cons, hne] at hown

end LuaGlue.Lua
