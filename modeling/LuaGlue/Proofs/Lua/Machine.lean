import LuaGlue.Lua.Call

/-!
# A machine for calls of the Lua C interface

What the calls that set up tables do to the state of Lua.

- **State** (`Machine`): the stack, the tables by their addresses and the registry.
- **One call** (`Machine.step`): fails where the call would reach below a floor of the stack, or needs a
  metamethod. So a run that succeeds (`Machine.run`) does neither.
- **Looking up** (`Machine.Finds`): reading a field of a table through the tables that it delegates to.
-/

namespace LuaGlue.Lua

/-- A Lua value. Values that are none of the first four kinds are never looked into. -/
inductive Datum where
  | nil
  | text (s : String)
  | function (name : String)
  | table (address : Nat)
  | foreign (id : Nat)
  deriving DecidableEq, Repr

/-- A table by its text keys. -/
structure Table where
  fields : String → Datum := fun _ => .nil
  /-- The address of the metatable. -/
  metatable : Option Nat := none

namespace Table

/-- The table with another value of a field. -/
def set (t : Table) (key : String) (v : Datum) : Table :=
  { t with fields := fun k => if k = key then v else t.fields k }

@[simp] theorem set_fields (t : Table) (key k : String) (v : Datum) :
    (t.set key v).fields k = if k = key then v else t.fields k := rfl

/-- Reading or writing the field asks no metamethod. -/
def isRaw (t : Table) (key : String) : Bool := t.fields key != .nil || t.metatable.isNone

/-- The table of the functions in an array, registered in order. -/
def ofArray (functions : List (String × String)) : Table := functions.foldl (fun t f => t.set f.1 (.function f.2)) {}

end Table

/-- The state of Lua as far as the calls see it. -/
structure Machine where
  /-- The values on the stack, the top first. -/
  stack : List Datum
  /-- The tables; an address is a position in the list. -/
  tables : List Table
  /-- The registry by its text keys. -/
  registry : String → Datum

namespace Machine

def push (m : Machine) (v : Datum) : Machine := { m with stack := v :: m.stack }

/-- Makes a table and pushes it. -/
def create (m : Machine) (t : Table) : Machine := { m with tables := m.tables ++ [t] }.push (.table m.tables.length)

/-- The value at an index that counts from the top. The lowest `floor` values are out of reach. -/
def slot? (m : Machine) (floor : Nat) (index : Int) : Option Datum :=
  if index < 0 ∧ floor + index.natAbs ≤ m.stack.length then m.stack[index.natAbs - 1]? else none

/-- The address and the content of the table at an index. -/
def table? (m : Machine) (floor : Nat) (index : Int) : Option (Nat × Table) :=
  match m.slot? floor index with
  | some (.table a) => m.tables[a]?.map (a, ·)
  | _ => none

/-- Takes values from the top, none of the lowest `floor`. -/
def pop? (m : Machine) (floor count : Nat) : Option Machine :=
  if floor + count ≤ m.stack.length then some { m with stack := m.stack.drop count } else none

/-- Replaces the table at an address and takes a value from the top. -/
def write? (m : Machine) (floor a : Nat) (t : Table) : Option Machine :=
  { m with tables := m.tables.set a t }.pop? floor 1

/-- What a call does. The functions of an array are given by `arrays`. -/
def step (arrays : String → List (String × String)) (floor : Nat) (m : Machine) : Call → Option Machine
  | .newMetatable name =>
    match m.registry name with
    | .nil =>
      some { m.create (Table.set {} "__name" (.text name)) with
        registry := fun n => if n = name then .table m.tables.length else m.registry n }
    | v => some (m.push v)
  | .newLib array => some (m.create (.ofArray (arrays array)))
  | .createTable _ _ => some (m.create {})
  | .getMetatable name => some (m.push (m.registry name))
  | .getField index key => do
    let t ← m.table? floor index
    if t.2.isRaw key then some (m.push (t.2.fields key)) else none
  | .setField index key => do
    let v ← m.slot? floor (-1)
    let t ← m.table? floor index
    if t.2.isRaw key then m.write? floor t.1 (t.2.set key v) else none
  | .setMetatable index => do
    let v ← m.slot? floor (-1)
    let t ← m.table? floor index
    match v with
    | .nil => m.write? floor t.1 { t.2 with metatable := none }
    | .table a => m.write? floor t.1 { t.2 with metatable := some a }
    | _ => none
  | .pushFunction function => some (m.push (.function function))
  | .pop count => m.pop? floor count

/-- What calls do one after the other. -/
def run (arrays : String → List (String × String)) (floor : Nat) (m : Machine) (calls : List Call) :
    Option Machine :=
  calls.foldlM (step arrays floor) m

/-! ## One call

The values above the floor are written apart from those below it. -/

section Call

variable {arrays : String → List (String × String)} {base top : List Datum} {tables : List Table}
  {registry : String → Datum}

/-- The values above the floor are `top` and those below it `base`, so an index that counts from the top stays
in `top` and `slot?` finds what stands there. -/
theorem slot?_append {v : Datum} {i : Nat} (hv : top[i]? = some v) :
    slot? ⟨top ++ base, tables, registry⟩ base.length (-(i + 1 : Nat)) = some v := by
  have hi : i < top.length := (List.getElem?_eq_some_iff.mp hv).1
  have hindex : (-(i + 1 : Nat) : Int).natAbs = i + 1 := by omega
  rw [slot?, hindex, if_pos ⟨by omega, by simp; omega⟩, Nat.add_sub_cancel, List.getElem?_append_left hi, hv]

theorem slot?_cons (v : Datum) :
    slot? ⟨v :: top ++ base, tables, registry⟩ base.length (-1) = some v :=
  slot?_append (show (v :: top)[0]? = some v from rfl)

/-- `table?` at such an index gives the address that stands in `top` together with the content of `tables` at
this address. -/
theorem table?_append {i a : Nat} {t : Table} (hv : top[i]? = some (.table a)) (ht : tables[a]? = some t) :
    table? ⟨top ++ base, tables, registry⟩ base.length (-(i + 1 : Nat)) = some (a, t) := by
  rw [table?, slot?_append hv]
  simp [ht]

/-- `pop?` takes as many values as there are in `taken` and leaves the rest, since none of them lies below the
floor. -/
theorem pop?_append (taken : List Datum) :
    pop? ⟨taken ++ top ++ base, tables, registry⟩ base.length taken.length =
      some ⟨top ++ base, tables, registry⟩ := by
  rw [pop?, if_pos (by simp; omega)]
  simp

theorem write?_cons (v : Datum) (a : Nat) (t : Table) :
    write? ⟨v :: top ++ base, tables, registry⟩ base.length a t = some ⟨top ++ base, tables.set a t, registry⟩ :=
  pop?_append [v]

theorem isRaw_of_ne_nil {t : Table} {key : String} (h : t.fields key ≠ .nil) : t.isRaw key := by
  simp [Table.isRaw, h]

theorem isRaw_of_plain {t : Table} (h : t.metatable = none) (key : String) : t.isRaw key := by
  simp [Table.isRaw, h]

/-- `lua_getfield` reads a field without a metamethod, so the value of the field itself is pushed and no table
changes. -/
theorem step_getField {i a : Nat} {t : Table} {key : String} (hv : top[i]? = some (.table a))
    (ht : tables[a]? = some t) (hraw : t.isRaw key) :
    step arrays base.length ⟨top ++ base, tables, registry⟩ (.getField (-(i + 1 : Nat)) key) =
      some ⟨t.fields key :: top ++ base, tables, registry⟩ := by
  rw [step, table?_append hv ht]
  exact if_pos hraw

/-- `lua_setfield` takes the value on top. The index counts that value too, so the table at position `i` of the
rest has the index `-(i + 2)`. -/
theorem step_setField {v : Datum} {i a : Nat} {t : Table} {key : String} (hv : top[i]? = some (.table a))
    (ht : tables[a]? = some t) (hraw : t.isRaw key) :
    step arrays base.length ⟨v :: top ++ base, tables, registry⟩ (.setField (-(i + 2 : Nat)) key) =
      some ⟨top ++ base, tables.set a (t.set key v), registry⟩ := by
  have htop : (v :: top)[i + 1]? = some (.table a) := hv
  rw [step, slot?_cons, table?_append htop ht]
  exact (if_pos hraw).trans (write?_cons v a _)

/-- `lua_setmetatable` takes the table on top as the metatable of another one. As in `step_setField`, the index
counts the value that is taken. -/
theorem step_setMetatable {i a b : Nat} {t : Table} (hv : top[i]? = some (.table a)) (ht : tables[a]? = some t) :
    step arrays base.length ⟨.table b :: top ++ base, tables, registry⟩ (.setMetatable (-(i + 2 : Nat))) =
      some ⟨top ++ base, tables.set a { t with metatable := some b }, registry⟩ := by
  have htop : (.table b :: top : List Datum)[i + 1]? = some (.table a) := hv
  rw [step, slot?_cons, table?_append htop ht]
  exact write?_cons (.table b) a _

variable (floor : Nat)

/-- `luaL_newmetatable` makes a table only if nothing is registered under the name. The new table knows its name
by `__name`. -/
theorem step_newMetatable {name : String} (h : registry name = .nil) :
    step arrays floor ⟨top ++ base, tables, registry⟩ (.newMetatable name) =
      some ⟨.table tables.length :: top ++ base, tables ++ [Table.set {} "__name" (.text name)],
        fun n => if n = name then .table tables.length else registry n⟩ := by
  simp only [step, h]
  rfl

theorem step_newLib (array : String) :
    step arrays floor ⟨top ++ base, tables, registry⟩ (.newLib array) =
      some ⟨.table tables.length :: top ++ base, tables ++ [.ofArray (arrays array)], registry⟩ := rfl

theorem step_createTable (sequence fields : Nat) :
    step arrays floor ⟨top ++ base, tables, registry⟩ (.createTable sequence fields) =
      some ⟨.table tables.length :: top ++ base, tables ++ [({} : Table)], registry⟩ := rfl

theorem step_getMetatable (name : String) :
    step arrays floor ⟨top ++ base, tables, registry⟩ (.getMetatable name) =
      some ⟨registry name :: top ++ base, tables, registry⟩ := rfl

theorem step_pushFunction (function : String) :
    step arrays floor ⟨top ++ base, tables, registry⟩ (.pushFunction function) =
      some ⟨.function function :: top ++ base, tables, registry⟩ := rfl

/-- `lua_pop` of one value takes the top, which is above the floor. -/
theorem step_pop (v : Datum) :
    step arrays base.length ⟨v :: top ++ base, tables, registry⟩ (.pop 1) = some ⟨top ++ base, tables, registry⟩ :=
  pop?_append [v]

end Call

/-! ## A run -/

@[simp] theorem run_nil (arrays : String → List (String × String)) (floor : Nat) (m : Machine) :
    m.run arrays floor [] = some m := rfl

/-- A run makes its first call and goes on from there. The proofs about `registerClass` apply this once for each
call. -/
theorem run_cons {arrays : String → List (String × String)} {floor : Nat} {m m' final : Machine} {call : Call}
    {calls : List Call} (h : m.step arrays floor call = some m') (hrest : m'.run arrays floor calls = some final) :
    m.run arrays floor (call :: calls) = some final := by
  rw [run, List.foldlM_cons, h]
  exact hrest

/-- Runs of two lists of calls make a run of both, so the calls of a class are followed part by part. -/
theorem run_append {arrays : String → List (String × String)} {floor : Nat} {m m' final : Machine}
    {calls rest : List Call} (h : m.run arrays floor calls = some m')
    (hrest : m'.run arrays floor rest = some final) : m.run arrays floor (calls ++ rest) = some final := by
  rw [run, List.foldlM_append, ← run, h]
  exact hrest

/-! ## Reading -/

/-- The table at an address has a value in a field of its own. -/
def Holds (m : Machine) (a : Nat) (key : String) (v : Datum) : Prop := ∃ t, m.tables[a]? = some t ∧ t.fields key = v

/-- What a table looks up elsewhere: nothing, or the fields that it lacks in another table. -/
inductive Delegates (m : Machine) (a : Nat) : Option Nat → Prop
  | plain {t} : m.tables[a]? = some t → t.metatable = none → Delegates m a none
  | unindexed {t b} : m.tables[a]? = some t → t.metatable = some b → m.Holds b "__index" .nil → Delegates m a none
  | indexed {t b c} : m.tables[a]? = some t → t.metatable = some b → m.Holds b "__index" (.table c) →
      Delegates m a (some c)

/-- The value that Lua finds for a key in the table at an address. -/
inductive Finds (m : Machine) (key : String) : Nat → Datum → Prop
  | own {a v} : m.Holds a key v → v ≠ .nil → Finds m key a v
  | missing {a} : m.Holds a key .nil → m.Delegates a none → Finds m key a .nil
  | delegated {a b v} : m.Holds a key .nil → m.Delegates a (some b) → Finds m key b v → Finds m key a v

variable {m : Machine} {a : Nat} {key : String}

/-- A field of a table has one value, because `Holds` says what stands at an address. -/
theorem Holds.eq {v w : Datum} (hv : m.Holds a key v) (hw : m.Holds a key w) : v = w := by
  obtain ⟨t, ht, rfl⟩ := hv
  obtain ⟨u, hu, rfl⟩ := hw
  rw [Option.some.inj (ht.symm.trans hu)]

/-- A table delegates to one other table or to none, so what `Delegates` finds below a metatable is unique. -/
theorem Delegates.eq {b c : Option Nat} (hb : m.Delegates a b) (hc : m.Delegates a c) : b = c := by
  cases hb <;> cases hc <;> grind [Holds.eq]

/-- A key that the table holds itself is found there and nowhere else: `Finds` does not look into other tables
then. -/
theorem finds_iff_of_holds {v w : Datum} (h : m.Holds a key w) (hw : w ≠ .nil) : m.Finds key a v ↔ v = w := by
  constructor
  · intro hfinds
    cases hfinds with
    | own hv _ => exact hv.eq h
    | missing hnil _ => exact absurd (h.eq hnil) hw
    | delegated hnil _ _ => exact absurd (h.eq hnil) hw
  · rintro rfl
    exact .own h hw

/-- A key that the table lacks is nil if the table delegates to no other one. -/
theorem finds_iff_of_missing {v : Datum} (h : m.Holds a key .nil) (hnone : m.Delegates a none) :
    m.Finds key a v ↔ v = .nil := by
  constructor
  · intro hfinds
    cases hfinds with
    | own hv _ => exact hv.eq h
    | missing _ _ => rfl
    | delegated _ hsome _ => cases hsome.eq hnone
  · rintro rfl
    exact .missing h hnone

/-- A key that the table lacks is what `Finds` finds in the table that it delegates to. -/
theorem finds_iff_of_delegated {v : Datum} {b : Nat} (h : m.Holds a key .nil) (hb : m.Delegates a (some b)) :
    m.Finds key a v ↔ m.Finds key b v := by
  constructor
  · intro hfinds
    cases hfinds with
    | own hv hne => exact absurd (hv.eq h) hne
    | missing _ hnone => cases hnone.eq hb
    | delegated _ hc hfinds =>
      cases hc.eq hb
      exact hfinds
  · exact .delegated h hb

/-! ## Growth -/

/-- Nothing that the first machine has is lost or changed in the second. -/
structure Grows (m m' : Machine) : Prop where
  tables : m.tables <+: m'.tables
  registry : ∀ name, m.registry name ≠ .nil → m'.registry name = m.registry name

variable {m' : Machine}

theorem Grows.refl (m : Machine) : m.Grows m := ⟨List.prefix_rfl, fun _ _ => rfl⟩

/-- Growing twice is growing: tables stay where they are, and a name that is registered stays registered. -/
theorem Grows.trans {m'' : Machine} (h : m.Grows m') (h' : m'.Grows m'') : m.Grows m'' where
  tables := h.tables.trans h'.tables
  registry name hne := by
    have heq := h.registry name hne
    rw [h'.registry name (heq ▸ hne), heq]

theorem Grows.table {t : Table} (h : m.Grows m') (ht : m.tables[a]? = some t) : m'.tables[a]? = some t := by
  obtain ⟨new, hnew⟩ := h.tables
  rw [← hnew, List.getElem?_append_left (List.getElem?_eq_some_iff.mp ht).1, ht]

/-- What a table holds is not changed when other tables are added, since `Grows` keeps the tables that are
there. -/
theorem Holds.grows {v : Datum} (h : m.Holds a key v) (hgrows : m.Grows m') : m'.Holds a key v := by
  obtain ⟨t, ht, hv⟩ := h
  exact ⟨t, hgrows.table ht, hv⟩

/-- A table goes on to delegate to the same one: neither its metatable nor the `__index` of that changes when
the machine `Grows`. -/
theorem Delegates.grows {b : Option Nat} (h : m.Delegates a b) (hgrows : m.Grows m') : m'.Delegates a b := by
  cases h with
  | plain ht hnone => exact .plain (hgrows.table ht) hnone
  | unindexed ht hmeta hnil => exact .unindexed (hgrows.table ht) hmeta (hnil.grows hgrows)
  | indexed ht hmeta hindex => exact .indexed (hgrows.table ht) hmeta (hindex.grows hgrows)

end Machine

end LuaGlue.Lua
