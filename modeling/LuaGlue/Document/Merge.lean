import LuaGlue.Error

/-!
# Merging documents

Several documents describe one specification. `merge` joins them table by table in the order given:
the entries of mappings and the items of lists are appended. No entry may be declared twice, and the
mixed information is given by one document alone.
-/

namespace LuaGlue.Document

namespace Entries

/-- Some entry has the key. -/
def has (es : Entries) (key : Value) : Bool := es.any fun e => e.1.sameKey key

/-- The entries with another value under a key that is there. -/
def replace (es : Entries) (key value : Value) : Entries :=
  es.map fun e => if e.1.sameKey key then (e.1, value) else e

end Entries

/-- Appends an entry to a table that does not hold its name yet. -/
def appendEntry (table : Value) (es : Entries) (e : Value × Value) : Except Error Entries :=
  if es.has e.1 then .error (.entry (.str (table.text ++ "." ++ e.1.text)) .declaredTwice)
  else .ok (es ++ [e])

/-- The key of the mixed information, which is not merged. -/
def isMixedInfo (table : Value) : Bool := table.sameKey (.str "mixedInfo")

/-- One table out of the two that documents give under the key `table`. -/
def mergeTable (table : Value) : Value → Value → Except Error Value
  | .map es, .map more =>
    if isMixedInfo table then .error (.entry table .givenTwice)
    else (more.foldlM (appendEntry table) es).map .map
  | .list items, .list more => .ok (.list (items ++ more))
  | _, _ => .error (.entry table .conflictingShapes)

/-- Adds a table to the tables merged so far. -/
def addTable (merged : Entries) (e : Value × Value) : Except Error Entries :=
  match merged.find? e.1 with
  | none => .ok (merged ++ [e])
  | some present => (mergeTable e.1 present e.2).map (merged.replace e.1 ·)

/-- Adds the tables of a document. -/
def mergeInto (merged doc : Entries) : Except Error Entries := doc.foldlM addTable merged

/-- All documents as one. -/
def merge (docs : List Entries) : Except Error Entries := docs.foldlM mergeInto []

end LuaGlue.Document
