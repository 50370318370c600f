import LuaGlue.Document.Calendar
import LuaGlue.Text.Quoted

/-!
# Document values

A specification document is a `Value`: a tree of mappings, lists and sets over plain values. Mappings keep
the order of their entries and may have any plain value as a key. An ordered mapping is the list of its
pairs.

* `Value.truthy`: the value counts as given. Null, false, zero, and empty texts, bytes, lists, sets and
  mappings count as absent wherever a table or an option may be left out.
* `Value.sameKey`: two keys address the same entry of a mapping. Numbers do so by their value,
  whatever their kind, and true and false count as one and zero.
* `Value.literal` and `Value.text`: how a value is shown inside a message or in generated text.
-/

namespace LuaGlue.Document

/-- A value of a specification document. -/
inductive Value where
  | null
  | bool (b : Bool)
  | int (n : Int)
  /-- A binary floating point number, by its shortest decimal text. -/
  | float (text : String)
  | str (s : String)
  | day (d : Day)
  | moment (m : Moment)
  | bytes (bs : List UInt8)
  | list (items : List Value)
  /-- A set, by its items in the order that they are gone through. -/
  | set (items : List Value)
  /-- A mapping, by its entries in the order given. -/
  | map (entries : List (Value × Value))
  deriving Inhabited

/-- The entries of a mapping. -/
abbrev Entries := List (Value × Value)

namespace Value

/-- The name of the kind of a value, as messages give it. -/
def kindName : Value → String
  | .null => "NoneType"
  | .bool _ => "bool"
  | .int _ => "int"
  | .float _ => "float"
  | .str _ => "str"
  | .day _ => "date"
  | .moment _ => "datetime"
  | .bytes _ => "bytes"
  | .list _ => "list"
  | .set _ => "set"
  | .map _ => "dict"

/-- The decimal text spells a zero. -/
def isZeroText (text : String) : Bool :=
  (Decimal.ofText? text).any fun d => d.digits == 0

/-- The value counts as given. -/
def truthy : Value → Bool
  | .null => false
  | .bool b => b
  | .int n => n != 0
  | .float text => !isZeroText text
  | .str s => s != ""
  | .day _ => true
  | .moment _ => true
  | .bytes bs => !bs.isEmpty
  | .list items => !items.isEmpty
  | .set items => !items.isEmpty
  | .map entries => !entries.isEmpty

/-! ## Keys -/

/-- Lists, sets and mappings address no entry. -/
def isKey : Value → Bool
  | .list _ => false
  | .set _ => false
  | .map _ => false
  | _ => true

/-- What a key that is no text is compared by: an integer by its value, any other number by its text, and a
moment by what it is read as. -/
inductive Magnitude where
  | whole (n : Int)
  | other (text : String)
  | day (d : Day)
  | moment (r : Reading)
  | bytes (bs : List UInt8)
  deriving DecidableEq

/-- The magnitude of a key; not a number has none, so it is no key but its own. -/
def magnitude? : Value → Option Magnitude
  | .bool b => some (.whole (if b then 1 else 0))
  | .int n => some (.whole n)
  | .float text =>
    match (Decimal.ofText? text).bind Decimal.integer? with
    | some n => some (.whole n)
    | none => if text == "nan" then none else some (.other text)
  | .day d => some (.day d)
  | .moment m => some (.moment m.reading)
  | .bytes bs => some (.bytes bs)
  | _ => none

/-- Both keys address the same entry. -/
def sameKey : Value → Value → Bool
  | .str a, .str b => a == b
  | .null, .null => true
  | a, b =>
    match a.magnitude?, b.magnitude? with
    | some m, some n => m == n
    | _, _ => false

/-! ## Shown values -/

/-- The distance of a clock from universal time as a literal. One that is behind is a day less and a part of
a day. -/
def zoneLiteral (minutes : Int) : String :=
  if minutes == 0 then "datetime.timezone.utc"
  else
    let distance :=
      if minutes < 0 then "days=-1, seconds=" ++ toString (86400 + 60 * minutes)
      else "seconds=" ++ toString (60 * minutes)
    "datetime.timezone(datetime.timedelta(" ++ distance ++ "))"

/-- The moment as a literal. -/
def momentLiteral (m : Moment) : String :=
  let zone := match m.ahead with
    | some minutes => ", tzinfo=" ++ zoneLiteral minutes
    | none => ""
  "datetime.datetime(" ++ ", ".intercalate (m.parts.map toString) ++ zone ++ ")"

mutual

/-- The value as a literal. -/
def literal : Value → String
  | .null => "None"
  | .bool b => if b then "True" else "False"
  | .int n => toString n
  | .float text => text
  | .str s => Text.quoted s
  | .day d => "datetime.date(" ++ ", ".intercalate (d.parts.map toString) ++ ")"
  | .moment m => momentLiteral m
  | .bytes bs => Text.quotedBytes bs
  | .list items => "[" ++ ", ".intercalate (itemLiterals items) ++ "]"
  | .set [] => "set()"
  | .set items => "\x7b" ++ ", ".intercalate (itemLiterals items) ++ "\x7d"
  | .map entries => "\x7b" ++ ", ".intercalate (entryLiterals entries) ++ "\x7d"

/-- The literals of the items of a list or a set. -/
def itemLiterals : List Value → List String
  | [] => []
  | v :: vs => literal v :: itemLiterals vs

/-- The literals of the entries of a mapping. -/
def entryLiterals : List (Value × Value) → List String
  | [] => []
  | (k, v) :: es => (literal k ++ ": " ++ literal v) :: entryLiterals es

end

/-- The value inside a text: a string as it is, days and moments as they are written, anything else as its
literal. -/
def text : Value → String
  | .str s => s
  | .day d => d.text
  | .moment m => m.text
  | v => v.literal

end Value

/-! ## Entries -/

namespace Entries

/-- The value of the first entry that the key addresses. -/
def find? (es : Entries) (key : Value) : Option Value :=
  (List.find? (fun e => e.1.sameKey key) es).map (·.2)

/-- The value of a named entry; null when there is none. -/
def field (es : Entries) (name : String) : Value :=
  (find? es (.str name)).getD .null

/-- The value of a named entry, or `default` when there is none. -/
def fieldD (es : Entries) (name : String) (default : Value) : Value :=
  (find? es (.str name)).getD default

end Entries

end LuaGlue.Document
