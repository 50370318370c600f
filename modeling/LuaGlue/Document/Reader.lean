import LuaGlue.Document.Merge

/-!
# Reading document texts

`Value.ofText?` reads a document that is written as JSON, in which a day may stand for a value without
quotes. Of two entries with one key the later value counts, in the place of the earlier. A number with a
fraction or an exponent keeps its text. Blanks around values are spaces, tabs and line ends.
-/

namespace LuaGlue.Document

/-- Blanks and line ends stand between the parts of a JSON text. -/
def isJsonBlank (c : Char) : Bool := c == ' ' || c == '\t' || c == '\n' || c == '\r'

/-- The text without the blanks in front. -/
def skipJsonBlanks (cs : List Char) : List Char := cs.dropWhile isJsonBlank

/-- The value of a hexadecimal digit. -/
def hexDigit? (c : Char) : Option Nat :=
  if c.isDigit then some (c.toNat - '0'.toNat)
  else if 'a' ≤ c && c ≤ 'f' then some (c.toNat - 'a'.toNat + 10)
  else if 'A' ≤ c && c ≤ 'F' then some (c.toNat - 'A'.toNat + 10)
  else none

/-- A UTF-16 unit of four hexadecimal digits. -/
def hexUnit? (a b c d : Char) : Option Nat :=
  [a, b, c, d].foldlM (fun n x => (hexDigit? x).map (16 * n + ·)) 0

/-- The character of a pair of UTF-16 units, the first of which is a high surrogate. -/
def surrogatePair? (high low : Nat) : Option Char :=
  if 0xd800 ≤ high && high < 0xdc00 && 0xdc00 ≤ low && low < 0xe000 then
    some (Char.ofNat (0x10000 + (high - 0xd800) * 0x400 + (low - 0xdc00)))
  else none

/-- The character that a letter after a backslash stands for. -/
def shortEscape? : Char → Option Char
  | '"' => some '"'
  | '\\' => some '\\'
  | '/' => some '/'
  | 'b' => some '\x08'
  | 'f' => some '\x0c'
  | 'n' => some '\n'
  | 'r' => some '\r'
  | 't' => some '\t'
  | _ => none

/-- Reads a text up to the quote that ends it; gives the text and what follows. `passed` holds its
characters so far, nearest first. -/
def readJsonString (passed : List Char) : List Char → Option (String × List Char)
  | [] => none
  | '"' :: rest => some (String.ofList passed.reverse, rest)
  | '\\' :: 'u' :: a :: b :: c :: d :: '\\' :: 'u' :: e :: f :: g :: h :: rest => do
    let unit ← hexUnit? a b c d
    match (hexUnit? e f g h).bind (surrogatePair? unit) with
    | some x => readJsonString (x :: passed) rest
    | none => readJsonString (Char.ofNat unit :: passed) ('\\' :: 'u' :: e :: f :: g :: h :: rest)
  | '\\' :: 'u' :: a :: b :: c :: d :: rest => do
    readJsonString (Char.ofNat (← hexUnit? a b c d) :: passed) rest
  | '\\' :: x :: rest => do
    readJsonString ((← shortEscape? x) :: passed) rest
  | c :: rest => if c < ' ' then none else readJsonString (c :: passed) rest
termination_by cs => cs.length

/-- A character that a number or a day may be written with. -/
def isNumberChar (c : Char) : Bool :=
  c.isDigit || c == '-' || c == '+' || c == '.' || c == 'e' || c == 'E'

/-- The number or the day that a text spells. -/
def plainOf? (cs : List Char) : Option Value :=
  match cs with
  | '-' :: digits =>
    match Decimal.digitsValue digits with
    | some n => some (.int (-(n : Int)))
    | none => fraction
  | digits =>
    match Decimal.digitsValue digits with
    | some n => some (.int n)
    | none => fraction
where
  /-- A number with a fraction or an exponent, or a day. -/
  fraction : Option Value :=
    let text := String.ofList (cs.map Char.toLower)
    match Decimal.ofText? text with
    | some _ => some (.float text)
    | none => (Day.ofChars? cs).map .day

/-- The entries with a value under a key, which keeps its place if it is there. -/
def Entries.put (es : Entries) (key value : Value) : Entries :=
  if es.has key then es.replace key value else es ++ [(key, value)]

mutual

/-- Reads a value; gives the value and what follows. `depth` bounds the values around it. -/
def readJson (depth : Nat) (cs : List Char) : Option (Value × List Char) :=
  match depth with
  | 0 => none
  | depth + 1 =>
    match skipJsonBlanks cs with
    | 'n' :: 'u' :: 'l' :: 'l' :: rest => some (.null, rest)
    | 't' :: 'r' :: 'u' :: 'e' :: rest => some (.bool true, rest)
    | 'f' :: 'a' :: 'l' :: 's' :: 'e' :: rest => some (.bool false, rest)
    | '"' :: rest => (readJsonString [] rest).map fun (s, rest) => (.str s, rest)
    | '[' :: rest =>
      match skipJsonBlanks rest with
      | ']' :: rest => some (.list [], rest)
      | rest => readJsonItems depth [] rest
    | '\x7b' :: rest =>
      match skipJsonBlanks rest with
      | '\x7d' :: rest => some (.map [], rest)
      | rest => readJsonEntries depth [] rest
    | rest =>
      (plainOf? (rest.takeWhile isNumberChar)).map fun v => (v, rest.dropWhile isNumberChar)

/-- Reads the items of a list and the bracket that ends it, after the items `passed`. -/
def readJsonItems (depth : Nat) (passed : List Value) (cs : List Char) :
    Option (Value × List Char) :=
  match depth with
  | 0 => none
  | depth + 1 => do
    let (v, rest) ← readJson depth cs
    match skipJsonBlanks rest with
    | ',' :: rest => readJsonItems depth (passed ++ [v]) rest
    | ']' :: rest => some (.list (passed ++ [v]), rest)
    | _ => none

/-- Reads the entries of a mapping and the brace that ends it, after the entries `passed`. -/
def readJsonEntries (depth : Nat) (passed : Entries) (cs : List Char) :
    Option (Value × List Char) :=
  match depth with
  | 0 => none
  | depth + 1 =>
    match skipJsonBlanks cs with
    | '"' :: rest => do
      let (key, rest) ← readJsonString [] rest
      match skipJsonBlanks rest with
      | ':' :: rest =>
        let (v, rest) ← readJson depth rest
        match skipJsonBlanks rest with
        | ',' :: rest => readJsonEntries depth (passed.put (.str key) v) rest
        | '\x7d' :: rest => some (.map (passed.put (.str key) v), rest)
        | _ => none
      | _ => none
    | _ => none

end

/-- The value that a text spells. A text without any value is an empty document. -/
def Value.ofText? (text : String) : Option Value :=
  let cs := skipJsonBlanks text.toList
  if cs.isEmpty then some .null
  else
    match readJson (cs.length + 1) cs with
    | some (v, rest) => if (skipJsonBlanks rest).isEmpty then some v else none
    | none => none

end LuaGlue.Document
