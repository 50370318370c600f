import LuaGlue.Document.Value

/-!
# Values as YAML text

`Value.yaml` writes a value in block style, one entry or item a line, nested ones behind indentation or marks.
Empty lists and mappings stand on one line. A value that occurs several times is written each time.

* `isPlain`: a text stands without quotes if it can be told from other values and from the marks around it.
  Otherwise it is in single quotes, or in double quotes where something has to be escaped.
* `Pen`: what is written so far, with what the next mark depends on. A long text is broken at a blank beyond
  the last column.
-/

namespace LuaGlue.Document.Yaml

/-- The column behind which a text may be broken. -/
def lastColumn : Nat := 80

/-! ## Texts that are read as other values -/

/-- Words that stand for truth values or for nothing. -/
def reservedWords : List String :=
  ["yes", "Yes", "YES", "no", "No", "NO", "true", "True", "TRUE", "false", "False", "FALSE", "on", "On", "ON",
    "off", "Off", "OFF", "~", "null", "Null", "NULL", "", "<<", "=", ".inf", ".Inf", ".INF", "-.inf", "-.Inf",
    "-.INF", "+.inf", "+.Inf", "+.INF", ".nan", ".NaN", ".NAN"]

/-- Digits may be parted by underscores. -/
def isNumeral (c : Char) : Bool := c.isDigit || c == '_'

def dropSign : List Char → List Char
  | '-' :: cs => cs
  | '+' :: cs => cs
  | cs => cs

/-- Every part behind a colon is a number below sixty; there is at least one. -/
def isSexagesimal : List Char → Bool
  | [':', a] => a.isDigit
  | [':', a, b] => '0' ≤ a && a ≤ '5' && b.isDigit
  | ':' :: a :: ':' :: rest => a.isDigit && isSexagesimal (':' :: rest)
  | ':' :: a :: b :: rest => '0' ≤ a && a ≤ '5' && b.isDigit && isSexagesimal rest
  | _ => false

/-- The text spells an integer: binary, octal, decimal, hexadecimal or in base sixty. -/
def isIntegerText (cs : List Char) : Bool :=
  match dropSign cs with
  | [] => false
  | ['0'] => true
  | '0' :: 'b' :: rest => !rest.isEmpty && rest.all fun c => c == '0' || c == '1' || c == '_'
  | '0' :: 'x' :: rest =>
    !rest.isEmpty && rest.all fun c => isNumeral c || ('a' ≤ c && c ≤ 'f') || ('A' ≤ c && c ≤ 'F')
  | '0' :: rest => rest.all fun c => c == '_' || ('0' ≤ c && c ≤ '7')
  | c :: rest =>
    let others := rest.dropWhile isNumeral
    c.isDigit && (others.isEmpty || isSexagesimal others)

/-- Nothing, or an exponent with its sign. -/
def isExponent : List Char → Bool
  | [] => true
  | e :: sign :: digits =>
    (e == 'e' || e == 'E') && (sign == '-' || sign == '+') && !digits.isEmpty && digits.all Char.isDigit
  | _ => false

/-- The text spells a number with a point. -/
def isFractionText (cs : List Char) : Bool :=
  match cs with
  | '.' :: c :: rest => c.isDigit && isExponent (rest.dropWhile isNumeral)
  | _ =>
    match dropSign cs with
    | [] => false
    | c :: rest =>
      let others := rest.dropWhile isNumeral
      c.isDigit && match others.takeWhile (· != '.'), others.dropWhile (· != '.') with
        | [], '.' :: fraction => isExponent (fraction.dropWhile isNumeral)
        | parts, '.' :: fraction => isSexagesimal parts && fraction.all isNumeral
        | _, _ => false

/-- What follows at least `least` and at most `most` digits. -/
def afterDigits (least most : Nat) (cs : List Char) : Option (List Char) :=
  let digits := (cs.take most).takeWhile Char.isDigit
  if least ≤ digits.length then some (cs.drop digits.length) else none

/-- What follows a character. -/
def after (c : Char) : List Char → Option (List Char)
  | d :: cs => if d == c then some cs else none
  | [] => none

def isBlank (c : Char) : Bool := c == ' ' || c == '\t'

/-- What follows the mark between a day and its time. -/
def afterSeparator : List Char → Option (List Char)
  | 'T' :: cs => some cs
  | 't' :: cs => some cs
  | c :: cs => if isBlank c then some (cs.dropWhile isBlank) else none
  | [] => none

/-- Nothing, or the distance of a clock from universal time. -/
def isDistance (cs : List Char) : Bool :=
  match cs.dropWhile isBlank with
  | [] => cs.isEmpty
  | ['Z'] => true
  | sign :: rest =>
    (sign == '-' || sign == '+') && match afterDigits 1 2 rest with
      | some [] => true
      | some (':' :: minutes) => afterDigits 2 2 minutes == some []
      | _ => false

/-- The text spells a day. -/
def isDayText (cs : List Char) : Bool :=
  let rest? := do
    let cs ← after '-' (← afterDigits 4 4 cs)
    afterDigits 2 2 (← after '-' (← afterDigits 2 2 cs))
  rest? == some []

/-- The text spells a moment. -/
def isMomentText (cs : List Char) : Bool :=
  let rest? := do
    let cs ← after '-' (← afterDigits 4 4 cs)
    let cs ← after '-' (← afterDigits 1 2 cs)
    let cs ← after ':' (← afterDigits 1 2 (← afterSeparator (← afterDigits 1 2 cs)))
    afterDigits 2 2 (← after ':' (← afterDigits 2 2 cs))
  match rest? with
  | some ('.' :: fraction) => isDistance (fraction.dropWhile Char.isDigit)
  | some rest => isDistance rest
  | none => false

/-- Without quotes the text is no text. -/
def isReserved (cs : List Char) : Bool :=
  reservedWords.contains (String.ofList cs) || isIntegerText cs || isFractionText cs || isDayText cs
    || isMomentText cs

/-! ## Quotes -/

def isBreak (c : Char) : Bool := c == '\n' || c == '\x85' || c == '\u2028' || c == '\u2029'

/-- A line break or a printed ASCII character; all others are escaped. -/
def isOrdinary (c : Char) : Bool := c == '\n' || (' ' ≤ c && c ≤ '~')

/-- Two characters with the properties stand side by side. -/
def hasPair (p q : Char → Bool) (cs : List Char) : Bool := (cs.zip cs.tail).any fun (a, b) => p a && q b

/-- The text holds marks of its own: it starts with one, or has the mark of an entry or of a comment in it. -/
def hasMarks (cs : List Char) : Bool :=
  ("---".toList.isPrefixOf cs || "...".toList.isPrefixOf cs)
    || cs.head?.any "#,[]\x7b\x7d&*!|>'\"%@`".toList.contains
    || (match cs with
      | [c] => c == '?' || c == '-'
      | c :: ' ' :: _ => c == '?' || c == '-'
      | _ => false)
    || cs.getLast? == some ':' || hasPair (· == ':') (· == ' ') cs
    || hasPair (· == ' ') (· == '#') cs

/-- Blanks and line breaks can be told from those that are added where a text is broken. -/
def isFoldable (cs : List Char) : Bool :=
  cs.all isOrdinary && !hasPair isBreak (· == ' ') cs && !hasPair (· == ' ') isBreak cs

/-- The text can stand without quotes, whatever it is read as. -/
def isUnquoted (cs : List Char) : Bool :=
  isFoldable cs && !cs.any isBreak && cs.head? != some ' ' && cs.getLast? != some ' ' && !hasMarks cs

/-- The text stands without quotes. -/
def isPlain (cs : List Char) : Bool := !isReserved cs && isUnquoted cs

/-- The letter of a short escape. -/
def shortEscape? : Char → Option Char
  | '\x00' => some '0'
  | '\x07' => some 'a'
  | '\x08' => some 'b'
  | '\t' => some 't'
  | '\n' => some 'n'
  | '\x0b' => some 'v'
  | '\x0c' => some 'f'
  | '\r' => some 'r'
  | '\x1b' => some 'e'
  | '"' => some '"'
  | '\\' => some '\\'
  | '\x85' => some 'N'
  | '\xa0' => some '_'
  | '\u2028' => some 'L'
  | '\u2029' => some 'P'
  | _ => none

/-- The escape of a character, if it has to be escaped. -/
def escape? (c : Char) : Option String :=
  match shortEscape? c with
  | some letter => some (String.ofList ['\\', letter])
  | none =>
    if ' ' ≤ c && c ≤ '~' then none
    else
      let digits (width : Nat) := (Text.hex width c.toNat).map Char.toUpper
      if c.toNat < 0x100 then some (String.ofList ('\\' :: 'x' :: digits 2))
      else if c.toNat < 0x10000 then some (String.ofList ('\\' :: 'u' :: digits 4))
      else some (String.ofList ('\\' :: 'U' :: digits 8))

/-! ## Pens -/

/-- What is written so far. -/
structure Pen where
  text : String := ""
  column : Nat := 0
  /-- A blank or a line break stands before. -/
  spaced : Bool := true
  /-- There is nothing on the line but indentation and marks. -/
  fresh : Bool := true

namespace Pen

def put (p : Pen) (s : String) : Pen := { p with text := p.text ++ s, column := p.column + s.length }

def newline (p : Pen) : Pen := { text := p.text ++ "\n" }

/-- Goes to a column, on a new line if this one has been used. -/
def indentTo (p : Pen) (column : Nat) : Pen :=
  let p := if !p.fresh || column < p.column || (column == p.column && !p.spaced) then p.newline else p
  if p.column < column then { p.put (String.ofList (List.replicate (column - p.column) ' ')) with spaced := true }
  else p

/-- Writes a mark, apart from what stands before it if it has to be. More marks may follow one that leaves the
line fresh. -/
def mark (p : Pen) (s : String) (apart fresh : Bool) : Pen :=
  { p.put (if p.spaced || !apart then s else " " ++ s) with spaced := false, fresh := p.fresh && fresh }

/-- Breaks a text. -/
def fold (p : Pen) (indent : Nat) : Pen := { p.indentTo indent with spaced := false, fresh := false }

/-! ### Texts -/

/-- The characters in runs of blanks, of line breaks and of others. -/
def runs (cs : List Char) : List (List Char) :=
  cs.splitBy fun a b => (a == ' ') == (b == ' ') && isBreak a == isBreak b

/-- Writes a text without quotes; it is broken at single blanks if it may `wrap`. -/
def plain (p : Pen) (indent : Nat) (wrap : Bool) (cs : List Char) : Pen :=
  let start := if p.spaced || cs.isEmpty then p else p.put " "
  (runs cs).foldl (fun p run =>
      if run == [' '] && lastColumn < p.column && wrap then p.fold indent else p.put (String.ofList run))
    { start with spaced := false, fresh := false }

/-- Writes a text in single quotes, which are doubled in it. A line break is written as an empty line. -/
def single (p : Pen) (indent : Nat) (wrap : Bool) (cs : List Char) : Pen :=
  let pieces := runs cs
  let body := pieces.zipIdx.foldl (fun p (run, i) =>
      if run == [' '] && lastColumn < p.column && wrap && i != 0 && i + 1 != pieces.length then p.indentTo indent
      else if run.any isBreak then (run.foldl (fun p _ => p.newline) p.newline).indentTo indent
      else p.put (String.ofList (run.flatMap fun c => if c == '\'' then ['\'', '\''] else [c])))
    (p.mark "'" true false)
  body.mark "'" false false

/-- Goes on with a text in double quotes, where `pending` is still to be written. It may be broken before a
blank and behind an escape, but not at its ends. -/
def doubled (p : Pen) (indent : Nat) (wrap first : Bool) (pending : List Char) : List Char → Pen
  | [] => p.put (String.ofList pending)
  | c :: rest =>
    let inside := wrap && !first && !rest.isEmpty
    -- a blank at the start of a line is escaped
    let broken (p : Pen) (next : Option Char) : Pen :=
      let p := (p.put "\\").fold indent
      if next == some ' ' then p.put "\\" else p
    match escape? c with
    | some text =>
      let p := (p.put (String.ofList pending)).put text
      let p := if inside && lastColumn < p.column - 1 then broken p rest.head? else p
      doubled p indent wrap false [] rest
    | none =>
      if inside && (c == ' ' || pending.isEmpty) && lastColumn < p.column + pending.length then
        doubled (broken (p.put (String.ofList pending)) (some c)) indent wrap false [c] rest
      else doubled p indent wrap false (pending ++ [c]) rest

/-- Writes a text. -/
def string (p : Pen) (indent : Nat) (wrap : Bool) (s : String) : Pen :=
  let cs := s.toList
  if isPlain cs then p.plain indent wrap cs
  else if isFoldable cs then p.single indent wrap cs
  else ((p.mark "\"" true false).doubled indent wrap true [] cs).mark "\"" false false

/-! ### Bytes -/

/-- The character for six bits. -/
def sixBits (n : Nat) : Char :=
  ("ABCDEFGHIJKLMNOPQRSTUVWXYZabcdefghijklmnopqrstuvwxyz0123456789+/".toList[n % 64]?).getD '='

/-- Three bytes as four characters. -/
def base64 : List UInt8 → List Char
  | [] => []
  | [a] => [sixBits (a.toNat / 4), sixBits (a.toNat * 16), '=', '=']
  | [a, b] =>
    let n := a.toNat * 256 + b.toNat
    [sixBits (n / 1024), sixBits (n / 16), sixBits (n * 4), '=']
  | a :: b :: c :: rest =>
    let n := (a.toNat * 256 + b.toNat) * 256 + c.toNat
    sixBits (n / 262144) :: sixBits (n / 4096) :: sixBits (n / 64) :: sixBits n :: base64 rest

/-- The bytes in lines of 57, which have 76 characters each. -/
def bytesLines (bs : List UInt8) : List String :=
  (List.range ((bs.length + 56) / 57)).map fun i => String.ofList (base64 ((bs.drop (57 * i)).take 57))

def bytes (p : Pen) (indent : Nat) (bs : List UInt8) : Pen :=
  let p := p.mark "!!binary" true false
  if bs.isEmpty then p.mark "\"\"" true false
  else (bytesLines bs).foldl (fun p line => ((p.indentTo indent).put line).newline) (p.mark "|" true false).newline

end Pen

/-! ## Values -/

/-- A floating point number, which always has a point. -/
def floatText (text : String) : String :=
  if text == "nan" then ".nan"
  else if text == "inf" then ".inf"
  else if text == "-inf" then "-.inf"
  else
    let cs := text.toList
    if cs.contains '.' || !cs.contains 'e' then text
    else String.ofList (cs.takeWhile (· != 'e') ++ '.' :: '0' :: cs.dropWhile (· != 'e'))

/-- The text of a value that never has quotes, with the name of its kind. -/
def unquoted? : Value → Option (String × String)
  | .null => some ("null", "!!null")
  | .bool b => some (if b then "true" else "false", "!!bool")
  | .int n => some (toString n, "!!int")
  | .float text => some (floatText text, "!!float")
  | .day d => some (d.text, "!!timestamp")
  | .moment m => some (m.text, "!!timestamp")
  | _ => none

/-- The key stands on the line of its value: it is a text of one line that is not too long, the name of its
kind included. -/
def isSimpleKey : Value → Bool
  | .str s => s != "" && !s.toList.any isBreak && s.length + "!!str".length < 128
  | v => (unquoted? v).any fun (text, kind) => text.length + kind.length < 128

/-- Writes a value that is no collection. -/
def writeScalar (p : Pen) (indent : Nat) (wrap : Bool) : Value → Pen
  | .str s => p.string indent wrap s
  | .bytes bs => p.bytes indent bs
  | v => p.plain indent wrap (((unquoted? v).map fun x => x.1.toList).getD [])

/-- The indentation inside of a collection; none is the indentation around the whole document. -/
def deeper : Option Nat → Nat
  | none => 0
  | some n => n + 2

/-- Writes a key with the colon behind it. One that is not simple stands behind a mark, and the colon on a line
of its own. -/
def writeKey (p : Pen) (indent : Nat) (k : Value) : Pen :=
  let p := p.indentTo indent
  if isSimpleKey k then (writeScalar p (indent + 2) false k).mark ":" false false
  else ((writeScalar (p.mark "?" true true) (indent + 2) true k).indentTo indent).mark ":" true true

/-- Writes the members of a set, as keys without values. -/
def writeMembers (p : Pen) (indent : Nat) (members : List Value) : Pen :=
  members.foldl (fun p k => writeScalar (writeKey p indent k) (indent + 2) true .null) p

mutual

/-- Writes a value. A list that is the value of an entry is not indented against it. -/
def writeValue (p : Pen) (indent : Option Nat) (inMapping : Bool) : Value → Pen
  | .list [] => p.mark "[]" true false
  | .list items => writeItems p (if inMapping && !p.fresh then indent.getD 0 else deeper indent) items
  | .map [] => p.mark "\x7b\x7d" true false
  | .map entries => writeEntries p (deeper indent) entries
  | .set [] => (p.mark "!!set" true false).mark "\x7b\x7d" true false
  | .set items => writeMembers (p.mark "!!set" true false) (deeper indent) items
  | v => writeScalar p (indent.getD 0 + 2) true v

/-- Writes the items of a list. -/
def writeItems (p : Pen) (indent : Nat) : List Value → Pen
  | [] => p
  | v :: vs => writeItems (writeValue ((p.indentTo indent).mark "-" true true) (some indent) false v) indent vs

/-- Writes the entries of a mapping. -/
def writeEntries (p : Pen) (indent : Nat) : List (Value × Value) → Pen
  | [] => p
  | (k, v) :: es => writeEntries (writeValue (writeKey p indent k) (some indent) true v) indent es

end

end LuaGlue.Document.Yaml

namespace LuaGlue.Document

/-- The YAML text of a value. -/
def Value.yaml (v : Value) : String := ((Yaml.writeValue {} none false v).indentTo 0).text

end LuaGlue.Document
