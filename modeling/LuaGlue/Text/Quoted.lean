import LuaGlue.Text.Printable

/-!
# Quoted text

`quoted` writes a text as a literal on one line. Single quotes enclose it, or double quotes where
that spares an escape. The backslash, the enclosing quote and every character without a printed form
are escaped. `quotedBytes` does the same for bytes, of which only those of ASCII characters have a printed
form.
-/

namespace LuaGlue.Text

/-- At least `width` hexadecimal digits of `n`, padded with zeros. -/
def hex (width n : Nat) : List Char :=
  let digits := Nat.toDigits 16 n
  List.replicate (width - digits.length) '0' ++ digits

/-- The escape of a code point: two, four or eight hexadecimal digits, as many as it needs. -/
def escapeCode (n : Nat) : List Char :=
  if n < 0x100 then '\\' :: 'x' :: hex 2 n
  else if n < 0x10000 then '\\' :: 'u' :: hex 4 n
  else '\\' :: 'U' :: hex 8 n

/-- A character between the quotes `q`. -/
def quoteChar (q c : Char) : List Char :=
  if c == '\\' || c == q then ['\\', c]
  else if c == '\n' then ['\\', 'n']
  else if c == '\r' then ['\\', 'r']
  else if c == '\t' then ['\\', 't']
  else if isPrintable c then [c]
  else escapeCode c.toNat

/-- Double quotes enclose a text that holds single quotes only. -/
def enclosingQuote (cs : List Char) : Char :=
  if cs.contains '\'' && !cs.contains '"' then '"' else '\''

/-- The text as a literal. -/
def quoted (s : String) : String :=
  let q := enclosingQuote s.toList
  String.ofList (q :: s.toList.flatMap (quoteChar q) ++ [q])

/-- A byte between the quotes `q`. -/
def quoteByte (q : Char) (b : UInt8) : List Char :=
  if b.toNat < 0x80 then quoteChar q (Char.ofNat b.toNat) else escapeCode b.toNat

/-- The bytes as a literal. -/
def quotedBytes (bytes : List UInt8) : String :=
  let q := enclosingQuote (bytes.map fun b => Char.ofNat b.toNat)
  String.ofList ('b' :: q :: bytes.flatMap (quoteByte q) ++ [q])

end LuaGlue.Text
