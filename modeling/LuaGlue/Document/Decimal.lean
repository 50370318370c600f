/-!
# Decimal texts of binary numbers

A document holds a fractional number by its shortest decimal text, such as `1.5`, `-0.0`, `1e+16` or
`inf`. `Decimal.ofText?` reads the finite ones, and `Decimal.integer?` is the integer that such a text
stands for once it is rounded to 53 binary digits.
-/

namespace LuaGlue.Document

/-- The number `± digits · 10 ^ exponent`. -/
structure Decimal where
  negative : Bool
  digits : Nat
  exponent : Int
  deriving DecidableEq

namespace Decimal

/-- The value of a run of decimal digits. -/
def digitsValue (cs : List Char) : Option Nat :=
  if cs.isEmpty || !cs.all Char.isDigit then none
  else some (cs.foldl (fun n c => 10 * n + (c.toNat - '0'.toNat)) 0)

/-- The value of an exponent, with its sign if it has one. -/
def exponentValue : List Char → Option Int
  | '-' :: cs => (digitsValue cs).map fun n => -(n : Int)
  | '+' :: cs => (digitsValue cs).map fun n => (n : Int)
  | cs => (digitsValue cs).map fun n => (n : Int)

/-- Reads digits, a fraction and an exponent; the last two may be absent. -/
def unsigned? (negative : Bool) (cs : List Char) : Option Decimal := do
  let mantissa := cs.takeWhile (· != 'e')
  let exponent ← match cs.dropWhile (· != 'e') with
    | [] => some 0
    | _ :: rest => exponentValue rest
  let whole := mantissa.takeWhile (· != '.')
  let fraction := (mantissa.dropWhile (· != '.')).drop 1
  let digits ← digitsValue (whole ++ fraction)
  return ⟨negative, digits, exponent - fraction.length⟩

/-- The number that a text spells; `inf` and `nan` are no numbers. -/
def ofText? (text : String) : Option Decimal :=
  match text.toList with
  | '-' :: cs => unsigned? true cs
  | cs => unsigned? false cs

/-- The nearest number with 53 binary digits; a tie goes to the even one. -/
def roundTo53 (n : Nat) : Nat :=
  let unit := Nat.pow 2 (n.log2 - 52)
  let low := n / unit
  let twice := 2 * (n % unit)
  (if twice > unit || (twice == unit && low % 2 == 1) then low + 1 else low) * unit

/-- The integer that the text stands for, if it stands for one. -/
def integer? (d : Decimal) : Option Int :=
  let magnitude : Option Nat :=
    if 0 ≤ d.exponent then some (d.digits * Nat.pow 10 d.exponent.toNat)
    else
      let unit := Nat.pow 10 (-d.exponent).toNat
      if d.digits % unit == 0 then some (d.digits / unit) else none
  magnitude.map fun n => if d.negative then -(roundTo53 n : Int) else (roundTo53 n : Int)

end Decimal

end LuaGlue.Document
