import LuaGlue.Document.Decimal

/-!
# Days and moments

A document may hold a day of the calendar, or a moment: a time on a day, by a clock whose distance from
universal time may be known.

* `Day.text`, `Moment.text`: how they are written in a text.
* `Moment.reading`: what a moment is compared by. Two clocks that are both placed may show different times at
  one instant.
-/

namespace LuaGlue.Document

/-- The decimal digits of `n`, padded with zeros to at least `width`. -/
def paddedDigits (width n : Nat) : String :=
  let digits := Nat.toDigits 10 n
  String.ofList (List.replicate (width - digits.length) '0' ++ digits)

/-- A day of the calendar. -/
structure Day where
  year : Nat
  month : Nat
  day : Nat
  deriving DecidableEq

namespace Day

/-- The day as `year-month-day`. -/
def text (d : Day) : String :=
  paddedDigits 4 d.year ++ "-" ++ paddedDigits 2 d.month ++ "-" ++ paddedDigits 2 d.day

/-- The numbers that a day is made from. -/
def parts (d : Day) : List Nat := [d.year, d.month, d.day]

/-- Every fourth year is a leap year, but of the full centuries only every fourth. -/
def isLeap (year : Nat) : Bool := year % 4 == 0 && (year % 100 != 0 || year % 400 == 0)

/-- The numbers of days of the months. -/
def monthLengths (year : Nat) : List Nat :=
  [31, if isLeap year then 29 else 28, 31, 30, 31, 30, 31, 31, 30, 31, 30, 31]

/-- The calendar has the day. -/
def isValid (d : Day) : Bool :=
  1 ≤ d.year && 1 ≤ d.month && 1 ≤ d.day && (monthLengths d.year)[d.month - 1]?.any (d.day ≤ ·)

/-- The day that digits and dashes spell: four, two and two digits. -/
def ofChars? : List Char → Option Day
  | [a, b, c, d, '-', e, f, '-', g, h] => do
    let day : Day := ⟨← Decimal.digitsValue [a, b, c, d], ← Decimal.digitsValue [e, f], ← Decimal.digitsValue [g, h]⟩
    if day.isValid then some day else none
  | _ => none

/-- The days up to this one. -/
def count (d : Day) : Nat :=
  let years := d.year - 1
  let months := (monthLengths d.year).take (d.month - 1)
  365 * years + years / 4 - years / 100 + years / 400 + months.foldl (· + ·) 0 + d.day

end Day

/-- A time on a day. -/
structure Moment where
  day : Day
  hour : Nat
  minute : Nat
  second : Nat
  microsecond : Nat
  /-- The minutes that the clock is ahead of universal time, if that is known. -/
  ahead : Option Int
  deriving DecidableEq

/-- What a moment is compared by: an instant, in microseconds of universal time, or what a clock shows that is
placed nowhere. -/
inductive Reading where
  | instant (microseconds : Int)
  | clock (m : Moment)
  deriving DecidableEq

namespace Moment

/-- The microseconds that the clock shows. -/
def shown (m : Moment) : Nat :=
  (((m.day.count * 24 + m.hour) * 60 + m.minute) * 60 + m.second) * 1000000 + m.microsecond

def reading (m : Moment) : Reading :=
  match m.ahead with
  | some minutes => .instant (m.shown - minutes * 60000000)
  | none => .clock m

/-- The distance from universal time, as hours and minutes with a sign. -/
def distanceText (minutes : Int) : String :=
  (if minutes < 0 then "-" else "+") ++ paddedDigits 2 (minutes.natAbs / 60) ++ ":"
    ++ paddedDigits 2 (minutes.natAbs % 60)

/-- The moment as its day and time; no microseconds are written if there are none. -/
def text (m : Moment) : String :=
  m.day.text ++ " " ++ paddedDigits 2 m.hour ++ ":" ++ paddedDigits 2 m.minute ++ ":"
    ++ paddedDigits 2 m.second
    ++ (if m.microsecond == 0 then "" else "." ++ paddedDigits 6 m.microsecond)
    ++ (m.ahead.map distanceText).getD ""

/-- The numbers that a moment is made from, without seconds and microseconds that are zero at the end. -/
def parts (m : Moment) : List Nat :=
  m.day.parts ++ [m.hour, m.minute]
    ++ (if m.microsecond != 0 then [m.second, m.microsecond]
      else if m.second != 0 then [m.second]
      else [])

end Moment

end LuaGlue.Document
