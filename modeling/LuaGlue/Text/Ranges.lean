/-!
# Sets of characters given by code point ranges

A `Ranges` value lists the closed code point intervals of a character class in ascending order.
-/

namespace LuaGlue.Text

/-- Closed intervals of code points, in ascending order. -/
abbrev Ranges := List (Nat × Nat)

/-- The character lies in one of the intervals. -/
def Ranges.has (rs : Ranges) (c : Char) : Bool :=
  rs.any fun r => r.1 ≤ c.toNat && c.toNat ≤ r.2

end LuaGlue.Text
