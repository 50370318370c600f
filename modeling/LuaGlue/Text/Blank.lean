import LuaGlue.Text.Ranges

/-!
# Blank characters

The white space that separates tokens: the ASCII controls that space text, the four information
separators, and the spaces and line ends of every script.
-/

namespace LuaGlue.Text

/-- The code points of white space. -/
def blanks : Ranges := [
  (0x9, 0xd), (0x1c, 0x20), (0x85, 0x85), (0xa0, 0xa0), (0x1680, 0x1680), (0x2000, 0x200a),
  (0x2028, 0x2029), (0x202f, 0x202f), (0x205f, 0x205f), (0x3000, 0x3000)]

/-- The character is white space. -/
def isBlank (c : Char) : Bool := blanks.has c

end LuaGlue.Text
