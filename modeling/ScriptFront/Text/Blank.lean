import ScriptFront.Text.Ranges

/-!
# Blank characters

The characters that may stand between tokens: the ASCII layout controls, the separator controls
`U+001C` to `U+001F`, and every space or line separator of Unicode.  Of all of them only the line
feed starts a new row.
-/

namespace ScriptFront
namespace Text

/-- The code points of the blank characters. -/
def blankRanges : List (Nat × Nat) :=
  [(0x9, 0xD), (0x1C, 0x20), (0x85, 0x85), (0xA0, 0xA0), (0x1680, 0x1680), (0x2000, 0x200A),
   (0x2028, 0x2029), (0x202F, 0x202F), (0x205F, 0x205F), (0x3000, 0x3000)]

/-- Spaces, tabs, line ends and the other characters without ink. -/
def isBlank (c : Char) : Bool :=
  inRanges blankRanges c.toNat

end Text
end ScriptFront
