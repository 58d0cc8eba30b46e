import SchemaWire.Unicode.Ranges

/-!
# White space

The property White_Space of Unicode 17.0. It holds the tab to carriage return controls, the
next-line control, the space separators, and the line and paragraph separators.
-/

set_option autoImplicit false

namespace SchemaWire.Unicode

/-- Code points with the property White_Space. -/
def whiteSpaceRanges : List (Nat × Nat) :=
  [(0x9, 0xd), (0x20, 0x20), (0x85, 0x85), (0xa0, 0xa0), (0x1680, 0x1680), (0x2000, 0x200a),
   (0x2028, 0x2029), (0x202f, 0x202f), (0x205f, 0x205f), (0x3000, 0x3000)]

/-- A character that separates tokens and is trimmed from names. -/
def isWhiteSpace (c : Char) : Bool :=
  inRanges whiteSpaceRanges c.toNat

end SchemaWire.Unicode
