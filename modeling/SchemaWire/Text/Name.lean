import SchemaWire.Unicode.Alphabetic
import SchemaWire.Unicode.Numeric
import SchemaWire.Unicode.WhiteSpace

/-!
# Names

Characters of bare names, and the spelling under which type names and encoding names are looked
up. Field names are never normalized.
-/

set_option autoImplicit false

namespace SchemaWire.Text

/-- A character that may stand in a name written without quotes. -/
def isNameChar (c : Char) : Bool :=
  Unicode.isAlphabetic c || Unicode.isNumeric c || c == '_' || c == '$'

def trim (text : List Char) : List Char :=
  ((text.dropWhile Unicode.isWhiteSpace).reverse.dropWhile Unicode.isWhiteSpace).reverse

/-- The lower case of an ASCII capital; any other character stays as it is. -/
def asciiLower (c : Char) : Char :=
  if 'A' ≤ c ∧ c ≤ 'Z' then Char.ofNat (c.toNat + 32) else c

/-- The spelling under which a type name or an encoding name is looked up: white space at the ends
is dropped and ASCII capitals become small letters. -/
def normalizeName (name : String) : String :=
  String.ofList ((trim name.toList).map asciiLower)

end SchemaWire.Text
