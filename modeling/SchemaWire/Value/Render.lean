import SchemaWire.Floating.Decimal
import SchemaWire.Text.Quoted
import SchemaWire.Value.Basic

/-!
# Text of values

How messages show a value. Texts are quoted, bytes are only counted, and names of entries stand
bare and in ascending order.
-/

set_option autoImplicit false

namespace SchemaWire.Value

mutual

def render : Value → String
  | .boolean value => if value then "true" else "false"
  | .integer value => toString value.toInt
  | .float value => value.toText
  | .text value => Text.quoteText value
  | .bytes value => "<" ++ toString value.length ++ " bytes>"
  | .mapping entries =>
    "\x7b" ++ ", ".intercalate ((renderEntries entries).map fun entry =>
      entry.1 ++ ": " ++ entry.2) ++ "\x7d"
  | .sequence items => "[" ++ ", ".intercalate (renderItems items) ++ "]"

/-- The entries with their texts, in ascending order. The first entry of a name counts, which is the
one that is looked up. -/
def renderEntries : List (String × Value) → List (String × String)
  | [] => []
  | (name, value) :: rest => insertEntry name value.render (renderEntries rest)

def renderItems : List Value → List String
  | [] => []
  | value :: rest => value.render :: renderItems rest

end

end SchemaWire.Value
