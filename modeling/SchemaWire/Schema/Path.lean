/-!
# Places in a schema

Where a node of a definition stands, as shown in messages.
-/

set_option autoImplicit false

namespace SchemaWire.Schema

inductive Descent where
  | field (name : String)
  /-- The head element at a position. -/
  | head (index : Nat)
  /-- The repeated element after so many heads. -/
  | tail (heads : Nat)
  deriving DecidableEq, Repr

abbrev Place := List Descent

def Descent.text : Descent → String
  | .field name => name
  | .head index => "[" ++ toString index ++ "]"
  | .tail heads => "[" ++ toString heads ++ "..]"

/-- Appends a part to a place's text. A point separates it unless the part opens with a bracket,
as a field name may also do, or nothing stands before it. -/
def appendDescent (text part : String) : String :=
  if part.toList.head? = some '[' ∨ text = "" then text ++ part else text ++ "." ++ part

/-- The text of a place. The root has a name of its own. -/
def Place.text (place : Place) : String :=
  if place.isEmpty then "<root>"
  else (place.map Descent.text).foldl appendDescent ""

end SchemaWire.Schema
