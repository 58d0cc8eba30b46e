import SchemaWire.Text.Lowercase

/-!
# Canonical order of fields

Fields of a mapping are laid out by their names in lower case, and names that differ in case only
by code points. The order does not depend on the order of declaration, so it is part of the wire
format.
-/

set_option autoImplicit false

namespace SchemaWire.Schema

def fieldOrder (left right : String) : Ordering :=
  (compare (Text.lowercase left.toList) (Text.lowercase right.toList)).then
    (compare left.toList right.toList)

/-- Puts a field before the first one whose name does not precede its own. -/
def insertField {α : Type} (field : String × α) : List (String × α) → List (String × α)
  | [] => [field]
  | next :: rest =>
    match fieldOrder next.1 field.1 with
    | .lt => next :: insertField field rest
    | _ => field :: next :: rest

/-- The fields in canonical order. Fields of one name keep the order in which they were given. -/
def sortFields {α : Type} : List (String × α) → List (String × α)
  | [] => []
  | field :: rest => insertField field (sortFields rest)

def firstRepeated? {α : Type} : List (String × α) → Option String
  | first :: second :: rest =>
    if first.1 = second.1 then some first.1 else firstRepeated? (second :: rest)
  | _ => none

end SchemaWire.Schema
