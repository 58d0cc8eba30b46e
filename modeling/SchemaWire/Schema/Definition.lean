/-!
# Schema definitions

What an author writes: a tree of mappings and sequences with type names at the leaves. Names are
not yet looked up, and nothing is required of the shape.
-/

set_option autoImplicit false

namespace SchemaWire.Schema

inductive Definition where
  /-- A leaf, named by a primitive type or an alias. -/
  | type (name : String)
  /-- Named children in the order of their declaration, repetitions included. -/
  | mapping (fields : List (String × Definition))
  /-- Any number of head elements, then the element type of the rest. -/
  | sequence (items : List Definition)
  deriving Repr, Inhabited

end SchemaWire.Schema
