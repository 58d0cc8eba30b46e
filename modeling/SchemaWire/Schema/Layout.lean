import SchemaWire.Schema.Alias
import SchemaWire.Schema.Definition
import SchemaWire.Schema.FieldOrder
import SchemaWire.Schema.Path

/-!
# Layouts

A definition whose names are looked up and whose fields are in canonical order. Laying a
definition out fails at its first fault, where a mapping is examined before its fields, fields are
taken in canonical order and sequence elements from left to right.
-/

set_option autoImplicit false

namespace SchemaWire.Schema

/-- The shape of the values of a schema. -/
inductive Layout where
  | leaf (type : Primitive)
  /-- Fields in canonical order. -/
  | mapping (fields : List (String × Layout))
  /-- The head elements and the element that is repeated after them. -/
  | sequence (heads : List Layout) (tail : Layout)
  deriving Repr, Inhabited

inductive ContainerKind where
  | mapping
  | sequence
  deriving DecidableEq, Repr

def ContainerKind.name : ContainerKind → String
  | .mapping => "mapping"
  | .sequence => "sequence"

inductive DefinitionError where
  /-- A type name that denotes nothing, as it is written. -/
  | unknownType (name : String) (place : Place)
  /-- A type name that is a structural marker, in normalized spelling. -/
  | reservedName (name : String)
  /-- A field name that a mapping declares twice. -/
  | repeatedField (name : String) (place : Place)
  | emptyContainer (kind : ContainerKind) (place : Place)
  deriving DecidableEq, Repr

/-- The text of the place that an error carries. A marker is refused wherever it stands. -/
def DefinitionError.path? : DefinitionError → Option String
  | .unknownType _ place => some place.text
  | .reservedName _ => none
  | .repeatedField _ place => some place.text
  | .emptyContainer _ place => some place.text

def DefinitionError.message : DefinitionError → String
  | .unknownType name place => "invalid type '" ++ name ++ "' at '" ++ place.text ++ "'"
  | .reservedName name =>
    "type name '" ++ name ++ "' collides with a reserved structural marker"
  | .repeatedField name place =>
    "duplicate field '" ++ name ++ "' in mapping at '" ++ place.text ++ "'"
  | .emptyContainer kind place => "empty " ++ kind.name ++ " at '" ++ place.text ++ "'"

/-- What a type name denotes. A marker is refused before the name is looked up. -/
def resolveType (aliases : AliasTable) (place : Place) (name : String) :
    Except DefinitionError Primitive :=
  let spelling := Text.normalizeName name
  if isReserved spelling then .error (.reservedName spelling)
  else match aliases.resolve? spelling with
    | some type => .ok type
    | none => .error (.unknownType name place)

/-- The results of a list of named computations, or the first failure. -/
def collectFields {ε α : Type} : List (String × Except ε α) → Except ε (List (String × α))
  | [] => .ok []
  | (name, result) :: rest => do
    let first ← result
    let others ← collectFields rest
    return (name, first) :: others

mutual

/-- The layout of a definition that stands at `place`, or its first fault. -/
def Definition.layoutAt (aliases : AliasTable) (place : Place) :
    Definition → Except DefinitionError Layout
  | .type name => do
    let type ← resolveType aliases place name
    return .leaf type
  | .mapping fields =>
    if fields.isEmpty then .error (.emptyContainer .mapping place)
    else
      let sorted := sortFields (layoutsOfFields aliases place fields)
      match firstRepeated? sorted with
      | some name => .error (.repeatedField name place)
      | none => do
        let laidOut ← collectFields sorted
        return .mapping laidOut
  | .sequence items => do
    let (heads, tail) ← layoutsOfItems aliases place 0 items
    return .sequence heads tail

/-- Every field beside its layout or its first fault, in the order of declaration. -/
def layoutsOfFields (aliases : AliasTable) (place : Place) :
    List (String × Definition) → List (String × Except DefinitionError Layout)
  | [] => []
  | (name, definition) :: rest =>
    (name, definition.layoutAt aliases (place ++ [.field name])) ::
      layoutsOfFields aliases place rest

/-- The layouts of the elements from position `index` on, the last one apart. -/
def layoutsOfItems (aliases : AliasTable) (place : Place) (index : Nat) :
    List Definition → Except DefinitionError (List Layout × Layout)
  | [] => .error (.emptyContainer .sequence place)
  | [last] => do
    let tail ← last.layoutAt aliases (place ++ [.tail index])
    return ([], tail)
  | head :: rest => do
    let first ← head.layoutAt aliases (place ++ [.head index])
    let (heads, tail) ← layoutsOfItems aliases place (index + 1) rest
    return (first :: heads, tail)

end

def Definition.layout (aliases : AliasTable) (definition : Definition) :
    Except DefinitionError Layout :=
  definition.layoutAt aliases []

end SchemaWire.Schema
