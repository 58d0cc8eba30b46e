import SchemaWire.Primitive
import SchemaWire.Text.Name

/-!
# Type names and aliases

A type name denotes a primitive type directly or through an alias. Names are compared in
normalized spelling. The structural markers, which stand where a type name could in the text of a
plan, denote nothing and cannot be aliased.
-/

set_option autoImplicit false

namespace SchemaWire.Schema

def sequenceMarker : String := "__arr"

def sequenceEndMarker : String := "__arrend"

def mappingMarker : String := "__obj"

def mappingEndMarker : String := "__objend"

def isReserved (name : String) : Bool :=
  [sequenceMarker, sequenceEndMarker, mappingMarker, mappingEndMarker].contains name

/-- The registered aliases, the latest first. A later registration of a name hides an earlier
one. -/
structure AliasTable where
  entries : List (String × Primitive)
  deriving DecidableEq, Repr, Inhabited

/-- Why an alias is refused. Names are in normalized spelling. -/
inductive AliasError where
  | reservedName (name : String)
  /-- The alias is the name of a primitive type. -/
  | shadowsPrimitive (name : String)
  /-- The target denotes no type. -/
  | unknownTarget (name target : String)
  deriving DecidableEq, Repr

def AliasError.message : AliasError → String
  | .reservedName name =>
    "type name '" ++ name ++ "' collides with a reserved structural marker"
  | .shadowsPrimitive name =>
    "alias '" ++ name ++ "' would shadow a built-in primitive type"
  | .unknownTarget name target =>
    "cannot alias '" ++ name ++ "' to unknown type '" ++ target ++ "'"

namespace AliasTable

/-- The table before any registration: `bool` stands for `boolean`. -/
def initial : AliasTable := ⟨[("bool", .boolean)]⟩

/-- What a name in normalized spelling denotes: nothing if it is a marker, else the primitive type
of that name, else the target of its latest registration. -/
def resolve? (table : AliasTable) (name : String) : Option Primitive :=
  if isReserved name then none
  else (Primitive.ofName? name).or (table.entries.lookup name)

/-- Registers `given` for what `existing` denotes now. A marker on either side is refused first,
then an alias that is the name of a primitive type, then a target that denotes nothing. -/
def register (table : AliasTable) (given existing : String) : Except AliasError AliasTable :=
  let name := Text.normalizeName given
  let target := Text.normalizeName existing
  if isReserved name then .error (.reservedName name)
  else if isReserved target then .error (.reservedName target)
  else if (Primitive.ofName? name).isSome then .error (.shadowsPrimitive name)
  else match table.resolve? target with
    | some type => .ok ⟨(name, type) :: table.entries⟩
    | none => .error (.unknownTarget name target)

end AliasTable

end SchemaWire.Schema
