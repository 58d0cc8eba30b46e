import SchemaWire.DataModel.Data
import SchemaWire.Text.Quoted
import SchemaWire.Value.Basic
import SchemaWire.Wire.Utf8

/-!
# Reading data out of values

A shape is the type as which a value is to be read. Reading gives a datum of that type or says why
the value is none. Elements are read from left to right and entries in the order of their names.
-/

set_option autoImplicit false

namespace SchemaWire.DataModel

inductive KeyShape where
  | text
  | char
  | bytes
  /-- The name is not looked at. -/
  | ignored
  /-- A type that no text is of, in the words of messages. -/
  | notText (expected : String)
  deriving DecidableEq, Repr

structure Case where
  name : String
  /-- Whether the alternative holds data. Values do not describe such alternatives. -/
  holdsData : Bool
  deriving DecidableEq, Repr

/-- How a record is read from a mapping without one of its fields. -/
inductive Missing where
  | refused
  /-- An optional value is absent then, as readers that are derived from a type have it. -/
  | absent
  deriving DecidableEq, Repr

inductive Shape where
  | boolean
  | integer (type : IntegerType)
  | wide (type : WideType)
  | single
  | double
  | char
  | text
  | bytes
  | unit
  /-- Any value, which is not looked at. -/
  | ignored
  /-- Any value, read as the value itself says. -/
  | any
  /-- An optional value. What a schema describes is always there. -/
  | option (shape : Shape)
  | newtypeStruct (name : String) (shape : Shape)
  | sequence (element : Shape)
  | tuple (elements : List Shape)
  | tupleStruct (name : String) (elements : List Shape)
  | mapping (key : KeyShape) (value : Shape)
  /-- A mapping from which a value is asked for before its key. -/
  | valueBeforeKey
  | record (name : String) (fields : List (String × Shape)) (missing : Missing := .refused)
  | enumeration (name : String) (alternatives : List Case)

inductive ExtractError where
  /-- Another kind of value was expected. -/
  | kind (expected actual : String)
  | notSingleCharacter (length : Nat)
  | unit
  | alternativeWithData
  | wideInteger (type : WideType)
  | outsideInteger (value : Int) (type : IntegerType)
  | tooFewElements (size need : Nat)
  | valueBeforeKey
  | missingField (name : String)
  /-- An index that no enumeration has. -/
  | invalidIndex (value : Int64)
  /-- An index past the last alternative. -/
  | noAlternative (index count : Nat)
  | keyNotCharacter (key : String)
  | keyNotText (key expected : String)
  deriving DecidableEq, Repr

def ExtractError.message : ExtractError → String
  | .kind expected actual => "type mismatch: expected " ++ expected ++ ", got " ++ actual
  | .notSingleCharacter length =>
    "type mismatch: expected single character, got string of " ++ toString length ++
      " characters"
  | .unit => "unsupported type: the unit type has no schema representation"
  | .alternativeWithData => "unsupported type: enum variants with data are not supported"
  | .wideInteger type => type.name ++ " is not supported"
  | .outsideInteger value type =>
    "invalid value: integer `" ++ toString value ++ "`, expected " ++ type.name
  | .tooFewElements size need =>
    "invalid length " ++ toString size ++ ", expected a tuple of size " ++ toString need
  | .valueBeforeKey => "map value requested before its key"
  | .missingField name => "missing field `" ++ name ++ "`"
  | .invalidIndex value => "invalid variant index " ++ toString value.toInt
  | .noAlternative index count =>
    "invalid value: integer `" ++ toString index ++ "`, expected variant index 0 <= i < " ++
      toString count
  | .keyNotCharacter key =>
    "invalid value: string " ++ Text.quoteText key ++ ", expected a character"
  | .keyNotText key expected =>
    "invalid type: string " ++ Text.quoteText key ++ ", expected " ++ expected

def wrongKind {α : Type} (expected : String) (value : Value) : Except ExtractError α :=
  .error (.kind expected value.kind)

/-- An integer as a datum of an integer type. An unsigned 64-bit integer is read back from its
wrapped form; any other has to lie in the type. -/
def extractInteger (type : IntegerType) (value : Int64) : Except ExtractError Data :=
  let number : Int := if type = .uint64 then value.toUInt64.toNat else value.toInt
  if contained : type.Contains number then .ok (.integer type number contained)
  else .error (.outsideInteger number type)

def extractChar (text : String) : Except ExtractError Data :=
  match text.toList with
  | [c] => .ok (.char c)
  | _ => .error (.notSingleCharacter text.length)

def KeyShape.extract (name : String) : KeyShape → Except ExtractError Data
  | .text => .ok (.text name)
  | .char =>
    match name.toList with
    | [c] => .ok (.char c)
    | _ => .error (.keyNotCharacter name)
  | .bytes => .ok (.bytes (Wire.Utf8.encode name.toList))
  | .ignored => .ok .unit
  | .notText expected => .error (.keyNotText name expected)

/-- The alternative of an index. Indexes are 32-bit numbers. -/
def extractAlternative (enumeration : String) (alternatives : List Case) (value : Int64) :
    Except ExtractError Data :=
  if value.toInt < 0 ∨ 2 ^ 32 ≤ value.toInt then .error (.invalidIndex value)
  else
    let index := value.toInt.toNat
    match alternatives[index]? with
    | none => .error (.noAlternative index alternatives.length)
    | some alternative =>
      if alternative.holdsData then .error .alternativeWithData
      else .ok (.unitVariant ⟨enumeration, UInt32.ofNat index, alternative.name⟩)

def extractAll (extract : Value → Except ExtractError Data) :
    List Value → Except ExtractError (List Data)
  | [] => .ok []
  | value :: rest => do
    let first ← extract value
    let others ← extractAll extract rest
    return first :: others

/-- Reads elements by one reader each; `index` elements are read already. Elements that are left
over are not looked at. -/
def extractEach (index : Nat) :
    List (Value → Except ExtractError Data) → List Value → Except ExtractError (List Data)
  | [], _ => .ok []
  | readers, [] => .error (.tooFewElements index (index + readers.length))
  | reader :: readers, value :: rest => do
    let first ← reader value
    let others ← extractEach (index + 1) readers rest
    return first :: others

def extractEntries (key : KeyShape) (extract : Value → Except ExtractError Data) :
    List (String × Value) → Except ExtractError (List (Data × Data))
  | [] => .ok []
  | (name, value) :: rest => do
    let name ← key.extract name
    let first ← extract value
    let others ← extractEntries key extract rest
    return (name, first) :: others

/-- Reads the entries that have a reader. The others are not looked at. -/
def extractFields (readers : List (String × (Value → Except ExtractError Data))) :
    List (String × Value) → Except ExtractError (List (String × Data))
  | [] => .ok []
  | (name, value) :: rest =>
    match readers.lookup name with
    | none => extractFields readers rest
    | some reader => do
      let first ← reader value
      let others ← extractFields readers rest
      return (name, first) :: others

/-- What stands for a field of a shape that is not there. -/
def Missing.datum? : Missing → Shape → Option Data
  | .absent, .option _ => some .absent
  | _, _ => none

/-- What a field is read as, given what was found. -/
def Missing.field? (missing : Missing) (found : List (String × Data)) (field : String × Shape) :
    Option Data :=
  (found.lookup field.1).or (missing.datum? field.2)

/-- Puts what was read into the declared order. -/
def arrangeFields (missing : Missing) (found : List (String × Data)) :
    List (String × Shape) → Except ExtractError (List (String × Data))
  | [] => .ok []
  | field :: rest =>
    match missing.field? found field with
    | none => .error (.missingField field.1)
    | some first => do
      let others ← arrangeFields missing found rest
      return (field.1, first) :: others

mutual

def describe : Value → Data
  | .boolean value => .boolean value
  | .integer value =>
    .integer .int64 value.toInt ⟨Int64.le_toInt value, Int64.toInt_le value⟩
  | .float value => .double value
  | .text value => .text value
  | .bytes value => .bytes value
  | .mapping entries => .mapping true (describeEntries entries)
  | .sequence items => .sequence true (describeItems items)

def describeEntries : List (String × Value) → List (Data × Data)
  | [] => []
  | (name, value) :: rest => (.text name, describe value) :: describeEntries rest

def describeItems : List Value → List Data
  | [] => []
  | value :: rest => describe value :: describeItems rest

end

mutual

def Shape.extract : Shape → Value → Except ExtractError Data
  | .boolean, value =>
    match value with
    | .boolean truth => .ok (.boolean truth)
    | .integer number => .ok (.boolean (number != 0))
    | other => wrongKind "boolean" other
  | .integer type, value =>
    match value with
    | .integer number => extractInteger type number
    | other => wrongKind "integer" other
  | .wide type, _ => .error (.wideInteger type)
  | .single, value =>
    match value.asFloat? with
    | some number => .ok (.single number.narrow)
    | none => wrongKind "float" value
  | .double, value =>
    match value.asFloat? with
    | some number => .ok (.double number)
    | none => wrongKind "float" value
  | .char, value =>
    match value with
    | .text text => extractChar text
    | other => wrongKind "char" other
  | .text, value =>
    match value with
    | .text text => .ok (.text text)
    | other => wrongKind "string" other
  | .bytes, value =>
    match value with
    | .bytes bytes => .ok (.bytes bytes)
    | .text text => .ok (.bytes (Wire.Utf8.encode text.toList))
    | other => wrongKind "buffer" other
  | .unit, _ => .error .unit
  | .ignored, _ => .ok .unit
  | .any, value => .ok (describe value)
  | .option shape, value => do
    let datum ← shape.extract value
    return .present datum
  | .newtypeStruct name shape, value => do
    let datum ← shape.extract value
    return .newtypeStruct name datum
  | .sequence element, value =>
    match value with
    | .sequence items => do
      let data ← extractAll element.extract items
      return .sequence true data
    | other => wrongKind "sequence" other
  | .tuple elements, value =>
    match value with
    | .sequence items => do
      let data ← extractEach 0 (extractorsOf elements) items
      return .tuple data
    | other => wrongKind "sequence" other
  | .tupleStruct name elements, value =>
    match value with
    | .sequence items => do
      let data ← extractEach 0 (extractorsOf elements) items
      return .tupleStruct name data
    | other => wrongKind "sequence" other
  | .mapping key shape, value =>
    match value with
    | .mapping entries => do
      let data ← extractEntries key shape.extract entries
      return .mapping true data
    | other => wrongKind "mapping" other
  | .valueBeforeKey, value =>
    match value with
    | .mapping _ => .error .valueBeforeKey
    | other => wrongKind "mapping" other
  | .record name fields missing, value =>
    match value with
    | .mapping entries => do
      let found ← extractFields (fieldExtractorsOf fields) entries
      let arranged ← arrangeFields missing found fields
      return .record name arranged
    | other => wrongKind "mapping" other
  | .enumeration name alternatives, value =>
    match value with
    | .integer number => extractAlternative name alternatives number
    | other => wrongKind "integer variant index" other

def extractorsOf : List Shape → List (Value → Except ExtractError Data)
  | [] => []
  | shape :: rest => shape.extract :: extractorsOf rest

def fieldExtractorsOf :
    List (String × Shape) → List (String × (Value → Except ExtractError Data))
  | [] => []
  | (name, shape) :: rest => (name, shape.extract) :: fieldExtractorsOf rest

end

end SchemaWire.DataModel
