import SchemaWire.DataModel.Data
import SchemaWire.Value.Basic

/-!
# Collecting data into values

A datum becomes the value that holds the same information without its types. Data for which a
schema has no type are refused, the first one in the order of the parts.
-/

set_option autoImplicit false

namespace SchemaWire.DataModel

inductive Undescribed where
  | absent
  | unit
  | unitStruct (name : String)
  /-- An alternative that holds data. -/
  | variant (variant : Variant)
  deriving DecidableEq, Repr

def Undescribed.text : Undescribed → String
  | .absent => "an absent optional value"
  | .unit => "the unit type"
  | .unitStruct name => "unit struct " ++ name
  | .variant v => "enum variant " ++ v.enumeration ++ "::" ++ v.name ++ " with data"

inductive CollectError where
  | undescribed (what : Undescribed)
  | wideInteger (type : WideType)
  /-- A key that is not collected into a text, with the kind that it is collected into. -/
  | keyNotText (kind : String)
  | valueBeforeKey
  deriving DecidableEq, Repr

def CollectError.message : CollectError → String
  | .undescribed what => "unsupported type: " ++ what.text ++ " has no schema representation"
  | .wideInteger type => type.name ++ " is not supported"
  | .keyNotText kind => "type mismatch: expected string map key, got " ++ kind
  | .valueBeforeKey => "map value serialized before its key"

/-- The name of the entry of a collected key. -/
def nameOfKey : Value → Except CollectError String
  | .text key => .ok key
  | other => .error (.keyNotText other.kind)

mutual

/-- The value of a datum. Unsigned integers past the signed range wrap around, single precision
widens, and a variant without data is its index. -/
def Data.toValue : Data → Except CollectError Value
  | .boolean value => .ok (.boolean value)
  | .integer _ value _ => .ok (.integer (Int64.ofInt value))
  | .wide type _ => .error (.wideInteger type)
  | .single value => .ok (.ofSingle value)
  | .double value => .ok (.float value)
  | .char value => .ok (.text value.toString)
  | .text value => .ok (.text value)
  | .bytes value => .ok (.bytes value)
  | .absent => .error (.undescribed .absent)
  | .present value => value.toValue
  | .unit => .error (.undescribed .unit)
  | .unitStruct name => .error (.undescribed (.unitStruct name))
  | .unitVariant variant => .ok (.integer (Int64.ofNat variant.index.toNat))
  | .newtypeStruct _ value => value.toValue
  | .newtypeVariant variant _ => .error (.undescribed (.variant variant))
  | .sequence _ items => do
    let values ← itemsToValues items
    return .sequence values
  | .tuple items => do
    let values ← itemsToValues items
    return .sequence values
  | .tupleStruct _ items => do
    let values ← itemsToValues items
    return .sequence values
  | .tupleVariant variant _ => .error (.undescribed (.variant variant))
  | .mapping _ entries => do
    let values ← entriesToValues [] entries
    return .mapping values
  | .mappingParts parts => do
    let values ← partsToValues none [] parts
    return .mapping values
  | .record _ fields => do
    let values ← fieldsToValues [] fields
    return .mapping values
  | .recordVariant variant _ => .error (.undescribed (.variant variant))

def itemsToValues : List Data → Except CollectError (List Value)
  | [] => .ok []
  | item :: rest => do
    let first ← item.toValue
    let others ← itemsToValues rest
    return first :: others

/-- Adds entries to collected ones. The key of an entry is collected before its value, and the
last entry of a key counts. -/
def entriesToValues (collected : List (String × Value)) :
    List (Data × Data) → Except CollectError (List (String × Value))
  | [] => .ok collected
  | (key, value) :: rest => do
    let name ← key.toValue >>= nameOfKey
    let found ← value.toValue
    entriesToValues (insertEntry name found collected) rest

/-- Adds keys and values that come one by one. A value belongs to the key that waits for it, which
is the latest one and is used up before the value is collected. -/
def partsToValues (waiting : Option String) (collected : List (String × Value)) :
    List MappingPart → Except CollectError (List (String × Value))
  | [] => .ok collected
  | .key key :: rest => do
    let name ← key.toValue >>= nameOfKey
    partsToValues (some name) collected rest
  | .value value :: rest =>
    match waiting with
    | none => .error .valueBeforeKey
    | some name => do
      let found ← value.toValue
      partsToValues none (insertEntry name found collected) rest

/-- Adds fields to collected entries; the last field of a name counts. -/
def fieldsToValues (collected : List (String × Value)) :
    List (String × Data) → Except CollectError (List (String × Value))
  | [] => .ok collected
  | (name, value) :: rest => do
    let found ← value.toValue
    fieldsToValues (insertEntry name found collected) rest

end

end SchemaWire.DataModel
