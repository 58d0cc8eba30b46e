import SchemaWire.Floating.Binary64

/-!
# Typed data

Data as a typed program hands them over: every datum says of which form it is, and integers carry
their width. This is richer than the values of a codec, which know one kind of integer and no
optional values, tuples or variants.
-/

set_option autoImplicit false

namespace SchemaWire.DataModel

open Floating (Binary32 Binary64)

inductive IntegerType where
  | int8
  | int16
  | int32
  | int64
  | uint8
  | uint16
  | uint32
  | uint64
  deriving DecidableEq, Repr

namespace IntegerType

def name : IntegerType → String
  | int8 => "i8"
  | int16 => "i16"
  | int32 => "i32"
  | int64 => "i64"
  | uint8 => "u8"
  | uint16 => "u16"
  | uint32 => "u32"
  | uint64 => "u64"

def least : IntegerType → Int
  | int8 => -2 ^ 7
  | int16 => -2 ^ 15
  | int32 => -2 ^ 31
  | int64 => -2 ^ 63
  | uint8 | uint16 | uint32 | uint64 => 0

def greatest : IntegerType → Int
  | int8 => 2 ^ 7 - 1
  | int16 => 2 ^ 15 - 1
  | int32 => 2 ^ 31 - 1
  | int64 => 2 ^ 63 - 1
  | uint8 => 2 ^ 8 - 1
  | uint16 => 2 ^ 16 - 1
  | uint32 => 2 ^ 32 - 1
  | uint64 => 2 ^ 64 - 1

def Contains (type : IntegerType) (value : Int) : Prop :=
  type.least ≤ value ∧ value ≤ type.greatest

instance (type : IntegerType) (value : Int) : Decidable (type.Contains value) :=
  inferInstanceAs (Decidable (_ ∧ _))

end IntegerType

inductive WideType where
  | int128
  | uint128
  deriving DecidableEq, Repr

def WideType.name : WideType → String
  | .int128 => "i128"
  | .uint128 => "u128"

/-- One of the alternatives of an enumeration: its name and its position. -/
structure Variant where
  enumeration : String
  index : UInt32
  name : String
  deriving DecidableEq, Repr

mutual

inductive Data where
  | boolean (value : Bool)
  | integer (type : IntegerType) (value : Int) (contained : type.Contains value)
  | wide (type : WideType) (value : Int)
  | single (value : Binary32)
  | double (value : Binary64)
  | char (value : Char)
  | text (value : String)
  | bytes (value : List UInt8)
  /-- An optional value that is not there. -/
  | absent
  /-- An optional value that is there. -/
  | present (value : Data)
  | unit
  | unitStruct (name : String)
  | unitVariant (variant : Variant)
  | newtypeStruct (name : String) (value : Data)
  | newtypeVariant (variant : Variant) (value : Data)
  /-- A sequence whose length is `announced` before its elements or not. -/
  | sequence (announced : Bool) (items : List Data)
  | tuple (items : List Data)
  | tupleStruct (name : String) (items : List Data)
  | tupleVariant (variant : Variant) (items : List Data)
  /-- A mapping whose size is `announced` before its entries or not. -/
  | mapping (announced : Bool) (entries : List (Data × Data))
  /-- A mapping whose keys and values are handed over one by one, in any order. -/
  | mappingParts (parts : List MappingPart)
  | record (name : String) (fields : List (String × Data))
  | recordVariant (variant : Variant) (fields : List (String × Data))

inductive MappingPart where
  | key (key : Data)
  | value (value : Data)

end

end SchemaWire.DataModel
