/-!
# Primitive types

The leaf types a schema can name, with the facts about each that the wire format fixes: its name,
its width where the width does not depend on the value, and its domain where it holds integers.
-/

set_option autoImplicit false

namespace SchemaWire

inductive Primitive where
  | boolean
  | int8
  | uint8
  | int16
  | uint16
  | int32
  | uint32
  | float32
  | float64
  /-- Text under the codec's text encoding, after its byte length. -/
  | string
  /-- An unsigned integer in groups of seven bits. -/
  | varuint
  /-- A signed integer, folded onto the unsigned ones, in groups of seven bits. -/
  | varint
  /-- Bytes after their number. -/
  | buffer
  deriving DecidableEq, Repr, Inhabited

namespace Primitive

def all : List Primitive :=
  [boolean, int8, uint8, int16, uint16, int32, uint32, float32, float64, string, varuint, varint,
    buffer]

def name : Primitive → String
  | boolean => "boolean"
  | int8 => "int8"
  | uint8 => "uint8"
  | int16 => "int16"
  | uint16 => "uint16"
  | int32 => "int32"
  | uint32 => "uint32"
  | float32 => "float32"
  | float64 => "float64"
  | string => "string"
  | varuint => "varuint"
  | varint => "varint"
  | buffer => "buffer"

def ofName? (name : String) : Option Primitive :=
  all.find? (·.name == name)

theorem ofName?_name (type : Primitive) : ofName? type.name = some type := by
  cases type <;> decide

theorem name_inj {type other : Primitive} : type.name = other.name ↔ type = other := by
  refine ⟨fun same => ?_, congrArg name⟩
  have found := ofName?_name type
  rw [same, ofName?_name] at found
  exact (Option.some.inj found).symm

/-- The number of bytes of every value of the type, if there is one such number. -/
def width? : Primitive → Option Nat
  | boolean | int8 | uint8 => some 1
  | int16 | uint16 => some 2
  | int32 | uint32 | float32 => some 4
  | float64 => some 8
  | string | varuint | varint | buffer => none

/-- The least and the greatest integer of an integer type. The domain of `varuint` ends with the
greatest signed 64-bit integer, since values hold signed integers. -/
def bounds? : Primitive → Option (Int64 × Int64)
  | int8 => some (-0x80, 0x7f)
  | uint8 => some (0, 0xff)
  | int16 => some (-0x8000, 0x7fff)
  | uint16 => some (0, 0xffff)
  | int32 => some (-0x80000000, 0x7fffffff)
  | uint32 => some (0, 0xffffffff)
  | varuint => some (0, Int64.maxValue)
  | varint => some (Int64.minValue, Int64.maxValue)
  | boolean | float32 | float64 | string | buffer => none

end Primitive

end SchemaWire
