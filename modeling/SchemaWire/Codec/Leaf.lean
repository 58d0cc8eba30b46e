import SchemaWire.Codec.Error
import SchemaWire.Wire.Reader
import SchemaWire.Wire.Writer

/-!
# Leaves

How a scalar is measured, written and read as a primitive type. Writing converts between booleans,
integers and floats and wraps integers to the width of the type; the guard is the strict check
that rules such conversions out where they would change the number.
-/

set_option autoImplicit false

namespace SchemaWire.Codec

open Floating (Binary64)
open Wire (Read)

structure Options where
  encoding : TextEncoding
  /-- Whether every leaf has to pass the guard. -/
  validate : Bool
  deriving DecidableEq, Repr

/-- Why a value is refused as a leaf, apart from where it stands. -/
inductive LeafFault where
  /-- The value has another kind. -/
  | kind
  /-- The number lies outside the domain of the type. -/
  | range
  | text (reason : Wire.UnwritableText)
  deriving DecidableEq, Repr

def LeafFault.toError (path : Path) (type : Primitive) (encoding : TextEncoding) (value : Value) :
    LeafFault → EncodeError
  | .kind => .typeMismatch path (.leaf type) value
  | .range => .outOfRange path type value
  | .text reason => .unwritableText path encoding reason

/-- Whether an integral float is in an integer domain. The upper bound is tested one past the
greatest integer, which is a float also where the greatest integer itself is not. -/
def inFloatDomain (least greatest : Int64) (value : Binary64) : Bool :=
  (Binary64.ofInt least.toInt).le value &&
    value.lt ((Binary64.ofInt greatest.toInt).add .one)

/-- The strict check of a value against a type. An integer type accepts integers of its domain and
floats that denote one; `float32` refuses finite floats that narrowing makes infinite. -/
def guard (type : Primitive) (value : Value) : Except LeafFault Unit :=
  match type.bounds? with
  | some (least, greatest) =>
    match value with
    | .integer number =>
      if least ≤ number ∧ number ≤ greatest then .ok () else .error .range
    | .float number =>
      if number.isIntegral then
        if inFloatDomain least greatest number then .ok () else .error .range
      else .error .kind
    | _ => .error .kind
  | none =>
    match type, value with
    | .boolean, .boolean _ => .ok ()
    | .float32, .float number =>
      if number.isFinite && number.narrow.isInfinite then .error .range else .ok ()
    | .float64, .float _ => .ok ()
    | .float32, .integer _ => .ok ()
    | .float64, .integer _ => .ok ()
    | .string, .text _ => .ok ()
    | .buffer, .bytes _ => .ok ()
    | _, _ => .error .kind

/-- A number or a boolean as an integer. Floats lose their fractional part and are clamped. -/
def toInteger : Value → Except LeafFault Int64
  | .integer number => .ok number
  | .float number => .ok number.toInt64
  | .boolean value => .ok (if value then 1 else 0)
  | _ => .error .kind

def toFloat : Value → Except LeafFault Binary64
  | .float number => .ok number
  | .integer number => .ok (.ofInt number.toInt)
  | _ => .error .kind

/-- A boolean, or whether a number differs from zero. -/
def toBoolean : Value → Except LeafFault Bool
  | .boolean value => .ok value
  | .integer number => .ok (number != 0)
  | .float number => .ok (!number.eq .zero)
  | _ => .error .kind

def toText : Value → Except LeafFault String
  | .text value => .ok value
  | _ => .error .kind

def toBytes : Value → Except LeafFault (List UInt8)
  | .bytes value => .ok value
  | _ => .error .kind

/-- The bytes of an integer in a fixed width: the low bytes of its two's complement. -/
def fixedInteger (width : Nat) (value : Value) : Except LeafFault (List UInt8) := do
  let number ← toInteger value
  return Wire.bigEndian width number.toUInt64.toNat

def writeLeaf (encoding : TextEncoding) (type : Primitive) (value : Value) :
    Except LeafFault (List UInt8) :=
  match type with
  | .boolean => do
    let truth ← toBoolean value
    return [if truth then 1 else 0]
  | .int8 | .uint8 => fixedInteger 1 value
  | .int16 | .uint16 => fixedInteger 2 value
  | .int32 | .uint32 => fixedInteger 4 value
  | .float32 => do
    let number ← toFloat value
    return Wire.bigEndian 4 number.narrow.bits.toNat
  | .float64 => do
    let number ← toFloat value
    return Wire.bigEndian 8 number.bits.toNat
  | .varuint => do
    let number ← toInteger value
    return Wire.varuintBytes number.toUInt64
  | .varint => do
    let number ← toInteger value
    return Wire.varintBytes number
  | .string => do
    let text ← toText value
    (Wire.textBytes encoding text).mapError .text
  | .buffer => do
    let bytes ← toBytes value
    return Wire.prefixed bytes

/-- The number of bytes of a value as a leaf, after the guard if it is on. A value of a type of
fixed width is not looked at otherwise. -/
def measureLeaf (options : Options) (type : Primitive) (value : Value) : Except LeafFault Nat := do
  if options.validate then guard type value
  match type with
  | .varuint => do
    let number ← toInteger value
    return Wire.varuintLength number.toUInt64
  | .varint => do
    let number ← toInteger value
    return Wire.varuintLength (Wire.zigzag number)
  | .string => do
    let text ← toText value
    (Wire.textLength options.encoding text).mapError .text
  | .buffer => do
    let bytes ← toBytes value
    return Wire.varuintLength (UInt64.ofNat bytes.length) + bytes.length
  | _ => return type.width?.getD 0

def readSigned (width : Nat) : Read Value := do
  let number ← Read.fixed width
  return .integer (Int64.ofInt (Wire.signed width number))

def readUnsigned (width : Nat) : Read Value := do
  let number ← Read.fixed width
  return .integer (Int64.ofNat number)

/-- Reads a leaf. Every byte but zero is a true boolean, and an unsigned integer past the signed
range wraps around. -/
def readLeaf (encoding : TextEncoding) : Primitive → Read Value
  | .boolean => do
    let byte ← Read.byte
    return .boolean (byte != 0)
  | .int8 => readSigned 1
  | .uint8 => readUnsigned 1
  | .int16 => readSigned 2
  | .uint16 => readUnsigned 2
  | .int32 => readSigned 4
  | .uint32 => readUnsigned 4
  | .float32 => do
    let number ← Read.binary32
    return .float number.widen
  | .float64 => do
    let number ← Read.binary64
    return .float number
  | .varuint => do
    let number ← Read.varuint
    return .integer number.toInt64
  | .varint => do
    let number ← Read.varint
    return .integer number
  | .string => do
    let text ← Read.text encoding
    return .text text
  | .buffer => do
    let bytes ← Read.prefixed
    return .bytes bytes

end SchemaWire.Codec
