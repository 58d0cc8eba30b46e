import SchemaWire.Codec.Basic
import SchemaWire.DataModel.Collect
import SchemaWire.DataModel.Shape

/-!
# Typed data through a codec

Typed data are collected into a value and encoded; bytes are decoded and the value is read as a
shape.
-/

set_option autoImplicit false

namespace SchemaWire.DataModel

inductive TransferError where
  | collect (e : CollectError)
  | encode (e : Codec.EncodeError)
  | decode (e : Wire.DecodeError)
  | extract (e : ExtractError)

def TransferError.message : TransferError → String
  | .collect e => e.message
  | .encode e => "encode error: " ++ e.message
  | .decode e => "decode error: " ++ e.message
  | .extract e => e.message

def toBytes (codec : Codec) (datum : Data) : Except TransferError (List UInt8) := do
  let value ← datum.toValue.mapError .collect
  (codec.encode value).mapError .encode

def ofBytes (codec : Codec) (shape : Shape) (bytes : List UInt8) : Except TransferError Data := do
  let value ← (codec.decode bytes).mapError .decode
  (shape.extract value).mapError .extract

end SchemaWire.DataModel
