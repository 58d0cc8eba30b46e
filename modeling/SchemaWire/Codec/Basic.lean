import SchemaWire.Codec.Measure
import SchemaWire.Codec.Read
import SchemaWire.Codec.Write

/-!
# Codecs

A codec is the plan of a schema with the options it was built with. Encoding measures a value
first, so that with the guard on a refused value writes nothing.
-/

set_option autoImplicit false

namespace SchemaWire

open Codec (Options EncodeError)
open Schema (Plan)

structure Codec where
  plan : Plan
  options : Options

namespace Codec

def encodedLength (codec : Codec) (value : Value) : Except EncodeError Nat :=
  measure codec.options codec.plan value

def encode (codec : Codec) (value : Value) : Except EncodeError (List UInt8) := do
  let _ ← codec.encodedLength value
  write codec.options.encoding codec.plan value

def decode (codec : Codec) (bytes : List UInt8) : Except Wire.DecodeError Value :=
  read codec.options.encoding codec.plan bytes

end Codec

end SchemaWire
