import SchemaWire.Text.Quoted
import SchemaWire.TextEncoding
import SchemaWire.Wire.Base64
import SchemaWire.Wire.Hex
import SchemaWire.Wire.Utf16
import SchemaWire.Wire.Utf8
import SchemaWire.Wire.Varint

/-!
# Text on the wire

The bytes of a text under each text encoding: their number, which is known without producing them,
and the text that is read from them. For base64 the number follows from the length of the text
alone, so a text that is not base64 has a length although it cannot be written.
-/

set_option autoImplicit false

namespace SchemaWire.Wire

inductive UnwritableText where
  | notAscii
  | outsideLatin1 (c : Char)
  /-- The text does not have a whole number of pairs of digits. -/
  | oddHexDigits
  | invalidHexDigit (c : Char)
  | base64 (fault : Base64.Fault)
  /-- The text denotes another number of bytes than its length says. -/
  | nonCanonicalPadding
  deriving DecidableEq, Repr

def UnwritableText.message : UnwritableText → String
  | .notAscii => "contains non-ASCII characters"
  | .outsideLatin1 c => "character " ++ Text.quoteChar c ++ " is outside Latin-1"
  | .oddHexDigits => "odd number of hex digits"
  | .invalidHexDigit c => "invalid hex digit " ++ Text.quoteChar c
  | .base64 fault => fault.message
  | .nonCanonicalPadding => "non-canonical base64 padding"

inductive UnreadableText where
  | utf8 (fault : Utf8.Fault)
  /-- The bytes are not a whole number of 16-bit units. -/
  | oddByteLength
  | loneSurrogate
  deriving DecidableEq, Repr

def UnreadableText.message : UnreadableText → String
  | .utf8 fault => fault.message
  | .oddByteLength => "odd byte length"
  | .loneSurrogate => "invalid utf-16: lone surrogate found"

def isAscii (text : String) : Bool :=
  text.toList.all fun c => c.toNat < 0x80

def firstOutsideLatin1? (text : String) : Option Char :=
  text.toList.find? fun c => 0xff < c.toNat

/-- The number of bytes of a text under an encoding. Hexadecimal text is measured in bytes of
UTF-8 before its digits are looked at, and so is base64 text, without its trailing padding. -/
def payloadLength (encoding : TextEncoding) (text : String) : Except UnwritableText Nat :=
  match encoding with
  | .utf8 => .ok text.utf8ByteSize
  | .ascii => if isAscii text then .ok text.utf8ByteSize else .error .notAscii
  | .latin1 =>
    match firstOutsideLatin1? text with
    | some c => .error (.outsideLatin1 c)
    | none => .ok text.length
  | .utf16le => .ok ((Utf16.encode text.toList).length * 2)
  | .hex =>
    if text.utf8ByteSize % 2 ≠ 0 then .error .oddHexDigits
    else match Hex.firstInvalid? text.toList with
      | some c => .error (.invalidHexDigit c)
      | none => .ok (text.utf8ByteSize / 2)
  | .base64 =>
    let digits := (text.toList.reverse.dropWhile (· == '=')).reverse
    .ok ((Utf8.encode digits).length * 3 / 4)

def textLength (encoding : TextEncoding) (text : String) : Except UnwritableText Nat := do
  let length ← payloadLength encoding text
  return varuintLength (UInt64.ofNat length) + length

def prefixed (bytes : List UInt8) : List UInt8 :=
  varuintBytes (UInt64.ofNat bytes.length) ++ bytes

/-- The text of bytes under an encoding. Under ASCII as under Latin-1 every byte is the character of
its number. -/
def textOfPayload (encoding : TextEncoding) (bytes : List UInt8) :
    Except UnreadableText String :=
  match encoding with
  | .utf8 =>
    match Utf8.decode bytes with
    | .ok text => .ok (String.ofList text)
    | .error fault => .error (.utf8 fault)
  | .ascii | .latin1 => .ok (String.ofList (bytes.map fun byte => Char.ofNat byte.toNat))
  | .utf16le =>
    if bytes.length % 2 ≠ 0 then .error .oddByteLength
    else match Utf16.decode? (Utf16.ofBytes bytes) with
      | some text => .ok (String.ofList text)
      | none => .error .loneSurrogate
  | .hex => .ok (String.ofList (Hex.encode bytes))
  | .base64 => .ok (String.ofList ((Base64.encode bytes).map fun byte => Char.ofNat byte.toNat))

end SchemaWire.Wire
