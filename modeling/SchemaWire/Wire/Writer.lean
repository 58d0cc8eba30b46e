import SchemaWire.Wire.BigEndian
import SchemaWire.Wire.Text

/-!
# Writing bytes

A write appends bytes to those that are there, or fails. What it has appended before it fails stays
where it is, so whether a write that fails leaves bytes behind hangs on the order of its parts.
-/

set_option autoImplicit false

namespace SchemaWire.Wire

/-- A computation that appends to the bytes written so far and may fail. It leaves bytes behind in
either case. -/
abbrev Write := EStateM UnwritableText (List UInt8)

namespace Write

def bytes (more : List UInt8) : Write Unit := fun written => .ok () (written ++ more)

def fixed (width value : Nat) : Write Unit := bytes (bigEndian width value)

def varuint (value : UInt64) : Write Unit := bytes (varuintBytes value)

def varint (value : Int64) : Write Unit := varuint (zigzag value)

/-- Goes on with a result that needs no bytes, or fails as it does. -/
def require {α : Type} (result : Except UnwritableText α) : Write α :=
  match result with
  | .ok value => return value
  | .error reason => throw reason

/-- Text after the number of its bytes. The text is examined before the number is written, and the
number is computed without the bytes. -/
def text (encoding : TextEncoding) (content : String) : Write Unit :=
  match encoding with
  | .utf8 => do
    varuint (UInt64.ofNat content.utf8ByteSize)
    bytes (Utf8.encode content.toList)
  | .ascii => do
    if isAscii content then
      varuint (UInt64.ofNat content.utf8ByteSize)
      bytes (Utf8.encode content.toList)
    else throw .notAscii
  | .latin1 => do
    let length ← require (payloadLength .latin1 content)
    varuint (UInt64.ofNat length)
    content.toList.forM fun c => bytes [UInt8.ofNat c.toNat]
  | .utf16le => do
    varuint (UInt64.ofNat ((Utf16.encode content.toList).length * 2))
    (Utf16.encode content.toList).forM fun unit => bytes (Utf16.toBytes [unit])
  | .hex => do
    let length ← require (payloadLength .hex content)
    varuint (UInt64.ofNat length)
    bytes (Hex.decode content.toList)
  | .base64 => do
    let decoded ← require ((Base64.decode (Utf8.encode content.toList)).mapError .base64)
    let length ← require (payloadLength .base64 content)
    if decoded.length = length then
      varuint (UInt64.ofNat decoded.length)
      bytes decoded
    else throw .nonCanonicalPadding

/-- What a write leaves behind where nothing was written before. -/
def output (write : Write Unit) : Except UnwritableText (List UInt8) :=
  match write.run [] with
  | .ok _ written => .ok written
  | .error reason _ => .error reason

end Write

/-- A text with the number of its bytes. -/
def textBytes (encoding : TextEncoding) (content : String) : Except UnwritableText (List UInt8) :=
  (Write.text encoding content).output

end SchemaWire.Wire
