import SchemaWire.Text.Name

/-!
# Text encodings

How a codec maps text to bytes. Base64 and hexadecimal text are notations for bytes: the bytes
they denote are what is written, and reading shows them in the notation again.
-/

set_option autoImplicit false

namespace SchemaWire

inductive TextEncoding where
  /-- One byte for each character up to U+007F. -/
  | ascii
  | utf8
  /-- UTF-16 code units, each with its low byte first. -/
  | utf16le
  /-- The text is padded base64 for the bytes. -/
  | base64
  /-- The text is a pair of hexadecimal digits for each byte. -/
  | hex
  /-- One byte for each character up to U+00FF. -/
  | latin1
  deriving DecidableEq, Repr, Inhabited

structure UnsupportedEncoding where
  name : String
  deriving DecidableEq, Repr

def UnsupportedEncoding.message (e : UnsupportedEncoding) : String :=
  "unsupported string encoding '" ++ e.name ++ "'"

namespace TextEncoding

/-- The name by which messages and configurations refer to an encoding. -/
def name : TextEncoding → String
  | ascii => "ascii"
  | utf8 => "utf8"
  | utf16le => "utf16le"
  | base64 => "base64"
  | hex => "hex"
  | latin1 => "binary"

def synonyms : TextEncoding → List String
  | utf8 => ["utf-8"]
  | utf16le => ["utf-16le", "utf16", "utf-16", "ucs2", "ucs-2"]
  | latin1 => ["latin1"]
  | ascii | base64 | hex => []

def all : List TextEncoding :=
  [ascii, utf8, utf16le, base64, hex, latin1]

/-- The encoding of a name, up to surrounding white space and ASCII case. A refusal keeps the name
as it was given. -/
def ofName (given : String) : Except UnsupportedEncoding TextEncoding :=
  let spelling := Text.normalizeName given
  match all.find? fun e => e.name == spelling || e.synonyms.contains spelling with
  | some e => .ok e
  | none => .error ⟨given⟩

end TextEncoding

end SchemaWire
