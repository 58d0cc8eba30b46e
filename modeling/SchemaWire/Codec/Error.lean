import SchemaWire.Schema.Layout
import SchemaWire.Value.Render
import SchemaWire.Wire.Text

/-!
# Encoding errors

Why a value cannot be encoded, and where in the value.
-/

set_option autoImplicit false

namespace SchemaWire.Codec

open Schema (ContainerKind)

inductive Segment where
  | field (name : String)
  | index (position : Nat)
  deriving DecidableEq, Repr

abbrev Path := List Segment

/-- Appends a segment to a path's text. A point separates a name from what stands before it. -/
def appendSegment (text : String) : Segment → String
  | .field name => if text = "" then name else text ++ "." ++ name
  | .index position => text ++ "[" ++ toString position ++ "]"

/-- The text of a path. A path without text is shown as the root. -/
def Path.text (path : Path) : String :=
  let text := path.foldl appendSegment ""
  if text = "" then "<root>" else text

inductive Expected where
  | container (kind : ContainerKind)
  | leaf (type : Primitive)
  deriving DecidableEq, Repr

def Expected.name : Expected → String
  | .container kind => kind.name
  | .leaf type => type.name

/-- The domain of a type as shown in messages. Only the integer types and `float32` have one. -/
def domainText (type : Primitive) : String :=
  match type.bounds? with
  | some (least, greatest) =>
    "[" ++ toString least.toInt ++ ", " ++ toString greatest.toInt ++ "]"
  | none => "[-3.4028235e38, 3.4028235e38]"

inductive EncodeError where
  | typeMismatch (path : Path) (expected : Expected) (value : Value)
  | outOfRange (path : Path) (type : Primitive) (value : Value)
  | missingField (path : Path)
  /-- A sequence has fewer elements than the schema has heads. -/
  | shortSequence (path : Path) (need size : Nat)
  | unwritableText (path : Path) (encoding : TextEncoding) (reason : Wire.UnwritableText)
  deriving DecidableEq, Repr

def EncodeError.message : EncodeError → String
  | .typeMismatch path expected value =>
    "type mismatch for field '" ++ path.text ++ "': expected " ++ expected.name ++ ", got " ++
      value.kind ++ " " ++ value.render
  | .outOfRange path type value =>
    "value " ++ value.render ++ " for field '" ++ path.text ++ "' is out of range for " ++
      type.name ++ " " ++ domainText type
  | .missingField path => "missing field '" ++ path.text ++ "'"
  | .shortSequence path need size =>
    "sequence '" ++ path.text ++ "' has " ++ toString size ++
      " elements, schema requires at least " ++ toString need
  | .unwritableText path encoding reason =>
    "field '" ++ path.text ++ "' cannot be written as " ++ encoding.name ++ " text: " ++
      reason.message

end SchemaWire.Codec
