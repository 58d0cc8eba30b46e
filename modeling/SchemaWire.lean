import SchemaWire.Codec.Basic
import SchemaWire.Codec.Error
import SchemaWire.Codec.Focus
import SchemaWire.Codec.Leaf
import SchemaWire.Codec.Measure
import SchemaWire.Codec.Read
import SchemaWire.Codec.Write
import SchemaWire.DataModel.Collect
import SchemaWire.DataModel.Data
import SchemaWire.DataModel.Shape
import SchemaWire.DataModel.Transfer
import SchemaWire.Floating.Binary32
import SchemaWire.Floating.Binary64
import SchemaWire.Floating.Decimal
import SchemaWire.Floating.Format
import SchemaWire.Notation.Reading
import SchemaWire.Notation.Token
import SchemaWire.Power
import SchemaWire.Primitive
import SchemaWire.Proofs.Codec.Acceptance
import SchemaWire.Proofs.Codec.Agreement
import SchemaWire.Proofs.Codec.CanonicalBytes
import SchemaWire.Proofs.Codec.CanonicalValue
import SchemaWire.Proofs.Codec.Cost
import SchemaWire.Proofs.Codec.Decoded
import SchemaWire.Proofs.Codec.DecodedLeaves
import SchemaWire.Proofs.Codec.Delimiting
import SchemaWire.Proofs.Codec.EarlyCount
import SchemaWire.Proofs.Codec.Failures
import SchemaWire.Proofs.Codec.Faults
import SchemaWire.Proofs.Codec.FirstRefusal
import SchemaWire.Proofs.Codec.Forms
import SchemaWire.Proofs.Codec.Frames
import SchemaWire.Proofs.Codec.Guarding
import SchemaWire.Proofs.Codec.IntegerLeaves
import SchemaWire.Proofs.Codec.Parts
import SchemaWire.Proofs.Codec.Paths
import SchemaWire.Proofs.Codec.Position
import SchemaWire.Proofs.Codec.Recursion
import SchemaWire.Proofs.Codec.Relevance
import SchemaWire.Proofs.Codec.RoundTrip
import SchemaWire.Proofs.Codec.Shape
import SchemaWire.Proofs.Codec.Size
import SchemaWire.Proofs.Codec.Steps
import SchemaWire.Proofs.Codec.Streams
import SchemaWire.Proofs.Codec.VisitingOrder
import SchemaWire.Proofs.Codec.Width
import SchemaWire.Proofs.DataModel.Collecting
import SchemaWire.Proofs.DataModel.Meaning
import SchemaWire.Proofs.DataModel.Reading
import SchemaWire.Proofs.DataModel.Refusals
import SchemaWire.Proofs.DataModel.RoundTrip
import SchemaWire.Proofs.DataModel.Transfer
import SchemaWire.Proofs.Floating.Difference
import SchemaWire.Proofs.Floating.Exact
import SchemaWire.Proofs.Floating.Widening
import SchemaWire.Proofs.Notation.Earliest
import SchemaWire.Proofs.Notation.Grammar
import SchemaWire.Proofs.Notation.Json
import SchemaWire.Proofs.Notation.JsonReading
import SchemaWire.Proofs.Notation.Lexemes
import SchemaWire.Proofs.Notation.Punctuation
import SchemaWire.Proofs.Notation.Reading
import SchemaWire.Proofs.Notation.Spelling
import SchemaWire.Proofs.Notation.Writing
import SchemaWire.Proofs.Outcome
import SchemaWire.Proofs.Schema.Alias
import SchemaWire.Proofs.Schema.Brackets
import SchemaWire.Proofs.Schema.Faults
import SchemaWire.Proofs.Schema.FieldOrder
import SchemaWire.Proofs.Schema.Identity
import SchemaWire.Proofs.Schema.Layout
import SchemaWire.Proofs.Schema.PlaceText
import SchemaWire.Proofs.Schema.Places
import SchemaWire.Proofs.Schema.PlanLines
import SchemaWire.Proofs.Schema.PlanShape
import SchemaWire.Proofs.Schema.PlanText
import SchemaWire.Proofs.Schema.Rearrangement
import SchemaWire.Proofs.Session.History
import SchemaWire.Proofs.Text.Name
import SchemaWire.Proofs.Value.Entries
import SchemaWire.Proofs.Value.Nearness
import SchemaWire.Proofs.Value.Rearranged
import SchemaWire.Proofs.Value.Rendering
import SchemaWire.Proofs.Wire.Additions
import SchemaWire.Proofs.Wire.Base64
import SchemaWire.Proofs.Wire.Base64Engine
import SchemaWire.Proofs.Wire.BigEndian
import SchemaWire.Proofs.Wire.Cursor
import SchemaWire.Proofs.Wire.Failures
import SchemaWire.Proofs.Wire.Groups
import SchemaWire.Proofs.Wire.Hex
import SchemaWire.Proofs.Wire.Integers
import SchemaWire.Proofs.Wire.Items
import SchemaWire.Proofs.Wire.Locality
import SchemaWire.Proofs.Wire.Outcomes
import SchemaWire.Proofs.Wire.Payloads
import SchemaWire.Proofs.Wire.Reading
import SchemaWire.Proofs.Wire.Repetition
import SchemaWire.Proofs.Wire.Text
import SchemaWire.Proofs.Wire.Utf16
import SchemaWire.Proofs.Wire.Utf8
import SchemaWire.Proofs.Wire.Varint
import SchemaWire.Proofs.Wire.Writing
import SchemaWire.Schema.Alias
import SchemaWire.Schema.Definition
import SchemaWire.Schema.Dump
import SchemaWire.Schema.FieldOrder
import SchemaWire.Schema.Layout
import SchemaWire.Schema.Path
import SchemaWire.Schema.Plan
import SchemaWire.Session
import SchemaWire.Text.Lowercase
import SchemaWire.Text.Name
import SchemaWire.Text.Quoted
import SchemaWire.TextEncoding
import SchemaWire.Unicode.Alphabetic
import SchemaWire.Unicode.Casing
import SchemaWire.Unicode.GraphemeExtend
import SchemaWire.Unicode.Lowercase
import SchemaWire.Unicode.Numeric
import SchemaWire.Unicode.Printable
import SchemaWire.Unicode.Ranges
import SchemaWire.Unicode.WhiteSpace
import SchemaWire.Value.Approx
import SchemaWire.Value.Basic
import SchemaWire.Value.Render
import SchemaWire.Wire.Base64
import SchemaWire.Wire.BigEndian
import SchemaWire.Wire.Hex
import SchemaWire.Wire.Item
import SchemaWire.Wire.Reader
import SchemaWire.Wire.Text
import SchemaWire.Wire.Utf16
import SchemaWire.Wire.Utf8
import SchemaWire.Wire.Varint
import SchemaWire.Wire.Writer
