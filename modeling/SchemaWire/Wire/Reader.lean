import SchemaWire.Floating.Binary64
import SchemaWire.Wire.BigEndian
import SchemaWire.Wire.Text

/-!
# Reading bytes

A reader stands at a position of a buffer. A read takes bytes from there on or fails; a failed
read of a fixed number of bytes does not move the reader, while a read in several parts that fails
has moved it past the parts that succeeded.
-/

set_option autoImplicit false

namespace SchemaWire.Wire

open Floating (Binary32 Binary64)

inductive DecodeError where
  /-- The buffer ends too early: it would need so many bytes and has fewer. -/
  | truncated (need size : Nat)
  /-- A declared length is past every possible buffer. -/
  | lengthOverflow (declared : UInt64) (available : Nat)
  /-- A variable-length integer does not end within the groups of a 64-bit integer. -/
  | varuintTooLong (start : Nat)
  /-- The steps of a plan do not close what they open. -/
  | unbalanced
  | unreadableText (start : Nat) (encoding : TextEncoding) (reason : UnreadableText)
  /-- Bytes are left over after the value. -/
  | trailing (remaining : Nat)
  deriving DecidableEq, Repr

def DecodeError.message : DecodeError → String
  | .truncated need size =>
    "truncated input: need " ++ toString need ++ " bytes, have " ++ toString size
  | .lengthOverflow declared available =>
    "declared length " ++ toString declared.toNat ++ " exceeds the " ++ toString available ++
      " remaining bytes"
  | .varuintTooLong start =>
    "invalid data: varint at offset " ++ toString start ++ " exceeds " ++
      toString maxVaruintLength ++ " bytes"
  | .unbalanced => "invalid data: unbalanced traversal"
  | .unreadableText start encoding reason =>
    "invalid " ++ encoding.name ++ " text at offset " ++ toString start ++ ": " ++ reason.message
  | .trailing remaining => toString remaining ++ " trailing bytes after decoded value"

/-- A position in a buffer, and the bytes from there on. -/
structure Reader where
  position : Nat
  rest : List UInt8
  deriving DecidableEq, Repr

namespace Reader

def ofBytes (bytes : List UInt8) : Reader := ⟨0, bytes⟩

def remaining (reader : Reader) : Nat := reader.rest.length

def size (reader : Reader) : Nat := reader.position + reader.remaining

def isExhausted (reader : Reader) : Bool := reader.rest.isEmpty

end Reader

/-- A computation that reads bytes and may fail. It leaves a reader behind in either case. -/
abbrev Read := EStateM DecodeError Reader

/-- The first `count` elements of a list and the others, if there are so many. -/
def splitExact? {α : Type} : Nat → List α → Option (List α × List α)
  | 0, items => some ([], items)
  | _ + 1, [] => none
  | count + 1, item :: items =>
    match splitExact? count items with
    | some (taken, rest) => some (item :: taken, rest)
    | none => none

namespace Read

/-- Takes the next `count` bytes. Byte counts that no buffer has are reported as the greatest
64-bit number. -/
def take (count : Nat) : Read (List UInt8) := fun reader =>
  match splitExact? count reader.rest with
  | some (taken, rest) => .ok taken ⟨reader.position + count, rest⟩
  | none =>
    .error (.truncated (min (reader.position + count) (2 ^ 64 - 1)) reader.size) reader

def fixed (width : Nat) : Read Nat := do
  let bytes ← take width
  return ofBigEndian bytes

def byte : Read UInt8 := do
  let value ← fixed 1
  return UInt8.ofNat value

def binary32 : Read Binary32 := do
  let bits ← fixed 4
  return ⟨UInt32.ofNat bits⟩

def binary64 : Read Binary64 := do
  let bits ← fixed 8
  return ⟨UInt64.ofNat bits⟩

/-- The groups of an unsigned integer from position `index` on, of which at most `more` may come,
added to the groups before them. Bits past the sixty-fourth are lost. -/
def varuintFrom (start : Nat) : Nat → Nat → UInt64 → Read UInt64
  | 0, _, _ => throw (.varuintTooLong start)
  | more + 1, index, value => do
    let group ← byte
    let value := value ||| (group &&& 0x7f).toUInt64 <<< UInt64.ofNat (7 * index)
    if group &&& 0x80 = 0 then return value
    else varuintFrom start more (index + 1) value

/-- An unsigned integer in groups of seven bits. Groups that add nothing are accepted. -/
def varuint : Read UInt64 := do
  let reader ← get
  varuintFrom reader.position maxVaruintLength 0 0

def varint : Read Int64 := do
  let value ← varuint
  return unzigzag value

/-- A declared length as a number of bytes. It is refused at once where no buffer could hold so
many bytes; whether this one does is not examined. -/
def checkedLength (declared : UInt64) : Read Nat := do
  let reader ← get
  if declared.toNat < 2 ^ 63 ∧ reader.position + declared.toNat < 2 ^ 64 then
    return declared.toNat
  else throw (.lengthOverflow declared reader.remaining)

def prefixed : Read (List UInt8) := do
  let declared ← varuint
  let length ← checkedLength declared
  take length

/-- Text after the number of its bytes. Faults in the bytes are reported at the position of this
number. -/
def text (encoding : TextEncoding) : Read String := do
  let reader ← get
  let bytes ← prefixed
  match textOfPayload encoding bytes with
  | .ok text => return text
  | .error reason => throw (.unreadableText reader.position encoding reason)

def times {α : Type} (element : Read α) : Nat → Read (List α)
  | 0 => return []
  | count + 1 => do
    let first ← element
    let others ← times element count
    return first :: others

/-- Reads until no byte is left, but at most `limit` times. -/
def untilExhausted {α : Type} (element : Read α) : Nat → Read (List α)
  | 0 => return []
  | limit + 1 => do
    let reader ← get
    if reader.isExhausted then return []
    else do
      let first ← element
      let others ← untilExhausted element limit
      return first :: others

/-- Reads until no byte is left. Every element takes at least one byte, so no more elements than
bytes can come. -/
def toEnd {α : Type} (element : Read α) : Read (List α) := do
  let reader ← get
  untilExhausted element reader.remaining

end Read

end SchemaWire.Wire
