import SchemaWire.Wire.Reader
import SchemaWire.Wire.Writer

/-!
# Wire items

The forms in which single data go over the wire, each with its writing and its reading. Items are
written one after another, also after one that cannot be written.
-/

set_option autoImplicit false

namespace SchemaWire.Wire

open Floating (Binary32 Binary64)

inductive Item where
  | uint8 (value : UInt8)
  | uint16 (value : UInt16)
  | uint32 (value : UInt32)
  | binary32 (value : Binary32)
  | binary64 (value : Binary64)
  | varuint (value : UInt64)
  | varint (value : Int64)
  /-- Bytes without their number. -/
  | raw (bytes : List UInt8)
  | text (encoding : TextEncoding) (content : String)
  deriving DecidableEq, Repr

def Item.write : Item → Write Unit
  | .uint8 value => Write.fixed 1 value.toNat
  | .uint16 value => Write.fixed 2 value.toNat
  | .uint32 value => Write.fixed 4 value.toNat
  | .binary32 value => Write.fixed 4 value.bits.toNat
  | .binary64 value => Write.fixed 8 value.bits.toNat
  | .varuint value => Write.varuint value
  | .varint value => Write.varint value
  | .raw bytes => Write.bytes bytes
  | .text encoding content => Write.text encoding content

/-- What an item leaves behind where nothing was written before. -/
def Item.bytes (item : Item) : Except UnwritableText (List UInt8) :=
  item.write.output

/-- Bytes written so far, and what came of each item: the number of bytes after it, or why it was
not written. -/
structure Written where
  bytes : List UInt8
  outcomes : List (Except UnwritableText Nat)

/-- Writes an item behind what was written. If it fails, what it has written before stays. -/
def Written.push (written : Written) (item : Item) : Written :=
  match item.write.run written.bytes with
  | .ok _ bytes => ⟨bytes, written.outcomes ++ [.ok bytes.length]⟩
  | .error reason bytes => ⟨bytes, written.outcomes ++ [.error reason]⟩

def writeItems (items : List Item) : Written :=
  items.foldl Written.push ⟨[], []⟩

inductive Request where
  | uint8
  | uint16
  | uint32
  | binary32
  | binary64
  | varuint
  | varint
  /-- So many bytes. -/
  | raw (count : Nat)
  /-- Bytes after their number. -/
  | prefixed
  /-- Nothing but whether so many bytes could follow. -/
  | checkedLength (declared : UInt64)
  | text (encoding : TextEncoding)
  deriving DecidableEq, Repr

inductive Found where
  | item (item : Item)
  | prefixed (bytes : List UInt8)
  | length (length : Nat)
  deriving DecidableEq, Repr

def Request.read : Request → Read Found
  | .uint8 => return .item (.uint8 (← Read.byte))
  | .uint16 => return .item (.uint16 (UInt16.ofNat (← Read.fixed 2)))
  | .uint32 => return .item (.uint32 (UInt32.ofNat (← Read.fixed 4)))
  | .binary32 => return .item (.binary32 (← Read.binary32))
  | .binary64 => return .item (.binary64 (← Read.binary64))
  | .varuint => return .item (.varuint (← Read.varuint))
  | .varint => return .item (.varint (← Read.varint))
  | .raw count => return .item (.raw (← Read.take count))
  | .prefixed => return .prefixed (← Read.prefixed)
  | .checkedLength declared => return .length (← Read.checkedLength declared)
  | .text encoding => return .item (.text encoding (← Read.text encoding))

/-- Performs one read on a reader: the outcome, and the reader after it. -/
def Request.perform (request : Request) (reader : Reader) :
    Except DecodeError Found × Reader :=
  match request.read.run reader with
  | .ok found next => (.ok found, next)
  | .error e next => (.error e, next)

/-- Performs reads one after another, failing ones included: every outcome with the reader after
it. -/
def performAll (reader : Reader) : List Request → List (Except DecodeError Found × Reader)
  | [] => []
  | request :: rest =>
    let (outcome, next) := request.perform reader
    (outcome, next) :: performAll next rest

def Item.request : Item → Request
  | .uint8 _ => .uint8
  | .uint16 _ => .uint16
  | .uint32 _ => .uint32
  | .binary32 _ => .binary32
  | .binary64 _ => .binary64
  | .varuint _ => .varuint
  | .varint _ => .varint
  | .raw bytes => .raw bytes.length
  | .text encoding _ => .text encoding

end SchemaWire.Wire
