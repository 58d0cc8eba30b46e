import SchemaWire.Codec.Leaf
import SchemaWire.Schema.Plan

/-!
# Reading

The value that bytes denote under a plan. The containers that the steps have opened are kept on a
stack and filled as their children are read; nothing in the bytes says what comes next.
-/

set_option autoImplicit false

namespace SchemaWire.Codec

open Schema (Slot Step Tail Plan)
open Wire (Read DecodeError)

/-- A container under construction. -/
inductive Frame where
  /-- Receives the value of the whole plan. -/
  | whole (value : Option Value)
  | mapping (entries : List (String × Value))
  | sequence (items : List Value)

/-- The name under which a mapping files what is read into a slot. -/
def entryName : Slot → String
  | .field name => name
  | .whole => "$"
  | .index position => toString position

/-- Adds a value that is read into a slot. -/
def Frame.attach (slot : Slot) (value : Value) : Frame → Frame
  | .whole _ => .whole (some value)
  | .mapping entries => .mapping (insertEntry (entryName slot) value entries)
  | .sequence items => .sequence (items ++ [value])

def Frame.value? : Frame → Option Value
  | .whole value => value
  | .mapping entries => some (.mapping entries)
  | .sequence items => some (.sequence items)

def attachTop (slot : Slot) (value : Value) : List Frame → Read (List Frame)
  | frame :: outer => return frame.attach slot value :: outer
  | [] => throw .unbalanced

/-- The number of elements that follow. Every element takes at least one byte, so a number greater
than that of the remaining bytes is refused before any element is read. -/
def readCount : Read Nat := do
  let declared ← Read.varuint
  let count ← Read.checkedLength declared
  let reader ← get
  if reader.remaining < count then throw (.truncated (reader.position + count) reader.size)
  else return count

mutual

def readStep (encoding : TextEncoding) (frames : List Frame) : Step → Read (List Frame)
  | .leaf slot type => do
    let value ← readLeaf encoding type
    attachTop slot value frames
  | .openMapping _ => return .mapping [] :: frames
  | .openSequence _ _ => return .sequence [] :: frames
  | .closeMapping slot =>
    match frames with
    | frame :: outer =>
      match frame.value? with
      | some value => attachTop slot value outer
      | none => throw .unbalanced
    | [] => throw .unbalanced
  | .closeSequence slot _ tail counted =>
    match frames with
    | .sequence items :: outer => do
      let others ←
        if counted then do
          let count ← readCount
          Read.times (readTail encoding tail) count
        else Read.toEnd (readTail encoding tail)
      attachTop slot (.sequence (items ++ others)) outer
    | _ => throw .unbalanced

def readTail (encoding : TextEncoding) : Tail → Read Value
  | .leaf type => readLeaf encoding type
  | .plan steps => do
    let frames ← readSteps encoding [.whole none] steps
    match frames with
    | [.whole (some value)] => return value
    | _ => throw .unbalanced

def readSteps (encoding : TextEncoding) (frames : List Frame) : List Step → Read (List Frame)
  | [] => return frames
  | step :: rest => do
    let next ← readStep encoding frames step
    readSteps encoding next rest

end

def readPlan (encoding : TextEncoding) (plan : Plan) : Read Value := do
  let frames ← readSteps encoding [.whole none] plan
  match frames with
  | [.whole (some value)] => return value
  | _ => throw .unbalanced

/-- The value that a whole buffer denotes under a plan. No byte may be left over. -/
def read (encoding : TextEncoding) (plan : Plan) (bytes : List UInt8) :
    Except DecodeError Value :=
  match (readPlan encoding plan).run (.ofBytes bytes) with
  | .ok value reader =>
    if reader.isExhausted then .ok value else .error (.trailing reader.remaining)
  | .error e _ => .error e

end SchemaWire.Codec
