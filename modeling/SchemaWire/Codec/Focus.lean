import SchemaWire.Codec.Leaf
import SchemaWire.Schema.Plan

/-!
# Focus

Measuring and writing walk down and up a value as the steps of a plan open and close containers.
The focus is the open container with those around it and the path to it.
-/

set_option autoImplicit false

namespace SchemaWire.Codec

open Schema (Slot Step Tail Plan)

/-- The segment of a slot; the slot of a whole value has none. -/
def segmentsOf : Slot → Path
  | .whole => []
  | .field name => [.field name]
  | .index position => [.index position]

/-- The open container, the containers around it, innermost first, and the path to the open one. -/
structure Focus where
  current : Value
  outer : List Value
  path : Path

namespace Focus

def ofValue (path : Path) (value : Value) : Focus := ⟨value, [], path⟩

def pathOf (focus : Focus) (slot : Slot) : Path :=
  focus.path ++ segmentsOf slot

def child (focus : Focus) (slot : Slot) : Except EncodeError Value :=
  match slot with
  | .whole => .ok focus.current
  | .field name =>
    match focus.current with
    | .mapping entries =>
      match entries.lookup name with
      | some value => .ok value
      | none => .error (.missingField (focus.pathOf slot))
    | other => .error (.typeMismatch focus.path (.container .mapping) other)
  | .index position =>
    match focus.current with
    | .sequence items =>
      match items[position]? with
      | some value => .ok value
      | none => .error (.missingField (focus.pathOf slot))
    | other => .error (.typeMismatch focus.path (.container .sequence) other)

def enter (focus : Focus) (slot : Slot) (value : Value) : Focus :=
  ⟨value, focus.current :: focus.outer, focus.pathOf slot⟩

def openMapping (focus : Focus) (slot : Slot) : Except EncodeError Focus := do
  let value ← focus.child slot
  match value with
  | .mapping _ => return focus.enter slot value
  | other => throw (.typeMismatch (focus.pathOf slot) (.container .mapping) other)

/-- Goes down to a child that has to be a sequence with an element for every head. -/
def openSequence (focus : Focus) (slot : Slot) (heads : Nat) : Except EncodeError Focus := do
  let value ← focus.child slot
  match value with
  | .sequence items =>
    if heads ≤ items.length then return focus.enter slot value
    else throw (.shortSequence (focus.pathOf slot) heads items.length)
  | other => throw (.typeMismatch (focus.pathOf slot) (.container .sequence) other)

def close (focus : Focus) (slot : Slot) : Focus :=
  let path := focus.path.take (focus.path.length - (segmentsOf slot).length)
  match focus.outer with
  | container :: outer => ⟨container, outer, path⟩
  | [] => ⟨focus.current, [], path⟩

/-- The elements of the open sequence after its heads. -/
def itemsAfter (focus : Focus) (heads : Nat) : List Value :=
  match focus.current with
  | .sequence items => items.drop heads
  | _ => []

end Focus

end SchemaWire.Codec
