import SchemaWire.Codec.Focus

/-!
# Writing

The bytes of a value under a plan. Leaves are converted to their types, and the guard is not
consulted.
-/

set_option autoImplicit false

namespace SchemaWire.Codec

open Schema (Slot Step Tail Plan)

/-- The bytes of elements one after another, each written at its own path. -/
def writeItems (write : Path → Value → Except EncodeError (List UInt8)) (path : Path)
    (index : Nat) : List Value → Except EncodeError (List UInt8)
  | [] => .ok []
  | item :: rest => do
    let first ← write (path ++ [.index index]) item
    let others ← writeItems write path (index + 1) rest
    return first ++ others

mutual

/-- What one step writes, and the focus after it. -/
def writeStep (encoding : TextEncoding) (focus : Focus) :
    Step → Except EncodeError (List UInt8 × Focus)
  | .leaf slot type => do
    let value ← focus.child slot
    let bytes ← (writeLeaf encoding type value).mapError
      (LeafFault.toError (focus.pathOf slot) type encoding value)
    return (bytes, focus)
  | .openMapping slot => do
    let inner ← focus.openMapping slot
    return ([], inner)
  | .closeMapping slot => return ([], focus.close slot)
  | .openSequence slot heads => do
    let inner ← focus.openSequence slot heads
    return ([], inner)
  | .closeSequence slot heads tail counted => do
    let items := focus.itemsAfter heads
    let count := if counted then Wire.varuintBytes (UInt64.ofNat items.length) else []
    let bytes ← writeItems (fun path item => writeTail encoding path item tail) focus.path heads
      items
    return (count ++ bytes, focus.close slot)

def writeTail (encoding : TextEncoding) (path : Path) (item : Value) :
    Tail → Except EncodeError (List UInt8)
  | .leaf type =>
    (writeLeaf encoding type item).mapError (LeafFault.toError path type encoding item)
  | .plan steps => writeSteps encoding (.ofValue path item) steps

def writeSteps (encoding : TextEncoding) (focus : Focus) :
    List Step → Except EncodeError (List UInt8)
  | [] => .ok []
  | step :: rest => do
    let (bytes, next) ← writeStep encoding focus step
    let others ← writeSteps encoding next rest
    return bytes ++ others

end

def write (encoding : TextEncoding) (plan : Plan) (value : Value) :
    Except EncodeError (List UInt8) :=
  writeSteps encoding (.ofValue [] value) plan

end SchemaWire.Codec
