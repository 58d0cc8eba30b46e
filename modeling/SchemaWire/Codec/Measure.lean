import SchemaWire.Codec.Focus

/-!
# Measuring

The number of bytes that a value takes under a plan. With the guard on, every leaf is examined on
the way, and this is the only place where the guard runs. With the guard off, parts whose size
does not depend on the value are not looked at.
-/

set_option autoImplicit false

namespace SchemaWire.Codec

open Schema (Slot Step Tail Plan)

/-- The sum of the sizes of elements, each measured at its own path. -/
def sumOfItems (measure : Path → Value → Except EncodeError Nat) (path : Path) (index : Nat) :
    List Value → Except EncodeError Nat
  | [] => .ok 0
  | item :: rest => do
    let first ← measure (path ++ [.index index]) item
    let others ← sumOfItems measure path (index + 1) rest
    return first + others

mutual

/-- The size of what one step writes, and the focus after it. -/
def measureStep (options : Options) (focus : Focus) : Step → Except EncodeError (Nat × Focus)
  | .leaf slot type =>
    match type.width?, options.validate with
    | some width, false => return (width, focus)
    | _, _ => do
      let value ← focus.child slot
      let size ← (measureLeaf options type value).mapError
        (LeafFault.toError (focus.pathOf slot) type options.encoding value)
      return (size, focus)
  | .openMapping slot => do
    let inner ← focus.openMapping slot
    return (0, inner)
  | .closeMapping slot => return (0, focus.close slot)
  | .openSequence slot heads => do
    let inner ← focus.openSequence slot heads
    return (0, inner)
  | .closeSequence slot heads tail counted => do
    let items := focus.itemsAfter heads
    let count := if counted then Wire.varuintLength (UInt64.ofNat items.length) else 0
    let size ←
      match tail.width?, options.validate with
      | some width, false => pure (width * items.length)
      | _, _ =>
        sumOfItems (fun path item => measureTail options path item tail) focus.path heads items
    return (count + size, focus.close slot)

def measureTail (options : Options) (path : Path) (item : Value) :
    Tail → Except EncodeError Nat
  | .leaf type =>
    (measureLeaf options type item).mapError
      (LeafFault.toError path type options.encoding item)
  | .plan steps => measureSteps options (.ofValue path item) steps

def measureSteps (options : Options) (focus : Focus) : List Step → Except EncodeError Nat
  | [] => .ok 0
  | step :: rest => do
    let (size, next) ← measureStep options focus step
    let others ← measureSteps options next rest
    return size + others

end

def measure (options : Options) (plan : Plan) (value : Value) : Except EncodeError Nat :=
  match plan.width?, options.validate with
  | some width, false => .ok width
  | _, _ => measureSteps options (.ofValue [] value) plan

end SchemaWire.Codec
