import SchemaWire.Value.Basic

/-!
# Approximate equality

Equality of values that lets floats differ by a tolerance, as after narrowing to single precision.
-/

set_option autoImplicit false

namespace SchemaWire

/-- Whether two floats agree: neither is a number, or they are numerically equal, or their rounded
difference is at most the tolerance. -/
def Floating.Binary64.closeTo (left tolerance right : Floating.Binary64) : Bool :=
  (left.isNaN && right.isNaN) || left.eq right || (left.sub right).abs.le tolerance

namespace Value

mutual

/-- Equality up to a tolerance on floats. Values of different kinds never agree. -/
def approxEq (tolerance : Floating.Binary64) : Value → Value → Bool
  | .float left, .float right => left.closeTo tolerance right
  | .mapping left, .mapping right =>
    left.length == right.length && approxEntries tolerance right left
  | .sequence left, .sequence right =>
    left.length == right.length && approxItems tolerance left right
  | left, right => left == right

/-- Whether every entry agrees with the entry of its name among `others`. -/
def approxEntries (tolerance : Floating.Binary64) (others : List (String × Value)) :
    List (String × Value) → Bool
  | [] => true
  | (name, value) :: rest =>
    (match others.lookup name with
      | some other => value.approxEq tolerance other
      | none => false) && approxEntries tolerance others rest

/-- Whether values agree one by one, as far as both lists go. -/
def approxItems (tolerance : Floating.Binary64) : List Value → List Value → Bool
  | value :: rest, other :: others =>
    value.approxEq tolerance other && approxItems tolerance rest others
  | _, _ => true

end

end Value

end SchemaWire
