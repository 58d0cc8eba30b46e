/-!
# Ranges of code points

A character property is a list of inclusive ranges of code points in ascending order.
-/

set_option autoImplicit false

namespace SchemaWire.Unicode

/-- Whether a code point lies in one of the ranges. The ranges ascend, so the search ends at the
first one that starts past the code point. -/
def inRanges : List (Nat × Nat) → Nat → Bool
  | [], _ => false
  | (first, last) :: rest, code =>
    if code < first then false
    else if code ≤ last then true
    else inRanges rest code

end SchemaWire.Unicode
