import SchemaWire.Floating.Format

/-!
# Single-precision floats

A 32-bit float is its bit pattern; equality of floats as data is equality of bits.
-/

set_option autoImplicit false

namespace SchemaWire.Floating

/-- A 32-bit binary float, kept as its bits. -/
structure Binary32 where
  bits : UInt32
  deriving DecidableEq, Repr, Inhabited

namespace Binary32

/-- Eight exponent bits and 23 fraction bits. -/
def format : Format := ⟨23, 8⟩

def magnitude (x : Binary32) : Nat :=
  x.bits.toNat % 2 ^ 31

/-- Whether the sign bit is set, also on zero and on what is not a number. -/
def negative (x : Binary32) : Bool :=
  2 ^ 31 ≤ x.bits.toNat

def isNaN (x : Binary32) : Bool :=
  format.infinity < x.magnitude

def isInfinite (x : Binary32) : Bool :=
  x.magnitude == format.infinity

def ofMagnitude (negative : Bool) (magnitude : Nat) : Binary32 :=
  ⟨UInt32.ofNat ((if negative then 2 ^ 31 else 0) + magnitude)⟩

end Binary32

end SchemaWire.Floating
