/-!
# Variable-length integers

An unsigned 64-bit integer is written in groups of seven bits, the lowest first, and every group
but the last has its high bit set. Signed integers are folded onto the unsigned ones first, so
that small magnitudes stay short on both sides of zero.
-/

set_option autoImplicit false

namespace SchemaWire.Wire

def maxVaruintLength : Nat := 10

/-- The number of groups of an integer: one for each seven bits of it, and one for zero. -/
def varuintLength (value : UInt64) : Nat :=
  (Nat.log2 (value ||| 1).toNat + 1 + 6) / 7

/-- The groups of an integer, at most `more` groups before the last one. -/
def varuintGroups : Nat → UInt64 → List UInt8
  | 0, value => [value.toUInt8]
  | more + 1, value =>
    if value ≤ 0x7f then [value.toUInt8]
    else (value.toUInt8 &&& 0x7f ||| 0x80) :: varuintGroups more (value >>> 7)

def varuintBytes (value : UInt64) : List UInt8 :=
  varuintGroups (maxVaruintLength - 1) value

/-- Folds the signed integers onto the unsigned ones: 0, -1, 1, -2, 2 and so on. -/
def zigzag (value : Int64) : UInt64 :=
  (value <<< 1 ^^^ value >>> 63).toUInt64

def unzigzag (value : UInt64) : Int64 :=
  (value >>> 1).toInt64 ^^^ -(value &&& 1).toInt64

def varintBytes (value : Int64) : List UInt8 :=
  varuintBytes (zigzag value)

end SchemaWire.Wire
