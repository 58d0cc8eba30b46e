import SchemaWire.Power

/-!
# Fixed-width integers

An integer of a fixed number of bytes is written with its highest byte first. Bits above the width
are dropped.
-/

set_option autoImplicit false

namespace SchemaWire.Wire

/-- The low `width` bytes of a number, the highest first. -/
def bigEndian : Nat → Nat → List UInt8
  | 0, _ => []
  | width + 1, value => UInt8.ofNat (value / 256 ^ width) :: bigEndian width value

/-- The number that bytes denote, the highest first. -/
def ofBigEndian (bytes : List UInt8) : Nat :=
  bytes.foldl (fun value byte => value * 256 + byte.toNat) 0

/-- The signed integer whose two's complement in `width` bytes is the given number. -/
def signed (width value : Nat) : Int :=
  if 2 * value < 256 ^ width then value else (value : Int) - 256 ^ width

end SchemaWire.Wire
