import SchemaWire.Floating.Binary32

/-!
# Double-precision floats

A 64-bit float is its bit pattern; equality of floats as data is equality of bits, so every
not-a-number pattern is kept apart. Numeric comparison, addition and the conversions to and from
integers and single precision work on the exact value and round once, to nearest with ties to
even.
-/

set_option autoImplicit false

namespace SchemaWire.Floating

/-- A 64-bit binary float, kept as its bits. -/
structure Binary64 where
  bits : UInt64
  deriving DecidableEq, Repr, Inhabited

namespace Binary64

/-- Eleven exponent bits and 52 fraction bits. -/
def format : Format := ⟨52, 11⟩

/-- The number of binary places of the smallest positive number. -/
def places : Nat := 1074

def magnitude (x : Binary64) : Nat :=
  x.bits.toNat % 2 ^ 63

/-- Whether the sign bit is set, also on zero and on what is not a number. -/
def negative (x : Binary64) : Bool :=
  2 ^ 63 ≤ x.bits.toNat

def isNaN (x : Binary64) : Bool :=
  format.infinity < x.magnitude

def isInfinite (x : Binary64) : Bool :=
  x.magnitude == format.infinity

def isFinite (x : Binary64) : Bool :=
  x.magnitude < format.infinity

def ofMagnitude (negative : Bool) (magnitude : Nat) : Binary64 :=
  ⟨UInt64.ofNat ((if negative then 2 ^ 63 else 0) + magnitude)⟩

/-- The value as a count of the smallest positive number. An infinity counts as a number greater
in magnitude than every finite one; the count of what is not a number means nothing. -/
def units (x : Binary64) : Int :=
  if x.negative then -(format.units x.magnitude : Int) else format.units x.magnitude

/-- Not a number: the quiet pattern with a clear sign. -/
def nan : Binary64 := ⟨0x7ff8000000000000⟩

def zero : Binary64 := ⟨0⟩

def one : Binary64 := ⟨0x3ff0000000000000⟩

/-- Numeric equality: the zeros are equal, and what is not a number equals nothing. -/
def eq (x y : Binary64) : Bool :=
  !x.isNaN && !y.isNaN && x.units == y.units

/-- Numeric order, false where an operand is not a number. -/
def lt (x y : Binary64) : Bool :=
  !x.isNaN && !y.isNaN && x.units < y.units

/-- Numeric order or equality, false where an operand is not a number. -/
def le (x y : Binary64) : Bool :=
  !x.isNaN && !y.isNaN && x.units ≤ y.units

/-- The float nearest to an integer count of the smallest positive number. -/
def ofUnits (count : Int) : Binary64 :=
  ofMagnitude (count < 0) (format.nearest count.natAbs 0)

def neg (x : Binary64) : Binary64 :=
  ofMagnitude (!x.negative) x.magnitude

def abs (x : Binary64) : Binary64 :=
  ofMagnitude false x.magnitude

/-- The rounded sum. Opposite infinities have none; a sum of zero is negative only if both
operands are. -/
def add (x y : Binary64) : Binary64 :=
  if x.isNaN || y.isNaN then nan
  else if x.isInfinite then if y.isInfinite && x.negative != y.negative then nan else x
  else if y.isInfinite then y
  else if x.units + y.units = 0 then ofMagnitude (x.negative && y.negative) 0
  else ofUnits (x.units + y.units)

def sub (x y : Binary64) : Binary64 :=
  x.add y.neg

def ofInt (value : Int) : Binary64 :=
  ofUnits (value * 2 ^ places)

/-- Whether the value is finite and has no fractional part. -/
def isIntegral (x : Binary64) : Bool :=
  x.isFinite && x.units % 2 ^ places == 0

/-- The integer part, towards zero, clamped to the range of a 64-bit integer. What is not a number
gives zero. -/
def toInt64 (x : Binary64) : Int64 :=
  if x.isNaN then 0
  else Int64.ofInt (max (-2 ^ 63) (min (2 ^ 63 - 1) (x.units.tdiv (2 ^ places))))

/-- The nearest single-precision float. What is not a number stays so, with its sign and the upper
bits of its payload, and becomes quiet. -/
def narrow (x : Binary64) : Binary32 :=
  Binary32.ofMagnitude x.negative <|
    if x.isNaN then Binary32.format.infinity + 2 ^ 22 + x.magnitude / 2 ^ 29 % 2 ^ 22
    else Binary32.format.nearest (format.units x.magnitude) (places - 149)

end Binary64

/-- The double-precision float of the same value, which always exists. What is not a number stays
so, with its sign and payload, and becomes quiet. -/
def Binary32.widen (x : Binary32) : Binary64 :=
  Binary64.ofMagnitude x.negative <|
    if x.isNaN then Binary64.format.infinity + 2 ^ 51 + x.magnitude % 2 ^ 22 * 2 ^ 29
    else if x.isInfinite then Binary64.format.infinity
    else Binary64.format.nearest (Binary32.format.units x.magnitude * 2 ^ (Binary64.places - 149)) 0

end SchemaWire.Floating
