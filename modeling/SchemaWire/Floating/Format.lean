import SchemaWire.Power

/-!
# Binary interchange formats

A binary float is a sign and a magnitude pattern: an exponent field above a fraction field. The
value of a magnitude is counted in units of the format's smallest positive number, so that
arithmetic on values is arithmetic on integers, and one function rounds a count back to a pattern.
-/

set_option autoImplicit false

namespace SchemaWire.Floating

/-- The widths of the two fields of a magnitude pattern, in bits. -/
structure Format where
  fraction : Nat
  exponent : Nat
  deriving DecidableEq, Repr

/-- The pattern of infinity: the exponent field full and the fraction zero. Greater patterns are
not numbers. -/
def Format.infinity (format : Format) : Nat :=
  (2 ^ format.exponent - 1) * 2 ^ format.fraction

/-- The value of a magnitude pattern as a count of the smallest positive number. Infinity counts
as the power of two that would follow the greatest finite number. -/
def Format.units (format : Format) (pattern : Nat) : Nat :=
  let exponent := pattern / 2 ^ format.fraction
  let fraction := pattern % 2 ^ format.fraction
  if exponent = 0 then fraction
  else (2 ^ format.fraction + fraction) * 2 ^ (exponent - 1)

/-- The quotient rounded to the nearest integer, a tie to the even one. -/
def roundHalfEven (numerator denominator : Nat) : Nat :=
  let quotient := numerator / denominator
  let remainder := numerator % denominator
  if 2 * remainder < denominator then quotient
  else if denominator < 2 * remainder then quotient + 1
  else quotient + quotient % 2

/-- The pattern whose value is nearest to `count / 2 ^ scale` units, a tie to the even pattern.
What rounds past the greatest finite number is infinity.

Only as many low bits are dropped as leave the leading bit and the fraction. Since a pattern
grows by one fraction width for every dropped bit beyond the scale, a carry out of the rounded
significand lands on the next pattern by itself. -/
def Format.nearest (format : Format) (count scale : Nat) : Nat :=
  let shift := max scale (Nat.log2 count - format.fraction)
  min ((shift - scale) * 2 ^ format.fraction + roundHalfEven count (2 ^ shift)) format.infinity

end SchemaWire.Floating
