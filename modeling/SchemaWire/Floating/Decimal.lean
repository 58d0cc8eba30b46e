import SchemaWire.Floating.Binary64

/-!
# Decimal text of floats

A double is shown by the fewest significant digits that read back as the same double, and of
those by the decimal nearest to its value. The text is positional at every magnitude: it has no
exponent, and no fractional part where the decimal is an integer.

All quantities are integers: counts of `10 ^ -1074`, of which every finite double is a multiple.
-/

set_option autoImplicit false

namespace SchemaWire.Floating

/-- The decimal places of the unit in which decimals are counted. -/
def decimalPlaces : Nat := Binary64.places

/-- A finite magnitude pattern as an exact count of decimal units. -/
def decimalCount (pattern : Nat) : Nat :=
  Binary64.format.units pattern * 5 ^ decimalPlaces

/-- Whether a decimal reads back as the given positive finite pattern: it lies between the
midpoints to the neighbouring doubles, where a midpoint itself belongs to the even pattern. -/
def readsBackAs (pattern decimal : Nat) : Bool :=
  let below := decimalCount (pattern - 1)
  let exact := decimalCount pattern
  let above := Binary64.format.units (pattern + 1) * 5 ^ decimalPlaces
  if pattern % 2 == 0 then below + exact ≤ 2 * decimal && 2 * decimal ≤ exact + above
  else below + exact < 2 * decimal && 2 * decimal < exact + above

/-- Of the grids `10 ^ digits, 10 ^ (digits - 1), ..., 1`, the first with a point that passes the
test, and there the passing point nearest to `exact`; of two equally near ones the greater. Only the
two points around `exact` need be looked at, because the test holds on an interval around it. -/
def coarsestNear (passes : Nat → Bool) (exact : Nat) : Nat → Nat
  | 0 => exact
  | digits + 1 =>
    let grid := 10 ^ (digits + 1)
    let below := exact / grid * grid
    let above := below + grid
    match passes below, passes above with
    | true, true => if 2 * (exact - below) < grid then below else above
    | true, false => below
    | false, true => above
    | false, false => coarsestNear passes exact digits

/-- The shortest decimal of a positive finite pattern. The search starts at a power of ten above
the value, since ten is more than the third power of two. -/
def shortestDecimal (pattern : Nat) : Nat :=
  let exact := decimalCount pattern
  coarsestNear (readsBackAs pattern) exact (Nat.log2 exact / 3 + 1)

/-- The positional text of a count of decimal units, without trailing zeros after the point. -/
def positionalText (decimal : Nat) : String :=
  let whole := decimal / 10 ^ decimalPlaces
  let part := decimal % 10 ^ decimalPlaces
  if part = 0 then toString whole
  else
    let digits := Nat.toDigits 10 (10 ^ decimalPlaces + part)
    let shown := ((digits.drop 1).reverse.dropWhile (· == '0')).reverse
    toString whole ++ "." ++ String.ofList shown

/-- The text of a double: its sign, if it is set, before the shortest decimal. Zero keeps its sign,
what is not a number shows none. -/
def Binary64.toText (x : Binary64) : String :=
  if x.isNaN then "NaN"
  else
    let sign := if x.negative then "-" else ""
    if x.isInfinite then sign ++ "inf"
    else if x.magnitude = 0 then sign ++ "0"
    else sign ++ positionalText (shortestDecimal x.magnitude)

end SchemaWire.Floating
