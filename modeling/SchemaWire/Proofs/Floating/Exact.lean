import Mathlib.Algebra.Order.Field.Basic
import Mathlib.Data.Rat.Cast.Order
import Mathlib.Tactic.NormNum
import SchemaWire.Proofs.Floating.Widening

/-!
# Exact values

The number that a float denotes, as a rational number from its sign, exponent and fraction. The
count of the smallest positive number is this number in other words, so a float is integral exactly
if it denotes an integer, and a conversion that has room for the integer gives it.
-/

set_option autoImplicit false

namespace SchemaWire.Floating

namespace Binary64

/-- The number that a float denotes by its fields. Infinities and what is not a number denote
none. -/
def value? (x : Binary64) : Option ℚ :=
  let sign : ℚ := if x.negative then -1 else 1
  let exponent : Nat := x.bits.toNat / 2 ^ 52 % 2 ^ 11
  let fraction : Nat := x.bits.toNat % 2 ^ 52
  if exponent = 2047 then none
  else if exponent = 0 then some (sign * (fraction / 2 ^ 52) * 2 ^ (-1022 : ℤ))
  else some (sign * (1 + fraction / 2 ^ 52) * 2 ^ ((exponent : ℤ) - 1023))

variable {x : Binary64} {number : Int}

/-! ## Units and values -/

/-- The lowest place of a fraction at an exponent, in units. -/
theorem place_eq (exponent : Nat) :
    (2 : ℚ) ^ ((exponent : ℤ) - 1022) / 2 ^ 52 = 2 ^ exponent / 2 ^ places := by
  have lowest : (2 : ℚ) ^ places = 2 ^ 1022 * 2 ^ 52 := pow_add 2 1022 52
  rw [lowest, zpow_sub₀ (by norm_num), zpow_natCast, div_div]
  rfl

theorem units_eq_fields (x : Binary64) :
    format.units x.magnitude =
      if x.bits.toNat / 2 ^ 52 % 2 ^ 11 = 0 then x.bits.toNat % 2 ^ 52
      else (2 ^ 52 + x.bits.toNat % 2 ^ 52) * 2 ^ (x.bits.toNat / 2 ^ 52 % 2 ^ 11 - 1) := by
  have bound := x.bits.toNat_lt
  have exponent : x.magnitude / 2 ^ 52 = x.bits.toNat / 2 ^ 52 % 2 ^ 11 := by
    rw [magnitude]
    omega
  have fraction : x.magnitude % 2 ^ 52 = x.bits.toNat % 2 ^ 52 := by
    rw [magnitude]
    omega
  rw [← exponent, ← fraction]
  rfl

theorem isFinite_iff_exponent : x.isFinite = true ↔ x.bits.toNat / 2 ^ 52 % 2 ^ 11 ≠ 2047 := by
  have bound := x.bits.toNat_lt
  have infinity : format.infinity = 2047 * 2 ^ 52 := rfl
  rw [isFinite, decide_eq_true_eq, magnitude, infinity]
  omega

theorem value?_eq (x : Binary64) :
    x.value? = if x.isFinite then some ((x.units : ℚ) / 2 ^ places) else none := by
  have sign : (x.units : ℚ) = (if x.negative then -1 else 1) * (format.units x.magnitude : ℚ) := by
    rw [units]
    split <;> simp
  simp only [value?]
  by_cases special : x.bits.toNat / 2 ^ 52 % 2 ^ 11 = 2047
  · rw [if_pos special, if_neg fun finite => isFinite_iff_exponent.mp finite special]
  · rw [if_neg special, if_pos (isFinite_iff_exponent.mpr special), sign, units_eq_fields]
    generalize x.bits.toNat / 2 ^ 52 % 2 ^ 11 = exponent
    generalize x.bits.toNat % 2 ^ 52 = fraction
    cases exponent with
    | zero =>
        have place := place_eq 0
        rw [Nat.cast_zero, zero_sub, pow_zero] at place
        rw [if_pos rfl, if_pos rfl, mul_div_assoc, mul_assoc, div_mul_eq_mul_div, mul_div_assoc, place,
          mul_one_div]
    | succ exponent =>
        have place := place_eq exponent
        have shifted : ((exponent + 1 : Nat) : ℤ) - 1023 = exponent - 1022 := by omega
        rw [if_neg (Nat.succ_ne_zero _), if_neg (Nat.succ_ne_zero _), shifted, Nat.add_sub_cancel]
        have significand : (1 : ℚ) + fraction / 2 ^ 52 = (2 ^ 52 + fraction) / 2 ^ 52 := by
          rw [add_div, div_self (by norm_num)]
        rw [significand, mul_assoc, div_mul_eq_mul_div, mul_div_assoc, place]
        simp only [Nat.cast_mul, Nat.cast_add, Nat.cast_pow, Nat.cast_ofNat, mul_div_assoc]

/-- A float has an integer as its value if it has so many units. -/
theorem value?_eq_some_iff :
    x.value? = some (number : ℚ) ↔ x.isFinite = true ∧ x.units = number * 2 ^ places := by
  have positive : (2 : ℚ) ^ places ≠ 0 := pow_ne_zero _ (by norm_num)
  rw [value?_eq]
  cases finite : x.isFinite with
  | false => simp
  | true =>
      have scaled : (number : ℚ) * 2 ^ places = ((number * 2 ^ places : Int) : ℚ) := by
        rw [Int.cast_mul, Int.cast_pow, Int.cast_ofNat]
      rw [if_pos rfl, Option.some.injEq, div_eq_iff positive, scaled, Int.cast_inj,
        and_iff_right rfl]

/-! ## Integral floats -/

theorem isNaN_of_isFinite (finite : x.isFinite = true) : x.isNaN = false := by
  rw [isFinite, decide_eq_true_eq] at finite
  rw [isNaN, decide_eq_false_iff_not]
  exact Nat.not_lt.mpr (Nat.le_of_lt finite)

theorem isIntegral_iff : x.isIntegral = true ↔ ∃ number : Int, x.value? = some (number : ℚ) := by
  simp only [value?_eq_some_iff, exists_and_left, isIntegral, Bool.and_eq_true, beq_iff_eq]
  refine and_congr_right fun _ => ?_
  rw [← Int.dvd_iff_emod_eq_zero, dvd_iff_exists_eq_mul_left]

/-- A conversion to 64 bits that has room for the integer gives it. -/
theorem toInt64_of_value (value : x.value? = some (number : ℚ)) (least : -2 ^ 63 ≤ number)
    (greatest : number ≤ 2 ^ 63 - 1) : x.toInt64 = Int64.ofInt number := by
  obtain ⟨finite, units⟩ := value?_eq_some_iff.mp value
  have positive : (2 : Int) ^ places ≠ 0 := pow_ne_zero _ (by decide)
  rw [toInt64, isNaN_of_isFinite finite, if_neg Bool.false_ne_true, units,
    Int.mul_tdiv_cancel _ positive, min_eq_right greatest, max_eq_right least]

/-- Floats that have integers for their values compare as these do. -/
theorem le_iff_of_units {y : Binary64} {other : Int} (isNumber : x.isNaN = false)
    (otherNumber : y.isNaN = false) (units : x.units = number * 2 ^ places)
    (otherUnits : y.units = other * 2 ^ places) : x.le y = true ↔ number ≤ other := by
  have positive : (0 : Int) < 2 ^ places := pow_pos (by decide) _
  rw [le, isNumber, otherNumber, units, otherUnits]
  simp only [Bool.not_false, Bool.true_and, decide_eq_true_eq]
  exact mul_le_mul_iff_left₀ positive

theorem lt_iff_of_units {y : Binary64} {other : Int} (isNumber : x.isNaN = false)
    (otherNumber : y.isNaN = false) (units : x.units = number * 2 ^ places)
    (otherUnits : y.units = other * 2 ^ places) : x.lt y = true ↔ number < other := by
  have positive : (0 : Int) < 2 ^ places := pow_pos (by decide) _
  rw [lt, isNumber, otherNumber, units, otherUnits]
  simp only [Bool.not_false, Bool.true_and, decide_eq_true_eq]
  exact mul_lt_mul_iff_left₀ positive

end Binary64

end SchemaWire.Floating
