import SchemaWire.Proofs.Floating.Widening
import SchemaWire.Value.Approx

/-!
# Differences of floats

The rounded difference of two floats has the same magnitude whichever is subtracted from the other,
also where it overflows or is not a number. So closeness up to a tolerance is symmetric, and a wider
tolerance keeps what is close.
-/

set_option autoImplicit false

namespace SchemaWire.Floating.Binary64

/-! ## Signs -/

theorem magnitude_lt (x : Binary64) : x.magnitude < 2 ^ 63 :=
  Nat.mod_lt _ (Nat.two_pow_pos _)

theorem magnitude_neg (x : Binary64) : x.neg.magnitude = x.magnitude :=
  (magnitude_ofMagnitude _ x.magnitude_lt).1

theorem negative_neg (x : Binary64) : x.neg.negative = !x.negative :=
  (magnitude_ofMagnitude _ x.magnitude_lt).2

theorem isNaN_neg (x : Binary64) : x.neg.isNaN = x.isNaN := by
  rw [isNaN, magnitude_neg, isNaN]

theorem isInfinite_neg (x : Binary64) : x.neg.isInfinite = x.isInfinite := by
  rw [isInfinite, magnitude_neg, isInfinite]

theorem units_neg (x : Binary64) : x.neg.units = -x.units := by
  rw [units, units, magnitude_neg, negative_neg]
  cases x.negative <;> simp

/-! ## Magnitudes -/

theorem abs_ofMagnitude (negative : Bool) {magnitude : Nat} (bounded : magnitude < 2 ^ 63) :
    (ofMagnitude negative magnitude).abs = ofMagnitude false magnitude := by
  rw [abs, (magnitude_ofMagnitude negative bounded).1]

theorem abs_of_isInfinite {x : Binary64} (infinite : x.isInfinite = true) :
    x.abs = ofMagnitude false format.infinity := by
  rw [abs, beq_iff_eq.mp infinite]

theorem abs_ofUnits_neg (count : Int) : (ofUnits (-count)).abs = (ofUnits count).abs := by
  have bounded : format.nearest count.natAbs 0 < 2 ^ 63 :=
    Nat.lt_of_le_of_lt (format.nearest_le_infinity _ _) (by decide)
  rw [ofUnits, ofUnits, Int.natAbs_neg, abs_ofMagnitude _ bounded, abs_ofMagnitude _ bounded]

theorem sub_of_isNaN {x y : Binary64} (either : (x.isNaN || y.isNaN) = true) : x.sub y = nan := by
  rw [sub, add, isNaN_neg, if_pos either]

/-- Two infinities differ by an infinity or by what is not a number, as their signs say. -/
theorem abs_sub_of_isInfinite {x y : Binary64} (numbers : (x.isNaN || y.isNaN) = false)
    (infinite : (x.isInfinite || y.isInfinite) = true) :
    (x.sub y).abs =
      if (x.isInfinite && y.isInfinite && x.negative == y.negative) = true then nan.abs
      else ofMagnitude false format.infinity := by
  rw [sub, add, isNaN_neg, numbers, isInfinite_neg, negative_neg]
  cases first : x.isInfinite <;> cases second : y.isInfinite
  · rw [first, second] at infinite
    cases infinite
  · simp [abs_of_isInfinite, isInfinite_neg, second]
  · simp [abs_of_isInfinite, first]
  · cases x.negative <;> cases y.negative <;> simp [abs_of_isInfinite, first]

theorem abs_sub_of_finite {x y : Binary64} (numbers : (x.isNaN || y.isNaN) = false)
    (finite : (x.isInfinite || y.isInfinite) = false) :
    (x.sub y).abs =
      if x.units - y.units = 0 then ofMagnitude false 0 else (ofUnits (x.units - y.units)).abs := by
  obtain ⟨first, second⟩ := Bool.or_eq_false_iff.mp finite
  have difference : x.units + y.neg.units = x.units - y.units := by
    rw [units_neg, Int.sub_eq_add_neg]
  rw [sub, add, isNaN_neg, numbers, isInfinite_neg, first, second, difference]
  simp only [Bool.false_eq_true, if_false]
  split
  · exact abs_ofMagnitude _ (by decide)
  · rfl

/-- The rounded difference has the same magnitude in either order. -/
theorem abs_sub_comm (x y : Binary64) : (x.sub y).abs = (y.sub x).abs := by
  cases numbers : (x.isNaN || y.isNaN) with
  | true => rw [sub_of_isNaN numbers, sub_of_isNaN (Bool.or_comm _ _ ▸ numbers)]
  | false =>
      have swapped : (y.isNaN || x.isNaN) = false := Bool.or_comm _ _ ▸ numbers
      cases infinite : (x.isInfinite || y.isInfinite) with
      | true =>
          rw [abs_sub_of_isInfinite numbers infinite,
            abs_sub_of_isInfinite swapped (Bool.or_comm _ _ ▸ infinite),
            Bool.and_comm x.isInfinite, Bool.beq_comm]
      | false =>
          have opposite : y.units - x.units = -(x.units - y.units) := (Int.neg_sub _ _).symm
          rw [abs_sub_of_finite numbers infinite,
            abs_sub_of_finite swapped (Bool.or_comm _ _ ▸ infinite), opposite, abs_ofUnits_neg]
          simp only [Int.neg_eq_zero]

/-! ## Comparisons -/

theorem eq_self {x : Binary64} (number : x.isNaN = false) : x.eq x = true := by
  rw [eq, number, beq_self_eq_true]
  rfl

theorem eq_comm (x y : Binary64) : x.eq y = y.eq x := by
  rw [eq, eq, Bool.and_comm (!x.isNaN), Bool.beq_comm]

theorem le_trans {x y z : Binary64} (first : x.le y = true) (second : y.le z = true) :
    x.le z = true := by
  simp only [le, Bool.and_eq_true, Bool.not_eq_true', decide_eq_true_eq] at first second ⊢
  obtain ⟨⟨number, -⟩, lower⟩ := first
  obtain ⟨⟨-, bound⟩, upper⟩ := second
  exact ⟨⟨number, bound⟩, Int.le_trans lower upper⟩

/-! ## Closeness -/

variable {x y tolerance wider : Binary64}

theorem closeTo_self (x tolerance : Binary64) : x.closeTo tolerance x = true := by
  cases number : x.isNaN with
  | true => simp [closeTo, number]
  | false => simp [closeTo, eq_self number]

theorem closeTo_comm (x tolerance y : Binary64) :
    x.closeTo tolerance y = y.closeTo tolerance x := by
  rw [closeTo, closeTo, Bool.and_comm x.isNaN, eq_comm x, abs_sub_comm x]

/-- What is close stays close up to a wider tolerance. -/
theorem closeTo_of_le (close : x.closeTo tolerance y = true)
    (order : tolerance.le wider = true) : x.closeTo wider y = true := by
  simp only [closeTo, Bool.or_eq_true] at close ⊢
  exact close.imp_right fun bounded => le_trans bounded order

end SchemaWire.Floating.Binary64
