import SchemaWire.Floating.Binary64

/-!
# Widening

A single-precision float is widened without loss: narrowing gives it back. Only what is not a
number may differ in the quiet bit, and widening does not see that bit.
-/

set_option autoImplicit false

namespace SchemaWire.Floating

theorem roundHalfEven_mul (value : Nat) {denominator : Nat} (positive : 0 < denominator) :
    roundHalfEven (value * denominator) denominator = value := by
  rw [roundHalfEven]
  rw [Nat.mul_mod_left, Nat.mul_div_cancel _ positive, if_pos (by omega)]

namespace Format

variable (format : Format) {significand exponent pattern : Nat}

/-! ## Exact values -/

/-- The value of a pattern whose exponent field is not zero. -/
theorem units_normal (lower : 2 ^ format.fraction ≤ significand)
    (upper : significand < 2 ^ (format.fraction + 1)) :
    format.units (exponent * 2 ^ format.fraction + significand) = significand * 2 ^ exponent := by
  have width := Nat.two_pow_pos format.fraction
  have split : exponent * 2 ^ format.fraction + significand =
      (significand - 2 ^ format.fraction) + (exponent + 1) * 2 ^ format.fraction := by
    rw [Nat.succ_mul]
    omega
  have below : significand - 2 ^ format.fraction < 2 ^ format.fraction := by
    rw [Nat.pow_succ] at upper
    omega
  rw [split, units, Nat.add_mul_div_right _ _ width, Nat.add_mul_mod_self_right,
    Nat.div_eq_of_lt below, Nat.mod_eq_of_lt below]
  rw [if_neg (by omega), Nat.zero_add, Nat.add_sub_cancel, Nat.add_sub_cancel' lower]

theorem units_subnormal (small : pattern < 2 ^ format.fraction) :
    format.units pattern = pattern := by
  rw [units, Nat.div_eq_of_lt small, Nat.mod_eq_of_lt small]
  rfl

/-- The pattern of a value that needs no rounding, where the exponent field is not zero. -/
theorem nearest_normal (exponent scale : Nat) (lower : 2 ^ format.fraction ≤ significand)
    (upper : significand < 2 ^ (format.fraction + 1)) :
    format.nearest (significand * 2 ^ (exponent + scale)) scale =
      min (exponent * 2 ^ format.fraction + significand) format.infinity := by
  have nonzero : significand * 2 ^ (exponent + scale) ≠ 0 :=
    Nat.ne_of_gt (Nat.mul_pos (Nat.lt_of_lt_of_le (Nat.two_pow_pos _) lower) (Nat.two_pow_pos _))
  have leading : Nat.log2 (significand * 2 ^ (exponent + scale)) =
      format.fraction + (exponent + scale) := by
    refine (Nat.log2_eq_iff nonzero).mpr ⟨?_, ?_⟩
    · rw [Nat.pow_add]
      exact Nat.mul_le_mul_right _ lower
    · calc significand * 2 ^ (exponent + scale)
          < 2 ^ (format.fraction + 1) * 2 ^ (exponent + scale) :=
            Nat.mul_lt_mul_of_pos_right upper (Nat.two_pow_pos _)
        _ = 2 ^ (format.fraction + (exponent + scale) + 1) := by
            rw [← Nat.pow_add, Nat.add_right_comm]
  have shift : max scale (format.fraction + (exponent + scale) - format.fraction) =
      exponent + scale := by
    omega
  rw [nearest, leading]
  rw [shift, roundHalfEven_mul _ (Nat.two_pow_pos _), Nat.add_sub_cancel]

theorem nearest_subnormal (scale : Nat) (small : significand < 2 ^ format.fraction) :
    format.nearest (significand * 2 ^ scale) scale = min significand format.infinity := by
  have low : Nat.log2 (significand * 2 ^ scale) - format.fraction ≤ scale := by
    by_cases zero : significand = 0
    · subst zero
      simp
    · have nonzero : significand * 2 ^ scale ≠ 0 :=
        Nat.mul_ne_zero zero (Nat.ne_of_gt (Nat.two_pow_pos _))
      have below : Nat.log2 (significand * 2 ^ scale) < format.fraction + scale := by
        rw [Nat.log2_lt nonzero, Nat.pow_add]
        exact Nat.mul_lt_mul_of_pos_right small (Nat.two_pow_pos _)
      omega
  have shift : max scale (Nat.log2 (significand * 2 ^ scale) - format.fraction) = scale := by
    omega
  rw [nearest]
  rw [shift, roundHalfEven_mul _ (Nat.two_pow_pos _), Nat.sub_self, Nat.zero_mul, Nat.zero_add]

/-- A pattern is below the first full fraction or has an exponent field and a leading bit. -/
theorem pattern_cases (pattern : Nat) :
    pattern < 2 ^ format.fraction ∨ ∃ exponent significand, 2 ^ format.fraction ≤ significand ∧
      significand < 2 ^ (format.fraction + 1) ∧
      pattern = exponent * 2 ^ format.fraction + significand := by
  by_cases small : pattern < 2 ^ format.fraction
  · exact .inl small
  · have width := Nat.two_pow_pos format.fraction
    have field : 1 ≤ pattern / 2 ^ format.fraction :=
      (Nat.le_div_iff_mul_le width).mpr (by omega)
    have fraction := Nat.mod_lt pattern width
    have split := Nat.div_add_mod pattern (2 ^ format.fraction)
    refine .inr ⟨pattern / 2 ^ format.fraction - 1,
      2 ^ format.fraction + pattern % 2 ^ format.fraction, Nat.le_add_right _ _, ?_, ?_⟩
    · rw [Nat.pow_succ]
      omega
    · rw [Nat.sub_mul, Nat.one_mul, Nat.mul_comm (pattern / _)]
      have : 2 ^ format.fraction * 1 ≤ 2 ^ format.fraction * (pattern / 2 ^ format.fraction) :=
        Nat.mul_le_mul_left _ field
      omega

/-- Rounding the value of a pattern gives the pattern. -/
theorem nearest_units (pattern scale : Nat) :
    format.nearest (format.units pattern * 2 ^ scale) scale = min pattern format.infinity := by
  rcases format.pattern_cases pattern with small | ⟨exponent, significand, lower, upper, rfl⟩
  · rw [format.units_subnormal small, format.nearest_subnormal scale small]
  · rw [format.units_normal lower upper, Nat.mul_assoc, ← Nat.pow_add,
      format.nearest_normal exponent scale lower upper]

/-- A significand that fits the fraction and its leading bit is kept whole, wherever it is shifted
to within the range of the exponents. -/
theorem units_nearest (fits : significand < 2 ^ (format.fraction + 1))
    (finite : exponent + 3 ≤ 2 ^ format.exponent) :
    format.units (format.nearest (significand * 2 ^ exponent) 0) = significand * 2 ^ exponent := by
  have room : (exponent + 2) * 2 ^ format.fraction ≤ format.infinity :=
    Nat.mul_le_mul_right _ (by omega)
  rw [Nat.succ_mul (exponent + 1)] at room
  by_cases zero : significand = 0
  · subst zero
    have pattern := format.nearest_subnormal 0 (Nat.two_pow_pos format.fraction)
    rw [Nat.zero_mul] at pattern ⊢
    rw [pattern, Nat.zero_min, format.units_subnormal (Nat.two_pow_pos _)]
  · have leading : Nat.log2 significand < format.fraction + 1 := (Nat.log2_lt zero).mpr fits
    obtain ⟨above, below⟩ := (Nat.log2_eq_iff zero).mp rfl
    generalize Nat.log2 significand = bits at leading above below
    -- The leading bit either stays below the exponent field or is moved up to it.
    by_cases subnormal : bits + exponent < format.fraction
    · have small : significand * 2 ^ exponent < 2 ^ format.fraction :=
        calc significand * 2 ^ exponent
            < 2 ^ (bits + 1) * 2 ^ exponent :=
              Nat.mul_lt_mul_of_pos_right below (Nat.two_pow_pos _)
          _ = 2 ^ (bits + 1 + exponent) := (Nat.pow_add _ _ _).symm
          _ ≤ 2 ^ format.fraction := Nat.pow_le_pow_right (by decide) (by omega)
      have pattern := format.nearest_subnormal 0 small
      rw [Nat.pow_zero, Nat.mul_one] at pattern
      rw [pattern, Nat.min_eq_left (by omega), format.units_subnormal small]
    · have lower : 2 ^ format.fraction ≤ significand * 2 ^ (format.fraction - bits) :=
        calc 2 ^ format.fraction
            = 2 ^ bits * 2 ^ (format.fraction - bits) := by rw [← Nat.pow_add]; congr 1; omega
          _ ≤ significand * 2 ^ (format.fraction - bits) := Nat.mul_le_mul_right _ above
      have upper : significand * 2 ^ (format.fraction - bits) < 2 ^ (format.fraction + 1) :=
        calc significand * 2 ^ (format.fraction - bits)
            < 2 ^ (bits + 1) * 2 ^ (format.fraction - bits) :=
              Nat.mul_lt_mul_of_pos_right below (Nat.two_pow_pos _)
          _ = 2 ^ (format.fraction + 1) := by rw [← Nat.pow_add]; congr 1; omega
      have moved : significand * 2 ^ exponent =
          significand * 2 ^ (format.fraction - bits) * 2 ^ (bits + exponent - format.fraction) := by
        rw [Nat.mul_assoc, ← Nat.pow_add]
        congr 2
        omega
      have pattern := format.nearest_normal (bits + exponent - format.fraction) 0 lower upper
      rw [Nat.add_zero] at pattern
      have inside : (bits + exponent - format.fraction) * 2 ^ format.fraction +
          significand * 2 ^ (format.fraction - bits) ≤ format.infinity := by
        have : (bits + exponent - format.fraction) * 2 ^ format.fraction ≤
            exponent * 2 ^ format.fraction := Nat.mul_le_mul_right _ (by omega)
        rw [Nat.pow_succ] at upper
        rw [Nat.succ_mul] at room
        omega
      rw [moved, pattern, Nat.min_eq_left inside, format.units_normal lower upper]

theorem nearest_le_infinity (count scale : Nat) :
    format.nearest count scale ≤ format.infinity :=
  Nat.min_le_right _ _

end Format

/-! ## Signs and magnitudes -/

theorem Binary32.ofMagnitude_magnitude (x : Binary32) :
    Binary32.ofMagnitude x.negative x.magnitude = x := by
  have bound := x.bits.toNat_lt
  have whole : (if x.negative then 2 ^ 31 else 0) + x.magnitude = x.bits.toNat := by
    simp only [negative, magnitude, decide_eq_true_eq]
    split <;> omega
  rw [ofMagnitude, whole, UInt32.ofNat_toNat]

theorem Binary32.magnitude_ofMagnitude (negative : Bool) {magnitude : Nat}
    (bounded : magnitude < 2 ^ 31) :
    (Binary32.ofMagnitude negative magnitude).magnitude = magnitude ∧
      (Binary32.ofMagnitude negative magnitude).negative = negative := by
  cases negative <;>
    simp only [ofMagnitude, Binary32.magnitude, Binary32.negative, UInt32.toNat_ofNat',
      Bool.false_eq_true, ↓reduceIte, decide_eq_true_eq, decide_eq_false_iff_not] <;> omega

theorem Binary64.magnitude_ofMagnitude (negative : Bool) {magnitude : Nat}
    (bounded : magnitude < 2 ^ 63) :
    (Binary64.ofMagnitude negative magnitude).magnitude = magnitude ∧
      (Binary64.ofMagnitude negative magnitude).negative = negative := by
  cases negative <;>
    simp only [ofMagnitude, Binary64.magnitude, Binary64.negative, UInt64.toNat_ofNat',
      Bool.false_eq_true, ↓reduceIte, decide_eq_true_eq, decide_eq_false_iff_not] <;> omega

/-! ## Widening and narrowing -/

/-- A float that is a number is narrowed to the pattern nearest to its value. -/
theorem Binary64.narrow_of_number {x : Binary64} (number : x.isNaN = false) :
    x.narrow = Binary32.ofMagnitude x.negative
      (Binary32.format.nearest (Binary64.format.units x.magnitude) (places - 149)) := by
  rw [narrow, number, if_neg Bool.false_ne_true]

theorem units_widened {pattern : Nat} (finite : pattern < Binary32.format.infinity) :
    Binary64.format.units (Binary64.format.nearest
      (Binary32.format.units pattern * 2 ^ (Binary64.places - 149)) 0) =
        Binary32.format.units pattern * 2 ^ (Binary64.places - 149) := by
  rcases Binary32.format.pattern_cases pattern with
    small | ⟨exponent, significand, lower, upper, rfl⟩
  · rw [Binary32.format.units_subnormal small]
    refine Binary64.format.units_nearest (Nat.lt_trans small ?_) ?_ <;> decide
  · have exponentBound : exponent < 255 := by
      simp only [Binary32.format, Format.infinity] at finite
      omega
    rw [Binary32.format.units_normal lower upper, Nat.mul_assoc, ← Nat.pow_add]
    refine Binary64.format.units_nearest (Nat.lt_trans upper (by decide)) ?_
    simp only [Binary64.format, Binary64.places]
    omega

theorem Binary32.widen_of_number {x : Binary32} (number : x.isNaN = false) :
    ∃ pattern ≤ Binary64.format.infinity, x.widen = Binary64.ofMagnitude x.negative pattern ∧
      format.nearest (Binary64.format.units pattern) (Binary64.places - 149) = x.magnitude := by
  have notAbove : x.magnitude ≤ format.infinity := by
    simpa [isNaN] using number
  by_cases infinite : x.magnitude = format.infinity
  · refine ⟨Binary64.format.infinity, Nat.le_refl _, ?_, ?_⟩
    · simp only [widen, number, isInfinite, infinite, beq_self_eq_true, Bool.false_eq_true,
        ↓reduceIte]
    · rw [infinite]
      decide +kernel
  · refine ⟨Binary64.format.nearest (format.units x.magnitude * 2 ^ (Binary64.places - 149)) 0,
      Binary64.format.nearest_le_infinity _ _, ?_, ?_⟩
    · simp only [widen, number, isInfinite, beq_iff_eq, infinite, Bool.false_eq_true, ↓reduceIte]
    · rw [units_widened (Nat.lt_of_le_of_ne notAbove infinite), format.nearest_units,
        Nat.min_eq_left notAbove]

theorem narrow_widen {x : Binary32} (number : x.isNaN = false) : x.widen.narrow = x := by
  obtain ⟨pattern, bounded, widened, nearest⟩ := Binary32.widen_of_number number
  have inside : pattern < 2 ^ 63 := Nat.lt_of_le_of_lt bounded (by decide)
  obtain ⟨magnitude, negative⟩ := Binary64.magnitude_ofMagnitude x.negative inside
  have widenedNumber : (Binary64.ofMagnitude x.negative pattern).isNaN = false := by
    rw [Binary64.isNaN, magnitude, decide_eq_false_iff_not]
    exact Nat.not_lt.mpr bounded
  rw [widened, Binary64.narrow_of_number widenedNumber, magnitude, negative, nearest,
    Binary32.ofMagnitude_magnitude]

/-- What is no number and what is infinite stay so when they are widened. -/
theorem Binary32.finite_of_widen {x : Binary32} (finite : x.widen.isFinite = true) :
    x.isNaN = false ∧ x.isInfinite = false := by
  have infinity : Binary64.format.infinity = 2047 * 2 ^ 52 := rfl
  have beyond : ∀ magnitude < 2 ^ 63, Binary64.format.infinity ≤ magnitude →
      (Binary64.ofMagnitude x.negative magnitude).isFinite ≠ true := by
    intro magnitude small large
    rw [Binary64.isFinite, (Binary64.magnitude_ofMagnitude x.negative small).1, Ne,
      decide_eq_true_eq]
    exact Nat.not_lt.mpr large
  rw [widen] at finite
  cases number : x.isNaN with
  | true =>
      rw [number, if_pos rfl] at finite
      exact absurd finite (beyond _ (by omega) (by omega))
  | false =>
      refine ⟨rfl, ?_⟩
      cases infinite : x.isInfinite with
      | false => rfl
      | true =>
          rw [number, infinite, if_neg Bool.false_ne_true, if_pos rfl] at finite
          exact absurd finite (beyond _ (by omega) (Nat.le_refl _))

/-- Narrowing what has been widened loses nothing that widening would show again. -/
theorem widen_narrow_widen (x : Binary32) : x.widen.narrow.widen = x.widen := by
  cases number : x.isNaN with
  | false => rw [narrow_widen number]
  | true =>
      generalize payload : x.magnitude % 2 ^ 22 = low
      have small : low < 2 ^ 22 := by omega
      have widened : ∀ y : Binary32, y.isNaN = true → y.magnitude % 2 ^ 22 = low →
          y.widen = Binary64.ofMagnitude y.negative
            (Binary64.format.infinity + 2 ^ 51 + low * 2 ^ 29) := by
        intro y isNaN same
        rw [Binary32.widen, isNaN, if_pos rfl, same]
      have infinity : Binary64.format.infinity = 2047 * 2 ^ 52 := rfl
      have narrowInfinity : Binary32.format.infinity = 255 * 2 ^ 23 := rfl
      obtain ⟨magnitude, negative⟩ := Binary64.magnitude_ofMagnitude x.negative
        (by omega : Binary64.format.infinity + 2 ^ 51 + low * 2 ^ 29 < 2 ^ 63)
      obtain ⟨quietMagnitude, quietNegative⟩ := Binary32.magnitude_ofMagnitude x.negative
        (by omega : Binary32.format.infinity + 2 ^ 22 + low < 2 ^ 31)
      have stays : (Binary64.ofMagnitude x.negative
          (Binary64.format.infinity + 2 ^ 51 + low * 2 ^ 29)).isNaN = true := by
        rw [Binary64.isNaN, magnitude, decide_eq_true_eq]
        omega
      have kept : (Binary64.format.infinity + 2 ^ 51 + low * 2 ^ 29) / 2 ^ 29 % 2 ^ 22 = low := by
        omega
      have quiet : x.widen.narrow =
          Binary32.ofMagnitude x.negative (Binary32.format.infinity + 2 ^ 22 + low) := by
        rw [widened x number payload, Binary64.narrow, stays, if_pos rfl, magnitude, negative, kept]
      have quietNaN : x.widen.narrow.isNaN = true := by
        rw [quiet, Binary32.isNaN, quietMagnitude, decide_eq_true_eq]
        omega
      have quietPayload : x.widen.narrow.magnitude % 2 ^ 22 = low := by
        rw [quiet, quietMagnitude]
        omega
      rw [widened x.widen.narrow quietNaN quietPayload, quiet, quietNegative,
        widened x number payload]

end SchemaWire.Floating
