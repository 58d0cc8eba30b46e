import SchemaWire.Proofs.Codec.Guarding
import SchemaWire.Proofs.Codec.RoundTrip
import SchemaWire.Proofs.Floating.Exact

/-!
# Integer leaves

Under an integer type the guard accepts the numbers that are integers within its bounds, whether they
come as integers or as floats, and no others. What it accepts is written and read back as the same
integer: no conversion on the way loses anything.
-/

set_option autoImplicit false

namespace SchemaWire.Codec

open Floating (Binary64)
open Outcome
open Schema (Layout)
open Wire (Read Reader)

/-- The value is a number that is exactly this integer. -/
def DenotesInteger (value : Value) (number : Int) : Prop :=
  match value with
  | .integer held => held.toInt = number
  | .float held => held.value? = some (number : ℚ)
  | _ => False

section Guard

variable {type : Primitive} {least greatest : Int64} {value : Value} {number : Int}

/-! ## Bounds as floats -/

/-- The floats that integral floats are compared with are the bounds themselves. One past the
greatest integer is a power of two in every type. In the 64-bit types the greatest integer is no
float: it is rounded up to this power, and the one that is added is rounded away. -/
theorem bounds_as_floats (bounds : type.bounds? = some (least, greatest)) :
    ((Binary64.ofInt least.toInt).isNaN = false ∧
      (Binary64.ofInt least.toInt).units = least.toInt * 2 ^ Binary64.places) ∧
    ((Binary64.ofInt greatest.toInt).add .one).isNaN = false ∧
      ((Binary64.ofInt greatest.toInt).add .one).units =
        (greatest.toInt + 1) * 2 ^ Binary64.places := by
  cases type <;> cases bounds <;> decide +kernel

theorem inFloatDomain_iff (bounds : type.bounds? = some (least, greatest)) {held : Binary64}
    (integral : held.value? = some (number : ℚ)) :
    inFloatDomain least greatest held = true ↔ least.toInt ≤ number ∧ number ≤ greatest.toInt := by
  obtain ⟨⟨leastNumber, leastUnits⟩, pastNumber, pastUnits⟩ := bounds_as_floats bounds
  obtain ⟨finite, units⟩ := Binary64.value?_eq_some_iff.mp integral
  have isNumber := Binary64.isNaN_of_isFinite finite
  rw [inFloatDomain, Bool.and_eq_true,
    Binary64.le_iff_of_units leastNumber isNumber leastUnits units,
    Binary64.lt_iff_of_units isNumber pastNumber units pastUnits, Int.lt_add_one_iff]

/-! ## What the guard accepts -/

theorem guard_of_denotes (bounds : type.bounds? = some (least, greatest))
    (denotes : DenotesInteger value number) :
    guard type value =
      if least.toInt ≤ number ∧ number ≤ greatest.toInt then .ok () else .error .range := by
  cases value with
  | integer held =>
      cases denotes
      simp only [guard, bounds, Int64.le_iff_toInt_le]
  | float held =>
      have integral := Binary64.isIntegral_iff.mpr ⟨number, denotes⟩
      simp only [guard, bounds, integral, ↓reduceIte, inFloatDomain_iff bounds denotes]
  | boolean | text | bytes | mapping | sequence => exact denotes.elim

theorem guard_of_not_denotes (bounds : type.bounds? = some (least, greatest))
    (none : ∀ number, ¬ DenotesInteger value number) : guard type value = .error .kind := by
  cases value with
  | integer held => exact absurd rfl (none held.toInt)
  | float held =>
      have fractional : held.isIntegral = false := by
        rw [Bool.eq_false_iff]
        intro integral
        obtain ⟨number, denotes⟩ := Binary64.isIntegral_iff.mp integral
        exact none number denotes
      simp only [guard, bounds, fractional, Bool.false_eq_true, ↓reduceIte]
  | boolean | text | bytes | mapping | sequence => simp only [guard, bounds]

/-- A value is accepted as an integer within the bounds, out of range as another one, or none. -/
theorem guard_cases (bounds : type.bounds? = some (least, greatest)) (value : Value) :
    (∃ number, DenotesInteger value number ∧ (least.toInt ≤ number ∧ number ≤ greatest.toInt) ∧
        guard type value = .ok ()) ∨
      (∃ number, DenotesInteger value number ∧ ¬(least.toInt ≤ number ∧ number ≤ greatest.toInt) ∧
        guard type value = .error .range) ∨
      (∀ number, ¬ DenotesInteger value number) ∧ guard type value = .error .kind := by
  by_cases some : ∃ number, DenotesInteger value number
  · obtain ⟨number, denotes⟩ := some
    have outcome := guard_of_denotes bounds denotes
    by_cases inside : least.toInt ≤ number ∧ number ≤ greatest.toInt
    · rw [if_pos inside] at outcome
      exact .inl ⟨number, denotes, inside, outcome⟩
    · rw [if_neg inside] at outcome
      exact .inr (.inl ⟨number, denotes, inside, outcome⟩)
  · have none := not_exists.mp some
    exact .inr (.inr ⟨none, guard_of_not_denotes bounds none⟩)

theorem guard_eq_ok_iff_denotes (bounds : type.bounds? = some (least, greatest)) :
    guard type value = .ok () ↔
      ∃ number, DenotesInteger value number ∧ least.toInt ≤ number ∧ number ≤ greatest.toInt := by
  constructor
  · intro accepted
    rcases guard_cases bounds value with ⟨number, denotes, inside, -⟩ | ⟨_, -, -, refused⟩ |
      ⟨-, refused⟩
    · exact ⟨number, denotes, inside⟩
    · cases refused.symm.trans accepted
    · cases refused.symm.trans accepted
  · intro ⟨number, denotes, inside⟩
    rw [guard_of_denotes bounds denotes, if_pos inside]

theorem guard_eq_range_iff (bounds : type.bounds? = some (least, greatest)) :
    guard type value = .error .range ↔
      ∃ number, DenotesInteger value number ∧
        ¬(least.toInt ≤ number ∧ number ≤ greatest.toInt) := by
  constructor
  · intro refused
    rcases guard_cases bounds value with ⟨_, -, -, accepted⟩ | ⟨number, denotes, outside, -⟩ |
      ⟨-, other⟩
    · cases accepted.symm.trans refused
    · exact ⟨number, denotes, outside⟩
    · cases other.symm.trans refused
  · intro ⟨number, denotes, outside⟩
    rw [guard_of_denotes bounds denotes, if_neg outside]

theorem guard_eq_kind_iff (bounds : type.bounds? = some (least, greatest)) :
    guard type value = .error .kind ↔ ∀ number, ¬ DenotesInteger value number := by
  refine ⟨fun refused => ?_, guard_of_not_denotes bounds⟩
  rcases guard_cases bounds value with ⟨_, -, -, accepted⟩ | ⟨_, -, -, other⟩ | ⟨none, -⟩
  · cases accepted.symm.trans refused
  · cases other.symm.trans refused
  · exact none

theorem toInteger_of_denotes (denotes : DenotesInteger value number)
    (low : -2 ^ 63 ≤ number) (high : number ≤ 2 ^ 63 - 1) :
    toInteger value = .ok (Int64.ofInt number) := by
  cases value with
  | integer held =>
      cases denotes
      rw [toInteger, Int64.ofInt_toInt]
  | float held => rw [toInteger, Binary64.toInt64_of_value denotes low high]
  | boolean | text | bytes | mapping | sequence => exact denotes.elim

end Guard

/-! ## Writing and reading back -/

section Reading

variable {reader next : Reader} {held : Int64}

theorem readSigned_of_passes {width : Nat} (positive : 0 < width) (small : width ≤ 8)
    (passes : reader.Passes (Wire.bigEndian width held.toUInt64.toNat) next) :
    readSigned width reader = .ok (.integer (wrapSigned width held)) next := by
  refine Read.bind_pure_eq_ok_iff.mpr ⟨held.toUInt64.toNat % 256 ^ width, ?_, ?_⟩
  · exact Read.fixed_eq_ok_iff.mpr
      ⟨_, Wire.length_bigEndian _ _, Wire.ofBigEndian_bigEndian _ _, passes⟩
  · rw [signed_eq_wrapSigned held positive small]

theorem readUnsigned_of_passes {width : Nat} (small : width ≤ 8)
    (passes : reader.Passes (Wire.bigEndian width held.toUInt64.toNat) next) :
    readUnsigned width reader = .ok (.integer (wrapUnsigned width held)) next := by
  refine Read.bind_pure_eq_ok_iff.mpr ⟨held.toUInt64.toNat % 256 ^ width, ?_, ?_⟩
  · exact Read.fixed_eq_ok_iff.mpr
      ⟨_, Wire.length_bigEndian _ _, Wire.ofBigEndian_bigEndian _ _, passes⟩
  · rw [ofNat_eq_wrapUnsigned held small]

/-- What the type can hold is read as it was before it was written. -/
theorem exists_written_of_toInteger {type : Primitive} {least greatest : Int64}
    (bounds : type.bounds? = some (least, greatest)) (low : least ≤ held) (high : held ≤ greatest)
    {value : Value} (converted : toInteger value = .ok held) (encoding : TextEncoding) :
    ∃ bytes, writeLeaf encoding type value = .ok bytes ∧ ∀ reader next : Reader,
      reader.Passes bytes next → readLeaf encoding type reader = .ok (.integer held) next := by
  rw [Int64.le_iff_toInt_le] at low high
  cases type with
  | boolean | float32 | float64 | string | buffer => cases bounds
  | int8 | int16 | int32 =>
      cases bounds
      refine ⟨_, bind_pure_eq_ok_iff.mpr ⟨held, converted, rfl⟩, fun reader next passes => ?_⟩
      refine (readSigned_of_passes (by decide) (by decide) passes).trans ?_
      simp only [Int64.toInt_neg, Int64.reduceToInt, Int.reduceNeg, Nat.reducePow, Int.reduceBmod]
        at low high
      rw [wrapSigned_eq] <;> omega
  | uint8 | uint16 | uint32 =>
      cases bounds
      refine ⟨_, bind_pure_eq_ok_iff.mpr ⟨held, converted, rfl⟩, fun reader next passes => ?_⟩
      refine (readUnsigned_of_passes (by decide) passes).trans ?_
      simp only [Int64.reduceToInt] at low high
      rw [wrapUnsigned_eq] <;> omega
  | varuint =>
      refine ⟨_, bind_pure_eq_ok_iff.mpr ⟨held, converted, rfl⟩, fun reader next passes => ?_⟩
      exact Read.bind_pure_eq_ok_iff.mpr ⟨_, Read.varuint_of_passes passes, rfl⟩
  | varint =>
      refine ⟨_, bind_pure_eq_ok_iff.mpr ⟨held, converted, rfl⟩, fun reader next passes => ?_⟩
      exact Read.bind_pure_eq_ok_iff.mpr ⟨_, Read.varint_of_passes passes, rfl⟩

end Reading

/-! ## A codec for the leaf alone -/

section Alone

variable {type : Primitive} {value : Value} {bytes : List UInt8} {options : Options}

theorem encode_leaf (accepted : guard type value = .ok ())
    (written : writeLeaf options.encoding type value = .ok bytes) :
    encode ⟨Layout.plan (.leaf type), options⟩ value = .ok bytes := by
  have root : writeLayout options.encoding [] false value (.leaf type) = .ok bytes :=
    mapError_eq_ok_iff.mpr written
  refine (encode_eq_ok_iff_guarded (.leaf type)).mpr ⟨root, fun _ path other leaf leafAt => ?_⟩
  obtain ⟨-, rfl, rfl⟩ := leafAt_leaf_iff.mp leafAt
  exact accepted

theorem decode_leaf {result : Value}
    (read : ∀ reader next : Reader, reader.Passes bytes next →
      readLeaf options.encoding type reader = .ok result next) :
    decode ⟨Layout.plan (.leaf type), options⟩ bytes = .ok result := by
  have passes : (Reader.ofBytes bytes).Passes bytes ⟨bytes.length, []⟩ :=
    ⟨(List.append_nil _).symm, (Nat.zero_add _).symm⟩
  exact decode_eq_ok_iff.mpr ⟨_, read _ _ passes, rfl⟩

theorem measureLeaf_of_written (accepted : guard type value = .ok ())
    (written : writeLeaf options.encoding type value = .ok bytes) :
    measureLeaf options type value = .ok bytes.length := by
  obtain ⟨encoding, validate⟩ := options
  cases validate with
  | false => exact measureLeaf_lax written
  | true => exact (measureLeaf_of_guard accepted).trans (measureLeaf_lax written)

end Alone

/-- Integers that pass the guard are never wrapped, rounded or clamped. Under an integer type the
guard accepts exactly the numbers that are integers within the bounds, refuses other integers for
their range and everything else for its kind, so also floats with a fraction and floats without a
value. What it accepts is measured, written and read back as this very integer, with the guard on and
off, wherever the leaf stands and as a value by itself. -/
theorem integer_of_guard {type : Primitive} {least greatest : Int64}
    (bounds : type.bounds? = some (least, greatest)) (value : Value) :
    (guard type value = .ok () ↔
        ∃ number, DenotesInteger value number ∧ least.toInt ≤ number ∧ number ≤ greatest.toInt) ∧
      (guard type value = .error .range ↔
        ∃ number, DenotesInteger value number ∧
          ¬(least.toInt ≤ number ∧ number ≤ greatest.toInt)) ∧
      (guard type value = .error .kind ↔ ∀ number, ¬ DenotesInteger value number) ∧
      (∀ held : Binary64, held.isFinite = false → guard type (.float held) = .error .kind) ∧
      ∀ number, guard type value = .ok () → DenotesInteger value number →
        ∃ held : Int64, held.toInt = number ∧ ∀ options : Options, ∃ bytes,
          measureLeaf options type value = .ok bytes.length ∧
            writeLeaf options.encoding type value = .ok bytes ∧
            (∀ reader next : Reader, reader.Passes bytes next →
              readLeaf options.encoding type reader = .ok (.integer held) next) ∧
            encode ⟨Layout.plan (.leaf type), options⟩ value = .ok bytes ∧
            decode ⟨Layout.plan (.leaf type), options⟩ bytes = .ok (.integer held) := by
  refine ⟨guard_eq_ok_iff_denotes bounds, guard_eq_range_iff bounds, guard_eq_kind_iff bounds,
    ?infinite, ?kept⟩
  case infinite =>
    intro held infinite
    refine guard_of_not_denotes bounds fun number denotes => ?_
    rw [(Binary64.value?_eq_some_iff.mp denotes).1] at infinite
    cases infinite
  case kept =>
    intro number accepted denotes
    have outcome := guard_of_denotes bounds denotes
    rw [accepted] at outcome
    split at outcome
    · rename_i inside
      have low := least.le_toInt
      have high := greatest.toInt_lt
      have held : (Int64.ofInt number).toInt = number :=
        Int64.toInt_ofInt_of_le (by omega) (by omega)
      have converted := toInteger_of_denotes denotes (by omega) (by omega)
      refine ⟨.ofInt number, held, fun options => ?_⟩
      rw [← held] at inside
      obtain ⟨bytes, written, read⟩ := exists_written_of_toInteger bounds
        (Int64.le_iff_toInt_le.mpr inside.1) (Int64.le_iff_toInt_le.mpr inside.2) converted
        options.encoding
      exact ⟨bytes, measureLeaf_of_written accepted written, written, read,
        encode_leaf accepted written, decode_leaf read⟩
    · cases outcome

/-- The edges of the 64-bit floats: the least integer and negative zero are accepted, and one past
the greatest integer, a fraction and infinity are not. -/
theorem integer_of_guard_edges :
    let lowest : Binary64 := ⟨0xc3e0000000000000⟩
    Primitive.varint.bounds? = some (Int64.minValue, Int64.maxValue) ∧
      guard .varint (.float lowest) = .ok () ∧
      DenotesInteger (.float lowest) (-2 ^ 63) ∧
      (∃ bytes, writeLeaf .utf8 .varint (.float lowest) = .ok bytes ∧
        readLeaf .utf8 .varint (.ofBytes bytes) =
          .ok (.integer Int64.minValue) ⟨bytes.length, []⟩) ∧
      guard .varint (.float ⟨0x8000000000000000⟩) = .ok () ∧
      guard .varint (.float ⟨0x43e0000000000000⟩) = .error .range ∧
      guard .varint (.float ⟨0x3ff8000000000000⟩) = .error .kind ∧
      guard .varint (.float ⟨0x7ff0000000000000⟩) = .error .kind := by
  intro lowest
  have bounds : Primitive.varint.bounds? = some (Int64.minValue, Int64.maxValue) := rfl
  have denotes : ∀ {bits number}, Binary64.isFinite ⟨bits⟩ = true →
      Binary64.units ⟨bits⟩ = number * 2 ^ Binary64.places →
        DenotesInteger (.float ⟨bits⟩) number :=
    fun finite units => Binary64.value?_eq_some_iff.mpr ⟨finite, units⟩
  have least : DenotesInteger (.float lowest) (-2 ^ 63) :=
    denotes (by decide +kernel) (by decide +kernel)
  have zero : DenotesInteger (.float ⟨0x8000000000000000⟩) 0 :=
    denotes (by decide +kernel) (by decide +kernel)
  have past : DenotesInteger (.float ⟨0x43e0000000000000⟩) (2 ^ 63) :=
    denotes (by decide +kernel) (by decide +kernel)
  have accepts := fun value => (integer_of_guard bounds value).1
  obtain ⟨-, -, -, infinite, kept⟩ := integer_of_guard bounds (.float lowest)
  have accepted := (accepts _).mpr ⟨_, least, by decide, by decide⟩
  refine ⟨bounds, accepted, least, ?read, (accepts _).mpr ⟨_, zero, by decide, by decide⟩,
    (integer_of_guard bounds _).2.1.mpr ⟨_, past, by decide⟩, ?fraction,
    infinite _ (by decide +kernel)⟩
  case read =>
    obtain ⟨held, same, each⟩ := kept _ accepted least
    obtain ⟨bytes, -, written, read, -⟩ := each ⟨.utf8, true⟩
    have minimum : held = Int64.minValue := Int64.toInt_inj.mp same
    exact ⟨bytes, written, minimum ▸ read _ _ ⟨(List.append_nil _).symm, (Nat.zero_add _).symm⟩⟩
  case fraction =>
    refine (integer_of_guard bounds _).2.2.1.mpr fun number half => ?_
    have integral := Binary64.isIntegral_iff.mpr ⟨number, half⟩
    exact absurd integral (by decide +kernel)

end SchemaWire.Codec
