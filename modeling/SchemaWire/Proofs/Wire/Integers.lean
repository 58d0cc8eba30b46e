import Mathlib.Logic.Function.Basic
import SchemaWire.Proofs.Wire.Items

/-!
# Integers in groups, written and read

An integer is written in as many groups as its length says, no accepted form of it is shorter, and
it is read back whatever was written before and follows behind. Folding takes the signed integers
of each width onto the unsigned ones of that width, so their forms grow with their magnitude.
-/

set_option autoImplicit false

namespace SchemaWire.Wire

/-- Every form that is accepted is at least as long as the one that is written. -/
theorem exists_groups_of_varuint {reader next : Reader} {value : UInt64}
    (success : Read.varuint reader = .ok value next) :
    ∃ groups, reader.Passes groups next ∧ varuintLength value ≤ groups.length := by
  obtain ⟨groups, denotes, passes⟩ := Read.varuint_eq_ok_iff.mp success
  have shortest := denotes.length_varuintBytes_le
  rw [length_varuintBytes] at shortest
  exact ⟨groups, passes, shortest⟩

theorem length_varuintBytes_range (value : UInt64) :
    1 ≤ (varuintBytes value).length ∧ (varuintBytes value).length ≤ 10 :=
  ⟨(varuintBytes_denotes value).length_pos, (varuintBytes_denotes value).short⟩

theorem length_varintBytes_mono {near far : Int64}
    (farther : 0 ≤ near.toInt ∧ near.toInt ≤ far.toInt ∨
      far.toInt ≤ near.toInt ∧ near.toInt ≤ 0) :
    (varintBytes near).length ≤ (varintBytes far).length := by
  simp only [varintBytes, length_varuintBytes]
  exact varuintLength_le_of_le (zigzag_le_of_magnitude farther)

/-- Integers in groups are exact, minimal and invertible. Writing appends as many bytes as the
length says, between one and ten, and reading them gives the integer back, whatever was written
before and follows behind, while no accepted form is shorter. Folding is a bijection that keeps the
number of bits, so signed integers come back too, and their forms do not get shorter away from
zero. -/
theorem integers_of_push (written : Written) (suffix : List UInt8) :
    (∀ value : UInt64,
      (written.push (.varuint value)).bytes = written.bytes ++ varuintBytes value ∧
        (varuintBytes value).length = varuintLength value ∧
        1 ≤ varuintLength value ∧ varuintLength value ≤ 10 ∧
        Read.varuint ⟨written.bytes.length, varuintBytes value ++ suffix⟩ =
          .ok value ⟨written.bytes.length + varuintLength value, suffix⟩) ∧
      (∀ reader value next, Read.varuint reader = .ok value next →
        ∃ groups, reader.Passes groups next ∧ varuintLength value ≤ groups.length) ∧
      (Function.LeftInverse unzigzag zigzag ∧ Function.RightInverse unzigzag zigzag ∧
        Function.Bijective zigzag ∧ Function.Bijective unzigzag) ∧
      (∀ (value : Int64) (bits : Nat), 1 ≤ bits →
        ((zigzag value).toNat < 2 ^ bits ↔
          -(2 ^ (bits - 1)) ≤ value.toInt ∧ value.toInt < 2 ^ (bits - 1))) ∧
      (∀ value : Int64,
        (written.push (.varint value)).bytes = written.bytes ++ varintBytes value ∧
          Read.varint ⟨written.bytes.length, varintBytes value ++ suffix⟩ =
            .ok value ⟨written.bytes.length + (varintBytes value).length, suffix⟩) ∧
      ∀ near far : Int64,
        0 ≤ near.toInt ∧ near.toInt ≤ far.toInt ∨ far.toInt ≤ near.toInt ∧ near.toInt ≤ 0 →
          (varintBytes near).length ≤ (varintBytes far).length := by
  refine ⟨?unsigned, fun _ _ _ => exists_groups_of_varuint, ?folding,
    fun value bits => zigzag_lt_iff value, ?signed, fun near far => length_varintBytes_mono⟩
  case unsigned =>
    intro value
    have range := length_varuintBytes_range value
    rw [length_varuintBytes] at range
    refine ⟨Written.bytes_push written _, length_varuintBytes value, range.1, range.2, ?_⟩
    rw [← length_varuintBytes]
    exact Read.varuint_of_passes ⟨rfl, rfl⟩
  case folding =>
    have unfolds : Function.LeftInverse unzigzag zigzag := unzigzag_zigzag
    have folds : Function.RightInverse unzigzag zigzag := zigzag_unzigzag
    exact ⟨unfolds, folds, Function.bijective_iff_has_inverse.mpr ⟨unzigzag, unfolds, folds⟩,
      Function.bijective_iff_has_inverse.mpr ⟨zigzag, folds, unfolds⟩⟩
  case signed =>
    intro value
    exact ⟨Written.bytes_push written _, Read.varint_of_passes ⟨rfl, rfl⟩⟩

/-- Zero in two groups, the seven bits of -64, and one more group beyond them. -/
theorem integers_of_push_bounds :
    let written : Written := ⟨[0xff], [.ok 1]⟩
    Read.varuint ⟨0, [0x80, 0x00]⟩ = .ok 0 ⟨2, []⟩ ∧
      (∃ groups, Reader.Passes ⟨0, [0x80, 0x00]⟩ groups ⟨2, []⟩ ∧
        varuintLength 0 ≤ groups.length) ∧
      1 ≤ 7 ∧ (zigzag (-64)).toNat < 2 ^ 7 ∧
      (written.push (.varint (-64))).bytes = [0xff, 0x7f] ∧
      Read.varint ⟨1, [0x7f, 5]⟩ = .ok (-64) ⟨2, [5]⟩ ∧
      (varintBytes (-64)).length ≤ (varintBytes (-65)).length := by
  intro written
  obtain ⟨-, shortest, -, width, signed, grows⟩ := integers_of_push written [5]
  have success : Read.varuint ⟨0, [0x80, 0x00]⟩ = .ok 0 ⟨2, []⟩ := rfl
  obtain ⟨appended, read⟩ := signed (-64)
  refine ⟨success, shortest _ _ _ success, by decide, ?_, appended, read, ?_⟩
  · exact (width (-64) 7 (by decide)).mpr ⟨by decide, by decide⟩
  · exact grows (-64) (-65) (.inr ⟨by decide, by decide⟩)

end SchemaWire.Wire
