import SchemaWire.Wire.Hex

/-!
# Hexadecimal text both ways

Digits denote bytes, and the digits shown for these bytes are the same digits in lower case.
-/

set_option autoImplicit false

namespace SchemaWire.Wire.Hex

/-- Every digit is shown in lower case again. -/
theorem digit_of_digitValue? {c : Char} {value : Nat} (denotes : digitValue? c = some value) :
    digit value = c.toLower ∧ value < 16 ∧ c.toNat < 0x80 := by
  have rows : ∀ code < 0x80, (digitValue? (Char.ofNat code)).all (fun value =>
      digit value == (Char.ofNat code).toLower && value < 16) = true := by
    decide
  have small : c.toNat < 0x80 := by
    simp only [digitValue?, Char.le_def, UInt32.le_iff_toNat_le] at denotes
    have code : c.toNat = c.val.toNat := rfl
    grind
  have row := rows c.toNat small
  rw [Char.ofNat_toNat, denotes] at row
  simp only [Option.all_some, Bool.and_eq_true, beq_iff_eq, decide_eq_true_eq] at row
  exact ⟨row.1, row.2, small⟩

theorem digitValue?_digit {value : Nat} (small : value < 16) :
    digitValue? (digit value) = some value := by
  revert value
  decide

theorem encode_cons (byte : UInt8) (rest : List UInt8) :
    encode (byte :: rest) =
      digit (byte.toNat / 16) :: digit (byte.toNat % 16) :: encode rest :=
  List.flatMap_cons

theorem length_encode (bytes : List UInt8) : (encode bytes).length = bytes.length * 2 := by
  induction bytes with
  | nil => rfl
  | cons byte rest ih =>
      rw [encode_cons, List.length_cons, List.length_cons, ih, List.length_cons]
      omega

theorem firstInvalid?_eq_none_iff {text : List Char} :
    firstInvalid? text = none ↔ ∀ c ∈ text, ∃ value, digitValue? c = some value := by
  simp only [firstInvalid?, List.find?_eq_none, Option.isNone_iff_eq_none,
    ← Option.ne_none_iff_exists']

/-- The digits of the bytes that digits denote are these digits in lower case. -/
theorem encode_decode {text : List Char} (even : text.length % 2 = 0)
    (digits : ∀ c ∈ text, ∃ value, digitValue? c = some value) :
    encode (decode text) = text.map Char.toLower ∧ (decode text).length * 2 = text.length := by
  induction text using decode.induct with
  | case1 high low rest ih =>
      obtain ⟨restored, length⟩ := ih (by simp only [List.length_cons] at even; omega)
        fun c member => digits c (List.mem_cons_of_mem _ (List.mem_cons_of_mem _ member))
      obtain ⟨highValue, highDenotes⟩ := digits high List.mem_cons_self
      obtain ⟨lowValue, lowDenotes⟩ := digits low (List.mem_cons_of_mem _ List.mem_cons_self)
      obtain ⟨highDigit, highSmall, -⟩ := digit_of_digitValue? highDenotes
      obtain ⟨lowDigit, lowSmall, -⟩ := digit_of_digitValue? lowDenotes
      have byte : (UInt8.ofNat (16 * highValue + lowValue)).toNat = 16 * highValue + lowValue :=
        UInt8.toNat_ofNat_of_lt' (by rw [UInt8.size]; omega)
      have highHalf : (16 * highValue + lowValue) / 16 = highValue := by omega
      have lowHalf : (16 * highValue + lowValue) % 16 = lowValue := by omega
      constructor
      · rw [decode, highDenotes, lowDenotes, Option.getD_some, Option.getD_some, encode_cons, byte,
          highHalf, lowHalf, highDigit, lowDigit, restored, List.map_cons, List.map_cons]
      · rw [decode, List.length_cons, List.length_cons, List.length_cons]
        omega
  | case2 text short =>
      match text, even, short with
      | [], _, _ => exact ⟨rfl, rfl⟩
      | [_], even, _ => simp at even
      | high :: low :: rest, _, short => exact (short high low rest rfl).elim

theorem decode_encode (bytes : List UInt8) : decode (encode bytes) = bytes := by
  induction bytes with
  | nil => rfl
  | cons byte rest ih =>
      have bound := byte.toNat_lt
      have whole : 16 * (byte.toNat / 16) + byte.toNat % 16 = byte.toNat := Nat.div_add_mod _ _
      rw [encode_cons, decode, digitValue?_digit (by omega), digitValue?_digit (by omega), ih,
        Option.getD_some, Option.getD_some, whole, UInt8.ofNat_toNat]

theorem digits_of_encode (bytes : List UInt8) :
    ∀ c ∈ encode bytes, ∃ value, digitValue? c = some value := by
  intro c member
  obtain ⟨byte, -, member⟩ := List.mem_flatMap.mp member
  have bound := byte.toNat_lt
  simp only [List.mem_cons, List.not_mem_nil, or_false] at member
  rcases member with rfl | rfl
  · exact ⟨_, digitValue?_digit (by omega)⟩
  · exact ⟨_, digitValue?_digit (by omega)⟩

theorem isUpper_of_mem_encode {bytes : List UInt8} {c : Char} (member : c ∈ encode bytes) :
    c.isUpper = false := by
  have lower : ∀ value < 16, (digit value).isUpper = false := by
    decide
  obtain ⟨byte, -, member⟩ := List.mem_flatMap.mp member
  have bound := byte.toNat_lt
  simp only [List.mem_cons, List.not_mem_nil, or_false] at member
  rcases member with rfl | rfl
  · exact lower _ (by omega)
  · exact lower _ (by omega)

end SchemaWire.Wire.Hex
