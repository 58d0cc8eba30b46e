import SchemaWire.Proofs.Wire.Base64
import SchemaWire.Proofs.Wire.Hex
import SchemaWire.Proofs.Wire.Utf16
import SchemaWire.Proofs.Wire.Varint
import SchemaWire.Wire.Text

/-!
# Text on the wire and back

For each text encoding, what becomes of a text that is written and of bytes that are read: bytes
come back as they were, and so does text, except that hexadecimal digits are shown in lower case.
-/

set_option autoImplicit false

namespace SchemaWire.Wire

open Outcome
open Utf8 (toNat_charOfNat toNat_ofNat_of_lt charOfNat_eq_of_eq_toNat)

/-- What is read where a text has been written. Hexadecimal digits are shown in lower case. -/
def canonicalText : TextEncoding → String → String
  | .hex, text => String.ofList (text.toList.map Char.toLower)
  | .ascii, text | .utf8, text | .utf16le, text | .base64, text | .latin1, text => text

/-- The bytes that a text stands for, or why it stands for none. -/
def payload (encoding : TextEncoding) (text : String) : Except UnwritableText (List UInt8) :=
  match encoding with
  | .utf8 => .ok (Utf8.encode text.toList)
  | .ascii => if isAscii text then .ok (Utf8.encode text.toList) else .error .notAscii
  | .latin1 =>
    match firstOutsideLatin1? text with
    | some c => .error (.outsideLatin1 c)
    | none => .ok (text.toList.map fun c => UInt8.ofNat c.toNat)
  | .utf16le => .ok (Utf16.toBytes (Utf16.encode text.toList))
  | .hex =>
    if text.utf8ByteSize % 2 ≠ 0 then .error .oddHexDigits
    else match Hex.firstInvalid? text.toList with
      | some c => .error (.invalidHexDigit c)
      | none => .ok (Hex.decode text.toList)
  | .base64 => (Base64.decode (Utf8.encode text.toList)).mapError .base64

/-! ## Characters of one byte -/

/-- The characters whose numbers are the given bytes. -/
def charsOf (bytes : List UInt8) : List Char :=
  bytes.map fun byte => Char.ofNat byte.toNat

theorem charsOf_map {text : List Char} (small : ∀ c ∈ text, c.toNat < 0x100) :
    charsOf (text.map fun c => UInt8.ofNat c.toNat) = text := by
  rw [charsOf, List.map_map]
  refine (List.map_congr_left fun c member => ?_).trans (List.map_id text)
  rw [Function.comp_apply, toNat_ofNat_of_lt (small c member), Char.ofNat_toNat, id]

theorem map_charsOf (bytes : List UInt8) :
    (charsOf bytes).map (fun c => UInt8.ofNat c.toNat) = bytes := by
  rw [charsOf, List.map_map]
  refine (List.map_congr_left fun byte _ => ?_).trans (List.map_id bytes)
  have bound := byte.toNat_lt
  rw [Function.comp_apply, toNat_charOfNat (.inl (by omega)), UInt8.ofNat_toNat, id]

theorem toNat_lt_of_mem_charsOf {bytes : List UInt8} {bound : Nat}
    (small : ∀ byte ∈ bytes, byte.toNat < bound) : ∀ c ∈ charsOf bytes, c.toNat < bound := by
  intro c member
  obtain ⟨byte, inside, rfl⟩ := List.mem_map.mp member
  have byteBound := byte.toNat_lt
  rw [toNat_charOfNat (.inl (by omega))]
  exact small byte inside

theorem utf8_of_ascii {text : List Char} (ascii : ∀ c ∈ text, c.toNat < 0x80) :
    Utf8.encode text = text.map fun c => UInt8.ofNat c.toNat := by
  induction text with
  | nil => rfl
  | cons c text ih =>
      rw [Utf8.encode_cons, Utf8.encodeChar_small (ascii c List.mem_cons_self),
        ih fun other member => ascii other (List.mem_cons_of_mem _ member)]
      rfl

theorem utf8_charsOf {bytes : List UInt8} (ascii : ∀ byte ∈ bytes, byte.toNat < 0x80) :
    Utf8.encode (charsOf bytes) = bytes := by
  rw [utf8_of_ascii (toNat_lt_of_mem_charsOf ascii), map_charsOf]

/-- Text is determined by its UTF-8, so ASCII bytes are the UTF-8 of their characters only. -/
theorem eq_charsOf {bytes : List UInt8} {text : List Char}
    (ascii : ∀ byte ∈ bytes, byte.toNat < 0x80) (same : Utf8.encode text = bytes) :
    text = charsOf bytes := by
  have left := Utf8.decode_eq_ok_iff.mpr same.symm
  have right := Utf8.decode_eq_ok_iff.mpr (utf8_charsOf ascii).symm
  rw [left] at right
  cases right
  rfl

theorem isAscii_iff {text : String} : isAscii text = true ↔ ∀ c ∈ text.toList, c.toNat < 0x80 := by
  simp [isAscii]

theorem firstOutsideLatin1?_eq_none_iff {text : String} :
    firstOutsideLatin1? text = none ↔ ∀ c ∈ text.toList, c.toNat < 0x100 := by
  simp only [firstOutsideLatin1?, List.find?_eq_none, decide_eq_true_eq]
  exact forall_congr' fun c => forall_congr' fun member => by omega

/-! ## Digits -/

theorem ascii_of_hexDigits {text : List Char}
    (digits : ∀ c ∈ text, ∃ value, Hex.digitValue? c = some value) :
    ∀ c ∈ text, c.toNat < 0x80 := by
  intro c member
  obtain ⟨value, denotes⟩ := digits c member
  exact (Hex.digit_of_digitValue? denotes).2.2

theorem utf8ByteSize_of_ascii {text : String} (ascii : ∀ c ∈ text.toList, c.toNat < 0x80) :
    text.utf8ByteSize = text.toList.length := by
  rw [← Utf8.length_encode, utf8_of_ascii ascii, List.length_map]

/-- Hexadecimal text has bytes exactly if it is an even number of digits. -/
theorem payload_hex_eq_ok_iff {text : String} {bytes : List UInt8} :
    payload .hex text = .ok bytes ↔
      (∀ c ∈ text.toList, ∃ value, Hex.digitValue? c = some value) ∧
        text.toList.length % 2 = 0 ∧ bytes = Hex.decode text.toList := by
  simp only [payload]
  constructor
  · intro success
    split at success
    · cases success
    · rename_i even
      split at success
      · cases success
      · rename_i valid
        cases success
        have digits := Hex.firstInvalid?_eq_none_iff.mp valid
        rw [utf8ByteSize_of_ascii (ascii_of_hexDigits digits)] at even
        exact ⟨digits, Decidable.not_not.mp even, rfl⟩
  · rintro ⟨digits, even, rfl⟩
    rw [utf8ByteSize_of_ascii (ascii_of_hexDigits digits), if_neg (not_not_intro even),
      Hex.firstInvalid?_eq_none_iff.mpr digits]

theorem ascii_of_base64 {values : List Nat} :
    ∀ byte ∈ Base64.padded values, byte.toNat < 0x80 := by
  intro byte member
  rcases List.mem_append.mp member with shown | pads
  · obtain ⟨value, -, rfl⟩ := List.mem_map.mp shown
    exact (Base64.symbol_range value).1
  · rw [List.eq_of_mem_replicate pads]
    decide

/-- Base64 text has bytes exactly if it shows their symbols. -/
theorem payload_base64_eq_ok_iff {text : String} {bytes : List UInt8} :
    payload .base64 text = .ok bytes ↔
      ∃ values, Base64.Regular values ∧ text.toList = charsOf (Base64.padded values) ∧
        bytes = Base64.bytesOfSymbols values := by
  simp only [payload, mapError_eq_ok_iff, Base64.decode_eq_ok_iff]
  constructor
  · rintro ⟨values, regular, shown, denoted⟩
    exact ⟨values, regular, eq_charsOf ascii_of_base64 shown, denoted⟩
  · rintro ⟨values, regular, shown, denoted⟩
    exact ⟨values, regular, by rw [shown, utf8_charsOf ascii_of_base64], denoted⟩

theorem dropPadding_charsOf_padded (values : List Nat) :
    ((charsOf (Base64.padded values)).reverse.dropWhile (· == '=')).reverse =
      charsOf (values.map Base64.symbol) := by
  have split : charsOf (Base64.padded values) = charsOf (values.map Base64.symbol) ++
      List.replicate ((4 - values.length % 4) % 4) '=' := by
    rw [charsOf, Base64.padded, List.map_append, List.map_replicate]
    rfl
  have shown : (charsOf (values.map Base64.symbol)).reverse.head? ≠ some '=' := by
    intro first
    have member := List.mem_reverse.mp (List.mem_of_head? first)
    rw [charsOf, List.map_map] at member
    obtain ⟨value, -, same⟩ := List.mem_map.mp member
    have bound := (Base64.symbol value).toNat_lt
    have code := congrArg Char.toNat same
    rw [Function.comp_apply, toNat_charOfNat (.inl (by omega))] at code
    exact (Base64.symbol_range value).2 (UInt8.toNat_inj.mp code)
  rw [split, List.reverse_append, List.reverse_replicate,
    List.dropWhile_append_of_pos (by simp), List.dropWhile_beq_eq_self_of_head?_ne shown,
    List.reverse_reverse]

/-! ## Whole texts -/

/-- The length that is announced is that of the bytes that are written. -/
theorem payloadLength_eq {encoding : TextEncoding} {text : String} {bytes : List UInt8}
    (success : payload encoding text = .ok bytes) :
    payloadLength encoding text = .ok bytes.length := by
  cases encoding with
  | utf8 =>
      cases success
      rw [payloadLength, Utf8.length_encode]
  | ascii =>
      simp only [payload] at success
      split at success
      · rename_i ascii
        cases success
        rw [payloadLength, if_pos ascii, Utf8.length_encode]
      · cases success
  | latin1 =>
      simp only [payload] at success
      split at success
      · cases success
      · rename_i inside
        cases success
        simp only [payloadLength, inside, List.length_map, String.length_toList]
  | utf16le =>
      cases success
      rw [payloadLength, Utf16.length_toBytes]
  | hex =>
      obtain ⟨digits, even, rfl⟩ := payload_hex_eq_ok_iff.mp success
      have size := utf8ByteSize_of_ascii (ascii_of_hexDigits digits)
      have half : (Hex.decode text.toList).length = text.utf8ByteSize / 2 := by
        have := (Hex.encode_decode even digits).2
        omega
      simp only [payloadLength, Hex.firstInvalid?_eq_none_iff.mpr digits]
      rw [size, if_neg (not_not_intro even), ← size, half]
  | base64 =>
      obtain ⟨values, regular, shown, rfl⟩ := payload_base64_eq_ok_iff.mp success
      have ascii : ∀ byte ∈ values.map Base64.symbol, byte.toNat < 0x80 := by
        intro byte member
        obtain ⟨value, -, rfl⟩ := List.mem_map.mp member
        exact (Base64.symbol_range value).1
      simp only [payloadLength, shown]
      rw [dropPadding_charsOf_padded, utf8_charsOf ascii, List.length_map,
        (Base64.encode_bytesOfSymbols regular).2]

/-- Apart from base64 a text has a length exactly if it has bytes, and otherwise fails alike. -/
theorem payloadLength_eq_map {encoding : TextEncoding} (plain : encoding ≠ .base64) (text : String) :
    payloadLength encoding text = (payload encoding text).map List.length := by
  cases examined : payload encoding text with
  | ok bytes => exact payloadLength_eq examined
  | error reason =>
      cases encoding with
      | utf8 | utf16le => cases examined
      | ascii | latin1 | hex =>
          rw [payload] at examined
          rw [payloadLength]
          grind [Except.map]
      | base64 => exact absurd rfl plain

/-- Apart from base64 a text that has a length can be written. -/
theorem exists_payload_of_payloadLength {encoding : TextEncoding} {text : String} {length : Nat}
    (plain : encoding ≠ .base64) (measured : payloadLength encoding text = .ok length) :
    ∃ bytes, payload encoding text = .ok bytes := by
  rw [payloadLength_eq_map plain] at measured
  cases examined : payload encoding text with
  | ok bytes => exact ⟨bytes, rfl⟩
  | error reason =>
      rw [examined] at measured
      cases measured

/-- The bytes of a text are read as that text in its canonical form. -/
theorem textOfPayload_payload {encoding : TextEncoding} {text : String} {bytes : List UInt8}
    (success : payload encoding text = .ok bytes) :
    textOfPayload encoding bytes = .ok (canonicalText encoding text) := by
  cases encoding with
  | utf8 =>
      cases success
      rw [textOfPayload, Utf8.decode_eq_ok_iff.mpr rfl]
      simp only [String.ofList_toList, canonicalText]
  | ascii =>
      simp only [payload] at success
      split at success
      · rename_i ascii
        cases success
        have small := isAscii_iff.mp ascii
        rw [utf8_of_ascii small]
        have chars := charsOf_map fun c member => Nat.lt_trans (small c member) (by decide)
        rw [textOfPayload, ← charsOf, chars, String.ofList_toList, canonicalText]
      · cases success
  | latin1 =>
      simp only [payload] at success
      split at success
      · cases success
      · rename_i inside
        cases success
        have chars := charsOf_map (firstOutsideLatin1?_eq_none_iff.mp inside)
        rw [textOfPayload, ← charsOf, chars, String.ofList_toList, canonicalText]
  | utf16le =>
      cases success
      have even : (Utf16.toBytes (Utf16.encode text.toList)).length % 2 = 0 := by
        rw [Utf16.length_toBytes]
        omega
      have units : Utf16.decode? (Utf16.ofBytes (Utf16.toBytes (Utf16.encode text.toList))) =
          some text.toList := by
        rw [Utf16.ofBytes_toBytes fun _ => Utf16.lt_of_mem_encode, Utf16.decode?_encode]
      rw [textOfPayload, if_neg (not_not_intro even), units]
      simp only [String.ofList_toList, canonicalText]
  | hex =>
      obtain ⟨digits, even, rfl⟩ := payload_hex_eq_ok_iff.mp success
      rw [textOfPayload, (Hex.encode_decode even digits).1, canonicalText]
  | base64 =>
      obtain ⟨values, regular, shown, rfl⟩ := payload_base64_eq_ok_iff.mp success
      rw [textOfPayload, (Base64.encode_bytesOfSymbols regular).1, ← charsOf, ← shown,
        String.ofList_toList, canonicalText]

/-- Bytes that are read as a text are what is written for it. Under ASCII the text has to be
ASCII, since reading takes any byte. -/
theorem payload_textOfPayload {encoding : TextEncoding} {bytes : List UInt8} {text : String}
    (success : textOfPayload encoding bytes = .ok text)
    (ascii : encoding = .ascii → ∀ byte ∈ bytes, byte.toNat < 0x80) :
    payload encoding text = .ok bytes := by
  cases encoding with
  | utf8 =>
      simp only [textOfPayload] at success
      split at success
      · rename_i chars decoded
        cases success
        rw [payload, String.toList_ofList, ← Utf8.decode_eq_ok_iff.mp decoded]
      · cases success
  | ascii =>
      cases success
      have small := ascii rfl
      have whole : isAscii (String.ofList (charsOf bytes)) = true := by
        rw [isAscii_iff, String.toList_ofList]
        exact toNat_lt_of_mem_charsOf small
      rw [payload, ← charsOf, if_pos whole, String.toList_ofList, utf8_charsOf small]
  | latin1 =>
      cases success
      have inside : firstOutsideLatin1? (String.ofList (charsOf bytes)) = none := by
        rw [firstOutsideLatin1?_eq_none_iff, String.toList_ofList]
        exact toNat_lt_of_mem_charsOf fun byte _ => byte.toNat_lt
      rw [payload, ← charsOf, inside]
      simp only [String.toList_ofList, map_charsOf]
  | utf16le =>
      simp only [textOfPayload] at success
      split at success
      · cases success
      · rename_i even
        obtain ⟨restored, small⟩ := Utf16.toBytes_ofBytes (Decidable.not_not.mp even)
        split at success
        · rename_i chars decoded
          cases success
          rw [payload, String.toList_ofList, Utf16.encode_of_decode? small decoded, restored]
        · cases success
  | hex =>
      cases success
      refine payload_hex_eq_ok_iff.mpr ?_
      rw [String.toList_ofList, Hex.length_encode, Hex.decode_encode]
      exact ⟨Hex.digits_of_encode bytes, Nat.mul_mod_left _ _, rfl⟩
  | base64 =>
      cases success
      obtain ⟨values, regular, shown, denoted⟩ := Base64.exists_regular bytes
      refine payload_base64_eq_ok_iff.mpr ⟨values, regular, ?_, denoted.symm⟩
      rw [String.toList_ofList, shown, charsOf]

end SchemaWire.Wire
