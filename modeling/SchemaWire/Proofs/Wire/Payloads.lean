import SchemaWire.Proofs.Wire.Items

/-!
# Text behind its length

What writing a text appends, and what reading makes of any payload behind its length. Writing is
exact and leaves nothing behind where it fails, and reading gives the text back. In the other
direction no two payloads are read as one text, and a payload is what is written for the text that
it is read as. Reading takes any payload unless the characters of the encoding are of several bytes.
-/

set_option autoImplicit false

namespace SchemaWire.Wire

open Outcome
open Utf8 (toNat_charOfNat)

/-- The payloads that are read as a text. -/
def Legible : TextEncoding → List UInt8 → Prop
  | .utf8, payload => ∃ text : String, payload.toByteArray = text.toUTF8
  | .utf16le, payload => ∃ text : String, payload = Utf16.toBytes (Utf16.encode text.toList)
  | .ascii, _ | .latin1, _ | .hex, _ | .base64, _ => True

variable {encoding : TextEncoding} {content : String} {bytes : List UInt8}

/-! ## Base64 text -/

/-- Base64 text has bytes exactly if it is the padded base64 of these bytes. -/
theorem payload_base64_iff_shows :
    payload .base64 content = .ok bytes ↔
      content = String.ofList (charsOf (Base64.encode bytes)) := by
  rw [payload_base64_eq_ok_iff, ← String.toList_inj, String.toList_ofList]
  constructor
  · intro ⟨values, regular, shown, denoted⟩
    rw [denoted, (Base64.encode_bytesOfSymbols regular).1, shown]
  · intro shown
    obtain ⟨values, regular, encoded, denoted⟩ := Base64.exists_regular bytes
    exact ⟨values, regular, encoded ▸ shown, denoted.symm⟩

theorem exists_textBytes_base64_iff :
    (∃ bytes, textBytes .base64 content = .ok bytes) ↔
      ∃ bytes, content = String.ofList (charsOf (Base64.encode bytes)) := by
  constructor
  · intro ⟨_, written⟩
    obtain ⟨bytes, success, -⟩ := textBytes_eq_ok_iff.mp written
    exact ⟨bytes, payload_base64_iff_shows.mp success⟩
  · intro ⟨bytes, shown⟩
    exact ⟨prefixed bytes,
      textBytes_eq_ok_iff.mpr ⟨bytes, payload_base64_iff_shows.mpr shown, rfl⟩⟩

/-! ## What is written -/

theorem exists_payloadLength_iff (plain : encoding ≠ .base64) :
    (∃ length, payloadLength encoding content = .ok length) ↔
      ∃ bytes, textBytes encoding content = .ok bytes := by
  constructor
  · intro ⟨length, measured⟩
    obtain ⟨bytes, success⟩ := exists_payload_of_payloadLength plain measured
    exact ⟨prefixed bytes, textBytes_eq_ok_iff.mpr ⟨bytes, success, rfl⟩⟩
  · intro ⟨_, written⟩
    obtain ⟨bytes, success, -⟩ := textBytes_eq_ok_iff.mp written
    exact ⟨bytes.length, payloadLength_eq success⟩

/-- Writing a text appends its length and so many bytes, as many as were announced, and reading
them gives the text back, whatever was written before and follows behind. A text that cannot be
written leaves nothing behind. Only base64 text can have a length although it is not the base64 of
any bytes. The written buffer is shorter than 2^63 bytes. -/
theorem text_of_push (written : Written) (encoding : TextEncoding) (content : String) :
    let after := written.push (.text encoding content)
    (∀ bytes, textBytes encoding content = .ok bytes →
      after.bytes = written.bytes ++ bytes ∧
        textLength encoding content = .ok bytes.length ∧
        (∃ payload, bytes = varuintBytes (UInt64.ofNat payload.length) ++ payload ∧
          payloadLength encoding content = .ok payload.length) ∧
        (after.bytes.length < 2 ^ 63 → ∀ suffix,
          Read.text encoding ⟨written.bytes.length, bytes ++ suffix⟩ =
            .ok (canonicalText encoding content) ⟨written.bytes.length + bytes.length, suffix⟩)) ∧
      (∀ reason, textBytes encoding content = .error reason → after.bytes = written.bytes) ∧
      (encoding ≠ .base64 →
        ((∃ length, payloadLength encoding content = .ok length) ↔
          ∃ bytes, textBytes encoding content = .ok bytes)) ∧
      (∃ length, payloadLength .base64 content = .ok length) ∧
      ((∃ bytes, textBytes .base64 content = .ok bytes) ↔
        ∃ bytes, content = String.ofList (charsOf (Base64.encode bytes))) := by
  intro after
  refine ⟨?written, ?unwritten, exists_payloadLength_iff, ⟨_, rfl⟩, exists_textBytes_base64_iff⟩
  case written =>
    intro bytes success
    have outcome : (Item.text encoding content).bytes = .ok bytes := success
    have appended : after.bytes = written.bytes ++ bytes := by
      rw [Written.bytes_push, Item.contribution_of_ok outcome]
    obtain ⟨payload, converted, rfl⟩ := textBytes_eq_ok_iff.mp success
    refine ⟨appended, textLength_eq success, ⟨payload, rfl, payloadLength_eq converted⟩, ?_⟩
    intro bounded suffix
    rw [appended, List.length_append] at bounded
    exact Read.text_of_written converted ⟨rfl, rfl⟩ bounded
  case unwritten =>
    intro reason failure
    have outcome : (Item.text encoding content).bytes = .error reason := failure
    rw [Written.bytes_push, Item.contribution_of_error outcome, List.append_nil]

/-- Hexadecimal text in capitals, between other bytes. -/
theorem text_of_push_capitals :
    let after := Written.push ⟨[7], [.ok 1]⟩ (.text .hex "DEADbeef")
    textBytes .hex "DEADbeef" = .ok [4, 0xde, 0xad, 0xbe, 0xef] ∧
      after.bytes = [7, 4, 0xde, 0xad, 0xbe, 0xef] ∧
      after.bytes.length < 2 ^ 63 ∧
      Read.text .hex ⟨1, [4, 0xde, 0xad, 0xbe, 0xef, 9]⟩ = .ok "deadbeef" ⟨6, [9]⟩ := by
  intro after
  have success : textBytes .hex "DEADbeef" = .ok [4, 0xde, 0xad, 0xbe, 0xef] := rfl
  obtain ⟨appended, -, -, read⟩ := (text_of_push ⟨[7], [.ok 1]⟩ .hex "DEADbeef").1 _ success
  have bounded : after.bytes.length < 2 ^ 63 := by decide +kernel
  have lower : canonicalText .hex "DEADbeef" = "deadbeef" := by decide +kernel
  exact ⟨success, appended, bounded, lower ▸ read bounded [9]⟩

/-! ## What is read -/

theorem text_prefixed (encoding : TextEncoding) (short : bytes.length < 2 ^ 63) :
    Read.text encoding (.ofBytes (prefixed bytes)) =
      Read.readable encoding 0 (textOfPayload encoding bytes) ⟨(prefixed bytes).length, []⟩ := by
  have few := (varuintBytes_denotes (UInt64.ofNat bytes.length)).short
  have passes : (Reader.ofBytes (prefixed bytes)).Passes (prefixed bytes)
      ⟨(prefixed bytes).length, []⟩ := by
    constructor <;> simp [Reader.ofBytes]
  have inside : (prefixed bytes).length < 2 ^ 64 := by
    rw [maxVaruintLength] at few
    rw [prefixed, List.length_append]
    omega
  exact Read.text_of_passes (varuintBytes_denotes _) passes short inside

theorem text_prefixed_eq_ok_iff {next : Reader} (short : bytes.length < 2 ^ 63) :
    Read.text encoding (.ofBytes (prefixed bytes)) = .ok content next ↔
      textOfPayload encoding bytes = .ok content ∧ next = ⟨(prefixed bytes).length, []⟩ := by
  rw [text_prefixed encoding short, Read.readable_eq_ok_iff]

theorem payload_of_ne_ascii (success : textOfPayload encoding bytes = .ok content)
    (other : encoding ≠ .ascii) : payload encoding content = .ok bytes :=
  payload_textOfPayload success fun ascii => absurd ascii other

/-- Bytes are read as a text exactly if they are the payload of one. -/
theorem exists_textOfPayload_iff :
    (∃ content, textOfPayload encoding bytes = .ok content) ↔ Legible encoding bytes := by
  cases encoding with
  | ascii | latin1 | hex | base64 => exact ⟨fun _ => trivial, fun _ => ⟨_, rfl⟩⟩
  | utf8 =>
      constructor
      · rintro ⟨content, success⟩
        have written := payload_of_ne_ascii success (by decide)
        cases written
        exact ⟨content, Utf8.toByteArray_encode content⟩
      · rintro ⟨text, same⟩
        rw [← Utf8.toByteArray_encode] at same
        have written : payload .utf8 text = .ok bytes := by
          simpa [payload, eq_comm] using congrArg (fun array => array.data.toList) same
        exact ⟨_, textOfPayload_payload written⟩
  | utf16le =>
      constructor
      · rintro ⟨content, success⟩
        have written := payload_of_ne_ascii success (by decide)
        cases written
        exact ⟨content, rfl⟩
      · rintro ⟨text, same⟩
        have written : payload .utf16le text = .ok bytes := by
          simp [payload, same]
        exact ⟨_, textOfPayload_payload written⟩

theorem textOfPayload_inj_of_ne_ascii {other : List UInt8}
    (left : textOfPayload encoding bytes = .ok content)
    (right : textOfPayload encoding other = .ok content) (ne : encoding ≠ .ascii) :
    bytes = other := by
  have first := payload_of_ne_ascii left ne
  have second := payload_of_ne_ascii right ne
  exact Except.ok.inj (first.symm.trans second)

/-- No two payloads are read as one text. Under ASCII bytes are read as under Latin-1, where the
text can be written whatever the bytes are. -/
theorem textOfPayload_inj {other : List UInt8} (left : textOfPayload encoding bytes = .ok content)
    (right : textOfPayload encoding other = .ok content) : bytes = other := by
  by_cases ascii : encoding = .ascii
  · subst ascii
    have leftLatin1 : textOfPayload .latin1 bytes = .ok content := left
    have rightLatin1 : textOfPayload .latin1 other = .ok content := right
    exact textOfPayload_inj_of_ne_ascii leftLatin1 rightLatin1 (by decide)
  · exact textOfPayload_inj_of_ne_ascii left right ascii

theorem isAscii_charsOf_iff :
    isAscii (String.ofList (charsOf bytes)) = true ↔ ∀ byte ∈ bytes, byte.toNat < 0x80 := by
  rw [isAscii_iff, String.toList_ofList]
  constructor
  · intro small byte member
    have bound := byte.toNat_lt
    have code := small _ (List.mem_map_of_mem member)
    rwa [toNat_charOfNat (.inl (by omega))] at code
  · exact toNat_lt_of_mem_charsOf

/-- What was read can be written again, as the same bytes, unless it came of bytes past ASCII. -/
theorem textBytes_of_textOfPayload (success : textOfPayload encoding bytes = .ok content) :
    textBytes encoding content = .ok (prefixed bytes) ↔
      ¬ (encoding = .ascii ∧ ∃ byte ∈ bytes, 0x7f < byte) := by
  constructor
  · intro written ⟨ascii, byte, member, above⟩
    subst ascii
    cases success
    obtain ⟨_, converted, -⟩ := textBytes_eq_ok_iff.mp written
    rw [payload, ← charsOf] at converted
    split at converted
    · rename_i small
      have below := isAscii_charsOf_iff.mp small byte member
      have code := UInt8.lt_iff_toNat_lt.mp above
      simp at code
      omega
    · cases converted
  · intro low
    apply textBytes_eq_ok_iff.mpr
    refine ⟨bytes, payload_textOfPayload success ?_, rfl⟩
    intro ascii byte member
    apply Nat.lt_of_not_le
    intro high
    exact low ⟨ascii, byte, member, UInt8.lt_iff_toNat_lt.mpr high⟩

/-- A payload behind its length is read as a text exactly if it is the payload of one, and no other
payload is read as that text. It is what is written for the text, unless it has bytes past U+007F
under ASCII, where reading takes every byte and writing does not. -/
theorem textBytes_of_text (encoding : TextEncoding) (bytes : List UInt8)
    (short : bytes.length < 2 ^ 63) :
    (∀ content next, Read.text encoding (.ofBytes (prefixed bytes)) = .ok content next →
        (textBytes encoding content = .ok (prefixed bytes) ↔
          ¬ (encoding = .ascii ∧ ∃ byte ∈ bytes, 0x7f < byte)) ∧
        ∀ other, other.length < 2 ^ 63 →
          ∀ after, Read.text encoding (.ofBytes (prefixed other)) = .ok content after →
            other = bytes) ∧
      ((∃ content next, Read.text encoding (.ofBytes (prefixed bytes)) = .ok content next) ↔
        Legible encoding bytes) := by
  constructor
  · intro content next success
    have found := ((text_prefixed_eq_ok_iff short).mp success).1
    refine ⟨textBytes_of_textOfPayload found, ?_⟩
    intro other otherShort after otherSuccess
    exact textOfPayload_inj ((text_prefixed_eq_ok_iff otherShort).mp otherSuccess).1 found
  · rw [← exists_textOfPayload_iff]
    simp only [text_prefixed_eq_ok_iff short, exists_and_left, exists_eq, and_true]

/-- A character of two units. -/
theorem textBytes_of_text_surrogates :
    let bytes : List UInt8 := [0x61, 0x00, 0x3d, 0xd8, 0x00, 0xde]
    bytes.length < 2 ^ 63 ∧
      Read.text .utf16le (.ofBytes (6 :: bytes)) = .ok "a😀" ⟨7, []⟩ ∧
      textBytes .utf16le "a😀" = .ok (6 :: bytes) ∧ Legible .utf16le bytes := by
  intro bytes
  have short : bytes.length < 2 ^ 63 := by decide
  have success : Read.text .utf16le (.ofBytes (6 :: bytes)) = .ok "a😀" ⟨7, []⟩ := rfl
  obtain ⟨written, accepted⟩ := textBytes_of_text .utf16le bytes short
  refine ⟨short, success, ?_, accepted.mp ⟨_, _, success⟩⟩
  apply (written _ _ success).1.mpr
  intro high
  cases high.1

end SchemaWire.Wire
