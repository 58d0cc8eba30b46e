import SchemaWire.Proofs.Wire.Text
import SchemaWire.Wire.Item

/-!
# What writing leaves behind

An item appends the same bytes to whatever was written before, or fails and leaves that as it was: a
text is examined as a whole before the number of its bytes is written. This number, which is computed
without the bytes, is that of the bytes that follow.
-/

set_option autoImplicit false

namespace SchemaWire.Wire

open Outcome

/-- Appends the bytes of the outcome to what was written before, or fails and leaves it as it was. -/
def Write.Appends (write : Write Unit) (outcome : Except UnwritableText (List UInt8)) : Prop :=
  ∀ written, write.run written =
    match outcome with
    | .ok more => .ok () (written ++ more)
    | .error reason => .error reason written

namespace Write

variable {encoding : TextEncoding} {content : String} {more : List UInt8}

theorem appends_bytes (more : List UInt8) : (bytes more).Appends (.ok more) :=
  fun _ => rfl

theorem Appends.output_eq {write : Write Unit} {outcome : Except UnwritableText (List UInt8)}
    (appends : write.Appends outcome) : write.output = outcome := by
  rw [output, appends []]
  cases outcome <;> rfl

theorem bytes_bind_bytes (first second : List UInt8) :
    (bytes first >>= fun _ => bytes second) = bytes (first ++ second) := by
  funext written
  exact congrArg (EStateM.Result.ok ()) (List.append_assoc written first second)

theorem forM_bytes {α : Type} (form : α → List UInt8) (items : List α) :
    (items.forM fun item => bytes (form item)) = bytes (items.flatMap form) := by
  induction items with
  | nil =>
      funext written
      exact congrArg (EStateM.Result.ok ()) (List.append_nil written).symm
  | cons item rest ih =>
      have split : ((item :: rest).forM fun item => bytes (form item)) =
          (bytes (form item) >>= fun _ => rest.forM fun item => bytes (form item)) := rfl
      rw [split, ih, bytes_bind_bytes, List.flatMap_cons]

/-- Bytes behind their number. -/
theorem varuint_bind_bytes (more : List UInt8) :
    (varuint (UInt64.ofNat more.length) >>= fun _ => bytes more) = bytes (prefixed more) :=
  bytes_bind_bytes _ _

/-- A text is written as its bytes behind their number. That the number of a base64 text differs
from what its length says never occurs. -/
theorem text_eq (encoding : TextEncoding) (content : String) :
    text encoding content =
      require (payload encoding content) >>= fun more => bytes (prefixed more) := by
  cases encoding with
  | utf8 =>
      have size : content.utf8ByteSize = (Utf8.encode content.toList).length :=
        (Utf8.length_encode content).symm
      rw [text, size, varuint_bind_bytes]
      rfl
  | ascii =>
      rw [text, payload]
      by_cases ascii : isAscii content = true
      · rw [if_pos ascii, if_pos ascii, ← Utf8.length_encode, varuint_bind_bytes]
        rfl
      · rw [if_neg ascii, if_neg ascii]
        rfl
  | latin1 =>
      rw [text, payload, payloadLength, forM_bytes, ← List.map_eq_flatMap]
      cases firstOutsideLatin1? content with
      | some c => rfl
      | none =>
          have size : content.length =
              (content.toList.map fun c => UInt8.ofNat c.toNat).length := by
            rw [List.length_map, String.length_toList]
          rw [size]
          exact varuint_bind_bytes _
  | utf16le =>
      have units : ((Utf16.encode content.toList).flatMap fun unit => Utf16.toBytes [unit]) =
          Utf16.toBytes (Utf16.encode content.toList) := by
        simp only [Utf16.toBytes, List.flatMap_singleton]
      rw [text, forM_bytes, units, ← Utf16.length_toBytes]
      exact varuint_bind_bytes _
  | hex =>
      rw [text, payloadLength_eq_map (by decide)]
      cases examined : payload .hex content with
      | error reason => rfl
      | ok more =>
          obtain ⟨-, -, rfl⟩ := payload_hex_eq_ok_iff.mp examined
          exact varuint_bind_bytes _
  | base64 =>
      have shown : (Base64.decode (Utf8.encode content.toList)).mapError .base64 =
          payload .base64 content := rfl
      rw [text, shown]
      cases examined : payload .base64 content with
      | error reason => rfl
      | ok more =>
          rw [payloadLength_eq examined]
          exact (if_pos rfl).trans (varuint_bind_bytes more)

theorem appends_text (encoding : TextEncoding) (content : String) :
    (text encoding content).Appends ((payload encoding content).map prefixed) := by
  intro written
  rw [text_eq]
  cases payload encoding content <;> rfl

end Write

/-! ## Texts -/

section Texts

variable {encoding : TextEncoding} {content : String} {bytes : List UInt8} {reason : UnwritableText}

theorem textBytes_eq (encoding : TextEncoding) (content : String) :
    textBytes encoding content = (payload encoding content).map prefixed :=
  (Write.appends_text encoding content).output_eq

theorem textBytes_eq_ok_iff :
    textBytes encoding content = .ok bytes ↔
      ∃ more, payload encoding content = .ok more ∧ prefixed more = bytes := by
  rw [textBytes_eq]
  cases payload encoding content <;> simp [Except.map]

theorem textBytes_eq_error_iff :
    textBytes encoding content = .error reason ↔ payload encoding content = .error reason := by
  rw [textBytes_eq]
  cases payload encoding content <;> simp [Except.map]

/-- The bytes of a base64 text are always as many as its length says. -/
theorem textBytes_ne_nonCanonicalPadding (encoding : TextEncoding) (content : String) :
    textBytes encoding content ≠ .error .nonCanonicalPadding := by
  rw [Ne, textBytes_eq_error_iff]
  cases encoding with
  | base64 =>
      intro failure
      obtain ⟨_, _, impossible⟩ := mapError_eq_error_iff.mp failure
      cases impossible
  | _ => grind [payload]

/-- The length that is announced, with that of the number itself, is what is written. -/
theorem textLength_eq (success : textBytes encoding content = .ok bytes) :
    textLength encoding content = .ok bytes.length := by
  obtain ⟨more, examined, rfl⟩ := textBytes_eq_ok_iff.mp success
  rw [textLength, payloadLength_eq examined, prefixed, List.length_append, length_varuintBytes]
  rfl

end Texts

/-! ## Items -/

/-- An item is written alike whatever stands before it, and one that fails leaves nothing behind. -/
theorem Item.appends (item : Item) : item.write.Appends item.bytes := by
  have same : ∀ {outcome}, item.write.Appends outcome → item.write.Appends item.bytes := by
    intro outcome appends
    rwa [bytes, appends.output_eq]
  cases item with
  | text encoding content => exact same (Write.appends_text encoding content)
  | _ => exact same (Write.appends_bytes _)

end SchemaWire.Wire
