import SchemaWire.Proofs.Codec.Faults
import SchemaWire.Proofs.Codec.Size

/-!
# Agreement of the passes

Measuring and writing refuse the same values, as far as measuring looks at them. Without the guard
measuring refuses nothing that can be written. With the guard on, what is measured can be written,
except that the digits of base64 text are only looked at when it is written.
-/

set_option autoImplicit false

namespace SchemaWire.Codec

open Outcome
open Schema (AliasTable Definition Layout Plan)

/-! ## Leaves -/

theorem exists_toInteger_of_guard {type : Primitive} {least greatest : Int64}
    (bounded : type.bounds? = some (least, greatest)) {value : Value}
    (accepted : guard type value = .ok ()) : ∃ number, toInteger value = .ok number := by
  simp only [guard, bounded] at accepted
  cases value with
  | integer number => exact ⟨number, rfl⟩
  | float number => exact ⟨number.toInt64, rfl⟩
  | boolean | text | bytes | mapping | sequence => cases accepted

theorem exists_toFloat_of_guard {type : Primitive} (float : type = .float32 ∨ type = .float64)
    {value : Value} (accepted : guard type value = .ok ()) :
    ∃ number, toFloat value = .ok number := by
  cases value with
  | integer number => exact ⟨_, rfl⟩
  | float number => exact ⟨number, rfl⟩
  | boolean | text | bytes | mapping | sequence =>
      rcases float with rfl | rfl <;> cases accepted

theorem measureLeaf_strict_eq_ok {encoding : TextEncoding} {type : Primitive} {value : Value}
    {size : Nat} (measured : measureLeaf ⟨encoding, true⟩ type value = .ok size) :
    guard type value = .ok () ∧ measureLeaf ⟨encoding, false⟩ type value = .ok size := by
  obtain ⟨⟨⟩, accepted, -⟩ := bind_eq_ok_iff.mp measured
  exact ⟨accepted, measureLeaf_eq_ok measured⟩

/-- A text whose digits are refused when they are written. -/
def UnwritableBase64 (encoding : TextEncoding) (type : Primitive) (value : Value)
    (fault : LeafFault) : Prop :=
  encoding = .base64 ∧ type = .string ∧ ∃ text reason, value = .text text ∧
    fault = .text reason ∧ Wire.textBytes .base64 text = .error reason

/-- What passes the guard and has a size can be written, unless it is no base64. -/
theorem writeLeaf_of_measureLeaf {encoding : TextEncoding} {type : Primitive} {value : Value}
    {size : Nat} (measured : measureLeaf ⟨encoding, true⟩ type value = .ok size) :
    (∃ bytes, writeLeaf encoding type value = .ok bytes) ∨
      ∃ fault, writeLeaf encoding type value = .error fault ∧
        UnwritableBase64 encoding type value fault := by
  obtain ⟨accepted, measured⟩ := measureLeaf_strict_eq_ok measured
  cases type with
  | boolean =>
      left
      cases value with
      | boolean truth => exact ⟨_, rfl⟩
      | integer | float | text | bytes | mapping | sequence => cases accepted
  | int8 | uint8 | int16 | uint16 | int32 | uint32 | varuint | varint =>
      left
      obtain ⟨number, coerced⟩ := exists_toInteger_of_guard rfl accepted
      exact ⟨_, bind_pure_eq_ok_iff.mpr ⟨number, coerced, rfl⟩⟩
  | float32 =>
      left
      obtain ⟨number, coerced⟩ := exists_toFloat_of_guard (.inl rfl) accepted
      exact ⟨_, bind_pure_eq_ok_iff.mpr ⟨number, coerced, rfl⟩⟩
  | float64 =>
      left
      obtain ⟨number, coerced⟩ := exists_toFloat_of_guard (.inr rfl) accepted
      exact ⟨_, bind_pure_eq_ok_iff.mpr ⟨number, coerced, rfl⟩⟩
  | buffer =>
      left
      cases value with
      | bytes bytes => exact ⟨_, rfl⟩
      | boolean | integer | float | text | mapping | sequence => cases accepted
  | string =>
      cases value with
      | text text =>
          have length := mapError_eq_ok_iff.mp measured
          obtain ⟨length, payloadMeasured, -⟩ := bind_pure_eq_ok_iff.mp length
          -- Base64 is measured from the number of digits, every other encoding from the digits.
          by_cases digits : encoding = .base64
          · subst digits
            cases written : Wire.textBytes .base64 text with
            | ok bytes => exact .inl ⟨bytes, mapError_eq_ok_iff.mpr written⟩
            | error reason =>
                exact .inr ⟨.text reason, mapError_eq_error_iff.mpr ⟨reason, written, rfl⟩, rfl, rfl,
                  text, reason, rfl, rfl, written⟩
          · obtain ⟨bytes, paid⟩ := Wire.exists_payload_of_payloadLength digits payloadMeasured
            exact .inl ⟨_, mapError_eq_ok_iff.mpr (Wire.textBytes_eq_ok_iff.mpr ⟨bytes, paid, rfl⟩)⟩
      | boolean | integer | float | bytes | mapping | sequence => cases accepted

/-! ## Nodes -/

/-- Both passes enter the same containers, and only a text in digits is measured but not written. -/
theorem Node.writes_of_measures {encoding : TextEncoding} {node : Node} {size : Nat}
    (measured : node.outcome (measuring encoding) = .ok size) :
    (∃ bytes, node.outcome (writing encoding) = .ok bytes) ∨
      ∃ value fault, node.value? = some value ∧ ∃ type, node.layout = .leaf type ∧
        UnwritableBase64 encoding type value fault ∧
        node.outcome (writing encoding) = .error (fault.toError node.path type encoding value) := by
  obtain ⟨path, layout, value?⟩ := node
  cases value? with
  | none => cases measured
  | some value =>
      cases layout with
      | leaf type =>
          rcases writeLeaf_of_measureLeaf (mapError_eq_ok_iff.mp measured) with
            ⟨bytes, written⟩ | ⟨fault, failed, unwritable⟩
          · exact .inl ⟨bytes, mapError_eq_ok_iff.mpr written⟩
          · exact .inr ⟨value, fault, rfl, type, rfl, unwritable,
              mapError_eq_error_iff.mpr ⟨fault, failed, rfl⟩⟩
      | mapping fields =>
          left
          cases value with
          | mapping entries => exact ⟨_, rfl⟩
          | boolean | integer | float | text | bytes | sequence => cases measured
      | sequence heads tail =>
          left
          cases value with
          | sequence items =>
              by_cases long : heads.length ≤ items.length
              · exact ⟨_, Node.outcome_of_long _ _ _ long⟩
              · rw [Node.outcome_of_short _ _ _ long] at measured
                cases measured
          | boolean | integer | float | text | bytes | mapping => cases measured

/-! ## Values -/

/-- The error is about a string of the layout where the value has a text that is no base64. -/
def RefusesBase64 (layout : Layout) (value : Value) (e : EncodeError) : Prop :=
  ∃ path text reason, e = .unwritableText path .base64 reason ∧
    layoutAt? path layout = some (.leaf .string) ∧ valueAt? path value = some (.text text) ∧
    Wire.textBytes .base64 text = .error reason

/-- What was measured with the guard on is only refused for a text, and only in base64. -/
theorem refusesBase64_of_measured {encoding : TextEncoding} {layout : Layout}
    (wellFormed : layout.WellFormed) {value : Value} {size : Nat} {e : EncodeError}
    (measured : measure ⟨encoding, true⟩ layout.plan value = .ok size)
    (failed : write encoding layout.plan value = .error e) :
    encoding = .base64 ∧ RefusesBase64 layout value e := by
  rw [measure_strict, measuresParts] at measured
  rw [write_plan, writesParts, run_eq_error_iff wellFormed] at failed
  obtain ⟨node, fault⟩ := failed
  obtain ⟨found, accepted⟩ := Pass.outcome_of_run measured _ fault.mem
  rcases Node.writes_of_measures accepted with
    ⟨bytes, written⟩ | ⟨leaf, refused, here, type, string, unwritable, failed⟩
  · cases fault.fails.symm.trans written
  · obtain ⟨rfl, rfl, text, reason, rfl, rfl, digits⟩ := unwritable
    cases fault.fails.symm.trans failed
    exact ⟨rfl, node.path, text, reason, rfl, string ▸ fault.layout_eq, here ▸ fault.value_eq,
      digits⟩

theorem encode_of_encodedLength {codec : Codec} {value : Value} {size : Nat}
    (measured : codec.encodedLength value = .ok size) :
    codec.encode value = write codec.options.encoding codec.plan value := by
  rw [encode, measured]
  rfl

/-- Without the guard measuring refuses only what writing refuses. With the guard on writing refuses
nothing more, but for the texts that are no base64. -/
theorem passes_agree {aliases : AliasTable} {definition : Definition} {plan : Plan}
    (compiled : definition.compile aliases = .ok plan) (value : Value) :
    ∃ layout, definition.layout aliases = .ok layout ∧
      (∀ encoding,
        ((∃ e, encodedLength ⟨plan, encoding, false⟩ value = .error e) →
          ∃ e, write encoding plan value = .error e) ∧
        ∀ bytes, encode ⟨plan, encoding, false⟩ value = .ok bytes ↔
          write encoding plan value = .ok bytes) ∧
      (∀ encoding, encoding ≠ .base64 →
        ∀ size, encodedLength ⟨plan, encoding, true⟩ value = .ok size →
          ∃ bytes, encode ⟨plan, encoding, true⟩ value = .ok bytes) ∧
      ∀ size, encodedLength ⟨plan, .base64, true⟩ value = .ok size →
        ∀ e, encode ⟨plan, .base64, true⟩ value = .error e → RefusesBase64 layout value e := by
  obtain ⟨layout, laidOut, rfl⟩ := Definition.compile_eq_ok_iff.mp compiled
  have wellFormed := Definition.layout_wellFormed laidOut
  refine ⟨layout, laidOut, fun encoding => ⟨?_, fun bytes => ⟨?_, ?_⟩⟩, ?_, ?_⟩
  · rintro ⟨e, refused⟩
    cases outcome : write encoding layout.plan value with
    | error other => exact ⟨other, rfl⟩
    | ok bytes =>
        rw [write_plan] at outcome
        obtain ⟨⟨size, measured⟩, -⟩ := encode_eq_ok_iff.mp (encode_lax outcome)
        cases refused.symm.trans measured
  · intro encoded
    rw [write_plan]
    exact (encode_eq_ok_iff.mp encoded).2
  · intro written
    rw [write_plan] at written
    exact encode_lax written
  · intro encoding other size measured
    rw [encode_of_encodedLength measured]
    cases outcome : write encoding layout.plan value with
    | ok bytes => exact ⟨bytes, rfl⟩
    | error e => exact absurd (refusesBase64_of_measured wellFormed measured outcome).1 other
  · intro size measured e failed
    rw [encode_of_encodedLength measured] at failed
    exact (refusesBase64_of_measured wellFormed measured failed).2

theorem passes_agree_digits :
    encodedLength ⟨Layout.plan (.mapping [("key", .leaf .string)]), .base64, true⟩
        (.mapping [("key", .text "!!!!")]) = .ok 4 ∧
      encode ⟨Layout.plan (.mapping [("key", .leaf .string)]), .base64, true⟩
        (.mapping [("key", .text "!!!!")]) =
          .error (.unwritableText [.field "key"] .base64 (.base64 (.invalidByte 33 0))) ∧
      RefusesBase64 (.mapping [("key", .leaf .string)]) (.mapping [("key", .text "!!!!")])
        (.unwritableText [.field "key"] .base64 (.base64 (.invalidByte 33 0))) ∧
      ∃ bytes, encode ⟨Layout.plan (.mapping [("key", .leaf .string)]), .utf8, true⟩
        (.mapping [("key", .text "!!!!")]) = .ok bytes := by
  have compiled : (Definition.mapping [("key", .type "string")]).compile .initial =
      .ok (Layout.plan (.mapping [("key", .leaf .string)])) := rfl
  have measured : encodedLength ⟨Layout.plan (.mapping [("key", .leaf .string)]), .base64, true⟩
      (.mapping [("key", .text "!!!!")]) = .ok 4 := rfl
  have failed : encode ⟨Layout.plan (.mapping [("key", .leaf .string)]), .base64, true⟩
      (.mapping [("key", .text "!!!!")]) =
        .error (.unwritableText [.field "key"] .base64 (.base64 (.invalidByte 33 0))) := rfl
  obtain ⟨layout, laidOut, -, others, base64⟩ :=
    passes_agree compiled (.mapping [("key", .text "!!!!")])
  cases laidOut
  exact ⟨measured, failed, base64 _ measured _ failed, others .utf8 (by decide) 5 rfl⟩

end SchemaWire.Codec
