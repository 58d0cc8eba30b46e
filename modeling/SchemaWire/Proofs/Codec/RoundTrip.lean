import SchemaWire.Proofs.Codec.Acceptance
import SchemaWire.Proofs.Codec.CanonicalValue
import SchemaWire.Proofs.Wire.Writing

/-!
# Reading what was written

What is written for a value is a form of its canonical value, so this is what is read.
-/

set_option autoImplicit false

namespace SchemaWire.Codec

open Outcome
open Schema (AliasTable Definition Layout Plan)

/-! ## Integers of fixed width -/

theorem signed_eq_wrapSigned (number : Int64) {width : Nat} (positive : 0 < width)
    (small : width ≤ 8) :
    Int64.ofInt (Wire.signed width (number.toUInt64.toNat % 256 ^ width)) =
      wrapSigned width number := by
  have inside := Nat.mod_lt number.toUInt64.toNat (Nat.pow_pos (n := width) (show 0 < 256 by decide))
  rw [wrapSigned, ← Int.emod_bmod, Wire.toInt_emod number small, Wire.signed_eq_bmod positive inside]

theorem ofNat_eq_wrapUnsigned (number : Int64) {width : Nat} (small : width ≤ 8) :
    Int64.ofNat (number.toUInt64.toNat % 256 ^ width) = wrapUnsigned width number := by
  rw [wrapUnsigned, Wire.toInt_emod number small]
  rfl

/-! ## Leaves -/

theorem fixedForm_bigEndian (width number : Nat) :
    FixedForm width [.fixed (Wire.bigEndian width number)] (number % 256 ^ width) :=
  ⟨_, Wire.length_bigEndian _ _, Wire.ofBigEndian_bigEndian _ _, rfl⟩

theorem groupsForm_varuintBytes (number : UInt64) :
    GroupsForm [.groups _ number (Wire.varuintBytes_denotes number)] number :=
  ⟨_, _, rfl⟩

theorem leafForm_writeLeaf {encoding : TextEncoding} {type : Primitive} {value : Value}
    {bytes : List UInt8} (written : writeLeaf encoding type value = .ok bytes) :
    ∃ result pieces, canonicalLeaf encoding type value = .ok result ∧
      LeafForm encoding type pieces result ∧ joined pieces = bytes := by
  cases type with
  | boolean =>
      obtain ⟨truth, coerced, rfl⟩ := bind_pure_eq_ok_iff.mp written
      have same : ((if truth then (1 : UInt8) else 0) != 0) = truth := by cases truth <;> rfl
      exact ⟨_, _, bind_pure_eq_ok_iff.mpr ⟨truth, coerced, rfl⟩, ⟨_, rfl, by rw [same]⟩, rfl⟩
  | int8 | int16 | int32 =>
      obtain ⟨number, coerced, rfl⟩ := bind_pure_eq_ok_iff.mp written
      exact ⟨_, _, bind_pure_eq_ok_iff.mpr ⟨number, coerced, rfl⟩,
        ⟨_, fixedForm_bigEndian _ _,
          congrArg Value.integer (signed_eq_wrapSigned number (by decide) (by decide)).symm⟩,
        joined_singleton _⟩
  | uint8 | uint16 | uint32 =>
      obtain ⟨number, coerced, rfl⟩ := bind_pure_eq_ok_iff.mp written
      exact ⟨_, _, bind_pure_eq_ok_iff.mpr ⟨number, coerced, rfl⟩,
        ⟨_, fixedForm_bigEndian _ _,
          congrArg Value.integer (ofNat_eq_wrapUnsigned number (by decide)).symm⟩,
        joined_singleton _⟩
  | float32 | float64 =>
      obtain ⟨number, coerced, rfl⟩ := bind_pure_eq_ok_iff.mp written
      exact ⟨_, _, bind_pure_eq_ok_iff.mpr ⟨number, coerced, rfl⟩, ⟨_, rfl, rfl⟩,
        joined_singleton _⟩
  | varuint =>
      obtain ⟨number, coerced, rfl⟩ := bind_pure_eq_ok_iff.mp written
      exact ⟨_, _, bind_pure_eq_ok_iff.mpr ⟨number, coerced, rfl⟩,
        ⟨_, groupsForm_varuintBytes _, rfl⟩, joined_singleton _⟩
  | varint =>
      obtain ⟨number, coerced, rfl⟩ := bind_pure_eq_ok_iff.mp written
      exact ⟨_, _, bind_pure_eq_ok_iff.mpr ⟨number, coerced, rfl⟩,
        ⟨_, groupsForm_varuintBytes _, rfl⟩, joined_singleton _⟩
  | string =>
      obtain ⟨text, coerced, written⟩ := bind_eq_ok_iff.mp written
      obtain ⟨payload, content, rfl⟩ := Wire.textBytes_eq_ok_iff.mp (mapError_eq_ok_iff.mp written)
      exact ⟨_, _, bind_pure_eq_ok_iff.mpr ⟨text, coerced, rfl⟩,
        ⟨_, ⟨_, payload, Wire.varuintBytes_denotes _, Wire.textOfPayload_payload content, rfl⟩,
          rfl⟩, by rw [joined_cons, joined_singleton]; rfl⟩
  | buffer =>
      obtain ⟨payload, coerced, rfl⟩ := bind_pure_eq_ok_iff.mp written
      exact ⟨_, _, bind_pure_eq_ok_iff.mpr ⟨payload, coerced, rfl⟩,
        ⟨_, ⟨_, Wire.varuintBytes_denotes _, rfl⟩, rfl⟩,
        by rw [joined_cons, joined_singleton]; rfl⟩

/-! ## Layouts -/

theorem lookup_of_fieldValue {path : Path} {entries : List (String × Value)} {name : String}
    {value : Value} (found : fieldValue path entries name = .ok value) :
    entries.lookup name = some value := by
  unfold fieldValue at found
  split at found
  · rename_i held
    cases found
    exact held
  · cases found

theorem head?_of_headValue {path : Path} {index : Nat} {items : List Value} {value : Value}
    (found : headValue path index items = .ok value) : items.head? = some value := by
  cases items with
  | nil => cases found
  | cons item rest =>
      cases found
      rfl

theorem countForm_countBytes (counted : Bool) (count : Nat) :
    ∃ pieces, CountForm count counted pieces ∧ joined pieces = countBytes counted count := by
  cases counted with
  | false => exact ⟨[], rfl, rfl⟩
  | true => exact ⟨_, groupsForm_varuintBytes _, joined_singleton _⟩

/-- What is written for a value is a form of its canonical value. -/
def WritesForm (encoding : TextEncoding) (layout : Layout) : Prop :=
  ∀ {path : Path} {counted : Bool} {value : Value} {bytes : List UInt8},
    writeLayout encoding path counted value layout = .ok bytes →
      ∃ result pieces, canonicalValue? encoding value layout = some result ∧
        LayoutForm encoding counted layout pieces result ∧ joined pieces = bytes

theorem fieldsForm_writeFields {encoding : TextEncoding} {fields : List (String × Layout)}
    (each : ∀ field ∈ fields, WritesForm encoding field.2) {path : Path}
    {entries : List (String × Value)} {bytes : List UInt8}
    (written : writeFields encoding path entries fields = .ok bytes) :
    ∃ collected pieces, canonicalFields? encoding entries fields = some collected ∧
      FieldsForm encoding fields pieces collected ∧ joined pieces = bytes := by
  induction fields generalizing bytes with
  | nil =>
      cases written
      exact ⟨[], [], rfl, ⟨rfl, rfl⟩, rfl⟩
  | cons field rest ih =>
      obtain ⟨value, found, written⟩ := bind_eq_ok_iff.mp written
      obtain ⟨first, firstWritten, written⟩ := bind_eq_ok_iff.mp written
      obtain ⟨others, othersWritten, rfl⟩ := bind_pure_eq_ok_iff.mp written
      obtain ⟨firstForms, othersForms⟩ := List.forall_mem_cons.mp each
      obtain ⟨result, pieces, canonical, form, rfl⟩ := firstForms firstWritten
      obtain ⟨collected, remaining, success, forms, rfl⟩ := ih othersForms othersWritten
      refine ⟨_, _, ?_, ⟨pieces, result, remaining, collected, form, forms, rfl, rfl⟩,
        joined_append _ _⟩
      rw [canonicalFields?, lookup_of_fieldValue found, Option.bind_eq_bind, Option.bind_some,
        canonical, Option.bind_eq_bind, Option.bind_some, success]
      rfl

theorem headsForm_writeHeads {encoding : TextEncoding} {heads : List Layout}
    (each : ∀ head ∈ heads, WritesForm encoding head) {path : Path} {index : Nat}
    {items : List Value} {bytes : List UInt8}
    (written : writeHeads encoding path index items heads = .ok bytes) :
    ∃ collected pieces, canonicalHeads? encoding items heads = some collected ∧
      HeadsForm encoding heads pieces collected ∧ joined pieces = bytes := by
  induction heads generalizing index items bytes with
  | nil =>
      cases written
      exact ⟨[], [], rfl, ⟨rfl, rfl⟩, rfl⟩
  | cons head rest ih =>
      obtain ⟨value, found, written⟩ := bind_eq_ok_iff.mp written
      obtain ⟨first, firstWritten, written⟩ := bind_eq_ok_iff.mp written
      obtain ⟨others, othersWritten, rfl⟩ := bind_pure_eq_ok_iff.mp written
      obtain ⟨firstForms, othersForms⟩ := List.forall_mem_cons.mp each
      obtain ⟨result, pieces, canonical, form, rfl⟩ := firstForms firstWritten
      obtain ⟨collected, remaining, success, forms, rfl⟩ := ih othersForms othersWritten
      refine ⟨_, _, ?_, ⟨pieces, result, remaining, collected, form, forms, rfl, rfl⟩,
        joined_append _ _⟩
      rw [canonicalHeads?, head?_of_headValue found, Option.bind_eq_bind, Option.bind_some,
        canonical, Option.bind_eq_bind, Option.bind_some, success]
      rfl

theorem itemsForm_writeItems {write : Path → Value → Except EncodeError (List UInt8)}
    {step : Value → Option Value} {form : List Piece → Value → Prop}
    (each : ∀ (path : Path) (item : Value) (bytes : List UInt8), write path item = .ok bytes →
      ∃ result pieces, step item = some result ∧ form pieces result ∧ joined pieces = bytes)
    {path : Path} {index : Nat} {items : List Value} {bytes : List UInt8}
    (written : writeItems write path index items = .ok bytes) :
    ∃ results pieces, items.mapM step = some results ∧ ItemsForm form pieces results ∧
      results.length = items.length ∧ joined pieces = bytes := by
  induction items generalizing index bytes with
  | nil =>
      cases written
      exact ⟨[], [], rfl, .nil, rfl, rfl⟩
  | cons item rest ih =>
      obtain ⟨first, firstWritten, written⟩ := bind_eq_ok_iff.mp written
      obtain ⟨others, othersWritten, rfl⟩ := bind_pure_eq_ok_iff.mp written
      obtain ⟨result, pieces, canonical, head, rfl⟩ := each _ _ _ firstWritten
      obtain ⟨results, remaining, success, forms, length, rfl⟩ := ih othersWritten
      refine ⟨_, _, ?_, .cons head forms, congrArg Nat.succ length, joined_append _ _⟩
      rw [List.mapM_cons, canonical, Option.bind_eq_bind, Option.bind_some, success]
      rfl

theorem writesForm (encoding : TextEncoding) (layout : Layout) : WritesForm encoding layout := by
  induction layout with
  | leaf type =>
      intro path counted value bytes written
      obtain ⟨result, pieces, canonical, form, same⟩ :=
        leafForm_writeLeaf (mapError_eq_ok_iff.mp written)
      exact ⟨result, pieces, by rw [canonicalValue?, canonical, Except.toOption], form, same⟩
  | mapping fields ih =>
      intro path counted value bytes written
      cases value with
      | mapping entries =>
          obtain ⟨collected, pieces, success, forms, same⟩ := fieldsForm_writeFields ih written
          exact ⟨_, pieces, by rw [canonicalValue?, success, Option.map_some],
            ⟨collected, forms, rfl⟩, same⟩
      | boolean | integer | float | text | bytes | sequence => cases written
  | sequence heads tail headsIh tailIh =>
      intro path counted value bytes written
      cases value with
      | sequence items =>
          simp only [writeLayout] at written
          split at written
          · obtain ⟨first, firstWritten, written⟩ := bind_eq_ok_iff.mp written
            obtain ⟨others, othersWritten, rfl⟩ := bind_pure_eq_ok_iff.mp written
            obtain ⟨firstResults, firstPieces, firstSuccess, firstForms, rfl⟩ :=
              headsForm_writeHeads headsIh firstWritten
            obtain ⟨results, pieces, success, forms, length, rfl⟩ :=
              itemsForm_writeItems (fun _ _ _ written => tailIh written) othersWritten
            obtain ⟨countPieces, number, count⟩ :=
              countForm_countBytes counted (items.drop heads.length).length
            refine ⟨.sequence (firstResults ++ results), firstPieces ++ (countPieces ++ pieces), ?_,
              ⟨firstPieces, firstResults, countPieces, pieces, results, firstForms, ?_, forms, rfl,
                rfl⟩, ?_⟩
            · simp only [canonicalValue?, firstSuccess, success, Option.bind_eq_bind,
                Option.bind_some, Option.pure_def]
            · rwa [length]
            · rw [joined_append, joined_append, count]
          · cases written
      | boolean | integer | float | text | bytes | mapping => cases written

/-- What is encoded is decoded as the canonical form of the value, which is the value itself if it
is canonical already. -/
theorem decode_of_encode {aliases : AliasTable} {definition : Definition} {plan : Plan}
    (compiled : definition.compile aliases = .ok plan) {options : Options} {value : Value}
    {bytes : List UInt8} (encoded : encode ⟨plan, options⟩ value = .ok bytes)
    (bounded : bytes.length < 2 ^ 63) :
    ∃ layout, definition.layout aliases = .ok layout ∧
      (∃ result, canonicalValue? options.encoding value layout = some result ∧
        decode ⟨plan, options⟩ bytes = .ok result) ∧
      (CanonicalValue options.encoding layout value →
        canonicalValue? options.encoding value layout = some value) := by
  obtain ⟨layout, laidOut, rfl⟩ := Definition.compile_eq_ok_iff.mp compiled
  have wellFormed := Definition.layout_wellFormed laidOut
  obtain ⟨-, written⟩ := encode_eq_ok_iff.mp encoded
  obtain ⟨result, pieces, canonical, form, same⟩ := writesForm options.encoding layout written
  have decoded := (decode_eq_ok_iff_form wellFormed bounded).mpr ⟨pieces, form, same⟩
  exact ⟨layout, laidOut, ⟨result, canonical, decoded⟩, canonicalValue?_eq wellFormed⟩

theorem decode_of_encode_masks :
    encode ⟨Layout.plan (.mapping [("masks", .sequence [.leaf .uint8] (.leaf .string)),
        ("on", .leaf .boolean)]), .hex, false⟩
      (.mapping [("id", .integer 3), ("masks", .sequence [.integer (-1), .text "0A", .text "ff"]),
        ("on", .integer 7)]) = .ok [255, 2, 1, 10, 1, 255, 1] ∧
    decode ⟨Layout.plan (.mapping [("masks", .sequence [.leaf .uint8] (.leaf .string)),
        ("on", .leaf .boolean)]), .hex, false⟩ [255, 2, 1, 10, 1, 255, 1] =
      .ok (.mapping [("masks", .sequence [.integer 255, .text "0a", .text "ff"]),
        ("on", .boolean true)]) := by
  have compiled : (Definition.mapping [("on", .type "boolean"),
      ("masks", .sequence [.type "uint8", .type "string"])]).compile .initial =
        .ok (Layout.plan (.mapping [("masks", .sequence [.leaf .uint8] (.leaf .string)),
          ("on", .leaf .boolean)])) := rfl
  have encoded : encode ⟨Layout.plan (.mapping [("masks", .sequence [.leaf .uint8] (.leaf .string)),
        ("on", .leaf .boolean)]), .hex, false⟩
      (.mapping [("id", .integer 3), ("masks", .sequence [.integer (-1), .text "0A", .text "ff"]),
        ("on", .integer 7)]) = .ok [255, 2, 1, 10, 1, 255, 1] := rfl
  obtain ⟨layout, laidOut, ⟨result, canonical, decoded⟩, -⟩ :=
    decode_of_encode compiled encoded (by decide)
  cases laidOut
  cases canonical
  exact ⟨encoded, decoded⟩

end SchemaWire.Codec
