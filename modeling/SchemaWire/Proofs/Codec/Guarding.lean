import SchemaWire.Proofs.Codec.Agreement
import SchemaWire.Proofs.Codec.Shape

/-!
# The guard as a filter

Looking at every leaf before anything is written refuses values and does nothing else. What is
encoded with the guard on is what is encoded without it where every leaf passes the guard, byte for
byte.
-/

set_option autoImplicit false

namespace SchemaWire.Codec

open Outcome
open Schema (AliasTable Definition Layout Plan)

/-- Every leaf of a value that the keys of the layout lead to passes the guard. -/
def Guarded (layout : Layout) (value : Value) : Prop :=
  ∀ path type leaf, LeafAt layout value path type leaf → guard type leaf = .ok ()

theorem measureLeaf_strict (encoding : TextEncoding) (type : Primitive) (value : Value) :
    measureLeaf ⟨encoding, true⟩ type value = (do
      guard type value
      measureLeaf ⟨encoding, false⟩ type value) :=
  rfl

theorem measureLeaf_of_guard {encoding : TextEncoding} {type : Primitive} {value : Value}
    (accepted : guard type value = .ok ()) :
    measureLeaf ⟨encoding, true⟩ type value = measureLeaf ⟨encoding, false⟩ type value := by
  rw [measureLeaf_strict, accepted]
  rfl

theorem measureLeaf_of_refused {encoding : TextEncoding} {type : Primitive} {value : Value}
    {fault : LeafFault} (refused : guard type value = .error fault) :
    measureLeaf ⟨encoding, true⟩ type value = .error fault := by
  rw [measureLeaf_strict, refused]
  rfl

/-- Among the leaves that can be written the guard is all that measuring adds. -/
theorem takes_measuring_iff {encoding : TextEncoding} {type : Primitive} {value : Value}
    (written : (writing encoding).Takes type value) :
    (measuring encoding).Takes type value ↔ guard type value = .ok () := by
  constructor
  · intro ⟨size, measured⟩
    exact (measureLeaf_strict_eq_ok measured).1
  · intro accepted
    obtain ⟨bytes, written⟩ := written
    exact ⟨bytes.length, (measureLeaf_of_guard accepted).trans (measureLeaf_lax written)⟩

/-- What can be written is measured with the guard on exactly if its leaves pass the guard. -/
theorem exists_measure_strict_iff_guarded {encoding : TextEncoding} {layout : Layout}
    (wellFormed : layout.WellFormed) {value : Value} {bytes : List UInt8}
    (written : writeLayout encoding [] false value layout = .ok bytes) :
    (∃ size, measure ⟨encoding, true⟩ layout.plan value = .ok size) ↔ Guarded layout value := by
  have writable := exists_writeLayout_iff.mp ⟨bytes, written⟩
  rw [exists_measure_strict_iff, writable.iff_leaves wellFormed]
  constructor
  · intro measured path type leaf leafAt
    exact (takes_measuring_iff (writable.at leafAt)).mp (measured path type leaf leafAt)
  · intro guarded path type leaf leafAt
    exact (takes_measuring_iff (writable.at leafAt)).mpr (guarded path type leaf leafAt)

theorem encode_strict_iff {encoding : TextEncoding} {layout : Layout}
    (wellFormed : layout.WellFormed) {value : Value} {bytes : List UInt8} :
    encode ⟨layout.plan, encoding, true⟩ value = .ok bytes ↔
      writeLayout encoding [] false value layout = .ok bytes ∧ Guarded layout value := by
  rw [encode_eq_ok_iff]
  constructor
  · intro ⟨measured, written⟩
    exact ⟨written, (exists_measure_strict_iff_guarded wellFormed written).mp measured⟩
  · intro ⟨written, guarded⟩
    exact ⟨(exists_measure_strict_iff_guarded wellFormed written).mpr guarded, written⟩

/-- A value of the right shape is encoded with the guard on exactly if each of its leaves can be
written and passes the guard. -/
theorem exists_encode_strict_iff {encoding : TextEncoding} {layout : Layout}
    (wellFormed : layout.WellFormed) {holds : Primitive → Value → Prop} {value : Value}
    (shaped : Shaped holds layout value) :
    (∃ bytes, encode ⟨layout.plan, encoding, true⟩ value = .ok bytes) ↔
      ∀ path type leaf, LeafAt layout value path type leaf →
        (writing encoding).Takes type leaf ∧ guard type leaf = .ok () := by
  have written : (∃ bytes, writeLayout encoding [] false value layout = .ok bytes) ↔
      ∀ path type leaf, LeafAt layout value path type leaf → (writing encoding).Takes type leaf :=
    exists_writeLayout_iff.trans (shaped.iff_leaves wellFormed)
  simp only [encode_strict_iff wellFormed, exists_and_right, written, Guarded]
  simp only [← forall_and]

theorem encode_lax_iff {encoding : TextEncoding} {layout : Layout} {value : Value}
    {bytes : List UInt8} :
    encode ⟨layout.plan, encoding, false⟩ value = .ok bytes ↔
      writeLayout encoding [] false value layout = .ok bytes :=
  ⟨fun encoded => (encode_eq_ok_iff.mp encoded).2, encode_lax⟩

/-- What is encoded is what is written, and the guard has its say if it is on. -/
theorem encode_eq_ok_iff_guarded {options : Options} {layout : Layout}
    (wellFormed : layout.WellFormed) {value : Value} {bytes : List UInt8} :
    encode ⟨layout.plan, options⟩ value = .ok bytes ↔
      writeLayout options.encoding [] false value layout = .ok bytes ∧
        (options.validate = true → Guarded layout value) := by
  obtain ⟨encoding, validate⟩ := options
  cases validate with
  | true =>
      rw [encode_strict_iff wellFormed]
      exact and_congr_right' ⟨fun guarded _ => guarded, fun guarded => guarded rfl⟩
  | false =>
      rw [encode_lax_iff]
      exact (and_iff_left nofun).symm

/-- A sequence passes the guard if its items do, each under its own layout. -/
theorem guarded_sequence_iff {heads : List Layout} {tail : Layout} {items : List Value} :
    Guarded (.sequence heads tail) (.sequence items) ↔
      ∀ (position : Nat) (item : Value), items[position]? = some item →
        Guarded (heads[position]?.getD tail) item := by
  constructor
  · intro guarded position item found path type leaf below
    exact guarded _ _ _ (leafAt_sequence_iff.mpr ⟨position, path, item, rfl, found, below⟩)
  · intro each path type leaf leafAt
    obtain ⟨position, rest, item, -, found, below⟩ := leafAt_sequence_iff.mp leafAt
    exact each position item found rest type leaf below

theorem guarded_append_iff {heads : List Layout} {tail : Layout} {items others : List Value}
    (long : heads.length ≤ items.length) :
    Guarded (.sequence heads tail) (.sequence (items ++ others)) ↔
      Guarded (.sequence heads tail) (.sequence items) ∧
        Guarded (.sequence [] tail) (.sequence others) := by
  simp only [guarded_sequence_iff]
  have behind : ∀ position : Nat, heads[items.length + position]?.getD tail = tail := by
    intro position
    rw [List.getElem?_eq_none (by omega), Option.getD_none]
  constructor
  · intro each
    refine ⟨fun position item found => ?_, fun position item found => ?_⟩
    · have inside := (List.getElem?_eq_some_iff.mp found).1
      exact each position item (by rwa [List.getElem?_append_left inside])
    · have guarded := each (items.length + position) item
        (by rwa [List.getElem?_append_right (Nat.le_add_right _ _), Nat.add_sub_cancel_left])
      rwa [behind] at guarded
  · intro ⟨first, rest⟩ position item found
    by_cases inside : position < items.length
    · rw [List.getElem?_append_left inside] at found
      exact first position item found
    · rw [List.getElem?_append_right (Nat.le_of_not_lt inside)] at found
      obtain ⟨offset, rfl⟩ := Nat.exists_eq_add_of_le (Nat.le_of_not_lt inside)
      rw [Nat.add_sub_cancel_left] at found
      rw [behind]
      exact rest offset item found

/-- The guard is a filter: with it a value is encoded exactly if it is encoded without it and every
leaf that the schema reaches passes, and then bytes and size are the same. -/
theorem guard_filters {aliases : AliasTable} {definition : Definition} {plan : Plan}
    (compiled : definition.compile aliases = .ok plan) (encoding : TextEncoding) (value : Value) :
    ∃ layout, definition.layout aliases = .ok layout ∧
      (∀ bytes, encode ⟨plan, encoding, true⟩ value = .ok bytes ↔
        encode ⟨plan, encoding, false⟩ value = .ok bytes ∧ Guarded layout value) ∧
      ∀ bytes, encode ⟨plan, encoding, true⟩ value = .ok bytes →
        encodedLength ⟨plan, encoding, true⟩ value = .ok bytes.length ∧
          encodedLength ⟨plan, encoding, false⟩ value = .ok bytes.length := by
  obtain ⟨layout, laidOut, rfl⟩ := Definition.compile_eq_ok_iff.mp compiled
  have wellFormed := Definition.layout_wellFormed laidOut
  refine ⟨layout, laidOut, ?same, ?sizes⟩
  case same =>
    intro bytes
    rw [encode_strict_iff wellFormed, encode_lax_iff]
  case sizes =>
    intro bytes encoded
    obtain ⟨⟨size, measured⟩, written⟩ := encode_eq_ok_iff.mp encoded
    have strict := (agrees_encodedLength ⟨encoding, true⟩ written).unique size measured
    subst strict
    exact ⟨measured, (agrees_encodedLength ⟨encoding, false⟩ written).found rfl⟩

theorem guard_filters_levels :
    ∃ plan, (Definition.sequence [.mapping [("level", .type "uint8")]]).compile .initial = .ok plan ∧
      encode ⟨plan, .utf8, false⟩ (.sequence [.mapping [("level", .integer 300)]]) = .ok [44] ∧
      (∀ bytes, encode ⟨plan, .utf8, true⟩ (.sequence [.mapping [("level", .integer 300)]]) ≠
        .ok bytes) ∧
      encodedLength ⟨plan, .utf8, false⟩ (.sequence [.mapping [("level", .integer 255)]]) = .ok 1 := by
  have compiled : (Definition.sequence [.mapping [("level", .type "uint8")]]).compile .initial =
      .ok (Layout.plan (.sequence [] (.mapping [("level", .leaf .uint8)]))) := rfl
  refine ⟨_, compiled, rfl, ?refused, ?accepted⟩
  case refused =>
    intro bytes encoded
    obtain ⟨layout, laidOut, same, -⟩ :=
      guard_filters compiled .utf8 (.sequence [.mapping [("level", .integer 300)]])
    cases laidOut
    have passes := ((same bytes).mp encoded).2 [.index 0, .field "level"] .uint8 (.integer 300)
      ⟨rfl, rfl⟩
    cases passes
  case accepted =>
    obtain ⟨layout, -, -, sizes⟩ :=
      guard_filters compiled .utf8 (.sequence [.mapping [("level", .integer 255)]])
    exact (sizes [255] rfl).2

end SchemaWire.Codec
