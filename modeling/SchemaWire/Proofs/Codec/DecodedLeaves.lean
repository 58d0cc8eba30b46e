import SchemaWire.Proofs.Codec.Acceptance
import SchemaWire.Proofs.Codec.Frames
import SchemaWire.Proofs.Codec.Guarding
import SchemaWire.Proofs.Wire.Writing

/-!
# Leaves of decoded values

What is decoded has leaves that the guard accepts, and their bytes stand in the buffer. There are
two exceptions, both of which can be told from these bytes: an unsigned integer past the signed
range, and under ASCII a text with other bytes.
-/

set_option autoImplicit false

namespace SchemaWire.Codec

open Outcome
open Schema (AliasTable Definition Layout Plan)
open Wire (Denotes)

/-! ## Where leaves stand -/

theorem joined_infix {within pieces : List Piece} (inside : within <:+: pieces) :
    joined within <:+: joined pieces := by
  obtain ⟨before, after, rfl⟩ := inside
  rw [joined_append, joined_append]
  exact ⟨_, _, rfl⟩

theorem FieldsForm.of_lookup {encoding : TextEncoding} {fields : List (String × Layout)}
    {pieces : List Piece} {entries : List (String × Value)}
    (spelled : FieldsForm encoding fields pieces entries) {name : String} {layout : Layout}
    (declared : fields.lookup name = some layout) {value : Value}
    (found : entries.lookup name = some value) :
    ∃ within, within <:+: pieces ∧ LayoutForm encoding true layout within value := by
  induction fields generalizing pieces entries with
  | nil => cases declared
  | cons field rest ih =>
      obtain ⟨other, otherLayout⟩ := field
      obtain ⟨first, held, others, remaining, head, tail, rfl, rfl⟩ := spelled
      by_cases same : name = other
      · subst same
        rw [lookup_cons_self] at declared found
        cases declared
        cases found
        exact ⟨first, ⟨[], others, rfl⟩, head⟩
      · rw [lookup_cons_of_ne same] at declared found
        obtain ⟨within, inside, form⟩ := ih tail declared found
        exact ⟨within, inside.trans (List.suffix_append first others).isInfix, form⟩

theorem HeadsForm.of_getElem? {encoding : TextEncoding} {heads : List Layout}
    {pieces : List Piece} {items : List Value} (spelled : HeadsForm encoding heads pieces items)
    {position : Nat} {layout : Layout} (declared : heads[position]? = some layout) {value : Value}
    (found : items[position]? = some value) :
    ∃ within, within <:+: pieces ∧ LayoutForm encoding true layout within value := by
  induction heads generalizing pieces items position with
  | nil => cases declared
  | cons head rest ih =>
      obtain ⟨first, held, others, remaining, form, tail, rfl, rfl⟩ := spelled
      cases position with
      | zero =>
          cases declared
          cases found
          exact ⟨first, ⟨[], others, rfl⟩, form⟩
      | succ position =>
          obtain ⟨within, inside, form⟩ := ih tail declared found
          exact ⟨within, inside.trans (List.suffix_append first others).isInfix, form⟩

theorem ItemsForm.of_mem {form : List Piece → Value → Prop} {pieces : List Piece}
    {items : List Value} (spelled : ItemsForm form pieces items) {item : Value}
    (member : item ∈ items) : ∃ within, within <:+: pieces ∧ form within item := by
  induction spelled with
  | nil => cases member
  | @cons first others held items head rest ih =>
      rcases List.mem_cons.mp member with rfl | later
      · exact ⟨first, ⟨[], others, rfl⟩, head⟩
      · obtain ⟨within, inside, found⟩ := ih later
        exact ⟨within, inside.trans (List.suffix_append first others).isInfix, found⟩

/-- Among the pieces of a value are those of each of its leaves. -/
theorem LayoutForm.of_leafAt {encoding : TextEncoding} {layout : Layout}
    (wellFormed : layout.WellFormed) {counted : Bool} {pieces : List Piece} {value : Value}
    (spelled : LayoutForm encoding counted layout pieces value) {path : Path} {type : Primitive}
    {leaf : Value} (leafAt : LeafAt layout value path type leaf) :
    ∃ within, within <:+: pieces ∧ LeafForm encoding type within leaf := by
  induction wellFormed generalizing counted pieces value path with
  | leaf declared =>
      obtain ⟨-, rfl, rfl⟩ := leafAt_leaf_iff.mp leafAt
      exact ⟨pieces, List.infix_refl pieces, spelled⟩
  | @mapping fields nonempty distinct each ih =>
      obtain ⟨entries, spelled, rfl⟩ := spelled
      obtain ⟨name, rest, child, held, -, declared, found, below⟩ := leafAt_mapping_iff.mp leafAt
      rw [lookup_entriesOf (spelled.names ▸ distinct)] at found
      obtain ⟨part, inside, form⟩ := spelled.of_lookup declared found
      obtain ⟨within, deeper, leafForm⟩ := ih (name, child) (mem_of_lookup declared) form below
      exact ⟨within, deeper.trans inside, leafForm⟩
  | @sequence heads tail each last ih lastIh =>
      obtain ⟨first, items, count, rest, others, head, -, repeated, rfl, rfl⟩ := spelled
      obtain ⟨position, below, item, -, found, leafAt⟩ := leafAt_sequence_iff.mp leafAt
      have length := head.length_eq
      cases declared : heads[position]? with
      | some layout =>
          rw [declared, Option.getD_some] at leafAt
          obtain ⟨early, -⟩ := List.getElem?_eq_some_iff.mp declared
          rw [List.getElem?_append_left (by omega)] at found
          obtain ⟨part, inside, form⟩ := head.of_getElem? declared found
          obtain ⟨within, deeper, leafForm⟩ :=
            ih layout (List.mem_of_getElem? declared) form leafAt
          exact ⟨within, (deeper.trans inside).trans (List.prefix_append _ _).isInfix, leafForm⟩
      | none =>
          rw [declared, Option.getD_none] at leafAt
          have late := List.getElem?_eq_none_iff.mp declared
          rw [List.getElem?_append_right (by omega)] at found
          obtain ⟨part, inside, form⟩ := repeated.of_mem (List.mem_of_getElem? found)
          obtain ⟨within, deeper, leafForm⟩ := lastIh form leafAt
          have suffix : rest <:+: first ++ (count ++ rest) :=
            ((List.suffix_append count rest).trans (List.suffix_append first _)).isInfix
          exact ⟨within, (deeper.trans inside).trans suffix, leafForm⟩

/-! ## What leaves can be -/

/-- A value of the kind of a type, and within its bounds if it is an integer. -/
def Declares (type : Primitive) (value : Value) : Prop :=
  match type.bounds?, type, value with
  | some (least, greatest), _, .integer number => least ≤ number ∧ number ≤ greatest
  | none, .boolean, .boolean _ => True
  | none, .float32, .float _ => True
  | none, .float64, .float _ => True
  | none, .string, .text _ => True
  | none, .buffer, .bytes _ => True
  | _, _, _ => False

/-- The leaves that are decoded although encoding refuses them. -/
def Exception (encoding : TextEncoding) : Primitive → Value → Prop
  | .varuint, .integer number => number < 0
  | .string, .text text => encoding = .ascii ∧ ∃ c ∈ text.toList, 0x80 ≤ c.toNat
  | _, _ => False

/-- The bytes of such leaves. -/
def ExceptionForm (encoding : TextEncoding) : Primitive → List Piece → Prop
  | .varuint, [.groups _ number _] => 2 ^ 63 ≤ number.toNat
  | .string, [.groups _ _ _, .text bytes] => encoding = .ascii ∧ ∃ byte ∈ bytes, 0x80 ≤ byte.toNat
  | _, _ => False

theorem CanonicalValue.shaped {encoding : TextEncoding} {layout : Layout} {value : Value}
    (canonical : CanonicalValue encoding layout value) :
    Shaped (CanonicalLeaf encoding) layout value := by
  induction canonical with
  | leaf canonical => exact .leaf canonical
  | mapping ascending names each ih =>
      refine .mapping ?_ ih
      intro field member
      exact exists_lookup ((names field.1).mpr (List.mem_map.mpr ⟨field, member, rfl⟩))
  | sequence long each rest ih restIh => exact .sequence long ih restIh

theorem declares_of_canonical {encoding : TextEncoding} {type : Primitive} {leaf : Value}
    (canonical : CanonicalLeaf encoding type leaf) :
    Declares type leaf ∨ type = .varuint ∧ ∃ number : Int64, leaf = .integer number ∧ number < 0 := by
  cases type with
  | boolean | float32 | float64 | buffer =>
      obtain ⟨datum, rfl⟩ := canonical
      exact .inl trivial
  | string =>
      obtain ⟨text, rfl, -⟩ := canonical
      exact .inl trivial
  | int8 | uint8 | int16 | uint16 | int32 | uint32 =>
      obtain ⟨number, rfl, least, greatest⟩ := canonical
      refine .inl ⟨Int64.le_iff_toInt_le.mpr ?_, Int64.le_iff_toInt_le.mpr ?_⟩
      all_goals
        simp only [Int64.toInt_neg, Int64.reduceToInt, Int.reduceNeg, Nat.reducePow, Int.reduceBmod]
        omega
  | varuint =>
      obtain ⟨number, rfl⟩ := canonical
      by_cases below : number < 0
      · exact .inr ⟨rfl, number, rfl, below⟩
      · exact .inl ⟨Int64.not_lt.mp below, Int64.le_maxValue number⟩
  | varint =>
      obtain ⟨number, rfl⟩ := canonical
      exact .inl ⟨Int64.minValue_le number, Int64.le_maxValue number⟩

theorem guard_integer_eq_ok_iff {type : Primitive} {least greatest : Int64}
    (bounds : type.bounds? = some (least, greatest)) {number : Int64} :
    guard type (.integer number) = .ok () ↔ least ≤ number ∧ number ≤ greatest := by
  simp only [guard, bounds]
  split
  · rename_i inside
    exact iff_of_true rfl inside
  · rename_i outside
    exact iff_of_false (fun accepted => by cases accepted) outside

/-- On decoded leaves the guard looks at the bounds of integers and at nothing else: a widened float
is narrowed to what it was. -/
theorem guard_eq_ok_iff {encoding : TextEncoding} {type : Primitive} {leaf : Value}
    (canonical : CanonicalLeaf encoding type leaf) : guard type leaf = .ok () ↔ Declares type leaf := by
  cases type with
  | boolean | float64 | buffer =>
      obtain ⟨datum, rfl⟩ := canonical
      exact iff_of_true rfl trivial
  | string =>
      obtain ⟨text, rfl, -⟩ := canonical
      exact iff_of_true rfl trivial
  | int8 | uint8 | int16 | uint16 | int32 | uint32 =>
      obtain ⟨number, rfl, -⟩ := canonical
      exact guard_integer_eq_ok_iff rfl
  | varuint | varint =>
      obtain ⟨number, rfl⟩ := canonical
      exact guard_integer_eq_ok_iff rfl
  | float32 =>
      obtain ⟨number, rfl⟩ := canonical
      refine iff_of_true (if_neg fun overflows => ?_) trivial
      obtain ⟨finite, infinite⟩ := Bool.and_eq_true_iff.mp overflows
      obtain ⟨isNumber, notInfinite⟩ := Floating.Binary32.finite_of_widen finite
      rw [Floating.narrow_widen isNumber, notInfinite] at infinite
      cases infinite

theorem takes_writing_of_canonical {encoding : TextEncoding} {type : Primitive} {leaf : Value}
    (canonical : CanonicalLeaf encoding type leaf) (noText : type ≠ .string) :
    (writing encoding).Takes type leaf := by
  cases type with
  | boolean | float32 | float64 | varuint | varint | buffer =>
      obtain ⟨datum, rfl⟩ := canonical
      exact ⟨_, rfl⟩
  | int8 | uint8 | int16 | uint16 | int32 | uint32 =>
      obtain ⟨number, rfl, -⟩ := canonical
      exact ⟨_, rfl⟩
  | string => exact absurd rfl noText

theorem takes_writing_text_iff {encoding : TextEncoding} {text : String} :
    (writing encoding).Takes .string (.text text) ↔
      ∃ bytes, Wire.payload encoding text = .ok bytes := by
  constructor
  · intro ⟨written, success⟩
    obtain ⟨bytes, paid, -⟩ := Wire.textBytes_eq_ok_iff.mp (mapError_eq_ok_iff.mp success)
    exact ⟨bytes, paid⟩
  · intro ⟨bytes, paid⟩
    exact ⟨_, mapError_eq_ok_iff.mpr (Wire.textBytes_eq_ok_iff.mpr ⟨bytes, paid, rfl⟩)⟩

/-- Under ASCII every byte is read as a character, but only those of ASCII are written. -/
theorem beyond_ascii_iff {bytes : List UInt8} {text : String}
    (content : Wire.textOfPayload .ascii bytes = .ok text) :
    (∃ c ∈ text.toList, 0x80 ≤ c.toNat) ↔ ∃ byte ∈ bytes, 0x80 ≤ byte.toNat := by
  cases content
  have same : ∀ byte : UInt8, (Char.ofNat byte.toNat).toNat = byte.toNat := by
    intro byte
    have bound := byte.toNat_lt
    exact Wire.Utf8.toNat_charOfNat (.inl (by omega))
  simp only [String.toList_ofList, List.mem_map, exists_exists_and_eq_and, same]

theorem exists_payload_iff {encoding : TextEncoding} {bytes : List UInt8} {text : String}
    (content : Wire.textOfPayload encoding bytes = .ok text) :
    (∃ again, Wire.payload encoding text = .ok again) ↔
      ¬(encoding = .ascii ∧ ∃ c ∈ text.toList, 0x80 ≤ c.toNat) := by
  constructor
  · intro ⟨again, paid⟩ ⟨ascii, c, member, beyond⟩
    subst ascii
    by_cases whole : Wire.isAscii text = true
    · exact Nat.not_lt.mpr beyond (Wire.isAscii_iff.mp whole c member)
    · rw [Wire.payload, if_neg whole] at paid
      cases paid
  · intro plain
    refine ⟨bytes, Wire.payload_textOfPayload content ?_⟩
    intro ascii byte member
    subst ascii
    by_contra large
    exact plain ⟨rfl, (beyond_ascii_iff content).mpr ⟨byte, member, Nat.not_lt.mp large⟩⟩

/-! ## Exceptions -/

theorem toInt64_lt_zero_iff {number : UInt64} : number.toInt64 < 0 ↔ 2 ^ 63 ≤ number.toNat := by
  have sign : number.toInt64.toInt < 0 ↔ 2 ^ 64 ≤ 2 * number.toNat := BitVec.toInt_neg_iff
  rw [Int64.lt_iff_toInt_lt, Int64.toInt_zero, sign]
  omega

theorem exception_iff_form {encoding : TextEncoding} {type : Primitive} {leaf : Value}
    {within : List Piece} (form : LeafForm encoding type within leaf) :
    Exception encoding type leaf ↔ ExceptionForm encoding type within := by
  cases type with
  | boolean | int8 | uint8 | int16 | uint16 | int32 | uint32 | float32 | float64 | varint | buffer =>
      exact iff_of_false nofun nofun
  | varuint =>
      obtain ⟨number, ⟨bytes, denotes, rfl⟩, rfl⟩ := form
      exact toInt64_lt_zero_iff
  | string =>
      obtain ⟨text, ⟨length, bytes, denotes, content, rfl⟩, rfl⟩ := form
      apply and_congr_right
      intro ascii
      subst ascii
      exact beyond_ascii_iff content

/-- A decoded leaf is written and passes the guard unless it is an exception. -/
theorem takes_iff {encoding : TextEncoding} {type : Primitive} {leaf : Value}
    (canonical : CanonicalLeaf encoding type leaf) {within : List Piece}
    (form : LeafForm encoding type within leaf) :
    (writing encoding).Takes type leaf ∧ guard type leaf = .ok () ↔ ¬Exception encoding type leaf := by
  rw [guard_eq_ok_iff canonical]
  cases type with
  | boolean | int8 | uint8 | int16 | uint16 | int32 | uint32 | float32 | float64 | varint | buffer =>
      have takes := takes_writing_of_canonical canonical nofun
      have declares := (declares_of_canonical canonical).resolve_right nofun
      exact iff_of_true ⟨takes, declares⟩ nofun
  | varuint =>
      have takes := takes_writing_of_canonical canonical nofun
      obtain ⟨number, rfl⟩ := canonical
      have declares : Declares .varuint (.integer number) ↔ ¬number < 0 :=
        (and_iff_left (Int64.le_maxValue number)).trans Int64.not_lt.symm
      exact (and_iff_right takes).trans declares
  | string =>
      obtain ⟨text, ⟨length, bytes, denotes, content, rfl⟩, rfl⟩ := form
      exact (and_iff_left trivial).trans (takes_writing_text_iff.trans (exists_payload_iff content))

/-- What is decoded has the shape of the schema, with leaves of their types. It is encoded again with
the guard on unless a leaf is an exception, and that can be told from the bytes of the leaf. -/
theorem guard_of_decode {aliases : AliasTable} {definition : Definition} {plan : Plan}
    (compiled : definition.compile aliases = .ok plan) {options : Options} {bytes : List UInt8}
    (bounded : bytes.length < 2 ^ 63) {value : Value}
    (decoded : decode ⟨plan, options⟩ bytes = .ok value) :
    ∃ layout, definition.layout aliases = .ok layout ∧
      CanonicalValue options.encoding layout value ∧
      (∀ path type leaf, LeafAt layout value path type leaf →
        (Declares type leaf ∨
          type = .varuint ∧ ∃ number : Int64, leaf = .integer number ∧ number < 0) ∧
        ∃ within, joined within <:+: bytes ∧ LeafForm options.encoding type within leaf ∧
          (Exception options.encoding type leaf ↔ ExceptionForm options.encoding type within)) ∧
      ((∃ again, encode ⟨plan, options.encoding, true⟩ value = .ok again) ↔
        ∀ path type leaf, LeafAt layout value path type leaf →
          ¬Exception options.encoding type leaf) := by
  obtain ⟨layout, laidOut, rfl⟩ := Definition.compile_eq_ok_iff.mp compiled
  have wellFormed := Definition.layout_wellFormed laidOut
  obtain ⟨pieces, form, rfl⟩ := (decode_eq_ok_iff_form wellFormed bounded).mp decoded
  have canonical := canonical_of_decode wellFormed decoded
  have each : ∀ {path type leaf}, LeafAt layout value path type leaf →
      CanonicalLeaf options.encoding type leaf ∧
        ∃ within, within <:+: pieces ∧ LeafForm options.encoding type within leaf := by
    intro path type leaf leafAt
    exact ⟨canonical.shaped.at leafAt, form.of_leafAt wellFormed leafAt⟩
  refine ⟨layout, laidOut, canonical, ?leaves, ?again⟩
  case leaves =>
    intro path type leaf leafAt
    obtain ⟨canonicalLeaf, within, inside, leafForm⟩ := each leafAt
    exact ⟨declares_of_canonical canonicalLeaf, within, joined_infix inside, leafForm,
      exception_iff_form leafForm⟩
  case again =>
    rw [exists_encode_strict_iff wellFormed canonical.shaped]
    refine forall₄_congr fun path type leaf leafAt => ?_
    obtain ⟨canonicalLeaf, within, -, leafForm⟩ := each leafAt
    exact takes_iff canonicalLeaf leafForm

theorem guard_of_decode_labels :
    decode ⟨Layout.plan (.mapping [("id", .leaf .varuint), ("label", .leaf .string)]), .ascii, false⟩
        [7, 1, 200] = .ok (.mapping [("id", .integer 7), ("label", .text "È")]) ∧
      (∀ again, encode
        ⟨Layout.plan (.mapping [("id", .leaf .varuint), ("label", .leaf .string)]), .ascii, true⟩
          (.mapping [("id", .integer 7), ("label", .text "È")]) ≠ .ok again) ∧
      ∃ within, joined within <:+: [7, 1, 200] ∧ ExceptionForm .ascii .string within := by
  have compiled : (Definition.mapping [("id", .type "varuint"), ("label", .type "string")]).compile
      .initial = .ok (Layout.plan (.mapping [("id", .leaf .varuint), ("label", .leaf .string)])) := rfl
  have decoded : decode
      ⟨Layout.plan (.mapping [("id", .leaf .varuint), ("label", .leaf .string)]), .ascii, false⟩
        [7, 1, 200] = .ok (.mapping [("id", .integer 7), ("label", .text "È")]) := rfl
  obtain ⟨layout, laidOut, -, leaves, again⟩ := guard_of_decode compiled (by decide) decoded
  cases laidOut
  have label : LeafAt (.mapping [("id", .leaf .varuint), ("label", .leaf .string)])
      (.mapping [("id", .integer 7), ("label", .text "È")]) [.field "label"] .string (.text "È") :=
    ⟨rfl, rfl⟩
  have exception : Exception .ascii .string (.text "È") := ⟨rfl, 'È', by decide, by decide⟩
  refine ⟨decoded, ?refused, ?bytes⟩
  case refused =>
    intro bytes encoded
    exact again.mp ⟨bytes, encoded⟩ _ _ _ label exception
  case bytes =>
    obtain ⟨-, within, inside, -, same⟩ := leaves _ _ _ label
    exact ⟨within, inside, same.mp exception⟩

end SchemaWire.Codec
