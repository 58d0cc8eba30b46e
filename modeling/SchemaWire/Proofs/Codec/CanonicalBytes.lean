import SchemaWire.Proofs.Codec.Acceptance
import SchemaWire.Proofs.Codec.Size
import SchemaWire.Proofs.Floating.Widening
import SchemaWire.Proofs.Value.Entries

/-!
# Writing what was read

A value is read from many forms and written in the shortest of them. It differs from another form
only in the bytes of booleans and in integers, lengths and counts in groups.
-/

set_option autoImplicit false

namespace SchemaWire.Codec

open Outcome
open Schema (AliasTable Definition Layout Plan)

/-! ## The shortest form -/

/-- The piece that is written where a piece was read. -/
def Piece.shortest : Piece → Piece
  | .boolean byte => .boolean (if byte != 0 then 1 else 0)
  | .groups _ number _ => .groups _ number (Wire.varuintBytes_denotes number)
  | .fixed bytes => .fixed bytes
  | .single number => .single number
  | .double number => .double number
  | .text bytes => .text bytes
  | .buffer bytes => .buffer bytes

/-- A boolean is the byte zero or one, and groups are those that are written for their number. -/
def Piece.Canonical : Piece → Prop
  | .boolean byte => byte = 0 ∨ byte = 1
  | .groups bytes number _ => bytes = Wire.varuintBytes number
  | .fixed _ | .single _ | .double _ | .text _ | .buffer _ => True

/-- The number is no NaN, and under ASCII the bytes are in ASCII. -/
def Piece.Writable (encoding : TextEncoding) : Piece → Prop
  | .single number => number.isNaN = false
  | .text bytes => encoding = .ascii → ∀ byte ∈ bytes, byte.toNat < 0x80
  | .boolean _ | .fixed _ | .double _ | .groups _ _ _ | .buffer _ => True

theorem Piece.length_shortest_le (piece : Piece) :
    piece.shortest.bytes.length ≤ piece.bytes.length := by
  cases piece with
  | groups bytes number denotes => exact denotes.length_varuintBytes_le
  | boolean | fixed | single | double | text | buffer => exact Nat.le_refl _

theorem Piece.bytes_shortest_eq_iff (piece : Piece) :
    piece.shortest.bytes = piece.bytes ↔ piece.Canonical := by
  cases piece with
  | boolean byte =>
      have same : (if byte != 0 then (1 : UInt8) else 0) = byte ↔ byte = 0 ∨ byte = 1 := by
        by_cases zero : byte = 0
        · simp [zero]
        · rw [if_pos (bne_iff_ne.mpr zero), or_iff_right zero, eq_comm]
      exact List.singleton_inj.trans same
  | groups bytes number denotes => exact eq_comm
  | fixed | single | double | text | buffer => exact iff_of_true rfl trivial

def shortest (pieces : List Piece) : List Piece :=
  pieces.map Piece.shortest

theorem shortest_append (first second : List Piece) :
    shortest (first ++ second) = shortest first ++ shortest second :=
  List.map_append

theorem length_joined_shortest_le (pieces : List Piece) :
    (joined (shortest pieces)).length ≤ (joined pieces).length := by
  induction pieces with
  | nil => exact Nat.le_refl _
  | cons piece rest ih =>
      rw [shortest, List.map_cons, joined_cons, joined_cons, List.length_append, List.length_append]
      exact Nat.add_le_add piece.length_shortest_le ih

/-- No piece is longer in the shortest form, so equal bytes are equal piece by piece. -/
theorem joined_shortest_eq_iff (pieces : List Piece) :
    joined (shortest pieces) = joined pieces ↔ ∀ piece ∈ pieces, piece.Canonical := by
  induction pieces with
  | nil => simp [shortest]
  | cons piece rest ih =>
      rw [List.forall_mem_cons, ← ih, ← piece.bytes_shortest_eq_iff, shortest, List.map_cons,
        joined_cons, joined_cons]
      constructor
      · -- Neither part is longer than before, so both are as long as before.
        intro same
        have lengths := congrArg List.length same
        rw [List.length_append, List.length_append] at lengths
        have first := piece.length_shortest_le
        have others := length_joined_shortest_le rest
        exact List.append_inj same (Nat.le_antisymm first (by rw [shortest] at others; omega))
      · rintro ⟨first, others⟩
        rw [first, ← shortest, others]

/-! ## Leaves -/

theorem FixedForm.shortest {width number : Nat} {pieces : List Piece}
    (form : FixedForm width pieces number) : shortest pieces = pieces := by
  obtain ⟨bytes, -, -, rfl⟩ := form
  rfl

theorem FixedForm.joined_eq {width number : Nat} {pieces : List Piece}
    (form : FixedForm width pieces number) {written : Nat}
    (same : written % 256 ^ width = number % 256 ^ width) :
    joined pieces = Wire.bigEndian width written := by
  obtain ⟨bytes, rfl, rfl, rfl⟩ := form
  rw [← Wire.bigEndian_emod, same, Wire.bigEndian_emod, Wire.bigEndian_ofBigEndian, joined_singleton,
    Piece.bytes]

theorem GroupsForm.shortest {number : UInt64} {pieces : List Piece}
    (form : GroupsForm pieces number) :
    joined (shortest pieces) = Wire.varuintBytes number ∧ GroupsForm (shortest pieces) number := by
  obtain ⟨bytes, denotes, rfl⟩ := form
  exact ⟨joined_singleton _, _, _, rfl⟩

theorem leafForm_shortest {encoding : TextEncoding} {type : Primitive} {pieces : List Piece}
    {value : Value} (form : LeafForm encoding type pieces value)
    (writable : ∀ piece ∈ pieces, piece.Writable encoding) :
    writeLeaf encoding type value = .ok (joined (shortest pieces)) ∧
      LeafForm encoding type (shortest pieces) value := by
  cases type with
  | boolean =>
      obtain ⟨byte, rfl, rfl⟩ := form
      have same : (byte != 0) = ((if byte != 0 then (1 : UInt8) else 0) != 0) := by
        cases byte != 0 <;> rfl
      exact ⟨rfl, _, rfl, congrArg Value.boolean same⟩
  | int8 | int16 | int32 =>
      obtain ⟨number, spelled, rfl⟩ := form
      rw [spelled.shortest]
      refine ⟨congrArg Except.ok (spelled.joined_eq ?_).symm, number, spelled, rfl⟩
      apply Int.natCast_inj.mp
      rw [Wire.toNat_ofInt_emod _ (by decide), Wire.signed_emod, Int.natCast_emod]
  | uint8 | uint16 | uint32 =>
      obtain ⟨number, spelled, rfl⟩ := form
      rw [spelled.shortest]
      refine ⟨congrArg Except.ok (spelled.joined_eq ?_).symm, number, spelled, rfl⟩
      apply Int.natCast_inj.mp
      exact (Wire.toNat_ofInt_emod number (by decide)).trans (Int.natCast_emod _ _).symm
  | float32 =>
      obtain ⟨number, rfl, rfl⟩ := form
      have narrowed := Floating.narrow_widen (writable _ List.mem_cons_self)
      have written : Wire.bigEndian 4 number.widen.narrow.bits.toNat =
          joined (shortest [.single number]) := by
        rw [narrowed]
        exact (joined_singleton (.single number)).symm
      exact ⟨congrArg Except.ok written, _, rfl, rfl⟩
  | float64 =>
      obtain ⟨number, rfl, rfl⟩ := form
      exact ⟨congrArg Except.ok (joined_singleton (.double number)).symm, _, rfl, rfl⟩
  | varuint =>
      obtain ⟨number, spelled, rfl⟩ := form
      obtain ⟨written, again⟩ := spelled.shortest
      exact ⟨congrArg Except.ok written.symm, number, again, rfl⟩
  | varint =>
      obtain ⟨number, spelled, rfl⟩ := form
      obtain ⟨written, again⟩ := spelled.shortest
      exact ⟨congrArg Except.ok written.symm, number, again, rfl⟩
  | string =>
      obtain ⟨text, ⟨length, bytes, denotes, content, rfl⟩, rfl⟩ := form
      have ascii := writable _ (List.mem_cons_of_mem _ List.mem_cons_self)
      have payload := Wire.payload_textOfPayload content ascii
      have written : Wire.textBytes encoding text = .ok (Wire.prefixed bytes) :=
        Wire.textBytes_eq_ok_iff.mpr ⟨bytes, payload, rfl⟩
      refine ⟨mapError_eq_ok_iff.mpr (written.trans (congrArg Except.ok ?_)), text,
        ⟨_, bytes, _, content, rfl⟩, rfl⟩
      exact congrArg (Wire.varuintBytes _ ++ ·) (joined_singleton (.text bytes)).symm
  | buffer =>
      obtain ⟨bytes, ⟨length, denotes, rfl⟩, rfl⟩ := form
      refine ⟨congrArg Except.ok ?_, bytes, ⟨_, _, rfl⟩, rfl⟩
      exact congrArg (Wire.varuintBytes _ ++ ·) (joined_singleton (.buffer bytes)).symm

/-! ## Layouts -/

theorem countForm_shortest {counted : Bool} {count : Nat} {pieces : List Piece}
    (form : CountForm count counted pieces) :
    joined (shortest pieces) = countBytes counted count ∧
      CountForm count counted (shortest pieces) := by
  cases counted with
  | false =>
      cases form
      exact ⟨rfl, rfl⟩
  | true => exact GroupsForm.shortest form

/-- A value that is read from pieces is written as their shortest form, which is one of its forms
as well. -/
def Rewrites (encoding : TextEncoding) (layout : Layout) : Prop :=
  ∀ {counted : Bool} {pieces : List Piece} {value : Value},
    LayoutForm encoding counted layout pieces value →
      (∀ piece ∈ pieces, piece.Writable encoding) →
        (∀ path, writeLayout encoding path counted value layout = .ok (joined (shortest pieces))) ∧
          LayoutForm encoding counted layout (shortest pieces) value

theorem rewrites_fields {encoding : TextEncoding} {fields : List (String × Layout)}
    (each : ∀ field ∈ fields, Rewrites encoding field.2) {pieces : List Piece}
    {collected entries : List (String × Value)}
    (form : FieldsForm encoding fields pieces collected)
    (writable : ∀ piece ∈ pieces, piece.Writable encoding)
    (held : ∀ entry ∈ collected, entries.lookup entry.1 = some entry.2) :
    (∀ path, writeFields encoding path entries fields = .ok (joined (shortest pieces))) ∧
      FieldsForm encoding fields (shortest pieces) collected := by
  induction fields generalizing pieces collected with
  | nil =>
      obtain ⟨rfl, rfl⟩ := form
      exact ⟨fun _ => rfl, rfl, rfl⟩
  | cons field rest ih =>
      obtain ⟨firstRewrites, othersRewrite⟩ := List.forall_mem_cons.mp each
      obtain ⟨first, value, others, remaining, head, form, rfl, rfl⟩ := form
      obtain ⟨firstWritable, othersWritable⟩ := List.forall_mem_append.mp writable
      obtain ⟨found, othersHeld⟩ := List.forall_mem_cons.mp held
      obtain ⟨written, again⟩ := firstRewrites head firstWritable
      obtain ⟨othersWritten, othersAgain⟩ := ih othersRewrite form othersWritable othersHeld
      rw [shortest_append]
      refine ⟨fun path => ?_, _, _, _, _, again, othersAgain, rfl, rfl⟩
      have child : fieldValue path entries field.1 = .ok value := by
        rw [fieldValue, found]
      rw [joined_append]
      exact bind_eq_ok_iff.mpr ⟨value, child, bind_eq_ok_iff.mpr ⟨_, written _,
        bind_pure_eq_ok_iff.mpr ⟨_, othersWritten path, rfl⟩⟩⟩

theorem rewrites_heads {encoding : TextEncoding} {heads : List Layout}
    (each : ∀ head ∈ heads, Rewrites encoding head) {pieces : List Piece}
    {items : List Value} (form : HeadsForm encoding heads pieces items)
    (writable : ∀ piece ∈ pieces, piece.Writable encoding) (rest : List Value) :
    (∀ path index, writeHeads encoding path index (items ++ rest) heads =
        .ok (joined (shortest pieces))) ∧
      HeadsForm encoding heads (shortest pieces) items := by
  induction heads generalizing pieces items with
  | nil =>
      obtain ⟨rfl, rfl⟩ := form
      exact ⟨fun _ _ => rfl, rfl, rfl⟩
  | cons head heads ih =>
      obtain ⟨firstRewrites, othersRewrite⟩ := List.forall_mem_cons.mp each
      obtain ⟨first, value, others, remaining, head, form, rfl, rfl⟩ := form
      obtain ⟨firstWritable, othersWritable⟩ := List.forall_mem_append.mp writable
      obtain ⟨written, again⟩ := firstRewrites head firstWritable
      obtain ⟨othersWritten, othersAgain⟩ := ih othersRewrite form othersWritable
      rw [shortest_append]
      refine ⟨fun path index => ?_, _, _, _, _, again, othersAgain, rfl, rfl⟩
      rw [joined_append]
      exact bind_eq_ok_iff.mpr ⟨value, rfl, bind_eq_ok_iff.mpr ⟨_, written _,
        bind_pure_eq_ok_iff.mpr ⟨_, othersWritten path (index + 1), rfl⟩⟩⟩

theorem rewrites_items {encoding : TextEncoding} {tail : Layout}
    (element : Rewrites encoding tail) {pieces : List Piece} {items : List Value}
    (form : ItemsForm (LayoutForm encoding true tail) pieces items)
    (writable : ∀ piece ∈ pieces, piece.Writable encoding) :
    (∀ path index, writeItems (fun place item => writeLayout encoding place true item tail) path
        index items = .ok (joined (shortest pieces))) ∧
      ItemsForm (LayoutForm encoding true tail) (shortest pieces) items := by
  induction form with
  | nil => exact ⟨fun _ _ => rfl, .nil⟩
  | cons head rest ih =>
      obtain ⟨firstWritable, othersWritable⟩ := List.forall_mem_append.mp writable
      obtain ⟨written, again⟩ := element head firstWritable
      obtain ⟨othersWritten, othersAgain⟩ := ih othersWritable
      rw [shortest_append]
      refine ⟨fun path index => ?_, .cons again othersAgain⟩
      rw [joined_append]
      exact bind_eq_ok_iff.mpr ⟨_, written _,
        bind_pure_eq_ok_iff.mpr ⟨_, othersWritten path (index + 1), rfl⟩⟩

theorem rewrites (encoding : TextEncoding) {layout : Layout} (wellFormed : layout.WellFormed) :
    Rewrites encoding layout := by
  induction wellFormed with
  | leaf type =>
      intro counted pieces value form writable
      obtain ⟨written, again⟩ := leafForm_shortest form writable
      exact ⟨fun path => mapError_eq_ok_iff.mpr written, again⟩
  | @mapping fields nonempty distinct each ih =>
      rintro counted pieces value ⟨collected, form, rfl⟩ writable
      -- The fields have been sorted into entries, where writing looks them up by their names.
      have collectedDistinct : (collected.map Prod.fst).Nodup := by rwa [form.names]
      have held : ∀ entry ∈ collected, (entriesOf collected).lookup entry.1 = some entry.2 := by
        intro entry member
        rw [lookup_entriesOf collectedDistinct, lookup_of_mem collectedDistinct member]
      obtain ⟨written, again⟩ := rewrites_fields ih form writable held
      exact ⟨written, collected, again, rfl⟩
  | @sequence heads tail each last ih lastIh =>
      rintro counted pieces value
        ⟨first, items, count, rest, others, headsForm, number, itemsForm, rfl, rfl⟩ writable
      obtain ⟨firstWritable, writable⟩ := List.forall_mem_append.mp writable
      obtain ⟨-, restWritable⟩ := List.forall_mem_append.mp writable
      obtain ⟨headsWritten, headsAgain⟩ := rewrites_heads ih headsForm firstWritable others
      obtain ⟨countWritten, countAgain⟩ := countForm_shortest number
      obtain ⟨itemsWritten, itemsAgain⟩ := rewrites_items lastIh itemsForm restWritable
      rw [shortest_append, shortest_append]
      refine ⟨fun path => ?_, _, _, _, _, _, headsAgain, countAgain, itemsAgain, rfl, rfl⟩
      have long : heads.length ≤ (items ++ others).length := by
        rw [List.length_append, headsForm.length_eq]
        exact Nat.le_add_right _ _
      have dropped : (items ++ others).drop heads.length = others := by
        rw [← headsForm.length_eq, List.drop_left]
      rw [writeLayout, if_pos long, dropped, joined_append, joined_append, countWritten]
      exact bind_eq_ok_iff.mpr ⟨_, headsWritten path 0,
        bind_pure_eq_ok_iff.mpr ⟨_, itemsWritten path heads.length, rfl⟩⟩

/-- A decoded value is encoded again without the guard, and decoded from that as before. The bytes
are no more than before, and the same exactly if every piece of them is canonical. -/
theorem encode_of_decode {aliases : AliasTable} {definition : Definition} {plan : Plan}
    (compiled : definition.compile aliases = .ok plan) {options : Options} {bytes : List UInt8}
    (bounded : bytes.length < 2 ^ 63) {value : Value}
    (decoded : decode ⟨plan, options⟩ bytes = .ok value) :
    ∃ layout, definition.layout aliases = .ok layout ∧
      (∃ pieces, LayoutForm options.encoding false layout pieces value ∧ joined pieces = bytes) ∧
      ∀ pieces, LayoutForm options.encoding false layout pieces value → joined pieces = bytes →
        (∀ piece ∈ pieces, piece.Writable options.encoding) →
          ∃ again, encode ⟨plan, options.encoding, false⟩ value = .ok again ∧
            decode ⟨plan, options⟩ again = .ok value ∧ again.length ≤ bytes.length ∧
              (again = bytes ↔ ∀ piece ∈ pieces, piece.Canonical) := by
  obtain ⟨layout, laidOut, rfl⟩ := Definition.compile_eq_ok_iff.mp compiled
  have wellFormed := Definition.layout_wellFormed laidOut
  refine ⟨layout, laidOut, (decode_eq_ok_iff_form wellFormed bounded).mp decoded, ?_⟩
  rintro pieces form rfl writable
  obtain ⟨written, again⟩ := rewrites options.encoding wellFormed form writable
  have shorter := length_joined_shortest_le pieces
  have decodedAgain := (decode_eq_ok_iff_form wellFormed (Nat.lt_of_le_of_lt shorter bounded)).mpr
    ⟨_, again, rfl⟩
  exact ⟨_, encode_lax (written []), decodedAgain, shorter, joined_shortest_eq_iff pieces⟩

theorem encode_of_decode_slack :
    decode ⟨Layout.plan (.mapping [("number", .leaf .varuint), ("on", .leaf .boolean)]), .ascii,
        true⟩ [133, 0, 7] = .ok (.mapping [("number", .integer 5), ("on", .boolean true)]) ∧
    ∃ again, encode ⟨Layout.plan (.mapping [("number", .leaf .varuint), ("on", .leaf .boolean)]),
        .ascii, false⟩ (.mapping [("number", .integer 5), ("on", .boolean true)]) = .ok again ∧
      again.length ≤ 3 ∧ again ≠ [133, 0, 7] := by
  have compiled : (Definition.mapping [("on", .type "boolean"), ("number", .type "varuint")]).compile
      .initial = .ok (Layout.plan
        (.mapping [("number", .leaf .varuint), ("on", .leaf .boolean)])) := rfl
  have decoded : decode ⟨Layout.plan
      (.mapping [("number", .leaf .varuint), ("on", .leaf .boolean)]), .ascii, true⟩ [133, 0, 7] =
        .ok (.mapping [("number", .integer 5), ("on", .boolean true)]) := rfl
  have denotes : Wire.Denotes [133, 0] 5 := ⟨rfl, by decide, rfl⟩
  obtain ⟨layout, laidOut, -, each⟩ := encode_of_decode compiled (by decide) decoded
  cases laidOut
  obtain ⟨again, encoded, -, shorter, same⟩ := each [.groups [133, 0] 5 denotes, .boolean 7]
    ⟨_, ⟨_, _, _, _, ⟨5, ⟨_, denotes, rfl⟩, rfl⟩, ⟨_, _, _, _, ⟨7, rfl, rfl⟩, ⟨rfl, rfl⟩, rfl, rfl⟩,
      rfl, rfl⟩, rfl⟩ rfl (by simp [Piece.Writable])
  refine ⟨decoded, again, encoded, shorter, fun unchanged => ?_⟩
  have canonical := same.mp unchanged (.boolean 7) (by simp)
  rcases canonical with zero | one
  · cases zero
  · cases one

end SchemaWire.Codec
