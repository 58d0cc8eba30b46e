import SchemaWire.Proofs.Schema.Layout
import SchemaWire.Proofs.Wire.BigEndian
import SchemaWire.Proofs.Wire.Varint
import SchemaWire.Value.Basic
import SchemaWire.Wire.Text

/-!
# Forms of a value

Which bytes are read as a value, as a grammar over the layout. A form is a list of pieces, one for
each datum that is read on its own, so that what reading forgives in a datum can be told from the
bytes of the datum.
-/

set_option autoImplicit false

namespace SchemaWire.Codec

open Floating (Binary32 Binary64)
open Schema (Layout)
open Wire (Denotes)

/-! ## Pieces -/

/-- The bytes of one datum. -/
inductive Piece where
  | boolean (byte : UInt8)
  | fixed (bytes : List UInt8)
  | single (number : Binary32)
  | double (number : Binary64)
  /-- The groups of an integer, a length or a count. -/
  | groups (bytes : List UInt8) (number : UInt64) (denotes : Denotes bytes number)
  /-- The bytes of a text, without their number. -/
  | text (bytes : List UInt8)
  /-- The bytes of a buffer, without their number. -/
  | buffer (bytes : List UInt8)

def Piece.bytes : Piece → List UInt8
  | .boolean byte => [byte]
  | .fixed bytes => bytes
  | .single number => Wire.bigEndian 4 number.bits.toNat
  | .double number => Wire.bigEndian 8 number.bits.toNat
  | .groups bytes _ _ => bytes
  | .text bytes => bytes
  | .buffer bytes => bytes

def joined (pieces : List Piece) : List UInt8 :=
  pieces.flatMap Piece.bytes

theorem joined_append (first second : List Piece) :
    joined (first ++ second) = joined first ++ joined second :=
  List.flatMap_append

theorem joined_cons (piece : Piece) (rest : List Piece) :
    joined (piece :: rest) = piece.bytes ++ joined rest :=
  List.flatMap_cons

theorem joined_singleton (piece : Piece) : joined [piece] = piece.bytes :=
  List.append_nil _

/-! ## The grammar -/

def FixedForm (width : Nat) (pieces : List Piece) (number : Nat) : Prop :=
  ∃ bytes, bytes.length = width ∧ Wire.ofBigEndian bytes = number ∧ pieces = [.fixed bytes]

def GroupsForm (pieces : List Piece) (number : UInt64) : Prop :=
  ∃ (bytes : List UInt8) (denotes : Denotes bytes number), pieces = [.groups bytes number denotes]

def TextForm (encoding : TextEncoding) (pieces : List Piece) (text : String) : Prop :=
  ∃ (length bytes : List UInt8) (denotes : Denotes length (UInt64.ofNat bytes.length)),
    Wire.textOfPayload encoding bytes = .ok text ∧
      pieces = [.groups length (UInt64.ofNat bytes.length) denotes, .text bytes]

def BufferForm (pieces : List Piece) (bytes : List UInt8) : Prop :=
  ∃ (length : List UInt8) (denotes : Denotes length (UInt64.ofNat bytes.length)),
    pieces = [.groups length (UInt64.ofNat bytes.length) denotes, .buffer bytes]

def SignedForm (width : Nat) (pieces : List Piece) (value : Value) : Prop :=
  ∃ number, FixedForm width pieces number ∧
    value = .integer (Int64.ofInt (Wire.signed width number))

def UnsignedForm (width : Nat) (pieces : List Piece) (value : Value) : Prop :=
  ∃ number, FixedForm width pieces number ∧ value = .integer (Int64.ofNat number)

/-- The forms of a scalar as a leaf. -/
def LeafForm (encoding : TextEncoding) : Primitive → List Piece → Value → Prop
  | .boolean => fun pieces value =>
    ∃ byte, pieces = [.boolean byte] ∧ value = .boolean (byte != 0)
  | .int8 => SignedForm 1
  | .uint8 => UnsignedForm 1
  | .int16 => SignedForm 2
  | .uint16 => UnsignedForm 2
  | .int32 => SignedForm 4
  | .uint32 => UnsignedForm 4
  | .float32 => fun pieces value =>
    ∃ number, pieces = [.single number] ∧ value = .float number.widen
  | .float64 => fun pieces value => ∃ number, pieces = [.double number] ∧ value = .float number
  | .varuint => fun pieces value =>
    ∃ number, GroupsForm pieces number ∧ value = .integer number.toInt64
  | .varint => fun pieces value =>
    ∃ number, GroupsForm pieces (Wire.zigzag number) ∧ value = .integer number
  | .string => fun pieces value => ∃ text, TextForm encoding pieces text ∧ value = .text text
  | .buffer => fun pieces value => ∃ bytes, BufferForm pieces bytes ∧ value = .bytes bytes

inductive ItemsForm (element : List Piece → Value → Prop) : List Piece → List Value → Prop where
  | nil : ItemsForm element [] []
  | cons {first others : List Piece} {item : Value} {items : List Value}
      (head : element first item) (rest : ItemsForm element others items) :
      ItemsForm element (first ++ others) (item :: items)

def CountForm (count : Nat) : Bool → List Piece → Prop
  | false => fun pieces => pieces = []
  | true => fun pieces => GroupsForm pieces (UInt64.ofNat count)

mutual

/-- The forms of a value of a layout. -/
def LayoutForm (encoding : TextEncoding) (counted : Bool) :
    Layout → List Piece → Value → Prop
  | .leaf type => LeafForm encoding type
  | .mapping fields => fun pieces value =>
    ∃ entries, FieldsForm encoding fields pieces entries ∧ value = .ofFields entries
  | .sequence heads tail => fun pieces value =>
    ∃ first items count rest others, HeadsForm encoding heads first items ∧
      CountForm others.length counted count ∧
      ItemsForm (LayoutForm encoding true tail) rest others ∧
      pieces = first ++ (count ++ rest) ∧ value = .sequence (items ++ others)

def FieldsForm (encoding : TextEncoding) :
    List (String × Layout) → List Piece → List (String × Value) → Prop
  | [] => fun pieces entries => pieces = [] ∧ entries = []
  | (name, layout) :: rest => fun pieces entries =>
    ∃ first value others remaining, LayoutForm encoding true layout first value ∧
      FieldsForm encoding rest others remaining ∧ pieces = first ++ others ∧
      entries = (name, value) :: remaining

def HeadsForm (encoding : TextEncoding) : List Layout → List Piece → List Value → Prop
  | [] => fun pieces items => pieces = [] ∧ items = []
  | layout :: rest => fun pieces items =>
    ∃ first value others remaining, LayoutForm encoding true layout first value ∧
      HeadsForm encoding rest others remaining ∧ pieces = first ++ others ∧
      items = value :: remaining

end

/-! ## Shape -/

theorem FieldsForm.names {encoding : TextEncoding} {fields : List (String × Layout)}
    {pieces : List Piece} {entries : List (String × Value)}
    (form : FieldsForm encoding fields pieces entries) :
    entries.map Prod.fst = fields.map Prod.fst := by
  induction fields generalizing pieces entries with
  | nil =>
      obtain ⟨-, rfl⟩ := form
      rfl
  | cons field rest ih =>
      obtain ⟨first, value, others, remaining, -, form, -, rfl⟩ := form
      rw [List.map_cons, ih form, List.map_cons]

theorem HeadsForm.length_eq {encoding : TextEncoding} {heads : List Layout}
    {pieces : List Piece} {items : List Value} (form : HeadsForm encoding heads pieces items) :
    items.length = heads.length := by
  induction heads generalizing pieces items with
  | nil =>
      obtain ⟨-, rfl⟩ := form
      rfl
  | cons head rest ih =>
      obtain ⟨first, value, others, remaining, -, form, -, rfl⟩ := form
      rw [List.length_cons, ih form, List.length_cons]

/-! ## Size -/

theorem joined_ne_nil_of_mem {pieces : List Piece} {piece : Piece} (member : piece ∈ pieces)
    (nonempty : 0 < piece.bytes.length) : joined pieces ≠ [] := by
  intro empty
  have none := List.flatMap_eq_nil_iff.mp empty piece member
  rw [none] at nonempty
  exact Nat.lt_irrefl 0 nonempty

theorem GroupsForm.joined_ne_nil {pieces : List Piece} {number : UInt64}
    (spelled : GroupsForm pieces number) : joined pieces ≠ [] := by
  obtain ⟨bytes, denotes, rfl⟩ := spelled
  exact joined_ne_nil_of_mem List.mem_cons_self denotes.length_pos

theorem FixedForm.joined_ne_nil {width : Nat} (positive : 0 < width) {pieces : List Piece}
    {number : Nat} (spelled : FixedForm width pieces number) : joined pieces ≠ [] := by
  obtain ⟨bytes, rfl, -, rfl⟩ := spelled
  exact joined_ne_nil_of_mem List.mem_cons_self positive

theorem LeafForm.joined_ne_nil {encoding : TextEncoding} {type : Primitive} {pieces : List Piece}
    {value : Value} (form : LeafForm encoding type pieces value) : joined pieces ≠ [] := by
  cases type with
  | boolean | float32 | float64 =>
      obtain ⟨datum, rfl, -⟩ := form
      refine joined_ne_nil_of_mem List.mem_cons_self ?_
      simp [Piece.bytes, Wire.length_bigEndian]
  | int8 | uint8 | int16 | uint16 | int32 | uint32 =>
      obtain ⟨number, spelled, -⟩ := form
      exact spelled.joined_ne_nil (by decide)
  | varuint | varint =>
      obtain ⟨number, spelled, -⟩ := form
      exact spelled.joined_ne_nil
  | string =>
      obtain ⟨text, ⟨length, bytes, denotes, -, rfl⟩, -⟩ := form
      exact joined_ne_nil_of_mem List.mem_cons_self denotes.length_pos
  | buffer =>
      obtain ⟨bytes, ⟨length, denotes, rfl⟩, -⟩ := form
      exact joined_ne_nil_of_mem List.mem_cons_self denotes.length_pos

theorem LayoutForm.joined_ne_nil {encoding : TextEncoding} {layout : Layout}
    (wellFormed : layout.WellFormed) : ∀ {pieces : List Piece} {value : Value},
      LayoutForm encoding true layout pieces value → joined pieces ≠ [] := by
  induction wellFormed with
  | leaf type => exact LeafForm.joined_ne_nil
  | @mapping fields nonempty distinct each ih =>
      rintro pieces value ⟨entries, spelled, rfl⟩
      cases fields with
      | nil => exact absurd rfl nonempty
      | cons field rest =>
          obtain ⟨first, value, others, remaining, head, -, rfl, -⟩ := spelled
          rw [joined_append]
          exact List.append_ne_nil_of_left_ne_nil (ih field List.mem_cons_self head) _
  | sequence each last ih lastIh =>
      rintro pieces value ⟨first, items, count, rest, others, -, number, -, rfl, -⟩
      rw [joined_append, joined_append]
      exact List.append_ne_nil_of_right_ne_nil _
        (List.append_ne_nil_of_left_ne_nil (GroupsForm.joined_ne_nil number) _)

theorem ItemsForm.length_le {form : List Piece → Value → Prop}
    (nonempty : ∀ {pieces value}, form pieces value → joined pieces ≠ []) {pieces : List Piece}
    {items : List Value} (spelled : ItemsForm form pieces items) :
    items.length ≤ (joined pieces).length := by
  induction spelled with
  | nil => exact Nat.zero_le _
  | cons head rest ih =>
      have some := List.length_pos_iff.mpr (nonempty head)
      rw [joined_append, List.length_append, List.length_cons]
      omega

end SchemaWire.Codec
