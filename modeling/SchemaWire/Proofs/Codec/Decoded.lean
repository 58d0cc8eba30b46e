import Mathlib.Data.List.Forall2
import SchemaWire.Proofs.Codec.CanonicalValue
import SchemaWire.Proofs.Codec.Delimiting
import SchemaWire.Proofs.Wire.Outcomes

/-!
# What is read

A value that is read is canonical, whatever the bytes are, and what is not read is refused for an
error in the bytes. Every value takes a byte.
-/

set_option autoImplicit false

namespace SchemaWire.Codec

open Schema (Layout)
open Wire (Read)

/-! ## Leaves -/

theorem ensures_readSigned {width : Nat} (positive : 0 < width) (small : width ≤ 4) :
    Read.Ensures (readSigned width) (SignedLeaf width) := by
  refine (Read.Ensures.fixed width).map fun number bounded => ?_
  have word : 256 ^ width ≤ 256 ^ 4 := Nat.pow_le_pow_right (by decide) small
  have half : 2 ∣ 256 ^ width := Nat.dvd_trans (by decide : 2 ∣ 256 ^ 1)
    (Nat.pow_dvd_pow 256 positive)
  have limit : ((256 : Int) ^ width) = (256 ^ width : Nat) := (Int.natCast_pow 256 width).symm
  have least : -(256 ^ width : Nat) ≤ Wire.signed width number * 2 := by
    unfold Wire.signed
    split <;> omega
  have greatest : Wire.signed width number * 2 < (256 ^ width : Nat) := by
    unfold Wire.signed
    split <;> omega
  have same : (Int64.ofInt (Wire.signed width number)).toInt = Wire.signed width number :=
    Int64.toInt_ofInt_of_le (by omega) (by omega)
  exact ⟨_, rfl, by rwa [same], by rwa [same]⟩

theorem ensures_readUnsigned {width : Nat} (small : width ≤ 4) :
    Read.Ensures (readUnsigned width) (UnsignedLeaf width) := by
  refine (Read.Ensures.fixed width).map fun number bounded => ?_
  have word : 256 ^ width ≤ 256 ^ 4 := Nat.pow_le_pow_right (by decide) small
  have same : (Int64.ofNat number).toInt = number := Int64.toInt_ofNat_of_lt (by omega)
  exact ⟨_, rfl, by omega, by omega⟩

theorem ensures_readLeaf (encoding : TextEncoding) (type : Primitive) :
    Read.Ensures (readLeaf encoding type) (CanonicalLeaf encoding type) := by
  cases type with
  | boolean => exact Read.Ensures.byte.map fun byte _ => ⟨_, rfl⟩
  | int8 | int16 | int32 => exact ensures_readSigned (by decide) (by decide)
  | uint8 | uint16 | uint32 => exact ensures_readUnsigned (by decide)
  | float32 => exact Read.Ensures.binary32.map fun number _ => ⟨number, rfl⟩
  | float64 => exact Read.Ensures.binary64.map fun number _ => ⟨number, rfl⟩
  | varuint => exact Read.Ensures.varuint.map fun number _ => ⟨_, rfl⟩
  | varint => exact Read.Ensures.varint.map fun number _ => ⟨number, rfl⟩
  | string => exact (Read.Ensures.text encoding).map fun text lower => ⟨text, rfl, lower⟩
  | buffer => exact Read.Ensures.prefixed.map fun bytes _ => ⟨bytes, rfl⟩

/-! ## Children -/

/-- An entry is filed under the name of its field and is a value of this field. -/
def EntryOf (encoding : TextEncoding) (field : String × Layout) (entry : String × Value) : Prop :=
  field.1 = entry.1 ∧ CanonicalValue encoding field.2 entry.2

theorem ensures_readFields {encoding : TextEncoding} {fields : List (String × Layout)}
    (each : ∀ field ∈ fields,
      Read.Ensures (readLayout encoding true field.2) (CanonicalValue encoding field.2)) :
    Read.Ensures (readFields encoding fields) (List.Forall₂ (EntryOf encoding) fields) := by
  induction fields with
  | nil => exact .pure .nil
  | cons field rest ih =>
      obtain ⟨first, others⟩ := List.forall_mem_cons.mp each
      exact first.bind fun value canonical => (ih others).map fun entries remaining =>
        .cons ⟨rfl, canonical⟩ remaining

theorem ensures_readHeads {encoding : TextEncoding} {heads : List Layout}
    (each : ∀ head ∈ heads,
      Read.Ensures (readLayout encoding true head) (CanonicalValue encoding head)) :
    Read.Ensures (readHeads encoding heads) (List.Forall₂ (CanonicalValue encoding) heads) := by
  induction heads with
  | nil => exact .pure .nil
  | cons head rest ih =>
      obtain ⟨first, others⟩ := List.forall_mem_cons.mp each
      exact first.bind fun value canonical => (ih others).map fun items remaining =>
        .cons canonical remaining

theorem ensures_readCount : Read.Ensures readCount fun _ => True := by
  rw [readCount_eq]
  refine Read.Ensures.varuint.bind fun declared _ => ?_
  refine (Read.Ensures.checkedLength declared).bind fun count _ => ⟨fun _ => trivial, ?_⟩
  intro reader next e failure
  rw [remainingAtLeast_apply] at failure
  split at failure
  · cases failure
    exact trivial
  · cases failure

variable {encoding : TextEncoding}

theorem names_of_entries {fields : List (String × Layout)} {entries : List (String × Value)}
    (same : List.Forall₂ (EntryOf encoding) fields entries) :
    entries.map Prod.fst = fields.map Prod.fst := by
  induction same with
  | nil => rfl
  | cons first rest ih => simp only [List.map_cons, ih, first.1]

theorem canonical_of_lookup {fields : List (String × Layout)} {entries : List (String × Value)}
    (distinct : (fields.map Prod.fst).Nodup)
    (same : List.Forall₂ (EntryOf encoding) fields entries) :
    ∀ field ∈ fields, ∀ value, entries.lookup field.1 = some value →
      CanonicalValue encoding field.2 value := by
  induction same with
  | nil => simp
  | @cons first entry fields entries head rest ih =>
      obtain ⟨fresh, distinct⟩ := List.nodup_cons.mp distinct
      intro field member value found
      rcases List.mem_cons.mp member with rfl | member
      · rw [head.1, lookup_cons_self] at found
        cases found
        exact head.2
      · have different : field.1 ≠ entry.1 := by
          intro clash
          rw [head.1, ← clash] at fresh
          exact fresh (List.mem_map.mpr ⟨field, member, rfl⟩)
        rw [lookup_cons_of_ne different] at found
        exact ih distinct field member value found

theorem canonical_ofFields {fields : List (String × Layout)} {entries : List (String × Value)}
    (distinct : (fields.map Prod.fst).Nodup)
    (same : List.Forall₂ (EntryOf encoding) fields entries) :
    CanonicalValue encoding (.mapping fields) (.ofFields entries) := by
  have names := names_of_entries same
  have entriesDistinct : (entries.map Prod.fst).Nodup := names ▸ distinct
  refine .mapping (ascending_entriesOf entries) (fun name => ?_) fun field member value found => ?_
  · rw [← names, mem_names_iff, mem_names_iff, lookup_entriesOf entriesDistinct]
  · rw [lookup_entriesOf entriesDistinct] at found
    exact canonical_of_lookup distinct same field member value found

theorem canonical_append {heads : List Layout} {tail : Layout} {items others : List Value}
    (first : List.Forall₂ (CanonicalValue encoding) heads items)
    (rest : ∀ item ∈ others, CanonicalValue encoding tail item) :
    CanonicalValue encoding (.sequence heads tail) (.sequence (items ++ others)) := by
  have length := first.length_eq
  refine .sequence ?_ ?_ ?_
  · rw [List.length_append, length]
    exact Nat.le_add_right _ _
  · have zipped : heads.zip (items ++ others) = heads.zip items := by
      have split : (heads ++ []).zip (items ++ others) = heads.zip items ++ List.zip [] others :=
        List.zip_append length
      rwa [List.append_nil, List.zip_nil_left, List.append_nil] at split
    rw [zipped]
    intro pair member
    exact (List.forall₂_iff_zip.mp first).2 member
  · rwa [length, List.drop_left]

/-! ## Layouts -/

/-- What is read has exactly the shape of the layout and canonical leaves. -/
theorem ensures_readLayout (encoding : TextEncoding) {layout : Layout}
    (wellFormed : layout.WellFormed) : ∀ counted : Bool,
      Read.Ensures (readLayout encoding counted layout) (CanonicalValue encoding layout) := by
  induction wellFormed with
  | leaf type =>
      intro counted
      exact ⟨fun success => .leaf ((ensures_readLeaf encoding type).ok success),
        (ensures_readLeaf encoding type).error⟩
  | mapping nonempty distinct each ih =>
      intro counted
      exact (ensures_readFields fun field member => ih field member true).map fun entries same =>
        canonical_ofFields distinct same
  | sequence each last ih lastIh =>
      intro counted
      refine (ensures_readHeads fun head member => ih head member true).bind fun items first => ?_
      cases counted with
      | true =>
          exact ensures_readCount.bind fun count _ => ((lastIh true).times count).map
            fun others rest => canonical_append first rest
      | false => exact (lastIh true).toEnd.map fun others rest => canonical_append first rest

/-! ## Size -/

theorem advances_readLeaf (encoding : TextEncoding) (type : Primitive) :
    Read.Advances (readLeaf encoding type) := by
  cases type with
  | boolean => exact ((Read.Advances.fixed (by decide)).map _).map _
  | int8 | uint8 | int16 | uint16 | int32 | uint32 =>
      exact (Read.Advances.fixed (by decide)).map _
  | float32 | float64 => exact ((Read.Advances.fixed (by decide)).map _).map _
  | varuint => exact Read.Advances.varuint.map _
  | varint => exact (Read.Advances.varuint.map _).map _
  | string => exact (Read.Advances.text encoding).map _
  | buffer => exact Read.Advances.prefixed.map _

theorem advances_readCount : Read.Advances readCount := by
  rw [readCount_eq]
  exact Read.Advances.varuint.bind fun declared =>
    (Read.Local.checkedLength declared).bind fun count => local_remainingAtLeast count

/-- Every value but a sequence to the end takes a byte: a mapping has a field, a sequence a count. -/
theorem advances_readLayout (encoding : TextEncoding) {layout : Layout}
    (wellFormed : layout.WellFormed) : Read.Advances (readLayout encoding true layout) := by
  induction wellFormed with
  | leaf type => exact advances_readLeaf encoding type
  | @mapping fields nonempty distinct each ih =>
      cases fields with
      | nil => exact absurd rfl nonempty
      | cons field rest =>
          have others := local_readFields fun (field : String × Layout) (_ : field ∈ rest) =>
            local_readLayout encoding field.2
          exact ((ih field List.mem_cons_self).bind fun _ => others.bind fun _ => .pure _).map _
  | @sequence heads tail each last ih lastIh =>
      have first := local_readHeads fun (head : Layout) (_ : head ∈ heads) =>
        local_readLayout encoding head
      refine .after first fun items => advances_readCount.bind fun count => ?_
      exact ((local_readLayout encoding tail).times count).bind fun _ => .pure _

end SchemaWire.Codec
