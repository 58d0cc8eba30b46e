import SchemaWire.Codec.Leaf
import SchemaWire.Proofs.Floating.Widening
import SchemaWire.Proofs.Schema.Layout
import SchemaWire.Proofs.Value.Entries
import SchemaWire.Proofs.Wire.Text

/-!
# Canonical values

The value that stands for a value after it has been written and read: only the fields of the schema,
and at every leaf the number, text or bytes that were written. A value of exactly the shape of the
schema with canonical leaves stands for itself.
-/

set_option autoImplicit false

namespace SchemaWire.Codec

open Floating (Binary32 Binary64)
open Outcome
open Schema (Layout)
open Wire (canonicalText)

/-! ## The canonical form -/

/-- The integer of a signed type of a width with the same low bytes. -/
def wrapSigned (width : Nat) (number : Int64) : Int64 :=
  .ofInt (number.toInt.bmod (256 ^ width))

def wrapUnsigned (width : Nat) (number : Int64) : Int64 :=
  .ofInt (number.toInt % (256 ^ width : Nat))

def canonicalInteger (wrap : Int64 → Int64) (value : Value) : Except LeafFault Value := do
  let number ← toInteger value
  return .integer (wrap number)

/-- A value as a leaf: converted to the kind of the type and reduced to what it can hold. -/
def canonicalLeaf (encoding : TextEncoding) (type : Primitive) (value : Value) :
    Except LeafFault Value :=
  match type with
  | .boolean => do
    let truth ← toBoolean value
    return .boolean truth
  | .int8 => canonicalInteger (wrapSigned 1) value
  | .uint8 => canonicalInteger (wrapUnsigned 1) value
  | .int16 => canonicalInteger (wrapSigned 2) value
  | .uint16 => canonicalInteger (wrapUnsigned 2) value
  | .int32 => canonicalInteger (wrapSigned 4) value
  | .uint32 => canonicalInteger (wrapUnsigned 4) value
  | .varuint | .varint => canonicalInteger id value
  | .float32 => do
    let number ← toFloat value
    return .float number.narrow.widen
  | .float64 => do
    let number ← toFloat value
    return .float number
  | .string => do
    let text ← toText value
    return .text (canonicalText encoding text)
  | .buffer => do
    let bytes ← toBytes value
    return .bytes bytes

mutual

/-- The canonical form of a value, if it has the shape of the layout. -/
def canonicalValue? (encoding : TextEncoding) (value : Value) : Layout → Option Value
  | .leaf type => (canonicalLeaf encoding type value).toOption
  | .mapping fields =>
    match value with
    | .mapping entries => (canonicalFields? encoding entries fields).map .ofFields
    | _ => none
  | .sequence heads tail =>
    match value with
    | .sequence items => do
      let first ← canonicalHeads? encoding items heads
      let others ← (items.drop heads.length).mapM fun item => canonicalValue? encoding item tail
      return .sequence (first ++ others)
    | _ => none

def canonicalFields? (encoding : TextEncoding) (entries : List (String × Value)) :
    List (String × Layout) → Option (List (String × Value))
  | [] => some []
  | (name, layout) :: rest => do
    let value ← entries.lookup name
    let first ← canonicalValue? encoding value layout
    let others ← canonicalFields? encoding entries rest
    return (name, first) :: others

def canonicalHeads? (encoding : TextEncoding) (items : List Value) :
    List Layout → Option (List Value)
  | [] => some []
  | layout :: rest => do
    let value ← items.head?
    let first ← canonicalValue? encoding value layout
    let others ← canonicalHeads? encoding items.tail rest
    return first :: others

end

/-! ## Canonical values -/

def SignedLeaf (width : Nat) (value : Value) : Prop :=
  ∃ number : Int64, value = .integer number ∧
    -(256 ^ width : Nat) ≤ number.toInt * 2 ∧ number.toInt * 2 < (256 ^ width : Nat)

def UnsignedLeaf (width : Nat) (value : Value) : Prop :=
  ∃ number : Int64, value = .integer number ∧ 0 ≤ number.toInt ∧ number.toInt < (256 ^ width : Nat)

/-- A value of the kind of a type that the type can hold. -/
def CanonicalLeaf (encoding : TextEncoding) (type : Primitive) (value : Value) : Prop :=
  match type with
  | .boolean => ∃ truth, value = .boolean truth
  | .int8 => SignedLeaf 1 value
  | .uint8 => UnsignedLeaf 1 value
  | .int16 => SignedLeaf 2 value
  | .uint16 => UnsignedLeaf 2 value
  | .int32 => SignedLeaf 4 value
  | .uint32 => UnsignedLeaf 4 value
  | .varuint | .varint => ∃ number, value = .integer number
  | .float32 => ∃ number : Binary32, value = .float number.widen
  | .float64 => ∃ number, value = .float number
  | .string => ∃ text : String, value = .text text ∧
    (encoding = .hex → ∀ c ∈ text.toList, c.isUpper = false)
  | .buffer => ∃ bytes, value = .bytes bytes

/-- A value of exactly the shape of a layout with canonical leaves. -/
inductive CanonicalValue (encoding : TextEncoding) : Layout → Value → Prop where
  | leaf {type : Primitive} {value : Value} (canonical : CanonicalLeaf encoding type value) :
      CanonicalValue encoding (.leaf type) value
  | mapping {fields : List (String × Layout)} {entries : List (String × Value)}
      (ascending : Ascending entries)
      (names : ∀ name, name ∈ entries.map Prod.fst ↔ name ∈ fields.map Prod.fst)
      (each : ∀ field ∈ fields, ∀ value, entries.lookup field.1 = some value →
        CanonicalValue encoding field.2 value) :
      CanonicalValue encoding (.mapping fields) (.mapping entries)
  | sequence {heads : List Layout} {tail : Layout} {items : List Value}
      (long : heads.length ≤ items.length)
      (each : ∀ pair ∈ heads.zip items, CanonicalValue encoding pair.1 pair.2)
      (rest : ∀ item ∈ items.drop heads.length, CanonicalValue encoding tail item) :
      CanonicalValue encoding (.sequence heads tail) (.sequence items)

/-- A canonical value has ascending entries, as it has no entry but those of the layout. -/
theorem CanonicalValue.ordered {encoding : TextEncoding} {layout : Layout} {value : Value}
    (canonical : CanonicalValue encoding layout value) : value.Ordered := by
  induction canonical with
  | @leaf type value canonical =>
      cases type with
      | boolean | float32 | float64 | buffer | varuint | varint =>
          obtain ⟨datum, rfl⟩ := canonical
          constructor
      | string | int8 | uint8 | int16 | uint16 | int32 | uint32 =>
          obtain ⟨datum, rfl, -⟩ := canonical
          constructor
  | @mapping fields entries ascending names each ih =>
      refine .mapping ascending fun entry member => ?_
      have declared : entry.1 ∈ fields.map Prod.fst := (names _).mp (List.mem_map_of_mem member)
      obtain ⟨field, inside, same⟩ := List.mem_map.mp declared
      exact ih field inside entry.2 (same ▸ lookup_of_mem ascending.nodup member)
  | @sequence heads tail items long each rest ih restIh =>
      refine .sequence fun item member => ?_
      obtain ⟨index, inside, rfl⟩ := List.getElem_of_mem member
      by_cases early : index < heads.length
      · have paired : (heads[index], items[index]) ∈ heads.zip items := by
          have zipped : index < (heads.zip items).length := by rw [List.length_zip]; omega
          exact List.getElem_zip (h := zipped) ▸ List.getElem_mem zipped
        exact ih _ paired
      · refine restIh _ (List.mem_drop_iff_getElem.mpr ⟨index - heads.length, by omega, ?_⟩)
        congr 1
        omega

theorem canonicalText_of_lower {encoding : TextEncoding} {text : String}
    (lower : encoding = .hex → ∀ c ∈ text.toList, c.isUpper = false) :
    canonicalText encoding text = text := by
  cases encoding with
  | hex =>
      have same : text.toList.map Char.toLower = text.toList := by
        refine (List.map_congr_left fun c member => ?_).trans (List.map_id _)
        have small : ¬(c.val ≥ 'A'.val ∧ c.val ≤ 'Z'.val) := by
          intro inside
          have upper : c.isUpper = true := decide_eq_true inside
          rw [lower rfl c member] at upper
          cases upper
        exact dif_neg small
      rw [canonicalText, same, String.ofList_toList]
  | utf8 | ascii | utf16le | base64 | latin1 => rfl

theorem wrapSigned_eq {width : Nat} {number : Int64}
    (least : -(256 ^ width : Nat) ≤ number.toInt * 2)
    (greatest : number.toInt * 2 < (256 ^ width : Nat)) : wrapSigned width number = number := by
  rw [wrapSigned, Int.bmod_eq_of_le_mul_two least greatest, Int64.ofInt_toInt]

theorem wrapUnsigned_eq {width : Nat} {number : Int64} (least : 0 ≤ number.toInt)
    (greatest : number.toInt < (256 ^ width : Nat)) : wrapUnsigned width number = number := by
  rw [wrapUnsigned, Int.emod_eq_of_lt least greatest, Int64.ofInt_toInt]

theorem canonicalLeaf_eq {encoding : TextEncoding} {type : Primitive} {value : Value}
    (canonical : CanonicalLeaf encoding type value) :
    canonicalLeaf encoding type value = .ok value := by
  cases type with
  | int8 | int16 | int32 =>
      obtain ⟨number, rfl, least, greatest⟩ := canonical
      exact congrArg (fun found => Except.ok (Value.integer found)) (wrapSigned_eq least greatest)
  | uint8 | uint16 | uint32 =>
      obtain ⟨number, rfl, least, greatest⟩ := canonical
      exact congrArg (fun found => Except.ok (Value.integer found)) (wrapUnsigned_eq least greatest)
  | boolean | varuint | varint | float64 | buffer =>
      obtain ⟨datum, rfl⟩ := canonical
      rfl
  | float32 =>
      obtain ⟨number, rfl⟩ := canonical
      exact congrArg (fun found => Except.ok (Value.float found)) (Floating.widen_narrow_widen number)
  | string =>
      obtain ⟨text, rfl, lower⟩ := canonical
      exact congrArg (fun found => Except.ok (Value.text found)) (canonicalText_of_lower lower)

theorem canonicalFields?_eq {encoding : TextEncoding} {entries : List (String × Value)}
    {fields : List (String × Layout)}
    (each : ∀ field ∈ fields, ∃ value, entries.lookup field.1 = some value ∧
      canonicalValue? encoding value field.2 = some value) :
    ∃ collected, canonicalFields? encoding entries fields = some collected ∧
      collected.map Prod.fst = fields.map Prod.fst ∧
        ∀ entry ∈ collected, entries.lookup entry.1 = some entry.2 := by
  induction fields with
  | nil => exact ⟨[], rfl, rfl, by simp⟩
  | cons field rest ih =>
      obtain ⟨⟨value, found, canonical⟩, others⟩ := List.forall_mem_cons.mp each
      obtain ⟨collected, success, names, held⟩ := ih others
      refine ⟨(field.1, value) :: collected, ?_, ?_, List.forall_mem_cons.mpr ⟨found, held⟩⟩
      · simp only [canonicalFields?, found, canonical, success, Option.bind_eq_bind,
          Option.bind_some, Option.pure_def]
      · rw [List.map_cons, names, List.map_cons]

theorem canonicalHeads?_eq {encoding : TextEncoding} {heads : List Layout} {items : List Value}
    (long : heads.length ≤ items.length)
    (each : ∀ pair ∈ heads.zip items, canonicalValue? encoding pair.2 pair.1 = some pair.2) :
    canonicalHeads? encoding items heads = some (items.take heads.length) := by
  induction heads generalizing items with
  | nil => rfl
  | cons head rest ih =>
      cases items with
      | nil => cases long
      | cons item others =>
          obtain ⟨first, remaining⟩ := List.forall_mem_cons.mp each
          simp only [canonicalHeads?, List.head?_cons, List.tail_cons, first,
            ih (Nat.le_of_succ_le_succ long) remaining, Option.bind_eq_bind, Option.bind_some,
            Option.pure_def, List.length_cons, List.take_succ_cons]

theorem mapM_eq_some {step : Value → Option Value} {items : List Value}
    (each : ∀ item ∈ items, step item = some item) : items.mapM step = some items := by
  induction items with
  | nil => rfl
  | cons item rest ih =>
      obtain ⟨first, others⟩ := List.forall_mem_cons.mp each
      simp only [List.mapM_cons, first, ih others, Option.bind_eq_bind, Option.bind_some,
        Option.pure_def]

/-- A canonical value stands for itself. -/
theorem canonicalValue?_eq {encoding : TextEncoding} {layout : Layout}
    (wellFormed : layout.WellFormed) {value : Value}
    (canonical : CanonicalValue encoding layout value) :
    canonicalValue? encoding value layout = some value := by
  induction canonical with
  | leaf canonical => rw [canonicalValue?, canonicalLeaf_eq canonical, Except.toOption]
  | @mapping fields entries ascending names each ih =>
      cases wellFormed with
      | mapping nonempty distinct wellFormed =>
      have present : ∀ field ∈ fields, ∃ value, entries.lookup field.1 = some value ∧
          canonicalValue? encoding value field.2 = some value := by
        intro field member
        obtain ⟨value, found⟩ :=
          exists_lookup ((names field.1).mpr (List.mem_map.mpr ⟨field, member, rfl⟩))
        exact ⟨value, found, ih field member value found (wellFormed field member)⟩
      obtain ⟨collected, success, collectedNames, held⟩ := canonicalFields?_eq present
      have collectedDistinct : (collected.map Prod.fst).Nodup := by rwa [collectedNames]
      -- The fields come in the order of the layout, the entries in that of their names.
      have same : entriesOf collected = entries := by
        refine (ascending_entriesOf collected).ext ascending fun name => ?_
        rw [lookup_entriesOf collectedDistinct]
        by_cases inside : name ∈ collected.map Prod.fst
        · obtain ⟨entry, member, rfl⟩ := List.mem_map.mp inside
          rw [held entry member, lookup_of_mem collectedDistinct member]
        · have outside : name ∉ entries.map Prod.fst := by rwa [names, ← collectedNames]
          rw [lookup_eq_none inside, lookup_eq_none outside]
      rw [canonicalValue?, success, Option.map_some, Value.ofFields, same]
  | @sequence heads tail items long each rest ih restIh =>
      cases wellFormed with
      | sequence wellFormed last =>
      have first := canonicalHeads?_eq long fun pair member =>
        ih pair member (wellFormed _ (List.of_mem_zip member).1)
      have others := mapM_eq_some fun item member => restIh item member last
      simp only [canonicalValue?, first, others, Option.bind_eq_bind, Option.bind_some,
        Option.pure_def, List.take_append_drop]

end SchemaWire.Codec
