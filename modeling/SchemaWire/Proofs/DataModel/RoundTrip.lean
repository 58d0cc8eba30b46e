import SchemaWire.Proofs.DataModel.Reading
import SchemaWire.Proofs.Floating.Widening
import SchemaWire.Proofs.Value.Rearranged

/-!
# Typed data through values and back

Collecting forgets optional values, new names of types, tuples, alternatives and widths. The shape
brings them back: every datum of a type without absent values and without alternatives that hold
data is read from its value as it was, in whatever order its entries and fields come.
-/

set_option autoImplicit false

namespace SchemaWire

namespace DataModel

open Floating (Binary64)
open Outcome

/-- The data of a shape: those that the described type has, with everything that is there, and
with mappings in ascending order. -/
inductive Shape.Describes : Shape → Data → Prop where
  | boolean (value : Bool) : Describes .boolean (.boolean value)
  | integer (type : IntegerType) (value : Int) (contained : type.Contains value) :
      Describes (.integer type) (.integer type value contained)
  | single {value : Floating.Binary32} (number : value.isNaN = false) :
      Describes .single (.single value)
  | double (value : Binary64) : Describes .double (.double value)
  | char (value : Char) : Describes .char (.char value)
  | text (value : String) : Describes .text (.text value)
  | bytes (value : List UInt8) : Describes .bytes (.bytes value)
  | present {shape : Shape} {x : Data} (inner : Describes shape x) :
      Describes (.option shape) (.present x)
  | newtypeStruct (name : String) {shape : Shape} {x : Data} (inner : Describes shape x) :
      Describes (.newtypeStruct name shape) (.newtypeStruct name x)
  | sequence {element : Shape} {items : List Data}
      (each : ∀ {index : Nat} {x}, items[index]? = some x → Describes element x) :
      Describes (.sequence element) (.sequence true items)
  | tuple {elements : List Shape} {items : List Data} (lengths : elements.length = items.length)
      (each : ∀ {index : Nat} {shape x}, elements[index]? = some shape → items[index]? = some x →
        Describes shape x) :
      Describes (.tuple elements) (.tuple items)
  | tupleStruct (name : String) {elements : List Shape} {items : List Data}
      (lengths : elements.length = items.length)
      (each : ∀ {index : Nat} {shape x}, elements[index]? = some shape → items[index]? = some x →
        Describes shape x) :
      Describes (.tupleStruct name elements) (.tupleStruct name items)
  | mapping {shape : Shape} {entries : List (String × Data)} (ascending : Ascending entries)
      (each : ∀ {name x}, entries.lookup name = some x → Describes shape x) :
      Describes (.mapping .text shape) (.mapping true (textKeyed entries))
  | record (name : String) (missing : Missing) {fields : List (String × Shape)}
      {xs : List (String × Data)} (distinct : (xs.map Prod.fst).Nodup)
      (names : xs.map Prod.fst = fields.map Prod.fst)
      (each : ∀ {field shape x}, fields.lookup field = some shape → xs.lookup field = some x →
        Describes shape x) :
      Describes (.record name fields missing) (.record name xs)
  | unitVariant (name : String) {alternatives : List Case} {index : UInt32} {alternative : String}
      (listed : alternatives[index.toNat]? = some ⟨alternative, false⟩) :
      Describes (.enumeration name alternatives) (.unitVariant ⟨name, index, alternative⟩)

/-! ## Scalars -/

theorem IntegerType.Contains.signed {type : IntegerType} {value : Int}
    (contained : type.Contains value) (notWord : type ≠ .uint64) :
    -2 ^ 63 ≤ value ∧ value < 2 ^ 63 := by
  obtain ⟨lower, upper⟩ := contained
  cases type with
  | uint64 => exact absurd rfl notWord
  | _ => simp only [least, greatest] at lower upper; omega

/-- An integer of any integer type is read back from 64 bits, a large unsigned one from its wrapped
form. -/
theorem extractInteger_ofInt {type : IntegerType} {value : Int} (contained : type.Contains value) :
    extractInteger type (Int64.ofInt value) = .ok (.integer type value contained) := by
  have number : (if type = .uint64 then ((Int64.ofInt value).toUInt64.toNat : Int)
      else (Int64.ofInt value).toInt) = value := by
    split
    · rename_i word
      subst word
      have wrapped : (Int64.ofInt value).toUInt64.toNat = (value % (2 ^ 64 : Nat)).toNat :=
        BitVec.toNat_ofInt value
      obtain ⟨lower, upper⟩ := contained
      simp only [IntegerType.least, IntegerType.greatest] at lower upper
      rw [wrapped]
      omega
    · rename_i notWord
      obtain ⟨lower, upper⟩ := contained.signed notWord
      exact Int64.toInt_ofInt_of_le lower upper
  unfold extractInteger
  simp only [number, dif_pos contained]

theorem extractChar_toString (c : Char) : extractChar c.toString = .ok (.char c) := by
  have single : c.toString.toList = [c] := String.toList_singleton c
  rw [extractChar, single]

theorem extractAlternative_ofNat {name : String} {alternatives : List Case} {index : UInt32}
    {alternative : String} (listed : alternatives[index.toNat]? = some ⟨alternative, false⟩) :
    extractAlternative name alternatives (Int64.ofNat index.toNat) =
      .ok (.unitVariant ⟨name, index, alternative⟩) := by
  have small : index.toNat < 2 ^ 32 := index.toNat_lt
  have number : (Int64.ofNat index.toNat).toInt = index.toNat :=
    Int64.toInt_ofNat_of_lt (by omega)
  have inside : ¬((index.toNat : Int) < 0 ∨ 2 ^ 32 ≤ (index.toNat : Int)) := by omega
  simp only [extractAlternative, number, if_neg inside, Int.toNat_natCast, listed]
  rw [UInt32.ofNat_toNat]
  rfl

/-! ## Data in their shapes -/

theorem exists_shape {elements : List Shape} {items : List Data}
    (lengths : elements.length = items.length) {index : Nat} {x : Data}
    (found : items[index]? = some x) : ∃ element, elements[index]? = some element := by
  have inside : index < items.length := (List.getElem?_eq_some_iff.mp found).1
  exact ⟨_, List.getElem?_eq_getElem (lengths ▸ inside)⟩

/-- A datum is collected, its value is read as it, and the value in any other order is read as it
in another order. -/
structure Shape.Restores (shape : Shape) (x : Data) : Prop where
  collected : x.toValue = .ok x.collected
  exact : shape.extract x.collected = .ok x
  inAnyOrder {value : Value} : x.collected.Rearranged value →
    ∃ y, shape.extract value = .ok y ∧ x.Rearranged y

namespace Shape.Restores

variable {shape element : Shape} {x : Data} {value : Value}

theorem of_value (collected : x.toValue = .ok value) (exact : shape.extract value = .ok x)
    (inAnyOrder : ∀ other, value.Rearranged other →
      ∃ y, shape.extract other = .ok y ∧ x.Rearranged y) : shape.Restores x := by
  obtain ⟨success, rfl⟩ := Data.toValue_eq_ok_iff.mp collected
  exact ⟨success, exact, fun {other} rearranged => inAnyOrder other rearranged⟩

theorem of_scalar (collected : x.toValue = .ok value) (exact : shape.extract value = .ok x)
    (scalar : value.IsScalar) : shape.Restores x := by
  refine of_value collected exact fun other rearranged => ?_
  rw [rearranged.eq_of_isScalar scalar]
  exact ⟨x, exact, .refl x⟩

theorem present (inner : shape.Restores x) : (Shape.option shape).Restores (.present x) := by
  have collected : (Data.present x).toValue = .ok x.collected := by
    rw [Data.toValue, inner.collected]
  refine of_value collected ?exact ?inAnyOrder
  case exact => exact bind_pure_eq_ok_iff.mpr ⟨x, inner.exact, rfl⟩
  case inAnyOrder =>
    intro other rearranged
    obtain ⟨y, success, related⟩ := inner.inAnyOrder rearranged
    exact ⟨.present y, bind_pure_eq_ok_iff.mpr ⟨y, success, rfl⟩, .present related⟩

theorem newtypeStruct (name : String) (inner : shape.Restores x) :
    (Shape.newtypeStruct name shape).Restores (.newtypeStruct name x) := by
  have collected : (Data.newtypeStruct name x).toValue = .ok x.collected := by
    rw [Data.toValue, inner.collected]
  refine of_value collected ?exact ?inAnyOrder
  case exact => exact bind_pure_eq_ok_iff.mpr ⟨x, inner.exact, rfl⟩
  case inAnyOrder =>
    intro other rearranged
    obtain ⟨y, success, related⟩ := inner.inAnyOrder rearranged
    exact ⟨.newtypeStruct name y, bind_pure_eq_ok_iff.mpr ⟨y, success, rfl⟩,
      .newtypeStruct name related⟩

/-- Elements that are read one by one, for a type that wraps them up. -/
theorem of_elements (elements : List Shape) {items : List Data} (wrap : List Data → Data)
    (lengths : elements.length = items.length)
    (each : ∀ {index : Nat} {element x}, elements[index]? = some element →
      items[index]? = some x → element.Restores x)
    (collects : (wrap items).toValue = (Data.sequence true items).toValue)
    (extracts : ∀ {values ys}, elements.length = values.length →
      extractEach 0 (extractorsOf elements) values = .ok ys →
        shape.extract (.sequence values) = .ok (wrap ys))
    (rearranges : ∀ {ys : List Data}, items.length = ys.length →
      (∀ {index : Nat} {x y}, items[index]? = some x → ys[index]? = some y → x.Rearranged y) →
        (wrap items).Rearranged (wrap ys)) : shape.Restores (wrap items) := by
  have collected : (wrap items).toValue = .ok (.sequence (items.map Data.collected)) := by
    rw [collects]
    refine toValue_sequence_eq_ok_iff.mpr ⟨fun item member => ?_, rfl⟩
    obtain ⟨index, found⟩ := List.mem_iff_getElem?.mp member
    obtain ⟨element, known⟩ := exists_shape lengths found
    exact (each known found).collected
  have readers : (extractorsOf elements).length = items.length := by
    rw [extractorsOf_eq_map, List.length_map, lengths]
  have reader : ∀ {index : Nat} {read : Extractor}, (extractorsOf elements)[index]? = some read →
      ∃ element, elements[index]? = some element ∧ element.extract = read := by
    intro index read known
    rwa [extractorsOf_eq_map, List.getElem?_map, Option.map_eq_some_iff] at known
  refine of_value collected ?exact ?inAnyOrder
  case exact =>
    have itemLengths : items.length = (items.map Data.collected).length := by rw [List.length_map]
    have reads : ∀ {index : Nat} {read : Extractor} {x value},
        (extractorsOf elements)[index]? = some read → items[index]? = some x →
          (items.map Data.collected)[index]? = some value → ∃ y, read value = .ok y ∧ x = y := by
      intro index read x value listed found held
      obtain ⟨element, known, rfl⟩ := reader listed
      rw [List.getElem?_map, found] at held
      cases held
      exact ⟨x, (each known found).exact, rfl⟩
    obtain ⟨ys, success, sameLength, same⟩ := exists_extractEach readers itemLengths reads 0
    have unchanged : items = ys := List.ext_getElem sameLength fun index inside otherInside =>
      same (List.getElem?_eq_getElem inside) (List.getElem?_eq_getElem otherInside)
    rw [← unchanged] at success
    exact extracts (lengths.trans itemLengths) success
  case inAnyOrder =>
    intro other rearranged
    obtain ⟨others, rfl, otherLength, values⟩ := rearranged.exists_items
    rw [List.length_map] at otherLength
    have reads : ∀ {index : Nat} {read : Extractor} {x value},
        (extractorsOf elements)[index]? = some read → items[index]? = some x →
          others[index]? = some value → ∃ y, read value = .ok y ∧ x.Rearranged y := by
      intro index read x value listed found held
      obtain ⟨element, known, rfl⟩ := reader listed
      refine (each known found).inAnyOrder (values ?_ held)
      rw [List.getElem?_map, found, Option.map_some]
    obtain ⟨ys, success, sameLength, related⟩ := exists_extractEach readers otherLength reads 0
    exact ⟨_, extracts (lengths.trans otherLength) success, rearranges sameLength related⟩

theorem sequence {items : List Data}
    (each : ∀ {index : Nat} {x}, items[index]? = some x → element.Restores x) :
    (Shape.sequence element).Restores (.sequence true items) := by
  refine of_elements (List.replicate items.length element) (Data.sequence true)
    List.length_replicate ?each rfl ?extracts (.sequence true true)
  case each =>
    intro index shape x known found
    rw [List.eq_of_mem_replicate (List.mem_of_getElem? known)]
    exact each found
  case extracts =>
    intro values ys lengths success
    refine bind_pure_eq_ok_iff.mpr ⟨ys, ?_, rfl⟩
    rw [List.length_replicate] at lengths
    rwa [extractAll_eq_extractEach _ _ 0, ← lengths, ← List.map_replicate, ← extractorsOf_eq_map]

theorem tuple {elements : List Shape} {items : List Data} (lengths : elements.length = items.length)
    (each : ∀ {index : Nat} {element x}, elements[index]? = some element →
      items[index]? = some x → element.Restores x) :
    (Shape.tuple elements).Restores (.tuple items) :=
  of_elements elements Data.tuple lengths each (toValue_tuple items)
    (fun _ success => bind_pure_eq_ok_iff.mpr ⟨_, success, rfl⟩) .tuple

theorem tupleStruct (name : String) {elements : List Shape} {items : List Data}
    (lengths : elements.length = items.length)
    (each : ∀ {index : Nat} {element x}, elements[index]? = some element →
      items[index]? = some x → element.Restores x) :
    (Shape.tupleStruct name elements).Restores (.tupleStruct name items) :=
  of_elements elements (Data.tupleStruct name) lengths each (toValue_tupleStruct name items)
    (fun _ success => bind_pure_eq_ok_iff.mpr ⟨_, success, rfl⟩) (.tupleStruct name)

/-- The value that is held for a collected field is that of its datum. -/
theorem eq_of_lookup_collected {xs : List (String × Data)} (distinct : (xs.map Prod.fst).Nodup)
    {name : String} (found : xs.lookup name = some x)
    (held : (entriesOf (collectedFields xs)).lookup name = some value) : value = x.collected := by
  rw [lookup_entriesOf (by rwa [names_collectedFields]), lookup_collectedFields, found] at held
  exact (Option.some.inj held).symm

theorem names_collected {xs : List (String × Data)} (distinct : (xs.map Prod.fst).Nodup) :
    (xs.map Prod.fst).Perm ((entriesOf (collectedFields xs)).map Prod.fst) := by
  rw [← names_collectedFields] at distinct ⊢
  exact names_entriesOf distinct

/-- What a field holds in a value whose entries come in another order. -/
theorem rearranged_of_lookup {xs : List (String × Data)} {others : List (String × Value)}
    (distinct : (xs.map Prod.fst).Nodup)
    (values : ∀ {name first second}, (entriesOf (collectedFields xs)).lookup name = some first →
      others.lookup name = some second → first.Rearranged second)
    {name : String} (found : xs.lookup name = some x) (held : others.lookup name = some value) :
    x.collected.Rearranged value := by
  obtain ⟨own, present⟩ := exists_lookup_of_names (names_collected distinct).symm found
  have rearranged := values present held
  rwa [eq_of_lookup_collected distinct found present] at rearranged

theorem mapping {entries : List (String × Data)} (ascending : Ascending entries)
    (each : ∀ {name x}, entries.lookup name = some x → shape.Restores x) :
    (Shape.mapping .text shape).Restores (.mapping true (textKeyed entries)) := by
  have distinct := ascending.nodup
  have names := names_collected distinct
  have collected : (Data.mapping true (textKeyed entries)).toValue =
      .ok (.mapping (entriesOf (collectedFields entries))) := by
    rw [toValue_mapping _ _ ""]
    exact toValue_record_eq_ok_iff.mpr
      ⟨fun entry member => (each (lookup_of_mem distinct member)).collected, rfl⟩
  refine of_value collected ?exact ?inAnyOrder
  case exact =>
    have reads : ∀ {name x value}, entries.lookup name = some x →
        (entriesOf (collectedFields entries)).lookup name = some value →
          ∃ y, shape.extract value = .ok y ∧ x = y := by
      intro name x value found held
      rw [eq_of_lookup_collected distinct found held]
      exact ⟨x, (each found).exact, rfl⟩
    obtain ⟨ys, success, sameNames, same⟩ := exists_extract_mapping distinct names reads
    -- Ascending entries are collected in their own order.
    have order : entries.map Prod.fst = ys.map Prod.fst := by
      have kept : Ascending (collectedFields entries) := List.pairwise_map.mpr ascending
      rw [sameNames, kept.entriesOf_eq, names_collectedFields]
    rwa [← ext_of_lookup distinct order same] at success
  case inAnyOrder =>
    intro other rearranged
    obtain ⟨others, rfl, otherNames, values⟩ := rearranged.exists_entries
    have reads : ∀ {name x value}, entries.lookup name = some x →
        others.lookup name = some value → ∃ y, shape.extract value = .ok y ∧ x.Rearranged y :=
      fun found held => (each found).inAnyOrder (rearranged_of_lookup distinct values found held)
    obtain ⟨ys, success, sameNames, related⟩ :=
      exists_extract_mapping distinct (names.trans otherNames) reads
    have order := (names.trans otherNames).trans (.of_eq sameNames.symm)
    exact ⟨_, success, .mapping true true distinct order related⟩

theorem record (name : String) (missing : Missing) {fields : List (String × Shape)}
    {xs : List (String × Data)} (distinct : (xs.map Prod.fst).Nodup)
    (declared : xs.map Prod.fst = fields.map Prod.fst)
    (each : ∀ {field shape x}, fields.lookup field = some shape → xs.lookup field = some x →
      shape.Restores x) : (Shape.record name fields missing).Restores (.record name xs) := by
  have names := names_collected distinct
  have collected : (Data.record name xs).toValue =
      .ok (.mapping (entriesOf (collectedFields xs))) := by
    refine toValue_record_eq_ok_iff.mpr ⟨fun entry member => ?_, rfl⟩
    have found := lookup_of_mem distinct member
    obtain ⟨shape, known⟩ := exists_lookup_of_names (.of_eq declared.symm) found
    exact (each known found).collected
  refine of_value collected ?exact ?inAnyOrder
  case exact =>
    have reads : ∀ {field shape x value}, fields.lookup field = some shape →
        xs.lookup field = some x → (entriesOf (collectedFields xs)).lookup field = some value →
          ∃ y, shape.extract value = .ok y ∧ x = y := by
      intro field shape x value known found held
      rw [eq_of_lookup_collected distinct found held]
      exact ⟨x, (each known found).exact, rfl⟩
    obtain ⟨ys, success, sameNames, same⟩ :=
      exists_extract_record distinct declared names reads name missing
    rwa [← ext_of_lookup distinct sameNames.symm same] at success
  case inAnyOrder =>
    intro other rearranged
    obtain ⟨others, rfl, otherNames, values⟩ := rearranged.exists_entries
    have reads : ∀ {field shape x value}, fields.lookup field = some shape →
        xs.lookup field = some x → others.lookup field = some value →
          ∃ y, shape.extract value = .ok y ∧ x.Rearranged y :=
      fun known found held =>
        (each known found).inAnyOrder (rearranged_of_lookup distinct values found held)
    obtain ⟨ys, success, sameNames, related⟩ :=
      exists_extract_record distinct declared (names.trans otherNames) reads name missing
    exact ⟨_, success, .record name distinct (.of_eq sameNames.symm) related⟩

end Shape.Restores

theorem Shape.Describes.restores {shape : Shape} {x : Data} (described : shape.Describes x) :
    shape.Restores x := by
  induction described with
  | boolean value => exact .of_scalar rfl rfl trivial
  | integer type value contained => exact .of_scalar rfl (extractInteger_ofInt contained) trivial
  | @single value number =>
      have narrowed : Shape.single.extract (.ofSingle value) = .ok (.single value.widen.narrow) := rfl
      rw [Floating.narrow_widen number] at narrowed
      exact .of_scalar rfl narrowed trivial
  | double value => exact .of_scalar rfl rfl trivial
  | char value => exact .of_scalar rfl (extractChar_toString value) trivial
  | text value => exact .of_scalar rfl rfl trivial
  | bytes value => exact .of_scalar rfl rfl trivial
  | present _ ih => exact ih.present
  | newtypeStruct name _ ih => exact ih.newtypeStruct name
  | sequence _ ih => exact .sequence ih
  | tuple lengths _ ih => exact .tuple lengths ih
  | tupleStruct name lengths _ ih => exact .tupleStruct name lengths ih
  | mapping ascending _ ih => exact .mapping ascending ih
  | record name missing distinct names _ ih => exact .record name missing distinct names ih
  | unitVariant name listed => exact .of_scalar rfl (extractAlternative_ofNat listed) trivial

/-- Every datum of a shape survives the way through a value: it is collected into the same value
in whatever order its entries and fields are handed over, the value is read as the very datum, and
in whatever order the entries of the value come it is read as this datum. -/
theorem extract_toValue {shape : Shape} {x : Data} (described : shape.Describes x) :
    ∃ value, (∀ y, x.Rearranged y → y.toValue = .ok value) ∧ shape.extract value = .ok x ∧
      ∀ other, value.Rearranged other → ∃ y, shape.extract other = .ok y ∧ x.Rearranged y := by
  have restores := described.restores
  exact ⟨x.collected, fun y rearranged => rearranged.toValue _ restores.collected, restores.exact,
    fun other rearranged => restores.inAnyOrder rearranged⟩

/-- A record with a word past the signed range and a mapping, handed over with its fields in the
other order. -/
theorem extract_toValue_nested :
    let shape := Shape.record "Job" [("size", .integer .uint64),
      ("marks", .mapping .text (.option (.enumeration "Mark" [⟨"Off", false⟩, ⟨"On", false⟩])))]
    let size := Data.integer .uint64 (2 ^ 64 - 1) (by decide)
    let marks := [("left", Data.present (.unitVariant ⟨"Mark", 1, "On"⟩))]
    let x := Data.record "Job" [("size", size), ("marks", .mapping true (textKeyed marks))]
    let y := Data.record "Job" [("marks", .mapping false (textKeyed marks)), ("size", size)]
    let value := Value.mapping [("marks", .mapping [("left", .integer 1)]), ("size", .integer (-1))]
    shape.Describes x ∧ x.Rearranged y ∧ y.toValue = .ok value ∧ shape.extract value = .ok x := by
  intro shape size marks x y value
  have described : shape.Describes x := by
    refine .record "Job" .refused (by decide) rfl fun {field shape x} known found => ?_
    by_cases first : field = "size"
    · subst first
      rw [lookup_cons_self] at known found
      cases known
      cases found
      exact .integer _ _ _
    · rw [lookup_cons_of_ne first] at known found
      obtain ⟨rfl, rfl⟩ := Prod.mk.inj (List.mem_singleton.mp (mem_of_lookup known))
      rw [lookup_cons_self] at found
      cases found
      refine .mapping (List.pairwise_singleton _ _) fun {name x} held => ?_
      obtain ⟨rfl, rfl⟩ := Prod.mk.inj (List.mem_singleton.mp (mem_of_lookup held))
      exact .present (.unitVariant "Mark" rfl)
  have rearranged : x.Rearranged y := by
    refine .record "Job" (by decide) (.swap _ _ _) fun {field x y} found other => ?_
    by_cases first : field = "size"
    · subst first
      rw [lookup_cons_self] at found
      rw [lookup_cons_of_ne (by decide), lookup_cons_self] at other
      cases found
      cases other
      exact .refl _
    · rw [lookup_cons_of_ne first] at found
      obtain ⟨rfl, rfl⟩ := Prod.mk.inj (List.mem_singleton.mp (mem_of_lookup found))
      rw [lookup_cons_self] at other
      cases other
      refine .mapping true false (by decide) (.refl _) fun {name x y} left right => ?_
      cases left.symm.trans right
      exact .refl x
  obtain ⟨found, collected, read, -⟩ := extract_toValue described
  have same : y.toValue = .ok value := rfl
  cases same.symm.trans (collected y rearranged)
  exact ⟨described, rearranged, same, read⟩

end DataModel

end SchemaWire
