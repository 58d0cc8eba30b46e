import SchemaWire.DataModel.Transfer
import SchemaWire.Proofs.Codec.FirstRefusal
import SchemaWire.Proofs.DataModel.RoundTrip

/-!
# Typed data through bytes and back

Typed data whose value fits a schema are read back from the bytes that are written for them. Without
the guard this holds for every datum, as integers past the signed range wrap around on both ways;
with the guard such integers are refused where the schema asks for unsigned ones of any size.
-/

set_option autoImplicit false

namespace SchemaWire.DataModel

open Codec (Fits FirstNegative LeafAt NegativeAt Path layoutAt? valueAt?)
open Outcome
open Schema (AliasTable Definition Layout Plan)

/-! ## Parts of data -/

/-- The keys of a path lead to a part of a datum. Optional values and new names of types have no
keys. -/
inductive Data.Holds : Data → Path → Data → Prop where
  | self (x : Data) : Holds x [] x
  | present {x part : Data} {path : Path} (inner : x.Holds path part) : Holds (.present x) path part
  | newtypeStruct (name : String) {x part : Data} {path : Path} (inner : x.Holds path part) :
      Holds (.newtypeStruct name x) path part
  | sequence (announced : Bool) {items : List Data} {index : Nat} {x part : Data} {path : Path}
      (found : items[index]? = some x) (inner : x.Holds path part) :
      Holds (.sequence announced items) (.index index :: path) part
  | tuple {items : List Data} {index : Nat} {x part : Data} {path : Path}
      (found : items[index]? = some x) (inner : x.Holds path part) :
      Holds (.tuple items) (.index index :: path) part
  | tupleStruct (name : String) {items : List Data} {index : Nat} {x part : Data} {path : Path}
      (found : items[index]? = some x) (inner : x.Holds path part) :
      Holds (.tupleStruct name items) (.index index :: path) part
  | mapping (announced : Bool) {entries : List (Data × Data)} {key : String} {x part : Data}
      {path : Path} (found : (.text key, x) ∈ entries) (inner : x.Holds path part) :
      Holds (.mapping announced entries) (.field key :: path) part
  | record (name : String) {fields : List (String × Data)} {field : String} {x part : Data}
      {path : Path} (found : (field, x) ∈ fields) (inner : x.Holds path part) :
      Holds (.record name fields) (.field field :: path) part

/-- The part of a datum at a path is an integer with this wrapped form. -/
def Data.HoldsInteger (x : Data) (path : Path) (wrapped : Int64) : Prop :=
  ∃ type number contained, x.Holds path (.integer type number contained) ∧
    Int64.ofInt number = wrapped

theorem Data.HoldsInteger.lift {x y : Data} {path place : Path} {wrapped : Int64}
    (holds : x.HoldsInteger path wrapped)
    (inside : ∀ {part : Data}, x.Holds path part → y.Holds place part) :
    y.HoldsInteger place wrapped := by
  obtain ⟨type, number, contained, held, same⟩ := holds
  exact ⟨type, number, contained, inside held, same⟩

/-- At a leaf for unsigned integers of any size the datum has a negative integer or one past the
signed range. -/
structure Data.OverstepsAt (x : Data) (layout : Layout) (path : Path) (number : Int) : Prop where
  declared : layoutAt? path layout = some (.leaf .varuint)
  held : ∃ type contained, x.Holds path (.integer type number contained)
  outside : number < 0 ∨ 2 ^ 63 ≤ number

/-- No other such leaf comes before this one. -/
structure Data.FirstOverstep (x : Data) (layout : Layout) (path : Path) (number : Int) : Prop where
  overstepsAt : x.OverstepsAt layout path number
  first {other : Path} {found : Int} : x.OverstepsAt layout other found → ¬other.Before path

/-! ## Parts of collected values -/

theorem ofInt_lt_zero_iff {type : IntegerType} {number : Int} (contained : type.Contains number) :
    Int64.ofInt number < 0 ↔ number < 0 ∨ 2 ^ 63 ≤ number := by
  have bounds : -2 ^ 63 ≤ number ∧ number < 2 ^ 64 := by
    obtain ⟨least, greatest⟩ := contained
    cases type <;> simp only [IntegerType.least, IntegerType.greatest] at least greatest <;> omega
  have wrapped : (Int64.ofInt number).toInt = number.bmod (2 ^ 64) := Int64.toInt_ofInt
  rw [Int64.lt_iff_toInt_lt, Int64.toInt_zero, wrapped, Int.bmod_def]
  split <;> omega

theorem ofNat_index_not_neg (index : UInt32) : ¬Int64.ofNat index.toNat < 0 := by
  have small := index.toNat_lt
  have same : (Int64.ofNat index.toNat).toInt = index.toNat := Int64.toInt_ofNat_of_lt (by omega)
  rw [Int64.lt_iff_toInt_lt, Int64.toInt_zero, same]
  omega

variable {x : Data} {shape : Shape} {path : Path}

theorem collected_present (x : Data) : (Data.present x).collected = x.collected := by
  rw [Data.collected, Data.toValue, Data.collected]

theorem collected_newtypeStruct (name : String) (x : Data) :
    (Data.newtypeStruct name x).collected = x.collected := by
  rw [Data.collected, Data.toValue, Data.collected]

theorem valueAt?_items (items : List Data) (index : Nat) (rest : Path) :
    valueAt? (.index index :: rest) (.sequence (items.map Data.collected)) =
      items[index]?.bind fun x => valueAt? rest x.collected := by
  rw [valueAt?, List.getElem?_map, Option.bind_map]
  rfl

theorem valueAt?_fields {xs : List (String × Data)} (distinct : (xs.map Prod.fst).Nodup)
    (name : String) (rest : Path) :
    valueAt? (.field name :: rest) (.mapping (entriesOf (collectedFields xs))) =
      (xs.lookup name).bind fun x => valueAt? rest x.collected := by
  rw [valueAt?, lookup_entriesOf (by rwa [names_collectedFields]), lookup_collectedFields,
    Option.bind_map]
  rfl

theorem exists_item_of_valueAt? {items : List Data} {wrapped : Int64}
    (found : valueAt? path (.sequence (items.map Data.collected)) = some (.integer wrapped)) :
    ∃ index rest x, path = .index index :: rest ∧ items[index]? = some x ∧
      valueAt? rest x.collected = some (.integer wrapped) := by
  cases path with
  | nil => cases found
  | cons segment rest =>
      cases segment with
      | field name => cases found
      | index index =>
          rw [valueAt?_items] at found
          obtain ⟨x, held, below⟩ := Option.bind_eq_some_iff.mp found
          exact ⟨index, rest, x, rfl, held, below⟩

theorem exists_field_of_valueAt? {xs : List (String × Data)} (distinct : (xs.map Prod.fst).Nodup)
    {wrapped : Int64}
    (found : valueAt? path (.mapping (entriesOf (collectedFields xs))) = some (.integer wrapped)) :
    ∃ name rest x, path = .field name :: rest ∧ xs.lookup name = some x ∧
      valueAt? rest x.collected = some (.integer wrapped) := by
  cases path with
  | nil => cases found
  | cons segment rest =>
      cases segment with
      | index index => cases found
      | field name =>
          rw [valueAt?_fields distinct] at found
          obtain ⟨x, held, below⟩ := Option.bind_eq_some_iff.mp found
          exact ⟨name, rest, x, rfl, held, below⟩

theorem eq_of_valueAt?_scalar {value found : Value} (held : valueAt? path value = some found)
    (scalar : value.IsScalar) : path = [] ∧ found = value := by
  cases path with
  | nil =>
      cases held
      exact ⟨rfl, rfl⟩
  | cons segment rest =>
      cases segment <;> cases value <;> first | cases held | cases scalar

/-- The value of a sequence, a tuple or a tuple struct whose parts have values. -/
theorem collected_of_items {items : List Data} (wrapped : x.toValue = (Data.sequence true items).toValue)
    (success : x.toValue = .ok x.collected) : x.collected = .sequence (items.map Data.collected) :=
  (toValue_sequence_eq_ok_iff.mp (wrapped.symm.trans success)).2

theorem collected_of_fields {xs : List (String × Data)} {name : String}
    (wrapped : x.toValue = (Data.record name xs).toValue) (success : x.toValue = .ok x.collected) :
    x.collected = .mapping (entriesOf (collectedFields xs)) :=
  (toValue_record_eq_ok_iff.mp (wrapped.symm.trans success)).2

theorem mem_textKeyed_iff {entries : List (String × Data)} {key : String} :
    (.text key, x) ∈ textKeyed entries ↔ (key, x) ∈ entries := by
  simp [textKeyed]

/-- A part of a datum that is an integer is found in the value, past the signed range in its wrapped
form. -/
theorem Shape.Describes.valueAt?_of_holds (described : shape.Describes x) {type : IntegerType}
    {number : Int} {contained : type.Contains number} :
    ∀ {path : Path}, x.Holds path (.integer type number contained) →
      valueAt? path x.collected = some (.integer (Int64.ofInt number)) := by
  have success := described.restores.collected
  induction described with
  | boolean | single | double | char | text | bytes | unitVariant =>
      intro path holds
      cases holds
  | integer =>
      intro path holds
      cases holds
      rfl
  | @present _ x inner ih =>
      intro path holds
      cases holds with
      | present inside =>
          rw [collected_present]
          exact ih inner.restores.collected inside
  | @newtypeStruct name _ x inner ih =>
      intro path holds
      cases holds with
      | newtypeStruct _ inside =>
          rw [collected_newtypeStruct]
          exact ih inner.restores.collected inside
  | sequence each ih =>
      intro path holds
      cases holds with
      | sequence _ found inside =>
          rw [collected_of_items rfl success, valueAt?_items, found, Option.bind_some]
          exact ih found (each found).restores.collected inside
  | @tuple elements items lengths each ih =>
      intro path holds
      cases holds with
      | tuple found inside =>
          obtain ⟨shape, known⟩ := exists_shape lengths found
          rw [collected_of_items (toValue_tuple items) success, valueAt?_items, found,
            Option.bind_some]
          exact ih known found (each known found).restores.collected inside
  | @tupleStruct name elements items lengths each ih =>
      intro path holds
      cases holds with
      | tupleStruct _ found inside =>
          obtain ⟨shape, known⟩ := exists_shape lengths found
          rw [collected_of_items (toValue_tupleStruct name items) success, valueAt?_items, found,
            Option.bind_some]
          exact ih known found (each known found).restores.collected inside
  | mapping ascending each ih =>
      intro path holds
      cases holds with
      | mapping _ found inside =>
          have held := lookup_of_mem ascending.nodup (mem_textKeyed_iff.mp found)
          rw [collected_of_fields (toValue_mapping _ _ "") success,
            valueAt?_fields ascending.nodup, held, Option.bind_some]
          exact ih held (each held).restores.collected inside
  | record name missing distinct names each ih =>
      intro path holds
      cases holds with
      | record _ found inside =>
          have held := lookup_of_mem distinct found
          obtain ⟨shape, known⟩ := exists_lookup_of_names (.of_eq names.symm) held
          rw [collected_of_fields rfl success, valueAt?_fields distinct, held, Option.bind_some]
          exact ih known held (each known held).restores.collected inside

/-- A negative integer in the value is an integer of the datum. -/
theorem Shape.Describes.holdsInteger_of_valueAt? (described : shape.Describes x) {wrapped : Int64}
    (negative : wrapped < 0) :
    ∀ {path : Path}, valueAt? path x.collected = some (.integer wrapped) →
      x.HoldsInteger path wrapped := by
  have success := described.restores.collected
  induction described with
  | boolean | single | double | char | text | bytes =>
      intro path found
      obtain ⟨-, same⟩ := eq_of_valueAt?_scalar found trivial
      cases same
  | integer type number contained =>
      intro path found
      obtain ⟨rfl, same⟩ := eq_of_valueAt?_scalar found trivial
      cases same
      exact ⟨type, number, contained, .self _, rfl⟩
  | @unitVariant name alternatives index =>
      intro path found
      obtain ⟨-, same⟩ := eq_of_valueAt?_scalar found trivial
      cases same
      exact absurd negative (ofNat_index_not_neg index)
  | present inner ih =>
      intro path found
      rw [collected_present] at found
      exact (ih inner.restores.collected found).lift .present
  | newtypeStruct name inner ih =>
      intro path found
      rw [collected_newtypeStruct] at found
      exact (ih inner.restores.collected found).lift (.newtypeStruct name)
  | sequence each ih =>
      intro path found
      rw [collected_of_items rfl success] at found
      obtain ⟨index, rest, x, rfl, held, below⟩ := exists_item_of_valueAt? found
      exact (ih held (each held).restores.collected below).lift (.sequence true held)
  | @tuple elements items lengths each ih =>
      intro path found
      rw [collected_of_items (toValue_tuple items) success] at found
      obtain ⟨index, rest, x, rfl, held, below⟩ := exists_item_of_valueAt? found
      obtain ⟨shape, known⟩ := exists_shape lengths held
      exact (ih known held (each known held).restores.collected below).lift (.tuple held)
  | @tupleStruct name elements items lengths each ih =>
      intro path found
      rw [collected_of_items (toValue_tupleStruct name items) success] at found
      obtain ⟨index, rest, x, rfl, held, below⟩ := exists_item_of_valueAt? found
      obtain ⟨shape, known⟩ := exists_shape lengths held
      exact (ih known held (each known held).restores.collected below).lift (.tupleStruct name held)
  | mapping ascending each ih =>
      intro path found
      rw [collected_of_fields (toValue_mapping _ _ "") success] at found
      obtain ⟨key, rest, x, rfl, held, below⟩ := exists_field_of_valueAt? ascending.nodup found
      exact (ih held (each held).restores.collected below).lift
        (.mapping true (mem_textKeyed_iff.mpr (mem_of_lookup held)))
  | record name missing distinct names each ih =>
      intro path found
      rw [collected_of_fields rfl success] at found
      obtain ⟨field, rest, x, rfl, held, below⟩ := exists_field_of_valueAt? distinct found
      obtain ⟨shape, known⟩ := exists_lookup_of_names (.of_eq names.symm) held
      exact (ih known held (each known held).restores.collected below).lift (.record name (mem_of_lookup held))

namespace Shape.Describes

variable {layout : Layout}

theorem negativeAt (described : shape.Describes x) {number : Int}
    (oversteps : x.OverstepsAt layout path number) :
    NegativeAt layout x.collected path (Int64.ofInt number) := by
  obtain ⟨type, contained, holds⟩ := oversteps.held
  exact ⟨⟨oversteps.declared, described.valueAt?_of_holds holds⟩,
    (ofInt_lt_zero_iff contained).mpr oversteps.outside⟩

theorem exists_overstepsAt (described : shape.Describes x) {wrapped : Int64}
    (negativeAt : NegativeAt layout x.collected path wrapped) :
    ∃ number, x.OverstepsAt layout path number ∧ Int64.ofInt number = wrapped := by
  obtain ⟨⟨declared, found⟩, negative⟩ := negativeAt
  obtain ⟨type, number, contained, holds, rfl⟩ :=
    described.holdsInteger_of_valueAt? negative found
  exact ⟨number, ⟨declared, ⟨type, contained, holds⟩, (ofInt_lt_zero_iff contained).mp negative⟩,
    rfl⟩

theorem exists_firstOverstep (described : shape.Describes x) {wrapped : Int64}
    (first : FirstNegative layout x.collected path wrapped) :
    ∃ number, x.FirstOverstep layout path number ∧ Int64.ofInt number = wrapped := by
  obtain ⟨number, overstepsAt, same⟩ := described.exists_overstepsAt first.negativeAt
  exact ⟨number, ⟨overstepsAt, fun another => first.first (described.negativeAt another)⟩, same⟩

end Shape.Describes

/-! ## Through bytes -/

/-- A datum is written, in whatever order its entries and fields are handed over, and read back from
the bytes as it was. The bound on the bytes is that of every slice of bytes in memory. -/
def Transfers (codec : Codec) (shape : Shape) (x : Data) : Prop :=
  ∃ bytes, (∀ y, x.Rearranged y → toBytes codec y = .ok bytes) ∧
    (bytes.length < 2 ^ 63 → ofBytes codec shape bytes = .ok x)

variable {codec : Codec} {value : Value} {bytes : List UInt8}

theorem toBytes_eq (collected : x.toValue = .ok value) :
    toBytes codec x = (codec.encode value).mapError .encode := by
  rw [toBytes, collected]
  rfl

theorem Shape.Describes.transfers (described : shape.Describes x)
    (encoded : codec.encode x.collected = .ok bytes)
    (decoded : bytes.length < 2 ^ 63 → codec.decode bytes = .ok x.collected) :
    Transfers codec shape x := by
  have restores := described.restores
  refine ⟨bytes, fun y rearranged => ?_, fun bounded => ?_⟩
  · rw [toBytes_eq (rearranged.toValue _ restores.collected), encoded]
    rfl
  · rw [ofBytes, decoded bounded]
    exact mapError_eq_ok_iff.mpr restores.exact

/-- Typed data whose value fits a schema go through bytes unchanged. With the guard on, the one
exception are data with a negative integer or one past the signed range at a leaf for unsigned
integers of any size: these are refused for the first such leaf. -/
theorem transfers_of_fits {aliases : AliasTable} {definition : Definition} {plan : Plan}
    (compiled : definition.compile aliases = .ok plan) {layout : Layout}
    (laidOut : definition.layout aliases = .ok layout) (described : shape.Describes x)
    (collected : x.toValue = .ok value) {encoding : TextEncoding}
    (fits : Fits encoding layout value) :
    Transfers ⟨plan, encoding, false⟩ shape x ∧
    ((∀ path number, ¬x.OverstepsAt layout path number) →
      Transfers ⟨plan, encoding, true⟩ shape x) ∧
    ((∃ path number, x.OverstepsAt layout path number) →
      ∃ path number, x.FirstOverstep layout path number ∧ ∀ y, x.Rearranged y →
        toBytes ⟨plan, encoding, true⟩ y = .error (.encode
          (.outOfRange path .varuint (.integer (Int64.ofInt number))))) := by
  obtain ⟨same, sameLaidOut, rfl⟩ := Definition.compile_eq_ok_iff.mp compiled
  cases laidOut.symm.trans sameLaidOut
  have ordered := Definition.layout_ordered laidOut
  obtain ⟨-, rfl⟩ := Data.toValue_eq_ok_iff.mp collected
  obtain ⟨bytes, written⟩ := fits.exists_written ordered.wellFormed
  have decoded := fits.decode_written ordered.wellFormed written
  refine ⟨?lax, ?strict, ?refused⟩
  case lax =>
    exact described.transfers (Codec.encode_lax written) fun bounded => decoded bounded false
  case strict =>
    intro none
    have guarded : Codec.Guarded layout x.collected := by
      refine fits.guarded_iff.mpr fun path wrapped negativeAt => ?_
      obtain ⟨number, overstepsAt, -⟩ := described.exists_overstepsAt negativeAt
      exact none path number overstepsAt
    exact described.transfers ((Codec.encode_strict_iff ordered.wellFormed).mpr ⟨written, guarded⟩)
      fun bounded => decoded bounded true
  case refused =>
    rintro ⟨path, number, overstepsAt⟩
    obtain ⟨first, wrapped, firstNegative, refused⟩ :=
      fits.encode_of_negative ordered ⟨path, _, described.negativeAt overstepsAt⟩
    obtain ⟨found, firstOverstep, rfl⟩ := described.exists_firstOverstep firstNegative
    refine ⟨first, found, firstOverstep, fun y rearranged => ?_⟩
    rw [toBytes_eq (rearranged.toValue _ collected), refused]
    rfl

/-- Numbers of 64 bits one after another. They go through bytes as they are, unless the guard is on
and one is past the signed range. -/
theorem transfers_of_fits_words :
    let shape := Shape.sequence (.integer .uint64)
    let plan := Layout.plan (.sequence [] (.leaf .varuint))
    let word := fun number contained => Data.integer .uint64 number contained
    let small := Data.sequence true [word 7 (by decide)]
    let large := Data.sequence true [word 7 (by decide), word (2 ^ 64 - 1) (by decide)]
    ofBytes ⟨plan, .hex, false⟩ shape [7, 255, 255, 255, 255, 255, 255, 255, 255, 255, 1] =
        .ok large ∧
      Transfers ⟨plan, .hex, true⟩ shape small ∧
      ∃ path number, large.FirstOverstep (.sequence [] (.leaf .varuint)) path number ∧
        toBytes ⟨plan, .hex, true⟩ large =
          .error (.encode (.outOfRange path .varuint (.integer (Int64.ofInt number)))) := by
  intro shape plan word small large
  have compiled : (Definition.sequence [.type "varuint"]).compile .initial = .ok plan := rfl
  have laidOut : (Definition.sequence [.type "varuint"]).layout .initial =
      .ok (.sequence [] (.leaf .varuint)) := rfl
  have smallDescribed : shape.Describes small := by
    refine .sequence fun {index x} found => ?_
    cases List.mem_singleton.mp (List.mem_of_getElem? found)
    exact .integer _ _ _
  have largeDescribed : shape.Describes large := by
    refine .sequence fun {index x} found => ?_
    rcases List.mem_pair.mp (List.mem_of_getElem? found) with rfl | rfl
    all_goals exact .integer _ _ _
  have fits : ∀ numbers : List Int64, Fits .hex (.sequence [] (.leaf .varuint))
      (.sequence (numbers.map Value.integer)) := by
    intro numbers
    constructor
    case canonical =>
      refine .sequence (Nat.zero_le _) (fun pair member => nomatch member) fun item member => ?_
      obtain ⟨number, -, rfl⟩ := List.mem_map.mp member
      exact .leaf ⟨number, rfl⟩
    case texts =>
      intro path text leafAt
      obtain ⟨position, rest, item, -, -, below⟩ := Codec.leafAt_sequence_iff.mp leafAt
      cases (Codec.leafAt_leaf_iff.mp below).2.1
  obtain ⟨⟨bytes, written, read⟩, -, refused⟩ :=
    transfers_of_fits compiled laidOut largeDescribed rfl (fits [7, -1])
  obtain ⟨-, transfers, -⟩ := transfers_of_fits compiled laidOut smallDescribed rfl (fits [7])
  refine ⟨?read, transfers ?small, ?refused⟩
  case read =>
    have known : toBytes ⟨plan, .hex, false⟩ large =
        .ok [7, 255, 255, 255, 255, 255, 255, 255, 255, 255, 1] := rfl
    cases known.symm.trans (written large (.refl large))
    exact read (by decide)
  case small =>
    intro path number oversteps
    obtain ⟨⟨-, found⟩, negative⟩ := smallDescribed.negativeAt oversteps
    have items : valueAt? path (.sequence ([word 7 (by decide)].map Data.collected)) =
        some (.integer (Int64.ofInt number)) := found
    obtain ⟨index, rest, x, rfl, held, below⟩ := exists_item_of_valueAt? items
    cases List.mem_singleton.mp (List.mem_of_getElem? held)
    obtain ⟨-, same⟩ := eq_of_valueAt?_scalar below trivial
    rw [Value.integer.inj same] at negative
    exact absurd negative (by decide)
  case refused =>
    have oversteps : large.OverstepsAt (.sequence [] (.leaf .varuint)) [.index 1] (2 ^ 64 - 1) :=
      ⟨rfl, ⟨.uint64, by decide, .sequence true rfl (.self _)⟩, by decide⟩
    obtain ⟨path, number, first, failure⟩ := refused ⟨_, _, oversteps⟩
    exact ⟨path, number, first, failure large (.refl large)⟩

end SchemaWire.DataModel
