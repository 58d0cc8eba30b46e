import SchemaWire.Proofs.DataModel.Refusals

/-!
# What data stand for

The value of a datum that can be collected: every value of a mapping stands under the latest key
before it, and the last value of a name counts. It is what collecting gives.
-/

set_option autoImplicit false

namespace SchemaWire.DataModel

open Outcome

/-! ## Keys and values one by one -/

def MappingPart.key? : MappingPart → Option Data
  | .key x => some x
  | .value _ => none

/-- The name that the latest key spells. -/
def latestName? (before : List MappingPart) : Option String :=
  (before.reverse.findSome? MappingPart.key?).bind Data.spelling?

/-- The part at an index is a value, and the latest key before it spells a name. -/
def BoundAt (parts : List MappingPart) (index : Nat) (name : String) (value : Data) : Prop :=
  parts[index]? = some (.value value) ∧ latestName? (parts.take index) = some name

/-- The last value that is bound to a name. -/
def LastBound (parts : List MappingPart) (name : String) (value : Data) : Prop :=
  ∃ index, BoundAt parts index name value ∧
    ∀ later other, index < later → ¬BoundAt parts later name other

/-- The keys and values of whole entries. -/
def entryParts (entries : List (Data × Data)) : List MappingPart :=
  entries.flatMap fun entry => [.key entry.1, .value entry.2]

/-- What a value is for a datum: scalars keep what they hold, new names and optional values add
nothing to it, items keep their order, and in a mapping the last value of every name counts. -/
inductive Data.StandsFor : Data → Value → Prop where
  | boolean (value : Bool) : StandsFor (.boolean value) (.boolean value)
  /-- Up to multiples of 2^64. -/
  | integer (type : IntegerType) (value : Int) (contained : type.Contains value) :
      StandsFor (.integer type value contained) (.integer (Int64.ofInt value))
  | single (value : Floating.Binary32) : StandsFor (.single value) (.ofSingle value)
  | double (value : Floating.Binary64) : StandsFor (.double value) (.float value)
  | char (value : Char) : StandsFor (.char value) (.text value.toString)
  | text (value : String) : StandsFor (.text value) (.text value)
  | bytes (value : List UInt8) : StandsFor (.bytes value) (.bytes value)
  | unitVariant (variant : Variant) :
      StandsFor (.unitVariant variant) (.integer (Int64.ofNat variant.index.toNat))
  | present {x : Data} {value : Value} (inner : StandsFor x value) : StandsFor (.present x) value
  | newtypeStruct (name : String) {x : Data} {value : Value} (inner : StandsFor x value) :
      StandsFor (.newtypeStruct name x) value
  | sequence (announced : Bool) {items : List Data} {values : List Value}
      (lengths : items.length = values.length)
      (each : ∀ {index : Nat} {x value}, items[index]? = some x → values[index]? = some value →
        StandsFor x value) :
      StandsFor (.sequence announced items) (.sequence values)
  | tuple {items : List Data} {value : Value} (inner : StandsFor (.sequence true items) value) :
      StandsFor (.tuple items) value
  | tupleStruct (name : String) {items : List Data} {value : Value}
      (inner : StandsFor (.sequence true items) value) : StandsFor (.tupleStruct name items) value
  | mappingParts {parts : List MappingPart} {entries : List (String × Value)}
      (ascending : Ascending entries)
      (names : ∀ name, (∃ value, entries.lookup name = some value) ↔
        ∃ x, LastBound parts name x)
      (each : ∀ {name x value}, LastBound parts name x → entries.lookup name = some value →
        StandsFor x value) :
      StandsFor (.mappingParts parts) (.mapping entries)
  | mapping (announced : Bool) {entries : List (Data × Data)} {value : Value}
      (inner : StandsFor (.mappingParts (entryParts entries)) value) :
      StandsFor (.mapping announced entries) value
  | record (name : String) {fields : List (String × Data)} {value : Value}
      (inner : StandsFor (.mapping true (textKeyed fields)) value) :
      StandsFor (.record name fields) value

section Parts

variable {before parts : List MappingPart} {part : MappingPart} {index : Nat} {name : String}
  {key x y : Data} {entries : List (String × Value)} {value : Value}

theorem latestName?_key : latestName? (before ++ [.key key]) = key.spelling? := by
  rw [latestName?, List.reverse_concat]
  rfl

theorem boundAt_append_iff : BoundAt (before ++ [part]) index name x ↔
    BoundAt before index name x ∨
      index = before.length ∧ part = .value x ∧ latestName? before = some name := by
  rcases Nat.lt_trichotomy index before.length with inside | rfl | outside
  · have same : BoundAt (before ++ [part]) index name x ↔ BoundAt before index name x := by
      rw [BoundAt, BoundAt, List.getElem?_append_left inside,
        List.take_append_of_le_length (Nat.le_of_lt inside)]
    rw [same, or_iff_left fun here => Nat.ne_of_lt inside here.1]
  · have nothing : ¬BoundAt before before.length name x := by
      rintro ⟨found, -⟩
      rw [List.getElem?_eq_none (Nat.le_refl _)] at found
      cases found
    rw [or_iff_right nothing, BoundAt, List.getElem?_concat_length, List.take_left, Option.some_inj]
    exact (and_iff_right rfl).symm
  · refine iff_of_false ?none ?neither
    case none =>
      rintro ⟨found, -⟩
      rw [List.getElem?_eq_none (by rw [List.length_append]; exact outside)] at found
      cases found
    case neither =>
      rintro (⟨found, -⟩ | ⟨here, -⟩)
      · rw [List.getElem?_eq_none (Nat.le_of_lt outside)] at found
        cases found
      · exact Nat.ne_of_gt outside here

theorem BoundAt.lt_length (bound : BoundAt parts index name x) : index < parts.length :=
  (List.getElem?_eq_some_iff.mp bound.1).1

theorem LastBound.mem (bound : LastBound parts name x) : .value x ∈ parts := by
  obtain ⟨index, ⟨found, -⟩, -⟩ := bound
  exact List.mem_of_getElem? found

/-- A part that binds nothing to a name leaves alone what is bound to it. -/
theorem lastBound_append_of_unbound
    (unbound : ∀ x, part = .value x → latestName? before ≠ some name) :
    LastBound (before ++ [part]) name x ↔ LastBound before name x := by
  have same : ∀ index y, BoundAt (before ++ [part]) index name y ↔ BoundAt before index name y := by
    intro index y
    rw [boundAt_append_iff, or_iff_left fun ⟨_, here, spelled⟩ => unbound y here spelled]
  simp only [LastBound, same]

theorem lastBound_append_value (spelled : latestName? before = some name) :
    LastBound (before ++ [.value x]) name y ↔ y = x := by
  have here : BoundAt (before ++ [.value x]) before.length name x :=
    boundAt_append_iff.mpr (.inr ⟨rfl, rfl, spelled⟩)
  constructor
  · intro ⟨index, bound, last⟩
    rcases boundAt_append_iff.mp bound with earlier | ⟨-, same, -⟩
    · exact absurd here (last _ x earlier.lt_length)
    · cases same
      rfl
  · rintro rfl
    refine ⟨_, here, fun later other order bound => ?_⟩
    have inside := bound.lt_length
    rw [List.length_append, List.length_singleton] at inside
    omega

/-- Ascending entries hold the collected values that are bound last. -/
structure Binds (parts : List MappingPart) (entries : List (String × Value)) : Prop where
  ascending : Ascending entries
  names (name : String) :
    (∃ value, entries.lookup name = some value) ↔ ∃ x, LastBound parts name x
  each {name : String} {x : Data} {value : Value} (bound : LastBound parts name x)
    (found : entries.lookup name = some value) : x.toValue = .ok value

theorem binds_nil : Binds [] [] where
  ascending := .nil
  names _ :=
    iff_of_false (fun ⟨_, found⟩ => nomatch found) fun ⟨_, bound⟩ => List.not_mem_nil bound.mem
  each _ found := nomatch found

theorem Binds.append_key (binds : Binds before entries) :
    Binds (before ++ [.key key]) entries := by
  have same : ∀ {name x}, LastBound (before ++ [.key key]) name x ↔ LastBound before name x :=
    lastBound_append_of_unbound nofun
  refine ⟨binds.ascending, fun name => ?names, fun bound found => binds.each (same.mp bound) found⟩
  simp only [same]
  exact binds.names name

theorem Binds.append_value (binds : Binds before entries) (spelled : latestName? before = some name)
    (success : x.toValue = .ok value) :
    Binds (before ++ [.value x]) (insertEntry name value entries) := by
  have others : ∀ {key y}, key ≠ name →
      (LastBound (before ++ [.value x]) key y ↔ LastBound before key y) := by
    intro key y different
    refine lastBound_append_of_unbound fun _ _ here => different ?_
    exact Option.some_inj.mp (here.symm.trans spelled)
  refine ⟨binds.ascending.insertEntry name value, fun key => ?names,
    fun {key y found} bound => ?each⟩
  case names =>
    rw [lookup_insertEntry]
    by_cases same : key = name
    · subst same
      rw [if_pos rfl]
      exact iff_of_true ⟨value, rfl⟩ ⟨x, (lastBound_append_value spelled).mpr rfl⟩
    · rw [if_neg same]
      simp only [others same]
      exact binds.names key
  case each =>
    rw [lookup_insertEntry]
    by_cases same : key = name
    · subst same
      rw [if_pos rfl, Option.some_inj, (lastBound_append_value spelled).mp bound]
      rintro rfl
      exact success
    · rw [if_neg same]
      exact binds.each ((others same).mp bound)

/-- The rest of the parts are added to what the parts before them bind; a key that waits is the
latest one. -/
theorem Binds.append {waiting : Option String} {collected : List (String × Value)}
    (binds : Binds before collected)
    (latest : ∀ name, waiting = some name → latestName? before = some name)
    (success : partsToValues waiting collected parts = .ok entries) :
    Binds (before ++ parts) entries := by
  induction parts generalizing before waiting collected with
  | nil =>
      cases success
      rwa [List.append_nil]
  | cons part rest ih =>
      rw [List.append_cons]
      cases part with
      | key key =>
          obtain ⟨name, spelled, later⟩ := bind_eq_ok_iff.mp success
          refine ih binds.append_key ?_ later
          rintro _ ⟨⟩
          rw [latestName?_key]
          exact spelling?_of_nameOfKey spelled
      | value x =>
          cases waiting with
          | none => cases success
          | some name =>
              obtain ⟨value, found, later⟩ := bind_eq_ok_iff.mp success
              refine ih (binds.append_value (latest name rfl) found) ?_ later
              rintro _ ⟨⟩

end Parts

/-! ## Whole data -/

/-- A datum right inside another one, as far as it gives a part of its value. -/
inductive Data.Child : Data → Data → Prop where
  | present (x : Data) : Child x (.present x)
  | newtypeStruct (name : String) (x : Data) : Child x (.newtypeStruct name x)
  | sequence (announced : Bool) {items : List Data} {x : Data} (member : x ∈ items) :
      Child x (.sequence announced items)
  | tuple {items : List Data} {x : Data} (member : x ∈ items) : Child x (.tuple items)
  | tupleStruct (name : String) {items : List Data} {x : Data} (member : x ∈ items) :
      Child x (.tupleStruct name items)
  | mapping (announced : Bool) {entries : List (Data × Data)} {key x : Data}
      (member : (key, x) ∈ entries) : Child x (.mapping announced entries)
  | mappingParts {parts : List MappingPart} {x : Data} (member : .value x ∈ parts) :
      Child x (.mappingParts parts)
  | record (name : String) {fields : List (String × Data)} {field : String} {x : Data}
      (member : (field, x) ∈ fields) : Child x (.record name fields)

theorem Data.Child.sizeOf_lt {x y : Data} (child : Child x y) : sizeOf x < sizeOf y := by
  cases child with
  | present =>
      rw [Data.present.sizeOf_spec]
      omega
  | newtypeStruct =>
      rw [Data.newtypeStruct.sizeOf_spec]
      omega
  | sequence announced member =>
      have smaller := List.sizeOf_lt_of_mem member
      rw [Data.sequence.sizeOf_spec]
      omega
  | tuple member =>
      have smaller := List.sizeOf_lt_of_mem member
      rw [Data.tuple.sizeOf_spec]
      omega
  | tupleStruct name member =>
      have smaller := List.sizeOf_lt_of_mem member
      rw [Data.tupleStruct.sizeOf_spec]
      omega
  | mapping announced member =>
      have smaller := List.sizeOf_lt_of_mem member
      rw [Prod.mk.sizeOf_spec] at smaller
      rw [Data.mapping.sizeOf_spec]
      omega
  | mappingParts member =>
      have smaller := List.sizeOf_lt_of_mem member
      rw [MappingPart.value.sizeOf_spec] at smaller
      rw [Data.mappingParts.sizeOf_spec]
      omega
  | record name member =>
      have smaller := List.sizeOf_lt_of_mem member
      rw [Prod.mk.sizeOf_spec] at smaller
      rw [Data.record.sizeOf_spec]
      omega

@[elab_as_elim]
theorem Data.induction {motive : Data → Prop}
    (step : ∀ x, (∀ y, Child y x → motive y) → motive x) (x : Data) : motive x :=
  (measure sizeOf).wf.induction x fun x ih => step x fun y child => ih y child.sizeOf_lt

theorem value_mem_entryParts_iff {entries : List (Data × Data)} {x : Data} :
    .value x ∈ entryParts entries ↔ ∃ key, (key, x) ∈ entries := by
  simp [entryParts]

theorem partsToValues_entryParts (waiting : Option String) (collected : List (String × Value))
    (entries : List (Data × Data)) :
    partsToValues waiting collected (entryParts entries) = entriesToValues collected entries := by
  induction entries generalizing waiting collected with
  | nil => rfl
  | cons entry rest ih =>
      obtain ⟨key, value⟩ := entry
      have split : entryParts ((key, value) :: rest) =
          .key key :: .value value :: entryParts rest := rfl
      simp only [split, partsToValues, entriesToValues, ih]

theorem toValue_mapping_eq (announced : Bool) (entries : List (Data × Data)) :
    (Data.mapping announced entries).toValue =
      (Data.mappingParts (entryParts entries)).toValue := by
  rw [Data.toValue, Data.toValue, partsToValues_entryParts]

theorem standsFor_sequence {items : List Data} {value : Value} (announced : Bool)
    (ih : ∀ x ∈ items, ∀ value, x.toValue = .ok value → x.StandsFor value)
    (success : (Data.sequence announced items).toValue = .ok value) :
    (Data.sequence announced items).StandsFor value := by
  obtain ⟨each, rfl⟩ := toValue_sequence_eq_ok_iff.mp success
  refine .sequence announced (by rw [List.length_map]) fun {index x value} found held => ?_
  rw [List.getElem?_map, found] at held
  cases held
  have member := List.mem_of_getElem? found
  exact ih x member _ (each x member)

theorem standsFor_mappingParts {parts : List MappingPart} {value : Value}
    (ih : ∀ x, .value x ∈ parts → ∀ value, x.toValue = .ok value → x.StandsFor value)
    (success : (Data.mappingParts parts).toValue = .ok value) :
    (Data.mappingParts parts).StandsFor value := by
  obtain ⟨entries, collected, rfl⟩ := bind_pure_eq_ok_iff.mp success
  have binds : Binds ([] ++ parts) entries := binds_nil.append (by rintro _ ⟨⟩) collected
  rw [List.nil_append] at binds
  exact .mappingParts binds.ascending binds.names fun bound found =>
    ih _ bound.mem _ (binds.each bound found)

theorem standsFor_mapping {entries : List (Data × Data)} {value : Value} (announced : Bool)
    (ih : ∀ key x, (key, x) ∈ entries → ∀ value, x.toValue = .ok value → x.StandsFor value)
    (success : (Data.mapping announced entries).toValue = .ok value) :
    (Data.mapping announced entries).StandsFor value := by
  rw [toValue_mapping_eq] at success
  refine .mapping announced (standsFor_mappingParts (fun x member => ?_) success)
  obtain ⟨key, member⟩ := value_mem_entryParts_iff.mp member
  exact ih key x member

/-- What is collected is what the datum stands for. -/
theorem standsFor_of_toValue {x : Data} {value : Value} (success : x.toValue = .ok value) :
    x.StandsFor value := by
  induction x using Data.induction generalizing value with
  | step x ih =>
      cases x with
      | boolean | integer | single | double | char | text | bytes | unitVariant =>
          cases success
          constructor
      | absent | unit | unitStruct | wide | newtypeVariant | tupleVariant | recordVariant =>
          cases success
      | present x => exact .present (ih x (.present x) success)
      | newtypeStruct name x => exact .newtypeStruct name (ih x (.newtypeStruct name x) success)
      | sequence announced items =>
          exact standsFor_sequence announced (fun x member _ => ih x (.sequence announced member))
            success
      | tuple items =>
          rw [toValue_tuple] at success
          exact .tuple (standsFor_sequence true (fun x member _ => ih x (.tuple member)) success)
      | tupleStruct name items =>
          rw [toValue_tupleStruct] at success
          exact .tupleStruct name
            (standsFor_sequence true (fun x member _ => ih x (.tupleStruct name member)) success)
      | mapping announced entries =>
          exact standsFor_mapping announced
            (fun _ x member _ => ih x (.mapping announced member)) success
      | mappingParts parts =>
          exact standsFor_mappingParts (fun x member _ => ih x (.mappingParts member)) success
      | record name fields =>
          rw [← toValue_mapping true] at success
          refine .record name (standsFor_mapping true (fun key x member _ => ?_) success)
          obtain ⟨⟨field, x⟩, held, same⟩ := List.mem_map.mp member
          cases same
          exact ih x (.record name held)

/-- A datum stands for one value at most. -/
theorem Data.StandsFor.unique {x : Data} {value other : Value} (standsFor : x.StandsFor value)
    (otherStandsFor : x.StandsFor other) : value = other := by
  induction standsFor generalizing other with
  | boolean | integer | single | double | char | text | bytes | unitVariant =>
      cases otherStandsFor
      rfl
  | present _ ih =>
      cases otherStandsFor with
      | present inner => exact ih inner
  | newtypeStruct name _ ih =>
      cases otherStandsFor with
      | newtypeStruct _ inner => exact ih inner
  | tuple _ ih =>
      cases otherStandsFor with
      | tuple inner => exact ih inner
  | tupleStruct name _ ih =>
      cases otherStandsFor with
      | tupleStruct _ inner => exact ih inner
  | mapping announced _ ih =>
      cases otherStandsFor with
      | mapping _ inner => exact ih inner
  | record name _ ih =>
      cases otherStandsFor with
      | record _ inner => exact ih inner
  | sequence announced lengths _ ih =>
      cases otherStandsFor with
      | sequence _ otherLengths otherEach =>
          congr 1
          refine List.ext_getElem (lengths.symm.trans otherLengths) fun index inside otherInside => ?_
          have here : index < _ := lengths ▸ inside
          exact ih (List.getElem?_eq_getElem here) (List.getElem?_eq_getElem inside)
            (otherEach (List.getElem?_eq_getElem here) (List.getElem?_eq_getElem otherInside))
  | @mappingParts parts entries ascending names _ ih =>
      cases otherStandsFor with
      | @mappingParts _ others otherAscending otherNames otherEach =>
          congr 1
          refine ascending.ext otherAscending fun name => ?_
          by_cases bound : ∃ x, LastBound parts name x
          · obtain ⟨value, found⟩ := (names name).mpr bound
            obtain ⟨other, otherFound⟩ := (otherNames name).mpr bound
            obtain ⟨x, bound⟩ := bound
            rw [found, otherFound, ih bound found (otherEach bound otherFound)]
          · have missing : entries.lookup name = none :=
              Option.eq_none_iff_forall_ne_some.mpr fun value found =>
                bound ((names name).mp ⟨value, found⟩)
            have otherMissing : others.lookup name = none :=
              Option.eq_none_iff_forall_ne_some.mpr fun value found =>
                bound ((otherNames name).mp ⟨value, found⟩)
            rw [missing, otherMissing]

theorem Data.StandsFor.ordered {x : Data} {value : Value} (standsFor : x.StandsFor value) :
    value.Ordered := by
  induction standsFor with
  | boolean | integer | single | double | char | text | bytes | unitVariant => constructor
  | present _ ih | newtypeStruct _ _ ih | tuple _ ih | tupleStruct _ _ ih | mapping _ _ ih
  | record _ _ ih => exact ih
  | @sequence announced items values lengths _ ih =>
      refine .sequence fun value member => ?_
      obtain ⟨index, inside, rfl⟩ := List.getElem_of_mem member
      have here : index < items.length := lengths ▸ inside
      exact ih (List.getElem?_eq_getElem here) (List.getElem?_eq_getElem inside)
  | @mappingParts parts entries ascending names _ ih =>
      refine .mapping ascending fun entry member => ?_
      have found := lookup_of_mem ascending.nodup member
      obtain ⟨x, bound⟩ := (names entry.1).mp ⟨entry.2, found⟩
      exact ih bound found

/-- What is collected has ascending entries. -/
theorem ordered_of_toValue {x : Data} {value : Value} (success : x.toValue = .ok value) :
    value.Ordered :=
  (standsFor_of_toValue success).ordered

/-- Collecting fails exactly at a first refused visit and for the reason of that refusal. Without a
refused visit it succeeds, with the one value that the datum stands for. -/
theorem toValue_by_visits (x : Data) :
    (∀ e, x.toValue = .error e ↔ firstRefusal? x.visits = some e) ∧
      (x.Describable ↔ ∃ value, x.toValue = .ok value) ∧
      ∀ value, x.toValue = .ok value ↔ x.Describable ∧ x.StandsFor value := by
  refine ⟨fun e => ?failure, describable_iff, fun value => ⟨fun success => ?sound, ?complete⟩⟩
  case failure => rw [firstRefusal?_visits, failure?_eq_some_iff]
  case sound => exact ⟨describable_iff.mpr ⟨value, success⟩, standsFor_of_toValue success⟩
  case complete =>
    intro ⟨describable, standsFor⟩
    obtain ⟨collected, success⟩ := describable_iff.mp describable
    rw [standsFor.unique (standsFor_of_toValue success), success]

/-- A value without a key is refused before it begins. -/
example : (Data.mappingParts [.key (.text "a"), .value (.boolean true), .value .unit]).toValue =
    .error .valueBeforeKey := rfl

end SchemaWire.DataModel
