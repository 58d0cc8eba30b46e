import SchemaWire.DataModel.Collect
import SchemaWire.Proofs.Outcome
import SchemaWire.Proofs.Value.Entries

/-!
# Collecting in any order

When the parts of a datum are collected, and that the order in which entries and fields are handed
over leaves no trace in the value.
-/

set_option autoImplicit false

namespace SchemaWire.DataModel

open Outcome

/-- Entries of a mapping whose keys are texts. -/
def textKeyed (entries : List (String × Data)) : List (Data × Data) :=
  entries.map fun entry => (.text entry.1, entry.2)

/-- The same datum with the entries of its mappings and the fields of its records, at any depth,
handed over in another order, and with lengths announced or not. -/
inductive Data.Rearranged : Data → Data → Prop where
  | refl (x : Data) : Rearranged x x
  | present {x y : Data} (inner : Rearranged x y) : Rearranged (.present x) (.present y)
  | newtypeStruct (name : String) {x y : Data} (inner : Rearranged x y) :
      Rearranged (.newtypeStruct name x) (.newtypeStruct name y)
  | sequence (announced other : Bool) {items others : List Data}
      (lengths : items.length = others.length)
      (each : ∀ {index : Nat} {x y}, items[index]? = some x → others[index]? = some y →
        Rearranged x y) :
      Rearranged (.sequence announced items) (.sequence other others)
  | tuple {items others : List Data} (lengths : items.length = others.length)
      (each : ∀ {index : Nat} {x y}, items[index]? = some x → others[index]? = some y →
        Rearranged x y) :
      Rearranged (.tuple items) (.tuple others)
  | tupleStruct (name : String) {items others : List Data} (lengths : items.length = others.length)
      (each : ∀ {index : Nat} {x y}, items[index]? = some x → others[index]? = some y →
        Rearranged x y) :
      Rearranged (.tupleStruct name items) (.tupleStruct name others)
  | mapping (announced other : Bool) {entries others : List (String × Data)}
      (distinct : (entries.map Prod.fst).Nodup)
      (names : (entries.map Prod.fst).Perm (others.map Prod.fst))
      (each : ∀ {name x y}, entries.lookup name = some x → others.lookup name = some y →
        Rearranged x y) :
      Rearranged (.mapping announced (textKeyed entries)) (.mapping other (textKeyed others))
  | record (name : String) {fields others : List (String × Data)}
      (distinct : (fields.map Prod.fst).Nodup)
      (names : (fields.map Prod.fst).Perm (others.map Prod.fst))
      (each : ∀ {field x y}, fields.lookup field = some x → others.lookup field = some y →
        Rearranged x y) :
      Rearranged (.record name fields) (.record name others)

/-! ## Parts -/

/-- The value of a datum that can be collected. -/
def Data.collected (x : Data) : Value :=
  x.toValue.toOption.getD default

theorem Data.toValue_eq_ok_iff {x : Data} {value : Value} :
    x.toValue = .ok value ↔ x.toValue = .ok x.collected ∧ value = x.collected := by
  constructor
  · intro success
    have same : x.collected = value := by
      rw [collected, success]
      rfl
    rw [same]
    exact ⟨success, rfl⟩
  · intro ⟨success, same⟩
    rw [same, success]

theorem itemsToValues_eq_ok_iff {items : List Data} {values : List Value} :
    itemsToValues items = .ok values ↔
      (∀ item ∈ items, item.toValue = .ok item.collected) ∧
        values = items.map Data.collected := by
  induction items generalizing values with
  | nil => simp [itemsToValues, eq_comm]
  | cons item rest ih =>
      rw [itemsToValues, bind_eq_ok_iff, List.forall_mem_cons, List.map_cons]
      constructor
      · intro ⟨first, success, later⟩
        obtain ⟨others, remaining, same⟩ := bind_pure_eq_ok_iff.mp later
        obtain ⟨each, rfl⟩ := ih.mp remaining
        obtain ⟨success, rfl⟩ := Data.toValue_eq_ok_iff.mp success
        exact ⟨⟨success, each⟩, same.symm⟩
      · intro ⟨⟨success, each⟩, same⟩
        exact ⟨_, success, bind_pure_eq_ok_iff.mpr ⟨_, ih.mpr ⟨each, rfl⟩, same.symm⟩⟩

/-- Collected fields under their names. -/
def collectedFields (fields : List (String × Data)) : List (String × Value) :=
  fields.map fun field => (field.1, field.2.collected)

theorem names_collectedFields (fields : List (String × Data)) :
    (collectedFields fields).map Prod.fst = fields.map Prod.fst := by
  simp [collectedFields]

theorem lookup_collectedFields (fields : List (String × Data)) (name : String) :
    (collectedFields fields).lookup name = (fields.lookup name).map Data.collected :=
  lookup_map Data.collected fields name

theorem fieldsToValues_eq_ok_iff {fields : List (String × Data)}
    {before after : List (String × Value)} :
    fieldsToValues before fields = .ok after ↔
      (∀ field ∈ fields, field.2.toValue = .ok field.2.collected) ∧
        after = (collectedFields fields).foldl
          (fun entries field => insertEntry field.1 field.2 entries) before := by
  induction fields generalizing before with
  | nil => simp [fieldsToValues, collectedFields, eq_comm]
  | cons field rest ih =>
      obtain ⟨name, x⟩ := field
      rw [fieldsToValues, bind_eq_ok_iff, List.forall_mem_cons]
      constructor
      · intro ⟨value, success, later⟩
        obtain ⟨success, rfl⟩ := Data.toValue_eq_ok_iff.mp success
        obtain ⟨each, same⟩ := ih.mp later
        exact ⟨⟨success, each⟩, same⟩
      · intro ⟨⟨success, each⟩, same⟩
        exact ⟨_, success, ih.mpr ⟨each, same⟩⟩

theorem entriesToValues_textKeyed (before : List (String × Value))
    (entries : List (String × Data)) :
    entriesToValues before (textKeyed entries) = fieldsToValues before entries := by
  induction entries generalizing before with
  | nil => rfl
  | cons entry rest ih =>
      obtain ⟨name, x⟩ := entry
      have key : (Data.text name).toValue >>= nameOfKey = .ok name := rfl
      have split : textKeyed ((name, x) :: rest) = (.text name, x) :: textKeyed rest := rfl
      rw [split, entriesToValues, key, fieldsToValues]
      simp only [ih]
      rfl

/-! ## Whole data -/

section Containers

variable {items : List Data} {fields : List (String × Data)} {value : Value}

theorem toValue_sequence_eq_ok_iff {announced : Bool} :
    (Data.sequence announced items).toValue = .ok value ↔
      (∀ item ∈ items, item.toValue = .ok item.collected) ∧
        value = .sequence (items.map Data.collected) := by
  rw [Data.toValue, bind_pure_eq_ok_iff]
  constructor
  · intro ⟨values, success, same⟩
    obtain ⟨each, rfl⟩ := itemsToValues_eq_ok_iff.mp success
    exact ⟨each, same.symm⟩
  · intro ⟨each, same⟩
    exact ⟨_, itemsToValues_eq_ok_iff.mpr ⟨each, rfl⟩, same.symm⟩

theorem toValue_tuple (items : List Data) :
    (Data.tuple items).toValue = (Data.sequence true items).toValue := by
  rw [Data.toValue, Data.toValue]

theorem toValue_tupleStruct (name : String) (items : List Data) :
    (Data.tupleStruct name items).toValue = (Data.sequence true items).toValue := by
  rw [Data.toValue, Data.toValue]

theorem toValue_record_eq_ok_iff {name : String} :
    (Data.record name fields).toValue = .ok value ↔
      (∀ field ∈ fields, field.2.toValue = .ok field.2.collected) ∧
        value = .mapping (entriesOf (collectedFields fields)) := by
  rw [Data.toValue, bind_pure_eq_ok_iff]
  constructor
  · intro ⟨entries, success, same⟩
    obtain ⟨each, rfl⟩ := fieldsToValues_eq_ok_iff.mp success
    exact ⟨each, same.symm⟩
  · intro ⟨each, same⟩
    exact ⟨_, fieldsToValues_eq_ok_iff.mpr ⟨each, rfl⟩, same.symm⟩

theorem toValue_mapping (announced : Bool) (entries : List (String × Data)) (name : String) :
    (Data.mapping announced (textKeyed entries)).toValue = (Data.record name entries).toValue := by
  rw [Data.toValue, Data.toValue, entriesToValues_textKeyed]

end Containers

/-! ## Order -/

/-- Whatever value the one datum is collected into, the other one is, too. -/
def CollectedAlike (x y : Data) : Prop :=
  ∀ value : Value, x.toValue = .ok value → y.toValue = .ok value

theorem CollectedAlike.collected {x y : Data} (alike : CollectedAlike x y)
    (success : x.toValue = .ok x.collected) :
    y.toValue = .ok y.collected ∧ x.collected = y.collected :=
  Data.toValue_eq_ok_iff.mp (alike _ success)

theorem toValue_sequence_alike {items others : List Data} (lengths : items.length = others.length)
    (each : ∀ {index : Nat} {x y}, items[index]? = some x → others[index]? = some y →
      CollectedAlike x y) (announced other : Bool) :
    CollectedAlike (.sequence announced items) (.sequence other others) := by
  intro value success
  obtain ⟨collected, rfl⟩ := toValue_sequence_eq_ok_iff.mp success
  refine toValue_sequence_eq_ok_iff.mpr ⟨?each, ?same⟩
  case each =>
    intro y member
    obtain ⟨index, inside, rfl⟩ := List.mem_iff_getElem.mp member
    have known : items[index]? = some items[index] := List.getElem?_eq_getElem _
    have success := collected _ (List.mem_of_getElem? known)
    exact ((each known (List.getElem?_eq_getElem inside)).collected success).1
  case same =>
    congr 1
    refine List.ext_getElem (by simp [lengths]) fun index inside otherInside => ?_
    simp only [List.getElem_map]
    rw [List.length_map] at inside otherInside
    have known := List.getElem?_eq_getElem inside
    exact ((each known (List.getElem?_eq_getElem otherInside)).collected
      (collected _ (List.mem_of_getElem? known))).2

theorem toValue_record_alike {fields others : List (String × Data)}
    (distinct : (fields.map Prod.fst).Nodup)
    (names : (fields.map Prod.fst).Perm (others.map Prod.fst))
    (each : ∀ {field x y}, fields.lookup field = some x → others.lookup field = some y →
      CollectedAlike x y) (name : String) :
    CollectedAlike (.record name fields) (.record name others) := by
  intro value success
  obtain ⟨collected, rfl⟩ := toValue_record_eq_ok_iff.mp success
  have otherDistinct : (others.map Prod.fst).Nodup := names.nodup_iff.mp distinct
  have alike : ∀ {field x y}, fields.lookup field = some x → others.lookup field = some y →
      y.toValue = .ok y.collected ∧ x.collected = y.collected :=
    fun known found => (each known found).collected (collected _ (mem_of_lookup known))
  refine toValue_record_eq_ok_iff.mpr ⟨?each, ?same⟩
  case each =>
    intro field member
    have found := lookup_of_mem otherDistinct member
    obtain ⟨x, known⟩ := exists_lookup_of_names names found
    exact (alike known found).1
  case same =>
    congr 1
    refine (ascending_entriesOf _).ext (ascending_entriesOf _) fun field => ?_
    rw [lookup_entriesOf (by rwa [names_collectedFields]),
      lookup_entriesOf (by rwa [names_collectedFields]), lookup_collectedFields,
      lookup_collectedFields]
    exact map_lookup_eq names (fun known found => (alike known found).2) field

/-- The order in which entries and fields are handed over leaves no trace in the value. -/
theorem Data.Rearranged.toValue {x y : Data} (rearranged : x.Rearranged y) :
    CollectedAlike x y := by
  induction rearranged with
  | refl x => exact fun value success => success
  | present _ ih =>
      intro value success
      rw [Data.toValue] at success ⊢
      exact ih value success
  | newtypeStruct name _ ih =>
      intro value success
      rw [Data.toValue] at success ⊢
      exact ih value success
  | sequence announced other lengths _ ih => exact toValue_sequence_alike lengths ih announced other
  | tuple lengths _ ih =>
      intro value success
      rw [toValue_tuple] at success ⊢
      exact toValue_sequence_alike lengths ih true true value success
  | tupleStruct name lengths _ ih =>
      intro value success
      rw [toValue_tupleStruct] at success ⊢
      exact toValue_sequence_alike lengths ih true true value success
  | mapping announced other distinct names _ ih =>
      intro value success
      rw [toValue_mapping _ _ ""] at success ⊢
      exact toValue_record_alike distinct names ih "" value success
  | record name distinct names _ ih => exact toValue_record_alike distinct names ih name

end SchemaWire.DataModel
