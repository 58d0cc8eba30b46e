import SchemaWire.Proofs.DataModel.Collecting

/-!
# Refused data

What happens while a datum is handed over, in order, and what of it is refused. Collecting fails
with the first refusal, and succeeds without one.
-/

set_option autoImplicit false

namespace SchemaWire.DataModel

open Outcome

/-! ## What happens while a datum is handed over -/

inductive Visit where
  /-- A datum begins. -/
  | datum (x : Data)
  /-- The key of an entry ends. -/
  | keyEnd (key : Data)
  /-- The value of an entry begins; whether a key came since the value before it. -/
  | value (keyed : Bool)

mutual

/-- What follows the beginning of a datum. The content of an alternative is never reached. -/
def Data.innerVisits : Data → List Visit
  | .present x | .newtypeStruct _ x => .datum x :: x.innerVisits
  | .sequence _ items | .tuple items | .tupleStruct _ items => itemsVisits items
  | .mapping _ entries => entriesVisits entries
  | .mappingParts parts => partsVisits false parts
  | .record _ fields => fieldsVisits fields
  | _ => []

def itemsVisits : List Data → List Visit
  | [] => []
  | item :: rest => .datum item :: (item.innerVisits ++ itemsVisits rest)

def entriesVisits : List (Data × Data) → List Visit
  | [] => []
  | (key, value) :: rest =>
    .datum key :: (key.innerVisits ++ .keyEnd key ::
      .value true :: .datum value :: (value.innerVisits ++ entriesVisits rest))

/-- Of keys and values that come one by one; `keyed` if a key came since the latest value. -/
def partsVisits (keyed : Bool) : List MappingPart → List Visit
  | [] => []
  | .key key :: rest => .datum key :: (key.innerVisits ++ .keyEnd key :: partsVisits true rest)
  | .value value :: rest =>
    .value keyed :: .datum value :: (value.innerVisits ++ partsVisits false rest)

/-- The names of fields are no data. -/
def fieldsVisits : List (String × Data) → List Visit
  | [] => []
  | (_, value) :: rest => .datum value :: (value.innerVisits ++ fieldsVisits rest)

end

/-- Everything that happens while a datum is handed over. -/
def Data.visits (x : Data) : List Visit :=
  .datum x :: x.innerVisits

/-! ## What is refused -/

/-- The text of a character or a text, which may be an optional value or stand under the name of a
new type. -/
def Data.spelling? : Data → Option String
  | .char c => some c.toString
  | .text value => some value
  | .present x | .newtypeStruct _ x => x.spelling?
  | _ => none

/-- The kind of value that a datum of this form stands for. -/
def Data.kind? : Data → Option String
  | .boolean _ => some "boolean"
  | .integer .. | .unitVariant _ => some "integer"
  | .single _ | .double _ => some "float"
  | .char _ | .text _ => some "string"
  | .bytes _ => some "bytes"
  | .present x | .newtypeStruct _ x => x.kind?
  | .sequence .. | .tuple _ | .tupleStruct .. => some "sequence"
  | .mapping .. | .mappingParts _ | .record .. => some "mapping"
  | _ => none

/-- Why a visit is refused. A key without a kind has been refused before it ends. -/
def Visit.refusal? : Visit → Option CollectError
  | .datum .absent => some (.undescribed .absent)
  | .datum .unit => some (.undescribed .unit)
  | .datum (.unitStruct name) => some (.undescribed (.unitStruct name))
  | .datum (.newtypeVariant variant _) | .datum (.tupleVariant variant _)
  | .datum (.recordVariant variant _) => some (.undescribed (.variant variant))
  | .datum (.wide type _) => some (.wideInteger type)
  | .datum _ => none
  | .keyEnd key => if key.spelling?.isSome then none else key.kind?.map .keyNotText
  | .value keyed => if keyed then none else some .valueBeforeKey

/-- No visit is refused. -/
def Data.Describable (x : Data) : Prop :=
  ∀ visit ∈ x.visits, visit.refusal? = none

abbrev firstRefusal? (visits : List Visit) : Option CollectError :=
  visits.findSome? Visit.refusal?

/-! ## The first refusal -/

section FirstRefusal

variable {α β : Type}

theorem firstRefusal?_append {before after : List Visit} {first : Except CollectError α}
    {next : α → Except CollectError β} (reached : firstRefusal? before = failure? first)
    (later : ∀ result, first = .ok result → firstRefusal? after = failure? (next result)) :
    firstRefusal? (before ++ after) = failure? (first >>= next) := by
  rw [firstRefusal?, List.findSome?_append, ← firstRefusal?, reached]
  cases first with
  | error e => rfl
  | ok result => exact later result rfl

theorem firstRefusal?_cons {visit : Visit} {after : List Visit} {first : Except CollectError α}
    {next : α → Except CollectError β} (reached : visit.refusal? = failure? first)
    (later : ∀ result, first = .ok result → firstRefusal? after = failure? (next result)) :
    firstRefusal? (visit :: after) = failure? (first >>= next) := by
  rw [firstRefusal?, List.findSome?_cons, reached]
  cases first with
  | error e => rfl
  | ok result => exact later result rfl

end FirstRefusal

/-! ## Keys -/

/-- A datum has the spelling of a value if both spell the same text, or none and are of the same
kind. -/
def Data.SpelledAs (x : Data) : Value → Prop
  | .text value => x.spelling? = some value
  | other => x.spelling? = none ∧ x.kind? = some other.kind

theorem spelledAs_of_toValue (x : Data) {value : Value} (success : x.toValue = .ok value) :
    x.SpelledAs value := by
  cases x with
  | char | text =>
      cases success
      exact rfl
  | boolean | integer | single | double | bytes | unitVariant =>
      cases success
      exact ⟨rfl, rfl⟩
  | present x | newtypeStruct _ x =>
      have inner : x.SpelledAs value := spelledAs_of_toValue x success
      cases value <;> exact inner
  | sequence | tuple | tupleStruct | mapping | mappingParts | record =>
      obtain ⟨_, -, rfl⟩ := bind_pure_eq_ok_iff.mp success
      exact ⟨rfl, rfl⟩
  | absent | unit | unitStruct | wide | newtypeVariant | tupleVariant | recordVariant =>
      cases success

/-- A key ends with the refusal that its value meets. -/
theorem refusal?_keyEnd {key : Data} {value : Value} (success : key.toValue = .ok value) :
    (Visit.keyEnd key).refusal? = failure? (nameOfKey value) := by
  have spelled := spelledAs_of_toValue key success
  cases value with
  | text name => rw [Visit.refusal?, show key.spelling? = some name from spelled]; rfl
  | _ => rw [Visit.refusal?, spelled.1, spelled.2]; rfl

/-! ## The first refusal -/

theorem spelling?_of_nameOfKey {key : Data} {name : String}
    (success : key.toValue >>= nameOfKey = .ok name) : key.spelling? = some name := by
  obtain ⟨value, collected, spelled⟩ := bind_eq_ok_iff.mp success
  cases value with
  | text value =>
      cases spelled
      exact spelledAs_of_toValue key collected
  | _ => cases spelled

mutual

theorem firstRefusal?_visits (x : Data) : firstRefusal? x.visits = failure? x.toValue := by
  cases x with
  | boolean | integer | single | double | char | text | bytes | unitVariant => rfl
  | absent | unit | unitStruct | wide | newtypeVariant | tupleVariant | recordVariant => rfl
  | present x | newtypeStruct _ x => exact firstRefusal?_visits x
  | sequence _ items | tuple items | tupleStruct _ items =>
      rw [Data.toValue, failure?_bind_pure]
      exact firstRefusal?_itemsVisits items
  | mapping _ entries =>
      rw [Data.toValue, failure?_bind_pure]
      exact firstRefusal?_entriesVisits [] entries
  | mappingParts parts =>
      rw [Data.toValue, failure?_bind_pure]
      exact firstRefusal?_partsVisits none [] parts
  | record _ fields =>
      rw [Data.toValue, failure?_bind_pure]
      exact firstRefusal?_fieldsVisits [] fields

theorem firstRefusal?_itemsVisits :
    ∀ items : List Data, firstRefusal? (itemsVisits items) = failure? (itemsToValues items)
  | [] => rfl
  | item :: rest => by
      rw [itemsToValues]
      refine firstRefusal?_append (firstRefusal?_visits item) fun first _ => ?_
      rw [failure?_bind_pure]
      exact firstRefusal?_itemsVisits rest

theorem firstRefusal?_entriesVisits (collected : List (String × Value)) :
    ∀ entries : List (Data × Data),
      firstRefusal? (entriesVisits entries) = failure? (entriesToValues collected entries)
  | [] => rfl
  | (key, value) :: rest => by
      rw [entriesToValues, bind_assoc]
      refine firstRefusal?_append (firstRefusal?_visits key) fun spelled success => ?_
      refine firstRefusal?_cons (refusal?_keyEnd success) fun name _ => ?_
      refine firstRefusal?_append (firstRefusal?_visits value) fun found _ => ?_
      exact firstRefusal?_entriesVisits _ rest

theorem firstRefusal?_partsVisits (waiting : Option String) (collected : List (String × Value)) :
    ∀ parts : List MappingPart, firstRefusal? (partsVisits waiting.isSome parts) =
      failure? (partsToValues waiting collected parts)
  | [] => rfl
  | .key key :: rest => by
      rw [partsToValues, bind_assoc]
      refine firstRefusal?_append (firstRefusal?_visits key) fun spelled success => ?_
      refine firstRefusal?_cons (refusal?_keyEnd success) fun name _ => ?_
      exact firstRefusal?_partsVisits (some name) collected rest
  | .value value :: rest => by
      cases waiting with
      | none => rfl
      | some name =>
          refine firstRefusal?_append (firstRefusal?_visits value) fun found _ => ?_
          exact firstRefusal?_partsVisits none _ rest

theorem firstRefusal?_fieldsVisits (collected : List (String × Value)) :
    ∀ fields : List (String × Data),
      firstRefusal? (fieldsVisits fields) = failure? (fieldsToValues collected fields)
  | [] => rfl
  | (name, value) :: rest => by
      rw [fieldsToValues]
      refine firstRefusal?_append (firstRefusal?_visits value) fun found _ => ?_
      exact firstRefusal?_fieldsVisits _ rest

end

theorem describable_iff {x : Data} : x.Describable ↔ ∃ value, x.toValue = .ok value := by
  rw [← failure?_eq_none_iff, ← firstRefusal?_visits, firstRefusal?, List.findSome?_eq_none_iff]
  rfl

end SchemaWire.DataModel
