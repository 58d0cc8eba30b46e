import SchemaWire.Floating.Binary64

/-!
# Values

The trees that a codec writes and reads. A mapping is an association list, which insertion keeps in
ascending order of its names, without repetitions, so two mappings with the same entries are the
same value however they were built. The type cannot say this about entries that hold values of its
own; `Value.Ordered` does, and everything that is decoded or collected is ordered.
-/

set_option autoImplicit false

namespace SchemaWire

open Floating (Binary64)

/-- A value: a scalar, a mapping of names to values, or a sequence of values. -/
inductive Value where
  | boolean (value : Bool)
  /-- An integer of any of the integer types. -/
  | integer (value : Int64)
  /-- A float of either width. -/
  | float (value : Binary64)
  | text (value : String)
  | bytes (value : List UInt8)
  /-- Entries in ascending order of their names. -/
  | mapping (entries : List (String × Value))
  | sequence (items : List Value)
  deriving Repr, Inhabited

/-- Puts an entry into its place among ascending entries; an entry of the same name gives way. -/
def insertEntry {α : Type} (name : String) (entry : α) : List (String × α) → List (String × α)
  | [] => [(name, entry)]
  | (other, found) :: rest =>
    match compare name other with
    | .lt => (name, entry) :: (other, found) :: rest
    | .eq => (name, entry) :: rest
    | .gt => (other, found) :: insertEntry name entry rest

/-- The ascending entries of a list in which the last entry of a name counts. -/
def entriesOf {α : Type} (fields : List (String × α)) : List (String × α) :=
  fields.foldl (fun entries field => insertEntry field.1 field.2 entries) []

/-- Entries in strictly ascending order of their names. -/
def Ascending {α : Type} (entries : List (String × α)) : Prop :=
  entries.Pairwise fun left right => compare left.1 right.1 = .lt

namespace Value

/-- The entries of every mapping in the value are in ascending order, as insertion keeps them. -/
inductive Ordered : Value → Prop where
  | boolean (value : Bool) : Ordered (.boolean value)
  | integer (value : Int64) : Ordered (.integer value)
  | float (value : Binary64) : Ordered (.float value)
  | text (value : String) : Ordered (.text value)
  | bytes (value : List UInt8) : Ordered (.bytes value)
  | mapping {entries : List (String × Value)} (ascending : Ascending entries)
      (each : ∀ entry ∈ entries, entry.2.Ordered) : Ordered (.mapping entries)
  | sequence {items : List Value} (each : ∀ item ∈ items, item.Ordered) : Ordered (.sequence items)

mutual

/-- Whether two values are equal. Floats are equal if their bits are. -/
def same : Value → Value → Bool
  | .boolean left, .boolean right => left == right
  | .integer left, .integer right => left == right
  | .float left, .float right => left == right
  | .text left, .text right => left == right
  | .bytes left, .bytes right => left == right
  | .mapping left, .mapping right => sameEntries left right
  | .sequence left, .sequence right => sameItems left right
  | _, _ => false

def sameEntries : List (String × Value) → List (String × Value) → Bool
  | [], [] => true
  | (name, value) :: rest, (otherName, other) :: others =>
    name == otherName && (value.same other && sameEntries rest others)
  | _, _ => false

def sameItems : List Value → List Value → Bool
  | [], [] => true
  | value :: rest, other :: others => value.same other && sameItems rest others
  | _, _ => false

end

mutual

theorem same_eq_true_iff : ∀ left right : Value, left.same right = true ↔ left = right
  | .boolean _, right => by cases right <;> simp [same]
  | .integer _, right => by cases right <;> simp [same]
  | .float _, right => by cases right <;> simp [same]
  | .text _, right => by cases right <;> simp [same]
  | .bytes _, right => by cases right <;> simp [same]
  | .mapping entries, right => by
      cases right <;> simp [same, sameEntries_eq_true_iff entries]
  | .sequence items, right => by
      cases right <;> simp [same, sameItems_eq_true_iff items]

theorem sameEntries_eq_true_iff :
    ∀ left right : List (String × Value), sameEntries left right = true ↔ left = right
  | [], right => by cases right <;> simp [sameEntries]
  | (name, value) :: rest, right => by
      cases right with
      | nil => simp [sameEntries]
      | cons other others =>
          simp [sameEntries, same_eq_true_iff value, sameEntries_eq_true_iff rest, Prod.ext_iff,
            and_assoc]

theorem sameItems_eq_true_iff :
    ∀ left right : List Value, sameItems left right = true ↔ left = right
  | [], right => by cases right <;> simp [sameItems]
  | value :: rest, right => by
      cases right with
      | nil => simp [sameItems]
      | cons other others =>
          simp [sameItems, same_eq_true_iff value, sameItems_eq_true_iff rest]

end

instance : DecidableEq Value := fun left right =>
  decidable_of_iff (left.same right = true) (same_eq_true_iff left right)

/-- The mapping of a list of fields; the last field of a name counts. -/
def ofFields (fields : List (String × Value)) : Value :=
  .mapping (entriesOf fields)

/-- The entry of a name, if the value is a mapping that has one. -/
def get? (name : String) : Value → Option Value
  | .mapping entries => entries.lookup name
  | _ => none

def kind : Value → String
  | .boolean _ => "boolean"
  | .integer _ => "integer"
  | .float _ => "float"
  | .text _ => "string"
  | .bytes _ => "bytes"
  | .mapping _ => "mapping"
  | .sequence _ => "sequence"

def asBoolean? : Value → Option Bool
  | .boolean value => some value
  | _ => none

def asInteger? : Value → Option Int64
  | .integer value => some value
  | _ => none

def asFloat? : Value → Option Binary64
  | .float value => some value
  | .integer value => some (.ofInt value.toInt)
  | _ => none

def asText? : Value → Option String
  | .text value => some value
  | _ => none

def asBytes? : Value → Option (List UInt8)
  | .bytes value => some value
  | _ => none

def asMapping? : Value → Option (List (String × Value))
  | .mapping entries => some entries
  | _ => none

def asSequence? : Value → Option (List Value)
  | .sequence items => some items
  | _ => none

def ofSingle (value : Floating.Binary32) : Value :=
  .float value.widen

def ofIntegers (values : List Int64) : Value :=
  .sequence (values.map .integer)

def ofFloats (values : List Binary64) : Value :=
  .sequence (values.map .float)

def ofTexts (values : List String) : Value :=
  .sequence (values.map .text)

end Value

end SchemaWire
