import Mathlib.Data.List.Infix
import SchemaWire.Proofs.Schema.Alias
import SchemaWire.Proofs.Schema.PlaceText
import SchemaWire.Proofs.Schema.Rearrangement
import SchemaWire.Proofs.Value.Entries

/-!
# Faults of definitions

What can be wrong with a node of a definition, and which fault is reported if several nodes are
faulty: that of the node that comes first, where a node comes before its children, fields come in
canonical order and items from left to right. A definition without faults is compiled.
-/

set_option autoImplicit false

namespace SchemaWire.Schema

open Outcome

/-! ## Nodes -/

/-- The way to an item of a sequence of so many items. The last one is the element that is repeated
after the others. -/
def itemDescent (size position : Nat) : Descent :=
  if position + 1 = size then .tail position else .head position

namespace Definition

/-- A definition right below another one. -/
inductive Child : Definition → Descent → Definition → Prop where
  | field {fields : List (String × Definition)} {name : String} {child : Definition}
      (declared : (name, child) ∈ fields) : Child (.mapping fields) (.field name) child
  | item {items : List Definition} {position : Nat} {child : Definition}
      (found : items[position]? = some child) :
      Child (.sequence items) (itemDescent items.length position) child

/-- A place leads from a definition to a node of it. -/
inductive Contains : Definition → Place → Definition → Prop where
  | self (definition : Definition) : Contains definition [] definition
  | cons {definition child node : Definition} {descent : Descent} {place : Place}
      (first : Child definition descent child) (others : Contains child place node) :
      Contains definition (descent :: place) node

end Definition

/-- Which of two children of a node comes first. -/
inductive Descent.Before : Descent → Descent → Prop where
  | field {name other : String} (order : fieldOrder name other = .lt) :
      Before (.field name) (.field other)
  | head {index other : Nat} (order : index < other) : Before (.head index) (.head other)
  | tail {index heads : Nat} (order : index < heads) : Before (.head index) (.tail heads)

/-- Which of two nodes comes first: a node comes before those below it, and those below a child
before those below a later one. -/
abbrev Place.Before : Place → Place → Prop :=
  List.Lex Descent.Before

/-! ## Faults -/

/-- A name that denotes a type: no marker, but the name of a primitive type or an alias. -/
structure Denotes (aliases : AliasTable) (name : String) : Prop where
  plain : isReserved (Text.normalizeName name) = false
  known : (∃ type, Primitive.ofName? (Text.normalizeName name) = some type) ∨
    Text.normalizeName name ∈ aliases.entries.map Prod.fst

/-- What is wrong with a node that stands at a place, apart from the nodes below it. -/
inductive Fault (aliases : AliasTable) (place : Place) : Definition → DefinitionError → Prop where
  | reservedName {name : String} (reserved : isReserved (Text.normalizeName name) = true) :
      Fault aliases place (.type name) (.reservedName (Text.normalizeName name))
  | unknownType {name : String} (plain : isReserved (Text.normalizeName name) = false)
      (unknown : ¬Denotes aliases name) :
      Fault aliases place (.type name) (.unknownType name place)
  | emptyMapping : Fault aliases place (.mapping []) (.emptyContainer .mapping place)
  | emptySequence : Fault aliases place (.sequence []) (.emptyContainer .sequence place)
  | repeatedField {fields : List (String × Definition)} {name : String}
      (repeated : LeastRepeated (fields.map Prod.fst) name) :
      Fault aliases place (.mapping fields) (.repeatedField name place)

/-- Every container has children, every mapping distinct names, and every leaf the name of a
type. -/
inductive Definition.WellFormed (aliases : AliasTable) : Definition → Prop where
  | type {name : String} (denotes : Denotes aliases name) : WellFormed aliases (.type name)
  | mapping {fields : List (String × Definition)} (nonempty : fields ≠ [])
      (distinct : (fields.map Prod.fst).Nodup)
      (each : ∀ field ∈ fields, field.2.WellFormed aliases) : WellFormed aliases (.mapping fields)
  | sequence {items : List Definition} (nonempty : items ≠ [])
      (each : ∀ item ∈ items, item.WellFormed aliases) : WellFormed aliases (.sequence items)

/-- No node has a fault. -/
def Faultless (aliases : AliasTable) (definition : Definition) : Prop :=
  ∀ place node, definition.Contains place node → ∀ here e, ¬Fault aliases here node e

/-- A node of the definition that stands `here` has this fault, and no faulty node comes before
it. -/
structure FirstFault (aliases : AliasTable) (here : Place) (definition : Definition) (place : Place)
    (node : Definition) (e : DefinitionError) : Prop where
  contains : definition.Contains place node
  fault : Fault aliases (here ++ place) node e
  first : ∀ other faulty, definition.Contains other faulty →
    (∃ fault, Fault aliases (here ++ other) faulty fault) → ¬other.Before place

/-- The definition that stands `here` fails with the fault of its first faulty node. -/
def FailsAtFirst (aliases : AliasTable) (here : Place) (definition : Definition)
    (e : DefinitionError) : Prop :=
  ∃ place node, FirstFault aliases here definition place node e

/-- An error carries the text of the place of the node, unless the name of the node is a marker. -/
theorem Fault.path?_eq {aliases : AliasTable} {place : Place} {node : Definition}
    {e : DefinitionError} (fault : Fault aliases place node e) :
    (∃ name, e = .reservedName name) ∨ e.path? = some (nodeText place) := by
  rw [← place.text_eq]
  cases fault with
  | reservedName reserved => exact .inl ⟨_, rfl⟩
  | unknownType | emptyMapping | emptySequence | repeatedField => exact .inr rfl

/-! ## Children in order -/

namespace Definition

/-- The children of a definition, in the order in which they are laid out. -/
def children : Definition → List (Descent × Definition)
  | .type _ => []
  | .mapping fields => (sortFields fields).map fun field => (.field field.1, field.2)
  | .sequence items =>
    items.zipIdx.map fun item => (itemDescent items.length item.2, item.1)

theorem mem_children_iff {definition child : Definition} {descent : Descent} :
    (descent, child) ∈ definition.children ↔ definition.Child descent child := by
  cases definition with
  | type name =>
      constructor
      · intro member
        cases member
      · intro below
        cases below
  | mapping fields =>
      rw [children, List.mem_map]
      constructor
      · rintro ⟨⟨name, declared⟩, member, same⟩
        cases same
        exact .field (mem_sortFields.mp member)
      · intro below
        cases below with
        | field declared => exact ⟨_, mem_sortFields.mpr declared, rfl⟩
  | sequence items =>
      rw [children, List.mem_map]
      constructor
      · rintro ⟨⟨item, position⟩, member, same⟩
        cases same
        exact .item (List.mem_zipIdx_iff_getElem?.mp member)
      · intro below
        cases below with
        | @item _ position _ found =>
            exact ⟨(child, position), List.mem_zipIdx_iff_getElem?.mpr found, rfl⟩

theorem forall_children_mapping {property : Definition → Prop} {fields : List (String × Definition)} :
    (∀ child ∈ (mapping fields).children, property child.2) ↔
      ∀ field ∈ fields, property field.2 := by
  constructor
  · intro each field member
    exact each (.field field.1, field.2) (mem_children_iff.mpr (.field member))
  · rintro each ⟨descent, child⟩ member
    cases mem_children_iff.mp member with
    | field declared => exact each _ declared

theorem forall_children_sequence {property : Definition → Prop} {items : List Definition} :
    (∀ child ∈ (sequence items).children, property child.2) ↔ ∀ item ∈ items, property item := by
  constructor
  · intro each item member
    obtain ⟨position, found⟩ := List.mem_iff_getElem?.mp member
    exact each (_, item) (mem_children_iff.mpr (.item found))
  · rintro each ⟨descent, child⟩ member
    cases mem_children_iff.mp member with
    | item found => exact each _ (List.mem_of_getElem? found)

end Definition

theorem Descent.Before.asymm {first second : Descent} (before : first.Before second) :
    ¬second.Before first := by
  intro after
  cases before with
  | field order =>
      cases after with
      | field reverse => exact Std.OrientedCmp.not_lt_of_lt order reverse
  | head order =>
      cases after with
      | head reverse => omega
  | tail order => cases after

theorem itemDescent_before {size position later : Nat} (order : position < later)
    (inside : later < size) : (itemDescent size position).Before (itemDescent size later) := by
  have notLast : position + 1 ≠ size := by omega
  rw [itemDescent, itemDescent, if_neg notLast]
  split
  · exact .tail order
  · exact .head order

variable {aliases : AliasTable} {definition : Definition} {here : Place} {e : DefinitionError}

theorem firstRepeated?_sortFields_iff {α : Type} {fields : List (String × α)} {name : String} :
    firstRepeated? (sortFields fields) = some name ↔ LeastRepeated (fields.map Prod.fst) name := by
  have permuted := (perm_sortFields fields).map Prod.fst
  rw [firstRepeated?_eq_some_iff (sorted_sortFields fields)]
  exact ⟨fun repeated => repeated.perm permuted, fun repeated => repeated.perm permuted.symm⟩

theorem unrepeated {fields : List (String × Definition)}
    (sound : ∀ e, ¬Fault aliases here (.mapping fields) e) :
    firstRepeated? (sortFields fields) = none :=
  Option.eq_none_iff_forall_ne_some.mpr fun _ found =>
    sound _ (.repeatedField (firstRepeated?_sortFields_iff.mp found))

/-- The children of a definition that has no fault of its own come in their order. -/
theorem children_before (sound : ∀ e, ¬Fault aliases here definition e) :
    definition.children.Pairwise fun first second => first.1.Before second.1 := by
  cases definition with
  | type name => exact .nil
  | mapping fields =>
      have ascending := ascending_of_firstRepeated? (sorted_sortFields fields) (unrepeated sound)
      exact List.pairwise_map.mpr ((List.pairwise_map.mp ascending).imp fun order => .field order)
  | sequence items =>
      refine List.pairwise_map.mpr ((List.pairwise_iff_getElem).mpr ?_)
      intro position later inside laterInside order
      rw [List.length_zipIdx] at inside laterInside
      simp only [List.getElem_zipIdx, Nat.zero_add]
      exact itemDescent_before order laterInside

/-! ## Layouts -/

/-- Fields are collected one by one. -/
theorem collectFields_eq_error_iff {ε α β : Type} (result : String × α → Except ε β) {found : ε}
    {fields : List (String × α)} :
    collectFields (fields.map fun field => (field.1, result field)) = .error found ↔
      fields.mapM result = .error found := by
  induction fields with
  | nil => exact ⟨nofun, nofun⟩
  | cons field rest ih =>
      rw [List.map_cons, collectFields, List.mapM_cons, bind_eq_error_iff, bind_eq_error_iff]
      simp only [bind_pure_eq_error_iff, ih]

theorem layoutsOfItems_eq_error_iff {place : Place} {items : List Definition} (nonempty : items ≠ [])
    {index : Nat} :
    layoutsOfItems aliases place index items = .error e ↔
      (items.zipIdx index).mapM (fun item => item.1.layoutAt aliases
        (place ++ [itemDescent (index + items.length) item.2])) = .error e := by
  induction items generalizing index with
  | nil => exact absurd rfl nonempty
  | cons head rest ih =>
      cases rest with
      | nil =>
          have last : itemDescent (index + 1) index = .tail index := if_pos rfl
          simp only [layoutsOfItems, List.zipIdx_cons, List.zipIdx_nil, List.mapM_cons,
            List.mapM_nil, List.length_singleton, last, bind_pure_eq_error_iff, pure_bind]
      | cons second rest =>
          have first : itemDescent (index + (head :: second :: rest).length) index = .head index :=
            if_neg (by simp only [List.length_cons]; omega)
          have size : index + (head :: second :: rest).length =
              index + 1 + (second :: rest).length := by
            simp only [List.length_cons]
            omega
          have others := @ih (List.cons_ne_nil second rest) (index + 1)
          rw [layoutsOfItems_cons, List.zipIdx_cons, List.mapM_cons, bind_eq_error_iff,
            bind_eq_error_iff, first, size]
          simp only [bind_pure_eq_error_iff, others]

theorem exists_resolve?_iff {name : String}
    (plain : isReserved (Text.normalizeName name) = false) :
    (∃ type, aliases.resolve? (Text.normalizeName name) = some type) ↔ Denotes aliases name := by
  constructor
  · rintro ⟨type, resolved⟩
    refine ⟨plain, ?_⟩
    cases own : Primitive.ofName? (Text.normalizeName name) with
    | some primitive => exact .inl ⟨primitive, rfl⟩
    | none =>
        rw [AliasTable.resolve?_eq_lookup plain own] at resolved
        exact .inr (mem_names_iff.mpr ⟨type, resolved⟩)
  · rintro ⟨-, known⟩
    cases own : Primitive.ofName? (Text.normalizeName name) with
    | some primitive =>
        refine ⟨primitive, ?_⟩
        rw [AliasTable.resolve?, plain, if_neg Bool.false_ne_true, own, Option.some_or]
    | none =>
        rw [AliasTable.resolve?_eq_lookup plain own]
        rcases known with ⟨primitive, found⟩ | registered
        · cases own.symm.trans found
        · exact exists_lookup registered

/-- The sorted layouts of fields have the names of the sorted fields. -/
theorem sortFields_layoutsOfFields (fields : List (String × Definition)) :
    sortFields (layoutsOfFields aliases here fields) =
      (sortFields fields).map fun field =>
        (field.1, field.2.layoutAt aliases (here ++ [.field field.1])) := by
  rw [layoutsOfFields_eq_map]
  exact sortFields_map (fun field => field.2.layoutAt aliases (here ++ [.field field.1])) fields

theorem firstRepeated?_layoutsOfFields (fields : List (String × Definition)) :
    firstRepeated? (sortFields (layoutsOfFields aliases here fields)) =
      firstRepeated? (sortFields fields) := by
  apply firstRepeated?_of_names
  rw [sortFields_layoutsOfFields, List.map_map]
  rfl

/-- A fault of the node itself is found before anything below the node is looked at. -/
theorem layoutAt_of_fault (fault : Fault aliases here definition e) :
    definition.layoutAt aliases here = .error e := by
  cases fault with
  | reservedName reserved =>
      simp only [Definition.layoutAt, resolveType, if_pos reserved]
      rfl
  | unknownType plain unknown =>
      have unresolved := mt (exists_resolve?_iff plain).mp unknown
      rw [← Option.isSome_iff_exists, Bool.not_eq_true, Option.isSome_eq_false_iff,
        Option.isNone_iff_eq_none] at unresolved
      simp only [Definition.layoutAt, resolveType, plain, Bool.false_eq_true, if_false, unresolved]
      rfl
  | emptyMapping => rfl
  | emptySequence => rfl
  | @repeatedField fields name repeated =>
      have nonempty : fields.isEmpty = false := by
        cases fields with
        | nil => exact absurd repeated.repeated (by simp)
        | cons field rest => rfl
      have found := firstRepeated?_sortFields_iff.mpr repeated
      simp only [Definition.layoutAt, nonempty, Bool.false_eq_true, if_false,
        firstRepeated?_layoutsOfFields, found]

/-- A definition without a fault of its own fails where the first of its children fails. -/
theorem layoutAt_eq_error_iff (sound : ∀ e, ¬Fault aliases here definition e) :
    definition.layoutAt aliases here = .error e ↔
      definition.children.mapM (fun child => child.2.layoutAt aliases (here ++ [child.1])) =
        .error e := by
  cases definition with
  | type name =>
      have plain : isReserved (Text.normalizeName name) = false :=
        Bool.eq_false_iff.mpr fun reserved => sound _ (.reservedName reserved)
      have denotes : Denotes aliases name :=
        Classical.byContradiction fun unknown => sound _ (.unknownType plain unknown)
      obtain ⟨type, resolved⟩ := (exists_resolve?_iff plain).mpr denotes
      simp only [Definition.layoutAt, resolveType, plain, Bool.false_eq_true, if_false, resolved]
      constructor
      · intro failure
        cases failure
      · intro failure
        cases failure
  | mapping fields =>
      have nonempty : fields.isEmpty = false := by
        cases fields with
        | nil => exact absurd .emptyMapping (sound _)
        | cons field rest => rfl
      simp only [Definition.layoutAt, nonempty, Bool.false_eq_true, if_false,
        firstRepeated?_layoutsOfFields, unrepeated sound, bind_pure_eq_error_iff]
      rw [sortFields_layoutsOfFields, Definition.children, List.mapM_map]
      exact collectFields_eq_error_iff fun field : String × Definition =>
        field.2.layoutAt aliases (here ++ [.field field.1])
  | sequence items =>
      have nonempty : items ≠ [] := by
        rintro rfl
        exact sound _ .emptySequence
      simp only [Definition.layoutAt, bind_pure_eq_error_iff]
      rw [layoutsOfItems_eq_error_iff nonempty, Nat.zero_add, Definition.children, List.mapM_map]
      rfl

/-! ## The first fault -/

theorem fault_unique {other : DefinitionError} (fault : Fault aliases here definition e)
    (again : Fault aliases here definition other) : e = other :=
  Except.error.inj ((layoutAt_of_fault fault).symm.trans (layoutAt_of_fault again))

/-- Whether a node is faulty does not hang on where it stands. -/
theorem exists_fault (fault : Fault aliases here definition e) (there : Place) :
    ∃ other, Fault aliases there definition other := by
  cases fault with
  | reservedName reserved => exact ⟨_, .reservedName reserved⟩
  | unknownType plain unknown => exact ⟨_, .unknownType plain unknown⟩
  | emptyMapping => exact ⟨_, .emptyMapping⟩
  | emptySequence => exact ⟨_, .emptySequence⟩
  | repeatedField repeated => exact ⟨_, .repeatedField repeated⟩

theorem faultless_iff :
    Faultless aliases definition ↔ (∀ here e, ¬Fault aliases here definition e) ∧
      ∀ child ∈ definition.children, Faultless aliases child.2 := by
  constructor
  · intro none
    refine ⟨none [] definition (.self definition), fun child member place node contains => ?_⟩
    exact none (child.1 :: place) node (.cons (Definition.mem_children_iff.mp member) contains)
  · rintro ⟨own, below⟩ place node contains
    cases contains with
    | self => exact own
    | cons first others =>
        exact below (_, _) (Definition.mem_children_iff.mpr first) _ node others

/-- The fault of a node comes before those of the nodes below it. -/
theorem failsAtFirst_of_fault {fault : DefinitionError}
    (own : Fault aliases here definition fault) :
    FailsAtFirst aliases here definition e ↔ e = fault := by
  constructor
  · rintro ⟨place, node, contains, found, first⟩
    cases place with
    | nil =>
        cases contains with
        | self =>
            rw [List.append_nil] at found
            exact fault_unique found own
    | cons descent rest =>
        refine absurd .nil (first [] definition (.self definition) ⟨fault, ?_⟩)
        rwa [List.append_nil]
  · rintro rfl
    refine ⟨[], definition, .self definition, ?_, fun other faulty _ _ before => nomatch before⟩
    rwa [List.append_nil]

/-- Without a fault of the node itself the first fault is that of the first child that is not free of
faults. -/
theorem failsAtFirst_iff_children (sound : ∀ e, ¬Fault aliases here definition e) :
    FailsAtFirst aliases here definition e ↔ ∃ before child after,
      definition.children = before ++ child :: after ∧
        (∀ earlier ∈ before, Faultless aliases earlier.2) ∧
          FailsAtFirst aliases (here ++ [child.1]) child.2 e := by
  have ordered := children_before sound
  constructor
  · rintro ⟨place, node, contains, found, first⟩
    cases contains with
    | self =>
        rw [List.append_nil] at found
        exact absurd found (sound e)
    | @cons _ child _ descent rest below contains =>
        obtain ⟨before, after, split⟩ := List.append_of_mem (Definition.mem_children_iff.mpr below)
        rw [split] at ordered
        refine ⟨before, (descent, child), after, split, ?earlier, rest, node, contains, ?found, ?first⟩
        case found => rwa [List.append_assoc, List.singleton_append]
        case earlier =>
          intro earlier member place faulty inside there e fault
          have order := (List.pairwise_append.mp ordered).2.2 earlier member _ List.mem_cons_self
          have kept : (earlier.1, earlier.2) ∈ definition.children := by
            rw [split]
            exact List.mem_append_left _ member
          exact first (earlier.1 :: place) faulty
            (.cons (Definition.mem_children_iff.mp kept) inside) (exists_fault fault _) (.rel order)
        case first =>
          intro other faulty inside fault earlier
          rw [List.append_assoc, List.singleton_append] at fault
          exact first (descent :: other) faulty (.cons below inside) fault (.cons earlier)
  · rintro ⟨before, child, after, split, faultless, place, node, contains, found, first⟩
    rw [split] at ordered
    obtain ⟨-, later, apart⟩ := List.pairwise_append.mp ordered
    have below : definition.Child child.1 child.2 :=
      Definition.mem_children_iff.mp (by rw [split]; exact List.mem_append_cons_self)
    rw [List.append_assoc, List.singleton_append] at found
    refine ⟨child.1 :: place, node, .cons below contains, found, ?_⟩
    rintro other faulty inside ⟨fault, again⟩ earlier
    cases inside with
    | self =>
        rw [List.append_nil] at again
        exact sound fault again
    | @cons _ sibling _ descent rest aside inside =>
        have member := Definition.mem_children_iff.mpr aside
        rw [split] at member
        rcases List.mem_append.mp member with member | member
        · exact faultless _ member rest faulty inside _ _ again
        · rcases List.mem_cons.mp member with same | member
          · subst same
            cases earlier with
            | cons earlier =>
                refine first rest faulty inside ⟨fault, ?_⟩ earlier
                rwa [List.append_assoc, List.singleton_append]
            | rel order => exact order.asymm order
          · have order := (List.pairwise_cons.mp later).1 _ member
            cases earlier with
            | cons earlier => exact order.asymm order
            | rel reverse => exact order.asymm reverse

/-- A definition is laid out if it has no fault, and otherwise fails with its first fault. -/
structure FailsFirst (aliases : AliasTable) (definition : Definition) : Prop where
  error_iff : ∀ here e,
    definition.layoutAt aliases here = .error e ↔ FailsAtFirst aliases here definition e
  ok_iff : ∀ here,
    (∃ layout, definition.layoutAt aliases here = .ok layout) ↔ Faultless aliases definition

theorem failsFirst_of_children
    (each : ∀ child ∈ definition.children, FailsFirst aliases child.2) :
    FailsFirst aliases definition := by
  by_cases sound : ∀ here e, ¬Fault aliases here definition e
  · constructor
    · intro here e
      rw [layoutAt_eq_error_iff (sound here), mapM_eq_error_iff, failsAtFirst_iff_children (sound here)]
      constructor
      · rintro ⟨before, child, after, split, earlier, failure⟩
        have member : ∀ other ∈ before ++ child :: after, FailsFirst aliases other.2 := split ▸ each
        refine ⟨before, child, after, split, fun other inside => ?_, ?_⟩
        · exact ((member other (List.mem_append_left _ inside)).ok_iff _).mp (earlier other inside)
        · exact ((member child List.mem_append_cons_self).error_iff _ e).mp failure
      · rintro ⟨before, child, after, split, earlier, failure⟩
        have member : ∀ other ∈ before ++ child :: after, FailsFirst aliases other.2 := split ▸ each
        refine ⟨before, child, after, split, fun other inside => ?_, ?_⟩
        · exact ((member other (List.mem_append_left _ inside)).ok_iff _).mpr (earlier other inside)
        · exact ((member child List.mem_append_cons_self).error_iff _ e).mpr failure
    · intro here
      rw [exists_eq_ok_iff, faultless_iff]
      simp only [ne_eq, layoutAt_eq_error_iff (sound here)]
      rw [← exists_eq_ok_iff, exists_mapM_eq_ok_iff]
      constructor
      · intro success
        exact ⟨sound, fun child member => ((each child member).ok_iff _).mp (success child member)⟩
      · rintro ⟨-, below⟩ child member
        exact ((each child member).ok_iff _).mpr (below child member)
  · simp only [not_forall, not_not] at sound
    obtain ⟨there, e, fault⟩ := sound
    constructor
    · intro here e
      obtain ⟨own, fault⟩ := exists_fault fault here
      rw [layoutAt_of_fault fault, failsAtFirst_of_fault fault, Except.error.injEq, eq_comm]
    · intro here
      obtain ⟨own, found⟩ := exists_fault fault here
      rw [layoutAt_of_fault found]
      refine ⟨nofun, fun none => absurd fault (none [] definition (.self definition) there e)⟩

theorem failsFirst (aliases : AliasTable) (definition : Definition) :
    FailsFirst aliases definition := by
  induction definition with
  | type name => exact failsFirst_of_children (List.forall_mem_nil _)
  | mapping fields ih => exact failsFirst_of_children (Definition.forall_children_mapping.mpr ih)
  | sequence items ih => exact failsFirst_of_children (Definition.forall_children_sequence.mpr ih)

/-! ## Well-formed definitions -/

theorem no_fault_type_iff {name : String} :
    (∀ here e, ¬Fault aliases here (.type name) e) ↔ Denotes aliases name := by
  constructor
  · intro sound
    have plain : isReserved (Text.normalizeName name) = false :=
      Bool.eq_false_iff.mpr fun reserved => sound [] _ (.reservedName reserved)
    exact Classical.byContradiction fun unknown => sound [] _ (.unknownType plain unknown)
  · intro denotes here e fault
    cases fault with
    | reservedName reserved => exact absurd (denotes.plain.symm.trans reserved) Bool.false_ne_true
    | unknownType plain unknown => exact unknown denotes

theorem no_fault_mapping_iff {fields : List (String × Definition)} :
    (∀ here e, ¬Fault aliases here (.mapping fields) e) ↔
      fields ≠ [] ∧ (fields.map Prod.fst).Nodup := by
  constructor
  · intro sound
    constructor
    · rintro rfl
      exact sound [] _ .emptyMapping
    · have distinct := nodup_of_firstRepeated? (sorted_sortFields fields) (unrepeated (sound []))
      exact ((perm_sortFields fields).map Prod.fst).nodup_iff.mp distinct
  · rintro ⟨nonempty, distinct⟩ here e fault
    cases fault with
    | emptyMapping => exact nonempty rfl
    | @repeatedField _ name repeated =>
        have once := List.nodup_iff_count_le_one.mp distinct name
        have twice := repeated.repeated
        omega

theorem no_fault_sequence_iff {items : List Definition} :
    (∀ here e, ¬Fault aliases here (.sequence items) e) ↔ items ≠ [] := by
  constructor
  · rintro sound rfl
    exact sound [] _ .emptySequence
  · intro nonempty here e fault
    cases fault with
    | emptySequence => exact nonempty rfl

theorem faultless_iff_wellFormed : Faultless aliases definition ↔ definition.WellFormed aliases := by
  induction definition with
  | type name =>
      rw [faultless_iff, no_fault_type_iff]
      constructor
      · rintro ⟨denotes, -⟩
        exact .type denotes
      · intro wellFormed
        cases wellFormed with
        | type denotes => exact ⟨denotes, List.forall_mem_nil _⟩
  | mapping fields ih =>
      rw [faultless_iff, no_fault_mapping_iff, Definition.forall_children_mapping]
      constructor
      · rintro ⟨⟨nonempty, distinct⟩, below⟩
        exact .mapping nonempty distinct fun field member =>
          (ih field member).mp (below field member)
      · intro wellFormed
        cases wellFormed with
        | mapping nonempty distinct each =>
            exact ⟨⟨nonempty, distinct⟩, fun field member =>
              (ih field member).mpr (each field member)⟩
  | sequence items ih =>
      rw [faultless_iff, no_fault_sequence_iff, Definition.forall_children_sequence]
      constructor
      · rintro ⟨nonempty, below⟩
        exact .sequence nonempty fun item member => (ih item member).mp (below item member)
      · intro wellFormed
        cases wellFormed with
        | sequence nonempty each =>
            exact ⟨nonempty, fun item member => (ih item member).mpr (each item member)⟩

/-- A definition has a plan exactly if it is well-formed. Any other is refused for the fault of its
first faulty node, and the error carries the text of the place of this node. -/
theorem compile_by_faults (aliases : AliasTable) (definition : Definition) :
    ((∃ plan, definition.compile aliases = .ok plan) ↔ definition.WellFormed aliases) ∧
      ∀ e, definition.compile aliases = .error e ↔
        ∃ place node, FirstFault aliases [] definition place node e ∧
          ((∃ name, e = .reservedName name) ∨ e.path? = some (nodeText place)) := by
  have fails := failsFirst aliases definition
  constructor
  · rw [← faultless_iff_wellFormed, ← fails.ok_iff []]
    constructor
    · rintro ⟨plan, compiled⟩
      obtain ⟨layout, laidOut, -⟩ := Definition.compile_eq_ok_iff.mp compiled
      exact ⟨layout, laidOut⟩
    · rintro ⟨layout, laidOut⟩
      exact ⟨_, Definition.compile_eq_ok_iff.mpr ⟨layout, laidOut, rfl⟩⟩
  · intro e
    have refused : definition.compile aliases = .error e ↔ FailsAtFirst aliases [] definition e := by
      rw [← fails.error_iff [] e, Definition.compile, Definition.layout, bind_pure_eq_error_iff]
    rw [refused]
    constructor
    · rintro ⟨place, node, first⟩
      exact ⟨place, node, first, first.fault.path?_eq⟩
    · rintro ⟨place, node, first, -⟩
      exact ⟨place, node, first⟩

-- The field `A` comes before the field `b`, whose type is unknown, and `int32` is no fault.
example : (Definition.mapping [("b", .type "ghost"),
    ("A", .sequence [.type "int32", .mapping []])]).compile .initial =
      .error (.emptyContainer .mapping [.field "A", .tail 1]) :=
  rfl

end SchemaWire.Schema
