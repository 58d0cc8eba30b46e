import SchemaWire.Proofs.Schema.PlanShape
import SchemaWire.Proofs.Schema.Rearrangement

/-!
# Plans and what they come from

The layout is read back from the steps, whatever follows them, since a step tells by its slot where
the next child starts and by its kind where a container ends. So two definitions have one plan
exactly if they are the same once fields are sorted and names are looked up.
-/

set_option autoImplicit false

namespace SchemaWire.Schema

open Outcome

/-! ## Blocks -/

section Blocks

variable {α β : Type}

/-- Blocks one after another, each of which knows its position. -/
def blocks (block : Nat → α → List β) (index : Nat) : List α → List β
  | [] => []
  | x :: rest => block index x ++ blocks block (index + 1) rest

/-- Blocks are read back up to something that closes, if none begins so and each is read back
itself. -/
theorem readBack_blocks {block : Nat → α → List β} {Closes : β → Prop}
    (opens : ∀ index x, ∃ first more, block index x = first :: more ∧ ¬Closes first)
    {xs ys : List α}
    (each : ∀ x ∈ xs, ∀ index y rest after, block index x ++ rest = block index y ++ after →
      x = y ∧ rest = after)
    {index : Nat} {last otherLast : β} {rest after : List β}
    (same : blocks block index xs ++ last :: rest = blocks block index ys ++ otherLast :: after)
    (closes : Closes last) (otherCloses : Closes otherLast) :
    xs = ys ∧ last = otherLast ∧ rest = after := by
  have clash : ∀ {x index last} {more rest after : List β}, Closes last →
      block index x ++ more ++ rest ≠ last :: after := by
    intro x index last more rest after closes same
    obtain ⟨first, others, begins, opens⟩ := opens index x
    rw [begins] at same
    exact opens ((List.cons.inj same).1 ▸ closes)
  induction xs generalizing ys index with
  | nil =>
      cases ys with
      | nil => exact ⟨rfl, List.cons.inj same⟩
      | cons y ys => exact absurd same.symm (clash closes)
  | cons x xs ih =>
      obtain ⟨first, remaining⟩ := List.forall_mem_cons.mp each
      cases ys with
      | nil => exact absurd same (clash otherCloses)
      | cons y ys =>
          rw [blocks, blocks, List.append_assoc, List.append_assoc] at same
          obtain ⟨rfl, later⟩ := first index y _ _ same
          obtain ⟨rfl, ends⟩ := ih remaining later
          exact ⟨rfl, ends⟩

end Blocks

/-! ## Reading steps back -/

/-- A step that comes after the children of a container. -/
def Step.Closes : Step → Prop
  | .closeMapping _ | .closeSequence _ _ _ _ => True
  | .leaf _ _ | .openMapping _ | .openSequence _ _ => False

/-- The first step of a node has its slot and does not close anything. -/
theorem exists_first_stepsIn (layout : Layout) (slot : Slot) (counted : Bool) :
    ∃ first rest, layout.stepsIn slot counted = first :: rest ∧ first.slot = slot ∧
      ¬first.Closes := by
  cases layout with
  | leaf type => exact ⟨_, _, rfl, rfl, id⟩
  | mapping fields => exact ⟨_, _, rfl, rfl, id⟩
  | sequence heads tail => exact ⟨_, _, rfl, rfl, id⟩

theorem slot_eq_of_stepsIn {layout other : Layout} {slot place : Slot} {counted last : Bool}
    {rest after : List Step}
    (same : layout.stepsIn slot counted ++ rest = other.stepsIn place last ++ after) :
    slot = place := by
  obtain ⟨first, others, steps, here, -⟩ := exists_first_stepsIn layout slot counted
  obtain ⟨otherFirst, otherOthers, otherSteps, there, -⟩ := exists_first_stepsIn other place last
  rw [steps, otherSteps] at same
  rw [← here, ← there, (List.cons.inj same).1]

/-- The layout and what follows its steps are determined by both together. -/
def ReadBack (layout : Layout) : Prop :=
  ∀ (other : Layout) (slot : Slot) (counted last : Bool) (rest after : List Step),
    layout.stepsIn slot counted ++ rest = other.stepsIn slot last ++ after →
      layout = other ∧ rest = after

theorem stepsOfFields_eq_blocks (fields : List (String × Layout)) (index : Nat) :
    stepsOfFields fields =
      blocks (fun _ field => field.2.stepsIn (.field field.1) true) index fields := by
  induction fields generalizing index with
  | nil => rfl
  | cons field rest ih => rw [stepsOfFields, blocks, ih (index + 1)]

theorem stepsOfHeads_eq_blocks (heads : List Layout) (index : Nat) :
    stepsOfHeads index heads =
      blocks (fun index head => head.stepsIn (.index index) true) index heads := by
  induction heads generalizing index with
  | nil => rfl
  | cons head rest ih => rw [stepsOfHeads, blocks, ih]

theorem readBack_stepsOfFields {fields : List (String × Layout)}
    (each : ∀ field ∈ fields, ReadBack field.2) {others : List (String × Layout)}
    {step otherStep : Step} {rest after : List Step}
    (same : stepsOfFields fields ++ step :: rest = stepsOfFields others ++ otherStep :: after)
    (closes : step.Closes) (otherCloses : otherStep.Closes) :
    fields = others ∧ step = otherStep ∧ rest = after := by
  rw [stepsOfFields_eq_blocks fields 0, stepsOfFields_eq_blocks others 0] at same
  refine readBack_blocks (fun _ field => ?opens) (fun field member _ other _ _ same => ?each) same
    closes otherCloses
  case opens =>
    obtain ⟨first, more, steps, -, opens⟩ := exists_first_stepsIn field.2 (.field field.1) true
    exact ⟨first, more, steps, opens⟩
  case each =>
    obtain ⟨name, layout⟩ := field
    obtain ⟨otherName, otherLayout⟩ := other
    cases slot_eq_of_stepsIn same
    obtain ⟨rfl, later⟩ := each _ member otherLayout _ _ _ _ _ same
    exact ⟨rfl, later⟩

theorem readBack_stepsOfHeads {heads : List Layout} (each : ∀ head ∈ heads, ReadBack head)
    {others : List Layout} {index : Nat} {step otherStep : Step} {rest after : List Step}
    (same : stepsOfHeads index heads ++ step :: rest =
      stepsOfHeads index others ++ otherStep :: after)
    (closes : step.Closes) (otherCloses : otherStep.Closes) :
    heads = others ∧ step = otherStep ∧ rest = after := by
  rw [stepsOfHeads_eq_blocks, stepsOfHeads_eq_blocks] at same
  refine readBack_blocks (fun index head => ?opens) (fun head member index other rest after same =>
    each head member other (.index index) true true rest after same) same closes otherCloses
  obtain ⟨first, more, steps, -, opens⟩ := exists_first_stepsIn head (.index index) true
  exact ⟨first, more, steps, opens⟩

theorem ReadBack.asTail {tail : Layout} (readBack : ReadBack tail) {other : Layout}
    (same : tail.asTail (tail.stepsIn .whole true) = other.asTail (other.stepsIn .whole true)) :
    tail = other := by
  have ofSteps : tail.stepsIn .whole true = other.stepsIn .whole true → tail = other := by
    intro steps
    refine (readBack other .whole true true [] [] ?_).1
    rw [steps]
  cases tail with
  | leaf type =>
      cases other with
      | leaf otherType =>
          cases same
          rfl
      | mapping | sequence => cases same
  | mapping | sequence =>
      cases other with
      | leaf otherType => cases same
      | mapping | sequence => exact ofSteps (Tail.plan.inj same)

theorem readBack_layout (layout : Layout) : ReadBack layout := by
  induction layout with
  | leaf type =>
      intro other slot counted last rest after same
      cases other with
      | leaf otherType =>
          cases same
          exact ⟨rfl, rfl⟩
      | mapping | sequence => cases (List.cons.inj same).1
  | mapping fields ih =>
      intro other slot counted last rest after same
      cases other with
      | leaf | sequence => cases (List.cons.inj same).1
      | mapping others =>
          simp only [Layout.stepsIn, List.cons_append, List.append_assoc, List.nil_append] at same
          obtain ⟨rfl, -, rfl⟩ :=
            readBack_stepsOfFields ih (List.cons.inj same).2 trivial trivial
          exact ⟨rfl, rfl⟩
  | sequence heads tail headsIh tailIh =>
      intro other slot counted last rest after same
      cases other with
      | leaf | mapping => cases (List.cons.inj same).1
      | sequence others otherTail =>
          simp only [Layout.stepsIn, List.cons_append, List.append_assoc, List.nil_append] at same
          obtain ⟨rfl, closing, rfl⟩ :=
            readBack_stepsOfHeads headsIh (List.cons.inj same).2 trivial trivial
          simp only [Step.closeSequence.injEq, true_and] at closing
          obtain ⟨tails, -⟩ := closing
          obtain rfl := tailIh.asTail tails
          exact ⟨rfl, rfl⟩

theorem plan_inj {layout other : Layout} : layout.plan = other.plan ↔ layout = other := by
  constructor
  · intro same
    refine (readBack_layout layout other .whole false false [] [] ?_).1
    rw [List.append_nil, List.append_nil]
    exact same
  · rintro rfl
    rfl

/-! ## Settled definitions -/

mutual

/-- The definition with its fields in canonical order and, at every leaf, the name of the type that
the leaf denotes. A name that denotes nothing stays. -/
def Definition.settled (aliases : AliasTable) : Definition → Definition
  | .type name =>
    match aliases.resolve? (Text.normalizeName name) with
    | some type => .type type.name
    | none => .type name
  | .mapping fields => .mapping (sortFields (settledFields aliases fields))
  | .sequence items => .sequence (settledItems aliases items)

def settledFields (aliases : AliasTable) : List (String × Definition) → List (String × Definition)
  | [] => []
  | (name, definition) :: rest => (name, definition.settled aliases) :: settledFields aliases rest

def settledItems (aliases : AliasTable) : List Definition → List Definition
  | [] => []
  | item :: rest => item.settled aliases :: settledItems aliases rest

end

mutual

/-- The definition that a layout is, with primitive types for names. -/
def Layout.definition : Layout → Definition
  | .leaf type => .type type.name
  | .mapping fields => .mapping (definitionsOfFields fields)
  | .sequence heads tail => .sequence (definitionsOfHeads heads ++ [tail.definition])

def definitionsOfFields : List (String × Layout) → List (String × Definition)
  | [] => []
  | (name, layout) :: rest => (name, layout.definition) :: definitionsOfFields rest

def definitionsOfHeads : List Layout → List Definition
  | [] => []
  | head :: rest => head.definition :: definitionsOfHeads rest

end

theorem settledFields_eq_map (aliases : AliasTable) (fields : List (String × Definition)) :
    settledFields aliases fields = fields.map fun field => (field.1, field.2.settled aliases) := by
  induction fields with
  | nil => rfl
  | cons field rest ih => rw [settledFields, ih, List.map_cons]

theorem resolveType_eq_ok {aliases : AliasTable} {place : Place} {name : String} {type : Primitive}
    (resolved : resolveType aliases place name = .ok type) :
    aliases.resolve? (Text.normalizeName name) = some type := by
  simp only [resolveType] at resolved
  split at resolved
  · cases resolved
  · split at resolved
    · rename_i found
      cases resolved
      exact found
    · cases resolved

/-- What a layout of a field comes from is settled as the layout is. -/
def SettledAs (aliases : AliasTable) (definition : Definition) : Prop :=
  ∀ (place : Place) (layout : Layout), definition.layoutAt aliases place = .ok layout →
    definition.settled aliases = layout.definition

theorem settled_of_collectFields {aliases : AliasTable} {place : Place}
    {fields : List (String × Definition)} (each : ∀ field ∈ fields, SettledAs aliases field.2)
    {laidOut : List (String × Layout)}
    (collected : collectFields (fields.map fun field =>
      (field.1, field.2.layoutAt aliases (place ++ [.field field.1]))) = .ok laidOut) :
    fields.map (fun field => (field.1, field.2.settled aliases)) = definitionsOfFields laidOut := by
  induction fields generalizing laidOut with
  | nil =>
      cases collected
      rfl
  | cons field rest ih =>
      obtain ⟨first, others⟩ := List.forall_mem_cons.mp each
      obtain ⟨layout, here, collected⟩ := bind_eq_ok_iff.mp collected
      obtain ⟨remaining, later, rfl⟩ := bind_pure_eq_ok_iff.mp collected
      rw [List.map_cons, ih others later, first _ _ here, definitionsOfFields]

theorem settled_of_layoutsOfItems {aliases : AliasTable} {place : Place} {items : List Definition}
    (each : ∀ item ∈ items, SettledAs aliases item) {index : Nat} {heads : List Layout}
    {tail : Layout} (laidOut : layoutsOfItems aliases place index items = .ok (heads, tail)) :
    settledItems aliases items = definitionsOfHeads heads ++ [tail.definition] := by
  induction items generalizing index heads with
  | nil => cases laidOut
  | cons item rest ih =>
      obtain ⟨first, others⟩ := List.forall_mem_cons.mp each
      cases rest with
      | nil =>
          obtain ⟨layout, here, same⟩ := bind_pure_eq_ok_iff.mp laidOut
          cases same
          rw [settledItems, settledItems, first _ _ here, definitionsOfHeads, List.nil_append]
      | cons second rest =>
          rw [layoutsOfItems_cons] at laidOut
          obtain ⟨layout, here, laidOut⟩ := bind_eq_ok_iff.mp laidOut
          obtain ⟨⟨remaining, last⟩, later, same⟩ := bind_pure_eq_ok_iff.mp laidOut
          cases same
          rw [settledItems, ih others later, first _ _ here, definitionsOfHeads, List.cons_append]

theorem settledAs_layout {aliases : AliasTable} (definition : Definition) :
    SettledAs aliases definition := by
  induction definition with
  | type name =>
      intro place layout laidOut
      rw [Definition.layoutAt] at laidOut
      obtain ⟨type, resolved, rfl⟩ := bind_pure_eq_ok_iff.mp laidOut
      rw [Definition.settled, resolveType_eq_ok resolved, Layout.definition]
  | mapping fields ih =>
      intro place layout laidOut
      rw [Definition.layoutAt] at laidOut
      split at laidOut
      · cases laidOut
      · dsimp only at laidOut
        split at laidOut
        · cases laidOut
        · obtain ⟨sorted, collected, rfl⟩ := bind_pure_eq_ok_iff.mp laidOut
          -- Sorting does not look at what stands under a name, so it can come first.
          have layoutsSorted : sortFields (layoutsOfFields aliases place fields) =
              (sortFields fields).map fun field =>
                (field.1, field.2.layoutAt aliases (place ++ [.field field.1])) := by
            rw [layoutsOfFields_eq_map]
            exact sortFields_map _ fields
          have settledSorted : sortFields (settledFields aliases fields) =
              (sortFields fields).map fun field => (field.1, field.2.settled aliases) := by
            rw [settledFields_eq_map]
            exact sortFields_map _ fields
          rw [layoutsSorted] at collected
          rw [Definition.settled, settledSorted, Layout.definition, settled_of_collectFields
            (fun field member => ih field (mem_sortFields.mp member)) collected]
  | sequence items ih =>
      intro place layout laidOut
      rw [Definition.layoutAt] at laidOut
      obtain ⟨⟨heads, tail⟩, parts, rfl⟩ := bind_pure_eq_ok_iff.mp laidOut
      rw [Definition.settled, Layout.definition, settled_of_layoutsOfItems ih parts]

/-! ## Layouts and their definitions -/

/-- A layout is known from its definition. -/
def Defined (layout : Layout) : Prop :=
  ∀ other : Layout, layout.definition = other.definition → layout = other

theorem defined_fields {fields : List (String × Layout)} (each : ∀ field ∈ fields, Defined field.2)
    {others : List (String × Layout)}
    (same : definitionsOfFields fields = definitionsOfFields others) : fields = others := by
  induction fields generalizing others with
  | nil =>
      cases others with
      | nil => rfl
      | cons other others => cases same
  | cons field rest ih =>
      obtain ⟨first, remaining⟩ := List.forall_mem_cons.mp each
      cases others with
      | nil => cases same
      | cons other others =>
          obtain ⟨here, later⟩ := List.cons.inj same
          obtain ⟨name, child⟩ := Prod.mk.inj here
          rw [ih remaining later, Prod.ext name (first _ child)]

theorem defined_heads {heads : List Layout} (each : ∀ head ∈ heads, Defined head)
    {others : List Layout} (same : definitionsOfHeads heads = definitionsOfHeads others) :
    heads = others := by
  induction heads generalizing others with
  | nil =>
      cases others with
      | nil => rfl
      | cons other others => cases same
  | cons head rest ih =>
      obtain ⟨first, remaining⟩ := List.forall_mem_cons.mp each
      cases others with
      | nil => cases same
      | cons other others =>
          obtain ⟨here, later⟩ := List.cons.inj same
          rw [ih remaining later, first _ here]

theorem defined_layout (layout : Layout) : Defined layout := by
  induction layout with
  | leaf type =>
      intro other same
      cases other with
      | leaf otherType => rw [Primitive.name_inj.mp (Definition.type.inj same)]
      | mapping | sequence => cases same
  | mapping fields ih =>
      intro other same
      cases other with
      | leaf | sequence => cases same
      | mapping others => rw [defined_fields ih (Definition.mapping.inj same)]
  | sequence heads tail ih tailIh =>
      intro other same
      cases other with
      | leaf | mapping => cases same
      | sequence others otherTail =>
          obtain ⟨sameHeads, sameTail⟩ := List.append_inj' (Definition.sequence.inj same) rfl
          rw [defined_heads ih sameHeads, tailIh _ (List.singleton_inj.mp sameTail)]

/-! ## Compiled plans -/

/-- A compiled plan has the shape of a tree and tells what it was compiled from, up to the order of
fields and the names of types. -/
theorem plan_of_compile {aliases : AliasTable} {definition : Definition} {plan : Plan}
    (compiled : definition.compile aliases = .ok plan) :
    plan.WellFormed ∧ (plan.isSequence = true ↔ ∃ items, definition = .sequence items) ∧
      ∀ (other : Definition) (otherPlan : Plan), other.compile aliases = .ok otherPlan →
        (plan = otherPlan ↔ definition.settled aliases = other.settled aliases) := by
  obtain ⟨layout, laidOut, rfl⟩ := Definition.compile_eq_ok_iff.mp compiled
  refine ⟨(Definition.layout_ordered laidOut).plan_wellFormed, ?_, ?_⟩
  · rw [← exists_sequence_iff laidOut]
    cases layout with
    | leaf | mapping => simp [Layout.plan, Layout.stepsIn, Plan.isSequence]
    | sequence heads tail => exact ⟨fun _ => ⟨heads, tail, rfl⟩, fun _ => rfl⟩
  · intro other otherPlan otherCompiled
    obtain ⟨otherLayout, otherLaidOut, rfl⟩ := Definition.compile_eq_ok_iff.mp otherCompiled
    rw [plan_inj, settledAs_layout definition [] layout laidOut,
      settledAs_layout other [] otherLayout otherLaidOut]
    exact ⟨congrArg Layout.definition, defined_layout layout otherLayout⟩

/-- The order of fields and the spelling of types are lost, the heads of a sequence are not. -/
theorem plan_of_compile_rows :
    (Definition.mapping [("b", .type "bool"),
        ("A", .sequence [.mapping [("y", .type " Int8"), ("x", .type "string")]])]).settled
          .initial =
      (Definition.mapping [("A", .sequence [.mapping [("x", .type "string"), ("y", .type "int8")]]),
        ("b", .type "boolean")]).settled .initial ∧
      (Definition.mapping [("b", .type "bool"),
        ("A", .sequence [.mapping [("y", .type " Int8"), ("x", .type "string")]])]).settled
          .initial ≠
      (Definition.mapping [("A", .sequence [.type "int8",
        .mapping [("x", .type "string"), ("y", .type "int8")]]), ("b", .type "boolean")]).settled
          .initial ∧
      Plan.WellFormed (Layout.plan (.mapping
        [("A", .sequence [] (.mapping [("x", .leaf .string), ("y", .leaf .int8)])),
          ("b", .leaf .boolean)])) := by
  have compiled : (Definition.mapping [("b", .type "bool"),
      ("A", .sequence [.mapping [("y", .type " Int8"), ("x", .type "string")]])]).compile
        .initial = .ok (Layout.plan (.mapping
          [("A", .sequence [] (.mapping [("x", .leaf .string), ("y", .leaf .int8)])),
            ("b", .leaf .boolean)])) := rfl
  obtain ⟨wellFormed, -, identity⟩ := plan_of_compile compiled
  refine ⟨(identity _ _ rfl).mp rfl, fun same => ?_, wellFormed⟩
  have plans := (identity _ _ rfl).mpr same
  cases plan_inj.mp plans

end SchemaWire.Schema
