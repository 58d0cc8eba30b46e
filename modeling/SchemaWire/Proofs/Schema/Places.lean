import SchemaWire.Proofs.Schema.Rearrangement

/-!
# Definitions and the places where they stand

The place of a definition is for its faults only. Where a definition is laid out it is laid out as
anywhere else, so a sequence without its heads has the elements that it has behind them.
-/

set_option autoImplicit false

namespace SchemaWire.Schema

open Outcome

/-- The layouts of fields, as far as there are any. -/
def laidOutFields (fields : List (String × Except DefinitionError Layout)) :
    List (String × Option Layout) :=
  fields.map fun field => (field.1, field.2.toOption)

/-- A definition has the same layout, if any, wherever it stands. -/
def PlaceFree (aliases : AliasTable) (definition : Definition) : Prop :=
  ∀ place other : Place,
    (definition.layoutAt aliases place).toOption = (definition.layoutAt aliases other).toOption

variable {aliases : AliasTable}

theorem toOption_resolveType (place other : Place) (name : String) :
    (resolveType aliases place name).toOption = (resolveType aliases other name).toOption := by
  simp only [resolveType]
  split
  · rfl
  · cases aliases.resolve? (Text.normalizeName name) <;> rfl

theorem toOption_collectFields {left right : List (String × Except DefinitionError Layout)}
    (same : laidOutFields left = laidOutFields right) :
    (collectFields left).toOption = (collectFields right).toOption := by
  induction left generalizing right with
  | nil =>
      cases right with
      | nil => rfl
      | cons other others => cases same
  | cons field rest ih =>
      cases right with
      | nil => cases same
      | cons other others =>
          obtain ⟨sameFirst, sameRest⟩ := List.cons.inj same
          obtain ⟨name, outcome⟩ := field
          obtain ⟨otherName, otherOutcome⟩ := other
          obtain ⟨rfl, sameOutcome⟩ := Prod.mk.inj sameFirst
          simp only [collectFields, toOption_bind, ih sameRest, sameOutcome]

theorem laidOutFields_layoutsOfFields {fields : List (String × Definition)}
    (each : ∀ field ∈ fields, PlaceFree aliases field.2) (place other : Place) :
    laidOutFields (layoutsOfFields aliases place fields) =
      laidOutFields (layoutsOfFields aliases other fields) := by
  rw [layoutsOfFields_eq_map, layoutsOfFields_eq_map, laidOutFields, laidOutFields, List.map_map,
    List.map_map]
  refine List.map_congr_left fun field member => ?_
  exact congrArg (Prod.mk field.1) (each field member _ _)

theorem laidOutFields_sortFields (fields : List (String × Except DefinitionError Layout)) :
    laidOutFields (sortFields fields) = sortFields (laidOutFields fields) := by
  rw [laidOutFields, laidOutFields]
  exact (sortFields_map (fun field => Except.toOption field.2) fields).symm

theorem map_fst_laidOutFields (fields : List (String × Except DefinitionError Layout)) :
    (laidOutFields fields).map Prod.fst = fields.map Prod.fst := by
  rw [laidOutFields, List.map_map]
  rfl

theorem toOption_layoutsOfItems {items : List Definition}
    (each : ∀ item ∈ items, PlaceFree aliases item) (place other : Place) (index position : Nat) :
    (layoutsOfItems aliases place index items).toOption =
      (layoutsOfItems aliases other position items).toOption := by
  induction items generalizing index position with
  | nil => rfl
  | cons head rest ih =>
      obtain ⟨first, others⟩ := List.forall_mem_cons.mp each
      cases rest with
      | nil =>
          simp only [layoutsOfItems, toOption_bind]
          rw [first _ (other ++ [.tail position])]
      | cons second rest =>
          simp only [layoutsOfItems_cons, toOption_bind]
          rw [first _ (other ++ [.head position]), ih others (index + 1) (position + 1)]

theorem placeFree (definition : Definition) : PlaceFree aliases definition := by
  induction definition with
  | type name =>
      intro place other
      simp only [Definition.layoutAt, toOption_bind, toOption_resolveType place other]
  | mapping fields ih =>
      intro place other
      have sorted : laidOutFields (sortFields (layoutsOfFields aliases place fields)) =
          laidOutFields (sortFields (layoutsOfFields aliases other fields)) := by
        rw [laidOutFields_sortFields, laidOutFields_sortFields,
          laidOutFields_layoutsOfFields ih place other]
      have names := congrArg (List.map Prod.fst) sorted
      rw [map_fst_laidOutFields, map_fst_laidOutFields] at names
      simp only [Definition.layoutAt, firstRepeated?_of_names names]
      split
      · rfl
      · split
        · rfl
        · simp only [toOption_bind, toOption_collectFields sorted]
  | sequence items ih =>
      intro place other
      simp only [Definition.layoutAt, toOption_bind, toOption_layoutsOfItems ih place other 0 0]

/-! ## Sequences without their heads -/

theorem layoutsOfItems_append {heads : List Definition} {last : Definition} {place : Place}
    {index : Nat} {headLayouts : List Layout} {tail : Layout}
    (laidOut : layoutsOfItems aliases place index (heads ++ [last]) = .ok (headLayouts, tail)) :
    headLayouts.length = heads.length ∧
      ∃ here, last.layoutAt aliases here = .ok tail := by
  induction heads generalizing index headLayouts with
  | nil =>
      obtain ⟨layout, success, same⟩ := bind_pure_eq_ok_iff.mp laidOut
      cases same
      exact ⟨rfl, _, success⟩
  | cons head rest ih =>
      obtain ⟨second, others, split⟩ :=
        List.exists_cons_of_ne_nil (List.append_ne_nil_of_right_ne_nil rest (List.cons_ne_nil last []))
      rw [List.cons_append, split, layoutsOfItems_cons, ← split] at laidOut
      obtain ⟨first, -, laidOut⟩ := bind_eq_ok_iff.mp laidOut
      obtain ⟨⟨restLayouts, found⟩, success, same⟩ := bind_pure_eq_ok_iff.mp laidOut
      cases same
      obtain ⟨length, here, lastLaidOut⟩ := ih success
      exact ⟨congrArg (· + 1) length, here, lastLaidOut⟩

/-- The last item of a sequence is laid out on its own as behind the others. -/
theorem layout_sequence_append {heads : List Definition} {last : Definition} {layout : Layout}
    (laidOut : (Definition.sequence (heads ++ [last])).layout aliases = .ok layout) :
    ∃ headLayouts tail, layout = .sequence headLayouts tail ∧ headLayouts.length = heads.length ∧
      (Definition.sequence [last]).layout aliases = .ok (.sequence [] tail) := by
  rw [Definition.layout, Definition.layoutAt] at laidOut
  obtain ⟨⟨headLayouts, tail⟩, success, same⟩ := bind_pure_eq_ok_iff.mp laidOut
  cases same
  obtain ⟨length, here, lastLaidOut⟩ := layoutsOfItems_append success
  have alone : last.layoutAt aliases [.tail 0] = .ok tail := by
    rw [← toOption_eq_some_iff, placeFree last _ here, toOption_eq_some_iff, lastLaidOut]
  refine ⟨headLayouts, tail, rfl, length, ?_⟩
  simp only [Definition.layout, Definition.layoutAt, layoutsOfItems, List.nil_append, alone]
  rfl

end SchemaWire.Schema
