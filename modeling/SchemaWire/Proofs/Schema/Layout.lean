import SchemaWire.Proofs.Outcome
import SchemaWire.Proofs.Schema.FieldOrder
import SchemaWire.Schema.Plan

/-!
# Well-formed layouts

What holds of every layout of a definition: mappings have fields, of distinct names and in canonical
order. Definitions and layouts are trees with lists of children, for which induction gives the
property of every child.
-/

set_option autoImplicit false

namespace SchemaWire.Schema

open Outcome

/-! ## Induction -/

@[elab_as_elim, induction_eliminator]
theorem Definition.induction {motive : Definition → Prop}
    (type : ∀ name, motive (.type name))
    (mapping : ∀ fields, (∀ field ∈ fields, motive field.2) → motive (.mapping fields))
    (sequence : ∀ items, (∀ item ∈ items, motive item) → motive (.sequence items)) :
    ∀ definition, motive definition := fun definition =>
  @Definition.rec motive (fun fields => ∀ field ∈ fields, motive field.2)
    (fun items => ∀ item ∈ items, motive item) (fun field => motive field.2)
    type mapping sequence (by simp)
    (fun _ _ first others => List.forall_mem_cons.mpr ⟨first, others⟩) (by simp)
    (fun _ _ first others => List.forall_mem_cons.mpr ⟨first, others⟩) (fun _ _ child => child)
    definition

@[elab_as_elim, induction_eliminator]
theorem Layout.induction {motive : Layout → Prop}
    (leaf : ∀ type, motive (.leaf type))
    (mapping : ∀ fields, (∀ field ∈ fields, motive field.2) → motive (.mapping fields))
    (sequence : ∀ heads tail, (∀ head ∈ heads, motive head) → motive tail →
      motive (.sequence heads tail)) :
    ∀ layout, motive layout := fun layout =>
  @Layout.rec motive (fun fields => ∀ field ∈ fields, motive field.2)
    (fun heads => ∀ head ∈ heads, motive head) (fun field => motive field.2)
    leaf mapping sequence (by simp)
    (fun _ _ first others => List.forall_mem_cons.mpr ⟨first, others⟩) (by simp)
    (fun _ _ first others => List.forall_mem_cons.mpr ⟨first, others⟩) (fun _ _ child => child)
    layout

/-! ## Well-formedness -/

/-- Every mapping has fields, and their names are distinct. -/
inductive Layout.WellFormed : Layout → Prop where
  | leaf (type : Primitive) : WellFormed (.leaf type)
  | mapping {fields : List (String × Layout)} (nonempty : fields ≠ [])
      (distinct : (fields.map Prod.fst).Nodup) (each : ∀ field ∈ fields, field.2.WellFormed) :
      WellFormed (.mapping fields)
  | sequence {heads : List Layout} {tail : Layout} (each : ∀ head ∈ heads, head.WellFormed)
      (last : tail.WellFormed) : WellFormed (.sequence heads tail)

theorem Layout.WellFormed.tail {heads : List Layout} {tail : Layout}
    (wellFormed : (Layout.sequence heads tail).WellFormed) : tail.WellFormed := by
  cases wellFormed with
  | sequence each last => exact last

theorem Layout.WellFormed.withoutHeads {heads : List Layout} {tail : Layout}
    (wellFormed : (Layout.sequence heads tail).WellFormed) : (Layout.sequence [] tail).WellFormed :=
  .sequence (List.forall_mem_nil _) wellFormed.tail

/-- Every mapping has fields, and their names come in strictly ascending order. -/
inductive Layout.Ordered : Layout → Prop where
  | leaf (type : Primitive) : Ordered (.leaf type)
  | mapping {fields : List (String × Layout)} (nonempty : fields ≠ [])
      (ascending : (fields.map Prod.fst).Pairwise fun left right => fieldOrder left right = .lt)
      (each : ∀ field ∈ fields, field.2.Ordered) : Ordered (.mapping fields)
  | sequence {heads : List Layout} {tail : Layout} (each : ∀ head ∈ heads, head.Ordered)
      (last : tail.Ordered) : Ordered (.sequence heads tail)

theorem Layout.Ordered.wellFormed {layout : Layout} (ordered : layout.Ordered) :
    layout.WellFormed := by
  induction ordered with
  | leaf type => exact .leaf type
  | mapping nonempty ascending each ih =>
      refine .mapping nonempty (ascending.imp fun {left right} before => ?_) ih
      rintro rfl
      rw [fieldOrder_eq_iff.mpr rfl] at before
      cases before
  | sequence each last ih lastIh => exact .sequence ih lastIh

/-! ## Layouts of definitions -/

theorem mem_layoutsOfFields {aliases : AliasTable} {place : Place}
    {fields : List (String × Definition)} {name : String}
    {outcome : Except DefinitionError Layout}
    (member : (name, outcome) ∈ layoutsOfFields aliases place fields) :
    ∃ field ∈ fields, outcome = field.2.layoutAt aliases (place ++ [.field name]) := by
  induction fields with
  | nil => cases member
  | cons field rest ih =>
      rw [layoutsOfFields] at member
      rcases List.mem_cons.mp member with same | member
      · cases same
        exact ⟨field, List.mem_cons_self, rfl⟩
      · obtain ⟨found, inside, same⟩ := ih member
        exact ⟨found, List.mem_cons_of_mem _ inside, same⟩

theorem ne_nil_of_sortFields {aliases : AliasTable} {place : Place}
    {fields : List (String × Definition)} (nonempty : fields ≠ []) :
    sortFields (layoutsOfFields aliases place fields) ≠ [] := by
  cases fields with
  | nil => exact absurd rfl nonempty
  | cons field rest =>
      have member := mem_sortFields.mpr
        (List.mem_cons_self : _ ∈ layoutsOfFields aliases place (field :: rest))
      exact List.ne_nil_of_mem member

/-- Fields are collected under their names, and each from a success. -/
theorem collectFields_eq_ok {ε α : Type} {fields : List (String × Except ε α)}
    {collected : List (String × α)} (success : collectFields fields = .ok collected) :
    collected.map Prod.fst = fields.map Prod.fst ∧
      ∀ field ∈ collected, (field.1, .ok field.2) ∈ fields := by
  induction fields generalizing collected with
  | nil =>
      cases success
      exact ⟨rfl, by simp⟩
  | cons field rest ih =>
      obtain ⟨name, outcome⟩ := field
      obtain ⟨first, rfl, success⟩ := bind_eq_ok_iff.mp success
      obtain ⟨others, remaining, rfl⟩ := bind_pure_eq_ok_iff.mp success
      obtain ⟨names, each⟩ := ih remaining
      refine ⟨by rw [List.map_cons, names, List.map_cons], List.forall_mem_cons.mpr
        ⟨List.mem_cons_self, fun field member => List.mem_cons_of_mem _ (each field member)⟩⟩

theorem layoutsOfItems_ordered {aliases : AliasTable} {items : List Definition}
    (each : ∀ item ∈ items, ∀ (place : Place) (layout : Layout),
      item.layoutAt aliases place = .ok layout → layout.Ordered)
    {place : Place} {index : Nat} {heads : List Layout} {tail : Layout}
    (success : layoutsOfItems aliases place index items = .ok (heads, tail)) :
    (∀ head ∈ heads, head.Ordered) ∧ tail.Ordered := by
  induction items generalizing index heads with
  | nil => cases success
  | cons first rest ih =>
      have firstOk := each first List.mem_cons_self
      cases rest with
      | nil =>
          obtain ⟨layout, laidOut, same⟩ := bind_pure_eq_ok_iff.mp success
          cases same
          exact ⟨by simp, firstOk _ _ laidOut⟩
      | cons second rest =>
          obtain ⟨layout, laidOut, success⟩ := bind_eq_ok_iff.mp success
          obtain ⟨⟨others, last⟩, remaining, same⟩ := bind_pure_eq_ok_iff.mp success
          cases same
          obtain ⟨othersOk, lastOk⟩ := ih
            (fun item member => each item (List.mem_cons_of_mem _ member)) remaining
          exact ⟨List.forall_mem_cons.mpr ⟨firstOk _ _ laidOut, othersOk⟩, lastOk⟩

theorem layoutAt_ordered {aliases : AliasTable} (definition : Definition) :
    ∀ (place : Place) (layout : Layout),
      definition.layoutAt aliases place = .ok layout → layout.Ordered := by
  induction definition with
  | type name =>
      intro place layout success
      rw [Definition.layoutAt] at success
      obtain ⟨type, -, rfl⟩ := bind_pure_eq_ok_iff.mp success
      exact .leaf type
  | mapping fields ih =>
      intro place layout success
      rw [Definition.layoutAt] at success
      split at success
      · cases success
      · rename_i nonempty
        dsimp only at success
        split at success
        · cases success
        · rename_i unrepeated
          obtain ⟨laidOut, collected, rfl⟩ := bind_pure_eq_ok_iff.mp success
          obtain ⟨names, each⟩ := collectFields_eq_ok collected
          have sorted := sorted_sortFields (layoutsOfFields aliases place fields)
          refine .mapping ?_ ?_ ?_
          · intro empty
            have written : fields ≠ [] := by simpa using nonempty
            rw [empty, List.map_nil] at names
            exact ne_nil_of_sortFields written (List.map_eq_nil_iff.mp names.symm)
          · rw [names]
            exact ascending_of_firstRepeated? sorted unrepeated
          · intro field member
            obtain ⟨declared, inside, success⟩ :=
              mem_layoutsOfFields (mem_sortFields.mp (each field member))
            exact ih declared inside _ _ success.symm
  | sequence items ih =>
      intro place layout success
      rw [Definition.layoutAt] at success
      obtain ⟨⟨heads, tail⟩, laidOut, rfl⟩ := bind_pure_eq_ok_iff.mp success
      obtain ⟨each, last⟩ := layoutsOfItems_ordered ih laidOut
      exact .sequence each last

theorem Definition.compile_eq_ok_iff {aliases : AliasTable} {definition : Definition}
    {plan : Plan} :
    definition.compile aliases = .ok plan ↔
      ∃ layout, definition.layout aliases = .ok layout ∧ layout.plan = plan :=
  bind_pure_eq_ok_iff

theorem Definition.layout_ordered {aliases : AliasTable} {definition : Definition}
    {layout : Layout} (success : definition.layout aliases = .ok layout) : layout.Ordered :=
  layoutAt_ordered definition [] layout success

theorem Definition.layout_wellFormed {aliases : AliasTable} {definition : Definition}
    {layout : Layout} (success : definition.layout aliases = .ok layout) : layout.WellFormed :=
  (Definition.layout_ordered success).wellFormed

/-- Exactly the sequences are laid out as sequences. -/
theorem exists_sequence_iff {aliases : AliasTable} {definition : Definition} {layout : Layout}
    (laidOut : definition.layout aliases = .ok layout) :
    (∃ heads tail, layout = .sequence heads tail) ↔ ∃ items, definition = .sequence items := by
  rw [Definition.layout] at laidOut
  cases definition with
  | type name =>
      rw [Definition.layoutAt] at laidOut
      obtain ⟨type, -, rfl⟩ := bind_pure_eq_ok_iff.mp laidOut
      simp
  | mapping fields =>
      rw [Definition.layoutAt] at laidOut
      split at laidOut
      · cases laidOut
      · dsimp only at laidOut
        split at laidOut
        · cases laidOut
        · obtain ⟨fields, -, rfl⟩ := bind_pure_eq_ok_iff.mp laidOut
          simp
  | sequence items =>
      rw [Definition.layoutAt] at laidOut
      obtain ⟨⟨heads, tail⟩, -, rfl⟩ := bind_pure_eq_ok_iff.mp laidOut
      exact ⟨fun _ => ⟨items, rfl⟩, fun _ => ⟨heads, tail, rfl⟩⟩

end SchemaWire.Schema
