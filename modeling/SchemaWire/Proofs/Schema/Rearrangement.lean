import Mathlib.Data.List.Forall2
import SchemaWire.Proofs.Schema.Layout
import SchemaWire.Session

/-!
# The order of declaration

Mappings may declare their fields in any order. Definitions that differ in this only are laid out
alike, and where they cannot be laid out they have the same first fault.
-/

set_option autoImplicit false

namespace SchemaWire.Schema

namespace Definition

/-- Two definitions that differ in the order in which their mappings, at any depth, declare their
fields. Nothing is required of the fields, so names may be repeated and leaves may be faulty. -/
inductive Rearranged : Definition → Definition → Prop where
  | type (name : String) : Rearranged (.type name) (.type name)
  | mapping {fields matched others : List (String × Definition)} (permuted : fields.Perm matched)
      (names : matched.map Prod.fst = others.map Prod.fst)
      (each : List.Forall₂ Rearranged (matched.map Prod.snd) (others.map Prod.snd)) :
      Rearranged (.mapping fields) (.mapping others)
  | sequence {items others : List Definition} (each : List.Forall₂ Rearranged items others) :
      Rearranged (.sequence items) (.sequence others)

@[elab_as_elim]
theorem Rearranged.induction {motive : Definition → Definition → Prop}
    (type : ∀ name, motive (.type name) (.type name))
    (mapping : ∀ {fields matched others : List (String × Definition)}, fields.Perm matched →
      matched.map Prod.fst = others.map Prod.fst →
        List.Forall₂ motive (matched.map Prod.snd) (others.map Prod.snd) →
          motive (.mapping fields) (.mapping others))
    (sequence : ∀ {items others : List Definition}, List.Forall₂ motive items others →
      motive (.sequence items) (.sequence others)) :
    ∀ {left right : Definition}, left.Rearranged right → motive left right :=
  @Rearranged.rec (fun left right _ => motive left right)
    (fun items others _ => List.Forall₂ motive items others) type
    (fun permuted names _ each => mapping permuted names each) (fun _ each => sequence each)
    .nil (fun _ _ first rest => .cons first rest)

end Definition

/-! ## Layouts -/

/-- Two definitions have the same layout, or the same first fault, wherever they stand. -/
def LaidOutAlike (aliases : AliasTable) (left right : Definition) : Prop :=
  ∀ place, left.layoutAt aliases place = right.layoutAt aliases place

theorem layoutsOfFields_eq_map (aliases : AliasTable) (place : Place)
    (fields : List (String × Definition)) :
    layoutsOfFields aliases place fields =
      fields.map fun field => (field.1, field.2.layoutAt aliases (place ++ [.field field.1])) := by
  induction fields with
  | nil => rfl
  | cons field rest ih => rw [layoutsOfFields, ih, List.map_cons]

theorem layoutsOfFields_alike {aliases : AliasTable} (place : Place)
    {fields others : List (String × Definition)}
    (names : fields.map Prod.fst = others.map Prod.fst)
    (each : List.Forall₂ (LaidOutAlike aliases) (fields.map Prod.snd) (others.map Prod.snd)) :
    layoutsOfFields aliases place fields = layoutsOfFields aliases place others := by
  induction fields generalizing others with
  | nil =>
      cases others with
      | nil => rfl
      | cons other others => cases names
  | cons field rest ih =>
      cases others with
      | nil => cases names
      | cons other others =>
          obtain ⟨sameName, sameNames⟩ := List.cons.inj names
          cases each with
          | cons first remaining =>
              rw [layoutsOfFields, layoutsOfFields, ih sameNames remaining, sameName, first]

theorem layoutsOfItems_cons (aliases : AliasTable) (place : Place) (index : Nat)
    (head second : Definition) (rest : List Definition) :
    layoutsOfItems aliases place index (head :: second :: rest) = (do
      let first ← head.layoutAt aliases (place ++ [.head index])
      let (heads, tail) ← layoutsOfItems aliases place (index + 1) (second :: rest)
      return (first :: heads, tail)) := by
  rw [layoutsOfItems]
  exact List.cons_ne_nil _ _

theorem layoutsOfItems_alike {aliases : AliasTable} (place : Place) {items others : List Definition}
    (each : List.Forall₂ (LaidOutAlike aliases) items others) (index : Nat) :
    layoutsOfItems aliases place index items = layoutsOfItems aliases place index others := by
  induction each generalizing index with
  | nil => rfl
  | cons first remaining ih =>
      cases remaining with
      | nil => rw [layoutsOfItems, layoutsOfItems, first]
      | cons second remaining => rw [layoutsOfItems_cons, layoutsOfItems_cons, first, ih]

/-- A mapping is laid out from its fields in canonical order, so their order does not matter. A
name that is declared twice is refused before the fields are looked at. -/
theorem layoutAt_mapping_of_perm {aliases : AliasTable} {place : Place}
    {fields others : List (String × Definition)}
    (permuted : (layoutsOfFields aliases place fields).Perm
      (layoutsOfFields aliases place others)) :
    (Definition.mapping fields).layoutAt aliases place =
      (Definition.mapping others).layoutAt aliases place := by
  have lengths := permuted.length_eq
  rw [layoutsOfFields_eq_map, layoutsOfFields_eq_map, List.length_map, List.length_map] at lengths
  have empty : fields.isEmpty = others.isEmpty := by
    rw [Bool.eq_iff_iff, List.isEmpty_iff_length_eq_zero, List.isEmpty_iff_length_eq_zero, lengths]
  have repeated := firstRepeated?_of_names (names_sortFields_of_perm permuted)
  simp only [Definition.layoutAt, empty, repeated]
  cases unrepeated : firstRepeated? (sortFields (layoutsOfFields aliases place others)) with
  | some name => rfl
  | none =>
      have distinct := nodup_of_firstRepeated? (sorted_sortFields _) (repeated.trans unrepeated)
      rw [sortFields_of_perm permuted distinct]

theorem Definition.Rearranged.laidOutAlike {aliases : AliasTable} {left right : Definition}
    (rearranged : left.Rearranged right) : LaidOutAlike aliases left right := by
  refine rearranged.induction (motive := LaidOutAlike aliases) ?type ?mapping ?sequence
  case type =>
    intro name place
    rfl
  case mapping =>
    intro fields matched others permuted names each place
    have sameLayouts := layoutsOfFields_alike place names each
    apply layoutAt_mapping_of_perm
    rw [← sameLayouts, layoutsOfFields_eq_map, layoutsOfFields_eq_map]
    exact permuted.map _
  case sequence =>
    intro items others each place
    rw [Definition.layoutAt, Definition.layoutAt, layoutsOfItems_alike place each]

/-! ## Codecs -/

/-- The order of declaration reaches neither the plan nor the first fault, and so no codec. -/
theorem compile_of_rearranged {left right : Definition} (rearranged : left.Rearranged right)
    (aliases : AliasTable) :
    left.compile aliases = right.compile aliases ∧
      ∀ (encoding? : Option String) (validate? : Option Bool) (defaults : Codec.Options),
        Blueprint.build ⟨.definition left, encoding?, validate?⟩ aliases defaults =
          Blueprint.build ⟨.definition right, encoding?, validate?⟩ aliases defaults := by
  have compiled : left.compile aliases = right.compile aliases := by
    rw [Definition.compile, Definition.compile, Definition.layout, Definition.layout,
      rearranged.laidOutAlike]
  refine ⟨compiled, ?_⟩
  intro encoding? validate? defaults
  have built : ∀ options, Builder.build ⟨left, options⟩ aliases =
      Builder.build ⟨right, options⟩ aliases := by
    intro options
    rw [Builder.build, Builder.build, compiled]
  rw [Blueprint.build, Blueprint.build, Blueprint.builder, Blueprint.builder]
  cases (encodingOr defaults.encoding encoding?).mapError BuildError.encoding with
  | error e => rfl
  | ok encoding => exact congrArg (Except.mapError BuildError.definition) (built _)

theorem compile_of_rearranged_faulty :
    (Definition.mapping [("b", .type "uint8"), ("A", .sequence [.mapping [("y", .type "int8"),
      ("x", .type "Void")]]), ("B", .type "bool")]).Rearranged (.mapping [("B", .type "bool"),
        ("A", .sequence [.mapping [("x", .type "Void"), ("y", .type "int8")]]),
        ("b", .type "uint8")]) ∧
    (Definition.mapping [("b", .type "uint8"), ("A", .sequence [.mapping [("y", .type "int8"),
      ("x", .type "Void")]]), ("B", .type "bool")]).compile .initial =
        .error (.unknownType "Void" [.field "A", .tail 0, .field "x"]) := by
  have inner : (Definition.mapping [("y", .type "int8"), ("x", .type "Void")]).Rearranged
      (.mapping [("x", .type "Void"), ("y", .type "int8")]) :=
    .mapping (.swap _ _ _) rfl (.cons (.type _) (.cons (.type _) .nil))
  have rearranged : (Definition.mapping [("b", .type "uint8"),
      ("A", .sequence [.mapping [("y", .type "int8"), ("x", .type "Void")]]),
      ("B", .type "bool")]).Rearranged (.mapping [("B", .type "bool"),
        ("A", .sequence [.mapping [("x", .type "Void"), ("y", .type "int8")]]),
        ("b", .type "uint8")]) :=
    .mapping (List.reverse_perm _).symm rfl
      (.cons (.type _) (.cons (.sequence (.cons inner .nil)) (.cons (.type _) .nil)))
  have fault : (Definition.mapping [("B", .type "bool"),
      ("A", .sequence [.mapping [("x", .type "Void"), ("y", .type "int8")]]),
      ("b", .type "uint8")]).compile .initial =
        .error (.unknownType "Void" [.field "A", .tail 0, .field "x"]) := rfl
  exact ⟨rearranged, (compile_of_rearranged rearranged .initial).1.trans fault⟩

end SchemaWire.Schema
