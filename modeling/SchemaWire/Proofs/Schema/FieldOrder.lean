import Mathlib.Data.List.Nodup
import SchemaWire.Schema.FieldOrder

/-!
# Canonical order of fields

The canonical order is a linear order of names, so sorted fields of which no two neighbours share a
name have distinct names, and the order in which fields are declared does not matter.
-/

set_option autoImplicit false

namespace SchemaWire.Schema

theorem fieldOrder_eq_compareLex :
    fieldOrder = compareLex (compareOn fun name : String => Text.lowercase name.toList)
      (compareOn String.toList) :=
  rfl

instance : Std.TransCmp fieldOrder := by
  rw [fieldOrder_eq_compareLex]
  infer_instance

theorem fieldOrder_eq_iff {left right : String} : fieldOrder left right = .eq ↔ left = right := by
  rw [fieldOrder, Ordering.then_eq_eq]
  constructor
  · rintro ⟨-, same⟩
    exact String.toList_inj.mp (Std.LawfulEqCmp.eq_of_compare same)
  · rintro rfl
    exact ⟨Std.ReflCmp.compare_self, Std.ReflCmp.compare_self⟩

variable {α : Type}

theorem mem_insertField {field other : String × α} {fields : List (String × α)} :
    other ∈ insertField field fields ↔ other = field ∨ other ∈ fields := by
  induction fields with
  | nil => simp [insertField]
  | cons next rest ih =>
      simp only [insertField]
      split
      · simp only [List.mem_cons, ih]
        grind
      · simp only [List.mem_cons]

theorem mem_sortFields {field : String × α} {fields : List (String × α)} :
    field ∈ sortFields fields ↔ field ∈ fields := by
  induction fields with
  | nil => simp [sortFields]
  | cons first rest ih => rw [sortFields, mem_insertField, ih, List.mem_cons]

/-- No field comes before one whose name precedes its own. -/
def Sorted (fields : List (String × α)) : Prop :=
  fields.Pairwise fun left right => fieldOrder left.1 right.1 ≠ .gt

theorem sorted_insertField (field : String × α) {fields : List (String × α)}
    (sorted : Sorted fields) : Sorted (insertField field fields) := by
  induction fields with
  | nil => exact List.pairwise_singleton _ _
  | cons next rest ih =>
      obtain ⟨first, others⟩ := List.pairwise_cons.mp sorted
      simp only [insertField]
      split
      · rename_i precedes
        refine List.pairwise_cons.mpr ⟨fun other member => ?_, ih others⟩
        rcases mem_insertField.mp member with rfl | member
        · rw [precedes]
          decide
        · exact first other member
      · rename_i follows
        have least : fieldOrder field.1 next.1 ≠ .gt := by
          intro greater
          exact follows (Std.OrientedCmp.lt_of_gt greater)
        refine List.pairwise_cons.mpr ⟨fun other member => ?_, sorted⟩
        rcases List.mem_cons.mp member with rfl | member
        · exact least
        · exact Ordering.isLE_iff_ne_gt.mp (Std.TransCmp.isLE_trans
            (Ordering.isLE_iff_ne_gt.mpr least) (Ordering.isLE_iff_ne_gt.mpr (first other member)))

theorem sorted_sortFields (fields : List (String × α)) : Sorted (sortFields fields) := by
  induction fields with
  | nil => exact List.Pairwise.nil
  | cons first rest ih => exact sorted_insertField first ih

/-- Equal names stand side by side in sorted fields. -/
theorem Sorted.not_mem_of_ne {first second : String × α} {rest : List (String × α)}
    (sorted : Sorted (first :: second :: rest)) (different : first.1 ≠ second.1) :
    first.1 ∉ (second :: rest).map Prod.fst := by
  intro member
  obtain ⟨least, others⟩ := List.pairwise_cons.mp sorted
  obtain ⟨other, inside, same⟩ := List.mem_map.mp member
  have upper := Ordering.isLE_iff_ne_gt.mpr (least second List.mem_cons_self)
  have lower : (fieldOrder second.1 first.1).isLE := by
    rcases List.mem_cons.mp inside with rfl | later
    · exact absurd same.symm different
    · rw [← same]
      exact Ordering.isLE_iff_ne_gt.mpr ((List.pairwise_cons.mp others).1 other later)
  exact different (fieldOrder_eq_iff.mp (Std.OrientedCmp.isLE_antisymm upper lower))

theorem nodup_of_firstRepeated? {fields : List (String × α)} (sorted : Sorted fields)
    (unrepeated : firstRepeated? fields = none) : (fields.map Prod.fst).Nodup := by
  induction fields with
  | nil => exact List.nodup_nil
  | cons first rest ih =>
      cases rest with
      | nil => simp
      | cons second rest =>
          simp only [firstRepeated?] at unrepeated
          split at unrepeated
          · cases unrepeated
          · rename_i different
            exact List.nodup_cons.mpr ⟨sorted.not_mem_of_ne different,
              ih (List.pairwise_cons.mp sorted).2 unrepeated⟩

/-- A repeated name that no other repeated name precedes. -/
structure LeastRepeated (names : List String) (name : String) : Prop where
  repeated : 2 ≤ names.count name
  least : ∀ other, 2 ≤ names.count other → fieldOrder name other ≠ .gt

theorem LeastRepeated.perm {names others : List String} {name : String}
    (repeated : LeastRepeated names name) (permuted : names.Perm others) :
    LeastRepeated others name :=
  ⟨permuted.count_eq name ▸ repeated.repeated,
    fun other again => repeated.least other (permuted.count_eq other ▸ again)⟩

theorem leastRepeated_of_firstRepeated? {fields : List (String × α)} (sorted : Sorted fields)
    {name : String} (found : firstRepeated? fields = some name) :
    LeastRepeated (fields.map Prod.fst) name := by
  induction fields with
  | nil => cases found
  | cons first rest ih =>
      cases rest with
      | nil => cases found
      | cons second rest =>
          simp only [firstRepeated?] at found
          split at found
          · rename_i same
            cases found
            refine ⟨?_, fun other repeated => ?_⟩
            · simp only [List.map_cons, same, List.count_cons_self]
              omega
            · have present := List.count_pos_iff.mp (Nat.lt_of_lt_of_le Nat.two_pos repeated)
              obtain ⟨field, inside, rfl⟩ := List.mem_map.mp present
              rcases List.mem_cons.mp inside with rfl | later
              · rw [fieldOrder_eq_iff.mpr rfl]
                decide
              · exact (List.pairwise_cons.mp sorted).1 field later
          · rename_i different
            obtain ⟨repeated, least⟩ := ih (List.pairwise_cons.mp sorted).2 found
            refine ⟨Nat.le_trans repeated List.count_le_count_cons, fun other again => least other ?_⟩
            -- The first name is not repeated, as the next one differs from it.
            by_cases here : first.1 = other
            · subst here
              have single := List.count_eq_zero_of_not_mem (sorted.not_mem_of_ne different)
              rw [List.map_cons, List.count_cons_self, single] at again
              omega
            · rwa [List.map_cons, List.count_cons_of_ne here] at again

/-- Sorted fields without repetitions come in strictly ascending order. -/
theorem ascending_of_firstRepeated? {fields : List (String × α)} (sorted : Sorted fields)
    (unrepeated : firstRepeated? fields = none) :
    (fields.map Prod.fst).Pairwise fun left right => fieldOrder left right = .lt := by
  have distinct := nodup_of_firstRepeated? sorted unrepeated
  have upper : (fields.map Prod.fst).Pairwise fun left right => fieldOrder left right ≠ .gt :=
    List.pairwise_map.mpr sorted
  refine upper.imp₂ (fun {left right} notAfter different => ?_) distinct
  cases order : fieldOrder left right with
  | lt => rfl
  | eq => exact absurd (fieldOrder_eq_iff.mp order) different
  | gt => exact absurd order notAfter

/-! ## Sorting and the order of declaration -/

theorem perm_insertField (field : String × α) (fields : List (String × α)) :
    (insertField field fields).Perm (field :: fields) := by
  induction fields with
  | nil => exact .refl _
  | cons next rest ih =>
      simp only [insertField]
      split
      · exact (ih.cons next).trans (.swap field next rest)
      · exact .refl _

theorem perm_sortFields (fields : List (String × α)) : (sortFields fields).Perm fields := by
  induction fields with
  | nil => exact .refl _
  | cons first rest ih => exact (perm_insertField first _).trans (ih.cons first)

theorem fieldOrder_antisymm {left right : String} (lower : fieldOrder left right ≠ .gt)
    (upper : fieldOrder right left ≠ .gt) : left = right :=
  fieldOrder_eq_iff.mp (Std.OrientedCmp.isLE_antisymm (Ordering.isLE_iff_ne_gt.mpr lower)
    (Ordering.isLE_iff_ne_gt.mpr upper))

theorem firstRepeated?_eq_some_iff {fields : List (String × α)} (sorted : Sorted fields)
    {name : String} :
    firstRepeated? fields = some name ↔ LeastRepeated (fields.map Prod.fst) name := by
  constructor
  · exact leastRepeated_of_firstRepeated? sorted
  · intro repeated
    cases found : firstRepeated? fields with
    | none =>
        have once := List.nodup_iff_count_le_one.mp (nodup_of_firstRepeated? sorted found) name
        have twice := repeated.repeated
        omega
    | some other =>
        have first := leastRepeated_of_firstRepeated? sorted found
        rw [fieldOrder_antisymm (first.least name repeated.repeated)
          (repeated.least other first.repeated)]

theorem perm_sortFields_of_perm {left right : List (String × α)} (permuted : left.Perm right) :
    (sortFields left).Perm (sortFields right) :=
  (perm_sortFields left).trans (permuted.trans (perm_sortFields right).symm)

/-- The names come in the same order, repetitions included, however the fields are declared. -/
theorem names_sortFields_of_perm {left right : List (String × α)} (permuted : left.Perm right) :
    (sortFields left).map Prod.fst = (sortFields right).map Prod.fst := by
  have sortedNames : ∀ fields : List (String × α), ((sortFields fields).map Prod.fst).Pairwise
      fun first second => fieldOrder first second ≠ .gt := by
    intro fields
    exact List.pairwise_map.mpr (sorted_sortFields fields)
  apply List.Perm.eq_of_pairwise ?antisymm (sortedNames left) (sortedNames right)
  · exact (perm_sortFields_of_perm permuted).map Prod.fst
  case antisymm =>
    intro first second _ _ lower upper
    exact fieldOrder_antisymm lower upper

/-- Under distinct names fields have one canonical order. -/
theorem sortFields_of_perm {left right : List (String × α)} (permuted : left.Perm right)
    (distinct : ((sortFields left).map Prod.fst).Nodup) : sortFields left = sortFields right := by
  have sameFields := perm_sortFields_of_perm permuted
  apply List.Perm.eq_of_pairwise ?antisymm (sorted_sortFields left) (sorted_sortFields right)
  · exact sameFields
  case antisymm =>
    intro first second firstInside secondInside lower upper
    have sameName := fieldOrder_antisymm lower upper
    exact List.inj_on_of_nodup_map distinct firstInside (sameFields.mem_iff.mpr secondInside)
      sameName

theorem firstRepeated?_of_names {β : Type} {left : List (String × α)} {right : List (String × β)}
    (names : left.map Prod.fst = right.map Prod.fst) :
    firstRepeated? left = firstRepeated? right := by
  induction left generalizing right with
  | nil =>
      cases right with
      | nil => rfl
      | cons other others => cases names
  | cons first rest ih =>
      cases right with
      | nil => cases names
      | cons other others =>
          obtain ⟨sameFirst, sameRest⟩ := List.cons.inj names
          have later := ih sameRest
          cases rest with
          | nil =>
              cases others with
              | nil => rfl
              | cons second others => cases sameRest
          | cons second rest =>
              cases others with
              | nil => cases sameRest
              | cons otherSecond others =>
                  obtain ⟨sameSecond, -⟩ := List.cons.inj sameRest
                  simp only [firstRepeated?, sameFirst, sameSecond, later]

/-! ## Fields by name -/

/-- Sorting looks at the names only. -/
theorem insertField_map {β : Type} (result : String × α → β) (field : String × α)
    (fields : List (String × α)) :
    insertField (field.1, result field) (fields.map fun other => (other.1, result other)) =
      (insertField field fields).map fun other => (other.1, result other) := by
  induction fields with
  | nil => rfl
  | cons next rest ih =>
      simp only [List.map_cons, insertField]
      split
      · rw [ih, List.map_cons]
      · rfl

theorem sortFields_map {β : Type} (result : String × α → β) (fields : List (String × α)) :
    sortFields (fields.map fun field => (field.1, result field)) =
      (sortFields fields).map fun field => (field.1, result field) := by
  induction fields with
  | nil => rfl
  | cons first rest ih => rw [List.map_cons, sortFields, sortFields, ih, insertField_map]

end SchemaWire.Schema
