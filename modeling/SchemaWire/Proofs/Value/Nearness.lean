import Mathlib.Data.List.Perm.Subperm
import SchemaWire.Proofs.Floating.Difference
import SchemaWire.Proofs.Value.Entries

/-!
# Approximate equality as a relation

Values are near up to a tolerance if they have the same shape and the same scalars, but for floats,
which need only be close. Approximate equality decides this relation, although it looks up the names
of one mapping only: two mappings of as many distinct names have the same names if the one has all
names of the other. So it does not matter which of two values is compared with which.
-/

set_option autoImplicit false

namespace SchemaWire

open Floating (Binary64)

theorem names_perm_of_subset {α β : Type} {left : List (String × α)} {right : List (String × β)}
    (distinct : (left.map Prod.fst).Nodup) (lengths : left.length = right.length)
    (present : ∀ entry ∈ left, entry.1 ∈ right.map Prod.fst) :
    (left.map Prod.fst).Perm (right.map Prod.fst) := by
  have included : left.map Prod.fst ⊆ right.map Prod.fst := by
    intro name member
    obtain ⟨entry, inside, rfl⟩ := List.mem_map.mp member
    exact present entry inside
  have counted : (left.map Prod.fst).length = (right.map Prod.fst).length := by
    rw [List.length_map, List.length_map, lengths]
  exact (List.subperm_of_subset distinct included).perm_of_length_le (Nat.le_of_eq counted.symm)

namespace Value

@[elab_as_elim]
theorem induction {motive : Value → Prop} (boolean : ∀ value, motive (.boolean value))
    (integer : ∀ value, motive (.integer value)) (float : ∀ value, motive (.float value))
    (text : ∀ value, motive (.text value)) (bytes : ∀ value, motive (.bytes value))
    (mapping : ∀ entries, (∀ entry ∈ entries, motive entry.2) → motive (.mapping entries))
    (sequence : ∀ items, (∀ item ∈ items, motive item) → motive (.sequence items)) :
    ∀ value, motive value := fun value =>
  @Value.rec motive (fun entries => ∀ entry ∈ entries, motive entry.2)
    (fun items => ∀ item ∈ items, motive item) (fun entry => motive entry.2)
    boolean integer float text bytes mapping sequence (by simp)
    (fun _ _ first others => List.forall_mem_cons.mpr ⟨first, others⟩) (by simp)
    (fun _ _ first others => List.forall_mem_cons.mpr ⟨first, others⟩) (fun _ _ child => child)
    value

/-! ## Nearness -/

/-- The same shape and the same scalars, where floats need only be close. -/
inductive Near (tolerance : Binary64) : Value → Value → Prop where
  | boolean (value : Bool) : Near tolerance (.boolean value) (.boolean value)
  | integer (value : Int64) : Near tolerance (.integer value) (.integer value)
  | float {left right : Binary64} (close : left.closeTo tolerance right = true) :
      Near tolerance (.float left) (.float right)
  | text (value : String) : Near tolerance (.text value) (.text value)
  | bytes (value : List UInt8) : Near tolerance (.bytes value) (.bytes value)
  | mapping {left right : List (String × Value)}
      (names : (left.map Prod.fst).Perm (right.map Prod.fst))
      (each : ∀ {name x y}, left.lookup name = some x → right.lookup name = some y →
        Near tolerance x y) : Near tolerance (.mapping left) (.mapping right)
  | sequence {left right : List Value} (lengths : left.length = right.length)
      (each : ∀ {index : Nat} {x y}, left[index]? = some x → right[index]? = some y →
        Near tolerance x y) : Near tolerance (.sequence left) (.sequence right)

variable {tolerance wider : Binary64} {left right : Value}

theorem Near.refl (tolerance : Binary64) (value : Value) : Near tolerance value value := by
  induction value using Value.induction with
  | boolean value => exact .boolean value
  | integer value => exact .integer value
  | float value => exact .float (Binary64.closeTo_self value tolerance)
  | text value => exact .text value
  | bytes value => exact .bytes value
  | mapping entries ih =>
      refine .mapping (List.Perm.refl _) fun found other => ?_
      cases found.symm.trans other
      exact ih _ (mem_of_lookup found)
  | sequence items ih =>
      refine .sequence rfl fun found other => ?_
      cases found.symm.trans other
      exact ih _ (List.mem_of_getElem? found)

theorem Near.symm (near : Near tolerance left right) : Near tolerance right left := by
  induction near with
  | boolean value => exact .boolean value
  | integer value => exact .integer value
  | float close => exact .float (Binary64.closeTo_comm _ tolerance _ ▸ close)
  | text value => exact .text value
  | bytes value => exact .bytes value
  | mapping names each ih => exact .mapping names.symm fun found other => ih other found
  | sequence lengths each ih => exact .sequence lengths.symm fun found other => ih other found

theorem Near.of_le (near : Near tolerance left right) (order : tolerance.le wider = true) :
    Near wider left right := by
  induction near with
  | boolean value => exact .boolean value
  | integer value => exact .integer value
  | float close => exact .float (Binary64.closeTo_of_le close order)
  | text value => exact .text value
  | bytes value => exact .bytes value
  | mapping names each ih => exact .mapping names ih
  | sequence lengths each ih => exact .sequence lengths ih

/-! ## Deciding nearness -/

theorem approxEntries_eq_true_iff {others entries : List (String × Value)} :
    approxEntries tolerance others entries = true ↔ ∀ entry ∈ entries,
      ∃ other, others.lookup entry.1 = some other ∧ entry.2.approxEq tolerance other = true := by
  induction entries with
  | nil => simp [approxEntries]
  | cons entry rest ih =>
      rw [approxEntries, Bool.and_eq_true, ih, List.forall_mem_cons]
      refine and_congr_left fun _ => ?_
      cases others.lookup entry.1 <;> simp

theorem approxItems_eq_true_iff {left right : List Value} (lengths : left.length = right.length) :
    approxItems tolerance left right = true ↔ ∀ {index : Nat} {x y}, left[index]? = some x →
      right[index]? = some y → x.approxEq tolerance y = true := by
  induction left generalizing right with
  | nil => simp [approxItems]
  | cons value rest ih =>
      cases right with
      | nil => cases lengths
      | cons other others =>
          rw [approxItems, Bool.and_eq_true, ih (Nat.succ.inj lengths)]
          constructor
          · intro ⟨first, remaining⟩ index x y found otherFound
            cases index with
            | zero =>
                cases found
                cases otherFound
                exact first
            | succ index => exact remaining found otherFound
          · intro each
            exact ⟨@each 0 _ _ rfl rfl, fun {index} _ _ found otherFound =>
              @each (index + 1) _ _ found otherFound⟩

/-- Only floats, mappings and sequences are compared in a way of their own. -/
theorem near_of_beq (same : (left == right) = true) : Near tolerance left right :=
  eq_of_beq same ▸ Near.refl tolerance left

/-- The names that are not looked up are there as well, because the names that are looked up are
distinct and as many. -/
theorem near_of_approxEq (ordered : left.Ordered) (agree : left.approxEq tolerance right = true) :
    Near tolerance left right := by
  induction ordered generalizing right with
  | boolean value | integer value | text value | bytes value =>
      rw [approxEq] at agree
      · exact near_of_beq agree
      all_goals exact nofun
  | float value =>
      cases right with
      | float other => exact .float agree
      | _ => cases eq_of_beq agree
  | @mapping entries ascending each ih =>
      cases right with
      | mapping others =>
          obtain ⟨lengths, agree⟩ := Bool.and_eq_true_iff.mp agree
          have found := approxEntries_eq_true_iff.mp agree
          refine .mapping (names_perm_of_subset ascending.nodup (beq_iff_eq.mp lengths)
            fun entry member => ?_) fun {name x y} held otherHeld => ?_
          · obtain ⟨other, present, -⟩ := found entry member
            exact mem_names_iff.mpr ⟨other, present⟩
          · have member := mem_of_lookup held
            obtain ⟨other, present, near⟩ := found _ member
            cases present.symm.trans otherHeld
            exact ih _ member near
      | _ => cases eq_of_beq agree
  | @sequence items each ih =>
      cases right with
      | sequence others =>
          obtain ⟨lengths, agree⟩ := Bool.and_eq_true_iff.mp agree
          have same := beq_iff_eq.mp lengths
          exact .sequence same fun found otherFound =>
            ih _ (List.mem_of_getElem? found)
              ((approxItems_eq_true_iff same).mp agree found otherFound)
      | _ => cases eq_of_beq agree

theorem approxEq_of_near (ordered : left.Ordered) (near : Near tolerance left right) :
    left.approxEq tolerance right = true := by
  induction near with
  | boolean value | integer value | text value | bytes value => exact beq_self_eq_true _
  | float close => exact close
  | @mapping entries others names each ih =>
      cases ordered with
      | mapping ascending parts =>
          have lengths : entries.length = others.length := by
            simpa only [List.length_map] using names.length_eq
          refine Bool.and_eq_true_iff.mpr ⟨beq_iff_eq.mpr lengths,
            approxEntries_eq_true_iff.mpr fun entry member => ?_⟩
          have held := lookup_of_mem ascending.nodup member
          obtain ⟨other, found⟩ := exists_lookup_of_names names.symm held
          exact ⟨other, found, ih held found (parts entry member)⟩
  | sequence lengths each ih =>
      cases ordered with
      | sequence parts =>
          exact Bool.and_eq_true_iff.mpr ⟨beq_iff_eq.mpr lengths,
            (approxItems_eq_true_iff lengths).mpr fun found otherFound =>
              ih found otherFound (parts _ (List.mem_of_getElem? found))⟩

theorem approxEq_eq_true_iff (ordered : left.Ordered) :
    left.approxEq tolerance right = true ↔ Near tolerance left right :=
  ⟨near_of_approxEq ordered, approxEq_of_near ordered⟩

/-- Approximate equality is reflexive and symmetric, holds of equal values, and goes on to hold if
the tolerance becomes wider. -/
theorem approxEq_laws (leftOrdered : left.Ordered) (rightOrdered : right.Ordered)
    (tolerance : Binary64) :
    left.approxEq tolerance left = true ∧
      left.approxEq tolerance right = right.approxEq tolerance left ∧
      ((left == right) = true → left.approxEq tolerance right = true) ∧
      ∀ wider, tolerance.le wider = true → left.approxEq tolerance right = true →
        left.approxEq wider right = true := by
  refine ⟨approxEq_of_near leftOrdered (.refl tolerance left), ?symmetric, fun same => ?equal,
    fun wider order agree => ?wider⟩
  case symmetric =>
    rw [Bool.eq_iff_iff, approxEq_eq_true_iff leftOrdered, approxEq_eq_true_iff rightOrdered]
    exact ⟨Near.symm, Near.symm⟩
  case equal => exact approxEq_of_near leftOrdered (near_of_beq same)
  case wider =>
    have near := near_of_approxEq leftOrdered agree
    exact approxEq_of_near leftOrdered (near.of_le order)

/-- Fields in another order, two patterns that are no numbers, and numbers that differ by exactly
the tolerance. -/
theorem approxEq_laws_reordered :
    (ofFields [("x", .float .one), ("n", .sequence [.float .nan])]).Ordered ∧
      (ofFields [("n", .sequence [.float ⟨0xfff8000000000001⟩]),
        ("x", .float ⟨0x3ff8000000000000⟩)]).Ordered ∧
      Binary64.le ⟨0x3fe0000000000000⟩ .one = true ∧
      (ofFields [("x", .float .one), ("n", .sequence [.float .nan])]).approxEq .nan
        (ofFields [("x", .float .one), ("n", .sequence [.float .nan])]) = true ∧
      (ofFields [("n", .sequence [.float ⟨0xfff8000000000001⟩]),
        ("x", .float ⟨0x3ff8000000000000⟩)]).approxEq ⟨0x3fe0000000000000⟩
          (ofFields [("x", .float .one), ("n", .sequence [.float .nan])]) = true ∧
      (ofFields [("x", .float .one), ("n", .sequence [.float .nan])]).approxEq .one
        (ofFields [("n", .sequence [.float ⟨0xfff8000000000001⟩]),
          ("x", .float ⟨0x3ff8000000000000⟩)]) = true := by
  have leftOrdered : (ofFields [("x", .float .one), ("n", .sequence [.float .nan])]).Ordered :=
    ordered_ofFields (List.forall_mem_cons.mpr ⟨.float _, List.forall_mem_singleton.mpr
      (.sequence (List.forall_mem_singleton.mpr (.float _)))⟩)
  have rightOrdered : (ofFields [("n", .sequence [.float ⟨0xfff8000000000001⟩]),
      ("x", .float ⟨0x3ff8000000000000⟩)]).Ordered :=
    ordered_ofFields (List.forall_mem_cons.mpr
      ⟨.sequence (List.forall_mem_singleton.mpr (.float _)),
        List.forall_mem_singleton.mpr (.float _)⟩)
  have order : Binary64.le ⟨0x3fe0000000000000⟩ .one = true := by
    decide +kernel
  have agree : (ofFields [("x", .float .one), ("n", .sequence [.float .nan])]).approxEq
      ⟨0x3fe0000000000000⟩ (ofFields [("n", .sequence [.float ⟨0xfff8000000000001⟩]),
        ("x", .float ⟨0x3ff8000000000000⟩)]) = true := by
    decide +kernel
  obtain ⟨-, symmetric, -, widened⟩ :=
    approxEq_laws leftOrdered rightOrdered ⟨0x3fe0000000000000⟩
  exact ⟨leftOrdered, rightOrdered, order, (approxEq_laws leftOrdered rightOrdered .nan).1,
    symmetric.symm.trans agree, widened .one order agree⟩

end Value

end SchemaWire
