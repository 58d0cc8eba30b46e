import SchemaWire.Proofs.Value.Entries

/-!
# Values with their entries in another order

Of all values that differ in the order of entries only, one at the most is ordered. So ordered values
are equal where finite maps are.
-/

set_option autoImplicit false

namespace SchemaWire

/-- The same value with the entries of its mappings, at any depth, in another order. -/
inductive Value.Rearranged : Value → Value → Prop where
  | refl (value : Value) : Rearranged value value
  | mapping {entries others : List (String × Value)}
      (names : (entries.map Prod.fst).Perm (others.map Prod.fst))
      (each : ∀ {name value other}, entries.lookup name = some value →
        others.lookup name = some other → Rearranged value other) :
      Rearranged (.mapping entries) (.mapping others)
  | sequence {items others : List Value} (lengths : items.length = others.length)
      (each : ∀ {index : Nat} {value other}, items[index]? = some value →
        others[index]? = some other → Rearranged value other) :
      Rearranged (.sequence items) (.sequence others)

/-- A value that has no parts. -/
def Value.IsScalar : Value → Prop
  | .mapping _ | .sequence _ => False
  | .boolean _ | .integer _ | .float _ | .text _ | .bytes _ => True

namespace Value.Rearranged

variable {entries : List (String × Value)} {items : List Value} {value other : Value}

theorem eq_of_isScalar (rearranged : value.Rearranged other) (scalar : value.IsScalar) :
    other = value := by
  cases rearranged with
  | refl => rfl
  | mapping => cases scalar
  | sequence => cases scalar

theorem exists_entries (rearranged : (Value.mapping entries).Rearranged other) :
    ∃ others, other = .mapping others ∧ (entries.map Prod.fst).Perm (others.map Prod.fst) ∧
      ∀ {name first second}, entries.lookup name = some first → others.lookup name = some second →
        first.Rearranged second := by
  cases rearranged with
  | refl =>
      refine ⟨entries, rfl, .refl _, fun {name first second} found same => ?_⟩
      cases found.symm.trans same
      exact .refl first
  | mapping names each => exact ⟨_, rfl, names, each⟩

theorem exists_items (rearranged : (Value.sequence items).Rearranged other) :
    ∃ others, other = .sequence others ∧ items.length = others.length ∧
      ∀ {index : Nat} {first second}, items[index]? = some first → others[index]? = some second →
        first.Rearranged second := by
  cases rearranged with
  | refl =>
      refine ⟨items, rfl, rfl, fun {index first second} found same => ?_⟩
      cases found.symm.trans same
      exact .refl first
  | sequence lengths each => exact ⟨_, rfl, lengths, each⟩

end Value.Rearranged

/-- Ordered values that differ in the order of entries only are the same. -/
theorem Value.Ordered.eq_of_rearranged {value other : Value} (ordered : value.Ordered)
    (otherOrdered : other.Ordered) (rearranged : value.Rearranged other) : value = other := by
  induction rearranged with
  | refl value => rfl
  | @mapping entries others names _ ih =>
      cases ordered with
      | mapping ascending each =>
      cases otherOrdered with
      | mapping otherAscending otherEach =>
      congr 1
      refine ascending.ext otherAscending fun name => ?_
      have same := map_lookup_eq names (fun {name x y} held otherHeld => show id x = id y from
        ih held otherHeld (each _ (mem_of_lookup held)) (otherEach _ (mem_of_lookup otherHeld))) name
      rwa [Option.map_id, id, id] at same
  | @sequence items others lengths _ ih =>
      cases ordered with
      | sequence each =>
      cases otherOrdered with
      | sequence otherEach =>
      congr 1
      refine List.ext_getElem lengths fun index inside otherInside => ?_
      exact ih (List.getElem?_eq_getElem inside) (List.getElem?_eq_getElem otherInside)
        (each _ (List.getElem_mem inside)) (otherEach _ (List.getElem_mem otherInside))

end SchemaWire
