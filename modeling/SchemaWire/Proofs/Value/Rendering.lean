import SchemaWire.Proofs.Value.Rearranged
import SchemaWire.Value.Render

/-!
# What the text of a value depends on

A mapping is shown by what it holds under its names, in whatever order its entries come. The entries
of an ordered value are shown as they stand.
-/

set_option autoImplicit false

namespace SchemaWire

namespace Value

theorem lookup_renderEntries (entries : List (String × Value)) (name : String) :
    (renderEntries entries).lookup name = (entries.lookup name).map render := by
  induction entries with
  | nil => rfl
  | cons entry rest ih =>
      obtain ⟨other, value⟩ := entry
      rw [renderEntries, lookup_insertEntry]
      by_cases same : name = other
      · rw [if_pos same, same, lookup_cons_self, Option.map_some]
      · rw [if_neg same, lookup_cons_of_ne same, ih]

theorem ascending_renderEntries (entries : List (String × Value)) :
    Ascending (renderEntries entries) := by
  induction entries with
  | nil => exact List.Pairwise.nil
  | cons entry rest ih => exact ih.insertEntry entry.1 entry.2.render

theorem renderItems_eq_map (items : List Value) : renderItems items = items.map render := by
  induction items with
  | nil => rfl
  | cons item rest ih => rw [renderItems, ih, List.map_cons]

/-- The order of entries, at any depth, does not show. -/
theorem Rearranged.render_eq {value other : Value} (rearranged : value.Rearranged other) :
    value.render = other.render := by
  induction rearranged with
  | refl => rfl
  | @mapping entries others names _ ih =>
      have same : renderEntries entries = renderEntries others :=
        (ascending_renderEntries entries).ext (ascending_renderEntries others) fun name => by
          rw [lookup_renderEntries, lookup_renderEntries, map_lookup_eq names ih]
      rw [render, render, same]
  | @sequence items others lengths _ ih =>
      have same : items.map render = others.map render := by
        refine List.ext_getElem (by simpa using lengths) fun index inside otherInside => ?_
        rw [List.length_map] at inside otherInside
        rw [List.getElem_map, List.getElem_map]
        exact ih (List.getElem?_eq_getElem inside) (List.getElem?_eq_getElem otherInside)
      rw [render, render, renderItems_eq_map, renderItems_eq_map, same]

end Value

theorem Ascending.renderEntries_eq {entries : List (String × Value)}
    (ascending : Ascending entries) :
    Value.renderEntries entries = entries.map fun entry => (entry.1, entry.2.render) := by
  have mapped : Ascending (entries.map fun entry => (entry.1, entry.2.render)) :=
    List.pairwise_map.mpr ascending
  refine (Value.ascending_renderEntries entries).ext mapped fun name => ?_
  rw [Value.lookup_renderEntries, lookup_map]

end SchemaWire
