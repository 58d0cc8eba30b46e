import Mathlib.Data.List.Forall2
import SchemaWire.Proofs.Codec.Parts
import SchemaWire.Proofs.Value.Entries

/-!
# What of a value is relevant

A schema names the entries of a mapping that are encoded. Whatever else a mapping holds reaches
neither the bytes nor the size nor an error, although an error shows the whole value that is to
blame: a mapping is to blame only where the schema has none, and there all of it counts. The order
in which entries are inserted is lost in the value already.
-/

set_option autoImplicit false

namespace SchemaWire.Codec

open Outcome
open Schema (AliasTable Definition Layout Plan)

/-- Two values that differ at most in entries that the layout does not name, and in the order of
entries, where both have a mapping for a mapping of the layout. -/
inductive Coincide : Layout → Value → Value → Prop where
  | same (layout : Layout) (value : Value) : Coincide layout value value
  | mapping {fields : List (String × Layout)} {entries others : List (String × Value)}
      (present : ∀ field ∈ fields,
        (entries.lookup field.1).isSome = (others.lookup field.1).isSome)
      (each : ∀ field ∈ fields, ∀ value other, entries.lookup field.1 = some value →
        others.lookup field.1 = some other → Coincide field.2 value other) :
      Coincide (.mapping fields) (.mapping entries) (.mapping others)
  /-- An index behind the heads belongs to the element that is repeated. -/
  | sequence {heads : List Layout} {tail : Layout} {items others : List Value}
      (length : items.length = others.length)
      (each : ∀ (index : Nat) (value other : Value), items[index]? = some value →
        others[index]? = some other → Coincide (heads[index]?.getD tail) value other) :
      Coincide (.sequence heads tail) (.sequence items) (.sequence others)

/-- Two values that are written and measured alike, failures included. -/
structure Alike (options : Options) (layout : Layout) (value other : Value) : Prop where
  written (path : Path) (counted : Bool) :
    writeLayout options.encoding path counted value layout =
      writeLayout options.encoding path counted other layout
  measured (path : Path) (counted : Bool) :
    measureLayout options path counted (.ok value) layout =
      measureLayout options path counted (.ok other) layout

/-- Two children that are both missing, or are both there and alike. -/
abbrev ChildrenAlike (options : Options) (layout : Layout) : Option Value → Option Value → Prop :=
  Option.Rel (Alike options layout)

variable {options : Options}

theorem ChildrenAlike.of_isSome {layout : Layout} {value? other? : Option Value}
    (present : value?.isSome = other?.isSome)
    (each : ∀ value other, value? = some value → other? = some other →
      Alike options layout value other) : ChildrenAlike options layout value? other? := by
  cases value? with
  | none =>
      cases other? with
      | none => exact .none
      | some other => cases present
  | some value =>
      cases other? with
      | none => cases present
      | some other => exact .some (each value other rfl rfl)

namespace ChildrenAlike

variable {layout : Layout} {value? other? : Option Value}

theorem written (alike : ChildrenAlike options layout value? other?) (path : Path) :
    (do let value ← orMissing path value?; writeLayout options.encoding path true value layout) =
      (do let value ← orMissing path other?
          writeLayout options.encoding path true value layout) := by
  cases alike with
  | none => rfl
  | some alike => exact alike.written path true

theorem measured (alike : ChildrenAlike options layout value? other?) (path : Path) :
    measureLayout options path true (orMissing path value?) layout =
      measureLayout options path true (orMissing path other?) layout := by
  cases alike with
  | none => rfl
  | some alike => exact alike.measured path true

end ChildrenAlike

/-! ## Mappings -/

section

variable {fields : List (String × Layout)} {entries others : List (String × Value)}
  (each : ∀ field ∈ fields,
    ChildrenAlike options field.2 (entries.lookup field.1) (others.lookup field.1))

include each

theorem writeFields_alike (path : Path) :
    writeFields options.encoding path entries fields =
      writeFields options.encoding path others fields := by
  induction fields with
  | nil => rfl
  | cons field rest ih =>
      obtain ⟨first, remaining⟩ := List.forall_mem_cons.mp each
      have written := first.written (path ++ [.field field.1])
      simp only [writeFields, fieldValue_eq, ih remaining]
      rw [← bind_assoc, written, bind_assoc]

theorem measureFields_alike (path : Path) :
    measureFields options path entries fields = measureFields options path others fields := by
  induction fields with
  | nil => rfl
  | cons field rest ih =>
      obtain ⟨first, remaining⟩ := List.forall_mem_cons.mp each
      simp only [measureFields, fieldValue_eq, ih remaining, first.measured]

end

/-! ## Sequences -/

section

variable {heads : List Layout} {items others : List Value}
  (each : ∀ (index : Nat) (head : Layout), heads[index]? = some head →
    ChildrenAlike options head items[index]? others[index]?)

include each

theorem writeHeads_alike (path : Path) (index : Nat) :
    writeHeads options.encoding path index items heads =
      writeHeads options.encoding path index others heads := by
  induction heads generalizing items others index with
  | nil => rfl
  | cons head rest ih =>
      have first := each 0 head rfl
      rw [← List.head?_eq_getElem?, ← List.head?_eq_getElem?] at first
      have later : ∀ (offset : Nat) (found : Layout), rest[offset]? = some found →
          ChildrenAlike options found items.tail[offset]? others.tail[offset]? := by
        intro offset found inside
        simpa only [List.getElem?_tail] using each (offset + 1) found inside
      have remaining := ih later (index + 1)
      have written := first.written (path ++ [.index index])
      simp only [writeHeads, headValue_eq, remaining]
      rw [← bind_assoc, written, bind_assoc]

theorem measureHeads_alike (path : Path) (index : Nat) :
    measureHeads options path index items heads = measureHeads options path index others heads := by
  induction heads generalizing items others index with
  | nil => rfl
  | cons head rest ih =>
      have first := each 0 head rfl
      rw [← List.head?_eq_getElem?, ← List.head?_eq_getElem?] at first
      have later : ∀ (offset : Nat) (found : Layout), rest[offset]? = some found →
          ChildrenAlike options found items.tail[offset]? others.tail[offset]? := by
        intro offset found inside
        simpa only [List.getElem?_tail] using each (offset + 1) found inside
      have remaining := ih later (index + 1)
      simp only [measureHeads, headValue_eq, remaining, first.measured]

end

section

variable {tail : Layout} {items others : List Value}
  (each : List.Forall₂ (Alike options tail) items others)

include each

theorem writeItems_alike (path : Path) (index : Nat) :
    writeItems (fun place item => writeLayout options.encoding place true item tail) path index
        items =
      writeItems (fun place item => writeLayout options.encoding place true item tail) path index
        others := by
  induction each generalizing index with
  | nil => rfl
  | cons first rest ih => simp only [writeItems, first.written, ih]

theorem measureRepeated_alike (path : Path) (index : Nat) :
    measureRepeated options (layoutWidth? tail)
        (fun place item => measureLayout options place true (.ok item) tail) path index items =
      measureRepeated options (layoutWidth? tail)
        (fun place item => measureLayout options place true (.ok item) tail) path index others := by
  have length := each.length_eq
  have summed : ∀ index,
      sumOfItems (fun place item => measureLayout options place true (.ok item) tail) path index
          items =
        sumOfItems (fun place item => measureLayout options place true (.ok item) tail) path index
          others := by
    clear length
    induction each with
    | nil => exact fun index => rfl
    | cons first rest ih =>
        intro index
        simp only [sumOfItems, first.measured, ih]
  simp only [measureRepeated, length, summed]

end

/-! ## Layouts -/

theorem Alike.mapping {fields : List (String × Layout)} {entries others : List (String × Value)}
    (each : ∀ field ∈ fields,
      ChildrenAlike options field.2 (entries.lookup field.1) (others.lookup field.1)) :
    Alike options (.mapping fields) (.mapping entries) (.mapping others) where
  written path _ := writeFields_alike each path
  measured path _ := measureFields_alike each path

theorem Alike.sequence {heads : List Layout} {tail : Layout} {items others : List Value}
    (length : items.length = others.length)
    (headsAlike : ∀ (index : Nat) (head : Layout), heads[index]? = some head →
      ChildrenAlike options head items[index]? others[index]?)
    (tailAlike : List.Forall₂ (Alike options tail) (items.drop heads.length)
      (others.drop heads.length)) :
    Alike options (.sequence heads tail) (.sequence items) (.sequence others) where
  written path counted := by
    simp only [writeLayout, length, writeHeads_alike headsAlike, writeItems_alike tailAlike,
      List.length_drop]
  measured path counted := by
    have opened : ∀ items : List Value,
        measureLayout options path counted (.ok (.sequence items)) (.sequence heads tail) =
          if heads.length ≤ items.length then do
            let first ← measureHeads options path 0 items heads
            let others ← measureRepeated options (layoutWidth? tail)
              (fun place item => measureLayout options place true (.ok item) tail) path heads.length
              (items.drop heads.length)
            return first + (countLength counted (items.drop heads.length).length + others)
          else .error (.shortSequence path heads.length items.length) := fun _ => rfl
    simp only [opened, length, measureHeads_alike headsAlike, measureRepeated_alike tailAlike,
      List.length_drop]

theorem Coincide.alike {layout : Layout} {value other : Value}
    (coincide : Coincide layout value other) : Alike options layout value other := by
  induction coincide with
  | same layout value => exact ⟨fun _ _ => rfl, fun _ _ => rfl⟩
  | mapping present each ih =>
      exact .mapping fun field member => .of_isSome (present field member) (ih field member)
  | @sequence heads tail items others length each ih =>
      refine .sequence length (fun index head inside => ?heads) ?tail
      case heads =>
        refine .of_isSome ?_ fun value other here there => ?_
        · rw [Bool.eq_iff_iff, isSome_getElem?, isSome_getElem?, length]
        · have alike := ih index value other here there
          rwa [inside] at alike
      case tail =>
        refine List.forall₂_iff_get.mpr ⟨by simp only [List.length_drop, length], ?_⟩
        intro index inside otherInside
        have alike := ih (heads.length + index) _ _
          (List.getElem?_drop ▸ List.getElem?_eq_getElem inside)
          (List.getElem?_drop ▸ List.getElem?_eq_getElem otherInside)
        rwa [List.getElem?_eq_none (Nat.le_add_right _ _)] at alike

/-- Only the entries that the schema names count. Where a value is shown in an error it is the same
on both sides, and a mapping that is built in another order is the same value. -/
theorem encode_of_coincide {aliases : AliasTable} {definition : Definition} {plan : Plan}
    (compiled : definition.compile aliases = .ok plan) (options : Options) :
    ∃ layout, definition.layout aliases = .ok layout ∧
      (∀ value other, Coincide layout value other →
        encode ⟨plan, options⟩ value = encode ⟨plan, options⟩ other ∧
          encodedLength ⟨plan, options⟩ value = encodedLength ⟨plan, options⟩ other) ∧
      ∀ fields others : List (String × Value), fields.Perm others →
        (fields.map Prod.fst).Nodup → Value.ofFields fields = Value.ofFields others := by
  obtain ⟨layout, laidOut, rfl⟩ := Definition.compile_eq_ok_iff.mp compiled
  refine ⟨layout, laidOut, ?_, ?_⟩
  · intro value other coincide
    have alike : Alike options layout value other := coincide.alike
    have measured : encodedLength ⟨layout.plan, options⟩ value =
        encodedLength ⟨layout.plan, options⟩ other := by
      rw [encodedLength, encodedLength, measure_plan, measure_plan, alike.measured]
    refine ⟨?_, measured⟩
    rw [encode, encode, measured, write_plan, write_plan, alike.written]
  · intro fields others permuted distinct
    rw [Value.ofFields, Value.ofFields, entriesOf_of_perm permuted distinct]

/-- The note is ignored, and the mapping that stands where a sequence should is shown alike. -/
theorem encode_of_coincide_note :
    encode ⟨Layout.plan (.mapping [("id", .leaf .uint8), ("tags", .sequence [] (.leaf .string))]),
        .utf8, true⟩ (.ofFields [("tags", .ofFields [("b", .integer 2), ("a", .integer 1)]),
          ("note", .boolean true), ("id", .integer 7)]) =
      encode ⟨Layout.plan (.mapping [("id", .leaf .uint8), ("tags", .sequence [] (.leaf .string))]),
        .utf8, true⟩ (.ofFields [("id", .integer 7),
          ("tags", .ofFields [("a", .integer 1), ("b", .integer 2)])]) ∧
      encode ⟨Layout.plan (.mapping [("id", .leaf .uint8), ("tags", .sequence [] (.leaf .string))]),
        .utf8, true⟩ (.ofFields [("id", .integer 7),
          ("tags", .ofFields [("a", .integer 1), ("b", .integer 2)])]) =
        .error (.typeMismatch [.field "tags"] (.container .sequence)
          (.mapping [("a", .integer 1), ("b", .integer 2)])) := by
  have compiled : (Definition.mapping [("tags", .sequence [.type "string"]),
      ("id", .type "uint8")]).compile .initial = .ok (Layout.plan
        (.mapping [("id", .leaf .uint8), ("tags", .sequence [] (.leaf .string))])) := rfl
  obtain ⟨layout, laidOut, coincide, reordered⟩ := encode_of_coincide compiled ⟨.utf8, true⟩
  cases laidOut
  rw [reordered [("b", .integer 2), ("a", .integer 1)] [("a", .integer 1), ("b", .integer 2)]
    (.swap ..) (by decide)]
  refine ⟨(coincide _ _ (.mapping ?present ?each)).1, rfl⟩
  case present => decide
  case each =>
    intro field member value other here there
    have same : value = other := by
      simp only [List.mem_cons, List.not_mem_nil, or_false] at member
      rcases member with rfl | rfl <;> exact Option.some.inj (here.symm.trans there)
    exact same ▸ .same field.2 value

end SchemaWire.Codec
