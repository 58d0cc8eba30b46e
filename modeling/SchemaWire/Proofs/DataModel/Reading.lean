import SchemaWire.DataModel.Shape
import SchemaWire.Proofs.DataModel.Collecting
import SchemaWire.Proofs.Outcome
import SchemaWire.Proofs.Value.Entries

/-!
# Reading parts

What containers are read as whose parts can be read. Elements are found by their index, entries
and fields by their name, wherever they stand in the value.
-/

set_option autoImplicit false

namespace SchemaWire.DataModel

open Outcome

abbrev Extractor := Value → Except ExtractError Data

theorem extractorsOf_eq_map (shapes : List Shape) :
    extractorsOf shapes = shapes.map Shape.extract := by
  induction shapes with
  | nil => rfl
  | cons shape rest ih => rw [extractorsOf, ih, List.map_cons]

theorem fieldExtractorsOf_eq_map (fields : List (String × Shape)) :
    fieldExtractorsOf fields = fields.map fun field => (field.1, field.2.extract) := by
  induction fields with
  | nil => rfl
  | cons field rest ih => rw [fieldExtractorsOf, ih, List.map_cons]

theorem lookup_fieldExtractorsOf (fields : List (String × Shape)) (name : String) :
    (fieldExtractorsOf fields).lookup name = (fields.lookup name).map Shape.extract := by
  rw [fieldExtractorsOf_eq_map, lookup_map]

/-! ## Elements -/

section Elements

variable {R : Data → Data → Prop} {items : List Data} {values : List Value}

theorem exists_extractEach {readers : List Extractor} (shapes : readers.length = items.length)
    (lengths : items.length = values.length)
    (reads : ∀ {index : Nat} {read x value}, readers[index]? = some read →
      items[index]? = some x → values[index]? = some value → ∃ y, read value = .ok y ∧ R x y)
    (start : Nat) :
    ∃ ys, extractEach start readers values = .ok ys ∧ items.length = ys.length ∧
      ∀ {index : Nat} {x y}, items[index]? = some x → ys[index]? = some y → R x y := by
  induction readers generalizing items values start with
  | nil =>
      cases List.length_eq_zero_iff.mp shapes.symm
      exact ⟨[], by rw [extractEach], rfl, by simp⟩
  | cons read readers ih =>
      obtain ⟨item, rest, rfl⟩ := List.exists_cons_of_length_eq_add_one shapes.symm
      obtain ⟨value, others, rfl⟩ := List.exists_cons_of_length_eq_add_one lengths.symm
      obtain ⟨first, firstRead, related⟩ := @reads 0 _ _ _ rfl rfl rfl
      obtain ⟨ys, otherReads, sameLength, each⟩ := ih (Nat.succ.inj shapes) (Nat.succ.inj lengths)
        (fun {index _ _ _} known found held => @reads (index + 1) _ _ _ known found held)
        (start + 1)
      refine ⟨first :: ys, ?_, congrArg Nat.succ sameLength, ?_⟩
      · exact bind_eq_ok_iff.mpr ⟨first, firstRead,
          bind_pure_eq_ok_iff.mpr ⟨ys, otherReads, rfl⟩⟩
      · intro index x y found result
        cases index with
        | zero =>
            cases found
            cases result
            exact related
        | succ index => exact each found result

/-- The elements of a sequence are read like those of a tuple of as many elements of one shape. -/
theorem extractAll_eq_extractEach (read : Extractor) (values : List Value) (start : Nat) :
    extractAll read values = extractEach start (List.replicate values.length read) values := by
  induction values generalizing start with
  | nil => rfl
  | cons value rest ih =>
      rw [extractAll, ih (start + 1), List.length_cons, List.replicate_succ, extractEach]

end Elements

/-! ## Entries and fields -/

section Entries

variable {entries : List (String × Value)}

theorem lookup_cons_read {read : Extractor} {name key : String} {value held : Value} {first y : Data}
    {ys : List (String × Data)} (firstRead : key = name → read value = .ok first)
    (later : entries.lookup key = some held → ys.lookup key = some y)
    (present : ((name, value) :: entries).lookup key = some held) (success : read held = .ok y) :
    ((name, first) :: ys).lookup key = some y := by
  by_cases same : key = name
  · subst same
    rw [lookup_cons_self] at present ⊢
    cases present
    cases (firstRead rfl).symm.trans success
    rfl
  · rw [lookup_cons_of_ne same] at present ⊢
    exact later present

theorem exists_extractEntries {read : Extractor}
    (reads : ∀ entry ∈ entries, ∃ y, read entry.2 = .ok y) :
    ∃ ys, extractEntries .text read entries = .ok (textKeyed ys) ∧
      ys.map Prod.fst = entries.map Prod.fst ∧
      ∀ {name value y}, entries.lookup name = some value → read value = .ok y →
        ys.lookup name = some y := by
  induction entries with
  | nil => exact ⟨[], rfl, rfl, nofun⟩
  | cons entry rest ih =>
      obtain ⟨name, value⟩ := entry
      obtain ⟨⟨first, firstRead⟩, others⟩ := List.forall_mem_cons.mp reads
      obtain ⟨ys, otherReads, names, found⟩ := ih others
      refine ⟨(name, first) :: ys, ?_, congrArg (name :: ·) names, ?_⟩
      · have key : KeyShape.text.extract name = .ok (.text name) := rfl
        exact bind_eq_ok_iff.mpr ⟨_, key, bind_eq_ok_iff.mpr ⟨first, firstRead,
          bind_pure_eq_ok_iff.mpr ⟨_, otherReads, rfl⟩⟩⟩
      · intro key held y present success
        exact lookup_cons_read (fun _ => firstRead) (fun later => found later success) present
          success

theorem exists_extractFields {readers : List (String × Extractor)}
    (reads : ∀ entry ∈ entries, ∀ read, readers.lookup entry.1 = some read →
      ∃ y, read entry.2 = .ok y) :
    ∃ found, extractFields readers entries = .ok found ∧
      ∀ {name read value y}, readers.lookup name = some read → entries.lookup name = some value →
        read value = .ok y → found.lookup name = some y := by
  induction entries with
  | nil => exact ⟨[], rfl, nofun⟩
  | cons entry rest ih =>
      obtain ⟨name, value⟩ := entry
      obtain ⟨firstReads, others⟩ := List.forall_mem_cons.mp reads
      obtain ⟨found, otherReads, each⟩ := ih others
      rw [extractFields]
      cases known : readers.lookup name with
      | none =>
          refine ⟨found, otherReads, ?_⟩
          intro key read held y reader present success
          have different : key ≠ name := by
            intro same
            rw [same, known] at reader
            cases reader
          rw [lookup_cons_of_ne different] at present
          exact each reader present success
      | some reader =>
          obtain ⟨first, firstRead⟩ := firstReads reader known
          refine ⟨(name, first) :: found, ?_, ?_⟩
          · exact bind_eq_ok_iff.mpr ⟨first, firstRead,
              bind_pure_eq_ok_iff.mpr ⟨found, otherReads, rfl⟩⟩
          · intro key read held y declared present success
            have here : key = name → read value = .ok first := by
              intro same
              subst same
              cases known.symm.trans declared
              exact firstRead
            exact lookup_cons_read here (fun later => each declared later success) present success

/-! ### Fields that are missing -/

section Missing

variable {missing : Missing} {found : List (String × Data)} {fields : List (String × Shape)}

theorem Missing.datum?_eq_some_iff {shape : Shape} {x : Data} :
    missing.datum? shape = some x ↔
      missing = .absent ∧ (∃ inner, shape = .option inner) ∧ x = .absent := by
  cases missing <;> cases shape <;> simp [datum?, eq_comm]

/-- A field is what was found under its name, or absent if it is optional and the reader allows
it. -/
theorem Missing.field?_eq_some_iff {field : String × Shape} {x : Data} :
    missing.field? found field = some x ↔ found.lookup field.1 = some x ∨
      found.lookup field.1 = none ∧ missing = .absent ∧ (∃ inner, field.2 = .option inner) ∧
        x = .absent := by
  rw [field?, ← datum?_eq_some_iff]
  cases found.lookup field.1 <;> simp

/-- Every declared field is read, in the order of their declaration. -/
theorem arrangeFields_eq_ok_iff {ys : List (String × Data)} :
    arrangeFields missing found fields = .ok ys ↔
      fields.map (fun field => (field.1, missing.field? found field)) =
        ys.map fun entry => (entry.1, some entry.2) := by
  induction fields generalizing ys with
  | nil => cases ys <;> simp [arrangeFields]
  | cons field rest ih =>
      rw [arrangeFields, List.map_cons]
      cases missing.field? found field with
      | none => cases ys <;> simp
      | some first =>
          rw [bind_pure_eq_ok_iff]
          constructor
          · rintro ⟨others, arranged, rfl⟩
            rw [ih.mp arranged, List.map_cons]
          · intro same
            cases ys with
            | nil => cases same
            | cons entry others =>
                obtain ⟨name, x⟩ := entry
                obtain ⟨head, later⟩ := List.cons_eq_cons.mp same
                obtain ⟨rfl, held⟩ := Prod.mk.inj head
                cases held
                exact ⟨others, ih.mpr later, rfl⟩

/-- The refusal names the first declared field that is missing. -/
theorem arrangeFields_eq_error_iff {e : ExtractError} :
    arrangeFields missing found fields = .error e ↔
      ∃ before field after, fields = before ++ field :: after ∧ e = .missingField field.1 ∧
        missing.field? found field = none ∧ ∀ other ∈ before, missing.field? found other ≠ none := by
  induction fields with
  | nil => simp [arrangeFields]
  | cons first rest ih =>
      rw [arrangeFields]
      cases read : missing.field? found first with
      | none =>
          constructor
          · intro refused
            cases refused
            exact ⟨[], first, rest, rfl, rfl, read, nofun⟩
          · rintro ⟨before, field, after, split, rfl, -, others⟩
            cases before with
            | nil => cases split; rfl
            | cons other before =>
                obtain ⟨rfl, -⟩ := List.cons_eq_cons.mp split
                exact (others first List.mem_cons_self read).elim
      | some y =>
          rw [bind_pure_eq_error_iff, ih]
          constructor
          · rintro ⟨before, field, after, rfl, rfl, lacks, others⟩
            refine ⟨first :: before, field, after, rfl, rfl, lacks, ?_⟩
            exact List.forall_mem_cons.mpr ⟨by simp [read], others⟩
          · rintro ⟨before, field, after, split, rfl, lacks, others⟩
            cases before with
            | nil =>
                obtain ⟨rfl, -⟩ := List.cons_eq_cons.mp split
                cases read.symm.trans lacks
            | cons other before =>
                obtain ⟨rfl, rfl⟩ := List.cons_eq_cons.mp split
                exact ⟨before, field, after, rfl, rfl, lacks,
                  (List.forall_mem_cons.mp others).2⟩

example : arrangeFields .absent [("size", .boolean true)]
    [("size", .boolean), ("mark", .option .boolean)] =
      .ok [("size", .boolean true), ("mark", .absent)] :=
  rfl

/-- Fields that were all found are read as what was found. -/
theorem exists_arrangeFields (present : ∀ name ∈ fields.map Prod.fst, ∃ y, found.lookup name = some y) :
    ∃ ys, arrangeFields missing found fields = .ok ys ∧ ys.map Prod.fst = fields.map Prod.fst ∧
      ∀ {name y}, ys.lookup name = some y → found.lookup name = some y := by
  have every : ∀ field ∈ fields, ∃ y, found.lookup field.1 = some y := fun field member =>
    present field.1 (List.mem_map_of_mem member)
  refine ⟨fields.map fun field => (field.1, (found.lookup field.1).getD .absent),
    arrangeFields_eq_ok_iff.mpr ?arranged, ?names, ?each⟩
  case arranged =>
    rw [List.map_map]
    refine List.map_congr_left fun field member => ?_
    obtain ⟨y, known⟩ := every field member
    rw [Missing.field?_eq_some_iff.mpr (.inl known), Function.comp_apply, known, Option.getD_some]
  case names => rw [List.map_map]; rfl
  case each =>
    intro name y held
    obtain ⟨field, member, same⟩ := List.mem_map.mp (mem_of_lookup held)
    obtain ⟨z, known⟩ := every field member
    obtain ⟨rfl, rfl⟩ := Prod.mk.inj same
    rw [known, Option.getD_some]

end Missing

end Entries

/-! ## Containers -/

section Containers

variable {R : Data → Data → Prop}

theorem exists_extract_mapping {shape : Shape} {xs : List (String × Data)}
    {entries : List (String × Value)} (distinct : (xs.map Prod.fst).Nodup)
    (held : (xs.map Prod.fst).Perm (entries.map Prod.fst))
    (reads : ∀ {name x value}, xs.lookup name = some x → entries.lookup name = some value →
      ∃ y, shape.extract value = .ok y ∧ R x y) :
    ∃ ys, (Shape.mapping .text shape).extract (.mapping entries) =
        .ok (.mapping true (textKeyed ys)) ∧
      ys.map Prod.fst = entries.map Prod.fst ∧
      ∀ {name x y}, xs.lookup name = some x → ys.lookup name = some y → R x y := by
  have readable : ∀ entry ∈ entries, ∃ y, shape.extract entry.2 = .ok y := by
    intro entry member
    have present := lookup_of_mem (held.nodup_iff.mp distinct) member
    obtain ⟨x, known⟩ := exists_lookup_of_names held present
    obtain ⟨y, success, -⟩ := reads known present
    exact ⟨y, success⟩
  obtain ⟨ys, success, names, each⟩ := exists_extractEntries readable
  refine ⟨ys, bind_pure_eq_ok_iff.mpr ⟨_, success, rfl⟩, names, ?_⟩
  intro name x y known found
  obtain ⟨value, present⟩ := exists_lookup_of_names held.symm known
  obtain ⟨z, read, related⟩ := reads known present
  cases found.symm.trans (each present read)
  exact related

/-- Fields in any order are read as a record in the order of its declaration. -/
theorem exists_extract_record {fields : List (String × Shape)} {xs : List (String × Data)}
    {entries : List (String × Value)} (distinct : (xs.map Prod.fst).Nodup)
    (names : xs.map Prod.fst = fields.map Prod.fst)
    (held : (xs.map Prod.fst).Perm (entries.map Prod.fst))
    (reads : ∀ {field shape x value}, fields.lookup field = some shape →
      xs.lookup field = some x → entries.lookup field = some value →
        ∃ y, shape.extract value = .ok y ∧ R x y) (name : String) (missing : Missing) :
    ∃ ys, (Shape.record name fields missing).extract (.mapping entries) = .ok (.record name ys) ∧
      ys.map Prod.fst = xs.map Prod.fst ∧
      ∀ {field x y}, xs.lookup field = some x → ys.lookup field = some y → R x y := by
  have declared : (fields.map Prod.fst).Perm (xs.map Prod.fst) := .of_eq names.symm
  have readable : ∀ entry ∈ entries, ∀ read,
      (fieldExtractorsOf fields).lookup entry.1 = some read → ∃ y, read entry.2 = .ok y := by
    intro entry member read reader
    rw [lookup_fieldExtractorsOf, Option.map_eq_some_iff] at reader
    obtain ⟨shape, known, rfl⟩ := reader
    obtain ⟨x, datum⟩ := exists_lookup_of_names declared.symm known
    obtain ⟨y, success, -⟩ :=
      reads known datum (lookup_of_mem (held.nodup_iff.mp distinct) member)
    exact ⟨y, success⟩
  obtain ⟨found, success, each⟩ := exists_extractFields readable
  -- Every datum has a declared shape and a value, so it was found under its name.
  have related : ∀ {field x}, xs.lookup field = some x →
      ∃ y, found.lookup field = some y ∧ R x y := by
    intro field x datum
    obtain ⟨shape, known⟩ := exists_lookup_of_names declared datum
    obtain ⟨value, present⟩ := exists_lookup_of_names held.symm datum
    obtain ⟨y, read, related⟩ := reads known datum present
    exact ⟨y, each (by rw [lookup_fieldExtractorsOf, known, Option.map_some]) present read, related⟩
  have complete : ∀ field ∈ fields.map Prod.fst, ∃ y, found.lookup field = some y := by
    intro field member
    obtain ⟨x, datum⟩ := mem_names_iff.mp (names ▸ member)
    obtain ⟨y, present, -⟩ := related datum
    exact ⟨y, present⟩
  obtain ⟨ys, arranged, sameNames, kept⟩ := exists_arrangeFields complete
  refine ⟨ys, ?_, sameNames.trans names.symm, ?_⟩
  · exact bind_eq_ok_iff.mpr ⟨found, success, bind_pure_eq_ok_iff.mpr ⟨ys, arranged, rfl⟩⟩
  · intro field x y datum result
    obtain ⟨z, present, holds⟩ := related datum
    cases present.symm.trans (kept result)
    exact holds

end Containers

end SchemaWire.DataModel
