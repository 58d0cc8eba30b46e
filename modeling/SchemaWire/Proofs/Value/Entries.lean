import SchemaWire.Value.Basic

/-!
# Entries of mappings

Entries built by insertion are in ascending order, and such entries are determined by what they
hold under every name. So the order in which distinct names are inserted does not matter.
-/

set_option autoImplicit false

namespace SchemaWire

variable {α : Type}

theorem compare_self_ne_lt (name : String) : compare name name ≠ .lt := by
  have self : compare name name = .eq := Std.ReflCmp.compare_self
  rw [self]
  decide

theorem lookup_cons_self (name : String) (value : α) (rest : List (String × α)) :
    ((name, value) :: rest).lookup name = some value := by
  rw [List.lookup_cons, beq_self_eq_true]

theorem lookup_cons_of_ne {name other : String} (different : name ≠ other) (value : α)
    (rest : List (String × α)) : ((other, value) :: rest).lookup name = rest.lookup name := by
  rw [List.lookup_cons, beq_false_of_ne different]

theorem lookup_map {β : Type} (f : α → β) (entries : List (String × α)) (name : String) :
    (entries.map fun entry => (entry.1, f entry.2)).lookup name = (entries.lookup name).map f := by
  induction entries with
  | nil => rfl
  | cons first rest ih =>
      obtain ⟨other, value⟩ := first
      rw [List.map_cons]
      by_cases same : name = other
      · rw [same, lookup_cons_self, lookup_cons_self, Option.map_some]
      · rw [lookup_cons_of_ne same, lookup_cons_of_ne same, ih]

theorem mem_of_lookup {name : String} {value : α} {entries : List (String × α)}
    (found : entries.lookup name = some value) : (name, value) ∈ entries := by
  induction entries with
  | nil => cases found
  | cons first rest ih =>
      obtain ⟨other, held⟩ := first
      by_cases same : name = other
      · subst same
        rw [lookup_cons_self] at found
        cases found
        exact List.mem_cons_self
      · rw [lookup_cons_of_ne same] at found
        exact List.mem_cons_of_mem _ (ih found)

theorem lookup_of_mem {name : String} {value : α} {entries : List (String × α)}
    (distinct : (entries.map Prod.fst).Nodup) (member : (name, value) ∈ entries) :
    entries.lookup name = some value := by
  induction entries with
  | nil => cases member
  | cons first rest ih =>
      obtain ⟨other, held⟩ := first
      obtain ⟨fresh, others⟩ := List.nodup_cons.mp distinct
      rcases List.mem_cons.mp member with same | later
      · cases same
        exact lookup_cons_self _ _ _
      · have different : name ≠ other := by
          rintro rfl
          exact fresh (List.mem_map.mpr ⟨_, later, rfl⟩)
        rw [lookup_cons_of_ne different, ih others later]

theorem lookup_eq_none {name : String} {entries : List (String × α)}
    (absent : name ∉ entries.map Prod.fst) : entries.lookup name = none := by
  cases found : entries.lookup name with
  | none => rfl
  | some value => exact absurd (List.mem_map.mpr ⟨_, mem_of_lookup found, rfl⟩) absent

theorem exists_lookup {name : String} {entries : List (String × α)}
    (present : name ∈ entries.map Prod.fst) : ∃ value, entries.lookup name = some value := by
  cases found : entries.lookup name with
  | some value => exact ⟨value, rfl⟩
  | none =>
      obtain ⟨entry, inside, rfl⟩ := List.mem_map.mp present
      have different := List.lookup_eq_none_iff.mp found entry inside
      rw [bne_self_eq_false] at different
      cases different

theorem mem_names_iff {name : String} {entries : List (String × α)} :
    name ∈ entries.map Prod.fst ↔ ∃ value, entries.lookup name = some value := by
  constructor
  · exact exists_lookup
  · intro ⟨value, found⟩
    exact List.mem_map.mpr ⟨_, mem_of_lookup found, rfl⟩

/-- What stands under a name on the one side has a counterpart on the other. -/
theorem exists_lookup_of_names {β : Type} {entries : List (String × α)} {others : List (String × β)}
    (names : (entries.map Prod.fst).Perm (others.map Prod.fst)) {name : String} {value : β}
    (found : others.lookup name = some value) : ∃ held, entries.lookup name = some held :=
  mem_names_iff.mp (names.mem_iff.mpr (mem_names_iff.mpr ⟨value, found⟩))

/-- What is held under a name has one image on both sides, if it has where both hold something. -/
theorem map_lookup_eq {β γ : Type} {entries : List (String × α)} {others : List (String × β)}
    (names : (entries.map Prod.fst).Perm (others.map Prod.fst)) {f : α → γ} {g : β → γ}
    (same : ∀ {name x y}, entries.lookup name = some x → others.lookup name = some y → f x = g y)
    (name : String) : (entries.lookup name).map f = (others.lookup name).map g := by
  cases found : entries.lookup name with
  | some x =>
      obtain ⟨y, held⟩ := exists_lookup_of_names names.symm found
      rw [held, Option.map_some, Option.map_some, same found held]
  | none =>
      cases held : others.lookup name with
      | none => rfl
      | some y =>
          obtain ⟨x, present⟩ := exists_lookup_of_names names held
          cases found.symm.trans present

/-- Entries under the same distinct names are the same if they hold the same. -/
theorem ext_of_lookup {left right : List (String × α)} (distinct : (left.map Prod.fst).Nodup)
    (names : left.map Prod.fst = right.map Prod.fst)
    (same : ∀ {name x y}, left.lookup name = some x → right.lookup name = some y → x = y) :
    left = right := by
  induction left generalizing right with
  | nil => exact (List.map_eq_nil_iff.mp names.symm).symm
  | cons first rest ih =>
      cases right with
      | nil => cases names
      | cons other others =>
          obtain ⟨name, x⟩ := first
          obtain ⟨otherName, y⟩ := other
          obtain ⟨sameName, sameNames⟩ := List.cons.inj names
          obtain ⟨fresh, distinctRest⟩ := List.nodup_cons.mp distinct
          subst sameName
          have sameFirst : x = y := same (lookup_cons_self _ _ _) (lookup_cons_self _ _ _)
          have sameRest : rest = others := by
            refine ih distinctRest sameNames fun {later p q} found otherFound => ?_
            have different : later ≠ name := by
              intro here
              subst here
              exact fresh (mem_names_iff.mpr ⟨p, found⟩)
            exact same ((lookup_cons_of_ne different _ _).trans found)
              ((lookup_cons_of_ne different _ _).trans otherFound)
          rw [sameFirst, sameRest]

theorem lookup_of_perm {fields others : List (String × α)} (permuted : fields.Perm others)
    (distinct : (fields.map Prod.fst).Nodup) (name : String) :
    fields.lookup name = others.lookup name := by
  have otherDistinct : (others.map Prod.fst).Nodup := (permuted.map Prod.fst).nodup_iff.mp distinct
  refine Option.ext fun value => ⟨fun found => ?_, fun found => ?_⟩
  · exact lookup_of_mem otherDistinct (permuted.mem_iff.mp (mem_of_lookup found))
  · exact lookup_of_mem distinct (permuted.mem_iff.mpr (mem_of_lookup found))

/-! ## Insertion -/

theorem lookup_insertEntry (name key : String) (value : α) (entries : List (String × α)) :
    (insertEntry name value entries).lookup key =
      if key = name then some value else entries.lookup key := by
  induction entries with
  | nil =>
      rw [insertEntry]
      split
      · rename_i same
        rw [same, lookup_cons_self]
      · rename_i different
        rw [lookup_cons_of_ne different]
  | cons first rest ih =>
      obtain ⟨other, held⟩ := first
      simp only [insertEntry]
      by_cases same : key = name
      · subst same
        rw [if_pos rfl] at ih ⊢
        split
        · exact lookup_cons_self _ _ _
        · exact lookup_cons_self _ _ _
        · rename_i greater
          have different : key ≠ other := by
            rintro rfl
            exact compare_self_ne_lt _ (Std.OrientedCmp.lt_of_gt greater)
          rw [lookup_cons_of_ne different, ih]
      · rw [if_neg same] at ih ⊢
        split
        · rw [lookup_cons_of_ne same]
        · rename_i equal
          rw [lookup_cons_of_ne same,
            lookup_cons_of_ne (Std.LawfulEqCmp.eq_of_compare equal ▸ same)]
        · by_cases here : key = other
          · rw [here, lookup_cons_self, lookup_cons_self]
          · rw [lookup_cons_of_ne here, lookup_cons_of_ne here, ih]

theorem mem_insertEntry {name : String} {value : α} {entries : List (String × α)}
    {entry : String × α} (member : entry ∈ insertEntry name value entries) :
    entry = (name, value) ∨ entry ∈ entries := by
  induction entries with
  | nil => exact .inl (List.mem_singleton.mp member)
  | cons first rest ih =>
      simp only [insertEntry] at member
      split at member
      · exact List.mem_cons.mp member
      · rcases List.mem_cons.mp member with same | later
        · exact .inl same
        · exact .inr (List.mem_cons_of_mem _ later)
      · rcases List.mem_cons.mp member with same | later
        · exact .inr (same ▸ List.mem_cons_self)
        · rcases ih later with same | later
          · exact .inl same
          · exact .inr (List.mem_cons_of_mem _ later)

theorem Ascending.insertEntry {entries : List (String × α)} (ascending : Ascending entries)
    (name : String) (value : α) : Ascending (insertEntry name value entries) := by
  induction entries with
  | nil => exact List.pairwise_singleton _ _
  | cons first rest ih =>
      obtain ⟨least, others⟩ := List.pairwise_cons.mp ascending
      simp only [SchemaWire.insertEntry]
      split
      · rename_i less
        refine List.pairwise_cons.mpr ⟨fun entry member => ?_, ascending⟩
        rcases List.mem_cons.mp member with rfl | later
        · exact less
        · exact Std.TransCmp.lt_trans less (least entry later)
      · rename_i equal
        have same := Std.LawfulEqCmp.eq_of_compare equal
        exact List.pairwise_cons.mpr ⟨fun entry member => same ▸ least entry member, others⟩
      · rename_i greater
        refine List.pairwise_cons.mpr ⟨fun entry member => ?_, ih others⟩
        rcases mem_insertEntry member with rfl | later
        · exact Std.OrientedCmp.lt_of_gt greater
        · exact least entry later

/-! ## Entries of a list of fields -/

theorem ascending_foldl {fields entries : List (String × α)} (ascending : Ascending entries) :
    Ascending (fields.foldl (fun entries field => insertEntry field.1 field.2 entries) entries) := by
  induction fields generalizing entries with
  | nil => exact ascending
  | cons field rest ih => exact ih (ascending.insertEntry field.1 field.2)

theorem ascending_entriesOf (fields : List (String × α)) : Ascending (entriesOf fields) :=
  ascending_foldl List.Pairwise.nil

theorem mem_of_mem_foldl {fields entries : List (String × α)} {entry : String × α}
    (member : entry ∈ fields.foldl (fun entries field => insertEntry field.1 field.2 entries)
      entries) : entry ∈ fields ∨ entry ∈ entries := by
  induction fields generalizing entries with
  | nil => exact .inr member
  | cons field rest ih =>
      rcases ih member with later | before
      · exact .inl (List.mem_cons_of_mem _ later)
      · rcases mem_insertEntry before with rfl | earlier
        · exact .inl List.mem_cons_self
        · exact .inr earlier

theorem mem_of_mem_entriesOf {fields : List (String × α)} {entry : String × α}
    (member : entry ∈ entriesOf fields) : entry ∈ fields :=
  (mem_of_mem_foldl member).resolve_right List.not_mem_nil

theorem lookup_foldl {fields : List (String × α)} (distinct : (fields.map Prod.fst).Nodup)
    (entries : List (String × α)) (name : String) :
    (fields.foldl (fun entries field => insertEntry field.1 field.2 entries) entries).lookup name =
      (fields.lookup name).or (entries.lookup name) := by
  induction fields generalizing entries with
  | nil => rfl
  | cons field rest ih =>
      obtain ⟨key, value⟩ := field
      obtain ⟨fresh, others⟩ := List.nodup_cons.mp distinct
      rw [List.foldl_cons, ih others, lookup_insertEntry]
      by_cases same : name = key
      · subst same
        rw [lookup_cons_self, lookup_eq_none fresh, if_pos rfl]
        rfl
      · rw [lookup_cons_of_ne same, if_neg same]

/-- Under distinct names the entries hold what the fields do. -/
theorem lookup_entriesOf {fields : List (String × α)} (distinct : (fields.map Prod.fst).Nodup)
    (name : String) : (entriesOf fields).lookup name = fields.lookup name := by
  rw [entriesOf, lookup_foldl distinct]
  cases fields.lookup name <;> rfl

/-! ## Entries and what they hold -/

theorem lookup_of_before {name : String} {entries : List (String × α)}
    (before : ∀ entry ∈ entries, compare name entry.1 = .lt) : entries.lookup name = none := by
  refine lookup_eq_none fun member => ?_
  obtain ⟨entry, inside, rfl⟩ := List.mem_map.mp member
  exact compare_self_ne_lt _ (before entry inside)

theorem Ascending.lookup_of_lt {name first : String} {value : α} {rest : List (String × α)}
    (ascending : Ascending ((first, value) :: rest)) (order : compare name first = .lt) :
    ((first, value) :: rest).lookup name = none := by
  obtain ⟨least, -⟩ := List.pairwise_cons.mp ascending
  refine lookup_of_before fun entry member => ?_
  rcases List.mem_cons.mp member with rfl | later
  · exact order
  · exact Std.TransCmp.lt_trans order (least entry later)

/-- Ascending entries are determined by what they hold under every name. -/
theorem Ascending.ext {left right : List (String × α)} (leftAscending : Ascending left)
    (rightAscending : Ascending right) (same : ∀ name, left.lookup name = right.lookup name) :
    left = right := by
  induction left generalizing right with
  | nil =>
      cases right with
      | nil => rfl
      | cons first rest =>
          have held := same first.1
          rw [lookup_cons_self] at held
          cases held
  | cons leftFirst leftRest ih =>
      cases right with
      | nil =>
          have held := same leftFirst.1
          rw [lookup_cons_self] at held
          cases held
      | cons rightFirst rightRest =>
          obtain ⟨leftName, leftValue⟩ := leftFirst
          obtain ⟨rightName, rightValue⟩ := rightFirst
          obtain ⟨leftLeast, leftOthers⟩ := List.pairwise_cons.mp leftAscending
          obtain ⟨rightLeast, rightOthers⟩ := List.pairwise_cons.mp rightAscending
          have leftHeld := same leftName
          have rightHeld := same rightName
          rw [lookup_cons_self] at leftHeld rightHeld
          -- The lesser of two first names would be missing on the other side.
          cases order : compare leftName rightName with
          | lt =>
              rw [rightAscending.lookup_of_lt order] at leftHeld
              cases leftHeld
          | gt =>
              rw [leftAscending.lookup_of_lt (Std.OrientedCmp.lt_of_gt order)] at rightHeld
              cases rightHeld
          | eq =>
              have sameName := Std.LawfulEqCmp.eq_of_compare order
              subst sameName
              rw [lookup_cons_self] at leftHeld
              cases leftHeld
              have sameRest : ∀ name, leftRest.lookup name = rightRest.lookup name := by
                intro name
                by_cases first : name = leftName
                · subst first
                  rw [lookup_of_before leftLeast, lookup_of_before rightLeast]
                · have held := same name
                  rwa [lookup_cons_of_ne first, lookup_cons_of_ne first] at held
              rw [ih leftOthers rightOthers sameRest]

theorem Ascending.nodup {entries : List (String × α)} (ascending : Ascending entries) :
    (entries.map Prod.fst).Nodup := by
  refine List.pairwise_map.mpr (ascending.imp fun less same => ?_)
  rw [same] at less
  exact compare_self_ne_lt _ less

theorem Ascending.entriesOf_eq {entries : List (String × α)} (ascending : Ascending entries) :
    entriesOf entries = entries :=
  (ascending_entriesOf entries).ext ascending (lookup_entriesOf ascending.nodup)

theorem names_entriesOf {fields : List (String × α)} (distinct : (fields.map Prod.fst).Nodup) :
    (fields.map Prod.fst).Perm ((entriesOf fields).map Prod.fst) := by
  refine (List.perm_ext_iff_of_nodup distinct (ascending_entriesOf fields).nodup).mpr fun name => ?_
  rw [mem_names_iff, mem_names_iff, lookup_entriesOf distinct]

theorem entriesOf_of_perm {fields others : List (String × α)} (permuted : fields.Perm others)
    (distinct : (fields.map Prod.fst).Nodup) : entriesOf fields = entriesOf others := by
  have otherDistinct : (others.map Prod.fst).Nodup := (permuted.map Prod.fst).nodup_iff.mp distinct
  refine (ascending_entriesOf fields).ext (ascending_entriesOf others) fun name => ?_
  rw [lookup_entriesOf distinct, lookup_entriesOf otherDistinct, lookup_of_perm permuted distinct]

/-- Fields in any order, also repeated ones, make a mapping with ascending entries. -/
theorem Value.ordered_ofFields {fields : List (String × Value)}
    (each : ∀ field ∈ fields, field.2.Ordered) : (ofFields fields).Ordered :=
  .mapping (ascending_entriesOf fields) fun entry member =>
    each entry (mem_of_mem_entriesOf member)

end SchemaWire
