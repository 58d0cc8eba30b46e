import SchemaWire.Proofs.Codec.Faults

/-!
# Shape of a value

A value has the shape of a layout if it has every container that the layout asks for. A pass accepts
exactly the values of this shape whose leaves it accepts. The leaves of a value are those that the
keys of a leaf of the layout lead to.
-/

set_option autoImplicit false

namespace SchemaWire.Codec

open Outcome
open Schema (Layout)

/-! ## Shape -/

/-- Every field is there and every sequence has an element for every head, and the leaves have a
property. Entries beside the fields do not matter. -/
inductive Shaped (holds : Primitive → Value → Prop) : Layout → Value → Prop where
  | leaf {type : Primitive} {value : Value} (held : holds type value) :
      Shaped holds (.leaf type) value
  | mapping {fields : List (String × Layout)} {entries : List (String × Value)}
      (present : ∀ field ∈ fields, ∃ value, entries.lookup field.1 = some value)
      (each : ∀ field ∈ fields, ∀ value, entries.lookup field.1 = some value →
        Shaped holds field.2 value) :
      Shaped holds (.mapping fields) (.mapping entries)
  | sequence {heads : List Layout} {tail : Layout} {items : List Value}
      (long : heads.length ≤ items.length)
      (each : ∀ pair ∈ heads.zip items, Shaped holds pair.1 pair.2)
      (rest : ∀ item ∈ items.drop heads.length, Shaped holds tail item) :
      Shaped holds (.sequence heads tail) (.sequence items)

variable {holds : Primitive → Value → Prop}

theorem shaped_leaf_iff {type : Primitive} {value : Value} :
    Shaped holds (.leaf type) value ↔ holds type value := by
  constructor
  · intro shaped
    cases shaped with
    | leaf held => exact held
  · exact .leaf

theorem shaped_mapping_iff {fields : List (String × Layout)} {entries : List (String × Value)} :
    Shaped holds (.mapping fields) (.mapping entries) ↔
      ∀ field ∈ fields, ∃ value, entries.lookup field.1 = some value ∧
        Shaped holds field.2 value := by
  constructor
  · intro shaped field member
    cases shaped with
    | mapping present each =>
        obtain ⟨value, found⟩ := present field member
        exact ⟨value, found, each field member value found⟩
  · intro each
    refine .mapping ?present ?each
    case present =>
      intro field member
      obtain ⟨value, found, -⟩ := each field member
      exact ⟨value, found⟩
    case each =>
      intro field member value found
      obtain ⟨held, heldFound, shaped⟩ := each field member
      cases found.symm.trans heldFound
      exact shaped

theorem shaped_sequence_iff {heads : List Layout} {tail : Layout} {items : List Value} :
    Shaped holds (.sequence heads tail) (.sequence items) ↔
      heads.length ≤ items.length ∧ (∀ pair ∈ heads.zip items, Shaped holds pair.1 pair.2) ∧
        ∀ item ∈ items.drop heads.length, Shaped holds tail item := by
  constructor
  · intro shaped
    cases shaped with
    | sequence long each rest => exact ⟨long, each, rest⟩
  · intro ⟨long, each, rest⟩
    exact .sequence long each rest

/-! ## Passes -/

variable {α : Type} {pass : Pass α}

def Pass.Accepts (pass : Pass α) (parts : List Part) : Prop :=
  ∀ part ∈ parts, ∃ result, part.outcome pass = .ok result

/-- The leaves that a pass accepts. -/
def Pass.Takes (pass : Pass α) (type : Primitive) (value : Value) : Prop :=
  ∃ result, pass.leaf type value = .ok result

theorem Pass.exists_run_iff_accepts {parts : List Part} :
    (∃ result, pass.run parts = .ok result) ↔ pass.Accepts parts := by
  rw [Pass.Accepts, ← exists_mapM_eq_ok_iff]
  constructor
  · intro ⟨result, success⟩
    obtain ⟨results, success, -⟩ := bind_pure_eq_ok_iff.mp success
    exact ⟨results, success⟩
  · intro ⟨results, success⟩
    exact ⟨_, bind_pure_eq_ok_iff.mpr ⟨results, success, rfl⟩⟩

theorem Pass.accepts_append {first second : List Part} :
    pass.Accepts (first ++ second) ↔ pass.Accepts first ∧ pass.Accepts second :=
  List.forall_mem_append

theorem Pass.accepts_entered {node : Node} (entered : node.outcome pass = .ok pass.nothing)
    {children : List Part} : pass.Accepts (.node node :: children) ↔ pass.Accepts children := by
  rw [Pass.Accepts, List.forall_mem_cons]
  exact and_iff_right ⟨_, entered⟩

theorem Pass.not_accepts_refused {node : Node} {e : EncodeError}
    (refused : node.outcome pass = .error e) {children : List Part} :
    ¬pass.Accepts (.node node :: children) := by
  intro accepts
  obtain ⟨result, success⟩ := accepts _ List.mem_cons_self
  cases refused.symm.trans success

theorem Pass.accepts_absent_iff {path : Path} {counted : Bool} {layout : Layout} :
    pass.Accepts (partsOf path counted none layout) ↔ False := by
  rw [iff_false]
  cases layout with
  | leaf | mapping | sequence => exact Pass.not_accepts_refused rfl

theorem Pass.accepts_partsOfCount (counted : Bool) (number : Nat) :
    pass.Accepts (partsOfCount counted number) := by
  intro part member
  cases counted with
  | false => cases member
  | true =>
      cases List.mem_singleton.mp member
      exact ⟨_, rfl⟩

/-- A pass accepts the parts of a value exactly if it has the shape of the layout, with leaves that
the pass accepts. -/
def AcceptsShaped (pass : Pass α) (layout : Layout) : Prop :=
  ∀ {path : Path} {counted : Bool} {value : Value},
    pass.Accepts (partsOf path counted (some value) layout) ↔ Shaped pass.Takes layout value

theorem accepts_partsOfFields_iff {fields : List (String × Layout)}
    (each : ∀ field ∈ fields, AcceptsShaped pass field.2) {path : Path}
    {entries : List (String × Value)} :
    pass.Accepts (partsOfFields path entries fields) ↔
      ∀ field ∈ fields, ∃ value, entries.lookup field.1 = some value ∧
        Shaped pass.Takes field.2 value := by
  induction fields with
  | nil => simp [Pass.Accepts, partsOfFields]
  | cons field rest ih =>
      obtain ⟨first, others⟩ := List.forall_mem_cons.mp each
      rw [partsOfFields, Pass.accepts_append, ih others, List.forall_mem_cons]
      apply and_congr_left'
      cases entries.lookup field.1 with
      | none => simp [Pass.accepts_absent_iff]
      | some value => simpa using first

theorem accepts_partsOfHeads_iff {heads : List Layout}
    (each : ∀ head ∈ heads, AcceptsShaped pass head) {path : Path} {index : Nat}
    {items : List Value} (long : heads.length ≤ items.length) :
    pass.Accepts (partsOfHeads path index items heads) ↔
      ∀ pair ∈ heads.zip items, Shaped pass.Takes pair.1 pair.2 := by
  induction heads generalizing index items with
  | nil => simp [Pass.Accepts, partsOfHeads]
  | cons head rest ih =>
      obtain ⟨first, others⟩ := List.forall_mem_cons.mp each
      cases items with
      | nil => cases long
      | cons item items =>
          rw [partsOfHeads, Pass.accepts_append, List.head?_cons, List.tail_cons, first,
            ih others (Nat.le_of_succ_le_succ long), List.zip_cons_cons, List.forall_mem_cons]

theorem accepts_partsOfItems_iff {parts : Path → Value → List Part} {good : Value → Prop}
    (each : ∀ path item, pass.Accepts (parts path item) ↔ good item) {path : Path} {index : Nat}
    {items : List Value} :
    pass.Accepts (partsOfItems parts path index items) ↔ ∀ item ∈ items, good item := by
  induction items generalizing index with
  | nil => simp [Pass.Accepts, partsOfItems]
  | cons item rest ih => rw [partsOfItems, Pass.accepts_append, each, ih, List.forall_mem_cons]

theorem acceptsShaped (pass : Pass α) (layout : Layout) : AcceptsShaped pass layout := by
  induction layout with
  | leaf type =>
      intro path counted value
      rw [partsOf, Pass.Accepts, List.forall_mem_singleton, shaped_leaf_iff]
      exact exists_congr fun result => mapError_eq_ok_iff
  | mapping fields ih =>
      intro path counted value
      cases value with
      | mapping entries =>
          rw [shaped_mapping_iff, ← accepts_partsOfFields_iff ih]
          exact Pass.accepts_entered rfl
      | boolean | integer | float | text | bytes | sequence =>
          refine iff_of_false (Pass.not_accepts_refused rfl) ?_
          intro shaped
          cases shaped
  | sequence heads tail headsIh tailIh =>
      intro path counted value
      cases value with
      | sequence items =>
          rw [shaped_sequence_iff]
          by_cases long : heads.length ≤ items.length
          · have counts : pass.Accepts (partsOfCount counted (items.drop heads.length).length) :=
              Pass.accepts_partsOfCount counted _
            have repeated : ∀ place item, pass.Accepts (partsOf place true (some item) tail) ↔
                Shaped pass.Takes tail item := fun _ _ => tailIh
            simp only [partsOf, if_pos long]
            rw [Pass.accepts_entered (Node.outcome_of_long _ _ _ long), Pass.accepts_append,
              Pass.accepts_append, accepts_partsOfHeads_iff headsIh long,
              accepts_partsOfItems_iff repeated]
            simp only [counts, long, true_and]
          · refine iff_of_false (Pass.not_accepts_refused (Node.outcome_of_short _ _ _ long)) ?_
            intro shaped
            exact long shaped.1
      | boolean | integer | float | text | bytes | mapping =>
          refine iff_of_false (Pass.not_accepts_refused rfl) ?_
          intro shaped
          cases shaped

theorem exists_run_iff_shaped {layout : Layout} {path : Path} {counted : Bool} {value : Value} :
    (∃ result, pass.run (partsOf path counted (some value) layout) = .ok result) ↔
      Shaped pass.Takes layout value := by
  rw [Pass.exists_run_iff_accepts]
  exact acceptsShaped pass layout

theorem exists_writeLayout_iff {encoding : TextEncoding} {layout : Layout} {path : Path}
    {counted : Bool} {value : Value} :
    (∃ bytes, writeLayout encoding path counted value layout = .ok bytes) ↔
      Shaped (writing encoding).Takes layout value := by
  rw [writesParts]
  exact exists_run_iff_shaped

theorem exists_measure_strict_iff {encoding : TextEncoding} {layout : Layout} {value : Value} :
    (∃ size, measure ⟨encoding, true⟩ layout.plan value = .ok size) ↔
      Shaped (measuring encoding).Takes layout value := by
  rw [measure_strict, measuresParts]
  exact exists_run_iff_shaped

/-! ## Leaves -/

/-- The same keys lead to a leaf of the layout and to a part of the value. -/
structure LeafAt (layout : Layout) (value : Value) (path : Path) (type : Primitive)
    (leaf : Value) : Prop where
  declared : layoutAt? path layout = some (.leaf type)
  found : valueAt? path value = some leaf

theorem leafAt_leaf_iff {declared type : Primitive} {value leaf : Value} {path : Path} :
    LeafAt (.leaf declared) value path type leaf ↔
      path = [] ∧ type = declared ∧ leaf = value := by
  constructor
  · intro ⟨declares, holds⟩
    cases path with
    | nil =>
        cases declares
        cases holds
        exact ⟨rfl, rfl, rfl⟩
    | cons segment rest => cases segment <;> cases declares
  · intro ⟨root, sameType, sameValue⟩
    subst root sameType sameValue
    exact ⟨rfl, rfl⟩

theorem leafAt_mapping_iff {fields : List (String × Layout)} {entries : List (String × Value)}
    {path : Path} {type : Primitive} {leaf : Value} :
    LeafAt (.mapping fields) (.mapping entries) path type leaf ↔
      ∃ name rest child value, path = .field name :: rest ∧ fields.lookup name = some child ∧
        entries.lookup name = some value ∧ LeafAt child value rest type leaf := by
  constructor
  · intro ⟨declares, holds⟩
    cases path with
    | nil => cases declares
    | cons segment rest =>
        cases segment with
        | index position => cases declares
        | field name =>
            obtain ⟨child, found, declares⟩ := Option.bind_eq_some_iff.mp declares
            obtain ⟨value, held, holds⟩ := Option.bind_eq_some_iff.mp holds
            exact ⟨name, rest, child, value, rfl, found, held, declares, holds⟩
  · intro ⟨name, rest, child, value, same, found, held, declares, holds⟩
    subst same
    exact ⟨Option.bind_eq_some_iff.mpr ⟨child, found, declares⟩,
      Option.bind_eq_some_iff.mpr ⟨value, held, holds⟩⟩

theorem leafAt_sequence_iff {heads : List Layout} {tail : Layout} {items : List Value}
    {path : Path} {type : Primitive} {leaf : Value} :
    LeafAt (.sequence heads tail) (.sequence items) path type leaf ↔
      ∃ position rest item, path = .index position :: rest ∧ items[position]? = some item ∧
        LeafAt (heads[position]?.getD tail) item rest type leaf := by
  constructor
  · intro ⟨declares, holds⟩
    cases path with
    | nil => cases declares
    | cons segment rest =>
        cases segment with
        | field name => cases declares
        | index position =>
            obtain ⟨item, held, holds⟩ := Option.bind_eq_some_iff.mp holds
            exact ⟨position, rest, item, rfl, held, declares, holds⟩
  · intro ⟨position, rest, item, same, held, declares, holds⟩
    subst same
    exact ⟨declares, Option.bind_eq_some_iff.mpr ⟨item, held, holds⟩⟩

/-- A property of the leaves of a shape is one of every leaf that the keys of the layout lead to. -/
theorem Shaped.at {layout : Layout} {value : Value} (shaped : Shaped holds layout value) {path : Path}
    {type : Primitive} {leaf : Value} (leafAt : LeafAt layout value path type leaf) :
    holds type leaf := by
  induction shaped generalizing path with
  | leaf held =>
      obtain ⟨-, rfl, rfl⟩ := leafAt_leaf_iff.mp leafAt
      exact held
  | mapping present each ih =>
      obtain ⟨name, rest, child, value, -, found, held, below⟩ := leafAt_mapping_iff.mp leafAt
      exact ih (name, child) (mem_of_lookup found) value held below
  | @sequence heads tail items long each rest ih restIh =>
      obtain ⟨position, path, item, -, held, below⟩ := leafAt_sequence_iff.mp leafAt
      cases head : heads[position]? with
      | some layout =>
          rw [head, Option.getD_some] at below
          exact ih (layout, item)
            (List.mem_of_getElem? (List.getElem?_zip_eq_some.mpr ⟨head, held⟩)) below
      | none =>
          rw [head, Option.getD_none] at below
          refine restIh item ?_ below
          have beyond := List.getElem?_eq_none_iff.mp head
          refine List.mem_of_getElem? (i := position - heads.length) ?_
          rw [List.getElem?_drop, Nat.add_sub_cancel' beyond, held]

/-- Values of a shape have another property at their leaves if the keys of the layout lead to no
leaf without it. -/
theorem Shaped.of_leaves {other : Primitive → Value → Prop} {layout : Layout}
    (wellFormed : layout.WellFormed) {value : Value} (shaped : Shaped holds layout value)
    (leaves : ∀ path type leaf, LeafAt layout value path type leaf → other type leaf) :
    Shaped other layout value := by
  induction shaped with
  | leaf held => exact .leaf (leaves [] _ _ ⟨rfl, rfl⟩)
  | mapping present each ih =>
      cases wellFormed with
      | mapping nonempty distinct wellFormed =>
          refine .mapping present fun field member value found => ?_
          refine ih field member value found (wellFormed field member) fun path type leaf below => ?_
          exact leaves (.field field.1 :: path) type leaf (leafAt_mapping_iff.mpr
            ⟨_, _, field.2, value, rfl, lookup_of_mem distinct member, found, below⟩)
  | @sequence heads tail items long each rest ih restIh =>
      cases wellFormed with
      | sequence wellFormed last =>
          refine .sequence long ?heads ?rest
          case heads =>
            intro pair member
            refine ih pair member (wellFormed _ (List.of_mem_zip member).1) fun path type leaf below => ?_
            obtain ⟨position, found⟩ := List.getElem?_of_mem member
            obtain ⟨head, held⟩ := List.getElem?_zip_eq_some.mp found
            refine leaves (.index position :: path) type leaf (leafAt_sequence_iff.mpr
              ⟨_, _, _, rfl, held, ?_⟩)
            rwa [head, Option.getD_some]
          case rest =>
            intro item member
            refine restIh item member last fun path type leaf below => ?_
            obtain ⟨offset, found⟩ := List.getElem?_of_mem member
            rw [List.getElem?_drop] at found
            refine leaves (.index (heads.length + offset) :: path) type leaf
              (leafAt_sequence_iff.mpr ⟨_, _, _, rfl, found, ?_⟩)
            rwa [List.getElem?_eq_none (Nat.le_add_right _ _), Option.getD_none]

theorem Shaped.iff_leaves {other : Primitive → Value → Prop} {layout : Layout}
    (wellFormed : layout.WellFormed) {value : Value} (shaped : Shaped holds layout value) :
    Shaped other layout value ↔
      ∀ path type leaf, LeafAt layout value path type leaf → other type leaf :=
  ⟨fun same _ _ _ leafAt => same.at leafAt, shaped.of_leaves wellFormed⟩

end SchemaWire.Codec
