import Mathlib.Data.List.Lex
import SchemaWire.Proofs.Codec.Shape

/-!
# Visiting order

The parts of a value are visited in the canonical order of their paths: a part before those below
it, fields by their names and elements by their indexes. Every leaf is among them.
-/

set_option autoImplicit false

namespace SchemaWire.Codec

open Schema (Layout fieldOrder)

/-! ## Order of paths -/

/-- Which of two children of a value comes first. -/
inductive Segment.Before : Segment → Segment → Prop where
  | field {name other : String} (order : fieldOrder name other = .lt) :
      Before (.field name) (.field other)
  | index {position other : Nat} (order : position < other) :
      Before (.index position) (.index other)

instance : Std.Asymm Segment.Before where
  asymm := by
    intro first second before after
    cases before with
    | field order =>
        cases after with
        | field reverse => exact Std.OrientedCmp.not_lt_of_lt order reverse
    | index order =>
        cases after with
        | index reverse => omega

/-- Which of two parts of a value comes first: a part comes before those below it, and those below a
child before those below a later one. -/
abbrev Path.Before : Path → Path → Prop :=
  List.Lex Segment.Before

theorem Path.before_asymm {first second : Path} (before : first.Before second) :
    ¬second.Before first :=
  Std.Asymm.asymm _ _ before

theorem Path.before_of_segment {path : Path} {first second : Segment} (before : first.Before second)
    (rest others : Path) : Path.Before (path ++ [first] ++ rest) (path ++ [second] ++ others) := by
  rw [List.append_assoc, List.append_assoc]
  exact List.Lex.append_left _ (.rel before) path

/-! ## Order of parts -/

/-- Numbers of elements have no path. -/
def Part.Before : Part → Part → Prop
  | .node first, .node second => first.path.Before second.path
  | .count _, _ => True
  | .node _, .count _ => True

/-- A node that stands at a path or below it. -/
def Part.Under (path : Path) : Part → Prop
  | .node found => path <+: found.path
  | .count _ => True

variable {path : Path} {counted : Bool} {value? : Option Value} {first second : Segment}

theorem Part.before_of_under {part other : Part} (before : first.Before second)
    (left : part.Under (path ++ [first])) (right : other.Under (path ++ [second])) :
    part.Before other := by
  cases part with
  | count number => trivial
  | node node =>
      cases other with
      | count number => trivial
      | node next =>
          obtain ⟨rest, same⟩ := left
          obtain ⟨others, sameNext⟩ := right
          rw [Part.Before, ← same, ← sameNext]
          exact Path.before_of_segment before rest others

theorem Part.node_before_of_under {node : Node} {part : Part}
    (under : part.Under (node.path ++ [first])) : (Part.node node).Before part := by
  cases part with
  | count number => trivial
  | node next =>
      obtain ⟨rest, same⟩ := under
      rw [List.append_assoc] at same
      have below : Path.Before (node.path ++ []) (node.path ++ ([first] ++ rest)) :=
        List.Lex.append_left Segment.Before .nil node.path
      rw [List.append_nil] at below
      rwa [Part.Before, ← same]

theorem before_of_mem_partsOfCount {number : Nat} {count part : Part}
    (member : count ∈ partsOfCount counted number) : count.Before part ∧ part.Before count := by
  cases counted with
  | false => cases member
  | true =>
      cases List.mem_singleton.mp member
      cases part <;> exact ⟨trivial, trivial⟩

theorem under_of_mem_partsOf {layout : Layout} (wellFormed : layout.WellFormed) {part : Part}
    (member : part ∈ partsOf path counted value? layout) : part.Under path := by
  cases part with
  | count number => trivial
  | node node =>
      obtain ⟨rest, same, -⟩ := leads_of_mem_partsOf wellFormed member
      exact ⟨rest, same.symm⟩

theorem under_of_mem_partsOfFields {entries : List (String × Value)}
    {fields : List (String × Layout)} (each : ∀ field ∈ fields, field.2.WellFormed) {part : Part}
    (member : part ∈ partsOfFields path entries fields) :
    ∃ field ∈ fields, part.Under (path ++ [.field field.1]) := by
  obtain ⟨field, inside, below⟩ := mem_partsOfFields member
  exact ⟨field, inside, under_of_mem_partsOf (each field inside) below⟩

theorem under_of_mem_partsOfHeads {items : List Value} {heads : List Layout} {index : Nat}
    (each : ∀ head ∈ heads, head.WellFormed) {part : Part}
    (member : part ∈ partsOfHeads path index items heads) :
    ∃ offset < heads.length, part.Under (path ++ [.index (index + offset)]) := by
  obtain ⟨offset, head, inside, below⟩ := mem_partsOfHeads member
  exact ⟨offset, (List.getElem?_eq_some_iff.mp inside).1,
    under_of_mem_partsOf (each head (List.mem_of_getElem? inside)) below⟩

theorem under_of_mem_partsOfItems {tail : Layout} (wellFormed : tail.WellFormed)
    {items : List Value} {index : Nat} {part : Part}
    (member : part ∈ partsOfItems (fun place item => partsOf place true (some item) tail) path index
      items) :
    ∃ offset, part.Under (path ++ [.index (index + offset)]) := by
  obtain ⟨offset, item, -, below⟩ := mem_partsOfItems member
  exact ⟨offset, under_of_mem_partsOf wellFormed below⟩

theorem ordered_partsOfFields {entries : List (String × Value)} {fields : List (String × Layout)}
    (ascending : (fields.map Prod.fst).Pairwise fun left right => fieldOrder left right = .lt)
    (wellFormed : ∀ field ∈ fields, field.2.WellFormed)
    (each : ∀ field ∈ fields, ∀ {path : Path} {counted : Bool} {value? : Option Value},
      (partsOf path counted value? field.2).Pairwise Part.Before) :
    (partsOfFields path entries fields).Pairwise Part.Before := by
  induction fields with
  | nil => exact .nil
  | cons field rest ih =>
      obtain ⟨own, others⟩ := List.forall_mem_cons.mp each
      obtain ⟨ownFormed, othersFormed⟩ := List.forall_mem_cons.mp wellFormed
      obtain ⟨later, ascending⟩ := List.pairwise_cons.mp ascending
      refine List.pairwise_append.mpr ⟨own, ih ascending othersFormed others, ?_⟩
      intro part member other memberOther
      obtain ⟨next, inside, under⟩ := under_of_mem_partsOfFields othersFormed memberOther
      exact Part.before_of_under (.field (later _ (List.mem_map_of_mem inside)))
        (under_of_mem_partsOf ownFormed member) under

theorem ordered_partsOfHeads {items : List Value} {heads : List Layout} {index : Nat}
    (wellFormed : ∀ head ∈ heads, head.WellFormed)
    (each : ∀ head ∈ heads, ∀ {path : Path} {counted : Bool} {value? : Option Value},
      (partsOf path counted value? head).Pairwise Part.Before) :
    (partsOfHeads path index items heads).Pairwise Part.Before := by
  induction heads generalizing index items with
  | nil => exact .nil
  | cons head rest ih =>
      obtain ⟨own, others⟩ := List.forall_mem_cons.mp each
      obtain ⟨ownFormed, othersFormed⟩ := List.forall_mem_cons.mp wellFormed
      refine List.pairwise_append.mpr ⟨own, ih othersFormed others, ?_⟩
      intro part member other memberOther
      obtain ⟨offset, -, under⟩ := under_of_mem_partsOfHeads othersFormed memberOther
      exact Part.before_of_under (.index (by omega)) (under_of_mem_partsOf ownFormed member) under

theorem ordered_partsOfItems {tail : Layout} (wellFormed : tail.WellFormed)
    (each : ∀ {path : Path} {counted : Bool} {value? : Option Value},
      (partsOf path counted value? tail).Pairwise Part.Before) {items : List Value} {index : Nat} :
    (partsOfItems (fun place item => partsOf place true (some item) tail) path index
      items).Pairwise Part.Before := by
  induction items generalizing index with
  | nil => exact .nil
  | cons item rest ih =>
      refine List.pairwise_append.mpr ⟨each, ih, ?_⟩
      intro part member other memberOther
      obtain ⟨offset, under⟩ := under_of_mem_partsOfItems wellFormed memberOther
      exact Part.before_of_under (.index (by omega)) (under_of_mem_partsOf wellFormed member) under

/-- The parts of a value come in the order of their paths. -/
theorem ordered_partsOf {layout : Layout} (ordered : layout.Ordered) :
    ∀ {path : Path} {counted : Bool} {value? : Option Value},
      (partsOf path counted value? layout).Pairwise Part.Before := by
  induction ordered with
  | leaf type => exact List.pairwise_singleton _ _
  | @mapping fields nonempty ascending each ih =>
      intro path counted value?
      have wellFormed := fun field member => (each field member).wellFormed
      unfold partsOf
      split
      · refine .cons (fun part member => ?_) (ordered_partsOfFields ascending wellFormed ih)
        obtain ⟨field, -, under⟩ := under_of_mem_partsOfFields wellFormed member
        exact Part.node_before_of_under under
      · exact List.pairwise_singleton _ _
  | @sequence heads tail each last ih lastIh =>
      intro path counted value?
      have wellFormed := fun head member => (each head member).wellFormed
      unfold partsOf
      split
      · rename_i items
        split
        · refine .cons (fun part member => ?root) (List.pairwise_append.mpr
            ⟨ordered_partsOfHeads wellFormed ih, List.pairwise_append.mpr
              ⟨?count, ordered_partsOfItems last.wellFormed lastIh, ?counted⟩, ?heads⟩)
          case count => cases counted <;> simp [partsOfCount]
          case counted =>
            intro part member other _
            exact (before_of_mem_partsOfCount member).1
          case root =>
            rcases List.mem_append.mp member with head | member
            · obtain ⟨offset, -, under⟩ := under_of_mem_partsOfHeads wellFormed head
              exact Part.node_before_of_under under
            · rcases List.mem_append.mp member with count | item
              · exact (before_of_mem_partsOfCount count).2
              · obtain ⟨offset, under⟩ := under_of_mem_partsOfItems last.wellFormed item
                exact Part.node_before_of_under under
          case heads =>
            intro part member other memberOther
            rcases List.mem_append.mp memberOther with count | item
            · exact (before_of_mem_partsOfCount count).2
            · obtain ⟨offset, inside, under⟩ := under_of_mem_partsOfHeads wellFormed member
              obtain ⟨beyond, underItem⟩ := under_of_mem_partsOfItems last.wellFormed item
              exact Part.before_of_under (.index (by omega)) under underItem
        · exact List.pairwise_singleton _ _
      · exact List.pairwise_singleton _ _

/-! ## Leaves among the parts -/

theorem mem_partsOfFields_of_mem {entries : List (String × Value)} {fields : List (String × Layout)}
    {name : String} {child : Layout} (declared : (name, child) ∈ fields) {part : Part}
    (member : part ∈ partsOf (path ++ [.field name]) true (entries.lookup name) child) :
    part ∈ partsOfFields path entries fields := by
  induction fields with
  | nil => cases declared
  | cons field rest ih =>
      rw [partsOfFields]
      rcases List.mem_cons.mp declared with same | later
      · cases same
        exact List.mem_append_left _ member
      · exact List.mem_append_right _ (ih later)

theorem mem_partsOfHeads_of_getElem? {items : List Value} {heads : List Layout} {index : Nat}
    {offset : Nat} {head : Layout} (declared : heads[offset]? = some head) {part : Part}
    (member : part ∈ partsOf (path ++ [.index (index + offset)]) true items[offset]? head) :
    part ∈ partsOfHeads path index items heads := by
  induction heads generalizing index items offset with
  | nil => cases declared
  | cons next rest ih =>
      rw [partsOfHeads]
      cases offset with
      | zero =>
          cases declared
          rw [← List.head?_eq_getElem?] at member
          exact List.mem_append_left _ member
      | succ offset =>
          rw [← Nat.add_assoc, Nat.add_right_comm, ← List.getElem?_tail] at member
          exact List.mem_append_right _ (ih declared member)

theorem mem_partsOfItems_of_getElem? {parts : Path → Value → List Part} {items : List Value}
    {index : Nat} {offset : Nat} {item : Value} (held : items[offset]? = some item) {part : Part}
    (member : part ∈ parts (path ++ [.index (index + offset)]) item) :
    part ∈ partsOfItems parts path index items := by
  induction items generalizing index offset with
  | nil => cases held
  | cons next rest ih =>
      rw [partsOfItems]
      cases offset with
      | zero =>
          cases held
          exact List.mem_append_left _ member
      | succ offset =>
          rw [← Nat.add_assoc, Nat.add_right_comm] at member
          exact List.mem_append_right _ (ih held member)

/-- Every leaf of a value of the right shape is visited. -/
theorem LeafAt.mem_partsOf {holds : Primitive → Value → Prop} {layout : Layout} {value : Value}
    (shaped : Shaped holds layout value) {below : Path} {type : Primitive} {leaf : Value}
    (leafAt : LeafAt layout value below type leaf) :
    .node ⟨path ++ below, .leaf type, some leaf⟩ ∈ partsOf path counted (some value) layout := by
  induction shaped generalizing below path counted with
  | leaf held =>
      obtain ⟨rfl, rfl, rfl⟩ := leafAt_leaf_iff.mp leafAt
      rw [List.append_nil]
      exact List.mem_singleton_self _
  | @mapping fields entries present each ih =>
      obtain ⟨name, rest, child, value, rfl, declared, held, below⟩ := leafAt_mapping_iff.mp leafAt
      rw [partsOf, List.append_cons path]
      refine List.mem_cons_of_mem _ (mem_partsOfFields_of_mem (mem_of_lookup declared) ?_)
      rw [held]
      exact ih (name, child) (mem_of_lookup declared) value held below
  | @sequence heads tail items long each rest ih restIh =>
      obtain ⟨position, below, item, rfl, held, inner⟩ := leafAt_sequence_iff.mp leafAt
      simp only [partsOf, if_pos long]
      rw [List.append_cons path]
      refine List.mem_cons_of_mem _ (List.mem_append.mpr ?_)
      cases declared : heads[position]? with
      | some head =>
          rw [declared, Option.getD_some] at inner
          refine .inl (mem_partsOfHeads_of_getElem? declared ?_)
          rw [Nat.zero_add, held]
          exact ih (head, item)
            (List.mem_of_getElem? (List.getElem?_zip_eq_some.mpr ⟨declared, held⟩)) inner
      | none =>
          rw [declared, Option.getD_none] at inner
          obtain ⟨offset, rfl⟩ := Nat.exists_eq_add_of_le (List.getElem?_eq_none_iff.mp declared)
          have dropped : (items.drop heads.length)[offset]? = some item := by
            rwa [List.getElem?_drop]
          refine .inr (List.mem_append_right _ (mem_partsOfItems_of_getElem? dropped ?_))
          exact restIh item (List.mem_of_getElem? dropped) inner

end SchemaWire.Codec
