import SchemaWire.Proofs.Codec.Parts
import SchemaWire.Proofs.Codec.Position
import SchemaWire.Proofs.Value.Entries

/-!
# Where a pass fails

A pass fails at the first node, in the order in which it visits them, that it does not accept. Its
error names this node by the keys that lead there from the root.
-/

set_option autoImplicit false

namespace SchemaWire.Codec

open Outcome
open Schema (AliasTable Definition Layout Plan)

/-! ## Text of a path -/

/-- The path at which an error is reported. -/
def EncodeError.path : EncodeError → Path
  | .typeMismatch path _ _ => path
  | .outOfRange path _ _ => path
  | .missingField path => path
  | .shortSequence path _ _ => path
  | .unwritableText path _ _ => path

def Segment.text : Segment → String
  | .field name => name
  | .index position => "[" ++ toString position ++ "]"

def Segment.joinedText : Segment → String
  | .field name => "." ++ name
  | .index position => "[" ++ toString position ++ "]"

/-- Names are joined by points and indexes are in brackets. Empty names in front leave no trace. -/
def keyText (path : Path) : String :=
  match path.dropWhile (· == .field "") with
  | [] => "<root>"
  | first :: rest => first.text ++ String.join (rest.map Segment.joinedText)

theorem appendSegment_of_ne {text : String} (nonempty : text ≠ "") (segment : Segment) :
    appendSegment text segment = text ++ segment.joinedText := by
  cases segment with
  | field name => rw [appendSegment, if_neg nonempty, Segment.joinedText, String.append_assoc]
  | index position =>
      rw [appendSegment, Segment.joinedText, String.append_assoc, String.append_assoc,
        String.append_assoc]

theorem appendSegment_empty (segment : Segment) : appendSegment "" segment = segment.text := by
  cases segment with
  | field name => rw [appendSegment, if_pos rfl, Segment.text]
  | index position =>
      rw [appendSegment, Segment.text, String.append_assoc, String.append_assoc, String.empty_append,
        String.append_assoc]

theorem foldl_appendSegment_of_ne {text : String} (nonempty : text ≠ "") (path : Path) :
    path.foldl appendSegment text = text ++ String.join (path.map Segment.joinedText) := by
  induction path generalizing text with
  | nil => exact String.append_empty.symm
  | cons segment rest ih =>
      have longer : text ++ segment.joinedText ≠ "" := by
        intro empty
        exact nonempty (String.append_eq_empty_iff.mp empty).1
      rw [List.foldl_cons, appendSegment_of_ne nonempty, ih longer, List.map_cons, String.join_cons,
        String.append_assoc]

theorem Segment.text_ne_empty {segment : Segment} (different : segment ≠ .field "") :
    segment.text ≠ "" := by
  cases segment with
  | field name =>
      rintro rfl
      exact different rfl
  | index position =>
      intro empty
      rw [Segment.text, String.append_assoc] at empty
      exact absurd (String.append_eq_empty_iff.mp empty).1 (by decide)

theorem Path.text_eq (path : Path) : path.text = keyText path := by
  induction path with
  | nil => rfl
  | cons segment rest ih =>
      by_cases blank : segment = .field ""
      · subst blank
        exact ih
      · have nonempty := Segment.text_ne_empty blank
        have shown : (segment :: rest).foldl appendSegment "" =
            segment.text ++ String.join (rest.map Segment.joinedText) := by
          rw [List.foldl_cons, appendSegment_empty, foldl_appendSegment_of_ne nonempty]
        have kept : (segment :: rest).foldl appendSegment "" ≠ "" := by
          rw [shown]
          intro empty
          exact nonempty (String.append_eq_empty_iff.mp empty).1
        have started : keyText (segment :: rest) =
            segment.text ++ String.join (rest.map Segment.joinedText) := by
          rw [keyText, List.dropWhile_cons_of_neg (by simpa using blank)]
        rw [started, ← shown]
        exact if_neg kept

/-! ## Keys -/

/-- What the keys of a path lead to in a value. -/
def valueAt? : Path → Value → Option Value
  | [], value => some value
  | .field name :: rest, .mapping entries => (entries.lookup name).bind (valueAt? rest)
  | .index position :: rest, .sequence items => items[position]?.bind (valueAt? rest)
  | _ :: _, _ => none

/-- What the keys of a path lead to in a layout. Every index after the heads leads to the element
that is repeated. -/
def layoutAt? : Path → Layout → Option Layout
  | [], layout => some layout
  | .field name :: rest, .mapping fields => (fields.lookup name).bind (layoutAt? rest)
  | .index position :: rest, .sequence heads tail => layoutAt? rest (heads[position]?.getD tail)
  | _ :: _, _ => none

/-- The path of a node goes on from another path, from a value and a layout to those of the node. -/
def Leads (path : Path) (value? : Option Value) (layout : Layout) (node : Node) : Prop :=
  ∃ rest, node.path = path ++ rest ∧ value?.bind (valueAt? rest) = node.value? ∧
    layoutAt? rest layout = some node.layout

theorem Leads.refl (node : Node) : Leads node.path node.value? node.layout node := by
  refine ⟨[], (List.append_nil _).symm, ?_, rfl⟩
  cases node.value? <;> rfl

variable {path : Path} {node : Node}

theorem Leads.field {entries : List (String × Value)} {fields : List (String × Layout)}
    (distinct : (fields.map Prod.fst).Nodup) {name : String} {layout : Layout}
    (member : (name, layout) ∈ fields)
    (leads : Leads (path ++ [.field name]) (entries.lookup name) layout node) :
    Leads path (some (.mapping entries)) (.mapping fields) node := by
  obtain ⟨rest, same, value, below⟩ := leads
  refine ⟨.field name :: rest, ?_, value, ?_⟩
  · rw [same, List.append_assoc, List.singleton_append]
  · rw [layoutAt?, lookup_of_mem distinct member]
    exact below

theorem Leads.index {items : List Value} {heads : List Layout} {tail layout : Layout}
    {position : Nat} (element : heads[position]?.getD tail = layout)
    (leads : Leads (path ++ [.index position]) items[position]? layout node) :
    Leads path (some (.sequence items)) (.sequence heads tail) node := by
  obtain ⟨rest, same, value, below⟩ := leads
  refine ⟨.index position :: rest, ?_, value, ?_⟩
  · rw [same, List.append_assoc, List.singleton_append]
  · rw [layoutAt?, element]
    exact below

theorem mem_partsOfFields {part : Part} {entries : List (String × Value)}
    {fields : List (String × Layout)} (member : part ∈ partsOfFields path entries fields) :
    ∃ field ∈ fields,
      part ∈ partsOf (path ++ [.field field.1]) true (entries.lookup field.1) field.2 := by
  induction fields with
  | nil => cases member
  | cons field rest ih =>
      rw [partsOfFields] at member
      rcases List.mem_append.mp member with here | later
      · exact ⟨field, List.mem_cons_self, here⟩
      · obtain ⟨found, inside, below⟩ := ih later
        exact ⟨found, List.mem_cons_of_mem _ inside, below⟩

theorem mem_partsOfHeads {part : Part} {index : Nat} {items : List Value} {heads : List Layout}
    (member : part ∈ partsOfHeads path index items heads) :
    ∃ offset head, heads[offset]? = some head ∧
      part ∈ partsOf (path ++ [.index (index + offset)]) true items[offset]? head := by
  induction heads generalizing index items with
  | nil => cases member
  | cons head rest ih =>
      rw [partsOfHeads] at member
      rcases List.mem_append.mp member with here | later
      · refine ⟨0, head, rfl, ?_⟩
        rwa [← List.head?_eq_getElem?]
      · obtain ⟨offset, found, inside, below⟩ := ih later
        refine ⟨offset + 1, found, inside, ?_⟩
        rwa [← Nat.add_assoc, Nat.add_right_comm, ← List.getElem?_tail]

theorem mem_partsOfItems {part : Part} {parts : Path → Value → List Part} {index : Nat}
    {items : List Value} (member : part ∈ partsOfItems parts path index items) :
    ∃ offset item, items[offset]? = some item ∧
      part ∈ parts (path ++ [.index (index + offset)]) item := by
  induction items generalizing index with
  | nil => cases member
  | cons item rest ih =>
      rw [partsOfItems] at member
      rcases List.mem_append.mp member with here | later
      · exact ⟨0, item, rfl, here⟩
      · obtain ⟨offset, found, inside, below⟩ := ih later
        refine ⟨offset + 1, found, inside, ?_⟩
        rwa [← Nat.add_assoc, Nat.add_right_comm]

theorem node_not_mem_partsOfCount {counted : Bool} {number : Nat} :
    .node node ∉ partsOfCount counted number := by
  cases counted with
  | false => exact List.not_mem_nil
  | true =>
      intro member
      cases List.mem_singleton.mp member

/-- The path of every node that is visited leads to it from the root. Elements that are repeated
have their index in the whole sequence. -/
theorem leads_of_mem_partsOf {layout : Layout} (wellFormed : layout.WellFormed) :
    ∀ {path : Path} {counted : Bool} {value? : Option Value} {node : Node},
      .node node ∈ partsOf path counted value? layout → Leads path value? layout node := by
  induction wellFormed with
  | leaf type =>
      intro path counted value? node member
      cases List.mem_singleton.mp member
      exact .refl _
  | @mapping fields nonempty distinct each ih =>
      intro path counted value? node member
      unfold partsOf at member
      rcases List.mem_cons.mp member with here | below
      · cases here
        exact .refl _
      · split at below
        · obtain ⟨field, inside, below⟩ := mem_partsOfFields below
          exact .field distinct inside (ih field inside below)
        · cases below
  | @sequence heads tail each last ih lastIh =>
      intro path counted value? node member
      unfold partsOf at member
      rcases List.mem_cons.mp member with here | below
      · cases here
        exact .refl _
      · split at below
        · rename_i items
          split at below
          · rcases List.mem_append.mp below with first | below
            · obtain ⟨offset, head, inside, below⟩ := mem_partsOfHeads first
              rw [Nat.zero_add] at below
              refine .index (by rw [inside, Option.getD_some]) (ih head ?_ below)
              exact List.mem_of_getElem? inside
            · rcases List.mem_append.mp below with count | below
              · exact absurd count node_not_mem_partsOfCount
              · obtain ⟨offset, item, inside, below⟩ := mem_partsOfItems below
                rw [List.getElem?_drop] at inside
                refine .index ?_ (inside ▸ lastIh below)
                rw [List.getElem?_eq_none (Nat.le_add_right _ _), Option.getD_none]
          · cases below
        · cases below

/-! ## The first fault -/

variable {α : Type} {pass : Pass α} {e : EncodeError}

theorem LeafFault.path_toError (path : Path) (type : Primitive) (encoding : TextEncoding)
    (value : Value) (fault : LeafFault) : (fault.toError path type encoding value).path = path := by
  cases fault <;> rfl

theorem Node.path_of_error (failed : node.outcome pass = .error e) : e.path = node.path := by
  obtain ⟨path, layout, value?⟩ := node
  cases value? with
  | none =>
      cases failed
      rfl
  | some value =>
      cases layout with
      | leaf type =>
          obtain ⟨fault, -, rfl⟩ := mapError_eq_error_iff.mp failed
          exact fault.path_toError _ _ _ _
      | mapping fields =>
          cases value <;> cases failed
          all_goals rfl
      | sequence heads tail =>
          cases value with
          | sequence items =>
              by_cases long : heads.length ≤ items.length
              · rw [Node.outcome_of_long _ _ _ long] at failed
                cases failed
              · rw [Node.outcome_of_short _ _ _ long] at failed
                cases failed
                rfl
          | boolean | integer | float | text | bytes | mapping =>
              cases failed
              rfl

/-- A pass over a value fails at a node: it accepts every part that it visits before, and reports
the error at the keys that lead to the node. -/
structure FirstFault (pass : Pass α) (layout : Layout) (value : Value) (node : Node)
    (e : EncodeError) : Prop where
  first : ∃ before after, partsOf [] false (some value) layout = before ++ .node node :: after ∧
    ∀ part ∈ before, ∃ result, part.outcome pass = .ok result
  fails : node.outcome pass = .error e
  layout_eq : layoutAt? node.path layout = some node.layout
  value_eq : valueAt? node.path value = node.value?
  path_eq : e.path = node.path
  text_eq : e.path.text = keyText node.path

theorem FirstFault.mem {layout : Layout} {value : Value} {node : Node}
    (fault : FirstFault pass layout value node e) :
    .node node ∈ partsOf [] false (some value) layout := by
  obtain ⟨before, after, same, -⟩ := fault.first
  rw [same]
  exact List.mem_append_right _ List.mem_cons_self

theorem run_eq_error_iff {layout : Layout} (wellFormed : layout.WellFormed) {value : Value} :
    pass.run (partsOf [] false (some value) layout) = .error e ↔
      ∃ node, FirstFault pass layout value node e := by
  have failure : pass.run (partsOf [] false (some value) layout) = .error e ↔
      (partsOf [] false (some value) layout).mapM (Part.outcome pass) = .error e := by
    rw [Pass.run]
    exact bind_pure_eq_error_iff
  rw [failure, mapM_eq_error_iff]
  constructor
  · rintro ⟨before, part, after, same, earlier, failed⟩
    cases part with
    | count number => cases failed
    | node node =>
        have member : Part.node node ∈ partsOf [] false (some value) layout := by
          rw [same]
          exact List.mem_append_right _ List.mem_cons_self
        obtain ⟨rest, path, valueFound, layoutFound⟩ := leads_of_mem_partsOf wellFormed member
        rw [List.nil_append] at path
        rw [← path] at valueFound layoutFound
        exact ⟨node, ⟨before, after, same, earlier⟩, failed, layoutFound, valueFound,
          node.path_of_error failed, by rw [node.path_of_error failed, Path.text_eq]⟩
  · rintro ⟨node, ⟨before, after, same, earlier⟩, failed, -⟩
    exact ⟨before, .node node, after, same, earlier, failed⟩

theorem measure_strict (encoding : TextEncoding) (layout : Layout) (value : Value) :
    measure ⟨encoding, true⟩ layout.plan value =
      measureLayout ⟨encoding, true⟩ [] false (.ok value) layout := by
  rw [measure_plan]
  cases layoutWidth? layout <;> rfl

/-- Writing, and measuring with the guard on, go by recursion on the layout: over its parts in
their order, to the first fault. Their containers and paths stay in step with the plan. -/
theorem passes_of_compile {aliases : AliasTable} {definition : Definition} {plan : Plan}
    (compiled : definition.compile aliases = .ok plan) (encoding : TextEncoding) (value : Value) :
    ∃ layout, definition.layout aliases = .ok layout ∧
      (write encoding plan value = writeLayout encoding [] false value layout ∧
        write encoding plan value = (writing encoding).run (partsOf [] false (some value) layout) ∧
        ∀ e, write encoding plan value = .error e ↔
          ∃ node, FirstFault (writing encoding) layout value node e) ∧
      (measure ⟨encoding, true⟩ plan value =
          measureLayout ⟨encoding, true⟩ [] false (.ok value) layout ∧
        measure ⟨encoding, true⟩ plan value =
          (measuring encoding).run (partsOf [] false (some value) layout) ∧
        ∀ e, measure ⟨encoding, true⟩ plan value = .error e ↔
          ∃ node, FirstFault (measuring encoding) layout value node e) ∧
      ∀ inner, Plan.Within plan inner →
        KeepsPosition (writeStep encoding) inner ∧
          KeepsPosition (measureStep ⟨encoding, true⟩) inner := by
  obtain ⟨layout, laidOut, rfl⟩ := Definition.compile_eq_ok_iff.mp compiled
  have wellFormed := Definition.layout_wellFormed laidOut
  have written := writesParts encoding layout [] false value
  have measured := measuresParts encoding layout [] false value
  refine ⟨layout, laidOut, ?_, ?_, ?_⟩
  · rw [write_plan, written]
    exact ⟨rfl, rfl, fun e => run_eq_error_iff wellFormed⟩
  · rw [measure_strict, measured]
    exact ⟨rfl, rfl, fun e => run_eq_error_iff wellFormed⟩
  · intro inner within
    exact ⟨keepsPosition_of_within (moves_writeStep encoding) wellFormed within,
      keepsPosition_of_within (moves_measureStep ⟨encoding, true⟩) wellFormed within⟩

theorem passes_of_compile_people :
    measure ⟨.utf8, true⟩ (Layout.plan (.mapping [("people",
        .sequence [.leaf .string] (.mapping [("age", .leaf .uint8)]))]))
      (.mapping [("people", .sequence [.text "a", .mapping [("age", .integer 3)],
        .mapping [("age", .integer 700)]])]) =
      .error (.outOfRange [.field "people", .index 2, .field "age"] .uint8 (.integer 700)) ∧
    keyText [.field "people", .index 2, .field "age"] = "people[2].age" ∧
    ∃ node, FirstFault (measuring .utf8) (.mapping [("people",
        .sequence [.leaf .string] (.mapping [("age", .leaf .uint8)]))])
      (.mapping [("people", .sequence [.text "a", .mapping [("age", .integer 3)],
        .mapping [("age", .integer 700)]])]) node
      (.outOfRange [.field "people", .index 2, .field "age"] .uint8 (.integer 700)) := by
  have compiled : (Definition.mapping [("people",
      .sequence [.type "string", .mapping [("age", .type "uint8")]])]).compile .initial =
        .ok (Layout.plan (.mapping [("people",
          .sequence [.leaf .string] (.mapping [("age", .leaf .uint8)]))])) := rfl
  have measured : measure ⟨.utf8, true⟩ (Layout.plan (.mapping [("people",
        .sequence [.leaf .string] (.mapping [("age", .leaf .uint8)]))]))
      (.mapping [("people", .sequence [.text "a", .mapping [("age", .integer 3)],
        .mapping [("age", .integer 700)]])]) =
      .error (.outOfRange [.field "people", .index 2, .field "age"] .uint8 (.integer 700)) := rfl
  obtain ⟨layout, laidOut, -, ⟨-, -, faults⟩, -⟩ := passes_of_compile compiled .utf8
    (.mapping [("people", .sequence [.text "a", .mapping [("age", .integer 3)],
      .mapping [("age", .integer 700)]])])
  cases laidOut
  exact ⟨measured, rfl, (faults _).mp measured⟩

end SchemaWire.Codec
