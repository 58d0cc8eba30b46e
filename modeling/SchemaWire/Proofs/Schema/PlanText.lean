import SchemaWire.Proofs.Schema.Identity
import SchemaWire.Proofs.Schema.PlanLines

/-!
# Plans and their texts

The text of a plan is read back line by line. A line is known from its last word: types and opening
markers stand for children, closing markers and the line of the repeated element end them. What is
before the last word is the name of a child, whatever it looks like, since the indentation is known
from the open containers. So plans whose names contain no line feeds are known from their texts.
-/

set_option autoImplicit false

namespace SchemaWire.Schema

/-! ## Cutting at a character -/

section Cutting

variable {α : Type} {c : α} {front back otherFront otherBack : List α}

theorem cut_first (absent : c ∉ front) (otherAbsent : c ∉ otherFront)
    (same : front ++ c :: back = otherFront ++ c :: otherBack) :
    front = otherFront ∧ back = otherBack := by
  rcases List.append_eq_append_iff.mp same with ⟨between, rfl, cut⟩ | ⟨between, rfl, cut⟩
  · cases between with
    | nil => exact ⟨(List.append_nil front).symm, (List.cons.inj cut).2⟩
    | cons other between =>
        rw [(List.cons.inj cut).1] at otherAbsent
        exact absurd (List.mem_append_right front List.mem_cons_self) otherAbsent
  · cases between with
    | nil => exact ⟨List.append_nil otherFront, (List.cons.inj cut).2.symm⟩
    | cons other between =>
        rw [(List.cons.inj cut).1] at absent
        exact absurd (List.mem_append_right otherFront List.mem_cons_self) absent

theorem cut_last (absent : c ∉ back) (otherAbsent : c ∉ otherBack)
    (same : front ++ c :: back = otherFront ++ c :: otherBack) :
    front = otherFront ∧ back = otherBack := by
  have reversed : back.reverse ++ c :: front.reverse =
      otherBack.reverse ++ c :: otherFront.reverse := by
    simpa using congrArg List.reverse same
  obtain ⟨backs, fronts⟩ := cut_first (by simpa using absent) (by simpa using otherAbsent) reversed
  exact ⟨List.reverse_inj.mp fronts, List.reverse_inj.mp backs⟩

end Cutting

theorem joined_inj {lines others : List (List Char)} (single : ∀ line ∈ lines, '\n' ∉ line)
    (otherSingle : ∀ line ∈ others, '\n' ∉ line) (same : joined lines = joined others) :
    lines = others := by
  induction lines generalizing others with
  | nil =>
      cases others with
      | nil => rfl
      | cons other others =>
          rw [joined_cons] at same
          exact absurd same.symm (List.append_ne_nil_of_right_ne_nil other (List.cons_ne_nil _ _))
  | cons line lines ih =>
      obtain ⟨first, remaining⟩ := List.forall_mem_cons.mp single
      cases others with
      | nil =>
          rw [joined_cons] at same
          exact absurd same (List.append_ne_nil_of_right_ne_nil line (List.cons_ne_nil _ _))
      | cons other others =>
          obtain ⟨otherFirst, otherRemaining⟩ := List.forall_mem_cons.mp otherSingle
          rw [joined_cons, joined_cons] at same
          obtain ⟨rfl, later⟩ := cut_first first otherFirst same
          rw [ih remaining otherRemaining later]

/-! ## Words -/

/-- The last word of the first line about a layout. -/
def Layout.word : Layout → String
  | .leaf type => type.name
  | .mapping _ => mappingMarker
  | .sequence _ _ => sequenceMarker

/-- The last words of lines after the children of a container. -/
def closingWords : List String :=
  [mappingEndMarker, sequenceEndMarker, "(counted)", "end)"]

theorem Layout.word_plain (layout : Layout) :
    ' ' ∉ layout.word.toList ∧ layout.word ∉ closingWords := by
  cases layout with
  | leaf type => cases type <;> decide
  | mapping fields => exact (by decide : ' ' ∉ mappingMarker.toList ∧ mappingMarker ∉ closingWords)
  | sequence heads tail =>
      exact (by decide : ' ' ∉ sequenceMarker.toList ∧ sequenceMarker ∉ closingWords)

theorem space_notMem_closingWords : ∀ word ∈ closingWords, ' ' ∉ word.toList := by
  decide

/-- The line comes after the children of a container. -/
def Closing (line : List Char) : Prop :=
  ∃ front, ∃ word ∈ closingWords, line = front ++ ' ' :: word.toList

theorem nodeLine_eq (depth : Nat) (slot : Slot) (word : String) :
    nodeLine depth slot word = indented depth slot.text.toList ++ ' ' :: word.toList := by
  rw [nodeLine, indented, indented, List.append_assoc]

theorem closing_nodeLine (depth : Nat) (slot : Slot) {word : String} (closes : word ∈ closingWords) :
    Closing (nodeLine depth slot word) :=
  ⟨_, word, closes, nodeLine_eq depth slot word⟩

theorem not_closing_nodeLine (depth : Nat) (slot : Slot) (layout : Layout) :
    ¬Closing (nodeLine depth slot layout.word) := by
  intro ⟨front, word, closes, same⟩
  obtain ⟨plain, opens⟩ := layout.word_plain
  rw [nodeLine_eq] at same
  obtain ⟨-, words⟩ := cut_last plain (space_notMem_closingWords word closes) same
  exact opens (String.toList_inj.mp words ▸ closes)

theorem nodeLine_inj {depth : Nat} {slot place : Slot} {layout other : Layout}
    (same : nodeLine depth slot layout.word = nodeLine depth place other.word) :
    slot.text = place.text ∧ layout.word = other.word := by
  rw [nodeLine_eq, nodeLine_eq] at same
  obtain ⟨fronts, words⟩ := cut_last layout.word_plain.1 other.word_plain.1 same
  exact ⟨String.toList_inj.mp (List.append_cancel_left fronts), String.toList_inj.mp words⟩

theorem exists_first_lines (layout : Layout) (depth : Nat) (slot : Slot) (counted : Bool) :
    ∃ rest, layout.lines depth slot counted = nodeLine depth slot layout.word :: rest := by
  cases layout with
  | leaf | mapping | sequence => exact ⟨_, rfl⟩

theorem closing_extentText (before : List Char) (counted : Bool) :
    Closing (before ++ ' ' :: (extentText counted).toList) := by
  cases counted with
  | false => exact ⟨before ++ " (to".toList, "end)", by decide, by simp [extentText]⟩
  | true => exact ⟨before, "(counted)", by decide, rfl⟩

theorem tailLine_eq (depth heads : Nat) (content : List Char) :
    tailLine depth heads content =
      indented depth ((toString heads).toList ++ ['.', '.']) ++ ' ' :: content := by
  simp [tailLine, indented]

/-- The first line about repeated elements comes after the heads. -/
theorem exists_first_tailLines (tail : Layout) (depth heads : Nat) (counted : Bool)
    (lines : List (List Char)) :
    ∃ first rest, tail.tailLines depth heads counted lines = first :: rest ∧ Closing first := by
  cases tail with
  | leaf type =>
      refine ⟨_, _, rfl, ?_⟩
      rw [tailLine_eq, ← List.cons_append, ← List.append_assoc]
      exact closing_extentText _ counted
  | mapping | sequence =>
      refine ⟨_, _, rfl, ?_⟩
      rw [tailLine_eq]
      exact closing_extentText _ counted

/-! ## Reading lines back -/

/-- The layout and what follows its lines are determined by both together. -/
def LinesReadBack (layout : Layout) : Prop :=
  ∀ (other : Layout) (depth : Nat) (slot : Slot) (counted : Bool) (rest after : List (List Char)),
    layout.lines depth slot counted ++ rest = other.lines depth slot counted ++ after →
      layout = other ∧ rest = after

theorem slotText_word_eq_of_lines {layout other : Layout} {depth : Nat} {slot place : Slot}
    {counted last : Bool} {rest after : List (List Char)}
    (same : layout.lines depth slot counted ++ rest = other.lines depth place last ++ after) :
    slot.text = place.text ∧ layout.word = other.word := by
  obtain ⟨more, lines⟩ := exists_first_lines layout depth slot counted
  obtain ⟨otherMore, otherLines⟩ := exists_first_lines other depth place last
  rw [lines, otherLines] at same
  exact nodeLine_inj (List.cons.inj same).1

theorem linesOfFields_eq_blocks (depth : Nat) (fields : List (String × Layout)) (index : Nat) :
    linesOfFields depth fields =
      blocks (fun _ field => field.2.lines depth (.field field.1) true) index fields := by
  induction fields generalizing index with
  | nil => rfl
  | cons field rest ih => rw [linesOfFields, blocks, ih (index + 1)]

theorem linesOfHeads_eq_blocks (depth : Nat) (heads : List Layout) (index : Nat) :
    linesOfHeads depth index heads =
      blocks (fun index head => head.lines depth (.index index) true) index heads := by
  induction heads generalizing index with
  | nil => rfl
  | cons head rest ih => rw [linesOfHeads, blocks, ih]

section Children

variable {depth : Nat} {line otherLine : List Char} {rest after : List (List Char)}

theorem linesReadBack_fields {fields : List (String × Layout)}
    (each : ∀ field ∈ fields, LinesReadBack field.2) {others : List (String × Layout)}
    (same : linesOfFields depth fields ++ line :: rest =
      linesOfFields depth others ++ otherLine :: after)
    (closes : Closing line) (otherCloses : Closing otherLine) :
    fields = others ∧ line = otherLine ∧ rest = after := by
  rw [linesOfFields_eq_blocks depth fields 0, linesOfFields_eq_blocks depth others 0] at same
  refine readBack_blocks (fun _ field => ?opens) (fun field member _ other _ _ same => ?each) same
    closes otherCloses
  case opens =>
    obtain ⟨more, lines⟩ := exists_first_lines field.2 depth (.field field.1) true
    exact ⟨_, more, lines, not_closing_nodeLine depth (.field field.1) field.2⟩
  case each =>
    obtain ⟨name, layout⟩ := field
    obtain ⟨otherName, otherLayout⟩ := other
    obtain ⟨names, -⟩ := slotText_word_eq_of_lines same
    cases names
    obtain ⟨rfl, later⟩ := each _ member otherLayout _ _ _ _ _ same
    exact ⟨rfl, later⟩

theorem linesReadBack_heads {heads : List Layout} (each : ∀ head ∈ heads, LinesReadBack head)
    {others : List Layout} {index : Nat}
    (same : linesOfHeads depth index heads ++ line :: rest =
      linesOfHeads depth index others ++ otherLine :: after)
    (closes : Closing line) (otherCloses : Closing otherLine) :
    heads = others ∧ line = otherLine ∧ rest = after := by
  rw [linesOfHeads_eq_blocks, linesOfHeads_eq_blocks] at same
  refine readBack_blocks (fun index head => ?opens) (fun head member index other rest after same =>
    each head member other depth (.index index) true rest after same) same closes otherCloses
  obtain ⟨more, lines⟩ := exists_first_lines head depth (.index index) true
  exact ⟨_, more, lines, not_closing_nodeLine depth (.index index) head⟩

end Children

/-- The line about repeated leaves has the type where the one about repeated containers ends. -/
theorem tailLine_leaf_ne {depth heads : Nat} {type : Primitive} {counted : Bool} :
    tailLine depth heads (type.name.toList ++ ' ' :: (extentText counted).toList) ≠
      tailLine depth heads (extentText counted).toList := by
  intro same
  rw [tailLine_eq, tailLine_eq] at same
  have contents := (List.cons.inj (List.append_cancel_left same)).2
  have lengths := congrArg List.length contents
  rw [List.length_append, List.length_cons] at lengths
  omega

theorem LinesReadBack.tailLines {tail : Layout} (readBack : LinesReadBack tail) {other : Layout}
    {depth heads : Nat} {counted : Bool} {rest after : List (List Char)}
    (same : tail.tailLines depth heads counted (tail.lines (depth + 1) .whole true) ++ rest =
      other.tailLines depth heads counted (other.lines (depth + 1) .whole true) ++ after) :
    tail = other ∧ rest = after := by
  cases tail with
  | leaf type =>
      cases other with
      | leaf otherType =>
          obtain ⟨first, later⟩ := List.cons.inj same
          rw [tailLine_eq, tailLine_eq] at first
          have contents := (List.cons.inj (List.append_cancel_left first)).2
          have names := List.append_cancel_right contents
          rw [Primitive.name_inj.mp (String.toList_inj.mp names)]
          exact ⟨rfl, later⟩
      | mapping | sequence => exact absurd (List.cons.inj same).1 tailLine_leaf_ne
  | mapping | sequence =>
      cases other with
      | leaf otherType => exact absurd (List.cons.inj same).1.symm tailLine_leaf_ne
      | mapping | sequence => exact readBack _ _ _ _ _ _ (List.cons.inj same).2

theorem name_ne_markers (type : Primitive) :
    type.name ≠ mappingMarker ∧ type.name ≠ sequenceMarker := by
  cases type <;> decide

theorem mappingMarker_ne_sequenceMarker : mappingMarker ≠ sequenceMarker := by
  decide

theorem linesReadBack_layout (layout : Layout) : LinesReadBack layout := by
  induction layout with
  | leaf type =>
      intro other depth slot counted rest after same
      obtain ⟨-, words⟩ := slotText_word_eq_of_lines same
      cases other with
      | leaf otherType =>
          rw [Primitive.name_inj.mp words]
          exact ⟨rfl, (List.cons.inj same).2⟩
      | mapping => exact absurd words (name_ne_markers type).1
      | sequence => exact absurd words (name_ne_markers type).2
  | mapping fields ih =>
      intro other depth slot counted rest after same
      obtain ⟨-, words⟩ := slotText_word_eq_of_lines same
      cases other with
      | leaf type => exact absurd words.symm (name_ne_markers type).1
      | sequence => exact absurd words mappingMarker_ne_sequenceMarker
      | mapping others =>
          simp only [Layout.lines, List.cons_append, List.append_assoc, List.nil_append] at same
          have closes : Closing (nodeLine depth slot mappingEndMarker) :=
            closing_nodeLine depth slot (by decide)
          obtain ⟨rfl, -, rfl⟩ := linesReadBack_fields ih (List.cons.inj same).2 closes closes
          exact ⟨rfl, rfl⟩
  | sequence heads tail ih tailIh =>
      intro other depth slot counted rest after same
      obtain ⟨-, words⟩ := slotText_word_eq_of_lines same
      cases other with
      | leaf type => exact absurd words.symm (name_ne_markers type).2
      | mapping => exact absurd words.symm mappingMarker_ne_sequenceMarker
      | sequence others otherTail =>
          simp only [Layout.lines, List.cons_append, List.append_assoc, List.nil_append] at same
          have children := (List.cons.inj same).2
          obtain ⟨first, more, lines, closes⟩ := exists_first_tailLines tail (depth + 1)
            heads.length counted (tail.lines (depth + 2) .whole true)
          obtain ⟨otherFirst, otherMore, otherLines, otherCloses⟩ := exists_first_tailLines otherTail
            (depth + 1) others.length counted (otherTail.lines (depth + 2) .whole true)
          rw [lines, otherLines, List.cons_append, List.cons_append] at children
          obtain ⟨rfl, rfl, later⟩ := linesReadBack_heads ih children closes otherCloses
          have tails : tail.tailLines (depth + 1) heads.length counted
                (tail.lines (depth + 2) .whole true) ++
                  nodeLine depth slot sequenceEndMarker :: rest =
              otherTail.tailLines (depth + 1) heads.length counted
                (otherTail.lines (depth + 2) .whole true) ++
                  nodeLine depth slot sequenceEndMarker :: after := by
            rw [lines, otherLines, List.cons_append, List.cons_append, later]
          obtain ⟨rfl, ends⟩ := tailIh.tailLines tails
          exact ⟨rfl, (List.cons.inj ends).2⟩

/-! ## Compiled plans -/

/-- Two compiled plans, under whatever aliases, have one text only if they are the same, provided
that no name in them contains a line feed. -/
theorem text_eq_iff_of_compile {aliases otherAliases : AliasTable} {definition other : Definition}
    {plan otherPlan : Plan} (compiled : definition.compile aliases = .ok plan)
    (otherCompiled : other.compile otherAliases = .ok otherPlan)
    (single : OnOneLine plan.fieldNames) (otherSingle : OnOneLine otherPlan.fieldNames) :
    plan.text = otherPlan.text ↔ plan = otherPlan := by
  refine ⟨fun same => ?_, congrArg Plan.text⟩
  obtain ⟨layout, -, rfl⟩ := Definition.compile_eq_ok_iff.mp compiled
  obtain ⟨otherLayout, -, rfl⟩ := Definition.compile_eq_ok_iff.mp otherCompiled
  have lines : layout.lines 0 .whole false = otherLayout.lines 0 .whole false := by
    refine joined_inj (linesSingle_layout layout _ _ _ single)
      (linesSingle_layout otherLayout _ _ _ otherSingle) ?_
    rw [← toList_text, ← toList_text, same]
  refine plan_inj.mpr (linesReadBack_layout layout otherLayout 0 .whole false [] [] ?_).1
  rw [lines]

/-- Names that look like positions do not make a mapping print as a sequence. -/
theorem text_eq_iff_of_compile_lookalikes :
    let row := Layout.plan (.mapping [("$", .sequence [.leaf .uint8] (.leaf .int8))])
    let named := Layout.plan
      (.mapping [("$", .mapping [("0", .leaf .uint8), ("1..", .leaf .int8)])])
    (Definition.mapping [("$", .sequence [.type "uint8", .type "int8"])]).compile .initial =
        .ok row ∧
      (Definition.mapping [("$", .mapping [("1..", .type "int8"), ("0", .type "uint8")])]).compile
        .initial = .ok named ∧
      OnOneLine row.fieldNames ∧ OnOneLine named.fieldNames ∧
      (row.text = named.text ↔ row = named) ∧ row.text ≠ named.text := by
  intro row named
  have compiled : (Definition.mapping
      [("$", .sequence [.type "uint8", .type "int8"])]).compile .initial = .ok row := rfl
  have otherCompiled : (Definition.mapping
      [("$", .mapping [("1..", .type "int8"), ("0", .type "uint8")])]).compile .initial =
        .ok named := rfl
  have single : OnOneLine row.fieldNames := by decide
  have otherSingle : OnOneLine named.fieldNames := by decide
  have identity := text_eq_iff_of_compile compiled otherCompiled single otherSingle
  refine ⟨compiled, otherCompiled, single, otherSingle, identity, fun same => ?_⟩
  cases plan_inj.mp (identity.mp same)

/-- A name with a line feed can hold the line of another field. -/
example : (Layout.plan (.mapping [("a", .leaf .uint8), ("b", .leaf .uint8)])).text =
    (Layout.plan (.mapping [("a uint8\n  b", .leaf .uint8)])).text := rfl

end SchemaWire.Schema
