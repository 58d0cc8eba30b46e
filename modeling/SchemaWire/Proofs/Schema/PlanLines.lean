import SchemaWire.Proofs.Schema.Layout
import SchemaWire.Schema.Dump

/-!
# Texts of plans as lines

The text of a layout's plan line by line: what each line says, and that no line is broken where no
name of a field contains a line feed.
-/

set_option autoImplicit false

namespace SchemaWire.Schema

/-! ## Lines of layouts -/

def indented (depth : Nat) (content : List Char) : List Char :=
  List.replicate (2 * depth) ' ' ++ content

/-- A line about a node: its slot, then the name of its type or a marker. -/
def nodeLine (depth : Nat) (slot : Slot) (word : String) : List Char :=
  indented depth (slot.text.toList ++ ' ' :: word.toList)

/-- The first line about repeated elements after so many heads. -/
def tailLine (depth heads : Nat) (content : List Char) : List Char :=
  indented depth ((toString heads).toList ++ '.' :: '.' :: ' ' :: content)

/-- The lines about repeated elements, given the lines of one of them. -/
def Layout.tailLines (depth heads : Nat) (counted : Bool) (lines : List (List Char)) :
    Layout → List (List Char)
  | .leaf type => [tailLine depth heads (type.name.toList ++ ' ' :: (extentText counted).toList)]
  | .mapping _ => tailLine depth heads (extentText counted).toList :: lines
  | .sequence _ _ => tailLine depth heads (extentText counted).toList :: lines

mutual

/-- The lines of the text of a layout's plan, without their line feeds. -/
def Layout.lines (depth : Nat) (slot : Slot) (counted : Bool) : Layout → List (List Char)
  | .leaf type => [nodeLine depth slot type.name]
  | .mapping fields =>
    nodeLine depth slot mappingMarker ::
      (linesOfFields (depth + 1) fields ++ [nodeLine depth slot mappingEndMarker])
  | .sequence heads tail =>
    nodeLine depth slot sequenceMarker :: (linesOfHeads (depth + 1) 0 heads ++
      (tail.tailLines (depth + 1) heads.length counted (tail.lines (depth + 2) .whole true) ++
        [nodeLine depth slot sequenceEndMarker]))

def linesOfFields (depth : Nat) : List (String × Layout) → List (List Char)
  | [] => []
  | (name, layout) :: rest => layout.lines depth (.field name) true ++ linesOfFields depth rest

def linesOfHeads (depth index : Nat) : List Layout → List (List Char)
  | [] => []
  | layout :: rest => layout.lines depth (.index index) true ++ linesOfHeads depth (index + 1) rest

end

/-! ## Texts and lines -/

def joined (lines : List (List Char)) : List Char :=
  lines.flatMap (· ++ ['\n'])

theorem joined_append (lines others : List (List Char)) :
    joined (lines ++ others) = joined lines ++ joined others :=
  List.flatMap_append

theorem joined_cons (line : List Char) (rest : List (List Char)) :
    joined (line :: rest) = line ++ '\n' :: joined rest := by
  simp [joined]

theorem toList_planLine (depth : Nat) (content : String) :
    (planLine depth content).toList = indented depth content.toList ++ ['\n'] := by
  simp [planLine, indented]

theorem toList_nodeLine (depth : Nat) (slot : Slot) (word : String) :
    (planLine depth (slot.text ++ " " ++ word)).toList = nodeLine depth slot word ++ ['\n'] := by
  simp [toList_planLine, nodeLine]

theorem toList_linesOfSteps_cons (depth : Nat) (step : Step) (rest : List Step) :
    (linesOfSteps depth (step :: rest)).toList =
      (step.lines depth).1.toList ++ (linesOfSteps (step.lines depth).2 rest).toList := by
  rw [linesOfSteps, String.toList_append]

/-- The steps of a layout are written as its lines, whatever follows them. -/
def WrittenAsLines (layout : Layout) : Prop :=
  ∀ (depth : Nat) (slot : Slot) (counted : Bool) (rest : List Step),
    (linesOfSteps depth (layout.stepsIn slot counted ++ rest)).toList =
      joined (layout.lines depth slot counted) ++ (linesOfSteps depth rest).toList

theorem writtenAsLines_fields {fields : List (String × Layout)}
    (each : ∀ field ∈ fields, WrittenAsLines field.2) (depth : Nat) (rest : List Step) :
    (linesOfSteps depth (stepsOfFields fields ++ rest)).toList =
      joined (linesOfFields depth fields) ++ (linesOfSteps depth rest).toList := by
  induction fields with
  | nil => rfl
  | cons field others ih =>
      obtain ⟨first, later⟩ := List.forall_mem_cons.mp each
      rw [stepsOfFields, linesOfFields, List.append_assoc, first, ih later, joined_append,
        List.append_assoc]

theorem writtenAsLines_heads {heads : List Layout} (each : ∀ head ∈ heads, WrittenAsLines head)
    (depth index : Nat) (rest : List Step) :
    (linesOfSteps depth (stepsOfHeads index heads ++ rest)).toList =
      joined (linesOfHeads depth index heads) ++ (linesOfSteps depth rest).toList := by
  induction heads generalizing index with
  | nil => rfl
  | cons head others ih =>
      obtain ⟨first, later⟩ := List.forall_mem_cons.mp each
      rw [stepsOfHeads, linesOfHeads, List.append_assoc, first, ih later, joined_append,
        List.append_assoc]

theorem toList_tailLines {tail : Layout} (written : WrittenAsLines tail) (depth heads : Nat)
    (counted : Bool) :
    ((tail.asTail (tail.stepsIn .whole true)).lines depth heads counted).toList =
      joined (tail.tailLines depth heads counted (tail.lines (depth + 1) .whole true)) := by
  have nested := written (depth + 1) .whole true []
  rw [List.append_nil] at nested
  cases tail with
  | leaf type =>
      simp [Layout.asTail, Tail.lines, Layout.tailLines, toList_planLine, joined, tailLine]
  | mapping | sequence =>
      rw [Layout.asTail, Tail.lines, String.toList_append, nested, toList_planLine,
        Layout.tailLines, joined_cons]
      simp [tailLine, linesOfSteps]

theorem writtenAsLines_layout (layout : Layout) : WrittenAsLines layout := by
  induction layout with
  | leaf type =>
      intro depth slot counted rest
      rw [Layout.stepsIn, List.singleton_append, toList_linesOfSteps_cons, Step.lines,
        toList_nodeLine, Layout.lines, joined_cons]
      simp [joined]
  | mapping fields ih =>
      intro depth slot counted rest
      rw [Layout.stepsIn, List.cons_append, List.append_assoc, toList_linesOfSteps_cons, Step.lines,
        toList_nodeLine, writtenAsLines_fields ih, List.singleton_append, toList_linesOfSteps_cons,
        Step.lines, toList_nodeLine, Layout.lines, joined_cons, joined_append, joined_cons]
      simp [joined]
  | sequence heads tail ih tailIh =>
      intro depth slot counted rest
      rw [Layout.stepsIn, List.cons_append, List.append_assoc, toList_linesOfSteps_cons, Step.lines,
        toList_nodeLine, writtenAsLines_heads ih, List.singleton_append, toList_linesOfSteps_cons,
        Step.lines, String.toList_append, toList_tailLines tailIh, toList_nodeLine, Layout.lines,
        joined_cons, joined_append, joined_append, joined_cons]
      simp [joined]

theorem toList_text (layout : Layout) :
    layout.plan.text.toList = joined (layout.lines 0 .whole false) := by
  have written := writtenAsLines_layout layout 0 .whole false []
  rw [List.append_nil] at written
  rw [Plan.text, Layout.plan, written, linesOfSteps, String.toList_empty, List.append_nil]

/-! ## Names in plans -/

def Slot.name? : Slot → Option String
  | .field name => some name
  | .whole | .index _ => none

mutual

/-- The names of fields in a step, those in the plan of a repeated element included. -/
def Step.fieldNames : Step → List String
  | .leaf slot _ | .openMapping slot | .closeMapping slot | .openSequence slot _ =>
    slot.name?.toList
  | .closeSequence slot _ tail _ => slot.name?.toList ++ tail.fieldNames

def Tail.fieldNames : Tail → List String
  | .leaf _ => []
  | .plan steps => fieldNamesOfSteps steps

def fieldNamesOfSteps : List Step → List String
  | [] => []
  | step :: rest => step.fieldNames ++ fieldNamesOfSteps rest

end

/-- The names of fields in a plan, at every depth. -/
def Plan.fieldNames (plan : Plan) : List String :=
  fieldNamesOfSteps plan

theorem fieldNamesOfSteps_append (steps rest : List Step) :
    fieldNamesOfSteps (steps ++ rest) = fieldNamesOfSteps steps ++ fieldNamesOfSteps rest := by
  induction steps with
  | nil => rfl
  | cons step steps ih =>
      rw [List.cons_append, fieldNamesOfSteps, fieldNamesOfSteps, ih, List.append_assoc]

/-- No name contains a line feed. -/
def OnOneLine (names : List String) : Prop :=
  ∀ name ∈ names, '\n' ∉ name.toList

theorem onOneLine_append {names others : List String} :
    OnOneLine (names ++ others) ↔ OnOneLine names ∧ OnOneLine others :=
  List.forall_mem_append

instance (names : List String) : Decidable (OnOneLine names) :=
  inferInstanceAs (Decidable (∀ name ∈ names, '\n' ∉ name.toList))

theorem lineFeed_notMem_text {slot : Slot} (single : OnOneLine slot.name?.toList) :
    '\n' ∉ slot.text.toList := by
  cases slot with
  | whole => decide
  | field name => exact single name (by simp [Slot.name?])
  | index position =>
      intro member
      rw [Slot.text, Nat.toString_eq_repr, Nat.toList_repr] at member
      have digit := Nat.isDigit_of_mem_toDigits (by decide) (by decide) member
      exact absurd digit (by decide)

/-! ## Lines without line feeds -/

theorem lineFeed_notMem_indented {content : List Char} (single : '\n' ∉ content) (depth : Nat) :
    '\n' ∉ indented depth content := by
  rw [indented, List.mem_append, not_or]
  exact ⟨fun member => absurd (List.eq_of_mem_replicate member) (by decide), single⟩

theorem lineFeed_notMem_nodeLine {slot : Slot} (single : OnOneLine slot.name?.toList)
    {word : String} (plain : '\n' ∉ word.toList) (depth : Nat) :
    '\n' ∉ nodeLine depth slot word := by
  refine lineFeed_notMem_indented ?_ depth
  rw [List.mem_append, not_or, List.mem_cons, not_or]
  exact ⟨lineFeed_notMem_text single, by decide, plain⟩

theorem lineFeed_notMem_tailLine {content : List Char} (single : '\n' ∉ content)
    (depth heads : Nat) : '\n' ∉ tailLine depth heads content := by
  refine lineFeed_notMem_indented ?_ depth
  have position : '\n' ∉ (Slot.index heads).text.toList :=
    lineFeed_notMem_text (List.forall_mem_nil _)
  rw [List.mem_append, not_or]
  exact ⟨position, by simp [single]⟩

theorem lineFeed_notMem_name (type : Primitive) : '\n' ∉ type.name.toList := by
  cases type <;> decide

theorem lineFeed_notMem_extentText (counted : Bool) : '\n' ∉ (extentText counted).toList := by
  cases counted <;> decide

/-- If no name in the steps of a layout contains a line feed, none of its lines does. -/
def LinesSingle (layout : Layout) : Prop :=
  ∀ (depth : Nat) (slot : Slot) (counted : Bool),
    OnOneLine (fieldNamesOfSteps (layout.stepsIn slot counted)) →
      ∀ line ∈ layout.lines depth slot counted, '\n' ∉ line

theorem linesSingle_fields {fields : List (String × Layout)}
    (each : ∀ field ∈ fields, LinesSingle field.2) (depth : Nat)
    (single : OnOneLine (fieldNamesOfSteps (stepsOfFields fields))) :
    ∀ line ∈ linesOfFields depth fields, '\n' ∉ line := by
  induction fields with
  | nil => exact List.forall_mem_nil _
  | cons field rest ih =>
      obtain ⟨first, others⟩ := List.forall_mem_cons.mp each
      rw [stepsOfFields, fieldNamesOfSteps_append, onOneLine_append] at single
      exact List.forall_mem_append.mpr ⟨first _ _ _ single.1, ih others single.2⟩

theorem linesSingle_heads {heads : List Layout} (each : ∀ head ∈ heads, LinesSingle head)
    (depth index : Nat) (single : OnOneLine (fieldNamesOfSteps (stepsOfHeads index heads))) :
    ∀ line ∈ linesOfHeads depth index heads, '\n' ∉ line := by
  induction heads generalizing index with
  | nil => exact List.forall_mem_nil _
  | cons head rest ih =>
      obtain ⟨first, others⟩ := List.forall_mem_cons.mp each
      rw [stepsOfHeads, fieldNamesOfSteps_append, onOneLine_append] at single
      exact List.forall_mem_append.mpr ⟨first _ _ _ single.1, ih others _ single.2⟩

theorem LinesSingle.tailLines {tail : Layout} (lines : LinesSingle tail)
    (single : OnOneLine (tail.asTail (tail.stepsIn .whole true)).fieldNames) (depth heads : Nat)
    (counted : Bool) :
    ∀ line ∈ tail.tailLines depth heads counted (tail.lines (depth + 1) .whole true),
      '\n' ∉ line := by
  have extent := lineFeed_notMem_extentText counted
  cases tail with
  | leaf type =>
      refine List.forall_mem_singleton.mpr (lineFeed_notMem_tailLine ?_ depth heads)
      rw [List.mem_append, not_or, List.mem_cons, not_or]
      exact ⟨lineFeed_notMem_name type, by decide, extent⟩
  | mapping | sequence =>
      exact List.forall_mem_cons.mpr
        ⟨lineFeed_notMem_tailLine extent depth heads, lines _ _ _ single⟩

theorem linesSingle_layout (layout : Layout) : LinesSingle layout := by
  induction layout with
  | leaf type =>
      intro depth slot counted single
      rw [Layout.stepsIn, fieldNamesOfSteps, onOneLine_append] at single
      exact List.forall_mem_singleton.mpr
        (lineFeed_notMem_nodeLine single.1 (lineFeed_notMem_name type) depth)
  | mapping fields ih =>
      intro depth slot counted single
      rw [Layout.stepsIn, fieldNamesOfSteps, fieldNamesOfSteps_append, onOneLine_append,
        onOneLine_append] at single
      obtain ⟨here, inside, -⟩ := single
      exact List.forall_mem_cons.mpr ⟨lineFeed_notMem_nodeLine here (by decide) depth,
        List.forall_mem_append.mpr ⟨linesSingle_fields ih _ inside,
          List.forall_mem_singleton.mpr (lineFeed_notMem_nodeLine here (by decide) depth)⟩⟩
  | sequence heads tail ih tailIh =>
      intro depth slot counted single
      rw [Layout.stepsIn, fieldNamesOfSteps, fieldNamesOfSteps_append, onOneLine_append,
        onOneLine_append, fieldNamesOfSteps, onOneLine_append] at single
      obtain ⟨here, inside, closing, -⟩ := single
      obtain ⟨-, repeated⟩ := onOneLine_append.mp closing
      exact List.forall_mem_cons.mpr ⟨lineFeed_notMem_nodeLine here (by decide) depth,
        List.forall_mem_append.mpr ⟨linesSingle_heads ih _ _ inside,
          List.forall_mem_append.mpr ⟨tailIh.tailLines repeated _ _ _,
            List.forall_mem_singleton.mpr (lineFeed_notMem_nodeLine here (by decide) depth)⟩⟩⟩

end SchemaWire.Schema
