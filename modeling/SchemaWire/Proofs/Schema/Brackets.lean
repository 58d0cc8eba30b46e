import SchemaWire.Proofs.Schema.Layout

/-!
# Brackets

The steps of a layout open and close containers as brackets do: each step that closes one closes the
container that was opened last, as what it was opened, and in the same slot. This goes for the plans
of repeated elements too, each of which is the plan of a layout of its own.
-/

set_option autoImplicit false

namespace SchemaWire.Schema

/-- A container that a step has opened. -/
inductive Opening where
  | mapping (slot : Slot)
  | sequence (slot : Slot) (heads : Nat)
  deriving DecidableEq, Repr

def closed? (opening : Opening) : List Opening → Option (List Opening)
  | innermost :: outer => if innermost = opening then some outer else none
  | [] => none

/-- The open containers after a step, innermost first. -/
def Step.opened? (opened : List Opening) : Step → Option (List Opening)
  | .leaf _ _ => some opened
  | .openMapping slot => some (.mapping slot :: opened)
  | .openSequence slot heads => some (.sequence slot heads :: opened)
  | .closeMapping slot => closed? (.mapping slot) opened
  | .closeSequence slot heads _ _ => closed? (.sequence slot heads) opened

def openedAfter (opened : List Opening) (steps : List Step) : Option (List Opening) :=
  steps.foldlM Step.opened? opened

theorem closed?_eq_some_iff {opening : Opening} {opened outer : List Opening} :
    closed? opening opened = some outer ↔ opened = opening :: outer := by
  cases opened with
  | nil => simp [closed?]
  | cons innermost rest => simp [closed?]

theorem closed?_cons_self (opening : Opening) (outer : List Opening) :
    closed? opening (opening :: outer) = some outer :=
  closed?_eq_some_iff.mpr rfl

theorem openedAfter_cons (opened : List Opening) (step : Step) (rest : List Step) :
    openedAfter opened (step :: rest) = (step.opened? opened).bind (openedAfter · rest) :=
  List.foldlM_cons

theorem openedAfter_append (opened : List Opening) (first second : List Step) :
    openedAfter opened (first ++ second) =
      (openedAfter opened first).bind (openedAfter · second) :=
  List.foldlM_append

/-! ## Layouts -/

variable {opened : List Opening}

theorem openedAfter_stepsOfFields {fields : List (String × Layout)}
    (each : ∀ field ∈ fields, ∀ (slot : Slot) (counted : Bool) (opened : List Opening),
      openedAfter opened (field.2.stepsIn slot counted) = some opened) :
    openedAfter opened (stepsOfFields fields) = some opened := by
  induction fields with
  | nil => rfl
  | cons field rest ih =>
      obtain ⟨first, others⟩ := List.forall_mem_cons.mp each
      simp only [stepsOfFields, openedAfter_append, first, Option.bind_some, ih others]

theorem openedAfter_stepsOfHeads {heads : List Layout}
    (each : ∀ head ∈ heads, ∀ (slot : Slot) (counted : Bool) (opened : List Opening),
      openedAfter opened (head.stepsIn slot counted) = some opened) (index : Nat) :
    openedAfter opened (stepsOfHeads index heads) = some opened := by
  induction heads generalizing index with
  | nil => rfl
  | cons head rest ih =>
      obtain ⟨first, others⟩ := List.forall_mem_cons.mp each
      simp only [stepsOfHeads, openedAfter_append, first, Option.bind_some, ih others]

/-- The steps of a layout close what they open, whatever else is open. -/
theorem openedAfter_stepsIn (layout : Layout) :
    ∀ (slot : Slot) (counted : Bool) (opened : List Opening),
      openedAfter opened (layout.stepsIn slot counted) = some opened := by
  induction layout with
  | leaf type =>
      intro slot counted opened
      rfl
  | mapping fields ih =>
      -- The children leave on top what was opened for them, which is what the last step closes.
      intro slot counted opened
      simp only [Layout.stepsIn, openedAfter_cons, openedAfter_append, Step.opened?,
        openedAfter_stepsOfFields ih, closed?_cons_self, Option.bind_some]
      rfl
  | sequence heads tail headsIh tailIh =>
      intro slot counted opened
      simp only [Layout.stepsIn, openedAfter_cons, openedAfter_append, Step.opened?,
        openedAfter_stepsOfHeads headsIh, closed?_cons_self, Option.bind_some]
      rfl

/-- What is open before a step of bracketed steps is known, and so is what is open after it. -/
theorem exists_opened {before after : List Step} {step : Step} {last : List Opening}
    (bracketed : openedAfter opened (before ++ step :: after) = some last) :
    ∃ found next, openedAfter opened before = some found ∧ step.opened? found = some next := by
  rw [openedAfter_append] at bracketed
  obtain ⟨found, first, bracketed⟩ := Option.bind_eq_some_iff.mp bracketed
  rw [openedAfter_cons] at bracketed
  obtain ⟨next, second, -⟩ := Option.bind_eq_some_iff.mp bracketed
  exact ⟨found, next, first, second⟩

/-! ## Steps of children -/

theorem forall_mem_stepsOfFields {property : Step → Prop} {fields : List (String × Layout)}
    (each : ∀ field ∈ fields, ∀ step ∈ field.2.stepsIn (.field field.1) true, property step) :
    ∀ step ∈ stepsOfFields fields, property step := by
  induction fields with
  | nil => exact List.forall_mem_nil _
  | cons field rest ih =>
      obtain ⟨first, others⟩ := List.forall_mem_cons.mp each
      exact List.forall_mem_append.mpr ⟨first, ih others⟩

theorem forall_mem_stepsOfHeads {property : Step → Prop} {heads : List Layout}
    (each : ∀ head ∈ heads, ∀ index, ∀ step ∈ head.stepsIn (.index index) true, property step)
    (index : Nat) : ∀ step ∈ stepsOfHeads index heads, property step := by
  induction heads generalizing index with
  | nil => exact List.forall_mem_nil _
  | cons head rest ih =>
      obtain ⟨first, others⟩ := List.forall_mem_cons.mp each
      exact List.forall_mem_append.mpr ⟨first index, ih others (index + 1)⟩

/-! ## Repeated elements -/

/-- The repeated elements of a sequence are handled by the plan of a layout. -/
def ClosesLayout : Step → Prop
  | .closeSequence _ _ tail _ =>
    ∃ layout : Layout, layout.WellFormed ∧ tail = layout.asTail (layout.stepsIn .whole true)
  | .leaf _ _ | .openMapping _ | .closeMapping _ | .openSequence _ _ => True

theorem closesLayout_stepsIn {layout : Layout} (wellFormed : layout.WellFormed) :
    ∀ (slot : Slot) (counted : Bool), ∀ step ∈ layout.stepsIn slot counted, ClosesLayout step := by
  induction wellFormed with
  | leaf type =>
      intro slot counted
      exact List.forall_mem_singleton.mpr trivial
  | mapping nonempty distinct each ih =>
      intro slot counted
      have children := forall_mem_stepsOfFields fun field member => ih field member _ _
      exact List.forall_mem_cons.mpr ⟨trivial, List.forall_mem_append.mpr
        ⟨children, List.forall_mem_singleton.mpr trivial⟩⟩
  | @sequence heads tail each last ih lastIh =>
      intro slot counted
      have children := forall_mem_stepsOfHeads (fun head member index => ih head member _ _) 0
      have closing : ClosesLayout (.closeSequence slot heads.length
          (tail.asTail (tail.stepsIn .whole true)) counted) := ⟨tail, last, rfl⟩
      exact List.forall_mem_cons.mpr ⟨trivial, List.forall_mem_append.mpr
        ⟨children, List.forall_mem_singleton.mpr closing⟩⟩

/-- A plan itself, or the plan of the repeated elements of a sequence inside it. -/
inductive Plan.Within : Plan → Plan → Prop where
  | refl (plan : Plan) : Within plan plan
  | tail {plan nested inner : Plan} {slot : Slot} {heads : Nat} {counted : Bool}
      (member : .closeSequence slot heads (.plan nested) counted ∈ plan)
      (within : Within nested inner) : Within plan inner

theorem exists_element {layout : Layout} {slot place : Slot} {heads : Nat} {counted last : Bool}
    {nested : Plan} (wellFormed : layout.WellFormed)
    (member : .closeSequence place heads (.plan nested) last ∈ layout.stepsIn slot counted) :
    ∃ element : Layout, element.WellFormed ∧ nested = element.stepsIn .whole true := by
  obtain ⟨element, elementWellFormed, same⟩ := closesLayout_stepsIn wellFormed _ _ _ member
  cases element with
  | leaf type => cases same
  | mapping | sequence =>
      cases same
      exact ⟨_, elementWellFormed, rfl⟩

/-- Inside the plan of a repeated element everything is counted. -/
theorem exists_counted_of_within {plan inner : Plan} (within : plan.Within inner) :
    ∀ {layout : Layout}, layout.WellFormed → plan = layout.stepsIn .whole true →
      ∃ found : Layout, found.WellFormed ∧ inner = found.stepsIn .whole true := by
  induction within with
  | refl plan =>
      intro layout wellFormed same
      exact ⟨layout, wellFormed, same⟩
  | tail member within ih =>
      intro layout wellFormed same
      rw [same] at member
      obtain ⟨element, elementWellFormed, nested⟩ := exists_element wellFormed member
      exact ih elementWellFormed nested

theorem exists_layout_of_nested {layout : Layout} {slot place : Slot} {heads : Nat}
    {counted last : Bool} {nested inner : Plan} (wellFormed : layout.WellFormed)
    (member : .closeSequence place heads (.plan nested) last ∈ layout.stepsIn slot counted)
    (within : nested.Within inner) :
    ∃ found : Layout, found.WellFormed ∧ inner = found.stepsIn .whole true := by
  obtain ⟨element, elementWellFormed, same⟩ := exists_element wellFormed member
  exact exists_counted_of_within within elementWellFormed same

/-- Every plan inside the plan of a layout is the plan of a layout. -/
theorem exists_layout_of_within {plan inner : Plan} (within : plan.Within inner) :
    ∀ {layout : Layout} {counted : Bool}, layout.WellFormed →
      plan = layout.stepsIn .whole counted →
        ∃ found counted, Layout.WellFormed found ∧ inner = found.stepsIn .whole counted := by
  intro layout counted wellFormed same
  cases within with
  | refl => exact ⟨layout, counted, wellFormed, same⟩
  | tail member within =>
      rw [same] at member
      obtain ⟨found, foundWellFormed, inside⟩ := exists_layout_of_nested wellFormed member within
      exact ⟨found, true, foundWellFormed, inside⟩

end SchemaWire.Schema
