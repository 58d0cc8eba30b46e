import SchemaWire.Proofs.Codec.Steps
import SchemaWire.Proofs.Schema.Brackets

/-!
# Position in a value

Measuring and writing keep the containers around the open one, and the path to it. Both stay in step
with the brackets of a plan, so a step that closes a container always goes back to the one around
it, and in the end the whole value is the open one again.
-/

set_option autoImplicit false

namespace SchemaWire.Codec

open Outcome
open Schema (Layout Opening Plan Step openedAfter)

/-! ## Moving -/

/-- Where a step leads, whatever it measures or writes. -/
def move (focus : Focus) : Step → Except EncodeError Focus
  | .leaf _ _ => .ok focus
  | .openMapping slot => focus.openMapping slot
  | .openSequence slot heads => focus.openSequence slot heads
  | .closeMapping slot => .ok (focus.close slot)
  | .closeSequence slot _ _ _ => .ok (focus.close slot)

variable {α : Type} {pass : Focus → Step → Except EncodeError (α × Focus)}

def Moves (pass : Focus → Step → Except EncodeError (α × Focus)) : Prop :=
  ∀ {focus next : Focus} {step : Step} {result : α},
    pass focus step = .ok (result, next) → move focus step = .ok next

theorem moves_writeStep (encoding : TextEncoding) : Moves (writeStep encoding) := by
  intro focus next step bytes written
  cases step with
  | leaf slot type =>
      obtain ⟨value, -, written⟩ := bind_eq_ok_iff.mp written
      obtain ⟨found, -, same⟩ := bind_pure_eq_ok_iff.mp written
      cases same
      rfl
  | openMapping | openSequence =>
      obtain ⟨inner, opened, same⟩ := bind_pure_eq_ok_iff.mp written
      cases same
      exact opened
  | closeMapping slot =>
      cases written
      rfl
  | closeSequence slot heads tail counted =>
      obtain ⟨others, -, same⟩ := bind_pure_eq_ok_iff.mp written
      cases same
      rfl

theorem moves_measureStep (options : Options) : Moves (measureStep options) := by
  intro focus next step size measured
  cases step with
  | leaf slot type =>
      simp only [measureStep] at measured
      split at measured
      · cases measured
        rfl
      · obtain ⟨value, -, measured⟩ := bind_eq_ok_iff.mp measured
        obtain ⟨found, -, same⟩ := bind_pure_eq_ok_iff.mp measured
        cases same
        rfl
  | openMapping | openSequence =>
      obtain ⟨inner, opened, same⟩ := bind_pure_eq_ok_iff.mp measured
      cases same
      exact opened
  | closeMapping slot =>
      cases measured
      rfl
  | closeSequence slot heads tail counted =>
      simp only [measureStep] at measured
      split at measured
      · cases measured
        rfl
      · obtain ⟨others, -, same⟩ := bind_pure_eq_ok_iff.mp measured
        cases same
        rfl

def focusAfter (pass : Focus → Step → Except EncodeError (α × Focus)) (focus : Focus)
    (steps : List Step) : Except EncodeError Focus :=
  steps.foldlM (fun focus step => do let (_, next) ← pass focus step; return next) focus

theorem focusAfter_cons_eq_ok_iff {focus last : Focus} {step : Step} {rest : List Step} :
    focusAfter pass focus (step :: rest) = .ok last ↔
      ∃ result next, pass focus step = .ok (result, next) ∧ focusAfter pass next rest = .ok last := by
  have split : focusAfter pass focus (step :: rest) =
      (do let (_, next) ← pass focus step; return next) >>= (focusAfter pass · rest) :=
    List.foldlM_cons
  rw [split, bind_eq_ok_iff]
  constructor
  · intro ⟨next, moved, later⟩
    obtain ⟨⟨result, found⟩, taken, same⟩ := bind_pure_eq_ok_iff.mp moved
    cases same
    exact ⟨result, found, taken, later⟩
  · intro ⟨result, next, taken, later⟩
    exact ⟨next, bind_pure_eq_ok_iff.mpr ⟨(result, next), taken, rfl⟩, later⟩

/-! ## Standing -/

/-- A container has been entered for each that is open: in the slot where it was opened, of the kind
as which it was opened, and with an element for every head. -/
inductive Stands (start : Focus) : List Opening → Focus → Prop where
  | start : Stands start [] start
  | mapping {opened : List Opening} {focus : Focus} {slot : Schema.Slot}
      {entries : List (String × Value)} (outer : Stands start opened focus)
      (found : focus.child slot = .ok (.mapping entries)) :
      Stands start (.mapping slot :: opened) (focus.enter slot (.mapping entries))
  | sequence {opened : List Opening} {focus : Focus} {slot : Schema.Slot} {heads : Nat}
      {items : List Value} (outer : Stands start opened focus)
      (found : focus.child slot = .ok (.sequence items)) (long : heads ≤ items.length) :
      Stands start (.sequence slot heads :: opened) (focus.enter slot (.sequence items))

def keysOf : List Opening → Path
  | [] => []
  | .mapping slot :: outer => keysOf outer ++ segmentsOf slot
  | .sequence slot _ :: outer => keysOf outer ++ segmentsOf slot

variable {start focus next : Focus} {opened : List Opening}

theorem Stands.path_eq (stands : Stands start opened focus) :
    focus.path = start.path ++ keysOf opened := by
  induction stands with
  | start => exact (List.append_nil _).symm
  | mapping outer found ih | sequence outer found long ih =>
      simp only [Focus.enter, Focus.pathOf, ih, keysOf, List.append_assoc]

theorem Stands.length_outer (stands : Stands start opened focus) :
    focus.outer.length = start.outer.length + opened.length := by
  induction stands with
  | start => rfl
  | mapping outer found ih | sequence outer found long ih =>
      simp only [Focus.enter, List.length_cons, ih, Nat.add_assoc]

theorem Stands.move {step : Step} (stands : Stands start opened focus) {after : List Opening}
    (opens : step.opened? opened = some after) (moved : move focus step = .ok next) :
    Stands start after next := by
  cases step with
  | leaf slot type =>
      cases opens
      cases moved
      exact stands
  | openMapping slot =>
      cases opens
      obtain ⟨value, found, entered⟩ := bind_eq_ok_iff.mp moved
      cases value with
      | mapping entries =>
          cases entered
          exact .mapping stands found
      | boolean | integer | float | text | bytes | sequence => cases entered
  | openSequence slot heads =>
      cases opens
      obtain ⟨value, found, entered⟩ := bind_eq_ok_iff.mp moved
      cases value with
      | sequence items =>
          dsimp only at entered
          split at entered
          · rename_i long
            cases entered
            exact .sequence stands found long
          · cases entered
      | boolean | integer | float | text | bytes | mapping => cases entered
  | closeMapping slot =>
      -- What is closed is what was entered last, so going back undoes that step and no other.
      cases Schema.closed?_eq_some_iff.mp opens
      cases moved
      cases stands with
      | mapping outer found => rwa [close_enter]
  | closeSequence slot heads tail counted =>
      cases Schema.closed?_eq_some_iff.mp opens
      cases moved
      cases stands with
      | sequence outer found long => rwa [close_enter]

theorem Stands.focusAfter (moves : Moves pass) {steps : List Step} {after : List Opening}
    (stands : Stands start opened focus) (opens : openedAfter opened steps = some after)
    (reached : focusAfter pass focus steps = .ok next) : Stands start after next := by
  induction steps generalizing opened focus with
  | nil =>
      cases opens
      cases reached
      exact stands
  | cons step rest ih =>
      obtain ⟨result, middle, taken, later⟩ := focusAfter_cons_eq_ok_iff.mp reached
      rw [Schema.openedAfter_cons] at opens
      obtain ⟨between, here, others⟩ := Option.bind_eq_some_iff.mp opens
      exact ih (stands.move here (moves taken)) others later

/-! ## Plans -/

/-- Before each step of a plan that a pass reaches, it stands in the containers that are open, with
their keys as its path. In the end it has come back to the whole value. -/
structure KeepsPosition (pass : Focus → Step → Except EncodeError (α × Focus)) (plan : Plan) :
    Prop where
  step {before after : List Step} {step : Step} : plan = before ++ step :: after →
    ∃ opened next, openedAfter [] before = some opened ∧ step.opened? opened = some next ∧
      ∀ path value focus, focusAfter pass (.ofValue path value) before = .ok focus →
        Stands (.ofValue path value) opened focus ∧ focus.path = path ++ keysOf opened ∧
          focus.outer.length = opened.length
  returns {path : Path} {value : Value} {focus : Focus} :
    focusAfter pass (.ofValue path value) plan = .ok focus → focus = .ofValue path value

theorem keepsPosition_stepsIn (moves : Moves pass) (layout : Layout) (counted : Bool) :
    KeepsPosition pass (layout.stepsIn .whole counted) where
  step split := by
    have closed := Schema.openedAfter_stepsIn layout .whole counted []
    rw [split] at closed
    obtain ⟨opened, next, first, second⟩ := Schema.exists_opened closed
    refine ⟨opened, next, first, second, ?_⟩
    intro path value focus reached
    have stands := Stands.start.focusAfter moves first reached
    have outer := stands.length_outer
    rw [Focus.ofValue, List.length_nil, Nat.zero_add] at outer
    exact ⟨stands, stands.path_eq, outer⟩
  returns reached := by
    have closed := Schema.openedAfter_stepsIn layout .whole counted []
    cases Stands.start.focusAfter moves closed reached
    rfl

theorem keepsPosition_of_within (moves : Moves pass) {layout : Layout}
    (wellFormed : layout.WellFormed) {inner : Plan} (within : Plan.Within layout.plan inner) :
    KeepsPosition pass inner := by
  obtain ⟨found, counted, -, rfl⟩ := Schema.exists_layout_of_within within wellFormed rfl
  exact keepsPosition_stepsIn moves found counted

end SchemaWire.Codec
