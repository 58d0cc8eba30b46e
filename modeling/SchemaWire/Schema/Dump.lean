import SchemaWire.Schema.Plan

/-!
# Text of a plan

A plan as lines, one or more for each step, indented by the number of open containers. A child is
named by its slot, a container by the markers around its children, and the repeated element of a
sequence by the number of heads before it.
-/

set_option autoImplicit false

namespace SchemaWire.Schema

def Slot.text : Slot → String
  | .whole => "$"
  | .field name => name
  | .index position => toString position

def planLine (depth : Nat) (content : String) : String :=
  String.ofList (List.replicate (2 * depth) ' ') ++ content ++ "\n"

/-- How far the repeated elements go. -/
def extentText (counted : Bool) : String :=
  if counted then "(counted)" else "(to end)"

mutual

def Step.lines (depth : Nat) : Step → String × Nat
  | .leaf slot type => (planLine depth (slot.text ++ " " ++ type.name), depth)
  | .openMapping slot => (planLine depth (slot.text ++ " " ++ mappingMarker), depth + 1)
  | .closeMapping slot =>
    (planLine (depth - 1) (slot.text ++ " " ++ mappingEndMarker), depth - 1)
  | .openSequence slot _ => (planLine depth (slot.text ++ " " ++ sequenceMarker), depth + 1)
  | .closeSequence slot heads tail counted =>
    (tail.lines depth heads counted ++
      planLine (depth - 1) (slot.text ++ " " ++ sequenceEndMarker), depth - 1)

/-- The lines of the repeated element: one for a leaf; for a container a line for the repetition
and then its own plan, one level deeper. -/
def Tail.lines (depth heads : Nat) (counted : Bool) : Tail → String
  | .leaf type =>
    planLine depth (toString heads ++ ".. " ++ type.name ++ " " ++ extentText counted)
  | .plan steps =>
    planLine depth (toString heads ++ ".. " ++ extentText counted) ++ linesOfSteps (depth + 1) steps

def linesOfSteps (depth : Nat) : List Step → String
  | [] => ""
  | step :: rest =>
    let (lines, next) := step.lines depth
    lines ++ linesOfSteps next rest

end

def Plan.text (plan : Plan) : String :=
  linesOfSteps 0 plan

end SchemaWire.Schema
