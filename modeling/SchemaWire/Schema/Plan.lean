import SchemaWire.Schema.Layout

/-!
# Plans

A plan is a layout written out as a list of steps, which measuring, writing and reading all take
in the same order. A container opens, its children follow, and it closes; the repeated element of
a sequence is handled where the sequence closes, by a plan of its own if it is a container.
-/

set_option autoImplicit false

namespace SchemaWire.Schema

/-- Which child of the open container a step is about. -/
inductive Slot where
  /-- The value that the plan is run on. -/
  | whole
  | field (name : String)
  | index (position : Nat)
  deriving DecidableEq, Repr

mutual

inductive Step where
  | leaf (slot : Slot) (type : Primitive)
  | openMapping (slot : Slot)
  | closeMapping (slot : Slot)
  /-- The steps of so many head elements follow. -/
  | openSequence (slot : Slot) (heads : Nat)
  /-- The elements after the heads, each by `tail`. Their number stands before them if they are
  `counted`; else they go on to the end of the bytes. -/
  | closeSequence (slot : Slot) (heads : Nat) (tail : Tail) (counted : Bool)

/-- How the repeated elements of a sequence are handled. -/
inductive Tail where
  | leaf (type : Primitive)
  | plan (steps : List Step)

end

abbrev Plan := List Step

/-- How a repeated element of a layout is handled, given its steps. -/
def Layout.asTail (steps : List Step) : Layout → Tail
  | .leaf type => .leaf type
  | .mapping _ => .plan steps
  | .sequence _ _ => .plan steps

mutual

/-- The steps for a layout in a slot. A sequence is followed to the end of the bytes only where it
is not `counted`; the sequences inside it always are. -/
def Layout.stepsIn (slot : Slot) (counted : Bool) : Layout → List Step
  | .leaf type => [.leaf slot type]
  | .mapping fields =>
    .openMapping slot :: (stepsOfFields fields ++ [.closeMapping slot])
  | .sequence heads tail =>
    .openSequence slot heads.length ::
      (stepsOfHeads 0 heads ++
        [.closeSequence slot heads.length (tail.asTail (tail.stepsIn .whole true)) counted])

def stepsOfFields : List (String × Layout) → List Step
  | [] => []
  | (name, layout) :: rest => layout.stepsIn (.field name) true ++ stepsOfFields rest

def stepsOfHeads (index : Nat) : List Layout → List Step
  | [] => []
  | layout :: rest => layout.stepsIn (.index index) true ++ stepsOfHeads (index + 1) rest

end

/-- The plan of a layout: a sequence at the root runs to the end of the bytes. -/
def Layout.plan (layout : Layout) : Plan :=
  layout.stepsIn .whole false

/-- The plan of a definition, or the definition's first fault. -/
def Definition.compile (aliases : AliasTable) (definition : Definition) :
    Except DefinitionError Plan := do
  let layout ← definition.layout aliases
  return layout.plan

namespace Plan

def isSequence : Plan → Bool
  | .openSequence .whole _ :: _ => true
  | _ => false

/-- The number of bytes of every value of the plan, if there is one such number: no step opens a
sequence and every leaf has a width. -/
def width? : Plan → Option Nat
  | [] => some 0
  | .leaf _ type :: rest => do
    let width ← type.width?
    let others ← width? rest
    return width + others
  | .openMapping _ :: rest => width? rest
  | .closeMapping _ :: rest => width? rest
  | .openSequence _ _ :: _ => none
  | .closeSequence _ _ _ _ :: _ => none

end Plan

/-- The number of bytes of every element, if there is one such number. -/
def Tail.width? : Tail → Option Nat
  | .leaf type => type.width?
  | .plan steps => Plan.width? steps

end SchemaWire.Schema
