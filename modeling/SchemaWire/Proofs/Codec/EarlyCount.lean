import SchemaWire.Codec.Basic
import SchemaWire.Proofs.Codec.Decoded
import SchemaWire.Proofs.Schema.Brackets
import SchemaWire.Proofs.Wire.Repetition

/-!
# Counts that are refused early

A count that is greater than the number of bytes that are left is refused before any element is
read. Without this check the elements would be read one by one and run out of bytes, so that the
same buffers are accepted and the same values decoded.
-/

set_option autoImplicit false

namespace SchemaWire.Codec

open Schema (ClosesLayout Layout Plan Slot Step Tail closesLayout_stepsIn)
open Wire (Read Reader DecodeError)

/-! ## Reading without the check -/

/-- A count that is refused only where no buffer could hold so many bytes. -/
def readDeclared : Read Nat := do
  let declared ← Read.varuint
  Read.checkedLength declared

mutual

/-- Reads a step, with the count of repeated elements read as given. -/
def readStepBy (count : Read Nat) (encoding : TextEncoding) (frames : List Frame) :
    Step → Read (List Frame)
  | .closeSequence slot _ tail counted =>
    match frames with
    | .sequence items :: outer => do
      let others ←
        if counted then do
          let number ← count
          Read.times (readTailBy count encoding tail) number
        else Read.toEnd (readTailBy count encoding tail)
      attachTop slot (.sequence (items ++ others)) outer
    | _ => throw .unbalanced
  | step => readStep encoding frames step

def readTailBy (count : Read Nat) (encoding : TextEncoding) : Tail → Read Value
  | .leaf type => readLeaf encoding type
  | .plan steps => do
    let frames ← readStepsBy count encoding [.whole none] steps
    match frames with
    | [.whole (some value)] => return value
    | _ => throw .unbalanced

def readStepsBy (count : Read Nat) (encoding : TextEncoding) (frames : List Frame) :
    List Step → Read (List Frame)
  | [] => return frames
  | step :: rest => do
    let next ← readStepBy count encoding frames step
    readStepsBy count encoding next rest

end

/-- Decoding with the count of repeated elements read as given. -/
def decodeBy (count : Read Nat) (codec : Codec) (bytes : List UInt8) : Except DecodeError Value :=
  match readTailBy count codec.options.encoding (.plan codec.plan) (.ofBytes bytes) with
  | .ok value reader =>
    if reader.isExhausted then .ok value else .error (.trailing reader.remaining)
  | .error e _ => .error e

variable {encoding : TextEncoding}

mutual

theorem readStepBy_readCount (frames : List Frame) :
    ∀ step : Step, readStepBy readCount encoding frames step = readStep encoding frames step
  | .closeSequence slot heads tail counted => by
      simp only [readStepBy, readTailBy_readCount tail]
      rfl
  | .leaf _ _ | .openMapping _ | .closeMapping _ | .openSequence _ _ => rfl

theorem readTailBy_readCount :
    ∀ tail : Tail, readTailBy readCount encoding tail = readTail encoding tail
  | .leaf type => rfl
  | .plan steps => by
      rw [readTailBy, readStepsBy_readCount _ steps]
      rfl

theorem readStepsBy_readCount (frames : List Frame) :
    ∀ steps : List Step,
      readStepsBy readCount encoding frames steps = readSteps encoding frames steps
  | [] => rfl
  | step :: rest => by
      rw [readStepsBy, readSteps, readStepBy_readCount frames step]
      exact bind_congr fun next => readStepsBy_readCount next rest

end

theorem decodeBy_readCount (codec : Codec) (bytes : List UInt8) :
    decodeBy readCount codec bytes = codec.decode bytes := by
  rw [decodeBy, readTailBy_readCount]
  rfl

/-! ## The same buffers are accepted -/

theorem readCount_eq_bind : readCount = readDeclared >>= remainingAtLeast := by
  rw [readCount_eq, readDeclared, bind_assoc]

/-- Where the elements can be read there are bytes for all of them. -/
theorem sameSuccesses_counted {read other : Read Value} (advances : Read.Advances read)
    (same : Read.SameSuccesses other read) :
    Read.SameSuccesses (do let count ← readDeclared; Read.times other count)
      (do let count ← readCount; Read.times read count) where
  ok_iff {reader next items} := by
    rw [Read.bind_eq_ok_iff, Read.bind_eq_ok_iff, readCount_eq_bind]
    constructor
    · intro ⟨count, middle, declared, elements⟩
      have elements := (same.times count).ok_iff.mp elements
      have enough := advances.le_remaining elements
      refine ⟨count, middle, Read.bind_eq_ok_iff.mpr ⟨count, middle, declared, ?_⟩, elements⟩
      exact remainingAtLeast_eq_ok_iff.mpr ⟨enough, rfl, rfl⟩
    · intro ⟨count, middle, counted, elements⟩
      obtain ⟨declared, before, first, checked⟩ := Read.bind_eq_ok_iff.mp counted
      obtain ⟨-, rfl, rfl⟩ := remainingAtLeast_eq_ok_iff.mp checked
      exact ⟨count, middle, first, (same.times count).ok_iff.mpr elements⟩

theorem advances_readTail {layout : Layout} (wellFormed : layout.WellFormed) :
    Read.Advances (readTail encoding (layout.asTail (layout.stepsIn .whole true))) := by
  rw [(stepsRead encoding layout).asTail]
  exact advances_readLayout encoding wellFormed

theorem closesLayout_of_asTail {layout : Layout} (wellFormed : layout.WellFormed)
    {steps : List Step} (same : .plan steps = layout.asTail (layout.stepsIn .whole true)) :
    ∀ step ∈ steps, ClosesLayout step := by
  cases layout with
  | leaf type => cases same
  | mapping | sequence =>
      cases same
      exact closesLayout_stepsIn wellFormed .whole true

mutual

theorem sameSuccesses_readStep (frames : List Frame) : ∀ step : Step, ClosesLayout step →
    Read.SameSuccesses (readStepBy readDeclared encoding frames step) (readStep encoding frames step)
  | .closeSequence slot heads tail counted, ⟨layout, wellFormed, same⟩ => by
      have element := sameSuccesses_readTail tail wellFormed same
      have advances := @advances_readTail encoding _ wellFormed
      rw [← same] at advances
      cases frames with
      | nil => exact .refl _
      | cons frame outer =>
          cases frame with
          | whole | mapping => exact .refl _
          | sequence items =>
              cases counted with
              | true =>
                  have counts := (sameSuccesses_counted advances element).bind fun others =>
                    .refl (attachTop slot (.sequence (items ++ others)) outer)
                  simp only [bind_assoc] at counts
                  exact counts
              | false => exact element.toEnd.bind fun others => .refl _
  | .leaf _ _, _ | .openMapping _, _ | .closeMapping _, _ | .openSequence _ _, _ => .refl _

theorem sameSuccesses_readTail : ∀ tail : Tail, ∀ {layout : Layout}, layout.WellFormed →
    tail = layout.asTail (layout.stepsIn .whole true) →
      Read.SameSuccesses (readTailBy readDeclared encoding tail) (readTail encoding tail)
  | .leaf _, _, _, _ => .refl _
  | .plan steps, _, wellFormed, same =>
      (sameSuccesses_readSteps _ steps (closesLayout_of_asTail wellFormed same)).bind
        fun _ => .refl _

theorem sameSuccesses_readSteps (frames : List Frame) : ∀ steps : List Step,
    (∀ step ∈ steps, ClosesLayout step) →
      Read.SameSuccesses (readStepsBy readDeclared encoding frames steps)
        (readSteps encoding frames steps)
  | [], _ => .refl _
  | step :: rest, closes => by
      obtain ⟨first, others⟩ := List.forall_mem_cons.mp closes
      exact (sameSuccesses_readStep frames step first).bind fun next =>
        sameSuccesses_readSteps next rest others

end

theorem decodeBy_eq_ok_iff {count : Read Nat} {codec : Codec} {bytes : List UInt8} {value : Value} :
    decodeBy count codec bytes = .ok value ↔
      ∃ next, readTailBy count codec.options.encoding (.plan codec.plan) (.ofBytes bytes) =
        .ok value next ∧ next.isExhausted = true := by
  rw [decodeBy]
  cases readTailBy count codec.options.encoding (.plan codec.plan) (.ofBytes bytes) with
  | error e next => simp
  | ok found next =>
      cases exhausted : next.isExhausted <;> simp [exhausted]

/-- Without the check the same buffers are decoded, as the same values. -/
theorem decodeBy_readDeclared_eq_ok_iff {options : Options} {layout : Layout}
    (wellFormed : layout.WellFormed) {bytes : List UInt8} {value : Value} :
    decodeBy readDeclared ⟨layout.plan, options⟩ bytes = .ok value ↔
      decode ⟨layout.plan, options⟩ bytes = .ok value := by
  have closes := closesLayout_stepsIn wellFormed .whole false
  have whole : Read.SameSuccesses
      (readTailBy readDeclared options.encoding (.plan layout.plan))
      (readTail options.encoding (.plan layout.plan)) :=
    (sameSuccesses_readSteps _ _ closes).bind fun _ => .refl _
  rw [← decodeBy_readCount, decodeBy_eq_ok_iff, decodeBy_eq_ok_iff, readTailBy_readCount]
  exact exists_congr fun next => and_congr_left' whole.ok_iff

end SchemaWire.Codec
