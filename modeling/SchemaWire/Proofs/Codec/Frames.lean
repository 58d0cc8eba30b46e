import SchemaWire.Proofs.Codec.Decoded
import SchemaWire.Proofs.Schema.Brackets

/-!
# Frames

Reading keeps a frame for every container that the steps have opened, and below them the one that
receives the whole value. So a step that closes a container finds the frame of this container, and
the steps of a layout leave one finished value.
-/

set_option autoImplicit false

namespace SchemaWire.Codec

open Schema (AliasTable Definition Layout Opening Plan Slot Step openedAfter)
open Wire (Read Reader)

/-! ## Matching -/

/-- The frames are those of the open containers, innermost first, and of the whole value. -/
inductive Matching : List Opening → List Frame → Prop where
  | whole (value? : Option Value) : Matching [] [.whole value?]
  | mapping {opened : List Opening} {frames : List Frame} (slot : Slot)
      (entries : List (String × Value)) (outer : Matching opened frames) :
      Matching (.mapping slot :: opened) (.mapping entries :: frames)
  | sequence {opened : List Opening} {frames : List Frame} (slot : Slot) (heads : Nat)
      (items : List Value) (outer : Matching opened frames) :
      Matching (.sequence slot heads :: opened) (.sequence items :: frames)

theorem Matching.ensures_attachTop {opened : List Opening} {frames : List Frame}
    (matching : Matching opened frames) (slot : Slot) (value : Value) :
    Read.Ensures (attachTop slot value frames) (Matching opened) := by
  cases matching with
  | whole value? => exact .pure (.whole _)
  | mapping place entries outer => exact .pure (.mapping place _ outer)
  | sequence place heads items outer => exact .pure (.sequence place heads _ outer)

variable {encoding : TextEncoding}

/-- The repeated elements of a sequence are read or refused for an error in the bytes. -/
def ReadsTail (encoding : TextEncoding) : Step → Prop
  | .closeSequence _ _ tail _ => Read.Ensures (readTail encoding tail) fun _ => True
  | .leaf _ _ | .openMapping _ | .closeMapping _ | .openSequence _ _ => True

/-- A step that closes what is open finds its frame on top. -/
theorem ensures_readStep {step : Step} (reads : ReadsTail encoding step)
    {opened next : List Opening} (opens : step.opened? opened = some next) {frames : List Frame}
    (matching : Matching opened frames) :
    Read.Ensures (readStep encoding frames step) (Matching next) := by
  cases step with
  | leaf slot type =>
      cases opens
      exact (ensures_readLeaf encoding type).bind fun value _ => matching.ensures_attachTop slot value
  | openMapping slot =>
      cases opens
      exact .pure (.mapping slot [] matching)
  | openSequence slot heads =>
      cases opens
      exact .pure (.sequence slot heads [] matching)
  | closeMapping slot =>
      -- The step closes the innermost opening, so the frame on top is a mapping with another below.
      cases Schema.closed?_eq_some_iff.mp opens
      cases matching with
      | mapping place entries outer => exact outer.ensures_attachTop slot (.mapping entries)
  | closeSequence slot heads tail counted =>
      cases Schema.closed?_eq_some_iff.mp opens
      have element : Read.Ensures (readTail encoding tail) fun _ => True := reads
      cases matching with
      | sequence place count items outer =>
          cases counted with
          | true =>
              refine ensures_readCount.bind fun count _ => (element.times count).bind fun others _ => ?_
              exact outer.ensures_attachTop slot (.sequence (items ++ others))
          | false =>
              exact element.toEnd.bind fun others _ =>
                outer.ensures_attachTop slot (.sequence (items ++ others))

theorem ensures_readSteps {steps : List Step} (reads : ∀ step ∈ steps, ReadsTail encoding step)
    {opened next : List Opening} (opens : openedAfter opened steps = some next)
    {frames : List Frame} (matching : Matching opened frames) :
    Read.Ensures (readSteps encoding frames steps) (Matching next) := by
  induction steps generalizing opened frames with
  | nil =>
      cases opens
      exact .pure matching
  | cons step rest ih =>
      obtain ⟨first, others⟩ := List.forall_mem_cons.mp reads
      rw [Schema.openedAfter_cons] at opens
      obtain ⟨middle, here, later⟩ := Option.bind_eq_some_iff.mp opens
      exact (ensures_readStep first here matching).bind fun frames matching =>
        ih others later matching

/-! ## Plans -/

/-- Reading a plan keeps the frames of the containers that are open before each of its steps. In the
end nothing is open, and one finished value is left. -/
structure KeepsFrames (encoding : TextEncoding) (plan : Plan) : Prop where
  step {before after : List Step} {step : Step} : plan = before ++ step :: after →
    ∃ opened next, openedAfter [] before = some opened ∧ step.opened? opened = some next ∧
      Read.Ensures (readSteps encoding [.whole none] before) (Matching opened) ∧
      ∀ frames, Matching opened frames →
        Read.Ensures (readStep encoding frames step) (Matching next)
  closed : openedAfter [] plan = some []
  finished : Read.Ensures (readSteps encoding [.whole none] plan)
    fun frames => ∃ value, frames = [.whole (some value)]

theorem readsTail_of_closesLayout {step : Step} (closes : Schema.ClosesLayout step) :
    ReadsTail encoding step := by
  cases step with
  | closeSequence slot heads tail counted =>
      obtain ⟨element, wellFormed, rfl⟩ := closes
      have read := ensures_readLayout encoding wellFormed true
      rw [ReadsTail, (stepsRead encoding element).asTail]
      exact ⟨fun _ => trivial, read.error⟩
  | leaf | openMapping | closeMapping | openSequence => exact trivial

theorem readSteps_stepsIn (layout : Layout) (counted : Bool) :
    readSteps encoding [.whole none] (layout.stepsIn .whole counted) = (do
      let value ← readLayout encoding counted layout
      return [.whole (some value)]) := by
  have steps := stepsRead encoding layout (.whole none) [] .whole counted []
  rw [List.append_nil] at steps
  rw [steps]
  simp only [readSteps, Frame.attach]

theorem keepsFrames_stepsIn {layout : Layout} (wellFormed : layout.WellFormed) (counted : Bool) :
    KeepsFrames encoding (layout.stepsIn .whole counted) where
  step split := by
    have closed := Schema.openedAfter_stepsIn layout .whole counted []
    have reads : ∀ step ∈ layout.stepsIn .whole counted, ReadsTail encoding step :=
      fun step member => readsTail_of_closesLayout
        (Schema.closesLayout_stepsIn wellFormed .whole counted step member)
    rw [split] at closed reads
    obtain ⟨earlier, later⟩ := List.forall_mem_append.mp reads
    obtain ⟨here, -⟩ := List.forall_mem_cons.mp later
    obtain ⟨opened, next, first, second⟩ := Schema.exists_opened closed
    exact ⟨opened, next, first, second, ensures_readSteps earlier first (.whole none),
      fun frames matching => ensures_readStep here second matching⟩
  closed := Schema.openedAfter_stepsIn layout .whole counted []
  finished := by
    rw [readSteps_stepsIn]
    exact (ensures_readLayout encoding wellFormed counted).map fun value _ => ⟨value, rfl⟩

theorem canonical_of_decode {options : Options} {layout : Layout} (wellFormed : layout.WellFormed)
    {bytes : List UInt8} {value : Value}
    (decoded : decode ⟨layout.plan, options⟩ bytes = .ok value) :
    CanonicalValue options.encoding layout value := by
  obtain ⟨next, success, -⟩ := decode_eq_ok_iff.mp decoded
  exact (ensures_readLayout options.encoding wellFormed false).ok success

/-- What is decoded has ascending entries. -/
theorem ordered_of_decode {aliases : AliasTable} {definition : Definition} {plan : Plan}
    (compiled : definition.compile aliases = .ok plan) {options : Options} {bytes : List UInt8}
    {value : Value} (decoded : decode ⟨plan, options⟩ bytes = .ok value) : value.Ordered := by
  obtain ⟨layout, laidOut, rfl⟩ := Definition.compile_eq_ok_iff.mp compiled
  exact (canonical_of_decode (Definition.layout_wellFormed laidOut) decoded).ordered

theorem decode_ne_unbalanced {options : Options} {layout : Layout} (wellFormed : layout.WellFormed)
    (bytes : List UInt8) : decode ⟨layout.plan, options⟩ bytes ≠ .error .unbalanced := by
  intro failure
  rw [decode_plan] at failure
  cases outcome : readLayout options.encoding false layout (.ofBytes bytes) with
  | ok value next =>
      rw [outcome] at failure
      dsimp only at failure
      split at failure <;> cases failure
  | error e next =>
      rw [outcome] at failure
      cases failure
      exact (ensures_readLayout options.encoding wellFormed false).error outcome

/-- Decoding goes by recursion on the layout, to the end of the bytes in a root sequence, and finds
values of the shape of the layout. Its frames are always those of the containers that are open. -/
theorem decode_of_compile {aliases : AliasTable} {definition : Definition} {plan : Plan}
    (compiled : definition.compile aliases = .ok plan) (options : Options) :
    ∃ layout, definition.layout aliases = .ok layout ∧
      (∀ bytes, decode ⟨plan, options⟩ bytes =
        match readLayout options.encoding false layout (.ofBytes bytes) with
        | .ok value reader =>
          if reader.isExhausted then .ok value else .error (.trailing reader.remaining)
        | .error e _ => .error e) ∧
      (∀ heads tail, layout = .sequence heads tail →
        Read.toEnd (readLayout options.encoding true tail) = (do
          let reader ← get
          if reader.isExhausted then return []
          else do
            let first ← readLayout options.encoding true tail
            let others ← Read.toEnd (readLayout options.encoding true tail)
            return first :: others) ∧
          ∀ bytes value next, readLayout options.encoding false layout (.ofBytes bytes) =
            .ok value next → next.isExhausted = true) ∧
      (∀ bytes value, decode ⟨plan, options⟩ bytes = .ok value →
        CanonicalValue options.encoding layout value) ∧
      (∀ bytes, decode ⟨plan, options⟩ bytes ≠ .error .unbalanced) ∧
      ∀ inner, Plan.Within plan inner → KeepsFrames options.encoding inner := by
  obtain ⟨layout, laidOut, rfl⟩ := Definition.compile_eq_ok_iff.mp compiled
  have wellFormed := Definition.layout_wellFormed laidOut
  refine ⟨layout, laidOut, decode_plan options layout, ?_, ?_, decode_ne_unbalanced wellFormed, ?_⟩
  · intro heads tail same
    subst same
    cases wellFormed with
    | sequence each last =>
        have advances := advances_readLayout options.encoding last
        refine ⟨Read.toEnd_eq advances, ?_⟩
        intro bytes value next success
        obtain ⟨first, middle, -, success⟩ := Read.bind_eq_ok_iff.mp success
        obtain ⟨others, repeated, -⟩ := Read.bind_pure_eq_ok_iff.mp success
        exact Read.exhausted_of_toEnd advances repeated
  · intro bytes value decoded
    exact canonical_of_decode wellFormed decoded
  · intro inner within
    obtain ⟨found, counted, foundWellFormed, rfl⟩ :=
      Schema.exists_layout_of_within within wellFormed rfl
    exact keepsFrames_stepsIn foundWellFormed counted

theorem decode_of_compile_rows :
    decode ⟨Layout.plan (.sequence [.leaf .uint8]
        (.mapping [("tags", .sequence [] (.leaf .string))])), .utf8, true⟩ [7, 2, 1, 97, 1, 98, 0] =
      .ok (.sequence [.integer 7, .mapping [("tags", .sequence [.text "a", .text "b"])],
        .mapping [("tags", .sequence [])]]) ∧
    CanonicalValue .utf8
      (.sequence [.leaf .uint8] (.mapping [("tags", .sequence [] (.leaf .string))]))
      (.sequence [.integer 7, .mapping [("tags", .sequence [.text "a", .text "b"])],
        .mapping [("tags", .sequence [])]]) ∧
    KeepsFrames .utf8 [.openMapping .whole, .openSequence (.field "tags") 0,
      .closeSequence (.field "tags") 0 (.leaf .string) true, .closeMapping .whole] := by
  have compiled : (Definition.sequence [.type "uint8",
      .mapping [("tags", .sequence [.type "string"])]]).compile .initial =
        .ok (Layout.plan (.sequence [.leaf .uint8]
          (.mapping [("tags", .sequence [] (.leaf .string))]))) := rfl
  have decoded : decode ⟨Layout.plan (.sequence [.leaf .uint8]
        (.mapping [("tags", .sequence [] (.leaf .string))])), .utf8, true⟩ [7, 2, 1, 97, 1, 98, 0] =
      .ok (.sequence [.integer 7, .mapping [("tags", .sequence [.text "a", .text "b"])],
        .mapping [("tags", .sequence [])]]) := rfl
  obtain ⟨layout, laidOut, -, -, canonical, -, frames⟩ :=
    decode_of_compile compiled ⟨.utf8, true⟩
  cases laidOut
  have last : .closeSequence .whole 1 (.plan [.openMapping .whole, .openSequence (.field "tags") 0,
      .closeSequence (.field "tags") 0 (.leaf .string) true, .closeMapping .whole]) false ∈
        Layout.plan (.sequence [.leaf .uint8]
          (.mapping [("tags", .sequence [] (.leaf .string))])) :=
    List.mem_cons_of_mem _ (List.mem_cons_of_mem _ List.mem_cons_self)
  exact ⟨decoded, canonical _ _ decoded, frames _ (.tail last (.refl _))⟩

end SchemaWire.Codec
