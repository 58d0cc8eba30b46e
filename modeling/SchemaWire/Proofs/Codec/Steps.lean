import SchemaWire.Proofs.Codec.Recursion
import SchemaWire.Proofs.Schema.Layout

/-!
# Plans and layouts

Each pass over the plan of a layout is the recursion over that layout, errors and their paths
included. The statements are about steps that others follow and about any open containers, since
that is what the steps of a child meet.
-/

set_option autoImplicit false

namespace SchemaWire.Codec

open Outcome
open Schema (Layout Slot Step Tail Plan stepsOfFields stepsOfHeads)
open Wire (Read)

/-! ## Widths -/

theorem width?_stepsOfFields_append {fields : List (String × Layout)}
    (each : ∀ field ∈ fields, ∀ (slot : Slot) (counted : Bool) (rest : List Step),
      Plan.width? (field.2.stepsIn slot counted ++ rest) = do
        let width ← layoutWidth? field.2
        let others ← Plan.width? rest
        return width + others) (rest : List Step) :
    Plan.width? (stepsOfFields fields ++ rest) = do
      let width ← fieldsWidth? fields
      let others ← Plan.width? rest
      return width + others := by
  induction fields with
  | nil =>
      simp only [stepsOfFields, fieldsWidth?, List.nil_append, Option.bind_eq_bind,
        Option.bind_some, Nat.zero_add]
      cases Plan.width? rest <;> rfl
  | cons field others ih =>
      have eachOther := fun other member => each other (List.mem_cons_of_mem _ member)
      simp only [stepsOfFields, fieldsWidth?, List.append_assoc, each field List.mem_cons_self,
        ih eachOther, bind_assoc, pure_bind, Nat.add_assoc]

/-- The steps of a layout take its width before those that follow. -/
theorem width?_stepsIn_append (layout : Layout) :
    ∀ (slot : Slot) (counted : Bool) (rest : List Step),
      Plan.width? (layout.stepsIn slot counted ++ rest) = do
        let width ← layoutWidth? layout
        let others ← Plan.width? rest
        return width + others := by
  induction layout with
  | leaf type =>
      intro slot counted rest
      rfl
  | mapping fields ih =>
      intro slot counted rest
      simp only [Layout.stepsIn, List.cons_append, List.append_assoc, Plan.width?,
        width?_stepsOfFields_append ih, layoutWidth?, List.nil_append]
  | sequence heads tail headsIh tailIh =>
      intro slot counted rest
      rfl

theorem width?_stepsIn (layout : Layout) (slot : Slot) (counted : Bool) :
    Plan.width? (layout.stepsIn slot counted) = layoutWidth? layout := by
  have whole := width?_stepsIn_append layout slot counted []
  rw [List.append_nil] at whole
  rw [whole]
  cases layoutWidth? layout <;> rfl

theorem width?_asTail (layout : Layout) (slot : Slot) (counted : Bool) :
    (layout.asTail (layout.stepsIn slot counted)).width? = layoutWidth? layout := by
  rw [← width?_stepsIn layout slot counted]
  cases layout with
  | leaf type =>
      simp only [Layout.asTail, Tail.width?, Layout.stepsIn, Plan.width?]
      cases type.width? <;> rfl
  | mapping fields => rfl
  | sequence heads tail => rfl

/-! ## Containers -/

theorem close_enter (focus : Focus) (slot : Slot) (value : Value) :
    (focus.enter slot value).close slot = focus := by
  have path : (focus.path ++ segmentsOf slot).take
      ((focus.path ++ segmentsOf slot).length - (segmentsOf slot).length) = focus.path := by
    rw [List.length_append, Nat.add_sub_cancel, List.take_left]
  simp only [Focus.close, Focus.enter, Focus.pathOf, path]

theorem child_field (name : String) (entries : List (String × Value)) {focus : Focus}
    (opened : focus.current = .mapping entries) :
    focus.child (.field name) = fieldValue focus.path entries name := by
  simp only [Focus.child, opened]
  rfl

theorem child_index (index : Nat) (items : List Value) {focus : Focus}
    (opened : focus.current = .sequence items) :
    focus.child (.index index) = headValue focus.path index (items.drop index) := by
  simp only [Focus.child, opened]
  rw [← List.head?_drop]
  cases items.drop index <;> rfl

/-! ## Writing -/

/-- The steps of a layout write what the recursion does, and then what follows. -/
def StepsWrite (encoding : TextEncoding) (layout : Layout) : Prop :=
  ∀ (focus : Focus) (slot : Slot) (counted : Bool) (rest : List Step),
    writeSteps encoding focus (layout.stepsIn slot counted ++ rest) = do
      let value ← focus.child slot
      let bytes ← writeLayout encoding (focus.pathOf slot) counted value layout
      let others ← writeSteps encoding focus rest
      return bytes ++ others

theorem writeSteps_stepsOfFields {encoding : TextEncoding} {fields : List (String × Layout)}
    (each : ∀ field ∈ fields, StepsWrite encoding field.2) {entries : List (String × Value)}
    {focus : Focus} (opened : focus.current = .mapping entries) (rest : List Step) :
    writeSteps encoding focus (stepsOfFields fields ++ rest) = do
      let bytes ← writeFields encoding focus.path entries fields
      let others ← writeSteps encoding focus rest
      return bytes ++ others := by
  induction fields with
  | nil =>
      rw [stepsOfFields, List.nil_append, writeFields]
      cases writeSteps encoding focus rest <;> rfl
  | cons field others ih =>
      have first := each field List.mem_cons_self focus (.field field.1) true
      have eachOther := fun other member => each other (List.mem_cons_of_mem _ member)
      simp only [stepsOfFields, writeFields, List.append_assoc, first, ih eachOther,
        child_field _ _ opened, bind_assoc, pure_bind]
      rfl

theorem writeSteps_stepsOfHeads {encoding : TextEncoding} {heads : List Layout}
    (each : ∀ head ∈ heads, StepsWrite encoding head) {items : List Value}
    {focus : Focus} (opened : focus.current = .sequence items) (index : Nat) (rest : List Step) :
    writeSteps encoding focus (stepsOfHeads index heads ++ rest) = do
      let bytes ← writeHeads encoding focus.path index (items.drop index) heads
      let others ← writeSteps encoding focus rest
      return bytes ++ others := by
  induction heads generalizing index with
  | nil =>
      rw [stepsOfHeads, List.nil_append, writeHeads]
      cases writeSteps encoding focus rest <;> rfl
  | cons head others ih =>
      have first := each head List.mem_cons_self focus (.index index) true
      have eachOther := fun other member => each other (List.mem_cons_of_mem _ member)
      simp only [stepsOfHeads, writeHeads, List.append_assoc, first, ih eachOther,
        child_index _ _ opened, List.tail_drop, bind_assoc, pure_bind]
      rfl

theorem StepsWrite.whole {encoding : TextEncoding} {layout : Layout}
    (steps : StepsWrite encoding layout) (counted : Bool) (path : Path) (value : Value) :
    writeSteps encoding (.ofValue path value) (layout.stepsIn .whole counted) =
      writeLayout encoding path counted value layout := by
  have whole := steps (.ofValue path value) .whole counted []
  have segments : (Focus.ofValue path value).pathOf .whole = path := List.append_nil path
  rw [List.append_nil, segments] at whole
  rw [whole]
  simp only [writeSteps]
  cases outcome : writeLayout encoding path counted value layout with
  | ok bytes =>
      have child : (Focus.ofValue path value).child .whole = .ok value := rfl
      rw [child]
      simp only [bind, Except.bind, outcome, pure, Except.pure, List.append_nil]
  | error e =>
      have child : (Focus.ofValue path value).child .whole = .ok value := rfl
      rw [child]
      simp only [bind, Except.bind, outcome]

theorem StepsWrite.asTail {encoding : TextEncoding} {layout : Layout}
    (steps : StepsWrite encoding layout) (path : Path) (item : Value) :
    writeTail encoding path item (layout.asTail (layout.stepsIn .whole true)) =
      writeLayout encoding path true item layout := by
  have whole := steps.whole true path item
  cases layout with
  | leaf type => rfl
  | mapping | sequence => exact whole

theorem stepsWrite (encoding : TextEncoding) (layout : Layout) : StepsWrite encoding layout := by
  induction layout with
  | leaf type =>
      intro focus slot counted rest
      simp only [Layout.stepsIn, List.singleton_append, writeSteps, writeStep, writeLayout,
        bind_assoc, pure_bind]
  | mapping fields ih =>
      intro focus slot counted rest
      simp only [Layout.stepsIn, List.cons_append, List.append_assoc, writeSteps, writeStep,
        Focus.openMapping, bind_assoc, pure_bind]
      refine bind_congr fun value => ?_
      cases value with
      | mapping entries =>
          simp only [pure_bind, List.nil_append]
          rw [writeSteps_stepsOfFields ih rfl]
          simp only [writeSteps, writeStep, close_enter, pure_bind, List.nil_append, writeLayout,
            bind_assoc]
          rfl
      | boolean | integer | float | text | bytes | sequence => rfl
  | sequence heads tail headsIh tailIh =>
      intro focus slot counted rest
      simp only [Layout.stepsIn, List.cons_append, List.append_assoc, writeSteps, writeStep,
        Focus.openSequence, bind_assoc, pure_bind]
      refine bind_congr fun value => ?_
      cases value with
      | sequence items =>
          simp only [writeLayout]
          split
          · simp only [pure_bind, List.nil_append]
            rw [writeSteps_stepsOfHeads headsIh rfl]
            simp only [writeSteps, writeStep, close_enter, tailIh.asTail, pure_bind, bind_assoc,
              List.drop_zero, List.append_assoc, countBytes]
            rfl
          · rfl
      | boolean | integer | float | text | bytes | mapping => rfl

theorem write_plan (encoding : TextEncoding) (layout : Layout) (value : Value) :
    write encoding layout.plan value = writeLayout encoding [] false value layout :=
  (stepsWrite encoding layout).whole false [] value

/-! ## Measuring -/

/-- The steps of a layout are measured as the recursion does, and then what follows. -/
def StepsMeasure (options : Options) (layout : Layout) : Prop :=
  ∀ (focus : Focus) (slot : Slot) (counted : Bool) (rest : List Step),
    measureSteps options focus (layout.stepsIn slot counted ++ rest) = do
      let size ← measureLayout options (focus.pathOf slot) counted (focus.child slot) layout
      let others ← measureSteps options focus rest
      return size + others

theorem measureSteps_stepsOfFields {options : Options} {fields : List (String × Layout)}
    (each : ∀ field ∈ fields, StepsMeasure options field.2) {entries : List (String × Value)}
    {focus : Focus} (opened : focus.current = .mapping entries) (rest : List Step) :
    measureSteps options focus (stepsOfFields fields ++ rest) = do
      let size ← measureFields options focus.path entries fields
      let others ← measureSteps options focus rest
      return size + others := by
  induction fields with
  | nil =>
      rw [stepsOfFields, List.nil_append, measureFields]
      cases measureSteps options focus rest with
      | ok size => exact congrArg Except.ok (Nat.zero_add size).symm
      | error e => rfl
  | cons field others ih =>
      have first := each field List.mem_cons_self focus (.field field.1) true
      have eachOther := fun other member => each other (List.mem_cons_of_mem _ member)
      simp only [stepsOfFields, measureFields, List.append_assoc, first, ih eachOther,
        child_field _ _ opened, bind_assoc, pure_bind, Nat.add_assoc]
      rfl

theorem measureSteps_stepsOfHeads {options : Options} {heads : List Layout}
    (each : ∀ head ∈ heads, StepsMeasure options head) {items : List Value}
    {focus : Focus} (opened : focus.current = .sequence items) (index : Nat) (rest : List Step) :
    measureSteps options focus (stepsOfHeads index heads ++ rest) = do
      let size ← measureHeads options focus.path index (items.drop index) heads
      let others ← measureSteps options focus rest
      return size + others := by
  induction heads generalizing index with
  | nil =>
      rw [stepsOfHeads, List.nil_append, measureHeads]
      cases measureSteps options focus rest with
      | ok size => exact congrArg Except.ok (Nat.zero_add size).symm
      | error e => rfl
  | cons head others ih =>
      have first := each head List.mem_cons_self focus (.index index) true
      have eachOther := fun other member => each other (List.mem_cons_of_mem _ member)
      simp only [stepsOfHeads, measureHeads, List.append_assoc, first, ih eachOther,
        child_index _ _ opened, List.tail_drop, bind_assoc, pure_bind, Nat.add_assoc]
      rfl

theorem StepsMeasure.whole {options : Options} {layout : Layout}
    (steps : StepsMeasure options layout) (counted : Bool) (path : Path) (value : Value) :
    measureSteps options (.ofValue path value) (layout.stepsIn .whole counted) =
      measureLayout options path counted (.ok value) layout := by
  have whole := steps (.ofValue path value) .whole counted []
  have segments : (Focus.ofValue path value).pathOf .whole = path := List.append_nil path
  rw [List.append_nil, segments] at whole
  rw [whole]
  simp only [Focus.child, Focus.ofValue, measureSteps]
  cases measureLayout options path counted (.ok value) layout <;> rfl

/-- Without the guard a leaf of fixed width takes this width, whatever it is. -/
theorem measureLeaf_of_width {options : Options} (lax : options.validate = false)
    {type : Primitive} {width : Nat} (fixed : type.width? = some width) (value : Value) :
    measureLeaf options type value = .ok width := by
  cases type <;> cases fixed <;> simp only [measureLeaf, lax] <;> rfl

theorem StepsMeasure.asTail {options : Options} {layout : Layout}
    (steps : StepsMeasure options layout) (path : Path) (item : Value) :
    measureTail options path item (layout.asTail (layout.stepsIn .whole true)) =
      measureLayout options path true (.ok item) layout := by
  have whole := steps.whole true path item
  cases layout with
  | leaf type =>
      simp only [Layout.asTail, measureTail, measureLayout]
      split
      · rename_i width fixed lax
        rw [measureLeaf_of_width lax fixed]
        rfl
      · rfl
  | mapping | sequence => exact whole

theorem stepsMeasure (options : Options) (layout : Layout) : StepsMeasure options layout := by
  induction layout with
  | leaf type =>
      intro focus slot counted rest
      simp only [Layout.stepsIn, List.singleton_append, measureSteps, measureStep, measureLayout]
      cases type.width? with
      | none => simp only [bind_assoc, pure_bind]
      | some width =>
          cases options.validate with
          | false => rfl
          | true => simp only [bind_assoc, pure_bind]
  | mapping fields ih =>
      intro focus slot counted rest
      simp only [Layout.stepsIn, List.cons_append, List.append_assoc, measureSteps, measureStep,
        Focus.openMapping, measureLayout, bind_assoc, pure_bind]
      refine bind_congr fun value => ?_
      cases value with
      | mapping entries =>
          simp only [pure_bind]
          rw [measureSteps_stepsOfFields ih rfl]
          simp only [measureSteps, measureStep, close_enter, pure_bind, Nat.zero_add, bind_assoc]
          rfl
      | boolean | integer | float | text | bytes | sequence => rfl
  | sequence heads tail headsIh tailIh =>
      intro focus slot counted rest
      simp only [Layout.stepsIn, List.cons_append, List.append_assoc, measureSteps, measureStep,
        Focus.openSequence, measureLayout, bind_assoc, pure_bind]
      refine bind_congr fun value => ?_
      cases value with
      | sequence items =>
          simp only
          split
          · simp only [pure_bind]
            rw [measureSteps_stepsOfHeads headsIh rfl]
            simp only [measureSteps, measureStep, close_enter, tailIh.asTail, pure_bind, bind_assoc,
              List.drop_zero, width?_asTail, countLength, measureRepeated]
            refine bind_congr fun first => ?_
            cases layoutWidth? tail with
            | none =>
                simp only [pure_bind, bind_assoc, Nat.add_assoc, Nat.zero_add]
                rfl
            | some width =>
                cases options.validate <;>
                  simp only [pure_bind, bind_assoc, Nat.add_assoc, Nat.zero_add] <;> rfl
          · rfl
      | boolean | integer | float | text | bytes | mapping => rfl

/-- Measuring a plan is measuring by recursion on the layout, unless the layout has a width and the
guard is off. -/
theorem measure_plan (options : Options) (layout : Layout) (value : Value) :
    measure options layout.plan value =
      match layoutWidth? layout, options.validate with
      | some width, false => .ok width
      | _, _ => measureLayout options [] false (.ok value) layout := by
  have whole := (stepsMeasure options layout).whole false [] value
  cases fixed : layoutWidth? layout <;> cases lax : options.validate <;>
    simp only [measure, Layout.plan, width?_stepsIn, fixed, lax, whole]

/-! ## Reading -/

/-- The steps of a layout read what the recursion does into the innermost open container. -/
def StepsRead (encoding : TextEncoding) (layout : Layout) : Prop :=
  ∀ (frame : Frame) (outer : List Frame) (slot : Slot) (counted : Bool) (rest : List Step),
    readSteps encoding (frame :: outer) (layout.stepsIn slot counted ++ rest) = do
      let value ← readLayout encoding counted layout
      readSteps encoding (frame.attach slot value :: outer) rest

theorem readSteps_stepsOfFields {encoding : TextEncoding} {fields : List (String × Layout)}
    (each : ∀ field ∈ fields, StepsRead encoding field.2) (entries : List (String × Value))
    (outer : List Frame) (rest : List Step) :
    readSteps encoding (.mapping entries :: outer) (stepsOfFields fields ++ rest) = (do
      let others ← readFields encoding fields
      readSteps encoding (.mapping (others.foldl
        (fun entries entry => insertEntry entry.1 entry.2 entries) entries) :: outer) rest) := by
  induction fields generalizing entries with
  | nil =>
      simp only [stepsOfFields, readFields, List.nil_append, pure_bind, List.foldl_nil]
  | cons field others ih =>
      have first := each field List.mem_cons_self (.mapping entries) outer (.field field.1) true
      have eachOther := fun other member => each other (List.mem_cons_of_mem _ member)
      simp only [stepsOfFields, readFields, List.append_assoc, first, Frame.attach, entryName,
        ih eachOther, bind_assoc, pure_bind, List.foldl_cons]

theorem readSteps_stepsOfHeads {encoding : TextEncoding} {heads : List Layout}
    (each : ∀ head ∈ heads, StepsRead encoding head) (items : List Value) (outer : List Frame)
    (index : Nat) (rest : List Step) :
    readSteps encoding (.sequence items :: outer) (stepsOfHeads index heads ++ rest) = (do
      let others ← readHeads encoding heads
      readSteps encoding (.sequence (items ++ others) :: outer) rest) := by
  induction heads generalizing items index with
  | nil => simp only [stepsOfHeads, readHeads, List.nil_append, pure_bind, List.append_nil]
  | cons head others ih =>
      have first := each head List.mem_cons_self (.sequence items) outer (.index index) true
      have eachOther := fun other member => each other (List.mem_cons_of_mem _ member)
      simp only [stepsOfHeads, readHeads, List.append_assoc, first, Frame.attach,
        ih eachOther, bind_assoc, pure_bind, List.singleton_append]

theorem StepsRead.whole {encoding : TextEncoding} {layout : Layout}
    (steps : StepsRead encoding layout) (counted : Bool) :
    readPlan encoding (layout.stepsIn .whole counted) = readLayout encoding counted layout := by
  have whole := steps (.whole none) [] .whole counted []
  rw [List.append_nil] at whole
  rw [readPlan, whole]
  simp only [readSteps, Frame.attach, bind_assoc, pure_bind, bind_pure]

theorem StepsRead.asTail {encoding : TextEncoding} {layout : Layout}
    (steps : StepsRead encoding layout) :
    readTail encoding (layout.asTail (layout.stepsIn .whole true)) =
      readLayout encoding true layout := by
  have whole := steps.whole true
  cases layout with
  | leaf type => rfl
  | mapping | sequence => exact whole

theorem stepsRead (encoding : TextEncoding) (layout : Layout) : StepsRead encoding layout := by
  induction layout with
  | leaf type =>
      intro frame outer slot counted rest
      simp only [Layout.stepsIn, List.singleton_append, readSteps, readStep, readLayout,
        attachTop, bind_assoc, pure_bind]
  | mapping fields ih =>
      intro frame outer slot counted rest
      simp only [Layout.stepsIn, List.cons_append, List.append_assoc, readSteps, readStep,
        readLayout, readSteps_stepsOfFields ih, bind_assoc, pure_bind]
      rfl
  | sequence heads tail headsIh tailIh =>
      intro frame outer slot counted rest
      simp only [Layout.stepsIn, List.cons_append, List.append_assoc, readSteps, readStep,
        readLayout, readSteps_stepsOfHeads headsIh, attachTop, tailIh.asTail, bind_assoc,
        pure_bind]
      cases counted <;>
        simp only [Bool.false_eq_true, ↓reduceIte, bind_assoc, pure_bind, List.nil_append]

/-- Reading a plan is reading by recursion on the layout. -/
theorem readPlan_plan (encoding : TextEncoding) (layout : Layout) :
    readPlan encoding layout.plan = readLayout encoding false layout :=
  (stepsRead encoding layout).whole false

/-! ## Codecs -/

theorem encode_eq_ok_iff {options : Options} {layout : Layout} {value : Value}
    {bytes : List UInt8} :
    encode ⟨layout.plan, options⟩ value = .ok bytes ↔
      (∃ size, encodedLength ⟨layout.plan, options⟩ value = .ok size) ∧
        writeLayout options.encoding [] false value layout = .ok bytes := by
  rw [encode, bind_eq_ok_iff, write_plan]
  constructor
  · rintro ⟨size, measured, written⟩
    exact ⟨⟨size, measured⟩, written⟩
  · rintro ⟨⟨size, measured⟩, written⟩
    exact ⟨size, measured, written⟩

/-- Decoding reads by recursion on the layout and leaves no byte. -/
theorem decode_plan (options : Options) (layout : Layout) (bytes : List UInt8) :
    decode ⟨layout.plan, options⟩ bytes =
      match readLayout options.encoding false layout (.ofBytes bytes) with
      | .ok value reader =>
        if reader.isExhausted then .ok value else .error (.trailing reader.remaining)
      | .error e _ => .error e := by
  rw [← readPlan_plan]
  rfl

/-- A buffer is decoded exactly if the whole of it is read. -/
theorem decode_eq_ok_iff {options : Options} {layout : Layout} {bytes : List UInt8}
    {value : Value} :
    decode ⟨layout.plan, options⟩ bytes = .ok value ↔
      ∃ next, readLayout options.encoding false layout (.ofBytes bytes) = .ok value next ∧
        next.rest = [] := by
  rw [decode_plan]
  cases readLayout options.encoding false layout (.ofBytes bytes) with
  | ok found next =>
      constructor
      · intro success
        dsimp only at success
        split at success
        · rename_i exhausted
          cases success
          exact ⟨next, rfl, List.isEmpty_iff.mp exhausted⟩
        · cases success
      · rintro ⟨_, same, exhausted⟩
        cases same
        exact if_pos (List.isEmpty_iff.mpr exhausted)
  | error e next =>
      constructor
      · intro failure
        cases failure
      · rintro ⟨_, failure, -⟩
        cases failure

end SchemaWire.Codec
