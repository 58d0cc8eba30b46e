import SchemaWire.Proofs.Schema.Brackets

/-!
# The shape of plans

A plan reads as a tree: a step of its own for every leaf, and for every container a step that opens
it, the steps of its children and a step that closes it, in the same slot and with the same number
of heads. Fields come in canonical order and heads by their positions. Only the outermost node of a
plan stands for the whole value, and only a sequence that is the outermost node of the plan at the
root goes without a count.
-/

set_option autoImplicit false

namespace SchemaWire.Schema

/-! ## Nodes -/

mutual

/-- The steps of one node in a slot. A sequence that is the node itself is `counted` or not; those
inside it are. -/
inductive NodeSteps : Slot → Bool → List Step → Prop where
  | leaf (slot : Slot) (counted : Bool) (type : Primitive) :
      NodeSteps slot counted [.leaf slot type]
  | mapping {slot : Slot} {counted : Bool} {names : List String} {children : List Step}
      (nonempty : names ≠ [])
      (ascending : names.Pairwise fun left right => fieldOrder left right = .lt)
      (inside : NamedSteps names children) :
      NodeSteps slot counted (.openMapping slot :: (children ++ [.closeMapping slot]))
  | sequence {slot : Slot} {counted : Bool} {heads : Nat} {children : List Step} {tail : Tail}
      (inside : IndexedSteps 0 heads children) (last : TailSteps tail) :
      NodeSteps slot counted
        (.openSequence slot heads :: (children ++ [.closeSequence slot heads tail counted]))

/-- The steps of fields under these names, in this order. -/
inductive NamedSteps : List String → List Step → Prop where
  | nil : NamedSteps [] []
  | cons {name : String} {names : List String} {first rest : List Step}
      (child : NodeSteps (.field name) true first) (others : NamedSteps names rest) :
      NamedSteps (name :: names) (first ++ rest)

/-- The steps of so many heads, the first of which has position `index`. -/
inductive IndexedSteps : Nat → Nat → List Step → Prop where
  | nil (index : Nat) : IndexedSteps index 0 []
  | cons {index heads : Nat} {first rest : List Step}
      (child : NodeSteps (.index index) true first) (others : IndexedSteps (index + 1) heads rest) :
      IndexedSteps index (heads + 1) (first ++ rest)

/-- A repeated element is a leaf, or has the plan of a container. -/
inductive TailSteps : Tail → Prop where
  | leaf (type : Primitive) : TailSteps (.leaf type)
  | plan {steps : List Step} (nested : NodeSteps .whole true steps)
      (container : ∀ type, steps ≠ [.leaf .whole type]) : TailSteps (.plan steps)

end

theorem namedSteps_stepsOfFields {fields : List (String × Layout)}
    (each : ∀ field ∈ fields, ∀ slot counted,
      NodeSteps slot counted (field.2.stepsIn slot counted)) :
    NamedSteps (fields.map Prod.fst) (stepsOfFields fields) := by
  induction fields with
  | nil => exact .nil
  | cons field rest ih =>
      obtain ⟨first, others⟩ := List.forall_mem_cons.mp each
      exact .cons (first _ _) (ih others)

theorem indexedSteps_stepsOfHeads {heads : List Layout}
    (each : ∀ head ∈ heads, ∀ slot counted, NodeSteps slot counted (head.stepsIn slot counted))
    (index : Nat) : IndexedSteps index heads.length (stepsOfHeads index heads) := by
  induction heads generalizing index with
  | nil => exact .nil index
  | cons head rest ih =>
      obtain ⟨first, others⟩ := List.forall_mem_cons.mp each
      exact .cons (first _ _) (ih others (index + 1))

theorem tailSteps_asTail {tail : Layout}
    (node : NodeSteps .whole true (tail.stepsIn .whole true)) :
    TailSteps (tail.asTail (tail.stepsIn .whole true)) := by
  cases tail with
  | leaf type => exact .leaf type
  | mapping | sequence => exact .plan node (by simp [Layout.stepsIn])

theorem Layout.Ordered.nodeSteps {layout : Layout} (ordered : layout.Ordered) :
    ∀ slot counted, NodeSteps slot counted (layout.stepsIn slot counted) := by
  induction ordered with
  | leaf type => exact fun slot counted => .leaf slot counted type
  | mapping nonempty ascending each ih =>
      intro slot counted
      rw [Layout.stepsIn]
      exact .mapping (fun none => nonempty (List.map_eq_nil_iff.mp none)) ascending
        (namedSteps_stepsOfFields ih)
  | sequence each last ih lastIh =>
      intro slot counted
      rw [Layout.stepsIn]
      exact .sequence (indexedSteps_stepsOfHeads ih 0) (tailSteps_asTail (lastIh .whole true))

/-! ## Slots and counts -/

def Step.slot : Step → Slot
  | .leaf slot _ => slot
  | .openMapping slot => slot
  | .closeMapping slot => slot
  | .openSequence slot _ => slot
  | .closeSequence slot _ _ _ => slot

/-- A step of a node inside a container. A sequence that it closes is counted. -/
def Step.Inner (step : Step) : Prop :=
  step.slot ≠ .whole ∧ ∀ slot heads tail counted,
    step = .closeSequence slot heads tail counted → counted = true

theorem inner_stepsIn (layout : Layout) :
    ∀ slot, slot ≠ .whole → ∀ step ∈ layout.stepsIn slot true, step.Inner := by
  induction layout with
  | leaf type =>
      intro slot inside
      exact List.forall_mem_singleton.mpr ⟨inside, by simp⟩
  | mapping fields ih =>
      intro slot inside
      have children := forall_mem_stepsOfFields fun field member =>
        ih field member (.field field.1) Slot.noConfusion
      exact List.forall_mem_cons.mpr ⟨⟨inside, by simp⟩, List.forall_mem_append.mpr
        ⟨children, List.forall_mem_singleton.mpr ⟨inside, by simp⟩⟩⟩
  | sequence heads tail ih tailIh =>
      intro slot inside
      have children := forall_mem_stepsOfHeads
        (fun head member index => ih head member (.index index) Slot.noConfusion) 0
      exact List.forall_mem_cons.mpr ⟨⟨inside, by simp⟩, List.forall_mem_append.mpr
        ⟨children, List.forall_mem_singleton.mpr ⟨inside, by simp⟩⟩⟩

/-- The outermost node of a plan: a leaf, or a container with its children between two steps. -/
inductive Outermost (counted : Bool) : List Step → Prop where
  | leaf (type : Primitive) : Outermost counted [.leaf .whole type]
  | mapping {children : List Step} (inside : ∀ step ∈ children, step.Inner) :
      Outermost counted (.openMapping .whole :: (children ++ [.closeMapping .whole]))
  | sequence {children : List Step} (heads : Nat) (tail : Tail)
      (inside : ∀ step ∈ children, step.Inner) :
      Outermost counted (.openSequence .whole heads ::
        (children ++ [.closeSequence .whole heads tail counted]))

theorem outermost_stepsIn (layout : Layout) (counted : Bool) :
    Outermost counted (layout.stepsIn .whole counted) := by
  cases layout with
  | leaf type => exact .leaf type
  | mapping fields =>
      exact .mapping (forall_mem_stepsOfFields fun field _ =>
        inner_stepsIn field.2 (.field field.1) Slot.noConfusion)
  | sequence heads tail =>
      exact .sequence _ _ (forall_mem_stepsOfHeads (fun head _ index =>
        inner_stepsIn head (.index index) Slot.noConfusion) 0)

theorem getElem?_bracketed {first last step : Step} {children : List Step} {index : Nat}
    (found : (first :: (children ++ [last]))[index]? = some step) :
    (index = 0 ∧ step = first) ∨
      (index + 1 = (first :: (children ++ [last])).length ∧ step = last) ∨
      (index ≠ 0 ∧ index + 1 ≠ (first :: (children ++ [last])).length ∧ step ∈ children) := by
  cases index with
  | zero => exact .inl ⟨rfl, (Option.some.inj found).symm⟩
  | succ index =>
      rw [List.getElem?_cons_succ] at found
      rcases Nat.lt_or_ge index children.length with inside | after
      · rw [List.getElem?_append_left inside] at found
        refine .inr (.inr ⟨Nat.succ_ne_zero index, ?_, List.mem_of_getElem? found⟩)
        simp only [List.length_cons, List.length_append, List.length_nil]
        omega
      · rw [List.getElem?_append_right after] at found
        rw [List.getElem?_singleton, Option.ite_none_right_eq_some] at found
        obtain ⟨offset, same⟩ := found
        refine .inr (.inl ⟨?_, (Option.some.inj same).symm⟩)
        simp only [List.length_cons, List.length_append, List.length_nil]
        omega

variable {counted : Bool} {steps : List Step}

/-- Exactly the first and the last step of a plan are about the whole value. -/
theorem Outermost.slot_eq_whole_iff (outermost : Outermost counted steps) {index : Nat}
    {step : Step} (found : steps[index]? = some step) :
    step.slot = .whole ↔ index = 0 ∨ index + 1 = steps.length := by
  cases outermost with
  | leaf type =>
      rw [List.getElem?_singleton, Option.ite_none_right_eq_some] at found
      obtain ⟨rfl, same⟩ := found
      cases same
      simp [Step.slot]
  | mapping inside | sequence heads tail inside =>
      rcases getElem?_bracketed found with ⟨first, rfl⟩ | ⟨last, rfl⟩ | ⟨later, before, member⟩
      · exact ⟨fun _ => .inl first, fun _ => rfl⟩
      · exact ⟨fun _ => .inr last, fun _ => rfl⟩
      · exact ⟨fun whole => absurd whole (inside step member).1,
          fun ends => (ends.elim later before).elim⟩

/-- Only the outermost sequence can go without a count. -/
theorem Outermost.counted_eq_false_iff (outermost : Outermost counted steps) {slot : Slot}
    {heads : Nat} {tail : Tail} {last : Bool}
    (member : .closeSequence slot heads tail last ∈ steps) :
    last = false ↔ slot = .whole ∧ counted = false := by
  have inner : (Step.closeSequence slot heads tail last).Inner →
      (last = false ↔ slot = .whole ∧ counted = false) := by
    intro ⟨inside, always⟩
    obtain rfl := always _ _ _ _ rfl
    exact ⟨Bool.noConfusion, fun ⟨whole, _⟩ => absurd whole inside⟩
  cases outermost with
  | leaf type => simp at member
  | mapping inside =>
      refine inner (inside _ ?_)
      simpa using member
  | sequence heads tail inside =>
      simp only [List.mem_cons, reduceCtorEq, List.mem_append, List.not_mem_nil, or_false,
        false_or] at member
      rcases member with member | same
      · exact inner (inside _ member)
      · cases same
        simp

/-! ## Plans -/

/-- What holds of a compiled plan and of the plans inside it. -/
structure Plan.WellFormed (plan : Plan) : Prop where
  node : NodeSteps .whole false plan
  bracketed : ∀ inner, plan.Within inner → openedAfter [] inner = some []
  outermost : ∀ inner, plan.Within inner → ∀ (index : Nat) (step : Step),
    inner[index]? = some step → (step.slot = .whole ↔ index = 0 ∨ index + 1 = inner.length)
  uncounted : ∀ slot heads tail counted,
    .closeSequence slot heads tail counted ∈ plan → (counted = false ↔ slot = .whole)
  counted : ∀ slot heads (nested inner : Plan) counted,
    .closeSequence slot heads (.plan nested) counted ∈ plan → nested.Within inner →
      ∀ slot heads tail last, .closeSequence slot heads tail last ∈ inner → last = true

theorem Layout.Ordered.plan_wellFormed {layout : Layout} (ordered : layout.Ordered) :
    Plan.WellFormed layout.plan where
  node := ordered.nodeSteps .whole false
  bracketed inner within := by
    obtain ⟨found, counted, -, rfl⟩ := exists_layout_of_within within ordered.wellFormed rfl
    exact openedAfter_stepsIn found .whole counted []
  outermost inner within index step inside := by
    obtain ⟨found, counted, -, rfl⟩ := exists_layout_of_within within ordered.wellFormed rfl
    exact (outermost_stepsIn found counted).slot_eq_whole_iff inside
  uncounted slot heads tail counted member := by
    rw [(outermost_stepsIn layout false).counted_eq_false_iff member]
    simp
  counted slot heads nested inner counted member within := by
    obtain ⟨found, -, rfl⟩ := exists_layout_of_nested ordered.wellFormed member within
    intro slot heads tail last inside
    have other := (outermost_stepsIn found true).counted_eq_false_iff inside
    simpa using other

end SchemaWire.Schema
