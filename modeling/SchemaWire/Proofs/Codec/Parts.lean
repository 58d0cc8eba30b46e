import SchemaWire.Proofs.Codec.Steps

/-!
# Parts of a value

What writing and measuring meet in a value, in their order: every node of the layout before its
children, fields in canonical order, heads before the elements that are repeated, and the number of
these elements between the two. Either pass is the list of what it does with the parts, so it fails
where the first part fails.
-/

set_option autoImplicit false

namespace SchemaWire.Codec

open Outcome
open Schema (Layout)

/-! ## Visiting order -/

/-- A node of a layout: where it stands, and what stands there in the value, if anything does. -/
structure Node where
  path : Path
  layout : Layout
  value? : Option Value

inductive Part where
  | node (node : Node)
  /-- The number of the elements after the heads of a sequence. -/
  | count (number : Nat)

def partsOfCount (counted : Bool) (number : Nat) : List Part :=
  if counted then [.count number] else []

/-- The parts of elements one after another, the first of them at an index of the sequence. -/
def partsOfItems (parts : Path → Value → List Part) (path : Path) (index : Nat) :
    List Value → List Part
  | [] => []
  | item :: rest => parts (path ++ [.index index]) item ++ partsOfItems parts path (index + 1) rest

mutual

/-- The parts of a node and of everything below it. Nothing is below a node that has no value, or
none of the kind and length that the layout asks for. -/
def partsOf (path : Path) (counted : Bool) (value? : Option Value) : Layout → List Part
  | .leaf type => [.node ⟨path, .leaf type, value?⟩]
  | .mapping fields =>
    .node ⟨path, .mapping fields, value?⟩ ::
      match value? with
      | some (.mapping entries) => partsOfFields path entries fields
      | _ => []
  | .sequence heads tail =>
    .node ⟨path, .sequence heads tail, value?⟩ ::
      match value? with
      | some (.sequence items) =>
        if heads.length ≤ items.length then
          partsOfHeads path 0 items heads ++
            (partsOfCount counted (items.drop heads.length).length ++
              partsOfItems (fun place item => partsOf place true (some item) tail) path
                heads.length (items.drop heads.length))
        else []
      | _ => []

def partsOfFields (path : Path) (entries : List (String × Value)) :
    List (String × Layout) → List Part
  | [] => []
  | (name, layout) :: rest =>
    partsOf (path ++ [.field name]) true (entries.lookup name) layout ++
      partsOfFields path entries rest

/-- The parts of the heads of a sequence, which are the first of the items from an index on. -/
def partsOfHeads (path : Path) (index : Nat) (items : List Value) : List Layout → List Part
  | [] => []
  | layout :: rest =>
    partsOf (path ++ [.index index]) true items.head? layout ++
      partsOfHeads path (index + 1) items.tail rest

end

/-! ## Passes -/

/-- What a pass makes of a leaf and of a number of elements, and how it joins what it makes. -/
structure Pass (α : Type) where
  encoding : TextEncoding
  leaf : Primitive → Value → Except LeafFault α
  count : Nat → α
  nothing : α
  join : α → α → α
  nothing_join : ∀ result, join nothing result = result
  join_nothing : ∀ result, join result nothing = result
  join_assoc : ∀ first second third, join (join first second) third = join first (join second third)

def writing (encoding : TextEncoding) : Pass (List UInt8) where
  encoding := encoding
  leaf := writeLeaf encoding
  count number := Wire.varuintBytes (UInt64.ofNat number)
  nothing := []
  join := (· ++ ·)
  nothing_join := List.nil_append
  join_nothing := List.append_nil
  join_assoc := List.append_assoc

def measuring (encoding : TextEncoding) : Pass Nat where
  encoding := encoding
  leaf := measureLeaf ⟨encoding, true⟩
  count number := Wire.varuintLength (UInt64.ofNat number)
  nothing := 0
  join := (· + ·)
  nothing_join := Nat.zero_add
  join_nothing := Nat.add_zero
  join_assoc := Nat.add_assoc

variable {α : Type}

/-- What a pass does at a node, before the children: a leaf is converted, and a container has to be
of its kind and to have an element for every head. -/
def Node.outcome (pass : Pass α) (node : Node) : Except EncodeError α :=
  match node.value? with
  | none => .error (.missingField node.path)
  | some value =>
    match node.layout, value with
    | .leaf type, value =>
      (pass.leaf type value).mapError (LeafFault.toError node.path type pass.encoding value)
    | .mapping _, .mapping _ => .ok pass.nothing
    | .mapping _, other => .error (.typeMismatch node.path (.container .mapping) other)
    | .sequence heads _, .sequence items =>
      if heads.length ≤ items.length then .ok pass.nothing
      else .error (.shortSequence node.path heads.length items.length)
    | .sequence _ _, other => .error (.typeMismatch node.path (.container .sequence) other)

theorem Node.outcome_of_long (pass : Pass α) (path : Path) {heads : List Layout} (tail : Layout)
    {items : List Value} (long : heads.length ≤ items.length) :
    (Node.mk path (.sequence heads tail) (some (.sequence items))).outcome pass =
      .ok pass.nothing :=
  if_pos long

theorem Node.outcome_of_short (pass : Pass α) (path : Path) {heads : List Layout} (tail : Layout)
    {items : List Value} (short : ¬heads.length ≤ items.length) :
    (Node.mk path (.sequence heads tail) (some (.sequence items))).outcome pass =
      .error (.shortSequence path heads.length items.length) :=
  if_neg short

def Part.outcome (pass : Pass α) : Part → Except EncodeError α
  | .node found => found.outcome pass
  | .count number => .ok (pass.count number)

namespace Pass

/-- The joined results of parts, or the failure of the first part that fails. -/
def run (pass : Pass α) (parts : List Part) : Except EncodeError α := do
  let results ← parts.mapM (Part.outcome pass)
  return results.foldr pass.join pass.nothing

variable {pass : Pass α}

theorem foldr_join_append (first second : List α) :
    (first ++ second).foldr pass.join pass.nothing =
      pass.join (first.foldr pass.join pass.nothing) (second.foldr pass.join pass.nothing) := by
  induction first with
  | nil => exact (pass.nothing_join _).symm
  | cons result rest ih =>
      rw [List.cons_append, List.foldr_cons, List.foldr_cons, ih, pass.join_assoc]

theorem run_append (first second : List Part) :
    pass.run (first ++ second) = (do
      let result ← pass.run first
      let others ← pass.run second
      return pass.join result others) := by
  simp only [run, List.mapM_append, bind_assoc, pure_bind, foldr_join_append]

theorem outcome_of_run {parts : List Part} {result : α} (success : pass.run parts = .ok result) :
    ∀ part ∈ parts, ∃ found, part.outcome pass = .ok found := by
  obtain ⟨results, success, -⟩ := bind_pure_eq_ok_iff.mp success
  exact exists_mapM_eq_ok_iff.mp ⟨results, success⟩

theorem run_singleton (part : Part) : pass.run [part] = part.outcome pass := by
  simp only [run, List.mapM_cons, List.mapM_nil, bind_assoc, pure_bind, List.foldr_cons,
    List.foldr_nil, pass.join_nothing, bind_pure]

theorem run_append_count {number : α} {count : List Part} (counted : pass.run count = .ok number)
    (first rest : List Part) :
    pass.run (first ++ (count ++ rest)) = (do
      let result ← pass.run first
      let others ← pass.run rest
      return pass.join result (pass.join number others)) := by
  have number_bind : ∀ next : α → Except EncodeError α, (Except.ok number >>= next) = next number :=
    fun _ => rfl
  simp only [run_append, counted, number_bind, bind_assoc, pure_bind]

/-- A container that is what it has to be adds nothing to its children. -/
theorem run_entered {node : Node} (entered : node.outcome pass = .ok pass.nothing)
    (children : List Part) : pass.run (.node node :: children) = pass.run children := by
  rw [← List.singleton_append, run_append, run_singleton, Part.outcome, entered]
  change (do let others ← pass.run children; return pass.join pass.nothing others) = _
  simp only [pass.nothing_join, bind_pure]

theorem run_refused {node : Node} {e : EncodeError} (refused : node.outcome pass = .error e)
    (children : List Part) : pass.run (.node node :: children) = .error e := by
  rw [← List.singleton_append, run_append, run_singleton, Part.outcome, refused]
  rfl

/-- Where there is no value the field is missing. -/
theorem run_absent (path : Path) (counted : Bool) (layout : Layout) :
    pass.run (partsOf path counted none layout) = .error (.missingField path) := by
  cases layout with
  | leaf | mapping | sequence => exact run_refused rfl _

end Pass

/-! ## Children -/

def orMissing (path : Path) : Option Value → Except EncodeError Value
  | some value => .ok value
  | none => .error (.missingField path)

theorem fieldValue_eq (path : Path) (entries : List (String × Value)) (name : String) :
    fieldValue path entries name = orMissing (path ++ [.field name]) (entries.lookup name) := by
  rw [fieldValue]
  cases entries.lookup name <;> rfl

theorem headValue_eq (path : Path) (index : Nat) (items : List Value) :
    headValue path index items = orMissing (path ++ [.index index]) items.head? := by
  cases items <;> rfl

/-- A recursion that runs over the parts of every value does so also where the value is missing. -/
theorem run_orMissing {pass : Pass α} {path : Path} {layout : Layout}
    {recursion : Value → Except EncodeError α}
    (each : ∀ value, recursion value = pass.run (partsOf path true (some value) layout))
    (value? : Option Value) :
    (do let value ← orMissing path value?; recursion value) =
      pass.run (partsOf path true value? layout) := by
  cases value? with
  | some value => exact each value
  | none => exact (Pass.run_absent _ _ _).symm

/-! ## Writing -/

def WritesParts (encoding : TextEncoding) (layout : Layout) : Prop :=
  ∀ (path : Path) (counted : Bool) (value : Value),
    writeLayout encoding path counted value layout =
      (writing encoding).run (partsOf path counted (some value) layout)

theorem writeFields_eq_run {encoding : TextEncoding} {fields : List (String × Layout)}
    (each : ∀ field ∈ fields, WritesParts encoding field.2) (path : Path)
    (entries : List (String × Value)) :
    writeFields encoding path entries fields =
      (writing encoding).run (partsOfFields path entries fields) := by
  induction fields with
  | nil => rfl
  | cons field rest ih =>
      obtain ⟨first, others⟩ := List.forall_mem_cons.mp each
      rw [writeFields, partsOfFields, Pass.run_append, ← ih others, ← run_orMissing (first _ _),
        ← fieldValue_eq, bind_assoc]
      rfl

theorem writeHeads_eq_run {encoding : TextEncoding} {heads : List Layout}
    (each : ∀ head ∈ heads, WritesParts encoding head) (path : Path) (index : Nat)
    (items : List Value) :
    writeHeads encoding path index items heads =
      (writing encoding).run (partsOfHeads path index items heads) := by
  induction heads generalizing index items with
  | nil => rfl
  | cons head rest ih =>
      obtain ⟨first, others⟩ := List.forall_mem_cons.mp each
      rw [writeHeads, partsOfHeads, Pass.run_append, ← ih others, ← run_orMissing (first _ _),
        ← headValue_eq, bind_assoc]
      rfl

theorem writeItems_eq_run {encoding : TextEncoding}
    {write : Path → Value → Except EncodeError (List UInt8)} {parts : Path → Value → List Part}
    (each : ∀ path item, write path item = (writing encoding).run (parts path item)) (path : Path)
    (index : Nat) (items : List Value) :
    writeItems write path index items =
      (writing encoding).run (partsOfItems parts path index items) := by
  induction items generalizing index with
  | nil => rfl
  | cons item rest ih =>
      rw [partsOfItems, Pass.run_append, ← ih, ← each]
      rfl

theorem run_writing_partsOfCount (encoding : TextEncoding) (counted : Bool) (number : Nat) :
    (writing encoding).run (partsOfCount counted number) = .ok (countBytes counted number) := by
  cases counted with
  | false => rfl
  | true => exact Pass.run_singleton _

theorem writesParts (encoding : TextEncoding) (layout : Layout) : WritesParts encoding layout := by
  induction layout with
  | leaf type =>
      intro path counted value
      rw [partsOf, Pass.run_singleton]
      rfl
  | mapping fields ih =>
      intro path counted value
      cases value with
      | mapping entries => exact (writeFields_eq_run ih path entries).trans (Pass.run_entered rfl _).symm
      | boolean | integer | float | text | bytes | sequence =>
          exact (Pass.run_refused rfl _).symm
  | sequence heads tail headsIh tailIh =>
      intro path counted value
      cases value with
      | sequence items =>
          simp only [writeLayout, partsOf]
          split
          · rename_i long
            rw [Pass.run_entered (Node.outcome_of_long _ _ _ long),
              Pass.run_append_count (run_writing_partsOfCount _ _ _), ← writeHeads_eq_run headsIh,
              ← writeItems_eq_run fun place item => tailIh place true item]
            rfl
          · rename_i short
            exact (Pass.run_refused (Node.outcome_of_short _ _ _ short) _).symm
      | boolean | integer | float | text | bytes | mapping =>
          exact (Pass.run_refused rfl _).symm

/-! ## Measuring -/

/-- With the guard on a child is always looked at. -/
theorem measureLayout_bind {options : Options} (strict : options.validate = true) (path : Path)
    (counted : Bool) (child : Except EncodeError Value) (layout : Layout) :
    measureLayout options path counted child layout = (do
      let value ← child
      measureLayout options path counted (.ok value) layout) := by
  cases child with
  | ok value => rfl
  | error e =>
      cases layout with
      | leaf type =>
          simp only [measureLayout, strict]
          cases type.width? <;> rfl
      | mapping | sequence => rfl

theorem measureRepeated_of_strict {options : Options} (strict : options.validate = true)
    (width? : Option Nat) (measure : Path → Value → Except EncodeError Nat) (path : Path)
    (index : Nat) (items : List Value) :
    measureRepeated options width? measure path index items =
      sumOfItems measure path index items := by
  unfold measureRepeated
  rw [strict]
  cases width? <;> rfl

def MeasuresParts (encoding : TextEncoding) (layout : Layout) : Prop :=
  ∀ (path : Path) (counted : Bool) (value : Value),
    measureLayout ⟨encoding, true⟩ path counted (.ok value) layout =
      (measuring encoding).run (partsOf path counted (some value) layout)

theorem measureFields_eq_run {encoding : TextEncoding} {fields : List (String × Layout)}
    (each : ∀ field ∈ fields, MeasuresParts encoding field.2) (path : Path)
    (entries : List (String × Value)) :
    measureFields ⟨encoding, true⟩ path entries fields =
      (measuring encoding).run (partsOfFields path entries fields) := by
  induction fields with
  | nil => rfl
  | cons field rest ih =>
      obtain ⟨first, others⟩ := List.forall_mem_cons.mp each
      rw [measureFields, partsOfFields, Pass.run_append, ← ih others,
        ← run_orMissing (first _ _), ← fieldValue_eq, ← measureLayout_bind rfl]
      rfl

theorem measureHeads_eq_run {encoding : TextEncoding} {heads : List Layout}
    (each : ∀ head ∈ heads, MeasuresParts encoding head) (path : Path) (index : Nat)
    (items : List Value) :
    measureHeads ⟨encoding, true⟩ path index items heads =
      (measuring encoding).run (partsOfHeads path index items heads) := by
  induction heads generalizing index items with
  | nil => rfl
  | cons head rest ih =>
      obtain ⟨first, others⟩ := List.forall_mem_cons.mp each
      rw [measureHeads, partsOfHeads, Pass.run_append, ← ih others,
        ← run_orMissing (first _ _), ← headValue_eq, ← measureLayout_bind rfl]
      rfl

theorem sumOfItems_eq_run {encoding : TextEncoding} {measure : Path → Value → Except EncodeError Nat}
    {parts : Path → Value → List Part}
    (each : ∀ path item, measure path item = (measuring encoding).run (parts path item))
    (path : Path) (index : Nat) (items : List Value) :
    sumOfItems measure path index items =
      (measuring encoding).run (partsOfItems parts path index items) := by
  induction items generalizing index with
  | nil => rfl
  | cons item rest ih =>
      rw [partsOfItems, Pass.run_append, ← ih, ← each]
      rfl

theorem run_measuring_partsOfCount (encoding : TextEncoding) (counted : Bool) (number : Nat) :
    (measuring encoding).run (partsOfCount counted number) = .ok (countLength counted number) := by
  cases counted with
  | false => rfl
  | true => exact Pass.run_singleton _

theorem measuresParts (encoding : TextEncoding) (layout : Layout) :
    MeasuresParts encoding layout := by
  induction layout with
  | leaf type =>
      intro path counted value
      rw [partsOf, Pass.run_singleton, measureLayout]
      cases type.width? <;> rfl
  | mapping fields ih =>
      intro path counted value
      cases value with
      | mapping entries =>
          exact (measureFields_eq_run ih path entries).trans (Pass.run_entered rfl _).symm
      | boolean | integer | float | text | bytes | sequence =>
          exact (Pass.run_refused rfl _).symm
  | sequence heads tail headsIh tailIh =>
      intro path counted value
      cases value with
      | sequence items =>
          rw [measureLayout, partsOf]
          change (if heads.length ≤ items.length then _ else _) = _
          split
          · rename_i long
            rw [Pass.run_entered (Node.outcome_of_long _ _ _ long),
              Pass.run_append_count (run_measuring_partsOfCount _ _ _),
              ← measureHeads_eq_run headsIh,
              ← sumOfItems_eq_run fun place item => tailIh place true item,
              measureRepeated_of_strict rfl]
            rfl
          · rename_i short
            exact (Pass.run_refused (Node.outcome_of_short _ _ _ short) _).symm
      | boolean | integer | float | text | bytes | mapping =>
          exact (Pass.run_refused rfl _).symm

end SchemaWire.Codec
