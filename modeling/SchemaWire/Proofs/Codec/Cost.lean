import SchemaWire.Proofs.Codec.EarlyCount
import SchemaWire.Proofs.Codec.Faults

/-!
# The cost of decoding

Every node below the root takes a byte at least: a leaf has one, a mapping has a field, and a
sequence has a count. So the loop of a root sequence ends on every input, a count that is greater
than the number of bytes that are left is refused in any case, and a decoded value has no more
leaves and nested sequences than bytes.
-/

set_option autoImplicit false

namespace SchemaWire.Codec

open Schema (AliasTable Definition Layout Plan)
open Wire (Read Reader)

/-! ## Weight -/

mutual

/-- The number of leaves and of sequences in a value. -/
def weight : Value → Nat
  | .boolean _ | .integer _ | .float _ | .text _ | .bytes _ => 1
  | .mapping entries => weightOfEntries entries
  | .sequence items => 1 + weightOfItems items

def weightOfEntries : List (String × Value) → Nat
  | [] => 0
  | (_, value) :: rest => weight value + weightOfEntries rest

def weightOfItems : List Value → Nat
  | [] => 0
  | value :: rest => weight value + weightOfItems rest

end

/-- The number of leaves of a value and of sequences below its root. -/
def weightBelow : Value → Nat
  | .sequence items => weightOfItems items
  | value => weight value

theorem weightOfItems_eq (items : List Value) : weightOfItems items = (items.map weight).sum := by
  induction items with
  | nil => rfl
  | cons item rest ih => rw [weightOfItems, ih, List.map_cons, List.sum_cons]

theorem weightBelow_le_weight (value : Value) : weightBelow value ≤ weight value := by
  cases value with
  | sequence items => exact Nat.le_add_left _ _
  | boolean | integer | float | text | bytes | mapping => exact Nat.le_refl _

/-- An entry replaces one of the same name, which only makes the mapping lighter. -/
theorem weightOfEntries_insertEntry (name : String) (value : Value)
    (entries : List (String × Value)) :
    weightOfEntries (insertEntry name value entries) ≤ weight value + weightOfEntries entries := by
  induction entries with
  | nil => exact Nat.le_refl _
  | cons first rest ih =>
      simp only [insertEntry]
      split
      · exact Nat.le_refl _
      · simp only [weightOfEntries]
        omega
      · simp only [weightOfEntries]
        omega

theorem weight_ofFields (fields : List (String × Value)) :
    weight (.ofFields fields) ≤ weightOfEntries fields := by
  suffices whole : ∀ entries, weightOfEntries (fields.foldl
      (fun entries field => insertEntry field.1 field.2 entries) entries) ≤
        weightOfEntries fields + weightOfEntries entries from whole []
  induction fields with
  | nil =>
      intro entries
      exact Nat.le_add_left _ _
  | cons field rest ih =>
      intro entries
      have others := ih (insertEntry field.1 field.2 entries)
      have first := weightOfEntries_insertEntry field.1 field.2 entries
      simp only [List.foldl_cons, weightOfEntries]
      omega

/-! ## Payment -/

variable {encoding : TextEncoding}

theorem weight_of_readLeaf {type : Primitive} {reader next : Reader} {value : Value}
    (success : readLeaf encoding type reader = .ok value next) : weight value = 1 := by
  have canonical := (ensures_readLeaf encoding type).ok success
  cases type with
  | boolean | float32 | float64 | varuint | varint | buffer =>
      obtain ⟨datum, rfl⟩ := canonical
      rfl
  | int8 | uint8 | int16 | uint16 | int32 | uint32 | string =>
      obtain ⟨datum, rfl, -⟩ := canonical
      rfl

theorem pays_readLeaf (type : Primitive) : Read.Pays (readLeaf encoding type) weight where
  paid success := by
    rw [weight_of_readLeaf success]
    exact (advances_readLeaf encoding type).pays.paid success

theorem pays_readFields {fields : List (String × Layout)}
    (each : ∀ field ∈ fields, Read.Pays (readLayout encoding true field.2) weight) :
    Read.Pays (readFields encoding fields) weightOfEntries := by
  induction fields with
  | nil => exact .pure rfl
  | cons field rest ih =>
      obtain ⟨first, others⟩ := List.forall_mem_cons.mp each
      exact first.pair (ih others) fun _ _ => Nat.le_refl _

theorem pays_readHeads {heads : List Layout}
    (each : ∀ head ∈ heads, Read.Pays (readLayout encoding true head) weight) :
    Read.Pays (readHeads encoding heads) fun items => (items.map weight).sum := by
  induction heads with
  | nil => exact .pure rfl
  | cons head rest ih =>
      obtain ⟨first, others⟩ := List.forall_mem_cons.mp each
      exact first.cons (ih others)

theorem weightOfItems_append (first second : List Value) :
    weightOfItems (first ++ second) = (first.map weight).sum + (second.map weight).sum := by
  rw [weightOfItems_eq, List.map_append, List.sum_append]

/-- Every leaf pays for itself and every nested sequence with its count. -/
theorem pays_readLayout (layout : Layout) : Read.Pays (readLayout encoding true layout) weight := by
  induction layout with
  | leaf type => exact pays_readLeaf type
  | mapping fields ih => exact (pays_readFields ih).map weight_ofFields
  | sequence heads tail headsIh tailIh =>
      have repeated : Read.Pays
          (do let count ← readCount; Read.times (readLayout encoding true tail) count)
          fun items => 1 + (items.map weight).sum :=
        advances_readCount.pays.bind (fun count => tailIh.times count) fun _ _ => Nat.le_refl _
      have sum : ∀ first others, weight (.sequence (first ++ others)) ≤
          (first.map weight).sum + (1 + (others.map weight).sum) := by
        intro first others
        rw [weight, weightOfItems_append]
        omega
      simpa only [readLayout, ↓reduceIte, bind_assoc] using
        (pays_readHeads headsIh).pair repeated sum

/-- A sequence to the end of the bytes has no count, so it is not paid for itself. -/
theorem pays_readRoot (layout : Layout) :
    Read.Pays (readLayout encoding false layout) weightBelow := by
  cases layout with
  | leaf type =>
      exact ⟨fun success => Nat.le_trans (Nat.add_le_add_right (weightBelow_le_weight _) _)
        ((pays_readLeaf type).paid success)⟩
  | mapping fields =>
      exact (pays_readFields fun field _ => pays_readLayout field.2).map fun entries =>
        Nat.le_trans (weightBelow_le_weight _) (weight_ofFields entries)
  | sequence heads tail =>
      have first : Read.Pays (readHeads encoding heads) fun items => (items.map weight).sum :=
        pays_readHeads fun head _ => pays_readLayout head
      have rest : Read.Pays (Read.toEnd (readLayout encoding true tail))
          fun items => (items.map weight).sum := (pays_readLayout tail).toEnd
      have sum : ∀ first others, weightBelow (.sequence (first ++ others)) ≤
          (first.map weight).sum + (others.map weight).sum := by
        intro first others
        exact Nat.le_of_eq (weightOfItems_append first others)
      simpa only [readLayout, Bool.false_eq_true, ↓reduceIte] using first.pair rest sum

/-! ## Decoding -/

theorem wellFormed_layoutAt? {path : Path} {layout node : Layout} (wellFormed : layout.WellFormed)
    (found : layoutAt? path layout = some node) : node.WellFormed := by
  induction path generalizing layout with
  | nil =>
      cases found
      exact wellFormed
  | cons segment rest ih =>
      cases wellFormed with
      | leaf type => cases segment <;> cases found
      | mapping nonempty distinct each =>
          cases segment with
          | index position => cases found
          | field name =>
              obtain ⟨child, declared, found⟩ := Option.bind_eq_some_iff.mp found
              exact ih (each (name, child) (mem_of_lookup declared)) found
      | @sequence heads tail each last =>
          cases segment with
          | field name => cases found
          | index position =>
              refine ih ?_ found
              cases declared : heads[position]? with
              | none => exact last
              | some head => exact each head (List.mem_of_getElem? declared)

/-- Elements that can be repeated: they take a byte each, so the loop ends and no more of them can be
read than bytes are left. -/
structure Repeatable (read : Read Value) : Prop where
  advances (reader next : Reader) (value : Value) : read reader = .ok value next →
    reader.position < next.position ∧ next.size = reader.size
  ends (reader : Reader) :
    ∃ rounds ≤ reader.remaining, Read.Rounds read reader rounds (Read.toEnd read reader)
  short (reader : Reader) (count : Nat) : reader.remaining < count →
    ∃ e next, Read.times read count reader = .error e next

theorem repeatable_readLayout {layout : Layout} (wellFormed : layout.WellFormed) :
    Repeatable (readLayout encoding true layout) where
  advances _ _ _ success :=
    (advances_readLayout encoding wellFormed).position_lt (local_readLayout encoding layout) success
  ends := Read.exists_rounds (advances_readLayout encoding wellFormed)
  short _ _ few := (advances_readLayout encoding wellFormed).times_fails few

theorem weightBelow_of_decode {options : Options} {layout : Layout} {bytes : List UInt8}
    {value : Value} (decoded : decode ⟨layout.plan, options⟩ bytes = .ok value) :
    weightBelow value ≤ bytes.length := by
  obtain ⟨next, success, -⟩ := decode_eq_ok_iff.mp decoded
  exact Nat.le_of_add_right_le ((pays_readRoot layout).paid success)

/-- Every node below the root takes a byte. So repeated elements are read to the end of every input,
refusing a count early refuses nothing else, and no value is larger than its bytes. -/
theorem cost_of_decode {aliases : AliasTable} {definition : Definition} {plan : Plan}
    (compiled : definition.compile aliases = .ok plan) (options : Options) :
    ∃ layout, definition.layout aliases = .ok layout ∧
      (∀ path node, path ≠ [] → layoutAt? path layout = some node →
        Read.Advances (readLayout options.encoding true node)) ∧
      (∀ inner, Plan.Within plan inner → ∀ slot heads tail counted,
        .closeSequence slot heads tail counted ∈ inner →
          Repeatable (readTail options.encoding tail)) ∧
      (∀ bytes value, decodeBy readDeclared ⟨plan, options⟩ bytes = .ok value ↔
        decode ⟨plan, options⟩ bytes = .ok value) ∧
      ∀ bytes value, decode ⟨plan, options⟩ bytes = .ok value →
        weightBelow value ≤ bytes.length := by
  obtain ⟨layout, laidOut, rfl⟩ := Definition.compile_eq_ok_iff.mp compiled
  have wellFormed := Definition.layout_wellFormed laidOut
  refine ⟨layout, laidOut, ?nodes, ?tails, ?counts, ?size⟩
  case nodes =>
    intro path node _ found
    exact advances_readLayout options.encoding (wellFormed_layoutAt? wellFormed found)
  case tails =>
    intro inner within slot heads tail counted member
    obtain ⟨found, foundCounted, foundWellFormed, rfl⟩ :=
      Schema.exists_layout_of_within within wellFormed rfl
    obtain ⟨element, elementWellFormed, rfl⟩ :=
      Schema.closesLayout_stepsIn foundWellFormed .whole foundCounted _ member
    rw [(stepsRead options.encoding element).asTail]
    exact repeatable_readLayout elementWellFormed
  case counts =>
    intro bytes value
    exact decodeBy_readDeclared_eq_ok_iff wellFormed
  case size =>
    intro bytes value decoded
    exact weightBelow_of_decode decoded

theorem cost_of_decode_tags :
    decodeBy readDeclared
        ⟨Layout.plan (.sequence [] (.mapping [("tags", .sequence [] (.leaf .uint8))])), .utf8, false⟩
        [2, 1, 7, 0] =
      .ok (.sequence [.mapping [("tags", .sequence [.integer 1, .integer 7])],
        .mapping [("tags", .sequence [])]]) ∧
    weightBelow (.sequence [.mapping [("tags", .sequence [.integer 1, .integer 7])],
      .mapping [("tags", .sequence [])]]) ≤ 4 := by
  have compiled : (Definition.sequence [.mapping [("tags", .sequence [.type "uint8"])]]).compile
      .initial = .ok (Layout.plan
        (.sequence [] (.mapping [("tags", .sequence [] (.leaf .uint8))]))) := rfl
  have decoded : decode
      ⟨Layout.plan (.sequence [] (.mapping [("tags", .sequence [] (.leaf .uint8))])), .utf8, false⟩
        [2, 1, 7, 0] =
      .ok (.sequence [.mapping [("tags", .sequence [.integer 1, .integer 7])],
        .mapping [("tags", .sequence [])]]) := rfl
  obtain ⟨layout, -, -, -, counts, size⟩ := cost_of_decode compiled ⟨.utf8, false⟩
  exact ⟨(counts _ _).mpr decoded, size _ _ decoded⟩

end SchemaWire.Codec
